import MelonSoc.Lib.Accesses
import MelonSoc.Rtl.SdHost

set_option autoImplicit false

/-! # The driver of the SD host

`sdcard.c` up to the read of a block. `sd_delay` makes no access and is left out; a program of this
file can take its time between any two accesses.
-/

namespace MelonSoc

namespace SdCard

/-- The globals of `sdcard.c` that `sd_cmd` and `sdcard_read_block` use. -/
structure Globals where
  sdErr : BitVec 8
  lastStatus : Word
  lastDebug : Word
  lastCrc : Word
  lastResp : Word
  highCapacity : Bool
  deriving DecidableEq

/-- A program of the driver. -/
abbrev Driver (α : Type) := Access Word Word α

def sdCtrlStart : Word := 0x01#32
def sdCtrlClear : Word := 0x02#32
def sdCtrlRead : Word := 0x08#32

/-- `timeout` of `sd_cmd`. -/
def pollLimit : Nat := 2000000

/-- The loop of `sd_cmd`: the status with `DONE`, or nothing when the time is up. -/
def pollDone : Nat → Driver (Option Word)
  | 0 => pure none
  | timeout + 1 => do
      let st ← Access.get ioSdCtrlAddr
      if st.getLsbD 1 then pure (some st) else pollDone timeout

/-- What `sd_cmd` keeps of the registers. -/
def keepLast (g : Globals) (st : Word) : Driver Globals := do
  let debug ← Access.get ioSdDebugAddr
  let crc ← Access.get ioSdCrcAddr
  let resp ← Access.get ioSdResp0Addr
  pure { g with lastStatus := st, lastDebug := debug, lastCrc := crc, lastResp := resp }

/-- The end of `sd_cmd`, in its loop or after it. -/
def cmdResult (g : Globals) : Option Word → Driver (Bool × Globals)
  | some st => do
      let g ← keepLast g st
      pure (!st.getLsbD 2, g)
  | none => do
      let st ← Access.get ioSdCtrlAddr
      let g ← keepLast g st
      pure (false, g)

/-- `sd_cmd`; `true` is the return value 0. -/
def sdCmd (g : Globals) (cmd arg : Word) (readBlock : Bool) : Driver (Bool × Globals) := do
  Access.put ioSdCtrlAddr sdCtrlClear
  Access.put ioSdArgAddr arg
  Access.put ioSdCmdAddr cmd
  Access.put ioSdCtrlAddr (sdCtrlStart ||| if readBlock then sdCtrlRead else 0#32)
  let r ← pollDone pollLimit
  cmdResult g r

/-- The four bytes of a word as the loop of `sdcard_read_block` stores them. -/
def wordBytes (w : Word) : List (BitVec 8) :=
  [(w >>> 24).setWidth 8, (w >>> 16).setWidth 8, (w >>> 8).setWidth 8, w.setWidth 8]

/-- The loop over the data buffer: `n` words from the word `i` on. -/
def readData : Nat → Nat → Driver (List (BitVec 8))
  | _, 0 => pure []
  | i, n + 1 => do
      let w ← Access.get (ioSdDataAddr + BitVec.ofNat 32 (4 * i))
      let rest ← readData (i + 1) n
      pure (wordBytes w ++ rest)

/-- The attempts of `sdcard_read_block`: the block, or nothing when there is none left. -/
def attempts (g : Globals) (cmdArg : Word) : Nat → Driver (Option (List (BitVec 8)) × Globals)
  | 0 => pure (none, { g with sdErr := 17#8 })
  | n + 1 => do
      let (ok, g) ← sdCmd g 17#32 cmdArg true
      if ok then do
        let out ← readData 0 128
        pure (some out, { g with sdErr := 0#8 })
      else attempts g cmdArg n

/-- `sdcard_read_block`: what it stores to `out512` where it returns 0. -/
def sdcardReadBlock (g : Globals) (lba : Word) : Driver (Option (List (BitVec 8)) × Globals) :=
  if g.highCapacity then attempts g lba 3
  else if 0xFFFFFFFF#32 >>> 9 < lba then pure (none, { g with sdErr := 17#8 })
  else attempts g (lba <<< 9) 3

end SdCard

end MelonSoc
