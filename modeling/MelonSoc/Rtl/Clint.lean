import MelonSoc.Rtl.SocPkg

set_option autoImplicit false

/-! # The core local interruptor

`clint.sv`: the software interrupt bit, the 64-bit counter and its compare value. Registers are
selected by the offset of the byte address, without alignment.
-/

namespace MelonSoc

/-- The registers of `clint.sv`. -/
structure Clint where
  msipReg : Bool
  mtime : BitVec 64
  mtimecmp : BitVec 64
  deriving DecidableEq

namespace Clint

def reset : Clint := { msipReg := false, mtime := 0#64, mtimecmp := 0xFFFFFFFFFFFFFFFF#64 }

/-! ## Selection -/

/-- `offset`. -/
def offset (adr : Word) : Word := adr - ioClintBaseAddr

def selMsip (b : WbReq) : Bool := offset b.adr == 0x0#32
def selMtimecmpLo (b : WbReq) : Bool := offset b.adr == 0x4000#32
def selMtimecmpHi (b : WbReq) : Bool := offset b.adr == 0x4004#32
def selMtimeLo (b : WbReq) : Bool := offset b.adr == 0xBFF8#32
def selMtimeHi (b : WbReq) : Bool := offset b.adr == 0xBFFC#32

/-- `bus.cyc && bus.stb && bus.we && (|bus.sel)`. -/
def written (b : WbReq) : Bool := b.cyc && b.stb && b.we && b.sel != 0#4

/-! ## The registers -/

/-- `mtimecmp` after the clock edge. -/
def mtimecmpNext (b : WbReq) (s : Clint) : BitVec 64 :=
  if written b then
    let t := if selMtimecmpLo b then s.mtimecmp.extractLsb' 32 32 ++ b.datW else s.mtimecmp
    if selMtimecmpHi b then b.datW ++ t.extractLsb' 0 32 else t
  else s.mtimecmp

/-- The registers after the clock edge. -/
def next (b : WbReq) (s : Clint) : Clint :=
  { msipReg := if written b && selMsip b then b.datW.getLsbD 0 else s.msipReg
    mtime := s.mtime + 1#64
    mtimecmp := s.mtimecmpNext b }

/-- `bus.dat_r`. -/
def datR (b : WbReq) (s : Clint) : Word :=
  if selMsip b then (BitVec.ofBool s.msipReg).setWidth 32
  else if selMtimecmpLo b then s.mtimecmp.extractLsb' 0 32
  else if selMtimecmpHi b then s.mtimecmp.extractLsb' 32 32
  else if selMtimeLo b then s.mtime.extractLsb' 0 32
  else if selMtimeHi b then s.mtime.extractLsb' 32 32
  else 0#32

/-- `timer_irq`. -/
def timerIrq (s : Clint) : Bool := s.mtimecmp ≤ s.mtime

/-- `sw_irq`. -/
def swIrq (s : Clint) : Bool := s.msipReg

end Clint

end MelonSoc
