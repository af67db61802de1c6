import MelonSoc.Rtl.SocPkg

set_option autoImplicit false

/-! # The SD host

`sdhost_mmio.sv`: the MMIO registers with the status, and the machine that sends a command over
`sdcmd`, takes the response and reads a block from `sddat[0]`. The two clocked blocks are separate
records; each reads the registers of both. The machine moves at the edges of the SD clock only: it
drives its line at the falling ones and samples at the rising ones. `resp_shift`, which nothing
reads, is left out.
-/

namespace MelonSoc

namespace SdHost

/-! ## Checksums -/

def crc7Next (crc : BitVec 7) (bitIn : Bool) : BitVec 7 :=
  let inv := bitIn ^^ crc.getLsbD 6
  crc.extractLsb' 3 3 ++ BitVec.ofBool (crc.getLsbD 2 ^^ inv) ++ crc.extractLsb' 0 2 ++
    BitVec.ofBool inv

/-- The bits of a vector, the most significant one first. -/
def msbFirst {w : Nat} (v : BitVec w) : List Bool :=
  (List.range w).map fun k => v.getLsbD (w - 1 - k)

def crc7Cmd (cmd : BitVec 6) (arg : Word) : BitVec 7 :=
  (msbFirst (0b01#2 ++ cmd ++ arg)).foldl crc7Next 0#7

def crc16Next (crc : BitVec 16) (bitIn : Bool) : BitVec 16 :=
  let inv := bitIn ^^ crc.getLsbD 15
  crc.extractLsb' 12 3 ++ BitVec.ofBool (crc.getLsbD 11 ^^ inv) ++ crc.extractLsb' 5 6 ++
    BitVec.ofBool (crc.getLsbD 4 ^^ inv) ++ crc.extractLsb' 0 4 ++ BitVec.ofBool inv

/-- `{2'b01, cmd_idx, cmd_arg, crc7_cmd(cmd_idx, cmd_arg), 1'b1}`. -/
def cmdFrame (cmd : BitVec 6) (arg : Word) : BitVec 48 :=
  0b01#2 ++ cmd ++ arg ++ crc7Cmd cmd arg ++ 1#1

/-! ## Registers -/

inductive State
  | idle
  | cmdGap
  | cmdBits
  | respWait
  | respBits
  | busyWait
  | dataWait
  | dataBits
  | dataCrc
  | dataEnd
  | done
  deriving DecidableEq

/-- The bits of `status` that are ever set. -/
structure Status where
  busy : Bool
  done : Bool
  err : Bool
  read : Bool
  deriving DecidableEq

/-- The registers of the MMIO block. -/
structure Regs where
  cmdIdx : BitVec 6
  cmdArg : Word
  startRead : Bool
  status : Status
  deriving DecidableEq

/-- The registers of the machine. -/
structure Fsm where
  state : State
  resp0 : Word
  dataBuf : BitVec 7 → Word
  sdclkQ : Bool
  sdcmdOe : Bool
  sdcmdOut : Bool
  sdclkDiv : Nat
  cmdShift : BitVec 48
  bitCount : Nat
  timeout : Nat
  dataShift : Word
  dataBitCount : Nat
  dataCrcCalc : BitVec 16
  dataCrcRecv : BitVec 16
  opRead : Bool
  dataStarted : Bool
  dataDone : Bool
  opError : Bool

/-- `SDCLK_CMD_DIV_MAX` and `SDCLK_READ_DIV_MAX`. -/
structure Dividers where
  cmdDivMax : BitVec 8
  readDivMax : BitVec 8

/-- The dividers on the board. -/
def Dividers.board : Dividers := { cmdDivMax := 67#8, readDivMax := 0#8 }

/-- The dividers with `BENCH`. -/
def Dividers.bench : Dividers := { cmdDivMax := 1#8, readDivMax := 1#8 }

/-- What the outside contributes in a cycle: `cmd` is the level of `sdcmd` where the host does not
drive it. -/
structure In where
  bus : WbReq
  cmd : Bool
  dat : BitVec 4

/-! ## The MMIO block -/

namespace Regs

def reset : Regs :=
  { cmdIdx := 0#6, cmdArg := 0#32, startRead := false
    status := { busy := false, done := false, err := false, read := false } }

/-- `bus.cyc && bus.stb && bus.we` at an address. -/
def writes (b : WbReq) (adr : Word) : Bool := b.cyc && b.stb && b.we && alignWord b.adr == adr

/-- A write to CTRL. -/
def writeCtrl (datW : Word) (r : Regs) : Regs :=
  let t :=
    if datW.getLsbD 1 then { r with status := { r.status with done := false, err := false } } else r
  if datW.getLsbD 0 && !r.status.busy then
    { t with
      startRead := datW.getLsbD 3
      status := { busy := true, done := false, err := false, read := datW.getLsbD 3 } }
  else t

/-- The writes of a cycle. -/
def mmioWrite (b : WbReq) (r : Regs) : Regs :=
  let t := { r with startRead := false }
  if writes b ioSdCmdAddr then { t with cmdIdx := b.datW.setWidth 6 }
  else if writes b ioSdArgAddr then { t with cmdArg := b.datW }
  else if writes b ioSdCtrlAddr then t.writeCtrl b.datW
  else t

/-- The registers after the clock edge; `state == S_DONE` comes last. -/
def next (b : WbReq) (state : State) (opError : Bool) (r : Regs) : Regs :=
  let t := r.mmioWrite b
  if state = .done then
    { t with status := { busy := false, done := true, err := opError, read := r.status.read } }
  else t

end Regs

/-! ## The machine -/

namespace Fsm

def reset : Fsm :=
  { state := .idle, resp0 := 0#32, dataBuf := fun _ => 0#32, sdclkQ := false, sdcmdOe := false
    sdcmdOut := true, sdclkDiv := 0, cmdShift := BitVec.allOnes 48, bitCount := 0, timeout := 0
    dataShift := 0#32, dataBitCount := 0, dataCrcCalc := 0#16, dataCrcRecv := 0#16, opRead := false
    dataStarted := false, dataDone := false, opError := false }

/-- `sdclk_div_max`. -/
def sdclkDivMax (dv : Dividers) (r : Regs) : Nat :=
  if r.cmdIdx = 17#6 then dv.readDivMax.toNat else dv.cmdDivMax.toNat

/-- `bit_count - 8'd1`. -/
def bitDown (f : Fsm) : Nat := (f.bitCount + 255) % 256

/-- `timeout + 16'd1`. -/
def timeUp (f : Fsm) : Nat := (f.timeout + 1) % 65536

/-- The operation that `status` asks for begins. -/
def starts (r : Regs) : Bool := r.startRead || (r.status.busy && !r.status.done)

/-- A falling edge of the SD clock. -/
def fall (r : Regs) (f : Fsm) : Fsm :=
  match f.state with
  | .idle =>
      let t := { f with sdcmdOe := false, sdcmdOut := true }
      if starts r then
        { t with
          cmdShift := cmdFrame r.cmdIdx r.cmdArg
          bitCount := if r.cmdIdx = 0#6 then 80 else 8
          timeout := 0
          resp0 := 0#32
          opRead := r.startRead || r.status.read
          dataStarted := false
          dataDone := false
          dataCrcCalc := 0#16
          dataCrcRecv := 0#16
          opError := false
          state := .cmdGap }
      else t
  | .cmdGap =>
      let t := { f with sdcmdOe := true, sdcmdOut := true, bitCount := f.bitDown }
      if f.bitCount = 1 then { t with bitCount := 48, state := .cmdBits } else t
  | .cmdBits =>
      let t := { f with
        sdcmdOe := true
        sdcmdOut := f.cmdShift.getLsbD 47
        cmdShift := f.cmdShift.extractLsb' 0 47 ++ 1#1
        bitCount := f.bitDown }
      if f.bitCount = 1 then
        let t := { t with sdcmdOe := false }
        if r.cmdIdx = 0#6 then { t with state := .done }
        else
          { t with
            timeout := 0
            bitCount := if r.cmdIdx = 2#6 then 136 else 48
            resp0 := 0#32
            state := .respWait }
      else t
  | .done => { f with state := .idle }
  | _ => f

/-- A rising edge of the SD clock, with `sdcmd` and `sddat[0]`. -/
def rise (r : Regs) (cmd dat : Bool) (f : Fsm) : Fsm :=
  match f.state with
  | .respWait =>
      let t := { f with timeout := f.timeUp }
      if cmd = false then { t with bitCount := f.bitDown, state := .respBits }
      else if f.timeout = 65535 then { t with opError := true, state := .done }
      else t
  | .respBits =>
      let t := { f with
        bitCount := f.bitDown
        resp0 :=
          if f.bitCount ≤ 40 && 9 ≤ f.bitCount then f.resp0.extractLsb' 0 31 ++ BitVec.ofBool cmd
          else f.resp0 }
      if f.bitCount = 1 then
        if f.opRead then { t with timeout := 0, dataBitCount := 0, state := .dataWait }
        else if r.cmdIdx = 7#6 then { t with timeout := 0, bitCount := 8, state := .busyWait }
        else { t with state := .done }
      else t
  | .busyWait =>
      let t := { f with timeout := f.timeUp }
      let t :=
        if dat = false then { t with bitCount := 8 }
        else if f.bitCount = 1 then { t with state := .done }
        else { t with bitCount := f.bitDown }
      if f.timeout = 65535 then { t with opError := true, state := .done } else t
  | .dataWait =>
      let t := { f with timeout := f.timeUp }
      if dat = false then
        { t with
          dataStarted := true
          dataBitCount := 0
          dataShift := 0#32
          dataCrcCalc := 0#16
          dataCrcRecv := 0#16
          state := .dataBits }
      else if f.timeout = 65535 then { t with opError := true, state := .done }
      else t
  | .dataBits =>
      let word := f.dataShift.extractLsb' 0 31 ++ BitVec.ofBool dat
      let t := { f with
        dataShift := word
        dataCrcCalc := crc16Next f.dataCrcCalc dat
        dataBitCount := (f.dataBitCount + 1) % 4096
        dataBuf :=
          if f.dataBitCount % 32 = 31 then
            Function.update f.dataBuf (BitVec.ofNat 7 (f.dataBitCount / 32)) word
          else f.dataBuf }
      if f.dataBitCount = 4095 then { t with dataDone := true, bitCount := 16, state := .dataCrc }
      else t
  | .dataCrc =>
      let t := { f with
        dataCrcRecv := f.dataCrcRecv.extractLsb' 0 15 ++ BitVec.ofBool dat
        bitCount := f.bitDown }
      if f.bitCount = 1 then { t with state := .dataEnd } else t
  | .dataEnd =>
      { f with
        opError := if dat = false || f.dataCrcRecv ≠ f.dataCrcCalc then true else f.opError
        state := .done }
  | _ => f

/-- `sdcmd`. -/
def sdcmd (i : In) (f : Fsm) : Bool := if f.sdcmdOe then f.sdcmdOut else i.cmd

/-- The SD clock has an edge in this cycle. -/
def ticks (dv : Dividers) (r : Regs) (f : Fsm) : Bool := f.sdclkDiv == sdclkDivMax dv r

/-- The registers after the clock edge. -/
def next (dv : Dividers) (i : In) (r : Regs) (f : Fsm) : Fsm :=
  if !f.ticks dv r then { f with sdclkDiv := (f.sdclkDiv + 1) % 256 }
  else
    let t := if f.sdclkQ then f.fall r else f.rise r (f.sdcmd i) (i.dat.getLsbD 0)
    { t with sdclkDiv := 0, sdclkQ := !f.sdclkQ }

end Fsm

/-! ## Both -/

/-- The code of a state in `debug_status`. -/
def State.code : State → BitVec 4
  | .idle => 0
  | .cmdGap => 1
  | .cmdBits => 2
  | .respWait => 3
  | .respBits => 4
  | .busyWait => 5
  | .dataWait => 6
  | .dataBits => 7
  | .dataCrc => 8
  | .dataEnd => 9
  | .done => 10

def Status.word (s : Status) : Word :=
  0#28 ++ BitVec.ofBool s.read ++ BitVec.ofBool s.err ++ BitVec.ofBool s.done ++
    BitVec.ofBool s.busy

end SdHost

/-- The SD host. -/
structure SdHost where
  regs : SdHost.Regs
  fsm : SdHost.Fsm

namespace SdHost

def reset : SdHost := { regs := .reset, fsm := .reset }

/-- The registers after the clock edge. -/
def next (dv : Dividers) (i : In) (s : SdHost) : SdHost :=
  { regs := s.regs.next i.bus s.fsm.state s.fsm.opError
    fsm := s.fsm.next dv i s.regs }

def debugStatus (i : In) (s : SdHost) : Word :=
  0#2 ++ i.dat ++ BitVec.ofBool (s.fsm.sdcmd i) ++ BitVec.ofBool s.fsm.dataDone ++
    BitVec.ofBool s.fsm.dataStarted ++ BitVec.ofBool s.fsm.opRead ++ s.fsm.state.code ++
    BitVec.ofNat 12 s.fsm.dataBitCount ++ BitVec.ofNat 6 s.fsm.timeout

/-- `bus.dat_r`. -/
def datR (i : In) (s : SdHost) : Word :=
  let wordAddr := alignWord i.bus.adr
  if wordAddr = ioSdCmdAddr then s.regs.cmdIdx.setWidth 32
  else if wordAddr = ioSdArgAddr then s.regs.cmdArg
  else if wordAddr = ioSdCtrlAddr then s.regs.status.word
  else if wordAddr = ioSdResp0Addr then s.fsm.resp0
  else if wordAddr = ioSdDebugAddr then s.debugStatus i
  else if wordAddr = ioSdCrcAddr then s.fsm.dataCrcRecv ++ s.fsm.dataCrcCalc
  else if ioSdDataAddr ≤ wordAddr ∧ wordAddr < ioSdDataAddr + 512#32 then
    s.fsm.dataBuf ((wordAddr - ioSdDataAddr).extractLsb' 2 7)
  else 0#32

end SdHost

end MelonSoc
