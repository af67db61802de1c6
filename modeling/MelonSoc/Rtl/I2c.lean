import MelonSoc.Lib.BitFields
import MelonSoc.Rtl.SocPkg

set_option autoImplicit false

/-! # The I2C master

`i2c_mmio.sv`: the MMIO registers and the engine that works off one command. Both lines are open
drain: the engine pulls a line low or releases it. The two `always_ff` blocks read the registers of
before the edge; within the second one a later assignment wins. `scl` is never read back.
-/

namespace MelonSoc

namespace I2cMmio

/-- `state_t`. -/
inductive State
  | idle
  | start
  | bit0
  | bit1
  | ack0
  | ack1
  | stop0
  | stop1
  | done
  deriving DecidableEq

/-- What the module sees in a cycle; `sda` is the level of the line where the master does not pull
it low. -/
structure In where
  bus : WbReq
  sda : Bool

end I2cMmio

/-- The registers of `i2c_mmio.sv`. -/
structure I2cMmio where
  txReg : BitVec 8
  rxReg : BitVec 8
  divReg : BitVec 16
  cmdAck : Bool
  busy : Bool
  done : Bool
  nack : Bool
  state : I2cMmio.State
  divCnt : BitVec 16
  shiftReg : BitVec 8
  bitIdx : BitVec 3
  needStart : Bool
  needStop : Bool
  opWrite : Bool
  opRead : Bool
  sclDriveLow : Bool
  sdaDriveLow : Bool
  deriving DecidableEq

namespace I2cMmio

/-- `DEFAULT_DIV[15:0]` for a clock and an I2C rate. -/
def defaultDiv (clkFreqHz i2cDefaultHz : Nat) : BitVec 16 :=
  BitVec.ofNat 16
    (if 0 < clkFreqHz / (2 * i2cDefaultHz) then clkFreqHz / (2 * i2cDefaultHz) else 1)

def reset (clkFreqHz i2cDefaultHz : Nat) : I2cMmio :=
  { txReg := 0#8, rxReg := 0#8, divReg := defaultDiv clkFreqHz i2cDefaultHz, cmdAck := false
    busy := false, done := false, nack := false, state := .idle, divCnt := 0#16, shiftReg := 0#8
    bitIdx := 0#3, needStart := false, needStop := false, opWrite := false, opRead := false
    sclDriveLow := false, sdaDriveLow := false }

/-! ## Selection -/

def selTxrx (b : WbReq) : Bool := alignWord b.adr == ioI2cTxrxAddr
def selCmd (b : WbReq) : Bool := alignWord b.adr == ioI2cCmdAddr
def selStatus (b : WbReq) : Bool := alignWord b.adr == ioI2cStatusAddr
def selDiv (b : WbReq) : Bool := alignWord b.adr == ioI2cDivAddr

/-- `bus.cyc && bus.stb && bus.we && (|bus.sel)`. -/
def written (b : WbReq) : Bool := b.cyc && b.stb && b.we && b.sel != 0#4

/-- A command is accepted in this cycle. -/
def accepts (b : WbReq) (s : I2cMmio) : Bool := written b && selCmd b && !s.busy

/-! ## The engine -/

/-- `div_eff`. -/
def divEff (s : I2cMmio) : BitVec 16 := if s.divReg != 0#16 then s.divReg else 1#16

/-- `tick`. -/
def tick (s : I2cMmio) : Bool := s.divCnt == 0#16

/-- `sda_in`. -/
def sdaIn (i : In) (s : I2cMmio) : Bool := !s.sdaDriveLow && i.sda

/-- The MMIO registers of `s` are latched in `t`. -/
def latch (b : WbReq) (s t : I2cMmio) : I2cMmio :=
  { t with
    txReg := if written b && selTxrx b then b.datW.extractLsb' 0 8 else s.txReg
    divReg := if written b && selDiv b then b.datW.extractLsb' 0 16 else s.divReg }

/-- A command is taken over; `t` is what the assignment before it has made of `s`. -/
def accept (datW : Word) (s t : I2cMmio) : I2cMmio :=
  { t with
    cmdAck := datW.getLsbD 4
    needStart := datW.getLsbD 0
    needStop := datW.getLsbD 1
    opWrite := datW.getLsbD 2 && !datW.getLsbD 3
    opRead := datW.getLsbD 3
    done := false
    nack := false
    busy := true
    state :=
      if datW.getLsbD 0 then .start
      else if datW.getLsbD 2 || datW.getLsbD 3 then .bit0
      else if datW.getLsbD 1 then .stop0
      else .done
    shiftReg := s.txReg
    bitIdx := 7#3
    sclDriveLow := false
    sdaDriveLow := false
    divCnt := s.divEff }

/-- A tick of a command. -/
def edge (i : In) (s t : I2cMmio) : I2cMmio :=
  let t := { t with divCnt := if s.state = State.done then 0#16 else s.divEff }
  match s.state with
  | .start => { t with sclDriveLow := false, sdaDriveLow := true, state := .bit0 }
  | .bit0 =>
      { t with
        sclDriveLow := true
        sdaDriveLow := if s.opWrite then !s.shiftReg.getLsbD s.bitIdx.toNat else false
        state := .bit1 }
  | .bit1 =>
      let t := { t with
        sclDriveLow := false
        shiftReg :=
          if s.opRead then
            BitFields.put s.shiftReg s.bitIdx.toNat (BitVec.ofBool (s.sdaIn i))
          else t.shiftReg }
      if s.bitIdx = 0#3 then { t with state := .ack0 }
      else { t with bitIdx := s.bitIdx - 1#3, state := .bit0 }
  | .ack0 =>
      { t with
        sclDriveLow := true
        sdaDriveLow := if s.opWrite then false else s.cmdAck
        state := .ack1 }
  | .ack1 =>
      { t with
        sclDriveLow := false
        sdaDriveLow := false
        nack := if s.opWrite then s.sdaIn i else t.nack
        rxReg := if s.opRead then s.shiftReg else t.rxReg
        state := if s.needStop then .stop0 else .done }
  | .stop0 => { t with sclDriveLow := true, sdaDriveLow := true, state := .stop1 }
  | .stop1 => { t with sclDriveLow := false, sdaDriveLow := false, state := .done }
  | .done =>
      { t with
        sclDriveLow := false, sdaDriveLow := false, busy := false, done := true, state := .idle }
  | .idle => { t with state := .done }

/-- The engine after the clock edge, before the MMIO registers are latched. -/
def engine (i : In) (s : I2cMmio) : I2cMmio :=
  let t := if s.busy && s.divCnt != 0#16 then { s with divCnt := s.divCnt - 1#16 } else s
  let t := if accepts i.bus s then accept i.bus.datW s t else t
  if s.busy && s.tick then edge i s t else t

/-- The registers after the clock edge. -/
def next (i : In) (s : I2cMmio) : I2cMmio := latch i.bus s (engine i s)

/-! ## The bus -/

/-- `bus.dat_r`. -/
def datR (b : WbReq) (s : I2cMmio) : Word :=
  if selTxrx b then s.rxReg.setWidth 32
  else if selStatus b then
    (BitVec.ofBool s.nack ++ BitVec.ofBool s.done ++ BitVec.ofBool s.busy).setWidth 32
  else if selDiv b then s.divReg.setWidth 32
  else 0#32

end I2cMmio

end MelonSoc
