import MelonSoc.Rtl.SocPkg

set_option autoImplicit false

/-! # The timer

`timer_mmio.sv`: a counter with a prescaler and a compare value. In a clock cycle the MMIO write
comes first and the counter after it; both read the registers of before the edge, and where both
assign a register the counter wins.
-/

namespace MelonSoc

/-- The registers of `timer_mmio.sv`. -/
structure TimerMmio where
  ctrlEn : Bool
  ctrlArmed : Bool
  ctrlPeriodic : Bool
  ctrlPrescEn : Bool
  ctrlIrqEn : Bool
  prescReg : Word
  countReg : Word
  cmpReg : Word
  periodReg : Word
  pending : Bool
  prescCnt : Word
  deriving DecidableEq

namespace TimerMmio

def reset : TimerMmio :=
  { ctrlEn := false, ctrlArmed := false, ctrlPeriodic := false, ctrlPrescEn := false
    ctrlIrqEn := false, prescReg := 0#32, countReg := 0#32, cmpReg := 0#32, periodReg := 0#32
    pending := false, prescCnt := 0#32 }

/-! ## Selection -/

def selCtrl (b : WbReq) : Bool := alignWord b.adr == ioTimerCtrlAddr
def selPresc (b : WbReq) : Bool := alignWord b.adr == ioTimerPrescAddr
def selCount (b : WbReq) : Bool := alignWord b.adr == ioTimerCountAddr
def selCmp (b : WbReq) : Bool := alignWord b.adr == ioTimerCmpAddr
def selPeriod (b : WbReq) : Bool := alignWord b.adr == ioTimerPeriodAddr
def selStatus (b : WbReq) : Bool := alignWord b.adr == ioTimerStatusAddr

/-- `bus.cyc && bus.stb && bus.we && (|bus.sel)`. -/
def written (b : WbReq) : Bool := b.cyc && b.stb && b.we && b.sel != 0#4

/-! ## The update -/

def tick (s : TimerMmio) : Bool :=
  if !s.ctrlEn then false
  else if !s.ctrlPrescEn then true
  else s.prescReg ≤ s.prescCnt

/-- The count that comes next is the compare value. -/
def matched (s : TimerMmio) : Bool := s.ctrlArmed && s.countReg + 1#32 == s.cmpReg

/-- A write to CTRL. -/
def writeCtrl (datW : Word) (s : TimerMmio) : TimerMmio :=
  if datW.getLsbD 31 then reset
  else
    { s with
      ctrlEn := datW.getLsbD 0
      ctrlArmed := datW.getLsbD 1
      ctrlPeriodic := datW.getLsbD 2
      ctrlPrescEn := datW.getLsbD 3
      ctrlIrqEn := datW.getLsbD 8 }

/-- The MMIO writes. -/
def mmioWrite (b : WbReq) (s : TimerMmio) : TimerMmio :=
  if !written b then s
  else
    let t := if selCtrl b then s.writeCtrl b.datW else s
    let t := if selPresc b then { t with prescReg := b.datW, prescCnt := 0#32 } else t
    let t := if selCount b then { t with countReg := b.datW } else t
    let t := if selPeriod b then { t with periodReg := b.datW } else t
    let t := if selCmp b then
        { t with
          cmpReg := b.datW
          pending := if s.ctrlEn && s.ctrlArmed && b.datW ≤ s.countReg then true else t.pending }
      else t
    if selStatus b && b.datW.getLsbD 0 then { t with pending := false } else t

/-- The prescaler and the counter: `s` are the registers before the edge, `t` is what the MMIO
write has made of them. -/
def coreUpdate (s t : TimerMmio) : TimerMmio :=
  if s.ctrlEn then
    let t := { t with
      prescCnt :=
        if !s.ctrlPrescEn then 0#32
        else if s.tick then 0#32
        else s.prescCnt + 1#32 }
    if s.tick then
      let t := { t with countReg := s.countReg + 1#32 }
      if s.matched then
        let t := { t with pending := true }
        if s.ctrlPeriodic then { t with cmpReg := s.cmpReg + s.periodReg }
        else { t with ctrlArmed := false }
      else t
    else t
  else { t with prescCnt := 0#32 }

/-- The registers after the clock edge. -/
def next (b : WbReq) (s : TimerMmio) : TimerMmio := coreUpdate s (s.mmioWrite b)

/-! ## The bus -/

/-- The bits of CTRL that are read back. -/
def ctrlRdata (s : TimerMmio) : Word :=
  (BitVec.ofBool s.ctrlIrqEn ++ 0#4 ++ BitVec.ofBool s.ctrlPrescEn ++
    BitVec.ofBool s.ctrlPeriodic ++ BitVec.ofBool s.ctrlArmed ++
    BitVec.ofBool s.ctrlEn).setWidth 32

/-- `bus.dat_r`. -/
def datR (b : WbReq) (s : TimerMmio) : Word :=
  if selCtrl b then s.ctrlRdata
  else if selPresc b then s.prescReg
  else if selCount b then s.countReg
  else if selCmp b then s.cmpReg
  else if selPeriod b then s.periodReg
  else if selStatus b then (BitVec.ofBool s.pending).setWidth 32
  else 0#32

end TimerMmio

end MelonSoc
