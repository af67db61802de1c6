import MelonSoc.Rtl.SocPkg

set_option autoImplicit false

/-! # The divider

`divider.sv`: 32 steps of restoring division. `start` is honoured when no division runs and
no result is pending; a result is presented for one cycle.
-/

namespace MelonSoc

/-- The registers of `divider.sv`. -/
structure Divider where
  dividend : Word
  divisor : BitVec 63
  quotient : Word
  quotientMsk : Word
  sign : Bool
  busy : Bool
  resultQ : Word
  resultR : Word
  resultValid : Bool

/-- The inputs of `divider.sv`. -/
structure DividerIn where
  start : Bool
  flush : Bool
  dividend : Word
  divisor : Word
  isSigned : Bool
  isRem : Bool

namespace Divider

def reset : Divider :=
  { dividend := 0#32, divisor := 0#63, quotient := 0#32, quotientMsk := 0#32, sign := false
    busy := false, resultQ := 0#32, resultR := 0#32, resultValid := false }

/-- `div_step_do`. -/
def stepDo (s : Divider) : Bool := s.divisor ≤ s.dividend.setWidth 63

/-- The absolute value of a signed operand; an unsigned one is taken as it is. -/
def magnitude (isSigned : Bool) (x : Word) : Word :=
  if isSigned && x.getLsbD 31 then -x else x

/-- The load of the operands: `start` in an idle divider. -/
def load (i : DividerIn) (s : Divider) : Divider :=
  if i.divisor == 0#32 then
    { s with resultQ := 0xFFFFFFFF#32, resultR := i.dividend, resultValid := true, busy := false }
  else
    { s with
      quotientMsk := 0x80000000#32
      busy := true
      dividend := magnitude i.isSigned i.dividend
      divisor := magnitude i.isSigned i.divisor ++ 0#31
      quotient := 0#32
      sign := i.isSigned && (if i.isRem then i.dividend.getLsbD 31
        else (i.dividend.getLsbD 31 != i.divisor.getLsbD 31) && i.divisor != 0#32) }

/-- One step of the division loop; the last one presents the result. -/
def iterate (s s1 : Divider) : Divider :=
  let dividendN := if s.stepDo then s.dividend - s.divisor.extractLsb' 0 32 else s.dividend
  let s2 := { s1 with
    dividend := dividendN
    divisor := s.divisor >>> 1
    quotient := if s.stepDo then s.quotient ||| s.quotientMsk else s.quotient
    quotientMsk := s.quotientMsk >>> 1 }
  if s.quotientMsk.getLsbD 0 then
    let q := if s.stepDo then s.quotient ||| 1#32 else s.quotient
    { s2 with
      busy := false
      resultValid := true
      resultQ := if s.sign then -q else q
      resultR := if s.sign then -dividendN else dividendN }
  else s2

/-- The registers after the clock edge. As in the source the flush comes first and a load or
the last step overrides it. -/
def next (i : DividerIn) (s : Divider) : Divider :=
  let s1 :=
    if i.flush then { s with busy := false, resultValid := false }
    else if s.resultValid && !i.start then { s with resultValid := false }
    else s
  if !s.busy then
    if i.start && !s.resultValid then load i s1 else s1
  else iterate s s1

end Divider

end MelonSoc
