import MelonSoc.Lib.RestoringDivision
import MelonSoc.Rtl.Divider
import Mathlib.Tactic.Ring

set_option autoImplicit false

/-! # The divider divides

`divider.sv` finds one quotient bit a cycle, with the divisor shifted right and a one-hot mask
that marks the bit. That is restoring division (`Lib/RestoringDivision.lean`) on the magnitudes
of the operands; the sign is applied to the result of the last step.
-/

namespace MelonSoc

/-- The result of DIV, DIVU, REM and REMU on `a` and `b`. -/
def quotRem (isSigned isRem : Bool) (a b : Word) : Word :=
  if b == 0#32 then (if isRem then a else 0xFFFFFFFF#32)
  else if isSigned then (if isRem then a.srem b else a.sdiv b)
  else (if isRem then a % b else a / b)

namespace Divider

/-- The sign of the requested result. -/
def signOf (i : DividerIn) : Bool :=
  i.isSigned && (if i.isRem then i.dividend.getLsbD 31
    else (i.dividend.getLsbD 31 != i.divisor.getLsbD 31) && i.divisor != 0#32)

/-- A division of the operands of `i` with `j + 1` bits still to find. -/
structure Running (i : DividerIn) (s : Divider) (j : Nat) : Prop where
  bits : j < 32
  nonzero : i.divisor ≠ 0#32
  mask : s.quotientMsk = BitVec.twoPow 32 j
  shifted : s.divisor.toNat = (magnitude i.isSigned i.divisor).toNat * 2 ^ j
  restoring : Restoring (magnitude i.isSigned i.dividend).toNat
    (magnitude i.isSigned i.divisor).toNat s.dividend.toNat s.quotient.toNat (j + 1)
  sign : s.sign = signOf i

/-- What the divider says about the operands of `i`: it is still dividing them, or the result
it presents is theirs. -/
structure Correct (i : DividerIn) (s : Divider) : Prop where
  running : s.busy = true → s.resultValid = false ∧ ∃ j, Running i s j
  result : s.resultValid = true →
    (if i.isRem then s.resultR else s.resultQ) = quotRem i.isSigned i.isRem i.dividend i.divisor

/-! ## Magnitudes and signs -/

theorem magnitude_ne_zero {sg : Bool} {b : Word} (h : b ≠ 0#32) : magnitude sg b ≠ 0#32 := by
  unfold magnitude
  split
  · simpa using h
  · exact h

/-- The quotient and the remainder of the magnitudes, with the sign applied, are those of the
operands. -/
theorem quotRem_of_magnitudes (i : DividerIn) (hb : i.divisor ≠ 0#32) :
    quotRem i.isSigned i.isRem i.dividend i.divisor
      = let q := magnitude i.isSigned i.dividend / magnitude i.isSigned i.divisor
        let r := magnitude i.isSigned i.dividend % magnitude i.isSigned i.divisor
        if i.isRem then (if signOf i then -r else r) else (if signOf i then -q else q) := by
  have hb' : (i.divisor == 0#32) = false := by simpa using hb
  have hne : (i.divisor != 0#32) = true := by simpa using hb
  have hma : i.dividend.msb = i.dividend.getLsbD 31 := by simp [BitVec.msb_eq_getLsbD_last]
  have hmb : i.divisor.msb = i.divisor.getLsbD 31 := by simp [BitVec.msb_eq_getLsbD_last]
  cases hs : i.isSigned with
  | false => simp [quotRem, hb', magnitude, signOf, hs]
  | true =>
      cases hx : i.dividend.getLsbD 31 <;> cases hy : i.divisor.getLsbD 31 <;>
        cases hr : i.isRem <;>
        simp only [quotRem, hb', hne, magnitude, signOf, hs, hx, hy, hr, BitVec.sdiv_eq,
          BitVec.srem_eq, hma, hmb] <;> rfl

/-! ## One step -/

/-- The comparison of `divider.sv` is the comparison of restoring division. -/
theorem stepDo_iff {i : DividerIn} {s : Divider} {j : Nat} (h : Running i s j) :
    s.stepDo = true ↔ (magnitude i.isSigned i.divisor).toNat * 2 ^ j ≤ s.dividend.toNat := by
  have hlt : s.dividend.toNat < 2 ^ 63 := Nat.lt_of_lt_of_le s.dividend.isLt (by decide)
  rw [stepDo, decide_eq_true_iff, BitVec.le_def, h.shifted, BitVec.toNat_setWidth,
    Nat.mod_eq_of_lt hlt]

/-- The new remainder, when the step subtracts. -/
theorem subtract_toNat {i : DividerIn} {s : Divider} {j : Nat} (h : Running i s j)
    (hle : (magnitude i.isSigned i.divisor).toNat * 2 ^ j ≤ s.dividend.toNat) :
    (s.dividend - s.divisor.extractLsb' 0 32).toNat
      = s.dividend.toNat - (magnitude i.isSigned i.divisor).toNat * 2 ^ j := by
  have hd : s.dividend.toNat < 2 ^ 32 := s.dividend.isLt
  have hx : (s.divisor.extractLsb' 0 32).toNat
      = (magnitude i.isSigned i.divisor).toNat * 2 ^ j := by
    rw [BitVec.extractLsb'_toNat, Nat.shiftRight_zero, h.shifted, Nat.mod_eq_of_lt]
    omega
  rw [BitVec.toNat_sub_of_le, hx]
  rw [BitVec.le_def, hx]
  exact hle

/-- Setting the marked bit of an aligned quotient is an addition. -/
theorem or_mask_toNat {q : Word} {j : Nat} (hj : j < 32) (ha : 2 ^ (j + 1) ∣ q.toNat) :
    (q ||| BitVec.twoPow 32 j).toNat = q.toNat + 2 ^ j := by
  obtain ⟨k, hk⟩ := ha
  have hlt : 2 ^ j < 2 ^ (j + 1) := Nat.pow_lt_pow_right (by decide) (Nat.lt_succ_self j)
  have hmod : (2 : Nat) ^ j % 2 ^ 32 = 2 ^ j :=
    Nat.mod_eq_of_lt (Nat.pow_lt_pow_right (by decide) hj)
  rw [BitVec.toNat_or, BitVec.toNat_twoPow, hmod, hk, Nat.two_pow_add_eq_or_of_lt hlt]

/-- The remainder and the quotient after a step. -/
theorem step_restoring {i : DividerIn} {s : Divider} {j : Nat} (h : Running i s j) :
    Restoring (magnitude i.isSigned i.dividend).toNat (magnitude i.isSigned i.divisor).toNat
      (if s.stepDo then s.dividend - s.divisor.extractLsb' 0 32 else s.dividend).toNat
      (if s.stepDo then s.quotient ||| s.quotientMsk else s.quotient).toNat j := by
  by_cases hs : s.stepDo = true
  · have hle := (stepDo_iff h).mp hs
    rw [if_pos hs, if_pos hs, subtract_toNat h hle, h.mask,
      or_mask_toNat h.bits h.restoring.aligned]
    exact h.restoring.subtract hle
  · have hlt := Nat.lt_of_not_le (fun hle => hs ((stepDo_iff h).mpr hle))
    rw [if_neg hs, if_neg hs]
    exact h.restoring.keep hlt

/-- The mask marks bit 0 in the last step only. -/
theorem mask_last {i : DividerIn} {s : Divider} {j : Nat} (h : Running i s j) :
    s.quotientMsk.getLsbD 0 = decide (j = 0) := by
  have hj := h.bits
  rw [h.mask, BitVec.getLsbD_twoPow]
  simpa using fun h0 : j = 0 => h0 ▸ hj

/-- The mask moves down a bit. -/
theorem twoPow_shift {k : Nat} (hj : k + 1 < 32) :
    BitVec.twoPow 32 (k + 1) >>> 1 = BitVec.twoPow 32 k := by
  have hk : (2 : Nat) ^ (k + 1) < 2 ^ 32 := Nat.pow_lt_pow_right (by decide) hj
  have hk' : (2 : Nat) ^ k < 2 ^ 32 := Nat.pow_lt_pow_right (by decide) (by omega)
  apply BitVec.eq_of_toNat_eq
  rw [BitVec.toNat_ushiftRight, BitVec.toNat_twoPow, BitVec.toNat_twoPow,
    Nat.mod_eq_of_lt hk, Nat.mod_eq_of_lt hk', Nat.shiftRight_one, Nat.pow_succ]
  omega

/-! ## The clock edge -/

/-- Without a start an idle divider can only withdraw its result. -/
theorem next_idle {i : DividerIn} {s : Divider} (hb : s.busy = false) (hs : i.start = false) :
    (s.next i).busy = false ∧ (s.next i).resultValid = false := by
  simp only [next, hb, hs]
  cases i.flush <;> cases hr : s.resultValid <;> simp [hb, hr]

/-- A load starts a division of the operands. -/
theorem load_correct (i : DividerIn) (s : Divider) (hv : s.resultValid = false) :
    Correct i (s.load i) := by
  unfold load
  by_cases hz : i.divisor = 0#32
  · rw [if_pos (by simpa using hz)]
    refine ⟨fun hb => by simp at hb, fun _ => ?_⟩
    cases hr : i.isRem <;> simp [quotRem, hz]
  · rw [if_neg (by simpa using hz)]
    refine ⟨fun _ => ⟨hv, 31, ?_⟩, fun hr => by simp [hv] at hr⟩
    refine ⟨by decide, hz, by simp; decide, ?_, ?_, rfl⟩
    · show (magnitude i.isSigned i.divisor ++ 0#31 : BitVec (32 + 31)).toNat = _
      rw [BitVec.toNat_append, Nat.shiftLeft_eq]
      simp
    · refine Restoring.start ?_
      have ha : (magnitude i.isSigned i.dividend).toNat < 2 ^ 32 := BitVec.isLt _
      have hb : 0 < (magnitude i.isSigned i.divisor).toNat := by
        rw [Nat.pos_iff_ne_zero]
        intro h0
        exact magnitude_ne_zero hz (BitVec.eq_of_toNat_eq (by simpa using h0))
      exact Nat.lt_of_lt_of_le ha (Nat.le_mul_of_pos_left _ hb)

/-- A step of the loop keeps the division going, and the last one presents its result. -/
theorem iterate_correct {i : DividerIn} {s : Divider} {j : Nat} (h : Running i s j)
    (hv : s.resultValid = false) : Correct i (iterate s s) := by
  have hstep := step_restoring h
  have hj := h.bits
  unfold iterate
  simp only [mask_last h]
  by_cases h0 : j = 0
  · subst h0
    rw [if_pos (by simp)]
    refine ⟨fun hb => by simp at hb, fun _ => ?_⟩
    obtain ⟨hq, hr⟩ := hstep.finish
    have hone : s.quotient ||| 1#32 = s.quotient ||| s.quotientMsk := by rw [h.mask]; rfl
    have hq' : (if s.stepDo then s.quotient ||| 1#32 else s.quotient)
        = magnitude i.isSigned i.dividend / magnitude i.isSigned i.divisor := by
      rw [hone]
      exact BitVec.eq_of_toNat_eq (by rw [hq, BitVec.toNat_udiv])
    have hr' : (if s.stepDo then s.dividend - s.divisor.extractLsb' 0 32 else s.dividend)
        = magnitude i.isSigned i.dividend % magnitude i.isSigned i.divisor :=
      BitVec.eq_of_toNat_eq (by rw [hr, BitVec.toNat_umod])
    simp only [hq', hr', h.sign]
    rw [quotRem_of_magnitudes i h.nonzero]
  · rw [if_neg (by simpa using h0)]
    obtain ⟨k, rfl⟩ := Nat.exists_eq_succ_of_ne_zero h0
    refine ⟨fun _ => ⟨hv, k, ?_⟩, fun hr => by simp [hv] at hr⟩
    refine ⟨by omega, h.nonzero, ?_, ?_, hstep, h.sign⟩
    · show s.quotientMsk >>> 1 = _
      rw [h.mask]
      exact twoPow_shift hj
    · show (s.divisor >>> 1).toNat = _
      rw [BitVec.toNat_ushiftRight, h.shifted, Nat.shiftRight_one, Nat.pow_succ, ← Nat.mul_assoc,
        Nat.mul_div_cancel _ (by decide)]

/-- `i` and `o` ask for the same division. -/
structure SameDivision (i o : DividerIn) : Prop where
  dividend : i.dividend = o.dividend
  divisor : i.divisor = o.divisor
  isSigned : i.isSigned = o.isSigned
  isRem : i.isRem = o.isRem

theorem Correct.congr {i o : DividerIn} {s : Divider} (h : Correct i s)
    (he : SameDivision i o) : Correct o s := by
  obtain ⟨st, fl, a, b, sg, rm⟩ := i
  obtain ⟨st', fl', a', b', sg', rm'⟩ := o
  obtain ⟨rfl, rfl, rfl, rfl⟩ := he
  refine ⟨fun hb => ?_, h.result⟩
  obtain ⟨hv, j, hr⟩ := h.running hb
  exact ⟨hv, j, ⟨hr.bits, hr.nonzero, hr.mask, hr.shifted, hr.restoring, hr.sign⟩⟩

/-- **The divider divides.** A clock edge keeps `Correct` for the operands `o` that were loaded,
as long as a running division is not flushed and only `o` is ever loaded. -/
theorem next_correct {i o : DividerIn} {s : Divider} (h : Correct o s)
    (hf : s.busy = true → i.flush = false)
    (hload : s.busy = false → i.start = true → SameDivision i o) : Correct o (s.next i) := by
  unfold next
  by_cases hb : s.busy = true
  · obtain ⟨hv, j, hrun⟩ := h.running hb
    simp only [hb, hf hb, hv]
    exact iterate_correct hrun hv
  · simp only [Bool.not_eq_true] at hb
    simp only [hb]
    by_cases hl : (i.start && !s.resultValid) = true
    · rw [Bool.not_false, if_pos rfl, if_pos hl]
      simp only [Bool.and_eq_true, Bool.not_eq_true'] at hl
      refine Correct.congr (load_correct i _ ?_) (hload hb hl.1)
      cases i.flush <;> simp [hl.2]
    · rw [Bool.not_false, if_pos rfl, if_neg hl]
      -- nothing is loaded: the result stays for its cycle or is withdrawn
      split
      · exact ⟨fun hb' => by simp at hb', fun hv => by simp at hv⟩
      · split
        · exact ⟨fun hb' => by simp at hb', fun hv => by simp at hv⟩
        · exact h

end Divider

end MelonSoc
