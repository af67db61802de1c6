import Mathlib.Algebra.Field.ZMod
import Mathlib.Algebra.Polynomial.Div
import Mathlib.Data.BitVec
import Mathlib.Data.ZMod.Basic
import Mathlib.Tactic.LinearCombination

set_option autoImplicit false

/-! # Cyclic redundancy checks, bit by bit

A CRC of width `w` is a shift register that takes one bit at a time: the register moves up, and
where the bit differs from the one that falls out, the generator is added. A generator is given by
the coefficients below its leading one, `x^16 + x^12 + x^5 + 1` is `0x1021` of width 16. The
register is linear in what it is fed, and it holds a remainder modulo the generator. A message
followed by its register feeds it back to zero, and an error burst that fits into the register
cannot.
-/

namespace Crc

variable {w : Nat}

/-- One bit into the register of the generator `g`. -/
def step (g c : BitVec w) (b : Bool) : BitVec w :=
  c <<< 1 ^^^ (if b ^^ c.msb then g else 0#w)

/-- A message into the register, its first bit first. -/
def feed (g c : BitVec w) (l : List Bool) : BitVec w := l.foldl (step g) c

section Register

variable {g c d : BitVec w} {a b : Bool} {l m : List Bool}

@[simp] theorem feed_nil : feed g c [] = c := rfl

@[simp] theorem feed_cons : feed g c (b :: l) = feed g (step g c b) l := rfl

theorem feed_append : feed g c (l ++ m) = feed g (feed g c l) m := List.foldl_append

theorem getLsbD_step {i : Nat} (hi : i < w) :
    (step g c b).getLsbD i = ((decide (0 < i) && c.getLsbD (i - 1)) ^^
      ((b ^^ c.msb) && g.getLsbD i)) := by
  rw [step, BitVec.getLsbD_xor, BitVec.getLsbD_shiftLeft]
  cases i <;> cases (b ^^ c.msb) <;> simp [hi]

/-! ## Linearity -/

theorem step_xor : step g (c ^^^ d) (a ^^ b) = step g c a ^^^ step g d b := by
  apply BitVec.eq_of_getLsbD_eq
  intro i hi
  rw [BitVec.getLsbD_xor, getLsbD_step hi, getLsbD_step hi, getLsbD_step hi, BitVec.getLsbD_xor,
    BitVec.msb_xor]
  cases a <;> cases b <;> cases c.msb <;> cases d.msb <;> cases g.getLsbD i <;>
    cases c.getLsbD (i - 1) <;> cases d.getLsbD (i - 1) <;> cases decide (0 < i) <;> rfl

/-- The register of a sum is the sum of the registers. -/
theorem feed_xor (h : l.length = m.length) :
    feed g (c ^^^ d) (List.zipWith xor l m) = feed g c l ^^^ feed g d m := by
  induction l generalizing c d m with
  | nil =>
      have hm : m = [] := List.eq_nil_of_length_eq_zero h.symm
      rw [hm]
      rfl
  | cons a l ih =>
      cases m with
      | nil => cases h
      | cons b m =>
          rw [List.zipWith_cons_cons, feed_cons, feed_cons, feed_cons, step_xor]
          exact ih (Nat.succ.inj h)

theorem step_zero : step g 0#w false = 0#w := by
  apply BitVec.eq_of_getLsbD_eq
  intro i hi
  rw [getLsbD_step hi]
  simp

theorem feed_zeros (n : Nat) : feed g 0#w (List.replicate n false) = 0#w := by
  induction n with
  | zero => rfl
  | succ n ih => rw [List.replicate_succ, feed_cons, step_zero, ih]

/-! ## When the register comes to zero -/

variable (hg : g.getLsbD 0 = true)

include hg

/-- A message of at most the width of the register brings it to zero exactly if it is what stands at
the top of the register and the rest of it is zero. -/
theorem feed_eq_zero_iff (hl : l.length ≤ w) :
    feed g c l = 0#w ↔
      (∀ k (h : k < l.length), c.getLsbD (w - 1 - k) = l.get ⟨k, h⟩) ∧
        ∀ i, i < w - l.length → c.getLsbD i = false := by
  induction l generalizing c with
  | nil =>
      constructor
      · intro h
        rw [feed_nil] at h
        refine ⟨fun k hk => absurd hk (by simp), fun i hi => ?_⟩
        rw [h]
        simp
      · intro h
        apply BitVec.eq_of_getLsbD_eq
        intro i hi
        rw [feed_nil, h.2 i (by simpa using hi)]
        simp
  | cons b l ih =>
      have hw : 0 < w := by
        simp only [List.length_cons] at hl
        omega
      simp only [List.length_cons] at hl ⊢
      have hmsb : c.msb = c.getLsbD (w - 1) := BitVec.msb_eq_getLsbD_last c
      rw [feed_cons, ih (by omega)]
      constructor
      · rintro ⟨htop, hlow⟩
        -- the bit 0 of the register says that the generator was not added
        have hb : (b ^^ c.msb) = false := by
          have h0 := hlow 0 (by omega)
          rw [getLsbD_step hw, hg] at h0
          simpa using h0
        have hshift : ∀ i, i + 1 < w → (step g c b).getLsbD (i + 1) = c.getLsbD i := by
          intro i hi
          rw [getLsbD_step hi, hb]
          simp
        refine ⟨fun k hk => ?_, fun i hi => ?_⟩
        · cases k with
          | zero =>
              rw [hmsb] at hb
              simp only [Nat.sub_zero, List.get_eq_getElem, List.getElem_cons_zero]
              cases b <;> simpa using hb
          | succ k =>
              have hk' : k < l.length := by omega
              have hpos : w - 1 - k = w - 1 - (k + 1) + 1 := by omega
              have hval := htop k hk'
              rw [hpos, hshift _ (by omega)] at hval
              exact hval
        · rw [← hshift i (by omega)]
          exact hlow (i + 1) (by omega)
      · rintro ⟨htop, hlow⟩
        have hb : (b ^^ c.msb) = false := by
          have h0 := htop 0 (by omega)
          simp only [Nat.sub_zero, List.get_eq_getElem, List.getElem_cons_zero] at h0
          rw [hmsb, h0, Bool.xor_self]
        refine ⟨fun k hk => ?_, fun i hi => ?_⟩
        · have hval := htop (k + 1) (by omega)
          have hpos : 0 < w - 1 - k := by omega
          have hprev : w - 1 - k - 1 = w - 1 - (k + 1) := by omega
          rw [getLsbD_step (by omega), hb, hprev, hval]
          simp [hpos]
        · rw [getLsbD_step (by omega), hb]
          by_cases h0 : i = 0
          · simp [h0]
          · rw [hlow (i - 1) (by omega)]
            simp

/-- Zeros keep a register that is not zero from coming to it. -/
theorem feed_zeros_ne (hc : c ≠ 0#w) (n : Nat) : feed g c (List.replicate n false) ≠ 0#w := by
  induction n generalizing c with
  | zero => exact hc
  | succ n ih =>
      refine ih fun h0 => hc ?_
      by_cases hw : w = 0
      · subst hw
        exact Subsingleton.elim _ _
      · -- a register of all zeros after one zero was all zeros before it
        have hone : feed g c [false] = 0#w := h0
        obtain ⟨htop, hlow⟩ := (feed_eq_zero_iff hg (by simp; omega)).mp hone
        apply BitVec.eq_of_getLsbD_eq
        intro i hi
        rw [BitVec.getLsbD_zero]
        by_cases hlast : i = w - 1
        · have h := htop 0 (by simp)
          rw [Nat.sub_zero] at h
          rw [hlast, h]
          rfl
        · exact hlow i (by simp; omega)

/-! ## Bursts -/

/-- **Burst errors.** An error that is not zero and whose ones lie within the width of the register
does not bring the register to zero. -/
theorem feed_burst_ne {k n : Nat} (hl : l.length + 1 ≤ w) :
    feed g 0#w (List.replicate k false ++ (true :: l) ++ List.replicate n false) ≠ 0#w := by
  rw [feed_append, feed_append, feed_zeros, feed_cons]
  refine feed_zeros_ne hg (fun h => ?_) n
  -- the first one puts the generator into the register, and its bit 0 would have to be zero
  have hfirst : (step g 0#w true).getLsbD 0 = true := by
    rw [getLsbD_step (by omega), hg]
    simp
  have hzero := ((feed_eq_zero_iff hg (by omega)).mp h).2 0 (by omega)
  rw [hfirst] at hzero
  cases hzero

omit hg

end Register

/-! ## Codewords -/

/-- The register as bits, the highest first. -/
def bits (c : BitVec w) : List Bool := (List.range w).map fun k => c.getLsbD (w - 1 - k)

section Codewords

variable {g : BitVec w} {l e : List Bool} {c : BitVec w}

@[simp] theorem bits_length (c : BitVec w) : (bits c).length = w := by
  simp [bits]

theorem bits_get (c : BitVec w) (k : Nat) (hk : k < (bits c).length) :
    (bits c).get ⟨k, hk⟩ = c.getLsbD (w - 1 - k) := by
  simp [bits]

/-- A message followed by a register comes to zero exactly if it is the register of the message. -/
theorem feed_bits_iff (hg : g.getLsbD 0 = true) :
    feed g 0#w (l ++ bits c) = 0#w ↔ feed g 0#w l = c := by
  rw [feed_append, feed_eq_zero_iff hg (bits_length c).le]
  constructor
  · rintro ⟨htop, -⟩
    apply BitVec.eq_of_getLsbD_eq
    intro i hi
    have h := htop (w - 1 - i) (by rw [bits_length]; omega)
    rw [bits_get] at h
    have hpos : w - 1 - (w - 1 - i) = i := by omega
    rwa [hpos] at h
  · rintro rfl
    refine ⟨fun k hk => (bits_get _ k hk).symm, fun i hi => ?_⟩
    rw [bits_length] at hi
    omega

/-- A burst on a codeword does not leave a codeword. -/
theorem burst_detected (hg : g.getLsbD 0 = true) (hl : feed g 0#w l = 0#w) {k n : Nat}
    {b : List Bool} (hb : b.length + 1 ≤ w)
    (he : e = List.replicate k false ++ (true :: b) ++ List.replicate n false)
    (hlen : e.length = l.length) : feed g 0#w (List.zipWith xor l e) ≠ 0#w := by
  intro h
  have hsum : feed g (0#w ^^^ 0#w) (List.zipWith xor l e) = feed g 0#w l ^^^ feed g 0#w e :=
    feed_xor hlen.symm
  rw [BitVec.xor_self, h, hl, BitVec.zero_xor, he] at hsum
  exact feed_burst_ne hg hb hsum.symm

end Codewords

/-! ## Remainders -/

section Remainders

open Polynomial

/-- A bit as a coefficient. -/
noncomputable def coeffOf (b : Bool) : (ZMod 2)[X] := if b then 1 else 0

/-- The polynomial of a register. -/
noncomputable def poly (c : BitVec w) : (ZMod 2)[X] :=
  ∑ i ∈ Finset.range w, coeffOf (c.getLsbD i) * X ^ i

/-- The generator with its leading coefficient. -/
noncomputable def generator (g : BitVec w) : (ZMod 2)[X] := X ^ w + poly g

/-- The polynomial of a message, the first bit the leading coefficient. -/
noncomputable def message (l : List Bool) : (ZMod 2)[X] :=
  l.foldl (fun p b => X * p + coeffOf b) 0

variable {g c d : BitVec w} {a b : Bool} {l : List Bool}

theorem coeffOf_xor : coeffOf (a ^^ b) = coeffOf a + coeffOf b := by
  cases a <;> cases b <;> simp [coeffOf, CharTwo.add_self_eq_zero]

theorem poly_xor : poly (c ^^^ d) = poly c + poly d := by
  rw [poly, poly, poly, ← Finset.sum_add_distrib]
  refine Finset.sum_congr rfl fun i _ => ?_
  rw [BitVec.getLsbD_xor, coeffOf_xor, add_mul]

theorem poly_zero : poly 0#w = 0 := by
  refine Finset.sum_eq_zero fun i _ => ?_
  simp [coeffOf]

theorem poly_shift : poly (c <<< 1) = X * poly c + coeffOf c.msb * X ^ w := by
  cases w with
  | zero =>
      have hc : c = 0#0 := Subsingleton.elim _ _
      simp [poly, hc, coeffOf]
  | succ n =>
      have hmsb : c.msb = c.getLsbD n := by
        rw [BitVec.msb_eq_getLsbD_last]
        rfl
      have hlow : poly (c <<< 1) =
          ∑ i ∈ Finset.range n, coeffOf (c.getLsbD i) * X ^ (i + 1) := by
        rw [poly, Finset.sum_range_succ']
        have h0 : coeffOf ((c <<< 1).getLsbD 0) * X ^ 0 = (0 : (ZMod 2)[X]) := by
          simp [coeffOf]
        rw [h0, add_zero]
        refine Finset.sum_congr rfl fun i hi => ?_
        have hin : i + 1 < n + 1 := Nat.succ_lt_succ (Finset.mem_range.mp hi)
        rw [BitVec.getLsbD_shiftLeft]
        simp [hin]
      have hhigh : X * poly c =
          (∑ i ∈ Finset.range n, coeffOf (c.getLsbD i) * X ^ (i + 1)) +
            coeffOf (c.getLsbD n) * X ^ (n + 1) := by
        rw [poly, Finset.sum_range_succ, mul_add, Finset.mul_sum]
        refine congrArg₂ (· + ·) (Finset.sum_congr rfl fun i _ => ?_) ?_
        · ring
        · ring
      rw [hlow, hhigh, hmsb, add_assoc, CharTwo.add_self_eq_zero, add_zero]

/-- One bit is multiplied in, modulo the generator. -/
theorem poly_step : poly (step g c b) =
    X * poly c + coeffOf b * X ^ w + coeffOf (b ^^ c.msb) * generator g := by
  have hif : poly (if b ^^ c.msb then g else 0#w) = coeffOf (b ^^ c.msb) * poly g := by
    cases (b ^^ c.msb) <;> simp [coeffOf, poly_zero]
  have hbit : coeffOf b * X ^ w + coeffOf b * X ^ w = (0 : (ZMod 2)[X]) :=
    CharTwo.add_self_eq_zero _
  rw [step, poly_xor, poly_shift, hif, generator, coeffOf_xor]
  linear_combination -hbit

theorem degree_poly (c : BitVec w) : (poly c).degree < w := by
  refine (Polynomial.degree_sum_le _ _).trans_lt ?_
  refine (Finset.sup_lt_iff (WithBot.bot_lt_coe w)).mpr fun i hi => ?_
  refine lt_of_le_of_lt ?_ (WithBot.coe_lt_coe.mpr (Finset.mem_range.mp hi))
  cases c.getLsbD i
  · simp [coeffOf]
  · rw [coeffOf, if_pos rfl, one_mul]
    exact degree_X_pow_le i

theorem monic_generator (g : BitVec w) : (generator g).Monic :=
  monic_X_pow_add (degree_poly g)

/-- **The register is the remainder** of the message, moved up by the width, modulo the
generator. -/
theorem message_mod : (message l * X ^ w) %ₘ generator g = poly (feed g 0#w l) := by
  have hq : ∃ q, poly (feed g 0#w l) + generator g * q = message l * X ^ w := by
    induction l using List.reverseRecOn with
    | nil => exact ⟨0, by simp [message, poly_zero]⟩
    | append_singleton l b ih =>
        obtain ⟨q, hq⟩ := ih
        refine ⟨X * q - coeffOf (b ^^ (feed g 0#w l).msb), ?_⟩
        have hmsg : message (l ++ [b]) = X * message l + coeffOf b := by
          rw [message, List.foldl_append]
          rfl
        rw [feed_append, feed_cons, feed_nil, poly_step, hmsg]
        linear_combination X * hq
  obtain ⟨q, hq⟩ := hq
  have hdeg : (generator g).degree = w := by
    rw [generator, degree_add_eq_left_of_degree_lt (by rw [degree_X_pow]; exact degree_poly g),
      degree_X_pow]
  exact (div_modByMonic_unique q _ (monic_generator g) ⟨hq, by rw [hdeg]; exact degree_poly _⟩).2

end Remainders

end Crc
