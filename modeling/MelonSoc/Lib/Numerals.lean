import Mathlib.Data.Nat.Digits.Lemmas
import Mathlib.Tactic.Ring

set_option autoImplicit false

/-! # Numerals

A number is written with its most significant digit first, so reading a numeral is Horner's rule
from the left. `Nat.digits` has the least significant digit first: the canonical numeral is its
reverse, with a single zero for zero. `fixed` writes a given number of digits.
-/

namespace Numerals

variable {b n d : Nat} {ds : List Nat}

/-- The number that the digits `ds` stand for. -/
def value (b : Nat) (ds : List Nat) : Nat := ds.foldl (fun n d => n * b + d) 0

@[simp] theorem value_nil : value b [] = 0 := rfl

theorem value_append (ds : List Nat) (d : Nat) : value b (ds ++ [d]) = value b ds * b + d := by
  rw [value, List.foldl_append]
  rfl

theorem value_reverse (ds : List Nat) : value b ds.reverse = Nat.ofDigits b ds := by
  induction ds with
  | nil => rfl
  | cons d ds ih =>
      rw [List.reverse_cons, value_append, ih, Nat.ofDigits_cons]
      ring

theorem value_cons (d : Nat) (ds : List Nat) :
    value b (d :: ds) = d * b ^ ds.length + value b ds := by
  induction ds using List.reverseRecOn with
  | nil => simp [value]
  | append_singleton ds e ih =>
      rw [← List.cons_append, value_append, value_append, ih, List.length_append,
        List.length_singleton]
      ring

/-- A numeral without a zero in front, or `0` itself. -/
structure Canonical (b n : Nat) (ds : List Nat) : Prop where
  nonempty : ds ≠ []
  digits : ∀ d ∈ ds, d < b
  leading : ds.head? = some 0 → ds = [0]
  value : value b ds = n

/-- The numeral of `n`. -/
def written (b n : Nat) : List Nat := if n = 0 then [0] else (Nat.digits b n).reverse

theorem head_ne_zero (hn : n ≠ 0) : (Nat.digits b n).reverse.head? ≠ some 0 := by
  have hne := Nat.digits_ne_nil_iff_ne_zero (b := b).mpr hn
  rw [List.head?_reverse, List.getLast?_eq_some_getLast hne]
  intro h
  exact Nat.getLast_digit_ne_zero b hn (Option.some.inj h)

theorem canonical_written (hb : 1 < b) : Canonical b n (written b n) := by
  by_cases hn : n = 0
  · rw [written, if_pos hn, hn]
    refine ⟨List.cons_ne_nil _ _, fun d hd => ?_, fun _ => rfl, by simp [value]⟩
    rw [List.mem_singleton.mp hd]
    exact Nat.lt_of_succ_lt hb
  · rw [written, if_neg hn]
    refine ⟨?_, fun d hd => ?_, fun h => absurd h (head_ne_zero hn), ?_⟩
    · rw [Ne, List.reverse_eq_nil_iff]
      exact Nat.digits_ne_nil_iff_ne_zero.mpr hn
    · exact Nat.digits_lt_base hb (List.mem_reverse.mp hd)
    · rw [value_reverse, Nat.ofDigits_digits]

/-- A canonical numeral is the numeral of its value. -/
theorem Canonical.unique (hb : 1 < b) (h : Canonical b n ds) : ds = written b n := by
  have hval := h.value
  rw [← List.reverse_reverse ds, value_reverse] at hval
  by_cases hzero : ds.head? = some 0
  · have hsingle := h.leading hzero
    rw [hsingle] at hval ⊢
    have hn : n = 0 := hval.symm
    rw [written, if_pos hn]
  · have hlast : ∀ hne : ds.reverse ≠ [], ds.reverse.getLast hne ≠ 0 := by
      intro hne heq
      apply hzero
      rw [← List.getLast?_reverse, List.getLast?_eq_some_getLast hne, heq]
    have hdigits := Nat.digits_ofDigits b hb ds.reverse
      (fun d hd => h.digits d (List.mem_reverse.mp hd)) hlast
    rw [hval] at hdigits
    have hn : n ≠ 0 := by
      rintro rfl
      rw [Nat.digits_zero] at hdigits
      exact h.nonempty (List.reverse_eq_nil_iff.mp hdigits.symm)
    rw [written, if_neg hn, hdigits, List.reverse_reverse]

/-! ## A fixed number of digits -/

/-- The last `k` digits of `n`. -/
def fixed (b n : Nat) : Nat → List Nat
  | 0 => []
  | k + 1 => n / b ^ k % b :: fixed b n k

@[simp] theorem fixed_length (k : Nat) : (fixed b n k).length = k := by
  induction k with
  | zero => rfl
  | succ k ih => rw [fixed, List.length_cons, ih]

theorem fixed_digits (hb : 0 < b) (k : Nat) : ∀ d ∈ fixed b n k, d < b := by
  induction k with
  | zero => exact fun d hd => absurd hd List.not_mem_nil
  | succ k ih =>
      intro d hd
      rcases List.mem_cons.mp hd with rfl | hd
      · exact Nat.mod_lt _ hb
      · exact ih d hd

theorem value_fixed (k : Nat) : value b (fixed b n k) = n % b ^ k := by
  induction k with
  | zero => rw [fixed, value_nil, pow_zero, Nat.mod_one]
  | succ k ih =>
      rw [fixed, value_cons, ih, fixed_length, Nat.pow_succ, Nat.mod_mul]
      ring

end Numerals
