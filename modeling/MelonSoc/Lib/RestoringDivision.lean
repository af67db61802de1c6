import Mathlib.Algebra.Ring.Nat
import Mathlib.Algebra.Order.Ring.Nat
import Mathlib.Tactic.Ring

set_option autoImplicit false

/-! # Restoring division

Long division in base two by conditional subtraction. The state is the partial remainder `r` and
the quotient bits `q` found so far; with `j` bits still to come the divisor is compared at weight
`2 ^ (j - 1)`. `Restoring a b r q j` is what every step keeps, and with no bits left it says that
`q` and `r` are the quotient and the remainder.
-/

/-- The division of `a` by `b` with `j` quotient bits still to find. -/
structure Restoring (a b r q j : Nat) : Prop where
  balance : r + q * b = a
  small : r < b * 2 ^ j
  aligned : 2 ^ j ∣ q

namespace Restoring

variable {a b r q j : Nat}

/-- Before the first step nothing has been subtracted. -/
theorem start (h : a < b * 2 ^ j) : Restoring a b a 0 j :=
  ⟨by simp, h, by simp⟩

/-- A step that subtracts sets the next quotient bit. -/
theorem subtract (h : Restoring a b r q (j + 1)) (hle : b * 2 ^ j ≤ r) :
    Restoring a b (r - b * 2 ^ j) (q + 2 ^ j) j := by
  refine ⟨?_, ?_, ?_⟩
  · have hb := h.balance
    have hmul : (q + 2 ^ j) * b = q * b + b * 2 ^ j := by ring
    omega
  · have hs := h.small
    have hpow : b * 2 ^ (j + 1) = b * 2 ^ j + b * 2 ^ j := by ring
    omega
  · exact Nat.dvd_add ((Nat.pow_dvd_pow 2 (Nat.le_succ j)).trans h.aligned) (Nat.dvd_refl _)

/-- A step that does not subtract leaves the bit clear. -/
theorem keep (h : Restoring a b r q (j + 1)) (hlt : r < b * 2 ^ j) : Restoring a b r q j :=
  ⟨h.balance, hlt, (Nat.pow_dvd_pow 2 (Nat.le_succ j)).trans h.aligned⟩

/-- **The last step leaves quotient and remainder.** -/
theorem finish (h : Restoring a b r q 0) : q = a / b ∧ r = a % b := by
  have hr : r < b := by simpa using h.small
  have hb := h.balance
  have hpos : 0 < b := Nat.lt_of_le_of_lt (Nat.zero_le r) hr
  have hq : a / b = q := by
    rw [← hb, Nat.add_mul_div_right _ _ hpos, Nat.div_eq_of_lt hr, Nat.zero_add]
  have hm : a % b = r := by
    rw [← hb, Nat.add_mul_mod_self_right, Nat.mod_eq_of_lt hr]
  exact ⟨hq.symm, hm.symm⟩

end Restoring
