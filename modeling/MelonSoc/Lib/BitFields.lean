import Mathlib.Init

set_option autoImplicit false

/-! # Fields of a bit vector

A vector of `w` bits read as a row of fields of `f` bits each. `put x p v` overwrites the bits from
`p` on with `v`, which is how a hardware description writes a slice of a register.
-/

namespace BitFields

variable {w f : Nat}

/-- The bits of `x` from `p` on become `v`; what does not fit is dropped. -/
def put (x : BitVec w) (p : Nat) (v : BitVec f) : BitVec w :=
  (x &&& ~~~((BitVec.allOnes f).setWidth w <<< p)) ||| (v.setWidth w <<< p)

theorem put_bit (x : BitVec w) (p n : Nat) (v : BitVec f) (hn : n < w) :
    (put x p v).getLsbD n = if p ≤ n ∧ n < p + f then v.getLsbD (n - p) else x.getLsbD n := by
  simp only [put, BitVec.getLsbD_or, BitVec.getLsbD_and, BitVec.getLsbD_not,
    BitVec.getLsbD_shiftLeft, BitVec.getLsbD_allOnes, BitVec.getLsbD_setWidth, hn, decide_true,
    Bool.true_and]
  by_cases h1 : n < p
  · have h2 : ¬ p ≤ n := by omega
    simp [h1, h2]
  · have h2 : p ≤ n := by omega
    have h3 : n - p < w := by omega
    by_cases h4 : n - p < f
    · have h5 : n < p + f := by omega
      simp [h1, h2, h3, h4, h5]
    · have h5 : ¬ n < p + f := by omega
      simp [h1, h3, h4, h5, BitVec.getLsbD_of_ge v _ (Nat.le_of_not_lt h4)]

/-- Writing the field with number `k` changes this field only. -/
theorem put_field (x : BitVec w) (k j : Nat) (v : BitVec f) (hj : f * j + f ≤ w) :
    (put x (f * k) v).extractLsb' (f * j) f = if j = k then v else x.extractLsb' (f * j) f := by
  apply BitVec.eq_of_getLsbD_eq
  intro n hn
  have hlt : f * j + n < w := by omega
  rw [BitVec.getLsbD_extractLsb', put_bit _ _ _ _ hlt]
  by_cases h : j = k
  · subst h
    have hin : f * j ≤ f * j + n ∧ f * j + n < f * j + f := by omega
    simp [hn, hin]
  · have hout : ¬ (f * k ≤ f * j + n ∧ f * j + n < f * k + f) := by
      rcases Nat.lt_or_gt_of_ne h with hlt | hgt
      · have hstep : f * (j + 1) ≤ f * k := Nat.mul_le_mul_left f hlt
        rw [Nat.mul_succ] at hstep
        omega
      · have hstep : f * (k + 1) ≤ f * j := Nat.mul_le_mul_left f hgt
        rw [Nat.mul_succ] at hstep
        omega
    rw [if_neg h, if_neg hout, BitVec.getLsbD_extractLsb']

/-! ## Masks -/

/-- No bit of `x` is outside the mask. -/
def Within (x m : BitVec w) : Prop := ∀ k, x.getLsbD k = true → m.getLsbD k = true

theorem within_zero (m : BitVec w) : Within 0#w m := by
  intro k hk
  rw [BitVec.getLsbD_zero] at hk
  cases hk

theorem within_and (x m : BitVec w) : Within (x &&& m) m := by
  intro k hk
  rw [BitVec.getLsbD_and, Bool.and_eq_true] at hk
  exact hk.2

theorem Within.trans {x m m' : BitVec w} (h : Within x m) (h' : Within m m') : Within x m' := by
  intro k hk
  exact h' k (h k hk)

/-- The bits under `n` are replaced by those of `y`. -/
theorem Within.merge {x y m n : BitVec w} (h : Within x m) (hy : Within (y &&& n) m) :
    Within ((x &&& ~~~n) ||| (y &&& n)) m := by
  intro k hk
  rw [BitVec.getLsbD_or, Bool.or_eq_true] at hk
  rcases hk with hold | hnew
  · rw [BitVec.getLsbD_and, Bool.and_eq_true] at hold
    exact h k hold.1
  · exact hy k hnew

end BitFields
