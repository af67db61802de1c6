import Mathlib.Algebra.BigOperators.Intervals
import Mathlib.Data.BitVec
import MelonSoc.Lib.Accesses

set_option autoImplicit false

/-! # Counters that are read in halves

A counter of two words counts up, and a reader gets one word at a time. It reads the high word, the
low word and the high word again, and keeps the pair when the high words agree. While the counter
goes less than nearly all the way round, the pair is what the counter was when the low word was
read. The proof is about the number of all its steps, which does not wrap.
-/

namespace Counters

variable {w : Nat}

/-- The words of a counter. -/
def hi (x : BitVec (w + w)) : BitVec w := x.extractLsb' w w

def lo (x : BitVec (w + w)) : BitVec w := x.extractLsb' 0 w

theorem hi_append_lo (x : BitVec (w + w)) : hi x ++ lo x = x := by
  apply BitVec.eq_of_getLsbD_eq
  intro k hk
  rw [BitVec.getLsbD_append, hi, lo, BitVec.getLsbD_extractLsb', BitVec.getLsbD_extractLsb']
  by_cases hlow : k < w
  · simp [hlow]
  · have hback : w + (k - w) = k := by omega
    have hlt : k - w < w := by omega
    simp [hlow, hlt, hback]

theorem hi_ofNat (n : Nat) : (hi (BitVec.ofNat (w + w) n)).toNat = n / 2 ^ w % 2 ^ w := by
  rw [hi, BitVec.extractLsb'_toNat, BitVec.toNat_ofNat, Nat.shiftRight_eq_div_pow, Nat.pow_add,
    Nat.mod_mul_right_div_self, Nat.mod_mod]

/-- High words that agree around a reading of the low word are the one at that reading. -/
theorem hi_between {x y z : Nat} (hxy : x ≤ y) (hyz : y ≤ z)
    (hadv : z - x ≤ 2 ^ (w + w) - 2 ^ w)
    (heq : hi (BitVec.ofNat (w + w) x) = hi (BitVec.ofNat (w + w) z)) :
    hi (BitVec.ofNat (w + w) y) = hi (BitVec.ofNat (w + w) x) := by
  have hpos : 0 < 2 ^ w := Nat.two_pow_pos w
  have hmod : x / 2 ^ w % 2 ^ w = z / 2 ^ w % 2 ^ w := by
    rw [← hi_ofNat, ← hi_ofNat, heq]
  rw [Nat.pow_add] at hadv
  apply BitVec.eq_of_toNat_eq
  rw [hi_ofNat, hi_ofNat]
  generalize 2 ^ w = B at hpos hmod hadv ⊢
  have hxq := Nat.div_add_mod x B
  have hzq := Nat.div_add_mod z B
  have hxr := Nat.mod_lt x hpos
  have hle1 : x / B ≤ y / B := Nat.div_le_div_right hxy
  have hle2 : y / B ≤ z / B := Nat.div_le_div_right hyz
  -- the high parts are less than a whole round apart
  have hless : z / B < x / B + B := by
    by_contra hge
    have hmul : B * (x / B + B) ≤ B * (z / B) := Nat.mul_le_mul_left B (by omega)
    have hbb : B ≤ B * B := Nat.le_mul_self B
    rw [Nat.mul_add] at hmul
    omega
  have hsame : x / B = z / B := by
    have hdx := Nat.div_add_mod (x / B) B
    have hdz := Nat.div_add_mod (z / B) B
    have hdle : x / B / B ≤ z / B / B := Nat.div_le_div_right (Nat.le_trans hle1 hle2)
    rcases Nat.eq_or_lt_of_le hdle with hq | hq
    · rw [← hdx, ← hdz, hmod, hq]
    · have hround : B * (x / B / B + 1) ≤ B * (z / B / B) := Nat.mul_le_mul_left B hq
      rw [Nat.mul_add] at hround
      omega
  have hyx : y / B = x / B := by omega
  rw [hyx]

/-- **The pair is the counter** at the reading of the low word. -/
theorem pair_eq {x y z : Nat} (hxy : x ≤ y) (hyz : y ≤ z) (hadv : z - x ≤ 2 ^ (w + w) - 2 ^ w)
    (heq : hi (BitVec.ofNat (w + w) x) = hi (BitVec.ofNat (w + w) z)) :
    hi (BitVec.ofNat (w + w) x) ++ lo (BitVec.ofNat (w + w) y) = BitVec.ofNat (w + w) y := by
  rw [← hi_between hxy hyz hadv heq, hi_append_lo]

/-! ## Counting -/

/-- From `n` to `m` the counter takes the steps `inc`. -/
def Counts (f : Nat → BitVec w) (inc : Nat → Nat) (n m : Nat) : Prop :=
  ∀ j, n ≤ j → j < m → f (j + 1) = f j + BitVec.ofNat w (inc j)

/-- The steps from `n` to `m`. -/
def advance (inc : Nat → Nat) (n m : Nat) : Nat := ∑ j ∈ Finset.Ico n m, inc j

section Counting

variable {f : Nat → BitVec w} {inc : Nat → Nat} {n m i j k : Nat}

theorem advance_succ (h : n ≤ k) : advance inc n (k + 1) = advance inc n k + inc k :=
  Finset.sum_Ico_succ_top h inc

theorem advance_mono (h : i ≤ j) : advance inc n i ≤ advance inc n j := by
  induction j, h using Nat.le_induction with
  | base => exact Nat.le_refl _
  | succ j h ih =>
      rcases Nat.lt_or_ge j n with hlt | hge
      · have hi : advance inc n i = 0 := by
          rw [advance, Finset.Ico_eq_empty (by omega), Finset.sum_empty]
        rw [hi]
        exact Nat.zero_le _
      · rw [advance_succ hge]
        exact Nat.le_trans ih (Nat.le_add_right _ _)

/-- One step a cycle. -/
theorem advance_one : advance (fun _ => 1) n m = m - n := by
  simp [advance]

theorem Counts.eq (h : Counts f inc n m) (hnk : n ≤ k) (hkm : k ≤ m) :
    f k = BitVec.ofNat w ((f n).toNat + advance inc n k) := by
  induction k, hnk using Nat.le_induction with
  | base => simp [advance]
  | succ k hk ih =>
      rw [h k hk hkm, ih (by omega), advance_succ hk, ← BitVec.ofNat_add_ofNat, ← Nat.add_assoc,
        ← BitVec.ofNat_add_ofNat]
      simp [BitVec.ofNat_add]

end Counting

/-! ## Reading -/

/-- The loop of a reader: high word, low word, high word, until the high words agree. -/
def readPair {A W : Type} (rdHi rdLo : Access A W (BitVec w)) :
    Nat → Access A W (Option (BitVec (w + w)))
  | 0 => pure none
  | fuel + 1 => do
      let h ← rdHi
      let l ← rdLo
      let h' ← rdHi
      if h ≠ h' then readPair rdHi rdLo fuel else pure (some (h ++ l))

section Reading

variable {A W : Type} {issued : Nat → Option (Issued A W)} {value : Nat → A → W}
  {rdHi rdLo : Access A W (BitVec w)} {f : Nat → BitVec (w + w)} {inc : Nat → Nat} {n₀ m₀ n m : Nat}
  {v : BitVec (w + w)}

/-- The loop returns when the high words agree. -/
theorem readPair_returns {h l : BitVec w} {t u : Nat} (hx1 : Access.Exec issued value n rdHi h t)
    (hx2 : Access.Exec issued value t rdLo l u) (hx3 : Access.Exec issued value u rdHi h m)
    (fuel : Nat) : Access.Exec issued value n (readPair rdHi rdLo (fuel + 1)) (some (h ++ l)) m := by
  refine hx1.bind (hx2.bind (hx3.bind ?_))
  rw [if_neg (not_not.mpr rfl)]
  exact .ret m _

/-- **Reading a counter.** Where a reading of a word gives the word of the counter at some time of
the reading, the loop returns the counter at some time of the call. -/
theorem readPair_sound (hf : Counts f inc n₀ m₀)
    (hadv : advance inc n₀ m₀ ≤ 2 ^ (w + w) - 2 ^ w)
    (hHi : ∀ n x m, Access.Exec issued value n rdHi x m → m ≤ m₀ →
      ∃ k, n ≤ k ∧ k ≤ m ∧ x = hi (f k))
    (hLo : ∀ n x m, Access.Exec issued value n rdLo x m → m ≤ m₀ →
      ∃ k, n ≤ k ∧ k ≤ m ∧ x = lo (f k))
    (fuel : Nat) (hn : n₀ ≤ n) (hm : m ≤ m₀)
    (hx : Access.Exec issued value n (readPair rdHi rdLo fuel) (some v) m) :
    ∃ k, n ≤ k ∧ k ≤ m ∧ f k = v := by
  induction fuel generalizing n with
  | zero => cases hx
  | succ fuel ih =>
      obtain ⟨h, t1, hx1, hx⟩ := hx.of_bind
      obtain ⟨l, t2, hx2, hx⟩ := hx.of_bind
      obtain ⟨h', t3, hx3, hx⟩ := hx.of_bind
      have hle1 := hx1.le
      have hle2 := hx2.le
      have hle3 := hx3.le
      have hle4 := hx.le
      by_cases hne : h ≠ h'
      · rw [if_pos hne] at hx
        obtain ⟨k, h1, h2, hk⟩ := ih (by omega) hx
        exact ⟨k, by omega, h2, hk⟩
      · rw [if_neg hne] at hx
        obtain ⟨a, ha1, ha2, ha⟩ := hHi n h t1 hx1 (by omega)
        obtain ⟨b, hb1, hb2, hb⟩ := hLo t1 l t2 hx2 (by omega)
        obtain ⟨c, hc1, hc2, hc⟩ := hHi t2 h' t3 hx3 (by omega)
        refine ⟨b, by omega, by omega, ?_⟩
        have hsame : h = h' := not_not.mp hne
        have hfa := hf.eq (k := a) (by omega) (by omega)
        have hfb := hf.eq (k := b) (by omega) (by omega)
        have hfc := hf.eq (k := c) (by omega) (by omega)
        have hab : advance inc n₀ a ≤ advance inc n₀ b := advance_mono (by omega)
        have hbc : advance inc n₀ b ≤ advance inc n₀ c := advance_mono (by omega)
        have hcm : advance inc n₀ c ≤ advance inc n₀ m₀ := advance_mono (by omega)
        have hpair := pair_eq (w := w) (x := (f n₀).toNat + advance inc n₀ a)
          (y := (f n₀).toNat + advance inc n₀ b) (z := (f n₀).toNat + advance inc n₀ c) (by omega)
          (by omega) (by omega) (by rw [← hfa, ← hfc, ← ha, ← hc, hsame])
        rw [← hfa, ← hfb, ← ha, ← hb] at hpair
        cases hx with
        | ret => exact hpair.symm

end Reading

end Counters
