import Mathlib.Data.Fintype.EquivFin
import Mathlib.Order.ConditionallyCompleteLattice.Basic
import Mathlib.Data.Nat.Lattice

set_option autoImplicit false

/-! # Orbits of partial functions

A partial function that is applied again and again, as a chain of links is followed: on a finite
type it comes to an end exactly when it does not come back to where it was.
-/

namespace Orbit

variable {α : Type} {f : α → Option α} {a b : α}

/-- What is reached from `a` in `n` steps. -/
def reached (f : α → Option α) (a : α) : Nat → Option α
  | 0 => some a
  | n + 1 => (reached f a n).bind f

/-- The orbit of `a` comes to an end. -/
def Ends (f : α → Option α) (a : α) : Prop := ∃ n, reached f a n = none

@[simp] theorem reached_zero : reached f a 0 = some a := rfl

theorem reached_succ (n : Nat) : reached f a (n + 1) = (reached f a n).bind f := rfl

theorem reached_step (h : f a = some b) (n : Nat) : reached f a (n + 1) = reached f b n := by
  induction n with
  | zero => exact h
  | succ n ih => rw [reached_succ, ih, reached_succ]

theorem reached_none (h : f a = none) (n : Nat) : reached f a (n + 1) = none := by
  induction n with
  | zero => exact h
  | succ n ih => rw [reached_succ, ih]; rfl

theorem reached_add {m : Nat} (h : reached f a m = some b) (n : Nat) :
    reached f a (m + n) = reached f b n := by
  induction n with
  | zero => exact h
  | succ n ih => rw [← Nat.add_assoc, reached_succ, ih, reached_succ]

theorem reached_none_mono {m n : Nat} (h : reached f a m = none) (hle : m ≤ n) :
    reached f a n = none := by
  induction n, hle using Nat.le_induction with
  | base => exact h
  | succ n _ ih => rw [reached_succ, ih]; rfl

theorem ends_step (h : f a = some b) : Ends f a ↔ Ends f b := by
  constructor
  · rintro ⟨n, hn⟩
    exact ⟨n, by rw [← reached_step h, reached_none_mono hn (Nat.le_succ n)]⟩
  · rintro ⟨n, hn⟩
    exact ⟨n + 1, by rw [reached_step h, hn]⟩

/-- An orbit that ends does not come back. -/
theorem ends_of_return {i j : Nat} (hij : i < j) (hi : reached f a i = some b)
    (hj : reached f a j = some b) : ¬Ends f a := by
  have hperiod : reached f b (j - i) = some b := by
    rw [← reached_add hi, Nat.add_sub_cancel' (Nat.le_of_lt hij), hj]
  have hround : ∀ k, reached f b ((j - i) * k) = some b := by
    intro k
    induction k with
    | zero => rfl
    | succ k ih => rw [Nat.mul_succ, Nat.add_comm, reached_add hperiod, ih]
  rintro ⟨n, hn⟩
  have hlate : n ≤ i + (j - i) * n :=
    Nat.le_trans (Nat.le_mul_of_pos_left n (Nat.sub_pos_of_lt hij)) (Nat.le_add_left _ _)
  have hnone := reached_none_mono hn hlate
  rw [reached_add hi, hround] at hnone
  cases hnone

/-- On a finite type an orbit ends exactly when it never comes back. -/
theorem ends_iff [Finite α] :
    Ends f a ↔ ∀ i j b, i < j → reached f a i = some b → reached f a j ≠ some b := by
  constructor
  · intro h i j b hij hi hj
    exact ends_of_return hij hi hj h
  · intro h
    by_contra hno
    have hsome : ∀ n, ∃ b, reached f a n = some b := by
      intro n
      cases hn : reached f a n with
      | none => exact absurd ⟨n, hn⟩ hno
      | some b => exact ⟨b, rfl⟩
    choose g hg using hsome
    refine not_injective_infinite_finite g fun i j hij => ?_
    rcases Nat.lt_trichotomy i j with hlt | heq | hlt
    · exact absurd (hij ▸ hg j) (h i j (g i) hlt (hg i))
    · exact heq
    · exact absurd (hij ▸ hg i) (h j i (g j) hlt (hg j))

/-- The number of steps to the end. -/
noncomputable def length (f : α → Option α) (a : α) : Nat := sInf {n | reached f a n = none}

theorem length_step (h : f a = some b) (hend : Ends f a) : length f b < length f a := by
  have hmem : reached f a (length f a) = none := Nat.sInf_mem hend
  cases hlen : length f a with
  | zero => rw [hlen] at hmem; cases hmem
  | succ n =>
      rw [hlen, reached_step h] at hmem
      exact Nat.lt_succ_of_le (Nat.sInf_le hmem)

end Orbit
