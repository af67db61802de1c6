import Mathlib.Algebra.Ring.Nat
import Mathlib.Data.List.Chain
import Mathlib.Algebra.BigOperators.Group.List.Basic

set_option autoImplicit false

/-! # A space divided into segments

A space that starts at `base` is a list of segments, each of which is free or has a tenant. The
places of the segments are not stored: a segment begins where the one before it ends, so that the
segments cover the space without gaps and overlaps by construction. A division is coalesced if no
two free segments are neighbours; its free segments are the largest free pieces of the space then.
-/

namespace Segments

/-- A segment, free or with a tenant. -/
structure Seg (α : Type) where
  size : Nat
  tenant : Option α

variable {α : Type}

/-- A segment without a tenant. -/
def Seg.vacant (n : Nat) : Seg α := { size := n, tenant := none }

/-- A segment with a tenant. -/
def Seg.let (n : Nat) (t : α) : Seg α := { size := n, tenant := some t }

/-- The size of the whole space. -/
def span : List (Seg α) → Nat
  | [] => 0
  | s :: l => s.size + span l

/-- The size of all free segments together. -/
def vacancy : List (Seg α) → Nat
  | [] => 0
  | s :: l => (if s.tenant.isNone then s.size else 0) + vacancy l

/-- The beginnings of the segments. -/
def places : Nat → List (Seg α) → List Nat
  | _, [] => []
  | base, s :: l => base :: places (base + s.size) l

/-- The place and the size of each segment with a tenant. -/
def tenancies : Nat → List (Seg α) → List (Nat × Nat × α)
  | _, [] => []
  | base, s :: l =>
      (s.tenant.map fun t => (base, s.size, t)).toList ++ tenancies (base + s.size) l

/-- No two free segments are neighbours. -/
def Coalesced (l : List (Seg α)) : Prop :=
  l.IsChain fun s t => s.tenant.isSome ∨ t.tenant.isSome

variable {a b l : List (Seg α)} {s : Seg α} {base n : Nat}

@[simp] theorem span_nil : span ([] : List (Seg α)) = 0 := rfl

@[simp] theorem span_cons : span (s :: l) = s.size + span l := rfl

@[simp] theorem span_append : span (a ++ b) = span a + span b := by
  induction a with
  | nil => simp
  | cons s a ih => simp [ih, Nat.add_assoc]

@[simp] theorem vacancy_nil : vacancy ([] : List (Seg α)) = 0 := rfl

@[simp] theorem vacancy_vacant : vacancy (.vacant n :: l) = n + vacancy l := rfl

@[simp] theorem vacancy_let (t : α) : vacancy (.let n t :: l) = vacancy l := Nat.zero_add _

@[simp] theorem vacancy_append : vacancy (a ++ b) = vacancy a + vacancy b := by
  induction a with
  | nil => simp
  | cons s a ih => simp [vacancy, ih, Nat.add_assoc]

theorem vacancy_le (l : List (Seg α)) : vacancy l ≤ span l := by
  induction l with
  | nil => exact Nat.le_refl 0
  | cons s l ih =>
      have hs : (if s.tenant.isNone then s.size else 0) ≤ s.size := by
        split <;> omega
      exact Nat.add_le_add hs ih

@[simp] theorem places_append (base : Nat) :
    places base (a ++ b) = places base a ++ places (base + span a) b := by
  induction a generalizing base with
  | nil => simp [places]
  | cons s a ih => simp [places, ih, Nat.add_assoc]

theorem places_range {x : Nat} (h : x ∈ places base l) :
    base ≤ x ∧ (x < base + span l ∨ x = base + span l ∧ ∃ s ∈ l, s.size = 0) := by
  induction l generalizing base with
  | nil => cases h
  | cons s l ih =>
      rcases List.mem_cons.mp h with rfl | h
      · refine ⟨Nat.le_refl _, ?_⟩
        by_cases hz : s.size + span l = 0
        · exact .inr ⟨by simp [hz], s, List.mem_cons_self, by omega⟩
        · exact .inl (by rw [span_cons]; omega)
      · obtain ⟨hle, hlt⟩ := ih h
        rw [span_cons]
        refine ⟨by omega, ?_⟩
        rcases hlt with hlt | ⟨heq, t, ht, hz⟩
        · exact .inl (by omega)
        · exact .inr ⟨by omega, t, List.mem_cons_of_mem _ ht, hz⟩

/-- Segments of a positive size begin inside the space. -/
theorem places_inside {x : Nat} (hpos : ∀ s ∈ l, 0 < s.size) (h : x ∈ places base l) :
    base ≤ x ∧ x < base + span l := by
  obtain ⟨hle, hlt | ⟨-, s, hs, hz⟩⟩ := places_range h
  · exact ⟨hle, hlt⟩
  · have hp := hpos s hs
    omega

@[simp] theorem tenancies_append (base : Nat) :
    tenancies base (a ++ b) = tenancies base a ++ tenancies (base + span a) b := by
  induction a generalizing base with
  | nil => simp [tenancies]
  | cons s a ih => simp [tenancies, ih, Nat.add_assoc]

@[simp] theorem tenancies_vacant :
    tenancies base (.vacant n :: l) = tenancies (base + n) l := rfl

@[simp] theorem tenancies_let (t : α) :
    tenancies base (.let n t :: l) = (base, n, t) :: tenancies (base + n) l := rfl

/-- A tenancy is that of a segment of the division. -/
theorem tenancies_split {x : Nat × Nat × α} (h : x ∈ tenancies base l) :
    ∃ a b, l = a ++ .let x.2.1 x.2.2 :: b ∧ x.1 = base + span a := by
  induction l generalizing base with
  | nil => cases h
  | cons s l ih =>
      obtain ⟨size, tenant⟩ := s
      cases tenant with
      | none =>
          obtain ⟨a, b, rfl, hx⟩ := ih (show x ∈ tenancies (base + size) l from h)
          exact ⟨⟨size, none⟩ :: a, b, rfl, by simp [hx, Nat.add_assoc]⟩
      | some t =>
          rcases List.mem_cons.mp (show x ∈ (base, size, t) :: tenancies (base + size) l from h)
            with rfl | h
          · exact ⟨[], l, rfl, rfl⟩
          · obtain ⟨a, b, rfl, hx⟩ := ih h
            exact ⟨⟨size, some t⟩ :: a, b, rfl, by simp [hx, Nat.add_assoc]⟩

theorem tenancies_inside {x : Nat × Nat × α} (h : x ∈ tenancies base l) :
    base ≤ x.1 ∧ x.1 + x.2.1 ≤ base + span l := by
  obtain ⟨a, b, rfl, hx⟩ := tenancies_split h
  rw [span_append, span_cons, hx]
  show _ ∧ base + span a + x.2.1 ≤ base + (span a + (x.2.1 + span b))
  omega

/-- Tenancies come in the order of their places and do not overlap. -/
theorem tenancies_apart (base : Nat) (l : List (Seg α)) :
    (tenancies base l).Pairwise fun x y => x.1 + x.2.1 ≤ y.1 := by
  induction l generalizing base with
  | nil => exact .nil
  | cons s l ih =>
      obtain ⟨size, tenant⟩ := s
      cases tenant with
      | none => exact ih _
      | some t =>
          refine List.pairwise_cons.mpr ⟨fun y hy => ?_, ih _⟩
          exact (tenancies_inside hy).1

/-- What is not free belongs to the tenants. -/
theorem vacancy_add_tenancies (base : Nat) (l : List (Seg α)) :
    vacancy l + ((tenancies base l).map fun x => x.2.1).sum = span l := by
  induction l generalizing base with
  | nil => rfl
  | cons s l ih =>
      obtain ⟨size, tenant⟩ := s
      have hl := ih (base + size)
      cases tenant with
      | none =>
          show size + vacancy l + _ = size + span l
          rw [← hl, Nat.add_assoc]
          rfl
      | some t =>
          show 0 + vacancy l + (((base, size, t) :: tenancies (base + size) l).map _).sum
            = size + span l
          rw [List.map_cons, List.sum_cons, ← hl]
          show 0 + vacancy l + (size + _) = _
          omega

/-- A coalesced space without tenants is one free segment, or nothing. -/
theorem Coalesced.single (h : Coalesced l) (ht : tenancies base l = []) :
    l = [] ∨ ∃ n, l = [.vacant n] := by
  cases l with
  | nil => exact .inl rfl
  | cons s l =>
      obtain ⟨size, tenant⟩ := s
      cases tenant with
      | some t => cases ht
      | none =>
          cases l with
          | nil => exact .inr ⟨size, rfl⟩
          | cons s' l =>
              obtain ⟨size', tenant'⟩ := s'
              cases tenant' with
              | some t => cases ht
              | none =>
                  have hc : List.IsChain _ _ := h
                  rw [List.isChain_cons_cons] at hc
                  simp at hc

/-! ## Coalesced divisions -/

/-- The space does not end in a free segment. -/
def EndsLet (l : List (Seg α)) : Prop := ∀ s ∈ l.getLast?, s.tenant.isSome

/-- The space does not start with a free segment. -/
def StartsLet (l : List (Seg α)) : Prop := ∀ s ∈ l.head?, s.tenant.isSome

theorem coalesced_vacant :
    Coalesced (a ++ .vacant n :: b) ↔ Coalesced a ∧ Coalesced b ∧ EndsLet a ∧ StartsLet b := by
  unfold Coalesced EndsLet StartsLet
  rw [List.isChain_append, List.isChain_cons]
  simp [Seg.vacant]
  tauto

theorem coalesced_let {t : α} : Coalesced (a ++ .let n t :: b) ↔ Coalesced a ∧ Coalesced b := by
  unfold Coalesced
  rw [List.isChain_append, List.isChain_cons]
  simp [Seg.let]

/-- A tenant may move into a free segment, and leave a rest of it free. -/
theorem Coalesced.take {w : Nat} {t : α} (h : Coalesced (a ++ .vacant n :: b)) :
    Coalesced (a ++ .let w t :: b) ∧ ∀ m, Coalesced (a ++ .let w t :: .vacant m :: b) := by
  obtain ⟨ha, hb, -, hs⟩ := coalesced_vacant.mp h
  refine ⟨coalesced_let.mpr ⟨ha, hb⟩, fun m => coalesced_let.mpr ⟨ha, ?_⟩⟩
  have hnil : EndsLet ([] : List (Seg α)) := by
    intro s hs
    cases hs
  have hrest : Coalesced ([] ++ .vacant m :: b) := coalesced_vacant.mpr ⟨.nil, hb, hnil, hs⟩
  exact hrest

theorem Coalesced.startsLet (h : Coalesced (.vacant n :: b)) : StartsLet b := by
  have hnil : Coalesced ([] ++ .vacant n :: b) := h
  exact (coalesced_vacant.mp hnil).2.2.2

/-- In a coalesced space, a window that meets no tenant lies in one free segment. -/
theorem Coalesced.window {q : Nat} (h : Coalesced l) (hpos : ∀ s ∈ l, 0 < s.size) (hn : 0 < n)
    (hq : base ≤ q) (hend : q + n ≤ base + span l)
    (hfree : ∀ x ∈ tenancies base l, q + n ≤ x.1 ∨ x.1 + x.2.1 ≤ q) :
    ∃ s ∈ l, s.tenant = none ∧ n ≤ s.size := by
  induction l generalizing base with
  | nil =>
      rw [span_nil] at hend
      omega
  | cons s l ih =>
      have hpos' : ∀ s ∈ l, 0 < s.size := fun t ht => hpos t (List.mem_cons_of_mem _ ht)
      have hl : Coalesced l := (List.isChain_cons.mp h).2
      obtain ⟨size, tenant⟩ := s
      have hspan : span (⟨size, tenant⟩ :: l) = size + span l := rfl
      rw [hspan] at hend
      cases tenant with
      | some t =>
          have hapart := hfree (base, size, t) List.mem_cons_self
          have hrest : ∀ x ∈ tenancies (base + size) l, q + n ≤ x.1 ∨ x.1 + x.2.1 ≤ q :=
            fun x hx => hfree x (List.mem_cons_of_mem _ hx)
          simp only at hapart
          obtain ⟨s, hs, hin⟩ := ih hl hpos' (by omega) (by omega) hrest
          exact ⟨s, List.mem_cons_of_mem _ hs, hin⟩
      | none =>
          have hrest : ∀ x ∈ tenancies (base + size) l, q + n ≤ x.1 ∨ x.1 + x.2.1 ≤ q := hfree
          by_cases hin : q + n ≤ base + size
          · exact ⟨⟨size, none⟩, List.mem_cons_self, rfl, by show n ≤ size; omega⟩
          · by_cases hnext : base + size ≤ q
            · obtain ⟨s, hs, hin⟩ := ih hl hpos' hnext (by omega) hrest
              exact ⟨s, List.mem_cons_of_mem _ hs, hin⟩
            · -- the window reaches into the segment behind, which has a tenant
              cases l with
              | nil =>
                  rw [span_nil] at hend
                  omega
              | cons s l =>
                  obtain ⟨size', tenant'⟩ := s
                  have hs : 0 < size' := hpos' _ List.mem_cons_self
                  cases tenant' with
                  | none =>
                      have hc : List.IsChain _ _ := h
                      rw [List.isChain_cons_cons] at hc
                      simp at hc
                  | some t =>
                      have hapart := hrest (base + size, size', t) List.mem_cons_self
                      simp only at hapart
                      omega

/-- The first free segment of at least the given size, if there is one. -/
theorem first_fit (w : Nat) (l : List (Seg α)) :
    (∀ s ∈ l, s.tenant = none → s.size < w) ∨
      ∃ a n b, l = a ++ .vacant n :: b ∧ w ≤ n ∧ ∀ s ∈ a, s.tenant = none → s.size < w := by
  induction l with
  | nil =>
      left
      intro s hs
      cases hs
  | cons s l ih =>
      by_cases hs : s.tenant = none ∧ w ≤ s.size
      · refine .inr ⟨[], s.size, l, ?_, hs.2, fun t ht => by cases ht⟩
        obtain ⟨size, tenant⟩ := s
        rw [show tenant = none from hs.1]
        rfl
      · have hlt : s.tenant = none → s.size < w := fun h => by
          by_contra hn
          exact hs ⟨h, by omega⟩
        rcases ih with hall | ⟨a, n, b, rfl, hn, ha⟩
        · left
          intro t ht htn
          rcases List.mem_cons.mp ht with rfl | ht
          · exact hlt htn
          · exact hall t ht htn
        · refine .inr ⟨s :: a, n, b, rfl, hn, fun t ht htn => ?_⟩
          rcases List.mem_cons.mp ht with rfl | ht
          · exact hlt htn
          · exact ha t ht htn

end Segments
