import Mathlib.Data.List.Nodup
import Mathlib.Logic.Function.Basic

set_option autoImplicit false

/-! # Doubly linked rings

Nodes with a link to the next node and one to the previous node. A path from `a` to `b` passes the
nodes of a list, and its links agree in both directions; a ring is a path from a node back to it.
Nodes are put in front of a node and taken out by writing the links of their neighbours only, so
that everything that does not touch them stays.
-/

namespace Rings

variable {ν : Type}

structure Links (ν : Type) where
  next : ν → ν
  prev : ν → ν

/-- The links lead from `a` over the nodes of the list to `b`, and back. -/
def Path (k : Links ν) : ν → List ν → ν → Prop
  | a, [], b => k.next a = b ∧ k.prev b = a
  | a, x :: l, b => (k.next a = x ∧ k.prev x = a) ∧ Path k x l b

/-- The nodes of a ring, from the one behind `e` on. -/
def Ring (k : Links ν) (e : ν) (l : List ν) : Prop := Path k e l e

variable {k k' : Links ν} {a b e v x y : ν} {l r : List ν}

@[simp] theorem path_nil : Path k a [] b ↔ k.next a = b ∧ k.prev b = a := Iff.rfl

@[simp] theorem path_cons :
    Path k a (x :: l) b ↔ (k.next a = x ∧ k.prev x = a) ∧ Path k x l b := Iff.rfl

theorem path_append : Path k a (l ++ x :: r) b ↔ Path k a l x ∧ Path k x r b := by
  induction l generalizing a with
  | nil => exact Iff.rfl
  | cons y l ih => rw [List.cons_append, path_cons, path_cons, ih, and_assoc (c := Path k x r b)]

/-- The node behind the first one. -/
theorem Path.next (h : Path k a l b) : k.next a = l.head?.getD b := by
  cases l with
  | nil => exact h.1
  | cons x l => exact h.1.1

/-- The node in front of the last one. -/
theorem Path.prev (h : Path k a l b) : k.prev b = l.getLast?.getD a := by
  induction l generalizing a with
  | nil => exact h.2
  | cons x l ih =>
      rw [ih h.2, List.getLast?_cons]
      rfl

theorem Path.prev_mem (h : Path k a l b) : k.prev b = a ∨ k.prev b ∈ l := by
  rw [h.prev]
  cases hl : l.getLast? with
  | none => exact .inl rfl
  | some x => exact .inr (List.mem_of_getLast? hl)

theorem Path.next_mem (h : Path k a l b) : k.next a = b ∨ k.next a ∈ l := by
  cases l with
  | nil => exact .inl h.1
  | cons x l =>
      right
      rw [h.1.1]
      exact List.mem_cons_self

/-- A path only reads the links that it passes. -/
theorem Path.congr (h : Path k a l b) (hnext : ∀ y, y = a ∨ y ∈ l → k'.next y = k.next y)
    (hprev : ∀ y, y = b ∨ y ∈ l → k'.prev y = k.prev y) : Path k' a l b := by
  induction l generalizing a with
  | nil => exact ⟨(hnext a (.inl rfl)).trans h.1, (hprev b (.inl rfl)).trans h.2⟩
  | cons x l ih =>
      refine ⟨⟨(hnext a (.inl rfl)).trans h.1.1, ?_⟩, ih h.2 (fun y hy => ?_) fun y hy => ?_⟩
      · exact (hprev x (.inr List.mem_cons_self)).trans h.1.2
      · exact hnext y (.inr (List.mem_cons.mpr hy))
      · exact hprev y (hy.imp_right (List.mem_cons_of_mem _))

theorem Ring.congr (h : Ring k e l)
    (heq : ∀ y, y = e ∨ y ∈ l → k'.next y = k.next y ∧ k'.prev y = k.prev y) : Ring k' e l :=
  Path.congr h (fun y hy => (heq y hy).1) fun y hy => (heq y hy).2

/-! ## Links that are written -/

variable [DecidableEq ν]

/-- `x` is put in front of `v`. -/
def Links.insertBefore (k : Links ν) (v x : ν) : Links ν where
  next := Function.update (Function.update k.next x v) (k.prev v) x
  prev := Function.update (Function.update k.prev x (k.prev v)) v x

/-- `x` is taken out. -/
def Links.unlink (k : Links ν) (x : ν) : Links ν where
  next := Function.update k.next (k.prev x) (k.next x)
  prev := Function.update k.prev (k.next x) (k.prev x)

theorem Links.insertBefore_next_apply : (k.insertBefore v x).next y =
    if y = k.prev v then x else if y = x then v else k.next y := by
  simp only [Links.insertBefore, Function.update_apply]

theorem Links.insertBefore_prev_apply : (k.insertBefore v x).prev y =
    if y = v then x else if y = x then k.prev v else k.prev y := by
  simp only [Links.insertBefore, Function.update_apply]

theorem Links.unlink_next_apply :
    (k.unlink x).next y = if y = k.prev x then k.next x else k.next y :=
  Function.update_apply ..

theorem Links.unlink_prev_apply :
    (k.unlink x).prev y = if y = k.next x then k.prev x else k.prev y :=
  Function.update_apply ..

theorem Links.insertBefore_next (hy : y ≠ x) (hv : y ≠ k.prev v) :
    (k.insertBefore v x).next y = k.next y := by
  rw [Links.insertBefore_next_apply, if_neg hv, if_neg hy]

theorem Links.insertBefore_prev (hy : y ≠ x) (hv : y ≠ v) :
    (k.insertBefore v x).prev y = k.prev y := by
  rw [Links.insertBefore_prev_apply, if_neg hv, if_neg hy]

theorem Links.unlink_next (hy : y ≠ k.prev x) : (k.unlink x).next y = k.next y :=
  Function.update_of_ne hy _ _

theorem Links.unlink_prev (hy : y ≠ k.next x) : (k.unlink x).prev y = k.prev y :=
  Function.update_of_ne hy _ _

/-- A node is put at the end of a path. -/
theorem Path.insert (h : Path k a l v) (hnodup : (a :: l).Nodup) (hv : v ∉ l) (hxv : x ≠ v)
    (hx : x ∉ a :: l) : Path (k.insertBefore v x) a (l ++ [x]) v := by
  induction l generalizing a with
  | nil =>
      have hxa : a ≠ x := fun hax => hx (by rw [hax]; exact List.mem_cons_self)
      have hlast : k.prev v = a := h.2
      refine ⟨⟨?_, ?_⟩, ?_, ?_⟩
      · rw [Links.insertBefore_next_apply, hlast, if_pos rfl]
      · rw [Links.insertBefore_prev_apply, if_neg hxv, if_pos rfl, hlast]
      · rw [Links.insertBefore_next_apply, hlast, if_neg hxa.symm, if_pos rfl]
      · rw [Links.insertBefore_prev_apply, if_pos rfl]
  | cons y l ih =>
      obtain ⟨⟨h1, h2⟩, h3⟩ := path_cons.mp h
      obtain ⟨hay, hnodup⟩ := List.nodup_cons.mp hnodup
      rw [List.mem_cons, not_or] at hv hx
      have hxy : y ≠ x := fun he => hx.2 (by rw [he]; exact List.mem_cons_self)
      have hlast : a ≠ k.prev v := by
        intro he
        rcases h3.prev_mem with hm | hm
        · exact hay (by rw [he, hm]; exact List.mem_cons_self)
        · exact hay (by rw [he]; exact List.mem_cons_of_mem _ hm)
      refine ⟨⟨?_, ?_⟩, ih h3 hnodup hv.2 hx.2⟩
      · rw [Links.insertBefore_next (Ne.symm hx.1) hlast, h1]
      · rw [Links.insertBefore_prev hxy (Ne.symm hv.1), h2]

/-- A node is put in front of a node of the ring. -/
theorem Ring.insert (h : Ring k e (l ++ v :: r)) (hnodup : (e :: l ++ v :: r).Nodup)
    (hx : x ∉ e :: l ++ v :: r) : Ring (k.insertBefore v x) e (l ++ x :: v :: r) := by
  obtain ⟨hl, hr⟩ := path_append.mp h
  have hmem : ∀ y, y ∈ e :: l ∨ y = v ∨ y ∈ r → y ∈ e :: l ++ v :: r := by
    intro y hy
    rw [List.mem_append, List.mem_cons (a := y) (b := v)]
    exact hy
  have hxne : ∀ y, y ∈ e :: l ∨ y = v ∨ y ∈ r → y ≠ x := fun y hy he => hx (by
    rw [← he]
    exact hmem y hy)
  obtain ⟨hel, hvr, hdis⟩ := List.nodup_append.mp hnodup
  have hvl : v ∉ l := fun hm => hdis v (List.mem_cons_of_mem _ hm) v List.mem_cons_self rfl
  have hins := Path.insert hl hel hvl (Ne.symm (hxne v (.inr (.inl rfl))))
    fun hm => hxne x (.inl hm) rfl
  have hprev : k.prev v ∈ e :: l := List.mem_cons.mpr hl.prev_mem
  rw [Ring, List.append_cons, path_append]
  refine ⟨hins, hr.congr (fun y hy => ?_) fun y hy => ?_⟩
  · refine Links.insertBefore_next (hxne y (.inr hy)) fun he => ?_
    rw [he] at hy
    exact hdis _ hprev _ (List.mem_cons.mpr hy) rfl
  · refine Links.insertBefore_prev ?_ ?_
    · rcases hy with rfl | hy
      · exact hxne y (.inl List.mem_cons_self)
      · exact hxne y (.inr (.inr hy))
    · rcases hy with rfl | hy
      · exact hdis y List.mem_cons_self v List.mem_cons_self
      · rintro rfl
        exact (List.nodup_cons.mp hvr).1 hy

/-- A node is put at the end of the ring. -/
theorem Ring.insert_last (h : Ring k e l) (hnodup : (e :: l).Nodup) (hx : x ∉ e :: l) :
    Ring (k.insertBefore e x) e (l ++ [x]) :=
  Path.insert h hnodup (List.nodup_cons.mp hnodup).1
    (fun he => hx (by rw [he]; exact List.mem_cons_self)) hx

/-- A node is taken out of a path. -/
theorem Path.remove (h : Path k a (l ++ x :: r) b) (hnodup : (a :: l ++ x :: r).Nodup)
    (hb : b ∉ l ++ x :: r) : Path (k.unlink x) a (l ++ r) b := by
  induction l generalizing a with
  | nil =>
      obtain ⟨⟨h1, h2⟩, h3⟩ := path_cons.mp h
      obtain ⟨hax, hxr⟩ := List.nodup_cons.mp hnodup
      obtain ⟨hx, hr⟩ := List.nodup_cons.mp hxr
      rw [List.nil_append, List.mem_cons, not_or] at hb
      cases r with
      | nil =>
          obtain ⟨h4, h5⟩ := path_nil.mp h3
          refine ⟨?_, ?_⟩
          · rw [Links.unlink_next_apply, h2, if_pos rfl, h4]
          · rw [Links.unlink_prev_apply, h4, if_pos rfl, h2]
      | cons y r =>
          obtain ⟨⟨h4, h5⟩, h6⟩ := path_cons.mp h3
          refine ⟨⟨?_, ?_⟩, h6.congr (fun z hz => ?_) fun z hz => ?_⟩
          · rw [Links.unlink_next_apply, h2, if_pos rfl, h4]
          · rw [Links.unlink_prev_apply, h4, if_pos rfl, h2]
          · refine Links.unlink_next fun he => hax ?_
            rw [← h2, ← he]
            exact List.mem_cons_of_mem _ (List.mem_cons.mpr hz)
          · refine Links.unlink_prev ?_
            rw [h4]
            rcases hz with rfl | hz
            · exact fun he => hb.2 (by rw [he]; exact List.mem_cons_self)
            · rintro rfl
              exact (List.nodup_cons.mp hr).1 hz
  | cons y l ih =>
      obtain ⟨⟨h1, h2⟩, h3⟩ := path_cons.mp h
      obtain ⟨hay, hnodup⟩ := List.nodup_cons.mp hnodup
      obtain ⟨hl, hr⟩ := path_append.mp h3
      rw [List.cons_append, List.mem_cons, not_or] at hb
      refine ⟨⟨?_, ?_⟩, ih h3 hnodup hb.2⟩
      · rw [Links.unlink_next, h1]
        intro he
        refine hay (List.mem_append_left _ ?_)
        rw [he]
        exact List.mem_cons.mpr hl.prev_mem
      · rw [Links.unlink_prev, h2]
        intro he
        rcases hr.next_mem with hm | hm
        · exact hb.1 (hm.symm.trans he.symm)
        · refine (List.nodup_cons.mp hnodup).1 ?_
          rw [he]
          exact List.mem_append_right _ (List.mem_cons_of_mem _ hm)

/-- A node is taken out of the ring. -/
theorem Ring.remove (h : Ring k e (l ++ x :: r)) (hnodup : (e :: l ++ x :: r).Nodup) :
    Ring (k.unlink x) e (l ++ r) :=
  Path.remove h hnodup (List.nodup_cons.mp hnodup).1

end Rings
