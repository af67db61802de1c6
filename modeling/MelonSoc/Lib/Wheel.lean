import Mathlib.Data.List.Nodup
import Mathlib.Data.List.TakeWhile

set_option autoImplicit false

/-! # A wheel of items

A list with a cursor: the items up to the cursor have been passed, the others come next, and behind
the last one the cursor starts again in front. What matters to the one who turns the wheel is the
order in which the items come (`order`): a turn moves the first of them to the end.
-/

/-- A list with a cursor, which stands at the last item that was passed. -/
structure Wheel (α : Type) where
  passed : List α
  rest : List α

namespace Wheel

variable {α : Type}

def empty : Wheel α := { passed := [], rest := [] }

/-- The items from the front on. -/
def items (w : Wheel α) : List α := w.passed ++ w.rest

def cursor (w : Wheel α) : Option α := w.passed.getLast?

/-- The items in the order in which they come. -/
def order (w : Wheel α) : List α := w.rest ++ w.passed

/-- The next item, and the wheel with the cursor at it. -/
def turn (w : Wheel α) : Option (α × Wheel α) :=
  match w.rest, w.passed with
  | a :: r, p => some (a, ⟨p ++ [a], r⟩)
  | [], a :: p => some (a, ⟨[a], p⟩)
  | [], [] => none

/-- An item is put in front of the cursor, or at the end if nothing has been passed. -/
def enqueue (x : α) (w : Wheel α) : Wheel α :=
  match w.passed.getLast? with
  | none => ⟨[], w.rest ++ [x]⟩
  | some a => ⟨w.passed.dropLast ++ [x, a], w.rest⟩

/-- An item is put behind the items of the front that satisfy `p`. -/
def insertBehind (p : α → Bool) (x : α) (w : Wheel α) : Wheel α :=
  if w.passed.all p then ⟨w.passed, w.rest.takeWhile p ++ x :: w.rest.dropWhile p⟩
  else ⟨w.passed.takeWhile p ++ x :: w.passed.dropWhile p, w.rest⟩

def remove [DecidableEq α] (x : α) (w : Wheel α) : Wheel α :=
  ⟨w.passed.erase x, w.rest.erase x⟩

variable {w w' : Wheel α} {x a : α} {p : α → Bool}

theorem order_perm (w : Wheel α) : w.order.Perm w.items := List.perm_append_comm

theorem mem_order : x ∈ w.order ↔ x ∈ w.items := w.order_perm.mem_iff

/-! ## Turning -/

theorem turn_isSome (h : w.items ≠ []) : ∃ a w', w.turn = some (a, w') := by
  obtain ⟨passed, rest⟩ := w
  cases rest with
  | cons a r => exact ⟨a, _, rfl⟩
  | nil =>
      cases passed with
      | cons a p => exact ⟨a, _, rfl⟩
      | nil => exact absurd rfl h

/-- **A turn** takes the first item of the order and puts it at the end. -/
theorem order_turn (h : w.turn = some (a, w')) :
    ∃ l, w.order = a :: l ∧ w'.order = l ++ [a] := by
  obtain ⟨passed, rest⟩ := w
  cases rest with
  | cons b r =>
      obtain ⟨rfl, rfl⟩ := Prod.mk.inj (Option.some.inj h)
      exact ⟨r ++ passed, rfl, by simp [order]⟩
  | nil =>
      cases passed with
      | nil => cases h
      | cons b p =>
          obtain ⟨rfl, rfl⟩ := Prod.mk.inj (Option.some.inj h)
          exact ⟨p, rfl, rfl⟩

/-- A turn does not change the items. -/
theorem items_turn (h : w.turn = some (a, w')) : w'.items = w.items := by
  obtain ⟨passed, rest⟩ := w
  cases rest with
  | cons b r =>
      obtain ⟨rfl, rfl⟩ := Prod.mk.inj (Option.some.inj h)
      simp [items]
  | nil =>
      cases passed with
      | nil => cases h
      | cons b p =>
          obtain ⟨rfl, rfl⟩ := Prod.mk.inj (Option.some.inj h)
          simp [items]

theorem cursor_turn (h : w.turn = some (a, w')) : w'.cursor = some a := by
  obtain ⟨passed, rest⟩ := w
  cases rest with
  | cons b r =>
      obtain ⟨rfl, rfl⟩ := Prod.mk.inj (Option.some.inj h)
      simp [cursor]
  | nil =>
      cases passed with
      | nil => cases h
      | cons b p =>
          obtain ⟨rfl, rfl⟩ := Prod.mk.inj (Option.some.inj h)
          rfl

theorem turn_mem (h : w.turn = some (a, w')) : a ∈ w.items := by
  obtain ⟨l, hl, -⟩ := order_turn h
  rw [← mem_order, hl]
  exact List.mem_cons_self

/-- The items of `n` turns. -/
def turns : Nat → Wheel α → Option (List α × Wheel α)
  | 0, w => some ([], w)
  | n + 1, w => do
      let (a, w) ← w.turn
      let (l, w) ← turns n w
      some (a :: l, w)

/-- As many turns as there are items in front of some of them bring these to the front. -/
theorem turns_order {l r : List α} (h : w.order = l ++ r) :
    ∃ w', w.turns l.length = some (l, w') ∧ w'.order = r ++ l ∧ w'.items = w.items := by
  induction l generalizing w r with
  | nil => exact ⟨w, rfl, by rw [h, List.append_nil, List.nil_append], rfl⟩
  | cons a l ih =>
      have hne : w.items ≠ [] := by
        have ha : a ∈ w.items := by
          rw [← mem_order, h]
          exact List.mem_cons_self
        exact List.ne_nil_of_mem ha
      obtain ⟨b, w₁, ht⟩ := turn_isSome hne
      obtain ⟨t, hb, hw₁⟩ := order_turn ht
      obtain ⟨rfl, rfl⟩ := List.cons.inj (hb.symm.trans h)
      have hw₁' : w₁.order = l ++ (r ++ [b]) := hw₁.trans (List.append_assoc ..)
      obtain ⟨w₂, hw₂, horder, hitems⟩ := ih hw₁'
      refine ⟨w₂, ?_, ?_, hitems.trans (items_turn ht)⟩
      · show (w.turn.bind fun s => (s.2.turns l.length).bind fun u => some (s.1 :: u.1, u.2)) = _
        rw [ht]
        simp only [Option.bind_some, hw₂]
      · rw [horder, List.append_assoc]
        rfl

/-- **A round**: as many turns as there are items return each item once. -/
theorem turns_round (w : Wheel α) :
    ∃ w', w.turns w.items.length = some (w.order, w') ∧ w'.order = w.order := by
  obtain ⟨w', hw', horder, -⟩ := turns_order (List.append_nil w.order).symm
  rw [← w.order_perm.length_eq]
  exact ⟨w', hw', horder⟩

/-! ## Putting items in -/

theorem items_enqueue (x : α) (w : Wheel α) :
    ∃ l r, w.items = l ++ r ∧ (w.enqueue x).items = l ++ x :: r ∧
      r.head? = w.cursor ∧ (w.cursor = none → r = []) := by
  obtain ⟨passed, rest⟩ := w
  rcases List.eq_nil_or_concat passed with rfl | ⟨q, a, rfl⟩
  · exact ⟨rest, [], by simp [items], by simp [enqueue, items], rfl, fun _ => rfl⟩
  · refine ⟨q, a :: rest, by simp [items], ?_, by simp [cursor], by simp [cursor]⟩
    simp [enqueue, items]

theorem cursor_enqueue (x : α) (w : Wheel α) : (w.enqueue x).cursor = w.cursor := by
  obtain ⟨passed, rest⟩ := w
  rcases List.eq_nil_or_concat passed with rfl | ⟨q, a, rfl⟩
  · rfl
  · simp [enqueue, cursor]

theorem items_insertBehind (p : α → Bool) (x : α) (w : Wheel α) :
    (w.insertBehind p x).items = w.items.takeWhile p ++ x :: w.items.dropWhile p := by
  obtain ⟨passed, rest⟩ := w
  unfold insertBehind items
  split
  · rename_i hall
    have hp : ∀ y ∈ passed, p y := List.all_eq_true.mp hall
    rw [List.takeWhile_append_of_pos hp, List.dropWhile_append_of_pos hp, List.append_assoc]
  · rename_i hall
    simp only [List.all_eq_true, not_forall] at hall
    obtain ⟨y, hy, hpy⟩ := hall
    induction passed with
    | nil => cases hy
    | cons z l ih =>
        by_cases hz : p z
        · have hyl : y ∈ l := by
            rcases List.mem_cons.mp hy with rfl | hyl
            · exact absurd hz hpy
            · exact hyl
          simp only [List.cons_append, List.takeWhile_cons, List.dropWhile_cons, hz, if_true]
          exact congrArg (z :: ·) (ih hyl)
        · simp [hz]

theorem cursor_insertBehind (p : α → Bool) (x : α) (w : Wheel α) :
    (w.insertBehind p x).cursor = w.cursor := by
  obtain ⟨passed, rest⟩ := w
  unfold insertBehind cursor
  split
  · rfl
  · rename_i hall
    have hne : passed.dropWhile p ≠ [] := fun hnil =>
      hall (List.all_eq_true.mpr (List.dropWhile_eq_nil_iff.mp hnil))
    have hlast : (passed.takeWhile p ++ passed.dropWhile p).getLast?
        = (passed.dropWhile p).getLast? := List.getLast?_append_of_ne_nil _ hne
    rw [List.takeWhile_append_dropWhile] at hlast
    simp only
    rw [List.getLast?_append_of_ne_nil _ (List.cons_ne_nil _ _), List.getLast?_cons, hlast]
    cases hd : (passed.dropWhile p).getLast? with
    | none => exact absurd (List.getLast?_eq_none_iff.mp hd) hne
    | some y => rfl

/-! ## Taking items out -/

variable [DecidableEq α]

/-- An item that is taken out leaves the others in their order. -/
theorem items_remove (h : w.items.Nodup) : (w.remove x).items = w.items.erase x := by
  obtain ⟨passed, rest⟩ := w
  unfold remove items
  by_cases hx : x ∈ passed
  · have hr : x ∉ rest := fun hm => (List.nodup_append.mp h).2.2 x hx x hm rfl
    rw [List.erase_append_left _ hx, List.erase_of_not_mem hr]
  · rw [List.erase_append_right _ hx, List.erase_of_not_mem hx]

/-- The cursor steps back from an item that is taken out. -/
theorem cursor_remove (h : w.items.Nodup) : (w.remove x).cursor =
    if w.cursor = some x then w.passed.dropLast.getLast? else w.cursor := by
  obtain ⟨passed, rest⟩ := w
  have hp : passed.Nodup := (List.nodup_append.mp h).1
  unfold remove cursor
  rcases List.eq_nil_or_concat passed with rfl | ⟨q, a, rfl⟩
  · rfl
  · rw [List.concat_eq_append] at hp ⊢
    obtain ⟨-, -, hdis⟩ := List.nodup_append.mp hp
    by_cases hx : x ∈ q
    · have hne : a ≠ x := fun he => hdis x hx a List.mem_cons_self he.symm
      simp [List.erase_append_left _ hx, hne]
    · rw [List.erase_append_right _ hx]
      by_cases hax : a = x
      · simp [hax]
      · simp [hax]

end Wheel
