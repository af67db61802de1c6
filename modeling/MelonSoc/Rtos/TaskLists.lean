import Mathlib.Data.Finset.Card
import MelonSoc.Rtos.ListWheels
import MelonSoc.Rtos.Tasks

set_option autoImplicit false

/-! # The lists of the scheduler

The lists of `tasks.c` hold the items of the tasks that exist, and the two delayed lists are sorted
by the time at which their tasks wake. Each call of `list.c` keeps that.
-/

namespace MelonSoc

namespace FreeRtos

open FreeRtos.Lists

/-- The lists that are there once a task exists: those of `prvInitialiseTaskLists`, and those on
which tasks wait for an event. -/
def TaskList.IsKernel : TaskList → Prop
  | .pxReadyTasksLists p => p < configMaxPriorities
  | _ => True

/-- The lists whose items are sorted by their values. -/
def TaskList.IsDelayed (l : TaskList) : Prop :=
  l = .xDelayedTaskList1 ∨ l = .xDelayedTaskList2

/-- The items of the tasks that exist. -/
def known (c : Finset Tcb) (i : TaskItem) : Prop := i.pvOwner ∈ c

/-- The items are sorted by their values. -/
def SortedBy (m : Lists TaskItem TaskList) (is : List TaskItem) : Prop :=
  is.Pairwise fun i j => m.xItemValue (.item i) ≤ m.xItemValue (.item j)

/-- The lists of the tasks `c`. -/
structure Listed (m : Lists TaskItem TaskList) (f : TaskList → Option (Wheel TaskItem))
    (c : Finset Tcb) : Prop where
  shown : Shows m f (known c)
  init : ∀ l, l.IsKernel → ∃ w, f l = some w
  sorted : ∀ l w, l.IsDelayed → f l = some w → SortedBy m w.items
  room : 2 * c.card + 2 ≤ 2 ^ 32

variable {m m' : Lists TaskItem TaskList} {f : TaskList → Option (Wheel TaskItem)}
  {c : Finset Tcb} {l : TaskList} {i : TaskItem} {t : Tcb} {w : Wheel TaskItem}

/-- The items of the tasks, as a set. -/
def taskItems (c : Finset Tcb) : Finset TaskItem :=
  c.image .xStateListItem ∪ c.image .xEventListItem

theorem mem_taskItems : i ∈ taskItems c ↔ i.pvOwner ∈ c := by
  unfold taskItems
  rw [Finset.mem_union, Finset.mem_image, Finset.mem_image]
  cases i with
  | xStateListItem t => simp [TaskItem.pvOwner]
  | xEventListItem t => simp [TaskItem.pvOwner]

theorem taskItems_card (c : Finset Tcb) : (taskItems c).card ≤ 2 * c.card := by
  have hunion := Finset.card_union_le (c.image TaskItem.xStateListItem) (c.image .xEventListItem)
  have hstate : (c.image TaskItem.xStateListItem).card ≤ c.card := Finset.card_image_le
  have hevent : (c.image TaskItem.xEventListItem).card ≤ c.card := Finset.card_image_le
  unfold taskItems
  omega

/-- A list has room for an item that is not in it. -/
theorem Listed.has_room (L : Listed m f c) (hl : f l = some w) (hi : i.pvOwner ∈ c)
    (hiw : i ∉ w.items) : w.items.length + 1 < 2 ^ 32 := by
  have hnodup : (i :: w.items).Nodup := List.nodup_cons.mpr ⟨hiw, L.shown.nodup l w hl⟩
  have hsub : (i :: w.items).toFinset ⊆ taskItems c := by
    intro j hj
    rw [mem_taskItems]
    rcases List.mem_cons.mp (List.mem_toFinset.mp hj) with rfl | hj
    · exact hi
    · exact L.shown.known l w hl j hj
  have hcard := Finset.card_le_card hsub
  rw [List.toFinset_card_of_nodup hnodup, List.length_cons] at hcard
  have htasks := taskItems_card c
  have hroom := L.room
  omega

theorem Listed.init_update (L : Listed m f c) (w : Wheel TaskItem) :
    ∀ l', l'.IsKernel → ∃ w', Function.update f l (some w) l' = some w' := by
  intro l' hl'
  by_cases he : l' = l
  · exact ⟨w, by rw [he, Function.update_self]⟩
  · obtain ⟨w', hw'⟩ := L.init l' hl'
    exact ⟨w', by rw [Function.update_of_ne he, hw']⟩

theorem SortedBy.congr {is : List TaskItem} (h : SortedBy m is)
    (hv : ∀ j ∈ is, m'.xItemValue (.item j) = m.xItemValue (.item j)) : SortedBy m' is := by
  refine List.Pairwise.imp_of_mem (fun {a b} ha hb hab => ?_) h
  rw [hv a ha, hv b hb]
  exact hab

/-- **Removal** of an item from the list it is in. -/
theorem Listed.remove (L : Listed m f c) (hi : i.pvOwner ∈ c) (hc : m.pxContainer i = some l) :
    ∃ w m', f l = some w ∧ i ∈ w.items ∧ uxListRemove i m = some (w.items.length - 1, m') ∧
      m'.xItemValue = m.xItemValue ∧ m'.pxContainer = Function.update m.pxContainer i none ∧
      Listed m' (Function.update f l (some (w.remove i))) c := by
  obtain ⟨w, m', hl, hiw, hm', hv, hcont, s⟩ := L.shown.remove hi hc
  refine ⟨w, m', hl, hiw, hm', hv, hcont, s, L.init_update _, fun l' w' hd hw' => ?_, L.room⟩
  have hsorted : ∀ w', f l' = some w' → SortedBy m' w'.items := fun w' hw' =>
    (L.sorted l' w' hd hw').congr fun j _ => by rw [hv]
  rcases update_cases hw' with ⟨rfl, rfl⟩ | ⟨-, hw'⟩
  · rw [Wheel.items_remove (L.shown.nodup _ w hl)]
    exact (hsorted w hl).sublist List.erase_sublist
  · exact hsorted w' hw'

/-- **Insertion** at the end of a list that is not sorted. -/
theorem Listed.insertEnd (L : Listed m f c) (hl : f l = some w) (hd : ¬ l.IsDelayed)
    (hi : i.pvOwner ∈ c) (hc : m.pxContainer i = none) :
    Listed (vListInsertEnd l i m) (Function.update f l (some (w.enqueue i))) c := by
  have hiw := L.shown.not_mem_of_container hi hc hl
  refine ⟨L.shown.insertEnd hl hi hc (L.has_room hl hi hiw), L.init_update _,
    fun l' w' hd' hw' => ?_, L.room⟩
  rcases update_cases hw' with ⟨rfl, -⟩ | ⟨-, hw'⟩
  · exact absurd hd' hd
  · exact L.sorted l' w' hd' hw'

/-- Items that come one after the other stay sorted around a new one. -/
theorem sorted_insert {is : List TaskItem} (h : SortedBy m is) :
    SortedBy m (is.takeWhile (fun j => m.xItemValue (.item j) ≤ m.xItemValue (.item i)) ++ i ::
      is.dropWhile fun j => m.xItemValue (.item j) ≤ m.xItemValue (.item i)) := by
  generalize hp : (fun j => decide (m.xItemValue (.item j) ≤ m.xItemValue (.item i))) = p
  induction is with
  | nil => exact List.pairwise_singleton _ _
  | cons j is ih =>
      obtain ⟨hj, his⟩ := List.pairwise_cons.mp h
      have hrest := ih his
      by_cases hle : p j = true
      · rw [List.takeWhile_cons_of_pos hle, List.dropWhile_cons_of_pos hle]
        refine List.pairwise_cons.mpr ⟨fun x hx => ?_, hrest⟩
        rw [← hp] at hle
        have hji : m.xItemValue (.item j) ≤ m.xItemValue (.item i) := of_decide_eq_true hle
        rcases List.mem_append.mp hx with hx | hx
        · exact hj x ((List.takeWhile_sublist p).subset hx)
        · rcases List.mem_cons.mp hx with rfl | hx
          · exact hji
          · exact hj x ((List.dropWhile_sublist p).subset hx)
      · rw [List.takeWhile_cons_of_neg hle, List.dropWhile_cons_of_neg hle]
        have hij : m.xItemValue (.item i) < m.xItemValue (.item j) := by
          rw [← hp] at hle
          simpa using hle
        refine List.pairwise_cons.mpr ⟨fun x hx => ?_, h⟩
        rcases List.mem_cons.mp hx with rfl | hx
        · exact Nat.le_of_lt hij
        · exact Nat.le_trans (Nat.le_of_lt hij) (hj x hx)

/-- **Insertion** by value. -/
theorem Listed.insert (L : Listed m f c) (hl : f l = some w) (hi : i.pvOwner ∈ c)
    (hc : m.pxContainer i = none) :
    ∃ w' m', vListInsert l i m = some m' ∧ m'.xItemValue = m.xItemValue ∧
      m'.pxContainer = Function.update m.pxContainer i (some l) ∧
      (w'.items.Perm (i :: w.items)) ∧ Listed m' (Function.update f l (some w')) c := by
  have hiw := L.shown.not_mem_of_container hi hc hl
  obtain ⟨m', hm', hv, s⟩ := L.shown.insert hl hi hc (L.has_room hl hi hiw)
  have hcont : m'.pxContainer = Function.update m.pxContainer i (some l) := by
    obtain ⟨p, -, hp⟩ := Option.bind_eq_some_iff.mp hm'
    obtain rfl := Option.some.inj hp
    rfl
  refine ⟨_, m', hm', hv, hcont, ?_, s, L.init_update _, fun l' w' hd hw' => ?_, L.room⟩
  · rw [Wheel.items_insertBehind]
    refine List.perm_middle.trans ?_
    rw [List.takeWhile_append_dropWhile]
  · rcases update_cases hw' with ⟨rfl, rfl⟩ | ⟨-, hw'⟩
    · rw [Wheel.items_insertBehind]
      exact (sorted_insert (L.sorted _ w hd hl)).congr fun j _ => by rw [hv]
    · exact (L.sorted l' w' hd hw').congr fun j _ => by rw [hv]

/-- A turn of a list that is not sorted. -/
theorem Listed.turn {w' : Wheel TaskItem} (L : Listed m f c) (hl : f l = some w)
    (hd : ¬ l.IsDelayed) (ht : w.turn = some (i, w')) :
    ∃ m', listGetOwnerOfNextEntry l m = some (i, m') ∧ m'.xItemValue = m.xItemValue ∧
      m'.pxContainer = m.pxContainer ∧ Listed m' (Function.update f l (some w')) c := by
  obtain ⟨m', hm', hv, hcont, s⟩ := L.shown.turn hl ht
  refine ⟨m', hm', hv, hcont, s, L.init_update _, fun l' w₁ hd' hw' => ?_, L.room⟩
  rcases update_cases hw' with ⟨rfl, -⟩ | ⟨-, hw'⟩
  · exact absurd hd' hd
  · exact (L.sorted l' w₁ hd' hw').congr fun j _ => by rw [hv]

/-- The value of an item that is in no delayed list. -/
theorem Listed.setValue {v : Nat} (L : Listed m f c) (hv : v < 2 ^ 32) (hi : i.pvOwner ∈ c)
    (hc : ∀ l, m.pxContainer i = some l → ¬ l.IsDelayed) :
    Listed (listSetListItemValue i v m) f c := by
  refine ⟨L.shown.setValue hv, L.init, fun l w hd hw => ?_, L.room⟩
  refine (L.sorted l w hd hw).congr fun j hj => ?_
  have hne : j ≠ i := by
    rintro rfl
    exact hc l ((L.shown.container j l hi).mpr ⟨w, hw, hj⟩) hd
  show Function.update m.xItemValue (.item i) v (.item j) = _
  rw [Function.update_of_ne]
  exact fun he => hne (ItemPtr.item.inj he)

/-! ## What is read -/

theorem Listed.mem_iff (L : Listed m f c) (hl : f l = some w) :
    i ∈ w.items ↔ i.pvOwner ∈ c ∧ m.pxContainer i = some l := by
  constructor
  · intro hi
    have hk : i.pvOwner ∈ c := L.shown.known l w hl i hi
    exact ⟨hk, (L.shown.container i l hk).mpr ⟨w, hl, hi⟩⟩
  · rintro ⟨hk, hc⟩
    obtain ⟨w', hl', hi⟩ := (L.shown.container i l hk).mp hc
    obtain rfl := Option.some.inj (hl.symm.trans hl')
    exact hi

/-- A list is empty if no item says that it is in it. -/
theorem Listed.isEmpty_iff (L : Listed m f c) (hl : f l = some w) :
    listListIsEmpty l m = true ↔ ∀ i, i.pvOwner ∈ c → m.pxContainer i ≠ some l := by
  rw [L.shown.isEmpty hl, List.isEmpty_iff]
  constructor
  · intro hnil i hi hc
    have hm := (L.mem_iff hl).mpr ⟨hi, hc⟩
    rw [hnil] at hm
    cases hm
  · intro h
    refine List.eq_nil_iff_forall_not_mem.mpr fun i hi => ?_
    obtain ⟨hk, hc⟩ := (L.mem_iff hl).mp hi
    exact h i hk hc

/-- The head of a list that is not empty. -/
theorem Listed.head (L : Listed m f c) (hl : f l = some w) (hne : listListIsEmpty l m = false) :
    ∃ i is, w.items = i :: is ∧ listGetOwnerOfHeadEntry l m = some i ∧ i.pvOwner ∈ c ∧
      m.pxContainer i = some l ∧ listGetItemValueOfHeadEntry l m = m.xItemValue (.item i) := by
  rw [L.shown.isEmpty hl] at hne
  cases hw : w.items with
  | nil =>
      rw [hw] at hne
      cases hne
  | cons i is =>
      have hi : i ∈ w.items := by
        rw [hw]
        exact List.mem_cons_self
      obtain ⟨hk, hc⟩ := (L.mem_iff hl).mp hi
      refine ⟨i, is, rfl, ?_, hk, hc, L.shown.head_value hl hw⟩
      rw [L.shown.head hl, hw]
      rfl

/-- The head of a delayed list is the next one to wake. -/
theorem Listed.head_least (L : Listed m f c) (hd : l.IsDelayed) (hl : f l = some w)
    {is : List TaskItem} (hw : w.items = i :: is) {j : TaskItem} (hj : j.pvOwner ∈ c)
    (hc : m.pxContainer j = some l) : m.xItemValue (.item i) ≤ m.xItemValue (.item j) := by
  have hsorted := L.sorted l w hd hl
  have hmem := (L.mem_iff hl).mpr ⟨hj, hc⟩
  rw [hw] at hsorted hmem
  rcases List.mem_cons.mp hmem with rfl | hmem
  · exact Nat.le_refl _
  · exact (List.pairwise_cons.mp hsorted).1 j hmem

end FreeRtos

end MelonSoc
