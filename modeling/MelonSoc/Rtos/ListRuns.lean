import MelonSoc.Rtos.ListWheels

set_option autoImplicit false

/-! # Programs that use the lists

What the lists are for: each is a wheel, an item has a value, and a call changes one of them. The
memory of `list.c` refines that, over every sequence of calls from an uninitialised memory.
-/

namespace MelonSoc

namespace FreeRtos

open FreeRtos.Lists

variable {ι κ : Type}

/-- What the lists hold. -/
structure Content (ι κ : Type) where
  wheels : κ → Option (Wheel ι)
  known : ι → Prop
  value : ι → Nat

/-- The calls of `list.c`. -/
inductive ListCall (ι κ : Type)
  | initialise (pxList : κ)
  | initialiseItem (pxItem : ι)
  | setValue (pxItem : ι) (xValue : Nat)
  | insertEnd (pxList : κ) (pxNewListItem : ι)
  | insert (pxList : κ) (pxNewListItem : ι)
  | remove (pxItemToRemove : ι)
  | nextEntry (pxList : κ)

/-- What a call returns: nothing, a number of items or an owner. -/
inductive Reply (ι : Type)
  | done
  | items (n : Nat)
  | owner (i : ι)

/-- An item that has been initialised and is in no list, and a list that has room for it. -/
structure Enters (c : Content ι κ) (l : κ) (i : ι) (w : Wheel ι) : Prop where
  wheel : c.wheels l = some w
  known : c.known i
  free : ∀ l' w', c.wheels l' = some w' → i ∉ w'.items
  room : w.items.length + 1 < 2 ^ 32

/-- The memory holds the content. -/
structure Holds (m : Lists ι κ) (c : Content ι κ) : Prop where
  shows_wheels : Shows m c.wheels c.known
  value : ∀ i, m.xItemValue (.item i) = c.value i

theorem Holds.container_none {m : Lists ι κ} {c : Content ι κ} {l : κ} {i : ι} {w : Wheel ι}
    (h : Holds m c) (e : Enters c l i w) : m.pxContainer i = none := by
  by_contra hne
  obtain ⟨l', hl'⟩ := Option.ne_none_iff_exists'.mp hne
  obtain ⟨w', hw', hi⟩ := h.shows_wheels.mem_of_container e.known hl'
  exact e.free l' w' hw' hi

variable [DecidableEq ι] [DecidableEq κ]

/-- The call on the memory. -/
def ListCall.apply (m : Lists ι κ) : ListCall ι κ → Option (Reply ι × Lists ι κ)
  | .initialise l => some (.done, vListInitialise l m)
  | .initialiseItem i => some (.done, vListInitialiseItem i m)
  | .setValue i v => some (.done, listSetListItemValue i v m)
  | .insertEnd l i => some (.done, vListInsertEnd l i m)
  | .insert l i => (vListInsert l i m).map fun m => (.done, m)
  | .remove i => (uxListRemove i m).map fun r => (.items r.1, r.2)
  | .nextEntry l => (listGetOwnerOfNextEntry l m).map fun r => (.owner r.1, r.2)

/-- The purpose of the calls, where they may be made. -/
inductive Purpose (c : Content ι κ) : ListCall ι κ → Reply ι → Content ι κ → Prop
  | initialise {l : κ} (h : c.wheels l = none) :
      Purpose c (.initialise l) .done
        { c with wheels := Function.update c.wheels l (some .empty) }
  | initialiseItem {i : ι} (h : ¬ c.known i) :
      Purpose c (.initialiseItem i) .done { c with known := fun j => j = i ∨ c.known j }
  | setValue {i : ι} {v : Nat} (h : v < 2 ^ 32) :
      Purpose c (.setValue i v) .done { c with value := Function.update c.value i v }
  | insertEnd {l : κ} {i : ι} {w : Wheel ι} (h : Enters c l i w) :
      Purpose c (.insertEnd l i) .done
        { c with wheels := Function.update c.wheels l (some (w.enqueue i)) }
  | insert {l : κ} {i : ι} {w : Wheel ι} (h : Enters c l i w) :
      Purpose c (.insert l i) .done { c with
        wheels := Function.update c.wheels l
          (some (w.insertBehind (fun j => c.value j ≤ c.value i) i)) }
  | remove {l : κ} {i : ι} {w : Wheel ι} (hl : c.wheels l = some w) (hi : i ∈ w.items) :
      Purpose c (.remove i) (.items (w.items.length - 1))
        { c with wheels := Function.update c.wheels l (some (w.remove i)) }
  | nextEntry {l : κ} {i : ι} {w w' : Wheel ι} (hl : c.wheels l = some w)
      (h : w.turn = some (i, w')) :
      Purpose c (.nextEntry l) (.owner i)
        { c with wheels := Function.update c.wheels l (some w') }

/-- The states of the programs on a memory of 32-bit words. -/
inductive ListReach : Lists ι κ → Content ι κ → Prop where
  | start (m : Lists ι κ) (h : ∀ p, m.xItemValue p < 2 ^ 32) :
      ListReach m ⟨fun _ => none, fun _ => False, fun i => m.xItemValue (.item i)⟩
  | step {m m' : Lists ι κ} {c c' : Content ι κ} {call : ListCall ι κ} {reply reply' : Reply ι}
      (h : ListReach m c) (hp : Purpose c call reply c')
      (hs : call.apply m = some (reply', m')) : ListReach m' c'

variable {m m' : Lists ι κ} {c c' : Content ι κ} {lc : ListCall ι κ} {reply : Reply ι} {l : κ}
  {i : ι} {w : Wheel ι}

/-- **One call** does what it is for. -/
theorem Holds.call (h : Holds m c) (hp : Purpose c lc reply c') :
    ∃ m', lc.apply m = some (reply, m') ∧ Holds m' c' := by
  have s := h.shows_wheels
  cases hp with
  | @initialise l hl =>
      have hne : ∀ i, (ItemPtr.item i : ItemPtr ι κ) ≠ .xListEnd l := fun i he => by cases he
      exact ⟨_, rfl, s.initialise hl,
        fun i => (Function.update_of_ne (hne i) portMaxDelay _).trans (h.value i)⟩
  | initialiseItem hi => exact ⟨_, rfl, s.initialiseItem hi, h.value⟩
  | @setValue i v hv =>
      refine ⟨_, rfl, s.setValue hv, fun j => ?_⟩
      show Function.update m.xItemValue (.item i) v (.item j) = Function.update c.value i v j
      by_cases hji : j = i
      · rw [hji, Function.update_self, Function.update_self]
      · rw [Function.update_of_ne hji, Function.update_of_ne, h.value]
        exact fun he => hji (ItemPtr.item.inj he)
  | insertEnd e =>
      exact ⟨_, rfl, s.insertEnd e.wheel e.known (h.container_none e) e.room, h.value⟩
  | @insert l i w e =>
      obtain ⟨m', hm', hvalue, s'⟩ := s.insert e.wheel e.known (h.container_none e) e.room
      refine ⟨m', by rw [ListCall.apply, hm']; rfl, ?_, fun j => by rw [hvalue, h.value]⟩
      simpa only [h.value] using s'
  | @remove l i w hl hi =>
      have hc := (s.container i l (s.known l w hl i hi)).mpr ⟨w, hl, hi⟩
      obtain ⟨w', m', hl', -, hm', hvalue, -, s'⟩ := s.remove (s.known l w hl i hi) hc
      obtain rfl := Option.some.inj (hl.symm.trans hl')
      exact ⟨m', by rw [ListCall.apply, hm']; rfl, s', fun j => by rw [hvalue, h.value]⟩
  | nextEntry hl ht =>
      obtain ⟨m', hm', hvalue, -, s'⟩ := s.turn hl ht
      exact ⟨m', by rw [ListCall.apply, hm']; rfl, s', fun j => by rw [hvalue, h.value]⟩

theorem ListReach.holds (h : ListReach m c) : Holds m c := by
  induction h with
  | start m hm =>
      have hnone : ∀ (l : κ) (w : Wheel ι), (none : Option (Wheel ι)) = some w → False :=
        fun l w hw => by cases hw
      exact ⟨⟨fun l w hw => (hnone l w hw).elim, fun l w hw => (hnone l w hw).elim,
        fun l w hw => (hnone l w hw).elim, fun l w hw => (hnone l w hw).elim,
        fun l w hw => (hnone l w hw).elim, fun l w hw => (hnone l w hw).elim,
        fun l w hw => (hnone l w hw).elim, fun i l hi => hi.elim, hm⟩, fun i => rfl⟩
  | step _ hp hs ih =>
      obtain ⟨m', hm', h'⟩ := ih.call hp
      obtain ⟨-, rfl⟩ := Prod.mk.inj (Option.some.inj (hs.symm.trans hm'))
      exact h'

/-- The owners that `n` calls of `listGET_OWNER_OF_NEXT_ENTRY` return. -/
def nextEntries (l : κ) : Nat → Lists ι κ → Option (List ι × Lists ι κ)
  | 0, m => some ([], m)
  | n + 1, m => do
      let (i, m) ← listGetOwnerOfNextEntry l m
      let (is, m) ← nextEntries l n m
      some (i :: is, m)

theorem Shows.turns {f : κ → Option (Wheel ι)} {g : ι → Prop} {w' : Wheel ι} {n : Nat}
    {is : List ι} (s : Shows m f g) (hl : f l = some w) (h : w.turns n = some (is, w')) :
    ∃ m', nextEntries l n m = some (is, m') ∧ Shows m' (Function.update f l (some w')) g := by
  induction n generalizing m f w is with
  | zero =>
      obtain ⟨rfl, rfl⟩ := Prod.mk.inj (Option.some.inj h)
      refine ⟨m, rfl, ?_⟩
      rw [← hl, Function.update_eq_self]
      exact s
  | succ n ih =>
      obtain ⟨⟨i, w₁⟩, ht, h⟩ := Option.bind_eq_some_iff.mp h
      obtain ⟨⟨is', w₂⟩, hts, h⟩ := Option.bind_eq_some_iff.mp h
      obtain ⟨rfl, rfl⟩ := Prod.mk.inj (Option.some.inj h)
      obtain ⟨m₁, hm₁, -, -, s₁⟩ := s.turn hl ht
      obtain ⟨m₂, hm₂, s₂⟩ := ih s₁ (Function.update_self ..) hts
      rw [Function.update_idem] at s₂
      refine ⟨m₂, ?_, s₂⟩
      show ((listGetOwnerOfNextEntry l m).bind fun r => (nextEntries l n r.2).bind fun u =>
        some (r.1 :: u.1, u.2)) = _
      rw [hm₁]
      simp only [Option.bind_some, hm₂]

/-- **The lists do what they are for.** In every state of every program, the pointers form a ring
for each list and agree with the items, counts, containers and cursor of its wheel; each call that
may be made returns, with the reply of its purpose; and a round of
`listGET_OWNER_OF_NEXT_ENTRY` returns each item once and leaves the order as it was. -/
theorem lists_refine (h : ListReach m c) :
    Holds m c ∧
    (∀ call reply c', Purpose c call reply c' →
      ∃ m', call.apply m = some (reply, m') ∧ ListReach m' c') ∧
    ∀ l w, c.wheels l = some w → ∃ m' w',
      nextEntries l (m.uxNumberOfItems l) m = some (w.order, m') ∧ w.order.Perm w.items ∧
        w.items.Nodup ∧ w'.order = w.order ∧
        Shows m' (Function.update c.wheels l (some w')) c.known := by
  have hh := h.holds
  have s := hh.shows_wheels
  refine ⟨hh, fun call reply c' hp => ?_, fun l w hl => ?_⟩
  · obtain ⟨m', hm', -⟩ := hh.call hp
    exact ⟨m', hm', h.step hp hm'⟩
  · obtain ⟨w', hw', horder⟩ := w.turns_round
    rw [← s.count l w hl] at hw'
    obtain ⟨m', hm', s'⟩ := s.turns hl hw'
    exact ⟨m', w', hm', w.order_perm, s.nodup l w hl, horder, s'⟩

/-- A list of which nothing is initialised. -/
def sampleLists : Lists Nat Nat where
  xItemValue _ := 0
  pxNext p := p
  pxPrevious p := p
  pxContainer _ := none
  uxNumberOfItems _ := 0
  pxIndex _ := .item 0

theorem lists_refine_two : ∃ (m : Lists Nat Nat) (c : Content Nat Nat), ListReach m c ∧
    ∃ m', nextEntries 0 (m.uxNumberOfItems 0) m = some ([5, 7], m') := by
  have h₀ : ListReach sampleLists _ := ListReach.start sampleLists fun p => Nat.two_pow_pos 32
  have h₁ := h₀.step (.initialise (l := 0) rfl) rfl
  have h₂ := h₁.step (.initialiseItem (i := 5) fun hg => hg) rfl
  have h₃ := h₂.step (.initialiseItem (i := 7)
    fun hg => hg.elim (fun he => absurd he (by decide)) fun hg => hg) rfl
  have hempty : ∀ {l' : Nat} {w' : Wheel Nat} {i : Nat},
      Function.update (fun _ : Nat => none) 0 (some Wheel.empty) l' = some w' → i ∉ w'.items := by
    intro l' w' i hw hi
    rcases update_cases hw with ⟨-, rfl⟩ | ⟨-, hw⟩
    · cases hi
    · cases hw
  have hother : ∀ {l' : Nat} {w' : Wheel Nat}, Function.update (Function.update
      (fun _ : Nat => none) 0 (some Wheel.empty)) 0 (some (Wheel.empty.enqueue 5)) l' = some w' → 7 ∉ w'.items := by
    intro l' w' hw hi
    rcases update_cases hw with ⟨-, rfl⟩ | ⟨-, hw⟩
    · exact absurd hi (by decide)
    · exact hempty hw hi
  have h₄ := h₃.step (.insertEnd (l := 0) (i := 5) (w := .empty)
    ⟨rfl, .inr (.inl rfl), fun l' w' hw => hempty hw, by decide⟩) rfl
  have h₅ := h₄.step (.insertEnd (l := 0) (i := 7) (w := Wheel.empty.enqueue 5)
    ⟨rfl, .inl rfl, fun l' w' hw => hother hw, by decide⟩) rfl
  obtain ⟨m', w', hm, -⟩ := (lists_refine h₅).2.2 0 _ rfl
  exact ⟨_, _, h₅, m', hm⟩

end FreeRtos

end MelonSoc
