import MelonSoc.Rtos.ListItems

set_option autoImplicit false

/-! # The lists show wheels

Each list that has been initialised is a ring of its end marker and its items, and the cursor of a
wheel is where `pxIndex` stands, at the end marker if nothing has been passed. Every operation of
`list.c` changes the wheel of one list, by the operation of the same purpose on wheels.
-/

namespace MelonSoc

namespace FreeRtos

variable {ι κ : Type}

namespace Lists

/-- The links of all items and end markers. -/
def links (m : Lists ι κ) : Rings.Links (ItemPtr ι κ) := ⟨m.pxNext, m.pxPrevious⟩

end Lists

open FreeRtos.Lists

/-- A pointer to an item, or to the end marker. -/
def ptr (l : κ) (i : Option ι) : ItemPtr ι κ := (i.map .item).getD (.xListEnd l)

@[simp] theorem ptr_some (l : κ) (i : ι) : ptr l (some i) = .item i := rfl

/-- The memory shows a wheel for each list that has been initialised, and knows the items that have
been. -/
structure Shows (m : Lists ι κ) (f : κ → Option (Wheel ι)) (g : ι → Prop) : Prop where
  ring : ∀ l w, f l = some w → Rings.Ring m.links (.xListEnd l) (w.items.map .item)
  index : ∀ l w, f l = some w → m.pxIndex l = ptr l w.cursor
  count : ∀ l w, f l = some w → m.uxNumberOfItems l = w.items.length
  bound : ∀ l w, f l = some w → w.items.length < 2 ^ 32
  mark : ∀ l w, f l = some w → m.xItemValue (.xListEnd l) = portMaxDelay
  nodup : ∀ l w, f l = some w → w.items.Nodup
  known : ∀ l w, f l = some w → ∀ i ∈ w.items, g i
  container : ∀ i l, g i → (m.pxContainer i = some l ↔ ∃ w, f l = some w ∧ i ∈ w.items)
  small : ∀ p, m.xItemValue p < 2 ^ 32

variable {m m' : Lists ι κ} {f : κ → Option (Wheel ι)} {g : ι → Prop} {l l' : κ} {w w' : Wheel ι}
  {i j : ι} {a b : List ι}

theorem item_injective : Function.Injective (ItemPtr.item : ι → ItemPtr ι κ) :=
  fun _ _ h => ItemPtr.item.inj h

theorem getLast_ptr (l : κ) (a : List ι) :
    (a.map (ItemPtr.item (κ := κ))).getLast?.getD (.xListEnd l) = ptr l a.getLast? := by
  rw [List.getLast?_map]
  rfl

theorem head_ptr (l : κ) (a : List ι) :
    (a.map (ItemPtr.item (κ := κ))).head?.getD (.xListEnd l) = ptr l a.head? := by
  rw [List.head?_map]
  rfl

/-- The end marker and the items of a list are different nodes. -/
theorem Shows.nodes_nodup (s : Shows m f g) (hl : f l = some w) :
    (ItemPtr.xListEnd l :: w.items.map .item : List (ItemPtr ι κ)).Nodup := by
  refine List.nodup_cons.mpr ⟨fun hm => ?_, (s.nodup l w hl).map item_injective⟩
  obtain ⟨j, -, hj⟩ := List.mem_map.mp hm
  cases hj

theorem mem_ptr {o : Option ι} (ho : ∀ j, o = some j → j ∈ a) :
    (ptr l o : ItemPtr ι κ) ∈ ItemPtr.xListEnd l :: a.map .item := by
  cases o with
  | none => exact List.mem_cons_self
  | some j => exact List.mem_cons_of_mem _ (List.mem_map_of_mem (ho j rfl))

/-- An item is in one list at most. -/
theorem Shows.unique (s : Shows m f g) (hl : f l = some w) (hl' : f l' = some w')
    (hi : i ∈ w.items) (hi' : i ∈ w'.items) : l = l' := by
  have hg := s.known l w hl i hi
  have h1 := (s.container i l hg).mpr ⟨w, hl, hi⟩
  have h2 := (s.container i l' hg).mpr ⟨w', hl', hi'⟩
  exact Option.some.inj (h1.symm.trans h2)

/-- Two lists have no node in common. -/
theorem Shows.apart (s : Shows m f g) (hl : f l = some w) (hl' : f l' = some w') (hne : l' ≠ l)
    {y : ItemPtr ι κ} (hy : y = .xListEnd l' ∨ y ∈ w'.items.map .item) :
    y ∉ ItemPtr.xListEnd l :: w.items.map .item := by
  intro hm
  rcases hy with rfl | hy
  · rcases List.mem_cons.mp hm with he | hm
    · exact hne (ItemPtr.xListEnd.inj he)
    · obtain ⟨j, -, hj⟩ := List.mem_map.mp hm
      cases hj
  · obtain ⟨j, hj, rfl⟩ := List.mem_map.mp hy
    rcases List.mem_cons.mp hm with he | hm
    · cases he
    · obtain ⟨k, hk, hkj⟩ := List.mem_map.mp hm
      obtain rfl := ItemPtr.item.inj hkj
      exact hne (s.unique hl' hl hj hk)

/-! ## Reading -/

theorem Shows.next_end (s : Shows m f g) (hl : f l = some w) :
    m.pxNext (.xListEnd l) = ptr l w.items.head? := by
  have hnext := Rings.Path.next (s.ring l w hl)
  rw [head_ptr] at hnext
  exact hnext

theorem Shows.prev_end (s : Shows m f g) (hl : f l = some w) :
    m.pxPrevious (.xListEnd l) = ptr l w.items.getLast? := by
  have hprev := Rings.Path.prev (s.ring l w hl)
  rw [getLast_ptr] at hprev
  exact hprev

theorem Shows.head (s : Shows m f g) (hl : f l = some w) :
    listGetOwnerOfHeadEntry l m = w.items.head? := by
  unfold listGetOwnerOfHeadEntry
  rw [s.next_end hl]
  cases w.items.head? with
  | none => rfl
  | some j => rfl

theorem Shows.head_value (s : Shows m f g) (hl : f l = some w) (hw : w.items = i :: a) :
    listGetItemValueOfHeadEntry l m = m.xItemValue (.item i) := by
  unfold listGetItemValueOfHeadEntry
  rw [s.next_end hl, hw]
  rfl

theorem Shows.isEmpty (s : Shows m f g) (hl : f l = some w) :
    listListIsEmpty l m = w.items.isEmpty := by
  unfold listListIsEmpty
  rw [s.count l w hl]
  cases w.items with
  | nil => rfl
  | cons j a => rfl

/-- Where the cursor goes when its item is taken out. -/
theorem Shows.prev_cursor (s : Shows m f g) (hl : f l = some w) (hcur : w.cursor = some i) :
    m.pxPrevious (.item i) = ptr l w.passed.dropLast.getLast? := by
  obtain ⟨passed, rest⟩ := w
  rcases List.eq_nil_or_concat passed with rfl | ⟨q, j, rfl⟩
  · cases hcur
  · rw [List.concat_eq_append] at hl hcur ⊢
    obtain rfl : j = i := by simpa [Wheel.cursor] using hcur
    have hring := s.ring l _ hl
    rw [Wheel.items, List.append_assoc, List.map_append, List.singleton_append, List.map_cons] at hring
    have hprev := Rings.Path.prev (Rings.path_append.mp hring).1
    rw [getLast_ptr] at hprev
    rw [List.dropLast_concat]
    exact hprev

/-- The node behind the cursor. -/
theorem Shows.next_index (s : Shows m f g) (hl : f l = some w) :
    m.pxNext (m.pxIndex l) = ptr l w.rest.head? := by
  obtain ⟨passed, rest⟩ := w
  have hring := s.ring l _ hl
  rw [s.index l _ hl]
  rw [Wheel.items, List.map_append] at hring
  rcases List.eq_nil_or_concat passed with rfl | ⟨q, j, rfl⟩
  · have hnext := Rings.Path.next hring
    rw [List.map_nil, List.nil_append, head_ptr] at hnext
    exact hnext
  · rw [List.concat_eq_append, List.map_append, List.append_assoc, List.map_singleton,
      List.singleton_append] at hring
    have hnext := Rings.Path.next (Rings.path_append.mp hring).2
    rw [head_ptr] at hnext
    rw [List.concat_eq_append, Wheel.cursor, List.getLast?_concat]
    exact hnext

/-- What the container says about an item. -/
theorem Shows.mem_of_container (s : Shows m f g) (hi : g i) (hc : m.pxContainer i = some l) :
    ∃ w, f l = some w ∧ i ∈ w.items := (s.container i l hi).mp hc

theorem Shows.not_mem_of_container (s : Shows m f g) (hi : g i) (hc : m.pxContainer i = none)
    (hl : f l = some w) : i ∉ w.items := by
  intro hm
  have hsome := (s.container i l hi).mpr ⟨w, hl, hm⟩
  rw [hc] at hsome
  cases hsome

/-- The walk ends behind the last item of a front whose values are not larger. -/
theorem insertionPoint_eq {v : Nat} {p e : ItemPtr ι κ} {c : List ι} (hv : v < m.xItemValue e)
    (hpath : Rings.Path m.links p (c.map .item) e) (fuel : Nat) (hfuel : c.length < fuel) :
    insertionPoint m v fuel p
      = some ((((c.takeWhile fun j => m.xItemValue (.item j) ≤ v).map .item).getLast?).getD p) := by
  induction c generalizing p fuel with
  | nil =>
      obtain ⟨fuel, rfl⟩ := Nat.exists_eq_add_of_lt hfuel
      have hnext : m.pxNext p = e := hpath.1
      exact if_neg (by rw [hnext]; omega)
  | cons j c ih =>
      rw [List.length_cons] at hfuel
      obtain ⟨fuel, rfl⟩ := Nat.exists_eq_add_of_lt (show 0 < fuel by omega)
      obtain ⟨⟨hnext, -⟩, hpath⟩ := Rings.path_cons.mp hpath
      have hnext' : m.pxNext p = .item j := hnext
      rw [Nat.zero_add, insertionPoint, hnext', List.takeWhile_cons]
      split
      · rename_i hle
        rw [ih hpath fuel (by omega), if_pos (by simpa using hle), List.map_cons,
          List.getLast?_cons]
        rfl
      · rename_i hle
        rw [if_neg (by simpa using hle)]
        rfl

/-! ## Initialising -/

/-- Wheels of the other lists when one wheel changes. -/
theorem update_cases [DecidableEq κ] {w₀ w₁ : Wheel ι}
    (h : Function.update f l (some w₀) l' = some w₁) :
    (l' = l ∧ w₁ = w₀) ∨ (l' ≠ l ∧ f l' = some w₁) := by
  by_cases he : l' = l
  · rw [he, Function.update_self] at h
    exact .inl ⟨he, (Option.some.inj h).symm⟩
  · rw [Function.update_of_ne he] at h
    exact .inr ⟨he, h⟩

variable [DecidableEq ι]

theorem Shows.initialiseItem (s : Shows m f g) (hi : ¬ g i) :
    Shows (vListInitialiseItem i m) f (fun j => j = i ∨ g j) := by
  refine ⟨s.ring, s.index, s.count, s.bound, s.mark, s.nodup,
    fun l w hw j hj => .inr (s.known l w hw j hj), fun j l hj => ?_, s.small⟩
  show Function.update m.pxContainer i none j = some l ↔ _
  by_cases hji : j = i
  · rw [hji, Function.update_self]
    constructor
    · intro h
      cases h
    · rintro ⟨w, hw, hm⟩
      exact absurd (s.known l w hw i hm) hi
  · rw [Function.update_of_ne hji]
    exact s.container j l (hj.resolve_left hji)

variable [DecidableEq κ]

theorem Shows.initialise (s : Shows m f g) (hl : f l = none) :
    Shows (vListInitialise l m) (Function.update f l (some .empty)) g := by
  refine ⟨?_, ?_, ?_, ?_, ?_, ?_, ?_, ?_, ?_⟩
  · intro l' w hw
    rcases update_cases hw with ⟨rfl, rfl⟩ | ⟨hne, hw⟩
    · exact ⟨Function.update_self .., Function.update_self ..⟩
    · refine (s.ring l' w hw).congr fun y hy => ?_
      have hyl : y ≠ .xListEnd l := by
        rintro rfl
        rcases hy with he | hm
        · exact hne (ItemPtr.xListEnd.inj he).symm
        · obtain ⟨j, -, hj⟩ := List.mem_map.mp hm
          cases hj
      exact ⟨Function.update_of_ne hyl _ _, Function.update_of_ne hyl _ _⟩
  · intro l' w hw
    rcases update_cases hw with ⟨rfl, rfl⟩ | ⟨hne, hw⟩
    · exact Function.update_self ..
    · exact (Function.update_of_ne hne _ _).trans (s.index l' w hw)
  · intro l' w hw
    rcases update_cases hw with ⟨rfl, rfl⟩ | ⟨hne, hw⟩
    · exact Function.update_self ..
    · exact (Function.update_of_ne hne _ _).trans (s.count l' w hw)
  · intro l' w hw
    rcases update_cases hw with ⟨rfl, rfl⟩ | ⟨-, hw⟩
    · show 0 < 2 ^ 32
      decide
    · exact s.bound l' w hw
  · intro l' w hw
    rcases update_cases hw with ⟨rfl, rfl⟩ | ⟨hne, hw⟩
    · exact Function.update_self ..
    · have hend : (ItemPtr.xListEnd l' : ItemPtr ι κ) ≠ .xListEnd l :=
        fun he => hne (ItemPtr.xListEnd.inj he)
      exact (Function.update_of_ne hend _ _).trans (s.mark l' w hw)
  · intro l' w hw
    rcases update_cases hw with ⟨rfl, rfl⟩ | ⟨-, hw⟩
    · exact List.nodup_nil
    · exact s.nodup l' w hw
  · intro l' w hw
    rcases update_cases hw with ⟨rfl, rfl⟩ | ⟨-, hw⟩
    · exact List.forall_mem_nil _
    · exact s.known l' w hw
  · intro i l' hi
    refine (s.container i l' hi).trans ⟨?_, ?_⟩
    · rintro ⟨w, hw, hm⟩
      have hne : l' ≠ l := fun he => by
        rw [he, hl] at hw
        cases hw
      exact ⟨w, (Function.update_of_ne hne _ _).trans hw, hm⟩
    · rintro ⟨w, hw, hm⟩
      rcases update_cases hw with ⟨rfl, rfl⟩ | ⟨-, hw⟩
      · cases hm
      · exact ⟨w, hw, hm⟩
  · intro p
    show Function.update m.xItemValue (.xListEnd l) portMaxDelay p < 2 ^ 32
    rw [Function.update_apply]
    split
    · decide
    · exact s.small p

theorem Shows.setValue (s : Shows m f g) {v : Nat} (hv : v < 2 ^ 32) :
    Shows (listSetListItemValue i v m) f g := by
  refine ⟨s.ring, s.index, s.count, s.bound, fun l w hw => ?_, s.nodup, s.known, s.container,
    fun p => ?_⟩
  · have hne : (ItemPtr.xListEnd l : ItemPtr ι κ) ≠ .item i := fun he => by cases he
    exact (Function.update_of_ne hne v _).trans (s.mark l w hw)
  · show Function.update m.xItemValue (.item i) v p < 2 ^ 32
    rw [Function.update_apply]
    split
    · exact hv
    · exact s.small p

/-! ## Putting items in -/

/-- An item enters a list when it has been linked between two neighbours. -/
theorem Shows.enter {m₁ : Lists ι κ} (s : Shows m f g) (hl : f l = some w) (hi : g i)
    (hc : m.pxContainer i = none) (hcount : w.items.length + 1 < 2 ^ 32)
    (hw : w.items = a ++ b) (hw' : w'.items = a ++ i :: b) (hcur : w'.cursor = w.cursor)
    (hlinks : m₁.links = m.links.insertBefore (ptr l b.head?) (.item i))
    (hrest : m₁ = { m with pxNext := m₁.pxNext, pxPrevious := m₁.pxPrevious }) :
    Shows (Lists.enter l i m₁) (Function.update f l (some w')) g := by
  have hnew : ∀ {l' w₁}, f l' = some w₁ → i ∉ w₁.items := s.not_mem_of_container hi hc
  have hnodup := s.nodes_nodup hl
  have hring := s.ring l w hl
  have hfresh : ItemPtr.item i ∉ ItemPtr.xListEnd l :: w.items.map .item := by
    intro hm
    rcases List.mem_cons.mp hm with he | hm
    · cases he
    · obtain ⟨j, hj, hji⟩ := List.mem_map.mp hm
      obtain rfl := ItemPtr.item.inj hji
      exact hnew hl hj
  have hvalue : m₁.xItemValue = m.xItemValue := by rw [hrest]
  have hindex : m₁.pxIndex = m.pxIndex := by rw [hrest]
  have hnumber : m₁.uxNumberOfItems = m.uxNumberOfItems := by rw [hrest]
  have hcontainer : m₁.pxContainer = m.pxContainer := by rw [hrest]
  refine ⟨?_, ?_, ?_, ?_, ?_, ?_, ?_, ?_, ?_⟩
  · intro l' w₁ h
    show Rings.Ring m₁.links _ _
    rcases update_cases h with ⟨rfl, rfl⟩ | ⟨hne, h⟩
    · rw [hlinks, hw', List.map_append, List.map_cons]
      rw [hw, List.map_append] at hring hnodup hfresh
      cases b with
      | nil =>
          simp only [List.map_nil, List.append_nil] at hring hnodup hfresh ⊢
          exact hring.insert_last hnodup hfresh
      | cons y b => exact hring.insert hnodup hfresh
    · refine (s.ring l' w₁ h).congr fun y hy => ?_
      have hout := s.apart hl h hne hy
      have hyi : y ≠ .item i := by
        rintro rfl
        rcases hy with he | hm
        · cases he
        · obtain ⟨j, hj, hji⟩ := List.mem_map.mp hm
          obtain rfl := ItemPtr.item.inj hji
          exact hnew h hj
      have hnear : ptr l b.head? ∈ ItemPtr.xListEnd l :: w.items.map .item := by
        refine mem_ptr fun j hj => ?_
        rw [hw]
        exact List.mem_append_right _ (List.mem_of_mem_head? hj)
      have hprev : m.links.prev (ptr l b.head?) ∈ ItemPtr.xListEnd l :: w.items.map .item := by
        rw [hw, List.map_append] at hring ⊢
        cases b with
        | nil =>
            rw [List.map_nil, List.append_nil] at hring ⊢
            exact List.mem_cons.mpr (Rings.Path.prev_mem hring)
        | cons y b =>
            have hmem := Rings.Path.prev_mem (Rings.path_append.mp hring).1
            rw [← List.cons_append]
            exact List.mem_append_left _ (List.mem_cons.mpr hmem)
      rw [hlinks]
      exact ⟨Rings.Links.insertBefore_next hyi fun he => hout (by rw [he]; exact hprev),
        Rings.Links.insertBefore_prev hyi fun he => hout (by rw [he]; exact hnear)⟩
  · intro l' w₁ h
    show m₁.pxIndex l' = _
    rw [hindex]
    rcases update_cases h with ⟨rfl, rfl⟩ | ⟨-, h⟩
    · rw [hcur]
      exact s.index _ w hl
    · exact s.index l' w₁ h
  · intro l' w₁ h
    show Function.update m₁.uxNumberOfItems l (add32 (m₁.uxNumberOfItems l) 1) l' = _
    rw [hnumber]
    rcases update_cases h with ⟨rfl, rfl⟩ | ⟨hne, h⟩
    · rw [Function.update_self, s.count _ w hl, hw']
      rw [hw, List.length_append] at hcount ⊢
      rw [add32, Nat.mod_eq_of_lt hcount, List.length_append, List.length_cons, Nat.add_assoc]
    · rw [Function.update_of_ne hne]
      exact s.count l' w₁ h
  · intro l' w₁ h
    rcases update_cases h with ⟨rfl, rfl⟩ | ⟨-, h⟩
    · rw [hw, List.length_append] at hcount
      rw [hw', List.length_append, List.length_cons]
      omega
    · exact s.bound l' w₁ h
  · intro l' w₁ h
    show m₁.xItemValue _ = _
    rw [hvalue]
    rcases update_cases h with ⟨rfl, -⟩ | ⟨-, h⟩
    · exact s.mark _ w hl
    · exact s.mark l' w₁ h
  · intro l' w₁ h
    rcases update_cases h with ⟨rfl, rfl⟩ | ⟨-, h⟩
    · have hi' := hnew hl
      have hn := s.nodup _ w hl
      rw [hw] at hi' hn
      rw [hw', List.nodup_middle]
      exact List.nodup_cons.mpr ⟨hi', hn⟩
    · exact s.nodup l' w₁ h
  · intro l' w₁ h j hj
    rcases update_cases h with ⟨rfl, rfl⟩ | ⟨-, h⟩
    · rw [hw', List.mem_append, List.mem_cons] at hj
      rcases hj with hj | rfl | hj
      · exact s.known _ w hl j (by rw [hw]; exact List.mem_append_left _ hj)
      · exact hi
      · exact s.known _ w hl j (by rw [hw]; exact List.mem_append_right _ hj)
    · exact s.known l' w₁ h j hj
  · intro j l' hj
    show Function.update m₁.pxContainer i (some l) j = some l' ↔ _
    rw [hcontainer]
    by_cases hji : j = i
    · rw [hji, Function.update_self]
      constructor
      · intro he
        obtain rfl := Option.some.inj he
        exact ⟨w', Function.update_self .., by rw [hw']; exact List.mem_append_right _ List.mem_cons_self⟩
      · rintro ⟨w₁, h, hm⟩
        rcases update_cases h with ⟨rfl, -⟩ | ⟨-, h⟩
        · rfl
        · exact absurd hm (hnew h)
    · rw [Function.update_of_ne hji, s.container j l' hj]
      have hsame : j ∈ w'.items ↔ j ∈ w.items := by
        rw [hw, hw', List.mem_append, List.mem_append, List.mem_cons]
        simp [hji]
      constructor
      · rintro ⟨w₁, h, hm⟩
        by_cases he : l' = l
        · obtain rfl := Option.some.inj (hl.symm.trans (he ▸ h))
          exact ⟨w', by rw [he, Function.update_self], hsame.mpr hm⟩
        · exact ⟨w₁, by rw [Function.update_of_ne he, h], hm⟩
      · rintro ⟨w₁, h, hm⟩
        rcases update_cases h with ⟨rfl, rfl⟩ | ⟨-, h⟩
        · exact ⟨w, hl, hsame.mp hm⟩
        · exact ⟨w₁, h, hm⟩
  · intro p
    show m₁.xItemValue p < 2 ^ 32
    rw [hvalue]
    exact s.small p

/-- **`vListInsertEnd`** puts the item in front of the cursor. -/
theorem Shows.insertEnd (s : Shows m f g) (hl : f l = some w) (hi : g i)
    (hc : m.pxContainer i = none) (hcount : w.items.length + 1 < 2 ^ 32) :
    Shows (vListInsertEnd l i m) (Function.update f l (some (w.enqueue i))) g := by
  obtain ⟨a, b, hw, hw', hhead, -⟩ := Wheel.items_enqueue i w
  have hindex : m.pxIndex l = ptr l b.head? := by rw [s.index l w hl, hhead]
  have hne : m.pxIndex l ≠ .item i := by
    have hi' := s.not_mem_of_container hi hc hl
    intro he
    rw [hindex] at he
    cases b with
    | nil => cases he
    | cons y b =>
        obtain rfl := ItemPtr.item.inj he
        exact hi' (by rw [hw]; exact List.mem_append_right _ List.mem_cons_self)
  refine s.enter hl hi hc hcount hw hw' (Wheel.cursor_enqueue i w) ?_ rfl
  rw [← hindex]
  unfold Rings.Links.insertBefore links setNext setPrevious
  simp only [Function.update_of_ne hne]

/-- **`vListInsert`** puts the item behind all items in front whose values are not larger. -/
theorem Shows.insert (s : Shows m f g) (hl : f l = some w) (hi : g i)
    (hc : m.pxContainer i = none) (hcount : w.items.length + 1 < 2 ^ 32) :
    ∃ m', vListInsert l i m = some m' ∧ m'.xItemValue = m.xItemValue ∧
      Shows m' (Function.update f l (some
        (w.insertBehind (fun j => m.xItemValue (.item j) ≤ m.xItemValue (.item i)) i))) g := by
  generalize hp : (fun j : ι => decide (m.xItemValue (.item j) ≤ m.xItemValue (.item i))) = p
  have hw : w.items = w.items.takeWhile p ++ w.items.dropWhile p :=
    (List.takeWhile_append_dropWhile ..).symm
  have hring := s.ring l w hl
  -- the node behind which the item goes
  have hpoint : insertionIterator l i m = some (ptr l (w.items.takeWhile p).getLast?) := by
    unfold insertionIterator
    simp only
    split
    · rename_i hmax
      have hall : w.items.takeWhile p = w.items := by
        refine List.takeWhile_eq_self_iff.mpr fun j _ => ?_
        have hj := s.small (.item j)
        rw [← hp, hmax]
        exact decide_eq_true (Nat.le_of_lt_succ hj)
      rw [s.prev_end hl, hall]
    · rename_i hmax
      have hlt : m.xItemValue (.item i) < m.xItemValue (.xListEnd l) := by
        have hsmall := s.small (.item i)
        rw [s.mark l w hl]
        have hval : portMaxDelay = 2 ^ 32 - 1 := rfl
        omega
      rw [insertionPoint_eq hlt hring _ (by rw [s.count l w hl]; omega), getLast_ptr, hp]
  generalize hit : ptr l (w.items.takeWhile p).getLast? = it at hpoint
  -- the neighbours
  have hpath : m.pxNext it = ptr l (w.items.dropWhile p).head? ∧
      m.pxPrevious (ptr l (w.items.dropWhile p).head?) = it := by
    rw [← hit]
    generalize w.items.takeWhile p = a at hw
    generalize w.items.dropWhile p = b at hw
    rw [hw] at hring
    rcases List.eq_nil_or_concat a with rfl | ⟨q, y, rfl⟩
    · cases b with
      | nil => exact hring
      | cons z b => exact (Rings.path_cons.mp hring).1
    · rw [List.concat_eq_append, List.append_assoc, List.map_append] at hring
      have hy := (Rings.path_append.mp hring).2
      rw [List.concat_eq_append, List.getLast?_concat]
      cases b with
      | nil => exact hy
      | cons z b => exact (Rings.path_cons.mp hy).1
  have hi' := s.not_mem_of_container hi hc hl
  have hne : ptr l (w.items.dropWhile p).head? ≠ .item i := by
    intro he
    cases hd : w.items.dropWhile p with
    | nil =>
        rw [hd] at he
        cases he
    | cons z b =>
        rw [hd] at he
        obtain rfl := ItemPtr.item.inj he
        exact hi' (by rw [hw, hd]; exact List.mem_append_right _ List.mem_cons_self)
  unfold vListInsert
  simp only [hpoint, Option.bind_eq_bind, Option.bind_some]
  refine ⟨_, rfl, rfl, ?_⟩
  refine s.enter hl hi hc hcount hw (Wheel.items_insertBehind p i w)
    (Wheel.cursor_insertBehind p i w) ?_ rfl
  unfold Rings.Links.insertBefore links setNext setPrevious
  simp only [hpath, Function.update_self]
  rw [Function.update_comm hne]

/-! ## Taking items out, and turning -/

/-- **`uxListRemove`** takes an item out of the list it is in, wherever that is. -/
theorem Shows.remove (s : Shows m f g) (hi : g i) (hc : m.pxContainer i = some l) :
    ∃ w m', f l = some w ∧ i ∈ w.items ∧ uxListRemove i m = some (w.items.length - 1, m') ∧
      m'.xItemValue = m.xItemValue ∧ m'.pxContainer = Function.update m.pxContainer i none ∧
      Shows m' (Function.update f l (some (w.remove i))) g := by
  obtain ⟨w, hl, hiw⟩ := s.mem_of_container hi hc
  have hn := s.nodup l w hl
  have hring := s.ring l w hl
  have hnodes := s.nodes_nodup hl
  obtain ⟨a, b, hab⟩ := List.append_of_mem hiw
  have hitems : (w.remove i).items = a ++ b := by
    have hia : i ∉ a := fun hm => by
      rw [hab] at hn
      exact (List.nodup_append.mp hn).2.2 i hm i List.mem_cons_self rfl
    rw [Wheel.items_remove hn, hab, List.erase_append_right _ hia, List.erase_cons_head]
  have hmem : ∀ j, j ∈ (w.remove i).items ↔ j ≠ i ∧ j ∈ w.items := fun j => by
    rw [Wheel.items_remove hn, hn.mem_erase_iff]
  rw [hab, List.map_append, List.map_cons] at hring hnodes
  -- the neighbours of the item are in the same list
  have hsplit := Rings.path_append.mp hring
  have hprev : m.pxPrevious (.item i) ∈ ItemPtr.xListEnd l :: w.items.map .item := by
    have hm := List.mem_cons.mpr (Rings.Path.prev_mem hsplit.1)
    rw [hab, List.map_append, ← List.cons_append]
    exact List.mem_append_left _ hm
  have hnext : m.pxNext (.item i) ∈ ItemPtr.xListEnd l :: w.items.map .item := by
    rw [hab, List.map_append, List.map_cons]
    rcases Rings.Path.next_mem hsplit.2 with hm | hm
    · exact List.mem_cons.mpr (.inl hm)
    · exact List.mem_cons_of_mem _ (List.mem_append_right _ (List.mem_cons_of_mem _ hm))
  have hself : m.pxNext (.item i) ≠ .item i := by
    intro he
    rw [← List.cons_append] at hnodes
    have hb := (List.nodup_append.mp hnodes).2.1
    rcases Rings.Path.next_mem hsplit.2 with hm | hm
    · have hcycle := he.symm.trans hm
      cases hcycle
    · rw [show m.links.next (.item i) = m.pxNext (.item i) from rfl, he] at hm
      exact (List.nodup_cons.mp hb).1 hm
  have hcount : sub32 (m.uxNumberOfItems l) 1 = w.items.length - 1 := by
    have hpos : 0 < w.items.length := List.length_pos_of_mem hiw
    have hbound := s.bound l w hl
    rw [s.count l w hl, sub32]
    omega
  have hindex : (if m.pxIndex l = .item i then m.pxPrevious (.item i) else m.pxIndex l)
      = ptr l (w.remove i).cursor := by
    rw [Wheel.cursor_remove hn, s.index l w hl]
    by_cases hcur : w.cursor = some i
    · rw [if_pos hcur, hcur, ptr_some, if_pos rfl, s.prev_cursor hl hcur]
    · rw [if_neg hcur, if_neg]
      intro he
      cases hw : w.cursor with
      | none =>
          rw [hw] at he
          cases he
      | some j =>
          rw [hw] at he
          obtain rfl := ItemPtr.item.inj he
          exact hcur hw
  have hprev' : Function.update m.pxPrevious (m.pxNext (.item i)) (m.pxPrevious (.item i)) (.item i)
      = m.pxPrevious (.item i) := Function.update_of_ne hself.symm _ _
  unfold uxListRemove
  rw [hc]
  simp only [Option.bind_eq_bind, Option.bind_some, setPrevious, setNext, hprev', hcount, hindex]
  refine ⟨w, _, hl, hiw, rfl, rfl, rfl, ?_⟩
  refine ⟨?_, ?_, ?_, ?_, ?_, ?_, ?_, ?_, ?_⟩
  · intro l' w₁ h
    show Rings.Ring (m.links.unlink (.item i)) _ _
    rcases update_cases h with ⟨rfl, rfl⟩ | ⟨hne, h⟩
    · rw [hitems, List.map_append]
      exact hring.remove hnodes
    · refine (s.ring l' w₁ h).congr fun y hy => ?_
      have hout := s.apart hl h hne hy
      exact ⟨Rings.Links.unlink_next fun he => hout (by rw [he]; exact hprev),
        Rings.Links.unlink_prev fun he => hout (by rw [he]; exact hnext)⟩
  · intro l' w₁ h
    rcases update_cases h with ⟨rfl, rfl⟩ | ⟨hne, h⟩
    · exact Function.update_self ..
    · exact (Function.update_of_ne hne _ _).trans (s.index l' w₁ h)
  · intro l' w₁ h
    rcases update_cases h with ⟨rfl, rfl⟩ | ⟨hne, h⟩
    · rw [Wheel.items_remove hn, List.length_erase_of_mem hiw]
      exact Function.update_self ..
    · exact (Function.update_of_ne hne _ _).trans (s.count l' w₁ h)
  · intro l' w₁ h
    rcases update_cases h with ⟨rfl, rfl⟩ | ⟨-, h⟩
    · rw [Wheel.items_remove hn]
      exact Nat.lt_of_le_of_lt (List.length_erase_le ..) (s.bound _ w hl)
    · exact s.bound l' w₁ h
  · intro l' w₁ h
    rcases update_cases h with ⟨rfl, -⟩ | ⟨-, h⟩
    · exact s.mark _ w hl
    · exact s.mark l' w₁ h
  · intro l' w₁ h
    rcases update_cases h with ⟨rfl, rfl⟩ | ⟨-, h⟩
    · rw [Wheel.items_remove hn]
      exact hn.erase i
    · exact s.nodup l' w₁ h
  · intro l' w₁ h j hj
    rcases update_cases h with ⟨rfl, rfl⟩ | ⟨-, h⟩
    · exact s.known _ w hl j ((hmem j).mp hj).2
    · exact s.known l' w₁ h j hj
  · intro j l' hj
    show Function.update m.pxContainer i none j = some l' ↔ _
    by_cases hji : j = i
    · rw [hji, Function.update_self]
      constructor
      · intro h
        cases h
      · rintro ⟨w₁, h, hm⟩
        rcases update_cases h with ⟨rfl, rfl⟩ | ⟨hne, h⟩
        · exact absurd rfl ((hmem i).mp hm).1
        · exact absurd (s.unique h hl hm hiw) hne
    · rw [Function.update_of_ne hji, s.container j l' hj]
      constructor
      · rintro ⟨w₁, h, hm⟩
        by_cases he : l' = l
        · obtain rfl := Option.some.inj (hl.symm.trans (he ▸ h))
          exact ⟨w.remove i, by rw [he, Function.update_self], (hmem j).mpr ⟨hji, hm⟩⟩
        · exact ⟨w₁, by rw [Function.update_of_ne he, h], hm⟩
      · rintro ⟨w₁, h, hm⟩
        rcases update_cases h with ⟨rfl, rfl⟩ | ⟨-, h⟩
        · exact ⟨w, hl, ((hmem j).mp hm).2⟩
        · exact ⟨w₁, h, hm⟩
  · exact s.small

/-- **`listGET_OWNER_OF_NEXT_ENTRY`** turns the wheel. -/
theorem Shows.turn (s : Shows m f g) (hl : f l = some w) (ht : w.turn = some (i, w')) :
    ∃ m', listGetOwnerOfNextEntry l m = some (i, m') ∧ m'.xItemValue = m.xItemValue ∧
      m'.pxContainer = m.pxContainer ∧ Shows m' (Function.update f l (some w')) g := by
  have hitems := Wheel.items_turn ht
  have hpoint : (if m.pxNext (m.pxIndex l) = .xListEnd l then m.pxNext (.xListEnd l)
      else m.pxNext (m.pxIndex l)) = .item i := by
    rw [s.next_index hl, s.next_end hl]
    obtain ⟨passed, rest⟩ := w
    cases rest with
    | cons a r =>
        obtain ⟨rfl, -⟩ := Prod.mk.inj (Option.some.inj ht)
        exact if_neg fun he => by cases he
    | nil =>
        cases passed with
        | nil => cases ht
        | cons a p =>
            obtain ⟨rfl, -⟩ := Prod.mk.inj (Option.some.inj ht)
            exact if_pos rfl
  unfold listGetOwnerOfNextEntry
  simp only [hpoint]
  refine ⟨_, rfl, rfl, rfl, ?_⟩
  have hother : ∀ l' w₁, Function.update f l (some w') l' = some w₁ →
      ∃ w₂, f l' = some w₂ ∧ w₂.items = w₁.items := by
    intro l' w₁ h
    rcases update_cases h with ⟨rfl, rfl⟩ | ⟨-, h⟩
    · exact ⟨w, hl, hitems.symm⟩
    · exact ⟨w₁, h, rfl⟩
  refine ⟨fun l' w₁ h => ?_, fun l' w₁ h => ?_, fun l' w₁ h => ?_, fun l' w₁ h => ?_,
    fun l' w₁ h => ?_, fun l' w₁ h => ?_, fun l' w₁ h => ?_, fun j l' hj => ?_, s.small⟩
  · obtain ⟨w₂, h₂, heq⟩ := hother l' w₁ h
    rw [← heq]
    exact s.ring l' w₂ h₂
  · show Function.update m.pxIndex l (.item i) l' = _
    rcases update_cases h with ⟨rfl, rfl⟩ | ⟨hne, h⟩
    · rw [Function.update_self, Wheel.cursor_turn ht]
      rfl
    · rw [Function.update_of_ne hne]
      exact s.index l' w₁ h
  · obtain ⟨w₂, h₂, heq⟩ := hother l' w₁ h
    rw [← heq]
    exact s.count l' w₂ h₂
  · obtain ⟨w₂, h₂, heq⟩ := hother l' w₁ h
    rw [← heq]
    exact s.bound l' w₂ h₂
  · obtain ⟨w₂, h₂, -⟩ := hother l' w₁ h
    exact s.mark l' w₂ h₂
  · obtain ⟨w₂, h₂, heq⟩ := hother l' w₁ h
    rw [← heq]
    exact s.nodup l' w₂ h₂
  · obtain ⟨w₂, h₂, heq⟩ := hother l' w₁ h
    rw [← heq]
    exact s.known l' w₂ h₂
  · refine (s.container j l' hj).trans ⟨?_, ?_⟩
    · rintro ⟨w₂, h₂, hm⟩
      by_cases he : l' = l
      · obtain rfl := Option.some.inj (hl.symm.trans (he ▸ h₂))
        exact ⟨w', by rw [he, Function.update_self], by rw [hitems]; exact hm⟩
      · exact ⟨w₂, by rw [Function.update_of_ne he, h₂], hm⟩
    · rintro ⟨w₁, h, hm⟩
      obtain ⟨w₂, h₂, heq⟩ := hother l' w₁ h
      exact ⟨w₂, h₂, by rw [heq]; exact hm⟩

end FreeRtos

end MelonSoc
