import MelonSoc.Rtos.HeapSpec

set_option autoImplicit false

/-! # Release and coalescing

`vPortFree` walks to the last free block in front of the block that is released, and joins what
touches: with the free block in front, with the one behind, with both or with neither. In all four
cases the segments that take part become one free segment (`Divided.join`), whose neighbours are
allocated.
-/

namespace MelonSoc

namespace Heap4

open Segments

variable {L : Layout} {h h' : Heap} {mem mem' : Cells} {p q t base n w r : Nat}
  {a b l mid mid' : List (Seg Nat)}

/-! ## The walk to the place of the block -/

theorem insertionPoint_walk {x : Nat} (hl : Linked mem p base a)
    (hbefore : ∀ y ∈ places base a, y < x)
    (hstop : ¬ (mem (lastFree p base a)).pxNextFreeBlock < x) (fuel : Nat)
    (hfuel : a.length < fuel) :
    insertionPoint mem x fuel p = some (lastFree p base a) := by
  induction a generalizing p base fuel with
  | nil =>
      obtain ⟨fuel, rfl⟩ := Nat.exists_eq_add_of_lt hfuel
      exact if_neg hstop
  | cons s a ih =>
      have hbefore' : ∀ y ∈ places (base + s.size) a, y < x :=
        fun y hy => hbefore y (List.mem_cons_of_mem _ hy)
      rw [List.length_cons] at hfuel
      rcases seg_cases s with ⟨n, rfl⟩ | ⟨n, r, rfl⟩
      · obtain ⟨h1, -, h3⟩ := linked_vacant.mp hl
        obtain ⟨fuel, rfl⟩ := Nat.exists_eq_add_of_lt (show 0 < fuel by omega)
        rw [Nat.zero_add, insertionPoint, h1, if_pos (hbefore base List.mem_cons_self)]
        exact ih h3 hbefore' hstop fuel (by omega)
      · exact ih (linked_let.mp hl).2 hbefore' hstop fuel (by omega)

/-- The last free block of a piece splits it. -/
theorem lastFree_cases (p base : Nat) (a : List (Seg Nat)) :
    ((∀ s ∈ a, s.tenant.isSome) ∧ lastFree p base a = p) ∨
      ∃ a₁ m a₂, a = a₁ ++ .vacant m :: a₂ ∧ (∀ s ∈ a₂, s.tenant.isSome) ∧
        lastFree p base a = base + span a₁ := by
  induction a generalizing p base with
  | nil => exact .inl ⟨List.forall_mem_nil _, rfl⟩
  | cons s a ih =>
      rcases seg_cases s with ⟨n, rfl⟩ | ⟨n, r, rfl⟩
      · right
        rcases ih base (base + n) with ⟨hall, he⟩ | ⟨a₁, m, a₂, rfl, hs, he⟩
        · exact ⟨[], n, a, rfl, hall, he⟩
        · refine ⟨.vacant n :: a₁, m, a₂, rfl, hs, ?_⟩
          rw [lastFree_vacant, he, span_cons, Nat.add_assoc]
          rfl
      · rcases ih p (base + n) with ⟨hall, he⟩ | ⟨a₁, m, a₂, rfl, hs, he⟩
        · refine .inl ⟨fun s hs => ?_, he⟩
          rcases List.mem_cons.mp hs with rfl | hs
          · rfl
          · exact hall s hs
        · refine .inr ⟨.let n r :: a₁, m, a₂, rfl, hs, ?_⟩
          rw [lastFree_let, he, span_cons, Nat.add_assoc]
          rfl

theorem not_endsLet (ha : ¬ EndsLet a) : ∃ a₁ m, a = a₁ ++ [.vacant m] := by
  rcases List.eq_nil_or_concat a with rfl | ⟨a₁, s, rfl⟩
  · exact absurd (fun s hs => by cases hs) ha
  · rcases seg_cases s with ⟨m, rfl⟩ | ⟨m, r, rfl⟩
    · exact ⟨a₁, m, by simp⟩
    · refine absurd (fun s hs => ?_) ha
      rw [List.concat_eq_append, List.getLast?_append] at hs
      obtain rfl : Seg.let m r = s := by simpa using hs
      rfl

theorem not_startsLet (hb : ¬ StartsLet b) : ∃ k b₁, b = .vacant k :: b₁ := by
  cases b with
  | nil => exact absurd (fun s hs => by cases hs) hb
  | cons s b =>
      rcases seg_cases s with ⟨k, rfl⟩ | ⟨k, r, rfl⟩
      · exact ⟨k, b, rfl⟩
      · refine absurd (fun s hs => ?_) hb
        obtain rfl : Seg.let k r = s := Option.some.inj hs
        rfl

/-! ## The two merges -/

theorem mergeBefore_apart (hne : add32 q (mem q).xBlockSize ≠ p) :
    mergeBefore q p mem = (mem, p) := if_neg hne

theorem mergeBefore_join (heq : add32 q (mem q).xBlockSize = p) : mergeBefore q p mem
    = (setSize q (add32 (mem q).xBlockSize (mem p).xBlockSize) mem, q) := if_pos heq

/-- The block is joined with the one behind it. -/
theorem mergeBehind_join {pxEnd next : Nat} (hnext : (mem q).pxNextFreeBlock = next)
    (heq : add32 p (mem p).xBlockSize = next) (hne : next ≠ pxEnd) (x : Nat) :
    mergeBehind pxEnd q p mem x =
      if x = p then ⟨(mem next).pxNextFreeBlock, add32 (mem p).xBlockSize (mem next).xBlockSize⟩
      else mem x := by
  have hsame : ∀ v y, (setSize p v mem y).pxNextFreeBlock = (mem y).pxNextFreeBlock := by
    intro v y
    rw [setSize_apply]
    split
    · rename_i hy
      rw [hy]
    · rfl
  unfold mergeBehind
  simp only [hnext, if_pos heq, if_pos hne, hsame]
  rw [setNext_apply, setSize_apply, if_pos rfl, setSize_apply]
  split
  · rfl
  · rfl

/-- The block is linked to what the block in front of it led to. -/
theorem mergeBehind_apart {pxEnd next : Nat} (hnext : (mem q).pxNextFreeBlock = next)
    (hne : add32 p (mem p).xBlockSize = next → next = pxEnd) (x : Nat) :
    mergeBehind pxEnd q p mem x = if x = p then ⟨next, (mem p).xBlockSize⟩ else mem x := by
  unfold mergeBehind
  simp only [hnext]
  split
  · rename_i heq
    have hend := hne heq
    rw [if_neg (by simp [hend]), setNext_apply, hend]
  · rw [setNext_apply]

/-! ## What is left is a division -/

/-- Neighbouring segments become one free segment. -/
theorem Divided.join (d : Divided L h (a ++ mid ++ b))
    (hq : lastFree L.xStart (uxStartAddress L) a = q)
    (hp : uxStartAddress L + span a = p) {m : Cells} {nx fr : Nat}
    (hm : ∀ x, x = p ∨ x < p ∨ p + span mid ≤ x → m x =
      if x = p then ⟨nx, span mid⟩ else if x = q then ⟨p, (h.mem q).xBlockSize⟩ else h.mem x)
    (hnx : nx = (h.mem (lastFree q p mid)).pxNextFreeBlock) (hmid : 32 ≤ span mid)
    (ha : Coalesced a) (hb : Coalesced b) (hends : EndsLet a) (hstarts : StartsLet b)
    (hfree : fr + vacancy mid = h.xFreeBytesRemaining + span mid) (frees : Nat) :
    Divided L { h with mem := m, xFreeBytesRemaining := fr, xNumberOfSuccessfulFrees := frees }
      (a ++ [.vacant (span mid)] ++ b) := by
  have hbefore := d.before hq
  rw [hp] at hbefore
  have hleast := d.least
  have hvac := vacancy_le mid
  have haligned : span mid % 16 = 0 := span_aligned fun s hs => d.fits s (by simp [hs])
  have hone : span ([.vacant (span mid)] : List (Seg Nat)) = span mid := rfl
  refine d.replace hq (fun x hxq hx => ?_) ?_ ?_ hone ?_ rfl ?_ ?_ ?_ ?_
  · rw [hp] at hx
    show m x = h.mem x
    rw [hm x (.inr hx), if_neg (by omega), if_neg hxq]
  · show (m q).xBlockSize = (h.mem q).xBlockSize
    rw [hm q (by omega), if_neg (by omega), if_pos rfl]
  · rw [hp]
    refine linked_vacant.mpr ⟨?_, ?_, trivial⟩
    · show (m q).pxNextFreeBlock = p
      rw [hm q (by omega), if_neg (by omega), if_pos rfl]
    · show (m p).xBlockSize = span mid
      rw [hm p (.inl rfl), if_pos rfl]
  · rw [hp]
    show (m p).pxNextFreeBlock = _
    rw [hm p (.inl rfl), if_pos rfl]
    exact hnx
  · have hc : Coalesced (a ++ .vacant (span mid) :: b) :=
      coalesced_vacant.mpr ⟨ha, hb, hends, hstarts⟩
    simpa using hc
  · intro s hs
    obtain rfl := List.mem_singleton.mp hs
    exact ⟨hmid, haligned, fun x hx => by cases hx⟩
  · show fr + vacancy mid = h.xFreeBytesRemaining + (span mid + 0)
    omega
  · show h.xMinimumEverFreeBytesRemaining ≤ fr
    omega

/-! ## `vPortFree` -/

/-- The memory behind the two merges. -/
def inserted (pxEnd q p : Nat) (m : Cells) : Cells :=
  let merged := mergeBefore q p m
  let m' := mergeBehind pxEnd q merged.2 merged.1
  if q ≠ merged.2 then setNext q merged.2 m' else m'

theorem inserted_apart {pxEnd : Nat} (hne : add32 q (mem q).xBlockSize ≠ p) (hqp : q ≠ p)
    (x : Nat) : inserted pxEnd q p mem x =
      if x = q then ⟨p, (mergeBehind pxEnd q p mem q).xBlockSize⟩
      else mergeBehind pxEnd q p mem x := by
  unfold inserted
  rw [mergeBefore_apart hne, if_pos hqp, setNext_apply]

theorem inserted_join {pxEnd : Nat} (heq : add32 q (mem q).xBlockSize = p) :
    inserted pxEnd q p mem = mergeBehind pxEnd q q
      (setSize q (add32 (mem q).xBlockSize (mem p).xBlockSize) mem) := by
  unfold inserted
  rw [mergeBefore_join heq]
  exact if_neg (fun hne => hne rfl)

/-- A block that is allocated is released without a failed assertion. -/
theorem Divided.vPortFree_eq (d : Divided L h (a ++ .let n w :: b))
    (hq : lastFree L.xStart (uxStartAddress L) a = q) (hp : uxStartAddress L + span a = p) :
    vPortFree L (p + 16) h = some { h with
      mem := inserted h.pxEnd q p (setSize p n h.mem)
      xFreeBytesRemaining := add32 h.xFreeBytesRemaining n
      xNumberOfSuccessfulFrees := add32 h.xNumberOfSuccessfulFrees 1 } := by
  have d' : Divided L h (a ++ [.let n w] ++ b) := by simpa using d
  have hwhole := d.whole
  have hs := uxStartAddress_bounds L
  have he := uxEndAddress_bounds L
  have hfits := L.ucHeap_fits
  have htotal : configTotalHeapSize = 2 ^ 20 := rfl
  have hstart := heapStart_pos L
  have hlen := d.length_lt
  have hbefore := d'.before hq
  have hn : (Seg.let n w).size = n := rfl
  simp only [span_append, span_cons, hn] at hwhole
  rw [span_cons, span_nil, hn, hp] at hbefore
  rw [List.length_append, List.length_cons] at hlen
  obtain ⟨ha, hc⟩ := chain_append.mp d.chain
  rw [hq, hp] at hc
  obtain ⟨hhead, hc⟩ := chain_let.mp hc
  have hposa : ∀ s ∈ a, 0 < s.size := fun s hs => d.pos s (by simp [hs])
  have hposb : ∀ s ∈ b, 0 < s.size := fun s hs => d.pos s (by simp [hs])
  have hn32 : 32 ≤ n := (d.fits (.let n w) (by simp)).1
  have hvalid := validate_of_inside (L := L) (p := p) (by omega) (by omega)
  have hsub : sub32 (p + 16) xHeapStructSize = p := by
    show (p + 16 + (2 ^ 32 - 16)) % 2 ^ 32 = p
    omega
  have hallocated : heapBlockIsAllocated (h.mem p) = true := by
    have hbits : (n + 2 ^ 31) &&& heapBlockAllocatedBitmask = 2 ^ 31 := by
      rw [and_allocated (by omega), if_neg (by omega)]
    unfold heapBlockIsAllocated
    rw [hhead]
    show ((n + 2 ^ 31) &&& heapBlockAllocatedBitmask != 0) = true
    rw [hbits]
    rfl
  have hnull : (h.mem p).pxNextFreeBlock = 0 := by rw [hhead]
  have hsize : (h.mem p).xBlockSize &&& (heapSizeMax - heapBlockAllocatedBitmask) = n := by
    rw [hhead, and_not_allocated (by omega)]
  have hne : ∀ x, x ≠ p → setSize p n h.mem x = h.mem x := fun x hx => by
    rw [setSize_apply, if_neg hx]
  have hqp : q ≠ p := by omega
  -- the walk sees the list without the block
  have hpoint : insertionPoint (setSize p n h.mem) p walkFuel L.xStart = some q := by
    have hside := L.outside
    have hlinked : Linked (setSize p n h.mem) L.xStart (uxStartAddress L) a := by
      refine ha.congr hposa (fun hm => ?_) (fun x hx => ?_) fun x hx _ => ?_
      · have hin := places_inside hposa hm
        omega
      · rw [hne x (by have hin := places_inside hposa hx; omega)]
      · rw [hne x]
        rcases hx with rfl | hx
        · omega
        · have hin := places_inside hposa hx
          omega
    rw [← hq]
    refine insertionPoint_walk hlinked (fun x hx => ?_) ?_ walkFuel (by omega)
    · have hin := places_inside hposa hx
      omega
    · rw [hq, hne q hqp]
      rcases hc.next_mem with hx | hx
      · rw [hx, d.pxEnd]
        omega
      · have hin := places_inside hposb hx
        omega
  have hcheck : q ≠ L.xStart → heapValidateBlockPointer L q = some () := by
    intro hx
    rcases lastFree_mem L.xStart (uxStartAddress L) a with hm | hm
    · exact absurd (hq.symm.trans hm) hx
    · rw [hq] at hm
      have hin := places_inside hposa hm
      exact validate_of_inside (by omega) (by omega)
  have hinsert : prvInsertBlockIntoFreeList L h.pxEnd p (setSize p n h.mem)
      = some (inserted h.pxEnd q p (setSize p n h.mem)) := by
    unfold prvInsertBlockIntoFreeList
    rw [hpoint]
    by_cases hx : q = L.xStart
    · simp only [Option.bind_eq_bind, Option.bind_some, ne_eq, hx, not_true_eq_false, if_false]
      rfl
    · simp only [Option.bind_eq_bind, Option.bind_some, ne_eq, hx, not_false_eq_true, if_true,
        hcheck hx]
      rfl
  have hassert : ∀ c : Bool, c = true → configAssert c = some () := fun c hc => if_pos hc
  unfold vPortFree
  rw [if_pos (by omega)]
  simp only [hsub, hvalid, hassert _ hallocated, hassert _ (beq_iff_eq.mpr hnull), hsize, hinsert,
    Option.bind_eq_bind, Option.bind_some]

/-- Past a piece without a free block at its front. -/
theorem Chain.next_after (hc : Chain mem q t base b) (hpos : ∀ s ∈ b, 0 < s.size)
    (hb : StartsLet b) : (mem q).pxNextFreeBlock = t ∨ base < (mem q).pxNextFreeBlock := by
  cases b with
  | nil => exact .inl hc.2
  | cons s b =>
      have hs : 0 < s.size := hpos s List.mem_cons_self
      rcases seg_cases s with ⟨k, rfl⟩ | ⟨k, r, rfl⟩
      · have hlet := hb _ rfl
        cases hlet
      · rcases (chain_let.mp hc).2.next_mem with hx | hx
        · exact .inl hx
        · have hin := places_inside (fun s hs => hpos s (List.mem_cons_of_mem _ hs)) hx
          have hk : (Seg.let k r).size = k := rfl
          rw [hk] at hs
          exact .inr (by omega)

/-- The size of a last free block that does not touch the end of its piece. -/
theorem Linked.apart (hl : Linked mem p base a) (hends : EndsLet a)
    (hpos : ∀ s ∈ a, 0 < s.size) :
    lastFree p base a = p ∨
      lastFree p base a + (mem (lastFree p base a)).xBlockSize < base + span a := by
  rcases lastFree_cases p base a with ⟨-, he⟩ | ⟨a₁, m, a₂, rfl, -, he⟩
  · exact .inl he
  · right
    have hsize : (mem (base + span a₁)).xBlockSize = m :=
      (linked_vacant.mp (linked_append.mp hl).2).2.1
    have hm : (Seg.vacant m : Seg Nat).size = m := rfl
    rw [he, hsize, span_append, span_cons, hm]
    cases a₂ with
    | nil =>
        have hlet := hends (.vacant m) (by simp)
        cases hlet
    | cons s a₂ =>
        have hs := hpos s (by simp)
        rw [span_cons]
        omega

/-- What the block is joined with behind it: one free segment or none. -/
theorem mergeBehind_cases {pxEnd : Nat} {m : Cells} (hc : Chain mem q pxEnd base b)
    (hcoal : Coalesced b) (hpos : ∀ s ∈ b, 0 < s.size) (hend : base + span b = pxEnd)
    (hfits : pxEnd < 2 ^ 32) (hsize : p + (m p).xBlockSize = base)
    (hq : (m q).pxNextFreeBlock = (mem q).pxNextFreeBlock) (hm : ∀ x ∈ places base b, m x = mem x) :
    ∃ c b', b = c ++ b' ∧ vacancy c = span c ∧ (∀ y, tenancies y c = []) ∧ StartsLet b' ∧
      Coalesced b' ∧ (∀ y, lastFree y base c = lastFree q base c ∨ c = []) ∧
      ∀ x, mergeBehind pxEnd q p m x = if x = p then
        ⟨(mem (lastFree q base c)).pxNextFreeBlock, (m p).xBlockSize + span c⟩ else m x := by
  have hadd : add32 p (m p).xBlockSize = base := by
    rw [add32, hsize]
    exact Nat.mod_eq_of_lt (by omega)
  by_cases hstarts : StartsLet b
  · refine ⟨[], b, rfl, rfl, fun _ => rfl, hstarts, hcoal, fun _ => .inr rfl, ?_⟩
    refine mergeBehind_apart hq fun heq => ?_
    rcases hc.next_after hpos hstarts with hx | hx
    · exact hx
    · have heq' : base = (mem q).pxNextFreeBlock := hadd.symm.trans heq
      omega
  · obtain ⟨k, b', rfl⟩ := not_startsLet hstarts
    obtain ⟨h1, h2, -⟩ := chain_vacant.mp hc
    have hk : 0 < k := hpos (.vacant k) List.mem_cons_self
    have hsp : (Seg.vacant k : Seg Nat).size = k := rfl
    rw [span_cons, hsp] at hend
    have hcoal' : Coalesced ([] ++ .vacant k :: b') := hcoal
    refine ⟨[.vacant k], b', rfl, rfl, fun _ => rfl, hcoal.startsLet,
      (coalesced_vacant.mp hcoal').2.1, fun _ => .inl rfl, fun x => ?_⟩
    have hbase : m base = mem base := hm base List.mem_cons_self
    rw [mergeBehind_join (hq.trans h1) hadd (by omega), hbase, h2]
    have hsum : add32 (m p).xBlockSize k = (m p).xBlockSize + k := Nat.mod_eq_of_lt (by omega)
    rw [hsum]
    rfl

theorem tenancies_joined (k : Nat) :
    tenancies base (a ++ [.vacant k] ++ b) = tenancies base a ++ tenancies (base + span a + k) b := by
  rw [tenancies_append, tenancies_append, tenancies_vacant, span_append, Nat.add_assoc]
  exact congrArg (· ++ _) (List.append_nil _)

/-- **Release.** The block of an allocation becomes free, joined with what is free around it, and
no other allocation changes. -/
theorem Divided.release (d : Divided L h (a ++ .let n w :: b)) :
    ∃ h' l', vPortFree L (uxStartAddress L + span a + 16) h = some h' ∧ Divided L h' l' ∧
      Frame L (a ++ .let n w :: b) h h' ∧ tenancies (uxStartAddress L) l' = tenancies (uxStartAddress L) a
        ++ tenancies (uxStartAddress L + span a + n) b := by
  have d' : Divided L h (a ++ [.let n w] ++ b) := by simpa using d
  have hwhole := d.whole
  have hs := uxStartAddress_bounds L
  have he := uxEndAddress_bounds L
  have hfits := L.ucHeap_fits
  have htotal : configTotalHeapSize = 2 ^ 20 := rfl
  have hside := L.outside
  have hxfits := L.xStart_fits
  have hn : (Seg.let n w).size = n := rfl
  simp only [span_append, span_cons, hn] at hwhole
  obtain ⟨ha, hc⟩ := chain_append.mp d.chain
  obtain ⟨hhead, hc⟩ := chain_let.mp hc
  obtain ⟨hca, hcb⟩ := coalesced_let.mp d.coalesced
  have hposa : ∀ s ∈ a, 0 < s.size := fun s hs => d.pos s (by simp [hs])
  have hposb : ∀ s ∈ b, 0 < s.size := fun s hs => d.pos s (by simp [hs])
  have hn32 : 32 ≤ n := (d.fits (.let n w) (by simp)).1
  have hfree := d.free
  simp only [vacancy_append, vacancy_let] at hfree
  have hvaca := vacancy_le a
  have hvacb := vacancy_le b
  have hadd : add32 h.xFreeBytesRemaining n = h.xFreeBytesRemaining + n :=
    Nat.mod_eq_of_lt (by omega)
  generalize hp : uxStartAddress L + span a = p at *
  by_cases hends : EndsLet a
  · -- nothing in front of the block joins it
    generalize hq : lastFree L.xStart (uxStartAddress L) a = q at *
    have hbefore := d'.before hq
    rw [span_cons, span_nil, hn, hp] at hbefore
    have hqp : q ≠ p := by omega
    have hm1 := setSize_apply p n h.mem
    have hm1p := hm1 p
    have hm1q := hm1 q
    rw [if_pos rfl, hhead] at hm1p
    rw [if_neg hqp] at hm1q
    have hne : add32 q (setSize p n h.mem q).xBlockSize ≠ p := by
      rw [hm1q]
      unfold add32
      have hap := ha.apart hends hposa
      rw [hq, hp] at hap
      rcases hap with he' | hlt
      · rw [he', d.start]
        omega
      · rw [Nat.mod_eq_of_lt (by omega)]
        omega
    have hposc : ∀ x ∈ places (p + n) b, setSize p n h.mem x = h.mem x := fun x hx => by
      have hin := places_inside hposb hx
      rw [hm1, if_neg (by omega)]
    obtain ⟨c, b', rfl, hvc, htc, hsb, hcb', -, hM⟩ := @mergeBehind_cases h.mem p q (p + n) b h.pxEnd
      (setSize p n h.mem) hc hcb hposb (by rw [d.pxEnd]; omega) (by rw [d.pxEnd]; omega)
      (by rw [hm1p]) (by rw [hm1q]) hposc
    have hMp := hM p
    have hMq := hM q
    rw [if_pos rfl, hm1p] at hMp
    rw [if_neg hqp, hm1q] at hMq
    have hspan : span (.let n w :: c) = n + span c := rfl
    have dj : Divided L h (a ++ .let n w :: c ++ b') := by simpa using d
    rw [span_append] at hwhole
    have hplaces : places (uxStartAddress L) (a ++ .let n w :: (c ++ b'))
        = places (uxStartAddress L) a ++ p :: places (p + n) (c ++ b') := by
      rw [places_append, hp]
      rfl
    have hqmem : q = L.xStart ∨ q ∈ places (uxStartAddress L) a := by
      rw [← hq]
      exact lastFree_mem _ _ _
    refine ⟨_, a ++ [.vacant (span (.let n w :: c))] ++ b', hp ▸ d.vPortFree_eq hq rfl, ?_, ?_, ?_⟩
    · refine dj.join hq hp (fun x _ => ?_) rfl ?_ hca hcb' hends hsb ?_ _
      · rw [inserted_apart hne hqp, hMq]
        by_cases hxp : x = p
        · rw [hxp, if_neg hqp.symm, hMp, if_pos rfl, hspan]
          rfl
        · rw [if_neg hxp]
          split
          · rfl
          · rw [hM, if_neg hxp, hm1, if_neg hxp]
      · rw [hspan]
        omega
      · rw [hspan, hadd, vacancy_let, hvc]
        omega
    · intro x hx
      rw [hplaces, List.mem_append, List.mem_cons] at hx
      have hxp : x ≠ p := by tauto
      refine (inserted_apart hne hqp x).trans ?_
      rw [if_neg (by rintro rfl; tauto), hM, if_neg hxp, hm1, if_neg hxp]
    · rw [tenancies_joined, hspan, hp, tenancies_append, htc, List.nil_append, Nat.add_assoc]
  · -- the free block in front of the block joins it
    obtain ⟨a, m, rfl⟩ := not_endsLet hends
    obtain ⟨hca, -, hends', -⟩ := coalesced_vacant.mp hca
    have hm32 : 32 ≤ m := (d.fits (.vacant m) (by simp)).1
    have hsp : span (a ++ [Seg.vacant m]) = span a + m := span_append
    obtain ⟨ha, hv⟩ := linked_append.mp ha
    obtain ⟨hlink, hsize, -⟩ := linked_vacant.mp hv
    have hq : lastFree L.xStart (uxStartAddress L) (a ++ [.vacant m])
        = uxStartAddress L + span a := by
      rw [lastFree_append]
      rfl
    rw [hsp] at hp hwhole
    generalize he' : uxStartAddress L + span a = e at *
    rw [hq] at hc
    have hem : e + m = p := by omega
    have hep : e ≠ p := by omega
    have hm1 := setSize_apply p n h.mem
    have hm1p := hm1 p
    have hm1e := hm1 e
    rw [if_pos rfl, hhead] at hm1p
    rw [if_neg hep] at hm1e
    have hjoin : add32 e (setSize p n h.mem e).xBlockSize = p := by
      rw [hm1e, hsize, add32, hem]
      exact Nat.mod_eq_of_lt (by omega)
    have hsum : add32 m n = m + n := Nat.mod_eq_of_lt (by omega)
    have hins := @inserted_join (setSize p n h.mem) p e h.pxEnd hjoin
    rw [hm1e, hm1p, hsize, hsum] at hins
    have hm2 := setSize_apply e (m + n) (setSize p n h.mem)
    have hm2e := hm2 e
    rw [if_pos rfl, hm1e] at hm2e
    have hposc : ∀ x ∈ places (p + n) b,
        setSize e (m + n) (setSize p n h.mem) x = h.mem x := fun x hx => by
      have hin := places_inside hposb hx
      rw [hm2, if_neg (by omega), hm1, if_neg (by omega)]
    obtain ⟨c, b', rfl, hvc, htc, hsb, hcb', -, hM⟩ := @mergeBehind_cases h.mem e e (p + n) b h.pxEnd
      (setSize e (m + n) (setSize p n h.mem)) hc hcb hposb (by rw [d.pxEnd]; omega)
      (by rw [d.pxEnd]; omega) (by rw [hm2e, ← hem, Nat.add_assoc]) (by rw [hm2e]) hposc
    rw [hm2e, ← hins] at hM
    have hspan : span (.vacant m :: .let n w :: c) = m + (n + span c) := rfl
    have dj : Divided L h (a ++ .vacant m :: .let n w :: c ++ b') := by simpa using d
    have hplaces : places (uxStartAddress L) (a ++ [.vacant m] ++ .let n w :: (c ++ b'))
        = places (uxStartAddress L) a ++ e :: p :: places (p + n) (c ++ b') := by
      rw [places_append, places_append, hsp, he', hp]
      simp [places, Seg.let]
    refine ⟨_, a ++ [.vacant (span (.vacant m :: .let n w :: c))] ++ b',
      d.vPortFree_eq hq (by rw [hsp]; exact hp), ?_, ?_, ?_⟩
    · refine dj.join rfl he' (fun x hx => ?_) rfl ?_ hca hcb' hends' hsb ?_ _
      · rw [hspan] at hx
        rw [hM]
        by_cases hxe : x = e
        · rw [if_pos hxe, if_pos hxe, hspan, lastFree_vacant, lastFree_let, hem, ← Nat.add_assoc]
        · rw [if_neg hxe, if_neg hxe, hm2, if_neg hxe, hm1, if_neg (by omega)]
          split
          · rename_i hxq
            rw [hxq, ← hlink]
          · rfl
      · rw [hspan]
        omega
      · rw [hspan, hadd, vacancy_vacant, vacancy_let, hvc]
        omega
    · intro x hx
      rw [hplaces, List.mem_append, List.mem_cons, List.mem_cons] at hx
      have hxe : x ≠ e := by tauto
      refine (hM x).trans ?_
      rw [if_neg hxe, hm2, if_neg hxe, hm1, if_neg (by tauto)]
    · have htail : e + (m + (n + span c)) = p + n + span c := by omega
      have hnone : tenancies (uxStartAddress L) (a ++ [.vacant m]) = tenancies (uxStartAddress L) a := by
        rw [tenancies_append]
        exact List.append_nil _
      rw [tenancies_joined, hspan, he', htail, hnone, tenancies_append (a := c), htc, List.nil_append]

end Heap4

end MelonSoc
