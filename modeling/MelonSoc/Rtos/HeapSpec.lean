import MelonSoc.Rtos.HeapChain

set_option autoImplicit false

/-! # Allocation and release on the division of the heap

`Divided L h l`: the memory and the counters of the heap show the division `l`. Each of the two
operations rewrites a few neighbouring segments, the rest of the heap is left alone, and what they
leave is a division again (`Divided.replace`).
-/

namespace MelonSoc

namespace Heap4

open Segments

/-- A block is large enough for its tenant, and at most 32 bytes larger than it has to be. -/
def Fits (s : Seg Nat) : Prop :=
  32 ≤ s.size ∧ s.size % 16 = 0 ∧ ∀ w ∈ s.tenant, w < 2 ^ 32 ∧ w + 16 ≤ s.size ∧
    s.size ≤ requiredSize w + 32

/-- The heap shows a division of its space. -/
structure Divided (L : Layout) (h : Heap) (l : List (Seg Nat)) : Prop where
  chain : Chain h.mem L.xStart h.pxEnd (uxStartAddress L) l
  start : (h.mem L.xStart).xBlockSize = 0
  stop : h.mem h.pxEnd = ⟨0, 0⟩
  pxEnd : h.pxEnd = uxEndAddress L
  whole : uxStartAddress L + span l = uxEndAddress L
  coalesced : Coalesced l
  fits : ∀ s ∈ l, Fits s
  free : h.xFreeBytesRemaining = vacancy l
  least : h.xMinimumEverFreeBytesRemaining ≤ h.xFreeBytesRemaining

variable {L : Layout} {h h' : Heap} {mem mem' : Cells} {p q t base n w r : Nat}
  {a b l mid mid' : List (Seg Nat)}

theorem Fits.pos {s : Seg Nat} (f : Fits s) : 0 < s.size := Nat.lt_of_lt_of_le (by decide) f.1

/-- Blocks begin at multiples of 16. -/
theorem span_aligned (hl : ∀ s ∈ l, Fits s) : span l % 16 = 0 := by
  induction l with
  | nil => rfl
  | cons s l ih =>
      have h1 := ih fun x hx => hl x (List.mem_cons_of_mem _ hx)
      have h2 := (hl s List.mem_cons_self).2.1
      rw [span_cons]
      omega

theorem Divided.pos (d : Divided L h l) : ∀ s ∈ l, 0 < s.size := fun s hs => (d.fits s hs).pos

/-- The cell in front of the heap lies outside of it. -/
theorem Layout.outside (L : Layout) :
    L.xStart < uxStartAddress L ∨ uxEndAddress L < L.xStart := by
  have hs := uxStartAddress_bounds L
  have he := uxEndAddress_bounds L
  rcases L.apart with h | h
  · left
    omega
  · right
    omega

theorem validate_of_inside (h1 : uxStartAddress L ≤ p) (h2 : p ≤ uxEndAddress L) :
    heapValidateBlockPointer L p = some () := by
  have hs := uxStartAddress_bounds L
  have he := uxEndAddress_bounds L
  have h1' : L.ucHeap ≤ p := by omega
  have h2' : p ≤ L.ucHeap + (configTotalHeapSize - 1) := by omega
  simp [heapValidateBlockPointer, configAssert, h1', h2']

theorem heapStart_pos (L : Layout) : 0 < uxStartAddress L := by
  have hs := uxStartAddress_bounds L
  have hp := L.ucHeap_pos
  omega

/-! ## Rewriting a few segments -/

/-- Only segments between `a` and `b` change, and the link that leads to them. -/
theorem Chain.replace (hc : Chain mem p t base (a ++ mid ++ b))
    (hpos : ∀ s ∈ a ++ mid ++ b, 0 < s.size)
    (hp : p < base ∨ base + span (a ++ mid ++ b) ≤ p)
    (hq : lastFree p base a = q)
    (hout : ∀ x, x ≠ q → (x < base + span a ∨ base + span a + span mid ≤ x) → mem' x = mem x)
    (hqsize : (mem' q).xBlockSize = (mem q).xBlockSize)
    (hmid : Linked mem' q (base + span a) mid') (hspan : span mid' = span mid)
    (hlink : (mem' (lastFree q (base + span a) mid')).pxNextFreeBlock
      = (mem (lastFree q (base + span a) mid)).pxNextFreeBlock) :
    Chain mem' p t base (a ++ mid' ++ b) := by
  rw [List.append_assoc, chain_append] at hc
  obtain ⟨ha, hrest⟩ := hc
  rw [hq, chain_append] at hrest
  obtain ⟨-, hb⟩ := hrest
  have hposa : ∀ s ∈ a, 0 < s.size := fun s hs => hpos s (by simp [hs])
  have hposb : ∀ s ∈ b, 0 < s.size := fun s hs => hpos s (by simp [hs])
  simp only [span_append] at hp
  have hpa : p ∉ places base a := fun hm => by
    have hin := places_inside hposa hm
    omega
  have hqa : q = p ∨ q < base + span a := by
    rcases lastFree_mem p base a with he | hm
    · exact .inl (hq.symm.trans he)
    · right
      rw [hq] at hm
      exact (places_inside hposa hm).2
  rw [List.append_assoc, chain_append, hq]
  refine ⟨ha.congr hposa hpa (fun x hx => ?_) fun x hx hxq => ?_, ?_⟩
  · by_cases hxq : x = q
    · rw [hxq]
      exact hqsize
    · rw [hout x hxq (.inl (places_inside hposa hx).2)]
  · rw [hq] at hxq
    rw [hout x hxq]
    rcases hx with rfl | hx
    · omega
    · exact .inl (places_inside hposa hx).2
  · rw [chain_append]
    refine ⟨hmid, ?_⟩
    rw [hspan]
    refine hb.source hlink fun x hx => ?_
    have hin := places_inside hposb hx
    refine hout x (fun hxq => ?_) (.inr hin.1)
    rw [hxq] at hin
    rcases hqa with he | hlt
    · rw [he] at hin
      omega
    · omega

/-- The same for the heap with its counters. -/
theorem Divided.replace (d : Divided L h (a ++ mid ++ b))
    (hq : lastFree L.xStart (uxStartAddress L) a = q)
    (hout : ∀ x, x ≠ q → (x < uxStartAddress L + span a ∨
      uxStartAddress L + span a + span mid ≤ x) → h'.mem x = h.mem x)
    (hqsize : (h'.mem q).xBlockSize = (h.mem q).xBlockSize)
    (hmid : Linked h'.mem q (uxStartAddress L + span a) mid') (hspan : span mid' = span mid)
    (hlink : (h'.mem (lastFree q (uxStartAddress L + span a) mid')).pxNextFreeBlock
      = (h.mem (lastFree q (uxStartAddress L + span a) mid)).pxNextFreeBlock)
    (hend : h'.pxEnd = h.pxEnd) (hcoal : Coalesced (a ++ mid' ++ b))
    (hfits : ∀ s ∈ mid', Fits s)
    (hfree : h'.xFreeBytesRemaining + vacancy mid = h.xFreeBytesRemaining + vacancy mid')
    (hleast : h'.xMinimumEverFreeBytesRemaining ≤ h'.xFreeBytesRemaining) :
    Divided L h' (a ++ mid' ++ b) := by
  have hwhole := d.whole
  have hside := L.outside
  have hposa : ∀ s ∈ a, 0 < s.size := fun s hs => d.pos s (by simp [hs])
  have hqa : q = L.xStart ∨ q < uxStartAddress L + span a := by
    rcases lastFree_mem L.xStart (uxStartAddress L) a with he | hm
    · exact .inl (hq.symm.trans he)
    · right
      rw [hq] at hm
      exact (places_inside hposa hm).2
  simp only [span_append] at hwhole
  refine ⟨?_, ?_, ?_, hend.trans d.pxEnd, ?_, hcoal, ?_, ?_, hleast⟩
  · rw [hend]
    refine d.chain.replace d.pos ?_ hq hout hqsize hmid hspan hlink
    rcases hside with hs | hs
    · exact .inl hs
    · right
      simp only [span_append]
      omega
  · by_cases hxq : L.xStart = q
    · rw [hxq, hqsize, ← hxq]
      exact d.start
    · rw [hout _ hxq (by omega)]
      exact d.start
  · rw [hend, hout h.pxEnd ?_ (.inr ?_)]
    · exact d.stop
    · rw [d.pxEnd]
      rcases hqa with he | hlt
      · rw [he]
        omega
      · omega
    · rw [d.pxEnd]
      omega
  · simp only [span_append, hspan]
    exact hwhole
  · intro s hs
    simp only [List.mem_append] at hs
    rcases hs with (hs | hs) | hs
    · exact d.fits s (by simp [hs])
    · exact hfits s hs
    · exact d.fits s (by simp [hs])
  · have hfree' := d.free
    simp only [vacancy_append] at hfree' ⊢
    omega

/-! ## The walk to a block -/

/-- Everything that a link leads to is a pointer into the heap. -/
theorem Divided.valid (d : Divided L h l) {x : Nat}
    (hx : x = h.pxEnd ∨ x ∈ places (uxStartAddress L) l) :
    x ≠ 0 ∧ heapValidateBlockPointer L x = some () := by
  have hwhole := d.whole
  have hstart := heapStart_pos L
  have hin : uxStartAddress L ≤ x ∧ x ≤ uxEndAddress L := by
    rcases hx with rfl | hx
    · rw [d.pxEnd]
      omega
    · have hin := places_inside d.pos hx
      omega
  exact ⟨by omega, validate_of_inside hin.1 hin.2⟩

/-- The walk passes a piece whose free blocks are too small. -/
theorem findBlock_walk (hc : Chain mem p t base (a ++ b))
    (hsmall : ∀ s ∈ a, s.tenant = none → s.size < w)
    (hv : ∀ x, x = t ∨ x ∈ places base (a ++ b) →
      x ≠ 0 ∧ heapValidateBlockPointer L x = some ())
    (fuel : Nat) (hfuel : a.length ≤ fuel) :
    ∃ f, fuel ≤ f + a.length ∧ findBlock L mem w fuel p (mem p).pxNextFreeBlock
      = findBlock L mem w f (lastFree p base a) (mem (lastFree p base a)).pxNextFreeBlock := by
  induction a generalizing p base fuel with
  | nil => exact ⟨fuel, Nat.le_refl _, rfl⟩
  | cons s a ih =>
      have hsmall' : ∀ s ∈ a, s.tenant = none → s.size < w :=
        fun x hx => hsmall x (List.mem_cons_of_mem _ hx)
      have hv' : ∀ x, x = t ∨ x ∈ places (base + s.size) (a ++ b) →
          x ≠ 0 ∧ heapValidateBlockPointer L x = some () := by
        intro x hx
        rcases hx with hx | hx
        · exact hv x (.inl hx)
        · exact hv x (.inr (List.mem_cons_of_mem _ hx))
      rw [List.length_cons] at hfuel ⊢
      rcases seg_cases s with ⟨n, rfl⟩ | ⟨n, r, rfl⟩
      · obtain ⟨h1, h2, h3⟩ := chain_vacant.mp hc
        obtain ⟨fuel, rfl⟩ := Nat.exists_eq_add_of_lt (show 0 < fuel by omega)
        obtain ⟨hne, hval⟩ := hv' _ h3.next_mem
        have hlt : n < w := hsmall _ List.mem_cons_self rfl
        obtain ⟨f, hf, heq⟩ := ih h3 hsmall' hv' fuel (by omega)
        refine ⟨f, by omega, ?_⟩
        rw [h1, Nat.zero_add, findBlock, if_pos ⟨by rw [h2]; exact hlt, hne⟩, hval]
        exact heq
      · obtain ⟨f, hf, heq⟩ := ih (chain_let.mp hc).2 hsmall' hv' fuel (by omega)
        exact ⟨f, by omega, heq⟩

theorem Divided.length_lt (d : Divided L h l) : l.length < walkFuel := by
  have hwhole := d.whole
  have hs := uxStartAddress_bounds L
  have he := uxEndAddress_bounds L
  have htotal : configTotalHeapSize = 2 ^ 20 := rfl
  have hfuel : walkFuel = 2 ^ 16 := rfl
  have hlen : ∀ m : List (Seg Nat), (∀ s ∈ m, Fits s) → 32 * m.length ≤ span m := by
    intro m hm
    induction m with
    | nil => exact Nat.le_refl 0
    | cons s m ih =>
        have h1 := ih fun x hx => hm x (List.mem_cons_of_mem _ hx)
        have h2 := (hm s List.mem_cons_self).1
        rw [List.length_cons, span_cons]
        omega
  have h32 := hlen l d.fits
  omega

/-- The walk ends at the first free block that is large enough. -/
theorem Divided.findBlock_fit (d : Divided L h (a ++ .vacant n :: b)) (hw : w ≤ n)
    (hsmall : ∀ s ∈ a, s.tenant = none → s.size < w) :
    findBlock L h.mem w walkFuel L.xStart (h.mem L.xStart).pxNextFreeBlock
        = some (lastFree L.xStart (uxStartAddress L) a, uxStartAddress L + span a) := by
  have hlen := d.length_lt
  rw [List.length_append, List.length_cons] at hlen
  obtain ⟨f, hf, heq⟩ := findBlock_walk d.chain hsmall (fun x hx => d.valid hx) walkFuel
    (by omega)
  obtain ⟨-, hc⟩ := chain_append.mp d.chain
  obtain ⟨h1, h2, -⟩ := chain_vacant.mp hc
  obtain ⟨f, rfl⟩ := Nat.exists_eq_add_of_lt (show 0 < f by omega)
  rw [heq, h1, findBlock, if_neg]
  rintro ⟨hlt, -⟩
  omega

/-- Without one it ends behind the last block. -/
theorem Divided.findBlock_none (d : Divided L h l) (hsmall : ∀ s ∈ l, s.tenant = none → s.size < w) :
    ∃ q, findBlock L h.mem w walkFuel L.xStart (h.mem L.xStart).pxNextFreeBlock
      = some (q, h.pxEnd) := by
  have hlen := d.length_lt
  have hc : Chain h.mem L.xStart h.pxEnd (uxStartAddress L) (l ++ []) := by
    rw [List.append_nil]
    exact d.chain
  obtain ⟨f, hf, heq⟩ := findBlock_walk hc hsmall
    (fun x hx => d.valid (by rw [List.append_nil] at hx; exact hx)) walkFuel (by omega)
  obtain ⟨f, rfl⟩ := Nat.exists_eq_add_of_lt (show 0 < f by omega)
  refine ⟨lastFree L.xStart (uxStartAddress L) l, ?_⟩
  rw [heq, d.chain.2, findBlock, if_neg]
  rw [d.stop]
  exact fun hx => hx.2 rfl

/-! ## Allocation -/

theorem setNext_apply (x v : Nat) (mem : Cells) (y : Nat) :
    setNext x v mem y = if y = x then ⟨v, (mem x).xBlockSize⟩ else mem y :=
  Function.update_apply ..

theorem setSize_apply (x v : Nat) (mem : Cells) (y : Nat) :
    setSize x v mem y = if y = x then ⟨(mem x).pxNextFreeBlock, v⟩ else mem y :=
  Function.update_apply ..

/-- The last free block in front of a free block is another cell. -/
theorem Divided.before (d : Divided L h (a ++ mid ++ b))
    (hq : lastFree L.xStart (uxStartAddress L) a = q) :
    q < uxStartAddress L + span a ∨
      (q = L.xStart ∧ uxStartAddress L + span a + span mid + span b < q) := by
  have hwhole := d.whole
  simp only [span_append] at hwhole
  have hposa : ∀ s ∈ a, 0 < s.size := fun s hs => d.pos s (by simp [hs])
  rcases lastFree_mem L.xStart (uxStartAddress L) a with he | hm
  · rcases L.outside with hs | hs
    · left
      omega
    · exact .inr ⟨hq.symm.trans he, by omega⟩
  · left
    rw [hq] at hm
    exact (places_inside hposa hm).2

/-- Only headers of the division are written. -/
def Frame (L : Layout) (l : List (Seg Nat)) (h h' : Heap) : Prop :=
  ∀ x, ¬ (x = L.xStart ∨ x ∈ places (uxStartAddress L) l) → h'.mem x = h.mem x

/-- What a request takes out of the free block it gets. -/
def taken (w n r : Nat) : List (Seg Nat) :=
  if n - w > heapMinimumBlockSize then [.let w r, .vacant (n - w)] else [.let n r]

/-- The memory after a block has been split. -/
theorem splitBlock_large {m : Cells} (hsize : (m p).xBlockSize = n)
    (hlarge : heapMinimumBlockSize < n - w) (hw : 0 < w) (hnew : p + w < 2 ^ 32)
    (halign : (p + w) % 16 = 0) (hqp : q ≠ p) (hqn : q ≠ p + w) :
    ∃ m', splitBlock w q p m = some m' ∧ ∀ x, m' x =
      if x = q then ⟨p + w, (m q).xBlockSize⟩
      else if x = p + w then ⟨(m q).pxNextFreeBlock, n - w⟩
      else if x = p then ⟨(m p).pxNextFreeBlock, w⟩ else m x := by
  have hadd : add32 p w = p + w := Nat.mod_eq_of_lt hnew
  have hassert : configAssert ((p + w) &&& portByteAlignmentMask == 0) = some () := by
    rw [and_mask, halign]
    rfl
  have hpn : p ≠ p + w := by omega
  unfold splitBlock
  rw [hsize, if_pos hlarge]
  simp only [hadd, hassert]
  refine ⟨_, rfl, fun x => ?_⟩
  simp only [setNext_apply, setSize_apply, if_neg hqp, if_neg hqn, if_neg hpn, if_neg hpn.symm]
  by_cases h1 : x = q
  · simp [h1]
  · by_cases h2 : x = p + w
    · simp [h2, hqn.symm]
    · simp [h1, h2]

/-- The heap after a block of the given size has been handed out. -/
def Heap.handOut (m : Cells) (size : Nat) (h : Heap) : Heap :=
  { h with
    mem := m
    xFreeBytesRemaining := sub32 h.xFreeBytesRemaining size
    xMinimumEverFreeBytesRemaining :=
      if sub32 h.xFreeBytesRemaining size < h.xMinimumEverFreeBytesRemaining then
        sub32 h.xFreeBytesRemaining size
      else h.xMinimumEverFreeBytesRemaining
    xNumberOfSuccessfulAllocations := add32 h.xNumberOfSuccessfulAllocations 1 }

theorem setAllocated {m : Cells} {nx : Nat} (hp : m p = ⟨nx, n⟩) (hn : n < 2 ^ 31) (x : Nat) :
    setNext p 0 (setSize p ((m p).xBlockSize ||| heapBlockAllocatedBitmask) m) x
      = if x = p then ⟨0, n + 2 ^ 31⟩ else m x := by
  rw [setNext_apply, setSize_apply, setSize_apply, if_pos rfl, hp, or_allocated hn]
  split
  · rfl
  · rfl

/-- A block that is larger than it has to be is split. -/
theorem takeBlock_large (hsize : (h.mem p).xBlockSize = n) (hlarge : heapMinimumBlockSize < n - w)
    (hw : 0 < w) (hn : w ≤ n) (h31 : w < 2 ^ 31) (hnew : p + w < 2 ^ 32)
    (halign : (p + w) % 16 = 0) (hqp : q ≠ p) (hqn : q ≠ p + w) :
    ∃ m, takeBlock w q p h = some (h.handOut m w) ∧ ∀ x, m x =
      if x = p then ⟨0, w + 2 ^ 31⟩
      else if x = q then ⟨p + w, (h.mem q).xBlockSize⟩
      else if x = p + w then ⟨(h.mem p).pxNextFreeBlock, n - w⟩ else h.mem x := by
  have hm1 := setNext_apply q (h.mem p).pxNextFreeBlock h.mem
  have hm1p := hm1 p
  rw [if_neg hqp.symm] at hm1p
  have hassert : configAssert
      (decide (w ≤ (setNext q (h.mem p).pxNextFreeBlock h.mem p).xBlockSize)) = some () := by
    rw [hm1p, hsize, decide_eq_true hn]
    rfl
  obtain ⟨m2, hsplit, hm2⟩ := @splitBlock_large p q n w
    (setNext q (h.mem p).pxNextFreeBlock h.mem) (by rw [hm1p, hsize]) hlarge hw hnew halign hqp hqn
  have hpw : p ≠ p + w := by omega
  have hm2p : m2 p = ⟨(h.mem p).pxNextFreeBlock, w⟩ := by
    rw [hm2, if_neg hqp.symm, if_neg hpw, if_pos rfl, hm1p]
  have hm := setAllocated hm2p h31
  refine ⟨_, ?_, fun x => (hm x).trans ?_⟩
  · unfold takeBlock
    simp only [hassert, hsplit, Option.bind_eq_bind, Option.bind_some]
    rw [Heap.handOut, hm2p]
  · rw [hm2, hm1 q, if_pos rfl]
    by_cases h1 : x = p
    · simp only [if_pos h1]
    · by_cases h2 : x = q
      · simp only [if_neg h1, if_pos h2]
      · simp only [if_neg h1, if_neg h2, hm1]

/-- A block that is not is taken as it is. -/
theorem takeBlock_small (hsize : (h.mem p).xBlockSize = n)
    (hsmall : ¬ heapMinimumBlockSize < n - w) (hn : w ≤ n) (h31 : n < 2 ^ 31) (hqp : q ≠ p) :
    ∃ m, takeBlock w q p h = some (h.handOut m n) ∧ ∀ x, m x =
      if x = p then ⟨0, n + 2 ^ 31⟩
      else if x = q then ⟨(h.mem p).pxNextFreeBlock, (h.mem q).xBlockSize⟩ else h.mem x := by
  have hm1 := setNext_apply q (h.mem p).pxNextFreeBlock h.mem
  have hm1p := hm1 p
  rw [if_neg hqp.symm] at hm1p
  have hassert : configAssert
      (decide (w ≤ (setNext q (h.mem p).pxNextFreeBlock h.mem p).xBlockSize)) = some () := by
    rw [hm1p, hsize, decide_eq_true hn]
    rfl
  have hsplit : splitBlock w q p (setNext q (h.mem p).pxNextFreeBlock h.mem)
      = some (setNext q (h.mem p).pxNextFreeBlock h.mem) := by
    unfold splitBlock
    rw [hm1p, hsize, if_neg hsmall]
  have hcell : setNext q (h.mem p).pxNextFreeBlock h.mem p = ⟨(h.mem p).pxNextFreeBlock, n⟩ := by
    rw [hm1p, ← hsize]
  have hm := setAllocated hcell h31
  refine ⟨_, ?_, fun x => (hm x).trans (by rw [hm1])⟩
  unfold takeBlock
  simp only [hassert, hsplit, Option.bind_eq_bind, Option.bind_some]
  rw [Heap.handOut, hcell]

theorem requiredSize_aligned (hr : r < 2 ^ 32) (hw : 0 < requiredSize r) :
    32 ≤ requiredSize r ∧ requiredSize r % 16 = 0 ∧ r + 16 ≤ requiredSize r ∧
      requiredSize r < r + 32 := by
  have hpos : 0 < r := by
    by_contra hz
    rw [show r = 0 by omega, requiredSize_zero] at hw
    omega
  rw [requiredSize_eq hpos hr] at hw ⊢
  split at hw
  · rename_i hle
    rw [if_pos hle]
    omega
  · omega

/-- A free block that is large enough is taken. -/
theorem Divided.takeBlock (d : Divided L h (a ++ .vacant n :: b)) (hr : r < 2 ^ 32)
    (hw : 0 < requiredSize r) (hn : requiredSize r ≤ n) :
    ∃ h', takeBlock (requiredSize r) (lastFree L.xStart (uxStartAddress L) a)
        (uxStartAddress L + span a) h = some h' ∧
      Divided L h' (a ++ taken (requiredSize r) n r ++ b) ∧
      Frame L (a ++ taken (requiredSize r) n r ++ b) h h' := by
  obtain ⟨h32, h16, hfit, hroom⟩ := requiredSize_aligned hr hw
  generalize hreq : requiredSize r = w at *
  have d' : Divided L h (a ++ [.vacant n] ++ b) := by simpa using d
  have hwhole := d'.whole
  have hs := uxStartAddress_bounds L
  have he := uxEndAddress_bounds L
  have hfits := L.ucHeap_fits
  have htotal : configTotalHeapSize = 2 ^ 20 := rfl
  simp only [span_append, span_cons, span_nil] at hwhole
  have hvac : (Seg.vacant n : Seg Nat).size = n := rfl
  rw [hvac] at hwhole
  have ha16 : span a % 16 = 0 := span_aligned fun s hs => d'.fits s (by simp [hs])
  have hn16 : n % 16 = 0 := (d'.fits (.vacant n) (by simp)).2.1
  obtain ⟨-, hc⟩ := chain_append.mp d.chain
  obtain ⟨hlink, hsize, -⟩ := chain_vacant.mp hc
  have hbefore := d'.before rfl
  rw [span_cons, span_nil, hvac] at hbefore
  generalize hq : lastFree L.xStart (uxStartAddress L) a = q at *
  generalize hp : uxStartAddress L + span a = p at *
  have hqp : q ≠ p := by omega
  have hqmem : q = L.xStart ∨ q ∈ places (uxStartAddress L) a := by
    rw [← hq]
    exact lastFree_mem _ _ _
  have hfree := d'.free
  simp only [vacancy_append, vacancy_vacant, vacancy_nil] at hfree
  have hvacle := vacancy_le b
  have hvacle' := vacancy_le a
  have h31 : n < 2 ^ 31 := by omega
  by_cases hlarge : heapMinimumBlockSize < n - w
  · have hmin : heapMinimumBlockSize = 32 := rfl
    obtain ⟨m, htake, hm⟩ := @takeBlock_large h p q n w hsize hlarge hw hn (by omega) (by omega)
      (by omega) hqp (by omega)
    have hsub : sub32 h.xFreeBytesRemaining w = h.xFreeBytesRemaining - w := by
      unfold sub32
      omega
    refine ⟨_, htake, ?_⟩
    have htaken : taken w n r = [.let w r, .vacant (n - w)] := if_pos hlarge
    rw [htaken]
    have hin : ∀ {x}, x ≠ q → (x < p ∨ p + n ≤ x) → m x = h.mem x := by
      intro x hxq hx
      rw [hm, if_neg (by omega), if_neg hxq, if_neg (by omega)]
    refine ⟨d'.replace hq (fun x hxq hx => hin hxq (by rw [hp] at hx; exact hx)) ?_ ?_ ?_ ?_ rfl
      ?_ ?_ ?_ ?_, ?_⟩
    · show (m q).xBlockSize = _
      rw [hm, if_neg hqp, if_pos rfl]
    · rw [hp]
      refine linked_let.mpr ⟨?_, linked_vacant.mpr ⟨?_, ?_, trivial⟩⟩
      · exact (hm p).trans (if_pos rfl)
      · show (m q).pxNextFreeBlock = _
        rw [hm, if_neg hqp, if_pos rfl]
      · show (m (p + w)).xBlockSize = _
        rw [hm, if_neg (by omega), if_neg (by omega), if_pos rfl]
    · show w + (n - w + 0) = n + 0
      omega
    · rw [hp]
      show (m (p + w)).pxNextFreeBlock = (h.mem p).pxNextFreeBlock
      rw [hm, if_neg (by omega), if_neg (by omega), if_pos rfl]
    · simpa using d.coalesced.take.2 (n - w)
    · intro s hs
      simp only [List.mem_cons, List.not_mem_nil, or_false] at hs
      rcases hs with rfl | rfl
      · exact ⟨h32, h16, fun x hx => by
          obtain rfl : r = x := Option.some.inj hx
          exact ⟨hr, hfit, by show w ≤ _; omega⟩⟩
      · exact ⟨by show 32 ≤ n - w; omega, by show (n - w) % 16 = 0; omega, fun x hx => by cases hx⟩
    · show sub32 _ w + (n + 0) = h.xFreeBytesRemaining + (0 + (n - w + 0))
      omega
    · show (if _ then _ else _) ≤ sub32 _ w
      split <;> omega
    · intro x hx
      by_contra hne
      have hplaces : places (uxStartAddress L) (a ++ [.let w r, .vacant (n - w)] ++ b)
          = places (uxStartAddress L) a ++ p :: (p + w) :: places (p + w + (n - w)) b := by
        simp [places, hp, Seg.let, Seg.vacant]
      rw [hplaces, List.mem_append, List.mem_cons, List.mem_cons] at hx
      refine hne ((hm x).trans ?_)
      rw [if_neg (by tauto), if_neg (by rintro rfl; tauto), if_neg (by tauto)]
  · have hmin : heapMinimumBlockSize = 32 := rfl
    obtain ⟨m, htake, hm⟩ := @takeBlock_small h p q n w hsize hlarge hn h31 hqp
    have hsub : sub32 h.xFreeBytesRemaining n = h.xFreeBytesRemaining - n := by
      unfold sub32
      omega
    refine ⟨_, htake, ?_⟩
    have htaken : taken w n r = [.let n r] := if_neg hlarge
    rw [htaken]
    have hin : ∀ {x}, x ≠ q → (x < p ∨ p + n ≤ x) → m x = h.mem x := by
      intro x hxq hx
      rw [hm, if_neg (by omega), if_neg hxq]
    refine ⟨d'.replace hq (fun x hxq hx => hin hxq (by rw [hp] at hx; exact hx)) ?_ ?_ ?_ ?_ rfl
      ?_ ?_ ?_ ?_, ?_⟩
    · show (m q).xBlockSize = _
      rw [hm, if_neg hqp, if_pos rfl]
    · rw [hp]
      exact linked_let.mpr ⟨(hm p).trans (if_pos rfl), trivial⟩
    · rfl
    · rw [hp]
      show (m q).pxNextFreeBlock = (h.mem p).pxNextFreeBlock
      rw [hm, if_neg hqp, if_pos rfl]
    · simpa using d.coalesced.take.1
    · intro s hs
      obtain rfl := List.mem_singleton.mp hs
      refine ⟨by show 32 ≤ n; omega, hn16, fun x hx => ?_⟩
      obtain rfl : r = x := Option.some.inj hx
      exact ⟨hr, by show r + 16 ≤ n; omega, by show n ≤ _; omega⟩
    · show sub32 _ n + (n + 0) = h.xFreeBytesRemaining + (0 + 0)
      omega
    · show (if _ then _ else _) ≤ sub32 _ n
      split <;> omega
    · intro x hx
      by_contra hne
      have hplaces : places (uxStartAddress L) (a ++ [.let n r] ++ b)
          = places (uxStartAddress L) a ++ p :: places (p + n) b := by
        simp [places, hp, Seg.let]
      rw [hplaces, List.mem_append, List.mem_cons] at hx
      refine hne ((hm x).trans ?_)
      rw [if_neg (by tauto), if_neg (by rintro rfl; tauto)]

/-- The first allocation finds one free block that is the whole heap. -/
theorem prvHeapInit_divided (L : Layout) (h : Heap) :
    Divided L (prvHeapInit L h) [.vacant (uxEndAddress L - uxStartAddress L)] := by
  have hs := uxStartAddress_bounds L
  have he := uxEndAddress_bounds L
  have htotal : configTotalHeapSize = 2 ^ 20 := rfl
  have hside := L.outside
  generalize hstart : uxStartAddress L = start at *
  generalize hstop : uxEndAddress L = stop at *
  have hne : start ≠ stop := by omega
  have hxs : L.xStart ≠ start := by omega
  have hxe : L.xStart ≠ stop := by omega
  have hmem : ∀ x, (prvHeapInit L h).mem x = if x = start then ⟨stop, stop - start⟩
      else if x = stop then ⟨0, 0⟩ else if x = L.xStart then ⟨start, 0⟩ else h.mem x := by
    intro x
    unfold prvHeapInit
    simp only [hstart, hstop, Function.update_apply]
  have hend : (prvHeapInit L h).pxEnd = stop := hstop
  have hfree : (prvHeapInit L h).xFreeBytesRemaining = stop - start := by
    rw [← hstart, ← hstop]
    rfl
  refine ⟨?_, ?_, ?_, ?_, ?_, ?_, ?_, ?_, ?_⟩
  · rw [hstart, hend]
    refine chain_vacant.mpr ⟨?_, ?_, trivial, ?_⟩
    · rw [hmem, if_neg hxs, if_neg hxe, if_pos rfl]
    · rw [hmem, if_pos rfl]
    · show ((prvHeapInit L h).mem start).pxNextFreeBlock = stop
      rw [hmem, if_pos rfl]
  · rw [hmem, if_neg hxs, if_neg hxe, if_pos rfl]
  · rw [hend, hmem, if_neg hne.symm, if_pos rfl]
  · rw [hend, hstop]
  · rw [hstart, hstop]
    show start + (stop - start + 0) = stop
    omega
  · exact .singleton _
  · intro s hs
    obtain rfl := List.mem_singleton.mp hs
    exact ⟨by show 32 ≤ stop - start; omega, by show (stop - start) % 16 = 0; omega,
      fun x hx => by cases hx⟩
  · rw [hfree]
    rfl
  · exact Nat.le_refl _

/-- What `pvPortMalloc` does with a request on an initialised heap. -/
theorem Divided.malloc (d : Divided L h l) (hr : r < 2 ^ 32) :
    ((requiredSize r = 0 ∨ ∀ s ∈ l, s.tenant = none → s.size < requiredSize r) ∧
      pvPortMalloc L r h = some (0, h)) ∨
    ∃ a n b h', l = a ++ .vacant n :: b ∧ 0 < requiredSize r ∧ requiredSize r ≤ n ∧
      pvPortMalloc L r h = some (uxStartAddress L + span a + 16, h') ∧
      Divided L h' (a ++ taken (requiredSize r) n r ++ b) ∧
      Frame L (a ++ taken (requiredSize r) n r ++ b) h h' := by
  have hwhole := d.whole
  have hs := uxStartAddress_bounds L
  have he := uxEndAddress_bounds L
  have hfits := L.ucHeap_fits
  have htotal : configTotalHeapSize = 2 ^ 20 := rfl
  have hinit : h.pxEnd ≠ 0 := by
    rw [d.pxEnd]
    omega
  have hfirst := d.valid d.chain.next_mem
  unfold pvPortMalloc
  simp only [if_neg hinit]
  by_cases hz : requiredSize r = 0
  · refine .inl ⟨.inl hz, if_neg ?_⟩
    rw [hz]
    exact fun hx => Nat.lt_irrefl 0 hx.2.1
  have hw : 0 < requiredSize r := Nat.pos_of_ne_zero hz
  rcases first_fit (requiredSize r) l with hsmall | ⟨a, n, b, rfl, hn, hsmall⟩
  · refine .inl ⟨.inr hsmall, ?_⟩
    split
    · obtain ⟨q, hfind⟩ := d.findBlock_none hsmall
      simp only [hfirst.2, hfind, Option.bind_eq_bind, Option.bind_some, ne_eq, not_true_eq_false,
        if_false]
    · rfl
  · right
    obtain ⟨h', htake, hd', hframe⟩ := d.takeBlock hr hw hn
    have hfree := d.free
    simp only [vacancy_append, vacancy_vacant] at hfree
    have hvacle := vacancy_le a
    have hvacle' := vacancy_le b
    simp only [span_append, span_cons] at hwhole
    have hsize : (Seg.vacant n : Seg Nat).size = n := rfl
    rw [hsize] at hwhole
    have hlink : (h.mem (lastFree L.xStart (uxStartAddress L) a)).pxNextFreeBlock
        = uxStartAddress L + span a := (chain_vacant.mp (chain_append.mp d.chain).2).1
    have hvalid : heapBlockSizeIsValid (requiredSize r) = true := by
      unfold heapBlockSizeIsValid
      rw [and_allocated (by omega), if_pos (by omega)]
      rfl
    have hadd : add32 (uxStartAddress L + span a) xHeapStructSize
        = uxStartAddress L + span a + 16 := Nat.mod_eq_of_lt (by
      show uxStartAddress L + span a + 16 < 2 ^ 32
      omega)
    have hn16 := (d.fits (.vacant n) (by simp)).1
    rw [hsize] at hn16
    have hpv := validate_of_inside (L := L) (p := uxStartAddress L + span a + 16)
      (by omega) (by omega)
    have hne : uxStartAddress L + span a ≠ h.pxEnd := by
      rw [d.pxEnd]
      omega
    have ha16 : span a % 16 = 0 := span_aligned fun s hs => d.fits s (by simp [hs])
    have hmask : configAssert
        ((uxStartAddress L + span a + 16) &&& portByteAlignmentMask == 0) = some () := by
      rw [and_mask, show (uxStartAddress L + span a + 16) % 16 = 0 by omega]
      rfl
    refine ⟨a, n, b, h', rfl, hw, hn, ?_, hd', hframe⟩
    rw [if_pos ⟨hvalid, hw, by omega⟩]
    simp only [hfirst.2, d.findBlock_fit hn hsmall, Option.bind_eq_bind, Option.bind_some, if_pos hne,
      hlink, hadd, hpv, htake, hmask]

end Heap4

end MelonSoc
