import Mathlib.Data.Nat.Bitwise
import MelonSoc.Lib.Segments
import MelonSoc.Rtos.Heap4

set_option autoImplicit false

/-! # The free list and the blocks

The blocks of the heap divide it into segments; the tenant of a segment is the size that was asked
for. In memory a block has a header: that of an allocated block has the top bit of the size set and
no link, and the free blocks are linked in the order of their addresses. A piece of the heap is
`Linked` from a cell `p` if `p` leads to its first free block and each free block to the next; where
the last of them leads to is left open, so that pieces compose.
-/

namespace MelonSoc

namespace Heap4

open Segments

/-! ## Bits -/

theorem and_mask (x : Nat) : x &&& portByteAlignmentMask = x % 16 :=
  Nat.and_two_pow_sub_one_eq_mod x 4

theorem and_alignedBits {x : Nat} (h : x < 2 ^ 32) : x &&& alignedBits = x / 16 * 16 := by
  have hbits : ∀ i, alignedBits.testBit i = (decide (4 ≤ i) && decide (i < 32)) := by
    intro i
    have heq : alignedBits = (2 ^ 28 - 1) * 2 ^ 4 := rfl
    rw [heq, Nat.testBit_mul_two_pow, Nat.testBit_two_pow_sub_one]
    by_cases h4 : 4 ≤ i
    · simp only [h4, decide_true, Bool.true_and]
      exact decide_eq_decide.mpr (by omega)
    · simp [h4]
  refine Nat.eq_of_testBit_eq fun i => ?_
  rw [Nat.testBit_and, hbits, show x / 16 * 16 = x / 2 ^ 4 * 2 ^ 4 from rfl,
    Nat.testBit_mul_two_pow, Nat.testBit_div_two_pow]
  by_cases h4 : 4 ≤ i
  · rw [show i - 4 + 4 = i by omega]
    by_cases h32 : i < 32
    · simp [h4, h32]
    · have hle : 2 ^ 32 ≤ 2 ^ i := Nat.pow_le_pow_right (by decide) (by omega)
      simp [Nat.testBit_lt_two_pow (Nat.lt_of_lt_of_le h hle), h32]
  · simp [h4]

theorem and_allocated {x : Nat} (h : x < 2 ^ 32) :
    x &&& heapBlockAllocatedBitmask = if x < 2 ^ 31 then 0 else 2 ^ 31 := by
  rw [show heapBlockAllocatedBitmask = 2 ^ 31 from rfl, Nat.and_two_pow,
    Nat.testBit_eq_decide_div_mod_eq]
  split
  · rename_i hlt
    rw [Nat.div_eq_of_lt hlt]
    rfl
  · rename_i hge
    have hdiv : x / 2 ^ 31 % 2 = 1 := by omega
    rw [hdiv]
    rfl

theorem or_allocated {x : Nat} (h : x < 2 ^ 31) : x ||| heapBlockAllocatedBitmask = x + 2 ^ 31 := by
  have hor := Nat.two_pow_add_eq_or_of_lt h 1
  rw [Nat.mul_one] at hor
  rw [Nat.lor_comm, Nat.add_comm]
  exact hor.symm

theorem and_not_allocated {x : Nat} (h : x < 2 ^ 31) :
    (x + 2 ^ 31) &&& (heapSizeMax - heapBlockAllocatedBitmask) = x := by
  rw [show heapSizeMax - heapBlockAllocatedBitmask = 2 ^ 31 - 1 from rfl,
    Nat.and_two_pow_sub_one_eq_mod]
  omega

/-! ## The size of a request -/

theorem requiredSize_zero : requiredSize 0 = 0 := rfl

/-- A request grows by the header and is rounded up, unless that takes more than 32 bits. -/
theorem requiredSize_eq {w : Nat} (hw : 0 < w) (h : w < 2 ^ 32) :
    requiredSize w = if w + 16 ≤ 2 ^ 32 - 16 then (w + 31) / 16 * 16 else 0 := by
  have hs : xHeapStructSize = 16 := rfl
  have hmax : heapSizeMax = 2 ^ 32 - 1 := rfl
  have ha : portByteAlignment = 16 := rfl
  unfold requiredSize heapAddWillOverflow
  rw [if_pos hw]
  simp only [hs, hmax, ha, and_mask, gt_iff_lt, decide_eq_true_eq]
  split
  · rw [if_neg (by omega)]
  · split
    · split
      · rw [if_neg (by omega)]
      · split
        · omega
        · omega
    · split
      · omega
      · omega

/-! ## Where the heap lies -/

theorem uxStartAddress_bounds (L : Layout) :
    uxStartAddress L % 16 = 0 ∧ L.ucHeap ≤ uxStartAddress L ∧
      uxStartAddress L ≤ L.ucHeap + 15 := by
  have hfits := L.ucHeap_fits
  have htotal : configTotalHeapSize = 2 ^ 20 := rfl
  unfold uxStartAddress
  rw [and_mask]
  split
  · rw [show portByteAlignment - 1 = 15 from rfl, and_alignedBits (by omega)]
    omega
  · omega

theorem uxEndAddress_bounds (L : Layout) :
    uxEndAddress L % 16 = 0 ∧ uxEndAddress L + 16 ≤ L.ucHeap + configTotalHeapSize ∧
      L.ucHeap + configTotalHeapSize < uxEndAddress L + 32 := by
  have hfits := L.ucHeap_fits
  have htotal : configTotalHeapSize = 2 ^ 20 := rfl
  obtain ⟨-, hle, hge⟩ := uxStartAddress_bounds L
  have hsum : uxStartAddress L + (configTotalHeapSize - (uxStartAddress L - L.ucHeap))
      = L.ucHeap + configTotalHeapSize := by omega
  unfold uxEndAddress
  simp only [hsum]
  rw [show xHeapStructSize = 16 from rfl, and_alignedBits (by omega)]
  omega

/-! ## Pieces of the heap -/

/-- The cell `p` leads through the free blocks of a piece of the heap, and the allocated ones have
their headers. -/
def Linked (mem : Cells) : Nat → Nat → List (Seg Nat) → Prop
  | _, _, [] => True
  | p, base, ⟨n, some _⟩ :: l => mem base = ⟨0, n + 2 ^ 31⟩ ∧ Linked mem p (base + n) l
  | p, base, ⟨n, none⟩ :: l =>
      (mem p).pxNextFreeBlock = base ∧ (mem base).xBlockSize = n ∧ Linked mem base (base + n) l

/-- The last free block of a piece, or the cell that leads to the piece. -/
def lastFree : Nat → Nat → List (Seg Nat) → Nat
  | p, _, [] => p
  | p, base, ⟨n, some _⟩ :: l => lastFree p (base + n) l
  | _, base, ⟨n, none⟩ :: l => lastFree base (base + n) l

/-- A linked piece whose last link goes to `t`. -/
def Chain (mem : Cells) (p t base : Nat) (l : List (Seg Nat)) : Prop :=
  Linked mem p base l ∧ (mem (lastFree p base l)).pxNextFreeBlock = t

variable {mem mem' : Cells} {p p' t base n w : Nat} {a b l : List (Seg Nat)}

@[simp] theorem linked_let : Linked mem p base (.let n w :: l) ↔
    mem base = ⟨0, n + 2 ^ 31⟩ ∧ Linked mem p (base + n) l := Iff.rfl

@[simp] theorem linked_vacant : Linked mem p base (.vacant n :: l) ↔
    (mem p).pxNextFreeBlock = base ∧ (mem base).xBlockSize = n ∧ Linked mem base (base + n) l :=
  Iff.rfl

@[simp] theorem lastFree_let : lastFree p base (.let n w :: l) = lastFree p (base + n) l := rfl

@[simp] theorem lastFree_vacant : lastFree p base (.vacant n :: l) = lastFree base (base + n) l :=
  rfl

theorem chain_let : Chain mem p t base (.let n w :: l) ↔
    mem base = ⟨0, n + 2 ^ 31⟩ ∧ Chain mem p t (base + n) l := by
  unfold Chain
  rw [linked_let, lastFree_let, and_assoc]

theorem chain_vacant : Chain mem p t base (.vacant n :: l) ↔
    (mem p).pxNextFreeBlock = base ∧ (mem base).xBlockSize = n ∧ Chain mem base t (base + n) l := by
  unfold Chain
  rw [linked_vacant, lastFree_vacant, and_assoc, and_assoc]

/-- A segment is free or has a tenant. -/
theorem seg_cases (s : Seg Nat) : (∃ n, s = .vacant n) ∨ ∃ n w, s = .let n w := by
  obtain ⟨n, tenant⟩ := s
  cases tenant with
  | none => exact .inl ⟨n, rfl⟩
  | some w => exact .inr ⟨n, w, rfl⟩

theorem lastFree_append :
    lastFree p base (a ++ b) = lastFree (lastFree p base a) (base + span a) b := by
  induction a generalizing p base with
  | nil => rfl
  | cons s a ih =>
      rcases seg_cases s with ⟨n, rfl⟩ | ⟨n, w, rfl⟩
      · rw [List.cons_append, lastFree_vacant, lastFree_vacant, ih, span_cons, Nat.add_assoc]
        rfl
      · rw [List.cons_append, lastFree_let, lastFree_let, ih, span_cons, Nat.add_assoc]
        rfl

theorem linked_append : Linked mem p base (a ++ b) ↔
    Linked mem p base a ∧ Linked mem (lastFree p base a) (base + span a) b := by
  induction a generalizing p base with
  | nil => exact (and_iff_right trivial).symm
  | cons s a ih =>
      rcases seg_cases s with ⟨n, rfl⟩ | ⟨n, w, rfl⟩
      · rw [List.cons_append, linked_vacant, linked_vacant, lastFree_vacant, ih, span_cons,
          ← Nat.add_assoc, and_assoc, and_assoc]
        rfl
      · rw [List.cons_append, linked_let, linked_let, lastFree_let, ih, span_cons,
          ← Nat.add_assoc, and_assoc]
        rfl

theorem chain_append : Chain mem p t base (a ++ b) ↔
    Linked mem p base a ∧ Chain mem (lastFree p base a) t (base + span a) b := by
  unfold Chain
  rw [linked_append, lastFree_append, and_assoc]

/-- The last free block is a block of the piece. -/
theorem lastFree_mem (p base : Nat) (l : List (Seg Nat)) :
    lastFree p base l = p ∨ lastFree p base l ∈ places base l := by
  induction l generalizing p base with
  | nil => exact .inl rfl
  | cons s l ih =>
      rcases seg_cases s with ⟨n, rfl⟩ | ⟨n, w, rfl⟩
      · right
        rcases ih base (base + n) with h | h
        · exact List.mem_cons.mpr (.inl h)
        · exact List.mem_cons_of_mem _ h
      · rcases ih p (base + n) with h | h
        · exact .inl h
        · exact .inr (List.mem_cons_of_mem _ h)

/-- The cell in front of a piece leads to one of its blocks or past it. -/
theorem Chain.next_mem (h : Chain mem p t base l) :
    (mem p).pxNextFreeBlock = t ∨ (mem p).pxNextFreeBlock ∈ places base l := by
  induction l generalizing base with
  | nil => exact .inl h.2
  | cons s l ih =>
      rcases seg_cases s with ⟨n, rfl⟩ | ⟨n, w, rfl⟩
      · exact .inr (List.mem_cons.mpr (.inl (chain_vacant.mp h).1))
      · rcases ih (chain_let.mp h).2 with h | h
        · exact .inl h
        · exact .inr (List.mem_cons_of_mem _ h)

/-- A piece looks the same from any cell that leads to its first free block. -/
theorem Chain.source (h : Chain mem p t base l)
    (hp : (mem' p').pxNextFreeBlock = (mem p).pxNextFreeBlock)
    (hl : ∀ x ∈ places base l, mem' x = mem x) : Chain mem' p' t base l := by
  induction l generalizing p p' base with
  | nil => exact ⟨trivial, hp.trans h.2⟩
  | cons s l ih =>
      have hbase : mem' base = mem base := hl base List.mem_cons_self
      have hrest : ∀ x ∈ places (base + s.size) l, mem' x = mem x :=
        fun x hx => hl x (List.mem_cons_of_mem _ hx)
      rcases seg_cases s with ⟨n, rfl⟩ | ⟨n, w, rfl⟩
      · obtain ⟨h1, h2, h3⟩ := chain_vacant.mp h
        refine chain_vacant.mpr ⟨hp.trans h1, by rw [hbase, h2], ?_⟩
        exact ih h3 (by rw [hbase]) hrest
      · obtain ⟨h1, h2⟩ := chain_let.mp h
        exact chain_let.mpr ⟨hbase.trans h1, ih h2 hp hrest⟩

/-- A piece stays linked when its last link and cells that are no headers of it change. -/
theorem Linked.congr (h : Linked mem p base l) (hpos : ∀ s ∈ l, 0 < s.size)
    (hp : p ∉ places base l) (hsize : ∀ x ∈ places base l, (mem' x).xBlockSize = (mem x).xBlockSize)
    (hnext : ∀ x, x = p ∨ x ∈ places base l → x ≠ lastFree p base l →
      (mem' x).pxNextFreeBlock = (mem x).pxNextFreeBlock) : Linked mem' p base l := by
  induction l generalizing p base with
  | nil => trivial
  | cons s l ih =>
      have hs : 0 < s.size := hpos s List.mem_cons_self
      have hpos' : ∀ s ∈ l, 0 < s.size := fun t ht => hpos t (List.mem_cons_of_mem _ ht)
      have hafter : ∀ x ∈ places (base + s.size) l, base < x := fun x hx => by
        have hin := (places_inside hpos' hx).1
        omega
      have hpbase : p ≠ base := fun he => hp (by rw [he]; exact List.mem_cons_self)
      have hsize' : ∀ x ∈ places (base + s.size) l,
          (mem' x).xBlockSize = (mem x).xBlockSize :=
        fun x hx => hsize x (List.mem_cons_of_mem _ hx)
      rcases seg_cases s with ⟨n, rfl⟩ | ⟨n, w, rfl⟩
      · obtain ⟨h1, h2, h3⟩ := linked_vacant.mp h
        have hne : p ≠ lastFree base (base + n) l := by
          rcases lastFree_mem base (base + n) l with he | hm
          · rw [he]
            exact hpbase
          · intro he
            rw [← he] at hm
            exact hp (List.mem_cons_of_mem _ hm)
        refine linked_vacant.mpr ⟨?_, ?_, ?_⟩
        · rw [hnext p (.inl rfl) hne, h1]
        · rw [hsize base List.mem_cons_self, h2]
        · refine ih h3 hpos' (fun hm => ?_) hsize' fun x hx hxl => hnext x ?_ hxl
          · exact Nat.lt_irrefl _ (hafter base hm)
          · rcases hx with rfl | hx
            · exact .inr List.mem_cons_self
            · exact .inr (List.mem_cons_of_mem _ hx)
      · obtain ⟨h1, h2⟩ := linked_let.mp h
        have hne : base ≠ lastFree p (base + n) l := by
          rcases lastFree_mem p (base + n) l with he | hm
          · rw [he]
            exact hpbase.symm
          · exact Nat.ne_of_lt (hafter _ hm)
        refine linked_let.mpr ⟨?_, ?_⟩
        · have hn := hnext base (.inr List.mem_cons_self) hne
          have hz := hsize base List.mem_cons_self
          cases hm : mem' base with
          | mk nx sz =>
              rw [hm, h1] at hn hz
              exact congrArg₂ BlockLink.mk hn hz
        · refine ih h2 hpos' (fun hm => hp (List.mem_cons_of_mem _ hm)) hsize'
            fun x hx hxl => hnext x ?_ hxl
          rcases hx with rfl | hx
          · exact .inl rfl
          · exact .inr (List.mem_cons_of_mem _ hx)

end Heap4

end MelonSoc
