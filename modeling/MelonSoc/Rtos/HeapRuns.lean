import Mathlib.Algebra.Order.BigOperators.Group.List
import Mathlib.Algebra.Order.Ring.Nat
import MelonSoc.Rtos.HeapRelease

set_option autoImplicit false

/-! # Programs that use the heap

A program allocates, releases blocks that it holds, and writes to them and to memory that does not
belong to the heap, in any order. The invariant is that the memory shows a division of the heap
whose tenants are the blocks that are held.
-/

namespace MelonSoc

namespace Heap4

open Segments

/-- A block that is held: the address that `pvPortMalloc` returned and the size it was asked for. -/
abbrev Held := Nat × Nat

/-- What the program does next; a store is the memory after it. -/
inductive Call where
  | malloc (xWantedSize : Nat)
  | free (pv : Nat)
  | store (mem : Cells)

/-- A call changes the heap and the blocks that are held. -/
def Call.apply (L : Layout) (h : Heap) (live : List Held) : Call → Option (Heap × List Held)
  | .malloc xWantedSize => do
      let (pv, h) ← pvPortMalloc L xWantedSize h
      some (h, if pv = 0 then live else (pv, xWantedSize) :: live)
  | .free pv => do
      let h ← vPortFree L pv h
      some (h, live.filter fun y => y.1 ≠ pv)
  | .store mem => some ({ h with mem := mem }, live)

/-- A store to a block that is held or outside of the heap may reach the cell. -/
def Writable (L : Layout) (live : List Held) (x : Nat) : Prop :=
  (∃ y ∈ live, y.1 < x + 8 ∧ x < y.1 + y.2) ∨
    x ≠ L.xStart ∧ (x < L.ucHeap ∨ L.ucHeap + configTotalHeapSize < x + 8)

/-- What a program may do: it releases `NULL` or what it holds, and stores where it may. -/
def Allowed (L : Layout) (h : Heap) (live : List Held) : Call → Prop
  | .malloc xWantedSize => xWantedSize < 2 ^ 32
  | .free pv => pv = 0 ∨ ∃ y ∈ live, y.1 = pv
  | .store mem => ∀ x, mem x ≠ h.mem x → Writable L live x

/-- The states of the programs on the heap. -/
inductive Reach (L : Layout) : Heap → List Held → Prop where
  | reset (mem : Cells) : Reach L (Heap.reset mem) []
  | step {h h' : Heap} {live live' : List Held} (c : Call) (hr : Reach L h live)
      (hc : Allowed L h live c) (hs : c.apply L h live = some (h', live')) : Reach L h' live'

variable {L : Layout} {h h' : Heap} {live live' : List Held} {l : List (Seg Nat)} {x r : Nat}

/-- What the caller sees of a tenancy. -/
def held (t : Nat × Nat × Nat) : Held := (t.1 + 16, t.2.2)

/-- The division shows exactly the blocks that are held. -/
structure Shows (L : Layout) (h : Heap) (live : List Held) (l : List (Seg Nat)) : Prop where
  divided : Divided L h l
  live : live.Perm ((tenancies (uxStartAddress L) l).map held)

/-- The heap has not been used yet, or shows the blocks that are held. -/
def Inv (L : Layout) (h : Heap) (live : List Held) : Prop :=
  (h.pxEnd = 0 ∧ live = []) ∨ ∃ l, Shows L h live l

/-! ## Blocks that are held -/

/-- A block that is held has its segment. -/
theorem Shows.segment {y : Held} (s : Shows L h live l) (hy : y ∈ live) :
    ∃ a n b, l = a ++ .let n y.2 :: b ∧ y.1 = uxStartAddress L + span a + 16 ∧
      (uxStartAddress L + span a, n, y.2) ∈ tenancies (uxStartAddress L) l := by
  obtain ⟨t, ht, rfl⟩ := List.mem_map.mp (s.live.mem_iff.mp hy)
  obtain ⟨a, b, rfl, hx⟩ := tenancies_split ht
  refine ⟨a, t.2.1, b, rfl, congrArg (· + 16) hx, ?_⟩
  rw [← hx]
  exact ht

/-- The payload of a block that is held lies in its segment, behind the header. -/
theorem Shows.payload {y : Held} (s : Shows L h live l) (hy : y ∈ live) :
    y.1 % 16 = 0 ∧ uxStartAddress L + 16 ≤ y.1 ∧ y.1 + y.2 ≤ uxEndAddress L := by
  obtain ⟨a, n, b, rfl, hx, -⟩ := s.segment hy
  have hs := uxStartAddress_bounds L
  have hwhole := s.divided.whole
  have hfits := (s.divided.fits (.let n y.2) (by simp)).2.2 y.2 rfl
  have ha : span a % 16 = 0 := span_aligned fun t ht => s.divided.fits t (by simp [ht])
  have hn : (Seg.let n y.2).size = n := rfl
  rw [span_append, span_cons, hn] at hwhole
  rw [hn] at hfits
  omega

/-- No header overlaps the payload of a block. -/
theorem Shows.headers_apart {y : Held} (s : Shows L h live l) (hy : y ∈ live)
    (hx : x = L.xStart ∨ x = uxEndAddress L ∨ x ∈ places (uxStartAddress L) l) :
    x + 8 ≤ y.1 ∨ y.1 + y.2 ≤ x := by
  have hin := s.payload hy
  have hs := uxStartAddress_bounds L
  have he := uxEndAddress_bounds L
  obtain ⟨a, n, b, rfl, hb, -⟩ := s.segment hy
  rcases hx with rfl | rfl | hx
  · rcases L.apart with h | h
    · left
      omega
    · right
      omega
  · right
    omega
  · have hfits := (s.divided.fits (.let n y.2) (by simp)).2.2 y.2 rfl
    have hn : (Seg.let n y.2).size = n := rfl
    rw [hn] at hfits
    have hposa : ∀ t ∈ a, 0 < t.size := fun t ht => s.divided.pos t (by simp [ht])
    have hposb : ∀ t ∈ b, 0 < t.size := fun t ht => s.divided.pos t (by simp [ht])
    rw [places_append, List.mem_append] at hx
    rcases hx with hx | hx
    · have hin := places_inside hposa hx
      left
      omega
    · rcases List.mem_cons.mp hx with rfl | hx
      · left
        omega
      · have hin := places_inside hposb hx
        rw [hn] at hin
        right
        omega

/-- A store of the program leaves the headers alone. -/
theorem Shows.header_kept {mem : Cells} (s : Shows L h live l)
    (hm : ∀ x, mem x ≠ h.mem x → Writable L live x)
    (hx : x = L.xStart ∨ x = uxEndAddress L ∨ x ∈ places (uxStartAddress L) l) :
    mem x = h.mem x := by
  by_contra hne
  rcases hm x hne with ⟨y, hy, h1, h2⟩ | ⟨hstart, hout⟩
  · have hapart := s.headers_apart hy hx
    omega
  · have hs := uxStartAddress_bounds L
    have he := uxEndAddress_bounds L
    have hwhole := s.divided.whole
    rcases hx with rfl | rfl | hx
    · exact hstart rfl
    · omega
    · have hin := places_inside s.divided.pos hx
      omega

/-! ## The calls keep the invariant -/

theorem Shows.store {mem : Cells} (s : Shows L h live l)
    (hm : ∀ x, mem x ≠ h.mem x → Writable L live x) :
    Shows L { h with mem := mem } live l := by
  have d := s.divided
  have hkeep : ∀ x, x = L.xStart ∨ x = uxEndAddress L ∨ x ∈ places (uxStartAddress L) l →
      mem x = h.mem x := fun x hx => s.header_kept hm hx
  refine ⟨⟨?_, ?_, ?_, d.pxEnd, d.whole, d.coalesced, d.fits, d.free, d.least⟩, s.live⟩
  · have hstart : mem L.xStart = h.mem L.xStart := hkeep _ (.inl rfl)
    exact d.chain.source (congrArg _ hstart) fun x hx => hkeep x (.inr (.inr hx))
  · show (mem L.xStart).xBlockSize = 0
    rw [hkeep _ (.inl rfl)]
    exact d.start
  · show mem h.pxEnd = _
    rw [hkeep _ (.inr (.inl d.pxEnd))]
    exact d.stop

/-- The tenant of a free segment is the new one. -/
theorem tenancies_taken (base w n : Nat) (a b : List (Seg Nat)) (hw : w ≤ n) :
    ((tenancies base (a ++ taken w n r ++ b)).map held).Perm
      ((base + span a + 16, r) :: (tenancies base (a ++ .vacant n :: b)).map held) := by
  have hv : tenancies base (a ++ .vacant n :: b)
      = tenancies base a ++ tenancies (base + span a + n) b := by
    rw [tenancies_append, tenancies_vacant]
  have ht : ∃ m, tenancies base (a ++ taken w n r ++ b)
      = tenancies base a ++ (base + span a, m, r) :: tenancies (base + span a + n) b := by
    unfold taken
    split
    · refine ⟨w, ?_⟩
      have hsum : base + span a + w + (n - w) = base + span a + n := by omega
      simp [tenancies, Seg.let, Seg.vacant, hsum]
    · exact ⟨n, by simp [tenancies, Seg.let, Nat.add_assoc]⟩
  obtain ⟨m, ht⟩ := ht
  rw [ht, hv, List.map_append, List.map_cons, List.map_append]
  exact List.perm_middle

/-- **Allocation**: a block that nobody holds, or `NULL` because no free block is large enough. -/
theorem Shows.malloc (s : Shows L h live l) (hr : r < 2 ^ 32) :
    ((requiredSize r = 0 ∨ ∀ t ∈ l, t.tenant = none → t.size < requiredSize r) ∧
      pvPortMalloc L r h = some (0, h)) ∨
    ∃ pv h' l', pv ≠ 0 ∧ pvPortMalloc L r h = some (pv, h') ∧ Shows L h' ((pv, r) :: live) l' ∧
      Frame L l' h h' := by
  rcases s.divided.malloc hr with hnull | ⟨a, n, b, h', rfl, -, hn, hm, hd, hf⟩
  · exact .inl hnull
  · refine .inr ⟨_, h', _, by omega, hm, ⟨hd, ?_⟩, hf⟩
    exact (s.live.cons _).trans (tenancies_taken _ _ _ _ _ hn).symm

/-- **Release** of a block that is held. -/
theorem Shows.free {y : Held} (s : Shows L h live l) (hy : y ∈ live) :
    ∃ h' l', vPortFree L y.1 h = some h' ∧ Shows L h' (live.filter fun z => z.1 ≠ y.1) l' ∧
      Frame L l h h' := by
  obtain ⟨a, n, b, rfl, hx, -⟩ := s.segment hy
  obtain ⟨h', l', hfree, hd, hf, ht⟩ := s.divided.release
  refine ⟨h', l', by rw [hx]; exact hfree, ⟨hd, ?_⟩, hf⟩
  refine (s.live.filter _).trans ?_
  rw [ht, tenancies_append, tenancies_let, List.map_append, List.map_cons, List.filter_append,
    List.filter_cons_of_neg (by simp [held, hx]), List.map_append]
  have hkeep : ∀ (base : Nat) (c : List (Seg Nat)),
      (∀ z ∈ tenancies base c, z.1 ≠ uxStartAddress L + span a) →
      ((tenancies base c).map held).filter (fun z => z.1 ≠ y.1) = (tenancies base c).map held := by
    intro base c hc
    refine List.filter_eq_self.mpr fun z hz => ?_
    obtain ⟨t, htm, rfl⟩ := List.mem_map.mp hz
    have hne := hc t htm
    simp only [held, hx]
    simpa using hne
  have hkeepa := hkeep (uxStartAddress L) a fun z hz hze => by
    obtain ⟨c, e, rfl, hz1⟩ := tenancies_split hz
    have hzpos : 0 < z.2.1 := s.divided.pos (.let z.2.1 z.2.2) (by simp)
    have hzsize : (Seg.let z.2.1 z.2.2).size = z.2.1 := rfl
    rw [span_append, span_cons, hzsize] at hze
    omega
  have hkeepb := hkeep (uxStartAddress L + span a + n) b fun z hz hze => by
    have hin := tenancies_inside hz
    have hn32 : 32 ≤ n := (s.divided.fits (.let n y.2) (by simp)).1
    omega
  rw [hkeepa, hkeepb]

/-- Before the first allocation the heap shows nothing. -/
theorem malloc_fresh (hz : h.pxEnd = 0) : pvPortMalloc L r h = pvPortMalloc L r (prvHeapInit L h) := by
  have hne : (prvHeapInit L h).pxEnd ≠ 0 := by
    have hs := uxStartAddress_bounds L
    have he := uxEndAddress_bounds L
    have hstart := heapStart_pos L
    have htotal : configTotalHeapSize = 2 ^ 20 := rfl
    show uxEndAddress L ≠ 0
    omega
  unfold pvPortMalloc
  simp only [if_pos hz, if_neg hne]

theorem shows_init (L : Layout) (h : Heap) : Shows L (prvHeapInit L h) []
    [.vacant (uxEndAddress L - uxStartAddress L)] :=
  ⟨prvHeapInit_divided L h, List.Perm.refl _⟩

/-- Every call that is allowed returns, and keeps the invariant. -/
theorem Inv.call (i : Inv L h live) {c : Call} (hc : Allowed L h live c) :
    ∃ h' live', c.apply L h live = some (h', live') ∧ Inv L h' live' := by
  cases c with
  | malloc w =>
      -- the first allocation initialises the heap
      have hused : ∃ h₀ l, Shows L h₀ live l ∧ pvPortMalloc L w h = pvPortMalloc L w h₀ := by
        rcases i with ⟨hz, rfl⟩ | ⟨l, s⟩
        · exact ⟨_, _, shows_init L h, malloc_fresh hz⟩
        · exact ⟨h, l, s, rfl⟩
      obtain ⟨h₀, l, s, heq⟩ := hused
      rcases s.malloc hc with ⟨-, hm⟩ | ⟨pv, h', l', hpv, hm, s', -⟩
      · refine ⟨h₀, live, ?_, .inr ⟨l, s⟩⟩
        simp only [Call.apply, heq, hm, Option.bind_eq_bind, Option.bind_some, if_pos]
      · refine ⟨h', (pv, w) :: live, ?_, .inr ⟨l', s'⟩⟩
        simp only [Call.apply, heq, hm, Option.bind_eq_bind, Option.bind_some, if_neg hpv]
  | free pv =>
      rcases hc with rfl | ⟨y, hy, rfl⟩
      · refine ⟨h, live, ?_, i⟩
        have hlive : live.filter (fun y => y.1 ≠ 0) = live := by
          refine List.filter_eq_self.mpr fun y hy => ?_
          rcases i with ⟨-, rfl⟩ | ⟨l, s⟩
          · cases hy
          · have hin := s.payload hy
            simp only [ne_eq, decide_not, Bool.not_eq_eq_eq_not, Bool.not_true, decide_eq_false_iff_not]
            omega
        exact congrArg (fun live => some (h, live)) hlive
      · rcases i with ⟨-, rfl⟩ | ⟨l, s⟩
        · cases hy
        · obtain ⟨h', l', hf, s', -⟩ := s.free hy
          refine ⟨h', _, ?_, .inr ⟨l', s'⟩⟩
          simp only [Call.apply, hf, Option.bind_eq_bind, Option.bind_some]
  | store mem =>
      refine ⟨_, live, rfl, ?_⟩
      rcases i with ⟨hz, rfl⟩ | ⟨l, s⟩
      · exact .inl ⟨hz, rfl⟩
      · exact .inr ⟨l, s.store hc⟩

theorem Reach.inv (hr : Reach L h live) : Inv L h live := by
  induction hr with
  | reset mem => exact .inl ⟨rfl, rfl⟩
  | step c _ hc hs ih =>
      obtain ⟨h', live', happly, i⟩ := ih.call hc
      obtain ⟨rfl, rfl⟩ := Prod.mk.inj (Option.some.inj (hs.symm.trans happly))
      exact i

/-! ## Safety -/

/-- Blocks that are held do not overlap, and a header fits between them. -/
theorem Shows.apart (s : Shows L h live l) :
    live.Pairwise fun x y => x.1 + x.2 + 16 ≤ y.1 ∨ y.1 + y.2 + 16 ≤ x.1 := by
  have hsym : ∀ {x y : Held}, (x.1 + x.2 + 16 ≤ y.1 ∨ y.1 + y.2 + 16 ≤ x.1) →
      (y.1 + y.2 + 16 ≤ x.1 ∨ x.1 + x.2 + 16 ≤ y.1) := Or.symm
  refine (s.live.pairwise_iff hsym).mpr (List.pairwise_map.mpr ?_)
  refine (tenancies_apart (uxStartAddress L) l).imp_of_mem fun {x y} hx _ hxy => ?_
  obtain ⟨a, b, rfl, -⟩ := tenancies_split hx
  have hfits := (s.divided.fits (.let x.2.1 x.2.2) (by simp)).2.2 x.2.2 rfl
  have hn : (Seg.let x.2.1 x.2.2).size = x.2.1 := rfl
  rw [hn] at hfits
  left
  show x.1 + 16 + x.2.2 + 16 ≤ y.1 + 16
  omega

/-- Allocation and release write headers only. -/
theorem Inv.frame (i : Inv L h live) {c : Call} (hc : Allowed L h live c)
    (hs : c.apply L h live = some (h', live')) (hstore : ∀ mem, c ≠ .store mem) :
    ∀ y ∈ live, ∀ x, h'.mem x ≠ h.mem x → x + 8 ≤ y.1 ∨ y.1 + y.2 ≤ x := by
  intro y hy x hx
  rcases i with ⟨-, rfl⟩ | ⟨l, s⟩
  · cases hy
  cases c with
  | malloc w =>
      rcases s.malloc hc with ⟨-, hm⟩ | ⟨pv, h₁, l', hpv, hm, s', hf⟩
      · simp only [Call.apply, hm, Option.bind_eq_bind, Option.bind_some, Option.some.injEq,
          Prod.mk.injEq] at hs
        exact absurd (by rw [← hs.1]) hx
      · simp only [Call.apply, hm, Option.bind_eq_bind, Option.bind_some, Option.some.injEq,
          Prod.mk.injEq] at hs
        obtain ⟨rfl, -⟩ := hs
        have hmem := not_not.mp (mt (hf x) hx)
        exact s'.headers_apart (List.mem_cons_of_mem _ hy) (hmem.imp_right .inr)
  | free pv =>
      rcases hc with rfl | ⟨z, hz, rfl⟩
      · obtain ⟨rfl, -⟩ := Prod.mk.inj (Option.some.inj hs)
        exact absurd rfl hx
      · obtain ⟨h₁, l', hfree, -, hf⟩ := s.free hz
        simp only [Call.apply, hfree, Option.bind_eq_bind, Option.bind_some, Option.some.injEq,
          Prod.mk.injEq] at hs
        obtain ⟨rfl, -⟩ := hs
        have hmem := not_not.mp (mt (hf x) hx)
        exact s.headers_apart hy (hmem.imp_right .inr)
  | store mem => exact absurd rfl (hstore mem)

/-- A layout with `ucHeap` off the alignment. -/
def sampleLayout : Layout where
  ucHeap := 0x40001004
  xStart := 0x40000ff8
  xStart_fits := by decide
  ucHeap_pos := by decide
  ucHeap_fits := by decide
  apart := .inl (by decide)

/-- Two blocks, the first of which moves past the header at the aligned start. -/
theorem sample_reach :
    ∃ h, Reach sampleLayout h [(0x400010a0, 20), (0x40001020, 100)] ∧ h.pxEnd ≠ 0 := by
  have hrun : ((Call.malloc 100).apply sampleLayout (Heap.reset fun _ => ⟨0, 0⟩) [] >>= fun s =>
      ((Call.malloc 20).apply sampleLayout s.1 s.2).map fun s => (s.1.pxEnd, s.2))
      = some (0x40100ff0, [(0x400010a0, 20), (0x40001020, 100)]) := by decide +kernel
  obtain ⟨⟨h₁, live₁⟩, hs₁, hs₂⟩ := Option.bind_eq_some_iff.mp hrun
  obtain ⟨⟨h₂, live₂⟩, hs₂, heq⟩ := Option.map_eq_some_iff.mp hs₂
  obtain ⟨hend, rfl⟩ := Prod.mk.inj heq
  have h100 : 100 < 2 ^ 32 := by decide
  have h20 : 20 < 2 ^ 32 := by decide
  refine ⟨h₂, .step (.malloc 20) (.step (.malloc 100) (.reset _) h100 hs₁) h20 hs₂, fun hz => ?_⟩
  exact absurd (hend.symm.trans hz) (by decide)

/-- A request that gets `NULL` finds a block in every window of its size. -/
theorem Shows.null {q : Nat} (s : Shows L h live l) (hr : r < 2 ^ 32) (hpos : 0 < r)
    (hnull : pvPortMalloc L r h = some (0, h')) (hq : uxStartAddress L ≤ q)
    (hend : q + (r + 31) / 16 * 16 ≤ uxEndAddress L) :
    ∃ y ∈ live, y.1 < q + (r + 31) / 16 * 16 + 16 ∧ q < y.1 + y.2 + 47 := by
  have hs := uxStartAddress_bounds L
  have he := uxEndAddress_bounds L
  have htotal : configTotalHeapSize = 2 ^ 20 := rfl
  have hreq : requiredSize r = (r + 31) / 16 * 16 := by
    rw [requiredSize_eq hpos hr, if_pos (by omega)]
  rw [← hreq] at hend ⊢
  rcases s.malloc hr with ⟨hsmall, -⟩ | ⟨pv, h₁, l', hpv, hm, -, -⟩
  · by_contra hnone
    have hfree : ∀ x ∈ tenancies (uxStartAddress L) l,
        q + requiredSize r ≤ x.1 ∨ x.1 + x.2.1 ≤ q := by
      intro x hx
      by_contra hmeets
      obtain ⟨a, b, rfl, hx1⟩ := tenancies_split hx
      obtain ⟨-, -, hfits⟩ := s.divided.fits (.let x.2.1 x.2.2) (by simp)
      obtain ⟨hw, hroom, hwaste⟩ := hfits x.2.2 rfl
      have hsize : (Seg.let x.2.1 x.2.2).size = x.2.1 := rfl
      rw [hsize] at hroom hwaste
      have hround : requiredSize x.2.2 ≤ x.2.2 + 31 := by
        by_cases hz : x.2.2 = 0
        · rw [hz, requiredSize_zero]
          omega
        · rw [requiredSize_eq (Nat.pos_of_ne_zero hz) hw]
          split <;> omega
      have hlive : held x ∈ live := s.live.mem_iff.mpr (List.mem_map_of_mem hx)
      refine hnone ⟨held x, hlive, ?_⟩
      show x.1 + 16 < _ ∧ q < x.1 + 16 + x.2.2 + 47
      omega
    obtain ⟨t, ht, htn, hle⟩ := s.divided.coalesced.window s.divided.pos (by omega) hq
      (by rw [s.divided.whole]; exact hend) hfree
    rcases hsmall with hz | hsmall
    · omega
    · have hlt := hsmall t ht htn
      omega
  · have heq := hnull.symm.trans hm
    simp only [Option.some.injEq, Prod.mk.injEq] at heq
    exact absurd heq.1.symm hpv

/-- What is not free is held, up to the headers and the rounding. -/
theorem Shows.balance (s : Shows L h live l) :
    h.xFreeBytesRemaining + (live.map fun y => y.2 + 16).sum ≤ uxEndAddress L - uxStartAddress L ∧
      uxEndAddress L - uxStartAddress L
        ≤ h.xFreeBytesRemaining + (live.map fun y => y.2 + 63).sum := by
  have hwhole := s.divided.whole
  have hsum := vacancy_add_tenancies (uxStartAddress L) l
  have hperm : ∀ f : Held → Nat, (live.map f).sum
      = ((tenancies (uxStartAddress L) l).map fun x => f (held x)).sum := by
    intro f
    rw [(s.live.map f).sum_eq, List.map_map]
    rfl
  have hfits : ∀ x ∈ tenancies (uxStartAddress L) l, x.2.2 + 16 ≤ x.2.1 ∧ x.2.1 ≤ x.2.2 + 63 := by
    intro x hx
    obtain ⟨a, b, rfl, -⟩ := tenancies_split hx
    obtain ⟨-, -, hfits⟩ := s.divided.fits (.let x.2.1 x.2.2) (by simp)
    obtain ⟨hw, hroom, hwaste⟩ := hfits x.2.2 rfl
    have hsize : (Seg.let x.2.1 x.2.2).size = x.2.1 := rfl
    rw [hsize] at hroom hwaste
    refine ⟨hroom, ?_⟩
    by_cases hz : x.2.2 = 0
    · rw [hz, requiredSize_zero] at hwaste
      omega
    · rw [requiredSize_eq (Nat.pos_of_ne_zero hz) hw] at hwaste
      split at hwaste <;> omega
  have hlow := List.sum_le_sum fun x hx => (hfits x hx).1
  have hhigh := List.sum_le_sum fun x hx => (hfits x hx).2
  rw [s.divided.free, hperm, hperm]
  show vacancy l + (List.map (fun x : Nat × Nat × Nat => x.2.2 + 16) _).sum ≤ _ ∧
    _ ≤ vacancy l + (List.map (fun x : Nat × Nat × Nat => x.2.2 + 63) _).sum
  omega

/-- **Nothing is lost.** In every state of every program, a request is refused only if each window
of the heap that could serve it meets a block that is held; the free bytes and the blocks that are
held make up the heap, up to 47 bytes of rounding a block. -/
theorem heap_complete (L : Layout) {h : Heap} {live : List Held} (hr : Reach L h live) :
    (∀ xWantedSize h', 0 < xWantedSize → xWantedSize < 2 ^ 32 →
      pvPortMalloc L xWantedSize h = some (0, h') → ∀ q, uxStartAddress L ≤ q →
      q + (xWantedSize + 31) / 16 * 16 ≤ uxEndAddress L →
      ∃ y ∈ live, y.1 < q + (xWantedSize + 31) / 16 * 16 + 16 ∧ q < y.1 + y.2 + 47) ∧
    (h.pxEnd ≠ 0 →
      h.xFreeBytesRemaining + (live.map fun y => y.2 + 16).sum
          ≤ uxEndAddress L - uxStartAddress L ∧
        uxEndAddress L - uxStartAddress L
          ≤ h.xFreeBytesRemaining + (live.map fun y => y.2 + 63).sum) := by
  rcases hr.inv with ⟨hz, rfl⟩ | ⟨l, s⟩
  · refine ⟨fun w h' hpos hw hnull q hq hend => ?_, fun hne => absurd hz hne⟩
    exact (shows_init L h).null hw hpos ((malloc_fresh hz).symm.trans hnull) hq hend
  · exact ⟨fun w h' hpos hw hnull q hq hend => s.null hw hpos hnull hq hend, fun _ => s.balance⟩

theorem heap_complete_two : ∃ h, Reach sampleLayout h [(0x400010a0, 20), (0x40001020, 100)] ∧
    h.xFreeBytesRemaining + 152 ≤ uxEndAddress sampleLayout - uxStartAddress sampleLayout := by
  obtain ⟨h, hr, hend⟩ := sample_reach
  exact ⟨h, hr, ((heap_complete sampleLayout hr).2 hend).1⟩

end Heap4

end MelonSoc
