import MelonSoc.Bus.AtomicMemory
import MelonSoc.Lib.Sv32

set_option autoImplicit false

/-! # Page tables in memory

The entries that a walk of memory reads, and what the bus does with them for the walker: it reads
the entry that memory holds, and while it writes one back nothing else is written.
-/

namespace MelonSoc

/-! ## Addresses -/

theorem pteAddr_eq (ppn : BitVec 22) (index : BitVec 10) :
    pteAddr ppn index = (Sv32.pteAt ppn index).extractLsb' 0 32 := by
  unfold pteAddr Sv32.pteAt
  rw [BitVec.add_eq_or_of_and_eq_zero]
  · refine BitVec.eq_of_getLsbD_eq fun k hk => ?_
    simp only [BitVec.getLsbD_or, BitVec.getLsbD_append, BitVec.getLsbD_setWidth,
      BitVec.getLsbD_extractLsb', BitVec.getLsbD_zero]
    by_cases h2 : k < 2
    · simp [h2, hk]
      omega
    · by_cases h12 : k < 12
      · simp [h2, h12, hk, show k - 2 < 10 by omega]
      · have hz : index.getLsbD (k - 2) = false := BitVec.getLsbD_of_ge _ _ (by omega)
        simp [h2, h12, hk, hz, show ¬ k - 2 < 10 by omega, show k - 2 - 10 = k - 12 by omega,
          show k - 12 < 20 by omega]
  · -- the page and the index do not overlap
    refine BitVec.eq_of_getLsbD_eq fun k hk => ?_
    simp only [BitVec.getLsbD_and, BitVec.getLsbD_append, BitVec.getLsbD_setWidth,
      BitVec.getLsbD_extractLsb', BitVec.getLsbD_zero]
    by_cases h12 : k < 12
    · simp [h12]
    · have hz : index.getLsbD (k - 2) = false := BitVec.getLsbD_of_ge _ _ (by omega)
      have h2 : ¬ k < 2 := by omega
      simp [h12, h2, hz]

theorem pteAt_high (ppn : BitVec 22) (index : BitVec 10) :
    (Sv32.pteAt ppn index).extractLsb' 32 2 = ppn.extractLsb' 20 2 := by
  refine BitVec.eq_of_getLsbD_eq fun k hk => ?_
  simp only [Sv32.pteAt, BitVec.getLsbD_extractLsb', BitVec.getLsbD_append]
  rw [if_neg (by omega), if_neg (by omega)]
  congr 2
  omega

/-- A physical address of 34 bits. -/
def widen (a : Word) : BitVec 34 := a.setWidth 34

theorem widen_low (a : Word) : (widen a).extractLsb' 0 32 = a := by
  refine BitVec.eq_of_getLsbD_eq fun k hk => ?_
  have hk' : k < 34 := by omega
  simp [widen, hk, hk']

theorem widen_high (a : Word) : (widen a).extractLsb' 32 2 = 0#2 := by
  refine BitVec.eq_of_getLsbD_eq fun k hk => ?_
  simp [widen]

theorem eq_widen {x : BitVec 34} (h : x.extractLsb' 32 2 = 0#2) :
    x = widen (x.extractLsb' 0 32) := by
  refine BitVec.eq_of_getLsbD_eq fun k hk => ?_
  by_cases h32 : k < 32
  · simp [widen, hk, h32]
  · have hbit := congrArg (fun v : BitVec 2 => v.getLsbD (k - 32)) h
    simp only [BitVec.getLsbD_extractLsb', BitVec.getLsbD_zero, show k - 32 < 2 by omega,
      decide_true, Bool.true_and, show 32 + (k - 32) = k by omega] at hbit
    simp [widen, h32, hbit]

theorem pteAt_eq_widen {ppn : BitVec 22} {index : BitVec 10}
    (h : pteUnreachable ppn index = false) : Sv32.pteAt ppn index = widen (pteAddr ppn index) := by
  have hhigh : (Sv32.pteAt ppn index).extractLsb' 32 2 = 0#2 := by
    rw [pteAt_high]
    simp only [pteUnreachable, Bool.or_eq_false_iff] at h
    simpa using h.1
  rw [pteAddr_eq]
  exact eq_widen hhigh

/-! ## Entries -/

/-- The entry at a physical address, in the data RAM or in DDR. -/
def Memories.pte (m : Memories) (x : BitVec 34) : Option Sv32.Pte :=
  if x.extractLsb' 32 2 == 0#2 &&
      (isDataramRegion (x.extractLsb' 0 32) || isDdrRegion (x.extractLsb' 0 32)) then
    some (m.wordAt (x.extractLsb' 0 32))
  else none

theorem Memories.pte_unreachable {m : Memories} {ppn : BitVec 22} {index : BitVec 10}
    (h : pteUnreachable ppn index = true) : m.pte (Sv32.pteAt ppn index) = none := by
  rw [pte, pteAt_high, ← pteAddr_eq, if_neg]
  simp only [pteUnreachable, Bool.or_eq_true, Bool.and_eq_true, Bool.not_eq_true'] at h
  rcases h with h | h
  · simp only [bne_iff_ne, ne_eq] at h
    simp [h]
  · simp [h]

theorem Memories.pte_widen {m : Memories} {a : Word} (h : isDdrRegion a = true) :
    m.pte (widen a) = some (m.ddr (wordOf a)) := by
  rw [pte, widen_high, widen_low, if_pos (by simp [h]), wordAt, h]
  rfl

/-- The entries of the page tables that are in memory are in DDR. -/
def Memories.TablesInDdr (m : Memories) (root : BitVec 22) : Prop :=
  ∀ x, Sv32.InTables m.pte root x → (m.pte x).isSome = true →
    isDdrRegion (x.extractLsb' 0 32) = true

theorem Memories.pte_isSome {m : Memories} {x : BitVec 34} :
    (m.pte x).isSome = true ↔ x.extractLsb' 32 2 = 0#2 ∧
      (isDataramRegion (x.extractLsb' 0 32) = true ∨ isDdrRegion (x.extractLsb' 0 32) = true) := by
  unfold pte
  split
  · rename_i h
    simpa using h
  · rename_i h
    simpa using h

/-- Where entries are does not change. -/
theorem Memories.pte_isSome_congr (m m' : Memories) (x : BitVec 34) :
    (m.pte x).isSome = (m'.pte x).isSome := by
  rw [Bool.eq_iff_iff, pte_isSome, pte_isSome]

namespace Soc

variable {i : SocIn} {s : Soc} {g : Origins}

/-! ## The bus of the walker -/

/-- The walker reads what DDR holds. -/
theorem Grants.walker_reads (d : s.Grants g) (hact : s.hart.mmu.walkActive = true)
    (hack : (s.dataRsp i).ack = true) (hddr : isDdrRegion s.hart.mmu.walkPteAddr = true) :
    s.mem.pte (widen s.hart.mmu.walkPteAddr) = some (s.dataRsp i).datR := by
  have ho : s.hart.mmu.ownsBus = true := by rw [Mmu.ownsBus, hact, Bool.true_or]
  obtain ⟨hadr, -, -, hwe, -⟩ := walker_request ho
  have hr : isDdrRegion s.dataReq.adr = true := by rw [hadr]; exact hddr
  have hwe' : s.dataReq.we = false := by rw [hwe, hact]; rfl
  rw [Memories.pte_widen hddr, d.ddr_word hr hack hwe', Memories.wordAt, hr, hadr]
  rfl

/-- The entry that the walker writes back. -/
def writtenBack (s : Soc) : Word := s.hart.mmu.walkPte ||| adBits s.hart.mmu.walkStore

theorem walkReq_of_adWait (h : s.hart.mmu.ptwState = .adWait) :
    s.hart.mmu.ownsBus = true ∧ s.dataReq.adr = s.hart.mmu.walkPteAddr ∧
      s.dataReq.datW = s.writtenBack ∧ s.dataReq.sel = 0b1111#4 ∧ s.dataReq.we = true := by
  have ho : s.hart.mmu.ownsBus = true := by simp [Mmu.ownsBus, h]
  have hreq := dataReq_of_walker ho
  have hwalk : s.hart.mmu.walkReq = { adr := s.hart.mmu.walkPteAddr, datW := s.writtenBack
                                      sel := 0b1111#4, we := true, cyc := true, stb := true
                                      lock := true } := by
    simp [Mmu.walkReq, Mmu.walkActive, h, writtenBack]
  rw [hreq, hwalk]
  exact ⟨ho, rfl, rfl, rfl, rfl⟩

/-- What is written to DDR while the walker writes an entry back is that entry. -/
theorem Grants.ddr_adWait (d : s.Grants g) (h : s.hart.mmu.ptwState = .adWait) {k : BitVec 30}
    (hne : (s.next i).mem.ddr k ≠ s.mem.ddr k) :
    k = wordOf s.hart.mmu.walkPteAddr ∧ (s.next i).mem.ddr k = s.writtenBack := by
  obtain ⟨-, hadr, hdat, hsel, hwe⟩ := walkReq_of_adWait h
  have hdef : (s.next i).mem.ddr = if s.bridgeRespond i && s.bridge.reqWe then
      Function.update s.mem.ddr (wordOf s.bridge.reqAddr)
        (mergeBytes (s.mem.ddr (wordOf s.bridge.reqAddr)) s.bridge.reqDatW s.bridge.reqSel)
      else s.mem.ddr := rfl
  rw [hdef] at hne ⊢
  split at hne
  · rename_i hw
    rw [if_pos hw]
    rw [Bool.and_eq_true] at hw
    have hbusy := (bridgeRespond_spec hw.1).2
    have hdata : s.arb.ownerIsData = true := by
      by_contra hno
      rw [d.fetches hbusy (by simpa using hno)] at hw
      cases hw.2
    have f := d.flight (.inl hbusy) hdata
    have hk : k = wordOf s.bridge.reqAddr := by
      by_contra hno
      exact hne (Function.update_of_ne hno _ _)
    subst hk
    rw [Function.update_self, f.datW, f.sel, f.adr, hadr, hdat, hsel, mergeBytes_word]
    exact ⟨rfl, rfl⟩
  · exact absurd rfl hne

/-- The entry has been written when the walker takes the acknowledge. -/
theorem Grants.walker_written (d : s.Grants g) (b : s.BridgeWritten)
    (h : s.hart.mmu.ptwState = .adWait) (hack : (s.dataRsp i).ack = true)
    (hddr : isDdrRegion s.hart.mmu.walkPteAddr = true) :
    (s.next i).mem.ddr (wordOf s.hart.mmu.walkPteAddr) = s.writtenBack := by
  obtain ⟨-, hadr, hdat, hsel, hwe⟩ := walkReq_of_adWait h
  have hr : isDdrRegion s.dataReq.adr = true := by rw [hadr]; exact hddr
  rw [dataRsp_ack, dataMux_ddr hr] at hack
  obtain ⟨-, -, hd, hb⟩ := ddrDataRsp_ack_iff.mp hack
  have f := d.flight (.inr hb) hd
  have hword := b (.inr hb) (by rw [f.we]; exact hwe)
  rw [f.adr, f.datW, f.sel, hadr, hdat, hsel, mergeBytes_word] at hword
  have hno : s.bridgeRespond i = false := by simp [bridgeRespond, d.acked hb]
  simp [memNext, hno, hword]

end Soc

end MelonSoc
