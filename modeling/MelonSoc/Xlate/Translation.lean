import MelonSoc.Bus.Fetch
import MelonSoc.Xlate.Soundness

set_option autoImplicit false

/-! # Translation

From a state in which the TLBs are empty and the walker is idle, while `satp` keeps its value and
the page tables in DDR are written by the walker only: an access is translated as the reference
walk of memory translates it.
-/

namespace MelonSoc

open Sv32 (Pte LeadsTo Aging)

/-! ## The answer on the data side -/

namespace Mmu

variable {satp : Word} {m : Memories} {c : XlateCtx} {q : DReq} {s : Mmu}

/-- A failed walk answers the data request. -/
def answersFault (q : DReq) (s : Mmu) : Bool :=
  s.ptwState == .fault && s.walkVaddr == q.vaddr && s.walkStore == q.store

/-- How a translated data request is answered. -/
inductive DataAnswer (c : XlateCtx) (q : DReq) (s : Mmu) : Prop
  | denied (hit : s.dtlbHit c q = true) (no : s.dtlbAccessAllowed c q = false)
      (rsp : s.dataRsp c q = { ready := true, paddr := q.vaddr, pageFault := true, accessFault := false })
  | granted (hit : s.dtlbHit c q = true) (yes : s.dtlbAccessAllowed c q = true)
      (ad : s.dtlbAdReady c q = true)
      (rsp : s.dataRsp c q = { ready := true, paddr := (s.dtlbPa c q).extractLsb' 0 32
                               pageFault := false, accessFault := beyond32 (s.dtlbPa c q) })
  | failed (miss : s.dtlbHit c q = false) (fault : s.answersFault q = true)
      (rsp : s.dataRsp c q = { ready := true, paddr := q.vaddr, pageFault := s.walkPageFault
                               accessFault := s.walkAccessFault })
  | waits (rsp : s.dataRsp c q =
      { ready := false, paddr := q.vaddr, pageFault := false, accessFault := false })

theorem dataAnswer (hv : q.valid = true) (ht : c.dataTranslate = true) : s.DataAnswer c q := by
  cases hhit : s.dtlbHit c q with
  | true =>
      cases hok : s.dtlbAccessAllowed c q with
      | false => exact .denied hhit hok (by simp [dataRsp, hv, ht, hhit, hok])
      | true =>
          cases had : s.dtlbAdReady c q with
          | true => exact .granted hhit hok had (by simp [dataRsp, hv, ht, hhit, hok, had])
          | false => exact .waits (by simp [dataRsp, hv, ht, hhit, hok, had])
  | false =>
      cases hf : s.answersFault q with
      | true =>
          refine .failed hhit hf ?_
          unfold answersFault at hf
          simp only [dataRsp, hv, ht, hhit, hf]
          rfl
      | false =>
          refine .waits ?_
          unfold answersFault at hf
          simp only [dataRsp, hv, ht, hhit, hf]
          rfl

/-- The leaf that the data lookup stands for on a hit. -/
theorem TlbsAgree.dtlb_leaf (t : s.TlbsAgree c.satp m) (h : s.dtlbHit c q = true) :
    ∃ p, Sv32.walk m.pte (satpPpn c.satp) q.vaddr = .leaf (s.dtlbEntry c q).superpage p ∧
      (s.dtlbEntry c q).Shows p := by
  obtain ⟨j, hj, hmatch⟩ := Tlb.entry_of_hit h
  have hentry : s.dtlbEntry c q = s.dtlb j := hj
  rw [hentry]
  exact t.dtlb j (TlbEntry.valid_of_matching hmatch) q.vaddr hmatch

/-- The leaf that the fetch lookup stands for on a hit. -/
theorem TlbsAgree.itlb_leaf {q : ImemReq} (t : s.TlbsAgree c.satp m) (h : s.itlbHit c q = true) :
    ∃ p, Sv32.walk m.pte (satpPpn c.satp) q.addr = .leaf (s.itlbEntry c q).superpage p ∧
      (s.itlbEntry c q).Shows p := by
  obtain ⟨j, hj, hmatch⟩ := Tlb.entry_of_hit h
  have hentry : s.itlbEntry c q = s.itlb j := hj
  rw [hentry]
  exact t.itlb j (TlbEntry.valid_of_matching hmatch) q.addr hmatch

end Mmu

namespace Soc

/-! ## The reference translation -/

/-- The physical addresses of the machine. -/
def present (x : BitVec 34) : Bool := !Mmu.beyond32 x

/-- The reference translation of the access in EX. -/
def dataTranslation (s : Soc) : Sv32.Translation :=
  Sv32.translate s.mem.pte present (satpPpn s.hart.ctx.satp) s.hart.dReq.access
    s.hart.ctx.dataMode s.hart.dReq.vaddr

/-- The reference translation of the fetch. -/
def fetchTranslation (i : SocIn) (s : Soc) : Sv32.Translation :=
  Sv32.translate s.mem.pte present (satpPpn s.hart.ctx.satp) .fetch s.hart.ctx.fetchMode
    (s.coreInstrReq i).addr

variable {i : SocIn} {s : Soc} {g : Origins} {satp : Word}

/-! ## The invariant -/

/-- An entry of the page tables changes only while the walker writes one back. -/
def TablesKept (s s' : Soc) : Prop :=
  ∀ x, Sv32.InTables s.mem.pte (satpPpn s.hart.ctx.satp) x → s'.mem.pte x ≠ s.mem.pte x →
    s.hart.mmu.ptwState = .adWait

/-- The invariant of translation under `satp`. -/
structure Translating (satp : Word) (s : Soc) : Prop where
  walk : s.hart.mmu.WalkOk satp s.mem
  tlbs : s.hart.mmu.TlbsAgree satp s.mem
  ddr : s.mem.TablesInDdr (satpPpn satp)

/-- The entry that the walker has on the bus is in DDR. -/
theorem Translating.entry_in_ddr (t : s.Translating satp) (w : s.HartWf)
    (ho : s.hart.mmu.ownsBus = true) :
    Sv32.InTables s.mem.pte (satpPpn satp) (widen s.hart.mmu.walkPteAddr) ∧
      isDdrRegion s.hart.mmu.walkPteAddr = true := by
  have hplace : ∃ superpage, s.hart.mmu.AtEntry satp s.mem superpage := by
    have hw := t.walk
    rcases Mmu.ownsBus_iff.mp ho with hs | hs | hs
    · simp only [Mmu.WalkOk, hs] at hw
      exact ⟨_, hw.place⟩
    · simp only [Mmu.WalkOk, hs] at hw
      exact ⟨_, hw.place⟩
    · simp only [Mmu.WalkOk, hs] at hw
      exact ⟨_, hw.place⟩
  obtain ⟨superpage, hplace⟩ := hplace
  have hin := hplace.inTables
  have hsome : (s.mem.pte (widen s.hart.mmu.walkPteAddr)).isSome = true := by
    rw [Memories.pte_isSome, widen_low]
    exact ⟨widen_high _, w.control.readable_of_owns ho⟩
  have hddr := t.ddr _ hin hsome
  rw [widen_low] at hddr
  exact ⟨hin, hddr⟩

/-- Two entries in the same word are one. -/
theorem entry_of_word {root : BitVec 22} {x y : BitVec 34} {m : Memories}
    (hx : Sv32.InTables m.pte root x) (hy : Sv32.InTables m.pte root y)
    (hhx : x.extractLsb' 32 2 = 0#2) (hhy : y.extractLsb' 32 2 = 0#2)
    (hw : wordOf (x.extractLsb' 0 32) = wordOf (y.extractLsb' 0 32)) : x = y := by
  refine BitVec.eq_of_getLsbD_eq fun k hk => ?_
  have hbit : ∀ z : BitVec 34, ∀ start len, start ≤ k → k < start + len →
      (z.extractLsb' start len).getLsbD (k - start) = z.getLsbD k := by
    intro z start len h1 h2
    have h3 : k - start < len := by omega
    rw [BitVec.getLsbD_extractLsb', show start + (k - start) = k by omega]
    simp only [h3, decide_true, Bool.true_and]
  by_cases h2 : k < 2
  · rw [← hbit x 0 2 (by omega) (by omega), ← hbit y 0 2 (by omega) (by omega), hx.aligned,
      hy.aligned]
  · by_cases h32 : k < 32
    · have hword : ∀ z : BitVec 34, (wordOf (z.extractLsb' 0 32)).getLsbD (k - 2) = z.getLsbD k := by
        intro z
        have h1 : k - 2 < 30 := by omega
        have h2 : 2 + (k - 2) < 32 := by omega
        rw [wordOf, BitVec.getLsbD_extractLsb', BitVec.getLsbD_extractLsb',
          show 0 + (2 + (k - 2)) = k by omega]
        simp only [h1, h2, decide_true, Bool.true_and]
      rw [← hword x, ← hword y, hw]
    · rw [← hbit x 32 2 (by omega) (by omega), ← hbit y 32 2 (by omega) (by omega), hhx, hhy]

/-- The bus serves the walker. -/
theorem Translating.serves (t : s.Translating satp) (w : s.HartWf) (d : s.Grants g)
    (b : s.BridgeWritten) (hsatp : s.hart.ctx.satp = satp) (hkept : s.TablesKept (s.next i)) :
    Mmu.Serves (satpPpn satp) (s.mmuIn i) s.hart.mmu s.mem (s.next i).mem where
  reads := by
    intro hact hack
    have ho : s.hart.mmu.ownsBus = true := by rw [Mmu.ownsBus, hact, Bool.true_or]
    exact d.walker_reads hact hack (t.entry_in_ddr w ho).2
  kept := by
    intro x hx
    by_cases hsame : (s.next i).mem.pte x = s.mem.pte x
    · exact .inl hsame
    · -- only the walker writes, and only its own entry
      subst hsatp
      have hs := hkept x hx hsame
      have ho : s.hart.mmu.ownsBus = true := (walkReq_of_adWait hs).1
      obtain ⟨hin, hwddr⟩ := t.entry_in_ddr w ho
      have hsome : (s.mem.pte x).isSome = true := by
        by_contra hno
        rw [Bool.not_eq_true] at hno
        have hno' := hno
        rw [Memories.pte_isSome_congr _ (s.next i).mem] at hno'
        rw [Option.isSome_eq_false_iff, Option.isNone_iff_eq_none] at hno hno'
        exact hsame (hno'.trans hno.symm)
      have hddr := t.ddr x hx hsome
      have hhigh := (Memories.pte_isSome.mp hsome).1
      have hpte : ∀ m : Memories, m.pte x = some (m.ddr (wordOf (x.extractLsb' 0 32))) := by
        intro m
        rw [← Memories.pte_widen hddr, ← eq_widen hhigh]
      rw [hpte, hpte] at hsame
      have hne : (s.next i).mem.ddr (wordOf (x.extractLsb' 0 32)) ≠
          s.mem.ddr (wordOf (x.extractLsb' 0 32)) := fun h => hsame (congrArg some h)
      obtain ⟨hword, hval⟩ := d.ddr_adWait hs hne
      have hx' : x = widen s.hart.mmu.walkPteAddr :=
        entry_of_word hx hin hhigh (widen_high _) (by rw [hword, widen_low])
      refine .inr ⟨hs, hx', ?_⟩
      rw [hpte, hval]
      rfl
  written := by
    intro hs hack
    have ho : s.hart.mmu.ownsBus = true := (walkReq_of_adWait hs).1
    obtain ⟨-, hddr⟩ := t.entry_in_ddr w ho
    rw [Memories.pte_widen hddr, d.walker_written b hs hack hddr]
    rfl

/-- **Step.** -/
theorem Translating.next (t : s.Translating satp) (w : s.HartWf) (d : s.Grants g)
    (b : s.BridgeWritten) (hsatp : s.hart.ctx.satp = satp) (hkept : s.TablesKept (s.next i)) :
    (s.next i).Translating satp := by
  have v := t.serves w d b hsatp hkept
  have hage := t.walk.aging v
  refine ⟨t.walk.next v hsatp, t.tlbs.next t.walk v, fun x hx hsome => ?_⟩
  rw [Memories.pte_isSome_congr _ s.mem] at hsome
  exact t.ddr x (hage.inTables hx) hsome

/-! ## What an access is told -/

/-- Accesses are translated as the reference walk of memory translates them: what is granted, and
what a hit denies. -/
structure TranslatesSoundly (i : SocIn) (s : Soc) : Prop where
  data : s.hart.dReq.valid = true → s.hart.ctx.dataTranslate = true → s.hart.dRsp.ready = true →
    s.hart.dRsp.pageFault = false → s.hart.dRsp.accessFault = false →
    ∃ p, s.dataTranslation = .ok (widen s.hart.dRsp.paddr) p ∧ p.accessed = true ∧
      (s.hart.dReq.store = true → p.dirty = true)
  fetch : s.hart.ctx.instrTranslate = true → (s.instrReq i).ren = true →
    ∃ p, s.fetchTranslation i = .ok (widen (s.instrReq i).addr) p ∧ p.accessed = true
  dataHit : s.hart.dReq.valid = true → s.hart.ctx.dataTranslate = true →
    s.hart.mmu.dtlbHit s.hart.ctx s.hart.dReq = true →
    (s.hart.dRsp.pageFault = true → s.dataTranslation = .pageFault) ∧
      (s.hart.dRsp.accessFault = true → s.dataTranslation = .accessFault)
  fetchHit : s.hart.ctx.instrTranslate = true → (s.coreInstrReq i).ren = true →
    (s.hart.mmu.instrDirectPageFault s.hart.ctx (s.coreInstrReq i) = true →
        s.fetchTranslation i = .pageFault) ∧
      (s.hart.mmu.instrDirectAccessFault s.hart.ctx (s.coreInstrReq i) = true →
        s.fetchTranslation i = .accessFault)

theorem widen_of_present {x : BitVec 34} (h : Mmu.beyond32 x = false) :
    widen (x.extractLsb' 0 32) = x := by
  have hhigh : x.extractLsb' 32 2 = 0#2 := by simpa [Mmu.beyond32] using h
  exact (eq_widen hhigh).symm

section Answers

variable (t : s.Translating s.hart.ctx.satp)

include t

/-- On a hit the data lookup decides as the reference walk. -/
theorem Translating.data_hit (p : s.hart.core.csr.PrivWf) (ht : s.hart.ctx.dataTranslate = true)
    (h : s.hart.mmu.dtlbHit s.hart.ctx s.hart.dReq = true) :
    ∃ leaf, (s.hart.mmu.dtlbEntry s.hart.ctx s.hart.dReq).Shows leaf ∧
      s.dataTranslation =
        if s.hart.mmu.dtlbAccessAllowed s.hart.ctx s.hart.dReq then
          (if Mmu.beyond32 (s.hart.mmu.dtlbPa s.hart.ctx s.hart.dReq) then .accessFault
            else .ok (s.hart.mmu.dtlbPa s.hart.ctx s.hart.dReq) leaf)
        else .pageFault := by
  obtain ⟨leaf, hwalk, hshows⟩ := t.tlbs.dtlb_leaf h
  have hm : s.hart.ctx.effectivePriv ≠ privM := by
    simp only [XlateCtx.dataTranslate, Bool.and_eq_true, bne_iff_ne] at ht
    exact ht.2
  have hr := XlateCtx.effectivePriv_legal (c := s.hart.ctx) p.priv p.mpp
  have hpa : s.hart.mmu.dtlbPa s.hart.ctx s.hart.dReq =
      leaf.target (s.hart.mmu.dtlbEntry s.hart.ctx s.hart.dReq).superpage s.hart.dReq.vaddr :=
    hshows.physAddr
  refine ⟨leaf, hshows, ?_⟩
  rw [Mmu.dtlbAccessAllowed_eq hshows hm hr, hpa, dataTranslation]
  cases hg : leaf.grants s.hart.dReq.access s.hart.ctx.dataMode with
  | false => exact Sv32.translate_denied hwalk hg
  | true =>
      rw [Sv32.translate_granted hwalk hg, present, if_pos rfl]
      cases Mmu.beyond32 (leaf.target (s.hart.mmu.dtlbEntry s.hart.ctx s.hart.dReq).superpage
          s.hart.dReq.vaddr) with
      | true => rfl
      | false => rfl

/-- On a hit the fetch lookup decides as the reference walk. -/
theorem Translating.fetch_hit (h : s.hart.mmu.itlbHit s.hart.ctx (s.coreInstrReq i) = true) :
    ∃ leaf, (s.hart.mmu.itlbEntry s.hart.ctx (s.coreInstrReq i)).Shows leaf ∧
      s.fetchTranslation i =
        if s.hart.mmu.itlbPermissionOk s.hart.ctx (s.coreInstrReq i) then
          (if Mmu.beyond32 (s.hart.mmu.itlbPa s.hart.ctx (s.coreInstrReq i)) then .accessFault
            else .ok (s.hart.mmu.itlbPa s.hart.ctx (s.coreInstrReq i)) leaf)
        else .pageFault := by
  obtain ⟨leaf, hwalk, hshows⟩ := t.tlbs.itlb_leaf h
  have hpa : s.hart.mmu.itlbPa s.hart.ctx (s.coreInstrReq i) =
      leaf.target (s.hart.mmu.itlbEntry s.hart.ctx (s.coreInstrReq i)).superpage
        (s.coreInstrReq i).addr := hshows.physAddr
  refine ⟨leaf, hshows, ?_⟩
  rw [Mmu.itlbPermissionOk_eq hshows, hpa, fetchTranslation]
  cases hg : leaf.grants .fetch s.hart.ctx.fetchMode with
  | false => exact Sv32.translate_denied hwalk hg
  | true =>
      rw [Sv32.translate_granted hwalk hg, present, if_pos rfl]
      cases Mmu.beyond32 (leaf.target (s.hart.mmu.itlbEntry s.hart.ctx (s.coreInstrReq i)).superpage
          (s.coreInstrReq i).addr) with
      | true => rfl
      | false => rfl

/-- A walk that answers a data request has failed. -/
theorem Translating.failed (h : s.hart.mmu.answersFault s.hart.dReq = true) :
    s.hart.mmu.Failed s.hart.ctx.satp s.mem ∧ s.hart.mmu.walkVaddr = s.hart.dReq.vaddr := by
  simp only [Mmu.answersFault, Bool.and_eq_true, beq_iff_eq] at h
  have hw := t.walk
  simp only [Mmu.WalkOk, h.1.1] at hw
  exact ⟨hw, h.1.2⟩

/-- What a hit denies, the reference walk denies. -/
theorem Translating.hit_faults (p : s.hart.core.csr.PrivWf) (hv : s.hart.dReq.valid = true)
    (ht : s.hart.ctx.dataTranslate = true)
    (hhit : s.hart.mmu.dtlbHit s.hart.ctx s.hart.dReq = true) :
    (s.hart.dRsp.pageFault = true → s.dataTranslation = .pageFault) ∧
      (s.hart.dRsp.accessFault = true → s.dataTranslation = .accessFault) := by
  have hrsp : s.hart.dRsp = s.hart.mmu.dataRsp s.hart.ctx s.hart.dReq := rfl
  obtain ⟨leaf, -, htrans⟩ := t.data_hit p ht hhit
  cases Mmu.dataAnswer (s := s.hart.mmu) hv ht with
  | denied _ no rsp =>
      rw [no, if_neg (by decide)] at htrans
      rw [hrsp, rsp]
      exact ⟨fun _ => htrans, nofun⟩
  | granted _ yes _ rsp =>
      rw [hrsp, rsp]
      refine ⟨nofun, fun hacc => ?_⟩
      have hbeyond : Mmu.beyond32 (s.hart.mmu.dtlbPa s.hart.ctx s.hart.dReq) = true := hacc
      rw [htrans, yes, hbeyond]
      rfl
  | failed miss =>
      rw [hhit] at miss
      cases miss
  | waits rsp =>
      rw [hrsp, rsp]
      exact ⟨nofun, nofun⟩

theorem Translating.sound (p : s.hart.core.csr.PrivWf) : s.TranslatesSoundly i where
  data := by
    intro hv ht hready hpage hacc
    have hrsp : s.hart.dRsp = s.hart.mmu.dataRsp s.hart.ctx s.hart.dReq := rfl
    cases Mmu.dataAnswer (s := s.hart.mmu) hv ht with
    | denied _ _ rsp =>
        rw [hrsp, rsp] at hpage
        cases hpage
    | waits rsp =>
        rw [hrsp, rsp] at hready
        cases hready
    | failed _ fault rsp =>
        rw [hrsp, rsp] at hpage hacc
        cases (t.failed fault).1 with
        | page page =>
            have hno : s.hart.mmu.walkPageFault = false := hpage
            rw [page] at hno
            cases hno
        | access _ access =>
            have hno : s.hart.mmu.walkAccessFault = false := hacc
            rw [access] at hno
            cases hno
    | granted hit yes ad rsp =>
        obtain ⟨leaf, hshows, htrans⟩ := t.data_hit p ht hit
        have hlow : Mmu.beyond32 (s.hart.mmu.dtlbPa s.hart.ctx s.hart.dReq) = false := by
          rw [hrsp, rsp] at hacc
          exact hacc
        rw [yes, hlow, if_pos rfl, if_neg (by decide)] at htrans
        refine ⟨leaf, ?_, hshows.accessed, fun hst => ?_⟩
        · rw [htrans, hrsp, rsp, widen_of_present hlow]
        · simp only [Mmu.dtlbAdReady, hst, Bool.not_true, Bool.false_or, Bool.and_eq_true] at ad
          exact hshows.dirty ad.2
  fetch := by
    intro ht hren
    rw [instrReq_eq] at hren ⊢
    simp only [Mmu.physInstrReq, ht, Bool.not_true, Bool.false_or, Bool.and_eq_true,
      Bool.not_eq_true', if_true] at hren ⊢
    obtain ⟨-, ⟨hhit, hok⟩, hlow⟩ := hren
    obtain ⟨leaf, hshows, htrans⟩ := t.fetch_hit hhit
    rw [hok, hlow, if_pos rfl, if_neg (by decide)] at htrans
    exact ⟨leaf, by rw [htrans, widen_of_present hlow], hshows.accessed⟩
  dataHit := t.hit_faults p
  fetchHit := by
    intro ht hren
    refine ⟨fun hf => ?_, fun hf => ?_⟩
    · simp only [Mmu.instrDirectPageFault, Bool.and_eq_true, Bool.not_eq_true'] at hf
      obtain ⟨leaf, -, htrans⟩ := t.fetch_hit hf.1.2
      rw [htrans, hf.2]
      rfl
    · simp only [Mmu.instrDirectAccessFault, Bool.and_eq_true] at hf
      obtain ⟨leaf, -, htrans⟩ := t.fetch_hit hf.1.1.2
      rw [htrans, hf.1.2, hf.2]
      rfl

end Answers

end Soc

/-! ## Runs -/

/-- The walker is idle and nothing is in the TLBs. -/
structure Mmu.Flushed (s : Mmu) : Prop where
  idle : s.ptwState = .idle
  dtlb : ∀ j, (s.dtlb j).valid = false
  itlb : ∀ j, (s.itlb j).valid = false

theorem Mmu.Flushed.translating {s : Soc} {satp : Word} (f : s.hart.mmu.Flushed)
    (h : s.mem.TablesInDdr (satpPpn satp)) : s.Translating satp where
  walk := by simp only [WalkOk, f.idle]
  tlbs := by
    constructor
    · intro j hj
      rw [f.dtlb j] at hj
      cases hj
    · intro j hj
      rw [f.itlb j] at hj
      cases hj
  ddr := h

/-- From cycle `k` to cycle `n` the tables are in DDR and only the walker writes them, and `satp`
keeps its value; in cycle `k` nothing has been translated yet. -/
structure StableTables (m : Memories) (inp : Nat → SocIn) (k n : Nat) : Prop where
  start : (socRun m inp k).hart.mmu.Flushed
  ddr : (socRun m inp k).mem.TablesInDdr (satpPpn (socRun m inp k).hart.ctx.satp)
  satp : ∀ j, k ≤ j → j ≤ n → (socRun m inp j).hart.ctx.satp = (socRun m inp k).hart.ctx.satp
  kept : ∀ j, k ≤ j → j < n → (socRun m inp j).TablesKept (socRun m inp (j + 1))

theorem socRun_privWf (m : Memories) (inp : Nat → SocIn) (n : Nat) :
    (socRun m inp n).hart.core.csr.PrivWf := by
  induction n with
  | zero => exact PrivCsr.privWf_reset
  | succ n ih => exact ih.next

theorem StableTables.translating {m : Memories} {inp : Nat → SocIn} {k n : Nat}
    (h : StableTables m inp k n) (hk : k ≤ n) :
    (socRun m inp n).Translating (socRun m inp n).hart.ctx.satp := by
  suffices hrun : ∀ d, k + d ≤ n →
      (socRun m inp (k + d)).Translating (socRun m inp k).hart.ctx.satp by
    have hn := hrun (n - k) (by omega)
    rw [show k + (n - k) = n by omega] at hn
    rw [h.satp n hk (Nat.le_refl n)]
    exact hn
  intro d
  induction d with
  | zero => exact fun _ => h.start.translating h.ddr
  | succ d ih =>
      intro hd
      obtain ⟨w, g⟩ := socRun_grants m inp (k + d)
      have b := (socRun_stored m inp (k + d)).1
      exact (ih (by omega)).next w g b (h.satp (k + d) (by omega) (by omega))
        (h.kept (k + d) (by omega) (by omega))

/-- **Translation.** -/
theorem translation_sound (m : Memories) (inp : Nat → SocIn) (k n : Nat) (hk : k ≤ n)
    (h : StableTables m inp k n) : (socRun m inp n).TranslatesSoundly (inp n) :=
  (h.translating hk).sound (socRun_privWf m inp n)

/-! ## A run with tables in DDR -/

/-- The tables are in DDR if the root is, and what its pointers lead to. -/
def Memories.rootInDdr (m : Memories) (root : BitVec 22) : Bool :=
  decide (∀ j : BitVec 10, isDdrRegion ((Sv32.pteAt root j).extractLsb' 0 32) = true ∧
    (m.pte (Sv32.pteAt root j)).all (fun p => p.malformed || p.leaf ||
      decide (∀ l : BitVec 10, isDdrRegion ((Sv32.pteAt p.ppn l).extractLsb' 0 32) = true)) = true)

theorem Memories.tablesInDdr_of_root {m : Memories} {root : BitVec 22}
    (h : m.rootInDdr root = true) : m.TablesInDdr root := by
  have hall := of_decide_eq_true h
  rintro x (⟨k, rfl⟩ | ⟨k, p, j, hp, hm, hl, rfl⟩) -
  · exact (hall k).1
  · have hnext := (hall k).2
    rw [hp, Option.all_some, hm, hl, Bool.false_or, Bool.false_or] at hnext
    exact of_decide_eq_true hnext j

namespace Soc

variable {i : SocIn} {s : Soc}

/-- Nothing is written in this cycle. -/
def writesNothing (i : SocIn) (s : Soc) : Bool :=
  !(s.ramStrobe && s.dataReq.we) && !(s.bridgeRespond i && s.bridge.reqWe)

/-- At most the walker writes, and a `satp` that has been set stays. -/
def walkerOnly (i : SocIn) (s : Soc) : Bool :=
  !(s.ramStrobe && s.dataReq.we) &&
    (!(s.bridgeRespond i && s.bridge.reqWe) || s.hart.mmu.ptwState == .adWait) &&
    (s.hart.ctx.satp == 0#32 || (s.next i).hart.ctx.satp == s.hart.ctx.satp)

theorem mem_of_writesNothing (h : s.writesNothing i = true) : (s.next i).mem = s.mem := by
  simp only [writesNothing, Bool.and_eq_true, Bool.not_eq_true'] at h
  rw [next_mem, memNext, h.1, h.2]
  rfl

theorem walkerOnly_spec (h : s.walkerOnly i = true) :
    s.TablesKept (s.next i) ∧
      (s.hart.ctx.satp ≠ 0#32 → (s.next i).hart.ctx.satp = s.hart.ctx.satp) := by
  simp only [walkerOnly, Bool.and_eq_true, Bool.or_eq_true, beq_iff_eq] at h
  obtain ⟨⟨hram, hddr⟩, hsatp⟩ := h
  refine ⟨fun x _ hne => ?_, fun hz => hsatp.resolve_left hz⟩
  by_contra hno
  have hmem : (s.next i).mem = s.mem := mem_of_writesNothing (by
    rw [writesNothing, hram]
    exact hddr.resolve_right hno)
  rw [hmem] at hne
  exact hne rfl

end Soc

/-- A run in which the tables are set up from the beginning. -/
theorem stableTables_of_run {m : Memories} {inp : Nat → SocIn} {k n : Nat}
    (hquiet : Clocked.always Soc.next Soc.writesNothing inp (Soc.reset m) k = true)
    (hrun : Clocked.always Soc.next Soc.walkerOnly inp (Soc.reset m) n = true)
    (hstart : (socRun m inp k).hart.mmu.Flushed) (hne : (socRun m inp k).hart.ctx.satp ≠ 0#32)
    (hroot : m.rootInDdr (satpPpn (socRun m inp k).hart.ctx.satp) = true) :
    StableTables m inp k n := by
  have hmem : ∀ j, j ≤ k → (socRun m inp j).mem = m := by
    intro j
    induction j with
    | zero => exact fun _ => rfl
    | succ j ih =>
        intro hj
        have hsame : (socRun m inp (j + 1)).mem = (socRun m inp j).mem :=
          Soc.mem_of_writesNothing (Clocked.always_iff.mp hquiet j (by omega))
        exact hsame.trans (ih (by omega))
  have hstep : ∀ j, j < n → (socRun m inp j).TablesKept (socRun m inp (j + 1)) ∧
      ((socRun m inp j).hart.ctx.satp ≠ 0#32 →
        (socRun m inp (j + 1)).hart.ctx.satp = (socRun m inp j).hart.ctx.satp) := fun j hj =>
    Soc.walkerOnly_spec (Clocked.always_iff.mp hrun j hj)
  have hsatp : ∀ d, k + d ≤ n →
      (socRun m inp (k + d)).hart.ctx.satp = (socRun m inp k).hart.ctx.satp := by
    intro d
    induction d with
    | zero => exact fun _ => rfl
    | succ d ih =>
        intro hd
        have hold := ih (by omega)
        exact ((hstep (k + d) (by omega)).2 (by rw [hold]; exact hne)).trans hold
  refine ⟨hstart, ?_, fun j hj hjn => ?_, fun j _ hjn => (hstep j hjn).1⟩
  · rw [hmem k (Nat.le_refl k)]
    exact Memories.tablesInDdr_of_root hroot
  · have hd := hsatp (j - k) (by omega)
    rwa [show k + (j - k) = j by omega] at hd

/-- A program that goes to supervisor mode under page tables in DDR. -/
def underTables (entry : Word × Word) (code tables : List (Nat × Word)) : Memories :=
  Memories.ofWords
    ([(0, 0x800800b7#32), (1, 0x00108093#32), (2, 0x18009073#32), (3, 0x00001137#32),
      (4, 0x80010113#32), (5, 0x30011073#32), (6, entry.1), (7, entry.2), (8, 0x34119073#32),
      (9, 0x30200073#32)] ++ code) [] tables

/-- It stores a word through a superpage. -/
def storesUnderTables : Memories :=
  underTables (0x004001b7#32, 0x04018193#32) [(16, 0x80000337#32), (17, 0x00232423#32)]
    [(0x20000401, 0x0000000f#32), (0x20000600, 0x20000007#32)]

/-- The store is translated as the walk translates it. -/
theorem storesUnderTables_sound :
    (socRun storesUnderTables quietSoc 45).hart.ctx.dataTranslate = true ∧
      (socRun storesUnderTables quietSoc 45).hart.dReq.valid = true ∧
      (socRun storesUnderTables quietSoc 45).hart.dRsp.ready = true ∧
      (socRun storesUnderTables quietSoc 45).TranslatesSoundly (quietSoc 45) := by
  have hstart : (socRun storesUnderTables quietSoc 7).hart.mmu.Flushed :=
    ⟨by decide +kernel, by decide +kernel, by decide +kernel⟩
  have hsatp : (socRun storesUnderTables quietSoc 7).hart.ctx.satp = 0x80080001#32 := by
    decide +kernel
  refine ⟨by decide +kernel, by decide +kernel, by decide +kernel,
    translation_sound storesUnderTables quietSoc 7 45 (by decide) (stableTables_of_run
      (by decide +kernel) (by decide +kernel) hstart ?_ ?_)⟩
  · rw [hsatp]
    decide
  · rw [hsatp]
    decide +kernel

end MelonSoc
