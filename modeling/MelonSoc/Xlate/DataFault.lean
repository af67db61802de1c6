import MelonSoc.Xlate.Translation

set_option autoImplicit false

/-! # Faults of data accesses

The walker keeps a fault for the data request with the address and the direction of its walk. That
walk need not have been for a data access, nor with the permissions of now: the answer is right
unless it comes from the permission test of such a walk, on a leaf that grants the request.
-/

namespace MelonSoc

open Sv32 (Pte LeadsTo)

namespace Mmu

/-- The walk has come to a well-formed leaf, that is not in the root with a misaligned page. -/
def failedOnLeaf (satp : Word) (s : Mmu) : Bool :=
  !pteInvalid s.walkPte && pteLeaf s.walkPte &&
    !(s.walkPteAddr == pteAddr (satpPpn satp) (vpn1Of s.walkVaddr) &&
      s.walkPte.extractLsb' 10 10 != 0#10)

/-- The walk was for a fetch, or with other permissions than those of a data access now. -/
def foreignWalk (c : XlateCtx) (s : Mmu) : Bool :=
  s.walkIsInstr || s.walkPriv != c.effectivePriv || s.walkSum != c.sum || s.walkMxr != c.mxr

/-- The data request is answered by a foreign walk, which was denied a leaf that grants the
request. -/
def misjudges (c : XlateCtx) (q : DReq) (s : Mmu) : Bool :=
  q.valid && c.dataTranslate && !s.dtlbHit c q && s.answersFault q && s.walkPageFault &&
    s.foreignWalk c && s.failedOnLeaf c.satp &&
    ptePermissionOk s.walkPte q.store c.effectivePriv c.sum c.mxr

variable {satp : Word} {m : Memories} {s : Mmu} {superpage : Bool}

/-- The level of an entry shows in its address. -/
theorem failedOnLeaf_eq (place : s.AtEntry satp m superpage)
    (entry : m.pte (widen s.walkPteAddr) = some s.walkPte) :
    s.failedOnLeaf satp = Pte.accepted superpage s.walkPte := by
  have hshape : ∀ b : Bool, (s.walkPteAddr == pteAddr (satpPpn satp) (vpn1Of s.walkVaddr)) = b →
      s.failedOnLeaf satp = (!Pte.malformed s.walkPte && Pte.leaf s.walkPte &&
        !(b && Pte.misaligned s.walkPte)) := by
    rintro b rfl
    rfl
  have hroot : pteAddr (satpPpn satp) (vpn1Of s.walkVaddr) =
      (Sv32.pteAt (satpPpn satp) (Sv32.vpn1 s.walkVaddr)).extractLsb' 0 32 := pteAddr_eq _ _
  have hplace : LeadsTo m.pte (satpPpn satp) s.walkVaddr superpage (widen s.walkPteAddr) := place
  generalize hx : widen s.walkPteAddr = x at hplace entry
  cases hplace with
  | root =>
      have haddr : s.walkPteAddr = pteAddr (satpPpn satp) (vpn1Of s.walkVaddr) := by
        rw [hroot, ← hx, widen_low]
      exact hshape true (beq_iff_eq.mpr haddr)
  | below h hm hl =>
      cases hleaf : Pte.leaf s.walkPte with
      | false =>
          have hleaf' : pteLeaf s.walkPte = false := hleaf
          simp [failedOnLeaf, Pte.accepted, hleaf, hleaf']
      | true =>
          -- the entry of the root is a pointer
          have haddr : s.walkPteAddr ≠ pteAddr (satpPpn satp) (vpn1Of s.walkVaddr) := by
            intro haddr
            have hhigh := (Memories.pte_isSome.mp (Option.isSome_of_eq_some h)).1
            rw [← hx, haddr, hroot, ← eq_widen hhigh, h] at entry
            cases entry
            rw [hleaf] at hl
            cases hl
          exact hshape false (beq_eq_false_iff_ne.mpr haddr)

end Mmu

namespace Soc

variable {i : SocIn} {s : Soc}

/-- A translated data access is told a fault only where the reference walk ends in that fault. -/
structure FaultsExact (s : Soc) : Prop where
  page : s.hart.dReq.valid = true → s.hart.ctx.dataTranslate = true → s.hart.dRsp.ready = true →
    s.hart.dRsp.pageFault = true → s.dataTranslation = .pageFault
  access : s.hart.dReq.valid = true → s.hart.ctx.dataTranslate = true →
    s.hart.dRsp.ready = true → s.hart.dRsp.accessFault = true → s.dataTranslation = .accessFault

/-- The request that a failed walk answers is that of the walk. -/
theorem answersFault_spec (h : s.hart.mmu.answersFault s.hart.dReq = true) :
    s.hart.mmu.walkVaddr = s.hart.dReq.vaddr ∧ s.hart.mmu.walkStore = s.hart.dReq.store := by
  simp only [Mmu.answersFault, Bool.and_eq_true, beq_iff_eq] at h
  exact ⟨h.1.2, h.2⟩

section Answers

variable (t : s.Translating s.hart.ctx.satp) (p : s.hart.core.csr.PrivWf)

include t p

/-- The leaf that a walk was denied grants the data request, or its permission test denies it. -/
theorem Translating.denied_leaf (ht : s.hart.ctx.dataTranslate = true)
    (hf : s.hart.mmu.answersFault s.hart.dReq = true) (hpage : s.hart.mmu.walkPageFault = true) :
    s.dataTranslation = .pageFault ↔
      (s.hart.mmu.failedOnLeaf s.hart.ctx.satp &&
        ptePermissionOk s.hart.mmu.walkPte s.hart.dReq.store s.hart.ctx.effectivePriv
          s.hart.ctx.sum s.hart.ctx.mxr) = false := by
  have hm : s.hart.ctx.effectivePriv ≠ privM := by
    simp only [XlateCtx.dataTranslate, Bool.and_eq_true, bne_iff_ne] at ht
    exact ht.2
  have hr := XlateCtx.effectivePriv_legal (c := s.hart.ctx) p.priv p.mpp
  obtain ⟨hfailed, hva⟩ := t.failed hf
  cases hfailed with
  | access noPage =>
      rw [noPage] at hpage
      cases hpage
  | page _ _ place entry ends denied =>
      have hend := place.ends entry ends
      rw [hva] at hend
      rw [Mmu.failedOnLeaf_eq place entry, ptePermissionOk_eq _ _ _ _ hm hr, dataTranslation]
      split at hend
      · rename_i hacc
        rw [hacc, Bool.true_and]
        show _ ↔ Pte.grants s.hart.dReq.access s.hart.ctx.dataMode s.hart.mmu.walkPte = false
        cases hg : Pte.grants s.hart.dReq.access s.hart.ctx.dataMode s.hart.mmu.walkPte with
        | false => simp [Sv32.translate_denied hend hg]
        | true =>
            rw [Sv32.translate_granted hend hg]
            split
            · simp
            · simp
      · rename_i hacc
        rw [Bool.not_eq_true] at hacc
        simp [hacc, Sv32.translate_pageFault hend]

/-- A walk of the data side with the permissions of now judges the request itself. -/
theorem Translating.own_walk (ht : s.hart.ctx.dataTranslate = true)
    (hf : s.hart.mmu.answersFault s.hart.dReq = true) (hpage : s.hart.mmu.walkPageFault = true)
    (hown : s.hart.mmu.foreignWalk s.hart.ctx = false) : s.dataTranslation = .pageFault := by
  rw [t.denied_leaf p ht hf hpage]
  simp only [Mmu.foreignWalk, Bool.or_eq_false_iff, bne_eq_false_iff_eq] at hown
  obtain ⟨⟨⟨hinstr, hpriv⟩, hsum⟩, hmxr⟩ := hown
  have hok : s.hart.mmu.walkPermissionOk =
      ptePermissionOk s.hart.mmu.walkPte s.hart.dReq.store s.hart.ctx.effectivePriv
        s.hart.ctx.sum s.hart.ctx.mxr := by
    rw [Mmu.walkPermissionOk, hinstr, if_neg (by decide), (answersFault_spec hf).2, hpriv, hsum,
      hmxr]
  cases (t.failed hf).1 with
  | access noPage =>
      rw [noPage] at hpage
      cases hpage
  | page _ _ place entry _ denied =>
      rw [Mmu.failedOnLeaf_eq place entry, ← hok]
      exact denied

/-- **Data faults.** They are exact unless a foreign walk misjudges the request. -/
theorem Translating.faultsExact_iff : s.FaultsExact ↔
    s.hart.mmu.misjudges s.hart.ctx s.hart.dReq = false := by
  have hrsp : s.hart.dRsp = s.hart.mmu.dataRsp s.hart.ctx s.hart.dReq := rfl
  constructor
  · intro h
    by_contra hno
    simp only [Mmu.misjudges, Bool.not_eq_false, Bool.and_eq_true, Bool.not_eq_true'] at hno
    obtain ⟨⟨⟨⟨⟨⟨⟨hv, ht⟩, hmiss⟩, hf⟩, hpage⟩, -⟩, hleaf⟩, hok⟩ := hno
    have htrans : s.dataTranslation = .pageFault := by
      cases Mmu.dataAnswer (s := s.hart.mmu) hv ht with
      | failed _ _ rsp =>
          refine h.page hv ht ?_ ?_
          · rw [hrsp, rsp]
          · rw [hrsp, rsp]
            exact hpage
      | denied hit =>
          rw [hit] at hmiss
          cases hmiss
      | granted hit =>
          rw [hit] at hmiss
          cases hmiss
      | waits rsp =>
          have hready := congrArg DRsp.ready rsp
          unfold Mmu.answersFault at hf
          simp [Mmu.dataRsp, hv, ht, hmiss, hf] at hready
    rw [t.denied_leaf p ht hf hpage, hleaf, hok] at htrans
    cases htrans
  · intro hno
    constructor
    · intro hv ht hready hpf
      cases Mmu.dataAnswer (s := s.hart.mmu) hv ht with
      | denied hit => exact (t.hit_faults p hv ht hit).1 hpf
      | granted hit => exact (t.hit_faults p hv ht hit).1 hpf
      | waits rsp =>
          rw [hrsp, rsp] at hready
          cases hready
      | failed miss fault rsp =>
          have hpage : s.hart.mmu.walkPageFault = true := by
            rw [hrsp, rsp] at hpf
            exact hpf
          cases hown : s.hart.mmu.foreignWalk s.hart.ctx with
          | false => exact t.own_walk p ht fault hpage hown
          | true =>
              rw [t.denied_leaf p ht fault hpage]
              simpa [Mmu.misjudges, hv, ht, miss, fault, hpage, hown] using hno
    · intro hv ht hready haf
      cases Mmu.dataAnswer (s := s.hart.mmu) hv ht with
      | denied hit => exact (t.hit_faults p hv ht hit).2 haf
      | granted hit => exact (t.hit_faults p hv ht hit).2 haf
      | waits rsp =>
          rw [hrsp, rsp] at hready
          cases hready
      | failed miss fault rsp =>
          have hacc : s.hart.mmu.walkAccessFault = true := by
            rw [hrsp, rsp] at haf
            exact haf
          obtain ⟨hfailed, hva⟩ := t.failed fault
          cases hfailed with
          | page _ noAccess =>
              rw [noAccess] at hacc
              cases hacc
          | access _ _ ends =>
              rw [hva] at ends
              exact Sv32.translate_accessFault ends

end Answers

end Soc

/-- **Data faults.** With page tables as in `translation_sound`, faults are exact in a cycle if and
only if no foreign walk misjudges the request in it. -/
theorem faults_exact_iff (m : Memories) (inp : Nat → SocIn) (k n : Nat) (hk : k ≤ n)
    (h : StableTables m inp k n) : (socRun m inp n).FaultsExact ↔
      (socRun m inp n).hart.mmu.misjudges (socRun m inp n).hart.ctx (socRun m inp n).hart.dReq
        = false :=
  (h.translating hk).faultsExact_iff (socRun_privWf m inp n)

/-- Under these tables the page behind the code is readable, and neither writable nor executable. -/
def readOnlyBehindEnd (entry : Word × Word) (code : List (Nat × Word)) : Memories :=
  underTables entry code
    [(0x20000401, 0x20000801#32), (0x20000800, 0x4b#32), (0x20000801, 0x4043#32)]

theorem readOnlyBehindEnd_inDdr (entry : Word × Word) (code : List (Nat × Word)) :
    (readOnlyBehindEnd entry code).rootInDdr (satpPpn 0x80080001#32) = true := by
  have hsame : (readOnlyBehindEnd entry code).rootInDdr (satpPpn 0x80080001#32) =
      (readOnlyBehindEnd (0#32, 0#32) []).rootInDdr (satpPpn 0x80080001#32) := rfl
  rw [hsame]
  decide +kernel

/-- A store to that page. -/
def storesToReadOnly : Memories :=
  readOnlyBehindEnd (0x004001b7#32, 0x04018193#32) [(16, 0x004012b7#32), (17, 0x0022a023#32)]

/-- The store is told a page fault by its own walk. -/
theorem storesToReadOnly_exact :
    (socRun storesToReadOnly quietSoc 46).hart.dRsp.pageFault = true ∧
      (socRun storesToReadOnly quietSoc 46).FaultsExact := by
  have hstart : (socRun storesToReadOnly quietSoc 7).hart.mmu.Flushed :=
    ⟨by decide +kernel, by decide +kernel, by decide +kernel⟩
  have hsatp : (socRun storesToReadOnly quietSoc 7).hart.ctx.satp = 0x80080001#32 := by
    decide +kernel
  refine ⟨by decide +kernel, (faults_exact_iff storesToReadOnly quietSoc 7 46 (by decide)
    (stableTables_of_run (by decide +kernel) (by decide +kernel) hstart ?_ ?_)).mpr
    (by decide +kernel)⟩
  · rw [hsatp]
    decide
  · rw [hsatp]
    exact readOnlyBehindEnd_inDdr _ _

/-- A load from that page at the end of the code. -/
def loadsBehindEnd : Memories :=
  readOnlyBehindEnd (0x004011b7#32, 0xff818193#32) [(1022, 0x004012b7#32), (1023, 0x0002a203#32)]

/-- The frontend fetches from the page, too, and the load is told the page fault of the fetch. -/
theorem load_told_fetch_fault : ¬ ∀ m inp k n, k ≤ n → StableTables m inp k n →
    (socRun m inp n).FaultsExact := by
  intro h
  have hstart : (socRun loadsBehindEnd quietSoc 7).hart.mmu.Flushed :=
    ⟨by decide +kernel, by decide +kernel, by decide +kernel⟩
  have hsatp : (socRun loadsBehindEnd quietSoc 7).hart.ctx.satp = 0x80080001#32 := by
    decide +kernel
  have hne : (socRun loadsBehindEnd quietSoc 7).hart.ctx.satp ≠ 0#32 := by
    rw [hsatp]
    decide
  have hroot : loadsBehindEnd.rootInDdr
      (satpPpn (socRun loadsBehindEnd quietSoc 7).hart.ctx.satp) = true := by
    rw [hsatp]
    exact readOnlyBehindEnd_inDdr _ _
  have hpage := (h loadsBehindEnd quietSoc 7 43 (by decide)
    (stableTables_of_run (by decide +kernel) (by decide +kernel) hstart hne hroot)).page
    (by decide +kernel) (by decide +kernel) (by decide +kernel) (by decide +kernel)
  revert hpage
  decide +kernel

end MelonSoc
