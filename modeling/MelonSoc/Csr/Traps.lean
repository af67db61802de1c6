import MelonSoc.Csr.Interrupts
import MelonSoc.Xlate.Context

set_option autoImplicit false

/-! # Trap entry and return

A trap saves the privilege and the interrupt enable in `mstatus` and the pc in `xepc`, and the
return takes them back. Between the two there are cycles that neither trap nor return nor write a
CSR, and in an S-mode handler traps to M-mode with their MRET.
-/

namespace MelonSoc

namespace PrivCsr

/-! ## Handlers -/

/-- A cycle without a trap, a return or a CSR write. -/
def quiet (i : PrivIn) (s : PrivCsr) : Bool :=
  !s.trapTaken i && !s.returnTaken i && !s.csrWriteTaken i

/-- Some quiet cycles. -/
inductive Quiet : PrivCsr → PrivCsr → Prop
  | refl (s : PrivCsr) : Quiet s s
  | step {s t : PrivCsr} (i : PrivIn) (h : s.quiet i = true) (rest : Quiet (s.next i) t) : Quiet s t

/-- A trap to M-mode, its handler, and MRET: from the cycle of the trap to the one behind MRET. -/
structure MTrap (i : PrivIn) (s : PrivCsr) (j : PrivIn) (s2 : PrivCsr) : Prop where
  trap : s.trapTaken i = true
  toM : s.trapToS i = false
  handler : Quiet (s.next i) s2
  ret : s2.returnTaken j = true
  mret : j.mret = true

/-- The cycles of an S-mode handler: quiet ones and traps to M-mode. -/
inductive SHandler : PrivCsr → PrivCsr → Prop
  | refl (s : PrivCsr) : SHandler s s
  | step {s t : PrivCsr} (i : PrivIn) (h : s.quiet i = true) (rest : SHandler (s.next i) t) :
      SHandler s t
  | nested {s s2 t : PrivCsr} (i j : PrivIn) (h : MTrap i s j s2) (rest : SHandler (s2.next j) t) :
      SHandler s t

/-- A trap to S-mode, its handler, and SRET. -/
structure STrap (handler : PrivCsr → PrivCsr → Prop) (i : PrivIn) (s : PrivCsr) (j : PrivIn)
    (s2 : PrivCsr) : Prop where
  trap : s.trapTaken i = true
  toS : s.trapToS i = true
  handler : handler (s.next i) s2
  ret : s2.returnTaken j = true
  sret : j.mret = false

/-! ## What is left unchanged -/

/-- The registers apart from the counters. -/
def SameButCounters (s s' : PrivCsr) : Prop :=
  s' = { s with cycleCounter := s'.cycleCounter, instretCounter := s'.instretCounter }

theorem SameButCounters.refl (s : PrivCsr) : SameButCounters s s := rfl

theorem SameButCounters.trans {a b c : PrivCsr} (h1 : SameButCounters a b)
    (h2 : SameButCounters b c) : SameButCounters a c := by
  unfold SameButCounters at *
  rw [h2, h1]

theorem sameButCounters_tick (retire : Bool) (s : PrivCsr) :
    SameButCounters s (s.tickCounters retire) := rfl

theorem quiet_next {i : PrivIn} {s : PrivCsr} (h : s.quiet i = true) :
    s.next i = s.tickCounters i.retire := by
  simp only [quiet, Bool.and_eq_true, Bool.not_eq_true'] at h
  obtain ⟨⟨htrap, hret⟩, hwrite⟩ := h
  simp only [next, htrap, hret, hwrite, Bool.false_eq_true, if_false]

theorem Quiet.same {s t : PrivCsr} (h : Quiet s t) : SameButCounters s t := by
  induction h with
  | refl s => exact .refl s
  | step i hq _ ih =>
      rw [quiet_next hq] at ih
      exact (sameButCounters_tick i.retire _).trans ih

/-! ## The bits of `mstatus` -/

section Bits

variable {w : Word} {k : Nat}

theorem getLsbD_setMpp (p : BitVec 2) : (setMpp w p).getLsbD k =
    if k = 11 then p.getLsbD 0 else if k = 12 then p.getLsbD 1 else w.getLsbD k := by
  rw [setMpp, getLsbD_setBit (by decide), getLsbD_setBit (by decide)]

/-- `mstatus` behind a trap to M-mode from privilege `p`. -/
def mEntry (p : BitVec 2) (w : Word) : Word :=
  setMpp (setBit (setBit w 7 (w.getLsbD 3)) 3 false) p

/-- `mstatus` behind a trap to S-mode from privilege `p`. -/
def sEntry (p : BitVec 2) (w : Word) : Word :=
  setBit (setBit (setBit w 5 (w.getLsbD 1)) 1 false) 8 (p == privS)

theorem getLsbD_mEntry (p : BitVec 2) : (mEntry p w).getLsbD k =
    if k = 11 then p.getLsbD 0 else if k = 12 then p.getLsbD 1 else if k = 3 then false
    else if k = 7 then w.getLsbD 3 else w.getLsbD k := by
  rw [mEntry, getLsbD_setMpp, getLsbD_setBit (by decide), getLsbD_setBit (by decide)]

theorem getLsbD_sEntry (p : BitVec 2) : (sEntry p w).getLsbD k =
    if k = 8 then p == privS else if k = 1 then false else if k = 5 then w.getLsbD 1
    else w.getLsbD k := by
  rw [sEntry, getLsbD_setBit (by decide), getLsbD_setBit (by decide), getLsbD_setBit (by decide)]

theorem mppOf_mEntry (p : BitVec 2) : mppOf (mEntry p w) = p := mppOf_setMpp _ p

/-- `mstatus` behind MRET. -/
theorem getLsbD_mretUpdate (s : PrivCsr) : s.mretUpdate.mstatus.getLsbD k =
    if k = 11 ∨ k = 12 then false
    else if k = 17 ∧ mppOf s.mstatus ≠ privM then false
    else if k = 7 then true
    else if k = 3 then s.mstatus.getLsbD 7 else s.mstatus.getLsbD k := by
  unfold mretUpdate
  dsimp only
  by_cases hm : mppOf s.mstatus = privM
  · have hno : (mppOf s.mstatus != privM) = false := by simpa using hm
    rw [hno, if_neg Bool.false_ne_true, getLsbD_setMpp, getLsbD_setBit (by decide),
      getLsbD_setBit (by decide)]
    grind [privU]
  · have hyes : (mppOf s.mstatus != privM) = true := by simpa using hm
    rw [hyes, if_pos rfl, getLsbD_setMpp, getLsbD_setBit (by decide), getLsbD_setBit (by decide),
      getLsbD_setBit (by decide)]
    grind [privU]

/-- `mstatus` behind SRET. -/
theorem getLsbD_sretUpdate (s : PrivCsr) : s.sretUpdate.mstatus.getLsbD k =
    if k = 17 then false else if k = 8 then false else if k = 5 then true
    else if k = 1 then s.mstatus.getLsbD 5 else s.mstatus.getLsbD k := by
  unfold sretUpdate
  rw [getLsbD_setBit (by decide), getLsbD_setBit (by decide), getLsbD_setBit (by decide),
    getLsbD_setBit (by decide)]

end Bits

/-! ## Behind the return -/

/-- What MRET makes of `s2` behind a trap to M-mode in `s`, that interrupted the pc of `i`. -/
structure MReturned (i : PrivIn) (s : PrivCsr) (j : PrivIn) (s2 : PrivCsr) : Prop where
  privilege : (s2.next j).currentPriv = s.currentPriv
  resumes : s2.redirectValid j = true ∧ s2.redirectPc j = clearBit0 i.exPc
  /-- MPIE is set, MPP is U and MPRV is clear below M-mode; MIE is as before. -/
  mstatus : ∀ k, (s2.next j).mstatus.getLsbD k =
    if k = 7 then true
    else if k = 11 ∨ k = 12 then false
    else if k = 17 ∧ s.currentPriv ≠ privM then false else s.mstatus.getLsbD k
  rest : s2.next j =
    { s with mstatus := (s2.next j).mstatus, mepc := (s2.next j).mepc
             mcause := (s2.next j).mcause, mtval := (s2.next j).mtval
             cycleCounter := (s2.next j).cycleCounter
             instretCounter := (s2.next j).instretCounter }

/-- What SRET restores behind a trap to S-mode. -/
structure SResumes (i : PrivIn) (s : PrivCsr) (j : PrivIn) (s2 : PrivCsr) : Prop where
  privilege : (s2.next j).currentPriv = s.currentPriv
  resumes : s2.redirectValid j = true ∧ s2.redirectPc j = clearBit0 i.exPc
  sie : (s2.next j).mstatus.getLsbD 1 = s.mstatus.getLsbD 1

/-- What SRET makes of `s2` when no trap came between. -/
structure SReturned (i : PrivIn) (s : PrivCsr) (j : PrivIn) (s2 : PrivCsr) : Prop
    extends SResumes i s j s2 where
  /-- SPIE is set, SPP is U and MPRV is clear; SIE is as before. -/
  mstatus : ∀ k, (s2.next j).mstatus.getLsbD k =
    if k = 5 then true else if k = 8 ∨ k = 17 then false else s.mstatus.getLsbD k
  rest : s2.next j =
    { s with mstatus := (s2.next j).mstatus, sepc := (s2.next j).sepc
             scause := (s2.next j).scause, stval := (s2.next j).stval
             cycleCounter := (s2.next j).cycleCounter
             instretCounter := (s2.next j).instretCounter }

/-- The context of an S-mode handler. -/
structure SameContext (s s' : PrivCsr) : Prop where
  priv : s'.currentPriv = s.currentPriv
  sie : s'.mstatus.getLsbD 1 = s.mstatus.getLsbD 1
  spie : s'.mstatus.getLsbD 5 = s.mstatus.getLsbD 5
  spp : s'.mstatus.getLsbD 8 = s.mstatus.getLsbD 8
  sepc : s'.sepc = s.sepc
  scause : s'.scause = s.scause
  stval : s'.stval = s.stval

theorem SameContext.refl (s : PrivCsr) : SameContext s s := ⟨rfl, rfl, rfl, rfl, rfl, rfl, rfl⟩

theorem SameContext.trans {a b c : PrivCsr} (h1 : SameContext a b) (h2 : SameContext b c) :
    SameContext a c where
  priv := h2.priv.trans h1.priv
  sie := h2.sie.trans h1.sie
  spie := h2.spie.trans h1.spie
  spp := h2.spp.trans h1.spp
  sepc := h2.sepc.trans h1.sepc
  scause := h2.scause.trans h1.scause
  stval := h2.stval.trans h1.stval

theorem SameButCounters.sameContext {s s' : PrivCsr} (h : SameButCounters s s') :
    SameContext s s' := by
  unfold SameButCounters at h
  rw [h]
  exact ⟨rfl, rfl, rfl, rfl, rfl, rfl, rfl⟩

section Returns

variable {i j : PrivIn} {s s2 t : PrivCsr}

/-- A trap to M-mode, without the counters. -/
theorem next_mTrap (h : s.trapTaken i = true) (htoM : s.trapToS i = false) :
    ∃ cause tval, SameButCounters
      { s with mepc := clearBit0 i.exPc, mcause := cause, mtval := tval
               mstatus := mEntry s.currentPriv s.mstatus, currentPriv := privM } (s.next i) := by
  refine ⟨(s.next i).mcause, (s.next i).mtval, ?_⟩
  rw [next_trap h, enterTrap, trapToS_tick, htoM, if_neg Bool.false_ne_true]
  rfl

/-- A trap to S-mode, without the counters. -/
theorem next_sTrap (h : s.trapTaken i = true) (htoS : s.trapToS i = true) :
    ∃ cause tval, SameButCounters
      { s with sepc := clearBit0 i.exPc, scause := cause, stval := tval
               mstatus := sEntry s.currentPriv s.mstatus, currentPriv := privS } (s.next i) := by
  refine ⟨(s.next i).scause, (s.next i).stval, ?_⟩
  rw [next_trap h, enterTrap, trapToS_tick, htoS, if_pos rfl]
  rfl

/-- A return is not a trap. -/
theorem not_trap_of_return (h : s.returnTaken i = true) : s.trapTaken i = false := by
  simp only [returnTaken, Bool.and_eq_true, Bool.not_eq_true'] at h
  exact h.1.1.2

theorem next_return (h : s.returnTaken i = true) : s.next i =
    if i.mret then (s.tickCounters i.retire).mretUpdate
    else (s.tickCounters i.retire).sretUpdate := by
  simp only [next, not_trap_of_return h, h, Bool.false_eq_true, if_false, if_true]

theorem redirect_return (h : s.returnTaken i = true) : s.redirectValid i = true ∧
    s.redirectPc i = if i.mret then s.mepc else s.sepc := by
  refine ⟨by rw [redirectValid, h, Bool.or_true], ?_⟩
  rw [redirectPc, not_trap_of_return h, if_neg Bool.false_ne_true, if_pos h]

/-- MRET, without the counters. -/
theorem next_mret (h : s.returnTaken i = true) (hm : i.mret = true) : SameButCounters
    { s with currentPriv := mppOf s.mstatus, mstatus := s.mretUpdate.mstatus } (s.next i) := by
  rw [next_return h, if_pos hm]
  rfl

/-- SRET, without the counters. -/
theorem next_sret (h : s.returnTaken i = true) (hm : i.mret = false) : SameButCounters
    { s with currentPriv := if s.mstatus.getLsbD 8 then privS else privU
             mstatus := s.sretUpdate.mstatus } (s.next i) := by
  rw [next_return h, hm, if_neg Bool.false_ne_true]
  rfl

/-- A trap to M-mode and its MRET. -/
theorem MTrap.returned (h : MTrap i s j s2) : MReturned i s j s2 := by
  obtain ⟨cause, tval, hentry⟩ := next_mTrap h.trap h.toM
  have hs2 := hentry.trans h.handler.same
  have hs3 := next_mret h.ret h.mret
  unfold SameButCounters at hs2 hs3
  have hmst : s2.mstatus = mEntry s.currentPriv s.mstatus := by rw [hs2]
  have hmpp : mppOf s2.mstatus = s.currentPriv := by rw [hmst, mppOf_mEntry]
  have hmst3 : (s2.next j).mstatus = s2.mretUpdate.mstatus := by rw [hs3]
  rw [hmpp] at hs3
  refine ⟨by rw [hs3], ?_, fun k => ?_, ?_⟩
  · obtain ⟨hvalid, hpc⟩ := redirect_return h.ret
    refine ⟨hvalid, ?_⟩
    rw [hpc, if_pos h.mret, hs2]
  · rw [hmst3, getLsbD_mretUpdate, hmpp, hmst, getLsbD_mEntry, getLsbD_mEntry]
    grind
  · generalize s2.next j = s3 at hs3
    rw [hs3, hs2]

/-- The context of S-mode through a trap to M-mode. -/
theorem MReturned.sameContext (h : MReturned i s j s2) : SameContext s (s2.next j) where
  priv := h.privilege
  sie := by simpa using h.mstatus 1
  spie := by simpa using h.mstatus 5
  spp := by simpa using h.mstatus 8
  sepc := by rw [h.rest]
  scause := by rw [h.rest]
  stval := by rw [h.rest]

theorem SHandler.sameContext (h : SHandler s t) : SameContext s t := by
  induction h with
  | refl s => exact .refl s
  | step i hq _ ih =>
      have hstep := sameButCounters_tick i.retire
      rw [quiet_next hq] at ih
      exact (hstep _).sameContext.trans ih
  | nested i j hm _ ih => exact hm.returned.sameContext.trans ih

/-- A trap to S-mode comes from below M-mode. -/
theorem not_machine_of_trapToS (h : s.trapToS i = true) : s.currentPriv ≠ privM := by
  intro hm
  rw [trapToS] at h
  split at h
  · simp [hm] at h
  · simp [interruptToS, hm] at h

/-- SPP holds the privilege. -/
theorem spp_restores (w : s.PrivWf) (h : s.trapToS i = true) :
    (if s.currentPriv == privS then privS else privU) = s.currentPriv := by
  have hpriv : ∀ p : BitVec 2, p ≠ 0b10#2 → p ≠ privM →
      (if p == privS then privS else privU) = p := by decide
  exact hpriv _ w.priv (not_machine_of_trapToS h)

theorem STrap.resumes {handler : PrivCsr → PrivCsr → Prop} (w : s.PrivWf)
    (h : STrap handler i s j s2) (hctx : SameContext (s.next i) s2) : SResumes i s j s2 := by
  obtain ⟨cause, tval, hentry⟩ := next_sTrap h.trap h.toS
  have hs3 := next_sret h.ret h.sret
  unfold SameButCounters at hentry hs3
  have hmst : (s.next i).mstatus = sEntry s.currentPriv s.mstatus := by rw [hentry]
  have hspp : s2.mstatus.getLsbD 8 = (s.currentPriv == privS) := by
    rw [hctx.spp, hmst, getLsbD_sEntry, if_pos rfl]
  have hspie : s2.mstatus.getLsbD 5 = s.mstatus.getLsbD 1 := by
    rw [hctx.spie, hmst, getLsbD_sEntry]
    rfl
  refine ⟨?_, ?_, ?_⟩
  · rw [hs3, hspp]
    exact spp_restores w h.toS
  · obtain ⟨hvalid, hpc⟩ := redirect_return h.ret
    refine ⟨hvalid, ?_⟩
    rw [hpc, h.sret, if_neg Bool.false_ne_true, hctx.sepc, hentry]
  · have hmst3 : (s2.next j).mstatus = s2.sretUpdate.mstatus := by rw [hs3]
    rw [hmst3, getLsbD_sretUpdate, hspie]
    rfl

/-- A trap to S-mode and its SRET. -/
theorem STrap.returned (w : s.PrivWf) (h : STrap Quiet i s j s2) : SReturned i s j s2 := by
  have hres := h.resumes w h.handler.same.sameContext
  obtain ⟨cause, tval, hentry⟩ := next_sTrap h.trap h.toS
  have hs2 := hentry.trans h.handler.same
  have hs3 := next_sret h.ret h.sret
  unfold SameButCounters at hs2 hs3
  have hmst : s2.mstatus = sEntry s.currentPriv s.mstatus := by rw [hs2]
  have hmst3 : (s2.next j).mstatus = s2.sretUpdate.mstatus := by rw [hs3]
  have hpriv : (if s2.mstatus.getLsbD 8 then privS else privU) = s.currentPriv := by
    rw [← hres.privilege, hs3]
  refine ⟨hres, fun k => ?_, ?_⟩
  · rw [hmst3, getLsbD_sretUpdate, hmst, getLsbD_sEntry, getLsbD_sEntry]
    grind
  · rw [hpriv] at hs3
    generalize s2.next j = s3 at hs3
    rw [hs3, hs2]

end Returns

/-- What the traps out of `s` come back to. -/
structure RoundTrips (s : PrivCsr) : Prop where
  machine : ∀ i j s2, MTrap i s j s2 → MReturned i s j s2
  supervisor : ∀ i j s2, STrap Quiet i s j s2 → SReturned i s j s2
  /-- A trap to M-mode leaves the context of S-mode. -/
  context : ∀ i j s2, MTrap i s j s2 → SameContext s (s2.next j)
  /-- The handler in S-mode may be interrupted by traps to M-mode. -/
  nested : ∀ i j s2, STrap SHandler i s j s2 → SResumes i s j s2

/-- **Trap entry and return are inverse**, in every reachable state. -/
theorem trap_return (inp : Nat → PrivIn) (n : Nat) :
    RoundTrips (Clocked.run next inp reset n) := by
  have w : (Clocked.run next inp reset n).PrivWf :=
    Clocked.run_always privWf_reset (fun i s h => h.next) n
  exact
    { machine := fun i j s2 h => h.returned
      supervisor := fun i j s2 h => h.returned w
      context := fun i j s2 h => h.returned.sameContext
      nested := fun i j s2 h => h.resumes w h.handler.sameContext }

/-- An instruction that fires at `pc`. -/
def firing (pc : Word) : PrivIn :=
  { irqPending := 0#32, exFire := true, exPc := pc, csrValid := false, csrAddr := 0#12
    csrWrite := false, csrWdata := 0#32, exceptionValid := false, exceptionCause := 0#32
    exceptionTval := 0#32, mret := false, sret := false, sfenceVma := false, wfi := false
    retire := true }

/-- `ecall` from U-mode is delegated, and MRET goes to U-mode. -/
def toUser (n : Nat) : PrivIn :=
  if n = 0 then
    { firing 0#32 with csrValid := true, csrAddr := 0x302#12, csrWrite := true
                       csrWdata := 0x100#32 }
  else { firing 4#32 with mret := true }

/-- An exception with the cause `cause`. -/
def excepting (pc cause : Word) : PrivIn :=
  { firing pc with exceptionValid := true, exceptionCause := cause }

/-- `ecall` from U-mode, in the handler an illegal instruction that M-mode handles, then SRET. -/
theorem trap_return_nested :
    let s := Clocked.run next toUser reset 2
    let sretIn : PrivIn := { firing 0x28#32 with sret := true }
    let mretIn : PrivIn := { firing 0x84#32 with mret := true }
    let s1 := s.next (excepting 0x11#32 8#32)
    let s2 := (s1.next (excepting 0x24#32 2#32)).next mretIn
    SResumes (excepting 0x11#32 8#32) s sretIn s2 ∧ s.currentPriv = privU ∧
      s2.redirectPc sretIn = 0x10#32 := by
  intro s sretIn mretIn s1 s2
  have hm : MTrap (excepting 0x24#32 2#32) s1 mretIn (s1.next (excepting 0x24#32 2#32)) :=
    ⟨by decide, by decide, .refl _, by decide, rfl⟩
  have htrap : STrap SHandler (excepting 0x11#32 8#32) s sretIn s2 :=
    ⟨by decide, by decide, .nested _ _ hm (.refl _), by decide, rfl⟩
  have hres := (trap_return toUser 2).nested _ _ _ htrap
  exact ⟨hres, by decide, hres.resumes.2⟩

end PrivCsr

end MelonSoc
