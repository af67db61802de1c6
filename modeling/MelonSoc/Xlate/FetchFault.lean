import MelonSoc.Bus.Fetch
import MelonSoc.Xlate.Context
import MelonSoc.Xlate.Sfence

set_option autoImplicit false

/-! # Whose fetch a pending fault belongs to

The walker keeps a fault of a fetch until the core takes it with that fetch. A redirect cancels the
walk of a fetch; history variables note whether one has come since the walk in progress, or the
walk that has left the pending fault, was started.
-/

namespace MelonSoc

/-- The walk in progress, or the walk that has left the pending fault, has been cancelled. -/
structure Cancels where
  walk : Bool
  fault : Bool

def Cancels.none : Cancels := { walk := false, fault := false }

namespace Mmu

/-- A walk for a fetch is in progress and has not been killed. -/
def liveFetch (s : Mmu) : Bool := s.ptwState != .idle && s.walkIsInstr && !s.walkKilled

/-- What has been cancelled after a cycle; a walk that starts now has not. -/
def cancelsNext (i : MmuIn) (s : Mmu) (g : Cancels) : Cancels :=
  { walk := s.ptwState != .idle && (g.walk || i.coreInstr.flush)
    fault := if s.ptwState == .fault && s.liveFetch then g.walk || i.coreInstr.flush
      else g.fault }

/-- A redirect comes just when the walk of a fetch is in `PTW_FAULT`. -/
def cancelledInFault (i : MmuIn) (s : Mmu) : Bool :=
  i.coreInstr.flush && s.ptwState == .fault && s.liveFetch

/-- The address of a walk in progress is fetched under a `satp` under which it does not miss. -/
def leavesWalk (i : MmuIn) (s : Mmu) : Bool :=
  s.liveFetch && i.coreInstr.ren &&
    !(satpMode i.ctx.satp && !s.itlb.hit i.ctx.satp s.walkVaddr)

variable {i : MmuIn} {s : Mmu} {g : Cancels}

/-! ## One step -/

theorem settle_pending (h : (s.settle i).instrFaultPending = true) :
    s.instrFaultPending = true ∧ i.coreInstr.flush = false ∧
      (i.coreInstr.ren && !s.instrStall i.ctx i.coreInstr i.physInstr) = false := by
  simp only [settle] at h
  split at h
  · cases h
  · rename_i hflush
    split at h
    · cases h
    · rename_i hacc
      refine ⟨h, by simpa using hflush, ?_⟩
      simpa [h] using hacc

theorem liveFetch_iff :
    s.liveFetch = true ↔
      s.ptwState ≠ .idle ∧ s.walkIsInstr = true ∧ s.walkKilled = false := by
  simp [liveFetch, and_assoc]

/-- A pending fault comes from the walk that ends, or was pending and has not been taken. -/
theorem pending_next (h : (s.next i).instrFaultPending = true) :
    (s.ptwState = .fault ∧ s.liveFetch = true ∧ (s.next i).instrFaultVaddr = s.walkVaddr) ∨
      ((s.settle i).instrFaultPending = true ∧
        (s.next i).instrFaultVaddr = s.instrFaultVaddr ∧
        (s.ptwState == .fault && s.liveFetch) = false) := by
  have hother : s.ptwState ≠ .fault → (s.ptwState == .fault && s.liveFetch) = false := by
    intro hne
    simp [hne]
  by_cases hidle : s.ptwState = .idle
  · refine .inr ?_
    have hne : s.ptwState ≠ .fault := by rw [hidle]; decide
    rw [next_idle hidle, ptwIdle] at h ⊢
    split at h
    · rename_i hd
      rw [if_pos hd]
      exact ⟨h, rfl, hother hne⟩
    · rename_i hd
      rw [if_neg hd]
      split at h
      · rename_i hw
        rw [if_pos hw]
        exact ⟨h, rfl, hother hne⟩
      · rename_i hw
        rw [if_neg hw]
        exact ⟨h, rfl, hother hne⟩
  · by_cases hfill : s.ptwState = .fill
    · refine .inr ?_
      have hne : s.ptwState ≠ .fault := by rw [hfill]; decide
      rw [next_fill hfill, ptwFill] at h ⊢
      split at h
      · rename_i hk
        rw [if_pos hk]
        exact ⟨h, rfl, hother hne⟩
      · rename_i hk
        rw [if_neg hk]
        split at h
        · rename_i hi
          rw [if_pos hi]
          exact ⟨h, rfl, hother hne⟩
        · rename_i hi
          rw [if_neg hi]
          exact ⟨h, rfl, hother hne⟩
    · by_cases hfault : s.ptwState = .fault
      · rw [next_fault hfault, ptwFault] at h ⊢
        split at h
        · rename_i hk
          rw [if_pos hk]
          exact .inr ⟨h, rfl, by simp [liveFetch, hk]⟩
        · rename_i hk
          rw [if_neg hk]
          split at h
          · rename_i hi
            rw [if_pos hi]
            exact .inl ⟨hfault, liveFetch_iff.mpr ⟨hidle, hi, by simpa using hk⟩, rfl⟩
          · rename_i hi
            rw [if_neg hi]
            refine .inr ?_
            have hno : (s.ptwState == .fault && s.liveFetch) = false := by simp [liveFetch, hi]
            split at h
            · rename_i hq
              rw [if_pos hq]
              exact ⟨h, rfl, hno⟩
            · rename_i hq
              rw [if_neg hq]
              exact ⟨h, rfl, hno⟩
      · have same := next_of_walking (i := i)
          (show s.walking = true by simp [walking, hidle, hfill, hfault])
        exact .inr ⟨same.instrFaultPending ▸ h, same.instrFaultVaddr, hother hfault⟩

/-- A walk for a fetch starts now, or goes on without a redirect. -/
theorem liveFetch_next (h : (s.next i).liveFetch = true) :
    (s.next i).instrFaultPending = (s.settle i).instrFaultPending ∧
      ((s.ptwState = .idle ∧ s.instrWalkStart i = true ∧
          (s.next i).walkVaddr = i.coreInstr.addr) ∨
        (s.ptwState ≠ .idle ∧ s.liveFetch = true ∧ i.coreInstr.flush = false ∧
          (s.next i).walkVaddr = s.walkVaddr)) := by
  obtain ⟨hstate, hinstr, hkilled⟩ := liveFetch_iff.mp h
  rcases walking_next hstate with hidle | hw | ⟨hfault, hstays⟩
  · rw [next_idle hidle, ptwIdle] at hstate hinstr ⊢
    by_cases hd : s.dataWalkStart i = true
    · rw [if_pos hd] at hinstr
      cases hinstr
    · rw [if_neg hd] at hstate hinstr ⊢
      by_cases hi : s.instrWalkStart i = true
      · rw [if_pos hi]
        exact ⟨rfl, .inl ⟨hidle, hi, rfl⟩⟩
      · rw [if_neg hi] at hstate
        exact absurd hidle hstate
  · have same := next_of_walking (i := i) hw
    have hne : s.ptwState ≠ .idle := by
      simp only [walking, Bool.and_eq_true, bne_iff_ne] at hw
      exact hw.1.1
    have hkept : (if i.coreInstr.flush && s.walkIsInstr && s.ptwState != .idle then true
        else s.walkKilled) = false := same.walkKilled.symm.trans hkilled
    have hinstr' : s.walkIsInstr = true := same.walkIsInstr.symm.trans hinstr
    split at hkept
    · cases hkept
    · rename_i hno
      refine ⟨same.instrFaultPending, .inr ⟨hne, liveFetch_iff.mpr ⟨hne, hinstr', hkept⟩, ?_,
        same.walkVaddr⟩⟩
      simpa [hinstr', hne] using hno
  · -- `PTW_FAULT` holds for data only
    rw [next_fault hfault, ptwFault] at hinstr hstays
    split at hstays
    · cases hstays
    · rename_i hk
      rw [if_neg hk] at hinstr
      split at hstays
      · cases hstays
      · rename_i hi
        rw [if_neg hi] at hinstr
        split at hinstr
        · exact absurd hinstr hi
        · exact absurd hinstr hi

/-- A fetch whose walk is in progress waits. -/
theorem instrStall_of_miss {c : XlateCtx} {q : ImemReq} {r : ImemRsp}
    (ht : c.instrTranslate = true) (hren : q.ren = true)
    (hp : s.instrFaultPending = false) (hmiss : s.itlb.hit c.satp q.addr = false) :
    s.instrStall c q r = true := by
  have hmiss' : s.itlbHit c q = false := hmiss
  simp [instrStall, instrDirectPageFault, instrDirectAccessFault, ht, hren, hp, hmiss']

end Mmu

/-- Without a redirect the core moves on when a fetch is accepted. -/
theorem Core.pcF_next {i : CoreIn} {f : FetchIn} {s : Core} (hred : s.redirects i = false)
    (hacc : (s.fetchReq i && !f.stall) = false) : (s.next i f).fe.pcF = s.fe.pcF := by
  have hr : s.exRedirect i = none := by simpa [redirects] using hred
  rw [next_fe, frontendNext]
  simp only [hr, hacc]
  rfl

namespace Hart

variable {i : HartIn} {r : ImemRsp} {h : Hart} {g : Cancels}

/-! ## The invariant -/

/-- The invariant: a pending fault, and a walk for a fetch, belong to the address that the core
fetches, and have not been cancelled. -/
structure Attributed (h : Hart) (g : Cancels) : Prop where
  pending : h.mmu.instrFaultPending = true →
    h.mmu.instrFaultVaddr = h.core.fe.pcF ∧ g.fault = false
  live : h.mmu.liveFetch = true →
    h.mmu.walkVaddr = h.core.fe.pcF ∧ g.walk = false ∧ h.core.csr.currentPriv ≠ privM ∧
      h.mmu.instrFaultPending = false

theorem attributed_reset : Hart.reset.Attributed Cancels.none where
  pending := by
    intro h
    cases h
  live := by
    intro h
    cases h

/-- While a walk for a fetch is in progress, the fetch is not accepted. -/
theorem Attributed.waits (a : h.Attributed g) (hlive : h.mmu.liveFetch = true)
    (hkeep : h.mmu.leavesWalk (h.mmuIn i r) = false) :
    (h.core.fetchReq (h.coreIn i) && !(h.fetchIn i r).stall) = false := by
  obtain ⟨hva, -, hpriv, hp⟩ := a.live hlive
  cases hren : h.core.fetchReq (h.coreIn i) with
  | false => rfl
  | true =>
      have hren' : (h.coreInstrReq i).ren = true := hren
      have hmiss : satpMode h.ctx.satp = true ∧ h.mmu.itlb.hit h.ctx.satp h.mmu.walkVaddr = false := by
        have hnot : (h.mmu.liveFetch && (h.coreInstrReq i).ren &&
            !(satpMode h.ctx.satp && !h.mmu.itlb.hit h.ctx.satp h.mmu.walkVaddr)) = false := hkeep
        simpa [hlive, hren'] using hnot
      have ht : h.ctx.instrTranslate = true := by
        have hctx : h.ctx.privilege ≠ privM := hpriv
        simp [XlateCtx.instrTranslate, hmiss.1, hctx]
      have haddr : h.mmu.itlb.hit h.ctx.satp (h.coreInstrReq i).addr = false := by
        have hpc : (h.coreInstrReq i).addr = h.mmu.walkVaddr := hva.symm
        rw [hpc]
        exact hmiss.2
      have hstall : (h.fetchIn i r).stall = true := Mmu.instrStall_of_miss ht hren' hp haddr
      rw [hstall]
      rfl

/-- **Step.** Redirects in `PTW_FAULT` and changes of `satp` apart, the invariant is kept. -/
theorem Attributed.next (a : h.Attributed g)
    (hcancel : h.mmu.cancelledInFault (h.mmuIn i r) = false)
    (hkeep : h.mmu.leavesWalk (h.mmuIn i r) = false) :
    (h.next i r).Attributed (h.mmu.cancelsNext (h.mmuIn i r) g) where
  pending := by
    intro hp
    rcases Mmu.pending_next hp with ⟨hfault, hlive, hva⟩ | ⟨hold, hva, hno⟩
    · -- the walk ends without a redirect
      have hred : h.core.redirects (h.coreIn i) = false := by
        have hc : (h.core.redirects (h.coreIn i) && h.mmu.ptwState == .fault &&
          h.mmu.liveFetch) = false := hcancel
        simpa [hfault, hlive] using hc
      obtain ⟨hpc, hwalk, -, -⟩ := a.live hlive
      constructor
      · show (h.mmu.next (h.mmuIn i r)).instrFaultVaddr = (h.core.next _ _).fe.pcF
        rw [hva, hpc, Core.pcF_next hred (a.waits hlive hkeep)]
      · show (if h.mmu.ptwState == .fault && h.mmu.liveFetch then _ else _) = false
        rw [if_pos (by simp [hfault, hlive]), hwalk]
        exact hred
    · obtain ⟨hold', hflush, hacc⟩ := Mmu.settle_pending hold
      obtain ⟨hpc, hf⟩ := a.pending hold'
      constructor
      · show (h.mmu.next (h.mmuIn i r)).instrFaultVaddr = (h.core.next _ _).fe.pcF
        rw [hva, hpc, Core.pcF_next (f := h.fetchIn i r) hflush hacc]
      · show (if h.mmu.ptwState == .fault && h.mmu.liveFetch then _ else _) = false
        rw [if_neg (by simp [hno])]
        exact hf
  live := by
    intro hlive
    obtain ⟨hp, ⟨hidle, hstart, hva⟩ | ⟨hne, hold, hflush, hva⟩⟩ := Mmu.liveFetch_next hlive
    · -- a walk starts for a fetch that waits
      simp only [Mmu.instrWalkStart, Bool.and_eq_true, Bool.not_eq_true'] at hstart
      obtain ⟨⟨⟨⟨hren, ht⟩, hmiss⟩, -⟩, hpend⟩ := hstart
      have hred : h.core.redirects (h.coreIn i) = false := by
        have hreq : h.core.fetchReq (h.coreIn i) = true := hren
        simp only [Core.fetchReq, Bool.and_eq_true, Bool.not_eq_true'] at hreq
        exact hreq.1
      have hstall : (h.fetchIn i r).stall = true := Mmu.instrStall_of_miss ht hren hpend hmiss
      have hpriv : h.core.csr.currentPriv ≠ privM := by
        simp only [XlateCtx.instrTranslate, Bool.and_eq_true, bne_iff_ne] at ht
        exact ht.2
      refine ⟨?_, ?_, ?_, ?_⟩
      · show (h.mmu.next (h.mmuIn i r)).walkVaddr = (h.core.next _ _).fe.pcF
        rw [hva, Core.pcF_next hred (by rw [hstall]; simp)]
        rfl
      · show (h.mmu.ptwState != .idle && _) = false
        rw [hidle]
        rfl
      · show (h.core.next _ _).csr.currentPriv ≠ privM
        rw [Core.priv_next hred]
        exact hpriv
      · by_contra hno
        have hset : (h.mmu.settle (h.mmuIn i r)).instrFaultPending = true :=
          hp.symm.trans (Bool.eq_true_of_not_eq_false hno)
        rw [(Mmu.settle_pending hset).1] at hpend
        cases hpend
    · obtain ⟨hpc, hwalk, hpriv, hpend⟩ := a.live hold
      have hred : h.core.redirects (h.coreIn i) = false := hflush
      refine ⟨?_, ?_, ?_, ?_⟩
      · show (h.mmu.next (h.mmuIn i r)).walkVaddr = (h.core.next _ _).fe.pcF
        rw [hva, hpc, Core.pcF_next hred (a.waits hold hkeep)]
      · show (h.mmu.ptwState != .idle && (g.walk || h.core.redirects (h.coreIn i))) = false
        rw [hwalk, hred]
        exact Bool.and_false _
      · show (h.core.next _ _).csr.currentPriv ≠ privM
        rw [Core.priv_next hred]
        exact hpriv
      · by_contra hno
        have hset : (h.mmu.settle (h.mmuIn i r)).instrFaultPending = true :=
          hp.symm.trans (Bool.eq_true_of_not_eq_false hno)
        rw [(Mmu.settle_pending hset).1] at hpend
        cases hpend

end Hart

/-! ## Runs -/

/-- What has been cancelled before cycle `n`. -/
def socCancels (m : Memories) (inp : Nat → SocIn) (n : Nat) : Cancels :=
  Clocked.history Soc.next (fun i s g => s.hart.mmu.cancelsNext (s.mmuIn i) g) inp (Soc.reset m)
    Cancels.none n

/-- A pending fault is one of the current fetch, which is marked for it or for what its own lookup
finds, and does not wait. -/
structure FaultsOwned (i : SocIn) (s : Soc) (g : Cancels) : Prop where
  own : s.hart.mmu.instrFaultPending = true →
    s.hart.mmu.instrFaultVaddr = (s.coreInstrReq i).addr
  kept : s.hart.mmu.instrFaultPending = true → g.fault = false
  marked : s.hart.mmu.instrFault s.hart.ctx (s.coreInstrReq i) = true →
    (s.hart.mmu.instrFaultPending = true ∧
        s.hart.mmu.instrFaultVaddr = (s.coreInstrReq i).addr ∧ g.fault = false) ∨
      s.hart.mmu.instrDirectPageFault s.hart.ctx (s.coreInstrReq i) = true ∨
      s.hart.mmu.instrDirectAccessFault s.hart.ctx (s.coreInstrReq i) = true
  free : s.hart.mmu.instrFaultPending = true → s.hart.ctx.instrTranslate = true →
    (s.coreInstrReq i).ren = true → s.coreInstrStall i = false

theorem Hart.Attributed.faultsOwned {i : SocIn} {s : Soc} {g : Cancels}
    (a : s.hart.Attributed g) : FaultsOwned i s g where
  own := fun hp => (a.pending hp).1
  kept := fun hp => (a.pending hp).2
  marked := by
    intro hf
    simp only [Mmu.instrFault, Bool.or_eq_true] at hf
    rcases hf with (hp | hpage) | hacc
    · exact .inl ⟨hp, a.pending hp⟩
    · exact .inr (.inl hpage)
    · exact .inr (.inr hacc)
  free := by
    intro hp ht hren
    have hown : s.hart.mmu.instrFaultVaddr = (s.coreInstrReq i).addr := (a.pending hp).1
    simp [Soc.coreInstrStall, Mmu.instrStall, ht, hren, hp, hown]

/-- **Instruction faults.** In every run in which no redirect comes just when the walk of a fetch
has failed, and no fetch leaves its walk behind with another `satp`, a pending fault belongs to the
current fetch. -/
theorem faults_owned (m : Memories) (inp : Nat → SocIn) (n : Nat)
    (hcancel : ∀ k, k < n → (socRun m inp k).hart.mmu.cancelledInFault
      ((socRun m inp k).mmuIn (inp k)) = false)
    (hkeep : ∀ k, k < n → (socRun m inp k).hart.mmu.leavesWalk
      ((socRun m inp k).mmuIn (inp k)) = false) :
    FaultsOwned (inp n) (socRun m inp n) (socCancels m inp n) := by
  have hrun : (socRun m inp n).hart.Attributed (socCancels m inp n) :=
    Clocked.history_invariant (P := fun (s : Soc) g => s.hart.Attributed g)
      (C := fun i (s : Soc) => s.hart.mmu.cancelledInFault (s.mmuIn i) = false ∧
        s.hart.mmu.leavesWalk (s.mmuIn i) = false)
      Hart.attributed_reset (fun _ _ _ hc a => a.next hc.1 hc.2)
      (fun k hk => ⟨hcancel k hk, hkeep k hk⟩)
  exact hrun.faultsOwned

/-- A program in front of the end of a page behind which nothing is mapped. -/
def codeAtEndOfMap (entry : Word) (code : List (Nat × Word)) : Memories :=
  { codeAtPageEnd entry code with
    dataram := Function.update (codeAtPageEnd entry code).dataram 1025#12 0#32 }

/-- A program that goes on behind the end of the page. -/
def runsBehindEnd : Memories := codeAtEndOfMap 0xff818193#32 [(1022, 0x13#32), (1023, 0x13#32)]

/-- The walk for the page behind fails, and its fault is pending for the fetch there. -/
theorem runsBehindEnd_owned :
    (socRun runsBehindEnd quietSoc 32).hart.mmu.instrFaultPending = true ∧
      FaultsOwned (quietSoc 32) (socRun runsBehindEnd quietSoc 32)
        (socCancels runsBehindEnd quietSoc 32) := by
  have hrun : Clocked.always Soc.next
      (fun i s => !s.hart.mmu.cancelledInFault (s.mmuIn i) && !s.hart.mmu.leavesWalk (s.mmuIn i))
      quietSoc (Soc.reset runsBehindEnd) 32 = true := by decide +kernel
  have hstep : ∀ k, k < 32 →
      (socRun runsBehindEnd quietSoc k).hart.mmu.cancelledInFault
          ((socRun runsBehindEnd quietSoc k).mmuIn (quietSoc k)) = false ∧
        (socRun runsBehindEnd quietSoc k).hart.mmu.leavesWalk
          ((socRun runsBehindEnd quietSoc k).mmuIn (quietSoc k)) = false := by
    intro k hk
    have htest := Clocked.always_iff.mp hrun k hk
    rw [Bool.and_eq_true, Bool.not_eq_true', Bool.not_eq_true'] at htest
    exact htest
  refine ⟨by decide +kernel, faults_owned runsBehindEnd quietSoc 32 (fun k hk => (hstep k hk).1)
    (fun k hk => (hstep k hk).2)⟩

/-- A program that jumps back when a division at the end of the page is done. -/
def jumpsAtEnd : Memories :=
  codeAtEndOfMap 0xfe818193#32 [(1018, 0x13#32), (1019, 0x02024233#32), (1020, 0x02024233#32),
    (1021, 0x02024233#32), (1022, 0x02024233#32), (1023, 0xfe1ff06f#32)]

/-- The jump comes just when the walk for the page behind is in `PTW_FAULT`, and the fault is
pending for the fetch at its target. -/
theorem fault_survives_jump : ¬ ∀ m inp n,
    FaultsOwned (inp n) (socRun m inp n) (socCancels m inp n) := by
  intro h
  have hown := (h jumpsAtEnd quietSoc 36).own (by decide +kernel)
  revert hown
  decide +kernel

end MelonSoc
