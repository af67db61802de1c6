import MelonSoc.Bus.AtomicMemory
import MelonSoc.Bus.Fetch
import MelonSoc.Pipeline.Carried

set_option autoImplicit false

/-! # FENCE.I

Instructions behind a FENCE.I are to be those that memory holds when it executes, or later ones.
The core decodes FENCE.I and does nothing for it, so that the halfwords that were fetched ahead of
it stay.
-/

namespace MelonSoc

/-- The encoding of FENCE.I. -/
def fenceI : Word := 0x0000100f#32

/-- A halfword of the word that a fetch at `word` is for. -/
def Memories.halfword (m : Memories) (word : Word) (upper : Bool) : BitVec 16 :=
  (m.fetchWord word).extractLsb' (if upper then 16 else 0) 16

/-- The halfword was read as memory `m` holds it. -/
def Fetched.readFrom (h : Fetched) (m : Memories) : Bool :=
  h.word.any fun word => h.half.bits == m.halfword word h.upper

namespace Soc

/-- What the fetch side answers the core. -/
def fetchIn (i : SocIn) (s : Soc) : FetchIn := s.hart.fetchIn (s.hartIn i) (s.instrRsp i)

/-- The address of the fetch that is accepted on the instruction bus. -/
def fetchedAt (i : SocIn) (s : Soc) : Option Word :=
  if s.fetchAccepted i then some (s.instrReq i).addr else none

/-- What the core carries after a cycle. -/
def carriedNext (i : SocIn) (s : Soc) (g : Carried) : Carried :=
  s.hart.core.carriedNext (s.coreIn i) (s.fetchIn i) (s.fetchedAt i) g

/-- The instruction in EX executes; in M-mode it does so with a fetch fault, too. -/
def executes (i : SocIn) (s : Soc) : Bool :=
  s.hart.core.exFire (s.coreIn i) &&
    !(s.hart.core.idEx.fetchFault && s.hart.core.csr.currentPriv != privM)

/-- A FENCE.I executes. -/
def fences (i : SocIn) (s : Soc) : Bool := s.executes i && s.hart.core.idEx.instr == fenceI

/-- Memory has changed where a halfword was fetched that is still to be executed. -/
def stale (i : SocIn) (s : Soc) (g : Carried) : Bool :=
  (s.hart.core.arriving (s.fetchIn i) g ++ g.ahead).any fun h =>
    h.word.isSome && !h.readFrom s.mem

variable {i i' : SocIn} {s : Soc} {g : Origins} {c : Carried}

/-! ## One step -/

/-- In M-mode the core and the instruction bus accept the same fetches. -/
theorem fetchAccepted_of_machine (hren : s.hart.core.fetchReq (s.coreIn i) = true)
    (hstall : (s.fetchIn i).stall = false) (hpriv : s.hart.core.csr.currentPriv = privM) :
    s.fetchAccepted i = true := by
  have hr : (s.coreInstrReq i).ren = true := hren
  have hs : s.coreInstrStall i = false := hstall
  have ht : s.hart.ctx.instrTranslate = false := by
    have hctx : s.hart.ctx.privilege = privM := hpriv
    simp [XlateCtx.instrTranslate, hctx]
  have hphys : (s.instrReq i).ren = true := by
    rw [instrReq_eq]
    simp [Mmu.physInstrReq, hr, ht]
  simp [fetchAccepted, fetchFaulted, hr, hs, hphys, ht]

/-- A fetch that the core accepts without a fault is accepted on the instruction bus. -/
theorem fetchAccepted_of_unfaulted (hren : s.hart.core.fetchReq (s.coreIn i) = true)
    (hstall : (s.fetchIn i).stall = false) (hfault : (s.fetchIn i).fault = false) :
    s.fetchAccepted i = true := by
  have hr : (s.coreInstrReq i).ren = true := hren
  have hs : s.coreInstrStall i = false := hstall
  have hf : s.hart.mmu.instrFault s.hart.ctx (s.coreInstrReq i) = false := hfault
  simp only [Mmu.instrFault, Bool.or_eq_false_iff] at hf
  obtain ⟨⟨hpend, hpage⟩, hacc⟩ := hf
  have hphys : (s.instrReq i).ren = true := by
    rw [instrReq_eq]
    cases ht : s.hart.ctx.instrTranslate with
    | false => simp [Mmu.physInstrReq, hr, ht]
    | true =>
        have hhit : s.hart.mmu.itlbHit s.hart.ctx (s.coreInstrReq i) = true := by
          simp only [coreInstrStall, Mmu.instrStall, ht, hr, hpend, hpage, hacc, Bool.and_self,
            if_true, Bool.false_and, Bool.or_self, Bool.false_eq_true, if_false] at hs
          by_contra hno
          rw [if_pos (by simpa using hno)] at hs
          cases hs
        have hperm : s.hart.mmu.itlbPermissionOk s.hart.ctx (s.coreInstrReq i) = true := by
          simpa [Mmu.instrDirectPageFault, ht, hr, hhit] using hpage
        have hlow : Mmu.beyond32 (s.hart.mmu.itlbPa s.hart.ctx (s.coreInstrReq i)) = false := by
          simpa [Mmu.instrDirectAccessFault, ht, hr, hhit, hperm] using hacc
        simp [Mmu.physInstrReq, hr, ht, hhit, hperm, hlow]
  have hfaulted : s.fetchFaulted i = false := by simp [fetchFaulted, hpend]
  simp [fetchAccepted, hr, hs, hphys, hfaulted]

/-- What a fetch delivers without a fault, or in M-mode, has been accepted somewhere. -/
theorem fetchedAt_isSome (hren : s.hart.core.fetchReq (s.coreIn i) = true)
    (hstall : (s.fetchIn i).stall = false)
    (h : (s.fetchIn i).fault = false ∨ s.hart.core.csr.currentPriv = privM) :
    (s.fetchedAt i).isSome = true := by
  have hacc : s.fetchAccepted i = true := by
    rcases h with hfault | hpriv
    · exact fetchAccepted_of_unfaulted hren hstall hfault
    · exact fetchAccepted_of_machine hren hstall hpriv
  rw [fetchedAt, if_pos hacc]
  rfl

/-- What arrives from a fetch that is not diverted is in memory when the fetch is accepted. -/
theorem Grants.arriving_readFrom (d : s.Grants g) (f : s.FetchInFlight)
    (hdiv : ¬ s.Diverted i i') (hred : (s.next i).hart.core.redirects ((s.next i).coreIn i') = false)
    {h : Fetched}
    (hh : h ∈ (s.next i).hart.core.arriving ((s.next i).fetchIn i') (s.carriedNext i c))
    (hw : h.word.isSome = true) : h.readFrom s.mem = true := by
  obtain ⟨hv, hword, -, hbits⟩ := Core.mem_arriving hh
  rw [carriedNext, Core.carriedNext_fetching] at hword
  -- the fetch was accepted in the cycle before
  have hacc : s.fetchAccepted i = true := by
    by_contra hno
    rw [hword, fetchedAt, if_neg hno] at hw
    cases hw
  have hsamples : (s.next i).samples i' = true := by
    have hflush : ((s.next i).coreInstrReq i').flush = false := hred
    rw [samples, hv, hflush]
    rfl
  have hdata : ((s.next i).fetchIn i').rdata = s.mem.fetchWord (s.instrReq i).addr :=
    (d.delivers_iff f).mpr hdiv hacc hsamples
  rw [Fetched.readFrom, hword, fetchedAt, if_pos hacc, Option.any_some, beq_iff_eq,
    Memories.halfword, hbits, hdata]

/-- An instruction executes when the older access has been answered. -/
theorem consumes_of_executes (h : s.executes i = true) (hcyc : s.coreReq.cyc = true) :
    s.coreConsumes i = true := by
  have hfire : s.hart.core.exFire (s.coreIn i) = true := by
    rw [executes, Bool.and_eq_true] at h
    exact h.1
  obtain ⟨-, hmem, hat, -⟩ := Core.exFire_iff.mp hfire
  have hidle : s.hart.core.atomic.state = .idle := by
    by_contra hno
    simp [Core.stallAtomic, hno] at hat
  have hreq : s.hart.core.memReq = true := by
    simpa [coreReq, Core.dataReq, hidle] using hcyc
  simp only [Core.stallMem, hreq, Bool.true_and, Bool.or_eq_false_iff, Bool.not_eq_false'] at hmem
  simp [coreConsumes, coreReq, Core.dataReq, hidle, hreq, hmem]

end Soc

/-! ## Runs -/

/-- What the core carries before cycle `n`. -/
def socCarried (m : Memories) (inp : Nat → SocIn) (n : Nat) : Carried :=
  Clocked.history Soc.next Soc.carriedNext inp (Soc.reset m) Carried.empty n

theorem socRun_carrying (m : Memories) (inp : Nat → SocIn) (n : Nat) :
    (socRun m inp n).hart.core.Carrying (socCarried m inp n) :=
  Clocked.history_invariant (P := fun (s : Soc) g => s.hart.core.Carrying g)
    (C := fun _ _ => True) Core.carrying_reset (fun _ _ _ _ c => c.next) (fun _ _ => trivial)

theorem socRun_located (m : Memories) (inp : Nat → SocIn) (n : Nat) :
    (socRun m inp n).hart.core.Located (socCarried m inp n) :=
  Clocked.history_invariant (P := fun (s : Soc) g => s.hart.core.Located g)
    (C := fun _ _ => True) Core.located_reset
    (fun _ _ _ _ l => l.next Soc.fetchedAt_isSome) (fun _ _ => trivial)

/-- The halfword was read as memory has held it at some time since cycle `k`. -/
def ReadSince (m : Memories) (inp : Nat → SocIn) (k n : Nat) (h : Fetched) : Prop :=
  ∃ t, k ≤ t ∧ t ≤ n ∧ h.readFrom (socRun m inp t).mem = true

/-- In cycle `n` stores are in memory before a FENCE.I behind them, and what executes behind a
FENCE.I is what memory has held since. -/
structure Fenced (m : Memories) (inp : Nat → SocIn) (n : Nat) : Prop where
  stored : (socRun m inp n).coreConsumes (inp n) = true → (socRun m inp n).coreReq.we = true →
    isDdrRegion (socRun m inp n).coreReq.adr = true →
    (socRun m inp n).mem.ddr (wordOf (socRun m inp n).coreReq.adr) =
      mergeBytes ((socRun m inp n).mem.ddr (wordOf (socRun m inp n).coreReq.adr))
        (socRun m inp n).coreReq.datW (socRun m inp n).coreReq.sel
  drained : (socRun m inp n).executes (inp n) = true → (socRun m inp n).coreReq.cyc = true →
    (socRun m inp n).coreConsumes (inp n) = true
  encoded : (socRun m inp n).executes (inp n) = true →
    Encodes (socCarried m inp n).ex (socRun m inp n).hart.core.idEx.instr
  current : (socRun m inp n).executes (inp n) = true →
    ∀ k, k < n → (socRun m inp k).fences (inp k) = true →
      ∀ h ∈ (socCarried m inp n).ex, ReadSince m inp k n h

section Run

variable {m : Memories} {inp : Nat → SocIn}

/-- The instruction that executes is made of the halfwords that EX carries. -/
theorem socRun_executes {n : Nat} (h : (socRun m inp n).executes (inp n) = true) :
    (∀ f ∈ (socCarried m inp n).ex, f.word.isSome = true) ∧
      Encodes (socCarried m inp n).ex (socRun m inp n).hart.core.idEx.instr := by
  rw [Soc.executes, Bool.and_eq_true] at h
  obtain ⟨hfire, hok⟩ := h
  obtain ⟨henc, hfaults⟩ := (socRun_carrying m inp n).ex (Core.exFire_iff.mp hfire).1
  refine ⟨fun f hf => (socRun_located m inp n).halfwords f (.inr hf) ?_, henc⟩
  cases hff : (socRun m inp n).hart.core.idEx.fetchFault with
  | false => exact .inl (hfaults hff f hf)
  | true => exact .inr (by simpa [hff] using hok)

theorem ReadSince.later {k n : Nat} {h : Fetched} (r : ReadSince m inp k n h) :
    ReadSince m inp k (n + 1) h := by
  obtain ⟨t, hk, hn, hr⟩ := r
  exact ⟨t, hk, Nat.le_succ_of_le hn, hr⟩

/-- Behind a FENCE.I that finds nothing stale, everything that is fetched and not yet executed has
been in memory since. -/
theorem readSince_of_fence {k : Nat} (hfence : (socRun m inp k).fences (inp k) = true)
    (hclean : (socRun m inp k).stale (inp k) (socCarried m inp k) = false) (d : Nat)
    (hdiv : ∀ j, j < k + d → ¬ (socRun m inp j).Diverted (inp j) (inp (j + 1))) :
    ∀ h, (h ∈ (socCarried m inp (k + 1 + d)).ahead ∨ h ∈ (socCarried m inp (k + 1 + d)).ex) →
      h.word.isSome = true → ReadSince m inp k (k + 1 + d) h := by
  have hstep : ∀ n, socCarried m inp (n + 1)
      = (socRun m inp n).carriedNext (inp n) (socCarried m inp n) := fun n =>
    Clocked.history_succ n
  induction d with
  | zero =>
      -- what EX takes over was ahead of it, and nothing ahead is stale
      intro h hh hw
      rw [hstep] at hh
      have hahead : h ∈ (socRun m inp k).hart.core.arriving ((socRun m inp k).fetchIn (inp k))
          (socCarried m inp k) ∨ h ∈ (socCarried m inp k).ahead := by
        rcases hh with hh | hh
        · exact (Core.ahead_carriedNext hh).2
        · rcases Core.ex_carriedNext hh with ⟨hstays, -⟩ | hh
          · have hfire : (socRun m inp k).hart.core.exFire
                ((socRun m inp k).coreIn (inp k)) = true := by
              simp only [Soc.fences, Soc.executes, Bool.and_eq_true] at hfence
              exact hfence.1.1
            rw [Core.exStays_of_exFire hfire] at hstays
            cases hstays
          · exact .inr hh
      refine ⟨k, Nat.le_refl k, Nat.le_succ k, ?_⟩
      rw [Soc.stale, List.any_eq_false] at hclean
      have hread := hclean h (List.mem_append.mpr hahead)
      simpa [hw] using hread
  | succ d ih =>
      intro h hh hw
      have hn : k + 1 + (d + 1) = k + 1 + d + 1 := rfl
      have hprev : k + 1 + d = k + d + 1 := by omega
      have hold := ih (fun j hj => hdiv j (by omega)) h
      rw [hn, hstep] at hh
      rw [hn]
      rcases hh with hh | hh
      · obtain ⟨hred, harr | hh⟩ := Core.ahead_carriedNext hh
        · -- it was in memory when its fetch was accepted
          rw [hprev] at hred harr ⊢
          rw [hstep] at harr
          have hread := (socRun_grants m inp (k + d)).2.arriving_readFrom
            (socRun_booked m inp (k + d)).1 (hdiv (k + d) (by omega)) hred harr hw
          exact ⟨k + d, by omega, by omega, hread⟩
        · exact (hold (.inl hh) hw).later
      · rcases Core.ex_carriedNext hh with ⟨-, hh⟩ | hh
        · exact (hold (.inr hh) hw).later
        · exact (hold (.inl hh) hw).later

end Run

/-- **FENCE.I.** In every run in which no fetch is diverted and every FENCE.I finds nothing stale,
stores are in memory before a FENCE.I behind them, and every halfword that executes behind a
FENCE.I is one that memory has held since. -/
theorem fenced_of_clean (m : Memories) (inp : Nat → SocIn) (n : Nat)
    (hdiv : ∀ k, k < n → ¬ (socRun m inp k).Diverted (inp k) (inp (k + 1)))
    (hclean : ∀ k, k < n → (socRun m inp k).fences (inp k) = true →
      (socRun m inp k).stale (inp k) (socCarried m inp k) = false) :
    Fenced m inp n where
  stored := by
    intro h hwe hddr
    exact ((socRun_grants m inp n).2.merged (socRun_stored m inp n).1 h hwe hddr).2
  drained := fun h hcyc => Soc.consumes_of_executes h hcyc
  encoded := by
    intro h
    exact (socRun_executes h).2
  current := by
    intro h k hk hfence f hf
    obtain ⟨d, rfl⟩ : ∃ d, n = k + 1 + d := ⟨n - (k + 1), by omega⟩
    exact readSince_of_fence hfence (hclean k hk hfence) d
      (fun j hj => hdiv j (by omega)) f (.inr hf) ((socRun_executes h).1 f hf)

instance (i i' : SocIn) (s : Soc) : Decidable (s.Diverted i i') :=
  inferInstanceAs (Decidable (_ ∧ _ ∧ _ ∧ _))

/-- A program in DDR that changes the instruction behind the FENCE.I that follows. -/
def changedBehindFence : Memories :=
  Memories.ofWords
    [(0, 0x800000b7#32), (1, 0x00200137#32), (2, 0x19310113#32), (3, 0x00008067#32)] []
    [(0x20000000, 0x0020a423#32), (0x20000001, 0x0000100f#32), (0x20000002, 0x00100193#32)]

/-- The new instruction executes. -/
theorem changedBehindFence_fenced :
    (socRun changedBehindFence quietSoc 26).fences (quietSoc 26) = true ∧
      (socRun changedBehindFence quietSoc 34).hart.core.idEx.instr = 0x00200193#32 ∧
      Fenced changedBehindFence quietSoc 34 := by
  have hrun : Clocked.always (Clocked.observe Soc.next Soc.carriedNext)
      (fun i p => !decide (p.1.Diverted i i) && !(p.1.fences i && p.1.stale i p.2))
      quietSoc (Soc.reset changedBehindFence, Carried.empty) 34 = true := by decide +kernel
  have hstep : ∀ k, k < 34 →
      ¬ (socRun changedBehindFence quietSoc k).Diverted (quietSoc k) (quietSoc (k + 1)) ∧
      ((socRun changedBehindFence quietSoc k).fences (quietSoc k) = true →
        (socRun changedBehindFence quietSoc k).stale (quietSoc k)
          (socCarried changedBehindFence quietSoc k) = false) := by
    intro k hk
    have htest := Clocked.always_iff.mp hrun k hk
    rw [Clocked.run_observe_fst] at htest
    simp only [Bool.and_eq_true, Bool.not_eq_true', decide_eq_false_iff_not,
      Bool.and_eq_false_imp] at htest
    exact htest
  refine ⟨by decide +kernel, by decide +kernel, fenced_of_clean changedBehindFence quietSoc 34
    (fun k hk => (hstep k hk).1) (fun k hk => (hstep k hk).2)⟩

/-- The same program behind a division, during which everything is fetched. -/
def changedInQueue : Memories :=
  Memories.ofWords
    [(0, 0x800000b7#32), (1, 0x00200137#32), (2, 0x19310113#32), (3, 0x00008067#32)] []
    [(0x20000000, 0x0210c233#32), (0x20000001, 0x0020a623#32), (0x20000002, 0x0000100f#32),
     (0x20000003, 0x00100193#32)]

/-- The old instruction executes behind the FENCE.I. -/
theorem fence_misses_queue : ¬ ∀ m inp n, Fenced m inp n := by
  intro h
  have hfence : (socRun changedInQueue quietSoc 60).fences (quietSoc 60) = true := by
    decide +kernel
  have hexec : (socRun changedInQueue quietSoc 61).executes (quietSoc 61) = true := by
    decide +kernel
  have hex : (socCarried changedInQueue quietSoc 61).ex =
      halves (some 0x8000000c#32) 0x00100193#32 false false := by decide +kernel
  obtain ⟨t, hk, hn, hread⟩ := (h changedInQueue quietSoc 61).current hexec 60 (by decide) hfence
    ⟨some 0x8000000c#32, true, highHalf 0x00100193#32 false false⟩ (by rw [hex]; decide)
  obtain rfl | rfl : t = 60 ∨ t = 61 := by omega
  · revert hread
    decide +kernel
  · revert hread
    decide +kernel

end MelonSoc
