import MelonSoc.Rtl.Mmu

set_option autoImplicit false

/-! # The control of the walker

Seen from the data bus the walker is a small state machine: it waits for the bus of an idle
core, reads one or two entries, perhaps writes one back, and gives the bus away for a cycle
after each of these transactions. `Mmu.ControlStep` lists its moves with what each says about
the bus; the entry it addresses lies in the data RAM or in DDR.
-/

namespace MelonSoc

namespace Mmu

/-! ## Moves -/

/-- The walker looks at the entry it has read; the bus belongs to the core. -/
def checking (s : Mmu) : Bool := s.ptwState == .l1Check || s.ptwState == .l0Check

/-- The address of the second-level entry the entry in `walkPte` leads to. -/
def nextPteAddr (s : Mmu) : Word := pteAddr (ptePpn s.walkPte) (vpn0Of s.walkVaddr)

/-- `L1_CHECK` leads to `L0_WAIT`: the entry is a pointer to a reachable table. -/
def descends (s : Mmu) : Bool :=
  s.ptwState == .l1Check && !pteInvalid s.walkPte && !pteLeaf s.walkPte &&
    !pteUnreachable (ptePpn s.walkPte) (vpn0Of s.walkVaddr)

/-- A check leads to `AD_WAIT`: the entry is a leaf that grants the access and lacks a bit. -/
def updates (s : Mmu) : Bool :=
  (s.ptwState == .l0Check || (s.ptwState == .l1Check && s.walkPte.extractLsb' 10 10 == 0#10)) &&
    !pteInvalid s.walkPte && pteLeaf s.walkPte && s.walkPermissionOk &&
    needsAd s.walkPte s.walkStore

/-- An address the walker can read. -/
def Readable (a : Word) : Prop := isDataramRegion a = true ∨ isDdrRegion a = true

theorem readable_of_reachable {ppn : BitVec 22} {index : BitVec 10}
    (h : pteUnreachable ppn index = false) : Readable (pteAddr ppn index) := by
  simp only [pteUnreachable, Bool.or_eq_false_iff, Bool.and_eq_false_iff, Bool.not_eq_false'] at h
  exact h.2

/-- What keeps the control of the walker sane. -/
structure ControlWf (s : Mmu) : Prop where
  noCapture : s.ptwState ≠ .l1Capture ∧ s.ptwState ≠ .l0Capture
  readable : s.ptwState ≠ .idle → s.ptwState ≠ .fault → Readable s.walkPteAddr

theorem controlWf_reset : Mmu.reset.ControlWf where
  noCapture := by decide
  readable := fun h => absurd rfl h

/-- A move of the walker. -/
inductive ControlStep (i : MmuIn) (s : Mmu) : Prop
  | rest (st : s.ptwState = .idle) (st' : (s.next i).ptwState = .idle)
  /-- A walk starts while the core has no cycle on the bus. -/
  | start (st : s.ptwState = .idle) (cyc : i.coreData.cyc = false)
      (st' : (s.next i).ptwState = .l1Wait) (readable : Readable (s.next i).walkPteAddr)
  | startFault (st : s.ptwState = .idle) (cyc : i.coreData.cyc = false)
      (st' : (s.next i).ptwState = .fault)
  | wait (owns : s.ownsBus = true) (ack : i.physData.ack = false)
      (st' : (s.next i).ptwState = s.ptwState) (adr : (s.next i).walkPteAddr = s.walkPteAddr)
      (req : (s.next i).walkReq = s.walkReq)
  | read (active : s.walkActive = true) (ack : i.physData.ack = true)
      (check : (s.next i).checking = true) (adr : (s.next i).walkPteAddr = s.walkPteAddr)
  /-- The entry ends the walk, after its A/D update if it needs one. -/
  | finish (check : s.checking = true) (noDescent : s.descends = false)
      (st' : (s.next i).ptwState = .adWait ∨ (s.next i).ptwState = .fill ∨
        (s.next i).ptwState = .fault)
      (adr : (s.next i).ptwState ≠ .fault → (s.next i).walkPteAddr = s.walkPteAddr)
  | descend (descends : s.descends = true) (st' : (s.next i).ptwState = .l0Wait)
      (adr : (s.next i).walkPteAddr = s.nextPteAddr) (readable : Readable s.nextPteAddr)
  | written (st : s.ptwState = .adWait) (ack : i.physData.ack = true)
      (st' : (s.next i).ptwState = .fill) (adr : (s.next i).walkPteAddr = s.walkPteAddr)
  | filled (st : s.ptwState = .fill) (st' : (s.next i).ptwState = .idle)
  | fault (st : s.ptwState = .fault)
      (st' : (s.next i).ptwState = .idle ∨ (s.next i).ptwState = .fault)

section Moves

variable {i : MmuIn} {s : Mmu}

theorem dataWalkStart_cyc (h : s.dataWalkStart i = true) : i.coreData.cyc = false := by
  simp only [dataWalkStart, Bool.and_eq_true, Bool.not_eq_true'] at h
  exact h.2

theorem instrWalkStart_cyc (h : s.instrWalkStart i = true) : i.coreData.cyc = false := by
  simp only [instrWalkStart, Bool.and_eq_true, Bool.not_eq_true'] at h
  exact h.1.2

/-- A loaded walk requests its first entry or fails at once. -/
theorem startWalk_control (satp va : Word) (s1 : Mmu) :
    ((startWalk satp va s1).ptwState = .l1Wait ∧ Readable (startWalk satp va s1).walkPteAddr) ∨
      (startWalk satp va s1).ptwState = .fault := by
  by_cases h : pteUnreachable (satpPpn satp) (vpn1Of va) = true
  · exact .inr (by simp [startWalk, h])
  · simp only [Bool.not_eq_true] at h
    exact .inl ⟨by simp [startWalk, h], readable_of_reachable h⟩

theorem acceptLeaf_control (superpage : Bool) (s s1 : Mmu) :
    ((acceptLeaf superpage s s1).ptwState = .adWait ∨
      (acceptLeaf superpage s s1).ptwState = .fill) ∧
      (acceptLeaf superpage s s1).walkPteAddr = s1.walkPteAddr := by
  unfold acceptLeaf
  cases needsAd s.walkPte s.walkStore <;> simp

theorem next_idle (h : s.ptwState = .idle) : s.next i = ptwIdle i s (s.settle i) := by
  simp [next, h]

theorem next_l1Check (h : s.ptwState = .l1Check) : s.next i = ptwL1Check s (s.settle i) := by
  simp [next, h]

theorem next_l0Check (h : s.ptwState = .l0Check) : s.next i = ptwL0Check s (s.settle i) := by
  simp [next, h]

theorem next_adWait (h : s.ptwState = .adWait) : s.next i = ptwAdWait i s (s.settle i) := by
  simp [next, h]

theorem next_fill (h : s.ptwState = .fill) : s.next i = ptwFill s (s.settle i) := by
  simp [next, h]

theorem next_fault (h : s.ptwState = .fault) : s.next i = ptwFault i s (s.settle i) := by
  simp [next, h]

theorem next_l1Wait (h : s.ptwState = .l1Wait) :
    s.next i = ptwWait i (s.settle i) .l1Check := by
  simp [next, h]

theorem next_l0Wait (h : s.ptwState = .l0Wait) :
    s.next i = ptwWait i (s.settle i) .l0Check := by
  simp [next, h]

theorem control_of_idle (h : s.ptwState = .idle) : s.ControlStep i := by
  have hn := next_idle (i := i) h
  unfold ptwIdle at hn
  split at hn
  · rename_i hd
    have hc := dataWalkStart_cyc hd
    rcases startWalk_control i.ctx.satp i.dReq.vaddr (s.settle i) with ⟨h1, h2⟩ | h1
    · exact .start h hc (by rw [hn]; exact h1) (by rw [hn]; exact h2)
    · exact .startFault h hc (by rw [hn]; exact h1)
  · split at hn
    · rename_i hd
      have hc := instrWalkStart_cyc hd
      rcases startWalk_control i.ctx.satp i.coreInstr.addr (s.settle i) with ⟨h1, h2⟩ | h1
      · exact .start h hc (by rw [hn]; exact h1) (by rw [hn]; exact h2)
      · exact .startFault h hc (by rw [hn]; exact h1)
    · exact .rest h (by rw [hn]; exact h)

theorem control_of_wait {done : PtwState} (hs : s.ptwState = .l1Wait ∨ s.ptwState = .l0Wait)
    (hn : s.next i = ptwWait i (s.settle i) done) (hd : done = .l1Check ∨ done = .l0Check) :
    s.ControlStep i := by
  have hact : s.walkActive = true := by rcases hs with h | h <;> simp [walkActive, h]
  unfold ptwWait at hn
  split at hn
  · rename_i ha
    refine .read hact ha ?_ (by rw [hn]; rfl)
    rw [hn]
    rcases hd with rfl | rfl <;> rfl
  · rename_i ha
    exact .wait (by simp [ownsBus, hact]) (by simpa using ha) (by rw [hn]; rfl) (by rw [hn]; rfl)
      (by rw [hn]; rfl)

theorem control_of_l1Check (h : s.ptwState = .l1Check) : s.ControlStep i := by
  have hn := next_l1Check (i := i) h
  have hc : s.checking = true := by simp [checking, h]
  unfold ptwL1Check at hn
  simp only at hn
  split at hn
  · rename_i hinv
    refine .finish hc (by simp [descends, hinv]) (.inr (.inr (by rw [hn]))) (fun hne => ?_)
    exact absurd (by rw [hn]) hne
  · rename_i hinv
    split at hn
    · rename_i hleaf
      have hd : s.descends = false := by simp [descends, hleaf]
      split at hn
      · exact .finish hc hd (.inr (.inr (by rw [hn]))) (fun hne => absurd (by rw [hn]) hne)
      · obtain ⟨h1, h2⟩ := acceptLeaf_control true s
          { s.settle i with walkGlobal := s.walkGlobal || s.walkPte.getLsbD 5 }
        rw [← hn] at h1 h2
        exact .finish hc hd (h1.imp (fun h => h) .inl) (fun _ => h2)
    · rename_i hleaf
      split at hn
      · rename_i hun
        refine .finish hc (by simp [descends, hun]) (.inr (.inr (by rw [hn]))) (fun hne => ?_)
        exact absurd (by rw [hn]) hne
      · rename_i hun
        simp only [Bool.not_eq_true] at hinv hleaf hun
        refine .descend (by simp [descends, h, hinv, hleaf, hun]) (by rw [hn]) (by rw [hn]; rfl) ?_
        exact readable_of_reachable hun

theorem control_of_l0Check (h : s.ptwState = .l0Check) : s.ControlStep i := by
  have hn := next_l0Check (i := i) h
  have hc : s.checking = true := by simp [checking, h]
  have hd : s.descends = false := by simp [descends, h]
  unfold ptwL0Check at hn
  simp only at hn
  split at hn
  · exact .finish hc hd (.inr (.inr (by rw [hn]))) (fun hne => absurd (by rw [hn]) hne)
  · obtain ⟨h1, h2⟩ := acceptLeaf_control false s
      { s.settle i with walkGlobal := s.walkGlobal || s.walkPte.getLsbD 5 }
    rw [← hn] at h1 h2
    exact .finish hc hd (h1.imp (fun h => h) .inl) (fun _ => h2)

theorem control_of_adWait (h : s.ptwState = .adWait) : s.ControlStep i := by
  have hn := next_adWait (i := i) h
  unfold ptwAdWait at hn
  split at hn
  · rename_i ha
    exact .written h ha (by rw [hn]) (by rw [hn]; rfl)
  · rename_i ha
    exact .wait (by simp [ownsBus, h]) (by simpa using ha) (by rw [hn]; rfl) (by rw [hn]; rfl)
      (by rw [hn]; rfl)

theorem control_of_fill (h : s.ptwState = .fill) : s.ControlStep i := by
  have hn := next_fill (i := i) h
  unfold ptwFill at hn
  refine .filled h ?_
  split at hn
  · rw [hn]
  · split at hn <;> rw [hn]

theorem control_of_fault (h : s.ptwState = .fault) : s.ControlStep i := by
  have hn := next_fault (i := i) h
  unfold ptwFault at hn
  refine .fault h ?_
  split at hn
  · exact .inl (by rw [hn])
  · split at hn
    · exact .inl (by rw [hn])
    · split at hn
      · exact .inl (by rw [hn])
      · exact .inr (by rw [hn]; exact h)

/-- Every clock edge is one of the moves. -/
theorem ControlWf.control_step (w : s.ControlWf) (i : MmuIn) : s.ControlStep i := by
  cases h : s.ptwState with
  | idle => exact control_of_idle h
  | l1Wait => exact control_of_wait (.inl h) (next_l1Wait h) (.inl rfl)
  | l1Capture => exact absurd h w.noCapture.1
  | l1Check => exact control_of_l1Check h
  | l0Wait => exact control_of_wait (.inr h) (next_l0Wait h) (.inr rfl)
  | l0Capture => exact absurd h w.noCapture.2
  | l0Check => exact control_of_l0Check h
  | adWait => exact control_of_adWait h
  | fill => exact control_of_fill h
  | fault => exact control_of_fault h

theorem walkActive_iff : s.walkActive = true ↔ s.ptwState = .l1Wait ∨ s.ptwState = .l0Wait := by
  simp [walkActive]

theorem checking_iff : s.checking = true ↔ s.ptwState = .l1Check ∨ s.ptwState = .l0Check := by
  simp [checking]

theorem ownsBus_iff : s.ownsBus = true ↔
    s.ptwState = .l1Wait ∨ s.ptwState = .l0Wait ∨ s.ptwState = .adWait := by
  simp [ownsBus, walkActive, or_assoc]

theorem not_owns_of_checking (h : s.checking = true) : s.ownsBus = false := by
  rcases checking_iff.mp h with h | h <;> simp [ownsBus, walkActive, h]

/-- The walker drives the bus only with an address it can read. -/
theorem ControlWf.readable_of_owns (w : s.ControlWf) (h : s.ownsBus = true) :
    Readable s.walkPteAddr := by
  rcases ownsBus_iff.mp h with h | h | h <;> exact w.readable (by simp [h]) (by simp [h])

theorem ControlWf.readable_of_checking (w : s.ControlWf) (h : s.checking = true) :
    Readable s.walkPteAddr := by
  rcases checking_iff.mp h with h | h <;> exact w.readable (by simp [h]) (by simp [h])

theorem ControlWf.next (w : s.ControlWf) (i : MmuIn) : (s.next i).ControlWf := by
  cases w.control_step i with
  | rest _ h => exact ⟨by simp [h], fun hn => absurd h hn⟩
  | start _ _ h hr => exact ⟨by simp [h], fun _ _ => hr⟩
  | startFault _ _ h => exact ⟨by simp [h], fun _ hn => absurd h hn⟩
  | wait ho _ h ha =>
      refine ⟨by rw [h]; exact w.noCapture, fun _ _ => ?_⟩
      rw [ha]
      exact w.readable_of_owns ho
  | read hact _ hc ha =>
      refine ⟨?_, fun _ _ => ?_⟩
      · rcases checking_iff.mp hc with h | h <;> simp [h]
      · rw [ha]
        exact w.readable_of_owns (by simp [ownsBus, hact])
  | finish hc _ h ha =>
      refine ⟨by rcases h with h | h | h <;> simp [h], fun _ hn => ?_⟩
      rw [ha hn]
      exact w.readable_of_checking hc
  | descend _ h ha hr =>
      refine ⟨by simp [h], fun _ _ => ?_⟩
      rw [ha]
      exact hr
  | written h _ h' ha =>
      refine ⟨by simp [h'], fun _ _ => ?_⟩
      rw [ha]
      exact w.readable_of_owns (by simp [ownsBus, h])
  | filled _ h => exact ⟨by simp [h], fun hn => absurd h hn⟩
  | fault _ h =>
      refine ⟨by rcases h with h | h <;> simp [h], fun hn hn' => ?_⟩
      rcases h with h | h
      · exact absurd h hn
      · exact absurd h hn'

theorem acceptLeaf_adWait {superpage : Bool} {s1 : Mmu}
    (h : (acceptLeaf superpage s s1).ptwState = .adWait) :
    needsAd s.walkPte s.walkStore = true := by
  by_contra hc
  simp [acceptLeaf, hc] at h

theorem updates_of_l1Check (hs : s.ptwState = .l1Check) (h : (s.next i).ptwState = .adWait) :
    s.updates = true := by
  rw [next_l1Check hs] at h
  unfold ptwL1Check at h
  simp only at h
  split at h
  · cases h
  · rename_i hinv
    split at h
    · rename_i hleaf
      split at h
      · cases h
      · rename_i hok
        have hn := acceptLeaf_adWait h
        simp only [Bool.or_eq_true, bne_iff_ne, Bool.not_eq_true', not_or, ne_eq,
          Decidable.not_not, Bool.not_eq_false] at hok
        simp only [Bool.not_eq_true] at hinv
        simp [updates, hs, hinv, hleaf, hok, hn]
    · split at h <;> cases h

theorem updates_of_l0Check (hs : s.ptwState = .l0Check) (h : (s.next i).ptwState = .adWait) :
    s.updates = true := by
  rw [next_l0Check hs] at h
  unfold ptwL0Check at h
  simp only at h
  split at h
  · cases h
  · rename_i hok
    have hn := acceptLeaf_adWait h
    simp only [Bool.or_eq_true, Bool.not_eq_true', not_or, Bool.not_eq_true,
      Bool.not_eq_false] at hok
    simp [updates, hs, hok, hn]

/-- The write-back state is entered from a check of a leaf that lacks a bit. -/
theorem ControlWf.adWait_entered (w : s.ControlWf) (h : (s.next i).ptwState = .adWait) :
    s.ptwState = .adWait ∨ s.updates = true := by
  cases w.control_step i with
  | wait _ _ h' => exact .inl (by rw [← h', h])
  | finish hc =>
      rcases checking_iff.mp hc with hs | hs
      · exact .inr (updates_of_l1Check hs h)
      · exact .inr (updates_of_l0Check hs h)
  | rest _ h' => rw [h'] at h; cases h
  | start _ _ h' => rw [h'] at h; cases h
  | startFault _ _ h' => rw [h'] at h; cases h
  | read _ _ h' => simp [checking, h] at h'
  | descend _ h' => rw [h'] at h; cases h
  | written _ _ h' => rw [h'] at h; cases h
  | filled _ h' => rw [h'] at h; cases h
  | fault _ h' => rcases h' with h' | h' <;> rw [h'] at h <;> cases h

theorem checking_of_descends (h : s.descends = true) : s.ptwState = .l1Check := by
  simp only [descends, Bool.and_eq_true, beq_iff_eq] at h
  exact h.1.1.1

/-- How the walker takes the bus from a core with a cycle: from a check that needs a write-back,
or from the check of a pointer. -/
theorem ControlWf.comes_back (w : s.ControlWf) (ho : s.ownsBus = false)
    (hcyc : i.coreData.cyc = true) (ho' : (s.next i).ownsBus = true) :
    (s.updates = true ∧ (s.next i).ptwState = .adWait ∧
      (s.next i).walkPteAddr = s.walkPteAddr) ∨
    (s.descends = true ∧ (s.next i).ptwState = .l0Wait ∧
      (s.next i).walkPteAddr = s.nextPteAddr) := by
  cases w.control_step i with
  | finish hc _ h hadr =>
      have hadw : (s.next i).ptwState = .adWait := by
        rcases h with h | h | h
        · exact h
        · simp [ownsBus, walkActive, h] at ho'
        · simp [ownsBus, walkActive, h] at ho'
      rcases w.adWait_entered hadw with hs | hu
      · simp [checking, hs] at hc
      · exact .inl ⟨hu, hadw, hadr (by rw [hadw]; decide)⟩
  | descend hd h hadr => exact .inr ⟨hd, h, hadr⟩
  | rest _ h => simp [ownsBus, walkActive, h] at ho'
  | start _ h => rw [hcyc] at h; cases h
  | startFault _ _ h => simp [ownsBus, walkActive, h] at ho'
  | wait h => rw [ho] at h; cases h
  | read h => simp [ownsBus, h] at ho
  | written h => simp [ownsBus, h] at ho
  | filled _ h => simp [ownsBus, walkActive, h] at ho'
  | fault _ h => rcases h with h | h <;> simp [ownsBus, walkActive, h] at ho'

/-- The walker stays off the bus of a core with a cycle, unless a check leads back to it. -/
theorem ControlWf.keeps_off (w : s.ControlWf) (ho : s.ownsBus = false)
    (hcyc : i.coreData.cyc = true) (hd : s.descends = false) (hu : s.updates = false) :
    (s.next i).ownsBus = false := by
  by_contra hc
  rcases w.comes_back ho hcyc (by simpa using hc) with ⟨h, -⟩ | ⟨h, -⟩
  · rw [hu] at h
    cases h
  · rw [hd] at h
    cases h

theorem checking_of_updates (h : s.updates = true) : s.checking = true := by
  simp only [updates, Bool.and_eq_true, Bool.or_eq_true] at h
  rcases h.1.1.1.1 with h | h <;> simp_all [checking]

theorem not_leads_back (h : s.checking = false) : s.descends = false ∧ s.updates = false := by
  simp only [checking, Bool.or_eq_false_iff, beq_eq_false_iff_ne] at h
  simp [descends, updates, h]

end Moves

end Mmu

end MelonSoc
