import MelonSoc.Pipeline.Operands

set_option autoImplicit false

/-! # The requests of the core

The protocol of the MEM stage and the atomic unit on `core_data`: a strobe stays up with the
same request until its acknowledge and then goes down. Every address is mapped, since an access
to any other has trapped in EX.
-/

namespace MelonSoc

namespace Core

variable {i : CoreIn} {f : FetchIn} {s : Core}

/-- The accesses behind EX are to mapped addresses, those of atomics to memory. -/
structure Mapped (s : Core) : Prop where
  mem : s.memReq = true → isMappedDataAddress s.exMem.addr = true
  atomic : s.exMem.isAtomic = true → supportsAtomic s.exMem.addr = true

theorem mapped_reset : Core.reset.Mapped where
  mem := by intro h; cases h
  atomic := by intro h; cases h

/-- What the access check of EX lets pass. -/
theorem access_of_commits (h : s.commits i = true) (hm : s.idEx.isMem = true) :
    ((s.idEx.isLoad || s.idEx.isStore) = true → isMappedDataAddress i.dPaddr = true) ∧
      (s.idEx.isAtomic = true → supportsAtomic i.dPaddr = true) ∧
      (s.exMemOfEx i).addr = i.dPaddr := by
  have hf : s.exFire i = true := by
    simp only [commits, Bool.and_eq_true] at h
    exact h.1
  obtain ⟨hv, -, hat, -, hmmu⟩ := exFire_iff.mp hf
  have hx := dXlateReq_of_commits h hm
  have hready : i.dReqReady = true := by simpa [stallMmu, hx] using hmmu
  obtain ⟨-, -, -, hacc⟩ := clean_of_no_exception (exceptionInfo_of_commits h) hv hat
  simp only [exAccessFault, hv, hready, Bool.true_and, Bool.or_eq_false_iff,
    Bool.and_eq_false_iff, Bool.not_eq_false'] at hacc
  obtain ⟨⟨-, ha⟩, hl⟩ := hacc
  refine ⟨fun h1 => ?_, fun h1 => ?_, by simp [exMemOfEx, hx]⟩
  · rcases hl with hl | hl
    · rw [Bool.or_eq_true] at h1
      rcases h1 with h1 | h1 <;> simp [h1] at hl
    · exact hl
  · rcases ha with ha | ha
    · rw [h1] at ha
      cases ha
    · exact ha

theorem Mapped.next (m : s.Mapped) (w : s.Wf) (i : CoreIn) (f : FetchIn) :
    (s.next i f).Mapped := by
  cases w.step_cases i with
  | memWait _ _ _ _ hm =>
      have hq : (s.next i f).memReq = s.memReq := by simp [memReq, hm]
      refine ⟨?_, ?_⟩
      · rw [hq, next_exMem, hm]
        exact m.mem
      · rw [next_exMem, hm]
        exact m.atomic
  | atomicWait _ _ _ _ _ hm =>
      have hq : (s.next i f).memReq = s.memReq := by simp [memReq, hm]
      refine ⟨?_, ?_⟩
      · rw [hq, next_exMem, hm]
        exact m.mem
      · rw [next_exMem, hm]
        exact m.atomic
  | atomicDone _ _ _ _ _ hm =>
      refine ⟨fun h => ?_, fun h => ?_⟩
      · simp [memReq, hm] at h
      · simp [hm] at h
  | mmuWait _ _ hat _ _ _ hm =>
      refine ⟨fun h => ?_, fun h => ?_⟩
      · simp [memReq, hm] at h
      · simp [hm, hat] at h
  | divWait _ _ _ _ hdiv _ _ hm =>
      have hd := (w.flags.classes.of_div (w.stallDiv_isDIV hdiv).2).1
      simp only [IdEx.isMem, Bool.or_eq_false_iff] at hd
      refine ⟨fun h => ?_, fun h => ?_⟩
      · simp [memReq, hm, exMemOfEx, hd] at h
      · simp [hm, exMemOfEx, hd] at h
  | flow _ _ _ hfire _ _ _ hm =>
      by_cases hc : s.commits i = true
      · refine ⟨fun h => ?_, fun h => ?_⟩
        · rw [memReq, next_exMem, hm] at h
          have hl : (s.idEx.isLoad || s.idEx.isStore) = true := (Bool.and_eq_true _ _ ▸ h).2
          obtain ⟨h1, -, h3⟩ := access_of_commits hc (by simp [IdEx.isMem, hl])
          rw [next_exMem, hm, h3]
          exact h1 hl
        · rw [next_exMem, hm] at h ⊢
          have ha : s.idEx.isAtomic = true := by
            simp only [exMemOfEx, Bool.and_eq_true] at h
            exact h.1.2
          obtain ⟨-, h2, h3⟩ := access_of_commits hc (by simp [IdEx.isMem, ha])
          rw [h3]
          exact h2 ha
      · have hv : (s.exMemOfEx i).valid = false := by
          simp only [Bool.not_eq_true, commits, hfire] at hc
          exact hc
        refine ⟨fun h => ?_, fun h => ?_⟩
        · simp [memReq, hm, hv] at h
        · rw [next_exMem, hm] at h
          rw [(w.exMemOfEx_atomic h).1] at hv
          cases hv

/-! ## The handshake -/

theorem dataReq_stb_cyc (h : s.dataReq.stb = true) : s.dataReq.cyc = true := by
  simp only [dataReq, Bool.and_eq_true] at h ⊢
  exact h.1

/-- A strobe comes from the MEM stage or from the atomic unit. -/
theorem Wf.stb_cases (w : s.Wf) (h : s.dataReq.stb = true) :
    (s.atomic.state = .idle ∧ s.memReq = true ∧ s.memStarted = true ∧ s.exMem.isAtomic = false) ∨
      (s.atomic.state ≠ .idle ∧ s.atomic.started = true ∧ s.atomicBus = true) := by
  by_cases hidle : s.atomic.state = .idle
  · left
    have h' : s.memReq = true ∧ s.memStarted = true := by simpa [dataReq, hidle] using h
    refine ⟨hidle, h'.1, h'.2, ?_⟩
    by_contra hc
    obtain ⟨-, hl, hst, -⟩ := w.atomicMem (by simpa using hc)
    have hq := h'.1
    simp [memReq, hl, hst] at hq
  · right
    have hst : s.atomic.started = true := by
      simp only [dataReq, Bool.and_eq_true] at h
      simpa [hidle] using h.2
    exact ⟨hidle, hst, w.started hst⟩

theorem memReq_of_wait (hm : s.exMemNext i = s.exMem) : (s.next i f).memReq = s.memReq := by
  simp [memReq, hm]

/-- Without an acknowledge the request stays. -/
theorem Wf.dataReq_stable (w : s.Wf) (h : s.dataReq.stb = true) (ha : i.ack = false) :
    (s.next i f).dataReq = s.dataReq := by
  rcases w.stb_cases h with ⟨hidle, hq, hst, hat⟩ | ⟨hbusy, hst, hbus⟩
  · have hmem : s.stallMem i = true := by simp [stallMem, hq, ha]
    cases w.step_cases i with
    | memWait _ _ hfire _ hm =>
        have hr : s.redirects i = false := redirects_of_exHeld (by simp [exHeld, hmem])
        have hst' : s.memStartedNext i = true := by simp [memStartedNext, hr, hq, hst, ha]
        have hidle' : (s.atomicNext i).state = .idle := (atomicNext_idle i s hidle hat).1
        simp [dataReq, hidle', hidle, hst', hst, hm, memReq_of_wait hm, atomicBus]
    | atomicWait hc => rw [hat] at hc; cases hc
    | atomicDone hc => rw [hat] at hc; cases hc
    | mmuWait hc => rw [hmem] at hc; cases hc
    | divWait hc => rw [hmem] at hc; cases hc
    | flow hc => rw [hmem] at hc; cases hc
  · have hsame : (s.atomicNext i).state = s.atomic.state ∧
        (s.atomicNext i).started = s.atomic.started ∧
        (s.atomicNext i).addr = s.atomic.addr ∧
        (s.atomicNext i).storeData = s.atomic.storeData ∧
        (s.atomicNext i).newValue = s.atomic.newValue := by
      cases hs : s.atomic.state <;>
        simp_all [atomicBus, atomicNext, AtomicUnit.advance, AtomicUnit.busPhase]
    have hnd : s.atomic.state ≠ .complete := by
      intro hc
      simp [atomicBus, hc] at hbus
    cases w.step_cases i with
    | atomicWait _ _ _ _ _ hm =>
        simp only [dataReq, next_atomic, hsame, next_exMem, hm, memReq_of_wait hm, atomicBus]
        simp [hbusy]
    | memWait _ hc => exact absurd hc hbusy
    | atomicDone _ _ hc => exact absurd hc hnd
    | mmuWait _ hc => exact absurd hc hbusy
    | divWait _ hc => exact absurd hc hbusy
    | flow _ hc => exact absurd hc hbusy

/-- After an acknowledge the strobe is down for a cycle. -/
theorem Wf.dataReq_acked (w : s.Wf) (h : s.dataReq.stb = true) (ha : i.ack = true) :
    (s.next i f).dataReq.stb = false := by
  rcases w.stb_cases h with ⟨hidle, hq, hst, hat⟩ | ⟨hbusy, hst, hbus⟩
  · have hst' : s.memStartedNext i = false := by simp [memStartedNext, hst, ha]
    have hidle' : (s.atomicNext i).state = .idle := (atomicNext_idle i s hidle hat).1
    simp [dataReq, hidle', hst']
  · have hnext : (s.atomicNext i).state ≠ .idle ∧ (s.atomicNext i).started = false := by
      cases hs : s.atomic.state <;>
        simp_all [atomicBus, atomicNext, AtomicUnit.advance, AtomicUnit.busPhase]
    simp [dataReq, hnext]

/-- Every request is for a mapped address. -/
theorem Mapped.dataReq (m : s.Mapped) (w : s.Wf) (h : s.dataReq.cyc = true) :
    isMappedDataAddress s.dataReq.adr = true := by
  by_cases hidle : s.atomic.state = .idle
  · have hq : s.memReq = true := by simpa [Core.dataReq, hidle] using h
    have hadr : s.dataReq.adr = s.exMem.addr := by simp [Core.dataReq, hidle]
    rw [hadr]
    exact m.mem hq
  · have hadr : s.dataReq.adr = s.exMem.addr := by
      rw [← (w.taken hidle).1]
      simp [Core.dataReq, hidle]
    rw [hadr]
    have ha := m.atomic (w.busy hidle).1
    simp only [supportsAtomic, Bool.or_eq_true] at ha
    simp only [isMappedDataAddress, Bool.or_eq_true]
    exact .inl ha

/-- The atomic unit works on memory. -/
theorem Mapped.atomicAddr (m : s.Mapped) (w : s.Wf) (h : s.atomic.state ≠ .idle) :
    isDataramRegion s.atomic.addr = true ∨ isDdrRegion s.atomic.addr = true := by
  rw [(w.taken h).1]
  simpa [supportsAtomic] using m.atomic (w.busy h).1

/-! ## The captures of the atomic unit -/

/-- The cycle after the acknowledge of an LR or of the read of an AMO. -/
def capturing (s : Core) : Bool :=
  s.atomic.state == .lrCapture || s.atomic.state == .amoCapture

/-- A capture follows the acknowledge of a read of the same address. -/
theorem capturing_next (h : (s.next i f).capturing = true) :
    (s.atomic.state = .lrRead ∨ s.atomic.state = .amoRead) ∧ s.atomic.started = true ∧
      i.ack = true ∧ (s.atomicNext i).addr = s.atomic.addr := by
  revert h
  simp only [capturing, next_atomic, atomicNext, AtomicUnit.accept, AtomicUnit.advance,
    AtomicUnit.busPhase]
  cases hs : s.atomic.state <;> simp <;> (repeat' split) <;> simp_all

/-- The read that precedes a capture is on the bus. -/
theorem dataReq_of_read (w : s.Wf) (h : s.atomic.state = .lrRead ∨ s.atomic.state = .amoRead)
    (hst : s.atomic.started = true) :
    s.dataReq.stb = true ∧ s.dataReq.adr = s.atomic.addr ∧ s.dataReq.we = false := by
  have hidle : s.atomic.state ≠ .idle := by rcases h with h | h <;> simp [h]
  have hat := (w.busy hidle).1
  rcases h with h | h <;> simp [dataReq, h, hst, atomicBus, hat]

end Core

end MelonSoc
