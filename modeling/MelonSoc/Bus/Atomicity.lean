import MelonSoc.Bus.Integrity
import MelonSoc.Bus.AtomicUnit

set_option autoImplicit false

/-! # Atomic read-modify-writes

An AMO, an LR with its SC, and the A/D update of the walker each read a word and write it back
later. The two masters share one port, and `core_data.lock` is not among the things that keep
the walker away from it. This file follows the three windows through every run and names the
steps that break them.
-/

namespace MelonSoc

/-! ## The atomic unit -/

namespace Core

variable {i : CoreIn} {f : FetchIn} {s : Core}

/-- An AMO between its read and its write. -/
def amoOpen (s : Core) : Bool :=
  s.atomic.state == .amoCapture || s.atomic.state == .amoWrite

theorem amoOpen_next (h : (s.next i f).amoOpen = true) :
    (s.amoOpen = true ∨
      (s.atomic.state = .amoRead ∧ s.atomic.started = true ∧ i.ack = true)) ∧
      (s.next i f).atomic.addr = s.atomic.addr := by
  revert h
  simp only [amoOpen, next_atomic, atomicNext, AtomicUnit.accept, AtomicUnit.advance,
    AtomicUnit.busPhase]
  cases hs : s.atomic.state <;> simp <;> (repeat' split) <;> simp_all

/-- A reservation comes from an LR or is kept, and not over a store. -/
theorem reservation_next (h : (s.next i f).atomic.reservationValid = true) :
    (s.atomic.state = .lrCapture ∧
      (s.next i f).atomic.reservationWordAddr = wordOf s.atomic.addr) ∨
    (s.atomic.state ≠ .lrCapture ∧ s.atomic.reservationValid = true ∧
      (s.next i f).atomic.reservationWordAddr = s.atomic.reservationWordAddr ∧
      (s.exMem.valid && s.exMem.isStore && i.ack) = false) := by
  simp only [next_atomic, atomicNext, Bool.and_eq_true, Bool.not_eq_true',
    Bool.or_eq_false_iff] at h ⊢
  obtain ⟨hvalid, ⟨hstore, -⟩, -⟩ := h
  revert hvalid
  simp only [AtomicUnit.accept, AtomicUnit.advance, AtomicUnit.busPhase]
  cases hs : s.atomic.state <;> simp <;> (repeat' split) <;> simp_all

/-- An SC that writes holds the reservation of its word. -/
theorem Wf.scWrite_next (w : s.Wf) (hext : i.extWriteValid = false)
    (hold : s.atomic.state = .scWrite → s.atomic.reservationValid = true ∧
      s.atomic.reservationWordAddr = wordOf s.atomic.addr)
    (h : (s.next i f).atomic.state = .scWrite) :
    (s.next i f).atomic.reservationValid = true ∧
      (s.next i f).atomic.reservationWordAddr = wordOf (s.next i f).atomic.addr := by
  have hat : s.exMem.isAtomic = true := by
    by_contra hc
    have hidle : s.atomic.state = .idle := by
      by_contra hb
      exact hc (w.busy hb).1
    have hn := (atomicNext_idle i s hidle (by simpa using hc)).1
    rw [next_atomic, hn] at h
    cases h
  have hclear := w.reservation_kept (i := i) hat
  revert h
  simp only [next_atomic, atomicNext, hclear, hext, AtomicUnit.accept, AtomicUnit.advance,
    AtomicUnit.busPhase, AtomicUnit.holdsReservation]
  cases hs : s.atomic.state <;> simp <;> (repeat' split) <;> simp_all

/-- The write of an AMO is done without a reservation. -/
theorem amoWrite_next (hold : s.atomic.state = .amoWrite → s.atomic.reservationValid = false)
    (h : (s.next i f).atomic.state = .amoWrite) :
    (s.next i f).atomic.reservationValid = false := by
  revert h
  simp only [next_atomic, atomicNext, AtomicUnit.accept, AtomicUnit.advance,
    AtomicUnit.busPhase]
  cases hs : s.atomic.state <;> simp <;> (repeat' split) <;> simp_all

end Core
namespace Mmu

/-- A walk starts in this cycle. -/
def walkStarts (i : MmuIn) (s : Mmu) : Bool :=
  s.ptwState == .idle && (s.dataWalkStart i || s.instrWalkStart i)

theorem idle_of_no_start {i : MmuIn} {s : Mmu} (hs : s.ptwState = .idle)
    (h : s.walkStarts i = false) : (s.next i).ptwState = .idle := by
  simp only [walkStarts, hs, beq_self_eq_true, Bool.true_and, Bool.or_eq_false_iff] at h
  rw [next_idle hs, ptwIdle]
  simp [h, settle, hs]

end Mmu

namespace Soc

/-! ## Writes -/

/-- A write to the word is on the data bus. -/
def busWrites (s : Soc) (wd : BitVec 30) : Bool :=
  s.dataReq.cyc && s.dataReq.stb && s.dataReq.we && wordOf s.dataReq.adr == wd

/-- A write to the word reaches the data RAM or DDR at this edge. -/
def lands (i : SocIn) (s : Soc) (wd : BitVec 30) : Bool :=
  (s.ramStrobe && s.dataReq.we && wordOf s.dataReq.adr == wd) ||
    (s.bridgeRespond i && s.bridge.reqWe && wordOf s.bridge.reqAddr == wd)

/-- Whether the word of the last LR has been written since, but by its own SC. -/
def touchedNext (s : Soc) (t : Bool) : Bool :=
  let a := s.hart.core.atomic
  if a.state == .lrCapture then s.busWrites (wordOf a.addr)
  else t || (s.busWrites a.reservationWordAddr && !(a.state == .scWrite && !s.hart.mmu.ownsBus))

/-! ## The steps that break a window -/

/-- The core strobes with a store, an LR, an SC or an AMO. -/
def rmwStrobe (s : Soc) : Bool :=
  s.coreReq.stb && (s.coreReq.we || s.hart.core.atomic.state == .lrRead ||
    s.hart.core.atomic.state == .amoRead)

/-- A step after which a read-modify-write may lose an update:
a walk starts in `AMO_CAPTURE`; the core works on a word of the data RAM while the walker checks
it for its A/D update; the read of an AMO takes the acknowledge of the walker, which goes on to
that very word; or the walker updates a word under a reservation. -/
def rmwConflict (i : SocIn) (s : Soc) : Bool :=
  (s.hart.core.atomic.state == .amoCapture && s.hart.mmu.walkStarts (s.mmuIn i)) ||
  (s.hart.mmu.updates && s.rmwStrobe && isDataramRegion s.coreReq.adr &&
    wordOf s.hart.mmu.walkPteAddr == wordOf s.coreReq.adr) ||
  (s.hart.mmu.descends && s.rmwStrobe && s.hart.core.atomic.state == .amoRead &&
    isDataramRegion s.coreReq.adr && isDataramRegion s.hart.mmu.walkPteAddr &&
    wordOf s.hart.mmu.nextPteAddr == wordOf s.coreReq.adr) ||
  (s.hart.mmu.ptwState == .adWait && s.hart.core.atomic.reservationValid &&
    wordOf s.hart.mmu.walkPteAddr == s.hart.core.atomic.reservationWordAddr)

/-! ## The property -/

/-- The three windows in a cycle. -/
structure RmwSafe (i : SocIn) (s : Soc) (touched : Bool) : Prop where
  /-- From the read of an AMO to its write, its word is written by the AMO only. -/
  amo : s.hart.core.amoOpen = true → s.busWrites (wordOf s.hart.core.atomic.addr) = true →
    s.hart.mmu.ownsBus = false ∧ s.hart.core.atomic.state = .amoWrite
  /-- An SC that reports success writes a word nobody has written since the LR. -/
  sc : s.hart.core.atomic.state = .scWrite → s.coreConsumes i = true → touched = false
  /-- From the check of a leaf to its write-back, no write of the core reaches it. -/
  walk : s.hart.mmu.updates = true ∨ s.hart.mmu.ptwState = .adWait →
    s.lands i (wordOf s.hart.mmu.walkPteAddr) = true → s.hart.mmu.ownsBus = true
  /-- What reaches the memories was on the data bus, and nothing else changes a word. -/
  onBus : ∀ wd, s.lands i wd = true → s.busWrites wd = true
  frame : ∀ a, Mmu.Readable a → s.lands i (wordOf a) = false →
    (s.next i).mem.wordAt a = s.mem.wordAt a

/-! ## The invariant -/

/-- The walker keeps away from the word of an AMO or an LR, and the reservation is right. -/
structure Windows (s : Soc) (touched : Bool) : Prop where
  checkAck : s.hart.mmu.checking = true → s.data.ramAck = true →
    isDataramRegion s.hart.mmu.walkPteAddr = true
  amo : s.hart.core.amoOpen = true → s.hart.mmu.ownsBus = true ∨ s.hart.mmu.checking = true →
    wordOf s.hart.mmu.walkPteAddr ≠ wordOf s.hart.core.atomic.addr ∧
      s.hart.mmu.ptwState ≠ .l1Wait ∧ s.hart.mmu.ptwState ≠ .l1Check
  lr : s.hart.core.atomic.state = .lrCapture → s.hart.mmu.ptwState = .adWait →
    wordOf s.hart.mmu.walkPteAddr ≠ wordOf s.hart.core.atomic.addr
  scWrite : s.hart.core.atomic.state = .scWrite → s.hart.core.atomic.reservationValid = true ∧
    s.hart.core.atomic.reservationWordAddr = wordOf s.hart.core.atomic.addr
  amoWrite : s.hart.core.atomic.state = .amoWrite → s.hart.core.atomic.reservationValid = false
  /-- A store that has touched the word under a reservation is still waiting in MEM; its
  acknowledge ends the reservation. -/
  touched : touched = true → s.hart.core.atomic.reservationValid = true →
    s.hart.core.memReq = true ∧ s.hart.core.exMem.isStore = true

theorem windows_reset (m : Memories) : (Soc.reset m).Windows false where
  checkAck := by intro h; cases h
  amo := by intro h; cases h
  lr := by intro h; cases h
  scWrite := by intro h; cases h
  amoWrite := by intro h; cases h
  touched := by intro h; cases h

variable {i : SocIn} {s : Soc} {g : Origins} {t : Bool}

/-! ## Memory -/

theorem dataramIndex_inj {a b : Word} (ha : isDataramRegion a = true)
    (hb : isDataramRegion b = true) (h : dataramIndex a = dataramIndex b) :
    wordOf a = wordOf b := by
  rw [isDataramRegion_iff] at ha hb
  have h' := congrArg BitVec.toNat h
  simp only [dataramIndex, BitVec.extractLsb'_toNat, Nat.shiftRight_eq_div_pow] at h'
  apply BitVec.eq_of_toNat_eq
  simp only [wordOf, BitVec.extractLsb'_toNat, Nat.shiftRight_eq_div_pow]
  omega

/-- A word that no write reaches is unchanged. -/
theorem HartWf.wordAt_frame (w : s.HartWf) {a : Word} (ha : Mmu.Readable a)
    (h : s.lands i (wordOf a) = false) : (s.next i).mem.wordAt a = s.mem.wordAt a := by
  simp only [lands, Bool.or_eq_false_iff] at h
  obtain ⟨hram, hddr⟩ := h
  rcases ha with ha | ha
  · rw [Memories.wordAt, Memories.wordAt, not_ddr_of_dataram ha]
    show (s.memNext i).dataram (dataramIndex a) = s.mem.dataram (dataramIndex a)
    cases hw : s.ramStrobe && s.dataReq.we with
    | false => simp [memNext, hw]
    | true =>
        rw [hw, Bool.true_and, beq_eq_false_iff_ne] at hram
        have hr := ((ramStrobe_iff w).mp (Bool.and_eq_true _ _ ▸ hw).1).2.2
        have hne : dataramIndex a ≠ dataramIndex s.dataReq.adr :=
          fun he => hram (dataramIndex_inj hr ha he.symm)
        simp [memNext, hw, Function.update_of_ne hne]
  · rw [Memories.wordAt, Memories.wordAt, ha]
    show (s.memNext i).ddr (wordOf a) = s.mem.ddr (wordOf a)
    cases hw : s.bridgeRespond i && s.bridge.reqWe with
    | false => simp [memNext, hw]
    | true =>
        rw [hw, Bool.true_and, beq_eq_false_iff_ne] at hddr
        simp [memNext, hw, Function.update_of_ne (Ne.symm hddr)]

/-- A write that reaches DDR is the data transaction on the bus. -/
theorem Grants.ddr_write (d : s.Grants g) (hr : s.bridgeRespond i = true)
    (hw : s.bridge.reqWe = true) : s.InFlight g := by
  have hb := (bridgeRespond_spec hr).2
  refine d.flight (.inl hb) ?_
  by_contra hd
  rw [d.fetches hb (by simpa using hd)] at hw
  cases hw

theorem Grants.lands_on_bus (d : s.Grants g) {wd : BitVec 30} (h : s.lands i wd = true) :
    s.busWrites wd = true := by
  simp only [lands, Bool.or_eq_true, Bool.and_eq_true, beq_iff_eq] at h
  simp only [busWrites, Bool.and_eq_true, beq_iff_eq]
  rcases h with ⟨⟨hs, hw⟩, ha⟩ | ⟨⟨hr, hw⟩, ha⟩
  · simp only [ramStrobe, Bool.and_eq_true] at hs
    exact ⟨⟨⟨hs.1.1.1, hs.1.1.2⟩, hw⟩, ha⟩
  · have f := d.ddr_write hr hw
    exact ⟨⟨⟨f.cyc, f.stb⟩, by rw [← f.we]; exact hw⟩, by rw [← f.adr]; exact ha⟩

/-- A write on the bus of the walker is an A/D update. -/
theorem busWrites_walker {wd : BitVec 30} (h : s.busWrites wd = true)
    (ho : s.hart.mmu.ownsBus = true) :
    s.hart.mmu.ptwState = .adWait ∧ wordOf s.hart.mmu.walkPteAddr = wd := by
  simp only [busWrites, Bool.and_eq_true, beq_iff_eq] at h
  obtain ⟨hadr, -, -, hwe, -⟩ := walker_request ho
  rw [hwe, hadr] at h
  have hact : s.hart.mmu.walkActive = false := by simpa using h.1.2
  rw [Mmu.ownsBus, hact, Bool.false_or, beq_iff_eq] at ho
  exact ⟨ho, h.2⟩

/-- A write on the bus of the core is the store in MEM, an SC or an AMO. -/
theorem busWrites_core {wd : BitVec 30} (h : s.busWrites wd = true)
    (ho : s.hart.mmu.ownsBus = false) :
    s.coreReq.stb = true ∧ s.coreReq.we = true ∧ wordOf s.coreReq.adr = wd ∧
      ((s.hart.core.memReq = true ∧ s.hart.core.exMem.isStore = true) ∨
        s.hart.core.atomic.state = .scWrite ∨ s.hart.core.atomic.state = .amoWrite) := by
  simp only [busWrites, Bool.and_eq_true, beq_iff_eq, dataReq_of_core ho] at h
  obtain ⟨⟨⟨-, hstb⟩, hwe⟩, hwd⟩ := h
  refine ⟨hstb, hwe, hwd, ?_⟩
  simp only [coreReq, Core.dataReq, Bool.or_eq_true, Bool.and_eq_true, beq_iff_eq] at hwe
  rcases hwe with (h1 | h1) | ⟨⟨hv, hs⟩, -⟩
  · exact .inr (.inl h1)
  · exact .inr (.inr h1)
  · exact .inl ⟨by simp [Core.memReq, hv, hs], hs⟩

/-! ## The windows are kept -/

/-- An acknowledge that the core takes while the walker checks comes from the data RAM and was
meant for the walker. -/
theorem Grants.stolen (d : s.Grants g) (v : s.Windows t) (w : s.HartWf)
    (hmap : isMappedMmio s.coreReq.adr = false) (h : s.coreConsumes i = true)
    (hck : s.hart.mmu.checking = true) :
    isDataramRegion s.coreReq.adr = true ∧ isDataramRegion s.hart.mmu.walkPteAddr = true := by
  obtain ⟨hstb, ho, hack⟩ := coreConsumes_iff.mp h
  have hreq := dataReq_of_core ho
  have hm := w.mappedReq (by rw [hreq]; exact Core.dataReq_stb_cyc hstb)
  rw [dataRsp_ack] at hack
  rw [hreq] at hm
  rcases region_cases hm with ⟨hr, -⟩ | ⟨-, hr, -⟩ | ⟨-, -, hr⟩
  · rw [dataMux_ram w (by rw [hreq]; exact hr)] at hack
    exact ⟨hr, v.checkAck hck hack⟩
  · rw [dataMux_ddr (by rw [hreq]; exact hr)] at hack
    obtain ⟨hv, -, hd, -⟩ := ddrDataRsp_ack_iff.mp hack
    rw [d.checkFree hck hv] at hd
    cases hd
  · rw [hr] at hmap
    cases hmap

theorem HartWf.checkAck_next (w : s.HartWf) (hck : (s.next i).hart.mmu.checking = true)
    (hack : (s.next i).data.ramAck = true) :
    isDataramRegion (s.next i).hart.mmu.walkPteAddr = true := by
  have ho : s.hart.mmu.ownsBus = true := by
    by_contra hc
    rw [w.not_checking_next (by simpa using hc)] at hck
    cases hck
  have hr := ((ramStrobe_iff w).mp hack).2.2
  rw [(walker_request ho).1] at hr
  rw [(w.walker_moves (i := i) ho).1]
  exact hr

/-- The word of an atomic read that is acknowledged is not the next word of the walker. -/
theorem Windows.read_acked (v : s.Windows t) (d : s.Grants g) (w : s.HartWf)
    (hc : s.rmwConflict i = false)
    (hread : s.hart.core.atomic.state = .lrRead ∨ s.hart.core.atomic.state = .amoRead)
    (hst : s.hart.core.atomic.started = true) (hack : (s.coreIn i).ack = true) :
    (s.next i).hart.mmu.checking = false ∧
    ((s.next i).hart.mmu.ptwState = .adWait →
      wordOf (s.next i).hart.mmu.walkPteAddr ≠ wordOf s.hart.core.atomic.addr) ∧
    (s.hart.core.atomic.state = .amoRead → (s.next i).hart.mmu.ownsBus = true →
      wordOf (s.next i).hart.mmu.walkPteAddr ≠ wordOf s.hart.core.atomic.addr ∧
        (s.next i).hart.mmu.ptwState ≠ .l1Wait) := by
  obtain ⟨hstb, hadr, -⟩ := Core.dataReq_of_read w.core hread hst
  have hcons : s.coreConsumes i = true := by simp [coreConsumes, coreReq, hstb, hack]
  obtain ⟨-, ho, -⟩ := coreConsumes_iff.mp hcons
  have hcyc : (s.mmuIn i).coreData.cyc = true := Core.dataReq_stb_cyc hstb
  have hbusy : s.hart.core.atomic.state ≠ .idle := by rcases hread with h | h <;> simp [h]
  have hadr' : s.coreReq.adr = s.hart.core.atomic.addr := hadr
  have hmmio : isMappedMmio s.coreReq.adr = false := by
    rw [hadr']
    rcases w.mapped.atomicAddr w.core hbusy with hr | hr
    · exact not_mmio_of_dataram hr
    · exact not_mmio_of_ddr hr
  have hrmw : s.rmwStrobe = true := by
    have hstb' : s.coreReq.stb = true := hstb
    rcases hread with h | h <;> simp [rmwStrobe, hstb', h]
  simp only [rmwConflict, hrmw, Bool.or_eq_false_iff] at hc
  obtain ⟨⟨⟨-, hupd⟩, hdesc⟩, -⟩ := hc
  have hcome : (s.next i).hart.mmu.ownsBus = true →
      (s.hart.core.atomic.state = .amoRead ∨ (s.next i).hart.mmu.ptwState = .adWait) →
      wordOf (s.next i).hart.mmu.walkPteAddr ≠ wordOf s.hart.core.atomic.addr ∧
        (s.next i).hart.mmu.ptwState ≠ .l1Wait := by
    intro ho' hor
    rw [← hadr']
    rcases w.control.comes_back ho hcyc ho' with ⟨hu, hst', hpte⟩ | ⟨hd, hst', hpte⟩
    · obtain ⟨hr, -⟩ := d.stolen v w hmmio hcons (Mmu.checking_of_updates hu)
      rw [next_mmu, hst', hpte]
      exact ⟨by simpa [hu, hr] using hupd, by decide⟩
    · have hck : s.hart.mmu.checking = true := by
        simp [Mmu.checking, Mmu.checking_of_descends hd]
      obtain ⟨hr, hr'⟩ := d.stolen v w hmmio hcons hck
      rw [next_mmu, hst', hpte]
      rw [next_mmu, hst'] at hor
      have hamo : s.hart.core.atomic.state = .amoRead := by simpa using hor
      exact ⟨by simpa [hd, hamo, hr, hr'] using hdesc, by decide⟩
  refine ⟨w.not_checking_next ho, fun hw => ?_, fun hamo ho' => hcome ho' (.inl hamo)⟩
  have ho' : (s.next i).hart.mmu.ownsBus = true := Mmu.ownsBus_iff.mpr (.inr (.inr hw))
  exact (hcome ho' (.inr hw)).1

/-- The walker keeps away from the word of an AMO. -/
theorem Windows.amo_next (v : s.Windows t) (d : s.Grants g) (w : s.HartWf)
    (hc : s.rmwConflict i = false) (h : (s.next i).hart.core.amoOpen = true)
    (hw : (s.next i).hart.mmu.ownsBus = true ∨ (s.next i).hart.mmu.checking = true) :
    wordOf (s.next i).hart.mmu.walkPteAddr ≠ wordOf (s.next i).hart.core.atomic.addr ∧
      (s.next i).hart.mmu.ptwState ≠ .l1Wait ∧ (s.next i).hart.mmu.ptwState ≠ .l1Check := by
  rw [next_core] at h
  obtain ⟨hold, hadr⟩ := Core.amoOpen_next h
  rw [next_core, hadr]
  rcases hold with hopen | ⟨hread, hst, hack⟩
  · -- the window was open, and the walker goes on with another word
    rw [next_mmu] at hw ⊢
    cases w.control.control_step (s.mmuIn i) with
    | wait ho _ hst hpte =>
        obtain ⟨h1, h2, h3⟩ := v.amo hopen (.inl ho)
        rw [hst, hpte]
        exact ⟨h1, h2, h3⟩
    | read hact _ hck hpte =>
        obtain ⟨h1, h2, -⟩ := v.amo hopen (.inl (by rw [Mmu.ownsBus, hact, Bool.true_or]))
        have hl0 : s.hart.mmu.ptwState = .l0Wait := by
          rcases Mmu.walkActive_iff.mp hact with hl | hl
          · exact absurd hl h2
          · exact hl
        have hnext : (s.hart.mmu.next (s.mmuIn i)).ptwState ≠ .l1Check := by
          rw [Mmu.next_l0Wait hl0, Mmu.ptwWait]
          split
          · simp
          · simp
        refine ⟨by rw [hpte]; exact h1, ?_, hnext⟩
        intro hl
        simp [Mmu.checking, hl] at hck
    | finish hck _ hst hpte =>
        obtain ⟨h1, -, -⟩ := v.amo hopen (.inr hck)
        rcases hst with hst | hst | hst
        · refine ⟨?_, by rw [hst]; decide, by rw [hst]; decide⟩
          rw [hpte (by rw [hst]; decide)]
          exact h1
        · simp [Mmu.ownsBus, Mmu.walkActive, Mmu.checking, hst] at hw
        · simp [Mmu.ownsBus, Mmu.walkActive, Mmu.checking, hst] at hw
    | descend hd =>
        have hl1 := Mmu.checking_of_descends hd
        exact absurd hl1 (v.amo hopen (.inr (by simp [Mmu.checking, hl1]))).2.2
    | start hidle hcyc hst =>
        -- only `AMO_CAPTURE` has no cycle on the bus
        have hcap : s.hart.core.atomic.state = .amoCapture := by
          simp only [Core.amoOpen, Bool.or_eq_true, beq_iff_eq] at hopen
          rcases hopen with h | h
          · exact h
          · simp [coreReq, Core.dataReq, Core.atomicBus, h] at hcyc
        simp only [rmwConflict, hcap, Bool.or_eq_false_iff] at hc
        have hno : s.hart.mmu.walkStarts (s.mmuIn i) = false := by simpa using hc.1.1.1
        rw [Mmu.idle_of_no_start hidle hno] at hst
        cases hst
    | rest _ hst => simp [Mmu.ownsBus, Mmu.walkActive, Mmu.checking, hst] at hw
    | startFault _ _ hst => simp [Mmu.ownsBus, Mmu.walkActive, Mmu.checking, hst] at hw
    | written _ _ hst => simp [Mmu.ownsBus, Mmu.walkActive, Mmu.checking, hst] at hw
    | filled _ hst => simp [Mmu.ownsBus, Mmu.walkActive, Mmu.checking, hst] at hw
    | fault _ hst =>
        rcases hst with hst | hst <;>
          simp [Mmu.ownsBus, Mmu.walkActive, Mmu.checking, hst] at hw
  · obtain ⟨hck, -, hne⟩ := v.read_acked d w hc (.inr hread) hst hack
    have ho : (s.next i).hart.mmu.ownsBus = true := by
      rcases hw with h | h
      · exact h
      · rw [hck] at h
        cases h
    obtain ⟨h1, h2⟩ := hne hread ho
    refine ⟨h1, h2, fun hl => ?_⟩
    rw [Mmu.checking, hl] at hck
    cases hck

/-- A write under a reservation is the store in MEM. -/
theorem Windows.touched_next (v : s.Windows t) (w : s.HartWf) (hc : s.rmwConflict i = false)
    (ht : s.touchedNext t = true) (hr : (s.next i).hart.core.atomic.reservationValid = true) :
    (s.next i).hart.core.memReq = true ∧ (s.next i).hart.core.exMem.isStore = true := by
  rw [next_core] at hr
  have hstays : s.hart.core.memReq = true ∧ s.hart.core.exMem.isStore = true →
      (s.hart.core.exMem.valid && s.hart.core.exMem.isStore && (s.coreIn i).ack) = false →
      (s.next i).hart.core.memReq = true ∧ (s.next i).hart.core.exMem.isStore = true := by
    rintro ⟨hq, hs⟩ hack
    have hv : s.hart.core.exMem.valid = true := by
      simp only [Core.memReq, Bool.and_eq_true] at hq
      exact hq.1
    rw [hv, hs, Bool.true_and, Bool.true_and] at hack
    have hstall : s.hart.core.stallMem (s.coreIn i) = true := by simp [Core.stallMem, hq, hack]
    have hkeep : s.hart.core.exMemNext (s.coreIn i) = s.hart.core.exMem := by
      cases w.core.step_cases (s.coreIn i) with
      | memWait _ _ _ _ hm => exact hm
      | atomicWait _ h => rw [hq] at h; cases h
      | atomicDone _ h => rw [hq] at h; cases h
      | mmuWait h => rw [hstall] at h; cases h
      | divWait h => rw [hstall] at h; cases h
      | flow h => rw [hstall] at h; cases h
    rw [next_core]
    exact ⟨by rw [Core.memReq_of_wait hkeep]; exact hq, by rw [Core.next_exMem, hkeep]; exact hs⟩
  rcases Core.reservation_next hr with ⟨hlr, -⟩ | ⟨hlr, hvalid, -, hack⟩
  · -- the window opens: nobody writes the word in the cycle of the capture
    exfalso
    simp only [touchedNext, hlr, beq_self_eq_true, if_true] at ht
    by_cases ho : s.hart.mmu.ownsBus = true
    · obtain ⟨hst, hwd⟩ := busWrites_walker ht ho
      exact v.lr hlr hst hwd
    · obtain ⟨hstb, -⟩ := busWrites_core ht (by simpa using ho)
      rcases w.core.stb_cases hstb with ⟨hidle, -⟩ | ⟨-, -, hbus⟩
      · rw [hlr] at hidle
        cases hidle
      · simp [Core.atomicBus, hlr] at hbus
  · simp only [touchedNext, beq_iff_eq, hlr, if_false, Bool.or_eq_true, Bool.and_eq_true] at ht
    rcases ht with ht | ⟨ht, hown⟩
    · exact hstays (v.touched ht hvalid) hack
    · by_cases ho : s.hart.mmu.ownsBus = true
      · obtain ⟨hst, hwd⟩ := busWrites_walker ht ho
        simp [rmwConflict, hst, hvalid, hwd] at hc
      · obtain ⟨-, -, -, hkind⟩ := busWrites_core ht (by simpa using ho)
        rcases hkind with hstore | hsc | hamo
        · exact hstays hstore hack
        · simp [hsc, ho] at hown
        · rw [v.amoWrite hamo] at hvalid
          cases hvalid

theorem Windows.next (v : s.Windows t) (d : s.Grants g) (w : s.HartWf)
    (hc : s.rmwConflict i = false) : (s.next i).Windows (s.touchedNext t) where
  checkAck := w.checkAck_next
  amo := v.amo_next d w hc
  lr := by
    intro hlr hw
    have hcap : (s.next i).hart.core.capturing = true := by simp only [Core.capturing, hlr]; rfl
    rw [next_core] at hcap hlr ⊢
    obtain ⟨hread, hst, hack, hadr⟩ := Core.capturing_next hcap
    rw [Core.next_atomic, hadr]
    exact (v.read_acked d w hc hread hst hack).2.1 hw
  scWrite := by
    rw [next_core]
    exact w.core.scWrite_next rfl v.scWrite
  amoWrite := by
    rw [next_core]
    exact Core.amoWrite_next v.amoWrite
  touched := v.touched_next w hc

/-! ## The property holds -/

/-- While the walker checks a leaf that it will update, no write of the core reaches it. -/
theorem Grants.walk_safe (d : s.Grants g) (w : s.HartWf) (hc : s.rmwConflict i = false)
    (hu : s.hart.mmu.updates = true ∨ s.hart.mmu.ptwState = .adWait)
    (hl : s.lands i (wordOf s.hart.mmu.walkPteAddr) = true) : s.hart.mmu.ownsBus = true := by
  rcases hu with hu | hu
  · exfalso
    have hck := Mmu.checking_of_updates hu
    have ho := Mmu.not_owns_of_checking hck
    simp only [lands, Bool.or_eq_true, Bool.and_eq_true, beq_iff_eq] at hl
    rcases hl with ⟨⟨hs, hwe⟩, hwd⟩ | ⟨⟨hr, hwe⟩, -⟩
    · obtain ⟨-, hstb, hr⟩ := (ramStrobe_iff w).mp hs
      rw [dataReq_of_core ho] at hstb hr hwe hwd
      simp [rmwConflict, rmwStrobe, hu, hstb, hwe, hr, hwd] at hc
    · rw [(d.ddr_write hr hwe).noCheck] at hck
      cases hck
  · exact Mmu.ownsBus_iff.mpr (.inr (.inr hu))

theorem Windows.safe (v : s.Windows t) (d : s.Grants g) (w : s.HartWf)
    (hc : s.rmwConflict i = false) : s.RmwSafe i t where
  amo := by
    intro hopen hwrites
    have ho : s.hart.mmu.ownsBus = false := by
      by_contra hno
      have ho : s.hart.mmu.ownsBus = true := by simpa using hno
      exact (v.amo hopen (.inl ho)).1 (busWrites_walker hwrites ho).2
    refine ⟨ho, ?_⟩
    simp only [Core.amoOpen, Bool.or_eq_true, beq_iff_eq] at hopen
    rcases hopen with hcap | h
    · obtain ⟨hstb, -⟩ := busWrites_core hwrites ho
      rcases w.core.stb_cases hstb with ⟨hidle, -⟩ | ⟨-, -, hbus⟩
      · rw [hcap] at hidle
        cases hidle
      · simp [Core.atomicBus, hcap] at hbus
    · exact h
  sc := by
    intro hsc _
    by_contra ht
    have hstore := v.touched (by simpa using ht) (v.scWrite hsc).1
    have hidle := w.core.idle_of_memReq hstore.1
    rw [hsc] at hidle
    cases hidle
  walk := d.walk_safe w hc
  onBus := fun _ => d.lands_on_bus
  frame := fun _ ha => w.wordAt_frame ha

end Soc

/-! ## Runs -/

/-- Whether the word of the last LR has been written since. -/
def socTouched (m : Memories) (inp : Nat → SocIn) : Nat → Bool :=
  Clocked.history Soc.next (fun _ => Soc.touchedNext) inp (Soc.reset m) false

theorem socRun_windows (m : Memories) (inp : Nat → SocIn) {n : Nat}
    (h : ∀ k, k < n → (socRun m inp k).rmwConflict (inp k) = false) :
    (socRun m inp n).Windows (socTouched m inp n) := by
  induction n with
  | zero => exact Soc.windows_reset m
  | succ n ih =>
      have hn := ih (fun k hk => h k (Nat.lt_succ_of_lt hk))
      obtain ⟨w, d⟩ := socRun_grants m inp n
      rw [socTouched, Clocked.history_succ]
      exact hn.next d w (h n (Nat.lt_succ_self n))

/-- **Atomicity of read-modify-writes.** -/
theorem rmw_safe (m : Memories) (inp : Nat → SocIn) (n : Nat)
    (h : ∀ k, k ≤ n → (socRun m inp k).rmwConflict (inp k) = false) :
    (socRun m inp n).RmwSafe (inp n) (socTouched m inp n) := by
  obtain ⟨w, d⟩ := socRun_grants m inp n
  exact (socRun_windows m inp (fun k hk => h k (Nat.le_of_lt hk))).safe d w
    (h n (Nat.le_refl n))

/-- An LR and an SC on a leaf of the page table, with a load through that leaf in between; the
leaf lacks A. -/
def reservedLeaf : Memories :=
  Memories.ofWords
    [(0, 0x800000b7#32), (1, 0x01008093#32), (2, 0x18009073#32), (3, 0x00021137#32),
     (4, 0x80010113#32), (5, 0x30011073#32), (6, 0x00010337#32), (7, 0x00430313#32),
     (8, 0x100322af#32), (9, 0x00400437#32), (10, 0x00042383#32), (11, 0x00010337#32),
     (12, 0x00430313#32), (13, 0x185324af#32)]
    [(0, 0xc7#32), (1, 0x20000007#32)] [(0x20000000, 0x1234#32)]

/-- The cycle after the LR of the program. -/
theorem rmw_safe_lr :
    (socRun reservedLeaf quietSoc 22).hart.core.atomic.state = .lrCapture ∧
      (socRun reservedLeaf quietSoc 22).RmwSafe (quietSoc 22)
        (socTouched reservedLeaf quietSoc 22) := by
  have hquiet : Clocked.always Soc.next (fun i s => !s.rmwConflict i) quietSoc
      (Soc.reset reservedLeaf) 23 = true := by decide +kernel
  refine ⟨by decide +kernel, rmw_safe reservedLeaf quietSoc 22 (fun k hk => ?_)⟩
  have hk' : (!(socRun reservedLeaf quietSoc k).rmwConflict (quietSoc k)) = true :=
    Clocked.always_iff.mp hquiet k (Nat.lt_succ_of_le hk)
  simpa using hk'

/-- The walker sets A in the reserved leaf, and the SC succeeds nevertheless and clears it. -/
theorem sc_loses_update :
    ¬ ∀ n, (socRun reservedLeaf quietSoc n).RmwSafe (quietSoc n)
      (socTouched reservedLeaf quietSoc n) := by
  intro h
  have hsc : (socRun reservedLeaf quietSoc 43).hart.core.atomic.state = .scWrite := by
    decide +kernel
  have hack : (socRun reservedLeaf quietSoc 43).coreConsumes (quietSoc 43) = true := by
    decide +kernel
  have hclean := (h 43).sc hsc hack
  have htouched : socTouched reservedLeaf quietSoc 43 = true := by decide +kernel
  rw [htouched] at hclean
  cases hclean

end MelonSoc
