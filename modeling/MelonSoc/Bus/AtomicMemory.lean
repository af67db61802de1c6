import MelonSoc.Bus.AtomicUnit
import MelonSoc.Bus.Integrity

set_option autoImplicit false

/-! # Atomic instructions and memory

In the SoC the words that the atomic unit reads and writes are those of the memories: what it
captures is the word at its address, and when it reports completion its write is in memory.
-/

namespace MelonSoc

theorem mergeBytes_bit (old w : Word) (sel : BitVec 4) (k : Nat) (hk : k < 32) :
    (mergeBytes old w sel).getLsbD k = if sel.getLsbD (k / 8) then w.getLsbD k else old.getLsbD k := by
  have hlane : ∀ n b, k = 8 * n + b → b < 8 →
      (if sel.getLsbD n then w.extractLsb' (8 * n) 8 else old.extractLsb' (8 * n) 8).getLsbD b =
        if sel.getLsbD (k / 8) then w.getLsbD k else old.getLsbD k := by
    intro n b h hb
    have hn : k / 8 = n := by omega
    rw [hn]
    split
    · simp [hb, h]
    · simp [hb, h]
  simp only [mergeBytes, BitVec.getLsbD_append]
  by_cases h0 : k < 8
  · simp only [h0, if_true]
    exact hlane 0 k (by omega) (by omega)
  · by_cases h1 : k - 8 < 8
    · simp only [h0, h1, if_true, if_false]
      exact hlane 1 (k - 8) (by omega) (by omega)
    · by_cases h2 : k - 8 - 8 < 8
      · simp only [h0, h1, h2, if_true, if_false]
        exact hlane 2 (k - 8 - 8) (by omega) (by omega)
      · simp only [h0, h1, h2, if_false]
        exact hlane 3 (k - 8 - 8 - 8) (by omega) (by omega)

theorem mergeBytes_idem (old w : Word) (sel : BitVec 4) :
    mergeBytes (mergeBytes old w sel) w sel = mergeBytes old w sel := by
  apply BitVec.eq_of_getLsbD_eq
  intro k hk
  rw [mergeBytes_bit _ _ _ _ hk, mergeBytes_bit _ _ _ _ hk]
  split
  · rfl
  · rfl

/-- A write with all byte enables replaces the word. -/
theorem mergeBytes_word (old w : Word) : mergeBytes old w 0b1111#4 = w := by
  apply BitVec.eq_of_getLsbD_eq
  intro k hk
  have hsel : ∀ n : Fin 4, (0b1111#4).getLsbD n.val = true := by decide
  rw [mergeBytes_bit _ _ _ _ hk, if_pos (hsel ⟨k / 8, by omega⟩)]
/-- Without an acknowledge the unit completes only after the capture of an LR. -/
theorem Core.lrCapture_of_complete {i : CoreIn} {f : FetchIn} {s : Core} (w : s.Wf)
    (hbusy : s.atomic.state ≠ .idle) (hack : ¬ (s.dataReq.stb && i.ack) = true)
    (h : (s.next i f).atomic.state = .complete) : s.atomic.state = .lrCapture := by
  rw [w.stb_of_busy hbusy] at hack
  revert h
  simp only [next_atomic, atomicNext, AtomicUnit.advance, AtomicUnit.busPhase]
  cases hs : s.atomic.state <;> cases hst : s.atomic.started <;> cases ha : i.ack <;> simp_all

namespace Soc

variable {i : SocIn} {s : Soc} {g : Origins}

/-- What the bridge has written is in DDR until the bridge takes the next request. -/
def BridgeWritten (s : Soc) : Prop :=
  s.bridge.rspAckPending = true ∨ s.bridge.ack = true → s.bridge.reqWe = true →
    s.mem.ddr (wordOf s.bridge.reqAddr) =
      mergeBytes (s.mem.ddr (wordOf s.bridge.reqAddr)) s.bridge.reqDatW s.bridge.reqSel

theorem BridgeWritten.next (b : s.BridgeWritten) : (s.next i).BridgeWritten := by
  intro h hwe
  rw [next_bridge] at h hwe ⊢
  rw [next_mem]
  cases bridge_step i s with
  | finish hp hn _ hr =>
      rw [hn] at hwe ⊢
      have := b (.inl hp) hwe
      simpa [memNext, hr] using this
  | respond hr hn =>
      rw [hn] at hwe ⊢
      have hwe' : s.bridge.reqWe = true := hwe
      simp [memNext, hr, hwe', mergeBytes_idem]
  | accept ha hn =>
      rw [hn] at h
      simp [(bridgeAccept_spec ha).1] at h
  | rest hp hn =>
      rw [hn] at h
      simp [hp] at h

/-- What the core writes to DDR is in memory when it is acknowledged. -/
theorem Grants.merged (d : s.Grants g) (b : s.BridgeWritten) (h : s.coreConsumes i = true)
    (hwe : s.coreReq.we = true) (hddr : isDdrRegion s.coreReq.adr = true) :
    s.bridgeRespond i = false ∧ s.mem.ddr (wordOf s.coreReq.adr) =
      mergeBytes (s.mem.ddr (wordOf s.coreReq.adr)) s.coreReq.datW s.coreReq.sel := by
  obtain ⟨-, ho, hack⟩ := coreConsumes_iff.mp h
  have hreq := dataReq_of_core ho
  have hddr' : isDdrRegion s.dataReq.adr = true := by rw [hreq]; exact hddr
  rw [dataRsp_ack, dataMux_ddr hddr'] at hack
  obtain ⟨-, -, hd, hb⟩ := ddrDataRsp_ack_iff.mp hack
  have f := d.flight (.inr hb) hd
  have hword := b (.inr hb) (by rw [f.we, hreq]; exact hwe)
  rw [f.adr, f.datW, f.sel, hreq] at hword
  exact ⟨by simp [bridgeRespond, d.acked hb], hword⟩

/-- A word that the core writes is in memory after the acknowledge. -/
theorem Grants.stored (d : s.Grants g) (b : s.BridgeWritten) (w : s.HartWf)
    (h : s.coreConsumes i = true) (hwe : s.coreReq.we = true) (hsel : s.coreReq.sel = 0b1111#4)
    (hmem : isDataramRegion s.coreReq.adr = true ∨ isDdrRegion s.coreReq.adr = true) :
    (s.next i).mem.wordAt s.coreReq.adr = s.coreReq.datW := by
  rw [next_mem, Memories.wordAt]
  rcases hmem with hr | hr
  · obtain ⟨hstb, ho, -⟩ := coreConsumes_iff.mp h
    have hreq := dataReq_of_core ho
    have hcyc : s.coreReq.cyc = true := Core.dataReq_stb_cyc hstb
    rw [not_ddr_of_dataram hr]
    have hstrobe : s.ramStrobe = true := (ramStrobe_iff w).mpr (by rw [hreq]; exact ⟨hcyc, hstb, hr⟩)
    simp [memNext, hstrobe, hreq, hwe, hsel, mergeBytes_word]
  · obtain ⟨hnr, hword⟩ := d.merged b h hwe hr
    rw [hsel, mergeBytes_word] at hword
    simp [memNext, hnr, hr, hword]

/-- No page walk is in progress while the core is on the bus. -/
def walkFree (s : Soc) : Bool := !s.coreReq.stb || s.hart.mmu.ptwState == .idle

theorem ramConflict_of_walkFree (h : s.walkFree = true) : s.ramConflict = false := by
  simp only [walkFree, Bool.or_eq_true, Bool.not_eq_true', beq_iff_eq] at h
  rcases h with h | h
  · simp [ramConflict, h]
  · have hd : s.hart.mmu.descends = false := by
      by_contra hc
      rw [Mmu.checking_of_descends (by simpa using hc)] at h
      cases h
    simp [ramConflict, Mmu.checking, h, hd]

/-- The last write of the instruction that the unit reports as complete is in memory. -/
def AtomicStored (s : Soc) (b : AtomicBook) : Prop :=
  s.hart.core.atomic.state = .complete → ∀ t, b.acked.head? = some t → t.we = true →
    s.mem.wordAt t.adr = t.datW

/-- The requests of the atomic unit are for whole words of the memories. -/
theorem HartWf.atomicReq (w : s.HartWf) (h : s.hart.core.atomic.state ≠ .idle) :
    s.coreReq.sel = 0b1111#4 ∧
      (isDataramRegion s.coreReq.adr = true ∨ isDdrRegion s.coreReq.adr = true) := by
  have hadr : s.coreReq.adr = s.hart.core.atomic.addr := by
    simp [coreReq, Core.dataReq, h]
  rw [hadr]
  exact ⟨by simp [coreReq, Core.dataReq, h], w.mapped.atomicAddr w.core h⟩

theorem Grants.atomicStored_next (d : s.Grants g) (w : s.HartWf) (b : s.BridgeWritten)
    {book : AtomicBook} (ok : s.hart.core.BookOk book) :
    (s.next i).AtomicStored (s.hart.core.bookNext (s.coreIn i) book) := by
  intro hc t ht hwe
  rw [next_core] at hc
  by_cases hidle : s.hart.core.atomic.state = .idle
  · simp [Core.bookNext, hidle] at ht
  · have hb : (s.hart.core.atomic.state == .idle) = false := by simpa using hidle
    by_cases hack : (s.hart.core.dataReq.stb && (s.coreIn i).ack) = true
    · simp only [Core.bookNext, hb, hack] at ht
      cases ht
      simp only [Bool.and_eq_true] at hack
      obtain ⟨hsel, hmem⟩ := w.atomicReq hidle
      exact d.stored b w (by simp [coreConsumes, coreReq, hack]) hwe hsel hmem
    · -- only the capture of an LR completes without an acknowledge
      have hlr := Core.lrCapture_of_complete w.core hidle hack hc
      simp only [Core.bookNext, hack, ok.acked hidle, Core.txnsDone, hlr] at ht
      cases ht
      cases hwe

end Soc

/-! ## Runs -/

/-- What the core receives along a run of the SoC. -/
def socFeed (m : Memories) (inp : Nat → SocIn) (k : Nat) : CoreIn × FetchIn :=
  let s := socRun m inp k
  (s.coreIn (inp k), s.hart.fetchIn (s.hartIn (inp k)) (s.instrRsp (inp k)))

theorem socRun_core (m : Memories) (inp : Nat → SocIn) (n : Nat) :
    (socRun m inp n).hart.core = coreRun (socFeed m inp) n :=
  Clocked.run_project (fun s => s.hart.core)
    (fun i s => (s.coreIn i, s.hart.fetchIn (s.hartIn i) (s.instrRsp i))) (fun _ _ => rfl)
    inp (Soc.reset m) n

theorem socRun_stored (m : Memories) (inp : Nat → SocIn) (n : Nat) :
    (socRun m inp n).BridgeWritten ∧
      (socRun m inp n).AtomicStored (atomicBook (socFeed m inp) n) := by
  induction n with
  | zero =>
      refine ⟨fun h => ?_, fun h => ?_⟩
      · rcases h with h | h <;> cases h
      · cases h
  | succ n ih =>
      obtain ⟨w, d⟩ := socRun_grants m inp n
      have ok := (coreRun_book (socFeed m inp) (n := n) (fun _ _ => rfl)).2
      rw [← socRun_core] at ok
      rw [atomicBook, Clocked.history_succ]
      refine ⟨ih.1.next, ?_⟩
      show ((socRun m inp n).next (inp n)).AtomicStored
        ((coreRun (socFeed m inp) n).bookNext (socFeed m inp n).1 (atomicBook (socFeed m inp) n))
      rw [← socRun_core]
      exact d.atomicStored_next w ih.1 ok

/-- **LR, SC and the AMOs.** In every run of the core without writes from outside, an atomic that
completes has done what it says; `x0` keeps its value; and if acknowledges keep coming, every
atomic in EX/MEM completes. In every run of the SoC in which no page walk is in progress while the
core is on the bus, the words captured are those in memory, and what was written is there. -/
theorem atomics_correct :
    (∀ inp : Nat → CoreIn × FetchIn, (∀ k, (inp k).1.extWriteValid = false) →
      (∀ n, (coreRun inp n).atomicComplete = true →
        ∃ e older, executed inp n = e :: older ∧ e.insn.isAtomic = true ∧
          (coreRun inp n).AtomicDone (atomicBook inp n) e) ∧
      (∀ n, (coreRun inp n).regBank 0#5 = 0#32) ∧
      ((∀ k, ∃ k', k ≤ k' ∧ (inp k').1.ack = true) → ∀ n,
        (coreRun inp n).exMem.isAtomic = true →
        ∃ k, n ≤ k ∧ (coreRun inp k).atomicComplete = true ∧
          (executed inp k).length = (executed inp n).length)) ∧
    (∀ (m : Memories) (inp : Nat → SocIn) (n : Nat),
      (∀ k, k ≤ n → (socRun m inp k).walkFree = true) →
      ((socRun m inp n).hart.core.capturing = true →
        ((socRun m inp n).coreIn (inp n)).datR
          = (socRun m inp n).mem.wordAt (socRun m inp n).hart.core.atomic.addr) ∧
      (socRun m inp n).AtomicStored (atomicBook (socFeed m inp) n)) := by
  constructor
  · intro inp hext
    refine ⟨fun n => atomic_done inp n (fun k _ => hext k), fun n => ?_, atomic_completes inp⟩
    induction n with
    | zero => rfl
    | succ n ih => exact Core.regBankNext_zero.trans ih
  · intro m inp n h
    obtain ⟨w, d⟩ := socRun_delivery m inp
      (fun k hk => Soc.ramConflict_of_walkFree (h k (Nat.le_of_lt hk)))
    exact ⟨d.captured_word w, (socRun_stored m inp n).2⟩

/-- An LR and its SC, an SC without a reservation, and an `amomax` on a word of the data RAM. -/
def atomicProgram : Memories :=
  Memories.ofWords
    [(0, 0x00010137#32), (1, 0x00700193#32), (2, 0x100122af#32), (3, 0x1831232f#32),
     (4, 0x183123af#32), (5, 0xa031242f#32)] [(0, 0xfffffffb#32)] []

/-- `lr.w x5, (x2)` on a bus whose acknowledge is always up. -/
def acknowledgedLr (n : Nat) : CoreIn × FetchIn :=
  ({ quietIn with ack := true },
   { rdata := if n = 1 then 0x100122af#32 else 0x00000013#32
     stall := false, fault := false, pageFault := false })

/-- The SC of the program completes in cycle 18; on a bus that always acknowledges, an LR does. -/
theorem atomics_correct_sc :
    (∃ e older, executed (socFeed atomicProgram quietSoc) 18 = e :: older ∧
      e.insn.isAtomic = true ∧
      (coreRun (socFeed atomicProgram quietSoc) 18).AtomicDone
        (atomicBook (socFeed atomicProgram quietSoc) 18) e) ∧
    (∃ k, 5 ≤ k ∧ (coreRun acknowledgedLr k).atomicComplete = true ∧
      (executed acknowledgedLr k).length = (executed acknowledgedLr 5).length) ∧
    ((socRun atomicProgram quietSoc 11).coreIn (quietSoc 11)).datR
      = (socRun atomicProgram quietSoc 11).mem.wordAt
        (socRun atomicProgram quietSoc 11).hart.core.atomic.addr := by
  refine ⟨?_, ?_, ?_⟩
  · refine (atomics_correct.1 (socFeed atomicProgram quietSoc) (fun _ => rfl)).1 18 ?_
    rw [← socRun_core]
    decide +kernel
  · exact (atomics_correct.1 acknowledgedLr (fun _ => rfl)).2.2
      (fun k => ⟨k, Nat.le_refl k, rfl⟩) 5 (by decide +kernel)
  · have hfree : Clocked.always Soc.next (fun _ s => s.walkFree) quietSoc
        (Soc.reset atomicProgram) 12 = true := by decide +kernel
    exact (atomics_correct.2 atomicProgram quietSoc 11
      (fun k hk => Clocked.always_iff.mp hfree k (Nat.lt_succ_of_le hk))).1 (by decide +kernel)

end MelonSoc
