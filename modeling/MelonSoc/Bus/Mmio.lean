import MelonSoc.Bus.Integrity

set_option autoImplicit false

/-! # MMIO pulses

A peripheral acts in every cycle in which it sees `cyc` and `stb`, so an access must show it
exactly one such cycle. `soc.sv` cuts the strobe after one cycle with `mmio_ack_q`. That is
right as long as the core keeps the bus until the acknowledge; a check of the walker that leads
back to the bus takes it away in between.
-/

namespace MelonSoc

/-! ## One peripheral for each address -/

/-- The word addresses of a peripheral. -/
def periphWords (p : Periph) (n : Nat) : Prop :=
  match p with
  | .leds => n = 0x400004
  | .uart => n = 0x400008 ∨ n = 0x400010
  | .i2c => 0x400020 ≤ n ∧ n ≤ 0x40002C
  | .timer => 0x400030 ≤ n ∧ n ≤ 0x400044
  | .spi => 0x400050 ≤ n ∧ n ≤ 0x40005C
  | .sd => (0x400060 ≤ n ∧ n ≤ 0x400074) ∨ (0x400080 ≤ n ∧ n < 0x400280)
  | .clint => n = 0x400000 ∨ n = 0x404000 ∨ n = 0x404004 ∨ n = 0x40BFF8 ∨ n = 0x40BFFC

/-- The addresses of the registers as numbers. -/
theorem ioAddr_toNat :
    ioLedsAddr.toNat = 0x400004 ∧ ioUartDatAddr.toNat = 0x400008 ∧
    ioUartCtrlAddr.toNat = 0x400010 ∧ ioI2cTxrxAddr.toNat = 0x400020 ∧
    ioI2cCmdAddr.toNat = 0x400024 ∧ ioI2cStatusAddr.toNat = 0x400028 ∧
    ioI2cDivAddr.toNat = 0x40002C ∧ ioTimerCtrlAddr.toNat = 0x400030 ∧
    ioTimerPrescAddr.toNat = 0x400034 ∧ ioTimerCountAddr.toNat = 0x400038 ∧
    ioTimerCmpAddr.toNat = 0x40003C ∧ ioTimerPeriodAddr.toNat = 0x400040 ∧
    ioTimerStatusAddr.toNat = 0x400044 ∧ ioSpiTxrxAddr.toNat = 0x400050 ∧
    ioSpiCtrlAddr.toNat = 0x400054 ∧ ioSpiStatusAddr.toNat = 0x400058 ∧
    ioSpiDivAddr.toNat = 0x40005C ∧ ioSdCmdAddr.toNat = 0x400060 ∧
    ioSdArgAddr.toNat = 0x400064 ∧ ioSdCtrlAddr.toNat = 0x400068 ∧
    ioSdResp0Addr.toNat = 0x40006C ∧ ioSdDebugAddr.toNat = 0x400070 ∧
    ioSdCrcAddr.toNat = 0x400074 ∧ ioSdDataAddr.toNat = 0x400080 ∧
    (ioSdDataAddr + 512#32).toNat = 0x400280 ∧ ioClintMsipAddr.toNat = 0x400000 ∧
    ioClintMtimecmpAddr.toNat = 0x404000 ∧ (ioClintMtimecmpAddr + 4#32).toNat = 0x404004 ∧
    ioClintMtimeAddr.toNat = 0x40BFF8 ∧ (ioClintMtimeAddr + 4#32).toNat = 0x40BFFC := by
  decide

theorem alignWord_beq (adr c : Word) :
    (alignWord adr == c) = true ↔ (alignWord adr).toNat = c.toNat := by
  rw [beq_iff_eq, BitVec.toNat_inj]

theorem alignWord_mod (adr : Word) : (alignWord adr).toNat % 4 = 0 := by
  rw [alignWord_toNat]
  omega

theorem periphSel_iff (p : Periph) (adr : Word) :
    periphSel p adr = true ↔ periphWords p (alignWord adr).toNat := by
  have hal := alignWord_mod adr
  have hio := ioAddr_toNat
  cases p <;>
    simp only [periphSel, periphWords, Bool.or_eq_true, Bool.and_eq_true, decide_eq_true_eq,
      alignWord_beq, BitVec.le_def, BitVec.lt_def] <;>
    omega

theorem isMappedMmio_iff (adr : Word) :
    isMappedMmio adr = true ↔ ∃ p, periphWords p (alignWord adr).toNat := by
  have hal := alignWord_mod adr
  have hio := ioAddr_toNat
  simp only [isMappedMmio, Bool.or_eq_true, Bool.and_eq_true, decide_eq_true_eq, alignWord_beq,
    BitVec.le_def, BitVec.lt_def]
  constructor
  · intro h
    have hcases : periphWords .leds (alignWord adr).toNat ∨
        periphWords .uart (alignWord adr).toNat ∨ periphWords .i2c (alignWord adr).toNat ∨
        periphWords .timer (alignWord adr).toNat ∨ periphWords .spi (alignWord adr).toNat ∨
        periphWords .sd (alignWord adr).toNat ∨ periphWords .clint (alignWord adr).toNat := by
      simp only [periphWords]
      omega
    rcases hcases with h | h | h | h | h | h | h <;> exact ⟨_, h⟩
  · rintro ⟨p, hp⟩
    cases p <;> simp only [periphWords] at hp <;> omega

/-- Every mapped MMIO address selects exactly one peripheral. -/
theorem periph_of_mmio {adr : Word} (h : isMappedMmio adr = true) :
    ∃ p, ∀ q, periphSel q adr = decide (q = p) := by
  obtain ⟨p, hp⟩ := (isMappedMmio_iff adr).mp h
  refine ⟨p, fun q => ?_⟩
  rw [Bool.eq_iff_iff, periphSel_iff, decide_eq_true_eq]
  constructor
  · intro hq
    cases p <;> cases q <;> simp only [periphWords] at hp hq <;> first | rfl | omega
  · rintro rfl
    exact hp

namespace Soc

/-! ## Pulses of an access -/

/-- The load or store in MEM is an MMIO access and completes in this cycle. -/
def mmioDone (i : SocIn) (s : Soc) : Bool :=
  s.hart.core.memReq && !s.hart.core.stallMem (s.coreIn i) && isMappedMmio s.hart.core.exMem.addr

/-- The cycles in which each peripheral has been strobed since the last completed access. -/
def pulsesNext (i : SocIn) (s : Soc) (c : Periph → Nat) : Periph → Nat :=
  fun p => if s.mmioDone i then 0 else c p + (s.periphStrobe p).toNat

/-- An access that completes has strobed one peripheral, its own, for one cycle. -/
def MmioOnce (i : SocIn) (s : Soc) (c : Periph → Nat) : Prop :=
  s.mmioDone i = true → ∃ p, periphSel p s.hart.core.exMem.addr = true ∧
    ∀ q, c q + (s.periphStrobe q).toNat = if q = p then 1 else 0

/-- The walker takes the bus back between the strobe of an MMIO access and its acknowledge. -/
def mmioConflict (s : Soc) : Bool :=
  s.coreReq.stb && isMappedMmio s.coreReq.adr && (s.hart.mmu.descends || s.hart.mmu.updates)

/-- `mmio_ack_q` is up only for the core's access, which is still on the bus, and the pulses so
far are the one it acknowledges. -/
structure Pulsed (s : Soc) (c : Periph → Nat) : Prop where
  ack : s.data.mmioAckQ = true →
    s.coreReq.stb = true ∧ isMappedMmio s.coreReq.adr = true ∧ s.hart.mmu.ownsBus = false
  count : ∀ p, c p = (s.data.mmioAckQ && periphSel p s.coreReq.adr).toNat

theorem pulsed_reset (m : Memories) : (Soc.reset m).Pulsed (fun _ => 0) where
  ack := by intro h; cases h
  count := fun _ => rfl

variable {i : SocIn} {s : Soc} {c : Periph → Nat}

/-- A load or store in MEM has the bus of the core. -/
theorem HartWf.coreReq_of_memReq (w : s.HartWf) (h : s.hart.core.memReq = true) :
    s.coreReq.stb = s.hart.core.memStarted ∧ s.coreReq.adr = s.hart.core.exMem.addr := by
  have hidle := w.core.idle_of_memReq h
  simp [coreReq, Core.dataReq, hidle, h]

/-- Atomics never go to MMIO, so an MMIO answer that the core takes completes the instruction in
MEM. -/
theorem mmioDone_iff (w : s.HartWf) : s.mmioDone i = true ↔
    s.coreConsumes i = true ∧ isMappedMmio s.coreReq.adr = true := by
  simp only [mmioDone, coreConsumes, Bool.and_eq_true, Bool.not_eq_true']
  constructor
  · rintro ⟨⟨hq, hst⟩, hm⟩
    obtain ⟨hstb, hadr⟩ := w.coreReq_of_memReq hq
    simp only [Core.stallMem, hq, Bool.true_and, Bool.or_eq_false_iff, Bool.not_eq_false'] at hst
    exact ⟨⟨by rw [hstb]; exact hst.1, hst.2⟩, by rw [hadr]; exact hm⟩
  · rintro ⟨⟨hstb, hack⟩, hm⟩
    rcases w.core.stb_cases hstb with ⟨hidle, hq, hst, -⟩ | ⟨hbusy, -, -⟩
    · have hadr : s.coreReq.adr = s.hart.core.exMem.addr := by simp [coreReq, Core.dataReq, hidle]
      rw [hadr] at hm
      exact ⟨⟨hq, by simp [Core.stallMem, hst, hack]⟩, hm⟩
    · have hadr : s.coreReq.adr = s.hart.core.atomic.addr := by
        simp [coreReq, Core.dataReq, hbusy]
      rw [hadr] at hm
      rcases w.mapped.atomicAddr w.core hbusy with hr | hr
      · rw [not_mmio_of_dataram hr] at hm
        cases hm
      · rw [not_mmio_of_ddr hr] at hm
        cases hm

/-- With `mmio_ack_q` up the access completes. -/
theorem Pulsed.done (v : s.Pulsed c) (w : s.HartWf) (h : s.data.mmioAckQ = true) :
    s.mmioDone i = true := by
  obtain ⟨hstb, hm, ho⟩ := v.ack h
  refine (mmioDone_iff w).mpr ⟨coreConsumes_iff.mpr ⟨hstb, ho, ?_⟩, hm⟩
  rw [dataRsp_ack, dataMux_mmio (by rw [dataReq_of_core ho]; exact hm)]
  exact h

/-- Without `mmio_ack_q` no access completes. -/
theorem not_done (w : s.HartWf) (h : s.data.mmioAckQ = false) : s.mmioDone i = false := by
  by_contra hc
  obtain ⟨hcons, hm⟩ := (mmioDone_iff w).mp (by simpa using hc)
  obtain ⟨-, ho, hack⟩ := coreConsumes_iff.mp hcons
  rw [dataRsp_ack, dataMux_mmio (by rw [dataReq_of_core ho]; exact hm), h] at hack
  cases hack

theorem mmioStrobe_of_core (w : s.HartWf) (h : s.mmioStrobe = true) :
    s.coreReq.stb = true ∧ isMappedMmio s.coreReq.adr = true ∧ s.hart.mmu.ownsBus = false ∧
      s.dataReq = s.coreReq := by
  simp only [mmioStrobe, Bool.and_eq_true] at h
  have ho := w.mmio_of_core h.2
  have hreq := dataReq_of_core ho
  rw [hreq] at h
  exact ⟨h.1.2, h.2, ho, hreq⟩

/-- A strobe that is not yet acknowledged stays on the bus without a conflict. -/
theorem HartWf.mmio_stays (w : s.HartWf) (hc : s.mmioConflict = false)
    (h : s.mmioStrobe = true) (hq : s.data.mmioAckQ = false) :
    (s.next i).coreReq = s.coreReq ∧ (s.next i).hart.mmu.ownsBus = false := by
  obtain ⟨hstb, hm, ho, hreq⟩ := mmioStrobe_of_core w h
  have hack : (s.dataRsp i).ack = false := by
    rw [dataRsp_ack, dataMux_mmio (by rw [hreq]; exact hm)]
    exact hq
  simp only [mmioConflict, hstb, hm, Bool.true_and, Bool.or_eq_false_iff] at hc
  have hcyc : (s.mmuIn i).coreData.cyc = true := Core.dataReq_stb_cyc hstb
  exact ⟨w.coreReq_stable hstb (.inr hack), w.control.keeps_off ho hcyc hc.1 hc.2⟩

theorem Pulsed.next (v : s.Pulsed c) (w : s.HartWf) (hc : s.mmioConflict = false) :
    (s.next i).Pulsed (s.pulsesNext i c) := by
  cases hq : s.data.mmioAckQ with
  | true =>
      -- the access completes: the acknowledge goes down and the count starts again
      have hdone := v.done (i := i) w hq
      refine ⟨fun h => ?_, fun p => ?_⟩
      · simp [dataNext, hq] at h
      · simp [pulsesNext, hdone, dataNext, hq]
  | false =>
      have hdone := not_done (i := i) w hq
      have hzero : ∀ p, c p = 0 := by
        intro p
        rw [v.count p, hq]
        rfl
      cases hs : s.mmioStrobe with
      | false =>
          refine ⟨fun h => ?_, fun p => ?_⟩
          · simp [dataNext, hs] at h
          · simp [pulsesNext, hdone, hzero, periphStrobe, hs, dataNext]
      | true =>
          obtain ⟨hstb, hm, -, hreq⟩ := mmioStrobe_of_core w hs
          obtain ⟨hsame, ho'⟩ := w.mmio_stays (i := i) hc hs hq
          refine ⟨fun _ => ⟨by rw [hsame]; exact hstb, by rw [hsame]; exact hm, ho'⟩, fun p => ?_⟩
          rw [hsame]
          simp [pulsesNext, hdone, hzero, periphStrobe, hs, hq, hreq, dataNext]

theorem Pulsed.once (v : s.Pulsed c) (w : s.HartWf) : s.MmioOnce i c := by
  intro hdone
  have hq : s.data.mmioAckQ = true := by
    by_contra hc
    rw [not_done w (by simpa using hc)] at hdone
    cases hdone
  simp only [mmioDone, Bool.and_eq_true] at hdone
  have hadr := (w.coreReq_of_memReq hdone.1.1).2
  obtain ⟨-, hm, -⟩ := v.ack hq
  obtain ⟨p, hp⟩ := periph_of_mmio hm
  refine ⟨p, by rw [← hadr, hp p]; simp, fun q => ?_⟩
  rw [v.count q, hq, hp q]
  by_cases hqp : q = p <;> simp [periphStrobe, hq, hqp]

end Soc

/-! ## Runs -/

/-- The pulses along the run. -/
def socPulses (m : Memories) (inp : Nat → SocIn) : Nat → Periph → Nat :=
  Clocked.history Soc.next Soc.pulsesNext inp (Soc.reset m) (fun _ => 0)

/-- **MMIO side effects happen exactly once.** -/
theorem mmio_once (m : Memories) (inp : Nat → SocIn) (n : Nat)
    (h : ∀ k, k < n → (socRun m inp k).mmioConflict = false) :
    (socRun m inp n).MmioOnce (inp n) (socPulses m inp n) := by
  have hv : (socRun m inp n).HartWf ∧ (socRun m inp n).Pulsed (socPulses m inp n) := by
    refine Clocked.history_invariant (P := fun s c => Soc.HartWf s ∧ Soc.Pulsed s c)
      (C := fun _ s => Soc.mmioConflict s = false) ⟨Soc.hartWf_reset m, Soc.pulsed_reset m⟩ ?_ h
    rintro i s c hc ⟨w, v⟩
    exact ⟨w.next i, v.next w hc⟩
  exact hv.2.once hv.1

/-- Page tables in the data RAM, with a page of code that ends with a load from the UART while
the next page is not yet in the ITLB. -/
def uartAtPageEnd : Memories :=
  Memories.ofWords
    [(0, 0x800000b7#32), (1, 0x01008093#32), (2, 0x18009073#32), (3, 0x00001137#32),
     (4, 0x80010113#32), (5, 0x30011073#32), (6, 0x004011b7#32), (7, 0xfe018193#32),
     (8, 0x34119073#32), (9, 0x30200073#32), (1016, 0x00402337#32), (1017, 0x00832283#32),
     (1019, 0x00402337#32), (1020, 0x00832383#32)]
    [(1, 0x4401#32), (1024, 0x4b#32), (1025, 0x44b#32), (1026, 0x1000c7#32)] []

/-- The first load of the program completes undisturbed. -/
theorem mmio_once_uart :
    (socRun uartAtPageEnd quietSoc 38).mmioDone (quietSoc 38) = true ∧
      (socRun uartAtPageEnd quietSoc 38).MmioOnce (quietSoc 38)
        (socPulses uartAtPageEnd quietSoc 38) := by
  have hquiet : Clocked.always Soc.next (fun _ s => !s.mmioConflict) quietSoc
      (Soc.reset uartAtPageEnd) 38 = true := by decide +kernel
  refine ⟨by decide +kernel, mmio_once uartAtPageEnd quietSoc 38 (fun k hk => ?_)⟩
  have hk' : (!(socRun uartAtPageEnd quietSoc k).mmioConflict) = true :=
    Clocked.always_iff.mp hquiet k hk
  simpa using hk'

/-- The second load strobes the UART before and after the walker reads the second-level entry:
its receive register is popped twice. -/
theorem uart_popped_twice :
    ¬ ∀ n, (socRun uartAtPageEnd quietSoc n).MmioOnce (quietSoc n)
      (socPulses uartAtPageEnd quietSoc n) := by
  intro h
  have hdone : (socRun uartAtPageEnd quietSoc 46).mmioDone (quietSoc 46) = true := by
    decide +kernel
  obtain ⟨p, -, hp⟩ := h 46 hdone
  have htwo : socPulses uartAtPageEnd quietSoc 46 .uart = 2 := by decide +kernel
  have huart := hp .uart
  rw [htwo] at huart
  split at huart <;> omega

end MelonSoc
