import MelonSoc.Bus.Mmio
import MelonSoc.Rtl.Uart

set_option autoImplicit false

/-! # Reading the UART

The SoC strobes the UART for one cycle of an access and acknowledges it in the next one, where the
CPU samples the word the UART presents. A read of DAT therefore pops the byte one cycle before the
CPU has it. The flags have to cover what a frame does that completes in between.
-/

namespace MelonSoc

namespace Uart

/-! ## What a clock edge does to the flags -/

namespace Rx

/-- The stop bit is sampled high in this cycle: the frame in `rx_shift` is complete. -/
def framed (ticks : Nat) (s : Rx) : Bool := s.state == .stop && s.bitDone ticks && s.rxdSync

/-- The stop bit is sampled low in this cycle. -/
def misframed (ticks : Nat) (s : Rx) : Bool := s.state == .stop && s.bitDone ticks && !s.rxdSync

variable {ticks : Nat} {i : RxIn} {s t : Rx}

theorem fsm_framed (h : s.framed ticks = true) :
    fsm ticks s t = { t with
      baudCnt := 0
      state := .idle
      rxOverrun := if s.rxValid then true else t.rxOverrun
      rxData := s.rxShift
      rxValid := true } := by
  simp only [framed, Bool.and_eq_true, beq_iff_eq] at h
  simp [fsm, h]

theorem fsm_misframed (h : s.misframed ticks = true) :
    fsm ticks s t = { t with baudCnt := 0, state := .idle, rxFrameErr := true } := by
  simp only [misframed, Bool.and_eq_true, beq_iff_eq, Bool.not_eq_true'] at h
  simp [fsm, h]

/-- The state machine leaves the flags alone until the stop bit. -/
theorem fsm_flags (h : s.framed ticks = false) (he : s.misframed ticks = false) :
    (fsm ticks s t).rxValid = t.rxValid ∧ (fsm ticks s t).rxData = t.rxData ∧
      (fsm ticks s t).rxOverrun = t.rxOverrun ∧ (fsm ticks s t).rxFrameErr = t.rxFrameErr := by
  cases hs : s.state with
  | idle => simp [fsm, hs]
  | start => by_cases hd : s.halfDone ticks = true <;> simp [fsm, hs, hd]
  | data =>
      by_cases hd : s.bitDone ticks = true
      · by_cases h7 : s.bitIndex = 7 <;> simp [fsm, hs, hd, h7]
      · simp [fsm, hs, hd]
  | stop =>
      have hd : s.bitDone ticks = false := by
        by_contra hc
        cases hb : s.rxdSync <;> simp_all [framed, misframed]
      simp [fsm, hs, hd]

theorem misframed_of_framed (h : s.framed ticks = true) : s.misframed ticks = false := by
  simp only [framed, Bool.and_eq_true] at h
  simp [misframed, h]

/-- What the edge does to the flags and to `rx_data`, in the three cases. -/
theorem next_flags :
    (s.next ticks i).rxValid = (s.framed ticks || (s.rxValid && !i.rxReady)) ∧
      (s.next ticks i).rxData = (if s.framed ticks then s.rxShift else s.rxData) ∧
      (s.next ticks i).rxOverrun =
        ((s.framed ticks && s.rxValid) || (s.rxOverrun && !i.clearOverrun)) ∧
      (s.next ticks i).rxFrameErr =
        (s.misframed ticks || (s.rxFrameErr && !i.clearFrameErr)) := by
  by_cases hf : s.framed ticks = true
  · have hm := misframed_of_framed hf
    cases hv : s.rxValid <;> simp [next, fsm_framed hf, hf, hm, hv, handshake]
  · rw [Bool.not_eq_true] at hf
    by_cases hm : s.misframed ticks = true
    · simp [next, fsm_misframed hm, hf, hm, handshake]
    · rw [Bool.not_eq_true] at hm
      obtain ⟨h1, h2, h3, h4⟩ := fsm_flags (t := s.handshake i) hf hm
      simp only [next, h1, h2, h3, h4, hf, hm]
      simp [handshake]

theorem next_rxValid :
    (s.next ticks i).rxValid = (s.framed ticks || (s.rxValid && !i.rxReady)) :=
  next_flags.1

theorem next_rxData :
    (s.next ticks i).rxData = if s.framed ticks then s.rxShift else s.rxData :=
  next_flags.2.1

theorem next_rxOverrun :
    (s.next ticks i).rxOverrun =
      ((s.framed ticks && s.rxValid) || (s.rxOverrun && !i.clearOverrun)) :=
  next_flags.2.2.1

theorem next_rxFrameErr :
    (s.next ticks i).rxFrameErr = (s.misframed ticks || (s.rxFrameErr && !i.clearFrameErr)) :=
  next_flags.2.2.2

end Rx

/-! ## The accesses of the CPU -/

/-- `mmio_bus.cyc && mmio_bus.stb`. -/
def strobe (b : WbReq) : Bool := b.cyc && b.stb

/-- `mmio_ack_q` in a cycle. -/
def mmioAckQ (bus : Nat → WbReq) : Nat → Bool
  | 0 => false
  | n + 1 => strobe (bus n) && !mmioAckQ bus n

/-- `mmio_uart_bus`. -/
def uartBus (b : WbReq) (ackQ : Bool) : WbReq :=
  { b with
    cyc := b.cyc && (selDat b || selCtrl b) && !ackQ
    stb := b.stb && (selDat b || selCtrl b) && !ackQ }

/-- What the CPU drives on the MMIO bus: a request stays until it is acknowledged. -/
structure Master where
  bus : Nat → WbReq
  held : ∀ n, strobe (bus n) = true → mmioAckQ bus n = false → bus (n + 1) = bus n

section Run

variable (ticks : Nat) (line : Nat → Bool) (m : Master)

/-- What the UART is given in a cycle. -/
def given (n : Nat) : Ctl := ctl (uartBus (m.bus n) (mmioAckQ m.bus n))

/-- The registers of the UART before a cycle. -/
def before (n : Nat) : Pair :=
  Clocked.run (fun (i : Bool × Ctl) s => s.next ticks i.1 i.2)
    (fun n => (line n, given m n)) Pair.reset n

/-- The CPU samples DAT in this cycle. -/
def samplesDat (n : Nat) : Bool :=
  strobe (m.bus n) && mmioAckQ m.bus n && !(m.bus n).we && selDat (m.bus n)

/-- The CPU samples CTRL in this cycle, and `RX_VALID` is 1. -/
def samplesValid (n : Nat) : Bool :=
  strobe (m.bus n) && mmioAckQ m.bus n && !(m.bus n).we && selCtrl (m.bus n) &&
    ((before ticks line m n).datR (m.bus n)).getLsbD 0

/-- The bytes of the frames that are complete. -/
def received : Nat → List (BitVec 8)
  | 0 => []
  | n + 1 =>
      let s := (before ticks line m n).rx
      if s.framed ticks then received n ++ [s.rxShift] else received n

/-- The bytes the CPU has read. -/
def got : Nat → List (BitVec 8)
  | 0 => []
  | n + 1 =>
      if samplesDat m n then got n ++ [((before ticks line m n).datR (m.bus n)).setWidth 8]
      else got n

/-- `RX_VALID` was read as 1 since the last read of DAT was issued. -/
def seenValid : Nat → Bool
  | 0 => false
  | n + 1 => !(given m n).rxReady && (seenValid n || samplesValid ticks line m n)

/-- The byte received last has not been read. -/
def unread : Nat → Bool
  | 0 => false
  | n + 1 =>
      (before ticks line m n).rx.framed ticks || (unread n && !samplesDat m n)

/-- A frame completes in this cycle and takes the place of a byte that the CPU does not get. -/
def overwrites (n : Nat) : Bool :=
  (before ticks line m n).rx.framed ticks && unread ticks line m n && !samplesDat m n

end Run

/-! ## The pulse and the sample -/

section Accesses

variable {m : Master} {n : Nat}

theorem given_rxReady : (given m n).rxReady =
    (strobe (m.bus n) && !mmioAckQ m.bus n && !(m.bus n).we && selDat (m.bus n)) := by
  show ((m.bus n).cyc && (selDat (m.bus n) || selCtrl (m.bus n)) && !mmioAckQ m.bus n &&
    ((m.bus n).stb && (selDat (m.bus n) || selCtrl (m.bus n)) && !mmioAckQ m.bus n) &&
    !(m.bus n).we && selDat (m.bus n)) = _
  cases selDat (m.bus n) with
  | false => simp
  | true => cases mmioAckQ m.bus n <;> simp [strobe]

/-- The CPU samples DAT in the cycle after the pop. -/
theorem samplesDat_succ : samplesDat m (n + 1) = (given m n).rxReady := by
  rw [given_rxReady, samplesDat, mmioAckQ]
  cases hs : strobe (m.bus n) with
  | false => simp
  | true =>
      cases hq : mmioAckQ m.bus n with
      | true => simp
      | false =>
          rw [m.held n hs hq, hs]
          simp

theorem samplesDat_zero : samplesDat m 0 = false := by
  simp [samplesDat, mmioAckQ]

variable {b : WbReq} {s : Pair}

theorem datR_dat (h : selDat b = true) : (s.datR b).setWidth 8 = s.rx.rxData := by
  rw [Pair.datR, if_pos h, Pair.dataRdata]
  simp

theorem datR_ctrl (h : selCtrl b = true) : (s.datR b).getLsbD 0 = s.rx.rxValid := by
  have hd : selDat b = false := by
    rw [selDat, beq_iff_eq.mp h]
    rfl
  rw [Pair.datR, hd, h]
  cases hv : s.rx.rxValid <;> cases ho : s.rx.rxOverrun <;> cases he : s.rx.rxFrameErr <;>
    cases ht : s.tx.txReady <;>
    simp [Pair.ctrlRdata, Pair.statusBit, hv, ho, he, ht]

end Accesses

/-! ## Nothing is lost silently -/

section Run

variable {ticks : Nat} {line : Nat → Bool} {m : Master} {n : Nat}

theorem before_succ : before ticks line m (n + 1) =
    (before ticks line m n).next ticks (line n) (given m n) := rfl

theorem samplesValid_valid (h : samplesValid ticks line m n = true) :
    (before ticks line m n).rx.rxValid = true := by
  simp only [samplesValid, Bool.and_eq_true] at h
  rw [← datR_ctrl h.1.2]
  exact h.2

/-- The bytes the CPU has read, and the one it has still to read, are those received. -/
structure InOrder (ticks : Nat) (line : Nat → Bool) (m : Master) (n : Nat) : Prop where
  seen : seenValid ticks line m n = true → (before ticks line m n).rx.rxValid = true
  once : samplesDat m n = true → (before ticks line m n).rx.rxValid = false
  bytes : received ticks line m n = got ticks line m n ++
    if (before ticks line m n).rx.rxValid || samplesDat m n
    then [(before ticks line m n).rx.rxData] else []

theorem inOrder_zero : InOrder ticks line m 0 where
  seen := by intro h; cases h
  once := by intro h; rw [samplesDat_zero] at h; cases h
  bytes := by rw [samplesDat_zero]; rfl

/-- One cycle: a read is issued only with `RX_VALID` seen, and the overrun flag stays down. -/
theorem InOrder.succ (h : InOrder ticks line m n)
    (hread : (given m n).rxReady = true → seenValid ticks line m n = true)
    (hover : (before ticks line m (n + 1)).rx.rxOverrun = false) :
    InOrder ticks line m (n + 1) := by
  have hpop : (given m n).rxReady = true → (before ticks line m n).rx.rxValid = true :=
    fun hp => h.seen (hread hp)
  -- a frame that completes finds no byte, else the overrun flag goes up
  have hfree : (before ticks line m n).rx.framed ticks = true →
      (before ticks line m n).rx.rxValid = false := by
    intro hf
    rw [before_succ, Pair.next, Rx.next_rxOverrun, hf, Bool.true_and, Bool.or_eq_false_iff] at hover
    exact hover.1
  have hvalid : (before ticks line m (n + 1)).rx.rxValid =
      ((before ticks line m n).rx.framed ticks ||
        ((before ticks line m n).rx.rxValid && !(given m n).rxReady)) := Rx.next_rxValid
  have hdata : (before ticks line m (n + 1)).rx.rxData =
      if (before ticks line m n).rx.framed ticks then (before ticks line m n).rx.rxShift
      else (before ticks line m n).rx.rxData := Rx.next_rxData
  refine ⟨fun hs => ?_, fun hs => ?_, ?_⟩
  · simp only [seenValid, Bool.and_eq_true, Bool.or_eq_true, Bool.not_eq_true'] at hs
    have hv : (before ticks line m n).rx.rxValid = true := hs.2.elim h.seen samplesValid_valid
    rw [hvalid, hv, hs.1]
    simp
  · rw [samplesDat_succ] at hs
    have hf : (before ticks line m n).rx.framed ticks = false := by
      by_contra hc
      rw [hfree (by simpa using hc)] at hpop
      exact absurd (hpop hs) (by simp)
    rw [hvalid, hf, hs]
    simp
  · -- what the CPU samples in this cycle is the byte that was popped
    have hgot : got ticks line m (n + 1) = got ticks line m n ++
        if samplesDat m n then [(before ticks line m n).rx.rxData] else [] := by
      rw [got]
      by_cases hs : samplesDat m n = true
      · have hsel : selDat (m.bus n) = true := by
          simp only [samplesDat, Bool.and_eq_true] at hs
          exact hs.2
        rw [if_pos hs, if_pos hs, datR_dat hsel]
      · rw [if_neg hs, if_neg hs, List.append_nil]
    have hbytes := h.bytes
    rw [hgot, hvalid, hdata, samplesDat_succ, received]
    by_cases hf : (before ticks line m n).rx.framed ticks = true
    · have hno : (given m n).rxReady = false := by
        by_contra hc
        rw [hfree hf] at hpop
        exact absurd (hpop (by simpa using hc)) (by simp)
      rw [hfree hf, Bool.false_or] at hbytes
      simp only [hf, hno, hfree hf, if_true, Bool.true_or]
      rw [hbytes]
    · rw [Bool.not_eq_true] at hf
      simp only [hf, Bool.false_eq_true, if_false, Bool.false_or]
      rw [hbytes, List.append_assoc]
      congr 1
      cases hv : (before ticks line m n).rx.rxValid with
      | false =>
          have hno : (given m n).rxReady = false := by
            by_contra hc
            rw [hv] at hpop
            exact absurd (hpop (by simpa using hc)) (by simp)
          simp [hno]
      | true =>
          have hs : samplesDat m n = false := by
            by_contra hc
            have hz := h.once (by simpa using hc)
            rw [hv] at hz
            cases hz
          cases hp : (given m n).rxReady <;> simp [hs]

/-- A byte that is not read yet is still announced, or it is being sampled. -/
theorem unread_valid (h : unread ticks line m n = true) :
    (before ticks line m n).rx.rxValid = true ∨ samplesDat m n = true := by
  induction n with
  | zero => cases h
  | succ n ih =>
      rw [unread, Bool.or_eq_true, Bool.and_eq_true, Bool.not_eq_true'] at h
      rw [before_succ, Pair.next, Rx.next_rxValid, samplesDat_succ]
      rcases h with hf | ⟨hu, hs⟩
      · exact .inl (by simp [hf])
      · have hv : (before ticks line m n).rx.rxValid = true := by
          rcases ih hu with hv | hc
          · exact hv
          · rw [hs] at hc
            cases hc
        cases hp : (given m n).rxReady with
        | true => exact .inr rfl
        | false => exact .inl (by simp [hv])

/-- A flag that is set in the cycle `k` stays up until it is cleared in a later one. -/
theorem flag_stays (flag : Nat → Bool) {raise clear : Nat → Bool} {k j : Nat}
    (step : ∀ n, flag (n + 1) = (raise n || (flag n && !clear n))) (hk : raise k = true)
    (hj : k < j) (hclear : ∀ c, k < c → c < j → clear c = false) : flag j = true := by
  induction j, hj using Nat.le_induction with
  | base => rw [step, hk, Bool.true_or]
  | succ j hj ih =>
      have hf : flag j = true := ih fun c h1 h2 => hclear c h1 (by omega)
      rw [step, hf, hclear j hj (Nat.lt_succ_self j)]
      simp

/-- **Nothing is lost silently.** While the overrun flag has stayed down the bytes the CPU has read
are those received, in order and each once, up to the one it has still to read. A byte that is
overwritten raises the overrun flag and a low stop bit the frame error flag, and each stays up until
a clear that comes later. -/
theorem nothing_lost_silently (ticks : Nat) (line : Nat → Bool) (m : Master) (n : Nat)
    (hread : ∀ k, k < n → (given m k).rxReady = true → seenValid ticks line m k = true) :
    ((∀ k, k ≤ n → (before ticks line m k).rx.rxOverrun = false) →
      received ticks line m n = got ticks line m n ++
        if (before ticks line m n).rx.rxValid || samplesDat m n
        then [(before ticks line m n).rx.rxData] else []) ∧
    (∀ k j, k < j → overwrites ticks line m k = true →
      (∀ c, k < c → c < j → (given m c).clearOverrun = false) →
      (before ticks line m j).rx.rxOverrun = true) ∧
    ∀ k j, k < j → (before ticks line m k).rx.misframed ticks = true →
      (∀ c, k < c → c < j → (given m c).clearFrameErr = false) →
      (before ticks line m j).rx.rxFrameErr = true := by
  refine ⟨fun hover => ?_, fun k j hkj how hclear => ?_, fun k j hkj herr hclear => ?_⟩
  · have hall : ∀ k, k ≤ n → InOrder ticks line m k := by
      intro k
      induction k with
      | zero => exact fun _ => inOrder_zero
      | succ k ih => exact fun hk => (ih (by omega)).succ (hread k hk) (hover (k + 1) hk)
    exact (hall n (Nat.le_refl n)).bytes
  · have hraise : ((before ticks line m k).rx.framed ticks &&
        (before ticks line m k).rx.rxValid) = true := by
      simp only [overwrites, Bool.and_eq_true, Bool.not_eq_true'] at how
      rcases unread_valid how.1.2 with hv | hs
      · rw [how.1.1, hv, Bool.true_and]
      · rw [how.2] at hs
        cases hs
    exact flag_stays (fun n => (before ticks line m n).rx.rxOverrun)
      (fun n => Rx.next_rxOverrun) hraise hkj hclear
  · exact flag_stays (fun n => (before ticks line m n).rx.rxFrameErr)
      (fun n => Rx.next_rxFrameErr) herr hkj hclear

end Run

/-! ## The masters there are -/

/-- Any sequence of accesses, each for two cycles. -/
def Master.ofAccesses (a : Nat → WbReq) : Master where
  bus n := a (n / 2)
  held n hs hq := by
    have hack : ∀ k, mmioAckQ (fun n => a (n / 2)) k = (strobe (a (k / 2)) && k % 2 == 1) := by
      intro k
      induction k with
      | zero => simp [mmioAckQ]
      | succ k ih =>
          rw [mmioAckQ, ih]
          rcases Nat.mod_two_eq_zero_or_one k with h0 | h1
          · have hdiv : (k + 1) / 2 = k / 2 := by omega
            have hmod : (k + 1) % 2 = 1 := by omega
            simp [h0, hdiv, hmod]
          · have hmod : (k + 1) % 2 = 0 := by omega
            simp [h1, hmod]
    rw [hack, hs, Bool.true_and, beq_eq_false_iff_ne] at hq
    have hdiv : (n + 1) / 2 = n / 2 := by omega
    rw [hdiv]

/-- A load of a word of the UART. -/
def load (adr : Word) : WbReq :=
  { adr := adr, datW := 0#32, sel := 0xF#4, we := false, cyc := true, stb := true, lock := false }

/-- A frame of the byte `0x35`, one tick a bit. -/
def frameLine (n : Nat) : Bool :=
  n = 0 ∨ (4 ≤ n ∧ (0x35#8).getLsbD (n - 4)) ∨ 12 ≤ n

/-- A status read and a data read. -/
def getc : Master :=
  .ofAccesses fun k =>
    if k = 8 then load ioUartCtrlAddr else if k = 9 then load ioUartDatAddr else load ioLedsAddr

theorem nothing_lost_silently_getc :
    got 1 frameLine getc 20 = [0x35#8] ∧ received 1 frameLine getc 20 = [0x35#8] := by
  have hquiet : ∀ k, k ≤ 20 → (before 1 frameLine getc k).rx.rxOverrun = false := by
    decide +kernel
  have hread : ∀ k, k < 20 → (given getc k).rxReady = true →
      seenValid 1 frameLine getc k = true := by
    decide +kernel
  have hall := (nothing_lost_silently 1 frameLine getc 20 hread).1 hquiet
  have hnone : ((before 1 frameLine getc 20).rx.rxValid || samplesDat getc 20) = false := by
    decide +kernel
  have hgot : got 1 frameLine getc 20 = [0x35#8] := by decide +kernel
  rw [hnone, hgot] at hall
  exact ⟨hgot, hall⟩

end Uart

namespace Soc

/-! ## The core as the master -/

/-- `mmio_bus`. -/
def mmioBus (s : Soc) : WbReq :=
  { s.dataReq with
    cyc := s.dataReq.cyc && isMappedMmio s.dataReq.adr
    stb := s.dataReq.stb && isMappedMmio s.dataReq.adr }

theorem strobe_mmioBus (s : Soc) : Uart.strobe s.mmioBus = s.mmioStrobe := by
  cases hm : isMappedMmio s.dataReq.adr <;> simp [Uart.strobe, mmioBus, mmioStrobe, hm]

/-- The core of a run in which the walker stays out of the MMIO accesses. -/
def mmioMaster (mem : Memories) (inp : Nat → SocIn)
    (h : ∀ k, (socRun mem inp k).mmioConflict = false) : Uart.Master where
  bus n := (socRun mem inp n).mmioBus
  held n hs hq := by
    have hack : ∀ k, Uart.mmioAckQ (fun n => (socRun mem inp n).mmioBus) k =
        (socRun mem inp k).data.mmioAckQ := by
      intro k
      induction k with
      | zero => rfl
      | succ k ih =>
          rw [Uart.mmioAckQ, ih, strobe_mmioBus]
          rfl
    rw [hack] at hq
    rw [strobe_mmioBus] at hs
    have w : (socRun mem inp n).HartWf :=
      Clocked.run_always (Soc.hartWf_reset mem) (fun i _ w => w.next i) n
    obtain ⟨hreq, ho⟩ := w.mmio_stays (i := inp n) (h n) hs hq
    obtain ⟨-, -, ho', hreq'⟩ := mmioStrobe_of_core w hs
    have hsame : (socRun mem inp (n + 1)).dataReq = (socRun mem inp n).dataReq := by
      rw [hreq', ← hreq]
      exact dataReq_of_core ho
    simp only [mmioBus, hsame]

end Soc

end MelonSoc
