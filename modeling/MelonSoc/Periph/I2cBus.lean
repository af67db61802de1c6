import MelonSoc.Lib.Clocked
import MelonSoc.Rtl.I2c

set_option autoImplicit false

/-! # The I2C master on its two lines

Data on SDA may change while SCL is low; with SCL released a falling edge is a START and a rising
one a STOP. The engine moves both lines in one tick: where it pulls SCL low it also sets SDA, and
where it ends an acknowledge or a STOP it releases both. The first is a change while SCL is low,
if the tick counts as low; the second is none in any reading, and a slave sees no STOP. Commands
without these ticks obey the protocol, and no others.
-/

namespace MelonSoc

namespace I2cMmio

/-! ## Commands -/

/-- The bits of CMD. -/
def wantsStart (c : Word) : Bool := c.getLsbD 0
def wantsStop (c : Word) : Bool := c.getLsbD 1
def wantsWrite (c : Word) : Bool := c.getLsbD 2
def wantsRead (c : Word) : Bool := c.getLsbD 3
def wantsAck (c : Word) : Bool := c.getLsbD 4

/-- Nine clock periods belong to the command. -/
def wantsClocks (c : Word) : Bool := wantsStart c || wantsWrite c || wantsRead c

/-- The command with the byte `tx` in TXRX has none of the ticks that go wrong. In the strict
reading it must not move SDA at all. -/
def Gentle (strict : Bool) (c : Word) (tx : BitVec 8) : Prop :=
  wantsStop c = false ∧
    (wantsAck c = true → wantsRead c = false ∧ (wantsStart c = true → wantsWrite c = true)) ∧
    (strict = true → wantsStart c = false ∧
      (wantsWrite c = true → wantsRead c = false → tx = 0xFF#8))

/-! ## The lines over a run -/

section Run

variable (inp : Nat → In) (s₀ : I2cMmio)

/-- The registers before cycle `n`. -/
abbrev after (n : Nat) : I2cMmio := Clocked.run next inp s₀ n

/-- A command is accepted in cycle `n`. -/
def Accepted (n : Nat) : Prop := accepts (inp n).bus (after inp s₀ n) = true

/-- Cycle `m` belongs to the command accepted in cycle `n`. -/
def During (n m : Nat) : Prop := n ≤ m ∧ ∀ k, n < k → k ≤ m → (after inp s₀ k).busy = true

/-- The master moves SDA at the end of cycle `n`. -/
def SdaMoves (n : Nat) : Prop :=
  (after inp s₀ (n + 1)).sdaDriveLow ≠ (after inp s₀ n).sdaDriveLow

/-- SCL is released through the end of cycle `n`. -/
def SclReleased (n : Nat) : Prop :=
  (after inp s₀ n).sclDriveLow = false ∧ (after inp s₀ (n + 1)).sclDriveLow = false

/-- SDA falls with SCL released. -/
def StartEdge (n : Nat) : Prop :=
  SclReleased inp s₀ n ∧ (after inp s₀ n).sdaDriveLow = false ∧
    (after inp s₀ (n + 1)).sdaDriveLow = true

/-- SDA rises with SCL released. -/
def StopEdge (n : Nat) : Prop :=
  SclReleased inp s₀ n ∧ (after inp s₀ n).sdaDriveLow = true ∧
    (after inp s₀ (n + 1)).sdaDriveLow = false

/-- SCL is driven low as the next value of SDA appears, and in the strict reading before that
too. -/
def WhileLow (strict : Bool) (n : Nat) : Prop :=
  (after inp s₀ (n + 1)).sclDriveLow = true ∧
    (strict = true → (after inp s₀ n).sclDriveLow = true)

/-- The rising edges of SCL in the `k` cycles from cycle `n` on. -/
def clocks (n : Nat) : Nat → Nat
  | 0 => 0
  | k + 1 =>
      clocks n k +
        if (after inp s₀ (n + k)).sclDriveLow && !(after inp s₀ (n + k + 1)).sclDriveLow then 1
        else 0

/-- The master obeys the protocol of the bus. -/
structure Obeys (strict : Bool) : Prop where
  /-- SDA changes while SCL is low, but for a START and a STOP. -/
  data : ∀ n, SdaMoves inp s₀ n →
    WhileLow inp s₀ strict n ∨ StartEdge inp s₀ n ∨ StopEdge inp s₀ n
  /-- A command with START has one, -/
  start : ∀ n, Accepted inp s₀ n → wantsStart (inp n).bus.datW = true →
    ∃! m, During inp s₀ n m ∧ StartEdge inp s₀ m
  /-- before its clock. -/
  startFirst : ∀ n m, Accepted inp s₀ n → During inp s₀ n m → StartEdge inp s₀ m →
    wantsStart (inp n).bus.datW = true ∧
      ∀ k, n < k → k ≤ m → (after inp s₀ k).sclDriveLow = false
  /-- A command with STOP has one, and moves SDA no more after it. -/
  stop : ∀ n, Accepted inp s₀ n → wantsStop (inp n).bus.datW = true →
    ∃ m, During inp s₀ n m ∧ StopEdge inp s₀ m ∧
      ∀ k, m < k → During inp s₀ n k → ¬SdaMoves inp s₀ k
  stopOnly : ∀ n m, Accepted inp s₀ n → During inp s₀ n m → StopEdge inp s₀ m →
    wantsStop (inp n).bus.datW = true ∧
      ∀ m', During inp s₀ n m' → StopEdge inp s₀ m' → m' = m
  /-- Between commands there is neither. -/
  idle : ∀ m, StartEdge inp s₀ m ∨ StopEdge inp s₀ m →
    ∃ n, Accepted inp s₀ n ∧ During inp s₀ n m
  /-- A READ with ACK holds SDA low while the ninth clock is high. -/
  ninth : ∀ n k, Accepted inp s₀ n → wantsRead (inp n).bus.datW = true →
    wantsAck (inp n).bus.datW = true → During inp s₀ n (n + k) → clocks inp s₀ n k = 9 →
    (after inp s₀ (n + k)).sclDriveLow = false → (after inp s₀ (n + k)).sdaDriveLow = true

end Run

/-! ## What the lines are in each state -/

/-- The lines in the states of the command `c`. -/
def Lines (c : Word) (s : I2cMmio) : Prop :=
  match s.state with
  | .idle => False
  | .start => wantsStart c = true ∧ s.sclDriveLow = false ∧ s.sdaDriveLow = false
  | .bit0 => wantsClocks c = true ∧ s.sclDriveLow = false
  | .bit1 =>
      wantsClocks c = true ∧ s.sclDriveLow = true ∧
        s.sdaDriveLow = (s.opWrite && !s.shiftReg.getLsbD s.bitIdx.toNat)
  | .ack0 => wantsClocks c = true ∧ s.sclDriveLow = false
  | .ack1 =>
      wantsClocks c = true ∧ s.sclDriveLow = true ∧ s.sdaDriveLow = (!s.opWrite && s.cmdAck)
  | .stop0 => wantsStop c = true ∧ s.sclDriveLow = false ∧ s.sdaDriveLow = false
  | .stop1 => wantsStop c = true ∧ s.sclDriveLow = true ∧ s.sdaDriveLow = true
  | .done => s.sclDriveLow = false ∧ s.sdaDriveLow = false

/-- The engine works on the command `c` with the byte `tx`. -/
structure Working (c : Word) (tx : BitVec 8) (s : I2cMmio) : Prop where
  busy : s.busy = true
  stop : s.needStop = wantsStop c
  write : s.opWrite = (wantsWrite c && !wantsRead c)
  read : s.opRead = wantsRead c
  ack : s.cmdAck = wantsAck c
  data : wantsRead c = false → s.shiftReg = tx
  lines : Lines c s

/-- The engine is idle and has released both lines. -/
structure Rest (s : I2cMmio) : Prop where
  busy : s.busy = false
  scl : s.sclDriveLow = false
  sda : s.sdaDriveLow = false

section Step

variable {i : In} {s : I2cMmio} {c : Word} {tx : BitVec 8}

theorem engine_rest (hb : s.busy = false) (ha : accepts i.bus s = false) : engine i s = s := by
  simp [engine, hb, ha]

theorem engine_accept (ha : accepts i.bus s = true) : engine i s = accept i.bus.datW s s := by
  have hb : s.busy = false := by
    simp only [accepts, Bool.and_eq_true, Bool.not_eq_true'] at ha
    exact ha.2
  simp [engine, hb, ha]

theorem engine_wait (hb : s.busy = true) (hc : s.divCnt ≠ 0#16) :
    engine i s = { s with divCnt := s.divCnt - 1#16 } := by
  simp [engine, tick, accepts, hb, hc]

theorem engine_tick (hb : s.busy = true) (hc : s.divCnt = 0#16) : engine i s = edge i s s := by
  simp [engine, tick, accepts, hb, hc]

/-- The state a command begins in. -/
def entry (c : Word) : State :=
  if wantsStart c then .start
  else if wantsWrite c || wantsRead c then .bit0
  else if wantsStop c then .stop0
  else .done

theorem accept_state (s : I2cMmio) : (accept c s s).state = entry c := rfl

theorem lines_accept (c : Word) (s : I2cMmio) : Lines c (accept c s s) := by
  unfold Lines
  rw [accept_state]
  by_cases hstart : wantsStart c = true
  · rw [entry, if_pos hstart]
    exact ⟨hstart, rfl, rfl⟩
  · by_cases hop : (wantsWrite c || wantsRead c) = true
    · rw [entry, if_neg hstart, if_pos hop]
      exact ⟨by rw [wantsClocks, Bool.or_assoc, hop, Bool.or_true], rfl⟩
    · by_cases hstop : wantsStop c = true
      · rw [entry, if_neg hstart, if_neg hop, if_pos hstop]
        exact ⟨hstop, rfl, rfl⟩
      · rw [entry, if_neg hstart, if_neg hop, if_neg hstop]
        exact ⟨rfl, rfl⟩

theorem working_accept (ha : accepts i.bus s = true) :
    Working i.bus.datW s.txReg (next i s) := by
  rw [next, engine_accept ha]
  exact ⟨rfl, rfl, rfl, rfl, rfl, fun _ => rfl, lines_accept i.bus.datW s⟩

theorem Rest.next (h : Rest s) (ha : accepts i.bus s = false) : Rest (next i s) := by
  rw [I2cMmio.next, engine_rest h.busy ha]
  exact ⟨h.busy, h.scl, h.sda⟩

/-- What a tick does to the lines and to the state, state by state. -/
inductive Ticks (c : Word) (s t : I2cMmio) : Prop
  | start (hs : s.state = .start) (hc : wantsStart c = true) (ht : t.state = .bit0)
      (hi : t.bitIdx = s.bitIdx) (hscl : s.sclDriveLow = false) (hscl' : t.sclDriveLow = false)
      (hsda : s.sdaDriveLow = false) (hsda' : t.sdaDriveLow = true)
  | bit0 (hs : s.state = .bit0) (ht : t.state = .bit1) (hi : t.bitIdx = s.bitIdx)
      (hscl : s.sclDriveLow = false) (hscl' : t.sclDriveLow = true)
      (hsda' : t.sdaDriveLow = (s.opWrite && !s.shiftReg.getLsbD s.bitIdx.toNat))
  | bit1 (hs : s.state = .bit1)
      (ht : (s.bitIdx = 0#3 ∧ t.state = .ack0) ∨
        (s.bitIdx ≠ 0#3 ∧ t.state = .bit0 ∧ t.bitIdx = s.bitIdx - 1#3))
      (hscl : s.sclDriveLow = true) (hscl' : t.sclDriveLow = false)
      (hsda : t.sdaDriveLow = s.sdaDriveLow)
  | ack0 (hs : s.state = .ack0) (ht : t.state = .ack1)
      (hscl : s.sclDriveLow = false) (hscl' : t.sclDriveLow = true)
      (hsda' : t.sdaDriveLow = (!s.opWrite && s.cmdAck))
  | ack1 (hs : s.state = .ack1) (hc : wantsClocks c = true)
      (ht : t.state = if wantsStop c then .stop0 else .done)
      (hscl : s.sclDriveLow = true) (hscl' : t.sclDriveLow = false)
      (hsda : s.sdaDriveLow = (!s.opWrite && s.cmdAck)) (hsda' : t.sdaDriveLow = false)
  | stop0 (hs : s.state = .stop0) (hc : wantsStop c = true) (ht : t.state = .stop1)
      (hscl : s.sclDriveLow = false) (hscl' : t.sclDriveLow = true)
      (hsda' : t.sdaDriveLow = true)
  | stop1 (hs : s.state = .stop1) (hc : wantsStop c = true) (ht : t.state = .done)
      (hscl : s.sclDriveLow = true) (hscl' : t.sclDriveLow = false)
      (hsda : s.sdaDriveLow = true) (hsda' : t.sdaDriveLow = false)
  | done (hs : s.state = .done) (hb : t.busy = false)
      (hscl' : t.sclDriveLow = false) (hsda : s.sdaDriveLow = false)
      (hsda' : t.sdaDriveLow = false)

theorem clocks_of_start (h : wantsStart c = true) : wantsClocks c = true := by
  rw [wantsClocks, h]
  rfl

/-- A cycle inside a state. -/
theorem Working.wait (w : Working c tx s) (hc : s.divCnt ≠ 0#16) :
    Working c tx (next i s) ∧ (next i s).state = s.state ∧ (next i s).bitIdx = s.bitIdx ∧
      (next i s).sclDriveLow = s.sclDriveLow ∧ (next i s).sdaDriveLow = s.sdaDriveLow ∧
      (next i s).divCnt = s.divCnt - 1#16 := by
  rw [next, engine_wait w.busy hc]
  exact ⟨⟨w.busy, w.stop, w.write, w.read, w.ack, w.data, w.lines⟩, rfl, rfl, rfl, rfl, rfl⟩

/-- The registers of the command are kept where the engine goes on. -/
theorem Working.keep {t : I2cMmio} (w : Working c tx s) (hb : t.busy = s.busy)
    (hstop : t.needStop = s.needStop) (hwrite : t.opWrite = s.opWrite)
    (hread : t.opRead = s.opRead) (hack : t.cmdAck = s.cmdAck)
    (hdata : wantsRead c = false → t.shiftReg = s.shiftReg) (hl : Lines c t) :
    Working c tx t :=
  ⟨hb.trans w.busy, hstop.trans w.stop, hwrite.trans w.write, hread.trans w.read,
    hack.trans w.ack, fun h => (hdata h).trans (w.data h), hl⟩

theorem next_tick (w : Working c tx s) (hc : s.divCnt = 0#16) :
    next i s = latch i.bus s (edge i s s) := by
  rw [next, engine_tick w.busy hc]

/-- **One tick of a command.** -/
theorem Working.tick (w : Working c tx s) (hc : s.divCnt = 0#16) :
    Ticks c s (next i s) ∧ (Working c tx (next i s) ∨ Rest (next i s)) := by
  have hl := w.lines
  cases hs : s.state with
  | idle =>
      simp only [Lines, hs] at hl
  | start =>
      simp only [Lines, hs] at hl
      have hnext := next_tick (i := i) w hc
      simp only [edge, hs] at hnext
      rw [hnext]
      refine ⟨.start hs hl.1 rfl rfl hl.2.1 rfl hl.2.2 rfl, .inl ?_⟩
      exact w.keep rfl rfl rfl rfl rfl (fun _ => rfl) ⟨clocks_of_start hl.1, rfl⟩
  | bit0 =>
      simp only [Lines, hs] at hl
      have hnext := next_tick (i := i) w hc
      have hsda : (if s.opWrite then !s.shiftReg.getLsbD s.bitIdx.toNat else false) =
          (s.opWrite && !s.shiftReg.getLsbD s.bitIdx.toNat) := by
        cases s.opWrite <;> rfl
      simp only [edge, hs, hsda] at hnext
      rw [hnext]
      refine ⟨.bit0 hs rfl rfl hl.2 rfl rfl, .inl ?_⟩
      exact w.keep rfl rfl rfl rfl rfl (fun _ => rfl) ⟨hl.1, rfl, rfl⟩
  | bit1 =>
      simp only [Lines, hs] at hl
      have hnext := next_tick (i := i) w hc
      have hkept : ∀ b : BitVec 8, wantsRead c = false →
          (if s.opRead then b else s.shiftReg) = s.shiftReg := by
        intro b h
        rw [w.read, h]
        rfl
      by_cases hidx : s.bitIdx = 0#3
      · simp only [edge, hs, if_pos hidx] at hnext
        rw [hnext]
        refine ⟨.bit1 hs (.inl ⟨hidx, rfl⟩) hl.2.1 rfl rfl, .inl ?_⟩
        exact w.keep rfl rfl rfl rfl rfl (hkept _) ⟨hl.1, rfl⟩
      · simp only [edge, hs, if_neg hidx] at hnext
        rw [hnext]
        refine ⟨.bit1 hs (.inr ⟨hidx, rfl, rfl⟩) hl.2.1 rfl rfl, .inl ?_⟩
        exact w.keep rfl rfl rfl rfl rfl (hkept _) ⟨hl.1, rfl⟩
  | ack0 =>
      simp only [Lines, hs] at hl
      have hnext := next_tick (i := i) w hc
      have hsda : (if s.opWrite then false else s.cmdAck) = (!s.opWrite && s.cmdAck) := by
        cases s.opWrite <;> rfl
      simp only [edge, hs, hsda] at hnext
      rw [hnext]
      refine ⟨.ack0 hs rfl hl.2 rfl rfl, .inl ?_⟩
      exact w.keep rfl rfl rfl rfl rfl (fun _ => rfl) ⟨hl.1, rfl, rfl⟩
  | ack1 =>
      simp only [Lines, hs] at hl
      have hnext := next_tick (i := i) w hc
      simp only [edge, hs] at hnext
      have hstate : (if s.needStop then State.stop0 else State.done) =
          if wantsStop c then State.stop0 else State.done := by rw [w.stop]
      rw [hnext]
      refine ⟨.ack1 hs hl.1 hstate hl.2.1 rfl hl.2.2 rfl, .inl ?_⟩
      refine w.keep rfl rfl rfl rfl rfl (fun _ => rfl) ?_
      by_cases hstop : wantsStop c = true
      · simp [Lines, latch, w.stop, hstop]
      · simp [Lines, latch, w.stop, hstop]
  | stop0 =>
      simp only [Lines, hs] at hl
      have hnext := next_tick (i := i) w hc
      simp only [edge, hs] at hnext
      rw [hnext]
      refine ⟨.stop0 hs hl.1 rfl hl.2.1 rfl rfl, .inl ?_⟩
      exact w.keep rfl rfl rfl rfl rfl (fun _ => rfl) ⟨hl.1, rfl, rfl⟩
  | stop1 =>
      simp only [Lines, hs] at hl
      have hnext := next_tick (i := i) w hc
      simp only [edge, hs] at hnext
      rw [hnext]
      refine ⟨.stop1 hs hl.1 rfl hl.2.1 rfl hl.2.2 rfl, .inl ?_⟩
      exact w.keep rfl rfl rfl rfl rfl (fun _ => rfl) ⟨rfl, rfl⟩
  | done =>
      simp only [Lines, hs] at hl
      have hnext := next_tick (i := i) w hc
      simp only [edge, hs] at hnext
      rw [hnext]
      exact ⟨.done hs rfl rfl hl.2 rfl, .inr ⟨rfl, rfl, rfl⟩⟩

end Step

/-! ## Runs -/

section Trace

variable {inp : Nat → In} {s₀ : I2cMmio} {c : Word} {tx : BitVec 8} {n m : Nat}

theorem after_succ (n : Nat) : after inp s₀ (n + 1) = next (inp n) (after inp s₀ n) := rfl

/-- A cycle of a command is a wait or a tick. -/
theorem Working.next (w : Working c tx (after inp s₀ n)) :
    Working c tx (after inp s₀ (n + 1)) ∨ Rest (after inp s₀ (n + 1)) := by
  by_cases hc : (after inp s₀ n).divCnt = 0#16
  · exact (w.tick hc).2
  · exact .inl (w.wait hc).1

/-- **Where a command comes from.** A busy engine works on the command that was accepted last. -/
theorem origin (h₀ : Rest s₀) (m : Nat) :
    Rest (after inp s₀ m) ∨
      ∃ n, n < m ∧ Accepted inp s₀ n ∧ During inp s₀ n m ∧
        Working (inp n).bus.datW (after inp s₀ n).txReg (after inp s₀ m) := by
  induction m with
  | zero => exact .inl h₀
  | succ m ih =>
      rcases ih with hrest | ⟨n, hn, hacc, hduring, w⟩
      · by_cases hacc : Accepted inp s₀ m
        · have w := working_accept hacc
          refine .inr ⟨m, Nat.lt_succ_self m, hacc, ⟨Nat.le_succ m, fun k h1 h2 => ?_⟩, w⟩
          rw [Nat.le_antisymm h2 h1]
          exact w.busy
        · exact .inl (hrest.next (by simpa [Accepted] using hacc))
      · rcases w.next with w' | hrest
        · refine .inr ⟨n, by omega, hacc, ⟨by omega, fun k h1 h2 => ?_⟩, w'⟩
          rcases Nat.lt_or_eq_of_le h2 with hlt | rfl
          · exact hduring.2 k h1 (by omega)
          · exact w'.busy
        · exact .inl hrest

/-- The command works through all its cycles. -/
theorem Accepted.working (hacc : Accepted inp s₀ n) (h : During inp s₀ n m) (hlt : n < m) :
    Working (inp n).bus.datW (after inp s₀ n).txReg (after inp s₀ m) := by
  induction m with
  | zero => exact absurd hlt (Nat.not_lt_zero n)
  | succ m ih =>
      rcases Nat.lt_or_eq_of_le (Nat.le_of_lt_succ hlt) with hnm | rfl
      · have hprev : During inp s₀ n m := ⟨by omega, fun k h1 h2 => h.2 k h1 (by omega)⟩
        rcases (ih hprev hnm).next with w | hrest
        · exact w
        · have hb := h.2 (m + 1) hlt (Nat.le_refl _)
          rw [hrest.busy] at hb
          cases hb
      · exact working_accept hacc

/-- A wait moves no line. -/
theorem Working.tick_of_moves (w : Working c tx (after inp s₀ n)) (h : SdaMoves inp s₀ n) :
    Ticks c (after inp s₀ n) (after inp s₀ (n + 1)) := by
  by_cases hc : (after inp s₀ n).divCnt = 0#16
  · exact (w.tick hc).1
  · exact absurd (w.wait hc).2.2.2.2.1 h

/-- Between commands SDA does not move, and not where a command is accepted. -/
theorem Rest.still (h : Rest (after inp s₀ n)) : ¬SdaMoves inp s₀ n := by
  intro hm
  by_cases hacc : Accepted inp s₀ n
  · have hl : (after inp s₀ (n + 1)).sdaDriveLow = false := by
      rw [after_succ, I2cMmio.next, engine_accept hacc]
      rfl
    exact hm (hl.trans h.sda.symm)
  · have hrest := h.next (i := inp n) (by simpa [Accepted] using hacc)
    exact hm (hrest.sda.trans h.sda.symm)

/-- A move of SDA is a tick of the command that is worked on. -/
theorem moves_origin (h₀ : Rest s₀) (hm : SdaMoves inp s₀ m) :
    ∃ n, n < m ∧ Accepted inp s₀ n ∧ During inp s₀ n m ∧
      Working (inp n).bus.datW (after inp s₀ n).txReg (after inp s₀ m) ∧
      Ticks (inp n).bus.datW (after inp s₀ m) (after inp s₀ (m + 1)) := by
  rcases origin h₀ m with hrest | ⟨n, hn, hacc, hduring, w⟩
  · exact absurd hm hrest.still
  · exact ⟨n, hn, hacc, hduring, w, w.tick_of_moves hm⟩

/-- No tick moves SDA up with SCL released on both sides. -/
theorem no_stopEdge (h₀ : Rest s₀) : ¬StopEdge inp s₀ m := by
  rintro ⟨⟨hscl, hscl'⟩, hsda, hsda'⟩
  have hmoves : SdaMoves inp s₀ m := by
    rw [SdaMoves, hsda, hsda']
    decide
  have ⟨n, _, _, _, w, ht⟩ := moves_origin h₀ hmoves
  cases ht <;> simp_all

/-- A START is the tick of the state for it. -/
theorem startEdge_state (h₀ : Rest s₀) (h : StartEdge inp s₀ m) :
    (after inp s₀ m).state = .start ∧ (after inp s₀ (m + 1)).state = .bit0 := by
  have ⟨⟨hscl, hscl'⟩, hsda, hsda'⟩ := h
  have hmoves : SdaMoves inp s₀ m := by
    rw [SdaMoves, hsda, hsda']
    decide
  have ⟨n, _, _, _, w, ht⟩ := moves_origin h₀ hmoves
  cases ht with
  | start hs _ ht => exact ⟨hs, ht⟩
  | _ => simp_all

/-! ## The START of a command -/

/-- The state with a START is the first one of its command. -/
theorem start_back (hacc : Accepted inp s₀ n) (h : During inp s₀ n m) (hlt : n < m)
    (hs : (after inp s₀ m).state = .start) (k : Nat) (hk : n < k) (hkm : k ≤ m) :
    (after inp s₀ k).state = .start := by
  induction m with
  | zero => exact absurd hlt (Nat.not_lt_zero n)
  | succ m ih =>
      rcases Nat.lt_or_eq_of_le hkm with hlast | rfl
      · have hprev : During inp s₀ n m := ⟨by omega, fun j h1 h2 => h.2 j h1 (by omega)⟩
        have w := hacc.working hprev (by omega)
        refine ih hprev (by omega) ?_ (by omega)
        by_cases hc : (after inp s₀ m).divCnt = 0#16
        · have ht := (w.tick (i := inp m) hc).1
          rw [← after_succ] at ht
          have hclocks : (if wantsStop (inp n).bus.datW then State.stop0 else State.done) ≠
              State.start := by
            by_cases hstop : wantsStop (inp n).bus.datW = true <;> simp [hstop]
          have hb := h.2 (m + 1) (by omega) (Nat.le_refl _)
          cases ht <;> simp_all
        · have hsame := (w.wait (i := inp m) hc).2.1
          rw [← hsame]
          exact hs
      · exact hs

/-- The next tick of a command, with nothing moved until then. -/
theorem Working.settles (w : Working c tx (after inp s₀ m)) :
    ∃ k, m ≤ k ∧ Working c tx (after inp s₀ k) ∧ (after inp s₀ k).divCnt = 0#16 ∧
      (after inp s₀ k).state = (after inp s₀ m).state ∧
      (after inp s₀ k).bitIdx = (after inp s₀ m).bitIdx ∧
      (after inp s₀ k).sdaDriveLow = (after inp s₀ m).sdaDriveLow ∧
      ∀ j, m ≤ j → j ≤ k → (after inp s₀ j).busy = true := by
  generalize hd : (after inp s₀ m).divCnt.toNat = d
  induction d generalizing m with
  | zero =>
      have hz : (after inp s₀ m).divCnt = 0#16 := BitVec.eq_of_toNat_eq hd
      refine ⟨m, Nat.le_refl m, w, hz, rfl, rfl, rfl, fun j h1 h2 => ?_⟩
      rw [Nat.le_antisymm h2 h1]
      exact w.busy
  | succ d ih =>
      have hc : (after inp s₀ m).divCnt ≠ 0#16 := by
        intro hz
        rw [hz] at hd
        cases hd
      have ⟨w', hstate, hidx, _, hsda, hdiv⟩ := w.wait (i := inp m) hc
      have hd' : (after inp s₀ (m + 1)).divCnt.toNat = d := by
        rw [after_succ, hdiv, BitVec.toNat_sub, hd, show (1#16).toNat = 1 from rfl]
        have hlt := (after inp s₀ m).divCnt.isLt
        omega
      have ⟨k, hk, wk, hz, hs, hi, hl, hbusy⟩ := ih (m := m + 1) w' hd'
      refine ⟨k, by omega, wk, hz, hs.trans hstate, hi.trans hidx, hl.trans hsda,
        fun j h1 h2 => ?_⟩
      rcases Nat.lt_or_eq_of_le h1 with hlt | rfl
      · exact hbusy j hlt h2
      · exact w.busy

/-- An accepted command begins in its first state. -/
theorem Accepted.entry (hacc : Accepted inp s₀ n) :
    (after inp s₀ (n + 1)).state = entry (inp n).bus.datW := by
  rw [after_succ, I2cMmio.next, engine_accept hacc]
  rfl

theorem Accepted.idle (hacc : Accepted inp s₀ n) : (after inp s₀ n).busy = false := by
  simp only [Accepted, accepts, Bool.and_eq_true, Bool.not_eq_true'] at hacc
  exact hacc.2

/-- **The START.** A command with START has one START edge. -/
theorem start_unique (h₀ : Rest s₀) (hacc : Accepted inp s₀ n)
    (hstart : wantsStart (inp n).bus.datW = true) :
    ∃! m, During inp s₀ n m ∧ StartEdge inp s₀ m := by
  have hentry := hacc.entry
  rw [I2cMmio.entry, if_pos hstart] at hentry
  have w : Working (inp n).bus.datW (after inp s₀ n).txReg (after inp s₀ (n + 1)) :=
    working_accept hacc
  have ⟨m, hm, wm, hz, hs, _, _, hbusy⟩ := Working.settles w
  rw [hentry] at hs
  have hduring : During inp s₀ n m := ⟨by omega, fun k h1 h2 => hbusy k h1 h2⟩
  have ht := (wm.tick (i := inp m) hz).1
  rw [← after_succ] at ht
  have hedge : StartEdge inp s₀ m := by
    cases ht with
    | start _ _ _ _ hscl hscl' hsda hsda' => exact ⟨⟨hscl, hscl'⟩, hsda, hsda'⟩
    | _ => simp_all
  have hlater : ∀ m₁ m₂, StartEdge inp s₀ m₁ → StartEdge inp s₀ m₂ → During inp s₀ n m₂ →
      n < m₁ + 1 → ¬m₁ < m₂ := by
    intro m₁ m₂ h₁ h₂ hd hn hlt
    have hstate := start_back hacc hd (by omega) (startEdge_state h₀ h₂).1 (m₁ + 1) hn hlt
    rw [(startEdge_state h₀ h₁).2] at hstate
    cases hstate
  refine ⟨m, ⟨hduring, hedge⟩, fun k hk => ?_⟩
  have hlt := hlater m k hedge hk.2 hk.1 (by omega)
  have hgt := hlater k m hk.2 hedge hduring (Nat.lt_succ_of_le hk.1.1)
  omega

/-- A START edge of a command comes before its clock and was asked for. -/
theorem start_first (h₀ : Rest s₀) (hacc : Accepted inp s₀ n) (hd : During inp s₀ n m)
    (h : StartEdge inp s₀ m) :
    wantsStart (inp n).bus.datW = true ∧
      ∀ k, n < k → k ≤ m → (after inp s₀ k).sclDriveLow = false := by
  have hs := (startEdge_state h₀ h).1
  have hlt : n < m := by
    rcases Nat.lt_or_eq_of_le hd.1 with hlt | rfl
    · exact hlt
    · have hmoves : SdaMoves inp s₀ n := by
        rw [SdaMoves, h.2.1, h.2.2]
        decide
      have ⟨_, _, _, _, w, _⟩ := moves_origin h₀ hmoves
      exact absurd w.busy (by rw [hacc.idle]; decide)
  have hlines : ∀ k, n < k → k ≤ m → wantsStart (inp n).bus.datW = true ∧
      (after inp s₀ k).sclDriveLow = false := by
    intro k h1 h2
    have hprev : During inp s₀ n k := ⟨by omega, fun j h3 h4 => hd.2 j h3 (by omega)⟩
    have hl := (hacc.working hprev h1).lines
    have hstate := start_back hacc hd hlt hs k h1 h2
    simp only [Lines, hstate] at hl
    exact ⟨hl.1, hl.2.1⟩
  exact ⟨(hlines m hlt (Nat.le_refl m)).1, fun k h1 h2 => (hlines k h1 h2).2⟩

/-! ## Commands that obey -/

/-- A gentle command does not drive SDA in its acknowledge. -/
theorem Working.ack_released {strict : Bool} {s : I2cMmio} (w : Working c tx s)
    (hg : Gentle strict c tx) (hclocks : wantsClocks c = true) :
    (!s.opWrite && s.cmdAck) = false := by
  rw [w.write, w.ack]
  by_cases hack : wantsAck c = true
  · have ⟨hread, hwrite⟩ := hg.2.1 hack
    have hw : wantsWrite c = true := by
      by_contra hno
      have hstart : wantsStart c = false := by
        by_contra hs
        exact hno (hwrite (by simpa using hs))
      simp only [Bool.not_eq_true] at hno
      rw [wantsClocks, hstart, hno, hread] at hclocks
      cases hclocks
    rw [hw, hread]
    rfl
  · simp [hack]

/-- Where a move of SDA is not a START edge, SCL is low after it. -/
theorem gentle_moves {strict : Bool} (h₀ : Rest s₀)
    (hg : ∀ n, Accepted inp s₀ n →
      Gentle strict (inp n).bus.datW (after inp s₀ n).txReg) (hm : SdaMoves inp s₀ m) :
    StartEdge inp s₀ m ∨ (after inp s₀ (m + 1)).sclDriveLow = true := by
  have ⟨n, _, hacc, _, w, ht⟩ := moves_origin h₀ hm
  have hgn := hg n hacc
  cases ht with
  | start _ _ _ _ hscl hscl' hsda hsda' => exact .inl ⟨⟨hscl, hscl'⟩, hsda, hsda'⟩
  | bit0 _ _ _ _ hscl' _ => exact .inr hscl'
  | bit1 _ _ _ _ hsda => exact absurd hsda hm
  | ack0 _ _ _ hscl' _ => exact .inr hscl'
  | ack1 _ hclocks _ _ _ hsda hsda' =>
      rw [w.ack_released hgn hclocks] at hsda
      exact absurd (hsda'.trans hsda.symm) hm
  | stop0 _ hstop =>
      rw [hgn.1] at hstop
      cases hstop
  | stop1 _ hstop =>
      rw [hgn.1] at hstop
      cases hstop
  | done _ _ _ hsda hsda' => exact absurd (hsda'.trans hsda.symm) hm

/-- In the strict reading a gentle command never drives SDA. -/
theorem strict_still (h₀ : Rest s₀)
    (hg : ∀ n, Accepted inp s₀ n → Gentle true (inp n).bus.datW (after inp s₀ n).txReg)
    (m : Nat) : (after inp s₀ m).sdaDriveLow = false := by
  induction m with
  | zero => exact h₀.sda
  | succ m ih =>
      by_contra hno
      have hmoves : SdaMoves inp s₀ m := by
        rw [SdaMoves, ih]
        exact hno
      have ⟨n, _, hacc, _, w, ht⟩ := moves_origin h₀ hmoves
      have hgn := hg n hacc
      have hl := w.lines
      cases ht with
      | start _ hstart =>
          rw [(hgn.2.2 rfl).1] at hstart
          cases hstart
      | bit0 _ _ _ _ _ hsda' =>
          apply hno
          rw [hsda', w.write]
          by_cases hw : (wantsWrite (inp n).bus.datW && !wantsRead (inp n).bus.datW) = true
          · simp only [Bool.and_eq_true, Bool.not_eq_true'] at hw
            rw [w.data hw.2, (hgn.2.2 rfl).2 hw.1 hw.2]
            have hones : ∀ k : BitVec 3, (0xFF#8).getLsbD k.toNat = true := by decide
            rw [hones, Bool.not_true, Bool.and_false]
          · simp only [Bool.not_eq_true] at hw
            rw [hw, Bool.false_and]
      | bit1 _ _ _ _ hsda => exact hmoves hsda
      | ack0 hs _ _ _ hsda' =>
          simp only [Lines, hs] at hl
          rw [w.ack_released hgn hl.1] at hsda'
          exact hno hsda'
      | ack1 _ _ _ _ _ _ hsda' => exact hno hsda'
      | stop0 _ hstop =>
          rw [hgn.1] at hstop
          cases hstop
      | stop1 _ _ _ _ _ _ hsda' => exact hno hsda'
      | done _ _ _ _ hsda' => exact hno hsda'

/-- Gentle commands obey the protocol. -/
theorem obeys_of_gentle {strict : Bool} (h₀ : Rest s₀)
    (hg : ∀ n, Accepted inp s₀ n →
      Gentle strict (inp n).bus.datW (after inp s₀ n).txReg) : Obeys inp s₀ strict := by
  constructor
  case data =>
    intro m hm
    cases strict with
    | false =>
        rcases gentle_moves h₀ hg hm with hedge | hlow
        · exact .inr (.inl hedge)
        · exact .inl ⟨hlow, fun h => absurd h (by decide)⟩
    | true =>
        have hstill := strict_still h₀ hg
        exact absurd ((hstill (m + 1)).trans (hstill m).symm) hm
  case start => exact fun n hacc hstart => start_unique h₀ hacc hstart
  case startFirst => exact fun n m hacc hd h => start_first h₀ hacc hd h
  case stop =>
    intro n hacc hstop
    rw [(hg n hacc).1] at hstop
    cases hstop
  case stopOnly => exact fun n m _ _ h => absurd h (no_stopEdge h₀)
  case idle =>
    rintro m (h | h)
    · have hmoves : SdaMoves inp s₀ m := by
        rw [SdaMoves, h.2.1, h.2.2]
        decide
      have ⟨n, _, hacc, hd, _, _⟩ := moves_origin h₀ hmoves
      exact ⟨n, hacc, hd⟩
    · exact absurd h (no_stopEdge h₀)
  case ninth =>
    intro n k hacc hread hack _ _ _
    rw [((hg n hacc).2.1 hack).1] at hread
    cases hread

/-! ## Commands that do not

Every command runs to its end, so each of its ticks comes. -/

/-- The tick of the state `st` comes. -/
def Comes (inp : Nat → In) (s₀ : I2cMmio) (c : Word) (tx : BitVec 8) (st : State) : Prop :=
  ∃ m, Working c tx (after inp s₀ m) ∧ (after inp s₀ m).divCnt = 0#16 ∧
    (after inp s₀ m).state = st

/-- The tick that puts bit `k` on SDA comes. -/
def ComesBit (inp : Nat → In) (s₀ : I2cMmio) (c : Word) (tx : BitVec 8) (k : Nat) : Prop :=
  ∃ m, Working c tx (after inp s₀ m) ∧ (after inp s₀ m).divCnt = 0#16 ∧
    (after inp s₀ m).state = .bit0 ∧ (after inp s₀ m).bitIdx.toNat = k

theorem Working.comes {st : State} (w : Working c tx (after inp s₀ m))
    (hs : (after inp s₀ m).state = st) : Comes inp s₀ c tx st := by
  have ⟨k, _, wk, hz, hk, _⟩ := w.settles
  exact ⟨k, wk, hz, hk.trans hs⟩

theorem Working.comesBit {k : Nat} (w : Working c tx (after inp s₀ m))
    (hs : (after inp s₀ m).state = .bit0) (hi : (after inp s₀ m).bitIdx.toNat = k) :
    ComesBit inp s₀ c tx k := by
  have ⟨j, _, wj, hz, hj, hidx, _⟩ := w.settles
  exact ⟨j, wj, hz, hj.trans hs, by rw [hidx, hi]⟩

/-- A tick that is not the last one of its command. -/
theorem Working.goes_on {t : State} (w : Working c tx (after inp s₀ m))
    (hz : (after inp s₀ m).divCnt = 0#16) (hs : (after inp s₀ m).state = t) (ht : t ≠ .done) :
    Ticks c (after inp s₀ m) (after inp s₀ (m + 1)) ∧ Working c tx (after inp s₀ (m + 1)) := by
  have ⟨htick, hor⟩ := w.tick (i := inp m) hz
  refine ⟨htick, hor.resolve_right fun hrest => ?_⟩
  have hl := w.lines
  have hnext := next_tick (i := inp m) w hz
  have hb := hrest.busy
  have hw := w.busy
  rw [hnext] at hb
  cases t <;> simp_all [edge, latch, Lines]
  split at hb <;> simp_all

/-- From one bit to the next. -/
theorem comesBit_pred {k : Nat} (h : ComesBit inp s₀ c tx (k + 1)) : ComesBit inp s₀ c tx k := by
  have ⟨m, w, hz, hs, hi⟩ := h
  have ⟨ht, w'⟩ := w.goes_on hz hs (by decide)
  cases ht with
  | bit0 _ hs' hi' =>
      have ⟨j, _, wj, hzj, hsj, hij, _⟩ := w'.settles
      have ⟨htj, wj'⟩ := wj.goes_on hzj (hsj.trans hs') (by decide)
      have hidx : (after inp s₀ j).bitIdx.toNat = k + 1 := by rw [hij, hi', hi]
      cases htj with
      | bit1 _ hor =>
          rcases hor with ⟨hzero, _⟩ | ⟨_, hnext, hdec⟩
          · rw [hzero] at hidx
            cases hidx
          · refine wj'.comesBit hnext ?_
            have hlt := (after inp s₀ j).bitIdx.isLt
            rw [hdec, BitVec.toNat_sub, hidx, show (1#3).toNat = 1 from rfl]
            omega
      | _ => simp_all
  | _ => simp_all

/-- From the last bit to the acknowledge. -/
theorem ack1_of_bit (h : ComesBit inp s₀ c tx 0) : Comes inp s₀ c tx .ack1 := by
  have ⟨m, w, hz, hs, hi⟩ := h
  have ⟨ht, w'⟩ := w.goes_on hz hs (by decide)
  cases ht with
  | bit0 _ hs' hi' =>
      have ⟨j, _, wj, hzj, hsj, hij, _⟩ := w'.settles
      have ⟨htj, wj'⟩ := wj.goes_on hzj (hsj.trans hs') (by decide)
      have hidx : (after inp s₀ j).bitIdx = 0#3 :=
        BitVec.eq_of_toNat_eq (by rw [hij, hi', hi]; rfl)
      cases htj with
      | bit1 _ hor =>
          rcases hor with ⟨_, hack⟩ | ⟨hne, _⟩
          · have ⟨k, _, wk, hzk, hsk, _⟩ := wj'.settles
            have ⟨htk, wk'⟩ := wk.goes_on hzk (hsk.trans hack) (by decide)
            cases htk with
            | ack0 _ hs'' => exact wk'.comes hs''
            | _ => simp_all
          · exact absurd hidx hne
      | _ => simp_all
  | _ => simp_all

/-- A command with a clock puts all its bits on SDA. -/
theorem Accepted.comesBit (hacc : Accepted inp s₀ n)
    (hclocks : wantsClocks (inp n).bus.datW = true) (k : Nat) (hk : k ≤ 7) :
    ComesBit inp s₀ (inp n).bus.datW (after inp s₀ n).txReg k := by
  have hentry := hacc.entry
  have hidx : (after inp s₀ (n + 1)).bitIdx.toNat = 7 := by
    rw [after_succ, I2cMmio.next, engine_accept hacc]
    rfl
  have w : Working (inp n).bus.datW (after inp s₀ n).txReg (after inp s₀ (n + 1)) :=
    working_accept hacc
  have hseven : ComesBit inp s₀ (inp n).bus.datW (after inp s₀ n).txReg 7 := by
    by_cases hstart : wantsStart (inp n).bus.datW = true
    · rw [I2cMmio.entry, if_pos hstart] at hentry
      have ⟨j, _, wj, hzj, hsj, hij, _⟩ := w.settles
      have ⟨htj, wj'⟩ := wj.goes_on hzj (hsj.trans hentry) (by decide)
      cases htj with
      | start _ _ hs' hi' => exact wj'.comesBit hs' (by rw [hi', hij, hidx])
      | _ => simp_all
    · have hop : (wantsWrite (inp n).bus.datW || wantsRead (inp n).bus.datW) = true := by
        simpa [wantsClocks, hstart] using hclocks
      rw [I2cMmio.entry, if_neg hstart, if_pos hop] at hentry
      exact w.comesBit hentry hidx
  have hdown : ∀ j, j ≤ 7 → ComesBit inp s₀ (inp n).bus.datW (after inp s₀ n).txReg (7 - j) := by
    intro j
    induction j with
    | zero => exact fun _ => hseven
    | succ j ih =>
        intro hj
        have hprev := ih (by omega)
        rw [show 7 - j = 7 - (j + 1) + 1 by omega] at hprev
        exact comesBit_pred hprev
  have hat := hdown (7 - k) (by omega)
  rwa [show 7 - (7 - k) = k by omega] at hat

/-- Releasing both lines in one tick breaks the protocol. -/
theorem no_release {strict : Bool} (h : Obeys inp s₀ strict)
    (hscl : (after inp s₀ m).sclDriveLow = true)
    (hscl' : (after inp s₀ (m + 1)).sclDriveLow = false)
    (hsda : (after inp s₀ m).sdaDriveLow = true)
    (hsda' : (after inp s₀ (m + 1)).sdaDriveLow = false) : False := by
  have hmoves : SdaMoves inp s₀ m := by
    rw [SdaMoves, hsda, hsda']
    decide
  rcases h.data m hmoves with hlow | hedge | hedge
  · have hdriven := hlow.1
    rw [hscl'] at hdriven
    cases hdriven
  · have hhigh := hedge.2.1
    rw [hsda] at hhigh
    cases hhigh
  · have hreleased := hedge.1.1
    rw [hscl] at hreleased
    cases hreleased

/-- The acknowledge ends with both lines released. -/
theorem Accepted.ack_low {strict : Bool} (h : Obeys inp s₀ strict) (hacc : Accepted inp s₀ n)
    (hclocks : wantsClocks (inp n).bus.datW = true) :
    ((wantsRead (inp n).bus.datW || !wantsWrite (inp n).bus.datW) &&
      wantsAck (inp n).bus.datW) = false := by
  have ⟨m, w, hz, hs⟩ := ack1_of_bit (hacc.comesBit hclocks 0 (by decide))
  have ⟨ht, _⟩ := w.goes_on hz hs (by decide)
  cases ht with
  | ack1 _ _ _ hscl hscl' hsda hsda' =>
      by_contra hno
      refine no_release h hscl hscl' ?_ hsda'
      rw [hsda, w.write, w.ack]
      cases hr : wantsRead (inp n).bus.datW <;> cases hw : wantsWrite (inp n).bus.datW <;>
        simp_all
  | _ => simp_all

/-- So does a STOP. -/
theorem Accepted.no_stop {strict : Bool} (h : Obeys inp s₀ strict) (hacc : Accepted inp s₀ n) :
    wantsStop (inp n).bus.datW = false := by
  by_contra hno
  have hstop : wantsStop (inp n).bus.datW = true := by simpa using hno
  have hfirst : Comes inp s₀ (inp n).bus.datW (after inp s₀ n).txReg .stop0 := by
    by_cases hclocks : wantsClocks (inp n).bus.datW = true
    · have ⟨m, w, hz, hs⟩ := ack1_of_bit (hacc.comesBit hclocks 0 (by decide))
      have ⟨ht, w'⟩ := w.goes_on hz hs (by decide)
      cases ht with
      | ack1 _ _ hs' =>
          rw [if_pos hstop] at hs'
          exact w'.comes hs'
      | _ => simp_all
    · simp only [wantsClocks, Bool.not_eq_true, Bool.or_eq_false_iff] at hclocks
      have hentry := hacc.entry
      simp only [I2cMmio.entry, hclocks, hstop, Bool.or_false, Bool.false_eq_true, if_false,
        if_true] at hentry
      have w : Working (inp n).bus.datW (after inp s₀ n).txReg (after inp s₀ (n + 1)) :=
        working_accept hacc
      exact w.comes hentry
  have ⟨m, w, hz, hs⟩ := hfirst
  have ⟨ht, w'⟩ := w.goes_on hz hs (by decide)
  cases ht with
  | stop0 _ _ hs' =>
      have ⟨k, wk, hzk, hsk⟩ := w'.comes hs'
      have ⟨htk, _⟩ := wk.goes_on hzk hsk (by decide)
      cases htk with
      | stop1 _ _ _ hscl hscl' hsda hsda' => exact no_release h hscl hscl' hsda hsda'
      | _ => simp_all
  | _ => simp_all

/-- The ticks left. -/
def ticksLeft (s : I2cMmio) : Nat :=
  match s.state with
  | .idle => 0
  | .start => 24
  | .bit0 => 2 * s.bitIdx.toNat + 7
  | .bit1 => 2 * s.bitIdx.toNat + 6
  | .ack0 => 5
  | .ack1 => 4
  | .stop0 => 3
  | .stop1 => 2
  | .done => 1

theorem Ticks.fewer {s t : I2cMmio} (h : Ticks c s t) :
    ticksLeft t < ticksLeft s ∨ s.state = .done := by
  have hlt := s.bitIdx.isLt
  cases h with
  | start hs _ hs' hi => simp only [ticksLeft, hs, hs', hi]; omega
  | bit0 hs hs' hi => simp only [ticksLeft, hs, hs', hi]; omega
  | bit1 hs hor =>
      rcases hor with ⟨hz, hs'⟩ | ⟨hne, hs', hi⟩
      · simp only [ticksLeft, hs, hs']
        omega
      · have hpos : 0 < s.bitIdx.toNat := by
          apply Nat.pos_of_ne_zero
          exact fun hz => hne (BitVec.eq_of_toNat_eq hz)
        simp only [ticksLeft, hs, hs', hi]
        rw [BitVec.toNat_sub, show (1#3).toNat = 1 from rfl]
        omega
  | ack0 hs hs' => simp only [ticksLeft, hs, hs']; omega
  | ack1 hs _ hs' =>
      by_cases hstop : wantsStop c = true
      · simp only [hstop, if_true] at hs'
        simp only [ticksLeft, hs, hs']
        omega
      · simp only [hstop, if_false, Bool.false_eq_true] at hs'
        simp only [ticksLeft, hs, hs']
        omega
  | stop0 hs _ hs' => simp only [ticksLeft, hs, hs']; omega
  | stop1 hs _ hs' => simp only [ticksLeft, hs, hs']; omega
  | done hs => exact .inr hs

/-- A command comes to its end, where both lines are released. -/
theorem Working.ends (w : Working c tx (after inp s₀ m)) : ∃ k, m ≤ k ∧ Rest (after inp s₀ k) := by
  generalize hr : ticksLeft (after inp s₀ m) = r
  induction r using Nat.strongRecOn generalizing m with
  | ind r ih =>
      have ⟨j, hj, wj, hz, hs, hi, _⟩ := w.settles
      have hrank : ticksLeft (after inp s₀ j) = r := by rw [← hr, ticksLeft, ticksLeft, hs, hi]
      have ⟨ht, hor⟩ := wj.tick (i := inp j) hz
      rcases hor with w' | hrest
      · rw [← after_succ] at ht w'
        rcases ht.fewer with hlt | hdone
        · have ⟨k, hk, hrest⟩ := ih _ (hrank ▸ hlt) w' rfl
          exact ⟨k, by omega, hrest⟩
        · have hb := w'.busy
          rw [after_succ, next_tick wj hz] at hb
          simp [edge, latch, hdone] at hb
      · exact ⟨j + 1, by omega, hrest⟩

/-- In the strict reading SDA never falls: it could not rise again. -/
theorem strict_silent (h₀ : Rest s₀) (h : Obeys inp s₀ true) (m : Nat) :
    (after inp s₀ m).sdaDriveLow = false := by
  by_contra hno
  have hlow : (after inp s₀ m).sdaDriveLow = true := by simpa using hno
  have hstays : ∀ j, (after inp s₀ (m + j)).sdaDriveLow = true := by
    intro j
    induction j with
    | zero => exact hlow
    | succ j ih =>
        by_contra hup
        have hsda' : (after inp s₀ (m + j + 1)).sdaDriveLow = false :=
          Bool.eq_false_of_not_eq_true hup
        have hmoves : SdaMoves inp s₀ (m + j) := by
          rw [SdaMoves, ih, hsda']
          decide
        rcases h.data _ hmoves with ⟨hscl', hscl⟩ | hedge | hedge
        · have ⟨_, _, _, _, w, ht⟩ := moves_origin h₀ hmoves
          have hscl := hscl rfl
          cases ht <;> simp_all
        · have hhigh := hedge.2.1
          rw [ih] at hhigh
          cases hhigh
        · exact no_stopEdge h₀ hedge
  rcases origin h₀ m with hrest | ⟨n, _, _, _, w⟩
  · rw [hrest.sda] at hlow
    cases hlow
  · have ⟨k, hk, hrest⟩ := w.ends
    have ⟨j, hj⟩ := Nat.exists_eq_add_of_le hk
    have hdriven := hstays j
    rw [← hj, hrest.sda] at hdriven
    cases hdriven

/-- A run that obeys the protocol has gentle commands only. -/
theorem gentle_of_obeys {strict : Bool} (h₀ : Rest s₀) (h : Obeys inp s₀ strict)
    (hacc : Accepted inp s₀ n) : Gentle strict (inp n).bus.datW (after inp s₀ n).txReg := by
  refine ⟨hacc.no_stop h, fun hack => ?_, ?_⟩
  · refine ⟨?_, fun hstart => ?_⟩
    · by_contra hread
      have hclocks : wantsClocks (inp n).bus.datW = true := by
        rw [wantsClocks, Bool.eq_true_of_not_eq_false hread, Bool.or_true]
      have hlow := hacc.ack_low h hclocks
      rw [Bool.eq_true_of_not_eq_false hread, hack] at hlow
      cases hlow
    · by_contra hwrite
      have hlow := hacc.ack_low h (clocks_of_start hstart)
      simp only [Bool.not_eq_true] at hwrite
      rw [hwrite, hack, Bool.not_false, Bool.or_true] at hlow
      cases hlow
  · rintro rfl
    have hsilent := strict_silent h₀ h
    have hnostart : wantsStart (inp n).bus.datW = false := by
      by_contra hno
      have ⟨m, ⟨_, hedge⟩, _⟩ := h.start n hacc (by simpa using hno)
      rw [StartEdge, hsilent (m + 1)] at hedge
      exact absurd hedge.2.2 (by decide)
    refine ⟨hnostart, fun hwrite hread => ?_⟩
    have hclocks : wantsClocks (inp n).bus.datW = true := by
      rw [wantsClocks, hwrite, Bool.or_true]
      rfl
    apply BitVec.eq_of_getLsbD_eq
    intro k hk
    have hones : ∀ j : Nat, j < 8 → (0xFF#8).getLsbD j = true := by decide
    rw [hones k hk]
    have ⟨m, w, hz, hs, hi⟩ := hacc.comesBit hclocks k (by omega)
    have ⟨ht, _⟩ := w.goes_on hz hs (by decide)
    cases ht with
    | bit0 _ _ _ _ _ hsda' =>
        rw [hsilent (m + 1), w.write, hwrite, hread, w.data hread, hi] at hsda'
        simpa using hsda'.symm
    | _ => simp_all

/-! ## The result -/

theorem rest_reset (clkFreqHz i2cDefaultHz : Nat) : Rest (reset clkFreqHz i2cDefaultHz) :=
  ⟨rfl, rfl, rfl⟩

/-- **The master obeys the protocol of the bus if and only if** no accepted command has STOP and
none has ACK with READ or with START alone; in the strict reading of "while SCL is low", if and
only if in addition no command has START or writes a byte other than all ones. -/
theorem bus_protocol_iff (clkFreqHz i2cDefaultHz : Nat) (inp : Nat → In) (strict : Bool) :
    Obeys inp (reset clkFreqHz i2cDefaultHz) strict ↔
      ∀ n, Accepted inp (reset clkFreqHz i2cDefaultHz) n →
        Gentle strict (inp n).bus.datW
          (after inp (reset clkFreqHz i2cDefaultHz) n).txReg := by
  constructor
  · exact fun h n hacc => gentle_of_obeys (rest_reset _ _) h hacc
  · exact fun hg => obeys_of_gentle (rest_reset _ _) hg

/-- The command of `i2c_probe_7bit` in the first cycle: START, WRITE and STOP. -/
def probe : Nat → In := fun n =>
  { bus :=
      { adr := ioI2cCmdAddr, datW := 7#32, sel := 15#4, we := n == 0, cyc := n == 0
        stb := n == 0, lock := false }
    sda := true }

theorem probe_disobeys :
    ¬Obeys probe (reset 27000000 100000) false ∧ ¬Obeys probe (reset 27000000 100000) true := by
  have hacc : Accepted probe (reset 27000000 100000) 0 := by
    show accepts (probe 0).bus (reset 27000000 100000) = true
    rfl
  constructor
  · intro h
    exact absurd (hacc.no_stop h) (by decide)
  · intro h
    exact absurd (hacc.no_stop h) (by decide)

end Trace

end I2cMmio

end MelonSoc
