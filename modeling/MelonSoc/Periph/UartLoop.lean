import MelonSoc.Periph.UartReads

set_option autoImplicit false

/-! # The UART on a loopback

With `txd` wired to `rxd` the receiver looks at the frame the transmitter began some cycles ago.
Everything about the two machines is a function of that age: at age `a` the transmitter drives the
bit cell `a / T`, the synchroniser shows the line of two cycles before, and the receiver, which has
seen the start bit at age 2, counts half a bit and then whole bits. With `H = T / 2` its samples
fall at the ages `3 + H + k * T`, and the line it sees there is the one of the age `1 + H + k * T`,
inside the bit cell `k`.
-/

namespace MelonSoc

namespace Uart

/-! ## The line -/

/-- What the transmitter drives in the bit cell `q` of a frame. -/
def cell (b : BitVec 8) (q : Nat) : Bool :=
  if q = 0 then false else if q ≤ 8 then b.getLsbD (q - 1) else true

/-- What the synchroniser shows at the age `a` of the last frame. -/
def wire (T : Nat) (b : BitVec 8) (a : Nat) : Bool :=
  if a < 2 then true else cell b ((a - 2) / T)

section Wire

variable {T : Nat} {b : BitVec 8} {a q m : Nat}

theorem wire_cell (hm : m < T) (ha : a = 2 + q * T + m) : wire T b a = cell b q := by
  have hdiv : (a - 2) / T = q := by
    have hsub : a - 2 = m + q * T := by omega
    rw [hsub, Nat.add_mul_div_right _ _ (by omega), Nat.div_eq_of_lt hm, Nat.zero_add]
  rw [wire, if_neg (by omega), hdiv]

theorem cell_data (h : q < 8) : cell b (q + 1) = b.getLsbD q := by
  rw [cell, if_neg (Nat.succ_ne_zero q), if_pos (by omega)]
  rfl

theorem cell_high (h : 9 ≤ q) : cell b q = true := by
  rw [cell, if_neg (by omega), if_neg (by omega)]

theorem wire_early (h : a < 2) : wire T b a = true := if_pos h

/-- From the stop bit on the line is high. -/
theorem wire_high (hT : 0 < T) (h : 9 * T + 2 ≤ a) : wire T b a = true := by
  rw [wire, if_neg (by omega)]
  exact cell_high ((Nat.le_div_iff_mul_le hT).mpr (by omega))

end Wire

/-! ## The transmitter -/

/-- The transmitter at the age `a` of the frame of `b`. -/
inductive Sends (T : Nat) (b : BitVec 8) (a : Nat) (s : Tx) : Prop
  | bits (q m : Nat) (age : a = q * T + m) (bit : q < 10) (tick : m < T)
      (busy : s.txReady = false) (baud : s.baudCnt = m) (index : s.bitIndex = q)
      (data : s.txDataReg = b) (line : s.txd = cell b q)
  | rest (age : 10 * T ≤ a) (ready : s.txReady = true) (line : s.txd = true)

section Transmit

variable {T : Nat} {b : BitVec 8} {a : Nat} {s : Tx}

theorem baudW_fits {m : Nat} (hT : 4 ≤ T) (hm : m < T) : m % 2 ^ baudW T = m := by
  refine Nat.mod_eq_of_lt (lt_of_lt_of_le hm ?_)
  rw [baudW, if_pos (by omega)]
  exact Nat.le_pow_clog (by omega) T

/-- What the line will show two cycles later. -/
theorem Sends.txd (h : Sends T b a s) (hT : 4 ≤ T) : s.txd = wire T b (a + 2) := by
  cases h with
  | bits q m age bit tick busy baud index data line =>
      rw [line, wire_cell (q := q) tick (by omega)]
  | rest age ready line =>
      rw [line, wire_high (by omega) (by omega)]

/-- A request is refused while a frame is on its way. -/
theorem Tx.next_busy {v w : Bool} {d e : BitVec 8} (h : s.txReady = false) :
    s.next T v d = s.next T w e := by
  simp only [Tx.next, h, Bool.false_eq_true, if_false]

/-- A frame begins. -/
theorem Sends.accepts (hT : 4 ≤ T) (hr : s.txReady = true) :
    Sends T b 0 (s.next T true b) :=
  .bits 0 0 (by omega) (by omega) (by omega) (by simp [Tx.next, hr]) (by simp [Tx.next, hr])
    (by simp [Tx.next, hr]) (by simp [Tx.next, hr]) (by simp [Tx.next, hr, cell])

/-- A frame goes on. -/
theorem Sends.next (h : Sends T b a s) (hT : 4 ≤ T) {v : Bool} {d : BitVec 8}
    (hv : v = true → s.txReady = false) : Sends T b (a + 1) (s.next T v d) := by
  cases h with
  | rest age ready line =>
      have hno : v = false := by
        by_contra hc
        rw [hv (by simpa using hc)] at ready
        cases ready
      exact .rest (by omega) (by simp [Tx.next, ready, hno]) (by simp [Tx.next, ready, hno])
  | bits q m age bit tick busy baud index data line =>
      have hm1 : (T - 1) % 2 ^ baudW T = T - 1 := baudW_fits hT (by omega)
      by_cases hlast : m = T - 1
      · -- the next bit cell
        have hnext : a + 1 = (q + 1) * T + 0 := by
          rw [Nat.succ_mul]
          omega
        rcases Nat.lt_trichotomy q 8 with hq | hq | hq
        · refine .bits (q + 1) 0 hnext (by omega) (by omega) ?_ ?_ ?_ ?_ ?_ <;>
            simp [Tx.next, busy, baud, hlast, hm1, index, hq, data]
          · omega
          · rw [cell_data hq, Nat.mod_eq_of_lt hq]
        · refine .bits (q + 1) 0 hnext (by omega) (by omega) ?_ ?_ ?_ ?_ ?_ <;>
            simp [Tx.next, busy, baud, hlast, hm1, index, hq, data, cell_high]
        · have hq9 : q = 9 := by omega
          rw [hq9] at hnext
          refine .rest (by omega) ?_ ?_ <;> simp [Tx.next, busy, baud, hlast, hm1, index, hq9]
      · have hfit : (m + 1) % 2 ^ baudW T = m + 1 := baudW_fits hT (by omega)
        refine .bits q (m + 1) (by omega) bit (by omega) ?_ ?_ ?_ ?_ ?_ <;>
          simp [Tx.next, busy, baud, hlast, hm1, index, data, line, hfit]

end Transmit

/-! ## The receiver -/

section Registers

theorem getLsbD_setBit {v : BitVec 8} {k j : Nat} {b : Bool} (hk : k < 8) (hj : j < 8) :
    (setBit v k b).getLsbD j = if j = k then b else v.getLsbD j := by
  cases b <;> by_cases hjk : j = k <;> simp [setBit, hjk, hk, hj] <;> grind

namespace Rx

variable {T : Nat} {i : RxIn} {s : Rx}

theorem baudW_fits {m : Nat} (hm : m ≤ T) : m % 2 ^ rxBaudW T = m :=
  Nat.mod_eq_of_lt (lt_of_lt_of_le (Nat.lt_succ_of_le hm) (Nat.le_pow_clog (by omega) _))

theorem halfDone_eq (hT : 4 ≤ T) : s.halfDone T = decide (T / 2 ≤ s.baudCnt) := by
  rw [halfDone, halfBaudTicks, if_pos (by omega), baudW_fits (by omega)]

theorem bitDone_eq : s.bitDone T = decide (T - 1 ≤ s.baudCnt) := by
  rw [bitDone, baudW_fits (by omega)]

/-- The timer of the current state has not run out. -/
theorem next_count (hT : 4 ≤ T) (hs : s.state ≠ .idle) (hd : s.baudCnt < T - 1)
    (hh : s.state = .start → s.baudCnt < T / 2) :
    s.next T i =
      { s.handshake i with baudCnt := s.baudCnt + 1, rxdMeta := i.rxd, rxdSync := s.rxdMeta } := by
  have hcount : s.count T = s.baudCnt + 1 := baudW_fits (by omega)
  have hbit : s.bitDone T = false := by
    rw [bitDone_eq, decide_eq_false_iff_not]
    omega
  have hhalf : s.state = .start → s.halfDone T = false := by
    intro h
    rw [halfDone_eq hT, decide_eq_false_iff_not]
    have hlt := hh h
    omega
  cases h : s.state with
  | idle => exact absurd h hs
  | start => simp [next, fsm, h, hhalf h, hcount]
  | data => simp [next, fsm, h, hbit, hcount]
  | stop => simp [next, fsm, h, hbit, hcount]

theorem not_framed (h : s.state = .stop → s.baudCnt < T - 1) :
    s.framed T = false ∧ s.misframed T = false := by
  by_cases hs : s.state = .stop
  · have hbit : s.bitDone T = false := by
      rw [bitDone_eq, decide_eq_false_iff_not]
      have hlt := h hs
      omega
    simp [framed, misframed, hbit]
  · simp [framed, misframed, hs]

end Rx

end Registers

/-- The receiver at the age `a` of the frame of `b`, the one after the frame of `prev`, with the
bytes `pend` on their way. -/
inductive Hears (T : Nat) (b prev : BitVec 8) (a : Nat) (s : Rx) : List (BitVec 8) → Prop
  | waits (age : a ≤ 2) (state : s.state = .idle) : Hears T b prev a s [b]
  /-- The stop bit of the frame before is still to be sampled, with four ticks a bit. -/
  | late (age : a = 0) (state : s.state = .stop) (baud : s.baudCnt = T - 1)
      (shift : s.rxShift = prev) : Hears T b prev a s [prev, b]
  | starts (m : Nat) (age : a = 3 + m) (tick : m ≤ T / 2) (state : s.state = .start)
      (baud : s.baudCnt = m) (index : s.bitIndex = 0) : Hears T b prev a s [b]
  | bits (k m : Nat) (age : a = 4 + T / 2 + k * T + m) (bit : k < 8) (tick : m < T)
      (state : s.state = .data) (baud : s.baudCnt = m) (index : s.bitIndex = k)
      (shift : ∀ j, j < k → s.rxShift.getLsbD j = b.getLsbD j) : Hears T b prev a s [b]
  | stops (m : Nat) (age : a = 4 + T / 2 + 8 * T + m) (tick : m < T) (state : s.state = .stop)
      (baud : s.baudCnt = m) (shift : s.rxShift = b) : Hears T b prev a s [b]
  | rests (age : 4 + T / 2 + 9 * T ≤ a) (state : s.state = .idle) : Hears T b prev a s []

section Receive

variable {T : Nat} {b prev : BitVec 8} {a : Nat} {i : RxIn} {s : Rx} {pend : List (BitVec 8)}

/-- The byte that completes in this cycle. -/
def completed (T : Nat) (s : Rx) : List (BitVec 8) := if s.framed T then [s.rxShift] else []

/-- The receiver goes on with the frame. -/
theorem Hears.next (h : Hears T b prev a s pend) (hT : 4 ≤ T) (hsync : s.rxdSync = wire T b a) :
    s.misframed T = false ∧
      ∃ rest, pend = completed T s ++ rest ∧ Hears T b prev (a + 1) (s.next T i) rest := by
  cases h with
  | waits age state =>
      obtain ⟨hf, hm⟩ := Rx.not_framed (T := T) (s := s) (by simp [state])
      refine ⟨hm, [b], by simp [completed, hf], ?_⟩
      by_cases h2 : a = 2
      · have hlow : s.rxdSync = false := by
          rw [hsync, wire_cell (q := 0) (m := 0) (by omega) (by omega)]
          rfl
        exact .starts 0 (by omega) (by omega) (by simp [Rx.next, Rx.fsm, state, hlow])
          (by simp [Rx.next, Rx.fsm, state]) (by simp [Rx.next, Rx.fsm, state])
      · have hhigh : s.rxdSync = true := by rw [hsync, wire_early (by omega)]
        exact .waits (by omega) (by simp [Rx.next, Rx.fsm, state, hhigh])
  | late age state baud shift =>
      have hhigh : s.rxdSync = true := by rw [hsync, wire_early (by omega)]
      have hf : s.framed T = true := by simp [Rx.framed, state, Rx.bitDone_eq, baud, hhigh]
      refine ⟨Rx.misframed_of_framed hf, [b], by simp [completed, hf, shift], .waits (by omega) ?_⟩
      simp [Rx.next, Rx.fsm_framed hf]
  | starts m age tick state baud index =>
      obtain ⟨hf, hm⟩ := Rx.not_framed (T := T) (s := s) (by simp [state])
      refine ⟨hm, [b], by simp [completed, hf], ?_⟩
      by_cases hlast : m = T / 2
      · have hdone : s.halfDone T = true := by simp [Rx.halfDone_eq hT, baud, hlast]
        have hlow : s.rxdSync = false := by
          rw [hsync, wire_cell (q := 0) (m := 1 + T / 2) (by omega) (by omega)]
          rfl
        refine .bits 0 0 (by omega) (by omega) (by omega) ?_ ?_ ?_ (by omega) <;>
          simp [Rx.next, Rx.fsm, state, hdone, hlow, Rx.handshake, index]
      · rw [Rx.next_count hT (by simp [state]) (by omega) (by omega)]
        exact .starts (m + 1) (by omega) (by omega) state (by simp [baud]) index
  | bits k m age bit tick state baud index shift =>
      obtain ⟨hf, hm⟩ := Rx.not_framed (T := T) (s := s) (by simp [state])
      refine ⟨hm, [b], by simp [completed, hf], ?_⟩
      by_cases hlast : m = T - 1
      · have hdone : s.bitDone T = true := by simp [Rx.bitDone_eq, baud, hlast]
        have hage : a = 2 + (k + 1) * T + (1 + T / 2) := by
          rw [Nat.succ_mul]
          omega
        have hbit : s.rxdSync = b.getLsbD k := by
          rw [hsync, wire_cell (q := k + 1) (m := 1 + T / 2) (by omega) hage, cell_data bit]
        have hshift : ∀ j, j < k + 1 →
            (setBit s.rxShift k s.rxdSync).getLsbD j = b.getLsbD j := by
          intro j hj
          rw [getLsbD_setBit bit (by omega)]
          by_cases hjk : j = k
          · rw [if_pos hjk, hbit, hjk]
          · rw [if_neg hjk, shift j (by omega)]
        by_cases h7 : k = 7
        · refine .stops 0 (by rw [h7] at age; omega) (by omega) ?_ ?_ ?_
          · simp [Rx.next, Rx.fsm, state, hdone, index, h7]
          · simp [Rx.next, Rx.fsm, state, hdone, index, h7]
          · have heq : (s.next T i).rxShift = setBit s.rxShift k s.rxdSync := by
              simp [Rx.next, Rx.fsm, state, hdone, index, h7]
            rw [heq]
            exact BitVec.eq_of_getLsbD_eq fun j hj => hshift j (by omega)
        · have hwrap : (k + 1) % 8 = k + 1 := Nat.mod_eq_of_lt (by omega)
          refine .bits (k + 1) 0 (by rw [Nat.succ_mul]; omega) (by omega) (by omega) ?_ ?_ ?_ ?_
          · simp [Rx.next, Rx.fsm, state, hdone, index, h7, Rx.handshake]
          · simp [Rx.next, Rx.fsm, state, hdone, index, h7]
          · simp [Rx.next, Rx.fsm, state, hdone, index, h7, hwrap]
          · have heq : (s.next T i).rxShift = setBit s.rxShift k s.rxdSync := by
              simp [Rx.next, Rx.fsm, state, hdone, index, h7]
            rw [heq]
            exact hshift
      · rw [Rx.next_count hT (by simp [state]) (by omega) (by simp [state])]
        exact .bits k (m + 1) (by omega) bit (by omega) state (by simp [baud]) index shift
  | stops m age tick state baud shift =>
      by_cases hlast : m = T - 1
      · have hhigh : s.rxdSync = true := by rw [hsync, wire_high (by omega) (by omega)]
        have hf : s.framed T = true := by
          simp [Rx.framed, state, Rx.bitDone_eq, baud, hlast, hhigh]
        refine ⟨Rx.misframed_of_framed hf, [], by simp [completed, hf, shift],
          .rests (by omega) ?_⟩
        simp [Rx.next, Rx.fsm_framed hf]
      · obtain ⟨hf, hm⟩ := Rx.not_framed (T := T) (s := s) (fun _ => by omega)
        refine ⟨hm, [b], by simp [completed, hf], ?_⟩
        rw [Rx.next_count hT (by simp [state]) (by omega) (by simp [state])]
        exact .stops (m + 1) (by omega) (by omega) state (by simp [baud]) shift
  | rests age state =>
      obtain ⟨hf, hm⟩ := Rx.not_framed (T := T) (s := s) (by simp [state])
      refine ⟨hm, [], by simp [completed, hf], .rests (by omega) ?_⟩
      have hhigh : s.rxdSync = true := by rw [hsync, wire_high (by omega) (by omega)]
      simp [Rx.next, Rx.fsm, state, hhigh]

/-- After the last cycle of a frame the receiver is where the next frame needs it. -/
theorem Hears.restart (h : Hears T b prev a s pend) (hT : 4 ≤ T) (ha : 10 * T + 1 ≤ a)
    (c : BitVec 8) : Hears T c b 0 s (pend ++ [c]) := by
  cases h with
  | waits age state => omega
  | late age state baud shift => omega
  | starts m age tick state baud index => omega
  | bits k m age bit tick state baud index shift =>
      have hk : k * T ≤ 7 * T := Nat.mul_le_mul_right T (by omega)
      omega
  | stops m age tick state baud shift =>
      exact .late rfl state (by omega) shift
  | rests age state => exact .waits (by omega) state

/-- One cycle into a frame the frames before it are complete. -/
theorem Hears.alone (h : Hears T b prev 1 s pend) : pend = [b] := by
  cases h with
  | waits age state => rfl
  | late age state baud shift => cases age
  | starts m age tick state baud index => rfl
  | bits k m age bit tick state baud index shift => rfl
  | stops m age tick state baud shift => rfl
  | rests age state => omega

/-- After its stop bit nothing is on its way. -/
theorem Hears.over (h : Hears T b prev a s pend) (hT : 4 ≤ T) (ha : 4 + T / 2 + 9 * T ≤ a) :
    pend = [] := by
  cases h with
  | waits age state => omega
  | late age state baud shift => omega
  | starts m age tick state baud index => omega
  | bits k m age bit tick state baud index shift =>
      have hk : k * T ≤ 7 * T := Nat.mul_le_mul_right T (by omega)
      omega
  | stops m age tick state baud shift => omega
  | rests age state => rfl

end Receive

/-! ## Both together -/

/-- The pair with a frame of `b` at the age `a`, and the bytes `pend` sent but not received. -/
structure Round (T : Nat) (s : Pair) (a : Nat) (b prev : BitVec 8) (pend : List (BitVec 8)) :
    Prop where
  sends : Sends T b a s.tx
  sync : s.rx.rxdSync = wire T b a
  first : s.rx.rxdMeta = wire T b (a + 1)
  hears : Hears T b prev a s.rx pend
  clean : s.rx.rxFrameErr = false

section Loop

variable (T : Nat) (inp : Nat → Ctl)

/-- The pair with `txd` wired to `rxd`. -/
def loop (n : Nat) : Pair := Clocked.run (fun c s => s.next T s.tx.txd c) inp Pair.reset n

/-- A byte is accepted in this cycle. -/
def accepts (n : Nat) : Bool := (inp n).txValid && (loop T inp n).tx.txReady

/-- The bytes the transmitter has accepted. -/
def accepted : Nat → List (BitVec 8)
  | 0 => []
  | n + 1 => if accepts T inp n then accepted n ++ [(inp n).txData] else accepted n

/-- The bytes the receiver has delivered. -/
def delivered : Nat → List (BitVec 8)
  | 0 => []
  | n + 1 => delivered n ++ completed T (loop T inp n).rx

/-- The bytes that were read. -/
def taken : Nat → List (BitVec 8)
  | 0 => []
  | n + 1 =>
      if (loop T inp n).rx.rxValid && (inp n).rxReady then taken n ++ [(loop T inp n).rx.rxData]
      else taken n

/-- Each received byte is read before the next one completes. -/
def ReadInTime (n : Nat) : Prop :=
  ∀ k, k < n → (loop T inp k).rx.framed T = true → (loop T inp k).rx.rxValid = false

end Loop

section Steps

variable {T : Nat} {inp : Nat → Ctl} {n a : Nat} {b prev : BitVec 8} {pend : List (BitVec 8)}

theorem loop_succ : loop T inp (n + 1) =
    (loop T inp n).next T (loop T inp n).tx.txd (inp n) := rfl

theorem round_zero (hT : 4 ≤ T) : Round T (loop T inp 0) (11 * T) 0#8 0#8 [] where
  sends := .rest (by omega) rfl rfl
  sync := (wire_high (by omega) (by omega)).symm
  first := (wire_high (by omega) (by omega)).symm
  hears := .rests (by omega) rfl
  clean := rfl

/-- A cycle in which no byte is accepted. -/
theorem Round.goesOn (h : Round T (loop T inp n) a b prev pend) (hT : 4 ≤ T)
    (hno : accepts T inp n = false) :
    ∃ rest, pend = completed T (loop T inp n).rx ++ rest ∧
      Round T (loop T inp (n + 1)) (a + 1) b prev rest := by
  obtain ⟨hm, rest, hpend, hears⟩ := h.hears.next (i := ⟨(loop T inp n).tx.txd, (inp n).rxReady,
    (inp n).clearOverrun, (inp n).clearFrameErr⟩) hT h.sync
  refine ⟨rest, hpend, ?_, h.first, h.sends.txd hT, hears, ?_⟩
  · refine h.sends.next hT fun hv => ?_
    rw [accepts, hv, Bool.true_and] at hno
    exact hno
  · rw [loop_succ, Pair.next, Rx.next_rxFrameErr, hm, h.clean]
    rfl

/-- A cycle in which a byte is accepted: its frame begins. -/
theorem Round.begins (h : Round T (loop T inp n) a b prev pend) (hT : 4 ≤ T)
    (hacc : accepts T inp n = true) :
    ∃ rest, pend = completed T (loop T inp n).rx ++ rest ∧
      Round T (loop T inp (n + 1)) 0 (inp n).txData b (rest ++ [(inp n).txData]) := by
  obtain ⟨hm, rest, hpend, hears⟩ := h.hears.next (i := ⟨(loop T inp n).tx.txd, (inp n).rxReady,
    (inp n).clearOverrun, (inp n).clearFrameErr⟩) hT h.sync
  simp only [accepts, Bool.and_eq_true] at hacc
  have hage : 10 * T ≤ a ∧ (loop T inp n).tx.txd = true := by
    cases h.sends with
    | bits q m age bit tick busy baud index data line =>
        rw [hacc.2] at busy
        cases busy
    | rest age ready line => exact ⟨age, line⟩
  refine ⟨rest, hpend, ?_, ?_, ?_, hears.restart hT (by omega) _, ?_⟩
  · rw [loop_succ, Pair.next, hacc.1]
    exact Sends.accepts hT hacc.2
  · calc (loop T inp (n + 1)).rx.rxdSync = (loop T inp n).rx.rxdMeta := rfl
      _ = true := by rw [h.first, wire_high (by omega) (by omega)]
      _ = wire T (inp n).txData 0 := (wire_early (by omega)).symm
  · calc (loop T inp (n + 1)).rx.rxdMeta = (loop T inp n).tx.txd := rfl
      _ = true := hage.2
      _ = wire T (inp n).txData (0 + 1) := (wire_early (by omega)).symm
  · rw [loop_succ, Pair.next, Rx.next_rxFrameErr, hm, h.clean]
    rfl

/-- Along the run: what is accepted is what is delivered and what is on its way. -/
theorem rounds (inp : Nat → Ctl) (hT : 4 ≤ T) (n : Nat) : ∃ a b prev pend,
    Round T (loop T inp n) a b prev pend ∧ accepted T inp n = delivered T inp n ++ pend := by
  induction n with
  | zero => exact ⟨_, _, _, _, round_zero hT, rfl⟩
  | succ n ih =>
      obtain ⟨a, b, prev, pend, hround, hacc⟩ := ih
      by_cases h : accepts T inp n = true
      · obtain ⟨rest, hpend, hnext⟩ := hround.begins hT h
        refine ⟨_, _, _, _, hnext, ?_⟩
        rw [accepted, if_pos h, delivered, hacc, hpend]
        simp only [List.append_assoc]
      · obtain ⟨rest, hpend, hnext⟩ := hround.goesOn hT (by simpa using h)
        refine ⟨_, _, _, _, hnext, ?_⟩
        rw [accepted, if_neg h, delivered, hacc, hpend, List.append_assoc]

theorem delivered_mono {k : Nat} (h : n ≤ k) : delivered T inp n <+: delivered T inp k := by
  induction k, h using Nat.le_induction with
  | base => exact List.prefix_refl _
  | succ k hk ih => exact ih.trans (List.prefix_append _ _)

theorem Round.busy (h : Round T (loop T inp n) a b prev pend) (ha : a < 10 * T) :
    accepts T inp n = false := by
  cases h.sends with
  | bits q m age bit tick busy baud index data line => rw [accepts, busy, Bool.and_false]
  | rest age ready line => omega

/-- Within `d` cycles the bytes on their way are delivered, or the frame is `d` cycles older. -/
theorem Round.later (h : Round T (loop T inp n) a b prev pend) (hT : 4 ≤ T)
    (hacc : accepted T inp n = delivered T inp n ++ pend) (d : Nat) :
    accepted T inp n <+: delivered T inp (n + d + 1) ∨
      ∃ rest, Round T (loop T inp (n + d)) (a + d) b prev rest ∧
        accepted T inp n = delivered T inp (n + d) ++ rest := by
  induction d with
  | zero => exact .inr ⟨pend, h, hacc⟩
  | succ d ih =>
      rcases ih with hdone | ⟨rest, hround, hrest⟩
      · exact .inl (hdone.trans (delivered_mono (by omega)))
      · by_cases hnew : accepts T inp (n + d) = true
        · -- the next frame begins, and one cycle later the receiver is done with the last one
          obtain ⟨more, hmore, hbegun⟩ := hround.begins hT hnew
          obtain ⟨last, hlast, hon⟩ := hbegun.goesOn hT (hbegun.busy (by omega))
          rw [hon.hears.alone] at hlast
          have hcomp : more = completed T (loop T inp (n + d + 1)).rx :=
            List.append_inj_left' hlast rfl
          refine .inl ⟨[], ?_⟩
          calc accepted T inp n ++ []
              = delivered T inp (n + d) ++ (completed T (loop T inp (n + d)).rx ++ more) := by
                rw [List.append_nil, hrest, hmore]
            _ = delivered T inp (n + d + 1) ++ completed T (loop T inp (n + d + 1)).rx := by
                rw [delivered, hcomp, List.append_assoc]
            _ = delivered T inp (n + (d + 1) + 1) := rfl
        · obtain ⟨more, hmore, hon⟩ := hround.goesOn hT (by simpa using hnew)
          refine .inr ⟨more, hon, ?_⟩
          calc accepted T inp n
              = delivered T inp (n + d) ++ (completed T (loop T inp (n + d)).rx ++ more) := by
                rw [hrest, hmore]
            _ = delivered T inp (n + (d + 1)) ++ more := by
                rw [← List.append_assoc]
                rfl

/-- Every accepted byte is delivered within eleven bit times. -/
theorem accepted_delivered (hT : 4 ≤ T) (n : Nat) :
    accepted T inp n <+: delivered T inp (n + 11 * T) := by
  obtain ⟨a, b, prev, pend, hround, hacc⟩ := rounds inp hT n
  rcases hround.later hT hacc (4 + T / 2 + 9 * T) with hdone | ⟨rest, hlate, hrest⟩
  · exact hdone.trans (delivered_mono (by omega))
  · rw [hlate.hears.over hT (by omega), List.append_nil] at hrest
    rw [hrest]
    exact delivered_mono (by omega)

/-- Read in time, no byte is overwritten. -/
theorem taken_in_time (h : ReadInTime T inp n) :
    (loop T inp n).rx.rxOverrun = false ∧
      delivered T inp n = taken T inp n ++
        if (loop T inp n).rx.rxValid then [(loop T inp n).rx.rxData] else [] := by
  induction n with
  | zero => exact ⟨rfl, rfl⟩
  | succ n ih =>
      obtain ⟨hover, hbytes⟩ := ih fun k hk => h k (by omega)
      have hfree := h n (Nat.lt_succ_self n)
      have hoverrun : (loop T inp (n + 1)).rx.rxOverrun =
          (((loop T inp n).rx.framed T && (loop T inp n).rx.rxValid) ||
            ((loop T inp n).rx.rxOverrun && !(inp n).clearOverrun)) := Rx.next_rxOverrun
      have hvalid : (loop T inp (n + 1)).rx.rxValid =
          ((loop T inp n).rx.framed T || ((loop T inp n).rx.rxValid && !(inp n).rxReady)) :=
        Rx.next_rxValid
      have hdata : (loop T inp (n + 1)).rx.rxData =
          if (loop T inp n).rx.framed T then (loop T inp n).rx.rxShift
          else (loop T inp n).rx.rxData := Rx.next_rxData
      rw [hoverrun, hvalid, hdata, delivered, taken, completed, hover, hbytes]
      by_cases hf : (loop T inp n).rx.framed T = true
      · simp [hf, hfree hf]
      · rw [Bool.not_eq_true] at hf
        cases hv : (loop T inp n).rx.rxValid with
        | false => simp [hf]
        | true => cases hr : (inp n).rxReady <;> simp [hf]

end Steps

/-- **Loopback round trip.** The receiver delivers the bytes the transmitter accepts, in order, each
within eleven bit times, and without a frame error. When each is read before the next one completes
there is no overrun and the bytes read are those delivered, up to the one still to be read. A
request while the transmitter is busy changes nothing. -/
theorem loopback_round_trip (clkFreq uartBaud : BitVec 32) (hT : 4 ≤ bitTicks clkFreq uartBaud)
    (inp : Nat → Ctl) (n : Nat) :
    (delivered (bitTicks clkFreq uartBaud) inp n <+: accepted (bitTicks clkFreq uartBaud) inp n ∧
      accepted (bitTicks clkFreq uartBaud) inp n <+:
        delivered (bitTicks clkFreq uartBaud) inp (n + 11 * bitTicks clkFreq uartBaud) ∧
      (loop (bitTicks clkFreq uartBaud) inp n).rx.rxFrameErr = false) ∧
    (ReadInTime (bitTicks clkFreq uartBaud) inp n →
      (loop (bitTicks clkFreq uartBaud) inp n).rx.rxOverrun = false ∧
        delivered (bitTicks clkFreq uartBaud) inp n = taken (bitTicks clkFreq uartBaud) inp n ++
          if (loop (bitTicks clkFreq uartBaud) inp n).rx.rxValid
          then [(loop (bitTicks clkFreq uartBaud) inp n).rx.rxData] else []) ∧
    ∀ (s : Pair) (line : Bool) (c : Ctl) (v : Bool) (d : BitVec 8), s.tx.txReady = false →
      s.next (bitTicks clkFreq uartBaud) line { c with txValid := v, txData := d } =
        s.next (bitTicks clkFreq uartBaud) line c := by
  refine ⟨?_, taken_in_time, fun s line c v d hbusy => ?_⟩
  · obtain ⟨a, b, prev, pend, hround, hacc⟩ := rounds inp hT n
    exact ⟨⟨pend, hacc.symm⟩, accepted_delivered hT n, hround.clean⟩
  · rw [Pair.next, Pair.next, Tx.next_busy hbusy]

/-- Two bytes without a gap, read as they come. -/
def twoBytes (n : Nat) : Ctl :=
  { txValid := n ≤ 41, txData := if n = 0 then 0xA5#8 else 0x3C#8, rxReady := true
    clearOverrun := false, clearFrameErr := false }

theorem loopback_two_bytes :
    accepted 4 twoBytes 42 = [0xA5#8, 0x3C#8] ∧ [0xA5#8, 0x3C#8] <+: delivered 4 twoBytes 86 := by
  have hticks : bitTicks 4#32 1#32 = 4 := by decide
  have hacc : accepted 4 twoBytes 42 = [0xA5#8, 0x3C#8] := by decide +kernel
  have hall := (loopback_round_trip 4#32 1#32 (by rw [hticks]) twoBytes 42).1.2.1
  rw [hticks, hacc] at hall
  exact ⟨hacc, hall⟩

end Uart

end MelonSoc
