import Mathlib.Tactic.IntervalCases
import MelonSoc.Lib.Crc
import MelonSoc.Periph.SdCommand

set_option autoImplicit false

/-! # A block from the card

The card answers a command some SD clock cycles after its end bit, and sends the block some cycles
after the end bit of the response. The host counts rising edges from its own frame on; at the edge
`h` it sees the levels `cmd h` and `dat h` that the card has driven since the falling edge before.
Where it is in the transfer, and what it has collected, is a function of `h`.
-/

namespace MelonSoc

namespace SdHost

/-! ## The checksums -/

theorem crc16Next_eq (c : BitVec 16) (b : Bool) : crc16Next c b = Crc.step 0x1021#16 c b := by
  apply BitVec.eq_of_getLsbD_eq
  intro i hi
  rw [Crc.getLsbD_step hi, BitVec.msb_eq_getLsbD_last]
  simp only [crc16Next, BitVec.getLsbD_append, BitVec.getLsbD_extractLsb', BitVec.getLsbD_ofBool]
  interval_cases i <;> simp

theorem crc7Next_eq (c : BitVec 7) (b : Bool) : crc7Next c b = Crc.step 0x09#7 c b := by
  apply BitVec.eq_of_getLsbD_eq
  intro i hi
  rw [Crc.getLsbD_step hi, BitVec.msb_eq_getLsbD_last]
  simp only [crc7Next, BitVec.getLsbD_append, BitVec.getLsbD_extractLsb', BitVec.getLsbD_ofBool]
  interval_cases i <;> simp

/-- The checksum of a command frame is the one of the generator `x^7 + x^3 + 1`. -/
theorem crc7Cmd_eq (cmd : BitVec 6) (arg : Word) :
    crc7Cmd cmd arg = Crc.feed 0x09#7 0#7 (msbFirst (0b01#2 ++ cmd ++ arg)) := by
  have hstep : crc7Next = Crc.step 0x09#7 := by
    funext c b
    exact crc7Next_eq c b
  rw [crc7Cmd, hstep]
  rfl

/-! ## What the card does -/

/-- The levels of the card's lines at the rising edges since the end of the command. -/
structure Card where
  cmd : Nat → Bool
  dat : Nat → Bool

/-- The card answers after `d` edges and sends its block `e` edges after the end bit of the
response. -/
structure Card.Answers (c : Card) (d e : Nat) : Prop where
  respIdle : ∀ h, h < d → c.cmd h = true
  respStart : c.cmd d = false
  respTime : d ≤ 65535
  datIdle : ∀ h, d + 48 ≤ h → h < d + 48 + e → c.dat h = true
  datStart : c.dat (d + 48 + e) = false
  datTime : e ≤ 65535

/-- The edge of the first bit of the block. -/
def first (d e : Nat) : Nat := d + 49 + e

/-- The first `n` bits of the block and, from 4096 on, of its checksum. -/
def Card.bits (c : Card) (d e n : Nat) : List Bool :=
  (List.range n).map fun k => c.dat (first d e + k)

/-- The stop bit. -/
def Card.stop (c : Card) (d e : Nat) : Bool := c.dat (first d e + 4112)

/-- Block, checksum and stop bit are not as they have to be. -/
def Card.broken (c : Card) (d e : Nat) : Bool :=
  !c.stop d e || Crc.feed 0x1021#16 0#16 (c.bits d e 4112) != 0#16

/-- The words of the block below `n` are in the buffer. -/
def Stored (c : Card) (d e n : Nat) (buf : BitVec 7 → Word) : Prop :=
  ∀ w, w < n → ∀ i, i < 32 →
    (buf (BitVec.ofNat 7 w)).getLsbD (31 - i) = c.dat (first d e + 32 * w + i)

/-- The register holds the last of `n` bits. -/
def Shifted {w : Nat} (c : Card) (at0 n : Nat) (v : BitVec w) : Prop :=
  ∀ i, i < w → i < n → v.getLsbD i = c.dat (at0 + n - 1 - i)

/-- Where the machine is in the transfer at the edge `h`. -/
inductive Reads (c : Card) (d e : Nat) (f : Fsm) (h : Nat) : Prop
  | pending (state : f.state = .idle)
  | gap (state : f.state = .cmdGap) (count : 1 ≤ f.bitCount ∧ f.bitCount ≤ 8)
      (read : f.opRead = true) (ok : f.opError = false)
  | frame (state : f.state = .cmdBits) (count : 1 ≤ f.bitCount ∧ f.bitCount ≤ 48)
      (read : f.opRead = true) (ok : f.opError = false)
  | wait (state : f.state = .respWait) (edge : f.timeout = h) (le : h ≤ d)
      (count : f.bitCount = 48) (oe : f.sdcmdOe = false) (read : f.opRead = true)
      (ok : f.opError = false)
  | resp (state : f.state = .respBits) (count : 1 ≤ f.bitCount ∧ f.bitCount ≤ 47)
      (edge : h + f.bitCount = d + 48) (read : f.opRead = true) (ok : f.opError = false)
  | dataWait (state : f.state = .dataWait) (edge : h = d + 48 + f.timeout) (le : f.timeout ≤ e)
      (ok : f.opError = false)
  | data (k : Nat) (state : f.state = .dataBits) (lt : k < 4096) (edge : h = first d e + k)
      (count : f.dataBitCount = k) (shift : Shifted c (first d e) k f.dataShift)
      (crc : f.dataCrcCalc = Crc.feed 0x1021#16 0#16 (c.bits d e k))
      (buf : Stored c d e (k / 32) f.dataBuf) (ok : f.opError = false)
  | crc (k : Nat) (state : f.state = .dataCrc) (lt : k < 16) (edge : h = first d e + 4096 + k)
      (count : f.bitCount = 16 - k) (shift : Shifted c (first d e + 4096) k f.dataCrcRecv)
      (crc : f.dataCrcCalc = Crc.feed 0x1021#16 0#16 (c.bits d e 4096))
      (buf : Stored c d e 128 f.dataBuf) (ok : f.opError = false)
  | last (state : f.state = .dataEnd) (edge : h = first d e + 4112)
      (shift : Shifted c (first d e + 4096) 16 f.dataCrcRecv)
      (crc : f.dataCrcCalc = Crc.feed 0x1021#16 0#16 (c.bits d e 4096))
      (buf : Stored c d e 128 f.dataBuf) (ok : f.opError = false)
  | ended (state : f.state = .done) (buf : Stored c d e 128 f.dataBuf)
      (err : f.opError = c.broken d e)

section Bits

variable {c : Card} {d e k : Nat}

theorem Card.bits_succ (n : Nat) : c.bits d e (n + 1) = c.bits d e n ++ [c.dat (first d e + n)] := by
  simp [Card.bits, List.range_succ]

/-- One more bit from below. -/
theorem Shifted.push {w at0 n : Nat} {v : BitVec (w + 1)} (h : Shifted c at0 n v) :
    Shifted c at0 (n + 1) (v.extractLsb' 0 w ++ BitVec.ofBool (c.dat (at0 + n))) := by
  intro i hi hn
  rw [BitVec.getLsbD_append]
  cases i with
  | zero =>
      rw [if_pos (by omega)]
      simp
  | succ i =>
      have hpos : at0 + (n + 1) - 1 - (i + 1) = at0 + n - 1 - i := by omega
      rw [if_neg (by omega), BitVec.getLsbD_extractLsb', hpos, ← h i (by omega) (by omega)]
      have hlt : i < w := by omega
      simp [hlt]

/-- The received checksum as the last bits of the message. -/
theorem bits_recv {v : BitVec 16} (h : Shifted c (first d e + 4096) 16 v) :
    c.bits d e 4112 = c.bits d e 4096 ++ Crc.bits v := by
  have hlen : 4112 = 4096 + 16 := rfl
  rw [Card.bits, hlen, List.range_add, List.map_append, List.map_map]
  refine congrArg₂ (· ++ ·) rfl (List.map_congr_left fun k hk => ?_)
  have hk' : k < 16 := List.mem_range.mp hk
  have hpos : first d e + 4096 + 16 - 1 - (16 - 1 - k) = first d e + (4096 + k) := by omega
  rw [h (16 - 1 - k) (by omega) (by omega), hpos]
  rfl

/-- The comparison at the stop bit is the check of the whole message. -/
theorem broken_iff {v u : BitVec 16} (h : Shifted c (first d e + 4096) 16 v)
    (hu : u = Crc.feed 0x1021#16 0#16 (c.bits d e 4096)) :
    c.broken d e = (decide (c.stop d e = false) || decide (v ≠ u)) := by
  have hiff : Crc.feed 0x1021#16 0#16 (c.bits d e 4112) = 0#16 ↔ u = v := by
    rw [bits_recv h, Crc.feed_bits_iff (by decide), hu]
  rw [Card.broken]
  generalize Crc.feed 0x1021#16 0#16 (c.bits d e 4112) = r at hiff ⊢
  by_cases huv : u = v
  · rw [hiff.mpr huv, huv]
    cases c.stop d e <;> simp
  · have hr : r ≠ 0#16 := fun hz => huv (hiff.mp hz)
    have hvu : v ≠ u := fun hz => huv hz.symm
    cases c.stop d e <;> simp [hr, hvu]

end Bits

/-! ## The edges of the transfer -/

section Edge

variable {c : Card} {d e h : Nat} {f : Fsm} {r : Regs}

/-- The divider does not matter. -/
theorem Reads.clock (hr : Reads c d e f h) (a : Nat) (b : Bool) :
    Reads c d e { f with sdclkDiv := a, sdclkQ := b } h := by
  cases hr with
  | pending state => exact .pending state
  | gap state count read ok => exact .gap state count read ok
  | frame state count read ok => exact .frame state count read ok
  | wait state edge le count oe read ok => exact .wait state edge le count oe read ok
  | resp state count edge read ok => exact .resp state count edge read ok
  | dataWait state edge le ok => exact .dataWait state edge le ok
  | data k state lt edge count shift crc buf ok =>
      exact .data k state lt edge count shift crc buf ok
  | crc k state lt edge count shift crc buf ok => exact .crc k state lt edge count shift crc buf ok
  | last state edge shift crc buf ok => exact .last state edge shift crc buf ok
  | ended state buf err => exact .ended state buf err

/-- Before the frame is out the edges do not count. -/
theorem Reads.front (hr : Reads c d e f h) (hans : f.state.answering = false) (n : Nat) :
    Reads c d e f n := by
  cases hr with
  | pending state => exact .pending state
  | gap state count read ok => exact .gap state count read ok
  | frame state count read ok => exact .frame state count read ok
  | ended state buf err => exact .ended state buf err
  | wait state edge le count oe read ok => simp [state, State.answering] at hans
  | resp state count edge read ok => simp [state, State.answering] at hans
  | dataWait state edge le ok => simp [state, State.answering] at hans
  | data k state lt edge count shift crc buf ok => simp [state, State.answering] at hans
  | crc k state lt edge count shift crc buf ok => simp [state, State.answering] at hans
  | last state edge shift crc buf ok => simp [state, State.answering] at hans

/-- While it waits for the response the host does not drive the line. -/
theorem Reads.released (hr : Reads c d e f h) (hs : f.state = .respWait) : f.sdcmdOe = false := by
  cases hr with
  | wait state edge le count oe read ok => exact oe
  | pending state => simp [state] at hs
  | gap state count read ok => simp [state] at hs
  | frame state count read ok => simp [state] at hs
  | resp state count edge read ok => simp [state] at hs
  | dataWait state edge le ok => simp [state] at hs
  | data k state lt edge count shift crc buf ok => simp [state] at hs
  | crc k state lt edge count shift crc buf ok => simp [state] at hs
  | last state edge shift crc buf ok => simp [state] at hs
  | ended state buf err => simp [state] at hs

/-- A falling edge moves the command on; while the machine waits for the card it does nothing. -/
theorem Reads.fall (hr : Reads c d e f h) (hidx : r.cmdIdx = 17#6)
    (hstart : Fsm.starts r = true) (hread : (r.startRead || r.status.read) = true)
    (hne : f.state ≠ .done) : Reads c d e (f.fall r) (if f.state.answering then h else 0) := by
  cases hr with
  | pending state =>
      refine .gap ?_ ?_ ?_ ?_ <;> simp [Fsm.fall, state, hstart, hidx, hread]
  | gap state count read ok =>
      by_cases h1 : f.bitCount = 1
      · refine .frame ?_ ?_ ?_ ?_ <;> simp [Fsm.fall, state, h1, read, ok]
      · refine .gap ?_ ?_ ?_ ?_ <;> simp [Fsm.fall, state, h1, read, ok, Fsm.bitDown]
        omega
  | frame state count read ok =>
      by_cases h1 : f.bitCount = 1
      · refine .wait ?_ ?_ (by simp [state, State.answering]) ?_ ?_ ?_ ?_ <;>
          simp [Fsm.fall, state, h1, hidx, read, ok, State.answering]
      · refine .frame ?_ ?_ ?_ ?_ <;> simp [Fsm.fall, state, h1, read, ok, Fsm.bitDown]
        omega
  | wait state edge le count oe read ok =>
      simp only [Fsm.fall, state, State.answering, if_true]
      exact .wait state edge le count oe read ok
  | resp state count edge read ok =>
      simp only [Fsm.fall, state, State.answering, if_true]
      exact .resp state count edge read ok
  | dataWait state edge le ok =>
      simp only [Fsm.fall, state, State.answering, if_true]
      exact .dataWait state edge le ok
  | data k state lt edge count shift crc buf ok =>
      simp only [Fsm.fall, state, State.answering, if_true]
      exact .data k state lt edge count shift crc buf ok
  | crc k state lt edge count shift crc buf ok =>
      simp only [Fsm.fall, state, State.answering, if_true]
      exact .crc k state lt edge count shift crc buf ok
  | last state edge shift crc buf ok =>
      simp only [Fsm.fall, state, State.answering, if_true]
      exact .last state edge shift crc buf ok
  | ended state buf err => exact absurd state hne

/-- A word goes to the buffer with every 32nd bit. -/
theorem Stored.push {k : Nat} {v : Word} {buf : BitVec 7 → Word} (hb : Stored c d e (k / 32) buf)
    (hv : Shifted c (first d e) (k + 1) v) (hk : k < 4096) :
    Stored c d e ((k + 1) / 32)
      (if k % 32 = 31 then Function.update buf (BitVec.ofNat 7 (k / 32)) v else buf) := by
  by_cases h31 : k % 32 = 31
  · intro w hw i hi
    rw [if_pos h31]
    by_cases hlast : w = k / 32
    · have hpos : first d e + (k + 1) - 1 - (31 - i) = first d e + 32 * w + i := by omega
      rw [hlast, Function.update_self, ← hlast, ← hpos]
      exact hv (31 - i) (by omega) (by omega)
    · have hne : BitVec.ofNat 7 w ≠ BitVec.ofNat 7 (k / 32) := by
        intro heq
        have hnat := congrArg BitVec.toNat heq
        simp only [BitVec.toNat_ofNat] at hnat
        omega
      rw [Function.update_of_ne hne]
      exact hb w (by omega) i hi
  · rw [if_neg h31]
    have hsame : (k + 1) / 32 = k / 32 := by omega
    rw [hsame]
    exact hb

/-- A rising edge takes the next level of the card. -/
theorem Reads.rise {b : Bool} (hr : Reads c d e f h) (ha : c.Answers d e)
    (hans : f.state.answering = true) (hb : f.state = .respWait → b = c.cmd h) :
    Reads c d e (f.rise r b (c.dat h)) (h + 1) := by
  cases hr with
  | pending state => rw [state] at hans; cases hans
  | gap state count read ok => rw [state] at hans; cases hans
  | frame state count read ok => rw [state] at hans; cases hans
  | ended state buf err => rw [state] at hans; cases hans
  | wait state edge le count oe read ok =>
      have hd := ha.respTime
      rw [hb state]
      by_cases hlast : h = d
      · have hlow : c.cmd h = false := by rw [hlast]; exact ha.respStart
        refine .resp ?_ ?_ ?_ ?_ ?_ <;>
          simp [Fsm.rise, state, hlow, count, read, ok, Fsm.bitDown]
        omega
      · have hhigh : c.cmd h = true := ha.respIdle h (by omega)
        have htime : f.timeout ≠ 65535 := by omega
        refine .wait ?_ ?_ (by omega) ?_ ?_ ?_ ?_ <;>
          simp [Fsm.rise, state, hhigh, htime, count, oe, read, ok, Fsm.timeUp]
        omega
  | resp state count edge read ok =>
      by_cases h1 : f.bitCount = 1
      · refine .dataWait ?_ ?_ ?_ ?_ <;> simp [Fsm.rise, state, h1, read, ok]
        omega
      · refine .resp ?_ ?_ ?_ ?_ ?_ <;> simp [Fsm.rise, state, h1, read, ok, Fsm.bitDown]
        · omega
        · omega
  | dataWait state edge le ok =>
      have he := ha.datTime
      by_cases hlast : f.timeout = e
      · have hlow : c.dat h = false := by
          rw [edge, hlast]
          exact ha.datStart
        refine .data 0 ?_ (by omega) ?_ ?_ ?_ ?_ ?_ ?_
        · simp [Fsm.rise, state, hlow]
        · rw [first]
          omega
        · simp [Fsm.rise, state, hlow]
        · intro i _ hi
          omega
        · simp [Fsm.rise, state, hlow, Card.bits]
        · intro w hw
          omega
        · simp [Fsm.rise, state, hlow, ok]
      · have hhigh : c.dat h = true := ha.datIdle h (by omega) (by omega)
        have htime : f.timeout ≠ 65535 := by omega
        refine .dataWait ?_ ?_ ?_ ?_ <;> simp [Fsm.rise, state, hhigh, htime, ok, Fsm.timeUp]
        · omega
        · omega
  | data k state lt edge count shift crc buf ok =>
      have hshift := shift.push
      rw [← edge] at hshift
      have hcrc : crc16Next f.dataCrcCalc (c.dat h) =
          Crc.feed 0x1021#16 0#16 (c.bits d e (k + 1)) := by
        rw [Card.bits_succ, Crc.feed_append, Crc.feed_cons, Crc.feed_nil, ← crc, crc16Next_eq, edge]
      have hbuf := buf.push hshift lt
      have hfalls : (f.rise r b (c.dat h)).dataShift =
            f.dataShift.extractLsb' 0 31 ++ BitVec.ofBool (c.dat h) ∧
          (f.rise r b (c.dat h)).dataCrcCalc = crc16Next f.dataCrcCalc (c.dat h) ∧
          (f.rise r b (c.dat h)).dataBuf =
            (if k % 32 = 31 then Function.update f.dataBuf (BitVec.ofNat 7 (k / 32))
              (f.dataShift.extractLsb' 0 31 ++ BitVec.ofBool (c.dat h)) else f.dataBuf) ∧
          (f.rise r b (c.dat h)).opError = false := by
        by_cases hlast : k = 4095 <;> simp [Fsm.rise, state, count, hlast, ok]
      obtain ⟨h1, h2, h3, h4⟩ := hfalls
      by_cases hlast : k = 4095
      · have hnext : (f.rise r b (c.dat h)).state = .dataCrc ∧
            (f.rise r b (c.dat h)).bitCount = 16 := by
          simp [Fsm.rise, state, count, hlast]
        refine .crc 0 hnext.1 (by omega) (by omega) hnext.2 (fun i _ hi => by omega) ?_ ?_ h4
        · rw [h2, hcrc, hlast]
        · rw [h3]
          have hfull : (k + 1) / 32 = 128 := by omega
          rw [← hfull]
          exact hbuf
      · have hnext : (f.rise r b (c.dat h)).state = .dataBits ∧
            (f.rise r b (c.dat h)).dataBitCount = (k + 1) % 4096 := by
          simp [Fsm.rise, state, count, hlast]
        refine .data (k + 1) hnext.1 (by omega) (by omega) ?_ ?_ ?_ ?_ h4
        · rw [hnext.2, Nat.mod_eq_of_lt (by omega)]
        · rw [h1]
          exact hshift
        · rw [h2, hcrc]
        · rw [h3]
          exact hbuf
  | crc k state lt edge count shift crc buf ok =>
      have hshift := shift.push
      rw [← edge] at hshift
      have hfalls : (f.rise r b (c.dat h)).dataCrcRecv =
            f.dataCrcRecv.extractLsb' 0 15 ++ BitVec.ofBool (c.dat h) ∧
          (f.rise r b (c.dat h)).dataCrcCalc = f.dataCrcCalc ∧
          (f.rise r b (c.dat h)).dataBuf = f.dataBuf ∧
          (f.rise r b (c.dat h)).opError = false := by
        by_cases h1 : f.bitCount = 1 <;> simp [Fsm.rise, state, h1, ok]
      obtain ⟨h1, h2, h3, h4⟩ := hfalls
      by_cases hlast : k = 15
      · have hnext : (f.rise r b (c.dat h)).state = .dataEnd := by
          simp [Fsm.rise, state, count, hlast]
        refine .last hnext (by omega) ?_ (by rw [h2, crc]) (by rw [h3]; exact buf) h4
        rw [h1]
        rw [hlast] at hshift
        exact hshift
      · have hnext : (f.rise r b (c.dat h)).state = .dataCrc ∧
            (f.rise r b (c.dat h)).bitCount = f.bitDown := by
          have hne : f.bitCount ≠ 1 := by omega
          simp [Fsm.rise, state, hne]
        refine .crc (k + 1) hnext.1 (by omega) (by omega) ?_ ?_ (by rw [h2, crc])
          (by rw [h3]; exact buf) h4
        · rw [hnext.2, Fsm.bitDown]
          omega
        · rw [h1]
          exact hshift
  | last state edge shift crc buf ok =>
      refine .ended ?_ ?_ ?_
      · simp [Fsm.rise, state]
      · simp only [Fsm.rise, state]
        exact buf
      · have hstop : c.dat h = c.stop d e := by rw [Card.stop, edge]
        rw [broken_iff shift crc]
        simp [Fsm.rise, state, hstop, ok]

end Edge

/-! ## The operation -/

/-- No write in this cycle. -/
def noWrite (b : WbReq) : Prop := (b.cyc && b.stb && b.we) = false

/-- The edges the host has sampled the card's lines at. -/
def heardNext (D : Dividers) (_ : In) (s : SdHost) (h : Nat) : Nat :=
  if s.fsm.state.answering then if rises D s then h + 1 else h else 0

/-- The levels the card drives in a cycle. -/
def Levels (D : Dividers) (c : Card) (i : In) (s : SdHost) (h : Nat) : Prop :=
  rises D s = true → s.fsm.state.answering = true →
    i.cmd = c.cmd h ∧ i.dat.getLsbD 0 = c.dat h

/-- The read of a block is going on. -/
structure Going (c : Card) (d e : Nat) (s : SdHost) (h : Nat) : Prop where
  fsm : Reads c d e s.fsm h
  cmd : s.regs.cmdIdx = 17#6
  busy : s.regs.status.busy = true
  done : s.regs.status.done = false
  read : s.regs.status.read = true
  div : s.fsm.sdclkDiv < 256

/-- The read of a block has ended, and nothing was written since. -/
structure Finished (c : Card) (d e : Nat) (s : SdHost) : Prop where
  state : s.fsm.state = .done ∧ s.fsm.opError = c.broken d e ∨ s.fsm.state = .idle
  start : s.regs.startRead = false
  busy : s.regs.status.busy = false
  done : s.regs.status.done = true
  err : s.regs.status.err = c.broken d e
  buf : Stored c d e 128 s.fsm.dataBuf

section Operation

variable {D : Dividers} {c : Card} {d e h : Nat} {i : In} {s : SdHost}

theorem regs_noWrite (hw : noWrite i.bus) (hs : s.fsm.state ≠ .done) :
    (s.next D i).regs = { s.regs with startRead := false } := by
  have hno : ∀ a, Regs.writes i.bus a = false := by
    intro a
    rw [Regs.writes, show (i.bus.cyc && i.bus.stb && i.bus.we) = false from hw, Bool.false_and]
  have hregs : (s.next D i).regs = s.regs.mmioWrite i.bus := next_of_ne hs
  rw [hregs]
  simp [Regs.mmioWrite, hno]

/-- The machine in a cycle of the transfer. -/
theorem Going.fsm_next (hg : Going c d e s h) (ha : c.Answers d e) (hl : Levels D c i s h)
    (hne : s.fsm.state ≠ .done) : Reads c d e (s.next D i).fsm (heardNext D i s h) := by
  by_cases ht : s.fsm.ticks D s.regs = true
  · cases hq : s.fsm.sdclkQ with
    | true =>
        have hf : falls D s = true := by simp [falls, ht, hq]
        have hr : rises D s = false := by simp [rises, hq]
        have hfall := hg.fsm.fall (r := s.regs) hg.cmd (by simp [Fsm.starts, hg.busy, hg.done])
          (by simp [hg.read]) hne
        rw [fsm_next_fall hf, heardNext, hr]
        exact hfall.clock 0 false
    | false =>
        have hr : rises D s = true := by simp [rises, ht, hq]
        rw [fsm_next_rise hr, heardNext, hr]
        by_cases hans : s.fsm.state.answering = true
        · obtain ⟨hcmd, hdat⟩ := hl hr hans
          rw [if_pos hans, if_pos rfl, hdat]
          refine (hg.fsm.rise ha hans fun hwait => ?_).clock 0 true
          rw [Fsm.sdcmd, hg.fsm.released hwait, ← hcmd]
          rfl
        · have hstill : s.fsm.rise s.regs (s.fsm.sdcmd i) (i.dat.getLsbD 0) = s.fsm := by
            cases hst : s.fsm.state <;> simp [hst, State.answering] at hans <;> simp [Fsm.rise, hst]
          rw [hstill, if_neg hans]
          exact (hg.fsm.front (by simpa using hans) 0).clock 0 true
  · rw [Bool.not_eq_true] at ht
    have hr : rises D s = false := by simp [rises, ht]
    rw [fsm_next_wait ht, heardNext, hr]
    cases hans : s.fsm.state.answering with
    | true => exact hg.fsm.clock _ _
    | false => exact (hg.fsm.front hans 0).clock _ _

/-- One cycle of the read of a block. -/
theorem Going.next (hg : Going c d e s h) (ha : c.Answers d e) (hl : Levels D c i s h)
    (hw : noWrite i.bus) (hne : s.fsm.state ≠ .done) :
    Going c d e (s.next D i) (heardNext D i s h) where
  fsm := hg.fsm_next ha hl hne
  cmd := by rw [regs_noWrite hw hne]; exact hg.cmd
  busy := by rw [regs_noWrite hw hne]; exact hg.busy
  done := by rw [regs_noWrite hw hne]; exact hg.done
  read := by rw [regs_noWrite hw hne]; exact hg.read
  div := sdclkDiv_next s i

/-- In `S_DONE` the machine keeps what it has. -/
theorem fsm_next_done (hs : s.fsm.state = .done) :
    ((s.next D i).fsm.state = .done ∨ (s.next D i).fsm.state = .idle) ∧
      (s.next D i).fsm.opError = s.fsm.opError ∧ (s.next D i).fsm.dataBuf = s.fsm.dataBuf := by
  by_cases hf : falls D s = true
  · rw [fsm_next_fall hf]
    simp [Fsm.fall, hs]
  · obtain ⟨a, b, hq⟩ := fsm_next_quiet (i := i) (by simpa using hf) (by simp [hs, State.answering])
    rw [hq]
    exact ⟨.inl hs, rfl, rfl⟩

/-- In `S_DONE` the status is written in every cycle. -/
theorem regs_next_done (hw : noWrite i.bus) (hs : s.fsm.state = .done) :
    (s.next D i).regs.startRead = false ∧ (s.next D i).regs.status =
      { busy := false, done := true, err := s.fsm.opError, read := s.regs.status.read } := by
  have hno : ∀ a, Regs.writes i.bus a = false := by
    intro a
    rw [Regs.writes, show (i.bus.cyc && i.bus.stb && i.bus.we) = false from hw, Bool.false_and]
  simp [SdHost.next, Regs.next, hs, Regs.mmioWrite, hno]

theorem Going.ends (hg : Going c d e s h) (hw : noWrite i.bus) (hs : s.fsm.state = .done) :
    Finished c d e (s.next D i) := by
  have hover : s.fsm.opError = c.broken d e ∧ Stored c d e 128 s.fsm.dataBuf := by
    cases hg.fsm with
    | ended state buf err => exact ⟨err, buf⟩
    | pending state => simp [state] at hs
    | gap state count read ok => simp [state] at hs
    | frame state count read ok => simp [state] at hs
    | wait state edge le count oe read ok => simp [state] at hs
    | resp state count edge read ok => simp [state] at hs
    | dataWait state edge le ok => simp [state] at hs
    | data k state lt edge count shift crc buf ok => simp [state] at hs
    | crc k state lt edge count shift crc buf ok => simp [state] at hs
    | last state edge shift crc buf ok => simp [state] at hs
  obtain ⟨hstate, herr, hbuf⟩ := fsm_next_done (D := D) (i := i) hs
  obtain ⟨hstart, hstatus⟩ := regs_next_done (D := D) hw hs
  refine ⟨?_, hstart, by rw [hstatus], by rw [hstatus], ?_, by rw [hbuf]; exact hover.2⟩
  · exact hstate.imp (fun h => ⟨h, by rw [herr]; exact hover.1⟩) id
  · rw [hstatus]
    exact hover.1

theorem Finished.next (hf : Finished c d e s) (hw : noWrite i.bus) :
    Finished c d e (s.next D i) := by
  rcases hf.state with ⟨hs, herr⟩ | hs
  · obtain ⟨hstate, herr', hbuf⟩ := fsm_next_done (D := D) (i := i) hs
    obtain ⟨hstart, hstatus⟩ := regs_next_done (D := D) hw hs
    refine ⟨?_, hstart, by rw [hstatus], by rw [hstatus], ?_, by rw [hbuf]; exact hf.buf⟩
    · exact hstate.imp (fun h => ⟨h, by rw [herr']; exact herr⟩) id
    · rw [hstatus]
      exact herr
  · have hne : s.fsm.state ≠ .done := by simp [hs]
    have hn : Fsm.starts s.regs = false := by simp [Fsm.starts, hf.start, hf.busy]
    have hfsm : (s.next D i).fsm.state = .idle ∧ (s.next D i).fsm.dataBuf = s.fsm.dataBuf := by
      by_cases hfa : falls D s = true
      · rw [fsm_next_fall hfa, fall_idle hs hn]
        exact ⟨hs, rfl⟩
      · obtain ⟨a, b, hq⟩ := fsm_next_quiet (i := i) (by simpa using hfa)
          (by simp [hs, State.answering])
        rw [hq]
        exact ⟨hs, rfl⟩
    have hregs := regs_noWrite (D := D) hw hne
    exact ⟨.inr hfsm.1, by rw [hregs], by rw [hregs]; exact hf.busy, by rw [hregs]; exact hf.done,
      by rw [hregs]; exact hf.err, by rw [hfsm.2]; exact hf.buf⟩

/-! ### The time it takes -/

/-- A bound on the SD clock periods up to `S_DONE`. -/
def periods (f : Fsm) : Nat :=
  match f.state with
  | .idle => 135289
  | .cmdGap => f.bitCount + 135280
  | .cmdBits => f.bitCount + 135232
  | .respWait => 65536 - f.timeout + 69696
  | .respBits => f.bitCount + 69649
  | .dataWait => 65536 - f.timeout + 4113
  | .dataBits => 4096 - f.dataBitCount + 17
  | .dataCrc => f.bitCount + 1
  | .dataEnd => 1
  | _ => 0

/-- A bound on the cycles up to `S_DONE`. The host moves at the falling edges up to the end of the
frame and at the rising ones from there on. -/
def cyclesLeft (D : Dividers) (s : SdHost) : Nat :=
  periods s.fsm * (2 * (D.readDivMax.toNat + 1)) +
    (if s.fsm.state.answering == s.fsm.sdclkQ then D.readDivMax.toNat + 1 else 0) + toEdge D s

/-- The cycles of the read of a block, at most. -/
def readCycles (D : Dividers) : Nat := 135289 * (2 * (D.readDivMax.toNat + 1)) + 512

/-- A falling edge on the way to the end of the frame. -/
theorem Reads.periods_fall (hr : Reads c d e s.fsm h) (hidx : s.regs.cmdIdx = 17#6)
    (hstart : Fsm.starts s.regs = true) (hans : s.fsm.state.answering = false)
    (hne : s.fsm.state ≠ .done) : periods (s.fsm.fall s.regs) + 1 ≤ periods s.fsm := by
  cases hr with
  | pending state => simp [periods, Fsm.fall, state, hstart, hidx]
  | gap state count read ok =>
      by_cases h1 : s.fsm.bitCount = 1
      · simp [periods, Fsm.fall, state, h1]
      · simp [periods, Fsm.fall, state, h1, Fsm.bitDown]
        omega
  | frame state count read ok =>
      by_cases h1 : s.fsm.bitCount = 1
      · simp [periods, Fsm.fall, state, h1, hidx]
      · simp [periods, Fsm.fall, state, h1, Fsm.bitDown]
        omega
  | ended state buf err => exact absurd state hne
  | wait state edge le count oe read ok => simp [state, State.answering] at hans
  | resp state count edge read ok => simp [state, State.answering] at hans
  | dataWait state edge le ok => simp [state, State.answering] at hans
  | data k state lt edge count shift crc buf ok => simp [state, State.answering] at hans
  | crc k state lt edge count shift crc buf ok => simp [state, State.answering] at hans
  | last state edge shift crc buf ok => simp [state, State.answering] at hans

/-- A rising edge while the host waits for the card. -/
theorem Reads.periods_rise {b : Bool} (hr : Reads c d e s.fsm h) (ha : c.Answers d e)
    (hans : s.fsm.state.answering = true) (hb : s.fsm.state = .respWait → b = c.cmd h) :
    periods (s.fsm.rise s.regs b (c.dat h)) + 1 ≤ periods s.fsm := by
  cases hr with
  | pending state => simp [state, State.answering] at hans
  | gap state count read ok => simp [state, State.answering] at hans
  | frame state count read ok => simp [state, State.answering] at hans
  | ended state buf err => simp [state, State.answering] at hans
  | wait state edge le count oe read ok =>
      have hd := ha.respTime
      cases hc : c.cmd h with
      | false =>
          simp [periods, Fsm.rise, state, hb state, hc, count, Fsm.bitDown]
          omega
      | true =>
          have hlt : h < d := by
            by_contra hge
            have heq : h = d := by omega
            rw [heq, ha.respStart] at hc
            cases hc
          have htime : s.fsm.timeout ≠ 65535 := by omega
          simp [periods, Fsm.rise, state, hb state, hc, htime, Fsm.timeUp]
          omega
  | resp state count edge read ok =>
      by_cases h1 : s.fsm.bitCount = 1
      · simp [periods, Fsm.rise, state, h1, read]
      · simp [periods, Fsm.rise, state, h1, Fsm.bitDown]
        omega
  | dataWait state edge le ok =>
      have he := ha.datTime
      cases hc : c.dat h with
      | false =>
          simp [periods, Fsm.rise, state]
          omega
      | true =>
          have hlt : s.fsm.timeout < e := by
            by_contra hge
            have heq : h = d + 48 + e := by omega
            rw [heq, ha.datStart] at hc
            cases hc
          have htime : s.fsm.timeout ≠ 65535 := by omega
          simp [periods, Fsm.rise, state, htime, Fsm.timeUp]
          omega
  | data k state lt edge count shift crc buf ok =>
      by_cases hlast : k = 4095
      · simp [periods, Fsm.rise, state, count, hlast]
      · have hmod : (k + 1) % 4096 = k + 1 := Nat.mod_eq_of_lt (by omega)
        simp [periods, Fsm.rise, state, count, hlast, hmod]
        omega
  | crc k state lt edge count shift crc buf ok =>
      by_cases h1 : s.fsm.bitCount = 1
      · simp [periods, Fsm.rise, state, h1]
      · simp [periods, Fsm.rise, state, h1, Fsm.bitDown]
        omega
  | last state edge shift crc buf ok => simp [periods, Fsm.rise, state]

theorem toEdge_eq (h : s.regs.cmdIdx = 17#6) :
    toEdge D s = (D.readDivMax.toNat + 256 - s.fsm.sdclkDiv) % 256 := by
  rw [toEdge, Fsm.sdclkDivMax, if_pos h]

/-- The machine of a next state, without the divider. -/
theorem periods_clock (f : Fsm) (a : Nat) (b : Bool) :
    periods { f with sdclkDiv := a, sdclkQ := b } = periods f := rfl

/-- Every cycle brings `S_DONE` closer. -/
theorem Going.cycles_next (hg : Going c d e s h) (ha : c.Answers d e) (hl : Levels D c i s h)
    (hw : noWrite i.bus) (hne : s.fsm.state ≠ .done) :
    cyclesLeft D (s.next D i) < cyclesLeft D s := by
  have hq := D.readDivMax.isLt
  have hd := hg.div
  have hidx' : (s.next D i).regs.cmdIdx = 17#6 := by rw [regs_noWrite hw hne]; exact hg.cmd
  rw [cyclesLeft, cyclesLeft, toEdge_eq hidx', toEdge_eq hg.cmd]
  generalize hK : 2 * (D.readDivMax.toNat + 1) = K
  by_cases ht : s.fsm.ticks D s.regs = true
  · have hdiv : s.fsm.sdclkDiv = D.readDivMax.toNat := by
      simpa [Fsm.ticks, Fsm.sdclkDivMax, hg.cmd] using ht
    cases hQ : s.fsm.sdclkQ with
    | true =>
        have hfsm := fsm_next_fall (i := i) (s := s) (D := D) (by simp [falls, ht, hQ])
        cases hans : s.fsm.state.answering with
        | true =>
            have hstill : s.fsm.fall s.regs = s.fsm := by
              cases hst : s.fsm.state <;> simp [hst, State.answering] at hans <;>
                simp [Fsm.fall, hst]
            rw [hstill] at hfsm
            rw [hfsm, periods_clock]
            simp only [hans, beq_self_eq_true, if_true, Bool.true_beq, Bool.false_eq_true, if_false]
            omega
        | false =>
            have hless := hg.fsm.periods_fall hg.cmd (by simp [Fsm.starts, hg.busy, hg.done])
              hans hne
            have hmul := Nat.mul_le_mul_right K hless
            rw [Nat.succ_mul] at hmul
            rw [hfsm, periods_clock]
            simp only [Bool.false_beq, Bool.not_true, Bool.false_eq_true, if_false]
            split_ifs <;> omega
    | false =>
        have hr : rises D s = true := by simp [rises, ht, hQ]
        have hfsm := fsm_next_rise (i := i) (s := s) (D := D) hr
        cases hans : s.fsm.state.answering with
        | true =>
            obtain ⟨hcmd, hdat⟩ := hl hr hans
            rw [hdat] at hfsm
            have hless := hg.fsm.periods_rise (b := s.fsm.sdcmd i) ha hans fun hwait => by
              rw [Fsm.sdcmd, hg.fsm.released hwait, ← hcmd]
              rfl
            have hmul := Nat.mul_le_mul_right K hless
            rw [Nat.succ_mul] at hmul
            rw [hfsm, periods_clock]
            simp only [Bool.true_beq, Bool.false_eq_true, if_false]
            split_ifs <;> omega
        | false =>
            have hstill : s.fsm.rise s.regs (s.fsm.sdcmd i) (i.dat.getLsbD 0) = s.fsm := by
              cases hst : s.fsm.state <;> simp [hst, State.answering] at hans <;>
                simp [Fsm.rise, hst]
            rw [hstill] at hfsm
            rw [hfsm, periods_clock]
            simp only [hans, beq_self_eq_true, if_true, Bool.false_beq, Bool.not_true,
              Bool.false_eq_true, if_false]
            omega
  · rw [Bool.not_eq_true] at ht
    have hdiv : s.fsm.sdclkDiv ≠ D.readDivMax.toNat := by
      simpa [Fsm.ticks, Fsm.sdclkDivMax, hg.cmd] using ht
    rw [fsm_next_wait ht]
    have hsame : periods { s.fsm with sdclkDiv := (s.fsm.sdclkDiv + 1) % 256 } = periods s.fsm :=
      rfl
    rw [hsame]
    simp only
    omega

theorem cyclesLeft_le (hs : s.fsm.state = .idle) : cyclesLeft D s ≤ readCycles D := by
  have hto := toEdge_lt (D := D) s
  have hq := D.readDivMax.isLt
  have hper : periods s.fsm = 135289 := by rw [periods, hs]
  rw [cyclesLeft, readCycles, hper]
  split_ifs <;> omega

end Operation

end SdHost

end MelonSoc
