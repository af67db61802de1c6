import MelonSoc.Lib.Clocked
import MelonSoc.Rtl.Spi

set_option autoImplicit false

/-! # A byte over SPI

A transfer is sixteen half periods, each from a load of the divider count to the tick where it is
used up. During a half period nothing but the count moves, whatever is written to CTRL and DIV
meanwhile; the invariant `Phase` says what bit is on the wires and what has been sampled so far.
A rising edge takes it to the high half of the same bit, a falling edge to the low half of the
next one, and the falling edge of the last bit ends the transfer.
-/

namespace MelonSoc

namespace SpiMmio

/-- A write of TXRX. -/
def txWrite (b : WbReq) : Bool := written b && selTxrx b

/-- The bus without the bit that starts a transfer. -/
def In.withoutStart (i : In) : In :=
  { i with bus := { i.bus with datW := i.bus.datW &&& ~~~2#32 } }

section Run

variable (inp : Nat → In) (s : SpiMmio)

/-- SCK rises at the end of cycle `n`. -/
def SckRises (n : Nat) : Prop :=
  (Clocked.run next inp s n).spiSck = false ∧ (Clocked.run next inp s (n + 1)).spiSck = true

/-- SCK falls at the end of cycle `n`. -/
def SckFalls (n : Nat) : Prop :=
  (Clocked.run next inp s n).spiSck = true ∧ (Clocked.run next inp s (n + 1)).spiSck = false

/-- The transfer that starts in cycle 0 is still running in cycle `n`. -/
def Live (n : Nat) : Prop :=
  1 ≤ n ∧ ∀ m, 1 ≤ m → m ≤ n → (Clocked.run next inp s m).busy = true

/-- The falling edge before the rising edge `k`; for the first bit the cycle of the START. -/
def fallBefore (fall : Nat → Nat) : Nat → Nat
  | 0 => 0
  | k + 1 => fall k

/-- A transfer from cycle 0 on, with its rising and falling edges. -/
structure Exchanged (rise fall : Nat → Nat) : Prop where
  low : ∀ k, k < 8 → fallBefore fall k < rise k
  high : ∀ k, k < 8 → rise k < fall k
  rises : ∀ n, n ≤ fall 7 → (SckRises inp s n ↔ ∃ k, k < 8 ∧ n = rise k)
  falls : ∀ n, 1 ≤ n → n ≤ fall 7 → (SckFalls inp s n ↔ ∃ k, k < 8 ∧ n = fall k)
  mosi : ∀ k, k < 8 → ∀ n, fallBefore fall k < n → n ≤ fall k →
    (Clocked.run next inp s n).spiMosi = s.txReg.getLsbD (7 - k)
  running : ∀ n, 1 ≤ n → n ≤ fall 7 →
    (Clocked.run next inp s n).busy = true ∧ (Clocked.run next inp s n).done = false
  ignored : ∀ n, 1 ≤ n → n ≤ fall 7 → startWrite (inp n).bus = true →
    next (inp n) (Clocked.run next inp s n) =
      next (inp n).withoutStart (Clocked.run next inp s n)
  ended : (Clocked.run next inp s (fall 7 + 1)).done = true ∧
    (Clocked.run next inp s (fall 7 + 1)).busy = false ∧
    (Clocked.run next inp s (fall 7 + 1)).spiSck = false
  byte : ∀ k, k < 8 →
    (Clocked.run next inp s (fall 7 + 1)).rxReg.getLsbD (7 - k) = (inp (rise k)).spiMiso

end Run

/-- Half a period of bit `k` of `tx`, the most significant one being bit 0; `sh` has been
sampled. -/
structure Phase (tx sh : BitVec 8) (k : Nat) (high : Bool) (s : SpiMmio) : Prop where
  bit : k < 8
  busy : s.busy = true
  done : s.done = false
  held : s.txReg = tx
  idx : s.bitIdx.toNat = 7 - k
  sck : s.spiSck = high
  last : s.lastRise = (high && k == 7)
  mosi : s.spiMosi = tx.getLsbD (7 - k)
  sampled : s.shIn = sh

/-! ## One cycle -/

section Step

variable {i : In} {s : SpiMmio} {tx sh : BitVec 8} {k : Nat} {high : Bool}

theorem latch_txReg {b : WbReq} {t : SpiMmio} (h : txWrite b = false) :
    (latch b s t).txReg = s.txReg := by
  have hno : (written b && selTxrx b) = false := h
  rw [latch, hno]
  rfl

/-- Registers are written at the address of one of them. -/
theorem not_txWrite_of_start {b : WbReq} (h : startWrite b = true) : txWrite b = false := by
  simp only [startWrite, Bool.and_eq_true] at h
  have hadr : alignWord b.adr = ioSpiCtrlAddr := beq_iff_eq.mp h.1.2
  rw [txWrite, selTxrx, hadr, show (ioSpiCtrlAddr == ioSpiTxrxAddr) = false from rfl,
    Bool.and_false]

theorem engine_start (hb : s.busy = false) (h : startWrite i.bus = true) :
    engine i s =
      { s with
        busy := true, done := false, divCnt := s.divEff
        spiSck := false, spiMosi := s.txReg.getLsbD 7
        shIn := 0#8, bitIdx := 7#3, lastRise := false } := by
  simp [engine, hb, h]

theorem engine_wait (hb : s.busy = true) (hc : s.divCnt ≠ 0#16) :
    engine i s = { s with divCnt := s.divCnt - 1#16 } := by
  simp [engine, tick, hb, hc]

theorem engine_tick (hb : s.busy = true) (hc : s.divCnt = 0#16) :
    engine i s = edge i.spiMiso s s := by
  simp [engine, tick, hb, hc]

/-- **A START during a transfer has no effect.** -/
theorem start_ignored (hb : s.busy = true) (h : startWrite i.bus = true) :
    next i s = next i.withoutStart s := by
  have heng : engine i s = engine i.withoutStart s := by
    simp only [engine, hb, Bool.not_true, Bool.and_false, Bool.false_and]
    rfl
  have hwritten : written i.withoutStart.bus = written i.bus := rfl
  have hsel : selTxrx i.withoutStart.bus = selTxrx i.bus := rfl
  have hdiv : selDiv i.withoutStart.bus = selDiv i.bus := rfl
  have hctrl : selCtrl i.withoutStart.bus = selCtrl i.bus := rfl
  have htx : (written i.bus && selTxrx i.bus) = false := not_txWrite_of_start h
  have hnodiv : (written i.bus && selDiv i.bus) = false := by
    simp only [startWrite, Bool.and_eq_true] at h
    have hadr : alignWord i.bus.adr = ioSpiCtrlAddr := beq_iff_eq.mp h.1.2
    rw [selDiv, hadr, show (ioSpiCtrlAddr == ioSpiDivAddr) = false from rfl, Bool.and_false]
  have hcs : i.withoutStart.bus.datW.getLsbD 0 = i.bus.datW.getLsbD 0 := by
    show (i.bus.datW &&& ~~~2#32).getLsbD 0 = i.bus.datW.getLsbD 0
    rw [BitVec.getLsbD_and]
    simp
  rw [next, next, heng, latch, latch, hwritten, hsel, hdiv, hctrl, htx, hnodiv, hcs]
  rfl

theorem phase_start (hb : s.busy = false) (h : startWrite i.bus = true) :
    Phase s.txReg 0#8 0 false (next i s) := by
  have htx := latch_txReg (s := s) (t := engine i s) (not_txWrite_of_start h)
  rw [engine_start hb h] at htx
  rw [next, engine_start hb h]
  exact ⟨by decide, rfl, rfl, htx, rfl, rfl, rfl, rfl, rfl⟩

/-- A cycle inside a half period. -/
theorem Phase.wait (h : Phase tx sh k high s) (hc : s.divCnt ≠ 0#16)
    (hno : txWrite i.bus = false) :
    Phase tx sh k high (next i s) ∧ (next i s).divCnt = s.divCnt - 1#16 := by
  have htx := latch_txReg (s := s) (t := engine i s) hno
  rw [engine_wait h.busy hc] at htx
  rw [next, engine_wait h.busy hc]
  exact ⟨⟨h.bit, h.busy, h.done, htx.trans h.held, h.idx, h.sck, h.last, h.mosi, h.sampled⟩, rfl⟩

theorem idx_eq_zero (h : Phase tx sh k high s) : s.bitIdx = 0#3 ↔ k = 7 := by
  have hbit := h.bit
  have hidx := h.idx
  constructor
  · intro hz
    rw [hz, show (0#3).toNat = 0 from rfl] at hidx
    omega
  · rintro rfl
    exact BitVec.eq_of_toNat_eq hidx

/-- A rising edge samples MISO. -/
theorem Phase.rise (h : Phase tx sh k false s) (hc : s.divCnt = 0#16)
    (hno : txWrite i.bus = false) :
    Phase tx (BitFields.put sh (7 - k) (BitVec.ofBool i.spiMiso)) k true (next i s) := by
  have htx := latch_txReg (s := s) (t := engine i s) hno
  have hedge : edge i.spiMiso s s =
      { s with
        divCnt := s.divEff
        spiSck := true
        shIn := BitFields.put s.shIn s.bitIdx.toNat (BitVec.ofBool i.spiMiso)
        lastRise := if s.bitIdx = 0#3 then true else s.lastRise } := by
    simp [edge, h.sck]
  have hlast : (if s.bitIdx = 0#3 then true else s.lastRise) = (true && k == 7) := by
    by_cases hk : k = 7
    · rw [if_pos ((idx_eq_zero h).mpr hk), hk]
      rfl
    · have hne : (k == 7) = false := beq_eq_false_iff_ne.mpr hk
      rw [if_neg (fun hz => hk ((idx_eq_zero h).mp hz)), h.last, hne]
      rfl
  have hsample : BitFields.put s.shIn s.bitIdx.toNat (BitVec.ofBool i.spiMiso) =
      BitFields.put sh (7 - k) (BitVec.ofBool i.spiMiso) := by
    rw [h.sampled, h.idx]
  rw [engine_tick h.busy hc, hedge] at htx
  rw [next, engine_tick h.busy hc, hedge]
  exact ⟨h.bit, h.busy, h.done, htx.trans h.held, h.idx, rfl, hlast, h.mosi, hsample⟩

/-- A falling edge puts the next bit on MOSI. -/
theorem Phase.fall (h : Phase tx sh k true s) (hk : k < 7) (hc : s.divCnt = 0#16)
    (hno : txWrite i.bus = false) : Phase tx sh (k + 1) false (next i s) := by
  have htx := latch_txReg (s := s) (t := engine i s) hno
  have hlast : s.lastRise = false := by
    have hne : (k == 7) = false := beq_eq_false_iff_ne.mpr (by omega)
    rw [h.last, hne]
    rfl
  have hedge : edge i.spiMiso s s =
      { s with
        divCnt := s.divEff
        spiSck := false
        bitIdx := s.bitIdx - 1#3
        spiMosi := s.txReg.getLsbD (s.bitIdx - 1#3).toNat } := by
    simp [edge, h.sck, hlast]
  have hidx : (s.bitIdx - 1#3).toNat = 7 - (k + 1) := by
    have hold := h.idx
    rw [BitVec.toNat_sub, show (1#3).toNat = 1 from rfl]
    omega
  have hmosi : s.txReg.getLsbD (s.bitIdx - 1#3).toNat = tx.getLsbD (7 - (k + 1)) := by
    rw [hidx, h.held]
  rw [engine_tick h.busy hc, hedge] at htx
  rw [next, engine_tick h.busy hc, hedge]
  exact ⟨by omega, h.busy, h.done, htx.trans h.held, hidx, rfl, hlast, hmosi, h.sampled⟩

/-- The falling edge of the last bit. -/
theorem Phase.finish (h : Phase tx sh 7 true s) (hc : s.divCnt = 0#16) :
    (next i s).done = true ∧ (next i s).busy = false ∧ (next i s).spiSck = false ∧
      (next i s).rxReg = sh := by
  have hlast : s.lastRise = true := h.last
  have hedge : edge i.spiMiso s s =
      { s with
        divCnt := s.divEff, spiSck := false, busy := false, done := true, rxReg := s.shIn } := by
    simp [edge, h.sck, hlast]
  rw [next, engine_tick h.busy hc, hedge]
  exact ⟨rfl, rfl, rfl, h.sampled⟩

end Step

/-! ## Half periods -/

section Halves

variable {inp : Nat → In} {s : SpiMmio} {tx sh : BitVec 8} {k n : Nat} {high : Bool}

theorem Live.next (h : Live inp s n) (hb : (Clocked.run next inp s (n + 1)).busy = true) :
    Live inp s (n + 1) := by
  refine ⟨Nat.le_succ_of_le h.1, fun m h1 h2 => ?_⟩
  rcases Nat.lt_or_eq_of_le h2 with hlt | rfl
  · exact h.2 m h1 (Nat.le_of_lt_succ hlt)
  · exact hb

/-- The tick after cycle `n`. -/
def tickFrom (inp : Nat → In) (s : SpiMmio) (n : Nat) : Nat :=
  n + (Clocked.run SpiMmio.next inp s n).divCnt.toNat

theorem le_tickFrom : n ≤ tickFrom inp s n := Nat.le_add_right _ _

/-- Nothing but the count moves up to the next tick. The induction is on the cycles since the
count was loaded. -/
theorem Phase.holds (hquiet : ∀ m, Live inp s m → txWrite (inp m).bus = false)
    (hl : Live inp s n) (h : Phase tx sh k high (Clocked.run next inp s n)) (j : Nat)
    (hj : j ≤ (Clocked.run next inp s n).divCnt.toNat) :
    Live inp s (n + j) ∧ Phase tx sh k high (Clocked.run next inp s (n + j)) ∧
      (Clocked.run next inp s (n + j)).divCnt.toNat =
        (Clocked.run next inp s n).divCnt.toNat - j := by
  induction j with
  | zero => exact ⟨hl, h, rfl⟩
  | succ j ih =>
      have ⟨hlive, hphase, hcnt⟩ := ih (by omega)
      have hne : (Clocked.run next inp s (n + j)).divCnt ≠ 0#16 := by
        intro hz
        rw [hz, show (0#16).toNat = 0 from rfl] at hcnt
        omega
      have ⟨hnext, hdec⟩ := hphase.wait hne (hquiet _ hlive)
      refine ⟨hlive.next hnext.busy, hnext, ?_⟩
      rw [← Nat.add_assoc, Clocked.run_succ, hdec, BitVec.toNat_sub,
        show (1#16).toNat = 1 from rfl]
      omega

/-- A half period up to its tick. -/
theorem Phase.half (hquiet : ∀ m, Live inp s m → txWrite (inp m).bus = false)
    (hl : Live inp s n) (h : Phase tx sh k high (Clocked.run next inp s n)) :
    Live inp s (tickFrom inp s n) ∧
      (∀ m, n ≤ m → m ≤ tickFrom inp s n → Phase tx sh k high (Clocked.run next inp s m)) ∧
      (Clocked.run next inp s (tickFrom inp s n)).divCnt = 0#16 := by
  have ⟨hlive, _, hcnt⟩ := h.holds hquiet hl _ (Nat.le_refl _)
  rw [Nat.sub_self] at hcnt
  refine ⟨hlive, fun m h1 h2 => ?_, BitVec.eq_of_toNat_eq hcnt⟩
  have ⟨j, hj⟩ := Nat.exists_eq_add_of_le h1
  subst hj
  exact (h.holds hquiet hl j (Nat.le_of_add_le_add_left h2)).2.1

/-! ## The edges of a transfer -/

/-- The first cycle of bit `k`. -/
def bitStart (inp : Nat → In) (s : SpiMmio) : Nat → Nat
  | 0 => 1
  | k + 1 => tickFrom inp s (tickFrom inp s (bitStart inp s k) + 1) + 1

/-- The rising edge of bit `k`. -/
def riseOf (inp : Nat → In) (s : SpiMmio) (k : Nat) : Nat := tickFrom inp s (bitStart inp s k)

/-- The falling edge of bit `k`. -/
def fallOf (inp : Nat → In) (s : SpiMmio) (k : Nat) : Nat := tickFrom inp s (riseOf inp s k + 1)

theorem bitStart_eq (k : Nat) : bitStart inp s k = fallBefore (fallOf inp s) k + 1 := by
  cases k with
  | zero => rfl
  | succ k => rfl

/-- What the first `k` rising edges have sampled. -/
def sampledBy (inp : Nat → In) (s : SpiMmio) : Nat → BitVec 8
  | 0 => 0#8
  | k + 1 =>
      BitFields.put (sampledBy inp s k) (7 - k)
        (BitVec.ofBool (inp (riseOf inp s k)).spiMiso)

theorem sampledBy_bit {m : Nat} (hm : m ≤ 8) (hk : k < m) :
    (sampledBy inp s m).getLsbD (7 - k) = (inp (riseOf inp s k)).spiMiso := by
  induction m with
  | zero => exact absurd hk (Nat.not_lt_zero k)
  | succ m ih =>
      rw [sampledBy, BitFields.put_bit _ _ _ _ (by omega)]
      rcases Nat.lt_or_eq_of_le (Nat.le_of_lt_succ hk) with hlt | rfl
      · rw [if_neg (by omega)]
        exact ih (by omega) hlt
      · rw [if_pos (by omega), Nat.sub_self, BitVec.getLsbD_ofBool]
        exact Bool.true_and _

/-- One bit: a low half up to the rising edge and a high half up to the falling one. -/
structure Bit (inp : Nat → In) (s : SpiMmio) (k : Nat) : Prop where
  low : ∀ n, bitStart inp s k ≤ n → n ≤ riseOf inp s k →
    Phase s.txReg (sampledBy inp s k) k false (Clocked.run next inp s n)
  high : ∀ n, riseOf inp s k < n → n ≤ fallOf inp s k →
    Phase s.txReg (sampledBy inp s (k + 1)) k true (Clocked.run next inp s n)
  live : Live inp s (fallOf inp s k)
  tick : (Clocked.run next inp s (fallOf inp s k)).divCnt = 0#16

theorem Phase.whole (hquiet : ∀ m, Live inp s m → txWrite (inp m).bus = false)
    (hl : Live inp s (bitStart inp s k))
    (h : Phase s.txReg (sampledBy inp s k) k false (Clocked.run next inp s (bitStart inp s k))) :
    Bit inp s k := by
  have ⟨hlive, hlow, htick⟩ := h.half hquiet hl
  have hrise := (hlow _ le_tickFrom (Nat.le_refl _)).rise htick (hquiet _ hlive)
  have ⟨hlive', hhigh, htick'⟩ := hrise.half (n := tickFrom inp s (bitStart inp s k) + 1)
    hquiet (hlive.next hrise.busy)
  exact ⟨hlow, hhigh, hlive', htick'⟩

/-- **The bits of a transfer**, by induction: the falling edge of one is the start of the
next. -/
theorem bit_exchanged (hquiet : ∀ m, Live inp s m → txWrite (inp m).bus = false)
    (hb : s.busy = false) (hstart : startWrite (inp 0).bus = true) (hk : k < 8) :
    Bit inp s k := by
  induction k with
  | zero =>
      have hphase : Phase s.txReg 0#8 0 false (Clocked.run next inp s 1) := phase_start hb hstart
      refine Phase.whole hquiet ⟨Nat.le_refl 1, fun m h1 h2 => ?_⟩ hphase
      rw [Nat.le_antisymm h2 h1]
      exact hphase.busy
  | succ k ih =>
      have hbit := ih (by omega)
      have hlast := hbit.high _ (Nat.lt_of_lt_of_le (Nat.lt_succ_self _) le_tickFrom)
        (Nat.le_refl _)
      have hfall := hlast.fall (by omega) hbit.tick (hquiet _ hbit.live)
      exact Phase.whole hquiet (hbit.live.next hfall.busy) hfall

theorem riseOf_lt (k : Nat) : riseOf inp s k < fallOf inp s k :=
  Nat.lt_of_lt_of_le (Nat.lt_succ_self _) le_tickFrom

theorem bitStart_le (k : Nat) : bitStart inp s k ≤ riseOf inp s k := le_tickFrom

/-- Every cycle of the transfer belongs to a bit. -/
theorem bit_of_cycle (k : Nat) (h1 : 1 ≤ n) (hn : n ≤ fallOf inp s k) :
    ∃ m, m ≤ k ∧ bitStart inp s m ≤ n ∧ n ≤ fallOf inp s m := by
  induction k with
  | zero => exact ⟨0, Nat.le_refl 0, h1, hn⟩
  | succ k ih =>
      by_cases hk : n ≤ fallOf inp s k
      · have ⟨m, hm, hin⟩ := ih hk
        exact ⟨m, Nat.le_succ_of_le hm, hin⟩
      · exact ⟨k + 1, Nat.le_refl _, Nat.lt_of_not_le hk, hn⟩

end Halves

/-! ## The transfer -/

section Transfer

variable {inp : Nat → In} {s : SpiMmio}

/-- SCK rises where the low half of a bit ends. -/
theorem rises_iff (hbits : ∀ k, k < 8 → Bit inp s k) (n : Nat) (hn : n ≤ fallOf inp s 7) :
    SckRises inp s n ↔ ∃ k, k < 8 ∧ n = riseOf inp s k := by
  constructor
  · rintro ⟨hlow, hhigh⟩
    rcases Nat.eq_zero_or_pos n with rfl | hpos
    · have hfirst := ((hbits 0 (by decide)).low 1 (Nat.le_refl 1) (bitStart_le 0)).sck
      rw [Nat.zero_add, hfirst] at hhigh
      cases hhigh
    · have ⟨k, hk, hfrom, hto⟩ := bit_of_cycle 7 hpos hn
      have hbit := hbits k (by omega)
      refine ⟨k, by omega, ?_⟩
      rcases Nat.lt_trichotomy n (riseOf inp s k) with hlt | heq | hgt
      · rw [(hbit.low (n + 1) (by omega) hlt).sck] at hhigh
        cases hhigh
      · exact heq
      · rw [(hbit.high n hgt hto).sck] at hlow
        cases hlow
  · rintro ⟨k, hk, rfl⟩
    have hbit := hbits k hk
    exact ⟨(hbit.low _ (bitStart_le k) (Nat.le_refl _)).sck,
      (hbit.high _ (Nat.lt_succ_self _) (riseOf_lt k)).sck⟩

/-- What comes after the falling edge of bit `k` has SCK low. -/
theorem low_after (hbits : ∀ k, k < 8 → Bit inp s k)
    (hover : (Clocked.run next inp s (fallOf inp s 7 + 1)).spiSck = false) (k : Nat)
    (hk : k < 8) : (Clocked.run next inp s (fallOf inp s k + 1)).spiSck = false := by
  rcases Nat.lt_or_eq_of_le (Nat.le_of_lt_succ hk) with hlt | rfl
  · exact ((hbits (k + 1) (by omega)).low _ (Nat.le_refl _) (bitStart_le (k + 1))).sck
  · exact hover

/-- SCK falls where the high half of a bit ends. -/
theorem falls_iff (hbits : ∀ k, k < 8 → Bit inp s k)
    (hover : (Clocked.run next inp s (fallOf inp s 7 + 1)).spiSck = false) (n : Nat)
    (hpos : 1 ≤ n) (hn : n ≤ fallOf inp s 7) :
    SckFalls inp s n ↔ ∃ k, k < 8 ∧ n = fallOf inp s k := by
  constructor
  · rintro ⟨hhigh, hlow⟩
    have ⟨k, hk, hfrom, hto⟩ := bit_of_cycle 7 hpos hn
    have hbit := hbits k (by omega)
    refine ⟨k, by omega, ?_⟩
    by_cases hrise : n ≤ riseOf inp s k
    · rw [(hbit.low n hfrom hrise).sck] at hhigh
      cases hhigh
    · rcases Nat.lt_or_eq_of_le hto with hlt | heq
      · rw [(hbit.high (n + 1) (by omega) hlt).sck] at hlow
        cases hlow
      · exact heq
  · rintro ⟨k, hk, rfl⟩
    exact ⟨((hbits k hk).high _ (riseOf_lt k) (Nat.le_refl _)).sck, low_after hbits hover k hk⟩

/-- MOSI and the flags in the cycles of a bit. -/
theorem Bit.cycle {k n : Nat} (h : Bit inp s k) (hfrom : bitStart inp s k ≤ n)
    (hto : n ≤ fallOf inp s k) :
    (Clocked.run next inp s n).spiMosi = s.txReg.getLsbD (7 - k) ∧
      (Clocked.run next inp s n).busy = true ∧ (Clocked.run next inp s n).done = false := by
  by_cases hrise : n ≤ riseOf inp s k
  · have hphase := h.low n hfrom hrise
    exact ⟨hphase.mosi, hphase.busy, hphase.done⟩
  · have hphase := h.high n (by omega) hto
    exact ⟨hphase.mosi, hphase.busy, hphase.done⟩

/-- **A byte is exchanged.** A START that is accepted makes eight clock periods, whatever DIV is
and becomes, whatever MISO does and whatever else is written, TXRX apart: the byte of TXRX is on
MOSI from the most significant bit on, and the bits of MISO at the rising edges are the received
byte when DONE is set. -/
theorem byte_exchange (hb : s.busy = false) (hstart : startWrite (inp 0).bus = true)
    (hquiet : ∀ n, Live inp s n → txWrite (inp n).bus = false) :
    ∃ rise fall : Nat → Nat, Exchanged inp s rise fall := by
  have hbits : ∀ k, k < 8 → Bit inp s k := fun k hk => bit_exchanged hquiet hb hstart hk
  have hlast := hbits 7 (by decide)
  have hfinish := (hlast.high _ (riseOf_lt 7) (Nat.le_refl _)).finish
    (i := inp (fallOf inp s 7)) hlast.tick
  have ⟨hdone, hidle, hsck, hrx⟩ := hfinish
  have hcycle : ∀ n, 1 ≤ n → n ≤ fallOf inp s 7 →
      (Clocked.run next inp s n).busy = true ∧ (Clocked.run next inp s n).done = false := by
    intro n h1 hn
    have ⟨k, hk, hfrom, hto⟩ := bit_of_cycle 7 h1 hn
    exact ((hbits k (by omega)).cycle hfrom hto).2
  refine ⟨riseOf inp s, fallOf inp s, ?_⟩
  constructor
  case low =>
    intro k _
    have hfrom : bitStart inp s k ≤ riseOf inp s k := bitStart_le k
    rw [bitStart_eq] at hfrom
    exact hfrom
  case high => exact fun k _ => riseOf_lt k
  case rises => exact rises_iff hbits
  case falls => exact falls_iff hbits hsck
  case mosi =>
    intro k hk n hfrom hto
    refine ((hbits k hk).cycle ?_ hto).1
    rw [bitStart_eq]
    exact hfrom
  case running => exact hcycle
  case ignored => exact fun n h1 hn hs => start_ignored (hcycle n h1 hn).1 hs
  case ended => exact ⟨hdone, hidle, hsck⟩
  case byte =>
    intro k hk
    rw [Clocked.run_succ, hrx]
    exact sampledBy_bit (Nat.le_refl 8) hk

/-- A START in the first cycle and nothing after it, with MISO high. -/
def startOnce : Nat → In := fun n =>
  { bus :=
      { adr := ioSpiCtrlAddr, datW := 2#32, sel := 15#4, we := n == 0, cyc := n == 0
        stb := n == 0, lock := false }
    spiMiso := true }

theorem byte_exchange_reset :
    ∃ rise fall : Nat → Nat, Exchanged startOnce (reset 27000000 200000) rise fall := by
  refine byte_exchange rfl rfl fun n hl => ?_
  have hne : (n == 0) = false := beq_eq_false_iff_ne.mpr (Nat.ne_of_gt hl.1)
  rw [txWrite, written]
  simp [startOnce, hne]

end Transfer

end SpiMmio

end MelonSoc
