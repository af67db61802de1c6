import Mathlib.Data.BitVec
import MelonSoc.Lib.Accesses
import MelonSoc.Rtl.SocPkg

set_option autoImplicit false

/-! # The delays of the timer driver

`timer.c`: the timer is set up to about 1 MHz, and a delay becomes a number of ticks. What a delay
comes to is the list of the numbers it passes to `timer_delay_ticks`. A loop has fuel and gives
nothing when it runs out.
-/

namespace MelonSoc

namespace Delay

def timerCtrlEn : Word := 0x1#32
def timerCtrlPrescEn : Word := 0x8#32
def timerCtrlSoftReset : Word := 0x80000000#32

/-! ## The driver -/

/-- `divider` of `timer_init_1mhz`. -/
def divider (clkHz : Word) : Word := if clkHz / 1000000#32 = 0#32 then 1#32 else clkHz / 1000000#32

/-- `g_timer_ticks_per_sec` after `timer_init_1mhz`. -/
def ticksPerSec (clkHz : Word) : Word := clkHz / divider clkHz

/-- `timer_init_1mhz`; it returns what it stores to `g_timer_ticks_per_sec`. -/
def timerInit1mhz (clkHz : Word) : Access Word Word Word := do
  Access.put ioTimerCtrlAddr timerCtrlSoftReset
  Access.put ioTimerPrescAddr (divider clkHz - 1#32)
  Access.put ioTimerCountAddr 0#32
  Access.put ioTimerCtrlAddr (timerCtrlEn ||| timerCtrlPrescEn)
  pure (ticksPerSec clkHz)

/-- `mul_div_u32`. -/
def mulDivU32 (a b div : Word) : Word :=
  if div = 0#32 then 0#32
  else (a.setWidth 64 * b.setWidth 64 / div.setWidth 64).setWidth 32

def timerDelayUs (tps us : Word) : List Word :=
  if tps = 0#32 then [us] else [mulDivU32 us tps 1000000#32]

def timerDelayMs (tps ms : Word) : List Word :=
  if tps = 0#32 then [ms * 1000#32] else [mulDivU32 ms tps 1000#32]

/-- The loop `while (s--)`. -/
def secondLoop : Nat → Word → Option (List Word)
  | 0, _ => none
  | fuel + 1, s =>
      if s = 0#32 then some [] else (secondLoop fuel (s - 1#32)).map (1000000#32 :: ·)

/-- `chunk` in a round of the loop of `timer_delay_s`. -/
def chunkOf (tps s : Word) : Word :=
  if tps ≠ 0#32 ∧ 0xFFFFFFFF#32 / tps < s then 0xFFFFFFFF#32 / tps else s

/-- The loop `while (s)`. -/
def chunkLoop (tps : Word) : Nat → Word → Option (List Word)
  | 0, _ => none
  | fuel + 1, s =>
      if s = 0#32 then some []
      else (chunkLoop tps fuel (s - chunkOf tps s)).map (chunkOf tps s * tps :: ·)

def timerDelayS (tps : Word) (fuel : Nat) (s : Word) : Option (List Word) :=
  if tps = 0#32 then secondLoop fuel s else chunkLoop tps fuel s

/-! ## What the delays come to -/

/-- The ticks of all calls of `timer_delay_ticks`. -/
def total (calls : List Word) : Nat := (calls.map BitVec.toNat).sum

/-- Every delay comes to the ticks that it asks for, rounded down, and the seconds to an end; no
call of the loop has wrapped. -/
structure Exact (clkHz us ms s : Word) : Prop where
  us : total (timerDelayUs (ticksPerSec clkHz) us) =
    us.toNat * (ticksPerSec clkHz).toNat / 1000000
  ms : total (timerDelayMs (ticksPerSec clkHz) ms) = ms.toNat * (ticksPerSec clkHz).toNat / 1000
  s : ∃ fuel calls, timerDelayS (ticksPerSec clkHz) fuel s = some calls ∧
    total calls = s.toNat * (ticksPerSec clkHz).toNat ∧
    ∀ t ∈ calls, ∃ chunk : Word, t.toNat = chunk.toNat * (ticksPerSec clkHz).toNat

theorem timerInit1mhz_ticks {issued : Nat → Option (Issued Word Word)} {value : Nat → Word → Word}
    {clkHz tps : Word} {n m : Nat} (h : Access.Exec issued value n (timerInit1mhz clkHz) tps m) :
    tps = ticksPerSec clkHz := by
  cases h with
  | write _ _ _ h =>
    cases h with
    | write _ _ _ h =>
      cases h with
      | write _ _ _ h =>
        cases h with
        | write _ _ _ h =>
          cases h with
          | ret => rfl

section Ticks

variable {clkHz tps s a b div : Word}

/-- From 1 MHz on there is a tick. -/
theorem ticksPerSec_pos (h : 1000000#32 ≤ clkHz) : 0 < (ticksPerSec clkHz).toNat := by
  have hclk : 1000000 ≤ clkHz.toNat := h
  have hdiv : (clkHz / 1000000#32).toNat = clkHz.toNat / 1000000 := BitVec.toNat_udiv
  have hne : clkHz / 1000000#32 ≠ 0#32 := by
    intro h0
    rw [h0] at hdiv
    have hzero : (0#32).toNat = 0 := rfl
    omega
  rw [ticksPerSec, divider, if_neg hne, BitVec.toNat_udiv, hdiv]
  exact Nat.div_pos (Nat.div_le_self _ _) (by omega)

/-- The quotient, cut to 32 bits. -/
theorem mulDivU32_toNat (h : div ≠ 0#32) :
    (mulDivU32 a b div).toNat = a.toNat * b.toNat / div.toNat % 2 ^ 32 := by
  have ha : a.toNat < 2 ^ 32 := a.isLt
  have hb : b.toNat < 2 ^ 32 := b.isLt
  have hd : div.toNat < 2 ^ 32 := div.isLt
  have hmul : a.toNat * b.toNat < 2 ^ 32 * 2 ^ 32 := Nat.mul_lt_mul'' ha hb
  rw [← Nat.pow_add] at hmul
  rw [mulDivU32, if_neg h, BitVec.toNat_setWidth, BitVec.toNat_udiv, BitVec.toNat_mul,
    BitVec.toNat_setWidth, BitVec.toNat_setWidth, BitVec.toNat_setWidth,
    Nat.mod_eq_of_lt (Nat.lt_trans ha (by decide)), Nat.mod_eq_of_lt (Nat.lt_trans hb (by decide)),
    Nat.mod_eq_of_lt (Nat.lt_trans hd (by decide)), Nat.mod_eq_of_lt hmul]

/-- The quotient is exact if and only if it fits. -/
theorem mulDivU32_exact {d : Nat} (h : div.toNat = d) (hd : 0 < d) :
    (mulDivU32 a b div).toNat = a.toNat * b.toNat / d ↔ a.toNat * b.toNat < d * 2 ^ 32 := by
  have hne : div ≠ 0#32 := by
    intro h0
    rw [h0] at h
    have hzero : (0#32).toNat = 0 := rfl
    omega
  rw [mulDivU32_toNat hne, h, Nat.mul_comm d, ← Nat.div_lt_iff_lt_mul hd]
  constructor
  · intro heq
    rw [← heq]
    exact Nat.mod_lt _ (by decide)
  · exact Nat.mod_eq_of_lt

/-! ### The loop of the seconds -/

theorem chunkOf_le : (chunkOf tps s).toNat ≤ s.toNat := by
  unfold chunkOf
  split
  · rename_i h
    exact Nat.le_of_lt h.2
  · exact Nat.le_refl _

/-- A chunk is not empty, and its ticks fit. -/
theorem chunkOf_spec (ht : 0 < tps.toNat) (hs : s ≠ 0#32) :
    0 < (chunkOf tps s).toNat ∧ (chunkOf tps s).toNat * tps.toNat < 2 ^ 32 := by
  have hlt : tps.toNat < 2 ^ 32 := tps.isLt
  have hone : 0 < s.toNat := by
    rw [Nat.pos_iff_ne_zero]
    intro h0
    exact hs (BitVec.eq_of_toNat_eq h0)
  have hdiv : (0xFFFFFFFF#32 / tps).toNat = 0xFFFFFFFF / tps.toNat := BitVec.toNat_udiv
  have hmax : 0xFFFFFFFF / tps.toNat * tps.toNat ≤ 0xFFFFFFFF := Nat.div_mul_le_self _ _
  unfold chunkOf
  split
  · rw [hdiv]
    exact ⟨Nat.div_pos (by omega) ht, by omega⟩
  · rename_i h
    have hne : tps ≠ 0#32 := by
      intro h0
      rw [h0] at ht
      exact Nat.lt_irrefl 0 ht
    have hle : s.toNat ≤ 0xFFFFFFFF / tps.toNat := by
      rw [← hdiv]
      exact Nat.le_of_not_lt fun hgt => h ⟨hne, hgt⟩
    have hmul := Nat.mul_le_mul_right tps.toNat hle
    exact ⟨hone, by omega⟩

/-- The loop ends after at most as many rounds as there are seconds, with all the ticks. -/
theorem chunkLoop_exact (ht : 0 < tps.toNat) {n : Nat} (hn : s.toNat = n) :
    ∃ fuel calls, chunkLoop tps fuel s = some calls ∧ total calls = s.toNat * tps.toNat ∧
      ∀ t ∈ calls, ∃ chunk : Word, t.toNat = chunk.toNat * tps.toNat := by
  induction n using Nat.strongRecOn generalizing s with
  | ind n ih =>
      by_cases hs : s = 0#32
      · refine ⟨1, [], by rw [chunkLoop, if_pos hs], ?_, fun t ht' => ?_⟩
        · rw [hs]
          simp [total]
        · cases ht'
      · obtain ⟨hpos, hfit⟩ := chunkOf_spec ht hs
        have hle : (chunkOf tps s).toNat ≤ s.toNat := chunkOf_le
        have hsub : (s - chunkOf tps s).toNat = s.toNat - (chunkOf tps s).toNat :=
          BitVec.toNat_sub_of_le hle
        have hmul : (chunkOf tps s * tps).toNat = (chunkOf tps s).toNat * tps.toNat := by
          rw [BitVec.toNat_mul, Nat.mod_eq_of_lt hfit]
        obtain ⟨fuel, calls, hloop, htotal, hcalls⟩ := ih (s.toNat - (chunkOf tps s).toNat)
          (by omega) hsub
        refine ⟨fuel + 1, chunkOf tps s * tps :: calls, ?_, ?_, ?_⟩
        · rw [chunkLoop, if_neg hs, hloop]
          rfl
        · calc total (chunkOf tps s * tps :: calls)
              = (chunkOf tps s * tps).toNat + total calls := by
                rw [total, total, List.map_cons, List.sum_cons]
            _ = (chunkOf tps s).toNat * tps.toNat +
                  (s.toNat - (chunkOf tps s).toNat) * tps.toNat := by rw [hmul, htotal, hsub]
            _ = s.toNat * tps.toNat := by rw [← Nat.add_mul, Nat.add_sub_cancel' hle]
        · intro t htm
          rcases List.mem_cons.mp htm with rfl | hmem
          · exact ⟨chunkOf tps s, hmul⟩
          · exact hcalls t hmem

end Ticks

/-- The delays are exact if and only if the ticks of the microseconds and of the milliseconds fit in
32 bits; the seconds always are. -/
theorem delays_exact_iff (clkHz us ms s : Word) (h : 1000000#32 ≤ clkHz) :
    Exact clkHz us ms s ↔
      us.toNat * (ticksPerSec clkHz).toNat < 1000000 * 2 ^ 32 ∧
        ms.toNat * (ticksPerSec clkHz).toNat < 1000 * 2 ^ 32 := by
  have hpos := ticksPerSec_pos h
  have hne : ticksPerSec clkHz ≠ 0#32 := by
    intro h0
    rw [h0] at hpos
    exact Nat.lt_irrefl 0 hpos
  have hus : total (timerDelayUs (ticksPerSec clkHz) us) =
      (mulDivU32 us (ticksPerSec clkHz) 1000000#32).toNat := by
    rw [timerDelayUs, if_neg hne, total, List.map_singleton, List.sum_singleton]
  have hms : total (timerDelayMs (ticksPerSec clkHz) ms) =
      (mulDivU32 ms (ticksPerSec clkHz) 1000#32).toNat := by
    rw [timerDelayMs, if_neg hne, total, List.map_singleton, List.sum_singleton]
  have husIff := mulDivU32_exact (a := us) (b := ticksPerSec clkHz)
    (show (1000000#32).toNat = 1000000 from rfl) (by decide)
  have hmsIff := mulDivU32_exact (a := ms) (b := ticksPerSec clkHz)
    (show (1000#32).toNat = 1000 from rfl) (by decide)
  rw [← husIff, ← hus, ← hmsIff, ← hms]
  constructor
  · intro he
    exact ⟨he.us, he.ms⟩
  · rintro ⟨h1, h2⟩
    refine ⟨h1, h2, ?_⟩
    obtain ⟨fuel, calls, hloop, hrest⟩ := chunkLoop_exact (s := s) hpos rfl
    exact ⟨fuel, calls, by rw [timerDelayS, if_neg hne]; exact hloop, hrest⟩

/-- At 27 MHz half a millisecond, 10 ms and two hours are exact. -/
theorem delays_exact_board : Exact 27000000#32 500#32 10#32 7200#32 :=
  (delays_exact_iff 27000000#32 500#32 10#32 7200#32 (by decide)).mpr (by decide)

/-- At 27 MHz 4294968 ms, more than an hour, come to 704 ticks. -/
theorem delay_ms_wraps : ¬Exact 27000000#32 0#32 4294968#32 0#32 := by
  intro h
  have hms := h.ms
  revert hms
  decide

end Delay

end MelonSoc
