import MelonSoc.Lib.Accesses
import MelonSoc.Lib.Clocked
import MelonSoc.Rtl.Clint

set_option autoImplicit false

/-! # The compare value of the CLINT

The driver writes the compare value word by word, the low word first. Between the two writes the
comparator sees the new low word under the old high word.
-/

namespace MelonSoc

namespace Clint

/-- `clint_set_mtimecmp`. -/
def clintSetMtimecmp (val : BitVec 64) : Access Word Word Unit := do
  Access.put ioClintMtimecmpAddr (val.setWidth 32)
  Access.put (ioClintMtimecmpAddr + 4#32) ((val >>> 32).setWidth 32)

/-- The access of a cycle. -/
def access (b : WbReq) : Option (Issued Word Word) :=
  if b.cyc && b.stb && b.sel != 0#4 then
    if b.we then some (.write b.adr b.datW) else some (.read b.adr)
  else none

/-- A write to one of the words of `mtimecmp`. -/
def writesCmp (b : WbReq) : Bool := written b && (selMtimecmpLo b || selMtimecmpHi b)

/-- The low word of `val` is written in the cycle `t`, its high word in the cycle `u`, and nothing
else of `mtimecmp` in between. -/
structure Sets (bus : Nat → WbReq) (val : BitVec 64) (t u : Nat) : Prop where
  order : t < u
  low : written (bus t) = true ∧ selMtimecmpLo (bus t) = true ∧ (bus t).datW = val.setWidth 32
  high : written (bus u) = true ∧ selMtimecmpHi (bus u) = true ∧
    (bus u).datW = (val >>> 32).setWidth 32
  still : ∀ j, t < j → j < u → writesCmp (bus j) = false

/-- The CLINT before a cycle. -/
def clintRun (bus : Nat → WbReq) (s₀ : Clint) (n : Nat) : Clint := Clocked.run next bus s₀ n

/-- The counter is below both values from the write of the low word to behind the one of the high
word. -/
def Below (bus : Nat → WbReq) (s₀ : Clint) (val : BitVec 64) (t u : Nat) : Prop :=
  ∀ k, t ≤ k → k ≤ u + 1 → (clintRun bus s₀ k).mtime < (clintRun bus s₀ t).mtimecmp ∧
    (clintRun bus s₀ k).mtime < val

/-- The interrupt stays off all the time. -/
def GlitchFree (bus : Nat → WbReq) (s₀ : Clint) (t u : Nat) : Prop :=
  ∀ k, t ≤ k → k ≤ u + 1 → (clintRun bus s₀ k).timerIrq = false

/-- The high word of `old` over the low word of `new`. -/
def mixed (old new : BitVec 64) : BitVec 64 := old.extractLsb' 32 32 ++ new.extractLsb' 0 32

section Words

variable {old new : BitVec 64}

theorem words_toNat (x : BitVec 64) :
    (x.extractLsb' 32 32).toNat = x.toNat / 2 ^ 32 ∧ (x.extractLsb' 0 32).toNat = x.toNat % 2 ^ 32 := by
  have hx : x.toNat < 2 ^ 64 := x.isLt
  constructor
  · rw [BitVec.extractLsb'_toNat, Nat.shiftRight_eq_div_pow]
    omega
  · rw [BitVec.extractLsb'_toNat, Nat.shiftRight_eq_div_pow, Nat.pow_zero, Nat.div_one]

theorem mixed_toNat :
    (mixed old new).toNat = old.toNat / 2 ^ 32 * 2 ^ 32 + new.toNat % 2 ^ 32 := by
  have hlow : new.toNat % 2 ^ 32 < 2 ^ 32 := Nat.mod_lt _ (by decide)
  rw [mixed, BitVec.toNat_append, (words_toNat old).1, (words_toNat new).2,
    ← Nat.shiftLeft_add_eq_or_of_lt hlow, Nat.shiftLeft_eq]

/-- The mixed value is below both only if the high word grows and the low word gets smaller. -/
theorem mixed_low {m : Nat} (hm : (mixed old new).toNat ≤ m) (ho : m < old.toNat)
    (hn : m < new.toNat) : old.extractLsb' 32 32 < new.extractLsb' 32 32 ∧
      new.extractLsb' 0 32 < old.extractLsb' 0 32 := by
  rw [mixed_toNat] at hm
  rw [BitVec.lt_def, BitVec.lt_def, (words_toNat old).1, (words_toNat old).2, (words_toNat new).1,
    (words_toNat new).2]
  omega

end Words

section Run

variable {bus : Nat → WbReq} {s₀ : Clint} {val : BitVec 64} {t u k : Nat} {b : WbReq} {s : Clint}

theorem sel_ne : (selMtimecmpLo b = true → selMtimecmpHi b = false) ∧
    (selMtimecmpHi b = true → selMtimecmpLo b = false) := by
  unfold selMtimecmpLo selMtimecmpHi
  generalize offset b.adr = a
  constructor
  · intro h
    rw [beq_iff_eq.mp h]
    rfl
  · intro h
    rw [beq_iff_eq.mp h]
    rfl

theorem mtimecmp_low (hw : written b = true) (h : selMtimecmpLo b = true) :
    (s.next b).mtimecmp = s.mtimecmp.extractLsb' 32 32 ++ b.datW := by
  simp [next, mtimecmpNext, hw, h, sel_ne.1 h]

theorem mtimecmp_high (hw : written b = true) (h : selMtimecmpHi b = true) :
    (s.next b).mtimecmp = b.datW ++ s.mtimecmp.extractLsb' 0 32 := by
  simp [next, mtimecmpNext, hw, h, sel_ne.2 h]

theorem mtimecmp_still (h : writesCmp b = false) : (s.next b).mtimecmp = s.mtimecmp := by
  unfold next mtimecmpNext
  rw [writesCmp] at h
  cases hw : written b with
  | false => simp
  | true =>
      rw [hw, Bool.true_and, Bool.or_eq_false_iff] at h
      simp [h.1, h.2]

theorem mtime_run (bus : Nat → WbReq) (s₀ : Clint) (n d : Nat) :
    (clintRun bus s₀ (n + d)).mtime = (clintRun bus s₀ n).mtime + BitVec.ofNat 64 d := by
  induction d with
  | zero => simp
  | succ d ih =>
      have hstep : (clintRun bus s₀ (n + d + 1)).mtime = (clintRun bus s₀ (n + d)).mtime + 1#64 := rfl
      rw [← Nat.add_assoc, hstep, ih, BitVec.add_assoc, ← BitVec.ofNat_add_ofNat]

/-- A counter that stays below a value does not wrap. -/
theorem mtime_below {v : BitVec 64} {n d : Nat}
    (h : ∀ k, n ≤ k → k ≤ n + d → (clintRun bus s₀ k).mtime < v) :
    (clintRun bus s₀ (n + d)).mtime.toNat = (clintRun bus s₀ n).mtime.toNat + d := by
  induction d with
  | zero => rfl
  | succ d ih =>
      have hlt : (clintRun bus s₀ (n + d)).mtime.toNat < v.toNat :=
        h (n + d) (by omega) (by omega)
      have hv : v.toNat < 2 ^ 64 := v.isLt
      have hone : (1#64).toNat = 1 := rfl
      have hstep : (clintRun bus s₀ (n + (d + 1))).mtime.toNat =
          ((clintRun bus s₀ (n + d)).mtime.toNat + 1) % 2 ^ 64 := by
        show ((clintRun bus s₀ (n + d)).mtime + 1#64).toNat = _
        rw [BitVec.toNat_add, hone]
      rw [hstep, Nat.mod_eq_of_lt (by omega), ih fun k h1 h2 => h k h1 (by omega)]
      omega

/-- The compare value between the two writes. -/
theorem Sets.between (h : Sets bus val t u) (htk : t < k) (hku : k ≤ u) :
    (clintRun bus s₀ k).mtimecmp = mixed (clintRun bus s₀ t).mtimecmp val := by
  induction k, Nat.succ_le_of_lt htk using Nat.le_induction with
  | base =>
      obtain ⟨hw, hsel, hdat⟩ := h.low
      have hlow : val.extractLsb' 0 32 = val.setWidth 32 := by
        apply BitVec.eq_of_toNat_eq
        rw [(words_toNat val).2, BitVec.toNat_setWidth]
      rw [mixed, hlow, ← hdat]
      exact mtimecmp_low hw hsel
  | succ k hk ih =>
      rw [← ih hk (by omega)]
      exact mtimecmp_still (h.still k hk hku)

/-- The compare value after both writes. -/
theorem Sets.after (h : Sets bus val t u) : (clintRun bus s₀ (u + 1)).mtimecmp = val := by
  obtain ⟨hw, hsel, hdat⟩ := h.high
  have hnext : (clintRun bus s₀ (u + 1)).mtimecmp =
      (bus u).datW ++ (clintRun bus s₀ u).mtimecmp.extractLsb' 0 32 := mtimecmp_high hw hsel
  rw [hnext, h.between h.order (Nat.le_refl u), hdat]
  apply BitVec.eq_of_toNat_eq
  have hv := val.isLt
  have hlow : ((mixed (clintRun bus s₀ t).mtimecmp val).extractLsb' 0 32).toNat =
      val.toNat % 2 ^ 32 := by
    rw [(words_toNat _).2, mixed_toNat]
    omega
  have hlt : val.toNat % 2 ^ 32 < 2 ^ 32 := Nat.mod_lt _ (by decide)
  rw [BitVec.toNat_append, hlow, BitVec.toNat_setWidth, BitVec.toNat_ushiftRight,
    ← Nat.shiftLeft_add_eq_or_of_lt hlt, Nat.shiftLeft_eq, Nat.shiftRight_eq_div_pow]
  omega

theorem timerIrq_false : s.timerIrq = false ↔ s.mtime.toNat < s.mtimecmp.toNat := by
  rw [timerIrq, decide_eq_false_iff_not, BitVec.le_def, Nat.not_le]

end Run

/-! ## The driver -/

section Driver

variable {bus : Nat → WbReq} {val : BitVec 64} {b : WbReq} {value : Nat → Word → Word} {n m : Nat}

theorem access_write {adr w : Word} (h : access b = some (.write adr w)) :
    written b = true ∧ b.adr = adr ∧ b.datW = w := by
  unfold access at h
  cases hs : (b.cyc && b.stb && b.sel != 0#4) with
  | false => simp [hs] at h
  | true =>
      cases hw : b.we with
      | false => simp [hs, hw] at h
      | true =>
          simp only [hs, hw, if_true, Option.some.injEq, Issued.write.injEq] at h
          refine ⟨?_, h.1, h.2⟩
          simp only [Bool.and_eq_true] at hs
          simp only [written, hs, hw, Bool.and_self]

theorem access_none (h : access b = none) : writesCmp b = false := by
  unfold access at h
  cases hs : (b.cyc && b.stb && b.sel != 0#4) with
  | false =>
      have hno : written b = false := by
        rw [written]
        revert hs
        cases b.cyc <;> cases b.stb <;> cases b.we <;> simp
      rw [writesCmp, hno, Bool.false_and]
  | true => cases hw : b.we <;> simp [hs, hw] at h

/-- A run of the driver writes the two words. -/
theorem clintSetMtimecmp_sets
    (h : Access.Exec (fun k => access (bus k)) value n (clintSetMtimecmp val) () m) :
    ∃ t u, n ≤ t ∧ u < m ∧ Sets bus val t u := by
  cases h with
  | write h1 q1 w1 x1 =>
    cases x1 with
    | write h2 q2 w2 x2 =>
      rename_i t u
      obtain ⟨hw1, ha1, hd1⟩ := access_write w1
      obtain ⟨hw2, ha2, hd2⟩ := access_write w2
      refine ⟨t, u, h1, x2.le, h2, ⟨hw1, ?_, hd1⟩, ⟨hw2, ?_, hd2⟩, fun j hj1 hj2 => ?_⟩
      · rw [selMtimecmpLo, ha1]
        rfl
      · rw [selMtimecmpHi, ha2]
        rfl
      · exact access_none (q2 j hj1 hj2)

end Driver

/-- **Setting the compare value.** While the counter is below the old and the new value the
interrupt stays off exactly if the high word does not grow, or the low word does not get smaller,
or the high word is written before the counter comes to the mixed value. -/
theorem mtimecmp_glitch_free_iff (bus : Nat → WbReq) (s₀ : Clint) (val : BitVec 64) (t u : Nat)
    (h : Sets bus val t u) (hb : Below bus s₀ val t u) :
    GlitchFree bus s₀ t u ↔
      val.extractLsb' 32 32 ≤ (clintRun bus s₀ t).mtimecmp.extractLsb' 32 32 ∨
        (clintRun bus s₀ t).mtimecmp.extractLsb' 0 32 ≤ val.extractLsb' 0 32 ∨
        (clintRun bus s₀ t).mtime.toNat + (u - t) <
          (mixed (clintRun bus s₀ t).mtimecmp val).toNat := by
  have hmtime : ∀ k, t ≤ k → k ≤ u + 1 →
      (clintRun bus s₀ k).mtime.toNat = (clintRun bus s₀ t).mtime.toNat + (k - t) := by
    intro k h1 h2
    have hsum : t + (k - t) = k := by omega
    have hlow : ∀ j, t ≤ j → j ≤ t + (k - t) → (clintRun bus s₀ j).mtime < val :=
      fun j hj1 hj2 => (hb j hj1 (by omega)).2
    have hrun := mtime_below hlow
    rwa [hsum] at hrun
  have horder := h.order
  constructor
  · intro hfree
    by_contra hno
    simp only [not_or, BitVec.not_le] at hno
    obtain ⟨hhi, hlo, hpass⟩ := hno
    -- the last cycle before the high word is in place
    have hirq := hfree u (by omega) (by omega)
    rw [timerIrq_false, h.between horder (Nat.le_refl u), hmtime u (by omega) (by omega)] at hirq
    exact hpass hirq
  · intro hcond k h1 h2
    obtain ⟨hold, hnew⟩ := hb k h1 h2
    rw [timerIrq_false]
    rcases Nat.eq_or_lt_of_le h1 with rfl | hgt
    · exact hold
    · rcases Nat.lt_or_ge u k with hend | hmid
      · have hk : k = u + 1 := by omega
        rw [hk, h.after]
        rw [hk] at hnew
        exact hnew
      · rw [h.between hgt hmid]
        by_contra hge
        have hle := Nat.le_of_not_lt hge
        obtain ⟨hhi, hlo⟩ := mixed_low hle hold hnew
        rcases hcond with hc | hc | hc
        · exact absurd hc (BitVec.not_le.mpr hhi)
        · exact absurd hc (BitVec.not_le.mpr hlo)
        · rw [hmtime k h1 h2] at hle
          omega

/-- A bus with the two writes of the driver, three cycles apart. -/
def setBus (val : BitVec 64) (n : Nat) : WbReq :=
  { adr := if n = 0 then ioClintMtimecmpAddr else ioClintMtimecmpAddr + 4#32
    datW := if n = 0 then val.setWidth 32 else (val >>> 32).setWidth 32
    sel := 0xF#4, we := true, cyc := n == 0 || n == 3, stb := true, lock := false }

theorem setBus_sets (val : BitVec 64) : Sets (setBus val) val 0 3 where
  order := by decide
  low := ⟨rfl, show (offset ioClintMtimecmpAddr == 0x4000#32) = true by decide, rfl⟩
  high := ⟨rfl, show (offset (ioClintMtimecmpAddr + 4#32) == 0x4004#32) = true by decide, rfl⟩
  still := by
    intro j h1 h2
    obtain rfl | rfl : j = 1 ∨ j = 2 := by omega
    · rfl
    · rfl

/-- A CLINT at the time 5 with the deadline `cmp`. -/
def clintAt5 (cmp : BitVec 64) : Clint := { msipReg := false, mtime := 5#64, mtimecmp := cmp }

/-- The deadline moves on inside its 2^32 block. -/
theorem mtimecmp_glitch_free_once : GlitchFree (setBus 2000#64) (clintAt5 1000#64) 0 3 := by
  refine (mtimecmp_glitch_free_iff (setBus 2000#64) (clintAt5 1000#64) 2000#64 0 3
    (setBus_sets _) ?_).mpr (.inl (by decide))
  intro k _ h2
  have hk : k = 0 ∨ k = 1 ∨ k = 2 ∨ k = 3 ∨ k = 4 := by omega
  rcases hk with rfl | rfl | rfl | rfl | rfl <;> decide

/-- From 2^32 - 1 to 2^32 the mixed value is 0. -/
theorem mtimecmp_glitch :
    ¬(∀ (bus : Nat → WbReq) (s₀ : Clint) (val : BitVec 64) (t u : Nat),
      Sets bus val t u → Below bus s₀ val t u → GlitchFree bus s₀ t u) := by
  intro h
  have hb : Below (setBus 0x100000000#64) (clintAt5 0xFFFFFFFF#64) 0x100000000#64 0 3 := by
    intro k _ h2
    have hk : k = 0 ∨ k = 1 ∨ k = 2 ∨ k = 3 ∨ k = 4 := by omega
    rcases hk with rfl | rfl | rfl | rfl | rfl <;> decide
  have hirq := h _ _ _ 0 3 (setBus_sets _) hb 1 (by decide) (by decide)
  revert hirq
  decide

end Clint

end MelonSoc
