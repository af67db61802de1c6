import MelonSoc.Lib.Clocked
import MelonSoc.Periph.Timer

set_option autoImplicit false

/-! # Compare events of the timer

A write to CMP is checked against the count of before the clock edge, and the count that comes next
against the compare value of before it. From the write on the event is noticed, or it is still
ahead: the invariant of a run without further writes is that PENDING is set or the count is below
the compare value.
-/

namespace MelonSoc

namespace TimerMmio

/-- A write to one of the registers. -/
def regWrite (b : WbReq) : Bool :=
  written b && (selCtrl b || selPresc b || selCount b || selCmp b || selPeriod b || selStatus b)

/-- The compare value `v` is written in the first cycle of the run: PENDING is set at once if the
count has reached it, and otherwise where the count comes to it, which it does. -/
structure Noticed (inp : Nat → WbReq) (s : TimerMmio) (v : Word) : Prop where
  late : v ≤ s.countReg → (Clocked.run next inp s 1).pending = true
  ahead : s.countReg < v → ∀ n, 1 ≤ n → (Clocked.run next inp s n).countReg = v →
    (Clocked.run next inp s n).pending = true
  comes : s.countReg < v → ∃ n, 1 ≤ n ∧ (Clocked.run next inp s n).countReg = v

/-- The write lands on the tick that takes the count to the value, and nothing else sets
PENDING. -/
def Missed (s : TimerMmio) (v : Word) : Prop :=
  s.tick = true ∧ s.countReg < v ∧ s.countReg + 1#32 = v ∧ s.cmpReg ≠ v ∧ s.pending = false

/-- The event of `v` is noticed, or still ahead. -/
def Awaits (v : Word) (s : TimerMmio) : Prop :=
  s.pending = true ∨
    s.ctrlEn = true ∧ s.ctrlArmed = true ∧ s.cmpReg = v ∧ s.countReg < v

section Match

variable {b : WbReq} {s : TimerMmio} {v : Word} {inp : Nat → WbReq}

theorem mmioWrite_none (h : regWrite b = false) : s.mmioWrite b = s := by
  unfold mmioWrite
  by_cases hw : written b = true
  · rw [regWrite, hw, Bool.true_and] at h
    simp only [Bool.or_eq_false_iff] at h
    obtain ⟨⟨⟨⟨⟨hctrl, hpresc⟩, hcount⟩, hcmp⟩, hperiod⟩, hstatus⟩ := h
    simp [hctrl, hpresc, hcount, hcmp, hperiod, hstatus]
  · simp [hw]

theorem mmioWrite_cmp_eq (hw : written b = true) (h : selCmp b = true) :
    s.mmioWrite b = { s with
      cmpReg := b.datW
      pending := if s.ctrlEn && s.ctrlArmed && b.datW ≤ s.countReg then true else s.pending } := by
  obtain ⟨hctrl, hpresc, hcount, hcmp, hperiod, hstatus⟩ := selections (beq_iff_eq.mp h)
  rw [mmioWrite, hw, hctrl, hpresc, hcount, hcmp, hperiod, hstatus]
  rfl

/-- The counter never takes PENDING back. -/
theorem coreUpdate_pending {t : TimerMmio} (h : t.pending = true) :
    (coreUpdate s t).pending = true := by
  by_cases ht : s.tick = true
  · cases hm : s.matched with
    | false =>
        rw [coreUpdate_tick s t ht hm]
        exact h
    | true => rw [coreUpdate_match s t ht hm]
  · obtain ⟨n, hn⟩ := coreUpdate_quiet s t (by simpa using ht)
    rw [hn]
    exact h

/-- A count below a value does not wrap in its next step. -/
theorem count_succ (h : s.countReg < v) :
    (s.countReg + 1#32).toNat = s.countReg.toNat + 1 ∧
      (s.countReg + 1#32 ≠ v → s.countReg + 1#32 < v) := by
  have hlt : s.countReg.toNat < v.toNat := h
  have hv : v.toNat < 2 ^ 32 := v.isLt
  have hone : (1#32).toNat = 1 := rfl
  have hsucc : (s.countReg + 1#32).toNat = s.countReg.toNat + 1 := by
    rw [BitVec.toNat_add, hone]
    exact Nat.mod_eq_of_lt (by omega)
  refine ⟨hsucc, fun hne => ?_⟩
  have hnat : (s.countReg + 1#32).toNat ≠ v.toNat := fun heq => hne (BitVec.eq_of_toNat_eq heq)
  rw [BitVec.lt_def]
  omega

/-- A cycle without a write. -/
theorem Awaits.next (h : Awaits v s) (hb : regWrite b = false) : Awaits v (s.next b) := by
  rw [TimerMmio.next, mmioWrite_none hb]
  rcases h with hp | ⟨hen, harmed, hcmp, hlt⟩
  · exact .inl (coreUpdate_pending hp)
  · by_cases ht : s.tick = true
    · cases hm : s.matched with
      | true =>
          rw [coreUpdate_match s s ht hm]
          exact .inl rfl
      | false =>
          have hne : s.countReg + 1#32 ≠ v := by
            intro heq
            rw [matched, harmed, hcmp, heq] at hm
            simp at hm
          rw [coreUpdate_tick s s ht hm]
          exact .inr ⟨hen, harmed, hcmp, (count_succ hlt).2 hne⟩
    · obtain ⟨n, hn⟩ := coreUpdate_quiet s s (by simpa using ht)
      rw [hn]
      exact .inr ⟨hen, harmed, hcmp, hlt⟩

/-- The cycle of the write. -/
theorem awaits_write (hen : s.ctrlEn = true) (harmed : s.ctrlArmed = true)
    (hw : written b = true) (hsel : selCmp b = true) (hlt : s.countReg < b.datW)
    (hmiss : ¬Missed s b.datW) : Awaits b.datW (s.next b) := by
  have hnot : ¬b.datW ≤ s.countReg := by
    rw [BitVec.le_def]
    exact Nat.not_le_of_lt hlt
  have hcheck : (if s.ctrlEn && s.ctrlArmed && b.datW ≤ s.countReg then true else s.pending) =
      s.pending := by
    simp [hnot]
  rw [TimerMmio.next, mmioWrite_cmp_eq hw hsel, hcheck]
  by_cases ht : s.tick = true
  · cases hm : s.matched with
    | true =>
        rw [coreUpdate_match s _ ht hm]
        exact .inl rfl
    | false =>
        rw [coreUpdate_tick s _ ht hm]
        cases hp : s.pending with
        | true => exact .inl rfl
        | false =>
            have hne : s.countReg + 1#32 ≠ b.datW := by
              intro heq
              have hcmp : s.cmpReg ≠ b.datW := by
                intro hc
                rw [matched, harmed, hc, heq] at hm
                simp at hm
              exact hmiss ⟨ht, hlt, heq, hcmp, hp⟩
            exact .inr ⟨hen, harmed, rfl, (count_succ hlt).2 hne⟩
  · obtain ⟨n, hn⟩ := coreUpdate_quiet s
      { s with cmpReg := b.datW, pending := s.pending } (by simpa using ht)
    rw [hn]
    exact .inr ⟨hen, harmed, rfl, hlt⟩

/-- The invariant along the run. -/
theorem awaits_run (hq : ∀ k, 1 ≤ k → regWrite (inp k) = false)
    (h : Awaits v (Clocked.run TimerMmio.next inp s 1)) {n : Nat} (hn : 1 ≤ n) :
    Awaits v (Clocked.run TimerMmio.next inp s n) := by
  induction n, hn using Nat.le_induction with
  | base => exact h
  | succ n hn ih => exact ih.next (hq n hn)

/-! ## The count goes on -/

/-- The cycles up to the next tick. -/
def ticksIn (s : TimerMmio) : Nat := s.prescReg.toNat - s.prescCnt.toNat

/-- A cycle of an enabled timer without a write. -/
theorem next_enabled (hen : s.ctrlEn = true) (hb : regWrite b = false) :
    (s.next b).ctrlEn = true ∧
      ((s.next b).countReg = s.countReg + 1#32 ∨
        (s.next b).countReg = s.countReg ∧ ticksIn (s.next b) < ticksIn s) := by
  have hframe := (coreUpdate_frame s (s.mmioWrite b)).2.2.1
  rw [TimerMmio.next, mmioWrite_none hb] at *
  refine ⟨hframe.trans hen, ?_⟩
  by_cases ht : s.tick = true
  · left
    cases hm : s.matched with
    | true => rw [coreUpdate_match s s ht hm]
    | false => rw [coreUpdate_tick s s ht hm]
  · right
    have hno : s.tick = false := by simpa using ht
    have hpresc : s.prescCnt.toNat < s.prescReg.toNat := by
      by_contra hge
      have hle : s.prescReg ≤ s.prescCnt := by
        rw [BitVec.le_def]
        omega
      simp [tick, hen, hle] at hno
    have hmax : s.prescReg.toNat < 2 ^ 32 := s.prescReg.isLt
    have hone : (1#32).toNat = 1 := rfl
    have hsucc : (s.prescCnt + 1#32).toNat = s.prescCnt.toNat + 1 := by
      rw [BitVec.toNat_add, hone]
      exact Nat.mod_eq_of_lt (by omega)
    rw [coreUpdate_wait s s hen hno]
    refine ⟨rfl, ?_⟩
    show s.prescReg.toNat - (s.prescCnt + 1#32).toNat < s.prescReg.toNat - s.prescCnt.toNat
    omega

/-- An enabled timer ticks. -/
theorem ticks (hq : ∀ k, 1 ≤ k → regWrite (inp k) = false) (r : Nat) {n : Nat} (hn : 1 ≤ n)
    (hen : (Clocked.run TimerMmio.next inp s n).ctrlEn = true)
    (hr : ticksIn (Clocked.run TimerMmio.next inp s n) ≤ r) :
    ∃ m, n ≤ m ∧ (Clocked.run TimerMmio.next inp s m).ctrlEn = true ∧
      (Clocked.run TimerMmio.next inp s m).countReg =
        (Clocked.run TimerMmio.next inp s n).countReg + 1#32 := by
  induction r generalizing n with
  | zero =>
      obtain ⟨hen', hcount | ⟨-, hless⟩⟩ := next_enabled hen (hq n hn)
      · exact ⟨n + 1, Nat.le_succ n, hen', hcount⟩
      · omega
  | succ r ih =>
      obtain ⟨hen', hcount | ⟨hsame, hless⟩⟩ := next_enabled hen (hq n hn)
      · exact ⟨n + 1, Nat.le_succ n, hen', hcount⟩
      · have hrank : ticksIn (Clocked.run TimerMmio.next inp s (n + 1)) ≤ r := by
          rw [Clocked.run_succ]
          omega
        obtain ⟨m, hm, henm, hcount⟩ := ih (n := n + 1) (by omega) hen' hrank
        refine ⟨m, by omega, henm, ?_⟩
        rw [hcount, Clocked.run_succ, hsame]

/-- An enabled timer comes to every value. -/
theorem count_comes (hq : ∀ k, 1 ≤ k → regWrite (inp k) = false) (d : Nat) {n : Nat} (hn : 1 ≤ n)
    (hen : (Clocked.run TimerMmio.next inp s n).ctrlEn = true)
    (hd : (Clocked.run TimerMmio.next inp s n).countReg.toNat + d = v.toNat) :
    ∃ m, n ≤ m ∧ (Clocked.run TimerMmio.next inp s m).countReg = v := by
  induction d generalizing n with
  | zero => exact ⟨n, Nat.le_refl n, BitVec.eq_of_toNat_eq hd⟩
  | succ d ih =>
      obtain ⟨m, hm, henm, hcount⟩ := ticks hq _ hn hen (Nat.le_refl _)
      have hlt : (Clocked.run TimerMmio.next inp s n).countReg < v := by
        rw [BitVec.lt_def]
        omega
      have hsucc := (count_succ hlt).1
      rw [← hcount] at hsucc
      obtain ⟨m', hm', hv⟩ := ih (n := m) (by omega) henm (by omega)
      exact ⟨m', by omega, hv⟩

/-- An armed timer notices the event of a write to CMP if and only if the write does not land on
the tick that takes the count to the value, with another value in CMP and PENDING not set. -/
theorem compare_event_iff (inp : Nat → WbReq) (s : TimerMmio) (hen : s.ctrlEn = true)
    (harmed : s.ctrlArmed = true) (hw : written (inp 0) = true) (hsel : selCmp (inp 0) = true)
    (hq : ∀ k, 1 ≤ k → regWrite (inp k) = false) :
    Noticed inp s (inp 0).datW ↔ ¬Missed s (inp 0).datW := by
  have hone : Clocked.run TimerMmio.next inp s 1 = s.next (inp 0) := rfl
  constructor
  · rintro h ⟨ht, hlt, heq, hcmp, hp⟩
    -- the count is the value in the next cycle, and PENDING is as before
    have hm : s.matched = false := by
      rw [matched, heq, beq_eq_false_iff_ne.mpr (Ne.symm hcmp), Bool.and_false]
    have hnot : ¬(inp 0).datW ≤ s.countReg := by
      rw [BitVec.le_def]
      exact Nat.not_le_of_lt hlt
    have hnext : s.next (inp 0) = { s with
        cmpReg := (inp 0).datW, prescCnt := 0#32, countReg := s.countReg + 1#32 } := by
      rw [TimerMmio.next, mmioWrite_cmp_eq hw hsel, coreUpdate_tick s _ ht hm]
      simp [hnot]
    have hset := h.ahead hlt 1 (Nat.le_refl 1) (by rw [hone, hnext]; exact heq)
    rw [hone, hnext] at hset
    exact Bool.false_ne_true (hp.symm.trans hset)
  · intro hmiss
    refine ⟨fun hle => ?_, fun hlt n hn hcount => ?_, fun hlt => ?_⟩
    · rw [hone, TimerMmio.next, mmioWrite_cmp_eq hw hsel]
      exact coreUpdate_pending (by simp [hen, harmed, hle])
    · rcases awaits_run hq (awaits_write hen harmed hw hsel hlt hmiss) hn with hp | ⟨-, -, -, hless⟩
      · exact hp
      · rw [hcount, BitVec.lt_def] at hless
        exact absurd hless (Nat.lt_irrefl _)
    · have hlt' : s.countReg.toNat < (inp 0).datW.toNat := hlt
      have hen1 : (Clocked.run TimerMmio.next inp s 1).ctrlEn = true := by
        rw [hone, TimerMmio.next, (coreUpdate_frame _ _).2.2.1, mmioWrite_cmp_eq hw hsel]
        exact hen
      have hcount : (Clocked.run TimerMmio.next inp s 1).countReg.toNat ≤
          (inp 0).datW.toNat := by
        rw [hone, TimerMmio.next, mmioWrite_cmp_eq hw hsel]
        have hsucc := (count_succ hlt).1
        by_cases ht : s.tick = true
        · cases hm : s.matched with
          | true =>
              rw [coreUpdate_match s _ ht hm]
              exact Nat.le_trans (Nat.le_of_eq hsucc) hlt'
          | false =>
              rw [coreUpdate_tick s _ ht hm]
              exact Nat.le_trans (Nat.le_of_eq hsucc) hlt'
        · obtain ⟨n, hn⟩ := coreUpdate_quiet s _ (by simpa using ht)
          rw [hn]
          exact Nat.le_of_lt hlt'
      obtain ⟨d, hd⟩ := Nat.exists_eq_add_of_le hcount
      exact count_comes hq d (Nat.le_refl 1) hen1 hd.symm

end Match

/-- A timer that is enabled and armed, at the count 5. -/
def armedAt5 : TimerMmio := { counting with ctrlArmed := true }

/-- One write to CMP. -/
def cmpWrite (v : Word) : Nat → WbReq
  | 0 => store ioTimerCmpAddr v
  | _ + 1 => { store 0#32 0#32 with cyc := false }

theorem compare_event_ahead : Noticed (cmpWrite 9#32) armedAt5 9#32 := by
  refine (compare_event_iff (cmpWrite 9#32) armedAt5 rfl rfl (by decide) (by decide) ?_).mpr ?_
  · intro k hk
    cases k with
    | zero => cases hk
    | succ k => rfl
  · rintro ⟨-, -, heq, -⟩
    exact absurd heq (by decide)

/-- The write of 6 lands on the tick from 5 to 6. -/
theorem compare_event_missed : ¬Noticed (cmpWrite 6#32) armedAt5 6#32 := by
  intro h
  have hset := h.ahead (by decide) 1 (Nat.le_refl 1) (by decide)
  revert hset
  decide

end TimerMmio

end MelonSoc
