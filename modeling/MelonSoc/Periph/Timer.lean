import MelonSoc.Rtl.TimerMmio

set_option autoImplicit false

/-! # Writes to the timer

Software and the counter assign the same registers, and the counter wins. A write holds when the
counter leaves the register alone in that cycle.
-/

namespace MelonSoc

namespace TimerMmio

variable {b : WbReq} {s : TimerMmio}

/-- What a write asks for: the register has the value that is written, the counter at most one tick
more, and a soft reset leaves every register as after a reset. -/
structure Kept (b : WbReq) (s s' : TimerMmio) : Prop where
  count : selCount b = true → s'.countReg = b.datW ∨ s.tick = true ∧ s'.countReg = b.datW + 1#32
  cmp : selCmp b = true → s'.cmpReg = b.datW
  period : selPeriod b = true → s'.periodReg = b.datW
  presc : selPresc b = true → s'.prescReg = b.datW
  ctrl : selCtrl b = true → b.datW.getLsbD 31 = false →
    s'.ctrlEn = b.datW.getLsbD 0 ∧ s'.ctrlArmed = b.datW.getLsbD 1 ∧
      s'.ctrlPeriodic = b.datW.getLsbD 2 ∧ s'.ctrlPrescEn = b.datW.getLsbD 3 ∧
      s'.ctrlIrqEn = b.datW.getLsbD 8
  softReset : selCtrl b = true → b.datW.getLsbD 31 = true → s' = reset

/-- The counter does not get in the way of the write. -/
structure Undisturbed (b : WbReq) (s : TimerMmio) : Prop where
  count : selCount b = true → s.tick = true →
    s.countReg + 1#32 = b.datW ∨ s.countReg = b.datW
  cmp : selCmp b = true → s.tick = true → s.matched = true → s.ctrlPeriodic = true →
    s.cmpReg + s.periodReg = b.datW
  ctrl : selCtrl b = true → b.datW.getLsbD 31 = false → s.tick = true → s.matched = true →
    s.ctrlPeriodic = false → b.datW.getLsbD 1 = false
  softReset : selCtrl b = true → b.datW.getLsbD 31 = true → s.ctrlEn = true →
    s.tick = true ∧ s.countReg = BitVec.allOnes 32 ∧ s.matched = false

/-! ## What the counter assigns -/

section CoreUpdate

variable (s t : TimerMmio)

theorem tick_en (h : s.tick = true) : s.ctrlEn = true := by
  by_contra hen
  rw [Bool.not_eq_true] at hen
  simp [tick, hen] at h

theorem coreUpdate_idle (h : s.ctrlEn = false) :
    coreUpdate s t = { t with prescCnt := 0#32 } := by
  simp [coreUpdate, h]

theorem coreUpdate_wait (hen : s.ctrlEn = true) (h : s.tick = false) :
    coreUpdate s t = { t with prescCnt := s.prescCnt + 1#32 } := by
  have hpresc : s.ctrlPrescEn = true := by
    by_contra hno
    simp [tick, hen, hno] at h
  simp [coreUpdate, hen, h, hpresc]

theorem coreUpdate_tick (h : s.tick = true) (hm : s.matched = false) :
    coreUpdate s t = { t with prescCnt := 0#32, countReg := s.countReg + 1#32 } := by
  simp [coreUpdate, tick_en s h, h, hm]

theorem coreUpdate_match (h : s.tick = true) (hm : s.matched = true) :
    coreUpdate s t = { t with
      prescCnt := 0#32
      countReg := s.countReg + 1#32
      pending := true
      cmpReg := if s.ctrlPeriodic then s.cmpReg + s.periodReg else t.cmpReg
      ctrlArmed := s.ctrlPeriodic && t.ctrlArmed } := by
  cases hp : s.ctrlPeriodic <;> simp [coreUpdate, tick_en s h, h, hm, hp]

/-- Where the counter does not tick it assigns the prescaler alone. -/
theorem coreUpdate_quiet (h : s.tick = false) :
    ∃ n, coreUpdate s t = { t with prescCnt := n } := by
  by_cases hen : s.ctrlEn = true
  · exact ⟨_, coreUpdate_wait s t hen h⟩
  · exact ⟨_, coreUpdate_idle s t (by simpa using hen)⟩

end CoreUpdate

/-! ## What is written -/

/-- A write to one register selects no other one. -/
theorem selections {a : Word} (h : alignWord b.adr = a) :
    selCtrl b = (a == ioTimerCtrlAddr) ∧ selPresc b = (a == ioTimerPrescAddr) ∧
      selCount b = (a == ioTimerCountAddr) ∧ selCmp b = (a == ioTimerCmpAddr) ∧
      selPeriod b = (a == ioTimerPeriodAddr) ∧ selStatus b = (a == ioTimerStatusAddr) := by
  subst h
  exact ⟨rfl, rfl, rfl, rfl, rfl, rfl⟩

theorem mmioWrite_ctrl (hw : written b = true) (h : selCtrl b = true) :
    s.mmioWrite b = s.writeCtrl b.datW := by
  obtain ⟨hctrl, hpresc, hcount, hcmp, hperiod, hstatus⟩ := selections (beq_iff_eq.mp h)
  rw [mmioWrite, hw, hctrl, hpresc, hcount, hcmp, hperiod, hstatus]
  rfl

theorem mmioWrite_presc (hw : written b = true) (h : selPresc b = true) :
    s.mmioWrite b = { s with prescReg := b.datW, prescCnt := 0#32 } := by
  obtain ⟨hctrl, hpresc, hcount, hcmp, hperiod, hstatus⟩ := selections (beq_iff_eq.mp h)
  rw [mmioWrite, hw, hctrl, hpresc, hcount, hcmp, hperiod, hstatus]
  rfl

theorem mmioWrite_count (hw : written b = true) (h : selCount b = true) :
    s.mmioWrite b = { s with countReg := b.datW } := by
  obtain ⟨hctrl, hpresc, hcount, hcmp, hperiod, hstatus⟩ := selections (beq_iff_eq.mp h)
  rw [mmioWrite, hw, hctrl, hpresc, hcount, hcmp, hperiod, hstatus]
  rfl

theorem mmioWrite_period (hw : written b = true) (h : selPeriod b = true) :
    s.mmioWrite b = { s with periodReg := b.datW } := by
  obtain ⟨hctrl, hpresc, hcount, hcmp, hperiod, hstatus⟩ := selections (beq_iff_eq.mp h)
  rw [mmioWrite, hw, hctrl, hpresc, hcount, hcmp, hperiod, hstatus]
  rfl

theorem mmioWrite_cmp (hw : written b = true) (h : selCmp b = true) :
    ∃ p, s.mmioWrite b = { s with cmpReg := b.datW, pending := p } := by
  obtain ⟨hctrl, hpresc, hcount, hcmp, hperiod, hstatus⟩ := selections (beq_iff_eq.mp h)
  rw [mmioWrite, hw, hctrl, hpresc, hcount, hcmp, hperiod, hstatus]
  exact ⟨_, rfl⟩

theorem writeCtrl_bits {datW : Word} (h : datW.getLsbD 31 = false) :
    s.writeCtrl datW =
      { s with
        ctrlEn := datW.getLsbD 0
        ctrlArmed := datW.getLsbD 1
        ctrlPeriodic := datW.getLsbD 2
        ctrlPrescEn := datW.getLsbD 3
        ctrlIrqEn := datW.getLsbD 8 } := by
  rw [writeCtrl, h]
  rfl

/-! ## One register at a time -/

theorem count_kept (hw : written b = true) (h : selCount b = true) :
    ((s.next b).countReg = b.datW ∨ s.tick = true ∧ (s.next b).countReg = b.datW + 1#32) ↔
      (s.tick = true → s.countReg + 1#32 = b.datW ∨ s.countReg = b.datW) := by
  have hone : s.countReg + 1#32 = b.datW + 1#32 ↔ s.countReg = b.datW := by
    constructor
    · intro heq
      have := congrArg (fun x => x - 1#32) heq
      simpa using this
    · intro heq
      rw [heq]
  rw [next, mmioWrite_count hw h]
  by_cases ht : s.tick = true
  · have hcount : (coreUpdate s { s with countReg := b.datW }).countReg = s.countReg + 1#32 := by
      cases hm : s.matched with
      | false => rw [coreUpdate_tick s _ ht hm]
      | true => rw [coreUpdate_match s _ ht hm]
    rw [hcount, hone]
    simp [ht]
  · obtain ⟨n, hn⟩ := coreUpdate_quiet s { s with countReg := b.datW } (by simpa using ht)
    rw [hn]
    simp [ht]

theorem cmp_kept (hw : written b = true) (h : selCmp b = true) :
    (s.next b).cmpReg = b.datW ↔
      (s.tick = true → s.matched = true → s.ctrlPeriodic = true →
        s.cmpReg + s.periodReg = b.datW) := by
  obtain ⟨p, hp⟩ := mmioWrite_cmp (s := s) hw h
  rw [next, hp]
  by_cases ht : s.tick = true
  · cases hm : s.matched with
    | false =>
        rw [coreUpdate_tick s _ ht hm]
        simp
    | true =>
        rw [coreUpdate_match s _ ht hm]
        cases hper : s.ctrlPeriodic <;> simp [ht]
  · obtain ⟨n, hn⟩ := coreUpdate_quiet s { s with cmpReg := b.datW, pending := p } (by simpa using ht)
    rw [hn]
    simp [ht]

/-- The counter leaves the period and the prescaler value alone. -/
theorem coreUpdate_frame (s t : TimerMmio) :
    (coreUpdate s t).periodReg = t.periodReg ∧ (coreUpdate s t).prescReg = t.prescReg ∧
      (coreUpdate s t).ctrlEn = t.ctrlEn ∧ (coreUpdate s t).ctrlPeriodic = t.ctrlPeriodic ∧
      (coreUpdate s t).ctrlPrescEn = t.ctrlPrescEn ∧ (coreUpdate s t).ctrlIrqEn = t.ctrlIrqEn := by
  by_cases ht : s.tick = true
  · cases hm : s.matched with
    | false =>
        rw [coreUpdate_tick s _ ht hm]
        exact ⟨rfl, rfl, rfl, rfl, rfl, rfl⟩
    | true =>
        rw [coreUpdate_match s _ ht hm]
        exact ⟨rfl, rfl, rfl, rfl, rfl, rfl⟩
  · obtain ⟨n, hn⟩ := coreUpdate_quiet s t (by simpa using ht)
    rw [hn]
    exact ⟨rfl, rfl, rfl, rfl, rfl, rfl⟩

theorem armed_kept (hw : written b = true) (h : selCtrl b = true)
    (hreset : b.datW.getLsbD 31 = false) :
    (s.next b).ctrlArmed = b.datW.getLsbD 1 ↔
      (s.tick = true → s.matched = true → s.ctrlPeriodic = false → b.datW.getLsbD 1 = false) := by
  have harmed : (s.writeCtrl b.datW).ctrlArmed = b.datW.getLsbD 1 := by
    rw [writeCtrl_bits hreset]
  rw [next, mmioWrite_ctrl hw h]
  generalize s.writeCtrl b.datW = t at harmed
  generalize b.datW.getLsbD 1 = armed at harmed
  by_cases ht : s.tick = true
  · cases hm : s.matched with
    | false =>
        rw [coreUpdate_tick s t ht hm]
        simp [harmed]
    | true =>
        rw [coreUpdate_match s t ht hm]
        cases hper : s.ctrlPeriodic <;> cases armed <;> simp [harmed, ht]
  · obtain ⟨n, hn⟩ := coreUpdate_quiet s t (by simpa using ht)
    rw [hn]
    simp [harmed, ht]

theorem softReset_kept (hw : written b = true) (h : selCtrl b = true)
    (hreset : b.datW.getLsbD 31 = true) :
    s.next b = reset ↔
      (s.ctrlEn = true → s.tick = true ∧ s.countReg = BitVec.allOnes 32 ∧ s.matched = false) := by
  have hlast : s.countReg + 1#32 = 0#32 ↔ s.countReg = BitVec.allOnes 32 := by
    constructor
    · intro heq
      have := congrArg (fun x => x - 1#32) heq
      simpa using this
    · intro heq
      rw [heq]
      decide
  rw [next, mmioWrite_ctrl hw h, writeCtrl, if_pos hreset]
  cases hen : s.ctrlEn with
  | false =>
      rw [coreUpdate_idle s _ hen]
      simp [reset]
  | true =>
      by_cases ht : s.tick = true
      · cases hm : s.matched with
        | false =>
            rw [coreUpdate_tick s _ ht hm]
            simp [reset, ht, hlast]
        | true =>
            rw [coreUpdate_match s _ ht hm]
            simp [reset]
      · -- the prescaler goes on counting
        have hno : s.tick = false := by simpa using ht
        have hcnt : s.prescCnt + 1#32 ≠ 0#32 := by
          intro hzero
          have hmax : s.prescCnt = BitVec.allOnes 32 := by
            have := congrArg (fun x => x - 1#32) hzero
            simpa using this
          have hle : s.prescReg ≤ s.prescCnt := by
            rw [hmax, BitVec.le_def]
            have := s.prescReg.isLt
            simp only [BitVec.toNat_allOnes]
            omega
          by_cases hpresc : s.ctrlPrescEn = true
          · simp [tick, hen, hpresc, hle] at hno
          · simp [tick, hen, hpresc] at hno
        rw [coreUpdate_wait s _ hen hno]
        simp [reset, hno, hcnt]

/-! ## The result -/

/-- **Timer writes.** A write holds exactly when the counter does not assign the same register
something else in that cycle. -/
theorem write_kept (hw : written b = true) : Kept b s (s.next b) ↔ Undisturbed b s := by
  constructor
  · intro h
    refine ⟨fun hsel => ?_, fun hsel => ?_, fun hsel hreset => ?_, fun hsel hreset => ?_⟩
    · exact (count_kept hw hsel).mp (h.count hsel)
    · exact (cmp_kept hw hsel).mp (h.cmp hsel)
    · exact (armed_kept hw hsel hreset).mp (h.ctrl hsel hreset).2.1
    · exact (softReset_kept hw hsel hreset).mp (h.softReset hsel hreset)
  · intro h
    refine ⟨fun hsel => ?_, fun hsel => ?_, fun hsel => ?_, fun hsel => ?_, fun hsel hreset => ?_,
      fun hsel hreset => ?_⟩
    · exact (count_kept hw hsel).mpr (h.count hsel)
    · exact (cmp_kept hw hsel).mpr (h.cmp hsel)
    · rw [next, (coreUpdate_frame _ _).1, mmioWrite_period hw hsel]
    · rw [next, (coreUpdate_frame _ _).2.1, mmioWrite_presc hw hsel]
    · have harmed := (armed_kept hw hsel hreset).mpr (h.ctrl hsel hreset)
      obtain ⟨-, -, hen, hper, hpresc, hirq⟩ := coreUpdate_frame s (s.mmioWrite b)
      rw [mmioWrite_ctrl hw hsel, writeCtrl_bits hreset] at hen hper hpresc hirq
      rw [next, mmioWrite_ctrl hw hsel, writeCtrl_bits hreset] at harmed ⊢
      exact ⟨hen, harmed, hper, hpresc, hirq⟩
    · exact (softReset_kept hw hsel hreset).mpr (h.softReset hsel hreset)

/-- A word that is written to a register. -/
def store (adr datW : Word) : WbReq :=
  { adr := adr, datW := datW, sel := 0xF#4, we := true, cyc := true, stb := true, lock := false }

/-- A timer that ticks in every cycle. -/
def counting : TimerMmio := { reset with ctrlEn := true, countReg := 5#32 }

theorem write_kept_cmp :
    Kept (store ioTimerCmpAddr 9#32) counting (counting.next (store ioTimerCmpAddr 9#32)) ↔
      Undisturbed (store ioTimerCmpAddr 9#32) counting :=
  write_kept (by decide)

/-- The count goes on from 5. -/
theorem count_write_lost :
    ¬ (∀ (b : WbReq) (s : TimerMmio), written b = true → Kept b s (s.next b)) := by
  intro h
  have hcount := (h (store ioTimerCountAddr 100#32) counting (by decide)).count (by decide)
  exact absurd hcount (by decide)

end TimerMmio

end MelonSoc
