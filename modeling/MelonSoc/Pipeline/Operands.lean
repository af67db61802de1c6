import MelonSoc.Pipeline.Linked

set_option autoImplicit false

/-! # Every operand is the architectural one

`Linked` is invariant: one lemma for each of its parts, by the cases of a step. Then the
operands EX works with are those of the instructions in program order.
-/

namespace MelonSoc

namespace Core

variable {i : CoreIn} {fi : FetchIn} {s : Core} {log : List Fired}

theorem Wf.idle_of_noAtomic (w : s.Wf) (h : s.exMem.isAtomic = false) :
    s.atomic.state = .idle := by
  by_contra hne
  rw [(w.busy hne).1] at h
  cases h

/-! ## Answers -/

theorem answered_of_none {f : Fired} {older : List Fired} (h : s.answer i f = none) :
    s.answered i (f :: older) = f :: older := by
  simp [answered, h]

theorem answered_of_some {f : Fired} {older : List Fired} {v : Word}
    (h : s.answer i f = some v) :
    s.answered i (f :: older) = { f with data := some v } :: older := by
  simp [answered, h]

/-- An answer is for the instruction in EX/MEM, which has none yet. -/
theorem Linked.answer_data (l : Linked s log) (w : s.Wf) {f : Fired} {older : List Fired}
    {v : Word} (hlog : log = f :: older) (h : s.answer i f = some v) :
    f.data = none ∧ f.awaits = true := by
  unfold answer at h
  by_cases hload : f.insn.isLoad = true
  · rw [if_pos hload] at h
    have hreq : s.memReq = true := by
      by_contra hc
      simp [hc] at h
    simp only [memReq, Bool.and_eq_true, Bool.or_eq_true] at hreq
    obtain ⟨g, rest, hg, -, hd, -⟩ := l.head hreq.1
      (by rcases hreq.2 with h | h <;> simp [h])
    rw [hlog] at hg
    obtain ⟨rfl, rfl⟩ := List.cons.inj hg
    exact ⟨hd hload, by simp [Fired.awaits, hload]⟩
  · rw [if_neg hload] at h
    by_cases hatom : f.insn.isAtomic = true
    · rw [if_pos hatom] at h
      have hmem : s.exMem.isAtomic = true := by
        by_contra hc
        simp only [Bool.not_eq_true] at hc
        simp [w.idle_of_noAtomic hc, hc] at h
      obtain ⟨g, rest, hg, -, -, hd⟩ := l.head (w.atomicMem hmem).1 (by simp [hmem])
      rw [hlog] at hg
      obtain ⟨rfl, rfl⟩ := List.cons.inj hg
      refine ⟨?_, by simp [Fired.awaits, hatom]⟩
      rw [hd hatom]
      cases hst : s.atomic.state <;> simp [hst] at h <;> simp [atomicData, hst]
    · rw [if_neg hatom] at h
      cases h

/-- What is known of a register stays known. -/
theorem Linked.archReg_answered (l : Linked s log) (w : s.Wf) {r : BitVec 5} {v : Word}
    (h : archReg log r = some v) : archReg (s.answered i log) r = some v := by
  cases log with
  | nil => exact h
  | cons f older =>
      cases ha : s.answer i f with
      | none => rwa [answered_of_none ha]
      | some x =>
          obtain ⟨hd, haw⟩ := l.answer_data w rfl ha
          rw [answered_of_some ha]
          by_cases hr : r = 0#5
          · subst hr
            rw [archReg_zero] at h ⊢
            exact h
          · have hne : f.dest ≠ r := by
              intro hdest
              rw [archReg_of_dest hr hdest, Fired.result, if_pos haw, hd] at h
              cases h
            rw [archReg_of_ne hne] at h
            rw [archReg_of_ne (f := { f with data := some x }) hne]
            exact h

/-- Nothing is answered while no load completes and no atomic is at work. -/
theorem Linked.answered_eq (l : Linked s log) (w : s.Wf) (hat : s.exMem.isAtomic = false)
    (hl : s.exMem.valid = true → s.exMem.isLoad = true → s.stallMem i = true) :
    s.answered i log = log := by
  cases log with
  | nil => rfl
  | cons f older =>
      apply answered_of_none
      unfold answer
      split
      · rename_i hload
        rw [if_neg]
        intro hc
        simp only [Bool.and_eq_true, Bool.not_eq_true', memReq, Bool.or_eq_true] at hc
        obtain ⟨⟨hv, hm⟩, hs⟩ := hc
        obtain ⟨g, rest, hg, hin, -⟩ := l.head hv (by rcases hm with h | h <;> simp [h])
        obtain ⟨rfl, rfl⟩ := List.cons.inj hg
        rw [hl hv (by rw [hin.isLoad]; exact hload)] at hs
        cases hs
      · split
        · simp [w.idle_of_noAtomic hat, hat]
        · rfl

/-- The acknowledge of a load delivers its word. -/
theorem Linked.answer_load (l : Linked s log) (hv : s.exMem.valid = true)
    (hld : s.exMem.isLoad = true) (hs : s.stallMem i = false) :
    ∃ f older, log = f :: older ∧ f.insn.isLoad = true ∧ f.dest = s.exMem.rd ∧
      s.exMem.wbEn = true ∧
      s.answer i f = some (formatLoadData i.datR s.exMem.funct3 (s.exMem.addr.extractLsb' 0 2)) := by
  obtain ⟨f, older, hlog, hin, -⟩ := l.head hv (by simp [hld])
  have hload : f.insn.isLoad = true := by rw [← hin.isLoad]; exact hld
  have hw : f.insn.writesReg = true := by simp [IdEx.writesReg, hload]
  obtain ⟨-, hna, -⟩ := hin.flags.classes.of_load hload
  refine ⟨f, older, hlog, hload, ?_, ?_, ?_⟩
  · rw [Fired.dest, if_pos hw, hin.rd]
  · rw [hin.wbEn, hw, hna]
    rfl
  · rw [answer, if_pos hload, if_pos (by simp [memReq, hv, hld, hs]), hin.funct3, hin.addr]

/-! ## The registers behind EX -/

theorem regBankNext_eq {r : BitVec 5} (hr : r ≠ 0#5) (hc : s.atomic.state ≠ .complete) :
    s.regBankNext r = s.wbReg r := by
  have hc' : s.atomicComplete = false := by simpa [atomicComplete] using hc
  simp only [regBankNext, hc', Bool.false_and, Bool.false_eq_true, if_false, wbWe, Bool.not_false,
    Bool.and_true, wbReg]
  by_cases hm : (s.memWb.valid && s.memWb.wbEn && s.memWb.rd == r) = true
  · rw [if_pos hm]
    simp only [Bool.and_eq_true, beq_iff_eq] at hm
    obtain ⟨⟨hv, he⟩, hrd⟩ := hm
    rw [if_pos (by simp [hv, he, hrd, hr]), ← hrd, Function.update_self]
  · rw [if_neg hm]
    split
    · rename_i hw
      apply Function.update_of_ne
      rintro rfl
      simp only [Bool.and_eq_true] at hw
      simp [hw.1.1, hw.1.2] at hm
    · rfl

/-- MEM/WB stays, or leaves nothing behind but what it writes. -/
theorem wbReg_next_stay {r : BitVec 5} (hr : r ≠ 0#5) (hc : s.atomic.state ≠ .complete)
    (hwb : s.memWbNext i = s.memWb ∨ s.memWbNext i = { s.memWb with valid := false }) :
    (s.next i fi).wbReg r = s.wbReg r := by
  rw [wbReg, next_regBank, regBankNext_eq hr hc]
  rcases hwb with hwb | hwb
  · simp only [next_memWb, hwb, wbValue]
    by_cases hm : (s.memWb.valid && s.memWb.wbEn && s.memWb.rd == r) = true
    · rw [if_pos hm, wbReg, if_pos hm, wbValue]
    · rw [if_neg hm]
  · simp [hwb]

/-- MEM/WB takes over EX/MEM. -/
theorem wbReg_next_moved {r : BitVec 5} (hr : r ≠ 0#5) (hc : s.atomic.state ≠ .complete)
    (hwb : s.memWbNext i = s.movedMemWb i) :
    (s.next i fi).wbReg r
      = if s.exMem.valid && s.exMem.wbEn && s.exMem.rd == r then
          (if s.exMem.isLoad then
            formatLoadData i.datR s.exMem.funct3 (s.exMem.addr.extractLsb' 0 2)
          else s.exMem.wbValue)
        else s.wbReg r := by
  rw [wbReg, next_regBank, regBankNext_eq hr hc]
  simp only [next_memWb, hwb, movedMemWb, wbValue]

/-- When EX/MEM moves on, its result is behind MEM and the list has its answer. -/
theorem Linked.moved (l : Linked s log) (w : s.Wf) (hs : s.stallMem i = false)
    (hat : s.exMem.isAtomic = false) (hwb : s.memWbNext i = s.movedMemWb i) {r : BitVec 5}
    (hr : r ≠ 0#5) :
    archReg (s.answered i log) r = some ((s.next i fi).wbReg r) := by
  have hidle := w.idle_of_noAtomic hat
  rw [wbReg_next_moved hr (by rw [hidle]; decide) hwb]
  by_cases hld : s.exMem.valid = true ∧ s.exMem.isLoad = true
  · obtain ⟨f, older, hlog, hload, hdest, hen, hans⟩ := l.answer_load hld.1 hld.2 hs
    rw [hlog, answered_of_some hans]
    by_cases hrd : s.exMem.rd = r
    · rw [archReg_of_dest (f := { f with data := some _ }) hr (hdest.trans hrd),
        if_pos (by simp [hld.1, hen, hrd]), if_pos hld.2]
      simp [Fired.result, Fired.awaits, hload]
    · rw [archReg_of_ne (f := { f with data := some _ }) (by rw [Fired.dest] at hdest ⊢; rw [hdest]; exact hrd),
        if_neg (by simp [hrd])]
      have hreg := l.regs r hr (by simp [pending, hrd])
      rw [hlog, archReg_of_ne (by rw [hdest]; exact hrd)] at hreg
      rw [hreg, pipeReg, if_neg (by simp [hrd])]
  · rw [l.answered_eq w hat (fun hv hl => absurd ⟨hv, hl⟩ hld)]
    have hp : s.pending r = false := by
      by_contra hc
      simp only [pending, hat, Bool.or_false, Bool.not_eq_false, Bool.and_eq_true] at hc
      exact hld hc.1
    rw [l.regs r hr hp, pipeReg]
    congr 1
    by_cases hm : (s.exMem.valid && s.exMem.wbEn && s.exMem.rd == r) = true
    · rw [if_pos hm]
      simp only [Bool.and_eq_true, beq_iff_eq] at hm
      have hnl : s.exMem.isLoad = false := by
        by_contra hc
        exact hld ⟨hm.1.1, by simpa using hc⟩
      rw [if_pos (by simp [exMemFwdEn, hm.1.1, hm.1.2, hnl, hm.2, hr]), if_neg (by simp [hnl])]
    · rw [if_neg hm, if_neg]
      simp only [exMemFwdEn, Bool.and_eq_true, beq_iff_eq] at hm ⊢
      rintro ⟨⟨⟨hve, -⟩, -⟩, hrd⟩
      exact hm ⟨hve, hrd⟩

/-! ## The instruction that fires -/

theorem exHeld_of_exFire (h : s.exFire i = true) : s.exHeld i = false := by
  obtain ⟨-, h1, h2, -, h3⟩ := exFire_iff.mp h
  simp [exHeld, h1, h2, h3]

/-- The operands EX works with are those of the list, where they are used. -/
theorem Linked.fires_operands (l : Linked s log) (w : s.Wf) (h : s.exFire i = true) :
    s.idEx.SameOperands (s.fires i (s.answered i log)).rs1 s.exRs1
      (s.fires i (s.answered i log)).rs2 s.exRs2 := by
  obtain ⟨hv, -, hat, -⟩ := exFire_iff.mp h
  constructor
  · intro hu
    have ho := l.archReg_answered (i := i) w (l.operand w hat (l.rs1 hv hu))
    simp [fires, ho, exRs1]
  · intro hu
    have ho := l.archReg_answered (i := i) w (l.operand w hat (l.rs2 hv hu))
    simp [fires, ho, exRs2]

/-- A division fires with the result of its operands. -/
theorem Linked.fires_division (l : Linked s log) (w : s.Wf) (h : s.exFire i = true)
    (hd : s.idEx.isDIV = true) :
    s.div.resultValid = true ∧
      (if s.idEx.funct3.getLsbD 1 then s.div.resultR else s.div.resultQ)
        = quotRem (!s.idEx.funct3.getLsbD 0) (s.idEx.funct3.getLsbD 1) s.exRs1 s.exRs2 := by
  obtain ⟨hv, -, hat, hdiv, -⟩ := exFire_iff.mp h
  have hrv : s.div.resultValid = true := by
    simpa [stallDiv, hd, hv] using (Bool.or_eq_false_iff.mp hdiv).2
  obtain ⟨a, b, ha, hb, hc⟩ := l.division (.inr hrv)
  have h1 := l.operand w hat (l.rs1 hv (by simp [usesRs1, hd]))
  have h2 := l.operand w hat (l.rs2 hv (by simp [usesRs2, hd]))
  rw [h1] at ha
  rw [h2] at hb
  obtain rfl := Option.some.inj ha
  obtain rfl := Option.some.inj hb
  exact ⟨hrv, hc.result hrv⟩

/-- EX computes the result of the instruction. -/
theorem Linked.fires_result (l : Linked s log) (w : s.Wf) (h : s.exFire i = true)
    (ha : s.idEx.isLoad = false) (hat : s.idEx.isAtomic = false) :
    (s.fires i (s.answered i log)).result = some (s.exWbValue i) := by
  have hv := (exFire_iff.mp h).1
  have hop := l.fires_operands (i := i) w h
  rw [Fired.result, if_neg (by simp [Fired.awaits, fires, ha, hat])]
  rw [exWbValue, IdEx.exWriteValue_of_fire hv (fun hd => l.fires_division w h hd),
    ← hop.resultOf]
  rfl

/-- An instruction that fires without a trap is no return, unless it writes nothing. -/
theorem redirect_of_commits (h : s.commits i = true) (hr : s.privRedirectValid i = true) :
    s.idEx.isReturn = true := by
  simp only [commits, Bool.and_eq_true, Bool.not_eq_true'] at h
  simp only [privRedirectValid, PrivCsr.redirectValid, Bool.or_eq_true] at hr
  rcases hr with hr | hr
  · rw [privTrapTaken, hr] at h
    exact absurd h.2 (by decide)
  · simp only [PrivCsr.returnTaken, Bool.and_eq_true, privIn] at hr
    exact hr.2

/-- The write enable with which an instruction that fires enters EX/MEM. -/
theorem Wf.exWbEn_of_commits (w : s.Wf) (h : s.commits i = true) :
    s.exWbEn i = (s.idEx.writesReg && !s.idEx.isAtomic) := by
  have hf : s.exFire i = true := by
    simp only [commits, Bool.and_eq_true] at h
    exact h.1
  obtain ⟨hv, -, -, hdiv, -⟩ := exFire_iff.mp hf
  have hd : s.idEx.isDIV = true → s.div.resultValid = true := by
    intro hd
    simpa [stallDiv, hd, hv] using (Bool.or_eq_false_iff.mp hdiv).2
  rw [exWbEn, IdEx.exWriteEn_of_fire w.flags.classes hv hd, exHeld_of_exFire hf]
  by_cases hr : s.privRedirectValid i = true
  · have hw := (w.flags.classes.of_return (redirect_of_commits h hr)).2
    simp [hw]
  · simp [hr]

/-- A division that waits enters EX/MEM without effect. -/
theorem Linked.exMemOfEx_waiting (l : Linked s log) (w : s.Wf) (h : s.stallDiv = true) :
    (s.exMemOfEx i).wbEn = false ∧ (s.exMemOfEx i).isLoad = false ∧
      (s.exMemOfEx i).isStore = false ∧ (s.exMemOfEx i).isAtomic = false := by
  have hd := (w.stallDiv_isDIV h).2
  have hm := (w.flags.classes.of_div hd).1
  simp only [IdEx.isMem, Bool.or_eq_false_iff] at hm
  have hrv : s.div.resultValid = false := by
    by_contra hc
    simp only [Bool.not_eq_false] at hc
    obtain ⟨a, b, -, -, hcorr⟩ := l.division (.inr hc)
    simp only [stallDiv, hc, Bool.not_true, Bool.and_false, Bool.or_false] at h
    rw [(hcorr.running h).1] at hc
    cases hc
  refine ⟨?_, hm.1.1, hm.1.2, by simp [exMemOfEx, hm.2]⟩
  simp [exMemOfEx, exWbEn, hrv, IdEx.exWriteEn_of_waiting w.flags.classes hd]

theorem logNext_of_not_commits (h : s.commits i = false) :
    s.logNext i log = s.answered i log := by
  rw [logNext, if_neg (by simp [h])]

theorem logNext_of_commits (h : s.commits i = true) :
    s.logNext i log = s.fires i (s.answered i log) :: s.answered i log := by
  rw [logNext, if_pos h]

theorem commits_of_no_fire (h : s.exFire i = false) : s.commits i = false := by
  simp [commits, h]

/-! ## Registers -/

theorem Linked.next_regs (l : Linked s log) (w : s.Wf) {r : BitVec 5} (hr : r ≠ 0#5)
    (hp : (s.next i fi).pending r = false) :
    archReg (s.logNext i log) r = some ((s.next i fi).pipeReg r) := by
  cases w.step_cases i with
  | memWait hmem hidle hfire _ hm hwb =>
      have hat : s.exMem.isAtomic = false := by
        by_contra hc
        obtain ⟨-, hl, hst, -⟩ := w.atomicMem (by simpa using hc)
        have hreq := stallMem_memReq hmem
        simp [memReq, hl, hst] at hreq
      rw [logNext_of_not_commits (commits_of_no_fire hfire), l.answered_eq w hat (fun _ _ => hmem)]
      rw [pending, next_exMem, hm] at hp
      rw [l.regs r hr hp, pipeReg, pipeReg, exMemFwdEn, exMemFwdEn, next_exMem, hm,
        wbReg_next_stay hr (by rw [hidle]; decide) (.inl hwb)]
  | atomicWait hat _ hnd hfire _ hm hwb =>
      obtain ⟨hv, hld, -, hen⟩ := w.atomicMem hat
      obtain ⟨f, older, hlog, hin, -, -⟩ := l.head hv (by simp [hat])
      have hdest : f.dest = s.exMem.rd := by
        have hfa : f.insn.isAtomic = true := by rw [← hin.isAtomic]; exact hat
        rw [Fired.dest, if_pos (by simp [IdEx.writesReg, hfa]), hin.rd]
      have hne : f.dest ≠ r := by
        rw [hdest]
        simpa [pending, hm, hat, hv] using hp
      have hreg := l.regs r hr (by simpa [pending, hm] using hp)
      rw [logNext_of_not_commits (commits_of_no_fire hfire),
        l.archReg_answered w hreg, pipeReg, pipeReg, exMemFwdEn, exMemFwdEn, next_exMem, hm,
        wbReg_next_stay hr hnd (.inr hwb)]
  | atomicDone hat _ hdone hfire _ hm hwb =>
      obtain ⟨hv, hld, -, hen⟩ := w.atomicMem hat
      have hbusy := w.busy (by rw [hdone]; decide)
      obtain ⟨f, older, hlog, hin, -, hdata⟩ := l.head hv (by simp [hat])
      have hfa : f.insn.isAtomic = true := by rw [← hin.isAtomic]; exact hat
      have hfl : f.insn.isLoad = false := by rw [← hin.isLoad]; exact hld
      have hdest : f.dest = s.exMem.rd := by
        rw [Fired.dest, if_pos (by simp [IdEx.writesReg, hfa]), hin.rd]
      have hans : s.answer i f = none := by simp [answer, hfl, hfa, hdone]
      -- the result is in the register file and nothing is above it
      have hpipe : (s.next i fi).pipeReg r = s.regBankNext r := by
        simp [pipeReg, exMemFwdEn, wbReg, hm, hwb]
      rw [logNext_of_not_commits (commits_of_no_fire hfire), hpipe, hlog, answered_of_none hans]
      by_cases hrd : s.exMem.rd = r
      · have hres : s.regBankNext r = s.atomic.result := by
          rw [← hrd, ← hbusy.2.1]
          exact regBankNext_complete hdone (by rw [hbusy.2.1, hrd]; exact hr)
        rw [archReg_of_dest hr (hdest.trans hrd), hres, Fired.result,
          if_pos (by simp [Fired.awaits, hfa]), hdata hfa]
        simp [atomicData, hdone]
      · have hreg := l.regs r hr (by simp [pending, hrd])
        rw [← hlog, hreg, pipeReg, if_neg (by simp [hrd]), wbReg, if_neg (by simp [hbusy.2.2])]
        have hwe : s.wbWe = false := by simp [wbWe, hbusy.2.2]
        have hne : r ≠ s.atomic.rd := by
          rw [hbusy.2.1]
          exact fun h => hrd h.symm
        simp only [regBankNext, hwe, Bool.false_eq_true, if_false]
        split
        · rw [Function.update_of_ne hne]
        · rfl
  | mmuWait hmem hidle hat hfire _ _ hm hwb =>
      have hpipe : (s.next i fi).pipeReg r = (s.next i fi).wbReg r := by
        simp [pipeReg, exMemFwdEn, hm]
      rw [logNext_of_not_commits (commits_of_no_fire hfire), l.moved w hmem hat hwb hr, hpipe]
  | divWait hmem hidle hat hfire hdiv _ _ hm hwb =>
      have hpipe : (s.next i fi).pipeReg r = (s.next i fi).wbReg r := by
        rw [pipeReg, if_neg]
        simp [exMemFwdEn, hm, (l.exMemOfEx_waiting (i := i) w hdiv).1]
      rw [logNext_of_not_commits (commits_of_no_fire hfire), l.moved w hmem hat hwb hr, hpipe]
  | flow hmem hidle hat hfire _ _ _ hm hwb =>
      by_cases hcm : s.commits i = true
      · have hcm' := hcm
        simp only [commits, Bool.and_eq_true, Bool.not_eq_true'] at hcm'
        obtain ⟨hf, htrap⟩ := hcm'
        have hv : s.idEx.valid = true := by rw [← hfire]; exact hf
        have hen := w.exWbEn_of_commits hcm
        have hdest : (s.fires i (s.answered i log)).dest
            = if s.idEx.writesReg then s.idEx.rd else 0#5 := rfl
        rw [logNext_of_commits hcm]
        by_cases hd : (s.fires i (s.answered i log)).dest = r
        · rw [archReg_of_dest hr hd]
          have hwr : s.idEx.writesReg = true := by
            by_contra hc
            rw [hdest, if_neg hc] at hd
            exact hr hd.symm
          rw [hdest, if_pos hwr] at hd
          -- it has the result now, or its data is still to come
          have hnot : s.idEx.isLoad = false ∧ s.idEx.isAtomic = false := by
            simpa [pending, hm, exMemOfEx, hv, htrap, hd] using hp
          rw [l.fires_result w hf hnot.1 hnot.2, pipeReg, if_pos]
          · rw [next_exMem, hm]
            rfl
          · simp [exMemFwdEn, hm, exMemOfEx, hv, htrap, hen, hwr, hnot, hd, hr]
        · rw [archReg_of_ne hd, l.moved w hmem hat hwb hr, pipeReg, if_neg]
          simp only [exMemFwdEn, next_exMem, hm, exMemOfEx, hen, Bool.and_eq_true, beq_iff_eq]
          rintro ⟨⟨⟨⟨-, hwr, -⟩, -⟩, -⟩, hrd⟩
          rw [hdest, if_pos hwr] at hd
          exact hd hrd
      · simp only [Bool.not_eq_true] at hcm
        have hv' : (s.exMemOfEx i).valid = false := by
          rw [commits, hfire] at hcm
          exact hcm
        have hpipe : (s.next i fi).pipeReg r = (s.next i fi).wbReg r := by
          rw [pipeReg, if_neg]
          simp [exMemFwdEn, hm, hv']
        rw [logNext_of_not_commits hcm, l.moved w hmem hat hwb hr, hpipe]

/-! ## Operand snapshots -/

/-- A held snapshot is refreshed in the cycle in which its source disappears. -/
theorem Wf.operandOk_held (w : s.Wf) {rs : BitVec 5} {value : Word} (ok : s.OperandOk rs value)
    (hload : (s.exMemNext i).valid = true → (s.exMemNext i).isLoad = true →
      s.exMemNext i = s.exMem)
    (hfwd : s.exMemFwdEn = true → s.exMemNext i = s.exMem ∨ s.memWbNext i = s.movedMemWb i)
    (hat : s.exMem.isAtomic = true → s.atomic.state ≠ .complete → s.exMemNext i = s.exMem) :
    (s.next i fi).OperandOk rs (s.holdOperand rs value) := by
  refine ⟨fun hz => ?_, fun hz => ?_, fun hz hq => ?_⟩
  · -- register 0 is never bypassed
    subst hz
    have h1 : (s.atomic.wbValid && s.atomic.wbRd != 0#5 && s.atomic.wbRd == 0#5) = false := by
      by_contra hc
      simp at hc
    have h2 : (s.wbWe && s.memWb.rd != 0#5 && s.memWb.rd == 0#5) = false := by
      by_contra hc
      simp at hc
    rw [holdOperand, h1, h2]
    simpa using ok.zero rfl
  · rintro ⟨hv, hl, hrd⟩
    have hsame := hload hv hl
    rw [next_exMem, hsame] at hv hl hrd
    exact ok.noLoad hz ⟨hv, hl, hrd⟩
  · have hq' := hq
    simp only [inFlight, Bool.or_eq_false_iff] at hq'
    obtain ⟨⟨⟨hqf, hqw⟩, hqa⟩, hqm⟩ := hq'
    rw [next_regBank, holdOperand]
    by_cases h1 : (s.atomic.wbValid && s.atomic.wbRd != 0#5 && s.atomic.wbRd == rs) = true
    · rw [if_pos h1]
      simp only [Bool.and_eq_true, beq_iff_eq] at h1
      obtain ⟨hst, -, hwb, -, hval⟩ := w.written h1.1.1
      rw [regBankNext_eq hz (by rw [hst]; decide), wbReg, if_neg (by simp [hwb]), ← h1.2, hval]
    · rw [if_neg h1]
      have h1' : (s.atomic.wbValid && s.atomic.wbRd == rs) = false := by
        by_contra hc
        simp only [Bool.not_eq_false, Bool.and_eq_true, beq_iff_eq] at hc
        exact h1 (by simp [hc.1, hc.2, hz])
      by_cases hdone : s.atomic.state = .complete
      · -- the result of the atomic is not the operand, or it would still be on its way
        obtain ⟨hat', hrd, hwb⟩ := w.busy (by rw [hdone]; decide)
        have hwe : s.wbWe = false := by simp [wbWe, hwb]
        have hne : s.atomic.rd ≠ rs := by
          intro he
          have hwr := (atomicNext_complete i s hdone).2.1
          have hcomp : s.atomicComplete = true := by simp [atomicComplete, hdone]
          rw [next_atomic, atomicNext_wbValid, hwr, he, hcomp] at hqa
          simp [hz] at hqa
        have hq0 : s.inFlight rs = false := by
          have hen := (w.atomicMem hat').2.2.2
          simp [inFlight, exMemFwdEn, hen, hwb, h1', ← hrd, hne]
        rw [if_neg (by simp [hwe]), ok.snapshot hz hq0]
        simp only [regBankNext, hwe, Bool.false_eq_true, if_false]
        split
        · rw [Function.update_of_ne (fun h => hne h.symm)]
        · rfl
      · rw [regBankNext_eq hz hdone, wbReg]
        have hc : s.atomicComplete = false := by simpa [atomicComplete] using hdone
        by_cases hm : (s.memWb.valid && s.memWb.wbEn && s.memWb.rd == rs) = true
        · rw [if_pos hm]
          simp only [Bool.and_eq_true, beq_iff_eq] at hm
          rw [if_pos]
          simp [wbWe, hm.1.1, hm.1.2, hm.2, hc, hz]
        · rw [if_neg hm]
          have hwe : ¬ (s.wbWe && s.memWb.rd != 0#5 && s.memWb.rd == rs) = true := by
            simp only [wbWe, Bool.and_eq_true, beq_iff_eq] at hm ⊢
            rintro ⟨⟨⟨⟨⟨hv, he⟩, -⟩, -⟩, -⟩, hrd⟩
            exact hm ⟨⟨hv, he⟩, hrd⟩
          rw [if_neg hwe]
          apply ok.snapshot hz
          simp only [Bool.not_eq_true] at hm
          simp only [inFlight, hm, h1', Bool.or_false, Bool.or_eq_false_iff]
          constructor
          · by_contra hf
            simp only [Bool.not_eq_false, Bool.and_eq_true, beq_iff_eq] at hf
            rcases hfwd hf.1 with he | he
            · simp [exMemFwdEn, he] at hqf
              have hf1 := hf.1
              simp only [exMemFwdEn, Bool.and_eq_true, Bool.not_eq_true'] at hf1
              exact hqf hf1.1.1.1 hf1.1.1.2 hf1.1.2 (by simpa using hf1.2) hf.2
            · have hf1 := hf.1
              simp only [exMemFwdEn, Bool.and_eq_true] at hf1
              simp [he, movedMemWb, hf1.1.1.1, hf1.1.1.2, hf.2] at hqw
          · by_contra hf
            simp only [Bool.not_eq_false, Bool.and_eq_true, beq_iff_eq] at hf
            rw [next_exMem, hat hf.1 hdone] at hqm
            simp [hf.1, hf.2] at hqm

/-- The snapshot with which an instruction enters EX. -/
theorem Wf.operandOk_new (w : s.Wf) {rs : BitVec 5} (hidle : s.atomic.state = .idle)
    (hload : rs ≠ 0#5 → ¬ ((s.exMemNext i).valid = true ∧ (s.exMemNext i).isLoad = true ∧
      (s.exMemNext i).rd = rs)) :
    (s.next i fi).OperandOk rs (s.rsValD rs) := by
  have hnd : s.atomic.state ≠ .complete := by rw [hidle]; decide
  refine ⟨fun hz => by simp [rsValD, hz], hload, fun hz _ => ?_⟩
  rw [next_regBank, regBankNext_eq hz hnd, rsValD, if_pos (by simpa using hz)]
  by_cases h1 : (s.atomic.wbValid && s.atomic.wbRd == rs) = true
  · rw [if_pos h1]
    simp only [Bool.and_eq_true, beq_iff_eq] at h1
    obtain ⟨-, -, hwb, -, hval⟩ := w.written h1.1
    rw [wbReg, if_neg (by simp [hwb]), ← h1.2, hval]
  · rw [if_neg h1, wbReg]
    have hc : s.atomicComplete = false := by simp [atomicComplete, hidle]
    by_cases hm : (s.memWb.valid && s.memWb.wbEn && s.memWb.rd == rs) = true
    · rw [if_pos hm]
      simp only [Bool.and_eq_true, beq_iff_eq] at hm
      rw [if_pos (by simp [wbWe, hm.1.1, hm.1.2, hm.2, hc, hz])]
    · rw [if_neg hm, if_neg]
      simp only [wbWe, Bool.and_eq_true, beq_iff_eq] at hm ⊢
      rintro ⟨⟨⟨⟨hv, he⟩, -⟩, -⟩, hrd⟩
      exact hm ⟨⟨hv, he⟩, hrd⟩

/-- A load in EX keeps an instruction that needs it in ID. -/
theorem no_load_use {rs : BitVec 5} (hstall : s.stallLoadUse = false) (hid : s.id.valid = true)
    (hz : rs ≠ 0#5)
    (hu : (usesRs1 s.decoded = true ∧ s.decoded.rs1 = rs) ∨
      (usesRs2 s.decoded = true ∧ s.decoded.rs2 = rs)) :
    ¬ ((s.exMemOfEx i).valid = true ∧ (s.exMemOfEx i).isLoad = true ∧
      (s.exMemOfEx i).rd = rs) := by
  rintro ⟨hv, hl, hrd⟩
  simp only [exMemOfEx, Bool.and_eq_true] at hv hl hrd
  rcases hu with ⟨hu, hr⟩ | ⟨hu, hr⟩ <;>
    simp [stallLoadUse, hid, hv.1, hl, hu, hr, hrd] at hstall <;> exact hz hstall

/-- Both snapshots stay right. -/
theorem Linked.next_operands (l : Linked s log) (w : s.Wf) (hv : (s.idExNext i).valid = true) :
    (usesRs1 (s.idExNext i).toDecoded = true →
      (s.next i fi).OperandOk (s.idExNext i).rs1 (s.idExNext i).rs1Val) ∧
    (usesRs2 (s.idExNext i).toDecoded = true →
      (s.next i fi).OperandOk (s.idExNext i).rs2 (s.idExNext i).rs2Val) := by
  have hheld : s.idExNext i = s.held →
      ((s.exMemNext i).valid = true → (s.exMemNext i).isLoad = true →
        s.exMemNext i = s.exMem) →
      (s.exMemFwdEn = true → s.exMemNext i = s.exMem ∨ s.memWbNext i = s.movedMemWb i) →
      (s.exMem.isAtomic = true → s.atomic.state ≠ .complete → s.exMemNext i = s.exMem) →
      (usesRs1 (s.idExNext i).toDecoded = true →
        (s.next i fi).OperandOk (s.idExNext i).rs1 (s.idExNext i).rs1Val) ∧
      (usesRs2 (s.idExNext i).toDecoded = true →
        (s.next i fi).OperandOk (s.idExNext i).rs2 (s.idExNext i).rs2Val) := by
    intro hex h1 h2 h3
    have hv' : s.idEx.valid = true := by
      rw [hex] at hv
      exact hv
    rw [hex]
    exact ⟨fun hu => w.operandOk_held (l.rs1 hv' hu) h1 h2 h3,
      fun hu => w.operandOk_held (l.rs2 hv' hu) h1 h2 h3⟩
  cases w.step_cases i with
  | memWait _ _ _ hex hm => exact hheld hex (fun _ _ => hm) (fun _ => .inl hm) (fun _ _ => hm)
  | atomicWait _ _ _ _ hex hm => exact hheld hex (fun _ _ => hm) (fun _ => .inl hm) (fun _ _ => hm)
  | atomicDone hat _ hdone _ hex hm =>
      refine hheld hex (fun h => ?_) (fun h => ?_) (fun _ hnd => absurd hdone hnd)
      · rw [hm] at h
        cases h
      · simp [exMemFwdEn, (w.atomicMem hat).2.2.2] at h
  | mmuWait _ _ hat _ _ hex hm hwb =>
      refine hheld hex (fun h => ?_) (fun _ => .inr hwb) (fun h => ?_)
      · rw [hm] at h
        cases h
      · rw [hat] at h
        cases h
  | divWait _ _ hat _ hdiv _ hex hm hwb =>
      refine hheld hex (fun _ h => ?_) (fun _ => .inr hwb) (fun h => ?_)
      · rw [hm, (l.exMemOfEx_waiting w hdiv).2.1] at h
        cases h
      · rw [hat] at h
        cases h
  | flow _ hidle _ _ _ _ hex hm =>
      by_cases hb : (s.redirects i || s.stallLoadUse) = true
      · rw [hex, if_pos hb] at hv
        cases hv
      · rw [if_neg hb] at hex
        simp only [Bool.not_eq_true, Bool.or_eq_false_iff] at hb
        have hid : s.id.valid = true := by
          rw [hex] at hv
          exact hv
        rw [hex]
        have hu1 : usesRs1 s.idExOfId.toDecoded = true → usesRs1 s.decoded = true :=
          Decoded.usesRs1_gateAtomic s.decoded
        have hu2 : usesRs2 s.idExOfId.toDecoded = true → usesRs2 s.decoded = true :=
          Decoded.usesRs2_gateAtomic s.decoded
        refine ⟨fun hu => w.operandOk_new hidle (fun hz => ?_),
          fun hu => w.operandOk_new hidle (fun hz => ?_)⟩
        · rw [hm]
          exact no_load_use hb.2 hid hz (.inl ⟨hu1 hu, rfl⟩)
        · rw [hm]
          exact no_load_use hb.2 hid hz (.inr ⟨hu2 hu, rfl⟩)

/-! ## The instruction in EX/MEM -/

/-- An instruction that fires without a trap raises no exception. -/
theorem exceptionInfo_of_commits (h : s.commits i = true) : s.exceptionInfo i = none := by
  simp only [commits, Bool.and_eq_true, Bool.not_eq_true', privTrapTaken, PrivCsr.trapTaken,
    privIn] at h
  obtain ⟨hf, ht⟩ := h
  rw [hf, Bool.true_and, Bool.or_eq_false_iff] at ht
  simpa [exceptionReq] using ht.1

/-- What an instruction without an exception is not. -/
theorem clean_of_no_exception (h : s.exceptionInfo i = none) (hv : s.idEx.valid = true)
    (hat : s.stallAtomic = false) :
    s.idEx.illegal = false ∧ s.exMisaligned = false ∧
      (i.dReqReady = true → i.dPageFault = false) ∧ s.exAccessFault i = false := by
  unfold exceptionInfo at h
  simp only [hv, hat, Bool.true_and, Bool.not_false, Bool.and_true] at h
  split at h
  · cases h
  · split at h
    · cases h
    · rename_i hill
      split at h
      · cases h
      · split at h
        · cases h
        · rename_i hmis
          split at h
          · cases h
          · rename_i hpf
            split at h
            · cases h
            · rename_i haf
              simp only [Bool.not_eq_true, Bool.and_eq_false_iff] at hill hmis hpf haf
              refine ⟨hill, hmis, fun hr => ?_, haf⟩
              rcases hpf with hp | hp
              · rw [hp] at hr
                cases hr
              · exact hp

/-- The access of an instruction that fires without a trap has been translated. -/
theorem dXlateReq_of_commits (h : s.commits i = true) (hm : s.idEx.isMem = true) :
    s.dXlateReq = true := by
  have hf : s.exFire i = true := by
    simp only [commits, Bool.and_eq_true] at h
    exact h.1
  obtain ⟨hv, -, hat, -⟩ := exFire_iff.mp hf
  obtain ⟨-, hmis, -⟩ := clean_of_no_exception (exceptionInfo_of_commits h) hv hat
  rw [dXlateReq, hv, hmis]
  simpa [IdEx.isMem] using hm

/-- A memory instruction that fires occupies EX/MEM. -/
theorem Linked.inMem_of_commits (l : Linked s log) (w : s.Wf) (h : s.commits i = true)
    (hm : s.idEx.isMem = true) : InMem (s.exMemOfEx i) (s.fires i (s.answered i log)) := by
  have h' := h
  simp only [commits, Bool.and_eq_true, Bool.not_eq_true'] at h'
  obtain ⟨hf, htrap⟩ := h'
  have hv := (exFire_iff.mp hf).1
  have hop := l.fires_operands (i := i) w hf
  have hx := dXlateReq_of_commits h hm
  have hret : s.privRedirectValid i = false := by
    by_contra hc
    rw [(w.flags.classes.of_return (redirect_of_commits h (by simpa using hc))).1] at hm
    cases hm
  have haddr := hop.exAddr hm
  refine ⟨w.flags, hv, rfl, rfl, rfl, ?_, ?_, ?_, rfl, ?_, ?_, ?_, ?_, ?_⟩
  · simp [exMemOfEx, hv, htrap, fires]
  · simp [exMemOfEx, hv, htrap, fires]
  · simp [exMemOfEx, hv, htrap, fires]
  · simp [exMemOfEx, hx, fires]
  · exact w.exWbEn_of_commits h
  · intro ha hl
    have ha' : s.idEx.isAtomic = true := by
      simp only [exMemOfEx, Bool.and_eq_true] at ha
      exact ha.1.2
    have hl' : s.idEx.isLR = false := by simpa [exMemOfEx, hv, htrap] using hl
    exact (hop.rs2 (by simp [usesRs2, ha', hl'])).symm
  · show s.idEx.exStoreWdata s.exAddr s.exRs2
      = s.idEx.exStoreWdata (s.idEx.exAddr _) _
    rw [haddr, hop.exStoreWdata]
    rfl
  · show s.exStoreWmask i = s.idEx.exStoreMask (s.idEx.exAddr _)
    rw [haddr, exStoreWmask, hret, exHeld_of_exFire hf]
    rfl

theorem InMem.withData {m : ExMem} {f : Fired} (h : InMem m f) (d : Option Word) :
    InMem m { f with data := d } :=
  ⟨h.flags, h.valid, h.rd, h.isLoad, h.isStore, h.isAtomic, h.isLR, h.isSC, h.funct3, h.addr,
    h.wbEn, h.rs2Value, h.storeWdata, h.storeWmask⟩

/-- The list receives the word of an atomic in the cycle in which the atomic unit does. -/
theorem atomicData_next {f : Fired} (hin : InMem s.exMem f) (hat : s.exMem.isAtomic = true)
    (hv : s.exMem.valid = true) (hld : s.exMem.isLoad = false)
    (hnd : s.atomic.state ≠ .complete) (hd : f.data = atomicData s.atomic) :
    (match s.answer i f with
      | some v => some v
      | none => f.data) = atomicData (s.atomicNext i) := by
  have hfa : f.insn.isAtomic = true := by rw [← hin.isAtomic]; exact hat
  have hfl : f.insn.isLoad = false := by rw [← hin.isLoad]; exact hld
  rw [hd, answer, if_neg (by simp [hfl]), if_pos hfa, ← hin.isSC, ← hin.addr]
  cases hst : s.atomic.state with
  | idle =>
      simp only [atomicNext, hst, hv, hat, AtomicUnit.accept, beq_self_eq_true, Bool.and_self,
        if_true, Bool.true_and, atomicData]
      cases hsc : s.exMem.isSC <;> cases hr : s.atomic.holdsReservation s.exMem.addr <;>
        cases s.exMem.isLR <;> simp
  | lrRead =>
      simp only [atomicNext, hst, AtomicUnit.advance, AtomicUnit.busPhase, atomicData]
      cases s.atomic.started <;> cases i.ack <;> simp
  | lrCapture => simp [atomicNext, hst, AtomicUnit.advance, atomicData]
  | scWrite =>
      simp only [atomicNext, hst, AtomicUnit.advance, AtomicUnit.busPhase, atomicData]
      cases s.atomic.started <;> cases i.ack <;> simp
  | amoRead =>
      simp only [atomicNext, hst, AtomicUnit.advance, AtomicUnit.busPhase, atomicData]
      cases s.atomic.started <;> cases i.ack <;> simp
  | amoCapture => simp [atomicNext, hst, AtomicUnit.advance, atomicData]
  | amoWrite =>
      simp only [atomicNext, hst, AtomicUnit.advance, AtomicUnit.busPhase, atomicData]
      cases s.atomic.started <;> cases i.ack <;> simp
  | complete => exact absurd hst hnd

theorem Linked.next_head (l : Linked s log) (w : s.Wf) (hv : (s.exMemNext i).valid = true)
    (hm : ((s.exMemNext i).isLoad || (s.exMemNext i).isStore || (s.exMemNext i).isAtomic)
      = true) :
    ∃ f older, s.logNext i log = f :: older ∧ InMem (s.exMemNext i) f ∧
      (f.insn.isLoad = true → f.data = none) ∧
      (f.insn.isAtomic = true → f.data = atomicData (s.atomicNext i)) := by
  cases w.step_cases i with
  | memWait hmem _ hfire _ he =>
      rw [he] at hv hm ⊢
      have hreq := stallMem_memReq hmem
      have hat : s.exMem.isAtomic = false := by
        by_contra hc
        obtain ⟨-, hl, hst, -⟩ := w.atomicMem (by simpa using hc)
        simp [memReq, hl, hst] at hreq
      obtain ⟨f, older, hlog, hin, hd, -⟩ := l.head hv hm
      rw [logNext_of_not_commits (commits_of_no_fire hfire), l.answered_eq w hat (fun _ _ => hmem)]
      refine ⟨f, older, hlog, hin, hd, fun ha => ?_⟩
      rw [← hin.isAtomic, hat] at ha
      cases ha
  | atomicWait hat _ hnd hfire _ he =>
      rw [he] at hv hm ⊢
      obtain ⟨-, hld, -, -⟩ := w.atomicMem hat
      obtain ⟨f, older, hlog, hin, -, hd⟩ := l.head hv hm
      have hfl : f.insn.isLoad = false := by rw [← hin.isLoad]; exact hld
      have hfa : f.insn.isAtomic = true := by rw [← hin.isAtomic]; exact hat
      have hdata := atomicData_next (i := i) hin hat hv hld hnd (hd hfa)
      rw [logNext_of_not_commits (commits_of_no_fire hfire), hlog, answered]
      refine ⟨_, older, rfl, ?_, fun h => ?_, fun _ => ?_⟩
      · cases s.answer i f with
        | none => exact hin
        | some v => exact hin.withData _
      · have : f.insn.isLoad = true := by
          cases ha : s.answer i f <;> simpa [ha] using h
        rw [hfl] at this
        cases this
      · rw [← hdata]
        cases s.answer i f <;> rfl
  | atomicDone _ _ _ _ _ he =>
      rw [he] at hv
      cases hv
  | mmuWait _ _ _ _ _ _ he =>
      rw [he] at hv
      cases hv
  | divWait _ _ _ _ hdiv _ _ he =>
      obtain ⟨-, h1, h2, h3⟩ := l.exMemOfEx_waiting (i := i) w hdiv
      rw [he, h1, h2, h3] at hm
      cases hm
  | flow _ hidle hat hfire _ _ _ he =>
      rw [he] at hv hm ⊢
      have hc : s.commits i = true := by
        rw [commits, hfire]
        exact hv
      have hmem : s.idEx.isMem = true := by
        simp only [exMemOfEx, Bool.or_eq_true, Bool.and_eq_true] at hm
        simp only [IdEx.isMem, Bool.or_eq_true]
        exact hm.imp (fun h => h) (fun h => h.1.2)
      rw [logNext_of_commits hc]
      refine ⟨_, _, rfl, l.inMem_of_commits w hc hmem, fun _ => rfl, fun _ => ?_⟩
      simp [fires, atomicData, (atomicNext_idle i s hidle hat).1]

/-! ## The division in EX -/

theorem Linked.next_division (l : Linked s log) (w : s.Wf)
    (h : (s.div.next (s.dividerIn i)).busy = true ∨
      (s.div.next (s.dividerIn i)).resultValid = true) :
    ∃ a b, archReg (s.logNext i log) (s.idExNext i).rs1 = some a ∧
      archReg (s.logNext i log) (s.idExNext i).rs2 = some b ∧
      Divider.Correct (divisionOf (s.idExNext i) a b) (s.div.next (s.dividerIn i)) := by
  obtain ⟨hv, hd, hst⟩ := w.next_division h
  have hfire : s.exFire i = false := by simp [exFire, hst]
  have hflush : (s.dividerIn i).flush = false := by
    by_contra hc
    simp only [Bool.not_eq_false] at hc
    rw [w.redirects_exFire hc] at hfire
    cases hfire
  rw [w.idExNext_of_stallDiv hst, logNext_of_not_commits (commits_of_no_fire hfire)]
  by_cases hb : s.div.busy = true
  · obtain ⟨a, b, ha, hb', hc⟩ := l.division (.inl hb)
    refine ⟨a, b, l.archReg_answered w ha, l.archReg_answered w hb', ?_⟩
    exact Divider.next_correct hc (fun _ => hflush) (fun hn => by rw [hb] at hn; cases hn)
  · simp only [Bool.not_eq_true] at hb
    have hstart : (s.dividerIn i).start = true := by
      by_contra hn
      simp only [Bool.not_eq_true] at hn
      obtain ⟨hb', hr'⟩ := Divider.next_idle hb hn
      rw [hb', hr'] at h
      rcases h with h | h <;> cases h
    have hs := hstart
    simp only [dividerIn, Bool.and_eq_true, Bool.not_eq_true'] at hs
    obtain ⟨⟨⟨⟨⟨-, hat⟩, -⟩, -⟩, hrv⟩, -⟩ := hs
    refine ⟨s.exRs1, s.exRs2,
      l.archReg_answered w (l.operand w hat (l.rs1 hv (by simp [usesRs1, hd]))),
      l.archReg_answered w (l.operand w hat (l.rs2 hv (by simp [usesRs2, hd]))), ?_⟩
    refine Divider.next_correct ⟨fun hn => ?_, fun hn => ?_⟩ (fun _ => hflush)
      (fun _ _ => ⟨rfl, rfl, rfl, rfl⟩)
    · rw [hb] at hn
      cases hn
    · rw [hrv] at hn
      cases hn

/-! ## The invariant -/

/-- **The relation between pipeline and list is invariant.** -/
theorem Linked.next (l : Linked s log) (w : s.Wf) (i : CoreIn) (fi : FetchIn) :
    Linked (s.next i fi) (s.logNext i log) where
  head := fun hv hm => l.next_head w hv hm
  regs := fun _ hr hp => l.next_regs w hr hp
  rs1 := fun hv hu => (l.next_operands w hv).1 hu
  rs2 := fun hv hu => (l.next_operands w hv).2 hu
  division := fun h => l.next_division w h

end Core

/-! ## Runs of the core -/

/-- One cycle of the core on its inputs. -/
def coreNext (x : CoreIn × FetchIn) (s : Core) : Core := s.next x.1 x.2

/-- The core before cycle `n` of the run on `inp`. -/
def coreRun (inp : Nat → CoreIn × FetchIn) (n : Nat) : Core :=
  Clocked.run coreNext inp Core.reset n

/-- The instructions that have fired before cycle `n`. -/
def executed (inp : Nat → CoreIn × FetchIn) (n : Nat) : List Fired :=
  Clocked.history coreNext (fun x s log => s.logNext x.1 log) inp Core.reset [] n

theorem coreRun_linked (inp : Nat → CoreIn × FetchIn) (n : Nat) :
    (coreRun inp n).Wf ∧ (coreRun inp n).Linked (executed inp n) :=
  Clocked.history_invariant (P := fun (s : Core) log => s.Wf ∧ s.Linked log) (C := fun _ _ => True)
    ⟨Core.wf_reset, Core.linked_reset⟩
    (fun x _ _ _ h => ⟨h.1.next x.1 x.2, h.2.next h.1 x.1 x.2⟩) (fun _ _ => trivial)

/-- **Operand correctness.** In every cycle of every run in which the instruction in EX fires,
each source operand it uses is the value of its register after exactly the older instructions
in program order. The load that completes in this cycle is among them. -/
theorem operands_architectural (inp : Nat → CoreIn × FetchIn) (n : Nat)
    (hfire : (coreRun inp n).exFire (inp n).1 = true) :
    let s := coreRun inp n
    let log := s.answered (inp n).1 (executed inp n)
    (usesRs1 s.idEx.toDecoded = true → archReg log s.idEx.rs1 = some s.exRs1) ∧
    (usesRs2 s.idEx.toDecoded = true → archReg log s.idEx.rs2 = some s.exRs2) := by
  obtain ⟨w, l⟩ := coreRun_linked inp n
  obtain ⟨hv, -, hat, -⟩ := Core.exFire_iff.mp hfire
  refine ⟨fun hu => ?_, fun hu => ?_⟩
  · exact l.archReg_answered w (l.operand w hat (l.rs1 hv hu))
  · exact l.archReg_answered w (l.operand w hat (l.rs2 hv hu))

/-- A cycle without interrupts in which every access is granted and none is acknowledged. -/
def quietIn : CoreIn :=
  { extIrq := false, swIrq := false, timerIrq := false, extWriteValid := false
    extWriteAddr := 0#32, extWriteSel := 0#4, ack := false, datR := 0#32, dReqReady := true
    dPaddr := dataramBaseAddr, dPageFault := false, dAccessFault := false }

/-- A stream of `addi x1, x1, 1`. -/
def addiStream (_ : Nat) : CoreIn × FetchIn :=
  (quietIn, { rdata := 0x00108093#32, stall := false, fault := false, pageFault := false })

/-- The third instruction of the stream reads the 2 its predecessors have counted to. -/
theorem operands_architectural_addi :
    archReg ((coreRun addiStream 6).answered (addiStream 6).1 (executed addiStream 6)) 1#5
      = some 2#32 :=
  (operands_architectural addiStream 6 (by decide +kernel)).1 (by decide +kernel)

end MelonSoc
