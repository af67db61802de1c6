import MelonSoc.Pipeline.Flags

set_option autoImplicit false

/-! # How the stages move

The clock edge of the back end in one case analysis. What ID/EX, EX/MEM and MEM/WB become
depends on the stalls alone, and the stalls exclude each other as far as `Core.Wf` says: the
MEM stage waits for its acknowledge, the atomic unit works on the instruction in EX/MEM, EX
waits for a translation or for the divider, or everything moves. `Core.StepCase` lists these
cases with what every one of them does to the three stages.
-/

namespace MelonSoc

namespace Core

/-! ## The clock edge by register -/

section Next

variable (i : CoreIn) (f : FetchIn) (s : Core)

@[simp] theorem next_fe : (s.next i f).fe = s.frontendNext i f := rfl
@[simp] theorem next_id : (s.next i f).id = s.idNext i := rfl
@[simp] theorem next_idEx : (s.next i f).idEx = s.idExNext i := rfl
@[simp] theorem next_exMem : (s.next i f).exMem = s.exMemNext i := rfl
@[simp] theorem next_memWb : (s.next i f).memWb = s.memWbNext i := rfl
@[simp] theorem next_atomic : (s.next i f).atomic = s.atomicNext i := rfl
@[simp] theorem next_memStarted : (s.next i f).memStarted = s.memStartedNext i := rfl
@[simp] theorem next_regBank : (s.next i f).regBank = s.regBankNext := rfl
@[simp] theorem next_div : (s.next i f).div = s.div.next (s.dividerIn i) := rfl
@[simp] theorem next_csr : (s.next i f).csr = s.csr.next (s.privIn i) := rfl

end Next

/-- ID/EX when EX is held: the operand snapshot is refreshed. -/
def held (s : Core) : IdEx :=
  { s.idEx with
    rs1Val := s.holdOperand s.idEx.rs1 s.idEx.rs1Val
    rs2Val := s.holdOperand s.idEx.rs2 s.idEx.rs2Val }

/-- MEM/WB when EX/MEM moves on. -/
def movedMemWb (i : CoreIn) (s : Core) : MemWb :=
  { valid := s.exMem.valid, rd := s.exMem.rd, isLoad := s.exMem.isLoad
    funct3 := s.exMem.funct3, addrLow := s.exMem.addr.extractLsb' 0 2, loadWord := i.datR
    wbEn := s.exMem.wbEn, wbValue := s.exMem.wbValue }

/-! ## Well-formed registers -/

/-- The coupling between the stages, the atomic unit, the MEM handshake and the divider. -/
structure Wf (s : Core) : Prop where
  flags : s.idEx.Decodes
  atomicMem : s.exMem.isAtomic = true →
    s.exMem.valid = true ∧ s.exMem.isLoad = false ∧ s.exMem.isStore = false ∧
      s.exMem.wbEn = false
  busy : s.atomic.state ≠ .idle →
    s.exMem.isAtomic = true ∧ s.atomic.rd = s.exMem.rd ∧ s.memWb.valid = false
  taken : s.atomic.state ≠ .idle →
    s.atomic.addr = s.exMem.addr ∧ s.atomic.storeData = s.exMem.rs2Value ∧
      s.atomic.op = s.exMem.amoOp
  started : s.atomic.started = true → s.atomicBus = true
  memStarted : s.memStarted = true → s.memReq = true
  divBusy : s.div.busy = true → s.idEx.valid = true ∧ s.idEx.isDIV = true
  divResult : s.div.resultValid = true → s.idEx.valid = true ∧ s.idEx.isDIV = true
  written : s.atomic.wbValid = true →
    s.atomic.state = .idle ∧ s.exMem.valid = false ∧ s.memWb.valid = false ∧
      s.atomic.wbRd ≠ 0#5 ∧ s.regBank s.atomic.wbRd = s.atomic.wbValue

theorem wf_reset : Core.reset.Wf where
  flags := IdEx.decodes_reset
  atomicMem := by intro h; cases h
  busy := fun h => absurd rfl h
  taken := fun h => absurd rfl h
  started := by intro h; cases h
  memStarted := by intro h; cases h
  divBusy := by intro h; cases h
  divResult := by intro h; cases h
  written := by intro h; cases h

/-! ## Stalls and redirects -/

section Stalls

variable {i : CoreIn} {s : Core}

theorem atomicComplete_iff : s.atomicComplete = true ↔ s.atomic.state = .complete := by
  simp [atomicComplete]

/-- The atomic unit and the MEM handshake are never busy together. -/
theorem Wf.idle_of_memReq (w : s.Wf) (h : s.memReq = true) : s.atomic.state = .idle := by
  by_contra hne
  obtain ⟨hl, hs⟩ := (w.atomicMem (w.busy hne).1).2
  simp [memReq, hl, hs] at h

theorem Wf.isAtomic_of_stallAtomic (w : s.Wf) (h : s.stallAtomic = true) :
    s.exMem.isAtomic = true := by
  simp only [stallAtomic, Bool.or_eq_true, bne_iff_ne, Bool.and_eq_true] at h
  rcases h with h | h
  · exact (w.busy h).1
  · exact h.2

theorem Wf.stallAtomic_iff (w : s.Wf) : s.stallAtomic = true ↔ s.exMem.isAtomic = true := by
  refine ⟨w.isAtomic_of_stallAtomic, fun h => ?_⟩
  simp [stallAtomic, h, (w.atomicMem h).1]

theorem stallMem_memReq (h : s.stallMem i = true) : s.memReq = true := by
  simp only [stallMem, Bool.and_eq_true] at h
  exact h.1

theorem Wf.stallDiv_isDIV (w : s.Wf) (h : s.stallDiv = true) :
    s.idEx.valid = true ∧ s.idEx.isDIV = true := by
  simp only [stallDiv, Bool.or_eq_true, Bool.and_eq_true] at h
  rcases h with h | h
  · exact w.divBusy h
  · exact ⟨h.1.2, h.1.1⟩

theorem exFire_iff : s.exFire i = true ↔
    s.idEx.valid = true ∧ s.stallMem i = false ∧ s.stallAtomic = false ∧ s.stallDiv = false ∧
      s.stallMmu i = false := by
  simp only [exFire, Bool.and_eq_true, Bool.not_eq_true', and_assoc]

theorem privTrapTaken_exFire (h : s.privTrapTaken i = true) : s.exFire i = true := by
  simp only [privTrapTaken, PrivCsr.trapTaken, Bool.and_eq_true] at h
  exact h.1

theorem privRedirectValid_exFire (h : s.privRedirectValid i = true) : s.exFire i = true := by
  simp only [privRedirectValid, PrivCsr.redirectValid, Bool.or_eq_true] at h
  rcases h with h | h
  · exact privTrapTaken_exFire h
  · simp only [PrivCsr.returnTaken, Bool.and_eq_true] at h
    exact h.1.1.1

theorem exJump_eq_none {rs1 rs2 : Word} (h : s.idEx.isJump = false) :
    s.exJump rs1 rs2 = none := by
  simp only [IdEx.isJump, Bool.or_eq_false_iff] at h
  simp [exJump, h]

theorem redirects_of_exHeld (h : s.exHeld i = true) : s.redirects i = false := by
  simp [redirects, exRedirect, h]

/-- A redirect comes from the instruction that fires. -/
theorem Wf.redirects_exFire (w : s.Wf) (h : s.redirects i = true) : s.exFire i = true := by
  by_contra hne
  have hpriv : s.privRedirectValid i = false := by
    by_contra hp
    exact hne (privRedirectValid_exFire (by simpa using hp))
  have hheld : s.exHeld i = false := by
    by_contra hh
    rw [redirects_of_exHeld (by simpa using hh)] at h
    cases h
  rw [redirects, exRedirect, if_neg (by simp [hheld]), if_neg (by simp [hpriv])] at h
  have hvalid : s.idEx.valid = true := by
    by_contra hv
    simp [exJump, hv] at h
  simp only [exHeld, Bool.or_eq_false_iff] at hheld
  -- only the divider can hold an instruction back now, and a division is no jump
  have hdiv : s.stallDiv = true := by
    by_contra hd
    exact hne (exFire_iff.mpr ⟨hvalid, hheld.1.1, hheld.1.2, by simpa using hd, hheld.2⟩)
  obtain ⟨-, -, hj⟩ := w.flags.classes.of_div (w.stallDiv_isDIV hdiv).2
  rw [exJump_eq_none hj] at h
  cases h

end Stalls

/-! ## The cases of a step -/

/-- What a clock edge does to ID/EX, EX/MEM and MEM/WB. -/
inductive StepCase (i : CoreIn) (s : Core) : Prop
  /-- MEM waits for the acknowledge of a load or store. -/
  | memWait (mem : s.stallMem i = true) (idle : s.atomic.state = .idle)
      (fire : s.exFire i = false) (ex : s.idExNext i = s.held)
      (exMem : s.exMemNext i = s.exMem) (wb : s.memWbNext i = s.memWb)
  /-- The atomic unit takes up or works on the instruction in EX/MEM. -/
  | atomicWait (isAtomic : s.exMem.isAtomic = true) (mem : s.memReq = false)
      (notDone : s.atomic.state ≠ .complete) (fire : s.exFire i = false)
      (ex : s.idExNext i = s.held) (exMem : s.exMemNext i = s.exMem)
      (wb : s.memWbNext i = { s.memWb with valid := false })
  /-- The atomic unit has finished. -/
  | atomicDone (isAtomic : s.exMem.isAtomic = true) (mem : s.memReq = false)
      (complete : s.atomic.state = .complete) (fire : s.exFire i = false)
      (ex : s.idExNext i = s.held)
      (exMem : s.exMemNext i
        = { s.exMem with valid := false, isAtomic := false, isLR := false, isSC := false })
      (wb : s.memWbNext i = { s.memWb with valid := false })
  /-- EX waits for a translation and MEM drains. -/
  | mmuWait (mem : s.stallMem i = false) (idle : s.atomic.state = .idle)
      (noAtomic : s.exMem.isAtomic = false) (fire : s.exFire i = false)
      (mmu : s.stallMmu i = true)
      (ex : s.idExNext i = s.held)
      (exMem : s.exMemNext i = { s.exMem with valid := false, isLoad := false, isStore := false })
      (wb : s.memWbNext i = s.movedMemWb i)
  /-- EX waits for the divider; a copy of the division without a result moves on. -/
  | divWait (mem : s.stallMem i = false) (idle : s.atomic.state = .idle)
      (noAtomic : s.exMem.isAtomic = false) (fire : s.exFire i = false)
      (div : s.stallDiv = true) (mmu : s.stallMmu i = false) (ex : s.idExNext i = s.held)
      (exMem : s.exMemNext i = s.exMemOfEx i) (wb : s.memWbNext i = s.movedMemWb i)
  /-- Everything moves. -/
  | flow (mem : s.stallMem i = false) (idle : s.atomic.state = .idle)
      (noAtomic : s.exMem.isAtomic = false) (fire : s.exFire i = s.idEx.valid)
      (div : s.stallDiv = false) (mmu : s.stallMmu i = false)
      (ex : s.idExNext i = if s.redirects i || s.stallLoadUse then { s.idEx with valid := false }
        else s.idExOfId)
      (exMem : s.exMemNext i = s.exMemOfEx i) (wb : s.memWbNext i = s.movedMemWb i)

theorem idExNext_of_held {i : CoreIn} {s : Core} (hr : s.redirects i = false)
    (hs : s.stallDiv = true ∨ s.stallMem i = true ∨ s.stallAtomic = true ∨ s.stallMmu i = true) :
    s.idExNext i = s.held := by
  rw [idExNext, if_neg (by simp [hr]), if_pos (by simpa [or_assoc] using hs)]
  rfl

/-- Every step is one of the cases. -/
theorem Wf.step_cases {s : Core} (w : s.Wf) (i : CoreIn) : s.StepCase i := by
  have hnofire : s.exFire i = false → s.redirects i = false := by
    intro hf
    by_contra hr
    rw [w.redirects_exFire (by simpa using hr)] at hf
    cases hf
  have hcomplete : ∀ st, s.atomic.state = st → s.atomicComplete = (st == .complete) := by
    intro st hst
    rw [atomicComplete, hst]
  by_cases hmem : s.stallMem i = true
  · -- a load or store waits
    have hreq := stallMem_memReq hmem
    have hidle := w.idle_of_memReq hreq
    have hfire : s.exFire i = false := by simp [exFire, hmem]
    have hc := hcomplete _ hidle
    refine .memWait hmem hidle hfire (idExNext_of_held (hnofire hfire) (.inr (.inl hmem))) ?_ ?_
    · simp [exMemNext, hmem, hc]
    · simp [memWbNext, hmem, hc]
  · simp only [Bool.not_eq_true] at hmem
    by_cases hat : s.exMem.isAtomic = true
    · have hstall := w.stallAtomic_iff.mpr hat
      have hfire : s.exFire i = false := by simp [exFire, hstall]
      have hreq : s.memReq = false := by simp [memReq, (w.atomicMem hat).2.1, (w.atomicMem hat).2.2.1]
      have hex := idExNext_of_held (hnofire hfire) (.inr (.inr (.inl hstall)))
      by_cases hdone : s.atomic.state = .complete
      · have hc := hcomplete _ hdone
        refine .atomicDone hat hreq hdone hfire hex ?_ ?_
        · simp [exMemNext, hat, hc]
        · simp [memWbNext, hc]
      · have hc : s.atomicComplete = false := by simpa [atomicComplete] using hdone
        refine .atomicWait hat hreq hdone hfire hex ?_ ?_
        · simp [exMemNext, hat, hc]
        · simp [memWbNext, hat, hc, hmem]
    · simp only [Bool.not_eq_true] at hat
      have hidle : s.atomic.state = .idle := by
        by_contra hne
        rw [(w.busy hne).1] at hat
        cases hat
      have hc := hcomplete _ hidle
      have hstall : s.stallAtomic = false := by simp [stallAtomic, hidle, hat]
      have hwb : s.memWbNext i = s.movedMemWb i := by
        simp [memWbNext, hat, hc, hmem, hidle, movedMemWb]
      by_cases hmmu : s.stallMmu i = true
      · have hfire : s.exFire i = false := by simp [exFire, hmmu]
        refine .mmuWait hmem hidle hat hfire hmmu
          (idExNext_of_held (hnofire hfire) (.inr (.inr (.inr hmmu)))) ?_ hwb
        simp [exMemNext, hmem, hmmu, hat, hc, hidle]
      · simp only [Bool.not_eq_true] at hmmu
        have hexMem : s.exMemNext i = s.exMemOfEx i := by
          simp [exMemNext, hmem, hmmu, hat, hc, hidle]
        by_cases hdiv : s.stallDiv = true
        · have hfire : s.exFire i = false := by simp [exFire, hdiv]
          exact .divWait hmem hidle hat hfire hdiv hmmu
            (idExNext_of_held (hnofire hfire) (.inl hdiv)) hexMem hwb
        · simp only [Bool.not_eq_true] at hdiv
          have hfire : s.exFire i = s.idEx.valid := by simp [exFire, hmem, hstall, hdiv, hmmu]
          refine .flow hmem hidle hat hfire hdiv hmmu ?_ hexMem hwb
          rw [idExNext]
          cases s.redirects i <;> cases s.stallLoadUse <;> simp [hdiv, hmem, hstall, hmmu]

/-! ## The atomic unit -/

section Atomic

variable (i : CoreIn) (s : Core)

@[simp] theorem atomicNext_wbValid :
    (s.atomicNext i).wbValid = (s.atomicComplete && s.atomic.rd != 0#5) := by
  simp only [atomicNext, AtomicUnit.accept, AtomicUnit.advance, AtomicUnit.busPhase]
  repeat' split
  all_goals rfl

/-- An idle unit stays idle without an atomic in EX/MEM. -/
theorem atomicNext_idle (h : s.atomic.state = .idle) (hn : s.exMem.isAtomic = false) :
    (s.atomicNext i).state = .idle ∧ (s.atomicNext i).started = false := by
  simp [atomicNext, AtomicUnit.advance, h, hn]

/-- The unit takes up the atomic in EX/MEM. -/
theorem atomicNext_accept (h : s.atomic.state = .idle) (hv : s.exMem.valid = true)
    (ha : s.exMem.isAtomic = true) :
    (s.atomicNext i).state ≠ .idle ∧ (s.atomicNext i).rd = s.exMem.rd ∧
      (s.atomicNext i).started = false := by
  simp only [atomicNext, h, hv, ha, AtomicUnit.accept]
  simp only [beq_self_eq_true, Bool.and_self, if_true]
  repeat' split
  all_goals simp

/-- A busy unit keeps its destination register and stays busy until it has finished. -/
theorem atomicNext_busy (h : s.atomic.state ≠ .idle) (hc : s.atomic.state ≠ .complete) :
    (s.atomicNext i).state ≠ .idle ∧ (s.atomicNext i).rd = s.atomic.rd := by
  cases hs : s.atomic.state <;>
    simp_all [atomicNext, AtomicUnit.advance, AtomicUnit.busPhase] <;>
    (repeat' split) <;> simp_all

/-- The unit keeps the operands it has taken up. -/
theorem atomicNext_operands (h : s.atomic.state ≠ .idle) :
    (s.atomicNext i).addr = s.atomic.addr ∧ (s.atomicNext i).storeData = s.atomic.storeData ∧
      (s.atomicNext i).op = s.atomic.op := by
  cases hs : s.atomic.state <;>
    simp_all [atomicNext, AtomicUnit.advance, AtomicUnit.busPhase] <;>
    (repeat' split) <;> simp_all

theorem atomicNext_taken (h : s.atomic.state = .idle) (hv : s.exMem.valid = true)
    (ha : s.exMem.isAtomic = true) :
    (s.atomicNext i).addr = s.exMem.addr ∧ (s.atomicNext i).storeData = s.exMem.rs2Value ∧
      (s.atomicNext i).op = s.exMem.amoOp := by
  simp only [atomicNext, h, hv, ha, AtomicUnit.accept]
  simp only [beq_self_eq_true, Bool.and_self, if_true]
  repeat' split
  all_goals simp

/-- A finished unit hands its result to the write-back registers. -/
theorem atomicNext_complete (h : s.atomic.state = .complete) :
    (s.atomicNext i).state = .idle ∧ (s.atomicNext i).wbRd = s.atomic.rd ∧
      (s.atomicNext i).wbValue = s.atomic.result ∧
      (s.atomicNext i).started = s.atomic.started := by
  simp [atomicNext, AtomicUnit.advance, h]

/-- The strobe is up only in the states with a request on the bus. -/
theorem atomicNext_started (h : s.atomic.started = true → s.atomicBus = true)
    (hn : (s.atomicNext i).started = true) :
    (s.atomicNext i).state = .lrRead ∨ (s.atomicNext i).state = .scWrite ∨
      (s.atomicNext i).state = .amoRead ∨ (s.atomicNext i).state = .amoWrite := by
  revert hn
  simp only [atomicNext, AtomicUnit.accept, AtomicUnit.advance, AtomicUnit.busPhase]
  cases hs : s.atomic.state <;> simp_all [atomicBus] <;> (repeat' split) <;> simp_all

end Atomic

/-! ## The invariant -/

section Invariant

variable {i : CoreIn} {f : FetchIn} {s : Core}

theorem idExNext_decodes (h : s.idEx.Decodes) : (s.idExNext i).Decodes := by
  unfold idExNext
  split
  · exact h
  · split
    · exact h
    · split
      · exact h
      · exact ⟨s.id.valid, s.id.illegal, rfl⟩

/-- An atomic that enters EX/MEM writes no register in WB. -/
theorem Wf.exMemOfEx_atomic (w : s.Wf) (h : (s.exMemOfEx i).isAtomic = true) :
    (s.exMemOfEx i).valid = true ∧ (s.exMemOfEx i).isLoad = false ∧
      (s.exMemOfEx i).isStore = false ∧ (s.exMemOfEx i).wbEn = false := by
  simp only [exMemOfEx, Bool.and_eq_true] at h
  obtain ⟨⟨hv, ha⟩, ht⟩ := h
  obtain ⟨hl, hs, hd, hw, -⟩ := w.flags.classes.of_atomic ha
  refine ⟨by simp [exMemOfEx, hv, ht], hl, hs, ?_⟩
  have hen : s.idEx.exWriteEn s.div.resultValid = false := by
    grind [IdEx.exWriteEn, IdEx.plainWrite]
  simp [exMemOfEx, exWbEn, hen]

/-- A divider that works or presents a result has its division in EX. -/
theorem Wf.next_division (w : s.Wf)
    (h : (s.div.next (s.dividerIn i)).busy = true ∨
      (s.div.next (s.dividerIn i)).resultValid = true) :
    s.idEx.valid = true ∧ s.idEx.isDIV = true ∧ s.stallDiv = true := by
  by_cases hb : s.div.busy = true
  · exact ⟨(w.divBusy hb).1, (w.divBusy hb).2, by simp [stallDiv, hb]⟩
  · by_cases hst : (s.dividerIn i).start = true
    · simp only [dividerIn, Bool.and_eq_true, Bool.not_eq_true'] at hst
      obtain ⟨⟨⟨⟨-, hd⟩, hv⟩, hr⟩, -⟩ := hst
      exact ⟨hv, hd, by simp [stallDiv, hd, hv, hr]⟩
    · -- nothing starts, so a result can only be withdrawn
      simp only [Bool.not_eq_true] at hb hst
      obtain ⟨hb', hr'⟩ := Divider.next_idle hb hst
      rw [hb', hr'] at h
      rcases h with h | h <;> cases h

/-- The instruction in EX stays while the divider is busy with it. -/
theorem Wf.idExNext_of_stallDiv (w : s.Wf) (h : s.stallDiv = true) : s.idExNext i = s.held := by
  cases w.step_cases i with
  | flow _ _ _ _ hdiv =>
      rw [h] at hdiv
      cases hdiv
  | memWait _ _ _ hex => exact hex
  | atomicWait _ _ _ _ hex => exact hex
  | atomicDone _ _ _ _ hex => exact hex
  | mmuWait _ _ _ _ _ hex => exact hex
  | divWait _ _ _ _ _ _ hex => exact hex

theorem Wf.next_divides (w : s.Wf)
    (h : (s.div.next (s.dividerIn i)).busy = true ∨
      (s.div.next (s.dividerIn i)).resultValid = true) :
    (s.idExNext i).valid = true ∧ (s.idExNext i).isDIV = true := by
  obtain ⟨hv, hd, hst⟩ := w.next_division h
  rw [w.idExNext_of_stallDiv hst]
  exact ⟨hv, hd⟩

/-- The strobe of the MEM stage goes up only for a request that stays. -/
theorem stallMem_of_memStartedNext (h : s.memStartedNext i = true) :
    s.stallMem i = true := by
  unfold memStartedNext at h
  cases hr : s.redirects i <;> cases hq : s.memReq <;> cases hs : s.memStarted <;>
    cases ha : i.ack <;> simp [hr, hq, hs, ha, stallMem] at h ⊢

theorem regBankNext_complete (h : s.atomic.state = .complete) (hrd : s.atomic.rd ≠ 0#5) :
    s.regBankNext s.atomic.rd = s.atomic.result := by
  simp [regBankNext, atomicComplete, h, hrd]

/-- **The coupling is invariant.** -/
theorem Wf.next (w : s.Wf) (i : CoreIn) (f : FetchIn) : (s.next i f).Wf where
  flags := idExNext_decodes w.flags
  atomicMem := by
    rw [next_exMem]
    cases w.step_cases i with
    | memWait _ _ _ _ hm => rw [hm]; exact w.atomicMem
    | atomicWait _ _ _ _ _ hm => rw [hm]; exact w.atomicMem
    | atomicDone _ _ _ _ _ hm => rw [hm]; intro h; cases h
    | mmuWait _ _ hat _ _ _ hm => rw [hm]; intro h; exact absurd h (by simp [hat])
    | divWait _ _ _ _ _ _ _ hm => rw [hm]; exact w.exMemOfEx_atomic
    | flow _ _ _ _ _ _ _ hm => rw [hm]; exact w.exMemOfEx_atomic
  busy := by
    rw [next_exMem, next_atomic, next_memWb]
    intro hne
    cases w.step_cases i with
    | memWait hmem hidle _ _ hm =>
        have hat : s.exMem.isAtomic = false := by
          by_contra hc
          obtain ⟨-, hl, hs, -⟩ := w.atomicMem (by simpa using hc)
          have hreq := stallMem_memReq hmem
          simp [memReq, hl, hs] at hreq
        exact absurd (atomicNext_idle i s hidle hat).1 hne
    | atomicWait hat _ hnd _ _ hm hwb =>
        rw [hm, hwb]
        refine ⟨hat, ?_, rfl⟩
        by_cases hi : s.atomic.state = .idle
        · exact (atomicNext_accept i s hi (w.atomicMem hat).1 hat).2.1
        · rw [(atomicNext_busy i s hi hnd).2]
          exact (w.busy hi).2.1
    | atomicDone _ _ hdone => exact absurd (atomicNext_complete i s hdone).1 hne
    | mmuWait _ hidle hat => exact absurd (atomicNext_idle i s hidle hat).1 hne
    | divWait _ hidle hat => exact absurd (atomicNext_idle i s hidle hat).1 hne
    | flow _ hidle hat => exact absurd (atomicNext_idle i s hidle hat).1 hne
  taken := by
    rw [next_exMem, next_atomic]
    intro hne
    by_cases hat : s.exMem.isAtomic = true
    · cases w.step_cases i with
      | atomicWait _ _ _ _ _ hm =>
          rw [hm]
          by_cases hi : s.atomic.state = .idle
          · exact atomicNext_taken i s hi (w.atomicMem hat).1 hat
          · obtain ⟨h1, h2, h3⟩ := atomicNext_operands i s hi
            rw [h1, h2, h3]
            exact w.taken hi
      | atomicDone _ _ hdone => exact absurd (atomicNext_complete i s hdone).1 hne
      | memWait hmem =>
          have hreq := stallMem_memReq hmem
          simp [memReq, (w.atomicMem hat).2.1, (w.atomicMem hat).2.2.1] at hreq
      | mmuWait _ _ hno => rw [hat] at hno; cases hno
      | divWait _ _ hno => rw [hat] at hno; cases hno
      | flow _ _ hno => rw [hat] at hno; cases hno
    · -- without an atomic the unit is idle and stays so
      simp only [Bool.not_eq_true] at hat
      have hidle : s.atomic.state = .idle := by
        by_contra hb
        rw [(w.busy hb).1] at hat
        cases hat
      exact absurd (atomicNext_idle i s hidle hat).1 hne
  started := by
    intro h
    have hb := atomicNext_started i s w.started h
    simp only [atomicBus, next_atomic, Bool.or_eq_true, beq_iff_eq]
    rcases hb with h | h | h | h <;> simp [h]
  memStarted := by
    intro h
    have hmem := stallMem_of_memStartedNext h
    cases w.step_cases i with
    | memWait _ _ _ _ hm =>
        rw [memReq, next_exMem, hm]
        exact stallMem_memReq hmem
    | atomicWait _ hreq => simp [stallMem, hreq] at hmem
    | atomicDone _ hreq => simp [stallMem, hreq] at hmem
    | mmuWait hno => rw [hmem] at hno; cases hno
    | divWait hno => rw [hmem] at hno; cases hno
    | flow hno => rw [hmem] at hno; cases hno
  divBusy := fun h => w.next_divides (.inl h)
  divResult := fun h => w.next_divides (.inr h)
  written := by
    rw [next_exMem, next_atomic, next_memWb, next_regBank, atomicNext_wbValid]
    intro h
    simp only [Bool.and_eq_true, atomicComplete_iff, bne_iff_ne, ne_eq] at h
    obtain ⟨hdone, hrd⟩ := h
    obtain ⟨hst, hwr, hwv, -⟩ := atomicNext_complete i s hdone
    rw [hst, hwr, hwv]
    have hnidle : s.atomic.state ≠ .idle := by rw [hdone]; decide
    cases w.step_cases i with
    | atomicDone _ _ _ _ _ hm hwb =>
        rw [hm, hwb]
        exact ⟨rfl, rfl, rfl, hrd, regBankNext_complete hdone hrd⟩
    | atomicWait _ _ hnd => exact absurd hdone hnd
    | memWait _ hidle => exact absurd hidle hnidle
    | mmuWait _ hidle => exact absurd hidle hnidle
    | divWait _ hidle => exact absurd hidle hnidle
    | flow _ hidle => exact absurd hidle hnidle

end Invariant

end Core

end MelonSoc
