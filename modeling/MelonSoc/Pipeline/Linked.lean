import MelonSoc.Pipeline.History

set_option autoImplicit false

/-! # The pipeline and the list of executed instructions

`Linked s log` says how the registers of the pipeline stand for the instructions in `log`. The
newest instruction of the list is in EX/MEM as long as it waits for `core_data`; every other
one has left its result in EX/MEM, MEM/WB or the register file, youngest first. An operand
snapshot in ID/EX is the register file, unless a younger copy is on the way, and the divider
works on the operands of the division in EX.
-/

namespace MelonSoc

namespace Core

/-! ## Where a register is -/

/-- Register `r` seen from behind MEM: MEM/WB over the register file. -/
def wbReg (s : Core) (r : BitVec 5) : Word :=
  if s.memWb.valid && s.memWb.wbEn && s.memWb.rd == r then s.wbValue else s.regBank r

/-- Register `r` seen from EX: EX/MEM over MEM/WB over the register file. -/
def pipeReg (s : Core) (r : BitVec 5) : Word :=
  if s.exMemFwdEn && s.exMem.rd == r then s.exMem.wbValue else s.wbReg r

/-- The instruction in EX/MEM will write `r` but does not have the value yet. -/
def pending (s : Core) (r : BitVec 5) : Bool :=
  s.exMem.valid && (s.exMem.isLoad || s.exMem.isAtomic) && s.exMem.rd == r

/-- A stage behind EX holds or will hold a younger value of `r` than the register file. -/
def inFlight (s : Core) (r : BitVec 5) : Bool :=
  (s.exMemFwdEn && s.exMem.rd == r) || (s.memWb.valid && s.memWb.wbEn && s.memWb.rd == r) ||
  (s.atomic.wbValid && s.atomic.wbRd == r) || (s.exMem.isAtomic && s.exMem.rd == r)

/-! ## The relation -/

/-- The memory instruction `f` occupies EX/MEM. -/
structure InMem (m : ExMem) (f : Fired) : Prop where
  flags : f.insn.Decodes
  valid : f.insn.valid = true
  rd : m.rd = f.insn.rd
  isLoad : m.isLoad = f.insn.isLoad
  isStore : m.isStore = f.insn.isStore
  isAtomic : m.isAtomic = f.insn.isAtomic
  isLR : m.isLR = f.insn.isLR
  isSC : m.isSC = f.insn.isSC
  funct3 : m.funct3 = f.insn.funct3
  addr : m.addr = f.paddr
  wbEn : m.wbEn = (f.insn.writesReg && !f.insn.isAtomic)
  rs2Value : m.isAtomic = true → m.isLR = false → m.rs2Value = f.rs2
  storeWdata : m.storeWdata = f.insn.exStoreWdata (f.insn.exAddr f.rs1) f.rs2
  storeWmask : m.storeWmask = f.insn.exStoreMask (f.insn.exAddr f.rs1)

/-- The word the atomic unit has for its instruction, if it has one. -/
def atomicData (a : AtomicUnit) : Option Word :=
  if a.state = .amoWrite ∨ a.state = .complete then some a.result else none

/-- A source operand of the instruction in EX: its register `rs` and the snapshot. -/
structure OperandOk (s : Core) (rs : BitVec 5) (value : Word) : Prop where
  zero : rs = 0#5 → value = 0#32
  noLoad : rs ≠ 0#5 → ¬ (s.exMem.valid = true ∧ s.exMem.isLoad = true ∧ s.exMem.rd = rs)
  snapshot : rs ≠ 0#5 → s.inFlight rs = false → value = s.regBank rs

/-- A division with the operands `a` and `b`, as `divider.sv` sees it. -/
def divisionOf (e : IdEx) (a b : Word) : DividerIn :=
  { start := false, flush := false, dividend := a, divisor := b
    isSigned := !e.funct3.getLsbD 0, isRem := e.funct3.getLsbD 1 }

/-- The registers of the pipeline stand for the instructions of `log`. -/
structure Linked (s : Core) (log : List Fired) : Prop where
  head : s.exMem.valid = true →
    (s.exMem.isLoad || s.exMem.isStore || s.exMem.isAtomic) = true →
    ∃ f older, log = f :: older ∧ InMem s.exMem f ∧
      (f.insn.isLoad = true → f.data = none) ∧
      (f.insn.isAtomic = true → f.data = atomicData s.atomic)
  regs : ∀ r, r ≠ 0#5 → s.pending r = false → archReg log r = some (s.pipeReg r)
  rs1 : s.idEx.valid = true → usesRs1 s.idEx.toDecoded = true →
    s.OperandOk s.idEx.rs1 s.idEx.rs1Val
  rs2 : s.idEx.valid = true → usesRs2 s.idEx.toDecoded = true →
    s.OperandOk s.idEx.rs2 s.idEx.rs2Val
  division : (s.div.busy = true ∨ s.div.resultValid = true) →
    ∃ a b, archReg log s.idEx.rs1 = some a ∧ archReg log s.idEx.rs2 = some b ∧
      Divider.Correct (divisionOf s.idEx a b) s.div

theorem linked_reset : Linked Core.reset [] where
  head := by intro h; cases h
  regs := by
    intro r hr _
    unfold archReg
    simp [hr, pipeReg, exMemFwdEn, wbReg, reset, ExMem.reset, MemWb.reset]
  rs1 := by intro h; cases h
  rs2 := by intro h; cases h
  division := by rintro (h | h) <;> cases h

/-! ## Forwarding -/

section Forwarding

variable {i : CoreIn} {s : Core} {log : List Fired}

/-- The forwarding network selects the youngest copy, or the snapshot. -/
theorem Wf.exForward_eq (w : s.Wf) {rs : BitVec 5} {value : Word} (hat : s.exMem.isAtomic = false)
    (ok : s.OperandOk rs value) :
    s.exForward rs value = if rs = 0#5 then 0#32 else s.pipeReg rs := by
  by_cases hz : rs = 0#5
  · subst hz
    have h1 : (s.atomic.wbValid && s.atomic.wbRd == 0#5) = false := by
      by_contra hc
      simp only [Bool.not_eq_false, Bool.and_eq_true, beq_iff_eq] at hc
      exact (w.written hc.1).2.2.2.1 hc.2
    have h2 : (s.exMemFwdEn && s.exMem.rd == 0#5) = false := by
      by_contra hc
      simp [exMemFwdEn] at hc
    have h3 : (s.memWb.valid && s.memWb.wbEn && s.memWb.rd != 0#5 && s.memWb.rd == 0#5)
        = false := by
      by_contra hc
      simp at hc
    rw [exForward, h1, h2, h3, if_pos rfl]
    simpa using ok.zero rfl
  · rw [if_neg hz, exForward]
    by_cases h1 : (s.atomic.wbValid && s.atomic.wbRd == rs) = true
    · -- the stages behind EX are empty, and the atomic's result is in the register file
      rw [if_pos h1]
      simp only [Bool.and_eq_true, beq_iff_eq] at h1
      obtain ⟨-, hm, hwb, -, hval⟩ := w.written h1.1
      rw [← h1.2] at hz ⊢
      simp [pipeReg, exMemFwdEn, wbReg, hm, hwb, hval]
    · rw [if_neg h1]
      simp only [Bool.not_eq_true] at h1
      by_cases h2 : (s.exMemFwdEn && s.exMem.rd == rs) = true
      · rw [if_pos h2, pipeReg, if_pos h2]
      · rw [if_neg h2, pipeReg, if_neg h2, wbReg]
        simp only [Bool.not_eq_true] at h2
        by_cases h3 : (s.memWb.valid && s.memWb.wbEn && s.memWb.rd == rs) = true
        · have h3' : (s.memWb.valid && s.memWb.wbEn && s.memWb.rd != 0#5 && s.memWb.rd == rs)
              = true := by
            simp only [Bool.and_eq_true, beq_iff_eq, bne_iff_ne] at h3 ⊢
            exact ⟨⟨h3.1, by rw [h3.2]; exact hz⟩, h3.2⟩
          rw [if_pos h3', if_pos h3]
        · have h3' : ¬ (s.memWb.valid && s.memWb.wbEn && s.memWb.rd != 0#5 && s.memWb.rd == rs)
              = true := by
            simp only [Bool.and_eq_true, beq_iff_eq, bne_iff_ne] at h3 ⊢
            rintro ⟨⟨hv, -⟩, hr⟩
            exact h3 ⟨hv, hr⟩
          rw [if_neg h3', if_neg h3]
          simp only [Bool.not_eq_true] at h3
          exact ok.snapshot hz (by simp [inFlight, h1, h2, h3, hat])

/-- **Operands are right.** While no atomic occupies the MEM stage, a forwarded operand is the
value its register has after the instructions of the list. -/
theorem Linked.operand (l : Linked s log) (w : s.Wf) (hat : s.stallAtomic = false)
    {rs : BitVec 5} {value : Word} (ok : s.OperandOk rs value) :
    archReg log rs = some (s.exForward rs value) := by
  have hat' : s.exMem.isAtomic = false := by
    by_contra hc
    rw [w.stallAtomic_iff.mpr (by simpa using hc)] at hat
    cases hat
  rw [w.exForward_eq hat' ok]
  by_cases hz : rs = 0#5
  · rw [if_pos hz, hz, archReg_zero]
  · rw [if_neg hz]
    apply l.regs rs hz
    by_contra hp
    simp only [pending, hat', Bool.or_false, Bool.not_eq_false, Bool.and_eq_true, beq_iff_eq] at hp
    exact ok.noLoad hz ⟨hp.1.1, hp.1.2, hp.2⟩

end Forwarding

end Core

end MelonSoc
