import MelonSoc.Pipeline.Division
import MelonSoc.Rtl.Cpu.Step

set_option autoImplicit false

/-! # What the flags of an instruction say

The flags in ID/EX are those of one instruction word. Each names an opcode, so an instruction
belongs to one class only: a load is no store, an atomic writes no register in WB, a division
is nothing but a division. The functions of EX look at the operands the class uses and at no
others.
-/

namespace MelonSoc

/-- The flags as ID/EX stores them: an illegal instruction is no atomic. -/
def Decoded.gateAtomic (d : Decoded) : Decoded :=
  { d with
    isAtomic := d.isAtomic && !d.illegal
    isLR := d.isLR && !d.illegal
    isSC := d.isSC && !d.illegal }

/-- Gating takes uses of operands away only. -/
theorem Decoded.usesRs1_gateAtomic (d : Decoded) (h : usesRs1 d.gateAtomic = true) :
    usesRs1 d = true := by
  cases ha : d.isAtomic with
  | true => simp [usesRs1, ha]
  | false => simpa [usesRs1, gateAtomic, ha] using h

theorem Decoded.usesRs2_gateAtomic (d : Decoded) (h : usesRs2 d.gateAtomic = true) :
    usesRs2 d = true := by
  cases hi : d.illegal with
  | false => simpa [usesRs2, gateAtomic, hi] using h
  | true =>
      simp only [usesRs2, gateAtomic, hi, Bool.not_true, Bool.and_false, Bool.false_and,
        Bool.or_false] at h
      simp [usesRs2, h]

namespace IdEx

/-- The flags are those of the instruction word. -/
def Decodes (e : IdEx) : Prop :=
  ∃ valid idIllegal, e.toDecoded = (decode valid idIllegal e.instr).gateAtomic

theorem decodes_reset : IdEx.reset.Decodes := ⟨false, false, rfl⟩

/-! ## Classes -/

/-- The opcode each flag stands for. -/
structure Classes (e : IdEx) : Prop where
  aluReg : e.isALUreg = true → opcodeOf e.instr = 0b0110011#7 ∧ funct7Of e.instr ≠ 0b0000001#7
  aluImm : e.isALUimm = true → opcodeOf e.instr = 0b0010011#7
  branch : e.isBranch = true → opcodeOf e.instr = 0b1100011#7
  jalr : e.isJALR = true → opcodeOf e.instr = 0b1100111#7
  jal : e.isJAL = true → opcodeOf e.instr = 0b1101111#7
  auipc : e.isAUIPC = true → opcodeOf e.instr = 0b0010111#7
  lui : e.isLUI = true → opcodeOf e.instr = 0b0110111#7
  load : e.isLoad = true → opcodeOf e.instr = 0b0000011#7
  store : e.isStore = true → opcodeOf e.instr = 0b0100011#7
  csrrw : e.isCSRRW = true → opcodeOf e.instr = 0b1110011#7 ∧ funct3Of e.instr ≠ 0b000#3
  csrrs : e.isCSRRS = true → opcodeOf e.instr = 0b1110011#7 ∧ funct3Of e.instr ≠ 0b000#3
  csrrc : e.isCSRRC = true → opcodeOf e.instr = 0b1110011#7 ∧ funct3Of e.instr ≠ 0b000#3
  mret : e.isMRET = true → e.instr = 0x30200073#32
  sret : e.isSRET = true → e.instr = 0x10200073#32
  sfence : e.isSFENCE = true → opcodeOf e.instr = 0b1110011#7
  mul : e.isMUL = true → opcodeOf e.instr = 0b0110011#7 ∧ funct7Of e.instr = 0b0000001#7 ∧
    e.funct3.getLsbD 2 = false
  div : e.isDIV = true → opcodeOf e.instr = 0b0110011#7 ∧ funct7Of e.instr = 0b0000001#7 ∧
    e.funct3.getLsbD 2 = true
  atomic : e.isAtomic = true → opcodeOf e.instr = 0b0101111#7
  lr : e.isLR = true → e.isAtomic = true
  sc : e.isSC = true → e.isAtomic = true ∧ e.isLR = false

theorem Decodes.classes {e : IdEx} (h : e.Decodes) : e.Classes := by
  obtain ⟨v, ill, h⟩ := h
  -- the verdict on legality is of no interest here
  generalize hd : decode v ill e.instr = d at h
  generalize hl : d.illegal = legal at h
  constructor <;> simp only [h, Decoded.gateAtomic, hl] <;> simp only [← hd, decode] <;> simp <;>
    grind

/-- The classes that write a register in WB, but for divisions and loads. -/
def plainWrite (e : IdEx) : Bool :=
  e.isMUL || e.isALUreg || e.isALUimm || e.isJAL || e.isJALR || e.isLUI || e.isAUIPC ||
  e.isCSRRS || e.isCSRRC || e.isCSRRW

/-- The instruction accesses memory. -/
def isMem (e : IdEx) : Bool := e.isLoad || e.isStore || e.isAtomic

/-- The instruction writes a register, in WB or through the atomic unit. -/
def writesReg (e : IdEx) : Bool := e.plainWrite || e.isDIV || e.isLoad || e.isAtomic

/-- The instruction redirects the frontend by itself. -/
def isJump (e : IdEx) : Bool := e.isSFENCE || e.isBranch || e.isJALR || e.isJAL

/-- The instruction returns from a trap. -/
def isReturn (e : IdEx) : Bool := e.isMRET || e.isSRET

namespace Classes

variable {e : IdEx}

theorem of_load (c : e.Classes) (h : e.isLoad = true) :
    e.isStore = false ∧ e.isAtomic = false ∧ e.isDIV = false ∧ e.isJump = false := by
  have hop := c.load h
  cases c
  simp_all [isJump]

theorem of_store (c : e.Classes) (h : e.isStore = true) :
    e.isLoad = false ∧ e.isAtomic = false ∧ e.writesReg = false ∧ e.isJump = false := by
  have hop := c.store h
  cases c
  simp_all [isJump, writesReg, plainWrite]

theorem of_atomic (c : e.Classes) (h : e.isAtomic = true) :
    e.isLoad = false ∧ e.isStore = false ∧ e.isDIV = false ∧ e.plainWrite = false ∧
      e.isJump = false := by
  have hop := c.atomic h
  cases c
  simp_all [isJump, plainWrite]

theorem of_div (c : e.Classes) (h : e.isDIV = true) :
    e.isMem = false ∧ e.plainWrite = false ∧ e.isJump = false := by
  have hop := c.div h
  cases c
  simp_all [isJump, plainWrite, isMem]

/-- A return from a trap has no other effect. -/
theorem of_return (c : e.Classes) (h : e.isReturn = true) :
    e.isMem = false ∧ e.writesReg = false := by
  have hinstr : e.instr = 0x30200073#32 ∨ e.instr = 0x10200073#32 := by
    simp only [isReturn, Bool.or_eq_true] at h
    exact h.imp c.mret c.sret
  have hop : opcodeOf e.instr = 0b1110011#7 := by rcases hinstr with h | h <;> rw [h] <;> decide
  have h3 : funct3Of e.instr = 0b000#3 := by rcases hinstr with h | h <;> rw [h] <;> decide
  cases c
  simp_all [isMem, writesReg, plainWrite]

end Classes

/-! ## Results -/

/-- The result of an instruction that is no load and no atomic. -/
def resultOf (e : IdEx) (rs1 rs2 csrRdata : Word) : Word :=
  if e.isMUL then e.exMul rs1 rs2
  else if e.isALUreg || e.isALUimm then e.exAluOut rs1 rs2
  else if e.isDIV then quotRem (!e.funct3.getLsbD 0) (e.funct3.getLsbD 1) rs1 rs2
  else if e.isJAL || e.isJALR then e.pc + e.len
  else if e.isLUI then e.uimm
  else if e.isAUIPC then e.pc + e.uimm
  else if e.isCSRRS || e.isCSRRC || e.isCSRRW then csrRdata
  else 0#32

/-- In the cycle in which it fires an instruction writes a register in WB unless it is an
atomic. -/
theorem exWriteEn_of_fire {e : IdEx} {rv : Bool} (c : e.Classes) (hv : e.valid = true)
    (hd : e.isDIV = true → rv = true) : e.exWriteEn rv = (e.writesReg && !e.isAtomic) := by
  have ha := c.of_atomic
  grind [exWriteEn, writesReg, plainWrite]

/-- A division that waits for its result writes nothing. -/
theorem exWriteEn_of_waiting {e : IdEx} (c : e.Classes) (hd : e.isDIV = true) :
    e.exWriteEn false = false := by
  obtain ⟨hm, hw, -⟩ := c.of_div hd
  grind [exWriteEn, plainWrite, isMem]

/-- The value EX computes is the result of the instruction, if a division has been presented
with its own operands. -/
theorem exWriteValue_of_fire {e : IdEx} {rs1 rs2 csr : Word} {div : Divider} (hv : e.valid = true)
    (hd : e.isDIV = true → div.resultValid = true ∧
      (if e.funct3.getLsbD 1 then div.resultR else div.resultQ)
        = quotRem (!e.funct3.getLsbD 0) (e.funct3.getLsbD 1) rs1 rs2) :
    e.exWriteValue rs1 rs2 csr div = e.resultOf rs1 rs2 csr := by
  unfold exWriteValue resultOf
  cases hdiv : e.isDIV with
  | false => simp [hv]
  | true =>
      obtain ⟨hrv, hval⟩ := hd hdiv
      simp only [hv, hrv, hval, Bool.not_true, Bool.and_self]
      rfl

/-! ## Operands

Two pairs of operands that agree on the registers an instruction reads cannot be told apart
by it. -/

/-- `a` and `b` agree where the instruction reads `rs1`, `a'` and `b'` where it reads `rs2`. -/
structure SameOperands (e : IdEx) (a b a' b' : Word) : Prop where
  rs1 : usesRs1 e.toDecoded = true → a = b
  rs2 : usesRs2 e.toDecoded = true → a' = b'

namespace SameOperands

variable {e : IdEx} {a b a' b' : Word}

theorem exAluOut (h : e.SameOperands a b a' b') (ha : e.isALUreg || e.isALUimm) :
    e.exAluOut a a' = e.exAluOut b b' := by
  cases hr : e.isALUreg with
  | true => rw [h.rs1 (by simp [usesRs1, hr]), h.rs2 (by simp [usesRs2, hr])]
  | false =>
      have hi : e.isALUimm = true := by simpa [hr] using ha
      rw [h.rs1 (by simp [usesRs1, hi])]
      simp [IdEx.exAluOut, exAluIn2, hr]

theorem resultOf (h : e.SameOperands a b a' b') (csr : Word) :
    e.resultOf a a' csr = e.resultOf b b' csr := by
  unfold IdEx.resultOf
  split
  · rename_i hm
    rw [h.rs1 (by simp [usesRs1, hm]), h.rs2 (by simp [usesRs2, hm])]
  · split
    · rename_i ha
      exact h.exAluOut ha
    · split
      · rename_i hd
        rw [h.rs1 (by simp [usesRs1, hd]), h.rs2 (by simp [usesRs2, hd])]
      · rfl

theorem exAddr (h : e.SameOperands a b a' b') (hm : e.isMem = true) :
    e.exAddr a = e.exAddr b := by
  have hu : usesRs1 e.toDecoded = true := by grind [usesRs1, isMem]
  rw [h.rs1 hu]

theorem exStoreWdata (h : e.SameOperands a b a' b') (addr : Word) :
    e.exStoreWdata addr a' = e.exStoreWdata addr b' := by
  cases hs : e.isStore with
  | true => rw [h.rs2 (by simp [usesRs2, hs])]
  | false => simp [IdEx.exStoreWdata, hs]

end SameOperands

end IdEx

end MelonSoc
