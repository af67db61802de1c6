import MelonSoc.Lib.Rv32
import MelonSoc.Rtl.Cpu.Step

set_option autoImplicit false

/-! # The decoder and the instruction set

The ID stage takes a word apart and raises a flag for each class of instructions. Here it is
compared with the encodings of the instruction set: which words it calls illegal, and which flags
it raises for the others.
-/

namespace MelonSoc

/-- The flags of the decoder that EX acts on. -/
inductive DecodeFlag
  | isALUreg | isALUimm | isBranch | isJALR | isJAL | isAUIPC | isLUI | isLoad | isStore
  | isCSRRW | isCSRRS | isCSRRC | isMRET | isSRET | isWFI | isSFENCE | isEBREAK | isECALL
  | isMUL | isDIV | isAtomic | isLR | isSC
  deriving DecidableEq

/-- The flag `f` is raised. -/
def Decoded.raises (d : Decoded) (f : DecodeFlag) : Bool :=
  match f with
  | .isALUreg => d.isALUreg
  | .isALUimm => d.isALUimm
  | .isBranch => d.isBranch
  | .isJALR => d.isJALR
  | .isJAL => d.isJAL
  | .isAUIPC => d.isAUIPC
  | .isLUI => d.isLUI
  | .isLoad => d.isLoad
  | .isStore => d.isStore
  | .isCSRRW => d.isCSRRW
  | .isCSRRS => d.isCSRRS
  | .isCSRRC => d.isCSRRC
  | .isMRET => d.isMRET
  | .isSRET => d.isSRET
  | .isWFI => d.isWFI
  | .isSFENCE => d.isSFENCE
  | .isEBREAK => d.isEBREAK
  | .isECALL => d.isECALL
  | .isMUL => d.isMUL
  | .isDIV => d.isDIV
  | .isAtomic => d.isAtomic
  | .isLR => d.isLR
  | .isSC => d.isSC

def csrFlag : Rv32.CsrOp → DecodeFlag
  | .rw => .isCSRRW
  | .rs => .isCSRRS
  | .rc => .isCSRRC

/-- The flags an instruction stands for. A fence needs none, EX does nothing for it. -/
def flagsOf : Rv32.Instr → List DecodeFlag
  | .lui .. => [.isLUI]
  | .auipc .. => [.isAUIPC]
  | .jal .. => [.isJAL]
  | .jalr .. => [.isJALR]
  | .branch .. => [.isBranch]
  | .load .. => [.isLoad]
  | .store .. => [.isStore]
  | .imm .. => [.isALUimm]
  | .shift .. => [.isALUimm]
  | .reg .. => [.isALUreg]
  | .mul .. => [.isMUL]
  | .div .. => [.isDIV]
  | .lr .. => [.isAtomic, .isLR]
  | .sc .. => [.isAtomic, .isSC]
  | .amo .. => [.isAtomic]
  | .fence .. => []
  | .fenceI .. => []
  | .csr op .. => [csrFlag op]
  | .csrImm op .. => [csrFlag op]
  | .ecall => [.isECALL]
  | .ebreak => [.isEBREAK]
  | .mret => [.isMRET]
  | .sret => [.isSRET]
  | .wfi => [.isWFI]
  | .sfenceVma .. => [.isSFENCE]

/-- `w` is decoded as `i`: it is not illegal and raises the flags of `i` and no others. -/
def Decodes (w : Word) (i : Rv32.Instr) : Prop :=
  (decode true false w).illegal = false ∧
    ∀ f, (decode true false w).raises f = decide (f ∈ flagsOf i)

/-- `funct7` names no operation of OP, or no shift of OP-IMM. -/
def ReservedFunct7 (w : Word) : Prop :=
  (opcodeOf w = 0b0110011#7 ∧ funct7Of w = 0b0100000#7 ∧
      funct3Of w ≠ 0b000#3 ∧ funct3Of w ≠ 0b101#3) ∨
    (opcodeOf w = 0b0010011#7 ∧ funct3Of w = 0b001#3 ∧ funct7Of w ≠ 0b0000000#7) ∨
    (opcodeOf w = 0b0010011#7 ∧ funct3Of w = 0b101#3 ∧
      funct7Of w ≠ 0b0000000#7 ∧ funct7Of w ≠ 0b0100000#7)

/-- A `fence.i` with a field that is not zero; the instruction set has these fields ignored, as
the decoder does for `fence`. -/
def FenceIFields (w : Word) : Prop :=
  opcodeOf w = 0b0001111#7 ∧ funct3Of w = 0b001#3 ∧
    ¬ (rs1Of w = 0#5 ∧ rdOf w = 0#5 ∧ w.extractLsb' 20 12 = 0#12)

instance (w : Word) : Decidable (ReservedFunct7 w) :=
  inferInstanceAs (Decidable (_ ∨ _ ∨ _))

instance (w : Word) : Decidable (FenceIFields w) := inferInstanceAs (Decidable (_ ∧ _ ∧ _))

/-! ## Fields -/

section Fields

variable (f7 : BitVec 7) (rs2 rs1 : BitVec 5) (f3 : BitVec 3) (rd : BitVec 5) (op : BitVec 7)

@[simp] theorem opcodeOf_form : opcodeOf (Rv32.form f7 rs2 rs1 f3 rd op) = op :=
  Rv32.form_op f7 rs2 rs1 f3 rd op

@[simp] theorem rdOf_form : rdOf (Rv32.form f7 rs2 rs1 f3 rd op) = rd :=
  Rv32.form_rd f7 rs2 rs1 f3 rd op

@[simp] theorem funct3Of_form : funct3Of (Rv32.form f7 rs2 rs1 f3 rd op) = f3 :=
  Rv32.form_f3 f7 rs2 rs1 f3 rd op

@[simp] theorem rs1Of_form : rs1Of (Rv32.form f7 rs2 rs1 f3 rd op) = rs1 :=
  Rv32.form_rs1 f7 rs2 rs1 f3 rd op

@[simp] theorem rs2Of_form : rs2Of (Rv32.form f7 rs2 rs1 f3 rd op) = rs2 :=
  Rv32.form_rs2 f7 rs2 rs1 f3 rd op

@[simp] theorem funct7Of_form : funct7Of (Rv32.form f7 rs2 rs1 f3 rd op) = f7 :=
  Rv32.form_f7 f7 rs2 rs1 f3 rd op

@[simp] theorem funct5Of_form :
    funct5Of (Rv32.form f7 rs2 rs1 f3 rd op) = f7.extractLsb' 2 5 :=
  Rv32.form_f5 f7 rs2 rs1 f3 rd op

end Fields

theorem form_of_fields (w : Word) :
    Rv32.form (funct7Of w) (rs2Of w) (rs1Of w) (funct3Of w) (rdOf w) (opcodeOf w) = w :=
  Rv32.form_fields w

/-- Words with different fields are different. -/
theorem beq_eq_false_of_field {n : Nat} {w v : Word} (field : Word → BitVec n)
    (h : field w ≠ field v) : (w == v) = false := by
  rw [beq_eq_false_iff_ne]
  rintro rfl
  exact h rfl

/-! ## Encodings are decoded -/

/-- A CSR access or an `sfence.vma` is none of the instructions that are a single word. -/
theorem ne_special {w : Word} (h : funct3Of w ≠ 0b000#3 ∨ funct7Of w = 0b0001001#7) :
    (w == 0x30200073#32) = false ∧ (w == 0x10200073#32) = false ∧ (w == 0x10500073#32) = false ∧
      (w == 0x00100073#32) = false ∧ (w == 0x00000073#32) = false := by
  have hne : ∀ v, funct3Of v = 0b000#3 → funct7Of v ≠ 0b0001001#7 → (w == v) = false := by
    intro v h3 h7
    rcases h with h | h
    · exact beq_eq_false_of_field funct3Of (by rw [h3]; exact h)
    · exact beq_eq_false_of_field funct7Of (by rw [h]; exact h7.symm)
  exact ⟨hne _ (by decide) (by decide), hne _ (by decide) (by decide), hne _ (by decide) (by decide),
    hne _ (by decide) (by decide), hne _ (by decide) (by decide)⟩

theorem decodes_encode (i : Rv32.Instr) (hi : ¬ FenceIFields (Rv32.encode i)) :
    Decodes (Rv32.encode i) i := by
  cases i with
  | lui rd imm | auipc rd imm =>
      simp only [Decodes, Rv32.encode, Rv32.formU, decode, opcodeOf_form, funct3Of_form,
        funct7Of_form]
      exact ⟨rfl, fun f => by cases f <;> rfl⟩
  | jal rd offset =>
      simp only [Decodes, Rv32.encode, Rv32.formJ, Rv32.formU, decode, opcodeOf_form, funct3Of_form,
        funct7Of_form]
      exact ⟨rfl, fun f => by cases f <;> rfl⟩
  | jalr rd rs1 offset | fence unused rs1 rd =>
      simp only [Decodes, Rv32.encode, Rv32.formI, decode, opcodeOf_form, funct3Of_form,
        funct7Of_form]
      exact ⟨rfl, fun f => by cases f <;> rfl⟩
  | branch op rs1 rs2 offset =>
      simp only [Decodes, Rv32.encode, Rv32.formB, decode, opcodeOf_form, funct3Of_form,
        funct7Of_form]
      cases op <;> exact ⟨rfl, fun f => by cases f <;> rfl⟩
  | load op rd rs1 offset | imm op rd rs1 imm =>
      simp only [Decodes, Rv32.encode, Rv32.formI, decode, opcodeOf_form, funct3Of_form,
        funct7Of_form]
      cases op <;> exact ⟨rfl, fun f => by cases f <;> rfl⟩
  | store op rs1 rs2 offset =>
      simp only [Decodes, Rv32.encode, Rv32.formS, decode, opcodeOf_form, funct3Of_form,
        funct7Of_form]
      cases op <;> exact ⟨rfl, fun f => by cases f <;> rfl⟩
  | shift op rd rs1 shamt | reg op rd rs1 rs2 | mul op rd rs1 rs2 | div op rd rs1 rs2 =>
      simp only [Decodes, Rv32.encode, decode, opcodeOf_form, funct3Of_form, funct7Of_form]
      cases op <;> exact ⟨rfl, fun f => by cases f <;> rfl⟩
  | lr rd rs1 order | sc rd rs1 rs2 order =>
      simp only [Decodes, Rv32.encode, decode, opcodeOf_form, funct3Of_form, funct7Of_form,
        funct5Of_form, rs2Of_form, BitVec.extractLsb'_append_eq_left]
      exact ⟨rfl, fun f => by cases f <;> rfl⟩
  | amo op rd rs1 rs2 order =>
      simp only [Decodes, Rv32.encode, decode, opcodeOf_form, funct3Of_form, funct7Of_form,
        funct5Of_form, BitVec.extractLsb'_append_eq_left]
      cases op <;> exact ⟨rfl, fun f => by cases f <;> rfl⟩
  | fenceI unused rs1 rd =>
      simp only [FenceIFields, Rv32.encode, Rv32.formI, opcodeOf_form, funct3Of_form, rs1Of_form,
        rdOf_form, Rv32.form_imm, Rv32.split_imm, true_and, not_not] at hi
      obtain ⟨rfl, rfl, rfl⟩ := hi
      exact ⟨rfl, fun f => by cases f <;> rfl⟩
  | csr op rd rs1 csr =>
      obtain ⟨h1, h2, h3, h4, h5⟩ :=
        ne_special (w := Rv32.encode (.csr op rd rs1 csr)) (by
          rw [Rv32.encode, Rv32.formI, funct3Of_form]
          cases op <;> exact .inl (by decide))
      simp only [Decodes, decode, h1, h2, h3, h4, h5, Bool.and_false]
      simp only [Rv32.encode, Rv32.formI, opcodeOf_form, funct3Of_form, funct7Of_form]
      cases op <;> exact ⟨rfl, fun f => by cases f <;> rfl⟩
  | csrImm op rd uimm csr =>
      obtain ⟨h1, h2, h3, h4, h5⟩ :=
        ne_special (w := Rv32.encode (.csrImm op rd uimm csr)) (by
          rw [Rv32.encode, Rv32.formI, funct3Of_form]
          cases op <;> exact .inl (by decide))
      simp only [Decodes, decode, h1, h2, h3, h4, h5, Bool.and_false]
      simp only [Rv32.encode, Rv32.formI, opcodeOf_form, funct3Of_form, funct7Of_form]
      cases op <;> exact ⟨rfl, fun f => by cases f <;> rfl⟩
  | ecall | ebreak | mret | sret | wfi => exact ⟨rfl, fun f => by cases f <;> rfl⟩
  | sfenceVma rs1 rs2 =>
      obtain ⟨h1, h2, h3, h4, h5⟩ :=
        ne_special (w := Rv32.encode (.sfenceVma rs1 rs2))
          (.inr (by rw [Rv32.encode, funct7Of_form]))
      simp only [Decodes, decode, h1, h2, h3, h4, h5, Bool.and_false]
      simp only [Rv32.encode, opcodeOf_form, funct3Of_form, funct7Of_form, rdOf_form]
      exact ⟨rfl, fun f => by cases f <;> rfl⟩

theorem not_reserved_encode (i : Rv32.Instr) : ¬ ReservedFunct7 (Rv32.encode i) := by
  cases i with
  | ecall | ebreak | mret | sret | wfi => decide
  | imm op rd rs1 imm =>
      simp only [ReservedFunct7, Rv32.encode, Rv32.formI, opcodeOf_form, funct3Of_form]
      cases op <;> simp [Rv32.ImmOp.funct3]
  | shift op rd rs1 shamt | reg op rd rs1 rs2 | mul op rd rs1 rs2 | div op rd rs1 rs2 =>
      simp only [ReservedFunct7, Rv32.encode, opcodeOf_form, funct3Of_form, funct7Of_form]
      cases op <;> decide
  | _ =>
      simp [ReservedFunct7, Rv32.encode, Rv32.formI, Rv32.formB, Rv32.formS, Rv32.formJ,
        Rv32.formU]

/-! ## Decoded words are legal -/

section Legal

variable {w : Word}

theorem funct3_cases (f3 : BitVec 3) :
    f3 = 0#3 ∨ f3 = 1#3 ∨ f3 = 2#3 ∨ f3 = 3#3 ∨ f3 = 4#3 ∨ f3 = 5#3 ∨ f3 = 6#3 ∨ f3 = 7#3 := by
  revert f3
  decide

/-- OP: each `funct3` is an operation with `funct7` 0, and 0 and 5 are with 32 as well. -/
theorem legal_reg (hop : opcodeOf w = 0b0110011#7)
    (h7 : funct7Of w = 0b0000000#7 ∨ funct7Of w = 0b0100000#7) (hr : ¬ ReservedFunct7 w) :
    Rv32.Legal w := by
  have hlegal : ∀ op : Rv32.RegOp, op.funct7 = funct7Of w → op.funct3 = funct3Of w →
      Rv32.Legal w := by
    intro op hf7 hf3
    refine ⟨.reg op (rdOf w) (rs1Of w) (rs2Of w), ?_⟩
    rw [Rv32.encode, hf7, hf3, ← hop]
    exact form_of_fields w
  rcases h7 with h7 | h7
  · rcases funct3_cases (funct3Of w) with h | h | h | h | h | h | h | h
    · exact hlegal .add h7.symm h.symm
    · exact hlegal .sll h7.symm h.symm
    · exact hlegal .slt h7.symm h.symm
    · exact hlegal .sltu h7.symm h.symm
    · exact hlegal .xor h7.symm h.symm
    · exact hlegal .srl h7.symm h.symm
    · exact hlegal .or h7.symm h.symm
    · exact hlegal .and h7.symm h.symm
  · by_cases h0 : funct3Of w = 0b000#3
    · exact hlegal .sub h7.symm h0.symm
    · by_cases h5 : funct3Of w = 0b101#3
      · exact hlegal .sra h7.symm h5.symm
      · exact absurd (.inl ⟨hop, h7, h0, h5⟩) hr

theorem legal_mul (hop : opcodeOf w = 0b0110011#7) (h7 : funct7Of w = 0b0000001#7)
    (h3 : (funct3Of w).getLsbD 2 = false) : Rv32.Legal w := by
  have hlegal : ∀ op : Rv32.MulOp, op.funct3 = funct3Of w → Rv32.Legal w := by
    intro op hf3
    refine ⟨.mul op (rdOf w) (rs1Of w) (rs2Of w), ?_⟩
    rw [Rv32.encode, hf3, ← hop, ← h7]
    exact form_of_fields w
  rcases funct3_cases (funct3Of w) with h | h | h | h | h | h | h | h
  · exact hlegal .mul h.symm
  · exact hlegal .mulh h.symm
  · exact hlegal .mulhsu h.symm
  · exact hlegal .mulhu h.symm
  all_goals
    rw [h] at h3
    cases h3

theorem legal_div (hop : opcodeOf w = 0b0110011#7) (h7 : funct7Of w = 0b0000001#7)
    (h3 : (funct3Of w).getLsbD 2 = true) : Rv32.Legal w := by
  have hlegal : ∀ op : Rv32.DivOp, op.funct3 = funct3Of w → Rv32.Legal w := by
    intro op hf3
    refine ⟨.div op (rdOf w) (rs1Of w) (rs2Of w), ?_⟩
    rw [Rv32.encode, hf3, ← hop, ← h7]
    exact form_of_fields w
  rcases funct3_cases (funct3Of w) with h | h | h | h | h | h | h | h
  · rw [h] at h3
    cases h3
  · rw [h] at h3
    cases h3
  · rw [h] at h3
    cases h3
  · rw [h] at h3
    cases h3
  · exact hlegal .div h.symm
  · exact hlegal .divu h.symm
  · exact hlegal .rem h.symm
  · exact hlegal .remu h.symm

/-- OP-IMM: an immediate operation, or a shift whose `funct7` is not reserved. -/
theorem legal_imm (hop : opcodeOf w = 0b0010011#7) (hr : ¬ ReservedFunct7 w) : Rv32.Legal w := by
  have hlegal : ∀ op : Rv32.ImmOp, op.funct3 = funct3Of w → Rv32.Legal w := by
    intro op hf3
    refine ⟨.imm op (rdOf w) (rs1Of w) (w.extractLsb' 20 12), ?_⟩
    rw [Rv32.encode, hf3, ← hop]
    exact Rv32.formI_fields w
  have hshift : ∀ op : Rv32.ShiftOp, op.funct7 = funct7Of w → op.funct3 = funct3Of w →
      Rv32.Legal w := by
    intro op hf7 hf3
    refine ⟨.shift op (rdOf w) (rs1Of w) (rs2Of w), ?_⟩
    rw [Rv32.encode, hf7, hf3, ← hop]
    exact form_of_fields w
  rcases funct3_cases (funct3Of w) with h | h | h | h | h | h | h | h
  · exact hlegal .addi h.symm
  · by_cases h0 : funct7Of w = 0b0000000#7
    · exact hshift .slli h0.symm h.symm
    · exact absurd (.inr (.inl ⟨hop, h, h0⟩)) hr
  · exact hlegal .slti h.symm
  · exact hlegal .sltiu h.symm
  · exact hlegal .xori h.symm
  · by_cases h0 : funct7Of w = 0b0000000#7
    · exact hshift .srli h0.symm h.symm
    · by_cases h32 : funct7Of w = 0b0100000#7
      · exact hshift .srai h32.symm h.symm
      · exact absurd (.inr (.inr ⟨hop, h, h0, h32⟩)) hr
  · exact hlegal .ori h.symm
  · exact hlegal .andi h.symm

theorem legal_branch (hop : opcodeOf w = 0b1100011#7) (op : Rv32.BranchOp)
    (hf3 : funct3Of w = op.funct3) : Rv32.Legal w := by
  refine ⟨.branch op (rs1Of w) (rs2Of w) (w.extractLsb' 31 1 ++ w.extractLsb' 7 1 ++
    w.extractLsb' 25 6 ++ w.extractLsb' 8 4), ?_⟩
  rw [Rv32.encode, ← hf3, ← hop]
  exact Rv32.formB_fields w

theorem legal_load (hop : opcodeOf w = 0b0000011#7) (op : Rv32.LoadOp)
    (hf3 : funct3Of w = op.funct3) : Rv32.Legal w := by
  refine ⟨.load op (rdOf w) (rs1Of w) (w.extractLsb' 20 12), ?_⟩
  rw [Rv32.encode, ← hf3, ← hop]
  exact Rv32.formI_fields w

theorem legal_store (hop : opcodeOf w = 0b0100011#7) (op : Rv32.StoreOp)
    (hf3 : funct3Of w = op.funct3) : Rv32.Legal w := by
  refine ⟨.store op (rs1Of w) (rs2Of w) (w.extractLsb' 25 7 ++ w.extractLsb' 7 5), ?_⟩
  rw [Rv32.encode, ← hf3, ← hop]
  exact Rv32.formS_fields w

theorem legal_csr (hop : opcodeOf w = 0b1110011#7) (op : Rv32.CsrOp)
    (hf3 : funct3Of w = op.funct3 ∨ funct3Of w = op.funct3 ||| 0b100#3) : Rv32.Legal w := by
  rcases hf3 with hf3 | hf3
  · refine ⟨.csr op (rdOf w) (rs1Of w) (w.extractLsb' 20 12), ?_⟩
    rw [Rv32.encode, ← hf3, ← hop]
    exact Rv32.formI_fields w
  · refine ⟨.csrImm op (rdOf w) (rs1Of w) (w.extractLsb' 20 12), ?_⟩
    rw [Rv32.encode, ← hf3, ← hop]
    exact Rv32.formI_fields w

/-- The high seven bits of an atomic are `funct5`, `aq` and `rl`. -/
theorem funct7_split (w : Word) :
    (funct5Of w ++ w.extractLsb' 25 2 : BitVec 7) = funct7Of w :=
  BitVec.extractLsb'_append_extractLsb'_eq_extractLsb' (show 27 = 25 + 2 from rfl)

theorem legal_lr (hop : opcodeOf w = 0b0101111#7) (h3 : funct3Of w = 0b010#3)
    (h5 : funct5Of w = 0b00010#5) (h2 : rs2Of w = 0#5) : Rv32.Legal w := by
  refine ⟨.lr (rdOf w) (rs1Of w) (w.extractLsb' 25 2), ?_⟩
  rw [Rv32.encode, ← h5, funct7_split, ← h3, ← hop, ← h2]
  exact form_of_fields w

theorem legal_sc (hop : opcodeOf w = 0b0101111#7) (h3 : funct3Of w = 0b010#3)
    (h5 : funct5Of w = 0b00011#5) : Rv32.Legal w := by
  refine ⟨.sc (rdOf w) (rs1Of w) (rs2Of w) (w.extractLsb' 25 2), ?_⟩
  rw [Rv32.encode, ← h5, funct7_split, ← h3, ← hop]
  exact form_of_fields w

theorem legal_amo (hop : opcodeOf w = 0b0101111#7) (h3 : funct3Of w = 0b010#3)
    (op : Rv32.AmoOp) (h5 : funct5Of w = op.funct5) : Rv32.Legal w := by
  refine ⟨.amo op (rdOf w) (rs1Of w) (rs2Of w) (w.extractLsb' 25 2), ?_⟩
  rw [Rv32.encode, ← h5, funct7_split, ← h3, ← hop]
  exact form_of_fields w

theorem exists_amoOp {f5 : BitVec 5} (h : amoFunctValid f5 = true) (hlr : f5 ≠ 0b00010#5)
    (hsc : f5 ≠ 0b00011#5) : ∃ op : Rv32.AmoOp, f5 = op.funct5 := by
  simp only [amoFunctValid, Bool.or_eq_true, beq_iff_eq] at h
  rcases h with (((((((((h | h) | h) | h) | h) | h) | h) | h) | h) | h) | h
  · exact ⟨.add, h⟩
  · exact ⟨.swap, h⟩
  · exact absurd h hlr
  · exact absurd h hsc
  · exact ⟨.xor, h⟩
  · exact ⟨.or, h⟩
  · exact ⟨.and, h⟩
  · exact ⟨.min, h⟩
  · exact ⟨.max, h⟩
  · exact ⟨.minu, h⟩
  · exact ⟨.maxu, h⟩

/-- SYSTEM: one of the single words, an `sfence.vma` or an access to a CSR. -/
theorem legal_sfence (hop : opcodeOf w = 0b1110011#7) (h3 : funct3Of w = 0b000#3)
    (h7 : funct7Of w = 0b0001001#7) (hrd : rdOf w = 0#5) : Rv32.Legal w := by
  refine ⟨.sfenceVma (rs1Of w) (rs2Of w), ?_⟩
  rw [Rv32.encode, ← h7, ← h3, ← hop, ← hrd]
  exact form_of_fields w

/-- A word that is not called illegal is an instruction, but for the reserved ones. -/
theorem legal_of_decode (h : (decode true false w).illegal = false) (hr : ¬ ReservedFunct7 w) :
    Rv32.Legal w := by
  simp only [decode, Bool.true_and, Bool.false_or, Bool.not_eq_false', Bool.or_eq_true,
    Bool.and_eq_true, Bool.not_eq_true', beq_iff_eq] at h
  rcases h with (((((((((((((h | h) | h) | h) | h) | h) | h) | h) | h) | h) | h) | h) | h) | h) | h
  · exact legal_reg h.1 h.2 hr
  · exact legal_mul h.1.1 h.1.2 h.2
  · exact legal_div h.1.1 h.1.2 h.2
  · exact legal_imm h hr
  · obtain ⟨hop, ((((h | h) | h) | h) | h) | h⟩ := h
    · exact legal_branch hop .beq h
    · exact legal_branch hop .bne h
    · exact legal_branch hop .blt h
    · exact legal_branch hop .bge h
    · exact legal_branch hop .bltu h
    · exact legal_branch hop .bgeu h
  · rcases h with h | h
    · refine ⟨.jalr (rdOf w) (rs1Of w) (w.extractLsb' 20 12), ?_⟩
      rw [Rv32.encode, ← h.1, ← h.2]
      exact Rv32.formI_fields w
    · refine ⟨.jal (rdOf w) (w.extractLsb' 31 1 ++ w.extractLsb' 12 8 ++ w.extractLsb' 20 1 ++
        w.extractLsb' 21 10), ?_⟩
      rw [Rv32.encode, ← h]
      exact Rv32.formJ_fields w
  · rcases h with h | h
    · refine ⟨.auipc (rdOf w) (w.extractLsb' 12 20), ?_⟩
      rw [Rv32.encode, ← h]
      exact Rv32.formU_fields w
    · refine ⟨.lui (rdOf w) (w.extractLsb' 12 20), ?_⟩
      rw [Rv32.encode, ← h]
      exact Rv32.formU_fields w
  · obtain ⟨hop, (((h | h) | h) | h) | h⟩ := h
    · exact legal_load hop .lb h
    · exact legal_load hop .lh h
    · exact legal_load hop .lw h
    · exact legal_load hop .lbu h
    · exact legal_load hop .lhu h
  · obtain ⟨hop, (h | h) | h⟩ := h
    · exact legal_store hop .sb h
    · exact legal_store hop .sh h
    · exact legal_store hop .sw h
  · rcases h with (((((((h | h) | h) | h) | h) | h) | h) | h) | h
    · exact ⟨.mret, h.2.symm⟩
    · exact ⟨.sret, h.2.symm⟩
    · exact ⟨.wfi, h.2.symm⟩
    · exact legal_sfence h.1.1.1 h.1.1.2 h.1.2 h.2
    · exact ⟨.ebreak, h.2.symm⟩
    · exact ⟨.ecall, h.2.symm⟩
    · exact legal_csr h.1 .rw h.2
    · exact legal_csr h.1 .rs h.2
    · exact legal_csr h.1 .rc h.2
  · refine ⟨.fence (w.extractLsb' 20 12) (rs1Of w) (rdOf w), ?_⟩
    rw [Rv32.encode, ← h.1, ← h.2]
    exact Rv32.formI_fields w
  · refine ⟨.fenceI (w.extractLsb' 20 12) (rs1Of w) (rdOf w), ?_⟩
    rw [Rv32.encode, ← h.1.1.1.1, ← h.1.1.1.2]
    exact Rv32.formI_fields w
  · exact legal_lr h.1.1.1 h.1.1.2 h.1.2 h.2
  · exact legal_sc h.1.1 h.1.2 h.2
  · obtain ⟨⟨⟨⟨hop, h3⟩, hvalid⟩, hlr⟩, hsc⟩ := h
    have hlr' : funct5Of w ≠ 0b00010#5 := by
      intro h5
      rw [hop, h3, h5] at hlr
      cases hlr
    have hsc' : funct5Of w ≠ 0b00011#5 := by
      intro h5
      rw [hop, h3, h5] at hsc
      cases hsc
    obtain ⟨op, h5⟩ := exists_amoOp hvalid hlr' hsc'
    exact legal_amo hop h3 op h5

/-- A `funct7` that is reserved is not looked at. -/
theorem decode_reserved (h : ReservedFunct7 w) : (decode true false w).illegal = false := by
  rcases h with ⟨hop, h7, -⟩ | ⟨hop, -⟩ | ⟨hop, -⟩
  · simp [decode, hop, h7]
  · simp [decode, hop]
  · simp [decode, hop]

theorem decode_fenceI (h : FenceIFields w) : (decode true false w).illegal = true := by
  obtain ⟨hop, h3, hne⟩ := h
  have hfields : (rs1Of w ≠ 0#5 ∨ rdOf w ≠ 0#5) ∨ w.extractLsb' 20 12 ≠ 0#12 := by
    by_contra hc
    push Not at hc
    exact hne ⟨hc.1.1, hc.1.2, hc.2⟩
  simpa [decode, hop, h3] using hfields

end Legal

/-! ## Exactness -/

/-- The ID stage is right about the word `w`. -/
structure DecodesExactly (w : Word) : Prop where
  illegal : (decode true false w).illegal = true ↔ ¬ Rv32.Legal w
  flags : ∀ i, Rv32.encode i = w → ∀ f, (decode true false w).raises f = decide (f ∈ flagsOf i)
  /-- In EX an illegal word is an exception with cause 2, unless its fetch has failed. -/
  cause : (decode true false w).illegal = true → ∀ (s s' : Core) (i : CoreIn),
    s.id.valid = true → s.id.illegal = false → s.id.instr = w → s'.idEx = s.idExOfId →
      s'.idEx.fetchFault = false → s'.stallAtomic = false →
      s'.exceptionInfo i = some ⟨2#32, s.id.illegalValue⟩

theorem cause_of_illegal {w : Word} {s s' : Core} (i : CoreIn)
    (h : (decode true false w).illegal = true) (hv : s.id.valid = true)
    (hi : s.id.illegal = false) (hw : s.id.instr = w) (he : s'.idEx = s.idExOfId)
    (hf : s'.idEx.fetchFault = false) (ha : s'.stallAtomic = false) :
    s'.exceptionInfo i = some ⟨2#32, s.id.illegalValue⟩ := by
  have hvalid : s'.idEx.valid = true := by rw [he]; exact hv
  have hillegal : s'.idEx.illegal = true := by
    rw [he]
    show (decode s.id.valid s.id.illegal s.id.instr).illegal = true
    rw [hv, hi, hw]
    exact h
  have hvalue : s'.idEx.illegalValue = s.id.illegalValue := by rw [he]; rfl
  simp [Core.exceptionInfo, hvalid, hf, hillegal, ha, hvalue]

/-- **The decoder.** For every word the ID stage tells whether it is an instruction, and raises
the flags of exactly this instruction, but for a reserved `funct7`, which it takes for another
operation, and a `fence.i` with fields that should be ignored, which it refuses. -/
theorem decoder_exact (w : Word) :
    DecodesExactly w ↔ ¬ (ReservedFunct7 w ∨ FenceIFields w) := by
  constructor
  · rintro ⟨hill, -, -⟩ (hr | hf)
    · have hlegal : Rv32.Legal w := by
        by_contra hn
        have hd := decode_reserved hr
        rw [hill.mpr hn] at hd
        cases hd
      obtain ⟨i, rfl⟩ := hlegal
      exact not_reserved_encode i hr
    · have hlegal : Rv32.Legal w := by
        refine ⟨.fenceI (w.extractLsb' 20 12) (rs1Of w) (rdOf w), ?_⟩
        rw [Rv32.encode, ← hf.1, ← hf.2.1]
        exact Rv32.formI_fields w
      exact hill.mp (decode_fenceI hf) hlegal
  · intro hn
    refine ⟨⟨?_, ?_⟩, ?_, fun h s s' i => cause_of_illegal i h⟩
    · rintro hill ⟨i, rfl⟩
      rw [(decodes_encode i fun hf => hn (.inr hf)).1] at hill
      cases hill
    · intro hlegal
      by_contra hill
      rw [Bool.not_eq_true] at hill
      exact hlegal (legal_of_decode hill fun hr => hn (.inl hr))
    · rintro i rfl
      exact (decodes_encode i fun hf => hn (.inr hf)).2

/-- `sll x1, x2, x3` with `funct7 = 0b0100000` passes the decoder and shifts. -/
theorem reserved_sll_decoded :
    ¬ ∀ w : Word, w.extractLsb' 0 2 = 0b11#2 → DecodesExactly w := by
  intro h
  obtain ⟨hill, -, -⟩ := h 0x403110B3#32 (by decide)
  have hlegal : Rv32.Legal 0x403110B3#32 := by
    by_contra hn
    exact absurd (hill.mpr hn) (by decide)
  obtain ⟨i, hi⟩ := hlegal
  refine not_reserved_encode i ?_
  rw [hi]
  decide

end MelonSoc
