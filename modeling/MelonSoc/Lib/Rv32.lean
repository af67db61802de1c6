import Mathlib.Data.BitVec
import Mathlib.Logic.Function.Basic

set_option autoImplicit false

/-! # The RV32 instructions

The instructions of RV32IMA with Zicsr, Zifencei and the privileged instructions of machine and
supervisor mode, their encodings, and what those that work on registers and memory alone do. All
formats are the six fields of the R format, so that `form` and its lemmas serve every one of them.
-/

namespace Rv32

abbrev Word := BitVec 32

abbrev Byte := BitVec 8

abbrev Reg := BitVec 5

/-! ## Syntax -/

inductive BranchOp
  | beq | bne | blt | bge | bltu | bgeu
  deriving DecidableEq

inductive LoadOp
  | lb | lh | lw | lbu | lhu
  deriving DecidableEq

inductive StoreOp
  | sb | sh | sw
  deriving DecidableEq

inductive ImmOp
  | addi | slti | sltiu | xori | ori | andi
  deriving DecidableEq

inductive ShiftOp
  | slli | srli | srai
  deriving DecidableEq

inductive RegOp
  | add | sub | sll | slt | sltu | xor | srl | sra | or | and
  deriving DecidableEq

inductive MulOp
  | mul | mulh | mulhsu | mulhu
  deriving DecidableEq

inductive DivOp
  | div | divu | rem | remu
  deriving DecidableEq

inductive AmoOp
  | swap | add | xor | and | or | min | max | minu | maxu
  deriving DecidableEq

inductive CsrOp
  | rw | rs | rc
  deriving DecidableEq

/-- An instruction. The offsets of `jal` and of branches are in halfwords, `order` are the `aq` and
`rl` bits of an atomic, and `unused` are fields an implementation ignores. -/
inductive Instr
  | lui (rd : Reg) (imm : BitVec 20)
  | auipc (rd : Reg) (imm : BitVec 20)
  | jal (rd : Reg) (offset : BitVec 20)
  | jalr (rd rs1 : Reg) (offset : BitVec 12)
  | branch (op : BranchOp) (rs1 rs2 : Reg) (offset : BitVec 12)
  | load (op : LoadOp) (rd rs1 : Reg) (offset : BitVec 12)
  | store (op : StoreOp) (rs1 rs2 : Reg) (offset : BitVec 12)
  | imm (op : ImmOp) (rd rs1 : Reg) (imm : BitVec 12)
  | shift (op : ShiftOp) (rd rs1 : Reg) (shamt : BitVec 5)
  | reg (op : RegOp) (rd rs1 rs2 : Reg)
  | mul (op : MulOp) (rd rs1 rs2 : Reg)
  | div (op : DivOp) (rd rs1 rs2 : Reg)
  | lr (rd rs1 : Reg) (order : BitVec 2)
  | sc (rd rs1 rs2 : Reg) (order : BitVec 2)
  | amo (op : AmoOp) (rd rs1 rs2 : Reg) (order : BitVec 2)
  | fence (unused : BitVec 12) (rs1 rd : Reg)
  | fenceI (unused : BitVec 12) (rs1 rd : Reg)
  | csr (op : CsrOp) (rd rs1 : Reg) (csr : BitVec 12)
  | csrImm (op : CsrOp) (rd : Reg) (uimm : BitVec 5) (csr : BitVec 12)
  | ecall
  | ebreak
  | mret
  | sret
  | wfi
  | sfenceVma (rs1 rs2 : Reg)

/-! ## Encoding -/

def BranchOp.funct3 : BranchOp → BitVec 3
  | beq => 0b000#3
  | bne => 0b001#3
  | blt => 0b100#3
  | bge => 0b101#3
  | bltu => 0b110#3
  | bgeu => 0b111#3

def LoadOp.funct3 : LoadOp → BitVec 3
  | lb => 0b000#3
  | lh => 0b001#3
  | lw => 0b010#3
  | lbu => 0b100#3
  | lhu => 0b101#3

def StoreOp.funct3 : StoreOp → BitVec 3
  | sb => 0b000#3
  | sh => 0b001#3
  | sw => 0b010#3

def ImmOp.funct3 : ImmOp → BitVec 3
  | addi => 0b000#3
  | slti => 0b010#3
  | sltiu => 0b011#3
  | xori => 0b100#3
  | ori => 0b110#3
  | andi => 0b111#3

def ShiftOp.funct3 : ShiftOp → BitVec 3
  | slli => 0b001#3
  | srli => 0b101#3
  | srai => 0b101#3

def ShiftOp.funct7 : ShiftOp → BitVec 7
  | slli => 0b0000000#7
  | srli => 0b0000000#7
  | srai => 0b0100000#7

def RegOp.funct3 : RegOp → BitVec 3
  | add => 0b000#3
  | sub => 0b000#3
  | sll => 0b001#3
  | slt => 0b010#3
  | sltu => 0b011#3
  | xor => 0b100#3
  | srl => 0b101#3
  | sra => 0b101#3
  | or => 0b110#3
  | and => 0b111#3

def RegOp.funct7 : RegOp → BitVec 7
  | sub => 0b0100000#7
  | sra => 0b0100000#7
  | _ => 0b0000000#7

def MulOp.funct3 : MulOp → BitVec 3
  | mul => 0b000#3
  | mulh => 0b001#3
  | mulhsu => 0b010#3
  | mulhu => 0b011#3

def DivOp.funct3 : DivOp → BitVec 3
  | div => 0b100#3
  | divu => 0b101#3
  | rem => 0b110#3
  | remu => 0b111#3

def AmoOp.funct5 : AmoOp → BitVec 5
  | swap => 0b00001#5
  | add => 0b00000#5
  | xor => 0b00100#5
  | and => 0b01100#5
  | or => 0b01000#5
  | min => 0b10000#5
  | max => 0b10100#5
  | minu => 0b11000#5
  | maxu => 0b11100#5

def CsrOp.funct3 : CsrOp → BitVec 3
  | rw => 0b001#3
  | rs => 0b010#3
  | rc => 0b011#3

/-- The R format: `funct7`, `rs2`, `rs1`, `funct3`, `rd` and the opcode. -/
def form (f7 : BitVec 7) (rs2 rs1 : BitVec 5) (f3 : BitVec 3) (rd : BitVec 5) (op : BitVec 7) :
    Word :=
  f7 ++ rs2 ++ rs1 ++ f3 ++ rd ++ op

/-- The I format. -/
def formI (imm : BitVec 12) (rs1 : BitVec 5) (f3 : BitVec 3) (rd : BitVec 5) (op : BitVec 7) :
    Word :=
  form (imm.extractLsb' 5 7) (imm.extractLsb' 0 5) rs1 f3 rd op

/-- The S format. -/
def formS (imm : BitVec 12) (rs2 rs1 : BitVec 5) (f3 : BitVec 3) (op : BitVec 7) : Word :=
  form (imm.extractLsb' 5 7) rs2 rs1 f3 (imm.extractLsb' 0 5) op

/-- The B format, with the offset in halfwords. -/
def formB (imm : BitVec 12) (rs2 rs1 : BitVec 5) (f3 : BitVec 3) (op : BitVec 7) : Word :=
  form (imm.extractLsb' 11 1 ++ imm.extractLsb' 4 6) rs2 rs1 f3
    (imm.extractLsb' 0 4 ++ imm.extractLsb' 10 1) op

/-- The U format. -/
def formU (imm : BitVec 20) (rd : BitVec 5) (op : BitVec 7) : Word :=
  form (imm.extractLsb' 13 7) (imm.extractLsb' 8 5) (imm.extractLsb' 3 5) (imm.extractLsb' 0 3) rd op

/-- The J format, with the offset in halfwords. -/
def formJ (imm : BitVec 20) (rd : BitVec 5) (op : BitVec 7) : Word :=
  formU (imm.extractLsb' 19 1 ++ imm.extractLsb' 0 10 ++ imm.extractLsb' 10 1 ++
    imm.extractLsb' 11 8) rd op

def encode : Instr → Word
  | .lui rd imm => formU imm rd 0b0110111#7
  | .auipc rd imm => formU imm rd 0b0010111#7
  | .jal rd offset => formJ offset rd 0b1101111#7
  | .jalr rd rs1 offset => formI offset rs1 0b000#3 rd 0b1100111#7
  | .branch op rs1 rs2 offset => formB offset rs2 rs1 op.funct3 0b1100011#7
  | .load op rd rs1 offset => formI offset rs1 op.funct3 rd 0b0000011#7
  | .store op rs1 rs2 offset => formS offset rs2 rs1 op.funct3 0b0100011#7
  | .imm op rd rs1 imm => formI imm rs1 op.funct3 rd 0b0010011#7
  | .shift op rd rs1 shamt => form op.funct7 shamt rs1 op.funct3 rd 0b0010011#7
  | .reg op rd rs1 rs2 => form op.funct7 rs2 rs1 op.funct3 rd 0b0110011#7
  | .mul op rd rs1 rs2 => form 0b0000001#7 rs2 rs1 op.funct3 rd 0b0110011#7
  | .div op rd rs1 rs2 => form 0b0000001#7 rs2 rs1 op.funct3 rd 0b0110011#7
  | .lr rd rs1 order => form (0b00010#5 ++ order) 0#5 rs1 0b010#3 rd 0b0101111#7
  | .sc rd rs1 rs2 order => form (0b00011#5 ++ order) rs2 rs1 0b010#3 rd 0b0101111#7
  | .amo op rd rs1 rs2 order => form (op.funct5 ++ order) rs2 rs1 0b010#3 rd 0b0101111#7
  | .fence unused rs1 rd => formI unused rs1 0b000#3 rd 0b0001111#7
  | .fenceI unused rs1 rd => formI unused rs1 0b001#3 rd 0b0001111#7
  | .csr op rd rs1 csr => formI csr rs1 op.funct3 rd 0b1110011#7
  | .csrImm op rd uimm csr => formI csr uimm (op.funct3 ||| 0b100#3) rd 0b1110011#7
  | .ecall => 0x00000073#32
  | .ebreak => 0x00100073#32
  | .mret => 0x30200073#32
  | .sret => 0x10200073#32
  | .wfi => 0x10500073#32
  | .sfenceVma rs1 rs2 => form 0b0001001#7 rs2 rs1 0b000#3 0#5 0b1110011#7

/-- A word that encodes an instruction. -/
def Legal (w : Word) : Prop := ∃ i, encode i = w

/-! ## Fields of an encoding -/

section Fields

variable (f7 : BitVec 7) (rs2 rs1 : BitVec 5) (f3 : BitVec 3) (rd : BitVec 5) (op : BitVec 7)

@[simp] theorem form_op : (form f7 rs2 rs1 f3 rd op).extractLsb' 0 7 = op :=
  BitVec.extractLsb'_append_eq_right

@[simp] theorem form_rd : (form f7 rs2 rs1 f3 rd op).extractLsb' 7 5 = rd := by
  unfold form
  rw [BitVec.extractLsb'_append_eq_of_le (by decide)]
  exact BitVec.extractLsb'_append_eq_right

@[simp] theorem form_f3 : (form f7 rs2 rs1 f3 rd op).extractLsb' 12 3 = f3 := by
  unfold form
  rw [BitVec.extractLsb'_append_eq_of_le (by decide),
    BitVec.extractLsb'_append_eq_of_le (by decide)]
  exact BitVec.extractLsb'_append_eq_right

@[simp] theorem form_rs1 : (form f7 rs2 rs1 f3 rd op).extractLsb' 15 5 = rs1 := by
  unfold form
  rw [BitVec.extractLsb'_append_eq_of_le (by decide),
    BitVec.extractLsb'_append_eq_of_le (by decide),
    BitVec.extractLsb'_append_eq_of_le (by decide)]
  exact BitVec.extractLsb'_append_eq_right

/-- The last twelve bits hold the second register and `funct7`. -/
theorem form_high {start len : Nat} (h : 20 ≤ start) :
    (form f7 rs2 rs1 f3 rd op).extractLsb' start len
      = (f7 ++ rs2 : BitVec 12).extractLsb' (start - 20) len := by
  unfold form
  rw [BitVec.extractLsb'_append_eq_of_le (by omega), BitVec.extractLsb'_append_eq_of_le (by omega),
    BitVec.extractLsb'_append_eq_of_le (by omega), BitVec.extractLsb'_append_eq_of_le (by omega)]
  have hstart : start - 7 - 5 - 3 - 5 = start - 20 := by omega
  rw [hstart]

@[simp] theorem form_rs2 : (form f7 rs2 rs1 f3 rd op).extractLsb' 20 5 = rs2 := by
  rw [form_high _ _ _ _ _ _ (by decide)]
  exact BitVec.extractLsb'_append_eq_right

@[simp] theorem form_imm : (form f7 rs2 rs1 f3 rd op).extractLsb' 20 12 = f7 ++ rs2 := by
  rw [form_high _ _ _ _ _ _ (by decide)]
  exact BitVec.extractLsb'_eq_self

@[simp] theorem form_f7 : (form f7 rs2 rs1 f3 rd op).extractLsb' 25 7 = f7 := by
  rw [form_high _ _ _ _ _ _ (by decide)]
  exact BitVec.extractLsb'_append_eq_left

@[simp] theorem form_f5 :
    (form f7 rs2 rs1 f3 rd op).extractLsb' 27 5 = f7.extractLsb' 2 5 := by
  rw [form_high _ _ _ _ _ _ (by decide), BitVec.extractLsb'_append_eq_of_le (by decide)]

/-- A part of `funct7`. -/
theorem form_in_f7 {start len : Nat} (h : 25 ≤ start) :
    (form f7 rs2 rs1 f3 rd op).extractLsb' start len = f7.extractLsb' (start - 25) len := by
  rw [form_high _ _ _ _ _ _ (by omega), BitVec.extractLsb'_append_eq_of_le (by omega)]
  have hstart : start - 20 - 5 = start - 25 := by omega
  rw [hstart]

/-- A part of `rd`. -/
theorem form_in_rd {start len : Nat} (h : 7 ≤ start) (hlen : start - 7 + len ≤ 5) :
    (form f7 rs2 rs1 f3 rd op).extractLsb' start len = rd.extractLsb' (start - 7) len := by
  unfold form
  rw [BitVec.extractLsb'_append_eq_of_le (by omega),
    BitVec.extractLsb'_append_eq_of_add_le (by omega)]

/-- The fields of a word make up the word. -/
theorem form_fields (w : Word) :
    form (w.extractLsb' 25 7) (w.extractLsb' 20 5) (w.extractLsb' 15 5) (w.extractLsb' 12 3)
      (w.extractLsb' 7 5) (w.extractLsb' 0 7) = w := by
  unfold form
  rw [BitVec.extractLsb'_append_extractLsb'_eq_extractLsb' (show 25 = 20 + 5 from rfl),
    BitVec.extractLsb'_append_extractLsb'_eq_extractLsb' (show 20 = 15 + 5 from rfl),
    BitVec.extractLsb'_append_extractLsb'_eq_extractLsb' (show 15 = 12 + 3 from rfl),
    BitVec.extractLsb'_append_extractLsb'_eq_extractLsb' (show 12 = 7 + 5 from rfl),
    BitVec.extractLsb'_append_extractLsb'_eq_extractLsb' (show 7 = 0 + 7 from rfl)]
  exact BitVec.extractLsb'_eq_self

/-- A field of a field. -/
theorem extract_extract {n start len start' len' : Nat} (w : BitVec n) (h : start' + len' ≤ len) :
    (w.extractLsb' start len).extractLsb' start' len' = w.extractLsb' (start + start') len' := by
  ext i hi
  rw [BitVec.getElem_extractLsb', BitVec.getLsbD_extractLsb', BitVec.getElem_extractLsb']
  have hlt : start' + i < len := by omega
  simp [hlt, Nat.add_assoc]

/-- The immediate of an I format. -/
@[simp] theorem split_imm (imm : BitVec 12) :
    (imm.extractLsb' 5 7 ++ imm.extractLsb' 0 5 : BitVec 12) = imm := by
  rw [BitVec.extractLsb'_append_extractLsb'_eq_extractLsb' (show 5 = 0 + 5 from rfl)]
  exact BitVec.extractLsb'_eq_self

end Fields

/-! ## Words in each format -/

section Formats

variable (w : Word)

theorem formI_fields :
    formI (w.extractLsb' 20 12) (w.extractLsb' 15 5) (w.extractLsb' 12 3) (w.extractLsb' 7 5)
      (w.extractLsb' 0 7) = w := by
  rw [formI, extract_extract w (by decide), extract_extract w (by decide)]
  exact form_fields w

theorem formU_fields :
    formU (w.extractLsb' 12 20) (w.extractLsb' 7 5) (w.extractLsb' 0 7) = w := by
  rw [formU, extract_extract w (by decide), extract_extract w (by decide),
    extract_extract w (by decide), extract_extract w (by decide)]
  exact form_fields w

theorem formS_fields :
    formS (w.extractLsb' 25 7 ++ w.extractLsb' 7 5) (w.extractLsb' 20 5) (w.extractLsb' 15 5)
      (w.extractLsb' 12 3) (w.extractLsb' 0 7) = w := by
  rw [formS, BitVec.extractLsb'_append_eq_left, BitVec.extractLsb'_append_eq_right]
  exact form_fields w

theorem formB_fields :
    formB (w.extractLsb' 31 1 ++ w.extractLsb' 7 1 ++ w.extractLsb' 25 6 ++ w.extractLsb' 8 4)
      (w.extractLsb' 20 5) (w.extractLsb' 15 5) (w.extractLsb' 12 3) (w.extractLsb' 0 7) = w := by
  conv => rhs; rw [← form_fields w]
  unfold formB
  congr 1
  · ext i hi
    simp
    grind
  · ext i hi
    simp
    grind

theorem formJ_fields :
    formJ (w.extractLsb' 31 1 ++ w.extractLsb' 12 8 ++ w.extractLsb' 20 1 ++ w.extractLsb' 21 10)
      (w.extractLsb' 7 5) (w.extractLsb' 0 7) = w := by
  conv => rhs; rw [← formU_fields w]
  unfold formJ
  congr 1
  ext i hi
  simp
  grind

end Formats

end Rv32
