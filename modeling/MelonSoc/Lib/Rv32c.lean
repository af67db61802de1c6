import MelonSoc.Lib.Rv32Run

set_option autoImplicit false

/-! # The RV32C instructions

The compressed instructions of RV32C without floating point: their encodings, what they do, and
the RV32 instruction each of them stands for. All formats are the five fields of `form`.
-/

namespace Rv32c

open Rv32 (Word Reg State Outcome)

/-! ## Syntax -/

/-- A register among `x8` to `x15`. -/
abbrev Reg3 := BitVec 3

/-- The register a short field names. -/
def long (r : Reg3) : Reg := 0b01#2 ++ r

/-- The operations on two registers of the short fields. -/
inductive AluOp
  | sub | xor | or | and
  deriving DecidableEq

/-- An instruction. Immediates come without the bits that are always 0. `nop` is `addi` of register
0, and hints are instructions whose destination is register 0 or that change nothing. -/
inductive Instr
  | addi4spn (rd : Reg3) (imm : BitVec 8)
  | lw (rd rs1 : Reg3) (imm : BitVec 5)
  | sw (rs1 rs2 : Reg3) (imm : BitVec 5)
  | addi (rd : Reg) (imm : BitVec 6)
  | jal (offset : BitVec 11)
  | li (rd : Reg) (imm : BitVec 6)
  | addi16sp (imm : BitVec 6)
  | lui (rd : Reg) (imm : BitVec 6)
  | srli (rd : Reg3) (shamt : BitVec 5)
  | srai (rd : Reg3) (shamt : BitVec 5)
  | andi (rd : Reg3) (imm : BitVec 6)
  | alu (op : AluOp) (rd rs2 : Reg3)
  | j (offset : BitVec 11)
  | beqz (rs1 : Reg3) (offset : BitVec 8)
  | bnez (rs1 : Reg3) (offset : BitVec 8)
  | slli (rd : Reg) (shamt : BitVec 5)
  | lwsp (rd : Reg) (imm : BitVec 6)
  | jr (rs1 : Reg)
  | mv (rd rs2 : Reg)
  | ebreak
  | jalr (rs1 : Reg)
  | add (rd rs2 : Reg)
  | swsp (rs2 : Reg) (imm : BitVec 6)

/-- The operands an instruction may have; codes of others are reserved or are other
instructions. -/
def Instr.Defined : Instr → Prop
  | .addi4spn _ imm => imm ≠ 0#8
  | .addi16sp imm => imm ≠ 0#6
  | .lui rd imm => rd ≠ 2#5 ∧ imm ≠ 0#6
  | .lwsp rd _ => rd ≠ 0#5
  | .jr rs1 => rs1 ≠ 0#5
  | .mv _ rs2 => rs2 ≠ 0#5
  | .jalr rs1 => rs1 ≠ 0#5
  | .add _ rs2 => rs2 ≠ 0#5
  | _ => True

/-! ## Encoding -/

/-- The fields of a compressed instruction, from the highest: `funct3`, bit 12, the register field
`rd`, the field at bits 6 to 2 and the quadrant. -/
def form (f3 : BitVec 3) (b12 : BitVec 1) (hi lo : BitVec 5) (op : BitVec 2) : BitVec 16 :=
  f3 ++ b12 ++ hi ++ lo ++ op

def AluOp.funct2 : AluOp → BitVec 2
  | sub => 0b00#2
  | xor => 0b01#2
  | or => 0b10#2
  | and => 0b11#2

/-- A register and an immediate of six bits, as most instructions hold them. -/
def formCI (f3 : BitVec 3) (imm : BitVec 6) (hi : BitVec 5) (op : BitVec 2) : BitVec 16 :=
  form f3 (imm.extractLsb' 5 1) hi (imm.extractLsb' 0 5) op

/-- The offset of a jump in halfwords. -/
def formCJ (f3 : BitVec 3) (offset : BitVec 11) : BitVec 16 :=
  form f3 (offset.extractLsb' 10 1)
    (offset.extractLsb' 3 1 ++ offset.extractLsb' 7 2 ++ offset.extractLsb' 9 1 ++
      offset.extractLsb' 5 1)
    (offset.extractLsb' 6 1 ++ offset.extractLsb' 0 3 ++ offset.extractLsb' 4 1) 0b01#2

/-- The offset of a branch in halfwords. -/
def formCB (f3 : BitVec 3) (rs1 : Reg3) (offset : BitVec 8) : BitVec 16 :=
  form f3 (offset.extractLsb' 7 1) (offset.extractLsb' 2 2 ++ rs1)
    (offset.extractLsb' 5 2 ++ offset.extractLsb' 0 2 ++ offset.extractLsb' 4 1) 0b01#2

/-- The offset of a load or store in words. -/
def formCL (f3 : BitVec 3) (rs1 r : Reg3) (imm : BitVec 5) : BitVec 16 :=
  form f3 (imm.extractLsb' 3 1) (imm.extractLsb' 1 2 ++ rs1)
    (imm.extractLsb' 0 1 ++ imm.extractLsb' 4 1 ++ r) 0b00#2

def encode : Instr → BitVec 16
  | .addi4spn rd imm =>
      form 0b000#3 (imm.extractLsb' 3 1) (imm.extractLsb' 2 1 ++ imm.extractLsb' 4 4)
        (imm.extractLsb' 0 1 ++ imm.extractLsb' 1 1 ++ rd) 0b00#2
  | .lw rd rs1 imm => formCL 0b010#3 rs1 rd imm
  | .sw rs1 rs2 imm => formCL 0b110#3 rs1 rs2 imm
  | .addi rd imm => formCI 0b000#3 imm rd 0b01#2
  | .jal offset => formCJ 0b001#3 offset
  | .li rd imm => formCI 0b010#3 imm rd 0b01#2
  | .addi16sp imm =>
      form 0b011#3 (imm.extractLsb' 5 1) 2#5
        (imm.extractLsb' 0 1 ++ imm.extractLsb' 2 1 ++ imm.extractLsb' 3 2 ++ imm.extractLsb' 1 1)
        0b01#2
  | .lui rd imm => formCI 0b011#3 imm rd 0b01#2
  | .srli rd shamt => form 0b100#3 0#1 (0b00#2 ++ rd) shamt 0b01#2
  | .srai rd shamt => form 0b100#3 0#1 (0b01#2 ++ rd) shamt 0b01#2
  | .andi rd imm => formCI 0b100#3 imm (0b10#2 ++ rd) 0b01#2
  | .alu op rd rs2 => form 0b100#3 0#1 (0b11#2 ++ rd) (op.funct2 ++ rs2) 0b01#2
  | .j offset => formCJ 0b101#3 offset
  | .beqz rs1 offset => formCB 0b110#3 rs1 offset
  | .bnez rs1 offset => formCB 0b111#3 rs1 offset
  | .slli rd shamt => form 0b000#3 0#1 rd shamt 0b10#2
  | .lwsp rd imm =>
      form 0b010#3 (imm.extractLsb' 3 1) rd (imm.extractLsb' 0 3 ++ imm.extractLsb' 4 2) 0b10#2
  | .jr rs1 => form 0b100#3 0#1 rs1 0#5 0b10#2
  | .mv rd rs2 => form 0b100#3 0#1 rd rs2 0b10#2
  | .ebreak => form 0b100#3 1#1 0#5 0#5 0b10#2
  | .jalr rs1 => form 0b100#3 1#1 rs1 0#5 0b10#2
  | .add rd rs2 => form 0b100#3 1#1 rd rs2 0b10#2
  | .swsp rs2 imm =>
      form 0b110#3 (imm.extractLsb' 3 1) (imm.extractLsb' 0 3 ++ imm.extractLsb' 4 2) rs2 0b10#2

/-- `c` is an instruction or a hint. -/
def Legal (c : BitVec 16) : Prop := ∃ i, Instr.Defined i ∧ encode i = c

/-! ## Fields of a code -/

section Fields

variable (f3 : BitVec 3) (b12 : BitVec 1) (hi lo : BitVec 5) (op : BitVec 2)

@[simp] theorem form_op : (form f3 b12 hi lo op).extractLsb' 0 2 = op :=
  BitVec.extractLsb'_append_eq_right

/-- A part of the field at bits 6 to 2. -/
theorem form_in_lo {start len : Nat} (h : 2 ≤ start) (hlen : start - 2 + len ≤ 5) :
    (form f3 b12 hi lo op).extractLsb' start len = lo.extractLsb' (start - 2) len := by
  unfold form
  rw [BitVec.extractLsb'_append_eq_of_le h, BitVec.extractLsb'_append_eq_of_add_le hlen]

/-- A part of the register field. -/
theorem form_in_hi {start len : Nat} (h : 7 ≤ start) (hlen : start - 7 + len ≤ 5) :
    (form f3 b12 hi lo op).extractLsb' start len = hi.extractLsb' (start - 7) len := by
  unfold form
  rw [BitVec.extractLsb'_append_eq_of_le (by omega), BitVec.extractLsb'_append_eq_of_le (by omega),
    BitVec.extractLsb'_append_eq_of_add_le (by omega)]
  congr 1

@[simp] theorem form_lo : (form f3 b12 hi lo op).extractLsb' 2 5 = lo := by
  rw [form_in_lo _ _ _ _ _ (by decide) (by decide)]
  exact BitVec.extractLsb'_eq_self

@[simp] theorem form_hi : (form f3 b12 hi lo op).extractLsb' 7 5 = hi := by
  rw [form_in_hi _ _ _ _ _ (by decide) (by decide)]
  exact BitVec.extractLsb'_eq_self

@[simp] theorem form_b12 : (form f3 b12 hi lo op).extractLsb' 12 1 = b12 := by
  unfold form
  rw [BitVec.extractLsb'_append_eq_of_le (by decide), BitVec.extractLsb'_append_eq_of_le (by decide),
    BitVec.extractLsb'_append_eq_of_le (by decide)]
  exact BitVec.extractLsb'_append_eq_right

/-- Bit 12 by itself. -/
@[simp] theorem form_bit12 : (form f3 b12 hi lo op).getLsbD 12 = b12.getLsbD 0 := by
  conv => rhs; rw [← form_b12 f3 b12 hi lo op]
  rw [BitVec.getLsbD_extractLsb']
  rfl

@[simp] theorem form_f3 : (form f3 b12 hi lo op).extractLsb' 13 3 = f3 := by
  unfold form
  rw [BitVec.extractLsb'_append_eq_of_le (by decide), BitVec.extractLsb'_append_eq_of_le (by decide),
    BitVec.extractLsb'_append_eq_of_le (by decide)]
  exact BitVec.extractLsb'_append_eq_left

/-- Bit 12 and the upper bits of the register field next to it. -/
theorem form_span (start len : Nat) (h : 7 ≤ start) (hlen : start + len = 12) :
    (form f3 b12 hi lo op).extractLsb' start (1 + len) = b12 ++ hi.extractLsb' (start - 7) len := by
  rw [← form_in_hi f3 b12 hi lo op h (by omega)]
  conv => rhs; lhs; rw [← form_b12 f3 b12 hi lo op]
  exact (BitVec.extractLsb'_append_extractLsb'_eq_extractLsb' hlen.symm).symm

/-- The fields of a code make up the code. -/
theorem form_fields (c : BitVec 16) :
    form (c.extractLsb' 13 3) (c.extractLsb' 12 1) (c.extractLsb' 7 5) (c.extractLsb' 2 5)
      (c.extractLsb' 0 2) = c := by
  unfold form
  rw [BitVec.extractLsb'_append_extractLsb'_eq_extractLsb' (show 13 = 12 + 1 from rfl),
    BitVec.extractLsb'_append_extractLsb'_eq_extractLsb' (show 12 = 7 + 5 from rfl),
    BitVec.extractLsb'_append_extractLsb'_eq_extractLsb' (show 7 = 2 + 5 from rfl),
    BitVec.extractLsb'_append_extractLsb'_eq_extractLsb' (show 2 = 0 + 2 from rfl)]
  exact BitVec.extractLsb'_eq_self
end Fields

/-! ## Codes in each format -/

section Joins

variable (c : BitVec 16)

theorem formCI_join :
    formCI (c.extractLsb' 13 3) (c.extractLsb' 12 1 ++ c.extractLsb' 2 5) (c.extractLsb' 7 5)
      (c.extractLsb' 0 2) = c := by
  rw [formCI, BitVec.extractLsb'_append_eq_left, BitVec.extractLsb'_append_eq_right]
  exact form_fields c

theorem formCJ_join (hop : c.extractLsb' 0 2 = 0b01#2) :
    formCJ (c.extractLsb' 13 3) (c.extractLsb' 12 1 ++ c.extractLsb' 8 1 ++ c.extractLsb' 9 2 ++
      c.extractLsb' 6 1 ++ c.extractLsb' 7 1 ++ c.extractLsb' 2 1 ++ c.extractLsb' 11 1 ++
      c.extractLsb' 3 3) = c := by
  conv => rhs; rw [← form_fields c, hop]
  simp (disch := omega) only [formCJ, Nat.reduceSub, BitVec.extractLsb'_append_eq_of_le,
    BitVec.extractLsb'_append_eq_of_add_le, Rv32.extract_extract,
    BitVec.extractLsb'_append_extractLsb'_eq_extractLsb']

theorem formCB_join (hop : c.extractLsb' 0 2 = 0b01#2) :
    formCB (c.extractLsb' 13 3) (c.extractLsb' 7 3) (c.extractLsb' 12 1 ++ c.extractLsb' 5 2 ++
      c.extractLsb' 2 1 ++ c.extractLsb' 10 2 ++ c.extractLsb' 3 2) = c := by
  conv => rhs; rw [← form_fields c, hop]
  simp (disch := omega) only [formCB, Nat.reduceSub, BitVec.extractLsb'_append_eq_of_le,
    BitVec.extractLsb'_append_eq_of_add_le, Rv32.extract_extract,
    BitVec.extractLsb'_append_extractLsb'_eq_extractLsb']

theorem formCL_join (hop : c.extractLsb' 0 2 = 0b00#2) :
    formCL (c.extractLsb' 13 3) (c.extractLsb' 7 3) (c.extractLsb' 2 3)
      (c.extractLsb' 5 1 ++ c.extractLsb' 10 3 ++ c.extractLsb' 6 1) = c := by
  conv => rhs; rw [← form_fields c, hop]
  simp (disch := omega) only [formCL, Nat.reduceSub, BitVec.extractLsb'_append_eq_of_le,
    BitVec.extractLsb'_append_eq_of_add_le, Rv32.extract_extract,
    BitVec.extractLsb'_append_extractLsb'_eq_extractLsb']

end Joins

/-! ## What the instructions do -/

def AluOp.value : AluOp → Word → Word → Word
  | sub, a, b => a - b
  | xor, a, b => a ^^^ b
  | or, a, b => a ||| b
  | and, a, b => a &&& b

/-- A load of a word. -/
def load (rd : Reg) (a : Word) (s : State) : Outcome :=
  if a.toNat % 4 = 0 then
    .next { s.set rd (s.mem (a + 3#32) ++ s.mem (a + 2#32) ++ s.mem (a + 1#32) ++ s.mem a) with
      pc := s.pc + 2#32 }
  else .trap 4#32 a

/-- A store of a word. -/
def store (a v : Word) (s : State) : Outcome :=
  if a.toNat % 4 = 0 then
    .next { s with
      pc := s.pc + 2#32
      mem := fun x => if (x - a).toNat < 4 then v.extractLsb' (8 * (x - a).toNat) 8 else s.mem x }
  else .trap 6#32 a

/-- An instruction that computes `v` into `rd`. -/
def write (rd : Reg) (v : Word) (s : State) : Outcome :=
  .next { s.set rd v with pc := s.pc + 2#32 }

def exec (i : Instr) (s : State) : Outcome :=
  match i with
  | .addi4spn rd imm => write (long rd) (s.get 2#5 + (imm ++ 0#2 : BitVec 10).setWidth 32) s
  | .lw rd rs1 imm =>
      load (long rd) (s.get (long rs1) + (imm ++ 0#2 : BitVec 7).setWidth 32) s
  | .sw rs1 rs2 imm =>
      store (s.get (long rs1) + (imm ++ 0#2 : BitVec 7).setWidth 32) (s.get (long rs2)) s
  | .addi rd imm => write rd (s.get rd + imm.signExtend 32) s
  | .jal offset => .next { s.set 1#5 (s.pc + 2#32) with
      pc := s.pc + (offset ++ 0#1 : BitVec 12).signExtend 32 }
  | .li rd imm => write rd (imm.signExtend 32) s
  | .addi16sp imm => write 2#5 (s.get 2#5 + (imm ++ 0#4 : BitVec 10).signExtend 32) s
  | .lui rd imm => write rd ((imm ++ 0#12 : BitVec 18).signExtend 32) s
  | .srli rd shamt => write (long rd) (s.get (long rd) >>> shamt.toNat) s
  | .srai rd shamt => write (long rd) ((s.get (long rd)).sshiftRight shamt.toNat) s
  | .andi rd imm => write (long rd) (s.get (long rd) &&& imm.signExtend 32) s
  | .alu op rd rs2 => write (long rd) (op.value (s.get (long rd)) (s.get (long rs2))) s
  | .j offset => .next { s with pc := s.pc + (offset ++ 0#1 : BitVec 12).signExtend 32 }
  | .beqz rs1 offset => .next { s with
      pc := if s.get (long rs1) = 0#32 then s.pc + (offset ++ 0#1 : BitVec 9).signExtend 32
        else s.pc + 2#32 }
  | .bnez rs1 offset => .next { s with
      pc := if s.get (long rs1) ≠ 0#32 then s.pc + (offset ++ 0#1 : BitVec 9).signExtend 32
        else s.pc + 2#32 }
  | .slli rd shamt => write rd (s.get rd <<< shamt.toNat) s
  | .lwsp rd imm => load rd (s.get 2#5 + (imm ++ 0#2 : BitVec 8).setWidth 32) s
  | .jr rs1 => .next { s with pc := s.get rs1 &&& ~~~1#32 }
  | .mv rd rs2 => write rd (s.get rs2) s
  | .ebreak => .trap 3#32 0#32
  | .jalr rs1 => .next { s.set 1#5 (s.pc + 2#32) with pc := s.get rs1 &&& ~~~1#32 }
  | .add rd rs2 => write rd (s.get rd + s.get rs2) s
  | .swsp rs2 imm => store (s.get 2#5 + (imm ++ 0#2 : BitVec 8).setWidth 32) (s.get rs2) s

/-- The instructions whose encodings are hints. -/
def Instr.Hint : Instr → Prop
  | .addi rd imm => rd = 0#5 ∧ imm ≠ 0#6 ∨ rd ≠ 0#5 ∧ imm = 0#6
  | .li rd _ => rd = 0#5
  | .lui rd _ => rd = 0#5
  | .srli _ shamt => shamt = 0#5
  | .srai _ shamt => shamt = 0#5
  | .slli rd shamt => rd = 0#5 ∨ shamt = 0#5
  | .mv rd _ => rd = 0#5
  | .add rd _ => rd = 0#5
  | _ => False

theorem write_zero (v : Word) (s : State) :
    write 0#5 v s = .next { s with pc := s.pc + 2#32 } := rfl

theorem write_get (r : Reg) (s : State) :
    write r (s.get r) s = .next { s with pc := s.pc + 2#32 } := by
  have hset : s.set r (s.get r) = s := by
    by_cases h : r = 0#5
    · rw [h]
      rfl
    · rw [State.set, State.get, if_neg h, if_neg h, Function.update_eq_self]
  rw [write, hset]

/-- A hint changes nothing but the program counter. -/
theorem exec_hint {i : Instr} (h : i.Hint) (s : State) :
    exec i s = .next { s with pc := s.pc + 2#32 } := by
  cases i with
  | addi rd imm =>
      rcases h with ⟨rfl, -⟩ | ⟨-, rfl⟩
      · exact write_zero _ s
      · have hzero : (0#6).signExtend 32 = 0#32 := by decide
        rw [exec, hzero, BitVec.add_zero]
        exact write_get rd s
  | li rd imm | lui rd imm | mv rd rs2 | add rd rs2 =>
      cases h
      exact write_zero _ s
  | srli rd shamt =>
      cases h
      exact write_get (long rd) s
  | srai rd shamt =>
      cases h
      rw [exec, BitVec.toNat_zero, BitVec.sshiftRight_zero]
      exact write_get (long rd) s
  | slli rd shamt =>
      rcases h with rfl | rfl
      · exact write_zero _ s
      · rw [exec, BitVec.toNat_zero, BitVec.shiftLeft_zero]
        exact write_get rd s
  | _ => cases h

/-! ## Expansion -/

def AluOp.regOp : AluOp → Rv32.RegOp
  | sub => .sub
  | xor => .xor
  | or => .or
  | and => .and

/-- The instruction an instruction is short for. -/
def expand : Instr → Rv32.Instr
  | .addi4spn rd imm => .imm .addi (long rd) 2#5 ((imm ++ 0#2 : BitVec 10).setWidth 12)
  | .lw rd rs1 imm => .load .lw (long rd) (long rs1) ((imm ++ 0#2 : BitVec 7).setWidth 12)
  | .sw rs1 rs2 imm => .store .sw (long rs1) (long rs2) ((imm ++ 0#2 : BitVec 7).setWidth 12)
  | .addi rd imm => .imm .addi rd rd (imm.signExtend 12)
  | .jal offset => .jal 1#5 (offset.signExtend 20)
  | .li rd imm => .imm .addi rd 0#5 (imm.signExtend 12)
  | .addi16sp imm => .imm .addi 2#5 2#5 ((imm ++ 0#4 : BitVec 10).signExtend 12)
  | .lui rd imm => .lui rd (imm.signExtend 20)
  | .srli rd shamt => .shift .srli (long rd) (long rd) shamt
  | .srai rd shamt => .shift .srai (long rd) (long rd) shamt
  | .andi rd imm => .imm .andi (long rd) (long rd) (imm.signExtend 12)
  | .alu op rd rs2 => .reg op.regOp (long rd) (long rd) (long rs2)
  | .j offset => .jal 0#5 (offset.signExtend 20)
  | .beqz rs1 offset => .branch .beq (long rs1) 0#5 (offset.signExtend 12)
  | .bnez rs1 offset => .branch .bne (long rs1) 0#5 (offset.signExtend 12)
  | .slli rd shamt => .shift .slli rd rd shamt
  | .lwsp rd imm => .load .lw rd 2#5 ((imm ++ 0#2 : BitVec 8).setWidth 12)
  | .jr rs1 => .jalr 0#5 rs1 0#12
  | .mv rd rs2 => .reg .add rd 0#5 rs2
  | .ebreak => .ebreak
  | .jalr rs1 => .jalr 1#5 rs1 0#12
  | .add rd rs2 => .reg .add rd rd rs2
  | .swsp rs2 imm => .store .sw 2#5 rs2 ((imm ++ 0#2 : BitVec 8).setWidth 12)

theorem load_eq (rd : Reg) (a : Word) (s : State) :
    (if Rv32.LoadOp.lw.aligned a then
      Outcome.next { s.set rd (Rv32.LoadOp.lw.value s.mem a) with pc := s.pc + 2#32 }
      else .trap 4#32 a) = load rd a s := by
  simp [load, Rv32.LoadOp.aligned, Rv32.LoadOp.value]

theorem store_eq (a v : Word) (s : State) :
    (if Rv32.StoreOp.sw.aligned a then
      Outcome.next { s with mem := Rv32.StoreOp.sw.write a v s.mem, pc := s.pc + 2#32 }
      else .trap 6#32 a) = store a v s := by
  by_cases h : a.toNat % 4 = 0
  · rw [store, if_pos h, if_pos (by simpa [Rv32.StoreOp.aligned, Rv32.StoreOp.bytes] using h)]
    rfl
  · rw [store, if_neg h, if_neg (by simpa [Rv32.StoreOp.aligned, Rv32.StoreOp.bytes] using h)]

/-- An instruction does what the instruction it is short for does, but that it is two bytes
long. -/
theorem exec_expand (i : Instr) (s : State) :
    Rv32.exec 2#32 (expand i) s = some (exec i s) := by
  have hjump : ∀ offset : BitVec 11, Rv32.jumpOffset (offset.signExtend 20)
      = (offset ++ 0#1 : BitVec 12).signExtend 32 := by
    intro offset
    rw [Rv32.jumpOffset, Rv32.signExtend_append_zero, Rv32.signExtend_signExtend _ (by decide)]
  have hbranch : ∀ offset : BitVec 8, Rv32.branchOffset (offset.signExtend 12)
      = (offset ++ 0#1 : BitVec 9).signExtend 32 := by
    intro offset
    rw [Rv32.branchOffset, Rv32.signExtend_append_zero, Rv32.signExtend_signExtend _ (by decide)]
  cases i with
  | addi4spn rd imm =>
      rw [expand, Rv32.exec, Rv32.signExtend_setWidth _ (by decide)]
      rfl
  | lw rd rs1 imm | lwsp rd imm =>
      simp only [expand, Rv32.exec]
      rw [Rv32.signExtend_setWidth _ (by decide), load_eq]
      rfl
  | sw rs1 rs2 imm | swsp rs2 imm =>
      simp only [expand, Rv32.exec]
      rw [Rv32.signExtend_setWidth _ (by decide), store_eq]
      rfl
  | addi rd imm | andi rd imm | addi16sp imm =>
      rw [expand, Rv32.exec, Rv32.signExtend_signExtend _ (by decide)]
      rfl
  | jal offset | j offset =>
      rw [expand, Rv32.exec, hjump]
      rfl
  | li rd imm =>
      rw [expand, Rv32.exec, Rv32.signExtend_signExtend _ (by decide), State.get_zero,
        Rv32.ImmOp.value, BitVec.zero_add]
      rfl
  | lui rd imm =>
      rw [expand, Rv32.exec, Rv32.signExtend_append_zero]
      rfl
  | srli rd shamt | srai rd shamt | slli rd shamt => rfl
  | alu op rd rs2 => cases op <;> rfl
  | beqz rs1 offset | bnez rs1 offset =>
      rw [expand, Rv32.exec, hbranch]
      simp [Rv32.BranchOp.taken, exec]
  | jr rs1 | jalr rs1 =>
      have hzero : (0#12).signExtend 32 = 0#32 := by decide
      rw [expand, Rv32.exec, hzero, BitVec.add_zero]
      rfl
  | mv rd rs2 =>
      rw [expand, Rv32.exec, State.get_zero, Rv32.RegOp.value, BitVec.zero_add]
      rfl
  | ebreak | add rd rs2 => rfl

end Rv32c
