import MelonSoc.Lib.Rv32

set_option autoImplicit false

/-! # What RV32 instructions do

The instructions of `Lib/Rv32.lean` that work on the registers, the program counter and the memory
alone. Numbers are integers here wherever an operation is arithmetic, so that signs, halves of
products and the rounding of quotients are those of the instruction set and not of a circuit.
-/

namespace Rv32

/-- The registers, the program counter and the memory. Register 0 reads as zero whatever `reg`
holds for it. -/
structure State where
  reg : Reg → Word
  pc : Word
  mem : Word → Byte

namespace State

def get (s : State) (r : Reg) : Word := if r = 0#5 then 0#32 else s.reg r

/-- Register `r` becomes `v`, register 0 does not change. -/
def set (s : State) (r : Reg) (v : Word) : State :=
  { s with reg := if r = 0#5 then s.reg else Function.update s.reg r v }

@[simp] theorem get_zero (s : State) : s.get 0#5 = 0#32 := rfl

@[simp] theorem set_zero (s : State) (v : Word) : s.set 0#5 v = s := rfl

@[simp] theorem set_pc (s : State) (r : Reg) (v : Word) : (s.set r v).pc = s.pc := rfl

@[simp] theorem set_mem (s : State) (r : Reg) (v : Word) : (s.set r v).mem = s.mem := rfl

end State

/-- An instruction leads to a state or to an exception with a cause and a value. -/
inductive Outcome
  | next (s : State)
  | trap (cause value : Word)

/-! ## Operations -/

def BranchOp.taken : BranchOp → Word → Word → Bool
  | beq, a, b => a == b
  | bne, a, b => a != b
  | blt, a, b => a.toInt < b.toInt
  | bge, a, b => b.toInt ≤ a.toInt
  | bltu, a, b => a.toNat < b.toNat
  | bgeu, a, b => b.toNat ≤ a.toNat

/-- Immediate operations; the immediate has been extended. -/
def ImmOp.value : ImmOp → Word → Word → Word
  | addi, a, b => a + b
  | slti, a, b => if a.toInt < b.toInt then 1#32 else 0#32
  | sltiu, a, b => if a.toNat < b.toNat then 1#32 else 0#32
  | xori, a, b => a ^^^ b
  | ori, a, b => a ||| b
  | andi, a, b => a &&& b

def ShiftOp.value : ShiftOp → Word → BitVec 5 → Word
  | slli, a, n => a <<< n.toNat
  | srli, a, n => a >>> n.toNat
  | srai, a, n => a.sshiftRight n.toNat

def RegOp.value : RegOp → Word → Word → Word
  | add, a, b => a + b
  | sub, a, b => a - b
  | sll, a, b => a <<< (b.toNat % 32)
  | slt, a, b => if a.toInt < b.toInt then 1#32 else 0#32
  | sltu, a, b => if a.toNat < b.toNat then 1#32 else 0#32
  | xor, a, b => a ^^^ b
  | srl, a, b => a >>> (b.toNat % 32)
  | sra, a, b => a.sshiftRight (b.toNat % 32)
  | or, a, b => a ||| b
  | and, a, b => a &&& b

/-- A half of the exact product, of signed or unsigned operands. -/
def MulOp.value : MulOp → Word → Word → Word
  | mul, a, b => BitVec.ofInt 32 (a.toInt * b.toInt)
  | mulh, a, b => BitVec.ofInt 32 (a.toInt * b.toInt / 2 ^ 32)
  | mulhsu, a, b => BitVec.ofInt 32 (a.toInt * b.toNat / 2 ^ 32)
  | mulhu, a, b => BitVec.ofNat 32 (a.toNat * b.toNat / 2 ^ 32)

/-- The quotient is rounded towards zero, the remainder has the sign of the dividend. Division by
zero gives -1 and the dividend; the quotient of `-2^31` and -1 does not fit and wraps. -/
def DivOp.value : DivOp → Word → Word → Word
  | div, a, b => if b = 0#32 then BitVec.ofInt 32 (-1) else BitVec.ofInt 32 (a.toInt.tdiv b.toInt)
  | divu, a, b => if b = 0#32 then BitVec.ofInt 32 (-1) else BitVec.ofNat 32 (a.toNat / b.toNat)
  | rem, a, b => if b = 0#32 then a else BitVec.ofInt 32 (a.toInt.tmod b.toInt)
  | remu, a, b => if b = 0#32 then a else BitVec.ofNat 32 (a.toNat % b.toNat)

/-- The one quotient that does not fit. -/
example : DivOp.div.value 0x80000000#32 0xFFFFFFFF#32 = 0x80000000#32 ∧
    DivOp.rem.value 0x80000000#32 0xFFFFFFFF#32 = 0#32 := by decide

/-! ## Memory -/

/-- The access at `a` is aligned. -/
def LoadOp.aligned : LoadOp → Word → Bool
  | lb, _ => true
  | lh, a => a.toNat % 2 == 0
  | lw, a => a.toNat % 4 == 0
  | lbu, _ => true
  | lhu, a => a.toNat % 2 == 0

/-- What a load reads, little endian. -/
def LoadOp.value : LoadOp → (Word → Byte) → Word → Word
  | lb, m, a => (m a).signExtend 32
  | lh, m, a => (m (a + 1#32) ++ m a : BitVec 16).signExtend 32
  | lw, m, a => m (a + 3#32) ++ m (a + 2#32) ++ m (a + 1#32) ++ m a
  | lbu, m, a => (m a).setWidth 32
  | lhu, m, a => (m (a + 1#32) ++ m a : BitVec 16).setWidth 32

/-- The number of bytes a load reads. -/
def LoadOp.bytes : LoadOp → Nat
  | lb => 1
  | lh => 2
  | lw => 4
  | lbu => 1
  | lhu => 2

/-- The low bytes of a word as a load extends them. -/
def LoadOp.extend : LoadOp → Word → Word
  | lb, w => (w.extractLsb' 0 8).signExtend 32
  | lh, w => (w.extractLsb' 0 16).signExtend 32
  | lw, w => w
  | lbu, w => (w.extractLsb' 0 8).setWidth 32
  | lhu, w => (w.extractLsb' 0 16).setWidth 32

/-- The number of bytes a store writes. -/
def StoreOp.bytes : StoreOp → Nat
  | sb => 1
  | sh => 2
  | sw => 4

def StoreOp.aligned (op : StoreOp) (a : Word) : Bool := a.toNat % op.bytes == 0

/-- The memory after a store of `v` at `a`: the lowest byte goes to the lowest address. -/
def StoreOp.write (op : StoreOp) (a v : Word) (m : Word → Byte) : Word → Byte := fun x =>
  if (x - a).toNat < op.bytes then v.extractLsb' (8 * (x - a).toNat) 8 else m x

/-- A load depends on the bytes that it reads. -/
theorem LoadOp.value_congr (op : LoadOp) {m m' : Word → Byte} {a : Word}
    (h : ∀ k, k < op.bytes → m (a + BitVec.ofNat 32 k) = m' (a + BitVec.ofNat 32 k)) :
    op.value m a = op.value m' a := by
  have h0 : m a = m' a := by
    have h' := h 0 (by cases op <;> decide)
    simpa using h'
  cases op with
  | lb => rw [LoadOp.value, LoadOp.value, h0]
  | lbu => rw [LoadOp.value, LoadOp.value, h0]
  | lh =>
      have h1 : m (a + 1#32) = m' (a + 1#32) := h 1 (by decide)
      rw [LoadOp.value, LoadOp.value, h0, h1]
  | lhu =>
      have h1 : m (a + 1#32) = m' (a + 1#32) := h 1 (by decide)
      rw [LoadOp.value, LoadOp.value, h0, h1]
  | lw =>
      have h1 : m (a + 1#32) = m' (a + 1#32) := h 1 (by decide)
      have h2 : m (a + 2#32) = m' (a + 2#32) := h 2 (by decide)
      have h3 : m (a + 3#32) = m' (a + 3#32) := h 3 (by decide)
      rw [LoadOp.value, LoadOp.value, h0, h1, h2, h3]

/-- The bytes a store leaves where it writes. -/
theorem StoreOp.write_at (op : StoreOp) (a v : Word) (m : Word → Byte) {k : Nat}
    (hk : k < op.bytes) : op.write a v m (a + BitVec.ofNat 32 k) = v.extractLsb' (8 * k) 8 := by
  have hsub : (a + BitVec.ofNat 32 k - a).toNat = k := by
    have hk4 : k < 4 := Nat.lt_of_lt_of_le hk (by cases op <;> decide)
    rw [BitVec.add_comm, BitVec.add_sub_cancel, BitVec.toNat_ofNat]
    omega
  rw [StoreOp.write, hsub, if_pos hk]

/-- A load behind a store of the same width returns what was stored, extended. -/
theorem LoadOp.value_write_same (lop : LoadOp) (op : StoreOp) (h : lop.bytes = op.bytes)
    (a v : Word) (m : Word → Byte) : lop.value (op.write a v m) a = lop.extend v := by
  have hat : ∀ k, k < op.bytes →
      op.write a v m (a + BitVec.ofNat 32 k) = v.extractLsb' (8 * k) 8 :=
    fun k hk => op.write_at a v m hk
  rw [← h] at hat
  have h0 : op.write a v m a = v.extractLsb' 0 8 := by
    have h' := hat 0 (by cases lop <;> decide)
    simpa using h'
  have hhalf : v.extractLsb' 8 8 ++ v.extractLsb' 0 8 = v.extractLsb' 0 16 :=
    BitVec.extractLsb'_append_extractLsb'_eq_extractLsb' (show 8 = 0 + 8 from rfl)
  cases lop with
  | lb => rw [LoadOp.value, LoadOp.extend, h0]
  | lbu => rw [LoadOp.value, LoadOp.extend, h0]
  | lh =>
      have h1 : op.write a v m (a + 1#32) = v.extractLsb' 8 8 := hat 1 (by decide)
      rw [LoadOp.value, LoadOp.extend, h0, h1, hhalf]
  | lhu =>
      have h1 : op.write a v m (a + 1#32) = v.extractLsb' 8 8 := hat 1 (by decide)
      rw [LoadOp.value, LoadOp.extend, h0, h1, hhalf]
  | lw =>
      have h1 : op.write a v m (a + 1#32) = v.extractLsb' 8 8 := hat 1 (by decide)
      have h2 : op.write a v m (a + 2#32) = v.extractLsb' 16 8 := hat 2 (by decide)
      have h3 : op.write a v m (a + 3#32) = v.extractLsb' 24 8 := hat 3 (by decide)
      rw [LoadOp.value, LoadOp.extend, h0, h1, h2, h3,
        BitVec.extractLsb'_append_extractLsb'_eq_extractLsb' (show 24 = 16 + 8 from rfl),
        BitVec.extractLsb'_append_extractLsb'_eq_extractLsb' (show 16 = 8 + 8 from rfl),
        BitVec.extractLsb'_append_extractLsb'_eq_extractLsb' (show 8 = 0 + 8 from rfl)]
      exact BitVec.extractLsb'_eq_self

/-! ## Immediates -/

/-- The bits below an immediate are 0. -/
theorem signExtend_append_zero {m n k : Nat} (x : BitVec (n + 1)) :
    x.signExtend m ++ 0#k = (x ++ 0#k : BitVec (n + 1 + k)).signExtend (m + k) := by
  ext i hi
  have hmsb : (x ++ 0#k : BitVec (n + 1 + k)).msb = x.msb := by
    simp [BitVec.msb_append]
  rw [BitVec.getElem_append, BitVec.getElem_signExtend, hmsb]
  by_cases h0 : i < k
  · have hlt : i < n + 1 + k := by omega
    rw [dif_pos h0, dif_pos hlt, BitVec.getElem_append, dif_pos h0]
  · rw [dif_neg h0, BitVec.getElem_signExtend]
    by_cases hn : i < n + 1 + k
    · have hn' : i - k < n + 1 := by omega
      rw [dif_pos hn, dif_pos hn', BitVec.getElem_append, dif_neg h0]
    · have hn' : ¬ i - k < n + 1 := by omega
      rw [dif_neg hn, dif_neg hn']

theorem signExtend_setWidth {n m k : Nat} (x : BitVec n) (h : n < m) :
    (x.setWidth m).signExtend k = x.setWidth k := by
  have hmsb : (x.setWidth m).msb = false := by
    rw [BitVec.msb_setWidth, BitVec.getLsbD_of_ge x (m - 1) (by omega), Bool.and_false]
  rw [BitVec.signExtend_eq_setWidth_of_msb_false hmsb, BitVec.setWidth_setWidth (by omega)]

theorem signExtend_signExtend {n m k : Nat} (x : BitVec n) (h : n ≤ m) :
    (x.signExtend m).signExtend k = x.signExtend k :=
  congrArg (BitVec.ofInt k) (BitVec.toInt_signExtend_of_le h)

/-! ## Instructions -/

/-- The offset of a branch in bytes. -/
def branchOffset (offset : BitVec 12) : Word := (offset ++ 0#1 : BitVec 13).signExtend 32

/-- The offset of a jump in bytes. -/
def jumpOffset (offset : BitVec 20) : Word := (offset ++ 0#1 : BitVec 21).signExtend 32

/-- What an instruction of `len` bytes does; `none` if that is more than a matter of registers and
memory. An access that is not aligned is an exception. -/
def exec (len : Word) (i : Instr) (s : State) : Option Outcome :=
  let next := s.pc + len
  match i with
  | .lui rd imm => some (.next { s.set rd (imm ++ 0#12) with pc := next })
  | .auipc rd imm => some (.next { s.set rd (s.pc + (imm ++ 0#12)) with pc := next })
  | .jal rd offset => some (.next { s.set rd next with pc := s.pc + jumpOffset offset })
  | .jalr rd rs1 offset =>
      some (.next { s.set rd next with pc := (s.get rs1 + offset.signExtend 32) &&& ~~~1#32 })
  | .branch op rs1 rs2 offset =>
      some (.next { s with
        pc := if op.taken (s.get rs1) (s.get rs2) then s.pc + branchOffset offset else next })
  | .load op rd rs1 offset =>
      let a := s.get rs1 + offset.signExtend 32
      some (if op.aligned a then .next { s.set rd (op.value s.mem a) with pc := next }
        else .trap 4#32 a)
  | .store op rs1 rs2 offset =>
      let a := s.get rs1 + offset.signExtend 32
      some (if op.aligned a then .next { s with mem := op.write a (s.get rs2) s.mem, pc := next }
        else .trap 6#32 a)
  | .imm op rd rs1 imm =>
      some (.next { s.set rd (op.value (s.get rs1) (imm.signExtend 32)) with pc := next })
  | .shift op rd rs1 shamt =>
      some (.next { s.set rd (op.value (s.get rs1) shamt) with pc := next })
  | .reg op rd rs1 rs2 =>
      some (.next { s.set rd (op.value (s.get rs1) (s.get rs2)) with pc := next })
  | .mul op rd rs1 rs2 =>
      some (.next { s.set rd (op.value (s.get rs1) (s.get rs2)) with pc := next })
  | .div op rd rs1 rs2 =>
      some (.next { s.set rd (op.value (s.get rs1) (s.get rs2)) with pc := next })
  | .fence _ _ _ => some (.next { s with pc := next })
  | .ebreak => some (.trap 3#32 0#32)
  | _ => none

end Rv32
