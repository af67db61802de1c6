import MelonSoc.Rtl.Cpu.Regs

set_option autoImplicit false

/-! # The functions of EX and WB

What EX computes from the ID/EX registers and two operands, and how WB formats a load. The
operands are parameters here; `Rtl/Cpu/Signals.lean` applies these functions to the forwarded
ones.
-/

namespace MelonSoc

/-! ## Functions of `cpu.sv` -/

/-- `arithmetic_shift_right`. -/
def arithmeticShiftRight (value : Word) (amount : BitVec 5) : Word :=
  let signFill := (if value.getLsbD 31 then 0xFFFFFFFF#32 else 0#32) &&&
    ~~~(0xFFFFFFFF#32 >>> amount.toNat)
  (value >>> amount.toNat) ||| signFill

/-- `format_load_data`. -/
def formatLoadData (word : Word) (funct3 : BitVec 3) (addrLow : BitVec 2) : Word :=
  let halfValue : BitVec 16 :=
    if addrLow.getLsbD 1 then word.extractLsb' 16 16 else word.extractLsb' 0 16
  let byteValue : BitVec 8 :=
    if addrLow.getLsbD 0 then halfValue.extractLsb' 8 8 else halfValue.extractLsb' 0 8
  let isByte := funct3.extractLsb' 0 2 == 0b00#2
  let signBit := !funct3.getLsbD 2 && (if isByte then byteValue.getLsbD 7 else halfValue.getLsbD 15)
  if isByte then (if signBit then 0xFFFFFF#24 else 0#24) ++ byteValue
  else if funct3.extractLsb' 0 2 == 0b01#2 then (if signBit then 0xFFFF#16 else 0#16) ++ halfValue
  else word

/-- `amo_compute`. -/
def amoCompute (op : BitVec 4) (oldValue rhs : Word) : Word :=
  if op == 0#4 then oldValue + rhs
  else if op == 1#4 then rhs
  else if op == 2#4 then oldValue ^^^ rhs
  else if op == 3#4 then oldValue ||| rhs
  else if op == 4#4 then oldValue &&& rhs
  else if op == 5#4 then (if oldValue.slt rhs then oldValue else rhs)
  else if op == 6#4 then (if rhs.slt oldValue then oldValue else rhs)
  else if op == 7#4 then (if oldValue < rhs then oldValue else rhs)
  else if op == 8#4 then (if rhs < oldValue then oldValue else rhs)
  else oldValue

namespace IdEx

/-! ## The arithmetic of EX -/

def exAluIn2 (e : IdEx) (rs2 : Word) : Word := if e.isALUreg then rs2 else e.iimm

/-- `ex_alu_out`. -/
def exAluOut (e : IdEx) (rs1 rs2 : Word) : Word :=
  let shamt : BitVec 5 := if e.isALUreg then rs2.extractLsb' 0 5 else e.instr.extractLsb' 20 5
  let isSub := e.isALUreg && e.funct7.getLsbD 5
  let in2 := e.exAluIn2 rs2
  if e.funct3 == 0b000#3 then (if isSub then rs1 - in2 else rs1 + in2)
  else if e.funct3 == 0b001#3 then rs1 <<< shamt.toNat
  else if e.funct3 == 0b010#3 then (if rs1.slt in2 then 1#32 else 0#32)
  else if e.funct3 == 0b011#3 then (if rs1 < in2 then 1#32 else 0#32)
  else if e.funct3 == 0b100#3 then rs1 ^^^ in2
  else if e.funct3 == 0b101#3 then
    (if e.funct7.getLsbD 5 then arithmeticShiftRight rs1 shamt else rs1 >>> shamt.toNat)
  else if e.funct3 == 0b110#3 then rs1 ||| in2
  else rs1 &&& in2

/-- `ex_take_branch`. -/
def exTakeBranch (e : IdEx) (rs1 rs2 : Word) : Bool :=
  if e.funct3 == 0b000#3 then rs1 == rs2
  else if e.funct3 == 0b001#3 then rs1 != rs2
  else if e.funct3 == 0b100#3 then rs1.slt rs2
  else if e.funct3 == 0b101#3 then !rs1.slt rs2
  else if e.funct3 == 0b110#3 then rs1 < rs2
  else if e.funct3 == 0b111#3 then !(rs1 < rs2 : Bool)
  else false

/-- The product selected by `funct3`. -/
def exMul (e : IdEx) (rs1 rs2 : Word) : Word :=
  let u1 : BitVec 64 := rs1.setWidth 64
  let u2 : BitVec 64 := rs2.setWidth 64
  let s1 : BitVec 64 := rs1.signExtend 64
  let s2 : BitVec 64 := rs2.signExtend 64
  if e.funct3 == 0b000#3 then (u1 * u2).extractLsb' 0 32
  else if e.funct3 == 0b001#3 then (s1 * s2).extractLsb' 32 32
  else if e.funct3 == 0b010#3 then (s1 * u2).extractLsb' 32 32
  else (u1 * u2).extractLsb' 32 32

/-- `ex_addr`. -/
def exAddr (e : IdEx) (rs1 : Word) : Word :=
  if e.isAtomic then rs1 else rs1 + (if e.isStore then e.simm else e.iimm)

/-- `ex_misaligned`. -/
def exMisaligned (e : IdEx) (addr : Word) : Bool :=
  e.valid &&
    (((e.isAtomic || ((e.isLoad || e.isStore) && e.funct3.extractLsb' 0 2 == 0b10#2)) &&
        addr.extractLsb' 0 2 != 0b00#2) ||
     (((e.isLoad || e.isStore) && e.funct3.extractLsb' 0 2 == 0b01#2) && addr.getLsbD 0))

/-- `ex_store_wdata`, with the value it keeps for other instructions. -/
def exStoreWdata (e : IdEx) (addr rs2 : Word) : Word :=
  if e.isStore then
    (if addr.getLsbD 0 then rs2.extractLsb' 0 8
      else if addr.getLsbD 1 then rs2.extractLsb' 8 8 else rs2.extractLsb' 24 8) ++
    (if addr.getLsbD 1 then rs2.extractLsb' 0 8 else rs2.extractLsb' 16 8) ++
    (if addr.getLsbD 0 then rs2.extractLsb' 0 8 else rs2.extractLsb' 8 8) ++
    rs2.extractLsb' 0 8
  else 0#32

/-- `ex_store_wmask` before a trap or a stall clears it. -/
def exStoreMask (e : IdEx) (addr : Word) : BitVec 4 :=
  if e.isStore then
    if e.funct3.extractLsb' 0 2 == 0b00#2 then
      (if addr.getLsbD 1 then (if addr.getLsbD 0 then 0b1000#4 else 0b0100#4)
        else if addr.getLsbD 0 then 0b0010#4 else 0b0001#4)
    else if e.funct3.extractLsb' 0 2 == 0b01#2 then
      (if addr.getLsbD 1 then 0b1100#4 else 0b0011#4)
    else 0b1111#4
  else 0b0000#4

/-! ## The result of EX

The `if` chain that selects `ex_wb_en` and `ex_wb_value`; it is shared by both. -/

/-- `ex_wb_en` before a trap or a stall clears it. -/
def exWriteEn (e : IdEx) (divResultValid : Bool) : Bool :=
  e.valid &&
    (e.isMUL || (e.isALUreg || e.isALUimm) || (e.isDIV && divResultValid) ||
     (e.isJAL || e.isJALR) || e.isLUI || e.isAUIPC ||
     (e.isCSRRS || e.isCSRRC || e.isCSRRW) || e.isLoad)

/-- `ex_wb_value`. -/
def exWriteValue (e : IdEx) (rs1 rs2 csrRdata : Word) (div : Divider) : Word :=
  if !e.valid then 0#32
  else if e.isMUL then e.exMul rs1 rs2
  else if e.isALUreg || e.isALUimm then e.exAluOut rs1 rs2
  else if e.isDIV && div.resultValid then
    (if e.funct3.getLsbD 1 then div.resultR else div.resultQ)
  else if e.isJAL || e.isJALR then e.pc + e.len
  else if e.isLUI then e.uimm
  else if e.isAUIPC then e.pc + e.uimm
  else if e.isCSRRS || e.isCSRRC || e.isCSRRW then csrRdata
  else 0#32

/-! ## CSR operands -/

/-- `ex_csr_addr`. -/
def exCsrAddr (e : IdEx) : BitVec 12 := e.instr.extractLsb' 20 12

/-- `csr_valid`. -/
def csrValid (e : IdEx) : Bool := e.isCSRRS || e.isCSRRC || e.isCSRRW

/-- `ex_csr_wdata`; with `funct3[2]` the operand is the 5-bit immediate. -/
def exCsrWdata (e : IdEx) (rs1 csrRdata : Word) : Word :=
  let opA := if e.funct3.getLsbD 2 then e.rs1.setWidth 32 else rs1
  if e.funct3.extractLsb' 0 2 == 0b01#2 then opA
  else if e.funct3.extractLsb' 0 2 == 0b10#2 then csrRdata ||| opA
  else if e.funct3.extractLsb' 0 2 == 0b11#2 then csrRdata &&& ~~~opA
  else opA

end IdEx

end MelonSoc
