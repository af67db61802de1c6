import MelonSoc.Rtl.SocPkg

set_option autoImplicit false

/-! # Instruction decode

The ID stage of `cpu.sv`: the fields and flags of an instruction word. A record of this type
is what ID hands to EX; `idExOfId` (`Rtl/Core.lean`) stores it in the ID/EX registers.
-/

namespace MelonSoc

/-- The decoded instruction: the `*_d` signals that EX keeps. -/
structure Decoded where
  rs1 : BitVec 5
  rs2 : BitVec 5
  rd : BitVec 5
  funct3 : BitVec 3
  funct7 : BitVec 7
  uimm : Word
  iimm : Word
  simm : Word
  bimm : Word
  jimm : Word
  isALUreg : Bool
  isALUimm : Bool
  isBranch : Bool
  isJALR : Bool
  isJAL : Bool
  isAUIPC : Bool
  isLUI : Bool
  isLoad : Bool
  isStore : Bool
  isCSRRW : Bool
  isCSRRS : Bool
  isCSRRC : Bool
  isMRET : Bool
  isSRET : Bool
  isWFI : Bool
  isSFENCE : Bool
  isEBREAK : Bool
  isECALL : Bool
  isMUL : Bool
  isDIV : Bool
  isAtomic : Bool
  isLR : Bool
  isSC : Bool
  amoOp : BitVec 4
  illegal : Bool

/-! ## Fields -/

def opcodeOf (instr : Word) : BitVec 7 := instr.extractLsb' 0 7
def rdOf (instr : Word) : BitVec 5 := instr.extractLsb' 7 5
def funct3Of (instr : Word) : BitVec 3 := instr.extractLsb' 12 3
def rs1Of (instr : Word) : BitVec 5 := instr.extractLsb' 15 5
def rs2Of (instr : Word) : BitVec 5 := instr.extractLsb' 20 5
def funct7Of (instr : Word) : BitVec 7 := instr.extractLsb' 25 7
def funct5Of (instr : Word) : BitVec 5 := instr.extractLsb' 27 5

def uimmOf (instr : Word) : Word := instr.extractLsb' 12 20 ++ 0#12

def iimmOf (instr : Word) : Word := (instr.extractLsb' 20 12).signExtend 32

def simmOf (instr : Word) : Word :=
  (instr.extractLsb' 25 7 ++ instr.extractLsb' 7 5 : BitVec 12).signExtend 32

def bimmOf (instr : Word) : Word :=
  (instr.extractLsb' 31 1 ++ instr.extractLsb' 7 1 ++ instr.extractLsb' 25 6 ++
    instr.extractLsb' 8 4 : BitVec 12).signExtend 31 ++ 0#1

def jimmOf (instr : Word) : Word :=
  (instr.extractLsb' 31 1 ++ instr.extractLsb' 12 8 ++ instr.extractLsb' 20 1 ++
    instr.extractLsb' 21 10 : BitVec 20).signExtend 31 ++ 0#1

/-- `amo_op_d`. -/
def amoOpOf (funct5 : BitVec 5) : BitVec 4 :=
  if funct5 == 0b00000#5 then 0#4 -- AMOADD
  else if funct5 == 0b00001#5 then 1#4 -- AMOSWAP
  else if funct5 == 0b00100#5 then 2#4 -- AMOXOR
  else if funct5 == 0b01000#5 then 3#4 -- AMOOR
  else if funct5 == 0b01100#5 then 4#4 -- AMOAND
  else if funct5 == 0b10000#5 then 5#4 -- AMOMIN
  else if funct5 == 0b10100#5 then 6#4 -- AMOMAX
  else if funct5 == 0b11000#5 then 7#4 -- AMOMINU
  else if funct5 == 0b11100#5 then 8#4 -- AMOMAXU
  else 0#4

/-- `amo_funct_valid_d`. -/
def amoFunctValid (funct5 : BitVec 5) : Bool :=
  funct5 == 0b00000#5 || funct5 == 0b00001#5 || funct5 == 0b00010#5 || funct5 == 0b00011#5 ||
  funct5 == 0b00100#5 || funct5 == 0b01000#5 || funct5 == 0b01100#5 || funct5 == 0b10000#5 ||
  funct5 == 0b10100#5 || funct5 == 0b11000#5 || funct5 == 0b11100#5

/-! ## The decoder -/

/-- The flags of an instruction; `valid` is `id_valid`, `idIllegal` the verdict of the
compressed expander. `illegal` is `illegal_d`. -/
def decode (valid idIllegal : Bool) (instr : Word) : Decoded :=
  let opcode := opcodeOf instr
  let funct3 := funct3Of instr
  let funct7 := funct7Of instr
  let funct5 := funct5Of instr
  let rs1 := rs1Of instr
  let rs2 := rs2Of instr
  let rd := rdOf instr
  let isALUreg := valid && opcode == 0b0110011#7 && (funct7 == 0b0000000#7 || funct7 == 0b0100000#7)
  let isALUimm := valid && opcode == 0b0010011#7
  let isBranch := valid && opcode == 0b1100011#7
  let isJALR := valid && opcode == 0b1100111#7 && funct3 == 0b000#3
  let isJAL := valid && opcode == 0b1101111#7
  let isAUIPC := valid && opcode == 0b0010111#7
  let isLUI := valid && opcode == 0b0110111#7
  let isLoad := valid && opcode == 0b0000011#7
  let isStore := valid && opcode == 0b0100011#7
  let isSYSTEM := valid && opcode == 0b1110011#7
  let isFENCE := valid && opcode == 0b0001111#7 && funct3 == 0b000#3
  let isFENCEI := valid && opcode == 0b0001111#7 && funct3 == 0b001#3 && rs1 == 0#5 && rd == 0#5 &&
    instr.extractLsb' 20 12 == 0#12
  let isMUL := valid && opcode == 0b0110011#7 && funct7 == 0b0000001#7 && !funct3.getLsbD 2
  let isDIV := valid && opcode == 0b0110011#7 && funct7 == 0b0000001#7 && funct3.getLsbD 2
  let isAtomic := valid && opcode == 0b0101111#7 && funct3 == 0b010#3
  let lrEncoding := isAtomic && funct5 == 0b00010#5
  let scEncoding := isAtomic && funct5 == 0b00011#5
  let isLR := lrEncoding && rs2 == 0#5
  let isSC := scEncoding
  let isCSRRW := isSYSTEM && (funct3 == 0b001#3 || funct3 == 0b101#3)
  let isCSRRS := isSYSTEM && (funct3 == 0b010#3 || funct3 == 0b110#3)
  let isCSRRC := isSYSTEM && (funct3 == 0b011#3 || funct3 == 0b111#3)
  let isMRET := isSYSTEM && instr == 0x30200073#32
  let isSRET := isSYSTEM && instr == 0x10200073#32
  let isWFI := isSYSTEM && instr == 0x10500073#32
  let isSFENCE := isSYSTEM && funct3 == 0b000#3 && funct7 == 0b0001001#7 && rd == 0#5
  let isEBREAK := isSYSTEM && instr == 0x00100073#32
  let isECALL := isSYSTEM && instr == 0x00000073#32
  -- `alu_reg_funct_valid_d` and the `funct3` test of `alu_imm_valid_d` list all eight values
  let branchValid := isBranch && (funct3 == 0b000#3 || funct3 == 0b001#3 || funct3 == 0b100#3 ||
    funct3 == 0b101#3 || funct3 == 0b110#3 || funct3 == 0b111#3)
  let loadValid := isLoad && (funct3 == 0b000#3 || funct3 == 0b001#3 || funct3 == 0b010#3 ||
    funct3 == 0b100#3 || funct3 == 0b101#3)
  let storeValid := isStore && (funct3 == 0b000#3 || funct3 == 0b001#3 || funct3 == 0b010#3)
  let systemValid := isMRET || isSRET || isWFI || isSFENCE || isEBREAK || isECALL ||
    isCSRRW || isCSRRS || isCSRRC
  let decodedValid := (isALUreg || isMUL || isDIV) || isALUimm || branchValid ||
    (isJALR || isJAL) || (isAUIPC || isLUI) ||
    loadValid || storeValid || systemValid || isFENCE || isFENCEI ||
    (lrEncoding && rs2 == 0#5) || scEncoding ||
    (isAtomic && amoFunctValid funct5 && !lrEncoding && !scEncoding)
  { rs1, rs2, rd, funct3, funct7
    uimm := uimmOf instr, iimm := iimmOf instr, simm := simmOf instr
    bimm := bimmOf instr, jimm := jimmOf instr
    isALUreg, isALUimm, isBranch, isJALR, isJAL, isAUIPC, isLUI, isLoad, isStore
    isCSRRW, isCSRRS, isCSRRC, isMRET, isSRET, isWFI, isSFENCE, isEBREAK, isECALL
    isMUL, isDIV, isAtomic, isLR, isSC
    amoOp := amoOpOf funct5
    illegal := valid && (idIllegal || !decodedValid) }

/-! ## Operands -/

/-- `uses_rs1_d`: the instruction reads its first source register. -/
def usesRs1 (d : Decoded) : Bool :=
  d.isALUreg || d.isALUimm || d.isBranch || d.isJALR || d.isLoad || d.isStore || d.isMUL ||
  d.isDIV || d.isAtomic || (d.isCSRRW && !d.funct3.getLsbD 2) ||
  (d.isCSRRS && !d.funct3.getLsbD 2) || (d.isCSRRC && !d.funct3.getLsbD 2)

/-- `uses_rs2_d`: the instruction reads its second source register. -/
def usesRs2 (d : Decoded) : Bool :=
  d.isALUreg || d.isBranch || d.isStore || d.isMUL || d.isDIV || (d.isAtomic && !d.isLR)

end MelonSoc
