import MelonSoc.Rtl.SocPkg

set_option autoImplicit false

/-! # RVC expansion

`rvc.sv`: a 16-bit compressed code is expanded into the 32-bit instruction it abbreviates.
A reserved or unimplemented code is marked illegal and expands to a NOP.
-/

namespace MelonSoc

/-- `rvc_exp_t`. -/
structure RvcExp where
  illegal : Bool
  insn : Word

/-! ## Encoders -/

def rvEncI (imm12 : BitVec 12) (rs1 : BitVec 5) (funct3 : BitVec 3) (rd : BitVec 5)
    (opcode : BitVec 7) : Word :=
  imm12 ++ rs1 ++ funct3 ++ rd ++ opcode

def rvEncR (funct7 : BitVec 7) (rs2 rs1 : BitVec 5) (funct3 : BitVec 3) (rd : BitVec 5)
    (opcode : BitVec 7) : Word :=
  funct7 ++ rs2 ++ rs1 ++ funct3 ++ rd ++ opcode

def rvEncS (imm12 : BitVec 12) (rs2 rs1 : BitVec 5) (funct3 : BitVec 3)
    (opcode : BitVec 7) : Word :=
  imm12.extractLsb' 5 7 ++ rs2 ++ rs1 ++ funct3 ++ imm12.extractLsb' 0 5 ++ opcode

def rvEncU (imm20 : BitVec 20) (rd : BitVec 5) (opcode : BitVec 7) : Word :=
  imm20 ++ rd ++ opcode

def rvEncB (imm13 : BitVec 13) (rs2 rs1 : BitVec 5) (funct3 : BitVec 3)
    (opcode : BitVec 7) : Word :=
  imm13.extractLsb' 12 1 ++ imm13.extractLsb' 5 6 ++ rs2 ++ rs1 ++ funct3 ++
    imm13.extractLsb' 1 4 ++ imm13.extractLsb' 11 1 ++ opcode

def rvEncJ (imm21 : BitVec 21) (rd : BitVec 5) (opcode : BitVec 7) : Word :=
  imm21.extractLsb' 20 1 ++ imm21.extractLsb' 1 10 ++ imm21.extractLsb' 11 1 ++
    imm21.extractLsb' 12 8 ++ rd ++ opcode

/-! ## Immediates of the compressed formats -/

/-- `{{7{c[12]}}, c[6:2]}`, the immediate of C.ADDI, C.LI and C.ANDI. -/
def rvcImm6 (c : BitVec 16) : BitVec 12 :=
  (c.extractLsb' 12 1 ++ c.extractLsb' 2 5 : BitVec 6).signExtend 12

/-- The offset of C.LW and C.SW. -/
def rvcImmLw (c : BitVec 16) : BitVec 12 :=
  (c.extractLsb' 5 1 ++ c.extractLsb' 10 3 ++ c.extractLsb' 6 1 ++ 0#2 : BitVec 7).setWidth 12

/-- The offset of C.J and C.JAL. -/
def rvcImmJ (c : BitVec 16) : BitVec 21 :=
  (c.extractLsb' 12 1 ++ c.extractLsb' 8 1 ++ c.extractLsb' 9 2 ++ c.extractLsb' 6 1 ++
    c.extractLsb' 7 1 ++ c.extractLsb' 2 1 ++ c.extractLsb' 11 1 ++ c.extractLsb' 3 3 ++
    0#1 : BitVec 12).signExtend 21

/-- The offset of C.BEQZ and C.BNEZ. -/
def rvcImmB (c : BitVec 16) : BitVec 13 :=
  (c.extractLsb' 12 1 ++ c.extractLsb' 5 2 ++ c.extractLsb' 2 1 ++ c.extractLsb' 10 2 ++
    c.extractLsb' 3 2 ++ 0#1 : BitVec 9).signExtend 13

/-! ## The three quadrants -/

/-- The NOP an illegal code expands to. -/
def rvcNop : Word := 0x00000013#32

def rvcIllegal : RvcExp := ⟨true, rvcNop⟩

def rvcLegal (insn : Word) : RvcExp := ⟨false, insn⟩

/-- Quadrant `2'b00`: C.ADDI4SPN, C.LW, C.SW. -/
def rvcExpand0 (c : BitVec 16) : RvcExp :=
  let funct3 := c.extractLsb' 13 3
  let rdp : BitVec 5 := 1#2 ++ c.extractLsb' 2 3
  let rs1p : BitVec 5 := 1#2 ++ c.extractLsb' 7 3
  if funct3 == 0#3 then
    let imm12 : BitVec 12 := (c.extractLsb' 7 4 ++ c.extractLsb' 11 2 ++ c.extractLsb' 5 1 ++
      c.extractLsb' 6 1 ++ 0#2 : BitVec 10).setWidth 12
    if imm12 == 0#12 then rvcIllegal
    else rvcLegal (rvEncI imm12 2#5 0#3 rdp 0b0010011#7)
  else if funct3 == 2#3 then
    rvcLegal (rvEncI (rvcImmLw c) rs1p 2#3 rdp 0b0000011#7)
  else if funct3 == 6#3 then
    rvcLegal (rvEncS (rvcImmLw c) rdp rs1p 2#3 0b0100011#7)
  else rvcIllegal

/-- The register-register and shift group of quadrant `2'b01`, `funct3 = 3'b100`. -/
def rvcExpandAlu (c : BitVec 16) : RvcExp :=
  let rs1p : BitVec 5 := 1#2 ++ c.extractLsb' 7 3
  let rs2p : BitVec 5 := 1#2 ++ c.extractLsb' 2 3
  let shamt : BitVec 5 := c.extractLsb' 2 5
  let sel := c.extractLsb' 10 2
  if sel == 0#2 then
    if c.getLsbD 12 then rvcIllegal
    else rvcLegal (rvEncI (0#7 ++ shamt) rs1p 5#3 rs1p 0b0010011#7)
  else if sel == 1#2 then
    if c.getLsbD 12 then rvcIllegal
    else rvcLegal (rvEncI (0b0100000#7 ++ shamt) rs1p 5#3 rs1p 0b0010011#7)
  else if sel == 2#2 then
    rvcLegal (rvEncI (rvcImm6 c) rs1p 7#3 rs1p 0b0010011#7)
  else if c.getLsbD 12 then rvcIllegal
  else
    let op2 := c.extractLsb' 5 2
    if op2 == 0#2 then rvcLegal (rvEncR 0b0100000#7 rs2p rs1p 0#3 rs1p 0b0110011#7)
    else if op2 == 1#2 then rvcLegal (rvEncR 0#7 rs2p rs1p 4#3 rs1p 0b0110011#7)
    else if op2 == 2#2 then rvcLegal (rvEncR 0#7 rs2p rs1p 6#3 rs1p 0b0110011#7)
    else rvcLegal (rvEncR 0#7 rs2p rs1p 7#3 rs1p 0b0110011#7)

/-- Quadrant `2'b01`. -/
def rvcExpand1 (c : BitVec 16) : RvcExp :=
  let funct3 := c.extractLsb' 13 3
  let rd : BitVec 5 := c.extractLsb' 7 5
  let rs1p : BitVec 5 := 1#2 ++ c.extractLsb' 7 3
  if funct3 == 0#3 then rvcLegal (rvEncI (rvcImm6 c) rd 0#3 rd 0b0010011#7)
  else if funct3 == 1#3 then rvcLegal (rvEncJ (rvcImmJ c) 1#5 0b1101111#7)
  else if funct3 == 2#3 then rvcLegal (rvEncI (rvcImm6 c) 0#5 0#3 rd 0b0010011#7)
  else if funct3 == 3#3 then
    if rd == 2#5 then
      let imm12 : BitVec 12 := (c.extractLsb' 12 1 ++ c.extractLsb' 3 2 ++ c.extractLsb' 5 1 ++
        c.extractLsb' 2 1 ++ c.extractLsb' 6 1 ++ 0#4 : BitVec 10).signExtend 12
      if imm12 == 0#12 then rvcIllegal
      else rvcLegal (rvEncI imm12 2#5 0#3 2#5 0b0010011#7)
    else if rd != 0#5 then
      let uimm : BitVec 20 := (c.extractLsb' 12 1 ++ c.extractLsb' 2 5 : BitVec 6).signExtend 20
      if uimm.extractLsb' 0 6 == 0#6 then rvcIllegal
      else rvcLegal (rvEncU uimm rd 0b0110111#7)
    else rvcIllegal
  else if funct3 == 4#3 then rvcExpandAlu c
  else if funct3 == 5#3 then rvcLegal (rvEncJ (rvcImmJ c) 0#5 0b1101111#7)
  else if funct3 == 6#3 then rvcLegal (rvEncB (rvcImmB c) 0#5 rs1p 0#3 0b1100011#7)
  else rvcLegal (rvEncB (rvcImmB c) 0#5 rs1p 1#3 0b1100011#7)

/-- Quadrant `2'b10`. -/
def rvcExpand2 (c : BitVec 16) : RvcExp :=
  let funct3 := c.extractLsb' 13 3
  let rd : BitVec 5 := c.extractLsb' 7 5
  let rs2 : BitVec 5 := c.extractLsb' 2 5
  if funct3 == 0#3 then
    if c.getLsbD 12 then rvcIllegal
    else rvcLegal (rvEncI (0#7 ++ rs2) rd 1#3 rd 0b0010011#7)
  else if funct3 == 2#3 then
    if rd == 0#5 then rvcIllegal
    else
      let imm12 : BitVec 12 := (c.extractLsb' 2 2 ++ c.extractLsb' 12 1 ++ c.extractLsb' 4 3 ++
        0#2 : BitVec 8).setWidth 12
      rvcLegal (rvEncI imm12 2#5 2#3 rd 0b0000011#7)
  else if funct3 == 4#3 then
    if !c.getLsbD 12 then
      if rs2 == 0#5 then
        if rd == 0#5 then rvcIllegal else rvcLegal (rvEncI 0#12 rd 0#3 0#5 0b1100111#7)
      else rvcLegal (rvEncR 0#7 rs2 0#5 0#3 rd 0b0110011#7)
    else if rs2 == 0#5 then
      if rd == 0#5 then rvcLegal 0x00100073#32
      else rvcLegal (rvEncI 0#12 rd 0#3 1#5 0b1100111#7)
    else rvcLegal (rvEncR 0#7 rs2 rd 0#3 rd 0b0110011#7)
  else if funct3 == 6#3 then
    let imm12 : BitVec 12 := (c.extractLsb' 7 2 ++ c.extractLsb' 9 4 ++ 0#2 : BitVec 8).setWidth 12
    rvcLegal (rvEncS imm12 rs2 2#5 2#3 0b0100011#7)
  else rvcIllegal

def rvcExpand (c : BitVec 16) : RvcExp :=
  let op := c.extractLsb' 0 2
  if op == 0#2 then rvcExpand0 c
  else if op == 1#2 then rvcExpand1 c
  else if op == 2#2 then rvcExpand2 c
  else rvcIllegal

end MelonSoc
