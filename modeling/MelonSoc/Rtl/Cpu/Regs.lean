import MelonSoc.Rtl.Decode
import MelonSoc.Rtl.Divider
import MelonSoc.Rtl.PrivCsr

set_option autoImplicit false

/-! # The registers of the core

`cpu.sv` without its MMU, register by register: the fetch frontend, the stages ID, ID/EX,
EX/MEM and MEM/WB, the atomic unit, the register file, and the two submodules `divider` and
`priv_csr`. `halt_now` is tied to 0 in the source, so `halted` is constantly 0 and both are
left out, as are the registers nothing reads (`if_pc`, `id_ex_isFENCE`, `*_aq`, `*_rl`,
`atomic_old_value`, `atomic_is_lr`, `atomic_is_sc`).
-/

namespace MelonSoc

/-- The halfword queue between F2 and ID. -/
structure Ibuf where
  ibuf : BitVec 128
  fetchFault : BitVec 8
  fetchPageFault : BitVec 8
  hwCount : BitVec 4
  pcI : Word
  dropHalfword : Bool

/-- IF, F2 and the queue. -/
structure Frontend where
  pcF : Word
  ifValid : Bool
  ifFetchFault : Bool
  ifFetchPageFault : Bool
  f2Word : Word
  f2Valid : Bool
  f2FetchFault : Bool
  f2FetchPageFault : Bool
  q : Ibuf

/-- The ID registers. -/
structure IdStage where
  valid : Bool
  pc : Word
  instr : Word
  len : Word
  illegal : Bool
  illegalValue : Word
  fetchFault : Bool
  fetchPageFault : Bool
  fetchFaultValue : Word

/-- The ID/EX registers. -/
structure IdEx extends Decoded where
  valid : Bool
  pc : Word
  instr : Word
  len : Word
  rs1Val : Word
  rs2Val : Word
  illegalValue : Word
  fetchFault : Bool
  fetchPageFault : Bool
  fetchFaultValue : Word

/-- The EX/MEM registers. -/
structure ExMem where
  valid : Bool
  rd : BitVec 5
  isLoad : Bool
  isStore : Bool
  isAtomic : Bool
  isLR : Bool
  isSC : Bool
  funct3 : BitVec 3
  amoOp : BitVec 4
  rs2Value : Word
  addr : Word
  storeWdata : Word
  storeWmask : BitVec 4
  wbEn : Bool
  wbValue : Word

/-- The MEM/WB registers. -/
structure MemWb where
  valid : Bool
  rd : BitVec 5
  isLoad : Bool
  funct3 : BitVec 3
  addrLow : BitVec 2
  loadWord : Word
  wbEn : Bool
  wbValue : Word

/-- `atomic_state_t`. -/
inductive AtomicState
  | idle
  | lrRead
  | lrCapture
  | scWrite
  | amoRead
  | amoCapture
  | amoWrite
  | complete
  deriving DecidableEq

/-- The registers of the atomic unit and the reservation. -/
structure AtomicUnit where
  state : AtomicState
  started : Bool
  addr : Word
  storeData : Word
  newValue : Word
  result : Word
  rd : BitVec 5
  op : BitVec 4
  reservationValid : Bool
  reservationWordAddr : BitVec 30
  wbValid : Bool
  wbRd : BitVec 5
  wbValue : Word

/-- The register file. -/
abbrev RegBank := BitVec 5 → Word

/-- All registers of `cpu.sv` but those of `u_mmu`. -/
structure Core where
  fe : Frontend
  id : IdStage
  idEx : IdEx
  exMem : ExMem
  memWb : MemWb
  atomic : AtomicUnit
  memStarted : Bool
  regBank : RegBank
  div : Divider
  csr : PrivCsr

/-- What the core receives in a cycle besides fetched words: the interrupt lines, the external
write monitor, the answer on `core_data` and the outputs of the data side of `u_mmu`. -/
structure CoreIn where
  extIrq : Bool
  swIrq : Bool
  timerIrq : Bool
  extWriteValid : Bool
  extWriteAddr : Word
  extWriteSel : BitVec 4
  ack : Bool
  datR : Word
  dReqReady : Bool
  dPaddr : Word
  dPageFault : Bool
  dAccessFault : Bool

/-- What the fetch side of `u_mmu` answers: `core_instr` and the fault flags. -/
structure FetchIn where
  rdata : Word
  stall : Bool
  fault : Bool
  pageFault : Bool

/-! ## Reset -/

def Ibuf.reset : Ibuf :=
  { ibuf := 0#128, fetchFault := 0#8, fetchPageFault := 0#8, hwCount := 0#4, pcI := 0#32
    dropHalfword := false }

def Frontend.reset : Frontend :=
  { pcF := 0#32, ifValid := false, ifFetchFault := false, ifFetchPageFault := false
    f2Word := 0#32, f2Valid := false, f2FetchFault := false, f2FetchPageFault := false
    q := Ibuf.reset }

def IdStage.reset : IdStage :=
  { valid := false, pc := 0#32, instr := 0#32, len := 4#32, illegal := false
    illegalValue := 0#32, fetchFault := false, fetchPageFault := false, fetchFaultValue := 0#32 }

def Decoded.reset : Decoded :=
  { rs1 := 0#5, rs2 := 0#5, rd := 0#5, funct3 := 0#3, funct7 := 0#7, uimm := 0#32, iimm := 0#32
    simm := 0#32, bimm := 0#32, jimm := 0#32, isALUreg := false, isALUimm := false
    isBranch := false, isJALR := false, isJAL := false, isAUIPC := false, isLUI := false
    isLoad := false, isStore := false, isCSRRW := false, isCSRRS := false, isCSRRC := false
    isMRET := false, isSRET := false, isWFI := false, isSFENCE := false, isEBREAK := false
    isECALL := false, isMUL := false, isDIV := false, isAtomic := false, isLR := false
    isSC := false, amoOp := 0#4, illegal := false }

def IdEx.reset : IdEx :=
  { Decoded.reset with
    valid := false, pc := 0#32, instr := 0#32, len := 4#32, rs1Val := 0#32, rs2Val := 0#32
    illegalValue := 0#32, fetchFault := false, fetchPageFault := false
    fetchFaultValue := 0#32 }

def ExMem.reset : ExMem :=
  { valid := false, rd := 0#5, isLoad := false, isStore := false, isAtomic := false, isLR := false
    isSC := false, funct3 := 0#3, amoOp := 0#4, rs2Value := 0#32, addr := 0#32
    storeWdata := 0#32, storeWmask := 0#4, wbEn := false, wbValue := 0#32 }

def MemWb.reset : MemWb :=
  { valid := false, rd := 0#5, isLoad := false, funct3 := 0#3, addrLow := 0#2, loadWord := 0#32
    wbEn := false, wbValue := 0#32 }

def AtomicUnit.reset : AtomicUnit :=
  { state := .idle, started := false, addr := 0#32, storeData := 0#32, newValue := 0#32
    result := 0#32, rd := 0#5, op := 0#4, reservationValid := false
    reservationWordAddr := 0#30, wbValid := false, wbRd := 0#5, wbValue := 0#32 }

def Core.reset : Core :=
  { fe := Frontend.reset, id := IdStage.reset, idEx := IdEx.reset, exMem := ExMem.reset
    memWb := MemWb.reset, atomic := AtomicUnit.reset, memStarted := false
    regBank := fun _ => 0#32, div := Divider.reset, csr := PrivCsr.reset }

end MelonSoc
