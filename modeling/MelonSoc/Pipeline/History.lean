import MelonSoc.Pipeline.Stages
import MelonSoc.Lib.Clocked

set_option autoImplicit false

/-! # The instructions a run has executed

The pipeline is judged by a history variable: the list of the instructions that fired in EX
without a trap, each with the operands it has in program order. An instruction enters the list
in the cycle in which it fires. The data of a load, of LR, SC and of an AMO arrives later and
is filled in when `core_data` delivers it. The history computes operands and results from the
list alone and never from the forwarding network.
-/

namespace MelonSoc

/-- A transaction on `core_data`. -/
structure Txn where
  adr : Word
  datW : Word
  sel : BitVec 4
  we : Bool

/-- The transaction a request asks for. -/
def WbReq.txn (q : WbReq) : Txn := { adr := q.adr, datW := q.datW, sel := q.sel, we := q.we }

/-- An instruction that fired: its operands in program order, the CSR it read, the physical
address of its access, and the word it received, once it has. -/
structure Fired where
  insn : IdEx
  rs1 : Word
  rs2 : Word
  csrRdata : Word
  paddr : Word
  data : Option Word

namespace Fired

/-- The result comes from `core_data`. -/
def awaits (f : Fired) : Bool := f.insn.isLoad || f.insn.isAtomic

/-- The destination register; 0 for an instruction without one. -/
def dest (f : Fired) : BitVec 5 := if f.insn.writesReg then f.insn.rd else 0#5

/-- The value for the destination register, `none` as long as it is outstanding. -/
def result (f : Fired) : Option Word :=
  if f.awaits then f.data else some (f.insn.resultOf f.rs1 f.rs2 f.csrRdata)

/-- The transaction of a load or store. -/
def txn (f : Fired) : Option Txn :=
  if f.insn.isLoad || f.insn.isStore then
    some
      { adr := f.paddr
        datW := f.insn.exStoreWdata (f.insn.exAddr f.rs1) f.rs2
        sel := if f.insn.isStore then f.insn.exStoreMask (f.insn.exAddr f.rs1) else 0b1111#4
        we := f.insn.isStore }
  else none

/-- The register write of an instruction, once its result is there. -/
def write (f : Fired) : Option (BitVec 5 × Word) :=
  if f.dest = 0#5 then none else f.result.map (fun v => (f.dest, v))

end Fired

/-- The value of a register after the instructions of `log`, the newest of which comes first;
`none` if the instruction that writes it last still awaits its data. -/
def archReg (log : List Fired) (r : BitVec 5) : Option Word :=
  if r = 0#5 then some 0#32
  else match log with
    | [] => some 0#32
    | f :: older => if f.dest = r then f.result else archReg older r

theorem archReg_zero (log : List Fired) : archReg log 0#5 = some 0#32 := by
  unfold archReg
  simp

theorem archReg_cons {f : Fired} {log : List Fired} {r : BitVec 5} (hr : r ≠ 0#5) :
    archReg (f :: log) r = if f.dest = r then f.result else archReg log r := by
  conv => lhs; unfold archReg
  simp [hr]

theorem archReg_of_dest {f : Fired} {log : List Fired} {r : BitVec 5} (hr : r ≠ 0#5)
    (hd : f.dest = r) : archReg (f :: log) r = f.result := by
  rw [archReg_cons hr, if_pos hd]

theorem archReg_of_ne {f : Fired} {log : List Fired} {r : BitVec 5} (hd : f.dest ≠ r) :
    archReg (f :: log) r = archReg log r := by
  by_cases hr : r = 0#5
  · subst hr
    rw [archReg_zero, archReg_zero]
  · rw [archReg_cons hr, if_neg hd]

/-! ## What a cycle adds -/

namespace Core

/-- The instruction in EX fires without a trap. -/
def commits (i : CoreIn) (s : Core) : Bool := s.exFire i && !s.privTrapTaken i

/-- The word the instruction `f` in MEM receives in this cycle, if it receives one. -/
def answer (i : CoreIn) (s : Core) (f : Fired) : Option Word :=
  if f.insn.isLoad then
    if s.memReq && !s.stallMem i then
      some (formatLoadData i.datR f.insn.funct3 (f.paddr.extractLsb' 0 2))
    else none
  else if f.insn.isAtomic then
    match s.atomic.state with
    | .lrCapture => some i.datR
    | .amoCapture => some i.datR
    | .scWrite => if s.atomic.started && i.ack then some 0#32 else none
    | .idle =>
        -- an SC without its reservation fails at once
        if s.exMem.isAtomic && f.insn.isSC && !s.atomic.holdsReservation f.paddr then some 1#32
        else none
    | _ => none
  else none

/-- The list with the answer of this cycle; only the newest instruction can be in MEM. -/
def answered (i : CoreIn) (s : Core) : List Fired → List Fired
  | [] => []
  | f :: older =>
      (match s.answer i f with
        | some v => { f with data := some v }
        | none => f) :: older

/-- The instruction in EX with its operands in program order. -/
def fires (i : CoreIn) (s : Core) (log : List Fired) : Fired :=
  { insn := s.idEx
    rs1 := (archReg log s.idEx.rs1).getD 0#32
    rs2 := (archReg log s.idEx.rs2).getD 0#32
    csrRdata := s.exCsrRdata i
    paddr := i.dPaddr
    data := none }

/-- The list after the cycle. -/
def logNext (i : CoreIn) (s : Core) (log : List Fired) : List Fired :=
  if s.commits i then s.fires i (s.answered i log) :: s.answered i log else s.answered i log

end Core

end MelonSoc
