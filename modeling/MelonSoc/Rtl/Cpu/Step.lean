import MelonSoc.Rtl.Cpu.Signals
import MelonSoc.Rtl.Rvc

set_option autoImplicit false

/-! # The clock edge of the core

The `always_ff` blocks of `cpu.sv`, one definition for each pipeline stage, and `Core.next`,
which updates all of them at once.
-/

namespace MelonSoc

/-! ## The halfword queue -/

/-- `ibuf_n[16*k +: 16] = hw`; a write past the end is dropped. -/
def putHw (ibuf : BitVec 128) (k : Nat) (hw : BitVec 16) : BitVec 128 :=
  (ibuf &&& ~~~(0xFFFF#128 <<< (16 * k))) ||| (hw.setWidth 128 <<< (16 * k))

/-- `flags[k +: 2] = {2{b}}`. -/
def putFlags (flags : BitVec 8) (k : Nat) (b : Bool) : BitVec 8 :=
  if b then flags ||| (3#8 <<< k) else flags &&& ~~~(3#8 <<< k)

namespace Ibuf

/-- The queue after a redirect to `pc`. -/
def flush (pc : Word) : Ibuf :=
  { ibuf := 0#128, fetchFault := 0#8, fetchPageFault := 0#8, hwCount := 0#4, pcI := pc
    dropHalfword := pc.getLsbD 1 }

/-- `n` halfwords leave the front of the queue. -/
def shift (n : Nat) (q : Ibuf) : Ibuf :=
  { q with
    ibuf := q.ibuf >>> (16 * n)
    fetchFault := q.fetchFault >>> n
    fetchPageFault := q.fetchPageFault >>> n
    hwCount := q.hwCount - BitVec.ofNat 4 n }

/-- The two halfwords of F2 enter the queue. -/
def push (word : Word) (fault pageFault : Bool) (q : Ibuf) : Ibuf :=
  let k := q.hwCount.toNat
  { q with
    ibuf := putHw (putHw q.ibuf k (word.extractLsb' 0 16)) (k + 1) (word.extractLsb' 16 16)
    fetchFault := putFlags q.fetchFault k fault
    fetchPageFault := putFlags q.fetchPageFault k pageFault
    hwCount := q.hwCount + 2#4 }

/-- After a redirect into the middle of a word the first halfword is dropped. -/
def dropFirst (q : Ibuf) : Ibuf :=
  if q.dropHalfword && q.hwCount != 0#4 then { q.shift 1 with dropHalfword := false } else q

/-- The halfword at the front. -/
def hw0 (q : Ibuf) : BitVec 16 := q.ibuf.extractLsb' 0 16

/-- The halfword behind it. -/
def hw1 (q : Ibuf) : BitVec 16 := q.ibuf.extractLsb' 16 16

/-- `is_rvc`. -/
def isRvc (q : Ibuf) : Bool := q.hwCount != 0#4 && q.hw0.extractLsb' 0 2 != 0b11#2

/-- A whole instruction is at the front. -/
def canIssue (q : Ibuf) : Bool :=
  q.hwCount != 0#4 && (q.isRvc || 1#4 < q.hwCount)

/-- The instruction at the front as it enters ID. -/
def issue (q : Ibuf) : IdStage :=
  let exp := rvcExpand q.hw0
  let insn := if q.isRvc then exp.insn else q.hw1 ++ q.hw0
  { valid := true
    pc := q.pcI
    instr := insn
    len := if q.isRvc then 2#32 else 4#32
    illegal := q.isRvc && exp.illegal
    illegalValue := if q.isRvc then q.hw0.setWidth 32 else insn
    fetchFault := q.fetchFault.getLsbD 0 || (!q.isRvc && q.fetchFault.getLsbD 1)
    fetchPageFault := if q.fetchFault.getLsbD 0 then q.fetchPageFault.getLsbD 0
      else q.fetchPageFault.getLsbD 1
    fetchFaultValue := if q.fetchFault.getLsbD 0 then q.pcI
      else if !q.isRvc && q.fetchFault.getLsbD 1 then q.pcI + 2#32 else 0#32 }

/-- The queue without the issued instruction. -/
def pop (q : Ibuf) : Ibuf :=
  let n := if q.isRvc then 1 else 2
  { q.shift n with pcI := q.pcI + (if q.isRvc then 2#32 else 4#32) }

end Ibuf

/-! ## The stages -/

namespace Core

/-- The queue after F2 has been pushed, before an instruction is issued. -/
def filled (s : Core) : Ibuf :=
  (if s.fe.f2Valid then s.fe.q.push s.fe.f2Word s.fe.f2FetchFault s.fe.f2FetchPageFault
    else s.fe.q).dropFirst

def ibufNext (i : CoreIn) (s : Core) : Ibuf :=
  match s.exRedirect i with
  | some pc => Ibuf.flush pc
  | none => if !s.stallAny i && s.filled.canIssue then s.filled.pop else s.filled

def idNext (i : CoreIn) (s : Core) : IdStage :=
  if s.redirects i then
    { s.id with
      valid := false, pc := 0#32, instr := 0x00000013#32, len := 4#32, fetchFault := false
      fetchPageFault := false, fetchFaultValue := 0#32 }
  else if !s.stallAny i then
    if s.filled.canIssue then s.filled.issue
    else
      { valid := false, pc := s.filled.pcI, instr := 0x00000013#32, len := 4#32, illegal := false
        illegalValue := 0#32, fetchFault := false, fetchPageFault := false
        fetchFaultValue := 0#32 }
  else s.id

def frontendNext (i : CoreIn) (f : FetchIn) (s : Core) : Frontend :=
  let q := s.ibufNext i
  match s.exRedirect i with
  | some pc =>
      { pcF := pc &&& 0xFFFFFFFC#32
        ifValid := false, ifFetchFault := false, ifFetchPageFault := false
        f2Word := 0#32, f2Valid := false, f2FetchFault := false, f2FetchPageFault := false
        q := q }
  | none =>
      let fe := { s.fe with
        f2Valid := s.fe.ifValid
        f2Word := if s.fe.ifValid then f.rdata else s.fe.f2Word
        f2FetchFault := if s.fe.ifValid then s.fe.ifFetchFault else s.fe.f2FetchFault
        f2FetchPageFault := if s.fe.ifValid then s.fe.ifFetchPageFault else s.fe.f2FetchPageFault
        q := q }
      if s.fetchReq i && !f.stall then
        { fe with
          pcF := s.fe.pcF + 4#32, ifValid := true, ifFetchFault := f.fault
          ifFetchPageFault := f.pageFault }
      else { fe with ifValid := false, ifFetchFault := false, ifFetchPageFault := false }

/-- The ID instruction as it enters ID/EX. -/
def idExOfId (s : Core) : IdEx :=
  let d := s.decoded
  { d with
    isAtomic := d.isAtomic && !d.illegal
    isLR := d.isLR && !d.illegal
    isSC := d.isSC && !d.illegal
    valid := s.id.valid, pc := s.id.pc, instr := s.id.instr, len := s.id.len
    rs1Val := s.rsValD d.rs1, rs2Val := s.rsValD d.rs2
    illegalValue := s.id.illegalValue, fetchFault := s.id.fetchFault
    fetchPageFault := s.id.fetchPageFault, fetchFaultValue := s.id.fetchFaultValue }

/-- The operand snapshot of an instruction held in EX: a producer that retires in this cycle is
kept, since its forwarding source disappears. -/
def holdOperand (s : Core) (rs : BitVec 5) (held : Word) : Word :=
  if s.atomic.wbValid && s.atomic.wbRd != 0#5 && s.atomic.wbRd == rs then s.atomic.wbValue
  else if s.wbWe && s.memWb.rd != 0#5 && s.memWb.rd == rs then s.wbValue
  else held

def idExNext (i : CoreIn) (s : Core) : IdEx :=
  if s.redirects i then { s.idEx with valid := false }
  else if s.stallDiv || s.stallMem i || s.stallAtomic || s.stallMmu i then
    { s.idEx with
      rs1Val := s.holdOperand s.idEx.rs1 s.idEx.rs1Val
      rs2Val := s.holdOperand s.idEx.rs2 s.idEx.rs2Val }
  else if s.stallLoadUse then { s.idEx with valid := false }
  else s.idExOfId

/-- The EX instruction as it enters EX/MEM. -/
def exMemOfEx (i : CoreIn) (s : Core) : ExMem :=
  let keep := s.idEx.valid && !s.privTrapTaken i
  { valid := keep
    rd := s.idEx.rd
    isLoad := s.idEx.isLoad
    isStore := s.idEx.isStore
    isAtomic := s.idEx.valid && s.idEx.isAtomic && !s.privTrapTaken i
    isLR := s.idEx.valid && s.idEx.isLR && !s.privTrapTaken i
    isSC := s.idEx.valid && s.idEx.isSC && !s.privTrapTaken i
    funct3 := s.idEx.funct3
    amoOp := s.idEx.amoOp
    rs2Value := s.exRs2
    addr := if s.dXlateReq then i.dPaddr else s.exAddr
    storeWdata := s.idEx.exStoreWdata s.exAddr s.exRs2
    storeWmask := s.exStoreWmask i
    wbEn := s.exWbEn i
    wbValue := s.exWbValue i }

def exMemNext (i : CoreIn) (s : Core) : ExMem :=
  let free := s.atomic.state == .idle && !s.exMem.isAtomic && !s.atomicComplete
  if !s.stallMem i && !s.stallMmu i && free then s.exMemOfEx i
  else if !s.stallMem i && s.stallMmu i && free then
    { s.exMem with valid := false, isLoad := false, isStore := false }
  else if s.atomicComplete then
    { s.exMem with valid := false, isAtomic := false, isLR := false, isSC := false }
  else s.exMem

def memWbNext (i : CoreIn) (s : Core) : MemWb :=
  if s.atomicComplete then { s.memWb with valid := false }
  else if !s.stallMem i && s.atomic.state == .idle && !s.exMem.isAtomic then
    { valid := s.exMem.valid
      rd := s.exMem.rd
      isLoad := s.exMem.isLoad
      funct3 := s.exMem.funct3
      addrLow := s.exMem.addr.extractLsb' 0 2
      loadWord := i.datR
      wbEn := s.exMem.wbEn
      wbValue := s.exMem.wbValue }
  else if !s.stallMem i then { s.memWb with valid := false }
  else s.memWb

def memStartedNext (i : CoreIn) (s : Core) : Bool :=
  if s.redirects i || !s.memReq || (s.memStarted && i.ack) then false
  else if s.memReq && !s.memStarted then true
  else s.memStarted

/-- At most one of the two writes happens in a cycle, `wb_we` excludes `atomic_complete`. -/
def regBankNext (s : Core) : RegBank :=
  let r1 := if s.wbWe then Function.update s.regBank s.memWb.rd s.wbValue else s.regBank
  if s.atomicComplete && s.atomic.rd != 0#5 then Function.update r1 s.atomic.rd s.atomic.result
  else r1

end Core

/-! ## The atomic unit -/

namespace AtomicUnit

/-- The reservation covers the word of `addr`. -/
def holdsReservation (addr : Word) (a : AtomicUnit) : Bool :=
  a.reservationValid && a.reservationWordAddr == wordOf addr

/-- An atomic in EX/MEM starts; `held` tells whether the reservation covers it. An SC without
it goes straight to completion. -/
def accept (held : Bool) (m : ExMem) (a : AtomicUnit) : AtomicUnit :=
  let a1 := { a with
    addr := m.addr, storeData := m.rs2Value, rd := m.rd, op := m.amoOp, started := false }
  if m.isSC && !held then { a1 with result := 1#32, state := .complete, reservationValid := false }
  else if m.isLR then { a1 with state := .lrRead }
  else if m.isSC then { a1 with state := .scWrite }
  else { a1 with state := .amoRead }

/-- A bus phase: the strobe is raised one cycle after the phase begins, the answer ends it. -/
def busPhase (ack : Bool) (a done : AtomicUnit) : AtomicUnit :=
  if !a.started then { a with started := true }
  else if ack then { done with started := false }
  else a

/-- One step of `atomic_state`. -/
def advance (ack : Bool) (datR : Word) (a : AtomicUnit) : AtomicUnit :=
  match a.state with
  | .lrRead => a.busPhase ack { a with state := .lrCapture }
  | .lrCapture =>
      { a with
        result := datR, reservationValid := true, reservationWordAddr := wordOf a.addr
        state := .complete }
  | .scWrite => a.busPhase ack { a with
      result := 0#32, reservationValid := false, state := .complete }
  | .amoRead => a.busPhase ack { a with state := .amoCapture }
  | .amoCapture =>
      { a with
        newValue := amoCompute a.op datR a.storeData, result := datR, reservationValid := false
        state := .amoWrite }
  | .amoWrite => a.busPhase ack { a with reservationValid := false, state := .complete }
  | .complete => { a with state := .idle, wbRd := a.rd, wbValue := a.result }
  | .idle => { a with state := .idle, started := false }

end AtomicUnit

namespace Core

def atomicNext (i : CoreIn) (s : Core) : AtomicUnit :=
  let a := s.atomic
  let a1 := { a with
    wbValid := s.atomicComplete && a.rd != 0#5
    reservationValid := a.reservationValid &&
      !(i.extWriteValid && wordOf i.extWriteAddr == a.reservationWordAddr && i.extWriteSel != 0#4) }
  let a2 :=
    if a.state == .idle && s.exMem.valid && s.exMem.isAtomic then
      a1.accept (a.holdsReservation s.exMem.addr) s.exMem
    else a1.advance i.ack i.datR
  let clear := (s.exMem.valid && s.exMem.isStore && i.ack) || s.privTrapTaken i ||
    s.privReturnTaken i
  { a2 with reservationValid := a2.reservationValid && !clear }

/-! ## All registers -/

/-- The registers after the clock edge. -/
def next (i : CoreIn) (f : FetchIn) (s : Core) : Core :=
  { fe := s.frontendNext i f
    id := s.idNext i
    idEx := s.idExNext i
    exMem := s.exMemNext i
    memWb := s.memWbNext i
    atomic := s.atomicNext i
    memStarted := s.memStartedNext i
    regBank := s.regBankNext
    div := s.div.next (s.dividerIn i)
    csr := s.csr.next (s.privIn i) }

end Core

end MelonSoc
