import MelonSoc.Rtl.Cpu.Execute

set_option autoImplicit false

/-! # The combinational signals of the core

The wires of `cpu.sv`, in the order in which they depend on each other: forwarding and address
generation use registers only, the stalls the answer on `core_data` and the translation, and
the trap and redirect logic all of these. `i` is what the core receives in the cycle.
-/

namespace MelonSoc

namespace Core

/-! ## Write-back -/

/-- `atomic_complete`. -/
def atomicComplete (s : Core) : Bool := s.atomic.state == .complete

/-- `wb_value`. -/
def wbValue (s : Core) : Word :=
  if s.memWb.isLoad then formatLoadData s.memWb.loadWord s.memWb.funct3 s.memWb.addrLow
  else s.memWb.wbValue

/-- `wb_we`. -/
def wbWe (s : Core) : Bool :=
  s.memWb.valid && s.memWb.wbEn && s.memWb.rd != 0#5 && !s.atomicComplete

/-! ## ID operands -/

/-- `rs1_val_d` and `rs2_val_d`: the write-back bypass in ID. -/
def rsValD (s : Core) (rs : BitVec 5) : Word :=
  if rs != 0#5 then
    if s.atomic.wbValid && s.atomic.wbRd == rs then s.atomic.wbValue
    else if s.wbWe && s.memWb.rd == rs then s.wbValue
    else s.regBank rs
  else 0#32

/-- The decoded ID instruction. -/
def decoded (s : Core) : Decoded := decode s.id.valid s.id.illegal s.id.instr

/-! ## EX operands -/

/-- `ex_mem_fwd_en`. -/
def exMemFwdEn (s : Core) : Bool :=
  s.exMem.valid && s.exMem.wbEn && !s.exMem.isLoad && s.exMem.rd != 0#5

/-- `ex_rs1` and `ex_rs2`: forwarding of register `rs`, with `held` from ID/EX. -/
def exForward (s : Core) (rs : BitVec 5) (held : Word) : Word :=
  if s.atomic.wbValid && s.atomic.wbRd == rs then s.atomic.wbValue
  else if s.exMemFwdEn && s.exMem.rd == rs then s.exMem.wbValue
  else if s.memWb.valid && s.memWb.wbEn && s.memWb.rd != 0#5 && s.memWb.rd == rs then s.wbValue
  else held

def exRs1 (s : Core) : Word := s.exForward s.idEx.rs1 s.idEx.rs1Val

def exRs2 (s : Core) : Word := s.exForward s.idEx.rs2 s.idEx.rs2Val

/-- `ex_addr`. -/
def exAddr (s : Core) : Word := s.idEx.exAddr s.exRs1

/-- `ex_misaligned`. -/
def exMisaligned (s : Core) : Bool := s.idEx.exMisaligned s.exAddr

/-- `d_xlate_req`. -/
def dXlateReq (s : Core) : Bool :=
  s.idEx.valid && (s.idEx.isLoad || s.idEx.isStore || s.idEx.isAtomic) && !s.exMisaligned

/-- `d_store_i` of `u_mmu`. -/
def dStore (s : Core) : Bool :=
  s.idEx.isStore || s.idEx.isSC || (s.idEx.isAtomic && !s.idEx.isLR)

/-! ## `core_data`, driven from registers -/

/-- `mem_req`. -/
def memReq (s : Core) : Bool := s.exMem.valid && (s.exMem.isLoad || s.exMem.isStore)

/-- The atomic unit has a request on the bus. -/
def atomicBus (s : Core) : Bool :=
  s.atomic.state == .lrRead || s.atomic.state == .scWrite || s.atomic.state == .amoRead ||
  s.atomic.state == .amoWrite

/-- The request on `core_data`. -/
def dataReq (s : Core) : WbReq :=
  let busy := s.atomic.state != .idle
  let cyc := (busy && s.atomicBus) || s.memReq
  { adr := if busy then s.atomic.addr else s.exMem.addr
    datW := if busy then
        (if s.atomic.state == .scWrite then s.atomic.storeData
         else if s.atomic.state == .amoWrite then s.atomic.newValue else 0#32)
      else s.exMem.storeWdata
    sel := if busy then 0b1111#4
      else if s.exMem.valid && s.exMem.isStore then s.exMem.storeWmask else 0b1111#4
    we := s.atomic.state == .scWrite || s.atomic.state == .amoWrite ||
      (s.exMem.valid && s.exMem.isStore && !s.exMem.isAtomic)
    cyc := cyc
    stb := cyc && (if busy then s.atomic.started else s.memStarted)
    lock := busy && (s.atomicBus || s.atomic.state == .lrCapture || s.atomic.state == .amoCapture) }

/-! ## Stalls -/

/-- `stall_load_use`. -/
def stallLoadUse (s : Core) : Bool :=
  s.id.valid && s.idEx.valid && s.idEx.isLoad && s.idEx.rd != 0#5 &&
    ((usesRs1 s.decoded && s.idEx.rd == s.decoded.rs1) ||
     (usesRs2 s.decoded && s.idEx.rd == s.decoded.rs2))

/-- `stall_div`. -/
def stallDiv (s : Core) : Bool :=
  s.div.busy || (s.idEx.isDIV && s.idEx.valid && !s.div.resultValid)

/-- `stall_mem`. -/
def stallMem (i : CoreIn) (s : Core) : Bool := s.memReq && (!s.memStarted || !i.ack)

/-- `stall_atomic`. -/
def stallAtomic (s : Core) : Bool :=
  s.atomic.state != .idle || (s.exMem.valid && s.exMem.isAtomic)

/-- `stall_mmu`. -/
def stallMmu (i : CoreIn) (s : Core) : Bool := s.dXlateReq && !i.dReqReady

/-- `stall_any`. -/
def stallAny (i : CoreIn) (s : Core) : Bool :=
  s.stallLoadUse || s.stallDiv || s.stallMem i || s.stallAtomic || s.stallMmu i

/-- `ex_fire`. -/
def exFire (i : CoreIn) (s : Core) : Bool :=
  s.idEx.valid && !s.stallMem i && !s.stallAtomic && !s.stallDiv && !s.stallMmu i

/-! ## CSR access and exceptions -/

/-- `irq_pending`. -/
def irqPending (i : CoreIn) : Word :=
  setBit (setBit (setBit 0#32 11 i.extIrq) 7 i.timerIrq) 3 i.swIrq

/-- `ex_csr_rdata`. -/
def exCsrRdata (i : CoreIn) (s : Core) : Word :=
  s.csr.csrRdata (irqPending i) s.idEx.exCsrAddr

/-- `ex_csr_wdata`. -/
def exCsrWdata (i : CoreIn) (s : Core) : Word := s.idEx.exCsrWdata s.exRs1 (s.exCsrRdata i)

/-- `ex_csr_we`. -/
def exCsrWe (i : CoreIn) (s : Core) : Bool :=
  s.exFire i &&
    (s.idEx.isCSRRW || ((s.idEx.isCSRRS || s.idEx.isCSRRC) && s.idEx.rs1 != 0#5))

/-- `csr_illegal`. -/
def csrIllegal (i : CoreIn) (s : Core) : Bool :=
  s.csr.csrIllegal (irqPending i) s.idEx.csrValid (s.exCsrWe i) s.idEx.exCsrAddr

/-- `xret_illegal`. -/
def xretIllegal (s : Core) : Bool :=
  s.csr.xretIllegal s.idEx.isMRET s.idEx.isSRET s.idEx.isSFENCE s.idEx.isWFI

/-- `ex_access_fault`. -/
def exAccessFault (i : CoreIn) (s : Core) : Bool :=
  s.idEx.valid && i.dReqReady &&
    (i.dAccessFault ||
     (s.idEx.isAtomic && !supportsAtomic i.dPaddr) ||
     ((s.idEx.isLoad || s.idEx.isStore) && !isMappedDataAddress i.dPaddr))

/-- A synchronous exception: `exception_cause` and `exception_value`. -/
structure ExcInfo where
  cause : Word
  value : Word

/-- The exception of the instruction in EX, `none` when `exception_req` is 0. -/
def exceptionInfo (i : CoreIn) (s : Core) : Option ExcInfo :=
  let e := s.idEx
  let isRead := e.isLoad || e.isLR
  if e.valid && e.fetchFault && s.csr.currentPriv != privM && !s.stallAtomic then
    some ⟨if e.fetchPageFault then 12#32 else 1#32, e.fetchFaultValue⟩
  else if e.valid && e.illegal && !s.stallAtomic then
    some ⟨2#32, e.illegalValue⟩
  else if e.valid && (s.csrIllegal i || s.xretIllegal) then
    some ⟨2#32, e.instr⟩
  else if e.valid && s.exMisaligned && !s.stallAtomic then
    some ⟨if isRead then 4#32 else 6#32, s.exAddr⟩
  else if e.valid && i.dReqReady && i.dPageFault then
    some ⟨if isRead then 13#32 else 15#32, s.exAddr⟩
  else if e.valid && s.exAccessFault i && !s.stallAtomic then
    some ⟨if isRead then 5#32 else 7#32, s.exAddr⟩
  else if e.valid && !s.stallMem i && !s.stallAtomic && e.isECALL then
    some ⟨if s.csr.currentPriv == privU then 8#32 else if s.csr.currentPriv == privS then 9#32
      else 11#32, 0#32⟩
  else if e.valid && !s.stallMem i && !s.stallAtomic && e.isEBREAK then
    some ⟨3#32, 0#32⟩
  else none

/-- `exception_req`. -/
def exceptionReq (i : CoreIn) (s : Core) : Bool := (s.exceptionInfo i).isSome

/-- `retire_pulse`: an instruction leaves WB, or the atomic unit completes one. -/
def retirePulse (i : CoreIn) (s : Core) : Bool :=
  (s.memWb.valid && !s.stallMem i) || s.atomicComplete

/-- The inputs of `u_priv_csr`. -/
def privIn (i : CoreIn) (s : Core) : PrivIn :=
  { irqPending := irqPending i
    exFire := s.exFire i
    exPc := s.idEx.pc
    csrValid := s.idEx.csrValid
    csrAddr := s.idEx.exCsrAddr
    csrWrite := s.exCsrWe i
    csrWdata := s.exCsrWdata i
    exceptionValid := s.exceptionReq i
    exceptionCause := ((s.exceptionInfo i).map ExcInfo.cause).getD 0#32
    exceptionTval := ((s.exceptionInfo i).map ExcInfo.value).getD 0#32
    mret := s.idEx.isMRET
    sret := s.idEx.isSRET
    sfenceVma := s.idEx.isSFENCE
    wfi := s.idEx.isWFI
    retire := s.retirePulse i }

/-- `priv_trap_taken`. -/
def privTrapTaken (i : CoreIn) (s : Core) : Bool := s.csr.trapTaken (s.privIn i)

/-- `priv_return_taken`. -/
def privReturnTaken (i : CoreIn) (s : Core) : Bool := s.csr.returnTaken (s.privIn i)

/-- `priv_redirect_valid`. -/
def privRedirectValid (i : CoreIn) (s : Core) : Bool := s.csr.redirectValid (s.privIn i)

/-! ## Redirect -/

/-- A stall that suppresses the results of EX. -/
def exHeld (i : CoreIn) (s : Core) : Bool := s.stallMem i || s.stallAtomic || s.stallMmu i

/-- The redirect of the instruction in EX itself and its target, before a stall suppresses it. -/
def exJump (s : Core) (rs1 rs2 : Word) : Option Word :=
  let e := s.idEx
  if e.valid then
    if e.isSFENCE && !s.xretIllegal then some (e.pc + e.len)
    else if e.isBranch && e.exTakeBranch rs1 rs2 then some (e.pc + e.bimm)
    else if e.isJALR then some (clearBit0 (rs1 + e.iimm))
    else if e.isJAL then some (e.pc + e.jimm)
    else none
  else none

/-- `ex_redirect` and `ex_redirect_pc`. -/
def exRedirect (i : CoreIn) (s : Core) : Option Word :=
  if s.exHeld i then none
  else if s.privRedirectValid i then some (s.csr.redirectPc (s.privIn i))
  else s.exJump s.exRs1 s.exRs2

/-- `ex_redirect`. -/
def redirects (i : CoreIn) (s : Core) : Bool := (s.exRedirect i).isSome

/-- `ex_wb_en`. -/
def exWbEn (i : CoreIn) (s : Core) : Bool :=
  s.idEx.exWriteEn s.div.resultValid && !s.privRedirectValid i && !s.exHeld i

/-- `ex_wb_value`. -/
def exWbValue (i : CoreIn) (s : Core) : Word :=
  s.idEx.exWriteValue s.exRs1 s.exRs2 (s.exCsrRdata i) s.div

/-- `ex_store_wmask`. -/
def exStoreWmask (i : CoreIn) (s : Core) : BitVec 4 :=
  if s.privRedirectValid i || s.exHeld i then 0b0000#4 else s.idEx.exStoreMask s.exAddr

/-- `sfence_vma_i` of `u_mmu`. -/
def sfenceVma (i : CoreIn) (s : Core) : Bool :=
  s.exFire i && s.idEx.isSFENCE && !s.xretIllegal

/-! ## Fetch request -/

/-- `fetch_req`. -/
def fetchReq (i : CoreIn) (s : Core) : Bool :=
  !s.redirects i &&
    s.fe.q.hwCount.toNat + ((if s.fe.f2Valid then 2 else 0) + (if s.fe.ifValid then 2 else 0)) ≤ 6

/-- The request on `core_instr`. -/
def instrReq (i : CoreIn) (s : Core) : ImemReq :=
  { addr := s.fe.pcF, ren := s.fetchReq i, flush := s.redirects i }

/-- The inputs of `u_divider`. -/
def dividerIn (i : CoreIn) (s : Core) : DividerIn :=
  { start := !s.stallMem i && !s.stallAtomic && s.idEx.isDIV && s.idEx.valid &&
      !s.div.resultValid && !s.div.busy
    flush := s.redirects i
    dividend := s.exRs1
    divisor := s.exRs2
    isSigned := !s.idEx.funct3.getLsbD 0
    isRem := s.idEx.funct3.getLsbD 1 }

end Core

end MelonSoc
