import MelonSoc.Rtl.PrivCsr

set_option autoImplicit false

/-! # The Sv32 MMU

`sv32_mmu.sv`: an instruction and a data TLB of four entries each, one page-table walker for
both, and the multiplexer that gives the walker or the core the data bus. The reads of the TLBs
and the multiplexers are combinational; `Mmu.next` is the clock edge, one definition for each
state of the walker.
-/

namespace MelonSoc

/-- `tlb_entry_t`. -/
structure TlbEntry where
  valid : Bool
  globalMapping : Bool
  superpage : Bool
  asid : BitVec 9
  vpn : BitVec 20
  ppn : BitVec 22
  u : Bool
  r : Bool
  w : Bool
  x : Bool
  a : Bool
  d : Bool

/-- `ptw_state_t`. -/
inductive PtwState
  | idle
  | l1Wait
  | l1Capture
  | l1Check
  | l0Wait
  | l0Capture
  | l0Check
  | adWait
  | fill
  | fault
  deriving DecidableEq

/-- A TLB of `TLB_ENTRIES = 4` entries. -/
abbrev Tlb := Fin 4 → TlbEntry

/-- The registers of `sv32_mmu.sv`. -/
structure Mmu where
  dtlb : Tlb
  itlb : Tlb
  dtlbReplace : Fin 4
  itlbReplace : Fin 4
  ptwState : PtwState
  walkVaddr : Word
  walkStore : Bool
  walkIsInstr : Bool
  walkPriv : BitVec 2
  walkAsid : BitVec 9
  walkSum : Bool
  walkMxr : Bool
  walkGlobal : Bool
  walkPteAddr : Word
  walkPte : Word
  walkSuperpage : Bool
  walkPageFault : Bool
  walkAccessFault : Bool
  walkKilled : Bool
  instrFaultPending : Bool
  instrFaultPage : Bool
  instrFaultVaddr : Word

/-- The registers the MMU reads of `priv_csr`. -/
structure XlateCtx where
  satp : Word
  mstatus : Word
  privilege : BitVec 2

/-- The request on the data side, `d_*_i`. -/
structure DReq where
  valid : Bool
  vaddr : Word
  store : Bool

/-- The answer on the data side, `d_*_o`. -/
structure DRsp where
  ready : Bool
  paddr : Word
  pageFault : Bool
  accessFault : Bool

/-- All inputs of `sv32_mmu.sv` in a cycle. -/
structure MmuIn where
  ctx : XlateCtx
  sfenceVma : Bool
  coreInstr : ImemReq
  physInstr : ImemRsp
  dReq : DReq
  coreData : WbReq
  physData : WbRsp

/-! ## Fields -/

def satpMode (satp : Word) : Bool := satp.getLsbD 31
def satpAsid (satp : Word) : BitVec 9 := satp.extractLsb' 22 9
def satpPpn (satp : Word) : BitVec 22 := satp.extractLsb' 0 22

/-- `va[31:12]`. -/
def vpnOf (va : Word) : BitVec 20 := va.extractLsb' 12 20
/-- `va[31:22]`. -/
def vpn1Of (va : Word) : BitVec 10 := va.extractLsb' 22 10
/-- `va[21:12]`. -/
def vpn0Of (va : Word) : BitVec 10 := va.extractLsb' 12 10

/-- `pte[31:10]`. -/
def ptePpn (pte : Word) : BitVec 22 := pte.extractLsb' 10 22

/-- The address of the entry `index` of the page table at page number `ppn`. -/
def pteAddr (ppn : BitVec 22) (index : BitVec 10) : Word :=
  (ppn.extractLsb' 0 20 ++ 0#12) + (index ++ 0#2 : BitVec 12).setWidth 32

/-- The page table at `ppn` cannot be read for `index`: the address leaves 32 bits, or lies
neither in the data RAM nor in DDR. -/
def pteUnreachable (ppn : BitVec 22) (index : BitVec 10) : Bool :=
  ppn.extractLsb' 20 2 != 0#2 ||
    (!isDataramRegion (pteAddr ppn index) && !isDdrRegion (pteAddr ppn index))

/-- `pte_invalid`. -/
def pteInvalid (pte : Word) : Bool := !pte.getLsbD 0 || (!pte.getLsbD 1 && pte.getLsbD 2)

/-- A leaf entry: `pte[1] || pte[3]`. -/
def pteLeaf (pte : Word) : Bool := pte.getLsbD 1 || pte.getLsbD 3

/-- `pte_permission_ok`. -/
def ptePermissionOk (pte : Word) (storeAccess : Bool) (accessPriv : BitVec 2)
    (sum mxr : Bool) : Bool :=
  let allowPriv :=
    if accessPriv == privU then pte.getLsbD 4
    else if accessPriv == privS then !pte.getLsbD 4 || sum else true
  let allowAccess :=
    if storeAccess then pte.getLsbD 2 else pte.getLsbD 1 || (mxr && pte.getLsbD 3)
  allowPriv && allowAccess

/-- The permission test of a fetch. -/
def pteFetchOk (pte : Word) (priv : BitVec 2) : Bool :=
  pte.getLsbD 3 && (if priv == privU then pte.getLsbD 4 else !pte.getLsbD 4)

/-- The bits the walker sets in a leaf: A, and D for a store. -/
def adBits (store : Bool) : Word := 0x40#32 ||| (if store then 0x80#32 else 0#32)

/-- The leaf lacks a bit the access needs. -/
def needsAd (pte : Word) (store : Bool) : Bool := !pte.getLsbD 6 || (store && !pte.getLsbD 7)

/-! ## Translation context -/

namespace XlateCtx

/-- `effective_priv`. -/
def effectivePriv (c : XlateCtx) : BitVec 2 :=
  if c.privilege == privM && c.mstatus.getLsbD 17 then mppOf c.mstatus else c.privilege

/-- `data_translate`. -/
def dataTranslate (c : XlateCtx) : Bool := satpMode c.satp && c.effectivePriv != privM

/-- `instr_translate`. -/
def instrTranslate (c : XlateCtx) : Bool := satpMode c.satp && c.privilege != privM

def sum (c : XlateCtx) : Bool := c.mstatus.getLsbD 18
def mxr (c : XlateCtx) : Bool := c.mstatus.getLsbD 19

end XlateCtx

/-! ## TLB lookup -/

namespace TlbEntry

/-- The entry matches an address under the current `satp`. -/
def matching (satp va : Word) (e : TlbEntry) : Bool :=
  e.valid && (e.globalMapping || e.asid == satpAsid satp) &&
    (if e.superpage then e.vpn.extractLsb' 10 10 == vpn1Of va else e.vpn == vpnOf va)

/-- The 34-bit physical address of `va` through this entry. -/
def physAddr (va : Word) (e : TlbEntry) : BitVec 34 :=
  if e.superpage then e.ppn.extractLsb' 10 12 ++ va.extractLsb' 0 22
  else e.ppn ++ va.extractLsb' 0 12

def reset : TlbEntry :=
  { valid := false, globalMapping := false, superpage := false, asid := 0#9, vpn := 0#20
    ppn := 0#22, u := false, r := false, w := false, x := false, a := false, d := false }

end TlbEntry

namespace Tlb

/-- The first matching entry. -/
def find (satp va : Word) (t : Tlb) : Option (Fin 4) :=
  [0, 1, 2, 3].find? fun k => (t k).matching satp va

/-- `*tlb_hit`. -/
def hit (satp va : Word) (t : Tlb) : Bool := (t.find satp va).isSome

/-- `*tlb_hit_index`; 0 on a miss. -/
def hitIndex (satp va : Word) (t : Tlb) : Fin 4 := (t.find satp va).getD 0

/-- The entry read, entry 0 on a miss. -/
def entry (satp va : Word) (t : Tlb) : TlbEntry := t (t.hitIndex satp va)

/-- All entries are invalidated. -/
def invalidate (t : Tlb) : Tlb := fun k => { t k with valid := false }

end Tlb

namespace Mmu

def reset : Mmu :=
  { dtlb := fun _ => TlbEntry.reset, itlb := fun _ => TlbEntry.reset, dtlbReplace := 0
    itlbReplace := 0, ptwState := .idle, walkVaddr := 0#32, walkStore := false
    walkIsInstr := false, walkPriv := privM, walkAsid := 0#9, walkSum := false, walkMxr := false
    walkGlobal := false, walkPteAddr := 0#32, walkPte := 0#32, walkSuperpage := false
    walkPageFault := false, walkAccessFault := false, walkKilled := false
    instrFaultPending := false, instrFaultPage := false, instrFaultVaddr := 0#32 }

/-! ## The data side -/

section Data

variable (c : XlateCtx) (q : DReq) (s : Mmu)

def dtlbHit : Bool := s.dtlb.hit c.satp q.vaddr

/-- The entry the data lookup reads. -/
def dtlbEntry : TlbEntry := s.dtlb.entry c.satp q.vaddr

/-- `dtlb_access_allowed`. -/
def dtlbAccessAllowed : Bool :=
  let h := s.dtlbEntry c q
  let allowPriv :=
    if c.effectivePriv == privU then h.u
    else if c.effectivePriv == privS then !h.u || c.sum else true
  let allowAccess := if q.store then h.w else h.r || (c.mxr && h.x)
  allowPriv && allowAccess

/-- `dtlb_ad_ready`. -/
def dtlbAdReady : Bool := let h := s.dtlbEntry c q; h.a && (!q.store || h.d)

/-- `dtlb_pa`. -/
def dtlbPa : BitVec 34 := (s.dtlbEntry c q).physAddr q.vaddr

/-- A physical address beyond 32 bits: `|pa[33:32]`. -/
def beyond32 (pa : BitVec 34) : Bool := pa.extractLsb' 32 2 != 0#2

/-- The outputs `d_*_o`. -/
def dataRsp : DRsp :=
  if !q.valid || !c.dataTranslate then
    { ready := true, paddr := q.vaddr, pageFault := false, accessFault := false }
  else if s.dtlbHit c q then
    if !s.dtlbAccessAllowed c q then
      { ready := true, paddr := q.vaddr, pageFault := true, accessFault := false }
    else if s.dtlbAdReady c q then
      { ready := true, paddr := (s.dtlbPa c q).extractLsb' 0 32, pageFault := false
        accessFault := beyond32 (s.dtlbPa c q) }
    else { ready := false, paddr := q.vaddr, pageFault := false, accessFault := false }
  else if s.ptwState == .fault && s.walkVaddr == q.vaddr && s.walkStore == q.store then
    { ready := true, paddr := q.vaddr, pageFault := s.walkPageFault
      accessFault := s.walkAccessFault }
  else { ready := false, paddr := q.vaddr, pageFault := false, accessFault := false }

end Data

/-! ## The fetch side -/

section Fetch

variable (c : XlateCtx) (q : ImemReq) (s : Mmu)

def itlbHit : Bool := s.itlb.hit c.satp q.addr

/-- The entry the fetch lookup reads. -/
def itlbEntry : TlbEntry := s.itlb.entry c.satp q.addr

/-- `itlb_permission_ok`. -/
def itlbPermissionOk : Bool :=
  let h := s.itlbEntry c q
  h.x && h.a && (if c.privilege == privU then h.u else !h.u)

/-- `itlb_pa`. -/
def itlbPa : BitVec 34 := (s.itlbEntry c q).physAddr q.addr

/-- `instr_direct_page_fault`. -/
def instrDirectPageFault : Bool :=
  c.instrTranslate && q.ren && s.itlbHit c q && !s.itlbPermissionOk c q

/-- `instr_direct_access_fault`. -/
def instrDirectAccessFault : Bool :=
  c.instrTranslate && q.ren && s.itlbHit c q && s.itlbPermissionOk c q &&
    beyond32 (s.itlbPa c q)

/-- The request on `phys_instr`. -/
def physInstrReq : ImemReq :=
  { addr := if c.instrTranslate then (s.itlbPa c q).extractLsb' 0 32 else q.addr
    ren := q.ren && (!c.instrTranslate ||
      (s.itlbHit c q && s.itlbPermissionOk c q && !beyond32 (s.itlbPa c q)))
    flush := q.flush }

/-- `core_instr.stall`. -/
def instrStall (r : ImemRsp) : Bool :=
  if c.instrTranslate && q.ren then
    if s.instrFaultPending && s.instrFaultVaddr == q.addr then false
    else if s.instrDirectPageFault c q || s.instrDirectAccessFault c q then false
    else if !s.itlbHit c q then true
    else r.stall
  else r.stall

/-- `instr_fault_o`. -/
def instrFault : Bool :=
  s.instrFaultPending || s.instrDirectPageFault c q || s.instrDirectAccessFault c q

/-- `instr_page_fault_o`. -/
def instrPageFault : Bool :=
  if s.instrFaultPending then s.instrFaultPage else s.instrDirectPageFault c q

end Fetch

/-! ## The data bus -/

/-- `walk_active`. -/
def walkActive (s : Mmu) : Bool := s.ptwState == .l1Wait || s.ptwState == .l0Wait

/-- The walker drives `phys_data`. -/
def ownsBus (s : Mmu) : Bool := s.walkActive || s.ptwState == .adWait

/-- The request of the walker on `phys_data`: a read of the PTE, or its A/D write-back. -/
def walkReq (s : Mmu) : WbReq :=
  if s.walkActive then
    { adr := s.walkPteAddr, datW := 0#32, sel := 0b1111#4, we := false, cyc := true, stb := true
      lock := false }
  else
    { adr := s.walkPteAddr, datW := s.walkPte ||| adBits s.walkStore, sel := 0b1111#4, we := true
      cyc := true, stb := true, lock := true }

/-- The request on `phys_data`. -/
def physDataReq (q : WbReq) (s : Mmu) : WbReq := if s.ownsBus then s.walkReq else q

/-- The answer on `core_data`. -/
def coreDataRsp (r : WbRsp) (s : Mmu) : WbRsp :=
  if s.ownsBus then { datR := 0#32, ack := false } else r

/-! ## The clock edge

`s` is the state before the edge, `s1` that state with the assignments made above the `case`;
a later assignment of the same register wins, as in the source. -/

/-- The assignments above the `case`: the fence, the pending fetch fault and the kill flag. -/
def settle (i : MmuIn) (s : Mmu) : Mmu :=
  { s with
    dtlb := if i.sfenceVma then s.dtlb.invalidate else s.dtlb
    itlb := if i.sfenceVma then s.itlb.invalidate else s.itlb
    instrFaultPending :=
      if i.coreInstr.flush then false
      else if s.instrFaultPending && i.coreInstr.ren &&
        !s.instrStall i.ctx i.coreInstr i.physInstr then false
      else s.instrFaultPending
    walkKilled :=
      if i.coreInstr.flush && s.walkIsInstr && s.ptwState != .idle then true else s.walkKilled }

/-- A data walk starts. -/
def dataWalkStart (i : MmuIn) (s : Mmu) : Bool :=
  i.dReq.valid && i.ctx.dataTranslate &&
    (!s.dtlbHit i.ctx i.dReq ||
      (s.dtlbAccessAllowed i.ctx i.dReq && !s.dtlbAdReady i.ctx i.dReq)) &&
    !i.coreData.cyc

/-- An instruction walk starts, unless a data walk does. -/
def instrWalkStart (i : MmuIn) (s : Mmu) : Bool :=
  i.coreInstr.ren && i.ctx.instrTranslate && !s.itlbHit i.ctx i.coreInstr &&
    !i.coreData.cyc && !s.instrFaultPending

/-- The registers of a walk for `va` are loaded and its first PTE is requested. -/
def startWalk (satp va : Word) (s1 : Mmu) : Mmu :=
  { s1 with
    walkVaddr := va
    walkAsid := satpAsid satp
    walkGlobal := false
    walkPageFault := false
    walkKilled := false
    walkPteAddr := pteAddr (satpPpn satp) (vpn1Of va)
    walkAccessFault := pteUnreachable (satpPpn satp) (vpn1Of va)
    ptwState := if pteUnreachable (satpPpn satp) (vpn1Of va) then .fault else .l1Wait }

def ptwIdle (i : MmuIn) (s s1 : Mmu) : Mmu :=
  if s.dataWalkStart i then
    -- a hit entry that lacks A or D is refilled by the walk
    let dtlb := if s.dtlbHit i.ctx i.dReq then
        let k := s.dtlb.hitIndex i.ctx.satp i.dReq.vaddr
        Function.update s1.dtlb k { s1.dtlb k with valid := false }
      else s1.dtlb
    { startWalk i.ctx.satp i.dReq.vaddr s1 with
      dtlb := dtlb
      walkStore := i.dReq.store
      walkIsInstr := false
      walkPriv := i.ctx.effectivePriv
      walkSum := i.ctx.sum
      walkMxr := i.ctx.mxr }
  else if s.instrWalkStart i then
    { startWalk i.ctx.satp i.coreInstr.addr s1 with
      walkStore := false
      walkIsInstr := true
      walkPriv := i.ctx.privilege
      walkSum := false
      walkMxr := false }
  else s1

/-- The permission test of the walker on a leaf. -/
def walkPermissionOk (s : Mmu) : Bool :=
  if s.walkIsInstr then pteFetchOk s.walkPte s.walkPriv
  else ptePermissionOk s.walkPte s.walkStore s.walkPriv s.walkSum s.walkMxr

/-- A wait state: on the acknowledge the PTE is latched. -/
def ptwWait (i : MmuIn) (s1 : Mmu) (done : PtwState) : Mmu :=
  if i.physData.ack then { s1 with walkPte := i.physData.datR, ptwState := done } else s1

/-- A leaf that grants the access: its A/D bits are written back if the access needs it. -/
def acceptLeaf (superpage : Bool) (s s1 : Mmu) : Mmu :=
  { s1 with
    walkSuperpage := superpage
    ptwState := if needsAd s.walkPte s.walkStore then .adWait else .fill }

def ptwL1Check (s s1 : Mmu) : Mmu :=
  let s2 := { s1 with walkGlobal := s.walkGlobal || s.walkPte.getLsbD 5 }
  if pteInvalid s.walkPte then { s2 with walkPageFault := true, ptwState := .fault }
  else if pteLeaf s.walkPte then
    if s.walkPte.extractLsb' 10 10 != 0#10 || !s.walkPermissionOk then
      { s2 with walkPageFault := true, ptwState := .fault }
    else acceptLeaf true s s2
  else
    let s3 := { s2 with walkPteAddr := pteAddr (ptePpn s.walkPte) (vpn0Of s.walkVaddr) }
    if pteUnreachable (ptePpn s.walkPte) (vpn0Of s.walkVaddr) then
      { s3 with walkAccessFault := true, ptwState := .fault }
    else { s3 with ptwState := .l0Wait }

def ptwL0Check (s s1 : Mmu) : Mmu :=
  let s2 := { s1 with walkGlobal := s.walkGlobal || s.walkPte.getLsbD 5 }
  if pteInvalid s.walkPte || !pteLeaf s.walkPte || !s.walkPermissionOk then
    { s2 with walkPageFault := true, ptwState := .fault }
  else acceptLeaf false s s2

def ptwAdWait (i : MmuIn) (s s1 : Mmu) : Mmu :=
  if i.physData.ack then
    { s1 with walkPte := s.walkPte ||| adBits s.walkStore, ptwState := .fill }
  else s1

/-- The TLB entry a finished walk fills in. -/
def fillEntry (s : Mmu) : TlbEntry :=
  { valid := true
    globalMapping := s.walkGlobal || s.walkPte.getLsbD 5
    superpage := s.walkSuperpage
    asid := s.walkAsid
    vpn := vpnOf s.walkVaddr
    ppn := ptePpn s.walkPte
    u := s.walkPte.getLsbD 4
    r := s.walkPte.getLsbD 1
    w := s.walkPte.getLsbD 2
    x := s.walkPte.getLsbD 3
    a := s.walkPte.getLsbD 6
    d := s.walkPte.getLsbD 7 }

def ptwFill (s s1 : Mmu) : Mmu :=
  if s.walkKilled then { s1 with walkKilled := false, ptwState := .idle }
  else if s.walkIsInstr then
    { s1 with
      itlb := Function.update s1.itlb s.itlbReplace s.fillEntry
      itlbReplace := s.itlbReplace + 1
      ptwState := .idle }
  else
    { s1 with
      dtlb := Function.update s1.dtlb s.dtlbReplace s.fillEntry
      dtlbReplace := s.dtlbReplace + 1
      ptwState := .idle }

def ptwFault (i : MmuIn) (s s1 : Mmu) : Mmu :=
  if s.walkKilled then
    { s1 with
      walkKilled := false, walkPageFault := false, walkAccessFault := false, ptwState := .idle }
  else if s.walkIsInstr then
    { s1 with
      instrFaultPending := true
      instrFaultPage := s.walkPageFault
      instrFaultVaddr := s.walkVaddr
      ptwState := .idle }
  else if !i.dReq.valid || s.walkVaddr != i.dReq.vaddr || s.walkStore != i.dReq.store then
    { s1 with ptwState := .idle }
  else s1

/-- The registers after the clock edge. -/
def next (i : MmuIn) (s : Mmu) : Mmu :=
  let s1 := s.settle i
  match s.ptwState with
  | .idle => ptwIdle i s s1
  | .l1Wait => ptwWait i s1 .l1Check
  | .l1Capture => { s1 with walkPte := i.physData.datR, ptwState := .l1Check }
  | .l1Check => ptwL1Check s s1
  | .l0Wait => ptwWait i s1 .l0Check
  | .l0Capture => { s1 with walkPte := i.physData.datR, ptwState := .l0Check }
  | .l0Check => ptwL0Check s s1
  | .adWait => ptwAdWait i s s1
  | .fill => ptwFill s s1
  | .fault => ptwFault i s s1

end Mmu

end MelonSoc
