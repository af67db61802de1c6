import MelonSoc.Rtl.Cpu.Step
import MelonSoc.Rtl.Mmu

set_option autoImplicit false

/-! # The core with its MMU

`cpu.sv` as a whole: the registers of the core and of `u_mmu` and the wires between them. What
remains outside are the interrupt lines, the write monitor and the two physical buses.
-/

namespace MelonSoc

structure Hart where
  core : Core
  mmu : Mmu

/-- The inputs of `cpu.sv` but the answer of the instruction bus. -/
structure HartIn where
  extIrq : Bool
  swIrq : Bool
  timerIrq : Bool
  extWriteValid : Bool
  extWriteAddr : Word
  extWriteSel : BitVec 4
  data : WbRsp

namespace Hart

def reset : Hart := { core := Core.reset, mmu := Mmu.reset }

/-- `satp`, `mstatus` and the privilege as `u_mmu` sees them. -/
def ctx (h : Hart) : XlateCtx :=
  { satp := h.core.csr.satp, mstatus := h.core.csr.mstatus, privilege := h.core.csr.currentPriv }

/-- `d_*_i` of `u_mmu`. -/
def dReq (h : Hart) : DReq :=
  { valid := h.core.dXlateReq, vaddr := h.core.exAddr, store := h.core.dStore }

/-- `d_*_o` of `u_mmu`. -/
def dRsp (h : Hart) : DRsp := h.mmu.dataRsp h.ctx h.dReq

/-- The request on the physical data bus. -/
def dataReq (h : Hart) : WbReq := h.mmu.physDataReq h.core.dataReq

/-- The answer on `core_data`. -/
def coreRsp (i : HartIn) (h : Hart) : WbRsp := h.mmu.coreDataRsp i.data

/-- What the core receives. -/
def coreIn (i : HartIn) (h : Hart) : CoreIn :=
  { extIrq := i.extIrq, swIrq := i.swIrq, timerIrq := i.timerIrq
    extWriteValid := i.extWriteValid, extWriteAddr := i.extWriteAddr
    extWriteSel := i.extWriteSel
    ack := (h.coreRsp i).ack, datR := (h.coreRsp i).datR
    dReqReady := h.dRsp.ready, dPaddr := h.dRsp.paddr, dPageFault := h.dRsp.pageFault
    dAccessFault := h.dRsp.accessFault }

/-- The request on `core_instr`. -/
def coreInstrReq (i : HartIn) (h : Hart) : ImemReq := h.core.instrReq (h.coreIn i)

/-- The request on the physical instruction bus. -/
def instrReq (i : HartIn) (h : Hart) : ImemReq := h.mmu.physInstrReq h.ctx (h.coreInstrReq i)

/-- What the fetch side answers the core. -/
def fetchIn (i : HartIn) (r : ImemRsp) (h : Hart) : FetchIn :=
  { rdata := r.rdata
    stall := h.mmu.instrStall h.ctx (h.coreInstrReq i) r
    fault := h.mmu.instrFault h.ctx (h.coreInstrReq i)
    pageFault := h.mmu.instrPageFault h.ctx (h.coreInstrReq i) }

/-- The inputs of `u_mmu`. -/
def mmuIn (i : HartIn) (r : ImemRsp) (h : Hart) : MmuIn :=
  { ctx := h.ctx
    sfenceVma := h.core.sfenceVma (h.coreIn i)
    coreInstr := h.coreInstrReq i
    physInstr := r
    dReq := h.dReq
    coreData := h.core.dataReq
    physData := i.data }

/-- The registers after the clock edge; `r` is the answer of the instruction bus. -/
def next (i : HartIn) (r : ImemRsp) (h : Hart) : Hart :=
  { core := h.core.next (h.coreIn i) (h.fetchIn i r)
    mmu := h.mmu.next (h.mmuIn i r) }

end Hart

end MelonSoc
