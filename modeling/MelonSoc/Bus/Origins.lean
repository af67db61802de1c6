import MelonSoc.Bus.Control
import MelonSoc.Bus.Requests
import MelonSoc.Lib.Clocked
import MelonSoc.Rtl.Soc

set_option autoImplicit false

/-! # Who asked for an answer

The data RAM answers a cycle after the strobe, MMIO likewise, and the bridge answers whenever
the DDR side has. The master on the bus may have changed in between. `Origins` remembers for
each slave the request its next answer belongs to; `Soc.answering` selects the one that stands
behind the answer the multiplexer lets through.
-/

namespace MelonSoc

/-- A request on the physical data bus: who put it there, its address and its direction. -/
structure Origin where
  byWalker : Bool
  adr : Word
  we : Bool

/-- For each slave the request its answer belongs to. -/
structure Origins where
  ram : Option Origin
  mmio : Option Origin
  ddr : Option Origin

def Origins.reset : Origins := { ram := none, mmio := none, ddr := none }

/-- The word of the memories at a byte address. -/
def Memories.wordAt (m : Memories) (a : Word) : Word :=
  if isDdrRegion a then m.ddr (wordOf a) else m.dataram (dataramIndex a)

namespace Soc

/-- The request of the core, whether it has the bus or not. -/
def coreReq (s : Soc) : WbReq := s.hart.core.dataReq

/-- What the core receives in the cycle. -/
def coreIn (i : SocIn) (s : Soc) : CoreIn := s.hart.coreIn (s.hartIn i)

/-- What the MMU receives in the cycle. -/
def mmuIn (i : SocIn) (s : Soc) : MmuIn := s.hart.mmuIn (s.hartIn i) (s.instrRsp i)

/-- The request on the bus. -/
def origin (s : Soc) : Origin :=
  { byWalker := s.hart.mmu.ownsBus, adr := s.dataReq.adr, we := s.dataReq.we }

/-- The origins after a cycle. -/
def originsNext (i : SocIn) (s : Soc) (g : Origins) : Origins :=
  { ram := if s.ramStrobe then some s.origin else none
    mmio := if s.mmioStrobe && !s.data.mmioAckQ then some s.origin else none
    ddr := if s.bridgeAccept i then (if s.arb.ownerIsData then some s.origin else none)
      else g.ddr }

/-- The request behind the answer on the bus. -/
def answering (s : Soc) (g : Origins) : Option Origin :=
  if isMappedMmio s.dataReq.adr then g.mmio
  else if isDdrRegion s.dataReq.adr then g.ddr
  else if s.dataUnmapped then none
  else g.ram

/-- The MEM stage or the atomic unit takes the answer of this cycle. -/
def coreConsumes (i : SocIn) (s : Soc) : Bool := s.coreReq.stb && (s.coreIn i).ack

/-- The walker takes the answer of this cycle. -/
def walkerConsumes (i : SocIn) (s : Soc) : Bool := s.hart.mmu.ownsBus && (s.dataRsp i).ack

/-! ## The clock edge -/

variable {i : SocIn} {s : Soc}

@[simp] theorem next_core :
    (s.next i).hart.core
      = s.hart.core.next (s.coreIn i) (s.hart.fetchIn (s.hartIn i) (s.instrRsp i)) := rfl
@[simp] theorem next_mmu : (s.next i).hart.mmu = s.hart.mmu.next (s.mmuIn i) := rfl
@[simp] theorem next_data : (s.next i).data = s.dataNext i := rfl
@[simp] theorem next_arb : (s.next i).arb = s.arbNext i := rfl
@[simp] theorem next_bridge : (s.next i).bridge = s.bridgeNext i := rfl
@[simp] theorem next_mem : (s.next i).mem = s.memNext i := rfl

@[simp] theorem mmuIn_coreData : (s.mmuIn i).coreData = s.coreReq := rfl
@[simp] theorem mmuIn_physData : (s.mmuIn i).physData = s.dataRsp i := rfl

theorem coreIn_ack : (s.coreIn i).ack = (!s.hart.mmu.ownsBus && (s.dataRsp i).ack) := by
  show (s.hart.mmu.coreDataRsp (s.dataRsp i)).ack = _
  unfold Mmu.coreDataRsp
  split <;> simp [*]

theorem dataReq_of_core (h : s.hart.mmu.ownsBus = false) : s.dataReq = s.coreReq := by
  simp [dataReq, Hart.dataReq, Mmu.physDataReq, h, coreReq]

theorem dataReq_of_walker (h : s.hart.mmu.ownsBus = true) :
    s.dataReq = s.hart.mmu.walkReq := by
  simp [dataReq, Hart.dataReq, Mmu.physDataReq, h]

/-- The request of the walker. -/
theorem walker_request (h : s.hart.mmu.ownsBus = true) :
    s.dataReq.adr = s.hart.mmu.walkPteAddr ∧ s.dataReq.cyc = true ∧ s.dataReq.stb = true ∧
      s.dataReq.we = !s.hart.mmu.walkActive ∧ s.dataReq.lock = !s.hart.mmu.walkActive := by
  rw [dataReq_of_walker h]
  unfold Mmu.walkReq
  split <;> simp [*]

/-- An answer is taken by the core or by the walker. -/
theorem coreConsumes_iff : s.coreConsumes i = true ↔
    s.coreReq.stb = true ∧ s.hart.mmu.ownsBus = false ∧ (s.dataRsp i).ack = true := by
  simp [coreConsumes, coreIn_ack]

/-- The couplings inside the hart. -/
structure HartWf (s : Soc) : Prop where
  core : s.hart.core.Wf
  mapped : s.hart.core.Mapped
  control : s.hart.mmu.ControlWf

theorem hartWf_reset (m : Memories) : (Soc.reset m).HartWf :=
  ⟨Core.wf_reset, Core.mapped_reset, Mmu.controlWf_reset⟩

theorem HartWf.next (w : s.HartWf) (i : SocIn) : (s.next i).HartWf :=
  ⟨w.core.next _ _, w.mapped.next w.core _ _, w.control.next _⟩

/-- Every request on the bus is for a mapped address. -/
theorem HartWf.mappedReq (w : s.HartWf) (h : s.dataReq.cyc = true) :
    isMappedDataAddress s.dataReq.adr = true := by
  by_cases ho : s.hart.mmu.ownsBus = true
  · rw [(walker_request ho).1]
    rcases w.control.readable_of_owns ho with hr | hr <;> simp [isMappedDataAddress, hr]
  · simp only [Bool.not_eq_true] at ho
    rw [dataReq_of_core ho] at h ⊢
    exact w.mapped.dataReq w.core h

theorem HartWf.not_unmapped (w : s.HartWf) : s.dataUnmapped = false := by
  by_contra hc
  simp only [dataUnmapped, Bool.not_eq_false, Bool.and_eq_true, Bool.not_eq_true'] at hc
  rw [w.mappedReq hc.1.1] at hc
  exact absurd hc.2 (by decide)

/-- The request of the core after a cycle without an acknowledge for it. -/
theorem HartWf.coreReq_stable (w : s.HartWf) (h : s.coreReq.stb = true)
    (ha : s.hart.mmu.ownsBus = true ∨ (s.dataRsp i).ack = false) :
    (s.next i).coreReq = s.coreReq := by
  refine w.core.dataReq_stable h ?_
  show (s.coreIn i).ack = false
  rw [coreIn_ack]
  rcases ha with ha | ha <;> simp [ha]

/-- A strobe of the core that is still up carries the same request. -/
theorem HartWf.coreReq_still (w : s.HartWf) (h : s.coreReq.stb = true)
    (h' : (s.next i).coreReq.stb = true) : (s.next i).coreReq = s.coreReq := by
  apply w.core.dataReq_stable h
  by_contra hc
  simp only [Bool.not_eq_false] at hc
  have hdown : (s.next i).coreReq.stb = false := w.core.dataReq_acked h hc
  rw [hdown] at h'
  cases h'

/-! ## The multiplexer -/

theorem ramStrobe_iff (w : s.HartWf) : s.ramStrobe = true ↔
    s.dataReq.cyc = true ∧ s.dataReq.stb = true ∧ isDataramRegion s.dataReq.adr = true := by
  simp [ramStrobe, w.not_unmapped, and_assoc]

theorem dataMux_ram (w : s.HartWf) (h : isDataramRegion s.dataReq.adr = true) :
    s.dataMux i = { datR := s.data.ramDatR, ack := s.data.ramAck } := by
  simp [dataMux, not_mmio_of_dataram h, not_ddr_of_dataram h, w.not_unmapped]

theorem dataMux_ddr (h : isDdrRegion s.dataReq.adr = true) :
    s.dataMux i = s.ddrDataRsp := by
  simp [dataMux, not_mmio_of_ddr h, h]

theorem dataMux_mmio (h : isMappedMmio s.dataReq.adr = true) :
    s.dataMux i = { datR := i.mmioDatR, ack := s.data.mmioAckQ } := by
  simp [dataMux, h]

theorem dataRsp_ack : (s.dataRsp i).ack = (s.dataMux i).ack := by
  simp only [dataRsp]

theorem dataRsp_datR (h : (s.dataRsp i).ack = true) :
    (s.dataRsp i).datR = (s.dataMux i).datR := by
  rw [dataRsp_ack] at h
  simp [dataRsp, h]

theorem answering_ram (w : s.HartWf) {g : Origins} (h : isDataramRegion s.dataReq.adr = true) :
    s.answering g = g.ram := by
  simp [answering, not_mmio_of_dataram h, not_ddr_of_dataram h, w.not_unmapped]

theorem answering_ddr {g : Origins} (h : isDdrRegion s.dataReq.adr = true) :
    s.answering g = g.ddr := by
  simp [answering, not_mmio_of_ddr h, h]

theorem answering_mmio {g : Origins} (h : isMappedMmio s.dataReq.adr = true) :
    s.answering g = g.mmio := by
  simp [answering, h]

theorem ddrDataRsp_ack_iff : s.ddrDataRsp.ack = true ↔
    s.arb.ownerValid = true ∧ s.arb.cooldown = false ∧ s.arb.ownerIsData = true ∧
      s.bridge.ack = true := by
  unfold ddrDataRsp
  cases s.arb.ownerValid <;> cases s.arb.cooldown <;> cases s.arb.ownerIsData <;> simp

end Soc

end MelonSoc
