import MelonSoc.Bus.Delivery

set_option autoImplicit false

/-! # Response integrity

In every run of the SoC without a `ramConflict` every answer that the core or the walker takes
belongs to its own request and carries the word of the address it drives. A load in the shadow
of a fetch walk shows what happens at a conflict: it returns the entry that the walker has read.
-/

namespace MelonSoc

/-! ## Runs of the SoC -/

/-- The SoC before cycle `n` of the run from reset with memories `m`. -/
def socRun (m : Memories) (inp : Nat → SocIn) : Nat → Soc := Clocked.run Soc.next inp (Soc.reset m)

/-- The origins of the answers along the run. -/
def socOrigins (m : Memories) (inp : Nat → SocIn) : Nat → Origins :=
  Clocked.history Soc.next Soc.originsNext inp (Soc.reset m) Origins.reset

/-- Memories with the given words at the given word indices, zero elsewhere; the rest of
PROGROM is filled with `nop`. -/
def Memories.ofWords (rom ram ddr : List (Nat × Word)) : Memories :=
  let lookup (l : List (Nat × Word)) (k : Nat) (d : Word) : Word :=
    ((l.find? fun p => p.1 == k).map Prod.snd).getD d
  { progrom := fun k => lookup rom k.toNat 0x00000013#32
    dataram := fun k => lookup ram k.toNat 0#32
    ddr := fun k => lookup ddr k.toNat 0#32 }

/-- No interrupts, and the DDR side answers at once. -/
def quietSoc (_ : Nat) : SocIn :=
  { extIrq := false, swIrq := false, timerIrq := false, mmioDatR := 0#32, ddrRsp := true }

namespace Soc

/-! ## The property -/

/-- Every answer taken in the cycle is an answer to its taker, with the word at the address. -/
structure Intact (i : SocIn) (s : Soc) (g : Origins) : Prop where
  core : s.coreConsumes i = true →
    s.answering g = some { byWalker := false, adr := s.coreReq.adr, we := s.coreReq.we }
  coreWord : s.coreConsumes i = true → s.coreReq.we = false →
    (s.coreIn i).datR = if isMappedMmio s.coreReq.adr then i.mmioDatR
      else s.mem.wordAt s.coreReq.adr
  /-- The word that an LR or an AMO captures a cycle after its acknowledge. -/
  captured : s.hart.core.capturing = true →
    (s.coreIn i).datR = s.mem.wordAt s.hart.core.atomic.addr
  walker : s.walkerConsumes i = true → s.answering g = some
    { byWalker := true, adr := s.hart.mmu.walkPteAddr, we := !s.hart.mmu.walkActive }
  walkerWord : s.walkerConsumes i = true → s.hart.mmu.walkActive = true →
    (s.mmuIn i).physData.datR = s.mem.wordAt s.hart.mmu.walkPteAddr

variable {i : SocIn} {s : Soc} {g : Origins}

theorem coreIn_datR (h : s.hart.mmu.ownsBus = false) :
    (s.coreIn i).datR = (s.dataRsp i).datR := by
  show (s.hart.mmu.coreDataRsp (s.dataRsp i)).datR = _
  rw [Mmu.coreDataRsp, h]
  rfl

/-- The word in the answer to a read of the data RAM. -/
theorem Delivery.ram_word (d : s.Delivery g) (w : s.HartWf) {o : Origin}
    (hr : isDataramRegion s.dataReq.adr = true) (ho : g.ram = some o)
    (hadr : o.adr = s.dataReq.adr) (hwe : o.we = false) :
    (s.dataRsp i).datR = s.mem.wordAt s.dataReq.adr := by
  have hack : (s.dataRsp i).ack = true := by
    rw [dataRsp_ack, dataMux_ram w hr]
    show s.data.ramAck = true
    rw [d.ramAck, ho]
    rfl
  rw [dataRsp_datR hack, dataMux_ram w hr]
  show s.data.ramDatR = _
  rw [(d.ram o ho).data hwe, hadr, Memories.wordAt, not_ddr_of_dataram hr]
  rfl

/-- The word that the core takes. -/
theorem Delivery.core_word (d : s.Delivery g) (w : s.HartWf) (hc : s.ramConflict = false)
    (h : s.coreConsumes i = true) (hwe : s.coreReq.we = false) :
    (s.coreIn i).datR = if isMappedMmio s.coreReq.adr then i.mmioDatR
      else s.mem.wordAt s.coreReq.adr := by
  obtain ⟨hstb, ho, hack⟩ := coreConsumes_iff.mp h
  have hown := (d.core_own w hc h).1
  have hreq := dataReq_of_core ho
  have hcyc : s.dataReq.cyc = true := by
    rw [hreq]
    exact Core.dataReq_stb_cyc hstb
  rw [coreIn_datR ho, ← hreq]
  rcases region_cases (w.mappedReq hcyc) with ⟨hr, -⟩ | ⟨-, hr, -⟩ | ⟨-, -, hr⟩
  · rw [answering_ram w hr] at hown
    rw [not_mmio_of_dataram hr]
    exact d.ram_word w hr hown (by rw [hreq]) hwe
  · rw [not_mmio_of_ddr hr]
    exact d.toGrants.ddr_word hr hack (by rw [hreq]; exact hwe)
  · rw [dataRsp_datR hack, dataMux_mmio hr, hr]
    rfl

/-- The word that the walker takes. -/
theorem Delivery.walker_word (d : s.Delivery g) (w : s.HartWf) (h : s.walkerConsumes i = true)
    (hact : s.hart.mmu.walkActive = true) :
    (s.mmuIn i).physData.datR = s.mem.wordAt s.hart.mmu.walkPteAddr := by
  have hown := d.walker_own w h
  simp only [walkerConsumes, Bool.and_eq_true] at h
  obtain ⟨ho, hack⟩ := h
  obtain ⟨hadr, -, -, hwe, -⟩ := walker_request ho
  rw [mmuIn_physData, ← hadr]
  rcases w.control.readable_of_owns ho with hr | hr
  · have hr' : isDataramRegion s.dataReq.adr = true := by rw [hadr]; exact hr
    rw [answering_ram w hr'] at hown
    exact d.ram_word w hr' hown hadr.symm (by rw [hact]; rfl)
  · have hr' : isDdrRegion s.dataReq.adr = true := by rw [hadr]; exact hr
    exact d.toGrants.ddr_word hr' hack (by rw [hwe, hact]; rfl)

/-- The word that the atomic unit captures. -/
theorem Delivery.captured_word (d : s.Delivery g) (w : s.HartWf)
    (h : s.hart.core.capturing = true) :
    (s.coreIn i).datR = s.mem.wordAt s.hart.core.atomic.addr := by
  obtain ⟨ho, hddr, hram⟩ := d.capture h
  have hbusy : s.hart.core.atomic.state ≠ .idle := by
    intro hc
    simp [Core.capturing, hc] at h
  have hadr : s.dataReq.adr = s.hart.core.atomic.addr := by
    rw [dataReq_of_core ho]
    simp [coreReq, Core.dataReq, hbusy]
  rw [coreIn_datR ho, ← hadr]
  rcases w.mapped.atomicAddr w.core hbusy with hr | hr
  · have hr' : isDataramRegion s.dataReq.adr = true := by rw [hadr]; exact hr
    exact d.ram_word w hr' (hram hr) hadr.symm rfl
  · have hr' : isDdrRegion s.dataReq.adr = true := by rw [hadr]; exact hr
    obtain ⟨hb, hword⟩ := hddr hr
    have hno : (s.dataMux i).ack = false := by
      rw [dataMux_ddr hr']
      by_contra hc
      rw [(ddrDataRsp_ack_iff.mp (by simpa using hc)).2.2.2] at hb
      cases hb
    simp [dataRsp, hno, hword, Memories.wordAt, hr, hadr]

theorem Delivery.intact (d : s.Delivery g) (w : s.HartWf) (hc : s.ramConflict = false) :
    s.Intact i g where
  core h := (d.core_own w hc h).1
  coreWord h hwe := d.core_word w hc h hwe
  captured h := d.captured_word w h
  walker h := d.walker_own w h
  walkerWord h hact := d.walker_word w h hact

end Soc

/-! ## Runs -/

/-- The invariants of every run. -/
theorem socRun_grants (m : Memories) (inp : Nat → SocIn) (n : Nat) :
    (socRun m inp n).HartWf ∧ (socRun m inp n).Grants (socOrigins m inp n) := by
  refine Clocked.history_invariant (P := fun s g => Soc.HartWf s ∧ Soc.Grants s g)
    (C := fun _ _ => True) ⟨Soc.hartWf_reset m, Soc.grants_reset m⟩ ?_ (fun _ _ => trivial)
  rintro i s g - ⟨w, d⟩
  exact ⟨w.next i, d.next w i⟩

/-- The invariants of a run without conflicts. -/
theorem socRun_delivery (m : Memories) (inp : Nat → SocIn) {n : Nat}
    (h : ∀ k, k < n → (socRun m inp k).ramConflict = false) :
    (socRun m inp n).HartWf ∧ (socRun m inp n).Delivery (socOrigins m inp n) := by
  refine Clocked.history_invariant (P := fun s g => Soc.HartWf s ∧ Soc.Delivery s g)
    (C := fun _ s => Soc.ramConflict s = false) ⟨Soc.hartWf_reset m, Soc.delivery_reset m⟩ ?_ h
  rintro i s g hc ⟨w, d⟩
  exact ⟨w.next i, d.next w hc⟩

/-- **Response integrity.** -/
theorem responses_intact (m : Memories) (inp : Nat → SocIn) (n : Nat)
    (h : ∀ k, k ≤ n → (socRun m inp k).ramConflict = false) :
    (socRun m inp n).Intact (inp n) (socOrigins m inp n) := by
  obtain ⟨w, d⟩ := socRun_delivery m inp (fun k hk => h k (Nat.le_of_lt hk))
  exact d.intact w (h n (Nat.le_refl n))

/-- Page tables in the data RAM, with a page of code that ends with a load of the data RAM
while the next page is not yet in the ITLB. -/
def loadAtPageEnd : Memories :=
  Memories.ofWords
    [(0, 0x800000b7#32), (1, 0x01008093#32), (2, 0x18009073#32), (3, 0x00001137#32),
     (4, 0x80010113#32), (5, 0x30011073#32), (6, 0x004011b7#32), (7, 0xfe018193#32),
     (8, 0x34119073#32), (9, 0x30200073#32), (1016, 0x00402337#32), (1017, 0x00032283#32),
     (1019, 0x00402337#32), (1020, 0x00032383#32)]
    [(1, 0x4401#32), (1024, 0x4b#32), (1025, 0x44b#32), (1026, 0x48c7#32), (2048, 0xcafe#32)]
    []

/-- The first answer that the walker takes in this program. -/
theorem responses_intact_walk :
    (socRun loadAtPageEnd quietSoc 16).walkerConsumes (quietSoc 16) = true ∧
      (socRun loadAtPageEnd quietSoc 16).Intact (quietSoc 16)
        (socOrigins loadAtPageEnd quietSoc 16) := by
  have hquiet : Clocked.always Soc.next (fun _ s => !s.ramConflict) quietSoc
      (Soc.reset loadAtPageEnd) 17 = true := by decide +kernel
  refine ⟨by decide +kernel, responses_intact loadAtPageEnd quietSoc 16 (fun k hk => ?_)⟩
  have hk' : (!(socRun loadAtPageEnd quietSoc k).ramConflict) = true :=
    Clocked.always_iff.mp hquiet k (Nat.lt_succ_of_le hk)
  simpa using hk'

/-- The second load of the program takes the answer of the walker: it returns the entry
`0x4401` and not the word `0xcafe`. -/
theorem load_returns_pte :
    ¬ ∀ n, (socRun loadAtPageEnd quietSoc n).Intact (quietSoc n)
      (socOrigins loadAtPageEnd quietSoc n) := by
  intro h
  have hcons : (socRun loadAtPageEnd quietSoc 42).coreConsumes (quietSoc 42) = true := by
    decide +kernel
  have hread : (socRun loadAtPageEnd quietSoc 42).coreReq.we = false := by decide +kernel
  have hword := (h 42).coreWord hcons hread
  have hpte : (socRun loadAtPageEnd quietSoc 42).coreReq.adr = 0x12000#32 ∧
      ((socRun loadAtPageEnd quietSoc 42).coreIn (quietSoc 42)).datR = 0x4401#32 ∧
      (socRun loadAtPageEnd quietSoc 42).mem.wordAt 0x12000#32 = 0xcafe#32 := by decide +kernel
  rw [hpte.1, hpte.2.1, hpte.2.2] at hword
  revert hword
  decide

end MelonSoc
