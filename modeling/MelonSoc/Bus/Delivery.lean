import MelonSoc.Bus.Grants

set_option autoImplicit false

/-! # Answers reach the master that asked

The bus changes hands with the state of the walker, and the slaves answer later. The invariant
`Delivery` ties the answers that are on their way to the requests they belong to. It is kept by
every step but one kind: the core strobes the data RAM in a cycle in which an acknowledge of the
RAM for the walker is still up, or right before the walker reads a second-level table there.
-/

namespace MelonSoc

namespace Soc

/-! ## The conflict -/

/-- The core reaches the data RAM in a cycle between two transactions of the walker with the
data RAM: while the walker checks an entry that it read there, in `FILL` after a write-back to
it, or before it reads a second-level entry there. -/
def ramConflict (s : Soc) : Bool :=
  s.coreReq.stb && isDataramRegion s.coreReq.adr &&
    ((s.hart.mmu.checking && isDataramRegion s.hart.mmu.walkPteAddr) ||
     (s.hart.mmu.ptwState == .fill && isDataramRegion s.hart.mmu.walkPteAddr && s.data.ramAck) ||
     (s.hart.mmu.descends && isDataramRegion s.hart.mmu.nextPteAddr))

/-! ## The invariant -/

/-- The answer the data RAM gives in this cycle. -/
structure RamAnswer (s : Soc) (o : Origin) : Prop where
  region : isDataramRegion o.adr = true
  data : o.we = false → s.data.ramDatR = s.mem.dataram (dataramIndex o.adr)
  /-- A strobe of the core that is still up is the one answered, and the walker neither checks
  an entry nor waits for the data RAM. -/
  core : o.byWalker = false →
    (s.coreReq.stb = true → s.coreReq.adr = o.adr ∧ s.coreReq.we = o.we) ∧
    s.hart.mmu.checking = false ∧
    (s.hart.mmu.ownsBus = true → isDataramRegion s.hart.mmu.walkPteAddr = false)
  /-- A strobe of the walker is still up, or the walker has taken its answer. -/
  walker : o.byWalker = true → o.adr = s.hart.mmu.walkPteAddr ∧
    ((s.hart.mmu.ownsBus = true ∧ o.we = !s.hart.mmu.walkActive) ∨
      s.hart.mmu.checking = true ∨ s.hart.mmu.ptwState = .fill)

/-- The answers on their way belong to the requests that `g` names. -/
structure Delivery (s : Soc) (g : Origins) : Prop extends s.Grants g where
  ramAck : s.data.ramAck = g.ram.isSome
  ram : ∀ o, g.ram = some o → s.RamAnswer o
  mmioAck : s.data.mmioAckQ = g.mmio.isSome
  mmio : ∀ o, g.mmio = some o → o.byWalker = false ∧ s.hart.mmu.checking = false ∧
    (s.coreReq.stb = true → s.coreReq.adr = o.adr ∧ s.coreReq.we = o.we)
  /-- In its capture states the atomic unit has the bus, and its word is there. -/
  capture : s.hart.core.capturing = true → s.hart.mmu.ownsBus = false ∧
    (isDdrRegion s.hart.core.atomic.addr = true → s.bridge.ack = false ∧
      s.data.cpuDataRdataQ = s.mem.ddr (wordOf s.hart.core.atomic.addr)) ∧
    (isDataramRegion s.hart.core.atomic.addr = true →
      g.ram = some { byWalker := false, adr := s.hart.core.atomic.addr, we := false })

theorem delivery_reset (m : Memories) : (Soc.reset m).Delivery Origins.reset where
  toGrants := grants_reset m
  ramAck := rfl
  ram := by intro o h; cases h
  mmioAck := rfl
  mmio := by intro o h; cases h
  capture := by intro h; cases h

variable {i : SocIn} {s : Soc} {g : Origins}

/-! ## Who may take an answer -/

/-- The core takes only answers of its own requests, and never while the walker checks. -/
theorem Delivery.core_own (d : s.Delivery g) (w : s.HartWf) (hc : s.ramConflict = false)
    (h : s.coreConsumes i = true) :
    s.answering g = some { byWalker := false, adr := s.coreReq.adr, we := s.coreReq.we } ∧
      s.hart.mmu.checking = false := by
  obtain ⟨hstb, ho, hack⟩ := coreConsumes_iff.mp h
  have hreq := dataReq_of_core ho
  have hmap := w.mappedReq (by rw [hreq]; exact Core.dataReq_stb_cyc hstb)
  rw [dataRsp_ack] at hack
  rcases region_cases hmap with ⟨hr, -⟩ | ⟨-, hr, -⟩ | ⟨-, -, hr⟩
  · rw [answering_ram w hr]
    rw [dataMux_ram w hr] at hack
    have hup : s.data.ramAck = true := hack
    have hsome : g.ram.isSome = true := by rw [← d.ramAck]; exact hup
    obtain ⟨o, hg⟩ := Option.isSome_iff_exists.mp hsome
    have ho' := d.ram o hg
    rw [hreq] at hr
    cases hby : o.byWalker with
    | false =>
        obtain ⟨hsame, hck, -⟩ := ho'.core hby
        obtain ⟨h1, h2⟩ := hsame hstb
        refine ⟨?_, hck⟩
        rw [hg, h1, h2, ← hby]
    | true =>
        -- an answer for the walker is still up: that is the conflict
        obtain ⟨hadr, hst⟩ := ho'.walker hby
        have hram := ho'.region
        rw [hadr] at hram
        exfalso
        rcases hst with ⟨hown, -⟩ | hck | hfill
        · rw [ho] at hown
          cases hown
        · simp [ramConflict, hstb, hr, hck, hram] at hc
        · simp [ramConflict, hstb, hr, hfill, hram, hup] at hc
  · rw [answering_ddr hr]
    rw [dataMux_ddr hr] at hack
    obtain ⟨-, -, hd, hb⟩ := ddrDataRsp_ack_iff.mp hack
    have hf := d.flight (.inr hb) hd
    rw [hf.origin, Soc.origin, ho, hreq]
    exact ⟨rfl, hf.noCheck⟩
  · rw [answering_mmio hr]
    rw [dataMux_mmio hr] at hack
    have hsome : g.mmio.isSome = true := by rw [← d.mmioAck]; exact hack
    obtain ⟨o, hg⟩ := Option.isSome_iff_exists.mp hsome
    obtain ⟨hby, hck, hsame⟩ := d.mmio o hg
    obtain ⟨h1, h2⟩ := hsame hstb
    refine ⟨?_, hck⟩
    rw [hg, h1, h2, ← hby]

/-- The walker takes only answers of its own requests. -/
theorem Delivery.walker_own (d : s.Delivery g) (w : s.HartWf) (h : s.walkerConsumes i = true) :
    s.answering g = some
      { byWalker := true, adr := s.hart.mmu.walkPteAddr, we := !s.hart.mmu.walkActive } := by
  simp only [walkerConsumes, Bool.and_eq_true] at h
  obtain ⟨ho, hack⟩ := h
  obtain ⟨hadr, -, -, hwe, -⟩ := walker_request ho
  rw [dataRsp_ack] at hack
  rcases w.control.readable_of_owns ho with hr | hr
  · have hr' : isDataramRegion s.dataReq.adr = true := by rw [hadr]; exact hr
    rw [answering_ram w hr']
    rw [dataMux_ram w hr'] at hack
    have hsome : g.ram.isSome = true := by rw [← d.ramAck]; exact hack
    obtain ⟨o, hg⟩ := Option.isSome_iff_exists.mp hsome
    have ho' := d.ram o hg
    cases hby : o.byWalker with
    | false =>
        have := (ho'.core hby).2.2 ho
        rw [hr] at this
        cases this
    | true =>
        obtain ⟨h1, hst⟩ := ho'.walker hby
        rcases hst with ⟨-, h2⟩ | hck | hfill
        · rw [hg, ← h1, ← h2, ← hby]
        · rw [Mmu.not_owns_of_checking hck] at ho
          cases ho
        · simp [Mmu.ownsBus, Mmu.walkActive, hfill] at ho
  · have hr' : isDdrRegion s.dataReq.adr = true := by rw [hadr]; exact hr
    rw [answering_ddr hr']
    rw [dataMux_ddr hr'] at hack
    obtain ⟨-, -, hd, hb⟩ := ddrDataRsp_ack_iff.mp hack
    have hf := d.flight (.inr hb) hd
    rw [hf.origin, Soc.origin, ho, hadr, hwe]

/-! ## The answer of the data RAM and of MMIO -/

/-- While the core strobes the data RAM, the walker does not turn to the data RAM. -/
theorem HartWf.walker_avoids_ram (w : s.HartWf) (hc : s.ramConflict = false)
    (ho : s.hart.mmu.ownsBus = false) (hstb : s.coreReq.stb = true)
    (hr : isDataramRegion s.coreReq.adr = true) (ho' : (s.next i).hart.mmu.ownsBus = true) :
    isDataramRegion (s.next i).hart.mmu.walkPteAddr = false := by
  simp only [ramConflict, hstb, hr, Bool.true_and, Bool.or_eq_false_iff] at hc
  obtain ⟨⟨hck, -⟩, hdesc⟩ := hc
  have hcyc : (s.mmuIn i).coreData.cyc = true := Core.dataReq_stb_cyc hstb
  rcases w.control.comes_back ho hcyc ho' with ⟨hu, -, hadr⟩ | ⟨hd, -, hadr⟩
  · rw [Mmu.checking_of_updates hu, Bool.true_and] at hck
    rw [next_mmu, hadr]
    exact hck
  · rw [hd, Bool.true_and] at hdesc
    rw [next_mmu, hadr]
    exact hdesc

/-- The strobe of this cycle is what the data RAM answers in the next. -/
theorem HartWf.ramAnswer_next (w : s.HartWf) (hc : s.ramConflict = false)
    (h : s.ramStrobe = true) : (s.next i).RamAnswer s.origin := by
  obtain ⟨-, hstb, hr⟩ := (ramStrobe_iff w).mp h
  refine ⟨hr, fun hwe => ?_, fun hby => ?_, fun hby => ?_⟩
  · have hwe' : s.dataReq.we = false := hwe
    simp [dataNext, memNext, h, hwe', origin]
  · have ho : s.hart.mmu.ownsBus = false := hby
    have hreq := dataReq_of_core ho
    rw [hreq] at hstb hr
    refine ⟨fun h' => ?_, w.not_checking_next ho, fun ho' => ?_⟩
    · have hsame := w.coreReq_still hstb h'
      simp only [origin, hreq, hsame, and_self]
    · exact w.walker_avoids_ram hc ho hstb hr ho'
  · have ho : s.hart.mmu.ownsBus = true := hby
    obtain ⟨hadr, -, -, hwe, -⟩ := walker_request ho
    obtain ⟨hadr', hmv⟩ := w.walker_moves (i := i) ho
    refine ⟨by rw [hadr', ← hadr]; rfl, ?_⟩
    rcases hmv with ⟨h1, h2⟩ | h1 | h1
    · exact .inl ⟨h1, by rw [h2, ← hwe]; rfl⟩
    · exact .inr (.inl h1)
    · exact .inr (.inr h1)

theorem HartWf.mmio_of_core (w : s.HartWf) (h : isMappedMmio s.dataReq.adr = true) :
    s.hart.mmu.ownsBus = false := by
  by_contra hc
  simp only [Bool.not_eq_false] at hc
  rw [(walker_request hc).1] at h
  rcases w.control.readable_of_owns hc with hr | hr
  · rw [not_mmio_of_dataram hr] at h
    cases h
  · rw [not_mmio_of_ddr hr] at h
    cases h

/-- The strobe of this cycle is what MMIO answers in the next. -/
theorem HartWf.mmioAnswer_next (w : s.HartWf) (h : s.mmioStrobe = true) :
    s.origin.byWalker = false ∧ (s.next i).hart.mmu.checking = false ∧
      ((s.next i).coreReq.stb = true →
        (s.next i).coreReq.adr = s.origin.adr ∧ (s.next i).coreReq.we = s.origin.we) := by
  simp only [mmioStrobe, Bool.and_eq_true] at h
  obtain ⟨⟨-, hstb⟩, hm⟩ := h
  have ho := w.mmio_of_core hm
  have hreq := dataReq_of_core ho
  rw [hreq] at hstb
  refine ⟨ho, w.not_checking_next ho, fun h' => ?_⟩
  have hsame := w.coreReq_still hstb h'
  simp only [origin, hreq, hsame, and_self]

/-! ## The captures -/

theorem Delivery.capture_next (d : s.Delivery g) (w : s.HartWf) (hc : s.ramConflict = false)
    (h : (s.next i).hart.core.capturing = true) :
    (s.next i).hart.mmu.ownsBus = false ∧
      (isDdrRegion (s.next i).hart.core.atomic.addr = true → (s.bridgeNext i).ack = false ∧
        (s.dataNext i).cpuDataRdataQ
          = (s.memNext i).ddr (wordOf (s.next i).hart.core.atomic.addr)) ∧
      (isDataramRegion (s.next i).hart.core.atomic.addr = true →
        (s.originsNext i g).ram
          = some { byWalker := false, adr := (s.next i).hart.core.atomic.addr, we := false }) := by
  rw [next_core] at h
  obtain ⟨hread, hst, hack, hsame⟩ := Core.capturing_next h
  obtain ⟨hstb, hadr, hwe⟩ := Core.dataReq_of_read w.core hread hst
  have hcons : s.coreConsumes i = true := by simp [coreConsumes, coreReq, hstb, hack]
  obtain ⟨-, ho, hrsp⟩ := coreConsumes_iff.mp hcons
  have hck := (d.core_own w hc hcons).2
  have hreq := dataReq_of_core ho
  have hcyc : s.coreReq.cyc = true := Core.dataReq_stb_cyc hstb
  have haddr : (s.next i).hart.core.atomic.addr = s.dataReq.adr := by
    rw [hreq, next_core, Core.next_atomic, hsame]
    exact hadr.symm
  have hwe' : s.dataReq.we = false := by rw [hreq]; exact hwe
  have hstb' : s.dataReq.stb = true := by rw [hreq]; exact hstb
  have hcyc' : s.dataReq.cyc = true := by rw [hreq]; exact hcyc
  rw [haddr]
  refine ⟨?_, fun hr => ?_, fun hr => ?_⟩
  · obtain ⟨hd, hu⟩ := Mmu.not_leads_back hck
    exact w.control.keeps_off ho hcyc hd hu
  · rw [dataRsp_ack, dataMux_ddr hr] at hrsp
    obtain ⟨-, -, hd, hb⟩ := ddrDataRsp_ack_iff.mp hrsp
    have f := d.flight (.inr hb) hd
    have hidle := d.acked hb
    have hpend : s.bridge.rspAckPending = false := by
      by_contra hp
      rw [d.pending (by simpa using hp)] at hidle
      cases hidle
    have hnr : s.bridgeRespond i = false := by simp [bridgeRespond, hidle]
    have hna : s.bridgeAccept i = false := by simp [bridgeAccept, hb]
    refine ⟨by simp [bridgeNext, hpend, hnr, hna], ?_⟩
    have hword := d.ddrData (.inr hb) (by rw [f.we]; exact hwe')
    rw [f.adr] at hword
    have hdat : s.ddrDataRsp.datR = s.bridge.datR := by
      have howner := ddrDataRsp_ack_iff.mp hrsp
      simp [ddrDataRsp, howner]
    simp [dataNext, hstb', hcyc', dataMux_ddr hr, hrsp, hdat, hword, memNext, hnr]
  · have hstrobe := (ramStrobe_iff w).mpr ⟨hcyc', hstb', hr⟩
    simp [originsNext, hstrobe, origin, ho, hwe']

/-! ## The invariant is kept -/

theorem Delivery.next (d : s.Delivery g) (w : s.HartWf) (hc : s.ramConflict = false) :
    (s.next i).Delivery (s.originsNext i g) where
  toGrants := d.toGrants.next w i
  ramAck := by
    cases h : s.ramStrobe <;> simp [dataNext, originsNext, h]
  ram := by
    intro o ho
    simp only [originsNext] at ho
    split at ho
    · rename_i h
      cases ho
      exact w.ramAnswer_next hc h
    · cases ho
  mmioAck := by
    cases h : s.mmioStrobe <;> cases h' : s.data.mmioAckQ <;> simp [dataNext, originsNext, h, h']
  mmio := by
    intro o ho
    simp only [originsNext] at ho
    split at ho
    · rename_i h
      cases ho
      exact w.mmioAnswer_next (Bool.and_eq_true _ _ ▸ h).1
    · cases ho
  capture := d.capture_next w hc

end Soc

end MelonSoc
