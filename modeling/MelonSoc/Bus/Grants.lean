import MelonSoc.Bus.Origins

set_option autoImplicit false

/-! # Who has the bridge

The bridge to DDR works for one master at a time: the arbiter keeps its owner until the bridge
has answered. `Grants` says what this means for the data side, where the core and the walker
share one port: a transaction in the bridge is always the one that is on the bus, and the data
side does not own the bridge while the walker looks at an entry. It holds in every run, wherever
the page tables are.
-/

namespace MelonSoc

namespace Soc

/-! ## The invariant -/

/-- The request of the data side that the bridge works on is the one on the bus. -/
structure InFlight (s : Soc) (g : Origins) : Prop where
  origin : g.ddr = some s.origin
  stb : s.dataReq.stb = true
  cyc : s.dataReq.cyc = true
  region : isDdrRegion s.dataReq.adr = true
  adr : s.bridge.reqAddr = s.dataReq.adr
  we : s.bridge.reqWe = s.dataReq.we
  datW : s.bridge.reqDatW = s.dataReq.datW
  sel : s.bridge.reqSel = s.dataReq.sel
  noCheck : s.hart.mmu.checking = false

/-- The owner of the bridge and the transaction in it. -/
structure Grants (s : Soc) (g : Origins) : Prop where
  /-- A cooldown has no owner, and the owner stays while the bridge is busy. -/
  cool : s.arb.ownerValid = true → s.arb.cooldown = false
  owned : s.bridge.busBusy = true ∨ s.bridge.ack = true → s.arb.ownerValid = true
  pending : s.bridge.rspAckPending = true → s.bridge.busBusy = true
  acked : s.bridge.ack = true → s.bridge.busBusy = false
  flight : s.bridge.busBusy = true ∨ s.bridge.ack = true → s.arb.ownerIsData = true →
    s.InFlight g
  fetches : s.bridge.busBusy = true → s.arb.ownerIsData = false → s.bridge.reqWe = false
  ddrData : s.bridge.rspAckPending = true ∨ s.bridge.ack = true → s.bridge.reqWe = false →
    s.bridge.datR = s.mem.ddr (wordOf s.bridge.reqAddr)
  /-- The data side does not own the bridge while the walker checks an entry. -/
  checkFree : s.hart.mmu.checking = true → s.arb.ownerValid = true →
    s.arb.ownerIsData = false
  waitFree : s.hart.mmu.walkActive = true → isDataramRegion s.hart.mmu.walkPteAddr = true →
    s.data.ramAck = true → s.arb.ownerValid = true → s.arb.ownerIsData = false

theorem grants_reset (m : Memories) : (Soc.reset m).Grants Origins.reset where
  cool := by intro h; cases h
  owned := by rintro (h | h) <;> cases h
  pending := by intro h; cases h
  acked := by intro h; cases h
  flight := by rintro (h | h) <;> cases h
  fetches := by intro h; cases h
  ddrData := by rintro (h | h) <;> cases h
  checkFree := by intro h; cases h
  waitFree := by intro h; cases h

variable {i : SocIn} {s : Soc} {g : Origins}

/-! ## Requests between two cycles -/

theorem not_owns_of_control (h : s.hart.mmu.ptwState = .idle ∨ s.hart.mmu.ptwState = .fill ∨
    s.hart.mmu.ptwState = .fault) : s.hart.mmu.ownsBus = false := by
  rcases h with h | h | h <;> simp [Mmu.ownsBus, Mmu.walkActive, h]

/-- The walker checks an entry only after a transaction of its own. -/
theorem HartWf.not_checking_next (w : s.HartWf) (ho : s.hart.mmu.ownsBus = false) :
    (s.next i).hart.mmu.checking = false := by
  rw [next_mmu]
  cases w.control.control_step (s.mmuIn i) with
  | rest _ h => simp [Mmu.checking, h]
  | start _ _ h => simp [Mmu.checking, h]
  | startFault _ _ h => simp [Mmu.checking, h]
  | wait h => rw [ho] at h; cases h
  | read h => simp [Mmu.ownsBus, h] at ho
  | finish _ _ h => rcases h with h | h | h <;> simp [Mmu.checking, h]
  | descend _ h => simp [Mmu.checking, h]
  | written h => simp [Mmu.ownsBus, h] at ho
  | filled _ h => simp [Mmu.checking, h]
  | fault _ h => rcases h with h | h <;> simp [Mmu.checking, h]

/-- A strobe on the bus that is not acknowledged stays, if the walker is not checking. -/
theorem HartWf.request_stays (w : s.HartWf) (hstb : s.dataReq.stb = true)
    (hack : (s.dataRsp i).ack = false) (hck : s.hart.mmu.checking = false) :
    (s.next i).dataReq = s.dataReq ∧ (s.next i).hart.mmu.ownsBus = s.hart.mmu.ownsBus ∧
      (s.next i).hart.mmu.checking = false := by
  by_cases ho : s.hart.mmu.ownsBus = true
  · have hno : ∀ st, s.hart.mmu.ptwState = st → st = .idle ∨ st = .fill ∨ st = .fault → False := by
      rintro st rfl h
      rw [not_owns_of_control h] at ho
      cases ho
    cases w.control.control_step (s.mmuIn i) with
    | wait _ _ hst hadr hreq =>
        have ho' : (s.next i).hart.mmu.ownsBus = true := by
          rw [next_mmu]
          rw [Mmu.ownsBus_iff] at ho ⊢
          rw [hst]
          exact ho
        refine ⟨?_, by rw [ho', ho], ?_⟩
        · rw [dataReq_of_walker ho', dataReq_of_walker ho]
          exact hreq
        · rw [next_mmu, Mmu.checking, hst]
          exact hck
    | rest h => exact (hno _ h (.inl rfl)).elim
    | start h => exact (hno _ h (.inl rfl)).elim
    | startFault h => exact (hno _ h (.inl rfl)).elim
    | read _ h => rw [mmuIn_physData, hack] at h; cases h
    | finish h => rw [hck] at h; cases h
    | descend h =>
        simp [Mmu.checking, Mmu.checking_of_descends h] at hck
    | written _ h => rw [mmuIn_physData, hack] at h; cases h
    | filled h => exact (hno _ h (.inr (.inl rfl))).elim
    | fault h => exact (hno _ h (.inr (.inr rfl))).elim
  · simp only [Bool.not_eq_true] at ho
    have hreq := dataReq_of_core ho
    rw [hreq] at hstb
    have hstay := w.coreReq_stable (i := i) hstb (.inr hack)
    have hcyc : (s.mmuIn i).coreData.cyc = true := Core.dataReq_stb_cyc hstb
    obtain ⟨hd, hu⟩ := Mmu.not_leads_back hck
    have ho' : (s.next i).hart.mmu.ownsBus = false := w.control.keeps_off ho hcyc hd hu
    refine ⟨?_, by rw [ho', ho], w.not_checking_next ho⟩
    rw [dataReq_of_core ho', hstay, hreq]

/-- Where a transaction of the walker stands after a cycle. -/
theorem HartWf.walker_moves (w : s.HartWf) (ho : s.hart.mmu.ownsBus = true) :
    (s.next i).hart.mmu.walkPteAddr = s.hart.mmu.walkPteAddr ∧
      (((s.next i).hart.mmu.ownsBus = true ∧
          (s.next i).hart.mmu.walkActive = s.hart.mmu.walkActive) ∨
        (s.next i).hart.mmu.checking = true ∨ (s.next i).hart.mmu.ptwState = .fill) := by
  have hno : ∀ st, s.hart.mmu.ptwState = st → st = .idle ∨ st = .fill ∨ st = .fault → False := by
    rintro st rfl h
    rw [not_owns_of_control h] at ho
    cases ho
  rw [next_mmu]
  cases w.control.control_step (s.mmuIn i) with
  | wait _ _ hst hadr =>
      refine ⟨hadr, .inl ⟨?_, by rw [Mmu.walkActive, hst, Mmu.walkActive]⟩⟩
      rw [Mmu.ownsBus_iff] at ho ⊢
      rw [hst]
      exact ho
  | read _ _ hck hadr => exact ⟨hadr, .inr (.inl hck)⟩
  | written _ _ hst hadr => exact ⟨hadr, .inr (.inr hst)⟩
  | rest h => exact (hno _ h (.inl rfl)).elim
  | start h => exact (hno _ h (.inl rfl)).elim
  | startFault h => exact (hno _ h (.inl rfl)).elim
  | finish h => rw [Mmu.not_owns_of_checking h] at ho; cases ho
  | descend h =>
      simp [Mmu.ownsBus, Mmu.walkActive, Mmu.checking_of_descends h] at ho
  | filled h => exact (hno _ h (.inr (.inl rfl))).elim
  | fault h => exact (hno _ h (.inr (.inr rfl))).elim

/-! ## The arbiter -/

/-- A request reaches the bridge only from an owner. -/
theorem ddrReq_owned (h : (s.ddrReq i).cyc = true) :
    s.arb.cooldown = false ∧ s.arb.ownerValid = true := by
  cases hc : s.arb.cooldown <;> cases hv : s.arb.ownerValid <;> simp [ddrReq, hc, hv] at h
  exact ⟨rfl, rfl⟩

/-- The arbiter keeps its owner while the bridge is busy, or while it is free and the owner
asks. -/
theorem arb_keeps (hv : s.arb.ownerValid = true) (ha : s.bridge.ack = false)
    (hb : s.bridge.busBusy = true ∨ (s.ddrReq i).cyc = true) : s.arbNext i = s.arb := by
  rcases hb with hb | hb
  · cases hd : s.arb.ownerIsData <;> simp [arbNext, hv, hd, ha, hb]
  · obtain ⟨hcool, -⟩ := ddrReq_owned hb
    cases hd : s.arb.ownerIsData <;> simp [ddrReq, hv, hcool, hd] at hb <;>
      simp [arbNext, hv, hd, ha, hb]

/-- The data side does not become the owner without a request to DDR. -/
theorem arb_stays_off (hc : s.ddrDataReq.cyc = false)
    (hd : s.arb.ownerValid = true → s.arb.ownerIsData = false) :
    (s.arbNext i).ownerValid = true → (s.arbNext i).ownerIsData = false := by
  cases hv : s.arb.ownerValid with
  | true =>
      have hinstr := hd hv
      simp only [arbNext, hv, hinstr, if_true, Bool.false_eq_true, if_false]
      split <;> simp [hinstr]
  | false =>
      simp only [arbNext, hv, hc, Bool.false_eq_true, if_false]
      cases s.arb.cooldown <;> cases (s.ddrInstrReq i).cyc <;> simp [hv]

/-- The data side cannot become or stay the owner without a request to DDR, once the bridge is
idle or answers and no lock is held. -/
theorem arb_leaves_data (hc : s.ddrDataReq.cyc = false) (hl : s.dataReq.lock = false)
    (hb : s.arb.ownerValid = true → s.arb.ownerIsData = true → s.bridge.busBusy = false) :
    (s.arbNext i).ownerValid = true → (s.arbNext i).ownerIsData = false := by
  have hlock : s.ddrDataReq.lock = false := hl
  by_cases howner : s.arb.ownerValid = true ∧ s.arb.ownerIsData = true
  · simp [arbNext, howner, hlock, hc, hb howner.1 howner.2]
  · exact arb_stays_off hc (fun hv => by simpa [hv] using howner)

/-! ## The bridge -/

/-- The bridge takes a request of the owner, to DDR if it is the data side. -/
theorem bridgeAccept_spec (h : s.bridgeAccept i = true) :
    s.bridge.rspAckPending = false ∧ s.bridge.busBusy = false ∧ s.bridge.ack = false ∧
      s.arb.ownerValid = true ∧ (s.ddrReq i).cyc = true ∧
      (s.arb.ownerIsData = true → s.ddrReq i = s.ddrDataReq ∧ s.dataReq.stb = true ∧
        s.dataReq.cyc = true ∧ isDdrRegion s.dataReq.adr = true) := by
  simp only [bridgeAccept, Bool.and_eq_true, Bool.not_eq_true'] at h
  obtain ⟨⟨⟨⟨⟨h1, -⟩, h2⟩, h3⟩, h4⟩, h5⟩ := h
  obtain ⟨hcool, hv⟩ := ddrReq_owned h3
  refine ⟨h1, h2, h5, hv, h3, fun hd => ?_⟩
  have hreq : s.ddrReq i = s.ddrDataReq := by simp [ddrReq, hv, hcool, hd]
  rw [hreq] at h3 h4
  simp only [ddrDataReq, Bool.and_eq_true] at h3 h4
  exact ⟨hreq, h4.1, h3.1, h3.2⟩

theorem bridgeRespond_spec (h : s.bridgeRespond i = true) :
    s.bridge.rspAckPending = false ∧ s.bridge.busBusy = true := by
  simp only [bridgeRespond, Bool.and_eq_true, Bool.not_eq_true'] at h
  exact h.1

/-- What the bridge can do in a cycle. -/
inductive BridgeStep (i : SocIn) (s : Soc) : Prop
  | finish (pending : s.bridge.rspAckPending = true)
      (next : s.bridgeNext i
        = { s.bridge with ack := true, busBusy := false, rspAckPending := false })
      (noAccept : s.bridgeAccept i = false) (noRespond : s.bridgeRespond i = false)
  | respond (respond : s.bridgeRespond i = true)
      (next : s.bridgeNext i = { s.bridge with
        ack := false
        datR := if s.bridge.reqWe then s.bridge.rspDatR
          else s.mem.ddr (wordOf s.bridge.reqAddr)
        rspDatR := if s.bridge.reqWe then s.bridge.rspDatR
          else s.mem.ddr (wordOf s.bridge.reqAddr)
        rspAckPending := true })
      (noAccept : s.bridgeAccept i = false)
  | accept (accept : s.bridgeAccept i = true)
      (next : s.bridgeNext i = { s.bridge with
        ack := false, reqWe := (s.ddrReq i).we, reqAddr := (s.ddrReq i).adr
        reqDatW := (s.ddrReq i).datW, reqSel := (s.ddrReq i).sel, busBusy := true })
      (noRespond : s.bridgeRespond i = false)
  | rest (pending : s.bridge.rspAckPending = false)
      (next : s.bridgeNext i = { s.bridge with ack := false })
      (noAccept : s.bridgeAccept i = false) (noRespond : s.bridgeRespond i = false)

theorem bridge_step (i : SocIn) (s : Soc) : s.BridgeStep i := by
  by_cases hp : s.bridge.rspAckPending = true
  · exact .finish hp (by simp [bridgeNext, hp]) (by simp [bridgeAccept, hp])
      (by simp [bridgeRespond, hp])
  · simp only [Bool.not_eq_true] at hp
    by_cases hr : s.bridgeRespond i = true
    · exact .respond hr (by simp [bridgeNext, hp, hr]) (by simp [bridgeAccept, hr])
    · simp only [Bool.not_eq_true] at hr
      by_cases ha : s.bridgeAccept i = true
      · exact .accept ha (by simp [bridgeNext, hp, hr, ha]) hr
      · simp only [Bool.not_eq_true] at ha
        exact .rest hp (by simp [bridgeNext, hp, hr, ha]) ha hr

/-! ## The transaction in the bridge -/

theorem arbNext_cool (hc : s.arb.ownerValid = true → s.arb.cooldown = false)
    (h : (s.arbNext i).ownerValid = true) : (s.arbNext i).cooldown = false := by
  revert h
  cases hv : s.arb.ownerValid with
  | true =>
      cases hd : s.arb.ownerIsData <;>
        simp only [arbNext, hv, hd, if_true, Bool.false_eq_true, if_false] <;> split <;>
        simp [hc hv]
  | false =>
      cases hcd : s.arb.cooldown <;>
        simp only [arbNext, hv, hcd, if_true, Bool.false_eq_true, if_false]
      · split
        · simp
        · split <;> simp [hcd]
      · simp

/-- While the bridge has work, its owner stays and its answer is not yet there. -/
theorem Grants.busy_keeps (d : s.Grants g) (h : s.bridge.busBusy = true) :
    s.bridge.ack = false ∧ s.arbNext i = s.arb := by
  have ha : s.bridge.ack = false := by
    by_contra hc
    rw [d.acked (by simpa using hc)] at h
    cases h
  exact ⟨ha, arb_keeps (d.owned (.inl h)) ha (.inl h)⟩

theorem Grants.owned_next (d : s.Grants g)
    (h : (s.bridgeNext i).busBusy = true ∨ (s.bridgeNext i).ack = true) :
    (s.arbNext i).ownerValid = true := by
  have hbusy : s.bridge.busBusy = true → (s.arbNext i).ownerValid = true := by
    intro hb
    rw [(d.busy_keeps hb).2]
    exact d.owned (.inl hb)
  cases bridge_step i s with
  | finish hp => exact hbusy (d.pending hp)
  | respond hr => exact hbusy (bridgeRespond_spec hr).2
  | accept ha =>
      obtain ⟨-, -, hack, hv, hcyc, -⟩ := bridgeAccept_spec ha
      rw [arb_keeps hv hack (.inr hcyc)]
      exact hv
  | rest _ hn =>
      rw [hn] at h
      rcases h with h | h
      · exact hbusy h
      · cases h

/-- A data transaction in the bridge stays tied to the request on the bus. -/
theorem Grants.flight_stays (d : s.Grants g) (w : s.HartWf) (hb : s.bridge.busBusy = true)
    (hd : s.arb.ownerIsData = true) :
    (s.next i).dataReq = s.dataReq ∧ (s.next i).hart.mmu.ownsBus = s.hart.mmu.ownsBus ∧
      (s.next i).hart.mmu.checking = false := by
  have f := d.flight (.inl hb) hd
  refine w.request_stays f.stb ?_ f.noCheck
  rw [dataRsp_ack, dataMux_ddr f.region]
  by_contra hc
  have hack := (ddrDataRsp_ack_iff.mp (by simpa using hc)).2.2.2
  rw [(d.busy_keeps (i := i) hb).1] at hack
  cases hack

/-- The bridge works on after a cycle without accepting anything. -/
theorem Grants.inFlight_next (d : s.Grants g) (w : s.HartWf) (hb : s.bridge.busBusy = true)
    (hd : s.arb.ownerIsData = true) (hacc : s.bridgeAccept i = false)
    (hsame : (s.bridgeNext i).reqAddr = s.bridge.reqAddr ∧
      (s.bridgeNext i).reqWe = s.bridge.reqWe ∧ (s.bridgeNext i).reqDatW = s.bridge.reqDatW ∧
      (s.bridgeNext i).reqSel = s.bridge.reqSel) :
    (s.next i).InFlight (s.originsNext i g) := by
  obtain ⟨hreq, ho, hck⟩ := d.flight_stays (i := i) w hb hd
  have f := d.flight (.inl hb) hd
  refine ⟨?_, ?_, ?_, ?_, ?_, ?_, ?_, ?_, hck⟩
  · simp only [originsNext, hacc, Bool.false_eq_true, if_false, origin, hreq, ho]
    exact f.origin
  · rw [hreq]
    exact f.stb
  · rw [hreq]
    exact f.cyc
  · rw [hreq]
    exact f.region
  · rw [hreq, next_bridge, hsame.1]
    exact f.adr
  · rw [hreq, next_bridge, hsame.2.1]
    exact f.we
  · rw [hreq, next_bridge, hsame.2.2.1]
    exact f.datW
  · rw [hreq, next_bridge, hsame.2.2.2]
    exact f.sel

theorem Grants.flight_next (d : s.Grants g) (w : s.HartWf)
    (h : (s.bridgeNext i).busBusy = true ∨ (s.bridgeNext i).ack = true)
    (hd' : (s.arbNext i).ownerIsData = true) : (s.next i).InFlight (s.originsNext i g) := by
  have howner : s.bridge.busBusy = true → s.arb.ownerIsData = true := by
    intro hb
    rw [(d.busy_keeps hb).2] at hd'
    exact hd'
  cases bridge_step i s with
  | finish hp hn hacc =>
      have hb := d.pending hp
      exact d.inFlight_next w hb (howner hb) hacc (by rw [hn]; exact ⟨rfl, rfl, rfl, rfl⟩)
  | respond hr hn hacc =>
      have hb := (bridgeRespond_spec hr).2
      exact d.inFlight_next w hb (howner hb) hacc (by rw [hn]; exact ⟨rfl, rfl, rfl, rfl⟩)
  | rest _ hn hacc =>
      rw [hn] at h
      rcases h with hb | hb
      · exact d.inFlight_next w hb (howner hb) hacc (by rw [hn]; exact ⟨rfl, rfl, rfl, rfl⟩)
      · cases hb
  | accept ha hn =>
      obtain ⟨-, -, hack, hv, hcyc, hdata⟩ := bridgeAccept_spec ha
      rw [arb_keeps hv hack (.inr hcyc)] at hd'
      obtain ⟨hq, hstb, hcyc', hreg⟩ := hdata hd'
      have hck : s.hart.mmu.checking = false := by
        by_contra hc
        rw [d.checkFree (by simpa using hc) hv] at hd'
        cases hd'
      have hno : (s.dataRsp i).ack = false := by
        rw [dataRsp_ack, dataMux_ddr hreg]
        by_contra hc
        rw [(ddrDataRsp_ack_iff.mp (by simpa using hc)).2.2.2] at hack
        cases hack
      obtain ⟨hreq, ho, hck'⟩ := w.request_stays hstb hno hck
      refine ⟨?_, by rw [hreq]; exact hstb, by rw [hreq]; exact hcyc',
        by rw [hreq]; exact hreg, ?_, ?_, ?_, ?_, hck'⟩
      · simp only [originsNext, ha, hd', if_true, origin, hreq, ho]
      all_goals rw [hreq, next_bridge, hn, hq]; rfl

/-- The word in the answer of the bridge. -/
theorem Grants.ddrData_next (d : s.Grants g)
    (h : (s.bridgeNext i).rspAckPending = true ∨ (s.bridgeNext i).ack = true)
    (hwe : (s.bridgeNext i).reqWe = false) :
    (s.bridgeNext i).datR = (s.memNext i).ddr (wordOf (s.bridgeNext i).reqAddr) := by
  cases bridge_step i s with
  | finish hp hn _ hr =>
      rw [hn] at hwe ⊢
      have := d.ddrData (.inl hp) hwe
      simpa [memNext, hr] using this
  | respond hr hn =>
      rw [hn] at hwe ⊢
      have hwe' : s.bridge.reqWe = false := hwe
      simp [memNext, hwe']
  | accept ha hn =>
      have hp := (bridgeAccept_spec ha).1
      rw [hn] at h
      simp [hp] at h
  | rest hp hn =>
      rw [hn] at h
      simp [hp] at h

/-- The word in the answer to a read of DDR. -/
theorem Grants.ddr_word (d : s.Grants g) (hr : isDdrRegion s.dataReq.adr = true)
    (hack : (s.dataRsp i).ack = true) (hwe : s.dataReq.we = false) :
    (s.dataRsp i).datR = s.mem.wordAt s.dataReq.adr := by
  rw [dataRsp_datR hack, dataMux_ddr hr]
  rw [dataRsp_ack, dataMux_ddr hr] at hack
  obtain ⟨hv, hcd, hd, hb⟩ := ddrDataRsp_ack_iff.mp hack
  have f := d.flight (.inr hb) hd
  have hdat : s.ddrDataRsp.datR = s.bridge.datR := by simp [ddrDataRsp, hv, hcd, hd]
  rw [hdat, d.ddrData (.inr hb) (by rw [f.we]; exact hwe), f.adr, Memories.wordAt, hr]
  rfl

/-! ## The walker and the owner of the bridge -/

/-- The data side has given the bridge away when the walker looks at an entry. -/
theorem Grants.checkFree_next (d : s.Grants g) (w : s.HartWf)
    (hck : (s.next i).hart.mmu.checking = true) (hv : (s.arbNext i).ownerValid = true) :
    (s.arbNext i).ownerIsData = false := by
  rw [next_mmu] at hck
  obtain ⟨hact, hack⟩ : s.hart.mmu.walkActive = true ∧ (s.dataRsp i).ack = true := by
    by_cases ho : s.hart.mmu.ownsBus = true
    · cases w.control.control_step (s.mmuIn i) with
      | read h1 h2 => exact ⟨h1, h2⟩
      | rest _ h => simp [Mmu.checking, h] at hck
      | start _ _ h => simp [Mmu.checking, h] at hck
      | startFault _ _ h => simp [Mmu.checking, h] at hck
      | wait _ _ h =>
          rw [Mmu.checking, h] at hck
          rw [Mmu.not_owns_of_checking hck] at ho
          cases ho
      | finish _ _ h => rcases h with h | h | h <;> simp [Mmu.checking, h] at hck
      | descend _ h => simp [Mmu.checking, h] at hck
      | written _ _ h => simp [Mmu.checking, h] at hck
      | filled _ h => simp [Mmu.checking, h] at hck
      | fault _ h => rcases h with h | h <;> simp [Mmu.checking, h] at hck
    · rw [← next_mmu, w.not_checking_next (by simpa using ho)] at hck
      cases hck
  have ho : s.hart.mmu.ownsBus = true := by simp [Mmu.ownsBus, hact]
  obtain ⟨hadr, -, -, -, hlock⟩ := walker_request ho
  rw [hact] at hlock
  rw [dataRsp_ack] at hack
  rcases w.control.readable_of_owns ho with hr | hr
  · have hr' : isDataramRegion s.dataReq.adr = true := by rw [hadr]; exact hr
    rw [dataMux_ram w hr'] at hack
    refine arb_leaves_data ?_ hlock (fun h1 h2 => ?_) hv
    · simp [ddrDataReq, not_ddr_of_dataram hr']
    · rw [d.waitFree hact hr hack h1] at h2
      cases h2
  · -- the acknowledge itself ends the ownership
    have hr' : isDdrRegion s.dataReq.adr = true := by rw [hadr]; exact hr
    rw [dataMux_ddr hr'] at hack
    obtain ⟨h1, -, h2, h3⟩ := ddrDataRsp_ack_iff.mp hack
    have hl : s.ddrDataReq.lock = false := hlock
    simp [arbNext, h1, h2, h3, hl] at hv

/-- The data side cannot hold the bridge while the data RAM answers the walker. -/
theorem Grants.waitFree_next (d : s.Grants g) (w : s.HartWf)
    (hact : (s.next i).hart.mmu.walkActive = true) (hstrobe : s.ramStrobe = true)
    (hv : (s.arbNext i).ownerValid = true) : (s.arbNext i).ownerIsData = false := by
  have ho' : (s.next i).hart.mmu.ownsBus = true := by rw [Mmu.ownsBus, hact, Bool.true_or]
  obtain ⟨hcyc, -, hreg⟩ := (ramStrobe_iff w).mp hstrobe
  by_cases ho : s.hart.mmu.ownsBus = true
  · obtain ⟨hadr, -, -, -, hlock⟩ := walker_request ho
    have hkeep : s.hart.mmu.walkActive = true := by
      rcases (w.walker_moves (i := i) ho).2 with ⟨-, h⟩ | h | h
      · rw [← h]
        exact hact
      · rw [Mmu.not_owns_of_checking h] at ho'
        cases ho'
      · rw [not_owns_of_control (.inr (.inl h))] at ho'
        cases ho'
    rw [hkeep] at hlock
    refine arb_leaves_data ?_ hlock (fun h1 h2 => ?_) hv
    · simp [ddrDataReq, not_ddr_of_dataram hreg]
    · by_contra hb
      have f := d.flight (.inl (by simpa using hb)) h2
      have hddr := f.region
      rw [not_ddr_of_dataram hreg] at hddr
      cases hddr
  · -- the walker comes from the check of a pointer, when the data side has no bridge
    simp only [Bool.not_eq_true] at ho
    have hck : s.hart.mmu.checking = true := by
      rw [next_mmu, Mmu.walkActive_iff] at hact
      cases w.control.control_step (s.mmuIn i) with
      | descend h => simp [Mmu.checking, Mmu.checking_of_descends h]
      | start _ h =>
          rw [dataReq_of_core ho] at hcyc
          rw [mmuIn_coreData, hcyc] at h
          cases h
      | rest _ h => simp [h] at hact
      | startFault _ _ h => simp [h] at hact
      | wait h => rw [ho] at h; cases h
      | read h => simp [Mmu.ownsBus, h] at ho
      | finish h => exact h
      | written _ _ h => simp [h] at hact
      | filled _ h => simp [h] at hact
      | fault _ h => rcases h with h | h <;> simp [h] at hact
    refine arb_stays_off ?_ (d.checkFree hck) hv
    simp [ddrDataReq, not_ddr_of_dataram hreg]

/-! ## The invariant is kept -/

theorem Grants.fetches_next (d : s.Grants g) (hb : (s.bridgeNext i).busBusy = true)
    (hd : (s.arbNext i).ownerIsData = false) : (s.bridgeNext i).reqWe = false := by
  have hkeep : s.bridge.busBusy = true → s.bridge.reqWe = false := by
    intro hbusy
    rw [(d.busy_keeps hbusy).2] at hd
    exact d.fetches hbusy hd
  cases bridge_step i s with
  | finish _ hn => rw [hn] at hb; cases hb
  | respond hr hn => rw [hn]; exact hkeep (bridgeRespond_spec hr).2
  | accept ha hn =>
      obtain ⟨-, -, hack, hv, hcyc, -⟩ := bridgeAccept_spec ha
      rw [arb_keeps hv hack (.inr hcyc)] at hd
      rw [hn]
      simp [ddrReq, hv, d.cool hv, hd, ddrInstrReq]
  | rest _ hn => rw [hn] at hb ⊢; exact hkeep hb

theorem Grants.next (d : s.Grants g) (w : s.HartWf) (i : SocIn) :
    (s.next i).Grants (s.originsNext i g) where
  cool := arbNext_cool d.cool
  owned := d.owned_next
  pending := by
    intro h
    rw [next_bridge] at h ⊢
    cases bridge_step i s with
    | finish _ hn => rw [hn] at h; cases h
    | respond hr hn => rw [hn]; exact (bridgeRespond_spec hr).2
    | accept _ hn => rw [hn]
    | rest hp hn => rw [hn] at h; rw [hp] at h; cases h
  acked := by
    intro h
    rw [next_bridge] at h ⊢
    cases bridge_step i s with
    | finish _ hn => rw [hn]
    | respond _ hn => rw [hn] at h; cases h
    | accept _ hn => rw [hn] at h; cases h
    | rest _ hn => rw [hn] at h; cases h
  flight := d.flight_next w
  fetches := d.fetches_next
  ddrData := d.ddrData_next
  checkFree := d.checkFree_next w
  waitFree := fun h1 _ h3 => d.waitFree_next w h1 h3

end Soc

end MelonSoc
