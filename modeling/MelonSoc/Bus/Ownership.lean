import MelonSoc.Bus.Integrity

set_option autoImplicit false

/-! # The owner of the DDR bus

The bridge takes one request at a time, from the data bus or from the fetch path, and its answer
goes to whoever owns the bridge when it comes. A list of the requests that the bridge has taken,
newest first, tells that this is the master that asked.
-/

namespace MelonSoc

/-- The masters of `ddr_bus`. -/
inductive DdrMaster
  | data
  | instr
  deriving DecidableEq

/-- A request that the bridge has taken, with the number of acknowledges since then, on either
bus. -/
structure DdrTxn where
  master : DdrMaster
  req : WbReq
  acks : Nat

namespace Soc

/-- The master that the arbiter connects. -/
def ddrOwner (s : Soc) : DdrMaster := if s.arb.ownerIsData then .data else .instr

/-- The answer on the bus of a master. -/
def ddrRspOf (m : DdrMaster) (s : Soc) : WbRsp :=
  match m with
  | .data => s.ddrDataRsp
  | .instr => s.ddrInstrRsp

/-- The transactions after a cycle. -/
def ddrLogNext (i : SocIn) (s : Soc) (log : List DdrTxn) : List DdrTxn :=
  let acked :=
    match log with
    | [] => []
    | t :: older =>
        { t with acks := t.acks + (s.ddrDataRsp.ack.toNat + s.ddrInstrRsp.ack.toNat) } :: older
  if s.bridgeAccept i then { master := s.ddrOwner, req := s.ddrReq i, acks := 0 } :: acked
  else acked

/-! ## The property -/

/-- Every acknowledge answers the request that the bridge has taken last, once, on the bus it came
from. -/
structure Owned (i : SocIn) (s : Soc) (log : List DdrTxn) : Prop where
  answers : ∀ m, (s.ddrRspOf m).ack = true → ∃ t older, log = t :: older ∧ t.master = m ∧
    t.acks = 0 ∧
    (t.req.we = false → (s.ddrRspOf m).datR = s.mem.ddr (wordOf t.req.adr)) ∧
    -- the master still asks for this
    (s.ddrReq i).cyc = true ∧ (s.ddrReq i).adr = t.req.adr ∧ (s.ddrReq i).we = t.req.we
  /-- A new request is taken when the last one has been answered. -/
  once : ∀ t ∈ log.tail, t.acks = 1
  /-- No request is answered twice. -/
  atMost : ∀ t ∈ log, t.acks ≤ 1

/-! ## The fetch in the bridge -/

/-- The bridge works for the fetch that the fetch path waits for. -/
def FetchInFlight (s : Soc) : Prop :=
  s.bridge.busBusy = true ∨ s.bridge.ack = true → s.arb.ownerIsData = false →
    s.fetch.ddrPending = true ∧ s.bridge.reqAddr = s.fetch.ddrAddr ∧ s.bridge.reqWe = false

variable {i : SocIn} {s : Soc} {g : Origins} {log : List DdrTxn}

/-- The answer goes to the owner. -/
theorem Grants.rsp_ack (d : s.Grants g) (m : DdrMaster) :
    (s.ddrRspOf m).ack = (s.bridge.ack && decide (m = s.ddrOwner)) := by
  cases hb : s.bridge.ack with
  | false => cases m <;> simp [ddrRspOf, ddrDataRsp, ddrInstrRsp, hb] <;> split <;> rfl
  | true =>
      have hv := d.owned (.inr hb)
      have hc := d.cool hv
      cases hd : s.arb.ownerIsData <;> cases m <;>
        simp [ddrRspOf, ddrDataRsp, ddrInstrRsp, hb, hv, hc, hd, ddrOwner]

theorem Grants.rsp_datR (d : s.Grants g) {m : DdrMaster} (h : (s.ddrRspOf m).ack = true) :
    (s.ddrRspOf m).datR = s.bridge.datR := by
  rw [d.rsp_ack, Bool.and_eq_true, decide_eq_true_eq] at h
  obtain ⟨hb, rfl⟩ := h
  have hv := d.owned (.inr hb)
  have hc := d.cool hv
  cases hd : s.arb.ownerIsData <;> simp [ddrRspOf, ddrDataRsp, ddrInstrRsp, hv, hc, hd, ddrOwner]

/-- A fetch in the bridge is neither answered nor replaced, even if it is killed. -/
theorem Grants.fetch_stays (d : s.Grants g) (hb : s.bridge.busBusy = true)
    (hp : s.fetch.ddrPending = true) :
    (s.fetchNext i).ddrPending = true ∧ (s.fetchNext i).ddrAddr = s.fetch.ddrAddr := by
  have hack : s.ddrInstrRsp.ack = false := by
    have h := d.rsp_ack .instr
    rw [(d.busy_keeps (i := i) hb).1] at h
    exact h
  simp only [fetchNext, hack, hp, Bool.false_eq_true, if_false, Bool.and_true, Bool.not_true,
    Bool.false_and]
  split <;> exact ⟨rfl, rfl⟩

theorem FetchInFlight.next (f : s.FetchInFlight) (d : s.Grants g) :
    (s.next i).FetchInFlight := by
  intro h hd
  have hwork : s.bridge.busBusy = true →
      (s.bridgeNext i).reqAddr = s.bridge.reqAddr → (s.bridgeNext i).reqWe = s.bridge.reqWe →
      (s.fetchNext i).ddrPending = true ∧
        (s.bridgeNext i).reqAddr = (s.fetchNext i).ddrAddr ∧ (s.bridgeNext i).reqWe = false := by
    intro hb h1 h2
    have hd' : s.arb.ownerIsData = false := by
      rw [next_arb, (d.busy_keeps hb).2] at hd
      exact hd
    obtain ⟨hp, ha, hwe⟩ := f (.inl hb) hd'
    obtain ⟨hp', ha'⟩ := d.fetch_stays (i := i) hb hp
    exact ⟨hp', by rw [h1, ha, ha'], by rw [h2, hwe]⟩
  rw [next_bridge] at h ⊢
  show (s.fetchNext i).ddrPending = true ∧ _ = (s.fetchNext i).ddrAddr ∧ _
  cases bridge_step i s with
  | finish hp hn => exact hwork (d.pending hp) (by rw [hn]) (by rw [hn])
  | respond hr hn => exact hwork (bridgeRespond_spec hr).2 (by rw [hn]) (by rw [hn])
  | rest _ hn =>
      rw [hn] at h
      rcases h with hb | hb
      · exact hwork hb (by rw [hn]) (by rw [hn])
      · cases hb
  | accept ha hn =>
      obtain ⟨-, -, hack, hv, hcyc, -⟩ := bridgeAccept_spec ha
      have hd' : s.arb.ownerIsData = false := by
        rw [next_arb, arb_keeps hv hack (.inr hcyc)] at hd
        exact hd
      have hq : s.ddrReq i = s.ddrInstrReq i := by simp [ddrReq, hv, d.cool hv, hd']
      have hno : s.ddrInstrRsp.ack = false := by
        have h := d.rsp_ack .instr
        rw [hack] at h
        exact h
      rw [hn, hq]
      rw [hq] at hcyc
      -- a fetch becomes pending in the cycle in which the bridge takes it, at the latest
      cases hp : s.fetch.ddrPending with
      | true =>
          simp only [fetchNext, hno, hp, ddrInstrReq, Bool.false_eq_true, if_false, Bool.and_true,
            Bool.not_true, Bool.false_and, if_true]
          split <;> simp
      | false =>
          have hreq : (s.instrReq i).ren = true ∧ isDdrRegion (s.instrReq i).addr = true := by
            simpa [ddrInstrReq, hp] using hcyc
          simp [fetchNext, hno, hp, ddrInstrReq, hreq]

/-! ## The transactions -/

/-- The newest transaction is open while the bridge works on it. -/
structure DdrBooked (s : Soc) (log : List DdrTxn) : Prop where
  working : s.bridge.busBusy = true ∨ s.bridge.ack = true → ∃ t older, log = t :: older ∧
    t.master = s.ddrOwner ∧ t.acks = 0 ∧ t.req.adr = s.bridge.reqAddr ∧
    t.req.we = s.bridge.reqWe
  idle : s.bridge.busBusy = false → s.bridge.ack = false → ∀ t ∈ log, t.acks = 1
  older : ∀ t ∈ log.tail, t.acks = 1

theorem ddrBooked_reset (m : Memories) : (Soc.reset m).DdrBooked [] where
  working := by rintro (h | h) <;> cases h
  idle := by simp
  older := by simp

/-- Without an acknowledge and without a new request the list stays. -/
theorem Grants.ddrLog_quiet (d : s.Grants g) (ha : s.bridge.ack = false) :
    s.ddrLogNext i log =
      if s.bridgeAccept i then { master := s.ddrOwner, req := s.ddrReq i, acks := 0 } :: log
      else log := by
  have h1 : s.ddrDataRsp.ack = false := by
    have h := d.rsp_ack .data
    rw [ha] at h
    exact h
  have h2 : s.ddrInstrRsp.ack = false := by
    have h := d.rsp_ack .instr
    rw [ha] at h
    exact h
  cases log <;> simp [ddrLogNext, h1, h2]

/-- An acknowledge closes the newest transaction. -/
theorem Grants.ddrLog_acked (d : s.Grants g) (ha : s.bridge.ack = true) (t : DdrTxn)
    (older : List DdrTxn) :
    s.ddrLogNext i (t :: older) = { t with acks := t.acks + 1 } :: older := by
  have hacc : s.bridgeAccept i = false := by simp [bridgeAccept, ha]
  have h1 := d.rsp_ack .data
  have h2 := d.rsp_ack .instr
  simp only [ddrRspOf, ha, Bool.true_and] at h1 h2
  simp only [ddrLogNext, hacc, h1, h2]
  cases s.ddrOwner <;> simp

theorem DdrBooked.next (b : s.DdrBooked log) (d : s.Grants g) :
    (s.next i).DdrBooked (s.ddrLogNext i log) := by
  have hwork : s.bridge.busBusy = true → s.bridgeAccept i = false →
      (s.bridgeNext i).reqAddr = s.bridge.reqAddr → (s.bridgeNext i).reqWe = s.bridge.reqWe →
      (s.bridgeNext i).busBusy = true ∨ (s.bridgeNext i).ack = true →
      (s.next i).DdrBooked (s.ddrLogNext i log) := by
    intro hb hacc h1 h2 h3
    obtain ⟨hack, harb⟩ := d.busy_keeps (i := i) hb
    rw [d.ddrLog_quiet hack, hacc]
    obtain ⟨t, older, hlog, hm, hacks, hadr, hwe⟩ := b.working (.inl hb)
    refine ⟨fun _ => ⟨t, older, hlog, ?_, hacks, ?_, ?_⟩, fun h4 h5 => ?_, b.older⟩
    · rw [hm, ddrOwner, ddrOwner, next_arb, harb]
    · rw [hadr, next_bridge, h1]
    · rw [hwe, next_bridge, h2]
    · rw [next_bridge] at h4 h5
      rcases h3 with h | h
      · rw [h4] at h
        cases h
      · rw [h5] at h
        cases h
  cases bridge_step i s with
  | finish hp hn hacc =>
      exact hwork (d.pending hp) hacc (by rw [hn]) (by rw [hn]) (by rw [hn]; exact .inr rfl)
  | respond hr hn hacc =>
      have hb := (bridgeRespond_spec hr).2
      exact hwork hb hacc (by rw [hn]) (by rw [hn]) (by rw [hn]; exact .inl hb)
  | accept ha hn =>
      obtain ⟨-, hbusy, hack, hv, hcyc, -⟩ := bridgeAccept_spec ha
      rw [d.ddrLog_quiet hack, ha, if_pos rfl]
      refine ⟨fun _ => ⟨_, _, rfl, ?_, rfl, ?_, ?_⟩, fun h4 => ?_, b.idle hbusy hack⟩
      · rw [ddrOwner, ddrOwner, next_arb, arb_keeps hv hack (.inr hcyc)]
      · rw [next_bridge, hn]
      · rw [next_bridge, hn]
      · rw [next_bridge, hn] at h4
        cases h4
  | rest _ hn hacc =>
      cases hb : s.bridge.busBusy with
      | true => exact hwork hb hacc (by rw [hn]) (by rw [hn]) (by rw [hn]; exact .inl hb)
      | false =>
          have hidle : (s.next i).bridge.busBusy = false ∧ (s.next i).bridge.ack = false := by
            rw [next_bridge, hn]
            exact ⟨hb, rfl⟩
          have hall : ∀ t ∈ s.ddrLogNext i log, t.acks = 1 := by
            cases ha : s.bridge.ack with
            | false =>
                rw [d.ddrLog_quiet ha, hacc]
                exact b.idle hb ha
            | true =>
                obtain ⟨t, older, hlog, -, hacks, -, -⟩ := b.working (.inr ha)
                have hold := b.older
                rw [hlog] at hold ⊢
                rw [d.ddrLog_acked ha]
                intro t' ht'
                rcases List.mem_cons.mp ht' with rfl | ht'
                · simp [hacks]
                · exact hold t' ht'
          refine ⟨fun h => ?_, fun _ _ => hall, fun t ht => hall t (List.mem_of_mem_tail ht)⟩
          rw [hidle.1, hidle.2] at h
          rcases h with h | h <;> cases h

theorem DdrBooked.owned (b : s.DdrBooked log) (d : s.Grants g) (f : s.FetchInFlight) :
    s.Owned i log := by
  refine ⟨fun m hm => ?_, b.older, fun t ht => ?_⟩
  · have hdat := d.rsp_datR hm
    rw [d.rsp_ack, Bool.and_eq_true, decide_eq_true_eq] at hm
    obtain ⟨hb, rfl⟩ := hm
    obtain ⟨t, older, hlog, hmaster, hacks, hadr, hwe⟩ := b.working (.inr hb)
    refine ⟨t, older, hlog, hmaster, hacks, fun h => ?_, ?_⟩
    · rw [hdat, d.ddrData (.inr hb) (by rw [← hwe]; exact h), hadr]
    · have hv := d.owned (.inr hb)
      rw [hadr, hwe]
      cases hd : s.arb.ownerIsData with
      | true =>
          have hf := d.flight (.inr hb) hd
          have hq : s.ddrReq i = s.ddrDataReq := by simp [ddrReq, hv, d.cool hv, hd]
          rw [hq]
          exact ⟨by simp [ddrDataReq, hf.cyc, hf.region], hf.adr.symm, hf.we.symm⟩
      | false =>
          obtain ⟨hp, ha, hw⟩ := f (.inr hb) hd
          have hq : s.ddrReq i = s.ddrInstrReq i := by simp [ddrReq, hv, d.cool hv, hd]
          rw [hq, ha, hw]
          simp [ddrInstrReq, hp]
  · by_cases hw : s.bridge.busBusy = true ∨ s.bridge.ack = true
    · obtain ⟨t', older, hlog, -, hacks, -, -⟩ := b.working hw
      have hold := b.older
      rw [hlog] at ht hold
      rcases List.mem_cons.mp ht with rfl | ht
      · omega
      · exact Nat.le_of_eq (hold t ht)
    · simp only [not_or, Bool.not_eq_true] at hw
      exact Nat.le_of_eq (b.idle hw.1 hw.2 t ht)

/-! ## Latency and lock -/

/-- The bridge has taken a request of `m` and has no response yet. -/
structure Open (m : DdrMaster) (s : Soc) : Prop where
  busy : s.bridge.busBusy = true
  waits : s.bridge.rspAckPending = false
  owner : s.ddrOwner = m

theorem open_of_accept (h : s.bridgeAccept i = true) : (s.next i).Open s.ddrOwner := by
  obtain ⟨hp, -, hack, hv, hcyc, -⟩ := bridgeAccept_spec h
  have harb := arb_keeps hv hack (.inr hcyc)
  cases bridge_step i s with
  | accept _ hn =>
      refine ⟨?_, ?_, ?_⟩
      · rw [next_bridge, hn]
      · rw [next_bridge, hn]
        exact hp
      · rw [ddrOwner, ddrOwner, next_arb, harb]
  | finish _ _ hno => rw [h] at hno; cases hno
  | respond _ _ hno => rw [h] at hno; cases hno
  | rest _ _ hno => rw [h] at hno; cases hno

theorem Open.wait {m : DdrMaster} (o : s.Open m) (d : s.Grants g) (h : i.ddrRsp = false) :
    (s.next i).Open m := by
  have hr : s.bridgeRespond i = false := by simp [bridgeRespond, h]
  have ha : s.bridgeAccept i = false := by simp [bridgeAccept, o.busy]
  refine ⟨?_, ?_, ?_⟩
  · simp [next_bridge, bridgeNext, o.waits, hr, ha, o.busy]
  · simp [next_bridge, bridgeNext, o.waits, hr, ha]
  · rw [ddrOwner, next_arb, (d.busy_keeps o.busy).2, ← ddrOwner]
    exact o.owner

theorem ack_of_pending (h : s.bridge.rspAckPending = true) : (s.next i).bridge.ack = true := by
  simp [next_bridge, bridgeNext, h]

/-- Two cycles after its response the request is acknowledged. -/
theorem Open.answered {m : DdrMaster} {i' : SocIn} {g' g'' : Origins} (o : s.Open m)
    (d : s.Grants g) (d' : (s.next i).Grants g') (d'' : ((s.next i).next i').Grants g'')
    (h : i.ddrRsp = true) : (((s.next i).next i').ddrRspOf m).ack = true := by
  have hr : s.bridgeRespond i = true := by simp [bridgeRespond, h, o.waits, o.busy]
  have h1 : (s.next i).bridge.rspAckPending = true := by
    simp [next_bridge, bridgeNext, o.waits, hr]
  have howner : (s.next i).ddrOwner = m := by
    rw [ddrOwner, next_arb, (d.busy_keeps o.busy).2, ← ddrOwner]
    exact o.owner
  have h2 : ((s.next i).next i').bridge.ack = true := ack_of_pending h1
  have howner' : ((s.next i).next i').ddrOwner = m := by
    rw [ddrOwner, next_arb, (d'.busy_keeps (d'.pending h1)).2, ← ddrOwner]
    exact howner
  rw [d''.rsp_ack, h2, howner']
  simp

/-- A data side that owns the bridge keeps it under a lock. -/
theorem arbNext_locked (hv : s.arb.ownerValid = true) (hd : s.arb.ownerIsData = true)
    (hl : s.ddrDataReq.lock = true) : s.arbNext i = s.arb := by
  simp [arbNext, hv, hd, hl]

end Soc

/-! ## Runs -/

/-- The transactions of the bridge along the run, newest first. -/
def socDdrLog (m : Memories) (inp : Nat → SocIn) : Nat → List DdrTxn :=
  Clocked.history Soc.next Soc.ddrLogNext inp (Soc.reset m) []

theorem socRun_booked (m : Memories) (inp : Nat → SocIn) (n : Nat) :
    (socRun m inp n).FetchInFlight ∧ (socRun m inp n).DdrBooked (socDdrLog m inp n) := by
  induction n with
  | zero =>
      refine ⟨?_, Soc.ddrBooked_reset m⟩
      rintro (h | h) <;> cases h
  | succ n ih =>
      obtain ⟨-, d⟩ := socRun_grants m inp n
      rw [socDdrLog, Clocked.history_succ]
      exact ⟨ih.1.next d, ih.2.next d⟩

theorem socRun_open (m : Memories) (inp : Nat → SocIn) (n : Nat)
    (h : (socRun m inp n).bridgeAccept (inp n) = true) (k : Nat)
    (hno : ∀ j, n < j → j < n + 1 + k → (inp j).ddrRsp = false) :
    (socRun m inp (n + 1 + k)).Open (socRun m inp n).ddrOwner := by
  induction k with
  | zero => exact Soc.open_of_accept h
  | succ k ih =>
      have ho := ih fun j h1 h2 => hno j h1 (by omega)
      have hrsp := hno (n + 1 + k) (by omega) (by omega)
      exact ho.wait (socRun_grants m inp (n + 1 + k)).2 hrsp

theorem socRun_locked (m : Memories) (inp : Nat → SocIn) (n : Nat)
    (hv : (socRun m inp n).arb.ownerValid = true) (hd : (socRun m inp n).arb.ownerIsData = true)
    (k : Nat) (hl : ∀ j, n ≤ j → j < n + k → (socRun m inp j).ddrDataReq.lock = true) :
    (socRun m inp (n + k)).arb = (socRun m inp n).arb := by
  induction k with
  | zero => rfl
  | succ k ih =>
      have harb := ih fun j h1 h2 => hl j h1 (by omega)
      have hnext := Soc.arbNext_locked (i := inp (n + k)) (by rw [harb]; exact hv)
        (by rw [harb]; exact hd) (hl (n + k) (by omega) (by omega))
      exact hnext.trans harb

theorem socRun_answered {m : Memories} {inp : Nat → SocIn} {k : Nat} {q : DdrMaster}
    (o : (socRun m inp k).Open q) (h : (inp k).ddrRsp = true) :
    ((socRun m inp (k + 2)).ddrRspOf q).ack = true := by
  have d := (socRun_grants m inp k).2
  have d' := (socRun_grants m inp (k + 1)).2
  have d'' := (socRun_grants m inp (k + 2)).2
  exact o.answered d d' d'' h

/-- **The DDR arbiter.** In every run every acknowledge on a bus answers, with the word of its
address, the request of this bus that the bridge has taken last, and once; every request the bridge
takes is acknowledged to its master two cycles after its response; and once the data side owns the
bridge, no fetch is taken until it drops the lock. -/
theorem ddr_owner (m : Memories) (inp : Nat → SocIn) (n : Nat) :
    (socRun m inp n).Owned (inp n) (socDdrLog m inp n) ∧
    ((socRun m inp n).bridgeAccept (inp n) = true → ∀ k, n < k →
      (∀ j, n < j → j < k → (inp j).ddrRsp = false) → (inp k).ddrRsp = true →
      ((socRun m inp (k + 2)).ddrRspOf (socRun m inp n).ddrOwner).ack = true) ∧
    ((socRun m inp n).arb.ownerValid = true → (socRun m inp n).arb.ownerIsData = true →
      ∀ k, n ≤ k → (∀ j, n ≤ j → j < k → (socRun m inp j).ddrDataReq.lock = true) →
      (socRun m inp k).ddrOwner = .data) := by
  obtain ⟨-, d⟩ := socRun_grants m inp n
  obtain ⟨f, b⟩ := socRun_booked m inp n
  refine ⟨b.owned d f, fun h k hk hno hrsp => ?_, fun hv hd k hk hl => ?_⟩
  · obtain ⟨e, rfl⟩ := Nat.exists_eq_add_of_lt hk
    have hidx : n + e + 1 = n + 1 + e := by omega
    rw [hidx] at hno hrsp ⊢
    exact socRun_answered (socRun_open m inp n h e hno) hrsp
  · obtain ⟨e, rfl⟩ := Nat.exists_eq_add_of_le hk
    rw [Soc.ddrOwner, socRun_locked m inp n hv hd e hl, hd]
    rfl

end MelonSoc
