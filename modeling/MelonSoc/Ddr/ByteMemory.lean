import MelonSoc.Ddr.Crossing

set_option autoImplicit false

/-! # The bridge is a memory of bytes

What `Crossing` says about one request, for whole runs: the acknowledges answer the requests in
order, each request is executed once, reads return what was written. If the clocks keep ticking
and the controller keeps serving, every request is acknowledged.
-/

namespace MelonSoc

/-! ## Progress -/

/-- What a request in the bridge waits for. -/
inductive Need
  | clk
  | app
  | calib
  | ready
  | beat

/-- The edges bring what is waited for. -/
def Need.MetBy : Need → Edges → Prop
  | .clk, e => e.clk ≠ none
  | .app, e => e.app ≠ none
  | .calib, e => ∃ x, e.app = some x ∧ x.initCalibComplete = true
  | .ready, e => ∃ x, e.app = some x ∧ x.cmdRdy = true ∧ x.dataRdy = true
  | .beat, e => ∃ x, e.app = some x ∧ x.beat = true

namespace DualClock

/-- The steps ahead of the app side while it works, and what it waits for. -/
def workStanding (a : BridgeApp) : Nat × Need :=
  match a.state with
  | .idle => (0, .clk)
  | .capture => (9, .app)
  | .readCmd => (8, .ready)
  | .readWait => if a.cmdEn then (7, .app) else (6, .beat)
  | .writeCmd => (5, .ready)
  | .ack => (4, .app)

/-- The steps ahead of the request in the bridge, and what it waits for. -/
def standing (s : DualClock) : Nat × Need :=
  if s.bus.rspAckPending then (0, .clk)
  else if s.app.reqToggleSeen != s.bus.reqToggle then
    if s.app.reqToggleSync == s.bus.reqToggle then (10, .calib)
    else if s.app.reqToggleMeta == s.bus.reqToggle then (11, .app)
    else (12, .app)
  else if s.app.state == .idle then
    if s.bus.rspToggleSync == s.app.rspToggle then (1, .clk)
    else if s.bus.rspToggleMeta == s.app.rspToggle then (2, .clk)
    else (3, .clk)
  else workStanding s.app

/-- A request moves on, or it still waits for what the edges have not brought. -/
def Moves (e : Edges) (s : DualClock) : Prop :=
  (s.next e).standing.1 < s.standing.1 ∨
    ((s.next e).standing.1 = s.standing.1 ∧ (s.next e).standing.2 = s.standing.2 ∧
      ¬ s.standing.2.MetBy e)

variable {m : ByteMem} {e : Edges} {s : DualClock} {g : BridgeLog}

theorem Works.standing (w : s.Works g) (h : s.app.state ≠ .idle) :
    s.standing = workStanding s.app := by
  simp [DualClock.standing, w.notPending, w.reqSeen, h]

/-- The working states before the answer. -/
theorem Works.moves (w : s.Works g) (h1 : s.app.state ≠ .idle) (h2 : s.app.state ≠ .ack)
    (hidle : (s.next e).app.state ≠ .idle)
    (h : (workStanding (s.next e).app).1 < (workStanding s.app).1 ∨
      ((workStanding (s.next e).app) = workStanding s.app ∧ ¬ (workStanding s.app).2.MetBy e)) :
    s.Moves e := by
  have w' := (w.next (e := e) h1 h2).1
  rw [Moves, w.standing h1, w'.standing hidle]
  rcases h with h | ⟨h, hno⟩
  · exact .inl h
  · exact .inr ⟨by rw [h], by rw [h], hno⟩

/-- A working app side waits for an edge of its clock. -/
theorem not_met_of_no_app {a : BridgeApp} (h : a.state ≠ .idle) (hx : e.app = none) :
    ¬ (workStanding a).2.MetBy e := by
  cases hs : a.state with
  | idle => exact absurd hs h
  | capture => simp [workStanding, hs, Need.MetBy, hx]
  | readCmd => simp [workStanding, hs, Need.MetBy, hx]
  | readWait => cases hen : a.cmdEn <;> simp [workStanding, hs, hen, Need.MetBy, hx]
  | writeCmd => simp [workStanding, hs, Need.MetBy, hx]
  | ack => simp [workStanding, hs, Need.MetBy, hx]

theorem moves_of_works (w : s.Works g) (h1 : s.app.state ≠ .idle) (h2 : s.app.state ≠ .ack)
    (hbeat : s.app.state = .readWait → s.app.cmdEn = false → s.ddr.beats ≠ []) : s.Moves e := by
  cases hx : e.app with
  | none =>
      have happ := (next_of_no_app (s := s) (g := g) hx).1
      exact w.moves h1 h2 (by rw [happ]; exact h1)
        (.inr ⟨by rw [happ], not_met_of_no_app h1 hx⟩)
  | some x =>
      have happ := (next_of_app (s := s) hx).1
      cases hs : s.app.state with
      | idle => exact absurd hs h1
      | ack => exact absurd hs h2
      | capture =>
          apply w.moves h1 h2
          · simp [happ, BridgeApp.next, hs]
          · left
            simp [happ, BridgeApp.next, workStanding, hs]
      | readCmd =>
          cases hrdy : x.cmdRdy with
          | false =>
              apply w.moves h1 h2
              · simp [happ, BridgeApp.next, hs, Controller.answer, hrdy]
              · right
                simp [happ, BridgeApp.next, workStanding, hs, Controller.answer, hrdy, Need.MetBy, hx]
          | true =>
              apply w.moves h1 h2
              · simp [happ, BridgeApp.next, hs, Controller.answer, hrdy]
              · left
                simp [happ, BridgeApp.next, workStanding, hs, Controller.answer, hrdy]
      | readWait =>
          cases hv : (s.ddr.answer x).rdataValid with
          | true =>
              -- the beat ends the wait, whatever is done with it
              have hlt : (workStanding (s.next e).app).1 < 6 ∧ (s.next e).app.state ≠ .idle := by
                rw [happ]
                cases hwe : s.app.appReq.we <;> simp [BridgeApp.next, workStanding, hs, hv, hwe]
              have hge : 6 ≤ (workStanding s.app).1 := by
                cases hen : s.app.cmdEn <;> simp [workStanding, hs, hen]
              exact w.moves h1 h2 hlt.2 (.inl (Nat.lt_of_lt_of_le hlt.1 hge))
          | false =>
              cases hen : s.app.cmdEn with
              | true =>
                  apply w.moves h1 h2
                  · simp [happ, BridgeApp.next, hs, hv]
                  · left
                    simp [happ, BridgeApp.next, workStanding, hs, hv, hen]
              | false =>
                  have hno : x.beat = false := by
                    have hb := hbeat hs hen
                    simpa [Controller.answer, hb] using hv
                  apply w.moves h1 h2
                  · simp [happ, BridgeApp.next, hs, hv]
                  · right
                    simp [happ, BridgeApp.next, workStanding, hs, hv, hen, Need.MetBy, hx, hno]
      | writeCmd =>
          cases hrdy : x.cmdRdy && x.dataRdy with
          | false =>
              apply w.moves h1 h2
              · simp [happ, BridgeApp.next, hs, Controller.answer, hrdy]
              · right
                simp only [Bool.and_eq_false_iff] at hrdy
                simp [happ, BridgeApp.next, workStanding, hs, Controller.answer, Need.MetBy, hx]
                grind
          | true =>
              apply w.moves h1 h2
              · simp [happ, BridgeApp.next, hs, Controller.answer, hrdy]
              · left
                simp [happ, BridgeApp.next, workStanding, hs, Controller.answer, hrdy]

/-- The answer is given at the next edge of `app_clk`. -/
theorem moves_of_ack (w : s.Works g) (h : s.app.state = .ack) : s.Moves e := by
  have hst : s.standing = (4, .app) := by
    rw [w.standing (by rw [h]; decide)]
    simp [workStanding, h]
  cases hx : e.app with
  | none =>
      have happ := (next_of_no_app (s := s) (g := g) hx).1
      have hst' : (s.next e).standing = (4, .app) := by
        rw [(w.holds hx).1.standing (by rw [happ, h]; decide), happ]
        simp [workStanding, h]
      right
      rw [hst, hst']
      simp [Need.MetBy, hx]
  | some x =>
      obtain ⟨b1, b2, -, b4, -, b6, b7⟩ := w.flip h hx
      have happ := (next_of_app (s := s) hx).1
      have hidle : (s.next e).app.state = .idle := by simp [happ, BridgeApp.next, h]
      left
      rw [hst]
      simp [standing, b1.notPending, b2.reqSeen, hidle, b4, b6, b7]

/-- The request is on its way to the app side. -/
theorem moves_of_posted (w : s.Waits g) (rsp : s.RspSettled) (r : s.Rests)
    (hun : s.app.reqToggleSeen = !s.bus.reqToggle)
    (hs : s.app.reqToggleSync = s.bus.reqToggle → s.app.reqToggleMeta = s.bus.reqToggle) :
    s.Moves e := by
  obtain ⟨w', b2, -, -⟩ := w.busNext (e := e) (by rw [rsp.rspAtSync, rsp.rspSeen])
  cases hx : e.app with
  | none =>
      have happ := (next_of_no_app (s := s) (g := g) hx).1
      have hst : (s.next e).standing = s.standing := by
        simp [standing, w'.notPending, w.notPending, happ, b2, hun]
      right
      rw [hst]
      refine ⟨rfl, rfl, ?_⟩
      simp only [standing, w.notPending, hun]
      cases s.bus.reqToggle <;> cases s.app.reqToggleSync <;> cases s.app.reqToggleMeta <;>
        simp [Need.MetBy, hx]
  | some x =>
      have happ := (next_of_app (s := s) hx).1
      obtain ⟨c1, c2, -, -⟩ := next_sync (s.ddr.answer x) s.bus s.app
      have hcalib : (s.ddr.answer x).initCalibComplete = x.initCalibComplete := rfl
      by_cases hsync : s.app.reqToggleSync = s.bus.reqToggle
      · have hmeta := hs hsync
        have hgo : (s.app.reqToggleSync != s.app.reqToggleSeen) = true := by
          rw [hsync, hun]
          cases s.bus.reqToggle <;> rfl
        have hst : s.standing = (10, .calib) := by simp [standing, w.notPending, hun, hsync]
        cases hc : x.initCalibComplete with
        | true =>
            have hnext : (s.next e).app.state = .capture ∧
                (s.next e).app.reqToggleSeen = s.bus.reqToggle := by
              rw [happ]
              simp [BridgeApp.next, r.state, hun, hcalib, hc, hsync]
            left
            rw [hst]
            simp [standing, w'.notPending, b2, hnext, workStanding]
        | false =>
            have hseen : (s.next e).app.reqToggleSeen = s.app.reqToggleSeen := by
              rw [happ]
              simp [BridgeApp.next, r.state, hcalib, hc]
            have hst' : (s.next e).standing = (10, .calib) := by
              have hsync' : (s.next e).app.reqToggleSync = s.bus.reqToggle := by
                rw [happ, c2, hmeta]
              simp [standing, w'.notPending, b2, hseen, hun, hsync']
            right
            rw [hst, hst']
            simp [Need.MetBy, hx, hc]
      · have hsame : s.app.reqToggleSync = s.app.reqToggleSeen := by
          rw [hun]
          cases h1 : s.app.reqToggleSync <;> cases h2 : s.bus.reqToggle <;> simp_all
        have hseen : (s.next e).app.reqToggleSeen = s.app.reqToggleSeen :=
          (r.next (e := e) hsame).2.1
        have hmeta' : (s.next e).app.reqToggleMeta = s.bus.reqToggle := by rw [happ, c1]
        have hsync' : (s.next e).app.reqToggleSync = s.app.reqToggleMeta := by rw [happ, c2]
        left
        by_cases hmeta : s.app.reqToggleMeta = s.bus.reqToggle
        · simp [standing, w'.notPending, w.notPending, b2, hseen, hun, hsync, hmeta, hsync']
        · simp [standing, w'.notPending, w.notPending, b2, hseen, hun, hsync, hmeta, hsync', hmeta']

/-- The answer is on its way to the bus side. -/
theorem moves_of_done (w : s.Waits g) (q : s.ReqSettled) (r : s.Rests)
    (hun : s.bus.rspToggleSeen = !s.app.rspToggle) : s.Moves e := by
  obtain ⟨r', a1, a2, -⟩ := r.next (e := e) (q.reqAtSync.trans q.reqSeen.symm)
  cases hx : e.clk with
  | none =>
      have hbus : (s.next e).bus = s.bus := by simp [DualClock.next, DualClock.busNext, hx]
      have hst : (s.next e).standing = s.standing := by
        simp [standing, hbus, w.notPending, a1, a2, q.reqSeen, r.state, r'.state]
      right
      rw [hst]
      refine ⟨rfl, rfl, ?_⟩
      simp only [standing, w.notPending, q.reqSeen, r.state]
      cases s.app.rspToggle <;> cases s.bus.rspToggleSync <;> cases s.bus.rspToggleMeta <;>
        simp [Need.MetBy, hx]
  | some y =>
      have hbus : (s.next e).bus = s.bus.next y s.app := by
        simp [DualClock.next, DualClock.busNext, hx]
      left
      by_cases hsync : s.bus.rspToggleSync = s.app.rspToggle
      · have hanswered : s.bus.answered = true := by
          simp [BridgeBus.answered, w.notPending, w.busy, hsync, hun]
        simp [standing, hbus, BridgeBus.next, w.notPending, hanswered, q.reqSeen, r.state, hsync]
      · have hsame : s.bus.rspToggleSync = s.bus.rspToggleSeen := by
          rw [hun]
          cases h1 : s.bus.rspToggleSync <;> cases h2 : s.app.rspToggle <;> simp_all
        have hstep : (s.next e).bus = { s.bus with
            ack := false, rspToggleMeta := s.app.rspToggle, rspToggleSync := s.bus.rspToggleMeta
            rspDatRMeta := s.app.rspDatR, rspDatRSync := s.bus.rspDatRMeta } := by
          rw [hbus]
          simp [BridgeBus.next, BridgeBus.answered, BridgeBus.accepts, w.notPending, w.busy, hsame]
        by_cases hmeta : s.bus.rspToggleMeta = s.app.rspToggle
        · simp [standing, hstep, w.notPending, a1, a2, q.reqSeen, r.state, r'.state, hsync, hmeta]
        · simp [standing, hstep, w.notPending, a1, a2, q.reqSeen, r.state, r'.state, hsync, hmeta]

/-- **A request in the bridge moves on.** -/
theorem Crossing.moves (c : s.Crossing m g) (h : s.bus.busy = true)
    (h' : (s.next e).bus.busy = true) : s.Moves e := by
  cases c with
  | free busy => rw [busy] at h; cases h
  | posted waits rsp rests _ unseen _ atSync =>
      exact moves_of_posted waits rsp rests unseen (fun hs => (atSync hs).1)
  | capture works state =>
      exact moves_of_works works (by rw [state]; decide) (by rw [state]; decide) (by simp [state])
  | readCmd works state =>
      exact moves_of_works works (by rw [state]; decide) (by rw [state]; decide) (by simp [state])
  | reading works state cmdEn =>
      exact moves_of_works works (by rw [state]; decide) (by rw [state]; decide) (by simp [cmdEn])
  | readWait works state _ beats =>
      exact moves_of_works works (by rw [state]; decide) (by rw [state]; decide) (by simp [beats])
  | readDone works state => exact moves_of_ack works state
  | writeCmd works state =>
      exact moves_of_works works (by rw [state]; decide) (by rw [state]; decide) (by simp [state])
  | writing works state => exact moves_of_ack works state
  | done waits req rests _ unseen => exact moves_of_done waits req rests unseen
  | answered busy pending _ _ req _ rests =>
      cases hx : e.clk with
      | none =>
          have hbus : (s.next e).bus = s.bus := by simp [DualClock.next, DualClock.busNext, hx]
          right
          simp [standing, hbus, pending, Need.MetBy, hx]
      | some y =>
          -- the acknowledge is given now
          simp [DualClock.next, DualClock.busNext, hx, BridgeBus.next, pending] at h'
  | acked busy => rw [busy] at h; cases h

/-- A busy bridge keeps its request and what was acknowledged; it becomes free with the
acknowledge of this request. -/
theorem Crossing.busy_next (c : s.Crossing m g) (h : s.bus.busy = true) :
    (s.logNext e g).acked = g.acked ∧ (s.next e).bus.req = s.bus.req ∧
      ((s.next e).bus.busy = false → (s.next e).bus.ack = true) := by
  have hno : s.bus.ack = false := by
    cases c with
    | acked busy => rw [busy] at h; cases h
    | free _ _ noAck => exact noAck
    | posted waits => exact waits.noAck
    | capture works => exact works.noAck
    | readCmd works => exact works.noAck
    | reading works => exact works.noAck
    | readWait works => exact works.noAck
    | readDone works => exact works.noAck
    | writeCmd works => exact works.noAck
    | writing works => exact works.noAck
    | done waits => exact waits.noAck
    | answered _ _ noAck => exact noAck
  refine ⟨by simp [logNext, hno], ?_⟩
  simp only [DualClock.next, DualClock.busNext]
  cases e.clk with
  | none => simp [h]
  | some y =>
      have hacc : s.bus.accepts y = false := by simp [BridgeBus.accepts, h]
      simp only [BridgeBus.next, hacc]
      cases hp : s.bus.rspAckPending <;> cases ha : s.bus.answered <;> simp [h]

end DualClock

/-! ## The property -/

/-- The bridge as a memory of bytes, `m` being the bytes at the start. -/
structure Remembers (m : ByteMem) (s : DualClock) (g : BridgeLog) : Prop where
  /-- Every accepted request has its one acknowledge, in order, but the one in the bridge. -/
  acks : g.accepted = (if s.bus.busy || s.bus.ack then [s.bus.req] else []) ++
    g.acked.map Prod.fst
  /-- Each read was acknowledged with the word that the earlier requests have left. -/
  answers : AnswersOk m g.acked
  /-- Between requests each has been executed once, and the lines hold the bytes they wrote. -/
  executed : s.bus.busy = false → g.performed = g.accepted.flatMap BridgeReq.commands
  memory : s.bus.busy = false → bytesOf s.ddr.lines = m.after g.accepted

/-- Both clocks keep ticking, and the controller keeps serving. -/
def Serving (inp : Nat → Edges) : Prop := ∀ v : Need, ∀ n, ∃ k, n ≤ k ∧ v.MetBy (inp k)

/-- If the controller keeps serving, the request in the bridge is acknowledged. -/
theorem request_acked (lines : Lines) (inp : Nat → Edges) (serving : Serving inp) (n : Nat)
    (h : (dualRun lines inp n).bus.busy = true) :
    ∃ k, n ≤ k ∧ (dualRun lines inp k).bus.ack = true ∧
      (dualRun lines inp k).bus.req = (dualRun lines inp n).bus.req ∧
      (dualLog lines inp k).acked = (dualLog lines inp n).acked := by
  obtain ⟨k, hk, hall, hend⟩ := @Clocked.run_leaves _ _ _ DualClock.next inp
    (DualClock.reset lines) (fun s => s.bus.busy = true) (fun s => s.standing.1)
    (fun s => s.standing.2) Need.MetBy serving
    (fun k hb hb' => (dualRun_crossing lines inp k).1.moves hb hb') n h
  -- the request stays in the bridge up to then
  have hsame : ∀ d, n + d ≤ k + 1 →
      (dualRun lines inp (n + d)).bus.req = (dualRun lines inp n).bus.req ∧
      (dualLog lines inp (n + d)).acked = (dualLog lines inp n).acked := by
    intro d
    induction d with
    | zero => exact fun _ => ⟨rfl, rfl⟩
    | succ d ih =>
        intro hd
        obtain ⟨ih1, ih2⟩ := ih (by omega)
        have c := (dualRun_crossing lines inp (n + d)).1
        obtain ⟨h1, h2, -⟩ := c.busy_next (e := inp (n + d)) (hall (n + d) (by omega) (by omega))
        refine ⟨h2.trans ih1, ?_⟩
        rw [dualLog, Nat.add_succ, Clocked.history_succ]
        exact h1.trans ih2
  have c := (dualRun_crossing lines inp k).1
  obtain ⟨-, -, hack⟩ := c.busy_next (e := inp k) (hall k hk (Nat.le_refl k))
  obtain ⟨d, hd⟩ := Nat.exists_eq_add_of_le (Nat.le_succ_of_le hk)
  obtain ⟨hreq, hacked⟩ := hsame d (by omega)
  refine ⟨k + 1, Nat.le_succ_of_le hk, hack ?_, ?_, ?_⟩
  · exact Bool.eq_false_iff.mpr hend
  · rw [show k + 1 = n + d from hd]
    exact hreq
  · rw [show k + 1 = n + d from hd]
    exact hacked

/-- The low 29 bits tell the addresses of the DDR region apart. -/
theorem ddr_offset_inj {a b : Word} (ha : isDdrRegion a = true) (hb : isDdrRegion b = true)
    (h : a.extractLsb' 0 29 = b.extractLsb' 0 29) : a = b := by
  rw [isDdrRegion_iff] at ha hb
  have h' := congrArg BitVec.toNat h
  simp only [BitVec.extractLsb'_toNat, Nat.shiftRight_eq_div_pow] at h'
  apply BitVec.eq_of_toNat_eq
  omega

/-- **The bridge is a memory of bytes**, whatever the lines hold at the start and however the two
clocks interleave; the addresses of the DDR region are all different; and if the clocks keep
ticking and the controller keeps serving, every request in the bridge is acknowledged. -/
theorem bridge_remembers (lines : Lines) (inp : Nat → Edges) :
    (∀ n, Remembers (bytesOf lines) (dualRun lines inp n) (dualLog lines inp n)) ∧
    (∀ a b, isDdrRegion a = true → isDdrRegion b = true →
      a.extractLsb' 0 29 = b.extractLsb' 0 29 → a = b) ∧
    (Serving inp → ∀ n, (dualRun lines inp n).bus.busy = true →
      ∃ k, n ≤ k ∧ (dualRun lines inp k).bus.ack = true ∧
        (dualRun lines inp k).bus.req = (dualRun lines inp n).bus.req ∧
        (dualLog lines inp k).acked = (dualLog lines inp n).acked) := by
  refine ⟨fun n => ?_, fun a b => ddr_offset_inj, request_acked lines inp⟩
  obtain ⟨c, hans⟩ := dualRun_crossing lines inp n
  exact ⟨c.acks, hans, fun h => (c.settled h).1, fun h => (c.settled h).2⟩

end MelonSoc
