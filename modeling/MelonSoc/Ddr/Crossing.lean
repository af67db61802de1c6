import MelonSoc.Ddr.Lines
import MelonSoc.Lib.Clocked

set_option autoImplicit false

/-! # The bridge across its two clocks

The bridge with an ideal controller behind it: it performs every command for which `app_cmd_en`
pulses and returns the beats of its reads in order, each after any number of cycles. The two
clocks tick in any order. Every request of the bus then passes the stages of `Crossing`, one
after the other, and what the bridge has done by the end of them is the request executed on
the memory of bytes.
-/

namespace MelonSoc

/-! ## The controller -/

/-- An ideal controller: the lines, and the beats it has not returned yet, oldest first. -/
structure Controller where
  lines : Lines
  beats : List Line

/-- What the controller does on its own in a cycle of `app_clk`. -/
structure ControllerIn where
  cmdRdy : Bool
  dataRdy : Bool
  initCalibComplete : Bool
  beat : Bool

namespace Controller

/-- The signals to the bridge. -/
def answer (x : ControllerIn) (c : Controller) : AppIn :=
  { cmdRdy := x.cmdRdy, dataRdy := x.dataRdy, initCalibComplete := x.initCalibComplete
    rdataValid := x.beat && !c.beats.isEmpty
    rdata := c.beats.headD 0#128 }

/-- The line of the command on the port. -/
def cmdLine (a : BridgeApp) : BitVec 25 := a.addr.extractLsb' 3 25

/-- A command that pulses is performed; a beat that was returned is gone. -/
def next (x : ControllerIn) (a : BridgeApp) (c : Controller) : Controller :=
  { lines :=
      if a.cmdEn && a.cmd == 0#3 && a.wren then Function.update c.lines (cmdLine a) a.data
      else c.lines
    beats :=
      (if x.beat then c.beats.tail else c.beats) ++
        (if a.cmdEn && a.cmd == 1#3 then [c.lines (cmdLine a)] else []) }

end Controller

/-! ## The two clocks -/

structure DualClock where
  bus : BridgeBus
  app : BridgeApp
  ddr : Controller

/-- The clock edges of an instant: an edge of `clk` with the request on the bus, an edge of
`app_clk` with what the controller does, both or none. -/
structure Edges where
  clk : Option WbReq
  app : Option ControllerIn

namespace DualClock

def reset (lines : Lines) : DualClock :=
  { bus := BridgeBus.reset, app := BridgeApp.reset, ddr := { lines := lines, beats := [] } }

def busNext (e : Edges) (s : DualClock) : BridgeBus :=
  match e.clk with
  | some q => s.bus.next q s.app
  | none => s.bus

def appNext (e : Edges) (s : DualClock) : BridgeApp :=
  match e.app with
  | some x => s.app.next (s.ddr.answer x) s.bus
  | none => s.app

def ddrNext (e : Edges) (s : DualClock) : Controller :=
  match e.app with
  | some x => s.ddr.next x s.app
  | none => s.ddr

def next (e : Edges) (s : DualClock) : DualClock :=
  { bus := s.busNext e, app := s.appNext e, ddr := s.ddrNext e }

end DualClock

/-! ## What has happened -/

/-- A command that was performed: its line, and whether it was a write. -/
structure Command where
  line : BitVec 25
  write : Bool

/-- The requests accepted, those acknowledged with the word on `dat_r`, and the commands
performed, newest first. -/
structure BridgeLog where
  accepted : List BridgeReq
  acked : List (BridgeReq × Word)
  performed : List Command

def BridgeLog.reset : BridgeLog := { accepted := [], acked := [], performed := [] }

namespace DualClock

/-- The log after the edges. The master sees an acknowledge at an edge of `clk`. -/
def logNext (e : Edges) (s : DualClock) (g : BridgeLog) : BridgeLog :=
  { accepted :=
      match e.clk with
      | some q =>
          if s.bus.accepts q then
            { we := q.we, addr := q.adr, datW := q.datW, sel := q.sel } :: g.accepted
          else g.accepted
      | none => g.accepted
    acked :=
      if e.clk.isSome && s.bus.ack then (s.bus.req, s.bus.datR) :: g.acked else g.acked
    performed :=
      if e.app.isSome && s.app.cmdEn then
        { line := Controller.cmdLine s.app, write := s.app.wren } :: g.performed
      else g.performed }

end DualClock

/-! ## What should have happened -/

namespace BridgeReq

/-- The read of the line, and for a write its write-back; newest first. -/
def commands (r : BridgeReq) : List Command :=
  let line := lineOf r.addr
  if r.we then [{ line := line, write := true }, { line := line, write := false }]
  else [{ line := line, write := false }]

end BridgeReq

/-- Each read was acknowledged with the word that the earlier requests have left. -/
def AnswersOk (m : ByteMem) : List (BridgeReq × Word) → Prop
  | [] => True
  | (r, d) :: older =>
      (r.we = false → d = (m.after (older.map Prod.fst)).word r.addr) ∧ AnswersOk m older

/-! ## The stages of a request -/

namespace DualClock

/-- The app side has seen the last request, and the toggle has settled. -/
structure ReqSettled (s : DualClock) : Prop where
  reqAtMeta : s.app.reqToggleMeta = s.bus.reqToggle
  reqAtSync : s.app.reqToggleSync = s.bus.reqToggle
  reqSeen : s.app.reqToggleSeen = s.bus.reqToggle

/-- The bus side has seen the last answer, and the toggle has settled. -/
structure RspSettled (s : DualClock) : Prop where
  rspAtMeta : s.bus.rspToggleMeta = s.app.rspToggle
  rspAtSync : s.bus.rspToggleSync = s.app.rspToggle
  rspSeen : s.bus.rspToggleSeen = s.app.rspToggle

/-- The app side rests, and the controller has nothing to do. -/
structure Rests (s : DualClock) : Prop where
  state : s.app.state = .idle
  cmdEn : s.app.cmdEn = false
  beats : s.ddr.beats = []

/-- A request is in the bridge and not yet answered. -/
structure Waits (s : DualClock) (g : BridgeLog) : Prop where
  busy : s.bus.busy = true
  notPending : s.bus.rspAckPending = false
  noAck : s.bus.ack = false
  accepted : g.accepted = s.bus.req :: g.acked.map Prod.fst

/-- Nothing has happened yet on behalf of the request in the bridge. -/
structure Untouched (m : ByteMem) (s : DualClock) (g : BridgeLog) : Prop where
  performed : g.performed = (g.acked.map Prod.fst).flatMap BridgeReq.commands
  memory : bytesOf s.ddr.lines = m.after (g.acked.map Prod.fst)

/-- The line of the request in the bridge has been read. -/
structure LineRead (m : ByteMem) (s : DualClock) (g : BridgeLog) : Prop where
  performed : g.performed = { line := lineOf s.bus.req.addr, write := false } ::
    (g.acked.map Prod.fst).flatMap BridgeReq.commands
  memory : bytesOf s.ddr.lines = m.after (g.acked.map Prod.fst)

/-- The request in the bridge has been executed, with `d` as the word read. -/
structure Executed (m : ByteMem) (s : DualClock) (g : BridgeLog) (d : Word) : Prop where
  performed : g.performed = (s.bus.req :: g.acked.map Prod.fst).flatMap BridgeReq.commands
  memory : bytesOf s.ddr.lines = m.after (s.bus.req :: g.acked.map Prod.fst)
  word : s.bus.req.we = false → d = (m.after (g.acked.map Prod.fst)).word s.bus.req.addr

/-- The app side works on the request in the bridge. -/
structure Works (s : DualClock) (g : BridgeLog) : Prop extends s.Waits g, s.ReqSettled,
    s.RspSettled where
  reqMeta : s.app.reqMeta = s.bus.req
  reqSync : s.app.reqSync = s.bus.req

/-- The stages of a request, one after the other. -/
inductive Crossing (m : ByteMem) (s : DualClock) (g : BridgeLog) : Prop
  | free (busy : s.bus.busy = false) (pending : s.bus.rspAckPending = false)
      (noAck : s.bus.ack = false) (req : s.ReqSettled) (rsp : s.RspSettled) (rests : s.Rests)
      (accepted : g.accepted = g.acked.map Prod.fst) (untouched : s.Untouched m g)
  /-- The toggle of the request is on its way, with the request beside it. -/
  | posted (waits : s.Waits g) (rsp : s.RspSettled) (rests : s.Rests)
      (untouched : s.Untouched m g) (unseen : s.app.reqToggleSeen = !s.bus.reqToggle)
      (atMeta : s.app.reqToggleMeta = s.bus.reqToggle → s.app.reqMeta = s.bus.req)
      (atSync : s.app.reqToggleSync = s.bus.reqToggle →
        s.app.reqToggleMeta = s.bus.reqToggle ∧ s.app.reqSync = s.bus.req)
  | capture (works : s.Works g) (state : s.app.state = .capture) (cmdEn : s.app.cmdEn = false)
      (beats : s.ddr.beats = []) (untouched : s.Untouched m g)
  | readCmd (works : s.Works g) (state : s.app.state = .readCmd) (cmdEn : s.app.cmdEn = false)
      (beats : s.ddr.beats = []) (appReq : s.app.appReq = s.bus.req) (untouched : s.Untouched m g)
  /-- The read is on the command port. -/
  | reading (works : s.Works g) (state : s.app.state = .readWait) (cmdEn : s.app.cmdEn = true)
      (cmd : s.app.cmd = 1#3) (wren : s.app.wren = false)
      (addr : s.app.addr = appLineAddr s.bus.req.addr) (beats : s.ddr.beats = [])
      (appReq : s.app.appReq = s.bus.req) (untouched : s.Untouched m g)
  | readWait (works : s.Works g) (state : s.app.state = .readWait) (cmdEn : s.app.cmdEn = false)
      (beats : s.ddr.beats = [s.ddr.lines (lineOf s.bus.req.addr)])
      (appReq : s.app.appReq = s.bus.req) (lineRead : s.LineRead m g)
  | readDone (works : s.Works g) (state : s.app.state = .ack) (cmdEn : s.app.cmdEn = false)
      (beats : s.ddr.beats = []) (appReq : s.app.appReq = s.bus.req) (read : s.bus.req.we = false)
      (executed : s.Executed m g s.app.rspDatR)
  | writeCmd (works : s.Works g) (state : s.app.state = .writeCmd) (cmdEn : s.app.cmdEn = false)
      (beats : s.ddr.beats = []) (appReq : s.app.appReq = s.bus.req) (write : s.bus.req.we = true)
      (line : s.app.line = s.ddr.lines (lineOf s.bus.req.addr)) (lineRead : s.LineRead m g)
  /-- The write is on the command port. -/
  | writing (works : s.Works g) (state : s.app.state = .ack) (cmdEn : s.app.cmdEn = true)
      (cmd : s.app.cmd = 0#3) (wren : s.app.wren = true)
      (addr : s.app.addr = appLineAddr s.bus.req.addr)
      (data : s.app.data = mergeWord (s.ddr.lines (lineOf s.bus.req.addr))
        (wordSel s.bus.req.addr) s.bus.req.datW s.bus.req.sel)
      (beats : s.ddr.beats = []) (write : s.bus.req.we = true) (lineRead : s.LineRead m g)
  /-- The toggle of the answer is on its way, with the word beside it. -/
  | done (waits : s.Waits g) (req : s.ReqSettled) (rests : s.Rests)
      (executed : s.Executed m g s.app.rspDatR)
      (unseen : s.bus.rspToggleSeen = !s.app.rspToggle)
      (atMeta : s.bus.rspToggleMeta = s.app.rspToggle → s.bus.rspDatRMeta = s.app.rspDatR)
      (atSync : s.bus.rspToggleSync = s.app.rspToggle →
        s.bus.rspToggleMeta = s.app.rspToggle ∧ s.bus.rspDatRSync = s.app.rspDatR)
  | answered (busy : s.bus.busy = true) (pending : s.bus.rspAckPending = true)
      (noAck : s.bus.ack = false) (accepted : g.accepted = s.bus.req :: g.acked.map Prod.fst)
      (req : s.ReqSettled) (rsp : s.RspSettled) (rests : s.Rests)
      (executed : s.Executed m g s.bus.datR)
  | acked (busy : s.bus.busy = false) (pending : s.bus.rspAckPending = false)
      (ack : s.bus.ack = true) (accepted : g.accepted = s.bus.req :: g.acked.map Prod.fst)
      (req : s.ReqSettled) (rsp : s.RspSettled) (rests : s.Rests)
      (executed : s.Executed m g s.bus.datR)

theorem crossing_reset (lines : Lines) :
    (DualClock.reset lines).Crossing (bytesOf lines) BridgeLog.reset :=
  .free rfl rfl rfl ⟨rfl, rfl, rfl⟩ ⟨rfl, rfl, rfl⟩ ⟨rfl, rfl, rfl⟩ rfl ⟨rfl, rfl⟩

variable {m : ByteMem} {e : Edges} {s : DualClock} {g : BridgeLog}

/-! ## What the edges do to a request that waits -/

/-- The two registers behind each signal of the other side, and the toggles. -/
theorem next_sync (i : AppIn) (b : BridgeBus) (a : BridgeApp) :
    (a.next i b).reqToggleMeta = b.reqToggle ∧ (a.next i b).reqToggleSync = a.reqToggleMeta ∧
      (a.next i b).reqMeta = b.req ∧ (a.next i b).reqSync = a.reqMeta := by
  unfold BridgeApp.next
  cases a.state <;> dsimp only <;> (repeat' split) <;> exact ⟨rfl, rfl, rfl, rfl⟩

theorem next_keeps (i : AppIn) (b : BridgeBus) (a : BridgeApp) :
    (a.state ≠ .idle → (a.next i b).reqToggleSeen = a.reqToggleSeen) ∧
      (a.state ≠ .ack → (a.next i b).rspToggle = a.rspToggle) := by
  unfold BridgeApp.next
  cases a.state <;> dsimp only <;> (repeat' split) <;> simp

theorem Waits.log (w : s.Waits g) :
    (s.logNext e g).accepted = g.accepted ∧ (s.logNext e g).acked = g.acked := by
  have hacc : ∀ q, s.bus.accepts q = false := by
    intro q
    simp [BridgeBus.accepts, w.busy]
  constructor
  · simp only [logNext]
    cases e.clk with
    | none => rfl
    | some q => simp [hacc]
  · simp [logNext, w.noAck]

theorem logNext_performed (h : s.app.cmdEn = false) :
    (s.logNext e g).performed = g.performed := by
  simp [logNext, h]

/-- A request that waits stays as it is on the bus side. -/
theorem Waits.busNext (w : s.Waits g) (h : s.bus.rspToggleSync = s.bus.rspToggleSeen) :
    (s.next e).Waits (s.logNext e g) ∧ (s.next e).bus.reqToggle = s.bus.reqToggle ∧
      (s.next e).bus.req = s.bus.req ∧ (s.next e).bus.rspToggleSeen = s.bus.rspToggleSeen := by
  obtain ⟨hacc, hack⟩ := w.log (e := e)
  obtain ⟨h1, h2, h3, h4⟩ := w
  have hb : (s.busNext e).busy = true ∧ (s.busNext e).rspAckPending = false ∧
      (s.busNext e).ack = false ∧ (s.busNext e).reqToggle = s.bus.reqToggle ∧
      (s.busNext e).req = s.bus.req ∧ (s.busNext e).rspToggleSeen = s.bus.rspToggleSeen := by
    unfold DualClock.busNext
    cases e.clk with
    | none => exact ⟨h1, h2, h3, rfl, rfl, rfl⟩
    | some q => simp [BridgeBus.next, BridgeBus.answered, BridgeBus.accepts, h1, h2, h]
  obtain ⟨b1, b2, b3, b4, b5, b6⟩ := hb
  refine ⟨⟨b1, b2, b3, ?_⟩, b4, b5, b6⟩
  rw [hacc, hack, h4]
  show _ = (s.busNext e).req :: _
  rw [b5]

/-- The registers behind the toggle of the answer. -/
theorem busNext_sync (e : Edges) (s : DualClock) :
    ((s.next e).bus.rspToggleMeta = s.bus.rspToggleMeta ∧
      (s.next e).bus.rspToggleSync = s.bus.rspToggleSync ∧
      (s.next e).bus.rspDatRMeta = s.bus.rspDatRMeta ∧
      (s.next e).bus.rspDatRSync = s.bus.rspDatRSync) ∨
    ((s.next e).bus.rspToggleMeta = s.app.rspToggle ∧
      (s.next e).bus.rspToggleSync = s.bus.rspToggleMeta ∧
      (s.next e).bus.rspDatRMeta = s.app.rspDatR ∧
      (s.next e).bus.rspDatRSync = s.bus.rspDatRMeta) := by
  simp only [DualClock.next, DualClock.busNext]
  cases e.clk with
  | none => exact .inl ⟨rfl, rfl, rfl, rfl⟩
  | some q =>
      right
      simp only [BridgeBus.next]
      repeat' split
      all_goals exact ⟨rfl, rfl, rfl, rfl⟩

/-- Nothing moves on the app side without its clock. -/
theorem next_of_no_app (h : e.app = none) :
    (s.next e).app = s.app ∧ (s.next e).ddr = s.ddr ∧
      (s.logNext e g).performed = g.performed := by
  simp [DualClock.next, DualClock.appNext, DualClock.ddrNext, logNext, h]

theorem next_of_app {x : ControllerIn} (h : e.app = some x) :
    (s.next e).app = s.app.next (s.ddr.answer x) s.bus ∧
      (s.next e).ddr = s.ddr.next x s.app := by
  simp [DualClock.next, DualClock.appNext, DualClock.ddrNext, h]

/-- While the app side works, the toggles stay settled. -/
theorem Works.next (w : s.Works g) (h1 : s.app.state ≠ .idle) (h2 : s.app.state ≠ .ack) :
    (s.next e).Works (s.logNext e g) ∧ (s.next e).bus.req = s.bus.req := by
  obtain ⟨hw, hreq, hrsp, hm, hs⟩ := w
  obtain ⟨b1, b2, b3, b4⟩ := hw.busNext (e := e) (by rw [hrsp.rspAtSync, hrsp.rspSeen])
  have happ : (s.next e).app.reqToggleMeta = s.bus.reqToggle ∧
      (s.next e).app.reqToggleSync = s.bus.reqToggle ∧
      (s.next e).app.reqToggleSeen = s.bus.reqToggle ∧ (s.next e).app.rspToggle = s.app.rspToggle ∧
      (s.next e).app.reqMeta = s.bus.req ∧ (s.next e).app.reqSync = s.bus.req := by
    cases hx : e.app with
    | none =>
        rw [(next_of_no_app (g := g) hx).1]
        exact ⟨hreq.reqAtMeta, hreq.reqAtSync, hreq.reqSeen, rfl, hm, hs⟩
    | some x =>
        rw [(next_of_app hx).1]
        obtain ⟨c1, c2, c3, c4⟩ := next_sync (s.ddr.answer x) s.bus s.app
        obtain ⟨d1, d2⟩ := next_keeps (s.ddr.answer x) s.bus s.app
        exact ⟨c1, c2.trans hreq.reqAtMeta, (d1 h1).trans hreq.reqSeen, d2 h2, c3, c4.trans hm⟩
  obtain ⟨a1, a2, a3, a4, a5, a6⟩ := happ
  refine ⟨⟨b1, ⟨a1.trans b2.symm, a2.trans b2.symm, a3.trans b2.symm⟩, ?_, a5.trans b3.symm,
    a6.trans b3.symm⟩, b3⟩
  rcases busNext_sync e s with ⟨r1, r2, -, -⟩ | ⟨r1, r2, -, -⟩
  · exact ⟨r1.trans (hrsp.rspAtMeta.trans a4.symm), r2.trans (hrsp.rspAtSync.trans a4.symm),
      b4.trans (hrsp.rspSeen.trans a4.symm)⟩
  · exact ⟨r1.trans a4.symm, r2.trans (hrsp.rspAtMeta.trans a4.symm),
      b4.trans (hrsp.rspSeen.trans a4.symm)⟩

theorem Waits.base (w : s.Waits g) :
    ((s.logNext e g).acked.map Prod.fst) = g.acked.map Prod.fst := by
  rw [w.log.2]

/-- Nothing has happened on behalf of the request, and nothing happens now. -/
theorem Untouched.next (u : s.Untouched m g) (w : s.Waits g) (hen : s.app.cmdEn = false) :
    (s.next e).Untouched m (s.logNext e g) := by
  refine ⟨?_, ?_⟩
  · rw [logNext_performed hen, w.base, u.performed]
  · rw [w.base, ← u.memory]
    cases hx : e.app with
    | none => rw [(next_of_no_app (g := g) hx).2.1]
    | some x => simp [(next_of_app hx).2, Controller.next, hen]

theorem LineRead.next (l : s.LineRead m g) (w : s.Waits g) (hen : s.app.cmdEn = false)
    (hreq : (s.next e).bus.req = s.bus.req) : (s.next e).LineRead m (s.logNext e g) := by
  refine ⟨?_, ?_⟩
  · rw [logNext_performed hen, w.base, l.performed, hreq]
  · rw [w.base, ← l.memory]
    cases hx : e.app with
    | none => rw [(next_of_no_app (g := g) hx).2.1]
    | some x => simp [(next_of_app hx).2, Controller.next, hen]

theorem Executed.next {d d' : Word} (x : s.Executed m g d) (hacked : (s.logNext e g).acked = g.acked)
    (hen : s.app.cmdEn = false) (hreq : (s.next e).bus.req = s.bus.req)
    (hd : s.bus.req.we = false → d' = d) : (s.next e).Executed m (s.logNext e g) d' := by
  have hlines : (s.next e).ddr.lines = s.ddr.lines := by
    cases hx : e.app with
    | none => rw [(next_of_no_app (g := g) hx).2.1]
    | some x => simp [(next_of_app hx).2, Controller.next, hen]
  refine ⟨?_, ?_, fun hwe => ?_⟩
  · rw [logNext_performed hen, hacked, x.performed, hreq]
  · rw [hlines, hacked, x.memory, hreq]
  · rw [hreq] at hwe ⊢
    rw [hd hwe, hacked, x.word hwe]

theorem next_beats (hen : s.app.cmdEn = false) (hb : s.ddr.beats = []) :
    (s.next e).ddr.beats = [] := by
  cases hx : e.app with
  | none => rw [(next_of_no_app (g := BridgeLog.reset) hx).2.1, hb]
  | some x => simp [(next_of_app hx).2, Controller.next, hen, hb]

/-! ## From stage to stage -/

theorem capture_next (w : s.Works g) (hs : s.app.state = .capture) (hen : s.app.cmdEn = false)
    (hb : s.ddr.beats = []) (u : s.Untouched m g) :
    (s.next e).Crossing m (s.logNext e g) := by
  obtain ⟨w', hreq⟩ := w.next (e := e) (by rw [hs]; decide) (by rw [hs]; decide)
  have u' := u.next (e := e) w.toWaits hen
  have hb' := next_beats (e := e) hen hb
  cases hx : e.app with
  | none =>
      have happ := (next_of_no_app (s := s) (g := g) hx).1
      exact .capture w' (by rw [happ, hs]) (by rw [happ, hen]) hb' u'
  | some x =>
      have happ := (next_of_app (s := s) hx).1
      refine .readCmd w' ?_ ?_ hb' ?_ u'
      · simp [happ, BridgeApp.next, hs]
      · simp [happ, BridgeApp.next, hs]
      · rw [hreq, ← w.reqSync]
        simp [happ, BridgeApp.next, hs]

theorem readCmd_next (w : s.Works g) (hs : s.app.state = .readCmd) (hen : s.app.cmdEn = false)
    (hb : s.ddr.beats = []) (hr : s.app.appReq = s.bus.req) (u : s.Untouched m g) :
    (s.next e).Crossing m (s.logNext e g) := by
  obtain ⟨w', hreq⟩ := w.next (e := e) (by rw [hs]; decide) (by rw [hs]; decide)
  have u' := u.next (e := e) w.toWaits hen
  have hb' := next_beats (e := e) hen hb
  cases hx : e.app with
  | none =>
      have happ := (next_of_no_app (s := s) (g := g) hx).1
      exact .readCmd w' (by rw [happ, hs]) (by rw [happ, hen]) hb' (by rw [happ, hr, hreq]) u'
  | some x =>
      have happ := (next_of_app (s := s) hx).1
      cases hrdy : x.cmdRdy with
      | false =>
          refine .readCmd w' ?_ ?_ hb' ?_ u'
          · simp [happ, BridgeApp.next, hs, Controller.answer, hrdy]
          · simp [happ, BridgeApp.next, hs, Controller.answer, hrdy]
          · simp [happ, BridgeApp.next, hs, Controller.answer, hrdy, hreq, hr]
      | true =>
          refine .reading w' ?_ ?_ ?_ ?_ ?_ hb' ?_ u'
          · simp [happ, BridgeApp.next, hs, Controller.answer, hrdy]
          · simp [happ, BridgeApp.next, hs, Controller.answer, hrdy]
          · simp [happ, BridgeApp.next, hs, Controller.answer, hrdy]
          · simp [happ, BridgeApp.next, hs, Controller.answer, hrdy]
          · simp [happ, BridgeApp.next, hs, Controller.answer, hrdy, hreq, hr]
          · simp [happ, BridgeApp.next, hs, Controller.answer, hrdy, hreq, hr]

theorem reading_next (w : s.Works g) (hs : s.app.state = .readWait) (hen : s.app.cmdEn = true)
    (hcmd : s.app.cmd = 1#3) (hwren : s.app.wren = false)
    (hadr : s.app.addr = appLineAddr s.bus.req.addr) (hb : s.ddr.beats = [])
    (hr : s.app.appReq = s.bus.req) (u : s.Untouched m g) :
    (s.next e).Crossing m (s.logNext e g) := by
  obtain ⟨w', hreq⟩ := w.next (e := e) (by rw [hs]; decide) (by rw [hs]; decide)
  cases hx : e.app with
  | none =>
      obtain ⟨happ, hddr, hperf⟩ := next_of_no_app (s := s) (g := g) hx
      refine .reading w' (by rw [happ, hs]) (by rw [happ, hen]) (by rw [happ, hcmd])
        (by rw [happ, hwren]) (by rw [happ, hadr, hreq]) (by rw [hddr, hb]) (by rw [happ, hr, hreq])
        ⟨?_, ?_⟩
      · rw [hperf, w.base, u.performed]
      · rw [hddr, w.base, u.memory]
  | some x =>
      obtain ⟨happ, hddr⟩ := next_of_app (s := s) hx
      -- no beat can come yet
      have hbeat : (s.ddr.answer x).rdataValid = false := by simp [Controller.answer, hb]
      have hlines : (s.next e).ddr.lines = s.ddr.lines := by
        simp [hddr, Controller.next, hwren]
      have hline : Controller.cmdLine s.app = lineOf s.bus.req.addr := by
        rw [Controller.cmdLine, hadr, appLineAddr_line]
      refine .readWait w' ?_ ?_ ?_ ?_ ⟨?_, ?_⟩
      · simp [happ, BridgeApp.next, hs, hbeat]
      · simp [happ, BridgeApp.next, hs, hbeat]
      · rw [hlines, hreq]
        simp [hddr, Controller.next, hb, hen, hcmd, hline]
      · simp [happ, BridgeApp.next, hs, hbeat, hreq, hr]
      · rw [w.base, ← u.performed, hreq]
        simp [logNext, hx, hen, hwren, hline]
      · rw [hlines, w.base, u.memory]

/-- The beat with the line of the request arrives. -/
theorem readWait_next (w : s.Works g) (hs : s.app.state = .readWait) (hen : s.app.cmdEn = false)
    (hb : s.ddr.beats = [s.ddr.lines (lineOf s.bus.req.addr)]) (hr : s.app.appReq = s.bus.req)
    (l : s.LineRead m g) : (s.next e).Crossing m (s.logNext e g) := by
  obtain ⟨w', hreq⟩ := w.next (e := e) (by rw [hs]; decide) (by rw [hs]; decide)
  have l' := l.next (e := e) w.toWaits hen hreq
  cases hx : e.app with
  | none =>
      obtain ⟨happ, hddr, -⟩ := next_of_no_app (s := s) (g := g) hx
      exact .readWait w' (by rw [happ, hs]) (by rw [happ, hen]) (by rw [hddr, hb, hreq])
        (by rw [happ, hr, hreq]) l'
  | some x =>
      obtain ⟨happ, hddr⟩ := next_of_app (s := s) hx
      have hlines : (s.next e).ddr.lines = s.ddr.lines := by
        simp [hddr, Controller.next, hen]
      have hdata : (s.ddr.answer x).rdata = s.ddr.lines (lineOf s.bus.req.addr) := by
        simp [Controller.answer, hb]
      cases hbeat : x.beat with
      | false =>
          have hvalid : (s.ddr.answer x).rdataValid = false := by simp [Controller.answer, hbeat]
          refine .readWait w' ?_ ?_ ?_ ?_ l'
          · simp [happ, BridgeApp.next, hs, hvalid]
          · simp [happ, BridgeApp.next, hs, hvalid]
          · rw [hlines, hreq]
            simp [hddr, Controller.next, hbeat, hb, hen]
          · simp [happ, BridgeApp.next, hs, hvalid, hreq, hr]
      | true =>
          have hvalid : (s.ddr.answer x).rdataValid = true := by simp [Controller.answer, hbeat, hb]
          have hb' : (s.next e).ddr.beats = [] := by
            simp [hddr, Controller.next, hbeat, hb, hen]
          cases hwe : s.bus.req.we with
          | true =>
              refine .writeCmd w' ?_ ?_ hb' ?_ (by rw [hreq, hwe]) ?_ l'
              · simp [happ, BridgeApp.next, hs, hvalid, hr, hwe]
              · simp [happ, BridgeApp.next, hs, hvalid, hr, hwe]
              · simp [happ, BridgeApp.next, hs, hvalid, hr, hwe, hreq]
              · rw [hlines, hreq, ← hdata]
                simp [happ, BridgeApp.next, hs, hvalid, hr, hwe]
          | false =>
              refine .readDone w' ?_ ?_ hb' ?_ (by rw [hreq, hwe]) ⟨?_, ?_, fun _ => ?_⟩
              · simp [happ, BridgeApp.next, hs, hvalid, hr, hwe]
              · simp [happ, BridgeApp.next, hs, hvalid, hr, hwe]
              · simp [happ, BridgeApp.next, hs, hvalid, hr, hwe, hreq]
              · rw [l'.performed, hreq]
                simp [BridgeReq.commands, hwe]
              · rw [l'.memory, hreq]
                simp [ByteMem.after, ByteMem.apply, hwe]
              · rw [hreq, ← l'.memory, hlines, ← lineWord_word, ← hdata]
                simp [happ, BridgeApp.next, hs, hvalid, hr, hwe]

theorem writeCmd_next (w : s.Works g) (hs : s.app.state = .writeCmd) (hen : s.app.cmdEn = false)
    (hb : s.ddr.beats = []) (hr : s.app.appReq = s.bus.req) (hwe : s.bus.req.we = true)
    (hl : s.app.line = s.ddr.lines (lineOf s.bus.req.addr)) (l : s.LineRead m g) :
    (s.next e).Crossing m (s.logNext e g) := by
  obtain ⟨w', hreq⟩ := w.next (e := e) (by rw [hs]; decide) (by rw [hs]; decide)
  have l' := l.next (e := e) w.toWaits hen hreq
  have hb' := next_beats (e := e) hen hb
  cases hx : e.app with
  | none =>
      obtain ⟨happ, hddr, -⟩ := next_of_no_app (s := s) (g := g) hx
      exact .writeCmd w' (by rw [happ, hs]) (by rw [happ, hen]) hb' (by rw [happ, hr, hreq])
        (by rw [hreq, hwe]) (by rw [happ, hddr, hl, hreq]) l'
  | some x =>
      obtain ⟨happ, hddr⟩ := next_of_app (s := s) hx
      have hlines : (s.next e).ddr.lines = s.ddr.lines := by
        simp [hddr, Controller.next, hen]
      cases hrdy : x.cmdRdy && x.dataRdy with
      | false =>
          refine .writeCmd w' ?_ ?_ hb' ?_ (by rw [hreq, hwe]) ?_ l'
          · simp [happ, BridgeApp.next, hs, Controller.answer, hrdy]
          · simp [happ, BridgeApp.next, hs, Controller.answer, hrdy]
          · simp [happ, BridgeApp.next, hs, Controller.answer, hrdy, hreq, hr]
          · rw [hlines, hreq, ← hl]
            simp [happ, BridgeApp.next, hs, Controller.answer, hrdy]
      | true =>
          refine .writing w' ?_ ?_ ?_ ?_ ?_ ?_ hb' (by rw [hreq, hwe]) l'
          · simp [happ, BridgeApp.next, hs, Controller.answer, hrdy]
          · simp [happ, BridgeApp.next, hs, Controller.answer, hrdy]
          · simp [happ, BridgeApp.next, hs, Controller.answer, hrdy]
          · simp [happ, BridgeApp.next, hs, Controller.answer, hrdy]
          · simp [happ, BridgeApp.next, hs, Controller.answer, hrdy, hreq, hr]
          · rw [hlines, hreq, ← hl]
            simp [happ, BridgeApp.next, hs, Controller.answer, hrdy, hr]

/-- The app side answers: its toggle flips, and nothing of it has reached the bus side yet. -/
theorem Works.flip (w : s.Works g) (hs : s.app.state = .ack) {x : ControllerIn}
    (hx : e.app = some x) :
    (s.next e).Waits (s.logNext e g) ∧ (s.next e).ReqSettled ∧
      (s.next e).bus.req = s.bus.req ∧ (s.next e).app.rspToggle = !s.app.rspToggle ∧
      (s.next e).bus.rspToggleSeen = s.app.rspToggle ∧
      (s.next e).bus.rspToggleMeta = s.app.rspToggle ∧
      (s.next e).bus.rspToggleSync = s.app.rspToggle := by
  obtain ⟨hw, hreq, hrsp, -, -⟩ := w
  obtain ⟨b1, b2, b3, b4⟩ := hw.busNext (e := e) (by rw [hrsp.rspAtSync, hrsp.rspSeen])
  have happ := (next_of_app (s := s) hx).1
  obtain ⟨c1, c2, -, -⟩ := next_sync (s.ddr.answer x) s.bus s.app
  have c3 := (next_keeps (s.ddr.answer x) s.bus s.app).1 (by rw [hs]; decide)
  refine ⟨b1, ⟨?_, ?_, ?_⟩, b3, ?_, b4.trans hrsp.rspSeen, ?_⟩
  · rw [happ, c1, b2]
  · rw [happ, c2, hreq.reqAtMeta, b2]
  · rw [happ, c3, hreq.reqSeen, b2]
  · simp [happ, BridgeApp.next, hs]
  · rcases busNext_sync e s with ⟨r1, r2, -, -⟩ | ⟨r1, r2, -, -⟩
    · exact ⟨r1.trans hrsp.rspAtMeta, r2.trans hrsp.rspAtSync⟩
    · exact ⟨r1, r2.trans hrsp.rspAtMeta⟩

/-- Without an edge of its clock the app side still waits to answer. -/
theorem Works.holds (w : s.Works g) (hx : e.app = none) :
    (s.next e).Works (s.logNext e g) ∧ (s.next e).bus.req = s.bus.req := by
  obtain ⟨hw, hreq, hrsp, hm, hs⟩ := w
  obtain ⟨b1, b2, b3, b4⟩ := hw.busNext (e := e) (by rw [hrsp.rspAtSync, hrsp.rspSeen])
  have happ := (next_of_no_app (s := s) (g := g) hx).1
  refine ⟨⟨b1, ⟨?_, ?_, ?_⟩, ?_, ?_, ?_⟩, b3⟩
  · rw [happ, b2, hreq.reqAtMeta]
  · rw [happ, b2, hreq.reqAtSync]
  · rw [happ, b2, hreq.reqSeen]
  · rcases busNext_sync e s with ⟨r1, r2, -, -⟩ | ⟨r1, r2, -, -⟩
    · exact ⟨by rw [r1, happ, hrsp.rspAtMeta], by rw [r2, happ, hrsp.rspAtSync],
        by rw [b4, happ, hrsp.rspSeen]⟩
    · exact ⟨by rw [r1, happ], by rw [r2, happ, hrsp.rspAtMeta], by rw [b4, happ, hrsp.rspSeen]⟩
  · rw [happ, hm, b3]
  · rw [happ, hs, b3]

theorem readDone_next (w : s.Works g) (hs : s.app.state = .ack) (hen : s.app.cmdEn = false)
    (hb : s.ddr.beats = []) (hr : s.app.appReq = s.bus.req) (hwe : s.bus.req.we = false)
    (x : s.Executed m g s.app.rspDatR) : (s.next e).Crossing m (s.logNext e g) := by
  have hb' := next_beats (e := e) hen hb
  have hacked := (w.toWaits.log (e := e)).2
  cases hx : e.app with
  | none =>
      obtain ⟨w', hreq⟩ := w.holds hx
      have happ := (next_of_no_app (s := s) (g := g) hx).1
      exact .readDone w' (by rw [happ, hs]) (by rw [happ, hen]) hb' (by rw [happ, hr, hreq])
        (by rw [hreq, hwe]) (x.next hacked hen hreq (fun _ => by rw [happ]))
  | some y =>
      obtain ⟨b1, b2, hreq, b4, b5, b6, b7⟩ := w.flip hs hx
      have happ := (next_of_app (s := s) hx).1
      refine .done b1 b2 ⟨?_, ?_, hb'⟩ (x.next hacked hen hreq (fun _ => ?_)) ?_ ?_ ?_
      · simp [happ, BridgeApp.next, hs]
      · simp [happ, BridgeApp.next, hs]
      · simp [happ, BridgeApp.next, hs]
      · rw [b4, b5, Bool.not_not]
      · intro h
        rw [b4, b6] at h
        simp at h
      · intro h
        rw [b4, b7] at h
        simp at h

theorem writing_next (w : s.Works g) (hs : s.app.state = .ack) (hen : s.app.cmdEn = true)
    (hcmd : s.app.cmd = 0#3) (hwren : s.app.wren = true)
    (hadr : s.app.addr = appLineAddr s.bus.req.addr)
    (hdata : s.app.data = mergeWord (s.ddr.lines (lineOf s.bus.req.addr))
      (wordSel s.bus.req.addr) s.bus.req.datW s.bus.req.sel)
    (hb : s.ddr.beats = []) (hwe : s.bus.req.we = true) (l : s.LineRead m g) :
    (s.next e).Crossing m (s.logNext e g) := by
  cases hx : e.app with
  | none =>
      obtain ⟨w', hreq⟩ := w.holds hx
      obtain ⟨happ, hddr, hperf⟩ := next_of_no_app (s := s) (g := g) hx
      refine .writing w' (by rw [happ, hs]) (by rw [happ, hen]) (by rw [happ, hcmd])
        (by rw [happ, hwren]) (by rw [happ, hadr, hreq]) (by rw [happ, hddr, hdata, hreq])
        (by rw [hddr, hb]) (by rw [hreq, hwe]) ⟨?_, ?_⟩
      · rw [hperf, w.base, l.performed, hreq]
      · rw [hddr, w.base, l.memory]
  | some y =>
      obtain ⟨b1, b2, hreq, b4, b5, b6, b7⟩ := w.flip hs hx
      obtain ⟨happ, hddr⟩ := next_of_app (s := s) hx
      have hline : Controller.cmdLine s.app = lineOf s.bus.req.addr := by
        rw [Controller.cmdLine, hadr, appLineAddr_line]
      refine .done b1 b2 ⟨?_, ?_, ?_⟩ ⟨?_, ?_, fun h => ?_⟩ ?_ ?_ ?_
      · simp [happ, BridgeApp.next, hs]
      · simp [happ, BridgeApp.next, hs]
      · simp [hddr, Controller.next, hb, hcmd]
      · rw [w.base, hreq, List.flatMap_cons]
        simp [logNext, hx, hen, hwren, hline, l.performed, BridgeReq.commands, hwe]
      · rw [w.base, hreq]
        show bytesOf (s.next e).ddr.lines = ByteMem.apply s.bus.req (m.after (g.acked.map Prod.fst))
        rw [← l.memory, ByteMem.apply, hwe, if_pos rfl, ← bytesOf_write, ← hdata]
        simp [hddr, Controller.next, hen, hcmd, hwren, hline]
      · rw [hreq, hwe] at h
        cases h
      · rw [b4, b5, Bool.not_not]
      · intro h
        rw [b4, b6] at h
        simp at h
      · intro h
        rw [b4, b7] at h
        simp at h

/-- The app side rests as long as it sees no new toggle. -/
theorem Rests.next (r : s.Rests) (h : s.app.reqToggleSync = s.app.reqToggleSeen) :
    (s.next e).Rests ∧ (s.next e).app.reqToggleSeen = s.app.reqToggleSeen ∧
      (s.next e).app.rspToggle = s.app.rspToggle ∧ (s.next e).app.rspDatR = s.app.rspDatR := by
  obtain ⟨r1, r2, r3⟩ := r
  have hb := next_beats (e := e) r2 r3
  cases hx : e.app with
  | none =>
      have happ := (next_of_no_app (s := s) (g := BridgeLog.reset) hx).1
      exact ⟨⟨by rw [happ, r1], by rw [happ, r2], hb⟩, by rw [happ], by rw [happ], by rw [happ]⟩
  | some x =>
      have happ := (next_of_app (s := s) hx).1
      have hidle : s.app.next (s.ddr.answer x) s.bus =
          { s.app with
            reqToggleMeta := s.bus.reqToggle, reqToggleSync := s.app.reqToggleMeta
            reqMeta := s.bus.req, reqSync := s.app.reqMeta
            cmdEn := false, wren := false, dataEnd := false } := by
        simp [BridgeApp.next, r1, h]
      rw [hidle] at happ
      exact ⟨⟨by rw [happ]; exact r1, by rw [happ], hb⟩, by rw [happ], by rw [happ], by rw [happ]⟩

/-- While the toggle of the bus side stays, a settled toggle stays settled. -/
theorem ReqSettled.next (q : s.ReqSettled) (r : s.Rests)
    (h : (s.next e).bus.reqToggle = s.bus.reqToggle) : (s.next e).ReqSettled := by
  obtain ⟨q1, q2, q3⟩ := q
  have hseen := (r.next (e := e) (q2.trans q3.symm)).2.1
  refine ⟨?_, ?_, by rw [hseen, q3, h]⟩
  · cases hx : e.app with
    | none => rw [(next_of_no_app (s := s) (g := BridgeLog.reset) hx).1, q1, h]
    | some x => rw [(next_of_app (s := s) hx).1, (next_sync _ _ _).1, h]
  · cases hx : e.app with
    | none => rw [(next_of_no_app (s := s) (g := BridgeLog.reset) hx).1, q2, h]
    | some x => rw [(next_of_app (s := s) hx).1, (next_sync _ _ _).2.1, q1, h]

/-- While the toggle of the app side stays, a settled toggle stays settled. -/
theorem RspSettled.next (q : s.RspSettled) (h1 : (s.next e).app.rspToggle = s.app.rspToggle)
    (h2 : (s.next e).bus.rspToggleSeen = s.bus.rspToggleSeen) : (s.next e).RspSettled := by
  obtain ⟨q1, q2, q3⟩ := q
  rcases busNext_sync e s with ⟨r1, r2, -, -⟩ | ⟨r1, r2, -, -⟩
  · exact ⟨by rw [r1, h1, q1], by rw [r2, h1, q2], by rw [h2, h1, q3]⟩
  · exact ⟨by rw [r1, h1], by rw [r2, h1, q1], by rw [h2, h1, q3]⟩

/-- The toggle of a request reaches the app side. -/
theorem posted_next (w : s.Waits g) (rsp : s.RspSettled) (r : s.Rests) (u : s.Untouched m g)
    (hun : s.app.reqToggleSeen = !s.bus.reqToggle)
    (hm : s.app.reqToggleMeta = s.bus.reqToggle → s.app.reqMeta = s.bus.req)
    (hs : s.app.reqToggleSync = s.bus.reqToggle →
      s.app.reqToggleMeta = s.bus.reqToggle ∧ s.app.reqSync = s.bus.req) :
    (s.next e).Crossing m (s.logNext e g) := by
  obtain ⟨w', b2, hreq, b4⟩ := w.busNext (e := e) (by rw [rsp.rspAtSync, rsp.rspSeen])
  have u' := u.next (e := e) w r.cmdEn
  have hb' := next_beats (e := e) r.cmdEn r.beats
  cases hx : e.app with
  | none =>
      have happ := (next_of_no_app (s := s) (g := g) hx).1
      refine .posted w' (rsp.next (by rw [happ]) b4) ⟨by rw [happ, r.state], by rw [happ, r.cmdEn], hb'⟩
        u' (by rw [happ, hun, b2]) ?_ ?_
      · rw [happ, b2, hreq]
        exact hm
      · rw [happ, b2, hreq]
        exact hs
  | some x =>
      have happ := (next_of_app (s := s) hx).1
      obtain ⟨c1, c2, c3, c4⟩ := next_sync (s.ddr.answer x) s.bus s.app
      by_cases hgo : (s.app.reqToggleSync != s.app.reqToggleSeen && x.initCalibComplete) = true
      · have hsync : s.app.reqToggleSync = s.bus.reqToggle := by
          simp only [Bool.and_eq_true, bne_iff_ne, hun] at hgo
          cases h1 : s.app.reqToggleSync <;> cases h2 : s.bus.reqToggle <;> simp_all
        obtain ⟨hmeta, hsyncReq⟩ := hs hsync
        have hgo' : (s.app.reqToggleSync != s.app.reqToggleSeen &&
            (s.ddr.answer x).initCalibComplete) = true := hgo
        have hstep : (s.next e).app.state = .capture ∧
            (s.next e).app.reqToggleSeen = s.app.reqToggleSync ∧
            (s.next e).app.rspToggle = s.app.rspToggle ∧ (s.next e).app.cmdEn = false := by
          rw [happ]
          simp only [BridgeApp.next, r.state, hgo', if_true, and_self]
        obtain ⟨s1, s2, s3, s4⟩ := hstep
        refine .capture ⟨w', ⟨?_, ?_, ?_⟩, rsp.next s3 b4, ?_, ?_⟩ s1 s4 hb' u'
        · rw [happ, c1, b2]
        · rw [happ, c2, hmeta, b2]
        · rw [s2, hsync, b2]
        · rw [happ, c3, hreq]
        · rw [happ, c4, hm hmeta, hreq]
      · have hstay : (s.next e).app.state = .idle ∧
            (s.next e).app.reqToggleSeen = s.app.reqToggleSeen ∧
            (s.next e).app.rspToggle = s.app.rspToggle ∧ (s.next e).app.cmdEn = false := by
          rw [happ]
          have hgo' : ¬ (s.app.reqToggleSync != s.app.reqToggleSeen &&
            (s.ddr.answer x).initCalibComplete) = true := hgo
          simp only [BridgeApp.next, r.state, if_neg hgo', and_self]
        obtain ⟨s1, s2, s3, s4⟩ := hstay
        refine .posted w' (rsp.next s3 b4) ⟨s1, s4, hb'⟩ u' (by rw [s2, hun, b2]) ?_ ?_
        · intro _
          rw [happ, c3, hreq]
        · intro h
          rw [happ, c2, b2] at h
          rw [happ, c1, c4, b2, hreq]
          exact ⟨rfl, hm h⟩

/-- The toggle of an answer reaches the bus side. -/
theorem done_next (w : s.Waits g) (q : s.ReqSettled) (r : s.Rests)
    (x : s.Executed m g s.app.rspDatR) (hun : s.bus.rspToggleSeen = !s.app.rspToggle)
    (hm : s.bus.rspToggleMeta = s.app.rspToggle → s.bus.rspDatRMeta = s.app.rspDatR)
    (hs : s.bus.rspToggleSync = s.app.rspToggle →
      s.bus.rspToggleMeta = s.app.rspToggle ∧ s.bus.rspDatRSync = s.app.rspDatR) :
    (s.next e).Crossing m (s.logNext e g) := by
  obtain ⟨r', -, a2, a3⟩ := r.next (e := e) (q.reqAtSync.trans q.reqSeen.symm)
  obtain ⟨hacc, hacked⟩ := w.log (e := e)
  have hword : s.bus.req.we = false → (s.next e).app.rspDatR = s.app.rspDatR := fun _ => a3
  cases hx : e.clk with
  | none =>
      have hbus : (s.next e).bus = s.bus := by simp [DualClock.next, DualClock.busNext, hx]
      have w' : (s.next e).Waits (s.logNext e g) :=
        ⟨by rw [hbus, w.busy], by rw [hbus, w.notPending], by rw [hbus, w.noAck],
          by rw [hacc, hacked, w.accepted, hbus]⟩
      refine .done w' (q.next r (by rw [hbus])) r' (x.next hacked r.cmdEn (by rw [hbus]) hword) ?_ ?_ ?_
      · rw [hbus, a2, hun]
      · rw [hbus, a2, a3]
        exact hm
      · rw [hbus, a2, a3]
        exact hs
  | some y =>
      have hbus : (s.next e).bus = s.bus.next y s.app := by
        simp [DualClock.next, DualClock.busNext, hx]
      by_cases hans : s.bus.rspToggleSync = s.app.rspToggle
      · obtain ⟨hmeta, hdat⟩ := hs hans
        have hanswered : s.bus.answered = true := by
          simp [BridgeBus.answered, w.notPending, w.busy, hans, hun]
        have hstep : (s.next e).bus = { s.bus with
            ack := false, rspToggleMeta := s.app.rspToggle, rspToggleSync := s.bus.rspToggleMeta
            rspDatRMeta := s.app.rspDatR, rspDatRSync := s.bus.rspDatRMeta
            rspToggleSeen := s.bus.rspToggleSync, datR := s.bus.rspDatRSync
            rspAckPending := true } := by
          rw [hbus]
          simp [BridgeBus.next, w.notPending, hanswered]
        refine .answered (by rw [hstep]; exact w.busy) (by rw [hstep]) (by rw [hstep]) ?_
          (q.next r (by rw [hstep])) ⟨?_, ?_, ?_⟩ r'
          (x.next hacked r.cmdEn (by rw [hstep]) (fun _ => ?_))
        · rw [hacc, hacked, w.accepted, hstep]
        · rw [hstep, a2]
        · rw [hstep, a2]
          exact hmeta
        · rw [hstep, a2]
          exact hans
        · rw [hstep]
          exact hdat
      · have hsame : s.bus.rspToggleSync = s.bus.rspToggleSeen := by
          rw [hun]
          cases h1 : s.bus.rspToggleSync <;> cases h2 : s.app.rspToggle <;> simp_all
        obtain ⟨w', b2, hreq, b4⟩ := w.busNext (e := e) hsame
        have hstep : (s.next e).bus = { s.bus with
            ack := false, rspToggleMeta := s.app.rspToggle, rspToggleSync := s.bus.rspToggleMeta
            rspDatRMeta := s.app.rspDatR, rspDatRSync := s.bus.rspDatRMeta } := by
          rw [hbus]
          simp [BridgeBus.next, BridgeBus.answered, BridgeBus.accepts, w.notPending, w.busy, hsame]
        refine .done w' (q.next r b2) r' (x.next hacked r.cmdEn hreq hword) ?_ ?_ ?_
        · rw [b4, a2, hun]
        · rw [hstep, a3]
          exact fun _ => rfl
        · rw [hstep, a2, a3]
          exact fun h => ⟨rfl, hm h⟩

theorem answered_next (hbusy : s.bus.busy = true) (hp : s.bus.rspAckPending = true)
    (hno : s.bus.ack = false) (hacc : g.accepted = s.bus.req :: g.acked.map Prod.fst)
    (q : s.ReqSettled) (rsp : s.RspSettled) (r : s.Rests) (x : s.Executed m g s.bus.datR) :
    (s.next e).Crossing m (s.logNext e g) := by
  obtain ⟨r', -, a2, a3⟩ := r.next (e := e) (q.reqAtSync.trans q.reqSeen.symm)
  have hlog : (s.logNext e g).accepted = g.accepted ∧ (s.logNext e g).acked = g.acked := by
    constructor
    · simp only [logNext]
      cases e.clk <;> simp [BridgeBus.accepts, hbusy]
    · simp [logNext, hno]
  obtain ⟨hacc', hacked⟩ := hlog
  cases hx : e.clk with
  | none =>
      have hbus : (s.next e).bus = s.bus := by simp [DualClock.next, DualClock.busNext, hx]
      exact .answered (by rw [hbus, hbusy]) (by rw [hbus, hp]) (by rw [hbus, hno])
        (by rw [hacc', hacked, hacc, hbus]) (q.next r (by rw [hbus])) (rsp.next a2 (by rw [hbus])) r'
        (x.next hacked r.cmdEn (by rw [hbus]) (fun _ => by rw [hbus]))
  | some y =>
      have hstep : (s.next e).bus = { s.bus with
          rspToggleMeta := s.app.rspToggle, rspToggleSync := s.bus.rspToggleMeta
          rspDatRMeta := s.app.rspDatR, rspDatRSync := s.bus.rspDatRMeta
          ack := true, busy := false, rspAckPending := false } := by
        simp [DualClock.next, DualClock.busNext, hx, BridgeBus.next, hp]
      exact .acked (by rw [hstep]) (by rw [hstep]) (by rw [hstep])
        (by rw [hacc', hacked, hacc, hstep]) (q.next r (by rw [hstep])) (rsp.next a2 (by rw [hstep]))
        r' (x.next hacked r.cmdEn (by rw [hstep]) (fun _ => by rw [hstep]))

/-- The master takes the acknowledge at the next edge of `clk`. -/
theorem acked_next (hbusy : s.bus.busy = false) (hp : s.bus.rspAckPending = false)
    (hack : s.bus.ack = true) (hacc : g.accepted = s.bus.req :: g.acked.map Prod.fst)
    (q : s.ReqSettled) (rsp : s.RspSettled) (r : s.Rests) (x : s.Executed m g s.bus.datR) :
    (s.next e).Crossing m (s.logNext e g) := by
  obtain ⟨r', -, a2, a3⟩ := r.next (e := e) (q.reqAtSync.trans q.reqSeen.symm)
  have hacc' : (s.logNext e g).accepted = g.accepted := by
    simp only [logNext]
    cases e.clk <;> simp [BridgeBus.accepts, hack]
  cases hx : e.clk with
  | none =>
      have hbus : (s.next e).bus = s.bus := by simp [DualClock.next, DualClock.busNext, hx]
      have hacked : (s.logNext e g).acked = g.acked := by simp [logNext, hx]
      exact .acked (by rw [hbus, hbusy]) (by rw [hbus, hp]) (by rw [hbus, hack])
        (by rw [hacc', hacked, hacc, hbus]) (q.next r (by rw [hbus])) (rsp.next a2 (by rw [hbus])) r'
        (x.next hacked r.cmdEn (by rw [hbus]) (fun _ => by rw [hbus]))
  | some y =>
      have hstep : (s.next e).bus = { s.bus with
          ack := false, rspToggleMeta := s.app.rspToggle, rspToggleSync := s.bus.rspToggleMeta
          rspDatRMeta := s.app.rspDatR, rspDatRSync := s.bus.rspDatRMeta } := by
        simp [DualClock.next, DualClock.busNext, hx, BridgeBus.next, BridgeBus.answered,
          BridgeBus.accepts, hp, hbusy, hack]
      have hacked : (s.logNext e g).acked = (s.bus.req, s.bus.datR) :: g.acked := by
        simp [logNext, hx, hack]
      have hlines : (s.next e).ddr.lines = s.ddr.lines := by
        cases hy : e.app with
        | none => rw [(next_of_no_app (s := s) (g := g) hy).2.1]
        | some z => simp [(next_of_app (s := s) hy).2, Controller.next, r.cmdEn]
      refine .free (by rw [hstep, hbusy]) (by rw [hstep, hp]) (by rw [hstep])
        (q.next r (by rw [hstep])) (rsp.next a2 (by rw [hstep])) r' ?_ ⟨?_, ?_⟩
      · rw [hacc', hacked, hacc]
        rfl
      · rw [logNext_performed r.cmdEn, hacked, x.performed]
        rfl
      · rw [hlines, hacked, x.memory]
        rfl

/-- A free bridge stays free or accepts a request. -/
theorem free_next (hbusy : s.bus.busy = false) (hp : s.bus.rspAckPending = false)
    (hno : s.bus.ack = false) (q : s.ReqSettled) (rsp : s.RspSettled) (r : s.Rests)
    (hacc : g.accepted = g.acked.map Prod.fst) (u : s.Untouched m g) :
    (s.next e).Crossing m (s.logNext e g) := by
  obtain ⟨r', a1, a2, a3⟩ := r.next (e := e) (q.reqAtSync.trans q.reqSeen.symm)
  have hacked : (s.logNext e g).acked = g.acked := by simp [logNext, hno]
  have hlines : (s.next e).ddr.lines = s.ddr.lines := by
    cases hy : e.app with
    | none => rw [(next_of_no_app (s := s) (g := g) hy).2.1]
    | some z => simp [(next_of_app (s := s) hy).2, Controller.next, r.cmdEn]
  have u' : (s.next e).Untouched m (s.logNext e g) :=
    ⟨by rw [logNext_performed r.cmdEn, hacked, u.performed], by rw [hlines, hacked, u.memory]⟩
  have hans : s.bus.answered = false := by simp [BridgeBus.answered, hbusy]
  have hstay : ((s.next e).bus.busy = false ∧ (s.next e).bus.rspAckPending = false ∧
      (s.next e).bus.ack = false ∧ (s.next e).bus.reqToggle = s.bus.reqToggle ∧
      (s.next e).bus.rspToggleSeen = s.bus.rspToggleSeen) →
      (s.logNext e g).accepted = g.accepted → (s.next e).Crossing m (s.logNext e g) := by
    rintro ⟨b1, b2, b3, b4, b5⟩ hsame
    exact .free b1 b2 b3 (q.next r b4) (rsp.next a2 b5) r' (by rw [hsame, hacked, hacc]) u'
  cases hx : e.clk with
  | none =>
      have hbus : (s.next e).bus = s.bus := by simp [DualClock.next, DualClock.busNext, hx]
      refine hstay ?_ (by simp [logNext, hx])
      rw [hbus]
      exact ⟨hbusy, hp, hno, rfl, rfl⟩
  | some y =>
      have hbus : (s.next e).bus = s.bus.next y s.app := by
        simp [DualClock.next, DualClock.busNext, hx]
      by_cases hgo : s.bus.accepts y = true
      · have hstep : (s.next e).bus = { s.bus with
            ack := false, rspToggleMeta := s.app.rspToggle, rspToggleSync := s.bus.rspToggleMeta
            rspDatRMeta := s.app.rspDatR, rspDatRSync := s.bus.rspDatRMeta
            req := { we := y.we, addr := y.adr, datW := y.datW, sel := y.sel }
            reqToggle := !s.bus.reqToggle, busy := true } := by
          rw [hbus]
          simp [BridgeBus.next, hp, hans, hgo]
        -- the app side still holds the old toggle
        have hold : (s.next e).app.reqToggleMeta = s.bus.reqToggle ∧
            (s.next e).app.reqToggleSync = s.bus.reqToggle := by
          cases hy : e.app with
          | none =>
              rw [(next_of_no_app (s := s) (g := g) hy).1]
              exact ⟨q.reqAtMeta, q.reqAtSync⟩
          | some z =>
              obtain ⟨c1, c2, -, -⟩ := next_sync (s.ddr.answer z) s.bus s.app
              rw [(next_of_app (s := s) hy).1]
              exact ⟨c1, c2.trans q.reqAtMeta⟩
        refine .posted ⟨by rw [hstep], by rw [hstep]; exact hp, by rw [hstep], ?_⟩
          (rsp.next a2 (by rw [hstep])) r' u' ?_ ?_ ?_
        · rw [hacked, hstep, ← hacc]
          simp [logNext, hx, hgo]
        · rw [a1, q.reqSeen, hstep, Bool.not_not]
        · intro h
          rw [hold.1, hstep] at h
          simp at h
        · intro h
          rw [hold.2, hstep] at h
          simp at h
      · have hstep : (s.next e).bus = { s.bus with
            ack := false, rspToggleMeta := s.app.rspToggle, rspToggleSync := s.bus.rspToggleMeta
            rspDatRMeta := s.app.rspDatR, rspDatRSync := s.bus.rspDatRMeta } := by
          rw [hbus]
          simp [BridgeBus.next, hp, hans, hgo]
        refine hstay ?_ (by simp [logNext, hx, hgo])
        rw [hstep]
        exact ⟨hbusy, hp, rfl, rfl, rfl⟩

/-- **Every request goes from stage to stage.** -/
theorem Crossing.next (c : s.Crossing m g) (e : Edges) :
    (s.next e).Crossing m (s.logNext e g) := by
  cases c with
  | free busy pending noAck req rsp rests accepted untouched =>
      exact free_next busy pending noAck req rsp rests accepted untouched
  | posted waits rsp rests untouched unseen atMeta atSync =>
      exact posted_next waits rsp rests untouched unseen atMeta atSync
  | capture works state cmdEn beats untouched => exact capture_next works state cmdEn beats untouched
  | readCmd works state cmdEn beats appReq untouched =>
      exact readCmd_next works state cmdEn beats appReq untouched
  | reading works state cmdEn cmd wren addr beats appReq untouched =>
      exact reading_next works state cmdEn cmd wren addr beats appReq untouched
  | readWait works state cmdEn beats appReq lineRead =>
      exact readWait_next works state cmdEn beats appReq lineRead
  | readDone works state cmdEn beats appReq read executed =>
      exact readDone_next works state cmdEn beats appReq read executed
  | writeCmd works state cmdEn beats appReq write line lineRead =>
      exact writeCmd_next works state cmdEn beats appReq write line lineRead
  | writing works state cmdEn cmd wren addr data beats write lineRead =>
      exact writing_next works state cmdEn cmd wren addr data beats write lineRead
  | done waits req rests executed unseen atMeta atSync =>
      exact done_next waits req rests executed unseen atMeta atSync
  | answered busy pending noAck accepted req rsp rests executed =>
      exact answered_next busy pending noAck accepted req rsp rests executed
  | acked busy pending ack accepted req rsp rests executed =>
      exact acked_next busy pending ack accepted req rsp rests executed

/-- What a stage says about the requests so far. -/
theorem Crossing.acks (c : s.Crossing m g) :
    g.accepted = (if s.bus.busy || s.bus.ack then [s.bus.req] else []) ++ g.acked.map Prod.fst := by
  cases c with
  | free busy _ noAck _ _ _ accepted => simp [busy, noAck, accepted]
  | posted waits => simp [waits.busy, waits.accepted]
  | capture works => simp [works.busy, works.accepted]
  | readCmd works => simp [works.busy, works.accepted]
  | reading works => simp [works.busy, works.accepted]
  | readWait works => simp [works.busy, works.accepted]
  | readDone works => simp [works.busy, works.accepted]
  | writeCmd works => simp [works.busy, works.accepted]
  | writing works => simp [works.busy, works.accepted]
  | done waits => simp [waits.busy, waits.accepted]
  | answered busy _ _ accepted => simp [busy, accepted]
  | acked _ _ ack accepted => simp [ack, accepted]

/-- Between requests everything has been executed. -/
theorem Crossing.settled (c : s.Crossing m g) (h : s.bus.busy = false) :
    g.performed = g.accepted.flatMap BridgeReq.commands ∧
      bytesOf s.ddr.lines = m.after g.accepted := by
  cases c with
  | free _ _ _ _ _ _ accepted untouched =>
      rw [accepted]
      exact ⟨untouched.performed, untouched.memory⟩
  | acked _ _ _ accepted _ _ _ executed =>
      rw [accepted]
      exact ⟨executed.performed, executed.memory⟩
  | posted waits => rw [waits.busy] at h; cases h
  | capture works => rw [works.busy] at h; cases h
  | readCmd works => rw [works.busy] at h; cases h
  | reading works => rw [works.busy] at h; cases h
  | readWait works => rw [works.busy] at h; cases h
  | readDone works => rw [works.busy] at h; cases h
  | writeCmd works => rw [works.busy] at h; cases h
  | writing works => rw [works.busy] at h; cases h
  | done waits => rw [waits.busy] at h; cases h
  | answered busy => rw [busy] at h; cases h

/-- The word in an acknowledge. -/
theorem Crossing.ackWord (c : s.Crossing m g) (h : s.bus.ack = true)
    (hwe : s.bus.req.we = false) :
    s.bus.datR = (m.after (g.acked.map Prod.fst)).word s.bus.req.addr := by
  cases c with
  | acked _ _ _ _ _ _ _ executed => exact executed.word hwe
  | free _ _ noAck => rw [noAck] at h; cases h
  | posted waits => rw [waits.noAck] at h; cases h
  | capture works => rw [works.noAck] at h; cases h
  | readCmd works => rw [works.noAck] at h; cases h
  | reading works => rw [works.noAck] at h; cases h
  | readWait works => rw [works.noAck] at h; cases h
  | readDone works => rw [works.noAck] at h; cases h
  | writeCmd works => rw [works.noAck] at h; cases h
  | writing works => rw [works.noAck] at h; cases h
  | done waits => rw [waits.noAck] at h; cases h
  | answered _ _ noAck => rw [noAck] at h; cases h

theorem answersOk_next (c : s.Crossing m g) (h : AnswersOk m g.acked) :
    AnswersOk m (s.logNext e g).acked := by
  by_cases hack : (e.clk.isSome && s.bus.ack) = true
  · have hlog : (s.logNext e g).acked = (s.bus.req, s.bus.datR) :: g.acked := by
      simp [logNext, hack]
    rw [hlog]
    exact ⟨c.ackWord (Bool.and_eq_true _ _ ▸ hack).2, h⟩
  · have hlog : (s.logNext e g).acked = g.acked := by simp [logNext, hack]
    rw [hlog]
    exact h

end DualClock

/-! ## Runs -/

/-- The bridge and its controller after the first `n` instants. -/
def dualRun (lines : Lines) (inp : Nat → Edges) (n : Nat) : DualClock :=
  Clocked.run DualClock.next inp (DualClock.reset lines) n

/-- What has happened by then. -/
def dualLog (lines : Lines) (inp : Nat → Edges) (n : Nat) : BridgeLog :=
  Clocked.history DualClock.next (fun e s g => s.logNext e g) inp (DualClock.reset lines)
    BridgeLog.reset n

theorem dualRun_crossing (lines : Lines) (inp : Nat → Edges) (n : Nat) :
    (dualRun lines inp n).Crossing (bytesOf lines) (dualLog lines inp n) ∧
      AnswersOk (bytesOf lines) (dualLog lines inp n).acked :=
  Clocked.history_invariant
    (P := fun (s : DualClock) g => s.Crossing (bytesOf lines) g ∧ AnswersOk (bytesOf lines) g.acked)
    (C := fun _ _ => True) ⟨DualClock.crossing_reset lines, trivial⟩
    (fun e _ _ _ h => ⟨h.1.next e, DualClock.answersOk_next h.1 h.2⟩) (fun _ _ => trivial)

end MelonSoc
