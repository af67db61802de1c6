import MelonSoc.Lib.Clocked
import MelonSoc.Rtl.SdHost

set_option autoImplicit false

/-! # Commands of the SD host

Software writes the status register at any time, the machine moves at the edges of the SD clock
only. Between them a command can get lost: while the machine is in `S_DONE` it writes the status
in every cycle, and until the falling edge that takes the command the registers of the command are
open. Outside of these windows each START is one frame on the line.
-/

namespace MelonSoc

namespace SdHost

/-! ## What software asks for -/

/-- START, with `BUSY` read as 0. -/
def asks (b : WbReq) (r : Regs) : Bool :=
  Regs.writes b ioSdCtrlAddr && b.datW.getLsbD 0 && !r.status.busy

/-- CLEAR, with `BUSY` read as 0. -/
def clears (b : WbReq) (r : Regs) : Bool :=
  Regs.writes b ioSdCtrlAddr && b.datW.getLsbD 1 && !r.status.busy

/-- A write that changes CMD. -/
def changesCmd (b : WbReq) (r : Regs) : Bool :=
  Regs.writes b ioSdCmdAddr && b.datW.setWidth 6 != r.cmdIdx

/-- A write that changes CMD or ARG. -/
def changes (b : WbReq) (r : Regs) : Bool :=
  changesCmd b r || Regs.writes b ioSdArgAddr && b.datW != r.cmdArg

section Writes

variable {b : WbReq} {r : Regs} {state : State} {opError : Bool}

/-- A write goes to one register. -/
theorem writes_one {c d : Word} (h : Regs.writes b c = true) (hcd : c ≠ d) :
    Regs.writes b d = false := by
  simp only [Regs.writes, Bool.and_eq_true, beq_iff_eq] at h
  simp [Regs.writes, h.2, hcd]

theorem mmioWrite_asks (h : asks b r = true) :
    r.mmioWrite b = { r with
      startRead := b.datW.getLsbD 3
      status := { busy := true, done := false, err := false, read := b.datW.getLsbD 3 } } := by
  simp only [asks, Bool.and_eq_true, Bool.not_eq_true'] at h
  have hcmd : Regs.writes b ioSdCmdAddr = false := writes_one h.1.1 (by decide)
  have harg : Regs.writes b ioSdArgAddr = false := writes_one h.1.1 (by decide)
  simp only [Regs.mmioWrite, hcmd, harg, h.1.1, Regs.writeCtrl, h.1.2, h.2, Bool.not_false,
    Bool.and_self, Bool.false_eq_true, if_true, if_false]
  split_ifs <;> rfl

/-- Without a START the status can lose `DONE` and `ERR`, nothing else. -/
theorem mmioWrite_status (h : asks b r = false) :
    (r.mmioWrite b).startRead = false ∧
      (r.mmioWrite b).status =
        if Regs.writes b ioSdCtrlAddr && b.datW.getLsbD 1
        then { r.status with done := false, err := false } else r.status := by
  by_cases hctrl : Regs.writes b ioSdCtrlAddr = true
  · have hcmd : Regs.writes b ioSdCmdAddr = false := writes_one hctrl (by decide)
    have harg : Regs.writes b ioSdArgAddr = false := writes_one hctrl (by decide)
    have hno : (b.datW.getLsbD 0 && !r.status.busy) = false := by
      rw [asks, hctrl, Bool.true_and] at h
      exact h
    simp only [Regs.mmioWrite, hcmd, harg, hctrl, Regs.writeCtrl, hno, Bool.true_and,
      Bool.false_eq_true, if_true, if_false]
    split_ifs <;> exact ⟨rfl, rfl⟩
  · simp only [Regs.mmioWrite, hctrl, Bool.false_and, Bool.false_eq_true, if_false]
    split_ifs <;> exact ⟨rfl, rfl⟩

theorem next_of_ne (h : state ≠ .done) : r.next b state opError = r.mmioWrite b := if_neg h

theorem next_cmdIdx (h : changesCmd b r = false) : (r.next b state opError).cmdIdx = r.cmdIdx := by
  have hw : (r.mmioWrite b).cmdIdx = r.cmdIdx := by
    by_cases hcmd : Regs.writes b ioSdCmdAddr = true
    · rw [changesCmd, hcmd, Bool.true_and, bne_eq_false_iff_eq] at h
      simp [Regs.mmioWrite, hcmd, h]
    · by_cases hask : asks b r = true
      · rw [mmioWrite_asks hask]
      · simp only [Regs.mmioWrite, hcmd, Bool.false_eq_true, if_false, Regs.writeCtrl]
        split_ifs <;> rfl
  rw [Regs.next]
  split_ifs
  · exact hw
  · exact hw

theorem next_cmdArg (h : changes b r = false) : (r.next b state opError).cmdArg = r.cmdArg := by
  rw [changes, Bool.or_eq_false_iff] at h
  have hw : (r.mmioWrite b).cmdArg = r.cmdArg := by
    by_cases harg : Regs.writes b ioSdArgAddr = true
    · have hsame := h.2
      rw [harg, Bool.true_and, bne_eq_false_iff_eq] at hsame
      have hcmd : Regs.writes b ioSdCmdAddr = false := writes_one harg (by decide)
      simp [Regs.mmioWrite, harg, hcmd, hsame]
    · simp only [Regs.mmioWrite, harg, Bool.false_eq_true, if_false, Regs.writeCtrl]
      split_ifs <;> rfl
  rw [Regs.next]
  split_ifs
  · exact hw
  · exact hw

end Writes

/-! ## The edges of the SD clock -/

/-- A falling edge of the SD clock in this cycle. -/
def falls (D : Dividers) (s : SdHost) : Bool := s.fsm.ticks D s.regs && s.fsm.sdclkQ

/-- A rising edge of the SD clock in this cycle. -/
def rises (D : Dividers) (s : SdHost) : Bool := s.fsm.ticks D s.regs && !s.fsm.sdclkQ

/-- The machine waits for the card. -/
def State.answering : State → Bool
  | .respWait | .respBits | .busyWait | .dataWait | .dataBits | .dataCrc | .dataEnd => true
  | _ => false

section Edges

variable {D : Dividers} {i : In} {s : SdHost}

theorem fsm_next_fall (h : falls D s = true) : (s.next D i).fsm =
    { s.fsm.fall s.regs with sdclkDiv := 0, sdclkQ := false } := by
  simp only [falls, Bool.and_eq_true] at h
  simp [SdHost.next, Fsm.next, h]

theorem fsm_next_rise (h : rises D s = true) : (s.next D i).fsm =
    { s.fsm.rise s.regs (s.fsm.sdcmd i) (i.dat.getLsbD 0) with
      sdclkDiv := 0, sdclkQ := true } := by
  simp only [rises, Bool.and_eq_true, Bool.not_eq_true'] at h
  simp [SdHost.next, Fsm.next, h]

theorem fsm_next_wait (h : s.fsm.ticks D s.regs = false) : (s.next D i).fsm =
    { s.fsm with sdclkDiv := (s.fsm.sdclkDiv + 1) % 256 } := by
  simp [SdHost.next, Fsm.next, h]

/-- Away from the falling edges the machine moves only where it waits for the card. -/
theorem fsm_next_quiet (h : falls D s = false) (hs : s.fsm.state.answering = false) :
    ∃ d q, (s.next D i).fsm = { s.fsm with sdclkDiv := d, sdclkQ := q } := by
  by_cases ht : s.fsm.ticks D s.regs = true
  · have hq : s.fsm.sdclkQ = false := by
      rw [falls, ht, Bool.true_and] at h
      exact h
    have hstill : s.fsm.rise s.regs (s.fsm.sdcmd i) (i.dat.getLsbD 0) = s.fsm := by
      cases hst : s.fsm.state <;> simp [hst, State.answering] at hs <;> simp [Fsm.rise, hst]
    rw [fsm_next_rise (by simp [rises, ht, hq]), hstill]
    exact ⟨0, true, rfl⟩
  · exact ⟨_, s.fsm.sdclkQ, fsm_next_wait (by simpa using ht)⟩

/-- While it waits for the card the machine leaves the line alone. -/
theorem fsm_next_answering (hs : s.fsm.state.answering = true) :
    ((s.next D i).fsm.state.answering = true ∨ (s.next D i).fsm.state = .done) ∧
      (s.next D i).fsm.sdcmdOe = s.fsm.sdcmdOe := by
  by_cases ht : s.fsm.ticks D s.regs = true
  · by_cases hq : s.fsm.sdclkQ = true
    · have hstill : s.fsm.fall s.regs = s.fsm := by
        cases hst : s.fsm.state <;> simp [hst, State.answering] at hs <;> simp [Fsm.fall, hst]
      rw [fsm_next_fall (by simp [falls, ht, hq]), hstill]
      exact ⟨.inl hs, rfl⟩
    · rw [fsm_next_rise (by simp [rises, ht, hq])]
      generalize s.fsm.sdcmd i = c
      cases hst : s.fsm.state <;> simp [hst, State.answering] at hs <;>
        simp only [Fsm.rise, hst] <;> try split_ifs
      all_goals simp [State.answering]
  · rw [fsm_next_wait (by simpa using ht)]
    exact ⟨.inl hs, rfl⟩

end Edges

/-! ## One START, one frame -/

/-- The level of `sdcmd` while no card drives it. -/
def line (f : Fsm) : Bool := if f.sdcmdOe then f.sdcmdOut else true

/-- The START written last: the command it is for, the levels of the line in the SD clock cycles
since, and whether its operation has ended. -/
structure Job where
  cmd : BitVec 6
  arg : Word
  put : List Bool
  complete : Bool

/-- The line shows nothing but the frame. -/
def Job.Whole (j : Job) : Prop :=
  ∃ k m, j.put = List.replicate k true ++ msbFirst (cmdFrame j.cmd j.arg) ++ List.replicate m true

/-- The line shows the first `t` bits of the frame. -/
def Job.Sent (j : Job) (t : Nat) : Prop :=
  ∃ k, j.put = List.replicate k true ++ (msbFirst (cmdFrame j.cmd j.arg)).take t

/-- What a cycle adds. -/
def recordJob (D : Dividers) (i : In) (s : SdHost) (g : Option Job) : Option Job :=
  if asks i.bus s.regs then
    some { cmd := s.regs.cmdIdx, arg := s.regs.cmdArg, put := [], complete := false }
  else
    g.map fun j => { j with
      put := if falls D s then j.put ++ [line (s.next D i).fsm] else j.put
      complete := j.complete || s.fsm.state == .done }

/-- A write that stays clear of the windows: no START and no CLEAR in `S_DONE`, and no change of
the command between its START and the edge that takes it. -/
structure Clear (D : Dividers) (i : In) (s : SdHost) : Prop where
  done : s.fsm.state = .done → asks i.bus s.regs = false ∧ clears i.bus s.regs = false
  pending : s.fsm.state = .idle → s.regs.status.busy = true → falls D s = false →
    changes i.bus s.regs = false

section Bits

variable {F : BitVec 48} {j : Job} {t : Nat}

theorem msbFirst_length {w : Nat} (v : BitVec w) : (msbFirst v).length = w := by
  simp [msbFirst]

theorem take_msbFirst (h : t < 48) :
    (msbFirst F).take (t + 1) = (msbFirst F).take t ++ [F.getLsbD (47 - t)] := by
  have hlen : t < (msbFirst F).length := by
    rw [msbFirst_length]
    exact h
  rw [List.take_succ_eq_append_getElem hlen]
  simp [msbFirst]

theorem Job.Sent.ones (h : j.Sent 0) : ∃ k, j.put = List.replicate k true := by
  obtain ⟨k, hk⟩ := h
  exact ⟨k, by simpa using hk⟩

theorem Job.Sent.whole (h : j.Sent 48) : j.Whole := by
  obtain ⟨k, hk⟩ := h
  refine ⟨k, 0, ?_⟩
  rw [hk, List.take_of_length_le (by rw [msbFirst_length])]
  simp

end Bits

/-- Where the machine is in the operation of a START. -/
inductive Stage (s : SdHost) : Option Job → Prop
  /-- Nothing to do. -/
  | rest {g : Option Job} (state : s.fsm.state = .idle) (busy : s.regs.status.busy = false)
      (start : s.regs.startRead = false) (oe : s.fsm.sdcmdOe = false)
      (last : ∀ j, g = some j → j.complete = true ∧ j.Whole) : Stage s g
  /-- The command waits for a falling edge. -/
  | pending {j : Job} (state : s.fsm.state = .idle) (busy : s.regs.status.busy = true)
      (done : s.regs.status.done = false) (cmd : s.regs.cmdIdx = j.cmd)
      (arg : s.regs.cmdArg = j.arg) (sent : j.Sent 0) (on : j.complete = false) : Stage s (some j)
  | gap {j : Job} (state : s.fsm.state = .cmdGap) (busy : s.regs.status.busy = true)
      (done : s.regs.status.done = false) (shift : s.fsm.cmdShift = cmdFrame j.cmd j.arg)
      (count : 1 ≤ s.fsm.bitCount ∧ s.fsm.bitCount ≤ 80) (sent : j.Sent 0) (on : j.complete = false) :
      Stage s (some j)
  /-- `c` bits of the frame are left. -/
  | bits {j : Job} (c : Nat) (state : s.fsm.state = .cmdBits) (busy : s.regs.status.busy = true)
      (done : s.regs.status.done = false) (count : s.fsm.bitCount = c) (some_left : 1 ≤ c)
      (le : c ≤ 48)
      (shift : ∀ k, k < c →
        s.fsm.cmdShift.getLsbD (47 - k) = (cmdFrame j.cmd j.arg).getLsbD (c - 1 - k))
      (sent : j.Sent (48 - c)) (on : j.complete = false) : Stage s (some j)
  | answer {j : Job} (state : s.fsm.state.answering = true) (busy : s.regs.status.busy = true)
      (done : s.regs.status.done = false) (oe : s.fsm.sdcmdOe = false) (whole : j.Whole)
      (on : j.complete = false) : Stage s (some j)
  /-- The status changes one cycle after the machine is in `S_DONE`. -/
  | ended {j : Job} (state : s.fsm.state = .done) (oe : s.fsm.sdcmdOe = false) (whole : j.Whole)
      (status : if j.complete then s.regs.status.busy = false
        else s.regs.status.busy = true ∧ s.regs.status.done = false) : Stage s (some j)

section Steps

variable {D : Dividers} {i : In} {s : SdHost} {g : Option Job} {j : Job} {t : Nat}

theorem Job.Sent.high (h : j.Sent 0) : ({ j with put := j.put ++ [true] } : Job).Sent 0 := by
  obtain ⟨k, hk⟩ := h
  refine ⟨k + 1, ?_⟩
  simp only [hk, List.take_zero, List.append_nil, List.replicate_succ']

theorem Job.Sent.bit (h : j.Sent t) (ht : t < 48) :
    ({ j with put := j.put ++ [(cmdFrame j.cmd j.arg).getLsbD (47 - t)] } : Job).Sent (t + 1) := by
  obtain ⟨k, hk⟩ := h
  refine ⟨k, ?_⟩
  rw [take_msbFirst ht, ← List.append_assoc, ← hk]

theorem Job.Whole.high (h : j.Whole) : ({ j with put := j.put ++ [true] } : Job).Whole := by
  obtain ⟨k, m, hk⟩ := h
  refine ⟨k, m + 1, ?_⟩
  simp only [hk, List.append_assoc, List.replicate_succ']

theorem line_high (h : s.fsm.sdcmdOe = false) : line s.fsm = true := by
  simp [line, h]

theorem regs_asks (ha : asks i.bus s.regs = true) (hs : s.fsm.state ≠ .done) :
    (s.next D i).regs = { s.regs with
      startRead := i.bus.datW.getLsbD 3
      status :=
        { busy := true, done := false, err := false, read := i.bus.datW.getLsbD 3 } } := by
  rw [← mmioWrite_asks ha]
  exact next_of_ne hs

/-- Without a START the operation that `status` shows stays the same. -/
theorem regs_quiet (ha : asks i.bus s.regs = false) (hs : s.fsm.state ≠ .done) :
    (s.next D i).regs.startRead = false ∧
      (s.next D i).regs.status.busy = s.regs.status.busy ∧
      (s.regs.status.done = false → (s.next D i).regs.status.done = false) := by
  have hregs : (s.next D i).regs = s.regs.mmioWrite i.bus := next_of_ne hs
  obtain ⟨hstart, hstatus⟩ := mmioWrite_status ha
  rw [hregs, hstatus]
  refine ⟨hstart, ?_, fun hd => ?_⟩
  · split_ifs <;> rfl
  · split_ifs
    · rfl
    · exact hd

theorem asks_busy (h : s.regs.status.busy = true) : asks i.bus s.regs = false := by
  simp [asks, h]

theorem recordJob_some (ha : asks i.bus s.regs = false) : recordJob D i s (some j) = some { j with
    put := if falls D s then j.put ++ [line (s.next D i).fsm] else j.put
    complete := j.complete || s.fsm.state == .done } := by
  simp [recordJob, ha]

/-- A falling edge in `S_IDLE` without a command. -/
theorem fall_idle (hs : s.fsm.state = .idle) (hn : Fsm.starts s.regs = false) :
    s.fsm.fall s.regs = { s.fsm with sdcmdOe := false, sdcmdOut := true } := by
  simp [Fsm.fall, hs, hn]

/-- In `S_IDLE` without a command the machine stays there with the line released. -/
theorem fsm_next_idle (hs : s.fsm.state = .idle) (hn : Fsm.starts s.regs = false)
    (ho : s.fsm.sdcmdOe = false) :
    (s.next D i).fsm.state = .idle ∧ (s.next D i).fsm.sdcmdOe = false := by
  by_cases hf : falls D s = true
  · rw [fsm_next_fall hf, fall_idle hs hn]
    exact ⟨hs, rfl⟩
  · obtain ⟨d, q, hq⟩ := fsm_next_quiet (i := i) (by simpa using hf) (by simp [hs, State.answering])
    rw [hq]
    exact ⟨hs, ho⟩

/-- The line of a job that is whole stays high. -/
theorem whole_next {o : Bool} (hw : j.Whole) (ho : (s.next D i).fsm.sdcmdOe = false) :
    ({ j with
      put := if falls D s then j.put ++ [line (s.next D i).fsm] else j.put
      complete := o } : Job).Whole := by
  rw [line_high ho]
  split_ifs
  · exact hw.high
  · exact hw

theorem Stage.next_rest (hs : s.fsm.state = .idle) (hb : s.regs.status.busy = false)
    (hr : s.regs.startRead = false) (ho : s.fsm.sdcmdOe = false)
    (hl : ∀ j, g = some j → j.complete = true ∧ j.Whole) :
    Stage (s.next D i) (recordJob D i s g) := by
  have hn : Fsm.starts s.regs = false := by simp [Fsm.starts, hb, hr]
  obtain ⟨hidle, hoe⟩ := fsm_next_idle (D := D) (i := i) hs hn ho
  by_cases ha : asks i.bus s.regs = true
  · rw [recordJob, if_pos ha]
    refine .pending hidle ?_ ?_ ?_ ?_ ⟨0, rfl⟩ rfl <;> rw [regs_asks ha (by simp [hs])]
  · rw [Bool.not_eq_true] at ha
    obtain ⟨hstart, hbusy, -⟩ := regs_quiet (D := D) ha (by simp [hs])
    refine .rest hidle (by rw [hbusy, hb]) hstart hoe fun j hj => ?_
    rw [recordJob, ha] at hj
    obtain ⟨j', hg, rfl⟩ := Option.map_eq_some_iff.mp hj
    obtain ⟨hover, hwhole⟩ := hl j' hg
    exact ⟨by simp [hover], whole_next hwhole hoe⟩

theorem Stage.next_pending (hc : Clear D i s) (hs : s.fsm.state = .idle)
    (hb : s.regs.status.busy = true) (hd : s.regs.status.done = false)
    (hcmd : s.regs.cmdIdx = j.cmd) (harg : s.regs.cmdArg = j.arg) (ht : j.Sent 0)
    (hon : j.complete = false) : Stage (s.next D i) (recordJob D i s (some j)) := by
  have ha := asks_busy (i := i) hb
  obtain ⟨-, hbusy, hdone⟩ := regs_quiet (D := D) ha (by simp [hs])
  have hstay : (j.complete || s.fsm.state == .done) = false := by simp [hon, hs]
  rw [recordJob_some ha]
  by_cases hf : falls D s = true
  · -- the edge that takes the command
    have hfall : (s.next D i).fsm.state = .cmdGap ∧ (s.next D i).fsm.sdcmdOe = false ∧
        (s.next D i).fsm.cmdShift = cmdFrame j.cmd j.arg ∧
        (s.next D i).fsm.bitCount = if s.regs.cmdIdx = 0#6 then 80 else 8 := by
      rw [fsm_next_fall hf]
      simp [Fsm.fall, hs, Fsm.starts, hb, hd, hcmd, harg]
    obtain ⟨hstate, hoe, hshift, hcount⟩ := hfall
    rw [if_pos hf, line_high hoe]
    refine .gap hstate (by rw [hbusy, hb]) (hdone hd) hshift ?_ ht.high hstay
    rw [hcount]
    split_ifs <;> omega
  · obtain ⟨d, q, hq⟩ := fsm_next_quiet (i := i) (by simpa using hf) (by simp [hs, State.answering])
    have hsame := hc.pending hs hb (by simpa using hf)
    have hsame' : changesCmd i.bus s.regs = false := by
      rw [changes, Bool.or_eq_false_iff] at hsame
      exact hsame.1
    rw [if_neg hf]
    refine .pending (by rw [hq]; exact hs) (by rw [hbusy, hb]) (hdone hd) ?_ ?_ ht hstay
    · exact (next_cmdIdx hsame').trans hcmd
    · exact (next_cmdArg hsame).trans harg

theorem Stage.next_gap (hs : s.fsm.state = .cmdGap) (hb : s.regs.status.busy = true)
    (hd : s.regs.status.done = false) (hshift : s.fsm.cmdShift = cmdFrame j.cmd j.arg)
    (hcount : 1 ≤ s.fsm.bitCount ∧ s.fsm.bitCount ≤ 80) (ht : j.Sent 0) (hon : j.complete = false) :
    Stage (s.next D i) (recordJob D i s (some j)) := by
  have ha := asks_busy (i := i) hb
  obtain ⟨-, hbusy, hdone⟩ := regs_quiet (D := D) ha (by simp [hs])
  have hstay : (j.complete || s.fsm.state == .done) = false := by simp [hon, hs]
  rw [recordJob_some ha]
  by_cases hf : falls D s = true
  · have hline : line (s.next D i).fsm = true := by
      rw [fsm_next_fall hf]
      by_cases h1 : s.fsm.bitCount = 1 <;> simp [Fsm.fall, hs, h1, line]
    rw [if_pos hf, hline]
    by_cases h1 : s.fsm.bitCount = 1
    · -- the gap is over
      have hfall : (s.next D i).fsm.state = .cmdBits ∧ (s.next D i).fsm.bitCount = 48 ∧
          (s.next D i).fsm.cmdShift = s.fsm.cmdShift := by
        rw [fsm_next_fall hf]
        simp [Fsm.fall, hs, h1]
      obtain ⟨hstate, hfull, hsame⟩ := hfall
      refine .bits 48 hstate (by rw [hbusy, hb]) (hdone hd) hfull (by omega) (by omega) ?_
        ht.high hstay
      intro k hk
      rw [hsame, hshift]
    · have hfall : (s.next D i).fsm.state = .cmdGap ∧
          (s.next D i).fsm.bitCount = s.fsm.bitDown ∧
          (s.next D i).fsm.cmdShift = s.fsm.cmdShift := by
        rw [fsm_next_fall hf]
        simp [Fsm.fall, hs, h1]
      obtain ⟨hstate, hdown, hsame⟩ := hfall
      refine .gap hstate (by rw [hbusy, hb]) (hdone hd) (by rw [hsame, hshift]) ?_ ht.high hstay
      rw [hdown, Fsm.bitDown]
      omega
  · obtain ⟨d, q, hq⟩ := fsm_next_quiet (i := i) (by simpa using hf) (by simp [hs, State.answering])
    rw [if_neg hf]
    refine .gap ?_ (by rw [hbusy, hb]) (hdone hd) ?_ ?_ ht hstay <;> rw [hq]
    · exact hs
    · exact hshift
    · exact hcount

theorem Stage.next_bits {c : Nat} (hs : s.fsm.state = .cmdBits) (hb : s.regs.status.busy = true)
    (hd : s.regs.status.done = false) (hcount : s.fsm.bitCount = c) (h1 : 1 ≤ c) (h48 : c ≤ 48)
    (hshift : ∀ k, k < c →
      s.fsm.cmdShift.getLsbD (47 - k) = (cmdFrame j.cmd j.arg).getLsbD (c - 1 - k))
    (ht : j.Sent (48 - c)) (hon : j.complete = false) :
    Stage (s.next D i) (recordJob D i s (some j)) := by
  have ha := asks_busy (i := i) hb
  obtain ⟨-, hbusy, hdone⟩ := regs_quiet (D := D) ha (by simp [hs])
  have hstay : (j.complete || s.fsm.state == .done) = false := by simp [hon, hs]
  rw [recordJob_some ha]
  by_cases hf : falls D s = true
  · have hbit : s.fsm.cmdShift.getLsbD 47 = (cmdFrame j.cmd j.arg).getLsbD (c - 1) :=
      hshift 0 (by omega)
    by_cases hlast : c = 1
    · -- the end bit: the host lets go of the line, which is high as the end bit is
      have hend : (cmdFrame j.cmd j.arg).getLsbD 0 = true := by
        rw [cmdFrame, BitVec.getLsbD_append]
        rfl
      have hoe : (s.next D i).fsm.sdcmdOe = false := by
        rw [fsm_next_fall hf]
        simp only [Fsm.fall, hs, hcount, hlast, if_true]
        split_ifs <;> rfl
      have hwhole : ({ j with put := j.put ++ [true] } : Job).Whole := by
        have hsent := ht.bit (by omega)
        rw [hlast, show 47 - (48 - 1) = 0 from rfl, hend] at hsent
        exact hsent.whole
      rw [if_pos hf, line_high hoe]
      by_cases h0 : s.regs.cmdIdx = 0#6
      · have hstate : (s.next D i).fsm.state = .done := by
          rw [fsm_next_fall hf]
          simp [Fsm.fall, hs, hcount, hlast, h0]
        refine .ended hstate hoe hwhole ?_
        rw [hstay]
        exact ⟨by rw [hbusy, hb], hdone hd⟩
      · have hstate : (s.next D i).fsm.state = .respWait := by
          rw [fsm_next_fall hf]
          simp [Fsm.fall, hs, hcount, hlast, h0]
        exact .answer (by simp [hstate, State.answering]) (by rw [hbusy, hb]) (hdone hd) hoe hwhole
          hstay
    · have hfall : (s.next D i).fsm.state = .cmdBits ∧
          (s.next D i).fsm.bitCount = s.fsm.bitDown ∧
          line (s.next D i).fsm = s.fsm.cmdShift.getLsbD 47 ∧
          (s.next D i).fsm.cmdShift = s.fsm.cmdShift.extractLsb' 0 47 ++ 1#1 := by
        rw [fsm_next_fall hf]
        simp [Fsm.fall, hs, hcount, hlast, line]
      obtain ⟨hstate, hdown, hline, hnew⟩ := hfall
      rw [if_pos hf, hline, hbit]
      have hsent := ht.bit (by omega)
      have h1' : 47 - (48 - c) = c - 1 := by omega
      have h2' : 48 - c + 1 = 48 - (c - 1) := by omega
      rw [h1', h2'] at hsent
      refine .bits (c - 1) hstate (by rw [hbusy, hb]) (hdone hd) ?_ (by omega) (by omega) ?_
        hsent hstay
      · rw [hdown, Fsm.bitDown, hcount]
        omega
      · intro k hk
        have hprev := hshift (k + 1) (by omega)
        have hidx : c - 1 - (k + 1) = c - 1 - 1 - k := by omega
        have hpos : 47 - k = 47 - (k + 1) + 1 := by omega
        rw [hidx] at hprev
        rw [← hprev, hnew, hpos, BitVec.getLsbD_append, if_neg (by omega),
          BitVec.getLsbD_extractLsb']
        simp
        omega
  · obtain ⟨d, q, hq⟩ := fsm_next_quiet (i := i) (by simpa using hf) (by simp [hs, State.answering])
    rw [if_neg hf]
    refine .bits c ?_ (by rw [hbusy, hb]) (hdone hd) ?_ h1 h48 ?_ ht hstay <;> rw [hq]
    · exact hs
    · exact hcount
    · exact hshift

theorem Stage.next_answer (hs : s.fsm.state.answering = true) (hb : s.regs.status.busy = true)
    (hd : s.regs.status.done = false) (ho : s.fsm.sdcmdOe = false) (hw : j.Whole)
    (hon : j.complete = false) : Stage (s.next D i) (recordJob D i s (some j)) := by
  have ha := asks_busy (i := i) hb
  have hne : s.fsm.state ≠ .done := by
    intro h
    rw [h] at hs
    cases hs
  obtain ⟨-, hbusy, hdone⟩ := regs_quiet (D := D) ha hne
  have hstay : (j.complete || s.fsm.state == .done) = false := by simp [hon, hne]
  obtain ⟨hmove, hoe⟩ := fsm_next_answering (D := D) (i := i) hs
  rw [ho] at hoe
  rw [recordJob_some ha, hstay]
  rcases hmove with hon' | hover
  · exact .answer hon' (by rw [hbusy, hb]) (hdone hd) hoe (whole_next hw hoe) rfl
  · exact .ended hover hoe (whole_next hw hoe) ⟨by rw [hbusy, hb], hdone hd⟩

theorem Stage.next_ended (hc : Clear D i s) (hs : s.fsm.state = .done)
    (ho : s.fsm.sdcmdOe = false) (hw : j.Whole) :
    Stage (s.next D i) (recordJob D i s (some j)) := by
  obtain ⟨ha, -⟩ := hc.done hs
  have hover : (j.complete || s.fsm.state == .done) = true := by simp [hs]
  have hbusy : (s.next D i).regs.status.busy = false := by
    simp [SdHost.next, Regs.next, hs]
  have hstart : (s.next D i).regs.startRead = false := by
    have hregs : (s.next D i).regs.startRead = (s.regs.mmioWrite i.bus).startRead := by
      simp [SdHost.next, Regs.next, hs]
    rw [hregs]
    exact (mmioWrite_status ha).1
  rw [recordJob_some ha, hover]
  by_cases hf : falls D s = true
  · have hfall : (s.next D i).fsm.state = .idle ∧ (s.next D i).fsm.sdcmdOe = false := by
      rw [fsm_next_fall hf]
      simp [Fsm.fall, hs, ho]
    refine .rest hfall.1 hbusy hstart hfall.2 fun j' hj => ?_
    obtain rfl := Option.some.inj hj
    exact ⟨rfl, whole_next hw hfall.2⟩
  · obtain ⟨d, q, hq⟩ := fsm_next_quiet (i := i) (by simpa using hf) (by simp [hs, State.answering])
    have hoe : (s.next D i).fsm.sdcmdOe = false := by
      rw [hq]
      exact ho
    exact .ended (by rw [hq]; exact hs) hoe (whole_next hw hoe) hbusy

/-- One cycle of the operation. -/
theorem Stage.next (h : Stage s g) (hc : Clear D i s) :
    Stage (s.next D i) (recordJob D i s g) := by
  cases h with
  | rest state busy start oe last => exact next_rest state busy start oe last
  | pending state busy done cmd arg sent on => exact next_pending hc state busy done cmd arg sent on
  | gap state busy done shift count sent on => exact next_gap state busy done shift count sent on
  | bits c state busy done count some_left le shift sent on =>
      exact next_bits state busy done count some_left le shift sent on
  | answer state busy done oe whole on => exact next_answer state busy done oe whole on
  | ended state oe whole status => exact next_ended hc state oe whole

end Steps

/-! ## Runs -/

section Run

variable (D : Dividers) (inp : Nat → In)

/-- The host before a cycle. -/
def sdRun (n : Nat) : SdHost := Clocked.run (SdHost.next D) inp reset n

/-- The START written last, before a cycle. -/
def job (n : Nat) : Option Job :=
  Clocked.history (SdHost.next D) (recordJob D) inp reset none n

/-- A CLEAR was written with `BUSY` 0, and no operation has ended since. -/
def cleared (n : Nat) : Bool :=
  Clocked.history (SdHost.next D)
    (fun i s c => clears i.bus s.regs || (c && s.fsm.state != .done)) inp reset false n

/-- The longest a frame takes from its START on, in cycles. -/
def frameCycles : Nat := 67072

/-- What software is promised before the cycle `n`: of the START written last, of a CLEAR, and of
every START that is long enough ago. -/
structure Promised (n : Nat) : Prop where
  running : ∀ j, job D inp n = some j → j.complete = false →
    (sdRun D inp n).regs.status.busy = true ∧ (sdRun D inp n).regs.status.done = false ∧
      ((∃ t, t ≤ 48 ∧ j.Sent t) ∨ j.Whole)
  ended : ∀ j, job D inp n = some j → j.complete = true →
    (sdRun D inp n).regs.status.busy = false ∧ j.Whole
  clear : cleared D inp n = true →
    (sdRun D inp n).regs.status.done = false ∧ (sdRun D inp n).regs.status.err = false
  sent : ∀ m, m + frameCycles ≤ n → asks (inp m).bus (sdRun D inp m).regs = true →
    (∀ k, m ≤ k → k < m + frameCycles →
      changesCmd (inp k).bus (sdRun D inp k).regs = false) →
    ∃ k, m < k ∧ k ≤ m + frameCycles ∧ ∃ j, job D inp k = some j ∧
      j.cmd = (sdRun D inp m).regs.cmdIdx ∧ j.arg = (sdRun D inp m).regs.cmdArg ∧ j.Whole

end Run

section Runs

variable {D : Dividers} {inp : Nat → In} {n : Nat}

theorem sdRun_succ : sdRun D inp (n + 1) = (sdRun D inp n).next D (inp n) := rfl

theorem job_succ : job D inp (n + 1) =
    recordJob D (inp n) (sdRun D inp n) (job D inp n) := Clocked.history_succ n

/-- The operation of the last START along a run that stays clear of the windows. -/
theorem stage_run (h : ∀ k, k < n → Clear D (inp k) (sdRun D inp k)) :
    Stage (sdRun D inp n) (job D inp n) :=
  Clocked.history_invariant (P := Stage) (C := Clear D)
    (.rest rfl rfl rfl rfl fun _ hj => by cases hj) (fun _ _ _ hc hp => hp.next hc) h

theorem Stage.on {s : SdHost} {j : Job} (h : Stage s (some j)) (ho : j.complete = false) :
    s.regs.status.busy = true ∧ s.regs.status.done = false ∧
      ((∃ t, t ≤ 48 ∧ j.Sent t) ∨ j.Whole) := by
  cases h with
  | rest state busy start oe last =>
      rw [(last j rfl).1] at ho
      cases ho
  | pending state busy done cmd arg sent on => exact ⟨busy, done, .inl ⟨0, by omega, sent⟩⟩
  | gap state busy done shift count sent on => exact ⟨busy, done, .inl ⟨0, by omega, sent⟩⟩
  | bits c state busy done count some_left le shift sent on =>
      exact ⟨busy, done, .inl ⟨48 - c, by omega, sent⟩⟩
  | answer state busy done oe whole on => exact ⟨busy, done, .inr whole⟩
  | ended state oe whole status =>
      rw [ho] at status
      exact ⟨status.1, status.2, .inr whole⟩

theorem Stage.off {s : SdHost} {j : Job} (h : Stage s (some j)) (ho : j.complete = true) :
    s.regs.status.busy = false ∧ j.Whole := by
  cases h with
  | rest state busy start oe last => exact ⟨busy, (last j rfl).2⟩
  | pending state busy done cmd arg sent on => rw [ho] at on; cases on
  | gap state busy done shift count sent on => rw [ho] at on; cases on
  | bits c state busy done count some_left le shift sent on => rw [ho] at on; cases on
  | answer state busy done oe whole on => rw [ho] at on; cases on
  | ended state oe whole status =>
      rw [ho] at status
      exact ⟨status, whole⟩

/-- `DONE` and `ERR` come up in `S_DONE` only. -/
theorem cleared_run (h : ∀ k, k < n → Clear D (inp k) (sdRun D inp k))
    (hc : cleared D inp n = true) :
    (sdRun D inp n).regs.status.done = false ∧ (sdRun D inp n).regs.status.err = false := by
  induction n with
  | zero => cases hc
  | succ n ih =>
      have hclear := h n (Nat.lt_succ_self n)
      rw [cleared, Clocked.history_succ, Bool.or_eq_true, Bool.and_eq_true] at hc
      have hne : (sdRun D inp n).fsm.state ≠ .done := by
        intro hd
        rcases hc with hcl | ⟨-, hkeep⟩
        · have hno := (hclear.done hd).2
          rw [show clears (inp n).bus (sdRun D inp n).regs = true from hcl] at hno
          cases hno
        · rw [show Clocked.run (SdHost.next D) inp reset n = sdRun D inp n from rfl, hd] at hkeep
          cases hkeep
      by_cases ha : asks (inp n).bus (sdRun D inp n).regs = true
      · rw [sdRun_succ, regs_asks ha hne]
        exact ⟨rfl, rfl⟩
      · have hregs : (sdRun D inp (n + 1)).regs = (sdRun D inp n).regs.mmioWrite (inp n).bus :=
          next_of_ne hne
        rw [hregs, (mmioWrite_status (by simpa using ha)).2]
        split_ifs with hw
        · exact ⟨rfl, rfl⟩
        · rcases hc with hcl | ⟨hold, -⟩
          · refine absurd ?_ hw
            have hcl' : clears (inp n).bus (sdRun D inp n).regs = true := hcl
            rw [clears, Bool.and_eq_true] at hcl'
            exact hcl'.1
          · exact ih (fun k hk => h k (by omega)) hold

/-! ### The frame is sent -/

/-- The falling edges up to the end of the frame. -/
def edgesLeft (f : Fsm) : Nat :=
  if f.state = .idle then 130
  else if f.state = .cmdGap then f.bitCount + 48
  else if f.state = .cmdBits then f.bitCount
  else 0

/-- The cycles up to the next edge of the SD clock. -/
def toEdge (D : Dividers) (s : SdHost) : Nat :=
  (Fsm.sdclkDivMax D s.regs + 256 - s.fsm.sdclkDiv) % 256

/-- A bound on the cycles up to the end of the frame. -/
def rank (D : Dividers) (s : SdHost) : Nat :=
  edgesLeft s.fsm * 512 + (if s.fsm.sdclkQ then 0 else 256) + toEdge D s

theorem toEdge_lt (s : SdHost) : toEdge D s < 256 := Nat.mod_lt _ (by omega)

theorem sdclkDivMax_lt (r : Regs) : Fsm.sdclkDivMax D r < 256 := by
  rw [Fsm.sdclkDivMax]
  split_ifs
  · exact D.readDivMax.isLt
  · exact D.cmdDivMax.isLt

theorem sdclkDiv_next (s : SdHost) (i : In) : (s.next D i).fsm.sdclkDiv < 256 := by
  by_cases ht : s.fsm.ticks D s.regs = true
  · simp [SdHost.next, Fsm.next, ht]
  · rw [fsm_next_wait (by simpa using ht)]
    exact Nat.mod_lt _ (by omega)

theorem sdclkDiv_lt (n : Nat) : (sdRun D inp n).fsm.sdclkDiv < 256 := by
  cases n with
  | zero => exact Nat.succ_pos 255
  | succ n => exact sdclkDiv_next _ _

/-- The machine is on its way to the end of the frame. -/
def sending (s : SdHost) : Prop :=
  s.fsm.state = .idle ∨ s.fsm.state = .cmdGap ∨ s.fsm.state = .cmdBits

/-- A falling edge brings the end of the frame closer. -/
theorem edgesLeft_fall {s : SdHost} {j : Job} (h : Stage s (some j)) (ho : j.complete = false)
    (hs : sending s) (hf : falls D s = true) (i : In) :
    edgesLeft (s.next D i).fsm + 1 ≤ edgesLeft s.fsm := by
  rw [fsm_next_fall hf]
  cases h with
  | rest state busy start oe last =>
      rw [(last j rfl).1] at ho
      cases ho
  | pending state busy done cmd arg sent on =>
      simp only [Fsm.fall, state, Fsm.starts, busy, done, edgesLeft]
      by_cases h0 : s.regs.cmdIdx = 0#6 <;> simp [h0]
  | gap state busy done shift count sent on =>
      by_cases h1 : s.fsm.bitCount = 1
      · simp [Fsm.fall, state, h1, edgesLeft]
      · simp [Fsm.fall, state, h1, edgesLeft, Fsm.bitDown]
        omega
  | bits c state busy done count some_left le shift sent on =>
      by_cases h1 : c = 1
      · by_cases h0 : s.regs.cmdIdx = 0#6 <;>
          simp [Fsm.fall, state, count, h1, h0, edgesLeft]
      · simp [Fsm.fall, state, count, h1, edgesLeft, Fsm.bitDown]
        omega
  | answer state busy done oe whole on =>
      rcases hs with h | h | h <;> rw [h] at state <;> cases state
  | ended state oe whole status =>
      rcases hs with h | h | h <;> rw [h] at state <;> cases state

/-- Every cycle brings the end of the frame closer while CMD stays as it is. -/
theorem rank_next {s : SdHost} {j : Job} (h : Stage s (some j)) (ho : j.complete = false)
    (hs : sending s) (hd : s.fsm.sdclkDiv < 256) (i : In)
    (hcmd : changesCmd i.bus s.regs = false) : rank D (s.next D i) < rank D s := by
  have hlt := toEdge_lt (D := D) (s.next D i)
  by_cases hf : falls D s = true
  · have hleft := edgesLeft_fall h ho hs hf i
    have hq : s.fsm.sdclkQ = true := by
      simp only [falls, Bool.and_eq_true] at hf
      exact hf.2
    have hq' : (s.next D i).fsm.sdclkQ = false := by rw [fsm_next_fall hf]
    simp only [rank, hq, hq', Bool.false_eq_true, if_true, if_false]
    omega
  · rw [Bool.not_eq_true] at hf
    have hans : s.fsm.state.answering = false := by
      rcases hs with h | h | h <;> rw [h] <;> rfl
    have hsame : edgesLeft (s.next D i).fsm = edgesLeft s.fsm := by
      obtain ⟨d, q, hq⟩ := fsm_next_quiet (i := i) hf hans
      rw [hq]
      rfl
    by_cases ht : s.fsm.ticks D s.regs = true
    · have hq : s.fsm.sdclkQ = false := by
        rw [falls, ht, Bool.true_and] at hf
        exact hf
      have hq' : (s.next D i).fsm.sdclkQ = true := by
        rw [fsm_next_rise (by simp [rises, ht, hq])]
      simp only [rank, hsame, hq, hq', Bool.false_eq_true, if_true, if_false]
      omega
    · rw [Bool.not_eq_true] at ht
      have hmax : Fsm.sdclkDivMax D (s.next D i).regs = Fsm.sdclkDivMax D s.regs := by
        have hidx : (s.next D i).regs.cmdIdx = s.regs.cmdIdx := next_cmdIdx hcmd
        rw [Fsm.sdclkDivMax, hidx]
        rfl
      have hq : (s.next D i).fsm.sdclkQ = s.fsm.sdclkQ := by rw [fsm_next_wait ht]
      have hdiv : (s.next D i).fsm.sdclkDiv = (s.fsm.sdclkDiv + 1) % 256 := by
        rw [fsm_next_wait ht]
      have hne : s.fsm.sdclkDiv ≠ Fsm.sdclkDivMax D s.regs := by
        simpa [Fsm.ticks] using ht
      have hm := sdclkDivMax_lt (D := D) s.regs
      have hcloser : toEdge D (s.next D i) < toEdge D s := by
        rw [toEdge, toEdge, hmax, hdiv]
        omega
      rw [rank, rank, hsame, hq]
      omega

/-- Past the frame it is on the line. -/
theorem Stage.sent {s : SdHost} {j : Job} (h : Stage s (some j)) (hs : ¬ sending s) : j.Whole := by
  cases h with
  | rest state busy start oe last => exact (last j rfl).2
  | pending state busy done cmd arg sent on => exact absurd (.inl state) hs
  | gap state busy done shift count sent on => exact absurd (.inr (.inl state)) hs
  | bits c state busy done count some_left le shift sent on =>
      exact absurd (.inr (.inr state)) hs
  | answer state busy done oe whole on => exact whole
  | ended state oe whole status => exact whole

/-- From its START on, or from later, a frame is on the line in time. -/
theorem frame_sent {j : Job} (r : Nat) (hn : Stage (sdRun D inp n) (some j))
    (hj : job D inp n = some j) (ho : j.complete = false) (hr : rank D (sdRun D inp n) ≤ r)
    (hc : ∀ k, n ≤ k → k < n + r → Clear D (inp k) (sdRun D inp k))
    (hcmd : ∀ k, n ≤ k → k < n + r → changesCmd (inp k).bus (sdRun D inp k).regs = false) :
    ∃ k, n ≤ k ∧ k ≤ n + r ∧ ∃ j', job D inp k = some j' ∧ j'.cmd = j.cmd ∧ j'.arg = j.arg ∧
      j'.Whole := by
  induction r generalizing n j with
  | zero =>
      refine ⟨n, by omega, by omega, j, hj, rfl, rfl, hn.sent fun hs => ?_⟩
      -- there is an edge left at least
      have hpos : 1 ≤ edgesLeft (sdRun D inp n).fsm := by
        cases hn with
        | rest state busy start oe last => simp [edgesLeft, state]
        | pending state busy done cmd arg sent on => simp [edgesLeft, state]
        | gap state busy done shift count sent on => simp [edgesLeft, state]
        | bits c state busy done count some_left le shift sent on =>
            simp [edgesLeft, state, count]
            omega
        | answer state busy done oe whole on =>
            rcases hs with h | h | h <;> rw [h] at state <;> cases state
        | ended state oe whole status =>
            rcases hs with h | h | h <;> rw [h] at state <;> cases state
      rw [rank] at hr
      omega
  | succ r ih =>
      by_cases hs : sending (sdRun D inp n)
      · have hlt := rank_next (D := D) hn ho hs (sdclkDiv_lt n) (inp n)
          (hcmd n (by omega) (by omega))
        have hne : (sdRun D inp n).fsm.state ≠ .done := by
          rcases hs with h | h | h <;> rw [h] <;> decide
        have hrec : job D inp (n + 1) = some { j with
            put := if falls D (sdRun D inp n) then
              j.put ++ [line ((sdRun D inp n).next D (inp n)).fsm] else j.put
            complete := j.complete || (sdRun D inp n).fsm.state == .done } := by
          rw [job_succ, hj, recordJob_some (asks_busy (hn.on ho).1)]
        have hstage : Stage (sdRun D inp (n + 1)) (job D inp (n + 1)) := by
          rw [job_succ, hj]
          exact hn.next (hc n (by omega) (by omega))
        rw [hrec] at hstage
        obtain ⟨k, hk, hk', j', hj', hcmd', harg', hw⟩ := ih hstage hrec (by simp [ho, hne])
          (by rw [sdRun_succ]; omega) (fun k h1 h2 => hc k (by omega) (by omega))
          (fun k h1 h2 => hcmd k (by omega) (by omega))
        exact ⟨k, by omega, by omega, j', hj', hcmd', harg', hw⟩
      · exact ⟨n, by omega, by omega, j, hj, rfl, rfl, hn.sent hs⟩

theorem rank_lt {s : SdHost} {j : Job} (h : Stage s (some j)) : rank D s + 1 ≤ frameCycles := by
  have hto := toEdge_lt (D := D) s
  have hleft : edgesLeft s.fsm ≤ 130 := by
    cases h with
    | rest state busy start oe last => simp [edgesLeft, state]
    | pending state busy done cmd arg sent on => simp [edgesLeft, state]
    | gap state busy done shift count sent on =>
        simp only [edgesLeft, state, reduceCtorEq, if_false, if_true]
        omega
    | bits c state busy done count some_left le shift sent on =>
        simp only [edgesLeft, state, count, reduceCtorEq, if_false, if_true]
        omega
    | answer state busy done oe whole on =>
        rw [edgesLeft]
        split_ifs <;> simp_all [State.answering]
    | ended state oe whole status => simp [edgesLeft, state]
  rw [rank, frameCycles]
  split_ifs <;> omega

/-- **Commands are not lost outside of the windows.** -/
theorem commands_never_lost (D : Dividers) (inp : Nat → In) (n : Nat)
    (h : ∀ k, k < n → Clear D (inp k) (sdRun D inp k)) : Promised D inp n where
  running j hj ho := by
    have hs := stage_run h
    rw [hj] at hs
    exact hs.on ho
  ended j hj ho := by
    have hs := stage_run h
    rw [hj] at hs
    exact hs.off ho
  clear := cleared_run h
  sent m hm ha hcmd := by
    have hpos : 1 ≤ frameCycles := by decide
    have hjob : job D inp (m + 1) = some
        { cmd := (sdRun D inp m).regs.cmdIdx
          arg := (sdRun D inp m).regs.cmdArg
          put := [], complete := false } := by
      rw [job_succ, recordJob, if_pos ha]
    have hs : Stage (sdRun D inp (m + 1)) (job D inp (m + 1)) :=
      stage_run fun k hk => h k (by omega)
    rw [hjob] at hs
    have hrank := rank_lt (D := D) hs
    obtain ⟨k, hk, hk', hrest⟩ := frame_sent (frameCycles - 1) hs hjob rfl (by omega)
      (fun k h1 h2 => h k (by omega)) (fun k h1 h2 => hcmd k (by omega) (by omega))
    exact ⟨k, by omega, by omega, hrest⟩

end Runs

/-! ## A START that is lost -/

/-- A cycle without an access, the lines of the card high. -/
def quiet : In :=
  { bus := { adr := 0#32, datW := 0#32, sel := 0#4, we := false, cyc := false, stb := false
             lock := false }
    cmd := true, dat := 0xF#4 }

/-- START. -/
def start : In :=
  { quiet with bus := { quiet.bus with
      adr := ioSdCtrlAddr, datW := 1#32, sel := 0xF#4, we := true, cyc := true, stb := true } }

/-- GO_IDLE_STATE once, from reset on. -/
def startOnce (n : Nat) : In := if n = 0 then start else quiet

theorem commands_never_lost_once : ∃ k, k ≤ frameCycles ∧ ∃ j, job .board startOnce k = some j ∧
    j.cmd = 0#6 ∧ j.arg = 0#32 ∧ j.Whole := by
  have hclear : ∀ k, k < frameCycles → Clear .board (startOnce k) (sdRun .board startOnce k) := by
    intro k hk
    by_cases h0 : k = 0
    · subst h0
      refine ⟨fun h => ?_, fun _ h => ?_⟩ <;> cases h
    · rw [startOnce, if_neg h0]
      exact ⟨fun _ => ⟨rfl, rfl⟩, fun _ _ _ => rfl⟩
  have hcmd : ∀ k, 0 ≤ k → k < 0 + frameCycles →
      changesCmd (startOnce k).bus (sdRun .board startOnce k).regs = false := by
    intro k _ _
    by_cases h0 : k = 0
    · subst h0
      rfl
    · rw [startOnce, if_neg h0]
      rfl
  obtain ⟨k, -, hk, j, hj, hidx, harg, hw⟩ :=
    (commands_never_lost .board startOnce frameCycles hclear).sent 0 (by omega) rfl hcmd
  exact ⟨k, by omega, j, hj, hidx, harg, hw⟩

/-- The next edge of the SD clock. -/
def edge (s : SdHost) : SdHost :=
  { s with fsm := { s.fsm with sdclkDiv := 67 } }.next .board quiet

/-- The host after `n` edges. -/
def edges (s : SdHost) : Nat → SdHost
  | 0 => s
  | n + 1 => edge (edges s n)

section Quiet

variable {s : SdHost} {k : Nat}

/-- Between the accesses and away from `S_DONE` the MMIO block stands still. -/
def still (s : SdHost) : Bool :=
  s.fsm.state != .done && !s.regs.startRead && s.regs.cmdIdx == 0#6

theorem regs_next_quiet (h : still s = true) (D : Dividers) :
    (s.next D quiet).regs = s.regs := by
  simp only [still, Bool.and_eq_true, bne_iff_ne, Bool.not_eq_true'] at h
  have hregs : (s.next D quiet).regs = { s.regs with startRead := false } := by
    simp [SdHost.next, Regs.next, h.1.1, Regs.mmioWrite, Regs.writes, quiet]
  rw [hregs, ← h.1.2]

theorem run_wait (h : still s = true) (hk : s.fsm.sdclkDiv + k ≤ 67) :
    Clocked.run (SdHost.next .board) (fun _ => quiet) s k =
      { s with fsm := { s.fsm with sdclkDiv := s.fsm.sdclkDiv + k } } := by
  induction k with
  | zero => rfl
  | succ k ih =>
      have hidx : s.regs.cmdIdx = 0#6 := by
        simp only [still, Bool.and_eq_true, beq_iff_eq] at h
        exact h.2
      have hmax : Fsm.sdclkDivMax .board s.regs = 67 := by simp [Fsm.sdclkDivMax, hidx]; rfl
      rw [Clocked.run_succ, ih (by omega)]
      have hwait : Fsm.ticks .board s.regs
          { s.fsm with sdclkDiv := s.fsm.sdclkDiv + k } = false := by
        simp [Fsm.ticks, hmax]
        omega
      have hmod : (s.fsm.sdclkDiv + k + 1) % 256 = s.fsm.sdclkDiv + (k + 1) := by omega
      have hregs := regs_next_quiet (s := { s with fsm :=
        { s.fsm with sdclkDiv := s.fsm.sdclkDiv + k } }) h .board
      have hfsm := fsm_next_wait (i := quiet) (s := { s with fsm :=
        { s.fsm with sdclkDiv := s.fsm.sdclkDiv + k } }) hwait
      rw [hmod] at hfsm
      exact congrArg₂ SdHost.mk hregs hfsm

/-- A half period of the SD clock in one step. -/
theorem run_edge (h : still s = true) (hd : s.fsm.sdclkDiv ≤ 67) :
    Clocked.run (SdHost.next .board) (fun _ => quiet) s (68 - s.fsm.sdclkDiv) = edge s := by
  have hlen : 68 - s.fsm.sdclkDiv = 67 - s.fsm.sdclkDiv + 1 := by omega
  have hfull : s.fsm.sdclkDiv + (67 - s.fsm.sdclkDiv) = 67 := by omega
  rw [hlen, Clocked.run_succ, run_wait h (by omega), hfull]
  rfl

/-- Many half periods. -/
theorem run_edges (h : ∀ m, m < k → still (edges s m) = true ∧ (edges s m).fsm.sdclkDiv = 0) :
    Clocked.run (SdHost.next .board) (fun _ => quiet) s (68 * k) = edges s k := by
  induction k with
  | zero => rfl
  | succ k ih =>
      obtain ⟨hstill, hdiv⟩ := h k (Nat.lt_succ_self k)
      have hedge := run_edge hstill (by omega)
      rw [hdiv] at hedge
      rw [Nat.mul_succ, Clocked.run_add, ih fun m hm => h m (Nat.lt_succ_of_lt hm)]
      exact hedge

end Quiet

/-- The cycle in which the machine reaches `S_DONE` after a START in cycle 0. -/
def doneAt : Nat := 1 + (67 + 68 * 257)

/-- GO_IDLE_STATE from reset on, and START again one cycle after `DONE` reads 1. -/
def startTwice (n : Nat) : In := if n = 0 ∨ n = doneAt + 1 then start else quiet

theorem startTwice_run : sdRun .board startTwice doneAt =
    edges (edge (reset.next .board start)) 257 := by
  have hquiet : ∀ k, k < 67 + 68 * 257 → startTwice (1 + k) = quiet := by
    intro k hk
    have hno : ¬ (1 + k = 0 ∨ 1 + k = doneAt + 1) := by
      rw [doneAt]
      omega
    rw [startTwice, if_neg hno]
  have hedges : ∀ m, m < 257 → (still (edges (edge (reset.next .board start)) m) &&
      (edges (edge (reset.next .board start)) m).fsm.sdclkDiv == 0) = true := by
    decide +kernel
  have hfirst : Clocked.run (SdHost.next .board) (fun _ => quiet) (reset.next .board start) 67 =
      edge (reset.next .board start) := run_edge (by decide +kernel) (by decide +kernel)
  have hone : Clocked.run (SdHost.next .board) startTwice reset 1 = reset.next .board start := by
    rw [Clocked.run_succ, Clocked.run_zero, startTwice, if_pos (.inl rfl)]
  rw [sdRun, doneAt, Clocked.run_add, Clocked.run_congr hquiet, hone, Clocked.run_add, hfirst]
  refine run_edges fun m hm => ?_
  have hm' := hedges m hm
  simp only [Bool.and_eq_true, beq_iff_eq] at hm'
  exact hm'

/-- Software sees `DONE`, writes START, and the status goes back to `DONE`: no command is sent. -/
theorem start_lost : ¬ ∀ D inp n, Promised D inp n := by
  intro h
  have hlater : sdRun .board startTwice (doneAt + 1) =
      (edges (edge (reset.next .board start)) 257).next .board quiet := by
    have hno : ¬ (doneAt = 0 ∨ doneAt = doneAt + 1) := by
      rw [doneAt]
      omega
    rw [sdRun_succ, startTwice_run, startTwice, if_neg hno]
  have hstart : startTwice (doneAt + 1) = start := if_pos (.inr rfl)
  have hjob : job .board startTwice (doneAt + 1 + 1) = some
      { cmd := (sdRun .board startTwice (doneAt + 1)).regs.cmdIdx
        arg := (sdRun .board startTwice (doneAt + 1)).regs.cmdArg
        put := [], complete := false } := by
    have hasks : asks start.bus (sdRun .board startTwice (doneAt + 1)).regs = true := by
      rw [hlater]
      decide +kernel
    rw [job_succ, hstart, recordJob, if_pos hasks]
  have hbusy := ((h .board startTwice (doneAt + 1 + 1)).running _ hjob rfl).1
  rw [sdRun_succ, hstart, hlater] at hbusy
  exact absurd hbusy (by decide +kernel)

end SdHost

end MelonSoc
