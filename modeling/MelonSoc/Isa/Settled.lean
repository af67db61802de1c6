import MelonSoc.Isa.Effects
import MelonSoc.Pipeline.Frontend

set_option autoImplicit false

/-! # The state of the instruction set in the pipeline

An executed instruction is settled when it has left MEM, or when the atomic unit has its result.
The registers, the program counter and the memory behind the settled instructions are the state of
the instruction set; only the newest instruction can be unsettled, and it is followed here from EX
until it settles.
-/

namespace MelonSoc

/-- The instruction at `pc`: its word, expanded if it is compressed, and its length. -/
def FetchMem.Holds (m : FetchMem) (pc w len : Word) : Prop :=
  ∃ x, m.Parses pc x ∧ x.instr = w ∧ x.len = len

/-- The registers that a list of executed instructions leaves. -/
def archRegs (log : List Fired) (r : BitVec 5) : Word := (archReg log r).getD 0#32

namespace Core

/-! ## The state -/

/-- `core_data` acknowledges a request. -/
def acked (i : CoreIn) (s : Core) : Bool := s.dataReq.cyc && s.dataReq.stb && i.ack

/-- The memory on `core_data` after the cycle. -/
def memoryNext (i : CoreIn) (s : Core) (m : Word → BitVec 8) : Word → BitVec 8 :=
  if s.acked i then s.dataReq.txn.store m else m

/-- The newest executed instruction has not had its effect. -/
def unsettled (s : Core) : Bool := s.memReq || (s.exMem.isAtomic && !s.atomicComplete)

/-- The executed instructions that have had their effect. -/
def settled (s : Core) (log : List Fired) : List Fired := if s.unsettled then log.tail else log

/-- A register behind the settled instructions. -/
def settledReg (s : Core) (r : BitVec 5) : Word :=
  if r = 0#5 then 0#32
  else if s.atomicComplete && s.exMem.rd == r then s.atomic.result
  else s.pipeReg r

/-- The program counter behind the settled instructions. -/
def settledPc (s : Core) (g : Ledger) : Word :=
  if s.unsettled then (g.log.head?.map fun f => f.insn.pc).getD g.pc else g.pc

/-- The state of the instruction set. -/
def isaState (s : Core) (g : Ledger) (m : Word → BitVec 8) : Rv32.State :=
  { reg := s.settledReg, pc := s.settledPc g, mem := m }

/-! ## The instruction that has not settled -/

/-- `f` is the unsettled instruction; `older` are the settled ones. -/
structure Awaits (m : FetchMem) (s : Core) (g : Ledger) (f : Fired) (older : List Fired) : Prop where
  log : g.log = f :: older
  sound : f.Sound
  placed : f.Placed
  isMem : f.insn.isMem = true
  holds : m.Holds f.insn.pc f.insn.instr f.insn.len
  behind : g.pc = f.insn.pc + f.insn.len
  rs1 : f.rs1 = archRegs older f.insn.rs1
  rs2 : f.rs2 = archRegs older f.insn.rs2
  regs : ∀ r, r ≠ 0#5 → archReg older r = some (s.wbReg r)

/-- What is known of the instructions in ID, in EX and of the one that has not settled. -/
structure Executing (m : FetchMem) (s : Core) (g : Ledger) : Prop where
  id : s.id.valid = true → m.Parses s.id.pc s.id
  ex : s.idEx.valid = true → m.Holds s.idEx.pc s.idEx.instr s.idEx.len ∧ s.idEx.Decoded
  op : s.OpOk g.log
  mem : s.unsettled = true → ∃ f older, s.Awaits m g f older

theorem executing_reset (m : FetchMem) : Core.reset.Executing m Ledger.reset where
  id := by intro h; cases h
  ex := by intro h; cases h
  op := by intro h; cases h
  mem := by intro h; cases h

variable {m : FetchMem} {i : CoreIn} {fi : FetchIn} {s : Core} {g : Ledger} {log : List Fired}

/-! ## The instructions ahead of MEM -/

/-- What is issued into ID stands in the fetched memory. -/
theorem parses_idNext (hid : s.id.valid = true → m.Parses s.id.pc s.id)
    (t : s.front.Tracks m) (h : (s.idNext i).valid = true) :
    m.Parses (s.idNext i).pc (s.idNext i) := by
  unfold idNext at h ⊢
  split at h
  · cases h
  · split at h
    · split at h
      · rename_i hr hs hc
        have hc' : s.front.filled.canIssue = true := hc
        rw [if_neg hr, if_pos hs, if_pos hc]
        exact t.filled.parses (Front.filled_dropped hc') hc'
      · cases h
    · rename_i hr hs
      rw [if_neg hr, if_neg hs]
      exact hid h

theorem idExNext_holds (e : s.Executing m g) (h : (s.idExNext i).valid = true) :
    m.Holds (s.idExNext i).pc (s.idExNext i).instr (s.idExNext i).len ∧ (s.idExNext i).Decoded := by
  unfold idExNext at h ⊢
  split at h
  · cases h
  · split at h
    · rename_i hr hs
      rw [if_neg hr, if_pos hs]
      exact e.ex h
    · split at h
      · cases h
      · rename_i hr hs hl
        rw [if_neg hr, if_neg hs, if_neg hl]
        have hv : s.id.valid = true := h
        refine ⟨⟨s.id, e.id hv, rfl, rfl⟩, s.id.illegal, ?_⟩
        show s.decoded.gateAtomic = _
        rw [decoded, hv]
        rfl

/-! ## Execution -/

/-- An instruction that fires without a trap calls no environment. -/
theorem no_call_of_commits (h : s.commits i = true) :
    s.idEx.isECALL = false ∧ s.idEx.isEBREAK = false := by
  have hnone := exceptionInfo_of_commits h
  have hf : s.exFire i = true := by
    simp only [commits, Bool.and_eq_true] at h
    exact h.1
  obtain ⟨hv, hm, ha, -⟩ := exFire_iff.mp hf
  unfold exceptionInfo at hnone
  simp only [hv, hm, ha, Bool.true_and, Bool.not_false] at hnone
  constructor
  · by_contra hc
    simp only [Bool.not_eq_false] at hc
    simp only [hc, if_true] at hnone
    repeat' split at hnone
    all_goals cases hnone
  · by_contra hc
    simp only [Bool.not_eq_false] at hc
    simp only [hc, if_true] at hnone
    repeat' split at hnone
    all_goals cases hnone

theorem exMisaligned_of_not_mem {e : IdEx} (h : e.isMem = false) (a : Word) :
    e.exMisaligned a = false := by
  simp only [IdEx.isMem, Bool.or_eq_false_iff] at h
  simp [IdEx.exMisaligned, h]

/-- What fires without a trap is sound. -/
theorem Linked.fires_sound (l : s.Linked log) (w : s.Wf) (hd : s.idEx.Decoded)
    (h : s.commits i = true) : (s.fires i (s.answered i log)).Sound := by
  have hf : s.exFire i = true := by
    simp only [commits, Bool.and_eq_true] at h
    exact h.1
  obtain ⟨hv, -, hat, -⟩ := exFire_iff.mp hf
  obtain ⟨hill, hmis, -⟩ := clean_of_no_exception (exceptionInfo_of_commits h) hv hat
  obtain ⟨hcall, hbreak⟩ := no_call_of_commits h
  refine ⟨hv, hd, hill, ?_, hcall, hbreak⟩
  show s.idEx.exMisaligned (s.idEx.exAddr _) = false
  by_cases hm : s.idEx.isMem = true
  · rw [(l.fires_operands (i := i) w hf).exAddr hm]
    exact hmis
  · exact exMisaligned_of_not_mem (by simpa using hm) _

/-- An access goes on behind itself. -/
theorem pcAfter_of_mem (w : s.Wf) (h : s.commits i = true) (hm : s.idEx.isMem = true) (f : Fired) :
    s.pcAfter i f = s.idEx.pc + s.idEx.len := by
  have c := w.flags.classes
  have hret : s.privRedirectValid i = false := by
    by_contra hc
    rw [(c.of_return (redirect_of_commits h (by simpa using hc))).1] at hm
    cases hm
  have hjump : s.idEx.isJump = false := by
    simp only [IdEx.isMem, Bool.or_eq_true] at hm
    rcases hm with (hm | hm) | hm
    · exact (c.of_load hm).2.2.2
    · exact (c.of_store hm).2.2.2
    · exact (c.of_atomic hm).2.2.2.2
  rw [pcAfter, hret, exJump_eq_none hjump]
  rfl

/-! ## The invariant -/

/-- An answer changes nothing but the data of the newest instruction. -/
theorem answered_cons (i : CoreIn) (s : Core) (f : Fired) (older : List Fired) :
    ∃ d, s.answered i (f :: older) = { f with data := d } :: older := by
  cases h : s.answer i f with
  | none => exact ⟨f.data, answered_of_none h⟩
  | some v => exact ⟨some v, answered_of_some h⟩

theorem Awaits.withData {f : Fired} {older : List Fired} (a : s.Awaits m g f older)
    (d : Option Word) {s' : Core} {g' : Ledger} (hlog : g'.log = { f with data := d } :: older)
    (hpc : g'.pc = g.pc) (hregs : ∀ r, r ≠ 0#5 → s'.wbReg r = s.wbReg r) :
    s'.Awaits m g' { f with data := d } older where
  log := hlog
  sound := ⟨a.sound.valid, a.sound.decoded, a.sound.legal, a.sound.aligned, a.sound.noCall,
    a.sound.noBreak⟩
  placed := a.placed
  isMem := a.isMem
  holds := a.holds
  behind := hpc.trans a.behind
  rs1 := a.rs1
  rs2 := a.rs2
  regs := fun r hr => by rw [hregs r hr]; exact a.regs r hr

theorem ledgerNext_of_no_fire (h : s.exFire i = false) :
    (s.ledgerNext i g).log = s.answered i g.log ∧ (s.ledgerNext i g).pc = g.pc := by
  constructor
  · exact logNext_of_not_commits (commits_of_no_fire h)
  · show s.pcNext i g.log g.pc = g.pc
    rw [pcNext, if_neg (by simp [h])]

/-- An instruction that stays unsettled. -/
theorem Executing.mem_stay (e : s.Executing m g) (hu : s.unsettled = true)
    (hfire : s.exFire i = false) (hnd : s.atomic.state ≠ .complete)
    (hwb : s.memWbNext i = s.memWb ∨ s.memWbNext i = { s.memWb with valid := false }) :
    ∃ f older, (s.next i fi).Awaits m (s.ledgerNext i g) f older := by
  obtain ⟨f, older, a⟩ := e.mem hu
  obtain ⟨hlog, hpc⟩ := ledgerNext_of_no_fire (g := g) hfire
  obtain ⟨d, hd⟩ := answered_cons i s f older
  rw [a.log, hd] at hlog
  exact ⟨_, older, a.withData d hlog hpc fun r hr => wbReg_next_stay hr hnd hwb⟩

/-- The access that fires becomes the unsettled instruction. -/
theorem Executing.mem_fires (e : s.Executing m g) (b : Booked s g) (h : s.commits i = true)
    (hm : s.idEx.isMem = true) (hmem : s.stallMem i = false) (hat : s.exMem.isAtomic = false)
    (hwb : s.memWbNext i = s.movedMemWb i)
    (hpage : i.dPaddr.extractLsb' 0 12 = s.exAddr.extractLsb' 0 12) :
    (s.next i fi).Awaits m (s.ledgerNext i g) (s.fires i (s.answered i g.log))
      (s.answered i g.log) := by
  obtain ⟨w, l, c, -⟩ := b
  have hf : s.exFire i = true := by
    simp only [commits, Bool.and_eq_true] at h
    exact h.1
  have hv := (exFire_iff.mp hf).1
  refine ⟨logNext_of_commits h, l.fires_sound w (e.ex hv).2 h, ?_, hm, (e.ex hv).1, ?_, rfl, rfl,
    fun r hr => l.moved w hmem hat hwb hr⟩
  · show i.dPaddr.extractLsb' 0 12 = (s.idEx.exAddr _).extractLsb' 0 12
    rw [(l.fires_operands (i := i) w hf).exAddr hm]
    exact hpage
  · show s.pcNext i g.log g.pc = _
    rw [pcNext, if_pos hf, pcAfter_of_mem w h hm]
    rfl

/-- **Each instruction is the one that stands in memory, until it settles.** -/
theorem Executing.next (e : s.Executing m g) (b : Booked s g) (t : s.front.Tracks m)
    (hpage : s.commits i = true → s.idEx.isMem = true →
      i.dPaddr.extractLsb' 0 12 = s.exAddr.extractLsb' 0 12) :
    (s.next i fi).Executing m (s.ledgerNext i g) where
  id := fun h => parses_idNext e.id t h
  ex := fun h => idExNext_holds e h
  op := e.op.next b.wf
  mem := by
    intro hu
    have w := b.wf
    cases w.step_cases i with
    | memWait hmem hidle hfire _ hm hwb =>
        exact e.mem_stay (by simp [unsettled, stallMem_memReq hmem]) hfire
          (by rw [hidle]; decide) (.inl hwb)
    | atomicWait hat _ hnd hfire _ _ hwb =>
        have hc : s.atomicComplete = false := by simpa [atomicComplete] using hnd
        exact e.mem_stay (by simp [unsettled, hat, hc]) hfire hnd (.inr hwb)
    | atomicDone _ _ _ _ _ hm => simp [unsettled, memReq, hm] at hu
    | mmuWait _ _ hat _ _ _ hm => simp [unsettled, memReq, hm, hat] at hu
    | divWait _ _ _ _ hdiv _ _ hm =>
        obtain ⟨-, h1, h2, h3⟩ := b.linked.exMemOfEx_waiting (i := i) w hdiv
        simp [unsettled, memReq, hm, h1, h2, h3] at hu
    | flow hmem _ hat hfire _ _ _ hm hwb =>
        have hmem' : s.commits i = true ∧ s.idEx.isMem = true := by
          simp only [unsettled, memReq, next_exMem, hm, exMemOfEx, Bool.or_eq_true,
            Bool.and_eq_true] at hu
          rw [commits, hfire]
          simp only [IdEx.isMem, Bool.or_eq_true, Bool.and_eq_true]
          rcases hu with ⟨hv, hls⟩ | ⟨⟨⟨hv, ha⟩, ht⟩, -⟩
          · exact ⟨hv, .inl hls⟩
          · exact ⟨⟨hv, ht⟩, .inr ha⟩
        exact ⟨_, _, e.mem_fires b hmem'.1 hmem'.2 hmem hat hwb (hpage hmem'.1 hmem'.2)⟩

/-! ## Registers -/

/-- An access in EX/MEM forwards nothing. -/
theorem Linked.pipeReg_eq (l : s.Linked g.log) (w : s.Wf) (hu : s.unsettled = true)
    (r : BitVec 5) : s.pipeReg r = s.wbReg r := by
  have hfwd : s.exMemFwdEn = false := by
    by_contra hc
    simp only [exMemFwdEn, Bool.not_eq_false, Bool.and_eq_true, Bool.not_eq_true'] at hc
    obtain ⟨⟨⟨hv, hen⟩, hl⟩, -⟩ := hc
    have hna : s.exMem.isAtomic = false := by
      by_contra ha
      rw [(w.atomicMem (by simpa using ha)).2.2.2] at hen
      cases hen
    have hst : s.exMem.isStore = true := by
      simpa [unsettled, memReq, hv, hl, hna] using hu
    obtain ⟨f', older', -, hin, -⟩ := l.head hv (by simp [hst])
    have hw := (hin.flags.classes.of_store (by rw [← hin.isStore]; exact hst)).2.2.1
    rw [hin.wbEn, hw] at hen
    cases hen
  rw [pipeReg, hfwd]
  rfl

/-- The registers of the state are those that the settled instructions leave. -/
theorem Executing.settled_reg (e : s.Executing m g) (b : Booked s g) {r : BitVec 5} (hr : r ≠ 0#5) :
    archReg (s.settled g.log) r = some (s.settledReg r) := by
  obtain ⟨w, l, -, -⟩ := b
  rw [settledReg, if_neg hr]
  by_cases hu : s.unsettled = true
  · obtain ⟨f, older, a⟩ := e.mem hu
    have hc : (s.atomicComplete && s.exMem.rd == r) = false := by
      by_contra hc
      simp only [Bool.not_eq_false, Bool.and_eq_true] at hc
      have hq : s.memReq = true := by simpa [unsettled, hc.1] using hu
      rw [atomicComplete_iff, w.idle_of_memReq hq] at hc
      cases hc.1
    rw [hc, settled, if_pos hu, a.log, List.tail_cons, a.regs r hr, l.pipeReg_eq w hu]
    rfl
  · rw [settled, if_neg hu]
    simp only [unsettled, Bool.not_eq_true, Bool.or_eq_false_iff, Bool.and_eq_false_iff,
      Bool.not_eq_false'] at hu
    by_cases hd : (s.atomicComplete && s.exMem.rd == r) = true
    · rw [if_pos hd]
      simp only [Bool.and_eq_true, beq_iff_eq, atomicComplete_iff] at hd
      obtain ⟨hdone, hrd⟩ := hd
      have hat := (w.busy (by rw [hdone]; decide)).1
      obtain ⟨f, older, hlog, hin, -, hdata⟩ := l.head (w.atomicMem hat).1 (by simp [hat])
      have hfa : f.insn.isAtomic = true := by rw [← hin.isAtomic]; exact hat
      have hdest : f.dest = r := by
        rw [Fired.dest, if_pos (by simp [IdEx.writesReg, hfa]), ← hin.rd, hrd]
      rw [hlog, archReg_of_dest hr hdest, Fired.result, if_pos (by simp [Fired.awaits, hfa]),
        hdata hfa, atomicData, if_pos (.inr hdone)]
    · rw [if_neg hd]
      refine l.regs r hr ?_
      by_contra hp
      simp only [pending, Bool.not_eq_false, Bool.and_eq_true, Bool.or_eq_true, beq_iff_eq] at hp
      obtain ⟨⟨hv, hl | ha⟩, hrd⟩ := hp
      · simp [memReq, hv, hl] at hu
      · rcases hu.2 with h | h
        · rw [ha] at h
          cases h
        · simp [h, hrd] at hd

theorem archRegs_zero (log : List Fired) : archRegs log 0#5 = 0#32 := by
  rw [archRegs, archReg_zero]
  rfl

theorem Executing.isaState_reg (e : s.Executing m g) (b : Booked s g) (mem : Word → BitVec 8) :
    (s.isaState g mem).reg = archRegs (s.settled g.log) := by
  funext r
  by_cases hr : r = 0#5
  · rw [hr, archRegs_zero]
    rfl
  · rw [archRegs, e.settled_reg b hr]
    rfl

end Core

/-- A state with the registers of a list reads them. -/
theorem get_archRegs {st : Rv32.State} {log : List Fired} (h : st.reg = archRegs log)
    (r : BitVec 5) : st.get r = archRegs log r := by
  rw [Rv32.State.get, h]
  split
  · rename_i hr
    rw [hr, Core.archRegs_zero]
  · rfl

/-- One more instruction writes its result. -/
theorem set_archRegs (st : Rv32.State) {log : List Fired} (h : st.reg = archRegs log) (f : Fired)
    {v : Word} (hv : f.dest ≠ 0#5 → f.result = some v) :
    (st.set f.dest v).reg = archRegs (f :: log) := by
  funext r
  by_cases hd : f.dest = 0#5
  · rw [Rv32.State.set]
    simp only [hd, if_true, h]
    by_cases hr : r = 0#5
    · rw [hr, Core.archRegs_zero, Core.archRegs_zero]
    · rw [archRegs, archRegs, archReg_of_ne (by rw [hd]; exact Ne.symm hr)]
  · rw [Rv32.State.set]
    simp only [hd, if_false, h]
    by_cases hr : f.dest = r
    · subst hr
      rw [Function.update_self, archRegs, archReg_of_dest hd rfl, hv hd]
      rfl
    · rw [Function.update_of_ne (Ne.symm hr), archRegs, archRegs, archReg_of_ne hr]

end MelonSoc
