import MelonSoc.Isa.Settled

set_option autoImplicit false

/-! # The core executes the program

The core with a memory on `core_data` is compared with the machine of the instruction set. In every
cycle the state behind the settled instructions makes the steps of the instructions that settle in
it: first the access that leaves MEM or the atomic unit, then the instruction that fires in EX. A
trap sets the program counter. All other cycles leave the state alone.
-/

namespace MelonSoc

namespace Core

variable {m : FetchMem} {ram : BitVec 30 → Prop} {i : CoreIn} {fi : FetchIn} {s : Core}
  {g : Ledger} {mem : Word → BitVec 8}

/-! ## The state in the cases of a step -/

theorem settled_of_settled {log : List Fired} (hu : s.unsettled = false) : s.settled log = log := by
  rw [settled, if_neg (by simp [hu])]

theorem settled_awaits {f : Fired} {older : List Fired} (a : s.Awaits m g f older)
    (hu : s.unsettled = true) : s.settled g.log = older := by
  rw [settled, if_pos hu, a.log]
  rfl

theorem isaState_awaits (e : s.Executing m g) (b : Booked s g) {f : Fired} {older : List Fired}
    (a : s.Awaits m g f older) (hu : s.unsettled = true) :
    s.isaState g mem = { reg := archRegs older, pc := f.insn.pc, mem := mem } := by
  have hreg := e.isaState_reg b mem
  rw [settled_awaits a hu] at hreg
  have hpc : (s.isaState g mem).pc = f.insn.pc := by
    show s.settledPc g = _
    rw [settledPc, if_pos hu, a.log]
    rfl
  rw [← hreg, ← hpc]
  rfl

theorem isaState_settled (e : s.Executing m g) (b : Booked s g) (hu : s.unsettled = false) :
    s.isaState g mem = { reg := archRegs g.log, pc := g.pc, mem := mem } := by
  have hreg := e.isaState_reg b mem
  rw [settled_of_settled hu] at hreg
  have hpc : (s.isaState g mem).pc = g.pc := by
    show s.settledPc g = _
    rw [settledPc, if_neg (by simp [hu])]
  rw [← hreg, ← hpc]
  rfl

/-- The steps that the state makes in a cycle. -/
structure Advances (m : FetchMem) (ram : BitVec 30 → Prop) (st st' : Rv32.State)
    (done done' : List Fired) (traps : Nat) (es : List Rv32.Event) : Prop where
  run : Rv32.Run m.Holds (fun b => ram (wordOf b)) st es st'
  words : es.filterMap Rv32.Event.word ++ done.map (fun f => f.insn.instr)
    = done'.map fun f => f.insn.instr
  traps : es.countP Rv32.Event.isTrap = traps

theorem Advances.trans {st st' st'' : Rv32.State} {done done' done'' : List Fired} {k k' : Nat}
    {es es' : List Rv32.Event} (h : Advances m ram st st' done done' k es)
    (h' : Advances m ram st' st'' done' done'' k' es') :
    Advances m ram st st'' done done'' (k + k') (es' ++ es) where
  run := h.run.append h'.run
  words := by rw [List.filterMap_append, List.append_assoc, h.words, h'.words]
  traps := by rw [List.countP_append, h.traps, h'.traps, Nat.add_comm]

theorem Advances.rest (st : Rv32.State) {done done' : List Fired}
    (h : done.map (fun f => f.insn.instr) = done'.map fun f => f.insn.instr) :
    Advances m ram st st done done' 0 [] :=
  ⟨.start, h, rfl⟩

theorem Advances.insn {st st' : Rv32.State} {done done' : List Fired} {x : Rv32.Answer} {w : Word}
    (h : Rv32.Step m.Holds (fun b => ram (wordOf b)) st (.insn w x) st')
    (hd : w :: done.map (fun f => f.insn.instr) = done'.map fun f => f.insn.instr) :
    Advances m ram st st' done done' 0 [.insn w x] :=
  ⟨Rv32.Run.start.step h, hd, rfl⟩

/-! ## The access that leaves MEM -/

/-- A load finds what the memory holds, where the memory is. -/
theorem seen_of_ram {a w : Word} (h : ram (wordOf a) → w = wordAround mem a) (b : Word)
    (hb : ram (wordOf b)) : wordMem mem a w b = mem b := by
  by_cases hw : wordOf b = wordOf a
  · rw [hw] at hb
    rw [h hb, wordMem_wordAround]
  · rw [wordMem, if_neg hw]

/-- When MEM lets a load or store go, its transaction is acknowledged. -/
theorem Wf.acked_of_leaving (w : s.Wf) (hq : s.memReq = true) (hs : s.stallMem i = false) :
    s.acked i = true := by
  have hidle := w.idle_of_memReq hq
  simp only [stallMem, hq, Bool.true_and, Bool.or_eq_false_iff, Bool.not_eq_false'] at hs
  simp [acked, dataReq, hidle, hq, hs]

/-- An access that is no reserved word has the effect of its instruction. -/
theorem Awaits.step {f : Fired} {older : List Fired} (a : s.Awaits m g f older) {st' : Rv32.State}
    (x : Rv32.Answer) (hseen : ∀ b, ram (wordOf b) → x.seen b = mem b)
    (he : ∀ insn, Rv32.encode insn = f.insn.instr →
      f.Reads { reg := archRegs older, pc := f.insn.pc, mem := mem } →
      Rv32.effect f.insn.len x insn { reg := archRegs older, pc := f.insn.pc, mem := mem }
        = some st') :
    Rv32.Step m.Holds (fun b => ram (wordOf b))
      { reg := archRegs older, pc := f.insn.pc, mem := mem } (.insn f.insn.instr x) st' := by
  have hreads : f.Reads { reg := archRegs older, pc := f.insn.pc, mem := mem } := by
    refine ⟨rfl, ?_, ?_⟩
    · rw [get_archRegs rfl, ← a.rs1]
    · rw [get_archRegs rfl, ← a.rs2]
  rcases a.sound.encodes with hr | ⟨insn, hi⟩
  · have hm := (a.sound.reserved hr).1
    rw [a.isMem] at hm
    cases hm
  · exact .insn a.holds hi hseen (he insn hi hreads)

/-- A load that leaves MEM. -/
theorem Awaits.load_leaves {f : Fired} {older : List Fired} (a : s.Awaits m g f older)
    (b : Booked s g) (hq : s.memReq = true) (hs : s.stallMem i = false)
    (hl : s.exMem.isLoad = true)
    (hread : ram (wordOf s.exMem.addr) → i.datR = wordAround mem s.exMem.addr) :
    ∃ x, Rv32.Step m.Holds (fun b => ram (wordOf b))
      { reg := archRegs older, pc := f.insn.pc, mem := mem } (.insn f.insn.instr x)
      { reg := archRegs (s.answered i g.log), pc := g.pc, mem := s.memoryNext i mem } := by
  obtain ⟨w, l, -, -⟩ := b
  have hv : s.exMem.valid = true := by
    simp only [memReq, Bool.and_eq_true] at hq
    exact hq.1
  obtain ⟨f', older', hlog, hload, hdest, -, hans⟩ := l.answer_load hv hl hs
  obtain ⟨f'', older'', hlog', hin, -⟩ := l.head hv (by simp [hl])
  rw [a.log] at hlog hlog'
  obtain ⟨rfl, rfl⟩ := List.cons.inj hlog
  obtain ⟨rfl, rfl⟩ := List.cons.inj hlog'
  have hidle := w.idle_of_memReq hq
  have hst : s.exMem.isStore = false := by
    rw [hin.isStore]
    exact (hin.flags.classes.of_load hload).1
  have hmem : s.memoryNext i mem = mem := by
    rw [memoryNext, w.acked_of_leaving hq hs, if_pos rfl, Txn.store]
    simp [WbReq.txn, dataReq, hidle, hst]
  refine ⟨{ phys := f.paddr, seen := wordMem mem f.paddr i.datR, held := false, csr := 0#32,
            epc := 0#32 }, ?_⟩
  refine a.step _ (seen_of_ram (by rw [← hin.addr]; exact hread)) fun insn hi hr => ?_
  rw [a.sound.effect_load hi hr a.placed hload rfl rfl, hmem, a.log, answered_of_some hans, a.behind,
    hin.funct3, hin.addr]
  have hset := set_archRegs { reg := archRegs older, pc := f.insn.pc, mem := mem } rfl
    { f with data := some (formatLoadData i.datR f.insn.funct3 (f.paddr.extractLsb' 0 2)) }
    (v := formatLoadData i.datR f.insn.funct3 (f.paddr.extractLsb' 0 2))
    (fun _ => by simp [Fired.result, Fired.awaits, hload])
  rw [← hset]
  rfl

/-- A store that leaves MEM. -/
theorem Awaits.store_leaves {f : Fired} {older : List Fired} (a : s.Awaits m g f older)
    (b : Booked s g) (hq : s.memReq = true) (hs : s.stallMem i = false)
    (hl : s.exMem.isLoad = false) :
    ∃ x, Rv32.Step m.Holds (fun b => ram (wordOf b))
      { reg := archRegs older, pc := f.insn.pc, mem := mem } (.insn f.insn.instr x)
      { reg := archRegs (s.answered i g.log), pc := g.pc, mem := s.memoryNext i mem } := by
  obtain ⟨w, l, -, -⟩ := b
  have hq' := hq
  simp only [memReq, hl, Bool.false_or, Bool.and_eq_true] at hq'
  obtain ⟨hv, hst⟩ := hq'
  have hat : s.exMem.isAtomic = false := by
    by_contra hc
    rw [(w.atomicMem (by simpa using hc)).2.2.1] at hst
    cases hst
  obtain ⟨f', older', hlog, hin, -⟩ := l.head hv (by simp [hst])
  rw [a.log] at hlog
  obtain ⟨rfl, rfl⟩ := List.cons.inj hlog
  have hfs : f.insn.isStore = true := by rw [← hin.isStore]; exact hst
  obtain ⟨-, hna, hw, -⟩ := hin.flags.classes.of_store hfs
  have hcyc : s.dataReq.cyc = true := by simp [dataReq, w.idle_of_memReq hq, hq]
  obtain ⟨f', older', hlog, -, -, htxn⟩ := l.bus w hcyc
  rw [a.log] at hlog
  obtain ⟨rfl, rfl⟩ := List.cons.inj hlog
  have hans : s.answered i g.log = f :: older := by
    rw [l.answered_eq w hat (fun _ h => by rw [hl] at h; cases h), a.log]
  have hmem : s.memoryNext i mem = s.dataReq.txn.store mem := by
    rw [memoryNext, w.acked_of_leaving hq hs, if_pos rfl]
  refine ⟨{ phys := f.paddr, seen := mem, held := false, csr := 0#32, epc := 0#32 }, ?_⟩
  refine a.step _ (fun _ _ => rfl) fun insn hi hr => ?_
  rw [a.sound.effect_store hi hr a.placed hfs rfl (htxn hna), hans, a.behind, hmem]
  have hset := set_archRegs { reg := archRegs older, pc := f.insn.pc, mem := mem } rfl f
    (v := 0#32) (fun hd => absurd (by simp [Fired.dest, hw]) hd)
  rw [← hset]
  have hd : f.dest = 0#5 := by simp [Fired.dest, hw]
  rw [hd]
  rfl

/-- What `core_data` delivers where the memory is. -/
structure ReadsBack (ram : BitVec 30 → Prop) (i : CoreIn) (s : Core) (mem : Word → BitVec 8) :
    Prop where
  load : s.memReq = true → s.exMem.isLoad = true → s.stallMem i = false →
    ram (wordOf s.exMem.addr) → i.datR = wordAround mem s.exMem.addr
  capture : s.atomic.state = .lrCapture ∨ s.atomic.state = .amoCapture →
    ram (wordOf s.atomic.addr) → i.datR = wordAround mem s.atomic.addr

theorem answered_words (log : List Fired) :
    (s.answered i log).map (fun f => f.insn.instr) = log.map fun f => f.insn.instr := by
  cases log with
  | nil => rfl
  | cons f older =>
      obtain ⟨d, hd⟩ := answered_cons i s f older
      rw [hd]
      rfl

/-- MEM lets its instruction go. -/
theorem Executing.leaves (e : s.Executing m g) (b : Booked s g) (r : s.ReadsBack ram i mem)
    (hs : s.stallMem i = false) (hat : s.exMem.isAtomic = false) :
    ∃ es, Advances m ram (s.isaState g mem)
      { reg := archRegs (s.answered i g.log), pc := g.pc, mem := s.memoryNext i mem }
      (s.settled g.log) (s.answered i g.log) 0 es := by
  have w := b.wf
  by_cases hq : s.memReq = true
  · have hu : s.unsettled = true := by simp [unsettled, hq]
    obtain ⟨f, older, a⟩ := e.mem hu
    have hstep : ∃ x, Rv32.Step m.Holds (fun b => ram (wordOf b))
        { reg := archRegs older, pc := f.insn.pc, mem := mem } (.insn f.insn.instr x)
        { reg := archRegs (s.answered i g.log), pc := g.pc, mem := s.memoryNext i mem } := by
      by_cases hl : s.exMem.isLoad = true
      · exact a.load_leaves b hq hs hl (r.load hq hl hs)
      · exact a.store_leaves b hq hs (by simpa using hl)
    obtain ⟨x, hx⟩ := hstep
    rw [isaState_awaits e b a hu]
    refine ⟨_, .insn hx ?_⟩
    rw [answered_words, settled_awaits a hu, a.log]
    rfl
  · simp only [Bool.not_eq_true] at hq
    have hu : s.unsettled = false := by simp [unsettled, hq, hat]
    have hidle := w.idle_of_noAtomic hat
    have hans : s.answered i g.log = g.log := by
      refine b.linked.answered_eq w hat fun hv hl => ?_
      simp [memReq, hv, hl] at hq
    have hmem : s.memoryNext i mem = mem := by
      rw [memoryNext, if_neg]
      simp [acked, dataReq, hidle, hq]
    rw [isaState_settled e b hu, hans, hmem, settled_of_settled hu]
    exact ⟨[], .rest _ rfl⟩

/-! ## The instruction that fires -/

/-- A return that fires without a trap is taken. -/
theorem redirect_of_return (h : s.commits i = true) (hr : s.idEx.isReturn = true) :
    s.privRedirectValid i = true := by
  have hnone := exceptionInfo_of_commits h
  simp only [commits, Bool.and_eq_true, Bool.not_eq_true'] at h
  obtain ⟨hf, ht⟩ := h
  have hv := (exFire_iff.mp hf).1
  have hx : s.xretIllegal = false := by
    by_contra hc
    simp only [Bool.not_eq_false] at hc
    unfold exceptionInfo at hnone
    simp only [hv, hc, Bool.or_true, Bool.true_and, if_true] at hnone
    split at hnone
    · cases hnone
    · split at hnone
      · cases hnone
      · cases hnone
  have ht' : s.csr.trapTaken (s.privIn i) = false := ht
  have hx' : s.csr.xretIllegal (s.privIn i).mret (s.privIn i).sret (s.privIn i).sfenceVma
      (s.privIn i).wfi = false := hx
  have hr' : ((s.privIn i).mret || (s.privIn i).sret) = true := hr
  have hf' : (s.privIn i).exFire = true := hf
  rw [privRedirectValid, PrivCsr.redirectValid, PrivCsr.returnTaken, ht', hx', hr', hf']
  rfl

/-- The instruction that fires without an access has its effect at once. -/
theorem Executing.fires_step (ram : BitVec 30 → Prop) (e : s.Executing m g) (b : Booked s g) (h : s.commits i = true)
    (hm : s.idEx.isMem = false) (mem : Word → BitVec 8) :
    ∃ x, Rv32.Step m.Holds (fun b => ram (wordOf b))
      { reg := archRegs (s.answered i g.log), pc := g.pc, mem := mem } (.insn s.idEx.instr x)
      { reg := archRegs (s.logNext i g.log), pc := s.pcNext i g.log g.pc, mem := mem } := by
  obtain ⟨w, l, c, -⟩ := b
  have hf : s.exFire i = true := by
    simp only [commits, Bool.and_eq_true] at h
    exact h.1
  have hv := (exFire_iff.mp hf).1
  obtain ⟨hholds, hdec⟩ := e.ex hv
  have hsound := l.fires_sound w hdec h
  rw [pcNext, if_pos hf, logNext_of_commits h]
  generalize hL : s.answered i g.log = L at hsound ⊢
  have hpc : s.idEx.pc = g.pc := c.ex hv
  have hreads : (s.fires i L).Reads { reg := archRegs L, pc := g.pc, mem := mem } :=
    ⟨hpc.symm, get_archRegs rfl _, get_archRegs rfl _⟩
  have haw : (s.fires i L).awaits = false := by
    simp only [IdEx.isMem, Bool.or_eq_false_iff] at hm
    show (s.idEx.isLoad || s.idEx.isAtomic) = false
    rw [hm.1.1, hm.2]
    rfl
  have hset := set_archRegs { reg := archRegs L, pc := g.pc, mem := mem } rfl (s.fires i L)
    (v := s.idEx.resultOf (s.fires i L).rs1 (s.fires i L).rs2 (s.fires i L).csrRdata)
    (fun _ => by rw [Fired.result, if_neg (by simp [haw])]; rfl)
  have htarget := exJump_target w.flags.classes hv (s.fires i L).rs1 (s.fires i L).rs2
  have hafter : s.pcAfter i (s.fires i L) =
      if s.idEx.isReturn then s.csr.redirectPc (s.privIn i)
      else s.idEx.target (s.fires i L).rs1 (s.fires i L).rs2 := by
    rw [pcAfter, htarget]
    by_cases hr : s.privRedirectValid i = true
    · rw [if_pos hr, if_pos (redirect_of_commits h hr)]
    · rw [if_neg hr, if_neg fun hret => hr (redirect_of_return h hret)]
  refine ⟨{ phys := i.dPaddr, seen := mem, held := false, csr := s.exCsrRdata i
            epc := s.csr.redirectPc (s.privIn i) }, ?_⟩
  rw [hafter, ← hset]
  rw [← hpc] at hreads ⊢
  rcases hsound.encodes with hres | ⟨insn, hi⟩
  · obtain ⟨-, hret, ht⟩ := hsound.reserved hres
    have hret' : s.idEx.isReturn = false := hret
    have ht' : s.idEx.target (s.fires i L).rs1 (s.fires i L).rs2 = s.idEx.pc + s.idEx.len := ht
    rw [hret', ht']
    refine .reserved _ _ _ hholds ?_
    rintro ⟨insn, hinsn⟩
    refine not_reserved_encode insn ?_
    rw [hinsn]
    exact hres
  · refine .insn hholds hi (fun _ _ => rfl) ?_
    exact hsound.effect_plain hi hreads hm rfl

/-- A trap sets the program counter. -/
theorem pcNext_of_trap (h : s.privTrapTaken i = true) (log : List Fired) (pc : Word) :
    s.pcNext i log pc = s.csr.redirectPc (s.privIn i) := by
  have hr : s.privRedirectValid i = true := by
    have h' : s.csr.trapTaken (s.privIn i) = true := h
    simp [privRedirectValid, PrivCsr.redirectValid, h']
  rw [pcNext, if_pos (privTrapTaken_exFire h), pcAfter, if_pos hr]

/-! ## The atomic unit -/

/-- What the atomic unit has to do, and the word it has read. -/
def AtomicPhase (ram : BitVec 30 → Prop) (s : Core) (mem : Word → BitVec 8) : Prop :=
  match s.atomic.state with
  | .lrRead => s.exMem.isLR = true
  | .lrCapture => s.exMem.isLR = true
  | .scWrite => s.exMem.isLR = false ∧ s.exMem.isSC = true
  | .amoRead => s.exMem.isLR = false ∧ s.exMem.isSC = false
  | .amoCapture => s.exMem.isLR = false ∧ s.exMem.isSC = false
  | .amoWrite => (s.exMem.isLR = false ∧ s.exMem.isSC = false) ∧
      (ram (wordOf s.atomic.addr) → s.atomic.result = wordAround mem s.atomic.addr) ∧
      s.atomic.newValue = amoCompute s.atomic.op s.atomic.result s.atomic.storeData
  | _ => True

/-- While the unit works, its strobe and the acknowledge end a transaction. -/
theorem Wf.acked_of_busy (w : s.Wf) (h : s.atomic.state ≠ .idle) :
    s.acked i = (s.atomic.started && i.ack) := by
  have hstb := w.stb_of_busy h
  rw [acked, hstb]
  cases hs : s.atomic.started with
  | false => simp
  | true =>
      rw [hs] at hstb
      rw [dataReq_stb_cyc hstb]
      rfl

/-- In a capture nothing is on the bus. -/
theorem Wf.not_started (w : s.Wf) (h : s.atomicBus = false) : s.atomic.started = false := by
  by_contra hc
  rw [w.started (by simpa using hc)] at h
  cases h

theorem Linked.lr_of_sc (l : s.Linked g.log) (w : s.Wf) (hat : s.exMem.isAtomic = true)
    (h : s.exMem.isSC = true) : s.exMem.isLR = false := by
  obtain ⟨f, older, -, hin, -⟩ := l.head (w.atomicMem hat).1 (by simp [hat])
  rw [hin.isLR]
  exact (hin.flags.classes.sc (by rw [← hin.isSC]; exact h)).2

theorem AtomicPhase.next (p : s.AtomicPhase ram mem) (b : Booked s g) (r : s.ReadsBack ram i mem) :
    (s.next i fi).AtomicPhase ram (s.memoryNext i mem) := by
  obtain ⟨w, l, -, -⟩ := b
  by_cases hidle : s.atomic.state = .idle
  · by_cases hat : s.exMem.isAtomic = true
    · have hsc := l.lr_of_sc w hat
      have hm := w.atomic_stays (i := i) hat (by rw [hidle]; decide)
      simp only [AtomicPhase, next_atomic, next_exMem, hm, atomicNext, hidle, (w.atomicMem hat).1,
        hat, AtomicUnit.accept, beq_self_eq_true, Bool.and_self, if_true]
      cases h1 : s.exMem.isSC <;> cases h2 : s.exMem.isLR <;>
        cases h3 : s.atomic.holdsReservation s.exMem.addr <;> simp_all
    · simp only [Bool.not_eq_true] at hat
      simp [AtomicPhase, atomicNext, hidle, hat, AtomicUnit.advance]
  · by_cases hdone : s.atomic.state = .complete
    · simp [AtomicPhase, atomicNext, hdone, AtomicUnit.advance]
    · have hat := (w.busy hidle).1
      have hm := w.atomic_stays (i := i) hat hdone
      have hack := w.acked_of_busy (i := i) hidle
      have hcapture := r.capture
      revert p
      simp only [AtomicPhase, next_atomic, next_exMem, hm, atomicNext, AtomicUnit.advance,
        AtomicUnit.busPhase, memoryNext, hack]
      cases hs : s.atomic.state with
      | idle => exact absurd hs hidle
      | complete => exact absurd hs hdone
      | amoCapture =>
          have hns : s.atomic.started = false := w.not_started (by simp [atomicBus, hs])
          simp_all
      | _ =>
          cases hst : s.atomic.started <;> cases ha : i.ack <;> simp_all

/-- What the unit has done when it has its result: `v` is the word it has read. -/
theorem Wf.atomic_settles (w : s.Wf) (p : s.AtomicPhase ram mem) (r : s.ReadsBack ram i mem)
    (hsc : s.exMem.isSC = true → s.exMem.isLR = false)
    (hat : s.exMem.isAtomic = true) (hnd : s.atomic.state ≠ .complete)
    (hc : (s.atomicNext i).state = .complete) :
    ∃ (held : Bool) (v : Word), (ram (wordOf s.exMem.addr) → v = wordAround mem s.exMem.addr) ∧
      (s.atomicNext i).result
        = (if s.exMem.isSC then (if held then 0#32 else 1#32) else v) ∧
      s.memoryNext i mem = (if s.exMem.isLR then mem
        else if s.exMem.isSC then (if held then wordMem mem s.exMem.addr s.exMem.rs2Value else mem)
        else wordMem mem s.exMem.addr (amoCompute s.exMem.amoOp v s.exMem.rs2Value)) := by
  by_cases hidle : s.atomic.state = .idle
  · have hq : s.memReq = false := by
      simp [memReq, (w.atomicMem hat).2.1, (w.atomicMem hat).2.2.1]
    have hack : s.acked i = false := by simp [acked, dataReq, hidle, hq]
    refine ⟨false, wordAround mem s.exMem.addr, fun _ => rfl, ?_⟩
    revert hc
    simp only [atomicNext, hidle, (w.atomicMem hat).1, hat, AtomicUnit.accept, beq_self_eq_true,
      Bool.and_self, if_true, memoryNext, hack]
    cases h1 : s.exMem.isSC <;> cases h2 : s.exMem.isLR <;>
      cases h3 : s.atomic.holdsReservation s.exMem.addr <;> simp_all
  · obtain ⟨haddr, hdata, hop⟩ := w.taken hidle
    have hack := w.acked_of_busy (i := i) hidle
    have hcapture := r.capture
    rw [← haddr, ← hdata, ← hop]
    revert p hc
    simp only [AtomicPhase, atomicNext, AtomicUnit.advance, AtomicUnit.busPhase, memoryNext, hack]
    cases hs : s.atomic.state with
    | idle => exact absurd hs hidle
    | complete => exact absurd hs hnd
    | lrCapture =>
        intro hlr _
        have hns : s.atomic.started = false := w.not_started (by simp [atomicBus, hs])
        have hno : s.exMem.isSC = false := by
          by_contra hcon
          rw [hsc (by simpa using hcon)] at hlr
          cases hlr
        exact ⟨false, i.datR, hcapture (.inl hs), by simp [hno], by simp [hns, hlr]⟩
    | scWrite =>
        intro hk hc
        obtain ⟨hst, ha⟩ : s.atomic.started = true ∧ i.ack = true := by
          revert hc
          cases s.atomic.started <;> cases i.ack <;> simp
        refine ⟨true, wordAround mem s.atomic.addr, fun _ => rfl, by simp [hk.2, hst, ha], ?_⟩
        simp [hk.1, hk.2, Txn.store, WbReq.txn, dataReq, hs, mergeBytes_word, hst, ha]
    | amoWrite =>
        intro hk hc
        obtain ⟨hst, ha⟩ : s.atomic.started = true ∧ i.ack = true := by
          revert hc
          cases s.atomic.started <;> cases i.ack <;> simp
        refine ⟨false, s.atomic.result, hk.2.1, by simp [hk.1.2, hst, ha], ?_⟩
        simp [hk.1.1, hk.1.2, Txn.store, WbReq.txn, dataReq, hs, mergeBytes_word, hk.2.2, hst, ha]
    | _ => cases hst : s.atomic.started <;> cases ha : i.ack <;> simp

/-- The atomic that settles has the effect of its instruction. -/
theorem Awaits.atomic_leaves {f : Fired} {older : List Fired} (a : s.Awaits m g f older)
    (e : s.Executing m g) (b : Booked s g) (p : s.AtomicPhase ram mem) (r : s.ReadsBack ram i mem)
    (hat : s.exMem.isAtomic = true) (hnd : s.atomic.state ≠ .complete)
    (hc : (s.atomicNext i).state = .complete) :
    ∃ x, Rv32.Step m.Holds (fun b => ram (wordOf b))
      { reg := archRegs older, pc := f.insn.pc, mem := mem } (.insn f.insn.instr x)
      { reg := archRegs (s.answered i g.log), pc := g.pc, mem := s.memoryNext i mem } := by
  obtain ⟨w, l, -, -⟩ := b
  obtain ⟨hv, hld, -, -⟩ := w.atomicMem hat
  have hsc := l.lr_of_sc w hat
  obtain ⟨held, v, hram, hres, hmem⟩ := w.atomic_settles p r hsc hat hnd hc
  obtain ⟨f', older', hlog, hin, -, hd⟩ := l.head hv (by simp [hat])
  rw [a.log] at hlog
  obtain ⟨rfl, rfl⟩ := List.cons.inj hlog
  have hfa : f.insn.isAtomic = true := by rw [← hin.isAtomic]; exact hat
  have hdata := atomicData_next (i := i) hin hat hv hld hnd (hd hfa)
  have hop : s.exMem.amoOp = f.insn.amoOp := e.op hat f (by rw [a.log]; rfl)
  obtain ⟨hamo, hvalid, hlr5, hsc5⟩ := a.sound.decodes.funct5 hfa
  -- the data of the instruction is the result of the unit
  obtain ⟨d, hans, hdat⟩ : ∃ d, s.answered i g.log = { f with data := some d } :: older ∧
      d = (s.atomicNext i).result := by
    have hcomplete : atomicData (s.atomicNext i) = some (s.atomicNext i).result := by
      rw [atomicData, if_pos (.inr hc)]
    rw [hcomplete] at hdata
    rw [a.log]
    cases ha : s.answer i f with
    | none =>
        rw [ha] at hdata
        refine ⟨(s.atomicNext i).result, ?_, rfl⟩
        rw [answered_of_none ha, ← hdata]
    | some v' =>
        rw [ha] at hdata
        exact ⟨v', answered_of_some ha, Option.some.inj hdata⟩
  refine ⟨{ phys := f.paddr, seen := wordMem mem f.paddr v, held := held, csr := 0#32,
            epc := 0#32 }, ?_⟩
  refine a.step _ (seen_of_ram (by rw [← hin.addr]; exact hram)) fun insn hi hr => ?_
  rw [a.sound.effect_atomic hi hr a.placed hfa rfl rfl, hans, a.behind]
  have hset := set_archRegs { reg := archRegs older, pc := f.insn.pc, mem := mem } rfl
    { f with data := some d } (v := d) (fun _ => by simp [Fired.result, Fired.awaits, hfa])
  have hd' : (if f.insn.isSC then (if held then 0#32 else 1#32) else v) = d := by
    rw [hdat, hres, hin.isSC]
  have hm' : (if f.insn.isLR then mem
      else if f.insn.isSC then (if held then wordMem mem f.paddr f.rs2 else mem)
      else wordMem mem f.paddr (amoValue (funct5Of f.insn.instr) v f.rs2)) = s.memoryNext i mem := by
    rw [hmem, hin.isLR, hin.isSC, hin.addr, hop, hamo]
    cases h1 : f.insn.isLR with
    | true => rfl
    | false =>
        have hrs2 := hin.rs2Value hat (by rw [hin.isLR]; exact h1)
        rw [hrs2]
        cases h2 : f.insn.isSC with
        | true => rfl
        | false =>
            rw [amoCompute_amoOpOf hvalid (fun h => by rw [hlr5.mpr h] at h1; cases h1)
              (fun h => by rw [hsc5.mpr h] at h2; cases h2)]
  rw [← hset, hd', hm']
  rfl

/-! ## A cycle -/

/-- While the newest instruction stays unsettled nothing happens. -/
theorem Executing.stays (e : s.Executing m g) (b : Booked s g)
    (e' : (s.next i fi).Executing m (s.ledgerNext i g)) (b' : Booked (s.next i fi) (s.ledgerNext i g))
    (hu : s.unsettled = true) (hu' : (s.next i fi).unsettled = true) (hfire : s.exFire i = false)
    (hack : s.memoryNext i mem = mem) :
    Advances m ram (s.isaState g mem)
      ((s.next i fi).isaState (s.ledgerNext i g) (s.memoryNext i mem)) (s.settled g.log)
      ((s.next i fi).settled (s.ledgerNext i g).log) 0 [] := by
  obtain ⟨f, older, a⟩ := e.mem hu
  obtain ⟨f', older', a'⟩ := e'.mem hu'
  obtain ⟨hlog, -⟩ := ledgerNext_of_no_fire (g := g) hfire
  obtain ⟨d, hd⟩ := answered_cons i s f older
  rw [a'.log, a.log, hd] at hlog
  obtain ⟨rfl, rfl⟩ := List.cons.inj hlog
  rw [isaState_awaits e b a hu, isaState_awaits e' b' a' hu', hack, settled_awaits a hu,
    settled_awaits a' hu']
  exact .rest _ rfl

/-- A cycle in which nothing fires and nothing is left unsettled. -/
theorem Executing.drains (mem : Word → BitVec 8) (e' : (s.next i fi).Executing m (s.ledgerNext i g))
    (b' : Booked (s.next i fi) (s.ledgerNext i g)) (hu' : (s.next i fi).unsettled = false)
    (hfire : s.exFire i = false) :
    (s.next i fi).isaState (s.ledgerNext i g) (s.memoryNext i mem)
        = { reg := archRegs (s.answered i g.log), pc := g.pc, mem := s.memoryNext i mem } ∧
      (s.next i fi).settled (s.ledgerNext i g).log = s.answered i g.log := by
  obtain ⟨hlog, hpc⟩ := ledgerNext_of_no_fire (g := g) hfire
  rw [isaState_settled e' b' hu', settled_of_settled hu', hlog, hpc]
  exact ⟨rfl, rfl⟩

theorem toNat_of_no_fire (h : s.exFire i = false) : (s.privTrapTaken i).toNat = 0 := by
  have ht : s.privTrapTaken i = false := by
    by_contra hc
    rw [privTrapTaken_exFire (by simpa using hc)] at h
    cases h
  rw [ht]
  rfl

/-- No write is acknowledged before the unit completes. -/
theorem Wf.memory_kept (w : s.Wf) (mem : Word → BitVec 8) (hat : s.exMem.isAtomic = true)
    (hc : (s.atomicNext i).state ≠ .complete) : s.memoryNext i mem = mem := by
  obtain ⟨-, hld, hst, -⟩ := w.atomicMem hat
  by_cases hidle : s.atomic.state = .idle
  · simp [memoryNext, acked, dataReq, hidle, memReq, hld, hst]
  · rw [memoryNext, w.acked_of_busy hidle]
    by_cases ha : (s.atomic.started && i.ack) = true
    · rw [if_pos ha]
      simp only [Bool.and_eq_true] at ha
      have hbus := w.started ha.1
      cases hs : s.atomic.state with
      | lrRead | amoRead => simp [Txn.store, WbReq.txn, dataReq, hs, hst]
      | scWrite | amoWrite =>
          refine absurd ?_ hc
          simp [atomicNext, hs, AtomicUnit.advance, AtomicUnit.busPhase, ha]
      | _ => simp [atomicBus, hs] at hbus
    · rw [if_neg ha]

/-- The atomic in EX/MEM, in a cycle in which the unit works. -/
theorem Executing.atomic_works (e : s.Executing m g) (b : Booked s g)
    (e' : (s.next i fi).Executing m (s.ledgerNext i g)) (b' : Booked (s.next i fi) (s.ledgerNext i g))
    (r : s.ReadsBack ram i mem) (p : s.AtomicPhase ram mem) (hat : s.exMem.isAtomic = true)
    (hnd : s.atomic.state ≠ .complete) (hfire : s.exFire i = false) :
    ∃ es, Advances m ram (s.isaState g mem)
      ((s.next i fi).isaState (s.ledgerNext i g) (s.memoryNext i mem)) (s.settled g.log)
      ((s.next i fi).settled (s.ledgerNext i g).log) 0 es := by
  have w := b.wf
  have hm := w.atomic_stays (i := i) hat hnd
  have hu : s.unsettled = true := by
    have hc : s.atomicComplete = false := by simpa [atomicComplete] using hnd
    simp [unsettled, hat, hc]
  have hq' : (s.next i fi).memReq = false := by
    simp [memReq, hm, (w.atomicMem hat).2.1, (w.atomicMem hat).2.2.1]
  obtain ⟨f, older, a⟩ := e.mem hu
  by_cases hc : (s.atomicNext i).state = .complete
  · have hu' : (s.next i fi).unsettled = false := by
      simp [unsettled, hq', hm, hat, atomicComplete, hc]
    obtain ⟨hst, hset⟩ := Executing.drains mem e' b' hu' hfire
    obtain ⟨x, hx⟩ := a.atomic_leaves e b p r hat hnd hc
    rw [isaState_awaits e b a hu, hst, hset]
    refine ⟨_, .insn hx ?_⟩
    rw [answered_words, settled_awaits a hu, a.log]
    rfl
  · have hu' : (s.next i fi).unsettled = true := by
      simp [unsettled, hm, hat, atomicComplete, hc]
    have hack := w.memory_kept mem hat hc
    exact ⟨[], e.stays b e' b' hu hu' hfire hack⟩

/-- **A cycle of the core is a run of the machine.** -/
theorem Executing.advances (e : s.Executing m g) (b : Booked s g)
    (e' : (s.next i fi).Executing m (s.ledgerNext i g)) (b' : Booked (s.next i fi) (s.ledgerNext i g))
    (r : s.ReadsBack ram i mem) (p : s.AtomicPhase ram mem) :
    ∃ es, Advances m ram (s.isaState g mem)
      ((s.next i fi).isaState (s.ledgerNext i g) (s.memoryNext i mem)) (s.settled g.log)
      ((s.next i fi).settled (s.ledgerNext i g).log) (s.privTrapTaken i).toNat es := by
  have w := b.wf
  cases w.step_cases i with
  | memWait hmem hidle hfire _ hm =>
      have hq := stallMem_memReq hmem
      have hu : s.unsettled = true := by simp [unsettled, hq]
      have hq' : (s.next i fi).memReq = true := by rw [memReq, next_exMem, hm]; exact hq
      have hack : s.memoryNext i mem = mem := by
        rw [memoryNext, if_neg]
        simp only [stallMem, hq, Bool.true_and, Bool.or_eq_true, Bool.not_eq_true'] at hmem
        rcases hmem with h | h <;> simp [acked, dataReq, hidle, h]
      rw [toNat_of_no_fire hfire]
      exact ⟨[], e.stays b e' b' hu (by simp [unsettled, hq']) hfire hack⟩
  | atomicWait hat _ hnd hfire =>
      rw [toNat_of_no_fire hfire]
      exact e.atomic_works b e' b' r p hat hnd hfire
  | atomicDone hat hq hdone hfire _ hm =>
      have hc : s.atomicComplete = true := by simp [atomicComplete, hdone]
      have hu : s.unsettled = false := by simp [unsettled, hq, hc]
      have hu' : (s.next i fi).unsettled = false := by simp [unsettled, memReq, hm]
      have hack : s.memoryNext i mem = mem := by
        rw [memoryNext, w.acked_of_busy (by rw [hdone]; decide),
          w.not_started (by simp [atomicBus, hdone])]
        rfl
      have hans : s.answered i g.log = g.log := by
        obtain ⟨hv, hld, -, -⟩ := w.atomicMem hat
        obtain ⟨f, older, hlog, hin, -⟩ := b.linked.head hv (by simp [hat])
        have hfa : f.insn.isAtomic = true := by rw [← hin.isAtomic]; exact hat
        have hfl : f.insn.isLoad = false := by rw [← hin.isLoad]; exact hld
        rw [hlog]
        exact answered_of_none (by simp [answer, hfl, hfa, hdone])
      obtain ⟨hst, hset⟩ := Executing.drains mem e' b' hu' hfire
      rw [toNat_of_no_fire hfire, hst, hset, hans, hack, isaState_settled e b hu,
        settled_of_settled hu]
      exact ⟨[], .rest _ rfl⟩
  | mmuWait hmem _ hat hfire _ _ hm =>
      have hu' : (s.next i fi).unsettled = false := by simp [unsettled, memReq, hm, hat]
      obtain ⟨hst, hset⟩ := Executing.drains mem e' b' hu' hfire
      rw [toNat_of_no_fire hfire, hst, hset]
      exact e.leaves b r hmem hat
  | divWait hmem _ hat hfire hdiv _ _ hm =>
      obtain ⟨-, h1, h2, h3⟩ := b.linked.exMemOfEx_waiting (i := i) w hdiv
      have hu' : (s.next i fi).unsettled = false := by simp [unsettled, memReq, hm, h1, h2, h3]
      obtain ⟨hst, hset⟩ := Executing.drains mem e' b' hu' hfire
      rw [toNat_of_no_fire hfire, hst, hset]
      exact e.leaves b r hmem hat
  | flow hmem _ hat hfire _ _ _ hm =>
      obtain ⟨es, hes⟩ := e.leaves b r hmem hat
      have hlog : (s.ledgerNext i g).log = s.logNext i g.log := rfl
      have hpc : (s.ledgerNext i g).pc = s.pcNext i g.log g.pc := rfl
      by_cases hc : s.commits i = true
      · have hc' := hc
        simp only [commits, Bool.and_eq_true, Bool.not_eq_true'] at hc'
        obtain ⟨hf, ht⟩ := hc'
        have hv := (exFire_iff.mp hf).1
        have hu' : (s.next i fi).unsettled
            = (s.idEx.isMem && !(s.next i fi).atomicComplete || s.idEx.isLoad || s.idEx.isStore) := by
          simp only [unsettled, memReq, next_exMem, hm, exMemOfEx, hv, ht, IdEx.isMem]
          cases s.idEx.isLoad <;> cases s.idEx.isStore <;> cases s.idEx.isAtomic <;> simp
        by_cases hmm : s.idEx.isMem = true
        · have hu'' : (s.next i fi).unsettled = true := by
            have hnc : (s.next i fi).atomicComplete = false := by
              have hstate := (atomicNext_idle i s (w.idle_of_noAtomic hat) hat).1
              simp [atomicComplete, hstate]
            rw [hu', hmm, hnc]
            simp
          obtain ⟨f', older', a'⟩ := e'.mem hu''
          have hlog' := a'.log
          rw [hlog, logNext_of_commits hc] at hlog'
          obtain ⟨rfl, rfl⟩ := List.cons.inj hlog'
          have hpc' : (s.fires i (s.answered i g.log)).insn.pc = g.pc := b.chain.ex hv
          rw [isaState_awaits e' b' a' hu'', settled_awaits a' hu'', hpc', ht]
          exact ⟨es, hes⟩
        · simp only [Bool.not_eq_true] at hmm
          have hls : s.idEx.isLoad = false ∧ s.idEx.isStore = false := by
            simp only [IdEx.isMem, Bool.or_eq_false_iff] at hmm
            exact hmm.1
          have hu'' : (s.next i fi).unsettled = false := by
            rw [hu', hmm, hls.1, hls.2]
            rfl
          obtain ⟨x, hx⟩ := e.fires_step ram b hc hmm (s.memoryNext i mem)
          have hdone : s.idEx.instr :: (s.answered i g.log).map (fun f => f.insn.instr)
              = (s.logNext i g.log).map fun f => f.insn.instr := by
            rw [logNext_of_commits hc]
            rfl
          have hstep := hes.trans (.insn hx hdone)
          rw [isaState_settled e' b' hu'', settled_of_settled hu'', hlog, hpc, ht]
          exact ⟨_, hstep⟩
      · simp only [Bool.not_eq_true] at hc
        have hv' : (s.exMemOfEx i).valid = false := by
          rw [commits, hfire] at hc
          exact hc
        have hu' : (s.next i fi).unsettled = false := by
          have ha : (s.exMemOfEx i).isAtomic = false := by
            by_contra hcon
            rw [(w.exMemOfEx_atomic (by simpa using hcon)).1] at hv'
            cases hv'
          simp [unsettled, memReq, hm, hv', ha]
        rw [isaState_settled e' b' hu', settled_of_settled hu', hlog, hpc,
          logNext_of_not_commits hc]
        cases ht : s.privTrapTaken i with
        | true =>
            rw [pcNext_of_trap ht]
            exact ⟨_, hes.trans ⟨Rv32.Run.start.step (.trap _ _), rfl, rfl⟩⟩
        | false =>
            have hno : s.exFire i = false := by
              rw [commits, ht] at hc
              simpa using hc
            rw [pcNext, if_neg (by simp [hno])]
            exact ⟨es, hes⟩

/-! ## Runs -/

/-- What the core is served with in a cycle: the words of `m` on the fetch interface, what has been
stored on `core_data`, and translations within a page. -/
structure Served (m : FetchMem) (ram : BitVec 30 → Prop) (i : CoreIn) (fi : FetchIn) (s : Core)
    (mem : Word → BitVec 8) : Prop where
  word : s.front.Answered m (s.frontIn i fi)
  flags : s.front.accepts (s.frontIn i fi) = true →
    fi.fault = m.fault s.fe.pcF ∧ fi.pageFault = m.pageFault s.fe.pcF
  data : s.ReadsBack ram i mem
  page : s.commits i = true → s.idEx.isMem = true →
    i.dPaddr.extractLsb' 0 12 = s.exAddr.extractLsb' 0 12

end Core

/-- The memory on `core_data` before cycle `n`: what has been there at reset and the writes that
have been acknowledged since. -/
def busMemory (inp : Nat → CoreIn × FetchIn) (mem₀ : Word → BitVec 8) (n : Nat) : Word → BitVec 8 :=
  Clocked.history coreNext (fun x s mem => s.memoryNext x.1 mem) inp Core.reset mem₀ n

/-- The state of the instruction set before cycle `n`. -/
def isaRun (inp : Nat → CoreIn × FetchIn) (mem₀ : Word → BitVec 8) (n : Nat) : Rv32.State :=
  (coreRun inp n).isaState (ledger inp n) (busMemory inp mem₀ n)

/-- The number of traps before cycle `n`. -/
def trapsTaken (inp : Nat → CoreIn × FetchIn) (n : Nat) : Nat :=
  Clocked.count coreNext (fun x s => s.privTrapTaken x.1) inp Core.reset n

section Runs

variable {m : FetchMem} {ram : BitVec 30 → Prop} {inp : Nat → CoreIn × FetchIn}
  {mem₀ : Word → BitVec 8} {n : Nat}

/-- The invariants of a run that is served. -/
theorem coreRun_executing
    (h : ∀ k, k < n →
      (coreRun inp k).Served m ram (inp k).1 (inp k).2 (busMemory inp mem₀ k)) :
    (coreRun inp n).front.Tracks m ∧ (coreRun inp n).Executing m (ledger inp n) ∧
      (coreRun inp n).AtomicPhase ram (busMemory inp mem₀ n) := by
  induction n with
  | zero => exact ⟨Front.tracks_reset, Core.executing_reset m, trivial⟩
  | succ n ih =>
      obtain ⟨t, e, p⟩ := ih fun k hk => h k (Nat.lt_succ_of_lt hk)
      have hn := h n (Nat.lt_succ_self n)
      have b := coreRun_booked inp n
      have hstep : coreRun inp (n + 1) = (coreRun inp n).next (inp n).1 (inp n).2 := rfl
      have hg : ledger inp (n + 1) = (coreRun inp n).ledgerNext (inp n).1 (ledger inp n) :=
        Clocked.history_succ n
      have hmem : busMemory inp mem₀ (n + 1)
          = (coreRun inp n).memoryNext (inp n).1 (busMemory inp mem₀ n) := Clocked.history_succ n
      rw [hstep, hg, hmem, Core.front_next]
      refine ⟨t.next hn.word (fun pc hr => ?_) hn.flags, e.next b t hn.page, p.next b hn.data⟩
      exact coreFeed_even inp n pc hr

/-- **The core executes the program.** In a run that is served with the words of `m` and with what
has been stored, the state behind the settled instructions is one that the machine of the
instruction set reaches from reset, by executing exactly the words of the settled instructions in
their order and taking a trap whenever the core does. -/
theorem core_executes (m : FetchMem) (ram : BitVec 30 → Prop) (mem₀ : Word → BitVec 8)
    (inp : Nat → CoreIn × FetchIn) (n : Nat)
    (h : ∀ k, k < n →
      (coreRun inp k).Served m ram (inp k).1 (inp k).2 (busMemory inp mem₀ k)) :
    (∃ es, Rv32.Run m.Holds (fun b => ram (wordOf b))
        { reg := fun _ => 0#32, pc := 0#32, mem := mem₀ } es (isaRun inp mem₀ n) ∧
      es.filterMap Rv32.Event.word
        = ((coreRun inp n).settled (ledger inp n).log).map (fun f => f.insn.instr) ∧
      es.countP Rv32.Event.isTrap = trapsTaken inp n) ∧
    ((coreRun inp n).idEx.valid = true → (coreRun inp n).unsettled = false →
      (isaRun inp mem₀ n).pc = (coreRun inp n).idEx.pc) ∧
    ((coreRun inp n).exMem.valid = false → (coreRun inp n).memWb.valid = false →
      ∀ r, r ≠ 0#5 → (isaRun inp mem₀ n).reg r = (coreRun inp n).regBank r) := by
  refine ⟨?_, fun hv hu => ?_, fun hm hw r hr => ?_⟩
  · induction n with
    | zero =>
        refine ⟨[], ?_, rfl, rfl⟩
        have hstart : isaRun inp mem₀ 0 = { reg := fun _ => 0#32, pc := 0#32, mem := mem₀ } := by
          have hreg : Core.reset.settledReg = fun _ => 0#32 := by
            funext r
            simp [Core.settledReg, Core.reset, Core.atomicComplete, Core.pipeReg, Core.exMemFwdEn,
              Core.wbReg, ExMem.reset, MemWb.reset, AtomicUnit.reset]
          show Core.reset.isaState Ledger.reset mem₀ = _
          rw [Core.isaState, hreg]
          rfl
        rw [hstart]
        exact .start
    | succ n ih =>
        obtain ⟨es, hrun, hwords, htraps⟩ := ih fun k hk => h k (Nat.lt_succ_of_lt hk)
        obtain ⟨-, e, p⟩ := coreRun_executing fun k hk => h k (Nat.lt_succ_of_lt hk)
        obtain ⟨-, e', -⟩ := coreRun_executing h
        have b' := coreRun_booked inp (n + 1)
        have hstep : coreRun inp (n + 1) = (coreRun inp n).next (inp n).1 (inp n).2 := rfl
        have hg : ledger inp (n + 1) = (coreRun inp n).ledgerNext (inp n).1 (ledger inp n) :=
          Clocked.history_succ n
        have hmem : busMemory inp mem₀ (n + 1)
            = (coreRun inp n).memoryNext (inp n).1 (busMemory inp mem₀ n) := Clocked.history_succ n
        rw [hstep, hg] at e' b'
        obtain ⟨es', a⟩ := e.advances (coreRun_booked inp n) e' b' (h n (Nat.lt_succ_self n)).data p
        refine ⟨es' ++ es, ?_, ?_, ?_⟩
        · rw [isaRun, hstep, hg, hmem]
          exact hrun.append a.run
        · rw [List.filterMap_append, hwords, hstep, hg]
          exact a.words
        · rw [List.countP_append, htraps, a.traps, trapsTaken, trapsTaken, Clocked.count_succ,
            Nat.add_comm]
          rfl
  · have b := coreRun_booked inp n
    show (coreRun inp n).settledPc (ledger inp n) = _
    rw [Core.settledPc, if_neg (by simp [hu])]
    exact (b.chain.ex hv).symm
  · have w := (coreRun_booked inp n).wf
    show (coreRun inp n).settledReg r = _
    have hidle : (coreRun inp n).atomic.state = .idle := by
      by_contra hc
      rw [(w.atomicMem (w.busy hc).1).1] at hm
      cases hm
    simp [Core.settledReg, hr, Core.atomicComplete, hidle, Core.pipeReg, Core.exMemFwdEn, hm,
      Core.wbReg, hw]

end Runs

instance {m : FetchMem} {ram : BitVec 30 → Prop} [DecidablePred ram] {i : CoreIn} {fi : FetchIn}
    {s : Core} {mem : Word → BitVec 8} : Decidable (s.Served m ram i fi mem) :=
  decidable_of_iff
    ((s.fe.ifValid = true → m.fault s.front.ifAddr = false → fi.rdata = m.word s.front.ifAddr) ∧
      (s.front.accepts (s.frontIn i fi) = true →
        fi.fault = m.fault s.fe.pcF ∧ fi.pageFault = m.pageFault s.fe.pcF) ∧
      (s.memReq = true → s.exMem.isLoad = true → s.stallMem i = false →
        ram (wordOf s.exMem.addr) → i.datR = wordAround mem s.exMem.addr) ∧
      (s.atomic.state = .lrCapture ∨ s.atomic.state = .amoCapture →
        ram (wordOf s.atomic.addr) → i.datR = wordAround mem s.atomic.addr) ∧
      (s.commits i = true → s.idEx.isMem = true →
        i.dPaddr.extractLsb' 0 12 = s.exAddr.extractLsb' 0 12))
    ⟨fun h => ⟨h.1, h.2.1, ⟨h.2.2.1, h.2.2.2.1⟩, h.2.2.2.2⟩,
      fun h => ⟨h.word, h.flags, h.data.load, h.data.capture, h.page⟩⟩

/-- `addi x1, x0, 7`, `sw x1, 0(x0)`, `lw x2, 0(x0)`, `amoadd.w x3, x1, (x0)`, then NOPs. -/
def accessProgram : FetchMem :=
  { word := fun a =>
      if a = 0#32 then 0x00700093#32 else if a = 4#32 then 0x00102023#32
      else if a = 8#32 then 0x00002103#32 else if a = 12#32 then 0x001021AF#32
      else 0x00000013#32
    fault := fun _ => false
    pageFault := fun _ => false }

/-- The program on a bus that always acknowledges and reads as 7. -/
def accessFeed (n : Nat) : CoreIn × FetchIn :=
  ({ quietIn with ack := true, datR := 7#32 },
   { rdata := accessProgram.word (BitVec.ofNat 32 (4 * (n - 1))), stall := false, fault := false
     pageFault := false })

/-- The program writes 7 to memory, reads it back and adds 7 to it. -/
theorem core_executes_amoadd :
    ∃ es, Rv32.Run accessProgram.Holds (fun _ => True)
        { reg := fun _ => 0#32, pc := 0#32, mem := fun _ => 0#8 } es
        (isaRun accessFeed (fun _ => 0#8) 17) ∧
      es.filterMap Rv32.Event.word
        = [0x001021AF#32, 0x00002103#32, 0x00102023#32, 0x00700093#32] := by
  obtain ⟨es, hrun, hwords, -⟩ := (core_executes accessProgram (fun _ => True) (fun _ => 0#8)
    accessFeed 17 (by decide +kernel)).1
  refine ⟨es, hrun, hwords.trans ?_⟩
  decide +kernel

end MelonSoc
