import MelonSoc.Pipeline.ProgramOrder

set_option autoImplicit false

/-! # Effects in program order

A second history variable keeps the books of the back end: the load and store transactions
that `core_data` has acknowledged and the register writes that have left WB. Both are the lists
that the executed instructions ask for, in their order, less what is still on its way in the
pipeline. A trap adds nothing to any of the lists, and it saves the program counter of the
instruction that program order has reached.
-/

namespace MelonSoc

namespace Core

/-! ## What is on its way -/

/-- The transaction of the load or store in EX/MEM. -/
def outstanding (s : Core) : List Txn :=
  if s.memReq then
    [{ adr := s.exMem.addr
       datW := s.exMem.storeWdata
       sel := if s.exMem.isStore then s.exMem.storeWmask else 0b1111#4
       we := s.exMem.isStore }]
  else []

/-- The load or store transaction acknowledged in this cycle. -/
def performed (i : CoreIn) (s : Core) : Option Txn :=
  if s.atomic.state == .idle && s.dataReq.cyc && s.dataReq.stb && i.ack then some s.dataReq.txn
  else none

/-- The write port of the register file in this cycle. -/
def regWrite (s : Core) : Option (BitVec 5 × Word) :=
  if s.wbWe then some (s.memWb.rd, s.wbValue)
  else if s.atomicComplete && s.atomic.rd != 0#5 then some (s.atomic.rd, s.atomic.result)
  else none

/-- The register write that is complete after this cycle. While MEM waits, WB keeps its
instruction and writes the same value again. -/
def retired (i : CoreIn) (s : Core) : Option (BitVec 5 × Word) :=
  if s.stallMem i then none else s.regWrite

/-- The write of the instruction in MEM/WB. -/
def wbWrite (s : Core) : List (BitVec 5 × Word) :=
  if s.memWb.valid && s.memWb.wbEn && s.memWb.rd != 0#5 then [(s.memWb.rd, s.wbValue)] else []

/-- The write of the instruction in EX/MEM, once it has its value. -/
def exMemWrite (s : Core) : List (BitVec 5 × Word) :=
  if s.exMemFwdEn then [(s.exMem.rd, s.exMem.wbValue)]
  else if s.exMem.isAtomic && s.exMem.rd != 0#5 then
    ((atomicData s.atomic).map fun v => (s.exMem.rd, v)).toList
  else []

end Core

/-- The books of a run: the executed instructions, the program counter program order has
reached, the acknowledged loads and stores and the completed register writes, newest first. -/
structure Ledger where
  log : List Fired
  pc : Word
  txns : List Txn
  writes : List (BitVec 5 × Word)

def Ledger.reset : Ledger := { log := [], pc := 0#32, txns := [], writes := [] }

namespace Core

/-- The books after a cycle. -/
def ledgerNext (i : CoreIn) (s : Core) (g : Ledger) : Ledger :=
  { log := s.logNext i g.log
    pc := s.pcNext i g.log g.pc
    txns := (s.performed i).toList ++ g.txns
    writes := (s.retired i).toList ++ g.writes }

/-- The books balance. -/
structure Balanced (s : Core) (g : Ledger) : Prop where
  txns : g.log.filterMap Fired.txn = s.outstanding ++ g.txns
  writes : g.log.filterMap Fired.write = s.exMemWrite ++ s.wbWrite ++ g.writes

theorem balanced_reset : Core.reset.Balanced Ledger.reset := ⟨rfl, rfl⟩

variable {i : CoreIn} {fi : FetchIn} {s : Core} {log : List Fired} {g : Ledger}

theorem filterMap_cons_toList {α β : Type} (f : α → Option β) (a : α) (l : List α) :
    (a :: l).filterMap f = (f a).toList ++ l.filterMap f := by
  rw [List.filterMap_cons]
  cases f a <;> rfl

/-! ## Transactions -/

/-- A transaction is performed in the cycle in which the load or store leaves MEM. -/
theorem Wf.performed_eq (w : s.Wf) :
    (s.performed i).toList = if s.stallMem i then [] else s.outstanding := by
  by_cases hq : s.memReq = true
  · have hidle := w.idle_of_memReq hq
    have hat : s.exMem.isAtomic = false := by
      by_contra hc
      obtain ⟨-, hl, hst, -⟩ := w.atomicMem (by simpa using hc)
      simp [memReq, hl, hst] at hq
    have hv : s.exMem.valid = true := by
      simp only [memReq, Bool.and_eq_true] at hq
      exact hq.1
    cases hs : s.memStarted <;> cases ha : i.ack <;>
      simp [performed, dataReq, hidle, hq, hs, ha, stallMem, outstanding, WbReq.txn, hv, hat]
  · simp only [Bool.not_eq_true] at hq
    have hp : s.performed i = none := by
      rw [performed, if_neg]
      simp only [Bool.and_eq_true, beq_iff_eq]
      rintro ⟨⟨⟨hidle, hc⟩, -⟩, -⟩
      simp [dataReq, hidle, hq] at hc
    simp [hp, stallMem, hq, outstanding]

/-- An answer changes no transaction. -/
theorem answered_txn : (s.answered i log).filterMap Fired.txn = log.filterMap Fired.txn := by
  cases log with
  | nil => rfl
  | cons f older =>
      cases h : s.answer i f with
      | none => rw [answered_of_none h]
      | some v => rw [answered_of_some h]; rfl

/-- The instruction that fires asks for the transaction that EX/MEM then has outstanding. -/
theorem Linked.outstanding_of_commits (l : Linked s log) (w : s.Wf) (h : s.commits i = true)
    (hm : s.exMemNext i = s.exMemOfEx i) :
    (s.fires i (s.answered i log)).txn.toList = (s.next i fi).outstanding := by
  have h' := h
  simp only [commits, Bool.and_eq_true, Bool.not_eq_true'] at h'
  obtain ⟨hf, htrap⟩ := h'
  have hv := (exFire_iff.mp hf).1
  have hreq : (s.next i fi).memReq = (s.idEx.isLoad || s.idEx.isStore) := by
    simp [memReq, hm, exMemOfEx, hv, htrap]
  by_cases hmem : (s.idEx.isLoad || s.idEx.isStore) = true
  · have hin := l.inMem_of_commits w h (by simp [IdEx.isMem, hmem])
    rw [outstanding, hreq, if_pos hmem, next_exMem, hm, Fired.txn, if_pos (by simpa [fires] using hmem),
      hin.addr, hin.storeWdata, hin.storeWmask, hin.isStore]
    rfl
  · rw [outstanding, hreq, if_neg hmem, Fired.txn, if_neg (by simpa [fires] using hmem)]
    rfl

/-- What leaves EX/MEM without a successor leaves nothing outstanding. -/
theorem outstanding_of_no_memReq (h : (s.next i fi).memReq = false) :
    (s.next i fi).outstanding = [] := by
  rw [outstanding, h]
  rfl

theorem Balanced.next_txns (b : s.Balanced g) (l : Linked s g.log) (w : s.Wf) :
    (s.logNext i g.log).filterMap Fired.txn
      = (s.next i fi).outstanding ++ ((s.performed i).toList ++ g.txns) := by
  rw [w.performed_eq]
  cases w.step_cases i with
  | memWait hmem _ hfire _ hm =>
      rw [logNext_of_not_commits (commits_of_no_fire hfire), answered_txn, b.txns, if_pos hmem]
      simp [outstanding, memReq, hm]
  | atomicWait _ hq _ hfire _ hm =>
      have ho : s.outstanding = [] := by simp [outstanding, hq]
      rw [logNext_of_not_commits (commits_of_no_fire hfire), answered_txn, b.txns,
        outstanding_of_no_memReq (by simpa [memReq, hm] using hq), ho]
      simp
  | atomicDone _ hq _ hfire _ hm =>
      have ho : s.outstanding = [] := by simp [outstanding, hq]
      rw [logNext_of_not_commits (commits_of_no_fire hfire), answered_txn, b.txns,
        outstanding_of_no_memReq (by simp [memReq, hm]), ho]
      simp
  | mmuWait hmem _ _ hfire _ _ hm =>
      rw [logNext_of_not_commits (commits_of_no_fire hfire), answered_txn, b.txns,
        outstanding_of_no_memReq (by simp [memReq, hm]), if_neg (by simp [hmem])]
      simp
  | divWait hmem _ _ hfire hdiv _ _ hm =>
      obtain ⟨-, h1, h2, -⟩ := l.exMemOfEx_waiting (i := i) w hdiv
      rw [logNext_of_not_commits (commits_of_no_fire hfire), answered_txn, b.txns,
        outstanding_of_no_memReq (by simp [memReq, hm, h1, h2]), if_neg (by simp [hmem])]
      simp
  | flow hmem _ _ hfire _ _ _ hm =>
      rw [if_neg (by simp [hmem])]
      by_cases hc : s.commits i = true
      · rw [logNext_of_commits hc, filterMap_cons_toList, answered_txn, b.txns,
          l.outstanding_of_commits w hc hm]
      · simp only [Bool.not_eq_true] at hc
        have hv : (s.exMemOfEx i).valid = false := by
          rw [commits, hfire] at hc
          exact hc
        rw [logNext_of_not_commits hc, answered_txn, b.txns,
          outstanding_of_no_memReq (by simp [memReq, hm, hv])]
        simp

/-! ## Register writes -/

/-- The write of WB is complete when MEM does not hold it. -/
theorem retired_of_wb (hs : s.stallMem i = false) (hc : s.atomic.state ≠ .complete) :
    (s.retired i).toList = s.wbWrite := by
  have hc' : s.atomicComplete = false := by simpa [atomicComplete] using hc
  rw [retired, if_neg (by simp [hs]), regWrite, wbWrite]
  simp only [wbWe, hc', Bool.not_false, Bool.and_true, Bool.false_and]
  split <;> rfl

/-- The write of the newest instruction, before and after its answer. -/
theorem write_of_awaits {f : Fired} (ha : f.awaits = true) :
    f.write = if f.dest = 0#5 then none else f.data.map (fun v => (f.dest, v)) := by
  rw [Fired.write, Fired.result, if_pos ha]

/-- An atomic in EX/MEM has the write that the atomic unit has for it. -/
theorem InMem.write_atomic {f : Fired} (hin : InMem s.exMem f) (hat : s.exMem.isAtomic = true)
    (hen : s.exMem.wbEn = false) (hd : f.data = atomicData s.atomic) :
    f.write.toList = s.exMemWrite := by
  have hfa : f.insn.isAtomic = true := by rw [← hin.isAtomic]; exact hat
  have hdest : f.dest = s.exMem.rd := by
    rw [Fired.dest, if_pos (by simp [IdEx.writesReg, hfa]), hin.rd]
  have hfwd : s.exMemFwdEn = false := by simp [exMemFwdEn, hen]
  rw [write_of_awaits (by simp [Fired.awaits, hfa]), hdest, hd, exMemWrite, hfwd, hat]
  by_cases hz : s.exMem.rd = 0#5
  · simp [hz]
  · simp [hz]

/-- When EX/MEM moves on, the write of its instruction is in MEM/WB. -/
theorem Balanced.moved_writes (b : s.Balanced g) (l : Linked s g.log) (w : s.Wf) (fi : FetchIn)
    (hs : s.stallMem i = false) (hat : s.exMem.isAtomic = false)
    (hwb : s.memWbNext i = s.movedMemWb i) :
    (s.answered i g.log).filterMap Fired.write
      = (s.next i fi).wbWrite ++ ((s.retired i).toList ++ g.writes) := by
  have hidle := w.idle_of_noAtomic hat
  rw [retired_of_wb hs (by rw [hidle]; decide)]
  have hnext : (s.next i fi).wbWrite
      = if s.exMem.valid && s.exMem.wbEn && s.exMem.rd != 0#5 then
          [(s.exMem.rd, if s.exMem.isLoad then
            formatLoadData i.datR s.exMem.funct3 (s.exMem.addr.extractLsb' 0 2)
          else s.exMem.wbValue)]
        else [] := by
    simp only [wbWrite, next_memWb, hwb, movedMemWb, wbValue]
  have hb := b.writes
  by_cases hld : s.exMem.valid = true ∧ s.exMem.isLoad = true
  · obtain ⟨f, older, hlog, hload, hdest, hen, hans⟩ := l.answer_load hld.1 hld.2 hs
    obtain ⟨hdata, haw⟩ := l.answer_data w hlog hans
    have hfw : f.write = none := by
      rw [write_of_awaits haw, hdata]
      simp
    have hex : s.exMemWrite = [] := by simp [exMemWrite, exMemFwdEn, hld.2, hat]
    rw [hlog, filterMap_cons_toList, hfw, hex] at hb
    rw [hnext, hlog, answered_of_some hans, filterMap_cons_toList,
      write_of_awaits (f := { f with data := some _ }) haw]
    have hb' : older.filterMap Fired.write = s.wbWrite ++ g.writes := by simpa using hb
    have hdest' : ({ f with data := some (formatLoadData i.datR s.exMem.funct3
        (s.exMem.addr.extractLsb' 0 2)) } : Fired).dest = s.exMem.rd := hdest
    rw [hb', hdest', if_pos hld.2, hld.1, hen]
    by_cases hz : s.exMem.rd = 0#5
    · simp [hz]
    · simp [hz]
  · rw [l.answered_eq w hat (fun hv hl => absurd ⟨hv, hl⟩ hld), hb, hnext]
    have hex : s.exMemWrite = if s.exMem.valid && s.exMem.wbEn && s.exMem.rd != 0#5 then
          [(s.exMem.rd, if s.exMem.isLoad then
            formatLoadData i.datR s.exMem.funct3 (s.exMem.addr.extractLsb' 0 2)
          else s.exMem.wbValue)]
        else [] := by
      rw [exMemWrite, exMemFwdEn, hat]
      cases hv : s.exMem.valid <;> cases hl : s.exMem.isLoad <;> simp [hv, hl] at hld ⊢
    rw [hex, List.append_assoc]

theorem Balanced.next_writes (b : s.Balanced g) (l : Linked s g.log) (w : s.Wf) :
    (s.logNext i g.log).filterMap Fired.write
      = (s.next i fi).exMemWrite ++ (s.next i fi).wbWrite
        ++ ((s.retired i).toList ++ g.writes) := by
  cases w.step_cases i with
  | memWait hmem hidle hfire _ hm hwb =>
      have hat : s.exMem.isAtomic = false := by
        by_contra hc
        obtain ⟨-, hl, hst, -⟩ := w.atomicMem (by simpa using hc)
        have hreq := stallMem_memReq hmem
        simp [memReq, hl, hst] at hreq
      rw [logNext_of_not_commits (commits_of_no_fire hfire), l.answered_eq w hat (fun _ _ => hmem),
        b.writes, retired, if_pos hmem]
      simp [exMemWrite, exMemFwdEn, wbWrite, wbValue, hm, hwb, hat]
  | atomicWait hat hq hnd hfire _ hm hwb =>
      obtain ⟨hv, hld, -, hen⟩ := w.atomicMem hat
      obtain ⟨f, older, hlog, hin, -, hd⟩ := l.head hv (by simp [hat])
      have hfa : f.insn.isAtomic = true := by rw [← hin.isAtomic]; exact hat
      have hdata := atomicData_next (i := i) hin hat hv hld hnd (hd hfa)
      have hb := b.writes
      rw [hlog, filterMap_cons_toList, hin.write_atomic hat hen (hd hfa), List.append_assoc] at hb
      have hold := List.append_cancel_left hb
      have hwbn : (s.next i fi).wbWrite = [] := by simp [wbWrite, hwb]
      -- the newest entry, with the word that arrives in this cycle if there is one
      have hhead : ∃ f', s.answered i g.log = f' :: older ∧ InMem s.exMem f' ∧
          f'.data = atomicData (s.atomicNext i) := by
        rw [hlog, ← hdata]
        cases ha : s.answer i f with
        | none => exact ⟨f, answered_of_none ha, hin, rfl⟩
        | some v => exact ⟨_, answered_of_some ha, hin.withData _, rfl⟩
      obtain ⟨f', hans, hin', hd'⟩ := hhead
      rw [logNext_of_not_commits (commits_of_no_fire hfire), hwbn,
        retired_of_wb (by simp [stallMem, hq]) hnd, List.append_nil, ← hold, hans,
        filterMap_cons_toList]
      congr 1
      have hin'' : InMem (s.next i fi).exMem f' := by
        rw [next_exMem, hm]
        exact hin'
      apply hin''.write_atomic
      · rw [next_exMem, hm]
        exact hat
      · rw [next_exMem, hm]
        exact hen
      · rw [next_atomic, hd']
  | atomicDone hat hq hdone hfire _ hm hwb =>
      obtain ⟨hv, hld, -, hen⟩ := w.atomicMem hat
      obtain ⟨-, hrd, hnwb⟩ := w.busy (by rw [hdone]; decide)
      obtain ⟨f, older, hlog, hin, -, hd⟩ := l.head hv (by simp [hat])
      have hans : s.answered i g.log = g.log := by
        have hfa : f.insn.isAtomic = true := by rw [← hin.isAtomic]; exact hat
        have hfl : f.insn.isLoad = false := by rw [← hin.isLoad]; exact hld
        rw [hlog]
        exact answered_of_none (by simp [answer, hfl, hfa, hdone])
      rw [logNext_of_not_commits (commits_of_no_fire hfire), hans, b.writes]
      have hret : (s.retired i).toList = s.exMemWrite := by
        have hfwd : s.exMemFwdEn = false := by simp [exMemFwdEn, hen]
        have hwe : s.wbWe = false := by simp [wbWe, hnwb]
        rw [retired, if_neg (by simp [stallMem, hq]), regWrite, exMemWrite, hwe, hfwd, hat, hrd]
        by_cases hz : s.exMem.rd = 0#5
        · simp [hz]
        · simp [hz, atomicComplete, hdone, atomicData]
      have h1 : s.wbWrite = [] := by simp [wbWrite, hnwb]
      have h2 : (s.next i fi).exMemWrite = [] := by simp [exMemWrite, exMemFwdEn, hm]
      have h3 : (s.next i fi).wbWrite = [] := by simp [wbWrite, hwb]
      rw [hret, h1, h2, h3]
      simp
  | mmuWait hmem _ hat hfire _ _ hm hwb =>
      have h1 : (s.next i fi).exMemWrite = [] := by simp [exMemWrite, exMemFwdEn, hm, hat]
      rw [logNext_of_not_commits (commits_of_no_fire hfire),
        b.moved_writes l w fi hmem hat hwb, h1, List.nil_append]
  | divWait hmem _ hat hfire hdiv _ _ hm hwb =>
      obtain ⟨h1, -, -, h2⟩ := l.exMemOfEx_waiting (i := i) w hdiv
      have h3 : (s.next i fi).exMemWrite = [] := by simp [exMemWrite, exMemFwdEn, hm, h1, h2]
      rw [logNext_of_not_commits (commits_of_no_fire hfire),
        b.moved_writes l w fi hmem hat hwb, h3, List.nil_append]
  | flow hmem hidle hat hfire _ _ _ hm hwb =>
      have hmoved := b.moved_writes l w fi hmem hat hwb
      by_cases hc : s.commits i = true
      · have hc' := hc
        simp only [commits, Bool.and_eq_true, Bool.not_eq_true'] at hc'
        obtain ⟨hf, htrap⟩ := hc'
        have hv := (exFire_iff.mp hf).1
        have hen := w.exWbEn_of_commits hc
        rw [logNext_of_commits hc, filterMap_cons_toList, hmoved, List.append_assoc]
        congr 1
        have hfwd : (s.next i fi).exMemFwdEn
            = (s.idEx.writesReg && !s.idEx.isAtomic && !s.idEx.isLoad && s.idEx.rd != 0#5) := by
          simp [exMemFwdEn, hm, exMemOfEx, hv, htrap, hen]
        have hat' : (s.next i fi).exMem.isAtomic = s.idEx.isAtomic := by
          simp [hm, exMemOfEx, hv, htrap]
        have hnone : atomicData (s.next i fi).atomic = none := by
          simp [atomicData, (atomicNext_idle i s hidle hat).1]
        by_cases haw : (s.idEx.isLoad || s.idEx.isAtomic) = true
        · -- the value is still to come
          have hno : (s.next i fi).exMemFwdEn = false := by
            rw [hfwd]
            cases h1 : s.idEx.isLoad <;> cases h2 : s.idEx.isAtomic <;> simp [h1, h2] at haw ⊢
          have hfw : (s.fires i (s.answered i g.log)).write = none := by
            rw [write_of_awaits (f := s.fires i (s.answered i g.log)) haw]
            split <;> rfl
          rw [hfw, exMemWrite, hno, hnone]
          simp
        · simp only [Bool.not_eq_true, Bool.or_eq_false_iff] at haw
          have hres := l.fires_result (i := i) w hf haw.1 haw.2
          rw [exMemWrite, hfwd, hat', haw.1, haw.2, Fired.write, hres]
          cases hw : s.idEx.writesReg with
          | false => simp [Fired.dest, fires, hw]
          | true =>
              by_cases hz : s.idEx.rd = 0#5
              · simp [Fired.dest, fires, hw, hz]
              · simp [Fired.dest, fires, hw, hz, hm, exMemOfEx]
      · simp only [Bool.not_eq_true] at hc
        have hv : (s.exMemOfEx i).valid = false := by
          rw [commits, hfire] at hc
          exact hc
        have ha : (s.exMemOfEx i).isAtomic = false := by
          by_contra hcon
          rw [(w.exMemOfEx_atomic (by simpa using hcon)).1] at hv
          cases hv
        have h1 : (s.next i fi).exMemWrite = [] := by simp [exMemWrite, exMemFwdEn, hm, hv, ha]
        rw [logNext_of_not_commits hc, hmoved, h1, List.nil_append]

/-- **The books stay balanced.** -/
theorem Balanced.next (b : s.Balanced g) (l : Linked s g.log) (w : s.Wf) (i : CoreIn)
    (fi : FetchIn) : (s.next i fi).Balanced (s.ledgerNext i g) :=
  ⟨b.next_txns l w, b.next_writes l w⟩

/-! ## Bus, traps and redirects -/

/-- Every request on `core_data` is the access of the newest executed instruction. -/
theorem Linked.bus (l : Linked s log) (w : s.Wf) (h : s.dataReq.cyc = true) :
    ∃ f older, log = f :: older ∧ f.insn.isMem = true ∧ s.dataReq.adr = f.paddr ∧
      (f.insn.isAtomic = false → f.txn = some s.dataReq.txn) := by
  by_cases hidle : s.atomic.state = .idle
  · have hq : s.memReq = true := by simpa [dataReq, hidle] using h
    have hq' := hq
    simp only [memReq, Bool.and_eq_true] at hq'
    obtain ⟨hv, hm⟩ := hq'
    have hat : s.exMem.isAtomic = false := by
      by_contra hc
      obtain ⟨-, hl, hst, -⟩ := w.atomicMem (by simpa using hc)
      simp [hl, hst] at hm
    obtain ⟨f, older, hlog, hin, -⟩ := l.head hv (by simp [hm])
    rw [hin.isLoad, hin.isStore] at hm
    refine ⟨f, older, hlog, by simp [IdEx.isMem, hm], ?_, fun _ => ?_⟩
    · simp [dataReq, hidle, hin.addr]
    · rw [Fired.txn, if_pos hm]
      simp [dataReq, hidle, hin.addr, WbReq.txn, hin.storeWdata, hin.storeWmask, hin.isStore, hv,
        hat]
  · obtain ⟨hat, -⟩ := w.busy hidle
    obtain ⟨f, older, hlog, hin, -⟩ := l.head (w.atomicMem hat).1 (by simp [hat])
    have hfa : f.insn.isAtomic = true := by rw [← hin.isAtomic]; exact hat
    refine ⟨f, older, hlog, by simp [IdEx.isMem, hfa], ?_, fun hn => ?_⟩
    · rw [← hin.addr, ← (w.taken hidle).1]
      simp [dataReq, hidle]
    · rw [hfa] at hn
      cases hn

/-- The write port carries the oldest write on its way. -/
theorem Wf.port_oldest (w : s.Wf) {x : BitVec 5 × Word} (hx : s.regWrite = some x) :
    (s.exMemWrite ++ s.wbWrite).getLast? = some x := by
  unfold regWrite at hx
  split at hx
  · rename_i hwe
    obtain rfl := Option.some.inj hx
    simp only [wbWe, Bool.and_eq_true] at hwe
    rw [wbWrite, if_pos (by simp [hwe.1.1.1, hwe.1.1.2, hwe.1.2])]
    simp
  · split at hx
    · rename_i hc
      obtain rfl := Option.some.inj hx
      simp only [Bool.and_eq_true, atomicComplete_iff] at hc
      obtain ⟨hdone, hz⟩ := hc
      obtain ⟨hat, hrd, hwb⟩ := w.busy (by rw [hdone]; decide)
      have hfwd : s.exMemFwdEn = false := by simp [exMemFwdEn, (w.atomicMem hat).2.2.2]
      have hnwb : s.wbWrite = [] := by simp [wbWrite, hwb]
      rw [hnwb, exMemWrite, hfwd, hat, ← hrd, hz]
      simp [atomicData, hdone]
    · cases hx

/-- A trap leaves no transaction behind in MEM. -/
theorem Wf.outstanding_of_trap (w : s.Wf) (h : s.privTrapTaken i = true) :
    (s.next i fi).outstanding = [] := by
  have hf := privTrapTaken_exFire h
  cases w.step_cases i with
  | memWait _ _ hno => rw [hf] at hno; cases hno
  | atomicWait _ _ _ hno => rw [hf] at hno; cases hno
  | atomicDone _ _ _ hno => rw [hf] at hno; cases hno
  | mmuWait _ _ _ hno => rw [hf] at hno; cases hno
  | divWait _ _ _ hno => rw [hf] at hno; cases hno
  | flow _ _ _ _ _ _ _ hm =>
      exact outstanding_of_no_memReq (by simp [memReq, hm, exMemOfEx, h])

/-- The program counter a trap saves. -/
theorem Chain.saved_pc {pc : Word} (c : s.Chain pc) (h : s.privTrapTaken i = true) :
    (if s.csr.trapToS (s.privIn i) then (s.next i fi).csr.sepc else (s.next i fi).csr.mepc)
      = pc := by
  have hpc := c.ex (exFire_iff.mp (privTrapTaken_exFire h)).1
  have hnext : (s.next i fi).csr
      = (s.csr.tickCounters (s.privIn i).retire).enterTrap (s.privIn i) := by
    rw [next_csr, PrivCsr.next]
    exact if_pos h
  have hto : (s.csr.tickCounters (s.privIn i).retire).trapToS (s.privIn i)
      = s.csr.trapToS (s.privIn i) := rfl
  have hclear : clearBit0 (s.privIn i).exPc = pc := by
    show clearBit0 s.idEx.pc = pc
    rw [hpc]
    exact c.even.clearBit0_eq
  rw [hnext, PrivCsr.enterTrap, hto]
  split
  · exact hclear
  · exact hclear

/-- Nothing is left of the instructions behind EX. -/
structure Flushed (s : Core) : Prop where
  ex : s.idEx.valid = false
  id : s.id.valid = false
  queue : s.fe.q.hwCount = 0#4
  f2 : s.fe.f2Valid = false
  fetch : s.fe.ifValid = false

theorem flushed_of_redirects (h : s.redirects i = true) : (s.next i fi).Flushed := by
  obtain ⟨t, ht⟩ : ∃ t, s.exRedirect i = some t := Option.isSome_iff_exists.mp h
  refine ⟨?_, ?_, ?_, ?_, ?_⟩
  · rw [next_idEx, idExNext, if_pos h]
  · rw [next_id, idNext, if_pos h]
  · rw [next_fe, frontendNext_q, ibufNext_of_redirect ht]
    rfl
  · simp [frontendNext, ht]
  · simp [frontendNext, ht]

/-- A CSR is written by an instruction that fires without a trap. -/
theorem commits_of_csrWriteTaken (h : s.csr.csrWriteTaken (s.privIn i) = true) :
    s.commits i = true := by
  simp only [PrivCsr.csrWriteTaken, Bool.and_eq_true, Bool.not_eq_true'] at h
  obtain ⟨⟨⟨⟨⟨ht, -⟩, hf⟩, -⟩, -⟩, -⟩ := h
  rw [commits, privTrapTaken, ht, Bool.not_false, Bool.and_true]
  exact hf

/-! ## Progress of MEM -/

/-- A load or store that waits stays, with its strobe up. -/
theorem Wf.waits (w : s.Wf) (fi : FetchIn) (h : s.stallMem i = true) :
    (s.next i fi).memReq = true ∧ (s.next i fi).memStarted = true ∧
      (s.next i fi).outstanding = s.outstanding := by
  have hq := stallMem_memReq h
  have hst : s.memStartedNext i = true := by
    have hr : s.redirects i = false := redirects_of_exHeld (by simp [exHeld, h])
    simp only [stallMem, hq, Bool.true_and, Bool.or_eq_true, Bool.not_eq_true'] at h
    rw [memStartedNext, hr, hq]
    cases hs : s.memStarted <;> cases ha : i.ack <;> simp [hs, ha] at h ⊢
  cases w.step_cases i with
  | memWait _ _ _ _ hm =>
      have hq' : (s.next i fi).memReq = true := by rw [memReq, next_exMem, hm]; exact hq
      refine ⟨hq', hst, ?_⟩
      rw [outstanding, hq', outstanding, hq, next_exMem, hm]
  | atomicWait _ hno => rw [hq] at hno; cases hno
  | atomicDone _ hno => rw [hq] at hno; cases hno
  | mmuWait hno => rw [h] at hno; cases hno
  | divWait hno => rw [h] at hno; cases hno
  | flow hno => rw [h] at hno; cases hno

end Core

/-! ## Runs of the core -/

/-- The books before cycle `n`. -/
def ledger (inp : Nat → CoreIn × FetchIn) (n : Nat) : Ledger :=
  Clocked.history coreNext (fun x s g => s.ledgerNext x.1 g) inp Core.reset Ledger.reset n

/-- The invariant of the back end. -/
structure Booked (s : Core) (g : Ledger) : Prop where
  wf : s.Wf
  linked : s.Linked g.log
  chain : s.Chain g.pc
  balanced : s.Balanced g

theorem coreRun_booked (inp : Nat → CoreIn × FetchIn) (n : Nat) :
    Booked (coreRun inp n) (ledger inp n) :=
  Clocked.history_invariant (P := Booked) (C := fun _ _ => True)
    ⟨Core.wf_reset, Core.linked_reset, Core.chain_reset, Core.balanced_reset⟩
    (fun x _ _ _ h => ⟨h.wf.next x.1 x.2, h.linked.next h.wf x.1 x.2,
      h.chain.next h.linked h.wf x.1 x.2, h.balanced.next h.linked h.wf x.1 x.2⟩)
    (fun _ _ => trivial)

/-- A cycle of the back end with its effects, `s` and `g` before and `s'` and `g'` after it. -/
structure InOrder (i : CoreIn) (s s' : Core) (g g' : Ledger) : Prop where
  /-- Each executed load or store has one transaction, in program order. All are acknowledged
  but the one in MEM. -/
  txns : g.log.filterMap Fired.txn = s.outstanding ++ g.txns
  /-- Each executed instruction with a destination has one write, of its own result and in
  program order. All are complete but those on their way. -/
  writes : g.log.filterMap Fired.write = s.exMemWrite ++ s.wbWrite ++ g.writes
  /-- The write port carries the oldest write on its way. -/
  port : ∀ x, s.regWrite = some x → (s.exMemWrite ++ s.wbWrite).getLast? = some x
  /-- A write is complete after its cycle, unless MEM waits. -/
  complete : g'.writes
    = (if s.stallMem i then none else s.regWrite).toList ++ g.writes
  /-- Every request on `core_data` is the access of the newest executed instruction. -/
  bus : s.dataReq.cyc = true → ∃ f older, g.log = f :: older ∧ f.insn.isMem = true ∧
    s.dataReq.adr = f.paddr ∧ (f.insn.isAtomic = false → f.txn = some s.dataReq.txn)
  /-- The instruction that fires is the next one in program order. -/
  order : s.exFire i = true → s.idEx.pc = g.pc
  /-- Only an instruction that fires without a trap is executed. -/
  execute : g'.log.length = g.log.length + (if s.commits i then 1 else 0)
  /-- A trap saves the program counter of the first instruction that has not been executed, and
  no transaction is left in MEM. -/
  trap : s.privTrapTaken i = true → s.commits i = false ∧ s'.outstanding = [] ∧
    (if s.csr.trapToS (s.privIn i) then s'.csr.sepc else s'.csr.mepc) = g.pc
  /-- Only an instruction that fires without a trap writes a CSR. -/
  csr : s.csr.csrWriteTaken (s.privIn i) = true → s.commits i = true
  /-- A redirect leaves no younger instruction behind. -/
  redirect : s.redirects i = true → s'.Flushed

theorem answered_length (i : CoreIn) (s : Core) (log : List Fired) :
    (s.answered i log).length = log.length := by
  cases log <;> simp [Core.answered]

theorem logNext_length (i : CoreIn) (s : Core) (log : List Fired) :
    (s.logNext i log).length = log.length + (if s.commits i then 1 else 0) := by
  unfold Core.logNext
  split <;> simp [answered_length, *]

theorem inOrder_step (inp : Nat → CoreIn × FetchIn) (n : Nat) :
    InOrder (inp n).1 (coreRun inp n) (coreRun inp (n + 1)) (ledger inp n)
      (ledger inp (n + 1)) := by
  obtain ⟨w, l, c, b⟩ := coreRun_booked inp n
  have hg : ledger inp (n + 1) = (coreRun inp n).ledgerNext (inp n).1 (ledger inp n) :=
    Clocked.history_succ n
  refine ⟨b.txns, b.writes, fun x => w.port_oldest, ?_, l.bus w, fun hf => ?_, ?_, fun ht => ?_,
    Core.commits_of_csrWriteTaken, Core.flushed_of_redirects⟩
  · rw [hg]
    rfl
  · exact c.ex (Core.exFire_iff.mp hf).1
  · rw [hg]
    exact logNext_length _ _ _
  · exact ⟨by simp [Core.commits, ht], w.outstanding_of_trap ht, c.saved_pc ht⟩

/-- A slave that keeps acknowledging lets every load or store perform its transaction. -/
theorem performed_of_fair (inp : Nat → CoreIn × FetchIn)
    (fair : ∀ m, ∃ k, m ≤ k ∧ (inp k).1.ack = true) (n : Nat) :
    ∃ k, n ≤ k ∧ ((coreRun inp k).performed (inp k).1).toList = (coreRun inp n).outstanding := by
  by_contra hnone
  simp only [not_exists, not_and] at hnone
  -- then it waits in every cycle from `n` on
  have hwait : ∀ d, (coreRun inp (n + d)).stallMem (inp (n + d)).1 = true ∧
      (coreRun inp (n + d)).outstanding = (coreRun inp n).outstanding ∧
      (0 < d → (coreRun inp (n + d)).memStarted = true) := by
    intro d
    induction d with
    | zero =>
        refine ⟨?_, rfl, fun h => absurd h (Nat.lt_irrefl 0)⟩
        show (coreRun inp n).stallMem (inp n).1 = true
        by_contra hs
        have hp := (coreRun_booked inp n).wf.performed_eq (i := (inp n).1)
        rw [if_neg hs] at hp
        exact hnone n (Nat.le_refl n) hp
    | succ d ih =>
        obtain ⟨hs, ho, -⟩ := ih
        have w := (coreRun_booked inp (n + d)).wf
        obtain ⟨-, hst, ho'⟩ := w.waits (inp (n + d)).2 hs
        have ho'' : (coreRun inp (n + (d + 1))).outstanding = (coreRun inp n).outstanding :=
          ho'.trans ho
        refine ⟨?_, ho'', fun _ => hst⟩
        by_contra hs'
        have hp := (coreRun_booked inp (n + (d + 1))).wf.performed_eq (i := (inp (n + (d + 1))).1)
        rw [if_neg hs', ho''] at hp
        exact hnone (n + (d + 1)) (by omega) hp
  obtain ⟨k, hk, hack⟩ := fair (n + 1)
  obtain ⟨d, rfl⟩ := Nat.exists_eq_add_of_le hk
  have hnd : n + 1 + d = n + (d + 1) := by omega
  rw [hnd] at hack
  obtain ⟨hs, -, hst⟩ := hwait (d + 1)
  simp [Core.stallMem, hst (Nat.succ_pos d), hack] at hs

/-- **In-order effects and precise traps.** Every cycle of every run of the core is `InOrder`,
and if acknowledges keep coming, every load or store in MEM performs its transaction. -/
theorem in_order_effects (inp : Nat → CoreIn × FetchIn) :
    (∀ n, InOrder (inp n).1 (coreRun inp n) (coreRun inp (n + 1)) (ledger inp n)
      (ledger inp (n + 1))) ∧
    ((∀ m, ∃ k, m ≤ k ∧ (inp k).1.ack = true) → ∀ n, (coreRun inp n).memReq = true →
      ∃ k, n ≤ k ∧
        ((coreRun inp k).performed (inp k).1).toList = (coreRun inp n).outstanding) :=
  ⟨inOrder_step inp, fun fair n _ => performed_of_fair inp fair n⟩

/-- What the write port has done in every single cycle, newest first. -/
def portWrites (inp : Nat → CoreIn × FetchIn) (n : Nat) : List (BitVec 5 × Word) :=
  Clocked.history coreNext (fun _ s l => s.regWrite.toList ++ l) inp Core.reset [] n

/-- `addi x1, x0, 1` and a load that is never acknowledged. -/
def slowLoad (n : Nat) : CoreIn × FetchIn :=
  (quietIn,
   { rdata := if n = 1 then 0x00100093#32 else if n = 2 then 0x00002103#32 else 0x00000013#32
     stall := false, fault := false, pageFault := false })

/-- Counted in cycles of the write port an instruction may write more than once: WB repeats the
write of the `addi` while the load waits. -/
theorem portWrites_repeated :
    ¬ ∀ inp n, (portWrites inp n).length ≤ ((executed inp n).filterMap Fired.write).length := by
  intro h
  exact absurd (h slowLoad 9) (by decide +kernel)

end MelonSoc
