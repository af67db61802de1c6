import MelonSoc.Isa.Refinement

set_option autoImplicit false

/-! # The core never hangs

Whatever the program does, EX fires again, as long as each port of the core answers a request that
stands. The rank of a state counts the steps until EX fires: those of MEM and of the atomic unit
first, then the words that the queue misses for a whole instruction. A cycle in which EX does not
fire lowers the rank, or it waits for the one port that the state depends on. A division is not
part of the rank: from its start it takes the cycles that are known already.
-/

namespace MelonSoc

/-! ## The queue -/

namespace Ibuf

variable {q : Ibuf} {word : Word} {fault pageFault : Bool}

/-- The words that are missing until a whole instruction is at the front, whatever its length. -/
def missing (q : Ibuf) : Nat := (3 - q.count + q.dropHalfword.toNat) / 2

theorem canIssue_of_missing (h : q.missing = 0) : q.canIssue = true := by
  have hc : 2 ≤ q.count := by
    unfold missing at h
    omega
  exact canIssue_iff.mpr ⟨by omega, fun _ => by omega⟩

theorem count_le_of_missing (h : q.missing ≠ 0) : q.count ≤ 2 := by
  unfold missing at h
  have hd : q.dropHalfword.toNat ≤ 1 := Bool.toNat_le _
  omega

theorem missing_le (q : Ibuf) : q.missing ≤ 2 := by
  unfold missing
  have hd : q.dropHalfword.toNat ≤ 1 := Bool.toNat_le _
  omega

/-- A word brings the front halfword that a redirect asks to drop, or two that count. -/
theorem missing_push (hd : 0 < q.count → q.dropHalfword = false) (h : q.count ≤ 6) :
    (q.push word fault pageFault).dropFirst.missing = q.missing - 1 := by
  have hc := @push_count q word fault pageFault h
  have hpos : ((q.push word fault pageFault).hwCount != 0#4) = true :=
    count_pos.mpr (by omega)
  have hdrop : (q.push word fault pageFault).dropHalfword = q.dropHalfword := rfl
  unfold dropFirst
  rw [hdrop, hpos, Bool.and_true]
  cases hq : q.dropHalfword with
  | true =>
      have hz : q.count = 0 := by
        by_contra hne
        rw [hd (by omega)] at hq
        cases hq
      have hshift := @shift_count (q.push word fault pageFault) 1 (by omega)
      have hcount : ({ (q.push word fault pageFault).shift 1 with
          dropHalfword := false } : Ibuf).count = 1 := by
        show ((q.push word fault pageFault).shift 1).count = 1
        omega
      have hkept : ({ (q.push word fault pageFault).shift 1 with
          dropHalfword := false } : Ibuf).dropHalfword = false := rfl
      rw [if_pos rfl, missing, hcount, hkept, missing, hz, hq]
      rfl
  | false =>
      rw [if_neg (by simp), missing, hc, hdrop, missing, hq]
      simp only [Bool.toNat_false]
      omega

theorem dropFirst_of_dropped (hd : 0 < q.count → q.dropHalfword = false) : q.dropFirst = q := by
  unfold dropFirst
  rw [if_neg]
  intro h
  rw [Bool.and_eq_true, count_pos] at h
  rw [hd h.2] at h
  exact Bool.false_ne_true h.1

theorem count_le_dropFirst (q : Ibuf) : q.count ≤ q.dropFirst.count + 1 := by
  unfold dropFirst
  split
  · rename_i h
    rw [Bool.and_eq_true, count_pos] at h
    have hs := @shift_count q 1 (by omega)
    show q.count ≤ (q.shift 1).count + 1
    omega
  · omega

end Ibuf

/-! ## The frontend -/

namespace Front

variable {x : FrontIn} {s : Front}

/-- The steps until an instruction is in ID. -/
def rank (s : Front) : Nat :=
  if s.id.valid then 0 else 2 * s.filled.missing - s.fe.ifValid.toNat + 1

theorem rank_le (s : Front) : s.rank ≤ 5 := by
  unfold rank
  split
  · omega
  · have h := s.filled.missing_le
    omega

/-- The queue without an issue: the word that was fetched joins it. -/
theorem filled_next (hroom : s.inFlight ≤ 8) (hr : x.redirect = none)
    (hq : s.queueNext x = s.filled) :
    (s.next x).filled.missing
      = if s.fe.ifValid then s.filled.missing - 1 else s.filled.missing := by
  have hdrop : 0 < s.filled.count → s.filled.dropHalfword = false := Ibuf.dropFirst_dropped
  have hfe := feNext_of_none (s := s) hr
  cases hv : s.fe.ifValid with
  | true =>
      have hcount := filled_count hroom
      have hle : s.filled.count ≤ 6 := by
        unfold inFlight at hroom
        rw [hv, if_pos rfl] at hroom
        omega
      have hfill : (s.next x).filled
          = (s.filled.push x.fetch.rdata s.fe.ifFetchFault s.fe.ifFetchPageFault).dropFirst := by
        show (if (s.next x).fe.f2Valid then _ else _ : Ibuf).dropFirst = _
        rw [hfe, hq, hv]
        rfl
      rw [hfill, if_pos rfl]
      exact Ibuf.missing_push hdrop hle
  | false =>
      have hfill : (s.next x).filled = s.filled.dropFirst := by
        show (if (s.next x).fe.f2Valid then _ else _ : Ibuf).dropFirst = _
        rw [hfe, hq, hv]
        rfl
      rw [hfill, Ibuf.dropFirst_of_dropped hdrop, if_neg Bool.false_ne_true]

/-- An empty ID takes what the queue issues. -/
theorem id_next (hr : x.redirect = none) (hs : x.stallAny = false) :
    (s.next x).id.valid = s.filled.canIssue := by
  show (s.idNext x).valid = _
  unfold idNext issued
  rw [hr, hs]
  cases s.filled.canIssue with
  | true => rfl
  | false => rfl

/-- A frontend that needs a word asks for it. -/
theorem accepts_of_missing (hroom : s.inFlight ≤ 8) (hr : x.redirect = none)
    (hm : s.filled.missing ≠ 0) (hv : s.fe.ifValid = false) :
    s.inFlight ≤ 6 ∧ s.accepts x = !x.fetch.stall := by
  have hin : s.inFlight ≤ 6 := by
    have hle := Ibuf.count_le_of_missing hm
    unfold inFlight at hroom ⊢
    rw [hv] at hroom ⊢
    cases hf : s.fe.f2Valid with
    | true =>
        rw [hf, if_pos rfl] at hroom
        have hpush := @Ibuf.push_count s.fe.q s.fe.f2Word s.fe.f2FetchFault s.fe.f2FetchPageFault
          (by omega)
        have hfill : s.filled = (s.fe.q.push s.fe.f2Word s.fe.f2FetchFault
            s.fe.f2FetchPageFault).dropFirst := by
          unfold filled
          rw [hf, if_pos rfl]
        have hdrop := Ibuf.count_le_dropFirst
          (s.fe.q.push s.fe.f2Word s.fe.f2FetchFault s.fe.f2FetchPageFault)
        rw [← hfill] at hdrop
        simp only [if_true, Bool.false_eq_true, if_false]
        omega
    | false =>
        have hfill : s.filled = s.fe.q.dropFirst := by
          unfold filled
          rw [hf, if_neg Bool.false_ne_true]
        have hdrop := Ibuf.count_le_dropFirst s.fe.q
        rw [← hfill] at hdrop
        simp only [Bool.false_eq_true, if_false]
        omega
  refine ⟨hin, ?_⟩
  unfold accepts
  rw [hr]
  simp [hin]

/-- While the pipeline stalls the frontend gets no further away from its instruction. -/
theorem rank_stalled (hroom : s.inFlight ≤ 8) (hr : x.redirect = none)
    (hs : x.stallAny = true) : (s.next x).rank ≤ s.rank := by
  have hid : (s.next x).id = s.id := by
    show s.idNext x = _
    unfold idNext
    rw [hr, hs]
    rfl
  have hq : s.queueNext x = s.filled := by
    rcases issued_cases (s := s) hr with ⟨-, hq⟩ | ⟨-, hi, -⟩
    · exact hq
    · unfold issued at hi
      rw [hr, hs] at hi
      cases hi
  have hmiss := filled_next hroom hr hq
  have hacc : (s.next x).fe.ifValid.toNat ≤ 1 := Bool.toNat_le _
  unfold rank
  rw [hid, hmiss]
  cases hv : s.id.valid with
  | true => exact Nat.le_refl _
  | false =>
      simp only [Bool.false_eq_true, if_false]
      cases hi : s.fe.ifValid with
      | true =>
          simp only [if_true, Bool.toNat_true]
          omega
      | false =>
          simp only [Bool.false_eq_true, if_false, Bool.toNat_false]
          omega

/-- Without a stall an empty ID comes closer to its instruction, unless the fetch waits. -/
theorem rank_step (hroom : s.inFlight ≤ 8) (hr : x.redirect = none) (hs : x.stallAny = false)
    (hid : s.id.valid = false) :
    (s.next x).rank < s.rank ∨
      ((s.next x).rank = s.rank ∧ s.inFlight ≤ 6 ∧ x.fetch.stall = true) := by
  have hnext := id_next (s := s) hr hs
  have hrank : s.rank = 2 * s.filled.missing - s.fe.ifValid.toNat + 1 := by
    unfold rank
    rw [hid, if_neg Bool.false_ne_true]
  cases hc : s.filled.canIssue with
  | true =>
      left
      have hzero : (s.next x).rank = 0 := by
        unfold rank
        rw [hnext, hc, if_pos rfl]
      omega
  | false =>
      have hm : s.filled.missing ≠ 0 := by
        intro h
        rw [Ibuf.canIssue_of_missing h] at hc
        cases hc
      have hq : s.queueNext x = s.filled := by
        rcases issued_cases (s := s) hr with ⟨-, hq⟩ | ⟨hi, -⟩
        · exact hq
        · rw [hc] at hi
          cases hi
      have hmiss := filled_next hroom hr hq
      have hrank' : (s.next x).rank
          = 2 * (s.next x).filled.missing - (s.next x).fe.ifValid.toNat + 1 := by
        unfold rank
        rw [hnext, hc, if_neg Bool.false_ne_true]
      cases hi : s.fe.ifValid with
      | true =>
          left
          rw [hi, if_pos rfl] at hmiss
          rw [hrank', hmiss, hrank, hi, Bool.toNat_true]
          omega
      | false =>
          obtain ⟨hin, hacc⟩ := accepts_of_missing (x := x) hroom hr hm hi
          have hif : (s.next x).fe.ifValid = !x.fetch.stall := by
            rw [feNext_of_none hr]
            exact hacc
          rw [hi, if_neg Bool.false_ne_true] at hmiss
          rw [hrank', hmiss, hrank, hi, hif]
          cases x.fetch.stall with
          | true => exact .inr ⟨rfl, hin, rfl⟩
          | false =>
              left
              simp only [Bool.not_false, Bool.toNat_true, Bool.toNat_false]
              omega

end Front

/-! ## The pipeline -/

namespace Core

/-- The ports that a cycle can wait for. -/
inductive Port
  | data
  | translation
  | fetch

variable {i : CoreIn} {f : FetchIn} {s : Core}

/-- The steps until MEM and the atomic unit are free. -/
def memRank (s : Core) : Nat :=
  if s.exMem.isAtomic then 1 + s.atomicRank
  else if s.memReq then (if s.memStarted then 1 else 2)
  else 0

/-- The steps until an instruction is in EX. -/
def exRank (s : Core) : Nat := if s.idEx.valid then 0 else 1 + s.front.rank

/-- The steps until EX fires. -/
def rank (s : Core) : Nat := 10 * s.memRank + s.exRank

/-- The port that a cycle without a step waits for. -/
def waitsFor (s : Core) : Port :=
  if s.memRank = 0 then (if s.idEx.valid then .translation else .fetch) else .data

/-- The port answers the request that stands, if there is one. -/
def answers (i : CoreIn) (f : FetchIn) (s : Core) : Port → Prop
  | .data => s.dataReq.stb = true → i.ack = true
  | .translation => s.dXlateReq = true → i.dReqReady = true
  | .fetch => s.fetchReq i = true → f.stall = false

theorem exRank_le (s : Core) : s.exRank ≤ 6 := by
  unfold exRank
  split
  · omega
  · have h := s.front.rank_le
    omega

theorem exRank_of_valid (hv : s.idEx.valid = true) : s.exRank = 0 := by
  rw [exRank, hv, if_pos rfl]

theorem exRank_of_empty (hv : s.idEx.valid = false) : s.exRank = 1 + s.front.rank := by
  rw [exRank, hv, if_neg Bool.false_ne_true]

theorem memRank_of_atomic (ha : s.exMem.isAtomic = true) : s.memRank = 1 + s.atomicRank := by
  rw [memRank, ha, if_pos rfl]

theorem memRank_of_request (ha : s.exMem.isAtomic = false) (hr : s.memReq = true) :
    s.memRank = if s.memStarted then 1 else 2 := by
  rw [memRank, ha, hr, if_neg Bool.false_ne_true, if_pos rfl]

theorem waitsFor_data (h : s.memRank ≠ 0) : s.waitsFor = .data := by
  rw [waitsFor, if_neg h]

theorem waitsFor_translation (h : s.memRank = 0) (hv : s.idEx.valid = true) :
    s.waitsFor = .translation := by
  rw [waitsFor, if_pos h, hv, if_pos rfl]

theorem waitsFor_fetch (h : s.memRank = 0) (hv : s.idEx.valid = false) : s.waitsFor = .fetch := by
  rw [waitsFor, if_pos h, hv, if_neg Bool.false_ne_true]

theorem redirect_none (hr : s.redirects i = false) : (s.frontIn i f).redirect = none :=
  Option.not_isSome_iff_eq_none.mp (by rw [← Bool.not_eq_true] at hr; exact hr)

theorem memRank_of_empty (ha : s.exMem.isAtomic = false) (hr : s.memReq = false) :
    s.memRank = 0 := by
  simp [memRank, ha, hr]

/-- What is held in EX comes no further away. -/
theorem exRank_held (hroom : s.front.inFlight ≤ 8) (hr : s.redirects i = false)
    (hx : s.idExNext i = s.held) (hs : s.idEx.valid = false → s.stallAny i = true) :
    (s.next i f).exRank ≤ s.exRank := by
  have hv : (s.next i f).idEx.valid = s.idEx.valid := by
    rw [next_idEx, hx]
    rfl
  unfold exRank
  rw [hv]
  cases hval : s.idEx.valid with
  | true => exact Nat.le_refl _
  | false =>
      have hle := Front.rank_stalled (x := s.frontIn i f) hroom (redirect_none hr) (hs hval)
      rw [front_next]
      simp only [Bool.false_eq_true, if_false]
      omega

/-- An atomic that gets no further has its strobe on the bus. -/
theorem Wf.atomic_strobes (w : s.Wf) (hat : s.exMem.isAtomic = true)
    (hc : s.atomic.state ≠ .complete) (h : (s.next i f).atomicRank = s.atomicRank) :
    s.dataReq.stb = true := by
  have hv := (w.atomicMem hat).1
  by_cases hidle : s.atomic.state = .idle
  · have hbusy := (atomicNext_accept i s hidle hv hat).1
    have hlt : (s.next i f).atomicRank < 6 := atomicRank_lt hbusy
    have hsix : s.atomicRank = 6 := by simp [atomicRank, hidle]
    omega
  · revert h
    simp only [atomicRank, next_atomic, atomicNext, AtomicUnit.advance, AtomicUnit.busPhase,
      dataReq, atomicBus]
    cases hs : s.atomic.state <;> cases hst : s.atomic.started <;> simp_all

/-- **One cycle without EX firing.** The rank drops, or the port that the state depends on leaves
its request unanswered. -/
theorem Wf.rank_next (w : s.Wf) (hroom : s.front.inFlight ≤ 8) (hfire : s.exFire i = false)
    (hdiv : s.stallMem i = false → s.stallAtomic = false → s.stallDiv = false) :
    (s.next i f).rank < s.rank ∨
      ((s.next i f).rank = s.rank ∧ (s.next i f).waitsFor = s.waitsFor ∧
        ¬ s.answers i f s.waitsFor) := by
  have hred : s.redirects i = false := by
    by_contra hr
    rw [w.redirects_exFire (by simpa using hr)] at hfire
    cases hfire
  have hex' := (s.next i f).exRank_le
  cases w.step_cases i with
  | memWait mem idle _ ex exMem _ =>
      have hreq := stallMem_memReq mem
      have hat : s.exMem.isAtomic = false := by
        by_contra hat
        obtain ⟨hl, hst⟩ := (w.atomicMem (by simpa using hat)).2
        simp [memReq, hl, hst] at hreq
      have hle : (s.next i f).exRank ≤ s.exRank :=
        exRank_held hroom hred ex fun _ => by simp [stallAny, mem]
      have hwait : s.memStarted = true → i.ack = false := by
        intro hst
        simpa [stallMem, hreq, hst] using mem
      have hst' : (s.next i f).memStarted = true := by
        rw [next_memStarted, memStartedNext]
        cases hst : s.memStarted with
        | true => simp [hred, hreq, hwait hst]
        | false => simp [hred, hreq]
      have hreq' : (s.next i f).memReq = true := by
        rw [memReq, next_exMem, exMem]
        exact hreq
      have hmem' : (s.next i f).memRank = 1 := by
        rw [memRank_of_request (by rw [next_exMem, exMem, hat]) hreq', hst', if_pos rfl]
      cases hst : s.memStarted with
      | false =>
          have hmem : s.memRank = 2 := by
            rw [memRank_of_request hat hreq, hst, if_neg Bool.false_ne_true]
          left
          unfold rank
          omega
      | true =>
          have hmem : s.memRank = 1 := by rw [memRank_of_request hat hreq, hst, if_pos rfl]
          have hno : ¬ s.answers i f .data := by
            simp [answers, dataReq, idle, hreq, hst, hwait hst]
          unfold rank
          rw [waitsFor_data (by omega), waitsFor_data (by omega)]
          by_cases hlt : (s.next i f).exRank < s.exRank
          · left
            omega
          · exact .inr ⟨by omega, rfl, hno⟩
  | atomicWait hat _ notDone _ ex exMem _ =>
      have hstall := w.stallAtomic_iff.mpr hat
      have hle : (s.next i f).exRank ≤ s.exRank :=
        exRank_held hroom hred ex fun _ => by simp [stallAny, hstall]
      obtain ⟨hat', hrank⟩ := w.atomic_step (i := i) (f := f) hat notDone
      have hmem := memRank_of_atomic hat
      have hmem' := memRank_of_atomic hat'
      unfold rank
      rw [waitsFor_data (by omega), waitsFor_data (by omega), hmem, hmem']
      rcases hrank with hlt | ⟨heq, hack⟩
      · left
        omega
      · have hno : ¬ s.answers i f .data := by
          simp [answers, w.atomic_strobes hat notDone heq, hack]
        by_cases hlt : (s.next i f).exRank < s.exRank
        · left
          omega
        · exact .inr ⟨by omega, rfl, hno⟩
  | atomicDone hat _ complete _ ex exMem _ =>
      have hstall := w.stallAtomic_iff.mpr hat
      have hle : (s.next i f).exRank ≤ s.exRank :=
        exRank_held hroom hred ex fun _ => by simp [stallAny, hstall]
      have hmem : s.memRank = 1 := by
        simp [memRank_of_atomic hat, atomicRank, complete]
      have hmem' : (s.next i f).memRank = 0 :=
        memRank_of_empty (by rw [next_exMem, exMem]) (by rw [memReq, next_exMem, exMem]; rfl)
      left
      unfold rank
      omega
  | mmuWait _ _ noAtomic _ mmu ex exMem _ =>
      have hmmu : s.dXlateReq = true ∧ i.dReqReady = false := by
        simpa [stallMmu] using mmu
      have hv : s.idEx.valid = true := by
        have h := hmmu.1
        simp only [dXlateReq, Bool.and_eq_true] at h
        exact h.1.1
      have hv' : (s.next i f).idEx.valid = true := by
        rw [next_idEx, ex]
        exact hv
      have hx := exRank_of_valid hv
      have hx' := exRank_of_valid hv'
      have hmem' : (s.next i f).memRank = 0 :=
        memRank_of_empty (by rw [next_exMem, exMem]; exact noAtomic)
          (by rw [memReq, next_exMem, exMem]; rfl)
      unfold rank
      rw [hx, hx', hmem']
      by_cases hz : s.memRank = 0
      · right
        rw [waitsFor_translation hz hv, waitsFor_translation hmem' hv', hz]
        exact ⟨rfl, rfl, by simp [answers, hmmu]⟩
      · left
        omega
  | divWait mem idle noAtomic _ div =>
      have hstall : s.stallAtomic = false := by simp [stallAtomic, idle, noAtomic]
      rw [hdiv mem hstall] at div
      cases div
  | flow mem idle noAtomic fire div mmu ex exMem _ =>
      have hv : s.idEx.valid = false := fire.symm.trans hfire
      have hmem' : (s.next i f).memRank = 0 :=
        memRank_of_empty (by rw [next_exMem, exMem]; simp [exMemOfEx, hv])
          (by rw [memReq, next_exMem, exMem]; simp [exMemOfEx, hv])
      have hx := exRank_of_empty hv
      by_cases hz : s.memRank = 0
      · have hload : s.stallLoadUse = false := by simp [stallLoadUse, hv]
        have hstall : s.stallAtomic = false := by simp [stallAtomic, idle, noAtomic]
        have hany : s.stallAny i = false := by simp [stallAny, hload, mem, hstall, div, mmu]
        have hidEx : (s.next i f).idEx.valid = s.id.valid := by
          rw [next_idEx, ex, hred, hload]
          rfl
        unfold rank
        cases hid : s.id.valid with
        | true =>
            left
            have hx' := exRank_of_valid (hidEx.trans hid)
            omega
        | false =>
            have hv' := hidEx.trans hid
            have hx' := exRank_of_empty hv'
            rw [front_next] at hx'
            have hstep := Front.rank_step (x := s.frontIn i f) hroom (redirect_none hred) hany hid
            rw [hx, hx', hmem', hz, waitsFor_fetch hz hv, waitsFor_fetch hmem' hv']
            rcases hstep with hlt | ⟨heq, hin, hst⟩
            · left
              omega
            · right
              have hreq : s.fetchReq i = true := by
                have hin' : decide (s.fe.q.hwCount.toNat
                    + ((if s.fe.f2Valid then 2 else 0) + (if s.fe.ifValid then 2 else 0)) ≤ 6)
                    = true := decide_eq_true hin
                rw [fetchReq, hred, hin']
                rfl
              have hst' : f.stall = true := hst
              exact ⟨by rw [heq], rfl, by simp [answers, hreq, hst']⟩
      · left
        unfold rank
        omega

end Core

/-! ## Runs -/

section Runs

variable {inp : Nat → CoreIn × FetchIn}

theorem coreRun_room (inp : Nat → CoreIn × FetchIn) (n : Nat) :
    (coreRun inp n).front.inFlight ≤ 8 := by
  induction n with
  | zero => exact Nat.zero_le 8
  | succ n ih =>
      show ((coreRun inp n).next (inp n).1 (inp n).2).front.inFlight ≤ 8
      rw [Core.front_next]
      exact Front.room_next ih

/-- Each port answers a request that stands, sooner or later. -/
def Responsive (inp : Nat → CoreIn × FetchIn) : Prop :=
  ∀ (p : Core.Port) (n : Nat), ∃ k, n ≤ k ∧ (coreRun inp k).answers (inp k).1 (inp k).2 p

/-- A division that has been started or works fires. -/
theorem fires_of_division {n : Nat} (h : starts inp n ∨ (coreRun inp n).div.busy = true) :
    ∃ k, n ≤ k ∧ (coreRun inp k).exFire (inp k).1 = true := by
  have hfires : ∀ m, starts inp m →
      (coreRun inp (m + divCycles inp m)).exFire (inp (m + divCycles inp m)).1 = true := by
    intro m hm
    have hpos : 0 < divCycles inp m := by
      unfold divCycles
      split <;> omega
    have hdiv := divides_of_starts hm hpos (Nat.le_refl _)
    obtain ⟨w, l⟩ := coreRun_linked inp (m + divCycles inp m)
    exact l.fire_of_result w hdiv.quiet (hdiv.result rfl)
  rcases h with h | h
  · exact ⟨n + divCycles inp n, by omega, hfires n h⟩
  · obtain ⟨m, k, rfl, -, hle, hs⟩ := exists_start (.inl h)
    exact ⟨m + divCycles inp m, by omega, hfires m hs⟩

/-- EX fires again and again. -/
theorem fires_again (h : Responsive inp) (n : Nat) :
    ∃ k, n ≤ k ∧ (coreRun inp k).exFire (inp k).1 = true := by
  have hstep : ∀ k, ¬ ((coreRun inp k).exFire (inp k).1 = true ∨
      starts inp k ∨ (coreRun inp k).div.busy = true) →
      (coreRun inp (k + 1)).rank < (coreRun inp k).rank ∨
        ((coreRun inp (k + 1)).rank = (coreRun inp k).rank ∧
          (coreRun inp (k + 1)).waitsFor = (coreRun inp k).waitsFor ∧
          ¬ (coreRun inp k).answers (inp k).1 (inp k).2 (coreRun inp k).waitsFor) := by
    intro k hno
    simp only [not_or, Bool.not_eq_true] at hno
    obtain ⟨hfire, hstart, hbusy⟩ := hno
    obtain ⟨w, -⟩ := coreRun_linked inp k
    refine w.rank_next (coreRun_room inp k) hfire fun hmem hat => ?_
    -- a division in EX would start
    by_contra hdiv
    apply hstart
    simp only [Core.stallDiv, hbusy, Bool.false_or, Bool.not_eq_false, Bool.and_eq_true,
      Bool.not_eq_true'] at hdiv
    simp [starts, Core.dividerIn, hmem, hat, hdiv, hbusy]
  obtain ⟨k, hk, hgoal⟩ := @Clocked.eventually Core.Port _ (fun k => (coreRun inp k).rank)
    (fun k => (coreRun inp k).waitsFor) _ h hstep n
  rcases hgoal with hfire | hdiv
  · exact ⟨k, hk, hfire⟩
  · obtain ⟨j, hj, hfire⟩ := fires_of_division hdiv
    exact ⟨j, Nat.le_trans hk hj, hfire⟩

/-- What fires is executed or traps. -/
theorem fired_next (inp : Nat → CoreIn × FetchIn) (n : Nat) :
    (executed inp (n + 1)).length + trapsTaken inp (n + 1)
      = (executed inp n).length + trapsTaken inp n
        + ((coreRun inp n).exFire (inp n).1).toNat := by
  have htraps : trapsTaken inp (n + 1)
      = trapsTaken inp n + ((coreRun inp n).privTrapTaken (inp n).1).toNat := by
    rw [trapsTaken, Clocked.count_succ]
    rfl
  have hlog : (executed inp (n + 1)).length
      = (executed inp n).length + ((coreRun inp n).commits (inp n).1).toNat := by
    have hnext : executed inp (n + 1)
        = (coreRun inp n).logNext (inp n).1 (executed inp n) := Clocked.history_succ n
    rw [hnext, logNext_length]
    cases (coreRun inp n).commits (inp n).1 with
    | true => rfl
    | false => rfl
  rw [htraps, hlog, Core.commits]
  cases ht : (coreRun inp n).privTrapTaken (inp n).1 with
  | true =>
      rw [Core.privTrapTaken_exFire ht]
      rfl
  | false =>
      simp only [Bool.not_false, Bool.and_true, Bool.toNat_false]
      omega

/-- **The core never hangs.** If each port answers a request that stands, EX fires again and
again, and the number of instructions executed and traps taken exceeds every bound. -/
theorem core_never_hangs (inp : Nat → CoreIn × FetchIn) (h : Responsive inp) :
    (∀ n, ∃ k, n ≤ k ∧ (coreRun inp k).exFire (inp k).1 = true) ∧
    ∀ m, ∃ n, m ≤ (executed inp n).length + trapsTaken inp n := by
  refine ⟨fires_again h, fun m => ?_⟩
  induction m with
  | zero => exact ⟨0, Nat.zero_le _⟩
  | succ m ih =>
      obtain ⟨n, hn⟩ := ih
      obtain ⟨k, hk, hfire⟩ := fires_again h n
      have hmono : ∀ d, (executed inp n).length + trapsTaken inp n
          ≤ (executed inp (n + d)).length + trapsTaken inp (n + d) := by
        intro d
        induction d with
        | zero => exact Nat.le_refl _
        | succ d ihd =>
            have hnext := fired_next inp (n + d)
            rw [← Nat.add_assoc]
            omega
      obtain ⟨d, rfl⟩ := Nat.exists_eq_add_of_le hk
      have hnext := fired_next inp (n + d)
      rw [hfire, Bool.toNat_true] at hnext
      have hle := hmono d
      exact ⟨n + d + 1, by omega⟩

end Runs

/-- The bus of the access program answers at once. -/
theorem core_never_hangs_access :
    ∃ n, 1000 ≤ (executed accessFeed n).length + trapsTaken accessFeed n :=
  (core_never_hangs accessFeed fun p n => ⟨n, Nat.le_refl n, by
    cases p with
    | data => exact fun _ => rfl
    | translation => exact fun _ => rfl
    | fetch => exact fun _ => rfl⟩).2 1000

end MelonSoc
