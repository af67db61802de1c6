import MelonSoc.Pipeline.Frontend
import MelonSoc.Xlate.Context

set_option autoImplicit false

/-! # The halfwords on their way to EX

History variables that say where each halfword between the fetch interface and EX was read: IF
carries the address of its word, F2, the queue, ID and EX carry halfwords. They move as the
registers of the core move, and the instruction in EX is made of the halfwords EX carries. An
address is missing where a fetch has failed; the privilege stays the same on the way.
-/

namespace MelonSoc

/-- A halfword and the physical address of the word it was read from, if its fetch reached one. -/
structure Fetched where
  word : Option Word
  upper : Bool
  half : Halfword
deriving DecidableEq

/-- The two halfwords of a word. -/
def halves (addr : Option Word) (word : Word) (fault pageFault : Bool) : List Fetched :=
  [⟨addr, false, lowHalf word fault pageFault⟩, ⟨addr, true, highHalf word fault pageFault⟩]

/-- What the registers of the core carry. -/
structure Carried where
  fetching : Option Word
  f2 : List Fetched
  queue : List Fetched
  id : List Fetched
  ex : List Fetched

/-- The halfwords that have been fetched and not executed yet. -/
def Carried.ahead (g : Carried) : List Fetched := g.f2 ++ g.queue ++ g.id

/-- Nothing has been fetched. -/
def Carried.empty : Carried := { fetching := none, f2 := [], queue := [], id := [], ex := [] }

namespace Ibuf

/-- The halfwords of the queue, the first one in front. -/
def contents (q : Ibuf) : List Halfword := (List.range q.count).map q.halfword

variable {q : Ibuf} {word : Word} {fault pageFault : Bool} {n : Nat}

theorem contents_length : q.contents.length = q.count := by
  simp [contents]

theorem contents_get {k : Nat} (h : k < q.count) : q.contents[k]? = some (q.halfword k) := by
  simp [contents, h]

theorem push_contents (h : q.count ≤ 6) : (q.push word fault pageFault).contents =
    q.contents ++ [lowHalf word fault pageFault, highHalf word fault pageFault] := by
  have hold : (List.range q.count).map (q.push word fault pageFault).halfword = q.contents := by
    refine List.map_congr_left fun k hk => ?_
    have hlt := List.mem_range.mp hk
    have h0 : ¬ k = q.count := by omega
    have h1 : ¬ k = q.count + 1 := by omega
    rw [push_halfword (by omega), if_neg h0, if_neg h1]
  rw [contents, push_count h, List.range_succ, List.range_succ, List.map_append, List.map_append,
    hold, List.append_assoc]
  congr 1
  show [(q.push word fault pageFault).halfword q.count,
    (q.push word fault pageFault).halfword (q.count + 1)] = _
  have h1 : ¬ q.count + 1 = q.count := by omega
  rw [push_halfword (by omega), push_halfword (by omega), if_pos rfl, if_neg h1, if_pos rfl]

theorem shift_contents (h : n ≤ q.count) : (q.shift n).contents = q.contents.drop n := by
  refine List.ext_getElem? fun k => ?_
  rw [List.getElem?_drop]
  by_cases hk : n + k < q.count
  · rw [contents_get hk, contents_get (by rw [shift_count h]; omega), shift_halfword]
  · rw [List.getElem?_eq_none, List.getElem?_eq_none]
    · rw [contents_length]
      omega
    · rw [contents_length, shift_count h]
      omega

theorem dropFirst_contents :
    q.dropFirst.contents = if q.dropHalfword then q.contents.drop 1 else q.contents := by
  unfold dropFirst
  split
  · rename_i h
    rw [Bool.and_eq_true, count_pos] at h
    rw [if_pos h.1]
    exact shift_contents h.2
  · rename_i h
    split
    · rename_i hd
      rw [Bool.and_eq_true, count_pos, not_and] at h
      have hnil : q.contents = [] := by
        rw [← List.length_eq_zero_iff, contents_length]
        have := h hd
        omega
      rw [hnil]
      rfl
    · rfl

/-- The number of halfwords of the instruction at the front. -/
def width (q : Ibuf) : Nat := if q.isRvc then 1 else 2

theorem pop_contents (h : q.canIssue = true) : q.pop.contents = q.contents.drop q.width :=
  shift_contents (width_le_count h)

end Ibuf

/-- The halfwords of `hs` make up the instruction `insn`. -/
def Encodes (hs : List Fetched) (insn : Word) : Prop :=
  match hs with
  | [h] => insn = (rvcExpand h.half.bits).insn
  | [h0, h1] => insn = h1.half.bits ++ h0.half.bits
  | _ => False

/-- An instruction is made of the halfwords `hs`, and has no fault if none of them has. -/
def Carries (fault : Bool) (insn : Word) (hs : List Fetched) : Prop :=
  Encodes hs insn ∧ (fault = false → ∀ h ∈ hs, h.half.fault = false)

/-- An issued instruction is made of the halfwords that leave the queue. -/
theorem Ibuf.issue_carries {q : Ibuf} {hs : List Fetched} (hc : q.canIssue = true)
    (hq : q.contents = hs.map Fetched.half) :
    Carries q.issue.fetchFault q.issue.instr (hs.take q.width) := by
  obtain ⟨h0, h1⟩ := canIssue_iff.mp hc
  have hrvc := isRvc_eq h0
  have hget0 := contents_get h0
  rw [hq] at hget0
  cases hs with
  | nil => cases hget0
  | cons a hs =>
      have ha : q.halfword 0 = a.half := (Option.some.inj hget0).symm
      cases hcomp : compressed (q.halfword 0).bits with
      | true =>
          have hwidth : q.width = 1 := by rw [width, hrvc, hcomp, if_pos rfl]
          rw [issue_compressed (hrvc.trans hcomp), hwidth, ha]
          refine ⟨rfl, fun hf h hh => ?_⟩
          rw [List.mem_singleton.mp hh]
          exact hf
      | false =>
          have hwidth : q.width = 2 := by rw [width, hrvc, hcomp]; rfl
          have hget1 := contents_get (h1 hcomp)
          rw [hq] at hget1
          cases hs with
          | nil => cases hget1
          | cons b hs =>
              have hb : q.halfword 1 = b.half := (Option.some.inj hget1).symm
              rw [issue_wide (hrvc.trans hcomp), hwidth, ha, hb]
              refine ⟨rfl, fun (hf : (a.half.fault || b.half.fault) = false) h hh => ?_⟩
              rw [Bool.or_eq_false_iff] at hf
              rcases List.mem_pair.mp hh with rfl | rfl
              · exact hf.1
              · exact hf.2

namespace Core

variable {i : CoreIn} {f : FetchIn} {s : Core} {addr : Option Word} {g : Carried}

/-- The word that arrives from the fetch interface. -/
def arriving (f : FetchIn) (s : Core) (g : Carried) : List Fetched :=
  if s.fe.ifValid then halves g.fetching f.rdata s.fe.ifFetchFault s.fe.ifFetchPageFault else []

/-- The queue after F2 has been pushed. -/
def carriedFilled (s : Core) (g : Carried) : List Fetched :=
  if s.fe.q.dropHalfword then (g.queue ++ g.f2).drop 1 else g.queue ++ g.f2

/-- What is carried after a cycle; a fetch that is accepted reads the word at `addr`. -/
def carriedNext (i : CoreIn) (f : FetchIn) (addr : Option Word) (s : Core) (g : Carried) : Carried :=
  if s.redirects i then { Carried.empty with fetching := addr }
  else
    let issues := !s.stallAny i && s.filled.canIssue
    { fetching := addr
      f2 := s.arriving f g
      queue := if issues then (s.carriedFilled g).drop s.filled.width else s.carriedFilled g
      id := if s.stallAny i then g.id
        else if issues then (s.carriedFilled g).take s.filled.width else []
      ex := if s.stallDiv || s.stallMem i || s.stallAtomic || s.stallMmu i then g.ex
        else if s.stallLoadUse then [] else g.id }

/-- The history variables tell the contents of the registers. -/
structure Carrying (s : Core) (g : Carried) : Prop where
  room : s.front.inFlight ≤ 8
  queue : s.fe.q.contents = g.queue.map Fetched.half
  f2 : g.f2.map Fetched.half = if s.fe.f2Valid then
      [lowHalf s.fe.f2Word s.fe.f2FetchFault s.fe.f2FetchPageFault,
        highHalf s.fe.f2Word s.fe.f2FetchFault s.fe.f2FetchPageFault]
    else []
  id : s.id.valid = true → Carries s.id.fetchFault s.id.instr g.id
  ex : s.idEx.valid = true → Carries s.idEx.fetchFault s.idEx.instr g.ex

theorem carrying_reset : Core.reset.Carrying Carried.empty where
  room := by decide
  queue := rfl
  f2 := rfl
  id := by
    intro h
    cases h
  ex := by
    intro h
    cases h

theorem Carrying.filled (c : s.Carrying g) :
    s.filled.contents = (s.carriedFilled g).map Fetched.half := by
  have hroom := c.room
  have hpush : (if s.fe.f2Valid then
      s.fe.q.push s.fe.f2Word s.fe.f2FetchFault s.fe.f2FetchPageFault else s.fe.q).contents =
      (g.queue ++ g.f2).map Fetched.half := by
    rw [List.map_append, ← c.queue, c.f2]
    cases hv : s.fe.f2Valid with
    | true =>
        have hle : s.fe.q.count ≤ 6 := by
          have hv' : s.front.fe.f2Valid = true := hv
          unfold Front.inFlight at hroom
          rw [hv', if_pos rfl] at hroom
          show s.front.fe.q.count ≤ 6
          omega
        exact Ibuf.push_contents hle
    | false => exact (List.append_nil _).symm
  have hdrop : (if s.fe.f2Valid then
      s.fe.q.push s.fe.f2Word s.fe.f2FetchFault s.fe.f2FetchPageFault
        else s.fe.q).dropHalfword = s.fe.q.dropHalfword := by
    split
    · rfl
    · rfl
  rw [Core.filled, Ibuf.dropFirst_contents, hdrop, hpush, carriedFilled]
  split
  · exact (List.map_drop).symm
  · rfl

theorem Carrying.id_next (c : s.Carrying g) (hred : s.redirects i = false)
    (h : (s.idNext i).valid = true) : Carries (s.idNext i).fetchFault (s.idNext i).instr
      (if s.stallAny i then g.id
        else if !s.stallAny i && s.filled.canIssue then (s.carriedFilled g).take s.filled.width
        else []) := by
  rw [Core.idNext, if_neg (by simp [hred])] at h ⊢
  cases hs : s.stallAny i with
  | true =>
      rw [hs] at h
      exact c.id h
  | false =>
      rw [hs] at h
      cases hc : s.filled.canIssue with
      | true => exact Ibuf.issue_carries hc c.filled
      | false =>
          rw [hc] at h
          cases h

theorem Carrying.ex_next (c : s.Carrying g) (hred : s.redirects i = false)
    (h : (s.idExNext i).valid = true) : Carries (s.idExNext i).fetchFault (s.idExNext i).instr
      (if s.stallDiv || s.stallMem i || s.stallAtomic || s.stallMmu i then g.ex
        else if s.stallLoadUse then [] else g.id) := by
  rw [Core.idExNext, if_neg (by simp [hred])] at h ⊢
  split
  · rename_i hheld
    rw [if_pos hheld] at h
    exact c.ex h
  · rename_i hheld
    rw [if_neg hheld] at h
    split
    · rename_i hl
      rw [if_pos hl] at h
      cases h
    · rename_i hl
      rw [if_neg hl] at h
      exact c.id h

/-- **Step.** The history variables move with the registers. -/
theorem Carrying.next (c : s.Carrying g) : (s.next i f).Carrying (s.carriedNext i f addr g) := by
  have hroom : (s.next i f).front.inFlight ≤ 8 := by
    rw [front_next]
    exact Front.room_next c.room
  cases hr : s.exRedirect i with
  | some pc =>
      have hred : s.redirects i = true := by simp [redirects, hr]
      have hid : (s.idNext i).valid = false := by rw [idNext, if_pos hred]
      have hex : (s.idExNext i).valid = false := by rw [idExNext, if_pos hred]
      have hfe := Front.feNext_of_redirect (s := s.front) (x := s.frontIn i f) hr
      rw [← front_next] at hfe
      have hfe' : (s.next i f).fe = _ := hfe
      rw [carriedNext, if_pos hred]
      refine ⟨hroom, ?_, ?_, fun h => ?_, fun h => ?_⟩
      · rw [hfe']
        rfl
      · rw [hfe']
        rfl
      · rw [next_id, hid] at h
        cases h
      · rw [next_idEx, hex] at h
        cases h
  | none =>
      have hred : s.redirects i = false := by simp [redirects, hr]
      have hfill := c.filled
      have hq : (s.next i f).fe.q =
          if !s.stallAny i && s.filled.canIssue then s.filled.pop else s.filled := by
        rw [next_fe, frontendNext_q]
        simp only [ibufNext, hr]
      rw [carriedNext, if_neg (by simp [hred])]
      refine ⟨hroom, ?_, ?_, fun h => ?_, fun h => ?_⟩
      · rw [hq]
        cases hi : !s.stallAny i && s.filled.canIssue with
        | true =>
            rw [Bool.and_eq_true] at hi
            show s.filled.pop.contents = ((s.carriedFilled g).drop s.filled.width).map Fetched.half
            rw [Ibuf.pop_contents hi.2, hfill, List.map_drop]
        | false => exact hfill
      · have hfe := Front.feNext_of_none (s := s.front) (x := s.frontIn i f) hr
        rw [← front_next] at hfe
        have hfe' : (s.next i f).fe = _ := hfe
        rw [hfe']
        show (s.arriving f g).map Fetched.half = if s.fe.ifValid then _ else _
        unfold arriving
        cases hv : s.fe.ifValid with
        | true =>
            have hv' : s.front.fe.ifValid = true := hv
            simp only [if_true, hv']
            rfl
        | false => rfl
      · exact c.id_next hred h
      · exact c.ex_next hred h

/-- A fetch in IF was accepted in the cycle before. -/
theorem accepted_of_ifValid (hv : (s.frontendNext i f).ifValid = true) :
    s.fetchReq i = true ∧ f.stall = false ∧ (s.frontendNext i f).ifFetchFault = f.fault := by
  unfold frontendNext at *
  cases hr : s.exRedirect i with
  | some pc =>
      rw [hr] at hv
      cases hv
  | none =>
      rw [hr] at hv
      cases hacc : s.fetchReq i && !f.stall with
      | true =>
          rw [Bool.and_eq_true, Bool.not_eq_true'] at hacc
          exact ⟨hacc.1, hacc.2, rfl⟩
      | false =>
          rw [hacc] at hv
          cases hv

theorem carriedNext_fetching : (s.carriedNext i f addr g).fetching = addr := by
  unfold carriedNext
  split
  · rfl
  · rfl

/-- The instruction in EX stays there. -/
def exStays (i : CoreIn) (s : Core) : Bool :=
  s.stallDiv || s.stallMem i || s.stallAtomic || s.stallMmu i

theorem exStays_of_exFire (h : s.exFire i = true) : s.exStays i = false := by
  simp only [exFire, Bool.and_eq_true, Bool.not_eq_true'] at h
  simp [exStays, h]

theorem mem_carriedFilled {h : Fetched} (hh : h ∈ s.carriedFilled g) : h ∈ g.ahead := by
  have hq : h ∈ g.queue ++ g.f2 := by
    unfold carriedFilled at hh
    split at hh
    · exact List.mem_of_mem_drop hh
    · exact hh
  simp only [Carried.ahead, List.mem_append] at *
  rcases hq with hq | hq
  · exact .inl (.inr hq)
  · exact .inl (.inl hq)

/-- What is ahead of EX after a cycle has arrived in it or was ahead before. -/
theorem ahead_carriedNext {h : Fetched} (hh : h ∈ (s.carriedNext i f addr g).ahead) :
    s.redirects i = false ∧ (h ∈ s.arriving f g ∨ h ∈ g.ahead) := by
  unfold carriedNext at hh
  split at hh
  · simp [Carried.ahead, Carried.empty] at hh
  · rename_i hr
    refine ⟨by simpa using hr, ?_⟩
    rw [Carried.ahead, List.mem_append, List.mem_append] at hh
    rcases hh with (hh | hh) | hh
    · exact .inl hh
    · refine .inr (mem_carriedFilled (s := s) ?_)
      dsimp only at hh
      split at hh
      · exact List.mem_of_mem_drop hh
      · exact hh
    · dsimp only at hh
      split at hh
      · exact .inr (by simp [Carried.ahead, hh])
      · split at hh
        · exact .inr (mem_carriedFilled (List.mem_of_mem_take hh))
        · cases hh

/-- What EX carries after a cycle stays there or was ahead before. -/
theorem ex_carriedNext {h : Fetched} (hh : h ∈ (s.carriedNext i f addr g).ex) :
    (s.exStays i = true ∧ h ∈ g.ex) ∨ h ∈ g.ahead := by
  unfold carriedNext at hh
  split at hh
  · cases hh
  · dsimp only at hh
    split at hh
    · rename_i hs
      exact .inl ⟨hs, hh⟩
    · split at hh
      · cases hh
      · exact .inr (by simp [Carried.ahead, hh])

theorem mem_arriving {h : Fetched} (hh : h ∈ s.arriving f g) :
    s.fe.ifValid = true ∧ h.word = g.fetching ∧ h.half.fault = s.fe.ifFetchFault ∧
      h.half.bits = f.rdata.extractLsb' (if h.upper then 16 else 0) 16 := by
  unfold arriving at hh
  split at hh
  · rename_i hv
    rcases List.mem_pair.mp hh with rfl | rfl
    · exact ⟨hv, rfl, rfl, rfl⟩
    · exact ⟨hv, rfl, rfl, rfl⟩
  · cases hh

/-! ## Where the halfwords were read -/

/-- What was fetched without a fault, or in M-mode, has an address. -/
structure Located (s : Core) (g : Carried) : Prop where
  fetching : s.fe.ifValid = true → s.fe.ifFetchFault = false ∨ s.csr.currentPriv = privM →
    g.fetching.isSome = true
  halfwords : ∀ h, h ∈ g.ahead ∨ h ∈ g.ex → h.half.fault = false ∨ s.csr.currentPriv = privM →
    h.word.isSome = true

theorem located_reset : Core.reset.Located Carried.empty where
  fetching := by
    intro h
    cases h
  halfwords := by
    rintro h (hh | hh)
    · cases hh
    · cases hh

/-- **Step.** The privilege cannot change under what is carried. -/
theorem Located.next (l : s.Located g)
    (haddr : s.fetchReq i = true → f.stall = false →
      f.fault = false ∨ s.csr.currentPriv = privM → addr.isSome = true) :
    (s.next i f).Located (s.carriedNext i f addr g) := by
  cases hred : s.redirects i with
  | true =>
      have hempty : s.carriedNext i f addr g = { Carried.empty with fetching := addr } := by
        rw [carriedNext, if_pos hred]
      have hfe : (s.frontendNext i f).ifValid = false := by
        obtain ⟨pc, hr⟩ := Option.isSome_iff_exists.mp hred
        unfold frontendNext
        rw [hr]
      rw [hempty]
      refine ⟨fun hv => ?_, ?_⟩
      · rw [next_fe, hfe] at hv
        cases hv
      · rintro h (hh | hh)
        · cases hh
        · cases hh
  | false =>
      have hpriv := priv_next (f := f) hred
      refine ⟨fun hv hf => ?_, fun h hh hf => ?_⟩
      · obtain ⟨hreq, hstall, hfault⟩ := accepted_of_ifValid hv
        rw [next_fe, hfault, hpriv] at hf
        rw [carriedNext_fetching]
        exact haddr hreq hstall hf
      · rw [hpriv] at hf
        have hold : h ∈ s.arriving f g ∨ h ∈ g.ahead ∨ h ∈ g.ex := by
          rcases hh with hh | hh
          · exact (ahead_carriedNext hh).2.imp_right .inl
          · exact .inr ((ex_carriedNext hh).elim (fun he => .inr he.2) .inl)
        rcases hold with harr | hold
        · obtain ⟨hv, hword, hfault, -⟩ := mem_arriving harr
          rw [hword]
          rw [hfault] at hf
          exact l.fetching hv hf
        · exact l.halfwords h hold hf

end Core

end MelonSoc
