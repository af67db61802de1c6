import MelonSoc.Pipeline.FetchQueue
import MelonSoc.Pipeline.InOrder

set_option autoImplicit false

/-! # The fetch frontend

The frontend taken out of the core: its inputs are the redirect and the stall that the core
computes and what the fetch interface answers. Between two redirects it parses the halfwords of
memory one instruction after the other. `Tracks` ties the places of the queue and of the two
pipeline registers before it to the addresses of these halfwords, whatever has been fetched.
-/

namespace MelonSoc

/-! ## Word addresses -/

/-- The address of the word that holds the halfword at `pc`. -/
def wordAddr (pc : Word) : Word := pc &&& 0xFFFFFFFC#32

theorem wordAddr_bit (pc : Word) (k : Nat) :
    (wordAddr pc).getLsbD k = (pc.getLsbD k && decide (2 ≤ k)) := by
  by_cases hk : k < 32
  · have hmask : ∀ j : Fin 32, (0xFFFFFFFC#32).getLsbD j.val = decide (2 ≤ j.val) := by decide
    rw [wordAddr, BitVec.getLsbD_and, hmask ⟨k, hk⟩]
  · rw [BitVec.getLsbD_of_ge _ _ (by omega), BitVec.getLsbD_of_ge pc _ (by omega), Bool.false_and]

/-- An even address is that of its word or 2 more. -/
theorem wordAddr_add {pc : Word} (h : IsEven pc) :
    wordAddr pc + (if pc.getLsbD 1 then 2#32 else 0#32) = pc := by
  have hsplit : wordAddr pc + (if pc.getLsbD 1 then 2#32 else 0#32)
      = wordAddr pc ||| (if pc.getLsbD 1 then 2#32 else 0#32) := by
    apply BitVec.add_eq_or_of_and_eq_zero
    apply BitVec.eq_of_getLsbD_eq
    intro k hk
    rw [BitVec.getLsbD_and, wordAddr_bit]
    have htwo : ∀ j : Fin 32, 2 ≤ j.val → (2#32).getLsbD j.val = false := by decide
    by_cases h2 : 2 ≤ k
    · split
      · simp [htwo ⟨k, hk⟩ h2]
      · simp
    · simp [h2]
  rw [hsplit]
  apply BitVec.eq_of_getLsbD_eq
  intro k hk
  rw [BitVec.getLsbD_or, wordAddr_bit]
  have htwo : ∀ j : Fin 32, (2#32).getLsbD j.val = decide (j.val = 1) := by decide
  rcases Nat.lt_or_ge k 2 with h2 | h2
  · obtain rfl | rfl : k = 0 ∨ k = 1 := by omega
    · rw [h]
      split <;> rfl
    · split
      · rename_i h1
        rw [h1]
        rfl
      · rename_i h1
        rw [Bool.not_eq_true] at h1
        rw [h1]
        rfl
  · have hne : k ≠ 1 := by omega
    have hfalse : (if pc.getLsbD 1 then 2#32 else 0#32).getLsbD k = false := by
      split
      · exact (htwo ⟨k, hk⟩).trans (decide_eq_false hne)
      · simp
    rw [hfalse, Bool.or_false, decide_eq_true h2, Bool.and_true]

/-- A word address. -/
def IsAligned (a : Word) : Prop := wordAddr a = a

theorem isAligned_wordAddr (pc : Word) : IsAligned (wordAddr pc) := by
  apply BitVec.eq_of_getLsbD_eq
  intro k _
  rw [wordAddr_bit, wordAddr_bit, Bool.and_assoc, Bool.and_self]

theorem isAligned_iff {a : Word} : IsAligned a ↔ a.toNat % 4 = 0 := by
  have hmod : a.toNat % 4 = 0 ↔ a.getLsbD 0 = false ∧ a.getLsbD 1 = false := by
    rw [← BitVec.testBit_toNat, ← BitVec.testBit_toNat, Nat.testBit_zero, Nat.testBit_succ,
      Nat.testBit_zero, decide_eq_false_iff_not, decide_eq_false_iff_not]
    omega
  rw [hmod]
  constructor
  · intro h
    rw [← h, wordAddr_bit, wordAddr_bit]
    simp
  · rintro ⟨h0, h1⟩
    have h := wordAddr_add (show IsEven a from h0)
    rw [h1] at h
    show wordAddr a = a
    simpa using h

theorem IsAligned.add_four {a : Word} (h : IsAligned a) : IsAligned (a + 4#32) := by
  rw [isAligned_iff] at *
  rw [BitVec.toNat_add, BitVec.toNat_ofNat]
  omega

theorem IsAligned.wordAddr_upper {a : Word} (h : IsAligned a) :
    wordAddr (a + 2#32) = a ∧ (a + 2#32).getLsbD 1 = true := by
  rw [isAligned_iff] at h
  have hnat : (a + 2#32).toNat = a.toNat + 2 := by
    rw [BitVec.toNat_add, BitVec.toNat_ofNat]
    omega
  have hbit : (a + 2#32).getLsbD 1 = true := by
    rw [← BitVec.testBit_toNat, hnat, Nat.testBit_succ, Nat.testBit_zero, decide_eq_true_eq]
    omega
  have heven : IsEven (a + 2#32) := by
    rw [isEven_iff, hnat]
    omega
  have hadd := wordAddr_add heven
  rw [hbit, if_pos rfl] at hadd
  exact ⟨(BitVec.add_left_inj _).mp hadd, hbit⟩

/-! ## Memory as a stream of halfwords -/

/-- The words of memory and how a fetch from them fails, by word address. -/
structure FetchMem where
  word : Word → Word
  fault : Word → Bool
  pageFault : Word → Bool

/-- The low two bits of a 16-bit instruction differ from `11`. -/
def compressed (hw : BitVec 16) : Bool := hw.extractLsb' 0 2 != 0b11#2

namespace FetchMem

/-- The halfword at `pc`. -/
def halfword (m : FetchMem) (pc : Word) : Halfword :=
  let a := wordAddr pc
  if pc.getLsbD 1 then highHalf (m.word a) (m.fault a) (m.pageFault a)
  else lowHalf (m.word a) (m.fault a) (m.pageFault a)

/-- `x` is the instruction at `pc`: it faults iff one of its halfwords does, with the address of
the first of them, and otherwise carries their bits. -/
structure Parses (m : FetchMem) (pc : Word) (x : IdStage) : Prop where
  valid : x.valid = true
  start : x.pc = pc
  len : x.len = 2#32 ∨ x.len = 4#32
  width : (m.halfword pc).fault = false →
    x.len = if compressed (m.halfword pc).bits then 2#32 else 4#32
  fault : x.fetchFault =
    ((m.halfword pc).fault || (x.len == 4#32 && (m.halfword (pc + 2#32)).fault))
  faultAt : x.fetchFault = true →
    x.fetchFaultValue = (if (m.halfword pc).fault then pc else pc + 2#32) ∧
    x.fetchPageFault = (if (m.halfword pc).fault then (m.halfword pc).pageFault
      else (m.halfword (pc + 2#32)).pageFault)
  insn : x.fetchFault = false → x.fetchFaultValue = 0#32 ∧
    if compressed (m.halfword pc).bits then
      x.instr = (rvcExpand (m.halfword pc).bits).insn ∧
      x.illegal = (rvcExpand (m.halfword pc).bits).illegal ∧
      x.illegalValue = (m.halfword pc).bits.setWidth 32
    else
      x.instr = (m.halfword (pc + 2#32)).bits ++ (m.halfword pc).bits ∧ x.illegal = false ∧
      x.illegalValue = x.instr

/-- The instructions of the list stand one behind the other from `pc` on. -/
def ParsedFrom (m : FetchMem) : Word → List IdStage → Prop
  | _, [] => True
  | pc, x :: xs => m.Parses pc x ∧ m.ParsedFrom (pc + x.len) xs

end FetchMem

/-- The address behind a list of instructions that starts at `pc`. -/
def behind (pc : Word) (xs : List IdStage) : Word := xs.foldl (fun a x => a + x.len) pc

theorem behind_append (pc : Word) (xs : List IdStage) (x : IdStage) :
    behind pc (xs ++ [x]) = behind pc xs + x.len := by
  simp [behind]

theorem FetchMem.ParsedFrom.append {m : FetchMem} {pc : Word} {xs : List IdStage} {x : IdStage}
    (h : m.ParsedFrom pc xs) (hx : m.Parses (behind pc xs) x) : m.ParsedFrom pc (xs ++ [x]) := by
  induction xs generalizing pc with
  | nil => exact ⟨hx, trivial⟩
  | cons y ys ih => exact ⟨h.1, ih h.2 hx⟩

/-! ## The machine -/

/-- What the frontend sees of the core and of the fetch interface in a cycle. -/
structure FrontIn where
  redirect : Option Word
  stallAny : Bool
  fetch : FetchIn

/-- The frontend and the ID registers it fills. -/
structure Front where
  fe : Frontend
  id : IdStage

namespace Front

def reset : Front := { fe := Frontend.reset, id := IdStage.reset }

/-- The queue after F2 has been pushed. -/
def filled (s : Front) : Ibuf :=
  (if s.fe.f2Valid then s.fe.q.push s.fe.f2Word s.fe.f2FetchFault s.fe.f2FetchPageFault
    else s.fe.q).dropFirst

/-- `ibuf_hw_count + 2*f2_valid + 2*if_valid`. -/
def inFlight (s : Front) : Nat :=
  s.fe.q.count + ((if s.fe.f2Valid then 2 else 0) + (if s.fe.ifValid then 2 else 0))

/-- A fetch of the word at `pcF` is accepted. -/
def accepts (x : FrontIn) (s : Front) : Bool :=
  !x.redirect.isSome && s.inFlight ≤ 6 && !x.fetch.stall

/-- The instruction that is issued into ID. -/
def issued (x : FrontIn) (s : Front) : Option IdStage :=
  if !x.redirect.isSome && !x.stallAny && s.filled.canIssue then some s.filled.issue else none

/-- The queue after the cycle. -/
def queueNext (x : FrontIn) (s : Front) : Ibuf :=
  match x.redirect with
  | some pc => Ibuf.flush pc
  | none => if (s.issued x).isSome then s.filled.pop else s.filled

def feNext (x : FrontIn) (s : Front) : Frontend :=
  match x.redirect with
  | some pc =>
      { pcF := wordAddr pc
        ifValid := false, ifFetchFault := false, ifFetchPageFault := false
        f2Word := 0#32, f2Valid := false, f2FetchFault := false, f2FetchPageFault := false
        q := s.queueNext x }
  | none =>
      { pcF := if s.accepts x then s.fe.pcF + 4#32 else s.fe.pcF
        ifValid := s.accepts x
        ifFetchFault := s.accepts x && x.fetch.fault
        ifFetchPageFault := s.accepts x && x.fetch.pageFault
        f2Word := if s.fe.ifValid then x.fetch.rdata else s.fe.f2Word
        f2Valid := s.fe.ifValid
        f2FetchFault := if s.fe.ifValid then s.fe.ifFetchFault else s.fe.f2FetchFault
        f2FetchPageFault := if s.fe.ifValid then s.fe.ifFetchPageFault else s.fe.f2FetchPageFault
        q := s.queueNext x }

def idNext (x : FrontIn) (s : Front) : IdStage :=
  if x.redirect.isSome then
    { s.id with
      valid := false, pc := 0#32, instr := 0x00000013#32, len := 4#32, fetchFault := false
      fetchPageFault := false, fetchFaultValue := 0#32 }
  else if x.stallAny then s.id
  else (s.issued x).getD
    { valid := false, pc := s.filled.pcI, instr := 0x00000013#32, len := 4#32, illegal := false
      illegalValue := 0#32, fetchFault := false, fetchPageFault := false
      fetchFaultValue := 0#32 }

def next (x : FrontIn) (s : Front) : Front := { fe := s.feNext x, id := s.idNext x }

end Front

namespace Core

/-- The frontend of the core. -/
def front (s : Core) : Front := { fe := s.fe, id := s.id }

/-- What the core tells its frontend. -/
def frontIn (i : CoreIn) (f : FetchIn) (s : Core) : FrontIn :=
  { redirect := s.exRedirect i, stallAny := s.stallAny i, fetch := f }

variable {i : CoreIn} {f : FetchIn} {s : Core}

theorem accepts_front : s.front.accepts (s.frontIn i f) = (s.fetchReq i && !f.stall) := rfl

theorem issued_front : s.front.issued (s.frontIn i f) =
    if !s.redirects i && !s.stallAny i && s.filled.canIssue then some s.filled.issue else none :=
  rfl

theorem queueNext_front : s.front.queueNext (s.frontIn i f) = s.ibufNext i := by
  unfold Front.queueNext ibufNext
  rw [issued_front, redirects]
  show (match s.exRedirect i with | some pc => _ | none => _) = _
  cases s.exRedirect i with
  | some pc => rfl
  | none =>
      show (if (if (!s.stallAny i && s.filled.canIssue) = true then _ else _ : Option _).isSome
        then _ else _) = _
      by_cases h : (!s.stallAny i && s.filled.canIssue) = true
      · rw [if_pos h, if_pos h]
        rfl
      · rw [if_neg h, if_neg h]
        rfl

theorem feNext_front : s.front.feNext (s.frontIn i f) = s.frontendNext i f := by
  unfold Front.feNext frontendNext
  rw [queueNext_front, accepts_front]
  show (match s.exRedirect i with | some pc => _ | none => _) = _
  cases s.exRedirect i with
  | some pc => rfl
  | none =>
      cases (s.fetchReq i && !f.stall) with
      | true => rfl
      | false => rfl

theorem idNext_front : s.front.idNext (s.frontIn i f) = s.idNext i := by
  unfold Front.idNext idNext
  rw [issued_front]
  show (if s.redirects i = true then _ else if s.stallAny i = true then _ else _) = _
  cases hr : s.redirects i with
  | true => rfl
  | false =>
      cases hs : s.stallAny i with
      | true => rfl
      | false =>
          cases hc : s.filled.canIssue with
          | true => rfl
          | false => rfl

/-- The core moves its frontend as this machine does. -/
theorem front_next : (s.next i f).front = s.front.next (s.frontIn i f) := by
  rw [Front.next, feNext_front, idNext_front]
  rfl

end Core

/-! ## Places and addresses -/

/-- `h` is the halfword `g` of memory; the bits of a failed fetch mean nothing. -/
structure Halfword.Shows (h g : Halfword) : Prop where
  fault : h.fault = g.fault
  pageFault : h.pageFault = g.pageFault
  bits : g.fault = false → h.bits = g.bits

namespace Ibuf

/-- The address of the first place: a halfword to be dropped stands before `pcI`. -/
def base (q : Ibuf) : Word := if q.dropHalfword then q.pcI - 2#32 else q.pcI

/-- The places of `q` hold the halfwords of memory up to the address `a`. -/
structure Tracks (m : FetchMem) (q : Ibuf) (a : Word) : Prop where
  even : IsEven q.pcI
  places : ∀ k, k < q.count → (q.halfword k).Shows (m.halfword (q.base + BitVec.ofNat 32 (2 * k)))
  stop : q.base + BitVec.ofNat 32 (2 * q.count) = a

variable {m : FetchMem} {q : Ibuf} {a : Word}

theorem Tracks.flush {pc : Word} (h : IsEven pc) : (Ibuf.flush pc).Tracks m (wordAddr pc) where
  even := h
  places := by
    intro k hk
    exact absurd hk (Nat.not_lt_zero k)
  stop := by
    have hadd := wordAddr_add h
    show (if pc.getLsbD 1 then pc - 2#32 else pc) + 0#32 = wordAddr pc
    rw [BitVec.add_zero]
    split
    · rename_i h1
      rw [if_pos h1] at hadd
      calc pc - 2#32 = wordAddr pc + 2#32 - 2#32 := by rw [hadd]
        _ = wordAddr pc := BitVec.add_sub_cancel _ _
    · rename_i h1
      rw [if_neg h1, BitVec.add_zero] at hadd
      exact hadd.symm

theorem Tracks.push {word : Word} {fault pageFault : Bool} (t : q.Tracks m a) (h : q.count ≤ 6)
    (hlow : (lowHalf word fault pageFault).Shows (m.halfword a))
    (hhigh : (highHalf word fault pageFault).Shows (m.halfword (a + 2#32))) :
    (q.push word fault pageFault).Tracks m (a + 4#32) where
  even := t.even
  places := by
    intro k hk
    rw [push_count h] at hk
    have hbase : (q.push word fault pageFault).base = q.base := rfl
    rw [push_halfword (by omega), hbase]
    by_cases h0 : k = q.count
    · rw [if_pos h0, h0, t.stop]
      exact hlow
    · rw [if_neg h0]
      by_cases h1 : k = q.count + 1
      · rw [if_pos h1, h1, Nat.mul_add, BitVec.ofNat_add, ← BitVec.add_assoc, t.stop]
        exact hhigh
      · rw [if_neg h1]
        exact t.places k (by omega)
  stop := by
    have hbase : (q.push word fault pageFault).base = q.base := rfl
    rw [push_count h, hbase, Nat.mul_add, BitVec.ofNat_add, ← BitVec.add_assoc, t.stop]

/-- Halfwords leave the front, and the first place moves behind them. -/
theorem Tracks.leave {r : Ibuf} {n : Nat} (t : q.Tracks m a) (hn : n ≤ q.count)
    (hcount : r.count = q.count - n) (hplace : ∀ k, r.halfword k = q.halfword (n + k))
    (hbase : r.base = q.base + BitVec.ofNat 32 (2 * n)) (heven : IsEven r.pcI) :
    r.Tracks m a where
  even := heven
  places := by
    intro k hk
    rw [hplace, hbase, BitVec.add_assoc, ← BitVec.ofNat_add, ← Nat.mul_add]
    exact t.places (n + k) (by omega)
  stop := by
    rw [hbase, BitVec.add_assoc, ← BitVec.ofNat_add, ← Nat.mul_add, hcount,
      Nat.add_sub_cancel' hn]
    exact t.stop

theorem Tracks.dropFirst (t : q.Tracks m a) : q.dropFirst.Tracks m a := by
  unfold Ibuf.dropFirst
  split
  · rename_i h
    rw [Bool.and_eq_true, count_pos] at h
    refine t.leave (n := 1) h.2 (shift_count h.2) (fun k => shift_halfword) ?_ t.even
    show q.pcI = q.base + 2#32
    rw [base, if_pos h.1]
    exact (BitVec.sub_add_cancel _ _).symm
  · exact t

/-- A queue that holds a halfword has nothing left to drop. -/
theorem dropFirst_dropped (h : 0 < q.dropFirst.count) : q.dropFirst.dropHalfword = false := by
  unfold Ibuf.dropFirst at *
  split
  · rfl
  · rename_i hd
    rw [if_neg hd] at h
    rw [Bool.and_eq_true, count_pos] at hd
    cases hq : q.dropHalfword with
    | true => exact absurd ⟨hq, h⟩ hd
    | false => rfl

theorem isRvc_eq (h : 0 < q.count) : q.isRvc = compressed (q.halfword 0).bits := by
  rw [isRvc, count_pos.mpr h, Bool.true_and]
  rfl

/-- What it takes to issue: one halfword, and a second one if the first asks for it. -/
theorem canIssue_iff : q.canIssue = true ↔
    0 < q.count ∧ (compressed (q.halfword 0).bits = false → 1 < q.count) := by
  rw [canIssue, Bool.and_eq_true, count_pos]
  refine and_congr_right fun h => ?_
  rw [isRvc_eq h]
  have hone : decide (1#4 < q.hwCount) = true ↔ 1 < q.count := by
    rw [decide_eq_true_eq, BitVec.lt_def]
    rfl
  rw [Bool.or_eq_true, hone]
  cases compressed (q.halfword 0).bits with
  | true => simp
  | false => simp

theorem base_of_dropped (hd : q.dropHalfword = false) : q.base = q.pcI := by
  rw [base, if_neg (by simp [hd])]

theorem Tracks.first (t : q.Tracks m a) (hd : q.dropHalfword = false) (h : 0 < q.count) :
    (q.halfword 0).Shows (m.halfword q.pcI) := by
  have hp := t.places 0 h
  rw [base_of_dropped hd] at hp
  simpa using hp

theorem Tracks.second (t : q.Tracks m a) (hd : q.dropHalfword = false) (h : 1 < q.count) :
    (q.halfword 1).Shows (m.halfword (q.pcI + 2#32)) := by
  have hp := t.places 1 h
  rw [base_of_dropped hd] at hp
  exact hp

theorem issue_compressed (hr : q.isRvc = true) : q.issue =
    { valid := true, pc := q.pcI, instr := (rvcExpand (q.halfword 0).bits).insn, len := 2#32
      illegal := (rvcExpand (q.halfword 0).bits).illegal
      illegalValue := (q.halfword 0).bits.setWidth 32
      fetchFault := (q.halfword 0).fault
      fetchPageFault := if (q.halfword 0).fault then (q.halfword 0).pageFault
        else (q.halfword 1).pageFault
      fetchFaultValue := if (q.halfword 0).fault then q.pcI else 0#32 } := by
  have hf : ∀ b : Bool, (b || (!true && q.fetchFault.getLsbD 1)) = b := fun b => Bool.or_false b
  unfold issue
  rw [hr, hf]
  rfl

theorem issue_wide (hr : q.isRvc = false) : q.issue =
    { valid := true, pc := q.pcI, instr := (q.halfword 1).bits ++ (q.halfword 0).bits
      len := 4#32, illegal := false
      illegalValue := (q.halfword 1).bits ++ (q.halfword 0).bits
      fetchFault := (q.halfword 0).fault || (q.halfword 1).fault
      fetchPageFault := if (q.halfword 0).fault then (q.halfword 0).pageFault
        else (q.halfword 1).pageFault
      fetchFaultValue := if (q.halfword 0).fault then q.pcI
        else if (q.halfword 1).fault then q.pcI + 2#32 else 0#32 } := by
  unfold issue
  rw [hr]
  rfl

/-- What leaves the queue is the instruction at `pcI`. -/
theorem Tracks.parses (t : q.Tracks m a) (hd : q.dropHalfword = false) (hc : q.canIssue = true) :
    m.Parses q.pcI q.issue := by
  obtain ⟨h0, h1⟩ := canIssue_iff.mp hc
  have hfirst := t.first hd h0
  have hrvc := isRvc_eq h0
  cases hcomp : compressed (q.halfword 0).bits with
  | true =>
      rw [issue_compressed (hrvc.trans hcomp), hfirst.fault]
      refine ⟨rfl, rfl, .inl rfl, fun h => ?_, ?_, fun h => ?_,
        fun (h : (m.halfword q.pcI).fault = false) => ?_⟩
      · rw [← hfirst.bits h, if_pos hcomp]
      · simp
      · rw [if_pos h, if_pos h, if_pos h, if_pos h]
        exact ⟨rfl, hfirst.pageFault⟩
      · rw [← hfirst.bits h, if_pos hcomp]
        exact ⟨if_neg (by simp [h]), rfl, rfl, rfl⟩
  | false =>
      have hsecond := t.second hd (h1 hcomp)
      have hwide : ¬ compressed (q.halfword 0).bits = true := by simp [hcomp]
      rw [issue_wide (hrvc.trans hcomp), hfirst.fault, hsecond.fault]
      refine ⟨rfl, rfl, .inr rfl, fun h => ?_, ?_,
        fun (h : ((m.halfword q.pcI).fault || (m.halfword (q.pcI + 2#32)).fault) = true) => ?_,
        fun (h : ((m.halfword q.pcI).fault || (m.halfword (q.pcI + 2#32)).fault) = false) => ?_⟩
      · rw [← hfirst.bits h, if_neg hwide]
      · simp
      · rw [hfirst.pageFault, hsecond.pageFault]
        cases h0 : (m.halfword q.pcI).fault with
        | true => exact ⟨rfl, rfl⟩
        | false =>
            rw [h0, Bool.false_or] at h
            exact ⟨if_pos h, rfl⟩
      · rw [Bool.or_eq_false_iff] at h
        rw [← hfirst.bits h.1, ← hsecond.bits h.2, if_neg hwide]
        exact ⟨by simp [h.1, h.2], rfl, rfl, rfl⟩

/-- An instruction that can be issued is in the queue. -/
theorem width_le_count (hc : q.canIssue = true) : (if q.isRvc then 1 else 2) ≤ q.count := by
  obtain ⟨h0, h1⟩ := canIssue_iff.mp hc
  rw [isRvc_eq h0]
  split
  · exact h0
  · rename_i h
    exact h1 (by simpa using h)

theorem pop_count_le (hc : q.canIssue = true) : q.pop.count ≤ q.count := by
  show (q.shift (if q.isRvc then 1 else 2)).count ≤ q.count
  rw [shift_count (width_le_count hc)]
  exact Nat.sub_le _ _

theorem Tracks.pop (t : q.Tracks m a) (hd : q.dropHalfword = false) (hc : q.canIssue = true) :
    q.pop.Tracks m a := by
  have hle := width_le_count hc
  have hpc : q.pop.pcI = q.pcI + BitVec.ofNat 32 (2 * (if q.isRvc then 1 else 2)) := by
    show q.pcI + (if q.isRvc then 2#32 else 4#32) = _
    cases q.isRvc with
    | true => rfl
    | false => rfl
  have hdrop : q.pop.dropHalfword = false := hd
  refine t.leave hle (shift_count hle) (fun k => shift_halfword) ?_ ?_
  · rw [base_of_dropped hd, base_of_dropped hdrop, hpc]
  · rw [hpc]
    refine t.even.add ?_
    cases q.isRvc with
    | true => exact isEven_two
    | false => exact isEven_four

end Ibuf

/-- The two halfwords of a fetched word. -/
theorem FetchMem.shows_word {m : FetchMem} {a word : Word} {fault pageFault : Bool}
    (ha : IsAligned a) (hf : fault = m.fault a) (hp : pageFault = m.pageFault a)
    (hw : m.fault a = false → word = m.word a) :
    (lowHalf word fault pageFault).Shows (m.halfword a) ∧
      (highHalf word fault pageFault).Shows (m.halfword (a + 2#32)) := by
  obtain ⟨hup, hbit⟩ := ha.wordAddr_upper
  have hlow : m.halfword a = lowHalf (m.word a) (m.fault a) (m.pageFault a) := by
    have hzero : ¬ a.getLsbD 1 = true := by
      rw [← ha, wordAddr_bit]
      simp
    unfold halfword
    rw [if_neg hzero, ha]
  have hhigh : m.halfword (a + 2#32) = highHalf (m.word a) (m.fault a) (m.pageFault a) := by
    unfold halfword
    rw [if_pos hbit, hup]
  rw [hlow, hhigh]
  exact ⟨⟨hf, hp, fun h => by rw [lowHalf, lowHalf, hw h]⟩,
    ⟨hf, hp, fun h => by rw [highHalf, highHalf, hw h]⟩⟩

namespace Front

/-! ## The invariant -/

/-- The address of the word in IF, or of the next one to be fetched. -/
def ifAddr (s : Front) : Word := if s.fe.ifValid then s.fe.pcF - 4#32 else s.fe.pcF

/-- The address of the word in F2, or of the one behind it. -/
def f2Addr (s : Front) : Word := if s.fe.f2Valid then s.ifAddr - 4#32 else s.ifAddr

/-- The queue, F2 and IF hold consecutive words of memory up to `pcF`, and fit the queue. -/
structure Tracks (m : FetchMem) (s : Front) : Prop where
  aligned : IsAligned s.fe.pcF
  room : s.inFlight ≤ 8
  queue : s.fe.q.Tracks m s.f2Addr
  f2 : s.fe.f2Valid = true →
    (lowHalf s.fe.f2Word s.fe.f2FetchFault s.fe.f2FetchPageFault).Shows (m.halfword s.f2Addr) ∧
    (highHalf s.fe.f2Word s.fe.f2FetchFault s.fe.f2FetchPageFault).Shows
      (m.halfword (s.f2Addr + 2#32))
  fetching : s.fe.ifValid = true →
    s.fe.ifFetchFault = m.fault s.ifAddr ∧ s.fe.ifFetchPageFault = m.pageFault s.ifAddr

/-- The word in IF arrives. -/
def Answered (m : FetchMem) (x : FrontIn) (s : Front) : Prop :=
  s.fe.ifValid = true → m.fault s.ifAddr = false → x.fetch.rdata = m.word s.ifAddr

variable {m : FetchMem} {x : FrontIn} {s : Front}

theorem Tracks.aligned_ifAddr (t : s.Tracks m) : IsAligned s.ifAddr := by
  have h := t.aligned
  unfold ifAddr
  split
  · rw [isAligned_iff] at *
    rw [BitVec.toNat_sub, BitVec.toNat_ofNat]
    omega
  · exact h

theorem Tracks.filled (t : s.Tracks m) : s.filled.Tracks m s.ifAddr := by
  unfold Front.filled
  refine Ibuf.Tracks.dropFirst ?_
  have hq := t.queue
  have hroom := t.room
  unfold inFlight at hroom
  cases hv : s.fe.f2Valid with
  | true =>
      rw [hv, if_pos rfl] at hroom
      have h4 : s.f2Addr + 4#32 = s.ifAddr := by
        rw [f2Addr, if_pos hv]
        exact BitVec.sub_add_cancel _ _
      rw [if_pos rfl, ← h4]
      exact hq.push (by omega) (t.f2 hv).1 (t.f2 hv).2
  | false =>
      rw [f2Addr, if_neg (by simp [hv])] at hq
      exact hq

theorem dropFirst_count_le (q : Ibuf) : q.dropFirst.count ≤ q.count := by
  unfold Ibuf.dropFirst
  split
  · rename_i h
    rw [Bool.and_eq_true, Ibuf.count_pos] at h
    show (q.shift 1).count ≤ q.count
    rw [Ibuf.shift_count h.2]
    exact Nat.sub_le _ _
  · exact Nat.le_refl _

theorem filled_count (hroom : s.inFlight ≤ 8) :
    s.filled.count ≤ s.fe.q.count + (if s.fe.f2Valid then 2 else 0) := by
  unfold inFlight at hroom
  refine Nat.le_trans (dropFirst_count_le _) ?_
  cases hv : s.fe.f2Valid with
  | true =>
      rw [hv, if_pos rfl] at hroom
      rw [if_pos rfl, if_pos rfl, Ibuf.push_count (by omega)]
  | false => exact Nat.le_refl _

/-- An instruction is issued from a queue with nothing to drop. -/
theorem filled_dropped (hc : s.filled.canIssue = true) :
    s.filled.dropHalfword = false :=
  Ibuf.dropFirst_dropped (Ibuf.canIssue_iff.mp hc).1

theorem issued_cases (hr : x.redirect = none) :
    (s.issued x = none ∧ s.queueNext x = s.filled) ∨
    (s.filled.canIssue = true ∧ s.issued x = some s.filled.issue ∧
      s.queueNext x = s.filled.pop) := by
  unfold queueNext
  rw [hr]
  unfold issued
  cases hc : !x.redirect.isSome && !x.stallAny && s.filled.canIssue with
  | true =>
      refine .inr ⟨?_, rfl, rfl⟩
      rw [Bool.and_eq_true] at hc
      exact hc.2
  | false => exact .inl ⟨rfl, rfl⟩

theorem accepts_room (h : s.accepts x = true) : s.inFlight ≤ 6 := by
  unfold accepts at h
  rw [Bool.and_eq_true, Bool.and_eq_true, decide_eq_true_eq] at h
  exact h.1.2

/-- Without a redirect the queue goes on to the end of F2. -/
theorem Tracks.queueNext (t : s.Tracks m) (hr : x.redirect = none) :
    (s.queueNext x).Tracks m s.ifAddr := by
  rcases issued_cases hr with ⟨-, hq⟩ | ⟨hc, -, hq⟩
  · rw [hq]
    exact t.filled
  · rw [hq]
    exact t.filled.pop (filled_dropped hc) hc

theorem queueNext_count (hr : x.redirect = none) : (s.queueNext x).count ≤ s.filled.count := by
  rcases issued_cases hr with ⟨-, hq⟩ | ⟨hc, -, hq⟩
  · rw [hq]
  · rw [hq]
    exact Ibuf.pop_count_le hc

theorem tracks_reset : reset.Tracks m where
  aligned := rfl
  room := by decide
  queue := Ibuf.Tracks.flush (show IsEven 0#32 from rfl)
  f2 := by
    intro h
    cases h
  fetching := by
    intro h
    cases h

theorem feNext_of_redirect {pc : Word} (hr : x.redirect = some pc) : (s.next x).fe =
    { pcF := wordAddr pc
      ifValid := false, ifFetchFault := false, ifFetchPageFault := false
      f2Word := 0#32, f2Valid := false, f2FetchFault := false, f2FetchPageFault := false
      q := Ibuf.flush pc } := by
  show s.feNext x = _
  unfold feNext Front.queueNext
  rw [hr]

theorem feNext_of_none (hr : x.redirect = none) : (s.next x).fe =
    { pcF := if s.accepts x then s.fe.pcF + 4#32 else s.fe.pcF
      ifValid := s.accepts x
      ifFetchFault := s.accepts x && x.fetch.fault
      ifFetchPageFault := s.accepts x && x.fetch.pageFault
      f2Word := if s.fe.ifValid then x.fetch.rdata else s.fe.f2Word
      f2Valid := s.fe.ifValid
      f2FetchFault := if s.fe.ifValid then s.fe.ifFetchFault else s.fe.f2FetchFault
      f2FetchPageFault := if s.fe.ifValid then s.fe.ifFetchPageFault else s.fe.f2FetchPageFault
      q := s.queueNext x } := by
  show s.feNext x = _
  unfold feNext
  rw [hr]

theorem ifAddr_next (hr : x.redirect = none) : (s.next x).ifAddr = s.fe.pcF := by
  unfold ifAddr
  rw [feNext_of_none hr]
  cases s.accepts x with
  | true => exact BitVec.add_sub_cancel _ _
  | false => rfl

/-- What is queued and in flight always fits the queue. -/
theorem room_next (hroom : s.inFlight ≤ 8) : (s.next x).inFlight ≤ 8 := by
  cases hr : x.redirect with
  | some pc =>
      unfold inFlight
      rw [feNext_of_redirect hr]
      exact Nat.zero_le 8
  | none =>
      have hfill := filled_count hroom
      have hcount := queueNext_count (s := s) hr
      unfold inFlight at *
      rw [feNext_of_none hr]
      show (s.queueNext x).count +
        ((if s.fe.ifValid then 2 else 0) + (if s.accepts x then 2 else 0)) ≤ 8
      cases hacc : s.accepts x with
      | true =>
          have hsix := accepts_room hacc
          unfold inFlight at hsix
          rw [if_pos rfl]
          omega
      | false =>
          simp only [Bool.false_eq_true, if_false]
          omega

theorem Tracks.next_of_redirect {pc : Word} (hr : x.redirect = some pc) (he : IsEven pc) :
    (s.next x).Tracks m := by
  have hfe := feNext_of_redirect (s := s) hr
  have hf2 : (s.next x).f2Addr = wordAddr pc := by
    unfold f2Addr ifAddr
    rw [hfe]
    rfl
  refine ⟨?_, ?_, ?_, ?_, ?_⟩
  · rw [hfe]
    exact isAligned_wordAddr pc
  · unfold inFlight
    rw [hfe]
    exact Nat.zero_le 8
  · rw [hf2, hfe]
    exact Ibuf.Tracks.flush he
  · intro h
    rw [hfe] at h
    cases h
  · intro h
    rw [hfe] at h
    cases h

/-- **Step.** A cycle keeps the queue and the stages before it on the words of memory. -/
theorem Tracks.next (t : s.Tracks m) (ha : s.Answered m x)
    (he : ∀ pc, x.redirect = some pc → IsEven pc)
    (hf : s.accepts x = true →
      x.fetch.fault = m.fault s.fe.pcF ∧ x.fetch.pageFault = m.pageFault s.fe.pcF) :
    (s.next x).Tracks m := by
  cases hr : x.redirect with
  | some pc => exact next_of_redirect hr (he pc hr)
  | none =>
      have hfe := feNext_of_none (s := s) hr
      have hif := ifAddr_next (s := s) hr
      have hf2 : (s.next x).f2Addr = s.ifAddr := by
        rw [f2Addr, hif, hfe]
        rfl
      have hq := t.queueNext hr
      refine ⟨?_, ?_, ?_, ?_, ?_⟩
      · rw [hfe]
        show IsAligned (if s.accepts x then s.fe.pcF + 4#32 else s.fe.pcF)
        split
        · exact t.aligned.add_four
        · exact t.aligned
      · exact room_next t.room
      · rw [hf2, hfe]
        exact hq
      · rw [hf2, hfe]
        intro hv
        have hv' : s.fe.ifValid = true := hv
        obtain ⟨h1, h2⟩ := t.fetching hv'
        simp only [hv', if_true]
        exact FetchMem.shows_word t.aligned_ifAddr h1 h2 (ha hv')
      · rw [hif, hfe]
        intro hv
        have hv' : s.accepts x = true := hv
        simp only [hv', Bool.true_and]
        exact hf hv'

end Front

/-! ## What has been issued since the last redirect -/

/-- The target of the last redirect and the instructions issued since, oldest first. -/
structure Parsing where
  target : Word
  issued : List IdStage

namespace Front

/-- A redirect begins a new parse; an issued instruction extends the one that runs. -/
def parsingNext (x : FrontIn) (s : Front) (p : Parsing) : Parsing :=
  match x.redirect with
  | some pc => { target := pc, issued := [] }
  | none => { p with issued := p.issued ++ (s.issued x).toList }

/-- The issued instructions parse memory, and the queue goes on behind them. -/
structure Follows (m : FetchMem) (s : Front) (p : Parsing) : Prop where
  parsed : m.ParsedFrom p.target p.issued
  here : behind p.target p.issued = s.fe.q.pcI

variable {m : FetchMem} {x : FrontIn} {s : Front} {p : Parsing}

theorem filled_pcI : s.filled.pcI = s.fe.q.pcI := by
  rw [filled, Core.dropFirst_pcI]
  split
  · rfl
  · rfl

/-- **Step.** What a cycle issues is the next instruction of memory. -/
theorem Follows.next (f : s.Follows m p) (t : s.Tracks m) :
    (s.next x).Follows m (s.parsingNext x p) := by
  cases hr : x.redirect with
  | some pc =>
      have hp : s.parsingNext x p = { target := pc, issued := [] } := by
        rw [parsingNext, hr]
      rw [hp]
      refine ⟨trivial, ?_⟩
      rw [feNext_of_redirect hr]
      rfl
  | none =>
      have hp : s.parsingNext x p = { p with issued := p.issued ++ (s.issued x).toList } := by
        rw [parsingNext, hr]
      rw [hp]
      have hpc : (s.next x).fe.q.pcI = (s.queueNext x).pcI := by rw [feNext_of_none hr]
      rcases issued_cases hr with ⟨hn, hq⟩ | ⟨hc, hs, hq⟩
      · rw [hn, Option.toList_none, List.append_nil]
        refine ⟨f.parsed, ?_⟩
        rw [hpc, hq, filled_pcI]
        exact f.here
      · rw [hs, Option.toList_some]
        have hx := t.filled.parses (filled_dropped hc) hc
        rw [filled_pcI, ← f.here] at hx
        refine ⟨f.parsed.append hx, ?_⟩
        rw [hpc, hq, behind_append, Core.pop_pcI, filled_pcI]
        exact congrArg (· + s.filled.issue.len) f.here

end Front

/-! ## Runs -/

/-- The frontend before cycle `n` of the run on `inp`. -/
def frontRun (inp : Nat → FrontIn) (n : Nat) : Front := Clocked.run Front.next inp Front.reset n

/-- The parse before cycle `n`; reset begins the first one at address 0. -/
def parsing (inp : Nat → FrontIn) (n : Nat) : Parsing :=
  Clocked.history Front.next Front.parsingNext inp Front.reset { target := 0#32, issued := [] } n

/-- The fetch interface answers a request that it accepts with the fault flags of its word, and
one cycle later with the word itself. -/
def Serves (m : FetchMem) (inp : Nat → FrontIn) : Prop :=
  ∀ n, (frontRun inp n).accepts (inp n) = true →
    let a := (frontRun inp n).fe.pcF
    (inp n).fetch.fault = m.fault a ∧ (inp n).fetch.pageFault = m.pageFault a ∧
      (m.fault a = false → (inp (n + 1)).fetch.rdata = m.word a)

theorem Serves.answered {m : FetchMem} {inp : Nat → FrontIn} (h : Serves m inp) (n : Nat) :
    (frontRun inp n).Answered m (inp n) := by
  intro hv
  cases n with
  | zero => cases hv
  | succ n =>
      have hstep : frontRun inp (n + 1) = (frontRun inp n).next (inp n) := rfl
      cases hr : (inp n).redirect with
      | some pc =>
          rw [hstep, Front.feNext_of_redirect hr] at hv
          cases hv
      | none =>
          have hacc : (frontRun inp n).accepts (inp n) = true := by
            rw [hstep, Front.feNext_of_none hr] at hv
            exact hv
          rw [hstep, Front.ifAddr_next hr]
          exact (h n hacc).2.2

theorem frontRun_follows {m : FetchMem} {inp : Nat → FrontIn} (h : Serves m inp)
    (he : ∀ n pc, (inp n).redirect = some pc → IsEven pc) (n : Nat) :
    (frontRun inp n).Tracks m ∧ (frontRun inp n).Follows m (parsing inp n) := by
  induction n with
  | zero => exact ⟨Front.tracks_reset, trivial, rfl⟩
  | succ n ih =>
      obtain ⟨t, f⟩ := ih
      have hp : parsing inp (n + 1) = (frontRun inp n).parsingNext (inp n) (parsing inp n) :=
        Clocked.history_succ n
      rw [hp]
      refine ⟨?_, f.next t⟩
      refine t.next (h.answered n) (he n) ?_
      intro hacc
      exact ⟨(h n hacc).1, (h n hacc).2.1⟩

/-- **The frontend parses memory.** Whatever the redirects, the stalls of the fetch interface and
those of the back end are, the instructions issued since a redirect are those that stand one
behind the other from its target on, and what is queued and in flight fits the queue. -/
theorem frontend_parses (m : FetchMem) (inp : Nat → FrontIn) (hserves : Serves m inp)
    (heven : ∀ n pc, (inp n).redirect = some pc → IsEven pc) (n : Nat) :
    m.ParsedFrom (parsing inp n).target (parsing inp n).issued ∧ (frontRun inp n).inFlight ≤ 8 := by
  obtain ⟨t, f⟩ := frontRun_follows hserves heven n
  exact ⟨f.parsed, t.room⟩

/-- A fetch interface that answers every request with a NOP, on a core that is sent to the middle
of a word in cycle 5 and stalls in every third cycle. -/
def nopFeed (n : Nat) : FrontIn :=
  { redirect := if n = 5 then some 0x80000002#32 else none
    stallAny := n % 3 == 0
    fetch := { rdata := 0x00000013#32, stall := false, fault := false, pageFault := false } }

theorem frontend_parses_nops :
    FetchMem.ParsedFrom ⟨fun _ => 0x00000013#32, fun _ => false, fun _ => false⟩
      (parsing nopFeed 12).target (parsing nopFeed 12).issued ∧
    (frontRun nopFeed 12).inFlight ≤ 8 := by
  refine frontend_parses ⟨fun _ => 0x00000013#32, fun _ => false, fun _ => false⟩ nopFeed
    (fun _ _ => ⟨rfl, rfl, fun _ => rfl⟩) ?_ 12
  intro n pc h
  simp only [nopFeed] at h
  split at h
  · obtain rfl := Option.some.inj h
    rfl
  · cases h

example : (parsing nopFeed 12).issued.length = 3 := by decide

/-! ## The frontend of the core -/

/-- What the core tells its frontend in every cycle of a run. -/
def coreFeed (inp : Nat → CoreIn × FetchIn) (n : Nat) : FrontIn :=
  (coreRun inp n).frontIn (inp n).1 (inp n).2

theorem coreRun_front (inp : Nat → CoreIn × FetchIn) (n : Nat) :
    (coreRun inp n).front = frontRun (coreFeed inp) n := by
  have hstep : ∀ (x : CoreIn × FetchIn) (s : Core),
      (coreNext x s).front = s.front.next (s.frontIn x.1 x.2) := fun _ _ => Core.front_next
  exact Clocked.run_project Core.front (fun x s => s.frontIn x.1 x.2) hstep inp Core.reset n

/-- Every redirect of the core goes to an even address. -/
theorem coreFeed_even (inp : Nat → CoreIn × FetchIn) (n : Nat) (pc : Word)
    (h : (coreFeed inp n).redirect = some pc) : IsEven pc := by
  obtain ⟨w, l, c, -⟩ := coreRun_booked inp n
  have hr : (coreRun inp n).exRedirect (inp n).1 = some pc := h
  rw [← l.pcNext_of_redirect w hr]
  exact c.even_pcNext l w

/-- What the core issues into ID parses memory, on every fetch interface that serves it. -/
theorem coreRun_parses {m : FetchMem} {inp : Nat → CoreIn × FetchIn}
    (hserves : Serves m (coreFeed inp)) (n : Nat) :
    let p := parsing (coreFeed inp) n
    m.ParsedFrom p.target p.issued ∧ (coreRun inp n).front.inFlight ≤ 8 := by
  obtain ⟨t, f⟩ := frontRun_follows hserves (coreFeed_even inp) n
  rw [coreRun_front]
  exact ⟨f.parsed, t.room⟩

end MelonSoc
