import MelonSoc.Bus.Requests

set_option autoImplicit false

/-! # LR, SC and the AMOs

The atomic unit holds one instruction and works it off in bus phases. It is judged by a book
kept beside the run: the word under reservation, as the instructions that complete leave it,
and the transactions that the instruction in the unit has opened and had acknowledged. The
book never looks at the reservation registers of the unit.
-/

namespace MelonSoc

/-! ## What the instructions ask for -/

/-- The read of an atomic instruction. -/
def readWord (adr : Word) : Txn := { adr := adr, datW := 0#32, sel := 0b1111#4, we := false }

/-- The write of an atomic instruction. -/
def writeWord (adr v : Word) : Txn := { adr := adr, datW := v, sel := 0b1111#4, we := true }

/-- The value an AMO leaves in memory, by `funct5`; minima and maxima are those of the numbers
the words stand for. -/
def amoValue (funct5 : BitVec 5) (old rhs : Word) : Word :=
  if funct5 = 0b00000#5 then old + rhs
  else if funct5 = 0b00001#5 then rhs
  else if funct5 = 0b00100#5 then old ^^^ rhs
  else if funct5 = 0b01000#5 then old ||| rhs
  else if funct5 = 0b01100#5 then old &&& rhs
  else if funct5 = 0b10000#5 then (if old.toInt ≤ rhs.toInt then old else rhs)
  else if funct5 = 0b10100#5 then (if rhs.toInt ≤ old.toInt then old else rhs)
  else if funct5 = 0b11000#5 then (if old.toNat ≤ rhs.toNat then old else rhs)
  else (if rhs.toNat ≤ old.toNat then old else rhs)

theorem signed_min (a b : Word) :
    (if a.slt b then a else b) = if a.toInt ≤ b.toInt then a else b := by
  simp only [BitVec.slt_iff_toInt_lt]
  by_cases h : a.toInt = b.toInt
  · simp [BitVec.toInt_inj.mp h]
  · have hlt : a.toInt < b.toInt ↔ a.toInt ≤ b.toInt := by omega
    simp only [hlt]

theorem signed_max (a b : Word) :
    (if b.slt a then a else b) = if b.toInt ≤ a.toInt then a else b := by
  simp only [BitVec.slt_iff_toInt_lt]
  by_cases h : a.toInt = b.toInt
  · simp [BitVec.toInt_inj.mp h]
  · have hlt : b.toInt < a.toInt ↔ b.toInt ≤ a.toInt := by omega
    simp only [hlt]

theorem unsigned_min (a b : Word) :
    (if a < b then a else b) = if a.toNat ≤ b.toNat then a else b := by
  simp only [BitVec.lt_def]
  by_cases h : a.toNat = b.toNat
  · simp [BitVec.toNat_inj.mp h]
  · have hlt : a.toNat < b.toNat ↔ a.toNat ≤ b.toNat := by omega
    simp only [hlt]

theorem unsigned_max (a b : Word) :
    (if b < a then a else b) = if b.toNat ≤ a.toNat then a else b := by
  simp only [BitVec.lt_def]
  by_cases h : a.toNat = b.toNat
  · simp [BitVec.toNat_inj.mp h]
  · have hlt : b.toNat < a.toNat ↔ b.toNat ≤ a.toNat := by omega
    simp only [hlt]

/-- `amo_compute` on the operation that the decoder selects is the operation of `funct5`. -/
theorem amoCompute_amoOpOf {funct5 : BitVec 5} (h : amoFunctValid funct5 = true)
    (hlr : funct5 ≠ 0b00010#5) (hsc : funct5 ≠ 0b00011#5) (old rhs : Word) :
    amoCompute (amoOpOf funct5) old rhs = amoValue funct5 old rhs := by
  simp only [amoFunctValid, Bool.or_eq_true, beq_iff_eq] at h
  rcases h with (((((((((h | h) | h) | h) | h) | h) | h) | h) | h) | h) | h
  · subst h; rfl
  · subst h; rfl
  · exact absurd h hlr
  · exact absurd h hsc
  · subst h; rfl
  · subst h; rfl
  · subst h; rfl
  · subst h; exact signed_min old rhs
  · subst h; exact signed_max old rhs
  · subst h; exact unsigned_min old rhs
  · subst h; exact unsigned_max old rhs

/-- What the flags of an atomic in EX say about its `funct5`. -/
theorem IdEx.Decodes.funct5 {e : IdEx} (h : e.Decodes) (ha : e.isAtomic = true) :
    e.amoOp = amoOpOf (funct5Of e.instr) ∧ amoFunctValid (funct5Of e.instr) = true ∧
      (e.isLR = true ↔ funct5Of e.instr = 0b00010#5) ∧
      (e.isSC = true ↔ funct5Of e.instr = 0b00011#5) := by
  obtain ⟨v, ill, h⟩ := h
  have h1 : e.isAtomic = (decode v ill e.instr).gateAtomic.isAtomic := by rw [← h]
  have h2 : e.isLR = (decode v ill e.instr).gateAtomic.isLR := by rw [← h]
  have h3 : e.isSC = (decode v ill e.instr).gateAtomic.isSC := by rw [← h]
  have h4 : e.amoOp = (decode v ill e.instr).gateAtomic.amoOp := by rw [← h]
  rw [h1] at ha
  rw [h2, h3, h4]
  refine ⟨rfl, ?_⟩
  simp only [Decoded.gateAtomic, decode] at ha ⊢
  generalize funct5Of e.instr = f5 at ha ⊢
  generalize opcodeOf e.instr = op at ha ⊢
  simp only [Bool.and_eq_true, beq_iff_eq] at ha
  obtain ⟨⟨⟨hv, hop⟩, hf⟩, hlegal⟩ := ha
  subst hop
  simp [hv, hf] at hlegal ⊢
  obtain ⟨hill, hkind⟩ := hlegal
  rcases hkind with (⟨rfl, hrs⟩ | rfl) | ⟨⟨hvalid, hlr⟩, hsc⟩
  · simp [amoFunctValid, hill, hrs]
  · simp [amoFunctValid, hill]
  · simp [hvalid, hlr, hsc]

/-! ## The book -/

/-- The word that an LR has reserved, and the transactions of the instruction in the unit, newest
first: those it has strobed and those that were acknowledged. -/
structure AtomicBook where
  reserved : Option (BitVec 30)
  opened : List Txn
  acked : List Txn

def AtomicBook.reset : AtomicBook := { reserved := none, opened := [], acked := [] }

namespace Core

/-- A store completes: it leaves MEM. -/
def storeDone (i : CoreIn) (s : Core) : Bool :=
  s.memReq && s.exMem.isStore && !s.stallMem i

/-- The reservation after the cycle: an LR that completes makes one, every other atomic, a
store, a trap and a return end it. -/
def reservedNext (i : CoreIn) (s : Core) (r : Option (BitVec 30)) : Option (BitVec 30) :=
  if s.atomicComplete then (if s.exMem.isLR then some (wordOf s.exMem.addr) else none)
  else if s.storeDone i || s.privTrapTaken i || s.privReturnTaken i then none
  else r

/-- The book after the cycle. A strobe with nothing outstanding opens a transaction. -/
def bookNext (i : CoreIn) (s : Core) (b : AtomicBook) : AtomicBook :=
  { reserved := s.reservedNext i b.reserved
    opened :=
      if s.atomic.state == .idle then []
      else if s.dataReq.stb && b.opened.length == b.acked.length then s.dataReq.txn :: b.opened
      else b.opened
    acked :=
      if s.atomic.state == .idle then []
      else if s.dataReq.stb && i.ack then s.dataReq.txn :: b.acked
      else b.acked }

/-! ## The invariant -/

/-- The transactions the unit has behind it, by its state. -/
def txnsDone (s : Core) : List Txn :=
  let a := s.atomic
  match a.state with
  | .lrCapture => [readWord a.addr]
  | .amoCapture => [readWord a.addr]
  | .amoWrite => [readWord a.addr]
  | .complete =>
      if s.exMem.isLR then [readWord a.addr]
      else if s.exMem.isSC then (if a.result = 0#32 then [writeWord a.addr a.storeData] else [])
      else [writeWord a.addr (amoCompute a.op a.result a.storeData), readWord a.addr]
  | _ => []

/-- What the state of the unit says about its instruction and the reservation. -/
def Phase (s : Core) (r : Option (BitVec 30)) : Prop :=
  let a := s.atomic
  match a.state with
  | .idle =>
      (a.reservationValid = true → r = some a.reservationWordAddr) ∧
      -- a store in MEM may have ended the reservation before it completes
      (∀ w, r = some w → (a.reservationValid = true ∧ a.reservationWordAddr = w) ∨
        (s.memReq = true ∧ s.exMem.isStore = true))
  | .lrRead => s.exMem.isLR = true
  | .lrCapture => s.exMem.isLR = true
  | .scWrite => s.exMem.isLR = false ∧ s.exMem.isSC = true ∧ r = some (wordOf a.addr)
  | .amoRead => s.exMem.isLR = false ∧ s.exMem.isSC = false
  | .amoCapture => s.exMem.isLR = false ∧ s.exMem.isSC = false
  | .amoWrite => s.exMem.isLR = false ∧ s.exMem.isSC = false ∧
      a.newValue = amoCompute a.op a.result a.storeData ∧ a.reservationValid = false
  | .complete =>
      (s.exMem.isLR = true → a.reservationValid = true ∧ a.reservationWordAddr = wordOf a.addr) ∧
      (s.exMem.isLR = false → a.reservationValid = false) ∧
      (s.exMem.isLR = false → s.exMem.isSC = true →
        a.result = if r = some (wordOf a.addr) then 0#32 else 1#32)

/-- The book and the unit agree. -/
structure BookOk (s : Core) (b : AtomicBook) : Prop where
  phase : s.Phase b.reserved
  acked : s.atomic.state ≠ .idle → b.acked = s.txnsDone
  opened : s.atomic.state ≠ .idle → b.opened = b.acked ∨
    (s.atomic.started = true ∧ b.opened = s.dataReq.txn :: b.acked)

theorem bookOk_reset : Core.reset.BookOk AtomicBook.reset where
  phase := by
    constructor
    · intro h
      cases h
    · intro w h
      cases h
  acked := fun h => absurd rfl h
  opened := fun h => absurd rfl h

variable {i : CoreIn} {f : FetchIn} {s : Core} {b : AtomicBook}

/-- The instructions in EX do not fire while an atomic is in EX/MEM. -/
theorem Wf.reservation_kept (w : s.Wf) (h : s.exMem.isAtomic = true) :
    ((s.exMem.valid && s.exMem.isStore && i.ack) || s.privTrapTaken i ||
      s.privReturnTaken i) = false := by
  obtain ⟨hv, -, hs, -⟩ := w.atomicMem h
  have hfire : s.exFire i = false := by simp [exFire, stallAtomic, hv, h]
  have htrap : s.privTrapTaken i = false := by
    by_contra hc
    rw [privTrapTaken_exFire (by simpa using hc)] at hfire
    cases hfire
  have hret : s.privReturnTaken i = false := by
    by_contra hc
    have hr : s.privRedirectValid i = true := by
      simp only [Bool.not_eq_false] at hc
      simp only [privReturnTaken] at hc
      simp [privRedirectValid, PrivCsr.redirectValid, hc]
    rw [privRedirectValid_exFire hr] at hfire
    cases hfire
  simp [hs, htrap, hret]

/-- While an atomic is in EX/MEM no other event touches the reservation. -/
theorem Wf.reservedNext_atomic (w : s.Wf) (h : s.exMem.isAtomic = true)
    (hc : s.atomic.state ≠ .complete) (r : Option (BitVec 30)) : s.reservedNext i r = r := by
  have hclear := w.reservation_kept (i := i) h
  simp only [Bool.or_eq_false_iff] at hclear
  obtain ⟨-, -, hs, -⟩ := w.atomicMem h
  have hcomp : s.atomicComplete = false := by simpa [atomicComplete] using hc
  simp [reservedNext, hcomp, storeDone, hs, hclear]

/-- The store in MEM stays there until it completes. -/
theorem Wf.store_stays (w : s.Wf) (hm : s.memReq = true) (hs : s.exMem.isStore = true)
    (h : s.storeDone i = false) :
    (s.next i f).memReq = true ∧ (s.next i f).exMem.isStore = true := by
  have hstall : s.stallMem i = true := by simpa [storeDone, hm, hs] using h
  have hkeep : s.exMemNext i = s.exMem := by
    cases w.step_cases i with
    | memWait _ _ _ _ hk => exact hk
    | atomicWait _ h => rw [hm] at h; cases h
    | atomicDone _ h => rw [hm] at h; cases h
    | mmuWait h => rw [hstall] at h; cases h
    | divWait h => rw [hstall] at h; cases h
    | flow h => rw [hstall] at h; cases h
  rw [memReq, next_exMem, hkeep]
  exact ⟨hm, hs⟩

/-- The reservation registers of an idle unit without an atomic to take up. -/
theorem BookOk.idle_next (ok : s.BookOk b) (w : s.Wf) (hext : i.extWriteValid = false)
    (hat : s.exMem.isAtomic = false) : (s.next i f).BookOk (s.bookNext i b) := by
  have hidle := w.idle_of_noAtomic hat
  obtain ⟨hst, -⟩ := atomicNext_idle i s hidle hat
  have hst' : (s.next i f).atomic.state = .idle := hst
  refine ⟨?_, fun h => absurd hst' h, fun h => absurd hst' h⟩
  have hold := ok.phase
  simp only [Phase, hidle] at hold
  obtain ⟨hsound, hcomplete⟩ := hold
  have hcomp : s.atomicComplete = false := by simp [atomicComplete, hidle]
  have hvalid : (s.atomicNext i).reservationValid = (s.atomic.reservationValid &&
      !((s.exMem.valid && s.exMem.isStore && i.ack) || s.privTrapTaken i ||
        s.privReturnTaken i)) := by
    simp [atomicNext, hidle, hat, AtomicUnit.advance, hext]
  have hword : (s.atomicNext i).reservationWordAddr = s.atomic.reservationWordAddr := by
    simp [atomicNext, hidle, hat, AtomicUnit.advance]
  have hdone : s.storeDone i = true → (s.exMem.valid && s.exMem.isStore && i.ack) = true := by
    intro h
    simp only [storeDone, memReq, stallMem, Bool.and_eq_true, Bool.not_eq_true',
      Bool.and_eq_false_iff, Bool.or_eq_false_iff, Bool.not_eq_false'] at h
    grind
  simp only [Phase, next_atomic, hst, hvalid, hword, bookNext, reservedNext, hcomp]
  constructor
  · intro h
    simp only [Bool.and_eq_true, Bool.not_eq_true', Bool.or_eq_false_iff] at h
    obtain ⟨hv, ⟨hs, ht⟩, hr⟩ := h
    have hnd : s.storeDone i = false := by
      by_contra hc
      rw [hdone (by simpa using hc)] at hs
      cases hs
    simp [hnd, ht, hr, hsound hv]
  · intro wd h
    by_cases hend : (s.storeDone i || s.privTrapTaken i || s.privReturnTaken i) = true
    · simp [hend] at h
    · simp only [Bool.not_eq_true] at hend
      simp only [hend] at h
      simp only [Bool.or_eq_false_iff] at hend
      obtain ⟨⟨hnd, ht⟩, hr⟩ := hend
      rcases hcomplete wd (by simpa using h) with ⟨hv, hw⟩ | ⟨hm, hs⟩
      · by_cases hack : (s.exMem.valid && s.exMem.isStore && i.ack) = true
        · simp only [Bool.and_eq_true] at hack
          have hm : s.memReq = true := by simp [memReq, hack]
          exact .inr (w.store_stays hm hack.1.2 hnd)
        · left
          simp only [Bool.not_eq_true] at hack
          simp [hv, hw, hack, ht, hr]
      · exact .inr (w.store_stays hm hs hnd)

/-- The atomic in EX/MEM stays there until the unit has finished. -/
theorem Wf.atomic_stays (w : s.Wf) (hat : s.exMem.isAtomic = true)
    (hc : s.atomic.state ≠ .complete) : s.exMemNext i = s.exMem := by
  cases w.step_cases i with
  | atomicWait _ _ _ _ _ hm => exact hm
  | atomicDone _ _ hdone => exact absurd hdone hc
  | memWait hm =>
      have hreq := stallMem_memReq hm
      simp [memReq, (w.atomicMem hat).2.1, (w.atomicMem hat).2.2.1] at hreq
  | mmuWait _ _ hno => rw [hat] at hno; cases hno
  | divWait _ _ hno => rw [hat] at hno; cases hno
  | flow _ _ hno => rw [hat] at hno; cases hno

/-- The unit takes up the atomic in EX/MEM. -/
theorem BookOk.accept_next (ok : s.BookOk b) (w : s.Wf) (hext : i.extWriteValid = false)
    (hkind : s.exMem.isSC = true → s.exMem.isLR = false) (hat : s.exMem.isAtomic = true)
    (hidle : s.atomic.state = .idle) : (s.next i f).BookOk (s.bookNext i b) := by
  obtain ⟨hv, hl, hs, -⟩ := w.atomicMem hat
  have hclear := w.reservation_kept (i := i) hat
  have hmem : s.memReq = false := by simp [memReq, hl, hs]
  have hexMem := w.atomic_stays (i := i) hat (by rw [hidle]; decide)
  have hres : s.reservedNext i b.reserved = b.reserved :=
    w.reservedNext_atomic hat (by rw [hidle]; decide) b.reserved
  have hold := ok.phase
  simp only [Phase, hidle, hmem] at hold
  have hbook : s.bookNext i b = { reserved := b.reserved, opened := [], acked := [] } := by
    simp [bookNext, hres, hidle]
  rw [hbook]
  constructor
  · have hholds : s.atomic.holdsReservation s.exMem.addr = true ↔
        b.reserved = some (wordOf s.exMem.addr) := by
      simp only [AtomicUnit.holdsReservation, Bool.and_eq_true, beq_iff_eq]
      constructor
      · rintro ⟨h1, h2⟩
        rw [hold.1 h1, h2]
      · intro h
        rcases hold.2 _ h with h' | ⟨h', -⟩
        · exact h'
        · cases h'
    simp only [Phase, next_atomic, next_exMem, hexMem, atomicNext, hidle, hv, hat, hext,
      AtomicUnit.accept]
    cases hlr : s.exMem.isLR <;> cases hsc : s.exMem.isSC <;>
      cases hh : s.atomic.holdsReservation s.exMem.addr <;> simp_all
  · intro _
    simp only [txnsDone, next_atomic, next_exMem, hexMem, atomicNext, hidle, hv, hat,
      AtomicUnit.accept]
    cases hlr : s.exMem.isLR <;> cases hsc : s.exMem.isSC <;>
      cases hh : s.atomic.holdsReservation s.exMem.addr <;> simp_all
  · exact fun _ => .inl rfl

/-- The strobe of the atomic unit. -/
theorem Wf.stb_of_busy (w : s.Wf) (h : s.atomic.state ≠ .idle) :
    s.dataReq.stb = s.atomic.started := by
  have hb : (s.atomic.state != .idle) = true := by simpa using h
  cases hs : s.atomic.started with
  | false => simp [dataReq, hb, hs]
  | true => simp [dataReq, hb, hs, w.started hs]

/-- The unit works on its instruction. -/
theorem BookOk.work_next (ok : s.BookOk b) (w : s.Wf)
    (hbusy : s.atomic.state ≠ .idle) (hc : s.atomic.state ≠ .complete) :
    (s.next i f).BookOk (s.bookNext i b) := by
  have hat := (w.busy hbusy).1
  have hexMem := w.atomic_stays (i := i) hat hc
  have hres := w.reservedNext_atomic (i := i) hat hc b.reserved
  have hclear := w.reservation_kept (i := i) hat
  have hstb := w.stb_of_busy hbusy
  have hb : (s.atomic.state == .idle) = false := by simpa using hbusy
  have hacked := ok.acked hbusy
  constructor
  · have hold := ok.phase
    simp only [bookNext, hres]
    revert hold
    simp only [Phase, next_atomic, next_exMem, hexMem, atomicNext, hclear, AtomicUnit.advance,
      AtomicUnit.busPhase]
    cases hs : s.atomic.state <;> cases hst : s.atomic.started <;> cases hack : i.ack <;> simp_all
  · intro _
    simp only [bookNext, hb, hstb, hacked]
    have hold := ok.phase
    have hstrobe := w.started
    revert hold hstrobe
    simp only [Phase, txnsDone, atomicBus, next_atomic, next_exMem, hexMem, atomicNext, AtomicUnit.advance,
      AtomicUnit.busPhase, WbReq.txn, dataReq, readWord, writeWord]
    cases hs : s.atomic.state <;> cases hst : s.atomic.started <;> cases hack : i.ack <;> simp_all
  · intro _
    have hopen := ok.opened hbusy
    cases hst : s.atomic.started with
    | false =>
        left
        rw [hst] at hstb
        simp only [bookNext, hb, hstb]
        rcases hopen with h | ⟨h, -⟩
        · exact h
        · rw [hst] at h
          cases h
    | true =>
        rw [hst] at hstb
        have hone : (s.bookNext i b).opened = s.dataReq.txn :: b.acked := by
          rcases hopen with h | ⟨-, h⟩
          · simp [bookNext, hb, hstb, h]
          · simp [bookNext, hb, hstb, h]
        cases hack : i.ack with
        | true =>
            left
            rw [hone]
            simp [bookNext, hb, hstb, hack]
        | false =>
            right
            have hreq := w.dataReq_stable (f := f) hstb hack
            have hacked' : (s.bookNext i b).acked = b.acked := by
              simp [bookNext, hb, hstb, hack]
            have hst' : (s.next i f).atomic.started = true := by
              rw [next_atomic]
              have hbus := w.started hst
              revert hbus
              simp only [atomicBus, atomicNext, AtomicUnit.advance, AtomicUnit.busPhase]
              cases hs : s.atomic.state <;> simp_all
            rw [hone, hreq, hacked']
            exact ⟨hst', rfl⟩

/-- The unit has finished, and EX/MEM is emptied. -/
theorem BookOk.complete_next (ok : s.BookOk b) (w : s.Wf) (hext : i.extWriteValid = false)
    (hc : s.atomic.state = .complete) : (s.next i f).BookOk (s.bookNext i b) := by
  have hat := (w.busy (by rw [hc]; decide)).1
  have hclear := w.reservation_kept (i := i) hat
  have haddr := (w.taken (by rw [hc]; decide)).1
  obtain ⟨hst, -⟩ := atomicNext_complete i s hc
  have hst' : (s.next i f).atomic.state = .idle := hst
  refine ⟨?_, fun h => absurd hst' h, fun h => absurd hst' h⟩
  have hold := ok.phase
  simp only [Phase, hc] at hold
  obtain ⟨hlr, hno, -⟩ := hold
  have hvalid : (s.atomicNext i).reservationValid = s.atomic.reservationValid := by
    simp [atomicNext, hc, hclear, AtomicUnit.advance, hext]
  have hword : (s.atomicNext i).reservationWordAddr = s.atomic.reservationWordAddr := by
    simp [atomicNext, hc, AtomicUnit.advance]
  have hcomp : s.atomicComplete = true := by simp [atomicComplete, hc]
  simp only [Phase, next_atomic, hst, hvalid, hword, bookNext, reservedNext, hcomp, if_true]
  cases hk : s.exMem.isLR with
  | false => simp [hno hk]
  | true =>
      obtain ⟨hv, hw⟩ := hlr hk
      simp [hv, hw, haddr]

/-- An atomic in EX/MEM is not both an LR and an SC. -/
theorem Linked.lr_sc {log : List Fired} (l : s.Linked log) (w : s.Wf)
    (hat : s.exMem.isAtomic = true) (h : s.exMem.isSC = true) : s.exMem.isLR = false := by
  obtain ⟨e, older, -, hin, -⟩ := l.head (w.atomicMem hat).1 (by simp [hat])
  rw [hin.isSC] at h
  rw [hin.isLR]
  exact (hin.flags.classes.sc h).2

theorem BookOk.next {log : List Fired} (ok : s.BookOk b) (w : s.Wf) (l : s.Linked log)
    (hext : i.extWriteValid = false) : (s.next i f).BookOk (s.bookNext i b) := by
  by_cases hat : s.exMem.isAtomic = true
  · by_cases hidle : s.atomic.state = .idle
    · exact ok.accept_next w hext (l.lr_sc w hat) hat hidle
    · by_cases hc : s.atomic.state = .complete
      · exact ok.complete_next w hext hc
      · exact ok.work_next w hidle hc
  · exact ok.idle_next w hext (by simpa using hat)

/-! ## What an atomic instruction has done -/

/-- The atomic `f` when the unit reports completion, with the book of the cycle. -/
structure AtomicDone (s : Core) (b : AtomicBook) (f : Fired) : Prop where
  /-- Nothing is outstanding on the bus. -/
  closed : b.opened = b.acked
  lr : funct5Of f.insn.instr = 0b00010#5 → b.acked = [readWord f.paddr]
  /-- With the reservation an SC writes its word and returns 0, without it it never strobes and
  returns 1. -/
  sc : funct5Of f.insn.instr = 0b00011#5 →
    if b.reserved = some (wordOf f.paddr) then
      f.data = some 0#32 ∧ b.acked = [writeWord f.paddr f.rs2]
    else f.data = some 1#32 ∧ b.opened = []
  /-- An AMO reads its word once and then writes it once. -/
  amo : funct5Of f.insn.instr ≠ 0b00010#5 → funct5Of f.insn.instr ≠ 0b00011#5 →
    ∃ old, f.data = some old ∧
      b.acked = [writeWord f.paddr (amoValue (funct5Of f.insn.instr) old f.rs2), readWord f.paddr]
  /-- Only an LR leaves a reservation. -/
  ends : funct5Of f.insn.instr ≠ 0b00010#5 → s.atomic.reservationValid = false
  /-- The destination register receives the result, unless it is `x0`. -/
  rd : f.insn.rd ≠ 0#5 → some (s.regBankNext f.insn.rd) = f.data

/-- The operation in EX/MEM is that of the newest executed instruction. -/
def OpOk (s : Core) (log : List Fired) : Prop :=
  s.exMem.isAtomic = true → ∀ e, log.head? = some e → s.exMem.amoOp = e.insn.amoOp

variable {log : List Fired}

theorem answered_head {e : Fired} (h : (s.answered i log).head? = some e) :
    ∃ e', log.head? = some e' ∧ e.insn = e'.insn := by
  cases log with
  | nil => cases h
  | cons e' older =>
      refine ⟨e', rfl, ?_⟩
      simp only [answered] at h
      split at h <;> (cases h; rfl)

theorem OpOk.next (o : s.OpOk log) (w : s.Wf) : (s.next i f).OpOk (s.logNext i log) := by
  -- an atomic that stays in EX/MEM is still the newest of the list
  have hstay : s.exFire i = false → s.exMemNext i = s.exMem →
      (s.next i f).OpOk (s.logNext i log) := by
    intro hf hm ha e he
    rw [logNext_of_not_commits (commits_of_no_fire hf)] at he
    rw [next_exMem, hm] at ha ⊢
    obtain ⟨e', he', hsame⟩ := answered_head he
    rw [hsame]
    exact o ha e' he'
  have hnew : s.stallDiv = true ∨ s.exFire i = s.idEx.valid → s.exMemNext i = s.exMemOfEx i →
      (s.next i f).OpOk (s.logNext i log) := by
    intro hf hm ha e he
    rw [next_exMem, hm] at ha ⊢
    simp only [exMemOfEx, Bool.and_eq_true, Bool.not_eq_true'] at ha
    obtain ⟨⟨hv, hat⟩, ht⟩ := ha
    have hfire : s.exFire i = true := by
      rcases hf with hd | hf
      · have hno := (w.flags.classes.of_atomic hat).2.2.1
        rw [(w.stallDiv_isDIV hd).2] at hno
        cases hno
      · rw [hf, hv]
    rw [logNext_of_commits (by simp [commits, hfire, ht])] at he
    cases he
    rfl
  cases w.step_cases i with
  | memWait _ _ hf _ hm => exact hstay hf hm
  | atomicWait _ _ _ hf _ hm => exact hstay hf hm
  | atomicDone _ _ _ _ _ hm =>
      intro ha
      rw [next_exMem, hm] at ha
      cases ha
  | mmuWait _ _ hat _ _ _ hm =>
      intro ha
      rw [next_exMem, hm] at ha
      rw [hat] at ha
      cases ha
  | divWait _ _ _ _ hd _ _ hm => exact hnew (.inl hd) hm
  | flow _ _ _ hf _ _ _ hm => exact hnew (.inr hf) hm

/-- **Every atomic instruction does what it says.** -/
theorem BookOk.done (ok : s.BookOk b) (w : s.Wf) (l : s.Linked log) (o : s.OpOk log)
    (hc : s.atomicComplete = true) :
    ∃ e older, log = e :: older ∧ e.insn.isAtomic = true ∧ s.AtomicDone b e := by
  rw [atomicComplete_iff] at hc
  have hbusy : s.atomic.state ≠ .idle := by rw [hc]; decide
  have hat := (w.busy hbusy).1
  obtain ⟨haddr, hstore, hop⟩ := w.taken hbusy
  obtain ⟨e, older, hlog, hin, -, hdata⟩ := l.head (w.atomicMem hat).1 (by simp [hat])
  have hea : e.insn.isAtomic = true := by rw [← hin.isAtomic, hat]
  have hamo : s.exMem.amoOp = e.insn.amoOp := o hat e (by rw [hlog]; rfl)
  obtain ⟨hcode, hvalid, hlr, hsc⟩ := hin.flags.funct5 hea
  have hd : e.data = some s.atomic.result := by
    rw [hdata hea]
    simp [atomicData, hc]
  have hphase := ok.phase
  have hacked := ok.acked hbusy
  have hclosed : b.opened = b.acked := by
    rcases ok.opened hbusy with h | ⟨h, -⟩
    · exact h
    · have := w.started h
      simp [atomicBus, hc] at this
  simp only [Phase, hc] at hphase
  obtain ⟨-, hends, hres⟩ := hphase
  simp only [txnsDone, hc, haddr, hstore, hop, hamo, hcode, hin.addr, hin.isLR, hin.isSC] at hacked
  rw [hin.isLR] at hends
  rw [hin.isLR, hin.isSC, haddr, hin.addr] at hres
  refine ⟨e, older, hlog, hea, hclosed, fun h => ?_, fun h => ?_, fun h1 h2 => ?_, fun h => ?_,
    fun h => ?_⟩
  · rw [hacked, if_pos (hlr.mpr h)]
  · have hisSC := hsc.mpr h
    have hisLR := (hin.flags.classes.sc hisSC).2
    have hrs2 : s.exMem.rs2Value = e.rs2 := hin.rs2Value hat (by rw [hin.isLR, hisLR])
    have hr := hres hisLR hisSC
    rw [hacked, hclosed, hacked, hd, hrs2]
    split
    · next hheld =>
        rw [if_pos hheld] at hr
        simp [hr, hisLR]
    · next hfree =>
        rw [if_neg hfree] at hr
        simp [hr, hisLR]
  · have hisLR : e.insn.isLR = false := by
      by_contra hne
      exact h1 (hlr.mp (by simpa using hne))
    have hisSC : e.insn.isSC = false := by
      by_contra hne
      exact h2 (hsc.mp (by simpa using hne))
    have hrs2 : s.exMem.rs2Value = e.rs2 := hin.rs2Value hat (by rw [hin.isLR, hisLR])
    refine ⟨s.atomic.result, hd, ?_⟩
    rw [hacked, hrs2, amoCompute_amoOpOf hvalid h1 h2]
    simp [hisLR, hisSC]
  · apply hends
    by_contra hne
    exact h (hlr.mp (by simpa using hne))
  · rw [← hin.rd, ← (w.busy hbusy).2.1] at h ⊢
    rw [regBankNext_complete hc h, hd]

/-- `x0` is never written. -/
theorem regBankNext_zero : s.regBankNext 0#5 = s.regBank 0#5 := by
  have h1 : (if s.wbWe then Function.update s.regBank s.memWb.rd s.wbValue else s.regBank) 0#5
      = s.regBank 0#5 := by
    split
    · next h =>
        simp only [wbWe, Bool.and_eq_true, bne_iff_ne, ne_eq] at h
        exact Function.update_of_ne (Ne.symm h.1.2) _ _
    · rfl
  simp only [regBankNext]
  split
  · next h =>
      simp only [Bool.and_eq_true, bne_iff_ne, ne_eq] at h
      rw [Function.update_of_ne (Ne.symm h.2)]
      exact h1
  · exact h1

/-! ## Progress -/

/-- The steps the unit has ahead of it, waiting apart. -/
def atomicRank (s : Core) : Nat :=
  match s.atomic.state with
  | .idle => 6
  | .amoRead => if s.atomic.started then 4 else 5
  | .amoCapture => 3
  | .lrRead => if s.atomic.started then 2 else 3
  | .lrCapture => 1
  | .scWrite => if s.atomic.started then 1 else 2
  | .amoWrite => if s.atomic.started then 1 else 2
  | .complete => 0

/-- A finished atomic leaves EX/MEM. -/
theorem Wf.atomic_leaves (w : s.Wf) (hc : s.atomic.state = .complete) :
    (s.next i f).exMem.isAtomic = false := by
  rw [next_exMem]
  cases w.step_cases i with
  | atomicDone _ _ _ _ _ hm => rw [hm]
  | atomicWait _ _ hnd => exact absurd hc hnd
  | memWait _ hidle => rw [hc] at hidle; cases hidle
  | mmuWait _ hidle => rw [hc] at hidle; cases hidle
  | divWait _ hidle => rw [hc] at hidle; cases hidle
  | flow _ hidle => rw [hc] at hidle; cases hidle

theorem atomicRank_lt (h : s.atomic.state ≠ .idle) : s.atomicRank < 6 := by
  unfold atomicRank
  cases hs : s.atomic.state <;> cases hst : s.atomic.started <;> simp_all

/-- An atomic in EX/MEM goes on, unless it waits for its acknowledge. -/
theorem Wf.atomic_step (w : s.Wf) (hat : s.exMem.isAtomic = true)
    (hc : s.atomic.state ≠ .complete) :
    (s.next i f).exMem.isAtomic = true ∧
      ((s.next i f).atomicRank < s.atomicRank ∨
        ((s.next i f).atomicRank = s.atomicRank ∧ i.ack = false)) := by
  have hv := (w.atomicMem hat).1
  refine ⟨by rw [next_exMem, w.atomic_stays hat hc, hat], ?_⟩
  by_cases hidle : s.atomic.state = .idle
  · left
    have hbusy := (atomicNext_accept i s hidle hv hat).1
    rw [show s.atomicRank = 6 by simp [atomicRank, hidle]]
    exact atomicRank_lt hbusy
  · simp only [atomicRank, next_atomic, atomicNext, AtomicUnit.advance, AtomicUnit.busPhase]
    cases hs : s.atomic.state <;> cases hst : s.atomic.started <;> cases hack : i.ack <;>
      simp_all

end Core

/-! ## Runs -/

/-- The book of the atomic instructions along a run of the core. -/
def atomicBook (inp : Nat → CoreIn × FetchIn) (n : Nat) : AtomicBook :=
  Clocked.history coreNext (fun x s b => s.bookNext x.1 b) inp Core.reset AtomicBook.reset n

theorem coreRun_book (inp : Nat → CoreIn × FetchIn) {n : Nat}
    (hext : ∀ k, k < n → (inp k).1.extWriteValid = false) :
    (coreRun inp n).OpOk (executed inp n) ∧ (coreRun inp n).BookOk (atomicBook inp n) := by
  induction n with
  | zero =>
      refine ⟨fun h => ?_, Core.bookOk_reset⟩
      cases h
  | succ n ih =>
      obtain ⟨o, ok⟩ := ih (fun k hk => hext k (Nat.lt_succ_of_lt hk))
      obtain ⟨w, l⟩ := coreRun_linked inp n
      rw [executed, atomicBook, Clocked.history_succ, Clocked.history_succ]
      exact ⟨o.next w, ok.next w l (hext n (Nat.lt_succ_self n))⟩

/-- The atomic that completes in cycle `n` of a run, without writes from outside. -/
theorem atomic_done (inp : Nat → CoreIn × FetchIn) (n : Nat)
    (hext : ∀ k, k < n → (inp k).1.extWriteValid = false)
    (hc : (coreRun inp n).atomicComplete = true) :
    ∃ e older, executed inp n = e :: older ∧ e.insn.isAtomic = true ∧
      (coreRun inp n).AtomicDone (atomicBook inp n) e := by
  obtain ⟨w, l⟩ := coreRun_linked inp n
  obtain ⟨o, ok⟩ := coreRun_book inp hext
  exact ok.done w l o hc

theorem executed_length (inp : Nat → CoreIn × FetchIn) {n : Nat}
    (h : (coreRun inp n).commits (inp n).1 = false) :
    (executed inp (n + 1)).length = (executed inp n).length := by
  rw [executed, Clocked.history_succ]
  show ((coreRun inp n).logNext (inp n).1 (executed inp n)).length = _
  rw [Core.logNext_of_not_commits h]
  cases executed inp n <;> simp [Core.answered]

/-- If acknowledges keep coming, every atomic in EX/MEM completes. -/
theorem atomic_completes (inp : Nat → CoreIn × FetchIn)
    (fair : ∀ m, ∃ k, m ≤ k ∧ (inp k).1.ack = true) (n : Nat)
    (hat : (coreRun inp n).exMem.isAtomic = true) :
    ∃ k, n ≤ k ∧ (coreRun inp k).atomicComplete = true ∧
      (executed inp k).length = (executed inp n).length := by
  obtain ⟨k, hk, hall, hend⟩ := @Clocked.run_leaves _ _ _ coreNext inp Core.reset
    (fun s => s.exMem.isAtomic = true) (fun s => s.atomicRank) (fun _ => ())
    (fun _ x => x.1.ack = true) (fun _ => fair)
    (fun k h h' => by
      obtain ⟨w, -⟩ := coreRun_linked inp k
      have hc : (coreRun inp k).atomic.state ≠ .complete := by
        intro hc
        have hno : (coreRun inp (k + 1)).exMem.isAtomic = false := w.atomic_leaves hc
        exact Bool.false_ne_true (hno.symm.trans h')
      rcases (w.atomic_step (i := (inp k).1) (f := (inp k).2) h hc).2 with hr | ⟨hr, hack⟩
      · exact .inl hr
      · exact .inr ⟨hr, rfl, by simp [hack]⟩)
    n hat
  obtain ⟨w, -⟩ := coreRun_linked inp k
  have hc : (coreRun inp k).atomic.state = .complete := by
    by_contra hc
    exact hend (w.atomic_step (i := (inp k).1) (f := (inp k).2)
      (hall k hk (Nat.le_refl k)) hc).1
  -- nothing fires while the atomic is in EX/MEM
  have hlen : ∀ d, n + d ≤ k → (executed inp (n + d)).length = (executed inp n).length := by
    intro d
    induction d with
    | zero => exact fun _ => rfl
    | succ d ih =>
        intro hd
        obtain ⟨w', -⟩ := coreRun_linked inp (n + d)
        have hst := w'.stallAtomic_iff.mpr (hall (n + d) (by omega) (by omega))
        have hnc : (coreRun inp (n + d)).commits (inp (n + d)).1 = false :=
          Core.commits_of_no_fire (by simp [Core.exFire, hst])
        exact (executed_length inp hnc).trans (ih (by omega))
  obtain ⟨d, rfl⟩ := Nat.exists_eq_add_of_le hk
  exact ⟨n + d, hk, Core.atomicComplete_iff.mpr hc, hlen d (Nat.le_refl _)⟩

end MelonSoc
