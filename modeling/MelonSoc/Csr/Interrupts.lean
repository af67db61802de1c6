import MelonSoc.Lib.Clocked
import MelonSoc.Rtl.PrivCsr

set_option autoImplicit false

/-! # The selection of interrupts

Which interrupt is taken, as the privileged architecture has it: one that is pending, enabled, and
let through by the mode it goes to; those for M-mode before those for S-mode, and of each the first
in the order of priority. The CSR file takes the same one.
-/

namespace MelonSoc

namespace PrivCsr

/-! ## The architecture -/

/-- MEI, MSI, MTI, SEI, SSI, STI. -/
def irqOrder : List Nat := [11, 3, 7, 9, 1, 5]

/-- Interrupt `k` is pending and enabled. -/
def irqReady (irqPending : Word) (s : PrivCsr) (k : Nat) : Bool :=
  (s.mipValue irqPending).getLsbD k && s.mie.getLsbD k

/-- Interrupt `k` is not delegated and M-mode lets it through. -/
def takesM (irqPending : Word) (s : PrivCsr) (k : Nat) : Bool :=
  s.irqReady irqPending k && !s.mideleg.getLsbD k &&
    (decide (s.currentPriv < privM) || s.mstatus.getLsbD 3)

/-- Interrupt `k` is delegated and S-mode lets it through. -/
def takesS (irqPending : Word) (s : PrivCsr) (k : Nat) : Bool :=
  s.irqReady irqPending k && s.mideleg.getLsbD k &&
    (s.currentPriv == privU || s.currentPriv == privS && s.mstatus.getLsbD 1)

/-- The mode that the selected interrupt goes to, S-mode for `true`, and its code. -/
def selected (irqPending : Word) (s : PrivCsr) : Option (Bool × Nat) :=
  match irqOrder.find? (s.takesM irqPending) with
  | some k => some (false, k)
  | none => (irqOrder.find? (s.takesS irqPending)).map fun k => (true, k)

/-- Where an interrupt goes. -/
def vectorOf (tvec : Word) (k : Nat) : Word :=
  if tvec.extractLsb' 0 2 = 0b01#2 then (tvec &&& 0xFFFFFFFC#32) + BitVec.ofNat 32 (4 * k)
  else tvec &&& 0xFFFFFFFC#32

/-- The trap is taken to `toS`, with this cause and value, and goes on at `pc`. -/
structure TakenTo (toS : Bool) (cause tval pc : Word) (i : PrivIn) (s : PrivCsr) : Prop where
  taken : s.trapTaken i = true
  redirect : s.redirectValid i = true ∧ s.redirectPc i = pc
  machine : toS = false → (s.next i).currentPriv = privM ∧ (s.next i).mcause = cause ∧
    (s.next i).mepc = clearBit0 i.exPc ∧ (s.next i).mtval = tval
  supervisor : toS = true → (s.next i).currentPriv = privS ∧ (s.next i).scause = cause ∧
    (s.next i).sepc = clearBit0 i.exPc ∧ (s.next i).stval = tval

/-- The delegation register has only the bits that it implements. -/
def Legal (s : PrivCsr) : Prop := s.mideleg &&& ~~~midelegMask = 0#32

/-! ## Reachable states -/

theorem csrUpdate_mideleg (addr : BitVec 12) (w : Word) (s s1 : PrivCsr) :
    (csrUpdate addr w s s1).mideleg = s1.mideleg ∨
      (csrUpdate addr w s s1).mideleg = w &&& midelegMask := by
  by_cases h : addr = 0x303#12
  · subst h
    exact .inr rfl
  · left
    have hne : (addr == 0x303#12) = false := beq_eq_false_iff_ne.mpr h
    simp only [csrUpdate, hne, apply_ite mideleg, ite_self, Bool.false_eq_true, if_false]

theorem legal_next (i : PrivIn) (s : PrivCsr) (h : s.Legal) : (s.next i).Legal := by
  have hdeleg : (s.next i).mideleg = s.mideleg ∨
      (s.next i).mideleg = i.csrWdata &&& midelegMask := by
    unfold next
    dsimp only
    split
    · left
      unfold enterTrap
      dsimp only
      split <;> rfl
    split
    · left
      split <;> rfl
    split
    · exact csrUpdate_mideleg i.csrAddr i.csrWdata s (s.tickCounters i.retire)
    · exact .inl rfl
  rcases hdeleg with heq | heq
  · rw [Legal, heq]
    exact h
  · rw [Legal, heq, BitVec.and_assoc]
    have hmask : midelegMask &&& ~~~midelegMask = 0#32 := by decide
    rw [hmask, BitVec.and_zero]

/-- Every reachable state is legal. -/
theorem legal_run (inp : Nat → PrivIn) (n : Nat) : (Clocked.run next inp reset n).Legal :=
  Clocked.run_always (P := Legal) (by unfold Legal; decide) legal_next n

/-! ## The candidates -/

section Candidates

variable {irqPending : Word} {s : PrivCsr} {k : Nat}

/-- What can be pending at all. -/
theorem mip_bits (h : (s.mipValue irqPending).getLsbD k = true) : k ∈ irqOrder := by
  have hmask : (0x00000888#32 : Word).getLsbD k = true ∨ midelegMask.getLsbD k = true := by
    rw [mipValue, BitVec.getLsbD_or, BitVec.getLsbD_and, BitVec.getLsbD_and, Bool.or_eq_true,
      Bool.and_eq_true, Bool.and_eq_true] at h
    exact h.imp And.right And.right
  have hlt : k < 32 := by
    rcases hmask with h | h <;> exact BitVec.lt_of_getLsbD h
  have hall : ∀ k : Fin 32, ((0x00000888#32 : Word).getLsbD k = true ∨
      midelegMask.getLsbD k = true) → k.val ∈ irqOrder := by decide
  exact hall ⟨k, hlt⟩ hmask

theorem pendingEnabled_bit : (s.pendingEnabled irqPending).getLsbD k = s.irqReady irqPending k := by
  rw [pendingEnabled, irqReady, BitVec.getLsbD_and, BitVec.getLsbD_and]
  cases hmip : (s.mipValue irqPending).getLsbD k with
  | false => simp
  | true =>
      have hmask : ∀ k ∈ irqOrder, irqMask.getLsbD k = true := by decide
      rw [hmask k (mip_bits hmip), Bool.and_true]

theorem mCandidates_bit :
    (s.mCandidates irqPending).getLsbD k
      = (s.irqReady irqPending k && !s.mideleg.getLsbD k) := by
  rw [mCandidates, BitVec.getLsbD_and, pendingEnabled_bit, BitVec.getLsbD_not]
  by_cases hlt : k < 32
  · simp [hlt]
  · have hno : s.irqReady irqPending k = false := by
      rw [irqReady, BitVec.getLsbD_of_ge _ _ (by omega)]
      rfl
    simp [hno]

theorem sCandidates_bit :
    (s.sCandidates irqPending).getLsbD k = (s.irqReady irqPending k && s.mideleg.getLsbD k) := by
  rw [sCandidates, BitVec.getLsbD_and, pendingEnabled_bit]

theorem mIrqEnabled_eq :
    s.mIrqEnabled = (decide (s.currentPriv < privM) || s.mstatus.getLsbD 3) := by
  have hmode : ∀ p : BitVec 2, (decide (p < privM) || p == privM) = true := by decide
  have h := hmode s.currentPriv
  unfold mIrqEnabled
  cases hlt : decide (s.currentPriv < privM) with
  | true => rfl
  | false =>
      rw [hlt, Bool.false_or] at h
      rw [h, Bool.true_and]

theorem sIrqEnabled_eq : (s.currentPriv != privM && s.sIrqEnabled)
    = (s.currentPriv == privU || s.currentPriv == privS && s.mstatus.getLsbD 1) := by
  have hmode : ∀ (p : BitVec 2) (b : Bool), (p != privM && (p == privU || (p == privS && b)))
      = (p == privU || p == privS && b) := by decide
  exact hmode s.currentPriv (s.mstatus.getLsbD 1)

/-- A word of which only the bits of the order can be set. -/
theorem ne_zero_of_order {w : Word} (h : ∀ k, w.getLsbD k = true → k ∈ irqOrder) :
    (w != 0#32) = irqOrder.any fun k => w.getLsbD k := by
  rw [Bool.eq_iff_iff, bne_iff_ne, List.any_eq_true]
  constructor
  · intro hne
    by_contra hno
    apply hne
    apply BitVec.eq_of_getLsbD_eq
    intro k _
    rw [BitVec.getLsbD_zero, ← Bool.not_eq_true]
    intro hk
    exact hno ⟨k, h k hk, hk⟩
  · rintro ⟨k, -, hk⟩ hzero
    rw [hzero, BitVec.getLsbD_zero] at hk
    cases hk

theorem irqReady_order (h : s.irqReady irqPending k = true) : k ∈ irqOrder := by
  rw [irqReady, Bool.and_eq_true] at h
  exact mip_bits h.1

theorem interruptToM_eq :
    s.interruptToM irqPending = irqOrder.any (s.takesM irqPending) := by
  have horder : ∀ k, (s.mCandidates irqPending).getLsbD k = true → k ∈ irqOrder := by
    intro k hk
    rw [mCandidates_bit, Bool.and_eq_true] at hk
    exact irqReady_order hk.1
  rw [interruptToM, mIrqEnabled_eq, ne_zero_of_order horder]
  have hbit : ∀ k, s.takesM irqPending k = ((s.mCandidates irqPending).getLsbD k &&
      (decide (s.currentPriv < privM) || s.mstatus.getLsbD 3)) := by
    intro k
    rw [mCandidates_bit, takesM]
  rw [funext hbit]
  cases (decide (s.currentPriv < privM) || s.mstatus.getLsbD 3) <;> simp

theorem interruptToS_eq :
    s.interruptToS irqPending
      = (!irqOrder.any (s.takesM irqPending) && irqOrder.any (s.takesS irqPending)) := by
  have horder : ∀ k, (s.sCandidates irqPending).getLsbD k = true → k ∈ irqOrder := by
    intro k hk
    rw [sCandidates_bit, Bool.and_eq_true] at hk
    exact irqReady_order hk.1
  rw [interruptToS, interruptToM_eq, sIrqEnabled_eq, ne_zero_of_order horder]
  have hbit : ∀ k, s.takesS irqPending k = ((s.sCandidates irqPending).getLsbD k &&
      (s.currentPriv == privU || s.currentPriv == privS && s.mstatus.getLsbD 1)) := by
    intro k
    rw [sCandidates_bit, takesS]
  rw [funext hbit]
  cases (s.currentPriv == privU || s.currentPriv == privS && s.mstatus.getLsbD 1) <;> simp

/-- A delegated interrupt of a legal state is one for S-mode. -/
theorem delegated_bits (h : s.Legal) (hk : s.mideleg.getLsbD k = true) : k = 9 ∨ k = 1 ∨ k = 5 := by
  have hmask : midelegMask.getLsbD k = true := by
    have hzero : (s.mideleg &&& ~~~midelegMask).getLsbD k = false := by
      rw [h, BitVec.getLsbD_zero]
    have hlt := BitVec.lt_of_getLsbD hk
    rw [BitVec.getLsbD_and, BitVec.getLsbD_not, hk] at hzero
    simpa [hlt] using hzero
  have hall : ∀ k : Fin 32, midelegMask.getLsbD k = true → k.val = 9 ∨ k.val = 1 ∨ k.val = 5 := by
    decide
  exact hall ⟨k, BitVec.lt_of_getLsbD hk⟩ hmask

end Candidates

/-! ## The selection -/

section Selection

variable {irqPending : Word} {s : PrivCsr}

theorem selected_none (h : s.selected irqPending = none) :
    s.interruptToM irqPending = false ∧ s.interruptToS irqPending = false := by
  unfold selected at h
  cases hm : irqOrder.find? (s.takesM irqPending) with
  | some k => simp [hm] at h
  | none =>
      rw [hm] at h
      have hs : irqOrder.find? (s.takesS irqPending) = none := by simpa using h
      rw [List.find?_eq_none] at hm hs
      have hnoM : irqOrder.any (s.takesM irqPending) = false := by
        rw [List.any_eq_false]
        exact hm
      have hnoS : irqOrder.any (s.takesS irqPending) = false := by
        rw [List.any_eq_false]
        exact hs
      rw [interruptToM_eq, interruptToS_eq, hnoM, hnoS]
      exact ⟨rfl, rfl⟩

/-- The interrupt for M-mode and its code. -/
theorem selected_machine {k : Nat} (h : irqOrder.find? (s.takesM irqPending) = some k) :
    s.interruptToM irqPending = true ∧ s.interruptCode irqPending = BitVec.ofNat 5 k := by
  have hm : s.interruptToM irqPending = true := by
    rw [interruptToM_eq, List.any_eq_true]
    exact ⟨k, List.mem_of_find?_eq_some h, List.find?_some h⟩
  refine ⟨hm, ?_⟩
  have hmode : (decide (s.currentPriv < privM) || s.mstatus.getLsbD 3) = true := by
    have hk := List.find?_some h
    rw [takesM, Bool.and_eq_true] at hk
    exact hk.2
  have hbit : ∀ k, s.takesM irqPending k = (s.mCandidates irqPending).getLsbD k := by
    intro k
    rw [mCandidates_bit, takesM, hmode, Bool.and_true]
  simp only [interruptCode, hm, if_true]
  simp only [irqOrder, List.find?_cons, List.find?_nil, hbit] at h
  cases h11 : (s.mCandidates irqPending).getLsbD 11 <;> simp only [h11] at h ⊢
  · cases h3 : (s.mCandidates irqPending).getLsbD 3 <;> simp only [h3] at h ⊢
    · cases h7 : (s.mCandidates irqPending).getLsbD 7 <;> simp only [h7] at h ⊢
      · cases h9 : (s.mCandidates irqPending).getLsbD 9 <;> simp only [h9] at h ⊢
        · cases h1 : (s.mCandidates irqPending).getLsbD 1 <;> simp only [h1] at h ⊢
          · cases h5 : (s.mCandidates irqPending).getLsbD 5 <;> simp only [h5] at h ⊢
            · cases h
            · cases h
              rfl
          · cases h
            rfl
        · cases h
          rfl
      · cases h
        rfl
    · cases h
      rfl
  · cases h
    rfl

/-- The interrupt for S-mode and its code. -/
theorem selected_supervisor {k : Nat} (hs : s.Legal)
    (hm : irqOrder.find? (s.takesM irqPending) = none)
    (h : irqOrder.find? (s.takesS irqPending) = some k) :
    s.interruptToM irqPending = false ∧ s.interruptToS irqPending = true ∧
      s.interruptCode irqPending = BitVec.ofNat 5 k := by
  have hnoM : irqOrder.any (s.takesM irqPending) = false := by
    rw [List.any_eq_false]
    rw [List.find?_eq_none] at hm
    exact hm
  have htoM : s.interruptToM irqPending = false := by
    rw [interruptToM_eq, hnoM]
  have htoS : s.interruptToS irqPending = true := by
    rw [interruptToS_eq, hnoM, Bool.not_false, Bool.true_and, List.any_eq_true]
    exact ⟨k, List.mem_of_find?_eq_some h, List.find?_some h⟩
  refine ⟨htoM, htoS, ?_⟩
  have hmode : (s.currentPriv == privU || s.currentPriv == privS && s.mstatus.getLsbD 1) = true := by
    have hk := List.find?_some h
    rw [takesS, Bool.and_eq_true] at hk
    exact hk.2
  have hbit : ∀ k, s.takesS irqPending k = (s.sCandidates irqPending).getLsbD k := by
    intro k
    rw [sCandidates_bit, takesS, hmode, Bool.and_true]
  -- only the last three of the order can be delegated
  have hnone : ∀ k, k ≠ 9 → k ≠ 1 → k ≠ 5 → (s.sCandidates irqPending).getLsbD k = false := by
    intro k h9 h1 h5
    by_contra hk
    rw [Bool.not_eq_false, sCandidates_bit, Bool.and_eq_true] at hk
    rcases delegated_bits hs hk.2 with h | h | h
    · exact h9 h
    · exact h1 h
    · exact h5 h
  simp only [interruptCode, htoM, htoS, Bool.false_eq_true, if_false, if_true]
  simp only [irqOrder, List.find?_cons, List.find?_nil, hbit,
    hnone 11 (by decide) (by decide) (by decide), hnone 3 (by decide) (by decide) (by decide),
    hnone 7 (by decide) (by decide) (by decide)] at h
  cases h9 : (s.sCandidates irqPending).getLsbD 9 <;> simp only [h9] at h ⊢
  · cases h1 : (s.sCandidates irqPending).getLsbD 1 <;> simp only [h1] at h ⊢
    · cases h5 : (s.sCandidates irqPending).getLsbD 5 <;> simp only [h5] at h ⊢
      · cases h
      · cases h
        rfl
    · cases h
      rfl
  · cases h
    rfl

theorem selected_some {toS : Bool} {k : Nat} (hs : s.Legal)
    (h : s.selected irqPending = some (toS, k)) :
    k ∈ irqOrder ∧ s.interruptValid irqPending = true ∧ s.interruptToS irqPending = toS ∧
      s.interruptCode irqPending = BitVec.ofNat 5 k := by
  unfold selected at h
  cases hm : irqOrder.find? (s.takesM irqPending) with
  | some j =>
      rw [hm] at h
      obtain ⟨rfl, rfl⟩ := Prod.mk.inj (Option.some.inj h)
      obtain ⟨htoM, hcode⟩ := selected_machine hm
      refine ⟨List.mem_of_find?_eq_some hm, ?_, ?_, hcode⟩
      · rw [interruptValid, htoM, Bool.true_or]
      · rw [interruptToS, htoM]
        rfl
  | none =>
      rw [hm] at h
      cases hsup : irqOrder.find? (s.takesS irqPending) with
      | none =>
          rw [hsup] at h
          cases h
      | some j =>
          rw [hsup] at h
          obtain ⟨rfl, rfl⟩ := Prod.mk.inj (Option.some.inj h)
          obtain ⟨-, htoS, hcode⟩ := selected_supervisor hs hm hsup
          refine ⟨List.mem_of_find?_eq_some hsup, ?_, htoS, hcode⟩
          rw [interruptValid, htoS, Bool.or_true]

/-- An interrupt is selected exactly when there is one that may be taken. -/
theorem selected_isSome :
    (s.selected irqPending).isSome = true ↔
      ∃ k, s.takesM irqPending k = true ∨ s.takesS irqPending k = true := by
  have horder : ∀ k, s.takesM irqPending k = true ∨ s.takesS irqPending k = true →
      k ∈ irqOrder := by
    rintro k (hk | hk)
    · rw [takesM, Bool.and_eq_true, Bool.and_eq_true] at hk
      exact irqReady_order hk.1.1
    · rw [takesS, Bool.and_eq_true, Bool.and_eq_true] at hk
      exact irqReady_order hk.1.1
  unfold selected
  constructor
  · intro h
    cases hm : irqOrder.find? (s.takesM irqPending) with
    | some k => exact ⟨k, .inl (List.find?_some hm)⟩
    | none =>
        rw [hm] at h
        cases hs : irqOrder.find? (s.takesS irqPending) with
        | some k => exact ⟨k, .inr (List.find?_some hs)⟩
        | none => simp [hs] at h
  · rintro ⟨k, hk⟩
    cases hm : irqOrder.find? (s.takesM irqPending) with
    | some k => rfl
    | none =>
        rw [List.find?_eq_none] at hm
        rcases hk with h | h
        · exact absurd h (hm k (horder k (.inl h)))
        · cases hs : irqOrder.find? (s.takesS irqPending) with
          | some k => rfl
          | none =>
              rw [List.find?_eq_none] at hs
              exact absurd h (hs k (horder k (.inr h)))

end Selection

/-! ## The trap -/

section Trap

variable {i : PrivIn} {s : PrivCsr}

/-- A trap that is taken, by the mode it goes to. -/
theorem next_trap (h : s.trapTaken i = true) : s.next i = (s.tickCounters i.retire).enterTrap i := by
  simp only [next, h, if_true]

theorem trapToS_tick (retire : Bool) : (s.tickCounters retire).trapToS i = s.trapToS i := rfl

theorem interruptCause_tick (retire : Bool) :
    (s.tickCounters retire).interruptCause i.irqPending = s.interruptCause i.irqPending := rfl

/-- The registers that a trap sets. -/
theorem taken_of_trap {toS : Bool} {cause tval pc : Word} (h : s.trapTaken i = true)
    (htoS : s.trapToS i = toS)
    (hcause : (if i.exceptionValid then i.exceptionCause else s.interruptCause i.irqPending)
      = cause)
    (htval : (if i.exceptionValid then i.exceptionTval else 0#32) = tval)
    (hpc : s.redirectPc i = pc) : TakenTo toS cause tval pc i s := by
  have hnext := next_trap h
  refine ⟨h, ⟨by rw [redirectValid, h, Bool.true_or], hpc⟩, fun hm => ?_, fun hs => ?_⟩
  · rw [hm] at htoS
    rw [hnext, enterTrap]
    simp only [trapToS_tick, interruptCause_tick, htoS, hcause, htval, Bool.false_eq_true, if_false]
    exact ⟨trivial, trivial, trivial, trivial⟩
  · rw [hs] at htoS
    rw [hnext, enterTrap]
    simp only [trapToS_tick, interruptCause_tick, htoS, hcause, htval, if_true]
    exact ⟨trivial, trivial, trivial, trivial⟩

/-- What the CSR file does with an instruction that fires. -/
structure Follows (i : PrivIn) (s : PrivCsr) : Prop where
  /-- Without an exception a trap is taken exactly for an interrupt that may be taken. -/
  taken : i.exceptionValid = false → (s.trapTaken i = true ↔
    ∃ k, s.takesM i.irqPending k = true ∨ s.takesS i.irqPending k = true)
  /-- It is the selected one. -/
  interrupt : i.exceptionValid = false → ∀ toS k, s.selected i.irqPending = some (toS, k) →
    TakenTo toS (0x80000000#32 ||| BitVec.ofNat 32 k) 0#32
      (vectorOf (if toS then s.stvec else s.mtvec) k) i s
  /-- An exception comes first, and has no vector of its own. -/
  exception : i.exceptionValid = true →
    TakenTo (s.currentPriv != privM && s.medeleg.getLsbD (i.exceptionCause.extractLsb' 0 5).toNat)
      i.exceptionCause i.exceptionTval
      ((if s.currentPriv != privM && s.medeleg.getLsbD (i.exceptionCause.extractLsb' 0 5).toNat
        then s.stvec else s.mtvec) &&& 0xFFFFFFFC#32) i s

theorem code_of_order {k : Nat} (h : k ∈ irqOrder) :
    0x80000000#32 ||| (BitVec.ofNat 5 k).setWidth 32 = 0x80000000#32 ||| BitVec.ofNat 32 k ∧
      (BitVec.ofNat 5 k).setWidth 32 <<< 2 = BitVec.ofNat 32 (4 * k) := by
  revert k
  decide

/-- **Interrupt selection.** In every reachable state, and in every state whose delegation register
is legal, the CSR file takes the interrupt that the architecture selects. -/
theorem interrupt_selection :
    (∀ (inp : Nat → PrivIn) (n : Nat), (Clocked.run next inp reset n).Legal) ∧
      ∀ (i : PrivIn) (s : PrivCsr), s.Legal → i.exFire = true → Follows i s := by
  refine ⟨legal_run, fun i s hs hfire => ⟨fun hno => ?_, fun hno toS k hsel => ?_, fun hex => ?_⟩⟩
  · have htaken : s.trapTaken i = s.interruptValid i.irqPending := by
      rw [trapTaken, hfire, hno, Bool.true_and, Bool.false_or]
    rw [htaken, ← selected_isSome]
    cases hsel : s.selected i.irqPending with
    | none =>
        obtain ⟨hm, hs⟩ := selected_none hsel
        simp [interruptValid, hm, hs]
    | some p =>
        obtain ⟨-, hvalid, -, -⟩ := selected_some hs hsel
        simp [hvalid]
  · obtain ⟨horder, hvalid, htoS, hcode⟩ := selected_some hs hsel
    obtain ⟨hcause, hoffset⟩ := code_of_order horder
    have htaken : s.trapTaken i = true := by
      rw [trapTaken, hfire, hno, hvalid]
      rfl
    have htrapToS : s.trapToS i = toS := by
      rw [trapToS, hno, ← htoS]
      rfl
    refine taken_of_trap htaken htrapToS ?_ (by rw [hno]; rfl) ?_
    · rw [hno, interruptCause, hcode, ← hcause]
      rfl
    · have hvector : s.trapVector i = if toS then s.stvec else s.mtvec := by
        rw [trapVector, htrapToS]
      rw [redirectPc, if_pos htaken, hvector, hno, hcode, hoffset, vectorOf]
      simp only [Bool.not_false, Bool.true_and, beq_iff_eq]
  · have htaken : s.trapTaken i = true := by
      rw [trapTaken, hfire, hex]
      rfl
    refine taken_of_trap htaken (by rw [trapToS, if_pos hex]) (if_pos hex) (if_pos hex) ?_
    rw [redirectPc, if_pos htaken, trapVector, trapToS, if_pos hex, hex]
    rfl

/-- U-mode with every interrupt enabled and the supervisor ones delegated and pending. -/
def userState : PrivCsr :=
  { reset with currentPriv := privU, mie := irqMask, mideleg := midelegMask
               supervisorPending := midelegMask, mtvec := 0x80000101#32 }

/-- An instruction that fires while the timer and the software interrupt of M-mode are pending. -/
def twoPending : PrivIn :=
  { irqPending := 0x00000088#32, exFire := true, exPc := 0x80000010#32, csrValid := false
    csrAddr := 0#12, csrWrite := false, csrWdata := 0#32, exceptionValid := false
    exceptionCause := 0#32, exceptionTval := 0#32, mret := false, sret := false
    sfenceVma := false, wfi := false, retire := false }

theorem interrupt_selection_two : Follows twoPending userState :=
  interrupt_selection.2 twoPending userState (by unfold Legal; decide) rfl

example : userState.selected twoPending.irqPending = some (false, 3) := by decide

end Trap

end PrivCsr

end MelonSoc
