import MelonSoc.Isa.Execution
import MelonSoc.Pipeline.Operands

set_option autoImplicit false

/-! # Multiplication and division

Products are there in the cycle in which EX has the operands. A division holds EX for 33 cycles, or
for one if it divides by zero, and what it leaves is the quotient or the remainder of its own
operands. Here the results are those of the instruction set, and the handshake between EX and the
divider is followed from the start of a division to the cycle in which it leaves EX.
-/

namespace MelonSoc

/-! ## Quotients and remainders -/

theorem toInt_eq_of_ofInt {x : Word} {z : Int} (h : x.toInt = z.bmod (2 ^ 32)) :
    x = BitVec.ofInt 32 z := by
  apply BitVec.eq_of_toInt_eq
  rw [h, BitVec.toInt_ofInt]

theorem quotRem_eq (op : Rv32.DivOp) (a b : Word) :
    quotRem (!op.funct3.getLsbD 0) (op.funct3.getLsbD 1) a b = op.value a b := by
  by_cases hb : b = 0#32
  · subst hb
    cases op <;> rfl
  · have hb' : (b == 0#32) = false := beq_eq_false_iff_ne.mpr hb
    cases op with
    | div =>
        have h : a.sdiv b = BitVec.ofInt 32 (a.toInt.tdiv b.toInt) :=
          toInt_eq_of_ofInt (BitVec.toInt_sdiv a b)
        simpa [quotRem, hb', Rv32.DivOp.funct3, Rv32.DivOp.value, hb] using h
    | divu =>
        have h : a / b = BitVec.ofNat 32 (a.toNat / b.toNat) := by
          apply BitVec.eq_of_toNat_eq
          have hlt : a.toNat / b.toNat < 2 ^ 32 := Nat.lt_of_le_of_lt (Nat.div_le_self _ _) a.isLt
          rw [BitVec.toNat_udiv, BitVec.toNat_ofNat, Nat.mod_eq_of_lt hlt]
        simpa [quotRem, hb', Rv32.DivOp.funct3, Rv32.DivOp.value, hb] using h
    | rem =>
        have h : a.srem b = BitVec.ofInt 32 (a.toInt.tmod b.toInt) := by
          rw [← BitVec.toInt_srem, BitVec.ofInt_toInt]
        simpa [quotRem, hb', Rv32.DivOp.funct3, Rv32.DivOp.value, hb] using h
    | remu =>
        have h : a % b = BitVec.ofNat 32 (a.toNat % b.toNat) := by
          apply BitVec.eq_of_toNat_eq
          have hlt : a.toNat % b.toNat < 2 ^ 32 := Nat.lt_of_le_of_lt (Nat.mod_le _ _) a.isLt
          rw [BitVec.toNat_umod, BitVec.toNat_ofNat, Nat.mod_eq_of_lt hlt]
        simpa [quotRem, hb', Rv32.DivOp.funct3, Rv32.DivOp.value, hb] using h

/-! ## The division in EX -/

/-- `e'` is the instruction `e`, with snapshots of its operands that may be others. -/
def SameInsn (e e' : IdEx) : Prop := ∃ a b, e' = { e with rs1Val := a, rs2Val := b }

theorem SameInsn.trans {e e' e'' : IdEx} (h : SameInsn e e') (h' : SameInsn e' e'') :
    SameInsn e e'' := by
  obtain ⟨a, b, rfl⟩ := h
  obtain ⟨c, d, rfl⟩ := h'
  exact ⟨c, d, rfl⟩

namespace Core

theorem sameInsn_held (s : Core) : SameInsn s.idEx s.held := ⟨_, _, rfl⟩

/-- There is nothing in EX/MEM that could stop EX. -/
structure MemQuiet (s : Core) : Prop where
  isLoad : s.exMem.isLoad = false
  isStore : s.exMem.isStore = false
  isAtomic : s.exMem.isAtomic = false

section Cycle

variable {i : CoreIn} {s : Core} {log : List Fired}

theorem MemQuiet.stallMem (q : s.MemQuiet) : s.stallMem i = false := by
  simp [Core.stallMem, memReq, q.isLoad, q.isStore]

theorem MemQuiet.stallAtomic (q : s.MemQuiet) (w : s.Wf) : s.stallAtomic = false := by
  by_contra h
  have ha := w.isAtomic_of_stallAtomic (Bool.not_eq_false _ ▸ h)
  rw [q.isAtomic] at ha
  cases ha

/-- A division asks for no translation. -/
theorem Wf.stallMmu_of_isDIV (w : s.Wf) (h : s.idEx.isDIV = true) : s.stallMmu i = false := by
  have hm := (w.flags.classes.of_div h).1
  rw [IdEx.isMem] at hm
  simp [stallMmu, dXlateReq, hm]

/-- A division that waits for the divider keeps MEM quiet. -/
theorem Linked.next_quiet (l : Linked s log) (w : s.Wf) (hst : s.stallDiv = true)
    (hmem : s.stallMem i = false) (hat : s.stallAtomic = false) (fi : FetchIn) :
    (s.next i fi).MemQuiet := by
  obtain ⟨-, hl, hs, ha⟩ := l.exMemOfEx_waiting (i := i) w hst
  have hat' : s.exMem.isAtomic ≠ true := by
    intro h
    rw [w.stallAtomic_iff.mpr h] at hat
    cases hat
  have hex : s.exMemNext i = s.exMemOfEx i := by
    cases w.step_cases i with
    | memWait mem =>
        rw [hmem] at mem
        cases mem
    | atomicWait isAtomic => exact absurd isAtomic hat'
    | atomicDone isAtomic => exact absurd isAtomic hat'
    | mmuWait _ _ _ _ mmu =>
        rw [w.stallMmu_of_isDIV (w.stallDiv_isDIV hst).2] at mmu
        cases mmu
    | divWait _ _ _ _ _ _ _ exMem => exact exMem
    | flow _ _ _ _ div =>
        rw [hst] at div
        cases div
  have hnext : (s.next i fi).exMem = s.exMemOfEx i := hex
  exact ⟨by rw [hnext, hl], by rw [hnext, hs], by rw [hnext, ha]⟩

/-- Nothing redirects the core while a division waits. -/
theorem Wf.flush_of_stallDiv (w : s.Wf) (hst : s.stallDiv = true) :
    (s.dividerIn i).flush = false := by
  by_contra hc
  have hfire := w.redirects_exFire (Bool.not_eq_false _ ▸ hc)
  rw [(exFire_iff.mp hfire).2.2.2.1] at hst
  cases hst

/-- A result and a running division exclude each other. -/
theorem Linked.busy_of_result (l : Linked s log) (h : s.div.resultValid = true) :
    s.div.busy = false := by
  by_contra hb
  obtain ⟨a, b, -, -, hc⟩ := l.division (.inr h)
  rw [(hc.running (Bool.not_eq_false _ ▸ hb)).1] at h
  cases h

/-- A division with its result leaves EX, unless something in MEM stops it. -/
theorem Linked.fire_of_result (l : Linked s log) (w : s.Wf) (q : s.MemQuiet)
    (h : s.div.resultValid = true) : s.exFire i = true := by
  obtain ⟨hv, hd⟩ := w.divResult h
  refine exFire_iff.mpr ⟨hv, q.stallMem, q.stallAtomic w, ?_, w.stallMmu_of_isDIV hd⟩
  simp [stallDiv, l.busy_of_result h, h]

end Cycle

end Core

/-! ## The divider, cycle by cycle -/

namespace Divider

variable {i : DividerIn} {s : Divider}

theorem next_start (hb : s.busy = false) (hv : s.resultValid = false) (hs : i.start = true)
    (hf : i.flush = false) :
    if i.divisor = 0#32 then (s.next i).busy = false ∧ (s.next i).resultValid = true
    else (s.next i).busy = true ∧ (s.next i).resultValid = false ∧
      (s.next i).quotientMsk = BitVec.twoPow 32 31 := by
  have hnext : s.next i = s.load i := by simp [next, hb, hv, hs, hf]
  rw [hnext, load]
  by_cases hz : i.divisor = 0#32
  · simp [hz]
  · rw [if_neg hz, if_neg (by simpa using hz)]
    exact ⟨rfl, hv, rfl⟩

theorem next_busy {j : Nat} (hb : s.busy = true) (hv : s.resultValid = false)
    (hf : i.flush = false) (hj : j < 32) (hm : s.quotientMsk = BitVec.twoPow 32 j) :
    if j = 0 then (s.next i).busy = false ∧ (s.next i).resultValid = true
    else (s.next i).busy = true ∧ (s.next i).resultValid = false ∧
      (s.next i).quotientMsk = BitVec.twoPow 32 (j - 1) := by
  have hnext : s.next i = iterate s s := by simp [next, hb, hv, hf]
  have hbit : s.quotientMsk.getLsbD 0 = decide (j = 0) := by
    rw [hm, BitVec.getLsbD_twoPow]
    simp [hj]
  rw [hnext, iterate, hbit]
  by_cases h0 : j = 0
  · simp [h0]
  · obtain ⟨k, rfl⟩ := Nat.exists_eq_succ_of_ne_zero h0
    rw [if_neg h0, if_neg (by simp)]
    refine ⟨hb, hv, ?_⟩
    show s.quotientMsk >>> 1 = _
    rw [hm]
    exact twoPow_shift hj

end Divider

/-! ## From start to result -/

section Run

variable (inp : Nat → CoreIn × FetchIn)

/-- In cycle `m` the instruction in EX starts the divider. -/
def starts (m : Nat) : Prop := ((coreRun inp m).dividerIn (inp m).1).start = true

/-- The number of cycles a division started in cycle `m` takes. -/
def divCycles (m : Nat) : Nat := if (coreRun inp m).exRs2 = 0#32 then 1 else 33

/-- The division that was started in cycle `m` is in EX in cycle `m + k`, with its result if `k` is
the number of cycles it takes. -/
structure Divides (m k : Nat) : Prop where
  insn : SameInsn (coreRun inp m).idEx (coreRun inp (m + k)).idEx
  quiet : (coreRun inp (m + k)).MemQuiet
  busy : k < divCycles inp m → (coreRun inp (m + k)).div.busy = true ∧
    (coreRun inp (m + k)).div.resultValid = false ∧
    (coreRun inp (m + k)).div.quotientMsk = BitVec.twoPow 32 (32 - k)
  result : k = divCycles inp m → (coreRun inp (m + k)).div.resultValid = true

variable {inp}

theorem stallDiv_of_starts {m : Nat} (h : starts inp m) :
    (coreRun inp m).stallDiv = true ∧ (coreRun inp m).div.busy = false ∧
      (coreRun inp m).div.resultValid = false ∧ (coreRun inp m).stallMem (inp m).1 = false ∧
      (coreRun inp m).stallAtomic = false := by
  simp only [starts, Core.dividerIn, Bool.and_eq_true, Bool.not_eq_true'] at h
  obtain ⟨⟨⟨⟨⟨hmem, hat⟩, hd⟩, hv⟩, hrv⟩, hb⟩ := h
  exact ⟨by simp [Core.stallDiv, hd, hv, hrv], hb, hrv, hmem, hat⟩

theorem divides_start {m : Nat} (h : starts inp m) : Divides inp m 1 := by
  obtain ⟨w, l⟩ := coreRun_linked inp m
  obtain ⟨hst, hb, hrv, hmem, hat⟩ := stallDiv_of_starts h
  have hdiv := Divider.next_start hb hrv h (w.flush_of_stallDiv (i := (inp m).1) hst)
  refine ⟨?_, l.next_quiet w hst hmem hat (inp m).2, ?_, ?_⟩
  · show SameInsn _ ((coreRun inp m).idExNext (inp m).1)
    rw [w.idExNext_of_stallDiv hst]
    exact Core.sameInsn_held _
  · intro hk
    by_cases hz : (coreRun inp m).exRs2 = 0#32
    · rw [divCycles, if_pos hz] at hk
      omega
    · have hdiv' := hdiv
      rw [if_neg (show ¬ ((coreRun inp m).dividerIn (inp m).1).divisor = 0#32 from hz)] at hdiv'
      exact hdiv'
  · intro hk
    by_cases hz : (coreRun inp m).exRs2 = 0#32
    · rw [if_pos (show ((coreRun inp m).dividerIn (inp m).1).divisor = 0#32 from hz)] at hdiv
      exact hdiv.2
    · rw [divCycles, if_neg hz] at hk
      omega

theorem Divides.step {m k : Nat} (h : Divides inp m k) (hk : 0 < k) (hlt : k < divCycles inp m) :
    Divides inp m (k + 1) := by
  obtain ⟨w, l⟩ := coreRun_linked inp (m + k)
  obtain ⟨hb, hrv, hm⟩ := h.busy hlt
  have hst : (coreRun inp (m + k)).stallDiv = true := by simp [Core.stallDiv, hb]
  have h33 : divCycles inp m = 33 := by
    rw [divCycles] at hlt ⊢
    split at hlt
    · omega
    · next hz => rw [if_neg hz]
  have hdiv := Divider.next_busy (j := 32 - k) hb hrv
    (w.flush_of_stallDiv (i := (inp (m + k)).1) hst) (by omega) hm
  refine ⟨?_, l.next_quiet w hst h.quiet.stallMem (h.quiet.stallAtomic w) _, ?_, ?_⟩
  · refine h.insn.trans ?_
    show SameInsn _ ((coreRun inp (m + k)).idExNext (inp (m + k)).1)
    rw [w.idExNext_of_stallDiv hst]
    exact Core.sameInsn_held _
  · intro hlt'
    rw [if_neg (by omega)] at hdiv
    exact hdiv
  · intro heq
    rw [if_pos (by omega)] at hdiv
    exact hdiv.2

/-- A division that has been started stays in EX until it has its result. -/
theorem divides_of_starts {m k : Nat} (h : starts inp m) (hk : 0 < k) (hle : k ≤ divCycles inp m) :
    Divides inp m k := by
  induction k with
  | zero => omega
  | succ k ih =>
      by_cases h0 : k = 0
      · subst h0
        exact divides_start h
      · exact (ih (by omega) (by omega)).step (by omega) (by omega)

/-- What the divider works on or presents was started. -/
theorem exists_start {n : Nat}
    (h : (coreRun inp n).div.busy = true ∨ (coreRun inp n).div.resultValid = true) :
    ∃ m k, n = m + k ∧ 0 < k ∧ k ≤ divCycles inp m ∧ starts inp m := by
  induction n with
  | zero => rcases h with h | h <;> cases h
  | succ n ih =>
      obtain ⟨w, l⟩ := coreRun_linked inp n
      obtain ⟨-, -, hst⟩ := w.next_division (i := (inp n).1) h
      by_cases hb : (coreRun inp n).div.busy = true
      · obtain ⟨m, k, rfl, hk, hle, hs⟩ := ih (.inl hb)
        have hne : k ≠ divCycles inp m := by
          intro heq
          have hr := (divides_of_starts hs hk hle).result heq
          rw [l.busy_of_result hr] at hb
          cases hb
        exact ⟨m, k + 1, rfl, by omega, by omega, hs⟩
      · refine ⟨n, 1, rfl, by omega, ?_, ?_⟩
        · rw [divCycles]
          split <;> omega
        · by_contra hns
          obtain ⟨hb', hr'⟩ := Divider.next_idle (i := (coreRun inp n).dividerIn (inp n).1)
            (Bool.not_eq_true _ ▸ hb) (Bool.not_eq_true _ ▸ hns)
          rcases h with h | h
          · exact absurd (hb'.symm.trans h) (by decide)
          · exact absurd (hr'.symm.trans h) (by decide)

/-! ## Exactness -/

/-- The value of the instruction in EX as it leaves EX is `op` of the values of its source registers
after exactly the older instructions. -/
def Computes (inp : Nat → CoreIn × FetchIn) (n : Nat) (op : Word → Word → Word) : Prop :=
  let s := coreRun inp n
  let log := s.answered (inp n).1 (executed inp n)
  ∃ a b, archReg log s.idEx.rs1 = some a ∧ archReg log s.idEx.rs2 = some b ∧
    s.exWbValue (inp n).1 = op a b

end Run

end MelonSoc
