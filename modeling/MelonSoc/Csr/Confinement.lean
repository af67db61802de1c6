import MelonSoc.Lib.Clocked
import MelonSoc.Rtl.PrivCsr

set_option autoImplicit false

/-! # Privilege confinement of CSR accesses

What a CSR instruction may change at each privilege: nothing in U-mode, and in S-mode the
supervisor CSRs with the bits of `mstatus`, `mie` and `mip` they give access to. The write of
`sip` does not look at `mideleg`, in contrast to the write of `sie` and the read of `sip`; the
writes that this lets through are `sipLeak`.
-/

namespace MelonSoc

namespace PrivCsr

/-! ## The property -/

/-- The instruction in EX is a CSR access that fires without a trap. -/
def accessesCsr (i : PrivIn) (s : PrivCsr) : Bool :=
  i.exFire && i.csrValid && !i.mret && !i.sret && !s.trapTaken i

/-- The CSRs that belong to M-mode alone, and the privilege. -/
structure SameMachine (s s' : PrivCsr) : Prop where
  currentPriv : s'.currentPriv = s.currentPriv
  medeleg : s'.medeleg = s.medeleg
  mideleg : s'.mideleg = s.mideleg
  mtvec : s'.mtvec = s.mtvec
  mcounteren : s'.mcounteren = s.mcounteren
  mscratch : s'.mscratch = s.mscratch
  mepc : s'.mepc = s.mepc
  mcause : s'.mcause = s.mcause
  mtval : s'.mtval = s.mtval

/-- `a` and `b` differ at most in the bits of `mask`. -/
def AgreeOff (mask a b : Word) : Prop := ∀ n, mask.getLsbD n = false → a.getLsbD n = b.getLsbD n

/-- A bit of `sie` that S-mode reads as zero, whatever the interrupt enables are. -/
def SieZero (s : PrivCsr) (n : Nat) : Prop :=
  ∀ irq m, (({ s with mie := m }).csrRdata irq 0x104#12).getLsbD n = false

/-- A bit of `sip` that S-mode reads as zero, whatever is pending. -/
def SipZero (s : PrivCsr) (n : Nat) : Prop :=
  ∀ irq p, (({ s with supervisorPending := p }).csrRdata irq 0x144#12).getLsbD n = false

/-- What a CSR access may change. -/
structure Confined (i : PrivIn) (s s' : PrivCsr) : Prop where
  user : s.currentPriv = privU →
    s' = { s with cycleCounter := s'.cycleCounter, instretCounter := s'.instretCounter }
  machine : s.currentPriv = privS → s.SameMachine s'
  mstatus : s.currentPriv = privS → AgreeOff sstatusMask s'.mstatus s.mstatus ∧
    (i.csrAddr ≠ 0x100#12 → s'.mstatus = s.mstatus)
  mie : s.currentPriv = privS → AgreeOff s.mideleg s'.mie s.mie ∧
    (i.csrAddr ≠ 0x104#12 → s'.mie = s.mie)
  mip : s.currentPriv = privS → ∀ irq, AgreeOff s.mideleg (s'.mipValue irq) (s.mipValue irq) ∧
    (i.csrAddr ≠ 0x144#12 → s'.mipValue irq = s.mipValue irq)
  sieZero : s.currentPriv = privS → ∀ n, s.SieZero n → s'.mie.getLsbD n = s.mie.getLsbD n
  sipZero : s.currentPriv = privS → ∀ n, s.SipZero n → ∀ irq,
    (s'.mipValue irq).getLsbD n = (s.mipValue irq).getLsbD n

/-- S-mode writes SSIP, which is not delegated, with another value than it has. -/
def sipLeak (i : PrivIn) (s : PrivCsr) : Bool :=
  s.currentPriv == privS && i.csrWrite && i.csrAddr == 0x144#12 && !s.mideleg.getLsbD 1 &&
    s.supervisorPending.getLsbD 1 != i.csrWdata.getLsbD 1

variable {i : PrivIn} {s : PrivCsr}

/-! ## Which CSR a write may reach -/

/-- The privilege in the address of a CSR bounds what its write touches: no CSR of U-mode can be
written, and one of S-mode is among the ten supervisor CSRs. -/
theorem csrUpdate_user {addr : BitVec 12} {w : Word} {s1 : PrivCsr}
    (h : addr.extractLsb' 8 2 = 0b00#2) : csrUpdate addr w s s1 = s1 := by
  have hne : ∀ c : BitVec 12, c.extractLsb' 8 2 ≠ 0b00#2 → (addr == c) = false := by
    intro c hc
    rw [beq_eq_false_iff_ne]
    rintro rfl
    exact hc h
  simp only [csrUpdate, hne 0x100#12 (by decide), hne 0x104#12 (by decide),
    hne 0x105#12 (by decide), hne 0x106#12 (by decide), hne 0x140#12 (by decide),
    hne 0x141#12 (by decide), hne 0x142#12 (by decide), hne 0x143#12 (by decide),
    hne 0x144#12 (by decide), hne 0x180#12 (by decide), hne 0x300#12 (by decide),
    hne 0x302#12 (by decide), hne 0x303#12 (by decide), hne 0x304#12 (by decide),
    hne 0x305#12 (by decide), hne 0x306#12 (by decide), hne 0x340#12 (by decide),
    hne 0x341#12 (by decide), hne 0x342#12 (by decide), hne 0x343#12 (by decide),
    hne 0x344#12 (by decide), hne 0xb00#12 (by decide), hne 0xb80#12 (by decide),
    hne 0xb02#12 (by decide), hne 0xb82#12 (by decide), Bool.false_eq_true, if_false]

/-- The write of a supervisor CSR, register by register. -/
def supervisorUpdate (addr : BitVec 12) (wdata : Word) (s s1 : PrivCsr) : PrivCsr :=
  { s1 with
    mstatus := if addr = 0x100#12 then (s.mstatus &&& ~~~sstatusMask) ||| (wdata &&& sstatusMask)
      else s1.mstatus
    mie := if addr = 0x104#12 then (s.mie &&& ~~~s.mideleg) ||| (wdata &&& s.mideleg &&& irqMask)
      else s1.mie
    stvec := if addr = 0x105#12 then warlTvec wdata else s1.stvec
    scounteren := if addr = 0x106#12 then wdata &&& 0x7#32 else s1.scounteren
    sscratch := if addr = 0x140#12 then wdata else s1.sscratch
    sepc := if addr = 0x141#12 then clearBit0 wdata else s1.sepc
    scause := if addr = 0x142#12 then wdata else s1.scause
    stval := if addr = 0x143#12 then wdata else s1.stval
    supervisorPending := if addr = 0x144#12 then
        (s.supervisorPending &&& ~~~sipWriteMask) ||| (wdata &&& sipWriteMask)
      else s1.supervisorPending
    satp := if addr = 0x180#12 then wdata else s1.satp }

theorem csrUpdate_supervisor {addr : BitVec 12} {w : Word} {s1 : PrivCsr}
    (h : addr.extractLsb' 8 2 = 0b01#2) : csrUpdate addr w s s1 = supervisorUpdate addr w s s1 := by
  by_cases h0 : addr = 0x100#12
  · subst h0; rfl
  by_cases h1 : addr = 0x104#12
  · subst h1; rfl
  by_cases h2 : addr = 0x105#12
  · subst h2; rfl
  by_cases h3 : addr = 0x106#12
  · subst h3; rfl
  by_cases h4 : addr = 0x140#12
  · subst h4; rfl
  by_cases h5 : addr = 0x141#12
  · subst h5; rfl
  by_cases h6 : addr = 0x142#12
  · subst h6; rfl
  by_cases h7 : addr = 0x143#12
  · subst h7; rfl
  by_cases h8 : addr = 0x144#12
  · subst h8; rfl
  by_cases h9 : addr = 0x180#12
  · subst h9; rfl
  have hne : ∀ c : BitVec 12, c.extractLsb' 8 2 ≠ 0b01#2 → addr ≠ c := by
    rintro c hc rfl
    exact hc h
  simp only [csrUpdate, supervisorUpdate, beq_iff_eq, h0, h1, h2, h3, h4, h5, h6, h7, h8, h9,
    hne 0x300#12 (by decide), hne 0x302#12 (by decide),
    hne 0x303#12 (by decide), hne 0x304#12 (by decide), hne 0x305#12 (by decide),
    hne 0x306#12 (by decide), hne 0x340#12 (by decide), hne 0x341#12 (by decide),
    hne 0x342#12 (by decide), hne 0x343#12 (by decide), hne 0x344#12 (by decide),
    hne 0xb00#12 (by decide), hne 0xb80#12 (by decide), hne 0xb02#12 (by decide),
    hne 0xb82#12 (by decide), if_false]

/-- The registers after a CSR access. -/
theorem next_of_access (h : s.accessesCsr i = true) :
    s.next i = if s.csrWriteTaken i then csrUpdate i.csrAddr i.csrWdata s (s.tickCounters i.retire)
      else s.tickCounters i.retire := by
  simp only [accessesCsr, Bool.and_eq_true, Bool.not_eq_true'] at h
  obtain ⟨⟨⟨-, hm⟩, hs⟩, ht⟩ := h
  have hr : s.returnTaken i = false := by simp [returnTaken, hm, hs]
  simp [next, ht, hr]

/-- A write is taken only with the privilege of its address. -/
theorem csrWriteTaken_priv (h : s.csrWriteTaken i = true) :
    i.csrAddr.extractLsb' 8 2 ≤ s.currentPriv := by
  simp only [csrWriteTaken, Bool.and_eq_true, Bool.not_eq_true'] at h
  obtain ⟨⟨⟨-, hv⟩, -⟩, hill⟩ := h
  simp only [csrIllegal, hv, Bool.true_and, Bool.or_eq_false_iff, decide_eq_false_iff_not] at hill
  exact BitVec.not_lt.mp hill.1.1.1.2

/-- A CSR access in U-mode changes nothing but the counters. -/
theorem next_user (h : s.accessesCsr i = true) (hu : s.currentPriv = privU) :
    s.next i = s.tickCounters i.retire := by
  rw [next_of_access h]
  split
  · rename_i hw
    have hp := csrWriteTaken_priv hw
    rw [hu] at hp
    apply csrUpdate_user
    exact BitVec.le_zero_iff.mp hp
  · rfl

/-- A CSR access in S-mode writes a supervisor CSR or nothing. -/
theorem next_supervisor (h : s.accessesCsr i = true) (hs : s.currentPriv = privS) :
    s.next i = s.tickCounters i.retire ∨
      (s.csrWriteTaken i = true ∧
        s.next i = supervisorUpdate i.csrAddr i.csrWdata s (s.tickCounters i.retire)) := by
  rw [next_of_access h]
  split
  · rename_i hw
    have hp := csrWriteTaken_priv hw
    rw [hs] at hp
    have hcases : i.csrAddr.extractLsb' 8 2 = 0b00#2 ∨ i.csrAddr.extractLsb' 8 2 = 0b01#2 := by
      generalize i.csrAddr.extractLsb' 8 2 = p at hp ⊢
      revert p
      decide
    rcases hcases with h0 | h1
    · exact .inl (csrUpdate_user h0)
    · exact .inr ⟨hw, csrUpdate_supervisor h1⟩
  · exact .inl rfl

/-! ## The property, register by register -/

/-- A CSR write never changes the privilege. -/
theorem csrUpdate_priv {addr : BitVec 12} {w : Word} {s1 : PrivCsr} :
    (csrUpdate addr w s s1).currentPriv = s1.currentPriv := by
  simp only [csrUpdate, apply_ite PrivCsr.currentPriv, ite_self]

/-- **The privilege is raised only by a trap.** MRET is legal in M-mode only, and SRET does not
lead above S-mode. -/
theorem priv_raised_by_trap (i : PrivIn) (s : PrivCsr)
    (h : s.currentPriv < (s.next i).currentPriv) : s.trapTaken i = true := by
  by_contra hno
  simp only [Bool.not_eq_true] at hno
  by_cases hret : s.returnTaken i = true
  · have hlegal : s.xretIllegal i.mret i.sret i.sfenceVma i.wfi = false ∧
        (i.mret || i.sret) = true := by
      simp only [returnTaken, Bool.and_eq_true, Bool.not_eq_true'] at hret
      exact ⟨hret.1.2, hret.2⟩
    obtain ⟨hill, hor⟩ := hlegal
    simp only [xretIllegal, Bool.or_eq_false_iff] at hill
    obtain ⟨⟨⟨hm, hs⟩, -⟩, -⟩ := hill
    cases hmret : i.mret with
    | true =>
        -- MRET: the privilege is M already
        have hpriv : s.currentPriv = privM := by simpa [hmret] using hm
        rw [hpriv] at h
        generalize (s.next i).currentPriv = p at h
        revert p
        decide
    | false =>
        have hsret : i.sret = true := by simpa [hmret] using hor
        have hnext : (s.next i).currentPriv = if s.mstatus.getLsbD 8 then privS else privU := by
          simp [next, hno, hret, hmret, sretUpdate, tickCounters]
        have hpriv : s.currentPriv ≠ privU := by
          intro hu
          simp [hsret, hu] at hs
        have htop : (s.next i).currentPriv ≤ privS := by
          rw [hnext]
          cases s.mstatus.getLsbD 8 <;> decide
        generalize (s.next i).currentPriv = p' at h htop
        generalize s.currentPriv = p at h hpriv
        clear hnext
        revert p p'
        decide
  · have hnext : (s.next i).currentPriv = s.currentPriv := by
      simp only [Bool.not_eq_true] at hret
      rw [next, hno, hret]
      by_cases hw : s.csrWriteTaken i = true
      · simp [hw, csrUpdate_priv, tickCounters]
      · simp [hw, tickCounters]
    rw [hnext] at h
    exact absurd h (BitVec.lt_irrefl _)

/-- A bit of `sie` that always reads as zero is not delegated. -/
theorem not_delegated_of_sieZero {n : Nat} (h : s.SieZero n) : s.mideleg.getLsbD n = false := by
  have hread := h 0#32 (BitVec.allOnes 32)
  have hrd : ({ s with mie := BitVec.allOnes 32 }).csrRdata 0#32 0x104#12
      = BitVec.allOnes 32 &&& s.mideleg := rfl
  rw [hrd] at hread
  by_contra hd
  simp only [Bool.not_eq_false] at hd
  have hlt := BitVec.lt_of_getLsbD hd
  rw [BitVec.getLsbD_and, hd, BitVec.getLsbD_allOnes, Bool.and_true] at hread
  simp [hlt] at hread

/-- A bit of `sip` that always reads as zero is not delegated, or is zero in `mip`. -/
theorem sipZero_cases {n : Nat} (h : s.SipZero n) :
    s.mideleg.getLsbD n = false ∨
      ∀ (irq : Word) (s' : PrivCsr), (s'.mipValue irq).getLsbD n = false := by
  by_cases hd : s.mideleg.getLsbD n = false
  · exact .inl hd
  · right
    intro irq s'
    have hread := h irq s'.supervisorPending
    have hrd : ({ s with supervisorPending := s'.supervisorPending }).csrRdata irq 0x144#12
        = s'.mipValue irq &&& s.mideleg := rfl
    rw [hrd, BitVec.getLsbD_and] at hread
    simpa [hd] using hread

theorem agreeOff_refl (mask a : Word) : AgreeOff mask a a := fun _ _ => rfl

/-- A write through a mask changes no bit outside it. -/
theorem agreeOff_masked (mask a b : Word) : AgreeOff mask ((a &&& ~~~mask) ||| (b &&& mask)) a := by
  intro n hn
  by_cases hlt : n < 32
  · simp only [BitVec.getLsbD_or, BitVec.getLsbD_and, BitVec.getLsbD_not, hn, hlt, decide_true,
      Bool.not_false, Bool.and_true, Bool.and_false, Bool.or_false]
  · have hge : 32 ≤ n := by omega
    rw [BitVec.getLsbD_of_ge _ _ hge, BitVec.getLsbD_of_ge _ _ hge]

/-- The write of `sip` reaches SSIP only. -/
theorem mip_after_sip (irq w : Word) (n : Nat) :
    (((irq &&& 0x00000888#32) |||
        (((s.supervisorPending &&& ~~~sipWriteMask) ||| (w &&& sipWriteMask)) &&&
          midelegMask))).getLsbD n
      = if n = 1 then w.getLsbD 1 else (s.mipValue irq).getLsbD n := by
  by_cases hn : n = 1
  · subst hn
    simp [sipWriteMask, midelegMask]
  · rw [if_neg hn, mipValue]
    by_cases hlt : n < 32
    · have hmask : ∀ k, k < 32 → k ≠ 1 → sipWriteMask.getLsbD k = false := by decide
      simp only [BitVec.getLsbD_or, BitVec.getLsbD_and, BitVec.getLsbD_not, hmask n hlt hn, hlt,
        decide_true, Bool.not_false, Bool.and_true, Bool.and_false, Bool.or_false]
    · have hge : 32 ≤ n := by omega
      rw [BitVec.getLsbD_of_ge _ _ hge, BitVec.getLsbD_of_ge _ _ hge]

theorem mip_bit_same (h : s.sipLeak i = false) (hs : s.currentPriv = privS)
    (hw : i.csrWrite = true) (ha : i.csrAddr = 0x144#12) (hd : s.mideleg.getLsbD 1 = false) :
    s.supervisorPending.getLsbD 1 = i.csrWdata.getLsbD 1 := by
  rw [sipLeak, hs, hw, ha, hd] at h
  simpa using h

/-- SSIP in `mip`. -/
theorem mip_ssip (irq : Word) (s : PrivCsr) :
    (s.mipValue irq).getLsbD 1 = s.supervisorPending.getLsbD 1 := by
  simp [mipValue, midelegMask]

/-- The bits of `mip` after a CSR access of S-mode. -/
theorem mip_after (h : s.accessesCsr i = true) (hs : s.currentPriv = privS) (irq : Word)
    (n : Nat) : ((s.next i).mipValue irq).getLsbD n
      = if s.csrWriteTaken i = true ∧ i.csrAddr = 0x144#12 ∧ n = 1 then i.csrWdata.getLsbD 1
        else (s.mipValue irq).getLsbD n := by
  rcases next_supervisor h hs with hn | ⟨hw, hn⟩
  · by_cases hw : s.csrWriteTaken i = true ∧ i.csrAddr = 0x144#12 ∧ n = 1
    · -- a taken write of `sip` is never lost
      obtain ⟨hw, ha, hbit⟩ := hw
      have hn' := next_of_access h
      rw [if_pos hw, ha] at hn'
      have hp : (s.next i).mipValue irq = ((irq &&& 0x00000888#32) |||
          (((s.supervisorPending &&& ~~~sipWriteMask) ||| (i.csrWdata &&& sipWriteMask)) &&&
            midelegMask)) := by
        rw [hn']
        rfl
      rw [hp, mip_after_sip, hbit]
      simp [hw, ha]
    · rw [if_neg hw, hn]
      rfl
  · by_cases ha : i.csrAddr = 0x144#12
    · have hp : (s.next i).mipValue irq = ((irq &&& 0x00000888#32) |||
          (((s.supervisorPending &&& ~~~sipWriteMask) ||| (i.csrWdata &&& sipWriteMask)) &&&
            midelegMask)) := by
        rw [hn, ha]
        rfl
      rw [hp, mip_after_sip]
      by_cases hbit : n = 1 <;> simp [hw, ha, hbit]
    · have hp : (s.next i).mipValue irq = s.mipValue irq := by
        rw [hn]
        simp [mipValue, supervisorUpdate, ha, tickCounters]
      rw [hp, if_neg (fun hc => ha hc.2.1)]

/-- Nothing forbids an S-mode write of `sip`. -/
theorem sip_write_taken (h : s.accessesCsr i = true) (hs : s.currentPriv = privS)
    (ha : i.csrAddr = 0x144#12) : s.csrWriteTaken i = i.csrWrite := by
  have hleg : s.csrIllegal i.irqPending i.csrValid i.csrWrite i.csrAddr = false := by
    rw [ha]
    simp [csrIllegal, csrImplemented, csrRead, counterAllowed, hs, privS]
  simp only [accessesCsr, Bool.and_eq_true, Bool.not_eq_true'] at h
  obtain ⟨⟨⟨⟨hf, hv⟩, hm⟩, hsr⟩, ht⟩ := h
  have hr : s.returnTaken i = false := by simp [returnTaken, hm, hsr]
  rw [csrWriteTaken, ht, hr, hf, hleg, hv]
  simp

/-- Without a leak the delegated bits of `mip` are all that S-mode changes. -/
theorem mip_agrees (h : s.accessesCsr i = true) (hs : s.currentPriv = privS)
    (hl : s.sipLeak i = false) (irq : Word) :
    AgreeOff s.mideleg ((s.next i).mipValue irq) (s.mipValue irq) := by
  intro n hn
  rw [mip_after h hs]
  split
  · rename_i hw
    obtain ⟨hw, ha, rfl⟩ := hw
    rw [sip_write_taken h hs ha] at hw
    rw [mip_ssip, mip_bit_same hl hs hw ha hn]
  · rfl

/-- What holds with or without a leak. -/
theorem confined_of_mip (h : s.accessesCsr i = true)
    (hmip : s.currentPriv = privS → ∀ irq,
      AgreeOff s.mideleg ((s.next i).mipValue irq) (s.mipValue irq)) :
    s.Confined i (s.next i) where
  user := by
    intro hu
    rw [next_user h hu]
    rfl
  machine := by
    intro hs
    rcases next_supervisor h hs with hn | ⟨-, hn⟩ <;> rw [hn] <;> constructor <;> rfl
  mstatus := by
    intro hs
    rcases next_supervisor h hs with hn | ⟨-, hn⟩
    · rw [hn]
      exact ⟨agreeOff_refl _ _, fun _ => rfl⟩
    · rw [hn]
      by_cases ha : i.csrAddr = 0x100#12
      · refine ⟨?_, fun hc => absurd ha hc⟩
        simp only [supervisorUpdate, ha, if_true]
        exact agreeOff_masked _ _ _
      · simp only [supervisorUpdate, ha, if_false]
        exact ⟨agreeOff_refl _ _, fun _ => rfl⟩
  mie := by
    intro hs
    rcases next_supervisor h hs with hn | ⟨-, hn⟩
    · rw [hn]
      exact ⟨agreeOff_refl _ _, fun _ => rfl⟩
    · rw [hn]
      by_cases ha : i.csrAddr = 0x104#12
      · refine ⟨?_, fun hc => absurd ha hc⟩
        simp only [supervisorUpdate, ha, if_true]
        intro n hd
        simp only [BitVec.getLsbD_or, BitVec.getLsbD_and, BitVec.getLsbD_not, hd]
        by_cases hlt : n < 32
        · simp [hlt]
        · rw [BitVec.getLsbD_of_ge _ _ (by omega)]
          simp
      · simp only [supervisorUpdate, ha, if_false]
        exact ⟨agreeOff_refl _ _, fun _ => rfl⟩
  mip := by
    intro hs irq
    refine ⟨hmip hs irq, fun ha => ?_⟩
    apply BitVec.eq_of_getLsbD_eq
    intro n _
    rw [mip_after h hs, if_neg (fun hc => ha hc.2.1)]
  sieZero := by
    intro hs n hz
    have hd := not_delegated_of_sieZero hz
    rcases next_supervisor h hs with hn | ⟨-, hn⟩
    · rw [hn]
      rfl
    · rw [hn]
      by_cases ha : i.csrAddr = 0x104#12
      · simp only [supervisorUpdate, ha, if_true, BitVec.getLsbD_or, BitVec.getLsbD_and,
          BitVec.getLsbD_not, hd]
        by_cases hlt : n < 32
        · simp [hlt]
        · rw [BitVec.getLsbD_of_ge _ _ (by omega)]
          simp
      · simp only [supervisorUpdate, ha, if_false]
        rfl
  sipZero := by
    intro hs n hz irq
    rcases sipZero_cases hz with hd | hzero
    · exact hmip hs irq n hd
    · rw [hzero, hzero]

/-- **Privilege confinement.** The privilege is raised only by a trap, and a CSR access is
confined unless it writes an SSIP that is not delegated. -/
theorem csr_confined (i : PrivIn) (s : PrivCsr) :
    (s.currentPriv < (s.next i).currentPriv → s.trapTaken i = true) ∧
      (s.accessesCsr i = true → (s.Confined i (s.next i) ↔ s.sipLeak i = false)) := by
  refine ⟨priv_raised_by_trap i s, fun h => ⟨fun hc => ?_, fun hl => ?_⟩⟩
  · by_contra hl
    simp only [sipLeak, Bool.not_eq_false, Bool.and_eq_true, beq_iff_eq, Bool.not_eq_true',
      bne_iff_ne, ne_eq] at hl
    obtain ⟨⟨⟨⟨hs, hw⟩, ha⟩, hd⟩, hne⟩ := hl
    have hsame := (hc.mip hs i.irqPending).1 1 hd
    rw [mip_after h hs, if_pos ⟨by rw [sip_write_taken h hs ha]; exact hw, ha, rfl⟩,
      mip_ssip] at hsame
    exact hne hsame.symm
  · exact confined_of_mip h (fun hs irq => mip_agrees h hs hl irq)

/-! ## A write that leaks -/

/-- A CSR instruction on `addr` with write value `w`. -/
def csrInstr (addr : BitVec 12) (w : Word) : PrivIn :=
  { irqPending := 0#32, exFire := true, exPc := 0#32, csrValid := true, csrAddr := addr
    csrWrite := true, csrWdata := w, exceptionValid := false, exceptionCause := 0#32
    exceptionTval := 0#32, mret := false, sret := false, sfenceVma := false, wfi := false
    retire := true }

/-- M-mode sets MPP to S, returns, and S-mode writes `sip`; nothing is delegated. -/
def undelegatedSip (n : Nat) : PrivIn :=
  if n = 0 then csrInstr 0x300#12 0x800#32
  else if n = 1 then
    { csrInstr 0x300#12 0#32 with csrValid := false, csrWrite := false, mret := true }
  else csrInstr 0x144#12 0x2#32

theorem csr_confined_mstatus :
    (PrivCsr.reset.currentPriv < (PrivCsr.reset.next (undelegatedSip 0)).currentPriv →
      PrivCsr.reset.trapTaken (undelegatedSip 0) = true) ∧
    (PrivCsr.reset.Confined (undelegatedSip 0) (PrivCsr.reset.next (undelegatedSip 0)) ↔
      PrivCsr.reset.sipLeak (undelegatedSip 0) = false) :=
  ⟨(csr_confined (undelegatedSip 0) PrivCsr.reset).1,
    (csr_confined (undelegatedSip 0) PrivCsr.reset).2 (by decide)⟩

/-- S-mode injects a software interrupt that is not delegated to it. -/
theorem sip_injected :
    ¬ ∀ n, (Clocked.run PrivCsr.next undelegatedSip PrivCsr.reset n).accessesCsr
        (undelegatedSip n) = true →
      (Clocked.run PrivCsr.next undelegatedSip PrivCsr.reset n).Confined (undelegatedSip n)
        (Clocked.run PrivCsr.next undelegatedSip PrivCsr.reset (n + 1)) := by
  intro h
  have hmip := ((h 2 (by decide)).mip (by decide) 0#32).1 1 (by decide)
  revert hmip
  decide

end PrivCsr

end MelonSoc
