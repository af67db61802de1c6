import MelonSoc.Pipeline.Operands

set_option autoImplicit false

/-! # The program counter of the pipeline

Program order is what the instructions say: the next instruction is the one behind the last
one that fired, or the target of its jump, trap or return. `Chain s pc` links the program
counters that travel with the instructions in EX, ID and the queue to that `pc`. Addresses of
instructions are even, so that the CSRs, which clear bit 0, hold a program counter unchanged.
-/

namespace MelonSoc

/-! ## Even addresses -/

/-- Bit 0 is clear. -/
def IsEven (w : Word) : Prop := w.getLsbD 0 = false

theorem isEven_iff {w : Word} : IsEven w ↔ w.toNat % 2 = 0 := by
  rw [IsEven, ← BitVec.testBit_toNat, Nat.testBit_zero, decide_eq_false_iff_not]
  omega

theorem IsEven.add {a b : Word} (ha : IsEven a) (hb : IsEven b) : IsEven (a + b) := by
  rw [isEven_iff] at *
  rw [BitVec.toNat_add]
  omega

theorem isEven_clearBit0 (w : Word) : IsEven (clearBit0 w) := by
  simp [IsEven, clearBit0]

theorem IsEven.clearBit0_eq {w : Word} (h : IsEven w) : clearBit0 w = w := by
  have h0 : w[0] = false := by simpa [IsEven] using h
  apply BitVec.eq_of_getLsbD_eq
  intro k hk
  rw [clearBit0, BitVec.getLsbD_and]
  rcases Nat.eq_zero_or_pos k with rfl | hpos
  · rw [h, Bool.false_and]
  · have hbit : (0xFFFFFFFE#32).getLsbD k = true := by
      have : ∀ k : Fin 32, 0 < k.val → (0xFFFFFFFE#32).getLsbD k.val = true := by decide
      exact this ⟨k, hk⟩ hpos
    rw [hbit, Bool.and_true]

theorem isEven_two : IsEven 2#32 := rfl

theorem isEven_four : IsEven 4#32 := rfl

theorem isEven_append {w : BitVec 31} : IsEven (w ++ 0#1 : BitVec 32) := by
  show (w ++ 0#1 : BitVec (31 + 1)).getLsbD 0 = false
  rw [BitVec.getLsbD_append]
  simp

namespace IdEx

theorem Decodes.even_bimm {e : IdEx} (h : e.Decodes) : IsEven e.bimm := by
  obtain ⟨v, ill, h⟩ := h
  rw [h]
  exact isEven_append

theorem Decodes.even_jimm {e : IdEx} (h : e.Decodes) : IsEven e.jimm := by
  obtain ⟨v, ill, h⟩ := h
  rw [h]
  exact isEven_append

end IdEx

namespace PrivCsr

/-- The saved program counters are even. -/
structure EvenEpc (c : PrivCsr) : Prop where
  mepc : IsEven c.mepc
  sepc : IsEven c.sepc

theorem EvenEpc.ite {c : Prop} [Decidable c] {s t : PrivCsr} (hs : s.EvenEpc) (ht : t.EvenEpc) :
    (if c then s else t).EvenEpc := by
  split
  · exact hs
  · exact ht

theorem EvenEpc.csrUpdate {s s1 : PrivCsr} (h : s1.EvenEpc) (addr : BitVec 12) (wdata : Word) :
    (csrUpdate addr wdata s s1).EvenEpc := by
  unfold PrivCsr.csrUpdate
  repeat' apply EvenEpc.ite
  all_goals first
    | exact h
    | exact ⟨h.mepc, h.sepc⟩
    | exact ⟨h.mepc, isEven_clearBit0 _⟩
    | exact ⟨isEven_clearBit0 _, h.sepc⟩

theorem EvenEpc.next {s : PrivCsr} (h : s.EvenEpc) (i : PrivIn) : (s.next i).EvenEpc := by
  have h1 : (s.tickCounters i.retire).EvenEpc := ⟨h.mepc, h.sepc⟩
  unfold PrivCsr.next
  simp only
  split
  · unfold enterTrap
    simp only
    split
    · exact ⟨h1.mepc, isEven_clearBit0 _⟩
    · exact ⟨isEven_clearBit0 _, h1.sepc⟩
  · split
    · split
      · exact ⟨h1.mepc, h1.sepc⟩
      · exact ⟨h1.mepc, h1.sepc⟩
    · split
      · exact h1.csrUpdate _ _
      · exact h1

/-- Traps and returns go to even addresses. -/
theorem EvenEpc.redirectPc {s : PrivCsr} (h : s.EvenEpc) (i : PrivIn) :
    IsEven (s.redirectPc i) := by
  have hbase : IsEven (s.trapVector i &&& 0xFFFFFFFC#32) := by
    simp [IsEven]
  unfold PrivCsr.redirectPc
  simp only
  split
  · split
    · refine hbase.add ?_
      simp [IsEven]
    · exact hbase
  · split
    · split
      · exact h.mepc
      · exact h.sepc
    · rfl

end PrivCsr

namespace Core

variable {i : CoreIn} {fi : FetchIn} {s : Core} {log : List Fired} {pc : Word}

/-! ## The next program counter -/

/-- The program counter after the instruction `f` in EX. -/
def pcAfter (i : CoreIn) (s : Core) (f : Fired) : Word :=
  if s.privRedirectValid i then s.csr.redirectPc (s.privIn i)
  else (s.exJump f.rs1 f.rs2).getD (s.idEx.pc + s.idEx.len)

/-- The program counter in program order after the cycle. -/
def pcNext (i : CoreIn) (s : Core) (log : List Fired) (pc : Word) : Word :=
  if s.exFire i then s.pcAfter i (s.fires i (s.answered i log)) else pc

/-- A jump depends on the operands it uses. -/
theorem exJump_congr {a b a' b' : Word} (h : s.idEx.SameOperands a b a' b') :
    s.exJump a a' = s.exJump b b' := by
  unfold exJump
  by_cases hv : s.idEx.valid = true
  · simp only [hv, if_true]
    by_cases hs : (s.idEx.isSFENCE && !s.xretIllegal) = true
    · rw [if_pos hs, if_pos hs]
    · rw [if_neg hs, if_neg hs]
      by_cases hb : s.idEx.isBranch = true
      · rw [h.rs1 (by simp [usesRs1, hb]), h.rs2 (by simp [usesRs2, hb])]
      · by_cases hj : s.idEx.isJALR = true
        · rw [h.rs1 (by simp [usesRs1, hj])]
          simp [hb]
        · simp [hb, hj]
  · simp [hv]

/-- The redirect of the frontend is the next program counter in program order. -/
theorem Linked.pcNext_of_redirect (l : Linked s log) (w : s.Wf) {t : Word}
    (h : s.exRedirect i = some t) : s.pcNext i log pc = t := by
  have hf := w.redirects_exFire (i := i) (by simp [redirects, h])
  rw [exRedirect, if_neg (by simp [exHeld_of_exFire hf])] at h
  rw [pcNext, if_pos hf, pcAfter]
  by_cases hp : s.privRedirectValid i = true
  · rw [if_pos hp] at h ⊢
    exact Option.some.inj h
  · rw [if_neg hp] at h ⊢
    rw [exJump_congr (l.fires_operands (i := i) w hf), h]
    rfl

/-- Without a redirect the next instruction is the one behind. -/
theorem Linked.pcNext_of_no_redirect (l : Linked s log) (w : s.Wf) (hf : s.exFire i = true)
    (h : s.redirects i = false) : s.pcNext i log pc = s.idEx.pc + s.idEx.len := by
  have h' : s.exRedirect i = none := by simpa [redirects] using h
  rw [exRedirect, if_neg (by simp [exHeld_of_exFire hf])] at h'
  rw [pcNext, if_pos hf, pcAfter]
  by_cases hp : s.privRedirectValid i = true
  · rw [if_pos hp] at h'
    cases h'
  · rw [if_neg hp] at h' ⊢
    rw [exJump_congr (l.fires_operands (i := i) w hf), h']
    rfl

/-! ## The chain -/

/-- The program counter behind EX. -/
def pcBehindEx (s : Core) (pc : Word) : Word :=
  if s.idEx.valid then s.idEx.pc + s.idEx.len else pc

/-- The program counter behind ID. -/
def pcBehindId (s : Core) (pc : Word) : Word :=
  if s.id.valid then s.id.pc + s.id.len else s.pcBehindEx pc

/-- EX, ID and the queue hold the instructions that follow `pc`. -/
structure Chain (s : Core) (pc : Word) : Prop where
  ex : s.idEx.valid = true → s.idEx.pc = pc
  id : s.id.valid = true → s.id.pc = s.pcBehindEx pc
  queue : s.fe.q.pcI = s.pcBehindId pc
  epc : s.csr.EvenEpc
  even : IsEven pc
  lenEx : IsEven s.idEx.len
  lenId : IsEven s.id.len

theorem chain_reset : Core.reset.Chain 0#32 where
  ex := by intro h; cases h
  id := by intro h; cases h
  queue := rfl
  epc := ⟨rfl, rfl⟩
  even := rfl
  lenEx := rfl
  lenId := rfl

theorem dropFirst_pcI (q : Ibuf) : q.dropFirst.pcI = q.pcI := by
  unfold Ibuf.dropFirst
  split <;> rfl

@[simp] theorem filled_pcI (s : Core) : s.filled.pcI = s.fe.q.pcI := by
  rw [filled, dropFirst_pcI]
  split <;> rfl

theorem issue_pc (q : Ibuf) : q.issue.pc = q.pcI := rfl

theorem pop_pcI (q : Ibuf) : q.pop.pcI = q.pcI + q.issue.len := rfl

theorem frontendNext_q : (s.frontendNext i fi).q = s.ibufNext i := by
  unfold frontendNext
  simp only
  split
  · rfl
  · split <;> rfl

theorem idExNext_len : IsEven s.idEx.len → IsEven s.id.len → IsEven (s.idExNext i).len := by
  intro h1 h2
  unfold idExNext
  repeat' split
  · exact h1
  · exact h1
  · exact h1
  · exact h2

theorem idNext_len : IsEven s.id.len → IsEven (s.idNext i).len := by
  intro h
  unfold idNext
  split
  · exact isEven_four
  · split
    · split
      · show IsEven (if s.filled.isRvc then 2#32 else 4#32)
        split
        · exact isEven_two
        · exact isEven_four
      · exact isEven_four
    · exact h

/-- Program order stays at even addresses. -/
theorem Chain.even_pcNext (c : s.Chain pc) (l : Linked s log) (w : s.Wf) :
    IsEven (s.pcNext i log pc) := by
  by_cases hf : s.exFire i = true
  · have hv := (exFire_iff.mp hf).1
    have hpc : IsEven s.idEx.pc := by
      rw [c.ex hv]
      exact c.even
    cases hr : s.exRedirect i with
    | none =>
        rw [l.pcNext_of_no_redirect w hf (by simp [redirects, hr])]
        exact hpc.add c.lenEx
    | some t =>
        rw [l.pcNext_of_redirect w hr]
        rw [exRedirect, if_neg (by simp [exHeld_of_exFire hf])] at hr
        split at hr
        · obtain rfl := Option.some.inj hr
          exact c.epc.redirectPc _
        · unfold exJump at hr
          simp only [hv, if_true] at hr
          split at hr
          · obtain rfl := Option.some.inj hr
            exact hpc.add c.lenEx
          · split at hr
            · obtain rfl := Option.some.inj hr
              exact hpc.add w.flags.even_bimm
            · split at hr
              · obtain rfl := Option.some.inj hr
                exact isEven_clearBit0 _
              · split at hr
                · obtain rfl := Option.some.inj hr
                  exact hpc.add w.flags.even_jimm
                · cases hr
  · rw [pcNext, if_neg hf]
    exact c.even

theorem ibufNext_of_redirect {t : Word} (h : s.exRedirect i = some t) :
    s.ibufNext i = Ibuf.flush t := by
  simp [ibufNext, h]

theorem ibufNext_of_stall (h : s.exRedirect i = none) (hs : s.stallAny i = true) :
    s.ibufNext i = s.filled := by
  simp [ibufNext, h, hs]

theorem idNext_of_stall (h : s.exRedirect i = none) (hs : s.stallAny i = true) :
    s.idNext i = s.id := by
  rw [idNext, if_neg (by simp [redirects, h]), if_neg (by simp [hs])]

/-- A step that redirects nothing, holds ID, and keeps what is behind EX keeps the links. -/
theorem Chain.next_of_stall (c : s.Chain pc) {pc' : Word} (hr : s.exRedirect i = none)
    (hs : s.stallAny i = true) (heven : IsEven pc')
    (hex : (s.idExNext i).valid = true → (s.idExNext i).pc = pc')
    (hbe : (s.next i fi).pcBehindEx pc' = s.pcBehindEx pc) : (s.next i fi).Chain pc' where
  ex := hex
  id := by
    rw [next_id, idNext_of_stall hr hs, hbe]
    exact c.id
  queue := by
    rw [pcBehindId, hbe, next_id, idNext_of_stall hr hs, next_fe, frontendNext_q,
      ibufNext_of_stall hr hs, filled_pcI]
    exact c.queue
  epc := c.epc.next _
  even := heven
  lenEx := idExNext_len c.lenEx c.lenId
  lenId := idNext_len c.lenId

/-- A redirect empties EX, ID and the queue. -/
theorem Chain.next_of_redirect (c : s.Chain pc) {t : Word} (hr : s.exRedirect i = some t)
    (heven : IsEven t) : (s.next i fi).Chain t := by
  have hred : s.redirects i = true := by simp [redirects, hr]
  have hex : (s.idExNext i).valid = false := by rw [idExNext, if_pos hred]
  have hid : (s.idNext i).valid = false := by rw [idNext, if_pos hred]
  refine ⟨fun h => ?_, fun h => ?_, ?_, c.epc.next _, heven, idExNext_len c.lenEx c.lenId,
    idNext_len c.lenId⟩
  · rw [next_idEx, hex] at h
    cases h
  · rw [next_id, hid] at h
    cases h
  · rw [next_fe, frontendNext_q, ibufNext_of_redirect hr]
    simp [pcBehindId, pcBehindEx, hex, hid, Ibuf.flush]

/-- The instruction in ID moves into EX and the queue follows up. -/
theorem Chain.next_of_flow (c : s.Chain pc) (hr : s.exRedirect i = none)
    (hs : s.stallAny i = false) (hex : s.idExNext i = s.idExOfId)
    (heven : IsEven (s.pcBehindEx pc)) : (s.next i fi).Chain (s.pcBehindEx pc) := by
  have hbe : (s.next i fi).pcBehindEx (s.pcBehindEx pc) = s.pcBehindId pc := by
    rw [pcBehindEx, next_idEx, hex]
    rfl
  have hid : s.idNext i = if s.filled.canIssue then s.filled.issue else
      { valid := false, pc := s.filled.pcI, instr := 0x00000013#32, len := 4#32, illegal := false
        illegalValue := 0#32, fetchFault := false, fetchPageFault := false
        fetchFaultValue := 0#32 } := by
    rw [idNext, if_neg (by simp [redirects, hr]), if_pos (by simp [hs])]
  have hq : s.ibufNext i = if s.filled.canIssue then s.filled.pop else s.filled := by
    simp [ibufNext, hr, hs]
  refine ⟨?_, ?_, ?_, c.epc.next _, heven, idExNext_len c.lenEx c.lenId, idNext_len c.lenId⟩
  · rw [next_idEx, hex]
    exact c.id
  · rw [hbe, next_id, hid]
    split
    · intro _
      rw [issue_pc, filled_pcI, c.queue]
    · intro h
      cases h
  · rw [pcBehindId, hbe, next_id, hid, next_fe, frontendNext_q, hq]
    split
    · rw [pop_pcI, filled_pcI, ← filled_pcI, ← issue_pc]
      rfl
    · rw [filled_pcI, c.queue]
      rfl

/-- **The chain is invariant.** -/
theorem Chain.next (c : s.Chain pc) (l : Linked s log) (w : s.Wf) (i : CoreIn) (fi : FetchIn) :
    (s.next i fi).Chain (s.pcNext i log pc) := by
  have heven := c.even_pcNext (i := i) l w
  have hheld : s.idExNext i = s.held → s.exFire i = false → s.stallAny i = true →
      (s.next i fi).Chain (s.pcNext i log pc) := by
    intro hex hfire hs
    have hr : s.exRedirect i = none := by
      by_contra hc
      rw [w.redirects_exFire (by simpa [redirects, Option.isSome_iff_ne_none] using hc)] at hfire
      cases hfire
    have hpc : s.pcNext i log pc = pc := by rw [pcNext, if_neg (by simp [hfire])]
    rw [hpc] at heven ⊢
    refine c.next_of_stall hr hs heven ?_ ?_
    · rw [hex]
      exact c.ex
    · simp [pcBehindEx, hex, held]
  cases w.step_cases i with
  | memWait hmem _ hfire hex => exact hheld hex hfire (by simp [stallAny, hmem])
  | atomicWait hat _ _ hfire hex =>
      exact hheld hex hfire (by simp [stallAny, w.stallAtomic_iff.mpr hat])
  | atomicDone hat _ _ hfire hex =>
      exact hheld hex hfire (by simp [stallAny, w.stallAtomic_iff.mpr hat])
  | mmuWait _ _ _ hfire hmmu hex => exact hheld hex hfire (by simp [stallAny, hmmu])
  | divWait _ _ _ hfire hdiv _ hex => exact hheld hex hfire (by simp [stallAny, hdiv])
  | flow hmem hidle hat hfire hdiv hmmu hex =>
      have hstall : s.stallAtomic = false := by simp [stallAtomic, hidle, hat]
      have hany : s.stallAny i = s.stallLoadUse := by simp [stallAny, hmem, hstall, hdiv, hmmu]
      cases hr : s.exRedirect i with
      | some t =>
          rw [l.pcNext_of_redirect w hr] at heven ⊢
          exact c.next_of_redirect hr heven
      | none =>
          have hred : s.redirects i = false := by simp [redirects, hr]
          have hpc : s.pcNext i log pc = s.pcBehindEx pc := by
            cases hv : s.idEx.valid with
            | true =>
                rw [l.pcNext_of_no_redirect w (by rw [hfire, hv]) hred, pcBehindEx, if_pos hv]
            | false =>
                rw [pcNext, hfire, hv, pcBehindEx, hv]
                rfl
          rw [hpc] at heven ⊢
          rw [hred, Bool.false_or] at hex
          cases hl : s.stallLoadUse with
          | true =>
              rw [hl, if_pos rfl] at hex
              refine c.next_of_stall hr (by rw [hany, hl]) heven ?_ ?_
              · rw [hex]
                intro h
                cases h
              · simp [pcBehindEx, hex]
          | false =>
              rw [hl, if_neg (by decide)] at hex
              exact c.next_of_flow hr (by rw [hany, hl]) hex heven

end Core

end MelonSoc
