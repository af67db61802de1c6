import MelonSoc.Csr.Traps
import MelonSoc.Lib.BitFields
import MelonSoc.Lib.Clocked

set_option autoImplicit false

/-! # What the CSRs hold

The CSRs are written in more than twenty places, some of them one bit at a time. Wherever a
register has fewer values than bits, every place writes one of these values.
-/

namespace MelonSoc

open BitFields

namespace PrivCsr

/-- The mode of a trap vector is direct or vectored. -/
def TvecMode (w : Word) : Prop := w.extractLsb' 0 2 = 0b00#2 ∨ w.extractLsb' 0 2 = 0b01#2

/-- Every register holds one of its values. -/
structure Represented (s : PrivCsr) : Prop where
  priv : s.currentPriv ≠ 0b10#2
  mpp : mppOf s.mstatus ≠ 0b10#2
  mstatus : Within s.mstatus mstatusMask
  medeleg : Within s.medeleg medelegMask
  mideleg : Within s.mideleg midelegMask
  mie : Within s.mie irqMask
  mtvec : TvecMode s.mtvec
  stvec : TvecMode s.stvec
  mepc : s.mepc.getLsbD 0 = false
  sepc : s.sepc.getLsbD 0 = false
  mcounteren : Within s.mcounteren 0x7#32
  scounteren : Within s.scounteren 0x7#32
  supervisorPending : Within s.supervisorPending midelegMask

/-! ## The values that are written -/

theorem tvecMode_warl (w : Word) : TvecMode (warlTvec w) := by
  unfold warlTvec
  split
  · rename_i h
    rw [TvecMode]
    generalize w.extractLsb' 0 2 = m at h ⊢
    revert m
    decide
  · left
    apply BitVec.eq_of_getLsbD_eq
    intro k hk
    rw [BitVec.getLsbD_extractLsb', BitVec.getLsbD_and]
    obtain rfl | rfl : k = 0 ∨ k = 1 := by omega
    · simp
    · simp

theorem clearBit0_even (w : Word) : (clearBit0 w).getLsbD 0 = false := by
  simp [clearBit0]

/-- `mstatus` after a write to one of its bits. -/
theorem within_setBit {w m : Word} {n : Nat} {b : Bool} (hn : n < 32) (h : Within w m)
    (hm : m.getLsbD n = true) : Within (setBit w n b) m := by
  intro k hk
  rw [getLsbD_setBit hn] at hk
  by_cases hkn : k = n
  · rw [hkn]
    exact hm
  · rw [if_neg hkn] at hk
    exact h k hk

theorem within_setMpp {w : Word} (p : BitVec 2) (h : Within w mstatusMask) :
    Within (setMpp w p) mstatusMask := by
  rw [setMpp]
  exact within_setBit (by decide) (within_setBit (by decide) h (by decide)) (by decide)

theorem within_warlMstatus (w : Word) : Within (warlMstatus w) mstatusMask := by
  unfold warlMstatus
  dsimp only
  split
  · exact within_setMpp _ (within_and w mstatusMask)
  · exact within_and w mstatusMask

theorem within_sstatus {w wdata : Word} (h : Within w mstatusMask) :
    Within ((w &&& ~~~sstatusMask) ||| (wdata &&& sstatusMask)) mstatusMask := by
  have hsub : Within sstatusMask mstatusMask := by
    have hand : sstatusMask = sstatusMask &&& mstatusMask := by decide
    rw [hand]
    exact within_and _ _
  exact h.merge ((within_and wdata sstatusMask).trans hsub)

theorem within_sip {w wdata : Word} (h : Within w midelegMask) :
    Within ((w &&& ~~~sipWriteMask) ||| (wdata &&& sipWriteMask)) midelegMask := by
  have hsub : Within sipWriteMask midelegMask := by
    have hand : sipWriteMask = sipWriteMask &&& midelegMask := by decide
    rw [hand]
    exact within_and _ _
  exact h.merge ((within_and wdata sipWriteMask).trans hsub)

/-! ## The places -/

section Places

variable {s s1 : PrivCsr} {i : PrivIn}

theorem represented_reset : reset.Represented where
  priv := by decide
  mpp := by decide
  mstatus := within_zero _
  medeleg := within_zero _
  mideleg := within_zero _
  mie := within_zero _
  mtvec := .inl rfl
  stvec := .inl rfl
  mepc := rfl
  sepc := rfl
  mcounteren := within_zero _
  scounteren := within_zero _
  supervisorPending := within_zero _

theorem Represented.wf (h : s.Represented) : s.PrivWf := ⟨h.priv, h.mpp⟩

theorem Represented.tickCounters (h : s.Represented) (retire : Bool) :
    (s.tickCounters retire).Represented := { h with }

theorem Represented.enterTrap (h : s.Represented) : (s.enterTrap i).Represented := by
  have hwf : (s.enterTrap i).PrivWf := h.wf.enterTrap
  have hpriv := hwf.priv
  have hmpp := hwf.mpp
  unfold PrivCsr.enterTrap at hpriv hmpp ⊢
  dsimp only at hpriv hmpp ⊢
  split at hpriv
  · rename_i hs
    rw [if_pos hs] at hmpp ⊢
    refine { h with priv := hpriv, mpp := hmpp, mstatus := ?_, sepc := clearBit0_even _ }
    exact within_setBit (by decide) (within_setBit (by decide)
      (within_setBit (by decide) h.mstatus (by decide)) (by decide)) (by decide)
  · rename_i hs
    rw [if_neg hs] at hmpp ⊢
    refine { h with priv := hpriv, mpp := hmpp, mstatus := ?_, mepc := clearBit0_even _ }
    exact within_setMpp _ (within_setBit (by decide)
      (within_setBit (by decide) h.mstatus (by decide)) (by decide))

theorem Represented.mretUpdate (h : s.Represented) : s.mretUpdate.Represented := by
  refine { h with priv := h.wf.mretUpdate.priv, mpp := h.wf.mretUpdate.mpp, mstatus := ?_ }
  have hbits : Within (setBit (setBit s.mstatus 3 (s.mstatus.getLsbD 7)) 7 true) mstatusMask :=
    within_setBit (by decide) (within_setBit (by decide) h.mstatus (by decide)) (by decide)
  unfold PrivCsr.mretUpdate
  dsimp only
  split
  · exact within_setMpp _ (within_setBit (by decide) hbits (by decide))
  · exact within_setMpp _ hbits

theorem Represented.sretUpdate (h : s.Represented) : s.sretUpdate.Represented := by
  refine { h with priv := h.wf.sretUpdate.priv, mpp := h.wf.sretUpdate.mpp, mstatus := ?_ }
  exact within_setBit (by decide) (within_setBit (by decide) (within_setBit (by decide)
    (within_setBit (by decide) h.mstatus (by decide)) (by decide)) (by decide)) (by decide)

theorem Represented.ite {b : Bool} {x y : PrivCsr} (hx : x.Represented) (hy : y.Represented) :
    (if b then x else y).Represented := by
  cases b with
  | true => exact hx
  | false => exact hy

/-- A write to any CSR. -/
theorem Represented.csrUpdate (addr : BitVec 12) (wdata : Word) (h : s.Represented)
    (h1 : s1.Represented) : (PrivCsr.csrUpdate addr wdata s s1).Represented := by
  have hsstatus : mppOf ((s.mstatus &&& ~~~sstatusMask) ||| (wdata &&& sstatusMask)) ≠ 0b10#2 := by
    rw [mppOf_sstatus]
    exact h.mpp
  have hsie : Within (wdata &&& s.mideleg &&& irqMask) irqMask := within_and _ _
  have hswap : wdata &&& s.mideleg &&& irqMask = wdata &&& irqMask &&& s.mideleg := by
    rw [BitVec.and_assoc, BitVec.and_comm s.mideleg, BitVec.and_assoc]
  rw [hswap] at hsie
  unfold PrivCsr.csrUpdate
  apply Represented.ite
  · exact { h1 with mpp := hsstatus, mstatus := within_sstatus h.mstatus }
  apply Represented.ite
  · -- sie writes the bits that are delegated
    rw [hswap]
    exact { h1 with mie := h.mie.merge hsie }
  apply Represented.ite
  · exact { h1 with stvec := tvecMode_warl wdata }
  apply Represented.ite
  · exact { h1 with scounteren := within_and _ _ }
  apply Represented.ite
  · exact { h1 with }
  apply Represented.ite
  · exact { h1 with sepc := clearBit0_even wdata }
  apply Represented.ite
  · exact { h1 with }
  apply Represented.ite
  · exact { h1 with }
  apply Represented.ite
  · exact { h1 with supervisorPending := within_sip h.supervisorPending }
  apply Represented.ite
  · exact { h1 with }
  apply Represented.ite
  · exact { h1 with mpp := mppOf_warlMstatus wdata, mstatus := within_warlMstatus wdata }
  apply Represented.ite
  · exact { h1 with medeleg := within_and _ _ }
  apply Represented.ite
  · exact { h1 with mideleg := within_and _ _ }
  apply Represented.ite
  · exact { h1 with mie := within_and _ _ }
  apply Represented.ite
  · exact { h1 with mtvec := tvecMode_warl wdata }
  apply Represented.ite
  · exact { h1 with mcounteren := within_and _ _ }
  apply Represented.ite
  · exact { h1 with }
  apply Represented.ite
  · exact { h1 with mepc := clearBit0_even wdata }
  apply Represented.ite
  · exact { h1 with }
  apply Represented.ite
  · exact { h1 with }
  apply Represented.ite
  · exact { h1 with supervisorPending := h.supervisorPending.merge (within_and _ _) }
  apply Represented.ite
  · exact { h1 with }
  apply Represented.ite
  · exact { h1 with }
  apply Represented.ite
  · exact { h1 with }
  apply Represented.ite
  · exact { h1 with }
  exact h1

/-- One clock edge. -/
theorem Represented.next (h : s.Represented) : (s.next i).Represented := by
  have h1 := h.tickCounters i.retire
  unfold PrivCsr.next
  dsimp only
  apply Represented.ite
  · exact h1.enterTrap
  apply Represented.ite
  · exact h1.mretUpdate.ite h1.sretUpdate
  apply Represented.ite
  · exact h.csrUpdate i.csrAddr i.csrWdata h1
  exact h1

end Places

/-- In every reachable state every register holds one of its values. -/
theorem csr_representation (inp : Nat → PrivIn) (n : Nat) :
    (Clocked.run next inp reset n).Represented :=
  Clocked.run_always represented_reset (fun _ _ h => h.next) n

/-! ## What relies on it -/

section Uses

variable {s : PrivCsr} {i : PrivIn}

/-- The MMU never checks with the reserved privilege. -/
theorem Represented.effectivePriv (h : s.Represented) {c : XlateCtx}
    (hpriv : c.privilege = s.currentPriv) (hm : c.mstatus = s.mstatus) :
    c.effectivePriv ≠ 0b10#2 := by
  unfold XlateCtx.effectivePriv
  rw [hpriv, hm]
  split
  · exact h.mpp
  · exact h.priv

/-- The base of a trap vector and a vector in its table are word addresses. -/
theorem vector_even (v : Word) (k : BitVec 5) :
    ((v &&& 0xFFFFFFFC#32) + (k.setWidth 32 <<< 2)).getLsbD 0 = false ∧
      (v &&& 0xFFFFFFFC#32).getLsbD 0 = false := by
  constructor
  · rw [BitVec.getLsbD_add (by decide)]
    simp
  · simp

/-- A trap or return never redirects to an odd address. -/
theorem Represented.redirectPc (h : s.Represented) : (s.redirectPc i).getLsbD 0 = false := by
  unfold PrivCsr.redirectPc
  dsimp only
  split
  · split
    · exact (vector_even _ _).1
    · exact (vector_even (s.trapVector i) 0#5).2
  split
  · split
    · exact h.mepc
    · exact h.sepc
  · rfl

end Uses

end PrivCsr

end MelonSoc
