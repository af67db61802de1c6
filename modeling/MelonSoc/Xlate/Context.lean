import MelonSoc.Csr.Confinement
import MelonSoc.Pipeline.Operands
import MelonSoc.Rtl.Mmu

set_option autoImplicit false

/-! # The context of translation

The privilege changes with a trap or a return only, and both redirect the frontend. The reserved
encoding of a privilege is in none of the registers.
-/

namespace MelonSoc

theorem PrivCsr.priv_next {s : PrivCsr} {i : PrivIn} (h : s.redirectValid i = false) :
    (s.next i).currentPriv = s.currentPriv := by
  rw [redirectValid, Bool.or_eq_false_iff] at h
  obtain ⟨ht, hr⟩ := h
  unfold PrivCsr.next
  simp only [ht, hr, Bool.false_eq_true, if_false]
  split
  · rw [csrUpdate_priv]
    rfl
  · rfl

namespace Core

variable {i : CoreIn} {f : FetchIn} {s : Core}

/-- A trap or a return redirects the frontend. -/
theorem redirects_of_priv (h : s.privRedirectValid i = true) : s.redirects i = true := by
  have hheld := exHeld_of_exFire (privRedirectValid_exFire h)
  simp [redirects, exRedirect, hheld, h]

/-- Without a redirect the privilege stays. -/
theorem priv_next (h : s.redirects i = false) :
    (s.next i f).csr.currentPriv = s.csr.currentPriv := by
  apply PrivCsr.priv_next
  by_contra hno
  rw [redirects_of_priv (by simpa [privRedirectValid] using hno)] at h
  cases h

end Core

/-! ## The reserved privilege -/

theorem getLsbD_setBit {w : Word} {n k : Nat} {b : Bool} (hn : n < 32) :
    (setBit w n b).getLsbD k = if k = n then b else w.getLsbD k := by
  have hone : (1#32 <<< n).getLsbD k = decide (k = n) := by
    rw [← BitVec.twoPow_eq, BitVec.getLsbD_twoPow]
    by_cases hk : k = n
    · simp [hk, hn]
    · simp [hk, Ne.symm hk]
  cases b with
  | true =>
      rw [setBit, if_pos rfl, BitVec.getLsbD_or, hone]
      by_cases hk : k = n <;> simp [hk]
  | false =>
      rw [setBit, if_neg (by decide), BitVec.getLsbD_and, BitVec.getLsbD_not, hone]
      by_cases hk : k = n
      · simp [hk]
      · by_cases h32 : k < 32
        · simp [hk, h32]
        · simp [hk, h32, BitVec.getLsbD_of_ge w k (by omega)]

theorem mppOf_congr {w w' : Word} (h11 : w'.getLsbD 11 = w.getLsbD 11)
    (h12 : w'.getLsbD 12 = w.getLsbD 12) : mppOf w' = mppOf w := by
  refine BitVec.eq_of_getLsbD_eq fun k hk => ?_
  simp only [mppOf, BitVec.getLsbD_extractLsb']
  obtain rfl | rfl : k = 0 ∨ k = 1 := by omega
  · rw [h11]
  · rw [h12]

theorem mppOf_setMpp (w : Word) (p : BitVec 2) : mppOf (setMpp w p) = p := by
  refine BitVec.eq_of_getLsbD_eq fun k hk => ?_
  simp only [mppOf, setMpp, BitVec.getLsbD_extractLsb']
  obtain rfl | rfl : k = 0 ∨ k = 1 := by omega
  · rw [getLsbD_setBit (by decide)]
    rfl
  · rw [getLsbD_setBit (by decide), getLsbD_setBit (by decide)]
    rfl

theorem mppOf_setBit {w : Word} {n : Nat} {b : Bool} (hn : n < 32) (h11 : n ≠ 11) (h12 : n ≠ 12) :
    mppOf (setBit w n b) = mppOf w := by
  apply mppOf_congr
  · rw [getLsbD_setBit hn, if_neg (Ne.symm h11)]
  · rw [getLsbD_setBit hn, if_neg (Ne.symm h12)]

theorem mppOf_warlMstatus (value : Word) : mppOf (warlMstatus value) ≠ 0b10#2 := by
  unfold warlMstatus
  dsimp only
  split
  · rw [mppOf_setMpp]
    decide
  · rename_i h
    simpa using h

theorem mppOf_sstatus (w wdata : Word) :
    mppOf ((w &&& ~~~sstatusMask) ||| (wdata &&& sstatusMask)) = mppOf w := by
  apply mppOf_congr
  · simp [sstatusMask]
  · simp [sstatusMask]

namespace PrivCsr

/-- Neither the privilege nor MPP is the reserved encoding. -/
structure PrivWf (s : PrivCsr) : Prop where
  priv : s.currentPriv ≠ 0b10#2
  mpp : mppOf s.mstatus ≠ 0b10#2

theorem privWf_reset : PrivCsr.reset.PrivWf where
  priv := by decide
  mpp := by decide

variable {s : PrivCsr} {i : PrivIn}

theorem csrUpdate_mstatus (addr : BitVec 12) (wdata : Word) (s s1 : PrivCsr) :
    (csrUpdate addr wdata s s1).mstatus = s1.mstatus ∨
      (csrUpdate addr wdata s s1).mstatus =
        (s.mstatus &&& ~~~sstatusMask) ||| (wdata &&& sstatusMask) ∨
      (csrUpdate addr wdata s s1).mstatus = warlMstatus wdata := by
  by_cases h1 : addr = 0x100#12
  · subst h1
    exact .inr (.inl rfl)
  · by_cases h3 : addr = 0x300#12
    · subst h3
      exact .inr (.inr rfl)
    · refine .inl ?_
      simp only [csrUpdate, beq_iff_eq, h1, h3, if_false, apply_ite PrivCsr.mstatus, ite_self]

theorem PrivWf.enterTrap (w : s.PrivWf) : (s.enterTrap i).PrivWf := by
  unfold PrivCsr.enterTrap
  dsimp only
  split
  · refine ⟨show privS ≠ 0b10#2 by decide, ?_⟩
    rw [mppOf_setBit (by decide) (by decide) (by decide),
      mppOf_setBit (by decide) (by decide) (by decide),
      mppOf_setBit (by decide) (by decide) (by decide)]
    exact w.mpp
  · refine ⟨show privM ≠ 0b10#2 by decide, ?_⟩
    rw [mppOf_setMpp]
    exact w.priv

theorem PrivWf.mretUpdate (w : s.PrivWf) : s.mretUpdate.PrivWf := by
  refine ⟨w.mpp, ?_⟩
  unfold PrivCsr.mretUpdate
  dsimp only
  rw [mppOf_setMpp]
  decide

theorem PrivWf.sretUpdate (w : s.PrivWf) : s.sretUpdate.PrivWf := by
  constructor
  · unfold PrivCsr.sretUpdate
    dsimp only
    split
    · decide
    · decide
  · unfold PrivCsr.sretUpdate
    rw [mppOf_setBit (by decide) (by decide) (by decide),
      mppOf_setBit (by decide) (by decide) (by decide),
      mppOf_setBit (by decide) (by decide) (by decide),
      mppOf_setBit (by decide) (by decide) (by decide)]
    exact w.mpp

theorem PrivWf.next (w : s.PrivWf) : (s.next i).PrivWf := by
  have w1 : (s.tickCounters i.retire).PrivWf := ⟨w.priv, w.mpp⟩
  unfold PrivCsr.next
  dsimp only
  split
  · exact w1.enterTrap
  · split
    · split
      · exact w1.mretUpdate
      · exact w1.sretUpdate
    · split
      · constructor
        · rw [csrUpdate_priv]
          exact w1.priv
        · rcases csrUpdate_mstatus i.csrAddr i.csrWdata s (s.tickCounters i.retire) with h | h | h
          · rw [h]
            exact w1.mpp
          · rw [h, mppOf_sstatus]
            exact w.mpp
          · rw [h]
            exact mppOf_warlMstatus _
      · exact w1

end PrivCsr

/-- The effective privilege is never the reserved encoding. -/
theorem XlateCtx.effectivePriv_legal {c : XlateCtx} (hp : c.privilege ≠ 0b10#2)
    (hm : mppOf c.mstatus ≠ 0b10#2) : c.effectivePriv ≠ 0b10#2 := by
  unfold effectivePriv
  split
  · exact hm
  · exact hp

end MelonSoc
