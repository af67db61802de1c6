import MelonSoc.Xlate.Context
import MelonSoc.Xlate.Walks

set_option autoImplicit false

/-! # What the TLBs hold

Every valid entry shows the leaf with which the reference walk ends now, for all addresses that the
entry matches: leaves age, but an entry that shows A or D was filled when the bit was set. A hit is
therefore decided as the walk of memory would decide it.
-/

namespace MelonSoc

open Sv32 (Pte LeadsTo Aging)

/-! ## Entries -/

namespace TlbEntry

/-- The entry shows the leaf `p`. -/
structure Shows (e : TlbEntry) (p : Pte) : Prop where
  ppn : e.ppn = p.ppn
  u : e.u = p.user
  r : e.r = p.readable
  w : e.w = p.writable
  x : e.x = p.executable
  a : e.a = true
  accessed : p.accessed = true
  dirty : e.d = true → p.dirty = true

/-- The entry shows the leaf of every address it matches. -/
def Agrees (satp : Word) (m : Memories) (e : TlbEntry) : Prop :=
  ∀ va, e.matching satp va = true →
    ∃ p, Sv32.walk m.pte (satpPpn satp) va = .leaf e.superpage p ∧ e.Shows p

variable {satp : Word} {m m' : Memories} {e : TlbEntry} {va : Word} {p p' : Pte}

theorem Shows.aged (h : e.Shows p) (g : p.Aged p') : e.Shows p' where
  ppn := h.ppn.trans g.ppn_eq.symm
  u := h.u.trans g.user_eq.symm
  r := h.r.trans g.readable_eq.symm
  w := h.w.trans g.writable_eq.symm
  x := h.x.trans g.executable_eq.symm
  a := h.a
  accessed := g.accessed h.accessed
  dirty := fun hd => g.dirty (h.dirty hd)

theorem Agrees.aged (h : e.Agrees satp m) (g : Aging (satpPpn satp) m.pte m'.pte) :
    e.Agrees satp m' := by
  intro va hva
  obtain ⟨p, hwalk, hshows⟩ := h va hva
  have hend := Sv32.walk_aged g va
  rw [hwalk] at hend
  generalize Sv32.walk m'.pte (satpPpn satp) va = o at hend
  cases hend with
  | leaf ha => exact ⟨_, rfl, hshows.aged ha⟩

theorem Shows.physAddr (h : e.Shows p) : e.physAddr va = p.target e.superpage va := by
  rw [TlbEntry.physAddr, Pte.target, h.ppn]

end TlbEntry

theorem vpn1Of_eq (va : Word) : vpn1Of va = (vpnOf va).extractLsb' 10 10 := by
  refine BitVec.eq_of_getLsbD_eq fun k hk => ?_
  simp only [vpn1Of, vpnOf, BitVec.getLsbD_extractLsb', hk, decide_true, Bool.true_and]
  rw [show 12 + (10 + k) = 22 + k by omega]
  simp
  omega

theorem vpn0Of_eq (va : Word) : vpn0Of va = (vpnOf va).extractLsb' 0 10 := by
  refine BitVec.eq_of_getLsbD_eq fun k hk => ?_
  simp only [vpn0Of, vpnOf, BitVec.getLsbD_extractLsb', hk, decide_true, Bool.true_and]
  rw [show 12 + (0 + k) = 12 + k by omega]
  simp
  omega

namespace Mmu

variable {satp : Word} {m m' : Memories} {i : MmuIn} {s : Mmu}

/-- What a walk fills in shows the leaf that it ended with. -/
theorem Filling.agrees (f : s.Filling satp m) : s.fillEntry.Agrees satp m := by
  intro va hva
  have hend := f.place.ends f.entry (fun _ => .inr (leaf_of_accepted f.accepted))
  rw [f.accepted, if_pos rfl] at hend
  have hready := f.ready
  simp only [needsAd, Bool.or_eq_false_iff, Bool.not_eq_false'] at hready
  refine ⟨s.walkPte, ?_, ⟨rfl, rfl, rfl, rfl, rfl, hready.1, hready.1, fun hd => hd⟩⟩
  simp only [TlbEntry.matching, Bool.and_eq_true] at hva
  have htag := hva.2
  cases hsp : s.walkSuperpage with
  | true =>
      have hsp' : s.fillEntry.superpage = true := hsp
      rw [hsp] at hend
      rw [hsp', if_pos rfl, beq_iff_eq] at htag
      have hvpn : Sv32.vpn1 s.walkVaddr = Sv32.vpn1 va := (vpn1Of_eq s.walkVaddr).trans htag
      rw [hsp']
      exact Sv32.walk_superpage_congr hvpn hend
  | false =>
      have hsp' : s.fillEntry.superpage = false := hsp
      rw [hsp] at hend
      rw [hsp', if_neg (by decide), beq_iff_eq] at htag
      have hvpn : vpnOf s.walkVaddr = vpnOf va := htag
      have h1 : Sv32.vpn1 s.walkVaddr = Sv32.vpn1 va := by
        show vpn1Of s.walkVaddr = vpn1Of va
        rw [vpn1Of_eq, vpn1Of_eq, hvpn]
      have h0 : Sv32.vpn0 s.walkVaddr = Sv32.vpn0 va := by
        show vpn0Of s.walkVaddr = vpn0Of va
        rw [vpn0Of_eq, vpn0Of_eq, hvpn]
      rw [hsp', ← Sv32.walk_congr h1 h0]
      exact hend

/-- Every valid entry shows its leaves. -/
structure TlbsAgree (satp : Word) (m : Memories) (s : Mmu) : Prop where
  dtlb : ∀ j, (s.dtlb j).valid = true → (s.dtlb j).Agrees satp m
  itlb : ∀ j, (s.itlb j).valid = true → (s.itlb j).Agrees satp m

theorem WalkOk.filling (w : s.WalkOk satp m) (h : s.fills = true) : s.Filling satp m := by
  simp only [fills, Bool.and_eq_true, beq_iff_eq] at h
  simpa only [WalkOk, h.1] using w

/-- **Step.** The TLBs agree with memory. -/
theorem TlbsAgree.next (t : s.TlbsAgree satp m) (w : s.WalkOk satp m)
    (v : Serves (satpPpn satp) i s m m') : (s.next i).TlbsAgree satp m' := by
  have g := w.aging v
  constructor
  · intro j hj
    rcases (next_entry j).1 hj with ⟨hfill, -, he⟩ | ⟨he, -⟩
    · rw [Bool.and_eq_true] at hfill
      rw [he]
      exact (w.filling hfill.1).agrees.aged g
    · rw [he] at hj ⊢
      exact (t.dtlb j hj).aged g
  · intro j hj
    rcases (next_entry j).2 hj with ⟨hfill, -, he⟩ | ⟨he, -⟩
    · rw [Bool.and_eq_true] at hfill
      rw [he]
      exact (w.filling hfill.1).agrees.aged g
    · rw [he] at hj ⊢
      exact (t.itlb j hj).aged g

end Mmu

/-- The entry that a lookup reads on a hit. -/
theorem Tlb.entry_of_hit {satp va : Word} {t : Tlb} (h : t.hit satp va = true) :
    ∃ j, t.entry satp va = t j ∧ (t j).matching satp va = true := by
  obtain ⟨j, hj⟩ := Option.isSome_iff_exists.mp h
  have hmatch : (t j).matching satp va = true :=
    List.find?_some (p := fun k => (t k).matching satp va) hj
  refine ⟨j, ?_, hmatch⟩
  rw [Tlb.entry, Tlb.hitIndex, hj]
  rfl

theorem TlbEntry.valid_of_matching {satp va : Word} {e : TlbEntry}
    (h : e.matching satp va = true) : e.valid = true := by
  simp only [matching, Bool.and_eq_true] at h
  exact h.1.1

/-! ## Permissions -/

/-- What a data access is made in. -/
def XlateCtx.dataMode (c : XlateCtx) : Sv32.Mode :=
  { user := c.effectivePriv == privU, sum := c.sum, mxr := c.mxr }

/-- What a fetch is made in. -/
def XlateCtx.fetchMode (c : XlateCtx) : Sv32.Mode :=
  { user := c.privilege == privU, sum := false, mxr := false }

/-- A data access of the reference walk. -/
def DReq.access (q : DReq) : Sv32.Access := if q.store then .store else .load

theorem ptePermissionOk_eq (pte : Word) (store : Bool) {priv : BitVec 2} (sum mxr : Bool)
    (hm : priv ≠ privM) (hr : priv ≠ 0b10#2) :
    ptePermissionOk pte store priv sum mxr =
      Pte.grants (if store then .store else .load)
        { user := priv == privU, sum := sum, mxr := mxr } pte := by
  have hpriv : priv = privU ∨ priv = privS := by
    revert priv
    decide
  rcases hpriv with rfl | rfl
  · cases store with
    | true => rfl
    | false => rfl
  · cases store with
    | true => rfl
    | false => rfl

theorem pteFetchOk_eq (pte : Word) (priv : BitVec 2) :
    pteFetchOk pte priv =
      Pte.grants .fetch { user := priv == privU, sum := false, mxr := false } pte := rfl

namespace Mmu

variable {satp : Word} {m : Memories} {c : XlateCtx} {s : Mmu}

/-- An entry decides about a data access as the leaf that it shows. -/
theorem dtlbAccessAllowed_eq {q : DReq} {p : Pte} (h : (s.dtlbEntry c q).Shows p)
    (hm : c.effectivePriv ≠ privM) (hr : c.effectivePriv ≠ 0b10#2) :
    s.dtlbAccessAllowed c q = p.grants q.access c.dataMode := by
  have hpte : s.dtlbAccessAllowed c q =
      ptePermissionOk p q.store c.effectivePriv c.sum c.mxr := by
    simp only [dtlbAccessAllowed, h.u, h.r, h.w, h.x]
    rfl
  rw [hpte, ptePermissionOk_eq p q.store c.sum c.mxr hm hr]
  rfl

theorem itlbPermissionOk_eq {q : ImemReq} {p : Pte} (h : (s.itlbEntry c q).Shows p) :
    s.itlbPermissionOk c q = p.grants .fetch c.fetchMode := by
  simp only [itlbPermissionOk, h.x, h.a, h.u, Bool.and_true]
  rfl

end Mmu

end MelonSoc
