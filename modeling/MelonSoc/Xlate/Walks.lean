import MelonSoc.Xlate.Moves
import MelonSoc.Xlate.Tables

set_option autoImplicit false

/-! # Walks of memory

While `satp` keeps its value and the page tables only age, the walker is always somewhere on the
reference walk for its address: the entry it waits for or looks at is the one that the walk comes
to, and what it fills in or fails with is how the walk ends.
-/

namespace MelonSoc

open Sv32 (Pte LeadsTo Aging)

namespace Mmu

/-! ## The invariant -/

section Invariant

variable (satp : Word) (m : Memories)

/-- The reference walk for the address of the walk comes to the entry that is addressed. -/
def AtEntry (superpage : Bool) (s : Mmu) : Prop :=
  LeadsTo m.pte (satpPpn satp) s.walkVaddr superpage (widen s.walkPteAddr)

/-- The entry is being read. -/
structure Waiting (superpage : Bool) (s : Mmu) : Prop where
  place : s.AtEntry satp m superpage
  noPage : s.walkPageFault = false
  noAccess : s.walkAccessFault = false

/-- The entry has been read. -/
structure Checking (superpage : Bool) (s : Mmu) : Prop extends Waiting satp m superpage s where
  entry : m.pte (widen s.walkPteAddr) = some s.walkPte

/-- A leaf is being written back; it may have reached memory. -/
structure Updating (s : Mmu) : Prop where
  place : s.AtEntry satp m s.walkSuperpage
  accepted : Pte.accepted s.walkSuperpage s.walkPte = true
  entry : m.pte (widen s.walkPteAddr) = some s.walkPte ∨
    m.pte (widen s.walkPteAddr) = some (s.walkPte ||| adBits s.walkStore)

/-- The walk has ended with a leaf that has the bits that the access needs. -/
structure Filling (s : Mmu) : Prop where
  place : s.AtEntry satp m s.walkSuperpage
  accepted : Pte.accepted s.walkSuperpage s.walkPte = true
  entry : m.pte (widen s.walkPteAddr) = some s.walkPte
  ready : needsAd s.walkPte s.walkStore = false

/-- How the walk has failed. -/
inductive Failed (s : Mmu) : Prop
  | page {superpage : Bool} (page : s.walkPageFault = true) (noAccess : s.walkAccessFault = false)
      (place : s.AtEntry satp m superpage) (entry : m.pte (widen s.walkPteAddr) = some s.walkPte)
      (ends : superpage = true → Pte.malformed s.walkPte = true ∨ Pte.leaf s.walkPte = true)
      (denied : (Pte.accepted superpage s.walkPte && s.walkPermissionOk) = false)
  | access (noPage : s.walkPageFault = false) (access : s.walkAccessFault = true)
      (ends : Sv32.walk m.pte (satpPpn satp) s.walkVaddr = .accessFault)

/-- The invariant of the walker. -/
def WalkOk (s : Mmu) : Prop :=
  match s.ptwState with
  | .idle => True
  | .l1Wait => s.Waiting satp m true
  | .l1Capture => False
  | .l1Check => s.Checking satp m true
  | .l0Wait => s.Waiting satp m false
  | .l0Capture => False
  | .l0Check => s.Checking satp m false
  | .adWait => s.Updating satp m
  | .fill => s.Filling satp m
  | .fault => s.Failed satp m

end Invariant

variable {satp : Word} {m m' : Memories} {i : MmuIn} {s s' : Mmu} {superpage : Bool}

/-- What memory does in a cycle: it answers a read of the walker with the entry it holds, the page
tables do not change but for what the walker writes back, and that is there when it is acknowledged. -/
structure Serves (root : BitVec 22) (i : MmuIn) (s : Mmu) (m m' : Memories) : Prop where
  reads : s.walkActive = true → i.physData.ack = true →
    m.pte (widen s.walkPteAddr) = some i.physData.datR
  kept : ∀ x, Sv32.InTables m.pte root x → m'.pte x = m.pte x ∨
    (s.ptwState = .adWait ∧ x = widen s.walkPteAddr ∧
      m'.pte x = some (s.walkPte ||| adBits s.walkStore))
  written : s.ptwState = .adWait → i.physData.ack = true →
    m'.pte (widen s.walkPteAddr) = some (s.walkPte ||| adBits s.walkStore)

/-! ## Aging -/

theorem adBits_bit (store : Bool) (k : Nat) (h6 : k ≠ 6) (h7 : k ≠ 7) :
    (adBits store).getLsbD k = false := by
  have h40 : (0x40#32).getLsbD k = false := by
    rw [show 0x40#32 = BitVec.twoPow 32 6 by rfl, BitVec.getLsbD_twoPow]
    simp [Ne.symm h6]
  have h80 : (0x80#32).getLsbD k = false := by
    rw [show 0x80#32 = BitVec.twoPow 32 7 by rfl, BitVec.getLsbD_twoPow]
    simp [Ne.symm h7]
  rw [adBits, BitVec.getLsbD_or, h40, Bool.false_or]
  cases store with
  | true => exact h80
  | false => exact BitVec.getLsbD_zero

theorem leaf_of_accepted {p : Pte} (h : Pte.accepted superpage p = true) : p.leaf = true := by
  simp only [Pte.accepted, Bool.and_eq_true] at h
  exact h.1.2

theorem aged_adBits {p : Pte} (store : Bool) (h : p.leaf = true) :
    Pte.Aged p (p ||| adBits store) :=
  Pte.aged_or h (fun k h6 h7 => adBits_bit store k h6 h7)

theorem accepted_adBits {p : Pte} (store : Bool) (h : Pte.accepted superpage p = true) :
    Pte.accepted superpage (p ||| adBits store) = true := by
  have ha := aged_adBits store (leaf_of_accepted h)
  rw [Pte.accepted, ha.malformed_eq, ha.leaf_eq, ha.misaligned_eq]
  exact h

theorem needsAd_adBits (p : Word) (store : Bool) : needsAd (p ||| adBits store) store = false := by
  cases store with
  | true => simp [needsAd, adBits]
  | false => simp [needsAd, adBits]

/-- The page tables age in every cycle. -/
theorem WalkOk.aging (w : s.WalkOk satp m) (v : Serves (satpPpn satp) i s m m') :
    Aging (satpPpn satp) m.pte m'.pte := by
  intro x hx
  have same : ∀ o : Option Pte, Option.Rel Pte.Aged o o := by
    intro o
    cases o with
    | none => exact .none
    | some p => exact .some (Pte.Aged.refl p)
  rcases v.kept x hx with h | ⟨hs, rfl, h⟩
  · rw [h]
    exact same _
  · have u : s.Updating satp m := by simpa only [WalkOk, hs] using w
    rw [h]
    rcases u.entry with he | he
    · rw [he]
      exact .some (aged_adBits _ (leaf_of_accepted u.accepted))
    · rw [he]
      exact same _

/-- What the walker is at stays as it is, unless the walker writes it. -/
theorem Serves.same (v : Serves (satpPpn satp) i s m m') (hs : s.ptwState ≠ .adWait)
    (hp : s.AtEntry satp m superpage) :
    m'.pte (widen s.walkPteAddr) = m.pte (widen s.walkPteAddr) := by
  rcases v.kept _ hp.inTables with h | ⟨h, -⟩
  · exact h
  · exact absurd h hs

/-! ## One step -/

/-- A walk starts at its root. -/
theorem walkOk_start {va : Word} (hva : s'.walkVaddr = va)
    (haddr : s'.walkPteAddr = pteAddr (satpPpn satp) (vpn1Of va))
    (hpage : s'.walkPageFault = false)
    (hacc : s'.walkAccessFault = pteUnreachable (satpPpn satp) (vpn1Of va))
    (hst : s'.ptwState = if pteUnreachable (satpPpn satp) (vpn1Of va) then .fault else .l1Wait) :
    s'.WalkOk satp m := by
  cases hu : pteUnreachable (satpPpn satp) (vpn1Of va) with
  | true =>
      have hs : s'.ptwState = .fault := by rw [hst, hu]; rfl
      simp only [WalkOk, hs]
      refine .access hpage (hacc.trans hu) ?_
      rw [hva]
      exact Sv32.walk_none (Memories.pte_unreachable hu)
  | false =>
      have hs : s'.ptwState = .l1Wait := by rw [hst, hu]; rfl
      simp only [WalkOk, hs]
      refine ⟨?_, hpage, hacc.trans hu⟩
      rw [AtEntry, haddr, hva, ← pteAt_eq_widen hu]
      exact .root

theorem walkOk_of_idle (hs : s.ptwState = .idle) (hsatp : i.ctx.satp = satp) :
    (s.next i).WalkOk satp m' := by
  subst hsatp
  rw [next_idle hs, ptwIdle]
  by_cases hd : s.dataWalkStart i = true
  · rw [if_pos hd]
    exact walkOk_start rfl rfl rfl rfl rfl
  · rw [if_neg hd]
    by_cases hi : s.instrWalkStart i = true
    · rw [if_pos hi]
      exact walkOk_start rfl rfl rfl rfl rfl
    · rw [if_neg hi]
      have hstate : (s.settle i).ptwState = .idle := hs
      simp only [WalkOk, hstate]

/-- The entry arrives, or is still waited for. -/
theorem Waiting.next (a : s.Waiting satp m superpage) (v : Serves (satpPpn satp) i s m m')
    (g : Aging (satpPpn satp) m.pte m'.pte) (hact : s.walkActive = true) (done : PtwState) :
    (i.physData.ack = true →
      { s.settle i with walkPte := i.physData.datR, ptwState := done }.Checking satp m' superpage) ∧
      (s.settle i).Waiting satp m' superpage := by
  have hwait : (s.settle i).Waiting satp m' superpage := ⟨a.place.aged g, a.noPage, a.noAccess⟩
  refine ⟨fun hack => ⟨⟨hwait.place, hwait.noPage, hwait.noAccess⟩, ?_⟩, hwait⟩
  have hs : s.ptwState ≠ .adWait := by
    intro hs
    simp [walkActive, hs] at hact
  exact (v.same hs a.place).trans (v.reads hact hack)

/-- The walk fails with the entry that it looks at. -/
theorem walkOk_page (hst : s'.ptwState = .fault) (hpage : s'.walkPageFault = true)
    (hacc : s'.walkAccessFault = false) (place : s'.AtEntry satp m superpage)
    (entry : m.pte (widen s'.walkPteAddr) = some s'.walkPte)
    (ends : superpage = true → Pte.malformed s'.walkPte = true ∨ Pte.leaf s'.walkPte = true)
    (denied : Pte.accepted superpage s'.walkPte = true → s'.walkPermissionOk = false) :
    s'.WalkOk satp m := by
  simp only [WalkOk, hst]
  refine .page hpage hacc place entry ends ?_
  cases ha : Pte.accepted superpage s'.walkPte with
  | true => exact denied ha
  | false => rfl

/-- The walk ends with the leaf that it looks at. -/
theorem walkOk_acceptLeaf {s1 : Mmu} (place : s1.AtEntry satp m superpage)
    (hpte : s1.walkPte = s.walkPte) (hstore : s1.walkStore = s.walkStore)
    (entry : m.pte (widen s1.walkPteAddr) = some s1.walkPte)
    (accepted : Pte.accepted superpage s1.walkPte = true) :
    (acceptLeaf superpage s s1).WalkOk satp m := by
  cases hn : needsAd s.walkPte s.walkStore with
  | true =>
      have hst : (acceptLeaf superpage s s1).ptwState = .adWait := by simp [acceptLeaf, hn]
      simp only [WalkOk, hst]
      exact ⟨place, accepted, .inl entry⟩
  | false =>
      have hst : (acceptLeaf superpage s s1).ptwState = .fill := by simp [acceptLeaf, hn]
      simp only [WalkOk, hst]
      refine ⟨place, accepted, entry, ?_⟩
      show needsAd s1.walkPte s1.walkStore = false
      rw [hpte, hstore]
      exact hn

/-- The entry of the first level is a pointer that leads on, or the walk ends with it. -/
theorem Checking.l1_next (a : s.Checking satp m true) (hs : s.ptwState = .l1Check)
    (v : Serves (satpPpn satp) i s m m') (g : Aging (satpPpn satp) m.pte m'.pte) :
    (s.next i).WalkOk satp m' := by
  have hentry : m'.pte (widen s.walkPteAddr) = some s.walkPte :=
    (v.same (by rw [hs]; decide) a.place).trans a.entry
  have hplace := a.place.aged g
  rw [Mmu.next_l1Check hs, ptwL1Check]
  dsimp only
  cases hm : pteInvalid s.walkPte with
  | true =>
      have hdenied : Pte.accepted true s.walkPte = true → s.walkPermissionOk = false := by
        intro hacc
        have hm' : Pte.malformed s.walkPte = true := hm
        simp [Pte.accepted, hm'] at hacc
      rw [if_pos rfl]
      exact walkOk_page rfl rfl a.noAccess hplace hentry (fun _ => .inl hm) hdenied
  | false =>
      have hm' : Pte.malformed s.walkPte = false := hm
      rw [if_neg (by decide)]
      cases hl : pteLeaf s.walkPte with
      | true =>
          have hl' : Pte.leaf s.walkPte = true := hl
          rw [if_pos rfl]
          split
          · rename_i hbad
            have hdenied : Pte.accepted true s.walkPte = true → s.walkPermissionOk = false := by
              intro hacc
              simp only [Pte.accepted, Bool.true_and, Bool.and_eq_true, Bool.not_eq_true'] at hacc
              have hal : (s.walkPte.extractLsb' 10 10 != 0#10) = false := hacc.2
              simpa [hal] using hbad
            exact walkOk_page rfl rfl a.noAccess hplace hentry (fun _ => .inr hl) hdenied
          · rename_i hgood
            rw [Bool.or_eq_true, not_or] at hgood
            have hal : Pte.misaligned s.walkPte = false := Bool.eq_false_of_not_eq_true hgood.1
            have hacc : Pte.accepted true s.walkPte = true := by
              simp [Pte.accepted, hm', hl', hal]
            exact walkOk_acceptLeaf hplace rfl rfl hentry hacc
      | false =>
          have hbelow : LeadsTo m'.pte (satpPpn satp) s.walkVaddr false
              (Sv32.pteAt (ptePpn s.walkPte) (vpn0Of s.walkVaddr)) := by
            have hroot : LeadsTo m.pte (satpPpn satp) s.walkVaddr true (widen s.walkPteAddr) :=
              a.place
            generalize widen s.walkPteAddr = x at hroot hentry
            cases hroot with
            | root => exact .below hentry hm hl
          rw [if_neg (by decide)]
          cases hu : pteUnreachable (ptePpn s.walkPte) (vpn0Of s.walkVaddr) with
          | true =>
              refine .access a.noPage rfl ?_
              exact hbelow.none (Memories.pte_unreachable hu)
          | false =>
              refine ⟨?_, a.noPage, a.noAccess⟩
              rw [pteAt_eq_widen hu] at hbelow
              exact hbelow

/-- The walk ends with the entry of the second level. -/
theorem Checking.l0_next (a : s.Checking satp m false) (hs : s.ptwState = .l0Check)
    (v : Serves (satpPpn satp) i s m m') (g : Aging (satpPpn satp) m.pte m'.pte) :
    (s.next i).WalkOk satp m' := by
  have hentry : m'.pte (widen s.walkPteAddr) = some s.walkPte :=
    (v.same (by rw [hs]; decide) a.place).trans a.entry
  have hplace := a.place.aged g
  rw [Mmu.next_l0Check hs, ptwL0Check]
  dsimp only
  split
  · rename_i hbad
    have hdenied : Pte.accepted false s.walkPte = true → s.walkPermissionOk = false := by
      intro hacc
      simp only [Pte.accepted, Bool.false_and, Bool.not_false, Bool.and_true, Bool.and_eq_true,
        Bool.not_eq_true'] at hacc
      have hm : pteInvalid s.walkPte = false := hacc.1
      have hl : pteLeaf s.walkPte = true := hacc.2
      simpa [hm, hl] using hbad
    exact walkOk_page rfl rfl a.noAccess hplace hentry (fun h => absurd h (by decide)) hdenied
  · rename_i hgood
    simp only [Bool.or_eq_true, not_or, Bool.not_eq_true, Bool.not_eq_false'] at hgood
    have hm : Pte.malformed s.walkPte = false := hgood.1.1
    have hl : Pte.leaf s.walkPte = true := hgood.1.2
    have hacc : Pte.accepted false s.walkPte = true := by simp [Pte.accepted, hm, hl]
    exact walkOk_acceptLeaf hplace rfl rfl hentry hacc

theorem Updating.next (a : s.Updating satp m) (hs : s.ptwState = .adWait)
    (v : Serves (satpPpn satp) i s m m') (g : Aging (satpPpn satp) m.pte m'.pte) :
    (s.next i).WalkOk satp m' := by
  have hplace := a.place.aged g
  rw [Mmu.next_adWait hs, ptwAdWait]
  cases hack : i.physData.ack with
  | true =>
      rw [if_pos rfl]
      exact ⟨hplace, accepted_adBits _ a.accepted, v.written hs hack, needsAd_adBits _ _⟩
  | false =>
      have hst : (s.settle i).ptwState = .adWait := hs
      rw [if_neg (by decide)]
      simp only [WalkOk, hst]
      refine ⟨hplace, a.accepted, ?_⟩
      rcases v.kept _ a.place.inTables with h | ⟨-, -, h⟩
      · exact a.entry.imp h.trans h.trans
      · exact .inr h

/-- A failed walk waits for the data request, or is over. -/
theorem Failed.next (a : s.Failed satp m) (hs : s.ptwState = .fault)
    (v : Serves (satpPpn satp) i s m m') (g : Aging (satpPpn satp) m.pte m'.pte) :
    (s.next i).WalkOk satp m' := by
  have hstays : (s.settle i).Failed satp m' := by
    cases a with
    | page page noAccess place entry ends denied =>
        exact .page page noAccess (place.aged g)
          ((v.same (by rw [hs]; decide) place).trans entry) ends denied
    | access noPage access ends =>
        refine .access noPage access ?_
        have hend := Sv32.walk_aged g s.walkVaddr
        rw [ends] at hend
        show Sv32.walk m'.pte (satpPpn satp) s.walkVaddr = .accessFault
        generalize Sv32.walk m'.pte (satpPpn satp) s.walkVaddr = o at hend
        cases hend
        rfl
  have hst : (s.settle i).ptwState = .fault := hs
  rw [Mmu.next_fault hs, ptwFault]
  split
  · trivial
  · split
    · trivial
    · split
      · trivial
      · simp only [WalkOk, hst]
        exact hstays

/-- **Step.** The walker stays on the reference walk. -/
theorem WalkOk.next (w : s.WalkOk satp m) (v : Serves (satpPpn satp) i s m m')
    (hsatp : i.ctx.satp = satp) : (s.next i).WalkOk satp m' := by
  have g := w.aging v
  cases hs : s.ptwState with
  | idle => exact walkOk_of_idle hs hsatp
  | l1Capture => simp only [WalkOk, hs] at w
  | l0Capture => simp only [WalkOk, hs] at w
  | l1Check =>
      simp only [WalkOk, hs] at w
      exact w.l1_next hs v g
  | l0Check =>
      simp only [WalkOk, hs] at w
      exact w.l0_next hs v g
  | adWait =>
      simp only [WalkOk, hs] at w
      exact w.next hs v g
  | fault =>
      simp only [WalkOk, hs] at w
      exact w.next hs v g
  | fill =>
      rw [next_fill hs, ptwFill]
      split
      · trivial
      · split
        · trivial
        · trivial
  | l1Wait =>
      simp only [WalkOk, hs] at w
      have hnext := w.next v g (by simp [walkActive, hs]) .l1Check
      have hst : (s.settle i).ptwState = .l1Wait := hs
      rw [next_l1Wait hs, ptwWait]
      split
      · rename_i hack
        exact hnext.1 hack
      · simp only [WalkOk, hst]
        exact hnext.2
  | l0Wait =>
      simp only [WalkOk, hs] at w
      have hnext := w.next v g (by simp [walkActive, hs]) .l0Check
      have hst : (s.settle i).ptwState = .l0Wait := hs
      rw [next_l0Wait hs, ptwWait]
      split
      · rename_i hack
        exact hnext.1 hack
      · simp only [WalkOk, hst]
        exact hnext.2

end Mmu

end MelonSoc
