import MelonSoc.Bus.Control

set_option autoImplicit false

/-! # What a step of the walker touches

Between its start and its end a walk reads entries and moves through its states, and leaves
everything else to the assignments above the `case`. A walk ends in `PTW_FILL` or in `PTW_FAULT`.
-/

namespace MelonSoc

namespace Mmu

/-- The TLBs, the pending fault and the registers of the walk but those that the checks write. -/
structure SameWalk (s s' : Mmu) : Prop where
  dtlb : s'.dtlb = s.dtlb
  itlb : s'.itlb = s.itlb
  dtlbReplace : s'.dtlbReplace = s.dtlbReplace
  itlbReplace : s'.itlbReplace = s.itlbReplace
  walkVaddr : s'.walkVaddr = s.walkVaddr
  walkStore : s'.walkStore = s.walkStore
  walkIsInstr : s'.walkIsInstr = s.walkIsInstr
  walkPriv : s'.walkPriv = s.walkPriv
  walkAsid : s'.walkAsid = s.walkAsid
  walkSum : s'.walkSum = s.walkSum
  walkMxr : s'.walkMxr = s.walkMxr
  walkKilled : s'.walkKilled = s.walkKilled
  instrFaultPending : s'.instrFaultPending = s.instrFaultPending
  instrFaultVaddr : s'.instrFaultVaddr = s.instrFaultVaddr

theorem sameWalk_of_entry (s : Mmu) (state : PtwState) (pteAddr pte : Word)
    (glob superpage pageFault accessFault : Bool) : s.SameWalk
      { s with
        ptwState := state, walkPteAddr := pteAddr, walkPte := pte, walkGlobal := glob
        walkSuperpage := superpage, walkPageFault := pageFault, walkAccessFault := accessFault } :=
  ⟨rfl, rfl, rfl, rfl, rfl, rfl, rfl, rfl, rfl, rfl, rfl, rfl, rfl, rfl⟩

/-- The walker is between the start and the end of a walk. -/
def walking (s : Mmu) : Bool := s.ptwState != .idle && s.ptwState != .fill && s.ptwState != .fault

variable {i : MmuIn} {s : Mmu}

/-- A walk in progress leaves its context and the TLBs alone. -/
theorem next_of_walking (h : s.walking = true) : (s.settle i).SameWalk (s.next i) := by
  have hwait : ∀ done, (s.settle i).SameWalk (ptwWait i (s.settle i) done) := by
    intro done
    unfold ptwWait
    split
    all_goals exact sameWalk_of_entry _ _ _ _ _ _ _ _
  cases hs : s.ptwState with
  | idle => simp [walking, hs] at h
  | fill => simp [walking, hs] at h
  | fault => simp [walking, hs] at h
  | l1Wait =>
      rw [next_l1Wait hs]
      exact hwait _
  | l0Wait =>
      rw [next_l0Wait hs]
      exact hwait _
  | l1Capture =>
      simp only [next, hs]
      exact sameWalk_of_entry _ _ _ _ _ _ _ _
  | l0Capture =>
      simp only [next, hs]
      exact sameWalk_of_entry _ _ _ _ _ _ _ _
  | l1Check =>
      rw [next_l1Check hs, ptwL1Check]
      dsimp only
      repeat' split
      all_goals exact sameWalk_of_entry _ _ _ _ _ _ _ _
  | l0Check =>
      rw [next_l0Check hs, ptwL0Check]
      dsimp only
      split
      all_goals exact sameWalk_of_entry _ _ _ _ _ _ _ _
  | adWait =>
      rw [next_adWait hs, ptwAdWait]
      split
      all_goals exact sameWalk_of_entry _ _ _ _ _ _ _ _

/-- A walk comes from its start or was in progress. -/
theorem walking_next (h : (s.next i).ptwState ≠ .idle) :
    s.ptwState = .idle ∨ s.walking = true ∨ (s.ptwState = .fault ∧ (s.next i).ptwState = .fault) := by
  cases hs : s.ptwState with
  | idle => exact .inl rfl
  | fill =>
      refine absurd ?_ h
      rw [next_fill hs, ptwFill]
      repeat' split
      all_goals rfl
  | fault =>
      refine .inr (.inr ⟨rfl, ?_⟩)
      rw [next_fault hs, ptwFault] at h ⊢
      revert h
      split
      · exact fun h => absurd rfl h
      · split
        · exact fun h => absurd rfl h
        · split
          · exact fun h => absurd rfl h
          · exact fun _ => hs
  | _ => exact .inr (.inl (by simp [walking, hs]))

/-! ## The TLBs -/

/-- The walk fills an entry. -/
def fills (s : Mmu) : Bool := s.ptwState == .fill && !s.walkKilled

theorem settle_dtlb {j : Fin 4} (h : ((s.settle i).dtlb j).valid = true) :
    (s.settle i).dtlb j = s.dtlb j ∧ i.sfenceVma = false := by
  cases hs : i.sfenceVma with
  | true => simp [settle, hs, Tlb.invalidate] at h
  | false => simp [settle, hs]

theorem settle_itlb {j : Fin 4} (h : ((s.settle i).itlb j).valid = true) :
    (s.settle i).itlb j = s.itlb j ∧ i.sfenceVma = false := by
  cases hs : i.sfenceVma with
  | true => simp [settle, hs, Tlb.invalidate] at h
  | false => simp [settle, hs]

/-- Outside of `PTW_IDLE` and `PTW_FILL` the walker does not touch the TLBs. -/
theorem next_tlbs (h1 : s.ptwState ≠ .idle) (h2 : s.ptwState ≠ .fill) :
    (s.next i).dtlb = (s.settle i).dtlb ∧ (s.next i).itlb = (s.settle i).itlb := by
  by_cases h3 : s.ptwState = .fault
  · rw [next_fault h3, ptwFault]
    split
    · exact ⟨rfl, rfl⟩
    · split
      · exact ⟨rfl, rfl⟩
      · split
        · exact ⟨rfl, rfl⟩
        · exact ⟨rfl, rfl⟩
  · have same := next_of_walking (i := i) (show s.walking = true by simp [walking, h1, h2, h3])
    exact ⟨same.dtlb, same.itlb⟩

/-- A data walk that starts takes the entry it is to replace out. -/
theorem idle_tlbs (h : s.ptwState = .idle) :
    (∀ j, ((s.next i).dtlb j).valid = true → (s.next i).dtlb j = (s.settle i).dtlb j) ∧
      (s.next i).itlb = (s.settle i).itlb := by
  rw [next_idle h, ptwIdle]
  split
  · refine ⟨fun j => ?_, rfl⟩
    show ((if s.dtlbHit i.ctx i.dReq then _ else _ : Tlb) j).valid = true →
      (if s.dtlbHit i.ctx i.dReq then _ else _ : Tlb) j = _
    split
    · intro hj
      by_cases hk : j = s.dtlb.hitIndex i.ctx.satp i.dReq.vaddr
      · rw [hk, Function.update_self] at hj
        cases hj
      · rw [Function.update_of_ne hk]
    · exact fun _ => rfl
  · split
    · exact ⟨fun _ _ => rfl, rfl⟩
    · exact ⟨fun _ _ => rfl, rfl⟩

/-- A walk that ends in `PTW_FILL` fills one entry, unless it has been killed. -/
theorem fill_tlbs (h : s.ptwState = .fill) :
    (s.next i).dtlb = (if s.fills && !s.walkIsInstr then
      Function.update (s.settle i).dtlb s.dtlbReplace s.fillEntry else (s.settle i).dtlb) ∧
    (s.next i).itlb = (if s.fills && s.walkIsInstr then
      Function.update (s.settle i).itlb s.itlbReplace s.fillEntry else (s.settle i).itlb) := by
  have hfills : s.fills = !s.walkKilled := by simp [fills, h]
  rw [next_fill h, ptwFill, hfills]
  cases s.walkKilled with
  | true => exact ⟨rfl, rfl⟩
  | false =>
      cases s.walkIsInstr with
      | true => exact ⟨rfl, rfl⟩
      | false => exact ⟨rfl, rfl⟩

/-- A valid entry has just been filled, or is the one that was there before, without a fence. -/
theorem next_entry (j : Fin 4) :
    (((s.next i).dtlb j).valid = true →
      ((s.fills && !s.walkIsInstr) = true ∧ j = s.dtlbReplace ∧
          (s.next i).dtlb j = s.fillEntry) ∨
        ((s.next i).dtlb j = s.dtlb j ∧ i.sfenceVma = false)) ∧
    (((s.next i).itlb j).valid = true →
      ((s.fills && s.walkIsInstr) = true ∧ j = s.itlbReplace ∧
          (s.next i).itlb j = s.fillEntry) ∨
        ((s.next i).itlb j = s.itlb j ∧ i.sfenceVma = false)) := by
  by_cases hidle : s.ptwState = .idle
  · obtain ⟨hd, hi⟩ := idle_tlbs (i := i) hidle
    rw [hi]
    refine ⟨fun h => .inr ?_, fun h => .inr (settle_itlb h)⟩
    have he := hd j h
    rw [he] at h ⊢
    exact settle_dtlb h
  · by_cases hfill : s.ptwState = .fill
    · obtain ⟨hd, hi⟩ := fill_tlbs (i := i) hfill
      rw [hd, hi]
      constructor
      · split
        · rename_i hc
          intro h
          by_cases hj : j = s.dtlbReplace
          · subst hj
            exact .inl ⟨hc, rfl, Function.update_self _ _ _⟩
          · rw [Function.update_of_ne hj] at h ⊢
            exact .inr (settle_dtlb h)
        · exact fun h => .inr (settle_dtlb h)
      · split
        · rename_i hc
          intro h
          by_cases hj : j = s.itlbReplace
          · subst hj
            exact .inl ⟨hc, rfl, Function.update_self _ _ _⟩
          · rw [Function.update_of_ne hj] at h ⊢
            exact .inr (settle_itlb h)
        · exact fun h => .inr (settle_itlb h)
    · obtain ⟨hd, hi⟩ := next_tlbs (i := i) hidle hfill
      rw [hd, hi]
      exact ⟨fun h => .inr (settle_dtlb h), fun h => .inr (settle_itlb h)⟩

end Mmu

end MelonSoc
