import Mathlib.Data.BitVec

set_option autoImplicit false

/-! # Sv32 address translation

The walk of two levels of page tables, over a function that reads an entry at a physical address
of 34 bits where there is one. An implementation may set the A and D bits of leaves as time goes
by; `Aging` says that nothing else has happened to the tables, and `walk_aged` that every walk then
ends as it did before.
-/

namespace Sv32

/-- A page-table entry. -/
abbrev Pte := BitVec 32

namespace Pte

def valid (p : Pte) : Bool := p.getLsbD 0
def readable (p : Pte) : Bool := p.getLsbD 1
def writable (p : Pte) : Bool := p.getLsbD 2
def executable (p : Pte) : Bool := p.getLsbD 3
def user (p : Pte) : Bool := p.getLsbD 4
def accessed (p : Pte) : Bool := p.getLsbD 6
def dirty (p : Pte) : Bool := p.getLsbD 7
def ppn (p : Pte) : BitVec 22 := p.extractLsb' 10 22

/-- Not valid, or writable and not readable. -/
def malformed (p : Pte) : Bool := !p.valid || (!p.readable && p.writable)

def leaf (p : Pte) : Bool := p.readable || p.executable

/-- The low half of the page number is not zero, which a superpage must have. -/
def misaligned (p : Pte) : Bool := p.extractLsb' 10 10 != 0#10

end Pte

/-! ## The walk -/

def vpn1 (va : BitVec 32) : BitVec 10 := va.extractLsb' 22 10
def vpn0 (va : BitVec 32) : BitVec 10 := va.extractLsb' 12 10

/-- The address of the entry `index` of the page table with page number `ppn`. -/
def pteAt (ppn : BitVec 22) (index : BitVec 10) : BitVec 34 := ppn ++ index ++ 0#2

inductive Outcome
  | pageFault
  | accessFault
  | leaf (superpage : Bool) (pte : Pte)

section Walk

variable (read : BitVec 34 → Option Pte)

/-- The walk below the pointer `p1`. -/
def secondLevel (p1 : Pte) (va : BitVec 32) : Outcome :=
  match read (pteAt p1.ppn (vpn0 va)) with
  | none => .accessFault
  | some p => if p.malformed || !p.leaf then .pageFault else .leaf false p

/-- The walk from the table with page number `root`. -/
def walk (root : BitVec 22) (va : BitVec 32) : Outcome :=
  match read (pteAt root (vpn1 va)) with
  | none => .accessFault
  | some p =>
      if p.malformed then .pageFault
      else if p.leaf then (if p.misaligned then .pageFault else .leaf true p)
      else secondLevel read p va

end Walk

/-! ## The access -/

inductive Access
  | load
  | store
  | fetch

/-- What the access is made in: the privilege, user or supervisor, and the two bits that widen it. -/
structure Mode where
  user : Bool
  sum : Bool
  mxr : Bool

/-- The leaf `p` grants the access. -/
def Pte.grants (a : Access) (c : Mode) (p : Pte) : Bool :=
  let reaches := if c.user then p.user else !p.user || c.sum
  match a with
  | .load => reaches && (p.readable || (c.mxr && p.executable))
  | .store => reaches && p.writable
  | .fetch => p.executable && (if c.user then p.user else !p.user)

/-- The physical address of `va` behind the leaf `p`. -/
def Pte.target (superpage : Bool) (p : Pte) (va : BitVec 32) : BitVec 34 :=
  if superpage then p.ppn.extractLsb' 10 12 ++ va.extractLsb' 0 22 else p.ppn ++ va.extractLsb' 0 12

inductive Translation
  | pageFault
  | accessFault
  | ok (pa : BitVec 34) (pte : Pte)
  deriving DecidableEq

/-- The translation of an access, when the machine has the physical addresses `present`. -/
def translate (read : BitVec 34 → Option Pte) (present : BitVec 34 → Bool) (root : BitVec 22)
    (a : Access) (c : Mode) (va : BitVec 32) : Translation :=
  match walk read root va with
  | .pageFault => .pageFault
  | .accessFault => .accessFault
  | .leaf superpage p =>
      if p.grants a c then
        (if present (p.target superpage va) then .ok (p.target superpage va) p else .accessFault)
      else .pageFault

/-! ## Where a walk ends -/

section Lemmas

variable {read : BitVec 34 → Option Pte} {root : BitVec 22} {va va' : BitVec 32} {p p1 : Pte}

theorem walk_none (h : read (pteAt root (vpn1 va)) = none) : walk read root va = .accessFault := by
  simp [walk, h]

theorem walk_malformed (h : read (pteAt root (vpn1 va)) = some p) (hm : p.malformed = true) :
    walk read root va = .pageFault := by
  simp [walk, h, hm]

theorem walk_superpage (h : read (pteAt root (vpn1 va)) = some p) (hm : p.malformed = false)
    (hl : p.leaf = true) :
    walk read root va = if p.misaligned then .pageFault else .leaf true p := by
  simp [walk, h, hm, hl]

theorem walk_pointer (h : read (pteAt root (vpn1 va)) = some p1) (hm : p1.malformed = false)
    (hl : p1.leaf = false) : walk read root va = secondLevel read p1 va := by
  simp [walk, h, hm, hl]

theorem secondLevel_none (h : read (pteAt p1.ppn (vpn0 va)) = none) :
    secondLevel read p1 va = .accessFault := by
  simp [secondLevel, h]

theorem secondLevel_some (h : read (pteAt p1.ppn (vpn0 va)) = some p) :
    secondLevel read p1 va = if p.malformed || !p.leaf then .pageFault else .leaf false p := by
  simp [secondLevel, h]

/-- A walk looks at the two page numbers of the address only. -/
theorem walk_congr (h1 : vpn1 va = vpn1 va') (h0 : vpn0 va = vpn0 va') :
    walk read root va = walk read root va' := by
  unfold walk secondLevel
  rw [h1, h0]

/-- A walk to a superpage looks at the upper one only. -/
theorem walk_superpage_congr (h1 : vpn1 va = vpn1 va')
    (h : walk read root va = .leaf true p) : walk read root va' = .leaf true p := by
  unfold walk at h ⊢
  rw [← h1]
  cases hr : read (pteAt root (vpn1 va)) with
  | none =>
      rw [hr] at h
      cases h
  | some q =>
      rw [hr] at h
      dsimp only at h ⊢
      split at h
      · cases h
      · rename_i hm
        rw [if_neg hm]
        split at h
        · rename_i hl
          rw [if_pos hl]
          exact h
        · unfold secondLevel at h
          split at h
          · cases h
          · split at h
            · cases h
            · cases h

section Translate

variable {present : BitVec 34 → Bool} {a : Access} {c : Mode} {superpage : Bool}

theorem translate_pageFault (h : walk read root va = .pageFault) :
    translate read present root a c va = .pageFault := by
  simp [translate, h]

theorem translate_accessFault (h : walk read root va = .accessFault) :
    translate read present root a c va = .accessFault := by
  simp [translate, h]

theorem translate_denied (h : walk read root va = .leaf superpage p)
    (hg : p.grants a c = false) : translate read present root a c va = .pageFault := by
  simp [translate, h, hg]

theorem translate_granted (h : walk read root va = .leaf superpage p)
    (hg : p.grants a c = true) : translate read present root a c va =
      if present (p.target superpage va) then .ok (p.target superpage va) p else .accessFault := by
  simp [translate, h, hg]

end Translate

/-! ## Aging -/

/-- `p'` is `p` but for bits A and D that have been set, in a leaf. -/
structure Pte.Aged (p p' : Pte) : Prop where
  bit : ∀ k, k ≠ 6 → k ≠ 7 → p'.getLsbD k = p.getLsbD k
  accessed : p.accessed = true → p'.accessed = true
  dirty : p.dirty = true → p'.dirty = true
  pointer : p.leaf = false → p' = p

theorem Pte.Aged.refl (p : Pte) : p.Aged p where
  bit := fun _ _ _ => rfl
  accessed := id
  dirty := id
  pointer := fun _ => rfl

/-- Setting A or D of a leaf ages it. -/
theorem Pte.aged_or {m : Pte} (hl : p.leaf = true)
    (hm : ∀ k, k ≠ 6 → k ≠ 7 → m.getLsbD k = false) : p.Aged (p ||| m) where
  bit := by
    intro k h6 h7
    rw [BitVec.getLsbD_or, hm k h6 h7, Bool.or_false]
  accessed := by
    intro h
    rw [accessed, BitVec.getLsbD_or, Bool.or_eq_true]
    exact .inl h
  dirty := by
    intro h
    rw [dirty, BitVec.getLsbD_or, Bool.or_eq_true]
    exact .inl h
  pointer := by
    intro h
    rw [hl] at h
    cases h

section Aged

variable {p' : Pte} (h : p.Aged p')

include h

theorem Pte.Aged.field (start len : Nat) (hs : 7 < start) :
    p'.extractLsb' start len = p.extractLsb' start len := by
  refine BitVec.eq_of_getLsbD_eq fun k hk => ?_
  rw [BitVec.getLsbD_extractLsb', BitVec.getLsbD_extractLsb', h.bit (start + k) (by omega) (by omega)]

theorem Pte.Aged.ppn_eq : p'.ppn = p.ppn := h.field 10 22 (by decide)

theorem Pte.Aged.misaligned_eq : p'.misaligned = p.misaligned := by
  unfold misaligned
  rw [h.field 10 10 (by decide)]

theorem Pte.Aged.readable_eq : p'.readable = p.readable := h.bit 1 (by decide) (by decide)

theorem Pte.Aged.writable_eq : p'.writable = p.writable := h.bit 2 (by decide) (by decide)

theorem Pte.Aged.executable_eq : p'.executable = p.executable := h.bit 3 (by decide) (by decide)

theorem Pte.Aged.user_eq : p'.user = p.user := h.bit 4 (by decide) (by decide)

theorem Pte.Aged.leaf_eq : p'.leaf = p.leaf := by
  rw [leaf, h.readable_eq, h.executable_eq, leaf]

theorem Pte.Aged.malformed_eq : p'.malformed = p.malformed := by
  have hv : p'.valid = p.valid := h.bit 0 (by decide) (by decide)
  rw [malformed, hv, h.readable_eq, h.writable_eq, malformed]

end Aged

/-- An address of the page tables: of the root, or of a table that one of its entries leads to. -/
def InTables (read : BitVec 34 → Option Pte) (root : BitVec 22) (x : BitVec 34) : Prop :=
  (∃ k, x = pteAt root k) ∨
    ∃ k p j, read (pteAt root k) = some p ∧ p.malformed = false ∧ p.leaf = false ∧
      x = pteAt p.ppn j

/-- Entries are aligned. -/
theorem InTables.aligned {x : BitVec 34} (h : InTables read root x) : x.extractLsb' 0 2 = 0#2 := by
  have hat : ∀ (ppn : BitVec 22) (index : BitVec 10), (pteAt ppn index).extractLsb' 0 2 = 0#2 := by
    intro ppn index
    refine BitVec.eq_of_getLsbD_eq fun k hk => ?_
    simp only [pteAt, BitVec.getLsbD_extractLsb', BitVec.getLsbD_append, Nat.zero_add]
    rw [if_pos hk]
    simp
  rcases h with ⟨k, rfl⟩ | ⟨k, p, j, -, -, -, rfl⟩
  · exact hat _ _
  · exact hat _ _

/-- The page tables have aged. -/
def Aging (root : BitVec 22) (read read' : BitVec 34 → Option Pte) : Prop :=
  ∀ x, InTables read root x → Option.Rel Pte.Aged (read x) (read' x)

variable {read' : BitVec 34 → Option Pte}

/-- An entry before and after. -/
theorem Aging.entry (g : Aging root read read') {x : BitVec 34} (h : InTables read root x) :
    (read x = none ∧ read' x = none) ∨
      ∃ p p', read x = some p ∧ read' x = some p' ∧ p.Aged p' := by
  have hrel := g x h
  generalize read x = o at hrel
  generalize read' x = o' at hrel
  cases hrel with
  | none => exact .inl ⟨rfl, rfl⟩
  | some ha => exact .inr ⟨_, _, rfl, rfl, ha⟩

/-- A pointer has not changed. -/
theorem Aging.pointer (g : Aging root read read') {k : BitVec 10}
    (h : read' (pteAt root k) = some p) (hl : p.leaf = false) : read (pteAt root k) = some p := by
  rcases g.entry (.inl ⟨k, rfl⟩) with ⟨-, hr'⟩ | ⟨q, q', hr, hr', ha⟩
  · rw [hr'] at h
    cases h
  · rw [hr'] at h
    cases h
    rw [hr, ha.pointer (ha.leaf_eq.symm.trans hl)]

/-- The tables stay where they are. -/
theorem Aging.inTables (g : Aging root read read') {x : BitVec 34}
    (h : InTables read' root x) : InTables read root x := by
  rcases h with hroot | ⟨k, p, j, hr, hm, hl, hx⟩
  · exact .inl hroot
  · exact .inr ⟨k, p, j, g.pointer hr hl, hm, hl, hx⟩

/-- Two walks that end in the same way, up to the age of the leaf. -/
inductive Outcome.Aged : Outcome → Outcome → Prop
  | pageFault : Outcome.Aged .pageFault .pageFault
  | accessFault : Outcome.Aged .accessFault .accessFault
  | leaf {superpage : Bool} {p p' : Pte} (h : p.Aged p') :
      Outcome.Aged (.leaf superpage p) (.leaf superpage p')

/-- The walk for `va` comes to the entry at `x`, of the first level if `superpage` is set. -/
inductive LeadsTo (read : BitVec 34 → Option Pte) (root : BitVec 22) (va : BitVec 32) :
    Bool → BitVec 34 → Prop
  | root : LeadsTo read root va true (pteAt root (vpn1 va))
  | below {p1 : Pte} (h : read (pteAt root (vpn1 va)) = some p1) (hm : p1.malformed = false)
      (hl : p1.leaf = false) : LeadsTo read root va false (pteAt p1.ppn (vpn0 va))

/-- A walk that comes to `p` finds what it looks for. -/
def Pte.accepted (superpage : Bool) (p : Pte) : Bool :=
  !p.malformed && p.leaf && !(superpage && p.misaligned)

section LeadsTo

variable {superpage : Bool} {x : BitVec 34}

theorem LeadsTo.inTables (l : LeadsTo read root va superpage x) : InTables read root x := by
  cases l with
  | root => exact .inl ⟨_, rfl⟩
  | below h hm hl => exact .inr ⟨_, _, _, h, hm, hl, rfl⟩

theorem LeadsTo.none (l : LeadsTo read root va superpage x) (h : read x = none) :
    walk read root va = .accessFault := by
  cases l with
  | root => exact walk_none h
  | below h1 hm hl =>
      rw [walk_pointer h1 hm hl]
      exact secondLevel_none h

/-- The walk ends where it has come to, unless it has come to a pointer. -/
theorem LeadsTo.ends (l : LeadsTo read root va superpage x) (h : read x = some p)
    (hp : superpage = true → p.malformed = true ∨ p.leaf = true) :
    walk read root va = if p.accepted superpage then .leaf superpage p else .pageFault := by
  cases l with
  | root =>
      cases hm : p.malformed with
      | true => simp [walk_malformed h hm, Pte.accepted, hm]
      | false =>
          have hl : p.leaf = true := by simpa [hm] using hp rfl
          rw [walk_superpage h hm hl]
          cases ha : p.misaligned with
          | true => simp [Pte.accepted, ha]
          | false => simp [Pte.accepted, ha, hm, hl]
  | below h1 hm1 hl1 =>
      rw [walk_pointer h1 hm1 hl1, secondLevel_some h]
      cases hm : p.malformed with
      | true => simp [Pte.accepted, hm]
      | false =>
          cases hl : p.leaf with
          | true => simp [Pte.accepted, hm, hl]
          | false => simp [Pte.accepted, hl]

theorem LeadsTo.aged (l : LeadsTo read root va superpage x) (g : Aging root read read') :
    LeadsTo read' root va superpage x := by
  cases l with
  | root => exact .root
  | below h hm hl =>
      rcases g.entry (.inl ⟨_, rfl⟩) with ⟨hr, -⟩ | ⟨q, q', hr, hr', ha⟩
      · rw [hr] at h
        cases h
      · rw [hr] at h
        cases h
        rw [ha.pointer hl] at hr'
        exact .below hr' hm hl

end LeadsTo

theorem Aging.secondLevel (g : Aging root read read') (h : read (pteAt root (vpn1 va)) = some p1)
    (hm : p1.malformed = false) (hl : p1.leaf = false) :
    (secondLevel read p1 va).Aged (secondLevel read' p1 va) := by
  rcases g.entry (.inr ⟨_, p1, vpn0 va, h, hm, hl, rfl⟩) with ⟨hr, hr'⟩ | ⟨p, p', hr, hr', ha⟩
  · rw [secondLevel_none hr, secondLevel_none hr']
    exact .accessFault
  · rw [secondLevel_some hr, secondLevel_some hr', ha.malformed_eq, ha.leaf_eq]
    split
    · exact .pageFault
    · exact .leaf ha

/-- **Aging.** A walk of tables that have aged ends as it did before. -/
theorem walk_aged (g : Aging root read read') (va : BitVec 32) :
    (walk read root va).Aged (walk read' root va) := by
  rcases g.entry (.inl ⟨vpn1 va, rfl⟩) with ⟨hr, hr'⟩ | ⟨p, p', hr, hr', ha⟩
  · rw [walk_none hr, walk_none hr']
    exact .accessFault
  · cases hm : p.malformed with
    | true =>
        rw [walk_malformed hr hm, walk_malformed hr' (ha.malformed_eq.trans hm)]
        exact .pageFault
    | false =>
        have hm' : p'.malformed = false := ha.malformed_eq.trans hm
        cases hl : p.leaf with
        | true =>
            rw [walk_superpage hr hm hl, walk_superpage hr' hm' (ha.leaf_eq.trans hl),
              ha.misaligned_eq]
            split
            · exact .pageFault
            · exact .leaf ha
        | false =>
            rw [ha.pointer hl] at hr' hm'
            rw [walk_pointer hr hm hl, walk_pointer hr' hm' hl]
            exact g.secondLevel hr hm hl

end Lemmas

end Sv32
