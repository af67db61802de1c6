import MelonSoc.Bus.Integrity
import MelonSoc.Xlate.Moves

set_option autoImplicit false

/-! # SFENCE.VMA

After a fence the TLBs are to hold only what walks have read since. A history variable notes, for
the walk in progress and for every entry, the first cycle in which the walk was on the bus.
-/

namespace MelonSoc

/-- The cycle, the first cycle of the walk in progress on the bus, and that of the walk that filled
each entry. -/
structure ReadTimes where
  now : Nat
  walk : Nat
  dtlb : Fin 4 → Nat
  itlb : Fin 4 → Nat

def ReadTimes.reset : ReadTimes := { now := 0, walk := 0, dtlb := fun _ => 0, itlb := fun _ => 0 }

namespace Mmu

/-- The times after a cycle; a walk that starts now is on the bus from the next cycle on. -/
def readTimesNext (s : Mmu) (g : ReadTimes) : ReadTimes :=
  { now := g.now + 1
    walk := if s.ptwState == .idle then g.now + 1 else g.walk
    dtlb := if s.fills && !s.walkIsInstr then Function.update g.dtlb s.dtlbReplace g.walk
      else g.dtlb
    itlb := if s.fills && s.walkIsInstr then Function.update g.itlb s.itlbReplace g.walk
      else g.itlb }

/-- The walk in progress is to fill an entry when it comes to its end. -/
def filling (s : Mmu) : Bool := s.ptwState != .idle && s.ptwState != .fault && !s.walkKilled

/-- Every valid entry has been filled by a walk that came on the bus after cycle `k`. -/
structure ReadAfter (k : Nat) (s : Mmu) (g : ReadTimes) : Prop where
  dtlb : ∀ j, (s.dtlb j).valid = true → k < g.dtlb j
  itlb : ∀ j, (s.itlb j).valid = true → k < g.itlb j

/-- A fence in this cycle leaves a walk behind that was on the bus before: a walk that is neither
killed nor at its end with a fault, unless it is for a fetch and killed now, before `PTW_FILL`. -/
def escapesFence (i : MmuIn) (s : Mmu) : Bool :=
  s.filling && !(s.walkIsInstr && i.coreInstr.flush && s.ptwState != .fill)

variable {i : MmuIn} {s : Mmu} {g : ReadTimes} {k : Nat}

/-! ## One step -/

/-- The time of an entry. -/
theorem readTimesNext_entry (j : Fin 4) :
    ((s.readTimesNext g).dtlb j =
      if (s.fills && !s.walkIsInstr) = true ∧ j = s.dtlbReplace then g.walk else g.dtlb j) ∧
    ((s.readTimesNext g).itlb j =
      if (s.fills && s.walkIsInstr) = true ∧ j = s.itlbReplace then g.walk else g.itlb j) := by
  have hupdate : ∀ (c : Bool) (f : Fin 4 → Nat) (k : Fin 4) (v : Nat),
      (if c then Function.update f k v else f) j = if c = true ∧ j = k then v else f j := by
    intro c f k v
    cases c with
    | true => simp [Function.update_apply]
    | false => simp
  exact ⟨hupdate _ _ _ _, hupdate _ _ _ _⟩

/-- A walk that is to fill an entry was to before, or starts now. -/
theorem filling_next (h : (s.next i).filling = true) :
    s.ptwState = .idle ∨
      (s.filling = true ∧ s.ptwState ≠ .fill ∧
        (s.walkIsInstr && i.coreInstr.flush) = false) := by
  simp only [filling, Bool.and_eq_true, bne_iff_ne, ne_eq, Bool.not_eq_true'] at h
  obtain ⟨⟨hidle, hfault⟩, hkilled⟩ := h
  rcases walking_next hidle with h0 | hw | ⟨-, h0⟩
  · exact .inl h0
  · have hkept := (next_of_walking (i := i) hw).walkKilled
    rw [hkilled] at hkept
    simp only [walking, Bool.and_eq_true, bne_iff_ne, ne_eq] at hw
    obtain ⟨⟨h1, h2⟩, h3⟩ := hw
    have hsettle : (if i.coreInstr.flush && s.walkIsInstr && s.ptwState != .idle then true
        else s.walkKilled) = false := hkept.symm
    split at hsettle
    · cases hsettle
    · rename_i hno
      refine .inr ⟨by simp [filling, h1, h3, hsettle], h2, ?_⟩
      simpa [h1, Bool.and_comm] using hno
  · exact absurd h0 hfault

theorem filling_of_fills (h : s.fills = true) : s.filling = true := by
  simp only [fills, Bool.and_eq_true, beq_iff_eq] at h
  simp [filling, h.1, h.2]

/-! ## The invariant -/

/-- The invariant: nothing in the TLBs, and nothing to be filled in, was read up to cycle `k`. -/
structure Fresh (k : Nat) (s : Mmu) (g : ReadTimes) : Prop extends ReadAfter k s g where
  now : k < g.now
  walk : s.filling = true → k < g.walk

theorem Fresh.next (f : s.Fresh k g) : (s.next i).Fresh k (s.readTimesNext g) where
  dtlb := by
    intro j h
    rw [(readTimesNext_entry j).1]
    split
    · rename_i hc
      rw [Bool.and_eq_true] at hc
      exact f.walk (filling_of_fills hc.1.1)
    · rename_i hc
      rcases (next_entry j).1 h with ⟨hfill, hj, -⟩ | ⟨hold, -⟩
      · exact absurd ⟨hfill, hj⟩ hc
      · exact f.dtlb j (hold ▸ h)
  itlb := by
    intro j h
    rw [(readTimesNext_entry j).2]
    split
    · rename_i hc
      rw [Bool.and_eq_true] at hc
      exact f.walk (filling_of_fills hc.1.1)
    · rename_i hc
      rcases (next_entry j).2 h with ⟨hfill, hj, -⟩ | ⟨hold, -⟩
      · exact absurd ⟨hfill, hj⟩ hc
      · exact f.itlb j (hold ▸ h)
  now := Nat.lt_succ_of_lt f.now
  walk := by
    intro h
    show k < if s.ptwState == .idle then g.now + 1 else g.walk
    rcases filling_next h with hidle | ⟨hold, -, -⟩
    · rw [hidle]
      exact Nat.lt_succ_of_lt f.now
    · split
      · exact Nat.lt_succ_of_lt f.now
      · exact f.walk hold

/-- **Fence.** A fence that no walk escapes empties the TLBs for good. -/
theorem fresh_of_fence (hfence : i.sfenceVma = true) (hesc : s.escapesFence i = false)
    (hnow : g.now = k) : (s.next i).Fresh k (s.readTimesNext g) := by
  have hempty : s.fills = true → False := by
    intro h
    have hf := filling_of_fills h
    simp only [fills, Bool.and_eq_true, beq_iff_eq] at h
    simp [escapesFence, hf, h.1] at hesc
  have hlater : k < g.now + 1 := by omega
  refine ⟨⟨fun j h => ?_, fun j h => ?_⟩, hlater, fun h => ?_⟩
  · rcases (next_entry j).1 h with ⟨hfill, -⟩ | ⟨-, hno⟩
    · rw [Bool.and_eq_true] at hfill
      exact (hempty hfill.1).elim
    · rw [hfence] at hno
      cases hno
  · rcases (next_entry j).2 h with ⟨hfill, -⟩ | ⟨-, hno⟩
    · rw [Bool.and_eq_true] at hfill
      exact (hempty hfill.1).elim
    · rw [hfence] at hno
      cases hno
  · show k < if s.ptwState == .idle then g.now + 1 else g.walk
    rcases filling_next h with hidle | ⟨hold, -, hno⟩
    · rw [hidle]
      exact hlater
    · simp only [escapesFence, hold, hno, Bool.false_and, Bool.not_false, Bool.and_self] at hesc
      cases hesc

end Mmu

/-! ## Runs -/

/-- The times before cycle `n`. -/
def socReadTimes (m : Memories) (inp : Nat → SocIn) (n : Nat) : ReadTimes :=
  Clocked.history Soc.next (fun _ s g => s.hart.mmu.readTimesNext g) inp (Soc.reset m)
    ReadTimes.reset n

theorem socReadTimes_now (m : Memories) (inp : Nat → SocIn) (n : Nat) :
    (socReadTimes m inp n).now = n := by
  induction n with
  | zero => rfl
  | succ n ih =>
      show (socReadTimes m inp n).now + 1 = n + 1
      rw [ih]

/-- `sfence_vma_i` is asserted. -/
def Soc.sfences (i : SocIn) (s : Soc) : Bool := (s.mmuIn i).sfenceVma

/-- **SFENCE.VMA.** In every run in which no walk escapes a fence, every valid entry after a fence
has been filled by a walk that came on the bus after it. -/
theorem tlbs_read_after_fence (m : Memories) (inp : Nat → SocIn) (n : Nat)
    (hesc : ∀ k, k < n → (socRun m inp k).sfences (inp k) = true →
      (socRun m inp k).hart.mmu.escapesFence ((socRun m inp k).mmuIn (inp k)) = false) :
    ∀ k, k < n → (socRun m inp k).sfences (inp k) = true →
      (socRun m inp n).hart.mmu.ReadAfter k (socReadTimes m inp n) := by
  intro k hk hfence
  suffices h : ∀ d, (socRun m inp (k + 1 + d)).hart.mmu.Fresh k
      (socReadTimes m inp (k + 1 + d)) by
    obtain ⟨d, rfl⟩ : ∃ d, n = k + 1 + d := ⟨n - (k + 1), by omega⟩
    exact (h d).toReadAfter
  have hstep : ∀ j, socReadTimes m inp (j + 1)
      = (socRun m inp j).hart.mmu.readTimesNext (socReadTimes m inp j) := fun j =>
    Clocked.history_succ j
  intro d
  induction d with
  | zero =>
      rw [Nat.add_zero, hstep]
      exact Mmu.fresh_of_fence hfence (hesc k hk hfence) (socReadTimes_now m inp k)
  | succ d ih =>
      rw [← Nat.add_assoc, hstep]
      exact ih.next

/-- A program that goes to supervisor mode in front of the end of a page of code; `entry` is the
instruction that sets the place. -/
def codeAtPageEnd (entry : Word) (code : List (Nat × Word)) : Memories :=
  Memories.ofWords
    ([(0, 0x800000b7#32), (1, 0x01008093#32), (2, 0x18009073#32), (3, 0x00001137#32),
      (4, 0x80010113#32), (5, 0x30011073#32), (6, 0x004011b7#32), (7, entry),
      (8, 0x34119073#32), (9, 0x30200073#32)] ++ code)
    [(1, 0x4401#32), (1024, 0x4b#32), (1025, 0x44b#32)] []

/-- An SFENCE.VMA in front of the last word of the page. -/
def fenceBeforeEnd : Memories :=
  codeAtPageEnd 0xfe418193#32 [(1018, 0x02024233#32), (1019, 0x02024233#32), (1020, 0x02024233#32),
    (1021, 0x02024233#32), (1022, 0x12000073#32)]

/-- The walk for the next page is in progress when the SFENCE.VMA executes, and is killed; the next
one fills an entry. -/
theorem fenceBeforeEnd_read_after :
    (socRun fenceBeforeEnd quietSoc 35).sfences (quietSoc 35) = true ∧
      ((socRun fenceBeforeEnd quietSoc 50).hart.mmu.itlb 1).valid = true ∧
      (socRun fenceBeforeEnd quietSoc 50).hart.mmu.ReadAfter 35
        (socReadTimes fenceBeforeEnd quietSoc 50) := by
  have hfence : (socRun fenceBeforeEnd quietSoc 35).sfences (quietSoc 35) = true := by
    decide +kernel
  have hrun : Clocked.always Soc.next
      (fun i s => !(s.sfences i && s.hart.mmu.escapesFence (s.mmuIn i)))
      quietSoc (Soc.reset fenceBeforeEnd) 50 = true := by decide +kernel
  refine ⟨hfence, by decide +kernel, tlbs_read_after_fence fenceBeforeEnd quietSoc 50
    (fun k hk hf => ?_) 35 (by decide) hfence⟩
  have htest := Clocked.always_iff.mp hrun k hk
  simp only [Bool.not_eq_true', Bool.and_eq_false_imp] at htest
  exact htest hf

/-- An SFENCE.VMA at the end of the page. -/
def fenceAtEnd : Memories :=
  codeAtPageEnd 0xfe818193#32 [(1019, 0x02024233#32), (1020, 0x02024233#32), (1021, 0x02024233#32),
    (1022, 0x02024233#32), (1023, 0x12000073#32)]

/-- The walk for the next page is in `PTW_FILL` when the SFENCE.VMA executes, and its entry stays. -/
theorem fill_survives_fence :
    ¬ ∀ m inp n k, k < n → (socRun m inp k).sfences (inp k) = true →
      (socRun m inp n).hart.mmu.ReadAfter k (socReadTimes m inp n) := by
  intro h
  have hafter := (h fenceAtEnd quietSoc 36 35 (by decide) (by decide +kernel)).itlb 1
    (by decide +kernel)
  revert hafter
  decide +kernel

end MelonSoc
