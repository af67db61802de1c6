import MelonSoc.Pipeline.Operands

set_option autoImplicit false

/-! # Instructions that complete

An instruction that fires without a trap goes through EX/MEM and MEM/WB, or from EX/MEM through the
atomic unit, and completes when it leaves the last of them. `Track` follows the instructions of a
run on their way by their numbers. What the counter of retired instructions sees is a valid bit,
which a division sets in EX/MEM in every cycle that it waits for the divider.
-/

namespace MelonSoc

/-- The instructions behind EX by their numbers in program order: how many have fired, the one in
EX/MEM, the one in MEM/WB, and those that have completed, the newest first. -/
structure Track where
  fired : Nat
  mem : Option Nat
  wb : Option Nat
  completed : List Nat

namespace Track

def start : Track := { fired := 0, mem := none, wb := none, completed := [] }

/-- The instruction that completes in this cycle: it leaves MEM/WB, or EX/MEM with the atomic
unit. -/
def leaving (i : CoreIn) (s : Core) (t : Track) : Option Nat :=
  if s.stallMem i then none
  else if s.atomicComplete then t.mem
  else t.wb

/-- The instructions after the cycle. -/
def next (i : CoreIn) (s : Core) (t : Track) : Track :=
  { fired := t.fired + (if s.commits i then 1 else 0)
    mem :=
      if s.stallMem i then t.mem
      else if s.atomicComplete then none
      else if s.exMem.isAtomic then t.mem
      else if s.commits i then some t.fired
      else none
    wb :=
      if s.stallMem i then t.wb
      else if s.exMem.isAtomic then none
      else t.mem
    completed := (t.leaving i s).toList ++ t.completed }

/-- The instructions on their way are the last ones that have fired, and the others have completed
in their order, each once. -/
structure Ordered (t : Track) : Prop where
  completed : t.completed = (List.range t.completed.length).reverse
  wb : ∀ k, t.wb = some k → k = t.completed.length
  mem : ∀ k, t.mem = some k → k = t.completed.length + t.wb.toList.length
  fired : t.fired = t.completed.length + t.wb.toList.length + t.mem.toList.length

theorem ordered_start : Ordered start := by
  refine ⟨rfl, ?_, ?_, rfl⟩ <;> intro k h <;> cases h

section Ordered

variable {t : Track}

/-- The next number is completed. -/
theorem range_reverse_succ (l : List Nat) (h : l = (List.range l.length).reverse) :
    l.length :: l = (List.range (l.length :: l).length).reverse := by
  rw [List.length_cons, List.range_succ, List.reverse_append, ← h]
  rfl

/-- The instruction in MEM/WB completes. -/
theorem Ordered.drain (h : t.Ordered) :
    Ordered { t with wb := none, completed := t.wb.toList ++ t.completed } := by
  cases hw : t.wb with
  | none =>
      refine ⟨h.completed, by simp, ?_, ?_⟩
      · simpa [hw] using h.mem
      · simpa [hw] using h.fired
  | some k =>
      obtain rfl := h.wb k hw
      refine ⟨range_reverse_succ _ h.completed, by simp, ?_, ?_⟩
      · simpa [hw] using h.mem
      · simpa [hw] using h.fired

/-- With MEM/WB empty the instruction in EX/MEM completes. -/
theorem Ordered.finish (h : t.Ordered) (hw : t.wb = none) :
    Ordered { t with mem := none, completed := t.mem.toList ++ t.completed } := by
  cases hm : t.mem with
  | none =>
      refine ⟨h.completed, h.wb, by simp, ?_⟩
      simpa [hm] using h.fired
  | some k =>
      have hk := h.mem k hm
      rw [hw] at hk
      obtain rfl : k = t.completed.length := hk
      refine ⟨range_reverse_succ _ h.completed, ?_, by simp, ?_⟩
      · simp [hw]
      · simpa [hm, hw] using h.fired

/-- With MEM/WB empty the instruction in EX/MEM moves on, and one may follow. -/
theorem Ordered.advance (h : t.Ordered) (hw : t.wb = none) (fires : Bool) :
    Ordered { t with
      fired := t.fired + (if fires then 1 else 0)
      mem := if fires then some t.fired else none
      wb := t.mem } := by
  have hfired := h.fired
  rw [hw] at hfired
  refine ⟨h.completed, ?_, ?_, ?_⟩
  · intro k hk
    have hmem := h.mem k hk
    rw [hw] at hmem
    exact hmem
  · intro k hk
    cases fires with
    | false => cases hk
    | true =>
        obtain rfl : t.fired = k := by simpa using hk
        simpa using hfired
  · cases fires with
    | false => simpa using hfired
    | true => simpa using hfired

end Ordered

end Track

namespace Core

/-- The valid bits of EX/MEM and MEM/WB stand for the instructions of `t`. -/
structure Tracked (s : Core) (t : Track) : Prop where
  ordered : t.Ordered
  mem : s.exMem.valid = t.mem.isSome
  wb : s.memWb.valid = t.wb.isSome

theorem tracked_reset : Tracked Core.reset Track.start where
  ordered := Track.ordered_start
  mem := rfl
  wb := rfl

/-- A division waits in EX while EX/MEM takes in what EX has. -/
def divisionWaits (i : CoreIn) (s : Core) : Bool :=
  s.stallDiv && !s.stallMem i && !s.stallAtomic

/-- A CSR instruction writes a half of `minstret`. -/
def writesInstret (i : CoreIn) (s : Core) : Bool :=
  s.csr.csrWriteTaken (s.privIn i) &&
    (s.idEx.exCsrAddr == 0xb02#12 || s.idEx.exCsrAddr == 0xb82#12)

section Cycle

variable {i : CoreIn} {s : Core} {t : Track}

/-- **One cycle.** The counter's pulse says that an instruction completes, and the valid bits go on
standing for instructions. -/
theorem Tracked.next (h : s.Tracked t) (w : s.Wf) (hd : s.divisionWaits i = false) (f : FetchIn) :
    s.retirePulse i = (t.leaving i s).isSome ∧ (s.next i f).Tracked (t.next i s) := by
  obtain ⟨ho, hm, hw⟩ := h
  cases w.step_cases i with
  | memWait mem idle fire ex exMem wb =>
      have hc : s.commits i = false := commits_of_no_fire fire
      have hcomplete : s.atomicComplete = false := by simp [atomicComplete, idle]
      have hnext : t.next i s = t := by
        simp [Track.next, Track.leaving, mem, hc]
      refine ⟨by simp [retirePulse, Track.leaving, mem, hcomplete], ?_⟩
      rw [hnext]
      exact ⟨ho, by rw [next_exMem, exMem, hm], by rw [next_memWb, wb, hw]⟩
  | atomicWait isAtomic mem notDone fire ex exMem wb =>
      have hc : s.commits i = false := commits_of_no_fire fire
      have hstall : s.stallMem i = false := by simp [stallMem, mem]
      have hcomplete : s.atomicComplete = false := by
        rw [← Bool.not_eq_true, atomicComplete_iff]
        exact notDone
      have hnext : t.next i s = { t with wb := none, completed := t.wb.toList ++ t.completed } := by
        simp [Track.next, Track.leaving, hstall, hcomplete, hc, isAtomic]
      refine ⟨by simp [retirePulse, Track.leaving, hstall, hcomplete, hw], ?_⟩
      rw [hnext]
      exact ⟨ho.drain, by rw [next_exMem, exMem, hm], by rw [next_memWb, wb]; rfl⟩
  | atomicDone isAtomic mem complete fire ex exMem wb =>
      have hc : s.commits i = false := commits_of_no_fire fire
      have hstall : s.stallMem i = false := by simp [stallMem, mem]
      have hcomplete : s.atomicComplete = true := atomicComplete_iff.mpr complete
      have hbusy := w.busy (by rw [complete]; decide)
      have hwb : t.wb = none := by
        rw [hbusy.2.2] at hw
        exact Option.isSome_eq_false_iff.mp hw.symm |> Option.isNone_iff_eq_none.mp
      have hmem : t.mem.isSome = true := by
        rw [← hm]
        exact (w.atomicMem isAtomic).1
      have hnext : t.next i s = { t with mem := none, completed := t.mem.toList ++ t.completed } := by
        simp [Track.next, Track.leaving, hstall, hcomplete, hc, isAtomic, hwb]
      refine ⟨by simp [retirePulse, Track.leaving, hstall, hcomplete, hmem], ?_⟩
      rw [hnext]
      exact ⟨ho.finish hwb, by rw [next_exMem, exMem]; rfl, by rw [next_memWb, wb, hwb]; rfl⟩
  | mmuWait mem idle noAtomic fire mmu ex exMem wb =>
      have hc : s.commits i = false := commits_of_no_fire fire
      have hcomplete : s.atomicComplete = false := by simp [atomicComplete, idle]
      refine ⟨by simp [retirePulse, Track.leaving, mem, hcomplete, hw], ?_⟩
      have hadv := ho.drain.advance rfl false
      have hnext : t.next i s = { t with
          fired := t.fired + 0, mem := none, wb := t.mem
          completed := t.wb.toList ++ t.completed } := by
        simp [Track.next, Track.leaving, mem, hcomplete, hc, noAtomic]
      rw [hnext]
      exact ⟨hadv, by rw [next_exMem, exMem]; rfl, by rw [next_memWb, wb]; exact hm⟩
  | divWait mem idle noAtomic fire div mmu ex exMem wb =>
      have hat : s.stallAtomic = false := by
        simp [stallAtomic, idle, noAtomic]
      rw [divisionWaits, div, mem, hat] at hd
      cases hd
  | flow mem idle noAtomic fire div mmu ex exMem wb =>
      have hcomplete : s.atomicComplete = false := by simp [atomicComplete, idle]
      refine ⟨by simp [retirePulse, Track.leaving, mem, hcomplete, hw], ?_⟩
      have hadv := ho.drain.advance rfl (s.commits i)
      have hnext : t.next i s = { t with
          fired := t.fired + (if s.commits i then 1 else 0)
          mem := if s.commits i then some t.fired else none
          wb := t.mem
          completed := t.wb.toList ++ t.completed } := by
        simp [Track.next, Track.leaving, mem, hcomplete, noAtomic]
      have hvalid : (s.exMemOfEx i).valid = s.commits i := by
        simp [exMemOfEx, commits, fire]
      rw [hnext]
      refine ⟨hadv, ?_, by rw [next_memWb, wb]; exact hm⟩
      rw [next_exMem, exMem, hvalid]
      cases s.commits i <;> rfl

end Cycle

end Core

/-! ## The counter -/

namespace PrivCsr

@[simp] theorem enterTrap_instretCounter (i : PrivIn) (s : PrivCsr) :
    (s.enterTrap i).instretCounter = s.instretCounter := by
  simp only [enterTrap]
  split <;> split <;> rfl

@[simp] theorem mretUpdate_instretCounter (s : PrivCsr) :
    s.mretUpdate.instretCounter = s.instretCounter := rfl

@[simp] theorem sretUpdate_instretCounter (s : PrivCsr) :
    s.sretUpdate.instretCounter = s.instretCounter := rfl

theorem csrUpdate_instretCounter {addr : BitVec 12} (wdata : Word) (s s1 : PrivCsr)
    (h : (addr == 0xb02#12 || addr == 0xb82#12) = false) :
    (csrUpdate addr wdata s s1).instretCounter = s1.instretCounter := by
  rw [Bool.or_eq_false_iff] at h
  simp only [csrUpdate, h.1, h.2, apply_ite PrivCsr.instretCounter, ite_self, Bool.false_eq_true,
    if_false]

/-- But for a CSR write the counter counts the pulses. -/
theorem next_instretCounter (i : PrivIn) (s : PrivCsr)
    (h : (s.csrWriteTaken i && (i.csrAddr == 0xb02#12 || i.csrAddr == 0xb82#12)) = false) :
    (s.next i).instretCounter = s.instretCounter + BitVec.ofNat 64 i.retire.toNat := by
  have htick : (s.tickCounters i.retire).instretCounter
      = s.instretCounter + BitVec.ofNat 64 i.retire.toNat := by
    cases i.retire <;> simp [tickCounters]
  unfold next
  split
  · rw [enterTrap_instretCounter, htick]
  split
  · split
    · rw [mretUpdate_instretCounter, htick]
    · rw [sretUpdate_instretCounter, htick]
  split
  next hw =>
    rw [hw, Bool.true_and] at h
    rw [csrUpdate_instretCounter _ _ _ h, htick]
  next => exact htick

end PrivCsr

/-! ## Runs -/

section Run

variable {inp : Nat → CoreIn × FetchIn}

/-- The instructions of a run on their way, before cycle `n`. -/
def track (inp : Nat → CoreIn × FetchIn) (n : Nat) : Track :=
  Clocked.history coreNext (fun x s t => t.next x.1 s) inp Core.reset Track.start n

/-- The counter before cycle `n`. -/
def instret (inp : Nat → CoreIn × FetchIn) (n : Nat) : BitVec 64 :=
  (coreRun inp n).csr.instretCounter

/-- The instruction that completes in cycle `n`. -/
def completes (inp : Nat → CoreIn × FetchIn) (n : Nat) : Option Nat :=
  (track inp n).leaving (inp n).1 (coreRun inp n)

theorem track_succ (n : Nat) :
    track inp (n + 1) = (track inp n).next (inp n).1 (coreRun inp n) := by
  rw [track, Clocked.history_succ]
  rfl

theorem track_completed (n : Nat) :
    (track inp (n + 1)).completed = (completes inp n).toList ++ (track inp n).completed := by
  rw [track_succ]
  rfl

/-- The numbers count the executed instructions. -/
theorem track_fired (n : Nat) : (track inp n).fired = (executed inp n).length := by
  induction n with
  | zero => rfl
  | succ n ih =>
      have hlog : executed inp (n + 1) = (coreRun inp n).logNext (inp n).1 (executed inp n) := by
        rw [executed, Clocked.history_succ]
        rfl
      have hlen : ((coreRun inp n).answered (inp n).1 (executed inp n)).length
          = (executed inp n).length := by
        cases executed inp n <;> rfl
      rw [track_succ, hlog, Core.logNext, Track.next, ih]
      cases (coreRun inp n).commits (inp n).1 <;> simp [hlen]

theorem coreRun_tracked {n : Nat}
    (hd : ∀ k, k < n → (coreRun inp k).divisionWaits (inp k).1 = false) :
    (coreRun inp n).Wf ∧ (coreRun inp n).Tracked (track inp n) :=
  Clocked.history_invariant (P := fun (s : Core) t => s.Wf ∧ s.Tracked t)
    (C := fun x s => s.divisionWaits x.1 = false)
    ⟨Core.wf_reset, Core.tracked_reset⟩
    (fun x _ _ hd h => ⟨h.1.next x.1 x.2, (h.2.next h.1 hd x.2).2⟩) hd

/-- In a run without such cycles the pulse is up in the cycles in which an instruction completes. -/
theorem retirePulse_eq {n : Nat}
    (hd : ∀ k, k ≤ n → (coreRun inp k).divisionWaits (inp k).1 = false) :
    (coreRun inp n).retirePulse (inp n).1 = (completes inp n).isSome := by
  obtain ⟨w, t⟩ := coreRun_tracked (fun k hk => hd k (Nat.le_of_lt hk))
  exact (t.next w (hd n (Nat.le_refl n)) (inp n).2).1

/-- The instructions complete in their order. -/
theorem completes_eq {n k : Nat}
    (hd : ∀ k, k ≤ n → (coreRun inp k).divisionWaits (inp k).1 = false)
    (h : completes inp n = some k) : k = (track inp n).completed.length := by
  have ho := (coreRun_tracked (n := n + 1) (fun j hj => hd j (Nat.le_of_lt_succ hj))).2.ordered
  have hc := ho.completed
  have hn := (coreRun_tracked (fun j hj => hd j (Nat.le_of_lt hj))).2.ordered.completed
  rw [track_completed, h, Option.toList_some, List.singleton_append, List.length_cons,
    List.range_succ, List.reverse_append] at hc
  exact (List.cons.inj hc).1

theorem completed_length_succ (n : Nat) :
    (track inp (n + 1)).completed.length
      = (track inp n).completed.length + (completes inp n).isSome.toNat := by
  rw [track_completed]
  cases completes inp n <;> simp

theorem completed_length_mono {a b : Nat} (hab : a ≤ b) :
    (track inp a).completed.length ≤ (track inp b).completed.length := by
  induction b, hab using Nat.le_induction with
  | base => exact Nat.le_refl _
  | succ b _ ih =>
      rw [completed_length_succ]
      omega

theorem instret_succ {n : Nat} (hw : (coreRun inp n).writesInstret (inp n).1 = false) :
    instret inp (n + 1)
      = instret inp n + BitVec.ofNat 64 ((coreRun inp n).retirePulse (inp n).1).toNat :=
  PrivCsr.next_instretCounter _ _ hw

/-- Every number below the count has completed in some cycle. -/
theorem exists_completes {n j : Nat}
    (hd : ∀ k, k < n → (coreRun inp k).divisionWaits (inp k).1 = false)
    (hj : j < (track inp n).completed.length) : ∃ k, k < n ∧ completes inp k = some j := by
  induction n with
  | zero => exact absurd hj (Nat.not_lt_zero j)
  | succ n ih =>
      by_cases hlt : j < (track inp n).completed.length
      · obtain ⟨k, hk, hc⟩ := ih (fun k hk => hd k (Nat.lt_succ_of_lt hk)) hlt
        exact ⟨k, Nat.lt_succ_of_lt hk, hc⟩
      · rw [completed_length_succ] at hj
        cases hc : completes inp n with
        | none =>
            rw [hc] at hj
            exact absurd hj hlt
        | some i =>
            have hi := completes_eq (fun k hk => hd k (Nat.lt_succ_of_le hk)) hc
            rw [hc] at hj
            simp only [Option.isSome_some, Bool.toNat_true] at hj
            refine ⟨n, Nat.lt_succ_self n, ?_⟩
            rw [hc]
            congr 1
            omega

/-- A later cycle completes a later instruction. -/
theorem completes_lt {k k' j j' : Nat} (hkk : k < k')
    (hd : ∀ i, i ≤ k' → (coreRun inp i).divisionWaits (inp i).1 = false)
    (hc : completes inp k = some j) (hc' : completes inp k' = some j') : j < j' := by
  have hj := completes_eq (fun i hi => hd i (Nat.le_trans hi (Nat.le_of_lt hkk))) hc
  have hj' := completes_eq hd hc'
  have hgrows : (track inp (k + 1)).completed.length = (track inp k).completed.length + 1 := by
    rw [completed_length_succ, hc]
    rfl
  have hmono : (track inp (k + 1)).completed.length ≤ (track inp k').completed.length :=
    completed_length_mono hkk
  omega

/-- Between two cycles the counter grows by the number of completed instructions. -/
theorem instret_between {a b : Nat} (hab : a ≤ b)
    (hw : ∀ k, k < b → (coreRun inp k).writesInstret (inp k).1 = false)
    (hd : ∀ k, k < b → (coreRun inp k).divisionWaits (inp k).1 = false) :
    instret inp b = instret inp a
      + BitVec.ofNat 64 ((track inp b).completed.length - (track inp a).completed.length) := by
  induction b, hab using Nat.le_induction with
  | base => simp
  | succ b hab ih =>
      have hmono : (track inp a).completed.length ≤ (track inp b).completed.length :=
        completed_length_mono hab
      have hsum : (track inp (b + 1)).completed.length - (track inp a).completed.length
          = (track inp b).completed.length - (track inp a).completed.length
            + (completes inp b).isSome.toNat := by
        rw [completed_length_succ]
        omega
      have hpulse := retirePulse_eq (fun k hk => hd k (Nat.lt_succ_of_le hk))
      rw [instret_succ (hw b (Nat.lt_succ_self b)), hpulse, hsum, BitVec.ofNat_add,
        ← BitVec.add_assoc,
        ih (fun k hk => hw k (Nat.lt_succ_of_lt hk)) (fun k hk => hd k (Nat.lt_succ_of_lt hk))]

/-- **Retired instructions.** In a run without writes to the counter in which no division waits in
EX while EX/MEM takes in what EX has, the counter grows by the number of instructions that
complete: those that fire without a trap, in their order, each in one cycle in which the pulse is
up, and the pulse is up in no other. -/
theorem instret_counts (inp : Nat → CoreIn × FetchIn) (n : Nat)
    (hw : ∀ k, k < n → (coreRun inp k).writesInstret (inp k).1 = false)
    (hd : ∀ k, k < n → (coreRun inp k).divisionWaits (inp k).1 = false) :
    (∀ k, k ≤ n → (track inp k).Ordered ∧ (track inp k).fired = (executed inp k).length) ∧
    (∀ k, k < n → (coreRun inp k).retirePulse (inp k).1 = (completes inp k).isSome) ∧
    (∀ j, j < (track inp n).completed.length → ∃! k, k < n ∧ completes inp k = some j) ∧
    ∀ a b, a ≤ b → b ≤ n → instret inp b = instret inp a
      + BitVec.ofNat 64 ((track inp b).completed.length - (track inp a).completed.length) := by
  refine ⟨?_, ?_, ?_, ?_⟩
  · intro k hk
    exact ⟨(coreRun_tracked (fun j hj => hd j (Nat.lt_of_lt_of_le hj hk))).2.ordered,
      track_fired k⟩
  · intro k hk
    exact retirePulse_eq (fun j hj => hd j (Nat.lt_of_le_of_lt hj hk))
  · intro j hj
    obtain ⟨k, hk, hc⟩ := exists_completes hd hj
    refine ⟨k, ⟨hk, hc⟩, ?_⟩
    rintro k' ⟨hk', hc'⟩
    rcases Nat.lt_trichotomy k' k with hlt | heq | hgt
    · have := completes_lt hlt (fun i hi => hd i (Nat.lt_of_le_of_lt hi hk)) hc' hc
      exact absurd this (Nat.lt_irrefl j)
    · exact heq
    · have := completes_lt hgt (fun i hi => hd i (Nat.lt_of_le_of_lt hi hk')) hc hc'
      exact absurd this (Nat.lt_irrefl j)
  · intro a b hab hb
    exact instret_between hab (fun k hk => hw k (Nat.lt_of_lt_of_le hk hb))
      (fun k hk => hd k (Nat.lt_of_lt_of_le hk hb))

end Run

/-- Ten cycles of a stream of `addi x1, x1, 1`: the counter counts the completed ones. -/
theorem instret_counts_addi :
    instret addiStream 10 = instret addiStream 0 + BitVec.ofNat 64
      ((track addiStream 10).completed.length - (track addiStream 0).completed.length) :=
  (instret_counts addiStream 10 (by decide +kernel) (by decide +kernel)).2.2.2 0 10
    (Nat.zero_le 10) (Nat.le_refl 10)

/-- `div x0, x0, x0` among instructions that do nothing. -/
def oneDivision (n : Nat) : CoreIn × FetchIn :=
  (quietIn,
   { rdata := if n = 1 then 0x02004033#32 else 0x00000013#32
     stall := false, fault := false, pageFault := false })

/-- The division waits for one cycle and counts twice. -/
theorem division_retires_twice :
    ¬ ∀ inp a b, a ≤ b → (∀ k, k < b → (coreRun inp k).writesInstret (inp k).1 = false) →
      instret inp b = instret inp a
        + BitVec.ofNat 64 ((track inp b).completed.length - (track inp a).completed.length) := by
  intro h
  have hcount := h oneDivision 0 8 (Nat.zero_le 8) (by decide +kernel)
  exact absurd hcount (by decide +kernel)

end MelonSoc
