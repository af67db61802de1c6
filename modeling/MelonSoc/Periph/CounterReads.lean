import MelonSoc.Lib.Counters
import MelonSoc.Periph.ClintCompare
import MelonSoc.Pipeline.Retire

set_option autoImplicit false

/-! # Readings of the 64-bit counters

`clint_get_mtime`, `rdcycle` and `rdinstret` are the loop of `Lib/Counters` over three counters. A
load from the CLINT gets the register of the cycle after its access, a CSR instruction the one of
its cycle.
-/

namespace MelonSoc

open Counters

/-! ## The programs -/

namespace Clint

def clintMtimeOffset : Word := 0xBFF8#32

/-- `clint_read32`. -/
def clintRead32 (offset : Word) : Access Word Word Word := do
  let _ ← Access.get (ioClintBaseAddr + offset)
  Access.get (ioClintBaseAddr + offset)

/-- `clint_get_mtime`. -/
def clintGetMtime (fuel : Nat) : Access Word Word (Option (BitVec 64)) :=
  readPair (w := 32) (clintRead32 (clintMtimeOffset + 4#32)) (clintRead32 clintMtimeOffset) fuel

/-- What a load gives whose access is in the cycle `n`. -/
def loaded (bus : Nat → WbReq) (s₀ : Clint) (n : Nat) (adr : Word) : Word :=
  (clintRun bus s₀ (n + 1)).datR { bus (n + 1) with adr := adr }

end Clint

namespace PrivCsr

/-- `rdcycle`. -/
def rdcycle (fuel : Nat) : Access (BitVec 12) Word (Option (BitVec 64)) :=
  readPair (w := 32) (Access.get 0xc80#12) (Access.get 0xc00#12) fuel

/-- `rdinstret`. -/
def rdinstret (fuel : Nat) : Access (BitVec 12) Word (Option (BitVec 64)) :=
  readPair (w := 32) (Access.get 0xc82#12) (Access.get 0xc02#12) fuel

/-- The CSRs before a cycle. -/
def csrRun (inp : Nat → PrivIn) (s₀ : PrivCsr) (n : Nat) : PrivCsr := Clocked.run next inp s₀ n

/-- What a CSR instruction in the cycle `n` reads. -/
def csrLoaded (inp : Nat → PrivIn) (s₀ : PrivCsr) (n : Nat) (addr : BitVec 12) : Word :=
  (csrRun inp s₀ n).csrRdata (inp n).irqPending addr

/-- No write to the CSRs `a` and `b` from `n` to `m`. -/
def Unwritten (inp : Nat → PrivIn) (s₀ : PrivCsr) (a b : BitVec 12) (n m : Nat) : Prop :=
  ∀ j, n ≤ j → j < m →
    ((csrRun inp s₀ j).csrWriteTaken (inp j) && ((inp j).csrAddr == a || (inp j).csrAddr == b)) =
      false

end PrivCsr

/-! ## The counters count -/

section Counting

variable {bus : Nat → WbReq} {c₀ : Clint} {inp : Nat → PrivIn} {s₀ : PrivCsr} {n m : Nat}

theorem mtime_counts : Counts (fun k => (Clint.clintRun bus c₀ k).mtime) (fun _ => 1) n m :=
  fun _ _ _ => rfl

theorem PrivCsr.next_cycleCounter (i : PrivIn) (s : PrivCsr)
    (h : (s.csrWriteTaken i && (i.csrAddr == 0xb00#12 || i.csrAddr == 0xb80#12)) = false) :
    (s.next i).cycleCounter = s.cycleCounter + 1#64 := by
  unfold PrivCsr.next
  split
  · simp only [enterTrap]
    split <;> rfl
  split
  · split <;> rfl
  split
  next hw =>
    rw [hw, Bool.true_and, Bool.or_eq_false_iff] at h
    simp only [csrUpdate, h.1, h.2, apply_ite PrivCsr.cycleCounter, ite_self, Bool.false_eq_true,
      if_false]
    rfl
  next => rfl

theorem cycles_counts (h : PrivCsr.Unwritten inp s₀ 0xb00#12 0xb80#12 n m) :
    Counts (fun k => (PrivCsr.csrRun inp s₀ k).cycleCounter) (fun _ => 1) n m := by
  intro j h1 h2
  exact PrivCsr.next_cycleCounter _ _ (h j h1 h2)

theorem retired_counts (h : PrivCsr.Unwritten inp s₀ 0xb02#12 0xb82#12 n m) :
    Counts (fun k => (PrivCsr.csrRun inp s₀ k).instretCounter)
      (fun k => (inp k).retire.toNat) n m := by
  intro j h1 h2
  exact PrivCsr.next_instretCounter _ _ (h j h1 h2)

end Counting

/-! ## The readings -/

section Reading

variable {bus : Nat → WbReq} {c₀ : Clint} {inp : Nat → PrivIn} {s₀ : PrivCsr} {n m : Nat} {x : Word}

/-- A load of a word of `mtime`; the second access counts. -/
theorem clintRead32_loads {issued : Nat → Option (Issued Word Word)} {offset : Word}
    (h : Access.Exec issued (Clint.loaded bus c₀) n (Clint.clintRead32 offset) x m) :
    ∃ k, n ≤ k ∧ k + 1 = m ∧ x = Clint.loaded bus c₀ k (ioClintBaseAddr + offset) := by
  cases h with
  | read h1 q1 r1 h =>
    cases h with
    | read h2 q2 r2 h =>
      cases h with
      | ret => exact ⟨_, by omega, rfl, rfl⟩

theorem loaded_mtime (k : Nat) :
    Clint.loaded bus c₀ k (ioClintBaseAddr + (Clint.clintMtimeOffset + 4#32)) =
        hi (w := 32) (Clint.clintRun bus c₀ (k + 1)).mtime ∧
      Clint.loaded bus c₀ k (ioClintBaseAddr + Clint.clintMtimeOffset) =
        lo (w := 32) (Clint.clintRun bus c₀ (k + 1)).mtime := by
  have hhi : Clint.offset (ioClintBaseAddr + (Clint.clintMtimeOffset + 4#32)) = 0xBFFC#32 := by
    decide
  have hlo : Clint.offset (ioClintBaseAddr + Clint.clintMtimeOffset) = 0xBFF8#32 := by decide
  constructor
  · simp [Clint.loaded, Clint.datR, Clint.selMsip, Clint.selMtimecmpLo, Clint.selMtimecmpHi,
      Clint.selMtimeLo, Clint.selMtimeHi, hhi, hi]
  · simp [Clint.loaded, Clint.datR, Clint.selMsip, Clint.selMtimecmpLo, Clint.selMtimecmpHi,
      Clint.selMtimeLo, hlo, lo]

/-- A CSR read. -/
theorem csr_loads {issued : Nat → Option (Issued (BitVec 12) Word)} {addr : BitVec 12}
    (h : Access.Exec issued (PrivCsr.csrLoaded inp s₀) n (Access.get addr) x m) :
    ∃ k, n ≤ k ∧ k + 1 = m ∧ x = PrivCsr.csrLoaded inp s₀ k addr := by
  cases h with
  | read h1 q1 r1 h =>
    cases h with
    | ret => exact ⟨_, h1, rfl, rfl⟩

theorem csrLoaded_cycle (k : Nat) :
    PrivCsr.csrLoaded inp s₀ k 0xc80#12 = hi (w := 32) (PrivCsr.csrRun inp s₀ k).cycleCounter ∧
      PrivCsr.csrLoaded inp s₀ k 0xc00#12 = lo (w := 32) (PrivCsr.csrRun inp s₀ k).cycleCounter :=
  ⟨rfl, rfl⟩

theorem csrLoaded_instret (k : Nat) :
    PrivCsr.csrLoaded inp s₀ k 0xc82#12 = hi (w := 32) (PrivCsr.csrRun inp s₀ k).instretCounter ∧
      PrivCsr.csrLoaded inp s₀ k 0xc02#12 =
        lo (w := 32) (PrivCsr.csrRun inp s₀ k).instretCounter :=
  ⟨rfl, rfl⟩

end Reading

/-- The most that a counter may advance while it is read. -/
def nearlyAround : Nat := 2 ^ 64 - 2 ^ 32

/-- **Readings are not torn.** What `clint_get_mtime`, `rdcycle` or `rdinstret` returns is what the
counter was at some time between the call and the return, unless the counter has gone nearly all
the way round. -/
theorem counters_not_torn :
    (∀ (bus : Nat → WbReq) (c₀ : Clint) (issued : Nat → Option (Issued Word Word)) (fuel n m : Nat)
      (v : BitVec 64),
      Access.Exec issued (Clint.loaded bus c₀) n (Clint.clintGetMtime fuel) (some v) m →
      advance (fun _ => 1) n m ≤ nearlyAround →
      ∃ k, n ≤ k ∧ k ≤ m ∧ (Clint.clintRun bus c₀ k).mtime = v) ∧
    (∀ (inp : Nat → PrivIn) (s₀ : PrivCsr) (issued : Nat → Option (Issued (BitVec 12) Word))
      (fuel n m : Nat) (v : BitVec 64),
      (Access.Exec issued (PrivCsr.csrLoaded inp s₀) n (PrivCsr.rdcycle fuel) (some v) m →
        PrivCsr.Unwritten inp s₀ 0xb00#12 0xb80#12 n m →
        advance (fun _ => 1) n m ≤ nearlyAround →
        ∃ k, n ≤ k ∧ k ≤ m ∧ (PrivCsr.csrRun inp s₀ k).cycleCounter = v) ∧
      (Access.Exec issued (PrivCsr.csrLoaded inp s₀) n (PrivCsr.rdinstret fuel) (some v) m →
        PrivCsr.Unwritten inp s₀ 0xb02#12 0xb82#12 n m →
        advance (fun k => (inp k).retire.toNat) n m ≤ nearlyAround →
        ∃ k, n ≤ k ∧ k ≤ m ∧ (PrivCsr.csrRun inp s₀ k).instretCounter = v)) := by
  constructor
  · intro bus c₀ issued fuel n m v hx hadv
    refine readPair_sound (w := 32) mtime_counts hadv ?_ ?_ fuel (Nat.le_refl n) (Nat.le_refl m) hx
    · intro n' x m' hx' _
      obtain ⟨k, hnk, rfl, rfl⟩ := clintRead32_loads hx'
      exact ⟨k + 1, by omega, Nat.le_refl _, (loaded_mtime k).1⟩
    · intro n' x m' hx' _
      obtain ⟨k, hnk, rfl, rfl⟩ := clintRead32_loads hx'
      exact ⟨k + 1, by omega, Nat.le_refl _, (loaded_mtime k).2⟩
  · intro inp s₀ issued fuel n m v
    constructor
    · intro hx hw hadv
      refine readPair_sound (w := 32) (cycles_counts hw) hadv ?_ ?_ fuel (Nat.le_refl n)
        (Nat.le_refl m) hx
      · intro n' x m' hx' _
        obtain ⟨k, hnk, rfl, rfl⟩ := csr_loads hx'
        exact ⟨k, hnk, Nat.le_succ k, (csrLoaded_cycle k).1⟩
      · intro n' x m' hx' _
        obtain ⟨k, hnk, rfl, rfl⟩ := csr_loads hx'
        exact ⟨k, hnk, Nat.le_succ k, (csrLoaded_cycle k).2⟩
    · intro hx hw hadv
      refine readPair_sound (w := 32) (retired_counts hw) hadv ?_ ?_ fuel (Nat.le_refl n)
        (Nat.le_refl m) hx
      · intro n' x m' hx' _
        obtain ⟨k, hnk, rfl, rfl⟩ := csr_loads hx'
        exact ⟨k, hnk, Nat.le_succ k, (csrLoaded_instret k).1⟩
      · intro n' x m' hx' _
        obtain ⟨k, hnk, rfl, rfl⟩ := csr_loads hx'
        exact ⟨k, hnk, Nat.le_succ k, (csrLoaded_instret k).2⟩

/-! ## A call of `clint_get_mtime` -/

/-- The accesses of a call whose first attempt succeeds: two from each of the three times on. -/
def mtimeCall (t u r n : Nat) : Option (Issued Word Word) :=
  if n = t ∨ n = t + 1 then some (.read (ioClintBaseAddr + (Clint.clintMtimeOffset + 4#32)))
  else if n = u ∨ n = u + 1 then some (.read (ioClintBaseAddr + Clint.clintMtimeOffset))
  else if n = r ∨ n = r + 1 then
    some (.read (ioClintBaseAddr + (Clint.clintMtimeOffset + 4#32)))
  else none

/-- A CLINT with the counter at `time`. -/
def clintAt (time : BitVec 64) : Clint := { Clint.reset with mtime := time }

/-- A bus without accesses. -/
def quietBus (_ : Nat) : WbReq :=
  { adr := 0#32, datW := 0#32, sel := 0#4, we := false, cyc := false, stb := false, lock := false }

theorem mtimeCall_runs (time : BitVec 64) {u r : Nat} (hu : 2 ≤ u) (hr : u + 2 ≤ r)
    (heq : hi (w := 32) (time + BitVec.ofNat 64 2) = hi (w := 32) (time + BitVec.ofNat 64 (r + 2))) :
    Access.Exec (mtimeCall 0 u r) (Clint.loaded quietBus (clintAt time)) 0 (Clint.clintGetMtime 1)
      (some (hi (w := 32) (time + BitVec.ofNat 64 2) ++
        lo (w := 32) (time + BitVec.ofNat 64 (u + 2)))) (r + 2) := by
  have htime : ∀ k, (Clint.clintRun quietBus (clintAt time) k).mtime =
      time + BitVec.ofNat 64 k := by
    intro k
    have hrun := Clint.mtime_run quietBus (clintAt time) 0 k
    rwa [Nat.zero_add] at hrun
  -- two accesses to one register, from `k` on
  have hread : ∀ (n k : Nat) (offset : Word), n ≤ k →
      (∀ j, n ≤ j → j < k → mtimeCall 0 u r j = none) →
      mtimeCall 0 u r k = some (.read (ioClintBaseAddr + offset)) →
      mtimeCall 0 u r (k + 1) = some (.read (ioClintBaseAddr + offset)) →
      Access.Exec (mtimeCall 0 u r) (Clint.loaded quietBus (clintAt time)) n
        (Clint.clintRead32 offset)
        (Clint.loaded quietBus (clintAt time) (k + 1) (ioClintBaseAddr + offset)) (k + 2) := by
    intro n k offset hnk hq h1 h2
    exact .read hnk hq h1 (.read (Nat.le_refl _)
      (fun j hj1 hj2 => absurd hj1 (Nat.not_le_of_lt hj2)) h2 (.ret _ _))
  have hfirst := hread 0 0 (Clint.clintMtimeOffset + 4#32) (Nat.le_refl 0)
    (fun j h1 h2 => absurd h1 (Nat.not_le_of_lt h2)) rfl rfl
  have hlow := hread 2 u Clint.clintMtimeOffset hu
    (fun j h1 h2 => by
      rw [mtimeCall, if_neg (by omega), if_neg (by omega), if_neg (by omega)])
    (by rw [mtimeCall, if_neg (by omega), if_pos (by omega)])
    (by rw [mtimeCall, if_neg (by omega), if_pos (by omega)])
  have hlast := hread (u + 2) r (Clint.clintMtimeOffset + 4#32) hr
    (fun j h1 h2 => by
      rw [mtimeCall, if_neg (by omega), if_neg (by omega), if_neg (by omega)])
    (by rw [mtimeCall, if_neg (by omega), if_neg (by omega), if_pos (by omega)])
    (by rw [mtimeCall, if_neg (by omega), if_neg (by omega), if_pos (by omega)])
  rw [(loaded_mtime _).1, htime] at hfirst hlast
  rw [(loaded_mtime _).2, htime] at hlow
  rw [← heq] at hlast
  exact readPair_returns (w := 32) hfirst hlow hlast 0

/-- A call at the time 7. -/
theorem counters_not_torn_mtime :
    ∃ k, 0 ≤ k ∧ k ≤ 6 ∧ (Clint.clintRun quietBus (clintAt 7#64) k).mtime = 11#64 := by
  have hx := mtimeCall_runs 7#64 (u := 2) (r := 4) (by decide) (by decide) (by decide)
  exact counters_not_torn.1 quietBus (clintAt 7#64) (mtimeCall 0 2 4) 1 0 6 11#64 hx
    (by rw [advance_one]; decide)

/-- A call that takes 2^64 - 2^32 + 3 cycles, less than a round, from the time 2^32 - 3 on: the high
word is 0 at its first and at its last reading, and the low word is read at 2^32 + 5. -/
theorem mtime_torn :
    ¬(∀ (bus : Nat → WbReq) (c₀ : Clint) (issued : Nat → Option (Issued Word Word))
      (fuel n m : Nat) (v : BitVec 64),
      Access.Exec issued (Clint.loaded bus c₀) n (Clint.clintGetMtime fuel) (some v) m →
      advance (fun _ => 1) n m < 2 ^ 64 →
      ∃ k, n ≤ k ∧ k ≤ m ∧ (Clint.clintRun bus c₀ k).mtime = v) := by
  intro h
  have hx := mtimeCall_runs 0xFFFFFFFD#64 (u := 6) (r := 2 ^ 64 - 2 ^ 32 + 1) (by decide) (by decide)
    (by decide)
  obtain ⟨k, -, hk, hv⟩ := h quietBus (clintAt 0xFFFFFFFD#64) _ 1 0 _ 5#64 hx
    (by rw [advance_one]; decide)
  have hrun := Clint.mtime_run quietBus (clintAt 0xFFFFFFFD#64) 0 k
  rw [Nat.zero_add, hv] at hrun
  have hnat := congrArg BitVec.toNat hrun
  have hstart : (Clint.clintRun quietBus (clintAt 0xFFFFFFFD#64) 0).mtime = 0xFFFFFFFD#64 := rfl
  rw [hstart, BitVec.toNat_add, BitVec.toNat_ofNat, BitVec.toNat_ofNat, BitVec.toNat_ofNat] at hnat
  omega

end MelonSoc
