import Mathlib.Init

set_option autoImplicit false

/-! # Runs of synchronous machines

A synchronous circuit is a function `next : ι → σ → σ` that takes the inputs of a cycle and the
registers before the clock edge to the registers after it. `Clocked.run` iterates it along a
stream of inputs. A *history variable* is a value that is computed along a run from what the
machine does and is never read by it; `Clocked.history` attaches one. The rules of this file are
the induction principles for both, with an optional condition on the steps of the run, and the
transport of runs along a projection of the state.
-/

namespace Clocked

variable {σ ι γ : Type}

/-- The state before cycle `n` of the run of `next` on the inputs `inp` from `s₀`. -/
def run (next : ι → σ → σ) (inp : Nat → ι) (s₀ : σ) : Nat → σ
  | 0 => s₀
  | n + 1 => next (inp n) (run next inp s₀ n)

section Run

variable {next : ι → σ → σ} {inp : Nat → ι} {s₀ : σ}

@[simp] theorem run_zero : run next inp s₀ 0 = s₀ := rfl

@[simp] theorem run_succ (n : Nat) :
    run next inp s₀ (n + 1) = next (inp n) (run next inp s₀ n) := rfl

/-- A run goes on from where it is. -/
theorem run_add (m n : Nat) :
    run next inp s₀ (m + n) = run next (fun k => inp (m + k)) (run next inp s₀ m) n := by
  induction n with
  | zero => rfl
  | succ n ih => rw [← Nat.add_assoc, run_succ, run_succ, ih]

/-- A run depends on the inputs of its cycles only. -/
theorem run_congr {inp' : Nat → ι} {n : Nat} (h : ∀ k, k < n → inp k = inp' k) :
    run next inp s₀ n = run next inp' s₀ n := by
  induction n with
  | zero => rfl
  | succ n ih =>
      rw [run_succ, run_succ, ih fun k hk => h k (Nat.lt_succ_of_lt hk),
        h n (Nat.lt_succ_self n)]

/-- **Invariant rule.** What holds at the start and is kept by every step that meets `C` holds
at the end of every run whose steps meet `C`. -/
theorem run_invariant {P : σ → Prop} {C : ι → σ → Prop} (start : P s₀)
    (step : ∀ i s, C i s → P s → P (next i s)) {n : Nat}
    (cond : ∀ k, k < n → C (inp k) (run next inp s₀ k)) : P (run next inp s₀ n) := by
  induction n with
  | zero => exact start
  | succ n ih =>
      have hn := ih (fun k hk => cond k (Nat.lt_succ_of_lt hk))
      exact step _ _ (cond n (Nat.lt_succ_self n)) hn

/-- The invariant rule without a condition. -/
theorem run_always {P : σ → Prop} (start : P s₀) (step : ∀ i s, P s → P (next i s)) (n : Nat) :
    P (run next inp s₀ n) :=
  run_invariant (C := fun _ _ => True) start (fun i s _ h => step i s h) (fun _ _ => trivial)

end Run

/-! ## History variables -/

/-- The machine extended by a history variable that `record` updates. -/
def observe (next : ι → σ → σ) (record : ι → σ → γ → γ) (i : ι) (p : σ × γ) : σ × γ :=
  (next i p.1, record i p.1 p.2)

/-- The history variable before cycle `n`. -/
def history (next : ι → σ → σ) (record : ι → σ → γ → γ) (inp : Nat → ι) (s₀ : σ) (g₀ : γ)
    (n : Nat) : γ :=
  (run (observe next record) inp (s₀, g₀) n).2

section History

variable {next : ι → σ → σ} {record : ι → σ → γ → γ} {inp : Nat → ι} {s₀ : σ} {g₀ : γ}

/-- A history variable does not influence the run. -/
theorem run_observe_fst (n : Nat) :
    (run (observe next record) inp (s₀, g₀) n).1 = run next inp s₀ n := by
  induction n with
  | zero => rfl
  | succ n ih => simp only [run_succ, observe, ih]

@[simp] theorem history_zero : history next record inp s₀ g₀ 0 = g₀ := rfl

@[simp] theorem history_succ (n : Nat) :
    history next record inp s₀ g₀ (n + 1)
      = record (inp n) (run next inp s₀ n) (history next record inp s₀ g₀ n) := by
  rw [history, run_succ, observe, run_observe_fst]
  rfl

/-- **Invariant rule with a history variable.** -/
theorem history_invariant {P : σ → γ → Prop} {C : ι → σ → Prop} (start : P s₀ g₀)
    (step : ∀ i s g, C i s → P s g → P (next i s) (record i s g)) {n : Nat}
    (cond : ∀ k, k < n → C (inp k) (run next inp s₀ k)) :
    P (run next inp s₀ n) (history next record inp s₀ g₀ n) := by
  induction n with
  | zero => exact start
  | succ n ih =>
      rw [run_succ, history_succ]
      have hn := ih (fun k hk => cond k (Nat.lt_succ_of_lt hk))
      exact step _ _ _ (cond n (Nat.lt_succ_self n)) hn

end History

/-- A test on every cycle before `n`, in one evaluation of the run. -/
def always (next : ι → σ → σ) (test : ι → σ → Bool) (inp : Nat → ι) (s₀ : σ) (n : Nat) : Bool :=
  history next (fun i s b => b && test i s) inp s₀ true n

theorem always_iff {next : ι → σ → σ} {test : ι → σ → Bool} {inp : Nat → ι} {s₀ : σ} {n : Nat} :
    always next test inp s₀ n = true ↔
      ∀ k, k < n → test (inp k) (run next inp s₀ k) = true := by
  induction n with
  | zero => simp [always]
  | succ n ih =>
      rw [always, history_succ, Bool.and_eq_true, ← always, ih]
      constructor
      · rintro ⟨h, hn⟩ k hk
        rcases Nat.lt_succ_iff_lt_or_eq.mp hk with hlt | rfl
        · exact h k hlt
        · exact hn
      · intro h
        exact ⟨fun k hk => h k (Nat.lt_succ_of_lt hk), h n (Nat.lt_succ_self n)⟩

/-- The number of cycles before `n` at which the test is true. -/
def count (next : ι → σ → σ) (test : ι → σ → Bool) (inp : Nat → ι) (s₀ : σ) (n : Nat) : Nat :=
  history next (fun i s c => c + (test i s).toNat) inp s₀ 0 n

section Count

variable {next : ι → σ → σ} {test : ι → σ → Bool} {inp : Nat → ι} {s₀ : σ}

@[simp] theorem count_zero : count next test inp s₀ 0 = 0 := rfl

theorem count_succ (n : Nat) :
    count next test inp s₀ (n + 1)
      = count next test inp s₀ n + (test (inp n) (run next inp s₀ n)).toNat := by
  rw [count, history_succ]
  rfl

/-- What has been counted stays counted. -/
theorem count_le {m n : Nat} (h : m ≤ n) :
    count next test inp s₀ m ≤ count next test inp s₀ n := by
  induction h with
  | refl => exact Nat.le_refl _
  | step _ ih =>
      rw [count_succ]
      exact Nat.le_trans ih (Nat.le_add_right _ _)

/-- A cycle at which the test is true is the first one with its count. -/
theorem count_lt {m n : Nat} (h : m < n) (ht : test (inp m) (run next inp s₀ m) = true) :
    count next test inp s₀ m < count next test inp s₀ n := by
  have hle : count next test inp s₀ (m + 1) ≤ count next test inp s₀ n := count_le h
  rw [count_succ, ht] at hle
  exact hle

theorem count_eq_zero {n : Nat} (h : ∀ k, k < n → test (inp k) (run next inp s₀ k) = false) :
    count next test inp s₀ n = 0 := by
  induction n with
  | zero => rfl
  | succ n ih =>
      rw [count_succ, h n (Nat.lt_succ_self n), ih fun k hk => h k (Nat.lt_succ_of_lt hk)]
      rfl

end Count

/-! ## Progress -/

section Progress

variable {ν : Type} {next : ι → σ → σ} {inp : Nat → ι} {s₀ : σ}

/-- Up to the next input that meets the need of a state, the state is left or the rank drops. -/
theorem rank_drops {P : σ → Prop} {rank : σ → Nat} {need : σ → ν} {meets : ν → ι → Prop}
    (step : ∀ k, P (run next inp s₀ k) → P (run next inp s₀ (k + 1)) →
      rank (run next inp s₀ (k + 1)) < rank (run next inp s₀ k) ∨
        (rank (run next inp s₀ (k + 1)) = rank (run next inp s₀ k) ∧
          need (run next inp s₀ (k + 1)) = need (run next inp s₀ k) ∧
          ¬ meets (need (run next inp s₀ k)) (inp k)))
    (d n : Nat) (h : P (run next inp s₀ n))
    (hmeets : meets (need (run next inp s₀ n)) (inp (n + d))) :
    ∃ k, n ≤ k ∧ (∀ j, n ≤ j → j ≤ k → P (run next inp s₀ j)) ∧
      (¬ P (run next inp s₀ (k + 1)) ∨
        (P (run next inp s₀ (k + 1)) ∧
          rank (run next inp s₀ (k + 1)) < rank (run next inp s₀ n))) := by
  induction d generalizing n with
  | zero =>
      refine ⟨n, Nat.le_refl n, fun j h1 h2 => by rw [Nat.le_antisymm h2 h1]; exact h, ?_⟩
      by_cases hn : P (run next inp s₀ (n + 1))
      · rcases step n h hn with hr | ⟨-, -, hno⟩
        · exact .inr ⟨hn, hr⟩
        · exact absurd hmeets hno
      · exact .inl hn
  | succ d ih =>
      have hself : ∀ j, n ≤ j → j ≤ n → P (run next inp s₀ j) :=
        fun j h1 h2 => by rw [Nat.le_antisymm h2 h1]; exact h
      by_cases hn : P (run next inp s₀ (n + 1))
      · rcases step n h hn with hr | ⟨hr, hneed, -⟩
        · exact ⟨n, Nat.le_refl n, hself, .inr ⟨hn, hr⟩⟩
        · have hidx : n + (d + 1) = n + 1 + d := by omega
          rw [hidx, ← hneed] at hmeets
          obtain ⟨k, hk, hall, hend⟩ := ih (n + 1) hn hmeets
          refine ⟨k, by omega, fun j h1 h2 => ?_, ?_⟩
          · rcases Nat.eq_or_lt_of_le h1 with rfl | hlt
            · exact h
            · exact hall j hlt h2
          · rw [← hr]
            exact hend
      · exact ⟨n, Nat.le_refl n, hself, .inl hn⟩

/-- **Progress rule.** Every step inside `P` lowers the rank, or keeps rank and need of the state
without meeting the need; and every need is met again and again. Then the run leaves `P`. -/
theorem run_leaves {P : σ → Prop} {rank : σ → Nat} {need : σ → ν} {meets : ν → ι → Prop}
    (fair : ∀ v n, ∃ k, n ≤ k ∧ meets v (inp k))
    (step : ∀ k, P (run next inp s₀ k) → P (run next inp s₀ (k + 1)) →
      rank (run next inp s₀ (k + 1)) < rank (run next inp s₀ k) ∨
        (rank (run next inp s₀ (k + 1)) = rank (run next inp s₀ k) ∧
          need (run next inp s₀ (k + 1)) = need (run next inp s₀ k) ∧
          ¬ meets (need (run next inp s₀ k)) (inp k)))
    (n : Nat) (h : P (run next inp s₀ n)) :
    ∃ k, n ≤ k ∧ (∀ j, n ≤ j → j ≤ k → P (run next inp s₀ j)) ∧
      ¬ P (run next inp s₀ (k + 1)) := by
  generalize hr : rank (run next inp s₀ n) = r
  induction r using Nat.strongRecOn generalizing n with
  | ind r ih =>
      obtain ⟨m, hm, hmeets⟩ := fair (need (run next inp s₀ n)) n
      obtain ⟨d, rfl⟩ := Nat.exists_eq_add_of_le hm
      obtain ⟨k, hk, hall, hend⟩ := rank_drops step d n h hmeets
      rcases hend with hend | ⟨hp, hlt⟩
      · exact ⟨k, hk, hall, hend⟩
      · obtain ⟨k', hk', hall', hend'⟩ := ih _ (hr ▸ hlt) (k + 1) hp rfl
        refine ⟨k', by omega, fun j h1 h2 => ?_, hend'⟩
        by_cases hj : j ≤ k
        · exact hall j h1 hj
        · exact hall' j (by omega) h2

/-- **Progress of a sequence.** Every step that misses the goal lowers the rank, or keeps rank and
need without meeting the need; and every need is met again and again. Then the goal is reached. -/
theorem eventually {ν : Type} {goal : Nat → Prop} {rank : Nat → Nat} {need : Nat → ν}
    {meets : Nat → ν → Prop} (fair : ∀ v n, ∃ k, n ≤ k ∧ meets k v)
    (step : ∀ k, ¬ goal k → rank (k + 1) < rank k ∨
      (rank (k + 1) = rank k ∧ need (k + 1) = need k ∧ ¬ meets k (need k)))
    (n : Nat) : ∃ k, n ≤ k ∧ goal k := by
  refine Classical.byContradiction fun hnone => ?_
  -- the places of the sequence are the states of a machine that never leaves the places from `n` on
  have hplace : ∀ k, run (fun (_ : Nat) k => k + 1) id 0 k = k := by
    intro k
    induction k with
    | zero => rfl
    | succ k ih => rw [run_succ, ih]
  obtain ⟨k, hk, -, hend⟩ := @run_leaves Nat Nat ν (fun _ k => k + 1) id 0 (fun k => n ≤ k) rank
    need (fun v k => meets k v) fair
    (fun k h _ => by
      rw [hplace, hplace]
      rw [hplace] at h
      exact step k fun hg => hnone ⟨k, h, hg⟩)
    n (Nat.le_of_eq (hplace n).symm)
  rw [hplace] at hend
  omega

end Progress

/-! ## Projections -/

/-- A component of a larger machine makes a run of its own, on the inputs it receives there. -/
theorem run_project {σ' ι' : Type} {next : ι → σ → σ} {next' : ι' → σ' → σ'} (proj : σ → σ')
    (feed : ι → σ → ι') (step : ∀ i s, proj (next i s) = next' (feed i s) (proj s))
    (inp : Nat → ι) (s₀ : σ) (n : Nat) :
    proj (run next inp s₀ n)
      = run next' (fun k => feed (inp k) (run next inp s₀ k)) (proj s₀) n := by
  induction n with
  | zero => rfl
  | succ n ih => rw [run_succ, run_succ, step, ih]

end Clocked
