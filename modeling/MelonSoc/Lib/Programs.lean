import Mathlib.Init

set_option autoImplicit false

/-! # Programs that can stop anywhere

A program works on a state and either returns a value or stops early; the state it leaves behind
is there in both cases. `Prog.Meets` is the triple of such a program: a precondition, a
postcondition of what is returned, and a condition on the state when it stops. A loop has fuel
and stops when it runs out, so a triple about all fuels is a triple about every prefix of every
run.
-/

/-- A program on states `σ` that returns an `α` or stops with an `ε`. -/
abbrev Prog (ε σ α : Type) := ExceptT ε (StateM σ) α

namespace Prog

variable {ε σ α β : Type}

/-- What is true after a run: `Q` of a value that was returned, `R` after a stop. -/
def After (Q : α → σ → Prop) (R : σ → Prop) : Except ε α × σ → Prop
  | (.ok a, s) => Q a s
  | (.error _, s) => R s

/-- From a state with `P` the program returns with `Q` or stops with `R`. -/
def Meets (P : σ → Prop) (x : Prog ε σ α) (Q : α → σ → Prop) (R : σ → Prop) : Prop :=
  ∀ s, P s → After Q R (x.run.run s)

/-- A loop with a fuel: the body goes on with `.inl` or leaves with `.inr`. -/
def loop (out : ε) (body : β → Prog ε σ (β ⊕ α)) : Nat → β → Prog ε σ α
  | 0, _ => throw out
  | n + 1, b => do
      match ← body b with
      | .inl b' => loop out body n b'
      | .inr a => pure a

/-! ## Rules -/

section Rules

variable {P P' : σ → Prop} {Q Q' : α → σ → Prop} {R R' : σ → Prop}

theorem After.mono {r : Except ε α × σ} (h : After Q R r) (hQ : ∀ a s, Q a s → Q' a s)
    (hR : ∀ s, R s → R' s) : After Q' R' r := by
  obtain ⟨r, s⟩ := r
  cases r with
  | ok a => exact hQ a s h
  | error e => exact hR s h

theorem Meets.mono {x : Prog ε σ α} (h : Meets P x Q R) (hP : ∀ s, P' s → P s)
    (hQ : ∀ a s, Q a s → Q' a s) (hR : ∀ s, R s → R' s) : Meets P' x Q' R' :=
  fun s hs => (h s (hP s hs)).mono hQ hR

theorem Meets.pure {a : α} (h : ∀ s, P s → Q a s) : Meets P (pure a : Prog ε σ α) Q R :=
  fun s hs => h s hs

theorem Meets.throw {e : ε} (h : ∀ s, P s → R s) : Meets P (throw e : Prog ε σ α) Q R :=
  fun s hs => h s hs

theorem Meets.bind {x : Prog ε σ α} {f : α → Prog ε σ β} {Q' : β → σ → Prop}
    (hx : Meets P x Q R) (hf : ∀ a, Meets (Q a) (f a) Q' R) : Meets P (x >>= f) Q' R := by
  intro s hs
  have h := hx s hs
  show After Q' R ((ExceptT.bindCont f (x.run.run s).1).run (x.run.run s).2)
  generalize x.run.run s = r at h
  obtain ⟨r, s'⟩ := r
  cases r with
  | ok a => exact hf a s' h
  | error e => exact h

/-- What the precondition says of the values is at hand in the proof. -/
theorem Meets.pre {φ : Prop} {x : Prog ε σ α} (h : φ → Meets P x Q R) :
    Meets (fun s => φ ∧ P s) x Q R :=
  fun s hs => h hs.1 s hs.2

theorem Meets.exists {γ : Type} {P : γ → σ → Prop} {x : Prog ε σ α}
    (h : ∀ c, Meets (P c) x Q R) : Meets (fun s => ∃ c, P c s) x Q R := by
  rintro s ⟨c, hs⟩
  exact h c s hs

/-- A program that begins by looking at the state. -/
theorem Meets.get_bind {f : σ → Prog ε σ α} (h : ∀ s, P s → After Q R ((f s).run.run s)) :
    Meets P (get >>= f) Q R :=
  fun s hs => h s hs

/-- **Loop rule.** What holds of the loop variables at the start and is kept by the body until it
leaves holds whenever the loop stops. -/
theorem Meets.loop {e : ε} {f : β → Prog ε σ (β ⊕ α)} {I : β → σ → Prop}
    (hbody : ∀ b, Meets (I b) (f b) (fun r s => Sum.elim (I · s) (Q · s) r) R)
    (hR : ∀ b s, I b s → R s) (n : Nat) (b : β) : Meets (I b) (Prog.loop e f n b) Q R := by
  induction n generalizing b with
  | zero => exact Meets.throw (hR b)
  | succ n ih =>
      refine (hbody b).bind fun r => ?_
      cases r with
      | inl b' => exact ih b'
      | inr a => exact Meets.pure fun _ h => h

end Rules

end Prog
