import Mathlib.Init

set_option autoImplicit false

/-! # Programs that access a bus

A program reads and writes addresses and goes on with what it has read. How long it takes between
two accesses is not part of it: `Exec` is the relation between a program and a timeline of accesses,
in which the program makes its accesses one after the other and nobody else makes any.
-/

/-- A program on addresses `A` and words `W` that returns an `α`. -/
inductive Access (A W α : Type) : Type
  | ret (a : α)
  | read (adr : A) (k : W → Access A W α)
  | write (adr : A) (word : W) (k : Access A W α)

/-- An access on the timeline. -/
inductive Issued (A W : Type) : Type
  | read (adr : A)
  | write (adr : A) (word : W)
  deriving DecidableEq

namespace Access

variable {A W α β γ : Type}

def bind : Access A W α → (α → Access A W β) → Access A W β
  | .ret a, f => f a
  | .read adr k, f => .read adr fun w => (k w).bind f
  | .write adr word k, f => .write adr word (k.bind f)

instance : Monad (Access A W) where
  pure := .ret
  bind := bind

/-- Read an address. -/
def get (adr : A) : Access A W W := .read adr .ret

/-- Write an address. -/
def put (adr : A) (word : W) : Access A W Unit := .write adr word (.ret ())

@[simp] theorem pure_eq (a : α) : (pure a : Access A W α) = .ret a := rfl

@[simp] theorem ret_bind (a : α) (f : α → Access A W β) : (ret a >>= f) = f a := rfl

@[simp] theorem get_bind (adr : A) (f : W → Access A W β) : (get adr >>= f) = .read adr f := rfl

@[simp] theorem put_bind (adr : A) (word : W) (f : Unit → Access A W β) :
    (put adr word >>= f) = .write adr word (f ()) := rfl

theorem read_bind (adr : A) (k : W → Access A W α) (f : α → Access A W β) :
    (read adr k >>= f) = .read adr fun w => k w >>= f := rfl

theorem write_bind (adr : A) (word : W) (k : Access A W α) (f : α → Access A W β) :
    (write adr word k >>= f) = .write adr word (k >>= f) := rfl

/-- From the time `n` on the program makes the accesses of the timeline `issued`, with `value` what
a read gives, and has returned at the time `m`. -/
inductive Exec (issued : Nat → Option (Issued A W)) (value : Nat → A → W) :
    Nat → Access A W α → α → Nat → Prop
  | ret (n : Nat) (a : α) : Exec issued value n (.ret a) a n
  | read {n t m : Nat} {adr : A} {k : W → Access A W α} {a : α} (later : n ≤ t)
      (quiet : ∀ j, n ≤ j → j < t → issued j = none) (now : issued t = some (.read adr))
      (rest : Exec issued value (t + 1) (k (value t adr)) a m) : Exec issued value n (.read adr k) a m
  | write {n t m : Nat} {adr : A} {word : W} {k : Access A W α} {a : α} (later : n ≤ t)
      (quiet : ∀ j, n ≤ j → j < t → issued j = none) (now : issued t = some (.write adr word))
      (rest : Exec issued value (t + 1) k a m) : Exec issued value n (.write adr word k) a m

variable {issued : Nat → Option (Issued A W)} {value : Nat → A → W} {n m : Nat} {a : α} {b : β}

/-- A program in sequence runs in sequence. -/
theorem Exec.of_bind {x : Access A W α} {f : α → Access A W β}
    (h : Exec issued value n (x >>= f) b m) :
    ∃ a t, Exec issued value n x a t ∧ Exec issued value t (f a) b m := by
  induction x generalizing n with
  | ret a => exact ⟨a, n, .ret n a, h⟩
  | read adr k ih =>
      rw [read_bind] at h
      cases h with
      | read later quiet now rest =>
          obtain ⟨a, t, hx, hf⟩ := ih _ rest
          exact ⟨a, t, .read later quiet now hx, hf⟩
  | write adr word k ih =>
      rw [write_bind] at h
      cases h with
      | write later quiet now rest =>
          obtain ⟨a, t, hx, hf⟩ := ih rest
          exact ⟨a, t, .write later quiet now hx, hf⟩

/-- Programs that run one after the other run in sequence. -/
theorem Exec.bind {x : Access A W α} {f : α → Access A W β} {t : Nat}
    (hx : Exec issued value n x a t) (hf : Exec issued value t (f a) b m) :
    Exec issued value n (x >>= f) b m := by
  induction hx with
  | ret n a => exact hf
  | read later quiet now rest ih => exact .read later quiet now (ih hf)
  | write later quiet now rest ih => exact .write later quiet now (ih hf)

theorem Exec.le {x : Access A W α} (h : Exec issued value n x a m) : n ≤ m := by
  induction h with
  | ret n a => exact Nat.le_refl n
  | read later quiet now rest ih => exact Nat.le_trans later (Nat.le_of_succ_le ih)
  | write later quiet now rest ih => exact Nat.le_trans later (Nat.le_of_succ_le ih)

/-- A time without an access can go before. -/
theorem Exec.earlier {x : Access A W α} (h : Exec issued value (n + 1) x a m)
    (hq : issued n = none) : ∃ q, q ≤ m ∧ Exec issued value n x a q := by
  have hquiet : ∀ t, (∀ j, n + 1 ≤ j → j < t → issued j = none) →
      ∀ j, n ≤ j → j < t → issued j = none := by
    intro t hall j h1 h2
    rcases Nat.eq_or_lt_of_le h1 with rfl | hlt
    · exact hq
    · exact hall j hlt h2
  cases h with
  | ret => exact ⟨n, Nat.le_succ n, .ret n a⟩
  | read later quiet now rest =>
      exact ⟨m, Nat.le_refl m, .read (Nat.le_of_succ_le later) (hquiet _ quiet) now rest⟩
  | write later quiet now rest =>
      exact ⟨m, Nat.le_refl m, .write (Nat.le_of_succ_le later) (hquiet _ quiet) now rest⟩

/-- A program that only reads. -/
inductive ReadOnly : Access A W α → Prop
  | ret (a : α) : ReadOnly (.ret a)
  | read (adr : A) (k : W → Access A W α) (rest : ∀ w, ReadOnly (k w)) : ReadOnly (.read adr k)

/-- While a program that only reads runs, nothing is written. -/
theorem Exec.no_write {x : Access A W α} (h : Exec issued value n x a m) (hx : ReadOnly x)
    {j : Nat} (h1 : n ≤ j) (h2 : j < m) (adr : A) (word : W) :
    issued j ≠ some (.write adr word) := by
  induction h with
  | ret n a => omega
  | read later quiet now rest ih =>
      rename_i n t m adr' k a
      cases hx with
      | read _ _ hrest =>
          rcases Nat.lt_trichotomy j t with hlt | rfl | hgt
          · rw [quiet j h1 hlt]
            simp
          · rw [now]
            simp
          · exact ih (hrest _) hgt h2
  | write later quiet now rest ih => cases hx

end Access
