import MelonSoc.Boot.Session
import MelonSoc.Boot.FatBoot
import Mathlib.Data.Set.Finite.Lattice
import Mathlib.Order.Bounds.Basic

set_option autoImplicit false

/-! # Runs on a card

A card answers every read of a sector in the same way. `Computes` is the run of a program whose
reads a card answers, `Runs` its triple for total correctness: the program returns as soon as there
is enough fuel, and the postcondition holds of what it returns and of what it has done.
-/

namespace MelonSoc.Boot

/-- The sectors of a card; `none` where the read fails. -/
abbrev Card := Word → Option Sector

/-- The sectors that were read. -/
def readsIn (t : List Event) : List Word :=
  t.filterMap fun e => match e with
    | .readBlock lba => some lba
    | _ => none

@[simp] theorem readsIn_append (t t' : List Event) : readsIn (t ++ t') = readsIn t ++ readsIn t' :=
  List.filterMap_append

@[simp] theorem storedBytes_append (t t' : List Event) :
    storedBytes (t ++ t') = storedBytes t ++ storedBytes t' := List.filterMap_append

/-- On the card the program ends with `r` and does `t`. It reads one sector behind the other: when
there is no answer to one of its reads it does not come any further. -/
structure Computes {α : Type} (card : Card) (x : Loader α) (r : Except Stop α) (t : List Event) :
    Prop where
  ends : ∀ (w : World) (rest : List (Option Sector)), w.sd = (readsIn t).map card ++ rest →
    x.run.run w = (r, { w with sd := rest, trace := w.trace ++ t })
  waits : ∀ (w : World) (k : Nat), k < (readsIn t).length →
    w.sd = ((readsIn t).take k).map card → ∃ t', readsIn t' = (readsIn t).take (k + 1) ∧
      x.run.run w = (.error .starved, { w with sd := [], trace := w.trace ++ t' })

section Computes

variable {α β : Type} {card : Card}

/-- A program that reads nothing. -/
theorem Computes.quiet {x : Loader α} {r : Except Stop α} {t : List Event} (ht : readsIn t = [])
    (h : ∀ w, x.run.run w = (r, { w with trace := w.trace ++ t })) : Computes card x r t where
  ends := by
    intro w rest hw
    rw [ht, List.map_nil, List.nil_append] at hw
    rw [h w, ← hw]
  waits := by
    intro w k hk
    rw [ht] at hk
    exact absurd hk (Nat.not_lt_zero k)

theorem Computes.pure (a : α) : Computes card (pure a) (.ok a) [] :=
  .quiet rfl fun w => by rw [List.append_nil]; rfl

theorem computes_throw (e : Stop) : Computes card (throw e : Loader α) (.error e) [] :=
  .quiet rfl fun w => by rw [List.append_nil]; rfl

theorem computes_emit {e : Event} (h : readsIn [e] = []) : Computes card (emit e) (.ok ()) [e] :=
  .quiet h fun _ => rfl

theorem computes_read (lba : Word) :
    Computes card (sdcardReadBlock lba) (.ok (card lba)) [.readBlock lba] where
  ends := by
    rintro ⟨uart, sd, trace⟩ rest hw
    obtain rfl : sd = card lba :: rest := hw
    rfl
  waits := by
    rintro ⟨uart, sd, trace⟩ k hk hw
    obtain rfl : k = 0 := Nat.lt_one_iff.mp hk
    obtain rfl : sd = [] := hw
    exact ⟨[.readBlock lba], rfl, rfl⟩

theorem bind_run (x : Loader α) (f : α → Loader β) (w : World) : (x >>= f).run.run w =
    (ExceptT.bindCont f (x.run.run w).1).run (x.run.run w).2 := rfl

/-- When the first program waits for a sector, so do both. -/
theorem Computes.waits_bind {x : Loader α} {f : α → Loader β} {r : Except Stop α}
    {t t' : List Event} (hx : Computes card x r t) (w : World) (k : Nat)
    (hk : k < (readsIn t).length) (hw : w.sd = ((readsIn (t ++ t')).take k).map card) :
    ∃ t'', readsIn t'' = (readsIn (t ++ t')).take (k + 1) ∧
      (x >>= f).run.run w = (.error .starved, { w with sd := [], trace := w.trace ++ t'' }) := by
  have htake : ∀ n, n ≤ (readsIn t).length →
      (readsIn (t ++ t')).take n = (readsIn t).take n := by
    intro n hn
    rw [readsIn_append, List.take_append_of_le_length hn]
  rw [htake k (Nat.le_of_lt hk)] at hw
  obtain ⟨t'', hreads, hrun⟩ := hx.waits w k hk hw
  refine ⟨t'', by rw [hreads, htake _ hk], ?_⟩
  rw [bind_run, hrun]
  rfl

theorem Computes.bind {x : Loader α} {f : α → Loader β} {a : α} {r : Except Stop β}
    {t t' : List Event} (hx : Computes card x (.ok a) t) (hf : Computes card (f a) r t') :
    Computes card (x >>= f) r (t ++ t') where
  ends := by
    intro w rest h
    rw [readsIn_append, List.map_append, List.append_assoc] at h
    rw [bind_run, hx.ends w _ h, ← List.append_assoc]
    exact hf.ends { w with sd := (readsIn t').map card ++ rest, trace := w.trace ++ t } rest rfl
  waits := by
    intro w k hk hw
    by_cases hlt : k < (readsIn t).length
    · exact hx.waits_bind w k hlt hw
    · rw [Nat.not_lt] at hlt
      rw [readsIn_append, List.length_append] at hk
      rw [readsIn_append, List.take_append, List.take_of_length_le hlt, List.map_append] at hw
      obtain ⟨t'', hreads, hrun⟩ := hf.waits
        { w with sd := ((readsIn t').take (k - (readsIn t).length)).map card
                 trace := w.trace ++ t } (k - (readsIn t).length) (by omega) rfl
      refine ⟨t ++ t'', ?_, ?_⟩
      · rw [readsIn_append, hreads, readsIn_append, List.take_append,
          List.take_of_length_le (Nat.le_succ_of_le hlt), Nat.sub_add_comm hlt]
      · rw [bind_run, hx.ends w _ hw, ← List.append_assoc]
        exact hrun

theorem Computes.bind_error {x : Loader α} {f : α → Loader β} {e : Stop} {t : List Event}
    (hx : Computes card x (.error e) t) : Computes card (x >>= f) (.error e) t where
  ends := by
    intro w rest h
    rw [bind_run, hx.ends w rest h]
    rfl
  waits := by
    intro w k hk hw
    rw [← List.append_nil t] at hw ⊢
    exact hx.waits_bind w k hk hw

/-- Two runs of a program on a card read the same sectors. -/
theorem Computes.reads_eq {x : Loader α} {r r' : Except Stop α} {t t' : List Event}
    (h : Computes card x r t) (h' : Computes card x r' t') (hr : r ≠ .error .starved)
    (hle : (readsIn t).length ≤ (readsIn t').length) : readsIn t = readsIn t' := by
  have hprefix : ∀ k, k ≤ (readsIn t).length → (readsIn t).take k = (readsIn t').take k := by
    intro k
    induction k with
    | zero => exact fun _ => rfl
    | succ k ih =>
        intro hk
        have hsame := ih (Nat.le_of_succ_le hk)
        let w : World := { uart := [], sd := ((readsIn t).take k).map card, trace := [] }
        obtain ⟨t1, h1, hrun1⟩ := h.waits w k hk rfl
        obtain ⟨t2, h2, hrun2⟩ := h'.waits w k (Nat.lt_of_lt_of_le hk hle)
          (by rw [← hsame])
        rw [hrun1] at hrun2
        have htrace : t1 = t2 := congrArg World.trace (Prod.ext_iff.mp hrun2).2
        rw [← h1, htrace, h2]
  have hall := hprefix _ (Nat.le_refl _)
  rw [List.take_length] at hall
  by_cases hlt : (readsIn t).length < (readsIn t').length
  · let w : World := { uart := [], sd := (readsIn t).map card, trace := [] }
    have hend := h.ends w [] (List.append_nil _).symm
    obtain ⟨t2, -, hrun2⟩ := h'.waits w _ hlt (by rw [← hall])
    rw [hend] at hrun2
    exact absurd (Prod.ext_iff.mp hrun2).1 hr
  · rw [hall, List.take_of_length_le (Nat.not_lt.mp hlt)]

/-- A program does one thing on a card. -/
theorem Computes.unique {x : Loader α} {r r' : Except Stop α} {t t' : List Event}
    (h : Computes card x r t) (h' : Computes card x r' t') (hr : r ≠ .error .starved)
    (hr' : r' ≠ .error .starved) : r = r' ∧ t = t' := by
  have hreads : readsIn t = readsIn t' := by
    rcases Nat.le_total (readsIn t).length (readsIn t').length with hle | hle
    · exact h.reads_eq h' hr hle
    · exact (h'.reads_eq h hr' hle).symm
  have h1 := h.ends { uart := [], sd := (readsIn t).map card, trace := [] } []
    (List.append_nil _).symm
  have h2 := h'.ends { uart := [], sd := (readsIn t).map card, trace := [] } []
    (by rw [List.append_nil, hreads])
  rw [h1] at h2
  obtain ⟨hres, hw⟩ := Prod.ext_iff.mp h2
  exact ⟨hres, congrArg World.trace hw⟩

end Computes

/-! ## Total correctness -/

/-- With enough fuel the program returns on the card, with `Q`. -/
def Runs {α : Type} (card : Card) (x : Nat → Loader α) (Q : α → List Event → Prop) : Prop :=
  ∃ N a t, (∀ fuel, N ≤ fuel → Computes card (x fuel) (.ok a) t) ∧ Q a t

section Rules

variable {α β : Type} {card : Card} {Q Q' : α → List Event → Prop}

theorem Runs.mono {x : Nat → Loader α} (h : Runs card x Q) (hQ : ∀ a t, Q a t → Q' a t) :
    Runs card x Q' := by
  obtain ⟨N, a, t, hx, hq⟩ := h
  exact ⟨N, a, t, hx, hQ a t hq⟩

/-- What a program does on a card is all it does. -/
theorem Runs.and {x : Nat → Loader α} (h : Runs card x Q) (h' : Runs card x Q') :
    Runs card x fun a t => Q a t ∧ Q' a t := by
  obtain ⟨N, a, t, hx, hq⟩ := h
  obtain ⟨M, a', t', hx', hq'⟩ := h'
  obtain ⟨ha, rfl⟩ := (hx (max N M) (Nat.le_max_left N M)).unique (hx' _ (Nat.le_max_right N M))
    (by simp) (by simp)
  obtain rfl := Except.ok.inj ha
  exact ⟨N, a, t, hx, hq, hq'⟩

/-- The run itself, beside what holds of it. -/
theorem Runs.self {x : Nat → Loader α} (h : Runs card x Q) :
    Runs card x fun a t => Q a t ∧ Runs card x fun a' t' => a' = a ∧ t' = t := by
  obtain ⟨N, a, t, hx, hq⟩ := h
  exact ⟨N, a, t, hx, hq, N, a, t, hx, rfl, rfl⟩

theorem Runs.pure {a : α} (h : Q a []) : Runs card (fun _ => pure a) Q :=
  ⟨0, a, [], fun _ _ => .pure a, h⟩

theorem Runs.bind {x : Nat → Loader α} {f : α → Nat → Loader β} {Q' : β → List Event → Prop}
    (hx : Runs card x Q)
    (hf : ∀ a t, Q a t → Runs card (f a) fun b t' => Q' b (t ++ t')) :
    Runs card (fun fuel => x fuel >>= fun a => f a fuel) Q' := by
  obtain ⟨N, a, t, hx, hq⟩ := hx
  obtain ⟨M, b, t', hf, hq'⟩ := hf a t hq
  exact ⟨max N M, b, t ++ t', fun fuel hfuel => (hx fuel (by omega)).bind (hf fuel (by omega)), hq'⟩

theorem runs_emit {e : Event} {Q : Unit → List Event → Prop} (h : readsIn [e] = [])
    (hQ : Q () [e]) : Runs card (fun _ => emit e) Q :=
  ⟨0, (), [e], fun _ _ => computes_emit h, hQ⟩

theorem runs_read {Q : Option Sector → List Event → Prop} {lba : Word}
    (h : Q (card lba) [.readBlock lba]) : Runs card (fun _ => sdcardReadBlock lba) Q :=
  ⟨0, _, _, fun _ _ => computes_read lba, h⟩

/-- An addition or a subtraction leaves at most a mark. -/
def Marks (t : List Event) : Prop := ∀ e ∈ t, ∃ op, e = .wrapped op

theorem readsIn_marks {t : List Event} (h : Marks t) : readsIn t = [] := by
  refine List.filterMap_eq_nil_iff.mpr fun e he => ?_
  obtain ⟨op, rfl⟩ := h e he
  rfl

theorem storedBytes_marks {t : List Event} (h : Marks t) : storedBytes t = [] := by
  refine List.filterMap_eq_nil_iff.mpr fun e he => ?_
  obtain ⟨op, rfl⟩ := h e he
  rfl

theorem runs_mark (op : Arith) (c : Prop) [Decidable c] (a : Word) :
    Runs card (fun _ => do
        if c then emit (.wrapped op)
        pure a)
      fun r t => r = a ∧ Marks t := by
  by_cases hc : c
  · simp only [hc, if_true]
    refine (runs_emit (Q := fun _ t => Marks t) rfl ?_).bind fun _ t ht => .pure ⟨rfl, ?_⟩
    · intro e he
      exact ⟨op, List.mem_singleton.mp he⟩
    · rw [List.append_nil]
      exact ht
  · simp only [hc, if_false]
    exact .pure ⟨rfl, fun e he => absurd he List.not_mem_nil⟩

theorem runs_add (op : Arith) (a b : Word) :
    Runs card (fun _ => add op a b) fun r t => r = a + b ∧ Marks t := runs_mark op _ _

theorem runs_sub (op : Arith) (a b : Word) :
    Runs card (fun _ => sub op a b) fun r t => r = a - b ∧ Marks t := runs_mark op _ _

theorem Runs.emit_bind {e : Event} {f : Nat → Loader β} {Q : β → List Event → Prop}
    (h : readsIn [e] = []) (hf : Runs card f fun b t => Q b (e :: t)) :
    Runs card (fun fuel => emit e >>= fun _ => f fuel) Q :=
  (runs_emit (Q := fun _ t => t = [e]) h rfl).bind fun _ _ ht => ht ▸ hf

theorem Runs.add_bind {op : Arith} {a b : Word} {f : Word → Nat → Loader β}
    {Q : β → List Event → Prop}
    (hf : ∀ t, Marks t → Runs card (f (a + b)) fun r t' => Q r (t ++ t')) :
    Runs card (fun fuel => add op a b >>= fun r => f r fuel) Q :=
  (runs_add op a b).bind fun _ t ht => ht.1 ▸ hf t ht.2

theorem Runs.sub_bind {op : Arith} {a b : Word} {f : Word → Nat → Loader β}
    {Q : β → List Event → Prop}
    (hf : ∀ t, Marks t → Runs card (f (a - b)) fun r t' => Q r (t ++ t')) :
    Runs card (fun fuel => sub op a b >>= fun r => f r fuel) Q :=
  (runs_sub op a b).bind fun _ t ht => ht.1 ▸ hf t ht.2

theorem Runs.read_bind {lba : Word} {f : Option Sector → Nat → Loader β}
    {Q : β → List Event → Prop}
    (hf : Runs card (f (card lba)) fun r t => Q r (.readBlock lba :: t)) :
    Runs card (fun fuel => sdcardReadBlock lba >>= fun r => f r fuel) Q :=
  (runs_read (Q := fun r t => r = card lba ∧ t = [.readBlock lba]) ⟨rfl, rfl⟩).bind
    fun _ _ ht => ht.1 ▸ ht.2 ▸ hf

/-- **Loop rule.** An invariant of the loop variables and of what was done, and a measure that each
round makes smaller. -/
theorem Runs.loop {f : Nat → β → Loader (β ⊕ α)} (I : β → List Event → Prop) (m : β → Nat)
    (hbody : ∀ b t, I b t → Runs card (fun fuel => f fuel b) fun r t' =>
      (∀ b', r = .inl b' → I b' (t ++ t') ∧ m b' < m b) ∧ ∀ a, r = .inr a → Q a (t ++ t'))
    (b : β) (h : I b []) : Runs card (fun fuel => Prog.loop .fuel (f fuel) fuel b) Q := by
  have hloop : ∀ k b t, m b < k → I b t → ∃ N a t', (∀ fuel n, N ≤ fuel → N ≤ n →
      Computes card (Prog.loop .fuel (f fuel) n b) (.ok a) t') ∧ Q a (t ++ t') := by
    intro k
    induction k with
    | zero => exact fun b t hk => absurd hk (Nat.not_lt_zero _)
    | succ k ih =>
        intro b t hk hI
        obtain ⟨N, r, t1, hrun, hnext, hend⟩ := hbody b t hI
        cases r with
        | inl b' =>
            obtain ⟨hI', hm⟩ := hnext b' rfl
            obtain ⟨M, a, t2, hrest, hq⟩ := ih b' (t ++ t1) (by omega) hI'
            refine ⟨max N M + 1, a, t1 ++ t2, fun fuel n hfuel hn => ?_, ?_⟩
            · obtain ⟨n, rfl⟩ : ∃ n', n = n' + 1 := ⟨n - 1, by omega⟩
              rw [Prog.loop]
              exact (hrun fuel (by omega)).bind (hrest fuel n (by omega) (by omega))
            · rw [← List.append_assoc]
              exact hq
        | inr a =>
            refine ⟨N + 1, a, t1, fun fuel n hfuel hn => ?_, hend a rfl⟩
            obtain ⟨n, rfl⟩ : ∃ n', n = n' + 1 := ⟨n - 1, by omega⟩
            rw [Prog.loop, ← List.append_nil t1]
            exact (hrun fuel (by omega)).bind (Computes.pure a)
  obtain ⟨N, a, t, hrun, hq⟩ := hloop (m b + 1) b [] (by omega) h
  exact ⟨N, a, t, fun fuel hfuel => hrun fuel fuel hfuel hfuel, hq⟩

/-- With a finite type of variables one amount of fuel is enough for all of them. -/
theorem Runs.uniform [Finite β] {x : β → Nat → Loader α} {Q : β → α → List Event → Prop}
    {I : β → Prop} (h : ∀ b, I b → Runs card (x b) (Q b)) :
    ∃ N, ∀ b, I b → ∃ a t, (∀ fuel, N ≤ fuel → Computes card (x b fuel) (.ok a) t) ∧ Q b a t := by
  have hsome : ∀ b, ∃ N, I b → ∃ a t,
      (∀ fuel, N ≤ fuel → Computes card (x b fuel) (.ok a) t) ∧ Q b a t := by
    intro b
    by_cases hb : I b
    · obtain ⟨N, a, t, hx, hq⟩ := h b hb
      exact ⟨N, fun _ => ⟨a, t, hx, hq⟩⟩
    · exact ⟨0, fun hno => absurd hno hb⟩
  choose N hN using hsome
  obtain ⟨M, hM⟩ := (Set.finite_range N).bddAbove
  refine ⟨M, fun b hb => ?_⟩
  obtain ⟨a, t, hx, hq⟩ := hN b hb
  exact ⟨a, t, fun fuel hfuel => hx fuel (Nat.le_trans (hM ⟨b, rfl⟩) hfuel), hq⟩

/-- A loop whose rounds all go on uses up any fuel. -/
theorem loop_forever (card : Card) [Finite β] {f : Nat → β → Loader (β ⊕ α)} {I : β → Prop}
    (hbody : ∀ b, I b → Runs card (fun fuel => f fuel b) fun r _ => ∃ b', r = .inl b' ∧ I b') :
    ∃ N, ∀ fuel, N ≤ fuel → ∀ n b, I b →
      ∃ t, Computes card (Prog.loop .fuel (f fuel) n b) (.error .fuel) t := by
  obtain ⟨N, hN⟩ := Runs.uniform (x := fun b fuel => f fuel b) hbody
  refine ⟨N, fun fuel hfuel n => ?_⟩
  induction n with
  | zero => exact fun b _ => ⟨[], computes_throw .fuel⟩
  | succ n ih =>
      intro b hb
      obtain ⟨r, t, hround, b', rfl, hb'⟩ := hN b hb
      obtain ⟨t', hrest⟩ := ih b' hb'
      refine ⟨t ++ t', ?_⟩
      rw [Prog.loop]
      exact (hround fuel hfuel).bind hrest

end Rules

end MelonSoc.Boot
