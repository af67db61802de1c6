import MelonSoc.Boot.Session

set_option autoImplicit false

/-! # A silent sender

When the sender has stopped every `getc_timeout` ends with a timeout. The retries of the request
are counted while the sender has not started, and a timeout between blocks is not counted at all.
-/

namespace MelonSoc.Boot

/-- `n` timeouts. -/
def silence (n : Nat) : List Heard := List.replicate n (.error .timeout)

/-- Behind `XMODEM_SOH`, in `receive_block`. -/
def Phase.inBlock : Phase → Bool
  | .number | .inverse _ | .data _ _ _ | .crcHi _ _ _ | .crcLo _ _ _ _ => true
  | _ => false

/-- The timeouts until the next round begins. -/
def Phase.rank : Phase → Nat
  | .control | .done _ => 0
  | .number | .crcHi _ _ _ => 2
  | _ => 1

namespace Receiver

/-- A timeout between blocks counts: it asks again, or it is the end. -/
def counts (r : Receiver) : Bool := !r.syncStarted || xmodemMaxRetries ≤ r.syncRetries

/-- The receiver has returned, or timeouts count, or it is in a block on its last try. -/
def Heeds (r : Receiver) : Prop :=
  r.running = false ∨ r.counts = true ∨
    r.phase.inBlock = true ∧ xmodemMaxRetries ≤ r.blockRetries + 1#32

/-- The requests that are left. -/
def requests (r : Receiver) : Nat := if r.syncStarted then 0 else 16 - r.syncRetries.toNat

/-- A bound on the timeouts until the loader returns. -/
def patience (r : Receiver) : Nat := r.phase.rank + r.requests

variable {r : Receiver}

/-! ## A timeout -/

theorem await_counts (out : List Byte) (h : r.counts = true) : (r.await out).1.counts = true := by
  unfold await
  split
  · rename_i hask
    rw [Bool.and_eq_true] at hask
    rw [counts, hask.1, Bool.true_or]
  · exact h

theorem await_started (out : List Byte) (h : r.counts = false) :
    r.await out = ({ r with phase := .control }, out) := by
  rw [counts, Bool.or_eq_false_iff] at h
  rw [await, h.1, Bool.false_and, if_neg Bool.false_ne_true]

theorem requests_ask (h : (!r.syncStarted && r.syncRetries < xmodemMaxRetries) = true) :
    ({ r with phase := .control, syncRetries := r.syncRetries + 1#32 } : Receiver).patience
      < r.requests := by
  obtain ⟨hstarted, hlt⟩ : r.syncStarted = false ∧ r.syncRetries.toNat < 16 := by
    simpa [xmodemMaxRetries, BitVec.lt_def] using h
  have hadd : (r.syncRetries + 1#32).toNat = r.syncRetries.toNat + 1 := by
    rw [BitVec.toNat_add]
    simp
    omega
  rw [patience, requests, requests, hadd, if_neg (by simp [hstarted]), if_neg (by simp [hstarted])]
  simp only [Phase.rank]
  omega

/-- A new round does not add requests. -/
theorem await_patience (out : List Byte) : (r.await out).1.patience ≤ r.requests := by
  unfold await
  split
  · rename_i hask
    exact Nat.le_of_lt (requests_ask hask)
  · exact Nat.le_of_eq (Nat.zero_add _)

theorem heeds_await (out : List Byte) (h : r.counts = true) : (r.await out).1.Heeds :=
  .inr (.inl (await_counts out h))

theorem running_inBlock (h : r.phase.inBlock = true) : r.running = true := by
  unfold running
  split
  · rename_i result hdone
    rw [hdone] at h
    cases h
  · rfl

/-- What a timeout does. -/
theorem hear_timeout (dst : Word) (hr : r.running = true) :
    (r.phase = .control ∧ r.hear dst (.error .timeout) =
        if xmodemMaxRetries ≤ r.syncRetries then r.stop [xmodemCan, xmodemCan] (.error .timeout)
        else r.await []) ∨
      (r.phase = .second ∧ r.hear dst (.error .timeout) = r.await []) ∨
      (r.phase.inBlock = true ∧ ∃ phase : Phase, phase.inBlock = true ∧
        phase.rank < r.phase.rank ∧ r.hear dst (.error .timeout) = ({ r with phase := phase }, [])) ∨
      (r.phase.inBlock = true ∧ 0 < r.phase.rank ∧
        ∃ e, r.hear dst (.error .timeout) = r.retry e true) := by
  unfold hear
  cases hphase : r.phase with
  | control => exact .inl ⟨rfl, rfl⟩
  | second => exact .inr (.inl ⟨rfl, rfl⟩)
  | number => exact .inr (.inr (.inl ⟨rfl, .inverse (.error .timeout), rfl, Nat.lt_succ_self 1, rfl⟩))
  | inverse number =>
      refine .inr (.inr (.inr ⟨rfl, Nat.zero_lt_one, ?_⟩))
      cases number with
      | error e => exact ⟨e, rfl⟩
      | ok number => exact ⟨.timeout, rfl⟩
  | data number inverse got => exact .inr (.inr (.inr ⟨rfl, Nat.zero_lt_one, .timeout, rfl⟩))
  | crcHi number inverse data =>
      exact .inr (.inr (.inl ⟨rfl, .crcLo number inverse data (.error .timeout), rfl,
        Nat.lt_succ_self 1, rfl⟩))
  | crcLo number inverse data hi =>
      refine .inr (.inr (.inr ⟨rfl, Nat.zero_lt_one, ?_⟩))
      cases hi with
      | error e => exact ⟨e, rfl⟩
      | ok hi => exact ⟨.timeout, rfl⟩
  | done result => simp [running, hphase] at hr

/-- A timeout brings a receiver that heeds them closer to its end. -/
theorem heeds_step (dst : Word) (hr : r.running = true) (h : r.Heeds) :
    (r.hear dst (.error .timeout)).1.running = false ∨
      (r.hear dst (.error .timeout)).1.Heeds ∧
        (r.hear dst (.error .timeout)).1.patience < r.patience := by
  have hheeds : r.counts = true ∨
      r.phase.inBlock = true ∧ xmodemMaxRetries ≤ r.blockRetries + 1#32 := by
    rcases h with h | h
    · rw [hr] at h
      cases h
    · exact h
  rcases hear_timeout dst hr with ⟨hphase, heq⟩ | ⟨hphase, heq⟩ |
    ⟨hin, phase, hin', hrank, heq⟩ | ⟨hin, hrank, e, heq⟩
  · rw [heq]
    have hcounts : r.counts = true := by
      rcases hheeds with h | ⟨h, -⟩
      · exact h
      · rw [hphase] at h
        cases h
    by_cases hmax : xmodemMaxRetries ≤ r.syncRetries
    · rw [if_pos hmax]
      exact .inl rfl
    · rw [if_neg hmax]
      refine .inr ⟨heeds_await [] hcounts, ?_⟩
      have hask : (!r.syncStarted && r.syncRetries < xmodemMaxRetries) = true := by
        have hlt : r.syncRetries < xmodemMaxRetries := BitVec.not_le.mp hmax
        simpa [counts, hmax, hlt] using hcounts
      rw [await, if_pos hask]
      exact Nat.lt_of_lt_of_le (requests_ask hask) (Nat.le_add_left _ _)
  · rw [heq]
    have hcounts : r.counts = true := by
      rcases hheeds with h | ⟨h, -⟩
      · exact h
      · rw [hphase] at h
        cases h
    refine .inr ⟨heeds_await [] hcounts, Nat.lt_of_le_of_lt (await_patience []) ?_⟩
    rw [patience, hphase]
    exact Nat.lt_add_of_pos_left (by decide)
  · rw [heq]
    refine .inr ⟨?_, Nat.add_lt_add_right hrank _⟩
    rcases hheeds with h | ⟨-, h⟩
    · exact .inr (.inl h)
    · exact .inr (.inr ⟨hin', h⟩)
  · rw [heq, retry]
    by_cases hlast : xmodemMaxRetries ≤ r.blockRetries + 1#32
    · rw [if_pos hlast]
      exact .inl rfl
    · rw [if_neg hlast]
      have hcounts : r.counts = true := hheeds.resolve_right fun h => hlast h.2
      refine .inr ⟨heeds_await _ hcounts, Nat.lt_of_le_of_lt (await_patience _) ?_⟩
      exact Nat.lt_add_of_pos_left hrank

/-- A timeout does not bring one that does not heed them to its end. -/
theorem unheeded_step (dst : Word) (h : ¬r.Heeds) : ¬(r.hear dst (.error .timeout)).1.Heeds := by
  simp only [Heeds, not_or, not_and, Bool.not_eq_false, Bool.not_eq_true] at h
  obtain ⟨hr, hcounts, hblock⟩ := h
  have hawait : ∀ (out : List Byte) (b : Word),
      ¬(({ r with blockRetries := b } : Receiver).await out).1.Heeds := by
    intro out b
    rw [await_started out (show ({ r with blockRetries := b } : Receiver).counts = false from hcounts)]
    simp [Heeds, running, Phase.inBlock, show ({ r with phase := .control, blockRetries := b } :
      Receiver).counts = false from hcounts]
  rcases hear_timeout dst hr with ⟨hphase, heq⟩ | ⟨hphase, heq⟩ |
    ⟨hin, phase, hin', hrank, heq⟩ | ⟨hin, hrank, e, heq⟩
  · have hmax : ¬xmodemMaxRetries ≤ r.syncRetries := by
      rw [counts, Bool.or_eq_false_iff] at hcounts
      simpa using hcounts.2
    rw [heq, if_neg hmax]
    exact hawait [] r.blockRetries
  · rw [heq]
    exact hawait [] r.blockRetries
  · rw [heq]
    rintro (hdone | hc | ⟨-, hlast⟩)
    · rw [running_inBlock hin'] at hdone
      cases hdone
    · rw [← Bool.not_eq_true] at hcounts
      exact hcounts hc
    · exact hblock hin hlast
  · rw [heq, retry, if_neg (hblock hin)]
    exact hawait _ _

/-! ## Silence -/

section Silence

variable (dst : Word)

theorem hears_silence (p : Receiver × List Byte) (n : Nat) :
    hears dst p (silence (n + 1)) = hears dst (behind p.2 (p.1.hear dst (.error .timeout)))
      (silence n) := rfl

theorem not_running {r : Receiver} (h : r.running = false) : ∃ result, r.phase = .done result := by
  unfold running at h
  split at h
  · exact ⟨_, by assumption⟩
  · cases h

/-- A receiver that heeds timeouts returns after some of them. -/
theorem returns_of_heeds (n : Nat) (p : Receiver × List Byte) (h : p.1.Heeds)
    (hn : p.1.patience < n) : ∃ result, (hears dst p (silence n)).1.phase = .done result := by
  induction n generalizing p with
  | zero => exact absurd hn (Nat.not_lt_zero _)
  | succ n ih =>
      by_cases hr : p.1.running = true
      · rw [hears_silence]
        rcases heeds_step dst hr h with hstop | ⟨hheeds, hless⟩
        · obtain ⟨result, hdone⟩ := not_running hstop
          refine ⟨result, ?_⟩
          rw [hears_done (p := behind p.2 (p.1.hear dst (.error .timeout))) hdone]
          exact hdone
        · exact ih _ hheeds (Nat.lt_of_lt_of_le hless (Nat.le_of_lt_succ hn))
      · obtain ⟨result, hdone⟩ := not_running (Bool.not_eq_true _ ▸ hr)
        exact ⟨result, by rw [hears_done hdone]; exact hdone⟩

/-- One that does not never returns. -/
theorem running_of_unheeded (n : Nat) (p : Receiver × List Byte) (h : ¬p.1.Heeds) :
    (hears dst p (silence n)).1.running = true := by
  induction n generalizing p with
  | zero =>
      rw [Heeds, not_or, Bool.not_eq_false] at h
      exact h.1
  | succ n ih => exact ih _ (unheeded_step dst h)

end Silence

end Receiver

/-! ## The loader -/

/-- The timer has run out and no byte has come. -/
def silentPoll (start : Word) : Poll :=
  { start := 0#32, status := 0#32, statusAgain := 0#32, data := 0#32
    count := start + xmodemTimeoutTicks }

theorem getcRound_silent (start : Word) :
    getcRound start xmodemTimeoutTicks (silentPoll start) = some (.error .timeout) := by
  simp [getcRound, silentPoll]

/-- The line can be silent after anything. -/
theorem exists_silence (start : Option Word) (uart : List Poll) (n : Nat) :
    ∃ more, hearFrom start (uart ++ more) = hearFrom start uart ++ silence n := by
  induction uart generalizing start with
  | nil =>
      induction n generalizing start with
      | zero => exact ⟨[], rfl⟩
      | succ n ih =>
          obtain ⟨more, hmore⟩ := ih none
          refine ⟨silentPoll (start.getD 0#32) :: more, ?_⟩
          have hround : getcRound (start.getD (silentPoll (start.getD 0#32)).start)
              xmodemTimeoutTicks (silentPoll (start.getD 0#32)) = some (.error .timeout) :=
            getcRound_silent _
          simp only [List.nil_append, hearFrom, hround]
          rw [List.nil_append] at hmore
          rw [hmore]
          rfl
  | cons p ps ih =>
      simp only [List.cons_append, hearFrom]
      split
      · obtain ⟨more, hmore⟩ := ih none
        exact ⟨more, by rw [hmore]; rfl⟩
      · exact ih _

/-- The loader returns after some timeouts when the sender stops behind `uart`. -/
def GivesUp (dst : Word) (sizeOut : Bool) (uart : List Poll) : Prop :=
  ∃ n, ∀ (more : List Poll) (sd : List (Option Sector)) (fuel : Nat),
    hearing (uart ++ more) = hearing uart ++ silence n →
    128 < fuel → (hearing (uart ++ more)).length < fuel →
    ∃ result, ((xmodemLoadBootImage fuel dst sizeOut).run.run
      { uart := uart ++ more, sd := sd, trace := [] }).1 = .ok result

section Loader

variable {dst : Word} {uart : List Poll}

theorem givesUp_of_heeds (h : (Receiver.hears dst Receiver.start (hearing uart)).1.Heeds) :
    GivesUp dst true uart := by
  obtain ⟨result, hdone⟩ := Receiver.returns_of_heeds dst _ _ h (Nat.lt_succ_self _)
  refine ⟨(Receiver.hears dst Receiver.start (hearing uart)).1.patience + 1,
    fun more sd fuel hmore hfuel hlen => ⟨result, ?_⟩⟩
  rw [← Receiver.hears_append, ← hmore] at hdone
  have hall : hearing (uart ++ more) = hearing (uart ++ more) ++ [] := (List.append_nil _).symm
  exact (loader_returns hall hfuel hlen hdone).1

theorem not_givesUp (dst : Word) (uart : List Poll)
    (h : ¬(Receiver.hears dst Receiver.start (hearing uart)).1.Heeds) :
    ¬GivesUp dst true uart := by
  rintro ⟨n, hn⟩
  obtain ⟨more, hmore⟩ := exists_silence none uart n
  have hsplit : hearing (uart ++ more) = hearing uart ++ silence n := hmore
  obtain ⟨result, hresult⟩ := hn more [] (129 + (hearing (uart ++ more)).length) hsplit
    (by omega) (by omega)
  have hfollows := loader_follows (129 + (hearing (uart ++ more)).length) dst (uart ++ more) []
  generalize (xmodemLoadBootImage (129 + (hearing (uart ++ more)).length) dst true).run.run
    { uart := uart ++ more, sd := [], trace := [] } = run at hfollows hresult
  obtain ⟨res, w⟩ := run
  obtain rfl : res = .ok result := hresult
  obtain ⟨used, rest, hused, hdone, -⟩ := hfollows
  -- what the loader has heard is a prefix of the silence, and the receiver still runs behind it
  have hrun := Receiver.running_of_unheeded dst n _ h
  rw [← Receiver.hears_append, ← hsplit, hused, Receiver.hears_append,
    Receiver.hears_done hdone, Receiver.running, hdone] at hrun
  cases hrun

end Loader

/-- **The receiver gives up on a silent sender** exactly when the sender stops before its
first block, when all requests were sent before it, or in a block that is on its last try. -/
theorem gives_up (dst : Word) (sizeOut : Bool) (uart : List Poll) :
    GivesUp dst sizeOut uart ↔
      sizeOut = false ∨ (Receiver.hears dst Receiver.start (hearing uart)).1.Heeds := by
  cases sizeOut with
  | false => exact ⟨fun _ => .inl rfl, fun _ => ⟨0, fun _ _ _ _ _ _ => ⟨.error .image, rfl⟩⟩⟩
  | true =>
      constructor
      · intro h
        by_contra hno
        exact not_givesUp dst uart (fun hheeds => hno (.inr hheeds)) h
      · intro h
        exact givesUp_of_heeds (h.resolve_left Bool.noConfusion)

/-- The line behind `XMODEM_SOH` and nothing else. -/
def sohOnly : List Poll :=
  [{ start := 0#32, status := uartRxValid, statusAgain := uartRxValid, data := 1#32, count := 0#32 }]

/-- A sender that stops behind its first byte keeps the loader for good. -/
theorem silent_sender_hangs :
    ¬ ∀ (dst : Word) (sizeOut : Bool) (uart : List Poll), GivesUp dst sizeOut uart := by
  intro h
  refine not_givesUp 0x80000000#32 sohOnly ?_ (h _ _ _)
  simp only [Receiver.Heeds]
  decide

end MelonSoc.Boot
