import MelonSoc.Rtos.Blocking

set_option autoImplicit false

/-! # The calls that wait

The invariant of the kernel between two calls, and what keeps it: the timer interrupt, the
suspension of the scheduler, and the calls with which a task waits or ends the waiting of another.
-/

namespace MelonSoc

namespace FreeRtos

open FreeRtos.Lists Kernel

variable {k k₁ k' : Kernel} {f : TaskList → Option (Wheel TaskItem)} {idle : Option Tcb}
  {i : Tcb} {c : Finset Tcb} {l : TaskList} {t : Tcb} {A A' d e : Nat}

/-- The tasks that wait for the idle task to release their memory. -/
def gone (c : Finset Tcb) (k : Kernel) : Finset Tcb :=
  c.filter fun t => k.stateList t = some .xTasksWaitingTermination

/-- What holds between two calls, and also where a switch is still to come: `idle` is the idle task
once the scheduler runs, and `A` counts the ticks that have been processed. -/
structure Sound (k : Kernel) (idle : Option Tcb) (c : Finset Tcb) (A : Nat) : Prop where
  core : Core k idle c (k.xTickCount + 1)
  clock : k.xTickCount = A % 2 ^ 32
  caught : k.uxSchedulerSuspended = 0 →
    k.xPendedTicks = 0 ∧ ∀ t ∈ c, k.eventList t ≠ some .xPendingReadyList
  small : k.uxSchedulerSuspended < 2 ^ 32 ∧ k.xPendedTicks < 2 ^ 32
  running : k.xSchedulerRunning = idle.isSome
  cleanUp : k.uxDeletedTasksWaitingCleanUp = (gone c k).card
  fresh : idle = none → A = 0 ∧ k.uxSchedulerSuspended = 0 ∧
    ∀ t ∈ c, ∃ p, k.stateList t = some (.pxReadyTasksLists p)

/-- **The invariant** between two calls: the running task has not been deleted, and no task of a
higher priority is ready unless a switch is owed. -/
structure Inv (k : Kernel) (idle : Option Tcb) (c : Finset Tcb) (A : Nat) : Prop
    extends Sound k idle c A where
  alive : ∀ t, k.pxCurrentTCB = some t → k.stateList t ≠ some .xTasksWaitingTermination
  settled : Settled k c

theorem gone_congr (h : ∀ t ∈ c, k'.stateList t = some .xTasksWaitingTermination ↔
    k.stateList t = some .xTasksWaitingTermination) : gone c k' = gone c k :=
  Finset.filter_congr h

/-- A call that deletes no task keeps the invariant if it keeps the core. -/
theorem Sound.keep (S : Sound k (some i) c A) (C' : Core k' (some i) c (k'.xTickCount + 1))
    (hclock : k'.xTickCount = A' % 2 ^ 32)
    (hsmall : k'.uxSchedulerSuspended < 2 ^ 32 ∧ k'.xPendedTicks < 2 ^ 32)
    (hpended : k'.uxSchedulerSuspended = 0 → k'.xPendedTicks = 0)
    (hrun : k'.xSchedulerRunning = k.xSchedulerRunning)
    (hcount : k'.uxDeletedTasksWaitingCleanUp = k.uxDeletedTasksWaitingCleanUp)
    (hevent : k'.uxSchedulerSuspended = 0 → ∀ t ∈ c, k'.eventList t ≠ some .xPendingReadyList)
    (hgone : ∀ t ∈ c, k'.stateList t = some .xTasksWaitingTermination ↔
      k.stateList t = some .xTasksWaitingTermination) : Sound k' (some i) c A' :=
  ⟨C', hclock, fun hs => ⟨hpended hs, hevent hs⟩, hsmall, hrun.trans S.running,
    by rw [hcount, gone_congr hgone]; exact S.cleanUp, fun h => by cases h⟩

/-- A time that does not pass changes nothing. -/
theorem Sound.age (S : Sound k idle c A) (ht : t ∈ c) : (k.task A t).age A = k.task A t :=
  S.core.task_age S.clock ht

/-! ## Switches -/

/-- **`portYIELD`** ends every state in which a switch is to come. -/
theorem Sound.yield (S : Sound k (some i) c A)
    (halive : k.uxSchedulerSuspended ≠ 0 → ∀ t, k.pxCurrentTCB = some t →
      k.stateList t ≠ some .xTasksWaitingTermination) :
    ∃ k', k.portYield = some k' ∧ Inv k' (some i) c A ∧ Yielded k k' c := by
  obtain ⟨k', hk', C', y⟩ := S.core.switchContext
  have htick : k'.xTickCount = k.xTickCount := by rw [y.rest]
  have hs : k'.uxSchedulerSuspended = k.uxSchedulerSuspended := by rw [y.rest]
  have hp : k'.xPendedTicks = k.xPendedTicks := by rw [y.rest]
  have S' : Sound k' (some i) c A := by
    refine S.keep (by rw [htick]; exact C') (htick.trans S.clock) (by rw [hs, hp]; exact S.small)
      (fun h => ?_) (by rw [y.rest]) (by rw [y.rest]) (fun h t ht => ?_) fun t ht => ?_
    · rw [hp]
      exact (S.caught (hs.symm.trans h)).1
    · rw [y.unmoved.eventList]
      exact (S.caught (hs.symm.trans h)).2 t ht
    · rw [y.unmoved.stateList]
  refine ⟨k', hk', ⟨S', fun t ht => ?_, y.settled⟩, y⟩
  rw [y.unmoved.stateList]
  by_cases hz : k.uxSchedulerSuspended = 0
  · obtain ⟨-, t', -, hcur, hready, -⟩ := y.chosen hz
    obtain rfl := Option.some.inj (hcur.symm.trans ht)
    rw [hready]
    exact fun he => by cases he
  · rw [y.owed hz] at ht
    exact halive hz t ht

theorem Inv.yield (I : Inv k (some i) c A) :
    ∃ k', k.portYield = some k' ∧ Inv k' (some i) c A ∧ Yielded k k' c :=
  I.toSound.yield fun _ => I.alive

/-- **A yield to a task of higher priority**, or none. -/
theorem Sound.yieldIfHigher (S : Sound k (some i) c A)
    (halive : ∀ t, k.pxCurrentTCB = some t → k.stateList t ≠ some .xTasksWaitingTermination)
    (hother : k.xYieldPending = false → ∀ t' ∈ c, t' ≠ t → ∀ p,
      k.stateList t' = some (.pxReadyTasksLists p) → ∀ q, k.currentPriority = some q → p ≤ q)
    (ht : t ∈ c) :
    ∃ k', k.yieldIfHigher t = some k' ∧ Inv k' (some i) c A ∧ Unmoved k k' ∧
      k'.uxPriority = k.uxPriority := by
  obtain ⟨q, hq⟩ := S.core.currentPriority
  unfold Kernel.yieldIfHigher
  simp only [hq, Option.bind_eq_bind, Option.bind_some]
  by_cases hlt : q < k.uxPriority t
  · rw [if_pos hlt]
    obtain ⟨k', hk', I', y⟩ := S.yield fun _ => halive
    exact ⟨k', hk', I', y.unmoved, by rw [y.rest]⟩
  · rw [if_neg hlt]
    refine ⟨k, rfl, ⟨S, halive, fun hy t' ht' p hp q' hq' => ?_⟩, ⟨rfl, rfl, rfl, rfl⟩, rfl⟩
    by_cases he : t' = t
    · obtain rfl := Option.some.inj (hq.symm.trans hq')
      rw [he] at hp
      rw [(S.core.ready t ht p hp).1]
      exact Nat.le_of_not_lt hlt
    · exact hother hy t' ht' he p hp q' hq'

/-! ## The timer interrupt and the suspension -/

/-- **The timer interrupt** ages the tasks, or counts if the scheduler is suspended. -/
theorem Inv.tickInterrupt (I : Inv k (some i) c A) (hroom : k.xPendedTicks + 1 < 2 ^ 32) :
    ∃ k', k.tickInterrupt = some k' ∧
      (k.uxSchedulerSuspended = 0 → Inv k' (some i) c (A + 1) ∧ k'.xYieldPending = false ∧
        ∀ t ∈ c, k'.task (A + 1) t = (k.task A t).age (A + 1)) ∧
      (k.uxSchedulerSuspended ≠ 0 → Inv k' (some i) c A ∧
        k' = { k with xPendedTicks := k.xPendedTicks + 1 }) := by
  unfold Kernel.tickInterrupt
  by_cases hs : k.uxSchedulerSuspended = 0
  · obtain ⟨sw, k₁, hk₁, C₁, hA₁, htick, hpend, hstatus, hpol⟩ := I.core.tick hs I.clock
    have hs₁ : k₁.uxSchedulerSuspended = 0 := by
      rw [htick.rest]
      exact hs
    have hp₁ : k₁.xPendedTicks = 0 := by
      rw [htick.rest]
      exact (I.caught hs).1
    have hno : ¬ TaskList.xTasksWaitingTermination.IsDelayed := fun hd => by
      rcases hd with he | he <;> cases he
    have hgone : ∀ t ∈ c, k₁.stateList t = some .xTasksWaitingTermination ↔
        k.stateList t = some .xTasksWaitingTermination := fun t ht =>
      htick.stateList_iff ht (fun p he => by cases he) hno
    have S₁ : Sound k₁ (some i) c (A + 1) := by
      refine I.toSound.keep C₁ hA₁ (by rw [hs₁, hp₁]; decide) (fun _ => hp₁) (by rw [htick.rest])
        (by rw [htick.rest]) (fun _ t ht he => ?_) hgone
      exact (I.caught hs).2 t ht (htick.eventList ht he)
    simp only [hk₁, Option.bind_eq_bind, Option.bind_some]
    by_cases hsw : sw = true
    · obtain ⟨k', hk', I', y⟩ := S₁.yield fun hne => absurd hs₁ hne
      refine ⟨k', by rw [if_pos hsw]; exact hk', fun _ => ⟨I', (y.chosen hs₁).1, fun t ht => ?_⟩,
        fun hne => absurd hs hne⟩
      rw [y.unmoved.task (by rw [y.rest])]
      exact hstatus t ht
    · obtain ⟨hy, hn⟩ := hpol (Bool.eq_false_iff.mpr hsw)
      refine ⟨k₁, by rw [if_neg hsw], fun _ => ⟨⟨S₁, fun t ht => ?_, fun _ => ?_⟩, hpend.trans hy,
        hstatus⟩, fun hne => absurd hs hne⟩
      · have hcur : k₁.pxCurrentTCB = k.pxCurrentTCB := by rw [htick.rest]
        obtain ⟨t', ht', hcur'⟩ := I.core.current
        obtain rfl := Option.some.inj ((hcur.trans hcur').symm.trans ht)
        exact fun he => I.alive t' hcur' ((hgone t' ht').mp he)
      · exact hn (I.settled hy)
  · have hadd : add32 k.xPendedTicks 1 = k.xPendedTicks + 1 := Nat.mod_eq_of_lt hroom
    have hrun : k.xTaskIncrementTick
        = some (false, { k with xPendedTicks := k.xPendedTicks + 1 }) := by
      unfold Kernel.xTaskIncrementTick
      rw [if_neg hs, hadd]
    refine ⟨{ k with xPendedTicks := k.xPendedTicks + 1 }, by rw [hrun]; rfl,
      fun h => absurd h hs, fun _ => ⟨⟨?_, I.alive, I.settled⟩, rfl⟩⟩
    have C := I.core
    exact ⟨⟨C.listed, C.current, C.placed, C.waits, C.prio, C.ready, C.top, C.delayed, C.ticks,
      C.later, C.wrapped, C.count, C.idle_ready⟩, I.clock, fun h => absurd h hs,
      ⟨I.small.1, hroom⟩, I.running, I.cleanUp, fun h => by cases h⟩

theorem Inv.suspendAll (I : Inv k (some i) c A) (hroom : k.uxSchedulerSuspended + 1 < 2 ^ 32) :
    Inv k.vTaskSuspendAll (some i) c A ∧
      k.vTaskSuspendAll = { k with uxSchedulerSuspended := k.uxSchedulerSuspended + 1 } := by
  have hadd : add32 k.uxSchedulerSuspended 1 = k.uxSchedulerSuspended + 1 := Nat.mod_eq_of_lt hroom
  have heq : k.vTaskSuspendAll
      = { k with uxSchedulerSuspended := k.uxSchedulerSuspended + 1 } := by
    unfold Kernel.vTaskSuspendAll
    rw [hadd]
  have C := I.core
  rw [heq]
  exact ⟨⟨⟨⟨C.listed, C.current, C.placed, C.waits, C.prio, C.ready, C.top, C.delayed, C.ticks,
    C.later, C.wrapped, C.count, C.idle_ready⟩, I.clock, fun h => absurd h (Nat.succ_ne_zero _),
    ⟨hroom, I.small.2⟩, I.running, I.cleanUp, fun h => by cases h⟩, I.alive, I.settled⟩, rfl⟩

/-- **`xTaskResumeAll`** catches up when it ends the suspension, and counts otherwise. -/
theorem Inv.resumeAll (I : Inv k (some i) c A) (hs : k.uxSchedulerSuspended ≠ 0) :
    ∃ y k', k.xTaskResumeAll = some (y, k') ∧
      (k.uxSchedulerSuspended ≠ 1 → Inv k' (some i) c A ∧
        k' = { k with uxSchedulerSuspended := k.uxSchedulerSuspended - 1 }) ∧
      (k.uxSchedulerSuspended = 1 → Inv k' (some i) c (A + k.xPendedTicks) ∧
        Resumed { k with uxSchedulerSuspended := 0 } k' c A ∧ (y = true → RunsHighest k' c)) := by
  by_cases h1 : k.uxSchedulerSuspended = 1
  · obtain ⟨y, k', hk', C', r, hset, hruns, hcur⟩ := I.core.resumeAll h1 I.clock
    have hs' : k'.uxSchedulerSuspended = 0 := by rw [r.rest]
    have hp' : k'.xPendedTicks = 0 := by rw [r.rest]
    refine ⟨y, k', hk', fun hne => absurd h1 hne, fun _ => ⟨⟨?_, fun t ht => ?_, hset I.settled⟩, r,
      hruns⟩⟩
    · refine I.toSound.keep C' r.clock (by rw [hs', hp']; decide) (fun _ => hp') (by rw [r.rest])
        (by rw [r.rest]) (fun _ t ht he => (r.event t ht _ he).2 rfl) r.gone
    · cases y with
      | true =>
          obtain ⟨t', -, hcur', hready, -⟩ := hruns rfl
          obtain rfl := Option.some.inj (hcur'.symm.trans ht)
          rw [hready]
          exact fun he => by cases he
      | false =>
          rw [hcur rfl] at ht
          obtain ⟨t', ht', hcur'⟩ := I.core.current
          obtain rfl := Option.some.inj (hcur'.symm.trans ht)
          exact fun he => I.alive t' hcur' ((r.gone t' ht').mp he)
  · have hsmall := I.small.1
    have hsub : sub32 k.uxSchedulerSuspended 1 = k.uxSchedulerSuspended - 1 := by
      unfold sub32
      omega
    have hassert : configAssert (k.uxSchedulerSuspended != 0) = some () :=
      if_pos (by simpa using hs)
    refine ⟨false, { k with uxSchedulerSuspended := k.uxSchedulerSuspended - 1 }, ?_,
      fun _ => ⟨⟨?_, I.alive, I.settled⟩, rfl⟩, fun h => absurd h h1⟩
    · unfold Kernel.xTaskResumeAll
      simp only [hassert, hsub, Option.bind_eq_bind, Option.bind_some]
      rw [if_neg fun h => by omega]
    · have C := I.core
      exact ⟨⟨C.listed, C.current, C.placed, C.waits, C.prio, C.ready, C.top, C.delayed, C.ticks,
        C.later, C.wrapped, C.count, C.idle_ready⟩, I.clock,
        fun h => absurd h (by show k.uxSchedulerSuspended - 1 ≠ 0; omega),
        ⟨by show k.uxSchedulerSuspended - 1 < 2 ^ 32; omega, I.small.2⟩, I.running, I.cleanUp,
        fun h => by cases h⟩

/-! ## Waiting -/

variable {k₀ : Kernel}

/-- **The running task waits**: the rest of the kernel does not notice. -/
theorem Inv.park (I : Inv k (some i) c A) (hcur : k.pxCurrentTCB = some t) (hi : t ≠ i)
    (h₀ : Beside k k₀ t) (hnext₀ : k₀.xNextTaskUnblockTime = k.xNextTaskUnblockTime)
    (L : Listed k₀.lists f c) (hs₀ : k₀.stateList t = k.stateList t)
    (he₀ : ∀ l, k₀.eventList t = some l → ∃ e, l = .pxEventList e) (hd : 0 < d)
    (hd' : d < 2 ^ 32) (inf : Bool) :
    ∃ k', k₀.prvAddCurrentTaskToDelayedList d inf = some k' ∧ Inv k' (some i) c A ∧
      k'.pxCurrentTCB = some t ∧ k'.uxSchedulerSuspended = k.uxSchedulerSuspended ∧
      k'.xPendedTicks = k.xPendedTicks ∧
      k'.task A t = ⟨waiting d inf A, k₀.eventList t, k.uxPriority t⟩ ∧
      ∀ t' ∈ c, t' ≠ t → k'.task A t' = k.task A t' := by
  obtain ⟨ht, -⟩ : t ∈ c ∧ True := by
    obtain ⟨t', ht', hcur'⟩ := I.core.current
    obtain rfl := Option.some.inj (hcur'.symm.trans hcur)
    exact ⟨ht', trivial⟩
  obtain ⟨l, hl, -⟩ := I.core.placed t ht
  obtain ⟨k', hk', C', p⟩ := I.core.block ht hcur (fun h => hi (Option.some.inj h).symm)
    h₀ hnext₀ L (hs₀.trans hl) (fun l hl => .inr (he₀ l hl)) hd hd' inf
  have htick₀ : k₀.xTickCount = k.xTickCount := by rw [h₀.rest]
  have hprio₀ : k₀.uxPriority = k.uxPriority := by rw [h₀.rest]
  have htick : k'.xTickCount = k.xTickCount := by
    rw [p.beside.rest]
    exact htick₀
  have hs : k'.uxSchedulerSuspended = k.uxSchedulerSuspended := by
    rw [p.beside.rest, h₀.rest]
  have hpend : k'.xPendedTicks = k.xPendedTicks := by
    rw [p.beside.rest, h₀.rest]
  have hcur' : k'.pxCurrentTCB = some t := by
    rw [p.beside.rest, h₀.rest]
    exact hcur
  have hprio : k'.uxPriority = k.uxPriority := by
    rw [p.beside.rest]
    exact hprio₀
  have hothers : ∀ t', t' ≠ t → k'.stateList t' = k.stateList t' ∧
      k'.eventList t' = k.eventList t' := fun t' hne =>
    ⟨(p.beside.others t' hne).1.trans (h₀.others t' hne).1,
      (p.beside.others t' hne).2.1.trans (h₀.others t' hne).2.1⟩
  refine ⟨k', hk', ⟨?_, fun t' ht' he => ?_, fun hy t' ht' q hq r hr => ?_⟩, hcur', hs, hpend, ?_,
    fun t' ht' hne => (p.beside.task hne).trans (h₀.task hne)⟩
  · refine I.toSound.keep (by rw [htick]; exact C') (htick.trans I.clock)
      (by rw [hs, hpend]; exact I.small) (fun h => ?_) (by rw [p.beside.rest, h₀.rest])
      (by rw [p.beside.rest, h₀.rest]) (fun h t' ht' he => ?_) fun t' ht' => ?_
    · rw [hpend]
      exact (I.caught (hs.symm.trans h)).1
    · by_cases hne : t' = t
      · rw [hne, p.event] at he
        obtain ⟨e, hle⟩ := he₀ _ he
        cases hle
      · rw [(hothers t' hne).2] at he
        exact (I.caught (hs.symm.trans h)).2 t' ht' he
    · by_cases hne : t' = t
      · rw [hne]
        exact ⟨fun he => absurd he p.blocked.not_deleted, fun he => absurd he (I.alive t hcur)⟩
      · rw [(hothers t' hne).1]
  · obtain rfl := Option.some.inj (hcur'.symm.trans ht')
    exact p.blocked.not_deleted he
  · have hne : t' ≠ t := fun he => p.blocked.not_ready q (he ▸ hq)
    rw [(hothers t' hne).1] at hq
    have hy' : k.xYieldPending = false := by
      rw [p.beside.rest, h₀.rest] at hy
      exact hy
    have hcurp : k'.currentPriority = k.currentPriority := by
      unfold Kernel.currentPriority
      rw [hcur', hcur, hprio]
    exact I.settled hy' t' ht' q hq r (hcurp.symm.trans hr)
  · unfold Kernel.task
    rw [p.status A (htick₀.trans I.clock), p.event, hprio]

/-- **`vTaskDelay`** lets the running task wait until the tick `A + d`, whether the 32-bit count
wraps before that or not, and a task of the highest ready priority runs. -/
theorem Inv.delay (I : Inv k (some i) c A) (hs : k.uxSchedulerSuspended = 0)
    (hcur : k.pxCurrentTCB = some t) (hready : ∃ p, k.stateList t = some (.pxReadyTasksLists p))
    (hi : t ≠ i) (hd : 0 < d) (hd' : d < 2 ^ 32) :
    ∃ k', k.vTaskDelay d = some k' ∧ Inv k' (some i) c A ∧ RunsHighest k' c ∧
      k'.task A t = ⟨.blocked (A + d), none, k.uxPriority t⟩ ∧
      ∀ t' ∈ c, t' ≠ t → k'.task A t' = k.task A t' := by
  obtain ⟨I₁, hk₁⟩ := I.suspendAll (by rw [hs]; decide)
  rw [hs] at hk₁
  generalize hk₁' : k.vTaskSuspendAll = k₁ at I₁ hk₁
  have ht : t ∈ c := by
    obtain ⟨t', ht', hcur'⟩ := I.core.current
    obtain rfl := Option.some.inj (hcur'.symm.trans hcur)
    exact ht'
  have hs₁ : k₁.uxSchedulerSuspended = 1 := by rw [hk₁]
  have htask₁ : ∀ t, k₁.task A t = k.task A t := fun t => by
    rw [hk₁]
    rfl
  have hevent : k₁.eventList t = none := by
    obtain ⟨p, hp⟩ := hready
    rw [hk₁]
    exact I.core.event_of_ready ht hp
  obtain ⟨f, L⟩ := I₁.core.listed
  obtain ⟨k₂, hk₂, I₂, hcur₂, hs₂, hp₂, htask₂, hothers₂⟩ := I₁.park
    (t := t) (by rw [hk₁]; exact hcur) hi
    (show Beside k₁ k₁ t from ⟨rfl, fun _ _ => ⟨rfl, rfl, rfl⟩⟩) rfl L rfl
    (fun l hl => by rw [hevent] at hl; cases hl) hd hd' false
  obtain ⟨y, k₃, hk₃, -, h₃⟩ := I₂.resumeAll (by rw [hs₂, hs₁]; decide)
  obtain ⟨I₃, r, hruns⟩ := h₃ (hs₂.trans hs₁)
  have hpend : k₂.xPendedTicks = 0 := by
    rw [hp₂, hk₁]
    exact (I.caught hs).1
  have hwait : waiting d false A = .blocked (A + d) := if_neg fun h => by cases h.2
  rw [hpend] at I₃
  -- no task is pending: the scheduler was not suspended when the call was made
  have hnone : ∀ t' ∈ c, k₂.eventList t' ≠ some .xPendingReadyList := by
    intro t' ht' he
    by_cases hne : t' = t
    · have hev : k₂.eventList t = none := by
        have hte := congrArg TaskState.event htask₂
        exact hte.trans hevent
      rw [hne, hev] at he
      cases he
    · have hev : k₂.eventList t' = k₁.eventList t' :=
        congrArg TaskState.event (hothers₂ t' ht' hne)
      have hev₁ : k₁.eventList t' = k.eventList t' := congrArg TaskState.event (htask₁ t')
      exact (I.caught hs).2 t' ht' ((hev.trans hev₁).symm.trans he)
  have htask₃ : ∀ t' ∈ c, k₃.task A t' = k₂.task A t' := by
    intro t' ht'
    have hage := r.others t' ht' (hnone t' ht')
    rw [show ({ k₂ with uxSchedulerSuspended := 0 } : Kernel).xPendedTicks = 0 from hpend] at hage
    exact hage.trans (I₂.toSound.age ht')
  have hfirst : k.vTaskDelay d = if y then some k₃ else k₃.portYield := by
    unfold Kernel.vTaskDelay
    rw [if_pos hd, hk₁']
    have hassert : configAssert (k₁.uxSchedulerSuspended == 1) = some () :=
      if_pos (by rw [hs₁]; rfl)
    simp only [hassert, hk₂, hk₃, Option.bind_eq_bind, Option.bind_some]
  have hfinal : ∀ k' : Kernel, (∀ t', k'.task A t' = k₃.task A t') →
      k'.task A t = ⟨.blocked (A + d), none, k.uxPriority t⟩ ∧
      ∀ t' ∈ c, t' ≠ t → k'.task A t' = k.task A t' := by
    intro k' h
    refine ⟨?_, fun t' ht' hne => ?_⟩
    · rw [h, htask₃ t ht, htask₂, hwait, hevent, hk₁]
    · rw [h, htask₃ t' ht', hothers₂ t' ht' hne, htask₁]
  cases y with
  | true => exact ⟨k₃, hfirst, I₃, hruns rfl, hfinal k₃ fun _ => rfl⟩
  | false =>
      obtain ⟨k', hk', I', yl⟩ := I₃.yield
      have hs₃ : k₃.uxSchedulerSuspended = 0 := by rw [r.rest]
      exact ⟨k', hfirst.trans hk', I', yl.runsHighest hs₃,
        hfinal k' fun t' => yl.unmoved.task (by rw [yl.rest]) t'⟩

/-- The event list item of a task, alone, has moved. -/
theorem beside_of_event {m : Lists TaskItem TaskList} {o : Option TaskList}
    (hv : m.xItemValue = k.lists.xItemValue)
    (hc : m.pxContainer = Function.update k.lists.pxContainer (.xEventListItem t) o) :
    Beside k { k with lists := m } t ∧ ({ k with lists := m } : Kernel).stateList t = k.stateList t ∧
      ({ k with lists := m } : Kernel).eventList t = o := by
  have hstate : ∀ t', m.pxContainer (.xStateListItem t') = k.stateList t' := fun t' => by
    rw [hc, Function.update_of_ne (fun he => by cases he)]
    rfl
  refine ⟨⟨rfl, fun t' hne => ⟨hstate t', ?_, congrFun hv _⟩⟩, hstate t, ?_⟩
  · show m.pxContainer _ = _
    rw [hc, Function.update_of_ne (fun he => hne (by cases he; rfl))]
    rfl
  · show m.pxContainer _ = _
    rw [hc, Function.update_self]

/-- The running task exists. -/
theorem Core.current_mem {b : Nat} (C : Core k idle c b) (hcur : k.pxCurrentTCB = some t) :
    t ∈ c := by
  obtain ⟨t', ht', hcur'⟩ := C.current
  obtain rfl := Option.some.inj (hcur'.symm.trans hcur)
  exact ht'

/-- **`vTaskPlaceOnEventList`**: the running task waits for the event, or until its time is up. -/
theorem Inv.placeOnEventList (I : Inv k (some i) c A) (hcur : k.pxCurrentTCB = some t)
    (hready : ∃ p, k.stateList t = some (.pxReadyTasksLists p)) (hi : t ≠ i) (hd : 0 < d)
    (hd' : d < 2 ^ 32) (e : Nat) :
    ∃ k', k.vTaskPlaceOnEventList e d = some k' ∧ Inv k' (some i) c A ∧
      k'.task A t = ⟨waiting d true A, some (.pxEventList e), k.uxPriority t⟩ ∧
      ∀ t' ∈ c, t' ≠ t → k'.task A t' = k.task A t' := by
  have ht := I.core.current_mem hcur
  obtain ⟨p, hp⟩ := hready
  obtain ⟨f, L⟩ := I.core.listed
  obtain ⟨w, hw⟩ := L.init (.pxEventList e) trivial
  obtain ⟨w', m', hm', hv, hc, -, L'⟩ := L.insert hw (i := .xEventListItem t) ht
    (I.core.event_of_ready ht hp)
  obtain ⟨hb, hs, he⟩ := beside_of_event hv hc
  obtain ⟨k', hk', I', -, -, -, htask, hothers⟩ := I.park hcur hi hb rfl L' hs
    (fun l hl => ⟨e, (Option.some.inj (he.symm.trans hl)).symm⟩) hd hd' true
  refine ⟨k', ?_, I', ?_, hothers⟩
  · refine Option.bind_eq_some_iff.mpr ⟨t, hcur, ?_⟩
    refine Option.bind_eq_some_iff.mpr ⟨{ k with lists := m' }, ?_, hk'⟩
    unfold Kernel.vListInsert
    rw [hm']
    rfl
  · rw [htask, he]

/-- **`vTaskPlaceOnEventListRestricted`**: the same at the end of the list. -/
theorem Inv.placeOnEventListRestricted (I : Inv k (some i) c A) (hcur : k.pxCurrentTCB = some t)
    (hready : ∃ p, k.stateList t = some (.pxReadyTasksLists p)) (hi : t ≠ i) (hd : 0 < d)
    (hd' : d < 2 ^ 32) (e : Nat) (inf : Bool) :
    ∃ k', k.vTaskPlaceOnEventListRestricted e d inf = some k' ∧ Inv k' (some i) c A ∧
      k'.task A t = ⟨if inf then .suspended else .blocked (A + d), some (.pxEventList e),
        k.uxPriority t⟩ ∧
      ∀ t' ∈ c, t' ≠ t → k'.task A t' = k.task A t' := by
  have ht := I.core.current_mem hcur
  obtain ⟨p, hp⟩ := hready
  obtain ⟨f, L⟩ := I.core.listed
  obtain ⟨w, hw⟩ := L.init (.pxEventList e) trivial
  have L' := L.insertEnd hw (fun hd => by rcases hd with he | he <;> cases he)
    (i := .xEventListItem t) ht (I.core.event_of_ready ht hp)
  obtain ⟨hb, hs, he⟩ := beside_of_event (k := k) (t := t)
    (m := Lists.vListInsertEnd (.pxEventList e) (.xEventListItem t) k.lists) rfl rfl
  have hticks : 0 < (if inf then portMaxDelay else d) ∧
      (if inf then portMaxDelay else d) < 2 ^ 32 := by
    cases inf with
    | true => exact (by decide : 0 < portMaxDelay ∧ portMaxDelay < 2 ^ 32)
    | false => exact ⟨hd, hd'⟩
  obtain ⟨k', hk', I', -, -, -, htask, hothers⟩ := I.park hcur hi hb rfl L' hs
    (fun l hl => ⟨e, (Option.some.inj (he.symm.trans hl)).symm⟩) hticks.1 hticks.2 inf
  refine ⟨k', ?_, I', ?_, hothers⟩
  · exact Option.bind_eq_some_iff.mpr ⟨t, hcur, hk'⟩
  · rw [htask, he]
    unfold waiting
    cases inf with
    | true => rfl
    | false => rw [if_neg fun h => by cases h.2]; rfl

/-! ## The event -/

/-- The rest of `xTaskRemoveFromEventList`: a switch is owed to a task of higher priority. -/
theorem Sound.owe (S : Sound k (some i) c A)
    (halive : ∀ t, k.pxCurrentTCB = some t → k.stateList t ≠ some .xTasksWaitingTermination)
    (hothers : k.xYieldPending = false → ∀ t' ∈ c, t' ≠ t → ∀ p,
      k.stateList t' = some (.pxReadyTasksLists p) → ∀ q, k.currentPriority = some q → p ≤ q)
    (ht : t ∈ c) :
    ∃ y k', (k.currentPriority.bind fun q => if k.uxPriority t > q then
        some (true, { k with xYieldPending := true }) else some (false, k)) = some (y, k') ∧
      Inv k' (some i) c A ∧ ∀ t', k'.task A t' = k.task A t' := by
  obtain ⟨q, hq⟩ := S.core.currentPriority
  rw [hq, Option.bind_some]
  by_cases hgt : k.uxPriority t > q
  · rw [if_pos hgt]
    refine ⟨true, _, rfl, ⟨?_, halive, fun h => by cases h⟩, fun _ => rfl⟩
    exact ⟨S.core.yieldPending true, S.clock, S.caught, S.small, S.running, S.cleanUp, S.fresh⟩
  · rw [if_neg hgt]
    refine ⟨false, k, rfl, ⟨S, halive, fun hy t' ht' p hp q' hq' => ?_⟩, fun _ => rfl⟩
    by_cases he : t' = t
    · obtain rfl := Option.some.inj (hq.symm.trans hq')
      rw [he] at hp
      rw [(S.core.ready t ht p hp).1]
      exact Nat.le_of_not_lt hgt
    · exact hothers hy t' ht' he p hp q' hq'

/-- **`xTaskRemoveFromEventList`** ends the waiting of the first task of the list, at once or when
the scheduler resumes. -/
theorem Inv.removeFromEventList (I : Inv k (some i) c A)
    (hne : k.listIsEmpty (.pxEventList e) = false) :
    ∃ t y k', t ∈ c ∧ k.eventList t = some (.pxEventList e) ∧
      Lists.listGetOwnerOfHeadEntry (.pxEventList e) k.lists = some (.xEventListItem t) ∧
      k.xTaskRemoveFromEventList e = some (y, k') ∧ Inv k' (some i) c A ∧
      (k'.task A t = if k.uxSchedulerSuspended = 0 then ⟨.ready, none, k.uxPriority t⟩
        else { k.task A t with event := some .xPendingReadyList }) ∧
      ∀ t' ∈ c, t' ≠ t → k'.task A t' = k.task A t' := by
  have C := I.core
  obtain ⟨f, L⟩ := C.listed
  obtain ⟨w, hw⟩ := L.init (.pxEventList e) trivial
  obtain ⟨j, is, -, hhead, hj, hjc, -⟩ := L.head hw hne
  obtain ⟨hitem, hevent⟩ := C.event_item hj hjc (.inr ⟨e, rfl⟩)
  generalize j.pvOwner = t at hj hitem hevent
  subst hitem
  obtain ⟨-, hblocked⟩ := C.waits t hj _ hevent
  obtain ⟨l, hl, hls⟩ := C.placed t hj
  refine ⟨t, ?_⟩
  by_cases hs : k.uxSchedulerSuspended = 0
  · obtain ⟨k₁, k₂, hk₁, hk₂, r⟩ := L.ready_pending hj (C.prio t hj) hl hevent
    generalize hk₃ : k₂.prvAddTaskToReadyList t = k₃ at r
    have C₃ := r.core C hj
    have htick : k₃.xTickCount = k.xTickCount := by rw [r.rest]
    have hsus₁ : k₁.uxSchedulerSuspended = 0 := by
      obtain ⟨m, -, hm⟩ := Option.bind_eq_some_iff.mp hk₁
      obtain rfl := Option.some.inj hm
      exact hs
    have hcurp : k₃.currentPriority = k.currentPriority := by
      rw [r.rest]
      rfl
    have hgone : ∀ t' ∈ c, k₃.stateList t' = some .xTasksWaitingTermination ↔
        k.stateList t' = some .xTasksWaitingTermination := by
      intro t' ht'
      by_cases he : t' = t
      · rw [he, r.stateList]
        constructor
        · intro h
          cases h
        · intro h
          exact absurd h hblocked.not_deleted
      · rw [(r.others t' he).1]
    have S₃ : Sound k₃ (some i) c A := by
      refine I.toSound.keep (by rw [htick]; exact C₃) (htick.trans I.clock)
        (by rw [r.rest]; exact I.small) (fun _ => by rw [r.rest]; exact (I.caught hs).1)
        (by rw [r.rest]) (by rw [r.rest]) (fun _ t' ht' he => ?_) hgone
      by_cases hne : t' = t
      · rw [hne, r.eventList] at he
        cases he
      · rw [(r.others t' hne).2.1] at he
        exact (I.caught hs).2 t' ht' he
    obtain ⟨y, k', hk', I', htask⟩ := S₃.owe (t := t)
      (fun t' ht' he => by
        have hcur : k.pxCurrentTCB = some t' := by
          rw [r.rest] at ht'
          exact ht'
        exact I.alive t' hcur ((hgone t' (C.current_mem hcur)).mp he))
      (fun hy t' ht' hne p hp q hq => by
        rw [(r.others t' hne).1] at hp
        have hy' : k.xYieldPending = false := by
          rw [r.rest] at hy
          exact hy
        exact I.settled hy' t' ht' p hp q (hcurp.symm.trans hq)) hj
    refine ⟨y, k', hj, hevent, hhead, ?_, I', ?_, fun t' ht' hne => ?_⟩
    · unfold Kernel.xTaskRemoveFromEventList
      rw [hhead]
      simp only [TaskItem.pvOwner, hk₁, Option.bind_eq_bind, Option.bind_some]
      rw [if_pos hsus₁]
      simp only [hk₂, Option.bind_some]
      rw [hk₃]
      exact hk'
    · rw [htask, if_pos hs]
      unfold Kernel.task
      rw [Kernel.status_ready r.stateList, r.eventList, r.rest]
    · rw [htask]
      obtain ⟨h1, h2, h3⟩ := r.others t' hne
      unfold Kernel.task
      rw [Kernel.status_congr h1 h3 (by rw [r.rest]) (by rw [r.rest]), h2, r.rest]
  · obtain ⟨m₁, f₁, hk₁, hv₁, hc₁, L₁, -⟩ := L.removeItem (i := .xEventListItem t) hj hevent
    obtain ⟨w₁, hw₁⟩ := L₁.init .xPendingReadyList trivial
    have L₂ := L₁.insertEnd hw₁ (fun hd => by rcases hd with he | he <;> cases he)
      (i := .xEventListItem t) hj (by rw [hc₁, Function.update_self])
    obtain ⟨hb, hsame, hev⟩ := beside_of_event (k := k) (t := t) (o := some .xPendingReadyList)
      (m := Lists.vListInsertEnd .xPendingReadyList (.xEventListItem t) m₁) hv₁ (by
        show Function.update m₁.pxContainer _ _ = _
        rw [hc₁, Function.update_idem])
    generalize hm₂ : Lists.vListInsertEnd .xPendingReadyList (.xEventListItem t) m₁ = m₂
      at L₂ hb hsame hev
    have hwake₂ : m₂.xItemValue = k.lists.xItemValue := by
      rw [← hm₂]
      exact hv₁
    generalize hk₂ : ({ k with lists := m₂ } : Kernel) = k₂ at hb hsame hev
    obtain ⟨f₂, L₂'⟩ : ∃ f₂, Listed k₂.lists f₂ c := ⟨_, by rw [← hk₂]; exact L₂⟩
    have htick : k₂.xTickCount = k.xTickCount := by rw [hb.rest]
    have hs₂ : k₂.uxSchedulerSuspended = k.uxSchedulerSuspended := by rw [hb.rest]
    have hp₂ : k₂.xPendedTicks = k.xPendedTicks := by rw [hb.rest]
    have hnext : k₂.xNextTaskUnblockTime = k.xNextTaskUnblockTime := by rw [← hk₂]
    have hcurp : k₂.currentPriority = k.currentPriority := by
      rw [hb.rest]
      rfl
    have hwake : k₂.wakeTime t = k.wakeTime t := by
      rw [← hk₂]
      exact congrFun hwake₂ _
    have hstate : ∀ t', k₂.stateList t' = k.stateList t' := fun t' => by
      by_cases he : t' = t
      · rw [he, hsame]
      · exact (hb.others t' he).1
    have hb₂ : k₂.Blocked t := by
      unfold Kernel.Blocked
      rw [hsame]
      exact hblocked
    have C₂ : Core k₂ (some i) c (k.xTickCount + 1) := by
      refine C.move L₂' (by rw [hb.rest]) hb.others (hsame.trans hl) hls ?_ ?_ ?_ ?_ ?_ ?_ ?_
      · intro l' hl'
        obtain rfl := Option.some.inj (hev.symm.trans hl')
        exact ⟨.inl rfl, hb₂⟩
      · intro p hp
        exact absurd (hp ▸ hl) (hblocked.not_ready p)
      · rw [show k₂.uxTopReadyPriority = k.uxTopReadyPriority by rw [hb.rest]]
        exact ⟨Nat.le_refl _, C.top⟩
      · intro he
        rw [hwake, hnext]
        exact C.later t hj (he ▸ hl)
      · intro he
        rw [hwake]
        exact C.wrapped t hj (he ▸ hl)
      · intro t' ht' _ hd
        rw [hnext]
        exact (C.later t' ht' hd).2
      · intro hidle
        exact absurd (C.idle_ready t hidle).2.2 (hblocked.not_ready 0)
    have S₂ : Sound k₂ (some i) c A := by
      refine I.toSound.keep (by rw [htick]; exact C₂) (htick.trans I.clock)
        (by rw [hs₂, hp₂]; exact I.small) (fun h => absurd (hs₂.symm.trans h) hs)
        (by rw [hb.rest]) (by rw [hb.rest]) (fun h => absurd (hs₂.symm.trans h) hs) fun t' _ => ?_
      rw [hstate]
    obtain ⟨y, k', hk', I', htask⟩ := S₂.owe (t := t)
      (fun t' ht' he => by
        rw [hstate] at he
        have hcur : k.pxCurrentTCB = some t' := by
          rw [hb.rest] at ht'
          exact ht'
        exact I.alive t' hcur he)
      (fun hy t' ht' hne p hp q hq => by
        rw [hstate] at hp
        have hy' : k.xYieldPending = false := by
          rw [hb.rest] at hy
          exact hy
        exact I.settled hy' t' ht' p hp q (hcurp.symm.trans hq)) hj
    refine ⟨y, k', hj, hevent, hhead, ?_, I', ?_, fun t' ht' hne => ?_⟩
    · unfold Kernel.xTaskRemoveFromEventList
      rw [hhead]
      simp only [TaskItem.pvOwner, hk₁, Option.bind_eq_bind, Option.bind_some]
      rw [if_neg hs]
      rw [← hk₂, ← hm₂] at hk'
      exact hk'
    · rw [htask, if_neg hs]
      unfold Kernel.task
      rw [Kernel.status_congr hsame hwake (by rw [hb.rest]) (by rw [hb.rest]), hev, hb.rest]
    · rw [htask, hb.task hne]

end FreeRtos

end MelonSoc
