import MelonSoc.Rtos.Ticks

set_option autoImplicit false

/-! # Which task runs

`taskSELECT_HIGHEST_PRIORITY_TASK` walks down from `uxTopReadyPriority` and takes the next task of
the first ready list that is not empty. The idle task is always ready, so the walk ends; and no
ready task lies above `uxTopReadyPriority`, so the walk misses none. `xTaskResumeAll` catches up
with what happened while the scheduler was suspended, and lets the switch happen that it owes.
-/

namespace MelonSoc

namespace FreeRtos

open FreeRtos.Lists Kernel

variable {k k' : Kernel} {f : TaskList → Option (Wheel TaskItem)} {idle : Option Tcb} {i : Tcb}
  {c : Finset Tcb} {l : TaskList} {t : Tcb} {b now A : Nat}

/-- No item has moved. -/
structure Unmoved (k k' : Kernel) : Prop where
  container : k'.lists.pxContainer = k.lists.pxContainer
  value : k'.lists.xItemValue = k.lists.xItemValue
  delayed : k'.pxDelayedTaskList = k.pxDelayedTaskList
  overflow : k'.pxOverflowDelayedTaskList = k.pxOverflowDelayedTaskList

theorem Unmoved.stateList (u : Unmoved k k') (t : Tcb) : k'.stateList t = k.stateList t :=
  congrFun u.container _

theorem Unmoved.eventList (u : Unmoved k k') (t : Tcb) : k'.eventList t = k.eventList t :=
  congrFun u.container _

theorem Unmoved.wakeTime (u : Unmoved k k') (t : Tcb) : k'.wakeTime t = k.wakeTime t :=
  congrFun u.value _

theorem Unmoved.task (u : Unmoved k k') (hprio : k'.uxPriority = k.uxPriority) (t : Tcb) :
    k'.task now t = k.task now t := by
  unfold Kernel.task
  rw [Kernel.status_congr (u.stateList t) (u.wakeTime t) u.delayed u.overflow, u.eventList, hprio]

/-- Where no item moves, the tasks are as they were. -/
theorem Core.unmoved (C : Core k idle c b) (u : Unmoved k k') (L : ∃ f, Listed k'.lists f c)
    (hcurrent : ∃ t ∈ c, k'.pxCurrentTCB = some t) (hprio : k'.uxPriority = k.uxPriority)
    (htop : k'.uxTopReadyPriority < configMaxPriorities)
    (hready : ∀ t ∈ c, ∀ p, k.stateList t = some (.pxReadyTasksLists p) →
      p ≤ k'.uxTopReadyPriority)
    (hticks : k'.xTickCount = k.xTickCount)
    (hnext : k'.xNextTaskUnblockTime = k.xNextTaskUnblockTime)
    (hcount : k'.uxCurrentNumberOfTasks = k.uxCurrentNumberOfTasks) : Core k' idle c b := by
  refine ⟨L, hcurrent, ?_, ?_, ?_, ?_, htop, ?_, ?_, ?_, ?_, ?_, ?_⟩
  · intro t ht
    rw [u.stateList]
    exact C.placed t ht
  · intro t ht l hl
    rw [u.eventList] at hl
    unfold Kernel.Blocked
    rw [u.stateList]
    exact C.waits t ht l hl
  · rw [hprio]
    exact C.prio
  · intro t ht p hl
    rw [u.stateList] at hl
    rw [hprio]
    exact ⟨(C.ready t ht p hl).1, hready t ht p hl⟩
  · rw [u.delayed, u.overflow]
    exact C.delayed
  · rw [hticks]
    exact C.ticks
  · intro t ht hl
    rw [u.stateList, u.delayed] at hl
    rw [u.wakeTime, hnext]
    exact C.later t ht hl
  · intro t ht hl
    rw [u.stateList, u.overflow] at hl
    rw [u.wakeTime, hticks]
    exact C.wrapped t ht hl
  · rw [hcount]
    exact C.count
  · intro i hi
    rw [u.stateList, hprio]
    exact C.idle_ready i hi

/-! ## The choice -/

/-- The walk finds the highest ready priority up to `n`. -/
theorem Listed.topReady (L : Listed k.lists f c)
    (n : Nat) (hn : n < configMaxPriorities) (hsome : ∃ t ∈ c, ∃ p ≤ n,
      k.stateList t = some (.pxReadyTasksLists p)) :
    ∃ p ≤ n, k.topReady n = some p ∧ k.listIsEmpty (.pxReadyTasksLists p) = false ∧
      ∀ t ∈ c, ∀ q ≤ n, k.stateList t = some (.pxReadyTasksLists q) → q ≤ p := by
  have hnone : ∀ q ≤ n, k.listIsEmpty (.pxReadyTasksLists q) = true →
      ∀ t ∈ c, k.stateList t ≠ some (.pxReadyTasksLists q) := by
    intro q hq hempty t ht
    obtain ⟨w, hw⟩ := L.init (.pxReadyTasksLists q) (Nat.lt_of_le_of_lt hq hn)
    exact (L.isEmpty_iff hw).mp hempty (.xStateListItem t) ht
  induction n with
  | zero =>
      obtain ⟨t, ht, p, hp, hl⟩ := hsome
      obtain rfl : p = 0 := Nat.le_zero.mp hp
      cases hempty : k.listIsEmpty (.pxReadyTasksLists 0) with
      | true => exact absurd hl (hnone 0 (Nat.le_refl 0) hempty t ht)
      | false =>
          refine ⟨0, Nat.le_refl 0, ?_, hempty, fun t ht q hq _ => hq⟩
          unfold Kernel.topReady
          rw [hempty]
          rfl
  | succ n ih =>
      cases hempty : k.listIsEmpty (.pxReadyTasksLists (n + 1)) with
      | false =>
          refine ⟨n + 1, Nat.le_refl _, ?_, hempty, fun t ht q hq _ => hq⟩
          unfold Kernel.topReady
          rw [hempty]
          rfl
      | true =>
          have hno := hnone (n + 1) (Nat.le_refl _) hempty
          have hle : ∀ t ∈ c, ∀ q ≤ n + 1, k.stateList t = some (.pxReadyTasksLists q) → q ≤ n := by
            intro t ht q hq hl
            have hne : q ≠ n + 1 := fun he => hno t ht (he ▸ hl)
            omega
          obtain ⟨t, ht, p, hp, hl⟩ := hsome
          obtain ⟨p', hp', htop, hpne, hmax⟩ := ih (Nat.lt_of_succ_lt hn)
            ⟨t, ht, p, hle t ht p hp hl, hl⟩ fun q hq => hnone q (Nat.le_succ_of_le hq)
          refine ⟨p', Nat.le_succ_of_le hp', ?_, hpne,
            fun t ht q hq hl => hmax t ht q (hle t ht q hq hl) hl⟩
          unfold Kernel.topReady
          rw [hempty]
          exact htop

/-- A task of the highest ready priority has been chosen. -/
structure Switched (k k' : Kernel) (c : Finset Tcb) : Prop where
  rest : k' = { k with
    lists := k'.lists, pxCurrentTCB := k'.pxCurrentTCB
    uxTopReadyPriority := k'.uxTopReadyPriority }
  unmoved : Unmoved k k'
  chosen : ∃ t ∈ c, k'.pxCurrentTCB = some t ∧
    k.stateList t = some (.pxReadyTasksLists (k.uxPriority t)) ∧
    ∀ t' ∈ c, ∀ p, k.stateList t' = some (.pxReadyTasksLists p) → p ≤ k.uxPriority t

/-- **The choice**: the idle task is ready, so that there is one. -/
theorem Core.select (C : Core k (some i) c b) :
    ∃ k', k.taskSelectHighestPriorityTask = some k' ∧ Core k' (some i) c b ∧ Switched k k' c := by
  obtain ⟨f, L⟩ := C.listed
  obtain ⟨hi, hi0, hidle⟩ := C.idle_ready i rfl
  have hready : ∀ p, p < configMaxPriorities → (TaskList.pxReadyTasksLists p).IsState :=
    fun p hp => hp
  obtain ⟨p, hp, htop, hne, hmax⟩ := L.topReady k.uxTopReadyPriority C.top
    ⟨i, hi, 0, Nat.zero_le _, hidle⟩
  have hp4 := Nat.lt_of_le_of_lt hp C.top
  obtain ⟨w, hw⟩ := L.init (.pxReadyTasksLists p) hp4
  obtain ⟨j, w', ht⟩ := w.turn_isSome (fun hnil => by
    have hempty : k.listIsEmpty (.pxReadyTasksLists p) = true := by
      show listListIsEmpty _ _ = true
      rw [L.shown.isEmpty hw, hnil]
      rfl
    rw [hne] at hempty
    cases hempty)
  obtain ⟨m', hm', hvalue, hcont, L'⟩ := L.turn hw
    (fun hd => by rcases hd with he | he <;> cases he) ht
  obtain ⟨hj, hjc⟩ := (L.mem_iff hw).mp (Wheel.turn_mem ht)
  obtain ⟨hitem, hjs⟩ := C.state_item hj hjc (hready p hp4)
  have hprio := (C.ready _ hj p hjs).1
  unfold Kernel.taskSelectHighestPriorityTask
  rw [htop]
  simp only [Option.bind_eq_bind, Option.bind_some, hm']
  have u : Unmoved k { k with
      lists := m', pxCurrentTCB := some j.pvOwner, uxTopReadyPriority := p } :=
    ⟨hcont, hvalue, rfl, rfl⟩
  refine ⟨_, rfl, ?_, rfl, u, j.pvOwner, hj, rfl, ?_, ?_⟩
  · exact C.unmoved u ⟨_, L'⟩ ⟨_, hj, rfl⟩ rfl hp4
      (fun t ht q hq => hmax t ht q (C.ready t ht q hq).2 hq) rfl rfl rfl
  · rw [← hprio]
    exact hjs
  · intro t' ht' q hq
    rw [← hprio]
    exact hmax t' ht' q (C.ready t' ht' q hq).2 hq

/-- A switch that happens at once, or is owed while the scheduler is suspended. -/
structure Yielded (k k' : Kernel) (c : Finset Tcb) : Prop where
  rest : k' = { k with
    lists := k'.lists, pxCurrentTCB := k'.pxCurrentTCB
    uxTopReadyPriority := k'.uxTopReadyPriority, xYieldPending := k'.xYieldPending }
  unmoved : Unmoved k k'
  owed : k.uxSchedulerSuspended ≠ 0 → k' = { k with xYieldPending := true }
  chosen : k.uxSchedulerSuspended = 0 → k'.xYieldPending = false ∧ ∃ t ∈ c,
    k'.pxCurrentTCB = some t ∧ k.stateList t = some (.pxReadyTasksLists (k.uxPriority t)) ∧
    ∀ t' ∈ c, ∀ p, k.stateList t' = some (.pxReadyTasksLists p) → p ≤ k.uxPriority t

theorem Core.switchContext (C : Core k (some i) c b) :
    ∃ k', k.vTaskSwitchContext = some k' ∧ Core k' (some i) c b ∧ Yielded k k' c := by
  unfold Kernel.vTaskSwitchContext
  by_cases hs : k.uxSchedulerSuspended = 0
  · rw [if_neg fun hne => hne hs]
    have C₀ : Core { k with xYieldPending := false } (some i) c b :=
      ⟨C.listed, C.current, C.placed, C.waits, C.prio, C.ready, C.top, C.delayed, C.ticks,
        C.later, C.wrapped, C.count, C.idle_ready⟩
    obtain ⟨k', hk', C', s⟩ := C₀.select
    refine ⟨k', hk', C', by rw [s.rest], ⟨s.unmoved.container, s.unmoved.value, s.unmoved.delayed,
      s.unmoved.overflow⟩, fun hne => absurd hs hne, fun _ => ⟨by rw [s.rest], s.chosen⟩⟩
  · rw [if_pos hs]
    exact ⟨_, rfl, ⟨C.listed, C.current, C.placed, C.waits, C.prio, C.ready, C.top, C.delayed,
      C.ticks, C.later, C.wrapped, C.count, C.idle_ready⟩, rfl, ⟨rfl, rfl, rfl, rfl⟩,
      fun _ => rfl, fun h => absurd h hs⟩

/-- No switch is owed to a task of higher priority. -/
def Settled (k : Kernel) (c : Finset Tcb) : Prop := k.xYieldPending = false → k.NoneHigher c

/-- After a switch, none is owed. -/
theorem Yielded.settled (y : Yielded k k' c) : Settled k' c := by
  intro hpend t ht p hp q hq
  by_cases hs : k.uxSchedulerSuspended = 0
  · obtain ⟨-, t', ht', hcur, hready, hmax⟩ := y.chosen hs
    rw [y.unmoved.stateList] at hp
    have hle := hmax t ht p hp
    unfold Kernel.currentPriority at hq
    rw [hcur] at hq
    obtain rfl := Option.some.inj hq
    have hprio : k'.uxPriority = k.uxPriority := by rw [y.rest]
    rw [hprio]
    exact hle
  · rw [y.owed hs] at hpend
    cases hpend

/-! ## The tick -/

/-- Ticks have passed: some of the tasks that were delayed are ready. -/
structure Ticked (k k' : Kernel) (c : Finset Tcb) : Prop where
  rest : k' = { k with
    lists := k'.lists, pxDelayedTaskList := k'.pxDelayedTaskList
    pxOverflowDelayedTaskList := k'.pxOverflowDelayedTaskList, xTickCount := k'.xTickCount
    uxTopReadyPriority := k'.uxTopReadyPriority, xNumOfOverflows := k'.xNumOfOverflows
    xNextTaskUnblockTime := k'.xNextTaskUnblockTime, xYieldPending := k'.xYieldPending }
  moved : ∀ t ∈ c, (k'.stateList t = k.stateList t ∧ k'.eventList t = k.eventList t) ∨
    ((∃ l, l.IsDelayed ∧ k.stateList t = some l) ∧
      k'.stateList t = some (.pxReadyTasksLists (k.uxPriority t)) ∧ k'.eventList t = none)

theorem Ticked.refl (k : Kernel) : Ticked k k c := ⟨rfl, fun _ _ => .inl ⟨rfl, rfl⟩⟩

theorem Ticked.trans {k₁ : Kernel} (h : Ticked k k₁ c) (h' : Ticked k₁ k' c) : Ticked k k' c := by
  have hprio : k₁.uxPriority = k.uxPriority := by rw [h.rest]
  refine ⟨?_, fun t ht => ?_⟩
  · rw [h'.rest]
    rw [h.rest]
  · rcases h'.moved t ht with ⟨h1, h2⟩ | ⟨⟨l, hl, h1⟩, h2, h3⟩
    · rw [h1, h2]
      exact h.moved t ht
    · refine .inr ⟨?_, by rw [h2, hprio], h3⟩
      rcases h.moved t ht with ⟨h4, -⟩ | ⟨h4, -⟩
      · exact ⟨l, hl, by rw [← h4, h1]⟩
      · exact h4

theorem Ticked.eventList (h : Ticked k k' c) (ht : t ∈ c) (hl : k'.eventList t = some l) :
    k.eventList t = some l := by
  rcases h.moved t ht with ⟨-, h2⟩ | ⟨-, -, h2⟩
  · rw [← h2, hl]
  · rw [h2] at hl
    cases hl

/-- Only the ready lists can have more tasks. -/
theorem Ticked.stateList_iff (h : Ticked k k' c) (ht : t ∈ c) (hr : ∀ p, l ≠ .pxReadyTasksLists p)
    (hd : ¬ l.IsDelayed) : k'.stateList t = some l ↔ k.stateList t = some l := by
  rcases h.moved t ht with ⟨h1, -⟩ | ⟨⟨l', hl', h1⟩, h2, -⟩
  · rw [h1]
  · rw [h1, h2]
    constructor
    · intro he
      exact absurd (Option.some.inj he).symm (hr _)
    · intro he
      obtain rfl := Option.some.inj he
      exact absurd hl' hd

/-- The three parts of a tick: the count, the loop and the decision. -/
theorem Kernel.xTaskIncrementTick_eq (hs : k.uxSchedulerSuspended = 0) :
    k.xTaskIncrementTick = (if add32 k.xTickCount 1 = 0 then
        ({ k with xTickCount := add32 k.xTickCount 1 } : Kernel).taskSwitchDelayedLists
      else some { k with xTickCount := add32 k.xTickCount 1 }).bind fun k₁ =>
      (if add32 k.xTickCount 1 ≥ k₁.xNextTaskUnblockTime then
        k₁.wakeDelayedTasks (add32 k.xTickCount 1)
          (k₁.lists.uxNumberOfItems k₁.pxDelayedTaskList + 1) false
      else some (false, k₁)).bind fun r => r.2.currentPriority.bind fun q =>
        some ((r.1 || decide (r.2.lists.uxNumberOfItems (.pxReadyTasksLists q) > 1))
          || r.2.xYieldPending, r.2) := by
  have hpart : ∀ k₁ : Kernel, (if add32 k.xTickCount 1 ≥ k₁.xNextTaskUnblockTime then
      (k₁.wakeDelayedTasks (add32 k.xTickCount 1)
          (k₁.lists.uxNumberOfItems k₁.pxDelayedTaskList + 1) false).bind fun r =>
        r.2.currentPriority.bind fun q =>
          some ((r.1 || decide (r.2.lists.uxNumberOfItems (.pxReadyTasksLists q) > 1))
            || r.2.xYieldPending, r.2)
      else k₁.currentPriority.bind fun q =>
        some ((false || decide (k₁.lists.uxNumberOfItems (.pxReadyTasksLists q) > 1))
          || k₁.xYieldPending, k₁)) =
      (if add32 k.xTickCount 1 ≥ k₁.xNextTaskUnblockTime then
        k₁.wakeDelayedTasks (add32 k.xTickCount 1)
          (k₁.lists.uxNumberOfItems k₁.pxDelayedTaskList + 1) false
      else some (false, k₁)).bind fun r => r.2.currentPriority.bind fun q =>
        some ((r.1 || decide (r.2.lists.uxNumberOfItems (.pxReadyTasksLists q) > 1))
          || r.2.xYieldPending, r.2) := by
    intro k₁
    split
    · rfl
    · rfl
  unfold Kernel.xTaskIncrementTick
  rw [if_pos hs]
  simp only [← hpart]
  by_cases hz : add32 k.xTickCount 1 = 0
  · rw [if_pos hz, if_pos hz]
    rfl
  · rw [if_neg hz, if_neg hz]
    rfl

/-- A task whose standing is older has also left the list of what it waited for. -/
theorem Ticked.task (h : Ticked k k' c) (C : Core k idle c b) (ht : t ∈ c)
    (hs : k'.status now t = (k.status A t).age now) : k'.task now t = (k.task A t).age now := by
  have hprio : k'.uxPriority = k.uxPriority := by rw [h.rest]
  by_cases hb : ∃ d, k.status A t = .blocked d
  · obtain ⟨d, hd⟩ := hb
    rw [TaskState.age_of_blocked (s := k.task A t) hd]
    rw [hd] at hs
    unfold Kernel.task
    rw [hprio]
    by_cases hle : d ≤ now
    · rw [Status.age, if_pos hle] at hs
      rw [if_pos hle, hs]
      rcases h.moved t ht with ⟨h1, -⟩ | ⟨-, -, h3⟩
      · obtain ⟨p, hp⟩ := Kernel.ready_of_status hs
        rw [Kernel.status_ready (h1.symm.trans hp)] at hd
        cases hd
      · rw [h3]
    · rw [Status.age, if_neg hle] at hs
      rw [if_neg hle, hs]
      rcases h.moved t ht with ⟨-, h2⟩ | ⟨-, h2, -⟩
      · rw [h2, hd]
      · rw [Kernel.status_ready h2] at hs
        cases hs
  · rw [TaskState.age_of_ne _ _ fun d he => hb ⟨d, he⟩]
    unfold Kernel.task
    rcases h.moved t ht with ⟨-, h2⟩ | ⟨⟨l, hl, h1⟩, -, -⟩
    · rw [hs, h2, hprio]
      cases hst : k.status A t with
      | blocked d => exact absurd ⟨d, hst⟩ hb
      | ready => rfl
      | suspended => rfl
      | deleted => rfl
    · exfalso
      rcases C.status_cases ht A with ⟨-, hst⟩ | ⟨-, hst⟩ | ⟨hnd, hno, -⟩
      · exact hb ⟨_, hst⟩
      · exact hb ⟨_, hst⟩
      · rw [h1] at hnd hno
        rcases C.delayed with ⟨hd1, hd2⟩ | ⟨hd1, hd2⟩ <;> rw [hd1] at hnd <;> rw [hd2] at hno <;>
          rcases hl with rfl | rfl
        · exact hnd rfl
        · exact hno rfl
        · exact hno rfl
        · exact hnd rfl

/-- **The tick.** Each task is a tick older; and if no switch is required, none of the tasks that
became ready has a higher priority than the running one. -/
theorem Core.tick (C : Core k idle c (k.xTickCount + 1)) (hs : k.uxSchedulerSuspended = 0)
    (hA : k.xTickCount = A % 2 ^ 32) :
    ∃ sw k', k.xTaskIncrementTick = some (sw, k') ∧ Core k' idle c (k'.xTickCount + 1) ∧
      k'.xTickCount = (A + 1) % 2 ^ 32 ∧ Ticked k k' c ∧ k'.xYieldPending = k.xYieldPending ∧
      (∀ t ∈ c, k'.task (A + 1) t = (k.task A t).age (A + 1)) ∧
      (sw = false → k.xYieldPending = false ∧ (k.NoneHigher c → k'.NoneHigher c)) := by
  obtain ⟨k₁, hk₁, C₁, htick, hstatus, hrest⟩ := C.count_tick hA
  have hstate : ∀ t, k₁.stateList t = k.stateList t := fun t => by rw [hrest]; rfl
  have hevent : ∀ t, k₁.eventList t = k.eventList t := fun t => by rw [hrest]; rfl
  have hprio : k₁.uxPriority = k.uxPriority := by rw [hrest]
  have hcur : k₁.currentPriority = k.currentPriority := by rw [hrest]; rfl
  have hpend : k₁.xYieldPending = k.xYieldPending := by rw [hrest]
  -- the loop runs only if the next time has come, and does nothing otherwise
  have hloop : ∃ sw k', (if k₁.xTickCount ≥ k₁.xNextTaskUnblockTime then
      k₁.wakeDelayedTasks k₁.xTickCount (k₁.lists.uxNumberOfItems k₁.pxDelayedTaskList + 1) false
      else some (false, k₁)) = some (sw, k') ∧ Core k' idle c (k₁.xTickCount + 1) ∧
      Woken k₁ k' c k₁.xTickCount ∧ (sw = false → ∀ t ∈ c, k₁.Due k₁.xTickCount t →
        ∀ q, k₁.currentPriority = some q → k₁.uxPriority t ≤ q) := by
    by_cases hnext : k₁.xTickCount ≥ k₁.xNextTaskUnblockTime
    · rw [if_pos hnext]
      obtain ⟨sw, k', hk', C', hw, -, hpol⟩ := C₁.wakeDelayedTasks _ false
        (Nat.lt_succ_self _)
      exact ⟨sw, k', hk', C', hw, hpol⟩
    · rw [if_neg hnext]
      have hno : ∀ t ∈ c, ¬ k₁.Due k₁.xTickCount t := by
        intro t ht hd
        have hlater := (C₁.later t ht hd.1).2
        have hdue := hd.2
        omega
      refine ⟨false, k₁, rfl, ?_, Woken.refl k₁ k₁.xNextTaskUnblockTime hno,
        fun _ t ht hd => absurd hd (hno t ht)⟩
      refine C₁.later_of (n := k₁.xNextTaskUnblockTime) (by omega) fun t ht hl => ?_
      exact (C₁.later t ht hl).2
  obtain ⟨sw, k', hk', C', hw, hpol⟩ := hloop
  obtain ⟨q, hq⟩ := C'.currentPriority
  have hcur' : k'.currentPriority = k.currentPriority := by
    rw [hw.rest]
    exact hcur
  have htick' : k'.xTickCount = k₁.xTickCount := by rw [hw.rest]
  have hcount : add32 k.xTickCount 1 = k₁.xTickCount := by
    have hadd : add32 k.xTickCount 1 = (k.xTickCount + 1) % 2 ^ 32 := rfl
    rw [hadd, htick]
    omega
  have hpend' : k'.xYieldPending = k.xYieldPending := by
    rw [hw.rest]
    exact hpend
  have hticked : Ticked k k' c := by
    refine ⟨?_, fun t ht => ?_⟩
    · rw [hw.rest]
      rw [hrest]
    · by_cases hd : k₁.Due k₁.xTickCount t
      · obtain ⟨h1, h2⟩ := hw.due t ht hd
        refine .inr ⟨⟨_, C₁.isDelayed, (hstate t).symm.trans hd.1⟩, by rw [h1, hprio], h2⟩
      · obtain ⟨h1, h2, -⟩ := hw.others t ht hd
        exact .inl ⟨h1.trans (hstate t), h2.trans (hevent t)⟩
  refine ⟨(sw || decide (k'.lists.uxNumberOfItems (.pxReadyTasksLists q) > 1)) || k'.xYieldPending,
    k', ?_, by rw [htick']; exact C', htick'.trans htick, hticked, hpend', fun t ht => ?_,
    fun hsw => ?_⟩
  · rw [Kernel.xTaskIncrementTick_eq hs, hk₁, hcount, Option.bind_some, hk', Option.bind_some, hq]
    rfl
  · refine hticked.task C ht ?_
    rw [hw.status C₁ ht htick, hstatus t ht]
  · have hor := Bool.or_eq_false_iff.mp hsw
    have hor' := Bool.or_eq_false_iff.mp hor.1
    refine ⟨hpend'.symm.trans hor.2, fun hn t ht p hp q' hq' => ?_⟩
    rw [hcur'] at hq'
    by_cases hd : k₁.Due k₁.xTickCount t
    · rw [(hw.due t ht hd).1] at hp
      obtain rfl := TaskList.pxReadyTasksLists.inj (Option.some.inj hp)
      exact hpol hor'.1 t ht hd q' (hcur.trans hq')
    · rw [(hw.others t ht hd).1, hstate] at hp
      exact hn t ht p hp q' hq'

end FreeRtos

end MelonSoc
