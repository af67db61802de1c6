import MelonSoc.Rtos.Switching

set_option autoImplicit false

/-! # What happened while the scheduler was suspended

While the scheduler is suspended, ticks are only counted, tasks whose event came wait in
`xPendingReadyList` and still stand in the list of what they waited for, and switches are owed.
`xTaskResumeAll` empties that list, processes the ticks one by one, and switches if it must.
-/

namespace MelonSoc

namespace FreeRtos

open FreeRtos.Lists Kernel

variable {k k' : Kernel} {f : TaskList → Option (Wheel TaskItem)} {idle : Option Tcb} {i : Tcb}
  {c : Finset Tcb} {l : TaskList} {t : Tcb} {b now A : Nat}

/-! ## The tasks whose event came -/

/-- The tasks that were pending are ready. -/
structure Collected (k k' : Kernel) (c : Finset Tcb) : Prop where
  rest : k' = { k with
    lists := k'.lists, uxTopReadyPriority := k'.uxTopReadyPriority
    xYieldPending := k'.xYieldPending }
  pending : ∀ t ∈ c, k.eventList t = some .xPendingReadyList →
    k'.stateList t = some (.pxReadyTasksLists (k.uxPriority t)) ∧ k'.eventList t = none
  others : ∀ t ∈ c, k.eventList t ≠ some .xPendingReadyList →
    k'.stateList t = k.stateList t ∧ k'.eventList t = k.eventList t ∧ k'.wakeTime t = k.wakeTime t

/-- One task first, and then the others. -/
theorem Collected.cons {k₁ : Kernel} {y : Bool} (r : Readied k k₁ t c) (ht : t ∈ c)
    (hp : k.eventList t = some .xPendingReadyList)
    (h : Collected { k₁ with xYieldPending := y } k' c) : Collected k k' c := by
  have hprio : k₁.uxPriority = k.uxPriority := by rw [r.rest]
  refine ⟨?_, fun t' ht' hp' => ?_, fun t' ht' hn => ?_⟩
  · rw [h.rest]
    rw [r.rest]
  · by_cases he : t' = t
    · rw [he]
      have hnot : k₁.eventList t ≠ some .xPendingReadyList := by
        rw [r.eventList]
        exact fun he => by cases he
      obtain ⟨h1, h2, -⟩ := h.others t ht hnot
      exact ⟨h1.trans r.stateList, h2.trans r.eventList⟩
    · rw [← hprio]
      exact h.pending t' ht' ((r.others t' he).2.1.trans hp')
  · have hne : t' ≠ t := fun he => hn (he ▸ hp)
    obtain ⟨g1, g2, g3⟩ := r.others t' hne
    obtain ⟨h1, h2, h3⟩ := h.others t' ht' fun he => hn (g2.symm.trans he)
    exact ⟨h1.trans g1, h2.trans g2, h3.trans g3⟩

theorem Core.yieldPending (C : Core k idle c b) (y : Bool) :
    Core { k with xYieldPending := y } idle c b :=
  ⟨C.listed, C.current, C.placed, C.waits, C.prio, C.ready, C.top, C.delayed, C.ticks, C.later,
    C.wrapped, C.count, C.idle_ready⟩

/-- **The loop over the pending tasks** makes them ready, and owes a switch to one of higher
priority. -/
theorem Core.movePendingReady (C : Core k idle c b) (fuel : Nat)
    (hfuel : k.lists.uxNumberOfItems .xPendingReadyList < fuel) :
    ∃ k', k.movePendingReady fuel = some k' ∧ Core k' idle c b ∧ Collected k k' c ∧
      (k'.xYieldPending = false → k.xYieldPending = false ∧ (k.NoneHigher c → k'.NoneHigher c)) := by
  induction fuel generalizing k with
  | zero => exact absurd hfuel (Nat.not_lt_zero _)
  | succ fuel ih =>
      obtain ⟨f, L⟩ := C.listed
      obtain ⟨w, hw⟩ := L.init .xPendingReadyList trivial
      unfold Kernel.movePendingReady
      cases hempty : k.listIsEmpty .xPendingReadyList with
      | true =>
          have hno : ∀ t ∈ c, k.eventList t ≠ some .xPendingReadyList := fun t ht =>
            (L.isEmpty_iff hw).mp hempty (.xEventListItem t) ht
          exact ⟨k, if_pos rfl, C, ⟨rfl, fun t ht hp => absurd hp (hno t ht),
            fun _ _ _ => ⟨rfl, rfl, rfl⟩⟩, fun hy => ⟨hy, id⟩⟩
      | false =>
          obtain ⟨j, is, -, hhead, hj, hjc, -⟩ := L.head hw hempty
          obtain ⟨hitem, hevent⟩ := C.event_item hj hjc (.inl rfl)
          obtain ⟨ls, hstate, hs⟩ := C.placed _ hj
          obtain ⟨k₁, k₂, hk₁, hk₂, r⟩ := L.ready_pending hj (C.prio _ hj) hstate hevent
          generalize hk₃ : k₂.prvAddTaskToReadyList j.pvOwner = k₃ at r
          have C₃ := r.core C hj
          have hprio : k₃.uxPriority = k.uxPriority := by rw [r.rest]
          have hpend : k₃.xYieldPending = k.xYieldPending := by rw [r.rest]
          have hcur : k₃.currentPriority = k.currentPriority := by
            rw [r.rest]
            rfl
          obtain ⟨q, hq⟩ := C.currentPriority
          obtain ⟨f', L'⟩ := r.listed
          obtain ⟨w', hw'⟩ := L'.init .xPendingReadyList trivial
          have hlen := r.length L L' hj hw hw' (.inr hitem) hjc (fun p he => by cases he)
            fun j' hj' hc => by
              rcases hj' with rfl | rfl
              · rw [show k.container _ = _ from hstate] at hc
                obtain rfl := Option.some.inj hc
                exact hs.elim
              · exact hitem.symm
          have hcount : k₃.lists.uxNumberOfItems .xPendingReadyList < fuel := by
            rw [L.shown.count _ w hw] at hfuel
            rw [L'.shown.count _ w' hw']
            omega
          rw [if_neg (by simp)]
          simp only [hhead, hk₁, hk₂, hk₃, hcur, hq, Option.bind_eq_bind, Option.bind_some]
          obtain ⟨k', hrun, C', hcol, hpol⟩ := ih (C₃.yieldPending
            (k₃.xYieldPending || decide (k₃.uxPriority j.pvOwner > q))) hcount
          refine ⟨k', hrun, C', hcol.cons r hj hevent, fun hy => ?_⟩
          obtain ⟨hy', hn'⟩ := hpol hy
          obtain ⟨hy₃, hle⟩ := Bool.or_eq_false_iff.mp hy'
          refine ⟨hpend.symm.trans hy₃, fun hn => hn' fun t ht p hp q' hq' => ?_⟩
          -- the task that moved has no higher priority, the others stand where they stood
          have hq'' : k.currentPriority = some q' := hcur.symm.trans hq'
          by_cases he : t = j.pvOwner
          · have hp' : k₃.stateList t = some (.pxReadyTasksLists p) := hp
            rw [he, r.stateList] at hp'
            obtain rfl := TaskList.pxReadyTasksLists.inj (Option.some.inj hp')
            obtain rfl := Option.some.inj (hq.symm.trans hq'')
            rw [hprio] at hle
            exact Nat.le_of_not_lt (of_decide_eq_false hle)
          · have hp' : k₃.stateList t = some (.pxReadyTasksLists p) := hp
            rw [(r.others t he).1] at hp'
            exact hn t ht p hp' q' hq''

/-! ## The ticks that came -/

/-- No deadline has passed. -/
theorem Core.task_age (C : Core k idle c (k.xTickCount + 1)) (hA : k.xTickCount = A % 2 ^ 32)
    (ht : t ∈ c) : (k.task A t).age A = k.task A t := by
  rcases C.status_cases ht A with ⟨hl, hs⟩ | ⟨hl, hs⟩ | ⟨-, -, ⟨-, hs⟩ | ⟨-, hs⟩ | ⟨-, hs⟩⟩
  · have hlater := (C.later t ht hl).1
    rw [TaskState.age_of_blocked (s := k.task A t) hs, if_neg (by omega)]
  · rw [TaskState.age_of_blocked (s := k.task A t) hs, if_neg (by omega)]
  · exact TaskState.age_of_ne _ _ fun d he => by cases hs.symm.trans he
  · exact TaskState.age_of_ne _ _ fun d he => by cases hs.symm.trans he
  · exact TaskState.age_of_ne _ _ fun d he => by cases hs.symm.trans he

/-- **The loop over the ticks** is as many ticks. -/
theorem Core.processPendedTicks (n : Nat) (C : Core k idle c (k.xTickCount + 1))
    (hs : k.uxSchedulerSuspended = 0) (hA : k.xTickCount = A % 2 ^ 32) :
    ∃ k', k.processPendedTicks n = some k' ∧ Core k' idle c (k'.xTickCount + 1) ∧
      k'.xTickCount = (A + n) % 2 ^ 32 ∧ Ticked k k' c ∧
      (∀ t ∈ c, k'.task (A + n) t = (k.task A t).age (A + n)) ∧
      (k'.xYieldPending = false → k.xYieldPending = false ∧ (k.NoneHigher c → k'.NoneHigher c)) := by
  induction n generalizing k A with
  | zero =>
      exact ⟨k, rfl, C, hA, Ticked.refl k, fun t ht => (C.task_age hA ht).symm,
        fun hy => ⟨hy, id⟩⟩
  | succ n ih =>
      obtain ⟨sw, k₁, hk₁, C₁, hA₁, htick, hpend, hstatus, hpol⟩ := C.tick hs hA
      have hs₁ : k₁.uxSchedulerSuspended = 0 := by
        rw [htick.rest]
        exact hs
      obtain ⟨k', hk', C', hA', htick', hstatus', hpol'⟩ :=
        ih (C₁.yieldPending (k₁.xYieldPending || sw)) hs₁ hA₁
      have hadd : A + 1 + n = A + (n + 1) := by omega
      rw [hadd] at hA' hstatus'
      refine ⟨k', ?_, C', hA', htick.trans ⟨?_, htick'.moved⟩, fun t ht => ?_, fun hy => ?_⟩
      · unfold Kernel.processPendedTicks
        rw [hk₁]
        exact hk'
      · rw [htick'.rest]
      · calc k'.task (A + (n + 1)) t = (k₁.task (A + 1) t).age (A + (n + 1)) := hstatus' t ht
          _ = ((k.task A t).age (A + 1)).age (A + (n + 1)) := by rw [hstatus t ht]
          _ = (k.task A t).age (A + (n + 1)) := TaskState.age_age _ (by omega)
      · obtain ⟨hy', hn'⟩ := hpol' hy
        obtain ⟨hy₁, hsw⟩ := Bool.or_eq_false_iff.mp hy'
        obtain ⟨hy₀, hn₀⟩ := hpol hsw
        exact ⟨hy₀, fun hn => hn' (hn₀ hn)⟩

/-! ## Resuming -/

/-- The kernel has caught up: the pending tasks are ready, and the others are as much older as
ticks came. -/
structure Resumed (k k' : Kernel) (c : Finset Tcb) (A : Nat) : Prop where
  rest : k' = { k with
    lists := k'.lists, pxCurrentTCB := k'.pxCurrentTCB
    pxDelayedTaskList := k'.pxDelayedTaskList
    pxOverflowDelayedTaskList := k'.pxOverflowDelayedTaskList, xTickCount := k'.xTickCount
    uxTopReadyPriority := k'.uxTopReadyPriority, xPendedTicks := 0
    xYieldPending := k'.xYieldPending, xNumOfOverflows := k'.xNumOfOverflows
    xNextTaskUnblockTime := k'.xNextTaskUnblockTime }
  clock : k'.xTickCount = (A + k.xPendedTicks) % 2 ^ 32
  event : ∀ t ∈ c, ∀ l, k'.eventList t = some l →
    k.eventList t = some l ∧ l ≠ .xPendingReadyList
  gone : ∀ t ∈ c, k'.stateList t = some .xTasksWaitingTermination ↔
    k.stateList t = some .xTasksWaitingTermination
  pending : ∀ t ∈ c, k.eventList t = some .xPendingReadyList →
    k'.task (A + k.xPendedTicks) t = ⟨.ready, none, k.uxPriority t⟩
  others : ∀ t ∈ c, k.eventList t ≠ some .xPendingReadyList →
    k'.task (A + k.xPendedTicks) t = (k.task A t).age (A + k.xPendedTicks)

theorem Collected.task (h : Collected k k' c) (ht : t ∈ c)
    (hp : k.eventList t ≠ some .xPendingReadyList) : k'.task A t = k.task A t := by
  obtain ⟨h1, h2, h3⟩ := h.others t ht hp
  have hprio : k'.uxPriority = k.uxPriority := by rw [h.rest]
  unfold Kernel.task
  rw [Kernel.status_congr h1 h3 (by rw [h.rest]) (by rw [h.rest]), h2, hprio]

/-- **Resuming**, up to the switch. -/
theorem Core.resume (C : Core k idle c (k.xTickCount + 1)) (hs : k.uxSchedulerSuspended = 0)
    (hA : k.xTickCount = A % 2 ^ 32) :
    ∃ k', k.resume = some k' ∧ Core k' idle c (k'.xTickCount + 1) ∧ Resumed k k' c A ∧
      k'.pxCurrentTCB = k.pxCurrentTCB ∧ (Settled k c → Settled k' c) := by
  obtain ⟨k₁, hk₁, C₁, hcol, hpol₁⟩ := C.movePendingReady
    (k.lists.uxNumberOfItems .xPendingReadyList + 1) (Nat.lt_succ_self _)
  have hprio : k₁.uxPriority = k.uxPriority := by rw [hcol.rest]
  have htick₁ : k₁.xTickCount = k.xTickCount := by rw [hcol.rest]
  have hs₁ : k₁.uxSchedulerSuspended = 0 := by
    rw [hcol.rest]
    exact hs
  have hpended : k₁.xPendedTicks = k.xPendedTicks := by rw [hcol.rest]
  -- looking up the next time changes nothing else
  have hreset : ∃ k₂ n, (if !k.listIsEmpty .xPendingReadyList then k₁.prvResetNextTaskUnblockTime
      else k₁) = k₂ ∧ k₂ = { k₁ with xNextTaskUnblockTime := n } ∧
      Core k₂ idle c (k₂.xTickCount + 1) := by
    rw [← htick₁] at C₁
    cases k.listIsEmpty .xPendingReadyList with
    | true => exact ⟨k₁, _, if_neg (by simp), rfl, C₁⟩
    | false => exact ⟨_, _, if_pos rfl, rfl, C₁.reset⟩
  obtain ⟨k₂, n, hk₂, hrest₂, C₂⟩ := hreset
  have htick₂ : k₂.xTickCount = k.xTickCount := by
    rw [hrest₂]
    exact htick₁
  have hs₂ : k₂.uxSchedulerSuspended = 0 := by
    rw [hrest₂]
    exact hs₁
  have hpended₂ : k₂.xPendedTicks = k.xPendedTicks := by
    rw [hrest₂]
    exact hpended
  have hprio₂ : k₂.uxPriority = k.uxPriority := by
    rw [hrest₂]
    exact hprio
  have hstate₂ : ∀ t, k₂.stateList t = k₁.stateList t := fun t => by
    rw [hrest₂]
    rfl
  have hevent₂ : ∀ t, k₂.eventList t = k₁.eventList t := fun t => by
    rw [hrest₂]
    rfl
  have htask₂ : ∀ t, k₂.task A t = k₁.task A t := fun t => by
    rw [hrest₂]
    rfl
  obtain ⟨k₃, hk₃, C₃, hclock, hticked, hstatus, hpol₃⟩ := C₂.processPendedTicks k.xPendedTicks hs₂
    (htick₂.trans hA)
  have C' : Core { k₃ with xPendedTicks := 0 } idle c (k₃.xTickCount + 1) :=
    ⟨C₃.listed, C₃.current, C₃.placed, C₃.waits, C₃.prio, C₃.ready, C₃.top, C₃.delayed, C₃.ticks,
      C₃.later, C₃.wrapped, C₃.count, C₃.idle_ready⟩
  refine ⟨{ k₃ with xPendedTicks := 0 }, ?_, C', ⟨?_, hclock, ?_, ?_, ?_, ?_⟩, ?_,
    fun hset hy => ?_⟩
  · unfold Kernel.resume
    simp only [hk₁, hk₂, hpended₂, hk₃, Option.bind_eq_bind, Option.bind_some]
  · rw [hticked.rest]
    rw [hrest₂]
    rw [hcol.rest]
  · intro t ht l hl
    have hl₁ : k₁.eventList t = some l := (hevent₂ t).symm.trans (hticked.eventList ht hl)
    by_cases hp : k.eventList t = some .xPendingReadyList
    · rw [(hcol.pending t ht hp).2] at hl₁
      cases hl₁
    · rw [(hcol.others t ht hp).2.1] at hl₁
      exact ⟨hl₁, fun he => hp (he ▸ hl₁)⟩
  · intro t ht
    have hno : ¬ TaskList.xTasksWaitingTermination.IsDelayed := fun hd => by
      rcases hd with he | he <;> cases he
    have hiff := hticked.stateList_iff ht (fun p he => by cases he) hno
    refine hiff.trans ?_
    rw [hstate₂]
    by_cases hp : k.eventList t = some .xPendingReadyList
    · rw [(hcol.pending t ht hp).1]
      constructor
      · intro he
        cases he
      · intro he
        exact absurd he (C.waits t ht _ hp).2.not_deleted
    · rw [(hcol.others t ht hp).1]
  · intro t ht hp
    obtain ⟨hl, he⟩ := hcol.pending t ht hp
    have hready : k₂.task A t = ⟨.ready, none, k.uxPriority t⟩ := by
      rw [htask₂, Kernel.task, Kernel.status_ready hl, he, hprio]
    exact (hstatus t ht).trans (by rw [hready]; rfl)
  · intro t ht hp
    refine (hstatus t ht).trans ?_
    rw [htask₂, hcol.task ht hp]
  · rw [hticked.rest]
    rw [hrest₂]
    rw [hcol.rest]
  · obtain ⟨hy₂, hn₃⟩ := hpol₃ hy
    have hy₁ : k₁.xYieldPending = false := by
      rw [hrest₂] at hy₂
      exact hy₂
    obtain ⟨hy₀, hn₁⟩ := hpol₁ hy₁
    have hn₂ : k₂.NoneHigher c := by
      rw [hrest₂]
      exact hn₁ (hset hy₀)
    exact hn₃ hn₂

/-- A task of the highest ready priority runs. -/
def RunsHighest (k : Kernel) (c : Finset Tcb) : Prop :=
  ∃ t ∈ c, k.pxCurrentTCB = some t ∧ k.stateList t = some (.pxReadyTasksLists (k.uxPriority t)) ∧
    ∀ t' ∈ c, ∀ p, k.stateList t' = some (.pxReadyTasksLists p) → p ≤ k.uxPriority t

theorem Yielded.runsHighest (y : Yielded k k' c) (hs : k.uxSchedulerSuspended = 0) :
    RunsHighest k' c := by
  obtain ⟨-, t, ht, hcur, hready, hmax⟩ := y.chosen hs
  have hprio : k'.uxPriority = k.uxPriority := by rw [y.rest]
  refine ⟨t, ht, hcur, by rw [y.unmoved.stateList, hprio]; exact hready, fun t' ht' p hp => ?_⟩
  rw [y.unmoved.stateList] at hp
  rw [hprio]
  exact hmax t' ht' p hp

/-- A switch does not change how the tasks stand. -/
theorem Resumed.yield {k₁ : Kernel} (r : Resumed k k₁ c A) (y : Yielded k₁ k' c) :
    Resumed k k' c A := by
  have hprio : k'.uxPriority = k₁.uxPriority := by rw [y.rest]
  refine ⟨?_, ?_, fun t ht l hl => ?_, fun t ht => ?_, fun t ht hp => ?_, fun t ht hp => ?_⟩
  · rw [y.rest]
    rw [r.rest]
  · have htick : k'.xTickCount = k₁.xTickCount := by rw [y.rest]
    rw [htick]
    exact r.clock
  · rw [y.unmoved.eventList] at hl
    exact r.event t ht l hl
  · rw [y.unmoved.stateList]
    exact r.gone t ht
  · rw [y.unmoved.task hprio]
    exact r.pending t ht hp
  · rw [y.unmoved.task hprio]
    exact r.others t ht hp

/-- **`xTaskResumeAll`** when it ends the suspension: the flag says whether the switch happened. -/
theorem Core.resumeAll (C : Core k (some i) c (k.xTickCount + 1)) (hs : k.uxSchedulerSuspended = 1)
    (hA : k.xTickCount = A % 2 ^ 32) :
    ∃ y k', k.xTaskResumeAll = some (y, k') ∧ Core k' (some i) c (k'.xTickCount + 1) ∧
      Resumed { k with uxSchedulerSuspended := 0 } k' c A ∧ (Settled k c → Settled k' c) ∧
      (y = true → RunsHighest k' c) ∧ (y = false → k'.pxCurrentTCB = k.pxCurrentTCB) := by
  have C₀ : Core { k with uxSchedulerSuspended := 0 } (some i) c (k.xTickCount + 1) :=
    ⟨C.listed, C.current, C.placed, C.waits, C.prio, C.ready, C.top, C.delayed, C.ticks, C.later,
      C.wrapped, C.count, C.idle_ready⟩
  obtain ⟨k₁, hk₁, C₁, r, hcur, hset⟩ := C₀.resume rfl hA
  have hsub : sub32 k.uxSchedulerSuspended 1 = 0 := by
    rw [hs]
    rfl
  have hpos : 0 < k.uxCurrentNumberOfTasks := by
    obtain ⟨t, ht, -⟩ := C.current
    rw [C.count]
    exact Finset.card_pos.mpr ⟨t, ht⟩
  have hassert : configAssert (k.uxSchedulerSuspended != 0) = some () := if_pos (by rw [hs]; rfl)
  have hs₁ : k₁.uxSchedulerSuspended = 0 := by rw [r.rest]
  have hrun : k.xTaskResumeAll = if k₁.xYieldPending then
      k₁.portYield.bind fun k => some (true, k) else some (false, k₁) := by
    unfold Kernel.xTaskResumeAll
    simp only [hassert, hsub, Option.bind_eq_bind, Option.bind_some]
    rw [if_pos ⟨trivial, hpos⟩]
    rw [show Kernel.resume _ = some k₁ from hk₁]
    rfl
  by_cases hy : k₁.xYieldPending = true
  · obtain ⟨k', hk', C', yl⟩ := C₁.switchContext
    have htick : k'.xTickCount = k₁.xTickCount := by rw [yl.rest]
    rw [← htick] at C'
    refine ⟨true, k', ?_, C', r.yield yl, fun _ => yl.settled, fun _ => yl.runsHighest hs₁,
      fun h => by cases h⟩
    rw [hrun, if_pos hy, show k₁.portYield = some k' from hk']
    rfl
  · refine ⟨false, k₁, by rw [hrun, if_neg hy], C₁, r, hset, fun h => ?_, fun _ => hcur⟩
    cases h

end FreeRtos

end MelonSoc
