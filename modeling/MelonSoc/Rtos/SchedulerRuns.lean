import MelonSoc.Rtos.Deleting

set_option autoImplicit false

/-! # The scheduler over whole runs

The calls of the kernel, and what each makes of the tasks, stated without lists, items or 32-bit
words: how a task stands, the event it waits for and its priority, where a tick ages every task.
In every state that any sequence of calls and timer interrupts reaches, each call that may be made
returns, and the tasks are what this says. A call is one step: interrupts come between calls.
-/

namespace MelonSoc

namespace FreeRtos

open Kernel

variable {k k' : Kernel} {m : Lists TaskItem TaskList} {idle : Option Tcb} {i : Tcb}
  {c c' : Finset Tcb} {t : Tcb} {A A' D d e p : Nat}

/-- The calls of the kernel, and the timer interrupt. -/
inductive SchedCall
  | tickInterrupt
  | portYield
  | vTaskSuspendAll
  | xTaskResumeAll
  | vTaskDelay (xTicksToDelay : Nat)
  | vTaskPlaceOnEventList (e xTicksToWait : Nat)
  | vTaskPlaceOnEventListRestricted (e xTicksToWait : Nat) (xWaitIndefinitely : Bool)
  | xTaskRemoveFromEventList (e : Nat)
  | xTaskCreate (t : Tcb) (uxPriority : Nat)
  | vTaskSuspend (t : Tcb)
  | vTaskResume (t : Tcb)
  | vTaskPrioritySet (t : Tcb) (uxNewPriority : Nat)
  | vTaskDelete (t : Tcb)
  | prvCheckTasksWaitingTermination

/-- The running task is not the idle task, and can wait. -/
def CanWait (k : Kernel) (i : Tcb) : Prop :=
  ∃ t, k.pxCurrentTCB = some t ∧ t ≠ i ∧ ∃ p, k.stateList t = some (.pxReadyTasksLists p)

/-- The task exists, is not the idle task and has not been deleted; if it is the running task, the
scheduler is not suspended. -/
def CanStop (k : Kernel) (i : Tcb) (c : Finset Tcb) (t : Tcb) : Prop :=
  t ∈ c ∧ t ≠ i ∧ k.stateList t ≠ some .xTasksWaitingTermination ∧
    (k.pxCurrentTCB = some t → k.uxSchedulerSuspended = 0)

namespace SchedCall

def run (k : Kernel) : SchedCall → Option Kernel
  | tickInterrupt => k.tickInterrupt
  | portYield => k.portYield
  | vTaskSuspendAll => some k.vTaskSuspendAll
  | xTaskResumeAll => k.xTaskResumeAll.map Prod.snd
  | vTaskDelay d => k.vTaskDelay d
  | vTaskPlaceOnEventList e d => k.vTaskPlaceOnEventList e d
  | vTaskPlaceOnEventListRestricted e d inf => k.vTaskPlaceOnEventListRestricted e d inf
  | xTaskRemoveFromEventList e => (k.xTaskRemoveFromEventList e).map Prod.snd
  | xTaskCreate t p => k.xTaskCreate t p
  | vTaskSuspend t => k.vTaskSuspend t
  | vTaskResume t => k.vTaskResume t
  | vTaskPrioritySet t p => k.vTaskPrioritySet t p
  | vTaskDelete t => k.vTaskDelete t
  | prvCheckTasksWaitingTermination =>
      (k.prvCheckTasksWaitingTermination k.uxDeletedTasksWaitingCleanUp).map Prod.snd

/-- The call may be made: what the kernel asserts of its callers, the waits the idle task must not
make, and counts that do not overflow. -/
def Allowed (k : Kernel) (i : Tcb) (c : Finset Tcb) : SchedCall → Prop
  | tickInterrupt => k.xPendedTicks + 1 < 2 ^ 32
  | vTaskSuspendAll => k.uxSchedulerSuspended + 1 < 2 ^ 32
  | xTaskResumeAll => k.uxSchedulerSuspended ≠ 0
  | vTaskDelay d => d < 2 ^ 32 ∧ (0 < d → CanWait k i ∧ k.uxSchedulerSuspended = 0)
  | vTaskPlaceOnEventList _ d => CanWait k i ∧ 0 < d ∧ d < 2 ^ 32
  | vTaskPlaceOnEventListRestricted _ d _ => CanWait k i ∧ 0 < d ∧ d < 2 ^ 32
  | xTaskRemoveFromEventList e => k.listIsEmpty (.pxEventList e) = false
  | xTaskCreate t p => t ∉ c ∧ p < configMaxPriorities ∧ 2 * (c.card + 1) + 2 ≤ 2 ^ 32
  | vTaskSuspend t => CanStop k i c t
  | vTaskResume t => t ∈ c
  | vTaskPrioritySet t p => t ∈ c ∧ t ≠ i ∧ p < configMaxPriorities
  | vTaskDelete t => CanStop k i c t
  | _ => True

/-- The tasks after the call. -/
def tasks (k : Kernel) (c : Finset Tcb) : SchedCall → Finset Tcb
  | xTaskCreate t _ => insert t c
  | vTaskDelete t => if k.pxCurrentTCB = some t then c else c.erase t
  | prvCheckTasksWaitingTermination => c \ gone c k
  | _ => c

/-- The ticks that have been processed after the call. -/
def clock (k : Kernel) (A : Nat) : SchedCall → Nat
  | tickInterrupt => if k.uxSchedulerSuspended = 0 then A + 1 else A
  | xTaskResumeAll => if k.uxSchedulerSuspended = 1 then A + k.xPendedTicks else A
  | _ => A

/-- What the call makes of the task `t`, which was `s`. -/
def effect (k : Kernel) (A : Nat) (t : Tcb) (s : TaskState) : SchedCall → TaskState
  | tickInterrupt => if k.uxSchedulerSuspended = 0 then s.age (A + 1) else s
  | xTaskResumeAll =>
      if k.uxSchedulerSuspended = 1 then
        if s.event = some .xPendingReadyList then ⟨.ready, none, s.priority⟩
        else s.age (A + k.xPendedTicks)
      else s
  | vTaskDelay d =>
      if k.pxCurrentTCB = some t ∧ 0 < d then ⟨.blocked (A + d), none, s.priority⟩ else s
  | vTaskPlaceOnEventList e d =>
      if k.pxCurrentTCB = some t then ⟨waiting d true A, some (.pxEventList e), s.priority⟩ else s
  | vTaskPlaceOnEventListRestricted e d inf =>
      if k.pxCurrentTCB = some t then
        ⟨if inf then .suspended else .blocked (A + d), some (.pxEventList e), s.priority⟩
      else s
  | xTaskRemoveFromEventList e =>
      if Lists.listGetOwnerOfHeadEntry (.pxEventList e) k.lists = some (.xEventListItem t) then
        if k.uxSchedulerSuspended = 0 then ⟨.ready, none, s.priority⟩
        else { s with event := some .xPendingReadyList }
      else s
  | xTaskCreate t' p => if t = t' then ⟨.ready, none, p⟩ else s
  | vTaskSuspend t' => if t = t' then ⟨.suspended, none, s.priority⟩ else s
  | vTaskResume t' =>
      if t = t' ∧ k.pxCurrentTCB ≠ some t ∧ s.status = .suspended ∧ s.event = none then
        ⟨.ready, none, s.priority⟩
      else s
  | vTaskPrioritySet t' p => if t = t' then { s with priority := p } else s
  | vTaskDelete t' => if t = t' then ⟨.deleted, none, s.priority⟩ else s
  | _ => s

end SchedCall

/-- After a reset the first task is created and further ones are; once the scheduler has been
started with its idle task, any call that may be made is. -/
inductive SchedReach : Kernel → Option Tcb → Finset Tcb → Nat → Prop
  | first {m : Lists TaskItem TaskList} {k : Kernel} {t p : Nat}
      (shown : Shows m eventWheels (known ∅)) (hp : p < configMaxPriorities)
      (hk : (Kernel.reset m).xTaskCreate t p = some k) : SchedReach k none {t} 0
  | create {k k' : Kernel} {c : Finset Tcb} {A t p : Nat} (h : SchedReach k none c A) (ht : t ∉ c)
      (hp : p < configMaxPriorities) (hroom : 2 * (c.card + 1) + 2 ≤ 2 ^ 32)
      (hk : k.xTaskCreate t p = some k') : SchedReach k' none (insert t c) A
  | start {k k' : Kernel} {c : Finset Tcb} {A i t : Nat} (h : SchedReach k none c A) (hi : i ∉ c)
      (ht : t ∉ insert i c) (hroom : 2 * (c.card + 2) + 2 ≤ 2 ^ 32)
      (hk : k.vTaskStartScheduler i t = some k') : SchedReach k' (some i) (insert t (insert i c)) 0
  | step {k k' : Kernel} {c : Finset Tcb} {A i : Nat} (h : SchedReach k (some i) c A)
      (call : SchedCall) (hcall : call.Allowed k i c) (hk : call.run k = some k') :
      SchedReach k' (some i) (call.tasks k c) (call.clock k A)

/-! ## One call -/

/-- What a call does that changes one task. -/
theorem effect_of_others {s : Tcb → TaskState} (hself : k'.task A t = s t)
    (hothers : ∀ t' ∈ c, t' ≠ t → k'.task A t' = k.task A t') {t' : Tcb} (ht' : t' ∈ c) :
    k'.task A t' = if t' = t then s t' else k.task A t' := by
  by_cases he : t' = t
  · rw [if_pos he, he, hself]
  · rw [if_neg he, hothers t' ht' he]

/-- The task that waits is the running one. -/
theorem effect_of_current {s : Tcb → TaskState} (hcur : k.pxCurrentTCB = some t)
    (hself : k'.task A t = s t) (hothers : ∀ t' ∈ c, t' ≠ t → k'.task A t' = k.task A t')
    {t' : Tcb} (ht' : t' ∈ c) :
    k'.task A t' = if k.pxCurrentTCB = some t' then s t' else k.task A t' := by
  by_cases he : t' = t
  · rw [he, if_pos hcur, hself]
  · rw [if_neg fun h => he (Option.some.inj (h.symm.trans hcur)), hothers t' ht' he]

/-- **A call** that may be made returns, keeps the invariant and has its effect. -/
theorem Inv.call (I : Inv k (some i) c A) (call : SchedCall) (hcall : call.Allowed k i c) :
    ∃ k', call.run k = some k' ∧ Inv k' (some i) (call.tasks k c) (call.clock k A) ∧
      ∀ t ∈ call.tasks k c, k'.task (call.clock k A) t = call.effect k A t (k.task A t) := by
  have hsame : ∀ k₁ : Kernel, k₁.lists = k.lists → k₁.uxPriority = k.uxPriority →
      k₁.pxDelayedTaskList = k.pxDelayedTaskList →
      k₁.pxOverflowDelayedTaskList = k.pxOverflowDelayedTaskList → ∀ t, k₁.task A t = k.task A t :=
    fun k₁ h1 h2 h3 h4 t => Unmoved.task ⟨by rw [h1], by rw [h1], h3, h4⟩ h2 t
  cases call with
  | tickInterrupt =>
      obtain ⟨k', hk', hrun, hsus⟩ := I.tickInterrupt hcall
      refine ⟨k', hk', ?_⟩
      unfold SchedCall.clock SchedCall.effect
      by_cases hs : k.uxSchedulerSuspended = 0
      · obtain ⟨I', -, htask⟩ := hrun hs
        simp only [if_pos hs]
        exact ⟨I', htask⟩
      · obtain ⟨I', hk⟩ := hsus hs
        simp only [if_neg hs]
        exact ⟨I', fun t _ => hsame k' (by rw [hk]) (by rw [hk]) (by rw [hk]) (by rw [hk]) t⟩
  | portYield =>
      obtain ⟨k', hk', I', y⟩ := I.yield
      exact ⟨k', hk', I', fun t _ => y.unmoved.task (by rw [y.rest]) t⟩
  | vTaskSuspendAll =>
      obtain ⟨I', hk⟩ := I.suspendAll hcall
      exact ⟨_, rfl, I', fun t _ => hsame _ (by rw [hk]) (by rw [hk]) (by rw [hk]) (by rw [hk]) t⟩
  | xTaskResumeAll =>
      obtain ⟨y, k', hk', hmore, hone⟩ := I.resumeAll hcall
      refine ⟨k', by show k.xTaskResumeAll.map Prod.snd = _; rw [hk']; rfl, ?_⟩
      unfold SchedCall.clock SchedCall.effect
      by_cases hs : k.uxSchedulerSuspended = 1
      · obtain ⟨I', r, -⟩ := hone hs
        simp only [if_pos hs]
        refine ⟨I', fun t ht => ?_⟩
        by_cases he : k.eventList t = some .xPendingReadyList
        · rw [if_pos (show (k.task A t).event = _ from he)]
          exact r.pending t ht he
        · rw [if_neg (show (k.task A t).event ≠ _ from he)]
          exact r.others t ht he
      · obtain ⟨I', hk⟩ := hmore hs
        simp only [if_neg hs]
        exact ⟨I', fun t _ => hsame k' (by rw [hk]) (by rw [hk]) (by rw [hk]) (by rw [hk]) t⟩
  | vTaskDelay d =>
      unfold SchedCall.effect
      by_cases hd : 0 < d
      · obtain ⟨⟨t, hcur, hi, hready⟩, hs⟩ := hcall.2 hd
        obtain ⟨k', hk', I', -, htask, hothers⟩ := I.delay hs hcur hready hi hd hcall.1
        simp only [hd, and_true]
        exact ⟨k', hk', I', fun t' ht' => effect_of_current (s := fun t' =>
          ⟨.blocked (A + d), none, (k.task A t').priority⟩) hcur htask hothers ht'⟩
      · obtain ⟨k', hk', I', y⟩ := I.yield
        simp only [hd, and_false, if_false]
        refine ⟨k', ?_, I', fun t _ => y.unmoved.task (by rw [y.rest]) t⟩
        show k.vTaskDelay d = _
        unfold Kernel.vTaskDelay
        rw [if_neg hd]
        exact hk'
  | vTaskPlaceOnEventList e d =>
      obtain ⟨⟨t, hcur, hi, hready⟩, hd, hd'⟩ := hcall
      obtain ⟨k', hk', I', htask, hothers⟩ := I.placeOnEventList hcur hready hi hd hd' e
      exact ⟨k', hk', I', fun t' ht' => effect_of_current (s := fun t' =>
        ⟨waiting d true A, some (.pxEventList e), (k.task A t').priority⟩) hcur htask hothers ht'⟩
  | vTaskPlaceOnEventListRestricted e d inf =>
      obtain ⟨⟨t, hcur, hi, hready⟩, hd, hd'⟩ := hcall
      obtain ⟨k', hk', I', htask, hothers⟩ := I.placeOnEventListRestricted hcur hready hi hd hd' e
        inf
      exact ⟨k', hk', I', fun t' ht' => effect_of_current (s := fun t' =>
        ⟨if inf then .suspended else .blocked (A + d), some (.pxEventList e),
          (k.task A t').priority⟩) hcur htask hothers ht'⟩
  | xTaskRemoveFromEventList e =>
      obtain ⟨t, y, k', -, -, hhead, hk', I', htask, hothers⟩ := I.removeFromEventList hcall
      refine ⟨k', by show (k.xTaskRemoveFromEventList e).map Prod.snd = _; rw [hk']; rfl, I',
        fun t' ht' => ?_⟩
      show k'.task A t' = if Lists.listGetOwnerOfHeadEntry (.pxEventList e) k.lists
        = some (.xEventListItem t') then _ else _
      by_cases he : t' = t
      · rw [he, if_pos hhead]
        exact htask
      · rw [if_neg fun h => he (TaskItem.xEventListItem.inj (Option.some.inj (h.symm.trans hhead))),
          hothers t' ht' he]
  | xTaskCreate t p =>
      obtain ⟨ht, hp, hroom⟩ := hcall
      obtain ⟨k', hk', I', htask, hothers⟩ := I.create ht hp hroom
      refine ⟨k', hk', I', fun t' ht' => effect_of_others (s := fun _ => ⟨.ready, none, p⟩) htask
        (fun t' ht' hne => ?_) ht'⟩
      exact hothers t' ((Finset.mem_insert.mp ht').resolve_left hne)
  | vTaskSuspend t =>
      obtain ⟨ht, hi, hgone, hs⟩ := hcall
      obtain ⟨k', hk', I', htask, hothers⟩ := I.suspend ht hi hgone hs
      exact ⟨k', hk', I', fun t' ht' => effect_of_others (s := fun t' =>
        ⟨.suspended, none, (k.task A t').priority⟩) htask hothers ht'⟩
  | vTaskResume t =>
      obtain ⟨k', hk', I', htask, hothers⟩ := I.resume hcall
      refine ⟨k', hk', I', fun t' ht' => ?_⟩
      show k'.task A t' = if t' = t ∧ k.pxCurrentTCB ≠ some t' ∧ (k.task A t').status = .suspended ∧
        (k.task A t').event = none then ⟨.ready, none, (k.task A t').priority⟩ else _
      by_cases he : t' = t
      · subst he
        simp only [true_and]
        exact htask
      · rw [if_neg fun h => he h.1, hothers t' ht' he]
  | vTaskPrioritySet t p =>
      obtain ⟨ht, hi, hp⟩ := hcall
      obtain ⟨k', hk', I', htask, hothers⟩ := I.prioritySet ht hi hp
      exact ⟨k', hk', I', fun t' ht' => effect_of_others (s := fun t' =>
        { k.task A t' with priority := p }) htask hothers ht'⟩
  | vTaskDelete t =>
      obtain ⟨ht, hi, hgone, hs⟩ := hcall
      by_cases hcur : k.pxCurrentTCB = some t
      · obtain ⟨k', hk', I', -, htask, hothers⟩ := I.deleteSelf hi hcur (hs hcur)
        have hc : (SchedCall.vTaskDelete t).tasks k c = c := if_pos hcur
        rw [hc]
        exact ⟨k', hk', I', fun t' ht' => effect_of_others (s := fun t' =>
          ⟨.deleted, none, (k.task A t').priority⟩) htask hothers ht'⟩
      · obtain ⟨k', hk', I', htask⟩ := I.deleteOther ht hi hgone hcur
        have hc : (SchedCall.vTaskDelete t).tasks k c = c.erase t := if_neg hcur
        rw [hc]
        refine ⟨k', hk', I', fun t' ht' => ?_⟩
        exact (htask t' ht').trans (if_neg (Finset.mem_erase.mp ht').1).symm
  | prvCheckTasksWaitingTermination =>
      obtain ⟨ts, k', hk', -, -, I', htask⟩ := I.checkTermination _ rfl
      rw [← I.cleanUp] at hk'
      refine ⟨k', ?_, I', htask⟩
      show (k.prvCheckTasksWaitingTermination k.uxDeletedTasksWaitingCleanUp).map Prod.snd = _
      rw [hk']
      rfl

/-! ## Runs -/

/-- Every state reached keeps the invariant. -/
theorem SchedReach.inv (h : SchedReach k idle c A) : Inv k idle c A := by
  induction h with
  | first shown hp hk =>
      obtain ⟨k', hk', I, -⟩ := Inv.first shown hp
      exact Option.some.inj (hk'.symm.trans hk) ▸ I
  | create h ht hp hroom hk ih =>
      obtain ⟨k', hk', I, -⟩ := ih.create ht hp hroom
      exact Option.some.inj (hk'.symm.trans hk) ▸ I
  | start h hi ht hroom hk ih =>
      obtain ⟨k', hk', I, -⟩ := ih.start hi ht hroom
      exact Option.some.inj (hk'.symm.trans hk) ▸ I
  | step h call hcall hk ih =>
      obtain ⟨k', hk', I, -⟩ := ih.call call hcall
      exact Option.some.inj (hk'.symm.trans hk) ▸ I

/-- **A task of the highest ready priority runs** in every state reached in which no switch is owed.
Every timer interrupt sees to it while the scheduler is not suspended, and so do a yield and a
delay. -/
theorem scheduler_policy (h : SchedReach k (some i) c A) :
    (k.xYieldPending = false → k.NoneHigher c) ∧
      (k.uxSchedulerSuspended = 0 →
        (∃ k', k.portYield = some k' ∧ RunsHighest k' c) ∧
        (∃ k', k.tickInterrupt = some k' ∧ k'.NoneHigher c) ∧
        ∀ d, (SchedCall.vTaskDelay d).Allowed k i c →
          ∃ k', k.vTaskDelay d = some k' ∧ RunsHighest k' c) := by
  have I := h.inv
  refine ⟨I.settled, fun hs => ⟨?_, ?_, fun d hcall => ?_⟩⟩
  · obtain ⟨k', hk', -, y⟩ := I.yield
    exact ⟨k', hk', y.runsHighest hs⟩
  · have hroom : k.xPendedTicks + 1 < 2 ^ 32 := by
      rw [(I.caught hs).1]
      decide
    obtain ⟨k', hk', hrun, -⟩ := I.tickInterrupt hroom
    obtain ⟨I', hy, -⟩ := hrun hs
    exact ⟨k', hk', I'.settled hy⟩
  · by_cases hd : 0 < d
    · obtain ⟨⟨t, hcur, hi, hready⟩, -⟩ := hcall.2 hd
      obtain ⟨k', hk', -, hruns, -⟩ := I.delay hs hcur hready hi hd hcall.1
      exact ⟨k', hk', hruns⟩
    · obtain ⟨k', hk', -, y⟩ := I.yield
      refine ⟨k', ?_, y.runsHighest hs⟩
      unfold Kernel.vTaskDelay
      rw [if_neg hd]
      exact hk'

/-- Lists of which only those for the events have been initialised. -/
def eventLists : Lists TaskItem TaskList where
  xItemValue _ := portMaxDelay
  pxNext p := p
  pxPrevious p := p
  pxContainer _ := none
  uxNumberOfItems _ := 0
  pxIndex l := .xListEnd l

theorem eventLists_shown : Shows eventLists eventWheels (known ∅) := by
  have hempty : ∀ l w, eventWheels l = some w → w = .empty := by
    intro l w hw
    cases l <;> cases hw
    rfl
  refine ⟨fun l w hw => ?_, fun l w hw => ?_, fun l w hw => ?_, fun l w hw => ?_, fun l w hw => rfl,
    fun l w hw => ?_, fun l w hw i hi => ?_, fun i l hi => absurd hi (Finset.notMem_empty _),
    fun p => by show portMaxDelay < 2 ^ 32; decide⟩
  · rw [hempty l w hw]
    exact ⟨rfl, rfl⟩
  · rw [hempty l w hw]
    rfl
  · rw [hempty l w hw]
    rfl
  · rw [hempty l w hw]
    exact Nat.two_pow_pos 32
  · rw [hempty l w hw]
    exact List.nodup_nil
  · rw [hempty l w hw] at hi
    cases hi

/-- One task of the highest priority, and the scheduler. -/
def started : Option Kernel :=
  ((Kernel.reset eventLists).xTaskCreate 0 3).bind fun k => k.vTaskStartScheduler 1 2

theorem started_reached : ∃ k, started = some k ∧ SchedReach k (some 1) {2, 1, 0} 0 := by
  obtain ⟨k₁, hk₁, -⟩ := Inv.first (t := 0) (p := 3) eventLists_shown (by decide)
  have h₁ := SchedReach.first eventLists_shown (by decide) hk₁
  obtain ⟨k₂, hk₂, -⟩ := h₁.inv.start (i := 1) (t := 2) (by decide) (by decide) (by decide)
  refine ⟨k₂, ?_, h₁.start (by decide) (by decide) (by decide) hk₂⟩
  unfold started
  rw [hk₁]
  exact hk₂

theorem started_runs {k : Kernel} (hk : started = some k) : k.pxCurrentTCB = some 0 ∧
    k.uxSchedulerSuspended = 0 ∧ k.stateList 0 = some (.pxReadyTasksLists 3) ∧
    k.uxPriority 0 = 3 := by
  obtain rfl := Option.some.inj (hk.symm.trans (rfl : started = some _))
  exact ⟨rfl, rfl, rfl, rfl⟩

theorem started_delays {k k₁ : Kernel} (hk : started = some k) (hk₁ : k.vTaskDelay 1 = some k₁) :
    k₁.uxSchedulerSuspended = 0 ∧ k₁.xPendedTicks = 0 := by
  obtain rfl := Option.some.inj (hk.symm.trans (rfl : started = some _))
  obtain rfl := Option.some.inj (hk₁.symm.trans (rfl : _ = some _))
  exact ⟨rfl, rfl⟩

theorem scheduler_policy_started : ∃ k k', SchedReach k (some 1) {2, 1, 0} 0 ∧
    k.portYield = some k' ∧ RunsHighest k' {2, 1, 0} := by
  obtain ⟨k, hk, h⟩ := started_reached
  obtain ⟨-, hs, -⟩ := started_runs hk
  obtain ⟨k', hk', hruns⟩ := ((scheduler_policy h).2 hs).1
  exact ⟨k, k', h, hk', hruns⟩

/-! ## Delays -/

/-- A task that is blocked has its deadline before it. -/
theorem Sound.deadline (S : Sound k idle c A) (ht : t ∈ c) (hs : k.status A t = .blocked D) :
    A < D := by
  have hage := S.age ht
  rw [TaskState.age_of_blocked (s := k.task A t) hs] at hage
  by_contra hle
  rw [if_pos (Nat.le_of_not_lt hle)] at hage
  cases (congrArg TaskState.status hage).trans hs

/-- A blocked task that waits for no event is touched by no call but its suspension and its
deletion, and by the ticks. -/
theorem Inv.spared (I : Inv k (some i) c A) (ht : t ∈ c) (hs : k.status A t = .blocked D)
    (he : k.eventList t = none) (call : SchedCall) (hcall : call.Allowed k i c)
    (hspare : call ≠ .vTaskSuspend t ∧ call ≠ .vTaskDelete t) :
    t ∈ call.tasks k c ∧ (call.effect k A t (k.task A t)).event = none ∧
      (call.effect k A t (k.task A t)).status
        = if D ≤ call.clock k A then .ready else .blocked D := by
  have hlt := I.deadline ht hs
  have hkeep : k.status A t = if D ≤ A then .ready else .blocked D := by
    rw [if_neg (Nat.not_le.mpr hlt), hs]
  -- whatever the ticks that are processed, the task ages as its deadline says
  have hage : ∀ A', ((k.task A t).age A').event = none ∧
      ((k.task A t).age A').status = if D ≤ A' then .ready else .blocked D := by
    intro A'
    rw [TaskState.age_of_blocked (s := k.task A t) hs]
    by_cases hle : D ≤ A'
    · rw [if_pos hle, if_pos hle]
      exact ⟨rfl, rfl⟩
    · rw [if_neg hle, if_neg hle]
      exact ⟨he, hs⟩
  have hsame : ∀ call : SchedCall, t ∈ call.tasks k c → call.clock k A = A →
      call.effect k A t (k.task A t) = k.task A t → t ∈ call.tasks k c ∧
        (call.effect k A t (k.task A t)).event = none ∧
        (call.effect k A t (k.task A t)).status
          = if D ≤ call.clock k A then .ready else .blocked D := by
    intro call h1 h2 h3
    rw [h2, h3]
    exact ⟨h1, he, hkeep⟩
  have hwait : CanWait k i → k.pxCurrentTCB ≠ some t := by
    rintro ⟨r, hcur, -, q, hq⟩ hr
    obtain rfl := Option.some.inj (hcur.symm.trans hr)
    cases (Kernel.status_ready hq).symm.trans hs
  cases call with
  | tickInterrupt =>
      by_cases hz : k.uxSchedulerSuspended = 0
      · unfold SchedCall.effect SchedCall.clock
        simp only [if_pos hz]
        exact ⟨ht, hage (A + 1)⟩
      · exact hsame _ ht (if_neg hz) (if_neg hz)
  | xTaskResumeAll =>
      by_cases hz : k.uxSchedulerSuspended = 1
      · have hne : (k.task A t).event ≠ some .xPendingReadyList := fun h => by
          cases he.symm.trans h
        unfold SchedCall.effect SchedCall.clock
        simp only [if_pos hz, if_neg hne]
        exact ⟨ht, hage (A + k.xPendedTicks)⟩
      · exact hsame _ ht (if_neg hz) (if_neg hz)
  | vTaskDelay d => exact hsame _ ht rfl (if_neg fun h => hwait (hcall.2 h.2).1 h.1)
  | vTaskPlaceOnEventList e d => exact hsame _ ht rfl (if_neg (hwait hcall.1))
  | vTaskPlaceOnEventListRestricted e d inf => exact hsame _ ht rfl (if_neg (hwait hcall.1))
  | xTaskRemoveFromEventList e =>
      obtain ⟨r, -, -, -, hr, hhead, -⟩ := I.removeFromEventList hcall
      have hne : Lists.listGetOwnerOfHeadEntry (.pxEventList e) k.lists
          ≠ some (.xEventListItem t) := by
        intro h
        obtain rfl := TaskItem.xEventListItem.inj (Option.some.inj (hhead.symm.trans h))
        cases he.symm.trans hr
      exact hsame _ ht rfl (if_neg hne)
  | xTaskCreate t' p =>
      have hne : t ≠ t' := by
        rintro rfl
        exact hcall.1 ht
      exact hsame _ (Finset.mem_insert_of_mem ht) rfl (if_neg hne)
  | vTaskSuspend t' => exact hsame _ ht rfl (if_neg fun h => hspare.1 (by rw [h]))
  | vTaskResume t' => exact hsame _ ht rfl (if_neg fun h => by cases hs.symm.trans h.2.2.1)
  | vTaskPrioritySet t' p =>
      refine ⟨ht, ?_⟩
      unfold SchedCall.effect
      by_cases h : t = t'
      · simp only [if_pos h]
        exact ⟨he, hkeep⟩
      · simp only [if_neg h]
        exact ⟨he, hkeep⟩
  | vTaskDelete t' =>
      have hne : t ≠ t' := fun h => hspare.2 (by rw [h])
      refine hsame _ ?_ rfl (if_neg hne)
      show t ∈ if k.pxCurrentTCB = some t' then c else c.erase t'
      split
      · exact ht
      · exact Finset.mem_erase.mpr ⟨hne, ht⟩
  | prvCheckTasksWaitingTermination =>
      refine hsame _ (Finset.mem_sdiff.mpr ⟨ht, fun hg => ?_⟩) rfl rfl
      cases (I.core.status_deleted ht (Finset.mem_filter.mp hg).2 A).symm.trans hs
  | portYield => exact hsame _ ht rfl rfl
  | vTaskSuspendAll => exact hsame _ ht rfl rfl

/-- A run in which no call suspends or deletes the task `t`, and each is made before the tick `D`
has been processed. -/
inductive SparingRun (i t D : Nat) (k : Kernel) (c : Finset Tcb) (A : Nat) :
    Kernel → Finset Tcb → Nat → Prop
  | refl : SparingRun i t D k c A k c A
  | step {k₁ k₂ : Kernel} {c₁ : Finset Tcb} {A₁ : Nat} (r : SparingRun i t D k c A k₁ c₁ A₁)
      (hD : A₁ < D) (call : SchedCall) (hcall : call.Allowed k₁ i c₁)
      (hspare : call ≠ .vTaskSuspend t ∧ call ≠ .vTaskDelete t) (hk : call.run k₁ = some k₂) :
      SparingRun i t D k c A k₂ (call.tasks k₁ c₁) (call.clock k₁ A₁)

/-- Along such a run the task waits for no event, and its deadline stays the same. -/
theorem SparingRun.delayed (r : SparingRun i t D k c A k' c' A') (h : SchedReach k (some i) c A)
    (ht : t ∈ c) (hs : k.status A t = .blocked D) (he : k.eventList t = none) :
    SchedReach k' (some i) c' A' ∧ t ∈ c' ∧ k'.eventList t = none ∧
      k'.status A' t = if D ≤ A' then .ready else .blocked D := by
  induction r with
  | refl =>
      refine ⟨h, ht, he, ?_⟩
      rw [if_neg (Nat.not_le.mpr (h.inv.deadline ht hs)), hs]
  | step r hD call hcall hspare hk ih =>
      obtain ⟨h₁, ht₁, he₁, hs₁⟩ := ih
      rw [if_neg (Nat.not_le.mpr hD)] at hs₁
      obtain ⟨ht₂, he₂, hs₂⟩ := h₁.inv.spared ht₁ hs₁ he₁ call hcall hspare
      obtain ⟨k₃, hk₃, -, htask⟩ := h₁.inv.call call hcall
      obtain rfl := Option.some.inj (hk₃.symm.trans hk)
      rw [← htask t ht₂] at he₂ hs₂
      exact ⟨h₁.step call hcall hk, ht₂, he₂, hs₂⟩

/-- **A delay is exact.** The task that calls `vTaskDelay` with `d` at the tick `A` is blocked as
long as the tick `A + d` has not been processed, and ready as soon as it has, whatever else is
called meanwhile and however often the 32-bit count of the ticks wraps. -/
theorem delay_exact {k₁ : Kernel} (h : SchedReach k (some i) c A) (hcur : k.pxCurrentTCB = some t)
    (hcall : (SchedCall.vTaskDelay d).Allowed k i c) (hd : 0 < d) (hk : k.vTaskDelay d = some k₁)
    (r : SparingRun i t (A + d) k₁ c A k' c' A') :
    t ∈ c' ∧ (k'.task A' t).status = if A + d ≤ A' then .ready else .blocked (A + d) := by
  have ht := h.inv.core.current_mem hcur
  obtain ⟨k₂, hk₂, -, htask⟩ := h.inv.call _ hcall
  have h₁ := h.step _ hcall hk₂
  obtain rfl := Option.some.inj (hk₂.symm.trans hk)
  have hblocked : k₂.task A t = ⟨.blocked (A + d), none, (k.task A t).priority⟩ :=
    (htask t ht).trans (if_pos ⟨hcur, hd⟩)
  obtain ⟨-, ht', -, hs⟩ := r.delayed h₁ ht (congrArg TaskState.status hblocked)
    (congrArg TaskState.event hblocked)
  exact ⟨ht', hs⟩

theorem delay_exact_one : ∃ k k₁ k', SchedReach k (some 1) {2, 1, 0} 0 ∧
    k.vTaskDelay 1 = some k₁ ∧ k₁.tickInterrupt = some k' ∧ (k'.task 1 0).status = .ready := by
  obtain ⟨k, hk, h⟩ := started_reached
  obtain ⟨hcur, hs, hready, -⟩ := started_runs hk
  have hcall : (SchedCall.vTaskDelay 1).Allowed k 1 {2, 1, 0} :=
    ⟨by decide, fun _ => ⟨⟨0, hcur, by decide, 3, hready⟩, hs⟩⟩
  obtain ⟨k₁, hk₁, -⟩ := h.inv.call _ hcall
  obtain ⟨hs₁, hp₁⟩ := started_delays hk hk₁
  have htick : SchedCall.tickInterrupt.Allowed k₁ 1 {2, 1, 0} := by
    show k₁.xPendedTicks + 1 < 2 ^ 32
    rw [hp₁]
    decide
  obtain ⟨k', hk', -⟩ := (h.step _ hcall hk₁).inv.call .tickInterrupt htick
  have hexact := (delay_exact h hcur hcall (by decide) hk₁ (SparingRun.refl.step (by decide)
    .tickInterrupt htick ⟨nofun, nofun⟩ hk')).2
  have hclock : SchedCall.tickInterrupt.clock k₁ 0 = 1 := if_pos hs₁
  rw [hclock] at hexact
  exact ⟨k, k₁, k', h, hk₁, hk', hexact⟩

end FreeRtos

end MelonSoc
