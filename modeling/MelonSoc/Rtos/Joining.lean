import MelonSoc.Rtos.Retiring

set_option autoImplicit false

/-! # Creating tasks

A new task is ready at once. Before the scheduler runs, the task of the highest priority that has
been created is the one that will run first; afterwards a new task of a higher priority than the
running one takes its place.
-/

namespace MelonSoc

namespace FreeRtos

open FreeRtos.Lists Kernel

variable {k k' : Kernel} {m m' : Lists TaskItem TaskList}
  {f : TaskList → Option (Wheel TaskItem)} {idle : Option Tcb} {i : Tcb} {c : Finset Tcb}
  {l : TaskList} {t : Tcb} {A b p v : Nat}

/-! ## The lists know the task -/

/-- What `prvInitialiseNewTask` makes of the lists. -/
def newItems (t : Tcb) (v : Nat) (m : Lists TaskItem TaskList) : Lists TaskItem TaskList :=
  listSetListItemValue (.xEventListItem t) v
    (Lists.vListInitialiseItem (.xEventListItem t)
      (Lists.vListInitialiseItem (.xStateListItem t) m))

theorem newItems_container (t : Tcb) (v : Nat) (m : Lists TaskItem TaskList) :
    (newItems t v m).pxContainer = Function.update (Function.update m.pxContainer
      (.xStateListItem t) none) (.xEventListItem t) none := rfl

theorem newItems_value (t : Tcb) (v : Nat) (m : Lists TaskItem TaskList) :
    (newItems t v m).xItemValue
      = Function.update m.xItemValue (.item (.xEventListItem t)) v := rfl

theorem newItems_wake {t' : Tcb} : (newItems t v m).xItemValue (.item (.xStateListItem t'))
    = m.xItemValue (.item (.xStateListItem t')) := by
  rw [newItems_value]
  exact Function.update_of_ne (fun he => by cases he) _ _

theorem known_insert :
    (fun j => j = TaskItem.xEventListItem t ∨ (j = .xStateListItem t ∨ known c j))
      = known (insert t c) := by
  funext j
  cases j with
  | xStateListItem t' => simp [known, TaskItem.pvOwner]
  | xEventListItem t' => simp [known, TaskItem.pvOwner]

theorem shows_newItems (s : Shows m f (known c)) (ht : t ∉ c) (hv : v < 2 ^ 32) :
    Shows (newItems t v m) f (known (insert t c)) := by
  have s₁ := s.initialiseItem (show ¬ known c (.xStateListItem t) from ht)
  have s₂ := s₁.initialiseItem (i := .xEventListItem t) (by
    rintro (he | hk)
    · cases he
    · exact ht hk)
  rw [known_insert] at s₂
  exact s₂.setValue hv

theorem listed_newItems (L : Listed m f c) (ht : t ∉ c) (hv : v < 2 ^ 32)
    (hroom : 2 * (c.card + 1) + 2 ≤ 2 ^ 32) : Listed (newItems t v m) f (insert t c) := by
  refine ⟨shows_newItems L.shown ht hv, L.init, fun l w hd hw => ?_, ?_⟩
  · refine (L.sorted l w hd hw).congr fun j hj => ?_
    have hne : j ≠ .xEventListItem t := by
      rintro rfl
      exact ht (L.shown.known l w hw _ hj)
    exact Function.update_of_ne (fun he => hne (ItemPtr.item.inj he)) _ _
  · rw [Finset.card_insert_of_notMem ht]
    exact hroom

/-! ## The kernel knows the task -/

/-- The task `t` of priority `p` is new, and ready. -/
structure Joined (k k' : Kernel) (t : Tcb) (p : Nat) (c : Finset Tcb) : Prop where
  rest : k' = { k with
    lists := k'.lists, uxPriority := Function.update k.uxPriority t p
    pxCurrentTCB := k'.pxCurrentTCB, uxCurrentNumberOfTasks := k.uxCurrentNumberOfTasks + 1
    uxTopReadyPriority := if p > k.uxTopReadyPriority then p else k.uxTopReadyPriority }
  listed : ∃ f, Listed k'.lists f (insert t c)
  state : k'.stateList t = some (.pxReadyTasksLists p)
  event : k'.eventList t = none
  others : ∀ t', t' ≠ t → k'.stateList t' = k.stateList t' ∧ k'.eventList t' = k.eventList t' ∧
    k'.wakeTime t' = k.wakeTime t'

theorem Joined.priority (j : Joined k k' t p c) {t' : Tcb} (hne : t' ≠ t) :
    k'.uxPriority t' = k.uxPriority t' := by
  rw [j.rest]
  exact Function.update_of_ne hne _ _

theorem Joined.priority_self (j : Joined k k' t p c) : k'.uxPriority t = p := by
  rw [j.rest]
  exact Function.update_self ..

theorem Joined.task (j : Joined k k' t p c) {t' : Tcb} (hne : t' ≠ t) :
    k'.task A t' = k.task A t' := by
  obtain ⟨h1, h2, h3⟩ := j.others t' hne
  unfold Kernel.task
  rw [Kernel.status_congr h1 h3 (by rw [j.rest]) (by rw [j.rest]), h2, j.priority hne]

theorem Joined.task_self (j : Joined k k' t p c) : k'.task A t = ⟨.ready, none, p⟩ := by
  unfold Kernel.task
  rw [Kernel.status_ready j.state, j.event, j.priority_self]

/-- `prvInitialiseNewTask` and `prvAddTaskToReadyList`, with any choice of the running task. -/
theorem joined_of_listed (L : Listed k.lists f c) (ht : t ∉ c) (hp : p < configMaxPriorities)
    (hroom : 2 * (c.card + 1) + 2 ≤ 2 ^ 32) (cur : Option Tcb) :
    Joined k (prvAddTaskToReadyList t { k with
      lists := newItems t (configMaxPriorities - p) k.lists
      uxPriority := Function.update k.uxPriority t p
      pxCurrentTCB := cur
      uxCurrentNumberOfTasks := k.uxCurrentNumberOfTasks + 1 }) t p c := by
  have hv : configMaxPriorities - p < 2 ^ 32 := by
    unfold configMaxPriorities
    omega
  have L₁ := listed_newItems L ht hv hroom
  have hself : Function.update k.uxPriority t p t = p := Function.update_self ..
  obtain ⟨f', hv', hc', L'⟩ := Listed.addReady (k := { k with
      lists := newItems t (configMaxPriorities - p) k.lists
      uxPriority := Function.update k.uxPriority t p
      pxCurrentTCB := cur
      uxCurrentNumberOfTasks := k.uxCurrentNumberOfTasks + 1 }) L₁ (Finset.mem_insert_self t c)
    (by show Function.update k.uxPriority t p t < _; rw [hself]; exact hp) (by
      show (newItems t _ k.lists).pxContainer _ = none
      rw [newItems_container, Function.update_of_ne (fun he => by cases he), Function.update_self])
  generalize hk' : prvAddTaskToReadyList t _ = k' at hv' hc' L'
  have hcont : k'.lists.pxContainer = Function.update (Function.update (Function.update
      k.lists.pxContainer (.xStateListItem t) none) (.xEventListItem t) none) (.xStateListItem t)
      (some (.pxReadyTasksLists p)) := by
    rw [hc', ← newItems_container t (configMaxPriorities - p)]
    exact congrArg (fun q => Function.update (newItems t _ k.lists).pxContainer (.xStateListItem t)
      (some (TaskList.pxReadyTasksLists q))) hself
  refine ⟨?_, ⟨f', L'⟩, ?_, ?_, fun t' hne => ⟨?_, ?_, ?_⟩⟩
  · rw [← hk']
    unfold Kernel.prvAddTaskToReadyList Kernel.listInsertEnd
    simp only [hself]
  · show k'.lists.pxContainer _ = _
    rw [hcont, Function.update_self]
  · show k'.lists.pxContainer _ = _
    rw [hcont, Function.update_of_ne (fun he => by cases he), Function.update_self]
  · show k'.lists.pxContainer _ = _
    rw [hcont, Function.update_of_ne (fun he => hne (by cases he; rfl)),
      Function.update_of_ne (fun he => by cases he),
      Function.update_of_ne (fun he => hne (by cases he; rfl))]
    rfl
  · show k'.lists.pxContainer _ = _
    rw [hcont, Function.update_of_ne (fun he => by cases he),
      Function.update_of_ne (fun he => hne (by cases he; rfl)),
      Function.update_of_ne (fun he => by cases he)]
    rfl
  · show k'.lists.xItemValue _ = _
    rw [hv']
    exact newItems_wake

theorem Core.join (C : Core k idle c b) (j : Joined k k' t p c) (ht : t ∉ c)
    (hp : p < configMaxPriorities) (hcur : ∃ t' ∈ insert t c, k'.pxCurrentTCB = some t') :
    Core k' idle (insert t c) b := by
  have htop : k'.uxTopReadyPriority
      = if p > k.uxTopReadyPriority then p else k.uxTopReadyPriority := by
    rw [j.rest]
  have hd : k'.pxDelayedTaskList = k.pxDelayedTaskList := by rw [j.rest]
  have ho : k'.pxOverflowDelayedTaskList = k.pxOverflowDelayedTaskList := by rw [j.rest]
  have hne : ∀ t' ∈ c, t' ≠ t := fun t' ht' he => ht (he ▸ ht')
  have hnd : ∀ l : TaskList, l.IsDelayed → k'.stateList t ≠ some l := by
    intro l hl he
    rw [j.state] at he
    obtain rfl := Option.some.inj he
    rcases hl with he | he <;> cases he
  refine ⟨j.listed, hcur, ?_, ?_, ?_, ?_, ?_, ?_, ?_, ?_, ?_, ?_, ?_⟩
  · intro t' ht'
    rcases Finset.mem_insert.mp ht' with rfl | ht'
    · exact ⟨_, j.state, hp⟩
    · rw [(j.others t' (hne t' ht')).1]
      exact C.placed t' ht'
  · intro t' ht' l hl
    rcases Finset.mem_insert.mp ht' with rfl | ht'
    · cases j.event.symm.trans hl
    · obtain ⟨h1, h2, -⟩ := j.others t' (hne t' ht')
      unfold Kernel.Blocked
      rw [h1]
      exact C.waits t' ht' l (h2.symm.trans hl)
  · intro t' ht'
    rcases Finset.mem_insert.mp ht' with rfl | ht'
    · rw [j.priority_self]
      exact hp
    · rw [j.priority (hne t' ht')]
      exact C.prio t' ht'
  · intro t' ht' q hq
    rw [htop]
    rcases Finset.mem_insert.mp ht' with rfl | ht'
    · obtain rfl := TaskList.pxReadyTasksLists.inj (Option.some.inj (j.state.symm.trans hq))
      rw [j.priority_self]
      refine ⟨rfl, ?_⟩
      split <;> omega
    · rw [j.priority (hne t' ht')]
      obtain ⟨h1, h2⟩ := C.ready t' ht' q ((j.others t' (hne t' ht')).1.symm.trans hq)
      refine ⟨h1, ?_⟩
      split <;> omega
  · have htop' := C.top
    rw [htop]
    split <;> omega
  · rw [hd, ho]
    exact C.delayed
  · rw [j.rest]
    exact C.ticks
  · intro t' ht' hl
    rcases Finset.mem_insert.mp ht' with rfl | ht'
    · rw [hd] at hl
      exact absurd hl (hnd _ C.isDelayed)
    · obtain ⟨h1, -, h3⟩ := j.others t' (hne t' ht')
      rw [h1, hd] at hl
      rw [h3, j.rest]
      exact C.later t' ht' hl
  · intro t' ht' hl
    rcases Finset.mem_insert.mp ht' with rfl | ht'
    · rw [ho] at hl
      exact absurd hl (hnd _ C.isDelayed_overflow)
    · obtain ⟨h1, -, h3⟩ := j.others t' (hne t' ht')
      rw [h1, ho] at hl
      rw [h3, j.rest]
      exact C.wrapped t' ht' hl
  · rw [Finset.card_insert_of_notMem ht, j.rest]
    show k.uxCurrentNumberOfTasks + 1 = _
    rw [C.count]
  · intro i hi
    obtain ⟨h1, h2, h3⟩ := C.idle_ready i hi
    rw [j.priority (hne i h1), (j.others i (hne i h1)).1]
    exact ⟨Finset.mem_insert_of_mem h1, h2, h3⟩

theorem Sound.join (S : Sound k idle c A) (j : Joined k k' t p c) (ht : t ∉ c)
    (hp : p < configMaxPriorities) (hcur : ∃ t' ∈ insert t c, k'.pxCurrentTCB = some t') :
    Sound k' idle (insert t c) A := by
  have hne : ∀ t' ∈ c, t' ≠ t := fun t' ht' he => ht (he ▸ ht')
  have htick : k'.xTickCount = k.xTickCount := by rw [j.rest]
  have hs : k'.uxSchedulerSuspended = k.uxSchedulerSuspended := by rw [j.rest]
  have hpend : k'.xPendedTicks = k.xPendedTicks := by rw [j.rest]
  refine ⟨by rw [htick]; exact S.core.join j ht hp hcur, htick.trans S.clock, fun h => ⟨?_, ?_⟩,
    by rw [hs, hpend]; exact S.small, by rw [j.rest]; exact S.running, ?_, fun h => ?_⟩
  · rw [hpend]
    exact (S.caught (hs.symm.trans h)).1
  · intro t' ht' he
    rcases Finset.mem_insert.mp ht' with rfl | ht'
    · cases j.event.symm.trans he
    · exact (S.caught (hs.symm.trans h)).2 t' ht' ((j.others t' (hne t' ht')).2.1.symm.trans he)
  · have hgone : gone (insert t c) k' = gone c k := by
      unfold gone
      rw [Finset.filter_insert, if_neg (by rw [j.state]; exact fun he => by cases he)]
      exact Finset.filter_congr fun t' ht' => by rw [(j.others t' (hne t' ht')).1]
    rw [hgone, ← S.cleanUp, j.rest]
  · obtain ⟨h1, h2, h3⟩ := S.fresh h
    refine ⟨h1, hs.trans h2, fun t' ht' => ?_⟩
    rcases Finset.mem_insert.mp ht' with rfl | ht'
    · exact ⟨p, j.state⟩
    · rw [(j.others t' (hne t' ht')).1]
      exact h3 t' ht'

/-- **`xTaskCreate`** makes a task that is ready, and leaves the others as they are. -/
theorem Inv.create (I : Inv k idle c A) (ht : t ∉ c) (hp : p < configMaxPriorities)
    (hroom : 2 * (c.card + 1) + 2 ≤ 2 ^ 32) :
    ∃ k', k.xTaskCreate t p = some k' ∧ Inv k' idle (insert t c) A ∧
      k'.task A t = ⟨.ready, none, p⟩ ∧ ∀ t' ∈ c, k'.task A t' = k.task A t' := by
  have hne : ∀ t' ∈ c, t' ≠ t := fun t' ht' he => ht (he ▸ ht')
  obtain ⟨f, L⟩ := I.core.listed
  obtain ⟨r, hr, hcur⟩ := I.core.current
  have hrt := hne r hr
  have hcount : add32 k.uxCurrentNumberOfTasks 1 = k.uxCurrentNumberOfTasks + 1 := by
    rw [I.core.count]
    exact Nat.mod_eq_of_lt (by omega)
  have hprio : Function.update k.uxPriority t p r = k.uxPriority r := Function.update_of_ne hrt _ _
  have hself : Function.update k.uxPriority t p t = p := Function.update_self ..
  have hassert : configAssert (decide (p < configMaxPriorities)) = some () :=
    if_pos (decide_eq_true hp)
  generalize hcur' : (if k.xSchedulerRunning = false ∧ k.uxPriority r ≤ p then some t else some r)
    = cur
  have j := joined_of_listed L ht hp hroom cur
  generalize hk₁ : prvAddTaskToReadyList t { k with
      lists := newItems t (configMaxPriorities - p) k.lists
      uxPriority := Function.update k.uxPriority t p
      pxCurrentTCB := cur
      uxCurrentNumberOfTasks := k.uxCurrentNumberOfTasks + 1 } = k₁ at j
  have hrun₁ : k₁.xSchedulerRunning = k.xSchedulerRunning := by rw [j.rest]
  have hcur₁ : k₁.pxCurrentTCB = cur := by
    rw [← hk₁]
    rfl
  have hcall : k.xTaskCreate t p
      = if k₁.xSchedulerRunning then k₁.yieldIfHigher t else some k₁ := by
    unfold Kernel.xTaskCreate Kernel.prvInitialiseNewTask Kernel.prvAddNewTaskToReadyList
    simp only [hassert, Option.bind_eq_bind, Option.bind_some, hcount, hcur, hprio, hself,
      Bool.not_eq_eq_eq_not, Bool.not_true]
    by_cases h : k.xSchedulerRunning = false ∧ k.uxPriority r ≤ p
    · rw [if_pos h] at hcur'
      subst hcur'
      rw [if_pos h, ← hk₁]
      rfl
    · rw [if_neg h] at hcur'
      subst hcur'
      rw [if_neg h, ← hk₁]
      rfl
  have hchosen : cur = some t ∧ k.uxPriority r ≤ p ∧ k.xSchedulerRunning = false ∨
      cur = some r ∧ (k.xSchedulerRunning = false → p < k.uxPriority r) := by
    rw [← hcur']
    by_cases h : k.xSchedulerRunning = false ∧ k.uxPriority r ≤ p
    · exact .inl ⟨if_pos h, h.2, h.1⟩
    · exact .inr ⟨if_neg h, fun hr' => Nat.lt_of_not_le fun hle => h ⟨hr', hle⟩⟩
  have hmem : ∃ t' ∈ insert t c, k₁.pxCurrentTCB = some t' := by
    rw [hcur₁]
    rcases hchosen with ⟨h, -⟩ | ⟨h, -⟩
    · exact ⟨t, Finset.mem_insert_self t c, h⟩
    · exact ⟨r, Finset.mem_insert_of_mem hr, h⟩
  have S₁ := I.toSound.join j ht hp hmem
  have halive : ∀ t', k₁.pxCurrentTCB = some t' →
      k₁.stateList t' ≠ some .xTasksWaitingTermination := by
    intro t' ht'
    rw [hcur₁] at ht'
    rcases hchosen with ⟨h, -⟩ | ⟨h, -⟩
    · obtain rfl := Option.some.inj (h.symm.trans ht')
      rw [j.state]
      exact fun he => by cases he
    · obtain rfl := Option.some.inj (h.symm.trans ht')
      rw [(j.others r hrt).1]
      exact I.alive r hcur
  have hold : k₁.xYieldPending = false → ∀ t' ∈ insert t c, t' ≠ t → ∀ q,
      k₁.stateList t' = some (.pxReadyTasksLists q) → q ≤ k.uxPriority r := by
    intro hy t' ht' hne' q hq
    have hy' : k.xYieldPending = false := by
      rw [j.rest] at hy
      exact hy
    refine I.settled hy' t' ((Finset.mem_insert.mp ht').resolve_left hne') q
      ((j.others t' hne').1.symm.trans hq) _ ?_
    unfold Kernel.currentPriority
    rw [hcur]
    rfl
  have hcurp : k₁.currentPriority = some (if cur = some t then p else k.uxPriority r) := by
    unfold Kernel.currentPriority
    rw [hcur₁]
    rcases hchosen with ⟨h, -⟩ | ⟨h, -⟩
    · rw [h, if_pos rfl]
      exact congrArg some j.priority_self
    · rw [h, if_neg fun he => hrt (Option.some.inj he)]
      exact congrArg some (j.priority hrt)
  have hothers : k₁.xYieldPending = false → ∀ t' ∈ insert t c, t' ≠ t → ∀ q,
      k₁.stateList t' = some (.pxReadyTasksLists q) → ∀ u, k₁.currentPriority = some u → q ≤ u := by
    intro hy t' ht' hne' q hq u hu
    have hle := hold hy t' ht' hne' q hq
    rw [hcurp] at hu
    obtain rfl := Option.some.inj hu
    rcases hchosen with ⟨h, h', -⟩ | ⟨h, -⟩
    · rw [if_pos h]
      omega
    · rw [if_neg fun he => hrt (Option.some.inj (h.symm.trans he))]
      exact hle
  rw [hcall, hrun₁]
  cases hidle : idle with
  | none =>
      have hrun : k.xSchedulerRunning = false := by rw [I.running, hidle]; rfl
      rw [hrun, if_neg (by simp)]
      rw [hidle] at S₁
      refine ⟨k₁, rfl, ⟨S₁, halive, fun hy t' ht' q hq u hu => ?_⟩, j.task_self,
        fun t' ht' => j.task (hne t' ht')⟩
      by_cases he : t' = t
      · rw [he] at hq
        obtain rfl := TaskList.pxReadyTasksLists.inj (Option.some.inj (j.state.symm.trans hq))
        rw [hcurp] at hu
        obtain rfl := Option.some.inj hu
        rcases hchosen with ⟨h, -⟩ | ⟨h, h'⟩
        · rw [if_pos h]
        · rw [if_neg fun he => hrt (Option.some.inj (h.symm.trans he))]
          exact Nat.le_of_lt (h' hrun)
      · exact hothers hy t' ht' he q hq u hu
  | some i =>
      have hrun : k.xSchedulerRunning = true := by rw [I.running, hidle]; rfl
      rw [hrun, if_pos rfl]
      rw [hidle] at S₁
      obtain ⟨k', hk', I', u, hprio'⟩ := S₁.yieldIfHigher halive hothers
        (Finset.mem_insert_self t c)
      exact ⟨k', hk', I', (u.task hprio' t).trans j.task_self,
        fun t' ht' => (u.task hprio' t').trans (j.task (hne t' ht'))⟩

/-! ## The start -/

/-- **`vTaskStartScheduler`** creates the idle task and the timer task, and starts the clock. -/
theorem Inv.start (I : Inv k none c A) (hi : i ∉ c) (ht : t ∉ insert i c)
    (hroom : 2 * (c.card + 2) + 2 ≤ 2 ^ 32) :
    ∃ k', k.vTaskStartScheduler i t = some k' ∧ Inv k' (some i) (insert t (insert i c)) 0 ∧
      k'.task 0 i = ⟨.ready, none, 0⟩ ∧ k'.task 0 t = ⟨.ready, none, configTimerTaskPriority⟩ ∧
      ∀ t' ∈ c, k'.task 0 t' = k.task 0 t' := by
  obtain ⟨hA, -, -⟩ := I.fresh rfl
  subst hA
  obtain ⟨k₁, hk₁, I₁, htask₁, hothers₁⟩ := I.create (t := i) (p := 0) hi (by decide) (by omega)
  obtain ⟨k₂, hk₂, I₂, htask₂, hothers₂⟩ := I₁.create (t := t) (p := configTimerTaskPriority) ht
    (by decide) (by rw [Finset.card_insert_of_notMem hi]; omega)
  have C := I₂.core
  obtain ⟨-, hs, hready⟩ := I₂.fresh rfl
  have htick : k₂.xTickCount = 0 := I₂.clock
  have hidle := hothers₂ i (Finset.mem_insert_self i c)
  rw [htask₁] at hidle
  have hmem : i ∈ insert t (insert i c) := Finset.mem_insert_of_mem (Finset.mem_insert_self i c)
  have hprio : k₂.uxPriority i = 0 := congrArg TaskState.priority hidle
  have hlist : k₂.stateList i = some (.pxReadyTasksLists 0) := by
    obtain ⟨q, hq⟩ := Kernel.ready_of_status (congrArg TaskState.status hidle)
    rw [(C.ready i hmem q hq).1, hprio] at hq
    exact hq
  have hnd : ∀ t' ∈ insert t (insert i c), ∀ l : TaskList, l.IsDelayed →
      k₂.stateList t' ≠ some l := by
    intro t' ht' l hl he
    obtain ⟨q, hq⟩ := hready t' ht'
    obtain rfl := Option.some.inj (hq.symm.trans he)
    rcases hl with he | he <;> cases he
  have C' : Core { k₂ with
      xNextTaskUnblockTime := portMaxDelay, xSchedulerRunning := true, xTickCount := 0 } (some i)
      (insert t (insert i c)) 1 := by
    refine ⟨C.listed, C.current, C.placed, C.waits, C.prio, C.ready, C.top, C.delayed,
      Nat.two_pow_pos 32, fun t' ht' hl => absurd hl (hnd t' ht' _ C.isDelayed),
      fun t' ht' hl => absurd hl (hnd t' ht' _ C.isDelayed_overflow), C.count, fun i' hi' => ?_⟩
    obtain rfl := Option.some.inj hi'
    exact ⟨hmem, hprio, hlist⟩
  refine ⟨_, ?_, ⟨⟨C', rfl, I₂.caught, I₂.small, rfl, I₂.cleanUp, fun h => by cases h⟩, I₂.alive,
    I₂.settled⟩, hidle, htask₂, fun t' ht' => ?_⟩
  · unfold Kernel.vTaskStartScheduler
    rw [hk₁]
    simp only [Option.bind_eq_bind, Option.bind_some, hk₂]
  · exact (hothers₂ t' (Finset.mem_insert_of_mem ht')).trans (hothers₁ t' ht')

/-! ## The first task -/

/-- The variables of `tasks.c` after a reset. -/
def Kernel.reset (m : Lists TaskItem TaskList) : Kernel where
  lists := m
  uxPriority _ := 0
  pxCurrentTCB := none
  pxDelayedTaskList := .xDelayedTaskList1
  pxOverflowDelayedTaskList := .xDelayedTaskList2
  uxDeletedTasksWaitingCleanUp := 0
  uxCurrentNumberOfTasks := 0
  xTickCount := 0
  uxTopReadyPriority := 0
  xSchedulerRunning := false
  xPendedTicks := 0
  xYieldPending := false
  xNumOfOverflows := 0
  xNextTaskUnblockTime := 0
  uxSchedulerSuspended := 0

/-- The lists on which tasks wait for an event are there, and empty. -/
def eventWheels : TaskList → Option (Wheel TaskItem)
  | .pxEventList _ => some .empty
  | _ => none

/-- The lists of `prvInitialiseTaskLists`. -/
def kernelLists : List TaskList :=
  [.pxReadyTasksLists 0, .pxReadyTasksLists 1, .pxReadyTasksLists 2, .pxReadyTasksLists 3,
    .xDelayedTaskList1, .xDelayedTaskList2, .xPendingReadyList, .xTasksWaitingTermination,
    .xSuspendedTaskList]

theorem Shows.initialiseAll {g : TaskItem → Prop} (s : Shows m f g) (ls : List TaskList)
    (hls : ls.Nodup) (hf : ∀ l ∈ ls, f l = none) :
    Shows (ls.foldl (fun m l => Lists.vListInitialise l m) m)
      (fun l => if l ∈ ls then some .empty else f l) g := by
  induction ls generalizing m f with
  | nil => simpa using s
  | cons l₀ ls ih =>
      obtain ⟨hl₀, hls'⟩ := List.nodup_cons.mp hls
      have hrest := ih (s.initialise (hf l₀ List.mem_cons_self)) hls' fun l hl => by
        have hne : l ≠ l₀ := fun he => hl₀ (he ▸ hl)
        rw [Function.update_of_ne hne]
        exact hf l (List.mem_cons_of_mem l₀ hl)
      have hfun : (fun l => if l ∈ l₀ :: ls then some Wheel.empty else f l)
          = fun l => if l ∈ ls then some .empty else Function.update f l₀ (some .empty) l := by
        funext l
        by_cases he : l = l₀
        · rw [he, if_pos List.mem_cons_self, if_neg hl₀, Function.update_self]
        · by_cases hl : l ∈ ls
          · rw [if_pos (List.mem_cons_of_mem l₀ hl), if_pos hl]
          · rw [if_neg (fun h => (List.mem_cons.mp h).elim he hl), if_neg hl,
              Function.update_of_ne he]
      rw [hfun]
      exact hrest

theorem lists_initialised (s : Shows m eventWheels (known c)) (hroom : 2 * c.card + 2 ≤ 2 ^ 32) :
    Listed (kernelLists.foldl (fun m l => Lists.vListInitialise l m) m)
      (fun l => if l ∈ kernelLists then some .empty else eventWheels l) c := by
  have hempty : ∀ {l : TaskList} {w : Wheel TaskItem},
      (if l ∈ kernelLists then some Wheel.empty else eventWheels l) = some w → w = .empty := by
    intro l w hw
    split at hw
    · exact (Option.some.inj hw).symm
    · cases l <;> cases hw
      rfl
  refine ⟨s.initialiseAll kernelLists (by decide) ?_, ?_, fun l w _ hw => ?_, hroom⟩
  · intro l hl
    cases l with
    | pxEventList e => simp [kernelLists] at hl
    | _ => rfl
  · intro l hl
    refine ⟨.empty, ?_⟩
    split
    · rfl
    · rename_i hno
      cases l with
      | pxReadyTasksLists p =>
          have hp : p < 4 := hl
          refine absurd ?_ hno
          match p, hp with
          | 0, _ => decide
          | 1, _ => decide
          | 2, _ => decide
          | 3, _ => decide
      | pxEventList e => rfl
      | _ => simp [kernelLists] at hno
  · rw [hempty hw]
    exact List.Pairwise.nil

/-- A kernel with one task that is ready. -/
theorem Inv.single (hrest : k' = { Kernel.reset m with
      lists := k'.lists, uxPriority := k'.uxPriority, pxCurrentTCB := some t
      uxCurrentNumberOfTasks := 1, uxTopReadyPriority := k'.uxTopReadyPriority })
    (L : ∃ f, Listed k'.lists f {t}) (hstate : k'.stateList t = some (.pxReadyTasksLists p))
    (hevent : k'.eventList t = none) (hprio : k'.uxPriority t = p)
    (htop : k'.uxTopReadyPriority = p) (hp : p < configMaxPriorities) : Inv k' none {t} 0 := by
  have hcur : k'.pxCurrentTCB = some t := by rw [hrest]
  have hd : k'.pxDelayedTaskList = .xDelayedTaskList1 := by rw [hrest]; rfl
  have ho : k'.pxOverflowDelayedTaskList = .xDelayedTaskList2 := by rw [hrest]; rfl
  have htick : k'.xTickCount = 0 := by rw [hrest]; rfl
  have honly : ∀ t' ∈ ({t} : Finset Tcb), ∀ l, k'.stateList t' = some l →
      l = .pxReadyTasksLists p := by
    intro t' ht' l hl
    obtain rfl := Finset.mem_singleton.mp ht'
    exact (Option.some.inj (hstate.symm.trans hl)).symm
  have hno : ∀ t' ∈ ({t} : Finset Tcb), k'.eventList t' = none := by
    intro t' ht'
    obtain rfl := Finset.mem_singleton.mp ht'
    exact hevent
  have hq : ∀ t' ∈ ({t} : Finset Tcb), ∀ q, k'.stateList t' = some (.pxReadyTasksLists q) →
      q = p := fun t' ht' q hq => TaskList.pxReadyTasksLists.inj (honly t' ht' _ hq)
  have hmem : ∀ t' ∈ ({t} : Finset Tcb), t' = t := fun t' ht' => Finset.mem_singleton.mp ht'
  have C : Core k' none {t} (k'.xTickCount + 1) := by
    refine ⟨L, ⟨t, Finset.mem_singleton_self t, hcur⟩, fun t' ht' => ?_, fun t' ht' l hl => ?_,
      fun t' ht' => ?_, fun t' ht' q h => ?_, by rw [htop]; exact hp, .inl ⟨hd, ho⟩, ?_,
      fun t' ht' hl => ?_, fun t' ht' hl => ?_, ?_, fun i hi => by cases hi⟩
    · rw [hmem t' ht']
      exact ⟨_, hstate, hp⟩
    · cases (hno t' ht').symm.trans hl
    · rw [hmem t' ht', hprio]
      exact hp
    · rw [hmem t' ht', hq t' ht' q h, hprio, htop]
      exact ⟨rfl, Nat.le_refl p⟩
    · rw [htick]
      decide
    · rw [hd] at hl
      cases honly t' ht' _ hl
    · rw [ho] at hl
      cases honly t' ht' _ hl
    · rw [hrest, Finset.card_singleton]
  refine ⟨⟨C, htick, fun _ => ⟨by rw [hrest]; rfl, fun t' ht' he => ?_⟩, ?_, by rw [hrest]; rfl, ?_,
    fun _ => ⟨rfl, by rw [hrest]; rfl, fun t' ht' => ⟨p, ?_⟩⟩⟩, fun t' ht' he => ?_,
    fun _ t' ht' q h q' hq' => ?_⟩
  · cases (hno t' ht').symm.trans he
  · rw [hrest]
    exact ⟨Nat.two_pow_pos 32, Nat.two_pow_pos 32⟩
  · have hgone : gone {t} k' = ∅ := Finset.filter_eq_empty_iff.mpr fun t' ht' he => by
      cases honly t' ht' _ he
    rw [hgone, hrest]
    rfl
  · rw [hmem t' ht']
    exact hstate
  · obtain rfl := Option.some.inj (hcur.symm.trans ht')
    cases hstate.symm.trans he
  · unfold Kernel.currentPriority at hq'
    rw [hcur] at hq'
    obtain rfl := Option.some.inj hq'
    rw [hq t' ht' q h, hprio]

/-- **The first task** runs, on lists that have just been initialised. -/
theorem Inv.first (s : Shows m eventWheels (known ∅)) (hp : p < configMaxPriorities) :
    ∃ k', (Kernel.reset m).xTaskCreate t p = some k' ∧ Inv k' none {t} 0 ∧
      k'.task 0 t = ⟨.ready, none, p⟩ := by
  have hv : configMaxPriorities - p < 2 ^ 32 := by
    unfold configMaxPriorities
    omega
  have hassert : configAssert (decide (p < configMaxPriorities)) = some () :=
    if_pos (decide_eq_true hp)
  have hself : Function.update (Kernel.reset m).uxPriority t p t = p := Function.update_self ..
  have s₁ := shows_newItems (v := configMaxPriorities - p) s (Finset.notMem_empty t) hv
  have L := lists_initialised s₁ (by simp)
  generalize hm₁ : kernelLists.foldl (fun m l => Lists.vListInitialise l m)
    (newItems t (configMaxPriorities - p) m) = m₁ at L
  have hnone : ∀ i : TaskItem, i.pvOwner = t → m₁.pxContainer i = none := by
    intro i hi
    rw [← hm₁]
    show (newItems t (configMaxPriorities - p) m).pxContainer i = none
    rw [newItems_container]
    cases i with
    | xStateListItem t' =>
        obtain rfl : t' = t := hi
        rw [Function.update_of_ne (fun he => by cases he), Function.update_self]
    | xEventListItem t' =>
        obtain rfl : t' = t := hi
        rw [Function.update_self]
  generalize hk₁ : ({ Kernel.reset m with
      lists := m₁, uxPriority := Function.update (Kernel.reset m).uxPriority t p
      pxCurrentTCB := some t, uxCurrentNumberOfTasks := 1 } : Kernel) = k₁
  have hprio : k₁.uxPriority t = p := by
    rw [← hk₁]
    exact hself
  have hlists : k₁.lists = m₁ := by rw [← hk₁]
  obtain ⟨f', hv', hc', L'⟩ := Listed.addReady (k := k₁) (by rw [hlists]; exact L)
    (Finset.mem_insert_self t ∅) (by rw [hprio]; exact hp) (by
      show k₁.lists.pxContainer _ = none
      rw [hlists]
      exact hnone _ rfl)
  have hcall : (Kernel.reset m).xTaskCreate t p = some (prvAddTaskToReadyList t k₁) := by
    unfold Kernel.xTaskCreate Kernel.prvInitialiseNewTask Kernel.prvAddNewTaskToReadyList
    simp only [hassert, Option.bind_eq_bind, Option.bind_some]
    rw [← hk₁, ← hm₁]
    rfl
  have hstate : (prvAddTaskToReadyList t k₁).stateList t = some (.pxReadyTasksLists p) := by
    show (prvAddTaskToReadyList t k₁).lists.pxContainer _ = _
    rw [hc', Function.update_self, hprio]
  have hevent : (prvAddTaskToReadyList t k₁).eventList t = none := by
    show (prvAddTaskToReadyList t k₁).lists.pxContainer _ = _
    rw [hc', Function.update_of_ne (fun he => by cases he), hlists]
    exact hnone _ rfl
  have hrest : prvAddTaskToReadyList t k₁ = { Kernel.reset m with
      lists := (prvAddTaskToReadyList t k₁).lists
      uxPriority := (prvAddTaskToReadyList t k₁).uxPriority
      pxCurrentTCB := some t, uxCurrentNumberOfTasks := 1
      uxTopReadyPriority := (prvAddTaskToReadyList t k₁).uxTopReadyPriority } := by
    rw [← hk₁]
    rfl
  have hprio' : (prvAddTaskToReadyList t k₁).uxPriority t = p := hprio
  have htop : (prvAddTaskToReadyList t k₁).uxTopReadyPriority = p := by
    show (if k₁.uxPriority t > k₁.uxTopReadyPriority then k₁.uxPriority t
      else k₁.uxTopReadyPriority) = p
    rw [hprio, show k₁.uxTopReadyPriority = 0 by rw [← hk₁]; rfl]
    split <;> omega
  refine ⟨_, hcall, ?_, ?_⟩
  · generalize prvAddTaskToReadyList t k₁ = k' at *
    exact Inv.single hrest ⟨f', L'⟩ hstate hevent hprio' htop hp
  · unfold Kernel.task
    rw [Kernel.status_ready hstate, hevent, hprio']

end FreeRtos

end MelonSoc
