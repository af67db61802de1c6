import MelonSoc.Rtos.TaskLists

set_option autoImplicit false

/-! # The invariant of the scheduler

Every task that exists is in exactly one of the lists that say how it stands: ready, delayed,
suspended or deleted. `Core` says what each of these lists promises; it holds in every state, also
in those that `xTaskResumeAll` passes. A call moves one task after the other from one list to
another, and a move keeps the rest (`Core.move`).
-/

namespace MelonSoc

namespace FreeRtos

namespace Kernel

/-- The list that says how the task stands. -/
def stateList (t : Tcb) (k : Kernel) : Option TaskList := k.container (.xStateListItem t)

/-- The list on which the task waits for an event. -/
def eventList (t : Tcb) (k : Kernel) : Option TaskList := k.container (.xEventListItem t)

/-- The tick at which the task wakes, if it is delayed. -/
def wakeTime (t : Tcb) (k : Kernel) : Nat := k.lists.xItemValue (.item (.xStateListItem t))

/-- The task waits for a tick, for an event or to be resumed. -/
def Blocked (t : Tcb) (k : Kernel) : Prop :=
  k.stateList t = some .xDelayedTaskList1 ∨ k.stateList t = some .xDelayedTaskList2 ∨
    k.stateList t = some .xSuspendedTaskList

end Kernel

open Kernel

/-- The lists of state list items. -/
def TaskList.IsState : TaskList → Prop
  | .xPendingReadyList => False
  | .pxEventList _ => False
  | l => l.IsKernel

/-- The lists of event list items. -/
def TaskList.IsEvent (l : TaskList) : Prop := l = .xPendingReadyList ∨ ∃ e, l = .pxEventList e

/-- What holds of the tasks `c` in every state, where `idle` is the idle task once there is one, and
no task that is delayed wakes before the tick `b`. -/
structure Core (k : Kernel) (idle : Option Tcb) (c : Finset Tcb) (b : Nat) : Prop where
  listed : ∃ f, Listed k.lists f c
  current : ∃ t ∈ c, k.pxCurrentTCB = some t
  placed : ∀ t ∈ c, ∃ l, k.stateList t = some l ∧ l.IsState
  waits : ∀ t ∈ c, ∀ l, k.eventList t = some l → l.IsEvent ∧ k.Blocked t
  prio : ∀ t ∈ c, k.uxPriority t < configMaxPriorities
  ready : ∀ t ∈ c, ∀ p, k.stateList t = some (.pxReadyTasksLists p) →
    p = k.uxPriority t ∧ p ≤ k.uxTopReadyPriority
  top : k.uxTopReadyPriority < configMaxPriorities
  delayed : (k.pxDelayedTaskList = .xDelayedTaskList1 ∧
      k.pxOverflowDelayedTaskList = .xDelayedTaskList2) ∨
    (k.pxDelayedTaskList = .xDelayedTaskList2 ∧ k.pxOverflowDelayedTaskList = .xDelayedTaskList1)
  ticks : k.xTickCount < 2 ^ 32
  later : ∀ t ∈ c, k.stateList t = some k.pxDelayedTaskList →
    b ≤ k.wakeTime t ∧ k.xNextTaskUnblockTime ≤ k.wakeTime t
  wrapped : ∀ t ∈ c, k.stateList t = some k.pxOverflowDelayedTaskList →
    k.wakeTime t < k.xTickCount
  count : k.uxCurrentNumberOfTasks = c.card
  idle_ready : ∀ i, idle = some i →
    i ∈ c ∧ k.uxPriority i = 0 ∧ k.stateList i = some (.pxReadyTasksLists 0)

variable {k k' : Kernel} {m m' : Lists TaskItem TaskList}
  {f f' : TaskList → Option (Wheel TaskItem)} {idle : Option Tcb} {c : Finset Tcb} {l : TaskList} {t : Tcb} {b : Nat}

theorem Core.isDelayed (C : Core k idle c b) : k.pxDelayedTaskList.IsDelayed := by
  rcases C.delayed with ⟨h, -⟩ | ⟨h, -⟩
  · exact .inl h
  · exact .inr h

theorem Core.isDelayed_overflow (C : Core k idle c b) : k.pxOverflowDelayedTaskList.IsDelayed := by
  rcases C.delayed with ⟨-, h⟩ | ⟨-, h⟩
  · exact .inr h
  · exact .inl h

theorem Core.lists_ne (C : Core k idle c b) :
    k.pxDelayedTaskList ≠ k.pxOverflowDelayedTaskList := by
  rcases C.delayed with ⟨h, h'⟩ | ⟨h, h'⟩
  · rw [h, h']
    exact fun he => by cases he
  · rw [h, h']
    exact fun he => by cases he

theorem TaskList.IsDelayed.isKernel (h : l.IsDelayed) : l.IsKernel := by
  rcases h with rfl | rfl
  · trivial
  · trivial

theorem TaskList.IsDelayed.isState (h : l.IsDelayed) : l.IsState := by
  rcases h with rfl | rfl
  · trivial
  · trivial

theorem TaskList.IsState.isKernel (h : l.IsState) : l.IsKernel := by
  cases l with
  | xPendingReadyList => exact h.elim
  | pxReadyTasksLists p => exact h
  | pxEventList e => exact h.elim
  | xDelayedTaskList1 => trivial
  | xDelayedTaskList2 => trivial
  | xTasksWaitingTermination => trivial
  | xSuspendedTaskList => trivial

theorem blocked_of_delayed (h : l.IsDelayed) (hl : k.stateList t = some l) : k.Blocked t := by
  rcases h with rfl | rfl
  · exact .inl hl
  · exact .inr (.inl hl)

theorem Kernel.Blocked.not_ready (h : k.Blocked t) (p : Nat) :
    k.stateList t ≠ some (.pxReadyTasksLists p) := by
  intro hp
  unfold Kernel.Blocked at h
  rw [hp] at h
  rcases h with he | he | he <;> cases he

theorem Kernel.Blocked.not_deleted (h : k.Blocked t) :
    k.stateList t ≠ some .xTasksWaitingTermination := by
  intro hp
  unfold Kernel.Blocked at h
  rw [hp] at h
  rcases h with he | he | he <;> cases he

/-- A task that is ready waits for nothing. -/
theorem Core.event_of_ready {p : Nat} (C : Core k idle c b) (ht : t ∈ c)
    (hp : k.stateList t = some (.pxReadyTasksLists p)) : k.eventList t = none := by
  cases he : k.eventList t with
  | none => rfl
  | some l => exact absurd hp ((C.waits t ht l he).2.not_ready p)

/-! ## A move -/

/-- One task moves to the list `l`; all others stay where they are. -/
theorem Core.move (C : Core k idle c b) (L : Listed k'.lists f' c)
    (hk : k' = { k with
      lists := k'.lists, uxTopReadyPriority := k'.uxTopReadyPriority
      xNextTaskUnblockTime := k'.xNextTaskUnblockTime, xYieldPending := k'.xYieldPending })
    (hothers : ∀ t', t' ≠ t → k'.stateList t' = k.stateList t' ∧ k'.eventList t' = k.eventList t' ∧
      k'.wakeTime t' = k.wakeTime t')
    (hstate : k'.stateList t = some l) (hl : l.IsState)
    (hevent : ∀ l', k'.eventList t = some l' → l'.IsEvent ∧ k'.Blocked t)
    (hready : ∀ p, l = .pxReadyTasksLists p → p = k.uxPriority t ∧ p ≤ k'.uxTopReadyPriority)
    (htop : k.uxTopReadyPriority ≤ k'.uxTopReadyPriority ∧
      k'.uxTopReadyPriority < configMaxPriorities)
    (hlater : l = k.pxDelayedTaskList → b ≤ k'.wakeTime t ∧
      k'.xNextTaskUnblockTime ≤ k'.wakeTime t)
    (hwrapped : l = k.pxOverflowDelayedTaskList → k'.wakeTime t < k.xTickCount)
    (hnext : ∀ t' ∈ c, t' ≠ t → k.stateList t' = some k.pxDelayedTaskList →
      k'.xNextTaskUnblockTime ≤ k.wakeTime t')
    (hidle : idle = some t → l = .pxReadyTasksLists 0) : Core k' idle c b := by
  have hprio : k'.uxPriority = k.uxPriority := by rw [hk]
  have hcurrent : k'.pxCurrentTCB = k.pxCurrentTCB := by rw [hk]
  have hdelayed : k'.pxDelayedTaskList = k.pxDelayedTaskList := by rw [hk]
  have hoverflow : k'.pxOverflowDelayedTaskList = k.pxOverflowDelayedTaskList := by rw [hk]
  have hticks : k'.xTickCount = k.xTickCount := by rw [hk]
  have hcount : k'.uxCurrentNumberOfTasks = k.uxCurrentNumberOfTasks := by rw [hk]
  have hblocked : ∀ t', t' ≠ t → k.Blocked t' → k'.Blocked t' := by
    intro t' hne hb
    unfold Kernel.Blocked
    rw [(hothers t' hne).1]
    exact hb
  refine ⟨⟨f', L⟩, ?_, ?_, ?_, ?_, ?_, htop.2, ?_, ?_, ?_, ?_, ?_, ?_⟩
  · rw [hcurrent]
    exact C.current
  · intro t' ht'
    by_cases he : t' = t
    · exact ⟨l, by rw [he, hstate], hl⟩
    · rw [(hothers t' he).1]
      exact C.placed t' ht'
  · intro t' ht' l' hl'
    by_cases he : t' = t
    · rw [he] at hl' ⊢
      exact hevent l' hl'
    · rw [(hothers t' he).2.1] at hl'
      have hw := C.waits t' ht' l' hl'
      exact ⟨hw.1, hblocked t' he hw.2⟩
  · rw [hprio]
    exact C.prio
  · intro t' ht' p hp
    rw [hprio]
    by_cases he : t' = t
    · rw [he, hstate] at hp
      rw [he]
      exact hready p (Option.some.inj hp)
    · rw [(hothers t' he).1] at hp
      have hr := C.ready t' ht' p hp
      exact ⟨hr.1, Nat.le_trans hr.2 htop.1⟩
  · rw [hdelayed, hoverflow]
    exact C.delayed
  · rw [hticks]
    exact C.ticks
  · intro t' ht' hd
    rw [hdelayed] at hd
    by_cases he : t' = t
    · rw [he, hstate] at hd
      rw [he]
      exact hlater (Option.some.inj hd)
    · obtain ⟨h1, -, h3⟩ := hothers t' he
      rw [h1] at hd
      rw [h3]
      exact ⟨(C.later t' ht' hd).1, hnext t' ht' he hd⟩
  · intro t' ht' hd
    rw [hoverflow] at hd
    rw [hticks]
    by_cases he : t' = t
    · rw [he, hstate] at hd
      rw [he]
      exact hwrapped (Option.some.inj hd)
    · obtain ⟨h1, -, h3⟩ := hothers t' he
      rw [h1] at hd
      rw [h3]
      exact C.wrapped t' ht' hd
  · rw [hcount]
    exact C.count
  · intro i hi
    obtain ⟨hic, hi0, his⟩ := C.idle_ready i hi
    refine ⟨hic, by rw [hprio, hi0], ?_⟩
    by_cases he : i = t
    · rw [he, hstate, hidle (by rw [hi, he])]
    · rw [(hothers i he).1, his]

/-! ## What the calls of `list.c` do to the kernel -/

/-- Where the items are after a task has been made ready. -/
def readied (C : TaskItem → Option TaskList) (t : Tcb) (p : Nat) : TaskItem → Option TaskList :=
  Function.update (Function.update C (.xEventListItem t) none) (.xStateListItem t)
    (some (.pxReadyTasksLists p))

theorem Listed.removeItem {i : TaskItem} (L : Listed k.lists f c) (hi : i.pvOwner ∈ c)
    (hc : k.container i = some l) :
    ∃ m' f', k.listRemoveItem i = some { k with lists := m' } ∧
      m'.xItemValue = k.lists.xItemValue ∧
      m'.pxContainer = Function.update k.lists.pxContainer i none ∧ Listed m' f' c ∧
      ∀ l', l' ≠ l → f' l' = f l' := by
  obtain ⟨w, m', -, -, hm', hv, hcont, L'⟩ := L.remove hi hc
  refine ⟨m', _, ?_, hv, hcont, L', fun l' hl' => Function.update_of_ne hl' _ _⟩
  unfold Kernel.listRemoveItem
  rw [hm']
  rfl

theorem Listed.leave (L : Listed k.lists f c) (ht : t ∈ c) :
    ∃ m' f', k.leaveEventList t = some { k with lists := m' } ∧
      m'.xItemValue = k.lists.xItemValue ∧
      m'.pxContainer = Function.update k.lists.pxContainer (.xEventListItem t) none ∧
      Listed m' f' c := by
  unfold Kernel.leaveEventList
  cases he : k.container (.xEventListItem t) with
  | none =>
      refine ⟨k.lists, f, rfl, rfl, ?_, L⟩
      exact (Function.update_eq_self_iff.mpr he.symm).symm
  | some l =>
      obtain ⟨m', f', hm', hv, hcont, L', -⟩ := L.removeItem (i := .xEventListItem t) ht he
      exact ⟨m', f', hm', hv, hcont, L'⟩

/-- `prvAddTaskToReadyList` on a task that is in no list. -/
theorem Listed.addReady (L : Listed k.lists f c) (ht : t ∈ c)
    (hp : k.uxPriority t < configMaxPriorities) (hc : k.stateList t = none) :
    ∃ f', (k.prvAddTaskToReadyList t).lists.xItemValue = k.lists.xItemValue ∧
      (k.prvAddTaskToReadyList t).lists.pxContainer = Function.update k.lists.pxContainer
        (.xStateListItem t) (some (.pxReadyTasksLists (k.uxPriority t))) ∧
      Listed (k.prvAddTaskToReadyList t).lists f' c := by
  obtain ⟨w, hw⟩ := L.init (.pxReadyTasksLists (k.uxPriority t)) hp
  refine ⟨_, rfl, rfl, L.insertEnd hw (fun hd => ?_) ht hc⟩
  rcases hd with he | he
  · cases he
  · cases he

/-- One task has been made ready, whatever it was waiting for. -/
structure Readied (k k' : Kernel) (t : Tcb) (c : Finset Tcb) : Prop where
  rest : k' = { k with
    lists := k'.lists
    uxTopReadyPriority :=
      if k.uxPriority t > k.uxTopReadyPriority then k.uxPriority t else k.uxTopReadyPriority }
  listed : ∃ f', Listed k'.lists f' c
  value : k'.lists.xItemValue = k.lists.xItemValue
  container : k'.lists.pxContainer = readied k.lists.pxContainer t (k.uxPriority t)

theorem readied_of_update {C C' : TaskItem → Option TaskList} {p : Nat}
    (h : ∀ i, C' i = if i = .xStateListItem t then some (.pxReadyTasksLists p)
      else if i = .xEventListItem t then none else C i) : C' = readied C t p := by
  funext i
  rw [h]
  unfold readied
  rw [Function.update_apply, Function.update_apply]

/-- The task leaves its delayed list first, and then the event list: what the tick does. -/
theorem Listed.ready_delayed (L : Listed k.lists f c) (ht : t ∈ c)
    (hp : k.uxPriority t < configMaxPriorities) (hc : k.stateList t = some l) :
    ∃ k₁ k₂, k.listRemoveItem (.xStateListItem t) = some k₁ ∧ k₁.leaveEventList t = some k₂ ∧
      Readied k (k₂.prvAddTaskToReadyList t) t c := by
  obtain ⟨m₁, f₁, hk₁, hv₁, hc₁, L₁, -⟩ := L.removeItem (i := .xStateListItem t) ht hc
  obtain ⟨m₂, f₂, hk₂, hv₂, hc₂, L₂⟩ := Listed.leave (k := { k with lists := m₁ }) L₁ ht
  obtain ⟨f₃, hv₃, hc₃, L₃⟩ := Listed.addReady (k := { k with lists := m₂ }) L₂ ht hp (by
    show m₂.pxContainer (.xStateListItem t) = none
    rw [hc₂, Function.update_of_ne (fun he => by cases he)]
    show m₁.pxContainer (.xStateListItem t) = none
    rw [hc₁, Function.update_self])
  refine ⟨_, _, hk₁, hk₂, rfl, ⟨f₃, L₃⟩, hv₃.trans (hv₂.trans hv₁), readied_of_update fun i => ?_⟩
  rw [hc₃]
  show Function.update m₂.pxContainer _ _ i = _
  rw [hc₂]
  show Function.update (Function.update m₁.pxContainer _ _) _ _ i = _
  rw [hc₁]
  simp only [Function.update_apply]
  split
  · rfl
  · rfl

/-- The task leaves the event list first: what `xTaskResumeAll` does. -/
theorem Listed.ready_pending {l' : TaskList} (L : Listed k.lists f c) (ht : t ∈ c)
    (hp : k.uxPriority t < configMaxPriorities) (hc : k.stateList t = some l)
    (he : k.eventList t = some l') :
    ∃ k₁ k₂, k.listRemoveItem (.xEventListItem t) = some k₁ ∧
      k₁.listRemoveItem (.xStateListItem t) = some k₂ ∧
      Readied k (k₂.prvAddTaskToReadyList t) t c := by
  obtain ⟨m₁, f₁, hk₁, hv₁, hc₁, L₁, -⟩ := L.removeItem (i := .xEventListItem t) ht he
  have hstate : m₁.pxContainer (.xStateListItem t) = some l := by
    rw [hc₁, Function.update_of_ne (fun he => by cases he)]
    exact hc
  obtain ⟨m₂, f₂, hk₂, hv₂, hc₂, L₂, -⟩ := Listed.removeItem (k := { k with lists := m₁ })
    (i := .xStateListItem t) L₁ ht hstate
  obtain ⟨f₃, hv₃, hc₃, L₃⟩ := Listed.addReady (k := { k with lists := m₂ }) L₂ ht hp (by
    show m₂.pxContainer (.xStateListItem t) = none
    rw [hc₂, Function.update_self])
  refine ⟨_, _, hk₁, hk₂, rfl, ⟨f₃, L₃⟩, hv₃.trans (hv₂.trans hv₁), readied_of_update fun i => ?_⟩
  rw [hc₃]
  show Function.update m₂.pxContainer _ _ i = _
  rw [hc₂]
  show Function.update (Function.update m₁.pxContainer _ _) _ _ i = _
  rw [hc₁]
  simp only [Function.update_apply]
  split
  · rfl
  · rfl

theorem Readied.stateList (r : Readied k k' t c) :
    k'.stateList t = some (.pxReadyTasksLists (k.uxPriority t)) := by
  show k'.lists.pxContainer _ = _
  rw [r.container]
  exact Function.update_self ..

theorem Readied.eventList (r : Readied k k' t c) : k'.eventList t = none := by
  show k'.lists.pxContainer _ = _
  rw [r.container, readied, Function.update_of_ne (fun he => by cases he), Function.update_self]

/-- The other tasks do not notice. -/
theorem Readied.others (r : Readied k k' t c) (t' : Tcb) (hne : t' ≠ t) :
    k'.stateList t' = k.stateList t' ∧ k'.eventList t' = k.eventList t' ∧
      k'.wakeTime t' = k.wakeTime t' := by
  refine ⟨?_, ?_, ?_⟩
  · show k'.lists.pxContainer _ = _
    rw [r.container, readied, Function.update_of_ne (fun he => hne (by cases he; rfl)),
      Function.update_of_ne (fun he => by cases he)]
    rfl
  · show k'.lists.pxContainer _ = _
    rw [r.container, readied, Function.update_of_ne (fun he => by cases he),
      Function.update_of_ne (fun he => hne (by cases he; rfl))]
    rfl
  · show k'.lists.xItemValue _ = _
    rw [r.value]
    rfl

theorem Readied.top (r : Readied k k' t c) : k'.uxTopReadyPriority =
    if k.uxPriority t > k.uxTopReadyPriority then k.uxPriority t else k.uxTopReadyPriority := by
  rw [r.rest]

theorem Readied.core (r : Readied k k' t c) (C : Core k idle c b) (ht : t ∈ c) :
    Core k' idle c b := by
  obtain ⟨f', L'⟩ := r.listed
  have hprio := C.prio t ht
  have htop := C.top
  have hreadytop := r.top
  have hnext : k'.xNextTaskUnblockTime = k.xNextTaskUnblockTime := by rw [r.rest]
  refine C.move L' (by rw [r.rest]) r.others r.stateList hprio (fun l' hl' => ?_)
    (fun p hp => ?_) ?_ (fun he => ?_) (fun he => ?_) (fun t' ht' _ hd => ?_) fun hidle => ?_
  · rw [r.eventList] at hl'
    cases hl'
  · obtain rfl := TaskList.pxReadyTasksLists.inj hp
    rw [hreadytop]
    refine ⟨rfl, ?_⟩
    split <;> omega
  · rw [hreadytop]
    split <;> omega
  · rcases C.delayed with ⟨hd, -⟩ | ⟨hd, -⟩
    · rw [hd] at he
      cases he
    · rw [hd] at he
      cases he
  · rcases C.delayed with ⟨-, hd⟩ | ⟨-, hd⟩
    · rw [hd] at he
      cases he
    · rw [hd] at he
      cases he
  · rw [hnext]
    exact (C.later t' ht' hd).2
  · rw [(C.idle_ready t hidle).2.1]

end FreeRtos

end MelonSoc
