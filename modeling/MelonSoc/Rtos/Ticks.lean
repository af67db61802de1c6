import MelonSoc.Rtos.Scheduler

set_option autoImplicit false

/-! # What a tick does

`xTaskIncrementTick` compares the 32-bit count with the times of the delayed list only, and keeps
the times that lie behind the wrap in the other list. Against a clock that never wraps, each delayed
task has a deadline, and a tick readies the tasks whose deadline it is: the loop stops at the first
time that has not come, and the list is sorted.
-/

namespace MelonSoc

namespace FreeRtos

open FreeRtos.Lists

/-- How a task stands; a deadline counts the ticks since the start. -/
inductive Status
  | ready
  | blocked (deadline : Nat)
  | suspended
  | deleted
  deriving DecidableEq

/-- How the task stands when the ticks up to `now` have been processed. -/
def Status.age (now : Nat) : Status → Status
  | .blocked deadline => if deadline ≤ now then .ready else .blocked deadline
  | s => s

/-- A task as those see it who wait for it: how it stands, the list in which it waits for an event,
and its priority. -/
structure TaskState where
  status : Status
  event : Option TaskList
  priority : Nat

/-- The task when the ticks up to `now` have been processed. -/
def TaskState.age (now : Nat) (s : TaskState) : TaskState :=
  match s.status with
  | .blocked deadline => if deadline ≤ now then { s with status := .ready, event := none } else s
  | _ => s

namespace Kernel

/-- How the task stands, at the tick `now`. -/
def status (now : Nat) (t : Tcb) (k : Kernel) : Status :=
  match k.stateList t with
  | some (.pxReadyTasksLists _) => .ready
  | some .xSuspendedTaskList => .suspended
  | some l =>
      if l = k.pxDelayedTaskList then .blocked (now / 2 ^ 32 * 2 ^ 32 + k.wakeTime t)
      else if l = k.pxOverflowDelayedTaskList then
        .blocked ((now / 2 ^ 32 + 1) * 2 ^ 32 + k.wakeTime t)
      else .deleted
  | none => .deleted

/-- The task, at the tick `now`. -/
def task (now : Nat) (t : Tcb) (k : Kernel) : TaskState :=
  { status := k.status now t, event := k.eventList t, priority := k.uxPriority t }

/-- The task is delayed and its time has come. -/
def Due (T : Nat) (t : Tcb) (k : Kernel) : Prop :=
  k.stateList t = some k.pxDelayedTaskList ∧ k.wakeTime t ≤ T

/-- No task that is ready has a higher priority than the running one. -/
def NoneHigher (c : Finset Tcb) (k : Kernel) : Prop :=
  ∀ t ∈ c, ∀ p, k.stateList t = some (.pxReadyTasksLists p) →
    ∀ q, k.currentPriority = some q → p ≤ q

end Kernel

open Kernel

variable {k k' : Kernel} {f : TaskList → Option (Wheel TaskItem)} {idle : Option Tcb}
  {c : Finset Tcb} {l : TaskList} {t : Tcb} {b T now : Nat} {sw sw' : Bool}

/-- The running task has a priority. -/
theorem Core.currentPriority (C : Core k idle c b) : ∃ q, k.currentPriority = some q := by
  obtain ⟨t, -, ht⟩ := C.current
  exact ⟨k.uxPriority t, by unfold Kernel.currentPriority; rw [ht]; rfl⟩

/-- A state list holds state list items. -/
theorem Core.state_item (C : Core k idle c b) {i : TaskItem} (hi : i.pvOwner ∈ c)
    (hc : k.container i = some l) (hl : l.IsState) :
    i = .xStateListItem i.pvOwner ∧ k.stateList i.pvOwner = some l := by
  cases i with
  | xStateListItem t => exact ⟨rfl, hc⟩
  | xEventListItem t =>
      rcases (C.waits t hi l hc).1 with rfl | ⟨e, rfl⟩
      · exact hl.elim
      · exact hl.elim

/-- An event list holds event list items. -/
theorem Core.event_item (C : Core k idle c b) {i : TaskItem} (hi : i.pvOwner ∈ c)
    (hc : k.container i = some l) (hl : l.IsEvent) :
    i = .xEventListItem i.pvOwner ∧ k.eventList i.pvOwner = some l := by
  cases i with
  | xEventListItem t => exact ⟨rfl, hc⟩
  | xStateListItem t =>
      obtain ⟨l', hl', hs⟩ := C.placed t hi
      obtain rfl := Option.some.inj (hc.symm.trans hl')
      rcases hl with rfl | ⟨e, rfl⟩
      · exact hs.elim
      · exact hs.elim

/-- A list that a task left for the ready list is shorter. -/
theorem Readied.length {w w' : Wheel TaskItem} {f f' : TaskList → Option (Wheel TaskItem)}
    (r : Readied k k' t c) (L : Listed k.lists f c) (L' : Listed k'.lists f' c) (ht : t ∈ c)
    (hl : f l = some w) (hl' : f' l = some w') {i : TaskItem}
    (hi : i = .xStateListItem t ∨ i = .xEventListItem t) (hc : k.container i = some l)
    (hnr : ∀ p, l ≠ .pxReadyTasksLists p)
    (hone : ∀ j, j = .xStateListItem t ∨ j = .xEventListItem t → k.container j = some l → j = i) :
    w.items.length = w'.items.length + 1 := by
  have hiw : i ∈ w.items := (L.mem_iff hl).mpr ⟨by rcases hi with rfl | rfl <;> exact ht, hc⟩
  have hperm : w'.items.Perm (w.items.erase i) := by
    refine (List.perm_ext_iff_of_nodup (L'.shown.nodup l w' hl')
      ((L.shown.nodup l w hl).erase i)).mpr fun j => ?_
    rw [(L.shown.nodup l w hl).mem_erase_iff, L.mem_iff hl, L'.mem_iff hl', r.container, readied]
    by_cases h1 : j = .xStateListItem t
    · rw [h1, Function.update_self]
      constructor
      · rintro ⟨-, he⟩
        exact absurd (Option.some.inj he).symm (hnr _)
      · rintro ⟨hne, -, he⟩
        exact absurd (hone _ (.inl rfl) he) hne
    · rw [Function.update_of_ne h1]
      by_cases h2 : j = .xEventListItem t
      · rw [h2, Function.update_self]
        constructor
        · rintro ⟨-, he⟩
          cases he
        · rintro ⟨hne, -, he⟩
          exact absurd (hone _ (.inr rfl) he) hne
      · rw [Function.update_of_ne h2]
        refine ⟨fun h => ⟨?_, h⟩, fun h => h.2⟩
        rintro rfl
        rcases hi with rfl | rfl
        · exact h1 rfl
        · exact h2 rfl
  rw [hperm.length_eq, List.length_erase_of_mem hiw]
  have hpos := List.length_pos_of_mem hiw
  omega

/-! ## The loop -/

/-- What the loop does: the tasks whose time has come are ready. -/
structure Woken (k k' : Kernel) (c : Finset Tcb) (T : Nat) : Prop where
  rest : k' = { k with
    lists := k'.lists, uxTopReadyPriority := k'.uxTopReadyPriority
    xNextTaskUnblockTime := k'.xNextTaskUnblockTime }
  due : ∀ t ∈ c, k.Due T t → k'.stateList t = some (.pxReadyTasksLists (k.uxPriority t)) ∧
    k'.eventList t = none
  others : ∀ t ∈ c, ¬ k.Due T t → k'.stateList t = k.stateList t ∧
    k'.eventList t = k.eventList t ∧ k'.wakeTime t = k.wakeTime t

theorem Core.later_of (C : Core k idle c T) {n : Nat} (hn : b ≤ n)
    (h : ∀ t ∈ c, k.stateList t = some k.pxDelayedTaskList → n ≤ k.wakeTime t) :
    Core { k with xNextTaskUnblockTime := n } idle c b :=
  ⟨C.listed, C.current, C.placed, C.waits, C.prio, C.ready, C.top, C.delayed, C.ticks,
    fun t ht hd => ⟨Nat.le_trans hn (h t ht hd), h t ht hd⟩, C.wrapped, C.count, C.idle_ready⟩

theorem Woken.refl (k : Kernel) (n : Nat) (h : ∀ t ∈ c, ¬ k.Due T t) :
    Woken k { k with xNextTaskUnblockTime := n } c T :=
  ⟨rfl, fun t ht hd => absurd hd (h t ht), fun _ _ _ => ⟨rfl, rfl, rfl⟩⟩

/-- One task first, and then the others. -/
theorem Woken.cons {k₁ : Kernel} (r : Readied k k₁ t c) (ht : t ∈ c) (hd : k.Due T t)
    (w : Woken k₁ k' c T) (hnd : ∀ p, k.pxDelayedTaskList ≠ .pxReadyTasksLists p) :
    Woken k k' c T := by
  have hprio : k₁.uxPriority = k.uxPriority := by rw [r.rest]
  have hlist : k₁.pxDelayedTaskList = k.pxDelayedTaskList := by rw [r.rest]
  have hself : ¬ k₁.Due T t := by
    rintro ⟨hs, -⟩
    rw [r.stateList, hlist] at hs
    exact hnd _ (Option.some.inj hs).symm
  have hiff : ∀ t', t' ≠ t → (k₁.Due T t' ↔ k.Due T t') := by
    intro t' hne
    obtain ⟨h1, -, h3⟩ := r.others t' hne
    unfold Due
    rw [h1, h3, hlist]
  refine ⟨?_, fun t' ht' hd' => ?_, fun t' ht' hn => ?_⟩
  · rw [w.rest]
    rw [r.rest]
  · by_cases he : t' = t
    · rw [he]
      obtain ⟨h1, h2, -⟩ := w.others t ht hself
      exact ⟨h1.trans r.stateList, h2.trans r.eventList⟩
    · rw [← hprio]
      exact w.due t' ht' ((hiff t' he).mpr hd')
  · have hne : t' ≠ t := fun he => hn (he ▸ hd)
    obtain ⟨h1, h2, h3⟩ := w.others t' ht' fun h => hn ((hiff t' hne).mp h)
    obtain ⟨g1, g2, g3⟩ := r.others t' hne
    exact ⟨h1.trans g1, h2.trans g2, h3.trans g3⟩

/-- **The loop of the tick** readies the tasks whose time has come, and then knows the next time. -/
theorem Core.wakeDelayedTasks (C : Core k idle c T) (fuel : Nat) (sw : Bool)
    (hfuel : k.lists.uxNumberOfItems k.pxDelayedTaskList < fuel) :
    ∃ sw' k', k.wakeDelayedTasks T fuel sw = some (sw', k') ∧ Core k' idle c (T + 1) ∧
      Woken k k' c T ∧ (sw = true → sw' = true) ∧
      (sw' = false → ∀ t ∈ c, k.Due T t → ∀ q, k.currentPriority = some q → k.uxPriority t ≤ q) := by
  induction fuel generalizing k sw with
  | zero => exact absurd hfuel (Nat.not_lt_zero _)
  | succ fuel ih =>
      obtain ⟨f, L⟩ := C.listed
      obtain ⟨w, hw⟩ := L.init _ C.isDelayed.isKernel
      have hnr : ∀ p, k.pxDelayedTaskList ≠ .pxReadyTasksLists p := fun p he => by
        rcases C.isDelayed with h | h
        · rw [h] at he
          cases he
        · rw [h] at he
          cases he
      unfold Kernel.wakeDelayedTasks
      cases hempty : k.listIsEmpty k.pxDelayedTaskList with
      | true =>
          have hnone := (L.isEmpty_iff hw).mp hempty
          have hno : ∀ t ∈ c, k.stateList t ≠ some k.pxDelayedTaskList := fun t ht =>
            hnone (.xStateListItem t) ht
          refine ⟨sw, _, if_pos rfl, ?_, Woken.refl k _ fun t ht hd => hno t ht hd.1, id,
            fun _ t ht hd => absurd hd.1 (hno t ht)⟩
          exact ⟨C.listed, C.current, C.placed, C.waits, C.prio, C.ready, C.top, C.delayed, C.ticks,
            fun t ht hd => absurd hd (hno t ht), C.wrapped, C.count, C.idle_ready⟩
      | false =>
          obtain ⟨i, is, hwi, hhead, hi, hic, -⟩ := L.head hw hempty
          obtain ⟨hitem, hstate⟩ := C.state_item hi hic C.isDelayed.isState
          have hleast : ∀ t ∈ c, k.stateList t = some k.pxDelayedTaskList →
              k.wakeTime i.pvOwner ≤ k.wakeTime t := by
            intro t ht hd
            have hle := L.head_least C.isDelayed hw hwi (j := .xStateListItem t) ht hd
            rw [hitem] at hle
            exact hle
          have hval : k.lists.xItemValue (.item (.xStateListItem i.pvOwner))
              = k.wakeTime i.pvOwner := rfl
          rw [if_neg (by simp)]
          simp only [hhead, hval, Option.bind_eq_bind, Option.bind_some]
          by_cases hlt : T < k.wakeTime i.pvOwner
          · rw [if_pos hlt]
            refine ⟨sw, _, rfl, ?_, ?_, id, ?_⟩
            · exact C.later_of hlt hleast
            · refine Woken.refl k _ fun t ht hd => ?_
              have hle := hleast t ht hd.1
              have hdue := hd.2
              omega
            · intro _ t ht hd
              have hle := hleast t ht hd.1
              have hdue := hd.2
              omega
          · have hdue : k.Due T i.pvOwner := ⟨hstate, Nat.le_of_not_lt hlt⟩
            rw [if_neg hlt]
            obtain ⟨k₁, k₂, hk₁, hk₂, r⟩ := L.ready_delayed hi (C.prio _ hi) hstate
            generalize hk₃ : k₂.prvAddTaskToReadyList i.pvOwner = k₃ at r
            have C₃ := r.core C hi
            have hlist : k₃.pxDelayedTaskList = k.pxDelayedTaskList := by rw [r.rest]
            have hprio : k₃.uxPriority = k.uxPriority := by rw [r.rest]
            have hcur : k₃.currentPriority = k.currentPriority := by
              rw [r.rest]
              rfl
            obtain ⟨q, hq⟩ := C.currentPriority
            obtain ⟨f', L'⟩ := r.listed
            obtain ⟨w', hw'⟩ := L'.init _ C.isDelayed.isKernel
            have hlen := r.length L L' hi hw hw' (.inl hitem) hic hnr fun j hj hc => by
              rcases hj with rfl | rfl
              · exact hitem.symm
              · have hev := (C.waits _ hi _ hc).1
                rcases C.isDelayed with h | h
                · rw [h] at hev
                  rcases hev with he | ⟨e, he⟩ <;> cases he
                · rw [h] at hev
                  rcases hev with he | ⟨e, he⟩ <;> cases he
            have hcount : k₃.lists.uxNumberOfItems k₃.pxDelayedTaskList < fuel := by
              rw [L.shown.count _ w hw] at hfuel
              rw [hlist, L'.shown.count _ w' hw']
              omega
            obtain ⟨sw', k', hrun, C', hwoken, hsw, hpol⟩ := ih C₃
              (sw || decide (k.uxPriority i.pvOwner > q)) hcount
            simp only [hk₁, hk₂, hk₃, hcur, hq, hprio, Option.bind_some]
            refine ⟨sw', k', hrun, C', hwoken.cons r hi hdue hnr, fun h => hsw (by rw [h]; rfl), ?_⟩
            intro hfalse t ht hd q' hq'
            obtain rfl := Option.some.inj hq'
            by_cases he : t = i.pvOwner
            · by_contra hgt
              rw [hsw (by rw [← he, decide_eq_true (Nat.lt_of_not_le hgt), Bool.or_true])] at hfalse
              cases hfalse
            · have hd₃ : k₃.Due T t := by
                obtain ⟨h1, -, h3⟩ := r.others t he
                exact ⟨by rw [h1, hlist]; exact hd.1, by rw [h3]; exact hd.2⟩
              rw [← hprio]
              exact hpol hfalse t ht hd₃ q (hcur.trans hq)

/-! ## How the tasks stand -/

theorem Core.status_delayed (C : Core k idle c b) (h : k.stateList t = some k.pxDelayedTaskList) :
    k.status now t = .blocked (now / 2 ^ 32 * 2 ^ 32 + k.wakeTime t) := by
  unfold Kernel.status
  rw [h]
  rcases C.delayed with ⟨h1, -⟩ | ⟨h1, -⟩
  · simp only [h1, if_pos]
  · simp only [h1, if_pos]

theorem Core.status_overflow (C : Core k idle c b)
    (h : k.stateList t = some k.pxOverflowDelayedTaskList) :
    k.status now t = .blocked ((now / 2 ^ 32 + 1) * 2 ^ 32 + k.wakeTime t) := by
  have hne := C.lists_ne
  unfold Kernel.status
  rw [h]
  rcases C.delayed with ⟨h1, h2⟩ | ⟨h1, h2⟩
  · rw [h1, h2] at hne
    simp only [h1, h2, if_pos, if_neg hne.symm]
  · rw [h1, h2] at hne
    simp only [h1, h2, if_pos, if_neg hne.symm]

/-- The ways in which a task can stand. -/
theorem Core.status_cases (C : Core k idle c b) (ht : t ∈ c) (now : Nat) :
    (k.stateList t = some k.pxDelayedTaskList ∧
        k.status now t = .blocked (now / 2 ^ 32 * 2 ^ 32 + k.wakeTime t)) ∨
    (k.stateList t = some k.pxOverflowDelayedTaskList ∧
        k.status now t = .blocked ((now / 2 ^ 32 + 1) * 2 ^ 32 + k.wakeTime t)) ∨
    (k.stateList t ≠ some k.pxDelayedTaskList ∧ k.stateList t ≠ some k.pxOverflowDelayedTaskList ∧
      ((∃ p, k.stateList t = some (.pxReadyTasksLists p)) ∧ k.status now t = .ready ∨
        k.stateList t = some .xSuspendedTaskList ∧ k.status now t = .suspended ∨
        k.stateList t = some .xTasksWaitingTermination ∧ k.status now t = .deleted)) := by
  obtain ⟨l, hl, hs⟩ := C.placed t ht
  by_cases hd : l = k.pxDelayedTaskList
  · rw [hd] at hl
    exact .inl ⟨hl, C.status_delayed hl⟩
  by_cases ho : l = k.pxOverflowDelayedTaskList
  · rw [ho] at hl
    exact .inr (.inl ⟨hl, C.status_overflow hl⟩)
  refine .inr (.inr ⟨fun h => hd (Option.some.inj (hl.symm.trans h)),
    fun h => ho (Option.some.inj (hl.symm.trans h)), ?_⟩)
  have hboth : l ≠ .xDelayedTaskList1 ∧ l ≠ .xDelayedTaskList2 := by
    rcases C.delayed with ⟨h1, h2⟩ | ⟨h1, h2⟩
    · rw [h1] at hd
      rw [h2] at ho
      exact ⟨hd, ho⟩
    · rw [h1] at hd
      rw [h2] at ho
      exact ⟨ho, hd⟩
  unfold Kernel.status
  rw [hl]
  cases l with
  | pxReadyTasksLists p => exact .inl ⟨⟨p, rfl⟩, rfl⟩
  | xSuspendedTaskList => exact .inr (.inl ⟨rfl, rfl⟩)
  | xTasksWaitingTermination =>
      refine .inr (.inr ⟨rfl, ?_⟩)
      simp only [if_neg hd, if_neg ho]
  | xDelayedTaskList1 => exact absurd rfl hboth.1
  | xDelayedTaskList2 => exact absurd rfl hboth.2
  | xPendingReadyList => exact hs.elim
  | pxEventList e => exact hs.elim

/-- How a task stands that is not delayed. -/
theorem Kernel.status_else (hd : k.stateList t ≠ some k.pxDelayedTaskList)
    (ho : k.stateList t ≠ some k.pxOverflowDelayedTaskList) :
    k.status now t = match k.stateList t with
      | some (.pxReadyTasksLists _) => .ready
      | some .xSuspendedTaskList => .suspended
      | _ => .deleted := by
  unfold Kernel.status
  cases hl : k.stateList t with
  | none => rfl
  | some l =>
      rw [hl] at hd ho
      have hd' : l ≠ k.pxDelayedTaskList := fun he => hd (by rw [he])
      have ho' : l ≠ k.pxOverflowDelayedTaskList := fun he => ho (by rw [he])
      cases l <;> first | rfl | exact (if_neg hd').trans (if_neg ho')

/-- A task that does not move stands as before. -/
theorem Kernel.status_congr (hl : k'.stateList t = k.stateList t)
    (hw : k'.wakeTime t = k.wakeTime t) (hd : k'.pxDelayedTaskList = k.pxDelayedTaskList)
    (ho : k'.pxOverflowDelayedTaskList = k.pxOverflowDelayedTaskList) :
    k'.status now t = k.status now t := by
  unfold Kernel.status
  rw [hl, hw, hd, ho]

theorem TaskState.age_of_blocked {s : TaskState} {deadline : Nat}
    (h : s.status = .blocked deadline) : s.age now
      = if deadline ≤ now then { s with status := .ready, event := none } else s := by
  unfold TaskState.age
  rw [h]

theorem TaskState.age_of_ne (s : TaskState) (now : Nat)
    (h : ∀ deadline, s.status ≠ .blocked deadline) : s.age now = s := by
  unfold TaskState.age
  cases hs : s.status with
  | blocked deadline => exact absurd hs (h deadline)
  | ready => rfl
  | suspended => rfl
  | deleted => rfl

theorem TaskState.age_age (s : TaskState) {a a' : Nat} (h : a ≤ a') :
    (s.age a).age a' = s.age a' := by
  cases hs : s.status with
  | blocked d =>
      rw [TaskState.age_of_blocked hs]
      by_cases hd : d ≤ a
      · rw [if_pos hd, TaskState.age_of_blocked hs, if_pos (Nat.le_trans hd h)]
        rfl
      · rw [if_neg hd]
  | ready => rw [s.age_of_ne a fun d he => by rw [hs] at he; cases he]
  | suspended => rw [s.age_of_ne a fun d he => by rw [hs] at he; cases he]
  | deleted => rw [s.age_of_ne a fun d he => by rw [hs] at he; cases he]

theorem Kernel.status_ready {p : Nat} (h : k.stateList t = some (.pxReadyTasksLists p)) :
    k.status now t = .ready := by
  unfold Kernel.status
  rw [h]

/-- The tasks of the ready lists are those that are ready. -/
theorem Kernel.ready_of_status (h : k.status now t = .ready) :
    ∃ p, k.stateList t = some (.pxReadyTasksLists p) := by
  unfold Kernel.status at h
  cases hl : k.stateList t with
  | none =>
      rw [hl] at h
      cases h
  | some l =>
      rw [hl] at h
      cases l with
      | pxReadyTasksLists p => exact ⟨p, rfl⟩
      | xSuspendedTaskList => cases h
      | _ =>
          dsimp only at h
          split at h
          · cases h
          · split at h <;> cases h

theorem Kernel.suspended_of_status (h : k.status now t = .suspended) :
    k.stateList t = some .xSuspendedTaskList := by
  unfold Kernel.status at h
  cases hl : k.stateList t with
  | none =>
      rw [hl] at h
      cases h
  | some l =>
      rw [hl] at h
      cases l with
      | pxReadyTasksLists p => cases h
      | xSuspendedTaskList => rfl
      | _ =>
          dsimp only at h
          split at h
          · cases h
          · split at h <;> cases h

theorem Kernel.status_suspended (h : k.stateList t = some .xSuspendedTaskList) :
    k.status now t = .suspended := by
  unfold Kernel.status
  rw [h]

/-- The loop ages the tasks by the tick. -/
theorem Woken.status {A : Nat} (w : Woken k k' c T) (C : Core k idle c b) (ht : t ∈ c)
    (hT : T = A % 2 ^ 32) : k'.status A t = (k.status A t).age A := by
  have hd : k'.pxDelayedTaskList = k.pxDelayedTaskList := by rw [w.rest]
  have ho : k'.pxOverflowDelayedTaskList = k.pxOverflowDelayedTaskList := by rw [w.rest]
  have hsame : ¬ k.Due T t → k'.status A t = k.status A t := fun hn =>
    Kernel.status_congr (w.others t ht hn).1 (w.others t ht hn).2.2 hd ho
  have hA : A = A / 2 ^ 32 * 2 ^ 32 + T := by
    rw [hT]
    exact (Nat.div_add_mod' A (2 ^ 32)).symm
  have hT32 : T < 2 ^ 32 := by
    rw [hT]
    exact Nat.mod_lt _ (by decide)
  rcases C.status_cases ht A with ⟨hl, hs⟩ | ⟨hl, hs⟩ | ⟨hnd, hno, hs⟩
  · by_cases hdue : k.Due T t
    · have hle := hdue.2
      rw [Kernel.status_ready (w.due t ht hdue).1, hs, Status.age, if_pos (by omega)]
    · have hgt : T < k.wakeTime t := Nat.lt_of_not_le fun hle => hdue ⟨hl, hle⟩
      rw [hsame hdue, hs, Status.age, if_neg (by omega)]
  · have hn : ¬ k.Due T t := fun h => C.lists_ne (Option.some.inj (h.1.symm.trans hl))
    rw [hsame hn, hs, Status.age, if_neg (by rw [Nat.add_mul, Nat.one_mul]; omega)]
  · rw [hsame fun h => hnd h.1]
    rcases hs with ⟨-, hs⟩ | ⟨-, hs⟩ | ⟨-, hs⟩
    · rw [hs]
      rfl
    · rw [hs]
      rfl
    · rw [hs]
      rfl

/-- `prvResetNextTaskUnblockTime` finds the earliest time. -/
theorem Listed.reset_le (L : Listed k.lists f c) (hd : k.pxDelayedTaskList.IsDelayed) (ht : t ∈ c)
    (hl : k.stateList t = some k.pxDelayedTaskList) :
    k.prvResetNextTaskUnblockTime.xNextTaskUnblockTime ≤ k.wakeTime t := by
  obtain ⟨w, hw⟩ := L.init _ hd.isKernel
  show (if k.listIsEmpty k.pxDelayedTaskList then portMaxDelay else _) ≤ _
  cases hempty : k.listIsEmpty k.pxDelayedTaskList with
  | true => exact absurd hl ((L.isEmpty_iff hw).mp hempty (.xStateListItem t) ht)
  | false =>
      obtain ⟨i, is, hwi, -, -, -, hvalue⟩ := L.head hw hempty
      rw [if_neg (by simp), hvalue]
      exact L.head_least hd hw hwi (j := .xStateListItem t) ht hl

theorem Core.reset (C : Core k idle c b) : Core k.prvResetNextTaskUnblockTime idle c b := by
  obtain ⟨f, L⟩ := C.listed
  exact ⟨C.listed, C.current, C.placed, C.waits, C.prio, C.ready, C.top, C.delayed, C.ticks,
    fun t ht hd => ⟨(C.later t ht hd).1, L.reset_le C.isDelayed ht hd⟩, C.wrapped, C.count,
    C.idle_ready⟩

/-! ## The tick -/

/-- The lists change places when the count wraps: no task of the old list is left. -/
theorem Core.taskSwitchDelayedLists (C : Core k idle c (2 ^ 32)) :
    ∃ k', ({ k with xTickCount := 0 } : Kernel).taskSwitchDelayedLists = some k' ∧
      Core k' idle c 0 ∧ k' = { k with
        xTickCount := 0, pxDelayedTaskList := k.pxOverflowDelayedTaskList
        pxOverflowDelayedTaskList := k.pxDelayedTaskList
        xNumOfOverflows := k'.xNumOfOverflows
        xNextTaskUnblockTime := k'.xNextTaskUnblockTime } ∧
      ∀ t ∈ c, k.stateList t ≠ some k.pxDelayedTaskList := by
  obtain ⟨f, L⟩ := C.listed
  obtain ⟨w, hw⟩ := L.init _ C.isDelayed.isKernel
  have hno : ∀ t ∈ c, k.stateList t ≠ some k.pxDelayedTaskList := by
    intro t ht hd
    have hlater := (C.later t ht hd).1
    have hsmall : k.wakeTime t < 2 ^ 32 := L.shown.small _
    omega
  have hempty : k.listIsEmpty k.pxDelayedTaskList = true := by
    refine (L.isEmpty_iff hw).mpr fun i hi hc => ?_
    obtain ⟨-, hs⟩ := C.state_item hi hc C.isDelayed.isState
    exact hno _ hi hs
  unfold Kernel.taskSwitchDelayedLists
  have hassert : configAssert (({ k with xTickCount := 0 } : Kernel).listIsEmpty
      k.pxDelayedTaskList) = some () := if_pos hempty
  simp only [hassert, Option.bind_eq_bind, Option.bind_some]
  refine ⟨_, rfl, ?_, rfl, hno⟩
  have hdelayed : (k.pxOverflowDelayedTaskList = .xDelayedTaskList1 ∧
      k.pxDelayedTaskList = .xDelayedTaskList2) ∨
      (k.pxOverflowDelayedTaskList = .xDelayedTaskList2 ∧
        k.pxDelayedTaskList = .xDelayedTaskList1) := by
    rcases C.delayed with ⟨h1, h2⟩ | ⟨h1, h2⟩
    · exact .inr ⟨h2, h1⟩
    · exact .inl ⟨h2, h1⟩
  refine ⟨C.listed, C.current, C.placed, C.waits, C.prio, C.ready, C.top, hdelayed, Nat.two_pow_pos 32,
    fun t ht hd => ⟨Nat.zero_le _, ?_⟩, fun t ht hd => absurd hd (hno t ht), C.count, C.idle_ready⟩
  exact Listed.reset_le (k := { k with
    xTickCount := 0, pxDelayedTaskList := k.pxOverflowDelayedTaskList
    pxOverflowDelayedTaskList := k.pxDelayedTaskList
    xNumOfOverflows := add32 k.xNumOfOverflows 1 }) L C.isDelayed_overflow ht hd

/-- The kernel between the count and the loop of the tick. -/
theorem Core.count_tick {A : Nat} (C : Core k idle c (k.xTickCount + 1))
    (hA : k.xTickCount = A % 2 ^ 32) :
    ∃ k₁, (if add32 k.xTickCount 1 = 0 then
        ({ k with xTickCount := add32 k.xTickCount 1 } : Kernel).taskSwitchDelayedLists
      else some { k with xTickCount := add32 k.xTickCount 1 }) = some k₁ ∧
      Core k₁ idle c k₁.xTickCount ∧ k₁.xTickCount = (A + 1) % 2 ^ 32 ∧
      (∀ t ∈ c, k₁.status (A + 1) t = k.status A t) ∧
      k₁ = { k with
        xTickCount := k₁.xTickCount, pxDelayedTaskList := k₁.pxDelayedTaskList
        pxOverflowDelayedTaskList := k₁.pxOverflowDelayedTaskList
        xNumOfOverflows := k₁.xNumOfOverflows, xNextTaskUnblockTime := k₁.xNextTaskUnblockTime } := by
  have hticks := C.ticks
  by_cases hwrap : k.xTickCount + 1 = 2 ^ 32
  · have hadd : add32 k.xTickCount 1 = 0 := by
      rw [add32, hwrap, Nat.mod_self]
    rw [hwrap] at C
    obtain ⟨k', hk', C', hrest, hno⟩ := C.taskSwitchDelayedLists
    rw [if_pos hadd, hadd]
    have htick : k'.xTickCount = 0 := by rw [hrest]
    have hdel : k'.pxDelayedTaskList = k.pxOverflowDelayedTaskList := by rw [hrest]
    have hover : k'.pxOverflowDelayedTaskList = k.pxDelayedTaskList := by rw [hrest]
    refine ⟨k', hk', by rw [htick]; exact C', by rw [htick]; omega, fun t ht => ?_,
      by rw [htick, hdel, hover]; exact hrest⟩
    have hstate : k'.stateList t = k.stateList t := by
      rw [hrest]
      rfl
    have hwake : k'.wakeTime t = k.wakeTime t := by
      rw [hrest]
      rfl
    have hdiv : (A + 1) / 2 ^ 32 = A / 2 ^ 32 + 1 := by omega
    rcases C.status_cases ht A with ⟨hl, -⟩ | ⟨hl, hs⟩ | ⟨hnd, hno', -⟩
    · exact absurd hl (hno t ht)
    · rw [C'.status_delayed (by rw [hstate, hdel, hl]), hs, hwake, hdiv]
    · rw [Kernel.status_else hnd hno', Kernel.status_else (by rw [hstate, hdel]; exact hno')
        (by rw [hstate, hover]; exact hnd), hstate]
  · have hadd : add32 k.xTickCount 1 = k.xTickCount + 1 := Nat.mod_eq_of_lt (by omega)
    rw [if_neg (by rw [hadd]; omega), hadd]
    refine ⟨_, rfl, ?_, ?_, fun t ht => ?_, rfl⟩
    · exact ⟨C.listed, C.current, C.placed, C.waits, C.prio, C.ready, C.top, C.delayed,
        by show k.xTickCount + 1 < 2 ^ 32; omega, C.later,
        fun t ht hd => Nat.lt_succ_of_lt (C.wrapped t ht hd), C.count, C.idle_ready⟩
    · show k.xTickCount + 1 = _
      omega
    · have hdiv : (A + 1) / 2 ^ 32 = A / 2 ^ 32 := by omega
      unfold Kernel.status
      rw [hdiv]
      rfl

end FreeRtos

end MelonSoc
