import MelonSoc.Rtos.Waiting

set_option autoImplicit false

/-! # Suspending, resuming and deleting tasks

A task that is suspended or deletes itself leaves its state list and its event list for another
state list. A task that is deleted by another one leaves all lists at once, and one that deleted
itself when the idle task runs: from then on the kernel knows nothing of it.
-/

namespace MelonSoc

namespace FreeRtos

open FreeRtos.Lists Kernel

variable {k k₁ k₂ k' : Kernel} {m m' : Lists TaskItem TaskList}
  {f : TaskList → Option (Wheel TaskItem)} {idle : Option Tcb} {i : Tcb} {c : Finset Tcb}
  {l : TaskList} {t : Tcb} {A b : Nat}

/-! ## Taking a task out -/

/-- The items of a task are in no list. -/
structure TakenOut (k k' : Kernel) (t : Tcb) (c : Finset Tcb) : Prop where
  beside : Beside k k' t
  next : k'.xNextTaskUnblockTime = k.xNextTaskUnblockTime
  state : k'.stateList t = none
  event : k'.eventList t = none
  wake : k'.wakeTime t = k.wakeTime t
  listed : ∃ f, Listed k'.lists f c

theorem Listed.takeOut (L : Listed k.lists f c) (ht : t ∈ c) (hl : k.stateList t = some l) :
    ∃ k₁ k₂, k.listRemoveItem (.xStateListItem t) = some k₁ ∧ k₁.leaveEventList t = some k₂ ∧
      TakenOut k k₂ t c := by
  obtain ⟨m₁, f₁, hk₁, hv₁, hc₁, L₁, -⟩ := L.removeItem (i := .xStateListItem t) ht hl
  obtain ⟨m₂, f₂, hk₂, hv₂, hc₂, L₂⟩ := Listed.leave (k := { k with lists := m₁ }) L₁ ht
  have hc : m₂.pxContainer = Function.update (Function.update k.lists.pxContainer
      (.xStateListItem t) none) (.xEventListItem t) none := by
    rw [hc₂]
    show Function.update m₁.pxContainer _ _ = _
    rw [hc₁]
  have hv : m₂.xItemValue = k.lists.xItemValue := hv₂.trans hv₁
  refine ⟨_, _, hk₁, hk₂, ⟨rfl, fun t' hne => ⟨?_, ?_, congrFun hv _⟩⟩, rfl, ?_, ?_, congrFun hv _,
    ⟨f₂, L₂⟩⟩
  · show m₂.pxContainer _ = _
    rw [hc, Function.update_of_ne (fun he => by cases he),
      Function.update_of_ne (fun he => hne (by cases he; rfl))]
    rfl
  · show m₂.pxContainer _ = _
    rw [hc, Function.update_of_ne (fun he => hne (by cases he; rfl)),
      Function.update_of_ne (fun he => by cases he)]
    rfl
  · show m₂.pxContainer _ = _
    rw [hc, Function.update_of_ne (fun he => by cases he), Function.update_self]
  · show m₂.pxContainer _ = _
    rw [hc, Function.update_self]

/-- The task is put into another state list, where it waits for nothing. -/
theorem TakenOut.putIn (o : TakenOut k k₂ t c) (ht : t ∈ c) (hl : l.IsKernel)
    (hd : ¬ l.IsDelayed) :
    Beside k (k₂.listInsertEnd l (.xStateListItem t)) t ∧
      (k₂.listInsertEnd l (.xStateListItem t)).xNextTaskUnblockTime = k.xNextTaskUnblockTime ∧
      (k₂.listInsertEnd l (.xStateListItem t)).stateList t = some l ∧
      (k₂.listInsertEnd l (.xStateListItem t)).eventList t = none ∧
      ∃ f, Listed (k₂.listInsertEnd l (.xStateListItem t)).lists f c := by
  obtain ⟨f, L⟩ := o.listed
  obtain ⟨w, hw⟩ := L.init l hl
  have L' := L.insertEnd hw hd (i := .xStateListItem t) ht o.state
  have hcont : ∀ j, (k₂.listInsertEnd l (.xStateListItem t)).container j
      = Function.update k₂.lists.pxContainer (.xStateListItem t) (some l) j := fun _ => rfl
  refine ⟨⟨?_, fun t' hne => ?_⟩, o.next, Function.update_self .., ?_, ⟨_, L'⟩⟩
  · unfold Kernel.listInsertEnd
    rw [o.beside.rest]
  · obtain ⟨h1, h2, h3⟩ := o.beside.others t' hne
    refine ⟨?_, ?_, h3⟩
    · rw [← h1]
      refine (hcont _).trans (Function.update_of_ne (fun he => hne ?_) _ _)
      cases he
      rfl
    · rw [← h2]
      refine (hcont _).trans (Function.update_of_ne (fun he => ?_) _ _)
      cases he
  · rw [← o.event]
    refine (hcont _).trans (Function.update_of_ne (fun he => ?_) _ _)
    cases he

/-- A task moves to a list in which it neither is ready nor waits for a tick. -/
theorem Core.retire (C : Core k idle c b) (h : Beside k k' t)
    (hnext : k'.xNextTaskUnblockTime = k.xNextTaskUnblockTime) (L : Listed k'.lists f c)
    (hstate : k'.stateList t = some l) (hevent : k'.eventList t = none) (hl : l.IsState)
    (hr : ∀ p, l ≠ .pxReadyTasksLists p) (hd : ¬ l.IsDelayed) (hidle : idle ≠ some t) :
    Core k' idle c b := by
  refine C.move L (by rw [h.rest]) h.others hstate hl ?_ ?_ ?_ ?_ ?_ ?_ ?_
  · intro l' hl'
    rw [hevent] at hl'
    cases hl'
  · intro p hp
    exact absurd hp (hr p)
  · rw [show k'.uxTopReadyPriority = k.uxTopReadyPriority by rw [h.rest]]
    exact ⟨Nat.le_refl _, C.top⟩
  · rintro rfl
    exact absurd C.isDelayed hd
  · rintro rfl
    exact absurd C.isDelayed_overflow hd
  · intro t' ht' _ hl'
    rw [hnext]
    exact (C.later t' ht' hl').2
  · intro hi
    exact absurd hi hidle

/-! ## Suspending and resuming -/

/-- **`vTaskSuspend`**: the task waits for nothing but to be resumed. -/
theorem Inv.suspend (I : Inv k (some i) c A) (ht : t ∈ c) (hi : t ≠ i)
    (hgone : k.stateList t ≠ some .xTasksWaitingTermination)
    (hs : k.pxCurrentTCB = some t → k.uxSchedulerSuspended = 0) :
    ∃ k', k.vTaskSuspend t = some k' ∧ Inv k' (some i) c A ∧
      k'.task A t = ⟨.suspended, none, k.uxPriority t⟩ ∧
      ∀ t' ∈ c, t' ≠ t → k'.task A t' = k.task A t' := by
  have C := I.core
  obtain ⟨f, L⟩ := C.listed
  obtain ⟨l, hl, -⟩ := C.placed t ht
  obtain ⟨k₁, k₂, hk₁, hk₂, o⟩ := L.takeOut ht hl
  have hno : ¬ TaskList.xSuspendedTaskList.IsDelayed := fun hd => by
    rcases hd with he | he <;> cases he
  obtain ⟨hb, hnext, hstate, hevent, f₃, L₃⟩ := o.putIn ht (l := .xSuspendedTaskList) trivial hno
  generalize hk₃ : k₂.listInsertEnd .xSuspendedTaskList (.xStateListItem t) = k₃ at *
  have C₃ := C.retire hb hnext L₃ hstate hevent trivial (fun p he => by cases he) hno
    fun h => hi (Option.some.inj h).symm
  have hrun : k₃.xSchedulerRunning = true := by
    rw [hb.rest]
    exact I.running
  have hs₃ : k₃.uxSchedulerSuspended = k.uxSchedulerSuspended := by rw [hb.rest]
  have hp₃ : k₃.xPendedTicks = k.xPendedTicks := by rw [hb.rest]
  have hcur₃ : k₃.pxCurrentTCB = k.pxCurrentTCB := by rw [hb.rest]
  have htick₃ : k₃.xTickCount = k.xTickCount := by rw [hb.rest]
  have hgone₃ : ∀ t' ∈ c, k₃.stateList t' = some .xTasksWaitingTermination ↔
      k.stateList t' = some .xTasksWaitingTermination := by
    intro t' _
    by_cases he : t' = t
    · rw [he, hstate]
      constructor
      · intro h
        cases h
      · intro h
        exact absurd h hgone
    · rw [(hb.others t' he).1]
  have S₄ : Sound k₃.prvResetNextTaskUnblockTime (some i) c A := by
    refine I.toSound.keep (by show Core _ _ _ (k₃.xTickCount + 1); rw [htick₃]; exact C₃.reset)
      (htick₃.trans I.clock) (by show k₃.uxSchedulerSuspended < _ ∧ k₃.xPendedTicks < _
                                 rw [hs₃, hp₃]; exact I.small) (fun h => ?_)
      (by show k₃.xSchedulerRunning = _; rw [hb.rest]) (by show k₃.uxDeletedTasksWaitingCleanUp = _
                                                           rw [hb.rest]) (fun h t' ht' he => ?_)
      hgone₃
    · show k₃.xPendedTicks = 0
      rw [hp₃]
      exact (I.caught (hs₃.symm.trans h)).1
    · by_cases hne : t' = t
      · rw [hne] at he
        cases hevent.symm.trans he
      · exact (I.caught (hs₃.symm.trans h)).2 t' ht' ((hb.others t' hne).2.1.symm.trans he)
  have htask₄ : k₃.prvResetNextTaskUnblockTime.task A t = ⟨.suspended, none, k.uxPriority t⟩ := by
    show k₃.task A t = _
    unfold Kernel.task
    rw [Kernel.status_suspended hstate, hevent, hb.rest]
  have hothers₄ : ∀ t', t' ≠ t → k₃.prvResetNextTaskUnblockTime.task A t' = k.task A t' :=
    fun t' hne => hb.task hne
  have hcall : k.vTaskSuspend t = if some t = k₃.pxCurrentTCB then
      (configAssert (k₃.uxSchedulerSuspended == 0)).bind fun _ =>
        k₃.prvResetNextTaskUnblockTime.portYield
      else some k₃.prvResetNextTaskUnblockTime := by
    unfold Kernel.vTaskSuspend
    simp only [hk₁, hk₂, Option.bind_eq_bind, Option.bind_some]
    rw [hk₃]
    simp only [hrun, if_true]
    show (if some t = k₃.pxCurrentTCB then if k₃.xSchedulerRunning = true then _ else _ else _) = _
    simp only [hrun, if_true]
    rfl
  rw [hcall, hcur₃]
  by_cases hcur : some t = k.pxCurrentTCB
  · have hz : k₃.uxSchedulerSuspended = 0 := hs₃.trans (hs hcur.symm)
    obtain ⟨k', hk', I', y⟩ := S₄.yield fun hne => absurd hz hne
    refine ⟨k', ?_, I', (y.unmoved.task (by rw [y.rest]) t).trans htask₄,
      fun t' _ hne => (y.unmoved.task (by rw [y.rest]) t').trans (hothers₄ t' hne)⟩
    rw [if_pos hcur, show configAssert (k₃.uxSchedulerSuspended == 0) = some () from
      if_pos (by rw [hz]; rfl)]
    exact hk'
  · refine ⟨_, if_neg hcur, ⟨S₄, fun t' ht' he => ?_, fun hy t' ht' p hp q hq => ?_⟩, htask₄,
      fun t' _ hne => hothers₄ t' hne⟩
    · have hc' : k.pxCurrentTCB = some t' := hcur₃.symm.trans ht'
      exact I.alive t' hc' ((hgone₃ t' (C.current_mem hc')).mp he)
    · have hne : t' ≠ t := by
        rintro rfl
        cases hstate.symm.trans hp
      have hy' : k.xYieldPending = false := by
        rw [← hy]
        show _ = k₃.xYieldPending
        rw [hb.rest]
      have hq' : k.currentPriority = some q := by
        rw [← hq]
        show _ = k₃.currentPriority
        rw [hb.rest]
        rfl
      exact I.settled hy' t' ht' p ((hb.others t' hne).1.symm.trans hp) q hq'

/-- **`vTaskResume`** readies a task that was suspended, and no other. -/
theorem Inv.resume (I : Inv k (some i) c A) (ht : t ∈ c) :
    ∃ k', k.vTaskResume t = some k' ∧ Inv k' (some i) c A ∧
      (k'.task A t = if k.pxCurrentTCB ≠ some t ∧ k.status A t = .suspended ∧ k.eventList t = none
        then ⟨.ready, none, k.uxPriority t⟩ else k.task A t) ∧
      ∀ t' ∈ c, t' ≠ t → k'.task A t' = k.task A t' := by
  have C := I.core
  unfold Kernel.vTaskResume
  by_cases hcur : some t ≠ k.pxCurrentTCB
  · rw [if_pos hcur]
    by_cases hsus : k.stateList t = some .xSuspendedTaskList ∧ k.eventList t = none
    · obtain ⟨hl, he⟩ := hsus
      have hblocked : k.Blocked t := .inr (.inr hl)
      have htrue : k.prvTaskIsTaskSuspended t = true := by
        unfold Kernel.prvTaskIsTaskSuspended
        rw [show k.container _ = _ from hl, show k.container _ = _ from he]
        rfl
      obtain ⟨f, L⟩ := C.listed
      obtain ⟨k₁, k₂, hk₁, hk₂, r⟩ := L.ready_delayed ht (C.prio t ht) hl
      -- the task is in no event list, so that there is none to leave
      have hk₂₁ : k₂ = k₁ := by
        obtain ⟨m₁, hm₁, hk₁'⟩ := Option.bind_eq_some_iff.mp hk₁
        obtain rfl := Option.some.inj hk₁'
        obtain ⟨p, -, hp⟩ := Option.bind_eq_some_iff.mp hm₁
        obtain rfl := Option.some.inj hp
        unfold Kernel.leaveEventList at hk₂
        have hnone : ∀ m : Lists TaskItem TaskList, m.pxContainer
            = Function.update k.lists.pxContainer (.xStateListItem t) none →
            ({ k with lists := m } : Kernel).container (.xEventListItem t) = none := by
          intro m hm
          show m.pxContainer _ = none
          rw [hm, Function.update_of_ne (fun he => by cases he)]
          exact he
        rw [hnone _ rfl] at hk₂
        exact (Option.some.inj hk₂).symm
      rw [hk₂₁] at r
      rw [if_pos htrue, hk₁]
      generalize hk₃ : k₁.prvAddTaskToReadyList t = k₃ at r
      have htick : k₃.xTickCount = k.xTickCount := by rw [r.rest]
      have hgone : ∀ t' ∈ c, k₃.stateList t' = some .xTasksWaitingTermination ↔
          k.stateList t' = some .xTasksWaitingTermination := by
        intro t' _
        by_cases he : t' = t
        · rw [he, r.stateList, hl]
          constructor
          · intro h
            cases h
          · intro h
            cases h
        · rw [(r.others t' he).1]
      have hprio : k₃.uxPriority = k.uxPriority := by rw [r.rest]
      have S₃ : Sound k₃ (some i) c A := by
        refine I.toSound.keep (by rw [htick]; exact r.core C ht) (htick.trans I.clock)
          (by rw [r.rest]; exact I.small) (fun h => ?_) (by rw [r.rest]) (by rw [r.rest])
          (fun h t' ht' he => ?_) hgone
        · rw [r.rest] at h ⊢
          exact (I.caught h).1
        · rw [r.rest] at h
          by_cases hne : t' = t
          · rw [hne, r.eventList] at he
            cases he
          · rw [(r.others t' hne).2.1] at he
            exact (I.caught h).2 t' ht' he
      obtain ⟨k', hk', I', u, hprio'⟩ := S₃.yieldIfHigher (t := t)
        (fun t' ht' he => by
          have hc' : k.pxCurrentTCB = some t' := by
            rw [r.rest] at ht'
            exact ht'
          exact I.alive t' hc' ((hgone t' (C.current_mem hc')).mp he))
        (fun hy t' ht' hne p hp q hq => by
          rw [(r.others t' hne).1] at hp
          have hy' : k.xYieldPending = false := by
            rw [r.rest] at hy
            exact hy
          have hq' : k.currentPriority = some q := by
            rw [← hq, r.rest]
            rfl
          exact I.settled hy' t' ht' p hp q hq') ht
      refine ⟨k', ?_, I', ?_, fun t' ht' hne => ?_⟩
      · rw [← hk₃] at hk'
        exact hk'
      · rw [if_pos ⟨fun he => hcur he.symm, Kernel.status_suspended hl, he⟩, u.task hprio']
        unfold Kernel.task
        rw [Kernel.status_ready r.stateList, r.eventList, hprio]
      · rw [u.task hprio']
        obtain ⟨h1, h2, h3⟩ := r.others t' hne
        unfold Kernel.task
        rw [Kernel.status_congr h1 h3 (by rw [r.rest]) (by rw [r.rest]), h2, hprio]
    · have hfalse : k.prvTaskIsTaskSuspended t = false := by
        unfold Kernel.prvTaskIsTaskSuspended
        by_contra htrue
        rw [Bool.not_eq_false, Bool.and_eq_true, Bool.and_eq_true, decide_eq_true_eq,
          Option.isNone_iff_eq_none] at htrue
        exact hsus ⟨htrue.1.1, htrue.2⟩
      refine ⟨k, by rw [hfalse]; rfl, I, ?_, fun _ _ _ => rfl⟩
      rw [if_neg fun h => hsus ⟨Kernel.suspended_of_status h.2.1, h.2.2⟩]
  · rw [if_neg hcur]
    refine ⟨k, rfl, I, ?_, fun _ _ _ => rfl⟩
    rw [if_neg fun h => hcur fun he => h.1 he.symm]

end FreeRtos

end MelonSoc
