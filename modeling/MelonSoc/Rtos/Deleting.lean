import MelonSoc.Rtos.Joining

set_option autoImplicit false

/-! # Priorities and deletion

A task of another priority stands in another ready list, if it is ready; a task that is deleted is
no longer known once all its items are out of the lists.
-/

namespace MelonSoc

namespace FreeRtos

open FreeRtos.Lists Kernel

variable {k k₁ k₂ k' : Kernel} {m m' : Lists TaskItem TaskList}
  {f : TaskList → Option (Wheel TaskItem)} {idle : Option Tcb} {i : Tcb} {c : Finset Tcb}
  {l : TaskList} {t : Tcb} {A b p n : Nat}

/-! ## Deletion -/

theorem Listed.forget (L : Listed m f c) (hs : m.pxContainer (.xStateListItem t) = none)
    (he : m.pxContainer (.xEventListItem t) = none) : Listed m f (c.erase t) := by
  have s := L.shown
  have hnone : ∀ i : TaskItem, i.pvOwner = t → m.pxContainer i = none := by
    intro i hi
    cases i with
    | xStateListItem t' =>
        obtain rfl : t' = t := hi
        exact hs
    | xEventListItem t' =>
        obtain rfl : t' = t := hi
        exact he
  refine ⟨⟨s.ring, s.index, s.count, s.bound, s.mark, s.nodup, fun l w hw i hi => ?_,
    fun i l hi => s.container i l (Finset.mem_of_mem_erase hi), s.small⟩, L.init, L.sorted, ?_⟩
  · have hk := s.known l w hw i hi
    have hc := (s.container i l hk).mpr ⟨w, hw, hi⟩
    refine Finset.mem_erase.mpr ⟨fun ho => ?_, hk⟩
    rw [hnone i ho] at hc
    cases hc
  · have hcard : (c.erase t).card ≤ c.card := Finset.card_le_card (Finset.erase_subset t c)
    have hroom := L.room
    omega

/-- A task leaves the kernel. -/
structure Left (k k' : Kernel) (t : Tcb) (c : Finset Tcb) : Prop where
  rest : k' = { k with
    lists := k'.lists, uxCurrentNumberOfTasks := k.uxCurrentNumberOfTasks - 1
    uxDeletedTasksWaitingCleanUp := k'.uxDeletedTasksWaitingCleanUp
    xNextTaskUnblockTime := k'.xNextTaskUnblockTime }
  listed : ∃ f, Listed k'.lists f (c.erase t)
  others : ∀ t', t' ≠ t → k'.stateList t' = k.stateList t' ∧ k'.eventList t' = k.eventList t' ∧
    k'.wakeTime t' = k.wakeTime t'
  next : ∀ t' ∈ c.erase t, k.stateList t' = some k.pxDelayedTaskList →
    k'.xNextTaskUnblockTime ≤ k.wakeTime t'

theorem Left.task (h : Left k k' t c) {t' : Tcb} (hne : t' ≠ t) : k'.task A t' = k.task A t' := by
  obtain ⟨h1, h2, h3⟩ := h.others t' hne
  unfold Kernel.task
  rw [Kernel.status_congr h1 h3 (by rw [h.rest]) (by rw [h.rest]), h2, h.rest]

theorem Core.leave (C : Core k idle c b) (h : Left k k' t c) (ht : t ∈ c)
    (hcur : k.pxCurrentTCB ≠ some t) (hidle : idle ≠ some t) : Core k' idle (c.erase t) b := by
  have hd : k'.pxDelayedTaskList = k.pxDelayedTaskList := by rw [h.rest]
  have ho : k'.pxOverflowDelayedTaskList = k.pxOverflowDelayedTaskList := by rw [h.rest]
  have hprio : k'.uxPriority = k.uxPriority := by rw [h.rest]
  have hmem : ∀ t' ∈ c.erase t, t' ≠ t ∧ t' ∈ c := fun t' ht' => Finset.mem_erase.mp ht'
  refine ⟨h.listed, ?_, ?_, ?_, ?_, ?_, ?_, ?_, ?_, ?_, ?_, ?_, ?_⟩
  · obtain ⟨r, hr, hc⟩ := C.current
    refine ⟨r, Finset.mem_erase.mpr ⟨fun he => hcur (he ▸ hc), hr⟩, ?_⟩
    rw [h.rest]
    exact hc
  · intro t' ht'
    obtain ⟨hne, hc⟩ := hmem t' ht'
    rw [(h.others t' hne).1]
    exact C.placed t' hc
  · intro t' ht' l hl
    obtain ⟨hne, hc⟩ := hmem t' ht'
    obtain ⟨h1, h2, -⟩ := h.others t' hne
    unfold Kernel.Blocked
    rw [h1]
    exact C.waits t' hc l (h2.symm.trans hl)
  · intro t' ht'
    rw [hprio]
    exact C.prio t' (hmem t' ht').2
  · intro t' ht' q hq
    obtain ⟨hne, hc⟩ := hmem t' ht'
    rw [(h.others t' hne).1] at hq
    rw [hprio, h.rest]
    exact C.ready t' hc q hq
  · rw [h.rest]
    exact C.top
  · rw [hd, ho]
    exact C.delayed
  · rw [h.rest]
    exact C.ticks
  · intro t' ht' hl
    obtain ⟨hne, hc⟩ := hmem t' ht'
    obtain ⟨h1, -, h3⟩ := h.others t' hne
    rw [h1, hd] at hl
    rw [h3]
    exact ⟨(C.later t' hc hl).1, h.next t' ht' hl⟩
  · intro t' ht' hl
    obtain ⟨hne, hc⟩ := hmem t' ht'
    obtain ⟨h1, -, h3⟩ := h.others t' hne
    rw [h1, ho] at hl
    rw [h3, h.rest]
    exact C.wrapped t' hc hl
  · rw [Finset.card_erase_of_mem ht, h.rest]
    show k.uxCurrentNumberOfTasks - 1 = _
    rw [C.count]
  · intro i hi
    obtain ⟨h1, h2, h3⟩ := C.idle_ready i hi
    have hne : i ≠ t := fun he => hidle (by rw [hi, he])
    rw [hprio, (h.others i hne).1]
    exact ⟨Finset.mem_erase.mpr ⟨hne, h1⟩, h2, h3⟩

/-- The rest of the kernel does not notice that a task leaves. -/
theorem Inv.leave (I : Inv k (some i) c A) (h : Left k k' t c) (ht : t ∈ c) (hi : t ≠ i)
    (hcur : k.pxCurrentTCB ≠ some t)
    (hcount : k'.uxDeletedTasksWaitingCleanUp = ((gone c k).erase t).card) :
    Inv k' (some i) (c.erase t) A := by
  have hmem : ∀ t' ∈ c.erase t, t' ≠ t ∧ t' ∈ c := fun t' ht' => Finset.mem_erase.mp ht'
  have htick : k'.xTickCount = k.xTickCount := by rw [h.rest]
  have hs : k'.uxSchedulerSuspended = k.uxSchedulerSuspended := by rw [h.rest]
  have hpend : k'.xPendedTicks = k.xPendedTicks := by rw [h.rest]
  have hcur' : k'.pxCurrentTCB = k.pxCurrentTCB := by rw [h.rest]
  refine ⟨⟨?_, htick.trans I.clock, fun hz => ⟨?_, fun t' ht' he => ?_⟩, ?_, ?_, ?_,
    fun he => by cases he⟩, fun t' ht' => ?_, fun hy t' ht' q hq r hr => ?_⟩
  · rw [htick]
    exact I.core.leave h ht hcur fun he => hi (Option.some.inj he).symm
  · rw [hpend]
    exact (I.caught (hs.symm.trans hz)).1
  · obtain ⟨hne, hc⟩ := hmem t' ht'
    exact (I.caught (hs.symm.trans hz)).2 t' hc ((h.others t' hne).2.1.symm.trans he)
  · rw [hs, hpend]
    exact I.small
  · rw [h.rest]
    exact I.running
  · rw [hcount]
    congr 1
    unfold gone
    rw [← Finset.filter_erase]
    exact (Finset.filter_congr fun t' ht' => by rw [(h.others t' (hmem t' ht').1).1]).symm
  · have hc := hcur'.symm.trans ht'
    have hne : t' ≠ t := fun he => hcur (he ▸ hc)
    rw [(h.others t' hne).1]
    exact I.alive t' hc
  · obtain ⟨hne, hc⟩ := hmem t' ht'
    have hy' : k.xYieldPending = false := by
      rw [h.rest] at hy
      exact hy
    have hr' : k.currentPriority = some r := by
      rw [← hr, h.rest]
      rfl
    exact I.settled hy' t' hc q ((h.others t' hne).1.symm.trans hq) r hr'

/-- **`vTaskDelete`** of another task: it is gone at once. -/
theorem Inv.deleteOther (I : Inv k (some i) c A) (ht : t ∈ c) (hi : t ≠ i)
    (hgone : k.stateList t ≠ some .xTasksWaitingTermination) (hcur : k.pxCurrentTCB ≠ some t) :
    ∃ k', k.vTaskDelete t = some k' ∧ Inv k' (some i) (c.erase t) A ∧
      ∀ t' ∈ c.erase t, k'.task A t' = k.task A t' := by
  have C := I.core
  obtain ⟨f, L⟩ := C.listed
  obtain ⟨l, hl, -⟩ := C.placed t ht
  obtain ⟨k₁, k₂, hk₁, hk₂, o⟩ := L.takeOut ht hl
  obtain ⟨f₂, L₂⟩ := o.listed
  have hpos : 0 < c.card := Finset.card_pos.mpr ⟨t, ht⟩
  have hroom := L.room
  have hcount₂ : k₂.uxCurrentNumberOfTasks = k.uxCurrentNumberOfTasks := by rw [o.beside.rest]
  have hcur₂ : k₂.pxCurrentTCB = k.pxCurrentTCB := by rw [o.beside.rest]
  have hd₂ : k₂.pxDelayedTaskList = k.pxDelayedTaskList := by rw [o.beside.rest]
  have hsub : sub32 k₂.uxCurrentNumberOfTasks 1 = k.uxCurrentNumberOfTasks - 1 := by
    rw [hcount₂, C.count]
    unfold sub32
    omega
  have L₃ := L₂.forget o.state o.event
  have hleft : Left k (prvResetNextTaskUnblockTime
      { k₂ with uxCurrentNumberOfTasks := k.uxCurrentNumberOfTasks - 1 }) t c := by
    refine ⟨?_, ⟨f₂, L₃⟩, fun t' hne => o.beside.others t' hne, fun t' ht' hl' => ?_⟩
    · unfold Kernel.prvResetNextTaskUnblockTime
      rw [o.beside.rest]
    · obtain ⟨hne, hc⟩ := Finset.mem_erase.mp ht'
      obtain ⟨h1, -, h3⟩ := o.beside.others t' hne
      rw [← h3]
      refine Listed.reset_le (k := { k₂ with
        uxCurrentNumberOfTasks := k.uxCurrentNumberOfTasks - 1 }) L₃ ?_ ht' ?_
      · show k₂.pxDelayedTaskList.IsDelayed
        rw [hd₂]
        exact C.isDelayed
      · show k₂.stateList t' = some k₂.pxDelayedTaskList
        rw [h1, hd₂]
        exact hl'
  have hnot : t ∉ gone c k := fun hm => hgone (Finset.mem_filter.mp hm).2
  refine ⟨_, ?_, I.leave hleft ht hi hcur ?_, fun t' ht' =>
    hleft.task (Finset.mem_erase.mp ht').1⟩
  · unfold Kernel.vTaskDelete
    simp only [hk₁, hk₂, Option.bind_eq_bind, Option.bind_some]
    rw [if_neg fun h => hcur (by rw [← hcur₂]; exact h.2.symm), hsub]
  · rw [Finset.erase_eq_of_notMem hnot, ← I.cleanUp]
    show k₂.uxDeletedTasksWaitingCleanUp = _
    rw [o.beside.rest]

theorem Core.status_deleted (C : Core k idle c b) (ht : t ∈ c)
    (hl : k.stateList t = some .xTasksWaitingTermination) (now : Nat) :
    k.status now t = .deleted := by
  have hno : ¬ TaskList.xTasksWaitingTermination.IsDelayed := fun hd => by
    rcases hd with he | he <;> cases he
  rcases C.status_cases ht now with ⟨h1, -⟩ | ⟨h1, -⟩ | ⟨-, -, ⟨⟨q, h1⟩, -⟩ | ⟨h1, -⟩ | ⟨-, h2⟩⟩
  · exact absurd C.isDelayed (Option.some.inj (hl.symm.trans h1) ▸ hno)
  · exact absurd C.isDelayed_overflow (Option.some.inj (hl.symm.trans h1) ▸ hno)
  · cases hl.symm.trans h1
  · cases hl.symm.trans h1
  · exact h2

/-- **`vTaskDelete`** of the running task: it does not run any more, and waits to be released. -/
theorem Inv.deleteSelf (I : Inv k (some i) c A) (hi : t ≠ i) (hcur : k.pxCurrentTCB = some t)
    (hs : k.uxSchedulerSuspended = 0) :
    ∃ k', k.vTaskDelete t = some k' ∧ Inv k' (some i) c A ∧ RunsHighest k' c ∧
      k'.task A t = ⟨.deleted, none, k.uxPriority t⟩ ∧
      ∀ t' ∈ c, t' ≠ t → k'.task A t' = k.task A t' := by
  have C := I.core
  have ht := C.current_mem hcur
  have hgone := I.alive t hcur
  obtain ⟨f, L⟩ := C.listed
  obtain ⟨l, hl, -⟩ := C.placed t ht
  obtain ⟨k₁, k₂, hk₁, hk₂, o⟩ := L.takeOut ht hl
  have hno : ¬ TaskList.xTasksWaitingTermination.IsDelayed := fun hd => by
    rcases hd with he | he <;> cases he
  obtain ⟨hb, hnext, hstate, hevent, f₃, L₃⟩ :=
    o.putIn ht (l := .xTasksWaitingTermination) trivial hno
  have hcur₂ : k₂.pxCurrentTCB = some t := by
    rw [o.beside.rest]
    exact hcur
  have hrun₂ : k₂.xSchedulerRunning = true := by
    rw [o.beside.rest]
    exact I.running
  generalize hk₃ : k₂.listInsertEnd .xTasksWaitingTermination (.xStateListItem t) = k₃ at *
  have C₃ := C.retire hb hnext L₃ hstate hevent trivial (fun p he => by cases he) hno
    fun h => hi (Option.some.inj h).symm
  have hs₃ : k₃.uxSchedulerSuspended = 0 := by
    rw [hb.rest]
    exact hs
  have htick₃ : k₃.xTickCount = k.xTickCount := by rw [hb.rest]
  have hp₃ : k₃.xPendedTicks = 0 := by
    rw [hb.rest]
    exact (I.caught hs).1
  have hroom := L.room
  have hgone₃ : gone c k₃ = insert t (gone c k) := by
    unfold gone
    ext t'
    rw [Finset.mem_filter, Finset.mem_insert, Finset.mem_filter]
    by_cases he : t' = t
    · rw [he]
      exact ⟨fun _ => .inl rfl, fun _ => ⟨ht, hstate⟩⟩
    · rw [(hb.others t' he).1]
      exact ⟨.inr, fun h => h.resolve_left he⟩
  have hcard : (gone c k).card ≤ c.card := Finset.card_le_card (Finset.filter_subset _ c)
  have hadd : add32 k₃.uxDeletedTasksWaitingCleanUp 1 = (gone c k₃).card := by
    have hnot : t ∉ gone c k := fun hm => hgone (Finset.mem_filter.mp hm).2
    rw [hgone₃, Finset.card_insert_of_notMem hnot, ← I.cleanUp]
    have hsame : k₃.uxDeletedTasksWaitingCleanUp = k.uxDeletedTasksWaitingCleanUp := by
      rw [hb.rest]
    rw [hsame, I.cleanUp]
    exact Nat.mod_eq_of_lt (by omega)
  have S₄ : Sound { k₃ with uxDeletedTasksWaitingCleanUp := (gone c k₃).card } (some i) c A := by
    refine ⟨?_, htick₃.trans I.clock, fun _ => ⟨hp₃, fun t' ht' he => ?_⟩, ?_, ?_, rfl,
      fun h => by cases h⟩
    · have C₄ : Core { k₃ with uxDeletedTasksWaitingCleanUp := (gone c k₃).card } (some i) c
          (k.xTickCount + 1) := ⟨C₃.listed, C₃.current, C₃.placed, C₃.waits, C₃.prio, C₃.ready,
        C₃.top, C₃.delayed, C₃.ticks, C₃.later, C₃.wrapped, C₃.count, C₃.idle_ready⟩
      rw [← htick₃] at C₄
      exact C₄
    · by_cases hne : t' = t
      · rw [hne] at he
        cases hevent.symm.trans he
      · exact (I.caught hs).2 t' ht' ((hb.others t' hne).2.1.symm.trans he)
    · show k₃.uxSchedulerSuspended < _ ∧ k₃.xPendedTicks < _
      rw [hs₃, hp₃]
      decide
    · show k₃.xSchedulerRunning = _
      rw [hb.rest]
      exact I.running
  obtain ⟨k', hk', I', y⟩ := S₄.yield fun hne => absurd hs₃ hne
  refine ⟨k', ?_, I', y.runsHighest hs₃, ?_, fun t' _ hne => ?_⟩
  · unfold Kernel.vTaskDelete
    simp only [hk₁, hk₂, Option.bind_eq_bind, Option.bind_some]
    rw [if_pos ⟨hrun₂, hcur₂.symm⟩, hk₃, hadd, show configAssert _ = some () from
      if_pos (by rw [hs₃]; rfl)]
    exact hk'
  · rw [y.unmoved.task (by rw [y.rest])]
    show k₃.task A t = _
    unfold Kernel.task
    rw [hevent, hb.rest]
    congr 1
    rw [← hb.rest]
    exact C₃.status_deleted ht hstate A
  · rw [y.unmoved.task (by rw [y.rest])]
    exact hb.task hne

/-- **`prvCheckTasksWaitingTermination`** releases the tasks that deleted themselves, and no
other. -/
theorem Inv.checkTermination (n : Nat) (I : Inv k (some i) c A) (hn : (gone c k).card = n) :
    ∃ ts k', k.prvCheckTasksWaitingTermination n = some (ts, k') ∧
      (∀ t, t ∈ ts ↔ t ∈ gone c k) ∧ ts.Nodup ∧ Inv k' (some i) (c \ gone c k) A ∧
      ∀ t' ∈ c \ gone c k, k'.task A t' = k.task A t' := by
  induction n generalizing k c with
  | zero =>
      have hempty : gone c k = ∅ := Finset.card_eq_zero.mp hn
      refine ⟨[], k, rfl, fun t => ?_, List.nodup_nil, ?_, fun _ _ => rfl⟩
      · rw [hempty]
        simp
      · rw [hempty, Finset.sdiff_empty]
        exact I
  | succ n ih =>
      have C := I.core
      obtain ⟨f, L⟩ := C.listed
      obtain ⟨w, hw⟩ := L.init .xTasksWaitingTermination trivial
      obtain ⟨t₀, ht₀⟩ := Finset.card_pos.mp (by rw [hn]; exact Nat.succ_pos n)
      have hne : k.listIsEmpty .xTasksWaitingTermination = false := by
        rw [← Bool.not_eq_true]
        intro he
        obtain ⟨h1, h2⟩ := Finset.mem_filter.mp ht₀
        exact (L.isEmpty_iff hw).mp he (.xStateListItem t₀) h1 h2
      obtain ⟨j, is, -, hhead, hj, hjc, -⟩ := L.head hw hne
      obtain ⟨hitem, hstate⟩ := C.state_item hj hjc trivial
      generalize htj : j.pvOwner = t at hj hitem hstate
      have hevent : k.eventList t = none := by
        cases he : k.eventList t with
        | none => rfl
        | some l => exact absurd hstate (C.waits t hj l he).2.not_deleted
      obtain ⟨m₁, f₁, hk₁, hv₁, hc₁, L₁, -⟩ := L.removeItem (i := .xStateListItem t) hj hstate
      have hcard : 0 < c.card := Finset.card_pos.mpr ⟨t, hj⟩
      have hroom := L.room
      have hsub : sub32 k.uxCurrentNumberOfTasks 1 = k.uxCurrentNumberOfTasks - 1 := by
        rw [C.count]
        unfold sub32
        omega
      have htg : t ∈ gone c k := Finset.mem_filter.mpr ⟨hj, hstate⟩
      have hgc : (gone c k).card ≤ c.card := Finset.card_le_card (Finset.filter_subset _ c)
      have hsub' : sub32 k.uxDeletedTasksWaitingCleanUp 1 = ((gone c k).erase t).card := by
        rw [I.cleanUp, Finset.card_erase_of_mem htg]
        unfold sub32
        omega
      have hi : t ≠ i := by
        rintro rfl
        cases hstate.symm.trans (C.idle_ready t rfl).2.2
      have hcur : k.pxCurrentTCB ≠ some t := fun he => I.alive t he hstate
      have hsn : m₁.pxContainer (.xStateListItem t) = none := by rw [hc₁, Function.update_self]
      have hen : m₁.pxContainer (.xEventListItem t) = none := by
        rw [hc₁, Function.update_of_ne (fun he => by cases he)]
        exact hevent
      have hleft : Left k { k with
          lists := m₁, uxCurrentNumberOfTasks := k.uxCurrentNumberOfTasks - 1
          uxDeletedTasksWaitingCleanUp := ((gone c k).erase t).card } t c := by
        refine ⟨rfl, ⟨f₁, L₁.forget hsn hen⟩, fun t' hne => ⟨?_, ?_, congrFun hv₁ _⟩,
          fun t' ht' hl => (C.later t' (Finset.mem_of_mem_erase ht') hl).2⟩
        · show m₁.pxContainer _ = _
          rw [hc₁, Function.update_of_ne (fun he => hne (by cases he; rfl))]
          rfl
        · show m₁.pxContainer _ = _
          rw [hc₁, Function.update_of_ne (fun he => by cases he)]
          rfl
      have I' := I.leave hleft hj hi hcur rfl
      generalize hk₂ : ({ k with
          lists := m₁, uxCurrentNumberOfTasks := k.uxCurrentNumberOfTasks - 1
          uxDeletedTasksWaitingCleanUp := ((gone c k).erase t).card } : Kernel) = k₂ at hleft I'
      have hgone : gone (c.erase t) k₂ = (gone c k).erase t := by
        unfold gone
        rw [← Finset.filter_erase]
        exact Finset.filter_congr fun t' ht' => by
          rw [(hleft.others t' (Finset.mem_erase.mp ht').1).1]
      obtain ⟨ts, k', hrun, hts, hnodup, I'', htask⟩ := ih I' (by
        rw [hgone, Finset.card_erase_of_mem htg, hn]
        rfl)
      have hset : c.erase t \ gone (c.erase t) k₂ = c \ gone c k := by
        rw [hgone]
        ext t'
        simp only [Finset.mem_sdiff, Finset.mem_erase]
        constructor
        · rintro ⟨⟨h1, h2⟩, h3⟩
          exact ⟨h2, fun h => h3 ⟨h1, h⟩⟩
        · rintro ⟨h1, h2⟩
          exact ⟨⟨fun he => h2 (he ▸ htg), h1⟩, fun h => h2 h.2⟩
      rw [hset] at I'' htask
      refine ⟨t :: ts, k', ?_, fun t' => ?_, ?_, I'', fun t' ht' => ?_⟩
      · unfold Kernel.prvCheckTasksWaitingTermination
        simp only [hhead, htj, hk₁, Option.bind_eq_bind, Option.bind_some]
        rw [hsub, hsub', hk₂, hrun]
        rfl
      · rw [List.mem_cons, hts, hgone, Finset.mem_erase]
        by_cases he : t' = t
        · rw [he]
          exact ⟨fun _ => htg, fun _ => .inl rfl⟩
        · exact ⟨fun h => (h.resolve_left he).2, fun h => .inr ⟨he, h⟩⟩
      · refine List.nodup_cons.mpr ⟨fun h => ?_, hnodup⟩
        rw [hts, hgone] at h
        exact (Finset.mem_erase.mp h).1 rfl
      · rw [htask t' ht']
        exact hleft.task fun he => (Finset.mem_sdiff.mp ht').2 (he ▸ htg)

/-! ## Priorities -/

/-- The task `t` has the priority `p`, and stands in the ready list of that priority if it is
ready. -/
structure Reprioritised (k k' : Kernel) (t : Tcb) (p : Nat) (c : Finset Tcb) : Prop where
  rest : k' = { k with
    lists := k'.lists, uxPriority := Function.update k.uxPriority t p
    uxTopReadyPriority := k'.uxTopReadyPriority }
  listed : ∃ f, Listed k'.lists f c
  others : ∀ t', t' ≠ t → k'.stateList t' = k.stateList t'
  event : ∀ t', k'.eventList t' = k.eventList t'
  wake : ∀ t', k'.wakeTime t' = k.wakeTime t'
  state : (k'.stateList t = some (.pxReadyTasksLists p) ∧ p ≤ k'.uxTopReadyPriority ∧
      ∃ q, k.stateList t = some (.pxReadyTasksLists q)) ∨
    (k'.stateList t = k.stateList t ∧ ∀ q, k.stateList t ≠ some (.pxReadyTasksLists q))
  top : k.uxTopReadyPriority ≤ k'.uxTopReadyPriority ∧ k'.uxTopReadyPriority < configMaxPriorities

theorem Reprioritised.priority (r : Reprioritised k k' t p c) {t' : Tcb} (hne : t' ≠ t) :
    k'.uxPriority t' = k.uxPriority t' := by
  rw [r.rest]
  exact Function.update_of_ne hne _ _

theorem Reprioritised.priority_self (r : Reprioritised k k' t p c) : k'.uxPriority t = p := by
  rw [r.rest]
  exact Function.update_self ..

/-- Only ready lists are exchanged. -/
theorem Reprioritised.stateList_iff (r : Reprioritised k k' t p c)
    (hl : ∀ q, l ≠ .pxReadyTasksLists q) (t' : Tcb) :
    k'.stateList t' = some l ↔ k.stateList t' = some l := by
  by_cases he : t' = t
  · rw [he]
    rcases r.state with ⟨h1, -, q, h2⟩ | ⟨h1, -⟩
    · rw [h1, h2]
      exact ⟨fun h => absurd (Option.some.inj h).symm (hl _),
        fun h => absurd (Option.some.inj h).symm (hl _)⟩
    · rw [h1]
  · rw [r.others t' he]

theorem Core.reprioritise (C : Core k idle c b) (r : Reprioritised k k' t p c)
    (hp : p < configMaxPriorities) (hidle : idle ≠ some t) : Core k' idle c b := by
  have hd : k'.pxDelayedTaskList = k.pxDelayedTaskList := by rw [r.rest]
  have ho : k'.pxOverflowDelayedTaskList = k.pxOverflowDelayedTaskList := by rw [r.rest]
  have hnd : ∀ {l : TaskList}, l.IsDelayed → ∀ q, l ≠ .pxReadyTasksLists q := by
    intro l hl q he
    rcases hl with rfl | rfl <;> cases he
  refine ⟨r.listed, ?_, ?_, ?_, ?_, ?_, r.top.2, ?_, ?_, ?_, ?_, ?_, ?_⟩
  · rw [r.rest]
    exact C.current
  · intro t' ht'
    by_cases he : t' = t
    · rw [he] at ht' ⊢
      rcases r.state with ⟨h1, -⟩ | ⟨h1, -⟩
      · exact ⟨_, h1, hp⟩
      · rw [h1]
        exact C.placed t ht'
    · rw [r.others t' he]
      exact C.placed t' ht'
  · intro t' ht' l hl
    obtain ⟨h1, h2⟩ := C.waits t' ht' l ((r.event t').symm.trans hl)
    refine ⟨h1, ?_⟩
    unfold Kernel.Blocked at h2 ⊢
    rw [r.stateList_iff (fun q he => by cases he), r.stateList_iff (fun q he => by cases he),
      r.stateList_iff (fun q he => by cases he)]
    exact h2
  · intro t' ht'
    by_cases he : t' = t
    · rw [he, r.priority_self]
      exact hp
    · rw [r.priority he]
      exact C.prio t' ht'
  · intro t' ht' q hq
    by_cases he : t' = t
    · rw [he] at hq ⊢
      rw [r.priority_self]
      rcases r.state with ⟨h1, h2, -⟩ | ⟨h1, h2⟩
      · obtain rfl := TaskList.pxReadyTasksLists.inj (Option.some.inj (h1.symm.trans hq))
        exact ⟨rfl, h2⟩
      · exact absurd (h1.symm.trans hq) (h2 q)
    · rw [r.others t' he] at hq
      rw [r.priority he]
      obtain ⟨h1, h2⟩ := C.ready t' ht' q hq
      exact ⟨h1, Nat.le_trans h2 r.top.1⟩
  · rw [hd, ho]
    exact C.delayed
  · rw [r.rest]
    exact C.ticks
  · intro t' ht' hl
    rw [hd, r.stateList_iff (hnd C.isDelayed)] at hl
    rw [r.wake, r.rest]
    exact C.later t' ht' hl
  · intro t' ht' hl
    rw [ho, r.stateList_iff (hnd C.isDelayed_overflow)] at hl
    rw [r.wake, r.rest]
    exact C.wrapped t' ht' hl
  · rw [r.rest]
    exact C.count
  · intro i hi
    obtain ⟨h1, h2, h3⟩ := C.idle_ready i hi
    have hne : i ≠ t := fun he => hidle (by rw [hi, he])
    rw [r.priority hne, r.others i hne]
    exact ⟨h1, h2, h3⟩

/-- The value of an event list item is no tick. -/
theorem wakeTime_setEventValue (t' : Tcb) (v : Nat) (m : Lists TaskItem TaskList) :
    (listSetListItemValue (.xEventListItem t) v m).xItemValue (.item (.xStateListItem t'))
      = m.xItemValue (.item (.xStateListItem t')) := by
  have h : (listSetListItemValue (.xEventListItem t) v m).xItemValue
      = Function.update m.xItemValue (.item (.xEventListItem t)) v := rfl
  rw [h]
  exact Function.update_of_ne (fun he => by cases he) _ _

/-- The priority of the task is another, and the value of its event list item if that is not in
use. -/
def withPriority (t : Tcb) (p : Nat) (k : Kernel) : Kernel :=
  if k.lists.xItemValue (.item (.xEventListItem t)) &&& taskEventListItemValueInUse = 0 then
    { k with
      uxPriority := Function.update k.uxPriority t p
      lists := listSetListItemValue (.xEventListItem t) (configMaxPriorities - p) k.lists }
  else { k with uxPriority := Function.update k.uxPriority t p }

/-- What `vTaskPrioritySet` does before it yields. -/
def setPriority (t : Tcb) (p : Nat) (k : Kernel) : Option Kernel :=
  if (withPriority t p k).container (.xStateListItem t)
      = some (.pxReadyTasksLists (k.uxPriority t)) then
    ((withPriority t p k).listRemoveItem (.xStateListItem t)).map (prvAddTaskToReadyList t)
  else some (withPriority t p k)

theorem Core.reprioritised (C : Core k idle c b) (ht : t ∈ c) (hp : p < configMaxPriorities) :
    ∃ k', setPriority t p k = some k' ∧ Reprioritised k k' t p c := by
  obtain ⟨f, L⟩ := C.listed
  have hv : configMaxPriorities - p < 2 ^ 32 := by
    unfold configMaxPriorities
    omega
  have hself : Function.update k.uxPriority t p t = p := Function.update_self ..
  -- the value of the event list item orders no delayed list
  obtain ⟨m₁, hm₁, hc₁, hv₁, L₁⟩ : ∃ m₁ : Lists TaskItem TaskList,
      withPriority t p k = { k with uxPriority := Function.update k.uxPriority t p, lists := m₁ } ∧
      m₁.pxContainer = k.lists.pxContainer ∧
      (∀ t', m₁.xItemValue (.item (.xStateListItem t')) = k.wakeTime t') ∧ Listed m₁ f c := by
    unfold withPriority
    split
    · refine ⟨_, rfl, rfl, fun t' => wakeTime_setEventValue t' _ _, ?_⟩
      refine L.setValue hv ht fun l hl hd => ?_
      rcases (C.waits t ht l hl).1 with rfl | ⟨e, rfl⟩
      · rcases hd with he | he <;> cases he
      · rcases hd with he | he <;> cases he
    · exact ⟨k.lists, rfl, rfl, fun _ => rfl, L⟩
  have hcall : setPriority t p k =
      if ({ k with uxPriority := Function.update k.uxPriority t p, lists := m₁ } :
          Kernel).container (.xStateListItem t) = some (.pxReadyTasksLists (k.uxPriority t)) then
        (({ k with uxPriority := Function.update k.uxPriority t p, lists := m₁ } :
          Kernel).listRemoveItem (.xStateListItem t)).map (prvAddTaskToReadyList t)
      else some { k with uxPriority := Function.update k.uxPriority t p, lists := m₁ } := by
    unfold setPriority
    rw [hm₁]
  have hstate : ({ k with uxPriority := Function.update k.uxPriority t p, lists := m₁ } :
      Kernel).container (.xStateListItem t) = k.stateList t := congrFun hc₁ _
  rw [hcall, hstate]
  by_cases hready : k.stateList t = some (.pxReadyTasksLists (k.uxPriority t))
  · rw [if_pos hready]
    obtain ⟨m₂, f₂, hk₂, hv₂, hc₂, L₂, -⟩ := Listed.removeItem (k := { k with
      uxPriority := Function.update k.uxPriority t p, lists := m₁ }) (i := .xStateListItem t) L₁ ht
      (hstate.trans hready)
    have hp' : Function.update k.uxPriority t p t < configMaxPriorities := by
      rw [hself]
      exact hp
    obtain ⟨f₃, hv₃, hc₃, L₃⟩ := Listed.addReady (k := { k with
      uxPriority := Function.update k.uxPriority t p, lists := m₂ }) (t := t) L₂ ht hp' (by
        show m₂.pxContainer _ = none
        rw [hc₂, Function.update_self])
    rw [hk₂]
    refine ⟨_, rfl, ?_⟩
    generalize hk' : prvAddTaskToReadyList t { k with
      uxPriority := Function.update k.uxPriority t p, lists := m₂ } = k' at hv₃ hc₃ L₃
    have hcont : k'.lists.pxContainer = Function.update k.lists.pxContainer (.xStateListItem t)
        (some (.pxReadyTasksLists p)) := by
      rw [hc₃]
      show Function.update m₂.pxContainer _ (some (TaskList.pxReadyTasksLists
        (Function.update k.uxPriority t p t))) = _
      rw [hself, hc₂, Function.update_idem]
      show Function.update m₁.pxContainer _ _ = _
      rw [hc₁]
    have htop : k'.uxTopReadyPriority
        = if p > k.uxTopReadyPriority then p else k.uxTopReadyPriority := by
      rw [← hk']
      unfold Kernel.prvAddTaskToReadyList Kernel.listInsertEnd
      simp only [hself]
    have hrest : k' = { k with
        lists := k'.lists, uxPriority := Function.update k.uxPriority t p
        uxTopReadyPriority := k'.uxTopReadyPriority } := by
      rw [← hk']
      rfl
    have hct := C.top
    refine ⟨hrest, ⟨f₃, L₃⟩, fun t' hne => ?_, fun t' => ?_, fun t' => ?_, .inl ⟨?_, ?_, _, hready⟩,
      ?_⟩
    · show k'.lists.pxContainer _ = _
      rw [hcont, Function.update_of_ne (fun he => hne (by cases he; rfl))]
      rfl
    · show k'.lists.pxContainer _ = _
      rw [hcont, Function.update_of_ne (fun he => by cases he)]
      rfl
    · show k'.lists.xItemValue _ = _
      rw [hv₃]
      exact (congrFun hv₂ _).trans (hv₁ t')
    · show k'.lists.pxContainer _ = _
      rw [hcont, Function.update_self]
    · rw [htop]
      split <;> omega
    · rw [htop]
      split <;> omega
  · rw [if_neg hready]
    refine ⟨_, rfl, ⟨rfl, ⟨f, L₁⟩, fun t' _ => congrFun hc₁ _, fun t' => congrFun hc₁ _, hv₁,
      .inr ⟨hstate, fun q hq => ?_⟩, Nat.le_refl _, C.top⟩⟩
    rw [(C.ready t ht q hq).1] at hq
    exact hready hq

/-- **`vTaskPrioritySet`** changes the priority, and nothing else that can be seen. -/
theorem Inv.prioritySet (I : Inv k (some i) c A) (ht : t ∈ c) (hi : t ≠ i)
    (hp : p < configMaxPriorities) :
    ∃ k', k.vTaskPrioritySet t p = some k' ∧ Inv k' (some i) c A ∧
      k'.task A t = { k.task A t with priority := p } ∧
      ∀ t' ∈ c, t' ≠ t → k'.task A t' = k.task A t' := by
  have C := I.core
  have hassert : configAssert (decide (p < configMaxPriorities)) = some () :=
    if_pos (decide_eq_true hp)
  obtain ⟨q, hq⟩ := C.currentPriority
  by_cases hsame : k.uxPriority t = p
  · refine ⟨k, ?_, I, ?_, fun _ _ _ => rfl⟩
    · unfold Kernel.vTaskPrioritySet
      simp only [hassert, Option.bind_eq_bind, Option.bind_some]
      rw [if_neg fun h => h hsame]
    · unfold Kernel.task
      rw [hsame]
  obtain ⟨k₁, hk₁, r⟩ := C.reprioritised ht hp
  have C₁ := C.reprioritise r hp fun h => hi (Option.some.inj h).symm
  have htick : k₁.xTickCount = k.xTickCount := by rw [r.rest]
  have hs : k₁.uxSchedulerSuspended = k.uxSchedulerSuspended := by rw [r.rest]
  have hpend : k₁.xPendedTicks = k.xPendedTicks := by rw [r.rest]
  have hcur : k₁.pxCurrentTCB = k.pxCurrentTCB := by rw [r.rest]
  have hgone : ∀ t', k₁.stateList t' = some .xTasksWaitingTermination ↔
      k.stateList t' = some .xTasksWaitingTermination := r.stateList_iff fun q he => by cases he
  have S₁ : Sound k₁ (some i) c A := by
    refine I.toSound.keep (by rw [htick]; exact C₁) (htick.trans I.clock)
      (by rw [hs, hpend]; exact I.small) (fun h => ?_) (by rw [r.rest]) (by rw [r.rest])
      (fun h t' ht' he => ?_) fun t' _ => hgone t'
    · rw [hpend]
      exact (I.caught (hs.symm.trans h)).1
    · exact (I.caught (hs.symm.trans h)).2 t' ht' ((r.event t').symm.trans he)
  have halive : ∀ t', k₁.pxCurrentTCB = some t' →
      k₁.stateList t' ≠ some .xTasksWaitingTermination := fun t' ht' he =>
    I.alive t' (hcur.symm.trans ht') ((hgone t').mp he)
  have hothers : ∀ t', t' ≠ t → k₁.task A t' = k.task A t' := by
    intro t' hne
    unfold Kernel.task
    rw [Kernel.status_congr (r.others t' hne) (r.wake t') (by rw [r.rest]) (by rw [r.rest]),
      r.event, r.priority hne]
  have hself : k₁.task A t = { k.task A t with priority := p } := by
    unfold Kernel.task
    rw [r.event, r.priority_self]
    rcases r.state with ⟨h1, -, s, h2⟩ | ⟨h1, -⟩
    · rw [Kernel.status_ready h1, Kernel.status_ready h2]
    · rw [Kernel.status_congr h1 (r.wake t) (by rw [r.rest]) (by rw [r.rest])]
  have hcall : k.vTaskPrioritySet t p =
      if (if p > k.uxPriority t then some t != k.pxCurrentTCB && p > q
        else some t == k.pxCurrentTCB) = true then k₁.portYield else some k₁ := by
    unfold Kernel.vTaskPrioritySet
    simp only [hassert, hq, Option.bind_eq_bind, Option.bind_some]
    rw [if_pos hsame]
    generalize (if p > k.uxPriority t then some t != k.pxCurrentTCB && decide (p > q)
      else some t == k.pxCurrentTCB) = y
    show (if (withPriority t p k).container (.xStateListItem t)
          = some (.pxReadyTasksLists (k.uxPriority t)) then
        ((withPriority t p k).listRemoveItem (.xStateListItem t)).bind fun k =>
          if y = true then (k.prvAddTaskToReadyList t).portYield
          else some (k.prvAddTaskToReadyList t)
      else if y = true then (withPriority t p k).portYield else some (withPriority t p k)) = _
    unfold setPriority at hk₁
    by_cases h : (withPriority t p k).container (.xStateListItem t)
        = some (.pxReadyTasksLists (k.uxPriority t))
    · rw [if_pos h] at hk₁ ⊢
      obtain ⟨k₃, hk₃, rfl⟩ := Option.map_eq_some_iff.mp hk₁
      rw [hk₃, Option.bind_some]
    · rw [if_neg h] at hk₁ ⊢
      rw [Option.some.inj hk₁]
  rw [hcall]
  by_cases hy : (if p > k.uxPriority t then some t != k.pxCurrentTCB && p > q
      else some t == k.pxCurrentTCB) = true
  · obtain ⟨k', hk', I', y⟩ := S₁.yield fun _ => halive
    rw [if_pos hy]
    exact ⟨k', hk', I', (y.unmoved.task (by rw [y.rest]) t).trans hself,
      fun t' _ hne => (y.unmoved.task (by rw [y.rest]) t').trans (hothers t' hne)⟩
  · rw [if_neg hy]
    refine ⟨k₁, rfl, ⟨S₁, halive, fun hyp t' ht' s hs' u hu => ?_⟩, hself,
      fun t' _ hne => hothers t' hne⟩
    have hyp' : k.xYieldPending = false := by
      rw [r.rest] at hyp
      exact hyp
    obtain ⟨x, hx, hxc⟩ := C.current
    have hqx : q = k.uxPriority x := by
      unfold Kernel.currentPriority at hq
      rw [hxc] at hq
      exact (Option.some.inj hq).symm
    have hux : u = k₁.uxPriority x := by
      unfold Kernel.currentPriority at hu
      rw [hcur, hxc] at hu
      exact (Option.some.inj hu).symm
    have hready : ∀ t' ∈ c, ∀ s, k.stateList t' = some (.pxReadyTasksLists s) → s ≤ q :=
      fun t' ht' s hs' => I.settled hyp' t' ht' s hs' q hq
    rw [hxc] at hy
    -- the running task has not lost priority, and the task has not overtaken it
    have hu : (x = t ∧ u = p ∧ k.uxPriority t < p) ∨
        (x ≠ t ∧ u = q ∧ (p ≤ q ∨ p < k.uxPriority t)) := by
      by_cases he : x = t
      · refine .inl ⟨he, by rw [hux, he, r.priority_self], ?_⟩
        by_contra hle
        rw [if_neg hle, he] at hy
        simp at hy
      · refine .inr ⟨he, by rw [hux, r.priority he, hqx], ?_⟩
        by_cases hgt : p > k.uxPriority t
        · rw [if_pos hgt] at hy
          simp only [Bool.and_eq_true, bne_iff_ne, ne_eq, Option.some.injEq, decide_eq_true_eq,
            not_and, Nat.not_lt] at hy
          exact .inl (hy fun h => he h.symm)
        · exact .inr (by omega)
    by_cases he : t' = t
    · rw [he] at hs'
      obtain ⟨hsp, -⟩ := C₁.ready t ht s hs'
      rw [r.priority_self] at hsp
      rcases hu with ⟨-, h2, -⟩ | ⟨-, h2, h3 | h3⟩
      · omega
      · omega
      · rcases r.state with ⟨-, -, v, h4⟩ | ⟨h1, h4⟩
        · have hle := hready t ht v h4
          have hv := (C.ready t ht v h4).1
          omega
        · exact absurd (h1.symm.trans hs') (h4 s)
    · rw [r.others t' he] at hs'
      have hle := hready t' ht' s hs'
      rcases hu with ⟨h1, h2, h3⟩ | ⟨-, h2, -⟩
      · rw [h1] at hqx
        omega
      · omega

end FreeRtos

end MelonSoc
