import MelonSoc.Rtos.SchedulerRuns

set_option autoImplicit false

/-! # Time slices

A switch takes the task that comes next in the ready list of the highest priority. As many switches
as there are tasks of that priority therefore run each of them once, whichever ran before.
-/

namespace MelonSoc

namespace FreeRtos

open FreeRtos.Lists Kernel

variable {k k' : Kernel} {f : TaskList → Option (Wheel TaskItem)} {i : Tcb} {c : Finset Tcb}
  {w w' : Wheel TaskItem} {A p n : Nat} {is : List TaskItem}

/-- The tasks that `n` yields let run, one after the other. -/
def slices : Nat → Kernel → Option (List Tcb × Kernel)
  | 0, k => some ([], k)
  | n + 1, k => do
      let k ← k.portYield
      let t ← k.pxCurrentTCB
      let (ts, k) ← slices n k
      some (t :: ts, k)

theorem topReady_congr (h : k'.lists = k.lists) (n : Nat) : k'.topReady n = k.topReady n := by
  have hempty : ∀ l, k'.listIsEmpty l = k.listIsEmpty l := fun l => by
    unfold Kernel.listIsEmpty
    rw [h]
  induction n with
  | zero =>
      unfold Kernel.topReady
      rw [hempty]
  | succ n ih =>
      unfold Kernel.topReady
      rw [hempty, ih]

/-- The walk from a priority that is ready ends there. -/
theorem topReady_self (h : k.listIsEmpty (.pxReadyTasksLists p) = false) :
    k.topReady p = some p := by
  cases p with
  | zero =>
      unfold Kernel.topReady
      rw [h]
      rfl
  | succ p =>
      unfold Kernel.topReady
      rw [h]
      rfl

/-- **A yield** turns the ready list of the highest priority, which stays the highest. -/
theorem Listed.slice {j : TaskItem} (L : Listed k.lists f c) (hs : k.uxSchedulerSuspended = 0)
    (htop : k.topReady k.uxTopReadyPriority = some p) (hw : f (.pxReadyTasksLists p) = some w)
    (h : w.turn = some (j, w')) :
    ∃ k', k.portYield = some k' ∧ k'.pxCurrentTCB = some j.pvOwner ∧
      k'.uxSchedulerSuspended = 0 ∧ k'.topReady k'.uxTopReadyPriority = some p ∧
      Listed k'.lists (Function.update f (.pxReadyTasksLists p) (some w')) c := by
  obtain ⟨m', hm', -, -, L'⟩ := L.turn hw (fun hd => by rcases hd with he | he <;> cases he) h
  have hw' : Function.update f (TaskList.pxReadyTasksLists p) (some w') (.pxReadyTasksLists p)
      = some w' := Function.update_self ..
  refine ⟨{ k with
      xYieldPending := false, lists := m', pxCurrentTCB := some j.pvOwner
      uxTopReadyPriority := p }, ?_, rfl, hs, topReady_self ?_, L'⟩
  · unfold Kernel.portYield Kernel.vTaskSwitchContext Kernel.taskSelectHighestPriorityTask
    have htop' : ({ k with xYieldPending := false } : Kernel).topReady k.uxTopReadyPriority
        = some p := by
      rw [← htop]
      refine topReady_congr ?_ _
      rfl
    rw [if_neg fun hne => hne hs, htop']
    simp only [Option.bind_eq_bind, Option.bind_some, hm']
  · rw [← Bool.not_eq_true]
    intro hempty
    have hj := (L'.mem_iff hw').mp (by rw [Wheel.items_turn h]; exact Wheel.turn_mem h)
    exact (L'.isEmpty_iff hw').mp hempty j hj.1 hj.2

theorem Listed.slices (L : Listed k.lists f c) (hs : k.uxSchedulerSuspended = 0)
    (htop : k.topReady k.uxTopReadyPriority = some p) (hw : f (.pxReadyTasksLists p) = some w)
    (h : w.turns n = some (is, w')) :
    ∃ k', FreeRtos.slices n k = some (is.map TaskItem.pvOwner, k') := by
  induction n generalizing k f w is with
  | zero =>
      obtain ⟨rfl, -⟩ := Prod.mk.inj (Option.some.inj h)
      exact ⟨k, rfl⟩
  | succ n ih =>
      obtain ⟨⟨j, w₁⟩, ht, h⟩ := Option.bind_eq_some_iff.mp h
      obtain ⟨⟨js, w₂⟩, hts, h⟩ := Option.bind_eq_some_iff.mp h
      obtain ⟨rfl, rfl⟩ := Prod.mk.inj (Option.some.inj h)
      obtain ⟨k₁, hk₁, hcur, hs₁, htop₁, L₁⟩ := L.slice hs htop hw ht
      obtain ⟨k₂, hk₂⟩ := ih L₁ hs₁ htop₁ (Function.update_self ..) hts
      refine ⟨k₂, ?_⟩
      show (k.portYield.bind fun k => k.pxCurrentTCB.bind fun t =>
        (FreeRtos.slices n k).bind fun u => some (t :: u.1, u.2)) = _
      rw [hk₁]
      simp only [Option.bind_some, hcur, hk₂, List.map_cons]

/-- **Time slices are fair.** In every state reached in which the scheduler is not suspended, as
many yields as there are tasks ready at the highest priority run each of them exactly once. -/
theorem time_slices_fair (h : SchedReach k (some i) c A) (hs : k.uxSchedulerSuspended = 0) :
    ∃ p ts k', FreeRtos.slices ts.length k = some (ts, k') ∧ ts.Nodup ∧ ts ≠ [] ∧
      (∀ t, t ∈ ts ↔ t ∈ c ∧ k.stateList t = some (.pxReadyTasksLists p)) ∧
      ∀ t ∈ c, ∀ q, k.stateList t = some (.pxReadyTasksLists q) → q ≤ p := by
  have C := h.inv.core
  obtain ⟨f, L⟩ := C.listed
  obtain ⟨hi, -, hidle⟩ := C.idle_ready i rfl
  obtain ⟨p, hp, htop, hne, hmax⟩ := L.topReady k.uxTopReadyPriority C.top
    ⟨i, hi, 0, Nat.zero_le _, hidle⟩
  have hp4 := Nat.lt_of_le_of_lt hp C.top
  obtain ⟨w, hw⟩ := L.init (.pxReadyTasksLists p) hp4
  obtain ⟨w', hw', -⟩ := w.turns_round
  obtain ⟨k', hk'⟩ := L.slices hs htop hw hw'
  have hstate : ∀ j ∈ w.items, j = .xStateListItem j.pvOwner ∧
      k.stateList j.pvOwner = some (.pxReadyTasksLists p) ∧ j.pvOwner ∈ c := by
    intro j hj
    obtain ⟨hjc, hjl⟩ := (L.mem_iff hw).mp hj
    obtain ⟨h1, h2⟩ := C.state_item hjc hjl (show (TaskList.pxReadyTasksLists p).IsState from hp4)
    exact ⟨h1, h2, hjc⟩
  have hmem : ∀ t, t ∈ w.order.map TaskItem.pvOwner ↔
      t ∈ c ∧ k.stateList t = some (.pxReadyTasksLists p) := by
    intro t
    rw [List.mem_map]
    constructor
    · rintro ⟨j, hj, rfl⟩
      obtain ⟨-, h1, h2⟩ := hstate j (Wheel.mem_order.mp hj)
      exact ⟨h2, h1⟩
    · rintro ⟨h1, h2⟩
      exact ⟨.xStateListItem t, Wheel.mem_order.mpr ((L.mem_iff hw).mpr ⟨h1, h2⟩), rfl⟩
  have hlen : (w.order.map TaskItem.pvOwner).length = w.items.length := by
    rw [List.length_map, w.order_perm.length_eq]
  refine ⟨p, w.order.map TaskItem.pvOwner, k', by rw [hlen]; exact hk', ?_, ?_, hmem, ?_⟩
  · refine (w.order_perm.nodup_iff.mpr (L.shown.nodup _ _ hw)).map_on fun a ha b hb he => ?_
    rw [(hstate a (Wheel.mem_order.mp ha)).1, (hstate b (Wheel.mem_order.mp hb)).1, he]
  · intro hnil
    have hempty : w.items = [] := List.eq_nil_of_length_eq_zero (by rw [← hlen, hnil]; rfl)
    rw [show k.listIsEmpty (.pxReadyTasksLists p) = true by
      show listListIsEmpty _ _ = true
      rw [L.shown.isEmpty hw, hempty]
      rfl] at hne
    cases hne
  · intro t ht q hq
    exact hmax t ht q (C.ready t ht q hq).2 hq

theorem time_slices_fair_started : ∃ k ts k', SchedReach k (some 1) {2, 1, 0} 0 ∧
    FreeRtos.slices ts.length k = some (ts, k') ∧ ts.Nodup := by
  obtain ⟨k, hk, h⟩ := started_reached
  obtain ⟨-, hs, -⟩ := started_runs hk
  obtain ⟨p, ts, k', hts, hnodup, -⟩ := time_slices_fair h hs
  exact ⟨k, ts, k', h, hts, hnodup⟩

end FreeRtos

end MelonSoc
