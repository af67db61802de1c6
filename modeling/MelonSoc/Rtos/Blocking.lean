import MelonSoc.Rtos.Resuming

set_option autoImplicit false

/-! # Waiting

`prvAddCurrentTaskToDelayedList` computes the tick at which the running task wakes in 32 bits, and
puts the task into the overflow list if the sum wraps. Against a clock that does not wrap this is
the deadline, whichever list it is. A task that waits for an event stands in a second list, from
which the event takes it.
-/

namespace MelonSoc

namespace FreeRtos

open FreeRtos.Lists Kernel

variable {k k₀ k' : Kernel} {f : TaskList → Option (Wheel TaskItem)} {idle : Option Tcb}
  {i : Tcb} {c : Finset Tcb} {l : TaskList} {t : Tcb} {b now A d e : Nat} {inf : Bool}

/-- Nothing but the lists of one task differs. -/
structure Beside (k k' : Kernel) (t : Tcb) : Prop where
  rest : k' = { k with
    lists := k'.lists, xNextTaskUnblockTime := k'.xNextTaskUnblockTime }
  others : ∀ t', t' ≠ t → k'.stateList t' = k.stateList t' ∧ k'.eventList t' = k.eventList t' ∧
    k'.wakeTime t' = k.wakeTime t'

theorem Beside.task (h : Beside k k' t) {t' : Tcb} (hne : t' ≠ t) :
    k'.task now t' = k.task now t' := by
  obtain ⟨h1, h2, h3⟩ := h.others t' hne
  have hprio : k'.uxPriority = k.uxPriority := by rw [h.rest]
  unfold Kernel.task
  rw [Kernel.status_congr h1 h3 (by rw [h.rest]) (by rw [h.rest]), h2, hprio]

/-- How a task stands that waits for `d` ticks from `now` on. -/
def waiting (d : Nat) (inf : Bool) (now : Nat) : Status :=
  if d = portMaxDelay ∧ inf then .suspended else .blocked (now + d)

/-- The running task of `k` waits in `k'`; what it waits for has been written down in `k₀`. -/
structure Parked (k₀ k' : Kernel) (t : Tcb) (d : Nat) (inf : Bool) : Prop where
  beside : Beside k₀ k' t
  event : k'.eventList t = k₀.eventList t
  blocked : k'.Blocked t
  status : ∀ A, k₀.xTickCount = A % 2 ^ 32 → k'.status A t = waiting d inf A

/-- The state list item of a task, alone, has moved. -/
theorem beside_of_update {m : Lists TaskItem TaskList} {o : Option TaskList}
    (hv : ∀ j, j ≠ ItemPtr.item (.xStateListItem t) → m.xItemValue j = k.lists.xItemValue j)
    (hc : m.pxContainer = Function.update k.lists.pxContainer (.xStateListItem t) o) (n : Nat) :
    Beside k { k with lists := m, xNextTaskUnblockTime := n } t := by
  refine ⟨rfl, fun t' hne => ⟨?_, ?_, ?_⟩⟩
  · show m.pxContainer _ = _
    rw [hc, Function.update_of_ne (fun he => hne (by cases he; rfl))]
    rfl
  · show m.pxContainer _ = _
    rw [hc, Function.update_of_ne (fun he => by cases he)]
    rfl
  · exact hv _ fun he => hne (by cases he; rfl)

/-- **The running task waits.** -/
theorem Core.block (C : Core k idle c (k.xTickCount + 1)) (ht : t ∈ c)
    (hcur : k.pxCurrentTCB = some t) (hidle : idle ≠ some t) (h₀ : Beside k k₀ t)
    (hnext₀ : k₀.xNextTaskUnblockTime = k.xNextTaskUnblockTime)
    (L : Listed k₀.lists f c) (hs₀ : k₀.stateList t = some l)
    (he₀ : ∀ l', k₀.eventList t = some l' → l'.IsEvent) (hd : 0 < d) (hd' : d < 2 ^ 32)
    (inf : Bool) :
    ∃ k', k₀.prvAddCurrentTaskToDelayedList d inf = some k' ∧
      Core k' idle c (k.xTickCount + 1) ∧ Parked k₀ k' t d inf := by
  have hcur₀ : k₀.pxCurrentTCB = some t := by
    rw [h₀.rest]
    exact hcur
  have htick₀ : k₀.xTickCount = k.xTickCount := by rw [h₀.rest]
  have hdel₀ : k₀.pxDelayedTaskList = k.pxDelayedTaskList := by rw [h₀.rest]
  have hover₀ : k₀.pxOverflowDelayedTaskList = k.pxOverflowDelayedTaskList := by rw [h₀.rest]
  have hticks := C.ticks
  obtain ⟨m₁, f₁, hk₁, hv₁, hc₁, L₁, -⟩ := L.removeItem (i := .xStateListItem t) ht hs₀
  have hnone : m₁.pxContainer (.xStateListItem t) = none := by rw [hc₁, Function.update_self]
  have hupd : ∀ o, Function.update m₁.pxContainer (.xStateListItem t) o
      = Function.update k₀.lists.pxContainer (.xStateListItem t) o := fun o => by
    rw [hc₁, Function.update_idem]
  -- the target list, and what `Core.move` asks about it
  have finish : ∀ (m : Lists TaskItem TaskList) (f' : TaskList → Option (Wheel TaskItem))
      (n : Nat) (l' : TaskList), Listed m f' c →
      m.pxContainer = Function.update k₀.lists.pxContainer (.xStateListItem t) (some l') →
      (∀ j, j ≠ ItemPtr.item (.xStateListItem t) → m.xItemValue j = k₀.lists.xItemValue j) →
      l'.IsState → (l'.IsDelayed ∨ l' = .xSuspendedTaskList) → n ≤ k.xNextTaskUnblockTime →
      (l' = k.pxDelayedTaskList → k.xTickCount + 1 ≤ m.xItemValue (.item (.xStateListItem t)) ∧
        n ≤ m.xItemValue (.item (.xStateListItem t))) →
      (l' = k.pxOverflowDelayedTaskList →
        m.xItemValue (.item (.xStateListItem t)) < k.xTickCount) →
      Core { k₀ with lists := m, xNextTaskUnblockTime := n } idle c (k.xTickCount + 1) ∧
        Beside k₀ { k₀ with lists := m, xNextTaskUnblockTime := n } t ∧
        ({ k₀ with lists := m, xNextTaskUnblockTime := n } : Kernel).Blocked t ∧
        ({ k₀ with lists := m, xNextTaskUnblockTime := n } : Kernel).eventList t
          = k₀.eventList t := by
    intro m f' n l' L' hc hv hl' hkind hn hlater hwrapped
    have hb := beside_of_update (k := k₀) hv hc n
    have hstate : m.pxContainer (.xStateListItem t) = some l' := by rw [hc, Function.update_self]
    have hevent : m.pxContainer (.xEventListItem t) = k₀.eventList t := by
      rw [hc, Function.update_of_ne (fun he => by cases he)]
      rfl
    have hblocked : ({ k₀ with lists := m, xNextTaskUnblockTime := n } : Kernel).Blocked t := by
      rcases hkind with hd | rfl
      · exact blocked_of_delayed hd hstate
      · exact .inr (.inr hstate)
    refine ⟨?_, hb, hblocked, hevent⟩
    refine C.move L' ?_ ?_ hstate hl' ?_ ?_ ?_ hlater hwrapped ?_ ?_
    · rw [h₀.rest]
    · intro t' hne
      obtain ⟨h1, h2, h3⟩ := hb.others t' hne
      obtain ⟨g1, g2, g3⟩ := h₀.others t' hne
      exact ⟨h1.trans g1, h2.trans g2, h3.trans g3⟩
    · intro l'' hl''
      exact ⟨he₀ l'' (hevent.symm.trans hl''), hblocked⟩
    · intro p hp
      rcases hkind with (he | he) | he
      · rw [he] at hp
        cases hp
      · rw [he] at hp
        cases hp
      · rw [he] at hp
        cases hp
    · rw [show ({ k₀ with lists := m, xNextTaskUnblockTime := n } : Kernel).uxTopReadyPriority
        = k.uxTopReadyPriority by rw [h₀.rest]]
      exact ⟨Nat.le_refl _, C.top⟩
    · intro t' ht' _ hl''
      exact Nat.le_trans hn (C.later t' ht' hl'').2
    · intro hi
      exact absurd hi hidle
  unfold Kernel.prvAddCurrentTaskToDelayedList
  rw [hcur₀]
  simp only [hk₁, Option.bind_eq_bind, Option.bind_some]
  by_cases hinf : d = portMaxDelay ∧ inf = true
  · obtain ⟨w, hw⟩ := L₁.init .xSuspendedTaskList trivial
    have L₂ := L₁.insertEnd hw (fun hd => by rcases hd with he | he <;> cases he)
      (i := .xStateListItem t) ht hnone
    obtain ⟨C', hb, hblocked, hevent⟩ := finish _ _ k₀.xNextTaskUnblockTime .xSuspendedTaskList L₂
      (hupd _) (fun j _ => congrFun hv₁ j) trivial (.inr rfl) (Nat.le_of_eq hnext₀)
      (fun he => by rcases C.isDelayed with h | h <;> rw [h] at he <;> cases he)
      (fun he => by rcases C.isDelayed_overflow with h | h <;> rw [h] at he <;> cases he)
    refine ⟨_, if_pos hinf, C', hb, hevent, hblocked, fun A _ => ?_⟩
    unfold waiting
    rw [if_pos hinf]
    exact Kernel.status_suspended (Function.update_self ..)
  · rw [if_neg hinf]
    have hsum : add32 k₀.xTickCount d = (k.xTickCount + d) % 2 ^ 32 := by rw [htick₀, add32]
    have hsmall : add32 k₀.xTickCount d < 2 ^ 32 := Nat.mod_lt _ (by decide)
    have L₂ := L₁.setValue (i := .xStateListItem t) hsmall ht fun l hl => by
      rw [hnone] at hl
      cases hl
    have hnone₂ : (listSetListItemValue (.xStateListItem t) (add32 k₀.xTickCount d) m₁).pxContainer
        (.xStateListItem t) = none := hnone
    have hv₂ : ∀ j, j ≠ ItemPtr.item (.xStateListItem t) → (listSetListItemValue (.xStateListItem t)
        (add32 k₀.xTickCount d) m₁).xItemValue j = k₀.lists.xItemValue j := fun j hj =>
      (Function.update_of_ne hj _ _).trans (congrFun hv₁ j)
    have hself : (listSetListItemValue (.xStateListItem t) (add32 k₀.xTickCount d) m₁).xItemValue
        (.item (.xStateListItem t)) = add32 k₀.xTickCount d := Function.update_self ..
    by_cases hwrap : add32 k₀.xTickCount d < k₀.xTickCount
    · rw [if_pos hwrap]
      obtain ⟨w, hw⟩ := L₂.init _ C.isDelayed_overflow.isKernel
      obtain ⟨w', m', hm', hvm, hcm, -, L₃⟩ := L₂.insert hw (i := .xStateListItem t) ht hnone₂
      have hval : m'.xItemValue (.item (.xStateListItem t)) = add32 k₀.xTickCount d := by
        rw [hvm, hself]
      obtain ⟨C', hb, hblocked, hevent⟩ := finish m' _ k₀.xNextTaskUnblockTime
        k.pxOverflowDelayedTaskList L₃ (hcm.trans (hupd _))
        (fun j hj => (congrFun hvm j).trans (hv₂ j hj)) C.isDelayed_overflow.isState
        (.inl C.isDelayed_overflow) (Nat.le_of_eq hnext₀)
        (fun he => absurd he.symm C.lists_ne) (fun _ => by rw [hval]; omega)
      refine ⟨{ k₀ with lists := m' }, ?_, C', hb, hevent, hblocked, fun A hA => ?_⟩
      · show (Lists.vListInsert k₀.pxOverflowDelayedTaskList _ _).bind _ = _
        rw [hover₀, hm']
        rfl
      · unfold waiting
        rw [if_neg hinf, C'.status_overflow (by
          show m'.pxContainer _ = some k₀.pxOverflowDelayedTaskList
          rw [hcm, Function.update_self, hover₀])]
        show Status.blocked ((A / 2 ^ 32 + 1) * 2 ^ 32 + m'.xItemValue _) = _
        rw [hval, hsum]
        congr 1
        omega
    · rw [if_neg hwrap]
      obtain ⟨w, hw⟩ := L₂.init _ C.isDelayed.isKernel
      obtain ⟨w', m', hm', hvm, hcm, -, L₃⟩ := L₂.insert hw (i := .xStateListItem t) ht hnone₂
      have hval : m'.xItemValue (.item (.xStateListItem t)) = add32 k₀.xTickCount d := by
        rw [hvm, hself]
      obtain ⟨C', hb, hblocked, hevent⟩ := finish m' _
        (if add32 k₀.xTickCount d < k₀.xNextTaskUnblockTime then add32 k₀.xTickCount d
          else k₀.xNextTaskUnblockTime) k.pxDelayedTaskList L₃ (hcm.trans (hupd _))
        (fun j hj => (congrFun hvm j).trans (hv₂ j hj)) C.isDelayed.isState (.inl C.isDelayed)
        (by split <;> omega) (fun _ => by rw [hval]; split <;> omega)
        (fun he => absurd he C.lists_ne)
      refine ⟨_, ?_, C', hb, hevent, hblocked, fun A hA => ?_⟩
      · unfold Kernel.vListInsert
        show ((Lists.vListInsert k₀.pxDelayedTaskList _ _).bind _).bind _ = _
        rw [hdel₀, hm']
        rfl
      · unfold waiting
        rw [if_neg hinf, C'.status_delayed (by
          show m'.pxContainer _ = some k₀.pxDelayedTaskList
          rw [hcm, Function.update_self, hdel₀])]
        show Status.blocked (A / 2 ^ 32 * 2 ^ 32 + m'.xItemValue _) = _
        rw [hval, hsum]
        congr 1
        omega

end FreeRtos

end MelonSoc
