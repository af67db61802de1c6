import MelonSoc.Rtos.ListItems

set_option autoImplicit false

/-! # The scheduler

`tasks.c` with the configuration of `FreeRTOSConfig.h`: one core, preemption with time slices, four
priorities, 32-bit ticks, no notifications and no mutexes. A TCB is known by a number. `portYIELD`
is an `ecall`, upon which the trap handler of the port calls `vTaskSwitchContext`. `none` is a
failed `configASSERT`, a null pointer or a loop that does not end. Stacks, names and the hook that
checks the stack are not part of the model.
-/

namespace MelonSoc

namespace FreeRtos

/-- `configMAX_PRIORITIES`. -/
def configMaxPriorities : Nat := 4

/-- `configTIMER_TASK_PRIORITY`. -/
def configTimerTaskPriority : Nat := 2

/-- `taskEVENT_LIST_ITEM_VALUE_IN_USE`. -/
def taskEventListItemValueInUse : Nat := 0x80000000

/-- A `TCB_t *`. -/
abbrev Tcb := Nat

/-- The list items of a TCB. -/
inductive TaskItem
  | xStateListItem (t : Tcb)
  | xEventListItem (t : Tcb)
  deriving DecidableEq

/-- `listGET_LIST_ITEM_OWNER`. -/
def TaskItem.pvOwner : TaskItem → Tcb
  | .xStateListItem t => t
  | .xEventListItem t => t

/-- The lists of `tasks.c`, and the lists on which tasks wait for an event. -/
inductive TaskList
  | pxReadyTasksLists (uxPriority : Nat)
  | xDelayedTaskList1
  | xDelayedTaskList2
  | xPendingReadyList
  | xTasksWaitingTermination
  | xSuspendedTaskList
  | pxEventList (e : Nat)
  deriving DecidableEq

/-- The variables of `tasks.c`, and the priorities and list items of the TCBs. -/
structure Kernel where
  lists : Lists TaskItem TaskList
  uxPriority : Tcb → Nat
  pxCurrentTCB : Option Tcb
  pxDelayedTaskList : TaskList
  pxOverflowDelayedTaskList : TaskList
  uxDeletedTasksWaitingCleanUp : Nat
  uxCurrentNumberOfTasks : Nat
  xTickCount : Nat
  uxTopReadyPriority : Nat
  xSchedulerRunning : Bool
  xPendedTicks : Nat
  xYieldPending : Bool
  xNumOfOverflows : Nat
  xNextTaskUnblockTime : Nat
  uxSchedulerSuspended : Nat

/-- `configASSERT`. -/
def configAssert (x : Bool) : Option Unit := if x then some () else none

namespace Kernel

/-! ## The lists -/

/-- `uxListRemove` without what it returns. -/
def listRemoveItem (i : TaskItem) (k : Kernel) : Option Kernel := do
  let (_, m) ← Lists.uxListRemove i k.lists
  some { k with lists := m }

/-- `listINSERT_END`. -/
def listInsertEnd (l : TaskList) (i : TaskItem) (k : Kernel) : Kernel :=
  { k with lists := Lists.vListInsertEnd l i k.lists }

def vListInsert (l : TaskList) (i : TaskItem) (k : Kernel) : Option Kernel := do
  let m ← Lists.vListInsert l i k.lists
  some { k with lists := m }

/-- `listLIST_IS_EMPTY`. -/
def listIsEmpty (l : TaskList) (k : Kernel) : Bool := Lists.listListIsEmpty l k.lists

/-- `listLIST_ITEM_CONTAINER`. -/
def container (i : TaskItem) (k : Kernel) : Option TaskList := k.lists.pxContainer i

/-- The event list item is taken out of the list it is in, if it is in one. -/
def leaveEventList (t : Tcb) (k : Kernel) : Option Kernel :=
  if (k.container (.xEventListItem t)).isSome then k.listRemoveItem (.xEventListItem t) else some k

/-- `prvAddTaskToReadyList`. -/
def prvAddTaskToReadyList (t : Tcb) (k : Kernel) : Kernel :=
  listInsertEnd (.pxReadyTasksLists (k.uxPriority t)) (.xStateListItem t)
    { k with
      uxTopReadyPriority :=
        if k.uxPriority t > k.uxTopReadyPriority then k.uxPriority t else k.uxTopReadyPriority }

/-- The priority of the running task. -/
def currentPriority (k : Kernel) : Option Nat := k.pxCurrentTCB.map k.uxPriority

def prvResetNextTaskUnblockTime (k : Kernel) : Kernel :=
  { k with
    xNextTaskUnblockTime :=
      if k.listIsEmpty k.pxDelayedTaskList then portMaxDelay
      else Lists.listGetItemValueOfHeadEntry k.pxDelayedTaskList k.lists }

/-! ## The choice of a task -/

/-- The loop of `taskSELECT_HIGHEST_PRIORITY_TASK`. -/
def topReady (k : Kernel) : Nat → Option Nat
  | 0 => if k.listIsEmpty (.pxReadyTasksLists 0) then none else some 0
  | p + 1 => if k.listIsEmpty (.pxReadyTasksLists (p + 1)) then k.topReady p else some (p + 1)

/-- `taskSELECT_HIGHEST_PRIORITY_TASK`. -/
def taskSelectHighestPriorityTask (k : Kernel) : Option Kernel := do
  let uxTopPriority ← k.topReady k.uxTopReadyPriority
  let (i, m) ← Lists.listGetOwnerOfNextEntry (.pxReadyTasksLists uxTopPriority) k.lists
  some { k with lists := m, pxCurrentTCB := some i.pvOwner, uxTopReadyPriority := uxTopPriority }

def vTaskSwitchContext (k : Kernel) : Option Kernel :=
  if k.uxSchedulerSuspended ≠ 0 then some { k with xYieldPending := true }
  else taskSelectHighestPriorityTask { k with xYieldPending := false }

/-- `portYIELD`: the trap handler on an `ecall`. -/
def portYield (k : Kernel) : Option Kernel := k.vTaskSwitchContext

/-- `taskYIELD_ANY_CORE_IF_USING_PREEMPTION`. -/
def yieldIfHigher (t : Tcb) (k : Kernel) : Option Kernel := do
  let uxPriority ← k.currentPriority
  if uxPriority < k.uxPriority t then k.portYield else some k

/-! ## Ticks -/

/-- `taskSWITCH_DELAYED_LISTS`. -/
def taskSwitchDelayedLists (k : Kernel) : Option Kernel := do
  configAssert (k.listIsEmpty k.pxDelayedTaskList)
  some (prvResetNextTaskUnblockTime
    { k with
      pxDelayedTaskList := k.pxOverflowDelayedTaskList
      pxOverflowDelayedTaskList := k.pxDelayedTaskList
      xNumOfOverflows := add32 k.xNumOfOverflows 1 })

/-- The loop of `xTaskIncrementTick` over the tasks whose time has come. -/
def wakeDelayedTasks (xConstTickCount : Nat) : Nat → Bool → Kernel → Option (Bool × Kernel)
  | 0, _, _ => none
  | fuel + 1, xSwitchRequired, k =>
      if k.listIsEmpty k.pxDelayedTaskList then
        some (xSwitchRequired, { k with xNextTaskUnblockTime := portMaxDelay })
      else do
        let i ← Lists.listGetOwnerOfHeadEntry k.pxDelayedTaskList k.lists
        let pxTCB := i.pvOwner
        let xItemValue := k.lists.xItemValue (.item (.xStateListItem pxTCB))
        if xConstTickCount < xItemValue then
          some (xSwitchRequired, { k with xNextTaskUnblockTime := xItemValue })
        else do
          let k ← k.listRemoveItem (.xStateListItem pxTCB)
          let k ← k.leaveEventList pxTCB
          let k := k.prvAddTaskToReadyList pxTCB
          let uxPriority ← k.currentPriority
          wakeDelayedTasks xConstTickCount fuel
            (xSwitchRequired || k.uxPriority pxTCB > uxPriority) k

/-- `xSwitchRequired`, and the kernel after the tick. -/
def xTaskIncrementTick (k : Kernel) : Option (Bool × Kernel) :=
  if k.uxSchedulerSuspended = 0 then do
    let xConstTickCount := add32 k.xTickCount 1
    let k := { k with xTickCount := xConstTickCount }
    let k ← if xConstTickCount = 0 then k.taskSwitchDelayedLists else some k
    let (xSwitchRequired, k) ←
      if xConstTickCount ≥ k.xNextTaskUnblockTime then
        k.wakeDelayedTasks xConstTickCount (k.lists.uxNumberOfItems k.pxDelayedTaskList + 1) false
      else some (false, k)
    let uxPriority ← k.currentPriority
    let xSwitchRequired :=
      xSwitchRequired || k.lists.uxNumberOfItems (.pxReadyTasksLists uxPriority) > 1
    some (xSwitchRequired || k.xYieldPending, k)
  else some (false, { k with xPendedTicks := add32 k.xPendedTicks 1 })

/-- The timer interrupt: the trap handler switches the context if the tick says so. -/
def tickInterrupt (k : Kernel) : Option Kernel := do
  let (xSwitchRequired, k) ← k.xTaskIncrementTick
  if xSwitchRequired then k.vTaskSwitchContext else some k

/-! ## Suspending the scheduler -/

def vTaskSuspendAll (k : Kernel) : Kernel :=
  { k with uxSchedulerSuspended := add32 k.uxSchedulerSuspended 1 }

/-- The loop of `xTaskResumeAll` over the tasks that became ready meanwhile. -/
def movePendingReady : Nat → Kernel → Option Kernel
  | 0, _ => none
  | fuel + 1, k =>
      if k.listIsEmpty .xPendingReadyList then some k
      else do
        let i ← Lists.listGetOwnerOfHeadEntry .xPendingReadyList k.lists
        let pxTCB := i.pvOwner
        let k ← k.listRemoveItem (.xEventListItem pxTCB)
        let k ← k.listRemoveItem (.xStateListItem pxTCB)
        let k := k.prvAddTaskToReadyList pxTCB
        let uxPriority ← k.currentPriority
        movePendingReady fuel
          { k with xYieldPending := k.xYieldPending || k.uxPriority pxTCB > uxPriority }

/-- The loop of `xTaskResumeAll` over the ticks that came meanwhile. -/
def processPendedTicks : Nat → Kernel → Option Kernel
  | 0, k => some k
  | xPendedCounts + 1, k => do
      let (xSwitchRequired, k) ← k.xTaskIncrementTick
      processPendedTicks xPendedCounts
        { k with xYieldPending := k.xYieldPending || xSwitchRequired }

/-- What `xTaskResumeAll` does when the scheduler runs again, up to the yield. -/
def resume (k : Kernel) : Option Kernel := do
  let pending := !k.listIsEmpty .xPendingReadyList
  let k ← k.movePendingReady (k.lists.uxNumberOfItems .xPendingReadyList + 1)
  let k := if pending then k.prvResetNextTaskUnblockTime else k
  let k ← k.processPendedTicks k.xPendedTicks
  some { k with xPendedTicks := 0 }

/-- `xAlreadyYielded`, and the kernel after the call. -/
def xTaskResumeAll (k : Kernel) : Option (Bool × Kernel) := do
  configAssert (k.uxSchedulerSuspended != 0)
  let k := { k with uxSchedulerSuspended := sub32 k.uxSchedulerSuspended 1 }
  if k.uxSchedulerSuspended = 0 ∧ k.uxCurrentNumberOfTasks > 0 then do
    let k ← k.resume
    if k.xYieldPending then do
      let k ← k.portYield
      some (true, k)
    else some (false, k)
  else some (false, k)

/-! ## Blocking -/

def prvAddCurrentTaskToDelayedList (xTicksToWait : Nat) (xCanBlockIndefinitely : Bool)
    (k : Kernel) : Option Kernel := do
  let t ← k.pxCurrentTCB
  let xConstTickCount := k.xTickCount
  let k ← k.listRemoveItem (.xStateListItem t)
  if xTicksToWait = portMaxDelay ∧ xCanBlockIndefinitely then
    some (k.listInsertEnd .xSuspendedTaskList (.xStateListItem t))
  else do
    let xTimeToWake := add32 xConstTickCount xTicksToWait
    let k := { k with lists := Lists.listSetListItemValue (.xStateListItem t) xTimeToWake k.lists }
    if xTimeToWake < xConstTickCount then
      k.vListInsert k.pxOverflowDelayedTaskList (.xStateListItem t)
    else do
      let k ← k.vListInsert k.pxDelayedTaskList (.xStateListItem t)
      some { k with
        xNextTaskUnblockTime :=
          if xTimeToWake < k.xNextTaskUnblockTime then xTimeToWake else k.xNextTaskUnblockTime }

def vTaskDelay (xTicksToDelay : Nat) (k : Kernel) : Option Kernel :=
  if xTicksToDelay > 0 then do
    let k := k.vTaskSuspendAll
    configAssert (k.uxSchedulerSuspended == 1)
    let k ← k.prvAddCurrentTaskToDelayedList xTicksToDelay false
    let (xAlreadyYielded, k) ← k.xTaskResumeAll
    if xAlreadyYielded then some k else k.portYield
  else k.portYield

def vTaskPlaceOnEventList (e : Nat) (xTicksToWait : Nat) (k : Kernel) : Option Kernel := do
  let t ← k.pxCurrentTCB
  let k ← k.vListInsert (.pxEventList e) (.xEventListItem t)
  k.prvAddCurrentTaskToDelayedList xTicksToWait true

def vTaskPlaceOnEventListRestricted (e : Nat) (xTicksToWait : Nat) (xWaitIndefinitely : Bool)
    (k : Kernel) : Option Kernel := do
  let t ← k.pxCurrentTCB
  let k := k.listInsertEnd (.pxEventList e) (.xEventListItem t)
  let xTicksToWait := if xWaitIndefinitely then portMaxDelay else xTicksToWait
  k.prvAddCurrentTaskToDelayedList xTicksToWait xWaitIndefinitely

/-- `xReturn`, and the kernel after the call. -/
def xTaskRemoveFromEventList (e : Nat) (k : Kernel) : Option (Bool × Kernel) := do
  let i ← Lists.listGetOwnerOfHeadEntry (.pxEventList e) k.lists
  let pxUnblockedTCB := i.pvOwner
  let k ← k.listRemoveItem (.xEventListItem pxUnblockedTCB)
  let k ←
    if k.uxSchedulerSuspended = 0 then do
      let k ← k.listRemoveItem (.xStateListItem pxUnblockedTCB)
      some (k.prvAddTaskToReadyList pxUnblockedTCB)
    else some (k.listInsertEnd .xPendingReadyList (.xEventListItem pxUnblockedTCB))
  let uxPriority ← k.currentPriority
  if k.uxPriority pxUnblockedTCB > uxPriority then some (true, { k with xYieldPending := true })
  else some (false, k)

/-! ## Tasks -/

/-- `prvInitialiseTaskLists`. -/
def prvInitialiseTaskLists (k : Kernel) : Kernel :=
  let m := Lists.vListInitialise (.pxReadyTasksLists 0) k.lists
  let m := Lists.vListInitialise (.pxReadyTasksLists 1) m
  let m := Lists.vListInitialise (.pxReadyTasksLists 2) m
  let m := Lists.vListInitialise (.pxReadyTasksLists 3) m
  let m := Lists.vListInitialise .xDelayedTaskList1 m
  let m := Lists.vListInitialise .xDelayedTaskList2 m
  let m := Lists.vListInitialise .xPendingReadyList m
  let m := Lists.vListInitialise .xTasksWaitingTermination m
  let m := Lists.vListInitialise .xSuspendedTaskList m
  { k with
    lists := m
    pxDelayedTaskList := .xDelayedTaskList1
    pxOverflowDelayedTaskList := .xDelayedTaskList2 }

/-- What `prvInitialiseNewTask` does to the priority and the list items of a new TCB. -/
def prvInitialiseNewTask (t : Tcb) (uxPriority : Nat) (k : Kernel) : Option Kernel := do
  configAssert (uxPriority < configMaxPriorities)
  let m := Lists.vListInitialiseItem (.xStateListItem t) k.lists
  let m := Lists.vListInitialiseItem (.xEventListItem t) m
  let m := Lists.listSetListItemValue (.xEventListItem t) (configMaxPriorities - uxPriority) m
  some { k with lists := m, uxPriority := Function.update k.uxPriority t uxPriority }

def prvAddNewTaskToReadyList (t : Tcb) (k : Kernel) : Option Kernel :=
  let k := { k with uxCurrentNumberOfTasks := add32 k.uxCurrentNumberOfTasks 1 }
  let k :=
    match k.pxCurrentTCB with
    | none =>
        let k := { k with pxCurrentTCB := some t }
        if k.uxCurrentNumberOfTasks = 1 then k.prvInitialiseTaskLists else k
    | some c =>
        if !k.xSchedulerRunning ∧ k.uxPriority c ≤ k.uxPriority t then
          { k with pxCurrentTCB := some t }
        else k
  let k := k.prvAddTaskToReadyList t
  if k.xSchedulerRunning then k.yieldIfHigher t else some k

/-- `xTaskCreate`, for a TCB that could be allocated. -/
def xTaskCreate (t : Tcb) (uxPriority : Nat) (k : Kernel) : Option Kernel := do
  let k ← k.prvInitialiseNewTask t uxPriority
  k.prvAddNewTaskToReadyList t

/-- `vTaskStartScheduler`, with the TCBs of the idle and of the timer task. -/
def vTaskStartScheduler (idle timer : Tcb) (k : Kernel) : Option Kernel := do
  let k ← k.xTaskCreate idle 0
  let k ← k.xTaskCreate timer configTimerTaskPriority
  some { k with
    xNextTaskUnblockTime := portMaxDelay
    xSchedulerRunning := true
    xTickCount := 0 }

def vTaskSuspend (t : Tcb) (k : Kernel) : Option Kernel := do
  let k ← k.listRemoveItem (.xStateListItem t)
  let k ← k.leaveEventList t
  let k := k.listInsertEnd .xSuspendedTaskList (.xStateListItem t)
  let k := if k.xSchedulerRunning then k.prvResetNextTaskUnblockTime else k
  if some t = k.pxCurrentTCB then
    if k.xSchedulerRunning then do
      configAssert (k.uxSchedulerSuspended == 0)
      k.portYield
    else if k.lists.uxNumberOfItems .xSuspendedTaskList = k.uxCurrentNumberOfTasks then
      some { k with pxCurrentTCB := none }
    else k.vTaskSwitchContext
  else some k

def prvTaskIsTaskSuspended (t : Tcb) (k : Kernel) : Bool :=
  k.container (.xStateListItem t) = some .xSuspendedTaskList &&
    !(k.container (.xEventListItem t) = some .xPendingReadyList) &&
      (k.container (.xEventListItem t)).isNone

def vTaskResume (t : Tcb) (k : Kernel) : Option Kernel :=
  if some t ≠ k.pxCurrentTCB then
    if k.prvTaskIsTaskSuspended t then do
      let k ← k.listRemoveItem (.xStateListItem t)
      (k.prvAddTaskToReadyList t).yieldIfHigher t
    else some k
  else some k

def vTaskPrioritySet (t : Tcb) (uxNewPriority : Nat) (k : Kernel) : Option Kernel := do
  configAssert (uxNewPriority < configMaxPriorities)
  let uxPriorityUsedOnEntry := k.uxPriority t
  if uxPriorityUsedOnEntry ≠ uxNewPriority then do
    let uxPriority ← k.currentPriority
    let xYieldRequired :=
      if uxNewPriority > uxPriorityUsedOnEntry then
        some t != k.pxCurrentTCB && uxNewPriority > uxPriority
      else some t == k.pxCurrentTCB
    let k := { k with uxPriority := Function.update k.uxPriority t uxNewPriority }
    let value := k.lists.xItemValue (.item (.xEventListItem t))
    let k :=
      if value &&& taskEventListItemValueInUse = 0 then
        { k with
          lists := Lists.listSetListItemValue (.xEventListItem t)
            (configMaxPriorities - uxNewPriority) k.lists }
      else k
    let k ←
      if k.container (.xStateListItem t) = some (.pxReadyTasksLists uxPriorityUsedOnEntry) then do
        let k ← k.listRemoveItem (.xStateListItem t)
        some (k.prvAddTaskToReadyList t)
      else some k
    if xYieldRequired then k.portYield else some k
  else some k

def vTaskDelete (t : Tcb) (k : Kernel) : Option Kernel := do
  let k ← k.listRemoveItem (.xStateListItem t)
  let k ← k.leaveEventList t
  if k.xSchedulerRunning ∧ some t = k.pxCurrentTCB then do
    let k := k.listInsertEnd .xTasksWaitingTermination (.xStateListItem t)
    let k := { k with
      uxDeletedTasksWaitingCleanUp := add32 k.uxDeletedTasksWaitingCleanUp 1 }
    configAssert (k.uxSchedulerSuspended == 0)
    k.portYield
  else
    some (prvResetNextTaskUnblockTime
      { k with uxCurrentNumberOfTasks := sub32 k.uxCurrentNumberOfTasks 1 })

/-- The loop of `prvCheckTasksWaitingTermination`: the tasks whose memory is released. -/
def prvCheckTasksWaitingTermination : Nat → Kernel → Option (List Tcb × Kernel)
  | 0, k => some ([], k)
  | n + 1, k => do
      let i ← Lists.listGetOwnerOfHeadEntry .xTasksWaitingTermination k.lists
      let k ← k.listRemoveItem (.xStateListItem i.pvOwner)
      let (ts, k) ← prvCheckTasksWaitingTermination n
        { k with
          uxCurrentNumberOfTasks := sub32 k.uxCurrentNumberOfTasks 1
          uxDeletedTasksWaitingCleanUp := sub32 k.uxDeletedTasksWaitingCleanUp 1 }
      some (i.pvOwner :: ts, k)

end Kernel

end FreeRtos

end MelonSoc
