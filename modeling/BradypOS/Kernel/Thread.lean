import BradypOS.Kernel.State

/-!
# Threads and the scheduler (`kern/thread.c`)

The thread table is the array `threadList` of slots with `threadCount` entries in use. Its cells
beyond them hold leftovers, which the binary search may look at.
-/

namespace BradypOS

open L4

namespace Kernel

/-! ### The thread table -/

def threadListFindLoop (k : Kernel) (no : Word) : Nat → Nat → Nat → Nat
  | 0, low, _ => low
  | fuel + 1, low, high =>
    let mid := (low + high) / 2
    let currentNo := threadNo (k.tcbs (k.threadList mid)).globalId
    if currentNo = no then mid
    else if currentNo < no then
      if mid = k.threadCount then mid
      else if mid + 1 < high then threadListFindLoop k no fuel (mid + 1) high
      else mid + 1
    else if mid = 0 then 0
    else if low < mid - 1 then threadListFindLoop k no fuel low (mid - 1)
    else low

/-- The distance of the two bounds halves, so the fuel is never used up. -/
def threadListFind (k : Kernel) (globalId : Word) : Nat :=
  threadListFindLoop k (threadNo globalId) (k.threadCount + 1) 0 k.threadCount

def threadMapFind (k : Kernel) (globalId : Word) : Nat :=
  let idx := k.threadListFind globalId
  if sameThreads (k.tcbs (k.threadList idx)).globalId globalId then k.threadList idx else invalidIdx

def findThreadByGlobalId (k : Kernel) (globalId : Word) : Option Nat :=
  let idx := k.threadMapFind globalId
  if idx = invalidIdx then none else some idx

def getThreadByIndex (k : Kernel) (index : Nat) : Nat := k.threadList index

/-- The first free slot. -/
def allocateTcb (k : Kernel) : Option Nat := (List.range maxThreads).find? fun i => !k.allocated i

def takeTcb (k : Kernel) (t : Nat) : Kernel := { k with allocated := Function.update k.allocated t true }

def freeTcb (k : Kernel) (t : Nat) : Kernel := { k with allocated := Function.update k.allocated t false }

/-- The loop of `thread_list_insert`: each cell gets what the cell before it held. -/
def shiftUp (list : Nat → Nat) (value : Nat) : Nat → Nat → Nat → Nat
  | _, 0 => list
  | i, n + 1 => shiftUp (Function.update list i value) (list i) (i + 1) n

def threadListInsert (k : Kernel) (tcbIdx : Nat) (globalId : Word) : Fallible Kernel := do
  let idx := k.threadListFind globalId
  kassert (k.threadCount ≤ idx || (k.tcbs (k.threadList idx)).globalId ≠ globalId) .threadAlreadyPresent
  let count := k.threadCount + 1
  .ok (k.setTable count (shiftUp k.threadList tcbIdx idx (count - idx)))

/-- The loop of `thread_list_delete` adds one to each cell where it should copy the next one. -/
def bumpFrom (list : Nat → Nat) : Nat → Nat → Nat → Nat
  | _, 0 => list
  | i, n + 1 => bumpFrom (Function.update list i ((list i + 1) % 256)) (i + 1) n

def threadListDelete (k : Kernel) (globalId : Word) : Fallible Kernel := do
  let idx := k.threadListFind globalId
  kassert (0 < k.threadCount) .illegalThreadCount
  let count := k.threadCount - 1
  .ok (k.setTable count (bumpFrom k.threadList idx (count - idx)))

/-- The fields that `create_thread` sets: the links, the saved context, `ipc_from` and the event of a
reused slot stay as they were. -/
def freshTcb (globalId : Word) (tcb : Tcb) : Tcb :=
  { tcb with
    globalId, localId := 0#32, pager := nilThread, scheduler := nilThread, addressSpace := none
    priority := 42#32, state := .inactive, utcb := 0#32 }

def createThread (k : Kernel) (globalId : Word) : Fallible (Option Nat × Kernel) := do
  kassert (version globalId ≠ 0#32) .zeroVersion
  if k.threadCount = maxThreads then .ok (none, k)
  else
    match k.allocateTcb with
    | none => .ok (none, k)
    | some t =>
      let k := (k.takeTcb t).setTcb t (freshTcb globalId)
      let k ← k.threadListInsert t globalId
      .ok (some t, k.log (.created t))

/-! ### The scheduler -/

def compareThreadByPrio (k : Kernel) (lhs rhs : Nat) : Bool :=
  (k.tcbs lhs).priority.ult (k.tcbs rhs).priority

def scheduleInsert (k : Kernel) (t : Nat) : Kernel :=
  let inserted := Heap.insert k.compareThreadByPrio maxThreads k.schedule t
  (k.setSchedule inserted.1).log (.inserted t inserted.2.isSome)

def scheduleDelete (k : Kernel) (heapIdx : Nat) : Kernel :=
  k.setSchedule (Heap.delete k.compareThreadByPrio k.schedule heapIdx)

def schedulePop (k : Kernel) : Kernel :=
  k.setSchedule (Heap.pop k.compareThreadByPrio k.schedule)

def findIdxInHeap (k : Kernel) (t : Nat) : Option Nat :=
  (List.range k.schedule.size).find? fun i => k.schedule.data i = t

/-- Writing to the ICSR pends a PendSV. -/
def requestReschedule (k : Kernel) (target : Option Nat) : Kernel :=
  (k.setTarget target).setPendsv true

def findThreadIdxToSchedule (k : Kernel) : Fallible (Nat × Kernel) := do
  kassert (k.schedule.size ≠ 0) .noTask
  .ok (k.schedule.data 0, k.schedulePop)

def findThreadIdxToScheduleFromTarget (k : Kernel) (target : Nat) : Fallible (Nat × Kernel) :=
  match k.findIdxInHeap target with
  | some heapIdx => do
    kassert (k.state target = .runnable) .threadNotActive
    .ok (target, k.scheduleDelete heapIdx)
  | none => k.findThreadIdxToSchedule

/-- `schedule_next_thread` before it looks for a thread: the current one goes back into the heap. -/
def requeueCurrent (k : Kernel) : Kernel :=
  if k.currentThreadIdx ≠ invalidIdx ∧ k.state k.currentThreadIdx = .runnable then
    k.scheduleInsert k.currentThreadIdx
  else k

def selectThread (k : Kernel) : Fallible (Nat × Kernel) :=
  match k.scheduleTarget with
  | some target => k.findThreadIdxToScheduleFromTarget target
  | none => k.findThreadIdxToSchedule

def scheduleNextThread (k : Kernel) : Fallible Kernel := do
  let (idx, k) ← k.requeueCurrent.selectThread
  let alarms ← k.alarms.updateKalarmEvent .reschedule (k.alarms.currentTime + 10#32)
  .ok (((k.setAlarms alarms).setCurrent idx).log (.selected idx))

/-- `thread_schedule_delete` of a thread, where it is in the heap. -/
def scheduleRemove (k : Kernel) (t : Nat) : Kernel :=
  match k.findIdxInHeap t with
  | some heapIdx => k.scheduleDelete heapIdx
  | none => k

/-- The heap's part of `set_thread_state`: only a change to or from `TS_RUNNABLE` moves the thread. -/
def moveSchedule (k : Kernel) (t : Nat) (state : ThreadState) : Kernel :=
  if state = .runnable ∧ k.state t ≠ .runnable then k.scheduleInsert t
  else if state ≠ .runnable ∧ k.state t = .runnable then k.scheduleRemove t
  else k

def setThreadState (k : Kernel) (t : Nat) (state : ThreadState) : Kernel :=
  ((k.moveSchedule t state).setTcb t fun tcb => { tcb with state }).log (.stateSet t state)

def setThreadPriority (k : Kernel) (t : Nat) (prio : Word) : Kernel :=
  let k := k.setTcb t fun tcb => { tcb with priority := prio }
  match k.findIdxInHeap t with
  | none => k
  | some heapIdx =>
    let sunk := Heap.sink k.compareThreadByPrio k.schedule heapIdx
    k.setSchedule (Heap.swim k.compareThreadByPrio sunk.1 sunk.2).1

/-- `register_kalarm_event` on the `kevent` of a TCB. -/
def registerKevent (k : Kernel) (t : Nat) : Fallible Kernel := do
  let alarms ← k.alarms.registerKalarmEvent (.kevent t)
  .ok ((k.setAlarms alarms).log (.registered k.alarms (.kevent t)))

def setKevent (k : Kernel) (t : Nat) (f : KalarmEvent → KalarmEvent) : Kernel :=
  k.setAlarms (k.alarms.setEvent (.kevent t) f)

def pauseThread (k : Kernel) (t : Nat) (untilTime : Word) : Fallible Kernel := do
  let ev := k.alarms.event (.kevent t)
  kassert (ev.prev = none ∧ ev.next = none) .keventLinked
  let k := k.log (.pausing t)
  let k := k.setKevent t fun _ =>
    { when := untilTime, type := .unpause, data := (k.tcbs t).globalId, prev := none, next := none }
  let k ← k.registerKevent t
  .ok (k.setThreadState t .paused)

def unlinkSiblings (k : Kernel) (t : Nat) : Kernel :=
  let k := match (k.tcbs t).nextSibling with
    | none => k
    | some n => k.setTcb n fun tcb => { tcb with prevSibling := (k.tcbs t).prevSibling }
  match (k.tcbs t).prevSibling with
  | none => k
  | some p => k.setTcb p fun tcb => { tcb with nextSibling := (k.tcbs t).nextSibling }

/-- `delete_thread` first removes the thread from the scheduler heap, if present. -/
def unschedule (k : Kernel) (t : Nat) : Kernel := if k.state t = .runnable then k.scheduleRemove t else k

/-- The state, the event and, for the current thread, `currentThreadIdx` stay. -/
def deleteThread (k : Kernel) (t : Nat) : Fallible Kernel := do
  let k := k.unschedule t
  let k ← k.threadListDelete (k.tcbs t).globalId
  .ok (((k.unlinkSiblings t).freeTcb t).log (.deleted t))

def writeUtcb (k : Kernel) (t : Nat) : Kernel :=
  let tcb := k.tcbs t
  k.setMem (k.mem.setUtcb tcb.utcb fun u =>
    { u with globalId := tcb.globalId, processorNo := 0#32, tPager := tcb.pager, error := 0#32 })

def getCurrentThread (k : Kernel) : Option Nat :=
  if k.currentThreadIdx = invalidIdx then none else some k.currentThreadIdx

def saveContext (k : Kernel) : Kernel :=
  match k.getCurrentThread with
  | none => k
  | some t => k.setTcb t fun tcb => { tcb with ctx := k.cpu }

/-- `isr_pendsv` around `switch_context`. -/
def switchContext (k : Kernel) : Fallible Kernel := do
  let k ← (k.setPendsv false).saveContext.scheduleNextThread
  .ok (k.setCpu (k.tcbs k.currentThreadIdx).ctx)

end Kernel
end BradypOS
