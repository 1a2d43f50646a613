import BradypOS.L4.Types

/-!
# Kernel alarms (`kern/kalarm.c`)

The events are statically allocated: one in every TCB and the scheduler's own. A pointer to one
is an `EventRef`. The queue hangs together by the links inside the events alone, so stale links are
part of the state.
-/

namespace BradypOS

/-- Every `panic` and `kassert` of the kernel. -/
inductive Panic where
  | threadAlreadyPresent | illegalThreadCount | zeroVersion | noTask | threadNotActive
  | keventLinked | eventAtInsertionPoint | unpauseNonexistent | noCurrentThread
  | syscallForIsr | syscallNotImplemented | rootThreadExited | rootThreadDied | hardfaultTriggered
  | noAddressSpace | preemptionControl | compoundString | timepointTimeout | pagerMessageInRecv
  deriving DecidableEq, Repr

/-- Why a kernel function does not return. -/
inductive Halt where
  | panic (site : Panic)
  | nullDeref
  /-- A loop that walks a cycle. -/
  | hang
  /-- The recursion of `doIpc` is deeper than its fuel. -/
  | depth
  deriving DecidableEq, Repr

abbrev Fallible := Except Halt

/-- A call that returned ran each of its parts to the end. -/
theorem bind_ok {α β : Type} {x : Fallible α} {f : α → Fallible β} {b : β} (h : x >>= f = .ok b) :
    ∃ a, x = .ok a ∧ f a = .ok b := by
  cases x with
  | error e => cases h
  | ok a => exact ⟨a, rfl, h⟩

theorem bind_error {α β : Type} {x : Fallible α} {f : α → Fallible β} {e : Halt} (h : x >>= f = .error e) :
    x = .error e ∨ ∃ a, x = .ok a ∧ f a = .error e := by
  cases x with
  | error e' => exact .inl (by cases h; rfl)
  | ok a => exact .inr ⟨a, rfl, h⟩

theorem ok_of_toOption {α : Type} {x : Fallible α} {a : α} (h : x.toOption = some a) : x = .ok a := by
  cases x with
  | error e => cases h
  | ok b => cases h; rfl

def kassert (cond : Bool) (site : Panic) : Fallible Unit := if cond then .ok () else .error (.panic site)

theorem kassert_ok {cond : Bool} {site : Panic} {u : Unit} (h : kassert cond site = .ok u) : cond = true := by
  unfold kassert at h
  split at h
  · assumption
  · cases h

theorem kassert_of {cond : Bool} {site : Panic} (h : cond = true) : kassert cond site = .ok () := by
  rw [kassert, if_pos h]

/-- A `struct kalarm_event *`: `reschedule_event` or the `kevent` of a TCB. -/
inductive EventRef where
  | reschedule
  | kevent (idx : Nat)
  deriving DecidableEq, Repr

inductive KalarmType where
  | reschedule | unpause | timeout
  deriving DecidableEq, Repr

structure KalarmEvent where
  when : Word
  type : KalarmType
  data : Word
  prev : Option EventRef
  next : Option EventRef

instance : Inhabited KalarmEvent := ⟨⟨0, .reschedule, 0, none, none⟩⟩

/-- `next_event`, `current_time` and the contents of every event. -/
structure Alarms where
  nextEvent : Option EventRef
  currentTime : Word
  event : EventRef → KalarmEvent

/-- A `struct kalarm_event **`. -/
inductive EventSlot where
  | head
  | next (of : EventRef)
  deriving DecidableEq, Repr

namespace Alarms

def read (a : Alarms) : EventSlot → Option EventRef
  | .head => a.nextEvent
  | .next e => (a.event e).next

def setEvent (a : Alarms) (e : EventRef) (f : KalarmEvent → KalarmEvent) : Alarms :=
  { a with event := Function.update a.event e (f (a.event e)) }

def setNext (a : Alarms) (e : EventRef) (next : Option EventRef) : Alarms :=
  a.setEvent e fun ev => { ev with next }

def setPrev (a : Alarms) (e : EventRef) (prev : Option EventRef) : Alarms :=
  a.setEvent e fun ev => { ev with prev }

def write (a : Alarms) (value : Option EventRef) : EventSlot → Alarms
  | .head => { a with nextEvent := value }
  | .next e => a.setNext e value

/-- There are 17 events, so a walk of more than 17 steps goes round in a circle. -/
def maxEvents : Nat := 17

def findInsertionPointLoop (a : Alarms) (when : Word) : Nat → EventSlot → Fallible EventSlot
  | 0, _ => .error .hang
  | fuel + 1, curPtr =>
    match a.read curPtr with
    | none => .ok curPtr
    | some e => if (a.event e).when < when then findInsertionPointLoop a when fuel (.next e) else .ok curPtr

def findInsertionPoint (a : Alarms) (when : Word) : Fallible EventSlot :=
  findInsertionPointLoop a when (maxEvents + 1) .head

/-- What is put before an event gets the event as its `prev`, not as its `next`. -/
def registerKalarmEvent (a : Alarms) (ev : EventRef) : Fallible Alarms := do
  let insPtr ← a.findInsertionPoint (a.event ev).when
  let oldEv := a.read insPtr
  kassert (oldEv ≠ some ev) .eventAtInsertionPoint
  let a := (a.write (some ev) insPtr).setPrev ev oldEv
  match oldEv with
  | none => .ok a
  | some old =>
    let a := match (a.event old).next with
      | none => a
      | some n => a.setPrev n (some ev)
    .ok (a.setNext old (some ev))

def unlinkEvent (a : Alarms) (ev : EventRef) : Alarms :=
  let a := match (a.event ev).next with
    | none => a
    | some n => a.setPrev n (a.event ev).prev
  let a := match (a.event ev).prev with
    | none => a
    | some p => a.setNext p (a.event ev).next
  if a.nextEvent = some ev then { a with nextEvent := (a.event ev).next } else a

/-- The insertion point is looked up before the event is unlinked. -/
def updateKalarmEvent (a : Alarms) (ev : EventRef) (when : Word) : Fallible Alarms := do
  let insPtr ← a.findInsertionPoint when
  let a := a.unlinkEvent ev
  let a := a.setEvent ev fun e => { e with when }
  let a := a.setPrev ev (a.read insPtr)
  let next := match a.read insPtr with
    | none => none
    | some old => (a.event old).next
  let a := a.setNext ev next
  let a := match a.read insPtr with
    | none => a
    | some old => a.setPrev old (some ev)
  .ok (a.write (some ev) insPtr)

def hasPendingKalarm (a : Alarms) : Bool :=
  match a.nextEvent with
  | none => false
  | some e => (a.event e).when ≤ a.currentTime

/-- `pop_kalarm_event` where `next_event` is not NULL. -/
def popKalarmEvent (a : Alarms) (current : EventRef) : Alarms :=
  let next := (a.event current).next
  let a := match next with
    | none => a
    | some n => a.setPrev n none
  let a := (a.setNext current none).setPrev current none
  { a with nextEvent := next }

end Alarms
end BradypOS
