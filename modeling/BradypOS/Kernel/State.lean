import BradypOS.Heap.Basic
import BradypOS.Kernel.Kalarm

/-!
# The kernel state

A pointer into `tcb_store` is the index of its slot and a pointer into `as_pool` the index of its
address space. UTCBs, the frames that exceptions push on the thread stacks and the string buffers
are three stores, each read at the address the kernel holds. Only the fields that kernel code reads
or writes are here. `cpu` is the context of the running thread. `trace` records what the kernel did
and is read by nothing.
-/

namespace BradypOS

inductive ThreadState where
  | inactive | active | runnable | svcBlocked | recvBlocked | sendBlocked | paused
  deriving DecidableEq, Repr

/-- `struct thread_context_t`: the system call number is in `r7`, a fifth argument in `r4`. -/
structure Context where
  sp : Word
  ret : Word
  r4 : Word
  r5 : Word
  r6 : Word
  r7 : Word
  r8 : Word
  r9 : Word
  r10 : Word
  r11 : Word

/-- The words an exception pushes: `THREAD_CTX_STACK_R0` and so on. -/
structure Frame where
  r0 : Word
  r1 : Word
  r2 : Word
  r3 : Word
  pc : Word
  psr : Word

/-- `struct L4_utcb`: the message registers are words 0 to 15, the buffer registers 16 to 23. -/
structure Utcb where
  globalId : Word
  processorNo : Word
  tPager : Word
  error : Word
  sender : Word
  words : Nat → Word

namespace Utcb

def mr (u : Utcb) (i : Nat) : Word := u.words i
def br (u : Utcb) (i : Nat) : Word := u.words (L4.mrCount + i)
def setMr (u : Utcb) (i : Nat) (w : Word) : Utcb := { u with words := Function.update u.words i w }

end Utcb

/-- UTCBs, exception frames and bytes are stores of their own, and the TCBs another: a store into one changes nothing in the others.
`Scheduler/Overlay` and `Ipc/Bytes` follow areas that overlap. -/
structure Memory where
  utcb : Word → Utcb
  frame : Word → Frame
  byte : Word → BitVec 8

namespace Memory

def setUtcb (m : Memory) (p : Word) (f : Utcb → Utcb) : Memory :=
  { m with utcb := Function.update m.utcb p (f (m.utcb p)) }

def setFrame (m : Memory) (sp : Word) (f : Frame → Frame) : Memory :=
  { m with frame := Function.update m.frame sp (f (m.frame sp)) }

end Memory

/-- `struct tcb_t`; its `kevent` is kept in the alarms. -/
structure Tcb where
  globalId : Word
  localId : Word
  state : ThreadState
  ctx : Context
  addressSpace : Option Nat
  utcb : Word
  priority : Word
  pager : Word
  scheduler : Word
  ipcFrom : Word
  nextSibling : Option Nat
  prevSibling : Option Nat

/-- `struct as_t`. -/
structure AddressSpace where
  refCount : Nat
  utcbPage : Word
  firstThread : Nat

/-- What the kernel did, for the properties that speak of a whole run. -/
inductive Event where
  /-- `thread_schedule_insert`, and whether there was room. -/
  | inserted (idx : Nat) (ok : Bool)
  /-- `schedule_next_thread` chose a thread. -/
  | selected (idx : Nat)
  | created (idx : Nat)
  | deleted (idx : Nat)
  /-- `set_thread_state`. -/
  | stateSet (idx : Nat) (state : ThreadState)
  /-- A call of `register_kalarm_event`, with the alarms as it found them. -/
  | registered (queue : Alarms) (ev : EventRef)
  | fired (now : Word) (ev : EventRef)
  | pausing (idx : Nat)
  /-- `unpause_thread` with its target's state and whether its slot is in use. -/
  | unpaused (idx : Nat) (was : ThreadState) (live : Bool)
  /-- A thread starts to wait for an IPC partner. -/
  | waiting (idx : Nat) (state : ThreadState) (timeout : L4.Time) (now : Word)
  | timedOut (idx : Nat)
  /-- A send phase starts. -/
  | sending (idx : Nat) (dest : Word)
  | copied (src dst : Nat)
  | started (pager idx : Nat)
  /-- An error of a send (`p` clear) or receive phase is reported. -/
  | failed (idx : Nat) (p : Bool) (err : L4.IpcErrorCode)

def maxThreads : Nat := 16

/-- `THREAD_IDX_INVALID`. -/
def invalidIdx : Nat := 17

structure Kernel where
  tcbs : Nat → Tcb
  allocated : Nat → Bool
  threadCount : Nat
  threadList : Nat → Nat
  schedule : Heap Nat
  currentThreadIdx : Nat
  scheduleTarget : Option Nat
  pendsv : Bool
  alarms : Alarms
  caller : Nat
  softirqPending : Bool
  asPool : Nat → AddressSpace
  asAllocated : Nat → Bool
  /-- The address of `the_kip`. -/
  theKip : Word
  kipFpage : Word
  mem : Memory
  cpu : Context
  trace : List Event

namespace Kernel

def setTcbs (k : Kernel) (tcbs : Nat → Tcb) : Kernel := { k with tcbs }

def setTcb (k : Kernel) (t : Nat) (f : Tcb → Tcb) : Kernel :=
  k.setTcbs (Function.update k.tcbs t (f (k.tcbs t)))

def setPendsv (k : Kernel) (pendsv : Bool) : Kernel := { k with pendsv }

def setTarget (k : Kernel) (scheduleTarget : Option Nat) : Kernel := { k with scheduleTarget }

def setCpu (k : Kernel) (cpu : Context) : Kernel := { k with cpu }

def setCaller (k : Kernel) (caller : Nat) : Kernel := { k with caller }

def setPending (k : Kernel) (softirqPending : Bool) : Kernel := { k with softirqPending }

def setCurrent (k : Kernel) (idx : Nat) : Kernel := { k with currentThreadIdx := idx }

def setSchedule (k : Kernel) (schedule : Heap Nat) : Kernel := { k with schedule }

def setAlarms (k : Kernel) (alarms : Alarms) : Kernel := { k with alarms }

def setMem (k : Kernel) (mem : Memory) : Kernel := { k with mem }

def setTable (k : Kernel) (threadCount : Nat) (threadList : Nat → Nat) : Kernel := { k with threadCount, threadList }

def setAs (k : Kernel) (as : Nat) (f : AddressSpace → AddressSpace) : Kernel :=
  { k with asPool := Function.update k.asPool as (f (k.asPool as)) }

def log (k : Kernel) (e : Event) : Kernel := { k with trace := e :: k.trace }

def state (k : Kernel) (t : Nat) : ThreadState := (k.tcbs t).state

end Kernel
end BradypOS
