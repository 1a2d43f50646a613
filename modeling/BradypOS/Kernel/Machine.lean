import BradypOS.Kernel.Syscall
import BradypOS.Theory.Transition

/-!
# The machine: boot and the orders in which the hardware takes its steps

A trap, a timer tick, a context switch and a hard fault are atomic, and so is the kernel thread's
pass over its soft interrupt. Code of a thread runs only while no context switch is pending; a
tick may come at any time.
-/

namespace BradypOS

open L4

/-- What the boot loader and the linker fix. -/
structure BootInfo where
  kernSp : Word
  idleSp : Word
  kernTask : Word
  idleTask : Word
  rootSp : Word
  rootIp : Word
  rootUtcb : Word
  theKip : Word

def kernId : Word := globalId systemThreadStart 1#32
def idleId : Word := globalId (systemThreadStart + 1#32) 1#32
def rootId : Word := globalId userThreadStart 1#32

namespace Kernel

def sysTcb (sp priority localId : Word) (tcb : Tcb) : Tcb :=
  { tcb with
    scheduler := kernId, pager := kernId, utcb := localId, localId, priority
    ctx := { tcb.ctx with sp, ret := exceptionReturnToThread } }

/-- One of the three blocks of `create_sys_threads`. -/
def createSysThread (k : Kernel) (id sp pc priority localId : Word) (state : ThreadState) : Fallible Kernel := do
  match ← k.createThread id with
  | (none, _) => .error .nullDeref
  | (some t, k) =>
    let k := k.setTcb t (sysTcb sp priority localId)
    let frame : Frame := { r0 := 0#32, r1 := 0#32, r2 := 0#32, r3 := 0#32, pc, psr := 1#32 <<< 24 }
    .ok ((k.setFrame sp fun _ => frame).setThreadState t state)

def createSysThreads (k : Kernel) (boot : BootInfo) : Fallible Kernel := do
  let k ← k.createSysThread kernId boot.kernSp boot.kernTask 0#32 0#32 .inactive
  let k ← k.createSysThread idleId boot.idleSp boot.idleTask 0xFFFFFFFF#32 0#32 .runnable
  k.createSysThread rootId boot.rootSp boot.rootIp 42#32 boot.rootUtcb .runnable

/-- Zeroed static memory after `kalarm_init` and `init_thread_system`. -/
def init (boot : BootInfo) : Kernel where
  tcbs _ :=
    { globalId := 0, localId := 0, state := .inactive, ctx := ⟨0, 0, 0, 0, 0, 0, 0, 0, 0, 0⟩, addressSpace := none, utcb := 0
      priority := 0, pager := 0, scheduler := 0, ipcFrom := 0, nextSibling := none, prevSibling := none }
  allocated _ := false
  threadCount := 0
  threadList _ := 0
  schedule := Heap.empty
  currentThreadIdx := invalidIdx
  scheduleTarget := none
  pendsv := false
  alarms :=
    { nextEvent := none, currentTime := 0
      event := fun _ => { when := 0, type := .reschedule, data := 0, prev := none, next := none } }
  caller := 0
  softirqPending := false
  asPool _ := { refCount := 0, utcbPage := 0, firstThread := 0 }
  asAllocated _ := false
  theKip := boot.theKip
  kipFpage := Fpage.addRights (Fpage.log2 boot.theKip 10) Fpage.readable
  mem :=
    { utcb := fun _ => { globalId := 0, processorNo := 0, tPager := 0, error := 0, sender := 0, words := fun _ => 0 }
      frame := fun _ => ⟨0, 0, 0, 0, 0, 0⟩
      byte := fun _ => 0 }
  cpu := ⟨0, 0, 0, 0, 0, 0, 0, 0, 0, 0⟩
  trace := []

/-- `main` up to the wait for the first context switch. -/
def boot (info : BootInfo) : Fallible Kernel := do
  let k ← (init info).createSysThreads info
  .ok (k.requestReschedule none)

/-- The thread that runs is one of the user threads. -/
def InUserThread (k : Kernel) : Prop :=
  k.currentThreadIdx ≠ invalidIdx ∧ k.currentThreadIdx ≠ kernTcb ∧ k.currentThreadIdx ≠ idleTcb ∧ k.pendsv = false

instance (k : Kernel) : Decidable k.InUserThread := inferInstanceAs (Decidable (_ ∧ _))

def InKernelThread (k : Kernel) : Prop := k.currentThreadIdx = kernTcb ∧ k.pendsv = false

instance (k : Kernel) : Decidable k.InKernelThread := inferInstanceAs (Decidable (_ ∧ _))

end Kernel

/-- The machine's steps. -/
inductive Kernel.Action where
  /-- A user thread runs: its registers and the memory change. -/
  | user (cpu : Context) (mem : Memory)
  /-- `svc` in a user thread. -/
  | svc
  /-- The timer interrupt. -/
  | systick
  /-- The pending context switch. -/
  | pendsv
  /-- The kernel thread's `softirq_execute`, with fuel for nested IPC. -/
  | softirq (fuel : Nat)
  /-- The kernel thread's `L4_yield`. -/
  | yield
  /-- A hard fault in the running thread. -/
  | hardfault (lr : Word)

namespace Kernel

/-- Whether the hardware can take the step. -/
def Enabled (k : Kernel) : Action → Prop
  | .user _ _ | .svc => k.InUserThread
  | .systick => True
  | .pendsv => k.pendsv = true
  | .softirq _ | .yield => k.InKernelThread
  | .hardfault _ => k.InUserThread

instance (k : Kernel) : (a : Action) → Decidable (k.Enabled a)
  | .user _ _ | .svc | .hardfault _ => inferInstanceAs (Decidable k.InUserThread)
  | .systick => inferInstanceAs (Decidable True)
  | .pendsv => inferInstanceAs (Decidable (_ = true))
  | .softirq _ | .yield => inferInstanceAs (Decidable k.InKernelThread)

/-- The effect of a step that is taken. -/
def effect (k : Kernel) : Action → Fallible Kernel
  | .user cpu mem => .ok ((k.setCpu cpu).setMem mem)
  | .svc => k.isrSvcall
  | .systick => k.isrSystick
  | .pendsv => k.switchContext
  | .softirq fuel => k.softirqExecute fuel
  | .yield => k.threadSwitch kernTcb nilThread
  | .hardfault lr => k.isrHardfault lr

/-- One step of the machine that does not end in a panic. -/
def Step (k : Kernel) (a : Action) (k' : Kernel) : Prop := k.Enabled a ∧ k.effect a = .ok k'

/-- `Step` as a partial function. -/
def next (k : Kernel) (a : Action) : Option Kernel := if k.Enabled a then (k.effect a).toOption else none

theorem step_of_next (k : Kernel) (a : Action) (k' : Kernel) (h : k.next a = some k') : Step k a k' := by
  unfold next at h
  split at h
  · rename_i enabled
    exact ⟨enabled, ok_of_toOption h⟩
  · cases h

end Kernel

/-! ### A small system: the root thread sets up its space and starts a second thread -/

namespace SmallSystem

open Kernel

def bootInfo : BootInfo where
  kernSp := 0x2000#32
  idleSp := 0x3000#32
  kernTask := 0x100#32
  idleTask := 0x200#32
  rootSp := 0x4000#32
  rootIp := 0x300#32
  rootUtcb := 0x5000#32
  theKip := 0x10000#32

def secondId : Word := globalId 0x41#32 1#32

/-- The running thread loads its registers and the arguments of a system call. -/
def load (sp r0 r1 r2 r3 r4 r7 : Word) (k : Kernel) : Kernel.Action :=
  .user { k.cpu with sp, ret := exceptionReturnToThread, r4, r7 } (k.mem.setFrame sp fun f => { f with r0, r1, r2, r3 })

/-- The running thread fills the first message registers. -/
def fill (utcb mr0 mr1 mr2 : Word) (k : Kernel) : Kernel.Action :=
  .user k.cpu (k.mem.setUtcb utcb fun u => ((u.setMr 0 mr0).setMr 1 mr1).setMr 2 mr2)

/-- The trap, and the kernel thread's turn. -/
def serve : List (Kernel → Kernel.Action) :=
  [fun _ => .svc, fun _ => .pendsv, fun _ => .softirq 17, fun _ => .yield, fun _ => .pendsv]

def setup : List (Kernel → Kernel.Action) :=
  [fun _ => .pendsv, fun k => load 0x4000#32 rootId 0#32 k.kipFpage (Fpage.log2 0x5000#32 12) 0#32 1#32 k] ++ serve ++
  [load 0x4000#32 secondId rootId rootId rootId 0x5100#32 2#32] ++ serve ++
  [load 0x4000#32 secondId 0#32 0#32 0#32 0#32 5#32, fill 0x5000#32 2#32 0x1234#32 0x6020#32] ++ serve

/-- The system in which the second thread, slot 3, has been started and runs. -/
def start : Option Kernel := (boot bootInfo).toOption.bind fun k => Theory.follow next k setup

/-- Whatever a computation finds in the small system holds in a state reached from boot. -/
theorem reached {p : Kernel → Bool} (h : start.any p = true) :
    ∃ b k as, boot bootInfo = .ok b ∧ Theory.Run Step b as k ∧ start = some k ∧ p k = true := by
  obtain ⟨k, found, holds⟩ := (Option.any_eq_true _ _).mp h
  obtain ⟨b, booted, ran⟩ := Option.bind_eq_some_iff.mp found
  obtain ⟨as, run⟩ := Theory.run_of_follow step_of_next ran
  exact ⟨b, k, as, ok_of_toOption booted, run, found, holds⟩

end SmallSystem
end BradypOS
