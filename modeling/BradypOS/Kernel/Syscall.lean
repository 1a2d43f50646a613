import BradypOS.Kernel.Ipc

/-!
# System calls (`kern/syscall.c`, `kern/softirq.c`, `kern/syscall/`)

The trap marks the caller and hands the call to the kernel thread, whose soft interrupt runs it.
-/

namespace BradypOS

open L4

/-- `kern_tcb`, `idle_tcb` and `root_tcb`: the first three slots that `createSysThreads` allocates. -/
def kernTcb : Nat := 0
def idleTcb : Nat := 1
def rootTcb : Nat := 2

/-- The sum wraps around in the machine word. -/
def fpageContainsObject (page objectBase objectSize : Word) : Bool :=
  Fpage.address page ≤ objectBase && objectBase + objectSize < Fpage.address page + Fpage.size page

/-- The size of a UTCB as `thread_control` and `space_control` check it. -/
def utcbSize : Word := 160#32

/-- `enum L4_tstate` for a thread state, as `syscall_schedule` answers it. -/
def ThreadState.tstate : ThreadState → Word
  | .inactive => 2#32
  | .runnable => 3#32
  | .active | .svcBlocked => 7#32
  | .recvBlocked => 6#32
  | .sendBlocked => 4#32
  | .paused => 1#32

namespace Kernel

def callerFrame (k : Kernel) : Frame := k.mem.frame (k.tcbs k.caller).ctx.sp

/-- Results of a system call, in the saved frame at `sp`. -/
def setFrame (k : Kernel) (sp : Word) (f : Frame → Frame) : Kernel :=
  k.setMem (k.mem.setFrame sp f)

def setError (k : Kernel) (t : Nat) (err : ErrorCode) : Kernel :=
  k.setMem (k.mem.setUtcb (k.tcbs t).utcb fun u => { u with error := err.toWord })

/-- `sp[THREAD_CTX_STACK_R0] = 0` and the error word of the caller. -/
def refuse (k : Kernel) (sp : Word) (err : ErrorCode) : Kernel :=
  (k.setFrame sp fun f => { f with r0 := 0#32 }).setError k.caller err

def unblockCaller (k : Kernel) : Kernel := k.setThreadState k.caller .runnable

/-! ### `thread_control.c` -/

def syscallThreadControlDelete (k : Kernel) (sp : Word) (dest : Nat) : Fallible Kernel := do
  kassert (dest ≠ rootTcb) .rootThreadExited
  let k ← k.deleteThread dest
  let k := k.setFrame sp fun f => { f with r0 := 1#32 }
  .ok (if dest = k.caller then k else k.unblockCaller)

def syscallThreadControlModify (k : Kernel) (sp : Word) (destTcb : Nat)
    (dest spaceSpecifier scheduler pager utcbLocation : Word) : Fallible Kernel :=
  match k.findThreadByGlobalId spaceSpecifier with
  | none => .ok (k.refuse sp .invalidSpace)
  | some space =>
    if !isNilThread scheduler && (k.findThreadByGlobalId scheduler).isNone then
      .ok (k.refuse sp .invalidScheduler)
    else
      match (k.tcbs space).addressSpace with
      | none => .error .nullDeref
      | some as =>
        if !fpageContainsObject (k.asPool as).utcbPage utcbLocation utcbSize then .ok (k.refuse sp .utcbArea)
        else
          let k := k.setTcb destTcb fun tcb =>
            { tcb with
              globalId := dest, addressSpace := some as
              scheduler := if isNilThread scheduler then tcb.scheduler else scheduler
              pager := if sameThreads pager nilThread then tcb.pager else pager
              utcb := if utcbLocation = 0xFFFFFFFF#32 then tcb.utcb else utcbLocation }
          .ok ((k.writeUtcb destTcb).setFrame sp fun f => { f with r0 := 1#32 })

/-- The new thread joins the sibling list behind the thread that names its space. -/
def joinSiblings (k : Kernel) (tcb space : Nat) : Kernel :=
  let k := k.setTcb tcb fun new =>
    { new with
      addressSpace := (k.tcbs space).addressSpace, nextSibling := (k.tcbs space).nextSibling
      prevSibling := some space }
  k.setTcb space fun old => { old with nextSibling := some tcb }

/-- What a new thread gets besides its slot; without a space to join it cannot be started yet. -/
def placeThread (k : Kernel) (tcb : Nat) (space : Option Nat) (dest scheduler pager utcbLocation : Word) : Kernel :=
  let k := k.setTcb tcb fun new =>
    { new with
      globalId := dest, localId := utcbLocation, utcb := utcbLocation
      state := if isNilThread pager || space.isNone then .inactive else .active }
  let k := match space with
    | none => k
    | some s => k.joinSiblings tcb s
  k.setTcb tcb fun new => { new with pager, scheduler }

def syscallThreadControlCreate (k : Kernel) (sp : Word) (dest spaceControl scheduler pager utcbLocation : Word) :
    Fallible Kernel :=
  let space := k.findThreadByGlobalId spaceControl
  if space = none ∧ ¬ sameThreads dest spaceControl then .ok (k.refuse sp .invalidSpace)
  else if (space.map fun s => (k.tcbs s).addressSpace) = some none then .ok (k.refuse sp .invalidSpace)
  else if !isNilThread scheduler && (k.findThreadByGlobalId scheduler).isNone then
    .ok (k.refuse sp .invalidScheduler)
  else
    let outside := space.bind fun s => (k.tcbs s).addressSpace.map fun as =>
      !fpageContainsObject (k.asPool as).utcbPage utcbLocation utcbSize
    if outside = some true then .ok (k.refuse sp .kipArea)
    else do
      match ← k.createThread dest with
      | (none, _) => .error .nullDeref
      | (some tcb, k) =>
        let k := k.placeThread tcb space dest scheduler pager utcbLocation
        .ok (k.setFrame sp fun f => { f with r0 := 1#32 })

def syscallThreadControl (k : Kernel) : Fallible Kernel :=
  let sp := (k.tcbs k.caller).ctx.sp
  let frame := k.mem.frame sp
  let utcbLocation := (k.tcbs k.caller).ctx.r4
  if !isNilThread frame.r0 && threadNo frame.r0 < userThreadStart then .ok (k.refuse sp .noPrivilege)
  else
    match k.findThreadByGlobalId frame.r0 with
    | some dest =>
      if sameThreads frame.r1 nilThread then k.syscallThreadControlDelete sp dest
      else do
        let k ← k.syscallThreadControlModify sp dest frame.r0 frame.r1 frame.r2 frame.r3 utcbLocation
        .ok k.unblockCaller
    | none =>
      if sameThreads frame.r1 nilThread then .ok (k.refuse sp .invalidSpace).unblockCaller
      else do
        let k ← k.syscallThreadControlCreate sp frame.r0 frame.r1 frame.r2 frame.r3 utcbLocation
        .ok k.unblockCaller

/-! ### `memory.c`, `space_control.c` -/

def maxAddressSpaces : Nat := 16

def takeAs (k : Kernel) (as : Nat) : Kernel := { k with asAllocated := Function.update k.asAllocated as true }

def createAs (k : Kernel) (owner : Nat) : Fallible (Nat × Kernel) :=
  match (List.range maxAddressSpaces).find? fun i => !k.asAllocated i with
  | none => .error (.panic .noAddressSpace)
  | some as =>
    .ok (as, (k.takeAs as).setAs as fun _ => { refCount := 1, utcbPage := 0#32, firstThread := owner })

/-- The address space of a thread; one without gets a new one, with itself as the only thread. -/
def ensureAs (k : Kernel) (t : Nat) : Fallible (Nat × Kernel) :=
  match (k.tcbs t).addressSpace with
  | some as => .ok (as, k)
  | none => do
    let (as, k) ← k.createAs t
    let k := k.setTcb t fun tcb =>
      { tcb with nextSibling := none, prevSibling := none, addressSpace := some as }
    .ok (as, k)

/-- The check of a UTCB area that was set before reports the error and goes on. -/
def checkUtcbArea (k : Kernel) (sp : Word) (as : Nat) : Kernel :=
  if (k.asPool as).utcbPage ≠ 0#32 then k.refuse sp .utcbArea else k

/-- The target can be started once it has a UTCB inside the area, and a pager. -/
def activateTarget (k : Kernel) (target : Nat) (kipArea utcbArea : Word) : Kernel :=
  if kipArea ≠ 0#32 ∧ utcbArea ≠ 0#32 ∧ fpageContainsObject utcbArea (k.tcbs target).utcb utcbSize ∧
      ¬ isNilThread (k.tcbs target).pager then
    (k.writeUtcb target).setThreadState target .active
  else k

def syscallSpaceControl (k : Kernel) : Fallible Kernel :=
  let sp := (k.tcbs k.caller).ctx.sp
  let frame := k.mem.frame sp
  let kipArea := frame.r2
  let utcbArea := frame.r3
  match k.findThreadByGlobalId frame.r0 with
  | none => .ok (k.refuse sp .invalidSpace)
  | some target =>
    if kipArea ≠ k.kipFpage then .ok (k.refuse sp .kipArea)
    else do
      let (as, k) ← k.ensureAs target
      let k := (k.checkUtcbArea sp as).setAs as fun space => { space with utcbPage := utcbArea }
      let k := k.activateTarget target kipArea utcbArea
      .ok (k.setFrame sp fun f => { f with r0 := 1#32, r1 := 0#32 })

/-! ### `schedule.c`, `unmap.c` and the kernel interface -/

def syscallSchedule (k : Kernel) : Fallible Kernel :=
  let sp := (k.tcbs k.caller).ctx.sp
  let frame := k.mem.frame sp
  let processorControl := frame.r2
  let prio := frame.r3
  let unchanged : Word := 0xFFFFFFFF#32
  match k.findThreadByGlobalId frame.r0 with
  | none => .ok (k.refuse sp .invalidThread)
  | some dest =>
    let sameSpace := (k.findThreadByGlobalId (k.tcbs dest).scheduler).map fun s =>
      decide ((k.tcbs k.caller).addressSpace = (k.tcbs s).addressSpace)
    if sameSpace ≠ some true then .ok (k.refuse sp .noPrivilege)
    else if processorControl ≠ unchanged ∧ processorControl ≠ 0#32 then .ok (k.refuse sp .invalidParameter)
    else if prio ≠ unchanged ∧ prio < (k.tcbs k.caller).priority then .ok (k.refuse sp .invalidParameter)
    else if (k.tcbs k.caller).ctx.r4 ≠ unchanged then .error (.panic .preemptionControl)
    else
      let k := if prio ≠ unchanged then k.setThreadPriority dest prio else k
      let k := k.setMem (k.mem.setUtcb (k.tcbs dest).utcb fun u => { u with processorNo := 0#32 })
      .ok (k.setFrame sp fun f => { f with r0 := (k.state dest).tstate, r1 := 0#32 })

def syscallUnmap (k : Kernel) : Kernel := k.unblockCaller

/-- The constants of `kip.s`. -/
def kipApiVersion : Word := 0x84070000#32
def kipApiFlags : Word := 0#32
def kipKernelId : Word := 0x2A010000#32

def syscallKernelInterface (k : Kernel) : Kernel :=
  k.setFrame (k.tcbs k.caller).ctx.sp fun f =>
    { f with r0 := k.theKip, r1 := kipApiVersion, r2 := kipApiFlags, r3 := kipKernelId }

/-! ### The soft interrupt and the trap -/

/-- `fuel` is the depth that nested IPC may reach. A number without a system call does nothing. -/
def softirqSvc (fuel : Nat) (k : Kernel) : Fallible Kernel :=
  match Syscall.ofWord (k.tcbs k.caller).ctx.r7 with
  | some .kernelInterface => .ok k.syscallKernelInterface.unblockCaller
  | some .spaceControl => do
    let k ← k.syscallSpaceControl
    .ok k.unblockCaller
  | some .threadControl => k.syscallThreadControl
  | some .ipc => syscallIpc fuel k
  | some .unmap => .ok k.syscallUnmap
  | some .threadSwitch | some .systemClock => .error (.panic .syscallForIsr)
  | some .schedule => do
    let k ← k.syscallSchedule
    .ok k.unblockCaller
  | some .processorControl | some .memoryControl | some .lipc | some .exchangeRegisters =>
    .error (.panic .syscallNotImplemented)
  | none => .ok k

/-- One round of `softirq_execute`: no trap comes in between, so none is needed a second time. `Softirq/Machine`, `Ipc/Activations`
and `Thread/Preempted` let interrupts come in between. -/
def softirqExecute (fuel : Nat) (k : Kernel) : Fallible Kernel := do
  let k ← (if k.softirqPending then softirqSvc fuel k else .ok k)
  .ok ((k.setPending false).setThreadState kernTcb .inactive)

def softirqSchedule (k : Kernel) : Kernel :=
  (k.setPending true).setThreadState kernTcb .runnable

/-- `SYS_THREAD_SWITCH`: the kernel thread yields without a pause. -/
def threadSwitch (k : Kernel) (current : Nat) (dest : Word) : Fallible Kernel := do
  let k ← (if current ≠ kernTcb then k.pauseThread current (k.alarms.currentTime + 1#32) else .ok k)
  .ok (k.requestReschedule (k.findThreadByGlobalId dest))

/-- Every system call that the trap itself does not handle. -/
def deferSyscall (k : Kernel) (current : Nat) : Kernel :=
  let k := (k.setCaller current).setThreadState current .svcBlocked
  k.softirqSchedule.requestReschedule (some kernTcb)

/-- `__isr_svcall`, with the trapping thread's registers in `cpu`. -/
def isrSvcall (k : Kernel) : Fallible Kernel :=
  match k.getCurrentThread with
  | none => .error (.panic .noCurrentThread)
  | some current =>
    match Syscall.ofWord k.cpu.r7 with
    | some .threadSwitch => k.threadSwitch current (k.mem.frame k.cpu.sp).r0
    | some .systemClock =>
      .ok (k.setFrame k.cpu.sp fun f => { f with r0 := k.alarms.currentTime, r1 := 0#32 })
    | _ => .ok (k.deferSyscall current)

/-! ### The timer interrupt and the hard fault -/

def unpauseThread (k : Kernel) (data : Word) : Fallible Kernel :=
  match k.findThreadByGlobalId data with
  | none => .error (.panic .unpauseNonexistent)
  | some target =>
    let k := k.log (.unpaused target (k.state target) (k.allocated target))
    .ok ((k.setThreadState target .runnable).requestReschedule none)

/-- `kalarm_event_funcs[ev->type](ev->data)`. -/
def kalarmEventFunc (k : Kernel) (ev : KalarmEvent) : Fallible Kernel :=
  match ev.type with
  | .reschedule => .ok (k.requestReschedule none)
  | .unpause => k.unpauseThread ev.data
  | .timeout => .ok (k.doIpcTimeout ev.data)

/-- Every round clears the link that the next one starts from, so the fuel is never used up. -/
def systickLoop : Nat → Kernel → Fallible Kernel
  | 0, _ => .error .hang
  | fuel + 1, k =>
    match k.alarms.nextEvent with
    | none => .ok k
    | some ev =>
      if k.alarms.hasPendingKalarm then do
        let data := k.alarms.event ev
        let k := (k.setAlarms (k.alarms.popKalarmEvent ev)).log (.fired k.alarms.currentTime ev)
        let k ← k.kalarmEventFunc data
        systickLoop fuel k
      else .ok k

def isrSystick (k : Kernel) : Fallible Kernel :=
  systickLoop (Alarms.maxEvents + 2)
    (k.setAlarms { k.alarms with currentTime := k.alarms.currentTime + 1#32 })

def isrHardfault (k : Kernel) (lr : Word) : Fallible Kernel :=
  if !lr.getLsbD 3 then .error (.panic .hardfaultTriggered)
  else
    match k.getCurrentThread with
    | none => .error .nullDeref
    | some current =>
      let no := threadNo (k.tcbs current).globalId
      if no < userThreadStart then .error (.panic .hardfaultTriggered)
      else if no = userThreadStart then .error (.panic .rootThreadDied)
      else do
        let k ← k.deleteThread current
        .ok (k.requestReschedule none)

end Kernel
end BradypOS
