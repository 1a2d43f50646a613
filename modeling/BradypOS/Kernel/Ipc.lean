import BradypOS.Kernel.Thread

/-!
# IPC (`kern/syscall/ipc.c`)

`doIpc` runs a send phase and a receive phase. A receiver that finds a waiting sender copies its
message and then runs the sender's receive phase, in a nested `doIpc` that is given fuel.
-/

namespace BradypOS

open L4

namespace Memory

/-- `memcpy` of string bytes. -/
def copyBytes (m : Memory) (dst src : Word) (length : Nat) : Memory :=
  { m with byte := fun a => if (a - dst).toNat < length then m.byte (src + (a - dst)) else m.byte a }

/-- The loop of `copy_payload` over the typed items; grant items, control transfer items and unknown
types make no progress. The result has the offset behind the last item that was stored. -/
def copyItems (src dst : Word) (last : Nat) (acceptor : Word) :
    Nat → Memory → Nat → Nat → Nat → Fallible (IpcErrorCode × Memory × Nat)
  | 0, _, _, _, _ => .error .hang
  | fuel + 1, m, fromMrOffset, toMrOffset, toBrOffset =>
    if last < fromMrOffset then .ok (.none, m, toMrOffset)
    else
      let item := (m.utcb src).mr fromMrOffset
      let second := (m.utcb src).mr (fromMrOffset + 1)
      let store := fun m : Memory =>
        m.setUtcb dst fun u => (u.setMr toMrOffset item).setMr (toMrOffset + 1) second
      match Item.type item with
      | .mapItem => copyItems src dst last acceptor fuel (store m) (fromMrOffset + 2) (toMrOffset + 2) toBrOffset
      | .stringItem =>
        if !acceptsStrings acceptor then .ok (.messageOverflow, m, toMrOffset)
        else if Item.compound item then .error (.panic .compoundString)
        else
          let toItem := (m.utcb dst).br toBrOffset
          if Item.compound toItem then .error (.panic .compoundString)
          else if Item.length toItem < Item.length item then .ok (.messageOverflow, m, toMrOffset)
          else
            let m := m.copyBytes ((m.utcb dst).br (toBrOffset + 1)) second (Item.length item)
            let m := store m
            let m := m.setUtcb dst fun u => u.setMr (toMrOffset + 1) (u.br (toBrOffset + 1))
            copyItems src dst last acceptor fuel m (fromMrOffset + 2) (toMrOffset + 2) (toBrOffset + 2)
      | .grantItem | .ctrlXferItem | .other => .error .hang

def copyPayload (m : Memory) (src dst : Tcb) : Fallible (IpcErrorCode × Memory) := do
  let tag := (m.utcb src.utcb).mr 0
  let u := MsgTag.u tag
  let t := MsgTag.t tag
  if mrCount < u + t then .ok (.messageOverflow, m)
  else
    let words := (m.utcb src.utcb).words
    let m := m.setUtcb dst.utcb fun old =>
      { old with words := fun i => if 1 ≤ i ∧ i ≤ u then words i else old.words i }
    let acceptor := (m.utcb dst.utcb).br 0
    let (err, m, toMrOffset) ←
      copyItems src.utcb dst.utcb (u + t) acceptor (mrCount + 1) m (u + 1) (u + 1) 1
    if err ≠ .none then .ok (err, m)
    else
      let m := m.setUtcb dst.utcb fun old =>
        { old.setMr 0 (MsgTag.mk u (toMrOffset - (u + 1)) 0#32 (MsgTag.label tag)) with sender := src.globalId }
      let m := m.setFrame dst.ctx.sp fun f =>
        { f with r0 := if dst.addressSpace = src.addressSpace then src.localId else src.globalId }
      .ok (.none, m)

end Memory
/-- `enum ipc_partner_search_result` with its output parameter. -/
inductive PartnerSearch where
  | nonexistent | notready
  | found (partner : Nat)
  | pagerMsg (partner : Nat)
  deriving DecidableEq, Repr

/-- `enum ipc_phase_result`. -/
inductive PhaseResult where
  | done | error | wait
  deriving DecidableEq, Repr

namespace Kernel

def isViableIpcPartner (k : Kernel) (target ipcPartner : Nat) : Bool :=
  let partner := k.tcbs ipcPartner
  partner.ipcFrom = anyThread ||
    (partner.ipcFrom = anyLocalThread && partner.addressSpace = (k.tcbs target).addressSpace) ||
    partner.ipcFrom = (k.tcbs target).globalId || partner.ipcFrom = (k.tcbs target).localId

/-- The state a partner waits in. -/
def partnerState (sending : Bool) : ThreadState := if sending then .recvBlocked else .sendBlocked

/-- Whether a thread waits for the phase that `target` is in. -/
def isReadyPartner (k : Kernel) (target : Nat) (sending : Bool) (partner : Nat) : Bool :=
  k.state partner = partnerState sending && k.isViableIpcPartner target partner

def findIpcPartnerAny (k : Kernel) (target : Nat) (sending : Bool) : PartnerSearch :=
  match ((List.range k.threadCount).map k.getThreadByIndex).find? (k.isReadyPartner target sending) with
  | some partner => .found partner
  | none => .notready

/-- A walk along more siblings than there are threads goes round in a circle. -/
def anylocalLoop (k : Kernel) (target : Nat) (sending : Bool) : Nat → Option Nat → Fallible PartnerSearch
  | _, none => .ok .notready
  | 0, some _ => .error .hang
  | fuel + 1, some current =>
    if k.isReadyPartner target sending current then .ok (.found current)
    else anylocalLoop k target sending fuel (k.tcbs current).nextSibling

def findIpcPartnerAnylocal (k : Kernel) (target : Nat) (sending : Bool) : Fallible PartnerSearch :=
  match (k.tcbs target).addressSpace with
  | none => .error .nullDeref
  | some as => k.anylocalLoop target sending (maxThreads + 1) (some (k.asPool as).firstThread)

/-- Each round of the loop goes two siblings further. -/
def localLoop (k : Kernel) (target : Nat) (who : Word) (sending : Bool) :
    Nat → Option Nat → Fallible PartnerSearch
  | _, none => .ok .nonexistent
  | 0, some _ => .error .hang
  | fuel + 1, some current =>
    if k.state current = partnerState sending && sameThreads (k.tcbs current).localId who then
      if k.isViableIpcPartner target current then .ok (.found current) else .ok .notready
    else
      match (k.tcbs current).nextSibling with
      | none => .error .nullDeref
      | some next => localLoop k target who sending fuel (k.tcbs next).nextSibling

def findIpcPartnerLocal (k : Kernel) (target : Nat) (who : Word) (sending : Bool) : Fallible PartnerSearch :=
  match (k.tcbs target).addressSpace with
  | none => .error .nullDeref
  | some as => k.localLoop target who sending (maxThreads + 1) (some (k.asPool as).firstThread)

/-- The search by an exact global id. -/
def findIpcPartnerGlobal (k : Kernel) (target : Nat) (who : Word) (sending : Bool) : PartnerSearch :=
  match k.findThreadByGlobalId who with
  | none => .nonexistent
  | some tcb =>
    if k.isReadyPartner target sending tcb then .found tcb
    else
      match k.findThreadByGlobalId (k.tcbs tcb).pager with
      | none => .notready
      | some pager =>
        if sending && k.state tcb = .active && (k.tcbs pager).addressSpace = (k.tcbs target).addressSpace then
          .pagerMsg tcb
        else .notready

def findIpcPartner (k : Kernel) (target : Nat) (who : Word) (sending : Bool) : Fallible PartnerSearch :=
  if who = anyThread then .ok (k.findIpcPartnerAny target sending)
  else if who = anyLocalThread then k.findIpcPartnerAnylocal target sending
  else if isLocalId who then k.findIpcPartnerLocal target who sending
  else .ok (k.findIpcPartnerGlobal target who sending)

/-- Whether the thread may block; a finite timeout has put its event into the queue. -/
def setThreadTimeout (k : Kernel) (t : Nat) (timeout : Time) (targetState : ThreadState) :
    Fallible (Bool × Kernel) :=
  if timeout.isEqual Time.never then .ok (true, k.log (.waiting t targetState timeout k.alarms.currentTime))
  else if timeout.isEqual Time.zero then .ok (false, k)
  else if timeout.point then .error (.panic .timepointTimeout)
  else do
    let k := k.log (.waiting t targetState timeout k.alarms.currentTime)
    let k := k.setKevent t fun ev =>
      { ev with
        data := (k.tcbs t).globalId, type := .timeout, when := k.alarms.currentTime + timeout.ticks }
    let k ← k.registerKevent t
    .ok (true, k.setThreadState t targetState)

/-- `EXCEPTION_RETURN_TO_THREAD_ON_PROCESS_STACK`. -/
def exceptionReturnToThread : Word := 0xFFFFFFFD#32

/-- The context that the pager's message gives a thread. -/
def startContext (k : Kernel) (pager target : Nat) : Kernel :=
  let utcb := k.mem.utcb (k.tcbs pager).utcb
  let sp := utcb.mr 2 - 32#32
  let k := k.setTcb target fun tcb => { tcb with ctx := { tcb.ctx with sp, ret := exceptionReturnToThread } }
  k.setMem (k.mem.setFrame sp fun f => { f with pc := utcb.mr 1, psr := 1#32 <<< 24 })

def pagerStartThread (k : Kernel) (pager target : Nat) : Kernel :=
  ((k.startContext pager target).setThreadState target .runnable).log (.started pager target)

def setIpcError (k : Kernel) (t : Nat) : Kernel :=
  k.setMem (k.mem.setUtcb (k.tcbs t).utcb fun u => u.setMr 0 (MsgTag.setError (u.mr 0)))

/-- The error word of a thread's UTCB. -/
def reportError (k : Kernel) (t : Nat) (p : Bool) (err : IpcErrorCode) : Kernel :=
  (k.setMem (k.mem.setUtcb (k.tcbs t).utcb fun u => { u with error := ipcError p err })).log (.failed t p err)

/-- `copy_payload` from one thread to another. -/
def copyPayload (k : Kernel) (src dst : Nat) : Fallible (IpcErrorCode × Kernel) := do
  let (err, mem) ← k.mem.copyPayload (k.tcbs src) (k.tcbs dst)
  let k := k.setMem mem
  .ok (err, if err = .none then k.log (.copied src dst) else k)

/-- The send phase with a partner that waits for the message. -/
def sendFound (k : Kernel) (target partner : Nat) : Fallible (PhaseResult × Kernel) := do
  let (ret, k) ← k.copyPayload target partner
  if ret = .none then .ok (.done, k.setThreadState partner .runnable)
  else
    let k := (k.reportError target false ret).reportError partner true ret
    let k := (k.setIpcError target).setIpcError partner
    .ok (.error, k.setThreadState partner .runnable)

/-- The send phase of a pager to a thread that was not started. -/
def sendPagerMsg (k : Kernel) (target partner : Nat) : Fallible (PhaseResult × Kernel) :=
  let tag := (k.mem.utcb (k.tcbs target).utcb).mr 0
  if MsgTag.flags tag = 0#32 ∧ MsgTag.label tag = 0#32 ∧ MsgTag.t tag = 0 ∧ MsgTag.u tag = 2 then
    .ok (.done, k.pagerStartThread target partner)
  else do
    let (ret, k) ← k.copyPayload target partner
    if ret = .none then .ok (.done, k)
    else .ok (.error, (k.reportError target false ret).setIpcError target)

/-- A phase whose partner is not ready, waiting for `ipcFrom` in `targetState`. -/
def phaseNotready (k : Kernel) (target : Nat) (ipcFrom : Word) (timeout : Time) (targetState : ThreadState)
    (p : Bool) : Fallible (PhaseResult × Kernel) := do
  let (blocks, k) ← k.setThreadTimeout target timeout targetState
  if blocks then .ok (.wait, k.setTcb target fun tcb => { tcb with ipcFrom })
  else .ok (.error, k.reportError target p .aborted)

def ipcSend (k : Kernel) (target : Nat) (dest : Word) (timeout : Time) : Fallible (PhaseResult × Kernel) :=
  if isNilThread dest then .ok (.done, k)
  else do
    let search ← k.findIpcPartner target dest true
    let k := k.log (.sending target dest)
    match search with
    | .found partner => k.sendFound target partner
    | .pagerMsg partner => k.sendPagerMsg target partner
    | .nonexistent => .ok (.error, k.reportError target false .nonexistentPartner)
    | .notready => k.phaseNotready target dest timeout .sendBlocked false

/-- The receive phase with a waiting sender; `receiveOf` is the sender's own receive phase. -/
def recvFound (receiveOf : Kernel → Nat → Fallible Kernel) (k : Kernel) (target partner : Nat) :
    Fallible (PhaseResult × Kernel) := do
  let (ret, k) ← k.copyPayload partner target
  if ret = .none then
    let k ← receiveOf k partner
    .ok (.done, k)
  else
    let k := (k.reportError target true .messageOverflow).reportError partner false .messageOverflow
    let k := (k.setIpcError target).setIpcError partner
    .ok (.error, k.setThreadState partner .runnable)

def ipcRecv (receiveOf : Kernel → Nat → Fallible Kernel) (k : Kernel) (target : Nat) (fromSpecifier : Word)
    (timeout : Time) : Fallible (PhaseResult × Kernel) :=
  if isNilThread fromSpecifier then .ok (.done, k)
  else do
    let search ← k.findIpcPartner target fromSpecifier false
    match search with
    | .found partner => recvFound receiveOf k target partner
    | .pagerMsg _ => .error (.panic .pagerMessageInRecv)
    | .nonexistent => .ok (.error, k.reportError target true .nonexistentPartner)
    | .notready => k.phaseNotready target fromSpecifier timeout .recvBlocked true

/-- What `do_ipc` does with the result of a phase that ends the IPC. -/
def endIpc (k : Kernel) (target : Nat) (waits : ThreadState) : PhaseResult → Kernel
  | .done => k.setThreadState target .runnable
  | .error => (k.setIpcError target).setThreadState target .runnable
  | .wait => k.setThreadState target waits

def doIpc : Nat → Kernel → Nat → Bool → Fallible Kernel
  | 0, _, _, _ => .error .depth
  | fuel + 1, k, target, skipSending => do
    let sp := k.mem.frame (k.tcbs target).ctx.sp
    let (sendResult, k) ←
      (if skipSending then .ok (.done, k) else k.ipcSend target sp.r0 (sendTimeout sp.r2))
    match sendResult with
    | .error => .ok (k.endIpc target .sendBlocked .error)
    | .wait => .ok (k.endIpc target .sendBlocked .wait)
    | .done => do
      let (recvResult, k) ←
        ipcRecv (fun k partner => doIpc fuel k partner true) k target sp.r1 (recvTimeout sp.r2)
      .ok (k.endIpc target .recvBlocked recvResult)

def syscallIpc (fuel : Nat) (k : Kernel) : Fallible Kernel := doIpc fuel k k.caller false

def doIpcTimeout (k : Kernel) (data : Word) : Kernel :=
  match k.findThreadByGlobalId data with
  | none => k
  | some target =>
    if k.state target ≠ .recvBlocked ∧ k.state target ≠ .sendBlocked then k
    else
      let p : Bool := k.state target = .recvBlocked
      let k := (k.setIpcError target).reportError target p .timeout
      (k.setThreadState target .runnable).log (.timedOut target)

end Kernel
end BradypOS
