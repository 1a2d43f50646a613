import BradypOS.Ipc.Derivation

/-!
# What an IPC call changes

Between the calls of `set_thread_state`, IPC copies messages, reports errors, notes whom a thread
waits for and arms timeouts. What all of these and `set_thread_state` of the threads involved
preserve, the call preserves.
-/

namespace BradypOS

open L4

/-- Neither the heap nor the life of a thread changed. -/
def Event.quiet : Event → Bool
  | .inserted _ _ | .selected _ | .created _ | .deleted _ | .stateSet _ _ => false
  | _ => true

namespace Kernel

/-- A change that reaches neither the scheduler nor the thread table. -/
structure Quiet (k k' : Kernel) : Prop where
  schedule : k'.schedule = k.schedule
  allocated : k'.allocated = k.allocated
  currentThreadIdx : k'.currentThreadIdx = k.currentThreadIdx
  threadCount : k'.threadCount = k.threadCount
  threadList : k'.threadList = k.threadList
  caller : k'.caller = k.caller
  tcbs : ∀ u, ∃ ctx ipcFrom, k'.tcbs u = { k.tcbs u with ctx, ipcFrom }
  trace : ∃ es, k'.trace = es ++ k.trace ∧ ∀ e ∈ es, e.quiet = true

variable {k k' k'' : Kernel}

namespace Quiet

theorem of_tcbs (tcbs : k'.tcbs = k.tcbs) (schedule : k'.schedule = k.schedule) (allocated : k'.allocated = k.allocated)
    (current : k'.currentThreadIdx = k.currentThreadIdx) (threadCount : k'.threadCount = k.threadCount)
    (threadList : k'.threadList = k.threadList) (caller : k'.caller = k.caller) (trace : k'.trace = k.trace) :
    Quiet k k' :=
  ⟨schedule, allocated, current, threadCount, threadList, caller,
    fun u => ⟨(k.tcbs u).ctx, (k.tcbs u).ipcFrom, congrFun tcbs u⟩, [], trace, nofun⟩

theorem refl (k : Kernel) : Quiet k k := of_tcbs rfl rfl rfl rfl rfl rfl rfl rfl

theorem trans (h : Quiet k k') (h' : Quiet k' k'') : Quiet k k'' := by
  obtain ⟨es, grown, quiet⟩ := h.trace
  obtain ⟨es', grown', quiet'⟩ := h'.trace
  refine ⟨h'.schedule.trans h.schedule, h'.allocated.trans h.allocated,
    h'.currentThreadIdx.trans h.currentThreadIdx, h'.threadCount.trans h.threadCount,
    h'.threadList.trans h.threadList, h'.caller.trans h.caller, fun u => ?_, es' ++ es, ?_, fun e member => ?_⟩
  · obtain ⟨ctx, ipcFrom, same⟩ := h.tcbs u
    obtain ⟨ctx', ipcFrom', same'⟩ := h'.tcbs u
    exact ⟨ctx', ipcFrom', by rw [same', same]⟩
  · rw [grown', grown, List.append_assoc]
  · rcases List.mem_append.mp member with member | member
    · exact quiet' e member
    · exact quiet e member

theorem log {e : Event} (h : Quiet k k') (quiet : e.quiet = true) : Quiet k (k'.log e) := by
  refine h.trans ⟨rfl, rfl, rfl, rfl, rfl, rfl, fun u => ⟨_, _, rfl⟩, [e], rfl, fun e' member => ?_⟩
  rw [List.mem_singleton.mp member]
  exact quiet

theorem setMem (h : Quiet k k') (mem : Memory) : Quiet k (k'.setMem mem) := h.trans (of_tcbs rfl rfl rfl rfl rfl rfl rfl rfl)

theorem setAlarms (h : Quiet k k') (alarms : Alarms) : Quiet k (k'.setAlarms alarms) :=
  h.trans (of_tcbs rfl rfl rfl rfl rfl rfl rfl rfl)

theorem setTcb {t : Nat} {f : Tcb → Tcb} (h : Quiet k k')
    (small : ∀ tcb, ∃ ctx ipcFrom, f tcb = { tcb with ctx, ipcFrom }) : Quiet k (k'.setTcb t f) := by
  refine h.trans ⟨rfl, rfl, rfl, rfl, rfl, rfl, fun u => ?_, [], rfl, nofun⟩
  by_cases same : u = t
  · subst same
    rw [setTcb_same]
    exact small _
  · rw [setTcb_other _ _ _ _ same]
    exact ⟨_, _, rfl⟩

theorem reportError (h : Quiet k k') (t : Nat) (p : Bool) (err : IpcErrorCode) : Quiet k (k'.reportError t p err) :=
  (h.setMem _).log rfl

theorem setIpcError (h : Quiet k k') (t : Nat) : Quiet k (k'.setIpcError t) := h.setMem _

theorem copyPayload {src dst : Nat} {err : IpcErrorCode} (h : Quiet k k')
    (copied : k'.copyPayload src dst = .ok (err, k'')) : Quiet k k'' := by
  obtain ⟨mem, _, rfl⟩ := copyPayload_spec copied
  split
  · exact (h.setMem mem).log rfl
  · exact h.setMem mem

theorem state (h : Quiet k k') (t : Nat) : k'.state t = k.state t := by
  obtain ⟨ctx, ipcFrom, same⟩ := h.tcbs t
  unfold Kernel.state
  rw [same]

theorem globalId (h : Quiet k k') (t : Nat) : (k'.tcbs t).globalId = (k.tcbs t).globalId := by
  obtain ⟨ctx, ipcFrom, same⟩ := h.tcbs t
  rw [same]

theorem sameTable (h : Quiet k k') : SameTable k k' := ⟨h.threadCount, h.threadList, h.globalId⟩

end Quiet

/-- A quiet change that the rest of the kernel's own data does not show either. -/
structure Light (k k' : Kernel) : Prop extends Quiet k k' where
  scheduleTarget : k'.scheduleTarget = k.scheduleTarget
  pendsv : k'.pendsv = k.pendsv
  softirqPending : k'.softirqPending = k.softirqPending
  cpu : k'.cpu = k.cpu
  asPool : k'.asPool = k.asPool
  asAllocated : k'.asAllocated = k.asAllocated
  kipFpage : k'.kipFpage = k.kipFpage

namespace Light

theorem of_quiet (q : Quiet k k') (scheduleTarget : k'.scheduleTarget = k.scheduleTarget) (pendsv : k'.pendsv = k.pendsv)
    (softirqPending : k'.softirqPending = k.softirqPending) (cpu : k'.cpu = k.cpu) (asPool : k'.asPool = k.asPool)
    (asAllocated : k'.asAllocated = k.asAllocated) (kipFpage : k'.kipFpage = k.kipFpage) : Light k k' :=
  { q with scheduleTarget, pendsv, softirqPending, cpu, asPool, asAllocated, kipFpage }

theorem refl (k : Kernel) : Light k k := of_quiet (.refl k) rfl rfl rfl rfl rfl rfl rfl

theorem trans (h : Light k k') (h' : Light k' k'') : Light k k'' :=
  of_quiet (h.toQuiet.trans h'.toQuiet) (h'.scheduleTarget.trans h.scheduleTarget) (h'.pendsv.trans h.pendsv)
    (h'.softirqPending.trans h.softirqPending) (h'.cpu.trans h.cpu) (h'.asPool.trans h.asPool)
    (h'.asAllocated.trans h.asAllocated) (h'.kipFpage.trans h.kipFpage)

theorem log {e : Event} (h : Light k k') (quiet : e.quiet = true) : Light k (k'.log e) :=
  h.trans (of_quiet ((Quiet.refl k').log quiet) rfl rfl rfl rfl rfl rfl rfl)

theorem setMem (h : Light k k') (mem : Memory) : Light k (k'.setMem mem) :=
  h.trans (of_quiet ((Quiet.refl k').setMem mem) rfl rfl rfl rfl rfl rfl rfl)

theorem setAlarms (h : Light k k') (alarms : Alarms) : Light k (k'.setAlarms alarms) :=
  h.trans (of_quiet ((Quiet.refl k').setAlarms alarms) rfl rfl rfl rfl rfl rfl rfl)

theorem setTcb {t : Nat} {f : Tcb → Tcb} (h : Light k k') (small : ∀ tcb, ∃ ctx ipcFrom, f tcb = { tcb with ctx, ipcFrom }) :
    Light k (k'.setTcb t f) :=
  h.trans (of_quiet ((Quiet.refl k').setTcb small) rfl rfl rfl rfl rfl rfl rfl)

theorem reportError (h : Light k k') (t : Nat) (p : Bool) (err : IpcErrorCode) : Light k (k'.reportError t p err) :=
  (h.setMem _).log rfl

theorem setIpcError (h : Light k k') (t : Nat) : Light k (k'.setIpcError t) := h.setMem _

theorem copyPayload {src dst : Nat} {err : IpcErrorCode} (h : Light k k')
    (copied : k'.copyPayload src dst = .ok (err, k'')) : Light k k'' := by
  obtain ⟨mem, _, rfl⟩ := copyPayload_spec copied
  split
  · exact (h.setMem mem).log rfl
  · exact h.setMem mem

theorem registerKevent {t : Nat} (h : Light k k') (registered : k'.registerKevent t = .ok k'') : Light k k'' := by
  obtain ⟨alarms, rfl⟩ := registerKevent_frame registered
  exact (h.setAlarms alarms).log rfl

end Light

/-! ### The rule -/

section Rule

variable {P : Kernel → Prop} {who : Nat → Prop} (light : ∀ k k', P k → Light k k' → P k')
  (state : ∀ k t st, who t → P k → P (k.setThreadState t st))

include light state

theorem endIpc_rule {t : Nat} (here : who t) (waits : ThreadState) (r : PhaseResult) (start : P k) :
    P (k.endIpc t waits r) := by
  cases r with
  | done => exact state _ _ _ here start
  | error => exact state _ _ _ here (light _ _ start ((Light.refl k).setIpcError t))
  | wait => exact state _ _ _ here start

theorem setThreadTimeout_rule {t : Nat} {timeout : Time} {st : ThreadState} {blocks : Bool} (here : who t)
    (start : P k) (h : k.setThreadTimeout t timeout st = .ok (blocks, k')) : P k' := by
  rcases setThreadTimeout_cases h with ⟨_, _, rfl⟩ | ⟨_, _, _, rfl⟩ | ⟨_, _, _, _, k₁, registered, rfl⟩
  · exact light _ _ start ((Light.refl k).log rfl)
  · exact start
  · have noted : Light k (k.log (.waiting t st timeout k.alarms.currentTime)) := (Light.refl k).log rfl
    exact state _ _ _ here (light _ _ start ((noted.setAlarms _).registerKevent registered))

theorem Received.rule {t : Nat} {src : Word} {timeout : Time} (h : Received k t src timeout k') (here : who t)
    (served : ∀ s, Chain k t src s → who s) (start : P k) : P k' := by
  induction h with
  | skip nil => exact state _ _ _ here start
  | @serve k k₁ k₂ t s src timeout named found copied rest ih =>
    have same := copyPayload_same false copied
    have chain : ∀ u, Chain k₁ s (k₁.recvFrom s) u → Chain k t src u := by
      intro u chain
      have back := chain.congr same.1 fun s _ => same.2.1 s
      rw [same.2.1 s] at back
      exact .next named found back
    have mid : P k₁ := light _ _ start ((Light.refl k).copyPayload copied)
    have sender : who s := served s (.found named found)
    exact state _ _ _ here (ih sender (fun u h => served u (chain u h)) mid)
  | @refuse k k₁ t s src timeout err named found failed overflow =>
    have told : Light k (k₁.reportError t true .messageOverflow) :=
      ((Light.refl k).copyPayload failed).reportError t true _
    have marked := (((told.reportError s false .messageOverflow).setIpcError t).setIpcError s)
    have woken := state _ s .runnable (served s (.found named found)) (light _ _ start marked)
    exact endIpc_rule light state here .recvBlocked .error woken
  | missing named found =>
    exact endIpc_rule light state here _ _ (light _ _ start ((Light.refl _).reportError _ _ _))
  | block named found armed =>
    have timed := setThreadTimeout_rule light state here start armed
    exact state _ _ _ here (light _ _ timed ((Light.refl _).setTcb fun tcb => ⟨_, _, rfl⟩))
  | abort named found zero =>
    exact endIpc_rule light state here _ _ (light _ _ start ((Light.refl _).reportError _ _ _))

theorem Sent.rule {t : Nat} {dest : Word} {timeout : Time} {r : PhaseResult} (h : Sent k t dest timeout r k')
    (here : who t) (partner : ∀ p, isNilThread dest = false → k.findIpcPartner t dest true = .ok (.found p) → who p)
    (fresh : ∀ p, isNilThread dest = false → k.findIpcPartner t dest true = .ok (.pagerMsg p) → who p)
    (start : P k) : P k' := by
  have noted : Light k (k.log (.sending t dest)) := (Light.refl k).log rfl
  cases h with
  | skip nil => exact start
  | deliver named found copied =>
    exact state _ _ _ (partner _ named found) (light _ _ start (noted.copyPayload copied))
  | refuse named found failed overflow =>
    have told := (noted.copyPayload failed).reportError t false
    exact state _ _ _ (partner _ named found)
      (light _ _ start ((((told _).reportError _ true _).setIpcError _).setIpcError _))
  | @start p named found message =>
    have moved : Light k ((k.log (.sending t dest)).startContext t p) := by
      unfold startContext
      exact (noted.setTcb fun tcb => ⟨_, _, rfl⟩).setMem _
    have woken := state _ p .runnable (fresh p named found) (light _ _ start moved)
    exact light _ _ woken ((Light.refl _).log rfl)
  | pagerDeliver named found copied => exact light _ _ start (noted.copyPayload copied)
  | pagerRefuse named found failed overflow =>
    exact light _ _ start (((noted.copyPayload failed).reportError _ _ _).setIpcError _)
  | missing named found => exact light _ _ start (noted.reportError _ _ _)
  | block named found armed =>
    have timed := setThreadTimeout_rule light state here (light _ _ start noted) armed
    exact light _ _ timed ((Light.refl _).setTcb fun tcb => ⟨_, _, rfl⟩)
  | abort named found zero => exact light _ _ start (noted.reportError _ _ _)

/-- What light changes preserve, and `set_thread_state` of the threads involved, a call preserves. -/
theorem Called.rule {t : Nat} (h : Called k t k') (involved : ∀ u, Involved k t u → who u) (start : P k) : P k' := by
  have here := involved t .caller
  have sends : ∀ {r : PhaseResult} {k₁ : Kernel}, Sent k t (k.sendTo t) (k.sendTime t) r k₁ → P k₁ :=
    fun sent => sent.rule light state here (fun p named found => involved p (.receiver named found))
      (fun p named found => involved p (.started named found)) start
  cases h with
  | receives sent received =>
    exact received.rule light state here (fun s chain => involved s (.sender (sent.chain chain))) (sends sent)
  | fails sent => exact endIpc_rule light state here _ _ (sends sent)
  | waits sent => exact state _ _ _ here (sends sent)

end Rule

end Kernel
end BradypOS
