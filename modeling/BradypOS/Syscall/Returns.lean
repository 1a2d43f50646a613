import BradypOS.Syscall.Outcomes
import BradypOS.Ipc.Waits

/-!
# Every system call returns to its caller

Unblocking the caller is left to each handler, and `thread_control` does it on every exit but one.
-/

namespace BradypOS.Kernel

open L4

variable {k k' : Kernel}

/-- The system calls besides IPC that `softirq_svc` implements. -/
def Implemented (s : Syscall) : Prop :=
  s = .kernelInterface ∨ s = .spaceControl ∨ s = .threadControl ∨ s = .unmap ∨ s = .schedule

/-- The call deleted the thread that made it. -/
def DeletedSelf (k k' : Kernel) : Prop := ∃ es, k'.trace = es ++ k.trace ∧ .deleted k.caller ∈ es

def Returns (k k' : Kernel) : Prop := k'.state k.caller = .runnable ∨ DeletedSelf k k'

/-- `thread_control` for a thread with a system thread's number. -/
def NamesSystemThread (k : Kernel) : Prop := k.pendingCall = some .threadControl ∧ ¬ UserDest k.callerFrame.r0

instance (k : Kernel) : Decidable k.NamesSystemThread := inferInstanceAs (Decidable (_ ∧ _))

theorem unblockCaller_state {c : Nat} (same : k.caller = c) : k.unblockCaller.state c = .runnable := by
  unfold unblockCaller
  rw [state_setThreadState, if_pos same.symm]

/-! ### Who the caller is does not change -/

theorem SpaceControlled.caller (h : SpaceControlled k k') : k'.caller = k.caller := by
  cases h with
  | refused => rfl
  | @done target as k₁ found kip space =>
    have made : k₁.caller = k.caller := by
      rcases ensureAs_cases space with ⟨_, rfl⟩ | ⟨_, _, _, rfl⟩
      · rfl
      · rfl
    have checked : ∀ sp, (k₁.checkUtcbArea sp as).caller = k₁.caller := by
      intro sp
      unfold checkUtcbArea
      split
      · rfl
      · rfl
    rw [← made, ← checked k.callerSp]
    unfold settleSpace activateTarget
    split
    · exact setThreadState_caller ..
    · rfl

theorem Scheduled.caller (h : Scheduled k k') : k'.caller = k.caller := by
  cases h with
  | refused => rfl
  | kept => rfl
  | @changed dest found controls bound =>
    obtain ⟨schedule, same, _⟩ := k.setThreadPriority_spec dest k.callerFrame.r3
    rw [same]
    rfl

theorem placeThread_caller (t : Nat) (space : Option Nat) (dest scheduler pager utcbLocation : Word) :
    (k.placeThread t space dest scheduler pager utcbLocation).caller = k.caller := by
  cases space with
  | none => rfl
  | some s => rfl

/-! ### The handlers -/

theorem not_deletedSelf (same : k'.trace = k.trace) : ¬ DeletedSelf k k' := by
  intro ⟨es, trace, member⟩
  rw [same] at trace
  rw [List.self_eq_append_left.mp trace] at member
  cases member

theorem refuse_returns (sp : Word) (err : ErrorCode) :
    Returns k (k.refuse sp err) ↔ k.state k.caller = .runnable := by
  constructor
  · rintro (runs | deleted)
    · exact runs
    · exact absurd deleted (not_deletedSelf rfl)
  · intro runs
    exact .inl runs

theorem ThreadControlled.returns (h : ThreadControlled k k') (user : UserDest k.callerFrame.r0) : Returns k k' := by
  cases h with
  | privileged system => exact absurd user system
  | refused => exact .inl (unblockCaller_state rfl)
  | deletedSelf _ found nil exit deleted =>
    refine .inr ⟨[.deleted k.caller], ?_, List.mem_singleton.mpr rfl⟩
    have trace := (deleteThread_gone deleted).trace
    exact trace
  | deleted _ found nil exit other deleted =>
    have caller := (deleteThread_gone deleted).caller
    exact .inl (unblockCaller_state caller)
  | modified => exact .inl (unblockCaller_state rfl)
  | created _ missing inside made =>
    rcases createThread_spec made with ⟨none, _⟩ | ⟨t, list, _, _, _, rfl⟩
    · cases none
    · exact .inl (unblockCaller_state (placeThread_caller _ _ _ k.callerFrame.r2 _ _))

/-! ### IPC -/

theorem Received.ends {t : Nat} {src : Word} {timeout : Time} (h : Received k t src timeout k') :
    k'.state t = .runnable ∨ k'.state t = .recvBlocked := by
  cases h with
  | skip => left; rw [state_setThreadState, if_pos rfl]
  | serve => left; rw [state_setThreadState, if_pos rfl]
  | refuse => left; unfold refused; rw [endIpc_state, if_pos rfl]
  | missing => left; rw [endIpc_state, if_pos rfl]
  | block => right; unfold blocked; rw [state_setThreadState, if_pos rfl]
  | abort => left; rw [endIpc_state, if_pos rfl]

theorem Called.ends {t : Nat} (h : Called k t k') :
    k'.state t = .runnable ∨ k'.state t = .sendBlocked ∨ k'.state t = .recvBlocked := by
  cases h with
  | receives sent received =>
    rcases received.ends with runs | waits
    · exact .inl runs
    · exact .inr (.inr waits)
  | fails => left; rw [endIpc_state, if_pos rfl]
  | waits => right; left; rw [state_setThreadState, if_pos rfl]

/-! ### The dispatcher -/

theorem softirqSvc_returns {fuel : Nat} (handled : softirqSvc fuel k = .ok k') {s : Syscall} (number : k.pendingCall = some s)
    (implemented : Implemented s) (user : ¬ k.NamesSystemThread) : Returns k k' := by
  unfold softirqSvc at handled
  rw [show Syscall.ofWord (k.tcbs k.caller).ctx.r7 = some s from number] at handled
  rcases implemented with rfl | rfl | rfl | rfl | rfl
  · cases handled
    exact .inl (unblockCaller_state rfl)
  · obtain ⟨k₁, served, handled⟩ := bind_ok handled
    cases handled
    exact .inl (unblockCaller_state (spaceControlled served).caller)
  · apply (threadControlled handled).returns
    exact Decidable.not_not.mp fun system => user ⟨number, system⟩
  · cases handled
    exact .inl (unblockCaller_state rfl)
  · obtain ⟨k₁, served, handled⟩ := bind_ok handled
    cases handled
    exact .inl (unblockCaller_state (scheduled_of_syscall served).caller)

theorem softirqSvc_privileged {fuel : Nat} (handled : softirqSvc fuel k = .ok k') (system : k.NamesSystemThread) :
    k' = k.refuse k.callerSp .noPrivilege := by
  unfold softirqSvc at handled
  rw [show Syscall.ofWord (k.tcbs k.caller).ctx.r7 = some .threadControl from system.1] at handled
  cases threadControlled handled with
  | privileged => rfl
  | refused user => exact absurd user system.2
  | deletedSelf user => exact absurd user system.2
  | deleted user => exact absurd user system.2
  | modified user => exact absurd user system.2
  | created user => exact absurd user system.2

/-- A handled system call returns to its caller unless it is a `thread_control` for a system thread;
an IPC leaves its caller runnable or waiting for its partner. -/
theorem svc_returns {fuel : Nat} (handled : softirqSvc fuel k = .ok k') :
    (∀ s, k.pendingCall = some s → Implemented s →
      (Returns k k' ↔ (k.NamesSystemThread → k.state k.caller = .runnable))) ∧
    (k.pendingCall = some .ipc → k'.state k.caller = .runnable ∨ k'.state k.caller = .sendBlocked ∨
      k'.state k.caller = .recvBlocked) := by
  constructor
  · intro s number implemented
    by_cases system : k.NamesSystemThread
    · rw [softirqSvc_privileged handled system, refuse_returns]
      exact ⟨fun runs _ => runs, fun runs => runs system⟩
    · exact iff_of_true (softirqSvc_returns handled number implemented system) fun names => absurd names system
  · intro number
    unfold softirqSvc at handled
    rw [show Syscall.ofWord (k.tcbs k.caller).ctx.r7 = some .ipc from number] at handled
    exact (called_of_doIpc handled).ends

/-- The root thread's first call asks for its space. -/
def firstCall : List (Kernel → Action) :=
  [fun _ => .pendsv, fun k => SmallSystem.load 0x4000#32 rootId 0#32 k.kipFpage (Fpage.log2 0x5000#32 12) 0#32 1#32 k,
    fun _ => .svc, fun _ => .pendsv]

theorem svc_returns_space : ∃ k k', softirqSvc 17 k = .ok k' ∧ k.pendingCall = some .spaceControl ∧
    ¬ k.NamesSystemThread ∧ Returns k k' := by
  have done : (((boot SmallSystem.bootInfo).toOption.bind fun b => Theory.follow next b firstCall).any fun k =>
      (softirqSvc 17 k).toOption.any fun _ =>
        decide (k.pendingCall = some .spaceControl ∧ ¬ k.NamesSystemThread)) = true := by decide +kernel
  obtain ⟨k, _, served⟩ := (Option.any_eq_true _ _).mp done
  obtain ⟨k', handled, holds⟩ := (Option.any_eq_true _ _).mp served
  obtain ⟨number, user⟩ := of_decide_eq_true holds
  have handled := ok_of_toOption handled
  have returns := (svc_returns handled).1 _ number (.inr (.inl rfl))
  exact ⟨k, k', handled, number, user, returns.mpr fun system => absurd system user⟩

/-- The running user thread asks `thread_control` to modify the kernel thread. -/
def nameKernel : List (Kernel → Action) :=
  [SmallSystem.load 0x6000#32 kernId rootId 0#32 0#32 0#32 2#32, fun _ => .svc, fun _ => .pendsv]

theorem nameKernel_hangs : ∃ b k as k', boot SmallSystem.bootInfo = .ok b ∧ Theory.Run Step b as k ∧
    k.pendingCall = some .threadControl ∧ softirqSvc 17 k = .ok k' ∧ k'.state k.caller = .svcBlocked ∧ ¬ Returns k k' := by
  have done : (SmallSystem.start.any fun k => (Theory.follow next k nameKernel).any fun k =>
      (softirqSvc 17 k).toOption.any fun _ =>
        decide (k.NamesSystemThread ∧ k.state k.caller = .svcBlocked)) = true := by decide +kernel
  obtain ⟨b, k, as, booted, run, _, later⟩ := SmallSystem.reached done
  obtain ⟨k₁, ran, served⟩ := (Option.any_eq_true _ _).mp later
  obtain ⟨k', handled, holds⟩ := (Option.any_eq_true _ _).mp served
  obtain ⟨system, blocked⟩ := of_decide_eq_true holds
  obtain ⟨bs, steps⟩ := Theory.run_of_follow step_of_next ran
  have handled := ok_of_toOption handled
  have same := softirqSvc_privileged handled system
  refine ⟨b, k₁, as ++ bs, k', booted, run.append steps, system.1, handled, ?_, ?_⟩
  · rw [same]
    exact blocked
  · rw [same, refuse_returns, blocked]
    decide

end BradypOS.Kernel
