import BradypOS.Softirq.Wakes
import BradypOS.Softirq.Spared
import BradypOS.Thread.Kept

/-!
# The kernel thread works on one call at a time

While a call is open, the kernel thread has the processor or the context switch that gives it to the
kernel thread is pending, so no other thread runs and none traps. A trap that comes between the end of
one round and the kernel thread's yield is served in the next round.
-/

namespace BradypOS.Softirq

open L4 Kernel Scheduler

/-- The calls one after another: each is trapped, handled for the thread that trapped, and finished. -/
def Orderly : List Call → Prop
  | [] => True
  | .trapped _ :: calls => (∀ call ∈ calls.head?, call = .finished) ∧ Orderly calls
  | .handled t :: calls => calls.head? = some (.trapped t) ∧ Orderly calls
  | .finished :: calls => (∃ t, calls.head? = some (.handled t)) ∧ Orderly calls

structure Named (k : Kernel) : Prop where
  live : k.allocated kernTcb = true
  number : threadNo (k.tcbs kernTcb).globalId = threadNo kernId

/-- No call is open, and the kernel thread will not run but to yield. -/
structure Idle (s : Softirq) : Prop where
  closed : ∀ call ∈ s.calls.head?, call = .finished
  pending : s.kernel.softirqPending = false
  stopped : s.kernel.state kernTcb ≠ .runnable
  away : kernTcb ∉ s.kernel.ready
  phase : s.phase = .fetch ∨ s.phase = .yield
  leaves : s.kernel.currentThreadIdx = kernTcb → s.phase = .yield ∨ s.kernel.pendsv = true

/-- The kernel thread has the processor, and keeps it in the context switch that is pending. -/
structure Holds (k : Kernel) : Prop where
  current : k.currentThreadIdx = kernTcb
  away : kernTcb ∉ k.ready
  spares : k.pendsv = true → SparesTarget k

/-- The kernel thread gets the processor in the pending context switch. -/
structure Gets (k : Kernel) : Prop where
  current : k.currentThreadIdx ≠ kernTcb
  pendsv : k.pendsv = true
  ready : kernTcb ∈ k.ready
  root : Heap.AtRoot kernTcb k.schedule
  blocked : k.state k.currentThreadIdx ≠ .runnable
  spares : SparesTarget k

/-- The kernel thread is runnable with a call of `t` to work on. -/
structure Open (k : Kernel) (t : Nat) : Prop where
  caller : k.caller = t
  user : t ≠ kernTcb
  pending : k.softirqPending = true
  runs : k.state kernTcb = .runnable

/-- The call of `t` is not handled yet. -/
structure Waits (s : Softirq) (t : Nat) : Prop extends Open s.kernel t where
  trapped : s.calls.head? = some (.trapped t)
  place : Holds s.kernel ∧ (s.phase = .fetch ∨ s.phase = .handle true ∨ s.phase = .yield) ∨
    Gets s.kernel ∧ (s.phase = .fetch ∨ s.phase = .yield)

/-- The call of `t` is handled and its bit still set. -/
structure Served (s : Softirq) (t : Nat) : Prop extends Open s.kernel t where
  handled : s.calls.head? = some (.handled t)
  holds : Holds s.kernel
  phase : s.phase = .clear true

inductive Stage (s : Softirq) : Prop where
  | idle (idle : Idle s)
  | waits {t : Nat} (waits : Waits s t)
  | served {t : Nat} (served : Served s t)

structure Lockstep (s : Softirq) : Prop where
  orderly : Orderly s.calls
  named : Named s.kernel
  stage : Stage s

/-- Distinct heap entries of at most 16 threads, with the kernel thread alone at priority 0; no call makes
the kernel thread active, and its yield asks for nobody who could run while a call is open. -/
structure Proper (s : Softirq) (a : Action) : Prop where
  fair : Fair s.kernel
  slots : ∀ t ∈ s.kernel.ready, t < maxThreads
  spares : ∀ fuel, a = .handle fuel → ¬ s.kernel.ActivatesKernel
  yields : a = .yield → s.kernel.softirqPending = true → ∀ t ∈ s.kernel.findThreadByGlobalId nilThread, t ∉ s.kernel.ready

/-! ### The steps -/

variable {s s' : Softirq} {k k' : Kernel} {t : Nat}

theorem Ticked.ready (h : Ticked k k') : k'.ready = k.ready := congrArg Heap.toList h.schedule

theorem Ticked.state (h : Ticked k k') (u : Nat) : k'.state u = k.state u := by
  unfold Kernel.state
  rw [h.tcbs]

theorem Ticked.spares (h : Ticked k k') (spares : k.pendsv = true → SparesTarget k) (pending : k'.pendsv = true) :
    SparesTarget k' := by
  intro t asked
  rw [h.ready]
  rcases h.asks with ⟨same, target⟩ | ⟨_, none⟩
  · exact spares (same ▸ pending) t (target ▸ asked)
  · rw [none] at asked
    cases asked

theorem Open.ticked (o : Open k t) (h : Ticked k k') : Open k' t :=
  ⟨h.caller.trans o.caller, o.user, h.pending.trans o.pending, (h.state kernTcb).trans o.runs⟩

theorem Holds.ticked (o : Holds k) (h : Ticked k k') : Holds k' :=
  ⟨h.current.trans o.current, h.ready ▸ o.away, h.spares o.spares⟩

theorem Gets.ticked (o : Gets k) (h : Ticked k k') : Gets k' := by
  have pendsv : k'.pendsv = true := by
    rcases h.asks with ⟨same, _⟩ | ⟨asks, _⟩
    · exact same.trans o.pendsv
    · exact asks
  refine ⟨?_, pendsv, h.ready ▸ o.ready, ?_, ?_, h.spares (fun _ => o.spares) pendsv⟩
  · rw [h.current]
    exact o.current
  · rw [h.schedule]
    exact o.root
  · rw [h.current, h.state]
    exact o.blocked

theorem Stage.tick (stage : Stage s) (h : Ticked s.kernel k') : Stage { s with kernel := k' } := by
  cases stage with
  | idle idle =>
    refine .idle ⟨idle.closed, h.pending.trans idle.pending, ?_, h.ready ▸ idle.away, idle.phase, fun current => ?_⟩
    · show k'.state kernTcb ≠ _
      rw [h.state]
      exact idle.stopped
    · rcases idle.leaves (h.current ▸ current) with yields | leaves
      · exact .inl yields
      · rcases h.asks with ⟨same, _⟩ | ⟨asks, _⟩
        · exact .inr (same.trans leaves)
        · exact .inr asks
  | waits waits =>
    refine .waits ⟨waits.toOpen.ticked h, waits.trapped, ?_⟩
    rcases waits.place with ⟨holds, phase⟩ | ⟨gets, phase⟩
    · exact .inl ⟨holds.ticked h, phase⟩
    · exact .inr ⟨gets.ticked h, phase⟩
  | served served => exact .served ⟨served.toOpen.ticked h, served.handled, served.holds.ticked h, served.phase⟩

theorem Open.switched {idx : Nat} (o : Open k t) (h : Switched k idx k') : Open k' t :=
  ⟨h.caller.trans o.caller, o.user, h.pending.trans o.pending, (h.state kernTcb).trans o.runs⟩

/-- A context switch takes the processor from the kernel thread only when it is idle. -/
theorem Stage.switch {idx : Nat} (stage : Stage s) (pendsv : s.kernel.pendsv = true) (fair : Fair s.kernel)
    (slots : ∀ t ∈ s.kernel.ready, t < maxThreads) (h : Switched s.kernel idx k') : Stage { s with kernel := k' } := by
  have rests : k'.pendsv = true → SparesTarget k' := by
    intro pending
    rw [h.pendsv] at pending
    cases pending
  cases stage with
  | idle idle =>
    obtain ⟨other, away⟩ := h.leaves idle.away idle.stopped
    refine .idle ⟨idle.closed, h.pending.trans idle.pending, ?_, away, idle.phase, fun current => ?_⟩
    · show k'.state kernTcb ≠ _
      rw [h.state]
      exact idle.stopped
    · exact absurd (h.current.symm.trans current) other
  | waits waits =>
    refine .waits ⟨waits.toOpen.switched h, waits.trapped, .inl ?_⟩
    rcases waits.place with ⟨holds, phase⟩ | ⟨gets, phase⟩
    · obtain ⟨chosen, away⟩ := h.keeps fair slots holds.current waits.runs holds.away (holds.spares pendsv)
      exact ⟨⟨h.current.trans chosen, away, rests⟩, phase⟩
    · obtain ⟨chosen, away⟩ := h.wakes fair gets.blocked waits.runs gets.ready gets.root gets.spares
      exact ⟨⟨h.current.trans chosen, away, rests⟩, phase.imp_right .inr⟩
  | served served =>
    obtain ⟨chosen, away⟩ := h.keeps fair slots served.holds.current served.runs served.holds.away (served.holds.spares pendsv)
    exact .served ⟨served.toOpen.switched h, served.handled, ⟨h.current.trans chosen, away, rests⟩, served.phase⟩

theorem isrSvcall_deferred (user : k.InUserThread) (deferred : Deferred k) :
    k.isrSvcall = .ok (k.deferSyscall k.currentThreadIdx) := by
  have running : k.getCurrentThread = some k.currentThreadIdx := by
    unfold getCurrentThread
    rw [if_neg user.1]
  unfold isrSvcall
  rw [running]
  dsimp only
  split
  · rename_i number
    exact absurd number deferred.1
  · rename_i number
    exact absurd number deferred.2
  · rfl

/-- Only an idle kernel thread leaves the processor to a thread that can trap. -/
theorem Stage.idle_of_user (stage : Stage s) (user : s.kernel.InUserThread) : Idle s := by
  obtain ⟨_, other, _, rests⟩ := user
  cases stage with
  | idle idle => exact idle
  | waits waits =>
    exfalso
    rcases waits.place with ⟨holds, _⟩ | ⟨gets, _⟩
    · exact other holds.current
    · rw [gets.pendsv] at rests
      cases rests
  | served served => exact absurd served.holds.current other

theorem Idle.trap (idle : Idle s) (user : s.kernel.InUserThread) (fair : Fair s.kernel)
    (slots : ∀ t ∈ s.kernel.ready, t < maxThreads) :
    Waits { s with
      kernel := s.kernel.deferSyscall s.kernel.currentThreadIdx
      calls := .trapped s.kernel.currentThreadIdx :: s.calls } s.kernel.currentThreadIdx := by
  have woken := deferSyscall_woken fair slots user.2.1 idle.stopped idle.away
  refine ⟨⟨woken.caller, user.2.1, woken.pending, woken.runs⟩, rfl, .inr ⟨⟨?_, woken.pendsv, woken.ready, woken.root, ?_, ?_⟩, idle.phase⟩⟩
  · show (s.kernel.deferSyscall s.kernel.currentThreadIdx).currentThreadIdx ≠ kernTcb
    rw [woken.current]
    exact user.2.1
  · show (s.kernel.deferSyscall s.kernel.currentThreadIdx).state (s.kernel.deferSyscall s.kernel.currentThreadIdx).currentThreadIdx ≠ _
    rw [woken.current, woken.blocked]
    decide
  · intro t asked
    rw [woken.target] at asked
    exact .inl (Option.some.inj asked).symm

/-- Nobody but the kernel thread runs a step of the loop, and it has a call to work on until it yields. -/
theorem Stage.fetches (stage : Stage s) (kernel : s.kernel.InKernelThread) (phase : s.phase = .fetch) :
    Stage { s with phase := .handle s.kernel.softirqPending } := by
  cases stage with
  | idle idle =>
    exfalso
    rcases idle.leaves kernel.1 with yields | leaves
    · rw [phase] at yields
      cases yields
    · rw [kernel.2] at leaves
      cases leaves
  | waits waits =>
    rcases waits.place with ⟨holds, _⟩ | ⟨gets, _⟩
    · exact .waits ⟨waits.toOpen, waits.trapped, .inl ⟨holds, .inr (.inl (congrArg Phase.handle waits.pending))⟩⟩
    · exact absurd kernel.1 gets.current
  | served served =>
    rw [served.phase] at phase
    cases phase

theorem Stage.waiting (stage : Stage s) {pending : Bool} (phase : s.phase = .handle pending) :
    pending = true ∧ ∃ t, Waits s t ∧ Holds s.kernel := by
  cases stage with
  | idle idle =>
    rcases idle.phase with other | other
    · rw [phase] at other; cases other
    · rw [phase] at other; cases other
  | @waits t waits =>
    rcases waits.place with ⟨holds, other | same | other⟩ | ⟨_, other | other⟩
    · rw [phase] at other; cases other
    · rw [phase] at same
      exact ⟨Phase.handle.inj same, t, waits, holds⟩
    · rw [phase] at other; cases other
    · rw [phase] at other; cases other
    · rw [phase] at other; cases other
  | served served =>
    have other := served.phase
    rw [phase] at other
    cases other

theorem Stage.serving (stage : Stage s) {pending : Bool} (phase : s.phase = .clear pending) : pending = true ∧ ∃ t, Served s t := by
  cases stage with
  | idle idle =>
    rcases idle.phase with other | other
    · rw [phase] at other; cases other
    · rw [phase] at other; cases other
  | waits waits =>
    rcases waits.place with ⟨_, other | other | other⟩ | ⟨_, other | other⟩
    all_goals
      rw [phase] at other
      cases other
  | @served t served =>
    have same := served.phase
    rw [phase] at same
    exact ⟨Phase.clear.inj same, t, served⟩

/-- The handler leaves the kernel thread at work on the same call. -/
theorem Waits.served {fuel : Nat} (waits : Waits s t) (holds : Holds s.kernel) (named : Named s.kernel)
    (kernel : s.kernel.InKernelThread) (spares : ¬ s.kernel.ActivatesKernel) (h : softirqSvc fuel s.kernel = .ok k') :
    Served { kernel := k', phase := .clear true, calls := .handled s.kernel.caller :: s.calls } t ∧ Named k' := by
  have working : Working s.kernel := ⟨named.live, named.number, waits.runs, waits.caller ▸ waits.user⟩
  have spared := Spared.of_softirqSvc working spares h
  have rests : k'.pendsv = true → SparesTarget k' := by
    intro pending
    rw [spared.pendsv, kernel.2] at pending
    cases pending
  have still : Open k' t :=
    ⟨spared.caller.trans waits.caller, waits.user, spared.softirqPending.trans waits.pending, spared.state.trans waits.runs⟩
  refine ⟨⟨still, ?_, ⟨spared.currentThreadIdx.trans holds.current, fun member => holds.away (spared.ready member), rests⟩, rfl⟩, ?_⟩
  · exact congrArg (fun caller => some (Call.handled caller)) waits.caller
  · exact ⟨spared.live.trans named.live, by rw [spared.globalId]; exact named.number⟩

theorem Served.cleared (served : Served s t) : Idle (s.clear true) := by
  rw [clear_idle (Bool.and_false _)]
  have stops : ThreadState.inactive ≠ .runnable := by decide
  refine ⟨?_, ?_, ?_, fun member => served.holds.away ?_, .inr rfl, fun _ => .inl rfl⟩
  · rintro call (same : some Call.finished = some call)
    exact (Option.some.inj same).symm
  · exact setThreadState_softirqPending (s.kernel.setPending false) kernTcb .inactive
  · show ((s.kernel.setPending false).setThreadState kernTcb .inactive).state kernTcb ≠ .runnable
    rw [state_setThreadState, if_pos rfl]
    exact stops
  · exact (setThreadState_ready member).resolve_right fun wakes => stops wakes.2

theorem threadSwitch_kernel (k : Kernel) (dest : Word) :
    k.threadSwitch kernTcb dest = .ok (k.requestReschedule (k.findThreadByGlobalId dest)) := rfl

theorem Stage.yields (stage : Stage s) (kernel : s.kernel.InKernelThread) (phase : s.phase = .yield)
    (asks : s.kernel.softirqPending = true → ∀ t ∈ s.kernel.findThreadByGlobalId nilThread, t ∉ s.kernel.ready) :
    Stage { s with kernel := s.kernel.requestReschedule (s.kernel.findThreadByGlobalId nilThread), phase := .fetch } := by
  cases stage with
  | idle idle =>
    exact .idle ⟨idle.closed, idle.pending, idle.stopped, idle.away, .inl rfl, fun _ => .inr rfl⟩
  | waits waits =>
    rcases waits.place with ⟨holds, _⟩ | ⟨gets, _⟩
    · refine .waits ⟨⟨waits.caller, waits.user, waits.pending, waits.runs⟩, waits.trapped, .inl ⟨⟨holds.current, holds.away, ?_⟩, .inl rfl⟩⟩
      exact fun _ t asked => .inr (asks waits.pending t asked)
    · exact absurd kernel.1 gets.current
  | served served =>
    rw [served.phase] at phase
    cases phase

theorem step_lockstep {a : Action} (l : Lockstep s) (proper : Proper s a) (step : Step s a s') : Lockstep s' := by
  obtain ⟨enabled, h⟩ := step
  obtain ⟨orderly, named, stage⟩ := l
  cases a with
  | user cpu mem =>
    cases h
    exact ⟨orderly, ⟨named.live, named.number⟩, stage.tick ⟨rfl, rfl, rfl, rfl, rfl, rfl, .inl ⟨rfl, rfl⟩⟩⟩
  | svc =>
    obtain ⟨user, deferred⟩ := enabled
    have idle := stage.idle_of_user user
    have woken := deferSyscall_woken proper.fair proper.slots user.2.1 idle.stopped idle.away
    obtain ⟨k, trapped, h⟩ := bind_ok h
    rw [isrSvcall_deferred user deferred] at trapped
    cases trapped
    cases h
    refine ⟨⟨idle.closed, orderly⟩, ⟨?_, ?_⟩, .waits (idle.trap user proper.fair proper.slots)⟩
    · rw [woken.allocated]
      exact named.live
    · rw [woken.globalId]
      exact named.number
  | systick =>
    obtain ⟨k, ticks, h⟩ := bind_ok h
    cases h
    have ticked := isrSystick_ticked enabled ticks
    refine ⟨orderly, ⟨?_, ?_⟩, stage.tick ticked⟩
    · rw [ticked.allocated]
      exact named.live
    · rw [ticked.tcbs]
      exact named.number
  | pendsv =>
    obtain ⟨k, switches, h⟩ := bind_ok h
    cases h
    obtain ⟨idx, switched⟩ := switchContext_switched switches
    refine ⟨orderly, ⟨?_, ?_⟩, stage.switch enabled proper.fair proper.slots switched⟩
    · rw [switched.allocated]
      exact named.live
    · obtain ⟨_, same⟩ := switched.tcbs kernTcb
      rw [same]
      exact named.number
  | fetch =>
    cases h
    exact ⟨orderly, named, stage.fetches enabled.1 enabled.2⟩
  | handle fuel =>
    obtain ⟨kernel, pending, phase⟩ := enabled
    obtain ⟨rfl, t, waits, holds⟩ := stage.waiting phase
    unfold effect at h
    rw [phase] at h
    obtain ⟨k, served, h⟩ := bind_ok h
    cases h
    obtain ⟨serving, named⟩ := waits.served holds named kernel (proper.spares fuel rfl) served
    refine ⟨⟨?_, orderly⟩, named, .served serving⟩
    rw [waits.trapped, waits.caller]
  | clear =>
    obtain ⟨kernel, pending, phase⟩ := enabled
    obtain ⟨rfl, t, served⟩ := stage.serving phase
    unfold effect at h
    rw [phase] at h
    cases h
    have idle := served.cleared
    rw [clear_idle (Bool.and_false _)] at idle ⊢
    refine ⟨⟨⟨t, served.handled⟩, orderly⟩, ⟨?_, ?_⟩, .idle idle⟩
    · exact (congrFun (setThreadState_allocated _ kernTcb .inactive) kernTcb).trans named.live
    · show threadNo (((s.kernel.setPending false).setThreadState kernTcb .inactive).tcbs kernTcb).globalId = _
      rw [setThreadState_tcbs, Function.update_self]
      exact named.number
  | yield =>
    obtain ⟨kernel, phase⟩ := enabled
    obtain ⟨k, yielded, h⟩ := bind_ok h
    rw [threadSwitch_kernel] at yielded
    cases yielded
    cases h
    exact ⟨orderly, ⟨named.live, named.number⟩, stage.yields kernel phase (proper.yields rfl)⟩

end BradypOS.Softirq
