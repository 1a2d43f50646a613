import BradypOS.Alarm.Systick
import BradypOS.Ipc.Frame

/-!
# Who the threads are

Traps, ticks, context switches and IPC change the states and the saved contexts of threads. Which
threads there are, and their ids, spaces, siblings and priorities, they leave alone.
-/

namespace BradypOS.Kernel

open L4

structure Kept (k k' : Kernel) : Prop where
  allocated : k'.allocated = k.allocated
  threadCount : k'.threadCount = k.threadCount
  threadList : k'.threadList = k.threadList
  tcbs : ∀ u, ∃ ctx ipcFrom state, k'.tcbs u = { k.tcbs u with ctx, ipcFrom, state }

variable {k k' k'' : Kernel}

namespace Kept

theorem of_tcbs (tcbs : k'.tcbs = k.tcbs) (allocated : k'.allocated = k.allocated)
    (threadCount : k'.threadCount = k.threadCount) (threadList : k'.threadList = k.threadList) : Kept k k' :=
  ⟨allocated, threadCount, threadList, fun u => ⟨_, _, _, congrFun tcbs u⟩⟩

theorem refl (k : Kernel) : Kept k k := of_tcbs rfl rfl rfl rfl

theorem trans (h : Kept k k') (h' : Kept k' k'') : Kept k k'' := by
  refine ⟨h'.allocated.trans h.allocated, h'.threadCount.trans h.threadCount, h'.threadList.trans h.threadList, ?_⟩
  intro u
  obtain ⟨_, _, _, same⟩ := h.tcbs u
  obtain ⟨ctx, ipcFrom, state, same'⟩ := h'.tcbs u
  exact ⟨ctx, ipcFrom, state, by rw [same', same]⟩

theorem quiet (h : Kept k k') (q : Quiet k' k'') : Kept k k'' := by
  refine h.trans ⟨q.allocated, q.threadCount, q.threadList, fun u => ?_⟩
  obtain ⟨ctx, ipcFrom, same⟩ := q.tcbs u
  exact ⟨ctx, ipcFrom, (k'.tcbs u).state, same⟩

theorem setThreadState (h : Kept k k') (t : Nat) (st : ThreadState) : Kept k (k'.setThreadState t st) := by
  refine h.trans ⟨k'.setThreadState_allocated t st, k'.setThreadState_threadCount t st,
    k'.setThreadState_threadList t st, fun u => ?_⟩
  rw [setThreadState_tcbs, Function.update_apply]
  split
  · rename_i same
    exact ⟨_, _, _, by rw [same]⟩
  · exact ⟨_, _, _, rfl⟩

theorem sameTable (h : Kept k k') : SameTable k k' := by
  refine ⟨h.threadCount, h.threadList, fun u => ?_⟩
  obtain ⟨_, _, _, same⟩ := h.tcbs u
  rw [same]

/-- A change that no thread and no part of the thread table shows. -/
theorem aside (h : Kept k k') (tcbs : k''.tcbs = k'.tcbs) (allocated : k''.allocated = k'.allocated)
    (threadCount : k''.threadCount = k'.threadCount) (threadList : k''.threadList = k'.threadList) : Kept k k'' :=
  h.trans (of_tcbs tcbs allocated threadCount threadList)

end Kept

/-- The address spaces stay as well. -/
structure Stable (k k' : Kernel) : Prop extends Kept k k' where
  asPool : k'.asPool = k.asPool
  asAllocated : k'.asAllocated = k.asAllocated

namespace Stable

theorem refl (k : Kernel) : Stable k k := ⟨.refl k, rfl, rfl⟩

theorem trans (h : Stable k k') (h' : Stable k' k'') : Stable k k'' :=
  ⟨h.toKept.trans h'.toKept, h'.asPool.trans h.asPool, h'.asAllocated.trans h.asAllocated⟩

theorem light (h : Stable k k') (l : Light k' k'') : Stable k k'' :=
  ⟨h.toKept.quiet l.toQuiet, l.asPool.trans h.asPool, l.asAllocated.trans h.asAllocated⟩

theorem setThreadState (h : Stable k k') (t : Nat) (st : ThreadState) : Stable k (k'.setThreadState t st) :=
  ⟨h.toKept.setThreadState t st, (k'.setThreadState_asPool t st).trans h.asPool,
    (k'.setThreadState_asAllocated t st).trans h.asAllocated⟩

/-- A change that no thread, no part of the thread table and no address space shows. -/
theorem aside (h : Stable k k') (tcbs : k''.tcbs = k'.tcbs) (allocated : k''.allocated = k'.allocated)
    (threadCount : k''.threadCount = k'.threadCount) (threadList : k''.threadList = k'.threadList)
    (asPool : k''.asPool = k'.asPool) (asAllocated : k''.asAllocated = k'.asAllocated) : Stable k k'' :=
  ⟨h.toKept.aside tcbs allocated threadCount threadList, asPool.trans h.asPool, asAllocated.trans h.asAllocated⟩

end Stable

theorem Called.stable {t : Nat} (h : Called k t k') : Stable k k' :=
  h.rule (P := Stable k) (fun _ _ stable light => stable.light light) (fun _ u st (_ : True) stable => stable.setThreadState u st)
    (fun _ _ => trivial) (.refl k)

theorem Called.kept {t : Nat} (h : Called k t k') : Kept k k' := h.stable.toKept

theorem pauseThread_stable {t : Nat} {untilTime : Word} (h : k.pauseThread t untilTime = .ok k') : Stable k k' := by
  obtain ⟨alarms, queue, rfl⟩ := pauseThread_frame h
  have noted : Light k (k.log (.pausing t)) := (Light.refl k).log rfl
  exact ((Stable.refl k).light ((noted.setAlarms alarms).log rfl)).setThreadState t .paused

theorem threadSwitch_stable {current : Nat} {dest : Word} (h : k.threadSwitch current dest = .ok k') : Stable k k' := by
  obtain ⟨k₁, target, paused, rfl⟩ := threadSwitch_cases h
  have stable : Stable k k₁ := by
    rcases paused with rfl | ⟨_, paused⟩
    · exact .refl _
    · exact pauseThread_stable paused
  exact stable.aside rfl rfl rfl rfl rfl rfl

theorem deferSyscall_stable (k : Kernel) (current : Nat) : Stable k (k.deferSyscall current) := by
  have called : Stable k (k.setCaller current) := (Stable.refl k).aside rfl rfl rfl rfl rfl rfl
  have pending : Stable k (((k.setCaller current).setThreadState current .svcBlocked).setPending true) :=
    (called.setThreadState current .svcBlocked).aside rfl rfl rfl rfl rfl rfl
  exact (pending.setThreadState kernTcb .runnable).aside rfl rfl rfl rfl rfl rfl

theorem isrSvcall_stable (h : k.isrSvcall = .ok k') : Stable k k' := by
  unfold isrSvcall at h
  split at h
  · cases h
  · split at h
    · exact threadSwitch_stable h
    · cases h; exact (Stable.refl k).aside rfl rfl rfl rfl rfl rfl
    · cases h; exact deferSyscall_stable k _

theorem isrSystick_stable (h : k.isrSystick = .ok k') : Stable k k' := by
  refine (isrSystick_rule (P := Stable k) ?_ ((Stable.refl k).aside rfl rfl rfl rfl rfl rfl) h).1
  intro k₁ ev k₂ stable _ _ _ handled
  have base : Stable k (k₁.popped ev) := stable.aside rfl rfl rfl rfl rfl rfl
  rcases kalarmEventFunc_cases handled with ⟨_, rfl⟩ | ⟨t, _, _, rfl⟩ | ⟨_, _, rfl⟩ | ⟨t, _, _, _, rfl⟩
  · exact base.aside rfl rfl rfl rfl rfl rfl
  · have noted := base.light ((Light.refl _).log (e := .unpaused t ((k₁.popped ev).state t) ((k₁.popped ev).allocated t)) rfl)
    exact (noted.setThreadState t .runnable).aside rfl rfl rfl rfl rfl rfl
  · exact base
  · have told := base.light (((Light.refl _).setIpcError t).reportError t ((k₁.popped ev).state t = .recvBlocked) .timeout)
    exact (told.setThreadState t .runnable).aside rfl rfl rfl rfl rfl rfl

theorem scheduleNextThread_stable (h : k.scheduleNextThread = .ok k') : Stable k k' := by
  obtain ⟨idx, k₁, alarms, selected, _, rfl⟩ := scheduleNextThread_spec h
  obtain ⟨_, schedule, rfl⟩ := selectThread_spec selected
  have requeued : Stable k k.requeueCurrent := by
    unfold requeueCurrent
    split
    · exact (Stable.refl k).aside rfl rfl rfl rfl rfl rfl
    · exact .refl k
  generalize k.requeueCurrent = k₀ at requeued
  exact requeued.aside rfl rfl rfl rfl rfl rfl

theorem switchContext_stable (h : k.switchContext = .ok k') : Stable k k' := by
  obtain ⟨k₁, switched, rfl⟩ := switchContext_spec h
  obtain ⟨tcbs, saved, kept⟩ := (k.setPendsv false).saveContext_frame
  have stored : Stable k (k.setPendsv false).saveContext := by
    rw [saved]
    refine ⟨⟨rfl, rfl, rfl, fun u => ?_⟩, rfl, rfl⟩
    obtain ⟨ctx, same⟩ := kept u
    exact ⟨ctx, (k.tcbs u).ipcFrom, (k.tcbs u).state, same⟩
  exact (stored.trans (scheduleNextThread_stable switched)).aside rfl rfl rfl rfl rfl rfl

end BradypOS.Kernel
