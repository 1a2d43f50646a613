import BradypOS.Syscall.Outcomes
import BradypOS.Thread.Search

/-!
# A `thread_control` that fails

All checks come before the first write. A call that answers 0 has written its answer, the error word
of its caller and, where it unblocks the caller, the caller's state.
-/

namespace BradypOS.Kernel

open L4

variable {k k' : Kernel}

/-- Nothing but the caller's result and scheduling state is different. The events of the threads are in the alarms. -/
structure LeftAlone (k k' : Kernel) : Prop where
  tcbs : ∀ t, t ≠ k.caller → k'.tcbs t = k.tcbs t
  caller : ∃ state, k'.tcbs k.caller = { k.tcbs k.caller with state }
  alarms : k'.alarms = k.alarms
  allocated : k'.allocated = k.allocated
  threadCount : k'.threadCount = k.threadCount
  threadList : k'.threadList = k.threadList
  asPool : k'.asPool = k.asPool
  asAllocated : k'.asAllocated = k.asAllocated
  /-- The caller comes into the heap. -/
  schedule : k'.schedule = k.schedule ∨
    k'.schedule = (Heap.insert k.compareThreadByPrio maxThreads k.schedule k.caller).1
  currentThreadIdx : k'.currentThreadIdx = k.currentThreadIdx
  mem : ∃ err : ErrorCode, k'.mem = (k.mem.setFrame k.callerSp fun f => { f with r0 := 0#32 }).setUtcb
    (k.tcbs k.caller).utcb fun u => { u with error := err.toWord }

theorem refuse_leftAlone (k : Kernel) (err : ErrorCode) : LeftAlone k (k.refuse k.callerSp err) :=
  ⟨fun _ _ => rfl, ⟨_, rfl⟩, rfl, rfl, rfl, rfl, rfl, rfl, .inl rfl, rfl, err, rfl⟩

theorem refused_leftAlone (k : Kernel) (err : ErrorCode) : LeftAlone k (k.refuse k.callerSp err).unblockCaller := by
  have written : (k.refuse k.callerSp err).unblockCaller = (k.refuse k.callerSp err).setThreadState k.caller .runnable := rfl
  rw [written]
  have before := refuse_leftAlone k err
  refine ⟨fun t other => ?_, ⟨.runnable, ?_⟩, ?_, ?_, ?_, ?_, ?_, ?_, ?_, ?_, ?_⟩
  · rw [setThreadState_tcbs, Function.update_of_ne other]
    rfl
  · rw [setThreadState_tcbs, Function.update_self]
    rfl
  · rw [setThreadState_alarms, before.alarms]
  · rw [setThreadState_allocated, before.allocated]
  · rw [setThreadState_threadCount, before.threadCount]
  · rw [setThreadState_threadList, before.threadList]
  · rw [setThreadState_asPool, before.asPool]
  · rw [setThreadState_asAllocated, before.asAllocated]
  · rw [setThreadState_schedule]
    unfold moveSchedule
    split
    · exact .inr rfl
    · exact .inl (by rw [if_neg fun stops => stops.1 rfl]; rfl)
  · rw [setThreadState_currentThreadIdx, before.currentThreadIdx]
  · rw [setThreadState_mem]
    exact before.mem

theorem refuse_r0 (k : Kernel) (sp : Word) (err : ErrorCode) : ((k.refuse sp err).mem.frame sp).r0 = 0#32 ∧
    ((k.refuse sp err).unblockCaller.mem.frame sp).r0 = 0#32 := by
  have answer : ((k.refuse sp err).mem.frame sp).r0 = 0#32 := by
    show (Function.update k.mem.frame sp { k.mem.frame sp with r0 := 0#32 } sp).r0 = 0#32
    rw [Function.update_self]
  refine ⟨answer, ?_⟩
  unfold unblockCaller
  rw [setThreadState_mem]
  exact answer

theorem succeeded_r0 (k : Kernel) (sp : Word) : ((k.succeeded sp).mem.frame sp).r0 = 1#32 ∧
    ((k.succeeded sp).unblockCaller.mem.frame sp).r0 = 1#32 := by
  have answer : ((k.succeeded sp).mem.frame sp).r0 = 1#32 := by
    show (Function.update k.mem.frame sp { k.mem.frame sp with r0 := 1#32 } sp).r0 = 1#32
    rw [Function.update_self]
  refine ⟨answer, ?_⟩
  unfold unblockCaller
  rw [setThreadState_mem]
  exact answer

/-- A `thread_control` that answers 0 leaves everything alone but its caller's result and state. -/
theorem syscallThreadControl_leftAlone (h : k.syscallThreadControl = .ok k') (failed : (k'.mem.frame k.callerSp).r0 = 0#32) :
    LeftAlone k k' := by
  have one : ∀ {w : Word}, w = 1#32 → w ≠ 0#32 := by
    rintro _ rfl
    decide
  cases threadControlled h with
  | privileged => exact refuse_leftAlone k _
  | refused user err => exact refused_leftAlone k err
  | deletedSelf => exact absurd failed (one (succeeded_r0 _ _).1)
  | deleted => exact absurd failed (one (succeeded_r0 _ _).2)
  | modified => exact absurd failed (one (succeeded_r0 _ _).2)
  | created => exact absurd failed (one (succeeded_r0 _ _).2)

def asksMissing : Kernel :=
  let k := ofTable [rootId, SmallSystem.secondId] [0, 1] 2
  k.setMem (k.mem.setFrame 0#32 fun f => { f with r0 := globalId 0x42#32 1#32 })

theorem syscallThreadControl_leftAlone_missing : ∃ k', asksMissing.syscallThreadControl = .ok k' ∧ k'.state 0 = .runnable ∧
    LeftAlone asksMissing k' := by
  have done : (asksMissing.syscallThreadControl.toOption.any fun k' =>
      k'.state 0 = .runnable && (k'.mem.frame asksMissing.callerSp).r0 = 0#32) = true := by decide
  obtain ⟨k', found, holds⟩ := (Option.any_eq_true _ _).mp done
  obtain ⟨runs, failed⟩ := Bool.and_eq_true_iff.mp holds
  have returned := ok_of_toOption found
  exact ⟨k', returned, of_decide_eq_true runs, syscallThreadControl_leftAlone returned (of_decide_eq_true failed)⟩

end BradypOS.Kernel
