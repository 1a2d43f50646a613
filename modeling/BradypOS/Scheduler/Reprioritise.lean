import BradypOS.Heap.Repair
import BradypOS.Scheduler.Priority

/-!
# A new priority for a thread

`set_thread_priority` changes a key inside the scheduler heap and repairs the heap from the place of
its thread.
-/

namespace BradypOS.Scheduler

open Kernel

variable {k : Kernel} {t : Nat} {prio : Word}

/-- The thread, if it is in the heap, does not sink past a left child that is less than the right one. -/
def PrioritySound (k : Kernel) (t : Nat) (prio : Word) : Prop :=
  ∀ i, k.findIdxInHeap t = some i →
    Heap.SinkSound (k.setTcb t fun tcb => { tcb with priority := prio }).compareThreadByPrio k.schedule.size
      k.schedule.size k.schedule.data t i

instance (k : Kernel) (t : Nat) (prio : Word) : Decidable (PrioritySound k t prio) :=
  match found : k.findIdxInHeap t with
  | none => .isTrue fun i h => by rw [found] at h; cases h
  | some i => decidable_of_iff
      (Heap.SinkSound (k.setTcb t fun tcb => { tcb with priority := prio }).compareThreadByPrio k.schedule.size
        k.schedule.size k.schedule.data t i)
      ⟨fun sound j h => by rw [found] at h; cases h; exact sound, fun sound => sound i found⟩

/-- `set_thread_priority` keeps the threads in the heap, and it keeps the heap ordered by priority if and
only if the sink is sound. -/
theorem setThreadPriority_iff (ordered : HeapOrdered k)
    (once : ∀ i < k.schedule.size, ∀ j < k.schedule.size, k.schedule.data i = t → k.schedule.data j = t → i = j) :
    (k.setThreadPriority t prio).ready.Perm k.ready ∧ HeapOrdered (k.setThreadPriority t prio) ↔ PrioritySound k t prio := by
  have members : (k.setThreadPriority t prio).ready.Perm k.ready := by
    obtain ⟨schedule, same, perm⟩ := k.setThreadPriority_spec t prio
    rw [same]
    exact perm
  rw [and_iff_right members]
  cases found : k.findIdxInHeap t with
  | none =>
    have sound : PrioritySound k t prio := fun i h => by rw [found] at h; cases h
    refine iff_of_true ?_ sound
    rw [setThreadPriority_absent found]
    exact ordered.reprioritised_absent prio (findIdxInHeap_none.mp found)
  | some i =>
    obtain ⟨inside, here⟩ := findIdxInHeap_some found
    have hole := ordered.reprioritised prio found fun j hj same => once j hj i inside same here
    have placed := Heap.sink_swim_ordered_iff _ (h := k.schedule) hole inside
    rw [here] at placed
    have only : PrioritySound k t prio ↔
        Heap.SinkSound (k.setTcb t fun tcb => { tcb with priority := prio }).compareThreadByPrio k.schedule.size
          k.schedule.size k.schedule.data t i :=
      ⟨fun sound => sound i found, fun sound j h => by rw [found] at h; cases h; exact sound⟩
    obtain ⟨k₁, rfl, moved⟩ := setThreadPriority_present prio found
    rw [only, ← placed, moved]
    exact Iff.rfl

def threeReady : Kernel :=
  let k := init SmallSystem.bootInfo
  (k.setTcbs fun i => { k.tcbs i with priority := BitVec.ofNat 32 (i + 1) }).setSchedule (Heap.ofList [0, 1, 2])

theorem setThreadPriority_iff_raised : (threeReady.setThreadPriority 2 0#32).ready.Perm threeReady.ready ∧
    HeapOrdered (threeReady.setThreadPriority 2 0#32) :=
  (setThreadPriority_iff (k := threeReady) (t := 2) (by decide) (by decide)).mpr (by decide)

/-- The first thread goes down to the right, and the thread with priority value 3 ends above the one with 2. -/
theorem setThreadPriority_lowered : HeapOrdered threeReady ∧ (threeReady.setThreadPriority 0 4#32).ready = [2, 1, 0] ∧
    ¬ HeapOrdered (threeReady.setThreadPriority 0 4#32) := by decide

end BradypOS.Scheduler
