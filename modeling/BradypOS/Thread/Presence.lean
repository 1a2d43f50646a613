import BradypOS.Thread.Deleted

/-!
# What interrupts do to a thread's place in the scheduler

An interrupt puts no thread into the heap but those that it wakes and the one that it takes the processor from. So the number of
times that another thread stands in the heap, or is about to go back, does not grow.
-/

namespace BradypOS.Kernel

open L4

variable {k k' : Kernel} {d : Nat}

/-- How often a thread stands in the heap, the time that the next context switch puts it there included. -/
def presence (k : Kernel) (d : Nat) : Nat := k.ready.count d + if k.currentThreadIdx = d ∧ k.state d = .runnable then 1 else 0

theorem presence_congr (schedule : k'.schedule = k.schedule) (current : k'.currentThreadIdx = k.currentThreadIdx)
    (state : k'.state d = k.state d) : k'.presence d = k.presence d := by
  unfold presence ready
  rw [schedule, current, state]

theorem Quiet.presence (h : Quiet k k') (d : Nat) : k'.presence d = k.presence d :=
  presence_congr h.schedule h.currentThreadIdx (h.state d)

end BradypOS.Kernel
