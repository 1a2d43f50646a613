import BradypOS.Scheduler.Basic

/-!
# Looking threads up

What `find_thread_by_global_id` finds depends on the table and the global ids alone. It is a slot
that the table names, of a thread with the thread number it was asked for.
-/

namespace BradypOS.Kernel

open L4

theorem threadListFindLoop_le (k : Kernel) (no : Word) {fuel low high : Nat} (hl : low ≤ k.threadCount)
    (hh : high ≤ k.threadCount) : k.threadListFindLoop no fuel low high ≤ k.threadCount := by
  induction fuel generalizing low high with
  | zero => exact hl
  | succ fuel ih =>
    rw [threadListFindLoop]
    have hm : (low + high) / 2 ≤ k.threadCount := by omega
    split
    · exact hm
    · split
      · split
        · exact hm
        · split
          · exact ih (by omega) hh
          · omega
      · split
        · omega
        · split
          · exact ih hl (by omega)
          · exact hl

theorem threadListFind_le (k : Kernel) (globalId : Word) : k.threadListFind globalId ≤ k.threadCount :=
  threadListFindLoop_le k _ (Nat.zero_le _) (Nat.le_refl _)

/-- Two kernels with the same thread table and the same global ids. -/
structure SameTable (k k' : Kernel) : Prop where
  threadCount : k'.threadCount = k.threadCount
  threadList : k'.threadList = k.threadList
  globalId : ∀ t, (k'.tcbs t).globalId = (k.tcbs t).globalId

namespace SameTable

variable {k k' k'' : Kernel}

theorem refl (k : Kernel) : SameTable k k := ⟨rfl, rfl, fun _ => rfl⟩

theorem trans (h : SameTable k k') (h' : SameTable k' k'') : SameTable k k'' :=
  ⟨h'.threadCount.trans h.threadCount, h'.threadList.trans h.threadList,
    fun t => (h'.globalId t).trans (h.globalId t)⟩

theorem loop (h : SameTable k k') (no : Word) (fuel low high : Nat) :
    k'.threadListFindLoop no fuel low high = k.threadListFindLoop no fuel low high := by
  induction fuel generalizing low high with
  | zero => rfl
  | succ fuel ih => simp only [threadListFindLoop, h.threadCount, h.threadList, h.globalId, ih]

theorem mapFind (h : SameTable k k') (globalId : Word) : k'.threadMapFind globalId = k.threadMapFind globalId := by
  have index : k'.threadListFind globalId = k.threadListFind globalId := by
    simp only [threadListFind, h.loop, h.threadCount]
  unfold threadMapFind
  dsimp only
  rw [index, h.threadList, h.globalId]

theorem find (h : SameTable k k') (globalId : Word) :
    k'.findThreadByGlobalId globalId = k.findThreadByGlobalId globalId := by
  unfold findThreadByGlobalId
  rw [h.mapFind]

theorem setTcb (k : Kernel) (t : Nat) {f : Tcb → Tcb} (same : (f (k.tcbs t)).globalId = (k.tcbs t).globalId) :
    SameTable k (k.setTcb t f) :=
  ⟨rfl, rfl, fun u => by
    by_cases h : u = t
    · subst h; rw [setTcb_same]; exact same
    · rw [setTcb_other _ _ _ _ h]⟩

theorem setThreadState (k : Kernel) (t : Nat) (st : ThreadState) : SameTable k (k.setThreadState t st) := by
  refine ⟨k.setThreadState_threadCount t st, k.setThreadState_threadList t st, fun u => ?_⟩
  rw [setThreadState_tcbs, Function.update_apply]
  split
  · rename_i same; rw [same]
  · rfl

end SameTable

theorem threadMapFind_spec {k : Kernel} {globalId : Word} {t : Nat} (h : k.threadMapFind globalId = t)
    (valid : t ≠ invalidIdx) :
    ∃ i ≤ k.threadCount, k.threadList i = t ∧ threadNo (k.tcbs t).globalId = threadNo globalId := by
  unfold threadMapFind at h
  dsimp only at h
  split at h
  · rename_i same
    exact ⟨_, k.threadListFind_le globalId, h, by simpa [h] using same⟩
  · exact absurd h.symm valid

theorem find_spec {k : Kernel} {globalId : Word} {t : Nat} (h : k.findThreadByGlobalId globalId = some t) :
    ∃ i ≤ k.threadCount, k.threadList i = t ∧ threadNo (k.tcbs t).globalId = threadNo globalId := by
  unfold findThreadByGlobalId at h
  dsimp only at h
  split at h
  · cases h
  · rename_i valid
    cases h
    exact threadMapFind_spec rfl valid

end BradypOS.Kernel
