import BradypOS.Theory.Loop
import BradypOS.Thread.Search

/-!
# The loop of the search (`kern/thread.c`)

`thread_list_find` as the rounds of its `do` loop, whose two bounds come closer in every round, whatever is
in the table. In an ascending table the cell of a thread stays between them.
-/

namespace BradypOS.Kernel

open L4
open Theory (Turn Comes loop loop_next loop_exit)

variable {k : Kernel} {no : Word} {fuel low high n r : Nat}

/-- The condition of the loop. -/
def whileApart (low high : Nat) : Turn (Nat × Nat) Nat := if low < high then .next (low, high) else .exit low

/-- One round, from the bounds `low` and `high`. -/
def threadListFindRound (k : Kernel) (no : Word) (bounds : Nat × Nat) : Turn (Nat × Nat) Nat :=
  let mid := (bounds.1 + bounds.2) / 2
  let currentNo := threadNo (k.tcbs (k.threadList mid)).globalId
  if currentNo = no then .exit mid
  else if currentNo < no then
    if mid = k.threadCount then .exit mid else whileApart (mid + 1) bounds.2
  else
    if mid = 0 then .exit 0 else whileApart bounds.1 (mid - 1)

/-- The cell of `thread_list` that a round reads. -/
def cellRead (bounds : Nat × Nat) : Nat := (bounds.1 + bounds.2) / 2

theorem whileApart_next {low' high' : Nat} (step : whileApart low high = .next (low', high')) : low' = low ∧ high' = high ∧ low < high := by
  unfold whileApart at step
  split at step
  · rename_i apart
    cases step
    exact ⟨rfl, rfl, apart⟩
  · cases step

/-- A round that goes on has moved one of the bounds over the cell it has read. -/
theorem threadListFindRound_next {bounds next : Nat × Nat} (step : k.threadListFindRound no bounds = .next next) :
    next.1 < next.2 ∧
      (next.1 = cellRead bounds + 1 ∧ next.2 = bounds.2 ∨ next.1 = bounds.1 ∧ next.2 + 1 = cellRead bounds) := by
  unfold threadListFindRound at step
  dsimp only at step
  split at step
  · cases step
  split at step
  · split at step
    · cases step
    obtain ⟨low, high, apart⟩ := whileApart_next step
    rw [low, high]
    exact ⟨apart, .inl ⟨rfl, rfl⟩⟩
  · split at step
    · cases step
    · rename_i some_
      obtain ⟨low, high, apart⟩ := whileApart_next step
      rw [low, high]
      refine ⟨apart, .inr ⟨rfl, ?_⟩⟩
      exact Nat.sub_add_cancel (Nat.one_le_iff_ne_zero.mpr some_)

theorem comes_bounds {bounds : Nat × Nat} (comes : Comes (k.threadListFindRound no) (0, n) bounds) :
    bounds.1 ≤ bounds.2 ∧ bounds.2 ≤ n ∧ (0 < n → bounds.1 < bounds.2) := by
  obtain ⟨rounds, reached⟩ := comes
  refine Theory.Reaches.invariant (I := fun _ s => s.1 ≤ s.2 ∧ s.2 ≤ n ∧ (0 < n → s.1 < s.2)) ⟨Nat.zero_le n, Nat.le_refl n, id⟩ ?_ reached
  intro rounds bounds next _ step ⟨le, inside, _⟩
  obtain ⟨apart, moved⟩ := threadListFindRound_next step
  unfold cellRead at moved
  omega

/-- The distance of the bounds falls in every round. -/
theorem threadListFindRound_ends (k : Kernel) (no : Word) (n : Nat) :
    ∃ r, loop (k.threadListFindRound no) (n + 1) (0, n) = .exit r := by
  refine Theory.exits_of_measure (fun bounds : Nat × Nat => bounds.2 - bounds.1) ?_
  intro bounds next comes step
  obtain ⟨le, -, -⟩ := comes_bounds comes
  obtain ⟨apart, moved⟩ := threadListFindRound_next step
  unfold cellRead at moved
  omega

/-- What the rounds end with is what `thread_list_find` returns. -/
theorem threadListFindLoop_of_loop (ends : loop (k.threadListFindRound no) fuel (low, high) = .exit r) :
    k.threadListFindLoop no fuel low high = r := by
  induction fuel generalizing low high with
  | zero => cases ends
  | succ fuel ih =>
    unfold loop threadListFindRound whileApart at ends
    unfold threadListFindLoop
    dsimp only at ends ⊢
    split_ifs at ends ⊢
    all_goals first | exact Turn.exit.inj ends | exact ih ends

theorem threadListFind_ends (k : Kernel) (id : Word) :
    loop (k.threadListFindRound (threadNo id)) (k.threadCount + 1) (0, k.threadCount) = .exit (k.threadListFind id) := by
  obtain ⟨r, ends⟩ := threadListFindRound_ends k (threadNo id) k.threadCount
  rw [ends, threadListFind, threadListFindLoop_of_loop ends]

/-- The search ends in every table. In an ascending one it returns the cell of a thread that is there, and reads cells
in use only. -/
theorem threadListFind_finds :
    (∀ (k : Kernel) (id : Word),
      loop (k.threadListFindRound (threadNo id)) (k.threadCount + 1) (0, k.threadCount) = .exit (k.threadListFind id)) ∧
    ∀ (k : Kernel) (id : Word) (p : Nat), p < k.threadCount → k.Ascending → k.cellNo p = threadNo id →
      k.threadListFind id = p ∧
      ∀ bounds, Comes (k.threadListFindRound (threadNo id)) (0, k.threadCount) bounds → cellRead bounds < k.threadCount := by
  refine ⟨threadListFind_ends, fun k id p inside ascending same => ⟨threadListFind_of_ascending ascending inside same, ?_⟩⟩
  intro bounds comes
  obtain ⟨-, behind, apart⟩ := comes_bounds comes
  have apart := apart (Nat.zero_lt_of_lt inside)
  unfold cellRead
  omega

theorem threadListFind_finds_second : (ofTable [kernId, idleId] [0, 1] 2).threadListFind idleId = 1 := by
  have searchable : (ofTable [kernId, idleId] [0, 1] 2).Searchable := by decide
  exact (threadListFind_finds.2 (ofTable [kernId, idleId] [0, 1] 2) idleId 1 (by decide) searchable.ascending (by decide)).1

end BradypOS.Kernel
