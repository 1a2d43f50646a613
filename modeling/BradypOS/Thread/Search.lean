import BradypOS.Kernel.Machine
import BradypOS.Theory.Bisection
import BradypOS.Thread.Table

/-!
# Searching the thread table

In an ascending table a thread that is there is found in its cell. Whether the search stays among the
cells in use depends on the number it looks for: behind the last thread it goes on to a leftover.
-/

namespace BradypOS.Kernel

open L4

variable {k k' : Kernel} {id no : Word} {i j t n : Nat}

/-- The thread number that a cell of the table stands for. -/
def cellNo (k : Kernel) (i : Nat) : Word := threadNo (k.tcbs (k.threadList i)).globalId

/-- The cells in use are ascending by thread number. -/
def Ascending (k : Kernel) : Prop := ∀ i j, i < j → j < k.threadCount → k.cellNo i < k.cellNo j

/-- The table is ascending, so that its cells are different slots, and the slots are allocated. -/
structure Searchable (k : Kernel) : Prop where
  ascending : k.Ascending
  slot : ∀ i < k.threadCount, k.threadList i < maxThreads ∧ k.allocated (k.threadList i) = true
  room : k.threadCount ≤ maxThreads

instance (k : Kernel) : Decidable k.Searchable :=
  decidable_of_iff
    ((∀ j < k.threadCount, ∀ i < j, k.cellNo i < k.cellNo j) ∧
      (∀ i < k.threadCount, k.threadList i < maxThreads ∧ k.allocated (k.threadList i) = true) ∧ k.threadCount ≤ maxThreads)
    ⟨fun h => ⟨fun i j before inside => h.1 j inside i before, h.2.1, h.2.2⟩,
      fun h => ⟨fun j inside i before => h.ascending i j before inside, h.slot, h.room⟩⟩

theorem Searchable.cellNo_inj (s : k.Searchable) (left : i < k.threadCount) (right : j < k.threadCount)
    (same : k.cellNo i = k.cellNo j) : i = j := by
  rcases Nat.lt_trichotomy i j with before | here | behind
  · exact absurd same (BitVec.ne_of_lt (s.ascending i j before right))
  · exact here
  · exact absurd same.symm (BitVec.ne_of_lt (s.ascending j i behind left))

def compareCell (k : Kernel) (no : Word) (i : Nat) : Ordering :=
  if k.cellNo i = no then .eq else if k.cellNo i < no then .lt else .gt

theorem compareCell_eq : k.compareCell no i = .eq ↔ k.cellNo i = no := by
  unfold compareCell
  split <;> [skip; split] <;> simp_all

theorem compareCell_lt : k.compareCell no i = .lt ↔ k.cellNo i < no := by
  unfold compareCell
  split
  · rename_i same
    simp [same]
  · split <;> simp_all

theorem compareCell_gt : k.compareCell no i = .gt ↔ no < k.cellNo i := by
  unfold compareCell
  split
  · rename_i same
    simp [same]
  · rename_i other
    split
    · rename_i less
      simp [BitVec.le_of_lt less]
    · rename_i late
      refine ⟨fun _ => ?_, fun _ => rfl⟩
      have le : no ≤ k.cellNo i := BitVec.not_lt.mp late
      exact BitVec.not_le.mp fun ge => other (BitVec.le_antisymm ge le)

theorem threadListFindLoop_eq (fuel low high : Nat) :
    k.threadListFindLoop no fuel low high = Theory.bisect (k.compareCell no) k.threadCount fuel low high := by
  induction fuel generalizing low high with
  | zero => rfl
  | succ fuel ih =>
    unfold threadListFindLoop Theory.bisect
    simp only [ih]
    cases order : k.compareCell no ((low + high) / 2) with
    | eq =>
      have same : threadNo (k.tcbs (k.threadList ((low + high) / 2))).globalId = no := compareCell_eq.mp order
      rw [if_pos same]
    | lt =>
      have less : threadNo (k.tcbs (k.threadList ((low + high) / 2))).globalId < no := compareCell_lt.mp order
      rw [if_neg (BitVec.ne_of_lt less), if_pos less]
    | gt =>
      have greater : no < threadNo (k.tcbs (k.threadList ((low + high) / 2))).globalId := compareCell_gt.mp order
      rw [if_neg (BitVec.ne_of_lt greater).symm, if_neg (BitVec.not_lt.mpr (BitVec.le_of_lt greater))]

/-- The first cell whose thread has not a smaller number. -/
def place (k : Kernel) (no : Word) : Nat :=
  ((List.range k.threadCount).find? fun i => !decide (k.cellNo i < no)).getD k.threadCount

theorem splits_of_ascending (ascending : k.Ascending) (no : Word) : Theory.Splits (k.compareCell no) k.threadCount (k.place no) := by
  unfold place
  cases first : (List.range k.threadCount).find? fun i => !decide (k.cellNo i < no) with
  | none =>
    have all := List.find?_eq_none.mp first
    refine ⟨Nat.le_refl _, fun i inside => compareCell_lt.mpr ?_, fun inside => absurd inside (Nat.lt_irrefl _), fun i behind inside => ?_⟩
    · simpa using all i (List.mem_range.mpr inside)
    · exact absurd (Nat.lt_trans behind inside) (Nat.lt_irrefl _)
  | some p =>
    obtain ⟨late, inside, before⟩ := List.find?_range_eq_some.mp first
    have inside : p < k.threadCount := List.mem_range.mp inside
    have late : no ≤ k.cellNo p := by simpa using late
    refine ⟨Nat.le_of_lt inside, fun i earlier => compareCell_lt.mpr ?_, fun _ => ?_, fun i behind later => ?_⟩
    · simpa using before i earlier
    · intro less
      exact BitVec.not_le.mpr (compareCell_lt.mp less) late
    · have less := ascending p i behind later
      exact compareCell_gt.mpr (BitVec.not_le.mp fun ge => BitVec.not_le.mpr less (BitVec.le_trans ge late))

theorem place_splits (s : k.Searchable) (no : Word) : Theory.Splits (k.compareCell no) k.threadCount (k.place no) :=
  splits_of_ascending s.ascending no

theorem threadListFind_of_ascending (ascending : k.Ascending) (inside : i < k.threadCount) (same : k.cellNo i = threadNo id) :
    k.threadListFind id = i := by
  have split := splits_of_ascending ascending (threadNo id)
  have here := split.eq_only inside (compareCell_eq.mpr same)
  unfold threadListFind
  rw [threadListFindLoop_eq]
  subst here
  exact split.bisect_found inside (compareCell_eq.mpr same) (by omega) (Nat.le_refl _) (Nat.zero_le _) (Nat.le_of_lt inside) (by omega)

theorem threadListFind_of_listed (s : k.Searchable) (inside : i < k.threadCount) (same : k.cellNo i = threadNo id) :
    k.threadListFind id = i := threadListFind_of_ascending s.ascending inside same

/-- Whether the search for a missing number ends one cell before its place. -/
def misplaces (k : Kernel) (no : Word) : Bool := Theory.undershoots (k.place no) (k.threadCount + 1) 0 k.threadCount

theorem threadListFind_of_missing (s : k.Searchable) (missing : ∀ i < k.threadCount, k.cellNo i ≠ threadNo id) :
    k.threadListFind id = if k.misplaces (threadNo id) then k.place (threadNo id) - 1 else k.place (threadNo id) := by
  have split := place_splits s (threadNo id)
  unfold threadListFind misplaces
  rw [threadListFindLoop_eq]
  rcases Nat.eq_zero_or_pos k.threadCount with empty | used
  · have first : k.place (threadNo id) = 0 := by have := split.le; omega
    rw [empty, first, Theory.bisect_empty]
    simp
  · exact split.bisect_missing (fun inside same => missing _ inside (compareCell_eq.mp same)) used (Nat.le_refl _)
      (Nat.zero_le _) split.le (by omega)

/-! ### Which cells are read -/

/-- The cells of `thread_list` that the loop of `thread_list_find` reads. -/
def threadListFindReads (k : Kernel) (no : Word) : Nat → Nat → Nat → List Nat
  | 0, _, _ => []
  | fuel + 1, low, high =>
    let mid := (low + high) / 2
    let currentNo := threadNo (k.tcbs (k.threadList mid)).globalId
    mid :: (if currentNo = no then []
      else if currentNo < no then
        if mid = k.threadCount then []
        else if mid + 1 < high then threadListFindReads k no fuel (mid + 1) high
        else []
      else if mid = 0 then []
      else if low < mid - 1 then threadListFindReads k no fuel low (mid - 1)
      else [])

/-- The cells that `thread_map_find` reads: those of the search, and the one that the search ends at. -/
def threadMapFindReads (k : Kernel) (globalId : Word) : List Nat :=
  k.threadListFindReads (threadNo globalId) (k.threadCount + 1) 0 k.threadCount ++ [k.threadListFind globalId]

theorem threadListFindReads_eq (fuel low high : Nat) :
    k.threadListFindReads no fuel low high = Theory.probes (k.compareCell no) k.threadCount fuel low high := by
  induction fuel generalizing low high with
  | zero => rfl
  | succ fuel ih =>
    unfold threadListFindReads Theory.probes
    simp only [ih]
    cases order : k.compareCell no ((low + high) / 2) with
    | eq =>
      have same : threadNo (k.tcbs (k.threadList ((low + high) / 2))).globalId = no := compareCell_eq.mp order
      rw [if_pos same]
    | lt =>
      have less : threadNo (k.tcbs (k.threadList ((low + high) / 2))).globalId < no := compareCell_lt.mp order
      rw [if_neg (BitVec.ne_of_lt less), if_pos less]
    | gt =>
      have greater : no < threadNo (k.tcbs (k.threadList ((low + high) / 2))).globalId := compareCell_gt.mp order
      rw [if_neg (BitVec.ne_of_lt greater).symm, if_neg (BitVec.not_lt.mpr (BitVec.le_of_lt greater))]

theorem find_of_listed (s : k.Searchable) (inside : i < k.threadCount) (same : k.cellNo i = threadNo id) :
    k.findThreadByGlobalId id = some (k.threadList i) := by
  have valid : k.threadList i ≠ invalidIdx := by
    have slot := (s.slot i inside).1
    unfold invalidIdx
    unfold maxThreads at slot
    omega
  have here : sameThreads (k.tcbs (k.threadList i)).globalId id = true := sameThreads_iff.mpr same
  unfold findThreadByGlobalId threadMapFind
  simp only [threadListFind_of_listed s inside same, here, if_true, valid, if_false]

theorem find_none (missing : ∀ i < k.threadCount, k.cellNo i ≠ threadNo id)
    (inside : k.threadListFind id < k.threadCount) : k.findThreadByGlobalId id = none := by
  have other : ¬ sameThreads (k.tcbs (k.threadList (k.threadListFind id))).globalId id = true :=
    fun same => missing _ inside (sameThreads_iff.mp same)
  unfold findThreadByGlobalId threadMapFind
  dsimp only
  rw [if_neg other, if_pos rfl]

theorem place_lt_of_misplaces (h : k.misplaces (threadNo id) = true) : k.place (threadNo id) < k.threadCount := by
  by_contra last
  unfold misplaces at h
  rcases Nat.eq_zero_or_pos k.threadCount with empty | used
  · have pos := Theory.undershoots_pos h
    rw [empty] at h
    unfold Theory.undershoots at h
    simp [pos] at h
  · rw [Theory.not_undershoots_last used (by omega)] at h
    cases h

/-- Behind the last thread, the search ends behind the last cell. -/
theorem threadListFind_behind (s : k.Searchable) (smaller : ∀ i < k.threadCount, k.cellNo i < threadNo id) :
    k.threadListFind id = k.threadCount := by
  have split := place_splits s (threadNo id)
  have last : k.place (threadNo id) = k.threadCount := by
    by_contra other
    have used : k.place (threadNo id) < k.threadCount := lt_of_le_of_ne split.le other
    exact split.here used (compareCell_lt.mpr (smaller _ used))
  have missing : ∀ i < k.threadCount, k.cellNo i ≠ threadNo id := fun i used same => by
    have less := smaller i used
    rw [same] at less
    exact BitVec.lt_irrefl _ less
  rw [threadListFind_of_missing s missing, last]
  split
  · rename_i misplaced
    have below := place_lt_of_misplaces misplaced
    omega
  · rfl

theorem find_right (s : k.Searchable) (place : k.place (threadNo id) < k.threadCount) :
    k.threadListFind id < k.threadCount ∧
      ∀ t, k.findThreadByGlobalId id = some t ↔ ∃ i < k.threadCount, k.threadList i = t ∧ k.cellNo i = threadNo id := by
  have split := place_splits s (threadNo id)
  by_cases found : ∃ j < k.threadCount, k.cellNo j = threadNo id
  · obtain ⟨j, inside, same⟩ := found
    rw [threadListFind_of_listed s inside same, find_of_listed s inside same]
    refine ⟨inside, fun t => ⟨fun here => ⟨j, inside, Option.some.inj here, same⟩, ?_⟩⟩
    rintro ⟨j', inside', rfl, same'⟩
    have once : j' = j := by
      rw [split.eq_only inside (compareCell_eq.mpr same), split.eq_only inside' (compareCell_eq.mpr same')]
    rw [once]
  · have missing : ∀ j < k.threadCount, k.cellNo j ≠ threadNo id := fun j inside same => found ⟨j, inside, same⟩
    have index : k.threadListFind id < k.threadCount := by
      rw [threadListFind_of_missing s missing]
      split <;> omega
    rw [find_none missing index]
    refine ⟨index, fun t => ⟨fun here => (by cases here), ?_⟩⟩
    intro ⟨j, inside, _, same⟩
    exact absurd same (missing j inside)

/-- Looking a thread up reads cells in use only, and answers right, if and only if some thread has a number that is
not smaller: otherwise it goes on to the cell behind the last one in use. -/
theorem findThreadByGlobalId_iff (s : k.Searchable) :
    ((∀ i ∈ k.threadMapFindReads id, i < k.threadCount) ∧
      ∀ t, k.findThreadByGlobalId id = some t ↔ ∃ i < k.threadCount, k.threadList i = t ∧ k.cellNo i = threadNo id) ↔
    ∃ i < k.threadCount, threadNo id ≤ k.cellNo i := by
  have split := place_splits s (threadNo id)
  constructor
  · rintro ⟨inside, -⟩
    by_contra none
    have smaller : ∀ i < k.threadCount, k.cellNo i < threadNo id := by
      intro i used
      exact BitVec.not_le.mp fun le => none ⟨i, used, le⟩
    have ends := threadListFind_behind s smaller
    have read := inside (k.threadListFind id) (by simp [threadMapFindReads])
    omega
  · intro ⟨i, used, le⟩
    have place : k.place (threadNo id) < k.threadCount := by
      have before := (not_congr (split.lt_iff used)).mp fun less => BitVec.not_le.mpr (compareCell_lt.mp less) le
      omega
    have answer := find_right s place
    refine ⟨fun j read => ?_, answer.2⟩
    rcases List.mem_append.mp read with probed | last
    · rw [threadListFindReads_eq] at probed
      exact Theory.probes_lt (by omega) (Nat.le_refl _) j probed
    · rw [List.mem_singleton.mp last]
      exact answer.1

/-- A table with the given slots in its cells, the first `count` of them in use, and the threads of the slots. -/
def ofTable (ids : List Word) (cells : List Nat) (count : Nat) : Kernel :=
  { init SmallSystem.bootInfo with
    tcbs := fun t => { (init SmallSystem.bootInfo).tcbs t with globalId := ids.getD t 0#32 }
    allocated := fun t => decide (t ∈ cells.take count)
    threadCount := count
    threadList := fun i => cells.getD i 0 }

theorem findThreadByGlobalId_iff_present : (ofTable [kernId, idleId] [0, 1] 2).findThreadByGlobalId kernId = some 0 :=
  (((findThreadByGlobalId_iff (k := ofTable [kernId, idleId] [0, 1] 2) (by decide)).mpr ⟨0, by decide⟩).2 0).mpr ⟨0, by decide⟩

/-- A leftover behind the one thread of the table is looked at, and the thread that was deleted is found. -/
theorem findThreadByGlobalId_leftover : (ofTable [kernId, idleId] [0, 1] 1).Searchable ∧
    (ofTable [kernId, idleId] [0, 1] 1).threadMapFindReads idleId = [0, 1] ∧
    (ofTable [kernId, idleId] [0, 1] 1).findThreadByGlobalId idleId = some 1 ∧
    (¬ ∃ i < 1, (ofTable [kernId, idleId] [0, 1] 1).cellNo i = threadNo idleId) ∧
    (ofTable [kernId, idleId] [0, 1] 1).allocated 1 = false := by decide

end BradypOS.Kernel
