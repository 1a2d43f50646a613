import BradypOS.Ipc.Runs
import BradypOS.Thread.Search

/-!
# Threads that come and go in the table

A new thread is put where the search ends, so the table stays ascending where that is its place.
A deleted thread is squeezed out by counting the slots behind it up, so the right slots are left
where they are numbered one after the other.
-/

namespace BradypOS.Kernel

open L4

variable {k k' : Kernel} {id no : Word} {i j t p : Nat}

/-! ### A new thread -/

theorem shiftUp_apply (list : Nat → Nat) (value i n j : Nat) :
    shiftUp list value i n j = if j < i ∨ i + n ≤ j then list j else if j = i then value else list (j - 1) := by
  induction n generalizing list value i with
  | zero => rw [shiftUp, if_pos (by omega)]
  | succ n ih =>
    rw [shiftUp, ih]
    by_cases before : j < i ∨ i + (n + 1) ≤ j
    · rw [if_pos (by omega), if_pos before, Function.update_of_ne (by omega)]
    · rw [if_neg before]
      by_cases here : j = i
      · rw [if_pos (by omega), if_pos here, here, Function.update_self]
      · rw [if_neg (by omega), if_neg here]
        by_cases next : j = i + 1
        · rw [if_pos next, next]
          rfl
        · rw [if_neg next, Function.update_of_ne (by omega)]

/-- The kernel in which `create_thread` looks for the place of the new thread. -/
def taken (k : Kernel) (t : Nat) (id : Word) : Kernel := (k.takeTcb t).setTcb t (freshTcb id)

theorem taken_cellNo (s : k.Searchable) (free : k.allocated t = false) (inside : i < k.threadCount) :
    (k.taken t id).cellNo i = k.cellNo i := by
  have other : k.threadList i ≠ t := by
    intro same
    have live := (s.slot i inside).2
    rw [same, free] at live
    cases live
  show threadNo ((k.taken t id).tcbs (k.threadList i)).globalId = _
  unfold taken
  rw [setTcb_other _ _ _ _ other]
  rfl

theorem taken_searchable (s : k.Searchable) (free : k.allocated t = false) : (k.taken t id).Searchable where
  ascending i j before inside := by
    rw [taken_cellNo s free (Nat.lt_trans before inside), taken_cellNo s free inside]
    exact s.ascending i j before inside
  slot i inside := by
    obtain ⟨slot, live⟩ := s.slot i inside
    refine ⟨slot, ?_⟩
    show Function.update k.allocated t true (k.threadList i) = true
    rw [Function.update_apply]
    split
    · rfl
    · exact live
  room := s.room

theorem taken_place (s : k.Searchable) (free : k.allocated t = false) : (k.taken t id).place no = k.place no := by
  unfold place
  have same : ∀ i ∈ List.range k.threadCount, (!decide ((k.taken t id).cellNo i < no)) = !decide (k.cellNo i < no) := by
    intro i member
    rw [taken_cellNo s free (List.mem_range.mp member)]
  show ((List.range k.threadCount).find? _).getD k.threadCount = _
  rw [List.find?_congr same]

def insertion (k : Kernel) (no : Word) : Nat := if k.misplaces no then k.place no - 1 else k.place no

/-- The kernel after a thread was put into a cell of the table. -/
def added (k : Kernel) (t : Nat) (id : Word) (cell : Nat) : Kernel :=
  ((k.taken t id).setTable (k.threadCount + 1) (shiftUp k.threadList t cell (k.threadCount + 1 - cell))).log (.created t)

theorem createThread_eq (s : k.Searchable) (room : k.threadCount < maxThreads) (missing : ∀ i < k.threadCount, k.cellNo i ≠ threadNo id)
    (valid : version id ≠ 0#32) (free : k.allocateTcb = some t) :
    k.createThread id = .ok (some t, k.added t id (k.insertion (threadNo id))) := by
  have slot := (allocateTcb_spec free).2
  have s' : (k.taken t id).Searchable := taken_searchable s slot
  have missing' : ∀ i < (k.taken t id).threadCount, (k.taken t id).cellNo i ≠ threadNo id := by
    intro i inside
    rw [taken_cellNo s slot inside]
    exact missing i inside
  have found : (k.taken t id).threadListFind id = k.insertion (threadNo id) := by
    rw [threadListFind_of_missing s' missing']
    unfold insertion misplaces
    rw [taken_place s slot]
    rfl
  have absent : kassert ((k.taken t id).threadCount ≤ k.insertion (threadNo id) ||
      ((k.taken t id).tcbs ((k.taken t id).threadList (k.insertion (threadNo id)))).globalId ≠ id) .threadAlreadyPresent = .ok () := by
    apply kassert_of
    rw [Bool.or_eq_true, decide_eq_true_eq, decide_eq_true_eq]
    by_cases inside : k.insertion (threadNo id) < k.threadCount
    · exact .inr fun same => missing' _ inside (congrArg threadNo same)
    · exact .inl (Nat.le_of_not_lt inside)
  have asserted : kassert (version id ≠ 0#32) .zeroVersion = .ok () := kassert_of (decide_eq_true valid)
  have inserted : (k.taken t id).threadListInsert t id =
      .ok ((k.taken t id).setTable (k.threadCount + 1) (shiftUp k.threadList t (k.insertion (threadNo id))
        (k.threadCount + 1 - k.insertion (threadNo id)))) := by
    unfold threadListInsert
    dsimp only
    rw [found, absent]
    rfl
  unfold createThread
  rw [asserted]
  show (if k.threadCount = maxThreads then _ else _) = _
  rw [if_neg (Nat.ne_of_lt room), free]
  show ((k.taken t id).threadListInsert t id >>= fun k => _) = _
  rw [inserted]
  rfl

/-- The table with one more thread: still ascending, the old slots and the new one, which was free. -/
structure Added (k : Kernel) (t : Nat) (id : Word) (k' : Kernel) : Prop where
  searchable : k'.Searchable
  listed : ∀ u, k'.Listed u ↔ u = t ∨ k.Listed u
  globalId : (k'.tcbs t).globalId = id
  kept : ∀ u, u ≠ t → k'.tcbs u = k.tcbs u
  free : k.allocated t = false
  allocated : k'.allocated = Function.update k.allocated t true

theorem added_threadList (cell j : Nat) (inside : cell ≤ k.threadCount) (used : j < k.threadCount + 1) :
    (k.added t id cell).threadList j = if j < cell then k.threadList j else if j = cell then t else k.threadList (j - 1) := by
  show shiftUp k.threadList t cell (k.threadCount + 1 - cell) j = _
  rw [shiftUp_apply]
  by_cases before : j < cell
  · rw [if_pos (.inl before), if_pos before]
  · rw [if_neg (by omega), if_neg before]

theorem added_cellNo (s : k.Searchable) (free : k.allocated t = false) (cell j : Nat) (inside : cell ≤ k.threadCount)
    (used : j < k.threadCount + 1) :
    (k.added t id cell).cellNo j = if j < cell then k.cellNo j else if j = cell then threadNo id else k.cellNo (j - 1) := by
  show threadNo ((k.taken t id).tcbs ((k.added t id cell).threadList j)).globalId = _
  rw [added_threadList cell j inside used]
  split
  · exact taken_cellNo s free (by omega)
  · split
    · unfold taken
      rw [setTcb_same]
      rfl
    · exact taken_cellNo s free (by omega)

theorem added_listed (cell : Nat) (inside : cell ≤ k.threadCount) (u : Nat) :
    (k.added t id cell).Listed u ↔ u = t ∨ k.Listed u := by
  constructor
  · rintro ⟨j, used, rfl⟩
    rw [added_threadList cell j inside used]
    have used : j < k.threadCount + 1 := used
    split
    · exact .inr ⟨j, by omega, rfl⟩
    · split
      · exact .inl rfl
      · exact .inr ⟨j - 1, by omega, rfl⟩
  · rintro (rfl | ⟨j, used, rfl⟩)
    · refine ⟨cell, Nat.lt_succ_of_le inside, ?_⟩
      rw [added_threadList cell cell inside (Nat.lt_succ_of_le inside), if_neg (Nat.lt_irrefl _), if_pos rfl]
    · by_cases before : j < cell
      · refine ⟨j, Nat.lt_succ_of_lt used, ?_⟩
        rw [added_threadList cell j inside (Nat.lt_succ_of_lt used), if_pos before]
      · refine ⟨j + 1, Nat.succ_lt_succ used, ?_⟩
        rw [added_threadList cell (j + 1) inside (Nat.succ_lt_succ used), if_neg (by omega), if_neg (by omega)]
        rfl

theorem added_place (s : k.Searchable) (room : k.threadCount < maxThreads) (missing : ∀ i < k.threadCount, k.cellNo i ≠ threadNo id)
    (slot : t < maxThreads) (free : k.allocated t = false) : Added k t id (k.added t id (k.place (threadNo id))) := by
  have split := place_splits s (threadNo id)
  have below : ∀ i < k.place (threadNo id), k.cellNo i < threadNo id := fun i before => compareCell_lt.mp (split.before i before)
  have above : ∀ i, k.place (threadNo id) ≤ i → i < k.threadCount → threadNo id < k.cellNo i := by
    intro i behind inside
    cases order : k.compareCell (threadNo id) i with
    | eq => exact absurd (compareCell_eq.mp order) (missing i inside)
    | lt =>
      have before := (split.lt_iff inside).mp order
      omega
    | gt => exact compareCell_gt.mp order
  refine ⟨⟨fun i j before used => ?_, fun j used => ?_, room⟩, added_listed _ split.le, ?_, fun u other => ?_, free, rfl⟩
  · have used : j < k.threadCount + 1 := used
    have le := split.le
    have cell : ∀ i < k.threadCount + 1, (k.added t id (k.place (threadNo id))).cellNo i =
        if i < k.place (threadNo id) then k.cellNo i else if i = k.place (threadNo id) then threadNo id else k.cellNo (i - 1) :=
      fun i => added_cellNo s free _ i split.le
    rcases Nat.lt_trichotomy i (k.place (threadNo id)) with front | here | back
    · have left := cell i (by omega)
      rw [if_pos front] at left
      rw [left, cell j used]
      split
      · exact s.ascending i j before (by omega)
      · split
        · exact below i front
        · exact s.ascending i (j - 1) (by omega) (by omega)
    · have left := cell i (by omega)
      have right := cell j used
      rw [if_neg (by omega), if_pos here] at left
      rw [if_neg (by omega), if_neg (by omega)] at right
      rw [left, right]
      exact above (j - 1) (by omega) (by omega)
    · have left := cell i (by omega)
      have right := cell j used
      rw [if_neg (by omega), if_neg (by omega)] at left right
      rw [left, right]
      exact s.ascending (i - 1) (j - 1) (by omega) (by omega)
  · rcases (added_listed _ split.le _).mp ⟨j, used, rfl⟩ with here | ⟨i, inside, same⟩
    · rw [here]
      exact ⟨slot, Function.update_self ..⟩
    · obtain ⟨slot, live⟩ := s.slot i inside
      rw [← same]
      refine ⟨slot, ?_⟩
      show Function.update k.allocated t true (k.threadList i) = true
      rw [Function.update_apply]
      split
      · rfl
      · exact live
  · show ((k.taken t id).tcbs t).globalId = id
    unfold taken
    rw [setTcb_same]
    rfl
  · show (k.taken t id).tcbs u = k.tcbs u
    unfold taken
    rw [setTcb_other _ _ _ _ other]
    rfl

theorem added_misplaced (s : k.Searchable) (free : k.allocated t = false) (misplaced : k.misplaces (threadNo id) = true) :
    ¬ (k.added t id (k.place (threadNo id) - 1)).Searchable := by
  intro s'
  have split := place_splits s (threadNo id)
  have pos : 0 < k.place (threadNo id) := Theory.undershoots_pos misplaced
  have le := split.le
  have order := s'.ascending (k.place (threadNo id) - 1) (k.place (threadNo id)) (by omega) (Nat.lt_succ_of_le le)
  rw [added_cellNo s free _ _ (by omega) (by omega), added_cellNo s free _ _ (by omega) (by omega), if_neg (Nat.lt_irrefl _),
    if_pos rfl, if_neg (by omega), if_neg (by omega)] at order
  have before := compareCell_lt.mp (split.before (k.place (threadNo id) - 1) (by omega))
  exact BitVec.not_le.mpr order (BitVec.le_of_lt before)

theorem allocateTcb_of_free (slots : ∃ t < maxThreads, k.allocated t = false) : ∃ t, k.allocateTcb = some t := by
  obtain ⟨u, slot, free⟩ := slots
  cases found : k.allocateTcb with
  | none =>
    have used := List.find?_eq_none.mp found u (List.mem_range.mpr slot)
    simp [free] at used
  | some t => exact ⟨t, rfl⟩

/-- A thread that was created is the one in the free slot, in the cell that the search ends at. -/
theorem createThread_added (s : k.Searchable) (room : k.threadCount < maxThreads)
    (missing : ∀ i < k.threadCount, k.cellNo i ≠ threadNo id) (created : k.createThread id = .ok (some t, k')) :
    version id ≠ 0#32 ∧ k.allocateTcb = some t ∧ k' = k.added t id (k.insertion (threadNo id)) := by
  have valid : version id ≠ 0#32 := by
    unfold createThread at created
    obtain ⟨_, asserted, -⟩ := bind_ok created
    exact of_decide_eq_true (kassert_ok asserted)
  rcases createThread_spec created with ⟨none, _⟩ | ⟨t', list, same, free, _, _⟩
  · cases none
  · cases same
    rw [createThread_eq s room missing valid free] at created
    cases created
    exact ⟨valid, free, rfl⟩

/-- A thread with a new number is added to the table as it should be if and only if its version is not 0, a slot is free and
the search does not end one cell before the number's place. -/
theorem createThread_iff (s : k.Searchable) (room : k.threadCount < maxThreads)
    (missing : ∀ i < k.threadCount, k.cellNo i ≠ threadNo id) :
    (∃ t k', k.createThread id = .ok (some t, k') ∧ Added k t id k') ↔
      version id ≠ 0#32 ∧ (∃ t < maxThreads, k.allocated t = false) ∧ k.misplaces (threadNo id) = false := by
  constructor
  · intro ⟨t, k', created, a⟩
    obtain ⟨valid, found, rfl⟩ := createThread_added s room missing created
    refine ⟨valid, ⟨t, (allocateTcb_spec found).1, a.free⟩, ?_⟩
    by_contra misplaced
    have misplaced : k.misplaces (threadNo id) = true := by simpa using misplaced
    have wrong := added_misplaced s a.free misplaced
    unfold insertion at a
    rw [if_pos misplaced] at a
    exact wrong a.searchable
  · intro ⟨valid, slots, placed⟩
    obtain ⟨t, found⟩ := allocateTcb_of_free slots
    obtain ⟨slot, free⟩ := allocateTcb_spec found
    refine ⟨t, _, createThread_eq s room missing valid found, ?_⟩
    have here : k.insertion (threadNo id) = k.place (threadNo id) := by
      unfold insertion
      rw [if_neg (by simp [placed])]
    rw [here]
    exact added_place s room missing slot free

theorem createThread_iff_root : ∃ t k', (ofTable [kernId, idleId] [0, 1] 2).createThread rootId = .ok (some t, k') ∧
    Added (ofTable [kernId, idleId] [0, 1] 2) t rootId k' :=
  (createThread_iff (by decide) (by decide) (by decide)).mpr ⟨by decide, ⟨2, by decide⟩, by decide⟩

/-- The threads 0x41 and 0x43 beside the three of the system. -/
def fiveThreads : Kernel := ofTable [kernId, idleId, rootId, globalId 0x41#32 1#32, globalId 0x43#32 1#32] [0, 1, 2, 3, 4] 5

/-- Thread 0x42 is put before thread 0x41. -/
theorem createThread_misplaces : fiveThreads.Searchable ∧ (∀ i < 5, fiveThreads.cellNo i ≠ 0x42#32) ∧
    ∃ k', fiveThreads.createThread (globalId 0x42#32 1#32) = .ok (some 5, k') ∧ k'.threadCount = 6 ∧
      (List.range 6).map k'.cellNo = [0x30#32, 0x31#32, 0x40#32, 0x42#32, 0x41#32, 0x43#32] ∧ ¬ k'.Searchable :=
  ⟨by decide, by decide, _, rfl, rfl, by decide, by decide⟩

/-! ### A deleted thread -/

theorem bumpFrom_apply (list : Nat → Nat) (i n j : Nat) :
    bumpFrom list i n j = if i ≤ j ∧ j < i + n then (list j + 1) % 256 else list j := by
  induction n generalizing list i with
  | zero => rw [bumpFrom, if_neg (by omega)]
  | succ n ih =>
    rw [bumpFrom, ih]
    by_cases here : j = i
    · rw [if_neg (by omega), if_pos (by omega), here, Function.update_self]
    · rw [Function.update_of_ne here]
      by_cases behind : i ≤ j ∧ j < i + (n + 1)
      · rw [if_pos (by omega), if_pos behind]
      · rw [if_neg (by omega), if_neg behind]

/-- The cells that are left when a cell is squeezed out. -/
def cellWithout (cell i : Nat) : Nat := if i < cell then i else i + 1

theorem cellWithout_ne (cell i : Nat) : cellWithout cell i ≠ cell := by
  unfold cellWithout
  split <;> omega

theorem cellWithout_lt {cell n : Nat} (inside : cell < n) (below : i < n - 1) : cellWithout cell i < n := by
  unfold cellWithout
  split <;> omega

theorem cellWithout_mono (cell : Nat) (before : i < j) : cellWithout cell i < cellWithout cell j := by
  unfold cellWithout
  split <;> split <;> omega

theorem cellWithout_onto {cell n : Nat} (inside : cell < n) (below : i < n) (other : i ≠ cell) :
    ∃ j < n - 1, cellWithout cell j = i := by
  unfold cellWithout
  by_cases before : i < cell
  · exact ⟨i, by omega, if_pos before⟩
  · refine ⟨i - 1, by omega, ?_⟩
    rw [if_neg (by omega)]
    omega

/-- The table with one thread less: still ascending, and the other slots as they were. -/
structure Removed (k : Kernel) (t : Nat) (k' : Kernel) : Prop where
  searchable : k'.Searchable
  count : k'.threadCount + 1 = k.threadCount
  listed : ∀ u, k'.Listed u ↔ k.Listed u ∧ u ≠ t
  allocated : k'.allocated = Function.update k.allocated t false

theorem deleteThread_table (s : k.Searchable) (inside : p < k.threadCount) :
    ∃ k', k.deleteThread (k.threadList p) = .ok k' ∧ k'.threadCount = k.threadCount - 1 ∧
      (∀ j < k.threadCount - 1, k'.threadList j = if j < p then k.threadList j else k.threadList j + 1) ∧
      (∀ t, (k'.tcbs t).globalId = (k.tcbs t).globalId) ∧
      k'.allocated = Function.update k.allocated (k.threadList p) false := by
  obtain ⟨schedule, unscheduled⟩ := k.unschedule_frame (k.threadList p)
  have found : k.threadListFind (k.tcbs (k.threadList p)).globalId = p := threadListFind_of_listed s inside rfl
  have removed : (k.setSchedule schedule).threadListDelete (k.tcbs (k.threadList p)).globalId =
      .ok ((k.setSchedule schedule).setTable (k.threadCount - 1) (bumpFrom k.threadList p (k.threadCount - 1 - p))) := by
    have same : (k.setSchedule schedule).threadListFind (k.tcbs (k.threadList p)).globalId = p := by
      have table : SameTable k (k.setSchedule schedule) := ⟨rfl, rfl, fun _ => rfl⟩
      unfold threadListFind at found ⊢
      rw [table.loop]
      exact found
    have positive : kassert (0 < (k.setSchedule schedule).threadCount) .illegalThreadCount = .ok () :=
      kassert_of (decide_eq_true (Nat.zero_lt_of_lt inside))
    unfold threadListDelete
    dsimp only
    rw [positive, same]
    rfl
  have deleted : k.deleteThread (k.threadList p) =
      .ok (((((k.setSchedule schedule).setTable (k.threadCount - 1) (bumpFrom k.threadList p (k.threadCount - 1 - p))).unlinkSiblings
        (k.threadList p)).freeTcb (k.threadList p)).log (.deleted (k.threadList p))) := by
    unfold deleteThread
    dsimp only
    rw [unscheduled]
    show ((k.setSchedule schedule).threadListDelete (k.tcbs (k.threadList p)).globalId >>= fun k => _) = _
    rw [removed]
    rfl
  obtain ⟨tcbs, unlinked, links⟩ := ((k.setSchedule schedule).setTable (k.threadCount - 1)
    (bumpFrom k.threadList p (k.threadCount - 1 - p))).unlinkSiblings_frame (k.threadList p)
  rw [unlinked] at deleted
  refine ⟨_, deleted, rfl, fun j used => ?_, fun t => ?_, rfl⟩
  · show bumpFrom k.threadList p (k.threadCount - 1 - p) j = _
    rw [bumpFrom_apply]
    by_cases before : j < p
    · rw [if_neg (by omega), if_pos before]
    · have slot := (s.slot j (by omega)).1
      unfold maxThreads at slot
      rw [if_pos (by omega), if_neg before]
      omega
  · obtain ⟨_, _, same⟩ := links t
    show (tcbs t).globalId = _
    rw [same]
    rfl

theorem Searchable.threadList_ne (s : k.Searchable) (below : i < k.threadCount) (inside : p < k.threadCount) (other : i ≠ p) :
    k.threadList i ≠ k.threadList p := by
  intro same
  apply other
  apply s.cellNo_inj below inside
  unfold cellNo
  rw [same]

section Squeezed

variable (s : k.Searchable) (inside : p < k.threadCount) (count : k'.threadCount = k.threadCount - 1)
  (ids : ∀ t, (k'.tcbs t).globalId = (k.tcbs t).globalId)

include ids in
theorem cellNo_of_same (same : k'.threadList j = k.threadList i) : k'.cellNo j = k.cellNo i := by
  unfold cellNo
  rw [same, ids]

include s inside count ids

/-- In an ascending table of the same threads, each thread is where the one left out makes room for it. -/
theorem Removed.cells (r : Removed k (k.threadList p) k') (used : i < k.threadCount - 1) :
    k'.threadList i = k.threadList (cellWithout p i) := by
  have listed : ∀ j < k.threadCount - 1, ∃ i < k.threadCount, k.threadList i = k'.threadList j ∧ i ≠ p := by
    intro j used
    obtain ⟨⟨i, inside, same⟩, other⟩ := (r.listed _).mp ⟨j, by omega, rfl⟩
    exact ⟨i, inside, same, fun here => other (by rw [← same, here])⟩
  have numbers := Theory.ascending_unique (n := k.threadCount - 1) (f := fun j => (k'.cellNo j).toNat)
    (g := fun j => (k.cellNo (cellWithout p j)).toNat)
    (fun i j before used => r.searchable.ascending i j before (by omega))
    (fun i j before used => s.ascending _ _ (cellWithout_mono p before) (cellWithout_lt inside used))
    (fun x => by
      constructor
      · rintro ⟨j, used, rfl⟩
        obtain ⟨i, inside', same, other⟩ := listed j used
        obtain ⟨j', used', here⟩ := cellWithout_onto inside inside' other
        refine ⟨j', used', ?_⟩
        rw [here, cellNo_of_same ids same.symm]
      · rintro ⟨j, used, rfl⟩
        have below := cellWithout_lt inside used
        obtain ⟨j', used', same⟩ := (r.listed _).mpr ⟨⟨_, below, rfl⟩, s.threadList_ne below inside (cellWithout_ne p j)⟩
        refine ⟨j', by omega, ?_⟩
        rw [cellNo_of_same ids same])
  obtain ⟨c, inside', same, -⟩ := listed i used
  have equal : k.cellNo c = k.cellNo (cellWithout p i) := by
    rw [← cellNo_of_same ids same.symm]
    exact BitVec.eq_of_toNat_eq (numbers i used)
  rw [← same, s.cellNo_inj inside' (cellWithout_lt inside used) equal]

theorem removed_of_cells (cells : ∀ j < k.threadCount - 1, k'.threadList j = k.threadList (cellWithout p j))
    (allocated : k'.allocated = Function.update k.allocated (k.threadList p) false) : Removed k (k.threadList p) k' := by
  have listed : ∀ u, k'.Listed u ↔ k.Listed u ∧ u ≠ k.threadList p := by
    intro u
    constructor
    · rintro ⟨j, used, rfl⟩
      rw [count] at used
      rw [cells j used]
      have below := cellWithout_lt inside used
      exact ⟨⟨_, below, rfl⟩, s.threadList_ne below inside (cellWithout_ne p j)⟩
    · rintro ⟨⟨i, inside', rfl⟩, other⟩
      obtain ⟨j, used, here⟩ := cellWithout_onto inside inside' fun here => other (by rw [here])
      refine ⟨j, by omega, ?_⟩
      rw [cells j used, here]
  refine ⟨⟨fun i j before used => ?_, fun j used => ?_, ?_⟩, by omega, listed, allocated⟩
  · rw [count] at used
    rw [cellNo_of_same ids (cells i (Nat.lt_trans before used)), cellNo_of_same ids (cells j used)]
    exact s.ascending _ _ (cellWithout_mono p before) (cellWithout_lt inside used)
  · obtain ⟨⟨i, inside', same⟩, other⟩ := (listed _).mp ⟨j, used, rfl⟩
    obtain ⟨slot, live⟩ := s.slot i inside'
    rw [same] at slot live
    refine ⟨slot, ?_⟩
    rw [allocated, Function.update_of_ne other]
    exact live
  · rw [count]
    exact Nat.le_trans (Nat.sub_le _ _) s.room

end Squeezed

/-- A thread is deleted from the table as it should be if and only if the threads behind it are in slots numbered one after
the other, the first of them behind its own. -/
theorem deleteThread_iff (s : k.Searchable) (inside : p < k.threadCount) :
    (∃ k', k.deleteThread (k.threadList p) = .ok k' ∧ Removed k (k.threadList p) k') ↔
      ∀ i, p ≤ i → i + 1 < k.threadCount → k.threadList (i + 1) = k.threadList i + 1 := by
  obtain ⟨k', deleted, count, cells, ids, allocated⟩ := deleteThread_table s inside
  constructor
  · intro ⟨k'', deleted', r⟩ i behind used
    rw [deleted] at deleted'
    cases deleted'
    have below : i < k.threadCount - 1 := by omega
    have left := r.cells s inside count ids below
    rw [cells i below, if_neg (by omega), cellWithout, if_neg (by omega)] at left
    exact left.symm
  · intro consecutive
    refine ⟨k', deleted, removed_of_cells s inside count ids (fun j used => ?_) allocated⟩
    rw [cells j used]
    unfold cellWithout
    split
    · rfl
    · rw [consecutive j (by omega) (by omega)]

theorem deleteThread_iff_root : ∃ k', fiveThreads.deleteThread 2 = .ok k' ∧ Removed fiveThreads 2 k' :=
  (deleteThread_iff (k := fiveThreads) (p := 2) (by decide) (by decide)).mpr (by
    intro i behind used
    have small : i = 2 ∨ i = 3 := by
      have used : i + 1 < 5 := used
      omega
    rcases small with rfl | rfl <;> rfl)

/-- The threads 0x42 and 0x41 in the slots 3 and 4. -/
def swappedSlots : Kernel := ofTable [kernId, idleId, rootId, globalId 0x42#32 1#32, globalId 0x41#32 1#32] [0, 1, 2, 4, 3] 5

/-- Thread 0x41 is deleted, and slot 5, which was never used, takes the place of thread 0x42. -/
theorem deleteThread_bumps : swappedSlots.Searchable ∧ ∃ k', swappedSlots.deleteThread 4 = .ok k' ∧ k'.threadCount = 4 ∧
    (List.range 4).map k'.threadList = [0, 1, 2, 5] ∧ k'.allocated 5 = false ∧ ¬ k'.Searchable :=
  ⟨by decide, _, rfl, rfl, by decide, by decide, by decide⟩

end BradypOS.Kernel
