import BradypOS.Heap.Insert

/-!
# No call loses an element or leaves the array

The calls of the template with a log of the array positions that they read and write. Nothing here
asks for an order of the elements.
-/

namespace BradypOS.Heap

open Theory Theory.HeapOrder

variable {α : Type} (lt : α → α → Bool)

/-! ### The template with a log -/

def loggedSwimLoop : Nat → (Nat → α) → Nat → List Nat × (Nat → α) × Nat
  | 0, d, idx => ([], d, idx)
  | fuel + 1, d, idx =>
    let parent := (idx - 1) / 2
    if 0 < idx then
      if lt (d idx) (d parent) then
        let rest := loggedSwimLoop fuel (swap d idx parent) parent
        ([idx, parent] ++ rest.1, rest.2)
      else ([idx, parent], d, idx)
    else ([], d, idx)

def loggedSwim (h : Heap α) (idx : Nat) : List Nat × Heap α × Nat :=
  if idx = 0 then ([], h, 0)
  else
    let moved := loggedSwimLoop lt idx h.data idx
    (moved.1, { h with data := moved.2.1 }, moved.2.2)

/-- The comparison with the left child comes where the right one is missing or stays. -/
def loggedSinkLoop : Nat → Nat → (Nat → α) → Nat → List Nat × (Nat → α) × Nat
  | 0, _, d, idx => ([], d, idx)
  | fuel + 1, size, d, idx =>
    if idx ≤ (size - 2) / 2 then
      let leftChild := idx * 2 + 1
      let rightChild := idx * 2 + 2
      let looks := if rightChild < size then [rightChild, idx] else []
      if rightChild < size ∧ lt (d rightChild) (d idx) then
        let rest := loggedSinkLoop fuel size (swap d rightChild idx) rightChild
        (looks ++ rest.1, rest.2)
      else if lt (d leftChild) (d idx) then
        let rest := loggedSinkLoop fuel size (swap d leftChild idx) leftChild
        (looks ++ [leftChild, idx] ++ rest.1, rest.2)
      else (looks ++ [leftChild, idx], d, idx)
    else ([], d, idx)

def loggedSink (h : Heap α) (idx : Nat) : List Nat × Heap α × Nat :=
  if h.size < 2 then ([], h, idx)
  else
    let moved := loggedSinkLoop lt h.size h.size h.data idx
    (moved.1, { h with data := moved.2.1 }, moved.2.2)

def loggedInsert (capacity : Nat) (h : Heap α) (value : α) : List Nat × Heap α × Option Nat :=
  if h.size = capacity then ([], h, none)
  else
    let moved := loggedSwim lt { size := h.size + 1, data := Function.update h.data h.size value } h.size
    (h.size :: moved.1, moved.2.1, some moved.2.2)

def loggedDelete (h : Heap α) (idx : Nat) : List Nat × Heap α :=
  let moved := loggedSink lt (h.fill idx) idx
  ([h.size - 1, idx] ++ moved.1, moved.2.1)

section Log

variable {capacity fuel n idx : Nat} {d : Nat → α} {h : Heap α}

theorem loggedSwimLoop_eq : (loggedSwimLoop lt fuel d idx).2 = swimLoop lt fuel d idx := by
  induction fuel generalizing d idx with
  | zero => rfl
  | succ fuel ih =>
    rw [loggedSwimLoop, swimLoop]
    by_cases inner : 0 < idx
    · by_cases less : lt (d idx) (d ((idx - 1) / 2)) = true
      · rw [if_pos inner, if_pos less, if_pos ⟨inner, less⟩]
        exact ih
      · rw [if_pos inner, if_neg less, if_neg fun both => less both.2]
    · rw [if_neg inner, if_neg fun both => inner both.1]

theorem loggedSwim_eq : (loggedSwim lt h idx).2 = swim lt h idx := by
  unfold loggedSwim swim
  split
  · rfl
  · dsimp only
    rw [loggedSwimLoop_eq]

theorem loggedSinkLoop_eq : (loggedSinkLoop lt fuel n d idx).2 = sinkLoop lt fuel n d idx := by
  induction fuel generalizing d idx with
  | zero => rfl
  | succ fuel ih =>
    rw [loggedSinkLoop, sinkLoop]
    split
    · dsimp only
      split
      · exact ih
      · split
        · exact ih
        · rfl
    · rfl

theorem loggedSink_eq : (loggedSink lt h idx).2 = sink lt h idx := by
  unfold loggedSink sink
  split
  · rfl
  · dsimp only
    rw [loggedSinkLoop_eq]

theorem loggedInsert_eq {value : α} : (loggedInsert lt capacity h value).2 = insert lt capacity h value := by
  unfold loggedInsert insert
  split
  · rfl
  · dsimp only
    rw [← loggedSwim_eq]

theorem loggedDelete_eq : (loggedDelete lt h idx).2 = delete lt h idx := by
  unfold loggedDelete delete
  rw [← loggedSink_eq]

/-! ### The fuel is never used up -/

theorem loggedSwimLoop_fuel (enough : idx ≤ fuel) : loggedSwimLoop lt (fuel + 1) d idx = loggedSwimLoop lt fuel d idx := by
  induction fuel generalizing d idx with
  | zero =>
    obtain rfl : idx = 0 := by omega
    rfl
  | succ fuel ih =>
    have up : ∀ d, loggedSwimLoop lt (fuel + 1) d ((idx - 1) / 2) = loggedSwimLoop lt fuel d ((idx - 1) / 2) :=
      fun d => ih (by omega)
    rw [loggedSwimLoop, up]
    rfl

theorem loggedSinkLoop_fuel (hn : 2 ≤ n) (enough : n ≤ idx + fuel) :
    loggedSinkLoop lt (fuel + 1) n d idx = loggedSinkLoop lt fuel n d idx := by
  induction fuel generalizing d idx with
  | zero =>
    have outside : ¬ idx ≤ (n - 2) / 2 := by omega
    simp only [loggedSinkLoop, if_neg outside]
  | succ fuel ih =>
    have right : ∀ d, loggedSinkLoop lt (fuel + 1) n d (idx * 2 + 2) = loggedSinkLoop lt fuel n d (idx * 2 + 2) :=
      fun d => ih (by omega)
    have left : ∀ d, loggedSinkLoop lt (fuel + 1) n d (idx * 2 + 1) = loggedSinkLoop lt fuel n d (idx * 2 + 1) :=
      fun d => ih (by omega)
    rw [loggedSinkLoop]
    dsimp only
    rw [right, left]
    rfl

/-! ### Where the log stays -/

theorem loggedSwimLoop_inside (hi : idx < n) : ∀ i ∈ (loggedSwimLoop lt fuel d idx).1, i < n := by
  induction fuel generalizing d idx with
  | zero => simp [loggedSwimLoop]
  | succ fuel ih =>
    have hp : (idx - 1) / 2 < n := by omega
    have pair : ∀ i ∈ [idx, (idx - 1) / 2], i < n := by
      intro i member
      rcases List.mem_pair.mp member with rfl | rfl
      · exact hi
      · exact hp
    rw [loggedSwimLoop]
    dsimp only
    split
    · split
      · exact List.forall_mem_append.mpr ⟨pair, ih hp⟩
      · exact pair
    · simp

theorem loggedSwim_inside (hi : idx < n) : ∀ i ∈ (loggedSwim lt h idx).1, i < n := by
  unfold loggedSwim
  split
  · simp
  · exact loggedSwimLoop_inside lt hi

theorem loggedSinkLoop_inside (hn : 2 ≤ n) : ∀ i ∈ (loggedSinkLoop lt fuel n d idx).1, i < n := by
  induction fuel generalizing d idx with
  | zero => simp [loggedSinkLoop]
  | succ fuel ih =>
    rw [loggedSinkLoop]
    dsimp only
    split
    · rename_i inner
      have looks : ∀ i ∈ (if idx * 2 + 2 < n then [idx * 2 + 2, idx] else []), i < n := by
        intro i member
        split at member
        · rcases List.mem_pair.mp member with rfl | rfl
          · assumption
          · omega
        · cases member
      have left : ∀ i ∈ [idx * 2 + 1, idx], i < n := by
        intro i member
        rcases List.mem_pair.mp member with rfl | rfl
        · omega
        · omega
      split
      · exact List.forall_mem_append.mpr ⟨looks, ih⟩
      · split
        · exact List.forall_mem_append.mpr ⟨List.forall_mem_append.mpr ⟨looks, left⟩, ih⟩
        · exact List.forall_mem_append.mpr ⟨looks, left⟩
    · simp

theorem loggedSink_inside : ∀ i ∈ (loggedSink lt h idx).1, i < h.size := by
  unfold loggedSink
  split
  · simp
  · exact loggedSinkLoop_inside lt (by omega)

theorem loggedInsert_inside (fits : h.size ≤ capacity) (value : α) : ∀ i ∈ (loggedInsert lt capacity h value).1, i < capacity := by
  unfold loggedInsert
  split
  · simp
  · have room : h.size < capacity := by omega
    exact List.forall_mem_cons.mpr ⟨room, loggedSwim_inside lt room⟩

theorem loggedDelete_inside (hi : idx < h.size) : ∀ i ∈ (loggedDelete lt h idx).1, i < h.size := by
  unfold loggedDelete
  refine List.forall_mem_append.mpr ⟨fun i member => ?_, fun i member => ?_⟩
  · rcases List.mem_pair.mp member with rfl | rfl
    · omega
    · exact hi
  · have inside := loggedSink_inside lt i member
    have size : (h.fill idx).size = h.size - 1 := rfl
    omega

end Log

/-! ### Runs of calls -/

inductive Call (α : Type) where
  | insert (value : α)
  | pop
  | delete (idx : Nat)
  | sink (idx : Nat)
  | swim (idx : Nat)

namespace Call

variable {lt} (capacity : Nat) (h : Heap α)

/-- A call may be made: `pop` needs an element, the others need their index in the heap. -/
def Valid : Call α → Prop
  | insert _ => True
  | pop => 0 < h.size
  | delete idx | sink idx | swim idx => idx < h.size

instance : (c : Call α) → Decidable (c.Valid h)
  | insert _ => inferInstanceAs (Decidable True)
  | pop => inferInstanceAs (Decidable (0 < h.size))
  | delete _ | sink _ | swim _ => inferInstanceAs (Decidable (_ < _))

variable (lt)

def logged : Call α → List Nat × Heap α
  | insert value => ((loggedInsert lt capacity h value).1, (loggedInsert lt capacity h value).2.1)
  | pop => loggedDelete lt h 0
  | delete idx => loggedDelete lt h idx
  | sink idx => ((loggedSink lt h idx).1, (loggedSink lt h idx).2.1)
  | swim idx => ((loggedSwim lt h idx).1, (loggedSwim lt h idx).2.1)

def apply : Call α → Heap α
  | insert value => (Heap.insert lt capacity h value).1
  | pop => Heap.pop lt h
  | delete idx => Heap.delete lt h idx
  | sink idx => (Heap.sink lt h idx).1
  | swim idx => (Heap.swim lt h idx).1

theorem logged_eq (c : Call α) : (c.logged lt capacity h).2 = c.apply lt capacity h := by
  cases c with
  | insert value => exact congrArg Prod.fst (loggedInsert_eq lt)
  | pop => exact loggedDelete_eq lt
  | delete idx => exact loggedDelete_eq lt
  | sink idx => exact congrArg Prod.fst (loggedSink_eq lt)
  | swim idx => exact congrArg Prod.fst (loggedSwim_eq lt)

end Call

/-- How a call changes the elements. An insertion into a full heap changes nothing. -/
def Conserved (capacity : Nat) (h : Heap α) (c : Call α) (h' : Heap α) : Prop :=
  match c with
  | .insert value => if h.size = capacity then h' = h else h'.toList.Perm (value :: h.toList)
  | .pop => Removed h 0 h'
  | .delete idx => Removed h idx h'
  | .sink _ | .swim _ => h'.toList.Perm h.toList

def CallStep (capacity : Nat) (h : Heap α) (c : Call α) (h' : Heap α) : Prop := c.Valid h ∧ h' = c.apply lt capacity h

variable {lt} {capacity : Nat} {h h' : Heap α} {c : Call α}

theorem call_conserved (valid : c.Valid h) : Conserved capacity h c (c.apply lt capacity h) := by
  cases c with
  | insert value =>
    unfold Conserved Call.apply
    dsimp only
    split
    · rename_i full
      rw [insert_full lt full]
    · rename_i room
      exact insert_perm lt room value
  | pop => exact pop_perm lt h valid
  | delete idx => exact delete_perm lt h valid
  | sink idx => exact sink_perm lt h valid
  | swim idx => exact swim_perm lt h valid

theorem call_inside (fits : h.size ≤ capacity) (valid : c.Valid h) : ∀ i ∈ (c.logged lt capacity h).1, i < capacity := by
  intro i member
  cases c with
  | insert value => exact loggedInsert_inside lt fits value i member
  | pop => exact Nat.lt_of_lt_of_le (loggedDelete_inside lt valid i member) fits
  | delete idx => exact Nat.lt_of_lt_of_le (loggedDelete_inside lt valid i member) fits
  | sink idx => exact Nat.lt_of_lt_of_le (loggedSink_inside lt i member) fits
  | swim idx => exact Nat.lt_of_lt_of_le (loggedSwim_inside lt valid i member) fits

theorem call_fits (fits : h.size ≤ capacity) : (c.apply lt capacity h).size ≤ capacity := by
  cases c with
  | insert value =>
    by_cases full : h.size = capacity
    · rw [Call.apply, insert_full lt full]
      exact fits
    · rw [Call.apply, insert_size lt full]
      omega
  | pop => rw [Call.apply, pop_size]; omega
  | delete idx => rw [Call.apply, delete_size]; omega
  | sink idx => rw [Call.apply, sink_size]; exact fits
  | swim idx => rw [Call.apply, swim_size]; exact fits

/-- After any run of calls, the next call changes the elements as its name says and stays inside the array. -/
theorem calls_conserve {h₀ : Heap α} {calls : List (Call α)} (fits : h₀.size ≤ capacity)
    (run : Run (CallStep lt capacity) h₀ calls h) (step : CallStep lt capacity h c h') :
    Conserved capacity h c h' ∧ (c.logged lt capacity h).2 = h' ∧ ∀ i ∈ (c.logged lt capacity h).1, i < capacity := by
  have within : h.size ≤ capacity := by
    refine run.invariant (I := fun h => h.size ≤ capacity) (fun h c h' step before => ?_) fits
    obtain ⟨_, rfl⟩ := step
    exact call_fits before
  obtain ⟨valid, rfl⟩ := step
  exact ⟨call_conserved valid, Call.logged_eq lt capacity h c, call_inside within valid⟩

/-- Three elements in no order, of which the middle one is sunk, the first deleted and another inserted. -/
theorem calls_conserve_mixed : ∃ h, Run (CallStep Nat.blt 3) (ofList [3, 1, 2]) [.sink 1, .delete 0, .insert 0] h ∧
    Removed h 0 (pop Nat.blt h) := by
  have run : Run (CallStep Nat.blt 3) (ofList [3, 1, 2]) [.sink 1, .delete 0, .insert 0] _ :=
    .cons ⟨by decide, rfl⟩ (.cons ⟨by decide, rfl⟩ (.cons ⟨by decide, rfl⟩ (.nil _)))
  exact ⟨_, run, (calls_conserve (c := .pop) (by decide) run ⟨by decide, rfl⟩).1⟩

end BradypOS.Heap
