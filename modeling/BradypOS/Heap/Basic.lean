import BradypOS.Theory.HeapOrder

/-!
# The heap template (`lib/heap/include/heap.inc`)

`HEAP_VALUE_TYPE` is the type variable, `HEAP_COMPARE` the Boolean `lt` and `HEAP_SIZE` the
capacity. The failure value of `insert` is `none`. The loops of `_swim` and `_sink` run on fuel
that their index bounds.
-/

namespace BradypOS

open Theory.HeapOrder

/-- `struct HEAP_PREFIX_type`: `data` beyond `size` holds leftovers. -/
structure Heap (α : Type) where
  size : Nat
  data : Nat → α

namespace Heap

variable {α : Type} (lt : α → α → Bool)

def swimLoop : Nat → (Nat → α) → Nat → (Nat → α) × Nat
  | 0, d, idx => (d, idx)
  | fuel + 1, d, idx =>
    if 0 < idx ∧ lt (d idx) (d ((idx - 1) / 2)) then
      swimLoop fuel (swap d idx ((idx - 1) / 2)) ((idx - 1) / 2)
    else (d, idx)

def swim (h : Heap α) (idx : Nat) : Heap α × Nat :=
  if idx = 0 then (h, 0)
  else
    let moved := swimLoop lt idx h.data idx
    ({ h with data := moved.1 }, moved.2)

/-- The right child is looked at first and alone: the left one only when the right one stays. -/
def sinkLoop : Nat → Nat → (Nat → α) → Nat → (Nat → α) × Nat
  | 0, _, d, idx => (d, idx)
  | fuel + 1, size, d, idx =>
    if idx ≤ (size - 2) / 2 then
      if idx * 2 + 2 < size ∧ lt (d (idx * 2 + 2)) (d idx) then
        sinkLoop fuel size (swap d (idx * 2 + 2) idx) (idx * 2 + 2)
      else if lt (d (idx * 2 + 1)) (d idx) then
        sinkLoop fuel size (swap d (idx * 2 + 1) idx) (idx * 2 + 1)
      else (d, idx)
    else (d, idx)

def sink (h : Heap α) (idx : Nat) : Heap α × Nat :=
  if h.size < 2 then (h, idx)
  else
    let moved := sinkLoop lt h.size h.size h.data idx
    ({ h with data := moved.1 }, moved.2)

def insert (capacity : Nat) (h : Heap α) (value : α) : Heap α × Option Nat :=
  if h.size = capacity then (h, none)
  else
    let moved := swim lt { size := h.size + 1, data := Function.update h.data h.size value } h.size
    (moved.1, some moved.2)

/-- `delete` and `pop` before their sink: the last element over position `idx`. -/
def fill (h : Heap α) (idx : Nat) : Heap α :=
  { size := h.size - 1, data := Function.update h.data idx (h.data (h.size - 1)) }

def delete (h : Heap α) (idx : Nat) : Heap α := (sink lt (h.fill idx) idx).1

def pop (h : Heap α) : Heap α := (sink lt (h.fill 0) 0).1

def empty [Inhabited α] : Heap α := { size := 0, data := fun _ => default }

/-- The elements in the heap, in array order. -/
def toList (h : Heap α) : List α := elements h.data h.size

theorem mem_toList {h : Heap α} {x : α} : x ∈ h.toList ↔ ∃ i < h.size, h.data i = x := mem_elements

@[simp] theorem length_toList (h : Heap α) : h.toList.length = h.size := length_elements _ _

/-! ### What the loops leave: a permutation of the elements -/

theorem swimLoop_perm (fuel : Nat) (d : Nat → α) {n idx : Nat} (hi : idx < n) :
    (elements (swimLoop lt fuel d idx).1 n).Perm (elements d n) := by
  induction fuel generalizing d idx with
  | zero => exact List.Perm.refl _
  | succ fuel ih =>
    rw [swimLoop]
    split
    · have hp : (idx - 1) / 2 < n := by omega
      exact (ih (swap d idx ((idx - 1) / 2)) hp).trans (elements_swap_perm d hi hp)
    · exact List.Perm.refl _

theorem sinkLoop_perm (fuel n : Nat) (d : Nat → α) {idx : Nat} (hn : 2 ≤ n) (hi : idx < n) :
    (elements (sinkLoop lt fuel n d idx).1 n).Perm (elements d n) := by
  induction fuel generalizing d idx with
  | zero => exact List.Perm.refl _
  | succ fuel ih =>
    rw [sinkLoop]
    split
    · rename_i inner
      split
      · rename_i right
        exact (ih _ right.1).trans (elements_swap_perm d right.1 hi)
      · split
        · have hl : idx * 2 + 1 < n := by omega
          exact (ih _ hl).trans (elements_swap_perm d hl hi)
        · exact List.Perm.refl _
    · exact List.Perm.refl _

@[simp] theorem swim_size (h : Heap α) (idx : Nat) : (swim lt h idx).1.size = h.size := by
  unfold swim; split <;> rfl

@[simp] theorem sink_size (h : Heap α) (idx : Nat) : (sink lt h idx).1.size = h.size := by
  unfold sink; split <;> rfl

theorem swim_perm (h : Heap α) {idx : Nat} (hi : idx < h.size) : (swim lt h idx).1.toList.Perm h.toList := by
  unfold swim toList
  split
  · exact List.Perm.refl _
  · exact swimLoop_perm lt idx h.data hi

theorem sink_perm (h : Heap α) {idx : Nat} (hi : idx < h.size) : (sink lt h idx).1.toList.Perm h.toList := by
  unfold sink toList
  split
  · exact List.Perm.refl _
  · exact sinkLoop_perm lt h.size h.size h.data (by omega) hi

theorem sinkLoop_lt {fuel n idx : Nat} {d : Nat → α} (hn : 2 ≤ n) (hi : idx < n) :
    (sinkLoop lt fuel n d idx).2 < n := by
  induction fuel generalizing d idx with
  | zero => exact hi
  | succ fuel ih =>
    rw [sinkLoop]
    split
    · split
      · rename_i right; exact ih right.1
      · split
        · exact ih (by omega)
        · exact hi
    · exact hi

/-- A sink followed by a swim only reorders. -/
theorem sink_swim_perm (h : Heap α) {idx : Nat} (hi : idx < h.size) :
    (swim lt (sink lt h idx).1 (sink lt h idx).2).1.toList.Perm h.toList := by
  have inside : (sink lt h idx).2 < (sink lt h idx).1.size := by
    rw [sink_size]
    unfold sink
    split
    · exact hi
    · exact sinkLoop_lt lt (by omega) hi
  exact (swim_perm lt _ inside).trans (sink_perm lt h hi)

theorem insert_full {capacity : Nat} {h : Heap α} (full : h.size = capacity) (value : α) :
    insert lt capacity h value = (h, none) := by simp [insert, full]

theorem insert_perm {capacity : Nat} {h : Heap α} (room : h.size ≠ capacity) (value : α) :
    (insert lt capacity h value).1.toList.Perm (value :: h.toList) := by
  simp only [insert, room, if_false]
  apply (swim_perm lt _ (Nat.lt_succ_self _)).trans
  have below : elements (Function.update h.data h.size value) h.size = h.toList :=
    elements_congr fun i hi => Function.update_of_ne (by omega) _ _
  simp only [toList, elements_succ, Function.update_self] at below ⊢
  rw [below]
  exact List.perm_append_singleton _ _

theorem insert_size {capacity : Nat} {h : Heap α} (room : h.size ≠ capacity) (value : α) :
    (insert lt capacity h value).1.size = h.size + 1 := by simp [insert, room]

@[simp] theorem delete_size (h : Heap α) (idx : Nat) : (delete lt h idx).size = h.size - 1 := by
  simp [delete, fill]

@[simp] theorem pop_size (h : Heap α) : (pop lt h).size = h.size - 1 := by simp [pop, fill]

theorem fill_perm (h : Heap α) {idx : Nat} (hi : idx < h.size) :
    (h.data idx :: (h.fill idx).toList).Perm h.toList := by
  obtain ⟨n, hn⟩ : ∃ n, h.size = n + 1 := ⟨h.size - 1, by omega⟩
  have := elements_replace_perm h.data (n := n) (i := idx) (by omega)
  simpa only [toList, fill, hn, Nat.add_sub_cancel] using this

theorem delete_perm (h : Heap α) {idx : Nat} (hi : idx < h.size) :
    (h.data idx :: (delete lt h idx).toList).Perm h.toList := by
  refine List.Perm.trans (List.Perm.cons _ ?_) (h.fill_perm hi)
  by_cases inside : idx < (h.fill idx).size
  · exact sink_perm lt _ inside
  · -- The last element went: the sink starts behind the array and moves nothing.
    have hsize : (h.fill idx).size = h.size - 1 := rfl
    have outer : ¬ idx ≤ ((h.fill idx).size - 2) / 2 ∨ (h.fill idx).size < 2 := by omega
    unfold delete sink
    rcases outer with outer | small
    · split
      · exact List.Perm.refl _
      · obtain ⟨n, hn⟩ : ∃ n, (h.fill idx).size = n + 1 := ⟨(h.fill idx).size - 1, by omega⟩
        have stays : sinkLoop lt (h.fill idx).size (h.fill idx).size (h.fill idx).data idx =
            ((h.fill idx).data, idx) := by
          rw [hn, sinkLoop, if_neg (by rw [hn] at outer; exact outer)]
        rw [stays]
    · rw [if_pos small]

theorem pop_perm (h : Heap α) (nonempty : 0 < h.size) : (h.data 0 :: (pop lt h).toList).Perm h.toList :=
  delete_perm lt h nonempty

end Heap
end BradypOS
