import BradypOS.Heap.Repair

/-!
# Insertion

`insert` puts the new element behind the last one and swims it up. Only the path from there to the
root is touched.
-/

namespace BradypOS.Heap

open Theory.HeapOrder

variable {α : Type} (lt : α → α → Bool) {h : Heap α}

/-- The loop answers the place of the element that it moved. -/
theorem swimLoop_at (fuel : Nat) (d : Nat → α) (idx : Nat) :
    (swimLoop lt fuel d idx).1 (swimLoop lt fuel d idx).2 = d idx := by
  induction fuel generalizing d idx with
  | zero => rfl
  | succ fuel ih =>
    rw [swimLoop]
    split
    · rw [ih, swap_right]
    · rfl

theorem swimLoop_le (fuel : Nat) (d : Nat → α) (idx : Nat) : (swimLoop lt fuel d idx).2 ≤ idx := by
  induction fuel generalizing d idx with
  | zero => exact Nat.le_refl _
  | succ fuel ih =>
    rw [swimLoop]
    split
    · exact Nat.le_trans (ih _ _) (by omega)
    · exact Nat.le_refl _

theorem swimLoop_frame (fuel : Nat) (d : Nat → α) {idx i : Nat} (off : ¬ OnPath i idx) : (swimLoop lt fuel d idx).1 i = d i := by
  induction fuel generalizing d idx with
  | zero => rfl
  | succ fuel ih =>
    rw [swimLoop]
    split
    · have above : ¬ OnPath i (parent idx) := fun path => off path.of_parent
      have here : i ≠ idx := fun same => off (same ▸ onPath_self i)
      have up : i ≠ parent idx := fun same => above (same ▸ onPath_self i)
      exact (ih _ above).trans (swap_other d here up)
    · rfl

theorem swim_at (h : Heap α) (idx : Nat) : (swim lt h idx).1.data (swim lt h idx).2 = h.data idx := by
  unfold swim
  split
  · rename_i top
    rw [top]
  · exact swimLoop_at lt idx h.data idx

theorem swim_le (h : Heap α) (idx : Nat) : (swim lt h idx).2 ≤ idx := by
  unfold swim
  split
  · exact Nat.zero_le _
  · exact swimLoop_le lt idx h.data idx

theorem swim_frame (h : Heap α) {idx i : Nat} (off : ¬ OnPath i idx) : (swim lt h idx).1.data i = h.data i := by
  unfold swim
  split
  · rfl
  · exact swimLoop_frame lt idx h.data off

/-- What `insert` leaves of a heap with room: the new element at the index that is answered, the old
elements, the order, and everything off the path of the new last position as it was. -/
structure Inserted (h : Heap α) (value : α) (h' : Heap α) (idx : Nat) : Prop where
  inside : idx < h'.size
  here : h'.data idx = value
  elements : h'.toList.Perm (value :: h.toList)
  ordered : Ordered lt h'
  frame : ∀ i, ¬ OnPath i h.size → h'.data i = h.data i

/-- An insertion into an ordered heap; a full heap stays as it is. -/
theorem insert_inserted [IsStrictWeakOrder α (Before lt)] (ordered : Ordered lt h) (capacity : Nat) (value : α) :
    (h.size < capacity →
      ∃ idx, (insert lt capacity h value).2 = some idx ∧ Inserted lt h value (insert lt capacity h value).1 idx) ∧
    (h.size = capacity → insert lt capacity h value = (h, none)) := by
  refine ⟨fun below => ?_, fun full => insert_full lt full value⟩
  have room : h.size ≠ capacity := Nat.ne_of_lt below
  have moved : insert lt capacity h value =
      ((swim lt { size := h.size + 1, data := Function.update h.data h.size value } h.size).1,
        some (swim lt { size := h.size + 1, data := Function.update h.data h.size value } h.size).2) := by
    rw [insert, if_neg room]
  have elements := insert_perm lt room value
  have kept := insert_ordered lt ordered room value
  rw [moved] at elements kept ⊢
  refine ⟨_, rfl, ?_, ?_, elements, kept, fun i off => ?_⟩
  · have := swim_le lt { size := h.size + 1, data := Function.update h.data h.size value } h.size
    rw [swim_size]
    exact Nat.lt_succ_of_le this
  · rw [swim_at]
    exact Function.update_self ..
  · have here : i ≠ h.size := fun same => off (same ▸ onPath_self i)
    exact (swim_frame lt _ off).trans (Function.update_of_ne here _ _)

theorem insert_inserted_least : (∃ idx, (insert Nat.blt 8 (ofList [1, 2, 3]) 0).2 = some idx ∧
      Inserted Nat.blt (ofList [1, 2, 3]) 0 (insert Nat.blt 8 (ofList [1, 2, 3]) 0).1 idx) ∧
    insert Nat.blt 3 (ofList [1, 2, 3]) 0 = (ofList [1, 2, 3], none) :=
  ⟨(insert_inserted Nat.blt (h := ofList [1, 2, 3]) (by decide) 8 0).1 (by decide),
    (insert_inserted Nat.blt (h := ofList [1, 2, 3]) (by decide) 3 0).2 rfl⟩

end BradypOS.Heap
