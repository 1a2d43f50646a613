import BradypOS.Heap.Law

/-!
# An element that nothing is less than stays at the root

Nothing overtakes such an element on its way up, no sink takes it down, and when it is inserted it
climbs past every element it is less than. The rest of the heap need not be in order.
-/

namespace BradypOS.Heap

open Theory.HeapOrder

variable {α : Type} {lt : α → α → Bool} {m : α}

/-- Whenever the element is in the heap, it is at index 0. -/
def AtRoot (m : α) (h : Heap α) : Prop := m ∈ h.toList → h.data 0 = m

theorem swimLoop_root {fuel idx : Nat} {d : Nat → α} (least : ∀ x, lt x m = false) (root : d 0 = m) :
    (swimLoop lt fuel d idx).1 0 = m := by
  induction fuel generalizing d idx with
  | zero => exact root
  | succ fuel ih =>
    rw [swimLoop]
    split
    · rename_i less
      apply ih
      have inner : (idx - 1) / 2 ≠ 0 := by
        intro top
        rw [top, root, least] at less
        cases less.2
      rw [swap_other d (by omega) (by omega)]
      exact root
    · exact root

theorem swimLoop_climbs {fuel idx : Nat} {d : Nat → α} (enough : idx ≤ fuel) (here : d idx = m)
    (above : ∀ j < idx, lt m (d j) = true) : (swimLoop lt fuel d idx).1 0 = m := by
  induction fuel generalizing d idx with
  | zero =>
    obtain rfl : idx = 0 := by omega
    exact here
  | succ fuel ih =>
    rw [swimLoop]
    by_cases top : idx = 0
    · subst top
      rw [if_neg (by omega)]
      exact here
    · have up : (idx - 1) / 2 < idx := by omega
      rw [if_pos ⟨by omega, by rw [here]; exact above _ up⟩]
      apply ih (by omega)
      · rw [swap_right]
        exact here
      · intro j below
        rw [swap_other d (by omega) (by omega)]
        exact above j (by omega)

theorem swim_root {h : Heap α} (least : ∀ x, lt x m = false) (root : h.data 0 = m) (idx : Nat) :
    (swim lt h idx).1.data 0 = m := by
  unfold swim
  split
  · exact root
  · exact swimLoop_root least root

/-- The root is sunk only past an element that is less. -/
theorem sink_root {h : Heap α} (least : ∀ x, lt x m = false) (root : h.data 0 = m) (idx : Nat) :
    (sink lt h idx).1.data 0 = m := by
  unfold sink
  split
  · exact root
  · show (sinkLoop lt h.size h.size h.data idx).1 0 = m
    by_cases top : idx = 0
    · subst top
      have stays : ¬ SinkMoves lt h.size h.data 0 := by
        intro moves
        rw [SinkMoves, root] at moves
        simp [least] at moves
      rw [sinkLoop_stays lt stays]
      exact root
    · rw [sinkLoop_below lt h.size h.size h.data (by omega)]
      exact root

theorem insert_root {capacity : Nat} {h : Heap α} {value : α} (least : ∀ x, lt x m = false) (root : AtRoot m h)
    (new : value = m → m ∉ h.toList ∧ ∀ x ∈ h.toList, lt m x = true) : AtRoot m (insert lt capacity h value).1 := by
  by_cases full : h.size = capacity
  · rw [insert_full lt full]
    exact root
  · intro member
    simp only [insert, full, if_false]
    by_cases same : value = m
    · obtain ⟨_, above⟩ := new same
      unfold swim
      split
      · rename_i empty
        show Function.update h.data h.size value 0 = m
        rw [empty, Function.update_self]
        exact same
      · refine swimLoop_climbs (Nat.le_refl _) ?_ fun j below => ?_
        · show Function.update h.data h.size value h.size = m
          rw [Function.update_self]
          exact same
        · show lt m (Function.update h.data h.size value j) = true
          rw [Function.update_of_ne (by omega)]
          exact above _ (mem_toList.mpr ⟨j, below, rfl⟩)
    · have before : m ∈ h.toList := by
        rcases List.mem_cons.mp ((insert_perm lt full value).mem_iff.mp member) with here | before
        · exact absurd here.symm same
        · exact before
      obtain ⟨j, below, _⟩ := mem_toList.mp before
      refine swim_root least ?_ _
      show Function.update h.data h.size value 0 = m
      rw [Function.update_of_ne (by omega)]
      exact root before

theorem delete_root {h : Heap α} {idx : Nat} (least : ∀ x, lt x m = false) (root : AtRoot m h)
    (distinct : h.toList.Nodup) (inside : idx < h.size) : AtRoot m (delete lt h idx) := by
  intro member
  have perm := delete_perm lt h inside
  have before : m ∈ h.toList := perm.mem_iff.mp (List.mem_cons_of_mem _ member)
  have top := root before
  -- The element is still there, so another one was taken out.
  have inner : idx ≠ 0 := by
    intro same
    have fresh := (List.nodup_cons.mp (perm.nodup_iff.mpr distinct)).1
    rw [same, top] at fresh
    exact fresh (same ▸ member)
  refine sink_root least ?_ _
  show Function.update h.data idx (h.data (h.size - 1)) 0 = m
  rw [Function.update_of_ne (Ne.symm inner)]
  exact top

theorem sink_swim_root {h : Heap α} {idx : Nat} (least : ∀ x, lt x m = false) (root : AtRoot m h)
    (inside : idx < h.size) : AtRoot m (swim lt (sink lt h idx).1 (sink lt h idx).2).1 := by
  intro member
  have before : m ∈ h.toList := (sink_swim_perm lt h inside).mem_iff.mp member
  exact swim_root least (sink_root least (root before) _) _

end BradypOS.Heap
