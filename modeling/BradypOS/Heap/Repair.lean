import BradypOS.Heap.Law

/-!
# Putting a moved or changed element in its place

`delete` puts the last element over the deleted one and sinks it. It never moves it up, so a last
element that is less than its new parent stays below it. A sink followed by a swim moves both ways,
and restores the order exactly when the sink is sound.
-/

namespace BradypOS.Heap

open Theory.HeapOrder

variable {α : Type} (lt : α → α → Bool) {fuel n idx : Nat} {d : Nat → α} {h : Heap α}

/-! ### Where a sink ends -/

theorem sinkLoop_ge (fuel n : Nat) (d : Nat → α) (idx : Nat) : idx ≤ (sinkLoop lt fuel n d idx).2 := by
  induction fuel generalizing d idx with
  | zero => exact Nat.le_refl _
  | succ fuel ih =>
    rw [sinkLoop]
    split
    · split
      · exact Nat.le_trans (by omega) (ih _ _)
      · split
        · exact Nat.le_trans (by omega) (ih _ _)
        · exact Nat.le_refl _
    · exact Nat.le_refl _

theorem sinkLoop_descends (moves : SinkMoves lt n d idx) : ∃ c, idx < c ∧ (c - 1) / 2 = idx ∧ lt (d c) (d idx) = true ∧
    ∀ fuel, sinkLoop lt (fuel + 1) n d idx = sinkLoop lt fuel n (swap d c idx) c := by
  obtain ⟨inner, lesser⟩ := moves
  by_cases right : idx * 2 + 2 < n ∧ lt (d (idx * 2 + 2)) (d idx)
  · refine ⟨idx * 2 + 2, by omega, by omega, right.2, fun fuel => ?_⟩
    rw [sinkLoop, if_pos inner, if_pos right]
  · have left := lesser.resolve_left right
    refine ⟨idx * 2 + 1, by omega, by omega, left, fun fuel => ?_⟩
    rw [sinkLoop, if_pos inner, if_neg right, if_pos left]

theorem sinkLoop_rests (rests : (sinkLoop lt fuel n d idx).2 = idx) : sinkLoop lt fuel n d idx = (d, idx) := by
  cases fuel with
  | zero => rfl
  | succ fuel =>
    by_cases moves : SinkMoves lt n d idx
    · obtain ⟨c, below, _, _, step⟩ := sinkLoop_descends lt moves
      rw [step] at rests
      have lower := sinkLoop_ge lt fuel n (swap d c idx) c
      omega
    · exact sinkLoop_stays lt moves

theorem sinkLoop_above [IsStrictWeakOrder α (Before lt)] (moved : (sinkLoop lt fuel n d idx).2 ≠ idx) :
    lt ((sinkLoop lt fuel n d idx).1 (sinkLoop lt fuel n d idx).2)
      ((sinkLoop lt fuel n d idx).1 (((sinkLoop lt fuel n d idx).2 - 1) / 2)) = false := by
  induction fuel generalizing d idx with
  | zero => exact absurd rfl moved
  | succ fuel ih =>
    by_cases moves : SinkMoves lt n d idx
    · obtain ⟨c, _, up, less, step⟩ := sinkLoop_descends lt moves
      rw [step]
      by_cases rests : (sinkLoop lt fuel n (swap d c idx) c).2 = c
      · rw [sinkLoop_rests lt rests]
        show lt (swap d c idx c) (swap d c idx ((c - 1) / 2)) = false
        rw [up, swap_left, swap_right]
        simpa using before_asymm (r := Before lt) less
      · exact ih rests
    · rw [sinkLoop_stays lt moves] at moved
      exact absurd rfl moved

theorem sinkSound_of_stays (stays : ¬ SinkMoves lt n d idx) : SinkSound lt fuel n d (d idx) idx := by
  cases fuel with
  | zero => trivial
  | succ fuel =>
    intro inner
    have level := fun lesser => stays ⟨inner, lesser⟩
    rw [if_neg fun right => level (.inl right), if_neg fun left => level (.inr left)]
    trivial

/-! ### A changed element -/

theorem swim_of_not_less {idx : Nat} (above : 0 < idx → lt (h.data idx) (h.data ((idx - 1) / 2)) = false) :
    (swim lt h idx).1 = h := by
  unfold swim
  split
  · rfl
  · rename_i hpos
    obtain ⟨j, rfl⟩ : ∃ j, idx = j + 1 := ⟨idx - 1, by omega⟩
    have level : ¬ (0 < j + 1 ∧ lt (h.data (j + 1)) (h.data ((j + 1 - 1) / 2))) := by
      intro less
      rw [above (by omega)] at less
      cases less.2
    rw [swimLoop, if_neg level]

/-- A sink followed by a swim restores a heap order that one element breaks, if and only if the sink is sound. -/
theorem sink_swim_ordered_iff [IsStrictWeakOrder α (Before lt)] (hole : Hole (Before lt) h.data h.size idx) (hi : idx < h.size) :
    Ordered lt (swim lt (sink lt h idx).1 (sink lt h idx).2).1 ↔ SinkSound lt h.size h.size h.data (h.data idx) idx := by
  refine ⟨fun ordered => ?_, sink_swim_ordered lt hole hi⟩
  by_cases small : h.size < 2
  · exact sinkSound_small lt small _ _
  by_cases moves : SinkMoves lt h.size h.data idx
  · have moved : (sinkLoop lt h.size h.size h.data idx).2 ≠ idx := by
      obtain ⟨c, below, _, _, step⟩ := sinkLoop_descends lt moves
      obtain ⟨fuel, hf⟩ : ∃ fuel, h.size = fuel + 1 := ⟨h.size - 1, by omega⟩
      have same := step fuel
      rw [← hf] at same
      rw [same]
      have lower := sinkLoop_ge lt fuel h.size (swap h.data c idx) c
      omega
    -- The swim finds the sunk element in order, so the sink alone left the heap ordered.
    have sunk : sink lt h idx = ({ h with data := (sinkLoop lt h.size h.size h.data idx).1 },
        (sinkLoop lt h.size h.size h.data idx).2) := by
      rw [sink, if_neg small]
    rw [sunk, swim_of_not_less lt fun _ => sinkLoop_above lt moved] at ordered
    exact sinkLoop_sound lt ordered
  · exact sinkSound_of_stays lt moves

/-! ### Deletion -/

/-- The last element is not less than its parent at the place that `delete` gives it. -/
def FillAbove (h : Heap α) (idx : Nat) : Prop :=
  0 < idx → idx < h.size - 1 → lt (h.data (h.size - 1)) (h.data ((idx - 1) / 2)) = false

instance (h : Heap α) (idx : Nat) : Decidable (FillAbove lt h idx) := inferInstanceAs (Decidable (_ → _ → _ = false))

/-- An element that is less than its new parent is less than everything below it too, and stays. -/
theorem fillAbove_of_ordered [IsStrictWeakOrder α (Before lt)] (ordered : Ordered lt h)
    (deleted : Ordered lt (delete lt h idx)) : FillAbove lt h idx := by
  intro hpos inside
  have hp := parent_lt hpos
  by_contra notAbove
  have less : Before lt (h.data (h.size - 1)) (h.data (parent idx)) := eq_true_of_ne_false notAbove
  have shorter : Theory.HeapOrder.Ordered (Before lt) h.data (h.size - 1) := ordered.mono (Nat.sub_le _ _)
  have kept : ∀ i, i ≠ idx → (h.fill idx).data i = h.data i := fun i other => Function.update_of_ne other _ _
  have here : (h.fill idx).data idx = h.data (h.size - 1) := Function.update_self ..
  have stays : ¬ SinkMoves lt (h.fill idx).size (h.fill idx).data idx := by
    intro ⟨inner, lesser⟩
    have size : (h.fill idx).size = h.size - 1 := rfl
    have child : ∀ c, 0 < c → c < h.size - 1 → parent c = idx → ¬ Before lt ((h.fill idx).data c) ((h.fill idx).data idx) := by
      intro c hc hcn hpc before
      have := parent_lt hc
      rw [kept c (by omega), here] at before
      exact (shorter.hole inside).grand hpos c hc hcn hpc (IsTrans.trans _ _ _ before less)
    rcases lesser with right | left
    · exact child _ (by omega) (by omega) (by unfold parent; omega) right.2
    · exact child _ (by omega) (by omega) (by unfold parent; omega) left
  have unmoved : (delete lt h idx).data = (h.fill idx).data := by
    unfold delete sink
    split
    · rfl
    · rw [sinkLoop_stays lt stays]
  have pair := deleted idx hpos (by rw [delete_size]; exact inside)
  rw [unmoved, here, kept _ (by omega)] at pair
  exact pair less

/-! ### Equal elements -/

/-- No element is less than another. -/
def Level (l : List α) : Prop := ∀ x ∈ l, ∀ y ∈ l, lt x y = false

theorem insert_level {capacity : Nat} {value : α} (level : Level lt (value :: h.toList)) (room : h.size ≠ capacity) :
    (insert lt capacity h value).1.toList = h.toList ++ [value] := by
  have stays : (swim lt { size := h.size + 1, data := Function.update h.data h.size value } h.size).1 =
      { size := h.size + 1, data := Function.update h.data h.size value } := by
    refine swim_of_not_less lt fun positive => ?_
    dsimp only
    rw [Function.update_self, Function.update_of_ne (by omega)]
    exact level value List.mem_cons_self _ (List.mem_cons_of_mem _ (mem_toList.mpr ⟨_, by omega, rfl⟩))
  unfold insert
  rw [if_neg room]
  dsimp only
  rw [stays, toList, elements_succ]
  dsimp only
  rw [Function.update_self]
  exact congrArg (· ++ [value]) (elements_congr fun i hi => Function.update_of_ne (Nat.ne_of_lt hi) _ _)

/-- The elements behind the root, with the last one put first. -/
def lastFirst (l : List α) : List α := l.getLast?.toList ++ l.dropLast

theorem lastFirst_concat (l : List α) (x : α) : lastFirst (l ++ [x]) = x :: l := by
  unfold lastFirst
  rw [List.getLast?_concat, List.dropLast_concat]
  rfl

theorem elements_succ_cons (d : Nat → α) (n : Nat) : elements d (n + 1) = d 0 :: elements (fun i => d (i + 1)) n := by
  simp [elements, List.ofFn_succ]

/-- Among equal elements, `pop` puts the last one over the root and leaves the others where they are. -/
theorem pop_level (level : Level lt h.toList) (nonempty : h.size ≠ 0) :
    ∃ rest, h.toList = h.data 0 :: rest ∧ (pop lt h).toList = lastFirst rest := by
  obtain ⟨n, hn⟩ : ∃ n, h.size = n + 1 := ⟨h.size - 1, by omega⟩
  have equal : ∀ i ≤ n, ∀ j ≤ n, lt (h.data i) (h.data j) = false := fun i hi j hj =>
    level _ (mem_toList.mpr ⟨i, by omega, rfl⟩) _ (mem_toList.mpr ⟨j, by omega, rfl⟩)
  have filled : (h.fill 0).size = n := by
    show h.size - 1 = n
    omega
  have stays : (pop lt h) = h.fill 0 := by
    unfold pop sink
    split
    · rfl
    · rename_i two
      rw [sinkLoop_stays lt]
      rintro ⟨inner, ⟨right, less⟩ | less⟩
      · have none := equal (0 * 2 + 2) (by omega) n (Nat.le_refl n)
        simp only [fill, hn, Nat.add_sub_cancel, Function.update_self] at less
        rw [Function.update_of_ne (by omega), none] at less
        cases less
      · have none := equal (0 * 2 + 1) (by omega) n (Nat.le_refl n)
        simp only [fill, hn, Nat.add_sub_cancel, Function.update_self] at less
        rw [Function.update_of_ne (by omega), none] at less
        cases less
  refine ⟨elements (fun i => h.data (i + 1)) n, ?_, ?_⟩
  · rw [toList, hn, elements_succ_cons]
  · rw [stays, toList, filled]
    cases n with
    | zero => rfl
    | succ m =>
      rw [elements_succ_cons (h.fill 0).data, elements_succ (fun i => h.data (i + 1)), lastFirst_concat]
      simp only [fill, hn, Nat.add_sub_cancel, Function.update_self]
      exact congrArg _ (elements_congr fun i _ => Function.update_of_ne (Nat.succ_ne_zero i) _ _)

def Removed (h : Heap α) (idx : Nat) (h' : Heap α) : Prop := (h.data idx :: h'.toList).Perm h.toList

/-- A deletion removes the element at its index, and it leaves the heap in order if and only if the last
element, put there, is not less than its new parent and sinks soundly. -/
theorem delete_iff [IsStrictWeakOrder α (Before lt)] (ordered : Ordered lt h) (hi : idx < h.size) :
    Removed h idx (delete lt h idx) ∧ Ordered lt (delete lt h idx) ↔ FillAbove lt h idx ∧ FillSound lt h idx := by
  constructor
  · rintro ⟨-, deleted⟩
    have above := fillAbove_of_ordered lt ordered deleted
    exact ⟨above, (delete_ordered_iff lt ordered hi above).mp deleted⟩
  · intro ⟨above, sound⟩
    exact ⟨delete_perm lt h hi, (delete_ordered_iff lt ordered hi above).mpr sound⟩

def ofList (l : List Nat) : Heap Nat := { size := l.length, data := fun i => l.getD i 0 }

theorem delete_iff_inner : Removed (ofList [1, 2, 3, 4, 5]) 1 (delete Nat.blt (ofList [1, 2, 3, 4, 5]) 1) ∧
    Ordered Nat.blt (delete Nat.blt (ofList [1, 2, 3, 4, 5]) 1) :=
  (delete_iff Nat.blt (h := ofList [1, 2, 3, 4, 5]) (by decide) (by decide)).mpr
    ⟨by decide, by unfold FillSound; decide⟩

/-- The last element comes from below 1 and goes under 10. -/
theorem delete_other_subtree : Ordered Nat.blt (ofList [0, 10, 1, 11, 12, 2, 3]) ∧
    (delete Nat.blt (ofList [0, 10, 1, 11, 12, 2, 3]) 3).toList = [0, 10, 1, 3, 12, 2] ∧
    ¬ Ordered Nat.blt (delete Nat.blt (ofList [0, 10, 1, 11, 12, 2, 3]) 3) := by decide

end BradypOS.Heap
