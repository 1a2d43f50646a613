import BradypOS.Heap.Basic
import BradypOS.Theory.Transition

/-!
# The heap law

`swim` repairs a heap order that one element breaks towards the root. `sink` repairs one that an
element breaks away from the root exactly when it never takes the right child while the left one
compares less than it (`SinkSound`): it looks at the right child first and alone.
-/

namespace BradypOS.Heap

open Theory Theory.HeapOrder

variable {α : Type} (lt : α → α → Bool)

/-- The order that the Boolean comparison decides. -/
abbrev Before : α → α → Prop := fun a b => lt a b = true

/-- No element of the heap compares less than its parent. -/
def Ordered (h : Heap α) : Prop := HeapOrder.Ordered (Before lt) h.data h.size

instance (h : Heap α) : Decidable (Ordered lt h) :=
  decidable_of_iff (∀ i < h.size, 0 < i → lt (h.data i) (h.data ((i - 1) / 2)) = false)
    ⟨fun level i hpos hi => by simpa [parent] using level i hi hpos,
      fun ordered i hi hpos => by simpa [parent] using ordered i hpos hi⟩

/-- Descending from `idx` with the element `x`, the walk never goes to the right child while the
left child compares less than the right one. -/
def SinkSound : Nat → Nat → (Nat → α) → α → Nat → Prop
  | 0, _, _, _, _ => True
  | fuel + 1, size, d, x, idx =>
    idx ≤ (size - 2) / 2 →
      if idx * 2 + 2 < size ∧ lt (d (idx * 2 + 2)) x then
        lt (d (idx * 2 + 1)) (d (idx * 2 + 2)) = false ∧ SinkSound fuel size d x (idx * 2 + 2)
      else if lt (d (idx * 2 + 1)) x then SinkSound fuel size d x (idx * 2 + 1)
      else True

instance : ∀ (fuel size : Nat) (d : Nat → α) (x : α) (idx : Nat), Decidable (SinkSound lt fuel size d x idx)
  | 0, _, _, _, _ => inferInstanceAs (Decidable True)
  | fuel + 1, size, d, x, _ =>
    have : ∀ idx, Decidable (SinkSound lt fuel size d x idx) := fun idx => instDecidableSinkSound fuel size d x idx
    inferInstanceAs (Decidable (_ → ite _ (_ ∧ _) (ite _ _ True)))

instance : IsStrictWeakOrder Nat (Before Nat.blt) where
  irrefl a := by simp
  trans a b c hab hbc := by simp only [Before, Nat.blt_eq] at *; omega
  incomp_trans a b c hab hbc := by simp only [Before, Nat.blt_eq] at *; omega

/-- `SinkSound` for the last element, put over position `idx` by `delete` or `pop`. -/
def FillSound (h : Heap α) (idx : Nat) : Prop :=
  SinkSound lt (h.size - 1) (h.size - 1) h.data (h.data (h.size - 1)) idx

theorem sinkSound_congr {fuel size : Nat} {d e : Nat → α} {x : α} {idx : Nat}
    (same : ∀ k, idx < k → d k = e k) : SinkSound lt fuel size d x idx ↔ SinkSound lt fuel size e x idx := by
  induction fuel generalizing idx with
  | zero => exact Iff.rfl
  | succ fuel ih =>
    have right : SinkSound lt fuel size d x (idx * 2 + 2) ↔ SinkSound lt fuel size e x (idx * 2 + 2) :=
      ih fun k hk => same k (by omega)
    have left : SinkSound lt fuel size d x (idx * 2 + 1) ↔ SinkSound lt fuel size e x (idx * 2 + 1) :=
      ih fun k hk => same k (by omega)
    simp only [SinkSound, same (idx * 2 + 2) (by omega), same (idx * 2 + 1) (by omega), right, left]

theorem swimLoop_ordered [IsStrictWeakOrder α (Before lt)] {fuel n idx : Nat} {d : Nat → α}
    (hole : UpHole (Before lt) d n idx) (hi : idx < n) (enough : idx ≤ fuel) :
    HeapOrder.Ordered (Before lt) (swimLoop lt fuel d idx).1 n := by
  induction fuel generalizing d idx with
  | zero => exact hole.finish fun hpos => by omega
  | succ fuel ih =>
    rw [swimLoop]
    split
    · rename_i up
      have hp := parent_lt up.1
      exact ih (hole.up up.1 hi up.2) (show (idx - 1) / 2 < n by omega) (show (idx - 1) / 2 ≤ fuel by omega)
    · rename_i stop
      exact hole.finish fun hpos before => stop ⟨hpos, before⟩

theorem insert_ordered [IsStrictWeakOrder α (Before lt)] {capacity : Nat} {h : Heap α} (ordered : Ordered lt h)
    (room : h.size ≠ capacity) (value : α) : Ordered lt (insert lt capacity h value).1 := by
  have hole := HeapOrder.Ordered.push (n := h.size) ordered value
  simp only [insert, room, if_false, Ordered, swim]
  split
  · exact hole.finish fun hpos => by omega
  · exact swimLoop_ordered lt hole (Nat.lt_succ_self _) (Nat.le_refl _)

theorem sinkLoop_below (fuel n : Nat) (d : Nat → α) {idx k : Nat} (hk : k < idx) :
    (sinkLoop lt fuel n d idx).1 k = d k := by
  induction fuel generalizing d idx with
  | zero => rfl
  | succ fuel ih =>
    rw [sinkLoop]
    split
    · split
      · rw [ih _ (by omega), swap_other _ (by omega) (by omega)]
      · split
        · rw [ih _ (by omega), swap_other _ (by omega) (by omega)]
        · rfl
    · rfl

/-- Whether the sink moves the element at `idx` to a child. -/
def SinkMoves (n : Nat) (d : Nat → α) (idx : Nat) : Prop :=
  idx ≤ (n - 2) / 2 ∧ ((idx * 2 + 2 < n ∧ lt (d (idx * 2 + 2)) (d idx)) ∨ lt (d (idx * 2 + 1)) (d idx))

theorem sinkLoop_stays {fuel n idx : Nat} {d : Nat → α} (stays : ¬ SinkMoves lt n d idx) :
    sinkLoop lt fuel n d idx = (d, idx) := by
  cases fuel with
  | zero => rfl
  | succ fuel =>
    rw [sinkLoop]
    split
    · rename_i inner
      have level := fun lesser => stays ⟨inner, lesser⟩
      rw [if_neg fun right => level (.inl right), if_neg fun left => level (.inr left)]
    · rfl

/-- An element that the sink does not move has no lesser child. -/
theorem not_before_of_stays {n idx : Nat} {d : Nat → α} (hn : 2 ≤ n) (stays : ¬ SinkMoves lt n d idx) :
    ∀ c, 0 < c → c < n → parent c = idx → ¬ Before lt (d c) (d idx) := by
  intro c hc hcn hpc before
  rcases child_cases hc hpc with rfl | rfl
  · rw [Nat.mul_comm 2 idx] at before hcn
    exact stays ⟨by omega, .inr before⟩
  · rw [Nat.mul_comm 2 idx] at before hcn
    exact stays ⟨by omega, .inl ⟨hcn, before⟩⟩

/-- A sound step goes to a child that its sibling is not before. -/
theorem sinkLoop_step [IsStrictWeakOrder α (Before lt)] {fuel n idx : Nat} {d : Nat → α}
    (hole : Hole (Before lt) d n idx) (hn : 2 ≤ n) (sound : SinkSound lt (fuel + 1) n d (d idx) idx)
    (moves : SinkMoves lt n d idx) :
    ∃ c, idx < c ∧ c < n ∧ sinkLoop lt (fuel + 1) n d idx = sinkLoop lt fuel n (swap d c idx) c ∧
      DownHole (Before lt) (swap d c idx) n c ∧ SinkSound lt fuel n (swap d c idx) (swap d c idx c) c := by
  obtain ⟨inner, lesser⟩ := moves
  rw [SinkSound] at sound
  have sound := sound inner
  have below : ∀ c, idx < c → ∀ k, c < k → d k = swap d c idx k :=
    fun c hc k hk => (swap_other d (by omega) (by omega)).symm
  by_cases right : idx * 2 + 2 < n ∧ lt (d (idx * 2 + 2)) (d idx)
  · rw [if_pos right] at sound
    have least : ∀ b, 0 < b → b < n → parent b = idx → ¬ Before lt (d b) (d (idx * 2 + 2)) := by
      intro b hb hbn hpb
      rcases child_cases hb hpb with rfl | rfl
      · rw [Nat.mul_comm 2 idx]; simpa using sound.1
      · rw [Nat.mul_comm 2 idx]; exact irrefl _
    have hpc : parent (idx * 2 + 2) = idx := by unfold parent; omega
    refine ⟨idx * 2 + 2, by omega, right.1, ?_, hole.down (by omega) right.1 hpc right.2 least, ?_⟩
    · rw [sinkLoop, if_pos inner, if_pos right]
    · rw [swap_left]
      exact (sinkSound_congr lt (below _ (by omega))).mp sound.2
  · have left : lt (d (idx * 2 + 1)) (d idx) := lesser.resolve_left right
    rw [if_neg right, if_pos left] at sound
    have hl : idx * 2 + 1 < n := by omega
    have least : ∀ b, 0 < b → b < n → parent b = idx → ¬ Before lt (d b) (d (idx * 2 + 1)) := by
      intro b hb hbn hpb
      rcases child_cases hb hpb with rfl | rfl
      · rw [Nat.mul_comm 2 idx]; exact irrefl _
      · rw [Nat.mul_comm 2 idx] at hbn ⊢
        have stays : ¬ Before lt (d (idx * 2 + 2)) (d idx) := fun before => right ⟨hbn, before⟩
        exact not_before_trans stays (before_asymm left)
    have hpc : parent (idx * 2 + 1) = idx := by unfold parent; omega
    refine ⟨idx * 2 + 1, by omega, hl, ?_, hole.down (by omega) hl hpc left least, ?_⟩
    · rw [sinkLoop, if_pos inner, if_neg right, if_pos left]
    · rw [swap_left]
      exact (sinkSound_congr lt (below _ (by omega))).mp sound

theorem sinkLoop_ordered [IsStrictWeakOrder α (Before lt)] {fuel n idx : Nat} {d : Nat → α}
    (hole : DownHole (Before lt) d n idx) (hn : 2 ≤ n) (enough : n ≤ idx + fuel)
    (sound : SinkSound lt fuel n d (d idx) idx) :
    HeapOrder.Ordered (Before lt) (sinkLoop lt fuel n d idx).1 n := by
  induction fuel generalizing d idx with
  | zero =>
    refine hole.finish fun c hc hcn hpc => ?_
    have := parent_lt hc
    omega
  | succ fuel ih =>
    by_cases moves : SinkMoves lt n d idx
    · obtain ⟨c, below, _, step, lower, rest⟩ := sinkLoop_step lt hole.toHole hn sound moves
      rw [step]
      exact ih lower (by omega) rest
    · rw [sinkLoop_stays lt moves]
      exact hole.finish (not_before_of_stays lt hn moves)

/-- Where the walk goes right past a lesser left child, the left child ends up less than its parent. -/
theorem sinkLoop_sound [IsStrictWeakOrder α (Before lt)] {fuel n idx : Nat} {d : Nat → α}
    (ordered : HeapOrder.Ordered (Before lt) (sinkLoop lt fuel n d idx).1 n) :
    SinkSound lt fuel n d (d idx) idx := by
  induction fuel generalizing d idx with
  | zero => trivial
  | succ fuel ih =>
    rw [sinkLoop] at ordered
    rw [SinkSound]
    intro inner
    rw [if_pos inner] at ordered
    split
    · rename_i right
      rw [if_pos right] at ordered
      refine ⟨?_, ?_⟩
      · have pair := ordered (idx * 2 + 1) (by omega) (by omega)
        have hpc : parent (idx * 2 + 1) = idx := by unfold parent; omega
        rw [hpc, sinkLoop_below lt _ _ _ (by omega), sinkLoop_below lt _ _ _ (by omega), swap_right,
          swap_other _ (by omega) (by omega)] at pair
        simpa using pair
      · have lower := ih ordered
        rw [swap_left] at lower
        exact (sinkSound_congr lt fun k hk => swap_other d (by omega) (by omega)).mp lower
    · rename_i notRight
      rw [if_neg notRight] at ordered
      split
      · rename_i left
        rw [if_pos left] at ordered
        have lower := ih ordered
        rw [swap_left] at lower
        exact (sinkSound_congr lt fun k hk => swap_other d (by omega) (by omega)).mp lower
      · trivial

theorem sinkSound_small {n idx : Nat} (small : n < 2) (d : Nat → α) (x : α) : SinkSound lt n n d x idx := by
  match n, small with
  | 0, _ => trivial
  | 1, _ =>
    intro inner
    rw [if_neg (by omega)]
    split <;> trivial

theorem ordered_small {n : Nat} (small : n < 2) (d : Nat → α) : HeapOrder.Ordered (Before lt) d n :=
  fun i hpos hi => by omega

/-- Sinking an element that may only be too large for its children: the order comes back exactly
when the walk is sound. -/
theorem sink_ordered_iff [IsStrictWeakOrder α (Before lt)] {h : Heap α} {idx : Nat}
    (hole : DownHole (Before lt) h.data h.size idx) :
    Ordered lt (sink lt h idx).1 ↔ SinkSound lt h.size h.size h.data (h.data idx) idx := by
  unfold sink Ordered
  split
  · rename_i small
    exact iff_of_true (ordered_small lt small _) (sinkSound_small lt small _ _)
  · rename_i large
    exact ⟨sinkLoop_sound lt, sinkLoop_ordered lt hole (by omega) (by omega)⟩

/-- `delete` of an ordered heap, when the last element is not less than its new parent. -/
theorem delete_ordered_iff [IsStrictWeakOrder α (Before lt)] {h : Heap α} {idx : Nat} (ordered : Ordered lt h)
    (hi : idx < h.size)
    (above : 0 < idx → idx < h.size - 1 → lt (h.data (h.size - 1)) (h.data ((idx - 1) / 2)) = false) :
    Ordered lt (delete lt h idx) ↔ FillSound lt h idx := by
  have shorter : HeapOrder.Ordered (Before lt) h.data (h.size - 1) := ordered.mono (Nat.sub_le _ _)
  have sound : FillSound lt h idx ↔ SinkSound lt (h.fill idx).size (h.fill idx).size (h.fill idx).data
      ((h.fill idx).data idx) idx := by
    simp only [FillSound, fill, Function.update_self]
    exact sinkSound_congr lt fun k hk => (Function.update_of_ne (by omega) _ _).symm
  rw [sound]
  by_cases inside : idx < h.size - 1
  · refine sink_ordered_iff lt ⟨shorter.overwrite inside _, fun hpos => ?_⟩
    have hp := parent_lt hpos
    simp only [fill, Function.update_self]
    rw [Function.update_of_ne (by omega)]
    simpa [parent] using above hpos inside
  · -- The last element itself went: nothing is written below the new size.
    have unchanged : HeapOrder.Ordered (Before lt) (h.fill idx).data (h.fill idx).size := by
      intro j hpos hj
      have hp := parent_lt hpos
      simp only [fill] at hj ⊢
      rw [Function.update_of_ne (by omega), Function.update_of_ne (by omega)]
      exact shorter j hpos hj
    refine sink_ordered_iff lt ⟨⟨fun j hpos hj _ _ => unchanged j hpos hj, fun _ c hc hcn hpc => ?_⟩, fun hpos => ?_⟩
    · have := parent_lt hc
      simp only [fill] at hcn
      omega
    · have hlast : idx = h.size - 1 := by omega
      have hp := parent_lt hpos
      simp only [fill, Function.update_self]
      rw [Function.update_of_ne (by omega), ← hlast]
      exact ordered idx hpos hi

theorem pop_ordered_iff [IsStrictWeakOrder α (Before lt)] {h : Heap α} (ordered : Ordered lt h)
    (nonempty : 0 < h.size) : Ordered lt (pop lt h) ↔ FillSound lt h 0 :=
  delete_ordered_iff lt ordered nonempty fun hpos => absurd hpos (Nat.lt_irrefl 0)

theorem swim_ordered [IsStrictWeakOrder α (Before lt)] {h : Heap α} {idx : Nat}
    (hole : UpHole (Before lt) h.data h.size idx) (hi : idx < h.size) : Ordered lt (swim lt h idx).1 := by
  unfold swim Ordered
  split
  · exact hole.finish fun hpos => by omega
  · exact swimLoop_ordered lt hole hi (Nat.le_refl _)

theorem swim_of_ordered {h : Heap α} {idx : Nat} (ordered : Ordered lt h) (hi : idx < h.size) :
    (swim lt h idx).1 = h := by
  unfold swim
  split
  · rfl
  · rename_i hpos
    obtain ⟨j, rfl⟩ : ∃ j, idx = j + 1 := ⟨idx - 1, by omega⟩
    have level : ¬ (0 < j + 1 ∧ lt (h.data (j + 1)) (h.data ((j + 1 - 1) / 2))) :=
      fun before => ordered (j + 1) (by omega) hi before.2
    rw [swimLoop, if_neg level]

/-- A sink followed by a swim puts any one element of an otherwise ordered heap in its place. -/
theorem sink_swim_ordered [IsStrictWeakOrder α (Before lt)] {h : Heap α} {idx : Nat}
    (hole : Hole (Before lt) h.data h.size idx) (hi : idx < h.size)
    (sound : SinkSound lt h.size h.size h.data (h.data idx) idx) :
    Ordered lt (swim lt (sink lt h idx).1 (sink lt h idx).2).1 := by
  unfold sink
  split
  · rename_i small
    have leaf : ∀ c, 0 < c → c < h.size → parent c = idx → ¬ Before lt (h.data c) (h.data idx) :=
      fun c hc hcn hpc => by omega
    exact swim_ordered lt (h := h) ⟨hole, leaf⟩ hi
  · rename_i large
    obtain ⟨fuel, hf⟩ : ∃ fuel, h.size = fuel + 1 := ⟨h.size - 1, by omega⟩
    by_cases moves : SinkMoves lt h.size h.data idx
    · -- It went down at least once, so it is in order towards the root.
      have loop : HeapOrder.Ordered (Before lt) (sinkLoop lt h.size h.size h.data idx).1 h.size := by
        rw [hf] at sound
        rw [hf] at hole moves
        obtain ⟨c, below, _, step, lower, rest⟩ := sinkLoop_step lt hole (by omega) sound moves
        rw [hf, step]
        exact sinkLoop_ordered lt lower (by omega) (by omega) rest
      have inside : (sinkLoop lt h.size h.size h.data idx).2 < h.size := sinkLoop_lt lt (by omega) hi
      have still := swim_of_ordered lt (h := { h with data := (sinkLoop lt h.size h.size h.data idx).1 }) loop inside
      exact (congrArg (Ordered lt) still).mpr loop
    · have stays : sinkLoop lt h.size h.size h.data idx = (h.data, idx) := sinkLoop_stays lt moves
      simp only [stays]
      have level := not_before_of_stays lt (n := h.size) (by omega) moves
      exact swim_ordered lt (h := h) ⟨hole, level⟩ hi

/-! ### Runs of insertions and pops -/

inductive Op (α : Type) where
  | insert (value : α)
  | pop

/-- An insertion into a heap that is not full, or a pop of one that is not empty. -/
def Step (capacity : Nat) (h : Heap α) (op : Op α) (h' : Heap α) : Prop :=
  match op with
  | .insert value => h.size ≠ capacity ∧ h' = (insert lt capacity h value).1
  | .pop => 0 < h.size ∧ h' = pop lt h

/-- A pop does not sink its element past a lesser left child. -/
def Sound (h : Heap α) : Op α → Prop
  | .insert _ => True
  | .pop => FillSound lt h 0

theorem step_ordered [IsStrictWeakOrder α (Before lt)] {capacity : Nat} {h h' : Heap α} {op : Op α}
    (ordered : Ordered lt h) (sound : Sound lt h op) (step : Step lt capacity h op h') : Ordered lt h' := by
  cases op with
  | insert value =>
    obtain ⟨room, rfl⟩ := step
    exact insert_ordered lt ordered room value
  | pop =>
    obtain ⟨nonempty, rfl⟩ := step
    exact (pop_ordered_iff lt ordered nonempty).mpr sound

theorem least_of_run [IsStrictWeakOrder α (Before lt)] {capacity : Nat} {h h' : Heap α} {ops : List (Op α)}
    (start : h.size = 0) (run : Run (Guarded (Sound lt) (Step lt capacity)) h ops h') :
    ∀ i < h'.size, lt (h'.data i) (h'.data 0) = false := by
  have initial : Ordered lt h := fun i _ hi => by omega
  have ordered : Ordered lt h' :=
    run.invariant (I := Ordered lt) (fun _ _ _ step before => step_ordered lt before step.1 step.2) initial
  intro i hi
  simpa using ordered.root_least i hi

end BradypOS.Heap
