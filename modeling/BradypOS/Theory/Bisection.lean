import Mathlib.Tactic

/-!
# Bisection with a bound that falls too far

A search for a key in ascending cells, given by the comparison of each cell with the key. The upper
bound starts behind the last cell, but moves to the cell before the probed one, which is then not
looked at. A key that is there is found all the same; a key that is not may end one cell too low.
-/

namespace Theory

def bisect (cmp : Nat → Ordering) (last : Nat) : Nat → Nat → Nat → Nat
  | 0, low, _ => low
  | fuel + 1, low, high =>
    let mid := (low + high) / 2
    match cmp mid with
    | .eq => mid
    | .lt => if mid = last then mid else if mid + 1 < high then bisect cmp last fuel (mid + 1) high else mid + 1
    | .gt => if mid = 0 then 0 else if low < mid - 1 then bisect cmp last fuel low (mid - 1) else low

theorem bisect_empty (cmp : Nat → Ordering) (fuel : Nat) : bisect cmp 0 (fuel + 1) 0 0 = 0 := by
  unfold bisect
  simp only [Nat.add_zero, Nat.zero_div]
  cases cmp 0 <;> simp

/-- The cells that a search probes. -/
def probes (cmp : Nat → Ordering) (last : Nat) : Nat → Nat → Nat → List Nat
  | 0, _, _ => []
  | fuel + 1, low, high =>
    let mid := (low + high) / 2
    mid :: match cmp mid with
      | .eq => []
      | .lt => if mid = last then [] else if mid + 1 < high then probes cmp last fuel (mid + 1) high else []
      | .gt => if mid = 0 then [] else if low < mid - 1 then probes cmp last fuel low (mid - 1) else []

/-- Whether a search for a missing key probes the cell at the key's place while a cell before it is not ruled out. -/
def undershoots (place : Nat) : Nat → Nat → Nat → Bool
  | 0, _, _ => false
  | fuel + 1, low, high =>
    let mid := (low + high) / 2
    if mid < place then if mid + 1 < high then undershoots place fuel (mid + 1) high else false
    else if place < mid then if low < mid - 1 then undershoots place fuel low (mid - 1) else false
    else decide (low < place)

/-- The place of a key among the first `n` cells. -/
structure Splits (cmp : Nat → Ordering) (n place : Nat) : Prop where
  le : place ≤ n
  before : ∀ i < place, cmp i = .lt
  here : place < n → cmp place ≠ .lt
  behind : ∀ i, place < i → i < n → cmp i = .gt

namespace Splits

variable {cmp : Nat → Ordering} {n place fuel low high : Nat}

theorem lt_iff (s : Splits cmp n place) {i : Nat} (inside : i < n) : cmp i = .lt ↔ i < place := by
  constructor
  · intro less
    by_contra not
    rcases Nat.lt_or_eq_of_le (Nat.le_of_not_lt not) with behind | rfl
    · rw [s.behind i behind inside] at less
      cases less
    · exact s.here inside less
  · exact s.before i

theorem eq_only (s : Splits cmp n place) {i : Nat} (inside : i < n) (same : cmp i = .eq) : i = place := by
  rcases Nat.lt_trichotomy i place with before | here | behind
  · rw [s.before i before] at same
    cases same
  · exact here
  · rw [s.behind i behind inside] at same
    cases same

theorem gt_place (s : Splits cmp n place) {i : Nat} (greater : cmp i = .gt) : place ≤ i := by
  by_contra before
  rw [s.before i (Nat.lt_of_not_le before)] at greater
  cases greater

theorem bisect_behind (s : Splits cmp n place) (range : low < high) (below : high ≤ place) (enough : high - low ≤ fuel) :
    bisect cmp n fuel low high = high := by
  induction fuel generalizing low with
  | zero => omega
  | succ fuel ih =>
    have le := s.le
    unfold bisect
    dsimp only
    rw [s.before ((low + high) / 2) (by omega)]
    dsimp only
    rw [if_neg (by omega)]
    split
    · exact ih (by omega) (by omega)
    · omega

theorem bisect_found (s : Splits cmp n place) (found : place < n) (same : cmp place = .eq) (range : low < high)
    (inside : high ≤ n) (lower : low ≤ place) (upper : place ≤ high) (enough : high - low ≤ fuel) :
    bisect cmp n fuel low high = place := by
  induction fuel generalizing low high with
  | zero => omega
  | succ fuel ih =>
    have mid : (low + high) / 2 < n := by omega
    unfold bisect
    dsimp only
    cases order : cmp ((low + high) / 2) with
    | eq => exact s.eq_only mid order
    | lt =>
      have before := (s.lt_iff mid).mp order
      dsimp only
      rw [if_neg (by omega)]
      split
      · exact ih (by omega) inside (by omega) upper (by omega)
      · omega
    | gt =>
      have behind : place < (low + high) / 2 := by
        refine lt_of_le_of_ne (s.gt_place order) fun here => ?_
        rw [← here, same] at order
        cases order
      dsimp only
      rw [if_neg (by omega)]
      split
      · exact ih (by omega) (by omega) lower (by omega) (by omega)
      · omega

theorem bisect_missing (s : Splits cmp n place) (missing : place < n → cmp place ≠ .eq) (range : low < high)
    (inside : high ≤ n) (lower : low ≤ place) (upper : place ≤ high) (enough : high - low ≤ fuel) :
    bisect cmp n fuel low high = if undershoots place fuel low high then place - 1 else place := by
  induction fuel generalizing low high with
  | zero => omega
  | succ fuel ih =>
    have mid : (low + high) / 2 < n := by omega
    unfold bisect undershoots
    dsimp only
    cases order : cmp ((low + high) / 2) with
    | eq =>
      have here := s.eq_only mid order
      rw [here] at order mid
      exact absurd order (missing mid)
    | lt =>
      have before := (s.lt_iff mid).mp order
      dsimp only
      rw [if_neg (show (low + high) / 2 ≠ n by omega), if_pos before]
      split
      · exact ih (by omega) inside (by omega) upper (by omega)
      · rw [if_neg (by simp)]
        omega
    | gt =>
      have behind := s.gt_place order
      dsimp only
      rw [if_neg (show ¬ (low + high) / 2 < place by omega)]
      by_cases here : place < (low + high) / 2
      · rw [if_neg (show (low + high) / 2 ≠ 0 by omega), if_pos here]
        split
        · exact ih (by omega) (by omega) lower (by omega) (by omega)
        · rw [if_neg (by simp)]
          omega
      · -- the probed cell is the key's own place, and the bound falls below it
        rw [if_neg here]
        have same : (low + high) / 2 = place := by omega
        rw [same]
        by_cases early : low < place
        · rw [if_neg (show place ≠ 0 by omega), if_pos (decide_eq_true early)]
          split
          · exact s.bisect_behind (by omega) (by omega) (by omega)
          · omega
        · rw [if_neg (show ¬ decide (low < place) = true by simpa using early)]
          split
          · omega
          · rw [if_neg (by omega)]
            omega

end Splits

theorem probes_lt {cmp : Nat → Ordering} {n fuel low high : Nat} (range : low < high) (inside : high ≤ n) : ∀ i ∈ probes cmp n fuel low high, i < n := by
  induction fuel generalizing low high with
  | zero => simp [probes]
  | succ fuel ih =>
    intro i member
    unfold probes at member
    dsimp only at member
    rcases List.mem_cons.mp member with rfl | later
    · omega
    · split at later
      · cases later
      · split at later
        · cases later
        · split at later
          · exact ih (by omega) inside i later
          · cases later
      · split at later
        · cases later
        · split at later
          · exact ih (by omega) (by omega) i later
          · cases later

theorem not_undershoots_last {place fuel low high : Nat} (range : low < high) (behind : high ≤ place) :
    undershoots place fuel low high = false := by
  induction fuel generalizing low high with
  | zero => rfl
  | succ fuel ih =>
    unfold undershoots
    dsimp only
    rw [if_pos (by omega)]
    split
    · exact ih (by omega) behind
    · rfl

theorem undershoots_pos {place fuel low high : Nat} (h : undershoots place fuel low high = true) : 0 < place := by
  induction fuel generalizing low high with
  | zero => cases h
  | succ fuel ih =>
    unfold undershoots at h
    dsimp only at h
    split at h
    · omega
    · split at h
      · split at h
        · exact ih h
        · cases h
      · exact Nat.zero_lt_of_lt (of_decide_eq_true h)

theorem bisect_congr {cmp cmp' : Nat → Ordering} {n fuel low high : Nat} (same : ∀ i < n, cmp' i = cmp i) (range : low < high)
    (inside : high ≤ n) : bisect cmp' n fuel low high = bisect cmp n fuel low high := by
  induction fuel generalizing low high with
  | zero => rfl
  | succ fuel ih =>
    unfold bisect
    dsimp only
    rw [same ((low + high) / 2) (by omega)]
    cases cmp ((low + high) / 2) with
    | eq => rfl
    | lt =>
      dsimp only
      split
      · rfl
      · split
        · exact ih (by omega) inside
        · rfl
    | gt =>
      dsimp only
      split
      · rfl
      · split
        · exact ih (by omega) (by omega)
        · rfl

theorem bisect_lt {cmp : Nat → Ordering} {n fuel low high : Nat} (last : cmp (n - 1) ≠ .lt) (range : low < high) (inside : high ≤ n) :
    bisect cmp n fuel low high < n := by
  induction fuel generalizing low high with
  | zero =>
    show low < n
    omega
  | succ fuel ih =>
    unfold bisect
    dsimp only
    cases order : cmp ((low + high) / 2) with
    | eq =>
      dsimp only
      omega
    | lt =>
      have other : (low + high) / 2 ≠ n - 1 := by
        intro here
        rw [here] at order
        exact last order
      dsimp only
      rw [if_neg (by omega)]
      split
      · exact ih (by omega) inside
      · omega
    | gt =>
      dsimp only
      split
      · omega
      · split
        · exact ih (by omega) (by omega)
        · omega

/-- Whether a key that was put one cell before its place is found again among `n` cells. -/
def retrieves (place n : Nat) : Bool :=
  bisect (fun i => if i + 1 = place then .eq else if i ≤ place then .lt else .gt) n (n + 1) 0 n + 1 == place

/-- Ascending cells are determined by the values in them. -/
theorem ascending_unique {n : Nat} {f g : Nat → Nat} (hf : ∀ i j, i < j → j < n → f i < f j) (hg : ∀ i j, i < j → j < n → g i < g j)
    (same : ∀ x, (∃ i < n, f i = x) ↔ ∃ i < n, g i = x) : ∀ i < n, f i = g i := by
  have monoF : StrictMono fun i : Fin n => f i := fun i j before => hf i j before j.isLt
  have monoG : StrictMono fun i : Fin n => g i := fun i j before => hg i j before j.isLt
  have ranges : Set.range (fun i : Fin n => f i) = Set.range fun i : Fin n => g i := by
    ext x
    constructor
    · rintro ⟨i, rfl⟩
      obtain ⟨j, inside, here⟩ := (same (f i)).mp ⟨i, i.isLt, rfl⟩
      exact ⟨⟨j, inside⟩, here⟩
    · rintro ⟨i, rfl⟩
      obtain ⟨j, inside, here⟩ := (same (g i)).mpr ⟨i, i.isLt, rfl⟩
      exact ⟨⟨j, inside⟩, here⟩
  intro i inside
  exact congrFun ((monoF.range_inj monoG).mp ranges) ⟨i, inside⟩

end Theory
