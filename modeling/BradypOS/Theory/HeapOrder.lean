import Mathlib.Order.RelClasses
import Mathlib.Logic.Equiv.Basic
import Mathlib.Data.List.FinRange
import Mathlib.Tactic

/-!
# Heap order on an array

An array `d : Nat → α` read below `n` is a binary tree: position `i` has the parent `(i - 1) / 2`.
`Ordered r d n` says that no element is before its parent. The two one-step rules are
`UpHole.swap`, for an element that moves towards the root, and `DownHole.swap`, for one that
moves away from it. The relation is any strict weak order.
-/

namespace Theory.HeapOrder

variable {α : Type*} (r : α → α → Prop)

def parent (i : Nat) : Nat := (i - 1) / 2

theorem parent_lt {i : Nat} (h : 0 < i) : parent i < i := by unfold parent; omega

theorem child_cases {c i : Nat} (hc : 0 < c) (h : parent c = i) : c = 2 * i + 1 ∨ c = 2 * i + 2 := by
  unfold parent at h; omega

/-- `i` is `j` or lies above it, towards the root. -/
def OnPath (i j : Nat) : Prop := ∃ steps, parent^[steps] j = i

theorem onPath_self (i : Nat) : OnPath i i := ⟨0, rfl⟩

theorem OnPath.of_parent {i j : Nat} (h : OnPath i (parent j)) : OnPath i j := by
  obtain ⟨steps, rfl⟩ := h
  exact ⟨steps + 1, rfl⟩

/-- No element below `n` is before its parent. -/
def Ordered (d : Nat → α) (n : Nat) : Prop :=
  ∀ i, 0 < i → i < n → ¬ r (d i) (d (parent i))

/-- Every pair that does not touch `hole` is in order, and the children of `hole` are not before
its parent. -/
structure Hole (d : Nat → α) (n hole : Nat) : Prop where
  rest : ∀ i, 0 < i → i < n → i ≠ hole → parent i ≠ hole → ¬ r (d i) (d (parent i))
  grand : 0 < hole → ∀ c, 0 < c → c < n → parent c = hole → ¬ r (d c) (d (parent hole))

/-- Only the pair of `hole` and its parent may be out of order. -/
structure UpHole (d : Nat → α) (n hole : Nat) : Prop extends Hole r d n hole where
  below : ∀ c, 0 < c → c < n → parent c = hole → ¬ r (d c) (d hole)

/-- Only the pairs of `hole` and its children may be out of order. -/
structure DownHole (d : Nat → α) (n hole : Nat) : Prop extends Hole r d n hole where
  above : 0 < hole → ¬ r (d hole) (d (parent hole))

/-- Exchange two positions. -/
def swap (d : Nat → α) (i j : Nat) : Nat → α := fun k => if k = i then d j else if k = j then d i else d k

@[simp] theorem swap_left (d : Nat → α) (i j : Nat) : swap d i j i = d j := by simp [swap]

@[simp] theorem swap_right (d : Nat → α) (i j : Nat) : swap d i j j = d i := by
  unfold swap; split <;> simp_all

theorem swap_other (d : Nat → α) {i j k : Nat} (hi : k ≠ i) (hj : k ≠ j) : swap d i j k = d k := by
  simp [swap, hi, hj]

/-- The elements below `n`, in array order. -/
def elements (d : Nat → α) (n : Nat) : List α := List.ofFn fun i : Fin n => d i

@[simp] theorem length_elements (d : Nat → α) (n : Nat) : (elements d n).length = n := by simp [elements]

theorem mem_elements {d : Nat → α} {n : Nat} {x : α} : x ∈ elements d n ↔ ∃ i < n, d i = x := by
  simp [elements, List.mem_ofFn, Fin.exists_iff]

theorem elements_congr {d e : Nat → α} {n : Nat} (h : ∀ i < n, d i = e i) : elements d n = elements e n :=
  congrArg List.ofFn (funext fun i => h i i.isLt)

theorem elements_succ (d : Nat → α) (n : Nat) : elements d (n + 1) = elements d n ++ [d n] := by
  simp only [elements]
  rw [List.ofFn_succ_last]
  rfl

theorem elements_swap_perm (d : Nat → α) {n i j : Nat} (hi : i < n) (hj : j < n) :
    (elements (swap d i j) n).Perm (elements d n) := by
  have composed : elements (swap d i j) n =
      List.ofFn ((fun k : Fin n => d k) ∘ Equiv.swap ⟨i, hi⟩ ⟨j, hj⟩) := by
    refine congrArg List.ofFn (funext fun k => ?_)
    simp only [swap, Function.comp_apply, Equiv.swap_apply_def, Fin.ext_iff]
    split
    · rfl
    · split <;> rfl
  rw [composed]
  exact Equiv.Perm.ofFn_comp_perm _ _

/-- Overwriting position `i` by the last element and dropping the last position removes `d i`. -/
theorem elements_replace_perm (d : Nat → α) {n i : Nat} (hi : i ≤ n) :
    (d i :: elements (Function.update d i (d n)) n).Perm (elements d (n + 1)) := by
  rcases Nat.lt_or_eq_of_le hi with hlt | rfl
  · have swapped : elements (Function.update d i (d n)) n = elements (swap d i n) n := by
      refine elements_congr fun k hk => ?_
      by_cases hki : k = i
      · subst hki; simp
      · rw [Function.update_of_ne hki, swap_other d hki (by omega)]
    have := elements_swap_perm d (n := n + 1) (i := i) (j := n) (by omega) (by omega)
    rw [elements_succ, swap_right, ← swapped] at this
    exact (List.perm_append_singleton _ _).symm.trans this
  · have same : elements (Function.update d i (d i)) i = elements d i :=
      elements_congr fun k hk => Function.update_of_ne (by omega) _ _
    rw [same, elements_succ]
    exact (List.perm_append_singleton _ _).symm

variable {r}

theorem not_before_trans [IsStrictWeakOrder α r] {a b c : α} (hab : ¬ r a b) (hbc : ¬ r b c) : ¬ r a c := by
  intro hac
  -- Were `b` level with both or on one side of one of them, transitivity would order the other pair.
  by_cases hba : r b a
  · exact hbc (IsTrans.trans _ _ _ hba hac)
  by_cases hcb : r c b
  · exact hab (IsTrans.trans _ _ _ hac hcb)
  exact (IsStrictWeakOrder.incomp_trans a b c ⟨hab, hba⟩ ⟨hbc, hcb⟩).1 hac

theorem before_asymm [IsStrictWeakOrder α r] {a b : α} (h : r a b) : ¬ r b a := asymm h

namespace Ordered

theorem root_least [IsStrictWeakOrder α r] {d : Nat → α} {n : Nat} (h : Ordered r d n) :
    ∀ i < n, ¬ r (d i) (d 0) := by
  intro i
  induction i using Nat.strong_induction_on with
  | _ i ih =>
    intro hi
    rcases Nat.eq_zero_or_pos i with rfl | hpos
    · exact irrefl _
    · have hp := parent_lt hpos
      exact not_before_trans (h i hpos hi) (ih _ hp (by omega))

theorem mono {d : Nat → α} {m n : Nat} (h : Ordered r d n) (hmn : m ≤ n) : Ordered r d m :=
  fun i hpos hi => h i hpos (by omega)

theorem hole [IsStrictWeakOrder α r] {d : Nat → α} {n i : Nat} (h : Ordered r d n) (hi : i < n) :
    Hole r d n i where
  rest j hpos hj _ _ := h j hpos hj
  grand hpos c hc hcn hpc := by
    have below := h c hc hcn
    rw [hpc] at below
    exact not_before_trans below (h i hpos hi)

/-- An element put behind the last position leaves only its own pair open. -/
theorem push {d : Nat → α} {n : Nat} (h : Ordered r d n) (x : α) :
    UpHole r (Function.update d n x) (n + 1) n where
  rest i hpos hi hne _ := by
    have hp := parent_lt hpos
    rw [Function.update_of_ne hne, Function.update_of_ne (by omega)]
    exact h i hpos (by omega)
  grand hpos c hc hcn hpc := by have := parent_lt hc; omega
  below c hc hcn hpc := by have := parent_lt hc; omega

/-- An element written over position `i` leaves only the pairs of `i` open. -/
theorem overwrite [IsStrictWeakOrder α r] {d : Nat → α} {n i : Nat} (h : Ordered r d n) (hi : i < n)
    (x : α) : Hole r (Function.update d i x) n i where
  rest j hpos hj hji hne := by
    rw [Function.update_of_ne hne, Function.update_of_ne hji]
    exact h j hpos hj
  grand hpos c hc hcn hpc := by
    have hp := parent_lt hpos
    have hlt := parent_lt hc
    rw [Function.update_of_ne (by omega), Function.update_of_ne (by omega)]
    exact (h.hole hi).grand hpos c hc hcn hpc

end Ordered

theorem UpHole.finish {d : Nat → α} {n i : Nat} (h : UpHole r d n i)
    (above : 0 < i → ¬ r (d i) (d (parent i))) : Ordered r d n := by
  intro j hpos hj
  by_cases hji : j = i
  · subst hji; exact above hpos
  by_cases hpi : parent j = i
  · rw [hpi]; exact h.below j hpos hj hpi
  · exact h.rest j hpos hj hji hpi

theorem DownHole.finish {d : Nat → α} {n i : Nat} (h : DownHole r d n i)
    (below : ∀ c, 0 < c → c < n → parent c = i → ¬ r (d c) (d i)) : Ordered r d n :=
  UpHole.finish ⟨h.toHole, below⟩ h.above

namespace Hole

/-- One step towards the root. -/
theorem up [IsStrictWeakOrder α r] {d : Nat → α} {n i : Nat} (h : Hole r d n i) (hpos : 0 < i)
    (hi : i < n) (before : r (d i) (d (parent i))) :
    UpHole r (swap d i (parent i)) n (parent i) := by
  have hp := parent_lt hpos
  -- The element that came down is level with or before every sibling it used to stand above.
  have sibling : ∀ j, 0 < j → j < n → j ≠ i → parent j = parent i → ¬ r (d j) (d (parent i)) := by
    intro j hj hjn hji hpp
    have := h.rest j hj hjn hji (by omega)
    rwa [hpp] at this
  refine ⟨⟨?_, ?_⟩, ?_⟩
  · intro j hj hjn hne hpne
    by_cases hji : j = i
    · exact absurd (congrArg parent hji) hpne
    rw [swap_other d hji hne]
    by_cases hpi : parent j = i
    · rw [hpi, swap_left]; exact h.grand hpos j hj hjn hpi
    · rw [swap_other d hpi hpne]; exact h.rest j hj hjn hji hpi
  · intro hpp c hc hcn hpc
    have hppp := parent_lt hpp
    rw [swap_other d (i := i) (j := parent i) (k := parent (parent i)) (by omega) (by omega)]
    have upper := h.rest (parent i) hpp (by omega) (by omega) (by omega)
    by_cases hci : c = i
    · subst hci; rw [swap_left]; exact upper
    · have := parent_lt hc
      rw [swap_other d hci (by omega)]
      exact not_before_trans (sibling c hc hcn hci hpc) upper
  · intro c hc hcn hpc
    rw [swap_right]
    by_cases hci : c = i
    · subst hci; rw [swap_left]; exact before_asymm before
    · have := parent_lt hc
      rw [swap_other d hci (by omega)]
      exact not_before_trans (sibling c hc hcn hci hpc) (before_asymm before)

/-- One step away from the root, to a child `c` that its sibling is not before. -/
theorem down [IsStrictWeakOrder α r] {d : Nat → α} {n i c : Nat} (h : Hole r d n i) (hc : 0 < c)
    (hcn : c < n) (hpc : parent c = i) (before : r (d c) (d i))
    (least : ∀ b, 0 < b → b < n → parent b = i → ¬ r (d b) (d c)) :
    DownHole r (swap d c i) n c := by
  have hlt : i < c := hpc ▸ parent_lt hc
  refine ⟨⟨?_, ?_⟩, ?_⟩
  · intro j hj hjn hjc hne
    have hpj := parent_lt hj
    by_cases hpi : parent j = i
    · rw [hpi, swap_right, swap_other d hjc (by omega)]; exact least j hj hjn hpi
    · rw [swap_other d (k := parent j) hne hpi]
      by_cases hji : j = i
      · subst hji; rw [swap_right]; exact h.grand hj c hc hcn hpc
      · rw [swap_other d hjc hji]; exact h.rest j hj hjn hji hpi
  · intro _ b hb hbn hpb
    have hbc : c < b := hpb ▸ parent_lt hb
    rw [hpc, swap_right, swap_other d (by omega) (by omega)]
    have below := h.rest b hb hbn (by omega) (by omega)
    rwa [hpb] at below
  · intro _
    rw [hpc, swap_left, swap_right]
    exact before_asymm before

end Hole
end Theory.HeapOrder
