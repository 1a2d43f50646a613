import Mathlib.Tactic

/-!
# Terminated strings

A string in memory ends at its first terminator. `Terminated nul s name`: `name` is what the string `s`
has before it.
-/

namespace Theory

variable {α : Type*} {nul : α} {s : Nat → α} {name other : List α}

structure Terminated (nul : α) (s : Nat → α) (name : List α) : Prop where
  chars : name = (List.range name.length).map s
  inner : nul ∉ name
  stop : s name.length = nul

namespace Terminated

theorem before (h : Terminated nul s name) {i : Nat} (early : i < name.length) : s i ≠ nul := by
  intro ends
  apply h.inner
  rw [h.chars, ← ends]
  exact List.mem_map_of_mem (List.mem_range.mpr early)

theorem length_le (h : Terminated nul s name) (h' : Terminated nul s other) : name.length ≤ other.length := by
  by_contra longer
  exact h.before (Nat.lt_of_not_le longer) h'.stop

theorem unique (h : Terminated nul s name) (h' : Terminated nul s other) : name = other := by
  rw [h.chars, h'.chars, Nat.le_antisymm (h.length_le h') (h'.length_le h)]

theorem nil_iff : Terminated nul s [] ↔ s 0 = nul :=
  ⟨fun h => h.stop, fun ends => ⟨rfl, List.not_mem_nil, ends⟩⟩

theorem cons_iff {c : α} : Terminated nul s (c :: name) ↔ s 0 = c ∧ c ≠ nul ∧ Terminated nul (fun i => s (i + 1)) name := by
  have split : (List.range (c :: name).length).map s = s 0 :: (List.range name.length).map fun i => s (i + 1) := by
    rw [List.length_cons, List.range_succ_eq_map, List.map_cons, List.map_map]
    rfl
  constructor
  · intro h
    have chars := h.chars
    rw [split] at chars
    obtain ⟨head, tail⟩ := List.cons.inj chars
    have inner := h.inner
    rw [List.mem_cons, not_or] at inner
    exact ⟨head.symm, Ne.symm inner.1, tail, inner.2, h.stop⟩
  · rintro ⟨rfl, live, h⟩
    refine ⟨?_, ?_, h.stop⟩
    · rw [split, ← h.chars]
    · rw [List.mem_cons, not_or]
      exact ⟨live.symm, h.inner⟩

/-- Bytes that are followed by a terminator, or have one among them, are cut at the first one. -/
theorem takeWhile [DecidableEq α] {n : Nat} (ends : ∃ i ≤ n, s i = nul) :
    Terminated nul s (((List.range n).map s).takeWhile (· ≠ nul)) := by
  have some_ : ∃ i, s i = nul := ends.imp fun _ h => h.2
  have first := Nat.find_spec some_
  obtain ⟨i, within, here⟩ := ends
  obtain ⟨k, rfl⟩ := Nat.exists_eq_add_of_le ((Nat.find_min' some_ here).trans within)
  have inner : ∀ c ∈ (List.range (Nat.find some_)).map s, c ≠ nul := by
    intro c member
    obtain ⟨j, early, rfl⟩ := List.mem_map.mp member
    exact Nat.find_min some_ (List.mem_range.mp early)
  have cut : ((List.range (Nat.find some_ + k)).map s).takeWhile (· ≠ nul) = (List.range (Nat.find some_)).map s := by
    rw [List.range_add, List.map_append, List.map_map, List.takeWhile_append_of_pos]
    · cases k with
      | zero => simp
      | succ k => simp [List.range_succ_eq_map, first]
    · intro c member
      simpa using inner c member
  rw [cut]
  refine ⟨?_, fun member => inner nul member rfl, ?_⟩
  · rw [List.length_map, List.length_range]
  · rw [List.length_map, List.length_range]
    exact first

end Terminated

/-- `cmp` compares a string with a list, character by character, and stops at the first difference. -/
structure Compares (nul : α) (cmp : (Nat → α) → List α → Int) : Prop where
  nil : ∀ s, cmp s [] = 0 ↔ s 0 = nul
  agree : ∀ s c rest, s 0 = c → c ≠ nul → cmp s (c :: rest) = cmp (fun i => s (i + 1)) rest
  differ : ∀ s c rest, s 0 ≠ c → cmp s (c :: rest) ≠ 0

/-- Such a comparison finds no difference exactly where the string has the list before its terminator. -/
theorem Compares.eq_zero_iff {cmp : (Nat → α) → List α → Int} (h : Compares nul cmp) (inner : nul ∉ name) :
    cmp s name = 0 ↔ Terminated nul s name := by
  induction name generalizing s with
  | nil => rw [Terminated.nil_iff, h.nil]
  | cons c rest ih =>
    rw [List.mem_cons, not_or] at inner
    rw [Terminated.cons_iff]
    by_cases same : s 0 = c
    · have live : c ≠ nul := Ne.symm inner.1
      rw [h.agree s c rest same live, ih inner.2]
      exact ⟨fun later => ⟨same, live, later⟩, fun h => h.2.2⟩
    · exact ⟨fun zero => absurd zero (h.differ s c rest same), fun h => absurd h.1 same⟩

end Theory
