import Mathlib.Tactic

/-!
# Linked lists in a memory

`Path next p ns q`: following `next` from `p` meets the nodes `ns` and stops at `q`. A `Chain` is a
path that ends at the null address; it is finite by definition and visits no node twice.
-/

namespace Theory

variable {α : Type*}

def Path (next : α → α) : α → List α → α → Prop
  | p, [], q => p = q
  | p, n :: ns, q => p = n ∧ Path next (next n) ns q

structure Chain (next : α → α) (null p : α) (ns : List α) : Prop where
  path : Path next p ns null
  live : null ∉ ns

namespace Path

variable {next next' : α → α} {p q r : α} {ns ms : List α}

@[simp] theorem nil_iff : Path next p [] q ↔ p = q := Iff.rfl

@[simp] theorem cons_iff {n : α} : Path next p (n :: ns) q ↔ p = n ∧ Path next (next n) ns q := Iff.rfl

theorem append_iff : Path next p (ns ++ ms) q ↔ ∃ r, Path next p ns r ∧ Path next r ms q := by
  induction ns generalizing p with
  | nil => simp
  | cons n ns ih => simp only [List.cons_append, cons_iff, ih, and_assoc, exists_and_left]

/-- A path depends on the links of its own nodes only. -/
theorem frame (same : ∀ n ∈ ns, next' n = next n) (h : Path next p ns q) : Path next' p ns q := by
  induction ns generalizing p with
  | nil => exact h
  | cons n ns ih =>
    obtain ⟨rfl, rest⟩ := h
    refine ⟨rfl, ?_⟩
    rw [same p (by simp)]
    exact ih (fun m member => same m (by simp [member])) rest

/-- A path does not leave a set that the links keep to. -/
theorem closed {S : Set α} (keeps : ∀ n ∈ S, next n ∈ S) (start : p ∈ S) (h : Path next p ns q) : q ∈ S := by
  induction ns generalizing p with
  | nil =>
    obtain rfl : p = q := h
    exact start
  | cons n ns ih =>
    obtain ⟨rfl, rest⟩ := h
    exact ih (keeps p start) rest

theorem next_last {c : α} (h : Path next p (ns ++ [c]) q) : next c = q := by
  obtain ⟨_, -, last⟩ := append_iff.mp h
  exact last.2

/-- Where the link of the last node is overwritten, the path ends at the new target. -/
theorem relink [DecidableEq α] {c : α} (h : Path next p (ns ++ [c]) q) (fresh : c ∉ ns) (v : α) :
    Path (Function.update next c v) p (ns ++ [c]) v := by
  obtain ⟨m, front, last⟩ := append_iff.mp h
  obtain ⟨rfl, -⟩ := last
  refine append_iff.mpr ⟨m, front.frame fun n member => ?_, by simp⟩
  have other : n ≠ m := fun same => fresh (same ▸ member)
  simp [other]

end Path

namespace Chain

variable {next next' : α → α} {null p : α} {ns ms : List α}

theorem unique (h : Chain next null p ns) (h' : Chain next null p ms) : ns = ms := by
  induction ns generalizing p ms with
  | nil =>
    cases ms with
    | nil => rfl
    | cons m ms =>
      have stop : p = null := h.path
      have here : p = m := h'.path.1
      exact absurd (by simp [← here, stop]) h'.live
  | cons n ns ih =>
    have here : p = n := h.path.1
    cases ms with
    | nil =>
      have stop : p = null := h'.path
      exact absurd (by simp [← here, stop]) h.live
    | cons m ms =>
      have there : p = m := h'.path.1
      have rest : Chain next null (next n) ns := ⟨h.path.2, fun member => h.live (by simp [member])⟩
      have rest' : Chain next null (next n) ms := by
        refine ⟨?_, fun member => h'.live (by simp [member])⟩
        rw [← here, there]
        exact h'.path.2
      rw [ih rest rest', ← here, there]

theorem tail {n : α} (h : Chain next null p (n :: ns)) : Chain next null (next n) ns :=
  ⟨h.path.2, fun member => h.live (by simp [member])⟩

theorem suffix (h : Chain next null p (ms ++ ns)) : ∃ q, Chain next null q ns := by
  obtain ⟨q, -, rest⟩ := Path.append_iff.mp h.path
  exact ⟨q, rest, fun member => h.live (by simp [member])⟩

/-- A node met twice would start two chains of different lengths. -/
theorem nodup (h : Chain next null p ns) : ns.Nodup := by
  induction ns generalizing p with
  | nil => exact List.nodup_nil
  | cons n ns ih =>
    refine List.nodup_cons.mpr ⟨fun again => ?_, ih h.tail⟩
    obtain ⟨front, back, split⟩ := List.append_of_mem again
    have here : p = n := h.path.1
    subst split
    obtain ⟨q, later⟩ := h.tail.suffix
    have there : q = n := later.path.1
    have same : front ++ n :: back = back := h.tail.unique (there ▸ later.tail)
    have longer := congrArg List.length same
    simp at longer
    omega

theorem frame (same : ∀ n ∈ ns, next' n = next n) (h : Chain next null p ns) : Chain next' null p ns :=
  ⟨h.path.frame same, h.live⟩

theorem insert {c x : α} (h : Chain next null p (ns ++ c :: ms)) (live : x ≠ null) (link : next' c = x)
    (onward : next' x = next c) (same : ∀ n ∈ ns ++ ms, next' n = next n) : Chain next' null p (ns ++ c :: x :: ms) := by
  obtain ⟨q, front, back⟩ := Path.append_iff.mp h.path
  refine ⟨Path.append_iff.mpr ⟨q, front.frame fun n member => same n (by simp [member]), back.1, link, ?_⟩, fun member => ?_⟩
  · rw [onward]
    exact back.2.frame fun n member => same n (by simp [member])
  · apply h.live
    simp only [List.mem_append, List.mem_cons] at member ⊢
    rcases member with early | here | there | late
    · exact .inl early
    · exact .inr (.inl here)
    · exact absurd there.symm live
    · exact .inr (.inr late)

theorem remove {c x : α} (h : Chain next null p (ns ++ c :: x :: ms)) (link : next' c = next x)
    (same : ∀ n ∈ ns ++ ms, next' n = next n) : Chain next' null p (ns ++ c :: ms) := by
  obtain ⟨q, front, back⟩ := Path.append_iff.mp h.path
  refine ⟨Path.append_iff.mpr ⟨q, front.frame fun n member => same n (by simp [member]), back.1, ?_⟩, fun member => ?_⟩
  · rw [link]
    exact back.2.2.frame fun n member => same n (by simp [member])
  · apply h.live
    simp only [List.mem_append, List.mem_cons] at member ⊢
    tauto

theorem last {c : α} (h : Chain next null p (ns ++ c :: ms)) (stop : next c = null) : ms = [] := by
  cases ms with
  | nil => rfl
  | cons m ms =>
    obtain ⟨q, -, back⟩ := Path.append_iff.mp h.path
    have here : next c = m := back.2.1
    exact absurd (by simp [← here, stop]) h.live

end Chain

end Theory
