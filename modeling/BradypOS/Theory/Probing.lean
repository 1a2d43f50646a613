import Mathlib.Logic.Function.Basic
import Mathlib.Tactic

/-!
# Open addressing with tombstones

A table is a function from places to entries; a key is looked for along its own list of places, the
probe sequence. A lookup ends at a free place and goes on behind a tombstone, an insertion takes the
first place that is not in use. The hash function and the order of the probes are arbitrary.
-/

namespace Theory.Probing

inductive Status where
  | free | used | tombstone
  deriving DecidableEq, Repr

/-- What the operations read of an entry. -/
structure View (ε κ : Type*) where
  status : ε → Status
  key : ε → κ

variable {ι ε κ : Type*}

/-- The entry is in use for `k`. -/
def View.Holds (v : View ε κ) (e : ε) (k : κ) : Prop := v.status e = .used ∧ v.key e = k

/-- Every entry in use can be reached: no place before it in the probe sequence of its key is free. -/
def Complete (v : View ε κ) (probe : κ → List ι) (table : ι → ε) : Prop :=
  ∀ i k, v.Holds (table i) k →
    ∃ before after, probe k = before ++ i :: after ∧ ∀ j ∈ before, v.status (table j) ≠ .free

/-- No two places are in use for one key. -/
def Unique (v : View ε κ) (table : ι → ε) : Prop :=
  ∀ i j k, v.Holds (table i) k → v.Holds (table j) k → i = j

/-- No tombstone comes before a place that is in use for `k`. -/
def Clear (v : View ε κ) (table : ι → ε) (k : κ) (probes : List ι) : Prop :=
  ∀ before i after, probes = before ++ i :: after → v.Holds (table i) k → ∀ j ∈ before, v.status (table j) ≠ .tombstone

section Walks
variable [DecidableEq κ] (v : View ε κ)

def lookup (table : ι → ε) (k : κ) : List ι → Option ι
  | [] => none
  | i :: probes =>
    if v.status (table i) = .free then none
    else if v.status (table i) = .tombstone ∨ v.key (table i) ≠ k then lookup table k probes
    else some i

def insertionPoint (table : ι → ε) (k : κ) : List ι → Option ι
  | [] => none
  | i :: probes =>
    if v.status (table i) = .free ∨ v.status (table i) = .tombstone then some i
    else if v.status (table i) = .used ∧ v.key (table i) = k then some i
    else insertionPoint table k probes

end Walks

variable {v : View ε κ} {probe : κ → List ι} {table : ι → ε} {k k' : κ} {probes : List ι} {i j : ι} {e : ε}

theorem used_of (busy : v.status e ≠ .free) (live : v.status e ≠ .tombstone) : v.status e = .used := by
  cases here : v.status e with
  | free => exact absurd here busy
  | used => rfl
  | tombstone => exact absurd here live

theorem View.Holds.key_eq (h : v.Holds e k) (h' : v.Holds e k') : k = k' := h.2.symm.trans h'.2

/-! ### Lookups -/

section Lookup
variable [DecidableEq κ]

theorem lookup_cons (i : ι) (probes : List ι) (busy : v.status (table i) ≠ .free) (other : ¬ v.Holds (table i) k) :
    lookup v table k (i :: probes) = lookup v table k probes := by
  have pass : v.status (table i) = .tombstone ∨ v.key (table i) ≠ k := by
    by_contra stop
    push Not at stop
    exact other ⟨used_of busy stop.1, stop.2⟩
  simp only [lookup, busy, pass, if_false, if_true]

theorem lookup_here (i : ι) (probes : List ι) (here : v.Holds (table i) k) : lookup v table k (i :: probes) = some i := by
  simp [lookup, here.1, here.2]

/-- A lookup finds the first place in use for its key, if no free place comes before it. -/
theorem lookup_eq_some_iff : lookup v table k probes = some i ↔
    ∃ before after, probes = before ++ i :: after ∧ v.Holds (table i) k ∧
      ∀ j ∈ before, v.status (table j) ≠ .free ∧ ¬ v.Holds (table j) k := by
  constructor
  · intro found
    induction probes with
    | nil => cases found
    | cons j probes ih =>
      by_cases free : v.status (table j) = .free
      · simp [lookup, free] at found
      · by_cases here : v.Holds (table j) k
        · rw [lookup_here j probes here] at found
          cases found
          exact ⟨[], probes, rfl, here, by simp⟩
        · rw [lookup_cons j probes free here] at found
          obtain ⟨before, after, rfl, holds, passed⟩ := ih found
          refine ⟨j :: before, after, rfl, holds, ?_⟩
          intro b member
          rcases List.mem_cons.mp member with rfl | later
          · exact ⟨free, here⟩
          · exact passed b later
  · rintro ⟨before, after, rfl, holds, passed⟩
    induction before with
    | nil => exact lookup_here i after holds
    | cons b before ih =>
      obtain ⟨busy, other⟩ := passed b (by simp)
      rw [List.cons_append, lookup_cons b _ busy other]
      exact ih fun j member => passed j (by simp [member])

theorem lookup_holds (found : lookup v table k probes = some i) : v.Holds (table i) k := by
  obtain ⟨_, _, _, holds, _⟩ := lookup_eq_some_iff.mp found
  exact holds

theorem lookup_of_reached {before after : List ι} (busy : ∀ j ∈ before, v.status (table j) ≠ .free) (here : v.Holds (table i) k) :
    ∃ j, lookup v table k (before ++ i :: after) = some j := by
  induction before with
  | nil => exact ⟨i, lookup_here i after here⟩
  | cons b before ih =>
    by_cases first : v.Holds (table b) k
    · exact ⟨b, lookup_here b _ first⟩
    · rw [List.cons_append, lookup_cons b _ (busy b (by simp)) first]
      exact ih fun j member => busy j (by simp [member])

theorem Complete.lookup_iff (h : Complete v probe table) :
    (∃ i, lookup v table k (probe k) = some i) ↔ ∃ i, v.Holds (table i) k := by
  constructor
  · intro ⟨i, found⟩
    exact ⟨i, lookup_holds found⟩
  · intro ⟨i, here⟩
    obtain ⟨before, after, path, busy⟩ := h i k here
    rw [path]
    exact lookup_of_reached busy here

theorem lookup_eq_none (absent : ∀ i, ¬ v.Holds (table i) k) : lookup v table k probes = none := by
  cases found : lookup v table k probes with
  | none => rfl
  | some i => exact absurd (lookup_holds found) (absent i)

end Lookup

/-! ### Insertion points -/

section InsertionPoint
variable [DecidableEq κ]

theorem insertionPoint_spec (found : insertionPoint v table k probes = some i) :
    ∃ before after, probes = before ++ i :: after ∧ (∀ j ∈ before, v.status (table j) = .used ∧ ¬ v.Holds (table j) k) ∧
      (v.status (table i) = .used → v.Holds (table i) k) := by
  induction probes with
  | nil => cases found
  | cons j probes ih =>
    simp only [insertionPoint] at found
    split_ifs at found with vacant here
    · cases found
      refine ⟨[], probes, rfl, by simp, ?_⟩
      intro used
      simp [used] at vacant
    · cases found
      exact ⟨[], probes, rfl, by simp, fun _ => here⟩
    · obtain ⟨before, after, rfl, passed, last⟩ := ih found
      push Not at vacant
      refine ⟨j :: before, after, rfl, ?_, last⟩
      intro b member
      rcases List.mem_cons.mp member with rfl | later
      · exact ⟨used_of vacant.1 vacant.2, here⟩
      · exact passed b later

/-- Where no tombstone comes first, the insertion point of a key in use is in use for it. -/
theorem Complete.insertionPoint_of_clear (h : Complete v probe table) (clear : Clear v table k (probe k))
    (here : v.Holds (table i) k) : ∃ j, insertionPoint v table k (probe k) = some j ∧ v.Holds (table j) k := by
  obtain ⟨before, after, path, busy⟩ := h i k here
  have used : ∀ j ∈ before, v.status (table j) = .used := fun j member =>
    used_of (busy j member) (clear before i after path here j member)
  rw [path]
  clear path busy
  induction before with
  | nil =>
    refine ⟨i, ?_, here⟩
    simp [insertionPoint, here.1, here.2]
  | cons b before ih =>
    have first := used b (by simp)
    by_cases same : v.key (table b) = k
    · refine ⟨b, ?_, first, same⟩
      simp [insertionPoint, first, same]
    · obtain ⟨j, found, holds⟩ := ih fun j member => used j (by simp [member])
      refine ⟨j, ?_, holds⟩
      simpa [insertionPoint, first, same] using found

/-- A key that no place is in use for is put where none is in use, if its probe sequence comes to such a place. -/
theorem insertionPoint_vacant (absent : ∀ i, ¬ v.Holds (table i) k) (vacant : ∃ i ∈ probes, v.status (table i) ≠ .used) :
    ∃ i, insertionPoint v table k probes = some i ∧ v.status (table i) ≠ .used := by
  induction probes with
  | nil =>
    obtain ⟨i, member, -⟩ := vacant
    cases member
  | cons j probes ih =>
    by_cases used : v.status (table j) = .used
    · have other : ¬ (v.status (table j) = .used ∧ v.key (table j) = k) := absent j
      have rest : ∃ i ∈ probes, v.status (table i) ≠ .used := by
        obtain ⟨i, member, idle⟩ := vacant
        rcases List.mem_cons.mp member with rfl | later
        · exact absurd used idle
        · exact ⟨i, later, idle⟩
      obtain ⟨i, found, idle⟩ := ih rest
      refine ⟨i, ?_, idle⟩
      rw [insertionPoint, if_neg (by simp [used]), if_neg other]
      exact found
    · refine ⟨j, ?_, used⟩
      have first : v.status (table j) = .free ∨ v.status (table j) = .tombstone := by
        by_contra neither
        push Not at neither
        exact used (used_of neither.1 neither.2)
      rw [insertionPoint, if_pos first]

end InsertionPoint

/-! ### Updates -/

section Update
variable [DecidableEq ι]

theorem holds_update_same : v.Holds (Function.update table i e i) k ↔ v.Holds e k := by rw [Function.update_self]

theorem holds_update_other (other : j ≠ i) : v.Holds (Function.update table i e j) k ↔ v.Holds (table j) k := by
  rw [Function.update_of_ne other]

theorem busy_update (busy : v.status e ≠ .free) (before : v.status (table j) ≠ .free) :
    v.status (Function.update table i e j) ≠ .free := by
  by_cases here : j = i
  · rw [here, Function.update_self]
    exact busy
  · rw [Function.update_of_ne here]
    exact before

/-- Places never become free, and an entry in use is put where it is reached. -/
theorem Complete.update (h : Complete v probe table) (busy : v.status e ≠ .free)
    (reached : ∀ k, v.Holds e k → ∃ before after, probe k = before ++ i :: after ∧ ∀ j ∈ before, v.status (table j) ≠ .free) :
    Complete v probe (Function.update table i e) := by
  intro j k holds
  by_cases here : j = i
  · subst here
    obtain ⟨before, after, path, passed⟩ := reached k (holds_update_same.mp holds)
    exact ⟨before, after, path, fun b member => busy_update busy (passed b member)⟩
  · obtain ⟨before, after, path, passed⟩ := h j k ((holds_update_other here).mp holds)
    exact ⟨before, after, path, fun b member => busy_update busy (passed b member)⟩

theorem Complete.insert [DecidableEq κ] (h : Complete v probe table) (found : insertionPoint v table k (probe k) = some i)
    (holds : v.Holds e k) : Complete v probe (Function.update table i e) := by
  apply h.update (by simp [holds.1])
  intro k' also
  obtain rfl := holds.key_eq also
  obtain ⟨before, after, path, passed, _⟩ := insertionPoint_spec found
  refine ⟨before, after, path, fun j member => ?_⟩
  simp [(passed j member).1]

theorem Complete.delete (h : Complete v probe table) (gone : v.status e = .tombstone) :
    Complete v probe (Function.update table i e) := by
  apply h.update (by simp [gone])
  intro k holds
  rw [holds.1] at gone
  cases gone

/-- A change at a place that neither is nor becomes an entry for `k` is not seen by lookups of `k`. -/
theorem Complete.lookup_update [DecidableEq κ] (h : Complete v probe table) (busy : v.status e ≠ .free)
    (before : ¬ v.Holds (table i) k) (after : ¬ v.Holds e k) :
    lookup v (Function.update table i e) k (probe k) = lookup v table k (probe k) := by
  cases found : lookup v table k (probe k) with
  | some j =>
    obtain ⟨front, back, path, holds, passed⟩ := lookup_eq_some_iff.mp found
    have other : j ≠ i := by
      rintro rfl
      exact before holds
    refine lookup_eq_some_iff.mpr ⟨front, back, path, (holds_update_other other).mpr holds, fun b member => ?_⟩
    obtain ⟨walked, different⟩ := passed b member
    refine ⟨busy_update busy walked, ?_⟩
    by_cases here : b = i
    · rw [here, holds_update_same]
      exact after
    · rw [holds_update_other here]
      exact different
  | none =>
    have absent : ∀ j, ¬ v.Holds (table j) k := by
      intro j holds
      obtain ⟨b, reached⟩ := h.lookup_iff.mpr ⟨j, holds⟩
      rw [found] at reached
      cases reached
    apply lookup_eq_none
    intro j holds
    by_cases here : j = i
    · rw [here, holds_update_same] at holds
      exact after holds
    · exact absent j ((holds_update_other here).mp holds)

theorem Complete.lookup_insert [DecidableEq κ] (h : Complete v probe table) (absent : ∀ j, ¬ v.Holds (table j) k)
    (found : insertionPoint v table k (probe k) = some i) (holds : v.Holds e k) :
    lookup v (Function.update table i e) k (probe k) = some i := by
  obtain ⟨j, reached⟩ := (h.insert found holds).lookup_iff.mpr ⟨i, holds_update_same.mpr holds⟩
  by_cases here : j = i
  · rw [reached, here]
  · exact absurd ((holds_update_other here).mp (lookup_holds reached)) (absent j)

theorem lookup_delete [DecidableEq κ] (alone : ∀ j, v.Holds (table j) k → j = i) (gone : v.status e ≠ .used) :
    lookup v (Function.update table i e) k probes = none := by
  apply lookup_eq_none
  intro j holds
  by_cases here : j = i
  · rw [here, holds_update_same] at holds
    exact gone holds.1
  · exact here (alone j ((holds_update_other here).mp holds))

theorem Unique.insert (h : Unique v table) (fresh : ∀ j, ¬ v.Holds (table j) k) (holds : v.Holds e k) :
    Unique v (Function.update table i e) := by
  intro a b k' first second
  by_cases here : a = i
  · rw [here, holds_update_same] at first
    obtain rfl := holds.key_eq first
    by_cases there : b = i
    · rw [here, there]
    · exact absurd ((holds_update_other there).mp second) (fresh b)
  · rw [holds_update_other here] at first
    by_cases there : b = i
    · rw [there, holds_update_same] at second
      obtain rfl := holds.key_eq second
      exact absurd first (fresh a)
    · exact h a b k' first ((holds_update_other there).mp second)

theorem Unique.delete (h : Unique v table) (gone : v.status e ≠ .used) : Unique v (Function.update table i e) := by
  have kept : ∀ a k, v.Holds (Function.update table i e a) k → v.Holds (table a) k := by
    intro a k holds
    by_cases here : a = i
    · rw [here, holds_update_same] at holds
      exact absurd holds.1 gone
    · exact (holds_update_other here).mp holds
  exact fun a b k first second => h a b k (kept a k first) (kept b k second)

end Update

end Theory.Probing
