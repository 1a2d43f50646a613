import Mathlib.Tactic

/-!
# Changes to separate places

A change is local to a region if it leaves everything else alone and what it makes of the region depends on
the region only. Of changes to regions that are apart none sees another one, so that their order does not matter.
-/

namespace Theory

variable {ι α β : Type*}

structure LocalTo (region : Set α) (change : (α → β) → α → β) : Prop where
  frame : ∀ m a, a ∉ region → change m a = m a
  reads : ∀ m m', Set.EqOn m m' region → Set.EqOn (change m) (change m') region

/-- The changes of a list, one after another. -/
def changed (change : ι → (α → β) → α → β) (m : α → β) (is : List ι) : α → β := is.foldl (fun m i => change i m) m

/-- Two regions have no place in common. -/
def Apart (s t : Set α) : Prop := ∀ a ∈ s, a ∉ t

theorem Apart.symm {s t : Set α} (h : Apart s t) : Apart t s := fun a inT inS => h a inS inT

/-- The changes of a list, each local to its own region, which no other one has a part of. -/
structure Separate (region : ι → Set α) (change : ι → (α → β) → α → β) (is : List ι) : Prop where
  localTo : ∀ i ∈ is, LocalTo (region i) (change i)
  apart : is.Pairwise fun i j => Apart (region i) (region j)

section

variable {region : ι → Set α} {change : ι → (α → β) → α → β} {is js : List ι} {i : ι} {m m' : α → β} {a : α}

theorem changed_concat (m : α → β) (is : List ι) (i : ι) : changed change m (is ++ [i]) = change i (changed change m is) :=
  List.foldl_concat _ _ _ _

theorem Separate.tail (h : Separate region change (i :: is)) : Separate region change is :=
  ⟨fun j member => h.localTo j (List.mem_cons_of_mem _ member), h.apart.tail⟩

theorem Separate.perm (h : Separate region change is) (perm : is.Perm js) : Separate region change js :=
  ⟨fun j member => h.localTo j (perm.mem_iff.mpr member), (perm.pairwise_iff fun apart => apart.symm).mp h.apart⟩

theorem changed_outside (h : Separate region change is) (outside : ∀ i ∈ is, a ∉ region i) : changed change m is a = m a := by
  induction is generalizing m with
  | nil => rfl
  | cons i is ih =>
    obtain ⟨here, rest⟩ := List.forall_mem_cons.mp outside
    calc changed change m (i :: is) a = changed change (change i m) is a := rfl
      _ = change i m a := ih h.tail rest
      _ = m a := (h.localTo i List.mem_cons_self).frame m a here

/-- A region comes out as its own change makes it from the start. -/
theorem changed_inside (h : Separate region change is) (member : i ∈ is) (inside : a ∈ region i) :
    changed change m is a = change i m a := by
  induction is generalizing m with
  | nil => cases member
  | cons j is ih =>
    obtain ⟨others, _⟩ := List.pairwise_cons.mp h.apart
    rcases List.mem_cons.mp member with rfl | later
    · exact changed_outside h.tail fun k after inOther => others k after a inside inOther
    · have same : Set.EqOn (change j m) m (region i) := fun b inRegion =>
        (h.localTo j List.mem_cons_self).frame m b ((others i later).symm b inRegion)
      calc changed change m (j :: is) a = changed change (change j m) is a := rfl
        _ = change i (change j m) a := ih h.tail later
        _ = change i m a := (h.localTo i member).reads _ _ same inside

/-- What the changes make of two beginnings differs where these do, outside the regions. -/
theorem changed_perm (h : Separate region change is) (perm : is.Perm js) (same : m a = m' a)
    (inside : ∀ i ∈ is, a ∈ region i → Set.EqOn m m' (region i)) : changed change m is a = changed change m' js a := by
  by_cases touched : ∃ i ∈ is, a ∈ region i
  · obtain ⟨i, member, here⟩ := touched
    rw [changed_inside h member here, changed_inside (h.perm perm) (perm.mem_iff.mp member) here]
    exact (h.localTo i member).reads _ _ (inside i member here) here
  · push Not at touched
    rw [changed_outside h touched, changed_outside (h.perm perm) fun i member => touched i (perm.mem_iff.mpr member)]
    exact same

end

end Theory
