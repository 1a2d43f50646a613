import BradypOS.Pages.Conservation

/-!
# First fit

The allocator as a function of the list of free blocks. What `linked_list_alloc_pages` and
`linked_list_free_pages` do to the nodes in the free pages is what `firstFit` and `::` do to that list.
-/

namespace BradypOS.Pages

open Theory (Run)

/-- The base of the first block with at least `numPages` pages, and the list without the pages taken from it. -/
def firstFit : List Block → Nat → Option (Nat × List Block)
  | [], _ => none
  | b :: free, numPages =>
    if b.pages = numPages then some (b.base, free)
    else if numPages < b.pages then some (b.base, ⟨b.base + pageSize * numPages, b.pages - numPages⟩ :: free)
    else (firstFit free numPages).map fun r => (r.1, b :: r.2)

theorem firstFit_cons_fits {b : Block} {numPages : Nat} (free : List Block) (fits : numPages ≤ b.pages) :
    firstFit (b :: free) numPages = some (b.base, b.remainder numPages ++ free) := by
  unfold firstFit Block.remainder
  rcases Nat.eq_or_lt_of_le fits with exact_ | more
  · simp [exact_]
  · have other : b.pages ≠ numPages := by omega
    simp [other, more]

theorem firstFit_cons_small {b : Block} {numPages : Nat} (free : List Block) (small : b.pages < numPages) :
    firstFit (b :: free) numPages = (firstFit free numPages).map fun r => (r.1, b :: r.2) := by
  have other : b.pages ≠ numPages := by omega
  have less : ¬ numPages < b.pages := by omega
  rw [firstFit, if_neg other, if_neg less]

theorem firstFit_eq_none_iff {free : List Block} {numPages : Nat} :
    firstFit free numPages = none ↔ ∀ b ∈ free, b.pages < numPages := by
  induction free with
  | nil => simp [firstFit]
  | cons b free ih =>
    by_cases small : b.pages < numPages
    · simp [firstFit_cons_small free small, ih, small]
    · simp [firstFit_cons_fits free (Nat.le_of_not_lt small), small]

theorem firstFit_append {pre : List Block} {b : Block} {numPages : Nat} (post : List Block)
    (small : ∀ c ∈ pre, c.pages < numPages) (fits : numPages ≤ b.pages) :
    firstFit (pre ++ b :: post) numPages = some (b.base, pre ++ (b.remainder numPages ++ post)) := by
  induction pre with
  | nil => exact firstFit_cons_fits post fits
  | cons c pre ih =>
    rw [List.cons_append, firstFit_cons_small _ (small c (by simp)), ih fun d member => small d (by simp [member])]
    rfl

theorem FreeList.unique {a : Allocator} {free free' : List Block} (h : FreeList a free) (h' : FreeList a free') :
    free' = free := by
  have bases := h'.chain.unique h.chain
  have record : ∀ {bs : List Block}, FreeList a bs → bs = (bs.map Block.base).map fun p => ⟨p, a.memory.numPages p⟩ := by
    intro bs listed
    rw [List.map_map]
    conv_lhs => rw [← List.map_id bs]
    apply List.map_congr_left
    intro b member
    simp only [id_eq, Function.comp_apply, listed.size b member]
  rw [record h', record h, bases]

section
variable {start count : Nat} {l : Ledger} {free : List Block}

theorem Conserved.alloc_refines (h : Conserved start count l free) (pool : 0 < start ∧ start + pageSize * count ≤ 2 ^ 32)
    {numPages : Nat} (positive : 0 < numPages) :
    ∃ fuel base a, linkedListAllocPages fuel l.allocator numPages = some (base, a) ∧
      (base = 0 ↔ ∀ b ∈ free, b.pages < numPages) ∧ (base = 0 → a = l.allocator) ∧
      (base ≠ 0 → ∃ free', firstFit free numPages = some (base, free') ∧ FreeList a free') := by
  obtain ⟨pre, post, rfl, small, stop⟩ := first_fit free numPages
  cases post with
  | nil =>
    have all : ∀ b ∈ pre ++ [], b.pages < numPages := by simpa using small
    exact ⟨_, 0, l.allocator, alloc_none h.listed.toFreeList all, by simpa using small, fun _ => rfl, fun live => absurd rfl live⟩
  | cons b post =>
    have fits : numPages ≤ b.pages := stop b rfl
    have found := firstFit_append post small fits
    obtain ⟨live, a, got, kept⟩ := h.alloc_first pool small fits positive
    have large : ¬ ∀ c ∈ pre ++ b :: post, c.pages < numPages := by
      rw [← firstFit_eq_none_iff, found]
      exact Option.some_ne_none _
    refine ⟨_, b.base, a, got, ?_, fun zero => absurd zero (by omega), fun _ => ?_⟩
    · constructor
      · intro zero
        omega
      · intro all
        exact absurd all large
    · exact ⟨_, found, kept.listed.toFreeList⟩

theorem free_frame (a : Allocator) (b : Block) {address : Nat}
    (outside : address ≠ b.base ∧ address ≠ b.base + 4 ∧ address ≠ b.base + 8) :
    (linkedListFreePages a b.base b.pages).memory address = a.memory address := by
  simp only [linkedListFreePages, Memory.setNext, Memory.setPrev, Memory.setNumPages]
  rw [Function.update_of_ne outside.2.1, Function.update_of_ne outside.2.2, Function.update_of_ne outside.1]

/-- In every reachable state there is one list of free blocks; an allocation is `firstFit` on it, and a
free puts the block at its front and writes nothing but the header of the block. -/
theorem pages_first_fit {m : Memory} {actions : List Action}
    (pool : 0 < start ∧ start + pageSize * count ≤ 2 ^ 32)
    (run : Run Step ⟨initLinkedListAllocState m start count, []⟩ actions l) :
    ∃ free, (∀ free', FreeList l.allocator free' ↔ free' = free) ∧
      (∀ numPages, 0 < numPages → ∃ fuel base a, linkedListAllocPages fuel l.allocator numPages = some (base, a) ∧
        (base = 0 ↔ ∀ b ∈ free, b.pages < numPages) ∧ (base = 0 → a = l.allocator) ∧
        (base ≠ 0 → ∃ free', firstFit free numPages = some (base, free') ∧ FreeList a free')) ∧
      ∀ b ∈ l.handed, FreeList (linkedListFreePages l.allocator b.base b.pages) (b :: free) ∧
        (linkedListFreePages l.allocator b.base b.pages).state = { l.allocator.state with firstFreeItem := b.base } ∧
        ∀ address, address ≠ b.base ∧ address ≠ b.base + 4 ∧ address ≠ b.base + 8 →
          (linkedListFreePages l.allocator b.base b.pages).memory address = l.allocator.memory address := by
  obtain ⟨free, h⟩ := run_conserved pool run
  refine ⟨free, fun free' => ⟨h.listed.toFreeList.unique, ?_⟩, fun numPages positive => h.alloc_refines pool positive, ?_⟩
  · intro same
    rw [same]
    exact h.listed.toFreeList
  · intro b held
    exact ⟨(h.freed pool.1 held).listed.toFreeList, rfl, fun address => free_frame l.allocator b⟩

end

/-- The first page is given back in front of three others: a request for two pages passes it over. -/
theorem pages_first_fit_skips : ∃ l free fuel base a, l.handed = [⟨1024, 1⟩] ∧
    Run Step ⟨initLinkedListAllocState (fun _ => 0) 512 5, []⟩ [.alloc 1, .alloc 1, .free ⟨512, 1⟩] l ∧
    FreeList l.allocator free ∧ linkedListAllocPages fuel l.allocator 2 = some (base, a) ∧
    (base ≠ 0 → ∃ free', firstFit free 2 = some (base, free') ∧ FreeList a free') := by
  have run : ∃ l, l.handed = [⟨1024, 1⟩] ∧
      Run Step ⟨initLinkedListAllocState (fun _ => 0) 512 5, []⟩ [.alloc 1, .alloc 1, .free ⟨512, 1⟩] l := by
    refine ⟨_, ?_, .cons (@Step.alloc _ 2 _ _ _ (by decide) rfl) <| .cons (@Step.alloc _ 2 _ _ _ (by decide) rfl) <|
      .cons (.free (by decide)) (.nil _)⟩
    rfl
  obtain ⟨l, handed, run⟩ := run
  obtain ⟨free, listed, allocated, -⟩ := pages_first_fit (by decide) run
  obtain ⟨fuel, base, a, got, -, -, refines⟩ := allocated 2 (by decide)
  exact ⟨l, free, fuel, base, a, handed, run, (listed free).mpr rfl, got, refines⟩

end BradypOS.Pages
