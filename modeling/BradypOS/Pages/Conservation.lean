import BradypOS.Theory.Transition
import BradypOS.Pages.FreeList

/-!
# Conservation of pages

The blocks a client holds and the blocks on the free list tile the pool, after every sequence of
allocations, frees and writes to held blocks.
-/

namespace BradypOS.Pages

open Theory (Run)

namespace Block

/-- Two blocks share neither a page nor a header. -/
def Apart (b c : Block) : Prop := b.base ≠ c.base ∧ (b.limit ≤ c.base ∨ c.limit ≤ b.base)

theorem Apart.symm {b c : Block} (h : b.Apart c) : c.Apart b := ⟨h.1.symm, h.2.symm⟩

end Block

/-- The blocks are pages of the pool, pairwise apart, and together as many as the pool has. -/
structure Tiling (start count : Nat) (blocks : List Block) : Prop where
  apart : blocks.Pairwise Block.Apart
  low : ∀ b ∈ blocks, start ≤ b.base
  high : ∀ b ∈ blocks, b.limit ≤ start + pageSize * count
  aligned : ∀ b ∈ blocks, SamePage start b.base
  total : (blocks.map Block.pages).sum = count

namespace Tiling

variable {start count : Nat} {blocks blocks' : List Block} {b : Block}

theorem perm (h : Tiling start count blocks) (p : blocks.Perm blocks') : Tiling start count blocks' where
  apart := (p.pairwise_iff fun h => h.symm).mp h.apart
  low b member := h.low b (p.mem_iff.mpr member)
  high b member := h.high b (p.mem_iff.mpr member)
  aligned b member := h.aligned b (p.mem_iff.mpr member)
  total := by rw [← (p.map Block.pages).sum_eq]; exact h.total

theorem cut {numPages : Nat} (h : Tiling start count (b :: blocks)) (positive : 0 < numPages) (fits : numPages ≤ b.pages) :
    Tiling start count (⟨b.base, numPages⟩ :: (b.remainder numPages ++ blocks)) := by
  unfold Block.remainder
  split
  · rename_i more
    have low := h.low b (by simp)
    have high := h.high b (by simp)
    have aligned := h.aligned b (by simp)
    have total := h.total
    obtain ⟨first, others⟩ := List.pairwise_cons.mp h.apart
    unfold SamePage pageSize at aligned
    unfold Block.limit pageSize at high
    have front : ∀ c ∈ blocks, Block.Apart ⟨b.base, numPages⟩ c ∧
        Block.Apart ⟨b.base + pageSize * numPages, b.pages - numPages⟩ c := by
      intro c member
      have ⟨different, order⟩ := first c member
      unfold Block.limit pageSize at order
      constructor
      · refine ⟨different, ?_⟩
        simp only [Block.limit, pageSize]
        omega
      · constructor
        · simp only [pageSize]
          omega
        · simp only [Block.limit, pageSize]
          omega
    constructor
    · refine List.pairwise_cons.mpr ⟨fun c member => ?_, List.pairwise_cons.mpr ⟨fun c member => (front c member).2, others⟩⟩
      rcases List.mem_cons.mp member with rfl | old
      · constructor
        · simp only [pageSize]
          omega
        · simp only [Block.limit, pageSize]
          omega
      · exact (front c old).1
    · intro c member
      simp only [List.singleton_append, List.mem_cons] at member
      rcases member with rfl | rfl | old
      · exact low
      · exact Nat.le_trans low (Nat.le_add_right _ _)
      · exact h.low c (by simp [old])
    · intro c member
      simp only [List.singleton_append, List.mem_cons] at member
      rcases member with rfl | rfl | old
      · simp only [Block.limit, pageSize]
        omega
      · simp only [Block.limit, pageSize]
        omega
      · exact h.high c (by simp [old])
    · intro c member
      simp only [List.singleton_append, List.mem_cons] at member
      rcases member with rfl | rfl | old
      · exact aligned
      · simp only [SamePage, pageSize]
        omega
      · exact h.aligned c (by simp [old])
    · simp only [List.singleton_append, List.map_cons, List.sum_cons] at total ⊢
      omega
  · have whole : (⟨b.base, numPages⟩ : Block) = b := by
      have same : numPages = b.pages := by omega
      rw [same]
    rw [whole, List.nil_append]
    exact h

end Tiling

/-! ### The invariant -/

/-- What holds of a pool of `count` pages at `start` between two calls. -/
structure Conserved (start count : Nat) (l : Ledger) (free : List Block) : Prop where
  listed : Listed l.allocator free
  tiling : Tiling start count (l.handed ++ free)
  positive : ∀ b ∈ l.handed, 0 < b.pages

theorem findFit_fuel {a : Allocator} {ptr r r' : NodePtr} {fuel fuel' numPages : Nat}
    (h : findFit fuel a ptr numPages = some r) (h' : findFit fuel' a ptr numPages = some r') : r = r' := by
  induction fuel generalizing ptr fuel' with
  | zero => cases h
  | succ fuel ih =>
    cases fuel' with
    | zero => cases h'
    | succ fuel' =>
      unfold findFit at h h'
      split at h
      · rename_i onward
        rw [if_pos onward] at h'
        exact ih h h'
      · rename_i stop
        rw [if_neg stop] at h'
        exact Option.some.inj (h.symm.trans h')

theorem alloc_fuel {a : Allocator} {r r' : Nat × Allocator} {fuel fuel' numPages : Nat}
    (h : linkedListAllocPages fuel a numPages = some r) (h' : linkedListAllocPages fuel' a numPages = some r') : r = r' := by
  obtain ⟨ptr, found, rest⟩ := Option.bind_eq_some_iff.mp h
  obtain ⟨ptr', found', rest'⟩ := Option.bind_eq_some_iff.mp h'
  cases findFit_fuel found found'
  exact Option.some.inj (rest.symm.trans rest')

/-- First fit: the free list up to the first block that is large enough. -/
theorem first_fit (free : List Block) (numPages : Nat) :
    ∃ pre post, free = pre ++ post ∧ (∀ c ∈ pre, c.pages < numPages) ∧ ∀ b ∈ post.head?, numPages ≤ b.pages := by
  induction free with
  | nil => exact ⟨[], [], rfl, by simp, by simp⟩
  | cons b free ih =>
    by_cases small : b.pages < numPages
    · obtain ⟨pre, post, rfl, front, back⟩ := ih
      refine ⟨b :: pre, post, rfl, ?_, back⟩
      intro c member
      rcases List.mem_cons.mp member with rfl | early
      · exact small
      · exact front c early
    · exact ⟨[], b :: free, rfl, by simp, by simpa using small⟩

section
variable {start count : Nat} {l : Ledger} {free : List Block}

theorem Conserved.terminates (h : Conserved start count l free) (numPages : Nat) :
    ∃ fuel r, linkedListAllocPages fuel l.allocator numPages = some r := by
  obtain ⟨pre, post, rfl, small, stop⟩ := first_fit free numPages
  have found := (h.listed.toFreeList.search small stop).1
  refine ⟨pre.length + 1, ?_⟩
  unfold linkedListAllocPages
  rw [found, Option.bind_eq_bind, Option.bind_some]
  split
  · exact ⟨_, rfl⟩
  · exact ⟨_, rfl⟩

/-- The first block that is large enough is handed out, and what it has more than asked for stays in its place. -/
theorem Conserved.alloc_first {pre post : List Block} {b : Block} {numPages : Nat} (h : Conserved start count l (pre ++ b :: post))
    (pool : 0 < start ∧ start + pageSize * count ≤ 2 ^ 32) (small : ∀ c ∈ pre, c.pages < numPages) (fits : numPages ≤ b.pages)
    (positive : 0 < numPages) :
    0 < b.base ∧ ∃ a, linkedListAllocPages (pre.length + 1) l.allocator numPages = some (b.base, a) ∧
      Conserved start count ⟨a, ⟨b.base, numPages⟩ :: l.handed⟩ (pre ++ (b.remainder numPages ++ post)) := by
  have inPool : b ∈ l.handed ++ (pre ++ b :: post) := by simp
  have low := h.tiling.low b inPool
  have high := h.tiling.high b inPool
  have live : 0 < b.base := by omega
  have free_ : ∀ c ∈ pre ++ b :: post, c ∈ l.handed ++ (pre ++ b :: post) := fun c member => by
    rw [List.mem_append]
    exact .inr member
  have front : (l.handed ++ (pre ++ b :: post)).Perm (b :: (l.handed ++ (pre ++ post))) := by
    rw [← List.append_assoc, ← List.append_assoc]
    exact List.perm_middle
  have tiled := h.tiling.perm front
  have vacant : numPages < b.pages → ∀ c ∈ pre ++ b :: post, c.base ≠ b.base + pageSize * numPages := by
    intro more c member
    have place := front.mem_iff.mp (free_ c member)
    rcases List.mem_cons.mp place with rfl | other
    · unfold pageSize
      omega
    · have ⟨_, order⟩ := (List.pairwise_cons.mp tiled.apart).1 c other
      unfold Block.limit pageSize at order
      unfold pageSize
      omega
  obtain ⟨a, got, listed⟩ := Pages.alloc_first h.listed (fun c member => h.tiling.aligned c (free_ c member))
    (Nat.le_trans high pool.2) vacant small fits live
  refine ⟨live, a, got, listed, ?_, ?_⟩
  · apply (tiled.cut positive fits).perm
    apply List.Perm.cons _
    calc b.remainder numPages ++ (l.handed ++ (pre ++ post))
        = b.remainder numPages ++ (l.handed ++ pre) ++ post := by simp
      _ |>.Perm (l.handed ++ pre ++ b.remainder numPages ++ post) := List.perm_append_comm.append_right _
      _ = l.handed ++ (pre ++ (b.remainder numPages ++ post)) := by simp
  · intro c member
    rcases List.mem_cons.mp member with rfl | old
    · exact positive
    · exact h.positive c old

theorem Conserved.allocated {fuel numPages base : Nat} {a : Allocator} (h : Conserved start count l free)
    (pool : 0 < start ∧ start + pageSize * count ≤ 2 ^ 32) (positive : 0 < numPages)
    (ran : linkedListAllocPages fuel l.allocator numPages = some (base, a)) :
    ∃ free', Conserved start count ⟨a, if base = 0 then l.handed else ⟨base, numPages⟩ :: l.handed⟩ free' := by
  obtain ⟨pre, post, rfl, small, stop⟩ := first_fit free numPages
  cases post with
  | nil =>
    have none_ := alloc_none h.listed.toFreeList (by simpa using small)
    cases alloc_fuel ran none_
    exact ⟨_, h⟩
  | cons b post =>
    obtain ⟨live, a', got, kept⟩ := h.alloc_first pool small (stop b rfl) positive
    cases alloc_fuel ran got
    rw [if_neg (by omega)]
    exact ⟨_, kept⟩

theorem Conserved.freed {b : Block} (h : Conserved start count l free) (pool : 0 < start) (held : b ∈ l.handed) :
    Conserved start count ⟨linkedListFreePages l.allocator b.base b.pages, l.handed.erase b⟩ (b :: free) := by
  have moved : (l.handed ++ free).Perm (b :: (l.handed.erase b ++ free)) := (List.perm_cons_erase held).append_right free
  have tiled := h.tiling.perm moved
  have low := tiled.low b (by simp)
  have aligned := tiled.aligned b (by simp)
  have apart := (List.pairwise_cons.mp tiled.apart).1
  refine ⟨?_, tiled.perm List.perm_middle.symm, fun c member => h.positive c (List.mem_of_mem_erase member)⟩
  apply free_first h.listed
  · exact fun c member => aligned.symm.trans (tiled.aligned c (by simp [member]))
  · exact fun c member => (apart c (by simp [member])).1.symm
  · omega

/-- A client that keeps to its blocks does not touch the header of a free one. -/
theorem Conserved.written {m : Memory} (h : Conserved start count l free)
    (own : ∀ address, (∀ b ∈ l.handed, ¬ b.Covers address) → m address = l.allocator.memory address) :
    Conserved start count ⟨{ l.allocator with memory := m }, l.handed⟩ free := by
  have header : ∀ c ∈ free, ∀ i < pageSize, m (c.base + i) = l.allocator.memory (c.base + i) := by
    intro c member i within
    apply own
    intro b held
    have ⟨different, order⟩ := (List.pairwise_append.mp h.tiling.apart).2.2 b held c member
    have near := (h.tiling.aligned b (by simp [held])).symm.trans (h.tiling.aligned c (by simp [member]))
    unfold SamePage pageSize at near
    unfold Block.limit pageSize at order
    unfold pageSize at within
    unfold Block.Covers Block.limit pageSize
    omega
  have inPage : 0 < pageSize ∧ 4 < pageSize ∧ 8 < pageSize := by decide
  refine ⟨⟨⟨h.listed.chain.frame fun q member => ?_, fun c member => ?_⟩, fun c member => ?_⟩, h.tiling, h.positive⟩
  · obtain ⟨c, old, rfl⟩ := List.mem_map.mp member
    exact header c old 4 inPage.2.1
  · exact (header c member 0 inPage.1).trans (h.listed.size c member)
  · exact (header c member 8 inPage.2.2).trans (h.listed.prev c member)

theorem Conserved.step {l' : Ledger} {action : Action} (h : Conserved start count l free)
    (pool : 0 < start ∧ start + pageSize * count ≤ 2 ^ 32) (step : Step l action l') :
    ∃ free', Conserved start count l' free' := by
  cases step with
  | alloc positive ran => exact h.allocated pool positive ran
  | free held => exact ⟨_, h.freed pool.1 held⟩
  | write own => exact ⟨_, h.written own⟩

end

theorem init_conserved (m : Memory) {start : Nat} (count : Nat) (positive : 0 < start) :
    Conserved start count ⟨initLinkedListAllocState m start count, []⟩ [⟨start, count⟩] where
  listed := init_listed m positive
  tiling := by constructor <;> simp [Block.limit, SamePage]
  positive := by simp

theorem run_conserved {m : Memory} {start count : Nat} {actions : List Action} {l : Ledger}
    (pool : 0 < start ∧ start + pageSize * count ≤ 2 ^ 32)
    (run : Run Step ⟨initLinkedListAllocState m start count, []⟩ actions l) : ∃ free, Conserved start count l free :=
  run.invariant (I := fun l => ∃ free, Conserved start count l free)
    (fun _ _ _ step ⟨_, h⟩ => h.step pool step) ⟨_, init_conserved m count pool.1⟩

/-- After every sequence of calls the handed out and the free blocks tile the pool, the free list is
finite and acyclic, and every allocation terminates. -/
theorem pages_conserved {m : Memory} {start count : Nat} {actions : List Action} {l : Ledger}
    (pool : 0 < start ∧ start + pageSize * count ≤ 2 ^ 32)
    (run : Run Step ⟨initLinkedListAllocState m start count, []⟩ actions l) :
    ∃ free, FreeList l.allocator free ∧ (free.map Block.base).Nodup ∧ Tiling start count (l.handed ++ free) ∧
      ∀ numPages, ∃ fuel r, linkedListAllocPages fuel l.allocator numPages = some r := by
  obtain ⟨free, h⟩ := run_conserved pool run
  exact ⟨free, h.listed.toFreeList, h.listed.chain.nodup, h.tiling, h.terminates⟩

/-- Two blocks cut off the front of a pool, the first given back, and a part of it handed out again. -/
theorem pages_conserved_reuse : ∃ l free, l.handed = [⟨512, 1⟩, ⟨1536, 1⟩] ∧
    Run Step ⟨initLinkedListAllocState (fun _ => 0) 512 4, []⟩ [.alloc 2, .alloc 1, .free ⟨512, 2⟩, .alloc 1] l ∧
    FreeList l.allocator free ∧ Tiling 512 4 (l.handed ++ free) := by
  have run : ∃ l, l.handed = [⟨512, 1⟩, ⟨1536, 1⟩] ∧
      Run Step ⟨initLinkedListAllocState (fun _ => 0) 512 4, []⟩ [.alloc 2, .alloc 1, .free ⟨512, 2⟩, .alloc 1] l := by
    refine ⟨_, ?_, .cons (@Step.alloc _ 2 _ _ _ (by decide) rfl) <| .cons (@Step.alloc _ 2 _ _ _ (by decide) rfl) <|
      .cons (.free (by decide)) <| .cons (@Step.alloc _ 2 _ _ _ (by decide) rfl) (.nil _)⟩
    rfl
  obtain ⟨l, handed, run⟩ := run
  obtain ⟨free, listed, -, tiling, -⟩ := pages_conserved (by decide) run
  exact ⟨l, free, handed, run, listed, tiling⟩

end BradypOS.Pages
