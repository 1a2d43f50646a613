import BradypOS.Pages.FirstFit

/-!
# A free list without an end

A request for no page splits the first block into nothing and itself, which makes it its own successor. From then
on the list goes round in a circle, whatever is allocated from it.
-/

namespace BradypOS.Pages

/-- The list from `first_free_item` stays among nodes that each have a successor. -/
structure Cyclic (start : Nat) (a : Allocator) (nodes : Set Nat) : Prop where
  first : a.state.firstFreeItem ∈ nodes
  next : ∀ q ∈ nodes, a.memory.next q ∈ nodes
  live : 0 ∉ nodes
  aligned : ∀ q ∈ nodes, SamePage start q
  inside : ∀ q ∈ nodes, q + pageSize * a.memory.numPages q ≤ 2 ^ 32
  prev : ∀ q ∈ nodes, a.memory.prev q = 0 ∨ SamePage start (a.memory.prev q)

/-- A pointer to a node is one of the list. -/
def OnList (nodes : Set Nat) : NodePtr → Prop
  | .firstFreeItem => True
  | .next node => node ∈ nodes

theorem OnList.mono {nodes nodes' : Set Nat} {ptr : NodePtr} (on : OnList nodes ptr) (sub : nodes ⊆ nodes') : OnList nodes' ptr := by
  cases ptr with
  | firstFreeItem => trivial
  | next node => exact sub on

namespace Cyclic

variable {start numPages p v c : Nat} {a a' : Allocator} {nodes : Set Nat} {ptr : NodePtr} {free : List Block}

theorem not_freeList (h : Cyclic start a nodes) : ¬ FreeList a free :=
  fun listed => h.live (listed.chain.path.closed h.next h.first)

theorem load (h : Cyclic start a nodes) (on : OnList nodes ptr) : a.load ptr ∈ nodes := by
  cases ptr with
  | firstFreeItem => exact h.first
  | next node => exact h.next node on

theorem setNext (h : Cyclic start a nodes) (aligned : SamePage start p) (member : v ∈ nodes) :
    Cyclic start { a with memory := a.memory.setNext p v } nodes := by
  have near : ∀ q ∈ nodes, SamePage p q := fun q inNodes => aligned.symm.trans (h.aligned q inNodes)
  refine ⟨h.first, fun q inNodes => ?_, h.live, h.aligned, fun q inNodes => ?_, fun q inNodes => ?_⟩
  · rw [Memory.next_setNext, Function.update_apply]
    split
    · exact member
    · exact h.next q inNodes
  · rw [Memory.numPages_setNext (near q inNodes)]
    exact h.inside q inNodes
  · rw [Memory.prev_setNext (near q inNodes)]
    exact h.prev q inNodes

theorem setPrev (h : Cyclic start a nodes) (aligned : SamePage start p) (before : v = 0 ∨ SamePage start v) :
    Cyclic start { a with memory := a.memory.setPrev p v } nodes := by
  have near : ∀ q ∈ nodes, SamePage p q := fun q inNodes => aligned.symm.trans (h.aligned q inNodes)
  refine ⟨h.first, fun q inNodes => ?_, h.live, h.aligned, fun q inNodes => ?_, fun q inNodes => ?_⟩
  · rw [Memory.next_setPrev (near q inNodes)]
    exact h.next q inNodes
  · rw [Memory.numPages_setPrev (near q inNodes)]
    exact h.inside q inNodes
  · rw [Memory.prev_setPrev, Function.update_apply]
    split
    · exact before
    · exact h.prev q inNodes

theorem store (h : Cyclic start a nodes) (on : OnList nodes ptr) (member : v ∈ nodes) : Cyclic start (a.store v ptr) nodes := by
  cases ptr with
  | firstFreeItem => exact ⟨member, h.next, h.live, h.aligned, h.inside, h.prev⟩
  | next node => exact h.setNext (h.aligned node on) member

theorem delete (h : Cyclic start a nodes) (on : OnList nodes ptr) : Cyclic start (deleteNodeFromList a ptr) nodes := by
  have here := h.load on
  have behind := h.next _ here
  have before := h.prev _ here
  have linked : Cyclic start (if a.memory.prev (a.load ptr) ≠ 0 then
      { a with memory := a.memory.setNext (a.memory.prev (a.load ptr)) (a.memory.next (a.load ptr)) } else a) nodes := by
    split
    · rename_i some_
      exact h.setNext (before.resolve_left some_) behind
    · exact h
  have unlinked := linked.setPrev (h.aligned _ behind) before
  have onward : a.memory.next (a.load ptr) ≠ 0 := fun none_ => h.live (none_ ▸ behind)
  unfold deleteNodeFromList
  dsimp only
  rw [if_pos onward]
  exact unlinked.store on (unlinked.next _ (unlinked.load on))

theorem split (h : Cyclic start a nodes) (member : c ∈ nodes) (sized : numPages < a.memory.numPages c) :
    Cyclic start { a with memory := splitNodeAt a.memory c numPages } (insert (c + pageSize * numPages) nodes) := by
  have inside := h.inside c member
  have cAligned := h.aligned c member
  have live : c ≠ 0 := fun zero => h.live (zero ▸ member)
  have newAligned : SamePage start (c + pageSize * numPages) := by
    unfold SamePage at cAligned ⊢
    rw [Nat.add_mul_mod_self_left]
    exact cAligned
  have aligned : ∀ q ∈ insert (c + pageSize * numPages) nodes, SamePage start q := by
    rintro q (rfl | old)
    · exact newAligned
    · exact h.aligned q old
  have fields := fun q inNodes => splitNodeAt_fields sized inside (cAligned.symm.trans (aligned q inNodes))
  refine ⟨.inr h.first, fun q inNodes => ?_, ?_, aligned, fun q inNodes => ?_, fun q inNodes => ?_⟩
  · rw [(fields q inNodes).1, Function.update_apply]
    split
    · exact .inl rfl
    · rw [Function.update_apply]
      split
      · exact .inr (h.next c member)
      · rename_i other
        exact .inr (h.next q (inNodes.resolve_left other))
  · rintro (zero | old)
    · omega
    · exact h.live old
  · rw [(fields q inNodes).2.1, Function.update_apply]
    split
    · rename_i here
      rw [here]
      unfold pageSize at inside ⊢
      omega
    · rename_i other
      exact h.inside q (inNodes.resolve_left other)
  · rw [(fields q inNodes).2.2, Function.update_apply]
    split
    · exact .inr cAligned
    · rename_i other
      exact h.prev q (inNodes.resolve_left other)

theorem findFit_onList (h : Cyclic start a nodes) {fuel : Nat} {found : NodePtr} (on : OnList nodes ptr)
    (search : findFit fuel a ptr numPages = some found) : OnList nodes found := by
  induction fuel generalizing ptr with
  | zero => cases search
  | succ fuel ih =>
    unfold findFit at search
    split at search
    · have onward : OnList nodes (.next (a.load ptr)) := h.load on
      exact ih onward search
    · cases search
      exact on

/-- An allocation does not open the circle. -/
theorem alloc (h : Cyclic start a nodes) {fuel base : Nat} (ran : linkedListAllocPages fuel a numPages = some (base, a')) :
    ∃ nodes', Cyclic start a' nodes' := by
  obtain ⟨ptr, search, rest⟩ := Option.bind_eq_some_iff.mp ran
  have head : OnList nodes .firstFreeItem := trivial
  have on : OnList nodes ptr := h.findFit_onList head search
  have here := h.load on
  have live : a.load ptr ≠ 0 := fun zero => h.live (zero ▸ here)
  rw [if_neg live] at rest
  obtain ⟨-, result⟩ := Prod.mk.inj (Option.some.inj rest)
  rw [← result]
  split
  · rename_i sized
    exact ⟨_, (h.split here sized).delete (on.mono (Set.subset_insert _ _))⟩
  · exact ⟨nodes, h.delete on⟩

theorem of_split {b : Block} (listed : FreeList a (b :: free)) (aligned : SamePage start b.base) (live : b.base ≠ 0) (sized : 0 < b.pages)
    (inside : b.limit ≤ 2 ^ 32) : Cyclic start { a with memory := splitNodeAt a.memory b.base 0 } {b.base} := by
  have pages : a.memory.numPages b.base = b.pages := listed.size b (by simp)
  have first : a.state.firstFreeItem = b.base := listed.chain.path.1
  have some_ : 0 < a.memory.numPages b.base := pages ▸ sized
  have fields := splitNodeAt_fields some_ (pages ▸ inside) (rfl : SamePage b.base b.base)
  simp only [Nat.mul_zero, Nat.add_zero, Function.update_self, Nat.sub_zero] at fields
  obtain ⟨next, size, prev⟩ := fields
  refine ⟨first, ?_, fun zero => live zero.symm, ?_, ?_, ?_⟩
  · rintro q rfl
    exact next
  · rintro q rfl
    exact aligned
  · rintro q rfl
    rw [size, pages]
    exact inside
  · rintro q rfl
    rw [prev]
    exact .inr aligned

end Cyclic

/-! ### Pages that are missing -/

/-- The blocks of the list have a page each. -/
def Sized (free : List Block) : Prop := ∀ b ∈ free, 0 < b.pages

/-- The list has fewer than `total` pages, or no end. -/
def Short (start count total : Nat) (a : Allocator) : Prop :=
  (∃ l free, l.allocator = a ∧ Conserved start count l free ∧ Sized free ∧ (free.map Block.pages).sum < total) ∨
    ∃ nodes, Cyclic start a nodes

section
variable {start count total fuel numPages base : Nat} {a a' : Allocator} {l : Ledger} {free : List Block}

theorem Short.not_listed (h : Short start count total a) : ¬ ∃ free, FreeList a free ∧ (free.map Block.pages).sum = total := by
  rintro ⟨free, listed, sum⟩
  rcases h with ⟨l, free', rfl, kept, _, fewer⟩ | ⟨nodes, cyclic⟩
  · rw [kept.listed.toFreeList.unique listed] at sum
    omega
  · exact cyclic.not_freeList listed

theorem Sized.cut {pre post : List Block} {b : Block} (sized : Sized (pre ++ b :: post)) (numPages : Nat) :
    Sized (pre ++ (b.remainder numPages ++ post)) := by
  intro c member
  simp only [List.mem_append] at member
  rcases member with early | rest | late
  · exact sized c (by simp [early])
  · unfold Block.remainder at rest
    split at rest
    · rw [List.mem_singleton.mp rest]
      exact Nat.sub_pos_of_lt ‹_›
    · cases rest
  · exact sized c (by simp [late])

theorem pages_remainder (b : Block) (numPages : Nat) : ((b.remainder numPages).map Block.pages).sum = b.pages - numPages := by
  unfold Block.remainder
  split
  · simp
  · rw [List.map_nil, List.sum_nil]
    omega

/-- A request for no page leaves a list without an end. -/
theorem FreeList.alloc_nothing {b : Block} (listed : FreeList a (b :: free)) (aligned : SamePage start b.base) (live : b.base ≠ 0)
    (sized : 0 < b.pages) (inside : b.limit ≤ 2 ^ 32) (ran : linkedListAllocPages fuel a 0 = some (base, a')) :
    base = b.base ∧ Cyclic start a' {b.base} := by
  have first : a.state.firstFreeItem = b.base := listed.chain.path.1
  have pages : a.memory.numPages b.base = b.pages := listed.size b (by simp)
  have got : linkedListAllocPages 1 a 0 =
      some (b.base, deleteNodeFromList { a with memory := splitNodeAt a.memory b.base 0 } .firstFreeItem) := by
    simp [linkedListAllocPages, findFit, Allocator.load, first, live, pages, sized]
  cases alloc_fuel ran got
  exact ⟨rfl, (Cyclic.of_split listed aligned live sized inside).delete trivial⟩

/-- Where a block is large enough it is handed out, and its pages are missing then. -/
theorem Conserved.alloc_short (h : Conserved start count l free) (pool : 0 < start ∧ start + pageSize * count ≤ 2 ^ 32) (sized : Sized free)
    (some_ : ∃ b ∈ free, numPages ≤ b.pages) (ran : linkedListAllocPages fuel l.allocator numPages = some (base, a)) :
    base ≠ 0 ∧ Short start count (free.map Block.pages).sum a := by
  obtain ⟨pre, post, rfl, small, stop⟩ := first_fit free numPages
  cases post with
  | nil =>
    obtain ⟨b, member, fits⟩ := some_
    have less := small b (by simpa using member)
    omega
  | cons b post =>
    have fits : numPages ≤ b.pages := stop b rfl
    have inPool : b ∈ l.handed ++ (pre ++ b :: post) := by simp
    have low := h.tiling.low b inPool
    have high := h.tiling.high b inPool
    rcases Nat.eq_zero_or_pos numPages with rfl | positive
    · obtain rfl : pre = [] := List.eq_nil_iff_forall_not_mem.mpr fun c member => absurd (small c member) (Nat.not_lt_zero _)
      obtain ⟨rfl, endless⟩ := h.listed.toFreeList.alloc_nothing (h.tiling.aligned b inPool) (by omega) (sized b (by simp))
        (high.trans pool.2) ran
      exact ⟨by omega, .inr ⟨_, endless⟩⟩
    · obtain ⟨live, a', got, kept⟩ := h.alloc_first pool small fits positive
      cases alloc_fuel ran got
      refine ⟨by omega, .inl ⟨_, _, rfl, kept, sized.cut numPages, ?_⟩⟩
      simp only [List.map_append, List.sum_append, List.map_cons, List.sum_cons, pages_remainder]
      omega

/-- Pages that are missing stay missing, whatever is allocated. -/
theorem Short.alloc (h : Short start count total a) (pool : 0 < start ∧ start + pageSize * count ≤ 2 ^ 32)
    (ran : linkedListAllocPages fuel a numPages = some (base, a')) : Short start count total a' := by
  rcases h with ⟨l, free, rfl, kept, sized, fewer⟩ | ⟨nodes, cyclic⟩
  · by_cases some_ : ∃ b ∈ free, numPages ≤ b.pages
    · rcases (kept.alloc_short pool sized some_ ran).2 with ⟨l', free', same, kept', sized', less⟩ | endless
      · exact .inl ⟨l', free', same, kept', sized', less.trans fewer⟩
      · exact .inr endless
    · push Not at some_
      cases alloc_fuel ran (alloc_none kept.listed.toFreeList some_)
      exact .inl ⟨l, free, rfl, kept, sized, fewer⟩
  · exact .inr (cyclic.alloc ran)

theorem Conserved.step_sized {l' : Ledger} {action : Action} (h : Conserved start count l free)
    (pool : 0 < start ∧ start + pageSize * count ≤ 2 ^ 32) (sized : Sized free) (step : Step l action l') :
    ∃ free', Conserved start count l' free' ∧ Sized free' := by
  cases step with
  | @alloc fuel numPages _ _ positive ran =>
    obtain ⟨pre, post, rfl, small, stop⟩ := first_fit free numPages
    cases post with
    | nil =>
      cases alloc_fuel ran (alloc_none h.listed.toFreeList (by simpa using small))
      exact ⟨_, h, sized⟩
    | cons b post =>
      obtain ⟨live, a', got, kept⟩ := h.alloc_first pool small (stop b rfl) positive
      cases alloc_fuel ran got
      rw [if_neg (by omega)]
      exact ⟨_, kept, sized.cut numPages⟩
  | free held => exact ⟨_, h.freed pool.1 held, List.forall_mem_cons.mpr ⟨h.positive _ held, sized⟩⟩
  | write own => exact ⟨_, h.written own, sized⟩

/-- In every state of a pool with a page the free blocks have a page each. -/
theorem run_sized {m : Memory} {actions : List Action} (pool : 0 < start ∧ start + pageSize * count ≤ 2 ^ 32) (page : 0 < count)
    (run : Theory.Run Step ⟨initLinkedListAllocState m start count, []⟩ actions l) : ∃ free, Conserved start count l free ∧ Sized free :=
  run.invariant (I := fun l => ∃ free, Conserved start count l free ∧ Sized free)
    (fun _ _ _ step ⟨_, h, sized⟩ => h.step_sized pool sized step)
    ⟨_, init_conserved m count pool.1, fun b member => by rw [List.mem_singleton.mp member]; exact page⟩

end

end BradypOS.Pages
