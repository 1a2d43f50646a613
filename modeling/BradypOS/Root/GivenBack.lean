import BradypOS.Root.Memory

/-!
# Pages that are given back

The allocator counts in pages of 512 bytes, and `handle_ipc_alloc` asks it for as many pages as the
granted flexpage has bytes. What `handle_ipc_free` returns is counted in pages. For a size that does not
fit into a word the request is for no page at all, which the allocator answers with a block that it leaves
on its list.
-/

namespace BradypOS.Root

open L4 Pages

/-! ### A request for no page -/

section
variable {a : Allocator} {b : Block} {free : List Block}

/-- The first node is split into nothing and itself. -/
theorem alloc_zero (listed : FreeList a (b :: free)) (live : b.base ≠ 0) :
    ∃ a', linkedListAllocPages 1 a 0 = some (b.base, a') := by
  have here : a.state.firstFreeItem = b.base := listed.chain.path.1
  have found : findFit 1 a .firstFreeItem 0 = some .firstFreeItem := by simp [findFit]
  by_cases pages : 0 < a.memory.numPages b.base
  · refine ⟨deleteNodeFromList { a with memory := splitNodeAt a.memory b.base 0 } .firstFreeItem, ?_⟩
    simp [linkedListAllocPages, found, Allocator.load, here, live, pages]
  · refine ⟨deleteNodeFromList a .firstFreeItem, ?_⟩
    simp [linkedListAllocPages, found, Allocator.load, here, live, pages]

/-- The node that is handed out is the first of the list, and its own successor. -/
theorem alloc_zero_cyclic {a' : Allocator} (listed : FreeList a (b :: free)) (live : b.base ≠ 0) (word : b.base < 2 ^ 32)
    (pages : 0 < b.pages) (ran : linkedListAllocPages 1 a 0 = some (b.base, a')) :
    a'.state.firstFreeItem = b.base ∧ a'.memory.next b.base = b.base := by
  have here : a.state.firstFreeItem = b.base := listed.chain.path.1
  have size : a.memory.numPages b.base = b.pages := listed.size b (by simp)
  have self : SamePage b.base b.base := rfl
  have found : findFit 1 a .firstFreeItem 0 = some .firstFreeItem := by simp [findFit]
  obtain ⟨m, split⟩ : ∃ m, m = splitNodeAt a.memory b.base 0 := ⟨_, rfl⟩
  have next : m.next b.base = b.base := by
    rw [split]
    simp only [splitNodeAt, Nat.mul_zero, Nat.add_zero, Nat.mod_eq_of_lt word, Memory.next_setNext, Function.update_self]
  have prev : m.prev b.base = b.base := by
    rw [split]
    simp only [splitNodeAt, Nat.mul_zero, Nat.add_zero, Nat.mod_eq_of_lt word, Memory.prev_setNext self, Memory.prev_setNumPages self,
      Memory.prev_setPrev, Function.update_self]
  have result : a' = deleteNodeFromList { a with memory := m } .firstFreeItem := by
    simp only [linkedListAllocPages, found, Option.bind_eq_bind, Option.bind_some, Allocator.load, here, live, if_false, size, gt_iff_lt,
      if_pos pages, ← split] at ran
    exact (Prod.mk.inj (Option.some.inj ran)).2.symm
  rw [result]
  simp only [deleteNodeFromList, Allocator.load, here, next, prev, if_pos live, Allocator.store]
  rw [Memory.next_setPrev self, Memory.next_setNext, Function.update_self]
  exact ⟨rfl, rfl⟩

/-- No list of blocks is in memory where the first node is its own successor. -/
theorem not_freeList_of_cyclic {p : Nat} (live : p ≠ 0) (first : a.state.firstFreeItem = p) (next : a.memory.next p = p)
    (listed : FreeList a free) : False := by
  have chain := listed.chain
  rw [first] at chain
  cases free with
  | nil => exact live chain.path
  | cons c free =>
    have here : p = c.base := chain.path.1
    have rest := chain.tail
    rw [← here, next] at rest
    cases free with
    | nil => exact live rest.path
    | cons d free =>
      have again : p = d.base := rest.path.1
      have once := chain.nodup
      simp [← here, ← again] at once

end

/-! ### What is promised of a request -/

/-- An answer is found and leaves a list of free blocks; the page that a success grants has the size that was
asked for and is backed by as many pages off the list, and the list gets back just these pages when it is freed. -/
structure GivenBack (free : List Block) (state : Allocator) (u : Utcb) (msgTag : Word) : Prop where
  returns : ∃ fuel r, handleIpcAlloc fuel state u msgTag = some r
  acyclic : ∀ fuel u' state', handleIpcAlloc fuel state u msgTag = some (u', state') → ∃ free', FreeList state' free'
  granted : ∀ fuel u' state' free', handleIpcAlloc fuel state u msgTag = some (u', state') → Succeeded u' → FreeList state' free' →
    Fpage.bytes (grantedFpage u') = 2 ^ (Fpage.s (u.mr 1) + 9) ∧
      (free.map Block.pages).sum = (free'.map Block.pages).sum + 2 ^ Fpage.s (u.mr 1) ∧
      ∀ address, (∃ b ∈ free, b.Covers address) ↔ (∃ b ∈ free', b.Covers address) ∨
        Block.Covers ⟨(Fpage.address (grantedFpage u')).toNat, 2 ^ Fpage.s (u.mr 1)⟩ address
  givenBack : ∀ fuel u' state' free', handleIpcAlloc fuel state u msgTag = some (u', state') → Succeeded u' → FreeList state' free' →
    ∀ v freeTag, WellFormed freeTag → v.mr 1 = grantedFpage u' →
      FreeList (handleIpcFree state' v freeTag).2 (⟨(Fpage.address (grantedFpage u')).toNat, 2 ^ Fpage.s (u.mr 1)⟩ :: free')

section
variable {start count : Nat} {l : Ledger} {free : List Block} {u : Utcb} {msgTag : Word}

/-- The pages asked for are as many as the flexpage has bytes. -/
theorem toNat_pagesAsked (small : Fpage.bytes (u.mr 1) < 2 ^ 32) : (pagesAsked (u.mr 1)).toNat = 2 ^ Fpage.s (u.mr 1) * 512 := by
  have bytes : (pagesAsked (u.mr 1)).toNat = Fpage.bytes (u.mr 1) := Fpage.toNat_size small
  rw [bytes, Fpage.bytes, pow_add]
  rfl

theorem free_pages_le (h : Conserved start count l free) : (free.map Block.pages).sum ≤ count := by
  have total := h.tiling.total
  rw [List.map_append, List.sum_append] at total
  omega

/-- A request for no page is answered with the first block, which has not as many pages as the flexpage. -/
theorem not_givenBack_none {b : Block} (h : Conserved start count l (b :: free)) (pool : 0 < start ∧ start + pageSize * count ≤ 2 ^ 32)
    (wellFormed : WellFormed msgTag) (large : 2 ^ 32 ≤ Fpage.bytes (u.mr 1)) : ¬ GivenBack (b :: free) l.allocator u msgTag := by
  intro promised
  have low := h.tiling.low b (by simp)
  have live : b.base ≠ 0 := by omega
  have none_ : (pagesAsked (u.mr 1)).toNat = 0 := congrArg BitVec.toNat (Fpage.size_eq_zero large)
  obtain ⟨state', got⟩ := alloc_zero h.listed.toFreeList live
  have ran := handleIpcAlloc_wellFormed 1 l.allocator u wellFormed
  rw [allocPages, none_, got, Option.map_some, if_neg live] at ran
  obtain ⟨free', listed⟩ := promised.acyclic _ _ _ ran
  have taken := (promised.granted _ _ _ _ ran (succeeded_grantAnswer u _) listed).2.1
  have bound := free_pages_le h
  have shift : 2 ^ 32 ≤ 2 ^ Fpage.s (u.mr 1) * 512 := by
    rw [Fpage.bytes, pow_add] at large
    exact large
  unfold pageSize at pool
  omega

/-- A request for the bytes of a flexpage takes 512 times the pages that it has. -/
theorem not_givenBack_bytes {pre post : List Block} {b : Block} (h : Conserved start count l (pre ++ b :: post))
    (pool : 0 < start ∧ start + pageSize * count ≤ 2 ^ 32) (wellFormed : WellFormed msgTag) (word : Fpage.bytes (u.mr 1) < 2 ^ 32)
    (small : ∀ c ∈ pre, c.pages < (pagesAsked (u.mr 1)).toNat) (fits : (pagesAsked (u.mr 1)).toNat ≤ b.pages) :
    ¬ GivenBack (pre ++ b :: post) l.allocator u msgTag := by
  intro promised
  have asked := toNat_pagesAsked word
  have positive : 0 < 2 ^ Fpage.s (u.mr 1) := Nat.two_pow_pos _
  obtain ⟨low, state', got, kept⟩ := h.alloc_first pool small fits (by omega)
  have live : b.base ≠ 0 := by omega
  have ran := handleIpcAlloc_wellFormed (pre.length + 1) l.allocator u wellFormed
  rw [allocPages, got, Option.map_some, if_neg live] at ran
  have taken := (promised.granted _ _ _ _ ran (succeeded_grantAnswer u _) kept.listed.toFreeList).2.1
  have before := h.tiling.total
  have after := kept.tiling.total
  simp only [List.cons_append, List.map_append, List.map_cons, List.sum_append, List.sum_cons] at before after taken
  omega

/-- Where the allocator takes the pages asked for, they are not the pages of the granted flexpage. -/
theorem not_givenBack (h : Conserved start count l free) (pool : 0 < start ∧ start + pageSize * count ≤ 2 ^ 32)
    (wellFormed : WellFormed msgTag) {b : Block} (member : b ∈ free) (fits : (pagesAsked (u.mr 1)).toNat ≤ b.pages) :
    ¬ GivenBack free l.allocator u msgTag := by
  rcases Nat.lt_or_ge (Fpage.bytes (u.mr 1)) (2 ^ 32) with word | large
  · obtain ⟨pre, post, rfl, small, stop⟩ := first_fit free (pagesAsked (u.mr 1)).toNat
    cases post with
    | nil =>
      have tooSmall := small b (by simpa using member)
      omega
    | cons c post => exact not_givenBack_bytes h pool wellFormed word small (stop c rfl)
  · cases free with
    | nil => cases member
    | cons c free => exact not_givenBack_none h pool wellFormed large

/-- A request is served as promised exactly if it is refused. -/
theorem givenBack_iff (h : Conserved start count l free) (pool : 0 < start ∧ start + pageSize * count ≤ 2 ^ 32) (u : Utcb) (msgTag : Word) :
    GivenBack free l.allocator u msgTag ↔ ¬ (WellFormed msgTag ∧ ∃ b ∈ free, (pagesAsked (u.mr 1)).toNat ≤ b.pages) := by
  constructor
  · intro promised ⟨wellFormed, b, member, fits⟩
    exact not_givenBack h pool wellFormed member fits promised
  · intro refused
    have answer : ∃ fuel err, handleIpcAlloc fuel l.allocator u msgTag = some (createIpcAllocError u err, l.allocator) := by
      by_cases wellFormed : WellFormed msgTag
      · have small : ∀ c ∈ free, c.pages < (pagesAsked (u.mr 1)).toNat := by
          intro c member
          by_contra fits
          exact refused ⟨wellFormed, c, member, by omega⟩
        refine ⟨free.length + 1, .enomem, ?_⟩
        rw [handleIpcAlloc_wellFormed _ _ _ wellFormed, allocPages, alloc_none h.listed.toFreeList small]
        rfl
      · exact ⟨0, .einval, handleIpcAlloc_malformed 0 l.allocator u wellFormed⟩
    obtain ⟨fuel, err, ran⟩ := answer
    have unchanged : ∀ fuel' u' state', handleIpcAlloc fuel' l.allocator u msgTag = some (u', state') →
        u' = createIpcAllocError u err ∧ state' = l.allocator := fun fuel' u' state' ran' =>
      Prod.mk.inj (handleIpcAlloc_fuel ran' ran)
    have failed : ∀ fuel' u' state', handleIpcAlloc fuel' l.allocator u msgTag = some (u', state') → ¬ Succeeded u' := by
      intro fuel' u' state' ran'
      rw [(unchanged _ _ _ ran').1]
      exact not_succeeded_error u err
    refine ⟨⟨fuel, _, ran⟩, fun fuel' u' state' ran' => ⟨free, ?_⟩, ?_, ?_⟩
    · rw [(unchanged _ _ _ ran').2]
      exact h.listed.toFreeList
    · exact fun _ _ _ _ ran' success => absurd success (failed _ _ _ ran')
    · exact fun _ _ _ _ ran' success => absurd success (failed _ _ _ ran')

end

/-- A UTCB that holds a message with the two argument words of a request. -/
def sampleRequest (fpage : Word) : Utcb := ⟨0, 0, 0, 0, 0, fun i => if i = 1 then fpage else 0⟩

def sampleTag : Word := MsgTag.mk 2 0 0#32 0x40#32

theorem sample_conserved : Conserved 0x20001800 516 ⟨initLinkedListAllocState (fun _ => 0) 0x20001800 516, []⟩ [⟨0x20001800, 516⟩] :=
  init_conserved _ 516 (by decide)

/-- Two of 516 pages are refused: the request is for 1024. -/
theorem givenBack_refused :
    GivenBack [⟨0x20001800, 516⟩] (initLinkedListAllocState (fun _ => 0) 0x20001800 516) (sampleRequest 0x14#32) sampleTag :=
  (givenBack_iff sample_conserved (by decide) _ _).mpr (by decide)

/-- One of 516 pages: 512 leave the list. Of 2^23 pages: the list becomes a circle. -/
theorem onePage_not_givenBack :
    ¬ GivenBack [⟨0x20001800, 516⟩] (initLinkedListAllocState (fun _ => 0) 0x20001800 516) (sampleRequest 4#32) sampleTag ∧
      ∃ u' state', handleIpcAlloc 1 (initLinkedListAllocState (fun _ => 0) 0x20001800 516) (sampleRequest 0x174#32) sampleTag =
        some (u', state') ∧ Succeeded u' ∧ ¬ ∃ free, FreeList state' free := by
  refine ⟨not_givenBack sample_conserved (by decide) (by decide) (List.mem_singleton.mpr rfl) (by decide), ?_⟩
  have listed := sample_conserved.listed.toFreeList
  have live : (0x20001800 : Nat) ≠ 0 := by decide
  obtain ⟨state', got⟩ := alloc_zero listed live
  have wellFormed : WellFormed sampleTag := by decide
  have ran := handleIpcAlloc_wellFormed 1 (initLinkedListAllocState (fun _ => 0) 0x20001800 516) (sampleRequest 0x174#32) wellFormed
  rw [allocPages, show (pagesAsked ((sampleRequest 0x174#32).mr 1)).toNat = 0 from rfl, got, Option.map_some, if_neg live] at ran
  obtain ⟨first, next⟩ := alloc_zero_cyclic listed live (by decide) (by decide) got
  exact ⟨_, state', ran, succeeded_grantAnswer _ _, fun ⟨_, after⟩ => not_freeList_of_cyclic live first next after⟩

end BradypOS.Root
