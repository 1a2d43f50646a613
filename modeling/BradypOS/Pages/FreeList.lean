import BradypOS.Pages.LinkedListAlloc

/-!
# The free list in memory

`Listed a free`: the list that starts at `first_free_item` holds exactly the blocks `free`, and every
one of them has a NULL `prev`. Neither `alloc` nor `free` keeps the `prev` links of a doubly linked
list; both are correct because between two calls all of them are NULL.
-/

namespace BradypOS.Pages

open Theory (Path Chain)

/-- The same offset within a page, as the pages of one pool have. -/
def SamePage (p q : Nat) : Prop := p % pageSize = q % pageSize

namespace Memory

variable {m : Memory} {p q v : Nat}

theorem next_setNext : next (setNext m p v) = Function.update (next m) p v := by
  funext q
  by_cases same : q = p
  · simp [next, setNext, same]
  · simp [next, setNext, same]

theorem numPages_setNumPages : numPages (setNumPages m p v) = Function.update (numPages m) p v := rfl

theorem prev_setPrev : prev (setPrev m p v) = Function.update (prev m) p v := by
  funext q
  by_cases same : q = p
  · simp [prev, setPrev, same]
  · simp [prev, setPrev, same]

section
variable (h : SamePage p q)
include h

theorem next_setPrev : next (setPrev m p v) q = next m q := by
  have apart : q + 4 ≠ p + 8 := by unfold SamePage pageSize at h; omega
  exact Function.update_of_ne apart _ _

theorem next_setNumPages : next (setNumPages m p v) q = next m q := by
  have apart : q + 4 ≠ p := by unfold SamePage pageSize at h; omega
  exact Function.update_of_ne apart _ _

theorem prev_setNext : prev (setNext m p v) q = prev m q := by
  have apart : q + 8 ≠ p + 4 := by unfold SamePage pageSize at h; omega
  exact Function.update_of_ne apart _ _

theorem prev_setNumPages : prev (setNumPages m p v) q = prev m q := by
  have apart : q + 8 ≠ p := by unfold SamePage pageSize at h; omega
  exact Function.update_of_ne apart _ _

theorem numPages_setNext : numPages (setNext m p v) q = numPages m q := by
  have apart : q ≠ p + 4 := by unfold SamePage pageSize at h; omega
  exact Function.update_of_ne apart _ _

theorem numPages_setPrev : numPages (setPrev m p v) q = numPages m q := by
  have apart : q ≠ p + 8 := by unfold SamePage pageSize at h; omega
  exact Function.update_of_ne apart _ _

end

end Memory

/-- The list from `first_free_item` and the sizes its nodes record. -/
structure FreeList (a : Allocator) (free : List Block) : Prop where
  chain : Chain a.memory.next 0 a.state.firstFreeItem (free.map Block.base)
  size : ∀ b ∈ free, a.memory.numPages b.base = b.pages

structure Listed (a : Allocator) (free : List Block) : Prop extends FreeList a free where
  prev : ∀ b ∈ free, a.memory.prev b.base = 0

/-- The place a walk over the blocks `bs` ends at. -/
def linkAfter : NodePtr → List Block → NodePtr
  | ptr, [] => ptr
  | _, b :: bs => linkAfter (.next b.base) bs

@[simp] theorem linkAfter_concat (ptr : NodePtr) (bs : List Block) (c : Block) :
    linkAfter ptr (bs ++ [c]) = .next c.base := by
  induction bs generalizing ptr with
  | nil => rfl
  | cons b bs ih => exact ih _

/-! ### The search -/

theorem findFit_skips {a : Allocator} {ptr : NodePtr} {pre : List Block} {q numPages : Nat} (fuel : Nat)
    (path : Path a.memory.next (a.load ptr) (pre.map Block.base) q)
    (small : ∀ b ∈ pre, b.base ≠ 0 ∧ a.memory.numPages b.base < numPages) :
    findFit (pre.length + fuel) a ptr numPages = findFit fuel a (linkAfter ptr pre) numPages ∧
      a.load (linkAfter ptr pre) = q := by
  induction pre generalizing ptr with
  | nil => simpa [linkAfter] using path
  | cons b pre ih =>
    obtain ⟨here, rest⟩ := path
    have ⟨live, size⟩ := small b (by simp)
    have step : findFit ((b :: pre).length + fuel) a ptr numPages = findFit (pre.length + fuel) a (.next b.base) numPages := by
      have count : (b :: pre).length + fuel = pre.length + fuel + 1 := by simp; omega
      rw [count, findFit, here, if_pos ⟨live, size⟩]
    rw [step]
    exact ih rest fun c member => small c (by simp [member])

/-! ### Taking a node out -/

theorem load_linkAfter {a : Allocator} {pre post : List Block} {b : Block}
    (chain : Chain a.memory.next 0 a.state.firstFreeItem ((pre ++ b :: post).map Block.base)) :
    a.load (linkAfter .firstFreeItem pre) = b.base := by
  rcases List.eq_nil_or_concat pre with rfl | ⟨front, c, rfl⟩
  · exact chain.path.1
  · have path := chain.path
    rw [List.concat_eq_append] at path ⊢
    simp only [List.map_append, List.map_cons, List.map_nil] at path
    obtain ⟨r, before, after⟩ := Path.append_iff.mp path
    rw [linkAfter_concat]
    exact before.next_last.trans after.1

/-- Writing the successor of `b` where the link to `b` is takes `b` out of the chain. -/
theorem chain_store {a : Allocator} {pre post : List Block} {b : Block}
    (chain : Chain a.memory.next 0 a.state.firstFreeItem ((pre ++ b :: post).map Block.base)) :
    Chain (a.store (a.memory.next b.base) (linkAfter .firstFreeItem pre)).memory.next 0
      (a.store (a.memory.next b.base) (linkAfter .firstFreeItem pre)).state.firstFreeItem
      ((pre ++ post).map Block.base) := by
  have live : 0 ∉ (pre ++ post).map Block.base := fun member =>
    chain.live (by simp only [List.map_append, List.map_cons, List.mem_append, List.mem_cons] at member ⊢; tauto)
  have once := chain.nodup
  rcases List.eq_nil_or_concat pre with rfl | ⟨front, c, rfl⟩
  · exact chain.tail
  · have path := chain.path
    rw [List.concat_eq_append] at path live once ⊢
    simp only [List.map_append, List.map_cons, List.map_nil] at path live once ⊢
    rw [linkAfter_concat]
    refine ⟨?_, live⟩
    show Path (a.memory.setNext c.base _).next _ _ 0
    rw [Memory.next_setNext]
    obtain ⟨r, before, after⟩ := Path.append_iff.mp path
    have fresh : c.base ∉ front.map Block.base := by
      intro member
      have parts := (List.nodup_append.mp (List.nodup_append.mp once).1).2.2
      exact parts _ member c.base (by simp) rfl
    refine Path.append_iff.mpr ⟨_, before.relink fresh _, ?_⟩
    refine after.2.frame fun n member => ?_
    have other : n ≠ c.base := by
      intro same
      exact (List.nodup_append.mp once).2.2 c.base (by simp) n (List.mem_cons_of_mem _ member) same.symm
    simp [other]

theorem store_fields (a : Allocator) (v q : Nat) (ptr : NodePtr) (aligned : ∀ node, ptr = .next node → SamePage node q) :
    (a.store v ptr).memory.numPages q = a.memory.numPages q ∧ (a.store v ptr).memory.prev q = a.memory.prev q := by
  cases ptr with
  | firstFreeItem => exact ⟨rfl, rfl⟩
  | next node => exact ⟨Memory.numPages_setNext (aligned node rfl), Memory.prev_setNext (aligned node rfl)⟩

theorem linkAfter_node {pre : List Block} {node : Nat} (h : linkAfter .firstFreeItem pre = .next node) :
    ∃ c ∈ pre, c.base = node := by
  rcases List.eq_nil_or_concat pre with rfl | ⟨front, c, rfl⟩
  · cases h
  · rw [List.concat_eq_append, linkAfter_concat] at h
    exact ⟨c, by simp, NodePtr.next.inj h⟩

/-- `delete_node_from_list` on a node with a NULL `prev`; only the node behind it may have a `prev`. -/
theorem deleteNode_listed {a : Allocator} {pre post : List Block} {b : Block} {start : Nat}
    (chain : Chain a.memory.next 0 a.state.firstFreeItem ((pre ++ b :: post).map Block.base))
    (aligned : ∀ c ∈ pre ++ b :: post, SamePage start c.base)
    (size : ∀ c ∈ pre ++ post, a.memory.numPages c.base = c.pages)
    (front : a.memory.prev b.base = 0) (prev : ∀ c ∈ pre ++ post.tail, a.memory.prev c.base = 0) :
    Listed (deleteNodeFromList a (linkAfter .firstFreeItem pre)) (pre ++ post) := by
  have here := load_linkAfter chain
  have close : ∀ p ∈ (pre ++ b :: post).map Block.base, ∀ q ∈ (pre ++ b :: post).map Block.base, SamePage p q := by
    intro p hp q hq
    obtain ⟨c, hc, rfl⟩ := List.mem_map.mp hp
    obtain ⟨d, hd, rfl⟩ := List.mem_map.mp hq
    exact (aligned c hc).symm.trans (aligned d hd)
  -- the second write leaves the links and sizes of the listed blocks and clears the last `prev`
  obtain ⟨m, edit, links, sizes, prevs⟩ : ∃ m : Memory,
      deleteNodeFromList a (linkAfter .firstFreeItem pre) =
        ({ a with memory := m } : Allocator).store (m.next (({ a with memory := m } : Allocator).load (linkAfter .firstFreeItem pre)))
          (linkAfter .firstFreeItem pre) ∧
      (∀ q ∈ (pre ++ b :: post).map Block.base, m.next q = a.memory.next q) ∧
      (∀ q ∈ (pre ++ b :: post).map Block.base, m.numPages q = a.memory.numPages q) ∧
      (∀ c ∈ pre ++ post, m.prev c.base = 0) := by
    cases post with
    | nil =>
      have last : a.memory.next b.base = 0 := by
        have path := chain.path
        simp only [List.map_append, List.map_cons, List.map_nil] at path
        exact path.next_last
      refine ⟨a.memory, ?_, fun _ _ => rfl, fun _ _ => rfl, by simpa using prev⟩
      simp [deleteNodeFromList, here, front, last]
    | cons r rest =>
      have behind : a.memory.next b.base = r.base := by
        have path := chain.path
        simp only [List.map_append, List.map_cons] at path
        obtain ⟨_, -, after⟩ := Path.append_iff.mp path
        exact after.2.1
      have live : r.base ≠ 0 := fun zero => chain.live (by simp [zero])
      have member : r.base ∈ (pre ++ b :: r :: rest).map Block.base := by simp
      refine ⟨a.memory.setPrev r.base 0, ?_, ?_, ?_, ?_⟩
      · simp [deleteNodeFromList, here, front, behind, live]
      · intro q hq
        exact Memory.next_setPrev (close _ member q hq)
      · intro q hq
        exact Memory.numPages_setPrev (close _ member q hq)
      · intro c hc
        rw [Memory.prev_setPrev]
        by_cases same : c.base = r.base
        · simp [same]
        · have other : c ∈ pre ++ rest := by
            simp only [List.mem_append, List.mem_cons] at hc ⊢
            rcases hc with early | rfl | late
            · exact .inl early
            · exact absurd rfl same
            · exact .inr late
          simpa [same] using prev c other
  have chain' : Chain m.next 0 a.state.firstFreeItem ((pre ++ b :: post).map Block.base) := chain.frame links
  have here' := load_linkAfter (a := { a with memory := m }) chain'
  rw [edit, here']
  have kept : ∀ c ∈ pre ++ post, c ∈ pre ++ b :: post := by
    intro c member
    simp only [List.mem_append, List.mem_cons] at member ⊢
    tauto
  have fields := fun c (member : c ∈ pre ++ post) =>
    store_fields { a with memory := m } (m.next b.base) c.base (linkAfter .firstFreeItem pre) fun node isNode => by
      obtain ⟨d, hd, rfl⟩ := linkAfter_node isNode
      exact (aligned d (by simp [hd])).symm.trans (aligned c (kept c member))
  refine ⟨⟨chain_store (a := { a with memory := m }) chain', fun c member => ?_⟩, fun c member => ?_⟩
  · rw [(fields c member).1]
    exact (sizes _ (List.mem_map_of_mem (kept c member))).trans (size c member)
  · rw [(fields c member).2]
    exact prevs c member

/-! ### Splitting a node -/

def Block.remainder (b : Block) (numPages : Nat) : List Block :=
  if numPages < b.pages then [⟨b.base + pageSize * numPages, b.pages - numPages⟩] else []

theorem splitNodeAt_fields {m : Memory} {node splitAt q : Nat} (sized : splitAt < m.numPages node)
    (bounded : node + pageSize * m.numPages node ≤ 2 ^ 32) (aligned : SamePage node q) :
    (splitNodeAt m node splitAt).next q =
        Function.update (Function.update m.next (node + pageSize * splitAt) (m.next node)) node (node + pageSize * splitAt) q ∧
      (splitNodeAt m node splitAt).numPages q =
        Function.update m.numPages (node + pageSize * splitAt) (m.numPages node - splitAt) q ∧
      (splitNodeAt m node splitAt).prev q = Function.update m.prev (node + pageSize * splitAt) node q := by
  have inside : (node + pageSize * splitAt) % 2 ^ 32 = node + pageSize * splitAt := by
    apply Nat.mod_eq_of_lt
    unfold pageSize at bounded ⊢
    omega
  have left : (m.numPages node + 2 ^ 32 - splitAt) % 2 ^ 32 = m.numPages node - splitAt := by
    unfold pageSize at bounded
    omega
  have whole : SamePage (node + pageSize * splitAt) node := by unfold SamePage; simp
  have whole' : SamePage (node + pageSize * splitAt) q := whole.trans aligned
  unfold splitNodeAt
  simp only [inside, left, Memory.next_setPrev whole]
  refine ⟨?_, ?_, ?_⟩
  · rw [Memory.next_setNext]
    by_cases first : q = node
    · simp [first]
    · rw [Function.update_of_ne first, Function.update_of_ne first, Memory.next_setNumPages whole', Memory.next_setNext]
      by_cases second : q = node + pageSize * splitAt
      · simp [second]
      · rw [Function.update_of_ne second, Function.update_of_ne second, Memory.next_setPrev whole']
  · rw [Memory.numPages_setNext aligned, Memory.numPages_setNumPages]
    by_cases second : q = node + pageSize * splitAt
    · simp [second]
    · rw [Function.update_of_ne second, Function.update_of_ne second, Memory.numPages_setNext whole',
        Memory.numPages_setPrev whole']
  · rw [Memory.prev_setNext aligned, Memory.prev_setNumPages whole', Memory.prev_setNext whole', Memory.prev_setPrev]

/-! ### The two calls -/

theorem FreeList.search {a : Allocator} {pre post : List Block} {numPages : Nat} (listed : FreeList a (pre ++ post))
    (small : ∀ c ∈ pre, c.pages < numPages)
    (stop : ∀ b ∈ post.head?, numPages ≤ b.pages) :
    findFit (pre.length + 1) a .firstFreeItem numPages = some (linkAfter .firstFreeItem pre) ∧
      a.load (linkAfter .firstFreeItem pre) = (post.head?.map Block.base).getD 0 := by
  have path := listed.chain.path
  rw [List.map_append] at path
  obtain ⟨q, front, back⟩ := Path.append_iff.mp path
  have walked : ∀ c ∈ pre, c.base ≠ 0 ∧ a.memory.numPages c.base < numPages := by
    intro c member
    refine ⟨fun zero => listed.chain.live ?_, ?_⟩
    · rw [← zero]
      exact List.mem_map_of_mem (by simp [member])
    · rw [listed.size c (by simp [member])]
      exact small c member
  obtain ⟨skipped, reached⟩ := findFit_skips 1 (show Path _ (a.load .firstFreeItem) _ q from front) walked
  rw [skipped, reached]
  cases post with
  | nil =>
    have stopped : q = 0 := back
    refine ⟨?_, stopped⟩
    simp [findFit, reached, stopped]
  | cons b post =>
    have here : q = b.base := back.1
    refine ⟨?_, here⟩
    have fits : ¬ a.memory.numPages b.base < numPages := by
      rw [listed.size b (by simp)]
      exact Nat.not_lt.mpr (stop b rfl)
    simp [findFit, reached, here, fits]

theorem alloc_none {a : Allocator} {free : List Block} {numPages : Nat} (listed : FreeList a free)
    (small : ∀ c ∈ free, c.pages < numPages) :
    linkedListAllocPages (free.length + 1) a numPages = some (0, a) := by
  have list : FreeList a (free ++ []) := by simpa using listed
  obtain ⟨found, load⟩ := list.search small (by simp)
  simp [linkedListAllocPages, found, load]

/-- The first block that is large enough leaves the list; what it has more than asked for stays, in its place. -/
theorem alloc_first {a : Allocator} {pre post : List Block} {b : Block} {start numPages : Nat}
    (listed : Listed a (pre ++ b :: post)) (aligned : ∀ c ∈ pre ++ b :: post, SamePage start c.base)
    (bounded : b.limit ≤ 2 ^ 32)
    (vacant : numPages < b.pages → ∀ c ∈ pre ++ b :: post, c.base ≠ b.base + pageSize * numPages)
    (small : ∀ c ∈ pre, c.pages < numPages) (fits : numPages ≤ b.pages) (positive : 0 < b.base) :
    ∃ a', linkedListAllocPages (pre.length + 1) a numPages = some (b.base, a') ∧
      Listed a' (pre ++ (b.remainder numPages ++ post)) := by
  obtain ⟨found, load⟩ := listed.toFreeList.search small (by simpa using fits)
  have here : a.load (linkAfter .firstFreeItem pre) = b.base := by simpa using load
  have size : a.memory.numPages b.base = b.pages := listed.size b (by simp)
  by_cases more : numPages < b.pages
  · have sized : numPages < a.memory.numPages b.base := size ▸ more
    have limit : b.base + pageSize * a.memory.numPages b.base ≤ 2 ^ 32 := size ▸ bounded
    obtain ⟨rest, restEq⟩ : ∃ rest : Block, rest = ⟨b.base + pageSize * numPages, b.pages - numPages⟩ := ⟨_, rfl⟩
    have restBase : b.base + pageSize * numPages = rest.base := by rw [restEq]
    have restPages : b.pages - numPages = rest.pages := by rw [restEq]
    obtain ⟨m, split⟩ : ∃ m, m = splitNodeAt a.memory b.base numPages := ⟨_, rfl⟩
    have fields := fun q (near : SamePage b.base q) => splitNodeAt_fields sized limit near
    rw [← split, restBase, size, restPages] at fields
    have bAligned := aligned b (by simp)
    have near : ∀ c ∈ pre ++ b :: post, SamePage b.base c.base := fun c member => bAligned.symm.trans (aligned c member)
    have restNear : SamePage b.base rest.base := by rw [← restBase]; unfold SamePage; simp
    have apart : ∀ c ∈ pre ++ b :: post, c.base ≠ rest.base := fun c member => restBase ▸ vacant more c member
    have bases : ((pre ++ b :: post).map Block.base).Nodup := listed.chain.nodup
    rw [List.map_append, List.map_cons] at bases
    have others : ∀ c ∈ pre ++ post, c ∈ pre ++ b :: post ∧ c.base ≠ b.base := by
      intro c member
      rcases List.mem_append.mp member with early | late
      · refine ⟨by simp [early], (List.nodup_append.mp bases).2.2 _ (List.mem_map_of_mem early) _ (by simp)⟩
      · have distinct := (List.nodup_cons.mp (List.nodup_append.mp bases).2.1).1
        exact ⟨by simp [late], fun same => distinct (same ▸ List.mem_map_of_mem late)⟩
    have onward : m.next rest.base = a.memory.next b.base := by
      rw [(fields _ restNear).1, Function.update_of_ne (apart b (by simp)).symm, Function.update_self]
    have links : ∀ c ∈ pre ++ post, m.next c.base = a.memory.next c.base := by
      intro c member
      have ⟨old, other⟩ := others c member
      rw [(fields _ (near c old)).1, Function.update_of_ne other, Function.update_of_ne (apart c old)]
    have chain : Chain m.next 0 a.state.firstFreeItem ((pre ++ b :: rest :: post).map Block.base) := by
      have before := listed.chain
      rw [List.map_append, List.map_cons] at before ⊢
      refine before.insert (by omega) ?_ onward fun q member => ?_
      · rw [(fields _ (near b (by simp))).1, Function.update_self]
      · rw [← List.map_append] at member
        obtain ⟨c, old, rfl⟩ := List.mem_map.mp member
        exact links c old
    refine ⟨deleteNodeFromList { a with memory := m } (linkAfter .firstFreeItem pre), ?_, ?_⟩
    · have current : ({ a with memory := m } : Allocator).load (linkAfter .firstFreeItem pre) = b.base :=
        load_linkAfter (a := { a with memory := m }) chain
      have live : b.base ≠ 0 := by omega
      simp [linkedListAllocPages, found, here, live, sized, ← split, current]
    · have left : b.remainder numPages ++ post = rest :: post := by simp [Block.remainder, more, restEq]
      rw [left]
      have aligned' : ∀ c ∈ pre ++ b :: rest :: post, SamePage start c.base := by
        intro c member
        simp only [List.mem_append, List.mem_cons] at member
        rcases member with early | rfl | rfl | late
        · exact aligned c (by simp [early])
        · exact bAligned
        · exact bAligned.trans restNear
        · exact aligned c (by simp [late])
      apply deleteNode_listed chain aligned'
      · intro c member
        simp only [List.mem_append, List.mem_cons] at member
        rcases member with early | rfl | late
        · have old : c ∈ pre ++ b :: post := by simp [early]
          rw [(fields _ (near c old)).2.1, Function.update_of_ne (apart c old)]
          exact listed.size c old
        · rw [(fields _ restNear).2.1, Function.update_self]
        · have old : c ∈ pre ++ b :: post := by simp [late]
          rw [(fields _ (near c old)).2.1, Function.update_of_ne (apart c old)]
          exact listed.size c old
      · rw [(fields _ (near b (by simp))).2.2, Function.update_of_ne (apart b (by simp))]
        exact listed.prev b (by simp)
      · intro c member
        have old := (others c member).1
        rw [(fields _ (near c old)).2.2, Function.update_of_ne (apart c old)]
        exact listed.prev c old
  · have whole : ¬ a.memory.numPages b.base > numPages := size ▸ more
    have kept : ∀ c ∈ pre ++ post, c ∈ pre ++ b :: post := by
      intro c member
      simp only [List.mem_append, List.mem_cons] at member ⊢
      tauto
    refine ⟨deleteNodeFromList a (linkAfter .firstFreeItem pre), ?_, ?_⟩
    · have live : b.base ≠ 0 := by omega
      simp [linkedListAllocPages, found, here, live, whole]
    · have left : b.remainder numPages ++ post = post := by simp [Block.remainder, more]
      rw [left]
      apply deleteNode_listed listed.chain aligned
      · exact fun c member => listed.size c (kept c member)
      · exact listed.prev b (by simp)
      · intro c member
        apply listed.prev c
        rcases List.mem_append.mp member with early | late
        · simp [early]
        · simp [List.mem_of_mem_tail late]

theorem free_first {a : Allocator} {free : List Block} {b : Block} (listed : Listed a free)
    (aligned : ∀ c ∈ free, SamePage b.base c.base) (fresh : ∀ c ∈ free, c.base ≠ b.base) (positive : 0 < b.base) :
    Listed (linkedListFreePages a b.base b.pages) (b :: free) := by
  have self : SamePage b.base b.base := rfl
  refine ⟨⟨⟨⟨rfl, ?_⟩, ?_⟩, ?_⟩, ?_⟩
  · show Path (linkedListFreePages a b.base b.pages).memory.next
      ((linkedListFreePages a b.base b.pages).memory.next b.base) _ 0
    simp only [linkedListFreePages, Memory.next_setNext, Function.update_self]
    refine listed.chain.path.frame fun q member => ?_
    obtain ⟨c, old, rfl⟩ := List.mem_map.mp member
    rw [Function.update_of_ne (fresh c old), Memory.next_setPrev (aligned c old), Memory.next_setNumPages (aligned c old)]
  · simp only [List.map_cons, List.mem_cons, not_or]
    exact ⟨by omega, listed.chain.live⟩
  · intro c member
    rcases List.mem_cons.mp member with rfl | old
    · simp only [linkedListFreePages]
      rw [Memory.numPages_setNext self, Memory.numPages_setPrev self, Memory.numPages_setNumPages, Function.update_self]
    · simp only [linkedListFreePages]
      rw [Memory.numPages_setNext (aligned c old), Memory.numPages_setPrev (aligned c old), Memory.numPages_setNumPages,
        Function.update_of_ne (fresh c old)]
      exact listed.size c old
  · intro c member
    rcases List.mem_cons.mp member with rfl | old
    · simp only [linkedListFreePages]
      rw [Memory.prev_setNext self, Memory.prev_setPrev, Function.update_self]
    · simp only [linkedListFreePages]
      rw [Memory.prev_setNext (aligned c old), Memory.prev_setPrev, Function.update_of_ne (fresh c old),
        Memory.prev_setNumPages (aligned c old)]
      exact listed.prev c old

theorem init_listed (m : Memory) {base numPages : Nat} (positive : 0 < base) :
    Listed (initLinkedListAllocState m base numPages) [⟨base, numPages⟩] := by
  have self : SamePage base base := rfl
  refine ⟨⟨⟨⟨rfl, ?_⟩, ?_⟩, ?_⟩, ?_⟩
  · show (initLinkedListAllocState m base numPages).memory.next base = 0
    simp [initLinkedListAllocState, Memory.next_setNext]
  · simp
    omega
  · simp [initLinkedListAllocState, Memory.numPages_setNext self, Memory.numPages_setPrev self, Memory.numPages_setNumPages]
  · simp [initLinkedListAllocState, Memory.prev_setNext self, Memory.prev_setPrev]

end BradypOS.Pages
