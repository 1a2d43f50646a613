import BradypOS.Theory.Chain

/-!
# The page allocator (`lib/buddy/linked_list_alloc.c`)

A first-fit allocator of 512-byte pages. The free list lives in the free pages: the first words of a
free block are its `struct linked_list_node`. Memory is a map from addresses to words.
-/

namespace BradypOS.Pages

/-- `LINKED_LIST_ALLOC_PAGE_SIZE`. -/
def pageSize : Nat := 512

abbrev Memory := Nat → Nat

namespace Memory

def numPages (m : Memory) (node : Nat) : Nat := m node
def next (m : Memory) (node : Nat) : Nat := m (node + 4)
def prev (m : Memory) (node : Nat) : Nat := m (node + 8)

def setNumPages (m : Memory) (node v : Nat) : Memory := Function.update m node v
def setNext (m : Memory) (node v : Nat) : Memory := Function.update m (node + 4) v
def setPrev (m : Memory) (node v : Nat) : Memory := Function.update m (node + 8) v

end Memory

structure LinkedListAllocState where
  start : Nat
  pageCount : Nat
  firstFreeItem : Nat

/-- The allocator's own record and the memory its free list lives in. -/
structure Allocator where
  state : LinkedListAllocState
  memory : Memory

/-- A `struct linked_list_node **`: the head of the list, or the `next` field of a node. -/
inductive NodePtr where
  | firstFreeItem
  | next (node : Nat)

namespace Allocator

def load (a : Allocator) : NodePtr → Nat
  | .firstFreeItem => a.state.firstFreeItem
  | .next node => a.memory.next node

def store (a : Allocator) (v : Nat) : NodePtr → Allocator
  | .firstFreeItem => { a with state := { a.state with firstFreeItem := v } }
  | .next node => { a with memory := a.memory.setNext node v }

end Allocator

def initLinkedListAllocState (m : Memory) (base numPages : Nat) : Allocator where
  state := ⟨base, numPages, base⟩
  memory := ((m.setNumPages base numPages).setPrev base 0).setNext base 0

def splitNodeAt (m : Memory) (node splitAt : Nat) : Memory :=
  let newSize := (m.numPages node + 2 ^ 32 - splitAt) % 2 ^ 32
  let newNode := (node + pageSize * splitAt) % 2 ^ 32
  let m := m.setPrev newNode node
  let m := m.setNext newNode (m.next node)
  let m := m.setNumPages newNode newSize
  m.setNext node newNode

def deleteNodeFromList (a : Allocator) (ptr : NodePtr) : Allocator :=
  let node := a.load ptr
  let prev := a.memory.prev node
  let next := a.memory.next node
  let a := if prev ≠ 0 then { a with memory := a.memory.setNext prev next } else a
  let a := if next ≠ 0 then { a with memory := a.memory.setPrev next prev } else a
  -- `*node = (*node)->next` reads the link again, after the two writes
  a.store (a.memory.next (a.load ptr)) ptr

/-- The search loop of `linked_list_alloc_pages`; `none` when the fuel does not suffice. -/
def findFit : Nat → Allocator → NodePtr → Nat → Option NodePtr
  | 0, _, _, _ => none
  | fuel + 1, a, current, numPages =>
    if a.load current ≠ 0 ∧ a.memory.numPages (a.load current) < numPages then
      findFit fuel a (.next (a.load current)) numPages
    else some current

def linkedListAllocPages (fuel : Nat) (a : Allocator) (numPages : Nat) : Option (Nat × Allocator) := do
  let current ← findFit fuel a .firstFreeItem numPages
  if a.load current = 0 then
    return (0, a)
  let a :=
    if a.memory.numPages (a.load current) > numPages then
      { a with memory := splitNodeAt a.memory (a.load current) numPages }
    else a
  return (a.load current, deleteNodeFromList a current)

def linkedListFreePages (a : Allocator) (base numPages : Nat) : Allocator where
  state := { a.state with firstFreeItem := base }
  memory := ((a.memory.setNumPages base numPages).setPrev base 0).setNext base a.state.firstFreeItem

/-! ### Blocks and the runs of a client -/

structure Block where
  base : Nat
  pages : Nat
  deriving DecidableEq

namespace Block

def limit (b : Block) : Nat := b.base + pageSize * b.pages

def Covers (b : Block) (address : Nat) : Prop := b.base ≤ address ∧ address < b.limit

end Block

/-- The allocator and the blocks it has handed out and not got back. -/
structure Ledger where
  allocator : Allocator
  handed : List Block

inductive Action where
  | alloc (numPages : Nat)
  | free (block : Block)
  | write

/-- A client allocates at least one page, frees what it holds, and writes to what it holds. -/
inductive Step : Ledger → Action → Ledger → Prop where
  | alloc {l : Ledger} {fuel numPages base : Nat} {a : Allocator} :
    0 < numPages → linkedListAllocPages fuel l.allocator numPages = some (base, a) →
    Step l (.alloc numPages) ⟨a, if base = 0 then l.handed else ⟨base, numPages⟩ :: l.handed⟩
  | free {l : Ledger} {b : Block} :
    b ∈ l.handed → Step l (.free b) ⟨linkedListFreePages l.allocator b.base b.pages, l.handed.erase b⟩
  | write {l : Ledger} {m : Memory} :
    (∀ address, (∀ b ∈ l.handed, ¬ b.Covers address) → m address = l.allocator.memory address) →
    Step l .write ⟨{ l.allocator with memory := m }, l.handed⟩

end BradypOS.Pages
