import BradypOS.L4.Fpages
import BradypOS.Pages.FirstFit

/-!
# Memory over IPC (`usr/root/memory.c`)

Root answers requests for pages from its page allocator. Both handlers are functions of the allocator
and of root's UTCB, and take the message tag that root received. The `unmap` system call between the
two halves of `handle_ipc_free` changes neither.
-/

namespace BradypOS.Root

open L4 Pages

/-! ### Labels (`root.h`) -/

def rootAllocMemRet : Word := 0#32
def rootFreeMemRet : Word := 1#32
def rootError : Word := 2#32

/-! ### The handlers -/

def allocPages (fuel : Nat) (state : Allocator) (numPages : Word) : Option (Nat × Allocator) :=
  linkedListAllocPages fuel state numPages.toNat

def freePages (state : Allocator) (base numPages : Word) : Allocator :=
  linkedListFreePages state base.toNat numPages.toNat

def createIpcAllocError (u : Utcb) (err : Errno) : Utcb := u.makeIpcError rootError err

/-- The number of pages that `handle_ipc_alloc` asks for. -/
def pagesAsked (requestedFpage : Word) : Word := 1#32 <<< (Fpage.s requestedFpage + 9)

def allocatedFpage (requestedFpage : Word) (mem : Nat) : Word :=
  Fpage.addRights (Fpage.log2 (BitVec.ofNat 32 mem) (Fpage.s requestedFpage + 9)) (Fpage.perm requestedFpage)

def grantAnswer (u : Utcb) (fpage : Word) : Utcb :=
  let grantItem := GrantItem.ofFpage fpage 0#32
  ((u.setMr 0 (MsgTag.mk 1 2 0#32 rootAllocMemRet)).setMr 1 grantItem.first).setMr 2 grantItem.second

/-- `none` when the fuel does not suffice for the search of the free list. -/
def handleIpcAlloc (fuel : Nat) (state : Allocator) (u : Utcb) (msgTag : Word) : Option (Utcb × Allocator) :=
  if MsgTag.u msgTag ≠ 2 ∨ MsgTag.t msgTag ≠ 0 then some (createIpcAllocError u .einval, state)
  else do
    let requestedFpage := u.mr 1
    let (mem, state) ← allocPages fuel state (pagesAsked requestedFpage)
    if mem = 0 then return (createIpcAllocError u .enomem, state)
    return (grantAnswer u (allocatedFpage requestedFpage mem), state)

def handleIpcFree (state : Allocator) (u : Utcb) (msgTag : Word) : Utcb × Allocator :=
  if MsgTag.u msgTag ≠ 2 ∨ MsgTag.t msgTag ≠ 0 then (createIpcAllocError u .einval, state)
  else
    let targetPage := u.mr 1
    let u := u.setMr 0 targetPage
    (u.setMr 0 (MsgTag.mk 0 0 0#32 rootFreeMemRet), freePages state (Fpage.address targetPage) (Fpage.size targetPage / 512#32))

/-! ### What a request can be answered with -/

/-- The two words of arguments that both handlers ask for. -/
def WellFormed (msgTag : Word) : Prop := MsgTag.u msgTag = 2 ∧ MsgTag.t msgTag = 0

instance (msgTag : Word) : Decidable (WellFormed msgTag) := inferInstanceAs (Decidable (_ ∧ _))

/-- The answer has the label of a success. -/
def Succeeded (u : Utcb) : Prop := MsgTag.label (u.mr 0) = rootAllocMemRet

/-- The page that a successful answer grants. -/
def grantedFpage (u : Utcb) : Word := GrantItem.sndFpage ⟨u.mr 1, u.mr 2⟩

section
variable {fuel : Nat} {state state' : Allocator} {u u' : Utcb} {msgTag : Word}

theorem succeeded_grantAnswer (u : Utcb) (fpage : Word) : Succeeded (grantAnswer u fpage) := by
  unfold Succeeded grantAnswer
  rw [Utcb.mr_setMr_other _ (by decide), Utcb.mr_setMr_other _ (by decide), Utcb.mr_setMr_same, MsgTag.label_mk]
  rfl

theorem not_succeeded_error (u : Utcb) (err : Errno) : ¬ Succeeded (createIpcAllocError u err) := by
  unfold Succeeded createIpcAllocError Utcb.makeIpcError
  rw [Utcb.mr_setMr_other _ (by decide), Utcb.mr_setMr_same, MsgTag.label_mk]
  decide

theorem handleIpcAlloc_malformed (fuel : Nat) (state : Allocator) (u : Utcb) (malformed : ¬ WellFormed msgTag) :
    handleIpcAlloc fuel state u msgTag = some (createIpcAllocError u .einval, state) := by
  unfold WellFormed at malformed
  rw [handleIpcAlloc, if_pos (by omega)]

theorem handleIpcAlloc_wellFormed (fuel : Nat) (state : Allocator) (u : Utcb) (wellFormed : WellFormed msgTag) :
    handleIpcAlloc fuel state u msgTag = (allocPages fuel state (pagesAsked (u.mr 1))).map fun r =>
      (if r.1 = 0 then createIpcAllocError u .enomem else grantAnswer u (allocatedFpage (u.mr 1) r.1), r.2) := by
  rw [handleIpcAlloc, if_neg (by simp [wellFormed.1, wellFormed.2])]
  dsimp only
  cases allocPages fuel state (pagesAsked (u.mr 1)) with
  | none => rfl
  | some r =>
    by_cases null : r.1 = 0
    · simp [null]
    · simp [null]

theorem handleIpcAlloc_fuel {fuel' : Nat} {r r' : Utcb × Allocator} (ran : handleIpcAlloc fuel state u msgTag = some r)
    (ran' : handleIpcAlloc fuel' state u msgTag = some r') : r = r' := by
  by_cases wellFormed : WellFormed msgTag
  · rw [handleIpcAlloc_wellFormed _ _ _ wellFormed] at ran ran'
    obtain ⟨q, allocated, rfl⟩ := Option.map_eq_some_iff.mp ran
    obtain ⟨q', allocated', rfl⟩ := Option.map_eq_some_iff.mp ran'
    rw [alloc_fuel allocated allocated']
  · rw [handleIpcAlloc_malformed _ _ _ wellFormed] at ran ran'
    exact Option.some.inj (ran.symm.trans ran')

/-- Only a request that gets pages is answered with success. -/
theorem handleIpcAlloc_succeeded (ran : handleIpcAlloc fuel state u msgTag = some (u', state')) (success : Succeeded u') :
    WellFormed msgTag ∧ ∃ mem, mem ≠ 0 ∧ allocPages fuel state (pagesAsked (u.mr 1)) = some (mem, state') ∧
      u' = grantAnswer u (allocatedFpage (u.mr 1) mem) := by
  by_cases wellFormed : WellFormed msgTag
  · rw [handleIpcAlloc_wellFormed fuel state u wellFormed] at ran
    obtain ⟨r, allocated, same⟩ := Option.map_eq_some_iff.mp ran
    obtain ⟨answer, rfl⟩ := Prod.mk.inj same
    by_cases null : r.1 = 0
    · rw [if_pos null] at answer
      rw [← answer] at success
      exact absurd success (not_succeeded_error u _)
    · rw [if_neg null] at answer
      exact ⟨wellFormed, r.1, null, allocated, answer.symm⟩
  · rw [handleIpcAlloc_malformed fuel state u wellFormed] at ran
    cases ran
    exact absurd success (not_succeeded_error u _)

end
end BradypOS.Root
