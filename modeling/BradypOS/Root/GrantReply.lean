import BradypOS.Ipc.Intact
import BradypOS.Root.GivenBack

/-!
# The answer to a request for memory

The tag of the answer counts one untyped word, and `handle_ipc_alloc` stores the grant item in the first
two message registers. The kernel takes the second word of the item, which is the flexpage, for an item of the
type that the rights of the page spell.
-/

namespace BradypOS

open L4

namespace Root

open Pages

/-- The receiver finds one grant item behind the untyped words, for this page. -/
def DeliversGrant (m : Memory) (src dst : Tcb) (fpage : Word) : Prop :=
  ∃ m', m.copyPayload src dst = .ok (.none, m') ∧ MsgTag.t ((m'.utcb dst.utcb).mr 0) = 2 ∧
    Item.type ((m'.utcb dst.utcb).mr (MsgTag.u ((m'.utcb dst.utcb).mr 0) + 1)) = .grantItem ∧
    GrantItem.sndFpage ⟨(m'.utcb dst.utcb).mr (MsgTag.u ((m'.utcb dst.utcb).mr 0) + 1),
      (m'.utcb dst.utcb).mr (MsgTag.u ((m'.utcb dst.utcb).mr 0) + 2)⟩ = fpage

/-- No answer of success delivers the page that it grants. -/
theorem grantReply_not_delivered {fuel : Nat} {state state' : Allocator} {u u' : Utcb} {msgTag : Word}
    (ran : handleIpcAlloc fuel state u msgTag = some (u', state')) (success : Succeeded u') {m : Memory} {src : Tcb} (dst : Tcb)
    (sent : m.utcb src.utcb = u') : ¬ DeliversGrant m src dst (grantedFpage u') := by
  obtain ⟨-, mem, -, -, answer⟩ := handleIpcAlloc_succeeded ran success
  have tag : (m.utcb src.utcb).mr 0 = MsgTag.mk 1 2 0#32 rootAllocMemRet := by
    rw [sent, answer, grantAnswer, Utcb.mr_setMr_other _ (by decide), Utcb.mr_setMr_other _ (by decide), Utcb.mr_setMr_same]
  have words : MsgTag.u ((m.utcb src.utcb).mr 0) = 1 := by rw [tag, MsgTag.u_mk]
  have typed : MsgTag.t ((m.utcb src.utcb).mr 0) = 2 := by rw [tag, MsgTag.t_mk]
  rintro ⟨m', copied, -, grant, -⟩
  obtain ⟨-, m₁, rfl, passed⟩ := Memory.copyPayload_item words typed copied
  rw [Memory.withHead_tag, MsgTag.u_mk, Memory.withHead_mr _ _ _ _ _ _ (by decide)] at grant
  -- the kernel stores the item whose type it has looked at
  rcases passed with ⟨mapped, rfl⟩ | ⟨taken, rfl⟩
  · rw [Memory.stored_first, Memory.fateOf_mapped mapped] at grant
    cases grant
  · rw [Memory.tookString_first, (Memory.fateOf_taken (by decide) taken).1] at grant
    cases grant

/-- An answer in root's UTCB at 0x5000, for a client with no receive buffers. -/
def answered (u' : Utcb) : Memory where
  utcb p := if p = 0x5000#32 then u' else sampleRequest 0#32
  frame _ := ⟨0#32, 0#32, 0#32, 0#32, 0#32, 0#32⟩
  byte _ := 0#8

/-- One page with no rights out of 516: the page is taken for a string item. -/
theorem grantReply_not_delivered_noRights : ∃ u' state',
    handleIpcAlloc 2 (initLinkedListAllocState (fun _ => 0) 0x20001800 516) (sampleRequest 0#32) sampleTag = some (u', state') ∧
      Succeeded u' ∧ ¬ DeliversGrant (answered u') (Memory.threadAt 0x5000#32) (Memory.threadAt 0x5100#32) (grantedFpage u') := by
  have run : ∃ u' state',
      handleIpcAlloc 2 (initLinkedListAllocState (fun _ => 0) 0x20001800 516) (sampleRequest 0#32) sampleTag = some (u', state') ∧
        Succeeded u' := ⟨_, _, rfl, rfl⟩
  obtain ⟨u', state', ran, success⟩ := run
  exact ⟨u', state', ran, success, grantReply_not_delivered ran success _ rfl⟩

/-- One readable page out of 516: the kernel does not come back from the copy. -/
theorem grantReply_readable_hangs : ∃ u' state',
    handleIpcAlloc 2 (initLinkedListAllocState (fun _ => 0) 0x20001800 516) (sampleRequest 4#32) sampleTag = some (u', state') ∧
      Succeeded u' ∧ (answered u').copyPayload (Memory.threadAt 0x5000#32) (Memory.threadAt 0x5100#32) = .error .hang ∧
      ¬ DeliversGrant (answered u') (Memory.threadAt 0x5000#32) (Memory.threadAt 0x5100#32) (grantedFpage u') := by
  have run : ∃ u' state',
      handleIpcAlloc 2 (initLinkedListAllocState (fun _ => 0) 0x20001800 516) (sampleRequest 4#32) sampleTag = some (u', state') ∧
        Succeeded u' ∧ (answered u').copyPayload (Memory.threadAt 0x5000#32) (Memory.threadAt 0x5100#32) = .error .hang :=
    ⟨_, _, rfl, rfl, rfl⟩
  obtain ⟨u', state', ran, success, hangs⟩ := run
  refine ⟨u', state', ran, success, hangs, ?_⟩
  intro ⟨m', copied, _⟩
  rw [hangs] at copied
  cases copied

end Root
end BradypOS
