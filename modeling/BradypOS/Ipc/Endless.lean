import BradypOS.Ipc.Depth
import BradypOS.Service.Message

/-!
# A chain of searches that goes round

A message of a few words and no typed items is always delivered, and leaves such a message behind. So a call goes along a chain
whose senders have such messages for as long as the chain goes on.
-/

namespace BradypOS

open L4
open Theory (Turn Reaches ComesBack)

/-- The tag of a message without typed items that fits into the message registers. -/
def Plain (tag : Word) : Prop := MsgTag.t tag = 0 ∧ MsgTag.u tag ≤ mrCount

instance (tag : Word) : Decidable (Plain tag) := inferInstanceAs (Decidable (_ ∧ _))

namespace Kernel

variable {k k' k₁ : Kernel} {c t : Nat}

def tagOf (k : Kernel) (t : Nat) : Word := (k.mem.utcb (k.tcbs t).utcb).mr 0

/-- The messages that wait are plain. -/
def PlainSenders (k : Kernel) : Prop := ∀ s, k.state s = .sendBlocked → Plain (k.tagOf s)

theorem PlainSenders.transfer (plain : k.PlainSenders) (state : ∀ s, k'.state s = .sendBlocked → k.state s = .sendBlocked)
    (utcb : ∀ s, (k'.tcbs s).utcb = (k.tcbs s).utcb)
    (kept : ∀ p, Plain ((k.mem.utcb p).mr 0) → Plain ((k'.mem.utcb p).mr 0)) : k'.PlainSenders := by
  intro s sends
  unfold tagOf
  rw [utcb]
  exact kept _ (plain s (state s sends))

end Kernel
end BradypOS
