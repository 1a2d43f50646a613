import BradypOS.Kernel.Ipc
import BradypOS.Service.Message

/-!
# Messages between programs

What `copy_payload` makes of the messages that clients and servers compose: words alone, words and
one map item, words and one simple string.
-/

namespace BradypOS

open L4

namespace L4.MsgTag

theorem mk_label (u t : Nat) (f l : Word) : mk u t f (l &&& 0xFFFF#32) = mk u t f l := by
  rw [mk, mk, BitVec.and_assoc, BitVec.and_self]

end L4.MsgTag

namespace Memory

/-- The id that a receiver finds in its `r0`. -/
def senderOf (src dst : Tcb) : Word := if dst.addressSpace = src.addressSpace then src.localId else src.globalId

/-- The words and the sender of a message that has arrived. -/
structure Arrived (m : Memory) (src dst : Tcb) (u t : Nat) (label : Word) (m' : Memory) : Prop where
  tag : (m'.utcb dst.utcb).mr 0 = MsgTag.mk u t 0#32 label
  words : ∀ i, 1 ≤ i → i ≤ u → (m'.utcb dst.utcb).mr i = (m.utcb src.utcb).mr i
  sender : (m'.frame dst.ctx.sp).r0 = senderOf src dst
  others : ∀ p, p ≠ dst.utcb → m'.utcb p = m.utcb p

variable {m : Memory} {src dst : Tcb} {u t : Nat} {label : Word}

/-- The part of `copy_payload` in front of the items. -/
def withWords (m : Memory) (src dst : Word) (u : Nat) : Memory :=
  m.setUtcb dst fun old => { old with words := fun i => if 1 ≤ i ∧ i ≤ u then (m.utcb src).words i else old.words i }

/-- The part of `copy_payload` behind the items. -/
def withHead (m : Memory) (src dst : Tcb) (u t : Nat) (label : Word) : Memory :=
  (m.setUtcb dst.utcb fun old => { old.setMr 0 (MsgTag.mk u t 0#32 label) with sender := src.globalId }).setFrame dst.ctx.sp
    fun f => { f with r0 := senderOf src dst }

theorem copyPayload_of_items (tag : (m.utcb src.utcb).mr 0 = MsgTag.mk u t 0#32 label) (fits : u + t ≤ mrCount) {m' : Memory} {n : Nat}
    (items : copyItems src.utcb dst.utcb (u + t) (((m.withWords src.utcb dst.utcb u).utcb dst.utcb).br 0) (mrCount + 1)
      (m.withWords src.utcb dst.utcb u) (u + 1) (u + 1) 1 = .ok (.none, m', n)) :
    m.copyPayload src dst = .ok (.none, m'.withHead src dst u (n - (u + 1)) label) := by
  have small : u < 64 ∧ t < 64 := by simp only [mrCount] at fits; omega
  unfold copyPayload
  dsimp only
  rw [tag, MsgTag.u_mk, MsgTag.t_mk, MsgTag.label_mk, Nat.mod_eq_of_lt small.1, Nat.mod_eq_of_lt small.2,
    if_neg (Nat.not_lt.mpr fits)]
  change copyItems src.utcb dst.utcb (u + t) (((m.withWords src.utcb dst.utcb u).utcb dst.utcb).br 0) (mrCount + 1)
    (m.withWords src.utcb dst.utcb u) (u + 1) (u + 1) 1 >>= _ = _
  rw [items]
  change Except.ok (IpcErrorCode.none, m'.withHead src dst u (n - (u + 1)) (label &&& 0xFFFF#32)) = _
  simp only [withHead, MsgTag.mk_label]

section Words

@[simp] theorem withWords_same (m : Memory) (src dst : Word) (u i : Nat) :
    ((m.withWords src dst u).utcb dst).words i = if 1 ≤ i ∧ i ≤ u then (m.utcb src).words i else (m.utcb dst).words i := by
  simp [withWords, setUtcb]

theorem withWords_other (m : Memory) (src : Word) {dst p : Word} (u : Nat) (other : p ≠ dst) :
    (m.withWords src dst u).utcb p = m.utcb p := by simp [withWords, setUtcb, other]

@[simp] theorem withWords_byte (m : Memory) (src dst : Word) (u : Nat) : (m.withWords src dst u).byte = m.byte := rfl

theorem withHead_mr (m : Memory) (src dst : Tcb) (u t : Nat) (label : Word) {i : Nat} (behind : 1 ≤ i) :
    ((m.withHead src dst u t label).utcb dst.utcb).mr i = (m.utcb dst.utcb).mr i := by
  simp [withHead, setFrame, setUtcb, Utcb.mr, Utcb.setMr, Nat.ne_of_gt behind]

theorem withHead_tag (m : Memory) (src dst : Tcb) (u t : Nat) (label : Word) :
    ((m.withHead src dst u t label).utcb dst.utcb).mr 0 = MsgTag.mk u t 0#32 label := by
  simp [withHead, setFrame, setUtcb, Utcb.mr, Utcb.setMr]

/-- Where the items leave the words of the message and the other UTCBs, the message arrives. -/
theorem arrived_withHead {m' : Memory} (words : ∀ i, 1 ≤ i → i ≤ u → (m'.utcb dst.utcb).mr i = (m.utcb src.utcb).mr i)
    (others : ∀ p, p ≠ dst.utcb → m'.utcb p = m.utcb p) : m.Arrived src dst u t label (m'.withHead src dst u t label) where
  tag := withHead_tag m' src dst u t label
  words i first last := (withHead_mr m' src dst u t label first).trans (words i first last)
  sender := by simp [withHead, setFrame]
  others p other := by
    rw [← others p other]
    simp [withHead, setFrame, setUtcb, other]

end Words

theorem copyPayload_words (dst : Tcb) (tag : (m.utcb src.utcb).mr 0 = MsgTag.mk u 0 0#32 label) (fits : u ≤ mrCount) :
    ∃ m', m.copyPayload src dst = .ok (.none, m') ∧ m.Arrived src dst u 0 label m' ∧ m'.byte = m.byte := by
  have items : copyItems src.utcb dst.utcb (u + 0) (((m.withWords src.utcb dst.utcb u).utcb dst.utcb).br 0) (mrCount + 1)
      (m.withWords src.utcb dst.utcb u) (u + 1) (u + 1) 1 = .ok (.none, m.withWords src.utcb dst.utcb u, u + 1) := by
    rw [copyItems, if_pos (by omega)]
  refine ⟨_, copyPayload_of_items tag fits items, ?_, rfl⟩
  rw [Nat.sub_self]
  apply arrived_withHead
  · intro i first last
    simp [Utcb.mr, first, last]
  · intro p other
    exact withWords_other m src.utcb u other

/-- An item of two words, stored behind the words of the message. -/
def withItem (m : Memory) (dst : Word) (u : Nat) (first second : Word) : Memory :=
  m.setUtcb dst fun old => (old.setMr (u + 1) first).setMr (u + 1 + 1) second

theorem withItem_words (m : Memory) (dst : Word) {u i : Nat} (first second : Word) (before : i ≤ u) :
    ((m.withItem dst u first second).utcb dst).mr i = (m.utcb dst).mr i := by
  have one : i ≠ u + 1 := by omega
  have two : i ≠ u + 1 + 1 := by omega
  simp [withItem, setUtcb, Utcb.mr, Utcb.setMr, one, two]

theorem withItem_first (m : Memory) (dst : Word) (u : Nat) (first second : Word) :
    ((m.withItem dst u first second).utcb dst).mr (u + 1) = first := by
  simp [withItem, setUtcb, Utcb.mr, Utcb.setMr]

theorem withItem_second (m : Memory) (dst : Word) (u : Nat) (first second : Word) :
    ((m.withItem dst u first second).utcb dst).mr (u + 1 + 1) = second := by
  simp [withItem, setUtcb, Utcb.mr, Utcb.setMr]

theorem withItem_other (m : Memory) {dst p : Word} (u : Nat) (first second : Word) (other : p ≠ dst) :
    (m.withItem dst u first second).utcb p = m.utcb p := by simp [withItem, setUtcb, other]

/-- The second word of a string item becomes the receiver's own pointer. -/
theorem withItem_ptr (m : Memory) (dst : Word) (first second : Word) (fits : u + 2 ≤ mrCount) :
    ((m.withItem dst u first second).setUtcb dst fun old => old.setMr (u + 1 + 1) (old.br 2)) =
      m.withItem dst u first ((m.utcb dst).br 2) := by
  have one : mrCount + 2 ≠ u + 1 := by omega
  have two : mrCount + 2 ≠ u + 1 + 1 := by omega
  simp [withItem, setUtcb, Utcb.br, Utcb.setMr, Function.update_of_ne one, Function.update_of_ne two]

theorem arrived_withItem {m₁ : Memory} (first second : Word) (same : m₁.utcb = (m.withWords src.utcb dst.utcb u).utcb) :
    m.Arrived src dst u t label ((m₁.withItem dst.utcb u first second).withHead src dst u t label) := by
  apply arrived_withHead
  · intro i begins ends
    rw [withItem_words m₁ dst.utcb first second ends, same]
    simp [Utcb.mr, begins, ends]
  · intro p other
    rw [withItem_other m₁ u first second other, same]
    exact withWords_other m src.utcb u other

theorem copyPayload_mapItem (dst : Tcb) (tag : (m.utcb src.utcb).mr 0 = MsgTag.mk u 2 0#32 label) (fits : u + 2 ≤ mrCount)
    (apart : src.utcb ≠ dst.utcb) (item : Item.type ((m.utcb src.utcb).mr (u + 1)) = .mapItem) :
    ∃ m', m.copyPayload src dst = .ok (.none, m') ∧ m.Arrived src dst u 2 label m' ∧ m'.byte = m.byte ∧
      (m'.utcb dst.utcb).mr (u + 1) = (m.utcb src.utcb).mr (u + 1) ∧
      (m'.utcb dst.utcb).mr (u + 1 + 1) = (m.utcb src.utcb).mr (u + 1 + 1) := by
  have items : copyItems src.utcb dst.utcb (u + 2) (((m.withWords src.utcb dst.utcb u).utcb dst.utcb).br 0) (mrCount + 1)
      (m.withWords src.utcb dst.utcb u) (u + 1) (u + 1) 1 = .ok (.none, (m.withWords src.utcb dst.utcb u).withItem dst.utcb u
        ((m.utcb src.utcb).mr (u + 1)) ((m.utcb src.utcb).mr (u + 1 + 1)), u + 1 + 2) := by
    rw [copyItems, if_neg (by omega)]
    dsimp only
    rw [withWords_other m src.utcb u apart, item]
    dsimp only
    rw [show mrCount = 15 + 1 from rfl, copyItems, if_pos (by omega)]
    rfl
  have length : u + 1 + 2 - (u + 1) = 2 := by omega
  refine ⟨_, copyPayload_of_items tag fits items, ?_, rfl, ?_, ?_⟩
  · rw [length]
    exact arrived_withItem _ _ rfl
  · rw [withHead_mr _ _ _ _ _ _ (by omega)]
    exact withItem_first _ _ _ _ _
  · rw [withHead_mr _ _ _ _ _ _ (by omega)]
    exact withItem_second _ _ _ _ _

/-- A message of words and one simple string that fits into the receiver's buffer. -/
theorem copyPayload_string (dst : Tcb) (tag : (m.utcb src.utcb).mr 0 = MsgTag.mk u 2 0#32 label) (fits : u + 2 ≤ mrCount)
    (apart : src.utcb ≠ dst.utcb) (item : Item.type ((m.utcb src.utcb).mr (u + 1)) = .stringItem)
    (simple : Item.compound ((m.utcb src.utcb).mr (u + 1)) = false) (accepts : acceptsStrings ((m.utcb dst.utcb).br 0) = true)
    (simpleBuffer : Item.compound ((m.utcb dst.utcb).br 1) = false)
    (room : Item.length ((m.utcb src.utcb).mr (u + 1)) ≤ Item.length ((m.utcb dst.utcb).br 1)) :
    ∃ m', m.copyPayload src dst = .ok (.none, m') ∧ m.Arrived src dst u 2 label m' ∧
      m'.byte = (m.copyBytes ((m.utcb dst.utcb).br 2) ((m.utcb src.utcb).mr (u + 1 + 1)) (Item.length ((m.utcb src.utcb).mr (u + 1)))).byte ∧
      (m'.utcb dst.utcb).mr (u + 1) = (m.utcb src.utcb).mr (u + 1) ∧ (m'.utcb dst.utcb).mr (u + 1 + 1) = (m.utcb dst.utcb).br 2 := by
  have buffers : ∀ i, ((m.withWords src.utcb dst.utcb u).utcb dst.utcb).br i = (m.utcb dst.utcb).br i := by
    intro i
    have behind : ¬ mrCount + i ≤ u := by omega
    simp [Utcb.br, behind]
  have items : copyItems src.utcb dst.utcb (u + 2) (((m.withWords src.utcb dst.utcb u).utcb dst.utcb).br 0) (mrCount + 1)
      (m.withWords src.utcb dst.utcb u) (u + 1) (u + 1) 1 = .ok (.none, ((m.withWords src.utcb dst.utcb u).copyBytes
        ((m.utcb dst.utcb).br 2) ((m.utcb src.utcb).mr (u + 1 + 1)) (Item.length ((m.utcb src.utcb).mr (u + 1)))).withItem dst.utcb u
        ((m.utcb src.utcb).mr (u + 1)) ((m.utcb dst.utcb).br 2), u + 1 + 2) := by
    rw [copyItems, if_neg (by omega)]
    dsimp only
    rw [withWords_other m src.utcb u apart, item]
    dsimp only
    simp only [buffers, accepts, simple, simpleBuffer, Bool.not_true, Bool.false_eq_true, if_false, if_neg (Nat.not_lt.mpr room)]
    rw [show mrCount = 15 + 1 from rfl, copyItems, if_pos (by omega)]
    have stored := withItem_ptr ((m.withWords src.utcb dst.utcb u).copyBytes ((m.utcb dst.utcb).br 2) ((m.utcb src.utcb).mr (u + 1 + 1))
      (Item.length ((m.utcb src.utcb).mr (u + 1)))) dst.utcb ((m.utcb src.utcb).mr (u + 1)) ((m.utcb src.utcb).mr (u + 1 + 1)) fits
    rw [show (((m.withWords src.utcb dst.utcb u).copyBytes ((m.utcb dst.utcb).br 2) ((m.utcb src.utcb).mr (u + 1 + 1))
      (Item.length ((m.utcb src.utcb).mr (u + 1)))).utcb dst.utcb).br 2 = (m.utcb dst.utcb).br 2 from buffers 2] at stored
    rw [← stored]
    rfl
  have length : u + 1 + 2 - (u + 1) = 2 := by omega
  refine ⟨_, copyPayload_of_items tag fits items, ?_, rfl, ?_, ?_⟩
  · rw [length]
    exact arrived_withItem _ _ rfl
  · rw [withHead_mr _ _ _ _ _ _ (by omega)]
    exact withItem_first _ _ _ _ _
  · rw [withHead_mr _ _ _ _ _ _ (by omega)]
    exact withItem_second _ _ _ _ _

end Memory
end BradypOS
