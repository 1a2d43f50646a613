import BradypOS.Service.Transfer

/-!
# The typed items of a message

The loop of `copy_payload` handles an item by its first word and by the first word of the next
receive buffer. It goes on behind map items and accepted strings only, and what it stores is behind
what it still reads, where no string arrives in a register.
-/

namespace BradypOS.Memory

open L4

/-- What becomes of an item. -/
inductive Fate where
  | mapped | taken | refused | panics | stuck
  deriving DecidableEq, Repr

def Fate.passes : Fate → Bool
  | .mapped | .taken => true
  | .refused | .panics | .stuck => false

theorem Fate.passes_iff {f : Fate} : f.passes = true ↔ f = .mapped ∨ f = .taken := by
  cases f with
  | mapped => simp [passes]
  | taken => simp [passes]
  | refused => simp [passes]
  | panics => simp [passes]
  | stuck => simp [passes]

def fate (acceptor item toItem : Word) : Fate :=
  match Item.type item with
  | .mapItem => .mapped
  | .stringItem =>
    if !acceptsStrings acceptor then .refused
    else if Item.compound item then .panics
    else if Item.compound toItem then .panics
    else if Item.length toItem < Item.length item then .refused
    else .taken
  | .grantItem | .ctrlXferItem | .other => .stuck

/-- An item of two words, stored in the receiver's registers. -/
def stored (m : Memory) (dst : Word) (offset : Nat) (item second : Word) : Memory :=
  m.setUtcb dst fun u => (u.setMr offset item).setMr (offset + 1) second

/-- A string copied into a receive buffer, and its item with the buffer's pointer. -/
def tookString (m : Memory) (dst : Word) (offset brOffset : Nat) (item second : Word) : Memory :=
  ((m.copyBytes ((m.utcb dst).br (brOffset + 1)) second (Item.length item)).stored dst offset item second).setUtcb dst
    fun u => u.setMr (offset + 1) (u.br (brOffset + 1))

section Round

variable {src dst acceptor : Word} {last fuel i j b : Nat} {m : Memory}

/-- What a round of the loop leaves, by what becomes of its item. -/
def afterRound (rest : Memory → Nat → Nat → Nat → Fallible (IpcErrorCode × Memory × Nat)) (m : Memory) (dst : Word) (i j b : Nat)
    (item second : Word) : Fate → Fallible (IpcErrorCode × Memory × Nat)
  | .mapped => rest (m.stored dst j item second) (i + 2) (j + 2) b
  | .taken => rest (m.tookString dst j b item second) (i + 2) (j + 2) (b + 2)
  | .refused => .ok (.messageOverflow, m, j)
  | .panics => .error (.panic .compoundString)
  | .stuck => .error .hang

theorem copyItems_done (done : last < i) : copyItems src dst last acceptor (fuel + 1) m i j b = .ok (.none, m, j) := by
  rw [copyItems, if_pos done]

theorem copyItems_round (more : i ≤ last) :
    copyItems src dst last acceptor (fuel + 1) m i j b =
      afterRound (copyItems src dst last acceptor fuel) m dst i j b ((m.utcb src).mr i) ((m.utcb src).mr (i + 1))
        (fate acceptor ((m.utcb src).mr i) ((m.utcb dst).br b)) := by
  rw [copyItems, if_neg (Nat.not_lt.mpr more), fate]
  dsimp only
  cases type : Item.type ((m.utcb src).mr i) with
  | mapItem => rfl
  | stringItem =>
    dsimp only
    by_cases refuses : (!acceptsStrings acceptor) = true
    · rw [if_pos refuses, if_pos refuses]
      rfl
    rw [if_neg refuses, if_neg refuses]
    by_cases compound : Item.compound ((m.utcb src).mr i) = true
    · rw [if_pos compound, if_pos compound]
      rfl
    rw [if_neg compound, if_neg compound]
    by_cases compoundBuffer : Item.compound ((m.utcb dst).br b) = true
    · rw [if_pos compoundBuffer, if_pos compoundBuffer]
      rfl
    rw [if_neg compoundBuffer, if_neg compoundBuffer]
    by_cases small : Item.length ((m.utcb dst).br b) < Item.length ((m.utcb src).mr i)
    · rw [if_pos small, if_pos small]
      rfl
    rw [if_neg small, if_neg small]
    rfl
  | grantItem => rfl
  | ctrlXferItem => rfl
  | other => rfl

end Round

/-! ### The items of a message, one by one -/

section Walk

variable {src dst acceptor : Word} {u t last fuel i j : Nat} {m : Memory}

/-- The first word of an item, where all items before it have two words. -/
def item (m : Memory) (src : Word) (u j : Nat) : Word := (m.utcb src).mr (u + 1 + 2 * j)

def second (m : Memory) (src : Word) (u j : Nat) : Word := (m.utcb src).mr (u + 1 + 2 * j + 1)

def isString (m : Memory) (src : Word) (u j : Nat) : Bool := Item.type (m.item src u j) = .stringItem

def stringsBefore (m : Memory) (src : Word) (u j : Nat) : Nat := (List.range j).countP (m.isString src u)

theorem stringsBefore_succ (m : Memory) (src : Word) (u j : Nat) :
    m.stringsBefore src u (j + 1) = m.stringsBefore src u j + if m.isString src u j then 1 else 0 := by
  simp [stringsBefore, List.range_succ]

/-- Each string before an item takes a receive buffer of two words. -/
def itemFate (m : Memory) (src dst acceptor : Word) (u j : Nat) : Fate :=
  fate acceptor (m.item src u j) ((m.utcb dst).br (1 + 2 * m.stringsBefore src u j))

/-- The memory when the loop has gone on behind the first items. -/
def afterItems (m : Memory) (src dst : Word) (u : Nat) : Nat → Memory
  | 0 => m
  | j + 1 =>
    if m.isString src u j then
      (m.afterItems src dst u j).tookString dst (u + 1 + 2 * j) (1 + 2 * m.stringsBefore src u j) (m.item src u j) (m.second src u j)
    else (m.afterItems src dst u j).stored dst (u + 1 + 2 * j) (m.item src u j) (m.second src u j)

theorem fate_mapped {item toItem : Word} (f : fate acceptor item toItem = .mapped) : Item.type item = .mapItem := by
  unfold fate at f
  split at f
  · assumption
  · repeat' split at f
    all_goals cases f
  all_goals cases f

theorem fate_taken {item toItem : Word} (f : fate acceptor item toItem = .taken) :
    Item.type item = .stringItem ∧ Item.compound item = false ∧ Item.length item ≤ Item.length toItem := by
  unfold fate at f
  split at f
  · cases f
  · rename_i type
    refine ⟨type, ?_⟩
    split at f
    · cases f
    · split at f
      · cases f
      · rename_i simple
        split at f
        · cases f
        · split at f
          · cases f
          · rename_i fits
            exact ⟨by simpa using simple, Nat.le_of_not_lt fits⟩
  all_goals cases f

theorem stored_words (m : Memory) (dst : Word) (offset : Nat) (item second p : Word) {i : Nat} (first : i ≠ offset)
    (next : i ≠ offset + 1) : ((m.stored dst offset item second).utcb p).words i = (m.utcb p).words i := by
  by_cases here : p = dst
  · simp [stored, setUtcb, Utcb.setMr, here, Function.update_of_ne first, Function.update_of_ne next]
  · simp [stored, setUtcb, here]

theorem tookString_words (m : Memory) (dst : Word) (offset brOffset : Nat) (item second p : Word) {i : Nat} (first : i ≠ offset)
    (next : i ≠ offset + 1) : ((m.tookString dst offset brOffset item second).utcb p).words i = (m.utcb p).words i := by
  have kept := stored_words (m.copyBytes ((m.utcb dst).br (brOffset + 1)) second (Item.length item)) dst offset item second p first next
  rw [show (m.utcb p).words i = ((m.copyBytes ((m.utcb dst).br (brOffset + 1)) second (Item.length item)).utcb p).words i from rfl,
    ← kept]
  by_cases here : p = dst
  · simp [tookString, setUtcb, Utcb.setMr, here, Function.update_of_ne next]
  · simp [tookString, setUtcb, here]

/-- The words outside of the items are as they were. What the loop has still to read is among them, also where sender and
receiver have one UTCB. -/
theorem afterItems_words (m : Memory) (src dst p : Word) {u j i : Nat} (outside : i ≤ u ∨ u + 1 + 2 * j ≤ i) :
    ((m.afterItems src dst u j).utcb p).words i = (m.utcb p).words i := by
  induction j with
  | zero => rfl
  | succ j ih =>
    unfold afterItems
    split
    · rw [tookString_words _ _ _ _ _ _ _ (by omega) (by omega)]
      exact ih (by omega)
    · rw [stored_words _ _ _ _ _ _ (by omega) (by omega)]
      exact ih (by omega)

theorem afterItems_round (fits : last ≤ mrCount) (inside : u + 1 + 2 * j ≤ last) :
    copyItems src dst last acceptor (fuel + 1) (m.afterItems src dst u j) (u + 1 + 2 * j) (u + 1 + 2 * j)
        (1 + 2 * m.stringsBefore src u j) =
      afterRound (copyItems src dst last acceptor fuel) (m.afterItems src dst u j) dst (u + 1 + 2 * j) (u + 1 + 2 * j)
        (1 + 2 * m.stringsBefore src u j) (m.item src u j) (m.second src u j) (m.itemFate src dst acceptor u j) := by
  have first : ((m.afterItems src dst u j).utcb src).mr (u + 1 + 2 * j) = m.item src u j := afterItems_words m src dst src (.inr (by omega))
  have next : ((m.afterItems src dst u j).utcb src).mr (u + 1 + 2 * j + 1) = m.second src u j :=
    afterItems_words m src dst src (.inr (by omega))
  have buffer : ((m.afterItems src dst u j).utcb dst).br (1 + 2 * m.stringsBefore src u j) =
      (m.utcb dst).br (1 + 2 * m.stringsBefore src u j) := afterItems_words m src dst dst (.inr (by omega))
  rw [copyItems_round inside, first, next, buffer]
  rfl

theorem copyItems_passed (fits : last ≤ mrCount)
    (passed : ∀ i < j, u + 1 + 2 * i ≤ last ∧ (m.itemFate src dst acceptor u i).passes = true) :
    copyItems src dst last acceptor (fuel + j) m (u + 1) (u + 1) 1 =
      copyItems src dst last acceptor fuel (m.afterItems src dst u j) (u + 1 + 2 * j) (u + 1 + 2 * j)
        (1 + 2 * m.stringsBefore src u j) := by
  induction j generalizing fuel with
  | zero => rfl
  | succ j ih =>
    obtain ⟨inside, passes⟩ := passed j (Nat.lt_succ_self j)
    have before := @ih (fuel + 1) fun i earlier => passed i (Nat.lt_succ_of_lt earlier)
    rw [Nat.add_right_comm, Nat.add_assoc] at before
    rw [before, afterItems_round fits inside]
    rcases Fate.passes_iff.mp passes with f | f
    · have other : m.isString src u j = false := by simp [isString, fate_mapped f]
      rw [f, afterItems, stringsBefore_succ, other]
      rfl
    · have string : m.isString src u j = true := by simp [isString, (fate_taken f).1]
      rw [f, afterItems, stringsBefore_succ, string]
      rfl

theorem copyItems_all (fits : u + t ≤ mrCount) (all : ∀ j, u + 1 + 2 * j ≤ u + t → (m.itemFate src dst acceptor u j).passes = true)
    (enough : (t + 1) / 2 < fuel) : copyItems src dst (u + t) acceptor fuel m (u + 1) (u + 1) 1 =
      .ok (.none, m.afterItems src dst u ((t + 1) / 2), u + 1 + 2 * ((t + 1) / 2)) := by
  obtain ⟨rest, rfl⟩ : ∃ rest, fuel = rest + 1 + (t + 1) / 2 := ⟨fuel - 1 - (t + 1) / 2, by omega⟩
  rw [copyItems_passed fits, copyItems_done (by omega)]
  intro i earlier
  have inside : u + 1 + 2 * i ≤ u + t := by omega
  exact ⟨inside, all i inside⟩

end Walk

/-! ### The items behind the copied words -/

section Words

variable {m : Memory} {src dst acceptor : Word} {u t j : Nat}

/-- The copied words are in front of the items and the receive buffers. -/
theorem withWords_behind (m : Memory) (src dst p : Word) {i : Nat} (behind : u < i) :
    ((m.withWords src dst u).utcb p).words i = (m.utcb p).words i := by
  by_cases here : p = dst
  · subst here
    rw [withWords_same, if_neg (by omega)]
  · rw [withWords_other m src u here]

theorem withWords_item (j : Nat) : (m.withWords src dst u).item src u j = m.item src u j :=
  withWords_behind m src dst src (by omega)

theorem withWords_isString (j : Nat) : (m.withWords src dst u).isString src u j = m.isString src u j := by
  rw [isString, isString, withWords_item]

theorem withWords_strings (j : Nat) : (m.withWords src dst u).stringsBefore src u j = m.stringsBefore src u j := by
  rw [stringsBefore, stringsBefore, funext withWords_isString]

theorem withWords_itemFate (small : u < mrCount) (j : Nat) :
    (m.withWords src dst u).itemFate src dst acceptor u j = m.itemFate src dst acceptor u j := by
  rw [itemFate, itemFate, withWords_item, withWords_strings]
  exact congrArg (fate acceptor (m.item src u j)) (withWords_behind m src dst dst (by omega))

end Words

def itemLoop (m : Memory) (src dst : Word) (u t fuel : Nat) : Fallible (IpcErrorCode × Memory × Nat) :=
  copyItems src dst (u + t) (((m.withWords src dst u).utcb dst).br 0) fuel (m.withWords src dst u) (u + 1) (u + 1) 1

/-- What becomes of an item of the message in `src`, once its words have been copied. -/
def fateOf (m : Memory) (src dst : Word) (u j : Nat) : Fate :=
  (m.withWords src dst u).itemFate src dst (((m.withWords src dst u).utcb dst).br 0) u j

variable {m : Memory} {src dst : Word} {u t : Nat}

/-! ### Messages that have been copied -/

section Copied

variable {src dst : Tcb} {m' : Memory}

/-- A copy that succeeds has come to the end of the items. -/
theorem copyPayload_items (words : MsgTag.u ((m.utcb src.utcb).mr 0) = u) (typed : MsgTag.t ((m.utcb src.utcb).mr 0) = t)
    (ran : m.copyPayload src dst = .ok (.none, m')) :
    u + t ≤ mrCount ∧ ∃ m₁ n, m.itemLoop src.utcb dst.utcb u t (mrCount + 1) = .ok (.none, m₁, n) ∧
      m' = m₁.withHead src dst u (n - (u + 1)) (MsgTag.label ((m.utcb src.utcb).mr 0)) := by
  unfold copyPayload at ran
  dsimp only at ran
  rw [words, typed] at ran
  split at ran
  · cases ran
  · rename_i fits
    refine ⟨Nat.le_of_not_lt fits, ?_⟩
    obtain ⟨⟨err, m₁, n⟩, items, rest⟩ := bind_ok ran
    dsimp only at rest
    split at rest
    · rename_i failed
      cases rest
      exact absurd rfl failed
    · rename_i passed
      have none_ : err = .none := by simpa using passed
      cases rest
      rw [none_] at items
      exact ⟨m₁, n, items, rfl⟩

theorem fateOf_mapped {src dst : Word} {j : Nat} (f : m.fateOf src dst u j = .mapped) : Item.type (m.item src u j) = .mapItem := by
  rw [← withWords_item]
  exact fate_mapped f

theorem fateOf_taken {src dst : Word} {j : Nat} (small : u < mrCount) (f : m.fateOf src dst u j = .taken) :
    Item.type (m.item src u j) = .stringItem ∧ Item.compound (m.item src u j) = false ∧
      Item.length (m.item src u j) ≤ Item.length ((m.utcb dst).br (1 + 2 * m.stringsBefore src u j)) := by
  rw [fateOf, withWords_itemFate small] at f
  exact fate_taken f

/-- A copy of a message with one item succeeds if it passes the item. -/
theorem copyPayload_item (words : MsgTag.u ((m.utcb src.utcb).mr 0) = u) (typed : MsgTag.t ((m.utcb src.utcb).mr 0) = 2)
    (ran : m.copyPayload src dst = .ok (.none, m')) :
    u + 2 ≤ mrCount ∧ ∃ m₁, m' = m₁.withHead src dst u 2 (MsgTag.label ((m.utcb src.utcb).mr 0)) ∧
      ((m.fateOf src.utcb dst.utcb u 0 = .mapped ∧ m₁ = (m.withWords src.utcb dst.utcb u).stored dst.utcb (u + 1)
          (m.item src.utcb u 0) (m.second src.utcb u 0)) ∨
        (m.fateOf src.utcb dst.utcb u 0 = .taken ∧ m₁ = (m.withWords src.utcb dst.utcb u).tookString dst.utcb (u + 1) 1
          (m.item src.utcb u 0) (m.second src.utcb u 0))) := by
  obtain ⟨fits, m₁, n, items, rfl⟩ := copyPayload_items words typed ran
  have first : ((m.withWords src.utcb dst.utcb u).utcb src.utcb).mr (u + 1) = m.item src.utcb u 0 := withWords_item 0
  have next : ((m.withWords src.utcb dst.utcb u).utcb src.utcb).mr (u + 1 + 1) = m.second src.utcb u 0 :=
    withWords_behind m src.utcb dst.utcb src.utcb (by omega)
  have here : fate (((m.withWords src.utcb dst.utcb u).utcb dst.utcb).br 0) (((m.withWords src.utcb dst.utcb u).utcb src.utcb).mr (u + 1))
      (((m.withWords src.utcb dst.utcb u).utcb dst.utcb).br 1) = m.fateOf src.utcb dst.utcb u 0 := rfl
  have length : u + 1 + 2 - (u + 1) = 2 := by omega
  rw [itemLoop, copyItems_round (by omega), here, first, next] at items
  refine ⟨fits, m₁, ?_⟩
  cases f : m.fateOf src.utcb dst.utcb u 0 with
  | mapped =>
    rw [f, afterRound, show mrCount = 15 + 1 from rfl, copyItems_done (by omega)] at items
    cases items
    exact ⟨by rw [length], .inl ⟨rfl, rfl⟩⟩
  | taken =>
    rw [f, afterRound, show mrCount = 15 + 1 from rfl, copyItems_done (by omega)] at items
    cases items
    exact ⟨by rw [length], .inr ⟨rfl, rfl⟩⟩
  | refused =>
    rw [f, afterRound] at items
    cases items
  | panics =>
    rw [f, afterRound] at items
    cases items
  | stuck =>
    rw [f, afterRound] at items
    cases items

end Copied

/-- A message in the UTCB at 0x5000, for a receiver with these buffer registers. -/
def ofMessage (sent buffers : List Word) : Memory where
  utcb p :=
    { globalId := 0#32, processorNo := 0#32, tPager := 0#32, error := 0#32, sender := 0#32
      words := fun i =>
        if p = 0x5000#32 then sent.getD i 0#32 else if i < mrCount then 0#32 else buffers.getD (i - mrCount) 0#32 }
  frame _ := ⟨0#32, 0#32, 0#32, 0#32, 0#32, 0#32⟩
  byte _ := 0#8

end BradypOS.Memory
