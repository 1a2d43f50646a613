import BradypOS.Ipc.Registers
import BradypOS.Strings.Memmove
import BradypOS.Theory.Loop

/-!
# Message copies in one memory

`copy_payload` over the bytes of the memory in which TCBs, UTCBs and receive buffers lie. Every pointer is read again where the
source reads it again, so a string that arrives in a register or in a TCB changes what the later rounds read.
-/

namespace BradypOS.Payload

open L4
open Memory (Access Fate fate wordAccesses)
open Theory (Turn Reaches loop loggedLoop unlogged)
open Strings (memcpy)

abbrev Bytes := Word → Byte

/-! ### Words and registers -/

def word (m : Bytes) (a : Word) : Word := m (a + 3#32) ++ m (a + 2#32) ++ m (a + 1#32) ++ m a

def store (m : Bytes) (a w : Word) : Bytes :=
  Function.update (Function.update (Function.update (Function.update m a (w.truncate 8)) (a + 1#32) ((w >>> 8).truncate 8))
    (a + 2#32) ((w >>> 16).truncate 8)) (a + 3#32) ((w >>> 24).truncate 8)

/-- `tcb->utcb`. -/
def utcb (m : Bytes) (tcb : Word) : Word := word m (tcb + 56#32)

/-- `&tcb->utcb->mr[i]`. -/
def mr (m : Bytes) (tcb : Word) (i : Nat) : Word := utcb m tcb + 44#32 + BitVec.ofNat 32 (4 * i)

/-- `&tcb->utcb->br[i]`. -/
def br (m : Bytes) (tcb : Word) (i : Nat) : Word := utcb m tcb + 108#32 + BitVec.ofNat 32 (4 * i)

/-! ### The typed items -/

structure Cursor where
  memory : Bytes
  fromMrOffset : Nat
  toMrOffset : Nat
  toBrOffset : Nat

variable {sender receiver acceptor : Word} {last : Nat} {s : Cursor}

/-- A string that fits its buffer, and the item that the receiver gets for it. -/
def copyString (m : Bytes) (receiver item toItem : Word) (toMrOffset : Nat) : Bytes :=
  let m := (memcpy m (word m (toItem + 4#32)) (word m (item + 4#32)) (BitVec.ofNat 32 (Item.length (word m item)))).2
  let resItem := mr m receiver toMrOffset
  let m := store (store m resItem (word m item)) (resItem + 4#32) (word m (item + 4#32))
  store m (resItem + 4#32) (word m (toItem + 4#32))

/-- A round of the loop, and the registers it touches. Without a default the `switch` leaves all offsets as they are for the
other types, and so do the empty branches. -/
def loggedRound (sender receiver acceptor : Word) (last : Nat) (s : Cursor) :
    List Access × Turn Cursor (Fallible (IpcErrorCode × Cursor)) :=
  if last < s.fromMrOffset then ([], .exit (.ok (.none, s)))
  else
    let m := s.memory
    let item := mr m sender s.fromMrOffset
    let reads := [Access.readMr s.fromMrOffset, .readMr (s.fromMrOffset + 1)]
    let writes := [Access.writeMr s.toMrOffset, .writeMr (s.toMrOffset + 1)]
    match Item.type (word m item) with
    | .mapItem =>
      (reads ++ writes, .next ⟨(memcpy m (mr m receiver s.toMrOffset) item 8#32).2, s.fromMrOffset + 2, s.toMrOffset + 2, s.toBrOffset⟩)
    | .stringItem =>
      if !acceptsStrings acceptor then (reads, .exit (.ok (.messageOverflow, s)))
      else if Item.compound (word m item) then (reads, .exit (.error (.panic .compoundString)))
      else
        let toItem := br m receiver s.toBrOffset
        let looks := reads ++ [.readBr s.toBrOffset]
        if Item.compound (word m toItem) then (looks, .exit (.error (.panic .compoundString)))
        else if Item.length (word m toItem) < Item.length (word m item) then (looks, .exit (.ok (.messageOverflow, s)))
        else
          (looks ++ [.readBr (s.toBrOffset + 1), .writeString (Item.length (word m item)) (Item.length (word m toItem))] ++ writes,
            .next ⟨copyString m receiver item toItem s.toMrOffset, s.fromMrOffset + 2, s.toMrOffset + 2, s.toBrOffset + 2⟩)
    | .grantItem | .ctrlXferItem | .other => (reads, .next s)

/-! ### The whole copy -/

def untyped (m : Bytes) (sender : Word) : Nat := MsgTag.u (word m (mr m sender 0))

def typed (m : Bytes) (sender : Word) : Nat := MsgTag.t (word m (mr m sender 0))

/-- The memory behind the `memcpy` of the untyped words. -/
def withWords (m : Bytes) (sender receiver : Word) : Bytes :=
  (memcpy m (mr m receiver 1) (mr m sender 1) (BitVec.ofNat 32 (4 * untyped m sender))).2

/-- `to_acceptor`. -/
def acceptorOf (m : Bytes) (sender receiver : Word) : Word :=
  let m := withWords m sender receiver
  word m (br m receiver 0)

/-- In front of the loop. -/
def start (m : Bytes) (sender receiver : Word) : Cursor :=
  ⟨withWords m sender receiver, untyped m sender + 1, untyped m sender + 1, 1⟩

/-- The rounds of the loop for the message of one thread to another. -/
def itemRound (m : Bytes) (sender receiver : Word) : Cursor → List Access × Turn Cursor (Fallible (IpcErrorCode × Cursor)) :=
  loggedRound sender receiver (acceptorOf m sender receiver) (untyped m sender + typed m sender)

def itemLoop (fuel : Nat) (m : Bytes) (sender receiver : Word) : Turn Cursor (Fallible (IpcErrorCode × Cursor)) :=
  loop (unlogged (itemRound m sender receiver)) fuel (start m sender receiver)

/-- `sender`, the tag and the waiting thread's `r0`, behind the items. -/
def finish (m : Bytes) (sender receiver tag : Word) (toMrOffset : Nat) : Bytes :=
  let m := store m (utcb m receiver + 32#32) (word m sender)
  let m := store m (mr m receiver 0) (MsgTag.mk (MsgTag.u tag) (toMrOffset - (MsgTag.u tag + 1)) 0#32 (MsgTag.label tag))
  let sp := word m (receiver + 12#32)
  store m sp (if word m (receiver + 52#32) = word m (sender + 52#32) then word m (sender + 4#32) else word m sender)

/-- `copy_payload`, whose loop has not ended within the given rounds where there is no result. -/
def loggedPayload (fuel : Nat) (m : Bytes) (sender receiver : Word) : List Access × Option (Fallible (IpcErrorCode × Bytes)) :=
  if mrCount < untyped m sender + typed m sender then ([.readMr 0], some (.ok (.messageOverflow, m)))
  else
    let items := loggedLoop (itemRound m sender receiver) fuel (start m sender receiver)
    let begun := .readMr 0 :: wordAccesses (untyped m sender) ++ .readBr 0 :: items.1
    match items.2 with
    | .next _ => (begun, none)
    | .exit (.error halt) => (begun, some (.error halt))
    | .exit (.ok (.none, s)) =>
      (begun ++ [.writeMr 0], some (.ok (.none, finish s.memory sender receiver (word m (mr m sender 0)) s.toMrOffset)))
    | .exit (.ok (err, s)) => (begun, some (.ok (err, s.memory)))

def copyPayload (fuel : Nat) (m : Bytes) (sender receiver : Word) : Option (Fallible (IpcErrorCode × Bytes)) :=
  (loggedPayload fuel m sender receiver).2

/-! ### One round -/

/-- What becomes of the item that a round begins with. -/
def Cursor.fate (s : Cursor) (sender receiver acceptor : Word) : Fate :=
  Memory.fate acceptor (word s.memory (mr s.memory sender s.fromMrOffset)) (word s.memory (br s.memory receiver s.toBrOffset))

def Cursor.mapped (s : Cursor) (sender receiver : Word) : Cursor :=
  ⟨(memcpy s.memory (mr s.memory receiver s.toMrOffset) (mr s.memory sender s.fromMrOffset) 8#32).2, s.fromMrOffset + 2,
    s.toMrOffset + 2, s.toBrOffset⟩

def Cursor.taken (s : Cursor) (sender receiver : Word) : Cursor :=
  ⟨copyString s.memory receiver (mr s.memory sender s.fromMrOffset) (br s.memory receiver s.toBrOffset) s.toMrOffset,
    s.fromMrOffset + 2, s.toMrOffset + 2, s.toBrOffset + 2⟩

def Cursor.turn (s : Cursor) (sender receiver : Word) : Fate → Turn Cursor (Fallible (IpcErrorCode × Cursor))
  | .mapped => .next (s.mapped sender receiver)
  | .taken => .next (s.taken sender receiver)
  | .refused => .exit (.ok (.messageOverflow, s))
  | .panics => .exit (.error (.panic .compoundString))
  | .stuck => .next s

theorem loggedRound_done (done : last < s.fromMrOffset) : loggedRound sender receiver acceptor last s = ([], .exit (.ok (.none, s))) :=
  if_pos done

theorem loggedRound_turn (more : s.fromMrOffset ≤ last) :
    (loggedRound sender receiver acceptor last s).2 = s.turn sender receiver (s.fate sender receiver acceptor) := by
  rw [loggedRound, if_neg (Nat.not_lt.mpr more), Cursor.fate, fate]
  dsimp only
  cases type : Item.type (word s.memory (mr s.memory sender s.fromMrOffset)) with
  | mapItem => rfl
  | stringItem =>
    dsimp only
    by_cases refuses : (!acceptsStrings acceptor) = true
    · rw [if_pos refuses, if_pos refuses]
      rfl
    rw [if_neg refuses, if_neg refuses]
    by_cases compound : Item.compound (word s.memory (mr s.memory sender s.fromMrOffset)) = true
    · rw [if_pos compound, if_pos compound]
      rfl
    rw [if_neg compound, if_neg compound]
    by_cases compoundBuffer : Item.compound (word s.memory (br s.memory receiver s.toBrOffset)) = true
    · rw [if_pos compoundBuffer, if_pos compoundBuffer]
      rfl
    rw [if_neg compoundBuffer, if_neg compoundBuffer]
    by_cases small : Item.length (word s.memory (br s.memory receiver s.toBrOffset)) <
        Item.length (word s.memory (mr s.memory sender s.fromMrOffset))
    · rw [if_pos small, if_pos small]
      rfl
    rw [if_neg small, if_neg small]
    rfl
  | grantItem => rfl
  | ctrlXferItem => rfl
  | other => rfl

/-- A round stays inside where the item's two words and the two words of the buffer it takes are. -/
theorem loggedRound_inside_iff (more : s.fromMrOffset ≤ last) (even : s.toMrOffset = s.fromMrOffset) (buffer : s.toBrOffset < brCount) :
    (∀ a ∈ (loggedRound sender receiver acceptor last s).1, a.inside = true) ↔
      s.fromMrOffset + 1 < mrCount ∧ (s.fate sender receiver acceptor = .taken → s.toBrOffset + 1 < brCount) := by
  have reads : (∀ a ∈ [Access.readMr s.fromMrOffset, .readMr (s.fromMrOffset + 1)], a.inside = true) ↔ s.fromMrOffset + 1 < mrCount := by
    simp only [List.forall_mem_cons, List.not_mem_nil, false_implies, implies_true, and_true, Access.inside, decide_eq_true_eq]
    omega
  have writes : (∀ a ∈ [Access.writeMr s.toMrOffset, .writeMr (s.toMrOffset + 1)], a.inside = true) ↔ s.fromMrOffset + 1 < mrCount := by
    rw [even]
    simp only [List.forall_mem_cons, List.not_mem_nil, false_implies, implies_true, and_true, Access.inside, decide_eq_true_eq]
    omega
  have looks : (∀ a ∈ [Access.readMr s.fromMrOffset, .readMr (s.fromMrOffset + 1)] ++ [.readBr s.toBrOffset], a.inside = true) ↔
      s.fromMrOffset + 1 < mrCount := by
    rw [List.forall_mem_append, reads]
    simp [Access.inside, buffer]
  rw [loggedRound, if_neg (Nat.not_lt.mpr more), Cursor.fate, fate]
  dsimp only
  cases type : Item.type (word s.memory (mr s.memory sender s.fromMrOffset)) with
  | mapItem =>
    rw [List.forall_mem_append, reads, writes, and_self]
    simp
  | stringItem =>
    dsimp only
    by_cases refuses : (!acceptsStrings acceptor) = true
    · rw [if_pos refuses, if_pos refuses, reads]
      simp
    rw [if_neg refuses, if_neg refuses]
    by_cases compound : Item.compound (word s.memory (mr s.memory sender s.fromMrOffset)) = true
    · rw [if_pos compound, if_pos compound, reads]
      simp
    rw [if_neg compound, if_neg compound]
    by_cases compoundBuffer : Item.compound (word s.memory (br s.memory receiver s.toBrOffset)) = true
    · rw [if_pos compoundBuffer, if_pos compoundBuffer, looks]
      simp
    rw [if_neg compoundBuffer, if_neg compoundBuffer]
    by_cases small : Item.length (word s.memory (br s.memory receiver s.toBrOffset)) <
        Item.length (word s.memory (mr s.memory sender s.fromMrOffset))
    · rw [if_pos small, if_pos small, looks]
      simp
    rw [if_neg small, if_neg small]
    have string : (∀ a ∈ [Access.readBr (s.toBrOffset + 1),
        .writeString (Item.length (word s.memory (mr s.memory sender s.fromMrOffset)))
          (Item.length (word s.memory (br s.memory receiver s.toBrOffset)))], a.inside = true) ↔ s.toBrOffset + 1 < brCount := by
      simp [Access.inside, Nat.le_of_not_lt small]
    rw [List.forall_mem_append, List.forall_mem_append, looks, writes, string]
    simp only [true_implies]
    constructor
    · rintro ⟨⟨words, registers⟩, -⟩
      exact ⟨words, registers⟩
    · rintro ⟨words, registers⟩
      exact ⟨⟨words, registers⟩, words⟩
  | grantItem =>
    rw [reads]
    simp
  | ctrlXferItem =>
    rw [reads]
    simp
  | other =>
    rw [reads]
    simp

/-! ### The rounds of a call -/

section Call

variable {m : Bytes} {n : Nat} {t : Cursor}

/-- The loop comes to this state in front of one of its rounds. -/
def Comes (m : Bytes) (sender receiver : Word) (n : Nat) (s : Cursor) : Prop :=
  Reaches (unlogged (itemRound m sender receiver)) n (start m sender receiver) s

/-- The state has an item to go on with. -/
def Cursor.more (s : Cursor) (m : Bytes) (sender : Word) : Prop := s.fromMrOffset ≤ untyped m sender + typed m sender

/-- What becomes of the item that the round of a state begins with. -/
def fateOf (m : Bytes) (sender receiver : Word) (s : Cursor) : Fate := s.fate sender receiver (acceptorOf m sender receiver)

theorem itemRound_done (done : ¬ s.more m sender) : itemRound m sender receiver s = ([], .exit (.ok (.none, s))) :=
  loggedRound_done (Nat.lt_of_not_le done)

theorem itemRound_turn (more : s.more m sender) :
    unlogged (itemRound m sender receiver) s = s.turn sender receiver (fateOf m sender receiver s) :=
  loggedRound_turn more

theorem itemRound_stuck (more : s.more m sender) (stuck : fateOf m sender receiver s = .stuck) :
    unlogged (itemRound m sender receiver) s = .next s := by
  rw [itemRound_turn more, stuck, Cursor.turn]

/-- A round that goes on has passed its item, or it is stuck. -/
theorem itemRound_next (step : unlogged (itemRound m sender receiver) s = .next t) : s.more m sender ∧
    (fateOf m sender receiver s = .mapped ∧ t = s.mapped sender receiver ∨
      fateOf m sender receiver s = .taken ∧ t = s.taken sender receiver ∨ fateOf m sender receiver s = .stuck ∧ t = s) := by
  by_cases more : s.more m sender
  · refine ⟨more, ?_⟩
    rw [itemRound_turn more] at step
    cases f : fateOf m sender receiver s with
    | mapped =>
      rw [f] at step
      exact .inl ⟨rfl, (Turn.next.inj step).symm⟩
    | taken =>
      rw [f] at step
      exact .inr (.inl ⟨rfl, (Turn.next.inj step).symm⟩)
    | refused =>
      rw [f] at step
      cases step
    | panics =>
      rw [f] at step
      cases step
    | stuck =>
      rw [f] at step
      exact .inr (.inr ⟨rfl, (Turn.next.inj step).symm⟩)
  · rw [unlogged, itemRound_done more] at step
    cases step

/-- Sender and receiver stay in step. -/
theorem Comes.even (comes : Comes m sender receiver n s) : s.toMrOffset = s.fromMrOffset := by
  refine Reaches.invariant (I := fun _ s => s.toMrOffset = s.fromMrOffset) rfl (fun n s t _ step even => ?_) comes
  obtain ⟨-, ⟨-, rfl⟩ | ⟨-, rfl⟩ | ⟨-, rfl⟩⟩ := itemRound_next step
  · exact congrArg (· + 2) even
  · exact congrArg (· + 2) even
  · exact even

/-! ### Whether it ends -/

/-- An item that the loop goes on behind, or ends with. -/
def Cursor.Handled (s : Cursor) (m : Bytes) (sender receiver : Word) : Prop :=
  s.more m sender → fateOf m sender receiver s ≠ .stuck ∧ fateOf m sender receiver s ≠ .panics

theorem Comes.offset (handled : ∀ n s, Comes m sender receiver n s → s.Handled m sender receiver) (comes : Comes m sender receiver n s) :
    s.fromMrOffset = untyped m sender + 1 + 2 * n := by
  refine Reaches.invariant (I := fun n s => s.fromMrOffset = untyped m sender + 1 + 2 * n) rfl (fun n s t reached step before => ?_) comes
  obtain ⟨more, ⟨-, rfl⟩ | ⟨-, rfl⟩ | ⟨stuck, -⟩⟩ := itemRound_next step
  · show s.fromMrOffset + 2 = _
    omega
  · show s.fromMrOffset + 2 = _
    omega
  · exact absurd stuck (handled n s reached more).1

/-- The loop over the typed items ends within as many rounds as there are typed words, and the check that ends it, with success
or an error, if and only if it comes to no item of a type other than map and string, and, where strings are accepted, to no
compound string and to no string for which the receive buffer is compound. -/
theorem itemLoop_ends_iff (m : Bytes) (sender receiver : Word) :
    (∃ err s, itemLoop (typed m sender + 1) m sender receiver = .exit (.ok (err, s))) ↔
      ∀ n s, Comes m sender receiver n s → s.Handled m sender receiver := by
  constructor
  · rintro ⟨err, last, ends⟩ n s comes more
    obtain ⟨k, t, -, reached, exits⟩ := Theory.exits_of_loop ends
    have before := reached.le_of_exit exits comes
    constructor
    · intro stuck
      -- the loop never leaves a state that is stuck
      have later : Comes m sender receiver (n + (k + 1)) s :=
        (Reaches.loop_add comes (k + 1)).trans (Reaches.stays (itemRound_stuck more stuck) (k + 1))
      have bound := reached.le_of_exit exits later
      omega
    · intro panics
      have halts : unlogged (itemRound m sender receiver) s = .exit (.error (.panic .compoundString)) := by
        rw [itemRound_turn more, panics, Cursor.turn]
      have after := Reaches.le_of_exit comes halts reached
      obtain rfl := Nat.le_antisymm before after
      obtain rfl := Reaches.unique comes reached
      rw [halts] at exits
      cases exits
  · intro handled
    cases ran : itemLoop (typed m sender + 1) m sender receiver with
    | next s =>
      obtain ⟨t, reached, step⟩ := Reaches.before ran
      have more := (itemRound_next step).1
      rw [Cursor.more, Comes.offset handled reached] at more
      omega
    | exit r =>
      obtain ⟨n, s, -, reached, exits⟩ := Theory.exits_of_loop ran
      cases r with
      | ok r => exact ⟨r.1, r.2, rfl⟩
      | error halt =>
        by_cases more : s.more m sender
        · have good := handled n s reached more
          rw [itemRound_turn more] at exits
          cases f : fateOf m sender receiver s with
          | panics => exact absurd f good.2
          | mapped | taken | refused | stuck =>
            rw [f] at exits
            cases exits
        · rw [unlogged, itemRound_done more] at exits
          cases exits

/-- Behind the overflow check, the whole copy ends with the loop. -/
theorem copyPayload_ends_iff (fits : ¬ mrCount < untyped m sender + typed m sender) (fuel : Nat) :
    (copyPayload fuel m sender receiver).isSome = true ↔ ∃ r, itemLoop fuel m sender receiver = .exit r := by
  rw [copyPayload, loggedPayload, if_neg fits, itemLoop, ← Theory.loggedLoop_loop]
  dsimp only
  split
  · rename_i ends
    simp [ends]
  · rename_i ends
    simp [ends]
  · rename_i ends
    simp [ends]
  · rename_i ends
    simp [ends]

/-! ### Inside the register files -/

/-- An item, and the receive buffer of a string that is taken, inside the register files. -/
def Cursor.Inside (s : Cursor) (m : Bytes) (sender receiver : Word) : Prop :=
  s.more m sender → s.fromMrOffset + 1 < mrCount ∧ (fateOf m sender receiver s = .taken → s.toBrOffset + 1 < brCount)

/-- While all rounds were inside, the next buffer register is one. -/
theorem Comes.buffer (inside : ∀ k < n, ∀ t, Comes m sender receiver k t → t.Inside m sender receiver)
    (comes : Comes m sender receiver n s) : s.toBrOffset % 2 = 1 ∧ s.toBrOffset < brCount := by
  induction n generalizing s with
  | zero =>
    obtain rfl := Turn.next.inj comes
    have first : (start m sender receiver).toBrOffset = 1 := rfl
    rw [first]
    decide
  | succ n ih =>
    obtain ⟨t, reached, step⟩ := Reaches.before comes
    obtain ⟨odd, small⟩ := ih (fun k earlier => inside k (Nat.lt_succ_of_lt earlier)) reached
    obtain ⟨more, ⟨-, rfl⟩ | ⟨string, rfl⟩ | ⟨-, rfl⟩⟩ := itemRound_next step
    · exact ⟨odd, small⟩
    · have room := (inside n (Nat.lt_succ_self n) t reached more).2 string
      simp only [Cursor.taken, brCount] at room ⊢
      omega
    · exact ⟨odd, small⟩

theorem Comes.inside_iff (comes : Comes m sender receiver n s)
    (before : ∀ k < n, ∀ t, Comes m sender receiver k t → t.Inside m sender receiver) :
    (∀ a ∈ (itemRound m sender receiver s).1, a.inside = true) ↔ s.Inside m sender receiver := by
  by_cases more : s.more m sender
  · have round : (∀ a ∈ (itemRound m sender receiver s).1, a.inside = true) ↔
        s.fromMrOffset + 1 < mrCount ∧ (fateOf m sender receiver s = .taken → s.toBrOffset + 1 < brCount) :=
      loggedRound_inside_iff more comes.even (comes.buffer before).2
    exact ⟨fun all _ => round.mp all, fun inside => round.mpr (inside more)⟩
  · rw [itemRound_done more]
    exact iff_of_true (by simp) fun more' => absurd more' more

/-- By strong induction on the rounds before. -/
theorem rounds_inside_iff : (∀ n s, Comes m sender receiver n s → ∀ a ∈ (itemRound m sender receiver s).1, a.inside = true) ↔
    ∀ n s, Comes m sender receiver n s → s.Inside m sender receiver := by
  constructor
  · intro all n
    induction n using Nat.strong_induction_on with
    | _ n ih => exact fun s comes => (comes.inside_iff ih).mp (all n s comes)
  · exact fun inside n s comes => (comes.inside_iff fun k _ => inside k).mpr (inside n s comes)

theorem wordAccesses_inside (u : Nat) : (∀ a ∈ wordAccesses u, a.inside = true) ↔ u < mrCount := by
  simp only [wordAccesses, List.mem_flatMap, List.mem_range, List.mem_cons, List.not_mem_nil, or_false]
  constructor
  · intro all
    by_contra large
    have last := all (.readMr mrCount) ⟨mrCount - 1, by simp only [mrCount] at large ⊢; omega, .inl rfl⟩
    simp [Access.inside] at last
  · rintro small a ⟨i, inside, rfl | rfl⟩
    all_goals
      simp only [Access.inside, decide_eq_true_eq]
      omega

/-- In front of the loop, in its rounds, and the tag behind it. -/
theorem loggedPayload_inside_iff (fits : ¬ mrCount < untyped m sender + typed m sender) (fuel : Nat) :
    (∀ a ∈ (loggedPayload fuel m sender receiver).1, a.inside = true) ↔
      untyped m sender < mrCount ∧ ∀ a ∈ (loggedLoop (itemRound m sender receiver) fuel (start m sender receiver)).1, a.inside = true := by
  have tag : ∀ a ∈ [Access.writeMr 0], a.inside = true := by simp [Access.inside, mrCount]
  have first : (Access.readMr 0).inside = true := rfl
  have acceptor : (Access.readBr 0).inside = true := rfl
  have begun (log : List Access) :
      (∀ a ∈ Access.readMr 0 :: wordAccesses (untyped m sender) ++ .readBr 0 :: log, a.inside = true) ↔
        untyped m sender < mrCount ∧ ∀ a ∈ log, a.inside = true := by
    simp only [List.cons_append, List.forall_mem_append, List.forall_mem_cons, first, acceptor, wordAccesses_inside, true_and]
  rw [loggedPayload, if_neg fits]
  dsimp only
  split
  · exact begun _
  · exact begun _
  · rw [List.forall_mem_append, and_iff_left tag]
    exact begun _
  · exact begun _

/-- A copy stays inside the register files, and returns overflow in front of them, if and only if its tag counts too many words,
or it does not count all registers as untyped words and each item that the loop comes to has both words in a register,
and the buffer of a string that is taken is in the buffer registers. -/
theorem copyPayload_inside_iff (m : Bytes) (sender receiver : Word) :
    (∀ fuel, ∀ a ∈ (loggedPayload fuel m sender receiver).1, a.inside = true) ↔
      mrCount < untyped m sender + typed m sender ∨
        untyped m sender < mrCount ∧ ∀ n s, Comes m sender receiver n s → s.Inside m sender receiver := by
  by_cases large : mrCount < untyped m sender + typed m sender
  · refine ⟨fun _ => .inl large, fun _ fuel a touched => ?_⟩
    rw [loggedPayload, if_pos large] at touched
    rw [List.mem_singleton.mp touched]
    rfl
  · simp only [loggedPayload_inside_iff large, large, false_or, ← rounds_inside_iff, Theory.mem_loggedLoop_iff]
    constructor
    · intro all
      exact ⟨(all 0).1, fun n s comes a touched => (all (n + 1)).2 a ⟨n, s, Nat.lt_succ_self n, comes, touched⟩⟩
    · rintro ⟨small, all⟩ fuel
      refine ⟨small, ?_⟩
      rintro a ⟨n, s, -, comes, touched⟩
      exact all n s comes a touched

end Call

/-! ### Two calls -/

/-- A memory with the TCBs of a sender at 0x20000400 and of a receiver at 0x20000468, whose UTCBs have these message and
buffer registers. -/
def ofMessage (sent buffers : List Word) : Bytes :=
  ((0x20000438#32, 0x20001000#32) :: (0x200004A0#32, 0x20002000#32) :: (sent.mapIdx fun i w => (0x2000102C#32 + BitVec.ofNat 32 (4 * i), w)) ++
    buffers.mapIdx fun i w => (0x2000206C#32 + BitVec.ofNat 32 (4 * i), w)).foldl (fun m (a, w) => store m a w) fun _ => 0#8

/-- A grant item keeps the loop where it is. -/
theorem itemLoop_grant : ¬ ∃ fuel err s, itemLoop fuel (ofMessage [MsgTag.mk 0 2 0#32 0#32, 10#32, 0#32] []) 0x20000400#32 0x20000468#32 =
    .exit (.ok (err, s)) := by
  rintro ⟨fuel, err, s, ends⟩
  generalize made : ofMessage [MsgTag.mk 0 2 0#32 0#32, 10#32, 0#32] [] = m at ends
  have more : (start m 0x20000400#32 0x20000468#32).more m 0x20000400#32 := by
    rw [← made]
    unfold Cursor.more
    decide +kernel
  have stuck : fateOf m 0x20000400#32 0x20000468#32 (start m 0x20000400#32 0x20000468#32) = .stuck := by
    rw [← made]
    decide +kernel
  have stays : Comes m 0x20000400#32 0x20000468#32 fuel (start m 0x20000400#32 0x20000468#32) :=
    Reaches.stays (itemRound_stuck more stuck) fuel
  rw [Comes, Reaches] at stays
  rw [itemLoop, stays] at ends
  cases ends

/-- Fourteen words and a map item: its second word is the sender's acceptor. -/
theorem copyPayload_straddles :
    ¬ ∀ fuel, ∀ a ∈ (loggedPayload fuel (ofMessage (MsgTag.mk 14 2 0#32 0#32 :: List.replicate 14 0#32 ++ [8#32]) []) 0x20000400#32
      0x20000468#32).1, a.inside = true := by
  intro all
  have first : (loggedPayload 1 (ofMessage (MsgTag.mk 14 2 0#32 0#32 :: List.replicate 14 0#32 ++ [8#32]) []) 0x20000400#32
      0x20000468#32).1.all Access.inside = false := by decide +kernel
  rw [List.all_eq_true.mpr (all 1)] at first
  cases first

end BradypOS.Payload
