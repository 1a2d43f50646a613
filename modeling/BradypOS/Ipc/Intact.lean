import BradypOS.Ipc.Registers

/-!
# Messages arrive intact

A message of map items and simple strings for which the receiver has buffers. The three offsets stay in
step: the items of the receiver stand where those of the sender do, and the buffer of a string follows
from the number of strings before it.
-/

namespace BradypOS.Memory

open L4

/-- The addresses of `length` bytes from `base` on. -/
def area (base : Word) (length : Nat) : Set Word := {a | (a - base).toNat < length}

theorem area_disjoint {a b : Word} {n k : Nat} (before : a.toNat + n ≤ b.toNat) (ends : b.toNat + k ≤ 2 ^ 32) :
    ∀ p ∈ area a n, p ∉ area b k := by
  intro p inA inB
  simp only [area, Set.mem_ofPred_eq, BitVec.toNat_sub] at inA inB
  omega

section Bytes

variable {m : Memory} {dst src a : Word} {length : Nat}

theorem copyBytes_inside (inside : a ∈ area dst length) : (m.copyBytes dst src length).byte a = m.byte (src + (a - dst)) := if_pos inside

theorem copyBytes_outside (outside : a ∉ area dst length) : (m.copyBytes dst src length).byte a = m.byte a := if_neg outside

theorem mem_area {base : Word} {length i : Nat} (inside : i < length) (small : length ≤ 2 ^ 32) :
    base + BitVec.ofNat 32 i ∈ area base length := by
  have offset : base + BitVec.ofNat 32 i - base = BitVec.ofNat 32 i := by
    rw [BitVec.add_comm, BitVec.add_sub_cancel]
  have value : (BitVec.ofNat 32 i).toNat = i := by
    rw [BitVec.toNat_ofNat]
    exact Nat.mod_eq_of_lt (by omega)
  show (base + BitVec.ofNat 32 i - base).toNat < length
  rw [offset, value]
  exact inside

end Bytes

/-! ### One item -/

section Item

variable (m : Memory) {dst p : Word} (offset brOffset : Nat) (item second : Word)

theorem stored_other (other : p ≠ dst) : (m.stored dst offset item second).utcb p = m.utcb p := by
  simp [stored, setUtcb, other]

theorem stored_first (dst : Word) : ((m.stored dst offset item second).utcb dst).mr offset = item := by
  simp [stored, setUtcb, Utcb.mr, Utcb.setMr]

theorem stored_second (dst : Word) : ((m.stored dst offset item second).utcb dst).mr (offset + 1) = second := by
  simp [stored, setUtcb, Utcb.mr, Utcb.setMr]

theorem tookString_other (other : p ≠ dst) : (m.tookString dst offset brOffset item second).utcb p = m.utcb p := by
  simp [tookString, stored, setUtcb, copyBytes, other]

theorem tookString_first (dst : Word) : ((m.tookString dst offset brOffset item second).utcb dst).mr offset = item := by
  simp [tookString, stored, setUtcb, Utcb.mr, Utcb.setMr]

/-- The second word of a string is the pointer of its buffer, where the item is in front of the buffer registers. -/
theorem tookString_second (dst : Word) (fits : offset + 1 < mrCount) :
    ((m.tookString dst offset brOffset item second).utcb dst).mr (offset + 1) = (m.utcb dst).br (brOffset + 1) := by
  have first : mrCount + (brOffset + 1) ≠ offset := by omega
  have next : mrCount + (brOffset + 1) ≠ offset + 1 := by omega
  simp [tookString, stored, setUtcb, copyBytes, Utcb.mr, Utcb.br, Utcb.setMr, Function.update_of_ne first, Function.update_of_ne next]

theorem tookString_byte (dst : Word) : (m.tookString dst offset brOffset item second).byte =
    (m.copyBytes ((m.utcb dst).br (brOffset + 1)) second (Item.length item)).byte := rfl

end Item

/-! ### All items -/

/-- The first word of the receive buffer that is next when the loop comes to an item. -/
def bufferItem (m : Memory) (src dst : Word) (u j : Nat) : Word := (m.utcb dst).br (1 + 2 * m.stringsBefore src u j)

def bufferPtr (m : Memory) (src dst : Word) (u j : Nat) : Word := (m.utcb dst).br (1 + 2 * m.stringsBefore src u j + 1)

def source (m : Memory) (src : Word) (u j : Nat) : Set Word := area (m.second src u j) (Item.length (m.item src u j))

/-- The part of its buffer that a string fills. -/
def target (m : Memory) (src dst : Word) (u j : Nat) : Set Word := area (m.bufferPtr src dst u j) (Item.length (m.item src u j))

/-- No string goes to where another one is or goes. -/
structure StringsApart (m : Memory) (src dst : Word) (u n : Nat) : Prop where
  sources : ∀ i < n, ∀ j < n, m.isString src u i = true → m.isString src u j = true →
    ∀ a ∈ m.source src u i, a ∉ m.target src dst u j
  targets : ∀ i < n, ∀ j < n, m.isString src u i = true → m.isString src u j = true → i ≠ j →
    ∀ a ∈ m.target src dst u i, a ∉ m.target src dst u j

theorem StringsApart.mono {m : Memory} {src dst : Word} {u n k : Nat} (apart : m.StringsApart src dst u n) (le : k ≤ n) :
    m.StringsApart src dst u k where
  sources i first j second := apart.sources i (by omega) j (by omega)
  targets i first j second := apart.targets i (by omega) j (by omega)

section Items

variable {m : Memory} {src dst a : Word} {u i j : Nat}

theorem afterItems_other {p : Word} (other : p ≠ dst) : (m.afterItems src dst u j).utcb p = m.utcb p := by
  induction j with
  | zero => rfl
  | succ j ih =>
    unfold afterItems
    split
    · rw [tookString_other _ _ _ _ _ other, ih]
    · rw [stored_other _ _ _ _ other, ih]

theorem afterItems_buffer (fits : u + 2 * j ≤ mrCount) (i : Nat) : ((m.afterItems src dst u j).utcb dst).br (i + 1) = (m.utcb dst).br (i + 1) :=
  afterItems_words m src dst dst (.inr (by omega))

theorem afterItems_first (earlier : i < j) : ((m.afterItems src dst u j).utcb dst).mr (u + 1 + 2 * i) = m.item src u i := by
  induction j with
  | zero => omega
  | succ j ih =>
    unfold afterItems
    rcases Nat.lt_succ_iff_lt_or_eq.mp earlier with before | rfl
    · split
      · exact (tookString_words _ _ _ _ _ _ _ (by omega) (by omega)).trans (ih before)
      · exact (stored_words _ _ _ _ _ _ (by omega) (by omega)).trans (ih before)
    · split
      · exact tookString_first _ _ _ _ _ _
      · exact stored_first _ _ _ _ _

theorem afterItems_second (fits : u + 2 * j < mrCount) (earlier : i < j) :
    ((m.afterItems src dst u j).utcb dst).mr (u + 1 + 2 * i + 1) =
      if m.isString src u i then m.bufferPtr src dst u i else m.second src u i := by
  induction j with
  | zero => omega
  | succ j ih =>
    unfold afterItems
    rcases Nat.lt_succ_iff_lt_or_eq.mp earlier with before | rfl
    · have rest := ih (by omega) before
      split
      · exact (tookString_words _ _ _ _ _ _ _ (by omega) (by omega)).trans rest
      · exact (stored_words _ _ _ _ _ _ (by omega) (by omega)).trans rest
    · by_cases string : m.isString src u i = true
      · rw [if_pos string, if_pos string, tookString_second _ _ _ _ _ _ (by omega)]
        exact afterItems_buffer (by omega) _
      · rw [if_neg string, if_neg string]
        exact stored_second _ _ _ _ _

theorem afterItems_byte_outside (fits : u + 2 * j ≤ mrCount)
    (outside : ∀ i < j, m.isString src u i = true → a ∉ m.target src dst u i) : (m.afterItems src dst u j).byte a = m.byte a := by
  induction j with
  | zero => rfl
  | succ j ih =>
    have rest := ih (by omega) fun i earlier => outside i (Nat.lt_succ_of_lt earlier)
    unfold afterItems
    split
    · rename_i string
      rw [tookString_byte, afterItems_buffer (by omega)]
      exact (copyBytes_outside (outside j (Nat.lt_succ_self j) string)).trans rest
    · exact rest

/-- A string that has been taken is in its buffer, as it was before the first item. -/
theorem afterItems_byte_inside (fits : u + 2 * j ≤ mrCount) (apart : m.StringsApart src dst u j) (earlier : i < j)
    (string : m.isString src u i = true) (inside : a ∈ m.target src dst u i) :
    (m.afterItems src dst u j).byte a = m.byte (m.second src u i + (a - m.bufferPtr src dst u i)) := by
  induction j with
  | zero => omega
  | succ j ih =>
    have buffer : ((m.afterItems src dst u j).utcb dst).br (1 + 2 * m.stringsBefore src u j + 1) = m.bufferPtr src dst u j :=
      afterItems_buffer (by omega) _
    unfold afterItems
    rcases Nat.lt_succ_iff_lt_or_eq.mp earlier with before | rfl
    · have rest := ih (by omega) (apart.mono (Nat.le_succ j)) before
      split
      · rename_i later
        have elsewhere : a ∉ m.target src dst u j :=
          apart.targets i earlier j (Nat.lt_succ_self j) string later (Nat.ne_of_lt before) a inside
        rw [tookString_byte, buffer]
        exact (copyBytes_outside elsewhere).trans rest
      · exact rest
    · rw [if_pos string, tookString_byte, buffer]
      refine (copyBytes_inside inside).trans (afterItems_byte_outside (by omega) fun k before other => ?_)
      have here : m.second src u i + (a - m.bufferPtr src dst u i) ∈ m.source src u i := by
        show (m.second src u i + (a - m.bufferPtr src dst u i) - m.second src u i).toNat < _
        rw [BitVec.add_comm, BitVec.add_sub_cancel]
        exact inside
      exact apart.sources i earlier k (Nat.lt_succ_of_lt before) string other _ here

end Items

/-! ### The whole message -/

/-- A message of words, map items and at most three simple strings, and a receiver with simple buffers for them. -/
structure Deliverable (m : Memory) (src dst : Word) : Prop where
  apart : src ≠ dst
  fits : m.untyped src + m.typed src ≤ 15
  pairs : m.typed src % 2 = 0
  items : ∀ j < m.typed src / 2, Item.type (m.item src (m.untyped src) j) = .mapItem ∨
    Item.type (m.item src (m.untyped src) j) = .stringItem ∧ Item.compound (m.item src (m.untyped src) j) = false
  accepts : acceptsStrings ((m.utcb dst).br 0) = true
  few : m.stringsBefore src (m.untyped src) (m.typed src / 2) ≤ 3
  buffers : ∀ j < m.typed src / 2, m.isString src (m.untyped src) j = true →
    Item.compound (m.bufferItem src dst (m.untyped src) j) = false ∧
      Item.length (m.item src (m.untyped src) j) ≤ Item.length (m.bufferItem src dst (m.untyped src) j)
  strings : m.StringsApart src dst (m.untyped src) (m.typed src / 2)

/-- What a receiver has of a message that has arrived intact. -/
structure Intact (m : Memory) (src dst : Word) (m' : Memory) : Prop where
  u : MsgTag.u ((m'.utcb dst).mr 0) = m.untyped src
  t : MsgTag.t ((m'.utcb dst).mr 0) = m.typed src
  label : MsgTag.label ((m'.utcb dst).mr 0) = MsgTag.label ((m.utcb src).mr 0)
  flags : MsgTag.flags ((m'.utcb dst).mr 0) = 0#32
  words : ∀ i, 1 ≤ i → i ≤ m.untyped src → (m'.utcb dst).mr i = (m.utcb src).mr i
  mapItem : ∀ j < m.typed src / 2, Item.type (m.item src (m.untyped src) j) = .mapItem →
    m'.item dst (m.untyped src) j = m.item src (m.untyped src) j ∧
      m'.second dst (m.untyped src) j = m.second src (m.untyped src) j
  stringItem : ∀ j < m.typed src / 2, m.isString src (m.untyped src) j = true →
    m'.item dst (m.untyped src) j = m.item src (m.untyped src) j ∧
      m'.second dst (m.untyped src) j = m.bufferPtr src dst (m.untyped src) j
  string : ∀ j < m.typed src / 2, m.isString src (m.untyped src) j = true →
    ∀ i < Item.length (m.item src (m.untyped src) j),
      m'.byte (m.bufferPtr src dst (m.untyped src) j + BitVec.ofNat 32 i) =
        m.byte (m.second src (m.untyped src) j + BitVec.ofNat 32 i)
  others : ∀ i, m.untyped src + m.typed src < i → (m'.utcb dst).words i = (m.utcb dst).words i
  sender : m'.utcb src = m.utcb src

section Message

variable {m : Memory} {src dst : Word} {j : Nat}

theorem Deliverable.whole (good : m.Deliverable src dst) : m.untyped src + m.typed src ≤ mrCount ∧ m.untyped src < mrCount := by
  have fits := good.fits
  unfold mrCount
  omega

theorem isString_iff {u : Nat} : m.isString src u j = true ↔ Item.type (m.item src u j) = .stringItem := by simp [isString]

theorem Deliverable.passes (good : m.Deliverable src dst) (inside : j < m.typed src / 2) :
    (m.itemFate src dst ((m.utcb dst).br 0) (m.untyped src) j).passes = true := by
  unfold itemFate fate
  rcases good.items j inside with map | ⟨string, simple⟩
  · rw [map]
    rfl
  · obtain ⟨simpleBuffer, room⟩ := good.buffers j inside (isString_iff.mpr string)
    unfold bufferItem at simpleBuffer room
    rw [string, good.accepts, simple, simpleBuffer]
    simp only [Bool.not_true, Bool.false_eq_true, if_false, if_neg (Nat.not_lt.mpr room)]
    rfl

end Message

section Words

variable {m : Memory} {src dst : Word} {u n : Nat}

theorem withWords_second (j : Nat) : (m.withWords src dst u).second src u j = m.second src u j :=
  withWords_behind m src dst src (by omega)

theorem withWords_bufferPtr (fits : u ≤ mrCount) (j : Nat) :
    (m.withWords src dst u).bufferPtr src dst u j = m.bufferPtr src dst u j := by
  rw [bufferPtr, bufferPtr, withWords_strings]
  exact withWords_behind m src dst dst (by omega)

theorem withWords_target (fits : u ≤ mrCount) (j : Nat) : (m.withWords src dst u).target src dst u j = m.target src dst u j := by
  rw [target, target, withWords_bufferPtr fits, withWords_item]

theorem withWords_source (j : Nat) : (m.withWords src dst u).source src u j = m.source src u j := by
  rw [source, source, withWords_second, withWords_item]

theorem StringsApart.withWords (fits : u ≤ mrCount) (apart : m.StringsApart src dst u n) :
    (m.withWords src dst u).StringsApart src dst u n := by
  constructor
  · simp only [withWords_isString, withWords_source, withWords_target fits]
    exact apart.sources
  · simp only [withWords_isString, withWords_target fits]
    exact apart.targets

end Words

def received (m : Memory) (src dst : Word) : Memory :=
  (m.withWords src dst (m.untyped src)).afterItems src dst (m.untyped src) (m.typed src / 2)

theorem copyPayload_run {m : Memory} {src dst : Tcb} (good : m.Deliverable src.utcb dst.utcb) :
    m.copyPayload src dst = .ok (.none, (m.received src.utcb dst.utcb).withHead src dst (m.untyped src.utcb) (m.typed src.utcb)
      (MsgTag.label ((m.utcb src.utcb).mr 0))) := by
  obtain ⟨whole, small⟩ := good.whole
  have pairs := good.pairs
  have acceptor : ((m.withWords src.utcb dst.utcb (m.untyped src.utcb)).utcb dst.utcb).br 0 = (m.utcb dst.utcb).br 0 :=
    withWords_behind m src.utcb dst.utcb dst.utcb small
  have passes : ∀ j, m.untyped src.utcb + 1 + 2 * j ≤ m.untyped src.utcb + m.typed src.utcb →
      ((m.withWords src.utcb dst.utcb (m.untyped src.utcb)).itemFate src.utcb dst.utcb ((m.utcb dst.utcb).br 0)
        (m.untyped src.utcb) j).passes = true := by
    intro j inside
    rw [withWords_itemFate small]
    exact good.passes (by omega)
  have half : (m.typed src.utcb + 1) / 2 = m.typed src.utcb / 2 := by omega
  have enough : (m.typed src.utcb + 1) / 2 < mrCount + 1 := by omega
  have items := copyItems_all whole passes enough
  rw [half] at items
  have length : m.untyped src.utcb + 1 + 2 * (m.typed src.utcb / 2) - (m.untyped src.utcb + 1) = m.typed src.utcb := by omega
  have log : (m.itemLog src.utcb dst.utcb (m.untyped src.utcb) (m.typed src.utcb)).2 =
      .ok (.none, m.received src.utcb dst.utcb, m.untyped src.utcb + 1 + 2 * (m.typed src.utcb / 2)) := by
    rw [itemLog, acceptor]
    exact loggedItems_eq.trans items
  rw [← loggedPayload_eq, loggedPayload]
  dsimp only
  rw [if_neg (Nat.not_lt.mpr whole), log, loggedHead, if_neg (by simp), length]

section Received

variable {m : Memory} {src dst : Word} {i j : Nat}

theorem Deliverable.received_words (good : m.Deliverable src dst) (outside : i ≤ m.untyped src ∨ m.untyped src + m.typed src < i) :
    ((m.received src dst).utcb dst).words i = ((m.withWords src dst (m.untyped src)).utcb dst).words i := by
  have pairs := good.pairs
  exact afterItems_words _ src dst dst (by omega)

theorem received_other {p : Word} (other : p ≠ dst) : (m.received src dst).utcb p = m.utcb p :=
  (afterItems_other other).trans (withWords_other m src _ other)

theorem received_item (inside : j < m.typed src / 2) :
    ((m.received src dst).utcb dst).mr (m.untyped src + 1 + 2 * j) = m.item src (m.untyped src) j :=
  (afterItems_first inside).trans (withWords_item j)

theorem Deliverable.received_second (good : m.Deliverable src dst) (inside : j < m.typed src / 2) :
    ((m.received src dst).utcb dst).mr (m.untyped src + 1 + 2 * j + 1) =
      if m.isString src (m.untyped src) j then m.bufferPtr src dst (m.untyped src) j else m.second src (m.untyped src) j := by
  obtain ⟨whole, small⟩ := good.whole
  have fits := good.fits
  have room : m.untyped src + 2 * (m.typed src / 2) < mrCount := by
    unfold mrCount
    omega
  rw [received, afterItems_second room inside, withWords_isString, withWords_bufferPtr (Nat.le_of_lt small), withWords_second]

theorem Deliverable.received_string (good : m.Deliverable src dst) (inside : j < m.typed src / 2)
    (string : m.isString src (m.untyped src) j = true) (reached : i < Item.length (m.item src (m.untyped src) j)) :
    (m.received src dst).byte (m.bufferPtr src dst (m.untyped src) j + BitVec.ofNat 32 i) =
      m.byte (m.second src (m.untyped src) j + BitVec.ofNat 32 i) := by
  obtain ⟨whole, small⟩ := good.whole
  have room : m.untyped src + 2 * (m.typed src / 2) ≤ mrCount := by omega
  have offset : ∀ base : Word, base + BitVec.ofNat 32 i - base = BitVec.ofNat 32 i := by
    intro base
    rw [BitVec.add_comm, BitVec.add_sub_cancel]
  have filled : m.bufferPtr src dst (m.untyped src) j + BitVec.ofNat 32 i ∈
      (m.withWords src dst (m.untyped src)).target src dst (m.untyped src) j := by
    rw [withWords_target (Nat.le_of_lt small)]
    exact mem_area reached (Nat.le_of_lt (BitVec.isLt _))
  rw [received, afterItems_byte_inside room (good.strings.withWords (Nat.le_of_lt small)) inside
    ((withWords_isString j).trans string) filled, withWords_bufferPtr (Nat.le_of_lt small), withWords_second, offset]
  rfl

end Received

/-- Messages arrive intact. -/
theorem copyPayload_intact {m : Memory} {src dst : Tcb} (good : m.Deliverable src.utcb dst.utcb) :
    ∃ m', m.copyPayload src dst = .ok (.none, m') ∧ m.Intact src.utcb dst.utcb m' := by
  obtain ⟨whole, small⟩ := good.whole
  have few : m.untyped src.utcb < 64 ∧ m.typed src.utcb < 64 := by
    unfold mrCount at whole
    omega
  have labels : MsgTag.label ((m.utcb src.utcb).mr 0) &&& 0xFFFF#32 = MsgTag.label ((m.utcb src.utcb).mr 0) := by
    ext i hi
    simp only [MsgTag.label]
    interval_cases i <;> simp
  have arrived : m.Arrived src dst (m.untyped src.utcb) (m.typed src.utcb) (MsgTag.label ((m.utcb src.utcb).mr 0))
      ((m.received src.utcb dst.utcb).withHead src dst (m.untyped src.utcb) (m.typed src.utcb)
        (MsgTag.label ((m.utcb src.utcb).mr 0))) := by
    apply arrived_withHead
    · intro i first last
      apply (good.received_words (.inl last)).trans
      rw [withWords_same, if_pos ⟨first, last⟩]
      rfl
    · intro p other
      exact received_other other
  have behind : ∀ i, 1 ≤ i → ((((m.received src.utcb dst.utcb).withHead src dst (m.untyped src.utcb) (m.typed src.utcb)
      (MsgTag.label ((m.utcb src.utcb).mr 0))).utcb dst.utcb).mr i = ((m.received src.utcb dst.utcb).utcb dst.utcb).mr i) :=
    fun i first => withHead_mr _ _ _ _ _ _ first
  refine ⟨_, copyPayload_run good, ?_⟩
  constructor
  case u => rw [arrived.tag, MsgTag.u_mk, Nat.mod_eq_of_lt few.1]
  case t => rw [arrived.tag, MsgTag.t_mk, Nat.mod_eq_of_lt few.2]
  case label => rw [arrived.tag, MsgTag.label_mk, labels]
  case flags => rw [arrived.tag, MsgTag.flags_mk, BitVec.zero_and]
  case words => exact arrived.words
  case mapItem =>
    intro j inside map
    have other : ¬ m.isString src.utcb (m.untyped src.utcb) j = true := by
      rw [isString_iff, map]
      simp
    refine ⟨(behind _ (by omega)).trans (received_item inside), (behind _ (by omega)).trans ?_⟩
    rw [good.received_second inside, if_neg other]
  case stringItem =>
    intro j inside string
    refine ⟨(behind _ (by omega)).trans (received_item inside), (behind _ (by omega)).trans ?_⟩
    rw [good.received_second inside, if_pos string]
  case string =>
    intro j inside string i reached
    exact good.received_string inside string reached
  case others =>
    intro i later
    refine (behind i (by omega)).trans ((good.received_words (.inr later)).trans ?_)
    rw [withWords_same, if_neg (by omega)]
  case sender => exact arrived.others src.utcb good.apart

/-- A word, a map item and two strings of four and two bytes, for a receiver with buffers of sixteen and eight bytes. -/
def letter : Memory :=
  ofMessage [MsgTag.mk 1 6 0#32 0x23#32, 7#32, 8#32, 0#32, Item.simpleString 4#32, 0x8000#32, Item.simpleString 2#32, 0x8100#32]
    [1#32, Item.simpleString 16#32, 0x9000#32, Item.simpleString 8#32, 0x9100#32]

theorem letter_apart : letter.StringsApart 0x5000#32 0x5100#32 1 3 := by
  have sources : ∀ i < 3, ∀ j < 3,
      (letter.second 0x5000#32 1 i).toNat + Item.length (letter.item 0x5000#32 1 i) ≤
          (letter.bufferPtr 0x5000#32 0x5100#32 1 j).toNat ∧
        (letter.bufferPtr 0x5000#32 0x5100#32 1 j).toNat + Item.length (letter.item 0x5000#32 1 j) ≤ 2 ^ 32 := by decide
  have targets : ∀ i < 3, ∀ j < 3, i < j →
      (letter.bufferPtr 0x5000#32 0x5100#32 1 i).toNat + Item.length (letter.item 0x5000#32 1 i) ≤
          (letter.bufferPtr 0x5000#32 0x5100#32 1 j).toNat ∧
        (letter.bufferPtr 0x5000#32 0x5100#32 1 j).toNat + Item.length (letter.item 0x5000#32 1 j) ≤ 2 ^ 32 := by decide
  constructor
  · intro i first j second _ _
    obtain ⟨before, ends⟩ := sources i first j second
    exact area_disjoint before ends
  · intro i first j second _ _ different
    rcases Nat.lt_or_gt_of_ne different with before | after
    · obtain ⟨before, ends⟩ := targets i first j second before
      exact area_disjoint before ends
    · obtain ⟨before, ends⟩ := targets j second i first after
      intro a inside other
      exact area_disjoint before ends a other inside

theorem copyPayload_intact_letter : ∃ m', letter.copyPayload (threadAt 0x5000#32) (threadAt 0x5100#32) = .ok (.none, m') ∧
    letter.Intact 0x5000#32 0x5100#32 m' :=
  have good : letter.Deliverable 0x5000#32 0x5100#32 :=
    { apart := by decide
      fits := by decide
      pairs := by decide
      items := by decide
      accepts := by decide
      few := by decide
      buffers := by decide
      strings := letter_apart }
  @copyPayload_intact letter (threadAt 0x5000#32) (threadAt 0x5100#32) good

end BradypOS.Memory
