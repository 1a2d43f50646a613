import BradypOS.Romfs.Reopen

/-!
# What a reply describes

A reply to `VFS_READ` or `VFS_MAP` names bytes of the image. The differences and sums of the words
that the client sends wrap, and the address in a reply to `VFS_MAP` is that of the first byte.
-/

namespace BradypOS.Romfs.Server

open L4 Vfs Theory

variable {s : Server} {client tag fd : Word} {i : Fin fileStateCount}

def fileSize (s : Server) (i : Fin fileStateCount) : Nat := (s.fileStates i).fileInfo.size.toNat

/-- The address of a byte of the file's content. -/
def contentByte (s : Server) (i : Fin fileStateCount) (k : Int) : Word :=
  s.rootfsBase + romfsFileContentOffset (s.fileStates i).fileOff + BitVec.ofInt 32 k

/-- The string starts at the offset, which is a signed word, and lies inside the file. -/
structure ReadInside (s : Server) (i : Fin fileStateCount) (s' : Server) : Prop where
  start : 0 ≤ (s.utcb.mr readOffset).toInt
  stop : (s.utcb.mr readOffset).toInt + Item.length (s'.utcb.mr readRetContent) ≤ s.fileSize i
  length : (Item.length (s'.utcb.mr readRetContent) : Int) = min ((s.utcb.mr readSize).toNat : Int)
    (s.fileSize i - (s.utcb.mr readOffset).toInt)
  ptr : s'.utcb.mr (readRetContent + 1) = s.contentByte i (s.utcb.mr readOffset).toInt

/-- The range lies inside the file, and the address is that of its first byte. -/
structure MapInside (s : Server) (i : Fin fileStateCount) (s' : Server) : Prop where
  stop : (s.utcb.mr mapOffset).toNat + (s.utcb.mr mapSize).toNat ≤ s.fileSize i
  addr : s'.utcb.mr mapRetAddr = s.contentByte i (s.utcb.mr mapOffset).toNat

/-- The offset is inside the file, and what is left of it fits into the length of a string item. -/
def ReadFits (s : Server) (i : Fin fileStateCount) : Prop :=
  0 ≤ (s.utcb.mr readOffset).toInt ∧ (s.utcb.mr readOffset).toInt ≤ s.fileSize i ∧
    min ((s.utcb.mr readSize).toNat : Int) (s.fileSize i - (s.utcb.mr readOffset).toInt) < 2 ^ 22

/-- The request is refused, or it asks for the file from its first byte on. -/
def MapFits (s : Server) (i : Fin fileStateCount) : Prop :=
  s.fileSize i < (s.utcb.mr mapOffset + s.utcb.mr mapSize).toNat ∨ s.utcb.mr mapPerm &&& Fpage.writable ≠ 0#32 ∨
    s.utcb.mr mapOffset = 0#32

theorem length_lt (w : Word) : Item.length w < 2 ^ 22 := by
  rw [Item.length, BitVec.toNat_ushiftRight, Nat.shiftRight_eq_div_pow]
  have bound := w.isLt
  omega

/-! ### Reads -/

theorem handleVfsRead_eq (isOpen : findVfsFileState s.fileStates client (s.utcb.mr readFd) = some i)
    (words : MsgTag.u tag = 3) (items : MsgTag.t tag = 0) :
    ¬ (s.handleVfsRead client tag).Failed ∧
      Item.length ((s.handleVfsRead client tag).utcb.mr readRetContent) =
        min (s.utcb.mr readSize).toNat ((s.fileStates i).fileInfo.size - s.utcb.mr readOffset).toNat % 2 ^ 22 ∧
      (s.handleVfsRead client tag).utcb.mr (readRetContent + 1) =
        s.rootfsBase + romfsFileContentOffset (s.fileStates i).fileOff + s.utcb.mr readOffset := by
  unfold handleVfsRead
  rw [if_neg (by simp [words, items])]
  simp only [isOpen]
  refine ⟨?_, ?_, ?_⟩
  · rw [failed_loadMr (by decide), failed_loadMr (by decide), failed_answer]
    decide
  · simp only [loadMr]
    rw [Utcb.mr_setMr_other _ (by decide), Utcb.mr_setMr_same, Item.length_simpleString]
    congr 1
    split
    · rename_i less
      rw [BitVec.lt_def] at less
      omega
    · rename_i less
      rw [BitVec.lt_def] at less
      omega
  · simp only [loadMr]
    rw [Utcb.mr_setMr_same]

theorem readInside_iff (isOpen : findVfsFileState s.fileStates client (s.utcb.mr readFd) = some i)
    (words : MsgTag.u tag = 3) (items : MsgTag.t tag = 0) : s.ReadInside i (s.handleVfsRead client tag) ↔ s.ReadFits i := by
  obtain ⟨_, length, ptr⟩ := handleVfsRead_eq isOpen words items
  have signed := BitVec.toInt_eq_toNat_cond (s.utcb.mr readOffset)
  have bound := (s.utcb.mr readOffset).isLt
  have size := (s.fileStates i).fileInfo.size.isLt
  constructor
  · intro inside
    have stop := inside.stop
    have exact := inside.length
    have short := length_lt ((s.handleVfsRead client tag).utcb.mr readRetContent)
    refine ⟨inside.start, ?_, ?_⟩ <;> omega
  · intro ⟨start, inside, short⟩
    have offset : (s.utcb.mr readOffset).toInt = (s.utcb.mr readOffset).toNat := by
      rw [signed] at start ⊢
      split at start
      · rename_i low
        rw [if_pos low]
      · omega
    have rest : ((s.fileStates i).fileInfo.size - s.utcb.mr readOffset).toNat = s.fileSize i - (s.utcb.mr readOffset).toNat := by
      rw [BitVec.toNat_sub]
      unfold fileSize at inside ⊢
      omega
    have exact : (Item.length ((s.handleVfsRead client tag).utcb.mr readRetContent) : Int) =
        min ((s.utcb.mr readSize).toNat : Int) (s.fileSize i - (s.utcb.mr readOffset).toInt) := by
      rw [length, rest]
      omega
    refine ⟨start, by omega, exact, ?_⟩
    rw [ptr, contentByte, BitVec.ofInt_toInt]

/-! ### Mappings -/

theorem handleVfsMap_refused (isOpen : findVfsFileState s.fileStates client (s.utcb.mr mapFd) = some i)
    (outside : s.fileSize i < (s.utcb.mr mapOffset + s.utcb.mr mapSize).toNat ∨ s.utcb.mr mapPerm &&& Fpage.writable ≠ 0#32) :
    (s.handleVfsMap client tag).Failed := by
  unfold handleVfsMap
  split
  · exact failed_makeIpcError _
  · simp only [isOpen, BitVec.lt_def]
    split_ifs with far write
    · exact failed_makeIpcError _
    · exact failed_makeIpcError _
    · rcases outside with far' | write'
      · exact absurd far' far
      · exact absurd write' write

theorem handleVfsMap_eq (isOpen : findVfsFileState s.fileStates client (s.utcb.mr mapFd) = some i)
    (words : MsgTag.u tag = 4) (items : MsgTag.t tag = 0) (inside : (s.utcb.mr mapOffset + s.utcb.mr mapSize).toNat ≤ s.fileSize i)
    (readOnly : s.utcb.mr mapPerm &&& Fpage.writable = 0#32) :
    ¬ (s.handleVfsMap client tag).Failed ∧ (s.handleVfsMap client tag).utcb.mr mapRetAddr = s.contentByte i 0 := by
  unfold handleVfsMap
  rw [if_neg (by simp [words, items])]
  simp only [isOpen]
  have near : ¬ (s.fileStates i).fileInfo.size < s.utcb.mr mapOffset + s.utcb.mr mapSize := Nat.not_lt.mpr inside
  rw [if_neg near, if_neg (by simp [readOnly])]
  refine ⟨?_, ?_⟩
  · rw [failed_loadMr (by decide), failed_loadMr (by decide), failed_loadMr (by decide), failed_answer]
    decide
  · simp only [loadMr]
    rw [Utcb.mr_setMr_other _ (by decide), Utcb.mr_setMr_other _ (by decide), Utcb.mr_setMr_same]
    simp [contentByte]

theorem mapInside_iff (isOpen : findVfsFileState s.fileStates client (s.utcb.mr mapFd) = some i)
    (words : MsgTag.u tag = 4) (items : MsgTag.t tag = 0) :
    (¬ (s.handleVfsMap client tag).Failed → s.MapInside i (s.handleVfsMap client tag)) ↔ s.MapFits i := by
  constructor
  · intro property
    by_contra unfit
    unfold MapFits at unfit
    push Not at unfit
    obtain ⟨inside, readOnly, offset⟩ := unfit
    obtain ⟨answered, addr⟩ := handleVfsMap_eq isOpen words items inside readOnly
    have same := addr.symm.trans (property answered).addr
    unfold contentByte at same
    have zero : BitVec.ofInt 32 0 = BitVec.ofInt 32 (s.utcb.mr mapOffset).toNat := add_left_cancel same
    apply offset
    rw [BitVec.ofInt_natCast, BitVec.ofNat_toNat, BitVec.setWidth_eq] at zero
    rw [← zero]
    rfl
  · intro fits answered
    by_cases outside : s.fileSize i < (s.utcb.mr mapOffset + s.utcb.mr mapSize).toNat ∨ s.utcb.mr mapPerm &&& Fpage.writable ≠ 0#32
    · exact absurd (handleVfsMap_refused isOpen outside) answered
    · push Not at outside
      obtain ⟨inside, readOnly⟩ := outside
      have offset : s.utcb.mr mapOffset = 0#32 := by
        rcases fits with far | write | offset
        · exact absurd far (Nat.not_lt.mpr inside)
        · exact absurd readOnly write
        · exact offset
      obtain ⟨_, addr⟩ := handleVfsMap_eq isOpen words items inside readOnly
      rw [offset, BitVec.zero_add] at inside
      refine ⟨?_, ?_⟩
      · rw [offset, BitVec.toNat_ofNat, Nat.zero_mod, Nat.zero_add]
        exact inside
      · rw [addr, offset]
        rfl

theorem handleVfsRead_malformed (malformed : MsgTag.u tag ≠ 3 ∨ MsgTag.t tag ≠ 0) : (s.handleVfsRead client tag).Failed := by
  rw [handleVfsRead, if_pos malformed]
  exact failed_makeIpcError _

theorem handleVfsMap_malformed (malformed : MsgTag.u tag ≠ 4 ∨ MsgTag.t tag ≠ 0) : (s.handleVfsMap client tag).Failed := by
  rw [handleVfsMap, if_pos malformed]
  exact failed_makeIpcError _

/-- A reply about an open file stays inside it if and only if the words of the request fit. -/
theorem replies_inside_iff (tag : Word) (isOpen : findVfsFileState s.fileStates client fd = some i) :
    (s.utcb.mr readFd = fd → ((¬ (s.handleVfsRead client tag).Failed → s.ReadInside i (s.handleVfsRead client tag)) ↔
        (MsgTag.u tag ≠ 3 ∨ MsgTag.t tag ≠ 0) ∨ s.ReadFits i)) ∧
      (s.utcb.mr mapFd = fd → ((¬ (s.handleVfsMap client tag).Failed → s.MapInside i (s.handleVfsMap client tag)) ↔
        (MsgTag.u tag ≠ 4 ∨ MsgTag.t tag ≠ 0) ∨ s.MapFits i)) := by
  constructor
  · rintro rfl
    by_cases malformed : MsgTag.u tag ≠ 3 ∨ MsgTag.t tag ≠ 0
    · simp only [malformed, true_or, iff_true]
      exact fun answered => absurd (handleVfsRead_malformed malformed) answered
    · simp only [malformed, false_or]
      push Not at malformed
      rw [← readInside_iff isOpen malformed.1 malformed.2]
      have answered := (handleVfsRead_eq isOpen malformed.1 malformed.2).1
      exact ⟨fun property => property answered, fun property _ => property⟩
  · rintro rfl
    by_cases malformed : MsgTag.u tag ≠ 4 ∨ MsgTag.t tag ≠ 0
    · simp only [malformed, true_or, iff_true]
      exact fun answered => absurd (handleVfsMap_malformed malformed) answered
    · simp only [malformed, false_or]
      push Not at malformed
      exact mapInside_iff isOpen malformed.1 malformed.2

/-- The client has descriptor 3 open, an empty file, and asks for four bytes behind its end. -/
def behindEnd : Server where
  rootfsBase := 0#32
  fileStates := Function.update empty.fileStates ⟨29, by decide⟩ { noFile with status := .used, owner := 0x100001#32, fd := 3#32 }
  utcb := ((((empty.utcb.setMr 0 (MsgTag.mk 3 0 0#32 Op.read.toWord)).setMr 1 3#32).setMr 2 1#32).setMr 3 4#32)
  byte _ := 0#8
  stack _ := 0#8

theorem behindEnd_isOpen : findVfsFileState behindEnd.fileStates 0x100001#32 3#32 = some ⟨29, by decide⟩ := by decide

/-- From the first byte on there is nothing to read. -/
theorem replies_inside_iff_start :
    (behindEnd.loadMr 2 0#32).ReadInside ⟨29, by decide⟩ ((behindEnd.loadMr 2 0#32).handleVfsRead 0x100001#32 (behindEnd.utcb.mr 0)) := by
  have isOpen : findVfsFileState (behindEnd.loadMr 2 0#32).fileStates 0x100001#32 3#32 = some ⟨29, by decide⟩ := behindEnd_isOpen
  exact ((replies_inside_iff (behindEnd.utcb.mr 0) isOpen).1 rfl).mpr (.inr ⟨by decide, by decide, by decide⟩) (by decide)

/-- The four bytes are named in the reply. -/
theorem replies_inside_fails : findVfsFileState behindEnd.fileStates 0x100001#32 (behindEnd.utcb.mr readFd) = some ⟨29, by decide⟩ ∧
    ¬ (behindEnd.handleVfsRead 0x100001#32 (behindEnd.utcb.mr 0)).Failed ∧
    Item.length ((behindEnd.handleVfsRead 0x100001#32 (behindEnd.utcb.mr 0)).utcb.mr readRetContent) = 4 ∧
    behindEnd.fileSize ⟨29, by decide⟩ = 0 ∧
    ¬ behindEnd.ReadInside ⟨29, by decide⟩ (behindEnd.handleVfsRead 0x100001#32 (behindEnd.utcb.mr 0)) := by
  have length : Item.length ((behindEnd.handleVfsRead 0x100001#32 (behindEnd.utcb.mr 0)).utcb.mr readRetContent) = 4 := by decide
  have offset : (behindEnd.utcb.mr readOffset).toInt = 1 := by decide
  have size : behindEnd.fileSize ⟨29, by decide⟩ = 0 := by decide
  refine ⟨behindEnd_isOpen, by decide, length, size, fun inside => ?_⟩
  have stop := inside.stop
  rw [length, offset, size] at stop
  omega

end BradypOS.Romfs.Server
