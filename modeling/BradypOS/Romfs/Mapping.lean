import BradypOS.L4.Fpages
import BradypOS.Theory.Align
import BradypOS.Romfs.Replies

/-!
# The flexpage of a mapped file

The reply to `VFS_MAP` carries a flexpage for the pages of the file. `L4_fpage` takes the size field from
`floorlog2`, which subtracts the leading zeros from the number of bytes of a word, not from its number of bits.
-/

namespace BradypOS.Romfs.Server

open L4 Vfs

variable {s s' : Server} {client tag : Word} {i : Fin fileStateCount}

/-- The flexpage that a client decodes from a reply. -/
def mappedFpage (s' : Server) : Word := MapItem.sndFpage ⟨s'.utcb.mr mapRetMapItem, s'.utcb.mr (mapRetMapItem + 1)⟩

/-- The flexpage of the reply has a size, covers the content of the file, and has the rights that were asked for. -/
structure MapCovers (s : Server) (i : Fin fileStateCount) (s' : Server) : Prop where
  whole : Fpage.bytes (mappedFpage s') < 2 ^ 32
  start : (Fpage.address (mappedFpage s')).toNat ≤ (s.contentByte i 0).toNat
  stop : (s.contentByte i 0).toNat + s.fileSize i ≤ (Fpage.address (mappedFpage s')).toNat + (Fpage.size (mappedFpage s')).toNat
  perm : Fpage.perm (mappedFpage s') = s.utcb.mr mapPerm

theorem mappedFpage_eq (isOpen : findVfsFileState s.fileStates client (s.utcb.mr mapFd) = some i)
    (answered : ¬ (s.handleVfsMap client tag).Failed) :
    mappedFpage (s.handleVfsMap client tag) =
      Fpage.addRights (mapFpage (s.contentByte i 0) (s.fileStates i).fileInfo.size) (s.utcb.mr mapPerm) := by
  have wellFormed : ¬ (MsgTag.u tag ≠ 4 ∨ MsgTag.t tag ≠ 0) := fun malformed => answered (handleVfsMap_malformed malformed)
  have served : ¬ (s.fileSize i < (s.utcb.mr mapOffset + s.utcb.mr mapSize).toNat ∨ s.utcb.mr mapPerm &&& Fpage.writable ≠ 0#32) :=
    fun outside => answered (handleVfsMap_refused isOpen outside)
  rw [not_or] at served
  have near : ¬ (s.fileStates i).fileInfo.size < s.utcb.mr mapOffset + s.utcb.mr mapSize := served.1
  unfold handleVfsMap mappedFpage
  rw [if_neg wellFormed]
  simp only [isOpen]
  rw [if_neg near, if_neg served.2]
  simp only [loadMr]
  rw [Utcb.mr_setMr_other _ (by decide), Utcb.mr_setMr_same, Utcb.mr_setMr_same]
  have first : s.contentByte i 0 = s.rootfsBase + romfsFileContentOffset (s.fileStates i).fileOff := by simp [contentByte]
  rw [first]
  exact MapItem.sndFpage_ofFpage _ _

/-- The size of the pages of a file, which wraps for the largest sizes only. -/
theorem mapped_size_le (fileAddr size : Word) :
    ((size + (fileAddr &&& (512#32 - 1#32)) + 512#32 - 1#32) &&& ~~~(512#32 - 1#32)).toNat ≤ size.toNat + 1022 := by
  have offset : (fileAddr &&& (512#32 - 1#32)).toNat = fileAddr.toNat % 2 ^ 9 := Theory.toNat_and_mask fileAddr _ rfl
  have cleared := Theory.toNat_clear_low (k := 9) (size + (fileAddr &&& (512#32 - 1#32)) + 512#32 - 1#32) (512#32 - 1#32) rfl
  have shifted : (size + (fileAddr &&& (512#32 - 1#32)) + 512#32 - 1#32).toNat ≤ size.toNat + fileAddr.toNat % 2 ^ 9 + 511 := by
    rw [add_sub_assoc, BitVec.toNat_add, BitVec.toNat_add, offset]
    show ((size.toNat + fileAddr.toNat % 2 ^ 9) % 2 ^ 32 + 511) % 2 ^ 32 ≤ _
    omega
  rw [cleared]
  omega

/-- No reply to `VFS_MAP` covers the file that it maps. -/
theorem map_covers_never (tag : Word) (isOpen : findVfsFileState s.fileStates client (s.utcb.mr mapFd) = some i)
    (answered : ¬ (s.handleVfsMap client tag).Failed) : ¬ s.MapCovers i (s.handleVfsMap client tag) := by
  intro covers
  have fpage := mappedFpage_eq isOpen answered
  have whole := covers.whole
  have start := covers.start
  have stop := covers.stop
  have size := Fpage.toNat_size whole
  have padded := mapped_size_le (s.contentByte i 0) (s.fileStates i).fileInfo.size
  have bytes : Fpage.bytes (mappedFpage (s.handleVfsMap client tag)) =
      Fpage.bytes (mapFpage (s.contentByte i 0) (s.fileStates i).fileInfo.size) := by
    rw [fpage, Fpage.bytes, Fpage.bytes, Fpage.s_addRights]
  rw [size] at stop
  rw [bytes] at whole stop
  -- the size field overflows, or the flexpage is smaller than what it is for
  rcases Fpage.bytes_ofSize (s.contentByte i 0 &&& ~~~(512#32 - 1#32)) (((s.fileStates i).fileInfo.size +
      (s.contentByte i 0 &&& (512#32 - 1#32)) + 512#32 - 1#32) &&& ~~~(512#32 - 1#32)) with ⟨_, overflow⟩ | ⟨large, few⟩
  · exact absurd whole (Nat.not_lt.mpr overflow)
  · unfold mapFpage at stop
    unfold fileSize at stop
    omega

/-- The client has a file of one page open. -/
def onePage : Server where
  rootfsBase := 0x10020000#32
  fileStates i := { behindEnd.fileStates i with fileInfo := { noFile.fileInfo with size := 512#32 }, fileOff := 0x1E0#32 }
  utcb := ((empty.utcb.setMr 0 (MsgTag.mk 4 0 0#32 Op.map.toWord)).setMr mapFd 3#32).setMr mapPerm Fpage.readable
  byte _ := 0#8
  stack _ := 0#8

theorem onePage_isOpen : findVfsFileState onePage.fileStates 0x100001#32 (onePage.utcb.mr mapFd) = some ⟨29, by decide⟩ := by decide

theorem map_covers_never_onePage : ¬ onePage.MapCovers ⟨29, by decide⟩ (onePage.handleVfsMap 0x100001#32 (onePage.utcb.mr 0)) :=
  map_covers_never _ onePage_isOpen (by decide)

/-- Its flexpage has the size field 46, and `L4_size` of it is 0. -/
theorem onePage_size_zero : ¬ (onePage.handleVfsMap 0x100001#32 (onePage.utcb.mr 0)).Failed ∧
    Fpage.s (mappedFpage (onePage.handleVfsMap 0x100001#32 (onePage.utcb.mr 0))) = 46 ∧
    Fpage.size (mappedFpage (onePage.handleVfsMap 0x100001#32 (onePage.utcb.mr 0))) = 0#32 ∧
    ¬ onePage.MapCovers ⟨29, by decide⟩ (onePage.handleVfsMap 0x100001#32 (onePage.utcb.mr 0)) := by
  have field : Fpage.s (mappedFpage (onePage.handleVfsMap 0x100001#32 (onePage.utcb.mr 0))) = 46 := by decide
  refine ⟨by decide, field, by decide, fun covers => ?_⟩
  have whole := covers.whole
  rw [Fpage.bytes, field] at whole
  exact absurd whole (by decide)

end BradypOS.Romfs.Server
