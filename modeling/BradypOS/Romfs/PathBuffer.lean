import BradypOS.Ipc.Intact
import BradypOS.Romfs.EndToEnd
import BradypOS.Romfs.Replies
import BradypOS.Theory.CString

/-!
# The buffer for paths

The server lets the kernel store a path in `filename_buf` and writes a NUL behind it. The receive buffer that it
declares is the whole of `filename_buf`, so that a path of the greatest length has its NUL behind the buffer.
-/

namespace BradypOS.Romfs

open L4 Vfs

/-- The string that begins at an address. -/
def CString (byte : Word → Byte) (ptr : Word) (name : List Byte) : Prop :=
  Theory.Terminated 0#8 (fun i => byte (ptr + BitVec.ofNat 32 i)) name

theorem cString_pathAt {byte : Word → Byte} {ptr : Word} {length : Nat} (stop : byte (ptr + BitVec.ofNat 32 length) = 0#8) :
    CString byte ptr (Server.pathAt byte ptr length) :=
  Theory.Terminated.takeWhile ⟨length, Nat.le_refl length, stop⟩

/-! ### Requests that the kernel delivers -/

/-- Where `handle_vfs_openat` writes the NUL. -/
def Request.terminator (r : Request) : Word := r.utcb.mr (openatStr + 1) + BitVec.ofNat 32 (Item.length (r.utcb.mr openatStr))

namespace Server

/-- A message with two words and a string, which the kernel has copied while the server waited for a request. -/
structure PathDelivered (m : Memory) (client server : Tcb) (filenameBuf : Word) (m' : Memory) : Prop where
  loaded : ∃ u, m.utcb server.utcb = loadBrs filenameBuf u
  words : MsgTag.u ((m.utcb client.utcb).mr 0) = 2
  typed : MsgTag.t ((m.utcb client.utcb).mr 0) = 2
  string : Item.type ((m.utcb client.utcb).mr openatStr) = .stringItem
  copied : m.copyPayload client server = .ok (.none, m')

/-- The request as the server finds it. -/
def requestIn (m' : Memory) (server : Tcb) (stack : Nat → Byte) : Request where
  client := (m'.frame server.ctx.sp).r0
  utcb := m'.utcb server.utcb
  byte := m'.byte
  stack := stack

def sentLength (m : Memory) (client : Tcb) : Nat := Item.length ((m.utcb client.utcb).mr openatStr)

/-- The bytes of the client's string up to their first NUL. -/
def sentPath (m : Memory) (client : Tcb) : List Byte :=
  pathAt m.byte ((m.utcb client.utcb).mr (openatStr + 1)) (sentLength m client)

/-- The NUL is inside `filename_buf`, and the string that begins there is what the client has sent. -/
structure PathSafe (m : Memory) (client : Tcb) (filenameBuf : Word) (r : Request) : Prop where
  inside : r.terminator ∈ Memory.area filenameBuf (pathMax + 1)
  name : r.path = sentPath m client
  cString : CString r.pathMemory (r.utcb.mr (openatStr + 1)) r.path

variable {m m' : Memory} {client server : Tcb} {filenameBuf : Word}

/-- The item and the bytes that the kernel leaves to the server. -/
theorem PathDelivered.request (d : PathDelivered m client server filenameBuf m') (stack : Nat → Byte) :
    sentLength m client ≤ pathMax + 1 ∧ Item.length ((requestIn m' server stack).utcb.mr openatStr) = sentLength m client ∧
      (requestIn m' server stack).utcb.mr (openatStr + 1) = filenameBuf ∧
      (requestIn m' server stack).byte =
        (m.copyBytes filenameBuf ((m.utcb client.utcb).mr (openatStr + 1)) (sentLength m client)).byte := by
  obtain ⟨u, loaded⟩ := d.loaded
  obtain ⟨-, m₁, rfl, passed⟩ := Memory.copyPayload_item d.words d.typed d.copied
  rcases passed with ⟨mapped, rfl⟩ | ⟨taken, rfl⟩
  · have item : m.item client.utcb 2 0 = (m.utcb client.utcb).mr openatStr := rfl
    have map := Memory.fateOf_mapped mapped
    rw [item, d.string] at map
    cases map
  · obtain ⟨-, -, room⟩ := Memory.fateOf_taken (by decide) taken
    have buffer : (m.utcb server.utcb).br (1 + 2 * m.stringsBefore client.utcb 2 0) =
        Item.simpleString (BitVec.ofNat 32 (pathMax + 1)) := by
      rw [loaded]
      exact loadBrs_item filenameBuf u
    have ptr : ((m.withWords client.utcb server.utcb 2).utcb server.utcb).br (1 + 1) = filenameBuf := by
      have kept : ((m.withWords client.utcb server.utcb 2).utcb server.utcb).br (1 + 1) = (m.utcb server.utcb).br 2 :=
        Memory.withWords_behind m client.utcb server.utcb server.utcb (by decide)
      rw [kept, loaded, loadBrs_ptr]
    rw [buffer, Item.length_simpleString] at room
    refine ⟨room, ?_, ?_, ?_⟩
    · unfold requestIn
      dsimp only
      rw [Memory.withHead_mr _ _ _ _ _ _ (by decide)]
      exact congrArg Item.length (Memory.tookString_first _ _ _ _ _ _)
    · unfold requestIn
      dsimp only
      rw [Memory.withHead_mr _ _ _ _ _ _ (by decide)]
      exact (Memory.tookString_second _ _ _ _ _ _ (by decide)).trans ptr
    · show ((m.withWords client.utcb server.utcb 2).tookString server.utcb (2 + 1) 1 (m.item client.utcb 2 0)
        (m.second client.utcb 2 0)).byte = _
      rw [Memory.tookString_byte, ptr]
      rfl

theorem sentLength_lt (m : Memory) (client : Tcb) : (BitVec.ofNat 32 (sentLength m client)).toNat = sentLength m client := by
  rw [BitVec.toNat_ofNat]
  exact Nat.mod_eq_of_lt (Nat.lt_trans (length_lt _) (by decide))

/-- Whatever its length, the name is what the client has sent. -/
theorem PathDelivered.name (d : PathDelivered m client server filenameBuf m') (stack : Nat → Byte) :
    (requestIn m' server stack).path = sentPath m client := by
  obtain ⟨-, length, ptr, bytes⟩ := d.request stack
  have word := sentLength_lt m client
  have stored := stringAt_pathStored m filenameBuf ((m.utcb client.utcb).mr (openatStr + 1)) (BitVec.ofNat 32 (sentLength m client))
  rw [pathStored, word] at stored
  rw [Request.path, Request.pathMemory, length, ptr, bytes, pathAt, stored]
  rfl

theorem terminator_inside (filenameBuf : Word) {length : Nat} (word : (BitVec.ofNat 32 length).toNat = length) :
    filenameBuf + BitVec.ofNat 32 length ∈ Memory.area filenameBuf (pathMax + 1) ↔ length ≤ pathMax := by
  show (filenameBuf + BitVec.ofNat 32 length - filenameBuf).toNat < pathMax + 1 ↔ _
  rw [BitVec.add_comm, BitVec.add_sub_cancel, word]
  exact Nat.lt_succ_iff

/-- The kernel accepts paths of up to 65 bytes, and the server has room for 64. -/
theorem path_safe_iff (d : PathDelivered m client server filenameBuf m') (stack : Nat → Byte) :
    PathSafe m client filenameBuf (requestIn m' server stack) ↔ sentLength m client ≤ pathMax := by
  obtain ⟨-, length, ptr, -⟩ := d.request stack
  have place : (requestIn m' server stack).terminator = filenameBuf + BitVec.ofNat 32 (sentLength m client) := by
    rw [Request.terminator, length, ptr]
  rw [← terminator_inside filenameBuf (sentLength_lt m client), ← place]
  constructor
  · exact fun safe => safe.inside
  · intro inside
    refine ⟨inside, d.name stack, cString_pathAt ?_⟩
    exact Function.update_self _ _ _

/-- A client with a path at 0x8000, for a server with its buffer at 0x9000. -/
def pathMessage (pathlen : Word) : Memory where
  utcb p :=
    if p = 0x5000#32 then
      (((empty.utcb.setMr 0 (MsgTag.mk 2 2 0#32 Op.openat.toWord)).setMr openatNewfd 4#32).setMr openatStr (Item.simpleString pathlen)).setMr
        (openatStr + 1) 0x8000#32
    else loadBrs 0x9000#32 empty.utcb
  frame _ := ⟨0#32, 0#32, 0#32, 0#32, 0#32, 0#32⟩
  byte _ := 0x61#8

theorem pathMessage_delivered (pathlen : Word) (short : pathlen.toNat ≤ pathMax + 1) :
    sentLength (pathMessage pathlen) (Memory.threadAt 0x5000#32) = pathlen.toNat ∧
      ∃ m', PathDelivered (pathMessage pathlen) (Memory.threadAt 0x5000#32) (Memory.threadAt 0x5100#32) 0x9000#32 m' := by
  have sent : ((pathMessage pathlen).utcb (Memory.threadAt 0x5000#32).utcb).mr 0 = MsgTag.mk 2 2 0#32 Op.openat.toWord := rfl
  have loaded : (pathMessage pathlen).utcb 0x5100#32 = loadBrs 0x9000#32 empty.utcb := rfl
  have length : Item.length (Item.simpleString pathlen) = pathlen.toNat := by
    rw [Item.length_simpleString]
    exact Nat.mod_eq_of_lt (lt_of_le_of_lt short (by decide))
  refine ⟨length, ?_⟩
  have accepts : acceptsStrings (((pathMessage pathlen).utcb 0x5100#32).br 0) = true := by
    rw [loaded, loadBrs_acceptor]
    rfl
  have buffer : ((pathMessage pathlen).utcb 0x5100#32).br 1 = Item.simpleString (BitVec.ofNat 32 (pathMax + 1)) := by
    rw [loaded, loadBrs_item]
  have simple : Item.compound (((pathMessage pathlen).utcb 0x5100#32).br 1) = false := by
    rw [buffer]
    exact Item.compound_simpleString _
  have room : Item.length (Item.simpleString pathlen) ≤ Item.length (((pathMessage pathlen).utcb 0x5100#32).br 1) := by
    rw [length, buffer, Item.length_simpleString]
    exact short
  have copied : ∃ m', (pathMessage pathlen).copyPayload (Memory.threadAt 0x5000#32) (Memory.threadAt 0x5100#32) = .ok (.none, m') := by
    obtain ⟨m', copied, -⟩ := Memory.copyPayload_string (Memory.threadAt 0x5100#32) sent (by decide) (by decide)
      (Item.type_simpleString pathlen) (Item.compound_simpleString pathlen) accepts simple room
    exact ⟨m', copied⟩
  obtain ⟨m', copied⟩ := copied
  refine ⟨m', ⟨empty.utcb, loaded⟩, ?_, ?_, ?_, copied⟩
  · rw [sent, MsgTag.u_mk]
  · rw [sent, MsgTag.t_mk]
  · exact Item.type_simpleString pathlen

/-- A path of 64 bytes. -/
theorem path_safe_iff_longest : ∃ m', PathDelivered (pathMessage 64#32) (Memory.threadAt 0x5000#32) (Memory.threadAt 0x5100#32) 0x9000#32 m' ∧
    PathSafe (pathMessage 64#32) (Memory.threadAt 0x5000#32) 0x9000#32 (requestIn m' (Memory.threadAt 0x5100#32) fun _ => 0#8) := by
  obtain ⟨length, m', delivered⟩ := pathMessage_delivered 64#32 (by decide)
  exact ⟨m', delivered, (path_safe_iff delivered _).mpr (by rw [length]; decide)⟩

/-- A path of 65 bytes is delivered, and its NUL is written behind the buffer. -/
theorem path_safe_fails : ∃ m', PathDelivered (pathMessage 65#32) (Memory.threadAt 0x5000#32) (Memory.threadAt 0x5100#32) 0x9000#32 m' ∧
    (requestIn m' (Memory.threadAt 0x5100#32) fun _ => 0#8).terminator = 0x9041#32 ∧
    ¬ PathSafe (pathMessage 65#32) (Memory.threadAt 0x5000#32) 0x9000#32 (requestIn m' (Memory.threadAt 0x5100#32) fun _ => 0#8) := by
  obtain ⟨length, m', delivered⟩ := pathMessage_delivered 65#32 (by decide)
  obtain ⟨-, stored, ptr, -⟩ := delivered.request fun _ => 0#8
  have place : (requestIn m' (Memory.threadAt 0x5100#32) fun _ => 0#8).terminator = 0x9041#32 := by
    rw [Request.terminator, stored, ptr, length]
    rfl
  refine ⟨m', delivered, place, fun safe => ?_⟩
  have inside := safe.inside
  have end_ : 0x9041#32 = 0x9000#32 + BitVec.ofNat 32 65 := rfl
  rw [place, end_, terminator_inside _ (by decide)] at inside
  exact absurd inside (by decide)

end Server
end BradypOS.Romfs
