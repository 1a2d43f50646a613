import BradypOS.Romfs.Operation
import BradypOS.Romfs.Reopen
import BradypOS.Service.Transfer

/-!
# A call from the client to the server and back

A function of the client composes a message, the kernel copies it to the server, a handler answers
it and the kernel copies the answer back. What the client gets is the outcome of the operation that
it asked for.
-/

namespace BradypOS

open L4 Vfs

namespace Utcb

def setBr (u : Utcb) (i : Nat) (w : Word) : Utcb := u.setMr (mrCount + i) w

end Utcb

namespace Romfs.Server

/-- `ipc_buffers`: strings are accepted, into the bytes at `filenameBuf`. -/
def loadBrs (filenameBuf : Word) (u : Utcb) : Utcb :=
  ((u.setBr 0 1#32).setBr 1 (Item.simpleString (BitVec.ofNat 32 (pathMax + 1)))).setBr 2 filenameBuf

/-- The registers of a client whose IPC failed. -/
def ipcError (m : Memory) (client : Tcb) : Utcb := (m.utcb client.utcb).setMr 0 (MsgTag.setError ((m.utcb client.utcb).mr 0))

/-- The server's answer on its way to the client. -/
def answerTo (s : Server) (m : Memory) (server client : Tcb) : Fallible (Utcb × Server) := do
  let m := { m.setUtcb server.utcb fun _ => s.utcb with byte := s.byte }
  let (err, m) ← m.copyPayload server client
  .ok (if err ≠ .none then ipcError m client else m.utcb client.utcb, s)

/-- `L4_ipc` of a client with the registers `u`, while the server waits for a request. -/
def exchange (s : Server) (m : Memory) (server client : Tcb) (filenameBuf : Word) (stack : Nat → Byte) (u : Utcb) :
    Fallible (Utcb × Server) := do
  let m := (m.setUtcb server.utcb (loadBrs filenameBuf)).setUtcb client.utcb fun _ => u
  let (err, m) ← m.copyPayload client server
  if err ≠ .none then .ok (ipcError m client, s)
  else
    let s ← s.serve { client := (m.frame server.ctx.sp).r0, utcb := m.utcb server.utcb, byte := m.byte, stack }
    s.answerTo m server client

variable {s : Server} {m : Memory} {server client : Tcb} {u : Utcb} {n : Nat} {label filenameBuf : Word} {stack : Nat → Byte}

@[simp] theorem loadBrs_acceptor (filenameBuf : Word) (u : Utcb) : (loadBrs filenameBuf u).br 0 = 1#32 := by
  simp [loadBrs, Utcb.setBr, Utcb.br, Utcb.setMr]

@[simp] theorem loadBrs_item (filenameBuf : Word) (u : Utcb) :
    (loadBrs filenameBuf u).br 1 = Item.simpleString (BitVec.ofNat 32 (pathMax + 1)) := by
  simp [loadBrs, Utcb.setBr, Utcb.br, Utcb.setMr]

@[simp] theorem loadBrs_ptr (filenameBuf : Word) (u : Utcb) : (loadBrs filenameBuf u).br 2 = filenameBuf := by
  simp [loadBrs, Utcb.setBr, Utcb.br, Utcb.setMr]

/-! ### Answers on their way -/

theorem answerTo_words (m : Memory) (server client : Tcb) (fits : n ≤ mrCount) (tag : s.utcb.mr 0 = MsgTag.mk n 0 0#32 label) :
    ∃ u', s.answerTo m server client = .ok (u', s) ∧ u'.mr 0 = MsgTag.mk n 0 0#32 label ∧ ∀ i, 1 ≤ i → i ≤ n → u'.mr i = s.utcb.mr i := by
  have here : ({ m.setUtcb server.utcb fun _ => s.utcb with byte := s.byte } : Memory).utcb server.utcb = s.utcb := by simp [Memory.setUtcb]
  rw [← here] at tag
  obtain ⟨m', copied, arrived, _⟩ := Memory.copyPayload_words client tag fits
  refine ⟨m'.utcb client.utcb, ?_, arrived.tag, ?_⟩
  · unfold answerTo
    dsimp only
    rw [copied]
    rfl
  · intro i first last
    rw [arrived.words i first last, here]

theorem answerTo_mapItem (m : Memory) (apart : client.utcb ≠ server.utcb) (fits : n + 2 ≤ mrCount)
    (tag : s.utcb.mr 0 = MsgTag.mk n 2 0#32 label) (item : Item.type (s.utcb.mr (n + 1)) = .mapItem) :
    ∃ u', s.answerTo m server client = .ok (u', s) ∧ u'.mr 0 = MsgTag.mk n 2 0#32 label ∧
      ∀ i, 1 ≤ i → i ≤ n + 2 → u'.mr i = s.utcb.mr i := by
  have here : ({ m.setUtcb server.utcb fun _ => s.utcb with byte := s.byte } : Memory).utcb server.utcb = s.utcb := by simp [Memory.setUtcb]
  rw [← here] at tag item
  obtain ⟨m', copied, arrived, _, first, second⟩ := Memory.copyPayload_mapItem client tag fits apart.symm item
  refine ⟨m'.utcb client.utcb, ?_, arrived.tag, ?_⟩
  · unfold answerTo
    dsimp only
    rw [copied]
    rfl
  · intro i begins ends
    rw [← here]
    rcases Nat.lt_or_ge n i with behind | within
    · obtain rfl | rfl : i = n + 1 ∨ i = n + 1 + 1 := by omega
      · exact first
      · exact second
    · exact arrived.words i begins within

/-! ### Requests on their way -/

/-- The request that a message of words becomes. -/
structure Words (m : Memory) (server client : Tcb) (stack : Nat → Byte) (u : Utcb) (n : Nat) (r : Request) : Prop where
  client : r.client = Memory.senderOf client server
  words : ∀ i, 1 ≤ i → i ≤ n → r.utcb.mr i = u.mr i
  stack : r.stack = stack

theorem exchange_words (s : Server) (m : Memory) (filenameBuf : Word) (stack : Nat → Byte) (server client : Tcb)
    (fits : n ≤ mrCount) (tag : u.mr 0 = MsgTag.mk n 0 0#32 label) :
    ∃ r m₁, Words m server client stack u n r ∧ r.utcb.mr 0 = MsgTag.mk n 0 0#32 label ∧ r.byte = m.byte ∧
      s.exchange m server client filenameBuf stack u = s.serve r >>= fun s' => s'.answerTo m₁ server client := by
  have here : ((m.setUtcb server.utcb (loadBrs filenameBuf)).setUtcb client.utcb fun _ => u).utcb client.utcb = u := by simp [Memory.setUtcb]
  rw [← here] at tag
  obtain ⟨m', copied, arrived, bytes⟩ := Memory.copyPayload_words server tag fits
  refine ⟨{ client := (m'.frame server.ctx.sp).r0, utcb := m'.utcb server.utcb, byte := m'.byte, stack }, m',
    ⟨arrived.sender, ?_, rfl⟩, arrived.tag, bytes, ?_⟩
  · intro i first last
    rw [arrived.words i first last, here]
  · unfold exchange
    dsimp only
    rw [copied]
    rfl

/-- The bytes when the path of a request has been stored and terminated. -/
def pathStored (m : Memory) (filenameBuf path pathlen : Word) : Word → Byte :=
  Function.update (m.copyBytes filenameBuf path pathlen.toNat).byte (filenameBuf + pathlen) 0#8

theorem stringAt_pathStored (m : Memory) (filenameBuf path pathlen : Word) :
    stringAt (pathStored m filenameBuf path pathlen) filenameBuf pathlen.toNat = stringAt m.byte path pathlen.toNat := by
  apply List.map_congr_left
  intro i member
  have inside : i < pathlen.toNat := List.mem_range.mp member
  have small : (BitVec.ofNat 32 i).toNat = i := by
    rw [BitVec.toNat_ofNat]
    exact Nat.mod_eq_of_lt (lt_trans inside pathlen.isLt)
  have before : filenameBuf + BitVec.ofNat 32 i ≠ filenameBuf + pathlen := by
    intro same
    have index := congrArg BitVec.toNat (add_left_cancel same)
    omega
  have distance : filenameBuf + BitVec.ofNat 32 i - filenameBuf = BitVec.ofNat 32 i := by
    rw [BitVec.add_comm, BitVec.add_sub_cancel]
  rw [pathStored, Function.update_of_ne before, Memory.copyBytes]
  dsimp only
  rw [distance, small, if_pos inside]

theorem exchange_string (s : Server) (m : Memory) (filenameBuf : Word) (stack : Nat → Byte) {path pathlen : Word}
    (apart : client.utcb ≠ server.utcb) (fits : n + 2 ≤ mrCount) (tag : u.mr 0 = MsgTag.mk n 2 0#32 label)
    (item : u.mr (n + 1) = Item.simpleString pathlen) (ptr : u.mr (n + 1 + 1) = path) (short : pathlen.toNat ≤ pathMax) :
    ∃ r m₁, Words m server client stack u n r ∧ r.utcb.mr 0 = MsgTag.mk n 2 0#32 label ∧
      r.byte = (m.copyBytes filenameBuf path pathlen.toNat).byte ∧
      r.utcb.mr (n + 1) = Item.simpleString pathlen ∧ r.utcb.mr (n + 1 + 1) = filenameBuf ∧
      s.exchange m server client filenameBuf stack u = s.serve r >>= fun s' => s'.answerTo m₁ server client := by
  have here : ((m.setUtcb server.utcb (loadBrs filenameBuf)).setUtcb client.utcb fun _ => u).utcb client.utcb = u := by simp [Memory.setUtcb]
  have there : ((m.setUtcb server.utcb (loadBrs filenameBuf)).setUtcb client.utcb fun _ => u).utcb server.utcb =
      loadBrs filenameBuf (m.utcb server.utcb) := by simp [Memory.setUtcb, apart.symm]
  have length : Item.length (Item.simpleString pathlen) = pathlen.toNat := by
    rw [Item.length_simpleString]
    exact Nat.mod_eq_of_lt (lt_of_le_of_lt short (by decide))
  have room : Item.length (Item.simpleString pathlen) ≤ Item.length (Item.simpleString (BitVec.ofNat 32 (pathMax + 1))) := by
    rw [length, Item.length_simpleString]
    exact le_trans short (by decide)
  rw [← here] at tag item ptr
  obtain ⟨m', copied, arrived, bytes, first, second⟩ := Memory.copyPayload_string server tag fits apart
    (by rw [item]; exact Item.type_simpleString _) (by rw [item]; exact Item.compound_simpleString _)
    (by rw [there, loadBrs_acceptor]; rfl) (by rw [there, loadBrs_item]; exact Item.compound_simpleString _)
    (by rw [there, item, loadBrs_item]; exact room)
  rw [there, loadBrs_ptr, item, ptr, length] at bytes
  rw [item] at first
  rw [there, loadBrs_ptr] at second
  refine ⟨{ client := (m'.frame server.ctx.sp).r0, utcb := m'.utcb server.utcb, byte := m'.byte, stack }, m',
    ⟨arrived.sender, ?_, rfl⟩, arrived.tag, bytes, first, second, ?_⟩
  · intro i begins ends
    rw [arrived.words i begins ends, here]
  · unfold exchange
    dsimp only
    rw [copied]
    rfl

/-- The message of a function of the client that sends a file descriptor. -/
theorem exchange_fd (s : Server) (m : Memory) (filenameBuf : Word) (stack : Nat → Byte) (server client : Tcb) (u : Utcb) (op : Op) (fd : Word) :
    ∃ r m₁, r.client = Memory.senderOf client server ∧ r.utcb.mr 0 = MsgTag.mk 1 0 0#32 op.toWord ∧ r.utcb.mr 1 = fd ∧
      (s.receive r).ops = romfsOps m.byte s.rootfsBase ∧
      s.exchange m server client filenameBuf stack ((u.setMr 0 (MsgTag.mk 1 0 0#32 op.toWord)).setMr 1 fd) =
        s.serve r >>= fun s' => s'.answerTo m₁ server client := by
  have asked : ((u.setMr 0 (MsgTag.mk 1 0 0#32 op.toWord)).setMr 1 fd).mr 0 = MsgTag.mk 1 0 0#32 op.toWord := by
    rw [Utcb.mr_setMr_other _ (by decide), Utcb.mr_setMr_same]
  obtain ⟨r, m₁, words, tag, bytes, exchanged⟩ := exchange_words s m filenameBuf stack server client (by decide) asked
  refine ⟨r, m₁, words.client, tag, ?_, ?_, exchanged⟩
  · rw [words.words 1 (by decide) (by decide), Utcb.mr_setMr_same]
  · rw [← bytes]
    rfl

section MessageRegisters
variable (s : Server)

theorem makeIpcError_tag (errno : Errno) : (s.makeIpcError errno).utcb.mr 0 = MsgTag.mk 1 0 0#32 Answer.error.toWord := by
  simp [makeIpcError, Utcb.makeIpcError, Utcb.mr, Utcb.setMr, Answer.toWord]

theorem makeIpcError_errno (errno : Errno) : (s.makeIpcError errno).utcb.mr 1 = errno.toWord := by
  simp [makeIpcError, Utcb.makeIpcError, Utcb.mr, Utcb.setMr]

theorem answer_tag (op : Answer) (u t : Nat) : (s.answer op u t).utcb.mr 0 = MsgTag.mk u t 0#32 op.toWord := by
  simp [answer, Utcb.mr, Utcb.setMr]

theorem loadMr_same (i : Nat) (w : Word) : (s.loadMr i w).utcb.mr i = w := Utcb.mr_setMr_same _ _ _

theorem loadMr_other {i j : Nat} (other : j ≠ i) (w : Word) : (s.loadMr i w).utcb.mr j = s.utcb.mr j := Utcb.mr_setMr_other _ other _

end MessageRegisters

/-! ### Outcomes -/

/-- What the client is told of an operation that changes the table, and what becomes of the table. -/
inductive Agrees (s : Server) : Except Errno FileStates → Bool → Server → Prop where
  | done {states : FileStates} {s' : Server} (table : s'.fileStates = states) (answered : ¬ s'.Failed) : Agrees s (.ok states) true s'
  | refused {errno : Errno} {s' : Server} (table : s'.fileStates = s.fileStates) (failed : s'.Failed)
      (why : s'.utcb.mr 1 = errno.toWord) : Agrees s (.error errno) false s'

inductive StatAgrees (s : Server) : Except Errno (Vfs.FileType × Word) → StatResult → Server → Prop where
  | done {type : Vfs.FileType} {size : Word} {s' : Server} (table : s'.fileStates = s.fileStates) (answered : ¬ s'.Failed) :
      StatAgrees s (.ok (type, size)) { success := true, type := type.toWord, size } s'
  | refused {errno : Errno} {s' : Server} (table : s'.fileStates = s.fileStates) (failed : s'.Failed)
      (why : s'.utcb.mr 1 = errno.toWord) :
      StatAgrees s (.error errno) { success := false, type := Vfs.FileType.other.toWord, size := 0#32 } s'

/-- A flexpage tells success from failure. -/
inductive MapAgrees (s : Server) : Except Errno (Word × Word) → MapResult → Server → Prop where
  | done {addr fpage : Word} {result : MapResult} {s' : Server} (table : s'.fileStates = s.fileStates) (answered : ¬ s'.Failed)
      (mapped : result.fpage ≠ 0#32) (same : result.addr = addr) (reply : s'.utcb.mr mapRetAddr = addr) :
      MapAgrees s (.ok (addr, fpage)) result s'
  | refused {errno : Errno} {s' : Server} (table : s'.fileStates = s.fileStates) (failed : s'.Failed)
      (why : s'.utcb.mr 1 = errno.toWord) : MapAgrees s (.error errno) { fpage := 0#32, addr := 0#32 } s'

theorem Agrees.error (s₁ : Server) (same : s₁.fileStates = s.fileStates) (errno : Errno) :
    Agrees s (.error errno) false (s₁.makeIpcError errno) :=
  .refused same (failed_makeIpcError errno) (makeIpcError_errno s₁ errno)

theorem isAnswer_mk (u t : Nat) (a op : Answer) : isAnswer (MsgTag.mk u t 0#32 a.toWord) op = decide (a = op) := by
  have quiet : ipcFailed (MsgTag.mk u t 0#32 a.toWord) = false := by simp [ipcFailed, MsgTag.flags_mk]
  rw [isAnswer, quiet, MsgTag.label_mk]
  cases a <;> cases op <;> decide

theorem Words.op {r : Request} (op : Op) {t : Nat} (tag : r.utcb.mr 0 = MsgTag.mk n t 0#32 op.toWord) : r.op = some op := by
  rw [Request.op, tag, MsgTag.label_mk]
  cases op <;> decide

theorem answerTo_error (s : Server) (m : Memory) (server client : Tcb) (errno : Errno) :
    ∃ u', (s.makeIpcError errno).answerTo m server client = .ok (u', s.makeIpcError errno) ∧
      ∀ op, op ≠ .error → isAnswer (u'.mr 0) op = false := by
  obtain ⟨u', sent, tag, _⟩ := answerTo_words m server client (by decide) (makeIpcError_tag s errno)
  refine ⟨u', sent, fun op success => ?_⟩
  rw [tag, isAnswer_mk]
  exact decide_eq_false success.symm

theorem failed_iff_of_tag {t : Nat} {op : Answer} (tag : s.utcb.mr 0 = MsgTag.mk n t 0#32 op.toWord) : s.Failed ↔ op = .error := by
  rw [Failed, tag, MsgTag.label_mk]
  cases op <;> decide

theorem conclude_agrees (s₁ : Server) (m : Memory) (server client : Tcb) (answered : Server → Server) (op : Answer) (n : Nat)
    (outcome : Except Errno FileStates) (same : s₁.fileStates = s.fileStates) (success : op ≠ .error) (fits : n ≤ mrCount)
    (tag : ∀ states, (answered (s₁.setFileStates states)).utcb.mr 0 = MsgTag.mk n 0 0#32 op.toWord)
    (table : ∀ states, (answered (s₁.setFileStates states)).fileStates = states) :
    ∃ told s' u', (s₁.conclude answered outcome).answerTo m server client = .ok (u', s') ∧ Agrees s outcome told s' ∧
      isAnswer (u'.mr 0) op = told ∧ (told = true → u'.mr 0 = MsgTag.mk n 0 0#32 op.toWord) := by
  cases outcome with
  | error errno =>
    obtain ⟨u', sent, refused⟩ := answerTo_error s₁ m server client errno
    exact ⟨false, _, u', sent, .error s₁ same errno, refused op success, by simp⟩
  | ok states =>
    obtain ⟨u', sent, tag', _⟩ := answerTo_words m server client fits (tag states)
    refine ⟨true, _, u', sent, .done (table states) ?_, ?_, fun _ => tag'⟩
    · rw [failed_iff_of_tag (tag states)]
      exact success
    · rw [tag', isAnswer_mk]
      exact decide_eq_true rfl

theorem mapFile_readable {states : FileStates} {id fd base offset size : Word} {file : Word × Word}
    (h : mapFile states id fd base offset size = .ok file) : ∃ fpage, file.2 = Fpage.addRights fpage Fpage.readable := by
  unfold mapFile at h
  split at h
  · cases h
  · split at h
    · cases h
    · cases h
      exact ⟨_, rfl⟩

theorem mapped_mr (s : Server) (file : Word × Word) :
    (s.mapped file).utcb.mr 0 = MsgTag.mk 1 2 0#32 Answer.mapRet.toWord ∧ (s.mapped file).utcb.mr mapRetAddr = file.1 ∧
      (s.mapped file).utcb.mr mapRetMapItem = (MapItem.ofFpage file.2 (file.1 &&& ~~~(512#32 - 1#32))).first ∧
      (s.mapped file).utcb.mr (mapRetMapItem + 1) = (MapItem.ofFpage file.2 (file.1 &&& ~~~(512#32 - 1#32))).second := by
  unfold mapped
  refine ⟨?_, ?_, ?_, ?_⟩
  · rw [loadMr_other _ (by decide), loadMr_other _ (by decide), loadMr_other _ (by decide), answer_tag]
  · rw [loadMr_other _ (by decide), loadMr_other _ (by decide), loadMr_same]
  · rw [loadMr_other _ (by decide), loadMr_same]
  · rw [loadMr_same]

/-! ### The calls -/

section Calls
variable (s : Server) (m : Memory) (filenameBuf : Word) (stack : Nat → Byte) (server client : Tcb) (u : Utcb)

theorem openRootFd_agrees (fd : Word) :
    ∃ told s', openRootFd (s.exchange m server client filenameBuf stack) u fd = .ok (told, s') ∧
      Agrees s (openRootFile (romfsOps m.byte s.rootfsBase) s.fileStates (Memory.senderOf client server) fd) told s' := by
  obtain ⟨r, m₁, sender, tag, register, image, exchanged⟩ := exchange_fd s m filenameBuf stack server client u .openroot fd
  have served := serve_of_op (s := s) (Words.op .openroot tag)
  rw [dispatch, handleVfsOpenroot_eq (by rw [tag, MsgTag.u_mk]) (by rw [tag, MsgTag.t_mk]), utcb_receive,
    show r.utcb.mr openrootFd = fd from register, sender, fileStates_receive, image] at served
  have answered : ∀ states, ((((s.receive r).setFileStates states).answer .openrootRet 1 0).loadMr openrootRetFd fd).utcb.mr 0 =
      MsgTag.mk 1 0 0#32 Answer.openrootRet.toWord := by
    intro states
    rw [loadMr_other _ (by decide), answer_tag]
  obtain ⟨told, s', u', sent, agrees, heard, tag'⟩ := conclude_agrees (s.receive r) m₁ server client
    (fun s' => (s'.answer .openrootRet 1 0).loadMr openrootRetFd fd) .openrootRet 1
    (openRootFile (romfsOps m.byte s.rootfsBase) s.fileStates (Memory.senderOf client server) fd) fileStates_receive (by decide) (by decide)
    answered fun _ => rfl
  refine ⟨told, s', ?_, agrees⟩
  unfold openRootFd openrootFd
  rw [exchanged, served]
  simp only [bind, Except.bind, sent, heard]
  cases told with
  | false => rfl
  | true =>
    rw [tag' rfl, MsgTag.u_mk, MsgTag.t_mk]
    rfl

theorem close_agrees (fd : Word) :
    ∃ told s', close (s.exchange m server client filenameBuf stack) u fd = .ok (told, s') ∧
      Agrees s (closeFile s.fileStates (Memory.senderOf client server) fd) told s' := by
  obtain ⟨r, m₁, sender, tag, register, _, exchanged⟩ := exchange_fd s m filenameBuf stack server client u .close fd
  have served := serve_of_op (s := s) (Words.op .close tag)
  rw [dispatch, handleVfsClose_eq (by rw [tag, MsgTag.u_mk]) (by rw [tag, MsgTag.t_mk]), utcb_receive,
    show r.utcb.mr closeFd = fd from register, sender, fileStates_receive] at served
  obtain ⟨told, s', u', sent, agrees, heard, _⟩ := conclude_agrees (s.receive r) m₁ server client
    (fun s' => s'.answer .closeRet 0 0) .closeRet 0 (closeFile s.fileStates (Memory.senderOf client server) fd) fileStates_receive (by decide) (by decide)
    (fun states => answer_tag ((s.receive r).setFileStates states) .closeRet 0 0) fun _ => rfl
  refine ⟨told, s', ?_, agrees⟩
  unfold close closeFd
  rw [exchanged, served]
  simp only [bind, Except.bind, sent, heard]

theorem stat_agrees (fd : Word) :
    ∃ result s', stat (s.exchange m server client filenameBuf stack) u fd = .ok (result, s') ∧
      StatAgrees s (statFile (romfsOps m.byte s.rootfsBase) s.fileStates (Memory.senderOf client server) fd) result s' := by
  obtain ⟨r, m₁, sender, tag, register, image, exchanged⟩ := exchange_fd s m filenameBuf stack server client u .stat fd
  have served := serve_of_op (s := s) (Words.op .stat tag)
  rw [dispatch, handleVfsStat_eq (by rw [tag, MsgTag.u_mk]) (by rw [tag, MsgTag.t_mk]), utcb_receive,
    show r.utcb.mr statFd = fd from register, sender, fileStates_receive, image] at served
  unfold stat statFd
  rw [exchanged, served]
  cases statFile (romfsOps m.byte s.rootfsBase) s.fileStates (Memory.senderOf client server) fd with
  | error errno =>
    obtain ⟨u', sent, refused⟩ := answerTo_error (s.receive r) m₁ server client errno
    have told : StatAgrees s (.error errno) { success := false, type := Vfs.FileType.other.toWord, size := 0#32 } ((s.receive r).makeIpcError errno) :=
      .refused rfl (failed_makeIpcError errno) (makeIpcError_errno _ errno)
    refine ⟨_, _, ?_, told⟩
    simp only [report, bind, Except.bind, sent, refused .statRet (by decide), Bool.not_false, if_true]
  | ok file =>
    obtain ⟨type, size⟩ := file
    have tag' : ((((s.receive r).answer .statRet 2 0).loadMr statRetSize size).loadMr statRetType type.toWord).utcb.mr 0 =
        MsgTag.mk 2 0 0#32 Answer.statRet.toWord := by
      rw [loadMr_other _ (by decide), loadMr_other _ (by decide), answer_tag]
    obtain ⟨u', sent, heard, copied⟩ := answerTo_words m₁ server client (by decide) tag'
    have told : StatAgrees s (.ok (type, size)) { success := true, type := type.toWord, size }
        ((((s.receive r).answer .statRet 2 0).loadMr statRetSize size).loadMr statRetType type.toWord) := by
      refine .done rfl ?_
      rw [failed_iff_of_tag tag']
      decide
    refine ⟨_, _, ?_, told⟩
    have typeWord : u'.mr statRetType = type.toWord := by
      rw [copied statRetType (by decide) (by decide), loadMr_same]
    have sizeWord : u'.mr statRetSize = size := by
      rw [copied statRetSize (by decide) (by decide), loadMr_other _ (by decide), loadMr_same]
    simp only [report, bind, Except.bind, sent, heard, isAnswer_mk, typeWord, sizeWord]
    rfl

/-- The answer to a call with a path depends on the search in the directory, which may not end. -/
theorem openAt_agrees (fd newFd path pathlen : Word) (apart : client.utcb ≠ server.utcb) (short : pathlen.toNat ≤ pathMax) :
    (∀ halt, openFileAt (romfsOps (pathStored m filenameBuf path pathlen) s.rootfsBase) s.fileStates (Memory.senderOf client server) fd
          stack newFd ((stringAt m.byte path pathlen.toNat).takeWhile (· ≠ 0#8)) = .error halt →
        openAt (s.exchange m server client filenameBuf stack) u fd newFd path pathlen = .error halt) ∧
      ∀ outcome, openFileAt (romfsOps (pathStored m filenameBuf path pathlen) s.rootfsBase) s.fileStates (Memory.senderOf client server) fd
          stack newFd ((stringAt m.byte path pathlen.toNat).takeWhile (· ≠ 0#8)) = .ok outcome →
        ∃ told s', openAt (s.exchange m server client filenameBuf stack) u fd newFd path pathlen = .ok (told, s') ∧
          Agrees s outcome told s' := by
  have asked : (((((u.setMr 0 (MsgTag.mk 2 2 0#32 Op.openat.toWord)).setMr openatFd fd).setMr openatNewfd newFd).setMr openatStr
      (Item.simpleString pathlen)).setMr (openatStr + 1) path).mr 0 = MsgTag.mk 2 2 0#32 Op.openat.toWord := by
    simp [Utcb.mr, Utcb.setMr, openatFd, openatNewfd, openatStr]
  obtain ⟨r, m₁, words, tag, bytes, item, ptr, exchanged⟩ := exchange_string s m filenameBuf stack apart (by decide) asked
    (by rw [show 2 + 1 = openatStr from rfl, Utcb.mr_setMr_other _ (by decide), Utcb.mr_setMr_same])
    (Utcb.mr_setMr_same _ (openatStr + 1) path) short
  have fdRegister : r.utcb.mr openatFd = fd := by
    rw [words.words openatFd (by decide) (by decide), Utcb.mr_setMr_other _ (by decide), Utcb.mr_setMr_other _ (by decide),
      Utcb.mr_setMr_other _ (by decide), Utcb.mr_setMr_same]
  have newFdRegister : r.utcb.mr openatNewfd = newFd := by
    rw [words.words openatNewfd (by decide) (by decide), Utcb.mr_setMr_other _ (by decide), Utcb.mr_setMr_other _ (by decide),
      Utcb.mr_setMr_same]
  have itemRegister : r.utcb.mr openatStr = Item.simpleString pathlen := item
  have ptrRegister : r.utcb.mr (openatStr + 1) = filenameBuf := ptr
  have length : Item.length (Item.simpleString pathlen) = pathlen.toNat := by
    rw [Item.length_simpleString]
    exact Nat.mod_eq_of_lt (lt_of_le_of_lt short (by decide))
  have stored : (s.receive r).terminated.byte = pathStored m filenameBuf path pathlen := by
    change Function.update r.byte (r.utcb.mr (openatStr + 1) + BitVec.ofNat 32 (Item.length (r.utcb.mr openatStr))) 0#8 = _
    rw [itemRegister, ptrRegister, length, BitVec.ofNat_toNat, BitVec.setWidth_eq, bytes]
    rfl
  have image : (s.receive r).terminated.ops = romfsOps (pathStored m filenameBuf path pathlen) s.rootfsBase := by
    rw [← stored]
    rfl
  have served := serve_of_op (s := s) (Words.op .openat tag)
  rw [dispatch, handleVfsOpenat_eq (by rw [tag, MsgTag.u_mk]) (by rw [tag, MsgTag.t_mk])
      (by rw [utcb_receive, itemRegister]; exact Item.type_simpleString _)
      (by rw [utcb_receive, itemRegister]; exact Item.compound_simpleString _), utcb_receive, fdRegister, newFdRegister, itemRegister,
    ptrRegister, length, words.client, fileStates_receive, image, stored, pathAt, stringAt_pathStored,
    show (s.receive r).stack = stack from words.stack] at served
  constructor
  · intro halt walked
    rw [walked] at served
    unfold openAt
    dsimp only
    rw [exchanged, served]
    rfl
  · intro outcome walked
    rw [walked] at served
    have answered : ∀ states, ((((s.receive r).terminated.setFileStates states).answer .openatRet 1 0).loadMr openatRetFd newFd).utcb.mr 0 =
        MsgTag.mk 1 0 0#32 Answer.openatRet.toWord := by
      intro states
      rw [loadMr_other _ (by decide), answer_tag]
    obtain ⟨told, s', u', sent, agrees, heard, tag'⟩ := conclude_agrees (s.receive r).terminated m₁ server client
      (fun s' => (s'.answer .openatRet 1 0).loadMr openatRetFd newFd) .openatRet 1 outcome
      (show (s.receive r).terminated.fileStates = s.fileStates from rfl) (by decide) (by decide) answered fun _ => rfl
    refine ⟨told, s', ?_, agrees⟩
    unfold openAt
    dsimp only
    rw [exchanged, served]
    simp only [bind, Except.bind, Except.map, sent, heard]
    cases told with
    | false => rfl
    | true =>
      rw [tag' rfl, MsgTag.u_mk, MsgTag.t_mk]
      rfl

theorem map_agrees (fd offset size : Word) (apart : client.utcb ≠ server.utcb) :
    ∃ result s', Vfs.map (s.exchange m server client filenameBuf stack) u fd offset size = .ok (result, s') ∧
      MapAgrees s (mapFile s.fileStates (Memory.senderOf client server) fd s.rootfsBase offset size) result s' := by
  have asked : (((((u.setMr 0 (MsgTag.mk 4 0 0#32 Op.map.toWord)).setMr mapFd fd).setMr mapOffset offset).setMr mapSize size).setMr mapPerm
      Fpage.readable).mr 0 = MsgTag.mk 4 0 0#32 Op.map.toWord := by
    simp [Utcb.mr, Utcb.setMr, mapFd, mapOffset, mapSize, mapPerm]
  obtain ⟨r, m₁, words, tag, bytes, exchanged⟩ := exchange_words s m filenameBuf stack server client (by decide) asked
  have fdRegister : r.utcb.mr mapFd = fd := by
    rw [words.words mapFd (by decide) (by decide), Utcb.mr_setMr_other _ (by decide), Utcb.mr_setMr_other _ (by decide),
      Utcb.mr_setMr_other _ (by decide), Utcb.mr_setMr_same]
  have offsetRegister : r.utcb.mr mapOffset = offset := by
    rw [words.words mapOffset (by decide) (by decide), Utcb.mr_setMr_other _ (by decide), Utcb.mr_setMr_other _ (by decide),
      Utcb.mr_setMr_same]
  have sizeRegister : r.utcb.mr mapSize = size := by
    rw [words.words mapSize (by decide) (by decide), Utcb.mr_setMr_other _ (by decide), Utcb.mr_setMr_same]
  have permRegister : r.utcb.mr mapPerm = Fpage.readable := by
    rw [words.words mapPerm (by decide) (by decide), Utcb.mr_setMr_same]
  have served := serve_of_op (s := s) (Words.op .map tag)
  rw [dispatch, handleVfsMap_eq_mapped (by rw [tag, MsgTag.u_mk]) (by rw [tag, MsgTag.t_mk]) permRegister, utcb_receive, fdRegister,
    offsetRegister, sizeRegister, words.client, fileStates_receive, show (s.receive r).rootfsBase = s.rootfsBase from rfl] at served
  unfold Vfs.map
  dsimp only
  rw [exchanged, served]
  cases outcome : mapFile s.fileStates (Memory.senderOf client server) fd s.rootfsBase offset size with
  | error errno =>
    obtain ⟨u', sent, refused⟩ := answerTo_error (s.receive r) m₁ server client errno
    have told : MapAgrees s (.error errno) { fpage := 0#32, addr := 0#32 } ((s.receive r).makeIpcError errno) :=
      .refused rfl (failed_makeIpcError errno) (makeIpcError_errno _ errno)
    refine ⟨_, _, ?_, told⟩
    simp only [report, bind, Except.bind, sent, refused .mapRet (by decide), Bool.not_false, Bool.true_or, if_true]
  | ok file =>
    obtain ⟨fpage, readable⟩ := mapFile_readable outcome
    obtain ⟨tag', addr, first, second⟩ := mapped_mr (s.receive r) file
    have item : Item.type (((s.receive r).mapped file).utcb.mr (1 + 1)) = .mapItem := by
      rw [show 1 + 1 = mapRetMapItem from rfl, first]
      exact MapItem.type_first _ _
    obtain ⟨u', sent, heard, copied⟩ := answerTo_mapItem m₁ apart (by decide) tag' item
    have told : MapAgrees s (.ok (file.1, file.2))
        { fpage := (MapItem.ofFpage file.2 (file.1 &&& ~~~(512#32 - 1#32))).sndFpage, addr := file.1 } ((s.receive r).mapped file) := by
      refine .done rfl ?_ ?_ rfl addr
      · rw [failed_iff_of_tag tag']
        decide
      · rw [readable]
        exact MapItem.sndFpage_ne_zero _ _
    refine ⟨_, _, ?_, told⟩
    have addrWord : u'.mr mapRetAddr = file.1 := (copied mapRetAddr (by decide) (by decide)).trans addr
    have firstWord := (copied mapRetMapItem (by decide) (by decide)).trans first
    have secondWord := (copied (mapRetMapItem + 1) (by decide) (by decide)).trans second
    simp only [report, bind, Except.bind, sent, heard, isAnswer_mk, MsgTag.u_mk, MsgTag.t_mk, addrWord, firstWord, secondWord]
    rfl

/-- Each function of the client reports what became of its operation. -/
theorem client_server_agree (apart : client.utcb ≠ server.utcb) :
    (∀ fd, ∃ told s', openRootFd (s.exchange m server client filenameBuf stack) u fd = .ok (told, s') ∧
        Agrees s (openRootFile (romfsOps m.byte s.rootfsBase) s.fileStates (Memory.senderOf client server) fd) told s') ∧
      (∀ fd newFd path pathlen : Word, pathlen.toNat ≤ pathMax →
        (∀ halt, openFileAt (romfsOps (pathStored m filenameBuf path pathlen) s.rootfsBase) s.fileStates (Memory.senderOf client server) fd
              stack newFd ((stringAt m.byte path pathlen.toNat).takeWhile (· ≠ 0#8)) = .error halt →
            openAt (s.exchange m server client filenameBuf stack) u fd newFd path pathlen = .error halt) ∧
          ∀ outcome, openFileAt (romfsOps (pathStored m filenameBuf path pathlen) s.rootfsBase) s.fileStates
              (Memory.senderOf client server) fd stack newFd ((stringAt m.byte path pathlen.toNat).takeWhile (· ≠ 0#8)) = .ok outcome →
            ∃ told s', openAt (s.exchange m server client filenameBuf stack) u fd newFd path pathlen = .ok (told, s') ∧
              Agrees s outcome told s') ∧
      (∀ fd, ∃ told s', close (s.exchange m server client filenameBuf stack) u fd = .ok (told, s') ∧
        Agrees s (closeFile s.fileStates (Memory.senderOf client server) fd) told s') ∧
      (∀ fd, ∃ result s', stat (s.exchange m server client filenameBuf stack) u fd = .ok (result, s') ∧
        StatAgrees s (statFile (romfsOps m.byte s.rootfsBase) s.fileStates (Memory.senderOf client server) fd) result s') ∧
      ∀ fd offset size, ∃ result s', Vfs.map (s.exchange m server client filenameBuf stack) u fd offset size = .ok (result, s') ∧
        MapAgrees s (mapFile s.fileStates (Memory.senderOf client server) fd s.rootfsBase offset size) result s' :=
  ⟨openRootFd_agrees s m filenameBuf stack server client u,
    fun fd newFd path pathlen => openAt_agrees s m filenameBuf stack server client u fd newFd path pathlen apart,
    close_agrees s m filenameBuf stack server client u, stat_agrees s m filenameBuf stack server client u,
    fun fd offset size => map_agrees s m filenameBuf stack server client u fd offset size apart⟩

end Calls

/-- A thread of its own space, with its UTCB at `utcb`. -/
def thread (number utcb : Word) (space : Nat) : Tcb where
  globalId := globalId number 1#32
  localId := utcb
  state := .recvBlocked
  ctx := { sp := utcb, ret := 0, r4 := 0, r5 := 0, r6 := 0, r7 := 0, r8 := 0, r9 := 0, r10 := 0, r11 := 0 }
  addressSpace := some space
  utcb := utcb
  priority := 0#32
  pager := 0#32
  scheduler := 0#32
  ipcFrom := 0#32
  nextSibling := none
  prevSibling := none

/-- An image of zeros. -/
def zeros : Memory where
  utcb _ := empty.utcb
  frame _ := { r0 := 0#32, r1 := 0#32, r2 := 0#32, r3 := 0#32, pc := 0#32, psr := 0#32 }
  byte _ := 0#8

theorem client_server_agree_zeros : ∃ told s', openRootFd (empty.exchange zeros (thread 0x41#32 0x20000200#32 1) (thread 0x42#32 0x20000400#32 2)
      0x20001000#32 fun _ => 0#8) empty.utcb 3#32 = .ok (told, s') ∧
    Agrees empty (openRootFile (romfsOps zeros.byte 0#32) empty.fileStates (globalId 0x42#32 1#32) 3#32) told s' :=
  (client_server_agree empty zeros 0x20001000#32 (fun _ => 0#8) (thread 0x41#32 0x20000200#32 1) (thread 0x42#32 0x20000400#32 2) empty.utcb
    (by decide)).1 3#32

end Romfs.Server
end BradypOS
