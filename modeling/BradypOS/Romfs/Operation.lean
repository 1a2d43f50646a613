import BradypOS.Romfs.Table

/-!
# File operations

What the requests are about, without their messages: an operation on the table of open files and on
the image has a result or an error number. Each handler answers a well-formed request with the
result of its operation.
-/

namespace BradypOS.Romfs

open L4 Vfs

section Operation
variable (iface : BlockIface) (states : FileStates) (client fd : Word)

def installFile (fileOff : Word) : Except Errno FileStates :=
  match findVfsFileStateInsertionPoint states client fd with
  | none => .error .enomem
  | some i =>
    if (states i).status = .used then .error .ebadf
    else
      match romfsFileInfo iface fileOff with
      | none => .error .eio
      | some fileInfo => .ok (Function.update states i { status := .used, owner := client, fd, fileInfo, fileOff })

def openRootFile : Except Errno FileStates := installFile iface states client fd romfsRootDirectory

/-- The search in the directory may not end. -/
def openFileAt (behind : Nat → Byte) (newFd : Word) (path : List Byte) : Fallible (Except Errno FileStates) :=
  match findVfsFileState states client fd with
  | none => .ok (.error .einval)
  | some dir => do
    let fileOff ← romfsOpenat iface behind (states dir).fileOff path
    if fileOff = invalidFile then .ok (.error .enoent) else .ok (installFile iface states client newFd fileOff)

def closeFile : Except Errno FileStates :=
  match findVfsFileState states client fd with
  | none => .error .enoent
  | some i => .ok (Function.update states i { states i with status := .tombstone })

/-- The type and the size of a file. -/
def statFile : Except Errno (Vfs.FileType × Word) :=
  match findVfsFileState states client fd with
  | none => .error .einval
  | some i =>
    match romfsFileInfo iface (states i).fileOff with
    | none => .error .eio
    | some fileInfo => .ok (Server.vfsType fileInfo.type, fileInfo.size)

/-- The address of a file that is mapped for reading, and its flexpage. -/
def mapFile (base offset size : Word) : Except Errno (Word × Word) :=
  match findVfsFileState states client fd with
  | none => .error .ebadf
  | some i =>
    if (states i).fileInfo.size < offset + size then .error .efault
    else
      let fileAddr := base + romfsFileContentOffset (states i).fileOff
      .ok (fileAddr, Fpage.addRights (Server.mapFpage fileAddr (states i).fileInfo.size) Fpage.readable)

end Operation

namespace Server

variable {s : Server} {client tag : Word}

/-- The answer to a request that changes the table. -/
def conclude (s : Server) (answered : Server → Server) : Except Errno FileStates → Server
  | .error errno => s.makeIpcError errno
  | .ok states => answered (s.setFileStates states)

theorem openFileState_eq {i : Fin fileStateCount} {fd fileOff : Word} (op : Answer) (retFd : Nat)
    (point : findVfsFileStateInsertionPoint s.fileStates client fd = some i) (vacant : (s.fileStates i).status ≠ .used) :
    s.openFileState i client fd fileOff op retFd =
      s.conclude (fun s => (s.answer op 1 0).loadMr retFd fd) (installFile s.ops s.fileStates client fd fileOff) := by
  unfold openFileState installFile
  simp only [point, vacant, if_false]
  cases romfsFileInfo s.ops fileOff <;> rfl

theorem handleVfsOpenroot_eq (words : MsgTag.u tag = 1) (items : MsgTag.t tag = 0) :
    s.handleVfsOpenroot client tag = s.conclude (fun s' => (s'.answer .openrootRet 1 0).loadMr openrootRetFd (s.utcb.mr openrootFd))
      (openRootFile s.ops s.fileStates client (s.utcb.mr openrootFd)) := by
  unfold handleVfsOpenroot openRootFile
  rw [if_neg (by simp [words, items])]
  dsimp only
  cases point : findVfsFileStateInsertionPoint s.fileStates client (s.utcb.mr openrootFd) with
  | none =>
    unfold installFile
    rw [point]
    rfl
  | some i =>
    by_cases used : (s.fileStates i).status = .used
    · unfold installFile
      simp only [point, used, if_true]
      rfl
    · simp only [used, if_false]
      rw [if_neg (by decide)]
      exact openFileState_eq .openrootRet openrootRetFd point used

/-- The state when the path of a request has its terminator. -/
def terminated (s : Server) : Server :=
  s.setByte (s.utcb.mr (openatStr + 1) + BitVec.ofNat 32 (Item.length (s.utcb.mr openatStr))) 0#8

theorem handleVfsOpenat_eq (words : MsgTag.u tag = 2) (items : MsgTag.t tag = 2)
    (string : Item.type (s.utcb.mr openatStr) = .stringItem) (simple : Item.compound (s.utcb.mr openatStr) = false) :
    s.handleVfsOpenat client tag =
      (openFileAt s.terminated.ops s.fileStates client (s.utcb.mr openatFd) s.stack (s.utcb.mr openatNewfd)
        (pathAt s.terminated.byte (s.utcb.mr (openatStr + 1)) (Item.length (s.utcb.mr openatStr)))).map
      (s.terminated.conclude fun s' => (s'.answer .openatRet 1 0).loadMr openatRetFd (s.utcb.mr openatNewfd)) := by
  unfold handleVfsOpenat openFileAt
  rw [if_neg (by simp [words, items])]
  simp only [string, simple, ne_eq, not_true_eq_false, Bool.false_eq_true, if_false, fileStates_setByte]
  cases findVfsFileState s.fileStates client (s.utcb.mr openatFd) with
  | none => rfl
  | some dir =>
    dsimp only
    change (romfsOpenat s.terminated.ops s.stack (s.fileStates dir).fileOff
      (pathAt s.terminated.byte (s.utcb.mr (openatStr + 1)) (Item.length (s.utcb.mr openatStr))) >>= _) = _
    cases romfsOpenat s.terminated.ops s.stack (s.fileStates dir).fileOff
      (pathAt s.terminated.byte (s.utcb.mr (openatStr + 1)) (Item.length (s.utcb.mr openatStr))) with
    | error halt => rfl
    | ok fileOff =>
      simp only [bind, Except.bind]
      by_cases invalid : fileOff = invalidFile
      · simp only [invalid, if_true]
        rfl
      · simp only [invalid, if_false]
        cases point : findVfsFileStateInsertionPoint s.fileStates client (s.utcb.mr openatNewfd) with
        | none =>
          unfold installFile
          rw [point]
          rfl
        | some i =>
          by_cases used : (s.fileStates i).status = .used
          · unfold installFile
            simp only [point, used, if_true]
            rfl
          · simp only [used, if_false]
            exact congrArg Except.ok (openFileState_eq (s := s.terminated) .openatRet openatRetFd point used)

theorem handleVfsClose_eq (words : MsgTag.u tag = 1) (items : MsgTag.t tag = 0) :
    s.handleVfsClose client tag = s.conclude (fun s' => s'.answer .closeRet 0 0) (closeFile s.fileStates client (s.utcb.mr closeFd)) := by
  unfold handleVfsClose closeFile deleteVfsFileState
  rw [if_neg (by simp [words, items])]
  cases findVfsFileState s.fileStates client (s.utcb.mr closeFd) <;> rfl

/-- The answer to a question about a file. -/
def report {α : Type} (s : Server) (answered : α → Server) : Except Errno α → Server
  | .error errno => s.makeIpcError errno
  | .ok value => answered value

theorem handleVfsStat_eq (words : MsgTag.u tag = 1) (items : MsgTag.t tag = 0) :
    s.handleVfsStat client tag = s.report
      (fun file => ((s.answer .statRet 2 0).loadMr statRetSize file.2).loadMr statRetType file.1.toWord)
      (statFile s.ops s.fileStates client (s.utcb.mr statFd)) := by
  unfold handleVfsStat statFile
  rw [if_neg (by simp [words, items])]
  cases findVfsFileState s.fileStates client (s.utcb.mr statFd) with
  | none => rfl
  | some i =>
    dsimp only
    cases romfsFileInfo s.ops (s.fileStates i).fileOff <;> rfl

/-- The answer to a request to map a file. -/
def mapped (s : Server) (file : Word × Word) : Server :=
  let mapItem := MapItem.ofFpage file.2 (file.1 &&& ~~~(512#32 - 1#32))
  (((s.answer .mapRet 1 2).loadMr mapRetAddr file.1).loadMr mapRetMapItem mapItem.first).loadMr (mapRetMapItem + 1) mapItem.second

theorem handleVfsMap_eq_mapped (words : MsgTag.u tag = 4) (items : MsgTag.t tag = 0) (perm : s.utcb.mr mapPerm = Fpage.readable) :
    s.handleVfsMap client tag = s.report s.mapped
      (mapFile s.fileStates client (s.utcb.mr mapFd) s.rootfsBase (s.utcb.mr mapOffset) (s.utcb.mr mapSize)) := by
  unfold handleVfsMap mapFile
  rw [if_neg (by simp [words, items])]
  simp only [perm]
  cases findVfsFileState s.fileStates client (s.utcb.mr mapFd) with
  | none => rfl
  | some i =>
    dsimp only
    by_cases far : (s.fileStates i).fileInfo.size < s.utcb.mr mapOffset + s.utcb.mr mapSize
    · simp only [far, if_true]
      rfl
    · simp only [far, if_false]
      rw [if_neg (by decide)]
      rfl

end Server
end BradypOS.Romfs
