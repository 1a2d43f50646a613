import BradypOS.Romfs.Image
import BradypOS.Service.Vfs
import BradypOS.Theory.Probing

/-!
# The ROMFS server (`usr/root/romfs_server.c`)

The server keeps its open files in a hash table. A request is what the kernel has left in the UTCB
and in the memory of the server; a handler leaves the answer in the UTCB. The table is not part of
the bytes in `byte`.
-/

namespace BradypOS.Romfs

open L4 Vfs Theory.Probing

abbrev HashItemStatus := Status

structure VfsFileState where
  status : HashItemStatus
  owner : Word
  fd : Word
  fileInfo : FileInfo
  fileOff : Word

def fileStateLog : Nat := 5
abbrev fileStateCount : Nat := 32

abbrev FileStates := Fin fileStateCount → VfsFileState

def hashCombine (a b : Word) : Word := a ^^^ (b + 0x9e3779b9#32 + (a <<< 6) + (a >>> 2))

/-- The places that the loops over the table come to. -/
def probes (key : Word × Word) : List (Fin fileStateCount) :=
  let initialIdx := (hashCombine key.1 key.2).toNat % fileStateCount
  (List.range fileStateLog).map fun i => ⟨(initialIdx + i * i) % fileStateCount, Nat.mod_lt _ (by decide)⟩

/-- An entry is for an owner and a descriptor. -/
def view : View VfsFileState (Word × Word) where
  status := VfsFileState.status
  key state := (state.owner, state.fd)

def findVfsFileStateInsertionPoint (states : FileStates) (owner fd : Word) : Option (Fin fileStateCount) :=
  insertionPoint view states (owner, fd) (probes (owner, fd))

def findVfsFileState (states : FileStates) (owner fd : Word) : Option (Fin fileStateCount) :=
  lookup view states (owner, fd) (probes (owner, fd))

/-- The loop of `delete_vfs_file_state` is the one of `find_vfs_file_state`. -/
def deleteVfsFileState (states : FileStates) (owner fd : Word) : Option FileStates :=
  (findVfsFileState states owner fd).map fun i => Function.update states i { states i with status := .tombstone }

/-- `stack` is what lies behind the name in the frame of `romfs_openat`. -/
structure Server where
  rootfsBase : Word
  fileStates : FileStates
  utcb : Utcb
  byte : Word → Byte
  stack : Nat → Byte

namespace Server

/-- `romfs_ops` over the image at `base`. -/
def romfsOps (byte : Word → Byte) (base : Word) : BlockIface where
  map offset _ := some fun i => byte (base + offset + BitVec.ofNat 32 i)

def ops (s : Server) : BlockIface := romfsOps s.byte s.rootfsBase

def makeIpcError (s : Server) (errno : Errno) : Server := { s with utcb := s.utcb.makeIpcError Answer.error.toWord errno }

/-- An answer with `u` words and `t` words of items. -/
def answer (s : Server) (op : Answer) (u t : Nat) : Server := { s with utcb := s.utcb.setMr 0 (MsgTag.mk u t 0#32 op.toWord) }

def loadMr (s : Server) (i : Nat) (w : Word) : Server := { s with utcb := s.utcb.setMr i w }

def setByte (s : Server) (a : Word) (c : Byte) : Server := { s with byte := Function.update s.byte a c }

def setFileStates (s : Server) (fileStates : FileStates) : Server := { s with fileStates }

/-- The end of both handlers that open a file. -/
def openFileState (s : Server) (i : Fin fileStateCount) (client fd fileOff : Word) (op : Answer) (retFd : Nat) : Server :=
  match romfsFileInfo s.ops fileOff with
  | none => s.makeIpcError .eio
  | some info =>
    let s := s.setFileStates (Function.update s.fileStates i { status := .used, owner := client, fd, fileInfo := info, fileOff })
    (s.answer op 1 0).loadMr retFd fd

def handleVfsOpenroot (s : Server) (client msgTag : Word) : Server :=
  if MsgTag.u msgTag ≠ 1 ∨ MsgTag.t msgTag ≠ 0 then s.makeIpcError .einval
  else
    let fd := s.utcb.mr openrootFd
    match findVfsFileStateInsertionPoint s.fileStates client fd with
    | none => s.makeIpcError .enomem
    | some fileState =>
      if (s.fileStates fileState).status = .used then s.makeIpcError .ebadf
      else
        let fileOff := romfsRootDirectory
        if fileOff = invalidFile then s.makeIpcError .eio
        else s.openFileState fileState client fd fileOff .openrootRet openrootRetFd

/-- The path is what was stored for the string item, up to the first NUL. -/
def pathAt (byte : Word → Byte) (ptr : Word) (length : Nat) : List Byte := (stringAt byte ptr length).takeWhile (· ≠ 0#8)

def handleVfsOpenat (s : Server) (client msgTag : Word) : Fallible Server :=
  if MsgTag.u msgTag ≠ 2 ∨ MsgTag.t msgTag ≠ 2 then .ok (s.makeIpcError .einval)
  else
    let fd := s.utcb.mr openatFd
    let newFd := s.utcb.mr openatNewfd
    let item := s.utcb.mr openatStr
    let ptr := s.utcb.mr (openatStr + 1)
    if Item.type item ≠ .stringItem then .ok (s.makeIpcError .einval)
    else if Item.compound item then .ok (s.makeIpcError .einval)
    else
      let s := s.setByte (ptr + BitVec.ofNat 32 (Item.length item)) 0#8
      match findVfsFileState s.fileStates client fd with
      | none => .ok (s.makeIpcError .einval)
      | some dir => do
        let fileOffset ← romfsOpenat s.ops s.stack (s.fileStates dir).fileOff (pathAt s.byte ptr (Item.length item))
        if fileOffset = invalidFile then .ok (s.makeIpcError .enoent)
        else
          match findVfsFileStateInsertionPoint s.fileStates client newFd with
          | none => .ok (s.makeIpcError .enomem)
          | some newState =>
            if (s.fileStates newState).status = .used then .ok (s.makeIpcError .ebadf)
            else .ok (s.openFileState newState client newFd fileOffset .openatRet openatRetFd)

def handleVfsClose (s : Server) (client msgTag : Word) : Server :=
  if MsgTag.u msgTag ≠ 1 ∨ MsgTag.t msgTag ≠ 0 then s.makeIpcError .einval
  else
    match deleteVfsFileState s.fileStates client (s.utcb.mr closeFd) with
    | none => s.makeIpcError .enoent
    | some fileStates => (s.setFileStates fileStates).answer .closeRet 0 0

def vfsType : FileType → Vfs.FileType
  | .regularFile => .regular
  | .directory => .directory
  | .symbolicLink => .symlink
  | .hardLink => .hardlink
  | .blockDevice | .charDevice | .fifo | .socket => .other

def handleVfsStat (s : Server) (client msgTag : Word) : Server :=
  if MsgTag.u msgTag ≠ 1 ∨ MsgTag.t msgTag ≠ 0 then s.makeIpcError .einval
  else
    match findVfsFileState s.fileStates client (s.utcb.mr statFd) with
    | none => s.makeIpcError .einval
    | some state =>
      match romfsFileInfo s.ops (s.fileStates state).fileOff with
      | none => s.makeIpcError .eio
      | some fileInfo =>
        ((s.answer .statRet 2 0).loadMr statRetSize fileInfo.size).loadMr statRetType (vfsType fileInfo.type).toWord

def handleVfsRead (s : Server) (client msgTag : Word) : Server :=
  if MsgTag.u msgTag ≠ 3 ∨ MsgTag.t msgTag ≠ 0 then s.makeIpcError .einval
  else
    let offset := s.utcb.mr readOffset
    let size := s.utcb.mr readSize
    match findVfsFileState s.fileStates client (s.utcb.mr readFd) with
    | none => s.makeIpcError .einval
    | some fileState =>
      let contentOffset := romfsFileContentOffset (s.fileStates fileState).fileOff
      let remainingFileSize := (s.fileStates fileState).fileInfo.size - offset
      let size := if remainingFileSize < size then remainingFileSize else size
      ((s.answer .readRet 0 2).loadMr readRetContent (Item.simpleString size)).loadMr (readRetContent + 1)
        (s.rootfsBase + contentOffset + offset)

def handleVfsWrite (s : Server) (client msgTag : Word) : Server :=
  if MsgTag.u msgTag ≠ 3 ∨ MsgTag.t msgTag ≠ 2 then s.makeIpcError .einval
  else
    match findVfsFileState s.fileStates client (s.utcb.mr writeFd) with
    | none => s.makeIpcError .ebadf
    | some _ => s.makeIpcError .erofs

/-- The flexpage that covers the pages of a file. -/
def mapFpage (fileAddr size : Word) : Word :=
  Fpage.ofSize (fileAddr &&& ~~~(512#32 - 1#32)) ((size + (fileAddr &&& (512#32 - 1#32)) + 512#32 - 1#32) &&& ~~~(512#32 - 1#32))

def handleVfsMap (s : Server) (client msgTag : Word) : Server :=
  if MsgTag.u msgTag ≠ 4 ∨ MsgTag.t msgTag ≠ 0 then s.makeIpcError .einval
  else
    let offset := s.utcb.mr mapOffset
    let size := s.utcb.mr mapSize
    let perm := s.utcb.mr mapPerm
    match findVfsFileState s.fileStates client (s.utcb.mr mapFd) with
    | none => s.makeIpcError .ebadf
    | some fileState =>
      if (s.fileStates fileState).fileInfo.size < offset + size then s.makeIpcError .efault
      else if perm &&& Fpage.writable ≠ 0#32 then s.makeIpcError .erofs
      else
        let fileAddr := s.rootfsBase + romfsFileContentOffset (s.fileStates fileState).fileOff
        let mappingAddr := fileAddr &&& ~~~(512#32 - 1#32)
        let mapItem := MapItem.ofFpage (Fpage.addRights (mapFpage fileAddr (s.fileStates fileState).fileInfo.size) perm) mappingAddr
        (((s.answer .mapRet 1 2).loadMr mapRetAddr fileAddr).loadMr mapRetMapItem mapItem.first).loadMr (mapRetMapItem + 1)
          mapItem.second

end Server

/-- A message to the server: its sender, and the UTCB and the memory as the server finds them. -/
structure Request where
  client : Word
  utcb : Utcb
  byte : Word → Byte
  stack : Nat → Byte

namespace Server

def receive (s : Server) (r : Request) : Server := { s with utcb := r.utcb, byte := r.byte, stack := r.stack }

/-- The `switch` of `romfs_main`; a label that names no operation is answered with the message itself. -/
def dispatch (s : Server) (op : Option Op) (client msgTag : Word) : Fallible Server :=
  match op with
  | some .openroot => .ok (s.handleVfsOpenroot client msgTag)
  | some .openat => s.handleVfsOpenat client msgTag
  | some .close => .ok (s.handleVfsClose client msgTag)
  | some .stat => .ok (s.handleVfsStat client msgTag)
  | some .read => .ok (s.handleVfsRead client msgTag)
  | some .write => .ok (s.handleVfsWrite client msgTag)
  | some .map => .ok (s.handleVfsMap client msgTag)
  | none => .ok s

/-- One round of `romfs_main`. -/
def serve (s : Server) (r : Request) : Fallible Server :=
  let s := s.receive r
  let msgTag := s.utcb.mr 0
  s.dispatch (Op.ofLabel (MsgTag.label msgTag)) r.client msgTag

end Server
end BradypOS.Romfs
