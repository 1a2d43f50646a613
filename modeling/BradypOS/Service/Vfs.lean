import BradypOS.Service.Message

/-!
# The file protocol (`lib/vfs`)

The labels and the message registers that file servers and their clients share, and the functions of
the client.
-/

namespace BradypOS.Vfs

open L4

/-- `VFS_PATH_MAX`. -/
def pathMax : Nat := 64

/-- `enum vfs_ops`. -/
inductive Op where
  | openroot | openat | close | stat | read | write | map
  deriving DecidableEq, Repr

def Op.toWord : Op → Word
  | .openroot => 0#32
  | .openat => 1#32
  | .close => 2#32
  | .stat => 3#32
  | .read => 4#32
  | .write => 5#32
  | .map => 6#32

/-- The operation that a label names, if any. -/
def Op.ofLabel (label : Word) : Option Op :=
  match label.toNat with
  | 0 => some .openroot
  | 1 => some .openat
  | 2 => some .close
  | 3 => some .stat
  | 4 => some .read
  | 5 => some .write
  | 6 => some .map
  | _ => none

/-- `enum vfs_answer_ops`. -/
inductive Answer where
  | error | openrootRet | openatRet | closeRet | statRet | readRet | writeRet | mapRet
  deriving DecidableEq, Repr

def Answer.toWord : Answer → Word
  | .error => 0#32
  | .openrootRet => 1#32
  | .openatRet => 2#32
  | .closeRet => 3#32
  | .statRet => 4#32
  | .readRet => 5#32
  | .writeRet => 6#32
  | .mapRet => 7#32

/-- `enum vfs_file_type`. -/
inductive FileType where
  | regular | directory | hardlink | symlink | other
  deriving DecidableEq, Repr

def FileType.toWord : FileType → Word
  | .regular => 0#32
  | .directory => 1#32
  | .hardlink => 2#32
  | .symlink => 3#32
  | .other => 4#32

/-! ### Message registers -/

def openrootFd : Nat := 1
def openrootRetFd : Nat := 1

def openatFd : Nat := 1
def openatNewfd : Nat := 2
def openatStr : Nat := 3
def openatRetFd : Nat := 1

def closeFd : Nat := 1

def statFd : Nat := 1
def statRetType : Nat := 1
def statRetSize : Nat := 2

def readFd : Nat := 1
def readOffset : Nat := 2
def readSize : Nat := 3
def readRetContent : Nat := 1

def writeFd : Nat := 1

def mapFd : Nat := 1
def mapOffset : Nat := 2
def mapSize : Nat := 3
def mapPerm : Nat := 4
def mapRetAddr : Nat := 1
def mapRetMapItem : Nat := 2

/-! ### The client -/

/-- `struct vfs_stat_result`. -/
structure StatResult where
  success : Bool
  type : Word
  size : Word
  deriving DecidableEq

structure MapResult where
  fpage : Word
  addr : Word
  deriving DecidableEq

/-- The call did not fail, and its answer has the label. -/
def isAnswer (answerTag : Word) (op : Answer) : Bool := !ipcFailed answerTag && MsgTag.label answerTag == op.toWord

section Client

-- `L4_ipc` takes the client's message registers and gives them back with the answer
variable {σ : Type} (ipc : Utcb → Fallible (Utcb × σ)) (u : Utcb)

def openRootFd (fd : Word) : Fallible (Bool × σ) := do
  let (u, world) ← ipc ((u.setMr 0 (MsgTag.mk 1 0 0#32 Op.openroot.toWord)).setMr openrootFd fd)
  let answerTag := u.mr 0
  .ok (isAnswer answerTag .openrootRet && MsgTag.u answerTag == 1 && MsgTag.t answerTag == 0, world)

def openAt (fd newFd path pathlen : Word) : Fallible (Bool × σ) := do
  let u := ((u.setMr 0 (MsgTag.mk 2 2 0#32 Op.openat.toWord)).setMr openatFd fd).setMr openatNewfd newFd
  let (u, world) ← ipc ((u.setMr openatStr (Item.simpleString pathlen)).setMr (openatStr + 1) path)
  let answerTag := u.mr 0
  .ok (isAnswer answerTag .openatRet && MsgTag.u answerTag == 1 && MsgTag.t answerTag == 0, world)

def close (fd : Word) : Fallible (Bool × σ) := do
  let (u, world) ← ipc ((u.setMr 0 (MsgTag.mk 1 0 0#32 Op.close.toWord)).setMr closeFd fd)
  .ok (isAnswer (u.mr 0) .closeRet, world)

def stat (fd : Word) : Fallible (StatResult × σ) := do
  let (u, world) ← ipc ((u.setMr 0 (MsgTag.mk 1 0 0#32 Op.stat.toWord)).setMr statFd fd)
  if !isAnswer (u.mr 0) .statRet then .ok ({ success := false, type := FileType.other.toWord, size := 0#32 }, world)
  else .ok ({ success := true, type := u.mr statRetType, size := u.mr statRetSize }, world)

def map (fd offset size : Word) : Fallible (MapResult × σ) := do
  let u := ((u.setMr 0 (MsgTag.mk 4 0 0#32 Op.map.toWord)).setMr mapFd fd).setMr mapOffset offset
  let (u, world) ← ipc ((u.setMr mapSize size).setMr mapPerm Fpage.readable)
  let answerTag := u.mr 0
  if !isAnswer answerTag .mapRet || MsgTag.u answerTag != 1 || MsgTag.t answerTag != 2 then .ok ({ fpage := 0#32, addr := 0#32 }, world)
  else
    let mapItem : MapItem := { first := u.mr mapRetMapItem, second := u.mr (mapRetMapItem + 1) }
    .ok ({ fpage := mapItem.sndFpage, addr := u.mr mapRetAddr }, world)

end Client

end BradypOS.Vfs
