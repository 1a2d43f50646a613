import BradypOS.Service.Message

/-!
# ROMFS images (`lib/romfs/romfs.c`)

An image is read through the interface of its block device. A directory is a list of headers, each
with the offset of the next one; a walk that goes round in a circle does not end.
-/

namespace BradypOS.Romfs

/-- `struct romfs_block_iface`: the bytes from an offset on, if `map` succeeds. -/
structure BlockIface where
  map : Word → Nat → Option (Nat → Byte)

/-- `ROMFS_INVALID_FILE`. -/
def invalidFile : Word := 0#32

/-- `enum romfs_file_type`. -/
inductive FileType where
  | hardLink | directory | regularFile | symbolicLink | blockDevice | charDevice | socket | fifo
  deriving DecidableEq, Repr

/-- The type in the low three bits of a header. -/
def FileType.ofWord (w : Word) : FileType :=
  match (w &&& 7#32).toNat with
  | 0 => .hardLink
  | 1 => .directory
  | 2 => .regularFile
  | 3 => .symbolicLink
  | 4 => .blockDevice
  | 5 => .charDevice
  | 6 => .socket
  | _ => .fifo

/-- `struct romfs_file_info`. -/
structure FileInfo where
  type : FileType
  executable : Bool
  info : Word
  size : Word
  name : Fin 16 → Byte

def readBigEndian (data : Nat → Byte) : Word :=
  ((data 0).zeroExtend 32 <<< 24) ||| ((data 1).zeroExtend 32 <<< 16) ||| ((data 2).zeroExtend 32 <<< 8) |||
    (data 3).zeroExtend 32

def romfsFileInfo (iface : BlockIface) (file : Word) : Option FileInfo := do
  let data ← iface.map file 32
  let nextFileHdr := readBigEndian data
  some {
    type := FileType.ofWord nextFileHdr
    executable := nextFileHdr &&& 8#32 ≠ 0#32
    info := readBigEndian fun i => data (4 + i)
    size := readBigEndian fun i => data (8 + i)
    name := fun i => data (16 + i) }

def romfsRootDirectory : Word := 32#32

def romfsFileContentOffset (fileHandle : Word) : Word := fileHandle + 32#32

def romfsNextFile (iface : BlockIface) (file : Word) : Word :=
  match iface.map file 16 with
  | none => invalidFile
  | some data => readBigEndian data &&& ~~~15#32

/-- `strcmp` with a string that ends behind the bytes of `rhs`. -/
def strcmp (lhs : Nat → Byte) : List Byte → Int
  | [] => (lhs 0).toNat
  | c :: rhs =>
    let diff : Int := (lhs 0).toNat - c.toNat
    if lhs 0 = 0#8 ∨ diff ≠ 0 then diff else strcmp (fun i => lhs (i + 1)) rhs

/-- What `file_info.name` points to: the name has no terminator of its own, so that `behind` follows it. -/
def FileInfo.nameString (info : FileInfo) (behind : Nat → Byte) (i : Nat) : Byte :=
  if h : i < 16 then info.name ⟨i, h⟩ else behind (i - 16)

/-- Every offset but the first is a multiple of 16, so that a longer walk goes round in a circle. -/
def walkBound : Nat := 2 ^ 28 + 2

def romfsOpenatLoop (iface : BlockIface) (behind : Nat → Byte) (name : List Byte) : Nat → Word → Fallible Word
  | 0, _ => .error .hang
  | fuel + 1, currentFile =>
    if currentFile = invalidFile then .ok invalidFile
    else
      match romfsFileInfo iface currentFile with
      | none => romfsOpenatLoop iface behind name fuel (romfsNextFile iface currentFile)
      | some fileInfo =>
        if strcmp (fileInfo.nameString behind) name = 0 then .ok currentFile
        else romfsOpenatLoop iface behind name fuel (romfsNextFile iface currentFile)

def romfsOpenat (iface : BlockIface) (behind : Nat → Byte) (file : Word) (name : List Byte) : Fallible Word :=
  match romfsFileInfo iface file with
  | none => .ok invalidFile
  | some fileInfo =>
    if fileInfo.type ≠ .directory then .ok invalidFile
    else romfsOpenatLoop iface behind name walkBound fileInfo.info

end BradypOS.Romfs
