import Mathlib.Data.BitVec
import Mathlib.Tactic

/-!
# L4 words

The data formats of `include/l4` that the kernel reads: thread ids, relative times,
message tags, typed items and IPC error words, all packed into 32-bit words.
-/

namespace BradypOS

abbrev Word := BitVec 32

namespace L4

/-! ### Thread ids (`l4/thread.h`) -/

def nilThread : Word := 0#32
def anyThread : Word := 0xFFFFFFFF#32
def anyLocalThread : Word := 0xFFFFFFB0#32

def systemThreadStart : Word := 0x30#32
def userThreadStart : Word := 0x40#32

def globalId (number version : Word) : Word := (number <<< 14) ||| version

def version (tid : Word) : Word := tid &&& 0x7FFF#32

def threadNo (tid : Word) : Word := tid >>> 14

def sameThreads (lhs rhs : Word) : Bool := threadNo lhs == threadNo rhs

def isNilThread (tid : Word) : Bool := tid == nilThread

def isLocalId (tid : Word) : Bool := (tid &&& 0x7F#32) == 0#32

@[simp] theorem sameThreads_iff {lhs rhs : Word} :
    sameThreads lhs rhs = true ↔ threadNo lhs = threadNo rhs := by
  simp [sameThreads]

@[simp] theorem isNilThread_iff {tid : Word} : isNilThread tid = true ↔ tid = nilThread := by
  simp [isNilThread]

/-! ### Times (`l4/time.h`, `lib/l4/schedule.c`) -/

/-- `L4_time_t`: mantissa in bits 0-9, exponent in bits 10-14, `point` in bit 15. -/
abbrev Time := BitVec 16

namespace Time

def m (time : Time) : Word := (time &&& 0x3FF#16).zeroExtend 32
def e (time : Time) : Nat := ((time >>> 10) &&& 0x1F#16).toNat
def point (time : Time) : Bool := time.getLsbD 15

def never : Time := 0#16
/-- `L4_zero_time`: mantissa 0, exponent 1. -/
def zero : Time := 0x400#16

/-- `adj_fix_value`: the 10-bit mantissa promotes to a signed `int`, so the right shift is arithmetic. -/
def adjFixValue (time : Time) (exp : Nat) : Word := (time.m <<< 22).sshiftRight (exp - time.e)

def isEqual (lhs rhs : Time) : Bool :=
  let exp := max lhs.e rhs.e
  adjFixValue lhs exp == adjFixValue rhs exp

/-- The ticks a relative timeout adds to the clock, in the signed arithmetic of `set_thread_timeout`. -/
def ticks (time : Time) : Word := (time.m <<< time.e).sdiv 10#32

end Time

def sendTimeout (timeouts : Word) : Time := (timeouts >>> 16).truncate 16
def recvTimeout (timeouts : Word) : Time := (timeouts &&& 0x1FFFF#32).truncate 16

/-! ### Messages (`l4/ipc.h`) -/

def mrCount : Nat := 16
def brCount : Nat := 8

namespace MsgTag

def u (raw : Word) : Nat := (raw &&& 0x3F#32).toNat
def t (raw : Word) : Nat := ((raw >>> 6) &&& 0x3F#32).toNat
def flags (raw : Word) : Word := (raw >>> 12) &&& 0xF#32
def label (raw : Word) : Word := raw >>> 16

/-- A tag from its bit fields; each field keeps only its own width. -/
def mk (u t : Nat) (flags label : Word) : Word :=
  (BitVec.ofNat 32 u &&& 0x3F#32) ||| ((BitVec.ofNat 32 t &&& 0x3F#32) <<< 6) |||
    ((flags &&& 0xF#32) <<< 12) ||| ((label &&& 0xFFFF#32) <<< 16)

/-- `flags |= 1 << L4_msg_tag_flag_error_indicator`. -/
def setError (raw : Word) : Word := raw ||| (1#32 <<< 15)

end MsgTag

/-- The 3-bit type field of a typed item. -/
inductive ItemType where
  | stringItem | mapItem | grantItem | ctrlXferItem | other
  deriving DecidableEq, Repr

namespace Item

def type (raw : Word) : ItemType :=
  match ((raw >>> 1) &&& 7#32).toNat with
  | 0 => .stringItem
  | 4 => .mapItem
  | 5 => .grantItem
  | 6 => .ctrlXferItem
  | _ => .other

/-- `compound` and `length` of a simple string item's first word. -/
def compound (raw : Word) : Bool := raw.getLsbD 9
def length (raw : Word) : Nat := (raw >>> 10).toNat

end Item

/-- Bit `s` of an acceptor word. -/
def acceptsStrings (acceptor : Word) : Bool := acceptor.getLsbD 0

inductive IpcErrorCode where
  | none | timeout | nonexistentPartner | canceled | messageOverflow
  | xferTimeoutInvoker | xferTimeoutPartner | aborted
  deriving DecidableEq, Repr

def IpcErrorCode.toWord : IpcErrorCode → Word
  | .none => 0#32
  | .timeout => 1#32
  | .nonexistentPartner => 2#32
  | .canceled => 3#32
  | .messageOverflow => 4#32
  | .xferTimeoutInvoker => 5#32
  | .xferTimeoutPartner => 6#32
  | .aborted => 7#32

/-- `L4_ipc_error_t` with offset 0; `p` is set for the receive phase. -/
def ipcError (p : Bool) (err : IpcErrorCode) : Word :=
  (if p then 1#32 else 0#32) ||| (err.toWord <<< 1)

/-! ### Flexpages (`l4/fpage.h`, `l4/space.h`) -/

namespace Fpage

def perm (raw : Word) : Word := raw &&& 0xF#32
def s (raw : Word) : Nat := ((raw >>> 4) &&& 0x3F#32).toNat
def b (raw : Word) : Word := raw >>> 10

def address (raw : Word) : Word := b raw <<< 9
/-- `1 << (fpage.s + 9)` on the 32-bit machine word. -/
def size (raw : Word) : Word := 1#32 <<< (s raw + 9)

def sizeLog2 (raw : Word) : Nat := s raw + 9

/-- `L4_fpage_log2`. -/
def log2 (base : Word) (sizeLog2 : Nat) : Word :=
  ((BitVec.ofNat 32 (sizeLog2 - 9) &&& 0x3F#32) <<< 4) ||| ((base >>> 9) <<< 10)

def addRights (raw rights : Word) : Word := raw ||| (rights &&& 0xF#32)

def readable : Word := 4#32

end Fpage

inductive ErrorCode where
  | noPrivilege | invalidThread | invalidSpace | invalidScheduler | invalidParameter
  | utcbArea | kipArea | noMemory
  deriving DecidableEq, Repr

def ErrorCode.toWord : ErrorCode → Word
  | .noPrivilege => 1#32
  | .invalidThread => 2#32
  | .invalidSpace => 3#32
  | .invalidScheduler => 4#32
  | .invalidParameter => 5#32
  | .utcbArea => 6#32
  | .kipArea => 7#32
  | .noMemory => 8#32

/-- `enum L4_syscall_nr`. -/
inductive Syscall where
  | kernelInterface | spaceControl | threadControl | processorControl | memoryControl | ipc | lipc
  | unmap | exchangeRegisters | systemClock | threadSwitch | schedule
  deriving DecidableEq, Repr

/-- The system call a register value names, if any. -/
def Syscall.ofWord (w : Word) : Option Syscall :=
  match w.toNat with
  | 0 => some .kernelInterface
  | 1 => some .spaceControl
  | 2 => some .threadControl
  | 3 => some .processorControl
  | 4 => some .memoryControl
  | 5 => some .ipc
  | 6 => some .lipc
  | 7 => some .unmap
  | 8 => some .exchangeRegisters
  | 9 => some .systemClock
  | 10 => some .threadSwitch
  | 11 => some .schedule
  | _ => none

end L4
end BradypOS
