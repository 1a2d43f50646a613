import BradypOS.Terminal.Pl011

/-!
# The semihosting terminal server (`usr/shterm/shterm.c`)

The debug host reads and writes on behalf of the target. `SYS_READ` and `SYS_WRITE` answer with the
number of bytes that were not transferred.
-/

namespace BradypOS.Terminal

open L4

/-- What the host delivers to a read of at most `len` bytes, and how much of a string it takes. -/
structure Host where
  read : Word → List Byte
  read_le : ∀ len, (read len).length ≤ len.toNat
  write : List Byte → Nat
  write_le : ∀ bytes, write bytes ≤ bytes.length

namespace Host

/-- `sh_read`, with the bytes that were stored at its buffer. -/
def shRead (host : Host) (len : Word) : List Byte × Word := (host.read len, len - BitVec.ofNat 32 (host.read len).length)

def shWrite (host : Host) (bytes : List Byte) : Word := BitVec.ofNat 32 bytes.length - BitVec.ofNat 32 (host.write bytes)

/-- The result has the bytes that were stored into `ipc_buffer`, which is at `ipcBuffer`. -/
def handleRead (host : Host) (u : Utcb) (tag ipcBuffer : Word) : List Byte × Utcb :=
  if MsgTag.u tag ≠ 2 ∨ MsgTag.t tag ≠ 0 then ([], u.makeIpcError termError .einval)
  else
    let len := u.mr termReadSize
    let (bytes, ret) := host.shRead len
    (bytes, readAnswer u (len - ret) ipcBuffer)

def handleWrite (host : Host) (u : Utcb) (mem : Word → Byte) (tag : Word) : Utcb :=
  if MsgTag.u tag ≠ 1 ∨ MsgTag.t tag ≠ 2 then u.makeIpcError termError .einval
  else writeAnswer u (host.shWrite (stringAt mem (u.mr (termWriteBuf + 1)) (Item.length (u.mr termWriteBuf))))

end Host
end BradypOS.Terminal
