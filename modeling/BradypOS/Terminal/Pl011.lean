import BradypOS.Service.Message

/-!
# The PL011 terminal server (`usr/pl011/pl011.c`)

The hardware is what the driver is told: whether the transmit FIFO had room, each time `UARTFR` was
read, and the words that `UARTDR` gives until the receive FIFO is empty. `log` records the accesses.
-/

namespace BradypOS

open L4

namespace Terminal

abbrev ipcBufferSize : Nat := 128

def newline : Byte := 0x0A#8
def carriageReturn : Byte := 0x0D#8

/-- `enum term_ops`, `enum term_answer_ops` and their message registers (`include/term.h`). -/
def termReadLabel : Word := 0#32
def termWriteLabel : Word := 1#32
def termReadSize : Nat := 2
def termWriteBuf : Nat := 2
def termError : Word := 0#32
def termReadRet : Word := 1#32
def termWriteRet : Word := 2#32

/-- The answer to a read: one string item with `length` bytes of the buffer at `ptr`. -/
def readAnswer (u : Utcb) (length ptr : Word) : Utcb :=
  ((u.setMr 0 (MsgTag.mk 0 2 0#32 termReadRet)).setMr 1 (Item.simpleString length)).setMr 2 ptr

def writeAnswer (u : Utcb) (size : Word) : Utcb := (u.setMr 0 (MsgTag.mk 1 0 0#32 termWriteRet)).setMr 1 size

/-- `struct rx_ring`, with `RX_RING_CAP` places. -/
structure RxRing where
  buf : Fin ipcBufferSize → Byte
  head : Fin ipcBufferSize
  tail : Fin ipcBufferSize

namespace RxRing

def len (r : RxRing) : Nat :=
  if r.tail ≤ r.head then r.head - r.tail else ipcBufferSize - (r.tail - r.head)

/-- A full ring drops its oldest byte. -/
def push (r : RxRing) (c : Byte) : RxRing :=
  let next := r.head + 1
  let tail := if next = r.tail then r.tail + 1 else r.tail
  { buf := Function.update r.buf r.head c, head := next, tail }

def pop (r : RxRing) : Option (Byte × RxRing) :=
  if r.tail = r.head then none else some (r.buf r.tail, { r with tail := r.tail + 1 })

end RxRing

inductive UartEvent where
  /-- `uart_is_writable` gave this answer. -/
  | writable (answer : Bool)
  /-- A store to `UARTDR`. -/
  | dr (c : Byte)
  /-- A store to `UARTRSR`. -/
  | rsr (errorMask : Word)
  deriving DecidableEq

/-- The driver and the hardware it sees; the log has the last access first. -/
structure Pl011 where
  rxrb : RxRing
  pendingNl : Bool
  ipcBuffer : Nat → Byte
  answers : Nat → Bool
  asked : Nat
  received : List Word
  log : List UartEvent

namespace Pl011

def uartIsWritable (s : Pl011) : Bool × Pl011 :=
  (s.answers s.asked, { s with asked := s.asked + 1, log := .writable (s.answers s.asked) :: s.log })

def store (s : Pl011) (c : Byte) : Pl011 := { s with log := .dr c :: s.log }

/-- The loop over the bytes of the buffer; the result counts them in `written`. -/
def writeLoop : List Byte → Nat → Pl011 → Nat × Pl011
  | [], written, s => (written, s)
  | c :: rest, written, s =>
    let (room, s) := s.uartIsWritable
    if !room then (written, s)
    else if c = newline then
      let s := s.store carriageReturn
      let (room, s) := s.uartIsWritable
      if !room then (written + 1, { s with pendingNl := true })
      else writeLoop rest (written + 1) (s.store c)
    else writeLoop rest (written + 1) (s.store c)

def uartWriteNonblocking (s : Pl011) (buffer : List Byte) : Nat × Pl011 :=
  if s.pendingNl then
    let (room, s) := s.uartIsWritable
    if !room then (0, s)
    else writeLoop buffer 0 { s.store newline with pendingNl := false }
  else writeLoop buffer 0 s

/-- A received word carries its errors in bits 8 to 11. -/
def uartDrainHwRxToRing (s : Pl011) : Pl011 :=
  s.received.foldl (fun (s : Pl011) (currentChar : Word) =>
    let errorMask := (currentChar >>> 8) &&& 0xF#32
    if errorMask ≠ 0#32 then { s with log := .rsr errorMask :: s.log }
    else { s with rxrb := s.rxrb.push (currentChar.truncate 8) }) { s with received := [] }

/-- The bytes that come out of the ring. -/
def uartReadFromRing : Nat → RxRing → List Byte × RxRing
  | 0, r => ([], r)
  | len + 1, r =>
    match r.pop with
    | none => ([], r)
    | some (c, r) =>
      let (rest, r) := uartReadFromRing len r
      (c :: rest, r)

/-- The first bytes of a buffer, overwritten. -/
def fill (buffer : Nat → Byte) (bytes : List Byte) (i : Nat) : Byte := bytes.getD i (buffer i)

def handleReadImpl (s : Pl011) (len : Nat) : List Byte × Pl011 :=
  if len = 0 then ([], s)
  else
    let s := s.uartDrainHwRxToRing
    let (bytes, rxrb) := uartReadFromRing len s.rxrb
    (bytes, { s with rxrb, ipcBuffer := fill s.ipcBuffer bytes })

def handleWriteImpl (s : Pl011) (buffer : List Byte) : Nat × Pl011 :=
  if buffer = [] then (0, s) else s.uartWriteNonblocking buffer

/-- The result has the bytes that were stored into `ipc_buffer`, which is at `ipcBuffer`. -/
def handleRead (s : Pl011) (u : Utcb) (tag ipcBuffer : Word) : List Byte × Pl011 × Utcb :=
  if MsgTag.u tag ≠ 2 ∨ MsgTag.t tag ≠ 0 then ([], s, u.makeIpcError termError .einval)
  else
    let reqLen := u.mr termReadSize
    if reqLen = 0#32 then ([], s, readAnswer u 0#32 ipcBuffer)
    else
      let (bytes, s) := s.handleReadImpl reqLen.toNat
      (bytes, s, readAnswer u (BitVec.ofNat 32 bytes.length) ipcBuffer)

def handleWrite (s : Pl011) (u : Utcb) (mem : Word → Byte) (tag : Word) : Pl011 × Utcb :=
  if MsgTag.u tag ≠ 1 ∨ MsgTag.t tag ≠ 2 then (s, u.makeIpcError termError .einval)
  else
    let toWrite := min (Item.length (u.mr termWriteBuf)) ipcBufferSize
    let bytes := stringAt mem (u.mr (termWriteBuf + 1)) toWrite
    let (wrote, s) := handleWriteImpl { s with ipcBuffer := fill s.ipcBuffer bytes } bytes
    (s, writeAnswer u (BitVec.ofNat 32 wrote))

end Pl011
end Terminal
end BradypOS
