import BradypOS.Bsh.Output
import BradypOS.Romfs.Calls
import BradypOS.Romfs.Opened

/-!
# The shell's start

Before its loop the shell opens the root directory of the file system, and `startup` shows two files of `/etc`. Each call
goes through the kernel to the ROMFS server or to the PL011 driver and back.
-/

namespace BradypOS.Bsh

open L4
open Terminal (Link Session Pl011)
open Romfs (Wire Mount)

/-! ### The program -/

def rootFd : Word := 3#32
def etcFd : Word := 4#32
def motdFd : Word := 5#32
def versionFd : Word := 6#32

/-- The shell, the driver and the ROMFS server. -/
structure System where
  session : Session
  server : Romfs.Server
  utcb : Utcb

/-- The threads that the shell calls, where it has its strings, and what is on the stack of the ROMFS server. -/
structure Surroundings where
  link : Link
  romfs : Tcb
  filenameBuf : Word
  initSpaceOut : Word
  etcPath : Word
  motdPath : Word
  versionPath : Word
  stack : System → Nat → Byte

def Surroundings.wire (p : Surroundings) : Wire := { server := p.romfs, client := p.link.client, filenameBuf := p.filenameBuf }

/-- A run of the shell: it may need more rounds of a loop, and it may come to a halt. -/
abbrev Running := ExceptT Halt Option

namespace System

variable (p : Surroundings) (rounds : Nat)

def mount (s : System) : Mount := ⟨s.server, s.session.memory⟩

def afterCall (s : System) (x : Mount) : System :=
  { session := { s.session with memory := x.memory }, server := x.server, utcb := x.memory.utcb p.link.client.utcb }

/-- A function of the VFS client. -/
def ask {α : Type} (s : System) (f : (Utcb → Fallible (Utcb × Mount)) → Utcb → Fallible (α × Mount)) : Running (α × System) :=
  .mk (some ((f (s.mount.call p.wire (p.stack s)) s.utcb).map fun r => (r.1, s.afterCall p r.2)))

/-- `write_buffer`. -/
def write (s : System) (buf : Word) (size : Nat) : Running System :=
  .mk ((writePieces p.link rounds s.session s.utcb (writeBuffer buf size 0)).map
    (·.map fun r => { s with session := r.1, utcb := r.2 }))

/-- The two parts of `startup` that show a file; `false` where `startup` returns. -/
def showFile (s : System) (fd path pathlen : Word) : Running (Bool × System) := do
  let (opened, s) ← s.ask p fun ipc u => Vfs.openAt ipc u etcFd fd path pathlen
  if !opened then pure (false, s)
  else
    let (stat, s) ← s.ask p fun ipc u => Vfs.stat ipc u fd
    if !stat.success then pure (false, s)
    else
      let (res, s) ← s.ask p fun ipc u => Vfs.map ipc u fd 0#32 stat.size
      if res.addr = 0#32 then pure (false, s)
      else
        let s ← s.write p rounds res.addr stat.size.toNat
        pure (true, s)

/-- `sizeof` counts the terminator of `init_space_out`. -/
def startup (s : System) : Running System := do
  let s ← s.write p rounds p.initSpaceOut 2
  let (opened, s) ← s.ask p fun ipc u => Vfs.openAt ipc u rootFd etcFd p.etcPath 3#32
  if !opened then pure s
  else
    let (shown, s) ← s.showFile p rounds motdFd p.motdPath 8#32
    if !shown then pure s
    else
      let (_, s) ← s.ask p fun ipc u => Vfs.close ipc u motdFd
      -- Nothing closes the file with the version.
      let (shown, s) ← s.showFile p rounds versionFd p.versionPath 7#32
      if !shown then pure s
      else
        let (_, s) ← s.ask p fun ipc u => Vfs.close ipc u etcFd
        pure s

/-- `main` up to its loop, when both services are known. -/
def start (s : System) : Running System := do
  let (_, s) ← s.ask p fun ipc u => Vfs.openRootFd ipc u rootFd
  s.startup p rounds

end System

end BradypOS.Bsh
