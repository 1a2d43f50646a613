import BradypOS.Heap.Root
import BradypOS.Thread.Preempted
import BradypOS.Ipc.Rendezvous
import BradypOS.Ipc.Delivery
import BradypOS.Ipc.Start
import BradypOS.Ipc.Local
import BradypOS.Ipc.Intact
import BradypOS.Ipc.Bytes
import BradypOS.Scheduler.Membership
import BradypOS.Scheduler.Wins
import BradypOS.L4.Types
import BradypOS.Syscall.Returns
import BradypOS.Boot.PagePool
import BradypOS.Scheduler.Overlay
import BradypOS.Space.Lists
import BradypOS.Ipc.Nesting
import BradypOS.Softirq.Once
import BradypOS.Alarm.Queue
import BradypOS.Alarm.Wrap
import BradypOS.Terminal.Protocol
import BradypOS.Romfs.Replies
import BradypOS.Romfs.EndToEnd
import BradypOS.Elf.Relocated
import BradypOS.Thread.Ids
import BradypOS.Ipc.Answer
import BradypOS.Heap.Insert
import BradypOS.Heap.Accesses
import BradypOS.Scheduler.Reprioritise
import BradypOS.Scheduler.Rounds
import BradypOS.Ipc.Window
import BradypOS.Syscall.Finishes
import BradypOS.Syscall.UtcbArea
import BradypOS.Space.Area
import BradypOS.Pages.FirstFit
import BradypOS.Root.GivenBack
import BradypOS.Root.GrantReply
import BradypOS.Romfs.Mapping
import BradypOS.Romfs.Slots
import BradypOS.Romfs.PathBuffer
import BradypOS.Romfs.Walk
import BradypOS.Romfs.Lookup
import BradypOS.Terminal.Ring
import BradypOS.Bsh.Readline
import BradypOS.Elf.Rewrites
import BradypOS.Elf.Symbols
import BradypOS.Root.Leaked
import BradypOS.Root.InittabLines
import BradypOS.Root.InittabBounds
import BradypOS.L4.Items
import BradypOS.Strings.Memmove
import BradypOS.Bsh.TermWrite
import BradypOS.Root.Registry
import BradypOS.Thread.Rounds
import BradypOS.Ipc.Deadlock
import BradypOS.Bsh.Main
import BradypOS.Thread.Processors
import BradypOS.Ipc.Servers
import BradypOS.Printf.Buffer
import BradypOS.Boot.Records
import BradypOS.Space.Exhaustion
import BradypOS.Bsh.Greeting
import BradypOS.Root.Naming
