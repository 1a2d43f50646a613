import BradypOS.Scheduler.Escalation

/-!
# UTCBs that lie in the kernel's data

`thread_control` takes any UTCB location for a thread that is its own space specifier. The stores of later calls to that
UTCB then change whatever lies there. `schedule` and `thread_control` are followed here store by store, over a layout in which
the kernel has its data somewhere in memory; of this data the words of the TCBs are known.
-/

namespace BradypOS

open L4

/-- `sizeof(struct tcb_t)`. -/
def tcbSize : Nat := 104

/-- Where the kernel has its data, and `tcb_store` in it. -/
structure Layout where
  data : Word
  size : Nat
  tcbStore : Nat
  inside : tcbStore + maxThreads * tcbSize ≤ size

/-- A word stored into a TCB, if it falls on one of the fields that are words here. -/
def Tcb.store (tcb : Tcb) (w : Word) : Nat → Option Tcb
  | 0 => some { tcb with globalId := w }
  | 4 => some { tcb with localId := w }
  | 12 => some { tcb with ctx := { tcb.ctx with sp := w } }
  | 16 => some { tcb with ctx := { tcb.ctx with ret := w } }
  | 20 => some { tcb with ctx := { tcb.ctx with r8 := w } }
  | 24 => some { tcb with ctx := { tcb.ctx with r9 := w } }
  | 28 => some { tcb with ctx := { tcb.ctx with r10 := w } }
  | 32 => some { tcb with ctx := { tcb.ctx with r11 := w } }
  | 36 => some { tcb with ctx := { tcb.ctx with r4 := w } }
  | 40 => some { tcb with ctx := { tcb.ctx with r5 := w } }
  | 44 => some { tcb with ctx := { tcb.ctx with r6 := w } }
  | 48 => some { tcb with ctx := { tcb.ctx with r7 := w } }
  | 56 => some { tcb with utcb := w }
  | 60 => some { tcb with priority := w }
  | 64 => some { tcb with pager := w }
  | 68 => some { tcb with scheduler := w }
  | 72 => some { tcb with ipcFrom := w }
  | _ => none

namespace Layout

/-- How far behind the beginning of the kernel's data an address is. -/
def offset (L : Layout) (a : Word) : Nat := (a - L.data).toNat

/-- The `n` bytes at an address lie outside of the kernel's data. -/
def Outside (L : Layout) (a : Word) (n : Nat) : Prop := ∀ i < n, L.size ≤ L.offset (a + BitVec.ofNat 32 i)

instance (L : Layout) (a : Word) (n : Nat) : Decidable (L.Outside a n) := inferInstanceAs (Decidable (∀ i < n, _))

end Layout

namespace Kernel

variable {L : Layout} {k k' : Kernel} {t : Nat} {a w p : Word}

/-- The bytes of an area that begin at one of its offsets. -/
theorem Outside.at {n i m : Nat} (clear : L.Outside p n) (within : i + m ≤ n) : L.Outside (p + BitVec.ofNat 32 i) m := by
  intro j less
  have here := clear (i + j) (by omega)
  rwa [BitVec.ofNat_add, ← BitVec.add_assoc] at here

/-! ### The stores of the two calls -/

/-- The words of a UTCB that these calls store. -/
def utcbHead : Nat := 28

/-- What a pending `schedule` or `thread_control` stores to UTCBs and to its caller's frame is outside of the kernel's data. -/
structure StoresApart (L : Layout) (k : Kernel) : Prop where
  caller : L.Outside (k.tcbs k.caller).utcb utcbHead
  frame : L.Outside (k.tcbs k.caller).ctx.sp 8
  dest : ∀ t, k.findThreadByGlobalId k.callerFrame.r0 = some t → L.Outside (k.tcbs t).utcb utcbHead ∧
    (k.pendingCall = some .threadControl → L.Outside (k.tcbs k.caller).ctx.r4 utcbHead)

/-- In a step that serves one of the two calls the UTCBs lie outside of the kernel's data. -/
def Apart (L : Layout) (k : Kernel) : Action → Prop
  | .softirq _ => k.softirqPending = true → k.pendingCall = some .schedule ∨ k.pendingCall = some .threadControl → k.StoresApart L
  | _ => True

instance (L : Layout) (k : Kernel) : Decidable (k.StoresApart L) :=
  decidable_of_iff (L.Outside (k.tcbs k.caller).utcb utcbHead ∧ L.Outside (k.tcbs k.caller).ctx.sp 8 ∧
      ∀ t ∈ k.findThreadByGlobalId k.callerFrame.r0, L.Outside (k.tcbs t).utcb utcbHead ∧
        (k.pendingCall = some .threadControl → L.Outside (k.tcbs k.caller).ctx.r4 utcbHead))
    ⟨fun h => ⟨h.1, h.2.1, h.2.2⟩, fun h => ⟨h.caller, h.frame, h.dest⟩⟩

instance (L : Layout) (k : Kernel) : (a : Action) → Decidable (k.Apart L a)
  | .softirq _ => inferInstanceAs (Decidable (_ = true → _ ∨ _ → k.StoresApart L))
  | .user _ _ | .svc | .systick | .pendsv | .yield | .hardfault _ => inferInstanceAs (Decidable True)

end Kernel
end BradypOS
