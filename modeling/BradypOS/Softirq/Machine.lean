import BradypOS.Alarm.Systick

/-!
# The soft interrupt, preempted (`kern/softirq.c`, `kern/systhread.c`)

Between two steps of its loop the kernel thread can lose the processor: `softirq_execute` reads the
pending mask, runs `softirq_svc`, and clears the handled bit with interrupts disabled; `kern_task`
yields behind it. `Softirq` is the kernel with the place that the loop has come to and a record of the
trapped calls.
-/

namespace BradypOS

open L4 Kernel

/-- The next step of the kernel thread, with `softirq_pending_buf`. -/
inductive Phase where
  | fetch
  | handle (pending : Bool)
  | clear (pending : Bool)
  | yield
  deriving DecidableEq

/-- What became of a trapped call. -/
inductive Call where
  | trapped (t : Nat)
  /-- `softirq_svc` ran for `caller`. -/
  | handled (caller : Nat)
  | finished
  deriving DecidableEq

structure Softirq where
  kernel : Kernel
  phase : Phase
  /-- The last call first. -/
  calls : List Call

inductive Softirq.Action where
  | user (cpu : Context) (mem : Memory)
  | svc
  | systick
  | pendsv
  | fetch
  | handle (fuel : Nat)
  | clear
  | yield

namespace Softirq

/-- The kernel thread at work. -/
def Action.works : Action → Bool
  | .fetch | .handle _ | .clear | .yield => true
  | _ => false

/-- A trap that is handed to the kernel thread. -/
def Deferred (k : Kernel) : Prop :=
  Syscall.ofWord k.cpu.r7 ≠ some .threadSwitch ∧ Syscall.ofWord k.cpu.r7 ≠ some .systemClock

/-- A tick at which nothing but the end of the time slice is due. -/
def RescheduleTick (k : Kernel) : Prop :=
  ∀ ev, Alarms.Due k.ticked.alarms ev → (k.ticked.alarms.event ev).type = .reschedule

def Enabled (s : Softirq) : Action → Prop
  | .user _ _ => s.kernel.InUserThread
  | .svc => s.kernel.InUserThread ∧ Deferred s.kernel
  | .systick => RescheduleTick s.kernel
  | .pendsv => s.kernel.pendsv = true
  | .fetch => s.kernel.InKernelThread ∧ s.phase = .fetch
  | .handle _ => s.kernel.InKernelThread ∧ ∃ pending, s.phase = .handle pending
  | .clear => s.kernel.InKernelThread ∧ ∃ pending, s.phase = .clear pending
  | .yield => s.kernel.InKernelThread ∧ s.phase = .yield

/-- The call through `softirq_func` when the bit was set. -/
def handle (s : Softirq) (fuel : Nat) (pending : Bool) : Fallible Softirq :=
  if pending then do
    let k ← softirqSvc fuel s.kernel
    .ok { kernel := k, phase := .clear pending, calls := .handled s.kernel.caller :: s.calls }
  else .ok { s with phase := .clear pending }

/-- `softirq_pending &= ~softirq_pending_buf`, with interrupts disabled; a bit that came in goes round again. -/
def clear (s : Softirq) (pending : Bool) : Softirq :=
  let k := s.kernel.setPending (s.kernel.softirqPending && !pending)
  let calls := if pending then .finished :: s.calls else s.calls
  if k.softirqPending then { kernel := k, phase := .fetch, calls }
  else { kernel := k.setThreadState kernTcb .inactive, phase := .yield, calls }

def effect (s : Softirq) : Action → Fallible Softirq
  | .user cpu mem => .ok { s with kernel := (s.kernel.setCpu cpu).setMem mem }
  | .svc => do
    let k ← s.kernel.isrSvcall
    .ok { s with kernel := k, calls := .trapped s.kernel.currentThreadIdx :: s.calls }
  | .systick => do
    let k ← s.kernel.isrSystick
    .ok { s with kernel := k }
  | .pendsv => do
    let k ← s.kernel.switchContext
    .ok { s with kernel := k }
  | .fetch => .ok { s with phase := .handle s.kernel.softirqPending }
  | .handle fuel =>
    match s.phase with
    | .handle pending => s.handle fuel pending
    | _ => .ok s
  | .clear =>
    match s.phase with
    | .clear pending => .ok (s.clear pending)
    | _ => .ok s
  | .yield => do
    let k ← s.kernel.threadSwitch kernTcb nilThread
    .ok { s with kernel := k, phase := .fetch }

def Step (s : Softirq) (a : Action) (s' : Softirq) : Prop := s.Enabled a ∧ s.effect a = .ok s'

/-- The kernel thread has not run yet. -/
def start (k : Kernel) : Softirq := { kernel := k, phase := .fetch, calls := [] }

/-- The bit that was handled is the only one, so the thread goes inactive unless a trap set it again. -/
theorem clear_idle {s : Softirq} {pending : Bool} (idle : (s.kernel.softirqPending && !pending) = false) :
    s.clear pending =
      { kernel := (s.kernel.setPending false).setThreadState kernTcb .inactive, phase := .yield
        calls := if pending then .finished :: s.calls else s.calls } := by
  unfold clear
  rw [idle]
  rfl

/-- Without preemption, the three steps are one call of `softirq_execute`. -/
theorem execute_of_steps {s₀ s₁ s₂ s₃ : Softirq} {fuel : Nat} (fetched : Step s₀ .fetch s₁) (handled : Step s₁ (.handle fuel) s₂)
    (cleared : Step s₂ .clear s₃) : softirqExecute fuel s₀.kernel = .ok s₃.kernel ∧ s₃.phase = .yield := by
  obtain ⟨_, h⟩ := fetched
  cases h
  obtain ⟨_, h⟩ := handled
  obtain ⟨_, h'⟩ := cleared
  have h : Softirq.handle { s₀ with phase := .handle s₀.kernel.softirqPending } fuel s₀.kernel.softirqPending = .ok s₂ := h
  unfold Softirq.handle at h
  unfold softirqExecute
  cases pending : s₀.kernel.softirqPending with
  | false =>
    rw [pending] at h
    cases h
    have h' : Except.ok (Softirq.clear _ false) = Except.ok s₃ := h'
    rw [clear_idle (by rw [pending]; rfl)] at h'
    cases h'
    exact ⟨rfl, rfl⟩
  | true =>
    rw [pending] at h
    obtain ⟨k, served, h⟩ := bind_ok h
    cases h
    have h' : Except.ok (Softirq.clear _ true) = Except.ok s₃ := h'
    rw [clear_idle (Bool.and_false _)] at h'
    cases h'
    rw [if_pos rfl, served]
    exact ⟨rfl, rfl⟩

end Softirq
end BradypOS
