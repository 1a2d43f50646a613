import BradypOS.Kernel.Machine

/-!
# Evaluating long runs

A kernel state that was computed holds unevaluated terms, and each step copies them. `normal` is the
identity, written so that its evaluation brings the parts of the state that later steps look at into
normal form; `SmallSystem.after` follows a run with it.
-/

namespace BradypOS

namespace Force

variable {α β : Type}

def nat (n : Nat) (f : Nat → α) : α :=
  match n with
  | 0 => f 0
  | m + 1 => f (m + 1)

@[simp] theorem nat_eq (n : Nat) (f : Nat → α) : nat n f = f n := by cases n <;> rfl

def word {w : Nat} (b : BitVec w) (f : BitVec w → α) : α := nat b.toNat fun n => f (BitVec.ofNat w n)

@[simp] theorem word_eq {w : Nat} (b : BitVec w) (f : BitVec w → α) : word b f = f b := by simp [word]

def bool (b : Bool) (f : Bool → α) : α := cond b (f true) (f false)

@[simp] theorem bool_eq (b : Bool) (f : Bool → α) : bool b f = f b := by cases b <;> rfl

def option (force : β → (β → α) → α) (o : Option β) (f : Option β → α) : α :=
  match o with
  | none => f none
  | some b => force b fun b => f (some b)

@[simp] theorem option_eq {force : β → (β → α) → α} (same : ∀ b f, force b f = f b) (o : Option β) (f : Option β → α) :
    option force o f = f o := by
  cases o with
  | none => rfl
  | some b => exact same b _

/-- The values of a function below `n`. -/
def cells (force : β → (β → α) → α) : Nat → (Nat → β) → ((Nat → β) → α) → α
  | 0, g, f => f g
  | n + 1, g, f => force (g n) fun b => cells force n g fun g => f (Function.update g n b)

@[simp] theorem cells_eq {force : β → (β → α) → α} (same : ∀ b f, force b f = f b) (n : Nat) (g : Nat → β)
    (f : (Nat → β) → α) : cells force n g f = f g := by
  induction n generalizing f with
  | zero => rfl
  | succ n ih => rw [cells, same, ih, Function.update_eq_self]

def threadState (s : ThreadState) (f : ThreadState → α) : α :=
  match s with
  | .inactive => f .inactive
  | .active => f .active
  | .runnable => f .runnable
  | .svcBlocked => f .svcBlocked
  | .recvBlocked => f .recvBlocked
  | .sendBlocked => f .sendBlocked
  | .paused => f .paused

@[simp] theorem threadState_eq (s : ThreadState) (f : ThreadState → α) : threadState s f = f s := by cases s <;> rfl

def context (c : Context) (f : Context → α) : α :=
  word c.sp fun sp => word c.ret fun ret => word c.r4 fun r4 => word c.r5 fun r5 => word c.r6 fun r6 => word c.r7 fun r7 =>
  word c.r8 fun r8 => word c.r9 fun r9 => word c.r10 fun r10 => word c.r11 fun r11 => f ⟨sp, ret, r4, r5, r6, r7, r8, r9, r10, r11⟩

@[simp] theorem context_eq (c : Context) (f : Context → α) : context c f = f c := by simp [context]

def tcb (t : Tcb) (f : Tcb → α) : α :=
  word t.globalId fun globalId => word t.localId fun localId => threadState t.state fun state =>
  context t.ctx fun ctx => option nat t.addressSpace fun addressSpace => word t.utcb fun utcb =>
  word t.priority fun priority => word t.pager fun pager => word t.scheduler fun scheduler =>
  word t.ipcFrom fun ipcFrom => option nat t.nextSibling fun nextSibling =>
  option nat t.prevSibling fun prevSibling =>
    f ⟨globalId, localId, state, ctx, addressSpace, utcb, priority, pager, scheduler, ipcFrom, nextSibling, prevSibling⟩

@[simp] theorem tcb_eq (t : Tcb) (f : Tcb → α) : tcb t f = f t := by simp [tcb]

def eventRef (e : EventRef) (f : EventRef → α) : α :=
  match e with
  | .reschedule => f .reschedule
  | .kevent t => nat t fun t => f (.kevent t)

@[simp] theorem eventRef_eq (e : EventRef) (f : EventRef → α) : eventRef e f = f e := by cases e <;> simp [eventRef]

def event (e : KalarmEvent) (f : KalarmEvent → α) : α :=
  word e.when fun time => word e.data fun data => option eventRef e.prev fun prev => option eventRef e.next fun next =>
    match e.type with
    | .reschedule => f ⟨time, .reschedule, data, prev, next⟩
    | .unpause => f ⟨time, .unpause, data, prev, next⟩
    | .timeout => f ⟨time, .timeout, data, prev, next⟩

@[simp] theorem event_eq (e : KalarmEvent) (f : KalarmEvent → α) : event e f = f e := by
  obtain ⟨time, type, data, prev, next⟩ := e
  cases type <;> simp [event]

def alarms (a : Alarms) (f : Alarms → α) : α :=
  option eventRef a.nextEvent fun nextEvent => word a.currentTime fun currentTime =>
  event (a.event .reschedule) fun reschedule => cells event 6 (fun t => a.event (.kevent t)) fun kevent =>
    f ⟨nextEvent, currentTime, fun | .reschedule => reschedule | .kevent t => kevent t⟩

@[simp] theorem alarms_eq (a : Alarms) (f : Alarms → α) : alarms a f = f a := by
  have split : (fun | .reschedule => a.event .reschedule | .kevent t => a.event (.kevent t)) = a.event := by
    funext e
    cases e <;> rfl
  simp only [alarms, option_eq eventRef_eq, word_eq, event_eq, cells_eq event_eq, split]

end Force

namespace Kernel

/-- The first six slots and every scalar of the state, evaluated. -/
def normal (k : Kernel) : Kernel :=
  Force.cells Force.tcb 6 k.tcbs fun tcbs => Force.cells Force.bool 6 k.allocated fun allocated =>
  Force.nat k.threadCount fun threadCount => Force.cells Force.nat 7 k.threadList fun threadList =>
  Force.nat k.schedule.size fun size => Force.cells Force.nat 6 k.schedule.data fun data =>
  Force.nat k.currentThreadIdx fun currentThreadIdx => Force.option Force.nat k.scheduleTarget fun scheduleTarget =>
  Force.bool k.pendsv fun pendsv => Force.alarms k.alarms fun alarms => Force.nat k.caller fun caller =>
  Force.bool k.softirqPending fun softirqPending => Force.context k.cpu fun cpu =>
    { k with
      tcbs, allocated, threadCount, threadList, currentThreadIdx, scheduleTarget, pendsv, alarms, caller, softirqPending, cpu
      schedule := ⟨size, data⟩ }

@[simp] theorem normal_eq (k : Kernel) : k.normal = k := by
  simp only [normal, Force.cells_eq Force.tcb_eq, Force.cells_eq Force.bool_eq, Force.cells_eq Force.nat_eq,
    Force.option_eq Force.nat_eq, Force.nat_eq, Force.bool_eq, Force.alarms_eq, Force.context_eq]

end Kernel

namespace SmallSystem

open Kernel

/-- The state that a run from boot ends in. -/
def after (fs : List (Kernel → Kernel.Action)) : Option Kernel :=
  (boot bootInfo).toOption.bind fun b => Theory.follow (fun k a => (next k a).map normal) b.normal fs

theorem reached_after {fs : List (Kernel → Kernel.Action)} {p : Kernel → Bool} (h : (after fs).any p = true) :
    ∃ b k as, boot bootInfo = .ok b ∧ Theory.Run Step b as k ∧ after fs = some k ∧ p k = true := by
  obtain ⟨k, found, holds⟩ := (Option.any_eq_true _ _).mp h
  obtain ⟨b, booted, ran⟩ := Option.bind_eq_some_iff.mp found
  have sound : ∀ s a t, (next s a).map normal = some t → Step s a t := by
    intro s a t h
    obtain ⟨u, taken, rfl⟩ := Option.map_eq_some_iff.mp h
    rw [normal_eq]
    exact step_of_next s a u taken
  rw [normal_eq] at ran
  obtain ⟨as, run⟩ := Theory.run_of_follow sound ran
  exact ⟨b, k, as, ok_of_toOption booted, run, found, holds⟩

end SmallSystem
end BradypOS
