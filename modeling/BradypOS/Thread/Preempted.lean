import BradypOS.Thread.Presence

/-!
# Deleted threads never run again

The kernel thread runs `delete_thread` with interrupts enabled, so ticks and context switches can come between its steps. In every
run from boot whose steps respect the deleted threads and the one that is being deleted, a thread that was deleted is neither put
into the heap nor chosen before its slot is handed out again. A hard fault of a runnable thread does not respect it, and neither
does a tick that wakes a thread behind the first step of its deletion.
-/

namespace BradypOS

open L4 Kernel

/-- The next step of `delete_thread`. -/
inductive Deletion.Place where
  /-- The thread was runnable, and is looked for in the heap. -/
  | search
  /-- It was found in the heap. -/
  | remove (heapIdx : Nat)
  | unlist
  | free
  deriving DecidableEq

/-- A call of `delete_thread` that has not returned, with the stack pointer that `syscall_thread_control` read. -/
structure Deletion where
  thread : Nat
  sp : Word
  place : Deletion.Place

/-- The call of `delete_thread` that the pending system call makes. -/
def Kernel.deletion (k : Kernel) : Option Deletion :=
  if UserDest k.callerFrame.r0 then
    k.deletes.bind fun d =>
      if d = rootTcb then none
      else some { thread := d, sp := k.callerSp, place := if k.state d = .runnable then .search else .unlist }
  else none

structure Preempted where
  kernel : Kernel
  deletion : Option Deletion

inductive Preempted.Action where
  /-- A step of the machine, a whole pass of the kernel thread among them. -/
  | step (a : Kernel.Action)
  /-- The kernel thread comes to `delete_thread`. -/
  | enter
  /-- The next step of `delete_thread`; behind the last one, the rest of `softirq_execute`. -/
  | advance

namespace Preempted

variable {k k' : Kernel} {s s' : Preempted} {del : Deletion}

/-- The steps that the kernel thread takes itself. -/
def ownStep : Kernel.Action → Bool
  | .softirq _ | .yield => true
  | _ => false

def Enabled (s : Preempted) : Action → Prop
  | .step a => s.kernel.Enabled a ∧ (s.deletion.isSome → ownStep a = false)
  | .enter => s.kernel.InKernelThread ∧ s.deletion = none ∧ s.kernel.softirqPending = true ∧ s.kernel.deletion.isSome
  | .advance => s.kernel.InKernelThread ∧ s.deletion.isSome

/-- What is left of `softirq_execute` behind the last step of `delete_thread`. -/
def finish (k : Kernel) (del : Deletion) : Kernel :=
  let k := ((k.unlinkSiblings del.thread).freeTcb del.thread).log (.deleted del.thread)
  let k := k.setFrame del.sp fun f => { f with r0 := 1#32 }
  let k := if del.thread = k.caller then k else k.unblockCaller
  (k.setPending false).setThreadState kernTcb .inactive

def advance (k : Kernel) (del : Deletion) : Fallible Preempted :=
  match del.place with
  | .search =>
    match k.findIdxInHeap del.thread with
    | some heapIdx => .ok ⟨k, some { del with place := .remove heapIdx }⟩
    | none => .ok ⟨k, some { del with place := .unlist }⟩
  | .remove heapIdx => .ok ⟨k.scheduleDelete heapIdx, some { del with place := .unlist }⟩
  | .unlist => do
    let k ← k.threadListDelete (k.tcbs del.thread).globalId
    .ok ⟨k, some { del with place := .free }⟩
  | .free => .ok ⟨finish k del, none⟩

def effect (s : Preempted) : Action → Fallible Preempted
  | .step a => do
    let k ← s.kernel.effect a
    .ok { s with kernel := k }
  | .enter => .ok { s with deletion := s.kernel.deletion }
  | .advance =>
    match s.deletion with
    | none => .ok s
    | some del => advance s.kernel del

def Step (s : Preempted) (a : Action) (s' : Preempted) : Prop := s.Enabled a ∧ s.effect a = .ok s'

/-- A run of the machine is a run with no deletion interrupted. -/
theorem run_of_kernel {as : List Kernel.Action} (run : Theory.Run Kernel.Step k as k') :
    Theory.Run Step ⟨k, none⟩ (as.map .step) ⟨k', none⟩ := by
  induction run with
  | nil k => exact .nil _
  | cons first _ rest =>
    refine .cons ⟨⟨first.1, fun going => by cases going⟩, ?_⟩ rest
    show (do let k ← Kernel.effect _ _; .ok _) = _
    rw [first.2]
    rfl

/-! ### Without interrupts -/

theorem advance_step {s : Preempted} (running : k.InKernelThread) (h : advance k del = .ok s) : Step ⟨k, some del⟩ .advance s :=
  ⟨⟨running, rfl⟩, h⟩

/-- The removal from the heap, where nothing comes in between. -/
theorem unschedule_run (d : Nat) (sp : Word) (running : k.InKernelThread) :
    ∃ as, Theory.Run Step ⟨k, some ⟨d, sp, if k.state d = .runnable then .search else .unlist⟩⟩ as
      ⟨k.unschedule d, some ⟨d, sp, .unlist⟩⟩ := by
  unfold unschedule
  by_cases runs : k.state d = .runnable
  · rw [if_pos runs, if_pos runs]
    unfold scheduleRemove
    cases found : k.findIdxInHeap d with
    | none =>
      have search : advance k ⟨d, sp, .search⟩ = .ok ⟨k, some ⟨d, sp, .unlist⟩⟩ := by
        unfold advance
        dsimp only
        rw [found]
      exact ⟨[.advance], .single (advance_step running search)⟩
    | some heapIdx =>
      have search : advance k ⟨d, sp, .search⟩ = .ok ⟨k, some ⟨d, sp, .remove heapIdx⟩⟩ := by
        unfold advance
        dsimp only
        rw [found]
      exact ⟨[.advance, .advance], .cons (advance_step running search) (.single (advance_step running rfl))⟩
  · rw [if_neg runs, if_neg runs]
    exact ⟨[], .nil _⟩

theorem deletion_cases (called : k.deletion = some del) :
    UserDest k.callerFrame.r0 ∧ k.deletes = some del.thread ∧ del.thread ≠ rootTcb ∧
      del = ⟨del.thread, k.callerSp, if k.state del.thread = .runnable then .search else .unlist⟩ := by
  unfold Kernel.deletion at called
  split at called
  · rename_i user
    obtain ⟨d, deletes, called⟩ := Option.bind_eq_some_iff.mp called
    split at called
    · cases called
    · rename_i other
      cases called
      exact ⟨user, deletes, other, rfl⟩
  · cases called

theorem deletes_cases {d : Nat} (h : k.deletes = some d) :
    k.pendingCall = some .threadControl ∧ sameThreads k.callerFrame.r1 nilThread ∧ k.findThreadByGlobalId k.callerFrame.r0 = some d := by
  unfold Kernel.deletes at h
  split at h
  · rename_i names
    exact ⟨names.1, names.2, h⟩
  · cases h

theorem syscallThreadControl_deletion (called : k.deletion = some del) :
    k.syscallThreadControl = k.syscallThreadControlDelete k.callerSp del.thread := by
  obtain ⟨user, deletes, _⟩ := deletion_cases called
  obtain ⟨_, nil, found⟩ := deletes_cases deletes
  have found_ : k.findThreadByGlobalId (k.mem.frame (k.tcbs k.caller).ctx.sp).r0 = some del.thread := found
  have privileged : (!isNilThread k.callerFrame.r0 && threadNo k.callerFrame.r0 < userThreadStart) = false := by
    rcases user with nil | high
    · rw [nil]
      rfl
    · rw [decide_eq_false high, Bool.and_false]
  unfold syscallThreadControl
  refine (if_neg (Bool.eq_false_iff.mp privileged)).trans ?_
  rw [found_]
  exact if_pos nil

/-- A pass of the kernel thread that calls `delete_thread` takes these steps. -/
theorem softirq_run {fuel : Nat} (called : k.deletion = some del) (pending : k.softirqPending = true)
    (step : Kernel.Step k (.softirq fuel) k') : ∃ as, Theory.Run Step ⟨k, none⟩ as ⟨k', none⟩ := by
  obtain ⟨running, h⟩ := step
  obtain ⟨_, deletes, _, place⟩ := deletion_cases called
  have enter : Step ⟨k, none⟩ .enter ⟨k, some del⟩ :=
    ⟨⟨running, rfl, pending, by rw [called]; rfl⟩, by rw [← called]; rfl⟩
  obtain ⟨k₁, served, rfl⟩ := softirqExecute_cases h
  have served : softirqSvc fuel k = .ok k₁ := by
    rcases served with served | idle
    · exact served.2
    · rw [pending] at idle
      cases idle.1
  have number : Syscall.ofWord (k.tcbs k.caller).ctx.r7 = some .threadControl := (deletes_cases deletes).1
  unfold softirqSvc at served
  rw [number] at served
  have served : k.syscallThreadControl = .ok k₁ := served
  rw [syscallThreadControl_deletion called] at served
  obtain ⟨_, _, served⟩ := bind_ok served
  obtain ⟨k₂, deleted, served⟩ := bind_ok served
  obtain ⟨k₃, listed, deleted⟩ := bind_ok deleted
  cases deleted
  cases served
  obtain ⟨schedule, removed⟩ := k.unschedule_frame del.thread
  have away : (k.unschedule del.thread).InKernelThread := by
    rw [removed]
    exact running
  have still : k₃.InKernelThread := by
    obtain ⟨_, list, same⟩ := threadListDelete_spec listed
    rw [same]
    exact away
  have unlist : advance (k.unschedule del.thread) ⟨del.thread, k.callerSp, .unlist⟩ = .ok ⟨k₃, some ⟨del.thread, k.callerSp, .free⟩⟩ := by
    unfold advance
    dsimp only
    rw [listed]
    rfl
  obtain ⟨as, first⟩ := unschedule_run del.thread k.callerSp running
  rw [← place] at first
  exact ⟨.enter :: (as ++ [.advance, .advance]),
    .cons enter (first.append (.cons (advance_step away unlist) (.single (advance_step still rfl))))⟩

/-! ### Steps that respect the deleted threads -/

/-- How often the thread may stand in the heap in front of the step. -/
def bound : Deletion.Place → Nat
  | .search | .remove _ => 1
  | .unlist | .free => 0

/-- A tick does not wake the thread that is being deleted; and where it was found in the heap but not removed yet, the heap stays
as it is. -/
def Spares (k : Kernel) (del : Deletion) : Kernel.Action → Prop
  | .systick => ∀ ev t, Alarms.Due k.ticked.alarms ev → k.wakes (k.alarms.event ev) = some t → t ≠ del.thread ∧ ∀ i, del.place ≠ .remove i
  | .pendsv => ∀ i, del.place ≠ .remove i
  | _ => True

instance (s : Preempted) : (a : Action) → Decidable (s.Enabled a)
  | .step _ => inferInstanceAs (Decidable (_ ∧ (_ → _)))
  | .enter => inferInstanceAs (Decidable (_ ∧ s.deletion = none ∧ _ ∧ _))
  | .advance => inferInstanceAs (Decidable (_ ∧ _))

/-- `Step` as a partial function. -/
def next (s : Preempted) (a : Action) : Option Preempted := if s.Enabled a then (s.effect a).toOption else none

theorem step_of_next (s : Preempted) (a : Action) (s' : Preempted) (h : next s a = some s') : Step s a s' := by
  unfold next at h
  split at h
  · rename_i enabled
    exact ⟨enabled, ok_of_toOption h⟩
  · cases h

instance (k : Kernel) (d : Nat) : Decidable (Settled.Removable k d) := inferInstanceAs (Decidable (_ ∧ (_ → _)))

/-- The last that happened: a context switch chose the thread. -/
def chosen (d : Nat) : List Event → Bool
  | .selected d' :: _ => decide (d' = d)
  | _ => false

theorem chosen_split {d : Nat} {trace : List Event} (dead : gone trace d = true) (last : chosen d trace = true) :
    ∃ later earlier, trace = later ++ .deleted d :: earlier ∧ .created d ∉ later ∧ .selected d ∈ later := by
  obtain ⟨later, earlier, rfl, unused⟩ := gone_split dead
  refine ⟨later, earlier, rfl, unused, ?_⟩
  cases later with
  | nil => cases last
  | cons e later =>
    cases e with
    | selected d' =>
      have here : d' = d := of_decide_eq_true last
      exact here ▸ List.mem_cons_self
    | _ => cases last

/-- The second thread sleeps for a tick, and the root thread deletes it. The tick comes behind the look at its state. -/
def deleteSleeper : List (Preempted → Action) :=
  open SmallSystem in
  let step (f : Kernel → Kernel.Action) (s : Preempted) : Action := .step (f s.kernel)
  [step (load 0x6020#32 0#32 0#32 0#32 0#32 0#32 10#32), step fun _ => .svc, step fun _ => .pendsv] ++
  [step (load 0x4000#32 secondId 0#32 0#32 0#32 0#32 2#32), step fun _ => .svc, step fun _ => .pendsv, fun _ => .enter] ++
  [step fun _ => .systick, step fun _ => .pendsv, fun _ => .advance, fun _ => .advance, step fun _ => .yield, step fun _ => .pendsv]

/-- A tick wakes a thread that `delete_thread` found asleep, and the thread is chosen when its slot is free. -/
theorem tick_revives : ∃ b s as later earlier, boot SmallSystem.bootInfo = .ok b ∧
    Theory.Run Step ⟨b, none⟩ as s ∧ s.kernel.trace = later ++ .deleted 3 :: earlier ∧ .created 3 ∉ later ∧
      .selected 3 ∈ later ∧ s.kernel.allocated 3 = false := by
  have done : (SmallSystem.start.any fun k => (Theory.follow next ⟨k, none⟩ deleteSleeper).any fun s =>
      gone s.kernel.trace 3 && chosen 3 s.kernel.trace && !s.kernel.allocated 3) = true := by decide +kernel
  obtain ⟨b, k, as, booted, run, _, later⟩ := SmallSystem.reached done
  obtain ⟨s, ran, found⟩ := (Option.any_eq_true _ _).mp later
  simp only [Bool.and_eq_true, Bool.not_eq_true'] at found
  obtain ⟨⟨dead, last⟩, free⟩ := found
  obtain ⟨bs, steps⟩ := Theory.run_of_follow step_of_next ran
  obtain ⟨later, earlier, trace, unused, member⟩ := chosen_split dead last
  exact ⟨b, s, as.map .step ++ bs, later, earlier, booted, (run_of_kernel run).append steps, trace, unused, member, free⟩

end Preempted
end BradypOS
