import BradypOS.Alarm.Systick
import BradypOS.Syscall.Outcomes
import BradypOS.Thread.Settled

/-!
# Steps that respect the deleted threads

A step that wakes live threads only, and deletes a thread that the heap holds once at most, puts no deleted thread into the heap
and chooses none.
-/

namespace BradypOS.Kernel

open L4

variable {k k' : Kernel}

/-- The kernel thread is live and keeps its id. -/
structure Calm (k : Kernel) : Prop extends Settled k where
  kernel : k.allocated kernTcb = true
  kernelId : (k.tcbs kernTcb).globalId = kernId

namespace Calm

theorem quiet (c : Calm k) (h : Quiet k k') : Calm k' :=
  ⟨c.toSettled.quiet h, by rw [h.allocated]; exact c.kernel, (h.globalId kernTcb).trans c.kernelId⟩

theorem setTcb (c : Calm k) {t : Nat} {f : Tcb → Tcb}
    (state : k.allocated t = true ∨ (f (k.tcbs t)).state = (k.tcbs t).state)
    (id : t ≠ kernTcb ∨ (f (k.tcbs t)).globalId = (k.tcbs t).globalId) : Calm (k.setTcb t f) := by
  refine ⟨c.toSettled.setTcb state, c.kernel, ?_⟩
  by_cases here : kernTcb = t
  · subst here
    rw [setTcb_same]
    exact (id.resolve_left (absurd rfl)).trans c.kernelId
  · rw [setTcb_other _ _ _ _ here]
    exact c.kernelId

theorem setThreadState (c : Calm k) {t : Nat} {st : ThreadState} (live : st = .runnable → k.allocated t = true) :
    Calm (k.setThreadState t st) := by
  refine ⟨c.toSettled.setThreadState live, ?_, ?_⟩
  · rw [setThreadState_allocated]; exact c.kernel
  · exact ((SameTable.setThreadState k t st).globalId kernTcb).trans c.kernelId

theorem find_user (c : Calm k) {globalId : Word} {t : Nat} (h : k.findThreadByGlobalId globalId = some t)
    (user : threadNo globalId ≠ threadNo kernId) : t ≠ kernTcb := by
  obtain ⟨_, _, _, number⟩ := find_spec h
  intro same
  rw [same, c.kernelId] at number
  exact user number.symm

theorem createThread {globalId : Word} {tcb : Option Nat} (c : Calm k) (h : k.createThread globalId = .ok (tcb, k')) :
    Calm k' ∧ k'.caller = k.caller ∧ (∀ t, k.allocated t = true → k'.allocated t = true) ∧
      ∀ t, tcb = some t → k'.allocated t = true ∧ t ≠ kernTcb := by
  have settled := c.toSettled.createThread h
  rcases createThread_spec h with ⟨rfl, rfl⟩ | ⟨t, list, rfl, slot, _, rfl⟩
  · exact ⟨c, rfl, fun _ => id, nofun⟩
  · have free := (allocateTcb_spec slot).2
    have other : ∀ u, k.allocated u = true → u ≠ t := by
      intro u live same
      rw [same, free] at live
      cases live
    have kept : ∀ u, k.allocated u = true → Function.update k.allocated t true u = true :=
      fun u live => (Function.update_of_ne (other u live) _ _).trans live
    have kern : (Function.update k.tcbs t (freshTcb globalId (k.tcbs t)) kernTcb).globalId = kernId := by
      rw [Function.update_of_ne (other kernTcb c.kernel)]
      exact c.kernelId
    refine ⟨⟨settled, kept _ c.kernel, kern⟩, rfl, kept, fun u same => ?_⟩
    cases same
    exact ⟨Function.update_self .., (other kernTcb c.kernel).symm⟩

theorem setTable (c : Calm k) (count : Nat) (list : Nat → Nat) : Calm (k.setTable count list) :=
  ⟨c.toSettled.setTable count list, c.kernel, c.kernelId⟩

theorem freed {d : Nat} (c : Calm k) (absent : d ∉ k.ready) (rests : d = k.currentThreadIdx → k.state d ≠ .runnable)
    (user : d ≠ kernTcb) : Calm (((k.unlinkSiblings d).freeTcb d).log (.deleted d)) := by
  have settled := c.toSettled.freed absent rests
  obtain ⟨tcbs, unlinked, links⟩ := k.unlinkSiblings_frame d
  rw [unlinked] at settled ⊢
  refine ⟨settled, (Function.update_of_ne user.symm _ _).trans c.kernel, ?_⟩
  obtain ⟨n, p, same⟩ := links kernTcb
  have id := congrArg Tcb.globalId same
  exact id.trans c.kernelId

theorem deleteThread {d : Nat} (c : Calm k) (ok : Settled.Removable k d) (user : d ≠ kernTcb)
    (h : k.deleteThread d = .ok k') :
    Calm k' ∧ k'.caller = k.caller ∧ ∀ t, t ≠ d → k'.allocated t = k.allocated t := by
  obtain ⟨list, rfl⟩ := deleteThread_spec h
  obtain ⟨schedule, removed⟩ := k.unschedule_frame d
  obtain ⟨absent, sub⟩ := Settled.unschedule_ready ok
  rw [removed] at absent sub ⊢
  have out : Calm (k.setSchedule schedule) := ⟨c.toSettled.setSchedule sub, c.kernel, c.kernelId⟩
  refine ⟨(out.setTable (k.threadCount - 1) list).freed absent ok.2 user, ?_⟩
  obtain ⟨tcbs, unlinked, -⟩ := ((k.setSchedule schedule).setTable (k.threadCount - 1) list).unlinkSiblings_frame d
  rw [unlinked]
  exact ⟨rfl, fun t other => Function.update_of_ne other _ _⟩

end Calm

/-! ### System calls -/

/-- A state within a system call that creates and deletes no thread. -/
structure Served (k₀ k : Kernel) : Prop where
  calm : Calm k
  caller : k.caller = k₀.caller
  allocated : k.allocated = k₀.allocated

namespace Served

variable {k₀ : Kernel}

theorem quiet (s : Served k₀ k) (h : Quiet k k') : Served k₀ k' :=
  ⟨s.calm.quiet h, h.caller.trans s.caller, h.allocated.trans s.allocated⟩

theorem setMem (s : Served k₀ k) (mem : Memory) : Served k₀ (k.setMem mem) := s.quiet ((Quiet.refl k).setMem mem)

theorem setAs (s : Served k₀ k) (as : Nat) (f : AddressSpace → AddressSpace) : Served k₀ (k.setAs as f) :=
  s.quiet (.of_tcbs rfl rfl rfl rfl rfl rfl rfl rfl)

theorem takeAs (s : Served k₀ k) (as : Nat) : Served k₀ (k.takeAs as) :=
  s.quiet (.of_tcbs rfl rfl rfl rfl rfl rfl rfl rfl)

theorem refuse (s : Served k₀ k) (sp : Word) (err : ErrorCode) : Served k₀ (k.refuse sp err) :=
  (s.setMem _).setMem _

theorem setTcb (s : Served k₀ k) {t : Nat} {f : Tcb → Tcb} (state : (f (k.tcbs t)).state = (k.tcbs t).state)
    (id : t ≠ kernTcb ∨ (f (k.tcbs t)).globalId = (k.tcbs t).globalId) : Served k₀ (k.setTcb t f) :=
  ⟨s.calm.setTcb (.inr state) id, s.caller, s.allocated⟩

theorem setThreadState (s : Served k₀ k) {t : Nat} {st : ThreadState} (live : st = .runnable → k₀.allocated t = true) :
    Served k₀ (k.setThreadState t st) := by
  refine ⟨s.calm.setThreadState fun runs => ?_, ?_, ?_⟩
  · rw [s.allocated]; exact live runs
  · rw [setThreadState_caller]; exact s.caller
  · rw [setThreadState_allocated]; exact s.allocated

theorem unblockCaller (s : Served k₀ k) (live : k₀.allocated k₀.caller = true) : Calm k.unblockCaller :=
  (s.setThreadState fun _ => s.caller ▸ live).calm

end Served

theorem Calm.served (c : Calm k) : Served k k := ⟨c, rfl, rfl⟩

theorem ensureAs_served {k₀ : Kernel} {t as : Nat} (s : Served k₀ k) (h : k.ensureAs t = .ok (as, k')) :
    Served k₀ k' := by
  rcases ensureAs_cases h with ⟨_, rfl⟩ | ⟨_, _, _, rfl⟩
  · exact s
  · apply ((s.takeAs as).setAs as _).setTcb
    · rfl
    · exact .inr rfl

theorem activateTarget_served {k₀ : Kernel} (s : Served k₀ k) (target : Nat) (kipArea utcbArea : Word) :
    Served k₀ (k.activateTarget target kipArea utcbArea) := by
  unfold activateTarget
  split
  · exact (s.setMem _).setThreadState nofun
  · exact s

theorem SpaceControlled.served (c : Calm k) (h : SpaceControlled k k') : Served k k' := by
  cases h with
  | refused err => exact c.served.refuse _ err
  | @done target as k₁ found kip space =>
    have checked : Served k (k₁.checkUtcbArea k.callerSp as) := by
      unfold checkUtcbArea
      split
      · exact (ensureAs_served c.served space).refuse _ _
      · exact ensureAs_served c.served space
    exact (activateTarget_served (checked.setAs as _) _ _ _).setMem _

theorem setThreadPriority_served {k₀ : Kernel} (s : Served k₀ k) (t : Nat) (prio : Word) :
    Served k₀ (k.setThreadPriority t prio) := by
  obtain ⟨schedule, same, perm⟩ := k.setThreadPriority_spec t prio
  have changed : Served k₀ (k.setTcb t fun tcb => { tcb with priority := prio }) := s.setTcb rfl (.inr rfl)
  obtain ⟨settled, kernel, kernelId⟩ := changed.calm
  rw [same]
  exact ⟨⟨settled.setSchedule fun u member => perm.mem_iff.mp member, kernel, kernelId⟩, changed.caller,
    changed.allocated⟩

theorem Scheduled.served (c : Calm k) (h : Scheduled k k') : Served k k' := by
  cases h with
  | refused err => exact c.served.refuse _ err
  | kept found => exact (c.served.setMem _).setMem _
  | changed found controls bound => exact ((setThreadPriority_served c.served _ _).setMem _).setMem _

/-! ### `thread_control` -/

/-- The thread that the pending system call deletes. -/
def deletes (k : Kernel) : Option Nat :=
  if Syscall.ofWord (k.tcbs k.caller).ctx.r7 = some .threadControl ∧ sameThreads k.callerFrame.r1 nilThread then
    k.findThreadByGlobalId k.callerFrame.r0
  else none

theorem joinSiblings_served {k₀ : Kernel} (s : Served k₀ k) (t space : Nat) : Served k₀ (k.joinSiblings t space) := by
  have joined : ∀ as next prev, Served k₀ (k.setTcb t fun new =>
      { new with addressSpace := as, nextSibling := next, prevSibling := prev }) :=
    fun _ _ _ => s.setTcb rfl (.inr rfl)
  unfold joinSiblings
  apply (joined _ _ _).setTcb
  · rfl
  · exact .inr rfl

theorem placeThread_served {t : Nat} (c : Calm k) (live : k.allocated t = true) (user : t ≠ kernTcb)
    (space : Option Nat) (dest scheduler pager utcb : Word) :
    Served k (k.placeThread t space dest scheduler pager utcb) := by
  have named : ∀ st, Served k (k.setTcb t fun new =>
      { new with globalId := dest, localId := utcb, utcb, state := st }) :=
    fun st => ⟨c.setTcb (.inl live) (.inl user), rfl, rfl⟩
  unfold placeThread
  cases space with
  | none =>
    apply (named _).setTcb
    · rfl
    · exact .inr rfl
  | some other =>
    apply (joinSiblings_served (named _) t other).setTcb
    · rfl
    · exact .inr rfl

theorem deletes_of_nil {dest : Nat} (number : k.pendingCall = some .threadControl) (nil : sameThreads k.callerFrame.r1 nilThread)
    (found : k.findThreadByGlobalId k.callerFrame.r0 = some dest) : k.deletes = some dest := by
  unfold deletes
  rw [if_pos ⟨number, nil⟩]
  exact found

theorem ThreadControlled.calm (c : Calm k) (live : k.allocated k.caller = true) (number : k.pendingCall = some .threadControl)
    (ok : ∀ d, k.deletes = some d → Settled.Removable k d) (h : ThreadControlled k k') : Calm k' := by
  cases h with
  | privileged system => exact (c.served.refuse _ _).calm
  | refused user err => exact (c.served.refuse _ err).unblockCaller live
  | deletedSelf user found nil exit deleted =>
    have other := c.find_user found (threadNo_of_userDest user).1
    obtain ⟨c₁, _⟩ := c.deleteThread (ok _ (deletes_of_nil number nil found)) other deleted
    exact (c₁.served.setMem _).calm
  | @deleted dest k₁ user found nil exit others deleted =>
    have other := c.find_user found (threadNo_of_userDest user).1
    obtain ⟨c₁, caller, kept⟩ := c.deleteThread (ok _ (deletes_of_nil number nil found)) other deleted
    have still : k₁.allocated k₁.caller = true := by
      rw [caller, kept _ others.symm]
      exact live
    exact (c₁.served.setMem _).unblockCaller still
  | modified user found named inside moves known fits =>
    have other := c.find_user found (threadNo_of_userDest user).1
    exact (((c.served.setTcb rfl (.inl other)).setMem _).setMem _).unblockCaller live
  | @created t k₁ user missing inside made moves known fits =>
    obtain ⟨c₁, caller, kept, slot⟩ := c.createThread made
    obtain ⟨taken, other⟩ := slot t rfl
    have placed := placeThread_served c₁ taken other (k.findThreadByGlobalId k.callerFrame.r1) k.callerFrame.r0 k.callerFrame.r2
      k.callerFrame.r3 k.callerR4
    have still : k₁.allocated k₁.caller = true := by
      rw [caller]
      exact kept _ live
    exact (placed.setMem _).unblockCaller still

/-- What a tick keeps of the threads. -/
structure Ticking (k₀ k : Kernel) : Prop where
  table : SameTable k₀ k
  state : ∀ t, k.state t = k₀.state t ∨ k.state t = .runnable

namespace Ticking

variable {k₀ : Kernel}

theorem quiet (s : Ticking k₀ k) (h : Quiet k k') : Ticking k₀ k' :=
  ⟨s.table.trans h.sameTable, fun t => by rw [h.state]; exact s.state t⟩

theorem wake (s : Ticking k₀ k) (t : Nat) : Ticking k₀ (k.setThreadState t .runnable) := by
  refine ⟨s.table.trans (.setThreadState k t .runnable), fun u => ?_⟩
  rw [state_setThreadState]
  split
  · exact .inr rfl
  · exact s.state u

end Ticking

theorem Calm.scheduleNextThread (c : Calm k) (h : k.scheduleNextThread = .ok k') : Calm k' := by
  have settled := c.toSettled.scheduleNextThread h
  obtain ⟨idx, k₁, alarms, selected, _, rfl⟩ := scheduleNextThread_spec h
  obtain ⟨_, schedule, rfl⟩ := selectThread_spec selected
  have same : k.requeueCurrent.allocated = k.allocated ∧ k.requeueCurrent.tcbs = k.tcbs := by
    unfold requeueCurrent
    split
    · exact ⟨rfl, rfl⟩
    · exact ⟨rfl, rfl⟩
  have kernel : k.requeueCurrent.allocated kernTcb = true := by rw [same.1]; exact c.kernel
  have kernelId : (k.requeueCurrent.tcbs kernTcb).globalId = kernId := by rw [same.2]; exact c.kernelId
  exact ⟨settled, kernel, kernelId⟩

/-- A slot is handed out with the id it was asked for, and no other thread changes its id. -/
structure HandedOut (k : Kernel) (t : Nat) (id : Word) (k' : Kernel) : Prop where
  slot : k.allocateTcb = some t
  allocated : k'.allocated = Function.update k.allocated t true
  here : (k'.tcbs t).globalId = id
  others : ∀ u, u ≠ t → (k'.tcbs u).globalId = (k.tcbs u).globalId

/-- A thread that is live stays so, with its id, when another slot is handed out. -/
theorem HandedOut.keeps {t u : Nat} {id : Word} (h : HandedOut k t id k') (live : k.allocated u = true) :
    k'.allocated u = true ∧ (k'.tcbs u).globalId = (k.tcbs u).globalId := by
  have other : u ≠ t := by
    intro same
    rw [same, (allocateTcb_spec h.slot).2] at live
    cases live
  exact ⟨by rw [h.allocated, Function.update_of_ne other]; exact live, h.others u other⟩

end BradypOS.Kernel
