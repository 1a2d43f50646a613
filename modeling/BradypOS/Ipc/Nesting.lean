import BradypOS.Ipc.Endless

/-!
# Nested calls over whole runs

Whoever waits had its state set before, so only finitely many threads wait.
-/

namespace BradypOS

open L4
open Theory (Reaches)

/-- The thread whose state was set. -/
def Event.sets : Event → Option Nat
  | .stateSet t _ => some t
  | _ => none

namespace Kernel

variable {k k' k'' : Kernel}

/-- The slots whose state was ever set. -/
def touched (k : Kernel) : List Nat := k.trace.filterMap Event.sets

/-- Only threads whose state was set wait. -/
def Recorded (k : Kernel) : Prop := ∀ t, k.Waits t → t ∈ k.touched

namespace Recorded

theorem grow (r : Recorded k) (grown : ∃ es, k'.trace = es ++ k.trace) (waits : ∀ t, k'.Waits t → k.Waits t) : Recorded k' := by
  intro t wait
  obtain ⟨es, grown⟩ := grown
  unfold touched
  rw [grown, List.filterMap_append]
  exact List.mem_append_right _ (r t (waits t wait))

theorem stores {Q : Nat → Prop} (r : Recorded k) (h : Stores Q k k') (waits : ∀ t, k'.Waits t → k.Waits t) : Recorded k' := by
  obtain ⟨es, grown, _⟩ := h
  exact r.grow ⟨es, grown⟩ waits

theorem aside (r : Recorded k) (trace : k'.trace = k.trace) (state : ∀ t, k'.state t = k.state t) : Recorded k' := by
  refine r.grow ⟨[], trace⟩ fun t wait => ?_
  unfold Waits at wait ⊢
  rwa [← state t]

theorem setThreadState (r : Recorded k) (t : Nat) (st : ThreadState) : Recorded (k.setThreadState t st) := by
  obtain ⟨es, grown, _⟩ := (Stores.of_trace (Q := fun _ => False) (k := k) rfl).setThreadState t st
  intro u wait
  by_cases here : u = t
  · subst here
    unfold touched Kernel.setThreadState
    exact List.mem_cons_self
  · have kept : k.Waits u := by
      unfold Waits at wait ⊢
      rwa [state_setThreadState, if_neg here] at wait
    unfold touched
    rw [grown, List.filterMap_append]
    exact List.mem_append_right _ (r u kept)

theorem light (r : Recorded k) (h : Light k k') : Recorded k' := by
  obtain ⟨es, grown, _⟩ := h.trace
  refine r.grow ⟨es, grown⟩ fun t wait => ?_
  unfold Waits at wait ⊢
  rwa [← h.state t]

theorem called {c : Nat} (r : Recorded k) (h : Called k c k') : Recorded k' :=
  h.rule (P := Recorded) (fun _ _ r light => r.light light) (fun _ t st (_ : True) r => r.setThreadState t st)
    (fun _ _ => trivial) r

theorem setMem (r : Recorded k) (mem : Memory) : Recorded (k.setMem mem) := r.aside rfl fun _ => rfl

theorem setTcb (r : Recorded k) {t : Nat} {f : Tcb → Tcb} (waits : (k.setTcb t f).Waits t → k.Waits t) : Recorded (k.setTcb t f) := by
  refine r.grow ⟨[], rfl⟩ fun u wait => ?_
  by_cases here : u = t
  · subst here
    exact waits wait
  · unfold Waits Kernel.state at wait ⊢
    rwa [setTcb_other _ _ _ _ here] at wait

/-- A change to a TCB that keeps its state. -/
theorem changeTcb (r : Recorded k) {t : Nat} {f : Tcb → Tcb} (same : ∀ tcb, (f tcb).state = tcb.state) : Recorded (k.setTcb t f) := by
  refine r.setTcb fun wait => ?_
  unfold Waits Kernel.state at wait ⊢
  rwa [setTcb_same, same] at wait

theorem setFrame (r : Recorded k) (sp : Word) (f : Frame → Frame) : Recorded (k.setFrame sp f) := r.setMem _

theorem refuse (r : Recorded k) (sp : Word) (err : ErrorCode) : Recorded (k.refuse sp err) := (r.setFrame _ _).setMem _

theorem unblockCaller (r : Recorded k) : Recorded k.unblockCaller := r.setThreadState _ _

/-! ### The handlers -/

theorem settleSpace (r : Recorded k) (sp : Word) (t as : Nat) (kipArea utcbArea : Word) :
    Recorded (k.settleSpace sp t as kipArea utcbArea) := by
  have checked : Recorded (k.checkUtcbArea sp as) := by
    unfold checkUtcbArea
    split
    · exact r.refuse sp _
    · exact r
  have area : Recorded ((k.checkUtcbArea sp as).setAs as fun space => { space with utcbPage := utcbArea }) :=
    checked.aside rfl fun _ => rfl
  unfold Kernel.settleSpace
  refine Recorded.setFrame ?_ _ _
  unfold activateTarget
  split
  · exact (area.setMem _).setThreadState t .active
  · exact area

theorem spaceControlled (r : Recorded k) (h : SpaceControlled k k') : Recorded k' := by
  cases h with
  | refused err => exact r.refuse _ err
  | done found kip space =>
    rcases ensureAs_cases space with ⟨_, rfl⟩ | ⟨_, _, _, rfl⟩
    · exact r.settleSpace _ _ _ _ _
    · refine Recorded.settleSpace ?_ _ _ _ _ _
      unfold Kernel.newSpace
      refine Recorded.changeTcb ?_ fun _ => rfl
      exact r.aside rfl fun _ => rfl

theorem deleted {t : Nat} (r : Recorded k) (h : k.deleteThread t = .ok k') : Recorded k' := by
  have gone := deleteThread_gone h
  refine r.grow ⟨[.deleted t], gone.trace⟩ fun u wait => ?_
  obtain ⟨_, _, same⟩ := gone.tcbs u
  unfold Waits Kernel.state at wait ⊢
  rwa [same] at wait

theorem created {t : Nat} {id : Word} (r : Recorded k) (h : k.createThread id = .ok (some t, k')) : Recorded k' := by
  rcases createThread_spec h with ⟨none, _⟩ | ⟨t', list, same, _, _, rfl⟩
  · cases none
  · cases same
    have fresh : Recorded ((k.takeTcb t).setTcb t (freshTcb id)) := by
      refine Recorded.setTcb (r.aside rfl fun _ => rfl) fun wait => ?_
      unfold Waits Kernel.state at wait
      rw [setTcb_same] at wait
      rcases wait with wait | wait <;> cases wait
    exact fresh.grow ⟨[.created t], rfl⟩ fun _ wait => wait

theorem placeThread (r : Recorded k) (t : Nat) (space : Option Nat) (dest scheduler pager utcbLocation : Word) :
    Recorded (k.placeThread t space dest scheduler pager utcbLocation) := by
  have named : Recorded (k.setTcb t fun new =>
      { new with
        globalId := dest, localId := utcbLocation, utcb := utcbLocation
        state := if isNilThread pager || space.isNone then .inactive else .active }) := by
    refine r.setTcb fun wait => ?_
    unfold Waits Kernel.state at wait
    rw [setTcb_same] at wait
    dsimp only at wait
    split at wait
    · rcases wait with wait | wait <;> cases wait
    · rcases wait with wait | wait <;> cases wait
  unfold Kernel.placeThread
  refine Recorded.changeTcb ?_ fun _ => rfl
  cases space with
  | none => exact named
  | some space =>
    dsimp only
    unfold Kernel.joinSiblings
    refine Recorded.changeTcb ?_ fun _ => rfl
    exact named.changeTcb fun _ => rfl

theorem threadControlled (r : Recorded k) (h : ThreadControlled k k') : Recorded k' := by
  cases h with
  | privileged => exact r.refuse _ _
  | refused _ err => exact (r.refuse _ err).unblockCaller
  | deletedSelf _ _ _ _ gone => exact (r.deleted gone).setFrame _ _
  | deleted _ _ _ _ _ gone => exact ((r.deleted gone).setFrame _ _).unblockCaller
  | @modified dest space as =>
    have changed : Recorded (k.setTcb dest (Kernel.modified k.callerFrame.r0 as k.callerFrame.r2 k.callerFrame.r3 k.callerR4)) :=
      r.changeTcb fun _ => rfl
    exact ((changed.setMem _).setFrame _ _).unblockCaller
  | created _ _ _ made => exact (((r.created made).placeThread _ _ _ _ _ _).setFrame _ _).unblockCaller

theorem scheduled (r : Recorded k) (h : Scheduled k k') : Recorded k' := by
  cases h with
  | refused err => exact r.refuse _ err
  | kept => exact (r.setMem _).setFrame _ _
  | @changed dest =>
    obtain ⟨schedule, same, _⟩ := k.setThreadPriority_spec dest k.callerFrame.r3
    rw [same]
    have raised : Recorded (k.setTcb dest fun tcb => { tcb with priority := k.callerFrame.r3 }) := r.changeTcb fun _ => rfl
    have reordered : Recorded ((k.setTcb dest fun tcb => { tcb with priority := k.callerFrame.r3 }).setSchedule schedule) :=
      raised.aside rfl fun _ => rfl
    exact (reordered.setMem _).setFrame _ _

theorem handled {fuel : Nat} (r : Recorded k) (h : softirqSvc fuel k = .ok k') : Recorded k' := by
  cases handled_of_softirqSvc h with
  | answered => exact (r.setFrame _ _).unblockCaller
  | space number done => exact (r.spaceControlled done).unblockCaller
  | thread number done => exact r.threadControlled done
  | ipc number done => exact r.called (called_of_doIpc done)
  | unmap => exact r.unblockCaller
  | schedule number done => exact (r.scheduled done).unblockCaller
  | unknown => exact r

end Recorded

/-! ### The steps -/

theorem Recorded.passive (r : Recorded k) (h : Passive k k') : Recorded k' := r.stores h.stores h.waits

/-- The slots that wait to send. -/
def senders (k : Kernel) : Finset Nat := (k.touched.filter fun t => k.state t = .sendBlocked).toFinset

theorem Recorded.mem_senders (r : Recorded k) (t : Nat) : t ∈ k.senders ↔ k.state t = .sendBlocked := by
  unfold senders
  simp only [List.mem_toFinset, List.mem_filter, decide_eq_true_eq]
  exact ⟨fun h => h.2, fun sends => ⟨r t (.inl sends), sends⟩⟩

/-- The call nests at most as deep as there are waiting senders; more levels than these and its own change nothing. -/
def Bounded (k : Kernel) : Prop :=
  syscallIpc (1 + k.senders.card) k ≠ .error .depth ∧
    ∀ fuel, 1 + k.senders.card ≤ fuel → syscallIpc fuel k = syscallIpc (1 + k.senders.card) k

theorem Recorded.bounded (r : Recorded k) (clear : ¬ (k.Receives k.caller ∧ k.Circles k.caller)) : k.Bounded := by
  have enough : syscallIpc (1 + k.senders.card) k ≠ .error .depth := by
    rw [Nat.add_comm]
    exact call_depth (fun s => (r.mem_senders s).mpr) clear
  exact ⟨enough, fun fuel more => doIpc_more more enough⟩

end Kernel
end BradypOS
