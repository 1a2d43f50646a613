import BradypOS.Syscall.Outcomes
import BradypOS.Ipc.Start
import BradypOS.Scheduler.Wins

/-!
# What a system call does to the kernel thread

While it runs a call, the kernel thread is runnable and not in the heap. No call but a `space_control`
that activates the kernel thread itself changes that, nor who the caller is.
-/

namespace BradypOS.Kernel

open L4 Scheduler

variable {k k' k'' : Kernel}

/-- The kernel thread runs, on behalf of another thread. -/
structure Working (k : Kernel) : Prop where
  live : k.allocated kernTcb = true
  number : threadNo (k.tcbs kernTcb).globalId = threadNo kernId
  runs : k.state kernTcb = .runnable
  caller : k.caller ≠ kernTcb

/-- Neither the kernel thread nor what it works on changed. -/
structure Spared (k k' : Kernel) : Prop where
  live : k'.allocated kernTcb = k.allocated kernTcb
  globalId : (k'.tcbs kernTcb).globalId = (k.tcbs kernTcb).globalId
  state : k'.state kernTcb = k.state kernTcb
  ready : kernTcb ∈ k'.ready → kernTcb ∈ k.ready
  caller : k'.caller = k.caller
  softirqPending : k'.softirqPending = k.softirqPending
  pendsv : k'.pendsv = k.pendsv
  currentThreadIdx : k'.currentThreadIdx = k.currentThreadIdx

/-- A `space_control` that would make the kernel thread active. -/
def ActivatesKernel (k : Kernel) : Prop :=
  k.pendingCall = some .spaceControl ∧ k.findThreadByGlobalId k.callerFrame.r0 = some kernTcb ∧
    k.callerFrame.r2 = k.kipFpage ∧ k.callerFrame.r2 ≠ 0#32 ∧ k.callerFrame.r3 ≠ 0#32 ∧
    fpageContainsObject k.callerFrame.r3 (k.tcbs kernTcb).utcb utcbSize = true ∧ ¬ isNilThread (k.tcbs kernTcb).pager = true

namespace Spared

theorem of_tcb (tcb : k'.tcbs kernTcb = k.tcbs kernTcb) (live : k'.allocated kernTcb = k.allocated kernTcb)
    (ready : kernTcb ∈ k'.ready → kernTcb ∈ k.ready) (caller : k'.caller = k.caller)
    (pending : k'.softirqPending = k.softirqPending) (pendsv : k'.pendsv = k.pendsv)
    (current : k'.currentThreadIdx = k.currentThreadIdx) : Spared k k' := by
  refine ⟨live, congrArg Tcb.globalId tcb, ?_, ready, caller, pending, pendsv, current⟩
  unfold Kernel.state
  rw [tcb]

theorem aside (tcb : k'.tcbs kernTcb = k.tcbs kernTcb) (live : k'.allocated kernTcb = k.allocated kernTcb)
    (schedule : k'.schedule = k.schedule) (caller : k'.caller = k.caller) (pending : k'.softirqPending = k.softirqPending)
    (pendsv : k'.pendsv = k.pendsv) (current : k'.currentThreadIdx = k.currentThreadIdx) : Spared k k' := by
  refine of_tcb tcb live (fun member => ?_) caller pending pendsv current
  have ready : k'.ready = k.ready := congrArg Heap.toList schedule
  rw [← ready]
  exact member

theorem refl (k : Kernel) : Spared k k := aside rfl rfl rfl rfl rfl rfl rfl

theorem trans (h : Spared k k') (h' : Spared k' k'') : Spared k k'' :=
  ⟨h'.live.trans h.live, h'.globalId.trans h.globalId, h'.state.trans h.state, fun member => h.ready (h'.ready member),
    h'.caller.trans h.caller, h'.softirqPending.trans h.softirqPending, h'.pendsv.trans h.pendsv,
    h'.currentThreadIdx.trans h.currentThreadIdx⟩

theorem setMem (h : Spared k k') (mem : Memory) : Spared k (k'.setMem mem) := h.trans (aside rfl rfl rfl rfl rfl rfl rfl)

theorem setFrame (h : Spared k k') (sp : Word) (f : Frame → Frame) : Spared k (k'.setFrame sp f) := h.setMem _

theorem refuse (h : Spared k k') (sp : Word) (err : ErrorCode) : Spared k (k'.refuse sp err) := (h.setFrame _ _).setMem _

theorem setTcb {t : Nat} {f : Tcb → Tcb} (h : Spared k k')
    (same : t = kernTcb → (f (k'.tcbs t)).globalId = (k'.tcbs t).globalId ∧ (f (k'.tcbs t)).state = (k'.tcbs t).state) :
    Spared k (k'.setTcb t f) := by
  apply h.trans
  by_cases here : t = kernTcb
  · subst here
    obtain ⟨id, state⟩ := same rfl
    refine ⟨rfl, ?_, ?_, fun member => member, rfl, rfl, rfl, rfl⟩
    · rw [setTcb_same]
      exact id
    · unfold Kernel.state
      rw [setTcb_same]
      exact state
  · exact aside (setTcb_other _ _ _ _ (Ne.symm here)) rfl rfl rfl rfl rfl rfl

theorem setThreadState {t : Nat} (h : Spared k k') (other : t ≠ kernTcb) (st : ThreadState) : Spared k (k'.setThreadState t st) := by
  refine h.trans (of_tcb ?_ (congrFun (k'.setThreadState_allocated t st) _) (fun member => ?_) (k'.setThreadState_caller t st)
    (k'.setThreadState_softirqPending t st) (k'.setThreadState_pendsv t st) (k'.setThreadState_currentThreadIdx t st))
  · rw [setThreadState_tcbs, Function.update_of_ne (Ne.symm other)]
  · exact (setThreadState_ready member).resolve_right fun wakes => other wakes.1.symm

theorem unblockCaller (h : Spared k k') (user : k.caller ≠ kernTcb) : Spared k k'.unblockCaller := by
  apply h.setThreadState
  rw [h.caller]
  exact user

theorem deleteThread {t : Nat} (other : t ≠ kernTcb) (h : k.deleteThread t = .ok k') : Spared k k' := by
  have gone := deleteThread_gone h
  obtain ⟨_, _, same⟩ := gone.tcbs kernTcb
  refine ⟨?_, ?_, ?_, fun member => ?_, gone.caller, gone.softirqPending, gone.pendsv, gone.currentThreadIdx⟩
  · rw [gone.allocated, Function.update_of_ne (Ne.symm other)]
  · rw [same]
  · unfold Kernel.state
    rw [same]
  · have ready : k'.ready = (k.unschedule t).ready := congrArg Heap.toList gone.schedule
    rw [ready] at member
    unfold unschedule at member
    split at member
    · exact k.scheduleRemove_sub t _ member
    · exact member

theorem createThread {t : Nat} {id : Word} (live : k.allocated kernTcb = true) (h : k.createThread id = .ok (some t, k')) :
    Spared k k' ∧ t ≠ kernTcb := by
  rcases createThread_spec h with ⟨none, _⟩ | ⟨t', list, same, slot, _, rfl⟩
  · cases none
  · cases same
    have other : t ≠ kernTcb := by
      rintro rfl
      rw [(allocateTcb_spec slot).2] at live
      cases live
    exact ⟨aside (Function.update_of_ne (Ne.symm other) _ _) (Function.update_of_ne (Ne.symm other) _ _) rfl rfl rfl rfl rfl, other⟩

theorem placeThread {t : Nat} (h : Spared k k') (other : t ≠ kernTcb) (space : Option Nat) (dest scheduler pager utcb : Word) :
    Spared k (k'.placeThread t space dest scheduler pager utcb) := by
  unfold Kernel.placeThread
  refine Spared.setTcb ?_ fun same => absurd same other
  have named := h.setTcb (f := fun new =>
    { new with
      globalId := dest, localId := utcb, utcb := utcb
      state := if isNilThread pager || space.isNone then .inactive else .active }) fun same => absurd same other
  cases space with
  | none => exact named
  | some space =>
    unfold Kernel.joinSiblings
    refine Spared.setTcb ?_ fun _ => ⟨rfl, rfl⟩
    exact named.setTcb fun same => absurd same other

/-! ### The handlers -/

theorem newSpace (k : Kernel) (t as : Nat) : Spared k (k.newSpace t as) ∧
    ∀ u, ((k.newSpace t as).tcbs u).utcb = (k.tcbs u).utcb ∧ ((k.newSpace t as).tcbs u).pager = (k.tcbs u).pager := by
  unfold Kernel.newSpace
  constructor
  · refine Spared.setTcb ?_ fun _ => ⟨rfl, rfl⟩
    exact .aside rfl rfl rfl rfl rfl rfl rfl
  · intro u
    by_cases here : u = t
    · subst here
      rw [setTcb_same]
      exact ⟨rfl, rfl⟩
    · rw [setTcb_other _ _ _ _ here]
      exact ⟨rfl, rfl⟩

theorem settleSpace {t : Nat} {kipArea utcbArea : Word} (h : Spared k k') (sp : Word) (as : Nat)
    (spares : t = kernTcb → ¬ (kipArea ≠ 0#32 ∧ utcbArea ≠ 0#32 ∧
      fpageContainsObject utcbArea (k'.tcbs t).utcb utcbSize = true ∧ ¬ isNilThread (k'.tcbs t).pager = true)) :
    Spared k (k'.settleSpace sp t as kipArea utcbArea) := by
  have checked : Spared k (k'.checkUtcbArea sp as) ∧ (k'.checkUtcbArea sp as).tcbs = k'.tcbs := by
    unfold checkUtcbArea
    split
    · exact ⟨h.refuse sp _, rfl⟩
    · exact ⟨h, rfl⟩
  have area : Spared k ((k'.checkUtcbArea sp as).setAs as fun space => { space with utcbPage := utcbArea }) :=
    checked.1.trans (.aside rfl rfl rfl rfl rfl rfl rfl)
  unfold Kernel.settleSpace
  refine Spared.setFrame ?_ _ _
  unfold activateTarget
  split
  · rename_i activates
    refine Spared.setThreadState (area.setMem _) (fun same => spares same ?_) .active
    rw [← checked.2]
    exact activates
  · exact area

theorem spaceControlled (spares : ¬ k.ActivatesKernel) (number : k.pendingCall = some .spaceControl)
    (h : SpaceControlled k k') : Spared k k' := by
  cases h with
  | refused err => exact (Spared.refl k).refuse _ err
  | @done t as k₁ found kip space =>
    have made : Spared k k₁ ∧ ∀ u, (k₁.tcbs u).utcb = (k.tcbs u).utcb ∧ (k₁.tcbs u).pager = (k.tcbs u).pager := by
      rcases ensureAs_cases space with ⟨_, rfl⟩ | ⟨_, _, _, rfl⟩
      · exact ⟨.refl _, fun _ => ⟨rfl, rfl⟩⟩
      · exact newSpace k t as
    apply made.1.settleSpace
    rintro rfl ⟨someKip, someArea, inside, pager⟩
    rw [(made.2 kernTcb).1] at inside
    rw [(made.2 kernTcb).2] at pager
    exact spares ⟨number, found, kip, someKip, someArea, inside, pager⟩

theorem other_of_found {id : Word} {t : Nat} (number : threadNo (k.tcbs kernTcb).globalId = threadNo kernId) (user : UserDest id)
    (found : k.findThreadByGlobalId id = some t) : t ≠ kernTcb := by
  rintro rfl
  obtain ⟨_, _, _, same⟩ := find_spec found
  rw [number] at same
  exact (threadNo_of_userDest user).1 same.symm

theorem threadControlled (w : Working k) (h : ThreadControlled k k') : Spared k k' := by
  cases h with
  | privileged => exact (Spared.refl k).refuse _ _
  | refused _ err => exact ((Spared.refl k).refuse _ err).unblockCaller w.caller
  | deletedSelf _ _ _ _ gone => exact (deleteThread w.caller gone).setFrame _ _
  | deleted user found _ _ _ gone =>
    exact ((deleteThread (other_of_found w.number user found) gone).setFrame _ _).unblockCaller w.caller
  | @modified dest space as user found =>
    have other := other_of_found w.number user found
    have changed := (Spared.refl k).setTcb (t := dest)
      (f := Kernel.modified k.callerFrame.r0 as k.callerFrame.r2 k.callerFrame.r3 k.callerR4) fun same => absurd same other
    exact ((changed.setMem _).setFrame _ _).unblockCaller w.caller
  | created _ _ _ made =>
    obtain ⟨spared, other⟩ := createThread w.live made
    exact ((spared.placeThread other _ _ _ _ _).setFrame _ _).unblockCaller w.caller

theorem scheduled (h : Scheduled k k') : Spared k k' := by
  cases h with
  | refused err => exact (Spared.refl k).refuse _ err
  | kept => exact ((Spared.refl k).setMem _).setFrame _ _
  | @changed dest =>
    obtain ⟨schedule, same, perm⟩ := k.setThreadPriority_spec dest k.callerFrame.r3
    rw [same]
    have raised : Spared k (k.setTcb dest fun tcb => { tcb with priority := k.callerFrame.r3 }) :=
      (Spared.refl k).setTcb fun _ => ⟨rfl, rfl⟩
    have reordered : Spared k ((k.setTcb dest fun tcb => { tcb with priority := k.callerFrame.r3 }).setSchedule schedule) :=
      raised.trans (.of_tcb rfl rfl (fun member => perm.mem_iff.mp member) rfl rfl rfl rfl)
    exact (reordered.setMem _).setFrame _ _

theorem called (w : Working k) (h : Called k k.caller k') : Spared k k' := by
  have involved : ∀ u, Involved k k.caller u → u ≠ kernTcb := by
    intro u involved same
    have runs := w.runs
    rw [← same] at runs
    cases involved with
    | caller => exact w.caller same
    | receiver named found =>
      have waits : k.state u = .recvBlocked := isReadyPartner_waits (findIpcPartner_found found)
      rw [runs] at waits
      cases waits
    | started named found =>
      rw [(findIpcPartner_pagerMsg found).2.1] at runs
      cases runs
    | sender chain =>
      rw [chain.waits] at runs
      cases runs
  refine h.rule (P := Spared k) (fun k₁ k₂ spared light => ?_) (fun k₁ t st other spared => spared.setThreadState other st)
    involved (.refl k)
  have ready : k₂.ready = k₁.ready := congrArg Heap.toList light.schedule
  exact ⟨(congrFun light.allocated _).trans spared.live, (light.globalId kernTcb).trans spared.globalId,
    (light.state kernTcb).trans spared.state, fun member => spared.ready (ready ▸ member), light.caller.trans spared.caller,
    light.softirqPending.trans spared.softirqPending, light.pendsv.trans spared.pendsv,
    light.currentThreadIdx.trans spared.currentThreadIdx⟩

/-- No call but one that activates the kernel thread touches it. -/
theorem of_softirqSvc {fuel : Nat} (w : Working k) (spares : ¬ k.ActivatesKernel) (h : softirqSvc fuel k = .ok k') :
    Spared k k' := by
  cases handled_of_softirqSvc h with
  | answered => exact ((Spared.refl k).setFrame _ _).unblockCaller w.caller
  | space number done => exact (spaceControlled spares number done).unblockCaller w.caller
  | thread number done => exact threadControlled w done
  | ipc number done => exact called w (called_of_doIpc done)
  | unmap => exact (Spared.refl k).unblockCaller w.caller
  | schedule number done => exact (scheduled done).unblockCaller w.caller
  | unknown => exact .refl k

end Spared

end BradypOS.Kernel
