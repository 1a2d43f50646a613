import BradypOS.Space.Siblings
import BradypOS.Kernel.Evaluate

/-!
# The sibling lists over whole runs

`thread_control` keeps the lists as long as it deletes no first thread, moves no thread to another
space and creates threads behind the last one of a space only.
-/

namespace BradypOS.Kernel

open L4

variable {k k' : Kernel} {d t : Nat}

/-- A deletion takes a thread out that is in a list and not at its head. -/
def DeletesInner (k : Kernel) : Prop :=
  sameThreads k.callerFrame.r1 nilThread = true → ∀ d ∈ k.findThreadByGlobalId k.callerFrame.r0, k.Unlinkable d

/-- A modification that is carried out leaves a live thread in its space. -/
def MovesNobody (k : Kernel) : Prop :=
  sameThreads k.callerFrame.r1 nilThread = false → ∀ d ∈ k.findThreadByGlobalId k.callerFrame.r0, k.allocated d = true →
    ∀ s ∈ k.findThreadByGlobalId k.callerFrame.r1, ∀ as ∈ (k.tcbs s).addressSpace,
      k.KnownScheduler k.callerFrame.r2 → k.HoldsUtcb as k.callerR4 → (k.tcbs d).addressSpace = some as

/-- A creation that is carried out names a live thread without a next sibling, or no thread, as its space. -/
def CreatesLast (k : Kernel) : Prop :=
  sameThreads k.callerFrame.r1 nilThread = false → k.findThreadByGlobalId k.callerFrame.r0 = none →
    ∀ s ∈ k.findThreadByGlobalId k.callerFrame.r1, ∀ as ∈ (k.tcbs s).addressSpace,
      k.KnownScheduler k.callerFrame.r2 → k.HoldsUtcb as k.callerR4 → k.allocated s = true ∧ (k.tcbs s).nextSibling = none

/-- A thread that gets a space lives. -/
def SettlesLive (k : Kernel) : Prop :=
  ∀ t ∈ k.findThreadByGlobalId k.callerFrame.r0, k.callerFrame.r2 = k.kipFpage → (k.tcbs t).addressSpace = none →
    k.allocated t = true

instance (k : Kernel) : Decidable k.DeletesInner := inferInstanceAs (Decidable (_ → _))
instance (k : Kernel) : Decidable k.MovesNobody := inferInstanceAs (Decidable (_ → _))
instance (k : Kernel) : Decidable k.CreatesLast := inferInstanceAs (Decidable (_ → _))
instance (k : Kernel) : Decidable k.SettlesLive := inferInstanceAs (Decidable (∀ t ∈ _, _))

/-- What a step must not do to the lists. A hard fault deletes the running thread. -/
def Tidy (k : Kernel) : Action → Prop
  | .softirq _ => k.softirqPending = true →
    (k.pendingCall = some .threadControl → k.DeletesInner ∧ k.MovesNobody ∧ k.CreatesLast) ∧
    (k.pendingCall = some .spaceControl → k.SettlesLive)
  | .hardfault _ => k.Unlinkable k.currentThreadIdx
  | _ => True

instance (k : Kernel) : (a : Action) → Decidable (k.Tidy a)
  | .softirq _ => inferInstanceAs (Decidable (_ → _ ∧ _))
  | .hardfault _ => inferInstanceAs (Decidable (Unlinkable _ _))
  | .user _ _ | .svc | .systick | .pendsv | .yield => inferInstanceAs (Decidable True)

/-! ### The handlers -/

namespace Spaced

/-- A change that neither a link nor a space shows. -/
theorem aside (s : Spaced k) (allocated : k'.allocated = k.allocated) (asPool : ∀ as, (k'.asPool as).firstThread = (k.asPool as).firstThread)
    (asAllocated : k'.asAllocated = k.asAllocated)
    (tcbs : ∀ t, (k'.tcbs t).addressSpace = (k.tcbs t).addressSpace ∧ (k'.tcbs t).nextSibling = (k.tcbs t).nextSibling ∧
      (k'.tcbs t).prevSibling = (k.tcbs t).prevSibling) : Spaced k' := by
  refine s.congr asAllocated asPool (fun as t => ?_) fun _ t _ => (tcbs t).2
  unfold InSpace
  rw [allocated, (tcbs t).1]

theorem setTcb (s : Spaced k) {t : Nat} {f : Tcb → Tcb} (keeps : ∀ tcb, (f tcb).addressSpace = tcb.addressSpace ∧
    (f tcb).nextSibling = tcb.nextSibling ∧ (f tcb).prevSibling = tcb.prevSibling) : Spaced (k.setTcb t f) := by
  refine s.aside rfl (fun _ => rfl) rfl fun u => ?_
  by_cases here : u = t
  · subst here
    rw [setTcb_same]
    exact keeps _
  · rw [setTcb_other _ _ _ _ here]
    exact ⟨rfl, rfl, rfl⟩

theorem unblockCaller (s : Spaced k) : Spaced k.unblockCaller := s.stable ((Stable.refl k).setThreadState _ _)

theorem setFrame (s : Spaced k) (sp : Word) (f : Frame → Frame) : Spaced (k.setFrame sp f) :=
  s.aside rfl (fun _ => rfl) rfl fun _ => ⟨rfl, rfl, rfl⟩

theorem refuse (s : Spaced k) (sp : Word) (err : ErrorCode) : Spaced (k.refuse sp err) :=
  s.aside rfl (fun _ => rfl) rfl fun _ => ⟨rfl, rfl, rfl⟩

theorem settleSpace (s : Spaced k) (sp : Word) (t as : Nat) (kipArea utcbArea : Word) :
    Spaced (k.settleSpace sp t as kipArea utcbArea) := by
  have checked : Spaced (k.checkUtcbArea sp as) := by
    unfold checkUtcbArea
    split
    · exact s.refuse sp _
    · exact s
  have area : Spaced ((k.checkUtcbArea sp as).setAs as fun space => { space with utcbPage := utcbArea }) := by
    refine checked.aside rfl (fun own => ?_) rfl fun _ => ⟨rfl, rfl, rfl⟩
    unfold setAs
    dsimp only
    rw [Function.update_apply]
    split
    · rename_i same
      rw [same]
    · rfl
  unfold Kernel.settleSpace
  refine Spaced.setFrame ?_ _ _
  unfold activateTarget
  split
  · have written : Spaced (((k.checkUtcbArea sp as).setAs as fun space => { space with utcbPage := utcbArea }).writeUtcb t) :=
      area.aside rfl (fun _ => rfl) rfl fun _ => ⟨rfl, rfl, rfl⟩
    exact written.stable ((Stable.refl _).setThreadState _ _)
  · exact area

theorem spaceControlled (s : Spaced k) (ok : k.SettlesLive) (h : SpaceControlled k k') : Spaced k' := by
  cases h with
  | refused err => exact s.refuse _ err
  | done found kip space =>
    rcases ensureAs_cases space with ⟨_, rfl⟩ | ⟨none_, _, free, rfl⟩
    · exact s.settleSpace _ _ _ _ _
    · exact (newSpace_siblings s free (ok _ found kip none_) none_).settleSpace _ _ _ _ _

theorem modified (s : Spaced k) {as : Nat} {dest scheduler pager utcbLocation : Word}
    (stays : k.allocated d = true → (k.tcbs d).addressSpace = some as) :
    Spaced (k.setTcb d (modified dest as scheduler pager utcbLocation)) := by
  have links : ∀ t, ((k.setTcb d (Kernel.modified dest as scheduler pager utcbLocation)).tcbs t).nextSibling = (k.tcbs t).nextSibling ∧
      ((k.setTcb d (Kernel.modified dest as scheduler pager utcbLocation)).tcbs t).prevSibling = (k.tcbs t).prevSibling := by
    intro t
    by_cases here : t = d
    · subst here
      rw [setTcb_same]
      exact ⟨rfl, rfl⟩
    · rw [setTcb_other _ _ _ _ here]
      exact ⟨rfl, rfl⟩
  refine s.congr rfl (fun _ => rfl) (fun own t => ?_) fun _ t _ => links t
  unfold InSpace
  show k.allocated t = true ∧ _ ↔ _
  refine and_congr_right fun live => ?_
  by_cases here : t = d
  · subst here
    rw [setTcb_same, stays live]
    rfl
  · rw [setTcb_other _ _ _ _ here]

theorem threadControlled (s : Spaced k) (deletes : k.DeletesInner) (moves : k.MovesNobody) (creates : k.CreatesLast)
    (h : ThreadControlled k k') : Spaced k' := by
  cases h with
  | privileged => exact s.refuse _ _
  | refused _ err => exact (s.refuse _ err).unblockCaller
  | deletedSelf user found nil exit deleted => exact (s.deleteThread (deletes nil _ found) deleted).setFrame _ _
  | deleted user found nil exit other deleted =>
    exact ((s.deleteThread (deletes nil _ found) deleted).setFrame _ _).unblockCaller
  | @modified dest space as user found named inside kept known fits =>
    have changed : Spaced (k.setTcb dest (Kernel.modified k.callerFrame.r0 as k.callerFrame.r2 k.callerFrame.r3 k.callerR4)) :=
      s.modified fun live => moves kept dest found live space named as inside known fits
    have written : Spaced ((k.setTcb dest (Kernel.modified k.callerFrame.r0 as k.callerFrame.r2 k.callerFrame.r3 k.callerR4)).writeUtcb
        dest) := changed.aside rfl (fun _ => rfl) rfl fun _ => ⟨rfl, rfl, rfl⟩
    exact (written.setFrame _ _).unblockCaller
  | @created t k₁ user missing inside made kept known fits =>
    refine Spaced.unblockCaller (Spaced.setFrame (s.joined (created_joined made) fun u named => ?_) _ _)
    obtain ⟨as, space⟩ := Option.ne_none_iff_exists'.mp (inside u named)
    obtain ⟨live, last⟩ := creates kept missing u named as space known (fits u as named space)
    exact ⟨⟨as, live, space⟩, last⟩

theorem scheduled (s : Spaced k) (h : Scheduled k k') : Spaced k' := by
  cases h with
  | refused err => exact s.refuse _ err
  | kept => exact s.aside rfl (fun _ => rfl) rfl fun _ => ⟨rfl, rfl, rfl⟩
  | @changed dest found controls bound =>
    obtain ⟨schedule, same, _⟩ := k.setThreadPriority_spec dest k.callerFrame.r3
    rw [same]
    have raised : Spaced (k.setTcb dest fun tcb => { tcb with priority := k.callerFrame.r3 }) := s.setTcb fun _ => ⟨rfl, rfl, rfl⟩
    exact raised.aside rfl (fun _ => rfl) rfl fun _ => ⟨rfl, rfl, rfl⟩

end Spaced

theorem softirqSvc_spaced {fuel : Nat} (s : Spaced k) (ok : Tidy k (.softirq fuel)) (pending : k.softirqPending = true)
    (h : softirqSvc fuel k = .ok k') : Spaced k' := by
  obtain ⟨control, settle⟩ := ok pending
  cases handled_of_softirqSvc h with
  | answered => exact (s.setFrame _ _).unblockCaller
  | space number done => exact (s.spaceControlled (settle number) done).unblockCaller
  | thread number done =>
    obtain ⟨deletes, moves, creates⟩ := control number
    exact s.threadControlled deletes moves creates done
  | ipc number done => exact s.stable (called_of_doIpc done).stable
  | unmap => exact s.unblockCaller
  | schedule number done => exact (s.scheduled done).unblockCaller
  | unknown => exact s

theorem step_spaced {a : Action} (s : Spaced k) (ok : Tidy k a) (step : Step k a k') : Spaced k' := by
  obtain ⟨_, h⟩ := step
  cases a with
  | user cpu mem => cases h; exact s.aside rfl (fun _ => rfl) rfl fun _ => ⟨rfl, rfl, rfl⟩
  | svc => exact s.stable (isrSvcall_stable h)
  | systick => exact s.stable (isrSystick_stable h)
  | pendsv => exact s.stable (switchContext_stable h)
  | softirq fuel =>
    obtain ⟨k₁, served, rfl⟩ := softirqExecute_cases h
    have s₁ : Spaced k₁ := by
      rcases served with ⟨pending, served⟩ | ⟨_, rfl⟩
      · exact softirqSvc_spaced s ok pending served
      · exact s
    have cleared : Spaced (k₁.setPending false) := s₁.aside rfl (fun _ => rfl) rfl fun _ => ⟨rfl, rfl, rfl⟩
    exact cleared.stable ((Stable.refl _).setThreadState _ _)
  | yield => exact s.stable (threadSwitch_stable h)
  | hardfault lr =>
    obtain ⟨_, k₁, deleted, rfl⟩ := isrHardfault_cases h
    exact (s.deleteThread ok deleted).aside rfl (fun _ => rfl) rfl fun _ => ⟨rfl, rfl, rfl⟩

theorem boot_spaced {info : BootInfo} (h : boot info = .ok k) : Spaced k := by
  have b := booted h
  refine ⟨fun as used => ?_, fun t as here => ?_⟩
  · rw [b.asAllocated] at used
    cases used
  · obtain ⟨live, space⟩ := here
    have used := (b.allocated t).mp live
    have system : t = kernTcb ∨ t = idleTcb ∨ t = rootTcb := by unfold kernTcb idleTcb rootTcb; omega
    rcases system with rfl | rfl | rfl
    · rw [b.kernel] at space; cases space
    · rw [b.idle] at space; cases space
    · rw [b.root] at space; cases space

/-! ### Runs -/

/-- In every run of tidy steps, the siblings of every space in use are linked into one list of exactly its
live threads, from its first thread on, each linked back to the one before it. -/
theorem siblings_of_run {info : BootInfo} {b : Kernel} {actions : List Action} {as : Nat} (booted : boot info = .ok b)
    (run : Theory.Run (Theory.Guarded Tidy Step) b actions k) (used : k.asAllocated as = true) :
    ∃ list, Siblings k as list ∧ list.Nodup ∧ k.allocated (k.asPool as).firstThread = true := by
  have s : Spaced k := run.invariant (fun _ _ _ step s => step_spaced s step.1 step.2) (boot_spaced booted)
  obtain ⟨list, l⟩ := s.lists as used
  obtain ⟨rest, split_⟩ := l.first
  have live : k.InSpace as (k.asPool as).firstThread := (l.members _).mp (by rw [split_]; simp)
  exact ⟨list, l, l.nodup, live.1⟩

/-- The small system puts the root thread and the second thread into one space. -/
theorem siblings_of_run_small : ∃ b k actions, boot SmallSystem.bootInfo = .ok b ∧
    Theory.Run (Theory.Guarded Tidy Step) b actions k ∧ k.InSpace 0 3 ∧ ∃ list, Siblings k 0 list ∧ 3 ∈ list := by
  have done : ((boot SmallSystem.bootInfo).toOption.any fun b =>
      (Theory.follow (Theory.restrict Tidy next) b SmallSystem.setup).any fun k =>
        decide (k.asAllocated 0 = true ∧ k.allocated 3 = true ∧ (k.tcbs 3).addressSpace = some 0)) = true := by decide +kernel
  obtain ⟨b, booted, later⟩ := (Option.any_eq_true _ _).mp done
  obtain ⟨k, ran, holds⟩ := (Option.any_eq_true _ _).mp later
  obtain ⟨used, live, space⟩ := of_decide_eq_true holds
  obtain ⟨actions, run⟩ := Theory.run_of_follow (Theory.guarded_of_restrict step_of_next) ran
  have booted := ok_of_toOption booted
  obtain ⟨list, l, _⟩ := siblings_of_run booted run used
  exact ⟨b, k, actions, booted, run, ⟨live, space⟩, list, l, (l.members 3).mpr ⟨live, space⟩⟩

/-- The root thread creates a second and then a third thread in its space. -/
def createTwo : List (Kernel → Action) :=
  SmallSystem.setup.take 13 ++ [SmallSystem.load 0x4000#32 (globalId 0x42#32 1#32) rootId rootId rootId 0x5200#32 2#32] ++
  SmallSystem.serve

/-- The third thread is linked in before the second one, whose `prev_sibling` still is the root thread. -/
theorem createTwo_unlinked : ∃ b k actions, boot SmallSystem.bootInfo = .ok b ∧ Theory.Run Step b actions k ∧
    k.asAllocated 0 = true ∧ ¬ ∃ list, Siblings k 0 list := by
  have done : ((SmallSystem.after createTwo).any fun k => decide (k.asAllocated 0 = true ∧ (k.asPool 0).firstThread = 2 ∧
      (k.tcbs 2).nextSibling = some 4 ∧ (k.tcbs 4).nextSibling = some 3 ∧ (k.tcbs 3).nextSibling = none ∧
      (k.tcbs 3).prevSibling = some 2)) = true := by decide +kernel
  obtain ⟨b, k, actions, booted, run, _, holds⟩ := SmallSystem.reached_after done
  obtain ⟨used, first, second, third, last, back⟩ := of_decide_eq_true holds
  refine ⟨b, k, actions, booted, run, used, ?_⟩
  intro ⟨list, l⟩
  have walk : Theory.Chain k.nextOf none (some (k.asPool 0).firstThread) ([2, 4, 3].map some) :=
    ⟨⟨congrArg some first, second, third, last⟩, by decide⟩
  have same : list = [2, 4, 3] := (List.map_injective_iff.mpr (Option.some_injective Nat)) (l.chain.unique walk)
  have linked : (k.tcbs 3).prevSibling = some 4 := by
    have prev := l.prev
    rw [same] at prev
    simpa using (List.isChain_cons_cons.mp (List.isChain_cons_cons.mp prev).2).1
  rw [back] at linked
  cases linked

end BradypOS.Kernel
