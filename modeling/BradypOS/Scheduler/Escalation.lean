import BradypOS.Syscall.Returns
import BradypOS.Thread.Boot
import BradypOS.Thread.Kept

/-!
# No priority escalation

The idle thread and the kernel thread are scheduled by the kernel thread, which lies in no address
space. A caller that lies in one can therefore change the priority of user threads alone, and to
nothing more urgent than its own.
-/

namespace BradypOS.Kernel

open L4

variable {k k' : Kernel}

def UserThread (k : Kernel) (t : Nat) : Prop := k.allocated t = true ∧ t ≠ kernTcb ∧ t ≠ idleTcb

/-- The priority that `create_thread` gives a thread. -/
def userPriority : Word := 42#32

structure Ranked (k : Kernel) : Prop where
  kernel : k.allocated kernTcb = true
  idle : k.allocated idleTcb = true
  kernelNo : threadNo (k.tcbs kernTcb).globalId = threadNo kernId
  idleNo : threadNo (k.tcbs idleTcb).globalId = threadNo idleId
  unique : ∀ t, threadNo (k.tcbs t).globalId = threadNo kernId → t = kernTcb
  space : (k.tcbs kernTcb).addressSpace = none
  scheduler : ∀ t, t = kernTcb ∨ t = idleTcb → (k.tcbs t).scheduler = kernId
  kernelPriority : (k.tcbs kernTcb).priority = 0#32
  idlePriority : (k.tcbs idleTcb).priority = 0xFFFFFFFF#32
  users : ∀ t, k.UserThread t → userPriority ≤ (k.tcbs t).priority

namespace Ranked

/-- A change that gives no thread another id, scheduler or priority, and the kernel thread no space. -/
theorem of_same (r : Ranked k) (kernel : k'.allocated kernTcb = true) (idle : k'.allocated idleTcb = true)
    (fewer : ∀ t, k'.allocated t = true → k.allocated t = true)
    (same : ∀ t, (k'.tcbs t).globalId = (k.tcbs t).globalId ∧ (k'.tcbs t).scheduler = (k.tcbs t).scheduler ∧
      (k'.tcbs t).priority = (k.tcbs t).priority)
    (space : (k'.tcbs kernTcb).addressSpace = (k.tcbs kernTcb).addressSpace) : Ranked k' where
  kernel := kernel
  idle := idle
  kernelNo := by rw [(same _).1]; exact r.kernelNo
  idleNo := by rw [(same _).1]; exact r.idleNo
  unique t no := r.unique t (by rw [← (same t).1]; exact no)
  space := space.trans r.space
  scheduler t system := by rw [(same t).2.1]; exact r.scheduler t system
  kernelPriority := by rw [(same _).2.2]; exact r.kernelPriority
  idlePriority := by rw [(same _).2.2]; exact r.idlePriority
  users t user := by rw [(same t).2.2]; exact r.users t ⟨fewer t user.1, user.2⟩

theorem kept (r : Ranked k) (h : Kept k k') : Ranked k' := by
  refine r.of_same ?_ ?_ (fun t live => h.allocated ▸ live) (fun t => ?_) ?_
  · rw [h.allocated]; exact r.kernel
  · rw [h.allocated]; exact r.idle
  · obtain ⟨_, _, _, same⟩ := h.tcbs t
    rw [same]
    exact ⟨rfl, rfl, rfl⟩
  · obtain ⟨_, _, _, same⟩ := h.tcbs kernTcb
    rw [same]

theorem aside (r : Ranked k) (tcbs : k'.tcbs = k.tcbs) (allocated : k'.allocated = k.allocated) : Ranked k' := by
  refine r.of_same ?_ ?_ (fun t live => allocated ▸ live) (fun t => ?_) ?_
  · rw [allocated]; exact r.kernel
  · rw [allocated]; exact r.idle
  · rw [tcbs]; exact ⟨rfl, rfl, rfl⟩
  · rw [tcbs]

theorem setMem (r : Ranked k) (mem : Memory) : Ranked (k.setMem mem) := r.aside rfl rfl

/-- A change to a TCB that touches neither rank nor, for the kernel thread, the space. -/
theorem setTcb (r : Ranked k) {t : Nat} {f : Tcb → Tcb}
    (same : (f (k.tcbs t)).globalId = (k.tcbs t).globalId ∧ (f (k.tcbs t)).scheduler = (k.tcbs t).scheduler ∧
      (f (k.tcbs t)).priority = (k.tcbs t).priority)
    (space : t = kernTcb → (f (k.tcbs t)).addressSpace = (k.tcbs t).addressSpace) : Ranked (k.setTcb t f) := by
  refine r.of_same r.kernel r.idle (fun _ live => live) (fun u => ?_) ?_
  · by_cases here : u = t
    · subst here
      rw [setTcb_same]
      exact same
    · rw [setTcb_other _ _ _ _ here]
      exact ⟨rfl, rfl, rfl⟩
  · by_cases here : kernTcb = t
    · subst here
      rw [setTcb_same]
      exact space rfl
    · rw [setTcb_other _ _ _ _ here]

/-- Any change to a user thread's TCB that leaves it a user's number and priority. -/
theorem setUser (r : Ranked k) {t : Nat} {f : Tcb → Tcb} (kernel : t ≠ kernTcb) (idle : t ≠ idleTcb)
    (number : threadNo (f (k.tcbs t)).globalId ≠ threadNo kernId)
    (priority : k.allocated t = true → userPriority ≤ (f (k.tcbs t)).priority) : Ranked (k.setTcb t f) := by
  have atKernel : (k.setTcb t f).tcbs kernTcb = k.tcbs kernTcb := setTcb_other _ _ _ _ (Ne.symm kernel)
  have atIdle : (k.setTcb t f).tcbs idleTcb = k.tcbs idleTcb := setTcb_other _ _ _ _ (Ne.symm idle)
  refine ⟨r.kernel, r.idle, ?_, ?_, fun u no => ?_, ?_, ?_, ?_, ?_, fun u user => ?_⟩
  · rw [atKernel]; exact r.kernelNo
  · rw [atIdle]; exact r.idleNo
  · by_cases here : u = t
    · subst here
      rw [setTcb_same] at no
      exact absurd no number
    · rw [setTcb_other _ _ _ _ here] at no
      exact r.unique u no
  · rw [atKernel]; exact r.space
  · rintro u (rfl | rfl)
    · rw [atKernel]; exact r.scheduler _ (.inl rfl)
    · rw [atIdle]; exact r.scheduler _ (.inr rfl)
  · rw [atKernel]; exact r.kernelPriority
  · rw [atIdle]; exact r.idlePriority
  · by_cases here : u = t
    · subst here
      rw [setTcb_same]
      exact priority user.1
    · rw [setTcb_other _ _ _ _ here]
      exact r.users u user

theorem user_of_found (r : Ranked k) {id : Word} {t : Nat} (user : UserDest id) (found : k.findThreadByGlobalId id = some t) :
    t ≠ kernTcb ∧ t ≠ idleTcb := by
  obtain ⟨_, _, _, number⟩ := find_spec found
  obtain ⟨notKernel, notIdle⟩ := threadNo_of_userDest user
  constructor
  · intro same
    rw [same, r.kernelNo] at number
    exact notKernel number.symm
  · intro same
    rw [same, r.idleNo] at number
    exact notIdle number.symm

theorem deleteThread (r : Ranked k) {d : Nat} (kernel : d ≠ kernTcb) (idle : d ≠ idleTcb)
    (h : k.deleteThread d = .ok k') : Ranked k' := by
  have gone := deleteThread_gone h
  refine r.of_same ?_ ?_ (fun t live => ?_) (fun t => ?_) ?_
  · rw [gone.allocated, Function.update_of_ne (Ne.symm kernel)]; exact r.kernel
  · rw [gone.allocated, Function.update_of_ne (Ne.symm idle)]; exact r.idle
  · rw [gone.allocated, Function.update_apply] at live
    split at live
    · cases live
    · exact live
  · obtain ⟨_, _, same⟩ := gone.tcbs t
    rw [same]
    exact ⟨rfl, rfl, rfl⟩
  · obtain ⟨_, _, same⟩ := gone.tcbs kernTcb
    rw [same]

theorem takeTcb (r : Ranked k) {t : Nat} {f : Tcb → Tcb} (free : k.allocated t = false)
    (number : threadNo (f (k.tcbs t)).globalId ≠ threadNo kernId) (priority : userPriority ≤ (f (k.tcbs t)).priority) :
    Ranked ((k.takeTcb t).setTcb t f) := by
  have kernel : t ≠ kernTcb := fun same => by rw [same, r.kernel] at free; cases free
  have idle : t ≠ idleTcb := fun same => by rw [same, r.idle] at free; cases free
  have set : Ranked (k.setTcb t f) := r.setUser kernel idle number fun _ => priority
  refine ⟨?_, ?_, set.kernelNo, set.idleNo, set.unique, set.space, set.scheduler, set.kernelPriority,
    set.idlePriority, fun u user => ?_⟩
  · exact (Function.update_of_ne (Ne.symm kernel) ..).trans r.kernel
  · exact (Function.update_of_ne (Ne.symm idle) ..).trans r.idle
  · by_cases here : u = t
    · subst here
      have written : ((k.takeTcb u).setTcb u f).tcbs u = f (k.tcbs u) := setTcb_same ..
      rw [written]
      exact priority
    · have live : Function.update k.allocated t true u = true := user.1
      rw [Function.update_of_ne here] at live
      exact set.users u ⟨live, user.2⟩

/-! ### The system calls -/

theorem spaceControlled (r : Ranked k) (h : SpaceControlled k k')
    (target : k.findThreadByGlobalId k.callerFrame.r0 ≠ some kernTcb) : Ranked k' := by
  cases h with
  | refused => exact r.aside rfl rfl
  | @done t as k₁ found kip space =>
    have made : Ranked k₁ := by
      rcases ensureAs_cases space with ⟨_, rfl⟩ | ⟨_, _, _, rfl⟩
      · exact r
      · have taken : ∀ f, Ranked ((k.takeAs as).setAs as f) := fun f => r.aside rfl rfl
        apply (taken _).setTcb
        · exact ⟨rfl, rfl, rfl⟩
        · intro same
          exact absurd (same ▸ found) target
    have checked : ∀ sp, Ranked (k₁.checkUtcbArea sp as) := by
      intro sp
      unfold checkUtcbArea
      split
      · exact made.aside rfl rfl
      · exact made
    have given : ∀ sp f, Ranked ((k₁.checkUtcbArea sp as).setAs as f) := fun sp f => (checked sp).aside rfl rfl
    have active : ∀ sp f a u, Ranked (((k₁.checkUtcbArea sp as).setAs as f).activateTarget t a u) := by
      intro sp f a u
      unfold activateTarget
      split
      · have written : Ranked (((k₁.checkUtcbArea sp as).setAs as f).writeUtcb t) := (given sp f).aside rfl rfl
        exact written.kept ((Kept.refl _).setThreadState t .active)
      · exact given sp f
    exact (active _ _ _ _).aside rfl rfl

theorem unblockCaller (r : Ranked k) : Ranked k.unblockCaller := r.kept ((Kept.refl k).setThreadState _ _)

theorem joinSiblings (r : Ranked k) {t s : Nat} (kernel : t ≠ kernTcb) (idle : t ≠ idleTcb)
    (number : threadNo (k.tcbs t).globalId ≠ threadNo kernId) (priority : userPriority ≤ (k.tcbs t).priority) :
    Ranked (k.joinSiblings t s) := by
  have linked : ∀ as next prev, Ranked (k.setTcb t fun new =>
      { new with addressSpace := as, nextSibling := next, prevSibling := prev }) :=
    fun _ _ _ => r.setUser kernel idle number fun _ => priority
  unfold Kernel.joinSiblings
  exact (linked _ _ _).setTcb ⟨rfl, rfl, rfl⟩ fun _ => rfl

theorem joinSiblings_rank (k : Kernel) (t s : Nat) :
    ((k.joinSiblings t s).tcbs t).globalId = (k.tcbs t).globalId ∧ ((k.joinSiblings t s).tcbs t).priority = (k.tcbs t).priority := by
  unfold Kernel.joinSiblings
  by_cases here : t = s
  · subst here
    simp only [setTcb_same, and_self]
  · simp only [setTcb_other _ _ _ _ here, setTcb_same, and_self]

theorem placeThread (r : Ranked k) {t : Nat} (kernel : t ≠ kernTcb) (idle : t ≠ idleTcb) (space : Option Nat)
    {dest : Word} (number : threadNo dest ≠ threadNo kernId) (scheduler pager utcbLocation : Word)
    (priority : userPriority ≤ (k.tcbs t).priority) : Ranked (k.placeThread t space dest scheduler pager utcbLocation) := by
  have named : ∀ st, Ranked (k.setTcb t fun new =>
      { new with globalId := dest, localId := utcbLocation, utcb := utcbLocation, state := st }) :=
    fun st => r.setUser kernel idle number fun _ => priority
  have at_t : ∀ st, ((k.setTcb t fun new =>
      { new with globalId := dest, localId := utcbLocation, utcb := utcbLocation, state := st }).tcbs t).priority =
        (k.tcbs t).priority := by
    intro st
    rw [setTcb_same]
  unfold Kernel.placeThread
  cases space with
  | none =>
    refine Ranked.setUser (named _) kernel idle ?_ fun _ => ?_
    · rw [setTcb_same]
      exact number
    · exact (at_t _).symm ▸ priority
  | some s =>
    have named_t : ∀ st, ((k.setTcb t fun new =>
        { new with globalId := dest, localId := utcbLocation, utcb := utcbLocation, state := st }).tcbs t).globalId = dest := by
      intro st
      rw [setTcb_same]
    refine Ranked.setUser ((named _).joinSiblings kernel idle ?_ ?_) kernel idle ?_ fun _ => ?_
    · rw [named_t]; exact number
    · rw [at_t]; exact priority
    · show threadNo ((Kernel.joinSiblings _ t s).tcbs t).globalId ≠ _
      rw [(joinSiblings_rank _ t s).1, named_t]
      exact number
    · show userPriority ≤ ((Kernel.joinSiblings _ t s).tcbs t).priority
      rw [(joinSiblings_rank _ t s).2, at_t]
      exact priority

theorem threadControlled (r : Ranked k) (h : ThreadControlled k k') : Ranked k' := by
  cases h with
  | privileged => exact r.aside rfl rfl
  | refused _ err =>
    have told : Ranked (k.refuse k.callerSp err) := r.aside rfl rfl
    exact told.unblockCaller
  | deletedSelf user found nil exit deleted =>
    obtain ⟨kernel, idle⟩ := r.user_of_found user found
    exact (r.deleteThread kernel idle deleted).aside rfl rfl
  | @deleted dest k₁ user found nil exit other deleted =>
    obtain ⟨kernel, idle⟩ := r.user_of_found user found
    have told : Ranked (k₁.succeeded k.callerSp) := (r.deleteThread kernel idle deleted).aside rfl rfl
    exact told.unblockCaller
  | @modified dest space as user found named inside =>
    obtain ⟨kernel, idle⟩ := r.user_of_found user found
    have changed : Ranked (k.setTcb dest
        (modified k.callerFrame.r0 as k.callerFrame.r2 k.callerFrame.r3 k.callerR4)) :=
      r.setUser kernel idle (threadNo_of_userDest user).1 fun live => r.users dest ⟨live, kernel, idle⟩
    have told : Ranked (((k.setTcb dest (modified k.callerFrame.r0 as k.callerFrame.r2 k.callerFrame.r3
      k.callerR4)).writeUtcb dest).succeeded k.callerSp) := changed.aside rfl rfl
    exact told.unblockCaller
  | @created t k₁ user missing inside made =>
    rcases createThread_spec made with ⟨none, _⟩ | ⟨t', list, same, slot, _, rfl⟩
    · cases none
    · cases same
      obtain ⟨_, free⟩ := allocateTcb_spec slot
      have kernel : t ≠ kernTcb := fun same => by rw [same, r.kernel] at free; cases free
      have idle : t ≠ idleTcb := fun same => by rw [same, r.idle] at free; cases free
      have number := (threadNo_of_userDest user).1
      have taken : Ranked ((k.takeTcb t).setTcb t (freshTcb k.callerFrame.r0)) := r.takeTcb free number (BitVec.le_refl userPriority)
      have listed : Ranked ((((k.takeTcb t).setTcb t (freshTcb k.callerFrame.r0)).setTable (k.threadCount + 1) list).log
        (.created t)) := taken.aside rfl rfl
      have fresh : ((k.takeTcb t).setTcb t (freshTcb k.callerFrame.r0)).tcbs t = freshTcb k.callerFrame.r0 (k.tcbs t) :=
        setTcb_same ..
      refine Ranked.unblockCaller (Ranked.setMem ?_ _)
      refine listed.placeThread kernel idle (k.findThreadByGlobalId k.callerFrame.r1) number k.callerFrame.r2
        k.callerFrame.r3 k.callerR4 ?_
      show userPriority ≤ (((k.takeTcb t).setTcb t (freshTcb k.callerFrame.r0)).tcbs t).priority
      rw [fresh]
      exact BitVec.le_refl userPriority

theorem user_of_controls (r : Ranked k) {dest : Nat} (inside : (k.tcbs k.caller).addressSpace ≠ none)
    (controls : k.Controls dest) : dest ≠ kernTcb ∧ dest ≠ idleTcb := by
  obtain ⟨s, found, shared⟩ := controls
  have contra : ¬ (dest = kernTcb ∨ dest = idleTcb) := by
    intro system
    rw [r.scheduler dest system] at found
    obtain ⟨_, _, _, number⟩ := find_spec found
    rw [r.unique s number, r.space] at shared
    exact inside shared
  exact ⟨fun same => contra (.inl same), fun same => contra (.inr same)⟩

theorem scheduled (r : Ranked k) (h : Scheduled k k') (user : k.UserThread k.caller)
    (inside : (k.tcbs k.caller).addressSpace ≠ none) : Ranked k' := by
  cases h with
  | refused => exact r.aside rfl rfl
  | kept => exact r.aside rfl rfl
  | @changed dest found controls bound =>
    obtain ⟨kernel, idle⟩ := r.user_of_controls inside controls
    obtain ⟨schedule, same, _⟩ := k.setThreadPriority_spec dest k.callerFrame.r3
    rw [same]
    have raised : Ranked (k.setTcb dest fun tcb => { tcb with priority := k.callerFrame.r3 }) := by
      refine r.setUser kernel idle ?_ fun _ => ?_
      · exact fun number => kernel (r.unique dest number)
      · exact BitVec.le_trans (r.users _ user) bound
    exact raised.aside rfl rfl

end Ranked

/-! ### The steps -/

/-- The callers of SCHEDULE and THREAD_CONTROL are user threads that belong to an address space;
SPACE_CONTROL is not called on the kernel thread. -/
def Granted (k : Kernel) : Action → Prop
  | .softirq _ => k.softirqPending = true →
    (k.pendingCall = some .schedule ∨ k.pendingCall = some .threadControl →
      k.UserThread k.caller ∧ (k.tcbs k.caller).addressSpace ≠ none) ∧
    (k.pendingCall = some .spaceControl → k.findThreadByGlobalId k.callerFrame.r0 ≠ some kernTcb)
  | _ => True

theorem Scheduled.bound (h : Scheduled k k') {t : Nat} (changed : (k'.tcbs t).priority ≠ (k.tcbs t).priority) :
    (k.tcbs k.caller).priority ≤ (k'.tcbs t).priority := by
  cases h with
  | refused => exact absurd rfl changed
  | kept => exact absurd rfl changed
  | @changed dest found controls bound =>
    obtain ⟨schedule, same, _⟩ := k.setThreadPriority_spec dest k.callerFrame.r3
    rw [same] at changed ⊢
    have written : ((((k.setTcb dest fun tcb => { tcb with priority := k.callerFrame.r3 }).setSchedule schedule).scheduled
        k.callerSp dest).tcbs t) = (k.setTcb dest fun tcb => { tcb with priority := k.callerFrame.r3 }).tcbs t := rfl
    rw [written] at changed ⊢
    by_cases here : t = dest
    · subst here
      rw [setTcb_same]
      exact bound
    · rw [setTcb_other _ _ _ _ here] at changed
      exact absurd rfl changed

instance (k : Kernel) (t : Nat) : Decidable (k.UserThread t) := inferInstanceAs (Decidable (_ ∧ _))

instance (k : Kernel) : (a : Action) → Decidable (Granted k a)
  | .softirq _ => inferInstanceAs (Decidable (_ = true → (_ ∨ _ → _ ∧ _) ∧ (_ → _)))
  | .user _ _ | .svc | .systick | .pendsv | .yield | .hardfault _ => inferInstanceAs (Decidable True)

end BradypOS.Kernel
