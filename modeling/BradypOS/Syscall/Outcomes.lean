import BradypOS.Thread.Table

/-!
# What the system calls do

One rule for each way in which a handler of `softirq_svc` can end. Properties of a handler are
proved by cases on its outcomes, and the handlers themselves are unfolded here alone.
-/

namespace BradypOS

open L4

namespace Kernel

variable {k k' : Kernel}

/-- Where the caller's trap left its frame. -/
def callerSp (k : Kernel) : Word := (k.tcbs k.caller).ctx.sp

def callerR4 (k : Kernel) : Word := (k.tcbs k.caller).ctx.r4

/-- The number of the pending system call. -/
def pendingCall (k : Kernel) : Option Syscall := Syscall.ofWord (k.tcbs k.caller).ctx.r7

/-! ### `space_control` -/

/-- The space of a thread that has none yet, in which it is alone. -/
def newSpace (k : Kernel) (t as : Nat) : Kernel :=
  ((k.takeAs as).setAs as fun _ => { refCount := 1, utcbPage := 0#32, firstThread := t }).setTcb t fun tcb =>
    { tcb with nextSibling := none, prevSibling := none, addressSpace := some as }

theorem ensureAs_cases {t as : Nat} (h : k.ensureAs t = .ok (as, k')) :
    ((k.tcbs t).addressSpace = some as ∧ k' = k) ∨
      ((k.tcbs t).addressSpace = none ∧ as < maxAddressSpaces ∧ k.asAllocated as = false ∧ k' = k.newSpace t as) := by
  unfold ensureAs at h
  split at h
  · rename_i some
    cases h
    exact .inl ⟨some, rfl⟩
  · rename_i none
    obtain ⟨⟨as', k₁⟩, made, h⟩ := bind_ok h
    cases h
    unfold createAs at made
    split at made
    · cases made
    · rename_i free
      cases made
      have inside := List.mem_range.mp (List.mem_of_find?_eq_some free)
      have unused := List.find?_some free
      exact .inr ⟨none, inside, by simpa using unused, rfl⟩

/-- The space of `target` gets its UTCB area, and the target can be started. -/
def settleSpace (k : Kernel) (sp : Word) (target as : Nat) (kipArea utcbArea : Word) : Kernel :=
  (((k.checkUtcbArea sp as).setAs as fun space => { space with utcbPage := utcbArea }).activateTarget
    target kipArea utcbArea).setFrame sp fun f => { f with r0 := 1#32, r1 := 0#32 }

inductive SpaceControlled (k : Kernel) : Kernel → Prop where
  | refused (err : ErrorCode) : SpaceControlled k (k.refuse k.callerSp err)
  | done {target as : Nat} {k₁ : Kernel} (found : k.findThreadByGlobalId k.callerFrame.r0 = some target)
      (kip : k.callerFrame.r2 = k.kipFpage) (space : k.ensureAs target = .ok (as, k₁)) :
      SpaceControlled k (k₁.settleSpace k.callerSp target as k.callerFrame.r2 k.callerFrame.r3)

theorem spaceControlled (h : k.syscallSpaceControl = .ok k') : SpaceControlled k k' := by
  unfold syscallSpaceControl at h
  dsimp only at h
  split at h
  · cases h; exact .refused _
  · rename_i target found
    split at h
    · cases h; exact .refused _
    · rename_i kip
      obtain ⟨⟨as, k₁⟩, space, h⟩ := bind_ok h
      cases h
      exact .done found (Decidable.not_not.mp kip) space

/-! ### `thread_control` -/

/-- NIL, or the number of a user thread: `thread_control` refuses any other destination. -/
def UserDest (id : Word) : Prop := isNilThread id = true ∨ ¬ threadNo id < userThreadStart

instance (id : Word) : Decidable (UserDest id) := inferInstanceAs (Decidable (_ ∨ _))

theorem threadNo_of_userDest {id : Word} (user : UserDest id) : threadNo id ≠ threadNo kernId ∧ threadNo id ≠ threadNo idleId := by
  rcases user with nil | high
  · rw [isNilThread_iff.mp nil]
    decide
  · constructor
    · intro same
      exact high (by rw [same]; decide)
    · intro same
      exact high (by rw [same]; decide)

/-- What `syscall_thread_control_modify` writes into the destination's TCB. -/
def modified (dest : Word) (as : Nat) (scheduler pager utcbLocation : Word) (tcb : Tcb) : Tcb :=
  { tcb with
    globalId := dest, addressSpace := some as
    scheduler := if isNilThread scheduler then tcb.scheduler else scheduler
    pager := if sameThreads pager nilThread then tcb.pager else pager
    utcb := if utcbLocation = 0xFFFFFFFF#32 then tcb.utcb else utcbLocation }

/-- The scheduler that the call names is NIL or a thread. -/
def KnownScheduler (k : Kernel) (scheduler : Word) : Prop :=
  isNilThread scheduler = true ∨ (k.findThreadByGlobalId scheduler).isSome = true

instance (k : Kernel) (scheduler : Word) : Decidable (k.KnownScheduler scheduler) := inferInstanceAs (Decidable (_ ∨ _))

theorem knownScheduler_of_check {scheduler : Word}
    (h : ¬ (!isNilThread scheduler && (k.findThreadByGlobalId scheduler).isNone) = true) : k.KnownScheduler scheduler := by
  unfold KnownScheduler
  cases nil : isNilThread scheduler with
  | true => exact .inl rfl
  | false =>
    rw [nil] at h
    cases found : k.findThreadByGlobalId scheduler with
    | none => rw [found] at h; exact absurd rfl h
    | some s => exact .inr rfl

/-- The UTCB lies in the UTCB area of the space. -/
def HoldsUtcb (k : Kernel) (as : Nat) (utcbLocation : Word) : Prop :=
  fpageContainsObject (k.asPool as).utcbPage utcbLocation utcbSize = true

instance (k : Kernel) (as : Nat) (utcbLocation : Word) : Decidable (k.HoldsUtcb as utcbLocation) :=
  inferInstanceAs (Decidable (_ = true))

def succeeded (k : Kernel) (sp : Word) : Kernel := k.setFrame sp fun f => { f with r0 := 1#32 }

inductive ThreadControlled (k : Kernel) : Kernel → Prop where
  /-- The caller is not unblocked. -/
  | privileged (system : ¬ UserDest k.callerFrame.r0) : ThreadControlled k (k.refuse k.callerSp .noPrivilege)
  | refused (user : UserDest k.callerFrame.r0) (err : ErrorCode) :
      ThreadControlled k (k.refuse k.callerSp err).unblockCaller
  | deletedSelf {k₁ : Kernel} (user : UserDest k.callerFrame.r0)
      (found : k.findThreadByGlobalId k.callerFrame.r0 = some k.caller) (nil : sameThreads k.callerFrame.r1 nilThread)
      (exit : k.caller ≠ rootTcb) (deleted : k.deleteThread k.caller = .ok k₁) : ThreadControlled k (k₁.succeeded k.callerSp)
  | deleted {dest : Nat} {k₁ : Kernel} (user : UserDest k.callerFrame.r0)
      (found : k.findThreadByGlobalId k.callerFrame.r0 = some dest) (nil : sameThreads k.callerFrame.r1 nilThread)
      (exit : dest ≠ rootTcb) (other : dest ≠ k.caller) (deleted : k.deleteThread dest = .ok k₁) :
      ThreadControlled k (k₁.succeeded k.callerSp).unblockCaller
  | modified {dest space as : Nat} (user : UserDest k.callerFrame.r0)
      (found : k.findThreadByGlobalId k.callerFrame.r0 = some dest)
      (named : k.findThreadByGlobalId k.callerFrame.r1 = some space) (inside : (k.tcbs space).addressSpace = some as)
      (moves : sameThreads k.callerFrame.r1 nilThread = false) (known : k.KnownScheduler k.callerFrame.r2)
      (fits : k.HoldsUtcb as k.callerR4) :
      ThreadControlled k (((k.setTcb dest
        (modified k.callerFrame.r0 as k.callerFrame.r2 k.callerFrame.r3 k.callerR4)).writeUtcb dest).succeeded
          k.callerSp).unblockCaller
  | created {t : Nat} {k₁ : Kernel} (user : UserDest k.callerFrame.r0)
      (missing : k.findThreadByGlobalId k.callerFrame.r0 = none)
      (inside : ∀ s, k.findThreadByGlobalId k.callerFrame.r1 = some s → (k.tcbs s).addressSpace ≠ none)
      (made : k.createThread k.callerFrame.r0 = .ok (some t, k₁))
      (moves : sameThreads k.callerFrame.r1 nilThread = false) (known : k.KnownScheduler k.callerFrame.r2)
      (fits : ∀ s as, k.findThreadByGlobalId k.callerFrame.r1 = some s → (k.tcbs s).addressSpace = some as →
        k.HoldsUtcb as k.callerR4) :
      ThreadControlled k ((k₁.placeThread t (k.findThreadByGlobalId k.callerFrame.r1) k.callerFrame.r0
        k.callerFrame.r2 k.callerFrame.r3 k.callerR4).succeeded k.callerSp).unblockCaller

theorem syscallThreadControlModify_cases {sp : Word} {destTcb : Nat} {dest space scheduler pager utcbLocation : Word}
    (h : k.syscallThreadControlModify sp destTcb dest space scheduler pager utcbLocation = .ok k') :
    (∃ err, k' = k.refuse sp err) ∨ ∃ s as, k.findThreadByGlobalId space = some s ∧ (k.tcbs s).addressSpace = some as ∧
      k.KnownScheduler scheduler ∧ k.HoldsUtcb as utcbLocation ∧
      k' = ((k.setTcb destTcb (modified dest as scheduler pager utcbLocation)).writeUtcb destTcb).succeeded sp := by
  unfold syscallThreadControlModify at h
  split at h
  · cases h; exact .inl ⟨_, rfl⟩
  · rename_i s named
    split at h
    · cases h; exact .inl ⟨_, rfl⟩
    · rename_i known
      split at h
      · cases h
      · rename_i as inside
        split at h
        · cases h; exact .inl ⟨_, rfl⟩
        · rename_i fits
          cases h
          exact .inr ⟨s, as, named, inside, knownScheduler_of_check known, by simpa [HoldsUtcb] using fits, rfl⟩

theorem syscallThreadControlCreate_cases {sp dest space scheduler pager utcbLocation : Word}
    (h : k.syscallThreadControlCreate sp dest space scheduler pager utcbLocation = .ok k') :
    (∃ err, k' = k.refuse sp err) ∨ ∃ t k₁,
      (∀ s, k.findThreadByGlobalId space = some s → (k.tcbs s).addressSpace ≠ none) ∧ k.KnownScheduler scheduler ∧
      (∀ s as, k.findThreadByGlobalId space = some s → (k.tcbs s).addressSpace = some as → k.HoldsUtcb as utcbLocation) ∧
      k.createThread dest = .ok (some t, k₁) ∧
      k' = (k₁.placeThread t (k.findThreadByGlobalId space) dest scheduler pager utcbLocation).succeeded sp := by
  unfold syscallThreadControlCreate at h
  dsimp only at h
  split at h
  · cases h; exact .inl ⟨_, rfl⟩
  · split at h
    · cases h; exact .inl ⟨_, rfl⟩
    · rename_i inside
      split at h
      · cases h; exact .inl ⟨_, rfl⟩
      · rename_i known
        split at h
        · cases h; exact .inl ⟨_, rfl⟩
        · rename_i fits
          obtain ⟨⟨made, k₁⟩, created, h⟩ := bind_ok h
          cases made with
          | none => cases h
          | some t =>
            cases h
            refine .inr ⟨t, k₁, ?_, knownScheduler_of_check known, ?_, created, rfl⟩
            · intro s found outside
              rw [found] at inside
              exact inside (congrArg some outside)
            · intro s as found space
              rw [found] at fits
              simpa [space, HoldsUtcb] using fits

theorem threadControlled (h : k.syscallThreadControl = .ok k') : ThreadControlled k k' := by
  unfold syscallThreadControl at h
  dsimp only at h
  split at h
  · rename_i system
    cases h
    obtain ⟨named, low⟩ := Bool.and_eq_true_iff.mp system
    refine .privileged ?_
    rintro (nil | high)
    · have given : (!isNilThread k.callerFrame.r0) = true := named
      rw [nil] at given
      cases given
    · exact high (of_decide_eq_true low)
  · rename_i allowed
    have user : UserDest k.callerFrame.r0 := by
      by_cases nil : isNilThread k.callerFrame.r0 = true
      · exact .inl nil
      · refine .inr fun low => allowed ?_
        exact Bool.and_eq_true_iff.mpr ⟨congrArg not (Bool.eq_false_iff.mpr nil), decide_eq_true low⟩
    split at h
    · rename_i dest found
      split at h
      · rename_i nil
        unfold syscallThreadControlDelete at h
        obtain ⟨_, exit, h⟩ := bind_ok h
        obtain ⟨k₁, gone, h⟩ := bind_ok h
        have exit : dest ≠ rootTcb := of_decide_eq_true (kassert_ok exit)
        have caller : k₁.caller = k.caller := (deleteThread_gone gone).caller
        cases h
        have branch : (k₁.setFrame (k.tcbs k.caller).ctx.sp fun f => { f with r0 := 1#32 }).caller = k.caller := caller
        rw [branch]
        split
        · rename_i self
          subst self
          exact .deletedSelf user found nil exit gone
        · rename_i other
          exact .deleted user found nil exit other gone
      · rename_i moves
        obtain ⟨k₁, changed, h⟩ := bind_ok h
        cases h
        rcases syscallThreadControlModify_cases changed with ⟨err, rfl⟩ | ⟨s, as, named, inside, known, fits, rfl⟩
        · exact .refused user err
        · exact .modified user found named inside (Bool.eq_false_iff.mpr moves) known fits
    · rename_i missing
      split at h
      · cases h; exact .refused user _
      · rename_i moves
        obtain ⟨k₁, made, h⟩ := bind_ok h
        cases h
        rcases syscallThreadControlCreate_cases made with ⟨err, rfl⟩ | ⟨t, k₂, inside, known, fits, created, rfl⟩
        · exact .refused user err
        · exact .created user missing inside created (Bool.eq_false_iff.mpr moves) known fits

/-! ### `schedule` -/

/-- What `syscall_schedule` answers once the checks have passed. -/
def scheduled (k : Kernel) (sp : Word) (dest : Nat) : Kernel :=
  (k.setMem (k.mem.setUtcb (k.tcbs dest).utcb fun u => { u with processorNo := 0#32 })).setFrame sp fun f =>
    { f with r0 := (k.state dest).tstate, r1 := 0#32 }

/-- The caller shares the space of the thread that schedules `dest`. -/
def Controls (k : Kernel) (dest : Nat) : Prop :=
  ∃ s, k.findThreadByGlobalId (k.tcbs dest).scheduler = some s ∧ (k.tcbs k.caller).addressSpace = (k.tcbs s).addressSpace

inductive Scheduled (k : Kernel) : Kernel → Prop where
  | refused (err : ErrorCode) : Scheduled k (k.refuse k.callerSp err)
  | kept {dest : Nat} (found : k.findThreadByGlobalId k.callerFrame.r0 = some dest) :
      Scheduled k (k.scheduled k.callerSp dest)
  | changed {dest : Nat} (found : k.findThreadByGlobalId k.callerFrame.r0 = some dest) (controls : k.Controls dest)
      (bound : (k.tcbs k.caller).priority ≤ k.callerFrame.r3) :
      Scheduled k ((k.setThreadPriority dest k.callerFrame.r3).scheduled k.callerSp dest)

theorem scheduled_of_syscall (h : k.syscallSchedule = .ok k') : Scheduled k k' := by
  unfold syscallSchedule at h
  dsimp only at h
  split at h
  · cases h; exact .refused _
  · rename_i dest found
    split at h
    · cases h; exact .refused _
    · rename_i same
      split at h
      · cases h; exact .refused _
      · split at h
        · cases h; exact .refused _
        · rename_i bound
          split at h
          · cases h
          · cases h
            have controls : k.Controls dest := by
              obtain ⟨s, scheduler, here⟩ := Option.map_eq_some_iff.mp (Decidable.not_not.mp same)
              exact ⟨s, scheduler, of_decide_eq_true here⟩
            by_cases change : k.callerFrame.r3 = 0xFFFFFFFF#32
            · have none : ¬ (k.mem.frame (k.tcbs k.caller).ctx.sp).r3 ≠ 0xFFFFFFFF#32 := fun other => other change
              simp only [if_neg none]
              exact .kept found
            · have some : (k.mem.frame (k.tcbs k.caller).ctx.sp).r3 ≠ 0xFFFFFFFF#32 := change
              simp only [if_pos some]
              refine .changed found controls ?_
              exact BitVec.not_lt.mp fun low => bound ⟨change, low⟩

/-! ### The soft interrupt and the hard fault -/

inductive Handled (fuel : Nat) (k : Kernel) : Kernel → Prop where
  | answered : Handled fuel k k.syscallKernelInterface.unblockCaller
  | space {k₁ : Kernel} (number : k.pendingCall = some .spaceControl) (done : SpaceControlled k k₁) :
      Handled fuel k k₁.unblockCaller
  | thread {k₁ : Kernel} (number : k.pendingCall = some .threadControl) (done : ThreadControlled k k₁) : Handled fuel k k₁
  | ipc {k₁ : Kernel} (number : k.pendingCall = some .ipc) (done : syscallIpc fuel k = .ok k₁) : Handled fuel k k₁
  | unmap : Handled fuel k k.unblockCaller
  | schedule {k₁ : Kernel} (number : k.pendingCall = some .schedule) (done : Scheduled k k₁) : Handled fuel k k₁.unblockCaller
  /-- The number of no system call. -/
  | unknown : Handled fuel k k

theorem handled_of_softirqSvc {fuel : Nat} (h : softirqSvc fuel k = .ok k') : Handled fuel k k' := by
  unfold softirqSvc at h
  split at h
  · cases h
    exact .answered
  · rename_i number
    obtain ⟨k₁, done, h⟩ := bind_ok h
    cases h
    exact .space number (spaceControlled done)
  · rename_i number
    exact .thread number (threadControlled h)
  · rename_i number
    exact .ipc number h
  · cases h
    exact .unmap
  · cases h
  · cases h
  · rename_i number
    obtain ⟨k₁, done, h⟩ := bind_ok h
    cases h
    exact .schedule number (scheduled_of_syscall done)
  · cases h
  · cases h
  · cases h
  · cases h
  · cases h
    exact .unknown

theorem softirqExecute_cases {fuel : Nat} (h : softirqExecute fuel k = .ok k') :
    ∃ k₁, (k.softirqPending = true ∧ softirqSvc fuel k = .ok k₁ ∨ k.softirqPending = false ∧ k₁ = k) ∧
      k' = (k₁.setPending false).setThreadState kernTcb .inactive := by
  unfold softirqExecute at h
  obtain ⟨k₁, served, h⟩ := bind_ok h
  cases h
  refine ⟨k₁, ?_, rfl⟩
  split at served
  · rename_i pending
    exact .inl ⟨pending, served⟩
  · rename_i idle
    cases served
    exact .inr ⟨by simpa using idle, rfl⟩

/-- A hard fault that is survived deletes a user thread. -/
theorem isrHardfault_cases {lr : Word} (h : k.isrHardfault lr = .ok k') :
    ¬ threadNo (k.tcbs k.currentThreadIdx).globalId < userThreadStart ∧
      ∃ k₁, k.deleteThread k.currentThreadIdx = .ok k₁ ∧ k' = k₁.requestReschedule none := by
  unfold isrHardfault at h
  dsimp only at h
  split at h
  · cases h
  · split at h
    · cases h
    · rename_i current running
      have here : current = k.currentThreadIdx := by
        unfold getCurrentThread at running
        split at running
        · cases running
        · exact (Option.some.inj running).symm
      subst here
      split at h
      · cases h
      · rename_i high
        split at h
        · cases h
        · obtain ⟨k₁, deleted, h⟩ := bind_ok h
          cases h
          exact ⟨high, k₁, deleted, rfl⟩

end Kernel
end BradypOS
