import BradypOS.Kernel.Evaluate
import BradypOS.Space.Siblings

/-!
# The UTCB area of a space

`space_control` sets the UTCB area of a space. It reports that an area was set before as an error, and
then sets it again and answers with success.
-/

namespace BradypOS.Kernel

open L4

variable {k k' : Kernel}

/-- The errors that `space_control` looks for. -/
inductive Detects (k : Kernel) : ErrorCode → Prop where
  | unknown (missing : k.findThreadByGlobalId k.callerFrame.r0 = none) : Detects k .invalidSpace
  | kip {target : Nat} (found : k.findThreadByGlobalId k.callerFrame.r0 = some target)
      (other : k.callerFrame.r2 ≠ k.kipFpage) : Detects k .kipArea
  | initialised {target as : Nat} (found : k.findThreadByGlobalId k.callerFrame.r0 = some target)
      (same : k.callerFrame.r2 = k.kipFpage) (space : (k.tcbs target).addressSpace = some as)
      (set : (k.asPool as).utcbPage ≠ 0#32) : Detects k .utcbArea

theorem detects_initialised : k.Detects .utcbArea ↔ ∃ target ∈ k.findThreadByGlobalId k.callerFrame.r0,
    k.callerFrame.r2 = k.kipFpage ∧ ∃ as ∈ (k.tcbs target).addressSpace, (k.asPool as).utcbPage ≠ 0#32 := by
  constructor
  · intro detected
    cases detected with
    | initialised found same space set => exact ⟨_, found, same, _, space, set⟩
  · intro ⟨_, found, same, _, space, set⟩
    exact .initialised found same space set

instance (k : Kernel) : Decidable (k.Detects .utcbArea) := decidable_of_iff _ detects_initialised.symm

/-- The call answers 0 with an error code and changes nothing else. -/
structure SpaceRefused (k : Kernel) (err : ErrorCode) (k' : Kernel) : Prop where
  answer : (k'.mem.frame k.callerSp).r0 = 0#32
  error : (k'.mem.utcb (k.tcbs k.caller).utcb).error = err.toWord
  tcbs : k'.tcbs = k.tcbs
  schedule : k'.schedule = k.schedule
  asPool : k'.asPool = k.asPool
  asAllocated : k'.asAllocated = k.asAllocated
  utcb : ∀ p, ∃ error, k'.mem.utcb p = { k.mem.utcb p with error } ∧
    (p ≠ (k.tcbs k.caller).utcb → k'.mem.utcb p = k.mem.utcb p)

/-- What has been set stays set. -/
def AreasKept (k k' : Kernel) : Prop :=
  ∀ as, k.asAllocated as = true → k'.asAllocated as = true ∧
    ((k.asPool as).utcbPage ≠ 0#32 → (k'.asPool as).utcbPage = (k.asPool as).utcbPage)

/-- Every error is answered as such, and no area that is set is set again. -/
structure SpaceHonoured (k : Kernel) : Prop where
  refuses : ∀ err, k.Detects err → ∃ k', k.syscallSpaceControl = .ok k' ∧ SpaceRefused k err k'
  areas : ∀ k', k.syscallSpaceControl = .ok k' → AreasKept k k'

/-! ### One call -/

theorem refuse_spaceRefused (k : Kernel) (err : ErrorCode) : SpaceRefused k err (k.refuse k.callerSp err) := by
  refine ⟨?_, ?_, rfl, rfl, rfl, rfl, fun p => ?_⟩
  · show (Function.update k.mem.frame k.callerSp _ k.callerSp).r0 = 0#32
    rw [Function.update_self]
  · show (Function.update k.mem.utcb (k.tcbs k.caller).utcb _ (k.tcbs k.caller).utcb).error = err.toWord
    rw [Function.update_self]
  · by_cases here : p = (k.tcbs k.caller).utcb
    · refine ⟨err.toWord, ?_, fun other => absurd here other⟩
      show Function.update k.mem.utcb (k.tcbs k.caller).utcb _ p = _
      rw [here, Function.update_self]
      rfl
    · have same : (k.refuse k.callerSp err).mem.utcb p = k.mem.utcb p := Function.update_of_ne here _ _
      exact ⟨(k.mem.utcb p).error, same, fun _ => same⟩

theorem AreasKept.of_same (asPool : k'.asPool = k.asPool) (asAllocated : k'.asAllocated = k.asAllocated) : AreasKept k k' := by
  intro as used
  rw [asPool, asAllocated]
  exact ⟨used, fun _ => rfl⟩

theorem AreasKept.stable (h : Stable k k') : AreasKept k k' := .of_same h.asPool h.asAllocated

theorem AreasKept.trans {k'' : Kernel} (h : AreasKept k k') (h' : AreasKept k' k'') : AreasKept k k'' := by
  intro as used
  obtain ⟨used', same⟩ := h as used
  obtain ⟨used'', same'⟩ := h' as used'
  refine ⟨used'', fun set => ?_⟩
  rw [same' (by rw [same set]; exact set), same set]

/-- The last part of the call sets the area of the target's space, and answers 1. -/
theorem settleSpace_frame (k : Kernel) (sp : Word) (target as : Nat) (kipArea utcbArea : Word) :
    (k.settleSpace sp target as kipArea utcbArea).asPool =
        Function.update k.asPool as { k.asPool as with utcbPage := utcbArea } ∧
      (k.settleSpace sp target as kipArea utcbArea).asAllocated = k.asAllocated ∧
      ((k.settleSpace sp target as kipArea utcbArea).mem.frame sp).r0 = 1#32 := by
  have checked : (k.checkUtcbArea sp as).asPool = k.asPool ∧ (k.checkUtcbArea sp as).asAllocated = k.asAllocated := by
    unfold checkUtcbArea
    split <;> exact ⟨rfl, rfl⟩
  have activated : ∀ k₁ : Kernel, (k₁.activateTarget target kipArea utcbArea).asPool = k₁.asPool ∧
      (k₁.activateTarget target kipArea utcbArea).asAllocated = k₁.asAllocated := by
    intro k₁
    unfold activateTarget
    split
    · exact ⟨setThreadState_asPool _ _ _, setThreadState_asAllocated _ _ _⟩
    · exact ⟨rfl, rfl⟩
  unfold settleSpace
  refine ⟨?_, ?_, ?_⟩
  · show (activateTarget _ target kipArea utcbArea).asPool = _
    rw [(activated _).1]
    show Function.update (k.checkUtcbArea sp as).asPool as _ = _
    rw [checked.1]
  · show (activateTarget _ target kipArea utcbArea).asAllocated = _
    rw [(activated _).2]
    exact checked.2
  · have stored : ∀ (k₁ : Kernel) (f : Frame → Frame), (k₁.setFrame sp f).mem.frame sp = f (k₁.mem.frame sp) :=
      fun _ _ => Function.update_self _ _ _
    rw [stored]

theorem settled_of_found {target as : Nat} (found : k.findThreadByGlobalId k.callerFrame.r0 = some target)
    (same : k.callerFrame.r2 = k.kipFpage) (space : (k.tcbs target).addressSpace = some as) :
    k.syscallSpaceControl = .ok (k.settleSpace k.callerSp target as k.callerFrame.r2 k.callerFrame.r3) := by
  have made : k.ensureAs target = .ok (as, k) := by
    unfold ensureAs
    rw [space]
  unfold syscallSpaceControl
  dsimp only
  have found' : k.findThreadByGlobalId (k.mem.frame (k.tcbs k.caller).ctx.sp).r0 = some target := found
  have same' : ¬ (k.mem.frame (k.tcbs k.caller).ctx.sp).r2 ≠ k.kipFpage := fun other => other same
  rw [found']
  dsimp only
  rw [if_neg same', made]
  rfl

theorem refused_of_unknown (missing : k.findThreadByGlobalId k.callerFrame.r0 = none) :
    k.syscallSpaceControl = .ok (k.refuse k.callerSp .invalidSpace) := by
  have missing' : k.findThreadByGlobalId (k.mem.frame (k.tcbs k.caller).ctx.sp).r0 = none := missing
  unfold syscallSpaceControl
  dsimp only
  rw [missing']
  rfl

theorem refused_of_kip {target : Nat} (found : k.findThreadByGlobalId k.callerFrame.r0 = some target)
    (other : k.callerFrame.r2 ≠ k.kipFpage) : k.syscallSpaceControl = .ok (k.refuse k.callerSp .kipArea) := by
  have found' : k.findThreadByGlobalId (k.mem.frame (k.tcbs k.caller).ctx.sp).r0 = some target := found
  have other' : (k.mem.frame (k.tcbs k.caller).ctx.sp).r2 ≠ k.kipFpage := other
  unfold syscallSpaceControl
  dsimp only
  rw [found']
  dsimp only
  rw [if_pos other']
  rfl

theorem spaceControlled_areasKept (fresh : ¬ k.Detects .utcbArea) (h : SpaceControlled k k') : AreasKept k k' := by
  cases h with
  | refused err => exact .of_same rfl rfl
  | @done target as k₁ found kip space =>
    obtain ⟨pool, allocated, -⟩ := settleSpace_frame k₁ k.callerSp target as k.callerFrame.r2 k.callerFrame.r3
    rcases ensureAs_cases space with ⟨here, rfl⟩ | ⟨-, -, free, rfl⟩
    · intro own used
      rw [allocated, pool]
      refine ⟨used, fun set => ?_⟩
      have other : own ≠ as := by
        rintro rfl
        exact fresh (.initialised found kip here set)
      rw [Function.update_of_ne other]
    · intro own used
      have other : own ≠ as := by
        rintro rfl
        cases free.symm.trans used
      rw [allocated, pool, Function.update_of_ne other]
      refine ⟨?_, fun _ => ?_⟩
      · show Function.update k.asAllocated as true own = true
        rw [Function.update_of_ne other]
        exact used
      · show ((Function.update k.asPool as _) own).utcbPage = _
        rw [Function.update_of_ne other]

theorem spaceHonoured_iff : k.SpaceHonoured ↔ ¬ k.Detects .utcbArea := by
  constructor
  · intro honoured detected
    obtain ⟨k', answered, refused⟩ := honoured.refuses .utcbArea detected
    cases detected with
    | @initialised target as found same space set =>
      cases (settled_of_found found same space).symm.trans answered
      have one := (settleSpace_frame k k.callerSp target as k.callerFrame.r2 k.callerFrame.r3).2.2
      cases refused.answer.symm.trans one
  · intro fresh
    refine ⟨fun err detected => ?_, fun k' h => spaceControlled_areasKept fresh (spaceControlled h)⟩
    cases detected with
    | unknown missing => exact ⟨_, refused_of_unknown missing, refuse_spaceRefused k _⟩
    | kip found other => exact ⟨_, refused_of_kip found other, refuse_spaceRefused k _⟩
    | initialised found same space set => exact absurd (.initialised found same space set) fresh

/-! ### Runs -/

/-- No `space_control` of the step finds the area of its target's space set. -/
def SetsOnce (k : Kernel) : Action → Prop
  | .softirq _ => k.softirqPending = true → k.pendingCall = some .spaceControl → ¬ k.Detects .utcbArea
  | _ => True

instance (k : Kernel) : (a : Action) → Decidable (k.SetsOnce a)
  | .softirq _ => inferInstanceAs (Decidable (_ → _))
  | .user _ _ | .svc | .systick | .pendsv | .yield | .hardfault _ => inferInstanceAs (Decidable True)

theorem threadControlled_areasKept (h : ThreadControlled k k') : AreasKept k k' := by
  have unblocked : ∀ k₁ : Kernel, AreasKept k₁ k₁.unblockCaller :=
    fun k₁ => .stable ((Stable.refl k₁).setThreadState _ _)
  cases h with
  | privileged => exact .of_same rfl rfl
  | refused user err => exact (AreasKept.of_same rfl rfl).trans (unblocked (k.refuse k.callerSp err))
  | deletedSelf user found nil exit deleted =>
    have unlinked := deleteThread_unlinked deleted
    exact .of_same unlinked.asPool unlinked.asAllocated
  | @deleted dest k₁ user found nil exit other deleted =>
    have unlinked := deleteThread_unlinked deleted
    exact (AreasKept.of_same unlinked.asPool unlinked.asAllocated).trans (unblocked (k₁.succeeded k.callerSp))
  | @modified dest space as =>
    exact (AreasKept.of_same rfl rfl).trans (unblocked (((k.setTcb dest (Kernel.modified k.callerFrame.r0 as
      k.callerFrame.r2 k.callerFrame.r3 k.callerR4)).writeUtcb dest).succeeded k.callerSp))
  | @created t k₁ user missing inside made =>
    have joined : Joined k t _ (k₁.placeThread t (k.findThreadByGlobalId k.callerFrame.r1) k.callerFrame.r0 k.callerFrame.r2
      k.callerFrame.r3 k.callerR4) := created_joined made
    exact (AreasKept.of_same joined.asPool joined.asAllocated).trans (unblocked ((k₁.placeThread t
      (k.findThreadByGlobalId k.callerFrame.r1) k.callerFrame.r0 k.callerFrame.r2 k.callerFrame.r3 k.callerR4).succeeded k.callerSp))

theorem scheduled_areasKept (h : Scheduled k k') : AreasKept k k' := by
  cases h with
  | refused err => exact .of_same rfl rfl
  | kept => exact .of_same rfl rfl
  | @changed dest found controls bound =>
    obtain ⟨schedule, same, _⟩ := k.setThreadPriority_spec dest k.callerFrame.r3
    rw [same]
    exact .of_same rfl rfl

theorem softirqSvc_areasKept {fuel : Nat} (once : k.pendingCall = some .spaceControl → ¬ k.Detects .utcbArea)
    (h : softirqSvc fuel k = .ok k') : AreasKept k k' := by
  have unblocked : ∀ k₁ : Kernel, AreasKept k₁ k₁.unblockCaller :=
    fun k₁ => .stable ((Stable.refl k₁).setThreadState _ _)
  cases handled_of_softirqSvc h with
  | answered => exact (AreasKept.of_same rfl rfl).trans (unblocked k.syscallKernelInterface)
  | space number done => exact (spaceControlled_areasKept (once number) done).trans (unblocked _)
  | thread number done => exact threadControlled_areasKept done
  | ipc number done => exact .stable (called_of_doIpc done).stable
  | unmap => exact unblocked k
  | schedule number done => exact (scheduled_areasKept done).trans (unblocked _)
  | unknown => exact .of_same rfl rfl

theorem step_areasKept {a : Action} (once : SetsOnce k a) (step : Step k a k') : AreasKept k k' := by
  obtain ⟨_, h⟩ := step
  cases a with
  | user cpu mem => cases h; exact .of_same rfl rfl
  | svc => exact .stable (isrSvcall_stable h)
  | systick => exact .stable (isrSystick_stable h)
  | pendsv => exact .stable (switchContext_stable h)
  | softirq fuel =>
    obtain ⟨k₁, served, rfl⟩ := softirqExecute_cases h
    have kept : AreasKept k k₁ := by
      rcases served with ⟨pending, served⟩ | ⟨_, rfl⟩
      · exact softirqSvc_areasKept (once pending) served
      · exact .of_same rfl rfl
    have cleared : Stable k₁ (k₁.setPending false) := (Stable.refl k₁).aside rfl rfl rfl rfl rfl rfl
    exact kept.trans (.stable (cleared.setThreadState kernTcb .inactive))
  | yield => exact .stable (threadSwitch_stable h)
  | hardfault lr =>
    obtain ⟨_, k₁, deleted, rfl⟩ := isrHardfault_cases h
    have unlinked := deleteThread_unlinked deleted
    exact .of_same unlinked.asPool unlinked.asAllocated

theorem run_areasKept {actions : List Action} (run : Theory.Run (Theory.Guarded SetsOnce Step) k actions k') : AreasKept k k' := by
  apply run.relates (R := AreasKept)
  · exact fun _ => .of_same rfl rfl
  · exact fun _ _ _ h h' => h.trans h'
  · exact fun _ _ _ step => step_areasKept step.1 step.2

/-- `space_control` answers every error that it detects with 0 and the error code, changes nothing then and sets no area twice
if and only if the target's space has no area yet; and in every run of such calls and any other steps, the UTCB area of a space
never changes once it is set. -/
theorem spaceControl_honoured_iff (k : Kernel) : (k.SpaceHonoured ↔ ¬ k.Detects .utcbArea) ∧
    ∀ {k' : Kernel} {actions : List Action}, Theory.Run (Theory.Guarded SetsOnce Step) k actions k' →
      ∀ as, k.asAllocated as = true → (k.asPool as).utcbPage ≠ 0#32 → (k'.asPool as).utcbPage = (k.asPool as).utcbPage := by
  refine ⟨spaceHonoured_iff, ?_⟩
  intro k' actions run as used set
  exact (run_areasKept run as used).2 set

/-- The root thread has set its UTCB area and goes on to start the second thread. -/
theorem spaceControl_honoured_iff_started : ∃ k k' actions, k.SpaceHonoured ∧
    Theory.Run (Theory.Guarded SetsOnce Step) k actions k' ∧ k'.state 3 = .runnable ∧
    (k'.asPool 0).utcbPage = Fpage.log2 0x5000#32 12 := by
  have done : ((SmallSystem.after (SmallSystem.setup.take 7)).any fun k =>
      (Theory.follow (Theory.restrict SetsOnce next) k (SmallSystem.setup.drop 7)).any fun k' =>
        decide (¬ k.Detects .utcbArea ∧ k.asAllocated 0 = true ∧ (k.asPool 0).utcbPage = Fpage.log2 0x5000#32 12 ∧
          k'.state 3 = .runnable)) = true := by decide +kernel
  obtain ⟨k, -, later⟩ := (Option.any_eq_true _ _).mp done
  obtain ⟨k', ran, holds⟩ := (Option.any_eq_true _ _).mp later
  obtain ⟨fresh, used, area, started⟩ := of_decide_eq_true holds
  obtain ⟨actions, run⟩ := Theory.run_of_follow (Theory.guarded_of_restrict step_of_next) ran
  obtain ⟨honoured, kept⟩ := spaceControl_honoured_iff k
  have set : (k.asPool 0).utcbPage ≠ 0#32 := by
    rw [area]
    decide
  exact ⟨k, k', actions, honoured.mpr fresh, run, started, (kept run 0 used set).trans area⟩

/-- The root thread asks for another UTCB area of its own space. -/
def setTwice : List (Kernel → Action) :=
  SmallSystem.setup.take 7 ++ [fun k => SmallSystem.load 0x4000#32 rootId 0#32 k.kipFpage (Fpage.log2 0x8000#32 12) 0#32 1#32 k,
    fun _ => .svc, fun _ => .pendsv]

/-- The error is detected, and the call answers 1 and moves the area. -/
theorem spaceControl_overwrites : ∃ b k k' as, boot SmallSystem.bootInfo = .ok b ∧ Theory.Run Step b as k ∧
    k.pendingCall = some .spaceControl ∧ k.Detects .utcbArea ∧ k.syscallSpaceControl = .ok k' ∧
    (k'.mem.frame k.callerSp).r0 = 1#32 ∧ k.asAllocated 0 = true ∧ (k.asPool 0).utcbPage = Fpage.log2 0x5000#32 12 ∧
    (k'.asPool 0).utcbPage = Fpage.log2 0x8000#32 12 := by
  have done : ((SmallSystem.after setTwice).any fun k =>
      decide (k.pendingCall = some .spaceControl ∧ k.findThreadByGlobalId k.callerFrame.r0 = some 2 ∧
        k.callerFrame.r2 = k.kipFpage ∧ (k.tcbs 2).addressSpace = some 0 ∧ k.asAllocated 0 = true ∧
        (k.asPool 0).utcbPage = Fpage.log2 0x5000#32 12 ∧ k.callerFrame.r3 = Fpage.log2 0x8000#32 12)) = true := by decide +kernel
  obtain ⟨b, k, as, booted, run, _, holds⟩ := SmallSystem.reached_after done
  obtain ⟨number, found, same, space, used, area, asked⟩ := of_decide_eq_true holds
  obtain ⟨pool, -, answer⟩ := settleSpace_frame k k.callerSp 2 0 k.callerFrame.r2 k.callerFrame.r3
  have set : (k.asPool 0).utcbPage ≠ 0#32 := by
    rw [area]
    decide
  refine ⟨b, k, _, as, booted, run, number, .initialised found same space set, settled_of_found found same space, answer, used,
    area, ?_⟩
  rw [pool, Function.update_self, asked]

end BradypOS.Kernel
