import BradypOS.Theory.Tally
import BradypOS.Space.Area

/-!
# Address spaces run out

Nothing gives an address space back: not the deletion of its last thread either. A `space_control` for a thread that
has no space takes one of the sixteen.
-/

namespace BradypOS.Kernel

open L4
open Theory (Run Tallied)

variable {k k' : Kernel}

/-- The `space_control` that is pending finds a thread without a space, and no error. -/
def AsksSpace (k : Kernel) : Prop :=
  k.pendingCall = some .spaceControl ∧ k.callerFrame.r2 = k.kipFpage ∧
    ((k.findThreadByGlobalId k.callerFrame.r0).any fun t => (k.tcbs t).addressSpace.isNone) = true

instance (k : Kernel) : Decidable k.AsksSpace := inferInstanceAs (Decidable (_ ∧ _))

/-- The step makes an address space. -/
def MakesSpace (k : Kernel) : Action → Prop
  | .softirq _ => k.softirqPending = true ∧ k.AsksSpace
  | _ => False

instance (k : Kernel) : (a : Action) → Decidable (k.MakesSpace a)
  | .softirq _ => inferInstanceAs (Decidable (_ ∧ _))
  | .user _ _ | .svc | .systick | .pendsv | .yield | .hardfault _ => inferInstanceAs (Decidable False)

def spacesTaken (k : Kernel) : Finset Nat := (Finset.range maxAddressSpaces).filter fun as => k.asAllocated as = true

theorem spacesTaken_congr (same : k'.asAllocated = k.asAllocated) : k'.spacesTaken = k.spacesTaken := by
  unfold spacesTaken
  rw [same]

theorem spacesTaken_le (k : Kernel) : k.spacesTaken.card ≤ maxAddressSpaces :=
  (Finset.card_filter_le _ _).trans_eq (Finset.card_range _)

theorem spacesTaken_take {as : Nat} (inside : as < maxAddressSpaces) (free : k.asAllocated as = false)
    (taken : k'.asAllocated = Function.update k.asAllocated as true) : k'.spacesTaken.card = k.spacesTaken.card + 1 := by
  have grown : k'.spacesTaken = insert as k.spacesTaken := by
    ext own
    unfold spacesTaken
    rw [Finset.mem_insert, Finset.mem_filter, Finset.mem_filter, taken, Finset.mem_range]
    by_cases here : own = as
    · simp [here, inside]
    · simp [here]
  have new : as ∉ k.spacesTaken := by
    unfold spacesTaken
    rw [Finset.mem_filter, free]
    simp
  rw [grown, Finset.card_insert_of_notMem new]

/-! ### One call -/

theorem ensureAs_asAllocated {t as : Nat} (h : k.ensureAs t = .ok (as, k')) :
    k'.spacesTaken.card = if (k.tcbs t).addressSpace.isNone then k.spacesTaken.card + 1 else k.spacesTaken.card := by
  rcases ensureAs_cases h with ⟨some_, rfl⟩ | ⟨none_, inside, free, rfl⟩
  · rw [some_, Option.isNone_some, if_neg Bool.false_ne_true]
  · rw [none_, Option.isNone_none, if_pos rfl]
    exact spacesTaken_take inside free rfl

theorem syscallSpaceControl_spaces (number : k.pendingCall = some .spaceControl) (h : k.syscallSpaceControl = .ok k') :
    k'.spacesTaken.card = if k.AsksSpace then k.spacesTaken.card + 1 else k.spacesTaken.card := by
  have frame : k.mem.frame (k.tcbs k.caller).ctx.sp = k.callerFrame := rfl
  unfold syscallSpaceControl at h
  dsimp only at h
  rw [frame] at h
  split at h
  · rename_i missing
    cases h
    rw [if_neg]
    · exact congrArg Finset.card (spacesTaken_congr rfl)
    · rintro ⟨_, _, asked⟩
      rw [missing] at asked
      cases asked
  · rename_i target found
    split at h
    · rename_i other
      cases h
      rw [if_neg]
      · exact congrArg Finset.card (spacesTaken_congr rfl)
      · rintro ⟨_, kip, _⟩
        exact other kip
    · rename_i kip
      obtain ⟨⟨as, k₁⟩, space, h⟩ := bind_ok h
      cases h
      have settled := (settleSpace_frame k₁ k.callerSp target as k.callerFrame.r2 k.callerFrame.r3).2.1
      have made := ensureAs_asAllocated space
      change (k₁.settleSpace k.callerSp target as k.callerFrame.r2 k.callerFrame.r3).spacesTaken.card = _
      rw [spacesTaken_congr settled, made]
      have asks : k.AsksSpace ↔ (k.tcbs target).addressSpace.isNone = true := by
        unfold AsksSpace
        rw [found]
        exact ⟨fun asked => asked.2.2, fun none_ => ⟨number, Decidable.not_not.mp kip, none_⟩⟩
      by_cases asked : k.AsksSpace
      · rw [if_pos asked, if_pos (asks.mp asked)]
      · rw [if_neg asked, if_neg (fun none_ => asked (asks.mpr none_))]

theorem threadControlled_asAllocated (h : ThreadControlled k k') : k'.asAllocated = k.asAllocated := by
  have unblocked : ∀ k₁ : Kernel, k₁.unblockCaller.asAllocated = k₁.asAllocated :=
    fun k₁ => ((Stable.refl k₁).setThreadState _ _).asAllocated
  cases h with
  | privileged => rfl
  | refused user err => exact unblocked (k.refuse k.callerSp err)
  | deletedSelf user found nil exit deleted => exact (deleteThread_unlinked deleted).asAllocated
  | @deleted dest k₁ user found nil exit other deleted =>
    exact (unblocked (k₁.succeeded k.callerSp)).trans (deleteThread_unlinked deleted).asAllocated
  | @modified dest space as =>
    exact unblocked (((k.setTcb dest (Kernel.modified k.callerFrame.r0 as k.callerFrame.r2 k.callerFrame.r3 k.callerR4)).writeUtcb
      dest).succeeded k.callerSp)
  | @created t k₁ user missing inside made =>
    have joined : Joined k t _ (k₁.placeThread t (k.findThreadByGlobalId k.callerFrame.r1) k.callerFrame.r0 k.callerFrame.r2
      k.callerFrame.r3 k.callerR4) := created_joined made
    exact (unblocked ((k₁.placeThread t (k.findThreadByGlobalId k.callerFrame.r1) k.callerFrame.r0 k.callerFrame.r2
      k.callerFrame.r3 k.callerR4).succeeded k.callerSp)).trans joined.asAllocated

theorem scheduled_asAllocated (h : Scheduled k k') : k'.asAllocated = k.asAllocated := by
  cases h with
  | refused err => rfl
  | kept => rfl
  | @changed dest found controls bound =>
    obtain ⟨schedule, same, _⟩ := k.setThreadPriority_spec dest k.callerFrame.r3
    rw [same]
    rfl

theorem softirqSvc_spaceControl {fuel : Nat} (number : k.pendingCall = some .spaceControl) :
    softirqSvc fuel k = k.syscallSpaceControl.bind fun k => .ok k.unblockCaller := by
  have call : Syscall.ofWord (k.tcbs k.caller).ctx.r7 = some .spaceControl := number
  unfold softirqSvc
  rw [call]
  rfl

theorem softirqSvc_asAllocated {fuel : Nat} (number : k.pendingCall ≠ some .spaceControl) (h : softirqSvc fuel k = .ok k') :
    k'.asAllocated = k.asAllocated := by
  have unblocked : ∀ k₁ : Kernel, k₁.unblockCaller.asAllocated = k₁.asAllocated :=
    fun k₁ => ((Stable.refl k₁).setThreadState _ _).asAllocated
  cases handled_of_softirqSvc h with
  | answered => exact unblocked k.syscallKernelInterface
  | space call => exact absurd call number
  | thread _ done => exact threadControlled_asAllocated done
  | ipc _ done => exact (called_of_doIpc done).stable.asAllocated
  | unmap => exact unblocked k
  | @schedule k₁ _ done => exact (unblocked k₁).trans (scheduled_asAllocated done)
  | unknown => rfl

theorem softirqSvc_spaces {fuel : Nat} (h : softirqSvc fuel k = .ok k') :
    k'.spacesTaken.card = if k.AsksSpace then k.spacesTaken.card + 1 else k.spacesTaken.card := by
  by_cases number : k.pendingCall = some .spaceControl
  · rw [softirqSvc_spaceControl number] at h
    obtain ⟨k₁, done, h⟩ := bind_ok h
    cases h
    have unblocked : k₁.unblockCaller.asAllocated = k₁.asAllocated := ((Stable.refl k₁).setThreadState _ _).asAllocated
    rw [spacesTaken_congr unblocked, syscallSpaceControl_spaces number done]
  · rw [if_neg fun asked => number asked.1, spacesTaken_congr (softirqSvc_asAllocated number h)]

/-! ### Runs -/

theorem step_spaces (k : Kernel) (a : Action) (k' : Kernel) (step : Step k a k') :
    k'.spacesTaken.card = if k.MakesSpace a then k.spacesTaken.card + 1 else k.spacesTaken.card := by
  obtain ⟨_, h⟩ := step
  have idle {makes : Prop} [Decidable makes] (no : ¬ makes) (same : k'.asAllocated = k.asAllocated) :
      k'.spacesTaken.card = if makes then k.spacesTaken.card + 1 else k.spacesTaken.card := by
    rw [if_neg no, spacesTaken_congr same]
  cases a with
  | user cpu mem =>
    cases h
    exact idle not_false rfl
  | svc => exact idle not_false (isrSvcall_stable h).asAllocated
  | systick => exact idle not_false (isrSystick_stable h).asAllocated
  | pendsv => exact idle not_false (switchContext_stable h).asAllocated
  | softirq fuel =>
    obtain ⟨k₁, served, rfl⟩ := softirqExecute_cases h
    have cleared : ((k₁.setPending false).setThreadState kernTcb .inactive).spacesTaken = k₁.spacesTaken :=
      spacesTaken_congr (setThreadState_asAllocated _ _ _)
    rw [cleared]
    rcases served with ⟨pending, served⟩ | ⟨idle_, rfl⟩
    · rw [softirqSvc_spaces served]
      exact if_congr ⟨fun asked => ⟨pending, asked⟩, fun makes => makes.2⟩ rfl rfl
    · rw [if_neg]
      rintro ⟨pending, _⟩
      cases idle_.symm.trans pending
  | yield => exact idle not_false (threadSwitch_stable h).asAllocated
  | hardfault lr =>
    obtain ⟨_, k₁, deleted, rfl⟩ := isrHardfault_cases h
    exact idle not_false (deleteThread_unlinked deleted).asAllocated

theorem softirqExecute_panics {fuel : Nat} (full : k.spacesTaken.card = maxAddressSpaces) (pending : k.softirqPending = true)
    (asked : k.AsksSpace) : k.softirqExecute fuel = .error (.panic .noAddressSpace) := by
  obtain ⟨number, kip, asked⟩ := asked
  obtain ⟨target, found, none_⟩ := (Option.any_eq_true _ _).mp asked
  have none_ : (k.tcbs target).addressSpace = none := Option.isNone_iff_eq_none.mp none_
  have all : k.spacesTaken = Finset.range maxAddressSpaces :=
    Finset.eq_of_subset_of_card_le (Finset.filter_subset _ _) (by rw [full, Finset.card_range])
  have missing : (List.range maxAddressSpaces).find? (fun i => !k.asAllocated i) = none := by
    rw [List.find?_eq_none]
    intro as inside
    have taken : as ∈ k.spacesTaken := by
      rw [all, Finset.mem_range]
      exact List.mem_range.mp inside
    simp [(Finset.mem_filter.mp taken).2]
  have ensured : k.ensureAs target = .error (.panic .noAddressSpace) := by
    unfold ensureAs createAs
    rw [none_, missing]
    rfl
  have call : k.syscallSpaceControl = .error (.panic .noAddressSpace) := by
    have frame : k.mem.frame (k.tcbs k.caller).ctx.sp = k.callerFrame := rfl
    unfold syscallSpaceControl
    dsimp only
    rw [frame, found]
    dsimp only
    rw [if_neg (fun other => other kip), ensured]
    rfl
  unfold softirqExecute
  rw [if_pos pending, softirqSvc_spaceControl number, call]
  rfl

/-- In every run from boot at most sixteen threads get a space of their own, whatever is deleted in between; the next `space_control`
with the kernel's KIP area for a thread without one panics. -/
theorem spaces_run_out {info : BootInfo} {b : Kernel} {actions : List Action} {n : Nat} (booted : boot info = .ok b)
    (run : Run (Tallied MakesSpace Step) (b, 0) actions (k, n)) :
    k.spacesTaken.card = n ∧ n ≤ maxAddressSpaces ∧
      (n = maxAddressSpaces → k.softirqPending = true → k.AsksSpace → ∀ fuel, k.softirqExecute fuel = .error (.panic .noAddressSpace)) := by
  have none_ : b.spacesTaken.card = 0 := by
    rw [Finset.card_eq_zero, spacesTaken, Finset.filter_eq_empty_iff]
    intro as _
    rw [(Kernel.booted booted).asAllocated]
    exact Bool.false_ne_true
  have count := run.tally step_spaces
  dsimp only at count
  rw [none_, Nat.zero_add, Nat.add_zero] at count
  refine ⟨count, count ▸ k.spacesTaken_le, ?_⟩
  rintro rfl pending asked fuel
  exact softirqExecute_panics count pending asked

/-- The root thread makes its own space. -/
theorem spaces_run_out_root : ∃ b k actions, boot SmallSystem.bootInfo = .ok b ∧ Run (Tallied MakesSpace Step) (b, 0) actions (k, 1) ∧
    k.spacesTaken.card = 1 := by
  have done : ((boot SmallSystem.bootInfo).toOption.any fun b =>
      (Theory.follow (Theory.tally MakesSpace next) (b, 0) (SmallSystem.setup.map fun f s => f s.1)).any fun s =>
        decide (s.2 = 1)) = true := by decide +kernel
  obtain ⟨b, booted, later⟩ := (Option.any_eq_true _ _).mp done
  obtain ⟨⟨k, n⟩, ran, holds⟩ := (Option.any_eq_true _ _).mp later
  obtain rfl : n = 1 := of_decide_eq_true holds
  obtain ⟨actions, run⟩ := Theory.run_of_follow (Theory.tallied_of_tally step_of_next) ran
  have booted := ok_of_toOption booted
  exact ⟨b, k, actions, booted, run, (spaces_run_out booted run).1⟩

end BradypOS.Kernel
