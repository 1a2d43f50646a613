import BradypOS.Kernel.Evaluate
import BradypOS.Syscall.Refused

/-!
# When `thread_control` returns

The three operations guard against different arguments. What they do not check stops the kernel: a
version of 0, a full table, and a space specifier without a space when a thread is modified.
-/

namespace BradypOS.Kernel

open L4

variable {k k' : Kernel} {sp dest space scheduler pager utcbLocation : Word}

/-- The call returns, with 1 or 0 in `r0`. -/
def Finishes (k : Kernel) : Prop :=
  ∃ k', k.syscallThreadControl = .ok k' ∧ ((k'.mem.frame k.callerSp).r0 = 1#32 ∨ (k'.mem.frame k.callerSp).r0 = 0#32)

def Insertable (k : Kernel) (id : Word) : Prop :=
  k.threadCount ≤ k.threadListFind id ∨ (k.tcbs (k.threadList (k.threadListFind id))).globalId ≠ id

/-- There is a slot for the thread and a place in the table, once the slot has the thread's id. -/
def Creatable (k : Kernel) (id : Word) : Prop :=
  version id ≠ 0#32 ∧ k.threadCount ≠ maxThreads ∧
    ∃ t, k.allocateTcb = some t ∧ ((k.takeTcb t).setTcb t (freshTcb id)).Insertable id

/-- The checks of `syscall_thread_control_create`. -/
structure CreateChecked (k : Kernel) (dest space scheduler utcbLocation : Word) : Prop where
  named : k.findThreadByGlobalId space = none → sameThreads dest space = true
  inside : ∀ s, k.findThreadByGlobalId space = some s → (k.tcbs s).addressSpace ≠ none
  known : k.KnownScheduler scheduler
  fits : ∀ s as, k.findThreadByGlobalId space = some s → (k.tcbs s).addressSpace = some as → k.HoldsUtcb as utcbLocation

/-- What the operations of `thread_control` need and do not check. -/
structure Survivable (k : Kernel) : Prop where
  delete : ∀ d, k.findThreadByGlobalId k.callerFrame.r0 = some d → sameThreads k.callerFrame.r1 nilThread = true →
    0 < k.threadCount
  modify : ∀ d s, k.findThreadByGlobalId k.callerFrame.r0 = some d → sameThreads k.callerFrame.r1 nilThread = false →
    k.findThreadByGlobalId k.callerFrame.r1 = some s → k.KnownScheduler k.callerFrame.r2 → (k.tcbs s).addressSpace ≠ none
  create : k.findThreadByGlobalId k.callerFrame.r0 = none → sameThreads k.callerFrame.r1 nilThread = false →
    k.CreateChecked k.callerFrame.r0 k.callerFrame.r1 k.callerFrame.r2 k.callerR4 → k.Creatable k.callerFrame.r0

/-! ### The operations -/

theorem syscallThreadControlDelete_returns {d : Nat} :
    (∃ k', k.syscallThreadControlDelete sp d = .ok k') ↔ d ≠ rootTcb ∧ 0 < k.threadCount := by
  obtain ⟨schedule, unscheduled⟩ := k.unschedule_frame d
  have count : (k.unschedule d).threadCount = k.threadCount := by
    rw [unscheduled]
    rfl
  unfold syscallThreadControlDelete
  constructor
  · intro ⟨k', h⟩
    obtain ⟨_, exit, h⟩ := bind_ok h
    obtain ⟨k₁, deleted, _⟩ := bind_ok h
    obtain ⟨k₂, listed, _⟩ := bind_ok deleted
    obtain ⟨_, present, _⟩ := bind_ok listed
    have present := of_decide_eq_true (kassert_ok present)
    exact ⟨of_decide_eq_true (kassert_ok exit), count ▸ present⟩
  · intro ⟨exit, present⟩
    have listed : ∃ k₁, (k.unschedule d).threadListDelete ((k.unschedule d).tcbs d).globalId = .ok k₁ := by
      unfold threadListDelete
      rw [kassert_of (decide_eq_true (count.symm ▸ present))]
      exact ⟨_, rfl⟩
    obtain ⟨k₁, listed⟩ := listed
    have deleted : k.deleteThread d = .ok (((k₁.unlinkSiblings d).freeTcb d).log (.deleted d)) := by
      unfold deleteThread
      dsimp only
      rw [listed]
      rfl
    rw [kassert_of (decide_eq_true exit), deleted]
    exact ⟨_, rfl⟩

theorem syscallThreadControlModify_returns {d : Nat} :
    (∃ k', k.syscallThreadControlModify sp d dest space scheduler pager utcbLocation = .ok k') ↔
      ∀ s, k.findThreadByGlobalId space = some s → k.KnownScheduler scheduler → (k.tcbs s).addressSpace ≠ none := by
  unfold syscallThreadControlModify
  split
  · rename_i missing
    exact iff_of_true ⟨_, rfl⟩ fun s found => by rw [missing] at found; cases found
  · rename_i s found
    split
    · rename_i unknown
      refine iff_of_true ⟨_, rfl⟩ fun _ _ known => absurd unknown ?_
      unfold KnownScheduler at known
      rcases known with nil | known
      · simp [nil]
      · simp [Option.isSome_iff_ne_none.mp known]
    · rename_i known
      split
      · rename_i outside
        refine iff_of_false (fun ⟨_, h⟩ => by cases h) fun safe => ?_
        exact safe s found (knownScheduler_of_check known) outside
      · rename_i as inside
        have safe : ∀ s', k.findThreadByGlobalId space = some s' → k.KnownScheduler scheduler → (k.tcbs s').addressSpace ≠ none := by
          intro s' found' _ outside
          cases found.symm.trans found'
          cases inside.symm.trans outside
        split
        · exact iff_of_true ⟨_, rfl⟩ safe
        · exact iff_of_true ⟨_, rfl⟩ safe

theorem createThread_creatable (id : Word) : (∃ t k', k.createThread id = .ok (some t, k')) ↔ k.Creatable id := by
  unfold createThread
  constructor
  · intro ⟨t, k', h⟩
    obtain ⟨_, versioned, h⟩ := bind_ok h
    refine ⟨of_decide_eq_true (kassert_ok versioned), ?_⟩
    split at h
    · cases h
    · rename_i room
      refine ⟨room, ?_⟩
      split at h
      · cases h
      · rename_i slot free
        refine ⟨slot, free, ?_⟩
        obtain ⟨k₁, inserted, _⟩ := bind_ok h
        obtain ⟨_, fresh, _⟩ := bind_ok inserted
        simpa [Insertable] using kassert_ok fresh
  · intro ⟨versioned, room, t, free, insertable⟩
    have inserted : ∃ k₁, ((k.takeTcb t).setTcb t (freshTcb id)).threadListInsert t id = .ok k₁ := by
      unfold threadListInsert
      dsimp only
      rw [kassert_of (by simpa [Insertable] using insertable)]
      exact ⟨_, rfl⟩
    obtain ⟨k₁, inserted⟩ := inserted
    rw [kassert_of (decide_eq_true versioned)]
    dsimp only [bind, Except.bind]
    rw [if_neg room, free]
    dsimp only
    rw [inserted]
    exact ⟨t, _, rfl⟩

theorem syscallThreadControlCreate_returns : (∃ k', k.syscallThreadControlCreate sp dest space scheduler pager utcbLocation = .ok k') ↔
    (k.CreateChecked dest space scheduler utcbLocation → k.Creatable dest) := by
  unfold syscallThreadControlCreate
  dsimp only
  split
  · rename_i unnamed
    exact iff_of_true ⟨_, rfl⟩ fun checked => absurd (checked.named unnamed.1) unnamed.2
  · rename_i named
    split
    · rename_i outside
      refine iff_of_true ⟨_, rfl⟩ fun checked => ?_
      obtain ⟨s, found, none⟩ := Option.map_eq_some_iff.mp outside
      exact absurd none (checked.inside s found)
    · rename_i inside
      split
      · rename_i unknown
        refine iff_of_true ⟨_, rfl⟩ fun checked => absurd unknown ?_
        rcases checked.known with nil | known
        · simp [nil]
        · simp [Option.isSome_iff_ne_none.mp known]
      · rename_i known
        split
        · rename_i away
          refine iff_of_true ⟨_, rfl⟩ fun checked => ?_
          obtain ⟨s, found, outside⟩ := Option.bind_eq_some_iff.mp away
          obtain ⟨as, here, outside⟩ := Option.map_eq_some_iff.mp outside
          have holds := checked.fits s as found here
          unfold HoldsUtcb at holds
          rw [holds] at outside
          cases outside
        · rename_i fits
          have checked : k.CreateChecked dest space scheduler utcbLocation := by
            refine ⟨fun missing => Decidable.byContradiction fun other => named ⟨missing, other⟩, fun s found none => ?_,
              knownScheduler_of_check known, fun s as found here => ?_⟩
            · rw [found] at inside
              exact inside (congrArg some none)
            · rw [found] at fits
              simpa [here, HoldsUtcb] using fits
          rw [imp_iff_right checked, ← createThread_creatable]
          constructor
          · rintro ⟨k', h⟩
            obtain ⟨⟨made, k₁⟩, created, h⟩ := bind_ok h
            cases made with
            | none => cases h
            | some t => exact ⟨t, k₁, created⟩
          · rintro ⟨t, k₁, created⟩
            rw [created]
            exact ⟨_, rfl⟩

/-! ### The call -/

theorem bind_returns {α β : Type} {x : Fallible α} {f : α → β} :
    (∃ b, (x >>= fun a => .ok (f a)) = (.ok b : Fallible β)) ↔ ∃ a, x = .ok a := by
  cases x with
  | error e => exact iff_of_false (fun ⟨_, h⟩ => by cases h) (fun ⟨_, h⟩ => by cases h)
  | ok a => exact iff_of_true ⟨_, rfl⟩ ⟨a, rfl⟩

theorem finishes_of_returns (h : k.syscallThreadControl = .ok k') : k.Finishes := by
  refine ⟨k', h, ?_⟩
  cases threadControlled h with
  | privileged => exact .inr (refuse_r0 k _ _).1
  | refused user err => exact .inr (refuse_r0 k _ err).2
  | deletedSelf => exact .inl (succeeded_r0 _ _).1
  | deleted => exact .inl (succeeded_r0 _ _).2
  | modified => exact .inl (succeeded_r0 _ _).2
  | created => exact .inl (succeeded_r0 _ _).2

/-- A `thread_control` that does not ask for the end of the root thread returns with success or with an error code if and
only if it names a system thread, or what its operation does not check holds. -/
theorem syscallThreadControl_finishes_iff (spares : ¬ (k.findThreadByGlobalId k.callerFrame.r0 = some rootTcb ∧
    sameThreads k.callerFrame.r1 nilThread = true)) :
    k.Finishes ↔ (UserDest k.callerFrame.r0 → k.Survivable) := by
  have returns : k.Finishes ↔ ∃ k', k.syscallThreadControl = .ok k' :=
    ⟨fun ⟨k', h, _⟩ => ⟨k', h⟩, fun ⟨_, h⟩ => finishes_of_returns h⟩
  rw [returns]
  unfold syscallThreadControl
  dsimp only
  split
  · rename_i system
    obtain ⟨named, low⟩ := Bool.and_eq_true_iff.mp system
    refine iff_of_true ⟨_, rfl⟩ ?_
    rintro (nil | high)
    · have given : (!isNilThread k.callerFrame.r0) = true := named
      rw [nil] at given
      cases given
    · exact absurd (of_decide_eq_true low) high
  · rename_i allowed
    have user : UserDest k.callerFrame.r0 := by
      by_cases nil : isNilThread k.callerFrame.r0 = true
      · exact .inl nil
      · refine .inr fun low => allowed ?_
        exact Bool.and_eq_true_iff.mpr ⟨congrArg not (Bool.eq_false_iff.mpr nil), decide_eq_true low⟩
    rw [imp_iff_right user]
    split
    · rename_i d found
      split
      · rename_i nil
        have other : d ≠ rootTcb := fun root => spares ⟨root ▸ found, nil⟩
        rw [syscallThreadControlDelete_returns, and_iff_right other]
        constructor
        · intro present
          refine ⟨fun _ _ _ => present, fun _ _ _ moves => ?_, fun missing => ?_⟩
          · cases moves.symm.trans nil
          · cases missing.symm.trans found
        · intro survivable
          exact survivable.delete d found nil
      · rename_i moves
        rw [bind_returns, syscallThreadControlModify_returns]
        constructor
        · intro safe
          refine ⟨fun _ _ nil => absurd nil moves, fun _ s _ _ named known => safe s named known, fun missing => ?_⟩
          cases missing.symm.trans found
        · intro survivable s named known
          exact survivable.modify d s found (Bool.eq_false_iff.mpr moves) named known
    · rename_i missing
      have absent : ∀ {P : Prop} {d : Nat}, k.findThreadByGlobalId k.callerFrame.r0 = some d → P := fun found => by
        cases found.symm.trans missing
      split
      · rename_i nil
        refine iff_of_true ⟨_, rfl⟩ ⟨fun _ => absent, fun _ _ => absent, fun _ moves => ?_⟩
        cases moves.symm.trans nil
      · rename_i moves
        rw [bind_returns, syscallThreadControlCreate_returns]
        constructor
        · intro safe
          exact ⟨fun _ => absent, fun _ _ => absent, fun _ _ => safe⟩
        · intro survivable
          exact survivable.create missing (Bool.eq_false_iff.mpr moves)

def asksThird : Kernel :=
  let k := ofTable [rootId, SmallSystem.secondId] [0, 1] 2
  k.setMem (k.mem.setFrame 0#32 fun f => { f with r0 := globalId 0x42#32 1#32, r1 := globalId 0x42#32 1#32 })

theorem syscallThreadControl_finishes_iff_third : asksThird.Finishes :=
  (syscallThreadControl_finishes_iff (k := asksThird) (by decide)).mpr fun _ =>
    ⟨fun d found => absurd found (by simp [show asksThird.findThreadByGlobalId asksThird.callerFrame.r0 = none by decide]),
      fun d _ found => absurd found (by simp [show asksThird.findThreadByGlobalId asksThird.callerFrame.r0 = none by decide]),
      fun _ _ _ => ⟨by decide, by decide, 2, by decide, by unfold Insertable; decide⟩⟩

/-- A call in a state reached from boot, not for the end of the root thread, that stops the kernel. -/
def Stops (e : Halt) : Prop :=
  ∃ b k as, boot SmallSystem.bootInfo = .ok b ∧ Theory.Run Step b as k ∧ k.pendingCall = some .threadControl ∧
    ¬ (k.findThreadByGlobalId k.callerFrame.r0 = some rootTcb ∧ sameThreads k.callerFrame.r1 nilThread = true) ∧
    k.syscallThreadControl = .error e

def stopped (x : Fallible Kernel) (e : Halt) : Bool :=
  match x with
  | .error e' => e' = e
  | .ok _ => false

theorem stops_of_run (fs : List (Kernel → Action)) {e : Halt} (h : ((SmallSystem.after (SmallSystem.setup ++ fs)).any fun k =>
    decide (k.pendingCall = some .threadControl ∧ ¬ (k.findThreadByGlobalId k.callerFrame.r0 = some rootTcb ∧
      sameThreads k.callerFrame.r1 nilThread = true)) && stopped k.syscallThreadControl e) = true) : Stops e := by
  obtain ⟨b, k, as, booted, run, _, holds⟩ := SmallSystem.reached_after h
  obtain ⟨call, ends⟩ := Bool.and_eq_true_iff.mp holds
  obtain ⟨number, spares⟩ := of_decide_eq_true call
  refine ⟨b, k, as, booted, run, number, spares, ?_⟩
  unfold stopped at ends
  split at ends
  · rename_i e' result
    rw [result, of_decide_eq_true ends]
  · cases ends

def versionless : List (Kernel → Action) :=
  [SmallSystem.load 0x6000#32 (globalId 0x44#32 0#32) rootId rootId rootId 0x5200#32 2#32, fun _ => .svc, fun _ => .pendsv]

/-- A thread without a space, and a call that moves the second thread to it. -/
def spaceless : List (Kernel → Action) :=
  [SmallSystem.load 0x6000#32 (globalId 0x43#32 1#32) (globalId 0x43#32 1#32) rootId rootId 0x5200#32 2#32] ++ SmallSystem.serve ++
    [SmallSystem.load 0x6000#32 SmallSystem.secondId (globalId 0x43#32 1#32) rootId rootId 0x5100#32 2#32, fun _ => .svc,
      fun _ => .pendsv]

theorem syscallThreadControl_stops : Stops (.panic .zeroVersion) ∧ Stops .nullDeref := by
  have first : Stops (.panic .zeroVersion) := stops_of_run versionless (by decide +kernel)
  have second : Stops .nullDeref := stops_of_run spaceless (by decide +kernel)
  exact ⟨first, second⟩

end BradypOS.Kernel
