import BradypOS.Heap.Law
import BradypOS.Scheduler.Basic

/-!
# The scheduler picks a least priority value

The operations that change the scheduler heap or a priority keep the heap ordered by priority while
the heap underneath never sinks a thread past a lesser left child, nor moves one to a place where it
is less than its new parent.
-/

namespace BradypOS.Scheduler

open Kernel

variable {k k' : Kernel}

instance (k : Kernel) : IsStrictWeakOrder Nat (Heap.Before k.compareThreadByPrio) where
  irrefl a := by simp [compareThreadByPrio, BitVec.ult]
  trans a b c hab hbc := by
    simp only [Heap.Before, compareThreadByPrio, BitVec.ult, decide_eq_true_eq] at hab hbc ⊢
    omega
  incomp_trans a b c hab hbc := by
    simp only [Heap.Before, compareThreadByPrio, BitVec.ult, decide_eq_true_eq] at hab hbc ⊢
    omega

def HeapOrdered (k : Kernel) : Prop := Heap.Ordered k.compareThreadByPrio k.schedule

/-- Taking the thread out of the heap keeps the order: the last thread is sunk soundly into its
place and is not less than the thread above that place. -/
def RemoveSound (k : Kernel) (t : Nat) : Prop :=
  ∀ i, k.findIdxInHeap t = some i →
    Heap.FillSound k.compareThreadByPrio k.schedule i ∧
      (0 < i → i < k.schedule.size - 1 →
        k.compareThreadByPrio (k.schedule.data (k.schedule.size - 1)) (k.schedule.data ((i - 1) / 2)) = false)

/-- The kernel functions that change the heap or a priority. -/
inductive Op where
  | setState (t : Nat) (state : ThreadState)
  | setPriority (t : Nat) (prio : Word)
  | delete (t : Nat)
  | create (globalId : Word)
  | schedule

def OpStep (k : Kernel) (op : Op) (k' : Kernel) : Prop :=
  match op with
  | .setState t state => k' = k.setThreadState t state
  | .setPriority t prio => k' = k.setThreadPriority t prio
  | .delete t => k.deleteThread t = .ok k'
  | .create globalId => ∃ tcb, k.createThread globalId = .ok (tcb, k')
  | .schedule => k.scheduleNextThread = .ok k'

/-- The heap operations below are sound, a thread whose priority changes is in the heap once, and a
slot that is handed out is not in it. -/
def SoundOp (k : Kernel) : Op → Prop
  | .setState t state => state ≠ .runnable → k.state t = .runnable → RemoveSound k t
  | .setPriority t prio => ∀ i, k.findIdxInHeap t = some i →
      Heap.SinkSound (k.setTcb t fun tcb => { tcb with priority := prio }).compareThreadByPrio k.schedule.size
          k.schedule.size k.schedule.data t i ∧
        ∀ j < k.schedule.size, k.schedule.data j = t → j = i
  | .delete t => k.state t = .runnable → RemoveSound k t
  | .create _ => ∀ t, k.allocateTcb = some t → t ∉ k.ready
  | .schedule =>
    (∀ target, k.scheduleTarget = some target → RemoveSound k.requeueCurrent target) ∧
      Heap.FillSound k.requeueCurrent.compareThreadByPrio k.requeueCurrent.schedule 0

/-! ### What each operation keeps -/

theorem HeapOrdered.congr (ordered : HeapOrdered k) (schedule : k'.schedule = k.schedule)
    (priority : ∀ t ∈ k.ready, (k'.tcbs t).priority = (k.tcbs t).priority) : HeapOrdered k' := by
  have inside : ∀ i < k.schedule.size, k.schedule.data i ∈ k.ready := fun i hi => Heap.mem_toList.mpr ⟨i, hi, rfl⟩
  unfold HeapOrdered Heap.Ordered
  rw [schedule]
  intro i hpos hi before
  have hp := Theory.HeapOrder.parent_lt hpos
  apply ordered i hpos hi
  simpa only [Heap.Before, compareThreadByPrio, priority _ (inside i hi), priority _ (inside _ (hp.trans hi))] using before

theorem HeapOrdered.insert (ordered : HeapOrdered k) (t : Nat) : HeapOrdered (k.scheduleInsert t) := by
  by_cases full : k.schedule.size = maxThreads
  · refine ordered.congr ?_ fun _ _ => rfl
    exact congrArg Prod.fst (Heap.insert_full k.compareThreadByPrio full t)
  · exact Heap.insert_ordered k.compareThreadByPrio ordered full t

theorem HeapOrdered.remove (ordered : HeapOrdered k) {t : Nat} (sound : RemoveSound k t) :
    HeapOrdered (k.scheduleRemove t) := by
  unfold scheduleRemove
  split
  · rename_i i found
    obtain ⟨fill, above⟩ := sound i found
    exact (Heap.delete_ordered_iff k.compareThreadByPrio ordered (findIdxInHeap_some found).1 above).mpr fill
  · exact ordered

theorem setThreadState_ordered (ordered : HeapOrdered k) {t : Nat} {state : ThreadState}
    (sound : SoundOp k (.setState t state)) : HeapOrdered (k.setThreadState t state) := by
  have moved : HeapOrdered (k.moveSchedule t state) := by
    unfold moveSchedule
    split
    · exact ordered.insert t
    · split
      · rename_i sleeps
        exact ordered.remove (sound sleeps.1 sleeps.2)
      · exact ordered
  refine moved.congr rfl fun u _ => ?_
  obtain ⟨_, _, same⟩ := k.moveSchedule_frame t state
  rw [setThreadState_tcbs, same, Function.update_apply]
  split
  · rename_i h; rw [h]
  · rfl

/-- A new priority leaves only the pairs of its thread's place open: every other pair compares as before. -/
theorem HeapOrdered.reprioritised (ordered : HeapOrdered k) {t i : Nat} (prio : Word) (found : k.findIdxInHeap t = some i)
    (once : ∀ j < k.schedule.size, k.schedule.data j = t → j = i) :
    Theory.HeapOrder.Hole (Heap.Before (k.setTcb t fun tcb => { tcb with priority := prio }).compareThreadByPrio)
      k.schedule.data k.schedule.size i := by
  have others : ∀ u, u ≠ t →
      ((k.setTcb t fun tcb => { tcb with priority := prio }).tcbs u).priority = (k.tcbs u).priority :=
    fun u other => by rw [setTcb_other _ _ _ _ other]
  have old := Theory.HeapOrder.Ordered.hole ordered (findIdxInHeap_some found).1
  have same : ∀ a b, a < k.schedule.size → b < k.schedule.size → a ≠ i → b ≠ i →
      (k.setTcb t fun tcb => { tcb with priority := prio }).compareThreadByPrio (k.schedule.data a)
        (k.schedule.data b) = k.compareThreadByPrio (k.schedule.data a) (k.schedule.data b) := by
    intro a b ha hb hai hbi
    simp only [compareThreadByPrio]
    rw [others _ fun h => hai (once a ha h), others _ fun h => hbi (once b hb h)]
  refine ⟨fun j hpos hj hji hpi before => ?_, fun hpos c hc hcn hpc before => ?_⟩
  · have hp := Theory.HeapOrder.parent_lt hpos
    exact old.rest j hpos hj hji hpi ((same _ _ hj (by omega) hji hpi).symm.trans before)
  · have hp := Theory.HeapOrder.parent_lt hpos
    have hlt := Theory.HeapOrder.parent_lt hc
    exact old.grand hpos c hc hcn hpc ((same _ _ hcn (by omega) (by omega) (by omega)).symm.trans before)

theorem HeapOrdered.reprioritised_absent (ordered : HeapOrdered k) {t : Nat} (prio : Word) (absent : t ∉ k.ready) :
    HeapOrdered (k.setTcb t fun tcb => { tcb with priority := prio }) := by
  refine ordered.congr rfl fun u member => ?_
  have other : u ≠ t := fun same => absent (same ▸ member)
  rw [setTcb_other _ _ _ _ other]

theorem setThreadPriority_absent {t : Nat} {prio : Word} (missing : k.findIdxInHeap t = none) :
    k.setThreadPriority t prio = k.setTcb t fun tcb => { tcb with priority := prio } := by
  unfold setThreadPriority
  dsimp only
  split
  · rfl
  · rename_i i found
    cases found.symm.trans missing

theorem setThreadPriority_present {t i : Nat} (prio : Word) (found : k.findIdxInHeap t = some i) :
    ∃ k₁, k₁ = k.setTcb t (fun tcb => { tcb with priority := prio }) ∧ k.setThreadPriority t prio =
      k₁.setSchedule (Heap.swim k₁.compareThreadByPrio (Heap.sink k₁.compareThreadByPrio k.schedule i).1
        (Heap.sink k₁.compareThreadByPrio k.schedule i).2).1 := by
  refine ⟨_, rfl, ?_⟩
  unfold setThreadPriority
  dsimp only
  split
  · rename_i missing
    cases missing.symm.trans found
  · rename_i j here
    cases here.symm.trans found
    rfl

theorem setThreadPriority_ordered (ordered : HeapOrdered k) {t : Nat} {prio : Word}
    (sound : SoundOp k (.setPriority t prio)) : HeapOrdered (k.setThreadPriority t prio) := by
  cases found : k.findIdxInHeap t with
  | none =>
    rw [setThreadPriority_absent found]
    exact ordered.reprioritised_absent prio (findIdxInHeap_none.mp found)
  | some i =>
    obtain ⟨inside, here⟩ := findIdxInHeap_some found
    obtain ⟨sink, once⟩ := sound i found
    have hole := ordered.reprioritised prio found once
    have placed := Heap.sink_swim_ordered _ (h := k.schedule) hole inside (by rw [here]; exact sink)
    obtain ⟨k₁, rfl, moved⟩ := setThreadPriority_present prio found
    rw [moved]
    exact placed

theorem deleteThread_ordered (ordered : HeapOrdered k) {t : Nat} (sound : SoundOp k (.delete t))
    (h : k.deleteThread t = .ok k') : HeapOrdered k' := by
  obtain ⟨list, rfl⟩ := deleteThread_spec h
  have removed : HeapOrdered (k.unschedule t) := by
    unfold unschedule
    split
    · rename_i runs; exact ordered.remove (sound runs)
    · exact ordered
  obtain ⟨tcbs, same, links⟩ := ((k.unschedule t).setTable (k.threadCount - 1) list).unlinkSiblings_frame t
  refine removed.congr ?_ fun u _ => ?_
  · rw [same]; rfl
  · obtain ⟨n, p, h⟩ := links u
    have kept := congrArg Tcb.priority h
    rw [same]
    exact kept

theorem createThread_ordered (ordered : HeapOrdered k) {globalId : Word} (sound : SoundOp k (.create globalId))
    {tcb : Option Nat} (h : k.createThread globalId = .ok (tcb, k')) : HeapOrdered k' := by
  rcases createThread_spec h with ⟨_, rfl⟩ | ⟨t, list, _, free, _, rfl⟩
  · exact ordered
  · refine ordered.congr rfl fun u member => ?_
    have other : u ≠ t := fun same => sound t free (same ▸ member)
    exact congrArg Tcb.priority (setTcb_other (k.takeTcb t) t u (freshTcb globalId) other)

theorem HeapOrdered.requeue (ordered : HeapOrdered k) : HeapOrdered k.requeueCurrent := by
  unfold requeueCurrent
  split
  · exact ordered.insert _
  · exact ordered

theorem selectThread_ordered (ordered : HeapOrdered k)
    (remove : ∀ target, k.scheduleTarget = some target → RemoveSound k target)
    (fill : Heap.FillSound k.compareThreadByPrio k.schedule 0) {idx : Nat} (h : k.selectThread = .ok (idx, k')) :
    HeapOrdered k' := by
  have least : ∀ {idx : Nat} {k' : Kernel}, k.findThreadIdxToSchedule = .ok (idx, k') → HeapOrdered k' := by
    intro idx k' h
    unfold findThreadIdxToSchedule at h
    obtain ⟨_, checked, h⟩ := bind_ok h
    cases h
    have nonempty := Nat.pos_of_ne_zero (of_decide_eq_true (kassert_ok checked))
    exact (Heap.pop_ordered_iff k.compareThreadByPrio ordered nonempty).mpr fill
  unfold selectThread at h
  split at h
  · rename_i target asked
    unfold findThreadIdxToScheduleFromTarget at h
    split at h
    · rename_i i found
      obtain ⟨_, _, h⟩ := bind_ok h
      cases h
      have removed := ordered.remove (remove _ asked)
      unfold scheduleRemove at removed
      rw [found] at removed
      exact removed
    · exact least h
  · exact least h

theorem requeueCurrent_target (k : Kernel) : k.requeueCurrent.scheduleTarget = k.scheduleTarget := by
  unfold requeueCurrent
  split <;> rfl

theorem scheduleNextThread_ordered (ordered : HeapOrdered k) (sound : SoundOp k .schedule)
    (h : k.scheduleNextThread = .ok k') : HeapOrdered k' := by
  obtain ⟨idx, k₁, alarms, selected, _, rfl⟩ := scheduleNextThread_spec h
  have remove : ∀ target, k.requeueCurrent.scheduleTarget = some target → RemoveSound k.requeueCurrent target :=
    fun target asked => sound.1 target ((requeueCurrent_target k).symm.trans asked)
  have chosen := selectThread_ordered ordered.requeue remove sound.2 selected
  exact chosen.congr rfl fun _ _ => rfl

/-! ### Runs -/

theorem op_ordered {op : Op} (ordered : HeapOrdered k) (sound : SoundOp k op) (step : OpStep k op k') :
    HeapOrdered k' := by
  cases op with
  | setState t state => cases step; exact setThreadState_ordered ordered sound
  | setPriority t prio => cases step; exact setThreadPriority_ordered ordered sound
  | delete t => exact deleteThread_ordered ordered sound step
  | create globalId =>
    obtain ⟨tcb, h⟩ := step
    exact createThread_ordered ordered sound h
  | schedule => exact scheduleNextThread_ordered ordered sound step

theorem selects_least (ordered : HeapOrdered k) (noTarget : k.scheduleTarget = none)
    (h : k.scheduleNextThread = .ok k') :
    ∀ t ∈ k.requeueCurrent.ready,
      (k.requeueCurrent.tcbs k'.currentThreadIdx).priority ≤ (k.requeueCurrent.tcbs t).priority := by
  obtain ⟨idx, k₁, alarms, selected, _, rfl⟩ := scheduleNextThread_spec h
  have target : k.requeueCurrent.scheduleTarget = none := (requeueCurrent_target k).trans noTarget
  simp only [selectThread, target] at selected
  unfold findThreadIdxToSchedule at selected
  obtain ⟨_, _, selected⟩ := bind_ok selected
  cases selected
  intro t member
  obtain ⟨i, inside, rfl⟩ := Heap.mem_toList.mp member
  have least := Theory.HeapOrder.Ordered.root_least ordered.requeue i inside
  simp only [Heap.Before, compareThreadByPrio, BitVec.ult, decide_eq_true_eq, Nat.not_lt] at least
  exact BitVec.le_def.mpr least

/-- Pops of a heap built by sound operations take a least element, and so does the scheduler. -/
theorem least_first {α : Type} (lt : α → α → Bool) [IsStrictWeakOrder α (Heap.Before lt)] (capacity : Nat) :
    (∀ (h h' : Heap α) (ops : List (Heap.Op α)), h.size = 0 →
      Theory.Run (Theory.Guarded (Heap.Sound lt) (Heap.Step lt capacity)) h ops h' →
      ∀ i < h'.size, lt (h'.data i) (h'.data 0) = false) ∧
    (∀ (k k' k'' : Kernel) (ops : List Op), HeapOrdered k →
      Theory.Run (Theory.Guarded SoundOp OpStep) k ops k' → k'.scheduleTarget = none →
      k'.scheduleNextThread = .ok k'' → ∀ t ∈ k'.requeueCurrent.ready,
        (k'.requeueCurrent.tcbs k''.currentThreadIdx).priority ≤ (k'.requeueCurrent.tcbs t).priority) := by
  refine ⟨fun h h' ops start run => Heap.least_of_run lt start run, ?_⟩
  intro k k' k'' ops start run noTarget selected
  have ordered : HeapOrdered k' :=
    run.invariant (I := HeapOrdered) (fun _ _ _ step before => op_ordered before step.1 step.2) start
  exact selects_least ordered noTarget selected

instance (k : Kernel) : Decidable (HeapOrdered k) :=
  decidable_of_iff
    (∀ i < k.schedule.size, 0 < i →
      k.compareThreadByPrio (k.schedule.data i) (k.schedule.data ((i - 1) / 2)) = false)
    ⟨fun h i hpos hi => by simpa [Theory.HeapOrder.parent] using h i hi hpos,
      fun h i hi hpos => by simpa [Theory.HeapOrder.parent] using h i hpos hi⟩

/-- The first, second and third of three numbers, and a pop. -/
def threeAndPop : List (Heap.Op Nat) := [.insert 2, .insert 1, .insert 3, .pop]

theorem least_first_small :
    (∃ h', Theory.Run (Theory.Guarded (Heap.Sound Nat.blt) (Heap.Step Nat.blt 16)) Heap.empty threeAndPop h' ∧
      h'.size = 2 ∧ ∀ i < h'.size, Nat.blt (h'.data i) (h'.data 0) = false) ∧
    (∃ k k' k'' : Kernel, boot SmallSystem.bootInfo = .ok k ∧
      Theory.Run (Theory.Guarded SoundOp OpStep) k [.setState 5 .runnable] k' ∧ k'.scheduleNextThread = .ok k'' ∧
      ∀ t ∈ k'.requeueCurrent.ready,
        (k'.requeueCurrent.tcbs k''.currentThreadIdx).priority ≤ (k'.requeueCurrent.tcbs t).priority) := by
  constructor
  · have run : Theory.Run (Theory.Guarded (Heap.Sound Nat.blt) (Heap.Step Nat.blt 16)) Heap.empty threeAndPop _ :=
      .cons ⟨trivial, by decide, rfl⟩ (.cons ⟨trivial, by decide, rfl⟩ (.cons ⟨trivial, by decide, rfl⟩
        (.cons ⟨show Heap.FillSound _ _ _ by unfold Heap.FillSound; decide, by decide, rfl⟩ (.nil _))))
    exact ⟨_, run, rfl, (least_first Nat.blt 16).1 _ _ _ rfl run⟩
  · have done : ((boot SmallSystem.bootInfo).toOption.any fun k => decide (HeapOrdered k) &&
        decide ((k.setThreadState 5 .runnable).scheduleTarget = none) &&
        (k.setThreadState 5 .runnable).scheduleNextThread.toOption.isSome) = true := by decide +kernel
    obtain ⟨k, booted, holds⟩ := (Option.any_eq_true _ _).mp done
    simp only [Bool.and_eq_true, decide_eq_true_eq] at holds
    obtain ⟨⟨ordered, noTarget⟩, returns⟩ := holds
    obtain ⟨k'', selected⟩ := Option.isSome_iff_exists.mp returns
    have run : Theory.Run (Theory.Guarded SoundOp OpStep) k [.setState 5 .runnable] (k.setThreadState 5 .runnable) :=
      .single ⟨fun other => absurd rfl other, rfl⟩
    exact ⟨k, _, k'', ok_of_toOption booted, run, ok_of_toOption selected,
      (least_first Nat.blt 16).2 k _ k'' _ ordered run noTarget (ok_of_toOption selected)⟩

/-- Four numbers in order, and a pop. -/
def fourAndPop : List (Heap.Op Nat) := [.insert 1, .insert 2, .insert 3, .insert 4, .pop]

/-- The pop sinks 4 to the right, past the lesser left child 2: now 3 is at the root. -/
theorem fourAndPop_not_least : ∃ h', Theory.Run (Heap.Step Nat.blt 16) Heap.empty fourAndPop h' ∧
    h'.data 0 = 3 ∧ ∃ i < h'.size, Nat.blt (h'.data i) (h'.data 0) = true := by
  refine ⟨_, .cons ⟨by decide, rfl⟩ (.cons ⟨by decide, rfl⟩ (.cons ⟨by decide, rfl⟩ (.cons ⟨by decide, rfl⟩
    (.cons ⟨by decide, rfl⟩ (.nil _))))), by decide, 1, by decide, by decide⟩

end BradypOS.Scheduler
