import BradypOS.Heap.Root
import BradypOS.Scheduler.Priority

/-!
# The kernel thread always wins

With the only priority 0, the kernel thread is at the root of the scheduler heap whenever it is in the
heap, however the rest of the heap is ordered.
-/

namespace BradypOS.Scheduler

open Kernel

variable {k k' : Kernel}

/-- No thread is in the heap twice, and the kernel thread alone has priority 0. -/
structure Fair (k : Kernel) : Prop where
  distinct : k.ready.Nodup
  kernel : (k.tcbs kernTcb).priority = 0#32
  others : ∀ t ∈ k.ready, t ≠ kernTcb → 0#32 < (k.tcbs t).priority

structure Wins (k : Kernel) : Prop where
  root : Heap.AtRoot kernTcb k.schedule
  runs : kernTcb ∈ k.ready → k.state kernTcb = .runnable
  slots : ∀ t ∈ k.ready, t < maxThreads
  current : k.currentThreadIdx = invalidIdx ∨ k.currentThreadIdx < maxThreads

theorem least_of_zero (kernel : (k.tcbs kernTcb).priority = 0#32) (t : Nat) : k.compareThreadByPrio t kernTcb = false := by
  simp [compareThreadByPrio, kernel, BitVec.ult]

theorem scheduleInsert_root (f : Fair k) (root : Heap.AtRoot kernTcb k.schedule) {t : Nat}
    (fresh : t = kernTcb → kernTcb ∉ k.ready) : Heap.AtRoot kernTcb (k.scheduleInsert t).schedule := by
  refine Heap.insert_root (least_of_zero f.kernel) root fun same => ⟨fresh same, fun u member => ?_⟩
  have other : u ≠ kernTcb := fun here => fresh same (here ▸ member)
  have above : 0#32 < (k.tcbs u).priority := f.others u member other
  simp only [compareThreadByPrio, f.kernel]
  exact decide_eq_true above

namespace Wins

theorem delete (w : Wins k) (f : Fair k) {i : Nat} (inside : i < k.schedule.size) : Wins (k.scheduleDelete i) := by
  have perm := Heap.delete_perm k.compareThreadByPrio k.schedule inside
  have before : ∀ u ∈ (k.scheduleDelete i).ready, u ∈ k.ready :=
    fun u member => perm.mem_iff.mp (List.mem_cons_of_mem _ member)
  exact ⟨Heap.delete_root (least_of_zero f.kernel) w.root f.distinct inside, fun member => w.runs (before _ member),
    fun u member => w.slots u (before u member), w.current⟩

theorem remove (w : Wins k) (f : Fair k) (t : Nat) : Wins (k.scheduleRemove t) := by
  unfold scheduleRemove
  split
  · rename_i i found
    exact w.delete f (findIdxInHeap_some found).1
  · exact w

/-- A change beside the heap that leaves the kernel thread runnable. -/
theorem of_same (w : Wins k) (schedule : k'.schedule = k.schedule)
    (state : k.state kernTcb = .runnable → k'.state kernTcb = .runnable)
    (current : k'.currentThreadIdx = k.currentThreadIdx) : Wins k' := by
  have ready : k'.ready = k.ready := congrArg Heap.toList schedule
  refine ⟨?_, fun member => ?_, fun u member => w.slots u (ready ▸ member), ?_⟩
  · rw [schedule]; exact w.root
  · exact state (w.runs (ready ▸ member))
  · rw [current]; exact w.current

theorem setThreadState (w : Wins k) (f : Fair k) {t : Nat} (slot : t < maxThreads) (st : ThreadState) :
    Wins (k.setThreadState t st) := by
  have current : (k.setThreadState t st).currentThreadIdx = invalidIdx ∨
      (k.setThreadState t st).currentThreadIdx < maxThreads := by
    rw [setThreadState_currentThreadIdx]
    exact w.current
  by_cases enters : st = .runnable ∧ k.state t ≠ .runnable
  · have moved : (k.setThreadState t st).schedule = (k.scheduleInsert t).schedule := by
      rw [setThreadState_schedule, moveSchedule, if_pos enters]
    have ready : (k.setThreadState t st).ready = (k.scheduleInsert t).ready := congrArg Heap.toList moved
    -- The kernel thread is not in the heap while it is not runnable.
    have fresh : t = kernTcb → kernTcb ∉ k.ready := by
      intro here member
      rw [here] at enters
      exact enters.2 (w.runs member)
    refine ⟨?_, fun member => ?_, fun u member => ?_, current⟩
    · rw [moved]
      exact scheduleInsert_root f w.root fresh
    · rw [state_setThreadState]
      rw [ready] at member
      split
      · exact enters.1
      · rename_i other
        exact w.runs ((scheduleInsert_mem member).resolve_left other)
    · rw [ready] at member
      rcases scheduleInsert_mem member with here | before
      · rw [here]; exact slot
      · exact w.slots u before
  · by_cases leaves : st ≠ .runnable ∧ k.state t = .runnable
    · have moved : (k.setThreadState t st).schedule = (k.scheduleRemove t).schedule := by
        rw [setThreadState_schedule, moveSchedule, if_neg enters, if_pos leaves]
      have ready : (k.setThreadState t st).ready = (k.scheduleRemove t).ready := congrArg Heap.toList moved
      have removed := w.remove f t
      refine ⟨moved ▸ removed.root, fun member => ?_, fun u member => removed.slots u (ready ▸ member), current⟩
      rw [ready] at member
      obtain ⟨before, other⟩ := (scheduleRemove_ready f.distinct t kernTcb).mp member
      rw [state_setThreadState, if_neg other]
      exact w.runs before
    · have same : (k.setThreadState t st).schedule = k.schedule := by
        rw [setThreadState_schedule, moveSchedule, if_neg enters, if_neg leaves]
      refine w.of_same same (fun runs => ?_) (setThreadState_currentThreadIdx ..)
      rw [state_setThreadState]
      split
      · rename_i here
        rw [here] at runs
        exact Decidable.not_not.mp fun other => leaves ⟨other, runs⟩
      · exact runs

theorem setThreadPriority (w : Wins k) (t : Nat) (prio : Word) (f' : Fair (k.setThreadPriority t prio)) :
    Wins (k.setThreadPriority t prio) := by
  obtain ⟨schedule, same, perm⟩ := k.setThreadPriority_spec t prio
  have ready : ∀ u ∈ (k.setThreadPriority t prio).ready, u ∈ k.ready := by
    intro u member
    rw [same] at member
    exact perm.mem_iff.mp member
  have kernel : ((k.setTcb t fun tcb => { tcb with priority := prio }).tcbs kernTcb).priority = 0#32 := by
    have zero := f'.kernel
    rw [same] at zero
    exact zero
  have root : Heap.AtRoot kernTcb (k.setThreadPriority t prio).schedule := by
    unfold Kernel.setThreadPriority
    dsimp only
    split
    · exact w.root
    · rename_i i found
      exact Heap.sink_swim_root (least_of_zero kernel) w.root (findIdxInHeap_some found).1
  refine ⟨root, fun member => ?_, fun u member => w.slots u (ready u member), ?_⟩
  · have state : (k.setThreadPriority t prio).state kernTcb = k.state kernTcb := by
      rw [same]
      show (Function.update k.tcbs t _ kernTcb).state = _
      rw [Function.update_apply]
      split
      · rename_i here; rw [← here]; rfl
      · rfl
    rw [state]
    exact w.runs (ready _ member)
  · rw [same]
    exact w.current

theorem deleteThread (w : Wins k) (f : Fair k) {t : Nat} (h : k.deleteThread t = .ok k') : Wins k' := by
  have gone := deleteThread_gone h
  have unscheduled : Wins (k.unschedule t) := by
    unfold unschedule
    split
    · exact w.remove f t
    · exact w
  obtain ⟨schedule, same⟩ := k.unschedule_frame t
  refine unscheduled.of_same gone.schedule (fun runs => ?_) ?_
  · obtain ⟨_, _, kept⟩ := gone.tcbs kernTcb
    rw [same] at runs
    unfold Kernel.state
    rw [kept]
    exact runs
  · rw [gone.currentThreadIdx, same]
    rfl

theorem createThread (w : Wins k) (f' : Fair k') {globalId : Word} {tcb : Option Nat}
    (h : k.createThread globalId = .ok (tcb, k')) : Wins k' := by
  rcases createThread_spec h with ⟨_, rfl⟩ | ⟨t, list, _, slot, _, rfl⟩
  · exact w
  · -- A slot that is handed out gets another priority than the kernel thread's.
    have other : kernTcb ≠ t := by
      intro here
      have zero := f'.kernel
      rw [here] at zero
      have fresh : (((k.takeTcb t).setTcb t (freshTcb globalId)).tcbs t).priority = 0#32 := zero
      rw [setTcb_same] at fresh
      have fresh : (42#32 : Word) = 0#32 := fresh
      exact absurd fresh (by decide)
    refine w.of_same rfl (fun runs => ?_) rfl
    have kept : ((k.takeTcb t).setTcb t (freshTcb globalId)).tcbs kernTcb = k.tcbs kernTcb := setTcb_other _ _ _ _ other
    show (((k.takeTcb t).setTcb t (freshTcb globalId)).tcbs kernTcb).state = .runnable
    rw [kept]
    exact runs

theorem requeue (w : Wins k) (f : Fair k) (distinct : k.requeueCurrent.ready.Nodup) : Wins k.requeueCurrent := by
  unfold requeueCurrent at distinct ⊢
  split
  · rename_i runs
    rw [if_pos runs] at distinct
    have slot : k.currentThreadIdx < maxThreads := w.current.resolve_left runs.1
    by_cases full : k.schedule.size = maxThreads
    · refine w.of_same ?_ (fun same => same) rfl
      simp [scheduleInsert, log, setSchedule, Heap.insert_full _ full]
    · have perm := scheduleInsert_ready full k.currentThreadIdx
      have fresh := (List.nodup_cons.mp (perm.nodup_iff.mp distinct)).1
      refine ⟨scheduleInsert_root f w.root fun here => here ▸ fresh, fun member => ?_, fun u member => ?_, w.current⟩
      · rcases scheduleInsert_mem member with here | before
        · have state := runs.2
          rw [← here] at state
          exact state
        · exact w.runs before
      · rcases scheduleInsert_mem member with here | before
        · rw [here]; exact slot
        · exact w.slots u before
  · exact w

theorem select (w : Wins k) (f : Fair k) {idx : Nat} (h : k.selectThread = .ok (idx, k')) :
    Wins k' ∧ idx < maxThreads := by
  have least : ∀ {idx : Nat} {k' : Kernel}, k.findThreadIdxToSchedule = .ok (idx, k') → Wins k' ∧ idx < maxThreads := by
    intro idx k' h
    unfold findThreadIdxToSchedule at h
    obtain ⟨_, checked, h⟩ := bind_ok h
    cases h
    have inside : 0 < k.schedule.size := Nat.pos_of_ne_zero (of_decide_eq_true (kassert_ok checked))
    exact ⟨w.delete f inside, w.slots _ (Heap.mem_toList.mpr ⟨0, inside, rfl⟩)⟩
  unfold selectThread at h
  split at h
  · unfold findThreadIdxToScheduleFromTarget at h
    split at h
    · rename_i target _ i found
      obtain ⟨_, _, h⟩ := bind_ok h
      cases h
      obtain ⟨inside, here⟩ := findIdxInHeap_some found
      exact ⟨w.delete f inside, w.slots _ (Heap.mem_toList.mpr ⟨i, inside, here⟩)⟩
    · exact least h
  · exact least h

theorem scheduleNextThread (w : Wins k) (f : Fair k) (f₁ : Fair k.requeueCurrent) (h : k.scheduleNextThread = .ok k') :
    Wins k' := by
  obtain ⟨idx, k₁, alarms, selected, _, rfl⟩ := scheduleNextThread_spec h
  obtain ⟨w₁, slot⟩ := (w.requeue f f₁.distinct).select f₁ selected
  exact ⟨w₁.root, w₁.runs, w₁.slots, .inr slot⟩

end Wins

/-! ### The selection -/

/-- The kernel thread is in the heap, or it is the current thread and will go back into it. -/
def KernelReady (k : Kernel) : Prop :=
  kernTcb ∈ k.ready ∨ k.currentThreadIdx = kernTcb ∧ k.state kernTcb = .runnable

theorem requeue_ready (w : Wins k) (f : Fair k) (ready : KernelReady k) : kernTcb ∈ k.requeueCurrent.ready := by
  by_cases before : kernTcb ∈ k.ready
  · unfold requeueCurrent
    split
    · by_cases full : k.schedule.size = maxThreads
      · simpa [Kernel.ready, scheduleInsert, log, setSchedule, Heap.insert_full _ full] using before
      · exact (scheduleInsert_ready full _).mem_iff.mpr (List.mem_cons_of_mem _ before)
    · exact before
  · obtain ⟨current, runs⟩ := ready.resolve_left before
    have room : k.schedule.size ≠ maxThreads := room_of_nodup f.distinct w.slots before (by decide)
    have inserts : k.currentThreadIdx ≠ invalidIdx ∧ k.state k.currentThreadIdx = .runnable := by
      rw [current]
      exact ⟨by decide, runs⟩
    unfold requeueCurrent
    rw [if_pos inserts, current]
    exact (scheduleInsert_ready room kernTcb).mem_iff.mpr (List.mem_cons_self ..)

theorem selects_kernel (w : Wins k) (f : Fair k) (f₁ : Fair k.requeueCurrent) (ready : KernelReady k)
    (target : k.scheduleTarget = none ∨ k.scheduleTarget = some kernTcb) :
    ∃ k₁, k.requeueCurrent.selectThread = .ok (kernTcb, k₁) := by
  have w₁ := w.requeue f f₁.distinct
  have member := requeue_ready w f ready
  have top := w₁.root member
  obtain ⟨i, inside, here⟩ := Heap.mem_toList.mp member
  unfold selectThread
  rw [requeueCurrent_target]
  rcases target with none | some
  · rw [none]
    have nonempty : k.requeueCurrent.schedule.size ≠ 0 := by omega
    exact ⟨k.requeueCurrent.schedulePop, by simp [findThreadIdxToSchedule, kassert, nonempty, top]; rfl⟩
  · rw [some]
    dsimp only
    unfold findThreadIdxToScheduleFromTarget
    split
    · rename_i j found
      exact ⟨k.requeueCurrent.scheduleDelete j, by simp [kassert, w₁.runs member]; rfl⟩
    · rename_i missing
      exact absurd member (findIdxInHeap_none.mp missing)

/-! ### Runs -/

inductive Request where
  | op (op : Op)
  /-- `request_reschedule`. -/
  | target (target : Option Nat)

/-- The threads whose states are set are slots, and a thread that goes back into the heap is not in it. -/
def Sensible (k : Kernel) : Request → Prop
  | .op (.setState t _) => t < maxThreads
  | .op .schedule => Fair k.requeueCurrent
  | _ => True

def RequestStep (k : Kernel) (r : Request) (k' : Kernel) : Prop :=
  match r with
  | .op op => OpStep k op k'
  | .target target => k' = k.requestReschedule target

/-- A step along which no thread is in the heap twice and the kernel thread alone has priority 0. -/
structure FairStep (k : Kernel) (r : Request) (k' : Kernel) : Prop where
  sensible : Sensible k r
  before : Fair k
  step : RequestStep k r k'
  after : Fair k'

theorem fairStep_wins {r : Request} (h : FairStep k r k') (w : Wins k) : Wins k' := by
  obtain ⟨sensible, before, step, after⟩ := h
  cases r with
  | target target => cases step; exact w.of_same rfl (fun runs => runs) rfl
  | op op =>
    cases op with
    | setState t st => cases step; exact w.setThreadState before sensible st
    | setPriority t prio => cases step; exact w.setThreadPriority t prio after
    | delete t => exact w.deleteThread before step
    | create globalId =>
      obtain ⟨tcb, created⟩ := step
      exact w.createThread after created
    | schedule => exact w.scheduleNextThread before sensible step

/-- The kernel thread is at the root whenever it is in the heap, and it is selected when it is asked
for or nobody is, whenever it is in the heap or is the current thread and still runnable. -/
theorem kernel_wins {k₀ : Kernel} {rs : List Request} (absent : kernTcb ∉ k₀.ready)
    (slots : ∀ t ∈ k₀.ready, t < maxThreads) (current : k₀.currentThreadIdx = invalidIdx ∨ k₀.currentThreadIdx < maxThreads)
    (run : Theory.Run FairStep k₀ rs k) :
    (kernTcb ∈ k.ready → k.schedule.data 0 = kernTcb) ∧
    (Fair k → Fair k.requeueCurrent → k.scheduleTarget = none ∨ k.scheduleTarget = some kernTcb → KernelReady k →
      (∃ k₁, k.requeueCurrent.selectThread = .ok (kernTcb, k₁)) ∧
        ∀ k', k.scheduleNextThread = .ok k' → k'.currentThreadIdx = kernTcb) := by
  have start : Wins k₀ := ⟨fun member => absurd member absent, fun member => absurd member absent, slots, current⟩
  have w : Wins k := run.invariant (I := Wins) (fun _ _ _ => fairStep_wins) start
  refine ⟨w.root, fun f f₁ target ready => ?_⟩
  obtain ⟨k₁, selected⟩ := selects_kernel w f f₁ ready target
  refine ⟨⟨k₁, selected⟩, fun k' switched => ?_⟩
  obtain ⟨idx, k₂, alarms, selected', _, rfl⟩ := scheduleNextThread_spec switched
  rw [selected] at selected'
  cases selected'
  rfl

theorem fair_iff : Fair k ↔ k.ready.Nodup ∧ (k.tcbs kernTcb).priority = 0#32 ∧
    ∀ t ∈ k.ready, t ≠ kernTcb → 0#32 < (k.tcbs t).priority :=
  ⟨fun f => ⟨f.distinct, f.kernel, f.others⟩, fun h => ⟨h.1, h.2.1, h.2.2⟩⟩

instance (k : Kernel) : Decidable (Fair k) := decidable_of_iff' _ fair_iff

instance (k : Kernel) : (r : Request) → Decidable (Sensible k r)
  | .op (.setState t _) => inferInstanceAs (Decidable (t < maxThreads))
  | .op .schedule => inferInstanceAs (Decidable (Fair k.requeueCurrent))
  | .op (.setPriority _ _) | .op (.delete _) | .op (.create _) | .target _ => inferInstanceAs (Decidable True)

def requested (k : Kernel) : Request → Option Kernel
  | .op (.setState t state) => some (k.setThreadState t state)
  | .op (.setPriority t prio) => some (k.setThreadPriority t prio)
  | .op (.delete t) => (k.deleteThread t).toOption
  | .op (.create globalId) => (k.createThread globalId).toOption.map Prod.snd
  | .op .schedule => k.scheduleNextThread.toOption
  | .target target => some (k.requestReschedule target)

theorem requestStep_of_requested {r : Request} (h : requested k r = some k') : RequestStep k r k' := by
  cases r with
  | target target => exact (Option.some.inj h).symm
  | op op =>
    cases op with
    | setState t st => exact (Option.some.inj h).symm
    | setPriority t prio => exact (Option.some.inj h).symm
    | delete t => exact ok_of_toOption h
    | create globalId =>
      obtain ⟨⟨tcb, k₁⟩, created, rfl⟩ := Option.map_eq_some_iff.mp h
      exact ⟨tcb, ok_of_toOption created⟩
    | schedule => exact ok_of_toOption h

def nextFair (k : Kernel) (r : Request) : Option Kernel :=
  (requested k r).filter fun k' => decide (Sensible k r ∧ Fair k ∧ Fair k')

theorem fairStep_of_next (k : Kernel) (r : Request) (k' : Kernel) (h : nextFair k r = some k') : FairStep k r k' := by
  obtain ⟨step, fair⟩ := Option.filter_eq_some_iff.mp h
  obtain ⟨sensible, before, after⟩ := of_decide_eq_true fair
  exact ⟨sensible, before, requestStep_of_requested step, after⟩

/-- From boot: the root thread is chosen, blocks in a system call and hands it to the kernel thread. -/
def rootCalls : List Request :=
  [.op .schedule, .op (.setState rootTcb .svcBlocked), .op (.setState kernTcb .runnable), .target (some kernTcb)]

theorem kernel_wins_rootCalls : ∃ b k k', boot SmallSystem.bootInfo = .ok b ∧ Theory.Run FairStep b rootCalls k ∧
    k.schedule.data 0 = kernTcb ∧ k.scheduleNextThread = .ok k' ∧ k'.currentThreadIdx = kernTcb := by
  have done : ((boot SmallSystem.bootInfo).toOption.any fun b =>
      decide (kernTcb ∉ b.ready ∧ (∀ t ∈ b.ready, t < maxThreads) ∧ b.currentThreadIdx = invalidIdx) &&
      (Theory.follow nextFair b (rootCalls.map fun r _ => r)).any fun k =>
        decide (Fair k ∧ Fair k.requeueCurrent ∧ k.scheduleTarget = some kernTcb ∧ kernTcb ∈ k.ready) &&
          k.scheduleNextThread.toOption.isSome) = true := by decide +kernel
  obtain ⟨b, booted, later⟩ := (Option.any_eq_true _ _).mp done
  obtain ⟨start, later⟩ := Bool.and_eq_true_iff.mp later
  obtain ⟨absent, slots, current⟩ := of_decide_eq_true start
  obtain ⟨k, ran, later⟩ := (Option.any_eq_true _ _).mp later
  obtain ⟨holds, switched⟩ := Bool.and_eq_true_iff.mp later
  obtain ⟨f, f₁, target, member⟩ := of_decide_eq_true holds
  obtain ⟨k', switched⟩ := Option.isSome_iff_exists.mp switched
  have run := Theory.run_of_follow_const fairStep_of_next ran
  have switched := ok_of_toOption switched
  obtain ⟨root, selects⟩ := kernel_wins absent slots (.inl current) run
  obtain ⟨_, chosen⟩ := selects f f₁ (.inr target) (.inl member)
  exact ⟨b, k, k', ok_of_toOption booted, run, root member, switched, chosen k' switched⟩

end BradypOS.Scheduler
