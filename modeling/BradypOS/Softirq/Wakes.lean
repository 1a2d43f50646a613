import BradypOS.Softirq.Machine
import BradypOS.Scheduler.Wins

/-!
# How the kernel thread gets the processor

A trap makes the kernel thread runnable and puts it at the root of the heap. The context switch that
follows chooses it, whoever is asked for, as long as that is no other thread in the heap.
-/

namespace BradypOS.Softirq

open L4 Kernel Scheduler

variable {k k' : Kernel}

/-- Nobody else is asked for who could be chosen. -/
def SparesTarget (k : Kernel) : Prop := ∀ t, k.scheduleTarget = some t → t = kernTcb ∨ t ∉ k.ready

theorem selects_of_root (member : kernTcb ∈ k.ready) (root : Heap.AtRoot kernTcb k.schedule) (runs : k.state kernTcb = .runnable)
    (spares : SparesTarget k) : ∃ k₁, k.selectThread = .ok (kernTcb, k₁) := by
  obtain ⟨i, inside, here⟩ := Heap.mem_toList.mp member
  have nonempty : k.schedule.size ≠ 0 := by omega
  have least : k.findThreadIdxToSchedule = .ok (kernTcb, k.schedulePop) := by
    unfold findThreadIdxToSchedule
    rw [root member]
    simp [kassert, nonempty]
    rfl
  unfold selectThread
  cases target : k.scheduleTarget with
  | none => exact ⟨_, least⟩
  | some t =>
    dsimp only
    unfold findThreadIdxToScheduleFromTarget
    split
    · rename_i j found
      have asked : t ∈ k.ready := by
        obtain ⟨below, same⟩ := findIdxInHeap_some found
        exact Heap.mem_toList.mpr ⟨j, below, same⟩
      have kernel : t = kernTcb := (spares t target).resolve_right fun absent => absent asked
      subst kernel
      exact ⟨k.scheduleDelete j, by simp [kassert, runs]; rfl⟩
    · exact ⟨_, least⟩

/-! ### The trap -/

theorem setThreadState_fewer (distinct : k.ready.Nodup) (t : Nat) {st : ThreadState} (stops : st ≠ .runnable) :
    (k.setThreadState t st).ready.Nodup ∧ ∀ u ∈ (k.setThreadState t st).ready, u ∈ k.ready := by
  refine ⟨?_, fun u member => (setThreadState_ready member).resolve_right fun wakes => stops wakes.2⟩
  have same : (k.setThreadState t st).ready = (k.moveSchedule t st).ready := rfl
  rw [same]
  unfold moveSchedule
  rw [if_neg fun wakes => stops wakes.1]
  split
  · exact scheduleRemove_nodup distinct t
  · exact distinct

theorem setThreadState_priority (k : Kernel) (t : Nat) (st : ThreadState) (u : Nat) :
    ((k.setThreadState t st).tcbs u).priority = (k.tcbs u).priority := by
  rw [setThreadState_tcbs, Function.update_apply]
  split
  · rename_i here
    rw [here]
  · rfl

theorem insertKernel (f : Fair k) (slots : ∀ t ∈ k.ready, t < maxThreads) (away : kernTcb ∉ k.ready) :
    (k.scheduleInsert kernTcb).ready.Perm (kernTcb :: k.ready) ∧ Heap.AtRoot kernTcb (k.scheduleInsert kernTcb).schedule := by
  have room := room_of_nodup f.distinct slots away (by decide)
  refine ⟨scheduleInsert_ready room kernTcb, ?_⟩
  exact scheduleInsert_root f (fun member => absurd member away) fun _ => away

structure Woken (k : Kernel) (t : Nat) (k' : Kernel) : Prop where
  caller : k'.caller = t
  pending : k'.softirqPending = true
  pendsv : k'.pendsv = true
  current : k'.currentThreadIdx = k.currentThreadIdx
  allocated : k'.allocated = k.allocated
  globalId : (k'.tcbs kernTcb).globalId = (k.tcbs kernTcb).globalId
  blocked : k'.state t = .svcBlocked
  runs : k'.state kernTcb = .runnable
  ready : kernTcb ∈ k'.ready
  root : Heap.AtRoot kernTcb k'.schedule
  target : k'.scheduleTarget = some kernTcb

theorem deferSyscall_woken {t : Nat} (f : Fair k) (slots : ∀ u ∈ k.ready, u < maxThreads) (user : t ≠ kernTcb)
    (idle : k.state kernTcb ≠ .runnable) (away : kernTcb ∉ k.ready) : Woken k t (k.deferSyscall t) := by
  have stops : ThreadState.svcBlocked ≠ .runnable := by decide
  obtain ⟨distinct, fewer⟩ := setThreadState_fewer (k := k.setCaller t) f.distinct t stops
  generalize blocked : ((k.setCaller t).setThreadState t .svcBlocked).setPending true = k₁
  have ready : k₁.ready = ((k.setCaller t).setThreadState t .svcBlocked).ready := by rw [← blocked]; rfl
  have priority : ∀ u, (k₁.tcbs u).priority = (k.tcbs u).priority := by
    intro u
    rw [← blocked]
    exact setThreadState_priority (k.setCaller t) t .svcBlocked u
  have state : ∀ u, k₁.state u = if u = t then .svcBlocked else k.state u := by
    intro u
    rw [← blocked]
    exact state_setThreadState (k.setCaller t) t u .svcBlocked
  have kernel : k₁.state kernTcb ≠ .runnable := by
    rw [state, if_neg (Ne.symm user)]
    exact idle
  have fair : Fair k₁ := by
    refine ⟨ready ▸ distinct, ?_, fun u member other => ?_⟩
    · rw [priority]
      exact f.kernel
    · rw [priority]
      exact f.others u (fewer u (ready ▸ member)) other
  obtain ⟨inserted, root⟩ := insertKernel fair (fun u member => slots u (fewer u (ready ▸ member)))
    fun member => away (fewer _ (ready ▸ member))
  have moved : (k₁.setThreadState kernTcb .runnable).schedule = (k₁.scheduleInsert kernTcb).schedule := by
    rw [setThreadState_schedule, moveSchedule, if_pos ⟨rfl, kernel⟩]
  have deferred : k.deferSyscall t = (k₁.setThreadState kernTcb .runnable).requestReschedule (some kernTcb) := by
    rw [← blocked]
    rfl
  rw [deferred]
  refine ⟨?_, ?_, rfl, ?_, ?_, ?_, ?_, ?_, ?_, ?_, rfl⟩
  · show (k₁.setThreadState kernTcb .runnable).caller = t
    rw [setThreadState_caller, ← blocked]
    exact setThreadState_caller (k.setCaller t) t .svcBlocked
  · show (k₁.setThreadState kernTcb .runnable).softirqPending = true
    rw [setThreadState_softirqPending, ← blocked]
    rfl
  · show (k₁.setThreadState kernTcb .runnable).currentThreadIdx = _
    rw [setThreadState_currentThreadIdx, ← blocked]
    exact setThreadState_currentThreadIdx (k.setCaller t) t .svcBlocked
  · show (k₁.setThreadState kernTcb .runnable).allocated = _
    rw [setThreadState_allocated, ← blocked]
    exact setThreadState_allocated (k.setCaller t) t .svcBlocked
  · show ((k₁.setThreadState kernTcb .runnable).tcbs kernTcb).globalId = _
    rw [setThreadState_tcbs, Function.update_self, ← blocked]
    show (((k.setCaller t).setThreadState t .svcBlocked).tcbs kernTcb).globalId = _
    rw [setThreadState_tcbs, Function.update_of_ne (Ne.symm user)]
    rfl
  · show (k₁.setThreadState kernTcb .runnable).state t = _
    rw [state_setThreadState, if_neg user, state, if_pos rfl]
  · show (k₁.setThreadState kernTcb .runnable).state kernTcb = _
    rw [state_setThreadState, if_pos rfl]
  · have same : ((k₁.setThreadState kernTcb .runnable).requestReschedule (some kernTcb)).ready = (k₁.scheduleInsert kernTcb).ready :=
      congrArg Heap.toList moved
    rw [same]
    exact inserted.mem_iff.mpr List.mem_cons_self
  · show Heap.AtRoot kernTcb (k₁.setThreadState kernTcb .runnable).schedule
    rw [moved]
    exact root

/-! ### The tick -/

/-- A tick may ask for another thread. -/
structure Ticked (k k' : Kernel) : Prop where
  tcbs : k'.tcbs = k.tcbs
  allocated : k'.allocated = k.allocated
  schedule : k'.schedule = k.schedule
  current : k'.currentThreadIdx = k.currentThreadIdx
  caller : k'.caller = k.caller
  pending : k'.softirqPending = k.softirqPending
  asks : k'.pendsv = k.pendsv ∧ k'.scheduleTarget = k.scheduleTarget ∨ k'.pendsv = true ∧ k'.scheduleTarget = none

theorem isrSystick_ticked (tick : RescheduleTick k) (h : k.isrSystick = .ok k') : Ticked k k' := by
  refine (isrSystick_rule (P := Ticked k) ?_ ⟨rfl, rfl, rfl, rfl, rfl, rfl, .inl ⟨rfl, rfl⟩⟩ h).1
  intro k₁ ev k₂ ticked popped due _ handled
  have type : (k₁.alarms.event ev).type = .reschedule := (popped.type ev).trans (tick ev due)
  unfold kalarmEventFunc at handled
  rw [type] at handled
  cases handled
  exact ⟨ticked.tcbs, ticked.allocated, ticked.schedule, ticked.current, ticked.caller, ticked.pending, .inr ⟨rfl, rfl⟩⟩

/-! ### The context switch -/

/-- The kernel with the context of the current thread saved. -/
structure Saved (k k' : Kernel) : Prop where
  schedule : k'.schedule = k.schedule
  target : k'.scheduleTarget = k.scheduleTarget
  current : k'.currentThreadIdx = k.currentThreadIdx
  tcbs : ∀ u, ∃ ctx, k'.tcbs u = { k.tcbs u with ctx }

/-- What a context switch leaves, with the thread it chose. -/
structure Switched (k : Kernel) (idx : Nat) (k' : Kernel) : Prop where
  current : k'.currentThreadIdx = idx
  pendsv : k'.pendsv = false
  tcbs : ∀ u, ∃ ctx, k'.tcbs u = { k.tcbs u with ctx }
  allocated : k'.allocated = k.allocated
  caller : k'.caller = k.caller
  pending : k'.softirqPending = k.softirqPending
  /-- The current thread goes back into the heap if it can, and the chosen one leaves it. -/
  ready : ∃ k₀ k₁ : Kernel, Saved k k₀ ∧ k₀.requeueCurrent.selectThread = .ok (idx, k₁) ∧ k'.ready = k₁.ready

theorem switchContext_switched (h : k.switchContext = .ok k') : ∃ idx, Switched k idx k' := by
  obtain ⟨k₁, switched, rfl⟩ := switchContext_spec h
  obtain ⟨tcbs, saved, kept⟩ := (k.setPendsv false).saveContext_frame
  rw [saved] at switched
  obtain ⟨idx, k₂, alarms, selected, _, rfl⟩ := scheduleNextThread_spec switched
  obtain ⟨_, schedule, same⟩ := selectThread_spec selected
  have requeued : ∃ s t, ((k.setPendsv false).setTcbs tcbs).requeueCurrent =
      { (k.setPendsv false).setTcbs tcbs with schedule := s, trace := t } := by
    unfold requeueCurrent
    split
    · exact ⟨_, _, rfl⟩
    · exact ⟨_, _, rfl⟩
  obtain ⟨s, t, requeued⟩ := requeued
  refine ⟨idx, rfl, ?_, fun u => ?_, ?_, ?_, ?_, (k.setPendsv false).setTcbs tcbs, k₂,
    ⟨rfl, rfl, rfl, kept⟩, selected, rfl⟩
  · rw [same, requeued]; rfl
  · rw [same, requeued]; exact kept u
  · rw [same, requeued]; rfl
  · rw [same, requeued]; rfl
  · rw [same, requeued]; rfl

namespace Saved

theorem ready (h : Saved k k') : k'.ready = k.ready := congrArg Heap.toList h.schedule

theorem state (h : Saved k k') (t : Nat) : k'.state t = k.state t := by
  obtain ⟨_, same⟩ := h.tcbs t
  unfold Kernel.state
  rw [same]

theorem fair (h : Saved k k') (f : Fair k) : Fair k' := by
  have priority : ∀ u, (k'.tcbs u).priority = (k.tcbs u).priority := by
    intro u
    obtain ⟨_, same⟩ := h.tcbs u
    rw [same]
  refine ⟨h.ready ▸ f.distinct, (priority _).trans f.kernel, fun t member other => ?_⟩
  rw [priority]
  exact f.others t (h.ready ▸ member) other

end Saved

theorem Switched.state {idx : Nat} (h : Switched k idx k') (t : Nat) : k'.state t = k.state t := by
  obtain ⟨_, same⟩ := h.tcbs t
  unfold Kernel.state
  rw [same]

/-- While it is not runnable and not in the heap, the kernel thread is not chosen. -/
theorem Switched.leaves {idx : Nat} (h : Switched k idx k') (away : kernTcb ∉ k.ready) (idle : k.state kernTcb ≠ .runnable) :
    idx ≠ kernTcb ∧ kernTcb ∉ k'.ready := by
  obtain ⟨k₀, k₁, saved, selected, ready⟩ := h.ready
  obtain ⟨perm, _⟩ := selectThread_spec selected
  have absent : kernTcb ∉ k₀.requeueCurrent.ready := by
    intro member
    unfold requeueCurrent at member
    split at member
    · rename_i runs
      rcases scheduleInsert_mem member with here | before
      · rw [← here, saved.state] at runs
        exact idle runs.2
      · exact away (saved.ready ▸ before)
    · exact away (saved.ready ▸ member)
  constructor
  · rintro rfl
    exact absent (perm.mem_iff.mp List.mem_cons_self)
  · intro member
    rw [ready] at member
    exact absent (perm.mem_iff.mp (List.mem_cons_of_mem _ member))

theorem Switched.keeps {idx : Nat} (h : Switched k idx k') (f : Fair k) (slots : ∀ t ∈ k.ready, t < maxThreads)
    (current : k.currentThreadIdx = kernTcb) (runs : k.state kernTcb = .runnable) (away : kernTcb ∉ k.ready)
    (spares : SparesTarget k) : idx = kernTcb ∧ kernTcb ∉ k'.ready := by
  obtain ⟨k₀, k₁, saved, selected, ready⟩ := h.ready
  have requeued : k₀.requeueCurrent = k₀.scheduleInsert kernTcb := by
    unfold requeueCurrent
    rw [saved.current, current, if_pos ⟨by decide, (saved.state _).trans runs⟩]
  rw [requeued] at selected
  have away₀ : kernTcb ∉ k₀.ready := saved.ready ▸ away
  obtain ⟨inserted, root⟩ := insertKernel (saved.fair f) (saved.ready ▸ slots) away₀
  have asks : SparesTarget (k₀.scheduleInsert kernTcb) := by
    intro t asked
    rcases spares t (saved.target ▸ asked) with kernel | absent
    · exact .inl kernel
    · by_cases kernel : t = kernTcb
      · exact .inl kernel
      · refine .inr fun member => ?_
        rcases scheduleInsert_mem member with here | before
        · exact kernel here
        · exact absent (saved.ready ▸ before)
  obtain ⟨k₂, chosen⟩ := selects_of_root (inserted.mem_iff.mpr List.mem_cons_self) root ((saved.state _).trans runs) asks
  rw [chosen] at selected
  cases selected
  obtain ⟨perm, _⟩ := selectThread_spec chosen
  refine ⟨rfl, fun member => away₀ ?_⟩
  rw [ready] at member
  exact (List.Perm.cons_inv (perm.trans inserted)).mem_iff.mp member

theorem Switched.wakes {idx : Nat} (h : Switched k idx k') (f : Fair k) (blocked : k.state k.currentThreadIdx ≠ .runnable)
    (runs : k.state kernTcb = .runnable) (member : kernTcb ∈ k.ready) (root : Heap.AtRoot kernTcb k.schedule)
    (spares : SparesTarget k) : idx = kernTcb ∧ kernTcb ∉ k'.ready := by
  obtain ⟨k₀, k₁, saved, selected, ready⟩ := h.ready
  have stays : k₀.requeueCurrent = k₀ := by
    unfold requeueCurrent
    rw [saved.current, if_neg fun inserts => blocked ((saved.state _).symm.trans inserts.2)]
  rw [stays] at selected
  have asks : SparesTarget k₀ := by
    intro t asked
    rw [saved.ready]
    exact spares t (saved.target ▸ asked)
  have top : Heap.AtRoot kernTcb k₀.schedule := by
    rw [saved.schedule]
    exact root
  obtain ⟨k₂, chosen⟩ := selects_of_root (saved.ready ▸ member) top ((saved.state _).trans runs) asks
  rw [chosen] at selected
  cases selected
  obtain ⟨perm, _⟩ := selectThread_spec chosen
  have distinct : (kernTcb :: k₁.ready).Nodup := perm.nodup_iff.mpr (saved.fair f).distinct
  refine ⟨rfl, ?_⟩
  rw [ready]
  exact (List.nodup_cons.mp distinct).1

end BradypOS.Softirq
