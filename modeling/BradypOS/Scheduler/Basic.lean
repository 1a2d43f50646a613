import BradypOS.Kernel.Machine

/-!
# What the scheduler's operations do to the heap

Each operation adds one thread, takes one out or only reorders, and leaves the rest of the kernel
state alone.
-/

namespace BradypOS.Kernel

/-- The slots in the scheduler heap. -/
def ready (k : Kernel) : List Nat := k.schedule.toList

/-! ### Fields that an operation leaves alone -/

section Frame

variable (k : Kernel) (t u : Nat) (st : ThreadState)

theorem moveSchedule_frame : ∃ schedule trace, k.moveSchedule t st = { k with schedule, trace } := by
  unfold moveSchedule scheduleRemove
  split
  · exact ⟨_, _, rfl⟩
  · split
    · split
      · exact ⟨_, _, rfl⟩
      · exact ⟨_, _, rfl⟩
    · exact ⟨_, _, rfl⟩

/-- `set_thread_state` writes the state of one thread, the heap and the record of what happened. -/
theorem setThreadState_frame : ∃ schedule trace, k.setThreadState t st =
    { k.setTcb t fun tcb => { tcb with state := st } with schedule, trace } := by
  obtain ⟨schedule, trace, h⟩ := k.moveSchedule_frame t st
  exact ⟨schedule, .stateSet t st :: trace, by unfold setThreadState; rw [h]; rfl⟩

@[simp] theorem setTcb_same (f : Tcb → Tcb) : (k.setTcb t f).tcbs t = f (k.tcbs t) := Function.update_self ..

theorem setTcb_other (f : Tcb → Tcb) (h : u ≠ t) : (k.setTcb t f).tcbs u = k.tcbs u := Function.update_of_ne h ..

@[simp] theorem setThreadState_tcbs : (k.setThreadState t st).tcbs =
    Function.update k.tcbs t { k.tcbs t with state := st } := by
  obtain ⟨_, _, h⟩ := k.setThreadState_frame t st
  rw [h]; rfl

@[simp] theorem setThreadState_schedule :
    (k.setThreadState t st).schedule = (k.moveSchedule t st).schedule := rfl

@[simp] theorem setThreadState_threadCount : (k.setThreadState t st).threadCount = k.threadCount := by
  obtain ⟨_, _, h⟩ := k.setThreadState_frame t st
  rw [h]; rfl

@[simp] theorem setThreadState_threadList : (k.setThreadState t st).threadList = k.threadList := by
  obtain ⟨_, _, h⟩ := k.setThreadState_frame t st
  rw [h]; rfl

@[simp] theorem setThreadState_allocated : (k.setThreadState t st).allocated = k.allocated := by
  obtain ⟨_, _, h⟩ := k.setThreadState_frame t st
  rw [h]; rfl

@[simp] theorem setThreadState_currentThreadIdx :
    (k.setThreadState t st).currentThreadIdx = k.currentThreadIdx := by
  obtain ⟨_, _, h⟩ := k.setThreadState_frame t st
  rw [h]; rfl

@[simp] theorem setThreadState_pendsv : (k.setThreadState t st).pendsv = k.pendsv := by
  obtain ⟨_, _, h⟩ := k.setThreadState_frame t st
  rw [h]; rfl

@[simp] theorem setThreadState_alarms : (k.setThreadState t st).alarms = k.alarms := by
  obtain ⟨_, _, h⟩ := k.setThreadState_frame t st
  rw [h]; rfl

@[simp] theorem setThreadState_caller : (k.setThreadState t st).caller = k.caller := by
  obtain ⟨_, _, h⟩ := k.setThreadState_frame t st
  rw [h]; rfl

@[simp] theorem setThreadState_softirqPending :
    (k.setThreadState t st).softirqPending = k.softirqPending := by
  obtain ⟨_, _, h⟩ := k.setThreadState_frame t st
  rw [h]; rfl

@[simp] theorem setThreadState_asPool : (k.setThreadState t st).asPool = k.asPool := by
  obtain ⟨_, _, h⟩ := k.setThreadState_frame t st
  rw [h]; rfl

@[simp] theorem setThreadState_asAllocated : (k.setThreadState t st).asAllocated = k.asAllocated := by
  obtain ⟨_, _, h⟩ := k.setThreadState_frame t st
  rw [h]; rfl

@[simp] theorem setThreadState_mem : (k.setThreadState t st).mem = k.mem := by
  obtain ⟨_, _, h⟩ := k.setThreadState_frame t st
  rw [h]; rfl

theorem state_setThreadState :
    (k.setThreadState t st).state u = if u = t then st else k.state u := by
  simp only [state, setThreadState_tcbs, Function.update_apply]
  split <;> simp_all

end Frame

/-! ### The heap as a list of slots -/

theorem findIdxInHeap_some {k : Kernel} {t i : Nat} (h : k.findIdxInHeap t = some i) :
    i < k.schedule.size ∧ k.schedule.data i = t := by
  have found := List.find?_some h
  have inside := List.mem_of_find?_eq_some h
  exact ⟨List.mem_range.mp inside, by simpa using found⟩

theorem findIdxInHeap_none {k : Kernel} {t : Nat} : k.findIdxInHeap t = none ↔ t ∉ k.ready := by
  simp only [findIdxInHeap, List.find?_eq_none, List.mem_range, decide_eq_true_eq, ready, Heap.mem_toList,
    not_exists, not_and]

theorem scheduleInsert_ready {k : Kernel} (room : k.schedule.size ≠ maxThreads) (t : Nat) :
    (k.scheduleInsert t).ready.Perm (t :: k.ready) := Heap.insert_perm _ room t

theorem scheduleInsert_mem {k : Kernel} {t u : Nat} (member : u ∈ (k.scheduleInsert t).ready) : u = t ∨ u ∈ k.ready := by
  by_cases full : k.schedule.size = maxThreads
  · have same : (k.scheduleInsert t).ready = k.ready := by
      simp [scheduleInsert, log, setSchedule, Heap.insert_full _ full, ready]
    exact .inr (same ▸ member)
  · exact List.mem_cons.mp ((scheduleInsert_ready full t).mem_iff.mp member)

theorem scheduleInsert_trace {k : Kernel} (room : k.schedule.size ≠ maxThreads) (t : Nat) :
    (k.scheduleInsert t).trace = .inserted t true :: k.trace := by
  simp [scheduleInsert, log, setSchedule, Heap.insert, room]

theorem scheduleDelete_ready {k : Kernel} {t i : Nat} (h : k.findIdxInHeap t = some i) :
    (t :: (k.scheduleDelete i).ready).Perm k.ready := by
  obtain ⟨inside, rfl⟩ := findIdxInHeap_some h
  exact Heap.delete_perm _ _ inside

theorem schedulePop_ready {k : Kernel} (nonempty : k.schedule.size ≠ 0) :
    (k.schedule.data 0 :: k.schedulePop.ready).Perm k.ready :=
  Heap.pop_perm _ _ (Nat.pos_of_ne_zero nonempty)

theorem scheduleRemove_ready {k : Kernel} (nodup : k.ready.Nodup) (t u : Nat) :
    u ∈ (k.scheduleRemove t).ready ↔ u ∈ k.ready ∧ u ≠ t := by
  unfold scheduleRemove
  split
  · rename_i i found
    have perm := scheduleDelete_ready found
    have distinct : (t :: (k.scheduleDelete i).ready).Nodup := perm.nodup_iff.mpr nodup
    have fresh := (List.nodup_cons.mp distinct).1
    rw [← perm.mem_iff, List.mem_cons]
    constructor
    · intro member
      exact ⟨.inr member, fun same => fresh (same ▸ member)⟩
    · rintro ⟨same | member, other⟩
      · exact absurd same other
      · exact member
  · rename_i missing
    have absent := findIdxInHeap_none.mp missing
    exact ⟨fun member => ⟨member, fun same => absent (same ▸ member)⟩, fun h => h.1⟩

theorem scheduleRemove_sub (k : Kernel) (t : Nat) : ∀ u ∈ (k.scheduleRemove t).ready, u ∈ k.ready := by
  intro u member
  unfold Kernel.scheduleRemove at member
  split at member
  · rename_i found
    exact (scheduleDelete_ready found).mem_iff.mp (List.mem_cons_of_mem _ member)
  · exact member

theorem setThreadState_ready {k : Kernel} {t u : Nat} {st : ThreadState} (member : u ∈ (k.setThreadState t st).ready) :
    u ∈ k.ready ∨ u = t ∧ st = .runnable := by
  have moved : u ∈ (k.moveSchedule t st).ready := member
  unfold moveSchedule at moved
  split at moved
  · rename_i wakes
    rcases scheduleInsert_mem moved with here | before
    · exact .inr ⟨here, wakes.1⟩
    · exact .inl before
  · split at moved
    · exact .inl (k.scheduleRemove_sub t u moved)
    · exact .inl moved

theorem scheduleRemove_nodup {k : Kernel} (nodup : k.ready.Nodup) (t : Nat) :
    (k.scheduleRemove t).ready.Nodup := by
  unfold scheduleRemove
  split
  · rename_i i found
    exact (List.nodup_cons.mp ((scheduleDelete_ready found).nodup_iff.mpr nodup)).2
  · exact nodup

theorem setThreadPriority_spec (k : Kernel) (t : Nat) (prio : Word) : ∃ schedule,
    k.setThreadPriority t prio = (k.setTcb t fun tcb => { tcb with priority := prio }).setSchedule schedule ∧
      schedule.toList.Perm k.ready := by
  unfold setThreadPriority
  dsimp only
  split
  · exact ⟨k.schedule, rfl, List.Perm.refl _⟩
  · rename_i heapIdx found
    obtain ⟨inside, _⟩ := findIdxInHeap_some found
    exact ⟨_, rfl, Heap.sink_swim_perm _ k.schedule inside⟩

theorem room_of_nodup {k : Kernel} {t : Nat} (nodup : k.ready.Nodup) (slots : ∀ u ∈ k.ready, u < maxThreads)
    (fresh : t ∉ k.ready) (slot : t < maxThreads) : k.schedule.size ≠ maxThreads := by
  have distinct : (t :: k.ready).Nodup := List.nodup_cons.mpr ⟨fresh, nodup⟩
  have within : (t :: k.ready) ⊆ List.range maxThreads := by
    intro u member
    rcases List.mem_cons.mp member with rfl | member
    · exact List.mem_range.mpr slot
    · exact List.mem_range.mpr (slots u member)
  have length := (distinct.subperm within).length_le
  simp only [List.length_cons, List.length_range, ready, Heap.length_toList] at length
  omega

theorem selectThread_spec {k k' : Kernel} {idx : Nat} (h : k.selectThread = .ok (idx, k')) :
    (idx :: k'.ready).Perm k.ready ∧ ∃ schedule, k' = k.setSchedule schedule := by
  have least : ∀ {idx : Nat} {k' : Kernel}, k.findThreadIdxToSchedule = .ok (idx, k') →
      (idx :: k'.ready).Perm k.ready ∧ ∃ schedule, k' = k.setSchedule schedule := by
    intro idx k' h
    unfold findThreadIdxToSchedule at h
    obtain ⟨_, checked, h⟩ := bind_ok h
    cases h
    exact ⟨schedulePop_ready (of_decide_eq_true (kassert_ok checked)), _, rfl⟩
  unfold selectThread at h
  split at h
  · unfold findThreadIdxToScheduleFromTarget at h
    split at h
    · rename_i found
      obtain ⟨_, _, h⟩ := bind_ok h
      cases h
      exact ⟨scheduleDelete_ready found, _, rfl⟩
    · exact least h
  · exact least h

theorem scheduleNextThread_spec {k k' : Kernel} (h : k.scheduleNextThread = .ok k') :
    ∃ idx k₁ alarms, k.requeueCurrent.selectThread = .ok (idx, k₁) ∧
      k₁.alarms.updateKalarmEvent .reschedule (k₁.alarms.currentTime + 10#32) = .ok alarms ∧
      k' = ((k₁.setAlarms alarms).setCurrent idx).log (.selected idx) := by
  unfold scheduleNextThread at h
  obtain ⟨⟨idx, k₁⟩, selected, h⟩ := bind_ok h
  obtain ⟨alarms, updated, h⟩ := bind_ok h
  cases h
  exact ⟨idx, k₁, alarms, selected, updated, rfl⟩

theorem saveContext_frame (k : Kernel) :
    ∃ tcbs, k.saveContext = k.setTcbs tcbs ∧ ∀ u, ∃ ctx, tcbs u = { k.tcbs u with ctx } := by
  unfold saveContext
  split
  · exact ⟨k.tcbs, rfl, fun u => ⟨_, rfl⟩⟩
  · rename_i t _
    refine ⟨_, rfl, fun u => ?_⟩
    by_cases same : u = t
    · subst same; exact ⟨k.cpu, by rw [Function.update_self]⟩
    · exact ⟨_, by rw [Function.update_of_ne same]⟩

theorem registerKevent_frame {k k' : Kernel} {t : Nat} (h : k.registerKevent t = .ok k') :
    ∃ alarms, k' = (k.setAlarms alarms).log (.registered k.alarms (.kevent t)) := by
  unfold registerKevent at h
  obtain ⟨alarms, _, h⟩ := bind_ok h
  cases h
  exact ⟨alarms, rfl⟩

theorem pauseThread_frame {k k' : Kernel} {t : Nat} {untilTime : Word} (h : k.pauseThread t untilTime = .ok k') :
    ∃ alarms queue, k' = (((k.log (.pausing t)).setAlarms alarms).log (.registered queue (.kevent t))).setThreadState t .paused := by
  unfold pauseThread at h
  obtain ⟨_, _, h⟩ := bind_ok h
  obtain ⟨k₁, registered, h⟩ := bind_ok h
  cases h
  obtain ⟨alarms, rfl⟩ := registerKevent_frame registered
  exact ⟨alarms, _, rfl⟩

/-- `THREAD_SWITCH` pauses every caller but the kernel thread. -/
theorem threadSwitch_cases {k k' : Kernel} {current : Nat} {dest : Word} (h : k.threadSwitch current dest = .ok k') :
    ∃ k₁ target, (k₁ = k ∨ ∃ untilTime, k.pauseThread current untilTime = .ok k₁) ∧ k' = k₁.requestReschedule target := by
  unfold threadSwitch at h
  obtain ⟨k₁, paused, h⟩ := bind_ok h
  cases h
  refine ⟨k₁, _, ?_, rfl⟩
  split at paused
  · exact .inr ⟨_, paused⟩
  · cases paused
    exact .inl rfl

theorem switchContext_spec {k k' : Kernel} (h : k.switchContext = .ok k') :
    ∃ k₁, (k.setPendsv false).saveContext.scheduleNextThread = .ok k₁ ∧
      k' = k₁.setCpu (k₁.tcbs k₁.currentThreadIdx).ctx := by
  unfold switchContext at h
  obtain ⟨k₁, switched, h⟩ := bind_ok h
  cases h
  exact ⟨k₁, switched, rfl⟩

/-! ### Creation and deletion -/

/-- Two thread stores that differ in sibling links alone. -/
def Relinked (tcbs tcbs' : Nat → Tcb) : Prop :=
  ∀ u, ∃ nextSibling prevSibling, tcbs' u = { tcbs u with nextSibling, prevSibling }

theorem Relinked.update {tcbs tcbs' : Nat → Tcb} (links : Relinked tcbs tcbs') (t : Nat) {f : Tcb → Tcb}
    (linked : ∀ tcb, ∃ nextSibling prevSibling, f tcb = { tcb with nextSibling, prevSibling }) :
    Relinked tcbs (Function.update tcbs' t (f (tcbs' t))) := by
  intro u
  obtain ⟨n, p, h⟩ := links u
  by_cases same : u = t
  · subst same
    obtain ⟨n', p', h'⟩ := linked (tcbs' u)
    exact ⟨n', p', by rw [Function.update_self, h', h]⟩
  · exact ⟨n, p, by rw [Function.update_of_ne same]; exact h⟩

theorem unlinkSiblings_frame (k : Kernel) (t : Nat) :
    ∃ tcbs, k.unlinkSiblings t = k.setTcbs tcbs ∧ Relinked k.tcbs tcbs := by
  have start : Relinked k.tcbs k.tcbs := fun u => ⟨_, _, rfl⟩
  unfold unlinkSiblings
  dsimp only
  split <;> split
  · exact ⟨k.tcbs, rfl, start⟩
  · exact ⟨_, rfl, start.update _ fun tcb => ⟨_, _, rfl⟩⟩
  · exact ⟨_, rfl, start.update _ fun tcb => ⟨_, _, rfl⟩⟩
  · exact ⟨_, rfl, (start.update _ fun tcb => ⟨_, _, rfl⟩).update _ fun tcb => ⟨_, _, rfl⟩⟩

theorem threadListDelete_spec {k k' : Kernel} {globalId : Word} (h : k.threadListDelete globalId = .ok k') :
    0 < k.threadCount ∧ ∃ list, k' = k.setTable (k.threadCount - 1) list := by
  unfold threadListDelete at h
  obtain ⟨_, positive, h⟩ := bind_ok h
  cases h
  exact ⟨of_decide_eq_true (kassert_ok positive), _, rfl⟩

theorem threadListInsert_spec {k k' : Kernel} {tcbIdx : Nat} {globalId : Word}
    (h : k.threadListInsert tcbIdx globalId = .ok k') : ∃ list, k' = k.setTable (k.threadCount + 1) list := by
  unfold threadListInsert at h
  obtain ⟨_, _, h⟩ := bind_ok h
  cases h
  exact ⟨_, rfl⟩

theorem unschedule_frame (k : Kernel) (t : Nat) : ∃ schedule, k.unschedule t = k.setSchedule schedule := by
  unfold unschedule scheduleRemove
  split
  · split
    · exact ⟨_, rfl⟩
    · exact ⟨k.schedule, rfl⟩
  · exact ⟨k.schedule, rfl⟩

theorem deleteThread_spec {k k' : Kernel} {t : Nat} (h : k.deleteThread t = .ok k') :
    ∃ list, k' =
      ((((k.unschedule t).setTable (k.threadCount - 1) list).unlinkSiblings t).freeTcb t).log (.deleted t) := by
  unfold deleteThread at h
  obtain ⟨k₁, removed, h⟩ := bind_ok h
  obtain ⟨_, list, rfl⟩ := threadListDelete_spec removed
  cases h
  obtain ⟨_, same⟩ := k.unschedule_frame t
  exact ⟨list, by rw [same]; rfl⟩

/-- What `delete_thread` leaves: the slot is free, and sibling links are all that changed in a TCB. -/
structure ThreadGone (k : Kernel) (t : Nat) (k' : Kernel) : Prop where
  tcbs : Relinked k.tcbs k'.tcbs
  allocated : k'.allocated = Function.update k.allocated t false
  caller : k'.caller = k.caller
  mem : k'.mem = k.mem
  alarms : k'.alarms = k.alarms
  currentThreadIdx : k'.currentThreadIdx = k.currentThreadIdx
  softirqPending : k'.softirqPending = k.softirqPending
  pendsv : k'.pendsv = k.pendsv
  schedule : k'.schedule = (k.unschedule t).schedule
  trace : k'.trace = .deleted t :: k.trace

theorem deleteThread_gone {k k' : Kernel} {t : Nat} (h : k.deleteThread t = .ok k') : ThreadGone k t k' := by
  obtain ⟨list, rfl⟩ := deleteThread_spec h
  obtain ⟨schedule, unscheduled⟩ := k.unschedule_frame t
  obtain ⟨tcbs, unlinked, links⟩ := ((k.unschedule t).setTable (k.threadCount - 1) list).unlinkSiblings_frame t
  rw [unlinked]
  rw [unscheduled] at links ⊢
  exact ⟨links, rfl, rfl, rfl, rfl, rfl, rfl, rfl, by rw [unscheduled]; rfl, rfl⟩

theorem createThread_spec {k k' : Kernel} {globalId : Word} {tcb : Option Nat}
    (h : k.createThread globalId = .ok (tcb, k')) :
    (tcb = none ∧ k' = k) ∨ ∃ t list, tcb = some t ∧ k.allocateTcb = some t ∧ k.threadCount ≠ maxThreads ∧
      k' = (((k.takeTcb t).setTcb t (freshTcb globalId)).setTable (k.threadCount + 1) list).log (.created t) := by
  unfold createThread at h
  obtain ⟨_, _, h⟩ := bind_ok h
  split at h
  · cases h; exact .inl ⟨rfl, rfl⟩
  · rename_i room
    split at h
    · cases h; exact .inl ⟨rfl, rfl⟩
    · rename_i t free
      obtain ⟨k₁, inserted, h⟩ := bind_ok h
      obtain ⟨list, rfl⟩ := threadListInsert_spec inserted
      cases h
      exact .inr ⟨t, list, rfl, free, room, rfl⟩

theorem allocateTcb_spec {k : Kernel} {t : Nat} (h : k.allocateTcb = some t) :
    t < maxThreads ∧ k.allocated t = false := by
  have inside := List.mem_of_find?_eq_some h
  have free := List.find?_some h
  exact ⟨List.mem_range.mp inside, by simpa using free⟩

end BradypOS.Kernel
