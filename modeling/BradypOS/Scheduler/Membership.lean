import BradypOS.Alarm.Systick
import BradypOS.Thread.Boot
import BradypOS.Thread.Table

/-!
# Which threads are in the scheduler heap

The steps are those of the scheduler: a trap, a tick, a context switch, and a `set_thread_state` by
the running kernel thread. `Consistent` says that the heap holds every runnable thread but the
current one, once. A tick that wakes the current thread between its trap and the context switch breaks it.
-/

namespace BradypOS

def Event.isOverflow : Event → Bool
  | .inserted _ ok => !ok
  | _ => false

namespace Scheduler

open Kernel

inductive Action where
  /-- A trap of the current thread, with its registers and the memory it left. -/
  | svc (cpu : Context) (mem : Memory)
  | systick
  | pendsv
  /-- `set_thread_state` by the running kernel thread. -/
  | setState (t : Nat) (state : ThreadState)

/-- The idle thread never traps and the kernel thread only yields. -/
def Enabled (k : Kernel) : Action → Prop
  | .svc cpu _ =>
    k.currentThreadIdx ≠ invalidIdx ∧ k.currentThreadIdx ≠ idleTcb ∧ k.pendsv = false ∧
      (k.currentThreadIdx = kernTcb → L4.Syscall.ofWord cpu.r7 = some .threadSwitch)
  | .systick => True
  | .pendsv => k.pendsv = true
  | .setState t _ => k.InKernelThread ∧ t < maxThreads

def effect (k : Kernel) : Action → Fallible Kernel
  | .svc cpu mem => ((k.setCpu cpu).setMem mem).isrSvcall
  | .systick => k.isrSystick
  | .pendsv => k.switchContext
  | .setState t state => .ok (k.setThreadState t state)

def Step (k : Kernel) (a : Action) (k' : Kernel) : Prop := Enabled k a ∧ effect k a = .ok k'

/-- No event of a tick wakes the current thread unless it is runnable, and the kernel thread neither
makes itself runnable that way nor takes the idle thread out of `TS_RUNNABLE`. -/
def Spares (k : Kernel) : Action → Prop
  | .systick => ∀ ev, Alarms.Due k.ticked.alarms ev →
      k.wakes (k.alarms.event ev) = some k.currentThreadIdx → k.state k.currentThreadIdx = .runnable
  | .setState t state =>
    (t = k.currentThreadIdx → state = .runnable → k.state t = .runnable) ∧ (t = idleTcb → state = .runnable)
  | _ => True

/-- The heap holds the runnable threads other than the current one, each once. -/
structure Consistent (k : Kernel) : Prop where
  nodup : k.ready.Nodup
  slots : ∀ t ∈ k.ready, t < maxThreads
  member : ∀ t < maxThreads, t ≠ k.currentThreadIdx → (t ∈ k.ready ↔ k.state t = .runnable)
  current : k.currentThreadIdx ∉ k.ready
  currentSlot : k.currentThreadIdx < maxThreads ∨ k.currentThreadIdx = invalidIdx
  idle : k.state idleTcb = .runnable
  table : ∀ i ≤ k.threadCount, k.threadList i < maxThreads
  room : ∀ e ∈ k.trace, e.isOverflow = false

/-- The heap holds every runnable thread, the current one included. -/
structure Pooled (k : Kernel) : Prop where
  nodup : k.ready.Nodup
  slots : ∀ t ∈ k.ready, t < maxThreads
  member : ∀ t < maxThreads, t ∈ k.ready ↔ k.state t = .runnable
  idle : k.state idleTcb = .runnable
  table : ∀ i ≤ k.threadCount, k.threadList i < maxThreads
  room : ∀ e ∈ k.trace, e.isOverflow = false

variable {k k' : Kernel}

theorem Consistent.find_slot (c : Consistent k) {globalId : Word} {t : Nat}
    (h : k.findThreadByGlobalId globalId = some t) : t < maxThreads := by
  obtain ⟨i, hi, same, _⟩ := find_spec h
  exact same ▸ c.table i hi

/-! ### `set_thread_state` -/

theorem moveSchedule_ready (nodup : k.ready.Nodup) (slots : ∀ u ∈ k.ready, u < maxThreads) {t : Nat}
    (slot : t < maxThreads) (fresh : k.state t ≠ .runnable → t ∉ k.ready) (st : ThreadState) :
    (k.moveSchedule t st).ready.Nodup ∧
      (∀ u, u ∈ (k.moveSchedule t st).ready ↔
        if u = t then st = .runnable ∧ (t ∈ k.ready ∨ k.state t ≠ .runnable) else u ∈ k.ready) ∧
      ((∀ e ∈ k.trace, e.isOverflow = false) → ∀ e ∈ (k.moveSchedule t st).trace, e.isOverflow = false) := by
  unfold moveSchedule
  split
  · rename_i wakes
    have absent := fresh wakes.2
    have room := room_of_nodup nodup slots absent slot
    have perm := scheduleInsert_ready room t
    refine ⟨perm.nodup_iff.mpr (List.nodup_cons.mpr ⟨absent, nodup⟩), fun u => ?_, fun clean e member => ?_⟩
    · rw [perm.mem_iff, List.mem_cons]
      by_cases same : u = t
      · simp [same, wakes.1, wakes.2]
      · simp [same]
    · rw [scheduleInsert_trace room] at member
      rcases List.mem_cons.mp member with rfl | member
      · rfl
      · exact clean e member
  · rename_i stays
    split
    · rename_i sleeps
      refine ⟨scheduleRemove_nodup nodup t, fun u => ?_, fun clean e member => ?_⟩
      · rw [scheduleRemove_ready nodup]
        by_cases same : u = t
        · simp [same, sleeps.1]
        · simp [same]
      · apply clean e
        unfold scheduleRemove at member
        split at member <;> exact member
    · rename_i idle
      refine ⟨nodup, fun u => ?_, fun clean => clean⟩
      by_cases same : u = t
      · subst same
        by_cases run : k.state u = .runnable
        · have asked : st = .runnable := by_contra fun other => idle ⟨other, run⟩
          simp [run, asked]
        · have other : st ≠ .runnable := fun asked => stays ⟨asked, run⟩
          simp [other, fresh run]
      · simp [same]

theorem setThreadState_consistent (c : Consistent k) {t : Nat} (slot : t < maxThreads) {st : ThreadState}
    (spares : t = k.currentThreadIdx → st = .runnable → k.state t = .runnable)
    (idle : t = idleTcb → st = .runnable) : Consistent (k.setThreadState t st) := by
  have fresh : k.state t ≠ .runnable → t ∉ k.ready := by
    intro sleeps member
    by_cases running : t = k.currentThreadIdx
    · exact c.current (running ▸ member)
    · exact sleeps ((c.member t slot running).mp member)
  obtain ⟨nodup, member, clean⟩ := moveSchedule_ready c.nodup c.slots slot fresh st
  have heap : ∀ u, u ∈ (k.setThreadState t st).ready ↔ u ∈ (k.moveSchedule t st).ready := fun _ => Iff.rfl
  refine ⟨nodup, fun u hu => ?_, fun u hu other => ?_, ?_, ?_, ?_, ?_, fun e he => ?_⟩
  · rw [heap, member] at hu
    split at hu
    · rename_i same; exact same ▸ slot
    · exact c.slots u hu
  · rw [setThreadState_currentThreadIdx] at other
    rw [heap, member, state_setThreadState]
    split
    · rename_i same
      subst same
      have rest := c.member u slot other
      by_cases run : k.state u = .runnable <;> simp [run, rest]
    · exact c.member u hu other
  · rw [setThreadState_currentThreadIdx, heap, member]
    split
    · rename_i same
      rintro ⟨asked, inside | sleeps⟩
      · exact c.current (same ▸ inside)
      · exact sleeps (spares same.symm asked)
    · exact c.current
  · rw [setThreadState_currentThreadIdx]; exact c.currentSlot
  · rw [state_setThreadState]
    split
    · rename_i same; exact idle same.symm
    · exact c.idle
  · rw [setThreadState_threadCount, setThreadState_threadList]; exact c.table
  · rcases List.mem_cons.mp he with rfl | he
    · rfl
    · exact clean c.room e he

theorem Consistent.of_same (c : Consistent k) (schedule : k'.schedule = k.schedule)
    (current : k'.currentThreadIdx = k.currentThreadIdx) (state : ∀ t, k'.state t = k.state t)
    (threadCount : k'.threadCount = k.threadCount) (threadList : k'.threadList = k.threadList)
    (trace : ∀ e ∈ k'.trace, e ∈ k.trace ∨ e.isOverflow = false) : Consistent k' := by
  have ready : k'.ready = k.ready := congrArg Heap.toList schedule
  refine ⟨ready ▸ c.nodup, ready ▸ c.slots, ?_, ?_, ?_, ?_, ?_, fun e he => (trace e he).elim (c.room e) id⟩
  · intro t slot other
    rw [ready, state]
    exact c.member t slot (current ▸ other)
  · rw [ready, current]; exact c.current
  · rw [current]; exact c.currentSlot
  · rw [state]; exact c.idle
  · rw [threadCount, threadList]; exact c.table

theorem quiet_cons {e : Event} {trace : List Event} (quiet : e.isOverflow = false) :
    ∀ e' ∈ e :: trace, e' ∈ trace ∨ e'.isOverflow = false := by
  intro e' he
  rcases List.mem_cons.mp he with rfl | he
  · exact .inr quiet
  · exact .inl he

theorem Consistent.log (c : Consistent k) {e : Event} (quiet : e.isOverflow = false) : Consistent (k.log e) :=
  c.of_same rfl rfl (fun _ => rfl) rfl rfl (quiet_cons quiet)

/-! ### The timer tick -/

/-- What a tick keeps beside `Consistent`: the thread table and the current thread. -/
structure Steady (k₀ k : Kernel) : Prop where
  consistent : Consistent k
  table : SameTable k₀ k
  current : k.currentThreadIdx = k₀.currentThreadIdx
  currentState : k.state k₀.currentThreadIdx = k₀.state k₀.currentThreadIdx

theorem Steady.of_same {k₀ : Kernel} (s : Steady k₀ k) (schedule : k'.schedule = k.schedule)
    (current : k'.currentThreadIdx = k.currentThreadIdx) (tcbs : k'.tcbs = k.tcbs)
    (threadCount : k'.threadCount = k.threadCount) (threadList : k'.threadList = k.threadList)
    (trace : ∀ e ∈ k'.trace, e ∈ k.trace ∨ e.isOverflow = false) : Steady k₀ k' :=
  have state : ∀ t, k'.state t = k.state t := fun t => by unfold Kernel.state; rw [tcbs]
  ⟨s.consistent.of_same schedule current state threadCount threadList trace,
    s.table.trans ⟨threadCount, threadList, fun t => by rw [tcbs]⟩, current.trans s.current,
    (state _).trans s.currentState⟩

theorem Steady.log {k₀ : Kernel} (s : Steady k₀ k) {e : Event} (quiet : e.isOverflow = false) :
    Steady k₀ (k.log e) :=
  s.of_same rfl rfl rfl rfl rfl (quiet_cons quiet)

theorem Steady.wake {k₀ : Kernel} (s : Steady k₀ k) {t : Nat} (slot : t < maxThreads)
    (spares : t = k₀.currentThreadIdx → k₀.state k₀.currentThreadIdx = .runnable) :
    Steady k₀ (k.setThreadState t .runnable) where
  consistent := setThreadState_consistent s.consistent slot
    (fun same _ => by rw [same, s.current, s.currentState]; exact spares (same.trans s.current)) fun _ => rfl
  table := s.table.trans (.setThreadState k t .runnable)
  current := (k.setThreadState_currentThreadIdx t .runnable).trans s.current
  currentState := by
    rw [state_setThreadState]
    split
    · rename_i same; exact (spares same.symm).symm
    · exact s.currentState

theorem isrSystick_consistent (c : Consistent k) (spares : Spares k .systick) (h : k.isrSystick = .ok k') :
    Consistent k' := by
  have start : Steady k k.ticked :=
    ⟨c.of_same rfl rfl (fun _ => rfl) rfl rfl fun _ => .inl, ⟨rfl, rfl, fun _ => rfl⟩, rfl, rfl⟩
  refine (isrSystick_rule (P := Steady k) ?_ start h).1.consistent
  intro k₁ ev k₂ s left due _ handled
  have base : Steady k (k₁.popped ev) :=
    s.of_same rfl rfl rfl rfl rfl (quiet_cons rfl)
  -- The event that fires was due in the queue the tick found, with the same data.
  have type : (k₁.alarms.event ev).type = (k.alarms.event ev).type := left.type ev
  have data : (k₁.alarms.event ev).data = (k.alarms.event ev).data := left.data ev
  have safe : ∀ t, k.wakes (k.alarms.event ev) = some t → t = k.currentThreadIdx →
      k.state k.currentThreadIdx = .runnable := fun t woken same => spares ev due (same ▸ woken)
  rcases kalarmEventFunc_cases handled with
    ⟨_, rfl⟩ | ⟨t, kind, found, rfl⟩ | ⟨_, _, rfl⟩ | ⟨t, kind, found, waits, rfl⟩
  · exact base.of_same rfl rfl rfl rfl rfl fun _ => .inl
  · have slot := base.consistent.find_slot found
    rw [base.table.find, data] at found
    have woken := safe t (by simp [wakes, ← type, kind, found])
    exact ((base.log rfl).wake slot woken).of_same rfl rfl rfl rfl rfl fun _ => .inl
  · exact base
  · have slot := base.consistent.find_slot found
    rw [base.table.find, data] at found
    have woken : t = k.currentThreadIdx → k.state k.currentThreadIdx = .runnable := by
      intro same
      refine safe t ?_ same
      rw [same, base.currentState, ← same] at waits
      simp [wakes, ← type, kind, found, waits]
    have marked : Steady k ((k₁.popped ev).setIpcError t) := base.of_same rfl rfl rfl rfl rfl fun _ => .inl
    have reported : Steady k (((k₁.popped ev).setIpcError t).reportError t ((k₁.popped ev).state t = .recvBlocked) .timeout) :=
      marked.of_same rfl rfl rfl rfl rfl (quiet_cons rfl)
    exact (reported.wake slot woken).log rfl

/-! ### The trap -/

theorem pauseThread_consistent (c : Consistent k) {t : Nat} {untilTime : Word} (slot : t < maxThreads)
    (busy : t ≠ idleTcb) (h : k.pauseThread t untilTime = .ok k') : Consistent k' := by
  obtain ⟨alarms, queue, rfl⟩ := pauseThread_frame h
  have logged : Consistent (k.log (.pausing t)) := c.log rfl
  have queued : Consistent ((k.log (.pausing t)).setAlarms alarms) :=
    logged.of_same rfl rfl (fun _ => rfl) rfl rfl fun _ => .inl
  refine setThreadState_consistent ?_ slot (fun _ other => by cases other) fun same => absurd same busy
  exact (queued.log rfl).of_same rfl rfl (fun _ => rfl) rfl rfl fun _ => .inl

theorem deferSyscall_consistent (c : Consistent k) (busy : k.currentThreadIdx ≠ idleTcb)
    (user : k.currentThreadIdx ≠ kernTcb) (valid : k.currentThreadIdx ≠ invalidIdx) :
    Consistent (k.deferSyscall k.currentThreadIdx) := by
  have slot := c.currentSlot.resolve_right valid
  have called : Consistent (k.setCaller k.currentThreadIdx) :=
    c.of_same rfl rfl (fun _ => rfl) rfl rfl fun _ => .inl
  have blocked : Consistent ((k.setCaller k.currentThreadIdx).setThreadState k.currentThreadIdx .svcBlocked) :=
    setThreadState_consistent called slot (fun _ other => by cases other) fun same => absurd same busy
  have pending : Consistent
      (((k.setCaller k.currentThreadIdx).setThreadState k.currentThreadIdx .svcBlocked).setPending true) :=
    blocked.of_same rfl rfl (fun _ => rfl) rfl rfl fun _ => .inl
  have kernSlot : kernTcb < maxThreads := by decide
  have woken : Consistent (Kernel.setThreadState _ kernTcb .runnable) :=
    setThreadState_consistent pending kernSlot
      (fun same _ => absurd (same.trans (by exact setThreadState_currentThreadIdx ..)).symm user) fun _ => rfl
  exact woken.of_same rfl rfl (fun _ => rfl) rfl rfl fun _ => .inl

theorem svc_consistent (c : Consistent k) {cpu : Context} {mem : Memory} (enabled : Enabled k (.svc cpu mem))
    (h : effect k (.svc cpu mem) = .ok k') : Consistent k' := by
  obtain ⟨valid, busy, _, yields⟩ := enabled
  have slot := c.currentSlot.resolve_right valid
  have loaded : Consistent ((k.setCpu cpu).setMem mem) := c.of_same rfl rfl (fun _ => rfl) rfl rfl fun _ => .inl
  have current : ((k.setCpu cpu).setMem mem).getCurrentThread = some k.currentThreadIdx := by
    simp [getCurrentThread, setCpu, setMem, valid]
  simp only [effect, isrSvcall, current] at h
  split at h
  · obtain ⟨k₁, target, paused, rfl⟩ := threadSwitch_cases h
    have done : Consistent k₁ := by
      rcases paused with rfl | ⟨_, paused⟩
      · exact loaded
      · exact pauseThread_consistent loaded slot busy paused
    exact done.of_same rfl rfl (fun _ => rfl) rfl rfl fun _ => .inl
  · cases h
    exact loaded.of_same rfl rfl (fun _ => rfl) rfl rfl fun _ => .inl
  · rename_i other _
    cases h
    exact deferSyscall_consistent loaded busy (fun same => other (yields same)) valid

/-! ### The context switch -/

theorem Consistent.pooled (c : Consistent k) : Pooled k.requeueCurrent := by
  unfold requeueCurrent
  split
  · rename_i running
    have slot := c.currentSlot.resolve_right running.1
    have room := room_of_nodup c.nodup c.slots c.current slot
    have perm := scheduleInsert_ready room k.currentThreadIdx
    refine ⟨perm.nodup_iff.mpr (List.nodup_cons.mpr ⟨c.current, c.nodup⟩), fun t ht => ?_, fun t ht => ?_, c.idle,
      c.table, fun e he => ?_⟩
    · rcases List.mem_cons.mp (perm.mem_iff.mp ht) with rfl | ht
      · exact slot
      · exact c.slots t ht
    · rw [perm.mem_iff, List.mem_cons]
      by_cases same : t = k.currentThreadIdx
      · subst same; exact iff_of_true (.inl rfl) running.2
      · exact (or_iff_right same).trans (c.member t ht same)
    · rw [scheduleInsert_trace room] at he
      rcases List.mem_cons.mp he with rfl | he
      · rfl
      · exact c.room e he
  · rename_i stopped
    refine ⟨c.nodup, c.slots, fun t ht => ?_, c.idle, c.table, c.room⟩
    by_cases same : t = k.currentThreadIdx
    · subst same
      have valid : k.currentThreadIdx ≠ invalidIdx := fun h => by rw [h] at ht; exact absurd ht (by decide)
      exact iff_of_false c.current fun run => stopped ⟨valid, run⟩
    · exact c.member t ht same

theorem Pooled.selects (p : Pooled k) : ∃ r, k.selectThread = .ok r := by
  have idle : idleTcb ∈ k.ready := (p.member idleTcb (by decide)).mpr p.idle
  have nonempty : k.schedule.size ≠ 0 := by
    obtain ⟨i, hi, _⟩ := Heap.mem_toList.mp idle
    omega
  have least : ∃ r, k.findThreadIdxToSchedule = .ok r :=
    ⟨(k.schedule.data 0, k.schedulePop), by simp [findThreadIdxToSchedule, kassert, nonempty]; rfl⟩
  unfold selectThread
  split
  · rename_i target _
    unfold findThreadIdxToScheduleFromTarget
    split
    · rename_i i found
      have inside : target ∈ k.ready := by
        by_contra outside
        rw [findIdxInHeap_none.mpr outside] at found
        cases found
      have active := (p.member target (p.slots target inside)).mp inside
      exact ⟨(target, k.scheduleDelete i), by simp [kassert, active]; rfl⟩
    · exact least
  · exact least

theorem scheduleNextThread_consistent (c : Consistent k) (h : k.scheduleNextThread = .ok k') : Consistent k' := by
  obtain ⟨idx, k₁, alarms, selected, _, rfl⟩ := scheduleNextThread_spec h
  have p := c.pooled
  obtain ⟨perm, schedule, rfl⟩ := selectThread_spec selected
  generalize k.requeueCurrent = k₀ at p perm
  have distinct := perm.nodup_iff.mpr p.nodup
  have fresh := (List.nodup_cons.mp distinct).1
  refine ⟨(List.nodup_cons.mp distinct).2, fun t ht => p.slots t (perm.subset (List.mem_cons_of_mem _ ht)),
    fun t slot other => ?_, fresh, .inl (p.slots idx (perm.subset List.mem_cons_self)), p.idle, p.table, fun e he => ?_⟩
  · have rest : t ∈ idx :: (k₀.setSchedule schedule).ready ↔ t ∈ k₀.ready := perm.mem_iff
    exact (or_iff_right (a := t = idx) other).symm.trans
      ((List.mem_cons.symm.trans rest).trans (p.member t slot))
  · rcases List.mem_cons.mp he with rfl | he
    · rfl
    · exact p.room e he

theorem pendsv_consistent (c : Consistent k) (h : k.switchContext = .ok k') : Consistent k' := by
  obtain ⟨k₁, switched, rfl⟩ := switchContext_spec h
  obtain ⟨tcbs, same, kept⟩ := (k.setPendsv false).saveContext_frame
  have saved : Consistent (k.setPendsv false).saveContext := by
    rw [same]
    refine c.of_same rfl rfl (fun t => ?_) rfl rfl fun _ => .inl
    obtain ⟨ctx, h⟩ := kept t
    have state := congrArg Tcb.state h
    exact state
  exact (scheduleNextThread_consistent saved switched).of_same rfl rfl (fun _ => rfl) rfl rfl fun _ => .inl

/-! ### Runs -/

theorem step_consistent {a : Action} (c : Consistent k) (spares : Spares k a) (step : Step k a k') :
    Consistent k' := by
  obtain ⟨enabled, h⟩ := step
  cases a with
  | svc cpu mem => exact svc_consistent c enabled h
  | systick => exact isrSystick_consistent c spares h
  | pendsv => exact pendsv_consistent c h
  | setState t state =>
    cases h
    exact setThreadState_consistent c enabled.2 spares.1 spares.2

/-- In every run in which no tick wakes the current thread, the heap holds each thread once and
exactly the runnable ones beside the current thread, no insertion finds it full, and both searches
for the next thread return. -/
theorem membership_of_run {as : List Action} (start : Consistent k)
    (run : Theory.Run (Theory.Guarded Spares Step) k as k') :
    k'.ready.Nodup ∧
      (∀ t < maxThreads, t ≠ k'.currentThreadIdx → (t ∈ k'.ready ↔ k'.state t = .runnable)) ∧
      (∀ t, Event.inserted t false ∉ k'.trace) ∧
      ∃ r, k'.requeueCurrent.selectThread = .ok r := by
  have c : Consistent k' :=
    run.invariant (I := Consistent) (fun _ _ _ step c => step_consistent c step.1 step.2) start
  refine ⟨c.nodup, c.member, fun t full => ?_, c.pooled.selects⟩
  exact absurd (c.room _ full) (by simp [Event.isOverflow])

/-! ### Boot -/

/-- No thread runs yet: the heap holds the runnable threads, whose slots are in use. -/
structure Filling (k : Kernel) : Prop where
  nodup : k.ready.Nodup
  slots : ∀ t ∈ k.ready, t < maxThreads
  live : ∀ t ∈ k.ready, k.allocated t = true
  member : ∀ t < maxThreads, t ∈ k.ready ↔ k.state t = .runnable
  table : ∀ i, k.threadList i < maxThreads
  room : ∀ e ∈ k.trace, e.isOverflow = false

theorem shiftUp_cells {n : Nat} {list : Nat → Nat} {value i : Nat} {P : Nat → Prop} (cells : ∀ j, P (list j)) (here : P value) (j : Nat) :
    P (shiftUp list value i n j) := by
  induction n generalizing list value i with
  | zero => exact cells j
  | succ n ih =>
    refine ih (fun j => ?_) (cells i)
    rw [Function.update_apply]
    split
    · exact here
    · exact cells j

theorem createThread_cells {globalId : Word} {t : Nat} {P : Nat → Prop} (cells : ∀ i, P (k.threadList i)) (here : P t)
    (h : k.createThread globalId = .ok (some t, k')) (i : Nat) : P (k'.threadList i) := by
  unfold createThread at h
  obtain ⟨_, _, h⟩ := bind_ok h
  split at h
  · cases h
  · split at h
    · cases h
    · obtain ⟨k₁, inserted, h⟩ := bind_ok h
      cases h
      unfold threadListInsert at inserted
      obtain ⟨_, _, inserted⟩ := bind_ok inserted
      cases inserted
      exact shiftUp_cells cells here i

theorem createSysThread_filling {id sp pc priority localId : Word} {state : ThreadState} (f : Filling k)
    (h : k.createSysThread id sp pc priority localId state = .ok k') : Filling k' := by
  unfold createSysThread at h
  obtain ⟨⟨made, k₁⟩, created, h⟩ := bind_ok h
  rcases createThread_spec created with ⟨rfl, _⟩ | ⟨t, list, rfl, free, _, same⟩
  · cases h
  obtain ⟨slot, unused⟩ := allocateTcb_spec free
  have cells := createThread_cells (P := (· < maxThreads)) f.table slot created
  have absent : t ∉ k.ready := by
    intro member
    rw [f.live t member] at unused
    cases unused
  subst same
  cases h
  -- The new thread is inactive until its state is set.
  generalize made : Kernel.setFrame _ sp _ = k₂
  have ready : k₂.ready = k.ready := by rw [← made]; rfl
  have state₂ : ∀ u, k₂.state u = if u = t then .inactive else k.state u := by
    intro u
    rw [← made]
    show (Function.update (Function.update k.tcbs t _) t _ u).state = _
    rw [Function.update_apply]
    split
    · show (Function.update k.tcbs t (freshTcb id _) t).state = _
      rw [Function.update_self]
      rfl
    · rename_i other
      rw [Function.update_of_ne other]
      rfl
  have allocated : k₂.allocated = Function.update k.allocated t true := by rw [← made]; rfl
  have trace : k₂.trace = .created t :: k.trace := by rw [← made]; rfl
  have list₂ : k₂.threadList = list := by rw [← made]; rfl
  obtain ⟨nodup, member, clean⟩ := moveSchedule_ready (k := k₂) (ready ▸ f.nodup) (ready ▸ f.slots) slot (fun _ => ready ▸ absent) state
  have heap : ∀ u, u ∈ (k₂.setThreadState t state).ready ↔ u ∈ (k₂.moveSchedule t state).ready := fun _ => Iff.rfl
  have fresh : k₂.state t = .inactive := by rw [state₂, if_pos rfl]
  have joined : ∀ u, u ∈ (k₂.setThreadState t state).ready ↔ if u = t then state = .runnable else u ∈ k.ready := by
    intro u
    rw [heap, member, fresh, ready]
    simp
  refine ⟨nodup, fun u inside => ?_, fun u inside => ?_, fun u small => ?_, ?_, fun e inside => ?_⟩
  · rw [joined] at inside
    split at inside
    · rename_i here
      exact here ▸ slot
    · exact f.slots u inside
  · rw [joined] at inside
    rw [setThreadState_allocated, allocated, Function.update_apply]
    split
    · rfl
    · rename_i other
      rw [if_neg other] at inside
      exact f.live u inside
  · rw [joined, state_setThreadState]
    split
    · rfl
    · rename_i other
      rw [state₂, if_neg other]
      exact f.member u small
  · rw [setThreadState_threadList, list₂]
    exact cells
  · rcases List.mem_cons.mp inside with rfl | inside
    · rfl
    · refine clean (fun e inside => ?_) e inside
      rw [trace] at inside
      rcases List.mem_cons.mp inside with rfl | inside
      · rfl
      · exact f.room e inside

theorem boot_consistent {info : BootInfo} (h : boot info = .ok k) : Consistent k := by
  have idle : k.state idleTcb = .runnable := congrArg Tcb.state (booted h).idle
  have nobody := (booted h).currentThreadIdx
  have f : Filling k := by
    unfold boot createSysThreads at h
    obtain ⟨k₃, threads, h⟩ := bind_ok h
    cases h
    obtain ⟨k₁, kern, threads⟩ := bind_ok threads
    obtain ⟨k₂, idle, root⟩ := bind_ok threads
    have empty : Filling (init info) :=
      ⟨List.nodup_nil, fun _ inside => absurd inside List.not_mem_nil, fun _ inside => absurd inside List.not_mem_nil,
        fun _ _ => iff_of_false List.not_mem_nil (by rintro ⟨⟩), fun _ => (by decide : 0 < maxThreads),
        fun _ inside => absurd inside List.not_mem_nil⟩
    obtain ⟨nodup, slots, live, member, table, room⟩ :=
      createSysThread_filling (createSysThread_filling (createSysThread_filling empty kern) idle) root
    exact ⟨nodup, slots, live, member, table, room⟩
  refine ⟨f.nodup, f.slots, fun t small _ => f.member t small, ?_, .inr nobody, idle, fun i _ => f.table i, f.room⟩
  rw [nobody]
  exact fun inside => absurd (f.slots _ inside) (by decide)

/-- The same in every such run from boot. -/
theorem membership_from_boot {info : BootInfo} {as : List Action} (booted : boot info = .ok k)
    (run : Theory.Run (Theory.Guarded Spares Step) k as k') :
    Consistent k' ∧ ∃ r, k'.requeueCurrent.selectThread = .ok r := by
  have c : Consistent k' :=
    run.invariant (I := Consistent) (fun _ _ _ step c => step_consistent c step.1 step.2) (boot_consistent booted)
  exact ⟨c, c.pooled.selects⟩

/-! ### The tick that wakes the current thread -/

theorem consistent_iff : Consistent k ↔
    k.ready.Nodup ∧ (∀ t ∈ k.ready, t < maxThreads) ∧
      (∀ t < maxThreads, t ≠ k.currentThreadIdx → (t ∈ k.ready ↔ k.state t = .runnable)) ∧
      k.currentThreadIdx ∉ k.ready ∧ (k.currentThreadIdx < maxThreads ∨ k.currentThreadIdx = invalidIdx) ∧
      k.state idleTcb = .runnable ∧ (∀ i < k.threadCount + 1, k.threadList i < maxThreads) ∧
      ∀ e ∈ k.trace, e.isOverflow = false :=
  ⟨fun c => ⟨c.nodup, c.slots, c.member, c.current, c.currentSlot, c.idle, fun i hi => c.table i (by omega), c.room⟩,
    fun ⟨nodup, slots, member, current, currentSlot, idle, table, room⟩ =>
      ⟨nodup, slots, member, current, currentSlot, idle, fun i hi => table i (by omega), room⟩⟩

instance (k : Kernel) : Decidable (Consistent k) := decidable_of_iff' _ consistent_iff

instance (k : Kernel) : (a : Action) → Decidable (Enabled k a)
  | .svc _ _ => inferInstanceAs (Decidable (_ ∧ _ ∧ _ ∧ (_ → _)))
  | .systick => inferInstanceAs (Decidable True)
  | .pendsv => inferInstanceAs (Decidable (_ = true))
  | .setState _ _ => inferInstanceAs (Decidable (_ ∧ _))

def next (k : Kernel) (a : Action) : Option Kernel := if Enabled k a then (effect k a).toOption else none

theorem step_of_next (k : Kernel) (a : Action) (k' : Kernel) (h : next k a = some k') : Step k a k' := by
  unfold next at h
  split at h
  · rename_i enabled
    exact ⟨enabled, ok_of_toOption h⟩
  · cases h

/-- A step that finds no alarm pending, or whose `set_thread_state` is for another thread. -/
def quiet (k : Kernel) : Action → Bool
  | .systick => !k.ticked.alarms.hasPendingKalarm
  | .setState t _ => t ≠ k.currentThreadIdx && t ≠ idleTcb
  | _ => true

theorem spares_of_quiet {a : Action} (h : quiet k a = true) : Spares k a := by
  cases a with
  | svc cpu mem => trivial
  | systick =>
    intro ev due
    simp [quiet, due.pending] at h
  | pendsv => trivial
  | setState t state =>
    simp only [quiet, Bool.and_eq_true, decide_eq_true_eq] at h
    exact ⟨fun same => absurd same h.1, fun same => absurd same h.2⟩

/-- The second thread makes a system call, a tick passes, and the kernel thread wakes it again. -/
def callTick : List (Kernel → Action) :=
  [fun k => .svc { k.cpu with r7 := 5#32 } k.mem, fun _ => .systick, fun _ => .pendsv,
    fun _ => .setState 3 .runnable]

theorem membership_of_callTick : ∃ k k' as, SmallSystem.start = some k ∧
    Theory.Run (Theory.Guarded Spares Step) k as k' ∧ k'.ready.Nodup ∧
      (∀ t < maxThreads, t ≠ k'.currentThreadIdx → (t ∈ k'.ready ↔ k'.state t = .runnable)) ∧
      (∀ t, Event.inserted t false ∉ k'.trace) ∧ ∃ r, k'.requeueCurrent.selectThread = .ok r := by
  have done : (SmallSystem.start.any fun k => decide (Consistent k) &&
      (Theory.follow (Theory.restrict (fun k a => quiet k a = true) next) k callTick).isSome) = true := by
    decide +kernel
  obtain ⟨_, k, _, _, _, found, holds⟩ := SmallSystem.reached done
  obtain ⟨c, ran⟩ := Bool.and_eq_true_iff.mp holds
  obtain ⟨k', ran⟩ := Option.isSome_iff_exists.mp ran
  obtain ⟨as, run⟩ := Theory.run_of_follow (Theory.guarded_of_check (fun _ _ => spares_of_quiet) step_of_next) ran
  exact ⟨k, k', as, found, run, membership_of_run (of_decide_eq_true c) run⟩

/-- A trap of `SYS_THREAD_SWITCH`, a tick, the context switch. -/
def switchTick : List (Kernel → Action) :=
  [fun k => .svc { k.cpu with r7 := 10#32 } k.mem, fun _ => .systick, fun _ => .pendsv]

/-- A consistent state, reached from boot, from which these three steps leave a thread in the heap twice. -/
theorem switchTick_duplicates : ∃ b k k' as bs, boot SmallSystem.bootInfo = .ok b ∧ Theory.Run Kernel.Step b as k ∧
    Consistent k ∧ Theory.Run Step k bs k' ∧ ¬ k'.ready.Nodup := by
  have done : (SmallSystem.start.any fun k => decide (Consistent k) &&
      ((Theory.follow next k switchTick).any fun k' => !decide k'.ready.Nodup)) = true := by decide +kernel
  obtain ⟨b, k, as, booted, run, _, holds⟩ := SmallSystem.reached done
  obtain ⟨c, later⟩ := Bool.and_eq_true_iff.mp holds
  obtain ⟨k', ran, twice⟩ := (Option.any_eq_true _ _).mp later
  obtain ⟨bs, steps⟩ := Theory.run_of_follow step_of_next ran
  exact ⟨b, k, k', as, bs, booted, run, of_decide_eq_true c, steps, by simpa using twice⟩

end Scheduler
end BradypOS
