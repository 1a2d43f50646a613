import BradypOS.Ipc.Timeouts

/-!
# Ticks while a phase starts to wait

The critical section of `set_thread_timeout` puts the event into the queue and the thread into its wait.
`do_ipc` sets the state once more when interrupts are enabled again: a tick in between can end the wait,
and then the thread waits without an event.
-/

namespace BradypOS

open L4 Kernel

/-- How far a phase has come whose partner was not ready. -/
inductive Place where
  | searched
  /-- Behind the critical section of `set_thread_timeout`. -/
  | armed
  /-- `ipc_from` is stored. -/
  | marked
  /-- Inside the second `set_thread_state`, before the state is stored. -/
  | moved
  | done
  deriving DecidableEq

structure Window where
  kernel : Kernel
  place : Place

namespace Window

inductive Action where
  | advance | systick | pendsv

variable {p : IpcPhase} {k k' k₀ k₁ k₂ : Kernel} {s s' : Window} {a : Action} {t : Nat}

def advance (p : IpcPhase) (s : Window) : Fallible Window :=
  match s.place with
  | .searched => do
    let (_, k) ← s.kernel.setThreadTimeout p.thread p.timeout p.state
    .ok ⟨k, .armed⟩
  | .armed => .ok ⟨s.kernel.setTcb p.thread fun tcb => { tcb with ipcFrom := p.partner }, .marked⟩
  | .marked => .ok ⟨s.kernel.moveSchedule p.thread p.state, .moved⟩
  | .moved =>
    .ok ⟨(s.kernel.setTcb p.thread fun tcb => { tcb with state := p.state }).log (.stateSet p.thread p.state), .done⟩
  | .done => .ok s

def Enabled (s : Window) : Action → Prop
  | .advance => s.kernel.InKernelThread
  | .systick => True
  | .pendsv => s.kernel.pendsv = true

instance (s : Window) : (a : Action) → Decidable (s.Enabled a)
  | .advance => inferInstanceAs (Decidable s.kernel.InKernelThread)
  | .systick => inferInstanceAs (Decidable True)
  | .pendsv => inferInstanceAs (Decidable (_ = true))

def effect (p : IpcPhase) (s : Window) : Action → Fallible Window
  | .advance => s.advance p
  | .systick => do
    let k ← s.kernel.isrSystick
    .ok ⟨k, s.place⟩
  | .pendsv => do
    let k ← s.kernel.switchContext
    .ok ⟨k, s.place⟩

def Step (p : IpcPhase) (s : Window) (a : Action) (s' : Window) : Prop := s.Enabled a ∧ s.effect p a = .ok s'

def next (p : IpcPhase) (s : Window) (a : Action) : Option Window := if s.Enabled a then (s.effect p a).toOption else none

theorem step_of_next (s : Window) (a : Action) (s' : Window) (h : next p s a = some s') : Step p s a s' := by
  unfold next at h
  split at h
  · rename_i enabled
    exact ⟨enabled, ok_of_toOption h⟩
  · cases h

/-- Without an interrupt, the four steps are the rest of `do_ipc`. -/
theorem waitPhase_of_steps {s₁ s₂ s₃ : Window} (some : p.timeout.m ≠ 0#32) (relative : p.timeout.point = false)
    (first : Step p ⟨k, .searched⟩ .advance s₁) (second : Step p s₁ .advance s₂) (third : Step p s₂ .advance s₃)
    (last : Step p s₃ .advance s') : k.waitPhase p = .ok s'.kernel ∧ s'.place = .done := by
  obtain ⟨_, h⟩ := first
  obtain ⟨⟨blocks, k₁⟩, armed, h⟩ := bind_ok h
  cases h
  obtain ⟨_, h⟩ := second
  cases h
  obtain ⟨_, h⟩ := third
  cases h
  obtain ⟨_, h⟩ := last
  cases h
  rw [setThreadTimeout_finite some relative] at armed
  obtain ⟨alarms, registered, armed⟩ := bind_ok armed
  cases armed
  refine ⟨?_, rfl⟩
  rw [waitPhase_finite some relative, registered]
  rfl

/-! ### What the record of the kernel says about a thread -/

/-- The waits of the thread that timeouts ended. -/
def timeouts (k : Kernel) (t : Nat) : Nat := k.trace.countP fun
  | .timedOut u => u = t
  | _ => false

/-- The event of the thread fired after it was registered last. -/
def firedSince (t : Nat) : List Event → Bool
  | [] => false
  | .registered _ ev :: trace => if ev = .kevent t then false else firedSince t trace
  | .fired _ ev :: trace => if ev = .kevent t then true else firedSince t trace
  | _ :: trace => firedSince t trace

def alarmFired (k : Kernel) (t : Nat) : Bool := firedSince t k.trace

/-- Nothing was recorded that speaks of the thread's timeout; `own` says whether its event counts. -/
structure Unheard (t : Nat) (own : Prop) (k k' : Kernel) : Prop where
  timeouts : timeouts k' t = timeouts k t
  fired : own → alarmFired k' t = alarmFired k t

/-- What is recorded of a thread without a word about its timeout. -/
def Silent (t : Nat) : Event → Prop
  | .timedOut u => u ≠ t
  | .registered _ ev | .fired _ ev => ev ≠ .kevent t
  | _ => True

namespace Unheard

variable {own : Prop}

theorem refl (t : Nat) (own : Prop) (k : Kernel) : Unheard t own k k := ⟨rfl, fun _ => rfl⟩

theorem trans (h : Unheard t own k k₁) (h' : Unheard t own k₁ k₂) : Unheard t own k k₂ :=
  ⟨h'.timeouts.trans h.timeouts, fun counts => (h'.fired counts).trans (h.fired counts)⟩

theorem of_trace (same : k'.trace = k.trace) : Unheard t own k k' := by
  refine ⟨?_, fun _ => ?_⟩
  · unfold Window.timeouts
    rw [same]
  · unfold alarmFired
    rw [same]

theorem of_log {e : Event} (same : k'.trace = e :: k.trace) (silent : Silent t e) : Unheard t own k k' := by
  unfold Silent at silent
  cases e
  all_goals
    dsimp only at silent
    constructor
    · simp [Window.timeouts, same, silent]
    · intro _
      simp [alarmFired, same, firedSince, silent]

theorem popped {ev : EventRef} (other : own → ev ≠ .kevent t) : Unheard t own k (k.popped ev) := by
  refine ⟨?_, fun counts => (of_log (t := t) (e := .fired k.alarms.currentTime ev) rfl (other counts)).fired counts⟩
  simp [Window.timeouts, Kernel.popped, Kernel.log, setAlarms]

theorem moveSchedule (k : Kernel) (u : Nat) (st : ThreadState) : Unheard t own k (k.moveSchedule u st) := by
  unfold Kernel.moveSchedule
  split
  · exact of_log rfl trivial
  · split
    · unfold scheduleRemove
      split
      · exact of_trace rfl
      · exact refl t own k
    · exact refl t own k

theorem setThreadState (k : Kernel) (u : Nat) (st : ThreadState) : Unheard t own k (k.setThreadState u st) :=
  (moveSchedule k u st).trans (of_log rfl trivial)

theorem timedOut (k : Kernel) {u : Nat} (other : u ≠ t) : Unheard t own k (k.timedOut u) := by
  have told : Unheard t own k ((k.setIpcError u).reportError u (k.state u = .recvBlocked) .timeout) :=
    of_log rfl trivial
  exact (told.trans (setThreadState _ u .runnable)).trans (of_log rfl other)

theorem unpaused (k : Kernel) (u : Nat) : Unheard t own k (k.unpaused u) := by
  have told : Unheard t own k (k.log (.unpaused u (k.state u) (k.allocated u))) := of_log rfl trivial
  exact (told.trans (setThreadState _ u .runnable)).trans (of_trace rfl)

end Unheard

/-! ### A tick -/

/-- The event is due to end the thread's wait. -/
def EndsWait (k : Kernel) (ev : EventRef) (t : Nat) : Prop :=
  (k.alarms.event ev).type = .timeout ∧ k.findThreadByGlobalId (k.alarms.event ev).data = some t ∧ k.Waits t

theorem released_popped (k : Kernel) (ev : EventRef) : Released k (k.popped ev) := .of_tcbs rfl rfl rfl rfl fun _ => rfl

theorem released_unpaused (k : Kernel) (u : Nat) : Released k (k.unpaused u) :=
  (((Released.refl k).log _).wake u).trans (.of_tcbs rfl rfl rfl rfl fun _ => rfl)

theorem isrSystick_unheard {own : Prop} (misses : ∀ ev, Alarms.Due k.ticked.alarms ev → ¬ EndsWait k ev t ∧ (own → ev ≠ .kevent t))
    (h : k.isrSystick = .ok k') : Unheard t own k k' := by
  have kept := isrSystick_rule (P := fun k₁ => Released k k₁ ∧ Unheard t own k k₁) ?_
    ⟨.of_tcbs rfl rfl rfl rfl fun _ => rfl, .of_trace rfl⟩ h
  · exact kept.1.2
  · intro k₁ ev k₂ ⟨released, unheard⟩ popped due _ handled
    obtain ⟨spared, other⟩ := misses ev due
    have released := released.trans (released_popped k₁ ev)
    have unheard := unheard.trans (.popped other)
    rcases kalarmEventFunc_cases handled with ⟨_, rfl⟩ | ⟨u, _, _, rfl⟩ | ⟨_, _, rfl⟩ | ⟨u, type, found, waits, rfl⟩
    · exact ⟨released.trans (.of_tcbs rfl rfl rfl rfl fun _ => rfl), unheard.trans (.of_trace rfl)⟩
    · exact ⟨released.trans (released_unpaused _ u), unheard.trans (.unpaused _ u)⟩
    · exact ⟨released, unheard⟩
    · refine ⟨released.trans (.timedOut _ u), unheard.trans (.timedOut _ fun here => spared ?_)⟩
      subst here
      refine ⟨(popped.type ev).symm.trans type, ?_, released.fewer.waits waits.symm⟩
      rw [popped.data] at found
      rw [← released.find]
      exact found

/-- Nothing but the end of a wait tells of a timeout, and nothing starts the wait again. -/
structure Ended (t : Nat) (n : Nat) (k : Kernel) : Prop where
  timedOut : n < timeouts k t → ¬ k.Waits t
  fired : alarmFired k t = true → ¬ k.Waits t

theorem Ended.of_runs {n : Nat} (runs : ¬ k.Waits t) : Ended t n k := ⟨fun _ => runs, fun _ => runs⟩

theorem Ended.unheard {n : Nat} (h : Ended t n k) (released : Released k k') (unheard : Unheard t True k k') : Ended t n k' := by
  refine ⟨fun more waits => h.timedOut ?_ (released.fewer.waits waits), fun fired waits => h.fired ?_ (released.fewer.waits waits)⟩
  · rwa [← unheard.timeouts]
  · rwa [← unheard.fired trivial]

theorem timedOut_runs (k : Kernel) (t : Nat) : ¬ (k.timedOut t).Waits t := by
  have runs : (k.timedOut t).state t = .runnable := by
    unfold Kernel.timedOut
    exact (state_setThreadState ..).trans (if_pos rfl)
  unfold Waits
  rw [runs]
  exact nofun

/-- A tick that comes when the phase is over: the event of the thread has to find the thread. -/
theorem isrSystick_ended {n : Nat} (type : (k.alarms.event (.kevent t)).type = .timeout)
    (finds : Alarms.Due k.ticked.alarms (.kevent t) → k.findThreadByGlobalId (k.alarms.event (.kevent t)).data = some t)
    (ended : Ended t n k) (h : k.isrSystick = .ok k') : Ended t n k' := by
  have begun : Released k k.ticked := .of_tcbs rfl rfl rfl rfl fun _ => rfl
  have kept := isrSystick_rule (P := fun k₁ => Released k k₁ ∧ Ended t n k₁) ?_
    ⟨begun, ended.unheard begun (.of_trace rfl)⟩ h
  · exact kept.1.2
  · intro k₁ ev k₂ ⟨released, ended⟩ popped due _ handled
    have released' := released.trans (released_popped k₁ ev)
    by_cases own : ev = .kevent t
    · subst own
      have timeout : (k₁.alarms.event (.kevent t)).type = .timeout := (popped.type _).trans type
      have found : (k₁.popped (.kevent t)).findThreadByGlobalId (k₁.alarms.event (.kevent t)).data = some t := by
        rw [released'.find, popped.data]
        exact finds due
      rcases kalarmEventFunc_cases handled with ⟨reschedule, _⟩ | ⟨u, unpause, _⟩ | ⟨_, rests, rfl⟩ | ⟨u, _, found', _, rfl⟩
      · rw [timeout] at reschedule; cases reschedule
      · rw [timeout] at unpause; cases unpause
      · refine ⟨released', .of_runs fun waits => ?_⟩
        unfold Kernel.wakes at rests
        rw [timeout, found] at rests
        simp only [Option.filter, decide_eq_true_eq] at rests
        rw [if_pos waits.symm] at rests
        cases rests
      · cases found.symm.trans found'
        exact ⟨released'.trans (.timedOut _ t), .of_runs (timedOut_runs _ t)⟩
    · have ended := ended.unheard (released_popped k₁ ev) (.popped fun _ => own)
      rcases kalarmEventFunc_cases handled with ⟨_, rfl⟩ | ⟨u, _, _, rfl⟩ | ⟨_, _, rfl⟩ | ⟨u, _, _, _, rfl⟩
      · have asked : Released (k₁.popped ev) ((k₁.popped ev).requestReschedule none) := .of_tcbs rfl rfl rfl rfl fun _ => rfl
        exact ⟨released'.trans asked, ended.unheard asked (.of_trace rfl)⟩
      · exact ⟨released'.trans (released_unpaused _ u), ended.unheard (released_unpaused _ u) (.unpaused _ u)⟩
      · exact ⟨released', ended⟩
      · refine ⟨released'.trans (.timedOut _ u), ?_⟩
        by_cases here : u = t
        · subst here
          exact .of_runs (timedOut_runs _ u)
        · exact ended.unheard (.timedOut _ u) (.timedOut _ here)

/-! ### The context switch -/

/-- A switch changes no state, and no event but the end of the time slice. -/
theorem switchContext_unheard (h : k.switchContext = .ok k') : Unheard t True k k' ∧ (∀ u, k'.state u = k.state u) ∧
    ∀ e, (k'.alarms.event e).type = (k.alarms.event e).type := by
  obtain ⟨k₁, switched, rfl⟩ := switchContext_spec h
  obtain ⟨tcbs, saved, kept⟩ := (k.setPendsv false).saveContext_frame
  rw [saved] at switched
  obtain ⟨idx, k₂, alarms, selected, updated, rfl⟩ := scheduleNextThread_spec switched
  obtain ⟨_, schedule, rfl⟩ := selectThread_spec selected
  have requeued : Unheard t True k ((k.setPendsv false).setTcbs tcbs).requeueCurrent ∧
      ((k.setPendsv false).setTcbs tcbs).requeueCurrent.tcbs = tcbs ∧
      ((k.setPendsv false).setTcbs tcbs).requeueCurrent.alarms = k.alarms := by
    unfold requeueCurrent
    split
    · exact ⟨.of_log rfl trivial, rfl, rfl⟩
    · exact ⟨.of_trace rfl, rfl, rfl⟩
  obtain ⟨unheard, same, still⟩ := requeued
  refine ⟨unheard.trans (.of_log rfl trivial), fun u => ?_, fun e => ?_⟩
  · obtain ⟨ctx, whole⟩ := kept u
    show (((k.setPendsv false).setTcbs tcbs).requeueCurrent.tcbs u).state = _
    rw [same, whole]
    rfl
  · have event := Alarms.updateKalarmEvent_type updated e
    exact event.trans (congrArg (fun a : Alarms => (a.event e).type) still)

/-! ### The whole window -/

/-- What a phase that waits must not lose: a timeout that ended the wait, and an event that fired. -/
structure NotLost (p : IpcPhase) (k : Kernel) (s : Window) : Prop where
  timedOut : timeouts k p.thread < timeouts s.kernel p.thread → ¬ s.kernel.Waits p.thread
  fired : s.place ≠ .searched → alarmFired s.kernel p.thread = true → ¬ s.kernel.Waits p.thread

/-- Before the phase is over, no event ends the thread's wait, nor does the thread's own event fire once it is set. Later
the thread's own event finds the thread. -/
def Misses (p : IpcPhase) (s : Window) : Action → Prop
  | .advance | .pendsv => True
  | .systick =>
    if s.place = .done then
      Alarms.Due s.kernel.ticked.alarms (.kevent p.thread) →
        s.kernel.findThreadByGlobalId (s.kernel.alarms.event (.kevent p.thread)).data = some p.thread
    else ∀ ev, Alarms.Due s.kernel.ticked.alarms ev →
      ¬ EndsWait s.kernel ev p.thread ∧ (s.place ≠ .searched → ev ≠ .kevent p.thread)

structure Watched (p : IpcPhase) (k : Kernel) (s : Window) : Prop where
  type : s.place ≠ .searched → (s.kernel.alarms.event (.kevent p.thread)).type = .timeout
  quiet : s.place ≠ .done → timeouts s.kernel p.thread = timeouts k p.thread
  unfired : s.place ≠ .searched → s.place ≠ .done → alarmFired s.kernel p.thread = false
  finished : s.place = .done → Ended p.thread (timeouts k p.thread) s.kernel

theorem Watched.notLost (w : Watched p k s) : NotLost p k s := by
  by_cases finished : s.place = .done
  · exact ⟨(w.finished finished).timedOut, fun _ => (w.finished finished).fired⟩
  · refine ⟨fun more => ?_, fun set fired => ?_⟩
    · rw [w.quiet finished] at more
      exact absurd more (Nat.lt_irrefl _)
    · rw [w.unfired set finished] at fired
      cases fired

theorem armedFor_watched {alarms : Alarms} (registered : (k.armed p).registerKalarmEvent (.kevent p.thread) = .ok alarms)
    (quiet : timeouts k p.thread = timeouts k₀ p.thread) : Watched p k₀ ⟨k.armedFor p alarms, .armed⟩ := by
  generalize begun : (k.log (.waiting p.thread p.state p.timeout k.alarms.currentTime)).setAlarms alarms = k₁
  have silent : Unheard p.thread True k k₁ := by
    rw [← begun]
    exact .of_log rfl trivial
  have set : Unheard p.thread True (k₁.log (.registered (k.armed p) (.kevent p.thread))) (k.armedFor p alarms) := by
    rw [armedFor, begun]
    exact .setThreadState _ _ _
  refine ⟨fun _ => ?_, fun _ => ?_, fun _ _ => ?_, fun other => by cases other⟩
  · have same := (Alarms.registerKalarmEvent_same registered).type (.kevent p.thread)
    rw [armed_event] at same
    rw [armedFor_alarms]
    exact same
  · rw [← quiet, ← silent.timeouts]
    apply set.timeouts.trans
    simp [timeouts, Kernel.log]
  · apply (set.fired trivial).trans
    simp [alarmFired, Kernel.log, firedSince]

theorem advance_watched (some : p.timeout.m ≠ 0#32) (relative : p.timeout.point = false) (w : Watched p k₀ s)
    (h : s.advance p = .ok s') : Watched p k₀ s' := by
  obtain ⟨k, place⟩ := s
  unfold advance at h
  cases place with
  | searched =>
    obtain ⟨⟨blocks, k₁⟩, armed, h⟩ := bind_ok h
    cases h
    rw [setThreadTimeout_finite some relative] at armed
    obtain ⟨alarms, registered, armed⟩ := bind_ok armed
    cases armed
    exact armedFor_watched registered (w.quiet nofun)
  | armed =>
    cases h
    exact ⟨fun _ => w.type nofun, fun _ => w.quiet nofun, fun _ _ => w.unfired nofun nofun, fun other => by cases other⟩
  | marked =>
    cases h
    have unheard : Unheard p.thread True k (k.moveSchedule p.thread p.state) := .moveSchedule ..
    refine ⟨fun _ => ?_, fun _ => ?_, fun _ _ => ?_, fun other => by cases other⟩
    · have alarms : (k.moveSchedule p.thread p.state).alarms = k.alarms := setThreadState_alarms k p.thread p.state
      rw [alarms]
      exact w.type nofun
    · exact unheard.timeouts.trans (w.quiet nofun)
    · exact (unheard.fired trivial).trans (w.unfired nofun nofun)
  | moved =>
    cases h
    have unheard : Unheard p.thread True k
        ((k.setTcb p.thread fun tcb => { tcb with state := p.state }).log (.stateSet p.thread p.state)) := .of_log rfl trivial
    refine ⟨fun _ => w.type nofun, nofun, nofun, fun _ => ⟨fun more => ?_, fun fired => ?_⟩⟩
    · rw [unheard.timeouts, w.quiet nofun] at more
      exact absurd more (Nat.lt_irrefl _)
    · rw [unheard.fired trivial, w.unfired nofun nofun] at fired
      cases fired
  | done =>
    cases h
    exact w

theorem systick_watched (misses : Misses p s .systick) (w : Watched p k₀ s) (h : s.kernel.isrSystick = .ok k') :
    Watched p k₀ ⟨k', s.place⟩ := by
  have kind : (k'.alarms.event (.kevent p.thread)).type = (s.kernel.alarms.event (.kevent p.thread)).type :=
    (isrSystick_rule (P := fun _ => True) (fun _ _ _ _ _ _ _ _ => trivial) trivial h).2.type (.kevent p.thread)
  unfold Misses at misses
  by_cases finished : s.place = .done
  · simp only [finished, if_true] at misses
    have type := w.type (by rw [finished]; exact nofun)
    refine ⟨fun _ => kind.trans type, fun other => absurd finished other, fun _ other => absurd finished other, fun _ => ?_⟩
    exact isrSystick_ended type misses (w.finished finished) h
  · simp only [finished, if_false] at misses
    have unheard := isrSystick_unheard misses h
    exact ⟨fun set => kind.trans (w.type set), fun other => unheard.timeouts.trans (w.quiet other),
      fun set other => (unheard.fired set).trans (w.unfired set other), fun here => absurd here finished⟩

theorem pendsv_watched (w : Watched p k₀ s) (h : s.kernel.switchContext = .ok k') : Watched p k₀ ⟨k', s.place⟩ := by
  obtain ⟨unheard, state, kind⟩ := switchContext_unheard (t := p.thread) h
  refine ⟨fun set => (kind _).trans (w.type set), fun other => unheard.timeouts.trans (w.quiet other),
    fun set other => (unheard.fired trivial).trans (w.unfired set other), fun finished => ?_⟩
  have waits : k'.Waits p.thread → s.kernel.Waits p.thread := by
    unfold Waits
    rw [state]
    exact id
  refine ⟨fun more here => (w.finished finished).timedOut ?_ (waits here), fun fired here => (w.finished finished).fired ?_ (waits here)⟩
  · rwa [← unheard.timeouts]
  · rwa [← unheard.fired trivial]

theorem step_watched (some : p.timeout.m ≠ 0#32) (relative : p.timeout.point = false) (w : Watched p k₀ s)
    (step : Theory.Guarded (Misses p) (Step p) s a s') : Watched p k₀ s' := by
  obtain ⟨misses, _, taken⟩ := step
  cases a with
  | advance => exact advance_watched some relative w taken
  | systick =>
    obtain ⟨k, ticked, taken⟩ := bind_ok taken
    cases taken
    exact systick_watched misses w ticked
  | pendsv =>
    obtain ⟨k, switched, taken⟩ := bind_ok taken
    cases taken
    exact pendsv_watched w switched

/-- A phase that waits with a finite timeout loses no timeout, as long as none comes before the phase is over. -/
theorem window_notLost (some : p.timeout.m ≠ 0#32) (relative : p.timeout.point = false) {as : List Action}
    (run : Theory.Run (Theory.Guarded (Misses p) (Step p)) ⟨k, .searched⟩ as s) : NotLost p k s := by
  have start : Watched p k ⟨k, .searched⟩ := ⟨fun other => absurd rfl other, fun _ => rfl, fun other => absurd rfl other, nofun⟩
  exact (run.invariant (I := Watched p k) (fun _ _ _ step w => step_watched some relative w step) start).notLost

/-- The second thread sends to the root thread and waits at most 10 microseconds. -/
def sendSoon : List (Kernel → Kernel.Action) :=
  [SmallSystem.load 0x6000#32 rootId 0#32 0x000A0000#32 0#32 0#32 5#32, fun _ => .svc, fun _ => .pendsv]

def soon : IpcPhase := ⟨3, rootId, 0x000A#16, true⟩

def searching : Option Window := (SmallSystem.start.bind fun k => Theory.follow Kernel.next k sendSoon).map fun k =>
  ⟨k.log (.sending 3 rootId), .searched⟩

def tickAfter : List Action := [.advance, .advance, .advance, .advance, .systick]

def tickBetween : List Action := [.advance, .systick, .advance, .advance, .advance]

def missed (s : Window) (a : Action) : Bool :=
  match a with
  | .advance | .pendsv => true
  | .systick => s.place = .done && s.kernel.findThreadByGlobalId (s.kernel.alarms.event (.kevent 3)).data = some 3

theorem misses_of_missed {s : Window} {a : Action} (h : missed s a = true) : Misses soon s a := by
  cases a with
  | advance => trivial
  | pendsv => trivial
  | systick =>
    simp only [missed, Bool.and_eq_true, decide_eq_true_eq] at h
    unfold Misses
    rw [if_pos h.1]
    exact fun _ => h.2

theorem window_notLost_after : ∃ s s' : Window, searching = some s ∧
    Theory.Run (Theory.Guarded (Misses soon) (Step soon)) s tickAfter s' ∧ s'.kernel.state 3 = .runnable ∧ NotLost soon s.kernel s' := by
  have done : (searching.any fun s => s.place == .searched &&
      (Theory.follow (Theory.restrict (fun s a => missed s a = true) (next soon)) s (tickAfter.map fun a _ => a)).any fun s' =>
        s'.kernel.state 3 = .runnable) = true := by decide +kernel
  obtain ⟨s, found, holds⟩ := (Option.any_eq_true _ _).mp done
  obtain ⟨fresh, holds⟩ := Bool.and_eq_true_iff.mp holds
  obtain ⟨s', ran, runs⟩ := (Option.any_eq_true _ _).mp holds
  have run := Theory.run_of_follow_const (Theory.guarded_of_restrict step_of_next) ran
  have run : Theory.Run (Theory.Guarded (Misses soon) (Step soon)) s tickAfter s' :=
    run.mono fun _ _ _ step => ⟨misses_of_missed step.1, step.2⟩
  obtain ⟨k, place⟩ := s
  cases beq_iff_eq.mp fresh
  exact ⟨⟨k, .searched⟩, s', found, run, of_decide_eq_true runs, window_notLost (by decide) (by decide) run⟩

/-- The timeout ends the wait, and `do_ipc` starts it again: nothing is left that could end it. -/
theorem window_lost : ∃ b k as, boot SmallSystem.bootInfo = .ok b ∧ Theory.Run Kernel.Step b as k ∧
    Stalls k false soon (k.log (.sending 3 rootId)) ∧
    ∃ s, Theory.Run (Step soon) ⟨k.log (.sending 3 rootId), .searched⟩ tickBetween s ∧ s.place = .done ∧
      timeouts (k.log (.sending 3 rootId)) 3 < timeouts s.kernel 3 ∧ alarmFired s.kernel 3 = true ∧
      s.kernel.state 3 = .sendBlocked ∧ ¬ NotLost soon (k.log (.sending 3 rootId)) s := by
  have done : (SmallSystem.start.any fun k => (Theory.follow Kernel.next k sendSoon).any fun k =>
      decide (k.sendTo 3 = rootId ∧ k.sendTime 3 = 0x000A#16) && (k.findIpcPartner 3 rootId true).toOption == some .notready &&
      (Theory.follow (next soon) ⟨k.log (.sending 3 rootId), .searched⟩ (tickBetween.map fun a _ => a)).any fun s =>
        decide (s.place = .done ∧ timeouts (k.log (.sending 3 rootId)) 3 < timeouts s.kernel 3 ∧
          alarmFired s.kernel 3 = true ∧ s.kernel.state 3 = .sendBlocked)) = true := by decide +kernel
  obtain ⟨b, k, as, booted, run, _, later⟩ := SmallSystem.reached done
  obtain ⟨k₁, ran, holds⟩ := (Option.any_eq_true _ _).mp later
  obtain ⟨asked, lost⟩ := Bool.and_eq_true_iff.mp holds
  obtain ⟨named, search⟩ := Bool.and_eq_true_iff.mp asked
  obtain ⟨dest, timeout⟩ := of_decide_eq_true named
  obtain ⟨s, window, ends⟩ := (Option.any_eq_true _ _).mp lost
  obtain ⟨last, told, fired, waits⟩ := of_decide_eq_true ends
  obtain ⟨bs, steps⟩ := Theory.run_of_follow Kernel.step_of_next ran
  have stalls := Stalls.send (k := k₁) (t := 3) (by rw [dest]; decide) (by rw [dest]; exact ok_of_toOption (beq_iff_eq.mp search))
  rw [dest, timeout] at stalls
  refine ⟨b, k₁, as ++ bs, booted, run.append steps, stalls, s, Theory.run_of_follow_const step_of_next window, last, told, fired,
    waits, fun safe => ?_⟩
  exact safe.timedOut told (.inl waits)

end Window
end BradypOS
