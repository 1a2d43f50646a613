import BradypOS.Scheduler.Basic

/-!
# The events a timer tick fires

A tick takes events off the head of the queue while they are due. Taking one off only clears links,
so every event that fires was due, and behind due events only, in the queue the tick found.
-/

namespace BradypOS

namespace Alarms

/-- The events reached from `next_event` over due events alone. -/
inductive Due (a : Alarms) : EventRef → Prop where
  | head {e : EventRef} : a.nextEvent = some e → (a.event e).when ≤ a.currentTime → Due a e
  | next {d e : EventRef} : Due a d → (a.event d).next = some e → (a.event e).when ≤ a.currentTime → Due a e

theorem Due.pending {a : Alarms} {e : EventRef} (h : Due a e) : a.hasPendingKalarm = true := by
  induction h with
  | head first now => simpa [hasPendingKalarm, first] using now
  | next _ _ _ ih => exact ih

/-- What is left of the queue `a₀` after some due events were taken off. -/
structure Popped (a₀ a : Alarms) : Prop where
  time : a.currentTime = a₀.currentTime
  when : ∀ e, (a.event e).when = (a₀.event e).when
  type : ∀ e, (a.event e).type = (a₀.event e).type
  data : ∀ e, (a.event e).data = (a₀.event e).data
  next : ∀ e, (a.event e).next = (a₀.event e).next ∨ (a.event e).next = none
  prev : ∀ e, (a.event e).prev = (a₀.event e).prev ∨ (a.event e).prev = none
  head : ∀ e, a.nextEvent = some e → a₀.nextEvent = some e ∨ ∃ d, Due a₀ d ∧ (a₀.event d).next = some e

theorem Popped.refl (a : Alarms) : Popped a a :=
  ⟨rfl, fun _ => rfl, fun _ => rfl, fun _ => rfl, fun _ => .inl rfl, fun _ => .inl rfl, fun _ => .inl⟩

/-- The head of what is left, once due, was due. -/
theorem Popped.due {a₀ a : Alarms} (h : Popped a₀ a) {e : EventRef} (head : a.nextEvent = some e)
    (due : a.hasPendingKalarm = true) : Due a₀ e := by
  have now : (a₀.event e).when ≤ a₀.currentTime := by
    simp only [hasPendingKalarm, head, h.when, h.time] at due
    exact of_decide_eq_true due
  rcases h.head e head with first | ⟨d, before, link⟩
  · exact .head first now
  · exact .next before link now

/-- `pop_kalarm_event` event by event: it clears links and nothing else. -/
theorem popKalarmEvent_event (a : Alarms) (ev e : EventRef) :
    (a.popKalarmEvent ev).event e =
      if e = ev then { a.event e with next := none, prev := none }
      else if (a.event ev).next = some e then { a.event e with prev := none }
      else a.event e := by
  unfold popKalarmEvent setNext setPrev setEvent
  cases link : (a.event ev).next with
  | none =>
    by_cases same : e = ev
    · subst same; simp
    · simp [same]
  | some n =>
    by_cases same : e = ev
    · subst same
      by_cases self : n = e
      · subst self; simp
      · simp [Function.update_of_ne (Ne.symm self)]
    · by_cases behind : n = e
      · subst behind; simp [same]
      · simp [Function.update_of_ne (Ne.symm behind), same, behind]

@[simp] theorem popKalarmEvent_currentTime (a : Alarms) (ev : EventRef) :
    (a.popKalarmEvent ev).currentTime = a.currentTime := by
  unfold popKalarmEvent
  cases (a.event ev).next <;> rfl

@[simp] theorem popKalarmEvent_nextEvent (a : Alarms) (ev : EventRef) :
    (a.popKalarmEvent ev).nextEvent = (a.event ev).next := rfl

theorem Popped.pop {a₀ a : Alarms} (h : Popped a₀ a) {e : EventRef} (head : a.nextEvent = some e)
    (due : a.hasPendingKalarm = true) : Popped a₀ (a.popKalarmEvent e) where
  time := (a.popKalarmEvent_currentTime e).trans h.time
  when d := by rw [popKalarmEvent_event]; split <;> [skip; split] <;> exact h.when d
  type d := by rw [popKalarmEvent_event]; split <;> [skip; split] <;> exact h.type d
  data d := by rw [popKalarmEvent_event]; split <;> [skip; split] <;> exact h.data d
  next d := by
    rw [popKalarmEvent_event]
    split
    · exact .inr rfl
    · split <;> exact h.next d
  prev d := by
    rw [popKalarmEvent_event]
    split
    · exact .inr rfl
    · split
      · exact .inr rfl
      · exact h.prev d
  head d link := by
    rw [popKalarmEvent_nextEvent] at link
    rcases h.next e with same | cleared
    · exact .inr ⟨e, h.due head due, same ▸ link⟩
    · rw [cleared] at link; cases link

end Alarms

namespace Kernel

/-- The kernel after `++current_time`. -/
def ticked (k : Kernel) : Kernel :=
  k.setAlarms { k.alarms with currentTime := k.alarms.currentTime + 1#32 }

/-- The kernel after an event was taken off the queue. -/
def popped (k : Kernel) (ev : EventRef) : Kernel :=
  (k.setAlarms (k.alarms.popKalarmEvent ev)).log (.fired k.alarms.currentTime ev)

/-- The thread that the handler of an event makes runnable. -/
def wakes (k : Kernel) (ev : KalarmEvent) : Option Nat :=
  match ev.type with
  | .reschedule => none
  | .unpause => k.findThreadByGlobalId ev.data
  | .timeout =>
    (k.findThreadByGlobalId ev.data).filter fun t => k.state t = .recvBlocked ∨ k.state t = .sendBlocked

/-- `unpause_thread` for the thread it finds. -/
def unpaused (k : Kernel) (t : Nat) : Kernel :=
  ((k.log (.unpaused t (k.state t) (k.allocated t))).setThreadState t .runnable).requestReschedule none

/-- `do_ipc_timeout` for a thread that waits. -/
def timedOut (k : Kernel) (t : Nat) : Kernel :=
  (((k.setIpcError t).reportError t (k.state t = .recvBlocked) .timeout).setThreadState t .runnable).log (.timedOut t)

theorem kalarmEventFunc_cases {k k' : Kernel} {ev : KalarmEvent} (h : k.kalarmEventFunc ev = .ok k') :
    (ev.type = .reschedule ∧ k' = k.requestReschedule none) ∨
    (∃ t, ev.type = .unpause ∧ k.findThreadByGlobalId ev.data = some t ∧ k' = k.unpaused t) ∨
    (ev.type = .timeout ∧ k.wakes ev = none ∧ k' = k) ∨
    (∃ t, ev.type = .timeout ∧ k.findThreadByGlobalId ev.data = some t ∧
      (k.state t = .recvBlocked ∨ k.state t = .sendBlocked) ∧ k' = k.timedOut t) := by
  unfold kalarmEventFunc at h
  split at h
  · rename_i type
    cases h
    exact .inl ⟨type, rfl⟩
  · rename_i type
    unfold unpauseThread at h
    split at h
    · cases h
    · rename_i t found
      cases h
      exact .inr (.inl ⟨t, type, found, rfl⟩)
  · rename_i type
    unfold doIpcTimeout at h
    split at h
    · rename_i missing
      cases h
      exact .inr (.inr (.inl ⟨type, by simp [wakes, type, missing], rfl⟩))
    · rename_i t found
      split at h
      · rename_i other
        cases h
        exact .inr (.inr (.inl ⟨type, by simp [wakes, type, found, other.1, other.2], rfl⟩))
      · rename_i waits
        cases h
        exact .inr (.inr (.inr ⟨t, type, found, by tauto, rfl⟩))

theorem kalarmEventFunc_alarms {k k' : Kernel} {ev : KalarmEvent} (h : k.kalarmEventFunc ev = .ok k') :
    k'.alarms = k.alarms := by
  rcases kalarmEventFunc_cases h with ⟨_, rfl⟩ | ⟨t, _, _, rfl⟩ | ⟨_, _, rfl⟩ | ⟨t, _, _, _, rfl⟩
  · rfl
  · simp [unpaused, requestReschedule, setPendsv, setTarget, log]
  · rfl
  · simp [timedOut, log, reportError, setIpcError, setMem]

/-- What holds when the loop starts and survives each event that fires holds when the tick ends. -/
theorem systickLoop_rule {P : Kernel → Prop} {a₀ : Alarms} {fuel : Nat} {k k' : Kernel}
    (each : ∀ k ev k', P k → Alarms.Popped a₀ k.alarms → Alarms.Due a₀ ev → k.alarms.nextEvent = some ev →
      (k.popped ev).kalarmEventFunc (k.alarms.event ev) = .ok k' → P k')
    (start : P k) (left : Alarms.Popped a₀ k.alarms) (h : systickLoop fuel k = .ok k') :
    P k' ∧ Alarms.Popped a₀ k'.alarms := by
  induction fuel generalizing k with
  | zero => cases h
  | succ fuel ih =>
    rw [systickLoop] at h
    split at h
    · cases h; exact ⟨start, left⟩
    · rename_i ev head
      split at h
      · rename_i due
        obtain ⟨k₁, handled, h⟩ := bind_ok h
        have still : Alarms.Popped a₀ k₁.alarms := by
          rw [kalarmEventFunc_alarms handled]
          exact left.pop head due
        exact ih (each k ev k₁ start left (left.due head due) head handled) still h
      · cases h; exact ⟨start, left⟩

theorem isrSystick_rule {P : Kernel → Prop} {k k' : Kernel}
    (each : ∀ k₁ ev k₂, P k₁ → Alarms.Popped k.ticked.alarms k₁.alarms → Alarms.Due k.ticked.alarms ev →
      k₁.alarms.nextEvent = some ev →
      (k₁.popped ev).kalarmEventFunc (k₁.alarms.event ev) = .ok k₂ → P k₂)
    (start : P k.ticked) (h : k.isrSystick = .ok k') : P k' ∧ Alarms.Popped k.ticked.alarms k'.alarms :=
  systickLoop_rule each start (.refl _) h

end Kernel
end BradypOS
