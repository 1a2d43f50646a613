import BradypOS.Alarm.Queue
import BradypOS.Alarm.Systick
import BradypOS.Kernel.Machine
import BradypOS.Thread.Table

/-!
# A timer tick fires the due events

The loop of the timer interrupt takes events off the head of the queue as long as they are due. In a
sorted queue these are all that are due, and the events behind them stay as they are.
-/

namespace BradypOS

namespace Alarms

variable {a a' a'' : Alarms} {l es es' : List EventRef} {ev : EventRef}

/-- The loop of `__isr_systick`, with the events it takes off, in their order. -/
inductive Fires : Alarms → List EventRef → Alarms → Prop where
  | stop {a : Alarms} (rests : a.hasPendingKalarm = false) : Fires a [] a
  | fire {a a' : Alarms} {ev : EventRef} {es : List EventRef} (head : a.nextEvent = some ev)
      (due : a.hasPendingKalarm = true) (rest : Fires (a.popKalarmEvent ev) es a') : Fires a (ev :: es) a'

theorem Fires.unique (h : Fires a es a') (h' : Fires a es' a'') : es = es' ∧ a' = a'' := by
  induction h generalizing es' with
  | stop rests =>
    cases h' with
    | stop => exact ⟨rfl, rfl⟩
    | fire head due =>
      rw [rests] at due
      cases due
  | fire head due rest ih =>
    cases h' with
    | stop rests =>
      rw [due] at rests
      cases rests
    | fire head' due' rest' =>
      rw [head] at head'
      cases head'
      obtain ⟨same, ends⟩ := ih rest'
      exact ⟨congrArg _ same, ends⟩

theorem Fires.time (h : Fires a es a') : a'.currentTime = a.currentTime := by
  induction h with
  | stop => rfl
  | fire head due rest ih => rw [ih, popKalarmEvent_currentTime]

/-- Taking events off clears links and nothing else. -/
structure SameEvents (a a' : Alarms) : Prop where
  when : ∀ e, (a'.event e).when = (a.event e).when
  type : ∀ e, (a'.event e).type = (a.event e).type
  data : ∀ e, (a'.event e).data = (a.event e).data

theorem SameEvents.refl (a : Alarms) : SameEvents a a := ⟨fun _ => rfl, fun _ => rfl, fun _ => rfl⟩

theorem SameEvents.trans (h : SameEvents a a') (h' : SameEvents a' a'') : SameEvents a a'' :=
  ⟨fun e => (h'.when e).trans (h.when e), fun e => (h'.type e).trans (h.type e), fun e => (h'.data e).trans (h.data e)⟩

theorem popKalarmEvent_same (a : Alarms) (ev : EventRef) : SameEvents a (a.popKalarmEvent ev) := by
  refine ⟨fun e => ?_, fun e => ?_, fun e => ?_⟩
  all_goals
    rw [popKalarmEvent_event]
    split
    · rfl
    · split <;> rfl

theorem Fires.same (h : Fires a es a') : SameEvents a a' := by
  induction h with
  | stop => exact .refl _
  | fire head due rest ih => exact (popKalarmEvent_same _ _).trans ih

/-- Whether an event is due by now. -/
def isDue (a : Alarms) (e : EventRef) : Bool := (a.event e).when ≤ a.currentTime

theorem SameEvents.isDue (h : SameEvents a a') (time : a'.currentTime = a.currentTime) : a'.isDue = a.isDue := by
  funext e
  unfold Alarms.isDue
  rw [h.when, time]

theorem hasPendingKalarm_head (head : a.nextEvent = some ev) : a.hasPendingKalarm = a.isDue ev := by
  simp [hasPendingKalarm, isDue, head]

theorem popKalarmEvent_next (e : EventRef) : ((a.popKalarmEvent ev).event e).next = if e = ev then none else (a.event e).next := by
  rw [popKalarmEvent_event]
  split
  · rfl
  · split <;> rfl

/-! ### The queue without its first event -/

theorem popKalarmEvent_chain (h : Theory.Chain a.nextOf none a.nextEvent ((ev :: l).map some)) :
    Theory.Chain (a.popKalarmEvent ev).nextOf none (a.popKalarmEvent ev).nextEvent (l.map some) := by
  have fresh : ev ∉ l := (List.nodup_cons.mp (nodup_of_chain h)).1
  apply h.tail.frame
  intro n member
  obtain ⟨d, listed, rfl⟩ := List.mem_map.mp member
  have other : d ≠ ev := fun same => fresh (same ▸ listed)
  rw [nextOf_some, nextOf_some, popKalarmEvent_next, if_neg other]

theorem next_of_first (h : Theory.Chain a.nextOf none a.nextEvent ((ev :: l).map some)) : (a.event ev).next = l.head? :=
  have links : Theory.Chain a.nextOf none a.nextEvent (([] ++ ev :: l).map some) := h
  next_of_chain links

theorem Queue.pop (q : Queue a (ev :: l)) : Queue (a.popKalarmEvent ev) l where
  chain := popKalarmEvent_chain q.chain
  first e first := by
    rw [popKalarmEvent_event]
    split
    · rfl
    · rw [if_pos (by rw [next_of_first q.chain]; exact first)]
  prev := by
    have nodup := nodup_of_chain q.chain
    have later : l.IsChain fun d e => (a.event e).prev = some d := (List.isChain_cons.mp q.prev).2
    refine later.imp_of_mem_tail_imp fun d e _ behind link => ?_
    have other : e ≠ ev := by
      rintro rfl
      exact (List.nodup_cons.mp nodup).1 (List.mem_of_mem_tail behind)
    have second : (a.event ev).next ≠ some e := by
      rw [next_of_first q.chain]
      intro first
      cases l with
      | nil => cases first
      | cons b l =>
        cases first
        exact (List.nodup_cons.mp (List.nodup_cons.mp nodup).2).1 behind
    rw [popKalarmEvent_event, if_neg other, if_neg second]
    exact link
  sorted := by
    have sorted := (List.pairwise_cons.mp q.sorted).2
    refine sorted.imp fun {d e} before => ?_
    rw [(popKalarmEvent_same a ev).when, (popKalarmEvent_same a ev).when]
    exact before

theorem Fires.unlinked {e : EventRef} (h : Fires a es a') (unlinked : (a.event e).next = none ∧ (a.event e).prev = none) :
    (a'.event e).next = none ∧ (a'.event e).prev = none := by
  induction h with
  | stop => exact unlinked
  | fire head due rest ih =>
    apply ih
    rw [popKalarmEvent_event]
    split
    · exact ⟨rfl, rfl⟩
    · split
      · exact ⟨unlinked.1, rfl⟩
      · exact unlinked

theorem Fires.clears (h : Fires a es a') {e : EventRef} (member : e ∈ es) : (a'.event e).next = none ∧ (a'.event e).prev = none := by
  induction h with
  | stop => cases member
  | @fire a a' ev es head due rest ih =>
    rcases List.mem_cons.mp member with rfl | later
    · apply rest.unlinked
      rw [popKalarmEvent_event, if_pos rfl]
      exact ⟨rfl, rfl⟩
    · exact ih later

/-- The tick ends, and has taken off the due events at the head. -/
theorem fires_of_chain (h : Theory.Chain a.nextOf none a.nextEvent (l.map some)) :
    ∃ a', Fires a (l.takeWhile a.isDue) a' ∧ Theory.Chain a'.nextOf none a'.nextEvent ((l.dropWhile a.isDue).map some) := by
  induction l generalizing a with
  | nil =>
    have empty : a.nextEvent = none := h.path
    exact ⟨a, .stop (by simp [hasPendingKalarm, empty]), h⟩
  | cons ev l ih =>
    have head : a.nextEvent = some ev := h.path.1
    cases due : a.isDue ev with
    | false =>
      rw [List.takeWhile_cons_of_neg (by simp [due]), List.dropWhile_cons_of_neg (by simp [due])]
      exact ⟨a, .stop (by rw [hasPendingKalarm_head head, due]), h⟩
    | true =>
      have same : (a.popKalarmEvent ev).isDue = a.isDue := (popKalarmEvent_same a ev).isDue (popKalarmEvent_currentTime a ev)
      obtain ⟨a', fires, rest⟩ := ih (popKalarmEvent_chain h)
      rw [same] at fires rest
      rw [List.takeWhile_cons_of_pos due, List.dropWhile_cons_of_pos due]
      exact ⟨a', .fire head (by rw [hasPendingKalarm_head head, due]) fires, rest⟩

theorem Queue.fires (q : Queue a (es ++ l)) (h : Fires a es a') : Queue a' l := by
  induction es generalizing a with
  | nil => cases h; exact q
  | cons ev es ih =>
    cases h with
    | fire head due rest => exact ih q.pop rest

/-- In a sorted queue the due events are the first ones. -/
theorem takeWhile_of_sorted {c : Word} {f : EventRef → Word} (sorted : l.Pairwise fun d e => f d ≤ f e) :
    l.takeWhile (fun e => decide (f e ≤ c)) = l.filter (fun e => decide (f e ≤ c)) ∧
      l.dropWhile (fun e => decide (f e ≤ c)) = l.filter (fun e => !decide (f e ≤ c)) := by
  induction l with
  | nil => exact ⟨rfl, rfl⟩
  | cons e l ih =>
    obtain ⟨before, sorted⟩ := List.pairwise_cons.mp sorted
    by_cases due : f e ≤ c
    · simp [due, ih sorted]
    · have late : ∀ d ∈ l, ¬ f d ≤ c := fun d member le => due (BitVec.le_trans (before d member) le)
      have none : l.filter (fun e => decide (f e ≤ c)) = [] := List.filter_eq_nil_iff.mpr fun d member => by simpa using late d member
      have all : l.filter (fun e => !decide (f e ≤ c)) = l := List.filter_eq_self.mpr fun d member => by simpa using late d member
      simp [due, none, all]

theorem length_le_of_static (nodup : l.Nodup) (static : ∀ i, .kevent i ∈ l → i < maxThreads) : l.length ≤ maxEvents := by
  have listed : l ⊆ .reschedule :: (List.range maxThreads).map .kevent := by
    intro e member
    cases e with
    | reschedule => simp
    | kevent i => simpa using static i member
  simpa [maxEvents, maxThreads] using (nodup.subperm listed).length_le

end Alarms

namespace Kernel

variable {k k' : Kernel} {es : List EventRef}

/-- One round of the tick's loop: the event comes off the queue and its handler runs. -/
def fire (k : Kernel) (ev : EventRef) : Fallible Kernel := (k.popped ev).kalarmEventFunc (k.alarms.event ev)

/-- An event whose handler does not panic: the thread that it is to wake is found. -/
def Wakeable (k : Kernel) (ev : KalarmEvent) : Prop := ev.type = .unpause → (k.findThreadByGlobalId ev.data).isSome

theorem kalarmEventFunc_table {ev : KalarmEvent} (h : k.kalarmEventFunc ev = .ok k') : SameTable k k' := by
  rcases kalarmEventFunc_cases h with ⟨_, rfl⟩ | ⟨t, _, _, rfl⟩ | ⟨_, _, rfl⟩ | ⟨t, _, _, _, rfl⟩
  · exact ⟨rfl, rfl, fun _ => rfl⟩
  · have table := SameTable.setThreadState (k.log (.unpaused t (k.state t) (k.allocated t))) t .runnable
    exact ⟨table.threadCount, table.threadList, table.globalId⟩
  · exact .refl k'
  · have told : SameTable k ((k.setIpcError t).reportError t (k.state t = .recvBlocked) .timeout) := ⟨rfl, rfl, fun _ => rfl⟩
    unfold timedOut
    generalize (k.setIpcError t).reportError t (k.state t = .recvBlocked) .timeout = k₁ at told ⊢
    have table := told.trans (SameTable.setThreadState k₁ t .runnable)
    exact ⟨table.threadCount, table.threadList, table.globalId⟩

theorem kalarmEventFunc_total {ev : KalarmEvent} (wakeable : k.Wakeable ev) : ∃ k', k.kalarmEventFunc ev = .ok k' := by
  unfold kalarmEventFunc
  split
  · exact ⟨_, rfl⟩
  · rename_i type
    obtain ⟨t, found⟩ := Option.isSome_iff_exists.mp (wakeable type)
    unfold unpauseThread
    rw [found]
    exact ⟨_, rfl⟩
  · exact ⟨_, rfl⟩

theorem Wakeable.same {ev : KalarmEvent} (h : k.Wakeable ev) (table : SameTable k k') : k'.Wakeable ev := by
  intro type
  rw [table.find]
  exact h type

theorem fire_ok {ev : EventRef} (wakeable : k.Wakeable (k.alarms.event ev)) :
    ∃ k', k.fire ev = .ok k' ∧ k'.alarms = k.alarms.popKalarmEvent ev ∧ SameTable k k' := by
  have table : SameTable k (k.popped ev) := ⟨rfl, rfl, fun _ => rfl⟩
  obtain ⟨k', handled⟩ := kalarmEventFunc_total (wakeable.same table)
  exact ⟨k', handled, kalarmEventFunc_alarms handled, table.trans (kalarmEventFunc_table handled)⟩

theorem systickLoop_fire {fuel : Nat} {ev : EventRef} (head : k.alarms.nextEvent = some ev)
    (due : k.alarms.hasPendingKalarm = true) (fired : k.fire ev = .ok k') : systickLoop (fuel + 1) k = systickLoop fuel k' := by
  have handled : (k.popped ev).kalarmEventFunc (k.alarms.event ev) = .ok k' := fired
  unfold popped at handled
  simp only [systickLoop, head, due, if_true, handled]
  rfl

theorem systickLoop_stop {fuel : Nat} (rests : k.alarms.hasPendingKalarm = false) : systickLoop (fuel + 1) k = .ok k := by
  rw [systickLoop]
  split
  · rfl
  · rw [if_neg (by simp [rests])]

/-- The loop runs the handlers of the events that it takes off, in their order, and then stops. -/
theorem systickLoop_fires {a' : Alarms} (h : Alarms.Fires k.alarms es a')
    (wakeable : ∀ e ∈ es, k.Wakeable (k.alarms.event e)) :
    ∃ k', es.foldlM fire k = .ok k' ∧ k'.alarms = a' ∧ ∀ fuel, es.length < fuel → systickLoop fuel k = .ok k' := by
  generalize start : k.alarms = a at h
  induction h generalizing k with
  | stop rests =>
    subst start
    refine ⟨k, rfl, rfl, fun fuel enough => ?_⟩
    obtain ⟨fuel, rfl⟩ := Nat.exists_eq_succ_of_ne_zero (Nat.ne_zero_of_lt enough)
    exact systickLoop_stop rests
  | @fire a a' ev es head due rest ih =>
    subst start
    obtain ⟨k₁, fired, alarms, table⟩ := fire_ok (wakeable ev (by simp))
    have same := Alarms.popKalarmEvent_same k.alarms ev
    obtain ⟨k', run, ends, loop⟩ := ih (fun e member => by
      intro type
      rw [alarms] at type ⊢
      rw [same.type] at type
      rw [same.data, table.find]
      exact wakeable e (by simp [member]) type) alarms
    refine ⟨k', ?_, ends, fun fuel enough => ?_⟩
    · rw [List.foldlM_cons, fired]
      exact run
    · obtain ⟨fuel, rfl⟩ := Nat.exists_eq_succ_of_ne_zero (Nat.ne_zero_of_lt enough)
      rw [systickLoop_fire head due fired]
      exact loop fuel (Nat.lt_of_succ_lt_succ enough)

/-- A tick of the clock fires the events that are due at the new time, in the order of the queue, each once,
and leaves the others queued as they are. -/
theorem isrSystick_fires {l : List EventRef} (q : Alarms.Queue k.alarms l) (static : ∀ i, .kevent i ∈ l → i < maxThreads)
    (wakeable : ∀ e ∈ l, k.Wakeable (k.alarms.event e)) (time : k.alarms.currentTime ≠ BitVec.allOnes 32) :
    ∃ k', k.isrSystick = .ok k' ∧
      k'.alarms.currentTime.toNat = k.alarms.currentTime.toNat + 1 ∧
      (l.filter fun e => (k.alarms.event e).when ≤ k'.alarms.currentTime).foldlM fire k.ticked = .ok k' ∧
      Alarms.Queue k'.alarms (l.filter fun e => !decide ((k.alarms.event e).when ≤ k'.alarms.currentTime)) ∧
      (∀ e ∈ l, (k.alarms.event e).when ≤ k'.alarms.currentTime → (k'.alarms.event e).next = none ∧ (k'.alarms.event e).prev = none) ∧
      Alarms.SameEvents k.alarms k'.alarms := by
  have start : Alarms.Queue k.ticked.alarms l := ⟨q.chain, q.first, q.prev, q.sorted⟩
  have nodup := Alarms.nodup_of_chain q.chain
  obtain ⟨a', fires, -⟩ := Alarms.fires_of_chain start.chain
  obtain ⟨due, rest⟩ := Alarms.takeWhile_of_sorted (c := k.ticked.alarms.currentTime) q.sorted
  have split : l.takeWhile k.ticked.alarms.isDue ++ l.dropWhile k.ticked.alarms.isDue = l := List.takeWhile_append_dropWhile
  have sub : ∀ e ∈ l.takeWhile k.ticked.alarms.isDue, e ∈ l := fun e member => List.takeWhile_subset _ member
  have table : SameTable k k.ticked := ⟨rfl, rfl, fun _ => rfl⟩
  obtain ⟨k', run, ends, loop⟩ := systickLoop_fires fires fun e member => (wakeable e (sub e member)).same table
  have now : k'.alarms.currentTime = k.ticked.alarms.currentTime := by
    rw [ends]
    exact fires.time
  have queue : Alarms.Queue k'.alarms (l.dropWhile k.ticked.alarms.isDue) := by
    rw [ends]
    apply Alarms.Queue.fires ?_ fires
    rw [split]
    exact start
  refine ⟨k', loop _ ?_, ?_, ?_, ?_, ?_, ?_⟩
  · have short := Alarms.length_le_of_static nodup static
    have part := (List.takeWhile_sublist (l := l) k.ticked.alarms.isDue).length_le
    omega
  · rw [now]
    show (k.alarms.currentTime + 1#32).toNat = _
    have below : k.alarms.currentTime.toNat ≠ 2 ^ 32 - 1 := fun last => time (BitVec.eq_of_toNat_eq (by simpa using last))
    bv_omega
  · rw [now, ← due]
    exact run
  · rw [now, ← rest]
    exact queue
  · intro e member late
    rw [ends]
    apply fires.clears
    rw [now] at late
    have kept : e ∈ l.filter fun e => decide ((k.alarms.event e).when ≤ k.ticked.alarms.currentTime) := by simpa using ⟨member, late⟩
    rw [← due] at kept
    exact kept
  · rw [ends]
    exact ⟨fires.same.when, fires.same.type, fires.same.data⟩

/-- Two events are due at time 4, one that wakes a thread and the end of the time slice; a third is due later. -/
def threeEvents : Alarms where
  nextEvent := some (.kevent 0)
  currentTime := 3#32
  event
    | .kevent 0 => { when := 4#32, type := .unpause, data := SmallSystem.secondId, prev := none, next := some .reschedule }
    | .reschedule => { when := 4#32, type := .reschedule, data := 0#32, prev := some (.kevent 0), next := some (.kevent 1) }
    | .kevent _ => { when := 9#32, type := .timeout, data := 0#32, prev := some .reschedule, next := none }

def beforeTick : Kernel :=
  (((init SmallSystem.bootInfo).setTable 1 fun _ => 0).setTcb 0 fun tcb => { tcb with globalId := SmallSystem.secondId }).setAlarms
    threeEvents

theorem threeEvents_queue : Alarms.Queue threeEvents [.kevent 0, .reschedule, .kevent 1] :=
  ⟨⟨⟨rfl, rfl, rfl, rfl⟩, by simp⟩, by simp [threeEvents], by simp [threeEvents], by simp [threeEvents]⟩

theorem isrSystick_fires_beforeTick : ∃ k', beforeTick.isrSystick = .ok k' ∧ Alarms.Queue k'.alarms [.kevent 1] := by
  obtain ⟨k', run, time, -, queue, -, -⟩ := isrSystick_fires (k := beforeTick) threeEvents_queue
    (by
      intro i member
      have small : i = 0 ∨ i = 1 := by simpa using member
      unfold maxThreads
      omega)
    (by
      intro e member type
      rcases List.mem_cons.mp member with rfl | later
      · decide
      · fin_cases later <;> cases type)
    (by decide)
  have now : k'.alarms.currentTime = 4#32 := BitVec.eq_of_toNat_eq time
  rw [now] at queue
  exact ⟨k', run, queue⟩

end Kernel
end BradypOS
