import BradypOS.Alarm.Tick

/-!
# Alarms and the wrap-around of the clock

The queue and the due check compare the due times as numbers. An event fires on time where its number
is reached by counting up from the next time, without a wrap on the way.
-/

namespace BradypOS.Alarms

variable {a a' : Alarms} {l front back es : List EventRef} {ev : EventRef} {d : Word}

/-- The clock at the next tick. -/
def ticked (a : Alarms) : Alarms := { a with currentTime := a.currentTime + 1#32 }

/-- The event comes off the queue in the tick with this number, counted from one, and in none before it. -/
inductive FiresAt (ev : EventRef) : Nat → Alarms → Prop where
  | now {a a' : Alarms} {es : List EventRef} (tick : Fires a.ticked es a') (fires : ev ∈ es) : FiresAt ev 1 a
  | later {a a' : Alarms} {es : List EventRef} {n : Nat} (tick : Fires a.ticked es a') (waits : ev ∉ es)
    (rest : FiresAt ev n a') : FiresAt ev (n + 1) a

/-- The ticks until an event is due. -/
def delay (a : Alarms) (e : EventRef) : Word := (a.event e).when - a.currentTime

theorem FiresAt.first {n : Nat} (h : FiresAt ev n a) (tick : Fires a.ticked es a') (fires : ev ∈ es) : n = 1 := by
  cases h with
  | now => rfl
  | later other waits =>
    rw [(other.unique tick).1] at waits
    exact absurd fires waits

/-- An event fires when the clock shows its time, if no event before it is due later. -/
theorem firesAt_of_chain {n : Nat} (h : Theory.Chain a.nextOf none a.nextEvent ((front ++ ev :: back).map some))
    (before : ∀ e ∈ front, (a.event e).when ≤ (a.event ev).when)
    (ahead : (a.currentTime + 1#32).toNat + n = (a.event ev).when.toNat) : FiresAt ev (n + 1) a := by
  induction n generalizing a front with
  | zero =>
    have now : (a.event ev).when = a.ticked.currentTime := BitVec.eq_of_toNat_eq ahead.symm
    have due : ∀ e ∈ front ++ [ev], a.ticked.isDue e = true := by
      intro e member
      apply decide_eq_true
      rw [← now]
      rcases List.mem_append.mp member with earlier | here
      · exact before e earlier
      · rw [List.mem_singleton.mp here]
        exact BitVec.le_refl _
    obtain ⟨a', fires, -⟩ := fires_of_chain (a := a.ticked) h
    refine .now fires ?_
    rw [List.append_cons, List.takeWhile_append_of_pos due]
    simp
  | succ n ih =>
    have late : a.ticked.isDue ev = false := by
      apply decide_eq_false
      show ¬ (a.event ev).when ≤ a.currentTime + 1#32
      rw [BitVec.le_def]
      omega
    obtain ⟨a', fires, rest⟩ := fires_of_chain (a := a.ticked) h
    refine .later fires (fun taken => ?_) ?_
    · have due := List.all_eq_true.mp List.all_takeWhile ev taken
      rw [late] at due
      cases due
    · have left : ∃ front', front'.Sublist front ∧ (front ++ ev :: back).dropWhile a.ticked.isDue = front' ++ ev :: back := by
        rw [List.dropWhile_append]
        split
        · exact ⟨[], List.nil_sublist front, by rw [List.dropWhile_cons_of_neg (by simp [late])]; rfl⟩
        · exact ⟨_, List.dropWhile_sublist _, rfl⟩
      obtain ⟨front', sub, same⟩ := left
      rw [same] at rest
      apply ih rest
      · intro e member
        rw [fires.same.when, fires.same.when]
        exact before e (sub.subset member)
      · rw [fires.same.when, fires.time]
        show (a.currentTime + 1#32 + 1#32).toNat + n = (a.event ev).when.toNat
        have room := (a.event ev).when.isLt
        bv_omega

theorem findInsertionPointLoop_ends {fuel : Nat} {w : Word}
    (h : Theory.Chain a.nextOf none a.nextEvent ((front ++ back).map some)) (enough : back.length < fuel) :
    ∃ slot, a.findInsertionPointLoop w fuel (slotBehind front) = .ok slot := by
  induction back generalizing fuel front with
  | nil =>
    obtain ⟨fuel, rfl⟩ := Nat.exists_eq_succ_of_ne_zero (Nat.ne_zero_of_lt enough)
    unfold findInsertionPointLoop
    rw [read_slotBehind h]
    exact ⟨_, rfl⟩
  | cons e back ih =>
    obtain ⟨fuel, rfl⟩ := Nat.exists_eq_succ_of_ne_zero (Nat.ne_zero_of_lt enough)
    unfold findInsertionPointLoop
    rw [read_slotBehind h]
    dsimp only [List.head?_cons]
    split
    · rw [← slotBehind_concat front e]
      apply ih ?_ (Nat.lt_of_succ_lt_succ enough)
      simpa using h
    · exact ⟨_, rfl⟩

theorem registerKalarmEvent_ends (h : Theory.Chain a.nextOf none a.nextEvent (l.map some)) (fresh : ev ∉ l)
    (short : l.length ≤ maxEvents) : ∃ a', a.registerKalarmEvent ev = .ok a' := by
  have links : Theory.Chain a.nextOf none a.nextEvent (([] ++ l).map some) := h
  obtain ⟨slot, found⟩ := findInsertionPointLoop_ends (w := (a.event ev).when) links (Nat.lt_succ_of_le short)
  have point : a.findInsertionPoint (a.event ev).when = .ok slot := found
  obtain ⟨front, back, rfl, rfl, -, -⟩ := findInsertionPoint_spec h point
  have other : a.read (slotBehind front) ≠ some ev := by
    rw [read_slotBehind h]
    intro here
    exact fresh (List.mem_append_right _ (List.mem_of_mem_head? here))
  unfold registerKalarmEvent
  rw [point]
  have asserted : kassert (a.read (slotBehind front) ≠ some ev) .eventAtInsertionPoint = .ok () :=
    kassert_of (decide_eq_true other)
  show ∃ a', (kassert (a.read (slotBehind front) ≠ some ev) .eventAtInsertionPoint >>= fun _ => _) = .ok a'
  rw [asserted]
  cases a.read (slotBehind front) with
  | none => exact ⟨_, rfl⟩
  | some old => exact ⟨_, rfl⟩

theorem registerKalarmEvent_currentTime (done : a.registerKalarmEvent ev = .ok a') : a'.currentTime = a.currentTime := by
  unfold registerKalarmEvent at done
  obtain ⟨slot, _, done⟩ := bind_ok done
  obtain ⟨_, _, done⟩ := bind_ok done
  have write : (a.write (some ev) slot).currentTime = a.currentTime := by cases slot <;> rfl
  cases next : a.read slot with
  | none =>
    rw [next] at done
    cases done
    exact write
  | some old =>
    rw [next] at done
    dsimp only at done
    split at done <;> cases done <;> exact write

theorem setEvent_same (e : EventRef) {f : KalarmEvent → KalarmEvent}
    (links : ∀ d, (f d).when = d.when ∧ (f d).type = d.type ∧ (f d).data = d.data) : SameEvents a (a.setEvent e f) := by
  refine ⟨fun d => ?_, fun d => ?_, fun d => ?_⟩
  all_goals
    unfold setEvent
    by_cases here : d = e
    · subst here
      simp [links]
    · simp [here]

theorem setNext_same (e : EventRef) (n : Option EventRef) : SameEvents a (a.setNext e n) := setEvent_same e fun _ => ⟨rfl, rfl, rfl⟩

theorem setPrev_same (e : EventRef) (p : Option EventRef) : SameEvents a (a.setPrev e p) := setEvent_same e fun _ => ⟨rfl, rfl, rfl⟩

theorem write_same (slot : EventSlot) (v : Option EventRef) : SameEvents a (a.write v slot) := by
  cases slot with
  | head => exact ⟨fun _ => rfl, fun _ => rfl, fun _ => rfl⟩
  | next e => exact setNext_same e v

theorem unlinkEvent_same (a : Alarms) (ev : EventRef) : SameEvents a (a.unlinkEvent ev) := by
  have headed : ∀ b : Alarms, SameEvents b (if b.nextEvent = some ev then { b with nextEvent := (b.event ev).next } else b) := by
    intro b
    split
    · exact ⟨fun _ => rfl, fun _ => rfl, fun _ => rfl⟩
    · exact .refl b
  unfold unlinkEvent
  cases (a.event ev).next with
  | none =>
    dsimp only
    cases (a.event ev).prev with
    | none => exact headed a
    | some p => exact (setNext_same p _).trans (headed _)
  | some n =>
    dsimp only
    cases ((a.setPrev n (a.event ev).prev).event ev).prev with
    | none => exact (setPrev_same n _).trans (headed _)
    | some p => exact ((setPrev_same n _).trans (setNext_same p _)).trans (headed _)

theorem updateKalarmEvent_type {a a' : Alarms} {ev : EventRef} {w : Word} (done : a.updateKalarmEvent ev w = .ok a')
    (e : EventRef) : (a'.event e).type = (a.event e).type := by
  obtain ⟨slot, _, rfl⟩ := updateKalarmEvent_ok done
  have moved : (((a.unlinkEvent ev).setEvent ev fun e => { e with when := w }).event e).type = (a.event e).type := by
    refine Eq.trans ?_ ((unlinkEvent_same a ev).type e)
    unfold setEvent
    by_cases here : e = ev
    · subst here
      simp
    · simp [here]
  unfold placed
  dsimp only
  rw [(write_same _ _).type e]
  split
  · rw [(setNext_same _ _).type e, (setPrev_same _ _).type e, moved]
  · rw [(setPrev_same _ _).type e, (setNext_same _ _).type e, (setPrev_same _ _).type e, moved]

/-- Registering writes links and nothing else. -/
theorem registerKalarmEvent_same (done : a.registerKalarmEvent ev = .ok a') : SameEvents a a' := by
  unfold registerKalarmEvent at done
  obtain ⟨slot, _, done⟩ := bind_ok done
  obtain ⟨_, _, done⟩ := bind_ok done
  have linked := (write_same (a := a) slot (some ev)).trans (setPrev_same ev (a.read slot))
  cases next : a.read slot with
  | none =>
    rw [next] at done linked
    cases done
    exact linked
  | some old =>
    rw [next] at done linked
    dsimp only at done
    split at done
    · cases done
      exact linked.trans (setNext_same _ _)
    · cases done
      exact (linked.trans (setPrev_same _ _)).trans (setNext_same _ _)

theorem registerKalarmEvent_delay (done : a.registerKalarmEvent ev = .ok a') : a'.delay = a.delay := by
  funext e
  unfold delay
  rw [(registerKalarmEvent_same done).when, registerKalarmEvent_currentTime done]

/-- The events of the queue and `ev`, linked in the order of their due times. -/
def InDueOrder (a : Alarms) (l : List EventRef) (ev : EventRef) : Prop :=
  ∃ l' : List EventRef, Theory.Chain a.nextOf none a.nextEvent (l'.map some) ∧ l'.Perm (ev :: l) ∧
    l'.Pairwise fun d e => a.delay d ≤ a.delay e

section Registered

variable (h : Theory.Chain a.nextOf none a.nextEvent (l.map some)) (fresh : ev ∉ l) (unlinked : (a.event ev).next = none)
  (done : a.registerKalarmEvent ev = .ok a')

include h fresh unlinked done

theorem last_of_registered (complete : ∃ l' : List EventRef, Theory.Chain a'.nextOf none a'.nextEvent (l'.map some) ∧ l'.Perm (ev :: l)) :
    Theory.Chain a'.nextOf none a'.nextEvent ((l ++ [ev]).map some) ∧ ∀ e ∈ l, (a.event e).when < (a.event ev).when := by
  obtain ⟨l', chain', perm⟩ := complete
  obtain ⟨front, back, rfl, chain, -, before, -⟩ := registerKalarmEvent_spec h fresh unlinked done
  rw [unique_of_chain chain' chain] at perm
  have length := perm.length_eq
  simp only [List.length_append, List.length_cons, List.length_nil] at length
  have nothing : back = [] := List.eq_nil_of_length_eq_zero (by omega)
  rw [nothing, List.append_nil]
  exact ⟨chain, before⟩

theorem registered_last (before : ∀ e ∈ l, (a.event e).when < (a.event ev).when) :
    Theory.Chain a'.nextOf none a'.nextEvent ((l ++ [ev]).map some) := by
  obtain ⟨front, back, rfl, chain, -, -, after⟩ := registerKalarmEvent_spec h fresh unlinked done
  cases back with
  | nil => simpa using chain
  | cons b back => exact absurd (after b rfl) (BitVec.not_le.mpr (before b (by simp)))

end Registered

theorem when_eq (a : Alarms) (e : EventRef) : (a.event e).when = a.currentTime + a.delay e := by
  unfold delay
  bv_omega

/-- Where the new time is behind the wrap of the clock, the next tick takes off every event that is due no later than its number. -/
theorem firesAt_wrapped (h : Theory.Chain a.nextOf none a.nextEvent ((l ++ [ev]).map some))
    (before : ∀ e ∈ l, (a.event e).when < (a.event ev).when) (time : (a.event ev).when = a.currentTime + d)
    (small : d.toNat < 2 ^ 31) (behind : 2 ^ 32 ≤ a.currentTime.toNat + d.toNat) (room : a.currentTime ≠ BitVec.allOnes 32) {n : Nat}
    (fires : FiresAt ev n a) : n = 1 := by
  have top : a.currentTime.toNat ≠ 2 ^ 32 - 1 := fun last => room (BitVec.eq_of_toNat_eq (by simpa using last))
  have last : (a.event ev).when ≤ a.currentTime + 1#32 := by
    rw [time]
    bv_omega
  have due : ∀ e ∈ l ++ [ev], a.ticked.isDue e = true := by
    intro e member
    apply decide_eq_true
    show (a.event e).when ≤ a.currentTime + 1#32
    rcases List.mem_append.mp member with earlier | here
    · exact BitVec.le_trans (BitVec.le_of_lt (before e earlier)) last
    · rw [List.mem_singleton.mp here]
      exact last
  obtain ⟨a', tick, -⟩ := fires_of_chain (a := a.ticked) h
  have taken : ev ∈ (l ++ [ev]).takeWhile a.ticked.isDue := by
    rw [← List.append_nil (l ++ [ev]), List.takeWhile_append_of_pos due]
    simp
  exact fires.first tick taken

/-- Registering an event in a queue that is ordered by due times puts it at its place, and it fires on time, if and
only if it is due after every queued event and its time is not behind the wrap of the clock, unless the clock wraps
at the next tick: another event is cut off, or the time passes for long over. -/
theorem registerKalarmEvent_wrap_iff (h : Theory.Chain a.nextOf none a.nextEvent (l.map some))
    (static : ∀ i, .kevent i ∈ l → i < maxThreads) (sorted : l.Pairwise fun d e => a.delay d ≤ a.delay e)
    (ahead : ∀ e ∈ l, 0 < (a.delay e).toNat ∧ (a.delay e).toNat < 2 ^ 31) (fresh : ev ∉ l)
    (unlinked : (a.event ev).next = none ∧ (a.event ev).prev = none) (time : (a.event ev).when = a.currentTime + d)
    (soon : 0 < d.toNat ∧ d.toNat < 2 ^ 31) :
    (∃ a', a.registerKalarmEvent ev = .ok a' ∧ InDueOrder a' l ev ∧ FiresAt ev d.toNat a') ↔
      (∀ e ∈ l, a.delay e < d) ∧ (a.currentTime.toNat + d.toNat < 2 ^ 32 ∨ a.currentTime = BitVec.allOnes 32) := by
  have own : a.delay ev = d := by
    unfold delay
    rw [time]
    bv_omega
  constructor
  · rintro ⟨a', done, ⟨l', chain', perm, order⟩, fires⟩
    obtain ⟨chain, before⟩ := last_of_registered h fresh unlinked.1 done ⟨l', chain', perm⟩
    have when := (registerKalarmEvent_same done).when
    have now := registerKalarmEvent_currentTime done
    rw [unique_of_chain chain' chain, registerKalarmEvent_delay done] at order
    refine ⟨fun e member => ?_, ?_⟩
    · have le : a.delay e ≤ a.delay ev := (List.pairwise_append.mp order).2.2 e member ev (by simp)
      have lt := before e member
      rw [own] at le
      rw [when_eq a e, when_eq a ev, own] at lt
      bv_omega
    · by_contra wraps
      obtain ⟨behind, inside⟩ := not_or.mp wraps
      have before' : ∀ e ∈ l, (a'.event e).when < (a'.event ev).when := by
        intro e member
        rw [when, when]
        exact before e member
      have room : a'.currentTime ≠ BitVec.allOnes 32 := by
        rw [now]
        exact inside
      have once := firesAt_wrapped chain before' (by rw [when, now, time]) soon.2 (by rw [now]; omega) room fires
      have low := a.currentTime.isLt
      apply inside
      apply BitVec.eq_of_toNat_eq
      rw [BitVec.toNat_allOnes]
      omega
  · intro ⟨before, clock⟩
    have early : ∀ e ∈ l, (a.event e).when < (a.event ev).when := by
      intro e member
      have lt := before e member
      have pos := (ahead e member).1
      rw [when_eq a e, when_eq a ev, own]
      rcases clock with inside | last
      · bv_omega
      · have top : a.currentTime.toNat = 2 ^ 32 - 1 := by simp [last]
        bv_omega
    obtain ⟨a', done⟩ := registerKalarmEvent_ends h fresh (length_le_of_static (nodup_of_chain h) static)
    have chain := registered_last h fresh unlinked.1 done early
    have when := (registerKalarmEvent_same done).when
    have now := registerKalarmEvent_currentTime done
    refine ⟨a', done, ⟨l ++ [ev], chain, List.perm_append_singleton ev l, ?_⟩, ?_⟩
    · rw [registerKalarmEvent_delay done]
      refine List.pairwise_append.mpr ⟨sorted, List.pairwise_singleton _ ev, fun e member f here => ?_⟩
      rw [List.mem_singleton.mp here, own]
      exact BitVec.le_of_lt (before e member)
    · obtain ⟨n, ticks⟩ := Nat.exists_eq_succ_of_ne_zero (Nat.ne_of_gt soon.1)
      rw [ticks]
      have links : Theory.Chain a'.nextOf none a'.nextEvent ((l ++ ev :: []).map some) := chain
      apply firesAt_of_chain links
      · intro e member
        rw [when, when]
        exact BitVec.le_of_lt (early e member)
      · rw [when, now, time]
        rcases clock with inside | last
        · bv_omega
        · have top : a.currentTime.toNat = 2 ^ 32 - 1 := by simp [last]
          bv_omega

/-- The clock is at its maximum, and the time slice ends at time 3. -/
def lastTime : Alarms where
  nextEvent := some .reschedule
  currentTime := 0xFFFFFFFF#32
  event
    | .reschedule => { when := 3#32, type := .reschedule, data := 0#32, prev := none, next := none }
    | .kevent _ => { when := 7#32, type := .timeout, data := 0#32, prev := none, next := none }

theorem registerKalarmEvent_wrap_iff_lastTime : ∃ a', lastTime.registerKalarmEvent (.kevent 3) = .ok a' ∧
    InDueOrder a' [.reschedule] (.kevent 3) ∧ FiresAt (.kevent 3) 8 a' :=
  (registerKalarmEvent_wrap_iff (a := lastTime) (l := [.reschedule]) (d := 8#32) ⟨⟨rfl, rfl⟩, by simp⟩ (by simp) (by simp) (by simp; decide) (by simp) ⟨rfl, rfl⟩ rfl
    (by decide)).mpr ⟨by simp; decide, .inr rfl⟩

/-- Two ticks before the clock wraps. -/
def beforeWrap : Alarms where
  nextEvent := none
  currentTime := 0xFFFFFFFE#32
  event _ := { when := 1#32, type := .timeout, data := 0#32, prev := none, next := none }

/-- An event due in three ticks, behind the wrap, fires at the first one. -/
theorem registerKalarmEvent_early : (beforeWrap.event (.kevent 3)).when = beforeWrap.currentTime + 3#32 ∧
    ¬ ∃ a', beforeWrap.registerKalarmEvent (.kevent 3) = .ok a' ∧ FiresAt (.kevent 3) 3 a' := by
  refine ⟨rfl, ?_⟩
  intro ⟨a', done, fires⟩
  have head : a'.ticked.nextEvent = some (.kevent 3) := by cases done; rfl
  have due : a'.ticked.hasPendingKalarm = true := by cases done; rfl
  have rests : (a'.ticked.popKalarmEvent (.kevent 3)).hasPendingKalarm = false := by cases done; rfl
  exact absurd (fires.first (.fire head due (.stop rests)) (by simp)) (by decide)

end BradypOS.Alarms
