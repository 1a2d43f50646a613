import BradypOS.Kernel.Kalarm
import BradypOS.Theory.Chain

/-!
# The alarm queue

A queue is the list of its events, linked from `next_event` and back, by ascending time. Both ways of
putting an event into it find its place and then link it in front of nothing: what should come
behind the event is cut off, and the event does not know what is before it.
-/

namespace BradypOS.Alarms

variable {a a' : Alarms} {l front back : List EventRef} {ev : EventRef} {w : Word}

def nextOf (a : Alarms) (link : Option EventRef) : Option EventRef := link.bind fun e => (a.event e).next

/-- The events of `l`, each with the one before it as its `prev`. -/
structure Queue (a : Alarms) (l : List EventRef) : Prop where
  chain : Theory.Chain a.nextOf none a.nextEvent (l.map some)
  first : ∀ e ∈ l.head?, (a.event e).prev = none
  prev : l.IsChain fun d e => (a.event e).prev = some d
  sorted : l.Pairwise fun d e => (a.event d).when ≤ (a.event e).when

theorem nodup_of_chain {p : Option EventRef} (h : Theory.Chain a.nextOf none p (l.map some)) : l.Nodup :=
  List.Nodup.of_map _ h.nodup

theorem unique_of_chain {p : Option EventRef} {l' : List EventRef} (h : Theory.Chain a.nextOf none p (l.map some))
    (h' : Theory.Chain a.nextOf none p (l'.map some)) : l = l' :=
  List.map_injective_iff.mpr (Option.some_injective EventRef) (h.unique h')

/-! ### Links -/

@[simp] theorem nextOf_none : a.nextOf none = none := rfl

@[simp] theorem nextOf_some : a.nextOf (some ev) = (a.event ev).next := rfl

@[simp] theorem nextOf_setPrev (e : EventRef) (p : Option EventRef) : (a.setPrev e p).nextOf = a.nextOf := by
  funext link
  cases link with
  | none => rfl
  | some d =>
    by_cases here : d = e
    · simp [setPrev, setEvent, here]
    · simp [setPrev, setEvent, here]

@[simp] theorem nextOf_setWhen (e : EventRef) (w : Word) : (a.setEvent e fun ev => { ev with when := w }).nextOf = a.nextOf := by
  funext link
  cases link with
  | none => rfl
  | some d =>
    by_cases here : d = e
    · simp [setEvent, here]
    · simp [setEvent, here]

theorem nextOf_setNext (e : EventRef) (n : Option EventRef) : (a.setNext e n).nextOf = Function.update a.nextOf (some e) n := by
  funext link
  cases link with
  | none => simp
  | some d =>
    by_cases here : d = e
    · simp [setNext, setEvent, here]
    · simp [setNext, setEvent, here]

@[simp] theorem nextEvent_setPrev (e : EventRef) (p : Option EventRef) : (a.setPrev e p).nextEvent = a.nextEvent := rfl

@[simp] theorem nextEvent_setNext (e : EventRef) (p : Option EventRef) : (a.setNext e p).nextEvent = a.nextEvent := rfl

@[simp] theorem nextEvent_setEvent (e : EventRef) (f : KalarmEvent → KalarmEvent) : (a.setEvent e f).nextEvent = a.nextEvent := rfl

/-! ### The insertion point -/

/-- The link behind the events of `front`. -/
def slotBehind (front : List EventRef) : EventSlot :=
  match front.getLast? with
  | none => .head
  | some e => .next e

theorem slotBehind_concat (front : List EventRef) (e : EventRef) : slotBehind (front ++ [e]) = .next e := by
  simp [slotBehind]

theorem read_slotBehind (h : Theory.Chain a.nextOf none a.nextEvent ((front ++ back).map some)) :
    a.read (slotBehind front) = back.head? := by
  rw [List.map_append] at h
  obtain ⟨q, path, rest⟩ := Theory.Path.append_iff.mp h.path
  have next : q = back.head? := by
    cases back with
    | nil => exact rest
    | cons e back => exact rest.1
  subst next
  induction front using List.reverseRecOn with
  | nil => exact path
  | append_singleton front e _ =>
    rw [slotBehind_concat]
    rw [List.map_append] at path
    exact path.next_last

theorem read_head (h : Theory.Chain a.nextOf none a.nextEvent (l.map some)) : a.nextEvent = l.head? :=
  have links : Theory.Chain a.nextOf none a.nextEvent (([] ++ l).map some) := h
  read_slotBehind links

theorem findInsertionPointLoop_spec {fuel : Nat} {slot : EventSlot}
    (h : Theory.Chain a.nextOf none a.nextEvent ((front ++ back).map some))
    (found : a.findInsertionPointLoop w fuel (slotBehind front) = .ok slot) :
    ∃ mid rest, back = mid ++ rest ∧ slot = slotBehind (front ++ mid) ∧ (∀ e ∈ mid, (a.event e).when < w) ∧
      ∀ e ∈ rest.head?, w ≤ (a.event e).when := by
  induction fuel generalizing front back with
  | zero => cases found
  | succ fuel ih =>
    unfold findInsertionPointLoop at found
    rw [read_slotBehind h] at found
    cases back with
    | nil =>
      cases found
      exact ⟨[], [], rfl, by simp, by simp, by simp⟩
    | cons e back =>
      simp only [List.head?_cons] at found
      split at found
      · rename_i earlier
        rw [← slotBehind_concat front e] at found
        have links : Theory.Chain a.nextOf none a.nextEvent (((front ++ [e]) ++ back).map some) := by simpa using h
        obtain ⟨mid, rest, rfl, slot, before, after⟩ := ih links found
        refine ⟨e :: mid, rest, rfl, by simpa using slot, ?_, after⟩
        intro d member
        rcases List.mem_cons.mp member with rfl | later
        · exact earlier
        · exact before d later
      · rename_i late
        cases found
        exact ⟨[], e :: back, rfl, by simp, by simp, by simpa using late⟩

theorem findInsertionPoint_spec {slot : EventSlot} (h : Theory.Chain a.nextOf none a.nextEvent (l.map some))
    (found : a.findInsertionPoint w = .ok slot) :
    ∃ front back, l = front ++ back ∧ slot = slotBehind front ∧ (∀ e ∈ front, (a.event e).when < w) ∧
      ∀ e ∈ back.head?, w ≤ (a.event e).when :=
  have links : Theory.Chain a.nextOf none a.nextEvent (([] ++ l).map some) := h
  findInsertionPointLoop_spec links found

theorem chain_of_suffix {next : Option EventRef → Option EventRef} {p : Option EventRef} {tail : List EventRef}
    (h : Theory.Chain next none p (l.map some)) (suffix : tail <:+ l) : Theory.Chain next none tail.head? (tail.map some) := by
  obtain ⟨front, rfl⟩ := suffix
  rw [List.map_append] at h
  obtain ⟨q, rest⟩ := h.suffix
  cases tail with
  | nil => exact ⟨rfl, by simp⟩
  | cons e tail =>
    have here : q = some e := rest.path.1
    rw [here] at rest
    exact rest

/-- An event written into a link takes the place of what is behind it. -/
theorem write_chain {tail : List EventRef} (h : Theory.Chain a.nextOf none a.nextEvent ((front ++ back).map some))
    (fresh : ev ∉ front ++ back) (rest : tail <:+ back) (onward : (a.event ev).next = tail.head?) :
    Theory.Chain (a.write (some ev) (slotBehind front)).nextOf none (a.write (some ev) (slotBehind front)).nextEvent
      ((front ++ ev :: tail).map some) := by
  have nodup := nodup_of_chain h
  have last := chain_of_suffix h (rest.trans (List.suffix_append front back))
  have sub : ∀ e ∈ tail, e ∈ back := fun e member => rest.subset member
  refine ⟨?_, by simp⟩
  induction front using List.reverseRecOn with
  | nil =>
    refine ⟨rfl, ?_⟩
    show Theory.Path a.nextOf (a.event ev).next _ none
    rw [onward]
    exact last.path
  | append_singleton front c _ =>
    rw [slotBehind_concat]
    obtain ⟨q, path, _⟩ := Theory.Path.append_iff.mp (List.map_append ▸ h.path)
    show Theory.Path (a.setNext c (some ev)).nextOf a.nextEvent _ none
    rw [nextOf_setNext, List.map_append]
    refine Theory.Path.append_iff.mpr ⟨some ev, ?_, rfl, ?_⟩
    · rw [List.map_append] at path ⊢
      apply path.relink
      intro member
      obtain ⟨d, listed, same⟩ := List.mem_map.mp member
      rw [Option.some.inj same] at listed
      simp only [List.append_assoc] at nodup
      exact (List.nodup_append.mp nodup).2.2 c listed c (by simp) rfl
    · have other : some ev ≠ some c := by
        intro same
        exact fresh (by simp [Option.some.inj same])
      rw [Function.update_of_ne other, nextOf_some, onward]
      apply last.path.frame
      intro n member
      obtain ⟨d, listed, rfl⟩ := List.mem_map.mp member
      apply Function.update_of_ne
      intro same
      rw [Option.some.inj same] at listed
      exact (List.nodup_append.mp nodup).2.2 c (by simp) c (sub c listed) rfl

/-! ### Registering -/

/-- The events of the queue and `ev`, linked, sorted and at their times. -/
def Registered (a a' : Alarms) (l : List EventRef) (ev : EventRef) : Prop :=
  (∃ l', Queue a' l' ∧ l'.Perm (ev :: l)) ∧ ∀ e, (a'.event e).when = (a.event e).when

/-- What `register_kalarm_event` leaves: the events before the insertion point, and `ev` without a
`next`; its `prev` is what was behind that point. -/
theorem registerKalarmEvent_spec (h : Theory.Chain a.nextOf none a.nextEvent (l.map some)) (fresh : ev ∉ l)
    (unlinked : (a.event ev).next = none) (done : a.registerKalarmEvent ev = .ok a') :
    ∃ front back, l = front ++ back ∧ Theory.Chain a'.nextOf none a'.nextEvent ((front ++ [ev]).map some) ∧
      (back = [] → (a'.event ev).prev = none) ∧ (∀ e ∈ front, (a.event e).when < (a.event ev).when) ∧
      ∀ e ∈ back.head?, (a.event ev).when ≤ (a.event e).when := by
  unfold registerKalarmEvent at done
  obtain ⟨slot, found, done⟩ := bind_ok done
  obtain ⟨front, back, rfl, rfl, before, after⟩ := findInsertionPoint_spec h found
  obtain ⟨_, _, done⟩ := bind_ok done
  rw [read_slotBehind h] at done
  have written := write_chain h fresh List.nil_suffix unlinked
  refine ⟨front, back, rfl, ?_⟩
  rw [← and_assoc]
  refine ⟨?_, before, after⟩
  cases back with
  | nil =>
    cases done
    refine ⟨?_, fun _ => ?_⟩
    · rw [nextOf_setPrev]
      exact written
    · simp [setPrev, setEvent]
  | cons b back =>
    have nodup := nodup_of_chain h
    have cut : Theory.Chain (Function.update (a.write (some ev) (slotBehind front)).nextOf (some b) (some ev)) none
        (a.write (some ev) (slotBehind front)).nextEvent ((front ++ [ev]).map some) := by
      apply written.frame
      intro n member
      obtain ⟨d, listed, rfl⟩ := List.mem_map.mp member
      apply Function.update_of_ne
      intro same
      cases same
      rcases List.mem_append.mp listed with before | here
      · exact (List.nodup_append.mp nodup).2.2 b before b (by simp) rfl
      · exact fresh (by simp [List.mem_singleton.mp here])
    dsimp only [List.head?_cons] at done
    refine ⟨?_, fun none => by cases none⟩
    split at done
    · cases done
      rw [nextOf_setNext, nextOf_setPrev]
      exact cut
    · cases done
      rw [nextOf_setNext, nextOf_setPrev, nextOf_setPrev]
      exact cut

/-- Registering keeps the queue whole if and only if it is empty: in front of another event the new one
cuts the queue off, and behind the last one it does not link back. -/
theorem registerKalarmEvent_iff (q : Queue a l) (fresh : ev ∉ l) (unlinked : (a.event ev).next = none ∧ (a.event ev).prev = none) :
    (∃ a', a.registerKalarmEvent ev = .ok a' ∧ Registered a a' l ev) ↔ l = [] := by
  constructor
  · rintro ⟨a', done, ⟨l', q', perm⟩, _⟩
    obtain ⟨front, back, rfl, chain, last, -, -⟩ := registerKalarmEvent_spec q.chain fresh unlinked.1 done
    have same := unique_of_chain q'.chain chain
    subst same
    have length := perm.length_eq
    simp only [List.length_append, List.length_cons, List.length_nil] at length
    have nothing : back = [] := List.eq_nil_of_length_eq_zero (by omega)
    subst nothing
    have alone : front = [] := by
      induction front using List.reverseRecOn with
      | nil => rfl
      | append_singleton front c _ =>
        have back := q'.prev
        rw [List.append_assoc, List.isChain_append] at back
        have linked : (a'.event ev).prev = some c := by simpa using back.2.1
        rw [last rfl] at linked
        cases linked
    rw [alone, List.append_nil]
  · rintro rfl
    have empty : a.nextEvent = none := q.chain.path
    have found : a.findInsertionPoint (a.event ev).when = .ok .head := by
      simp [findInsertionPoint, findInsertionPointLoop, read, empty]
    refine ⟨(a.write (some ev) .head).setPrev ev none, ?_, ⟨[ev], ⟨?_, ?_, ?_, ?_⟩, .refl _⟩, fun e => ?_⟩
    · unfold registerKalarmEvent
      rw [found]
      simp [read, empty, kassert]
      rfl
    · refine ⟨⟨rfl, ?_⟩, by simp⟩
      rw [nextOf_setPrev]
      exact unlinked.1
    · simp [setPrev, setEvent]
    · simp
    · simp
    · by_cases here : e = ev
      · simp [setPrev, setEvent, write, here]
      · simp [setPrev, setEvent, write, here]

/-- The end of the time slice is queued for time 10, and the event of the second thread has time 5. -/
def slice : Alarms where
  nextEvent := some .reschedule
  currentTime := 3#32
  event
    | .reschedule => { when := 10#32, type := .reschedule, data := 0#32, prev := none, next := none }
    | .kevent _ => { when := 5#32, type := .unpause, data := 0#32, prev := none, next := none }

theorem slice_queue : Queue slice [.reschedule] := ⟨⟨⟨rfl, rfl⟩, by simp⟩, by simp [slice], by simp, by simp⟩

/-- Before the first event is queued. -/
def noEvents : Alarms := { slice with nextEvent := none }

theorem noEvents_queue : Queue noEvents [] := ⟨⟨rfl, by simp⟩, by simp, by simp, by simp⟩

theorem registerKalarmEvent_iff_noEvents : ∃ a', noEvents.registerKalarmEvent (.kevent 3) = .ok a' ∧ Registered noEvents a' [] (.kevent 3) :=
  (registerKalarmEvent_iff noEvents_queue (by simp) ⟨rfl, rfl⟩).mpr rfl

/-- The second thread's event is due first, and nothing is linked behind it. -/
theorem registerKalarmEvent_loses : Queue slice [.reschedule] ∧ (slice.event (.kevent 3)).next = none ∧
    (slice.event (.kevent 3)).prev = none ∧ ∃ a', slice.registerKalarmEvent (.kevent 3) = .ok a' ∧
      a'.nextEvent = some (.kevent 3) ∧ (a'.event (.kevent 3)).next = none ∧ ¬ Registered slice a' [.reschedule] (.kevent 3) := by
  refine ⟨slice_queue, rfl, rfl, _, rfl, rfl, rfl, ?_⟩
  rintro ⟨⟨l', q, perm⟩, _⟩
  have same : l' = [.kevent 3] := unique_of_chain q.chain ⟨⟨rfl, rfl⟩, by simp⟩
  rw [same] at perm
  simpa using perm.length_eq

/-! ### Moving -/

/-- The part of `update_kalarm_event` behind `unlink_event`. -/
def placed (a : Alarms) (insPtr : EventSlot) (ev : EventRef) (when : Word) : Alarms :=
  let a := a.setEvent ev fun e => { e with when }
  let a := a.setPrev ev (a.read insPtr)
  let next := match a.read insPtr with
    | none => none
    | some old => (a.event old).next
  let a := a.setNext ev next
  let a := match a.read insPtr with
    | none => a
    | some old => a.setPrev old (some ev)
  a.write (some ev) insPtr

theorem updateKalarmEvent_ok (done : a.updateKalarmEvent ev w = .ok a') :
    ∃ slot, a.findInsertionPoint w = .ok slot ∧ a' = (a.unlinkEvent ev).placed slot ev w := by
  obtain ⟨slot, found, done⟩ := bind_ok done
  cases done
  exact ⟨slot, found, rfl⟩

theorem next_of_chain {b : EventRef} (h : Theory.Chain a.nextOf none a.nextEvent ((front ++ b :: back).map some)) :
    (a.event b).next = back.head? := by
  have rest := (chain_of_suffix h (List.suffix_append front (b :: back))).path.2
  cases back with
  | nil => exact rest
  | cons c back => exact rest.1

theorem setNext_chain {n : Option EventRef} (h : Theory.Chain a.nextOf none a.nextEvent (l.map some)) (fresh : ev ∉ l) :
    Theory.Chain (a.setNext ev n).nextOf none (a.setNext ev n).nextEvent (l.map some) := by
  rw [nextOf_setNext]
  apply h.frame
  intro m member
  obtain ⟨d, listed, rfl⟩ := List.mem_map.mp member
  apply Function.update_of_ne
  intro same
  exact fresh (Option.some.inj same ▸ listed)

@[simp] theorem prev_setNext (e d : EventRef) (n : Option EventRef) : ((a.setNext e n).event d).prev = (a.event d).prev := by
  by_cases here : d = e
  · simp [setNext, setEvent, here]
  · simp [setNext, setEvent, here]

@[simp] theorem prev_write (slot : EventSlot) (v : Option EventRef) (d : EventRef) :
    ((a.write v slot).event d).prev = (a.event d).prev := by
  cases slot with
  | head => rfl
  | next e => exact prev_setNext e d v

theorem next_setNext (e : EventRef) (n : Option EventRef) : ((a.setNext e n).event e).next = n := by simp [setNext, setEvent]

theorem prev_setPrev_ne {d e : EventRef} (other : d ≠ e) (p : Option EventRef) : ((a.setPrev e p).event d).prev = (a.event d).prev := by
  simp [setPrev, setEvent, other]

/-- `ev` takes the place of the event behind the insertion point, and names it as its `prev`. -/
theorem placed_chain (h : Theory.Chain a.nextOf none a.nextEvent ((front ++ back).map some)) (fresh : ev ∉ front ++ back) :
    Theory.Chain (a.placed (slotBehind front) ev w).nextOf none (a.placed (slotBehind front) ev w).nextEvent
        ((front ++ ev :: back.tail).map some) ∧
      ((a.placed (slotBehind front) ev w).event ev).prev = back.head? := by
  have h₁ : Theory.Chain (a.setEvent ev fun e => { e with when := w }).nextOf none a.nextEvent ((front ++ back).map some) := by
    rw [nextOf_setWhen]
    exact h
  have h₂ : Theory.Chain ((a.setEvent ev fun e => { e with when := w }).setPrev ev back.head?).nextOf none a.nextEvent
      ((front ++ back).map some) := by
    rw [nextOf_setPrev]
    exact h₁
  have prev : (((a.setEvent ev fun e => { e with when := w }).setPrev ev back.head?).event ev).prev = back.head? := by
    simp [setPrev, setEvent]
  unfold placed
  dsimp only
  rw [read_slotBehind h₁, read_slotBehind h₂]
  have start : ((a.setEvent ev fun e => { e with when := w }).setPrev ev back.head?).nextEvent = a.nextEvent := rfl
  rw [← start] at h₂
  generalize (a.setEvent ev fun e => { e with when := w }).setPrev ev back.head? = a₂ at h₂ prev ⊢
  cases back with
  | nil =>
    have h₃ := setNext_chain (n := none) h₂ fresh
    dsimp only [List.head?_nil]
    rw [read_slotBehind h₃]
    exact ⟨write_chain h₃ fresh List.nil_suffix (next_setNext ev none), by simpa using prev⟩
  | cons b back =>
    dsimp only [List.head?_cons]
    rw [next_of_chain h₂]
    have h₃ := setNext_chain (n := back.head?) h₂ fresh
    rw [read_slotBehind h₃]
    dsimp only [List.head?_cons]
    have other : ev ≠ b := by
      rintro rfl
      exact fresh (by simp)
    have h₄ : Theory.Chain ((a₂.setNext ev back.head?).setPrev b (some ev)).nextOf none
        ((a₂.setNext ev back.head?).setPrev b (some ev)).nextEvent ((front ++ b :: back).map some) := by
      rw [nextOf_setPrev]
      exact h₃
    refine ⟨write_chain h₄ fresh (List.suffix_cons b back) ?_, ?_⟩
    · rw [← nextOf_some, nextOf_setPrev]
      exact next_setNext ev back.head?
    · rw [prev_write, prev_setPrev_ne other, prev_setNext]
      exact prev

theorem unlinkEvent_first (alone : (a.event ev).prev = none) (other : (a.event ev).next ≠ some ev) :
    (a.unlinkEvent ev).nextOf = a.nextOf ∧
      (a.unlinkEvent ev).nextEvent = if a.nextEvent = some ev then (a.event ev).next else a.nextEvent := by
  unfold unlinkEvent
  cases link : (a.event ev).next with
  | none =>
    simp only [alone, link]
    split <;> exact ⟨rfl, rfl⟩
  | some n =>
    have differs : ev ≠ n := by
      rintro rfl
      exact other link
    have behind : ((a.setPrev n none).event ev).next = some n := by
      rw [← nextOf_some, nextOf_setPrev]
      exact link
    simp only [prev_setPrev_ne differs, alone, nextEvent_setPrev, behind]
    split <;> exact ⟨nextOf_setPrev n none, rfl⟩

theorem unlinkEvent_behind {p : EventRef} (link : (a.event ev).prev = some p) (other : (a.event ev).next ≠ some ev)
    (first : a.nextEvent ≠ some ev) :
    (a.unlinkEvent ev).nextOf = Function.update a.nextOf (some p) (a.event ev).next ∧ (a.unlinkEvent ev).nextEvent = a.nextEvent := by
  unfold unlinkEvent
  cases next : (a.event ev).next with
  | none =>
    simp only [link, next, nextEvent_setNext, if_neg first, and_true]
    exact nextOf_setNext p none
  | some n =>
    have differs : ev ≠ n := by
      rintro rfl
      exact other next
    have behind : ((a.setPrev n (some p)).event ev).next = some n := by
      rw [← nextOf_some, nextOf_setPrev]
      exact next
    simp only [link, prev_setPrev_ne differs, behind, nextEvent_setNext, nextEvent_setPrev, if_neg first, and_true]
    rw [nextOf_setNext, nextOf_setPrev]

theorem unlinkEvent_chain (q : Queue a (front ++ ev :: back)) :
    Theory.Chain (a.unlinkEvent ev).nextOf none (a.unlinkEvent ev).nextEvent ((front ++ back).map some) := by
  have nodup := nodup_of_chain q.chain
  have next := next_of_chain q.chain
  have other : (a.event ev).next ≠ some ev := by
    intro link
    rw [next] at link
    exact (List.nodup_cons.mp (List.nodup_append.mp nodup).2.1).1 (List.mem_of_mem_head? link)
  induction front using List.reverseRecOn with
  | nil =>
    obtain ⟨nextOf, nextEvent⟩ := unlinkEvent_first (q.first ev rfl) other
    have here : a.nextEvent = some ev := q.chain.path.1
    rw [nextOf, nextEvent, if_pos here]
    exact q.chain.tail
  | append_singleton front p _ =>
    have prev := q.prev
    rw [List.append_assoc, List.isChain_append] at prev
    have link : (a.event ev).prev = some p := (List.isChain_cons_cons.mp prev.2.1).1
    have first : a.nextEvent ≠ some ev := by
      intro here
      have head : a.nextEvent = (front ++ [p] ++ ev :: back).head? := read_head q.chain
      rw [here] at head
      cases front with
      | nil => simp_all
      | cons c front => simp_all
    obtain ⟨nextOf, nextEvent⟩ := unlinkEvent_behind link other first
    rw [nextOf, nextEvent]
    have h := q.chain
    simp only [List.append_assoc, List.singleton_append, List.map_append, List.map_cons] at h ⊢
    apply h.remove
    · rw [Function.update_self]
      rfl
    · intro n member
      apply Function.update_of_ne
      rintro rfl
      simp only [List.append_assoc, List.singleton_append] at nodup
      obtain ⟨_, nodup₂, apart⟩ := List.nodup_append.mp nodup
      rcases List.mem_append.mp member with before | behind
      · obtain ⟨d, listed, same⟩ := List.mem_map.mp before
        exact apart d listed p (by simp) (Option.some.inj same)
      · obtain ⟨d, listed, same⟩ := List.mem_map.mp behind
        rw [Option.some.inj same] at listed
        exact (List.nodup_cons.mp nodup₂).1 (List.mem_cons_of_mem _ listed)

theorem unlinkEvent_alone (h : Theory.Chain a.nextOf none a.nextEvent (l.map some)) (fresh : ev ∉ l)
    (unlinked : (a.event ev).next = none ∧ (a.event ev).prev = none) :
    Theory.Chain (a.unlinkEvent ev).nextOf none (a.unlinkEvent ev).nextEvent (l.map some) := by
  have other : (a.event ev).next ≠ some ev := by simp [unlinked.1]
  obtain ⟨nextOf, nextEvent⟩ := unlinkEvent_first unlinked.2 other
  have head : a.nextEvent = l.head? := read_head h
  have first : a.nextEvent ≠ some ev := by
    intro here
    rw [head] at here
    exact fresh (List.mem_of_mem_head? here)
  rw [nextOf, nextEvent, if_neg first]
  exact h

/-- Where the insertion point is not the link of `ev` itself, it is a link of the queue without `ev`. -/
theorem slotBehind_without {pre post : List EventRef} (nodup : (pre ++ ev :: post).Nodup) (same : pre ++ ev :: post = front ++ back)
    (other : slotBehind front ≠ .next ev) : ∃ front' back', pre ++ post = front' ++ back' ∧ slotBehind front = slotBehind front' := by
  rcases List.append_eq_append_iff.mp same with ⟨mid, rfl, rest⟩ | ⟨mid, rfl, rest⟩
  · cases mid using List.reverseRecOn with
    | nil => exact ⟨pre, post, rfl, by simp⟩
    | append_singleton mid c =>
      cases mid with
      | nil =>
        simp only [List.nil_append, List.singleton_append, List.cons.injEq] at rest
        rw [← rest.1, List.nil_append, slotBehind_concat] at other
        exact absurd rfl other
      | cons e mid =>
        simp only [List.cons_append, List.append_assoc, List.cons.injEq] at rest
        refine ⟨pre ++ mid ++ [c], back, by simp [rest.2], ?_⟩
        rw [slotBehind_concat, ← List.append_assoc, slotBehind_concat]
  · exact ⟨front, mid ++ post, by simp, rfl⟩

/-- The event whose own link is the insertion point is linked to itself, out of the queue. -/
theorem placed_self (h : Theory.Chain a.nextOf none a.nextEvent (l.map some)) (fresh : ev ∉ l) :
    Theory.Chain (a.placed (.next ev) ev w).nextOf none (a.placed (.next ev) ev w).nextEvent (l.map some) := by
  have h₂ : ∀ p, Theory.Chain ((a.setEvent ev fun e => { e with when := w }).setPrev ev p).nextOf none a.nextEvent (l.map some) := by
    intro p
    rw [nextOf_setPrev, nextOf_setWhen]
    exact h
  unfold placed
  apply setNext_chain ?_ fresh
  split
  · exact setNext_chain (h₂ _) fresh
  · rw [nextOf_setPrev]
    exact setNext_chain (h₂ _) fresh

/-- The events of the queue, `ev` at its new time and the others at theirs, linked and sorted. -/
def Moved (a a' : Alarms) (l : List EventRef) (ev : EventRef) (w : Word) : Prop :=
  (∃ l', Queue a' l' ∧ l'.Perm (ev :: l.erase ev)) ∧ ∀ e, (a'.event e).when = if e = ev then w else (a.event e).when

@[simp] theorem when_setNext (e d : EventRef) (n : Option EventRef) : ((a.setNext e n).event d).when = (a.event d).when := by
  by_cases here : d = e
  · simp [setNext, setEvent, here]
  · simp [setNext, setEvent, here]

@[simp] theorem when_setPrev (e d : EventRef) (p : Option EventRef) : ((a.setPrev e p).event d).when = (a.event d).when := by
  by_cases here : d = e
  · simp [setPrev, setEvent, here]
  · simp [setPrev, setEvent, here]

@[simp] theorem when_write (slot : EventSlot) (v : Option EventRef) (d : EventRef) :
    ((a.write v slot).event d).when = (a.event d).when := by
  cases slot with
  | head => rfl
  | next e => exact when_setNext e d v

theorem unlinkEvent_when (e : EventRef) : ((a.unlinkEvent ev).event e).when = (a.event e).when := by
  unfold unlinkEvent
  dsimp only
  split <;> split <;> split <;> simp

theorem placed_when (slot : EventSlot) (e : EventRef) :
    ((a.placed slot ev w).event e).when = if e = ev then w else (a.event e).when := by
  have set : ((a.setEvent ev fun e => { e with when := w }).event e).when = if e = ev then w else (a.event e).when := by
    by_cases here : e = ev
    · simp [setEvent, here]
    · simp [setEvent, here]
  rw [← set]
  unfold placed
  dsimp only
  split <;> simp

theorem queue_single (h : Theory.Chain a.nextOf none a.nextEvent ([ev].map some)) (prev : (a.event ev).prev = none) : Queue a [ev] :=
  ⟨h, by simpa using prev, by simp, by simp⟩

/-- Nothing is queued before or behind an event that is placed without harm. -/
theorem alone_of_placed {l' : List EventRef} (h : Theory.Chain a.nextOf none a.nextEvent ((front ++ back).map some))
    (fresh : ev ∉ front ++ back) (q : Queue (a.placed (slotBehind front) ev w) l')
    (length : l'.length = (front ++ back).length + 1) : front ++ back = [] := by
  obtain ⟨chain, prev⟩ := placed_chain (w := w) h fresh
  have same := unique_of_chain q.chain chain
  subst same
  simp only [List.length_append, List.length_cons, List.length_tail] at length
  have nothing : back = [] := List.eq_nil_of_length_eq_zero (by omega)
  subst nothing
  induction front using List.reverseRecOn with
  | nil => rfl
  | append_singleton front c _ =>
    have linked := q.prev
    simp only [List.append_assoc, List.isChain_append] at linked
    have back : ((a.placed (slotBehind (front ++ [c])) ev w).event ev).prev = some c := by simpa using linked.2.1
    rw [prev] at back
    cases back

/-- Moving an event keeps the queue whole if and only if no other event is queued, and it is not moved to a
later time than the one it is queued for: otherwise the event behind the insertion point is cut off, the event
is linked to itself, or it does not link back. -/
theorem updateKalarmEvent_iff (q : Queue a l) (known : ev ∈ l ∨ (a.event ev).next = none ∧ (a.event ev).prev = none) :
    (∃ a', a.updateKalarmEvent ev w = .ok a' ∧ Moved a a' l ev w) ↔ ∀ e ∈ l, e = ev ∧ w ≤ (a.event ev).when := by
  have nodup := nodup_of_chain q.chain
  constructor
  · rintro ⟨a', done, ⟨l', q', perm⟩, _⟩
    obtain ⟨slot, found, rfl⟩ := updateKalarmEvent_ok done
    obtain ⟨front, back, split_, rfl, before, after⟩ := findInsertionPoint_spec q.chain found
    have length := perm.length_eq
    by_cases member : ev ∈ l
    · obtain ⟨pre, post, rfl⟩ := List.append_of_mem member
      have h := unlinkEvent_chain q
      have fresh : ev ∉ pre ++ post := by
        have perm : (ev :: (pre ++ post)).Nodup := List.perm_middle.nodup_iff.mp nodup
        exact (List.nodup_cons.mp perm).1
      rw [List.length_cons, List.length_erase_of_mem member] at length
      simp only [List.length_append, List.length_cons] at length
      by_cases self : slotBehind front = .next ev
      · rw [self] at q'
        rw [unique_of_chain q'.chain (placed_self h fresh)] at length
        simp only [List.length_append] at length
        omega
      · obtain ⟨front', back', same, slot⟩ := slotBehind_without nodup split_ self
        rw [slot] at q'
        rw [same] at h fresh
        have alone := alone_of_placed h fresh q' (by rw [← same]; simp only [List.length_append]; omega)
        rw [← same] at alone
        obtain ⟨rfl, rfl⟩ := List.append_eq_nil_iff.mp alone
        intro e queued
        refine ⟨by simpa using queued, ?_⟩
        cases front with
        | nil =>
          rw [← show [ev] = back from split_] at after
          exact after ev rfl
        | cons c front =>
          have here : c = ev ∧ front ++ back = [] := by simpa using split_.symm
          obtain ⟨rfl, nothing⟩ := here
          rw [(List.append_eq_nil_iff.mp nothing).1] at self
          exact absurd rfl self
    · have unlinked := known.resolve_left member
      have h := unlinkEvent_alone q.chain member unlinked
      rw [List.length_cons, List.erase_of_not_mem member] at length
      subst split_
      have alone := alone_of_placed h member q' length
      rw [alone]
      simp
  · intro alone
    have short : l = [] ∧ (a.event ev).next = none ∧ (a.event ev).prev = none ∨ l = [ev] ∧ w ≤ (a.event ev).when := by
      cases l with
      | nil => exact .inl ⟨rfl, known.resolve_left (by simp)⟩
      | cons e l =>
        obtain ⟨rfl, late⟩ := alone e (by simp)
        refine .inr ⟨?_, late⟩
        cases l with
        | nil => rfl
        | cons d l =>
          have same := (alone d (by simp)).1
          rw [same] at nodup
          simp at nodup
    have head : a.nextEvent = l.head? := read_head q.chain
    have first : a.findInsertionPoint w = .ok .head ∧ Theory.Chain (a.unlinkEvent ev).nextOf none (a.unlinkEvent ev).nextEvent
        (([] ++ [] : List EventRef).map some) ∧ l.erase ev = [] := by
      rcases short with ⟨rfl, unlinked⟩ | ⟨rfl, late⟩
      · refine ⟨?_, unlinkEvent_alone q.chain (by simp) unlinked, rfl⟩
        simp [findInsertionPoint, findInsertionPointLoop, read, head]
      · refine ⟨?_, unlinkEvent_chain (show Queue a ([] ++ ev :: []) from q), by simp⟩
        simp [findInsertionPoint, findInsertionPointLoop, read, head, late]
    obtain ⟨found, h, erased⟩ := first
    have fresh : ev ∉ ([] ++ [] : List EventRef) := by simp
    obtain ⟨chain, prev⟩ := placed_chain (w := w) h fresh
    refine ⟨(a.unlinkEvent ev).placed .head ev w, ?_, ⟨[ev], queue_single chain prev, by rw [erased]⟩, fun e => ?_⟩
    · unfold updateKalarmEvent
      rw [found]
      rfl
    · rw [placed_when, unlinkEvent_when]

theorem updateKalarmEvent_iff_earlier : ∃ a', slice.updateKalarmEvent .reschedule 7#32 = .ok a' ∧
    Moved slice a' [.reschedule] .reschedule 7#32 :=
  (updateKalarmEvent_iff (w := 7#32) slice_queue (.inl (by simp))).mpr (by simp [slice])

/-- The end of the time slice, put off to time 13, is not queued any more. -/
theorem updateKalarmEvent_loses : Queue slice [.reschedule] ∧ ∃ a', slice.updateKalarmEvent .reschedule 13#32 = .ok a' ∧
    a'.nextEvent = none ∧ ¬ Moved slice a' [.reschedule] .reschedule 13#32 := by
  refine ⟨slice_queue, _, rfl, rfl, ?_⟩
  rintro ⟨⟨l', q, perm⟩, _⟩
  have same : l' = [] := unique_of_chain q.chain ⟨rfl, by simp⟩
  rw [same] at perm
  simpa using perm.length_eq

end BradypOS.Alarms
