import BradypOS.Alarm.Wrap

/-!
# Registering an event in any state of the alarms

The links of the events need not form a list here. An event can be registered when the walk past the
earlier events ends, and ends at another event or at none. Then it is in the queue, whatever the
registration did to the events behind it.
-/

namespace BradypOS.Alarms

open Theory

variable {a a' : Alarms} {ev : EventRef} {w : Word} {front : List EventRef} {old : Option EventRef}

/-- The events before the time `w`, walked from a link, and what the walk stops at. -/
structure Walk (a : Alarms) (w : Word) (slot : EventSlot) (front : List EventRef) (old : Option EventRef) : Prop where
  path : Path a.nextOf (a.read slot) (front.map some) old
  before : ∀ e ∈ front, (a.event e).when < w
  behind : ∀ e, old = some e → w ≤ (a.event e).when

def slotAfter (slot : EventSlot) : List EventRef → EventSlot
  | [] => slot
  | e :: front => slotAfter (.next e) front

theorem slotAfter_concat (slot : EventSlot) (front : List EventRef) (e : EventRef) :
    slotAfter slot (front ++ [e]) = .next e := by
  induction front generalizing slot with
  | nil => rfl
  | cons d front ih => exact ih _

theorem findInsertionPointLoop_iff {fuel : Nat} {slot s : EventSlot} : a.findInsertionPointLoop w fuel slot = .ok s ↔
    ∃ front old, a.Walk w slot front old ∧ front.length < fuel ∧ s = slotAfter slot front := by
  induction fuel generalizing slot with
  | zero =>
    refine iff_of_false (fun found => by cases found) ?_
    rintro ⟨front, old, -, short, -⟩
    omega
  | succ fuel ih =>
    unfold findInsertionPointLoop
    constructor
    · intro found
      cases here : a.read slot with
      | none =>
        rw [here] at found
        cases found
        exact ⟨[], none, ⟨here, by simp, by simp⟩, Nat.succ_pos _, rfl⟩
      | some e =>
        rw [here] at found
        dsimp only at found
        split at found
        · rename_i earlier
          obtain ⟨front, old, walk, short, rfl⟩ := ih.mp found
          refine ⟨e :: front, old, ⟨⟨here, walk.path⟩, ?_, walk.behind⟩, Nat.succ_lt_succ short, rfl⟩
          exact List.forall_mem_cons.mpr ⟨earlier, walk.before⟩
        · rename_i late
          cases found
          refine ⟨[], some e, ⟨here, by simp, ?_⟩, Nat.succ_pos _, rfl⟩
          intro d stop
          cases stop
          exact BitVec.not_lt.mp late
    · rintro ⟨front, old, walk, short, rfl⟩
      cases front with
      | nil =>
        have here : a.read slot = old := walk.path
        rw [here]
        cases old with
        | none => rfl
        | some e => exact if_neg (BitVec.not_lt.mpr (walk.behind e rfl))
      | cons e front =>
        obtain ⟨here, rest⟩ := walk.path
        have earlier := walk.before e (by simp)
        rw [show a.read slot = some e from here]
        dsimp only
        rw [if_pos earlier]
        exact ih.mpr ⟨front, old, ⟨rest, fun d member => walk.before d (by simp [member]), walk.behind⟩,
          Nat.lt_of_succ_lt_succ short, rfl⟩

theorem Walk.read_slotAfter {slot : EventSlot} (walk : a.Walk w slot front old) : a.read (slotAfter slot front) = old := by
  have path := walk.path
  clear walk
  induction front generalizing slot with
  | nil => exact path
  | cons e front ih => exact ih path.2

/-- An event is met once on a walk: behind it the walk would go on for ever. -/
theorem Walk.nodup {slot : EventSlot} (walk : a.Walk w slot front old) : front.Nodup := by
  have live : old ∉ front.map some := by
    intro member
    obtain ⟨e, listed, rfl⟩ := List.mem_map.mp member
    exact BitVec.not_lt.mpr (walk.behind e rfl) (walk.before e listed)
  have chain : Chain a.nextOf old (a.read slot) (front.map some) := ⟨walk.path, live⟩
  exact List.Nodup.of_map _ chain.nodup

/-! ### When an event can be registered -/

/-- The event can be put at the time `w`: the walk past the earlier events ends, without the event itself. -/
def Takes (a : Alarms) (ev : EventRef) (w : Word) : Prop :=
  ∃ front old, a.Walk w .head front old ∧ front.length ≤ maxEvents ∧ ev ∉ front ∧ old ≠ some ev

theorem Takes.congr (next : a'.nextOf = a.nextOf) (first : a'.nextEvent = a.nextEvent)
    (when : ∀ e, e ≠ ev → (a'.event e).when = (a.event e).when) (h : a.Takes ev w) : a'.Takes ev w := by
  obtain ⟨front, old, walk, short, fresh, other⟩ := h
  refine ⟨front, old, ⟨?_, fun e member => ?_, fun e last => ?_⟩, short, fresh, other⟩
  · rw [next]
    show Path a.nextOf a'.nextEvent _ _
    rw [first]
    exact walk.path
  · rw [when e fun same => fresh (same ▸ member)]
    exact walk.before e member
  · rw [when e fun same => other (same ▸ last)]
    exact walk.behind e last

def Queued (a : Alarms) (ev : EventRef) : Prop := ∃ front : List EventRef, Path a.nextOf a.nextEvent (front.map some) (some ev)

theorem registerKalarmEvent_takes : (∃ a', a.registerKalarmEvent ev = .ok a') ↔ a.Takes ev (a.event ev).when := by
  unfold registerKalarmEvent
  constructor
  · intro ⟨a', done⟩
    obtain ⟨slot, found, done⟩ := bind_ok done
    obtain ⟨front, old, walk, short, rfl⟩ := findInsertionPointLoop_iff.mp found
    obtain ⟨_, asserted, _⟩ := bind_ok done
    rw [walk.read_slotAfter] at asserted
    refine ⟨front, old, walk, Nat.le_of_lt_succ short, fun member => ?_, of_decide_eq_true (kassert_ok asserted)⟩
    exact BitVec.lt_irrefl _ (walk.before ev member)
  · rintro ⟨front, old, walk, short, -, other⟩
    have found : a.findInsertionPoint (a.event ev).when = .ok (slotAfter .head front) :=
      findInsertionPointLoop_iff.mpr ⟨front, old, walk, Nat.lt_succ_of_le short, rfl⟩
    rw [found]
    show ∃ a', (kassert (a.read (slotAfter .head front) ≠ some ev) .eventAtInsertionPoint >>= fun _ => _) = .ok a'
    rw [walk.read_slotAfter, kassert_of (decide_eq_true other)]
    cases old with
    | none => exact ⟨_, rfl⟩
    | some o => exact ⟨_, rfl⟩

theorem registerKalarmEvent_queued (done : a.registerKalarmEvent ev = .ok a') : a'.Queued ev := by
  obtain ⟨front, old, walk, short, fresh, other⟩ := registerKalarmEvent_takes.mp ⟨a', done⟩
  unfold registerKalarmEvent at done
  obtain ⟨slot, found, done⟩ := bind_ok done
  have same := findInsertionPointLoop_iff.mpr ⟨front, old, walk, Nat.lt_succ_of_le short, rfl⟩
  cases found.symm.trans same
  obtain ⟨_, _, done⟩ := bind_ok done
  rw [walk.read_slotAfter] at done
  -- The link behind the earlier events leads to the new one, and only that link on the way was written.
  have written : Path (a.write (some ev) (slotAfter .head front)).nextOf (a.write (some ev) (slotAfter .head front)).nextEvent
      (front.map some) (some ev) := by
    induction front using List.reverseRecOn with
    | nil => rfl
    | append_singleton front c _ =>
      have distinct := walk.nodup
      rw [slotAfter_concat, List.map_append]
      show Path (a.setNext c (some ev)).nextOf a.nextEvent _ _
      rw [nextOf_setNext]
      apply Path.relink
      · have path := walk.path
        rw [List.map_append] at path
        exact path
      · intro member
        obtain ⟨d, listed, same⟩ := List.mem_map.mp member
        cases same
        exact (List.nodup_append.mp distinct).2.2 _ listed _ (by simp) rfl
  refine ⟨front, ?_⟩
  cases old with
  | none =>
    cases done
    rw [nextOf_setPrev]
    exact written
  | some o =>
    have onward : Path (Function.update (a.write (some ev) (slotAfter .head front)).nextOf (some o) (some ev))
        (a.write (some ev) (slotAfter .head front)).nextEvent (front.map some) (some ev) := by
      apply written.frame
      intro n member
      obtain ⟨d, listed, rfl⟩ := List.mem_map.mp member
      apply Function.update_of_ne
      intro same
      cases same
      exact BitVec.not_lt.mpr (walk.behind _ rfl) (walk.before _ listed)
    dsimp only at done
    split at done
    · cases done
      rw [nextOf_setNext, nextOf_setPrev]
      exact onward
    · cases done
      rw [nextOf_setNext, nextOf_setPrev, nextOf_setPrev]
      exact onward

end BradypOS.Alarms
