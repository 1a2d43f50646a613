import BradypOS.Alarm.Systick
import BradypOS.Ipc.Frame

/-!
# Live threads in the scheduler

`Settled` says that the heap and the running thread are live threads, and that no thread was put into
the heap or chosen after its deletion. The operations of `kern/thread.c` keep it where they wake live
threads and delete a thread that the heap holds once at most.
-/

namespace BradypOS

open L4

/-- Whether the last thread in a slot was deleted. -/
def gone : List Event → Nat → Bool
  | [], _ => false
  | .deleted d :: es, t => d = t || gone es t
  | .created c :: es, t => c ≠ t && gone es t
  | _ :: es, t => gone es t

def Event.scheduled : Event → Option Nat
  | .inserted t _ | .selected t => some t
  | _ => none

/-- No deleted thread was put into the heap or chosen. -/
def StayGone : List Event → Prop
  | [] => True
  | e :: es => (∀ t, e.scheduled = some t → gone es t = false) ∧ StayGone es

theorem gone_quiet {es : List Event} (quiet : ∀ e ∈ es, e.quiet = true) (trace : List Event) :
    gone (es ++ trace) = gone trace ∧ (StayGone trace → StayGone (es ++ trace)) := by
  induction es with
  | nil => exact ⟨rfl, id⟩
  | cons e es ih =>
    obtain ⟨same, stay⟩ := ih fun e' member => quiet e' (List.mem_cons_of_mem _ member)
    have here := quiet e List.mem_cons_self
    refine ⟨?_, fun before => ⟨?_, stay before⟩⟩
    · funext t
      rw [← same]
      cases e <;> first | rfl | cases here
    · intro t named
      cases e <;> first | (cases here; done) | cases named

theorem gone_deleted {trace : List Event} {d t : Nat} (other : d ≠ t) : gone (.deleted d :: trace) t = gone trace t := by
  simp [gone, other]

theorem gone_later {later earlier : List Event} {d : Nat} (unused : .created d ∉ later) :
    gone (later ++ .deleted d :: earlier) d = true := by
  induction later with
  | nil => simp [gone]
  | cons e later ih =>
    have rest := ih fun member => unused (List.mem_cons_of_mem _ member)
    cases e with
    | created c =>
      have other : c ≠ d := fun same => unused (same ▸ List.mem_cons_self)
      simp [gone, other, rest]
    | deleted c => simp [gone, rest]
    | _ => exact rest

theorem gone_split {trace : List Event} {d : Nat} (dead : gone trace d = true) :
    ∃ later earlier, trace = later ++ .deleted d :: earlier ∧ .created d ∉ later := by
  induction trace with
  | nil => cases dead
  | cons e trace ih =>
    by_cases here : e = .deleted d
    · exact ⟨[], trace, by rw [here]; rfl, nofun⟩
    · have rest : gone trace d = true ∧ e ≠ .created d := by
        cases e with
        | deleted c =>
          have other : c ≠ d := fun same => here (same ▸ rfl)
          exact ⟨(gone_deleted other).symm.trans dead, nofun⟩
        | created c =>
          have both : c ≠ d ∧ gone trace d = true := by simpa [gone] using dead
          exact ⟨both.2, fun same => both.1 (Event.created.inj same)⟩
        | _ => exact ⟨dead, nofun⟩
      obtain ⟨later, earlier, same, unused⟩ := ih rest.1
      refine ⟨e :: later, earlier, by rw [same]; rfl, fun member => ?_⟩
      rcases List.mem_cons.mp member with same | member
      · exact rest.2 same.symm
      · exact unused member

theorem StayGone.later {later earlier : List Event} {d : Nat} (stay : StayGone (later ++ .deleted d :: earlier))
    (unused : .created d ∉ later) : ∀ e ∈ later, e.scheduled ≠ some d := by
  induction later with
  | nil => exact nofun
  | cons e later ih =>
    have unused' : Event.created d ∉ later := fun member => unused (List.mem_cons_of_mem _ member)
    intro e' member
    rcases List.mem_cons.mp member with rfl | member
    · intro scheduled
      have live : gone (later ++ .deleted d :: earlier) d = false := stay.1 d scheduled
      rw [gone_later unused'] at live
      cases live
    · exact ih stay.2 unused' e' member

namespace Kernel

variable {k k' : Kernel}

/-- The heap and the running thread are live ones. -/
structure Settled (k : Kernel) : Prop where
  stay : StayGone k.trace
  free : ∀ t, gone k.trace t = true → k.allocated t = false
  live : ∀ t ∈ k.ready, k.allocated t = true
  current : k.state k.currentThreadIdx = .runnable → k.allocated k.currentThreadIdx = true

namespace Settled

theorem quiet (s : Settled k) (h : Quiet k k') : Settled k' := by
  obtain ⟨es, grown, quiet⟩ := h.trace
  obtain ⟨same, stay⟩ := gone_quiet quiet k.trace
  have ready : k'.ready = k.ready := congrArg Heap.toList h.schedule
  refine ⟨?_, ?_, ?_, ?_⟩
  · rw [grown]; exact stay s.stay
  · rw [grown, same, h.allocated]; exact s.free
  · rw [ready, h.allocated]; exact s.live
  · rw [h.currentThreadIdx, h.state, h.allocated]; exact s.current

/-- The state of a thread that is not live is looked at only to see whether it goes back. -/
theorem setTcb (s : Settled k) {t : Nat} {f : Tcb → Tcb}
    (state : k.allocated t = true ∨ (f (k.tcbs t)).state = (k.tcbs t).state) : Settled (k.setTcb t f) := by
  refine ⟨s.stay, s.free, s.live, fun runs => ?_⟩
  by_cases here : k.currentThreadIdx = t
  · subst here
    rcases state with live | same
    · exact live
    · refine s.current (same.symm.trans ?_)
      have runs : ((k.setTcb k.currentThreadIdx f).tcbs k.currentThreadIdx).state = .runnable := runs
      rwa [setTcb_same] at runs
  · apply s.current
    have runs : ((k.setTcb t f).tcbs k.currentThreadIdx).state = .runnable := runs
    rwa [setTcb_other _ _ _ _ here] at runs

theorem of_live (s : Settled k) {t : Nat} (live : k.allocated t = true) : gone k.trace t = false := by
  by_contra dead
  have free := s.free t (by simpa using dead)
  rw [live] at free
  cases free

theorem scheduleInsert (s : Settled k) {t : Nat} (live : k.allocated t = true) : Settled (k.scheduleInsert t) := by
  have member : ∀ u ∈ (k.scheduleInsert t).ready, u = t ∨ u ∈ k.ready := by
    intro u member
    by_cases full : k.schedule.size = maxThreads
    · have same : (k.scheduleInsert t).schedule = k.schedule :=
        congrArg Prod.fst (Heap.insert_full k.compareThreadByPrio full t)
      exact .inr (by simpa only [ready, same] using member)
    · exact List.mem_cons.mp ((scheduleInsert_ready full t).mem_iff.mp member)
  refine ⟨⟨?_, s.stay⟩, s.free, ?_, s.current⟩
  · intro u named
    cases named
    exact s.of_live live
  · intro u inside
    rcases member u inside with rfl | inside
    · exact live
    · exact s.live u inside

theorem setSchedule (s : Settled k) {schedule : Heap Nat} (sub : ∀ u ∈ schedule.toList, u ∈ k.ready) :
    Settled (k.setSchedule schedule) :=
  ⟨s.stay, s.free, fun t member => s.live t (sub t member), s.current⟩

theorem setTable (s : Settled k) (count : Nat) (list : Nat → Nat) : Settled (k.setTable count list) :=
  ⟨s.stay, s.free, s.live, s.current⟩

theorem scheduleRemove (s : Settled k) (t : Nat) : Settled (k.scheduleRemove t) := by
  have sub := scheduleRemove_sub k t
  unfold Kernel.scheduleRemove at sub ⊢
  split
  · rename_i found
    rw [found] at sub
    exact s.setSchedule sub
  · exact s

theorem setThreadState (s : Settled k) {t : Nat} {st : ThreadState}
    (live : st = .runnable → k.allocated t = true) : Settled (k.setThreadState t st) := by
  have moved : Settled (k.moveSchedule t st) := by
    unfold moveSchedule
    split
    · rename_i wakes
      exact s.scheduleInsert (live wakes.1)
    · split
      · exact s.scheduleRemove t
      · exact s
  have same : ∀ u, (k.setThreadState t st).allocated u = k.allocated u :=
    fun u => by rw [setThreadState_allocated]
  obtain ⟨schedule, trace, frame⟩ := k.moveSchedule_frame t st
  refine ⟨⟨nofun, moved.stay⟩, moved.free, moved.live, ?_⟩
  intro runs
  rw [setThreadState_currentThreadIdx] at runs ⊢
  rw [same]
  rw [state_setThreadState] at runs
  split at runs
  · rename_i here
    rw [here]
    exact live runs
  · exact s.current runs

/-- A slot that is handed out was free, and is not deleted from then on. -/
theorem createThread {globalId : Word} {tcb : Option Nat} (s : Settled k) (h : k.createThread globalId = .ok (tcb, k')) :
    Settled k' := by
  rcases createThread_spec h with ⟨_, rfl⟩ | ⟨t, list, _, _, _, rfl⟩
  · exact s
  · have taken : Settled ((k.takeTcb t).log (.created t)) := by
      refine ⟨⟨nofun, s.stay⟩, fun u dead => ?_, fun u member => ?_, fun runs => ?_⟩
      · have dead : t ≠ u ∧ gone k.trace u = true := by simpa [gone, log, takeTcb] using dead
        exact (Function.update_of_ne dead.1.symm _ _).trans (s.free u dead.2)
      · by_cases here : u = t
        · subst here; exact Function.update_self ..
        · exact (Function.update_of_ne here _ _).trans (s.live u member)
      · by_cases here : k.currentThreadIdx = t
        · subst here; exact Function.update_self ..
        · exact (Function.update_of_ne here _ _).trans (s.current runs)
    have fresh : Settled (((k.takeTcb t).log (.created t)).setTcb t (freshTcb globalId)) :=
      taken.setTcb (.inl (Function.update_self ..))
    exact ⟨fresh.stay, fresh.free, fresh.live, fresh.current⟩

/-- The heap holds the thread no oftener than its deletion takes it out, and it will not go back. -/
def Removable (k : Kernel) (d : Nat) : Prop :=
  k.ready.count d ≤ (if k.state d = .runnable then 1 else 0) ∧
    (d = k.currentThreadIdx → k.state d ≠ .runnable)

theorem unschedule_ready {d : Nat} (ok : Removable k d) :
    d ∉ (k.unschedule d).ready ∧ ∀ u ∈ (k.unschedule d).ready, u ∈ k.ready := by
  obtain ⟨few, _⟩ := ok
  unfold unschedule
  split
  · rename_i runs
    rw [if_pos runs] at few
    refine ⟨?_, scheduleRemove_sub k d⟩
    unfold Kernel.scheduleRemove
    split
    · rename_i found
      have count := (scheduleDelete_ready found).count_eq d
      rw [List.count_cons_self] at count
      exact List.count_eq_zero.mp (by omega)
    · rename_i missing
      exact findIdxInHeap_none.mp missing
  · rename_i rests
    rw [if_neg rests] at few
    exact ⟨List.count_eq_zero.mp (by omega), fun _ => id⟩

/-- The rest of `delete_thread`, for a thread that is not in the heap and will not go back. -/
theorem freed {d : Nat} (s : Settled k) (absent : d ∉ k.ready) (rests : d = k.currentThreadIdx → k.state d ≠ .runnable) :
    Settled (((k.unlinkSiblings d).freeTcb d).log (.deleted d)) := by
  obtain ⟨tcbs, unlinked, links⟩ := k.unlinkSiblings_frame d
  rw [unlinked]
  refine ⟨⟨nofun, s.stay⟩, fun t dead => ?_, fun t member => ?_, fun runs => ?_⟩
  · by_cases here : t = d
    · subst here; exact Function.update_self ..
    · exact (Function.update_of_ne here _ _).trans (s.free t ((gone_deleted (Ne.symm here)).symm.trans dead))
  · have other : t ≠ d := fun same => absent (same ▸ member)
    exact (Function.update_of_ne other _ _).trans (s.live t member)
  · obtain ⟨n, p, kept⟩ := links k.currentThreadIdx
    have runs : k.state k.currentThreadIdx = .runnable := by
      have same := congrArg Tcb.state kept
      exact same.symm.trans runs
    have other : k.currentThreadIdx ≠ d := fun same => rests same.symm (same ▸ runs)
    exact (Function.update_of_ne other _ _).trans (s.current runs)

theorem deleteThread {d : Nat} (s : Settled k) (ok : Removable k d) (h : k.deleteThread d = .ok k') : Settled k' := by
  obtain ⟨list, rfl⟩ := deleteThread_spec h
  obtain ⟨schedule, gone_out⟩ := k.unschedule_frame d
  obtain ⟨absent, sub⟩ := unschedule_ready ok
  rw [gone_out] at absent sub ⊢
  have removed : Settled (k.setSchedule schedule) := s.setSchedule sub
  exact (removed.setTable (k.threadCount - 1) list).freed absent ok.2

theorem scheduleNextThread (s : Settled k) (h : k.scheduleNextThread = .ok k') : Settled k' := by
  obtain ⟨idx, k₁, alarms, selected, _, rfl⟩ := scheduleNextThread_spec h
  have requeued : Settled k.requeueCurrent := by
    unfold requeueCurrent
    split
    · rename_i runs
      exact s.scheduleInsert (s.current runs.2)
    · exact s
  obtain ⟨perm, schedule, rfl⟩ := selectThread_spec selected
  generalize k.requeueCurrent = k₀ at requeued perm
  have live : k₀.allocated idx = true := requeued.live idx (perm.mem_iff.mp List.mem_cons_self)
  refine ⟨⟨?_, requeued.stay⟩, requeued.free, fun t member => ?_, fun _ => live⟩
  · intro t named
    cases named
    exact requeued.of_live live
  · exact requeued.live t (perm.mem_iff.mp (List.mem_cons_of_mem _ member))

end Settled

end Kernel
end BradypOS
