import BradypOS.Alarm.Insertion
import BradypOS.Ipc.Waits
import BradypOS.L4.Times
import BradypOS.Thread.Search

/-!
# What a timeout does to a phase that has to wait

`set_thread_timeout` compares with `never` first, and times compare by their values: a timeout of 0 of
any exponent is taken for `never`. The other relative timeouts are counted in signed words.
-/

namespace BradypOS

open L4

/-- A send or receive phase of a thread with the partner that it names. -/
structure IpcPhase where
  thread : Nat
  partner : Word
  timeout : Time
  sending : Bool

def IpcPhase.state (p : IpcPhase) : ThreadState := if p.sending then .sendBlocked else .recvBlocked

theorem IpcPhase.state_ne_runnable (p : IpcPhase) : p.state ≠ .runnable := by
  unfold state
  split <;> decide

namespace Kernel

variable {k k' k₁ : Kernel} {p : IpcPhase}

/-- A phase whose partner is not ready, to the end of its `do_ipc`. -/
def waitPhase (k : Kernel) (p : IpcPhase) : Fallible Kernel := do
  let (result, k) ← k.phaseNotready p.thread p.partner p.timeout p.state (!p.sending)
  .ok (k.endIpc p.thread p.state result)

/-- `do_ipc` of a thread comes, in the given state, to a phase whose partner exists but is not ready. -/
inductive Stalls (k : Kernel) : Bool → IpcPhase → Kernel → Prop where
  | send {t : Nat} (named : isNilThread (k.sendTo t) = false) (search : k.findIpcPartner t (k.sendTo t) true = .ok .notready) :
      Stalls k false ⟨t, k.sendTo t, k.sendTime t, true⟩ (k.log (.sending t (k.sendTo t)))
  | recv {t : Nat} {skipSending : Bool} {k₁ : Kernel}
      (sent : (if skipSending then .ok (.done, k) else k.ipcSend t (k.sendTo t) (k.sendTime t)) = .ok (.done, k₁))
      (named : isNilThread (k.recvFrom t) = false) (search : k₁.findIpcPartner t (k.recvFrom t) false = .ok .notready) :
      Stalls k skipSending ⟨t, k.recvFrom t, k.recvTime t, false⟩ k₁

theorem bind_congr_ok {α β : Type} {x : Fallible α} {f g : α → Fallible β} (same : ∀ a, x = .ok a → f a = g a) :
    (x >>= f) = (x >>= g) := by
  cases x with
  | error e => rfl
  | ok a => exact same a rfl

theorem ipcSend_notready {t : Nat} {dest : Word} {timeout : Time} (named : isNilThread dest = false)
    (search : k.findIpcPartner t dest true = .ok .notready) :
    k.ipcSend t dest timeout = (k.log (.sending t dest)).phaseNotready t dest timeout .sendBlocked false := by
  unfold ipcSend
  rw [named, if_neg Bool.false_ne_true, search]
  dsimp only [bind, Except.bind]

theorem ipcRecv_notready {t : Nat} {src : Word} (receiveOf : Kernel → Nat → Fallible Kernel) (timeout : Time)
    (named : isNilThread src = false) (search : k.findIpcPartner t src false = .ok .notready) :
    ipcRecv receiveOf k t src timeout = k.phaseNotready t src timeout .recvBlocked true := by
  unfold ipcRecv
  rw [named, if_neg Bool.false_ne_true, search]
  dsimp only [bind, Except.bind]

theorem doIpc_of_stalls {skipSending : Bool} (stalls : Stalls k skipSending p k₁) (fuel : Nat) :
    doIpc (fuel + 1) k p.thread skipSending = k₁.waitPhase p := by
  cases stalls with
  | @send t named search =>
    rw [doIpc]
    dsimp only
    rw [if_neg Bool.false_ne_true]
    refine (congrArg (· >>= _) (ipcSend_notready named search)).trans (bind_congr_ok fun a waits => ?_)
    obtain ⟨r, k₂⟩ := a
    rcases phaseNotready_cases waits with ⟨_, _, rfl, _⟩ | ⟨_, rfl, _⟩
    · rfl
    · rfl
  | @recv t skipSending k₁ sent named search =>
    rw [doIpc]
    dsimp only
    generalize (fun k partner => doIpc fuel k partner true) = receiveOf
    refine (congrArg (fun x => bind x _) sent).trans ?_
    have waits := ipcRecv_notready receiveOf (k.recvTime t) named search
    unfold recvFrom recvTime at waits
    unfold waitPhase IpcPhase.state recvFrom recvTime
    dsimp only [bind, Except.bind]
    rw [waits]
    simp only [Bool.false_eq_true, if_false, Bool.not_false]

/-! ### The ways a phase waits -/

/-- The event of the thread, set for a timeout that starts now. -/
def armed (k : Kernel) (p : IpcPhase) : Alarms :=
  k.alarms.setEvent (.kevent p.thread) fun ev =>
    { ev with data := (k.tcbs p.thread).globalId, type := .timeout, when := k.alarms.currentTime + p.timeout.ticks }

/-- The thread waits, with the alarms that registering its event left. -/
def armedFor (k : Kernel) (p : IpcPhase) (alarms : Alarms) : Kernel :=
  (((k.log (.waiting p.thread p.state p.timeout k.alarms.currentTime)).setAlarms alarms).log
    (.registered (k.armed p) (.kevent p.thread))).setThreadState p.thread p.state

theorem setThreadTimeout_zero (zero : p.timeout.m = 0#32) : k.setThreadTimeout p.thread p.timeout p.state =
    .ok (true, k.log (.waiting p.thread p.state p.timeout k.alarms.currentTime)) := by
  unfold setThreadTimeout
  rw [if_pos (Time.isEqual_never.mpr zero)]

theorem setThreadTimeout_finite (some : p.timeout.m ≠ 0#32) (relative : p.timeout.point = false) :
    k.setThreadTimeout p.thread p.timeout p.state =
      ((k.armed p).registerKalarmEvent (.kevent p.thread) >>= fun alarms => .ok (true, k.armedFor p alarms)) := by
  have never : p.timeout.isEqual Time.never = false := Bool.eq_false_iff.mpr fun h => some (Time.isEqual_never.mp h)
  unfold setThreadTimeout
  rw [never, Time.isEqual_zero some, relative]
  simp only [Bool.false_eq_true, if_false]
  unfold registerKevent
  show ((k.armed p).registerKalarmEvent (.kevent p.thread) >>= fun _ => _) >>= _ = _
  cases (k.armed p).registerKalarmEvent (.kevent p.thread) with
  | error e => rfl
  | ok alarms => rfl

theorem waitPhase_of_armed {α : Type} {x : Fallible α} {f : α → Kernel}
    (h : k.setThreadTimeout p.thread p.timeout p.state = (x >>= fun a => .ok (true, f a))) :
    k.waitPhase p = (x >>= fun a => .ok ((f a).blocked p.thread p.partner p.state)) := by
  unfold waitPhase phaseNotready
  rw [h]
  cases x with
  | error e => rfl
  | ok a => rfl

theorem waitPhase_zero (zero : p.timeout.m = 0#32) : k.waitPhase p =
    .ok ((k.log (.waiting p.thread p.state p.timeout k.alarms.currentTime)).blocked p.thread p.partner p.state) :=
  waitPhase_of_armed (x := .ok ()) (f := fun _ => k.log _) (setThreadTimeout_zero zero)

theorem waitPhase_finite (some : p.timeout.m ≠ 0#32) (relative : p.timeout.point = false) : k.waitPhase p =
    ((k.armed p).registerKalarmEvent (.kevent p.thread) >>= fun alarms =>
      .ok ((k.armedFor p alarms).blocked p.thread p.partner p.state)) :=
  waitPhase_of_armed (setThreadTimeout_finite some relative)

theorem blocked_state (k : Kernel) (t : Nat) (w : Word) (st : ThreadState) : (k.blocked t w st).state t = st := by
  unfold blocked
  rw [state_setThreadState, if_pos rfl]

theorem blocked_alarms (k : Kernel) (t : Nat) (w : Word) (st : ThreadState) : (k.blocked t w st).alarms = k.alarms :=
  setThreadState_alarms ..

theorem armedFor_alarms (k : Kernel) (p : IpcPhase) (alarms : Alarms) : (k.armedFor p alarms).alarms = alarms :=
  setThreadState_alarms ..

@[simp] theorem armed_event : (k.armed p).event (.kevent p.thread) =
    { k.alarms.event (.kevent p.thread) with
      data := (k.tcbs p.thread).globalId, type := .timeout, when := k.alarms.currentTime + p.timeout.ticks } :=
  Function.update_self ..

theorem armed_event_other {e : EventRef} (other : e ≠ .kevent p.thread) : (k.armed p).event e = k.alarms.event e :=
  Function.update_of_ne other ..

theorem armed_nextOf : (k.armed p).nextOf = k.alarms.nextOf := by
  funext link
  cases link with
  | none => rfl
  | some e =>
    by_cases here : e = .kevent p.thread
    · subst here
      rw [Alarms.nextOf_some, armed_event]
      rfl
    · rw [Alarms.nextOf_some, armed_event_other here]
      rfl

/-- The event is put where the walk past the earlier ones leads, whatever its time was before. -/
theorem armed_takes {w : Word} : (k.armed p).Takes (.kevent p.thread) w ↔ k.alarms.Takes (.kevent p.thread) w := by
  have when : ∀ e, e ≠ .kevent p.thread → ((k.armed p).event e).when = (k.alarms.event e).when := by
    intro e other
    rw [armed_event_other other]
  exact ⟨.congr armed_nextOf.symm rfl fun e other => (when e other).symm, .congr armed_nextOf rfl when⟩

theorem waitPhase_returns (some : p.timeout.m ≠ 0#32) (relative : p.timeout.point = false) :
    (∃ k', k.waitPhase p = .ok k') ↔ k.alarms.Takes (.kevent p.thread) (k.alarms.currentTime + p.timeout.ticks) := by
  have takes : (∃ a', (k.armed p).registerKalarmEvent (.kevent p.thread) = .ok a') ↔
      (k.armed p).Takes (.kevent p.thread) ((k.armed p).event (.kevent p.thread)).when := Alarms.registerKalarmEvent_takes
  rw [armed_event, armed_takes] at takes
  rw [← takes, waitPhase_finite some relative]
  constructor
  · intro ⟨k', done⟩
    obtain ⟨alarms, registered, _⟩ := bind_ok done
    exact ⟨alarms, registered⟩
  · intro ⟨alarms, registered⟩
    rw [registered]
    exact ⟨_, rfl⟩

/-! ### What a timeout says -/

/-- The event of the thread is in the queue, and fires for it when the timeout is over. -/
structure AlarmSet (k : Kernel) (p : IpcPhase) (k' : Kernel) : Prop where
  queued : k'.alarms.Queued (.kevent p.thread)
  type : (k'.alarms.event (.kevent p.thread)).type = .timeout
  data : (k'.alarms.event (.kevent p.thread)).data = (k.tcbs p.thread).globalId
  when : (k'.alarms.event (.kevent p.thread)).when.toNat = k.alarms.currentTime.toNat + p.timeout.value / 10

/-- Nothing in the queue is the event of the thread, or a timeout with its id. -/
def NoAlarm (k : Kernel) (p : IpcPhase) (alarms : Alarms) : Prop :=
  ∀ ev, alarms.Queued ev → ev ≠ .kevent p.thread ∧
    ((alarms.event ev).type = .timeout → (alarms.event ev).data ≠ (k.tcbs p.thread).globalId)

/-- A phase that has to wait does what its timeout says. -/
structure TimeoutMeans (k : Kernel) (p : IpcPhase) (k' : Kernel) : Prop where
  never : p.timeout = Time.never → k'.state p.thread = p.state ∧ NoAlarm k p k'.alarms
  zero : p.timeout.m = 0#32 → p.timeout ≠ Time.never →
    k'.state p.thread = .runnable ∧ (k'.mem.utcb (k'.tcbs p.thread).utcb).error = ipcError (!p.sending) .aborted
  finite : p.timeout.m ≠ 0#32 → k'.state p.thread = p.state ∧ AlarmSet k p k'

/-- With a timeout of 0, whatever its exponent, the thread waits and the queue stays as it was. An alarm that an earlier
phase of the thread left there then ends the wait. -/
theorem timeoutMeans_zero (zero : p.timeout.m = 0#32) :
    (∃ k', k.waitPhase p = .ok k' ∧ TimeoutMeans k p k') ↔ p.timeout = Time.never ∧ NoAlarm k p k.alarms := by
  rw [waitPhase_zero zero]
  constructor
  · intro ⟨k', done, means⟩
    cases done
    have never : p.timeout = Time.never := by
      refine Decidable.byContradiction fun other => ?_
      have runs := (means.zero zero other).1
      rw [blocked_state] at runs
      exact p.state_ne_runnable runs
    have quiet := (means.never never).2
    rw [blocked_alarms] at quiet
    exact ⟨never, quiet⟩
  · intro ⟨never, quiet⟩
    refine ⟨_, rfl, fun _ => ⟨blocked_state .., ?_⟩, fun _ other => absurd never other, fun some => absurd zero some⟩
    rw [blocked_alarms]
    exact quiet

theorem timeoutMeans_finite (some : p.timeout.m ≠ 0#32) (relative : p.timeout.point = false) :
    (∃ k', k.waitPhase p = .ok k' ∧ TimeoutMeans k p k') ↔
      Time.Representable k.alarms.currentTime p.timeout ∧
        k.alarms.Takes (.kevent p.thread) (k.alarms.currentTime + p.timeout.ticks) := by
  rw [← waitPhase_returns some relative]
  -- Registering keeps the time of the event, and the time is right where the timeout is representable.
  have when : ∀ {k'}, k.waitPhase p = .ok k' → k'.state p.thread = p.state ∧ k'.alarms.Queued (.kevent p.thread) ∧
      k'.alarms.event (.kevent p.thread) = { k'.alarms.event (.kevent p.thread) with
        data := (k.tcbs p.thread).globalId, type := .timeout, when := k.alarms.currentTime + p.timeout.ticks } := by
    intro k' done
    rw [waitPhase_finite some relative] at done
    obtain ⟨alarms, registered, done⟩ := bind_ok done
    cases done
    have same := Alarms.registerKalarmEvent_same registered
    have w := same.when (.kevent p.thread)
    have t := same.type (.kevent p.thread)
    have d := same.data (.kevent p.thread)
    rw [armed_event] at w t d
    rw [blocked_alarms, armedFor_alarms, blocked_state]
    refine ⟨rfl, Alarms.registerKalarmEvent_queued registered, ?_⟩
    dsimp only at w t d
    rw [← w, ← t, ← d]
  constructor
  · intro ⟨k', done, means⟩
    refine ⟨(Time.add_ticks_iff _ _).mp ?_, k', done⟩
    have set := (means.finite some).2.when
    rwa [(when done).2.2] at set
  · intro ⟨fits, k', done⟩
    obtain ⟨waits, queued, event⟩ := when done
    refine ⟨k', done, fun never => absurd (never ▸ rfl) some, fun zero => absurd zero some, fun _ => ⟨waits, queued, ?_, ?_, ?_⟩⟩
    · rw [event]
    · rw [event]
    · rw [event]
      exact (Time.add_ticks_iff _ _).mpr fits

/-- A timeout with no mantissa is `never`, and no alarm of the thread is left; the end of another one comes out right, and the
event can be put there. -/
def TimeoutFits (k : Kernel) (p : IpcPhase) : Prop :=
  (p.timeout.m = 0#32 → p.timeout = Time.never ∧ NoAlarm k p k.alarms) ∧
    (p.timeout.m ≠ 0#32 → Time.Representable k.alarms.currentTime p.timeout ∧
      k.alarms.Takes (.kevent p.thread) (k.alarms.currentTime + p.timeout.ticks))

/-- A phase whose partner is not ready does what its timeout says if and only if the timeout fits. Among the representable
timeouts a longer one never ends earlier. -/
theorem doIpc_timeout_iff {skipSending : Bool} (stalls : Stalls k skipSending p k₁) (relative : p.timeout.point = false)
    (fuel : Nat) :
    ((∃ k', doIpc (fuel + 1) k p.thread skipSending = .ok k' ∧ TimeoutMeans k₁ p k') ↔ TimeoutFits k₁ p) ∧
      ∀ (now : Word) (l r : Time), Time.Representable now l → Time.Representable now r → l.value ≤ r.value →
        (now + l.ticks).toNat ≤ (now + r.ticks).toNat := by
  refine ⟨?_, fun now l r left right longer => ?_⟩
  · rw [doIpc_of_stalls stalls fuel]
    by_cases zero : p.timeout.m = 0#32
    · rw [timeoutMeans_zero zero]
      exact ⟨fun never => ⟨fun _ => never, fun some => absurd zero some⟩, fun fits => fits.1 zero⟩
    · rw [timeoutMeans_finite zero relative]
      exact ⟨fun fits => ⟨fun none => absurd none zero, fun _ => fits⟩, fun fits => fits.2 zero⟩
  · rw [(Time.add_ticks_iff now l).mpr left, (Time.add_ticks_iff now r).mpr right]
    exact Nat.add_le_add_left (Nat.div_le_div_right longer) _

/-- Two threads, of which the first is about to send to the second and wait at most 1000 microseconds. -/
def twoThreads : Kernel :=
  let k := ofTable [rootId, SmallSystem.secondId] [0, 1] 2
  k.setMem (k.mem.setFrame 0#32 fun f => { f with r0 := SmallSystem.secondId, r2 := 0x03E80000#32 })

theorem doIpc_timeout_iff_finite : ∃ k', doIpc 1 twoThreads 0 false = .ok k' ∧
    TimeoutMeans (twoThreads.log (.sending 0 SmallSystem.secondId)) ⟨0, SmallSystem.secondId, 0x03E8#16, true⟩ k' :=
  (doIpc_timeout_iff (k := twoThreads) (p := ⟨0, SmallSystem.secondId, 0x03E8#16, true⟩)
    (Stalls.send (k := twoThreads) (t := 0) (by decide) (by rfl)) (by decide) 0).1.mpr
      ⟨fun zero => absurd zero (by decide), fun _ => ⟨by decide, [], none, ⟨rfl, by simp, by simp⟩, by decide, by simp, by simp⟩⟩

def sendAtOnce : List (Kernel → Action) :=
  [SmallSystem.load 0x6000#32 rootId 0#32 0x04000000#32 0#32 0#32 5#32, fun _ => .svc, fun _ => .pendsv]

/-- `L4_zero_time` is taken for `never`, and 2 · 2 ^ 31 microseconds end before 10 microseconds. -/
theorem doIpc_zero_waits : (∃ b k as k', boot SmallSystem.bootInfo = .ok b ∧ Theory.Run Step b as k ∧
      Stalls k false ⟨3, rootId, Time.zero, true⟩ (k.log (.sending 3 rootId)) ∧ doIpc 17 k 3 false = .ok k' ∧
      k'.state 3 = .sendBlocked ∧ ¬ TimeoutMeans (k.log (.sending 3 rootId)) ⟨3, rootId, Time.zero, true⟩ k') ∧
    Time.value 0x000A#16 < Time.value 0x7C02#16 ∧ Time.ticks 0x7C02#16 < Time.ticks 0x000A#16 := by
  refine ⟨?_, by decide⟩
  have done : (SmallSystem.start.any fun k => (Theory.follow next k sendAtOnce).any fun k =>
      (doIpc 17 k 3 false).toOption.any fun k' => decide (k'.state 3 = .sendBlocked ∧ k.sendTo 3 = rootId ∧
        k.sendTime 3 = Time.zero) && (k.findIpcPartner 3 rootId true).toOption == some .notready) = true := by decide +kernel
  obtain ⟨b, k, as, booted, run, _, later⟩ := SmallSystem.reached done
  obtain ⟨k₁, ran, served⟩ := (Option.any_eq_true _ _).mp later
  obtain ⟨k', handled, holds⟩ := (Option.any_eq_true _ _).mp served
  obtain ⟨first, search⟩ := Bool.and_eq_true_iff.mp holds
  obtain ⟨blocked, dest, timeout⟩ := of_decide_eq_true first
  obtain ⟨bs, steps⟩ := Theory.run_of_follow step_of_next ran
  have stalls := Stalls.send (k := k₁) (t := 3) (by rw [dest]; decide) (by rw [dest]; exact ok_of_toOption (beq_iff_eq.mp search))
  rw [dest, timeout] at stalls
  refine ⟨b, k₁, as ++ bs, k', booted, run.append steps, stalls, ok_of_toOption handled, blocked, fun means => ?_⟩
  have runs := (means.zero rfl (by decide)).1
  rw [blocked] at runs
  cases runs

end Kernel
end BradypOS
