import BradypOS.Kernel.Evaluate
import BradypOS.Softirq.Lockstep
import BradypOS.Thread.Boot

/-!
# Every trapped call is handled once, for its caller

From boot, the calls come one after another. A call that waits is run within three steps of the kernel
thread, however many ticks and context switches come between them.
-/

namespace BradypOS.Softirq

open L4 Kernel Scheduler

variable {s s' : Softirq} {k : Kernel} {t : Nat}

/-- The caller that the kernel thread has not finished with. -/
def opened : List Call → Option Nat
  | .trapped t :: _ | .handled t :: _ => some t
  | _ => none

/-- How many steps of the kernel thread are left until it has run `softirq_svc`. -/
def remaining : Phase → Nat
  | .yield => 3
  | .fetch => 2
  | .handle _ => 1
  | .clear _ => 0

theorem boot_lockstep {info : BootInfo} (h : boot info = .ok k) : Lockstep (start k) := by
  have b := booted h
  have stopped : k.state kernTcb ≠ .runnable := by
    unfold Kernel.state
    rw [b.kernel]
    intro same
    cases same
  refine ⟨trivial, ⟨(b.allocated _).mpr (by decide), ?_⟩, .idle ⟨?_, b.softirqPending, stopped, boot_ready h, .inl rfl, ?_⟩⟩
  · show threadNo (k.tcbs kernTcb).globalId = _
    rw [b.kernel]
    rfl
  · rintro call ⟨⟩
  · intro (current : k.currentThreadIdx = kernTcb)
    rw [b.currentThreadIdx] at current
    exact absurd current (by decide)

/-! ### The open call -/

theorem opened_head {calls : List Call} (h : opened calls = some t) :
    calls.head? = some (.trapped t) ∨ calls.head? = some (.handled t) := by
  cases calls with
  | nil => cases h
  | cons call calls =>
    cases call with
    | trapped u =>
      cases h
      exact .inl rfl
    | handled u =>
      cases h
      exact .inr rfl
    | finished => cases h

theorem Lockstep.waits (l : Lockstep s) (first : s.calls.head? = some (.trapped t)) : Waits s t := by
  cases l.stage with
  | idle idle =>
    have closed := idle.closed _ first
    cases closed
  | @waits u waits =>
    have same := waits.trapped
    rw [first] at same
    cases same
    exact waits
  | served served =>
    have same := served.handled
    rw [first] at same
    cases same

theorem Lockstep.served (l : Lockstep s) (first : s.calls.head? = some (.handled t)) : Served s t := by
  cases l.stage with
  | idle idle =>
    have closed := idle.closed _ first
    cases closed
  | waits waits =>
    have same := waits.trapped
    rw [first] at same
    cases same
  | @served u served =>
    have same := served.handled
    rw [first] at same
    cases same
    exact served

/-- The kernel thread that has the processor takes its next step, once the pending switch is done. -/
theorem Holds.moves (holds : Holds s.kernel) {a : Action} (enabled : s.kernel.InKernelThread → s.Enabled a) (works : a.works = true) :
    ¬ s.kernel.InUserThread ∧ (s.kernel.pendsv = true ∨ ∃ a : Action, a.works = true ∧ s.Enabled a) := by
  refine ⟨fun user => user.2.1 holds.current, ?_⟩
  cases pending : s.kernel.pendsv with
  | true => exact .inl rfl
  | false => exact .inr ⟨a, works, enabled ⟨holds.current, pending⟩⟩

/-- While a call is open, its caller is recorded, and no user thread runs before the kernel thread does. -/
theorem Lockstep.serves (l : Lockstep s) (first : opened s.calls = some t) :
    s.kernel.caller = t ∧ ¬ s.kernel.InUserThread ∧ (s.kernel.pendsv = true ∨ ∃ a : Action, a.works = true ∧ s.Enabled a) := by
  rcases opened_head first with trapped | handled
  · have waits := l.waits trapped
    refine ⟨waits.caller, ?_⟩
    rcases waits.place with ⟨holds, phase⟩ | ⟨gets, _⟩
    · rcases phase with phase | phase | phase
      · exact holds.moves (a := .fetch) (fun kernel => ⟨kernel, phase⟩) rfl
      · exact holds.moves (a := .handle 0) (fun kernel => ⟨kernel, true, phase⟩) rfl
      · exact holds.moves (a := .yield) (fun kernel => ⟨kernel, phase⟩) rfl
    · refine ⟨fun user => ?_, .inl gets.pendsv⟩
      have rests := user.2.2.2
      rw [gets.pendsv] at rests
      cases rests
  · have served := l.served handled
    exact ⟨served.caller, served.holds.moves (a := .clear) (fun kernel => ⟨kernel, true, served.phase⟩) rfl⟩

/-! ### Progress -/

theorem Waits.remaining_pos (waits : Waits s t) : 0 < remaining s.phase := by
  rcases waits.place with ⟨_, phase | phase | phase⟩ | ⟨_, phase | phase⟩
  all_goals
    rw [phase]
    decide

theorem step_calls {a : Action} (step : Step s a s') : s.calls <:+ s'.calls := by
  obtain ⟨enabled, h⟩ := step
  cases a with
  | user cpu mem =>
    cases h
    exact List.suffix_rfl
  | svc =>
    obtain ⟨k, _, h⟩ := bind_ok h
    cases h
    exact List.suffix_cons ..
  | systick =>
    obtain ⟨k, _, h⟩ := bind_ok h
    cases h
    exact List.suffix_rfl
  | pendsv =>
    obtain ⟨k, _, h⟩ := bind_ok h
    cases h
    exact List.suffix_rfl
  | fetch =>
    cases h
    exact List.suffix_rfl
  | handle fuel =>
    obtain ⟨_, pending, phase⟩ := enabled
    unfold effect at h
    rw [phase] at h
    have h : s.handle fuel pending = .ok s' := h
    unfold handle at h
    split at h
    · obtain ⟨k, _, h⟩ := bind_ok h
      cases h
      exact List.suffix_cons ..
    · cases h
      exact List.suffix_rfl
  | clear =>
    obtain ⟨_, pending, phase⟩ := enabled
    unfold effect at h
    rw [phase] at h
    have h : Except.ok (s.clear pending) = Except.ok s' := h
    cases h
    unfold clear
    cases pending with
    | false => exact ⟨[], by dsimp only; split <;> rfl⟩
    | true => exact ⟨[.finished], by dsimp only; split <;> rfl⟩
  | yield =>
    obtain ⟨k, _, h⟩ := bind_ok h
    cases h
    exact List.suffix_rfl

theorem run_calls {as : List Action} (run : Theory.Run (Theory.Guarded Proper Step) s as s') : s.calls <:+ s'.calls :=
  run.relates (R := fun s s' : Softirq => s.calls <:+ s'.calls) (fun s => List.suffix_refl s.calls)
    (fun _ _ _ grown grown' => grown.trans grown') fun _ _ _ step => step_calls step.2

/-- A step with a call waiting runs it, or brings the kernel thread a step closer if it is the kernel thread's. -/
theorem Lockstep.advances {a : Action} (l : Lockstep s) (first : s.calls.head? = some (.trapped t)) (step : Step s a s') :
    s'.calls = .handled t :: s.calls ∨ s'.calls = s.calls ∧ remaining s'.phase + a.works.toNat = remaining s.phase := by
  have waits := l.waits first
  obtain ⟨enabled, h⟩ := step
  cases a with
  | user cpu mem =>
    cases h
    exact .inr ⟨rfl, rfl⟩
  | svc =>
    have closed := (l.stage.idle_of_user enabled.1).closed _ first
    cases closed
  | systick =>
    obtain ⟨k, _, h⟩ := bind_ok h
    cases h
    exact .inr ⟨rfl, rfl⟩
  | pendsv =>
    obtain ⟨k, _, h⟩ := bind_ok h
    cases h
    exact .inr ⟨rfl, rfl⟩
  | fetch =>
    cases h
    rw [enabled.2]
    exact .inr ⟨rfl, rfl⟩
  | handle fuel =>
    obtain ⟨_, pending, phase⟩ := enabled
    obtain ⟨rfl, _⟩ := l.stage.waiting phase
    unfold effect at h
    rw [phase] at h
    obtain ⟨k, _, h⟩ := bind_ok h
    cases h
    refine .inl ?_
    rw [← waits.caller]
  | clear =>
    obtain ⟨_, pending, phase⟩ := enabled
    obtain ⟨_, u, served⟩ := l.stage.serving phase
    have same := served.handled
    rw [first] at same
    cases same
  | yield =>
    obtain ⟨k, _, h⟩ := bind_ok h
    cases h
    rw [enabled.2]
    exact .inr ⟨rfl, rfl⟩

theorem run_handles {as : List Action} (run : Theory.Run (Theory.Guarded Proper Step) s as s') (l : Lockstep s)
    (first : s.calls.head? = some (.trapped t)) (enough : remaining s.phase ≤ as.countP Action.works) :
    (.handled t :: s.calls) <:+ s'.calls := by
  induction run with
  | nil s =>
    have positive := (l.waits first).remaining_pos
    simp at enough
    omega
  | @cons s u s' a as step rest ih =>
    rcases l.advances first step.2 with handled | ⟨same, closer⟩
    · rw [← handled]
      exact run_calls rest
    · have enough' : remaining u.phase ≤ as.countP Action.works := by
        rw [List.countP_cons] at enough
        cases works : a.works <;> simp [works] at enough closer <;> omega
      have later := ih (step_lockstep l step.1 step.2) (same ▸ first) enough'
      rw [same] at later
      exact later

/-- In every run from boot in which no call makes the kernel thread active, and its yield asks for nobody who
could run while a call is open: the calls are trapped, handled and finished one after another, each for the
thread that trapped; a call that is open has its caller recorded, with no user thread running until it is
finished; and one that waits is handled before the kernel thread has taken three more steps. -/
theorem handled_once {info : BootInfo} {b : Kernel} {as : List Action} (booted : boot info = .ok b)
    (run : Theory.Run (Theory.Guarded Proper Step) (start b) as s) :
    Orderly s.calls ∧
    (∀ t, opened s.calls = some t → s.kernel.caller = t ∧ ¬ s.kernel.InUserThread ∧
      (s.kernel.pendsv = true ∨ ∃ a : Action, a.works = true ∧ s.Enabled a)) ∧
    ∀ t, s.calls.head? = some (.trapped t) → ∀ bs s', Theory.Run (Theory.Guarded Proper Step) s bs s' →
      3 ≤ bs.countP Action.works → (.handled t :: s.calls) <:+ s'.calls := by
  have l : Lockstep s :=
    run.invariant (I := Lockstep) (fun _ _ _ step l => step_lockstep l step.1 step.2) (boot_lockstep booted)
  refine ⟨l.orderly, fun t first => l.serves first, fun t first bs s' later enough => ?_⟩
  have bound : remaining s.phase ≤ 3 := by
    cases s.phase <;> simp [remaining]
  exact run_handles later l first (bound.trans enough)

/-! ### Runs of the small system -/

/-- Distinct heap entries of at most 16 threads, with the kernel thread alone at priority 0. -/
def Within (s : Softirq) (_ : Action) : Prop := Fair s.kernel ∧ ∀ t ∈ s.kernel.ready, t < maxThreads

/-- What `Proper` asks of the action itself. -/
def Spares (k : Kernel) : Action → Prop
  | .handle _ => ¬ k.ActivatesKernel
  | .yield => k.softirqPending = true → ∀ t ∈ k.findThreadByGlobalId nilThread, t ∉ k.ready
  | _ => True

instance (s : Softirq) (a : Action) : Decidable (Within s a) := inferInstanceAs (Decidable (_ ∧ _))

instance (k : Kernel) : Decidable k.ActivatesKernel := inferInstanceAs (Decidable (_ ∧ _ ∧ _ ∧ _ ∧ _ ∧ _ ∧ _))

instance (k : Kernel) : (a : Action) → Decidable (Spares k a)
  | .handle _ => inferInstanceAs (Decidable (¬ _))
  | .yield => inferInstanceAs (Decidable (_ = true → ∀ t ∈ k.findThreadByGlobalId nilThread, t ∉ k.ready))
  | .user _ _ | .svc | .systick | .pendsv | .fetch | .clear => inferInstanceAs (Decidable True)

theorem proper_iff {a : Action} : Within s a ∧ Spares s.kernel a ↔ Proper s a := by
  constructor
  · rintro ⟨⟨fair, slots⟩, spares⟩
    refine ⟨fair, slots, ?_, ?_⟩
    · rintro fuel rfl
      exact spares
    · rintro rfl
      exact spares
  · intro proper
    refine ⟨⟨proper.fair, proper.slots⟩, ?_⟩
    cases a with
    | handle fuel => exact proper.spares fuel rfl
    | yield => exact proper.yields rfl
    | user | svc | systick | pendsv | fetch | clear => trivial

instance (s : Softirq) (a : Action) : Decidable (Proper s a) := decidable_of_iff _ proper_iff

/-- The end of the time slice is all that is queued. -/
def OnlyReschedule (k : Kernel) : Prop :=
  k.ticked.alarms.nextEvent = some .reschedule ∧ (k.ticked.alarms.event .reschedule).next = none ∧
    (k.ticked.alarms.event .reschedule).type = .reschedule

theorem OnlyReschedule.tick (only : OnlyReschedule k) : RescheduleTick k := by
  obtain ⟨first, last, type⟩ := only
  intro ev due
  have alone : ev = .reschedule := by
    induction due with
    | head next _ =>
      rw [first] at next
      exact (Option.some.inj next).symm
    | next _ link _ ih =>
      rw [ih, last] at link
      cases link
  rw [alone]
  exact type

/-- `Enabled`, with a tick only when its events can be told from the head of the queue. -/
def Takes (s : Softirq) : Action → Prop
  | .systick => OnlyReschedule s.kernel
  | a => s.Enabled a

instance (s : Softirq) : (a : Action) → Decidable (s.Takes a)
  | .user _ _ => inferInstanceAs (Decidable s.kernel.InUserThread)
  | .svc => inferInstanceAs (Decidable (_ ∧ _ ∧ _))
  | .systick => inferInstanceAs (Decidable (_ ∧ _ ∧ _))
  | .pendsv => inferInstanceAs (Decidable (_ = true))
  | .fetch | .yield => inferInstanceAs (Decidable (_ ∧ _))
  | .handle _ | .clear => inferInstanceAs (Decidable (_ ∧ ∃ _ : Bool, _ = _))

def next (s : Softirq) (a : Action) : Option Softirq :=
  if s.Takes a then (s.effect a).toOption.map fun s => { s with kernel := s.kernel.normal } else none

theorem step_of_next (s : Softirq) (a : Action) (s' : Softirq) (h : next s a = some s') : Step s a s' := by
  unfold next at h
  split at h
  · rename_i takes
    obtain ⟨u, done, rfl⟩ := Option.map_eq_some_iff.mp h
    rw [normal_eq]
    refine ⟨?_, ok_of_toOption done⟩
    cases a with
    | systick => exact OnlyReschedule.tick takes
    | user | svc | pendsv | fetch | handle | clear | yield => exact takes
  · cases h

/-- The running thread loads its registers and the arguments of a system call. -/
def load (sp r0 r1 r2 r3 r4 r7 : Word) (s : Softirq) : Action :=
  .user { s.kernel.cpu with sp, ret := exceptionReturnToThread, r4, r7 } (s.kernel.mem.setFrame sp fun f => { f with r0, r1, r2, r3 })

/-- The root thread traps. -/
def firstCall : List (Softirq → Action) :=
  [fun _ => .pendsv, load 0x4000#32 0#32 0#32 0#32 0#32 0#32 7#32, fun _ => .svc]

/-- The kernel thread gets the processor and works on the call. -/
def turn : List Action := [.pendsv, .fetch, .handle 17, .clear]

theorem handled_once_firstCall : ∃ b s s' as, boot SmallSystem.bootInfo = .ok b ∧
    Theory.Run (Theory.Guarded Proper Step) (start b) as s ∧ Theory.Run (Theory.Guarded Proper Step) s turn s' ∧
    s.calls = [.trapped rootTcb] ∧ s.kernel.caller = rootTcb ∧ (.handled rootTcb :: s.calls) <:+ s'.calls := by
  have done : ((boot SmallSystem.bootInfo).toOption.any fun b =>
      (Theory.follow (Theory.restrict Proper next) (start b) firstCall).any fun s =>
        decide (s.calls = [.trapped rootTcb]) &&
          (Theory.follow (Theory.restrict Proper next) s (turn.map fun a _ => a)).isSome) = true := by decide +kernel
  obtain ⟨b, booted, later⟩ := (Option.any_eq_true _ _).mp done
  obtain ⟨s, ran, later⟩ := (Option.any_eq_true _ _).mp later
  obtain ⟨calls, later⟩ := Bool.and_eq_true_iff.mp later
  obtain ⟨s', ran'⟩ := Option.isSome_iff_exists.mp later
  have sound : ∀ s a s', Theory.restrict Proper next s a = some s' → Theory.Guarded Proper Step s a s' :=
    Theory.guarded_of_restrict step_of_next
  obtain ⟨as, run⟩ := Theory.run_of_follow sound ran
  have run' := Theory.run_of_follow_const sound ran'
  have calls := of_decide_eq_true calls
  have booted := ok_of_toOption booted
  obtain ⟨_, serves, handles⟩ := handled_once booted run
  have first : opened s.calls = some rootTcb := by rw [calls]; rfl
  have trapped : s.calls.head? = some (.trapped rootTcb) := by rw [calls]; rfl
  exact ⟨b, s, s', as, booted, run, run', calls, (serves _ first).1, handles _ trapped turn s' run' (by decide)⟩

/-- The root thread asks for the kernel thread's space, with an area that covers its UTCB pointer, zero. At the
end of the time slice the kernel thread is active and loses the processor, and the root thread traps again. -/
def activateKernel : List (Softirq → Action) :=
  [fun _ => .pendsv, fun s => load 0x4000#32 kernId 0#32 s.kernel.kipFpage (Fpage.log2 0#32 12) 0#32 1#32 s, fun _ => .svc,
    fun _ => .pendsv, fun _ => .fetch, fun _ => .handle 17] ++
  List.replicate 10 (fun _ => .systick) ++
  [fun _ => .pendsv, load 0x4000#32 0#32 0#32 0#32 0#32 0#32 7#32, fun _ => .svc, fun _ => .pendsv, fun _ => .clear]

/-- The bit of the second call is cleared with the first one's, and the kernel thread goes inactive. -/
theorem activateKernel_loses : ∃ b s as, boot SmallSystem.bootInfo = .ok b ∧
    Theory.Run (Theory.Guarded Within Step) (start b) as s ∧
    s.calls = [.finished, .trapped rootTcb, .handled rootTcb, .trapped rootTcb] ∧ ¬ Orderly s.calls ∧
    s.kernel.softirqPending = false ∧ s.kernel.state kernTcb = .inactive := by
  have done : ((boot SmallSystem.bootInfo).toOption.any fun b =>
      (Theory.follow (Theory.restrict Within next) (start b) activateKernel).any fun s =>
        decide (s.calls = [.finished, .trapped rootTcb, .handled rootTcb, .trapped rootTcb] ∧
          s.kernel.softirqPending = false ∧ s.kernel.state kernTcb = .inactive)) = true := by decide +kernel
  obtain ⟨b, booted, later⟩ := (Option.any_eq_true _ _).mp done
  obtain ⟨s, ran, holds⟩ := (Option.any_eq_true _ _).mp later
  obtain ⟨calls, pending, inactive⟩ := of_decide_eq_true holds
  have sound : ∀ s a s', Theory.restrict Within next s a = some s' → Theory.Guarded Within Step s a s' :=
    Theory.guarded_of_restrict step_of_next
  obtain ⟨as, run⟩ := Theory.run_of_follow sound ran
  refine ⟨b, s, as, ok_of_toOption booted, run, calls, ?_, pending, inactive⟩
  rw [calls]
  rintro ⟨⟨_, handled⟩, _⟩
  cases handled

end BradypOS.Softirq
