import BradypOS.Ipc.Start

/-!
# Whose saved stack pointers IPC stores through

A copied message leaves the sender's id in the frame at the receiver's saved stack pointer. Creation
does not set that pointer; a start message and a context switch do. A call stores through the pointers
of the caller, of threads that wait, and of one thread at most that is not started.
-/

namespace BradypOS

open L4

/-- The thread that was chosen last. -/
def lastSelected : List Event → Option Nat
  | [] => none
  | .selected t :: _ => some t
  | _ :: es => lastSelected es

/-- Whether a thread was given a stack pointer since its creation, by a start message or by a context
switch away from it. -/
def given : List Event → Nat → Bool
  | [], _ => false
  | .created c :: es, t => c ≠ t && given es t
  | .started _ p :: es, t => p = t || given es t
  | .selected _ :: es, t => lastSelected es = some t || given es t
  | _ :: es, t => given es t

/-- Whose frame a copied message stores to. -/
def Event.stores : Event → Option Nat
  | .copied _ dst => some dst
  | _ => none

theorem Event.of_stores {e : Event} {d : Nat} (h : e.stores = some d) : ∃ src, e = .copied src d := by
  cases e with
  | copied src dst =>
    cases h
    exact ⟨src, rfl⟩
  | _ => cases h

/-- Messages were copied to threads that had been given a stack pointer. -/
def StoresGiven : List Event → Prop
  | [] => True
  | e :: es => (∀ d, e.stores = some d → given es d = true) ∧ StoresGiven es

/-- No slot is handed out and no thread chosen. -/
def Event.steady : Event → Bool
  | .created _ | .selected _ => false
  | _ => true

theorem StoresGiven.before {later earlier : List Event} {src dst : Nat}
    (stores : StoresGiven (later ++ .copied src dst :: earlier)) : given earlier dst = true := by
  induction later with
  | nil => exact stores.1 dst rfl
  | cons e later ih => exact ih stores.2

/-- Some message was copied to a thread that had not. -/
def storesUngiven : List Event → Bool
  | [] => false
  | .copied _ d :: es => !given es d || storesUngiven es
  | _ :: es => storesUngiven es

theorem storesUngiven_split {trace : List Event} (h : storesUngiven trace = true) :
    ∃ later src dst earlier, trace = later ++ .copied src dst :: earlier ∧ given earlier dst = false := by
  induction trace with
  | nil => cases h
  | cons e trace ih =>
    have rest : storesUngiven trace = true → ∃ later src dst earlier,
        e :: trace = later ++ .copied src dst :: earlier ∧ given earlier dst = false := by
      intro before
      obtain ⟨later, src, dst, earlier, same, wild⟩ := ih before
      exact ⟨e :: later, src, dst, earlier, congrArg (e :: ·) same, wild⟩
    cases e with
    | copied src dst =>
      simp only [storesUngiven, Bool.or_eq_true, Bool.not_eq_true'] at h
      rcases h with wild | before
      · exact ⟨[], src, dst, trace, rfl, wild⟩
      · exact rest before
    | _ => exact rest h

theorem steady_selected {e : Event} (steady : e.steady = true) (es : List Event) :
    lastSelected (e :: es) = lastSelected es := by
  cases e <;> first | rfl | cases steady

theorem steady_given {e : Event} {t : Nat} (steady : e.steady = true) {es : List Event} (h : given es t = true) :
    given (e :: es) t = true := by
  cases e with
  | created c => cases steady
  | selected c => cases steady
  | started pager p => simp [given, h]
  | _ => exact h

namespace Kernel

variable {k k' k'' : Kernel} {Q Q' : Nat → Prop}

/-- Only through stack pointers of threads in `Q` is anything stored. -/
def Stores (Q : Nat → Prop) (k k' : Kernel) : Prop :=
  ∃ es, k'.trace = es ++ k.trace ∧ ∀ e ∈ es, e.steady = true ∧ ∀ d, e.stores = some d → Q d

namespace Stores

theorem of_trace (same : k'.trace = k.trace) : Stores Q k k' := ⟨[], same, nofun⟩

theorem trans (h : Stores Q k k') (h' : Stores Q k' k'') : Stores Q k k'' := by
  obtain ⟨es, grown, each⟩ := h
  obtain ⟨es', grown', each'⟩ := h'
  refine ⟨es' ++ es, by rw [grown', grown, List.append_assoc], fun e member => ?_⟩
  rcases List.mem_append.mp member with member | member
  · exact each' e member
  · exact each e member

theorem mono (sub : ∀ d, Q d → Q' d) (h : Stores Q k k') : Stores Q' k k' := by
  obtain ⟨es, grown, each⟩ := h
  exact ⟨es, grown, fun e member => ⟨(each e member).1, fun d stores => sub d ((each e member).2 d stores)⟩⟩

theorem event {e : Event} (grown : k'.trace = e :: k.trace) (steady : e.steady = true) (each : ∀ d, e.stores = some d → Q d) :
    Stores Q k k' := by
  refine ⟨[e], grown, fun e' member => ?_⟩
  rw [List.mem_singleton.mp member]
  exact ⟨steady, each⟩

theorem setThreadState (h : Stores Q k k') (t : Nat) (st : ThreadState) : Stores Q k (k'.setThreadState t st) := by
  have moved : Stores Q k' (k'.moveSchedule t st) := by
    unfold moveSchedule
    split
    · exact .event rfl rfl nofun
    · split
      · unfold scheduleRemove
        split <;> exact .of_trace rfl
      · exact .of_trace rfl
  have noted : Stores Q (k'.moveSchedule t st) (k'.setThreadState t st) := .event rfl rfl nofun
  exact (h.trans moved).trans noted

theorem reportError (h : Stores Q k k') (t : Nat) (p : Bool) (err : IpcErrorCode) : Stores Q k (k'.reportError t p err) :=
  h.trans (.event rfl rfl nofun)

theorem setIpcError (h : Stores Q k k') (t : Nat) : Stores Q k (k'.setIpcError t) := h.trans (.of_trace rfl)

theorem endError (h : Stores Q k k') (t : Nat) (waits : ThreadState) : Stores Q k (k'.endIpc t waits .error) :=
  (h.setIpcError t).setThreadState t .runnable

theorem copied {src dst : Nat} (h : Stores Q k k') (copied : k'.copyPayload src dst = .ok (.none, k'')) (here : Q dst) :
    Stores Q k k'' := by
  obtain ⟨mem, _, rfl⟩ := copyPayload_spec copied
  refine h.trans (.event (e := .copied src dst) rfl rfl fun d stores => ?_)
  cases stores
  exact here

theorem failed {src dst : Nat} {err : IpcErrorCode} (h : Stores Q k k') (failed : k'.copyPayload src dst = .ok (err, k''))
    (overflow : err ≠ .none) : Stores Q k k'' := by
  obtain ⟨mem, _, rfl⟩ := copyPayload_spec failed
  rw [if_neg overflow]
  exact h.trans (.of_trace rfl)

theorem registerKevent {t : Nat} (h : Stores Q k k') (registered : k'.registerKevent t = .ok k'') : Stores Q k k'' := by
  obtain ⟨alarms, rfl⟩ := registerKevent_frame registered
  exact h.trans (.event rfl rfl nofun)

theorem setThreadTimeout {t : Nat} {timeout : Time} {st : ThreadState} {blocks : Bool} (h : Stores Q k k')
    (armed : k'.setThreadTimeout t timeout st = .ok (blocks, k'')) : Stores Q k k'' := by
  rcases setThreadTimeout_cases armed with ⟨_, _, rfl⟩ | ⟨_, _, _, rfl⟩ | ⟨_, _, _, _, k₁, registered, rfl⟩
  · exact h.trans (.event rfl rfl nofun)
  · exact h
  · have noted : Stores Q k' ((k'.log (.waiting t st timeout k'.alarms.currentTime)).setKevent t fun ev =>
        { ev with data := (k'.tcbs t).globalId, type := .timeout, when := k'.alarms.currentTime + timeout.ticks }) :=
      .event rfl rfl nofun
    exact ((h.trans noted).registerKevent registered).setThreadState t st

end Stores

/-! ### Which stack pointers a call stores through -/

theorem Received.stores {t : Nat} {src : Word} {timeout : Time} (h : Received k t src timeout k') :
    Stores (fun d => d = t ∨ Chain k t src d) k k' := by
  induction h with
  | skip nil => exact (Stores.of_trace rfl).setThreadState _ _
  | @serve k k₁ k₂ t s src timeout named found copied rest ih =>
    have same := copyPayload_same false copied
    have later : Stores (fun d => d = t ∨ Chain k t src d) k₁ k₂ := by
      refine ih.mono fun d here => ?_
      rcases here with rfl | chain
      · exact .inr (.found named found)
      · have back := chain.congr same.1 fun s _ => same.2.1 s
        rw [same.2.1 s] at back
        exact .inr (.next named found back)
    exact (((Stores.of_trace rfl).copied copied (.inl rfl)).trans later).setThreadState t .runnable
  | @refuse k k₁ t s src timeout err named found failed overflow =>
    have told := ((Stores.of_trace (Q := fun d => d = t ∨ Chain k t src d) rfl).failed failed overflow).reportError t true
      .messageOverflow
    exact ((((told.reportError s false .messageOverflow).setIpcError t).setIpcError s).setThreadState s .runnable).endError _ _
  | missing named found => exact ((Stores.of_trace rfl).reportError _ _ _).endError _ _
  | block named found armed =>
    refine Stores.setThreadState ?_ _ _
    exact ((Stores.of_trace rfl).setThreadTimeout armed).trans (.of_trace rfl)
  | abort named found zero => exact ((Stores.of_trace rfl).reportError _ _ _).endError _ _

/-- The receiver of a message, where it is not started by it. -/
def Addressed (k : Kernel) (t : Nat) (dest : Word) (p : Nat) : Prop :=
  isNilThread dest = false ∧ (k.findIpcPartner t dest true = .ok (.found p) ∨
    k.findIpcPartner t dest true = .ok (.pagerMsg p) ∧ ¬ k.isStartMessage t)

theorem Sent.stores {t : Nat} {dest : Word} {timeout : Time} {r : PhaseResult} (h : Sent k t dest timeout r k') :
    Stores (k.Addressed t dest) k k' := by
  have noted : Stores (k.Addressed t dest) k (k.log (.sending t dest)) := .event rfl rfl nofun
  cases h with
  | skip nil => exact .of_trace rfl
  | deliver named found copied => exact (noted.copied copied ⟨named, .inl found⟩).setThreadState _ _
  | @refuse p k₁ err named found failed overflow =>
    have told := ((noted.failed failed overflow).reportError t false err).reportError p true err
    exact ((told.setIpcError t).setIpcError p).setThreadState p .runnable
  | @start p named found start =>
    have moved : Stores (k.Addressed t dest) k ((k.log (.sending t dest)).startContext t p) := noted.trans (.of_trace rfl)
    exact (moved.setThreadState p .runnable).trans (.event rfl rfl nofun)
  | pagerDeliver named found copied other => exact noted.copied copied ⟨named, .inr ⟨found, other⟩⟩
  | pagerRefuse named found failed overflow => exact ((noted.failed failed overflow).reportError _ _ _).setIpcError _
  | missing => exact noted.reportError _ _ _
  | block named found armed => exact (noted.setThreadTimeout armed).trans (.of_trace rfl)
  | abort => exact noted.reportError _ _ _

/-- The threads whose saved stack pointer a call of `c` may use. -/
def StoresTo (k : Kernel) (c d : Nat) : Prop :=
  d = c ∨ Chain k c (k.recvFrom c) d ∨ k.Addressed c (k.sendTo c) d

theorem Called.stores {c : Nat} (h : Called k c k') : Stores (k.StoresTo c) k k' := by
  have sends : ∀ {r : PhaseResult} {k₁ : Kernel}, Sent k c (k.sendTo c) (k.sendTime c) r k₁ → Stores (k.StoresTo c) k k₁ :=
    fun sent => sent.stores.mono fun d here => .inr (.inr here)
  cases h with
  | @receives k₁ k₂ sent received =>
    refine (sends sent).trans (received.stores.mono fun d here => ?_)
    rcases here with rfl | chain
    · exact .inl rfl
    · exact .inr (.inl (sent.chain chain))
  | fails sent => exact (sends sent).endError _ _
  | waits sent => exact (sends sent).setThreadState _ _

/-! ### Which stack pointers a call sets -/

/-- The record of the step shows that `t` was started. -/
def StartedIn (k k' : Kernel) (t : Nat) : Prop := ∃ pager es, k'.trace = es ++ k.trace ∧ .started pager t ∈ es

theorem StartedIn.later {t : Nat} (h : StartedIn k k' t) (grown : Stores Q k' k'') : StartedIn k k'' t := by
  obtain ⟨pager, es, same, member⟩ := h
  obtain ⟨es', same', _⟩ := grown
  exact ⟨pager, es' ++ es, by rw [same', same, List.append_assoc], List.mem_append_right _ member⟩

theorem copyPayload_tcbs {src dst : Nat} {err : IpcErrorCode} (h : k.copyPayload src dst = .ok (err, k')) : k'.tcbs = k.tcbs := by
  obtain ⟨mem, _, rfl⟩ := copyPayload_spec h
  split <;> rfl

theorem Sent.contexts {c : Nat} {dest : Word} {timeout : Time} {r : PhaseResult} (h : Sent k c dest timeout r k') (t : Nat) :
    (k'.tcbs t).ctx = (k.tcbs t).ctx ∨ StartedIn k k' t := by
  have noted : Stores (fun _ => True) k (k.log (.sending c dest)) := .event rfl rfl nofun
  cases h with
  | skip nil => exact .inl rfl
  | @deliver p k₁ named found copied =>
    left
    rw [((Parked.refl k₁).setThreadState p .runnable).ctx, copyPayload_tcbs copied]
    rfl
  | @refuse p k₁ err named found failed overflow =>
    left
    have told := (((Parked.refl k₁).reportError c false err).reportError p true err).setIpcError c
    have same := ((told.setIpcError p).setThreadState p .runnable).ctx t
    exact same.trans (congrArg (fun tcbs => (tcbs t).ctx) (copyPayload_tcbs failed))
  | @start p named found start =>
    have moved : Stores (fun _ => True) k ((k.log (.sending c dest)).startContext c p) := noted.trans (.of_trace rfl)
    obtain ⟨es, grown, _⟩ := moved.setThreadState p .runnable
    by_cases here : t = p
    · right
      subst here
      exact ⟨c, .started c t :: es, congrArg (Event.started c t :: ·) grown, List.mem_cons_self⟩
    · left
      obtain ⟨ctx, same, kept⟩ := startContext_tcbs (k := k.log (.sending c dest)) c p t
      have woken := ((Parked.refl ((k.log (.sending c dest)).startContext c p)).setThreadState p .runnable).ctx t
      apply woken.trans
      rw [same]
      exact kept here
  | pagerDeliver named found copied other =>
    left
    rw [copyPayload_tcbs copied]
    rfl
  | pagerRefuse named found failed overflow =>
    exact .inl (congrArg (fun tcbs => (tcbs t).ctx) (copyPayload_tcbs failed))
  | missing => exact .inl rfl
  | block named found armed =>
    left
    obtain ⟨⟨st, tcbs⟩, _⟩ := setThreadTimeout_frame armed
    by_cases here : t = c
    · subst here
      rw [setTcb_same, tcbs, Function.update_self]
      rfl
    · rw [setTcb_other _ _ _ _ here, tcbs, Function.update_of_ne here]
      rfl
  | abort => exact .inl rfl

/-- A call sets the saved contexts of the threads that it starts alone. -/
theorem Called.contexts {c : Nat} (h : Called k c k') (t : Nat) : (k'.tcbs t).ctx = (k.tcbs t).ctx ∨ StartedIn k k' t := by
  cases h with
  | @receives k₁ k₂ sent received =>
    rcases sent.contexts t with same | started
    · exact .inl ((received.parked.ctx t).trans same)
    · exact .inr (started.later received.stores)
  | @fails k₁ sent =>
    have ended : Stores (fun _ => True) k₁ (k₁.endIpc c .sendBlocked .error) := (Stores.of_trace rfl).endError c .sendBlocked
    rcases sent.contexts t with same | started
    · exact .inl ((((Parked.refl k₁).endError c .sendBlocked).ctx t).trans same)
    · exact .inr (started.later ended)
  | @waits k₁ sent =>
    have blocked : Stores (fun _ => True) k₁ (k₁.setThreadState c .sendBlocked) := (Stores.of_trace rfl).setThreadState c .sendBlocked
    rcases sent.contexts t with same | started
    · exact .inl ((((Parked.refl k₁).setThreadState c .sendBlocked).ctx t).trans same)
    · exact .inr (started.later blocked)

end Kernel
end BradypOS
