import BradypOS.Ipc.Waits

/-!
# IPC, one step after another

The kernel thread runs `do_ipc` with interrupts enabled, so the timeouts of a tick come between any two of its steps. An
activation of `do_ipc` stands at a point in front of its next step; `advance` takes this step. A search, a copy and the four
stores of an error are one step each, and `set_thread_state` without disabled interrupts is two.
-/

namespace BradypOS

open L4 Kernel

inductive Point where
  /-- `ipc_send`, up to the search. -/
  | send
  | deliver (partner : Nat)
  | unsent (partner : Nat) (err : IpcErrorCode)
  /-- The partner waits for a pager's message. -/
  | start (partner : Nat)
  | pagerUnsent (err : IpcErrorCode)
  /-- `ipc_recv`, up to the search. -/
  | receive
  | take (partner : Nat)
  | reject (partner : Nat)
  /-- `do_ipc(from_tcb, true)`. -/
  | serve (partner : Nat)
  /-- The partner becomes runnable, and the phase ends with the result. -/
  | wake (sending : Bool) (partner : Nat) (result : PhaseResult)
  | missing (sending : Bool)
  | wait (sending : Bool)
  | abort (sending : Bool)
  /-- The timeout is set, and `ipc_from` not yet. -/
  | mark (sending : Bool)
  /-- The `switch` in `do_ipc` over the result of a phase. -/
  | ended (sending : Bool) (result : PhaseResult)
  | finish (state : ThreadState)
  /-- Inside `set_thread_state`, in front of the store. -/
  | store (state : ThreadState)
  deriving DecidableEq

/-- An activation of `do_ipc`, with the words that it read from its thread's stack. -/
structure Activation where
  thread : Nat
  dest : Word
  src : Word
  timeouts : Word
  point : Point

/-- The kernel thread, inside the activations on its stack. -/
structure Calls where
  kernel : Kernel
  stack : List Activation

namespace Activation

def enter (k : Kernel) (thread : Nat) (point : Point) : Activation :=
  let sp := k.mem.frame (k.tcbs thread).ctx.sp
  { thread, dest := sp.r0, src := sp.r1, timeouts := sp.r2, point }

def go (a : Activation) (point : Point) : Activation := { a with point }

def partner (a : Activation) (sending : Bool) : Word := if sending then a.dest else a.src

def timeout (a : Activation) (sending : Bool) : Time := if sending then sendTimeout a.timeouts else recvTimeout a.timeouts

def waits (sending : Bool) : ThreadState := if sending then .sendBlocked else .recvBlocked

end Activation

namespace Calls

open Activation

/-- The next step of the innermost activation. -/
def advance (k : Kernel) (a : Activation) (rest : List Activation) : Fallible Calls :=
  let t := a.thread
  let next := fun (k : Kernel) (p : Point) => (.ok ⟨k, a.go p :: rest⟩ : Fallible Calls)
  match a.point with
  | .send =>
    if isNilThread a.dest then next k (.ended true .done)
    else do
      let search ← k.findIpcPartner t a.dest true
      let k := k.log (.sending t a.dest)
      match search with
      | .found p => next k (.deliver p)
      | .pagerMsg p => next k (.start p)
      | .nonexistent => next k (.missing true)
      | .notready => next k (.wait true)
  | .deliver p => do
    let (ret, k) ← k.copyPayload t p
    if ret = .none then next k (.wake true p .done) else next k (.unsent p ret)
  | .unsent p err =>
    let k := (k.reportError t false err).reportError p true err
    next ((k.setIpcError t).setIpcError p) (.wake true p .error)
  | .start p =>
    let tag := (k.mem.utcb (k.tcbs t).utcb).mr 0
    if MsgTag.flags tag = 0#32 ∧ MsgTag.label tag = 0#32 ∧ MsgTag.t tag = 0 ∧ MsgTag.u tag = 2 then
      next (k.pagerStartThread t p) (.ended true .done)
    else do
      let (ret, k) ← k.copyPayload t p
      if ret = .none then next k (.ended true .done) else next k (.pagerUnsent ret)
  | .pagerUnsent err => next ((k.reportError t false err).setIpcError t) (.ended true .error)
  | .receive =>
    if isNilThread a.src then next k (.ended false .done)
    else do
      let search ← k.findIpcPartner t a.src false
      match search with
      | .found s => next k (.take s)
      | .pagerMsg _ => .error (.panic .pagerMessageInRecv)
      | .nonexistent => next k (.missing false)
      | .notready => next k (.wait false)
  | .take s => do
    let (ret, k) ← k.copyPayload s t
    if ret = .none then next k (.serve s) else next k (.reject s)
  | .reject s =>
    let k := (k.reportError t true .messageOverflow).reportError s false .messageOverflow
    next ((k.setIpcError t).setIpcError s) (.wake false s .error)
  | .serve s => .ok ⟨k, .enter k s .receive :: a.go (.ended false .done) :: rest⟩
  | .wake sending p result => next (k.setThreadState p .runnable) (.ended sending result)
  | .missing sending => next (k.reportError t (!sending) .nonexistentPartner) (.ended sending .error)
  | .wait sending => do
    let (blocks, k) ← k.setThreadTimeout t (a.timeout sending) (waits sending)
    next k (if blocks then .mark sending else .abort sending)
  | .abort sending => next (k.reportError t (!sending) .aborted) (.ended sending .error)
  | .mark sending => next (k.setTcb t fun tcb => { tcb with ipcFrom := a.partner sending }) (.ended sending .wait)
  | .ended true .done => next k .receive
  | .ended false .done => next k (.finish .runnable)
  | .ended _ .error => next (k.setIpcError t) (.finish .runnable)
  | .ended sending .wait => next k (.finish (waits sending))
  | .finish state => next (k.moveSchedule t state) (.store state)
  | .store state => .ok ⟨(k.setTcb t fun tcb => { tcb with state }).log (.stateSet t state), rest⟩

inductive Action where
  /-- The system call of a thread, with the registers and the memory that it left. -/
  | call (caller : Nat) (cpu : Context) (mem : Memory)
  | advance
  | timeout (data : Word)

def Enabled (s : Calls) : Action → Prop
  | .call caller _ _ => s.stack = [] ∧ s.kernel.Listed caller ∧ ¬ s.kernel.Waits caller
  | .advance => s.stack ≠ []
  | .timeout _ => True

def effect (s : Calls) : Action → Fallible Calls
  | .call caller cpu mem =>
    let k := Ipc.trapped s.kernel caller cpu mem
    .ok ⟨k, [enter k caller .send]⟩
  | .advance =>
    match s.stack with
    | [] => .ok s
    | a :: rest => advance s.kernel a rest
  | .timeout data => .ok ⟨s.kernel.doIpcTimeout data, s.stack⟩

def Step (s : Calls) (a : Action) (s' : Calls) : Prop := s.Enabled a ∧ s.effect a = .ok s'

/-- The caller of a system call names whom it may name, and left alone whom the waiting senders want to receive from. -/
def Allowed (s : Calls) : Action → Prop
  | .call caller cpu mem => Ipc.Allowed s.kernel (.call caller cpu mem 0)
  | .advance | .timeout _ => True

/-- `Step` as a partial function. -/
def next (s : Calls) : Action → Option Calls
  | .call caller cpu mem =>
    if s.stack.isEmpty ∧ (∃ i < s.kernel.threadCount, s.kernel.threadList i = caller) ∧ ¬ s.kernel.Waits caller then
      (effect s (.call caller cpu mem)).toOption
    else none
  | .advance => if s.stack.isEmpty then none else (effect s .advance).toOption
  | .timeout data => (effect s (.timeout data)).toOption

theorem step_of_next (s : Calls) (a : Action) (s' : Calls) (h : next s a = some s') : Step s a s' := by
  cases a with
  | call caller cpu mem =>
    simp only [next] at h
    split at h
    · rename_i enabled
      exact ⟨⟨List.isEmpty_iff.mp enabled.1, enabled.2⟩, ok_of_toOption h⟩
    · cases h
  | advance =>
    simp only [next] at h
    split at h
    · cases h
    · rename_i inside
      exact ⟨fun empty => inside (List.isEmpty_iff.mpr empty), ok_of_toOption h⟩
  | timeout data => exact ⟨trivial, ok_of_toOption h⟩

/-! ### Without a tick -/

variable {k k' : Kernel} {t : Nat} {a : Activation} {rest : List Activation}

/-- The steps of the innermost activation, with nothing in between. -/
inductive Steps : Calls → Calls → Prop where
  | refl (s : Calls) : Steps s s
  | step {k : Kernel} {a : Activation} {rest : List Activation} {s s' : Calls} (first : advance k a rest = .ok s) (later : Steps s s') :
      Steps ⟨k, a :: rest⟩ s'

theorem Steps.trans {s₁ s₂ s₃ : Calls} (first : Steps s₁ s₂) (second : Steps s₂ s₃) : Steps s₁ s₃ := by
  induction first with
  | refl => exact second
  | step first _ ih => exact .step first (ih second)

theorem Steps.run {s s' : Calls} (steps : Steps s s') : ∃ as, Theory.Run Step s as s' := by
  induction steps with
  | refl s => exact ⟨[], .nil s⟩
  | @step k a rest s s' first _ ih =>
    obtain ⟨as, run⟩ := ih
    have enabled : Enabled ⟨k, a :: rest⟩ .advance := List.cons_ne_nil a rest
    exact ⟨.advance :: as, .cons ⟨enabled, first⟩ run⟩

/-- `set_thread_state` at the end of an activation. -/
theorem finish_steps (state : ThreadState) : Steps ⟨k, a.go (.finish state) :: rest⟩ ⟨k.setThreadState a.thread state, rest⟩ :=
  .step (s := ⟨k.moveSchedule a.thread state, a.go (.store state) :: rest⟩) rfl (.step rfl (.refl _))

theorem ended_steps (sending : Bool) {result : PhaseResult} (ends : sending = false ∨ result ≠ .done) :
    Steps ⟨k, a.go (.ended sending result) :: rest⟩ ⟨k.endIpc a.thread (waits sending) result, rest⟩ := by
  cases result with
  | done =>
    obtain rfl := ends.resolve_right fun other => other rfl
    exact .step rfl (finish_steps .runnable)
  | error =>
    cases sending
    · exact .step rfl (finish_steps .runnable)
    · exact .step rfl (finish_steps .runnable)
  | wait =>
    cases sending
    · exact .step rfl (finish_steps .recvBlocked)
    · exact .step rfl (finish_steps .sendBlocked)

theorem wait_steps (sending : Bool) {result : PhaseResult}
    (h : k.phaseNotready a.thread (a.partner sending) (a.timeout sending) (waits sending) (!sending) = .ok (result, k')) :
    Steps ⟨k, a.go (.wait sending) :: rest⟩ ⟨k', a.go (.ended sending result) :: rest⟩ := by
  unfold phaseNotready at h
  obtain ⟨⟨blocks, k₁⟩, armed, h⟩ := bind_ok h
  have first : advance k (a.go (.wait sending)) rest =
      .ok ⟨k₁, (a.go (.wait sending)).go (if blocks then .mark sending else .abort sending) :: rest⟩ := by
    unfold advance
    dsimp only [Activation.go]
    change (k.setThreadTimeout a.thread (a.timeout sending) (waits sending) >>= _) = _
    rw [armed]
    rfl
  refine .step first ?_
  cases blocks with
  | true =>
    cases h
    exact .step rfl (.refl _)
  | false =>
    cases h
    exact .step rfl (.refl _)

theorem sendFound_steps {p : Nat} {result : PhaseResult} (h : k.sendFound a.thread p = .ok (result, k')) :
    Steps ⟨k, a.go (.deliver p) :: rest⟩ ⟨k', a.go (.ended true result) :: rest⟩ := by
  unfold sendFound at h
  obtain ⟨⟨ret, k₁⟩, copied, h⟩ := bind_ok h
  have first : advance k (a.go (.deliver p)) rest =
      if ret = .none then .ok ⟨k₁, (a.go (.deliver p)).go (.wake true p .done) :: rest⟩
      else .ok ⟨k₁, (a.go (.deliver p)).go (.unsent p ret) :: rest⟩ := by
    unfold advance
    dsimp only [Activation.go]
    rw [copied]
    rfl
  dsimp only at h
  by_cases none : ret = .none
  · rw [if_pos none] at h first
    cases h
    exact .step first (.step rfl (.refl _))
  · rw [if_neg none] at h first
    cases h
    exact .step first (.step rfl (.step rfl (.refl _)))

theorem sendPagerMsg_steps {p : Nat} {result : PhaseResult} (h : k.sendPagerMsg a.thread p = .ok (result, k')) :
    Steps ⟨k, a.go (.start p) :: rest⟩ ⟨k', a.go (.ended true result) :: rest⟩ := by
  unfold sendPagerMsg at h
  dsimp only at h
  split at h
  · rename_i start
    cases h
    have first : advance k (a.go (.start p)) rest =
        .ok ⟨k.pagerStartThread a.thread p, (a.go (.start p)).go (.ended true .done) :: rest⟩ := by
      unfold advance
      dsimp only [Activation.go]
      exact if_pos start
    exact .step first (.refl _)
  · rename_i other
    obtain ⟨⟨ret, k₁⟩, copied, h⟩ := bind_ok h
    have first : advance k (a.go (.start p)) rest =
        if ret = .none then .ok ⟨k₁, (a.go (.start p)).go (.ended true .done) :: rest⟩
        else .ok ⟨k₁, (a.go (.start p)).go (.pagerUnsent ret) :: rest⟩ := by
      unfold advance
      dsimp only [Activation.go]
      rw [if_neg other, copied]
      rfl
    dsimp only at h
    by_cases none : ret = .none
    · rw [if_pos none] at h first
      cases h
      exact .step first (.refl _)
    · rw [if_neg none] at h first
      cases h
      exact .step first (.step rfl (.refl _))

theorem ipcSend_steps {result : PhaseResult} (h : k.ipcSend a.thread a.dest (a.timeout true) = .ok (result, k')) :
    Steps ⟨k, a.go .send :: rest⟩ ⟨k', a.go (.ended true result) :: rest⟩ := by
  unfold ipcSend at h
  split at h
  · rename_i nil
    cases h
    have first : advance k (a.go .send) rest = .ok ⟨k, (a.go .send).go (.ended true .done) :: rest⟩ := if_pos nil
    exact .step first (.refl _)
  · rename_i named
    obtain ⟨search, found, h⟩ := bind_ok h
    have found_ : k.findIpcPartner (a.go .send).thread (a.go .send).dest true = .ok search := found
    cases search with
    | found p =>
      have first : advance k (a.go .send) rest = .ok ⟨k.log (.sending a.thread a.dest), (a.go .send).go (.deliver p) :: rest⟩ :=
        (if_neg named).trans (by rw [found_]; rfl)
      exact .step first (sendFound_steps h)
    | pagerMsg p =>
      have first : advance k (a.go .send) rest = .ok ⟨k.log (.sending a.thread a.dest), (a.go .send).go (.start p) :: rest⟩ :=
        (if_neg named).trans (by rw [found_]; rfl)
      exact .step first (sendPagerMsg_steps h)
    | nonexistent =>
      have first : advance k (a.go .send) rest = .ok ⟨k.log (.sending a.thread a.dest), (a.go .send).go (.missing true) :: rest⟩ :=
        (if_neg named).trans (by rw [found_]; rfl)
      cases h
      exact .step first (.step rfl (.refl _))
    | notready =>
      have first : advance k (a.go .send) rest = .ok ⟨k.log (.sending a.thread a.dest), (a.go .send).go (.wait true) :: rest⟩ :=
        (if_neg named).trans (by rw [found_]; rfl)
      exact .step first (wait_steps true h)

theorem recvFound_steps {receiveOf : Kernel → Nat → Fallible Kernel} {s : Nat} {result : PhaseResult}
    (nested : ∀ k s k' rest, receiveOf k s = .ok k' → Steps ⟨k, enter k s .receive :: rest⟩ ⟨k', rest⟩)
    (h : recvFound receiveOf k a.thread s = .ok (result, k')) :
    Steps ⟨k, a.go (.take s) :: rest⟩ ⟨k', a.go (.ended false result) :: rest⟩ := by
  unfold recvFound at h
  obtain ⟨⟨ret, k₁⟩, copied, h⟩ := bind_ok h
  have first : advance k (a.go (.take s)) rest =
      if ret = .none then .ok ⟨k₁, (a.go (.take s)).go (.serve s) :: rest⟩
      else .ok ⟨k₁, (a.go (.take s)).go (.reject s) :: rest⟩ := by
    unfold advance
    dsimp only [Activation.go]
    rw [copied]
    rfl
  dsimp only at h
  by_cases none : ret = .none
  · rw [if_pos none] at h first
    obtain ⟨k₂, served, h⟩ := bind_ok h
    cases h
    exact .step first (.step rfl (nested _ _ _ _ served))
  · rw [if_neg none] at h first
    cases h
    exact .step first (.step rfl (.step rfl (.refl _)))

theorem ipcRecv_steps {receiveOf : Kernel → Nat → Fallible Kernel} {result : PhaseResult}
    (nested : ∀ k s k' rest, receiveOf k s = .ok k' → Steps ⟨k, enter k s .receive :: rest⟩ ⟨k', rest⟩)
    (h : ipcRecv receiveOf k a.thread a.src (a.timeout false) = .ok (result, k')) :
    Steps ⟨k, a.go .receive :: rest⟩ ⟨k', a.go (.ended false result) :: rest⟩ := by
  unfold ipcRecv at h
  split at h
  · rename_i nil
    cases h
    have first : advance k (a.go .receive) rest = .ok ⟨k, (a.go .receive).go (.ended false .done) :: rest⟩ := if_pos nil
    exact .step first (.refl _)
  · rename_i named
    obtain ⟨search, found, h⟩ := bind_ok h
    have found_ : k.findIpcPartner (a.go .receive).thread (a.go .receive).src false = .ok search := found
    cases search with
    | pagerMsg p => cases h
    | found s =>
      have first : advance k (a.go .receive) rest = .ok ⟨k, (a.go .receive).go (.take s) :: rest⟩ :=
        (if_neg named).trans (by rw [found_]; rfl)
      exact .step first (recvFound_steps nested h)
    | nonexistent =>
      have first : advance k (a.go .receive) rest = .ok ⟨k, (a.go .receive).go (.missing false) :: rest⟩ :=
        (if_neg named).trans (by rw [found_]; rfl)
      cases h
      exact .step first (.step rfl (.refl _))
    | notready =>
      have first : advance k (a.go .receive) rest = .ok ⟨k, (a.go .receive).go (.wait false) :: rest⟩ :=
        (if_neg named).trans (by rw [found_]; rfl)
      exact .step first (wait_steps false h)

/-- An activation that no tick interrupts does what `do_ipc` does. -/
theorem doIpc_steps {fuel : Nat} {skipSending : Bool} (h : doIpc fuel k t skipSending = .ok k') :
    Steps ⟨k, enter k t (if skipSending then .receive else .send) :: rest⟩ ⟨k', rest⟩ := by
  induction fuel generalizing k k' t skipSending rest with
  | zero => cases h
  | succ fuel ih =>
    have received : ∀ {k₁ k₂ : Kernel} {result : PhaseResult}, ipcRecv (fun k partner => doIpc fuel k partner true) k₁ t
        (enter k t .receive).src ((enter k t .receive).timeout false) = .ok (result, k₂) →
        Steps ⟨k₁, enter k t .receive :: rest⟩ ⟨k₂.endIpc t .recvBlocked result, rest⟩ := by
      intro k₁ k₂ result h
      have nested : ∀ k s k' rest, doIpc fuel k s true = .ok k' → Steps ⟨k, enter k s .receive :: rest⟩ ⟨k', rest⟩ :=
        fun k s k' rest served => ih served
      have phase : Steps ⟨k₁, (enter k t .receive).go .receive :: rest⟩ ⟨k₂, (enter k t .receive).go (.ended false result) :: rest⟩ :=
        ipcRecv_steps nested h
      exact phase.trans (ended_steps false (.inl rfl))
    rw [doIpc] at h
    obtain ⟨⟨sent, k₁⟩, phase, h⟩ := bind_ok h
    cases skipSending with
    | true =>
      cases phase
      obtain ⟨⟨result, k₂⟩, recv, h⟩ := bind_ok h
      cases h
      exact received recv
    | false =>
      have phase : k.ipcSend (enter k t .send).thread (enter k t .send).dest ((enter k t .send).timeout true) = .ok (sent, k₁) := phase
      have sends : Steps ⟨k, enter k t .send :: rest⟩ ⟨k₁, (enter k t .send).go (.ended true sent) :: rest⟩ := ipcSend_steps phase
      refine sends.trans ?_
      cases sent with
      | error =>
        cases h
        exact ended_steps true (.inr (by decide))
      | wait =>
        cases h
        exact ended_steps true (.inr (by decide))
      | done =>
        obtain ⟨⟨result, k₂⟩, recv, h⟩ := bind_ok h
        cases h
        exact .step rfl (received recv)

/-- A system call that no tick interrupts is one of `syscall_ipc`. -/
theorem call_run {caller fuel : Nat} {cpu : Context} {mem : Memory} (step : Ipc.Step k (.call caller cpu mem fuel) k') :
    ∃ as, Theory.Run Step ⟨k, []⟩ as ⟨k', []⟩ := by
  obtain ⟨enabled, called⟩ := step
  have called : doIpc fuel (Ipc.trapped k caller cpu mem) (Ipc.trapped k caller cpu mem).caller false = .ok k' := called
  rw [Ipc.trapped_caller] at called
  have steps : Steps ⟨Ipc.trapped k caller cpu mem, [enter (Ipc.trapped k caller cpu mem) caller .send]⟩ ⟨k', []⟩ := doIpc_steps called
  obtain ⟨as, run⟩ := steps.run
  have traps : Step ⟨k, []⟩ (.call caller cpu mem) ⟨Ipc.trapped k caller cpu mem, [enter (Ipc.trapped k caller cpu mem) caller .send]⟩ :=
    ⟨⟨rfl, enabled⟩, rfl⟩
  exact ⟨.call caller cpu mem :: as, .cons traps run⟩

end Calls
end BradypOS
