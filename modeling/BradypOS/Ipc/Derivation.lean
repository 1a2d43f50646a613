import BradypOS.Ipc.Search

/-!
# IPC as a derivation

`Received k t src timeout k'` holds when the receive phase of `t`, with the nested receive phases of
the senders it serves, leads from `k` to `k'`. It follows the calls of `do_ipc` without their fuel:
properties of IPC are proved by induction on it, one case for each way a phase can end.
-/

namespace BradypOS

open L4

namespace Memory

theorem copyItems_frame {src dst : Word} {last : Nat} {acceptor : Word} {fuel : Nat} {m m' : Memory} {i j b n : Nat}
    {err : IpcErrorCode} (h : copyItems src dst last acceptor fuel m i j b = .ok (err, m', n)) :
    m'.frame = m.frame := by
  induction fuel generalizing m i j b with
  | zero => cases h
  | succ fuel ih =>
    rw [copyItems] at h
    split at h
    · cases h; rfl
    · dsimp only at h
      split at h
      · have kept := ih h
        exact kept
      · split at h
        · cases h; rfl
        · split at h
          · cases h
          · split at h
            · cases h
            · split at h
              · cases h; rfl
              · have kept := ih h
                exact kept
      all_goals cases h

theorem copyPayload_frame {m m' : Memory} {src dst : Tcb} {err : IpcErrorCode}
    (h : m.copyPayload src dst = .ok (err, m')) (sp : Word) : ∃ r0, m'.frame sp = { m.frame sp with r0 } := by
  unfold copyPayload at h
  dsimp only at h
  split at h
  · cases h; exact ⟨_, rfl⟩
  · obtain ⟨⟨err, m₁, n⟩, copied, h⟩ := bind_ok h
    have same := copyItems_frame copied
    dsimp only at h
    split at h
    · cases h; rw [same]; exact ⟨_, rfl⟩
    · cases h
      by_cases here : sp = dst.ctx.sp
      · subst here
        simp only [setFrame, setUtcb, Function.update_self, same]
        exact ⟨_, rfl⟩
      · simp only [setFrame, setUtcb, Function.update_of_ne here, same]
        exact ⟨_, rfl⟩

end Memory

namespace Kernel

variable {k k' : Kernel}

/-- Whom a thread wants to receive from, as its saved frame says. -/
def recvFrom (k : Kernel) (t : Nat) : Word := (k.mem.frame (k.tcbs t).ctx.sp).r1

def recvTime (k : Kernel) (t : Nat) : Time := recvTimeout (k.mem.frame (k.tcbs t).ctx.sp).r2

/-- The errors of a message from `s` that could not be copied to the receiver `t`. -/
def rejected (k : Kernel) (t s : Nat) : Kernel :=
  let k := (k.reportError t true .messageOverflow).reportError s false .messageOverflow
  let k := (k.setIpcError t).setIpcError s
  k.setThreadState s .runnable

def refused (k : Kernel) (t s : Nat) : Kernel := (k.rejected t s).endIpc t .recvBlocked .error

/-- A thread that blocks, once its timeout is set. -/
def blocked (k : Kernel) (t : Nat) (ipcFrom : Word) (state : ThreadState) : Kernel :=
  (k.setTcb t fun tcb => { tcb with ipcFrom }).setThreadState t state

/-- The receive phase of `t` with source `src`. -/
inductive Received : Kernel → Nat → Word → Time → Kernel → Prop where
  | skip {k : Kernel} {t : Nat} {src : Word} {timeout : Time} (nil : isNilThread src = true) :
      Received k t src timeout (k.setThreadState t .runnable)
  /-- A sender waits: its message is copied and its own receive phase is run. -/
  | serve {k k₁ k₂ : Kernel} {t s : Nat} {src : Word} {timeout : Time} (named : isNilThread src = false)
      (found : k.findIpcPartner t src false = .ok (.found s)) (copied : k.copyPayload s t = .ok (.none, k₁))
      (rest : Received k₁ s (k₁.recvFrom s) (k₁.recvTime s) k₂) :
      Received k t src timeout (k₂.setThreadState t .runnable)
  | refuse {k k₁ : Kernel} {t s : Nat} {src : Word} {timeout : Time} {err : IpcErrorCode}
      (named : isNilThread src = false) (found : k.findIpcPartner t src false = .ok (.found s))
      (failed : k.copyPayload s t = .ok (err, k₁)) (overflow : err ≠ .none) :
      Received k t src timeout (k₁.refused t s)
  | missing {k : Kernel} {t : Nat} {src : Word} {timeout : Time} (named : isNilThread src = false)
      (found : k.findIpcPartner t src false = .ok .nonexistent) :
      Received k t src timeout ((k.reportError t true .nonexistentPartner).endIpc t .recvBlocked .error)
  | block {k k₁ : Kernel} {t : Nat} {src : Word} {timeout : Time} (named : isNilThread src = false)
      (found : k.findIpcPartner t src false = .ok .notready)
      (armed : k.setThreadTimeout t timeout .recvBlocked = .ok (true, k₁)) :
      Received k t src timeout (k₁.blocked t src .recvBlocked)
  | abort {k : Kernel} {t : Nat} {src : Word} {timeout : Time} (named : isNilThread src = false)
      (found : k.findIpcPartner t src false = .ok .notready)
      (zero : k.setThreadTimeout t timeout .recvBlocked = .ok (false, k)) :
      Received k t src timeout ((k.reportError t true .aborted).endIpc t .recvBlocked .error)

/-! ### What the phases do -/

theorem copyPayload_spec {src dst : Nat} {err : IpcErrorCode} (h : k.copyPayload src dst = .ok (err, k')) :
    ∃ mem, k.mem.copyPayload (k.tcbs src) (k.tcbs dst) = .ok (err, mem) ∧
      k' = if err = .none then (k.setMem mem).log (.copied src dst) else k.setMem mem := by
  unfold copyPayload at h
  obtain ⟨⟨err, mem⟩, copied, h⟩ := bind_ok h
  cases h
  exact ⟨mem, copied, rfl⟩

/-- The three ways to set a timeout: never, zero, or a finite one that is put into the queue. -/
theorem setThreadTimeout_cases {t : Nat} {timeout : Time} {state : ThreadState} {blocks : Bool}
    (h : k.setThreadTimeout t timeout state = .ok (blocks, k')) :
    (timeout.isEqual Time.never = true ∧ blocks = true ∧
      k' = k.log (.waiting t state timeout k.alarms.currentTime)) ∨
    (timeout.isEqual Time.never = false ∧ timeout.isEqual Time.zero = true ∧ blocks = false ∧ k' = k) ∨
    (timeout.isEqual Time.never = false ∧ timeout.isEqual Time.zero = false ∧ timeout.point = false ∧ blocks = true ∧
      ∃ k₁, ((k.log (.waiting t state timeout k.alarms.currentTime)).setKevent t fun ev =>
          { ev with
            data := (k.tcbs t).globalId, type := .timeout
            when := k.alarms.currentTime + timeout.ticks }).registerKevent t = .ok k₁ ∧
        k' = k₁.setThreadState t state) := by
  unfold setThreadTimeout at h
  split at h
  · rename_i never
    cases h
    exact .inl ⟨never, rfl, rfl⟩
  · rename_i never
    split at h
    · rename_i zero
      cases h
      exact .inr (.inl ⟨by simpa using never, zero, rfl, rfl⟩)
    · rename_i zero
      split at h
      · cases h
      · rename_i point
        obtain ⟨k₁, registered, h⟩ := bind_ok h
        cases h
        exact .inr (.inr ⟨by simpa using never, by simpa using zero, by simpa using point, rfl, k₁, registered, rfl⟩)

theorem phaseNotready_cases {t : Nat} {ipcFrom : Word} {timeout : Time} {state : ThreadState} {p : Bool}
    {r : PhaseResult} (h : k.phaseNotready t ipcFrom timeout state p = .ok (r, k')) :
    (∃ k₁, k.setThreadTimeout t timeout state = .ok (true, k₁) ∧ r = .wait ∧
      k' = k₁.setTcb t fun tcb => { tcb with ipcFrom }) ∨
    (k.setThreadTimeout t timeout state = .ok (false, k) ∧ r = .error ∧ k' = k.reportError t p .aborted) := by
  unfold phaseNotready at h
  obtain ⟨⟨blocks, k₁⟩, armed, h⟩ := bind_ok h
  dsimp only at h
  split at h
  · rename_i wait
    cases h
    subst wait
    exact .inl ⟨k₁, armed, rfl, rfl⟩
  · rename_i zero
    cases h
    have off : blocks = false := by simpa using zero
    subst off
    rcases setThreadTimeout_cases armed with ⟨_, other, _⟩ | ⟨_, _, _, rfl⟩ | ⟨_, _, _, other, _⟩
    · cases other
    · exact .inr ⟨armed, rfl, rfl⟩
    · cases other

/-- The fuel of `doIpc` only bounds how deep a derivation it may find. -/
theorem received_of_ipcRecv {receiveOf : Kernel → Nat → Fallible Kernel} {t : Nat} {src : Word} {timeout : Time}
    {r : PhaseResult}
    (nested : ∀ k s k', receiveOf k s = .ok k' → Received k s (k.recvFrom s) (k.recvTime s) k')
    (h : ipcRecv receiveOf k t src timeout = .ok (r, k')) :
    Received k t src timeout (k'.endIpc t .recvBlocked r) := by
  unfold ipcRecv at h
  split at h
  · rename_i nil
    cases h
    exact .skip nil
  · rename_i named
    have named : isNilThread src = false := Bool.eq_false_iff.mpr named
    obtain ⟨search, found, h⟩ := bind_ok h
    split at h
    · unfold recvFound at h
      obtain ⟨⟨ret, k₁⟩, copied, h⟩ := bind_ok h
      dsimp only at h
      split at h
      · rename_i none
        obtain ⟨k₂, rest, h⟩ := bind_ok h
        cases h
        subst none
        exact .serve named found copied (nested _ _ _ rest)
      · rename_i overflow
        cases h
        exact .refuse named found copied overflow
    · cases h
    · cases h
      exact .missing named found
    · rcases phaseNotready_cases h with ⟨k₁, armed, rfl, rfl⟩ | ⟨zero, rfl, rfl⟩
      · exact .block named found armed
      · exact .abort named found zero

theorem received_of_doIpc {fuel : Nat} {t : Nat} (h : doIpc fuel k t true = .ok k') :
    Received k t (k.recvFrom t) (k.recvTime t) k' := by
  induction fuel generalizing k k' t with
  | zero => cases h
  | succ fuel ih =>
    rw [doIpc] at h
    obtain ⟨⟨sent, k₁⟩, skipped, h⟩ := bind_ok h
    cases skipped
    obtain ⟨⟨r, k₂⟩, received, h⟩ := bind_ok h
    cases h
    exact received_of_ipcRecv (fun _ _ _ => ih) received

/-! ### The send phase and the whole call -/

/-- The errors of a message that could not be copied to the waiting receiver `p`. -/
def unsent (k : Kernel) (t p : Nat) (err : IpcErrorCode) : Kernel :=
  let k := (k.reportError t false err).reportError p true err
  let k := (k.setIpcError t).setIpcError p
  k.setThreadState p .runnable

/-- A pager's start message: two untyped words and nothing else. -/
def isStartMessage (k : Kernel) (t : Nat) : Prop :=
  let tag := (k.mem.utcb (k.tcbs t).utcb).mr 0
  MsgTag.flags tag = 0#32 ∧ MsgTag.label tag = 0#32 ∧ MsgTag.t tag = 0 ∧ MsgTag.u tag = 2

/-- The send phase of `t` to `dest`. -/
inductive Sent (k : Kernel) (t : Nat) (dest : Word) (timeout : Time) : PhaseResult → Kernel → Prop where
  | skip (nil : isNilThread dest = true) : Sent k t dest timeout .done k
  | deliver {p : Nat} {k₁ : Kernel} (named : isNilThread dest = false)
      (found : k.findIpcPartner t dest true = .ok (.found p))
      (copied : (k.log (.sending t dest)).copyPayload t p = .ok (.none, k₁)) :
      Sent k t dest timeout .done (k₁.setThreadState p .runnable)
  | refuse {p : Nat} {k₁ : Kernel} {err : IpcErrorCode} (named : isNilThread dest = false)
      (found : k.findIpcPartner t dest true = .ok (.found p))
      (failed : (k.log (.sending t dest)).copyPayload t p = .ok (err, k₁)) (overflow : err ≠ .none) :
      Sent k t dest timeout .error (k₁.unsent t p err)
  | start {p : Nat} (named : isNilThread dest = false) (found : k.findIpcPartner t dest true = .ok (.pagerMsg p))
      (start : k.isStartMessage t) : Sent k t dest timeout .done ((k.log (.sending t dest)).pagerStartThread t p)
  | pagerDeliver {p : Nat} {k₁ : Kernel} (named : isNilThread dest = false)
      (found : k.findIpcPartner t dest true = .ok (.pagerMsg p))
      (copied : (k.log (.sending t dest)).copyPayload t p = .ok (.none, k₁)) (other : ¬ k.isStartMessage t) :
      Sent k t dest timeout .done k₁
  | pagerRefuse {p : Nat} {k₁ : Kernel} {err : IpcErrorCode} (named : isNilThread dest = false)
      (found : k.findIpcPartner t dest true = .ok (.pagerMsg p))
      (failed : (k.log (.sending t dest)).copyPayload t p = .ok (err, k₁)) (overflow : err ≠ .none) :
      Sent k t dest timeout .error ((k₁.reportError t false err).setIpcError t)
  | missing (named : isNilThread dest = false) (found : k.findIpcPartner t dest true = .ok .nonexistent) :
      Sent k t dest timeout .error ((k.log (.sending t dest)).reportError t false .nonexistentPartner)
  | block {k₁ : Kernel} (named : isNilThread dest = false) (found : k.findIpcPartner t dest true = .ok .notready)
      (armed : (k.log (.sending t dest)).setThreadTimeout t timeout .sendBlocked = .ok (true, k₁)) :
      Sent k t dest timeout .wait (k₁.setTcb t fun tcb => { tcb with ipcFrom := dest })
  | abort (named : isNilThread dest = false) (found : k.findIpcPartner t dest true = .ok .notready)
      (zero : (k.log (.sending t dest)).setThreadTimeout t timeout .sendBlocked =
        .ok (false, k.log (.sending t dest))) :
      Sent k t dest timeout .error ((k.log (.sending t dest)).reportError t false .aborted)

theorem sent_of_ipcSend {t : Nat} {dest : Word} {timeout : Time} {r : PhaseResult}
    (h : k.ipcSend t dest timeout = .ok (r, k')) : Sent k t dest timeout r k' := by
  unfold ipcSend at h
  split at h
  · rename_i nil
    cases h
    exact .skip nil
  · rename_i named
    have named : isNilThread dest = false := Bool.eq_false_iff.mpr named
    obtain ⟨search, found, h⟩ := bind_ok h
    dsimp only at h
    split at h
    · unfold sendFound at h
      obtain ⟨⟨ret, k₁⟩, copied, h⟩ := bind_ok h
      dsimp only at h
      split at h
      · rename_i none
        cases h
        subst none
        exact .deliver named found copied
      · rename_i overflow
        cases h
        exact .refuse named found copied overflow
    · unfold sendPagerMsg at h
      dsimp only at h
      split at h
      · rename_i start
        cases h
        exact .start named found start
      · rename_i other
        obtain ⟨⟨ret, k₁⟩, copied, h⟩ := bind_ok h
        dsimp only at h
        split at h
        · rename_i none
          cases h
          subst none
          exact .pagerDeliver named found copied other
        · rename_i overflow
          cases h
          exact .pagerRefuse named found copied overflow
    · cases h
      exact .missing named found
    · rcases phaseNotready_cases h with ⟨k₁, armed, rfl, rfl⟩ | ⟨zero, rfl, rfl⟩
      · exact .block named found armed
      · exact .abort named found zero

/-- Whom a thread wants to send to, as its saved frame says. -/
def sendTo (k : Kernel) (t : Nat) : Word := (k.mem.frame (k.tcbs t).ctx.sp).r0

def sendTime (k : Kernel) (t : Nat) : Time := sendTimeout (k.mem.frame (k.tcbs t).ctx.sp).r2

/-- The IPC system call of `t`: its send phase and, unless that blocks or fails, its receive phase. -/
inductive Called (k : Kernel) (t : Nat) : Kernel → Prop where
  | receives {k₁ k₂ : Kernel} (sent : Sent k t (k.sendTo t) (k.sendTime t) .done k₁)
      (received : Received k₁ t (k.recvFrom t) (k.recvTime t) k₂) : Called k t k₂
  | fails {k₁ : Kernel} (sent : Sent k t (k.sendTo t) (k.sendTime t) .error k₁) :
      Called k t (k₁.endIpc t .sendBlocked .error)
  | waits {k₁ : Kernel} (sent : Sent k t (k.sendTo t) (k.sendTime t) .wait k₁) :
      Called k t (k₁.setThreadState t .sendBlocked)

theorem called_of_doIpc {fuel : Nat} {t : Nat} (h : doIpc fuel k t false = .ok k') : Called k t k' := by
  cases fuel with
  | zero => cases h
  | succ fuel =>
    rw [doIpc] at h
    obtain ⟨⟨sent, k₁⟩, phase, h⟩ := bind_ok h
    have sent := sent_of_ipcSend phase
    dsimp only at h
    split at h
    · cases h; exact .fails sent
    · cases h; exact .waits sent
    · obtain ⟨⟨r, k₂⟩, received, h⟩ := bind_ok h
      cases h
      exact .receives sent (received_of_ipcRecv (fun _ _ _ => received_of_doIpc) received)

/-! ### The threads that a call involves -/

/-- The senders that are served one after another when `t` receives from `src`. -/
inductive Chain (k : Kernel) : Nat → Word → Nat → Prop where
  | found {t s : Nat} {src : Word} (named : isNilThread src = false)
      (found : k.findIpcPartner t src false = .ok (.found s)) : Chain k t src s
  | next {t s u : Nat} {src : Word} (named : isNilThread src = false)
      (found : k.findIpcPartner t src false = .ok (.found s)) (rest : Chain k s (k.recvFrom s) u) : Chain k t src u

theorem Chain.waits {t u : Nat} {src : Word} (h : Chain k t src u) : k.state u = .sendBlocked := by
  induction h with
  | found _ found => exact isReadyPartner_waits (findIpcPartner_found found)
  | next _ _ _ ih => exact ih

/-- Where searches find the same, and waiting senders want the same, the chains are the same. -/
theorem Chain.congr (same : SameSearch false k k')
    (wants : ∀ s, k.state s = .sendBlocked → k'.recvFrom s = k.recvFrom s) {t u : Nat} {src : Word}
    (h : Chain k' t src u) : Chain k t src u := by
  induction h with
  | found named found => exact .found named ((same.findPartner _ _).symm.trans found)
  | next named found _ ih =>
    have found := (same.findPartner _ _).symm.trans found
    rw [wants _ (isReadyPartner_waits (findIpcPartner_found found))] at ih
    exact .next named found ih

/-- The threads whose state a call of `c` may change. -/
inductive Involved (k : Kernel) (c : Nat) : Nat → Prop where
  | caller : Involved k c c
  | receiver {p : Nat} (named : isNilThread (k.sendTo c) = false)
      (found : k.findIpcPartner c (k.sendTo c) true = .ok (.found p)) : Involved k c p
  | started {p : Nat} (named : isNilThread (k.sendTo c) = false)
      (found : k.findIpcPartner c (k.sendTo c) true = .ok (.pagerMsg p)) : Involved k c p
  | sender {s : Nat} (chain : Chain k c (k.recvFrom c) s) : Involved k c s

theorem copyPayload_same {src dst : Nat} {err : IpcErrorCode} (sending : Bool)
    (h : k.copyPayload src dst = .ok (err, k')) :
    SameSearch sending k k' ∧ (∀ t, k'.recvFrom t = k.recvFrom t) ∧ ∀ t, k'.recvTime t = k.recvTime t := by
  obtain ⟨mem, copied, rfl⟩ := copyPayload_spec h
  have frame := Memory.copyPayload_frame copied
  have wants : ∀ sp, (mem.frame sp).r1 = (k.mem.frame sp).r1 ∧ (mem.frame sp).r2 = (k.mem.frame sp).r2 := by
    intro sp
    obtain ⟨r0, h⟩ := frame sp
    rw [h]
    exact ⟨rfl, rfl⟩
  split
  · exact ⟨.of_tcbs sending rfl rfl rfl rfl, fun t => (wants _).1, fun t => congrArg recvTimeout (wants _).2⟩
  · exact ⟨.of_tcbs sending rfl rfl rfl rfl, fun t => (wants _).1, fun t => congrArg recvTimeout (wants _).2⟩

theorem startContext_tcbs (pager p u : Nat) : ∃ ctx, (k.startContext pager p).tcbs u = { k.tcbs u with ctx } ∧
    (u ≠ p → ctx = (k.tcbs u).ctx) := by
  have moved : ∃ ctx, (k.startContext pager p).tcbs = (k.setTcb p fun tcb => { tcb with ctx }).tcbs := ⟨_, rfl⟩
  obtain ⟨ctx, moved⟩ := moved
  rw [moved]
  by_cases same : u = p
  · subst same
    exact ⟨ctx, setTcb_same .., fun other => absurd rfl other⟩
  · exact ⟨(k.tcbs u).ctx, setTcb_other _ _ _ _ same, fun _ => rfl⟩

theorem startContext_frame (pager p : Nat) (sp : Word) :
    ∃ pc psr, (k.startContext pager p).mem.frame sp = { k.mem.frame sp with pc, psr } := by
  simp only [startContext, setMem, Memory.setFrame, Function.update_apply]
  split
  · rename_i here; rw [here]; exact ⟨_, _, rfl⟩
  · exact ⟨_, _, rfl⟩

theorem pagerStartThread_same (pager : Nat) {p : Nat} (fresh : k.state p ≠ .sendBlocked) :
    SameSearch false k (k.pagerStartThread pager p) ∧
      ∀ s, k.state s = .sendBlocked → (k.pagerStartThread pager p).recvFrom s = k.recvFrom s ∧
        (k.pagerStartThread pager p).recvTime s = k.recvTime s := by
  have moved : ∀ ctx, SameSearch false k (k.setTcb p fun tcb => { tcb with ctx }) :=
    fun ctx => .setTcb rfl rfl rfl rfl rfl Iff.rfl fun _ => rfl
  have context : SameSearch false k (k.startContext pager p) := (moved _).trans (.of_tcbs false rfl rfl rfl rfl)
  have state : (k.startContext pager p).state p = k.state p := by
    obtain ⟨ctx, h, _⟩ := startContext_tcbs (k := k) pager p p
    unfold Kernel.state
    rw [h]
  have woken : SameSearch false _ ((k.startContext pager p).setThreadState p .runnable) :=
    .setThreadState (iff_of_false (by decide) fun wait => fresh (state ▸ wait))
  refine ⟨(context.trans woken).trans (.of_tcbs false rfl rfl rfl rfl), fun s wait => ?_⟩
  have other : s ≠ p := fun same => fresh (same ▸ wait)
  obtain ⟨ctx, tcb, kept⟩ := startContext_tcbs (k := k) pager p s
  obtain ⟨pc, psr, frame⟩ := startContext_frame (k := k) pager p (k.tcbs s).ctx.sp
  have started : ((k.pagerStartThread pager p).tcbs s) = { k.tcbs s with ctx } := by
    rw [← tcb]
    simp only [pagerStartThread, log, setThreadState_tcbs, Function.update_of_ne other]
  have mem : (k.pagerStartThread pager p).mem = (k.startContext pager p).mem := setThreadState_mem ..
  unfold recvFrom recvTime
  rw [started, mem, kept other, frame]
  exact ⟨rfl, rfl⟩

/-- A send phase that is done leaves the waiting senders and their wishes alone. -/
theorem Sent.same {t : Nat} {dest : Word} {timeout : Time} {k₁ : Kernel} (h : Sent k t dest timeout .done k₁) :
    SameSearch false k k₁ ∧
      ∀ s, k.state s = .sendBlocked → k₁.recvFrom s = k.recvFrom s ∧ k₁.recvTime s = k.recvTime s := by
  have logged : SameSearch false k (k.log (.sending t dest)) := .of_tcbs false rfl rfl rfl rfl
  generalize hr : PhaseResult.done = r at h
  cases h with
  | skip => exact ⟨.refl false k, fun _ _ => ⟨rfl, rfl⟩⟩
  | @deliver p k₂ named found copied =>
    obtain ⟨same, wants, times⟩ := copyPayload_same false copied
    have receiver : k₂.state p = .recvBlocked := by
      obtain ⟨mem, _, rfl⟩ := copyPayload_spec copied
      exact isReadyPartner_waits (findIpcPartner_found found)
    have woken : SameSearch false k₂ (k₂.setThreadState p .runnable) :=
      .setThreadState (iff_of_false (by decide) (by rw [receiver]; decide))
    have kept : ∀ s, (k₂.setThreadState p .runnable).recvFrom s = k₂.recvFrom s ∧
        (k₂.setThreadState p .runnable).recvTime s = k₂.recvTime s := by
      intro s
      unfold recvFrom recvTime
      rw [setThreadState_mem, setThreadState_tcbs, Function.update_apply]
      split
      · rename_i here; rw [here]; exact ⟨rfl, rfl⟩
      · exact ⟨rfl, rfl⟩
    exact ⟨(logged.trans same).trans woken,
      fun s _ => ⟨(kept s).1.trans (wants s), (kept s).2.trans (times s)⟩⟩
  | refuse => cases hr
  | @start p named found start =>
    have fresh := (findIpcPartner_pagerMsg found).2.1
    have waits : (k.log (.sending t dest)).state p ≠ .sendBlocked := fun wait => by
      rw [show k.state p = _ from wait] at fresh; cases fresh
    obtain ⟨same, wants⟩ := pagerStartThread_same t waits
    exact ⟨logged.trans same, wants⟩
  | pagerDeliver named found copied =>
    obtain ⟨same, wants, times⟩ := copyPayload_same false copied
    exact ⟨logged.trans same, fun s _ => ⟨wants s, times s⟩⟩
  | pagerRefuse => cases hr
  | missing => cases hr
  | block => cases hr
  | abort => cases hr

/-- The senders that a call serves after its send phase are those its frame names at the trap. -/
theorem Sent.chain {t u : Nat} {dest src : Word} {timeout : Time} {k₁ : Kernel} (h : Sent k t dest timeout .done k₁)
    (chain : Chain k₁ t src u) : Chain k t src u :=
  chain.congr h.same.1 fun s wait => (h.same.2 s wait).1

end Kernel
end BradypOS
