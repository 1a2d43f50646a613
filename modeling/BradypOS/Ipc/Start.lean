import BradypOS.Ipc.Frame
import BradypOS.Ipc.Waits
import BradypOS.Kernel.Evaluate

/-!
# Only the pager starts a thread

A thread that was not started takes part in IPC as the caller's exact destination alone. A start message
from its pager's address space makes it runnable; whatever else happens leaves its state alone. Its pager
is looked up in the thread table, which can still name a thread that was deleted.
-/

namespace BradypOS.Kernel

open L4

variable {k k' k'' : Kernel}

def Unstarted (k : Kernel) (t : Nat) : Prop := k.state t = .active ∨ k.state t = .inactive

theorem Unstarted.not_waits {t : Nat} (fresh : k.Unstarted t) : k.state t ≠ .sendBlocked ∧ k.state t ≠ .recvBlocked := by
  rcases fresh with active | inactive
  · rw [active]; decide
  · rw [inactive]; decide

/-- Saved contexts stay as they are, and saved frames but for `r0`. -/
structure Parked (k k' : Kernel) : Prop where
  ctx : ∀ u, (k'.tcbs u).ctx = (k.tcbs u).ctx
  frame : ∀ sp, ∃ r0, k'.mem.frame sp = { k.mem.frame sp with r0 }

namespace Parked

theorem of_mem (ctx : ∀ u, (k'.tcbs u).ctx = (k.tcbs u).ctx) (frame : k'.mem.frame = k.mem.frame) : Parked k k' :=
  ⟨ctx, fun sp => ⟨(k.mem.frame sp).r0, congrFun frame sp⟩⟩

theorem refl (k : Kernel) : Parked k k := of_mem (fun _ => rfl) rfl

theorem trans (h : Parked k k') (h' : Parked k' k'') : Parked k k'' := by
  refine ⟨fun u => (h'.ctx u).trans (h.ctx u), fun sp => ?_⟩
  obtain ⟨_, same⟩ := h.frame sp
  obtain ⟨r0, same'⟩ := h'.frame sp
  exact ⟨r0, by rw [same', same]⟩

theorem setThreadState (h : Parked k k') (t : Nat) (st : ThreadState) : Parked k (k'.setThreadState t st) := by
  refine h.trans (of_mem (fun u => ?_) (congrArg Memory.frame (setThreadState_mem ..)))
  rw [setThreadState_tcbs, Function.update_apply]
  split
  · rename_i same; rw [same]
  · rfl

theorem reportError (h : Parked k k') (t : Nat) (p : Bool) (err : IpcErrorCode) : Parked k (k'.reportError t p err) :=
  h.trans (of_mem (fun _ => rfl) rfl)

theorem setIpcError (h : Parked k k') (t : Nat) : Parked k (k'.setIpcError t) := h.trans (of_mem (fun _ => rfl) rfl)

theorem endError (h : Parked k k') (t : Nat) (waits : ThreadState) : Parked k (k'.endIpc t waits .error) :=
  (h.setIpcError t).setThreadState t .runnable

theorem copyPayload {src dst : Nat} {err : IpcErrorCode} (h : Parked k k') (copied : k'.copyPayload src dst = .ok (err, k'')) :
    Parked k k'' := by
  obtain ⟨mem, moved, rfl⟩ := copyPayload_spec copied
  have frame := Memory.copyPayload_frame moved
  split
  · exact h.trans ⟨fun _ => rfl, frame⟩
  · exact h.trans ⟨fun _ => rfl, frame⟩

theorem blocked {t : Nat} {src : Word} {timeout : Time} {st : ThreadState}
    (h : k.setThreadTimeout t timeout st = .ok (true, k')) : Parked k (k'.blocked t src st) := by
  have b := blocked_spec src h
  refine of_mem (fun u => ?_) (congrArg Memory.frame b.mem)
  rw [b.tcbs, Function.update_apply]
  split
  · rename_i same; rw [same]
  · rfl

end Parked

theorem Received.parked {t : Nat} {src : Word} {timeout : Time} (h : Received k t src timeout k') : Parked k k' := by
  induction h with
  | skip nil => exact (Parked.refl _).setThreadState _ _
  | serve named found copied rest ih => exact (((Parked.refl _).copyPayload copied).trans ih).setThreadState _ _
  | @refuse k k₁ t s src timeout err named found failed overflow =>
    have told := (((Parked.refl k).copyPayload failed).reportError t true .messageOverflow).reportError s false .messageOverflow
    exact (((told.setIpcError t).setIpcError s).setThreadState s .runnable).endError t .recvBlocked
  | missing named found => exact ((Parked.refl _).reportError _ _ _).endError _ _
  | block named found armed => exact .blocked armed
  | abort named found zero => exact ((Parked.refl _).reportError _ _ _).endError _ _

/-- The form in which the rules ask for it: other threads than `u` may change their states. -/
theorem setThreadState_keeps {u : Nat} {was : ThreadState} (k : Kernel) (t : Nat) (st : ThreadState) (apart : t ≠ u)
    (same : k.state u = was) : (k.setThreadState t st).state u = was := by
  rw [state_setThreadState, if_neg (Ne.symm apart), same]

/-- A receive phase changes the state of its own thread and of waiting senders. -/
theorem Received.state_others {t : Nat} {src : Word} {timeout : Time} (h : Received k t src timeout k') {u : Nat}
    (other : u ≠ t) (idle : k.state u ≠ .sendBlocked) : k'.state u = k.state u := by
  refine h.rule (P := fun k' => k'.state u = k.state u) (fun _ _ same light => (light.state u).trans same)
    setThreadState_keeps (Ne.symm other) ?_ rfl
  intro s chain here
  exact idle (here ▸ chain.waits)

/-! ### The send phase -/

/-- The call of `c` will start `p`, which is another thread. -/
structure Starts (k : Kernel) (c p : Nat) : Prop where
  other : p ≠ c
  named : isNilThread (k.sendTo c) = false
  found : k.findIpcPartner c (k.sendTo c) true = .ok (.pagerMsg p)
  message : k.isStartMessage c

theorem copyPayload_state {src dst : Nat} {err : IpcErrorCode} (h : k.copyPayload src dst = .ok (err, k')) (u : Nat) :
    k'.state u = k.state u := ((Quiet.refl k).copyPayload h).state u

theorem setThreadTimeout_state {t u : Nat} {timeout : Time} {st : ThreadState} {blocks : Bool}
    (h : k.setThreadTimeout t timeout st = .ok (blocks, k')) (other : u ≠ t) : k'.state u = k.state u := by
  exact setThreadTimeout_rule (P := fun k' => k'.state u = k.state u) (fun _ _ same light => (light.state u).trans same)
    setThreadState_keeps (Ne.symm other) rfl h

theorem state_setTcb_other {t u : Nat} {f : Tcb → Tcb} (other : u ≠ t) : (k.setTcb t f).state u = k.state u := by
  unfold Kernel.state
  rw [setTcb_other _ _ _ _ other]

theorem Sent.unstarted {t : Nat} {dest : Word} {timeout : Time} {r : PhaseResult} (h : Sent k t dest timeout r k')
    {u : Nat} (fresh : k.Unstarted u) (other : u ≠ t) :
    k'.state u = k.state u ∨
      (isNilThread dest = false ∧ k.findIpcPartner t dest true = .ok (.pagerMsg u) ∧ k.isStartMessage t ∧ r = .done ∧
        k' = (k.log (.sending t dest)).pagerStartThread t u) := by
  have receiver : ∀ p, k.findIpcPartner t dest true = .ok (.found p) → u ≠ p := by
    intro p found same
    have waits : k.state p = .recvBlocked := isReadyPartner_waits (findIpcPartner_found found)
    exact fresh.not_waits.2 (same ▸ waits)
  cases h with
  | skip => exact .inl rfl
  | deliver named found copied =>
    left
    rw [state_setThreadState, if_neg (receiver _ found)]
    exact copyPayload_state copied u
  | refuse named found failed overflow =>
    left
    rw [unsent_state, if_neg (receiver _ found)]
    exact copyPayload_state failed u
  | @start p named found message =>
    by_cases here : u = p
    · subst here
      exact .inr ⟨named, found, message, rfl, rfl⟩
    · left
      have moved : ((k.log (.sending t dest)).startContext t p).state u = k.state u := by
        obtain ⟨ctx, same, _⟩ := startContext_tcbs (k := k.log (.sending t dest)) t p u
        unfold Kernel.state
        rw [same]
        rfl
      unfold pagerStartThread
      show (Kernel.setThreadState _ p .runnable).state u = _
      rw [state_setThreadState, if_neg here]
      exact moved
  | pagerDeliver named found copied => exact .inl (copyPayload_state copied u)
  | pagerRefuse named found failed overflow => exact .inl (copyPayload_state failed u)
  | missing => exact .inl rfl
  | block named found armed =>
    left
    rw [state_setTcb_other other]
    have timed := setThreadTimeout_state armed other
    exact timed
  | abort => exact .inl rfl

theorem pagerStartThread_spec (k : Kernel) (pager p : Nat) :
    (k.pagerStartThread pager p).state p = .runnable ∧
      ((k.pagerStartThread pager p).tcbs p).ctx.sp = (k.mem.utcb (k.tcbs pager).utcb).mr 2 - 32#32 ∧
      ((k.pagerStartThread pager p).mem.frame ((k.mem.utcb (k.tcbs pager).utcb).mr 2 - 32#32)).pc =
        (k.mem.utcb (k.tcbs pager).utcb).mr 1 := by
  have mem : (k.pagerStartThread pager p).mem = (k.startContext pager p).mem := setThreadState_mem ..
  have tcbs : (k.pagerStartThread pager p).tcbs =
      Function.update (k.startContext pager p).tcbs p { (k.startContext pager p).tcbs p with state := .runnable } :=
    setThreadState_tcbs ..
  refine ⟨?_, ?_, ?_⟩
  · unfold Kernel.state
    rw [tcbs, Function.update_self]
  · rw [tcbs, Function.update_self]
    simp only [startContext, setMem, setTcb_same]
  · rw [mem]
    simp only [startContext, setMem, Memory.setFrame, Function.update_self]

/-! ### The call -/

/-- How a thread is started by a call of `c`. -/
structure StartedBy (k : Kernel) (c t : Nat) (k' : Kernel) : Prop where
  active : k.state t = .active
  pager : ∃ pager, k.findThreadByGlobalId (k.tcbs t).pager = some pager ∧ k.allocated pager = true ∧
    (k.tcbs pager).addressSpace = (k.tcbs c).addressSpace
  message : k.isStartMessage c
  runs : k'.state t = .runnable
  sp : (k'.tcbs t).ctx.sp = (k.mem.utcb (k.tcbs c).utcb).mr 2 - 32#32
  pc : (k'.mem.frame (k'.tcbs t).ctx.sp).pc = (k.mem.utcb (k.tcbs c).utcb).mr 1

def OnlyPagerStarts (k : Kernel) (c : Nat) (k' : Kernel) : Prop :=
  ∀ t, t ≠ c → k.Unstarted t → k'.state t ≠ k.state t → StartedBy k c t k'

/-- The lookup of the started thread's pager finds a slot that is in use. -/
def PagerLives (k : Kernel) (c : Nat) : Prop :=
  ∀ p pager, Starts k c p → k.findThreadByGlobalId (k.tcbs p).pager = some pager → k.allocated pager = true

/-- After the send phase, the call touches the unstarted threads no more. -/
theorem Called.unstarted {c : Nat} (h : Called k c k') {t : Nat} (other : t ≠ c) (fresh : k.Unstarted t) :
    k'.state t = k.state t ∨
      (Starts k c t ∧ k'.state t = .runnable ∧ (k'.tcbs t).ctx.sp = (k.mem.utcb (k.tcbs c).utcb).mr 2 - 32#32 ∧
        (k'.mem.frame (k'.tcbs t).ctx.sp).pc = (k.mem.utcb (k.tcbs c).utcb).mr 1) := by
  cases h with
  | @receives k₁ k₂ sent received =>
    rcases sent.unstarted fresh other with same | ⟨named, found, message, _, rfl⟩
    · left
      rw [received.state_others other (by rw [same]; exact fresh.not_waits.1), same]
    · right
      obtain ⟨runs, sp, pc⟩ := pagerStartThread_spec (k.log (.sending c (k.sendTo c))) c t
      have parked := received.parked
      have stack : (k'.tcbs t).ctx.sp = (k.mem.utcb (k.tcbs c).utcb).mr 2 - 32#32 := by
        rw [parked.ctx t]
        exact sp
      refine ⟨⟨other, named, found, message⟩, ?_, stack, ?_⟩
      · rw [received.state_others other (by rw [runs]; decide), runs]
      · obtain ⟨r0, frame⟩ := parked.frame ((k.mem.utcb (k.tcbs c).utcb).mr 2 - 32#32)
        rw [stack, frame]
        exact pc
  | fails sent =>
    rcases sent.unstarted fresh other with same | ⟨_, _, _, done, _⟩
    · left
      rw [endIpc_state, if_neg other, same]
    · cases done
  | waits sent =>
    rcases sent.unstarted fresh other with same | ⟨_, _, _, done, _⟩
    · left
      rw [state_setThreadState, if_neg other, same]
    · cases done

theorem Starts.sends {c p : Nat} (s : Starts k c p) (timeout : Time) :
    k.ipcSend c (k.sendTo c) timeout = .ok (.done, (k.log (.sending c (k.sendTo c))).pagerStartThread c p) := by
  unfold ipcSend
  rw [s.named, s.found]
  have message : (k.log (.sending c (k.sendTo c))).isStartMessage c := s.message
  unfold isStartMessage at message
  simp only [Bool.false_eq_true, if_false, bind, Except.bind, sendPagerMsg]
  rw [if_pos message]

theorem Starts.runs {fuel c p : Nat} (s : Starts k c p) (h : doIpc fuel k c false = .ok k') : k'.state p = .runnable := by
  cases fuel with
  | zero => cases h
  | succ fuel =>
    rw [doIpc] at h
    obtain ⟨⟨sent, k₁⟩, phase, h⟩ := bind_ok h
    have phase : k.ipcSend c (k.sendTo c) (k.sendTime c) = .ok (sent, k₁) := phase
    rw [s.sends] at phase
    cases phase
    obtain ⟨⟨r, k₂⟩, received, h⟩ := bind_ok h
    cases h
    have received := received_of_ipcRecv (fun _ _ _ => received_of_doIpc) received
    obtain ⟨runs, _⟩ := pagerStartThread_spec (k.log (.sending c (k.sendTo c))) c p
    rw [received.state_others s.other (by rw [runs]; decide), runs]

/-- A call starts threads for their live pagers alone if and only if the pager that it looks up lives. -/
theorem only_pager_starts {fuel : Nat} (called : syscallIpc fuel k = .ok k') :
    OnlyPagerStarts k k.caller k' ↔ PagerLives k k.caller := by
  constructor
  · intro only p pager starts found
    obtain ⟨_, active, _⟩ := findIpcPartner_pagerMsg starts.found
    have changes : k'.state p ≠ k.state p := by
      rw [starts.runs called, active]
      decide
    obtain ⟨pager', found', live, _⟩ := (only p starts.other (.inl active) changes).pager
    rw [found] at found'
    cases found'
    exact live
  · intro lives t other fresh changes
    rcases (called_of_doIpc called).unstarted other fresh with same | ⟨starts, runs, sp, pc⟩
    · exact absurd same changes
    · obtain ⟨_, active, pager, found, shared⟩ := findIpcPartner_pagerMsg starts.found
      exact ⟨active, ⟨pager, found, lives t pager starts found, shared⟩, starts.message, runs, sp, pc⟩

/-- The root thread's start message to the second thread, whose pager it is. -/
theorem only_pager_starts_second : ∃ k k', syscallIpc 17 k = .ok k' ∧ k.state 3 = .active ∧ k'.state 3 = .runnable ∧
    OnlyPagerStarts k k.caller k' := by
  have done : ((SmallSystem.after (SmallSystem.setup.take 17)).any fun k => (syscallIpc 17 k).toOption.any fun k' =>
        decide (k.findIpcPartner k.caller (k.sendTo k.caller) true = .ok (.pagerMsg 3) ∧
          k.findThreadByGlobalId (k.tcbs 3).pager = some 2 ∧ k.allocated 2 = true ∧ k.state 3 = .active ∧
            k'.state 3 = .runnable)) = true := by decide +kernel
  obtain ⟨k, _, later⟩ := (Option.any_eq_true _ _).mp done
  obtain ⟨k', called, holds⟩ := (Option.any_eq_true _ _).mp later
  obtain ⟨search, pager, live, active, runs⟩ := of_decide_eq_true holds
  have called := ok_of_toOption called
  refine ⟨k, k', called, active, runs, (only_pager_starts called).mpr ?_⟩
  intro p found starts looked
  have same := starts.found
  rw [search] at same
  cases same
  rw [pager] at looked
  cases looked
  exact live

/-- The root thread makes a second thread with the third as its pager, makes and deletes the third, and
sends the second thread a start message. -/
def deadPager : List (Kernel → Action) :=
  SmallSystem.setup.take 7 ++
  [SmallSystem.load 0x4000#32 SmallSystem.secondId rootId rootId (globalId 0x42#32 1#32) 0x5100#32 2#32] ++ SmallSystem.serve ++
  [SmallSystem.load 0x4000#32 (globalId 0x42#32 1#32) rootId rootId rootId 0x5200#32 2#32] ++ SmallSystem.serve ++
  [SmallSystem.load 0x4000#32 (globalId 0x42#32 1#32) 0#32 0#32 0#32 0#32 2#32] ++ SmallSystem.serve ++
  [SmallSystem.load 0x4000#32 SmallSystem.secondId 0#32 0#32 0#32 0#32 5#32,
    SmallSystem.fill 0x5000#32 2#32 0x1234#32 0x6020#32, fun _ => .svc, fun _ => .pendsv]

/-- The dead pager, slot 4, is still found. -/
theorem deadPager_starts : ∃ b k as k', boot SmallSystem.bootInfo = .ok b ∧ Theory.Run Step b as k ∧
    k.InKernelThread ∧ k.softirqPending = true ∧ syscallIpc 17 k = .ok k' ∧ k.state 3 = .active ∧ k'.state 3 = .runnable ∧
      k.findThreadByGlobalId (k.tcbs 3).pager = some 4 ∧ k.allocated 4 = false ∧ ¬ OnlyPagerStarts k k.caller k' := by
  have done : ((SmallSystem.after deadPager).any fun k => (syscallIpc 17 k).toOption.any fun k' =>
        decide (k.InKernelThread ∧ k.softirqPending = true ∧ k.caller = 2 ∧ k.state 3 = .active ∧ k'.state 3 = .runnable ∧
          k.findThreadByGlobalId (k.tcbs 3).pager = some 4 ∧ k.allocated 4 = false)) = true := by decide +kernel
  obtain ⟨b, k, as, booted, run, _, later⟩ := SmallSystem.reached_after done
  obtain ⟨k', called, holds⟩ := (Option.any_eq_true _ _).mp later
  obtain ⟨kernel, pending, caller, active, runs, pager, dead⟩ := of_decide_eq_true holds
  refine ⟨b, k, as, k', booted, run, kernel, pending, ok_of_toOption called, active, runs, pager, dead, ?_⟩
  intro only
  have started := only 3 (by rw [caller]; decide) (.inl active) (by rw [runs, active]; decide)
  obtain ⟨pager', found, live, _⟩ := started.pager
  rw [pager] at found
  cases found
  rw [dead] at live
  cases live

end BradypOS.Kernel
