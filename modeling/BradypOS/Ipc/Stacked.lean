import BradypOS.Ipc.Stacks
import BradypOS.Syscall.Outcomes
import BradypOS.Thread.Boot

/-!
# Stack pointers over whole runs

A thread that waits in IPC has been switched away from since its creation, which gave it the stack
pointer its frame is found at. Only a pager's message to a thread that was not started finds a pointer
that nobody gave.
-/

namespace BradypOS

open L4

namespace Kernel

variable {k k' k'' : Kernel} {Q Q' : Nat → Prop}

/-! ### The invariant -/

/-- Whoever waits in IPC was given a stack pointer, and so were the receivers of all messages. -/
structure Stacked (k : Kernel) : Prop where
  waits : ∀ t, k.Waits t → given k.trace t = true
  current : ∀ t, k.getCurrentThread = some t → lastSelected k.trace = some t
  stores : StoresGiven k.trace

/-- The trapped thread was given a stack pointer, or the context switch that does so is pending. -/
def Switched (k : Kernel) : Prop :=
  k.softirqPending = true → given k.trace k.caller = true ∨ k.pendsv = true ∧ k.getCurrentThread = some k.caller

/-- What happened since is steady, and stored through given pointers. -/
theorem Stores.since (h : Stores (fun d => given k.trace d = true) k k') :
    lastSelected k'.trace = lastSelected k.trace ∧ (∀ t, given k.trace t = true → given k'.trace t = true) ∧
      (StoresGiven k.trace → StoresGiven k'.trace) := by
  obtain ⟨es, grown, each⟩ := h
  rw [grown]
  clear grown
  induction es with
  | nil => exact ⟨rfl, fun _ => id, id⟩
  | cons e es ih =>
    obtain ⟨selected, given_, stores⟩ := ih fun e' member => each e' (List.mem_cons_of_mem _ member)
    obtain ⟨steady, here⟩ := each e List.mem_cons_self
    refine ⟨?_, fun t h => ?_, fun before => ⟨fun d target => ?_, stores before⟩⟩
    · exact (steady_selected steady _).trans selected
    · exact steady_given steady (given_ t h)
    · exact given_ d (here d target)

/-- A thread that is put into another state does not wait. -/
theorem waits_of_setThreadState {t u : Nat} {st : ThreadState} (sends : st ≠ .sendBlocked) (receives : st ≠ .recvBlocked)
    (wait : (k.setThreadState t st).Waits u) : k.Waits u := by
  unfold Waits at wait ⊢
  rw [state_setThreadState] at wait
  split at wait
  · rcases wait with wait | wait
    · exact absurd wait sends
    · exact absurd wait receives
  · exact wait

namespace Stacked

theorem after (s : Stacked k) (h : Stores (fun d => given k.trace d = true) k k') (current : k'.currentThreadIdx = k.currentThreadIdx)
    (waits : ∀ t, k'.Waits t → given k.trace t = true) : Stacked k' := by
  obtain ⟨selected, given_, stores⟩ := h.since
  refine ⟨fun t wait => given_ t (waits t wait), fun t here => ?_, stores s.stores⟩
  rw [selected]
  apply s.current t
  unfold getCurrentThread at here ⊢
  rw [← current]
  exact here

/-- A change that shows neither in the states nor in the record. -/
theorem aside (s : Stacked k) (trace : k'.trace = k.trace) (current : k'.currentThreadIdx = k.currentThreadIdx)
    (state : ∀ t, k'.state t = k.state t) : Stacked k' := by
  refine s.after (.of_trace trace) current fun t wait => s.waits t ?_
  unfold Waits at wait ⊢
  rw [← state t]
  exact wait

theorem settle {st : ThreadState} (s : Stacked k) (t : Nat) (sends : st ≠ .sendBlocked) (receives : st ≠ .recvBlocked) :
    Stacked (k.setThreadState t st) := by
  refine s.after ((Stores.of_trace rfl).setThreadState t st) (k.setThreadState_currentThreadIdx t st) fun u wait => ?_
  exact s.waits u (waits_of_setThreadState sends receives wait)

theorem wake (s : Stacked k) (t : Nat) : Stacked (k.setThreadState t .runnable) := s.settle t (by decide) (by decide)

theorem setMem (s : Stacked k) (mem : Memory) : Stacked (k.setMem mem) := s.aside rfl rfl fun _ => rfl

theorem setTcb (s : Stacked k) {t : Nat} {f : Tcb → Tcb} (same : ∀ tcb, (f tcb).state = tcb.state) : Stacked (k.setTcb t f) := by
  refine s.aside rfl rfl fun u => ?_
  unfold Kernel.state
  by_cases here : u = t
  · subst here
    rw [setTcb_same, same]
  · rw [setTcb_other _ _ _ _ here]

theorem setTcb_settled (s : Stacked k) {t : Nat} {f : Tcb → Tcb}
    (settled : ∀ tcb, (f tcb).state ≠ .sendBlocked ∧ (f tcb).state ≠ .recvBlocked) : Stacked (k.setTcb t f) := by
  refine s.after (.of_trace rfl) rfl fun u wait => s.waits u ?_
  unfold Waits Kernel.state at wait ⊢
  by_cases here : u = t
  · subst here
    rw [setTcb_same] at wait
    rcases wait with wait | wait
    · exact absurd wait (settled _).1
    · exact absurd wait (settled _).2
  · rw [setTcb_other _ _ _ _ here] at wait
    exact wait

/-- Threads that were not started do not wait after a call that they did not make. -/
theorem waits_of_called {c t : Nat} (s : Stacked k) (caller : given k.trace c = true) (h : Called k c k') (wait : k'.Waits t) :
    given k.trace t = true := by
  have involved : ∀ u, Involved k c u → given k.trace u = true ∨ k.state u = .active := by
    intro u involved
    cases involved with
    | caller => exact .inl caller
    | receiver named found => exact .inl (s.waits u (.inr (isReadyPartner_waits (findIpcPartner_found found))))
    | started named found => exact .inr (findIpcPartner_pagerMsg found).2.1
    | sender chain => exact .inl (s.waits u (.inl chain.waits))
  have kept : ∀ u, k'.Waits u → given k.trace u = true ∨ k.state u = .active := by
    refine h.rule (P := fun k' => ∀ u, k'.Waits u → given k.trace u = true ∨ k.state u = .active) ?_ ?_ involved
      fun u wait => .inl (s.waits u wait)
    · intro k₁ k₂ waits light u wait
      apply waits u
      unfold Waits at wait ⊢
      rw [← light.state u]
      exact wait
    · intro k₁ u st here waits v wait
      by_cases same : v = u
      · exact same ▸ here
      · apply waits v
        unfold Waits at wait ⊢
        rw [state_setThreadState, if_neg same] at wait
        exact wait
  rcases kept t wait with here | fresh
  · exact here
  · by_cases same : t = c
    · exact same ▸ caller
    · exfalso
      rcases h.unstarted same (.inl fresh) with state | ⟨_, runs, _⟩
      · unfold Waits at wait
        rw [state, fresh] at wait
        rcases wait with wait | wait <;> cases wait
      · unfold Waits at wait
        rw [runs] at wait
        rcases wait with wait | wait <;> cases wait

theorem called {c : Nat} (s : Stacked k) (caller : given k.trace c = true) (h : Called k c k')
    (prompt : ∀ p, isNilThread (k.sendTo c) = false → k.findIpcPartner c (k.sendTo c) true = .ok (.pagerMsg p) →
      ¬ k.isStartMessage c → given k.trace p = true) : Stacked k' := by
  refine s.after (h.stores.mono fun d here => ?_) ?_ fun t wait => s.waits_of_called caller h wait
  · rcases here with rfl | chain | ⟨named, found | ⟨found, other⟩⟩
    · exact caller
    · exact s.waits d (.inl chain.waits)
    · exact s.waits d (.inr (isReadyPartner_waits (findIpcPartner_found found)))
    · exact prompt d named found other
  · exact h.rule (P := fun k' => k'.currentThreadIdx = k.currentThreadIdx) (fun _ _ same light => light.currentThreadIdx.trans same)
      (fun k₁ t st (_ : True) same => (k₁.setThreadState_currentThreadIdx t st).trans same) (fun _ _ => trivial) rfl

/-! ### The handlers -/

theorem setFrame (s : Stacked k) (sp : Word) (f : Frame → Frame) : Stacked (k.setFrame sp f) := s.setMem _

theorem refuse (s : Stacked k) (sp : Word) (err : ErrorCode) : Stacked (k.refuse sp err) := (s.setFrame _ _).setMem _

theorem unblockCaller (s : Stacked k) : Stacked k.unblockCaller := s.wake _

theorem settleSpace (s : Stacked k) (sp : Word) (t as : Nat) (kipArea utcbArea : Word) :
    Stacked (k.settleSpace sp t as kipArea utcbArea) := by
  have checked : Stacked (k.checkUtcbArea sp as) := by
    unfold checkUtcbArea
    split
    · exact s.refuse sp _
    · exact s
  have area : Stacked ((k.checkUtcbArea sp as).setAs as fun space => { space with utcbPage := utcbArea }) :=
    checked.aside rfl rfl fun _ => rfl
  unfold Kernel.settleSpace
  refine Stacked.setFrame ?_ _ _
  unfold activateTarget
  split
  · exact (area.setMem _).settle t (by decide) (by decide)
  · exact area

theorem newSpace (s : Stacked k) (t as : Nat) : Stacked (k.newSpace t as) := by
  unfold Kernel.newSpace
  refine Stacked.setTcb ?_ fun _ => rfl
  exact s.aside rfl rfl fun _ => rfl

theorem spaceControlled (s : Stacked k) (h : SpaceControlled k k') : Stacked k' := by
  cases h with
  | refused err => exact s.refuse _ err
  | done found kip space =>
    rcases ensureAs_cases space with ⟨_, rfl⟩ | ⟨_, _, _, rfl⟩
    · exact s.settleSpace _ _ _ _ _
    · exact (s.newSpace _ _).settleSpace _ _ _ _ _

theorem deleted {t : Nat} (s : Stacked k) (h : k.deleteThread t = .ok k') : Stacked k' := by
  have gone := deleteThread_gone h
  refine s.after (.event gone.trace rfl nofun) gone.currentThreadIdx fun u wait => s.waits u ?_
  obtain ⟨_, _, same⟩ := gone.tcbs u
  unfold Waits Kernel.state at wait ⊢
  rw [same] at wait
  exact wait

theorem joinSiblings (s : Stacked k) (t space : Nat) : Stacked (k.joinSiblings t space) := by
  unfold Kernel.joinSiblings
  refine Stacked.setTcb ?_ fun _ => rfl
  exact s.setTcb fun _ => rfl

theorem created {t : Nat} {id : Word} (s : Stacked k) (h : k.createThread id = .ok (some t, k')) : Stacked k' := by
  rcases createThread_spec h with ⟨none, _⟩ | ⟨t', list, same, _, _, rfl⟩
  · cases none
  · cases same
    have fresh : (((k.takeTcb t).setTcb t (freshTcb id)).setTable (k.threadCount + 1) list).tcbs =
        Function.update k.tcbs t (freshTcb id (k.tcbs t)) := rfl
    refine ⟨fun u wait => ?_, s.current, ⟨nofun, s.stores⟩⟩
    have other : t ≠ u := by
      rintro rfl
      unfold Waits Kernel.state at wait
      simp only [Kernel.log, fresh, Function.update_self] at wait
      rcases wait with wait | wait <;> cases wait
    have was : k.Waits u := by
      unfold Waits Kernel.state at wait ⊢
      simp only [Kernel.log, fresh, Function.update_of_ne (Ne.symm other)] at wait
      exact wait
    show (decide (t ≠ u) && given k.trace u) = true
    rw [decide_eq_true other, s.waits u was]
    rfl

theorem placeThread (s : Stacked k) (t : Nat) (space : Option Nat) (dest scheduler pager utcbLocation : Word) :
    Stacked (k.placeThread t space dest scheduler pager utcbLocation) := by
  have named : Stacked (k.setTcb t fun new =>
      { new with
        globalId := dest, localId := utcbLocation, utcb := utcbLocation
        state := if isNilThread pager || space.isNone then .inactive else .active }) := by
    refine s.setTcb_settled fun tcb => ?_
    dsimp only
    split
    · decide
    · decide
  unfold Kernel.placeThread
  refine Stacked.setTcb ?_ fun _ => rfl
  cases space with
  | none => exact named
  | some space => exact named.joinSiblings t space

theorem threadControlled (s : Stacked k) (h : ThreadControlled k k') : Stacked k' := by
  cases h with
  | privileged => exact s.refuse _ _
  | refused _ err => exact (s.refuse _ err).unblockCaller
  | deletedSelf _ _ _ _ gone => exact (s.deleted gone).setFrame _ _
  | deleted _ _ _ _ _ gone => exact ((s.deleted gone).setFrame _ _).unblockCaller
  | @modified dest space as =>
    have changed : Stacked (k.setTcb dest (Kernel.modified k.callerFrame.r0 as k.callerFrame.r2 k.callerFrame.r3 k.callerR4)) :=
      s.setTcb fun _ => rfl
    exact ((changed.setMem _).setFrame _ _).unblockCaller
  | created _ _ _ made => exact (((s.created made).placeThread _ _ _ _ _ _).setFrame _ _).unblockCaller

theorem scheduled (s : Stacked k) (h : Scheduled k k') : Stacked k' := by
  cases h with
  | refused err => exact s.refuse _ err
  | kept => exact (s.setMem _).setFrame _ _
  | @changed dest =>
    obtain ⟨schedule, same, _⟩ := k.setThreadPriority_spec dest k.callerFrame.r3
    rw [same]
    have raised : Stacked (k.setTcb dest fun tcb => { tcb with priority := k.callerFrame.r3 }) := s.setTcb fun _ => rfl
    have reordered : Stacked ((k.setTcb dest fun tcb => { tcb with priority := k.callerFrame.r3 }).setSchedule schedule) :=
      raised.aside rfl rfl fun _ => rfl
    exact (reordered.setMem _).setFrame _ _

end Stacked

/-! ### Traps, ticks and context switches -/

/-- Nobody starts to wait, is chosen, or traps. -/
structure Passive (k k' : Kernel) : Prop where
  stores : Stores (fun _ => False) k k'
  waits : ∀ t, k'.Waits t → k.Waits t
  currentThreadIdx : k'.currentThreadIdx = k.currentThreadIdx
  caller : k'.caller = k.caller
  softirqPending : k'.softirqPending = k.softirqPending
  pendsv : k.pendsv = true → k'.pendsv = true

namespace Passive

theorem of_tcbs (tcbs : k'.tcbs = k.tcbs) (stores : Stores (fun _ => False) k k') (current : k'.currentThreadIdx = k.currentThreadIdx)
    (caller : k'.caller = k.caller) (pending : k'.softirqPending = k.softirqPending) (pendsv : k.pendsv = true → k'.pendsv = true) :
    Passive k k' := by
  refine ⟨stores, fun t wait => ?_, current, caller, pending, pendsv⟩
  unfold Waits Kernel.state at wait ⊢
  rw [tcbs] at wait
  exact wait

theorem aside (tcbs : k'.tcbs = k.tcbs) (trace : k'.trace = k.trace) (current : k'.currentThreadIdx = k.currentThreadIdx)
    (caller : k'.caller = k.caller) (pending : k'.softirqPending = k.softirqPending) (pendsv : k.pendsv = true → k'.pendsv = true) :
    Passive k k' := of_tcbs tcbs (.of_trace trace) current caller pending pendsv

theorem refl (k : Kernel) : Passive k k := aside rfl rfl rfl rfl rfl id

theorem trans (h : Passive k k') (h' : Passive k' k'') : Passive k k'' :=
  ⟨h.stores.trans h'.stores, fun t wait => h.waits t (h'.waits t wait), h'.currentThreadIdx.trans h.currentThreadIdx,
    h'.caller.trans h.caller, h'.softirqPending.trans h.softirqPending, fun switch => h'.pendsv (h.pendsv switch)⟩

theorem log {e : Event} (h : Passive k k') (steady : e.steady = true) (target : e.stores = none) : Passive k (k'.log e) := by
  refine h.trans (of_tcbs rfl (.event rfl steady fun d stores => ?_) rfl rfl rfl id)
  rw [target] at stores
  cases stores

theorem settle {st : ThreadState} (h : Passive k k') (t : Nat) (sends : st ≠ .sendBlocked) (receives : st ≠ .recvBlocked) :
    Passive k (k'.setThreadState t st) := by
  refine h.trans ⟨(Stores.of_trace rfl).setThreadState t st, fun u => waits_of_setThreadState sends receives,
    k'.setThreadState_currentThreadIdx t st, k'.setThreadState_caller t st, k'.setThreadState_softirqPending t st, fun switch => ?_⟩
  rw [setThreadState_pendsv]
  exact switch

theorem requestReschedule (h : Passive k k') (target : Option Nat) : Passive k (k'.requestReschedule target) :=
  h.trans (aside rfl rfl rfl rfl rfl fun _ => rfl)

end Passive

theorem Stacked.passive (s : Stacked k) (h : Passive k k') : Stacked k' :=
  s.after (h.stores.mono nofun) h.currentThreadIdx fun t wait => s.waits t (h.waits t wait)

theorem Switched.passive (w : Switched k) (h : Passive k k') : Switched k' := by
  intro pending
  rw [h.softirqPending] at pending
  have stores : Stores (fun d => given k.trace d = true) k k' := h.stores.mono nofun
  have later := stores.since.2.1
  unfold getCurrentThread
  rw [h.caller, h.currentThreadIdx]
  rcases w pending with here | ⟨switch, current⟩
  · exact .inl (later _ here)
  · exact .inr ⟨h.pendsv switch, current⟩

theorem threadSwitch_passive {current : Nat} {dest : Word} (h : k.threadSwitch current dest = .ok k') : Passive k k' := by
  obtain ⟨k₁, target, paused, rfl⟩ := threadSwitch_cases h
  refine Passive.requestReschedule ?_ _
  rcases paused with rfl | ⟨_, paused⟩
  · exact .refl _
  · obtain ⟨alarms, queue, rfl⟩ := pauseThread_frame paused
    have noted : Passive k (k.log (.pausing current)) := (Passive.refl k).log rfl rfl
    refine Passive.settle (Passive.log (noted.trans ?_) rfl rfl) current (by decide) (by decide)
    exact .aside rfl rfl rfl rfl rfl id

theorem isrSystick_passive (h : k.isrSystick = .ok k') : Passive k k' := by
  refine (isrSystick_rule (P := Passive k) ?_ (.aside rfl rfl rfl rfl rfl id) h).1
  intro k₁ ev k₂ passive _ _ _ handled
  have base : Passive k (k₁.popped ev) := by
    refine Passive.log (passive.trans ?_) rfl rfl
    exact .aside rfl rfl rfl rfl rfl id
  rcases kalarmEventFunc_cases handled with ⟨_, rfl⟩ | ⟨t, _, _, rfl⟩ | ⟨_, _, rfl⟩ | ⟨t, _, _, _, rfl⟩
  · exact base.requestReschedule none
  · exact ((base.log rfl rfl).settle t (by decide) (by decide)).requestReschedule none
  · exact base
  · have marked : Passive k ((k₁.popped ev).setIpcError t) := base.trans (.aside rfl rfl rfl rfl rfl id)
    have told : Passive k (((k₁.popped ev).setIpcError t).reportError t ((k₁.popped ev).state t = .recvBlocked) .timeout) :=
      Passive.log (marked.trans (.aside rfl rfl rfl rfl rfl id)) rfl rfl
    exact (told.settle t (by decide) (by decide)).log rfl rfl

theorem deferSyscall_stacked {current : Nat} (s : Stacked k) (running : k.getCurrentThread = some current) :
    Stacked (k.deferSyscall current) ∧ Switched (k.deferSyscall current) := by
  have blocked : Stacked ((k.setCaller current).setThreadState current .svcBlocked) := by
    refine Stacked.settle ?_ current (by decide) (by decide)
    exact s.aside rfl rfl fun _ => rfl
  have woken : Stacked ((((k.setCaller current).setThreadState current .svcBlocked).setPending true).setThreadState kernTcb
      .runnable) := by
    refine Stacked.wake ?_ kernTcb
    exact blocked.aside rfl rfl fun _ => rfl
  refine ⟨woken.aside rfl rfl fun _ => rfl, fun _ => .inr ⟨rfl, ?_⟩⟩
  have caller : (k.deferSyscall current).caller = current := by
    show (Kernel.setThreadState _ kernTcb .runnable).caller = current
    rw [setThreadState_caller]
    show (Kernel.setThreadState _ current .svcBlocked).caller = current
    rw [setThreadState_caller]
    rfl
  have idx : (k.deferSyscall current).currentThreadIdx = k.currentThreadIdx := by
    show (Kernel.setThreadState _ kernTcb .runnable).currentThreadIdx = _
    rw [setThreadState_currentThreadIdx]
    show (Kernel.setThreadState _ current .svcBlocked).currentThreadIdx = _
    rw [setThreadState_currentThreadIdx]
    rfl
  unfold getCurrentThread at running ⊢
  rw [caller, idx]
  exact running

theorem isrSvcall_stacked (s : Stacked k) (w : Switched k) (h : k.isrSvcall = .ok k') : Stacked k' ∧ Switched k' := by
  unfold isrSvcall at h
  split at h
  · cases h
  · rename_i current running
    split at h
    · have passive := threadSwitch_passive h
      exact ⟨s.passive passive, w.passive passive⟩
    · cases h
      exact ⟨s.setFrame _ _, w⟩
    · cases h
      exact deferSyscall_stacked s running

theorem requeueCurrent_stores (k : Kernel) : Stores (fun _ => False) k k.requeueCurrent ∧ k.requeueCurrent.tcbs = k.tcbs ∧
    k.requeueCurrent.currentThreadIdx = k.currentThreadIdx ∧ k.requeueCurrent.caller = k.caller ∧
    k.requeueCurrent.softirqPending = k.softirqPending := by
  unfold requeueCurrent
  split
  · exact ⟨.event rfl rfl nofun, rfl, rfl, rfl, rfl⟩
  · exact ⟨.of_trace rfl, rfl, rfl, rfl, rfl⟩

theorem switchContext_stacked (s : Stacked k) (w : Switched k) (h : k.switchContext = .ok k') : Stacked k' ∧ Switched k' := by
  obtain ⟨k₁, switched, rfl⟩ := switchContext_spec h
  obtain ⟨tcbs, saved, kept⟩ := (k.setPendsv false).saveContext_frame
  rw [saved] at switched
  obtain ⟨idx, k₂, alarms, selected, _, rfl⟩ := scheduleNextThread_spec switched
  obtain ⟨_, schedule, rfl⟩ := selectThread_spec selected
  obtain ⟨stores, sameTcbs, current, caller, pending⟩ := ((k.setPendsv false).setTcbs tcbs).requeueCurrent_stores
  generalize ((k.setPendsv false).setTcbs tcbs).requeueCurrent = k₀ at *
  have stores : Stores (fun d => given k.trace d = true) k k₀ := (Stores.of_trace rfl).trans (stores.mono nofun)
  have s₀ : Stacked k₀ := by
    refine s.after stores current fun t wait => s.waits t ?_
    obtain ⟨ctx, same⟩ := kept t
    unfold Waits Kernel.state at wait ⊢
    rw [sameTcbs] at wait
    show (k.tcbs t).state = _ ∨ (k.tcbs t).state = _
    have state : (tcbs t).state = (k.tcbs t).state := by rw [same]; rfl
    rw [← state]
    exact wait
  have later : ∀ t, lastSelected k₀.trace = some t ∨ given k₀.trace t = true → given (.selected idx :: k₀.trace) t = true := by
    intro t before
    rcases before with ran | before
    · simp [given, ran]
    · simp [given, before]
  have chosen : StoresGiven (.selected idx :: k₀.trace) := by
    refine ⟨fun d stores => ?_, s₀.stores⟩
    cases stores
  refine ⟨⟨fun t wait => later t (.inr (s₀.waits t wait)), fun t here => ?_, chosen⟩, fun softirq => .inl (later _ ?_)⟩
  · unfold getCurrentThread at here
    split at here
    · cases here
    · exact here
  · have softirq : k.softirqPending = true := by
      rw [← softirq]
      exact pending.symm
    have same : k₀.caller = k.caller := caller
    show lastSelected k₀.trace = some k₀.caller ∨ given k₀.trace k₀.caller = true
    obtain ⟨ran, before, _⟩ := stores.since
    rw [same, ran]
    rcases w softirq with here | ⟨_, here⟩
    · exact .inr (before _ here)
    · exact .inl (s.current _ here)

theorem isrHardfault_passive {lr : Word} (h : k.isrHardfault lr = .ok k') : Passive k k' := by
  obtain ⟨_, k₁, deleted, rfl⟩ := isrHardfault_cases h
  have gone := deleteThread_gone deleted
  have passive : Passive k k₁ := by
    refine ⟨.event gone.trace rfl nofun, fun t wait => ?_, gone.currentThreadIdx, gone.caller, gone.softirqPending, fun switch => ?_⟩
    · obtain ⟨_, _, same⟩ := gone.tcbs t
      unfold Waits Kernel.state at wait ⊢
      rw [same] at wait
      exact wait
    · rw [gone.pendsv]
      exact switch
  exact passive.requestReschedule none

/-! ### The kernel thread, and whole runs -/

/-- The thread that the pending call finds not started yet, with the caller in its pager's space. -/
def startable (k : Kernel) : Option Nat :=
  match k.findIpcPartner k.caller (k.sendTo k.caller) true with
  | .ok (.pagerMsg p) => some p
  | _ => none

theorem startable_of_pagerMsg {p : Nat} (found : k.findIpcPartner k.caller (k.sendTo k.caller) true = .ok (.pagerMsg p)) :
    k.startable = some p := by
  unfold startable
  rw [found]

instance (k : Kernel) (t : Nat) : Decidable (k.isStartMessage t) := inferInstanceAs (Decidable (_ ∧ _))

/-- A pager sends to a thread that is not started either a start message, or nothing before the thread
was given a stack pointer. -/
def Prompt (k : Kernel) : Action → Prop
  | .softirq _ => k.softirqPending = true → k.pendingCall = some .ipc → isNilThread (k.sendTo k.caller) = false →
    ¬ k.isStartMessage k.caller → ∀ p ∈ k.startable, given k.trace p = true
  | _ => True

instance (k : Kernel) : (a : Action) → Decidable (k.Prompt a)
  | .softirq _ => inferInstanceAs (Decidable (_ → _ → _ → _ → ∀ p ∈ _, _))
  | .hardfault _ | .user _ _ | .svc | .systick | .pendsv | .yield => inferInstanceAs (Decidable True)

theorem softirqSvc_stacked {fuel : Nat} (s : Stacked k) (w : Switched k) (kernel : k.InKernelThread)
    (ok : Prompt k (.softirq fuel)) (pending : k.softirqPending = true) (h : softirqSvc fuel k = .ok k') : Stacked k' := by
  have caller : given k.trace k.caller = true := by
    rcases w pending with here | ⟨switch, _⟩
    · exact here
    · rw [kernel.2] at switch
      cases switch
  cases handled_of_softirqSvc h with
  | answered => exact (s.setFrame _ _).unblockCaller
  | space number done => exact (s.spaceControlled done).unblockCaller
  | thread number done => exact s.threadControlled done
  | ipc number done =>
    refine s.called caller (called_of_doIpc done) fun p named found other => ?_
    exact ok pending number named other p (startable_of_pagerMsg found)
  | unmap => exact s.unblockCaller
  | schedule number done => exact (s.scheduled done).unblockCaller
  | unknown => exact s

theorem step_stacked {a : Action} (s : Stacked k) (w : Switched k) (ok : Prompt k a) (step : Step k a k') :
    Stacked k' ∧ Switched k' := by
  obtain ⟨enabled, h⟩ := step
  cases a with
  | user cpu mem => cases h; exact ⟨s.aside rfl rfl fun _ => rfl, w⟩
  | svc => exact isrSvcall_stacked s w h
  | systick =>
    have passive := isrSystick_passive h
    exact ⟨s.passive passive, w.passive passive⟩
  | pendsv => exact switchContext_stacked s w h
  | softirq fuel =>
    obtain ⟨k₁, served, rfl⟩ := softirqExecute_cases h
    have s₁ : Stacked k₁ := by
      rcases served with ⟨pending, served⟩ | ⟨_, rfl⟩
      · exact softirqSvc_stacked s w enabled ok pending served
      · exact s
    have cleared : Stacked (k₁.setPending false) := s₁.aside rfl rfl fun _ => rfl
    refine ⟨cleared.settle kernTcb (by decide) (by decide), fun pending => ?_⟩
    rw [setThreadState_softirqPending] at pending
    cases pending
  | yield =>
    have passive := threadSwitch_passive h
    exact ⟨s.passive passive, w.passive passive⟩
  | hardfault lr =>
    have passive := isrHardfault_passive h
    exact ⟨s.passive passive, w.passive passive⟩

theorem createSysThread_stacked {id sp pc priority localId : Word} {st : ThreadState} (s : Stacked k)
    (settled : st ≠ .sendBlocked ∧ st ≠ .recvBlocked) (h : k.createSysThread id sp pc priority localId st = .ok k') : Stacked k' := by
  unfold createSysThread at h
  obtain ⟨⟨made, k₁⟩, created, h⟩ := bind_ok h
  cases made with
  | none => cases h
  | some t =>
    cases h
    refine Stacked.settle (Stacked.setFrame ?_ _ _) t settled.1 settled.2
    exact (s.created created).setTcb fun _ => rfl

theorem boot_stacked {info : BootInfo} (h : boot info = .ok k) : Stacked k ∧ Switched k := by
  have pending := (booted h).softirqPending
  unfold boot createSysThreads at h
  obtain ⟨k₃, threads, h⟩ := bind_ok h
  cases h
  obtain ⟨k₁, kern, threads⟩ := bind_ok threads
  obtain ⟨k₂, idle, root⟩ := bind_ok threads
  have fresh : Stacked (init info) := by
    refine ⟨fun t wait => ?_, nofun, trivial⟩
    rcases wait with wait | wait <;> cases wait
  have s₁ := createSysThread_stacked fresh (by decide) kern
  have s₂ := createSysThread_stacked s₁ (by decide) idle
  have s₃ := createSysThread_stacked s₂ (by decide) root
  refine ⟨s₃.aside rfl rfl fun _ => rfl, fun softirq => ?_⟩
  rw [pending] at softirq
  cases softirq

/-! ### Where stack pointers come from -/

/-- The saved contexts stay. -/
def SameContexts (k k' : Kernel) : Prop := ∀ t, (k'.tcbs t).ctx = (k.tcbs t).ctx

namespace SameContexts

theorem of_tcbs (same : k'.tcbs = k.tcbs) : SameContexts k k' := fun t => by rw [same]

theorem trans (h : SameContexts k k') (h' : SameContexts k' k'') : SameContexts k k'' := fun t => (h' t).trans (h t)

theorem aside (h : SameContexts k k') (same : k''.tcbs = k'.tcbs) : SameContexts k k'' := h.trans (of_tcbs same)

theorem setTcb {t : Nat} {f : Tcb → Tcb} (h : SameContexts k k') (same : ∀ tcb, (f tcb).ctx = tcb.ctx) :
    SameContexts k (k'.setTcb t f) := by
  refine h.trans fun u => ?_
  by_cases here : u = t
  · subst here
    rw [setTcb_same, same]
  · rw [setTcb_other _ _ _ _ here]

theorem setThreadState (h : SameContexts k k') (t : Nat) (st : ThreadState) : SameContexts k (k'.setThreadState t st) :=
  h.trans ((Parked.refl k').setThreadState t st).ctx

theorem unblockCaller (h : SameContexts k k') : SameContexts k k'.unblockCaller := h.setThreadState _ _

theorem settleSpace (h : SameContexts k k') (sp : Word) (t as : Nat) (kipArea utcbArea : Word) :
    SameContexts k (k'.settleSpace sp t as kipArea utcbArea) := by
  have checked : (k'.checkUtcbArea sp as).tcbs = k'.tcbs := by
    unfold checkUtcbArea
    split <;> rfl
  have area : SameContexts k ((k'.checkUtcbArea sp as).setAs as fun space => { space with utcbPage := utcbArea }) := h.aside checked
  unfold Kernel.settleSpace
  refine SameContexts.aside ?_ rfl
  unfold activateTarget
  split
  · refine SameContexts.setThreadState ?_ t .active
    exact area.aside rfl
  · exact area

theorem spaceControlled (h : SpaceControlled k k') : SameContexts k k' := by
  cases h with
  | refused err => exact .of_tcbs rfl
  | done found kip space =>
    rcases ensureAs_cases space with ⟨_, rfl⟩ | ⟨_, _, _, rfl⟩
    · exact settleSpace (.of_tcbs rfl) _ _ _ _ _
    · refine settleSpace ?_ _ _ _ _ _
      unfold Kernel.newSpace
      refine SameContexts.setTcb ?_ fun _ => rfl
      exact .of_tcbs rfl

theorem deleteThread {t : Nat} (h : k.deleteThread t = .ok k') : SameContexts k k' := by
  intro u
  obtain ⟨_, _, same⟩ := (deleteThread_gone h).tcbs u
  rw [same]

theorem placeThread (h : SameContexts k k') (t : Nat) (space : Option Nat) (dest scheduler pager utcbLocation : Word) :
    SameContexts k (k'.placeThread t space dest scheduler pager utcbLocation) := by
  unfold Kernel.placeThread
  refine SameContexts.setTcb ?_ fun _ => rfl
  cases space with
  | none => exact h.setTcb fun _ => rfl
  | some space =>
    dsimp only
    unfold Kernel.joinSiblings
    refine SameContexts.setTcb ?_ fun _ => rfl
    refine SameContexts.setTcb ?_ fun _ => rfl
    exact h.setTcb fun _ => rfl

theorem threadControlled (h : ThreadControlled k k') : SameContexts k k' := by
  cases h with
  | privileged => exact .of_tcbs rfl
  | refused _ err => exact unblockCaller (.of_tcbs rfl)
  | deletedSelf _ _ _ _ gone => exact (deleteThread gone).aside rfl
  | deleted _ _ _ _ _ gone => exact unblockCaller ((deleteThread gone).aside rfl)
  | @modified dest space as =>
    have changed : SameContexts k
        (k.setTcb dest (Kernel.modified k.callerFrame.r0 as k.callerFrame.r2 k.callerFrame.r3 k.callerR4)) :=
      setTcb (.of_tcbs rfl) fun _ => rfl
    exact unblockCaller (changed.aside rfl)
  | @created t k₁ _ _ _ made =>
    rcases createThread_spec made with ⟨none, _⟩ | ⟨t', list, same, _, _, rfl⟩
    · cases none
    · cases same
      have fresh : SameContexts k ((k.takeTcb t).setTcb t (freshTcb k.callerFrame.r0)) := setTcb (.of_tcbs rfl) fun _ => rfl
      refine unblockCaller (SameContexts.aside (placeThread ?_ _ _ _ _ _ _) rfl)
      exact fresh.aside rfl

theorem scheduled (h : Scheduled k k') : SameContexts k k' := by
  cases h with
  | refused err => exact .of_tcbs rfl
  | kept => exact .of_tcbs rfl
  | @changed dest =>
    obtain ⟨schedule, same, _⟩ := k.setThreadPriority_spec dest k.callerFrame.r3
    rw [same]
    have raised : SameContexts k (k.setTcb dest fun tcb => { tcb with priority := k.callerFrame.r3 }) :=
      setTcb (.of_tcbs rfl) fun _ => rfl
    exact raised.aside rfl

end SameContexts

theorem threadSwitch_contexts {current : Nat} {dest : Word} (h : k.threadSwitch current dest = .ok k') : SameContexts k k' := by
  obtain ⟨k₁, target, paused, rfl⟩ := threadSwitch_cases h
  refine SameContexts.aside ?_ rfl
  rcases paused with rfl | ⟨_, paused⟩
  · exact .of_tcbs rfl
  · obtain ⟨alarms, queue, rfl⟩ := pauseThread_frame paused
    exact SameContexts.setThreadState (.of_tcbs rfl) current .paused

theorem isrSvcall_contexts (h : k.isrSvcall = .ok k') : SameContexts k k' := by
  unfold isrSvcall at h
  split at h
  · cases h
  · rename_i current running
    split at h
    · exact threadSwitch_contexts h
    · cases h
      exact .of_tcbs rfl
    · cases h
      have blocked : SameContexts k ((k.setCaller current).setThreadState current .svcBlocked) :=
        SameContexts.setThreadState (.of_tcbs rfl) current .svcBlocked
      have pending : SameContexts k (((k.setCaller current).setThreadState current .svcBlocked).setPending true) :=
        blocked.aside rfl
      exact (pending.setThreadState kernTcb .runnable).aside rfl

theorem isrSystick_contexts (h : k.isrSystick = .ok k') : SameContexts k k' := by
  refine (isrSystick_rule (P := SameContexts k) ?_ (.of_tcbs rfl) h).1
  intro k₁ ev k₂ same _ _ _ handled
  have base : SameContexts k (k₁.popped ev) := same.aside rfl
  rcases kalarmEventFunc_cases handled with ⟨_, rfl⟩ | ⟨t, _, _, rfl⟩ | ⟨_, _, rfl⟩ | ⟨t, _, _, _, rfl⟩
  · exact base.aside rfl
  · have noted : SameContexts k ((k₁.popped ev).log (.unpaused t ((k₁.popped ev).state t) ((k₁.popped ev).allocated t))) :=
      base.aside rfl
    exact (noted.setThreadState t .runnable).aside rfl
  · exact base
  · have told : SameContexts k (((k₁.popped ev).setIpcError t).reportError t ((k₁.popped ev).state t = .recvBlocked) .timeout) :=
      base.aside rfl
    exact (told.setThreadState t .runnable).aside rfl

theorem switchContext_contexts (h : k.switchContext = .ok k') {t : Nat} (other : k.getCurrentThread ≠ some t) :
    (k'.tcbs t).ctx = (k.tcbs t).ctx := by
  obtain ⟨k₁, switched, rfl⟩ := switchContext_spec h
  have saved : ((k.setPendsv false).saveContext.tcbs t).ctx = (k.tcbs t).ctx := by
    unfold saveContext
    split
    · rfl
    · rename_i u running
      rw [setTcb_other _ _ _ _ fun same => other (running.trans (congrArg some same.symm))]
      rfl
  obtain ⟨idx, k₂, alarms, selected, _, rfl⟩ := scheduleNextThread_spec switched
  obtain ⟨_, schedule, rfl⟩ := selectThread_spec selected
  obtain ⟨_, tcbs, _⟩ := (k.setPendsv false).saveContext.requeueCurrent_stores
  have same := congrArg (fun tcbs => (tcbs t).ctx) tcbs
  exact same.trans saved

/-- What gives a thread its stack pointer. -/
def GivesStack (k : Kernel) (a : Action) (k' : Kernel) (t : Nat) : Prop :=
  a = .pendsv ∧ k.getCurrentThread = some t ∨ StartedIn k k' t

theorem step_contexts {a : Action} (step : Step k a k') (t : Nat) :
    (k'.tcbs t).ctx = (k.tcbs t).ctx ∨ GivesStack k a k' t := by
  obtain ⟨_, h⟩ := step
  cases a with
  | user cpu mem => cases h; exact .inl rfl
  | svc => exact .inl (isrSvcall_contexts h t)
  | systick => exact .inl (isrSystick_contexts h t)
  | pendsv =>
    by_cases running : k.getCurrentThread = some t
    · exact .inr (.inl ⟨rfl, running⟩)
    · exact .inl (switchContext_contexts h running)
  | softirq fuel =>
    obtain ⟨k₁, served, rfl⟩ := softirqExecute_cases h
    have ended : Stores (fun _ => True) k₁ ((k₁.setPending false).setThreadState kernTcb .inactive) :=
      Stores.setThreadState (.of_trace rfl) kernTcb .inactive
    have kept : SameContexts k₁ ((k₁.setPending false).setThreadState kernTcb .inactive) :=
      SameContexts.setThreadState (.of_tcbs rfl) kernTcb .inactive
    have handled : (k₁.tcbs t).ctx = (k.tcbs t).ctx ∨ StartedIn k k₁ t := by
      rcases served with ⟨_, served⟩ | ⟨_, rfl⟩
      · cases handled_of_softirqSvc served with
        | answered => exact .inl (SameContexts.unblockCaller (.of_tcbs rfl) t)
        | space number done => exact .inl ((SameContexts.spaceControlled done).unblockCaller t)
        | thread number done => exact .inl (SameContexts.threadControlled done t)
        | ipc number done => exact (called_of_doIpc done).contexts t
        | unmap => exact .inl (SameContexts.unblockCaller (.of_tcbs rfl) t)
        | schedule number done => exact .inl ((SameContexts.scheduled done).unblockCaller t)
        | unknown => exact .inl rfl
      · exact .inl rfl
    rcases handled with same | started
    · exact .inl ((kept t).trans same)
    · exact .inr (.inr (started.later ended))
  | yield => exact .inl (threadSwitch_contexts h t)
  | hardfault lr =>
    obtain ⟨_, k₁, deleted, rfl⟩ := isrHardfault_cases h
    exact .inl (SameContexts.deleteThread deleted t)

/-- In every run in which pagers send nothing but start messages to threads without a stack pointer, messages
are copied to threads alone that were given one since their creation, and that still have it. -/
theorem stores_after_start {info : BootInfo} {b : Kernel} {actions : List Action} (booted : boot info = .ok b)
    (run : Theory.Run (Theory.Guarded Prompt Step) b actions k) :
    (∀ later src dst earlier, k.trace = later ++ .copied src dst :: earlier → given earlier dst = true) ∧
      ∀ a k' t, Step k a k' → (k'.tcbs t).ctx = (k.tcbs t).ctx ∨ GivesStack k a k' t := by
  have inv := run.invariant (I := fun k => Stacked k ∧ Switched k) (fun _ _ _ step s => step_stacked s.1 s.2 step.1 step.2)
    (boot_stacked booted)
  refine ⟨fun later src dst earlier copied => ?_, fun _ _ t step => step_contexts step t⟩
  have stores := inv.1.stores
  rw [copied] at stores
  exact stores.before

/-- The root thread sends to the second thread, which it started and which waits for it. -/
def rootTells : List (Kernel → Action) :=
  SmallSystem.setup ++ [SmallSystem.load 0x6000#32 nilThread rootId 0#32 0#32 0#32 5#32] ++ SmallSystem.serve ++
  [SmallSystem.load 0x4000#32 SmallSystem.secondId nilThread 0#32 0#32 0#32 5#32] ++ SmallSystem.serve.take 3

theorem stores_after_start_rootTells : ∃ b k actions later src earlier, boot SmallSystem.bootInfo = .ok b ∧
    Theory.Run (Theory.Guarded Prompt Step) b actions k ∧ k.trace = later ++ .copied src 3 :: earlier ∧ given earlier 3 = true := by
  have done : ((boot SmallSystem.bootInfo).toOption.any fun b =>
      (Theory.follow (Theory.restrict Prompt next) b rootTells).any fun k => k.trace.any fun e => e.stores = some 3) = true := by
    decide +kernel
  obtain ⟨b, booted, later⟩ := (Option.any_eq_true _ _).mp done
  obtain ⟨k, ran, holds⟩ := (Option.any_eq_true _ _).mp later
  obtain ⟨e, member, stores⟩ := List.any_eq_true.mp holds
  obtain ⟨src, rfl⟩ := Event.of_stores (of_decide_eq_true stores)
  obtain ⟨later, earlier, copied⟩ := List.append_of_mem member
  obtain ⟨actions, run⟩ := Theory.run_of_follow (Theory.guarded_of_restrict step_of_next) ran
  have booted := ok_of_toOption booted
  exact ⟨b, k, actions, later, src, earlier, booted, run, copied, (stores_after_start booted run).1 _ _ _ _ copied⟩

/-- The root thread's message of one word to the second thread, which it did not start. -/
def firstWord : List (Kernel → Action) :=
  SmallSystem.setup.take 13 ++ [SmallSystem.load 0x4000#32 SmallSystem.secondId nilThread 0#32 0#32 0#32 5#32,
    SmallSystem.fill 0x5000#32 1#32 0x1234#32 0#32] ++ SmallSystem.serve.take 3

/-- The root thread's id is stored through the stack pointer of a slot that was never used before. -/
theorem firstWord_ungiven : ∃ b k actions later src dst earlier, boot SmallSystem.bootInfo = .ok b ∧ Theory.Run Step b actions k ∧
    k.trace = later ++ .copied src dst :: earlier ∧ given earlier dst = false := by
  have done : ((SmallSystem.after firstWord).any fun k => storesUngiven k.trace) = true := by decide +kernel
  obtain ⟨b, k, actions, booted, run, _, ungiven⟩ := SmallSystem.reached_after done
  obtain ⟨later, src, dst, earlier, copied, wild⟩ := storesUngiven_split ungiven
  exact ⟨b, k, actions, later, src, dst, earlier, booted, run, copied, wild⟩

end Kernel
end BradypOS
