import BradypOS.Ipc.Stacked
import BradypOS.Theory.Multiplex

/-!
# One processor for every thread

The processor has one set of registers. A context switch stores them in the thread that was running and loads those of
the thread that is chosen, and system calls, alarms and deletions happen in between. A thread finds `sp`, `lr` and `r4` to
`r11` as it left them, unless it was started meanwhile. What the exception pushed lies on the thread's own stack, where
system calls put their results.
-/

namespace BradypOS

open L4

namespace Kernel

variable {k k' k'' : Kernel} {a : Action} {t p : Nat}

def multiplexed (k : Kernel) : Theory.Multiplexed Nat Context := ⟨k.currentThreadIdx, k.cpu, fun t => (k.tcbs t).ctx⟩

/-- The registers of a thread: the processor's while it runs, else those in its TCB. -/
def processor (k : Kernel) (t : Nat) : Context := k.multiplexed.own t

/-! ### The kernel leaves the processor alone -/

def Stays (k k' : Kernel) : Prop := k'.cpu = k.cpu ∧ k'.currentThreadIdx = k.currentThreadIdx

namespace Stays

theorem trans (h : Stays k k') (h' : Stays k' k'') : Stays k k'' := ⟨h'.1.trans h.1, h'.2.trans h.2⟩

theorem aside (h : Stays k k') (cpu : k''.cpu = k'.cpu) (current : k''.currentThreadIdx = k'.currentThreadIdx) : Stays k k'' :=
  h.trans ⟨cpu, current⟩

theorem setThreadState (h : Stays k k') (t : Nat) (st : ThreadState) : Stays k (k'.setThreadState t st) := by
  obtain ⟨schedule, trace, same⟩ := k'.setThreadState_frame t st
  rw [same]
  exact h.aside rfl rfl

theorem unblockCaller (h : Stays k k') : Stays k k'.unblockCaller := h.setThreadState _ _

theorem deleteThread (h : k.deleteThread t = .ok k') : Stays k k' := by
  obtain ⟨list, rfl⟩ := deleteThread_spec h
  obtain ⟨schedule, unscheduled⟩ := k.unschedule_frame t
  obtain ⟨tcbs, unlinked, _⟩ := ((k.unschedule t).setTable (k.threadCount - 1) list).unlinkSiblings_frame t
  rw [unlinked, unscheduled]
  exact ⟨rfl, rfl⟩

theorem settleSpace (h : Stays k k') (sp : Word) (t as : Nat) (kipArea utcbArea : Word) :
    Stays k (k'.settleSpace sp t as kipArea utcbArea) := by
  have area : Stays k ((k'.checkUtcbArea sp as).setAs as fun space => { space with utcbPage := utcbArea }) := by
    refine h.trans ?_
    unfold checkUtcbArea
    split <;> exact ⟨rfl, rfl⟩
  unfold Kernel.settleSpace activateTarget
  refine Stays.aside ?_ rfl rfl
  split
  · apply Stays.setThreadState
    exact area.aside rfl rfl
  · exact area

theorem spaceControlled (h : SpaceControlled k k') : Stays k k' := by
  cases h with
  | refused err => exact ⟨rfl, rfl⟩
  | done found kip space =>
    apply settleSpace
    rcases ensureAs_cases space with ⟨_, rfl⟩ | ⟨_, _, _, rfl⟩
    · exact ⟨rfl, rfl⟩
    · exact ⟨rfl, rfl⟩

theorem placeThread (h : Stays k k') (t : Nat) (space : Option Nat) (dest scheduler pager utcbLocation : Word) :
    Stays k (k'.placeThread t space dest scheduler pager utcbLocation) := by
  unfold Kernel.placeThread
  cases space with
  | none => exact h.aside rfl rfl
  | some space =>
    refine h.aside ?_ ?_
    · rfl
    · rfl

theorem threadControlled (h : ThreadControlled k k') : Stays k k' := by
  cases h with
  | privileged => exact ⟨rfl, rfl⟩
  | refused _ err => exact unblockCaller ⟨rfl, rfl⟩
  | deletedSelf _ _ _ _ gone => exact (deleteThread gone).aside rfl rfl
  | deleted _ _ _ _ _ gone => exact unblockCaller ((deleteThread gone).aside rfl rfl)
  | modified => exact unblockCaller ⟨rfl, rfl⟩
  | @created t k₁ _ _ _ made =>
    rcases createThread_spec made with ⟨none, _⟩ | ⟨t', list, same, _, _, rfl⟩
    · cases none
    · cases same
      have fresh : Stays k ((((k.takeTcb t).setTcb t (freshTcb k.callerFrame.r0)).setTable (k.threadCount + 1) list).log
          (.created t)) := ⟨rfl, rfl⟩
      apply unblockCaller
      have placed := fresh.placeThread t (k.findThreadByGlobalId k.callerFrame.r1) k.callerFrame.r0 k.callerFrame.r2
        k.callerFrame.r3 k.callerR4
      exact placed.aside rfl rfl

theorem scheduled (h : Scheduled k k') : Stays k k' := by
  cases h with
  | refused err => exact ⟨rfl, rfl⟩
  | kept => exact ⟨rfl, rfl⟩
  | @changed dest =>
    obtain ⟨schedule, same, _⟩ := k.setThreadPriority_spec dest k.callerFrame.r3
    rw [same]
    exact ⟨rfl, rfl⟩

theorem called (h : Called k t k') : Stays k k' :=
  h.rule (P := Stays k) (fun _ _ stays light => stays.aside light.cpu light.currentThreadIdx)
    (fun _ t st (_ : True) stays => stays.setThreadState t st) (fun _ _ => trivial) ⟨rfl, rfl⟩

theorem threadSwitch {dest : Word} (h : k.threadSwitch t dest = .ok k') : Stays k k' := by
  obtain ⟨k₁, target, paused, rfl⟩ := threadSwitch_cases h
  rcases paused with rfl | ⟨_, paused⟩
  · exact ⟨rfl, rfl⟩
  · obtain ⟨alarms, queue, rfl⟩ := pauseThread_frame paused
    refine Stays.aside (setThreadState ?_ t .paused) rfl rfl
    exact ⟨rfl, rfl⟩

theorem isrSvcall (h : k.isrSvcall = .ok k') : Stays k k' := by
  unfold Kernel.isrSvcall at h
  split at h
  · cases h
  · rename_i current running
    split at h
    · exact threadSwitch h
    · cases h
      exact ⟨rfl, rfl⟩
    · cases h
      have blocked : Stays k ((k.setCaller current).setThreadState current .svcBlocked) := setThreadState ⟨rfl, rfl⟩ _ _
      have pending : Stays k (((k.setCaller current).setThreadState current .svcBlocked).setPending true) := blocked.aside rfl rfl
      exact (pending.setThreadState kernTcb .runnable).aside rfl rfl

theorem isrSystick (h : k.isrSystick = .ok k') : Stays k k' := by
  refine (isrSystick_rule (P := Stays k) ?_ ⟨rfl, rfl⟩ h).1
  intro k₁ ev k₂ same _ _ _ handled
  have base : Stays k (k₁.popped ev) := same.aside rfl rfl
  rcases kalarmEventFunc_cases handled with ⟨_, rfl⟩ | ⟨t, _, _, rfl⟩ | ⟨_, _, rfl⟩ | ⟨t, _, _, _, rfl⟩
  · exact base.aside rfl rfl
  · have noted : Stays k ((k₁.popped ev).log (.unpaused t ((k₁.popped ev).state t) ((k₁.popped ev).allocated t))) :=
      base.aside rfl rfl
    exact (noted.setThreadState t .runnable).aside rfl rfl
  · exact base
  · have told : Stays k (((k₁.popped ev).setIpcError t).reportError t ((k₁.popped ev).state t = .recvBlocked) .timeout) :=
      base.aside rfl rfl
    exact (told.setThreadState t .runnable).aside rfl rfl

theorem softirqSvc {fuel : Nat} (h : Kernel.softirqSvc fuel k = .ok k') : Stays k k' := by
  cases handled_of_softirqSvc h with
  | answered => exact unblockCaller ⟨rfl, rfl⟩
  | space number done => exact (spaceControlled done).unblockCaller
  | thread number done => exact threadControlled done
  | ipc number done => exact called (called_of_doIpc done)
  | unmap => exact unblockCaller ⟨rfl, rfl⟩
  | schedule number done => exact (scheduled done).unblockCaller
  | unknown => exact ⟨rfl, rfl⟩

end Stays

/-! ### What a step shows of the processors -/

/-- One thread at most is given registers, and it is started. -/
def Gives (k k' : Kernel) : Prop :=
  SameContexts k k' ∨ ∃ p, StartedIn k k' p ∧ ∀ t, t ≠ p → (k'.tcbs t).ctx = (k.tcbs t).ctx

theorem Gives.later (h : Gives k k') (same : SameContexts k' k'') (grown : Stores (fun _ => True) k' k'') : Gives k k'' := by
  rcases h with kept | ⟨p, started, kept⟩
  · exact .inl (kept.trans same)
  · exact .inr ⟨p, started.later grown, fun t other => (same t).trans (kept t other)⟩

theorem Sent.gives {c : Nat} {dest : Word} {timeout : Time} {r : PhaseResult} (h : Sent k c dest timeout r k') : Gives k k' := by
  have noted : SameContexts k (k.log (.sending c dest)) := .of_tcbs rfl
  cases h with
  | skip nil => exact .inl (.of_tcbs rfl)
  | @deliver p k₁ named found copied =>
    have same : SameContexts k k₁ := noted.aside (copyPayload_tcbs copied)
    exact .inl (same.setThreadState p .runnable)
  | @refuse p k₁ err named found failed overflow =>
    have same : SameContexts k k₁ := noted.aside (copyPayload_tcbs failed)
    have told := ((((Parked.refl k₁).reportError c false err).reportError p true err).setIpcError c).setIpcError p
    exact .inl (same.trans (told.setThreadState p .runnable).ctx)
  | @start p named found start =>
    have started : Stores (fun _ => True) k ((k.log (.sending c dest)).startContext c p) := .event rfl rfl nofun
    obtain ⟨es, grown, _⟩ := started.setThreadState p .runnable
    refine .inr ⟨p, ⟨c, .started c p :: es, congrArg (Event.started c p :: ·) grown, List.mem_cons_self⟩, fun t other => ?_⟩
    obtain ⟨ctx, same, kept⟩ := startContext_tcbs (k := k.log (.sending c dest)) c p t
    have woken := ((Parked.refl ((k.log (.sending c dest)).startContext c p)).setThreadState p .runnable).ctx t
    apply woken.trans
    rw [same]
    exact kept other
  | pagerDeliver named found copied other => exact .inl (noted.aside (copyPayload_tcbs copied))
  | @pagerRefuse p k₁ err named found failed overflow =>
    have same : SameContexts k k₁ := noted.aside (copyPayload_tcbs failed)
    exact .inl (same.trans (((Parked.refl k₁).reportError _ _ _).setIpcError _).ctx)
  | missing => exact .inl (noted.aside rfl)
  | @block k₁ named found armed =>
    obtain ⟨⟨st, tcbs⟩, _⟩ := setThreadTimeout_frame armed
    refine .inl (SameContexts.setTcb (noted.trans fun t => ?_) fun _ => rfl)
    rw [tcbs, Function.update_apply]
    split
    · rename_i here
      rw [here]
    · rfl
  | abort => exact .inl (noted.aside rfl)

theorem Called.gives {c : Nat} (h : Called k c k') : Gives k k' := by
  cases h with
  | receives sent received => exact sent.gives.later received.parked.ctx (received.stores.mono fun _ _ => trivial)
  | fails sent => exact sent.gives.later ((Parked.refl _).endError _ _).ctx ((Stores.of_trace rfl).endError _ _)
  | waits sent =>
    exact sent.gives.later (SameContexts.setThreadState (.of_tcbs rfl) _ _) ((Stores.of_trace rfl).setThreadState _ _)

theorem softirqExecute_gives {fuel : Nat} (h : softirqExecute fuel k = .ok k') : Gives k k' := by
  obtain ⟨k₁, served, rfl⟩ := softirqExecute_cases h
  have handled : Gives k k₁ := by
    rcases served with ⟨_, served⟩ | ⟨_, rfl⟩
    · cases handled_of_softirqSvc served with
      | answered => exact .inl (SameContexts.unblockCaller (.of_tcbs rfl))
      | space number done => exact .inl (SameContexts.spaceControlled done).unblockCaller
      | thread number done => exact .inl (SameContexts.threadControlled done)
      | ipc number done => exact (called_of_doIpc done).gives
      | unmap => exact .inl (SameContexts.unblockCaller (.of_tcbs rfl))
      | schedule number done => exact .inl (SameContexts.scheduled done).unblockCaller
      | unknown => exact .inl (.of_tcbs rfl)
    · exact .inl (.of_tcbs rfl)
  apply handled.later
  · exact SameContexts.setThreadState (.of_tcbs rfl) _ _
  · exact Stores.setThreadState (.of_trace rfl) _ _

theorem softirqExecute_stays {fuel : Nat} (h : softirqExecute fuel k = .ok k') : Stays k k' := by
  obtain ⟨k₁, served, rfl⟩ := softirqExecute_cases h
  have handled : Stays k k₁ := by
    rcases served with ⟨_, served⟩ | ⟨_, rfl⟩
    · exact Stays.softirqSvc served
    · exact ⟨rfl, rfl⟩
  apply Stays.setThreadState
  exact handled.aside rfl rfl

/-- What a step does, seen by the machine that has a processor for every thread. -/
inductive Shows (k : Kernel) (a : Action) (k' : Kernel) : Theory.Private Nat Context → Prop where
  | silent : Shows k a k' .silent
  | runs {cpu : Context} {mem : Memory} (user : a = .user cpu mem) : Shows k a k' (.runs k.currentThreadIdx cpu)
  | given {p : Nat} (started : StartedIn k k' p) (waiting : p ≠ k.currentThreadIdx) : Shows k a k' (.given p (k'.tcbs p).ctx)

theorem processor_current (here : k.currentThreadIdx = t) : k.processor t = k.cpu := by
  subst here
  exact Theory.Multiplexed.own_current _

theorem processor_other (other : t ≠ k.currentThreadIdx) : k.processor t = (k.tcbs t).ctx := Theory.Multiplexed.own_other other

/-- Where the processor stays, and one thread at most is given registers. -/
theorem Stays.shows (stays : Stays k k') (gives : Gives k k') :
    ∃ label, Shows k a k' label ∧ k'.processor = label.effect k.processor := by
  have waiting : ∀ {t}, t ≠ k.currentThreadIdx → (k'.tcbs t).ctx = (k.tcbs t).ctx → k'.processor t = k.processor t := by
    intro t other same
    rw [processor_other other, processor_other (stays.2 ▸ other), same]
  have running : k'.processor k.currentThreadIdx = k.processor k.currentThreadIdx := by
    rw [processor_current stays.2, processor_current rfl, stays.1]
  have silent : (∀ t, t ≠ k.currentThreadIdx → (k'.tcbs t).ctx = (k.tcbs t).ctx) →
      ∃ label, Shows k a k' label ∧ k'.processor = label.effect k.processor := by
    intro same
    refine ⟨.silent, .silent, funext fun t => ?_⟩
    by_cases here : t = k.currentThreadIdx
    · rw [here]
      exact running
    · exact waiting here (same t here)
  rcases gives with same | ⟨p, started, same⟩
  · exact silent fun t _ => same t
  · by_cases here : p = k.currentThreadIdx
    · exact silent fun t other => same t (here ▸ other)
    · refine ⟨_, .given started here, funext fun t => ?_⟩
      by_cases chosen : t = p
      · subst chosen
        rw [processor_other (stays.2 ▸ here)]
        exact (Theory.Private.effect_given _ _ _).symm
      · have spared : (Theory.Private.given p (k'.tcbs p).ctx).Spares t := Ne.symm chosen
        rw [Theory.Private.effect_spared spared]
        by_cases current : t = k.currentThreadIdx
        · rw [current]
          exact running
        · exact waiting current (same t chosen)

theorem user_shows (cpu : Context) (mem : Memory) : ((k.setCpu cpu).setMem mem).processor =
    (Theory.Private.runs k.currentThreadIdx cpu).effect k.processor := by
  funext t
  by_cases here : t = k.currentThreadIdx
  · subst here
    rw [Theory.Private.effect_runs]
    exact processor_current rfl
  · have spared : (Theory.Private.runs k.currentThreadIdx cpu).Spares t := Ne.symm here
    rw [Theory.Private.effect_spared spared]
    exact (processor_other (k := (k.setCpu cpu).setMem mem) here).trans (processor_other here).symm

/-- A context switch moves registers, and changes those of no thread. -/
theorem switchContext_shows (h : k.switchContext = .ok k') (thread : t ≠ invalidIdx) : k'.processor t = k.processor t := by
  obtain ⟨k₁, switched, rfl⟩ := switchContext_spec h
  obtain ⟨idx, k₂, alarms, selected, _, rfl⟩ := scheduleNextThread_spec switched
  obtain ⟨_, schedule, rfl⟩ := selectThread_spec selected
  obtain ⟨_, tcbs, _⟩ := (k.setPendsv false).saveContext.requeueCurrent_stores
  -- The registers of the running thread are in its TCB once they are saved.
  have saved : ((k.setPendsv false).saveContext.tcbs t).ctx = k.processor t := by
    unfold saveContext
    split
    · rename_i nobody
      have idle : k.currentThreadIdx = invalidIdx := by
        unfold getCurrentThread at nobody
        split at nobody
        · assumption
        · cases nobody
      exact (processor_other (idle ▸ thread)).symm
    · rename_i u running
      have current : k.currentThreadIdx = u := by
        unfold getCurrentThread at running
        split at running
        · cases running
        · exact Option.some.inj running
      by_cases here : t = u
      · subst here
        rw [setTcb_same, processor_current current]
        rfl
      · rw [setTcb_other _ _ _ _ here, processor_other (current ▸ here)]
        rfl
  have stored : ((k.setPendsv false).saveContext.requeueCurrent.tcbs t).ctx = k.processor t := by
    rw [tcbs]
    exact saved
  rw [← stored]
  exact Theory.Multiplexed.own_loaded rfl t

theorem step_shows (step : Step k a k') :
    ∃ label, Shows k a k' label ∧ ∀ t, t ≠ invalidIdx → k'.processor t = label.effect k.processor t := by
  obtain ⟨_, h⟩ := step
  have stays : Stays k k' → Gives k k' →
      ∃ label, Shows k a k' label ∧ ∀ t, t ≠ invalidIdx → k'.processor t = label.effect k.processor t := by
    intro stays gives
    obtain ⟨label, shown, same⟩ := stays.shows (a := a) gives
    exact ⟨label, shown, fun t _ => congrFun same t⟩
  cases a with
  | user cpu mem =>
    cases h
    exact ⟨_, .runs rfl, fun t _ => congrFun (user_shows cpu mem) t⟩
  | svc => exact stays (.isrSvcall h) (.inl (isrSvcall_contexts h))
  | systick => exact stays (.isrSystick h) (.inl (isrSystick_contexts h))
  | pendsv => exact ⟨.silent, .silent, fun t thread => switchContext_shows h thread⟩
  | softirq fuel => exact stays (softirqExecute_stays h) (softirqExecute_gives h)
  | yield => exact stays (.threadSwitch h) (.inl (threadSwitch_contexts h))
  | hardfault lr =>
    obtain ⟨_, k₁, deleted, rfl⟩ := isrHardfault_cases h
    exact stays ((Stays.deleteThread deleted).aside rfl rfl) (.inl ((SameContexts.deleteThread deleted).aside rfl))

/-- Every run of the machine with one processor is one of a machine that has a processor for each thread, in which threads
compute on their own processors and are started on them, and nothing else happens to them. A thread that neither computed
nor was started in a stretch of the run finds the registers it had, however often it was switched out. -/
theorem run_processors {actions : List Action} (run : Theory.Run Step k actions k') :
    ∃ als : List (Action × Theory.Private Nat Context), als.map Prod.fst = actions ∧
      Theory.Run (fun k al k' => Step k al.1 k' ∧ Shows k al.1 k' al.2) k als k' ∧
      (∀ t, t ≠ invalidIdx → k'.processor t = (als.map Prod.snd).foldl Theory.Private.effect k.processor t) ∧
      ((∀ label ∈ als.map Prod.snd, label.Spares k'.currentThreadIdx) → k'.currentThreadIdx ≠ invalidIdx →
        k'.cpu = k.processor k'.currentThreadIdx) := by
  have each : ∀ (k : Kernel) (a : Action) (k' : Kernel), Step k a k' →
      ∃ label, Shows k a k' label ∧ ∀ t, t ≠ invalidIdx → k'.processor t = label.effect k.processor t :=
    fun _ _ _ step => step_shows step
  obtain ⟨als, same, labelled, agree⟩ := Theory.run_private each run
  refine ⟨als, same, labelled, agree, fun spared thread => ?_⟩
  calc k'.cpu = k'.processor k'.currentThreadIdx := (processor_current rfl).symm
    _ = _ := agree _ thread
    _ = k.processor k'.currentThreadIdx := Theory.Private.effects_spared spared _

/-- The second thread of the small system runs on registers that it was given. -/
theorem run_processors_second : ∃ b k actions, boot SmallSystem.bootInfo = .ok b ∧ Theory.Run Step b actions k ∧ k.cpu.sp = 0x6000#32 ∧
    ∃ als : List (Action × Theory.Private Nat Context), als.map Prod.fst = actions ∧
      k.cpu = (als.map Prod.snd).foldl Theory.Private.effect b.processor 3 := by
  obtain ⟨b, k, actions, booted, run, _, holds⟩ := SmallSystem.reached
    (p := fun k => decide (k.currentThreadIdx = 3 ∧ k.cpu.sp = 0x6000#32)) (by decide +kernel)
  obtain ⟨current, sp⟩ := of_decide_eq_true holds
  obtain ⟨als, same, _, agree, _⟩ := run_processors run
  refine ⟨b, k, actions, booted, run, sp, als, same, ?_⟩
  exact (processor_current current).symm.trans (agree 3 (by decide))

end Kernel
end BradypOS
