import BradypOS.Ipc.Runs

/-!
# Who waits

A phase that does not block takes threads out of their waits and leaves everything else about the
waiting threads as it was. A thread that blocks is the only one that starts to wait.
-/

namespace BradypOS

open L4

namespace Kernel

/-- Whoever waits afterwards waited before, in the same phase and for the same partner. -/
structure Fewer (k k' : Kernel) : Prop extends SameTable k k' where
  state : ∀ t, k'.Waits t → k'.state t = k.state t
  ipcFrom : ∀ t, k'.Waits t → (k'.tcbs t).ipcFrom = (k.tcbs t).ipcFrom

/-- `Fewer`, and nobody's ids and no waiting thread's wishes changed. -/
structure Released (k k' : Kernel) : Prop extends SameIds k k' where
  state : ∀ t, k'.Waits t → k'.state t = k.state t
  ipcFrom : ∀ t, k'.Waits t → (k'.tcbs t).ipcFrom = (k.tcbs t).ipcFrom
  ctx : ∀ t, k'.Waits t → (k'.tcbs t).ctx = (k.tcbs t).ctx
  frame : ∀ sp, (k'.mem.frame sp).r1 = (k.mem.frame sp).r1

variable {k k' k'' : Kernel}

theorem Fewer.waits (h : Fewer k k') {t : Nat} (waits : k'.Waits t) : k.Waits t := by
  unfold Waits at waits ⊢
  rwa [← h.state t waits]

namespace Released

theorem fewer (h : Released k k') : Fewer k k' := ⟨h.toSameTable, h.state, h.ipcFrom⟩

theorem recvFrom (h : Released k k') {t : Nat} (waits : k'.Waits t) : k'.recvFrom t = k.recvFrom t := by
  unfold Kernel.recvFrom
  rw [h.ctx t waits, h.frame]

theorem of_tcbs (tcbs : k'.tcbs = k.tcbs) (threadCount : k'.threadCount = k.threadCount)
    (threadList : k'.threadList = k.threadList) (asPool : k'.asPool = k.asPool)
    (frame : ∀ sp, (k'.mem.frame sp).r1 = (k.mem.frame sp).r1) : Released k k' := by
  have ids : SameIds k k' := (SameSearch.of_tcbs true tcbs threadCount threadList asPool).toSameIds
  refine ⟨ids, fun t _ => ?_, fun t _ => ?_, fun t _ => ?_, frame⟩
  · unfold Kernel.state; rw [tcbs]
  · rw [tcbs]
  · rw [tcbs]

theorem refl (k : Kernel) : Released k k := of_tcbs rfl rfl rfl rfl fun _ => rfl

theorem trans (h : Released k k') (h' : Released k' k'') : Released k k'' := by
  have still : ∀ t, k''.Waits t → k'.Waits t := fun t => h'.fewer.waits
  exact ⟨h.toSameIds.trans h'.toSameIds, fun t waits => (h'.state t waits).trans (h.state t (still t waits)),
    fun t waits => (h'.ipcFrom t waits).trans (h.ipcFrom t (still t waits)),
    fun t waits => (h'.ctx t waits).trans (h.ctx t (still t waits)), fun sp => (h'.frame sp).trans (h.frame sp)⟩

theorem setThreadState (k : Kernel) (t : Nat) {st : ThreadState} (sends : st ≠ .sendBlocked) (receives : st ≠ .recvBlocked) :
    Released k (k.setThreadState t st) := by
  have other : ∀ u, (k.setThreadState t st).Waits u → u ≠ t := by
    intro u waits same
    unfold Waits at waits
    simp only [state_setThreadState, same, if_true] at waits
    exact waits.elim sends receives
  refine ⟨.setThreadState k t st, fun u waits => ?_, fun u waits => ?_, fun u waits => ?_, fun sp => ?_⟩
  · rw [state_setThreadState, if_neg (other u waits)]
  · rw [setThreadState_tcbs, Function.update_of_ne (other u waits)]
  · rw [setThreadState_tcbs, Function.update_of_ne (other u waits)]
  · rw [setThreadState_mem]

theorem wake (h : Released k k') (t : Nat) : Released k (k'.setThreadState t .runnable) :=
  h.trans (.setThreadState k' t (by decide) (by decide))

theorem setUtcb (h : Released k k') (p : Word) (f : Utcb → Utcb) : Released k (k'.setMem (k'.mem.setUtcb p f)) :=
  h.trans (.of_tcbs rfl rfl rfl rfl fun _ => rfl)

theorem log (h : Released k k') (e : Event) : Released k (k'.log e) :=
  h.trans (.of_tcbs rfl rfl rfl rfl fun _ => rfl)

theorem copyPayload {src dst : Nat} {err : IpcErrorCode} (h : Released k k')
    (copied : k'.copyPayload src dst = .ok (err, k'')) : Released k k'' := by
  obtain ⟨mem, stored, rfl⟩ := copyPayload_spec copied
  have frame : ∀ sp, (mem.frame sp).r1 = (k'.mem.frame sp).r1 := by
    intro sp
    obtain ⟨r0, same⟩ := Memory.copyPayload_frame stored sp
    rw [same]
  have written : Released k' (k'.setMem mem) := .of_tcbs rfl rfl rfl rfl frame
  split
  · exact (h.trans written).log _
  · exact h.trans written

theorem reportError (h : Released k k') (t : Nat) (p : Bool) (err : IpcErrorCode) : Released k (k'.reportError t p err) :=
  (h.setUtcb _ _).log _

theorem setIpcError (h : Released k k') (t : Nat) : Released k (k'.setIpcError t) := h.setUtcb _ _

theorem endError (h : Released k k') (t : Nat) (waits : ThreadState) : Released k (k'.endIpc t waits .error) :=
  (h.setIpcError t).wake t

theorem timedOut (k : Kernel) (t : Nat) : Released k (k.timedOut t) :=
  ((((refl k).setIpcError t).reportError t _ _).wake t).log _

theorem start (h : Released k k') (pager : Nat) {p : Nat} (fresh : ¬ k'.Waits p) :
    Released k (k'.pagerStartThread pager p) := by
  have moved : Released k' (k'.startContext pager p) := by
    have state : ∀ u, (k'.startContext pager p).state u = k'.state u := by
      intro u
      obtain ⟨ctx, same, _⟩ := startContext_tcbs (k := k') pager p u
      unfold Kernel.state
      rw [same]
    refine ⟨⟨⟨rfl, rfl, fun u => ?_⟩, fun u => ?_, fun u => ?_, fun u => ?_, fun u => ?_, rfl⟩, fun u _ => state u,
      fun u _ => ?_, fun u waits => ?_, fun sp => ?_⟩
    all_goals first
      | obtain ⟨pc, psr, same⟩ := startContext_frame (k := k') pager p sp
        rw [same]
      | obtain ⟨ctx, same, kept⟩ := startContext_tcbs (k := k') pager p u
        rw [same]
    have other : u ≠ p := by
      intro here
      unfold Waits at waits
      rw [state, here] at waits
      exact fresh waits
    exact kept other
  exact ((h.trans moved).wake p).log _

end Released

/-! ### A thread that blocks -/

/-- How a thread looks once it waits. -/
structure Blocked (k : Kernel) (t : Nat) (w : Word) (st : ThreadState) (k' : Kernel) : Prop where
  tcbs : k'.tcbs = Function.update k.tcbs t { k.tcbs t with ipcFrom := w, state := st }
  threadCount : k'.threadCount = k.threadCount
  threadList : k'.threadList = k.threadList
  mem : k'.mem = k.mem

/-- Arming a timeout only sets the state that follows anyway. -/
theorem setThreadTimeout_frame {t : Nat} {timeout : Time} {st : ThreadState}
    (h : k.setThreadTimeout t timeout st = .ok (true, k')) :
    (∃ st', k'.tcbs = Function.update k.tcbs t { k.tcbs t with state := st' }) ∧
      k'.threadCount = k.threadCount ∧ k'.threadList = k.threadList ∧ k'.mem = k.mem := by
  rcases setThreadTimeout_cases h with ⟨_, _, rfl⟩ | ⟨_, _, other, _⟩ | ⟨_, _, _, _, k₁, registered, rfl⟩
  · exact ⟨⟨(k.tcbs t).state, (Function.update_eq_self t k.tcbs).symm⟩, rfl, rfl, rfl⟩
  · cases other
  · obtain ⟨alarms, rfl⟩ := registerKevent_frame registered
    refine ⟨⟨st, ?_⟩, ?_, ?_, ?_⟩
    · rw [setThreadState_tcbs]; rfl
    · rw [setThreadState_threadCount]; rfl
    · rw [setThreadState_threadList]; rfl
    · rw [setThreadState_mem]; rfl

theorem blocked_spec {t : Nat} {timeout : Time} {st : ThreadState} (w : Word)
    (h : k.setThreadTimeout t timeout st = .ok (true, k')) : Blocked k t w st (k'.blocked t w st) := by
  obtain ⟨⟨st', tcbs⟩, threadCount, threadList, mem⟩ := setThreadTimeout_frame h
  refine ⟨?_, ?_, ?_, ?_⟩
  · simp only [blocked, setThreadState_tcbs, setTcb, setTcbs, tcbs, Function.update_self, Function.update_idem]
  · exact (setThreadState_threadCount ..).trans threadCount
  · exact (setThreadState_threadList ..).trans threadList
  · exact (setThreadState_mem ..).trans mem

namespace Blocked

variable {t : Nat} {w : Word} {st : ThreadState}

theorem here (b : Blocked k t w st k') : k'.state t = st ∧ (k'.tcbs t).ipcFrom = w := by
  unfold Kernel.state
  rw [b.tcbs, Function.update_self]
  exact ⟨rfl, rfl⟩

theorem others (b : Blocked k t w st k') {u : Nat} (other : u ≠ t) : k'.tcbs u = k.tcbs u := by
  rw [b.tcbs, Function.update_of_ne other]

theorem state_others (b : Blocked k t w st k') {u : Nat} (other : u ≠ t) : k'.state u = k.state u := by
  unfold Kernel.state
  rw [b.others other]

theorem table (b : Blocked k t w st k') : SameTable k k' := by
  refine ⟨b.threadCount, b.threadList, fun u => ?_⟩
  by_cases same : u = t
  · subst same; rw [b.tcbs, Function.update_self]
  · rw [b.others same]

end Blocked

/-- A send phase that does not wait takes threads out of their waits at most. -/
theorem Sent.released {t : Nat} {dest : Word} {timeout : Time} {r : PhaseResult} (h : Sent k t dest timeout r k')
    (ends : r ≠ .wait) : Released k k' := by
  have noted : Released k (k.log (.sending t dest)) := (Released.refl k).log _
  cases h with
  | skip nil => exact .refl k
  | deliver named found copied => exact (noted.copyPayload copied).wake _
  | refuse named found failed overflow =>
    exact (((((noted.copyPayload failed).reportError _ _ _).reportError _ _ _).setIpcError _).setIpcError _).wake _
  | @start p named found message =>
    have fresh : ¬ (k.log (.sending t dest)).Waits p := by
      have active : (k.log (.sending t dest)).state p = .active := (findIpcPartner_pagerMsg found).2.1
      unfold Waits
      rw [active]
      exact nofun
    exact noted.start t fresh
  | pagerDeliver named found copied => exact noted.copyPayload copied
  | pagerRefuse named found failed overflow => exact ((noted.copyPayload failed).reportError _ _ _).setIpcError _
  | missing named found => exact noted.reportError _ _ _
  | block named found armed => exact absurd rfl ends
  | abort named found zero => exact noted.reportError _ _ _

/-- A send phase that waits has found nobody, and armed the timeout of its thread. -/
theorem Sent.blocks {t : Nat} {dest : Word} {timeout : Time} (h : Sent k t dest timeout .wait k') :
    isNilThread dest = false ∧ k.findIpcPartner t dest true = .ok .notready ∧
      ∃ k₁, (k.log (.sending t dest)).setThreadTimeout t timeout .sendBlocked = .ok (true, k₁) ∧
        k'.setThreadState t .sendBlocked = k₁.blocked t dest .sendBlocked := by
  generalize hr : PhaseResult.wait = r at h
  cases h with
  | block named found armed => exact ⟨named, found, _, armed, rfl⟩
  | skip => cases hr
  | deliver => cases hr
  | refuse => cases hr
  | start => cases hr
  | pagerDeliver => cases hr
  | pagerRefuse => cases hr
  | missing => cases hr
  | abort => cases hr

theorem Released.rejected {t s : Nat} (h : Released k k') : Released k (k'.rejected t s) :=
  ((((h.reportError t true _).reportError s false _).setIpcError t).setIpcError s).wake s

@[simp] theorem reportError_state (k : Kernel) (t u : Nat) (p : Bool) (err : IpcErrorCode) :
    (k.reportError t p err).state u = k.state u := rfl

@[simp] theorem setIpcError_state (k : Kernel) (t u : Nat) : (k.setIpcError t).state u = k.state u := rfl

theorem unsent_state (k : Kernel) (t p u : Nat) (err : IpcErrorCode) :
    (k.unsent t p err).state u = if u = p then .runnable else k.state u := by
  simp only [unsent, state_setThreadState, setIpcError_state, reportError_state]

theorem endIpc_state (k : Kernel) (t u : Nat) (waits : ThreadState) :
    (k.endIpc t waits .error).state u = if u = t then .runnable else k.state u := by
  simp only [endIpc, state_setThreadState, setIpcError_state]

end Kernel
end BradypOS
