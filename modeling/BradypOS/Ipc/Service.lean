import BradypOS.Ipc.Deadlock
import BradypOS.Ipc.Stacks
import BradypOS.Theory.Exchange

/-!
# A server and its clients

The exchanges between them, as the record shows them, and how they wait for each other. A thread that comes to wait keeps the
order if clients wait for the server alone and nobody else sends to it.
-/

namespace BradypOS

open L4

/-- A thread that answers the requests of others. -/
structure Service where
  server : Nat
  clients : Finset Nat
  apart : server ∉ clients

variable {s : Service}

def Service.exchange (s : Service) : Event → Option (Theory.Exchange Nat)
  | .copied src dst =>
    if dst = s.server ∧ src ∈ s.clients then some (.request src)
    else if src = s.server ∧ dst ∈ s.clients then some (.reply dst) else none
  | .failed c true _ => if c ∈ s.clients then some (.refused c) else none
  | _ => none

theorem Service.exchange_party {e : Event} {x : Theory.Exchange Nat} (h : s.exchange e = some x) : ∃ c ∈ s.clients, e.party c := by
  unfold exchange at h
  split at h
  · split at h
    · rename_i request
      exact ⟨_, request.2, .inl rfl⟩
    · split at h
      · rename_i reply
        exact ⟨_, reply.2, .inr rfl⟩
      · cases h
  · split at h
    · rename_i member
      exact ⟨_, member, rfl⟩
    · cases h
  · cases h

theorem Service.exchange_request {c : Nat} (client : c ∈ s.clients) : s.exchange (.copied c s.server) = some (.request c) :=
  if_pos ⟨rfl, client⟩

theorem Service.exchange_reply {c : Nat} (client : c ∈ s.clients) : s.exchange (.copied s.server c) = some (.reply c) := by
  have other : ¬ (c = s.server ∧ s.server ∈ s.clients) := fun h => s.apart h.2
  exact (if_neg other).trans (if_pos ⟨rfl, client⟩)

namespace Kernel

variable {k k' k'' : Kernel} {t u : Nat} {w : Word} {timeout : Time}

/-- The exchanges of a service, the last one first. -/
def exchanges (k : Kernel) (s : Service) : List (Theory.Exchange Nat) := k.trace.filterMap s.exchange

/-- The client that the server has received from and not answered. -/
def serving (k : Kernel) (s : Service) : Option Nat := Theory.Exchange.serving (k.exchanges s)

theorem Records.exchanges {area : Area} (h : Records area k k') (apart : ∀ c ∈ s.clients, ¬ area.thread c) :
    k'.exchanges s = k.exchanges s := by
  obtain ⟨es, grown, inside⟩ := h
  have none : es.filterMap s.exchange = [] := by
    rw [List.filterMap_eq_nil_iff]
    intro e member
    cases found : s.exchange e with
    | none => rfl
    | some x =>
      obtain ⟨c, client, party⟩ := Service.exchange_party found
      exact absurd (inside e member c party) (apart c client)
  unfold Kernel.exchanges
  rw [grown, List.filterMap_append, none, List.nil_append]

@[simp] theorem exchanges_setThreadState (k : Kernel) (t : Nat) (st : ThreadState) :
    (k.setThreadState t st).exchanges s = k.exchanges s :=
  (Records.setThreadState ⟨fun _ => False, fun _ => False, fun _ => False⟩ k t st).exchanges fun _ _ => id

@[simp] theorem exchanges_sending (k : Kernel) (t : Nat) (dest : Word) : (k.log (.sending t dest)).exchanges s = k.exchanges s := rfl

@[simp] theorem exchanges_setIpcError (k : Kernel) (t : Nat) : (k.setIpcError t).exchanges s = k.exchanges s := rfl

@[simp] theorem exchanges_sendError (k : Kernel) (t : Nat) (err : IpcErrorCode) :
    (k.reportError t false err).exchanges s = k.exchanges s := rfl

theorem exchanges_recvError (k : Kernel) (t : Nat) (err : IpcErrorCode) :
    (k.reportError t true err).exchanges s = if t ∈ s.clients then .refused t :: k.exchanges s else k.exchanges s := by
  show List.filterMap s.exchange (.failed t true err :: k.trace) = _
  rw [List.filterMap_cons]
  simp only [Service.exchange]
  split
  · rename_i none
    split at none
    · cases none
    · rename_i outside
      rw [if_neg outside]
      rfl
  · rename_i x found
    split at found
    · rename_i member
      cases found
      rw [if_pos member]
      rfl
    · cases found

@[simp] theorem exchanges_endError (k : Kernel) (t : Nat) (waits : ThreadState) :
    (k.endIpc t waits .error).exchanges s = k.exchanges s := exchanges_setThreadState _ _ _

theorem exchanges_blocked {st : ThreadState} (armed : k.setThreadTimeout t timeout st = .ok (true, k')) (w : Word) :
    (k'.blocked t w st).exchanges s = k.exchanges s := by
  have timed : k'.exchanges s = k.exchanges s := by
    rcases setThreadTimeout_cases armed with ⟨_, _, rfl⟩ | ⟨_, _, other, _⟩ | ⟨_, _, _, _, k₁, registered, rfl⟩
    · rfl
    · cases other
    · rw [exchanges_setThreadState]
      obtain ⟨alarms, rfl⟩ := registerKevent_frame registered
      rfl
  exact (exchanges_setThreadState _ _ _).trans timed

theorem exchanges_request {c : Nat} (client : c ∈ s.clients) (copied : k.copyPayload c s.server = .ok (.none, k')) :
    k'.exchanges s = .request c :: k.exchanges s := by
  obtain ⟨mem, _, rfl⟩ := copyPayload_spec copied
  exact List.filterMap_cons_some (s.exchange_request client)

theorem exchanges_reply {c : Nat} (client : c ∈ s.clients) (copied : k.copyPayload s.server c = .ok (.none, k')) :
    k'.exchanges s = .reply c :: k.exchanges s := by
  obtain ⟨mem, _, rfl⟩ := copyPayload_spec copied
  exact List.filterMap_cons_some (s.exchange_reply client)

theorem exchanges_uncopied {src dst : Nat} {err : IpcErrorCode} (failed : k.copyPayload src dst = .ok (err, k')) (overflow : err ≠ .none) :
    k'.exchanges s = k.exchanges s := by
  obtain ⟨mem, _, rfl⟩ := copyPayload_spec failed
  rw [if_neg overflow]
  rfl

/-! ### What waiting threads asked for -/

/-- The receive timeouts that let a thread wait. -/
def Patient (timeout : Time) : Prop := timeout.isEqual Time.never = true ∨ timeout.isEqual Time.zero = false

instance (timeout : Time) : Decidable (Patient timeout) := inferInstanceAs (Decidable (_ ∨ _))

theorem Patient.blocks (patient : Patient timeout) {st : ThreadState} {blocks : Bool}
    (h : k.setThreadTimeout t timeout st = .ok (blocks, k')) : blocks = true := by
  rcases setThreadTimeout_cases h with ⟨_, blocks, _⟩ | ⟨never, zero, _⟩ | ⟨_, _, _, blocks, _⟩
  · exact blocks
  · rcases patient with forever | later
    · rw [never] at forever
      cases forever
    · rw [zero] at later
      cases later
  · exact blocks

/-- The words of a frame that say whom a thread receives from, and until when. -/
def SameWishes (k k' : Kernel) : Prop :=
  ∀ sp, (k'.mem.frame sp).r1 = (k.mem.frame sp).r1 ∧ (k'.mem.frame sp).r2 = (k.mem.frame sp).r2

namespace SameWishes

theorem of_frame (same : k'.mem.frame = k.mem.frame) : SameWishes k k' := fun sp => by rw [same]; exact ⟨rfl, rfl⟩

theorem trans (h : SameWishes k k') (h' : SameWishes k' k'') : SameWishes k k'' :=
  fun sp => ⟨(h' sp).1.trans (h sp).1, (h' sp).2.trans (h sp).2⟩

theorem setThreadState (h : SameWishes k k') (t : Nat) (st : ThreadState) : SameWishes k (k'.setThreadState t st) :=
  h.trans (of_frame (congrArg Memory.frame (setThreadState_mem ..)))

theorem copyPayload {src dst : Nat} {err : IpcErrorCode} (h : SameWishes k k') (copied : k'.copyPayload src dst = .ok (err, k'')) :
    SameWishes k k'' := by
  obtain ⟨mem, stored, rfl⟩ := copyPayload_spec copied
  have kept : SameWishes k' (k'.setMem mem) := fun sp => by
    obtain ⟨r0, same⟩ := Memory.copyPayload_frame stored sp
    show (mem.frame sp).r1 = _ ∧ (mem.frame sp).r2 = _
    rw [same]
    exact ⟨rfl, rfl⟩
  split
  · exact (h.trans kept).trans (of_frame rfl)
  · exact h.trans kept

theorem reportError (h : SameWishes k k') (t : Nat) (p : Bool) (err : IpcErrorCode) : SameWishes k (k'.reportError t p err) :=
  h.trans (of_frame rfl)

theorem setIpcError (h : SameWishes k k') (t : Nat) : SameWishes k (k'.setIpcError t) := h.trans (of_frame rfl)

theorem endError (h : SameWishes k k') (t : Nat) (waits : ThreadState) : SameWishes k (k'.endIpc t waits .error) :=
  (h.setIpcError t).setThreadState t .runnable

theorem setThreadTimeout {st : ThreadState} {blocks : Bool} (h : SameWishes k k')
    (armed : k'.setThreadTimeout t timeout st = .ok (blocks, k'')) : SameWishes k k'' := by
  rcases setThreadTimeout_cases armed with ⟨_, _, rfl⟩ | ⟨_, _, _, rfl⟩ | ⟨_, _, _, _, k₁, registered, rfl⟩
  · exact h.trans (of_frame rfl)
  · exact h
  · obtain ⟨alarms, rfl⟩ := registerKevent_frame registered
    apply SameWishes.setThreadState
    exact h.trans (of_frame rfl)

theorem start (h : SameWishes k k') (pager p : Nat) : SameWishes k (k'.pagerStartThread pager p) := by
  have context : SameWishes k' (k'.startContext pager p) := fun sp => by
    obtain ⟨pc, psr, same⟩ := startContext_frame (k := k') pager p sp
    rw [same]
    exact ⟨rfl, rfl⟩
  exact ((h.trans context).setThreadState p .runnable).trans (of_frame rfl)

theorem rejected (h : SameWishes k k') (t u : Nat) : SameWishes k (k'.rejected t u) :=
  ((((h.reportError t true _).reportError u false _).setIpcError t).setIpcError u).setThreadState u .runnable

theorem unsent (h : SameWishes k k') (t p : Nat) (err : IpcErrorCode) : SameWishes k (k'.unsent t p err) :=
  ((((h.reportError t false err).reportError p true err).setIpcError t).setIpcError p).setThreadState p .runnable

theorem received {src : Word} (h : Received k t src timeout k') : SameWishes k k' := by
  induction h with
  | skip nil => exact setThreadState (of_frame rfl) _ _
  | serve named found copied rest ih => exact ((copyPayload (of_frame rfl) copied).trans ih).setThreadState _ _
  | refuse named found failed overflow => exact ((copyPayload (of_frame rfl) failed).rejected _ _).endError _ .recvBlocked
  | missing named found => exact (reportError (of_frame rfl) _ _ _).endError _ _
  | block named found armed =>
    apply SameWishes.setThreadState
    exact (setThreadTimeout (of_frame rfl) armed).trans (of_frame rfl)
  | abort named found zero => exact (reportError (of_frame rfl) _ _ _).endError _ _

theorem sent {dest : Word} {r : PhaseResult} (h : Sent k t dest timeout r k') : SameWishes k k' := by
  have noted : SameWishes k (k.log (.sending t dest)) := of_frame rfl
  cases h with
  | skip nil => exact of_frame rfl
  | deliver named found copied => exact (noted.copyPayload copied).setThreadState _ _
  | refuse named found failed overflow => exact (noted.copyPayload failed).unsent _ _ _
  | start named found message => exact noted.start _ _
  | pagerDeliver named found copied other => exact noted.copyPayload copied
  | pagerRefuse named found failed overflow => exact ((noted.copyPayload failed).reportError _ _ _).setIpcError _
  | missing named found => exact noted.reportError _ _ _
  | block named found armed => exact (noted.setThreadTimeout armed).trans (of_frame rfl)
  | abort named found zero => exact noted.reportError _ _ _

theorem called (h : Called k t k') : SameWishes k k' := by
  cases h with
  | receives fst snd => exact (sent fst).trans (received snd)
  | fails fst => exact (sent fst).endError _ _
  | waits fst => exact (sent fst).setThreadState _ _

end SameWishes

/-! ### How the phases of a call end, by what the search finds -/

theorem Sent.of_found {dest : Word} {r : PhaseResult} {p : Nat} (h : Sent k t dest timeout r k') (named : isNilThread dest = false)
    (found : k.findIpcPartner t dest true = .ok (.found p)) :
    ∃ k₁ err, (k.log (.sending t dest)).copyPayload t p = .ok (err, k₁) ∧
      (err = .none ∧ r = .done ∧ k' = k₁.setThreadState p .runnable ∨ err ≠ .none ∧ r = .error ∧ k' = k₁.unsent t p err) := by
  cases h with
  | skip nil =>
    rw [named] at nil
    cases nil
  | deliver _ found' copied =>
    cases found.symm.trans found'
    exact ⟨_, _, copied, .inl ⟨rfl, rfl, rfl⟩⟩
  | refuse _ found' failed overflow =>
    cases found.symm.trans found'
    exact ⟨_, _, failed, .inr ⟨overflow, rfl, rfl⟩⟩
  | start _ found' => cases found.symm.trans found'
  | pagerDeliver _ found' => cases found.symm.trans found'
  | pagerRefuse _ found' => cases found.symm.trans found'
  | missing _ found' => cases found.symm.trans found'
  | block _ found' => cases found.symm.trans found'
  | abort _ found' => cases found.symm.trans found'

theorem Sent.of_notready {dest : Word} {r : PhaseResult} (h : Sent k t dest timeout r k') (named : isNilThread dest = false)
    (found : k.findIpcPartner t dest true = .ok .notready) :
    r = .wait ∨ r = .error ∧ k' = (k.log (.sending t dest)).reportError t false .aborted := by
  cases h with
  | skip nil =>
    rw [named] at nil
    cases nil
  | deliver _ found' => cases found.symm.trans found'
  | refuse _ found' => cases found.symm.trans found'
  | start _ found' => cases found.symm.trans found'
  | pagerDeliver _ found' => cases found.symm.trans found'
  | pagerRefuse _ found' => cases found.symm.trans found'
  | missing _ found' => cases found.symm.trans found'
  | block => exact .inl rfl
  | abort => exact .inr ⟨rfl, rfl⟩

theorem Received.of_notready {src : Word} (h : Received k t src timeout k') (named : isNilThread src = false)
    (found : k.findIpcPartner t src false = .ok .notready) (patient : Patient timeout) :
    ∃ k₁, k.setThreadTimeout t timeout .recvBlocked = .ok (true, k₁) ∧ k' = k₁.blocked t src .recvBlocked := by
  cases h with
  | skip nil =>
    rw [named] at nil
    cases nil
  | serve _ found' => cases found.symm.trans found'
  | refuse _ found' => cases found.symm.trans found'
  | missing _ found' => cases found.symm.trans found'
  | block _ _ armed => exact ⟨_, armed, rfl⟩
  | abort _ _ zero => cases patient.blocks zero

/-! ### How a server and its clients wait -/

structure Orderly (s : Service) (k : Kernel) : Prop where
  set : Setting k
  here : k.Listed s.server
  members : ∀ c ∈ s.clients, k.Listed c
  started : k.state s.server ≠ .active
  busy : k.state s.server ≠ .sendBlocked
  asks : ∀ c ∈ s.clients, k.state c = .sendBlocked → (k.tcbs c).ipcFrom = (k.tcbs s.server).globalId ∧
    k.recvFrom c = (k.tcbs s.server).globalId ∧ Patient (k.recvTime c)
  expects : ∀ c ∈ s.clients, k.state c = .recvBlocked → (k.tcbs c).ipcFrom = (k.tcbs s.server).globalId
  hears : k.state s.server = .recvBlocked → (k.tcbs s.server).ipcFrom = anyThread ∧ ∀ c ∈ s.clients, ¬ k.Waits c
  others : ∀ u, k.Listed u → k.state u = .sendBlocked → (k.tcbs u).ipcFrom = (k.tcbs s.server).globalId → u ∈ s.clients

namespace Orderly

theorem fewer (o : Orderly s k) (set : Setting k') (f : Fewer k k') (started : k'.state s.server ≠ .active)
    (wishes : ∀ c ∈ s.clients, k'.state c = .sendBlocked → k'.recvFrom c = k.recvFrom c ∧ k'.recvTime c = k.recvTime c) : Orderly s k' where
  set := set
  here := (f.listed _).mpr o.here
  members c client := (f.listed c).mpr (o.members c client)
  started := started
  busy sends := o.busy (f.state _ (.inl sends) ▸ sends)
  asks c client sends := by
    obtain ⟨dest, src, patient⟩ := o.asks c client (f.state c (.inl sends) ▸ sends)
    obtain ⟨recvFrom, recvTime⟩ := wishes c client sends
    rw [f.ipcFrom c (.inl sends), f.globalId, recvFrom, recvTime]
    exact ⟨dest, src, patient⟩
  expects c client waits := by
    rw [f.ipcFrom c (.inr waits), f.globalId]
    exact o.expects c client (f.state c (.inr waits) ▸ waits)
  hears waits := by
    obtain ⟨any, nobody⟩ := o.hears (f.state _ (.inr waits) ▸ waits)
    refine ⟨(f.ipcFrom _ (.inr waits)).trans any, fun c client wait => nobody c client (f.waits wait)⟩
  others u hu sends name := by
    rw [f.ipcFrom u (.inl sends), f.globalId] at name
    exact o.others u ((f.listed u).mp hu) (f.state u (.inl sends) ▸ sends) name

theorem released (o : Orderly s k) (r : Released k k') (wishes : SameWishes k k') (started : k'.state s.server ≠ .active) :
    Orderly s k' := by
  refine o.fewer (o.set.released r) r.fewer started fun c _ sends => ⟨r.recvFrom (.inl sends), ?_⟩
  unfold recvTime
  rw [r.ctx c (.inl sends), (wishes _).2]

/-- A thread that comes to wait keeps the order if the server waits for anyone while nobody asks, clients wait for the server
while it is busy, and nobody else sends to it. -/
theorem blocked {st : ThreadState} (o : Orderly s k) (b : Blocked k t w st k') (set : Setting k') (sleeps : st ≠ .active)
    (server : t = s.server → st ≠ .sendBlocked ∧ w = anyThread ∧ ∀ c ∈ s.clients, ¬ k.Waits c)
    (client : t ∈ s.clients → w = (k.tcbs s.server).globalId ∧ k.state s.server ≠ .recvBlocked ∧
      (st = .sendBlocked → k.recvFrom t = (k.tcbs s.server).globalId ∧ Patient (k.recvTime t)))
    (other : st = .sendBlocked → w = (k.tcbs s.server).globalId → t ∈ s.clients) : Orderly s k' := by
  have table := b.table
  have serverState : t ∈ s.clients → k'.state s.server = k.state s.server := fun member =>
    b.state_others fun same => s.apart (same ▸ member)
  have wishes : ∀ u, k'.recvFrom u = k.recvFrom u ∧ k'.recvTime u = k.recvTime u := by
    intro u
    have ctx : (k'.tcbs u).ctx = (k.tcbs u).ctx := by
      rw [b.tcbs, Function.update_apply]
      split
      · rename_i here
        rw [here]
      · rfl
    unfold recvFrom recvTime
    rw [b.mem, ctx]
    exact ⟨rfl, rfl⟩
  refine ⟨set, (table.listed _).mpr o.here, fun c member => (table.listed c).mpr (o.members c member), ?_, ?_, ?_, ?_, ?_, ?_⟩
  · by_cases here : s.server = t
    · rw [here, b.here.1]
      exact sleeps
    · rw [b.state_others here]
      exact o.started
  · by_cases here : s.server = t
    · rw [here, b.here.1]
      exact (server here.symm).1
    · rw [b.state_others here]
      exact o.busy
  · intro c member sends
    rw [(wishes c).1, (wishes c).2, table.globalId]
    by_cases here : c = t
    · subst here
      obtain ⟨dest, -, wants⟩ := client member
      exact ⟨b.here.2.trans dest, wants (b.here.1.symm.trans sends)⟩
    · rw [b.others here]
      exact o.asks c member (b.state_others here ▸ sends)
  · intro c member waits
    rw [table.globalId]
    by_cases here : c = t
    · subst here
      exact b.here.2.trans (client member).1
    · rw [b.others here]
      exact o.expects c member (b.state_others here ▸ waits)
  · intro waits
    by_cases here : s.server = t
    · obtain ⟨-, any, nobody⟩ := server here.symm
      refine ⟨by rw [here]; exact b.here.2.trans any, fun c member wait => nobody c member ?_⟩
      have apart : c ≠ t := fun same => s.apart (here ▸ same ▸ member)
      unfold Waits at wait ⊢
      rwa [b.state_others apart] at wait
    · rw [b.state_others here] at waits
      obtain ⟨any, nobody⟩ := o.hears waits
      rw [b.others here]
      refine ⟨any, fun c member wait => ?_⟩
      by_cases same : c = t
      · subst same
        exact (client member).2.1 waits
      · unfold Waits at wait
        rw [b.state_others same] at wait
        exact nobody c member wait
  · intro u hu sends name
    rw [table.globalId] at name
    by_cases here : u = t
    · subst here
      exact other (b.here.1.symm.trans sends) (b.here.2.symm.trans name)
    · rw [b.others here] at name
      exact o.others u ((table.listed u).mp hu) (b.state_others here ▸ sends) name

theorem named (o : Orderly s k) {u : Nat} (hu : k.Listed u) : isNilThread (k.tcbs u).globalId = false := by
  obtain ⟨-, -, notLocal⟩ := o.set.population.ordinary u hu
  apply Bool.eq_false_iff.mpr
  intro nil
  rw [beq_iff_eq.mp nil] at notLocal
  revert notLocal
  decide

theorem search (o : Orderly s k) (t : Nat) (sending : Bool) : k.findIpcPartner t (k.tcbs s.server).globalId sending =
    .ok (if k.isReadyPartner t sending s.server then .found s.server else .notready) := by
  rw [o.set.population.search o.here]
  rcases o.set.population.searchGlobal o.here t sending with ⟨ready, same⟩ | ⟨unready, same | ⟨_, active, _⟩⟩
  · rw [ready, same]
    rfl
  · rw [unready, same]
    rfl
  · exact absurd active o.started

end Orderly
/-! ### What a call makes of who waits -/

/-- A thread goes on as it was, or it runs, or it has come to wait for a message. -/
def Settles (k k' : Kernel) : Prop :=
  ∀ u, k'.state u = .runnable ∨ k'.state u = .recvBlocked ∨ k'.state u = k.state u ∧ (k'.tcbs u).ipcFrom = (k.tcbs u).ipcFrom

namespace Settles

theorem of_tcbs (same : k'.tcbs = k.tcbs) : Settles k k' := fun u => by
  unfold Kernel.state
  rw [same]
  exact .inr (.inr ⟨rfl, rfl⟩)

theorem trans (h : Settles k k') (h' : Settles k' k'') : Settles k k'' := by
  intro u
  rcases h' u with runs | waits | ⟨state, ipcFrom⟩
  · exact .inl runs
  · exact .inr (.inl waits)
  · rw [state, ipcFrom]
    exact h u

theorem wake (h : Settles k k') (t : Nat) : Settles k (k'.setThreadState t .runnable) := by
  refine h.trans fun u => ?_
  rw [state_setThreadState, setThreadState_tcbs]
  by_cases here : u = t
  · exact .inl (if_pos here)
  · rw [if_neg here, Function.update_of_ne here]
    exact .inr (.inr ⟨rfl, rfl⟩)

theorem copyPayload {src dst : Nat} {err : IpcErrorCode} (h : Settles k k') (copied : k'.copyPayload src dst = .ok (err, k'')) :
    Settles k k'' := h.trans (of_tcbs (copyPayload_tcbs copied))

theorem reportError (h : Settles k k') (t : Nat) (p : Bool) (err : IpcErrorCode) : Settles k (k'.reportError t p err) :=
  h.trans (of_tcbs rfl)

theorem setIpcError (h : Settles k k') (t : Nat) : Settles k (k'.setIpcError t) := h.trans (of_tcbs rfl)

theorem endError (h : Settles k k') (t : Nat) (waits : ThreadState) : Settles k (k'.endIpc t waits .error) := (h.setIpcError t).wake t

theorem rejected (h : Settles k k') (t u : Nat) : Settles k (k'.rejected t u) :=
  ((((h.reportError t true _).reportError u false _).setIpcError t).setIpcError u).wake u

theorem unsent (h : Settles k k') (t p : Nat) (err : IpcErrorCode) : Settles k (k'.unsent t p err) :=
  ((((h.reportError t false err).reportError p true err).setIpcError t).setIpcError p).wake p

theorem received {src : Word} (h : Received k t src timeout k') : Settles k k' := by
  induction h with
  | skip nil => exact wake (of_tcbs rfl) _
  | serve named found copied rest ih => exact ((copyPayload (of_tcbs rfl) copied).trans ih).wake _
  | refuse named found failed overflow => exact ((copyPayload (of_tcbs rfl) failed).rejected _ _).endError _ .recvBlocked
  | missing named found => exact (reportError (of_tcbs rfl) _ _ _).endError _ _
  | @block k k₁ t src timeout named found armed =>
    have b := blocked_spec src armed
    intro u
    by_cases here : u = t
    · subst here
      exact .inr (.inl b.here.1)
    · rw [b.state_others here, b.others here]
      exact .inr (.inr ⟨rfl, rfl⟩)
  | abort named found zero => exact (reportError (of_tcbs rfl) _ _ _).endError _ _

theorem sent {dest : Word} {r : PhaseResult} (h : Sent k t dest timeout r k') (ends : r ≠ .wait) : Settles k k' := by
  have noted : Settles k (k.log (.sending t dest)) := of_tcbs rfl
  cases h with
  | skip nil => exact of_tcbs rfl
  | deliver named found copied => exact (noted.copyPayload copied).wake _
  | refuse named found failed overflow => exact (noted.copyPayload failed).unsent _ _ _
  | @start p named found message =>
    have moved : Settles k ((k.log (.sending t dest)).startContext t p) := fun u => by
      obtain ⟨ctx, same, -⟩ := startContext_tcbs (k := k.log (.sending t dest)) t p u
      unfold Kernel.state
      rw [same]
      exact .inr (.inr ⟨rfl, rfl⟩)
    exact (moved.wake p).trans (of_tcbs rfl)
  | pagerDeliver named found copied other => exact noted.copyPayload copied
  | pagerRefuse named found failed overflow => exact ((noted.copyPayload failed).reportError _ _ _).setIpcError _
  | missing named found => exact noted.reportError _ _ _
  | block => exact absurd rfl ends
  | abort => exact noted.reportError _ _ _

theorem called (h : Called k t k') {u : Nat} (other : u ≠ t) :
    k'.state u = .runnable ∨ k'.state u = .recvBlocked ∨ k'.state u = k.state u ∧ (k'.tcbs u).ipcFrom = (k.tcbs u).ipcFrom := by
  cases h with
  | receives fst snd => exact ((sent fst nofun).trans (received snd)) u
  | fails fst => exact ((sent fst nofun).endError t .sendBlocked) u
  | waits fst =>
    obtain ⟨-, -, k₂, armed, ends⟩ := fst.blocks
    rw [ends]
    have b := blocked_spec (k.sendTo t) armed
    rw [b.state_others other, b.others other]
    exact .inr (.inr ⟨rfl, rfl⟩)

end Settles

theorem Called.sender (h : Called k t k') (sends : k'.state t = .sendBlocked) : (k'.tcbs t).ipcFrom = k.sendTo t ∨ k.state t = .sendBlocked := by
  cases h with
  | receives fst snd =>
    rcases (Settles.sent fst nofun).trans (.received snd) t with runs | waits | ⟨same, -⟩
    · cases runs.symm.trans sends
    · cases waits.symm.trans sends
    · exact .inr (same.symm.trans sends)
  | fails fst =>
    rcases (Settles.sent fst nofun).endError t .sendBlocked t with runs | waits | ⟨same, -⟩
    · cases runs.symm.trans sends
    · cases waits.symm.trans sends
    · exact .inr (same.symm.trans sends)
  | waits fst =>
    obtain ⟨-, -, k₂, armed, ends⟩ := fst.blocks
    rw [ends]
    exact .inl (blocked_spec (k.sendTo t) armed).here.2

theorem Called.active (h : Called k t k') {u : Nat} (active : k'.state u = .active) : k.state u = .active := by
  by_cases here : u = t
  · subst here
    cases h with
    | receives fst snd =>
      rcases (Settles.sent fst nofun).trans (.received snd) u with runs | waits | ⟨same, -⟩
      · cases runs.symm.trans active
      · cases waits.symm.trans active
      · exact same.symm.trans active
    | fails fst =>
      rcases (Settles.sent fst nofun).endError u .sendBlocked u with runs | waits | ⟨same, -⟩
      · cases runs.symm.trans active
      · cases waits.symm.trans active
      · exact same.symm.trans active
    | waits fst =>
      rw [state_setThreadState, if_pos rfl] at active
      cases active
  · rcases Settles.called h here with runs | waits | ⟨same, -⟩
    · cases runs.symm.trans active
    · cases waits.symm.trans active
    · exact same.symm.trans active

end Kernel
end BradypOS
