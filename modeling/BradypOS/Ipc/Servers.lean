import BradypOS.Ipc.Service

/-!
# Requests are answered

A client sends its request and waits for the reply in one call. Its server waits for anyone's request, and answers
whoever it received from before it waits again. However the calls of all threads are interleaved, the client is waiting for
the reply whenever the server gets around to sending it.
-/

namespace BradypOS

open L4

variable {s : Service}

namespace Kernel

variable {k k' k'' : Kernel} {t u : Nat} {w : Word} {timeout : Time}

open Theory.Exchange in
/-- Requests and replies alternate, and the client that is served is the one that waits for its reply. -/
structure Serves (s : Service) (k : Kernel) : Prop extends Orderly s k where
  matched : Matched (k.exchanges s)
  awaited : ∀ c, k.serving s = some c ↔ c ∈ s.clients ∧ k.state c = .recvBlocked

namespace Serves

theorem nobody (v : Serves s k) (idle : ∀ c ∈ s.clients, k.state c ≠ .recvBlocked) : k.serving s = none := by
  cases serving : k.serving s with
  | none => rfl
  | some c =>
    obtain ⟨client, waits⟩ := (v.awaited c).mp serving
    exact absurd waits (idle c client)

theorem released (v : Serves s k) (r : Released k k') (wishes : SameWishes k k') (started : k'.state s.server ≠ .active)
    (record : k'.exchanges s = k.exchanges s) (clients : ∀ c ∈ s.clients, k.state c = .recvBlocked → k'.state c = .recvBlocked) :
    Serves s k' := by
  refine ⟨v.toOrderly.released r wishes started, by rw [record]; exact v.matched, fun c => ?_⟩
  have same : k'.serving s = k.serving s := congrArg Theory.Exchange.serving record
  rw [same, v.awaited]
  refine and_congr_right fun client => ⟨clients c client, fun waits => ?_⟩
  rw [← r.state c (.inr waits)]
  exact waits

/-- A client whose request was copied comes to wait for the reply. -/
theorem takes {c : Nat} {earlier : List (Theory.Exchange Nat)} (o : Orderly s k) (client : c ∈ s.clients)
    (idle : ∀ d ∈ s.clients, k.state d ≠ .recvBlocked) (matched : Theory.Exchange.Matched earlier)
    (unserved : Theory.Exchange.serving earlier = none) (record : k.exchanges s = .request c :: earlier)
    (computes : k.state s.server ≠ .recvBlocked) (patient : Patient timeout)
    (h : Received k c (k.tcbs s.server).globalId timeout k') : Serves s k' ∧ k'.state s.server = k.state s.server := by
  have unready : k.isReadyPartner c false s.server = false := by
    apply Bool.eq_false_iff.mpr
    exact fun ready => o.busy (isReadyPartner_waits ready)
  have found := o.search c false
  rw [unready] at found
  obtain ⟨k₁, armed, rfl⟩ := h.of_notready (o.named o.here) found patient
  have b := blocked_spec (k.tcbs s.server).globalId armed
  have apart : s.server ≠ c := fun same => s.apart (same ▸ client)
  have orderly : Orderly s (k₁.blocked c (k.tcbs s.server).globalId .recvBlocked) := by
    apply o.blocked b (o.set.blocked b nofun nofun) nofun
    · exact fun same => absurd same.symm apart
    · exact fun _ => ⟨rfl, computes, nofun⟩
    · exact nofun
  have record' : (k₁.blocked c (k.tcbs s.server).globalId .recvBlocked).exchanges s = .request c :: earlier :=
    (exchanges_blocked armed _).trans record
  refine ⟨⟨orderly, ?_, fun d => ?_⟩, b.state_others apart⟩
  · rw [record']
    exact ⟨unserved, matched⟩
  · have serving : (k₁.blocked c (k.tcbs s.server).globalId .recvBlocked).serving s = some c :=
      congrArg Theory.Exchange.serving record'
    rw [serving, Option.some.injEq]
    constructor
    · rintro rfl
      exact ⟨client, b.here.1⟩
    · rintro ⟨member, waits⟩
      by_contra other
      rw [b.state_others (Ne.symm other)] at waits
      exact idle d member waits

/-! ### A client calls -/

theorem client {c : Nat} (v : Serves s k) (client : c ∈ s.clients) (runs : ¬ k.Waits c)
    (dest : k.sendTo c = (k.tcbs s.server).globalId) (src : k.recvFrom c = (k.tcbs s.server).globalId)
    (patient : Patient (k.recvTime c)) (h : Called k c k') : Serves s k' := by
  have o := v.toOrderly
  have apart : s.server ≠ c := fun same => s.apart (same ▸ client)
  have named := o.named o.here
  have found := o.search c true
  have noted : Released k (k.log (.sending c (k.tcbs s.server).globalId)) := (Released.refl k).log _
  have notedWishes : SameWishes k (k.log (.sending c (k.tcbs s.server).globalId)) := .of_frame rfl
  by_cases open_ : k.state s.server = .recvBlocked
  · -- The server waits, so the request is copied at once.
    obtain ⟨any, nobody⟩ := o.hears open_
    have idle : ∀ d ∈ s.clients, k.state d ≠ .recvBlocked := fun d member waits => nobody d member (.inr waits)
    have ready : k.isReadyPartner c true s.server = true := by
      simp [isReadyPartner, partnerState, isViableIpcPartner, open_, any]
    rw [ready] at found
    have sends : ∀ {r : PhaseResult} {k₁ : Kernel}, Sent k c (k.sendTo c) (k.sendTime c) r k₁ →
        ∃ k₀ err, (k.log (.sending c (k.tcbs s.server).globalId)).copyPayload c s.server = .ok (err, k₀) ∧
          (err = .none ∧ r = .done ∧ k₁ = k₀.setThreadState s.server .runnable ∨
            err ≠ .none ∧ r = .error ∧ k₁ = k₀.unsent c s.server err) := by
      intro r k₁ sent
      rw [dest] at sent
      exact sent.of_found named found
    cases h with
    | waits sent =>
      obtain ⟨k₀, err, copied, ⟨_, wrong, _⟩ | ⟨_, wrong, _⟩⟩ := sends sent
      · cases wrong
      · cases wrong
    | fails sent =>
      obtain ⟨k₀, err, failed, ⟨_, wrong, _⟩ | ⟨overflow, _, rfl⟩⟩ := sends sent
      · cases wrong
      · have told : Released k (k₀.unsent c s.server err) :=
          (((((noted.copyPayload failed).reportError _ _ _).reportError _ _ _).setIpcError _).setIpcError _).wake _
        refine v.released (told.endError c _) (((notedWishes.copyPayload failed).unsent _ _ _).endError _ _) ?_ ?_ ?_
        · rw [endIpc_state, if_neg apart, unsent_state, if_pos rfl]
          decide
        · have record : (k₀.unsent c s.server err).exchanges s = k₀.exchanges s := by
            unfold Kernel.unsent
            rw [exchanges_setThreadState, exchanges_setIpcError, exchanges_setIpcError, exchanges_recvError, if_neg s.apart,
              exchanges_sendError]
          rw [exchanges_endError, record, exchanges_uncopied failed overflow, exchanges_sending]
        · exact fun d member waits => absurd waits (idle d member)
    | receives sent received =>
      obtain ⟨k₀, err, copied, ⟨rfl, _, rfl⟩ | ⟨_, wrong, _⟩⟩ := sends sent
      · have woken : Released k (k₀.setThreadState s.server .runnable) := (noted.copyPayload copied).wake _
        have runnable : (k₀.setThreadState s.server .runnable).state s.server = .runnable := by
          rw [state_setThreadState, if_pos rfl]
        have orderly := o.released woken ((notedWishes.copyPayload copied).setThreadState _ _) (by rw [runnable]; decide)
        rw [src, ← woken.globalId] at received
        refine (takes orderly client ?_ v.matched (v.nobody idle) ?_ ?_ patient received).1
        · exact fun d member waits => idle d member (woken.state d (.inr waits) ▸ waits)
        · rw [exchanges_setThreadState, exchanges_request client copied, exchanges_sending]
        · rw [runnable]
          decide
      · cases wrong
  · -- The server does something else, so the client waits until it asks.
    have unready : k.isReadyPartner c true s.server = false := by
      apply Bool.eq_false_iff.mpr
      exact fun ready => open_ (isReadyPartner_waits ready)
    rw [unready] at found
    have ends : ∀ {r : PhaseResult} {k₁ : Kernel}, Sent k c (k.sendTo c) (k.sendTime c) r k₁ →
        r = .wait ∨ r = .error ∧ k₁ = (k.log (.sending c (k.tcbs s.server).globalId)).reportError c false .aborted := by
      intro r k₁ sent
      rw [dest] at sent
      exact sent.of_notready named found
    cases h with
    | receives sent received =>
      rcases ends sent with wrong | ⟨wrong, _⟩
      · cases wrong
      · cases wrong
    | fails sent =>
      rcases ends sent with wrong | ⟨_, rfl⟩
      · cases wrong
      · refine v.released ((noted.reportError _ _ _).endError c _) ((notedWishes.reportError _ _ _).endError _ _) ?_ ?_ ?_
        · rw [endIpc_state, if_neg apart]
          exact o.started
        · rw [exchanges_endError, exchanges_sendError, exchanges_sending]
        · intro d member waits
          have other : d ≠ c := fun same => runs (same ▸ .inr waits)
          rw [endIpc_state, if_neg other]
          exact waits
    | waits sent =>
      obtain ⟨-, -, k₂, armed, ends⟩ := sent.blocks
      rw [dest] at armed ends
      rw [ends]
      have b := blocked_spec (k.tcbs s.server).globalId armed
      have orderly := o.released noted notedWishes o.started
      have set : Setting (k₂.blocked c (k.tcbs s.server).globalId .sendBlocked) := by
        apply orderly.set.blocked b
        · exact fun _ => ⟨s.server, orderly.here, rfl⟩
        · intro _
          have wants : (k.log (.sending c (k.tcbs s.server).globalId)).recvFrom c = (k.tcbs s.server).globalId := src
          rw [wants]
          exact .inr (.inr ⟨s.server, orderly.here, rfl⟩)
      refine ⟨orderly.blocked b set (by rintro ⟨⟩) ?_ ?_ fun _ _ => client, ?_, fun d => ?_⟩
      · exact fun same => absurd same.symm apart
      · exact fun _ => ⟨rfl, open_, fun _ => ⟨src, patient⟩⟩
      · rw [exchanges_blocked armed]
        exact v.matched
      · have same : (k₂.blocked c (k.tcbs s.server).globalId .sendBlocked).serving s = k.serving s :=
          congrArg Theory.Exchange.serving (exchanges_blocked armed _)
        rw [same, v.awaited]
        refine and_congr_right fun member => ?_
        by_cases here : d = c
        · subst here
          rw [b.here.1]
          exact ⟨fun waits => absurd (.inr waits) runs, by rintro ⟨⟩⟩
        · rw [b.state_others here]
          rfl

/-! ### The server calls -/

/-- Whom the server has to send to: the client that it has received from, if it has not answered it. -/
def owed (s : Service) (k : Kernel) : Word :=
  match k.serving s with
  | none => nilThread
  | some c => (k.tcbs c).globalId

/-- The client that is served is found by the reply. -/
theorem reaches (v : Serves s k) {c : Nat} (serving : k.serving s = some c) :
    isNilThread (k.tcbs c).globalId = false ∧ k.findIpcPartner s.server (k.tcbs c).globalId true = .ok (.found c) := by
  obtain ⟨client, waits⟩ := (v.awaited c).mp serving
  have listed := v.members c client
  have ready : k.isReadyPartner s.server true c = true := by
    simp [isReadyPartner, partnerState, isViableIpcPartner, waits, v.expects c client waits]
  refine ⟨v.named listed, ?_⟩
  rw [v.set.population.search listed]
  rcases v.set.population.searchGlobal listed s.server true with ⟨_, same⟩ | ⟨unready, _⟩
  · rw [same]
  · rw [ready] at unready
    cases unready

/-- The server's reply never waits and is never in vain. -/
theorem answers {r : PhaseResult} (v : Serves s k) (h : Sent k s.server (owed s k) timeout r k') :
    r ≠ .wait ∧ Serves s k' ∧ k'.serving s = none ∧ k'.state s.server = k.state s.server ∧ Released k k' := by
  unfold owed at h
  split at h
  · rename_i nobody
    have nil : isNilThread nilThread = true := rfl
    have same : r = .done ∧ k' = k := by
      cases h with
      | skip => exact ⟨rfl, rfl⟩
      | deliver named => cases nil.symm.trans named
      | refuse named => cases nil.symm.trans named
      | start named => cases nil.symm.trans named
      | pagerDeliver named => cases nil.symm.trans named
      | pagerRefuse named => cases nil.symm.trans named
      | missing named => cases nil.symm.trans named
      | block named => cases nil.symm.trans named
      | abort named => cases nil.symm.trans named
    obtain ⟨rfl, rfl⟩ := same
    exact ⟨nofun, v, nobody, rfl, .refl k'⟩
  · rename_i c serving
    obtain ⟨client, waits⟩ := (v.awaited c).mp serving
    have apart : s.server ≠ c := fun same => s.apart (same ▸ client)
    obtain ⟨named, found⟩ := v.reaches serving
    have noted : Released k (k.log (.sending s.server (k.tcbs c).globalId)) := (Released.refl k).log _
    have notedWishes : SameWishes k (k.log (.sending s.server (k.tcbs c).globalId)) := .of_frame rfl
    -- Either way the client stops to wait, and it was the only one that waited for a reply.
    have settle : Released k k' → SameWishes k k' → k'.state c = .runnable → k'.state s.server = k.state s.server →
        (k'.exchanges s = .reply c :: k.exchanges s ∨ k'.exchanges s = .refused c :: k.exchanges s) → Serves s k' ∧ k'.serving s = none := by
      intro released wishes woken server record
      have matched : Theory.Exchange.Matched (k'.exchanges s) ∧ k'.serving s = none := by
        unfold Kernel.serving at serving ⊢
        rcases record with record | record
        · rw [record]
          exact ⟨⟨serving, v.matched⟩, rfl⟩
        · rw [record]
          exact ⟨⟨serving, v.matched⟩, rfl⟩
      refine ⟨⟨v.toOrderly.released released wishes (server ▸ v.started), matched.1, fun d => ?_⟩, matched.2⟩
      rw [matched.2]
      refine ⟨nofun, fun ⟨member, still⟩ => ?_⟩
      have before : k.serving s = some d := (v.awaited d).mpr ⟨member, (released.state d (.inr still)).symm.trans still⟩
      cases before.symm.trans serving
      rw [woken] at still
      cases still
    obtain ⟨k₀, err, copied, ⟨rfl, rfl, rfl⟩ | ⟨overflow, rfl, rfl⟩⟩ := h.of_found named found
    · have stayed : (k₀.setThreadState c .runnable).state s.server = k.state s.server := by
        rw [state_setThreadState, if_neg apart]
        exact ((Light.refl _).copyPayload copied).state _
      have woken : Released k (k₀.setThreadState c .runnable) := (noted.copyPayload copied).wake _
      obtain ⟨serves, idle⟩ := settle woken ((notedWishes.copyPayload copied).setThreadState _ _) (by rw [state_setThreadState, if_pos rfl]) stayed
        (.inl (by rw [exchanges_setThreadState, exchanges_reply client copied, exchanges_sending]))
      exact ⟨nofun, serves, idle, stayed, woken⟩
    · have stayed : (k₀.unsent s.server c err).state s.server = k.state s.server := by
        rw [unsent_state, if_neg apart]
        exact ((Light.refl _).copyPayload copied).state _
      have told : Released k (k₀.unsent s.server c err) :=
        (((((noted.copyPayload copied).reportError _ _ _).reportError _ _ _).setIpcError _).setIpcError _).wake _
      have record : (k₀.unsent s.server c err).exchanges s = .refused c :: k.exchanges s := by
        unfold Kernel.unsent
        rw [exchanges_setThreadState, exchanges_setIpcError, exchanges_setIpcError, exchanges_recvError, if_pos client,
          exchanges_sendError, exchanges_uncopied copied overflow, exchanges_sending]
      obtain ⟨serves, idle⟩ := settle told ((notedWishes.copyPayload copied).unsent _ _ _) (by rw [unsent_state, if_pos rfl]) stayed (.inr record)
      exact ⟨nofun, serves, idle, stayed, told⟩

/-- What the server does after its reply: nothing more, or it waits for the next request. -/
theorem next {src : Word} (v : Serves s k) (runs : ¬ k.Waits s.server) (idle : k.serving s = none)
    (asks : isNilThread src = true ∨ src = anyThread) (h : Received k s.server src timeout k') : Serves s k' := by
  have o := v.toOrderly
  have waitless : ∀ c ∈ s.clients, k.state c ≠ .recvBlocked := fun c client waits => by
    rw [(v.awaited c).mpr ⟨client, waits⟩] at idle
    cases idle
  have wake : ∀ {k₁ : Kernel}, Serves s k₁ → Serves s (k₁.setThreadState s.server .runnable) := fun {k₁} serves => by
    refine serves.released ((Released.refl k₁).wake _) (SameWishes.setThreadState (.of_frame rfl) _ _) ?_ (exchanges_setThreadState _ _ _) ?_
    · rw [state_setThreadState, if_pos rfl]
      exact nofun
    · intro c client waits
      rw [state_setThreadState, if_neg fun same : c = s.server => s.apart (same ▸ client)]
      exact waits
  have settle : ∀ {k₁ : Kernel}, Released k k₁ → SameWishes k k₁ → k₁.state s.server = .runnable → k₁.exchanges s = k.exchanges s →
      Serves s k₁ := fun released wishes state record =>
    v.released released wishes (by rw [state]; exact nofun) record fun c client waits => absurd waits (waitless c client)
  have ended : ∀ {k₁ : Kernel} {waits : ThreadState}, (k₁.endIpc s.server waits .error).state s.server = .runnable :=
    fun {_ _} => by rw [endIpc_state, if_pos rfl]
  generalize ht : s.server = t at h
  cases h with
  | skip nil =>
    subst ht
    exact wake v
  | @serve _ k₁ k₂ _ c _ _ named found copied rest =>
    subst ht
    have any : src = anyThread := asks.resolve_left fun nil => by rw [named] at nil; cases nil
    subst any
    obtain ⟨listed, sends, name⟩ := o.set.partner o.here (.inl rfl) named found
    have client := o.others c listed sends name
    obtain ⟨-, wants, patient⟩ := o.asks c client sends
    obtain ⟨-, recvFrom, recvTime⟩ := copyPayload_same false copied
    have released : Released k k₁ := (Released.refl k).copyPayload copied
    have state := ((Light.refl k).copyPayload copied).state
    have orderly := o.released released (SameWishes.copyPayload (.of_frame rfl) copied) (by rw [state]; exact o.started)
    rw [recvFrom, wants, ← released.globalId] at rest
    apply wake
    refine (takes orderly client ?_ v.matched idle (exchanges_request client copied) ?_ (recvTime c ▸ patient) rest).1
    · exact fun d member waits => waitless d member (state d ▸ waits)
    · rw [state]
      exact fun waits => runs (.inr waits)
  | @refuse _ k₁ _ c _ _ err named found failed overflow =>
    subst ht
    have any : src = anyThread := asks.resolve_left fun nil => by rw [named] at nil; cases nil
    have released : Released k (k₁.refused s.server c) := (((Released.refl k).copyPayload failed).rejected.endError _ .recvBlocked)
    refine settle released (((SameWishes.copyPayload (.of_frame rfl) failed).rejected _ _).endError _ .recvBlocked) ended ?_
    have record : (k₁.rejected s.server c).exchanges s = k₁.exchanges s := by
      unfold Kernel.rejected
      rw [exchanges_setThreadState, exchanges_setIpcError, exchanges_setIpcError, exchanges_sendError, exchanges_recvError, if_neg s.apart]
    exact (exchanges_endError _ _ _).trans (record.trans (exchanges_uncopied failed overflow))
  | missing named found =>
    subst ht
    refine settle (((Released.refl k).reportError _ _ _).endError _ _) ((SameWishes.reportError (.of_frame rfl) _ _ _).endError _ _) ended ?_
    rw [exchanges_endError, exchanges_recvError, if_neg s.apart]
  | @block _ k₁ _ _ _ named found armed =>
    subst ht
    have any : src = anyThread := asks.resolve_left fun nil => by rw [named] at nil; cases nil
    subst any
    have b := blocked_spec anyThread armed
    refine ⟨o.blocked b (o.set.blocked b nofun nofun) nofun ?_ ?_ nofun, ?_, fun c => ?_⟩
    · refine fun _ => ⟨nofun, rfl, fun c client waits => ?_⟩
      rcases waits with sends | waits
      · have unready := notready_none o.set.population (o.members c client) (.inl rfl) found
        have ready : k.isReadyPartner s.server false c = true := by
          simp [isReadyPartner, partnerState, isViableIpcPartner, sends, (o.asks c client sends).1]
        rw [ready] at unready
        cases unready
      · exact waitless c client waits
    · exact fun member => absurd member s.apart
    · rw [exchanges_blocked armed]
      exact v.matched
    · have same : (k₁.blocked s.server anyThread .recvBlocked).serving s = k.serving s :=
        congrArg Theory.Exchange.serving (exchanges_blocked armed _)
      rw [same, v.awaited]
      refine and_congr_right fun client => ?_
      rw [b.state_others fun here : c = s.server => s.apart (here ▸ client)]
  | abort named found zero =>
    subst ht
    refine settle (((Released.refl k).reportError _ _ _).endError _ _) ((SameWishes.reportError (.of_frame rfl) _ _ _).endError _ _) ended ?_
    rw [exchanges_endError, exchanges_recvError, if_neg s.apart]

theorem server (v : Serves s k) (runs : ¬ k.Waits s.server) (owes : k.sendTo s.server = owed s k)
    (asks : isNilThread (k.recvFrom s.server) = true ∨ k.recvFrom s.server = anyThread) (h : Called k s.server k') : Serves s k' := by
  cases h with
  | waits sent => exact absurd rfl (v.answers (owes ▸ sent)).1
  | @fails k₁ sent =>
    obtain ⟨-, serves, idle, -, -⟩ := v.answers (owes ▸ sent)
    refine serves.released ((Released.refl k₁).endError _ _) (SameWishes.endError (.of_frame rfl) _ _) ?_ (exchanges_endError _ _ _) ?_
    · rw [endIpc_state, if_pos rfl]
      exact nofun
    · intro c client waits
      rw [endIpc_state, if_neg fun same : c = s.server => s.apart (same ▸ client)]
      exact waits
  | receives sent received =>
    obtain ⟨-, serves, idle, state, -⟩ := v.answers (owes ▸ sent)
    refine serves.next ?_ idle asks received
    unfold Waits at runs ⊢
    rwa [state]

/-! ### Somebody else calls -/

/-- Threads that are neither the server nor its clients. -/
def outside (s : Service) : Area := ⟨fun u => u ≠ s.server ∧ u ∉ s.clients, fun _ => True, fun _ => True⟩

theorem viable (o : Orderly s k) {c : Nat} (client : c ∈ s.clients) (waits : k.Waits c) (ht : k.Listed t)
    (viable : k.isViableIpcPartner t c = true) : t = s.server := by
  have name : (k.tcbs c).ipcFrom = (k.tcbs s.server).globalId := by
    rcases waits with sends | waits
    · exact (o.asks c client sends).1
    · exact o.expects c client waits
  obtain ⟨notAny, notLocal, -⟩ := o.set.population.ordinary _ o.here
  simp only [isViableIpcPartner, Bool.or_eq_true, Bool.and_eq_true, decide_eq_true_eq, name] at viable
  rcases viable with ((any | ⟨anyLocal, -⟩) | same) | byLocal
  · exact absurd any notAny
  · exact absurd anyLocal notLocal
  · exact (o.set.population.id_inj o.here ht same).symm
  · exact o.set.locals t _ ht o.here byLocal.symm

theorem ready_outside (o : Orderly s k) (ht : k.Listed t) (here : t ≠ s.server) {p : Nat} {sending : Bool}
    (ready : k.isReadyPartner t sending p = true) (other : p ≠ s.server) : (outside s).thread p := by
  refine ⟨other, fun client => here ?_⟩
  have waits := isReadyPartner_waits ready
  refine viable o client ?_ ht (Bool.and_eq_true_iff.mp ready).2
  cases sending
  · exact .inl waits
  · exact .inr waits

theorem chain_outside (o : Orderly s k) {src : Word} {p : Nat} (h : Chain k t src p) (ht : k.Listed t) (here : t ≠ s.server)
    (allowed : k.Source src) : (outside s).thread p := by
  induction h with
  | found named found =>
    have ready := findIpcPartner_found found
    exact ready_outside o ht here ready fun same => o.busy (same ▸ isReadyPartner_waits ready)
  | next named found _ ih =>
    have ready := findIpcPartner_found found
    obtain ⟨listed, sends, -⟩ := o.set.partner ht allowed named found
    exact ih listed (fun same => o.busy (same ▸ sends)) (o.set.wants _ listed sends)

theorem involved_outside (o : Orderly s k) (running : ∀ c ∈ s.clients, k.state c ≠ .active) (ht : k.Listed t) (here : (outside s).thread t)
    (dest : k.Destination (k.sendTo t)) (elsewhere : k.sendTo t ≠ (k.tcbs s.server).globalId) (src : k.Source (k.recvFrom t)) {u : Nat}
    (h : Involved k t u) : (outside s).thread u := by
  cases h with
  | caller => exact here
  | receiver named found =>
    refine ready_outside o ht here.1 (findIpcPartner_found found) ?_
    rintro rfl
    obtain ⟨-, any | name⟩ := o.set.population.found_listed (.inr dest) named found
    · rcases dest with nil | ⟨d, hd, name⟩
      · rw [named] at nil
        cases nil
      · exact (o.set.population.ordinary d hd).1 (name.symm.trans any)
    · exact elsewhere name
  | started named found =>
    have active := (findIpcPartner_pagerMsg found).2.1
    exact ⟨fun same => o.started (same ▸ active), fun client => running u client active⟩
  | sender chain => exact chain_outside o chain ht here.1 src

/-- What the other threads say to each other does not concern the service. -/
theorem aside (v : Serves s k) (running : ∀ c ∈ s.clients, k.state c ≠ .active) (ht : k.Listed t) (here : (outside s).thread t)
    (dest : k.Destination (k.sendTo t)) (elsewhere : k.sendTo t ≠ (k.tcbs s.server).globalId) (src : k.Source (k.recvFrom t))
    (runs : ¬ k.Waits t) (h : Called k t k') : Serves s k' := by
  have o := v.toOrderly
  have within : Within (outside s) k k' := h.within (fun u involved => involved_outside o running ht here dest elsewhere src involved)
    (fun _ => trivial) fun _ _ => ⟨trivial, trivial⟩
  have table := h.kept.sameTable
  have wishes := SameWishes.called h
  have serverTcb : k'.tcbs s.server = k.tcbs s.server := within.tcbs _ fun inside => inside.1 rfl
  have clientTcb : ∀ c ∈ s.clients, k'.tcbs c = k.tcbs c := fun c client => within.tcbs c fun inside => inside.2 client
  have serverState : k'.state s.server = k.state s.server := congrArg Tcb.state serverTcb
  have clientState : ∀ c ∈ s.clients, k'.state c = k.state c := fun c client => congrArg Tcb.state (clientTcb c client)
  have record : k'.exchanges s = k.exchanges s := within.records.exchanges fun c client inside => inside.2 client
  have serving : k'.serving s = k.serving s := congrArg Theory.Exchange.serving record
  refine ⟨⟨o.set.called dest src h, (table.listed _).mpr o.here, fun c client => (table.listed c).mpr (o.members c client),
    by rw [serverState]; exact o.started, by rw [serverState]; exact o.busy, fun c client sends => ?_, fun c client waits => ?_,
    fun waits => ?_, fun u hu sends name => ?_⟩, by rw [record]; exact v.matched, fun c => ?_⟩
  · obtain ⟨name, recvFrom, patient⟩ := o.asks c client (clientState c client ▸ sends)
    unfold Kernel.recvFrom at recvFrom ⊢
    unfold Kernel.recvTime at patient ⊢
    rw [clientTcb c client, serverTcb, (wishes _).1, (wishes _).2]
    exact ⟨name, recvFrom, patient⟩
  · rw [clientTcb c client, serverTcb]
    exact o.expects c client (clientState c client ▸ waits)
  · obtain ⟨any, nobody⟩ := o.hears (serverState ▸ waits)
    refine ⟨serverTcb ▸ any, fun c client wait => nobody c client ?_⟩
    unfold Waits at wait ⊢
    rwa [clientState c client] at wait
  · rw [serverTcb] at name
    by_cases caller : u = t
    · subst caller
      rcases h.sender sends with dest | sent
      · exact absurd (dest.symm.trans name) elsewhere
      · exact absurd (.inl sent) runs
    · rcases Settles.called h caller with runs | waits | ⟨state, ipcFrom⟩
      · cases runs.symm.trans sends
      · cases waits.symm.trans sends
      · exact o.others u ((table.listed u).mp hu) (state.symm.trans sends) (ipcFrom.symm.trans name)
  · rw [serving, v.awaited]
    exact and_congr_right fun client => by rw [clientState c client]

end Serves

end Kernel

/-! ### Runs -/

namespace Ipc

open Kernel

variable {k k₀ k' : Kernel}

/-- The server answers whoever it received from before it receives again; a client sends its request and waits for the reply in
one call, and its timeout does not come while it waits for it; nobody else sends to the server. -/
def Follows (s : Service) (k : Kernel) : Action → Prop
  | .call caller cpu mem _ =>
    let frame := mem.frame cpu.sp
    (caller = s.server → frame.r0 = Serves.owed s k ∧ (isNilThread frame.r1 = true ∨ frame.r1 = anyThread)) ∧
    (caller ∈ s.clients → frame.r0 = (k.tcbs s.server).globalId ∧ frame.r1 = (k.tcbs s.server).globalId ∧ Patient (recvTimeout frame.r2)) ∧
    (caller ≠ s.server → caller ∉ s.clients → frame.r0 ≠ (k.tcbs s.server).globalId) ∧
    ∀ c ∈ s.clients, k.state c = .sendBlocked → (mem.frame (k.tcbs c).ctx.sp).r2 = (k.mem.frame (k.tcbs c).ctx.sp).r2
  | .timeout data => ∀ c ∈ s.clients, k.findThreadByGlobalId data = some c → k.state c ≠ .recvBlocked

instance (s : Service) (k : Kernel) (a : Action) : Decidable (Follows s k a) :=
  match a with
  | .call _ _ _ _ => inferInstanceAs (Decidable (_ ∧ _))
  | .timeout _ => inferInstanceAs (Decidable (∀ c ∈ s.clients, _))

theorem trapped_serves {caller fuel : Nat} {cpu : Context} {mem : Memory} (v : Serves s k) (runs : ¬ k.Waits caller)
    (allowed : Allowed k (.call caller cpu mem fuel)) (follows : Follows s k (.call caller cpu mem fuel)) :
    Serves s (trapped k caller cpu mem) := by
  have fewer := trapped_fewer k caller cpu mem
  have others : ∀ u, u ≠ caller → (trapped k caller cpu mem).tcbs u = k.tcbs u := fun u other => by
    rw [trapped_tcbs, Function.update_of_ne other]
  have apart : ∀ u, (trapped k caller cpu mem).Waits u → u ≠ caller := fun u waits same => runs (same ▸ fewer.waits waits)
  have record : (trapped k caller cpu mem).exchanges s = k.exchanges s := exchanges_setThreadState _ _ _
  have same : (trapped k caller cpu mem).serving s = k.serving s := congrArg Theory.Exchange.serving record
  refine ⟨v.toOrderly.fewer (trapped_setting v.set runs allowed) fewer ?_ fun c client sends => ?_, by rw [record]; exact v.matched, fun c => ?_⟩
  · by_cases here : s.server = caller
    · subst here
      show ((trapped k s.server cpu mem).tcbs s.server).state ≠ .active
      rw [trapped_tcbs, Function.update_self]
      exact nofun
    · have kept := v.started
      unfold Kernel.state at kept ⊢
      rwa [others _ here]
  · have other := apart c (.inl sends)
    have before : k.state c = .sendBlocked := fewer.state c (.inl sends) ▸ sends
    unfold recvFrom recvTime
    rw [trapped_mem, others c other]
    exact ⟨allowed.2.2 c (v.members c client) before, congrArg recvTimeout (follows.2.2.2 c client before)⟩
  · rw [same, v.awaited]
    refine and_congr_right fun client => ?_
    by_cases here : c = caller
    · subst here
      refine ⟨fun waits => absurd (.inr waits) runs, fun waits => absurd rfl (apart c (.inr waits))⟩
    · unfold Kernel.state
      rw [others c here]

theorem step_serves {a : Action} (v : Serves s k) (running : ∀ c ∈ s.clients, k.state c ≠ .active) (allowed : Allowed k a)
    (follows : Follows s k a) (step : Step k a k') : Serves s k' ∧ ∀ c ∈ s.clients, k'.state c ≠ .active := by
  obtain ⟨enabled, h⟩ := step
  cases a with
  | call caller cpu mem fuel =>
    have called := call_spec h
    have v₁ := trapped_serves v enabled.2 allowed follows
    obtain ⟨dest, src⟩ := trapped_names allowed
    have table := trapped_table k caller cpu mem
    have listed := (table.listed caller).mpr enabled.1
    have blocked : (trapped k caller cpu mem).state caller = .svcBlocked := by
      show ((trapped k caller cpu mem).tcbs caller).state = _
      rw [trapped_tcbs, Function.update_self]
    have runs : ¬ (trapped k caller cpu mem).Waits caller := by
      unfold Waits
      rw [blocked]
      exact nofun
    have running₁ : ∀ c ∈ s.clients, (trapped k caller cpu mem).state c ≠ .active := by
      intro c client
      by_cases here : c = caller
      · rw [here, blocked]
        exact nofun
      · show ((trapped k caller cpu mem).tcbs c).state ≠ _
        rw [trapped_tcbs, Function.update_of_ne here]
        exact running c client
    have frame : (trapped k caller cpu mem).mem.frame ((trapped k caller cpu mem).tcbs caller).ctx.sp = mem.frame cpu.sp := by
      rw [trapped_mem, trapped_tcbs, Function.update_self]
    have sendTo : (trapped k caller cpu mem).sendTo caller = (mem.frame cpu.sp).r0 := congrArg Frame.r0 frame
    have recvFrom : (trapped k caller cpu mem).recvFrom caller = (mem.frame cpu.sp).r1 := congrArg Frame.r1 frame
    have recvTime : (trapped k caller cpu mem).recvTime caller = recvTimeout (mem.frame cpu.sp).r2 :=
      congrArg (fun f : Frame => recvTimeout f.r2) frame
    refine ⟨?_, fun c client active => running₁ c client (called.active active)⟩
    obtain ⟨server, client, other, -⟩ := follows
    by_cases asServer : caller = s.server
    · subst asServer
      obtain ⟨owes, asks⟩ := server rfl
      have owed : Serves.owed s (trapped k s.server cpu mem) = Serves.owed s k := by
        have record : (trapped k s.server cpu mem).exchanges s = k.exchanges s := exchanges_setThreadState _ _ _
        unfold Serves.owed Kernel.serving
        rw [record]
        split
        · rfl
        · exact table.globalId _
      refine v₁.server runs (sendTo.trans (owes.trans owed.symm)) ?_ called
      rw [recvFrom]
      exact asks
    · by_cases asClient : caller ∈ s.clients
      · obtain ⟨dest, src, patient⟩ := client asClient
        refine v₁.client asClient runs ?_ ?_ (recvTime ▸ patient) called
        · rw [sendTo, table.globalId]
          exact dest
        · rw [recvFrom, table.globalId]
          exact src
      · refine v₁.aside running₁ listed ⟨asServer, asClient⟩ dest ?_ src runs called
        rw [sendTo, table.globalId]
        exact other asServer asClient
  | timeout data =>
    cases h
    rcases timeout_cases k data with same | ⟨t, found, waits, timed⟩
    · rw [same]
      exact ⟨v, running⟩
    · have state : ∀ u, (k.timedOut t).state u = if u = t then .runnable else k.state u := fun u => state_setThreadState ..
      have record : (k.timedOut t).exchanges s = k.exchanges s := by
        have noted : (k.timedOut t).exchanges s =
            ((k.setIpcError t).reportError t (k.state t = .recvBlocked) .timeout).exchanges s := exchanges_setThreadState _ _ _
        rw [noted]
        by_cases receives : k.state t = .recvBlocked
        · rw [decide_eq_true receives, exchanges_recvError, if_neg fun client => follows t client found receives]
          rfl
        · rw [decide_eq_false receives]
          rfl
      have wishes : SameWishes k (k.timedOut t) := by
        refine SameWishes.trans (SameWishes.setThreadState ?_ t .runnable) (.of_frame rfl)
        exact .of_frame rfl
      rw [timed]
      refine ⟨v.released (.timedOut k t) wishes ?_ record fun c client receives => ?_, fun c client => ?_⟩
      · rw [state]
        split
        · exact nofun
        · exact v.started
      · rw [state, if_neg]
        · exact receives
        · rintro rfl
          exact follows c client found receives
      · rw [state]
        split
        · exact nofun
        · exact running c client

/-- However the calls are interleaved: requests and replies alternate, each reply going to the client whose request came before it;
the client that is served is the one that waits for a reply, so that the reply finds it at once whatever its timeout; the server never
waits to send; and each client's requests are answered once, but for the one that is being served. -/
theorem requests_answered {as : List Action} (population : Population k₀)
    (locals : ∀ t u, k₀.Listed t → k₀.Listed u → (k₀.tcbs t).localId ≠ (k₀.tcbs u).globalId) (idle : ∀ t, k₀.Listed t → ¬ k₀.Waits t)
    (here : k₀.Listed s.server) (members : ∀ c ∈ s.clients, k₀.Listed c) (started : k₀.state s.server ≠ .active)
    (running : ∀ c ∈ s.clients, k₀.state c ≠ .active) (fresh : k₀.exchanges s = [])
    (run : Theory.Run (Theory.Guarded (fun k a => Allowed k a ∧ Follows s k a) Step) k₀ as k) :
    Theory.Exchange.Matched (k.exchanges s) ∧
      (∀ c, k.serving s = some c ↔ c ∈ s.clients ∧ k.state c = .recvBlocked) ∧
      (∀ c, k.serving s = some c → k.findIpcPartner s.server (k.tcbs c).globalId true = .ok (.found c)) ∧
      k.state s.server ≠ .sendBlocked ∧
      ∀ c, (k.exchanges s).count (.request c) = (k.exchanges s).count (.reply c) + (k.exchanges s).count (.refused c) +
        if k.serving s = some c then 1 else 0 := by
  have nobody : ∀ {c}, c ∈ s.clients → ¬ k₀.Waits c := fun client => idle _ (members _ client)
  have first : Serves s k₀ := by
    refine ⟨⟨.idle population locals idle, here, members, started, fun sends => idle _ here (.inl sends), fun c client sends => ?_,
      fun c client waits => ?_, fun waits => absurd (.inr waits) (idle _ here), fun u listed sends => absurd (.inl sends) (idle u listed)⟩, ?_, fun c => ?_⟩
    · exact absurd (.inl sends) (nobody client)
    · exact absurd (.inr waits) (nobody client)
    · rw [fresh]
      trivial
    · have serving : k₀.serving s = none := congrArg Theory.Exchange.serving fresh
      rw [serving]
      exact ⟨nofun, fun ⟨client, waits⟩ => absurd (.inr waits) (nobody client)⟩
  obtain ⟨v, -⟩ := run.invariant (I := fun k => Serves s k ∧ ∀ c ∈ s.clients, k.state c ≠ .active)
    (fun _ _ _ step v => step_serves v.1 v.2 step.1.1 step.1.2 step.2) ⟨first, running⟩
  exact ⟨v.matched, v.awaited, fun c serving => (v.reaches serving).2, v.busy, v.matched.count⟩

/-! ### The root thread serves two others -/

def rootService : Service := ⟨2, {1, 3}, by decide⟩

def permittedService (s : Service) (k : Kernel) (a : Action) : Option Kernel :=
  if permitted k a ∧ Follows s k a then next k a else none

theorem permittedService_sound (s : Service) (k : Kernel) (a : Action) (k' : Kernel) (h : permittedService s k a = some k') :
    Theory.Guarded (fun k a => Allowed k a ∧ Follows s k a) Step k a k' := by
  unfold permittedService at h
  split at h
  · rename_i ok
    exact ⟨⟨allowed_of_permitted ok.1, ok.2⟩, step_of_next _ _ _ h⟩
  · cases h

/-- The second thread asks first; the idle thread asks while it is served, and is served when it has its reply. -/
def twoRequests : List (Kernel → Action) :=
  [ask 2 0x4000#32 nilThread anyThread 0#32, ask 3 0x6000#32 rootId rootId 0#32, ask 1 0x3000#32 rootId rootId 0#32,
    ask 2 0x4000#32 SmallSystem.secondId anyThread 0#32]

theorem requests_answered_root : ∃ k₀ k as, SmallSystem.start = some k₀ ∧
    Theory.Run (Theory.Guarded (fun k a => Allowed k a ∧ Follows rootService k a) Step) k₀ as k ∧
    k.exchanges rootService = [.request 1, .reply 3, .request 3] ∧ k.state 1 = .recvBlocked ∧
      k.findIpcPartner 2 (k.tcbs 1).globalId true = .ok (.found 1) := by
  have done : (SmallSystem.start.any fun k₀ => populated k₀ && decide (∀ i < k₀.threadCount, ∀ j < k₀.threadCount,
        (k₀.tcbs (k₀.threadList i)).localId ≠ (k₀.tcbs (k₀.threadList j)).globalId) &&
      decide (∀ i < k₀.threadCount, ¬ k₀.Waits (k₀.threadList i)) &&
      decide ((∃ i < k₀.threadCount, k₀.threadList i = 1) ∧ (∃ i < k₀.threadCount, k₀.threadList i = 2) ∧
        ∃ i < k₀.threadCount, k₀.threadList i = 3) &&
      decide (k₀.state 1 ≠ .active ∧ k₀.state 2 ≠ .active ∧ k₀.state 3 ≠ .active) && decide (k₀.exchanges rootService = []) &&
      (Theory.follow (permittedService rootService) k₀ twoRequests).any fun k =>
        decide (k.exchanges rootService = [.request 1, .reply 3, .request 3])) = true := by
    decide +kernel
  obtain ⟨_, k₀, _, _, _, found, holds⟩ := SmallSystem.reached done
  simp only [Bool.and_eq_true, decide_eq_true_eq] at holds
  obtain ⟨⟨⟨⟨⟨⟨population, locals⟩, idle⟩, one, two, three⟩, fresh₁, fresh₂, fresh₃⟩, none⟩, later⟩ := holds
  obtain ⟨k, ran, holds⟩ := (Option.any_eq_true _ _).mp later
  have record := of_decide_eq_true holds
  obtain ⟨as, run⟩ := Theory.run_of_follow (permittedService_sound rootService) ran
  have distinct : ∀ t u, k₀.Listed t → k₀.Listed u → (k₀.tcbs t).localId ≠ (k₀.tcbs u).globalId := by
    rintro t u ⟨i, hi, rfl⟩ ⟨j, hj, rfl⟩
    exact locals i hi j hj
  have nobody : ∀ t, k₀.Listed t → ¬ k₀.Waits t := by
    rintro t ⟨i, hi, rfl⟩
    exact idle i hi
  have members : ∀ c ∈ rootService.clients, k₀.Listed c ∧ k₀.state c ≠ .active := by
    intro c client
    rcases Finset.mem_insert.mp client with rfl | client
    · exact ⟨one, fresh₁⟩
    · rw [Finset.mem_singleton.mp client]
      exact ⟨three, fresh₃⟩
  obtain ⟨-, awaited, reaches, -, -⟩ := requests_answered (s := rootService) (population_of_populated population) distinct nobody two
    (fun c client => (members c client).1) fresh₂ (fun c client => (members c client).2) none run
  have serving : k.serving rootService = some 1 := congrArg Theory.Exchange.serving record
  exact ⟨k₀, k, as, found, run, record, ((awaited 1).mp serving).2, reaches 1 serving⟩

end Ipc
end BradypOS
