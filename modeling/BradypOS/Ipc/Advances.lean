import BradypOS.Ipc.Phases

/-!
# What a step of IPC does to the send phases

One lemma for each point at which an activation can stand. A timeout may come between any two of them.
-/

namespace BradypOS

open L4

namespace Calls

open Kernel Activation

variable {k k' : Kernel} {s s' : Calls} {a : Activation} {rest : List Activation} {t u : Nat}

/-! ### The send phase -/

namespace Busy

theorem send (b : Busy k a rest) (point : a.point = .send) (h : advance k a rest = .ok s) : Books s := by
  obtain ⟨idle, wish, allowed⟩ : Idle k a rest ∧ k.recvFrom a.thread = a.src ∧ k.Destination a.dest := by
    have facts := b.facts
    rwa [Facts, point] at facts
  have before : a.point.sender = none := by rw [point]; rfl
  have begun (p : Point) (after : p.sender = none) (opens : p.opens = true)
      (facts : Facts (k.log (.sending a.thread a.dest)) (a.go p) rest) : Busy (k.log (.sending a.thread a.dest)) (a.go p) rest := by
    have table : SameTable k (k.log (.sending a.thread a.dest)) := ⟨rfl, rfl, fun _ => rfl⟩
    refine b.go p (.of_tcbs rfl rfl rfl rfl fun _ => rfl) before after (fun u other => ?_) (fun c member => ?_) ?_ facts
    · simp [Kernel.log, sendPhases, Ne.symm other]
    · rw [idle.1] at member
      cases member
    · have top := b.top
      rw [point] at top
      rw [opens]
      refine Settled.sending top table ?_
      simp [Kernel.log, sendPhases]
  unfold advance at h
  rw [point] at h
  dsimp only at h
  split at h
  · cases h
    exact b.quiet (.ended true .done) (.refl _ k) before rfl (fun _ => rfl) (by rw [point]; rfl) idle
  · rename_i named
    have named : isNilThread a.dest = false := Bool.eq_false_iff.mpr named
    obtain ⟨search, found, h⟩ := bind_ok h
    cases search with
    | found p =>
      cases h
      have waits : k.state p = .recvBlocked := isReadyPartner_waits (findIpcPartner_found found)
      refine begun (.deliver p) rfl rfl ⟨idle, b.population.named allowed named (.inl found), ?_⟩
      show k.state p ≠ .sendBlocked
      rw [waits]
      decide
    | pagerMsg p =>
      cases h
      exact begun (.start p) rfl rfl ⟨idle, b.population.named allowed named (.inr found), (findIpcPartner_pagerMsg found).2.1⟩
    | nonexistent =>
      cases h
      exact begun (.missing true) rfl rfl idle
    | notready =>
      cases h
      exact begun (.wait true) rfl rfl ⟨idle, wish, allowed.resolve_left (by rw [named]; exact Bool.false_ne_true)⟩

theorem deliver {p : Nat} (b : Busy k a rest) (point : a.point = .deliver p) (h : advance k a rest = .ok s) : Books s := by
  obtain ⟨idle, ⟨listed, name⟩, other⟩ : Idle k a rest ∧ Named k a p ∧ k.state p ≠ .sendBlocked := by
    have facts := b.facts
    rwa [Facts, point] at facts
  have before : a.point.sender = none := by rw [point]; rfl
  unfold advance at h
  rw [point] at h
  dsimp only at h
  obtain ⟨⟨ret, k₁⟩, copied, h⟩ := bind_ok h
  have tcbs := copied_state copied
  have trace := copied_trace copied
  have sp (H : Nat → Prop) := Spares.copied H copied
  have still : k₁.state p ≠ .sendBlocked := by
    unfold Kernel.state
    rw [tcbs]
    exact other
  dsimp only at h
  split at h
  · rename_i none
    rw [if_pos none] at trace
    cases h
    refine b.closes (.wake true p .done) (sp _) idle.1 before rfl (e := .copied a.thread p) rfl (fun u => by rw [trace]) (by rw [point]; rfl) rfl
      (.inl ⟨p, listed, name, .inl rfl⟩) ⟨idle_of tcbs idle, still, by decide⟩
  · rename_i failed
    rw [if_neg failed] at trace
    cases h
    have table := (sp fun _ => False).toSameTable
    refine b.quiet (.unsent p ret) (sp _) before rfl (fun u => by rw [trace]) (by rw [point]; rfl) ⟨idle_of tcbs idle, ⟨?_, ?_⟩, still⟩
    · exact (table.listed p).mpr listed
    · rw [table.globalId]
      exact name

/-- The errors of the two threads. -/
theorem unsent {p : Nat} {err : IpcErrorCode} (b : Busy k a rest) (point : a.point = .unsent p err) (h : advance k a rest = .ok s) :
    Books s := by
  obtain ⟨idle, -, other⟩ : Idle k a rest ∧ Named k a p ∧ k.state p ≠ .sendBlocked := by
    have facts := b.facts
    rwa [Facts, point] at facts
  have before : a.point.sender = none := by rw [point]; rfl
  unfold advance at h
  rw [point] at h
  obtain rfl := Except.ok.inj h
  change Busy ((((k.reportError a.thread false err).reportError p true err).setIpcError a.thread).setIpcError p) (a.go (.wake true p .error)) rest
  generalize made : (((k.reportError a.thread false err).reportError p true err).setIpcError a.thread).setIpcError p = k₁
  have tcbs : k₁.tcbs = k.tcbs := by rw [← made, setIpcError_tcbs, setIpcError_tcbs, reportError_tcbs, reportError_tcbs]
  have trace : k₁.trace = .failed p true err :: .failed a.thread false err :: k.trace := by
    rw [← made]
    rfl
  have sp : Spares (fun u => u = a.thread) k k₁ := by
    refine .of_released (made ▸ ((((Released.refl k).reportError _ _ _).reportError _ _ _).setIpcError _).setIpcError _) fun u _ sends => ?_
    unfold Kernel.state
    rw [tcbs]
    exact sends
  have still : k₁.state p ≠ .sendBlocked := by
    unfold Kernel.state
    rw [tcbs]
    exact other
  refine b.closes (.wake true p .error) sp idle.1 before rfl (e := .failed a.thread false err) rfl (fun u => ?_) (by rw [point]; rfl) rfl
    (.inr ⟨err, rfl⟩) ⟨idle_of tcbs idle, still, by decide⟩
  rw [trace]
  exact sendPhases_quiet rfl u _

theorem start {p : Nat} (b : Busy k a rest) (point : a.point = .start p) (h : advance k a rest = .ok s) : Books s := by
  obtain ⟨idle, ⟨listed, name⟩, fresh⟩ : Idle k a rest ∧ Named k a p ∧ k.state p = .active := by
    have facts := b.facts
    rwa [Facts, point] at facts
  have before : a.point.sender = none := by rw [point]; rfl
  have opened : a.point.opens = true := by rw [point]; rfl
  unfold advance at h
  rw [point] at h
  dsimp only at h
  split at h
  · cases h
    have fresh_ : ¬ k.Waits p := by
      unfold Waits
      rw [fresh]
      decide
    have states : ∀ u, k.state u = .sendBlocked ↔ (k.pagerStartThread a.thread p).state u = .sendBlocked := by
      intro u
      obtain ⟨ctx, same, -⟩ := startContext_tcbs (k := k) a.thread p u
      have kept : (k.startContext a.thread p).state u = k.state u := by
        unfold Kernel.state
        rw [same]
      show _ ↔ (Kernel.setThreadState _ p .runnable).state u = .sendBlocked
      rw [state_setThreadState]
      split
      · rename_i here
        rw [here, fresh]
        exact iff_of_false (by decide) (by decide)
      · rw [kept]
    have sp : Spares (fun u => u = a.thread) k (k.pagerStartThread a.thread p) :=
      .of_released ((Released.refl k).start a.thread fresh_) fun u _ => (states u).mp
    refine b.closes (.ended true .done) sp idle.1 before rfl (e := .started a.thread p) rfl (fun u => ?_) opened rfl
      (.inl ⟨p, listed, name, .inr rfl⟩) ⟨idle.1, fun sends => idle.2 ((states a.thread).mpr sends)⟩
    have moved := sendPhases_setThreadState (k.startContext a.thread p) p u .runnable
    have started : (Event.started a.thread p).endsSend = some a.thread := rfl
    show sendPhases u (.started a.thread p :: (Kernel.setThreadState _ p .runnable).trace) = _
    by_cases here : u = a.thread
    · rw [here] at moved ⊢
      rw [sendPhases_ends started, sendPhases_ends started, moved]
      rfl
    · rw [sendPhases_other started here, sendPhases_other started here, moved]
      rfl
  · obtain ⟨⟨ret, k₁⟩, copied, h⟩ := bind_ok h
    have tcbs := copied_state copied
    have trace := copied_trace copied
    have sp (H : Nat → Prop) := Spares.copied H copied
    dsimp only at h
    split at h
    · rename_i none
      rw [if_pos none] at trace
      cases h
      exact b.closes (.ended true .done) (sp _) idle.1 before rfl (e := .copied a.thread p) rfl (fun u => by rw [trace]) opened rfl
        (.inl ⟨p, listed, name, .inl rfl⟩) (idle_of tcbs idle)
    · rename_i failed
      rw [if_neg failed] at trace
      cases h
      exact b.quiet (.pagerUnsent ret) (sp _) before rfl (fun u => by rw [trace]) opened.symm (idle_of tcbs idle)

/-- An error that the caller alone is told of. -/
theorem told {err : IpcErrorCode} (b : Busy k a rest) (idle : Idle k a rest) (before : a.point.sender = none) (opened : a.point.opens = true)
    (same : k'.tcbs = k.tcbs ∧ k'.threadCount = k.threadCount ∧ k'.threadList = k.threadList ∧ k'.asPool = k.asPool)
    (frame : ∀ sp, (k'.mem.frame sp).r1 = (k.mem.frame sp).r1) (trace : k'.trace = .failed a.thread false err :: k.trace) :
    Busy k' (a.go (.ended true .error)) rest :=
  b.closes (.ended true .error) (.of_tcbs same.1 same.2.1 same.2.2.1 same.2.2.2 frame) idle.1 before rfl (e := .failed a.thread false err) rfl
    (fun u => by rw [trace]) opened rfl (.inr ⟨err, rfl⟩) (idle_of same.1 idle)

/-! ### Both phases -/

theorem missing {sending : Bool} (b : Busy k a rest) (point : a.point = .missing sending) (h : advance k a rest = .ok s) : Books s := by
  have facts := b.facts
  have before : a.point.sender = none := by rw [point]; rfl
  unfold advance at h
  rw [point] at h
  cases h
  cases sending with
  | true =>
    rw [Facts, point] at facts
    exact b.told facts before (by rw [point]; rfl) ⟨rfl, rfl, rfl, rfl⟩ (fun _ => rfl) rfl
  | false =>
    exact b.quiet (.ended false .error) (.of_tcbs rfl rfl rfl rfl fun _ => rfl) before rfl (fun u => sendPhases_quiet rfl u _)
      (by rw [point]; rfl) trivial

theorem abort {sending : Bool} (b : Busy k a rest) (point : a.point = .abort sending) (h : advance k a rest = .ok s) : Books s := by
  have facts := b.facts
  have before : a.point.sender = none := by rw [point]; rfl
  unfold advance at h
  rw [point] at h
  cases h
  cases sending with
  | true =>
    rw [Facts, point] at facts
    exact b.told facts before (by rw [point]; rfl) ⟨rfl, rfl, rfl, rfl⟩ (fun _ => rfl) rfl
  | false =>
    exact b.quiet (.ended false .error) (.of_tcbs rfl rfl rfl rfl fun _ => rfl) before rfl (fun u => sendPhases_quiet rfl u _)
      (by rw [point]; rfl) trivial

theorem wait {sending : Bool} (b : Busy k a rest) (point : a.point = .wait sending) (h : advance k a rest = .ok s) : Books s := by
  have facts := b.facts
  have before : a.point.sender = none := by rw [point]; rfl
  unfold advance at h
  rw [point] at h
  obtain ⟨⟨blocks, k₁⟩, armed, h⟩ := bind_ok h
  cases h
  have same : ∀ u, sendPhases u k₁.trace = sendPhases u k.trace := fun u => sendPhases_setThreadTimeout armed
  cases blocks with
  | false =>
    have unchanged : k₁ = k := by
      rcases setThreadTimeout_cases armed with ⟨-, other, -⟩ | ⟨-, -, -, rfl⟩ | ⟨-, -, -, other, -⟩
      · cases other
      · rfl
      · cases other
    subst unchanged
    cases sending with
    | true =>
      rw [Facts, point] at facts
      exact b.quiet (.abort true) (.refl _ k₁) before rfl (fun _ => rfl) (by rw [point]; rfl) facts.1
    | false => exact b.quiet (.abort false) (.refl _ k₁) before rfl (fun _ => rfl) (by rw [point]; rfl) trivial
  | true =>
    obtain ⟨⟨st, tcbs⟩, threadCount, threadList, mem⟩ := setThreadTimeout_frame armed
    have sp : Spares (fun u => u = a.thread) k k₁ := .of_update (w := (k.tcbs a.thread).ipcFrom) tcbs threadCount threadList mem
    cases sending with
    | false => exact b.quiet (.mark false) sp before rfl same (by rw [point]; rfl) trivial
    | true =>
      rw [Facts, point] at facts
      obtain ⟨idle, wish, d, listed, name⟩ := facts
      refine b.quiet (.mark true) sp before rfl same (by rw [point]; rfl) ⟨idle.1, ?_, d, (sp.listed d).mpr listed, ?_⟩
      · have ctx : (k₁.tcbs a.thread).ctx = (k.tcbs a.thread).ctx := by rw [tcbs, Function.update_self]
        show k₁.recvFrom a.thread = a.src
        rw [← wish]
        unfold recvFrom
        rw [ctx, mem]
      · rw [sp.globalId]
        exact name

theorem mark {sending : Bool} (b : Busy k a rest) (point : a.point = .mark sending) (h : advance k a rest = .ok s) : Books s := by
  have facts := b.facts
  have before : a.point.sender = none := by rw [point]; rfl
  unfold advance at h
  rw [point] at h
  cases h
  have sp : Spares (fun u => u = a.thread) k (k.setTcb a.thread fun tcb => { tcb with ipcFrom := a.partner sending }) :=
    @Spares.of_update k _ a.thread (k.state a.thread) (a.partner sending) rfl rfl rfl rfl
  cases sending with
  | false => exact b.quiet (.ended false .wait) sp before rfl (fun _ => rfl) (by rw [point]; rfl) trivial
  | true =>
    rw [Facts, point] at facts
    obtain ⟨alone, wish, d, listed, name⟩ := facts
    refine b.quiet (.ended true .wait) sp before rfl (fun _ => rfl) (by rw [point]; rfl) ⟨alone, ⟨?_, d, (sp.listed d).mpr listed, ?_⟩, ?_⟩
    · show Kernel.recvFrom _ a.thread = a.src
      rw [← wish]
      unfold recvFrom
      rw [setTcb_same]
      rfl
    · rw [sp.globalId]
      exact name
    · show (Kernel.tcbs _ a.thread).ipcFrom = a.dest
      rw [setTcb_same]
      rfl

theorem ended {sending : Bool} {result : PhaseResult} (b : Busy k a rest) (point : a.point = .ended sending result)
    (h : advance k a rest = .ok s) : Books s := by
  have facts := b.facts
  rw [Facts, point] at facts
  have before : a.point.sender = none := by rw [point]; rfl
  have told : Spares (fun u => u = a.thread) k (k.setIpcError a.thread) := .of_tcbs rfl rfl rfl rfl fun _ => rfl
  unfold advance at h
  rw [point] at h
  cases sending with
  | true =>
    cases result with
    | done =>
      cases h
      refine b.quiet .receive (.refl _ k) before rfl (fun _ => rfl) (by rw [point]; rfl) ?_
      obtain ⟨rfl, idle⟩ : Idle k a rest := facts
      exact idle
    | error =>
      cases h
      exact b.quiet (.finish .runnable) told before rfl (fun _ => rfl) (by rw [point]; rfl) trivial
    | wait =>
      cases h
      exact b.quiet (.finish .sendBlocked) (.refl _ k) before rfl (fun _ => rfl) (by rw [point]; rfl) facts
  | false =>
    cases result with
    | done =>
      cases h
      exact b.quiet (.finish .runnable) (.refl _ k) before rfl (fun _ => rfl) (by rw [point]; rfl) trivial
    | error =>
      cases h
      exact b.quiet (.finish .runnable) told before rfl (fun _ => rfl) (by rw [point]; rfl) trivial
    | wait =>
      cases h
      exact b.quiet (.finish .recvBlocked) (.refl _ k) before rfl (fun _ => rfl) (by rw [point]; rfl) trivial

/-! ### The receive phase -/

/-- A step with a sender in hand, which is not on the stack. -/
theorem held {x : Nat} (b : Busy k a rest) (p : Point) (sp : Spares (fun _ => False) k k') (before : a.point.sender = some x)
    (after : p.sender = some x) (apart : x ∉ threads (a :: rest)) (same : ∀ u, u ≠ x → sendPhases u k'.trace = sendPhases u k.trace)
    (found : Phases k' x (if p.holds then some (k'.tcbs x).ipcFrom else none)) (was : a.point.opens = false) (opens : p.opens = false)
    (facts : Facts k' (a.go p) rest) : Busy k' (a.go p) rest where
  toOutside := by
    have hands : inHand (a.go p :: rest) = inHand (a :: rest) := by
      show p.sender.toList ++ _ = a.point.sender.toList ++ _
      rw [after, before]
      rfl
    rw [hands]
    refine b.toOutside.spares sp (fun u out _ => ⟨out, id⟩) fun u hu out => ?_
    have other : u ≠ x := by
      intro here
      refine out (List.mem_append_left _ ?_)
      rw [before, here]
      exact List.mem_cons_self
    exact b.toOutside.phase sp hu out id (same u other)
  here c member := by
    rw [sp.toSameTable.listed, sp.toSameTable.source]
    rcases List.mem_cons.mp member with rfl | member
    · exact b.here a List.mem_cons_self
    · exact b.here c (List.mem_cons_of_mem a member)
  below c member := by
    have other : c.thread ≠ x := fun here => apart (here ▸ List.mem_cons_of_mem _ (List.mem_map_of_mem member))
    have settled : Phases k' c.thread none := Phases.keep (d := none) (b.below c member).2 sp.toSameTable (same _ other)
    exact ⟨(b.below c member).1, settled⟩
  top := by
    have other : a.thread ≠ x := fun here => apart (here ▸ List.mem_cons_self)
    have top := b.top
    rw [was] at top
    show Phases k' a.thread (if p.opens then some a.dest else none)
    rw [opens]
    exact top.keep sp.toSameTable (same _ other)
  found y sends := by
    obtain rfl : x = y := Option.some.inj (after.symm.trans sends)
    exact ⟨(sp.listed x).mpr (b.found x before).1, found⟩
  facts := facts

theorem partner {x : Nat} (b : Busy k a rest) (point : a.point = .receive) (named : isNilThread a.src = false)
    (found : k.findIpcPartner a.thread a.src false = .ok (.found x)) :
    k.Listed x ∧ k.state x = .sendBlocked ∧ (k.tcbs x).ipcFrom = (k.tcbs a.thread).globalId := by
  have links : Links k (threads (a :: rest)) := by
    have facts := b.facts
    rwa [Facts, point] at facts
  obtain ⟨ht, source⟩ := b.here a List.mem_cons_self
  obtain ⟨hx, -⟩ := b.population.found_listed source named found
  have ready := findIpcPartner_found found
  have sends : k.state x = .sendBlocked := isReadyPartner_waits ready
  have names : ∃ d, k.Listed d ∧ (k.tcbs x).ipcFrom = (k.tcbs d).globalId := by
    by_cases stacked : x ∈ threads (a :: rest)
    · obtain ⟨d, -, hd, name⟩ := Links.next links stacked sends
      exact ⟨d, hd, name⟩
    · exact b.names x hx stacked sends
  obtain ⟨d, hd, name⟩ := names
  obtain ⟨notAny, notLocal, -⟩ := b.population.ordinary d hd
  have viable : k.isViableIpcPartner a.thread x = true := (Bool.and_eq_true_iff.mp ready).2
  simp only [isViableIpcPartner, Bool.or_eq_true, Bool.and_eq_true, decide_eq_true_eq] at viable
  refine ⟨hx, sends, ?_⟩
  rcases viable with ((any | ⟨anyLocal, -⟩) | same) | byLocal
  · exact absurd (name.symm.trans any) notAny
  · exact absurd (name.symm.trans anyLocal) notLocal
  · exact same
  · rw [b.locals a.thread d ht hd (byLocal.symm.trans name)]
    exact name

theorem receive (b : Busy k a rest) (point : a.point = .receive) (h : advance k a rest = .ok s) : Books s := by
  have links : Links k (threads (a :: rest)) := by
    have facts := b.facts
    rwa [Facts, point] at facts
  have before : a.point.sender = none := by rw [point]; rfl
  have goes (p : Point) (after : p.sender = none) (opens : p.opens = false) (facts : Facts k (a.go p) rest) : Busy k (a.go p) rest :=
    b.quiet p (.refl _ k) before after (fun _ => rfl) (by rw [point, opens]; rfl) facts
  unfold advance at h
  rw [point] at h
  dsimp only at h
  split at h
  · cases h
    exact goes (.ended false .done) rfl rfl trivial
  · rename_i named
    have named : isNilThread a.src = false := Bool.eq_false_iff.mpr named
    obtain ⟨search, found, h⟩ := bind_ok h
    cases search with
    | pagerMsg p => cases h
    | nonexistent =>
      cases h
      exact goes (.missing false) rfl rfl trivial
    | notready =>
      cases h
      exact goes (.wait false) rfl rfl trivial
    | found x =>
      cases h
      obtain ⟨hx, sends, name⟩ := b.partner point named found
      obtain ⟨ht, -⟩ := b.here a List.mem_cons_self
      have fresh : x ∉ threads (a :: rest) := Links.fresh b.population links ht sends name
      have phases : Phases k x (owes k x) := b.phases x hx (by rw [inHand_none before]; exact fresh)
      rw [owes, if_pos sends] at phases
      refine ⟨?_, fun c member => ?_, b.below, ?_, fun y found => ?_, fresh, hx, sends, name, ht, links⟩
      · refine b.toOutside.spares (.refl (fun _ => False) k) (fun u out _ => ⟨out, id⟩) fun u hu out => ?_
        exact b.phases u hu (by rw [inHand_none before]; exact fun member => out (List.mem_cons_of_mem x member))
      · rcases List.mem_cons.mp member with rfl | member
        · exact b.here a List.mem_cons_self
        · exact b.here c (List.mem_cons_of_mem a member)
      · have top := b.top
        rw [point] at top
        exact top
      · obtain rfl : x = y := Option.some.inj found
        exact ⟨hx, phases⟩

theorem take {x : Nat} (b : Busy k a rest) (point : a.point = .take x) (h : advance k a rest = .ok s) : Books s := by
  have links : Links k (x :: threads (a :: rest)) := by
    have facts := b.facts
    rwa [Facts, point] at facts
  have before : a.point.sender = some x := by rw [point]; rfl
  obtain ⟨hx, phases⟩ := b.found x before
  rw [point] at phases
  obtain ⟨ht, -⟩ := b.here a List.mem_cons_self
  have apart := links.1
  have name := links.2.2.2.1
  unfold advance at h
  rw [point] at h
  obtain ⟨⟨ret, k₁⟩, copied, h⟩ := bind_ok h
  have tcbs := copied_state copied
  have trace := copied_trace copied
  have sp (H : Nat → Prop) := Spares.copied H copied
  have table := (sp fun _ => False).toSameTable
  have kept : Links k₁ (x :: threads (a :: rest)) := by
    have state : ∀ y, k₁.state y = k.state y := fun y => by unfold Kernel.state; rw [tcbs]
    exact links.keep table (fun y sends => state y ▸ sends) fun y _ sends => ⟨(state y).trans sends, by rw [tcbs]⟩
  have copiedEnds : (Event.copied x a.thread).endsSend = some x := rfl
  dsimp only at h
  split at h
  · rename_i none
    rw [if_pos none] at trace
    cases h
    refine b.held (.serve x) (sp _) before rfl apart (fun u other => ?_) ?_ (by rw [point]; rfl) rfl kept
    · rw [trace]
      exact sendPhases_other copiedEnds other _
    · refine Open.close phases table ?_ (.inl ⟨a.thread, ht, name, .inl rfl⟩)
      rw [trace]
      exact sendPhases_ends copiedEnds _
  · rename_i failed
    rw [if_neg failed] at trace
    cases h
    refine b.held (.reject x) (sp _) before rfl apart (fun u _ => by rw [trace]) ?_ (by rw [point]; rfl) rfl kept
    show Phases k₁ x (some (k₁.tcbs x).ipcFrom)
    rw [tcbs]
    exact phases.keep table (by rw [trace])

theorem reject {x : Nat} (b : Busy k a rest) (point : a.point = .reject x) (h : advance k a rest = .ok s) : Books s := by
  have links : Links k (x :: threads (a :: rest)) := by
    have facts := b.facts
    rwa [Facts, point] at facts
  have before : a.point.sender = some x := by rw [point]; rfl
  obtain ⟨hx, phases⟩ := b.found x before
  rw [point] at phases
  have apart := links.1
  unfold advance at h
  rw [point] at h
  obtain rfl := Except.ok.inj h
  change Busy ((((k.reportError a.thread true .messageOverflow).reportError x false .messageOverflow).setIpcError a.thread).setIpcError x)
    (a.go (.wake false x .error)) rest
  generalize made : (((k.reportError a.thread true .messageOverflow).reportError x false .messageOverflow).setIpcError a.thread).setIpcError x = k₁
  have tcbs : k₁.tcbs = k.tcbs := by rw [← made, setIpcError_tcbs, setIpcError_tcbs, reportError_tcbs, reportError_tcbs]
  have trace : k₁.trace = .failed x false .messageOverflow :: .failed a.thread true .messageOverflow :: k.trace := by
    rw [← made]
    rfl
  have state : ∀ y, k₁.state y = k.state y := fun y => by unfold Kernel.state; rw [tcbs]
  have sp : Spares (fun _ => False) k k₁ :=
    .of_released (made ▸ ((((Released.refl k).reportError _ _ _).reportError _ _ _).setIpcError _).setIpcError _)
      fun u _ sends => (state u).trans sends
  have failedEnds : (Event.failed x false .messageOverflow).endsSend = some x := rfl
  have toldReceiver : ∀ u, sendPhases u (.failed a.thread true .messageOverflow :: k.trace) = sendPhases u k.trace :=
    fun u => sendPhases_quiet rfl u _
  have kept : Links k₁ (x :: threads (a :: rest)) :=
    links.keep sp.toSameTable (fun y sends => state y ▸ sends) fun y _ sends => ⟨(state y).trans sends, by rw [tcbs]⟩
  refine b.held (.wake false x .error) sp before rfl apart (fun u other => ?_) ?_ (by rw [point]; rfl) rfl kept
  · rw [trace, sendPhases_other failedEnds other, toldReceiver]
  · refine Open.close phases sp.toSameTable ?_ (.inr ⟨.messageOverflow, rfl⟩)
    rw [trace, sendPhases_ends failedEnds, toldReceiver]

/-- The receive phase of the sender that was served. -/
theorem serve {x : Nat} (b : Busy k a rest) (point : a.point = .serve x) (h : advance k a rest = .ok s) : Books s := by
  have links : Links k (x :: threads (a :: rest)) := by
    have facts := b.facts
    rwa [Facts, point] at facts
  have before : a.point.sender = some x := by rw [point]; rfl
  obtain ⟨hx, phases⟩ := b.found x before
  rw [point] at phases
  have top := b.top
  rw [point] at top
  unfold advance at h
  rw [point] at h
  cases h
  have hands : inHand (a :: rest) = x :: threads (a :: rest) := by
    show a.point.sender.toList ++ _ = _
    rw [before]
    rfl
  refine ⟨?_, fun c member => ?_, fun c member => ?_, phases, fun x none => (by cases none), links⟩
  · refine b.toOutside.spares (.refl (fun _ => False) k) (fun u out _ => ?_) fun u hu out => ?_
    · exact ⟨fun member => out (List.mem_cons_of_mem x member), id⟩
    · refine b.phases u hu ?_
      rw [hands]
      exact out
  · rcases List.mem_cons.mp member with rfl | member
    · exact ⟨hx, b.wants x hx links.1 links.2.2.1⟩
    · rcases List.mem_cons.mp member with rfl | member
      · exact b.here a List.mem_cons_self
      · exact b.here c (List.mem_cons_of_mem a member)
  · rcases List.mem_cons.mp member with rfl | member
    · exact ⟨rfl, top⟩
    · exact b.below c member

theorem wake {sending : Bool} {x : Nat} {result : PhaseResult} (b : Busy k a rest) (point : a.point = .wake sending x result)
    (h : advance k a rest = .ok s) : Books s := by
  have facts := b.facts
  rw [Facts, point] at facts
  have same : ∀ u, sendPhases u (k.setThreadState x .runnable).trace = sendPhases u k.trace :=
    fun u => sendPhases_setThreadState k x u .runnable
  unfold advance at h
  rw [point] at h
  cases h
  cases sending with
  | true =>
    obtain ⟨idle, other, ends⟩ := facts
    have sp : Spares (fun _ => False) k (k.setThreadState x .runnable) := .wake _ k other
    have idle' : Idle (k.setThreadState x .runnable) a rest := ⟨idle.1, fun sends => idle.2 ((sp.sends _ id).mp sends)⟩
    have opens : (Point.ended true result).opens = a.point.opens := by
      rw [point]
      cases result with
      | done => rfl
      | error => rfl
      | wait => exact absurd rfl ends
    refine b.quiet (.ended true result) (.wake _ k other) (by rw [point]; rfl) rfl same opens ?_
    cases result with
    | done => exact idle'
    | error => exact idle'
    | wait => exact absurd rfl ends
  | false =>
    have before : a.point.sender = some x := by rw [point]; rfl
    have hands : inHand (a :: rest) = x :: threads (a :: rest) := by
      show a.point.sender.toList ++ _ = _
      rw [before]
      rfl
    obtain ⟨hx, phases⟩ := b.found x before
    rw [point] at phases
    have top := b.top
    rw [point] at top
    have runs : (k.setThreadState x .runnable).state x = .runnable := by rw [state_setThreadState, if_pos rfl]
    have sp : Spares (fun u => u = x) k (k.setThreadState x .runnable) := by
      refine .of_released ((Released.refl k).wake x) fun u other sends => ?_
      rw [state_setThreadState, if_neg other]
      exact sends
    refine ⟨?_, fun c member => ?_, fun c member => ⟨(b.below c member).1, ?_⟩, top.keep sp.toSameTable (same _), fun x none => (by cases none), trivial⟩
    · refine b.toOutside.spares sp (fun u out sends => ⟨out, fun here => ?_⟩) fun u hu out => ?_
      · rw [here, runs] at sends
        cases sends
      · by_cases here : u = x
        · subst here
          rw [owes, runs]
          exact phases.keep sp.toSameTable (same u)
        · refine b.toOutside.phase sp hu ?_ here (same u)
          rw [hands]
          exact List.not_mem_cons_of_ne_of_not_mem here out
    · rw [sp.toSameTable.listed, sp.toSameTable.source]
      rcases List.mem_cons.mp member with rfl | member
      · exact b.here a List.mem_cons_self
      · exact b.here c (List.mem_cons_of_mem a member)
    · exact Phases.keep (d := none) (b.below c member).2 sp.toSameTable (same _)

/-! ### The end of an activation -/

theorem finish {st : ThreadState} (b : Busy k a rest) (point : a.point = .finish st) (h : advance k a rest = .ok s) : Books s := by
  have before : a.point.sender = none := by rw [point]; rfl
  unfold advance at h
  rw [point] at h
  cases h
  have moved : (k.moveSchedule a.thread st).tcbs = k.tcbs ∧ (k.moveSchedule a.thread st).threadCount = k.threadCount ∧
      (k.moveSchedule a.thread st).threadList = k.threadList ∧ (k.moveSchedule a.thread st).asPool = k.asPool ∧
      (k.moveSchedule a.thread st).mem = k.mem := by
    unfold moveSchedule
    split
    · exact ⟨rfl, rfl, rfl, rfl, rfl⟩
    · split
      · unfold scheduleRemove
        split
        · exact ⟨rfl, rfl, rfl, rfl, rfl⟩
        · exact ⟨rfl, rfl, rfl, rfl, rfl⟩
      · exact ⟨rfl, rfl, rfl, rfl, rfl⟩
  have same : ∀ u, sendPhases u (k.moveSchedule a.thread st).trace = sendPhases u k.trace := fun u => sendPhases_moveSchedule k a.thread u st
  generalize k.moveSchedule a.thread st = k₁ at moved same
  obtain ⟨tcbs, threadCount, threadList, asPool, mem⟩ := moved
  have sp : Spares (fun u => u = a.thread) k k₁ := .of_tcbs tcbs threadCount threadList asPool fun sp => by rw [mem]
  have facts := b.facts
  rw [Facts, point] at facts
  refine b.quiet (.store st) sp before rfl same ?_ ?_
  · rw [point]
    cases st with
    | sendBlocked => rfl
    | inactive | active | runnable | svcBlocked | recvBlocked | paused => rfl
  · cases st with
    | inactive | active | runnable | svcBlocked | recvBlocked | paused => trivial
    | sendBlocked =>
      obtain ⟨alone, ⟨wish, d, listed, name⟩, dest⟩ := facts
      refine ⟨alone, ⟨?_, d, (sp.listed d).mpr listed, ?_⟩, ?_⟩
      · show k₁.recvFrom a.thread = a.src
        rw [← wish]
        unfold recvFrom
        rw [tcbs, mem]
      · rw [sp.globalId]
        exact name
      · rw [tcbs]
        exact dest

theorem store {st : ThreadState} (b : Busy k a rest) (point : a.point = .store st) (h : advance k a rest = .ok s) : Books s := by
  have before : a.point.sender = none := by rw [point]; rfl
  have hands : inHand (a :: rest) = threads (a :: rest) := inHand_none before
  obtain ⟨ht, source⟩ := b.here a List.mem_cons_self
  have facts := b.facts
  rw [Facts, point] at facts
  have top := b.top
  rw [point] at top
  unfold advance at h
  rw [point] at h
  obtain rfl := Except.ok.inj h
  change Books ⟨(k.setTcb a.thread fun tcb => { tcb with state := st }).log (.stateSet a.thread st), rest⟩
  have here : ((k.setTcb a.thread fun tcb => { tcb with state := st }).log (.stateSet a.thread st)).state a.thread = st := by
    show (Kernel.tcbs _ a.thread).state = st
    rw [show ((k.setTcb a.thread fun tcb => { tcb with state := st }).log (.stateSet a.thread st)).tcbs =
      (k.setTcb a.thread fun tcb => { tcb with state := st }).tcbs from rfl, setTcb_same]
  have kept : ((k.setTcb a.thread fun tcb => { tcb with state := st }).log (.stateSet a.thread st)).recvFrom a.thread = k.recvFrom a.thread ∧
      (((k.setTcb a.thread fun tcb => { tcb with state := st }).log (.stateSet a.thread st)).tcbs a.thread).ipcFrom =
        (k.tcbs a.thread).ipcFrom := by
    rw [show ((k.setTcb a.thread fun tcb => { tcb with state := st }).log (.stateSet a.thread st)).tcbs =
      (k.setTcb a.thread fun tcb => { tcb with state := st }).tcbs from rfl, setTcb_same]
    refine ⟨?_, rfl⟩
    unfold recvFrom
    rw [show ((k.setTcb a.thread fun tcb => { tcb with state := st }).log (.stateSet a.thread st)).tcbs =
      (k.setTcb a.thread fun tcb => { tcb with state := st }).tcbs from rfl, setTcb_same]
    rfl
  have sp : Spares (fun u => u = a.thread) k ((k.setTcb a.thread fun tcb => { tcb with state := st }).log (.stateSet a.thread st)) :=
    .of_update (w := (k.tcbs a.thread).ipcFrom) rfl rfl rfl rfl
  have same : ∀ u, sendPhases u ((k.setTcb a.thread fun tcb => { tcb with state := st }).log (.stateSet a.thread st)).trace =
      sendPhases u k.trace := fun u => sendPhases_quiet rfl u _
  generalize (k.setTcb a.thread fun tcb => { tcb with state := st }).log (.stateSet a.thread st) = k₁ at here kept sp same
  have others : ∀ u, k.Listed u → u ∉ threads rest → u ≠ a.thread → Phases k₁ u (owes k₁ u) := by
    intro u hu out other
    refine b.toOutside.phase sp hu ?_ other (same u)
    rw [hands]
    exact List.not_mem_cons_of_ne_of_not_mem other out
  by_cases sends : st = .sendBlocked
  · subst sends
    obtain ⟨rfl, ⟨wish, d, listed, name⟩, dest⟩ := facts
    have named : (k₁.tcbs a.thread).ipcFrom = (k.tcbs d).globalId := (kept.2.trans dest).trans name
    refine ⟨b.population.transfer sp.toSameTable, sp.locals b.locals, ?_, ?_, ?_⟩
    · intro u hu _ sends
      by_cases same : u = a.thread
      · rw [same, named]
        exact ⟨d, (sp.listed d).mpr listed, (sp.globalId d).symm⟩
      · have sends := (sp.sends u same).mp sends
        obtain ⟨e, he, other⟩ := b.names u ((sp.listed u).mp hu) (List.not_mem_cons_of_ne_of_not_mem same List.not_mem_nil) sends
        exact ⟨e, (sp.listed e).mpr he, by rw [sp.ipcFrom u same sends, sp.globalId]; exact other⟩
    · intro u hu _ sends
      rw [sp.toSameTable.source]
      by_cases same : u = a.thread
      · rw [same, kept.1, wish]
        exact source
      · have sends := (sp.sends u same).mp sends
        rw [sp.wishes u same sends]
        exact b.wants u ((sp.listed u).mp hu) (List.not_mem_cons_of_ne_of_not_mem same List.not_mem_nil) sends
    · intro u hu _
      by_cases here' : u = a.thread
      · rw [here', owes, if_pos here, kept.2, dest]
        exact top.keep sp.toSameTable (same _)
      · exact others u ((sp.listed u).mp hu) List.not_mem_nil here'
  · have settled : Phases k₁ a.thread none := by
      have closed : (Point.store st).opens = false := by
        cases st with
        | sendBlocked => exact absurd rfl sends
        | inactive | active | runnable | svcBlocked | recvBlocked | paused => rfl
      rw [closed] at top
      exact top.keep sp.toSameTable (same _)
    have outside : Outside k₁ (threads rest) (threads rest) := by
      refine b.toOutside.spares sp (fun u out waits => ?_) fun u hu out => ?_
      · have other : u ≠ a.thread := by
          rintro rfl
          exact sends (here.symm.trans waits)
        exact ⟨List.not_mem_cons_of_ne_of_not_mem other out, other⟩
      · by_cases here' : u = a.thread
        · rw [here', owes, here, if_neg sends]
          exact settled
        · exact others u hu out here'
    cases rest with
    | nil => exact outside
    | cons c rest =>
      obtain ⟨at_, phases⟩ := b.below c List.mem_cons_self
      have hands : inHand (c :: rest) = threads (c :: rest) := inHand_none (by rw [at_]; rfl)
      have facts : Facts k₁ c rest := by
        rw [Facts, at_]
        trivial
      refine ⟨by rw [hands]; exact outside, fun d member => ?_, fun d member => ?_, ?_, fun x found => ?_, facts⟩
      · rw [sp.toSameTable.listed, sp.toSameTable.source]
        exact b.here d (List.mem_cons_of_mem a member)
      · obtain ⟨point, phases⟩ := b.below d (List.mem_cons_of_mem c member)
        exact ⟨point, Phases.keep (d := none) phases sp.toSameTable (same _)⟩
      · rw [at_]
        exact Phases.keep (d := none) phases sp.toSameTable (same _)
      · rw [at_] at found
        cases found

theorem advance (b : Busy k a rest) (h : Calls.advance k a rest = .ok s) : Books s := by
  cases point : a.point with
  | send => exact b.send point h
  | deliver p => exact b.deliver point h
  | unsent p err => exact b.unsent point h
  | start p => exact b.start point h
  | pagerUnsent err =>
    have idle : Idle k a rest := by
      have facts := b.facts
      rwa [Facts, point] at facts
    unfold Calls.advance at h
    rw [point] at h
    cases h
    exact b.told idle (by rw [point]; rfl) (by rw [point]; rfl) ⟨rfl, rfl, rfl, rfl⟩ (fun _ => rfl) rfl
  | receive => exact b.receive point h
  | take x => exact b.take point h
  | reject x => exact b.reject point h
  | serve x => exact b.serve point h
  | wake sending x result => exact b.wake point h
  | missing sending => exact b.missing point h
  | wait sending => exact b.wait point h
  | abort sending => exact b.abort point h
  | mark sending => exact b.mark point h
  | ended sending result => exact b.ended point h
  | finish st => exact b.finish point h
  | store st => exact b.store point h

end Busy

/-! ### A timeout -/

theorem Facts.keep (table : SameTable k k') (fewer : ∀ x, k'.state x = .sendBlocked → k.state x = .sendBlocked)
    (still : ∀ x ∈ inHand (a :: rest), k.state x = .sendBlocked → k'.state x = .sendBlocked)
    (ipcFrom : ∀ x, (k'.tcbs x).ipcFrom = (k.tcbs x).ipcFrom) (fresh : ∀ x, k.state x = .active → k'.state x = .active)
    (wish : k'.recvFrom a.thread = k.recvFrom a.thread) (facts : Facts k a rest) : Facts k' a rest := by
  have idle : Idle k a rest → Idle k' a rest := fun idle => ⟨idle.1, fun sends => idle.2 (fewer _ sends)⟩
  have named {p : Nat} : Named k a p → Named k' a p := fun named =>
    ⟨(table.listed p).mpr named.1, named.2.trans (table.globalId p).symm⟩
  have asks : Asks k a → Asks k' a := fun asks => ⟨wish.trans asks.1, asks.2.imp fun _ => named⟩
  have held {x : Nat} (found : a.point.sender = some x) (links : Links k (x :: threads (a :: rest))) : Links k' (x :: threads (a :: rest)) := by
    refine links.keep table fewer fun y member sends => ⟨still y ?_ sends, ipcFrom y⟩
    show y ∈ a.point.sender.toList ++ threads (a :: rest)
    rw [found]
    exact member
  unfold Facts at facts ⊢
  cases point : a.point with
  | send =>
    rw [point] at facts
    refine ⟨idle facts.1, wish.trans facts.2.1, ?_⟩
    rw [table.destination]
    exact facts.2.2
  | deliver p =>
    rw [point] at facts
    exact ⟨idle facts.1, named facts.2.1, fun sends => facts.2.2 (fewer _ sends)⟩
  | unsent p err =>
    rw [point] at facts
    exact ⟨idle facts.1, named facts.2.1, fun sends => facts.2.2 (fewer _ sends)⟩
  | start p =>
    rw [point] at facts
    exact ⟨idle facts.1, named facts.2.1, fresh p facts.2.2⟩
  | pagerUnsent err =>
    rw [point] at facts
    exact idle facts
  | receive =>
    rw [point] at facts
    exact facts.keep table fewer fun y member sends => ⟨still y (mem_inHand member) sends, ipcFrom y⟩
  | take x | reject x | serve x =>
    rw [point] at facts
    exact held (by rw [point]; rfl) facts
  | wake sending x result =>
    rw [point] at facts
    cases sending with
    | true => exact ⟨idle facts.1, fun sends => facts.2.1 (fewer _ sends), facts.2.2⟩
    | false => exact held (by rw [point]; rfl) facts
  | missing sending | abort sending =>
    rw [point] at facts
    cases sending with
    | true => exact idle facts
    | false => trivial
  | wait sending =>
    rw [point] at facts
    cases sending with
    | true => exact ⟨idle facts.1, asks facts.2⟩
    | false => trivial
  | mark sending =>
    rw [point] at facts
    cases sending with
    | true => exact ⟨facts.1, asks facts.2⟩
    | false => trivial
  | ended sending result =>
    rw [point] at facts
    cases sending with
    | false => trivial
    | true =>
      cases result with
      | done => exact idle facts
      | error => exact idle facts
      | wait => exact ⟨facts.1, asks facts.2.1, (ipcFrom _).trans facts.2.2⟩
  | finish st | store st =>
    rw [point] at facts
    cases st with
    | sendBlocked => exact ⟨facts.1, asks facts.2.1, (ipcFrom _).trans facts.2.2⟩
    | inactive | active | runnable | svcBlocked | recvBlocked | paused => trivial

/-- A timeout that spares the waits to send of the threads in hand ends the phase of a thread that waits by itself. -/
theorem timedOut_books {stack : List Activation} (books : Books ⟨k, stack⟩) (ht : k.Listed t) (waits : k.Waits t)
    (clear : t ∈ inHand stack → k.state t ≠ .sendBlocked) : Books ⟨k.timedOut t, stack⟩ := by
  have tcbs : (k.timedOut t).tcbs = Function.update k.tcbs t { k.tcbs t with state := .runnable } := by
    show (Kernel.setThreadState _ t .runnable).tcbs = _
    rw [setThreadState_tcbs, reportError_tcbs, setIpcError_tcbs]
  have mem : ∀ sp, ((k.timedOut t).mem.frame sp).r1 = (k.mem.frame sp).r1 := (Released.timedOut k t).frame
  have state : ∀ u, (k.timedOut t).state u = if u = t then .runnable else k.state u := by
    intro u
    unfold Kernel.state
    rw [tcbs, Function.update_apply]
    split
    · rfl
    · rfl
  have trace : ∀ u, sendPhases u (k.timedOut t).trace = sendPhases u (.failed t (k.state t = .recvBlocked) .timeout :: k.trace) :=
    fun u => (sendPhases_quiet (e := .timedOut t) rfl u _).trans (sendPhases_setThreadState _ t u _)
  have released := Released.timedOut k t
  generalize k.timedOut t = k' at tcbs mem state trace released
  have ipcFrom : ∀ u, (k'.tcbs u).ipcFrom = (k.tcbs u).ipcFrom := by
    intro u
    rw [tcbs, Function.update_apply]
    split
    · rename_i here
      rw [here]
    · rfl
  have wish : ∀ u, k'.recvFrom u = k.recvFrom u := by
    intro u
    have ctx : (k'.tcbs u).ctx = (k.tcbs u).ctx := by
      rw [tcbs, Function.update_apply]
      split
      · rename_i here
        rw [here]
      · rfl
    unfold recvFrom
    rw [ctx, mem]
  have fewer : ∀ u, k'.state u = .sendBlocked → k.state u = .sendBlocked := fun u sends => released.state u (.inl sends) ▸ sends
  have fresh : ∀ u, k.state u = .active → k'.state u = .active := by
    intro u active
    have other : u ≠ t := by
      rintro rfl
      unfold Waits at waits
      rw [active] at waits
      exact waits.elim (by decide) (by decide)
    rw [state, if_neg other]
    exact active
  have still : ∀ u, ¬ (u = t ∧ k.state t = .sendBlocked) → k.state u = .sendBlocked → k'.state u = .sendBlocked := by
    intro u spared sends
    have other : u ≠ t := fun here => spared ⟨here, here ▸ sends⟩
    rw [state, if_neg other]
    exact sends
  have sp : Spares (fun u => u = t ∧ k.state t = .sendBlocked) k k' := .of_released released still
  have quiet : ∀ u, ¬ (u = t ∧ k.state t = .sendBlocked) → sendPhases u k'.trace = sendPhases u k.trace := by
    intro u spared
    rw [trace]
    rcases waits with sends | receives
    · have other : u ≠ t := fun here => spared ⟨here, sends⟩
      have ends : (Event.failed t (k.state t = .recvBlocked) .timeout).endsSend = some t := by simp [sends, Event.endsSend]
      exact sendPhases_other ends other _
    · simp only [receives, decide_true]
      exact sendPhases_quiet rfl u _
  have apart : ∀ u ∈ inHand stack, ¬ (u = t ∧ k.state t = .sendBlocked) := fun u member ⟨here, sends⟩ => clear (here ▸ member) sends
  have keeps {u : Nat} {d : Option Word} (member : u ∈ inHand stack) (phases : Phases k u d) : Phases k' u d :=
    phases.keep sp.toSameTable (quiet u (apart u member))
  have outside {stacked : List Nat} (sub : ∀ u ∈ stacked, u ∈ inHand stack) (o : Outside k stacked (inHand stack)) :
      Outside k' stacked (inHand stack) := by
    refine o.spares sp (fun u out sends => ⟨out, fun ⟨here, _⟩ => ?_⟩) fun u hu out => ?_
    · rw [state, if_pos here] at sends
      cases sends
    · by_cases hit : u = t ∧ k.state t = .sendBlocked
      · obtain ⟨rfl, sends⟩ := hit
        have phases := o.phases u hu out
        rw [owes, if_pos sends] at phases
        have ends : (Event.failed u false .timeout).endsSend = some u := rfl
        rw [owes, state, if_pos rfl]
        refine Open.close phases sp.toSameTable ?_ (.inr ⟨.timeout, rfl⟩)
        rw [trace]
        simp only [sends, reduceCtorEq, decide_false]
        exact sendPhases_ends ends _
      · exact o.phase sp hu out hit (quiet u hit)
  cases stack with
  | nil => exact outside (fun _ member => member) books
  | cons a rest =>
    have b : Busy k a rest := books
    refine ⟨outside (fun _ => mem_inHand) b.toOutside, fun c member => ?_, fun c member => ⟨(b.below c member).1, ?_⟩,
      keeps (mem_inHand List.mem_cons_self) b.top, fun x found => ?_, ?_⟩
    · rw [sp.toSameTable.listed, sp.toSameTable.source]
      exact b.here c member
    · exact keeps (d := none) (mem_inHand (List.mem_cons_of_mem _ (List.mem_map_of_mem member))) (b.below c member).2
    · obtain ⟨hx, phases⟩ := b.found x found
      refine ⟨(sp.listed x).mpr hx, ?_⟩
      rw [ipcFrom]
      refine keeps (List.mem_append_left _ ?_) phases
      rw [found]
      exact List.mem_cons_self
    · exact b.facts.keep sp.toSameTable fewer (fun u member => still u (apart u member)) ipcFrom fresh (wish _)

end Calls
end BradypOS
