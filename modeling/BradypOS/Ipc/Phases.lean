import BradypOS.Ipc.Activations
import BradypOS.Ipc.Names

/-!
# Send phases, and who is in hand

The record of what happened tells the send phases of every thread, each with what came of it. While a thread waits to send, its
last phase is open; a thread that is served inside another's receive phase still looks like it waits, but its message has been
copied. Nobody finds it a second time, since every activation but the outermost is for a sender that named the next thread on
the stack.
-/

namespace BradypOS

open L4

/-- The thread that an event says the end of a send phase about. -/
def Event.endsSend : Event → Option Nat
  | .copied src _ => some src
  | .started pager _ => some pager
  | .failed t false _ => some t
  | _ => none

/-- An end of a send phase belongs to the last one. -/
def note (e : Event) : List (Word × List Event) → List (Word × List Event)
  | [] => [(nilThread, [e])]
  | (dest, ends) :: earlier => (dest, e :: ends) :: earlier

/-- The send phases of a thread, the last one first, each with its destination and how it ended. -/
def sendPhases (t : Nat) : List Event → List (Word × List Event)
  | [] => []
  | .sending u dest :: es => if u = t then (dest, []) :: sendPhases t es else sendPhases t es
  | e :: es => if e.endsSend = some t then note e (sendPhases t es) else sendPhases t es

/-- An event that no send phase begins or ends with. -/
def Event.notSend : Event → Bool
  | .sending _ _ | .copied _ _ | .started _ _ | .failed _ false _ => false
  | _ => true

theorem sendPhases_quiet {e : Event} (quiet : e.notSend = true) (t : Nat) (es : List Event) :
    sendPhases t (e :: es) = sendPhases t es := by
  have ends : e.endsSend ≠ some t := by
    intro same
    cases e with
    | failed u p err =>
      cases p with
      | true => cases same
      | false => cases quiet
    | _ => first | (cases quiet; done) | cases same
  cases e with
  | sending u dest => cases quiet
  | _ => simp only [sendPhases, ends, if_false]

theorem sendPhases_ends {e : Event} {t : Nat} (ends : e.endsSend = some t) (es : List Event) :
    sendPhases t (e :: es) = note e (sendPhases t es) := by
  cases e with
  | sending u dest => cases ends
  | _ => simp only [sendPhases, ends, if_true]

theorem sendPhases_other {e : Event} {t u : Nat} (ends : e.endsSend = some t) (other : u ≠ t) (es : List Event) :
    sendPhases u (e :: es) = sendPhases u es := by
  have same : e.endsSend ≠ some u := by
    rw [ends]
    exact fun h => other (Option.some.inj h).symm
  cases e with
  | sending u dest => cases ends
  | _ => simp only [sendPhases, same, if_false]

theorem sendPhases_none {trace : List Event} (h : trace.all Event.notSend = true) (t : Nat) : sendPhases t trace = [] := by
  induction trace with
  | nil => rfl
  | cons e es ih =>
    simp only [List.all_cons, Bool.and_eq_true] at h
    rw [sendPhases_quiet h.1]
    exact ih h.2

namespace Kernel

variable {k k' : Kernel}

/-- One message was copied to the thread that the destination names, or started it; or one error was
reported to the sender. -/
def Ended (k : Kernel) (t : Nat) (phase : Word × List Event) : Prop :=
  (∃ d, k.Listed d ∧ phase.1 = (k.tcbs d).globalId ∧ (phase.2 = [.copied t d] ∨ phase.2 = [.started t d])) ∨
    ∃ err, phase.2 = [.failed t false err]

/-! ### The record of the operations -/

theorem sendPhases_moveSchedule (k : Kernel) (t u : Nat) (st : ThreadState) :
    sendPhases u (k.moveSchedule t st).trace = sendPhases u k.trace := by
  unfold moveSchedule
  split
  · exact sendPhases_quiet rfl _ _
  · split
    · unfold scheduleRemove
      split <;> rfl
    · rfl

theorem sendPhases_setThreadState (k : Kernel) (t u : Nat) (st : ThreadState) :
    sendPhases u (k.setThreadState t st).trace = sendPhases u k.trace := by
  exact (sendPhases_quiet rfl _ _).trans (sendPhases_moveSchedule k t u st)

theorem sendPhases_setThreadTimeout {t u : Nat} {timeout : Time} {st : ThreadState} {blocks : Bool}
    (h : k.setThreadTimeout t timeout st = .ok (blocks, k')) : sendPhases u k'.trace = sendPhases u k.trace := by
  rcases setThreadTimeout_cases h with ⟨_, _, rfl⟩ | ⟨_, _, _, rfl⟩ | ⟨_, _, _, _, k₁, registered, rfl⟩
  · exact sendPhases_quiet rfl _ _
  · rfl
  · obtain ⟨alarms, rfl⟩ := registerKevent_frame registered
    rw [sendPhases_setThreadState]
    exact (sendPhases_quiet rfl _ _).trans (sendPhases_quiet rfl _ _)

theorem Ended.same (table : SameTable k k') {t : Nat} {phase : Word × List Event} (h : Ended k t phase) :
    Ended k' t phase := by
  rcases h with ⟨d, hd, dest, ends⟩ | failed
  · exact .inl ⟨d, (table.listed d).mpr hd, by rw [table.globalId]; exact dest, ends⟩
  · exact .inr failed

end Kernel

/-! ### What the kernel has in hand -/

namespace Point

/-- The send phase of the activation's thread has begun and not ended. -/
def opens : Point → Bool
  | .deliver _ | .unsent _ _ | .start _ | .pagerUnsent _ | .missing true | .wait true | .abort true | .mark true
  | .ended true .wait | .finish .sendBlocked | .store .sendBlocked => true
  | _ => false

/-- The sender that a receive phase has found. -/
def sender : Point → Option Nat
  | .take s | .reject s | .serve s | .wake false s _ => some s
  | _ => none

/-- The sender's message is still to be copied or refused. -/
def holds : Point → Bool
  | .take _ | .reject _ => true
  | _ => false

end Point

namespace Calls

open Kernel Activation

variable {k k' : Kernel} {H : Nat → Prop} {s s' : Calls} {a : Activation} {rest : List Activation} {t u : Nat}

def threads (stack : List Activation) : List Nat := stack.map thread

/-- The threads of the activations, and the sender that the innermost one has found. -/
def inHand : List Activation → List Nat
  | [] => []
  | a :: rest => a.point.sender.toList ++ threads (a :: rest)

/-- A timeout ends no wait to send of a thread that is in hand. -/
def Clear (s : Calls) : Action → Prop
  | .timeout data => ∀ t, s.kernel.findThreadByGlobalId data = some t → t ∈ inHand s.stack → s.kernel.state t ≠ .sendBlocked
  | .call _ _ _ | .advance => True

/-! ### The phases of a thread -/

def Settled (k : Kernel) (t : Nat) : Prop := ∀ phase ∈ sendPhases t k.trace, Ended k t phase

/-- The last phase has not ended, and nothing has come of it. -/
def Open (k : Kernel) (t : Nat) (dest : Word) : Prop :=
  ∃ earlier, sendPhases t k.trace = (dest, []) :: earlier ∧ ∀ phase ∈ earlier, Ended k t phase

def Phases (k : Kernel) (t : Nat) : Option Word → Prop
  | none => Settled k t
  | some dest => Open k t dest

theorem Phases.keep {d : Option Word} (h : Phases k t d) (table : SameTable k k')
    (same : sendPhases t k'.trace = sendPhases t k.trace) : Phases k' t d := by
  cases d with
  | none =>
    intro phase member
    rw [same] at member
    exact (h phase member).same table
  | some dest =>
    obtain ⟨earlier, phases, ended⟩ := h
    exact ⟨earlier, same.trans phases, fun phase member => (ended phase member).same table⟩

theorem Open.close {dest : Word} {e : Event} (h : Open k t dest) (table : SameTable k k')
    (same : sendPhases t k'.trace = note e (sendPhases t k.trace)) (ended : Ended k t (dest, [e])) : Settled k' t := by
  obtain ⟨earlier, phases, before⟩ := h
  intro phase member
  rw [same, phases] at member
  rcases List.mem_cons.mp member with rfl | member
  · exact ended.same table
  · exact (before phase member).same table

theorem Settled.sending {dest : Word} (h : Settled k t) (table : SameTable k k')
    (same : sendPhases t k'.trace = (dest, []) :: sendPhases t k.trace) : Open k' t dest :=
  ⟨sendPhases t k.trace, same, fun phase member => (h phase member).same table⟩

/-- The destination of the open phase of a thread that waits by itself. -/
def owes (k : Kernel) (t : Nat) : Option Word := if k.state t = .sendBlocked then some (k.tcbs t).ipcFrom else none

/-! ### Threads that a step leaves alone -/

/-- Outside of `H`, the same threads wait to send, to and from the same. -/
structure Spares (H : Nat → Prop) (k k' : Kernel) : Prop extends SameTable k k' where
  localId : ∀ u, (k'.tcbs u).localId = (k.tcbs u).localId
  sends : ∀ u, ¬ H u → (k'.state u = .sendBlocked ↔ k.state u = .sendBlocked)
  ipcFrom : ∀ u, ¬ H u → k.state u = .sendBlocked → (k'.tcbs u).ipcFrom = (k.tcbs u).ipcFrom
  wishes : ∀ u, ¬ H u → k.state u = .sendBlocked → k'.recvFrom u = k.recvFrom u

namespace Spares

theorem owes (h : Spares H k k') (spared : ¬ H u) : owes k' u = owes k u := by
  unfold Calls.owes
  by_cases sends : k.state u = .sendBlocked
  · rw [if_pos sends, if_pos ((h.sends u spared).mpr sends), h.ipcFrom u spared sends]
  · rw [if_neg sends, if_neg fun sends' => sends ((h.sends u spared).mp sends')]

theorem of_released (r : Released k k') (sends : ∀ u, ¬ H u → k.state u = .sendBlocked → k'.state u = .sendBlocked) : Spares H k k' where
  toSameTable := r.toSameTable
  localId := r.localId
  sends u spared := ⟨fun sends' => r.state u (.inl sends') ▸ sends', sends u spared⟩
  ipcFrom u spared sends' := r.ipcFrom u (.inl (sends u spared sends'))
  wishes u spared sends' := r.recvFrom (.inl (sends u spared sends'))

/-- A change of one TCB's state and partner. -/
theorem of_update {st : ThreadState} {w : Word} (tcbs : k'.tcbs = Function.update k.tcbs t { k.tcbs t with state := st, ipcFrom := w })
    (threadCount : k'.threadCount = k.threadCount) (threadList : k'.threadList = k.threadList) (mem : k'.mem = k.mem) :
    Spares (fun u => u = t) k k' := by
  have others : ∀ u, ¬ u = t → k'.tcbs u = k.tcbs u := fun u other => by rw [tcbs, Function.update_of_ne other]
  refine ⟨⟨threadCount, threadList, fun u => ?_⟩, fun u => ?_, fun u other => ?_, fun u other _ => by rw [others u other], fun u other _ => ?_⟩
  · by_cases here : u = t
    · rw [here, tcbs, Function.update_self]
    · rw [others u here]
  · by_cases here : u = t
    · rw [here, tcbs, Function.update_self]
    · rw [others u here]
  · unfold Kernel.state
    rw [others u other]
  · unfold recvFrom
    rw [others u other, mem]

theorem locals (h : Spares H k k')
    (locals : ∀ t u, k.Listed t → k.Listed u → (k.tcbs t).localId = (k.tcbs u).globalId → t = u) :
    ∀ t u, k'.Listed t → k'.Listed u → (k'.tcbs t).localId = (k'.tcbs u).globalId → t = u := by
  intro t u ht hu same
  rw [h.localId, h.globalId] at same
  exact locals t u ((h.listed t).mp ht) ((h.listed u).mp hu) same

end Spares

/-- Whom the threads outside of the activations named, and what came of the phases of those that are not in hand. -/
structure Outside (k : Kernel) (stacked handed : List Nat) : Prop where
  population : Population k
  locals : ∀ t u, k.Listed t → k.Listed u → (k.tcbs t).localId = (k.tcbs u).globalId → t = u
  names : ∀ u, k.Listed u → u ∉ stacked → k.state u = .sendBlocked → ∃ d, k.Listed d ∧ (k.tcbs u).ipcFrom = (k.tcbs d).globalId
  wants : ∀ u, k.Listed u → u ∉ stacked → k.state u = .sendBlocked → k.Source (k.recvFrom u)
  phases : ∀ u, k.Listed u → u ∉ handed → Phases k u (owes k u)

namespace Outside

variable {stacked handed stacked' handed' : List Nat}

theorem spares (o : Outside k stacked handed) (sp : Spares H k k')
    (stays : ∀ u, u ∉ stacked' → k'.state u = .sendBlocked → u ∉ stacked ∧ ¬ H u)
    (phases : ∀ u, k.Listed u → u ∉ handed' → Phases k' u (Calls.owes k' u)) : Outside k' stacked' handed' where
  population := o.population.transfer sp.toSameTable
  locals := sp.locals o.locals
  names u hu out sends := by
    obtain ⟨out, spared⟩ := stays u out sends
    have sends := (sp.sends u spared).mp sends
    obtain ⟨d, hd, name⟩ := o.names u ((sp.listed u).mp hu) out sends
    exact ⟨d, (sp.listed d).mpr hd, by rw [sp.ipcFrom u spared sends, sp.globalId]; exact name⟩
  wants u hu out sends := by
    obtain ⟨out, spared⟩ := stays u out sends
    have sends := (sp.sends u spared).mp sends
    rw [sp.wishes u spared sends, sp.toSameTable.source]
    exact o.wants u ((sp.listed u).mp hu) out sends
  phases u hu out := phases u ((sp.listed u).mp hu) out

theorem phase (o : Outside k stacked handed) (sp : Spares H k k') (hu : k.Listed u) (out : u ∉ handed) (spared : ¬ H u)
    (same : sendPhases u k'.trace = sendPhases u k.trace) : Phases k' u (Calls.owes k' u) := by
  rw [sp.owes spared]
  exact (o.phases u hu out).keep sp.toSameTable same

end Outside

/-! ### Where the activations are -/

/-- Every thread but the last one is a sender that waits for the next. -/
def Links (k : Kernel) : List Nat → Prop
  | [] => True
  | [c] => k.state c ≠ .sendBlocked
  | s :: t :: rest =>
    s ∉ t :: rest ∧ k.Listed s ∧ k.state s = .sendBlocked ∧ (k.tcbs s).ipcFrom = (k.tcbs t).globalId ∧ k.Listed t ∧ Links k (t :: rest)

/-- A sender on the list named a thread behind it. -/
theorem Links.next {l : List Nat} {x : Nat} (links : Links k (x :: l)) (member : t ∈ x :: l) (sends : k.state t = .sendBlocked) :
    ∃ u ∈ l, k.Listed u ∧ (k.tcbs t).ipcFrom = (k.tcbs u).globalId := by
  induction l generalizing x with
  | nil =>
    obtain rfl := List.mem_singleton.mp member
    exact absurd sends links
  | cons y l ih =>
    obtain ⟨-, -, -, name, listed, rest⟩ := links
    rcases List.mem_cons.mp member with rfl | member
    · exact ⟨y, List.mem_cons_self, listed, name⟩
    · obtain ⟨u, inside, found⟩ := ih rest member
      exact ⟨u, List.mem_cons_of_mem y inside, found⟩

/-- A sender that is found for the first thread of the list is not on it. -/
theorem Links.fresh {l : List Nat} (population : Population k) (links : Links k (t :: l)) (listed : k.Listed t)
    (sends : k.state u = .sendBlocked) (name : (k.tcbs u).ipcFrom = (k.tcbs t).globalId) : u ∉ t :: l := by
  intro member
  obtain ⟨v, inside, hv, same⟩ := links.next member sends
  obtain rfl := population.id_inj listed hv (name.symm.trans same)
  cases l with
  | nil => cases inside
  | cons y l => exact links.1 inside

theorem Links.keep {l : List Nat} (table : SameTable k k') (fewer : ∀ x, k'.state x = .sendBlocked → k.state x = .sendBlocked)
    (still : ∀ x ∈ l, k.state x = .sendBlocked → k'.state x = .sendBlocked ∧ (k'.tcbs x).ipcFrom = (k.tcbs x).ipcFrom)
    (links : Links k l) : Links k' l := by
  induction l with
  | nil => trivial
  | cons x l ih =>
    cases l with
    | nil => exact fun sends => links (fewer x sends)
    | cons y l =>
      obtain ⟨apart, hx, sends, name, hy, rest⟩ := links
      obtain ⟨sends', ipcFrom⟩ := still x List.mem_cons_self sends
      refine ⟨apart, (table.listed x).mpr hx, sends', ?_, (table.listed y).mpr hy, ih (fun z member => still z (List.mem_cons_of_mem x member)) rest⟩
      rw [ipcFrom, table.globalId]
      exact name

/-- The caller is in its send phase, and does not wait. -/
def Idle (k : Kernel) (a : Activation) (rest : List Activation) : Prop := rest = [] ∧ k.state a.thread ≠ .sendBlocked

def Named (k : Kernel) (a : Activation) (p : Nat) : Prop := k.Listed p ∧ a.dest = (k.tcbs p).globalId

/-- What the caller asked for, when it waits to send. -/
def Asks (k : Kernel) (a : Activation) : Prop := k.recvFrom a.thread = a.src ∧ ∃ d, Named k a d

/-- What is known of the threads in hand at the innermost activation's point. -/
def Facts (k : Kernel) (a : Activation) (rest : List Activation) : Prop :=
  match a.point with
  | .send => Idle k a rest ∧ k.recvFrom a.thread = a.src ∧ k.Destination a.dest
  | .deliver p | .unsent p _ => Idle k a rest ∧ Named k a p ∧ k.state p ≠ .sendBlocked
  | .start p => Idle k a rest ∧ Named k a p ∧ k.state p = .active
  | .wake true p result => Idle k a rest ∧ k.state p ≠ .sendBlocked ∧ result ≠ .wait
  | .pagerUnsent _ | .missing true | .abort true | .ended true .done | .ended true .error => Idle k a rest
  | .wait true => Idle k a rest ∧ Asks k a
  | .mark true => rest = [] ∧ Asks k a
  | .ended true .wait | .finish .sendBlocked | .store .sendBlocked => rest = [] ∧ Asks k a ∧ (k.tcbs a.thread).ipcFrom = a.dest
  | .receive => Links k (threads (a :: rest))
  | .take s | .reject s | .serve s | .wake false s _ => Links k (s :: threads (a :: rest))
  | _ => True

/-- What a run of steps keeps while the kernel thread is inside activations. -/
structure Busy (k : Kernel) (a : Activation) (rest : List Activation) : Prop extends Outside k (threads (a :: rest)) (inHand (a :: rest)) where
  here : ∀ b ∈ a :: rest, k.Listed b.thread ∧ k.Source b.src
  below : ∀ b ∈ rest, b.point = .ended false .done ∧ Settled k b.thread
  top : Phases k a.thread (if a.point.opens then some a.dest else none)
  found : ∀ x, a.point.sender = some x → k.Listed x ∧ Phases k x (if a.point.holds then some (k.tcbs x).ipcFrom else none)
  facts : Facts k a rest

def Books (s : Calls) : Prop :=
  match s.stack with
  | [] => Outside s.kernel [] []
  | a :: rest => Busy s.kernel a rest

/-! ### What a step leaves in the books -/

theorem mem_inHand (member : u ∈ threads (a :: rest)) : u ∈ inHand (a :: rest) := List.mem_append_right _ member

theorem inHand_none (none : a.point.sender = none) : inHand (a :: rest) = threads (a :: rest) := by
  show a.point.sender.toList ++ threads (a :: rest) = threads (a :: rest)
  rw [none]
  rfl

namespace Busy

/-- The activation goes on, and its own thread may look different. -/
theorem go (b : Busy k a rest) (p : Point) (sp : Spares (fun u => u = a.thread) k k') (before : a.point.sender = none) (after : p.sender = none)
    (same : ∀ u, u ≠ a.thread → sendPhases u k'.trace = sendPhases u k.trace)
    (below : ∀ b ∈ rest, Settled k' b.thread) (top : Phases k' a.thread (if p.opens then some a.dest else none))
    (facts : Facts k' (a.go p) rest) : Busy k' (a.go p) rest where
  toOutside := by
    have hands : inHand (a.go p :: rest) = threads (a :: rest) := inHand_none (a := a.go p) after
    rw [hands]
    refine b.toOutside.spares sp (fun u out sends => ⟨out, fun here => out (here ▸ List.mem_cons_self)⟩) fun u hu out => ?_
    have other : u ≠ a.thread := fun here => out (here ▸ List.mem_cons_self)
    exact b.toOutside.phase sp hu (by rw [inHand_none before]; exact out) other (same u other)
  here c member := by
    rw [sp.toSameTable.listed, sp.toSameTable.source]
    rcases List.mem_cons.mp member with rfl | member
    · exact b.here a List.mem_cons_self
    · exact b.here c (List.mem_cons_of_mem a member)
  below c member := ⟨(b.below c member).1, below c member⟩
  top := top
  found x sends := by
    have none : p.sender = some x := sends
    rw [after] at none
    cases none
  facts := facts

/-- A step that the record says nothing about, as far as send phases go. -/
theorem quiet (b : Busy k a rest) (p : Point) (sp : Spares (fun u => u = a.thread) k k') (before : a.point.sender = none)
    (after : p.sender = none) (same : ∀ u, sendPhases u k'.trace = sendPhases u k.trace) (opens : p.opens = a.point.opens)
    (facts : Facts k' (a.go p) rest) : Busy k' (a.go p) rest := by
  refine b.go p sp before after (fun u _ => same u) (fun c member phase inside => ?_) ?_ facts
  · rw [same] at inside
    exact ((b.below c member).2 phase inside).same sp.toSameTable
  · rw [opens]
    exact b.top.keep sp.toSameTable (same _)

/-- The end of the caller's send phase. -/
theorem closes (b : Busy k a rest) (p : Point) {e : Event} (sp : Spares (fun u => u = a.thread) k k') (alone : rest = [])
    (before : a.point.sender = none) (after : p.sender = none) (ends : e.endsSend = some a.thread)
    (phases : ∀ u, sendPhases u k'.trace = sendPhases u (e :: k.trace)) (opened : a.point.opens = true) (closed : p.opens = false)
    (ended : Ended k a.thread (a.dest, [e])) (facts : Facts k' (a.go p) rest) : Busy k' (a.go p) rest := by
  subst alone
  refine b.go p sp before after (fun u other => ?_) (fun c member => by cases member) ?_ facts
  · rw [phases]
    exact sendPhases_other ends other _
  · have top := b.top
    rw [opened] at top
    rw [closed]
    refine Open.close top sp.toSameTable ?_ ended
    rw [phases]
    exact sendPhases_ends ends _

end Busy

/-! ### What the operations leave alone -/

namespace Spares

theorem refl (H : Nat → Prop) (k : Kernel) : Spares H k k := .of_released (.refl k) fun _ _ sends => sends

theorem of_tcbs (tcbs : k'.tcbs = k.tcbs) (threadCount : k'.threadCount = k.threadCount) (threadList : k'.threadList = k.threadList)
    (asPool : k'.asPool = k.asPool) (frame : ∀ sp, (k'.mem.frame sp).r1 = (k.mem.frame sp).r1) : Spares H k k' := by
  refine .of_released (.of_tcbs tcbs threadCount threadList asPool frame) fun u _ sends => ?_
  unfold Kernel.state
  rw [tcbs]
  exact sends

theorem wake (H : Nat → Prop) (k : Kernel) {p : Nat} (other : k.state p ≠ .sendBlocked) : Spares H k (k.setThreadState p .runnable) := by
  refine .of_released ((Released.refl k).wake p) fun u _ sends => ?_
  have apart : u ≠ p := fun here => other (here ▸ sends)
  rw [state_setThreadState, if_neg apart]
  exact sends

theorem copied {src dst : Nat} {err : IpcErrorCode} (H : Nat → Prop) (h : k.copyPayload src dst = .ok (err, k')) : Spares H k k' := by
  refine .of_released ((Released.refl k).copyPayload h) fun u _ sends => ?_
  obtain ⟨mem, -, rfl⟩ := copyPayload_spec h
  split
  · exact sends
  · exact sends

end Spares

theorem reportError_tcbs (k : Kernel) (t : Nat) (p : Bool) (err : IpcErrorCode) : (k.reportError t p err).tcbs = k.tcbs := rfl

theorem setIpcError_tcbs (k : Kernel) (t : Nat) : (k.setIpcError t).tcbs = k.tcbs := rfl

theorem copied_state {src dst : Nat} {err : IpcErrorCode} (h : k.copyPayload src dst = .ok (err, k')) : k'.tcbs = k.tcbs := by
  obtain ⟨mem, -, rfl⟩ := copyPayload_spec h
  split
  · rfl
  · rfl

theorem copied_trace {src dst : Nat} {err : IpcErrorCode} (h : k.copyPayload src dst = .ok (err, k')) :
    k'.trace = if err = .none then .copied src dst :: k.trace else k.trace := by
  obtain ⟨mem, -, rfl⟩ := copyPayload_spec h
  split
  · rfl
  · rfl

theorem idle_of (same : k'.tcbs = k.tcbs) (idle : Idle k a rest) : Idle k' a rest := by
  refine ⟨idle.1, ?_⟩
  unfold Kernel.state
  rw [same]
  exact idle.2

end Calls
end BradypOS
