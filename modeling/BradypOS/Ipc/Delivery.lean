import BradypOS.Kernel.Evaluate
import BradypOS.Ipc.Advances

/-!
# Exactly-once delivery

The exceptions are a thread whose local id is the global id of another one, and a timeout that ends the wait to send of a thread
that the kernel has in hand.
-/

namespace BradypOS

open L4

namespace Calls

open Kernel Activation

variable {k k' : Kernel} {s s' : Calls} {a : Activation} {rest : List Activation} {t u : Nat}

/-! ### A run -/

/-- A call begins with the books as they were. -/
theorem call_books {caller : Nat} {cpu : Context} {mem : Memory} (books : Outside k [] []) (hc : k.Listed caller) (idle : ¬ k.Waits caller)
    (allowed : Ipc.Allowed k (.call caller cpu mem 0)) :
    Busy (Ipc.trapped k caller cpu mem) (enter (Ipc.trapped k caller cpu mem) caller .send) [] := by
  have table := Ipc.trapped_table k caller cpu mem
  have tcbs := @Ipc.trapped_tcbs k caller cpu mem
  have memory := @Ipc.trapped_mem k caller cpu mem
  have same : ∀ u, sendPhases u (Ipc.trapped k caller cpu mem).trace = sendPhases u k.trace := fun u => sendPhases_setThreadState _ caller u _
  generalize Ipc.trapped k caller cpu mem = k' at table tcbs memory same
  have others : ∀ u, ¬ u = caller → k'.tcbs u = k.tcbs u := fun u other => by rw [tcbs, Function.update_of_ne other]
  have here : k'.state caller = .svcBlocked := by
    unfold Kernel.state
    rw [tcbs, Function.update_self]
  have frame : k'.mem.frame (k'.tcbs caller).ctx.sp = mem.frame cpu.sp := by rw [memory, tcbs, Function.update_self]
  have wishes : ∀ u, ¬ u = caller → k.Listed u → k.state u = .sendBlocked → k'.recvFrom u = k.recvFrom u := by
    intro u other hu sends
    unfold recvFrom
    rw [memory, others u other]
    exact allowed.2.2 u hu sends
  have states : ∀ u, ¬ u = caller → (k'.state u = .sendBlocked ↔ k.state u = .sendBlocked) := by
    intro u other
    unfold Kernel.state
    rw [others u other]
  have runs : k.state caller ≠ .sendBlocked := fun sends => idle (.inl sends)
  have settled : Phases k caller none := by
    have phases := books.phases caller hc List.not_mem_nil
    rwa [owes, if_neg runs] at phases
  have apart {u : Nat} (out : u ∉ [caller]) : ¬ u = caller := fun same => out (List.mem_singleton.mpr same)
  refine ⟨⟨books.population.transfer table, fun t u ht hu same => ?_, fun u hu out sends => ?_, fun u hu out sends => ?_, fun u hu out => ?_⟩,
    fun c member => ?_, fun c member => (by cases member), settled.keep table (same caller), fun x none => (by cases none), ⟨rfl, ?_⟩, rfl, ?_⟩
  · refine books.locals t u ((table.listed t).mp ht) ((table.listed u).mp hu) ?_
    rw [← table.globalId u, ← same, tcbs, Function.update_apply]
    split
    · rename_i here
      rw [here]
    · rfl
  · have other := apart out
    obtain ⟨d, hd, name⟩ := books.names u ((table.listed u).mp hu) List.not_mem_nil ((states u other).mp sends)
    exact ⟨d, (table.listed d).mpr hd, by rw [others u other, table.globalId]; exact name⟩
  · have other := apart out
    have sends := (states u other).mp sends
    rw [wishes u other ((table.listed u).mp hu) sends, table.source]
    exact books.wants u ((table.listed u).mp hu) List.not_mem_nil sends
  · have other := apart out
    have phases := books.phases u ((table.listed u).mp hu) List.not_mem_nil
    have waits : owes k' u = owes k u := by
      unfold owes Kernel.state
      rw [others u other]
    rw [waits]
    exact phases.keep table (same u)
  · obtain rfl := List.mem_singleton.mp member
    refine ⟨(table.listed caller).mpr hc, ?_⟩
    rw [table.source]
    show k.Source (k'.mem.frame (k'.tcbs caller).ctx.sp).r1
    rw [frame]
    exact allowed.2.1
  · show k'.state caller ≠ .sendBlocked
    rw [here]
    decide
  · rw [table.destination]
    show k.Destination (k'.mem.frame (k'.tcbs caller).ctx.sp).r0
    rw [frame]
    exact allowed.1

theorem step_books {a : Action} (books : Books s) (allowed : Allowed s a) (clear : Clear s a) (step : Step s a s') : Books s' := by
  obtain ⟨enabled, effect⟩ := step
  obtain ⟨k, stack⟩ := s
  cases a with
  | call caller cpu mem =>
    obtain ⟨rfl, hc, idle⟩ := enabled
    cases effect
    exact call_books books hc idle allowed
  | advance =>
    cases stack with
    | nil => exact absurd rfl enabled
    | cons a rest => exact Busy.advance books effect
  | timeout data =>
    cases effect
    rcases Ipc.timeout_cases k data with same | ⟨t, found, waits, timed⟩
    · show Books ⟨k.doIpcTimeout data, stack⟩
      rw [same]
      exact books
    · show Books ⟨k.doIpcTimeout data, stack⟩
      rw [timed]
      have population : Population k := by
        cases stack with
        | nil => exact Outside.population books
        | cons a rest => exact (Busy.toOutside books).population
      exact timedOut_books books (population.listed data t found) waits (clear t found)

theorem Phases.either {d : Option Word} (h : Phases k t d) : Settled k t ∨ ∃ dest, Open k t dest := by
  cases d with
  | none => exact .inl h
  | some dest => exact .inr ⟨dest, h⟩

theorem Busy.either (b : Busy k a rest) (ht : k.Listed t) : Settled k t ∨ ∃ dest, Open k t dest := by
  by_cases held : t ∈ inHand (a :: rest)
  · rcases List.mem_append.mp held with found | stacked
    · exact (b.found t (Option.mem_toList.mp found)).2.either
    · rcases List.mem_cons.mp stacked with rfl | below
      · exact b.top.either
      · obtain ⟨c, member, rfl⟩ := List.mem_map.mp below
        exact .inl (b.below c member).2
  · exact (b.phases t ht held).either

theorem Outside.owing {stacked handed : List Nat} (o : Outside k stacked handed) (ht : k.Listed t) (out : t ∉ handed) :
    (k.state t = .sendBlocked → Open k t (k.tcbs t).ipcFrom) ∧ (k.state t ≠ .sendBlocked → Settled k t) := by
  have phases : Phases k t (owes k t) := o.phases t ht out
  constructor
  · intro sends
    rwa [owes, if_pos sends] at phases
  · intro other
    rwa [owes, if_neg other] at phases

theorem Busy.served (b : Busy k a rest) {c : Activation} (member : c ∈ a :: rest) (closed : c.point.opens = false) : Settled k c.thread := by
  rcases List.mem_cons.mp member with rfl | below
  · have top := b.top
    rwa [closed] at top
  · exact (b.below c below).2

/-- In every run of calls, with timeouts anywhere in between, in which no thread's local id is the global id of another one and no
timeout ends the wait to send of a thread that the kernel has in hand: every send phase has ended in exactly one way (its
message was copied once to the thread it names, or started it, or one error was reported to the sender), or it is the last one
of its thread and nothing has come of it. The latter are the phases of the threads that wait to send; a thread that is in its
receive phase has none. -/
theorem exactly_once {as : List Action} (population : Population k)
    (locals : ∀ t u, k.Listed t → k.Listed u → (k.tcbs t).localId = (k.tcbs u).globalId → t = u)
    (idle : ∀ t, k.Listed t → ¬ k.Waits t) (ended : ∀ t, k.Listed t → Settled k t)
    (run : Theory.Run (Theory.Guarded (fun s a => Allowed s a ∧ Clear s a) Step) ⟨k, []⟩ as s) (ht : s.kernel.Listed t) :
    (Settled s.kernel t ∨ ∃ dest, Open s.kernel t dest) ∧
    (t ∉ inHand s.stack → (s.kernel.state t = .sendBlocked → Open s.kernel t (s.kernel.tcbs t).ipcFrom) ∧
      (s.kernel.state t ≠ .sendBlocked → Settled s.kernel t)) ∧
    ∀ a ∈ s.stack, a.point.opens = false → Settled s.kernel a.thread := by
  have start : Books ⟨k, []⟩ := by
    refine ⟨population, locals, fun u hu _ sends => ?_, fun u hu _ sends => ?_, fun u hu _ => ?_⟩
    · exact absurd (.inl sends) (idle u hu)
    · exact absurd (.inl sends) (idle u hu)
    · rw [owes, if_neg fun sends => idle u hu (.inl sends)]
      exact ended u hu
  have books : Books s := run.invariant (I := Books) (fun _ _ _ step books => step_books books step.1.1 step.1.2 step.2) start
  obtain ⟨k, stack⟩ := s
  cases stack with
  | nil =>
    have outside : Outside k [] [] := books
    exact ⟨(outside.phases t ht List.not_mem_nil).either, fun out => outside.owing ht out, fun c member => by cases member⟩
  | cons a rest =>
    have busy : Busy k a rest := books
    exact ⟨busy.either ht, fun out => busy.toOutside.owing ht out, fun c member closed => busy.served member closed⟩

/-! ### A message that waits for its receiver -/

/-- What a computation can check of whom a caller names. -/
def names (s : Calls) : Action → Bool
  | .call caller cpu mem => Ipc.permitted s.kernel (.call caller cpu mem 0)
  | .advance | .timeout _ => true

theorem allowed_of_names (s : Calls) (a : Action) (h : names s a = true) : Allowed s a := by
  cases a with
  | call caller cpu mem => exact Ipc.allowed_of_permitted (a := .call caller cpu mem 0) h
  | advance => trivial
  | timeout data => trivial

/-- And of the thread that a timeout is for. -/
def permitted (s : Calls) (a : Action) : Bool :=
  names s a &&
    match a with
    | .timeout data => (s.kernel.findThreadByGlobalId data).all fun t => decide (t ∈ inHand s.stack → s.kernel.state t ≠ .sendBlocked)
    | .call _ _ _ | .advance => true

theorem clear_of_permitted (s : Calls) (a : Action) (h : permitted s a = true) : Allowed s a ∧ Clear s a := by
  obtain ⟨named, clear⟩ := Bool.and_eq_true_iff.mp h
  refine ⟨allowed_of_names s a named, ?_⟩
  cases a with
  | call caller cpu mem => trivial
  | advance => trivial
  | timeout data =>
    intro t found held
    have every : (some t).all (fun t => decide (t ∈ inHand s.stack → s.kernel.state t ≠ .sendBlocked)) = true := found ▸ clear
    exact of_decide_eq_true every held

/-- `next`, for the steps that pass a check. -/
def checked (check : Calls → Action → Bool) (s : Calls) (a : Action) : Option Calls := if check s a then next s a else none

theorem guarded_of_checked {check : Calls → Action → Bool} {guard : Calls → Action → Prop}
    (sound : ∀ s a, check s a = true → guard s a) (s : Calls) (a : Action) (s' : Calls) (h : checked check s a = some s') :
    Theory.Guarded guard Step s a s' := by
  unfold checked at h
  split at h
  · rename_i ok
    exact ⟨sound s a ok, step_of_next s a s' h⟩
  · cases h

def ask (caller : Nat) (sp dest src timeouts : Word) (s : Calls) : Action :=
  .call caller { (s.kernel.tcbs caller).ctx with sp }
    (s.kernel.mem.setFrame sp fun f => { f with r0 := dest, r1 := src, r2 := timeouts })

def advances (n : Nat) : List (Calls → Action) := List.replicate n fun _ => .advance

theorem settled_of_fresh (fresh : k.trace.all Event.notSend = true) (t : Nat) : Settled k t := by
  intro phase member
  rw [sendPhases_none fresh] at member
  cases member

theorem idle_of_list (idle : ∀ i < k.threadCount, ¬ k.Waits (k.threadList i)) : ∀ t, k.Listed t → ¬ k.Waits t := by
  rintro t ⟨i, hi, rfl⟩
  exact idle i hi

/-- The idle thread's message waits for the root thread, which is told of a timeout while it receives. -/
def sendReceive : List (Calls → Action) :=
  ask 1 0x6000#32 rootId anyThread 0#32 :: advances 6 ++ ask 2 0x4000#32 nilThread anyThread 0#32 :: advances 3 ++
    (fun _ => .timeout rootId) :: advances 11

theorem exactly_once_sendReceive : ∃ k s as, boot SmallSystem.bootInfo = .ok k ∧
    Theory.Run (Theory.Guarded (fun s a => Allowed s a ∧ Clear s a) Step) ⟨k, []⟩ as s ∧ s.stack = [] ∧ s.kernel.state 1 ≠ .sendBlocked ∧
      (sendPhases 1 s.kernel.trace).length = 1 ∧ Settled s.kernel 1 := by
  have done : ((boot SmallSystem.bootInfo).toOption.any fun k => Ipc.populated k &&
      decide (∀ i < k.threadCount, ∀ j < k.threadCount,
        (k.tcbs (k.threadList i)).localId = (k.tcbs (k.threadList j)).globalId → k.threadList i = k.threadList j) &&
      decide (∀ i < k.threadCount, ¬ k.Waits (k.threadList i)) && k.trace.all Event.notSend &&
      (Theory.follow (checked permitted) ⟨k, []⟩ sendReceive).any fun s =>
        decide (s.stack = [] ∧ s.kernel.state 1 ≠ .sendBlocked ∧ (sendPhases 1 s.kernel.trace).length = 1 ∧
          ∃ i < s.kernel.threadCount, s.kernel.threadList i = 1)) = true := by decide +kernel
  obtain ⟨k, booted, holds⟩ := (Option.any_eq_true _ _).mp done
  simp only [Bool.and_eq_true, decide_eq_true_eq] at holds
  obtain ⟨⟨⟨⟨population, locals⟩, idle⟩, fresh⟩, later⟩ := holds
  obtain ⟨s, ran, ends⟩ := (Option.any_eq_true _ _).mp later
  obtain ⟨empty, other, once, listed⟩ := of_decide_eq_true ends
  obtain ⟨as, run⟩ := Theory.run_of_follow (guarded_of_checked clear_of_permitted) ran
  have distinct : ∀ t u, k.Listed t → k.Listed u → (k.tcbs t).localId = (k.tcbs u).globalId → t = u := by
    rintro t u ⟨i, hi, rfl⟩ ⟨j, hj, rfl⟩
    exact locals i hi j hj
  obtain ⟨-, owing, -⟩ := exactly_once (Ipc.population_of_populated population) distinct (idle_of_list idle)
    (fun t _ => settled_of_fresh fresh t) run listed
  have out : 1 ∉ inHand s.stack := by
    rw [empty]
    exact List.not_mem_nil
  exact ⟨k, s, as, ok_of_toOption booted, run, empty, other, once, (owing out).2 other⟩

/-! ### A thread with another one's id -/

/-- A local id, and the global id of another thread. -/
def namesake : Word := 0x20004041#32

/-- The root thread makes two threads; the UTCB location of the first one is the global id of the second. -/
def sameIds : List (Kernel → Kernel.Action) :=
  [fun _ => .pendsv,
    fun k => SmallSystem.load 0x4000#32 rootId 0#32 k.kipFpage (Fpage.log2 0x20004000#32 12) 0#32 1#32 k] ++ SmallSystem.serve ++
  [SmallSystem.load 0x4000#32 SmallSystem.secondId rootId rootId rootId namesake 2#32] ++ SmallSystem.serve ++
  [SmallSystem.load 0x4000#32 namesake rootId rootId nilThread 0x20004200#32 2#32] ++ SmallSystem.serve

/-- The root thread starts the first thread, and waits to send to the second when the first one receives from anyone. -/
def sendNamesake : List (Calls → Action) :=
  (fun s => .call 2 { (s.kernel.tcbs 2).ctx with sp := 0x4000#32 }
    ((s.kernel.mem.setUtcb 0x5000#32 fun u => ((u.setMr 0 2#32).setMr 1 0x1234#32).setMr 2 0x6020#32).setFrame 0x4000#32
      fun f => { f with r0 := SmallSystem.secondId, r1 := nilThread, r2 := 0#32 })) :: advances 7 ++
  ask 2 0x4000#32 namesake nilThread 0#32 :: advances 6 ++ ask 3 0x6000#32 nilThread anyThread 0#32 :: advances 12

/-- Copies and errors are the same ones. -/
def sameEnds : List Event → List Event → Bool
  | [], [] => true
  | .copied src dst :: es, .copied src' dst' :: es' => decide (src = src' ∧ dst = dst') && sameEnds es es'
  | .failed t p err :: es, .failed t' p' err' :: es' => decide (t = t' ∧ p = p' ∧ err = err') && sameEnds es es'
  | _, _ => false

theorem eq_of_sameEnds {es es' : List Event} (h : sameEnds es es' = true) : es = es' := by
  fun_induction sameEnds es es' with
  | case1 => rfl
  | case2 src dst es src' dst' es' ih =>
    simp only [Bool.and_eq_true, decide_eq_true_eq] at h
    obtain ⟨⟨rfl, rfl⟩, rest⟩ := h
    rw [ih rest]
  | case3 t p err es t' p' err' es' ih =>
    simp only [Bool.and_eq_true, decide_eq_true_eq] at h
    obtain ⟨⟨rfl, rfl, rfl⟩, rest⟩ := h
    rw [ih rest]
  | case4 => cases h

/-- The message goes to the first thread, whose global id is another one. -/
theorem namesake_receives : ∃ b k s as as', boot SmallSystem.bootInfo = .ok b ∧ Theory.Run Kernel.Step b as k ∧
    Population k ∧ (∀ t, k.Listed t → ¬ k.Waits t) ∧ (∀ t, k.Listed t → Settled k t) ∧
    Theory.Run (Theory.Guarded (fun s a => Allowed s a ∧ Clear s a) Step) ⟨k, []⟩ as' s ∧ s.stack = [] ∧ s.kernel.Listed 2 ∧
    s.kernel.state 2 ≠ .sendBlocked ∧ (namesake, [.copied 2 3]) ∈ sendPhases 2 s.kernel.trace ∧
    (s.kernel.tcbs 3).globalId ≠ namesake ∧ ¬ Settled s.kernel 2 := by
  have done : ((SmallSystem.after sameIds).any fun k => Ipc.populated k &&
      decide (∀ i < k.threadCount, ¬ k.Waits (k.threadList i)) && k.trace.all Event.notSend &&
      (Theory.follow (checked permitted) ⟨k, []⟩ sendNamesake).any fun s =>
        decide (s.stack = [] ∧ (∃ i < s.kernel.threadCount, s.kernel.threadList i = 2) ∧ s.kernel.state 2 ≠ .sendBlocked ∧
          (s.kernel.tcbs 3).globalId ≠ namesake) &&
        (sendPhases 2 s.kernel.trace).any fun phase => decide (phase.1 = namesake) && sameEnds phase.2 [.copied 2 3]) = true := by
    decide +kernel
  obtain ⟨b, k, as, booted, reached, _, holds⟩ := SmallSystem.reached_after done
  simp only [Bool.and_eq_true, decide_eq_true_eq] at holds
  obtain ⟨⟨⟨population, idle⟩, fresh⟩, later⟩ := holds
  obtain ⟨s, ran, ends⟩ := (Option.any_eq_true _ _).mp later
  obtain ⟨facts, phases⟩ := Bool.and_eq_true_iff.mp ends
  obtain ⟨empty, listed, runs, apart⟩ := of_decide_eq_true facts
  obtain ⟨⟨dest, es⟩, member, same⟩ := List.any_eq_true.mp phases
  simp only [Bool.and_eq_true, decide_eq_true_eq] at same
  obtain ⟨rfl, once⟩ := same
  obtain rfl := eq_of_sameEnds once
  obtain ⟨as', run⟩ := Theory.run_of_follow (guarded_of_checked clear_of_permitted) ran
  refine ⟨b, k, s, as, as', booted, reached, Ipc.population_of_populated population, idle_of_list idle,
    fun t _ => settled_of_fresh fresh t, run, empty, listed, runs, member, apart, fun settled => ?_⟩
  rcases settled _ member with ⟨d, _, name, copied | started⟩ | ⟨err, failed⟩
  · cases copied
    exact apart name.symm
  · cases started
  · cases failed

/-! ### A tick inside `ipc_send` -/

/-- The idle thread's timeout fires when the alarm is set and its state is not yet stored for the second time; then the root
thread receives from anyone. -/
def tickInside : List (Calls → Action) :=
  ask 1 0x6000#32 rootId nilThread 0x04010000#32 :: advances 2 ++ (fun _ => .timeout idleId) :: advances 4 ++
    ask 2 0x4000#32 nilThread anyThread 0#32 :: advances 12

/-- The error was reported, and the message arrives all the same. -/
theorem tickInside_both : ∃ k s as, boot SmallSystem.bootInfo = .ok k ∧ Theory.Run (Theory.Guarded Allowed Step) ⟨k, []⟩ as s ∧
    s.stack = [] ∧ (rootId, [.copied 1 2, .failed 1 false .timeout]) ∈ sendPhases 1 s.kernel.trace := by
  have done : ((boot SmallSystem.bootInfo).toOption.any fun k =>
      (Theory.follow (checked names) ⟨k, []⟩ tickInside).any fun s =>
        decide (s.stack = []) && (sendPhases 1 s.kernel.trace).any fun phase =>
          decide (phase.1 = rootId) && sameEnds phase.2 [.copied 1 2, .failed 1 false .timeout]) = true := by decide +kernel
  obtain ⟨k, booted, later⟩ := (Option.any_eq_true _ _).mp done
  obtain ⟨s, ran, ends⟩ := (Option.any_eq_true _ _).mp later
  simp only [Bool.and_eq_true, decide_eq_true_eq] at ends
  obtain ⟨empty, phases⟩ := ends
  obtain ⟨⟨dest, es⟩, member, same⟩ := List.any_eq_true.mp phases
  simp only [Bool.and_eq_true, decide_eq_true_eq] at same
  obtain ⟨rfl, both⟩ := same
  obtain rfl := eq_of_sameEnds both
  obtain ⟨as, run⟩ := Theory.run_of_follow (guarded_of_checked allowed_of_names) ran
  exact ⟨k, s, as, ok_of_toOption booted, run, empty, member⟩

end Calls
end BradypOS
