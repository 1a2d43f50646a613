import BradypOS.Heap.Repair
import BradypOS.Scheduler.Basic

/-!
# Threads of equal priority

`schedule_next_thread` puts the current thread behind the others and takes the one at the root. `pop`
then moves the last thread to the root, which is the one that was just put back: two equal threads take
turns, and a third one never runs.
-/

namespace BradypOS.Scheduler

open Kernel

variable {k k' : Kernel} {threads rest : List Nat} {a : Alarms} {x : Nat}

def rearmed (a : Alarms) : Fallible Alarms := a.updateKalarmEvent .reschedule (a.currentTime + 10#32)

def rearmedTimes : Nat → Alarms → Fallible Alarms
  | 0, a => .ok a
  | n + 1, a => do
    let a ← rearmed a
    rearmedTimes n a

/-- Consecutive calls of `schedule_next_thread`, and the threads that they select. -/
def rounds : Nat → Kernel → Fallible (List Nat × Kernel)
  | 0, k => .ok ([], k)
  | n + 1, k => do
    let k ← k.scheduleNextThread
    let (later, k') ← rounds n k
    .ok (k.currentThreadIdx :: later, k')

/-- The threads in the heap, and behind them the current one if it can go on. -/
def contenders (k : Kernel) : List Nat :=
  if k.currentThreadIdx ≠ invalidIdx ∧ k.state k.currentThreadIdx = .runnable then k.ready ++ [k.currentThreadIdx] else k.ready

/-- The threads of the scheduler, all of one priority; nobody is asked for. -/
structure Peers (k : Kernel) (threads : List Nat) : Prop where
  members : (contenders k).Perm threads
  distinct : threads.Nodup
  slots : ∀ t ∈ threads, t < maxThreads
  runnable : ∀ t ∈ threads, k.state t = .runnable
  equal : ∀ t ∈ threads, ∀ u ∈ threads, (k.tcbs t).priority = (k.tcbs u).priority
  untargeted : k.scheduleTarget = none

structure Turned (k : Kernel) (x : Nat) (rest : List Nat) (a : Alarms) (k' : Kernel) : Prop where
  current : k'.currentThreadIdx = x
  ready : k'.ready = Heap.lastFirst rest
  tcbs : k'.tcbs = k.tcbs
  target : k'.scheduleTarget = k.scheduleTarget
  alarms : k'.alarms = a

theorem Peers.level (p : Peers k threads) : Heap.Level k.compareThreadByPrio (contenders k) := by
  intro t member u member'
  unfold compareThreadByPrio
  rw [p.equal t (p.members.mem_iff.mp member) u (p.members.mem_iff.mp member')]
  simp [BitVec.ult]

theorem requeueCurrent_contenders (p : Peers k threads) : k.requeueCurrent.ready = contenders k ∧
    k.requeueCurrent.tcbs = k.tcbs ∧ k.requeueCurrent.scheduleTarget = k.scheduleTarget ∧ k.requeueCurrent.alarms = k.alarms := by
  have level := p.level
  have members := p.members
  unfold contenders at level members
  unfold requeueCurrent contenders
  split
  · rename_i goesOn
    rw [if_pos goesOn] at level members
    refine ⟨?_, rfl, rfl, rfl⟩
    have distinct : (k.ready ++ [k.currentThreadIdx]).Nodup := members.nodup_iff.mpr p.distinct
    have apart := List.nodup_append.mp distinct
    have slot : ∀ t ∈ k.ready ++ [k.currentThreadIdx], t < maxThreads := fun t member => p.slots t (members.mem_iff.mp member)
    have room := room_of_nodup apart.1 (fun t member => slot t (List.mem_append_left _ member))
      (fun member => apart.2.2 _ member _ (List.mem_singleton.mpr rfl) rfl) (slot _ (by simp))
    refine Heap.insert_level _ (fun t member u member' => level t ?_ u ?_) room
    · simpa [or_comm, Kernel.ready] using member
    · simpa [or_comm, Kernel.ready] using member'
  · exact ⟨rfl, rfl, rfl, rfl⟩

/-- One call takes the first thread, if the time slice can begin again. -/
theorem scheduleNextThread_turned (p : Peers k threads) (line : contenders k = x :: rest) :
    ∃ turn : Alarms → Kernel, k.scheduleNextThread = (rearmed k.alarms >>= fun a => .ok (turn a)) ∧
      ∀ a, Turned k x rest a (turn a) := by
  obtain ⟨ready, tcbs, target, alarms⟩ := requeueCurrent_contenders p
  generalize moved : k.requeueCurrent = k₁ at ready tcbs target alarms
  have first : k₁.schedule.toList = x :: rest := ready.trans line
  have nonempty : k₁.schedule.size ≠ 0 := by
    rw [← Heap.length_toList, first]
    exact Nat.succ_ne_zero _
  have level : Heap.Level k₁.compareThreadByPrio k₁.schedule.toList := by
    have same : k₁.compareThreadByPrio = k.compareThreadByPrio := by
      unfold compareThreadByPrio
      rw [tcbs]
    rw [same, first, ← line]
    exact p.level
  obtain ⟨rest', whole, popped⟩ := Heap.pop_level _ level nonempty
  obtain ⟨root, same⟩ := List.cons.inj (whole.symm.trans first)
  subst same
  have selected : k₁.selectThread = .ok (x, k₁.schedulePop) := by
    unfold selectThread
    rw [target, p.untargeted]
    dsimp only
    unfold findThreadIdxToSchedule
    rw [kassert_of (decide_eq_true nonempty), root]
    rfl
  refine ⟨fun a => ((k₁.schedulePop.setAlarms a).setCurrent x).log (.selected x), ?_, fun a => ⟨rfl, popped, tcbs, target, rfl⟩⟩
  unfold scheduleNextThread
  rw [moved, selected]
  show (k₁.alarms.updateKalarmEvent .reschedule (k₁.alarms.currentTime + 10#32) >>= fun _ => _) = _
  rw [alarms]
  rfl

theorem Turned.contenders (p : Peers k threads) (member : x ∈ threads) (t : Turned k x rest a k') :
    contenders k' = Heap.lastFirst rest ++ [x] := by
  have valid : x ≠ invalidIdx := by
    have slot := p.slots x member
    unfold maxThreads at slot
    unfold invalidIdx
    omega
  have runs : k'.state x = .runnable := by
    unfold Kernel.state
    rw [t.tcbs]
    exact p.runnable x member
  unfold Scheduler.contenders
  rw [t.current, if_pos ⟨valid, runs⟩, t.ready]

theorem lastFirst_perm (l : List Nat) : (Heap.lastFirst l).Perm l := by
  induction l using List.reverseRecOn with
  | nil => exact .refl _
  | append_singleton l x _ =>
    rw [Heap.lastFirst_concat]
    exact (List.perm_append_singleton x l).symm

theorem Turned.peers (p : Peers k threads) (line : Scheduler.contenders k = x :: rest) (t : Turned k x rest a k') : Peers k' threads := by
  have member : x ∈ threads := p.members.mem_iff.mp (by rw [line]; exact List.mem_cons_self)
  refine ⟨?_, p.distinct, p.slots, fun u member => ?_, ?_, t.target.trans p.untargeted⟩
  · have order : (Heap.lastFirst rest ++ [x]).Perm (x :: rest) := (List.perm_append_singleton x _).trans ((lastFirst_perm rest).cons x)
    rw [t.contenders p member]
    exact order.trans (line ▸ p.members)
  · unfold Kernel.state
    rw [t.tcbs]
    exact p.runnable u member
  · rw [t.tcbs]
    exact p.equal

/-! ### Several calls -/

theorem rounds_first {n : Nat} {ids : List Nat} (p : Peers k threads) (line : contenders k = x :: rest)
    (h : rounds (n + 1) k = .ok (ids, k')) : ∃ k₁ later, Peers k₁ threads ∧ contenders k₁ = Heap.lastFirst rest ++ [x] ∧
      rearmed k.alarms = .ok k₁.alarms ∧ rounds n k₁ = .ok (later, k') ∧ ids = x :: later := by
  obtain ⟨turn, call, turned⟩ := scheduleNextThread_turned p line
  obtain ⟨k₁, selected, h⟩ := bind_ok h
  obtain ⟨⟨later, _⟩, rest', h⟩ := bind_ok h
  cases h
  rw [call] at selected
  obtain ⟨a, again, selected⟩ := bind_ok selected
  cases selected
  have t := turned a
  have member : x ∈ threads := p.members.mem_iff.mp (by rw [line]; exact List.mem_cons_self)
  refine ⟨turn a, later, t.peers p line, t.contenders p member, ?_, rest', ?_⟩
  · rw [t.alarms]
    exact again
  · rw [t.current]

theorem contenders_cons (p : Peers k threads) (some : threads ≠ []) : ∃ x rest, contenders k = x :: rest := by
  refine List.exists_cons_of_ne_nil fun none => some ?_
  exact List.nil_perm.mp (none ▸ p.members)

/-- Whether the calls return depends on the time slice alone. -/
theorem rounds_returns {n : Nat} (p : Peers k threads) (some : threads ≠ []) :
    (∃ r, rounds n k = .ok r) ↔ ∃ a, rearmedTimes n k.alarms = .ok a := by
  induction n generalizing k with
  | zero => exact iff_of_true ⟨_, rfl⟩ ⟨_, rfl⟩
  | succ n ih =>
    obtain ⟨x, rest, line⟩ := contenders_cons p some
    constructor
    · rintro ⟨⟨ids, k'⟩, h⟩
      obtain ⟨k₁, later, p₁, _, again, h, _⟩ := rounds_first p line h
      obtain ⟨a, times⟩ := (ih p₁).mp ⟨_, h⟩
      refine ⟨a, ?_⟩
      rw [rearmedTimes, again]
      exact times
    · intro ⟨a, h⟩
      obtain ⟨a₁, again, times⟩ := bind_ok h
      obtain ⟨turn, call, turned⟩ := scheduleNextThread_turned p line
      have t := turned a₁
      rw [← t.alarms] at times
      obtain ⟨⟨later, k'⟩, h⟩ := (ih (t.peers p line)).mpr ⟨a, times⟩
      refine ⟨((turn a₁).currentThreadIdx :: later, k'), ?_⟩
      rw [rounds, call, again]
      show (rounds n (turn a₁) >>= _) = _
      rw [h]
      rfl

/-- Of three threads or more, the first one is chosen again before the third. -/
theorem rounds_repeat {n : Nat} {ids : List Nat} (p : Peers k threads) {y z : Nat} (line : contenders k = x :: y :: z :: rest)
    (h : rounds (n + 3) k = .ok (ids, k')) : ¬ ids.Nodup := by
  obtain ⟨k₁, later, p₁, line₁, _, second, rfl⟩ := rounds_first p line h
  obtain ⟨init, w, whole⟩ : ∃ init w, y :: z :: rest = init ++ [w] := ⟨_, _, (List.dropLast_append_getLast (by simp)).symm⟩
  rw [whole, Heap.lastFirst_concat, List.cons_append] at line₁
  obtain ⟨k₂, later, p₂, line₂, _, third, rfl⟩ := rounds_first p₁ line₁ second
  rw [Heap.lastFirst_concat] at line₂
  obtain ⟨k₃, later, _, _, _, _, rfl⟩ := rounds_first p₂ line₂ third
  simp

/-- As many calls as there are equal threads select each of them once, if and only if there are no more than two and
the time slice can begin again each time. -/
theorem rounds_iff (p : Peers k threads) :
    (∃ ids k', rounds threads.length k = .ok (ids, k') ∧ ids.Perm threads) ↔
      threads.length ≤ 2 ∧ ∃ a, rearmedTimes threads.length k.alarms = .ok a := by
  have members := p.members
  match line : contenders k with
  | [] =>
    rw [line] at members
    cases List.nil_perm.mp members
    exact iff_of_true ⟨[], k, rfl, .refl _⟩ ⟨by simp, k.alarms, rfl⟩
  | [x] =>
    rw [line] at members
    have length : threads.length = 1 := members.length_eq.symm
    rw [length]
    constructor
    · intro ⟨ids, k', h, _⟩
      exact ⟨by omega, (rounds_returns p (List.length_pos_iff.mp (by omega))).mp ⟨_, h⟩⟩
    · intro ⟨_, times⟩
      obtain ⟨⟨ids, k'⟩, h⟩ := (rounds_returns p (List.length_pos_iff.mp (by omega))).mpr times
      obtain ⟨_, later, _, _, _, last, rfl⟩ := rounds_first p line h
      cases last
      exact ⟨[x], _, h, members⟩
  | [x, y] =>
    rw [line] at members
    have length : threads.length = 2 := members.length_eq.symm
    rw [length]
    constructor
    · intro ⟨ids, k', h, _⟩
      exact ⟨by omega, (rounds_returns p (List.length_pos_iff.mp (by omega))).mp ⟨_, h⟩⟩
    · intro ⟨_, times⟩
      obtain ⟨⟨ids, k'⟩, h⟩ := (rounds_returns p (List.length_pos_iff.mp (by omega))).mpr times
      obtain ⟨_, later, p₁, line₁, _, second, rfl⟩ := rounds_first p line h
      obtain ⟨_, later, _, _, _, last, rfl⟩ := rounds_first p₁ line₁ second
      cases last
      exact ⟨[x, y], _, h, members⟩
  | x :: y :: z :: rest =>
    rw [line] at members
    have length : threads.length = rest.length + 3 := members.length_eq.symm
    refine iff_of_false ?_ (by omega)
    intro ⟨ids, k', h, once⟩
    rw [length] at h
    exact rounds_repeat p line h (once.nodup_iff.mpr p.distinct)

/-- The first slots hold threads of one priority; the last of them runs, and the others wait. -/
def inTurn (n : Nat) : Kernel :=
  let k := init SmallSystem.bootInfo
  ((k.setTcbs fun t => { k.tcbs t with state := .runnable }).setSchedule ⟨n, id⟩).setCurrent n

theorem rounds_iff_two : ∃ ids k', rounds 2 (inTurn 1) = .ok (ids, k') ∧ ids.Perm [0, 1] := by
  have peers : Peers (inTurn 1) [0, 1] := ⟨by decide, by decide, by decide, by decide, by decide, rfl⟩
  have times : (rearmedTimes 2 (inTurn 1).alarms).toOption.isSome = true := by decide
  obtain ⟨a, found⟩ := Option.isSome_iff_exists.mp times
  exact (rounds_iff peers).mpr ⟨by decide, a, ok_of_toOption found⟩

theorem rounds_starve : Peers (inTurn 2) [0, 1, 2] ∧ ∃ k', rounds 3 (inTurn 2) = .ok ([0, 2, 0], k') ∧ ¬ [0, 2, 0].Perm [0, 1, 2] := by
  refine ⟨⟨by decide, by decide, by decide, by decide, by decide, rfl⟩, ?_⟩
  have done : ((rounds 3 (inTurn 2)).toOption.any fun r => r.1 = [0, 2, 0]) = true := by decide
  obtain ⟨⟨ids, k'⟩, found, chosen⟩ := (Option.any_eq_true _ _).mp done
  cases of_decide_eq_true chosen
  exact ⟨k', ok_of_toOption found, by decide⟩

end BradypOS.Scheduler
