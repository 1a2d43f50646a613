import BradypOS.Ipc.Derivation
import BradypOS.Kernel.Evaluate

/-!
# Answering a message

`copy_payload` leaves the sender's id in the receiver's `r0`: a local id inside a space, a global one
between spaces. Whether a later send to that id finds the sender depends on how the id is classified
and, for a local one, on the sender's place among its siblings, of which the search visits every other.
-/

namespace BradypOS

open L4

namespace Memory

theorem copyPayload_sender {m m' : Memory} {src dst : Tcb} (h : m.copyPayload src dst = .ok (.none, m')) :
    (m'.frame dst.ctx.sp).r0 = if dst.addressSpace = src.addressSpace then src.localId else src.globalId := by
  unfold copyPayload at h
  dsimp only at h
  split at h
  · cases h
  · obtain ⟨⟨err, m₁, n⟩, -, h⟩ := bind_ok h
    dsimp only at h
    split at h
    · rename_i failed
      cases h
      exact absurd rfl failed
    · cases h
      simp only [setFrame, Function.update_self]

end Memory

namespace Kernel

/-- The id under which `receiver` knows a message of `sender`. -/
def senderId (k : Kernel) (sender receiver : Nat) : Word :=
  if (k.tcbs receiver).addressSpace = (k.tcbs sender).addressSpace then (k.tcbs sender).localId else (k.tcbs sender).globalId

/-- The `n`-th thread along the siblings from `start`. -/
def siblingFrom (k : Kernel) : Option Nat → Nat → Option Nat
  | start, 0 => start
  | start, n + 1 => siblingFrom k (start.bind fun t => (k.tcbs t).nextSibling) n

/-- The `n`-th thread of the list that starts at the space's first thread. -/
def sibling (k : Kernel) (as n : Nat) : Option Nat := k.siblingFrom (some (k.asPool as).firstThread) n

/-- The thread waits to receive, under a local id that is not told apart from `id`. -/
def WaitsUnder (k : Kernel) (id : Word) (t : Nat) : Prop := k.state t = .recvBlocked ∧ sameThreads (k.tcbs t).localId id = true

instance (k : Kernel) (id : Word) (t : Nat) : Decidable (k.WaitsUnder id t) := inferInstanceAs (Decidable (_ ∧ _))

/-- When a message from `receiver` to `id` reaches the thread `sender`, which waits for it. -/
inductive Answerable (k : Kernel) (receiver sender : Nat) (id : Word) : Prop where
  /-- A local id: the sender is the first, third, fifth ... sibling, and no such sibling before it waits under the id. -/
  | byPlace {as i : Nat} (addressed : isLocalId id = true) (space : (k.tcbs receiver).addressSpace = some as)
      (named : sameThreads (k.tcbs sender).localId id = true) (within : i ≤ maxThreads) (place : k.sibling as (2 * i) = some sender)
      (first : ∀ j < i, ∀ t, k.sibling as (2 * j) = some t → ¬ k.WaitsUnder id t)
  /-- Any other id: the thread table has the sender under it. -/
  | byNumber (addressed : isLocalId id = false) (named : id ≠ anyThread ∧ id ≠ anyLocalThread)
      (listed : k.findThreadByGlobalId id = some sender)
  /-- An id that is a wildcard: the sender is the first thread that waits for the receiver. -/
  | byTable {i : Nat} (wild : id = anyThread) (within : i < k.threadCount) (place : k.getThreadByIndex i = sender)
      (first : ∀ j < i, k.isReadyPartner receiver true (k.getThreadByIndex j) = false)
  | bySpace {as i : Nat} (wild : id = anyLocalThread) (space : (k.tcbs receiver).addressSpace = some as) (within : i ≤ maxThreads)
      (place : k.sibling as i = some sender)
      (first : ∀ j < i, ∀ t, k.sibling as j = some t → k.isReadyPartner receiver true t = false)

section
variable {k : Kernel} {receiver sender fuel : Nat} {id : Word} {start : Option Nat}

theorem siblingFrom_none (k : Kernel) (n : Nat) : k.siblingFrom none n = none := by
  induction n with
  | zero => rfl
  | succ n ih => exact ih

/-! ### The three searches -/

/-- The walk over every other sibling stops at the first that waits under the id. -/
theorem localLoop_iff (waits : k.isReadyPartner receiver true sender = true) (named : sameThreads (k.tcbs sender).localId id = true) :
    k.localLoop receiver id true fuel start = .ok (.found sender) ↔
      ∃ i < fuel, k.siblingFrom start (2 * i) = some sender ∧
        ∀ j < i, ∀ t, k.siblingFrom start (2 * j) = some t → ¬ k.WaitsUnder id t := by
  induction fuel generalizing start with
  | zero => cases start <;> simp [localLoop]
  | succ fuel ih =>
    cases start with
    | none => simp [localLoop, siblingFrom_none]
    | some current =>
      have skip : ∀ n, k.siblingFrom (some current) (2 * (n + 1)) =
          k.siblingFrom ((k.tcbs current).nextSibling.bind fun t => (k.tcbs t).nextSibling) (2 * n) := fun n => rfl
      by_cases here : k.WaitsUnder id current
      · have stops : k.localLoop receiver id true (fuel + 1) (some current) =
            if k.isViableIpcPartner receiver current then .ok (.found current) else .ok .notready := by
          rw [localLoop, if_pos]
          simpa [partnerState, WaitsUnder] using here
        rw [stops]
        constructor
        · intro found
          split at found
          · cases found
            exact ⟨0, Nat.succ_pos _, rfl, fun j hj => absurd hj (Nat.not_lt_zero j)⟩
          · cases found
        · rintro ⟨i, -, place, first⟩
          cases i with
          | zero =>
            cases place
            have viable : k.isViableIpcPartner receiver sender = true := (Bool.and_eq_true_iff.mp waits).2
            rw [if_pos viable]
          | succ i => exact absurd here (first 0 (Nat.succ_pos i) current rfl)
      · have other : ¬ (decide (k.state current = partnerState true) && sameThreads (k.tcbs current).localId id) = true := by
          simpa [partnerState, WaitsUnder] using here
        have elsewhere : current ≠ sender := by
          rintro rfl
          exact here ⟨isReadyPartner_waits waits, named⟩
        rw [localLoop, if_neg other]
        cases next : (k.tcbs current).nextSibling with
        | none =>
          constructor
          · intro found
            cases found
          · rintro ⟨i, -, place, -⟩
            cases i with
            | zero => exact absurd (Option.some.inj place) elsewhere
            | succ i =>
              rw [skip, next, Option.bind_none, siblingFrom_none] at place
              cases place
        | some n =>
          dsimp only
          rw [ih]
          constructor
          · rintro ⟨i, within, place, first⟩
            refine ⟨i + 1, Nat.succ_lt_succ within, ?_, fun j hj t at_ => ?_⟩
            · rw [skip, next]
              exact place
            · cases j with
              | zero =>
                cases at_
                exact here
              | succ j =>
                rw [skip, next] at at_
                exact first j (Nat.lt_of_succ_lt_succ hj) t at_
          · rintro ⟨i, within, place, first⟩
            cases i with
            | zero => exact absurd (Option.some.inj place) elsewhere
            | succ i =>
              rw [skip, next] at place
              refine ⟨i, Nat.lt_of_succ_lt_succ within, place, fun j hj t at_ => ?_⟩
              apply first (j + 1) (Nat.succ_lt_succ hj) t
              rw [skip, next]
              exact at_

theorem localLoop_named (h : k.localLoop receiver id true fuel start = .ok (.found sender)) :
    sameThreads (k.tcbs sender).localId id = true := by
  induction fuel generalizing start with
  | zero => cases start <;> cases h
  | succ fuel ih =>
    cases start with
    | none => cases h
    | some current =>
      rw [localLoop] at h
      split at h
      · rename_i here
        split at h
        · cases h
          exact (Bool.and_eq_true_iff.mp here).2
        · cases h
      · split at h
        · cases h
        · exact ih h

theorem anylocalLoop_iff (waits : k.isReadyPartner receiver true sender = true) :
    k.anylocalLoop receiver true fuel start = .ok (.found sender) ↔
      ∃ i < fuel, k.siblingFrom start i = some sender ∧
        ∀ j < i, ∀ t, k.siblingFrom start j = some t → k.isReadyPartner receiver true t = false := by
  induction fuel generalizing start with
  | zero => cases start <;> simp [anylocalLoop]
  | succ fuel ih =>
    cases start with
    | none => simp [anylocalLoop, siblingFrom_none]
    | some current =>
      rw [anylocalLoop]
      split
      · rename_i ready
        constructor
        · intro found
          cases found
          exact ⟨0, Nat.succ_pos _, rfl, fun j hj => absurd hj (Nat.not_lt_zero j)⟩
        · rintro ⟨i, -, place, first⟩
          cases i with
          | zero => cases place; rfl
          | succ i =>
            rw [first 0 (Nat.succ_pos i) current rfl] at ready
            cases ready
      · rename_i unready
        rw [ih]
        constructor
        · rintro ⟨i, within, place, first⟩
          refine ⟨i + 1, Nat.succ_lt_succ within, place, fun j hj t at_ => ?_⟩
          cases j with
          | zero =>
            cases at_
            exact Bool.eq_false_iff.mpr unready
          | succ j => exact first j (Nat.lt_of_succ_lt_succ hj) t at_
        · rintro ⟨i, within, place, first⟩
          cases i with
          | zero =>
            cases place
            exact absurd waits unready
          | succ i => exact ⟨i, Nat.lt_of_succ_lt_succ within, place, fun j hj => first (j + 1) (Nat.succ_lt_succ hj)⟩

theorem findIpcPartnerAny_iff :
    k.findIpcPartnerAny receiver true = .found sender ↔
      k.isReadyPartner receiver true sender = true ∧ ∃ i < k.threadCount, k.getThreadByIndex i = sender ∧
        ∀ j < i, k.isReadyPartner receiver true (k.getThreadByIndex j) = false := by
  have search := @List.find?_eq_some_iff_getElem _ ((List.range k.threadCount).map k.getThreadByIndex)
    (k.isReadyPartner receiver true) sender
  simp only [List.getElem_map, List.getElem_range, List.length_map, List.length_range, Bool.not_eq_true'] at search
  have found : k.findIpcPartnerAny receiver true = .found sender ↔
      ((List.range k.threadCount).map k.getThreadByIndex).find? (k.isReadyPartner receiver true) = some sender := by
    unfold findIpcPartnerAny
    cases ((List.range k.threadCount).map k.getThreadByIndex).find? (k.isReadyPartner receiver true) <;> simp
  rw [found, search]
  constructor
  · intro ⟨ready, i, within, place, first⟩
    exact ⟨ready, i, within, place, first⟩
  · intro ⟨ready, i, within, place, first⟩
    exact ⟨ready, i, within, place, first⟩

theorem findIpcPartnerGlobal_iff (waits : k.isReadyPartner receiver true sender = true) :
    k.findIpcPartnerGlobal receiver id true = .found sender ↔ k.findThreadByGlobalId id = some sender := by
  unfold findIpcPartnerGlobal
  cases k.findThreadByGlobalId id with
  | none => simp
  | some t =>
    dsimp only
    constructor
    · intro found
      split at found
      · cases found
        rfl
      · split at found
        · cases found
        · split at found <;> cases found
    · rintro same
      cases same
      rw [if_pos waits]

/-! ### The search by an id -/

theorem findIpcPartner_iff (waits : k.isReadyPartner receiver true sender = true) :
    k.findIpcPartner receiver id true = .ok (.found sender) ↔ Answerable k receiver sender id := by
  unfold findIpcPartner
  by_cases wild : id = anyThread
  · rw [if_pos wild, Except.ok.injEq, findIpcPartnerAny_iff]
    constructor
    · rintro ⟨-, i, within, place, first⟩
      exact .byTable wild within place first
    · rintro (⟨addressed, -, -, -, -, -⟩ | ⟨-, named, -⟩ | ⟨-, within, place, first⟩ | ⟨other, -, -, -, -⟩)
      · rw [wild] at addressed
        exact absurd addressed (by decide)
      · exact absurd wild named.1
      · exact ⟨waits, _, within, place, first⟩
      · rw [wild] at other
        exact absurd other (by decide)
  rw [if_neg wild]
  by_cases wildSpace : id = anyLocalThread
  · rw [if_pos wildSpace]
    unfold findIpcPartnerAnylocal
    constructor
    · intro found
      split at found
      · cases found
      · rename_i as space
        obtain ⟨i, within, place, first⟩ := (anylocalLoop_iff waits).mp found
        exact .bySpace wildSpace space (Nat.le_of_lt_succ within) place first
    · rintro (⟨addressed, -, -, -, -, -⟩ | ⟨-, named, -⟩ | ⟨other, -, -, -⟩ | ⟨-, space, within, place, first⟩)
      · rw [wildSpace] at addressed
        exact absurd addressed (by decide)
      · exact absurd wildSpace named.2
      · exact absurd other wild
      · rw [space]
        exact (anylocalLoop_iff waits).mpr ⟨_, Nat.lt_succ_of_le within, place, first⟩
  rw [if_neg wildSpace]
  by_cases addressed : isLocalId id = true
  · rw [if_pos addressed]
    unfold findIpcPartnerLocal
    constructor
    · intro found
      split at found
      · cases found
      · rename_i as space
        have named := localLoop_named found
        obtain ⟨i, within, place, first⟩ := (localLoop_iff waits named).mp found
        exact .byPlace addressed space named (Nat.le_of_lt_succ within) place first
    · rintro (⟨-, space, named, within, place, first⟩ | ⟨other, -, -⟩ | ⟨other, -, -, -⟩ | ⟨other, -, -, -, -⟩)
      · rw [space]
        exact (localLoop_iff waits named).mpr ⟨_, Nat.lt_succ_of_le within, place, first⟩
      · rw [addressed] at other
        cases other
      · exact absurd other wild
      · exact absurd other wildSpace
  · rw [if_neg addressed, Except.ok.injEq, findIpcPartnerGlobal_iff waits]
    constructor
    · exact .byNumber (Bool.eq_false_iff.mpr addressed) ⟨wild, wildSpace⟩
    · rintro (⟨other, -, -, -, -, -⟩ | ⟨-, -, listed⟩ | ⟨other, -, -, -⟩ | ⟨other, -, -, -, -⟩)
      · exact absurd other addressed
      · exact listed
      · exact absurd other wild
      · exact absurd other wildSpace

/-- A message is answered by a send to the id it left in `r0`, while its sender waits for that,
exactly if the id leads to the sender. -/
theorem answered_iff {k' k'' : Kernel} (received : k.copyPayload sender receiver = .ok (.none, k'))
    (waits : k''.isReadyPartner receiver true sender = true) :
    k''.findIpcPartner receiver (k'.mem.frame (k.tcbs receiver).ctx.sp).r0 true = .ok (.found sender) ↔
      Answerable k'' receiver sender (k.senderId sender receiver) := by
  obtain ⟨mem, copied, rfl⟩ := copyPayload_spec received
  have left := Memory.copyPayload_sender copied
  rw [if_pos rfl]
  show k''.findIpcPartner receiver (mem.frame (k.tcbs receiver).ctx.sp).r0 true = _ ↔ _
  rw [left]
  exact findIpcPartner_iff waits

end

/-! ### A root thread that is answered and does not answer -/

/-- The second thread waits for the root thread, which sends to it and waits for the answer. -/
def rootAsks : List (Kernel → Action) :=
  SmallSystem.setup ++ [SmallSystem.load 0x6000#32 nilThread rootId 0#32 0#32 0#32 5#32] ++ SmallSystem.serve ++
  [SmallSystem.load 0x4000#32 SmallSystem.secondId SmallSystem.secondId 0#32 0#32 0#32 5#32, fun _ => .svc, fun _ => .pendsv]

/-- The second thread knows the root thread under its UTCB address, and finds it there. -/
theorem answered_rootAsks : ∃ k k' k'' as, k.copyPayload 2 3 = .ok (.none, k') ∧ Theory.Run Step k as k'' ∧
    k''.findIpcPartner 3 (k'.mem.frame (k.tcbs 3).ctx.sp).r0 true = .ok (.found 2) := by
  have done : ((SmallSystem.after rootAsks).any fun k => (k.copyPayload 2 3).toOption.any fun r =>
      (Theory.follow next k [fun _ => .softirq 17]).any fun k'' =>
        decide (r.1 = .none ∧ k''.isReadyPartner 3 true 2 = true ∧ k.senderId 2 3 = 0x5000#32 ∧
          (k''.tcbs 3).addressSpace = some 0 ∧ (k''.tcbs 2).localId = 0x5000#32 ∧ k''.sibling 0 0 = some 2)) = true := by
    decide +kernel
  obtain ⟨k, _, later⟩ := (Option.any_eq_true _ _).mp done
  obtain ⟨⟨err, k'⟩, copied, later⟩ := (Option.any_eq_true _ _).mp later
  obtain ⟨k'', ran, holds⟩ := (Option.any_eq_true _ _).mp later
  obtain ⟨none, waits, id, space, utcb, place⟩ := of_decide_eq_true holds
  obtain ⟨as, run⟩ := Theory.run_of_follow step_of_next ran
  cases none
  have copied := ok_of_toOption copied
  refine ⟨k, k', k'', as, copied, run, (answered_iff copied waits).mpr ?_⟩
  rw [id]
  exact .byPlace (by decide) space (by rw [utcb]; decide) (Nat.zero_le _) place fun j hj => absurd hj (Nat.not_lt_zero j)

/-- The second thread sends to the root thread and waits for the answer; the root thread receives. -/
def secondAsks : List (Kernel → Action) :=
  SmallSystem.setup ++ [SmallSystem.load 0x6000#32 rootId rootId 0#32 0#32 0#32 5#32] ++ SmallSystem.serve ++
  [SmallSystem.load 0x4000#32 nilThread anyThread 0#32 0#32 0#32 5#32, fun _ => .svc, fun _ => .pendsv]

/-- The root thread's answer goes to the UTCB address that the message left, and finds nobody: the second
thread is the second of its space. -/
theorem secondAsks_unanswered : ∃ b k k' k'' as bs, boot SmallSystem.bootInfo = .ok b ∧ Theory.Run Step b as k ∧
    k.InKernelThread ∧ k.softirqPending = true ∧ k.copyPayload 3 2 = .ok (.none, k') ∧ Theory.Run Step k bs k'' ∧
    k''.allocated 2 = true ∧ k''.allocated 3 = true ∧ k''.isReadyPartner 2 true 3 = true ∧
    (k''.mem.frame (k''.tcbs 2).ctx.sp).r0 = (k'.mem.frame (k.tcbs 2).ctx.sp).r0 ∧
    k''.findIpcPartner 2 (k'.mem.frame (k.tcbs 2).ctx.sp).r0 true = .ok .nonexistent := by
  have done : ((SmallSystem.after secondAsks).any fun k => (k.copyPayload 3 2).toOption.any fun r =>
      (Theory.follow next k [fun _ => .softirq 17]).any fun k'' =>
        decide (r.1 = .none ∧ k.InKernelThread ∧ k.softirqPending = true ∧ k''.allocated 2 = true ∧ k''.allocated 3 = true ∧
          k''.isReadyPartner 2 true 3 = true ∧
          (k''.mem.frame (k''.tcbs 2).ctx.sp).r0 = (r.2.mem.frame (k.tcbs 2).ctx.sp).r0) &&
        decide ((k''.findIpcPartner 2 (r.2.mem.frame (k.tcbs 2).ctx.sp).r0 true).toOption = some .nonexistent)) = true := by
    decide +kernel
  obtain ⟨b, k, as, booted, run, _, later⟩ := SmallSystem.reached_after done
  obtain ⟨⟨err, k'⟩, copied, later⟩ := (Option.any_eq_true _ _).mp later
  obtain ⟨k'', ran, holds⟩ := (Option.any_eq_true _ _).mp later
  obtain ⟨holds, missed⟩ := Bool.and_eq_true_iff.mp holds
  obtain ⟨none, kernel, pending, live, live', waits, id⟩ := of_decide_eq_true holds
  obtain ⟨bs, steps⟩ := Theory.run_of_follow step_of_next ran
  cases none
  exact ⟨b, k, k', k'', as, bs, booted, run, kernel, pending, ok_of_toOption copied, steps, live, live', waits, id,
    ok_of_toOption (of_decide_eq_true missed)⟩

end Kernel
end BradypOS
