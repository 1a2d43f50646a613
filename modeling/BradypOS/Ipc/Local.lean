import BradypOS.Ipc.Runs
import BradypOS.Space.Siblings
import BradypOS.Thread.Search

/-!
# Addressing by local id

The walk along the siblings leaves out every second one, looks for threads that wait only, and tells
local ids apart by the bits above the low 14. Behind the last of an odd number of siblings it goes on
through a NULL link.
-/

namespace BradypOS.Kernel

open L4

variable {k : Kernel} {target as x : Nat} {who : Word} {sending : Bool} {list : List Nat} {start : Option Nat} {fuel : Nat}

/-- The siblings that the walk looks at. -/
def everyOther : List Nat → List Nat
  | [] => []
  | [t] => [t]
  | t :: _ :: list => t :: everyOther list

/-- The thread waits for the caller's phase, under a local id that is not told apart from `who`. -/
def waitsUnder (k : Kernel) (sending : Bool) (who : Word) (t : Nat) : Bool :=
  k.state t = partnerState sending && sameThreads (k.tcbs t).localId who

/-- The answer of the walk, by the first thread that it stops at and the number of siblings. -/
def localAnswer (k : Kernel) (target siblings : Nat) : Option Nat → Fallible PartnerSearch
  | some t => .ok (if k.isViableIpcPartner target t then .found t else .notready)
  | none => if siblings % 2 = 0 then .ok .nonexistent else .error .nullDeref

theorem localAnswer_some (k : Kernel) (target siblings t : Nat) :
    k.localAnswer target siblings (some t) = .ok (if k.isViableIpcPartner target t then .found t else .notready) := rfl

theorem localAnswer_none (k : Kernel) (target siblings : Nat) :
    k.localAnswer target siblings none = if siblings % 2 = 0 then .ok .nonexistent else .error .nullDeref := rfl

theorem localLoop_eq (walk : Theory.Path k.nextOf start (list.map some) none) (enough : list.length ≤ 2 * fuel) :
    k.localLoop target who sending fuel start =
      k.localAnswer target list.length ((everyOther list).find? (k.waitsUnder sending who)) := by
  induction fuel generalizing list start with
  | zero =>
    have empty : list = [] := List.eq_nil_of_length_eq_zero (by omega)
    subst empty
    have stop : start = none := walk
    rw [stop]
    rfl
  | succ fuel ih =>
    cases list with
    | nil =>
      have stop : start = none := walk
      rw [stop]
      rfl
    | cons t list =>
      obtain ⟨rfl, rest⟩ := walk
      rw [localLoop]
      cases here : k.waitsUnder sending who t with
      | true =>
        have first : (everyOther (t :: list)).find? (k.waitsUnder sending who) = some t := by
          cases list with
          | nil => exact List.find?_cons_of_pos here
          | cons u list => exact List.find?_cons_of_pos here
        have stops : (decide (k.state t = partnerState sending) && sameThreads (k.tcbs t).localId who) = true := here
        rw [first, if_pos stops, localAnswer_some]
        split <;> rfl
      | false =>
        have skips : ¬ (decide (k.state t = partnerState sending) && sameThreads (k.tcbs t).localId who) = true := by
          rw [← waitsUnder, here]
          simp
        rw [if_neg skips]
        cases list with
        | nil =>
          have last : (k.tcbs t).nextSibling = none := rest
          have nobody : (everyOther [t]).find? (k.waitsUnder sending who) = none := by simp [everyOther, here]
          rw [last, nobody]
          rfl
        | cons u list =>
          have next : (k.tcbs t).nextSibling = some u := rest.1
          have passed : (everyOther (t :: u :: list)).find? (k.waitsUnder sending who) =
              (everyOther list).find? (k.waitsUnder sending who) := List.find?_cons_of_neg (by simp [here])
          have parity : (t :: u :: list).length % 2 = list.length % 2 := by
            simp only [List.length_cons]
            omega
          have onward : k.localLoop target who sending fuel (k.tcbs u).nextSibling =
              k.localAnswer target list.length ((everyOther list).find? (k.waitsUnder sending who)) := by
            apply ih rest.2
            simp only [List.length_cons] at enough
            omega
          rw [next, passed]
          dsimp only
          rw [onward, localAnswer.eq_def, localAnswer.eq_def, parity]

/-- The search for a message that starts a thread answers with the thread itself. -/
def StartsBy (k : Kernel) (target : Nat) (sending : Bool) (t : Nat) : Prop :=
  sending = true ∧ k.state t = .active ∧
    ∃ pager, k.findThreadByGlobalId (k.tcbs t).pager = some pager ∧ (k.tcbs pager).addressSpace = (k.tcbs target).addressSpace

theorem findIpcPartnerGlobal_of_found (target : Nat) (sending : Bool) (found : k.findThreadByGlobalId who = some x) :
    (k.isReadyPartner target sending x = true → k.findIpcPartnerGlobal target who sending = .found x) ∧
    (k.isReadyPartner target sending x = false → ¬ k.StartsBy target sending x →
      k.findIpcPartnerGlobal target who sending = .notready) ∧
    (k.isReadyPartner target sending x = false → k.StartsBy target sending x →
      k.findIpcPartnerGlobal target who sending = .pagerMsg x) := by
  unfold findIpcPartnerGlobal
  rw [found]
  dsimp only
  refine ⟨fun ready => by rw [if_pos ready], fun unready other => ?_, fun unready starts => ?_⟩
  · rw [if_neg (by simp [unready])]
    cases pager : k.findThreadByGlobalId (k.tcbs x).pager with
    | none => rfl
    | some p =>
      dsimp only
      rw [if_neg]
      intro starts
      simp only [Bool.and_eq_true, decide_eq_true_eq] at starts
      exact other ⟨starts.1.1, starts.1.2, p, pager, starts.2⟩
  · obtain ⟨sends, active, p, pager, space⟩ := starts
    rw [if_neg (by simp [unready]), pager]
    simp [sends, active, space]

/-- The search by a local id that a sibling has. -/
theorem findIpcPartner_local (space : (k.tcbs target).addressSpace = some as) (isLocal : isLocalId who = true)
    (chain : Theory.Chain k.nextOf none (some (k.asPool as).firstThread) (list.map some)) (static : ∀ t ∈ list, t < maxThreads) :
    k.findIpcPartner target who sending =
      k.localAnswer target list.length ((everyOther list).find? (k.waitsUnder sending who)) := by
  have any : who ≠ anyThread := fun same => absurd isLocal (by rw [same]; decide)
  have anyLocal : who ≠ anyLocalThread := fun same => absurd isLocal (by rw [same]; decide)
  have nodup : list.Nodup := List.Nodup.of_map _ chain.nodup
  have short : list.length ≤ maxThreads := by
    have sub : list ⊆ List.range maxThreads := fun t member => List.mem_range.mpr (static t member)
    simpa using (nodup.subperm sub).length_le
  rw [findIpcPartner, if_neg any, if_neg anyLocal, if_pos isLocal, findIpcPartnerLocal, space]
  dsimp only
  exact localLoop_eq chain.path (by omega)

/-- When the search by the local id of `x` agrees with the search by its global id. -/
def LocalAgrees (k : Kernel) (target : Nat) (sending : Bool) (list : List Nat) (x : Nat) : Prop :=
  if k.isReadyPartner target sending x = true then
    (everyOther list).find? (k.waitsUnder sending (k.tcbs x).localId) = some x
  else (∃ m, (everyOther list).find? (k.waitsUnder sending (k.tcbs x).localId) = some m ∧
      (k.isViableIpcPartner target m = false ∨ k.StartsBy target sending x)) ∨
    k.StartsBy target sending x ∧ list.length % 2 = 0

/-- In every address space: the search by the local id of a sibling does not follow a NULL link, and answers as the search by
its global id does, messages that start a thread set aside, if and only if the first of every other sibling that waits under
the local id is that sibling, if it is ready, and is not viable, if it is not ready; and for an id of no sibling the search
answers that there is none if and only if no such sibling waits and their number is even. -/
theorem findIpcPartner_local_iff (space : (k.tcbs target).addressSpace = some as)
    (chain : Theory.Chain k.nextOf none (some (k.asPool as).firstThread) (list.map some)) (static : ∀ t ∈ list, t < maxThreads) :
    (∀ x ∈ list, ∀ sending, isLocalId (k.tcbs x).localId = true → Ordinary (k.tcbs x).globalId →
      k.findThreadByGlobalId (k.tcbs x).globalId = some x →
      ((∃ v, k.findIpcPartner target (k.tcbs x).localId sending = .ok v ∧
          (k.findIpcPartner target (k.tcbs x).globalId sending ≠ .ok (.pagerMsg x) →
            k.findIpcPartner target (k.tcbs x).globalId sending = .ok v)) ↔ k.LocalAgrees target sending list x)) ∧
    ∀ who sending, isLocalId who = true → (∀ t ∈ list, (k.tcbs t).localId ≠ who) →
      (k.findIpcPartner target who sending = .ok .nonexistent ↔
        (∀ t ∈ everyOther list, k.waitsUnder sending who t = false) ∧ list.length % 2 = 0) := by
  refine ⟨fun x _ sending isLocal ordinary found => ?_, fun who sending isLocal _ => ?_⟩
  · have byGlobal : k.findIpcPartner target (k.tcbs x).globalId sending =
        .ok (k.findIpcPartnerGlobal target (k.tcbs x).globalId sending) := by
      rw [findIpcPartner, if_neg ordinary.1, if_neg ordinary.2.1, if_neg (by simp [ordinary.2.2])]
    obtain ⟨whenReady, whenNot, whenStarts⟩ := findIpcPartnerGlobal_of_found target sending found
    rw [findIpcPartner_local space isLocal chain static, byGlobal]
    unfold LocalAgrees
    cases ready : k.isReadyPartner target sending x with
    | true =>
      have viable : k.isViableIpcPartner target x = true := (Bool.and_eq_true_iff.mp ready).2
      rw [whenReady ready, if_pos rfl]
      cases (everyOther list).find? (k.waitsUnder sending (k.tcbs x).localId) with
      | none =>
        rw [localAnswer_none]
        by_cases even : list.length % 2 = 0 <;> simp [even]
      | some m =>
        rw [localAnswer_some]
        by_cases same : m = x
        · simp [same, viable]
        · cases k.isViableIpcPartner target m <;> simp [same, Ne.symm same]
    | false =>
      rw [if_neg (by simp)]
      by_cases starts : k.StartsBy target sending x
      · rw [whenStarts ready starts]
        cases (everyOther list).find? (k.waitsUnder sending (k.tcbs x).localId) with
        | none =>
          rw [localAnswer_none]
          by_cases even : list.length % 2 = 0 <;> simp [even, starts]
        | some m =>
          rw [localAnswer_some]
          simp [starts]
      · rw [whenNot ready starts]
        cases (everyOther list).find? (k.waitsUnder sending (k.tcbs x).localId) with
        | none =>
          rw [localAnswer_none]
          by_cases even : list.length % 2 = 0 <;> simp [even, starts]
        | some m =>
          rw [localAnswer_some]
          cases viable : k.isViableIpcPartner target m <;> simp [starts, viable]
  · rw [findIpcPartner_local space isLocal chain static]
    cases first : (everyOther list).find? (k.waitsUnder sending who) with
    | none =>
      have nobody : ∀ t ∈ everyOther list, k.waitsUnder sending who t = false := fun t member => by
        simpa using List.find?_eq_none.mp first t member
      rw [localAnswer_none]
      by_cases even : list.length % 2 = 0
      · simp only [even, if_true, true_iff, and_true]
        exact nobody
      · simp [even]
    | some m =>
      have here := List.find?_some first
      have member := List.mem_of_find?_eq_some first
      rw [localAnswer_some]
      constructor
      · intro answer
        split at answer <;> cases answer
      · rintro ⟨nobody, -⟩
        rw [nobody m member] at here
        cases here

/-- Two threads of one space, of which one waits for a message from anyone. -/
def twoSiblings (waiting : Nat) : Kernel :=
  (ofTable [rootId, SmallSystem.secondId] [0, 1] 2).setTcbs fun t =>
    { (ofTable [rootId, SmallSystem.secondId] [0, 1] 2).tcbs t with
      addressSpace := some 0
      localId := if t = 0 then 0x5000#32 else 0x5100#32
      state := if t = waiting then .recvBlocked else .runnable
      ipcFrom := anyThread
      nextSibling := if t = 0 then some 1 else none }

theorem twoSiblings_chain (waiting : Nat) : Theory.Chain (twoSiblings waiting).nextOf none
    (some ((twoSiblings waiting).asPool 0).firstThread) ([0, 1].map some) := ⟨⟨rfl, rfl, rfl⟩, by simp⟩

theorem twoSiblings_agrees : (twoSiblings 0).LocalAgrees 1 true [0, 1] 0 := by
  have ready : (twoSiblings 0).isReadyPartner 1 true 0 = true := by decide
  rw [LocalAgrees, if_pos ready]
  decide

theorem findIpcPartner_local_iff_first : ∃ v, (twoSiblings 0).findIpcPartner 1 0x5000#32 true = .ok v ∧
    ((twoSiblings 0).findIpcPartner 1 rootId true ≠ .ok (.pagerMsg 0) → (twoSiblings 0).findIpcPartner 1 rootId true = .ok v) :=
  ((findIpcPartner_local_iff (k := twoSiblings 0) rfl (twoSiblings_chain 0) (by decide)).1 0
    (by decide) true (by decide) (by decide) (by decide)).mpr twoSiblings_agrees

/-- A message to the second sibling, which waits for it, finds it by its global id only. -/
theorem findIpcPartner_local_skips : (twoSiblings 1).findIpcPartner 0 0x5100#32 true = .ok .nonexistent ∧
    (twoSiblings 1).findIpcPartner 0 SmallSystem.secondId true = .ok (.found 1) := by decide

end BradypOS.Kernel
