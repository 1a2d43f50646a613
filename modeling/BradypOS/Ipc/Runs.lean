import BradypOS.Alarm.Systick
import BradypOS.Ipc.Derivation

/-!
# Runs of IPC calls and timeouts

The thread list names the live threads, whose ids are ordinary and lead back to them. A live thread
that does not wait may call; its registers and the memory are what its code left. A timeout may come
at any time, with any data.
-/

namespace BradypOS

open L4

namespace Kernel

def Listed (k : Kernel) (t : Nat) : Prop := ∃ i < k.threadCount, k.threadList i = t

def Waits (k : Kernel) (t : Nat) : Prop := k.state t = .sendBlocked ∨ k.state t = .recvBlocked

instance (k : Kernel) (t : Nat) : Decidable (k.Waits t) := inferInstanceAs (Decidable (_ ∨ _))

/-- Not a wildcard, and never taken for a local id. -/
def Ordinary (id : Word) : Prop := id ≠ anyThread ∧ id ≠ anyLocalThread ∧ isLocalId id = false

instance (id : Word) : Decidable (Ordinary id) := inferInstanceAs (Decidable (_ ∧ _))

/-- The ids of the listed threads are ordinary, and a lookup finds exactly these threads. -/
structure Population (k : Kernel) : Prop where
  ordinary : ∀ t, k.Listed t → Ordinary (k.tcbs t).globalId
  finds : ∀ t, k.Listed t → k.findThreadByGlobalId (k.tcbs t).globalId = some t
  listed : ∀ id t, k.findThreadByGlobalId id = some t → k.Listed t

/-- NIL or the id of a listed thread. -/
def Destination (k : Kernel) (w : Word) : Prop :=
  isNilThread w = true ∨ ∃ t, k.Listed t ∧ w = (k.tcbs t).globalId

def Source (k : Kernel) (w : Word) : Prop := w = anyThread ∨ k.Destination w

variable {k k' : Kernel}

section SameTable

variable (same : SameTable k k')

include same

theorem SameTable.listed (t : Nat) : k'.Listed t ↔ k.Listed t := by
  unfold Listed
  rw [same.threadCount, same.threadList]

theorem SameTable.destination (w : Word) : k'.Destination w ↔ k.Destination w := by
  simp only [Destination, same.listed, same.globalId]

theorem SameTable.source (w : Word) : k'.Source w ↔ k.Source w := by
  simp only [Source, same.destination]

theorem Population.transfer (p : Population k) : Population k' where
  ordinary t listed := by
    rw [same.globalId]
    exact p.ordinary t ((same.listed t).mp listed)
  finds t listed := by
    rw [same.globalId, same.find]
    exact p.finds t ((same.listed t).mp listed)
  listed id t found := (same.listed t).mpr (p.listed id t (same.find id ▸ found))

end SameTable

namespace Population

theorem id_inj (p : Population k) {t u : Nat} (ht : k.Listed t) (hu : k.Listed u)
    (same : (k.tcbs t).globalId = (k.tcbs u).globalId) : t = u := by
  have found := p.finds t ht
  rw [same, p.finds u hu] at found
  exact (Option.some.inj found).symm

theorem search (p : Population k) {t : Nat} (ht : k.Listed t) (target : Nat) (sending : Bool) :
    k.findIpcPartner target (k.tcbs t).globalId sending =
      .ok (k.findIpcPartnerGlobal target (k.tcbs t).globalId sending) := by
  obtain ⟨notAny, notLocal, notLocalId⟩ := p.ordinary t ht
  simp only [findIpcPartner, notAny, notLocal, notLocalId, if_false, Bool.false_eq_true]

/-- A search for a listed thread by its id finds this thread if it is ready, and else nobody. -/
theorem searchGlobal (p : Population k) {t : Nat} (ht : k.Listed t) (target : Nat) (sending : Bool) :
    (k.isReadyPartner target sending t = true ∧
      k.findIpcPartnerGlobal target (k.tcbs t).globalId sending = .found t) ∨
    (k.isReadyPartner target sending t = false ∧
      (k.findIpcPartnerGlobal target (k.tcbs t).globalId sending = .notready ∨
        sending = true ∧ k.state t = .active ∧
          k.findIpcPartnerGlobal target (k.tcbs t).globalId sending = .pagerMsg t)) := by
  unfold findIpcPartnerGlobal
  rw [p.finds t ht]
  dsimp only
  split
  · rename_i ready
    exact .inl ⟨ready, rfl⟩
  · rename_i ready
    refine .inr ⟨Bool.eq_false_iff.mpr ready, ?_⟩
    split
    · exact .inl rfl
    · split
      · rename_i fresh
        simp only [Bool.and_eq_true, decide_eq_true_eq] at fresh
        exact .inr ⟨fresh.1.1, fresh.1.2, rfl⟩
      · exact .inl rfl

theorem found_listed (p : Population k) {target s : Nat} {w : Word} {sending : Bool} (allowed : k.Source w)
    (named : isNilThread w = false) (h : k.findIpcPartner target w sending = .ok (.found s)) :
    k.Listed s ∧ (w = anyThread ∨ w = (k.tcbs s).globalId) := by
  rcases allowed with rfl | nil | ⟨t, ht, rfl⟩
  · simp only [findIpcPartner, if_true, findIpcPartnerAny] at h
    split at h
    · rename_i partner found
      cases h
      obtain ⟨i, hi, same⟩ := List.mem_map.mp (List.mem_of_find?_eq_some found)
      exact ⟨⟨i, List.mem_range.mp hi, same⟩, .inl rfl⟩
    · cases h
  · rw [named] at nil
    cases nil
  · rw [p.search ht] at h
    rcases p.searchGlobal ht target sending with ⟨_, same⟩ | ⟨_, same | ⟨_, _, same⟩⟩
    · rw [same] at h
      cases h
      exact ⟨ht, .inr rfl⟩
    · rw [same] at h; cases h
    · rw [same] at h; cases h

end Population

/-- A search without result has looked at every listed thread it was asked for. -/
theorem notready_none (p : Population k) {target s : Nat} {w : Word} {sending : Bool} (hs : k.Listed s)
    (asked : w = anyThread ∨ w = (k.tcbs s).globalId)
    (h : k.findIpcPartner target w sending = .ok .notready) : k.isReadyPartner target sending s = false := by
  rcases asked with rfl | rfl
  · simp only [findIpcPartner, if_true, findIpcPartnerAny] at h
    split at h
    · cases h
    · rename_i none
      obtain ⟨i, hi, same⟩ := hs
      have member : s ∈ (List.range k.threadCount).map k.getThreadByIndex :=
        List.mem_map.mpr ⟨i, List.mem_range.mpr hi, same⟩
      simpa using List.find?_eq_none.mp none s member
  · rw [p.search hs] at h
    rcases p.searchGlobal hs target sending with ⟨_, same⟩ | ⟨unready, _⟩
    · rw [same] at h; cases h
    · exact unready

end Kernel

/-! ### The steps -/

namespace Ipc

open Kernel

inductive Action where
  /-- A system call with the registers and the memory that the caller left, and fuel for nesting. -/
  | call (caller : Nat) (cpu : Context) (mem : Memory) (fuel : Nat)
  | timeout (data : Word)

/-- The caller has trapped and its registers are saved. -/
def trapped (k : Kernel) (caller : Nat) (cpu : Context) (mem : Memory) : Kernel :=
  (((k.setMem mem).setTcb caller fun tcb => { tcb with ctx := cpu }).setCaller caller).setThreadState caller .svcBlocked

def Enabled (k : Kernel) : Action → Prop
  | .call caller _ _ _ => k.Listed caller ∧ ¬ k.Waits caller
  | .timeout _ => True

/-- The caller names whom it may name, and left alone whom the waiting senders want to receive from. -/
def Allowed (k : Kernel) : Action → Prop
  | .call _ cpu mem _ =>
    k.Destination (mem.frame cpu.sp).r0 ∧ k.Source (mem.frame cpu.sp).r1 ∧
      ∀ s, k.Listed s → k.state s = .sendBlocked → (mem.frame (k.tcbs s).ctx.sp).r1 = k.recvFrom s
  | .timeout _ => True

def effect (k : Kernel) : Action → Fallible Kernel
  | .call caller cpu mem fuel => syscallIpc fuel (trapped k caller cpu mem)
  | .timeout data => .ok (k.doIpcTimeout data)

def Step (k : Kernel) (a : Action) (k' : Kernel) : Prop := Enabled k a ∧ effect k a = .ok k'

variable {k k' : Kernel}

theorem trapped_tcbs {caller : Nat} {cpu : Context} {mem : Memory} : (trapped k caller cpu mem).tcbs =
    Function.update k.tcbs caller { k.tcbs caller with ctx := cpu, state := .svcBlocked } := by
  unfold trapped
  rw [setThreadState_tcbs]
  simp only [setCaller, setTcb, setTcbs, setMem, Function.update_self, Function.update_idem]

theorem trapped_mem {caller : Nat} {cpu : Context} {mem : Memory} : (trapped k caller cpu mem).mem = mem :=
  setThreadState_mem ..

theorem trapped_caller {caller : Nat} {cpu : Context} {mem : Memory} :
    (trapped k caller cpu mem).caller = caller := setThreadState_caller ..

theorem trapped_table (k : Kernel) (caller : Nat) (cpu : Context) (mem : Memory) :
    SameTable k (trapped k caller cpu mem) := by
  refine ⟨setThreadState_threadCount .., setThreadState_threadList .., fun t => ?_⟩
  rw [trapped_tcbs]
  by_cases here : t = caller
  · subst here; rw [Function.update_self]
  · rw [Function.update_of_ne here]

theorem call_spec {caller fuel : Nat} {cpu : Context} {mem : Memory}
    (h : effect k (.call caller cpu mem fuel) = .ok k') : Called (trapped k caller cpu mem) caller k' := by
  have call := called_of_doIpc h
  rwa [trapped_caller] at call

theorem timeout_cases (k : Kernel) (data : Word) : k.doIpcTimeout data = k ∨
    ∃ t, k.findThreadByGlobalId data = some t ∧ k.Waits t ∧ k.doIpcTimeout data = k.timedOut t := by
  unfold doIpcTimeout
  split
  · exact .inl rfl
  · rename_i t found
    split
    · exact .inl rfl
    · rename_i waits
      exact .inr ⟨t, found, by unfold Waits; tauto, rfl⟩

/-! ### What a computation can check -/

def next (k : Kernel) : Action → Option Kernel
  | .call caller cpu mem fuel =>
    if (∃ i < k.threadCount, k.threadList i = caller) ∧ ¬ k.Waits caller then
      (effect k (.call caller cpu mem fuel)).toOption
    else none
  | .timeout data => (effect k (.timeout data)).toOption

theorem step_of_next (k : Kernel) (a : Action) (k' : Kernel) (h : next k a = some k') : Step k a k' := by
  cases a with
  | call caller cpu mem fuel =>
    simp only [next] at h
    split at h
    · rename_i enabled
      exact ⟨enabled, ok_of_toOption h⟩
    · cases h
  | timeout data => exact ⟨trivial, ok_of_toOption h⟩

/-- What a computation can check of a population: a lookup reads the first cells of the list alone. -/
def populated (k : Kernel) : Bool :=
  decide (∀ i < k.threadCount, Ordinary (k.tcbs (k.threadList i)).globalId ∧
    k.findThreadByGlobalId (k.tcbs (k.threadList i)).globalId = some (k.threadList i)) &&
  decide (∀ i < k.threadCount + 1, ∃ j < k.threadCount, k.threadList j = k.threadList i)

theorem population_of_populated (h : populated k = true) : Population k := by
  obtain ⟨each, cells⟩ := Bool.and_eq_true_iff.mp h
  have each := of_decide_eq_true each
  have cells := of_decide_eq_true cells
  refine ⟨?_, ?_, ?_⟩
  · rintro t ⟨i, hi, rfl⟩
    exact (each i hi).1
  · rintro t ⟨i, hi, rfl⟩
    exact (each i hi).2
  · intro id t found
    obtain ⟨i, hi, same, _⟩ := find_spec found
    exact same ▸ cells i (by omega)

/-- A call with its arguments in the frame at `sp`. -/
def ask (caller : Nat) (sp dest src timeouts : Word) (k : Kernel) : Action :=
  .call caller { (k.tcbs caller).ctx with sp } (k.mem.setFrame sp fun f => { f with r0 := dest, r1 := src, r2 := timeouts }) 4

end Ipc
end BradypOS
