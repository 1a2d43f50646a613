import BradypOS.Thread.Table

/-!
# Looking for an IPC partner

A search reads the thread table, the ids, address spaces and sibling links, and who waits for whom.
Whatever keeps these keeps what every search finds.
-/

namespace BradypOS.Kernel

open L4

/-- Two kernels that differ neither in the thread table nor in who is who. -/
structure SameIds (k k' : Kernel) : Prop extends SameTable k k' where
  localId : ∀ t, (k'.tcbs t).localId = (k.tcbs t).localId
  addressSpace : ∀ t, (k'.tcbs t).addressSpace = (k.tcbs t).addressSpace
  pager : ∀ t, (k'.tcbs t).pager = (k.tcbs t).pager
  nextSibling : ∀ t, (k'.tcbs t).nextSibling = (k.tcbs t).nextSibling
  asPool : k'.asPool = k.asPool

/-- Two kernels in which a search for a partner in the other phase finds the same. -/
structure SameSearch (sending : Bool) (k k' : Kernel) : Prop extends SameIds k k' where
  waits : ∀ t, k'.state t = partnerState sending ↔ k.state t = partnerState sending
  ipcFrom : ∀ t, k.state t = partnerState sending → (k'.tcbs t).ipcFrom = (k.tcbs t).ipcFrom
  active : sending = true → ∀ t, k'.state t = .active ↔ k.state t = .active

variable {k k' k'' : Kernel}

theorem SameIds.refl (k : Kernel) : SameIds k k :=
  ⟨.refl k, fun _ => rfl, fun _ => rfl, fun _ => rfl, fun _ => rfl, rfl⟩

theorem SameIds.trans (h : SameIds k k') (h' : SameIds k' k'') : SameIds k k'' :=
  ⟨h.toSameTable.trans h'.toSameTable, fun t => (h'.localId t).trans (h.localId t),
    fun t => (h'.addressSpace t).trans (h.addressSpace t), fun t => (h'.pager t).trans (h.pager t),
    fun t => (h'.nextSibling t).trans (h.nextSibling t), h'.asPool.trans h.asPool⟩

namespace SameSearch

variable {sending : Bool}

theorem refl (sending : Bool) (k : Kernel) : SameSearch sending k k :=
  ⟨.refl k, fun _ => Iff.rfl, fun _ _ => rfl, fun _ _ => Iff.rfl⟩

theorem trans (h : SameSearch sending k k') (h' : SameSearch sending k' k'') : SameSearch sending k k'' :=
  ⟨h.toSameIds.trans h'.toSameIds, fun t => (h'.waits t).trans (h.waits t),
    fun t wait => (h'.ipcFrom t ((h.waits t).mpr wait)).trans (h.ipcFrom t wait),
    fun s t => (h'.active s t).trans (h.active s t)⟩

theorem viable (h : SameSearch sending k k') (target : Nat) {t : Nat} (waits : k.state t = partnerState sending) :
    k'.isViableIpcPartner target t = k.isViableIpcPartner target t := by
  simp only [isViableIpcPartner, h.ipcFrom t waits, h.addressSpace, h.globalId, h.localId]

theorem ready (h : SameSearch sending k k') (target t : Nat) :
    k'.isReadyPartner target sending t = k.isReadyPartner target sending t := by
  unfold isReadyPartner
  by_cases waits : k.state t = partnerState sending
  · rw [h.viable target waits, decide_eq_true waits, decide_eq_true ((h.waits t).mpr waits)]
  · rw [decide_eq_false waits, decide_eq_false (fun w => waits ((h.waits t).mp w))]
    rfl

theorem findAny (h : SameSearch sending k k') (target : Nat) :
    k'.findIpcPartnerAny target sending = k.findIpcPartnerAny target sending := by
  have same : k'.isReadyPartner target sending = k.isReadyPartner target sending := funext (h.ready target)
  have listed : k'.getThreadByIndex = k.getThreadByIndex := by unfold getThreadByIndex; rw [h.threadList]
  unfold findIpcPartnerAny
  rw [same, listed, h.threadCount]

theorem anylocalWalk (h : SameSearch sending k k') (target fuel : Nat) (start : Option Nat) :
    k'.anylocalLoop target sending fuel start = k.anylocalLoop target sending fuel start := by
  induction fuel generalizing start with
  | zero => cases start <;> rfl
  | succ fuel ih =>
    cases start with
    | none => rfl
    | some t => simp only [anylocalLoop, h.ready, h.nextSibling, ih]

theorem localWalk (h : SameSearch sending k k') (target : Nat) (who : Word) (fuel : Nat) (start : Option Nat) :
    k'.localLoop target who sending fuel start = k.localLoop target who sending fuel start := by
  induction fuel generalizing start with
  | zero => cases start <;> rfl
  | succ fuel ih =>
    cases start with
    | none => rfl
    | some t =>
      simp only [localLoop, h.nextSibling, h.localId, ih]
      by_cases waits : k.state t = partnerState sending
      · rw [h.viable target waits, decide_eq_true waits, decide_eq_true ((h.waits t).mpr waits)]
      · rw [decide_eq_false waits, decide_eq_false (fun w => waits ((h.waits t).mp w)), Bool.false_and]
        rfl

theorem findGlobal (h : SameSearch sending k k') (target : Nat) (who : Word) :
    k'.findIpcPartnerGlobal target who sending = k.findIpcPartnerGlobal target who sending := by
  unfold findIpcPartnerGlobal
  simp only [h.find, h.ready, h.pager, h.addressSpace]
  cases sending with
  | false => simp
  | true =>
    have active : ∀ t, decide (k'.state t = .active) = decide (k.state t = .active) :=
      fun t => decide_eq_decide.mpr (h.active rfl t)
    simp only [active]

theorem findPartner (h : SameSearch sending k k') (target : Nat) (who : Word) :
    k'.findIpcPartner target who sending = k.findIpcPartner target who sending := by
  unfold findIpcPartner findIpcPartnerAnylocal findIpcPartnerLocal
  simp only [h.findAny, h.addressSpace, h.asPool, h.anylocalWalk, h.localWalk, h.findGlobal]

end SameSearch

/-- What a search reads is in the TCBs, the table and the address spaces. -/
theorem SameSearch.of_tcbs (sending : Bool) (tcbs : k'.tcbs = k.tcbs) (threadCount : k'.threadCount = k.threadCount)
    (threadList : k'.threadList = k.threadList) (asPool : k'.asPool = k.asPool) : SameSearch sending k k' := by
  have state : ∀ t, k'.state t = k.state t := fun t => by unfold Kernel.state; rw [tcbs]
  refine ⟨⟨⟨threadCount, threadList, fun t => ?_⟩, fun t => ?_, fun t => ?_, fun t => ?_, fun t => ?_, asPool⟩,
    fun t => ?_, fun t _ => ?_, fun _ t => ?_⟩
  all_goals first | rw [tcbs] | rw [state]

theorem SameIds.setThreadState (k : Kernel) (t : Nat) (st : ThreadState) : SameIds k (k.setThreadState t st) := by
  have field : ∀ u, ∃ state, (k.setThreadState t st).tcbs u = { k.tcbs u with state } := by
    intro u
    rw [setThreadState_tcbs, Function.update_apply]
    split
    · rename_i same; exact ⟨st, by rw [same]⟩
    · exact ⟨_, rfl⟩
  refine ⟨.setThreadState k t st, fun u => ?_, fun u => ?_, fun u => ?_, fun u => ?_, k.setThreadState_asPool t st⟩
  all_goals
    obtain ⟨state, h⟩ := field u
    rw [h]

/-- A change of state that neither enters nor leaves the partners' state. -/
theorem SameSearch.setThreadState {k : Kernel} {t : Nat} {st : ThreadState}
    (keeps : st = .sendBlocked ↔ k.state t = .sendBlocked) : SameSearch false k (k.setThreadState t st) := by
  refine ⟨.setThreadState k t st, fun u => ?_, fun u _ => ?_, fun s => by cases s⟩
  · rw [state_setThreadState]
    split
    · rename_i same; subst same; exact keeps
    · exact Iff.rfl
  · rw [setThreadState_tcbs, Function.update_apply]
    split
    · rename_i same; rw [same]
    · rfl

/-- A change to one TCB that keeps what a search for senders reads. -/
theorem SameSearch.setTcb {k : Kernel} {t : Nat} {f : Tcb → Tcb} (globalId : (f (k.tcbs t)).globalId = (k.tcbs t).globalId)
    (localId : (f (k.tcbs t)).localId = (k.tcbs t).localId)
    (addressSpace : (f (k.tcbs t)).addressSpace = (k.tcbs t).addressSpace)
    (pager : (f (k.tcbs t)).pager = (k.tcbs t).pager) (nextSibling : (f (k.tcbs t)).nextSibling = (k.tcbs t).nextSibling)
    (waits : (f (k.tcbs t)).state = .sendBlocked ↔ k.state t = .sendBlocked)
    (ipcFrom : k.state t = .sendBlocked → (f (k.tcbs t)).ipcFrom = (k.tcbs t).ipcFrom) :
    SameSearch false k (k.setTcb t f) := by
  have field : ∀ {α : Type} (g : Tcb → α), g (f (k.tcbs t)) = g (k.tcbs t) →
      ∀ u, g ((k.setTcb t f).tcbs u) = g (k.tcbs u) := by
    intro α g same u
    by_cases h : u = t
    · subst h; rw [setTcb_same]; exact same
    · rw [setTcb_other _ _ _ _ h]
  refine ⟨⟨⟨rfl, rfl, field _ globalId⟩, field _ localId, field _ addressSpace, field _ pager, field _ nextSibling, rfl⟩,
    fun u => ?_, fun u wait => ?_, fun s => by cases s⟩
  · by_cases h : u = t
    · subst h; unfold state; rw [setTcb_same]; exact waits
    · unfold state; rw [setTcb_other _ _ _ _ h]
  · by_cases h : u = t
    · subst h; rw [setTcb_same]; exact ipcFrom wait
    · rw [setTcb_other _ _ _ _ h]

/-! ### What a search finds -/

theorem anylocalLoop_found {target : Nat} {sending : Bool} {fuel : Nat} {start : Option Nat} {p : Nat}
    (h : k.anylocalLoop target sending fuel start = .ok (.found p)) : k.isReadyPartner target sending p = true := by
  induction fuel generalizing start with
  | zero => cases start <;> cases h
  | succ fuel ih =>
    cases start with
    | none => cases h
    | some t =>
      rw [anylocalLoop] at h
      split at h
      · rename_i ready
        cases h
        exact ready
      · exact ih h

theorem localLoop_found {target : Nat} {who : Word} {sending : Bool} {fuel : Nat} {start : Option Nat} {p : Nat}
    (h : k.localLoop target who sending fuel start = .ok (.found p)) : k.isReadyPartner target sending p = true := by
  induction fuel generalizing start with
  | zero => cases start <;> cases h
  | succ fuel ih =>
    cases start with
    | none => cases h
    | some t =>
      rw [localLoop] at h
      split at h
      · rename_i named
        split at h
        · rename_i viable
          cases h
          simp only [Bool.and_eq_true] at named
          simp [isReadyPartner, viable, named.1]
        · cases h
      · split at h
        · cases h
        · exact ih h

theorem findIpcPartner_found {target : Nat} {who : Word} {sending : Bool} {p : Nat}
    (h : k.findIpcPartner target who sending = .ok (.found p)) : k.isReadyPartner target sending p = true := by
  unfold findIpcPartner at h
  split at h
  · unfold findIpcPartnerAny at h
    split at h
    · rename_i found
      cases h
      exact List.find?_some found
    · cases h
  · split at h
    · unfold findIpcPartnerAnylocal at h
      split at h
      · cases h
      · exact anylocalLoop_found h
    · split at h
      · unfold findIpcPartnerLocal at h
        split at h
        · cases h
        · exact localLoop_found h
      · unfold findIpcPartnerGlobal at h
        split at h
        · cases h
        · split at h
          · rename_i ready
            cases h
            exact ready
          · split at h
            · cases h
            · split at h <;> cases h

theorem localLoop_pagerMsg {target : Nat} {who : Word} {sending : Bool} {fuel : Nat} {start : Option Nat} {p : Nat} :
    k.localLoop target who sending fuel start ≠ .ok (.pagerMsg p) := by
  induction fuel generalizing start with
  | zero => cases start <;> exact nofun
  | succ fuel ih =>
    cases start with
    | none => exact nofun
    | some t =>
      rw [localLoop]
      split
      · split <;> exact nofun
      · split
        · exact nofun
        · exact ih

theorem anylocalLoop_pagerMsg {target : Nat} {sending : Bool} {fuel : Nat} {start : Option Nat} {p : Nat} :
    k.anylocalLoop target sending fuel start ≠ .ok (.pagerMsg p) := by
  induction fuel generalizing start with
  | zero => cases start <;> exact nofun
  | succ fuel ih =>
    cases start with
    | none => exact nofun
    | some t =>
      rw [anylocalLoop]
      split
      · exact nofun
      · exact ih

theorem findIpcPartner_global {target : Nat} {who : Word} {sending : Bool} {p : Nat}
    (h : k.findIpcPartner target who sending = .ok (.pagerMsg p)) : k.findIpcPartnerGlobal target who sending = .pagerMsg p := by
  unfold findIpcPartner at h
  split at h
  · unfold findIpcPartnerAny at h
    split at h <;> cases h
  · split at h
    · unfold findIpcPartnerAnylocal at h
      split at h
      · cases h
      · exact absurd h anylocalLoop_pagerMsg
    · split at h
      · unfold findIpcPartnerLocal at h
        split at h
        · cases h
        · exact absurd h localLoop_pagerMsg
      · exact Except.ok.inj h

/-- Only an exact id of a thread in `TS_ACTIVE` can make the search end in a pager's message: its pager was looked up, and is
in the address space of the thread that searches. -/
theorem findIpcPartner_pagerMsg {target : Nat} {who : Word} {sending : Bool} {p : Nat}
    (h : k.findIpcPartner target who sending = .ok (.pagerMsg p)) :
    k.findThreadByGlobalId who = some p ∧ k.state p = .active ∧ ∃ pager, k.findThreadByGlobalId (k.tcbs p).pager = some pager ∧
      (k.tcbs pager).addressSpace = (k.tcbs target).addressSpace := by
  have global := findIpcPartner_global h
  unfold findIpcPartnerGlobal at global
  split at global
  · cases global
  · rename_i found
    split at global
    · cases global
    · split at global
      · cases global
      · rename_i pager listed
        split at global
        · rename_i fresh
          cases global
          simp only [Bool.and_eq_true, decide_eq_true_eq] at fresh
          exact ⟨found, fresh.1.2, pager, listed, fresh.2⟩
        · cases global

theorem isReadyPartner_waits {target : Nat} {sending : Bool} {p : Nat}
    (h : k.isReadyPartner target sending p = true) : k.state p = partnerState sending := by
  unfold isReadyPartner at h
  exact of_decide_eq_true (Bool.and_eq_true_iff.mp h).1

end BradypOS.Kernel
