import BradypOS.Ipc.Apart
import BradypOS.Ipc.Names
import BradypOS.Ipc.Rendezvous

/-!
# Threads that wait for one another

A call involves a thread that waits only if the thread waits for the caller, or for a sender that the call
serves. Threads that wait for one another alone are therefore never involved, and wait for ever.
-/

namespace BradypOS

open L4

namespace Kernel

variable {k k' : Kernel}

/-! ### What callers name stays in place -/

theorem Setting.idle (population : Population k) (locals : ∀ t u, k.Listed t → k.Listed u → (k.tcbs t).localId ≠ (k.tcbs u).globalId)
    (idle : ∀ t, k.Listed t → ¬ k.Waits t) : Setting k :=
  ⟨population, fun t u ht hu same => absurd same (locals t u ht hu), fun t ht sends => absurd (.inl sends) (idle t ht), fun t ht sends => absurd (.inl sends) (idle t ht)⟩

theorem Setting.received {t : Nat} {src : Word} {timeout : Time} (set : Setting k) (h : Received k t src timeout k') : Setting k' := by
  induction h with
  | skip nil => exact set.released ((Released.refl _).wake _)
  | serve named found copied rest ih =>
    exact (ih (set.released ((Released.refl _).copyPayload copied))).released ((Released.refl _).wake _)
  | refuse named found failed overflow => exact set.released (((Released.refl _).copyPayload failed).rejected.endError _ .recvBlocked)
  | missing named found => exact set.released (((Released.refl _).reportError _ _ _).endError _ _)
  | @block k k₁ t src timeout named found armed => exact set.blocked (blocked_spec src armed) nofun nofun
  | abort named found zero => exact set.released (((Released.refl _).reportError _ _ _).endError _ _)

theorem Setting.called {t : Nat} (set : Setting k) (dest : k.Destination (k.sendTo t)) (src : k.Source (k.recvFrom t))
    (h : Called k t k') : Setting k' := by
  cases h with
  | receives sent received => exact (set.released (sent.released nofun)).received received
  | fails sent => exact set.released ((sent.released nofun).endError _ _)
  | waits sent =>
    obtain ⟨named, -, k₂, armed, ends⟩ := sent.blocks
    have noted : Released k (k.log (.sending t (k.sendTo t))) := (Released.refl k).log _
    have same : (k.log (.sending t (k.sendTo t))).recvFrom t = k.recvFrom t := rfl
    rw [ends]
    refine (set.released noted).blocked (blocked_spec (k.sendTo t) armed) (fun _ => ?_) fun _ => ?_
    · rcases dest with nil | ⟨d, hd, name⟩
      · rw [named] at nil
        cases nil
      · exact ⟨d, (noted.listed d).mpr hd, by rw [noted.globalId]; exact name⟩
    · rw [same, noted.source]
      exact src

end Kernel

namespace Ipc

open Kernel

variable {k k' : Kernel}

theorem trapped_setting {caller fuel : Nat} {cpu : Context} {mem : Memory} (set : Setting k) (idle : ¬ k.Waits caller)
    (allowed : Allowed k (.call caller cpu mem fuel)) : Setting (trapped k caller cpu mem) := by
  have table := trapped_table k caller cpu mem
  have others : ∀ u, u ≠ caller → (trapped k caller cpu mem).tcbs u = k.tcbs u := fun u other => by
    rw [trapped_tcbs, Function.update_of_ne other]
  have localId : ∀ u, ((trapped k caller cpu mem).tcbs u).localId = (k.tcbs u).localId := by
    intro u
    by_cases same : u = caller
    · subst same
      rw [trapped_tcbs, Function.update_self]
    · rw [others u same]
  have sender : ∀ u, (trapped k caller cpu mem).state u = .sendBlocked → u ≠ caller ∧ k.state u = .sendBlocked := by
    intro u sends
    have waits : k.Waits u := (trapped_fewer k caller cpu mem).waits (.inl sends)
    have other : u ≠ caller := fun same => idle (same ▸ waits)
    unfold Kernel.state at sends ⊢
    rw [others u other] at sends
    exact ⟨other, sends⟩
  refine ⟨set.population.transfer table, fun t u ht hu => ?_, fun u hu sends => ?_, fun u hu sends => ?_⟩
  · rw [localId, table.globalId]
    exact set.locals t u ((table.listed t).mp ht) ((table.listed u).mp hu)
  · obtain ⟨other, sends⟩ := sender u sends
    obtain ⟨d, hd, name⟩ := set.names u ((table.listed u).mp hu) sends
    exact ⟨d, (table.listed d).mpr hd, by rw [others u other, table.globalId]; exact name⟩
  · obtain ⟨other, sends⟩ := sender u sends
    have member := (table.listed u).mp hu
    have kept : (trapped k caller cpu mem).recvFrom u = k.recvFrom u := by
      unfold recvFrom
      rw [trapped_mem, others u other]
      exact allowed.2.2 u member sends
    rw [kept, table.source]
    exact set.wants u member sends

theorem trapped_names {caller fuel : Nat} {cpu : Context} {mem : Memory} (allowed : Allowed k (.call caller cpu mem fuel)) :
    (trapped k caller cpu mem).Destination ((trapped k caller cpu mem).sendTo caller) ∧
      (trapped k caller cpu mem).Source ((trapped k caller cpu mem).recvFrom caller) := by
  have table := trapped_table k caller cpu mem
  have frame : (trapped k caller cpu mem).mem.frame ((trapped k caller cpu mem).tcbs caller).ctx.sp = mem.frame cpu.sp := by
    rw [trapped_mem, trapped_tcbs, Function.update_self]
  unfold sendTo recvFrom
  rw [frame, table.destination, table.source]
  exact ⟨allowed.1, allowed.2.1⟩

theorem step_setting {a : Action} (set : Setting k) (allowed : Allowed k a) (step : Step k a k') : Setting k' := by
  obtain ⟨enabled, h⟩ := step
  cases a with
  | call caller cpu mem fuel =>
    obtain ⟨dest, src⟩ := trapped_names allowed
    exact (trapped_setting set enabled.2 allowed).called dest src (call_spec h)
  | timeout data =>
    cases h
    rcases timeout_cases k data with same | ⟨t, _, _, timed⟩
    · rw [same]
      exact set
    · rw [timed]
      exact set.released (Released.timedOut k t)

end Ipc

/-! ### Closed sets of waiting threads -/

namespace Kernel

variable {k k' : Kernel} {D : Nat → Prop}

/-- Everyone in the set waits, for one thread that is in the set too. -/
def Deadlocked (k : Kernel) (D : Nat → Prop) : Prop :=
  ∀ t, D t → k.Listed t ∧ k.Waits t ∧ ∃ u, D u ∧ (k.tcbs t).ipcFrom = (k.tcbs u).globalId

/-- Nobody outside of the set is a partner for those in it. -/
theorem Deadlocked.not_ready (dead : Deadlocked k D) (set : Setting k) {t u : Nat} {sending : Bool} (outside : ¬ D t) (ht : k.Listed t)
    (ready : k.isReadyPartner t sending u = true) : ¬ D u := by
  intro inside
  obtain ⟨-, -, v, member, name⟩ := dead u inside
  have hv := (dead v member).1
  obtain ⟨notAny, notLocal, -⟩ := set.population.ordinary v hv
  have viable : k.isViableIpcPartner t u = true := (Bool.and_eq_true_iff.mp ready).2
  simp only [isViableIpcPartner, Bool.or_eq_true, Bool.and_eq_true, decide_eq_true_eq, name] at viable
  rcases viable with ((any | ⟨anyLocal, -⟩) | same) | byLocal
  · exact notAny any
  · exact notLocal anyLocal
  · exact outside (set.population.id_inj ht hv same.symm ▸ member)
  · exact outside (set.locals t v ht hv byLocal.symm ▸ member)

theorem Deadlocked.chain (dead : Deadlocked k D) (set : Setting k) {t s : Nat} {src : Word} (h : Chain k t src s) (outside : ¬ D t)
    (ht : k.Listed t) (allowed : k.Source src) : ¬ D s := by
  induction h with
  | found named found => exact dead.not_ready set outside ht (findIpcPartner_found found)
  | next named found _ ih =>
    obtain ⟨hs, -⟩ := set.population.found_listed allowed named found
    have ready := findIpcPartner_found found
    exact ih (dead.not_ready set outside ht ready) hs (set.wants _ hs (isReadyPartner_waits ready))

theorem Deadlocked.not_involved (dead : Deadlocked k D) (set : Setting k) {c u : Nat} (outside : ¬ D c) (hc : k.Listed c)
    (src : k.Source (k.recvFrom c)) (h : Involved k c u) : ¬ D u := by
  cases h with
  | caller => exact outside
  | receiver named found => exact dead.not_ready set outside hc (findIpcPartner_found found)
  | started named found =>
    intro inside
    have waits := (dead u inside).2.1
    rw [Waits, (findIpcPartner_pagerMsg found).2.1] at waits
    exact absurd waits (by decide)
  | sender chain => exact dead.chain set chain outside hc src

theorem Deadlocked.same (dead : Deadlocked k D) (table : SameTable k k') (tcbs : ∀ t, D t → k'.tcbs t = k.tcbs t) : Deadlocked k' D := by
  intro t inside
  obtain ⟨listed, waits, u, member, name⟩ := dead t inside
  refine ⟨(table.listed t).mpr listed, ?_, u, member, ?_⟩
  · unfold Waits Kernel.state at waits ⊢
    rw [tcbs t inside]
    exact waits
  · rw [tcbs t inside, table.globalId]
    exact name

end Kernel

namespace Ipc

open Kernel

variable {k k' : Kernel} {D : Nat → Prop}

/-- No timeout is delivered to a thread in the set. -/
def Spares (D : Nat → Prop) (k : Kernel) : Action → Prop
  | .call _ _ _ _ => True
  | .timeout data => ∀ t, k.findThreadByGlobalId data = some t → ¬ D t

theorem step_deadlocked {a : Action} (set : Setting k) (dead : Deadlocked k D) (allowed : Allowed k a) (spares : Spares D k a)
    (step : Step k a k') : Deadlocked k' D ∧ ∀ t, D t → k'.tcbs t = k.tcbs t := by
  obtain ⟨enabled, h⟩ := step
  cases a with
  | call caller cpu mem fuel =>
    have outside : ¬ D caller := fun inside => enabled.2 (dead caller inside).2.1
    have table := trapped_table k caller cpu mem
    have others : ∀ t, D t → (trapped k caller cpu mem).tcbs t = k.tcbs t := fun t inside => by
      rw [trapped_tcbs, Function.update_of_ne (by rintro rfl; exact outside inside)]
    have dead' := dead.same table others
    have called := call_spec h
    let area : Area := ⟨fun u => ¬ D u, fun _ => True, fun _ => True⟩
    have within : Within area (trapped k caller cpu mem) k' := called.within (fun u involved =>
      dead'.not_involved (trapped_setting set enabled.2 allowed) outside ((table.listed caller).mpr enabled.1) (trapped_names allowed).2 involved)
      (fun _ => trivial) fun _ _ => ⟨trivial, trivial⟩
    have kept : ∀ t, D t → k'.tcbs t = (trapped k caller cpu mem).tcbs t := fun t inside => within.tcbs t (not_not_intro inside)
    exact ⟨dead'.same called.kept.sameTable kept, fun t inside => (kept t inside).trans (others t inside)⟩
  | timeout data =>
    cases h
    rcases timeout_cases k data with same | ⟨u, found, -, timed⟩
    · rw [same]
      exact ⟨dead, fun _ _ => rfl⟩
    · have kept : ∀ t, D t → (k.timedOut u).tcbs t = k.tcbs t := by
        intro t inside
        have other : t ≠ u := by
          rintro rfl
          exact spares t found inside
        show (Kernel.setThreadState _ u .runnable).tcbs t = _
        rw [setThreadState_tcbs, Function.update_of_ne other]
        rfl
      rw [timed]
      exact ⟨dead.same (Released.timedOut k u).toSameTable kept, kept⟩

/-- In whatever state some threads have come to wait for one another alone, they go on waiting just so: whatever the others call from
then on, their TCBs stay the same, as long as none of their own timeouts comes. -/
theorem deadlock_persists {k₀ : Kernel} {as bs : List Action} (population : Population k₀)
    (locals : ∀ t u, k₀.Listed t → k₀.Listed u → (k₀.tcbs t).localId ≠ (k₀.tcbs u).globalId) (idle : ∀ t, k₀.Listed t → ¬ k₀.Waits t)
    (before : Theory.Run (Theory.Guarded Allowed Step) k₀ as k) (dead : Deadlocked k D)
    (after : Theory.Run (Theory.Guarded (fun k a => Allowed k a ∧ Spares D k a) Step) k bs k') (t : Nat) (inside : D t) :
    k'.Waits t ∧ k'.tcbs t = k.tcbs t := by
  have set : Setting k :=
    before.invariant (I := Setting) (fun _ _ _ step set => step_setting set step.1 step.2) (.idle population locals idle)
  have start : Setting k ∧ Deadlocked k D ∧ ∀ t, D t → k.tcbs t = k.tcbs t := ⟨set, dead, fun _ _ => rfl⟩
  obtain ⟨-, dead', same⟩ := after.invariant (I := fun k₁ => Setting k₁ ∧ Deadlocked k₁ D ∧ ∀ t, D t → k₁.tcbs t = k.tcbs t)
    (fun k₁ a k₂ step h => by
      obtain ⟨set, dead, same⟩ := h
      obtain ⟨dead', kept⟩ := step_deadlocked set dead step.1.1 step.1.2 step.2
      exact ⟨step_setting set step.1.1 step.2, dead', fun t inside => (kept t inside).trans (same t inside)⟩) start
  exact ⟨(dead' t inside).2.1, same t inside⟩

/-! ### Two threads that send to one another -/

def permittedCall (k : Kernel) (a : Action) : Option Kernel :=
  match a with
  | .call _ _ _ _ => if permitted k a then next k a else none
  | .timeout _ => none

theorem permittedCall_sound (k : Kernel) (a : Action) (k' : Kernel) (h : permittedCall k a = some k') :
    Theory.Guarded (fun k a => Allowed k a ∧ Spares D k a) Step k a k' := by
  unfold permittedCall at h
  split at h
  · split at h
    · rename_i ok
      exact ⟨⟨allowed_of_permitted ok, trivial⟩, step_of_next _ _ _ h⟩
    · cases h
  · cases h

/-- The idle thread and the second thread each send to the other; the root thread waits for anyone's message. -/
theorem deadlock_persists_crossing : ∃ k₀ k k' as bs, SmallSystem.start = some k₀ ∧ Theory.Run (Theory.Guarded Allowed Step) k₀ as k ∧
    Theory.Run (Theory.Guarded (fun k a => Allowed k a ∧ Spares (fun t => t = 1 ∨ t = 3) k a) Step) k bs k' ∧ k'.state 2 = .recvBlocked ∧
      k'.Waits 1 ∧ k'.Waits 3 := by
  have done : (SmallSystem.start.any fun k₀ => populated k₀ && decide (∀ i < k₀.threadCount, ∀ j < k₀.threadCount,
        (k₀.tcbs (k₀.threadList i)).localId ≠ (k₀.tcbs (k₀.threadList j)).globalId) &&
      decide (∀ i < k₀.threadCount, ¬ k₀.Waits (k₀.threadList i)) &&
      (Theory.follow permittedCall k₀ [ask 1 0x3000#32 SmallSystem.secondId anyThread 0#32, ask 3 0x6000#32 idleId anyThread 0#32]).any fun k =>
        decide (∃ i < k.threadCount, k.threadList i = 1) && decide (∃ i < k.threadCount, k.threadList i = 3) &&
        decide (k.Waits 1 ∧ k.Waits 3 ∧ (k.tcbs 1).ipcFrom = (k.tcbs 3).globalId ∧ (k.tcbs 3).ipcFrom = (k.tcbs 1).globalId) &&
        (Theory.follow permittedCall k [ask 2 0x4000#32 nilThread anyThread 0#32]).any fun k' => decide (k'.state 2 = .recvBlocked)) = true := by
    decide +kernel
  obtain ⟨_, k₀, _, _, _, found, holds⟩ := SmallSystem.reached done
  simp only [Bool.and_eq_true, decide_eq_true_eq] at holds
  obtain ⟨⟨⟨population, locals⟩, idle⟩, later⟩ := holds
  obtain ⟨k, ran, holds⟩ := (Option.any_eq_true _ _).mp later
  simp only [Bool.and_eq_true, decide_eq_true_eq] at holds
  obtain ⟨⟨⟨one, three⟩, waits₁, waits₃, to₃, to₁⟩, later⟩ := holds
  obtain ⟨k', ran', receives⟩ := (Option.any_eq_true _ _).mp later
  obtain ⟨as, before⟩ := Theory.run_of_follow (permittedCall_sound (D := fun _ => False)) ran
  obtain ⟨bs, after⟩ := Theory.run_of_follow (permittedCall_sound (D := fun t => t = 1 ∨ t = 3)) ran'
  have before : Theory.Run (Theory.Guarded Allowed Step) _ _ _ := before.mono fun _ _ _ step => ⟨step.1.1, step.2⟩
  have dead : Deadlocked k fun t => t = 1 ∨ t = 3 := by
    rintro t (rfl | rfl)
    · exact ⟨one, waits₁, 3, .inr rfl, to₃⟩
    · exact ⟨three, waits₃, 1, .inl rfl, to₁⟩
  have distinct : ∀ t u, k₀.Listed t → k₀.Listed u → (k₀.tcbs t).localId ≠ (k₀.tcbs u).globalId := by
    rintro t u ⟨i, hi, rfl⟩ ⟨j, hj, rfl⟩
    exact locals i hi j hj
  have nobody : ∀ t, k₀.Listed t → ¬ k₀.Waits t := by
    rintro t ⟨i, hi, rfl⟩
    exact idle i hi
  have stays := deadlock_persists (population_of_populated population) distinct nobody before dead after
  exact ⟨k₀, k, k', as, bs, found, before, after, of_decide_eq_true receives, (stays 1 (.inl rfl)).1, (stays 3 (.inr rfl)).1⟩

end Ipc
end BradypOS
