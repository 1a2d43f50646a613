import BradypOS.Ipc.Waits

/-!
# No missed rendezvous

A thread blocks only where its search found nobody, and a search for a thread by its id, or for
anyone, looks at every partner whose wait it could end. Every other change takes threads out of
their waits.
-/

namespace BradypOS

open L4

namespace Kernel

variable {k k' : Kernel}

/-- No sender waits for a receiver that waits for it. -/
def NoMissed (k : Kernel) : Prop :=
  ∀ s r, k.Listed s → k.Listed r → s ≠ r →
    k.state s = .sendBlocked → (k.tcbs s).ipcFrom = (k.tcbs r).globalId → k.state r = .recvBlocked →
      ¬ ((k.tcbs r).ipcFrom = anyThread ∨ (k.tcbs r).ipcFrom = (k.tcbs s).globalId)

theorem NoMissed.fewer (m : NoMissed k) (h : Fewer k k') : NoMissed k' := by
  intro s r hs hr other sends names receives
  have ws : k'.Waits s := .inl sends
  have wr : k'.Waits r := .inr receives
  rw [h.listed] at hs hr
  rw [h.state s ws] at sends
  rw [h.ipcFrom s ws, h.globalId] at names
  rw [h.state r wr] at receives
  rw [h.ipcFrom r wr, h.globalId]
  exact m s r hs hr other sends names receives

namespace Blocked

variable {t : Nat} {w : Word}

theorem noMissed_send (b : Blocked k t w .sendBlocked k') (p : Population k) (m : NoMissed k)
    (search : k.findIpcPartner t w true = .ok .notready) : NoMissed k' := by
  obtain ⟨state, names⟩ := b.here
  intro s r hs hr other sends wanted receives found
  rw [b.table.listed] at hs hr
  rw [b.table.globalId] at wanted
  rw [b.table.globalId s] at found
  have waiting : r ≠ t := by
    intro same
    rw [same, state] at receives
    cases receives
  rw [b.state_others waiting] at receives
  rw [b.others waiting] at found
  by_cases sender : s = t
  · subst sender
    have unready := notready_none p hr (.inr (names.symm.trans wanted)) search
    rcases found with any | named
    · simp [isReadyPartner, partnerState, receives, isViableIpcPartner, any] at unready
    · simp [isReadyPartner, partnerState, receives, isViableIpcPartner, named] at unready
  · rw [b.state_others sender] at sends
    rw [b.others sender] at wanted
    exact m s r hs hr other sends wanted receives found

/-- No sender that a receiver could take waited for it when it starts to wait. -/
theorem noMissed_recv (b : Blocked k t w .recvBlocked k') (p : Population k) (m : NoMissed k)
    (search : k.findIpcPartner t w false = .ok .notready) : NoMissed k' := by
  obtain ⟨state, names⟩ := b.here
  intro s r hs hr other sends wanted receives found
  rw [b.table.listed] at hs hr
  rw [b.table.globalId] at wanted
  rw [b.table.globalId s] at found
  have waiting : s ≠ t := by
    intro same
    rw [same, state] at sends
    cases sends
  rw [b.state_others waiting] at sends
  rw [b.others waiting] at wanted
  by_cases receiver : r = t
  · subst receiver
    rw [names] at found
    have unready := notready_none p hs found search
    simp [isReadyPartner, partnerState, sends, isViableIpcPartner, wanted] at unready
  · rw [b.state_others receiver] at receives
    rw [b.others receiver] at found
    exact m s r hs hr other sends wanted receives found

end Blocked

/-! ### The phases and the call -/

/-- What every part of a call keeps. -/
structure Met (k : Kernel) : Prop where
  population : Population k
  noMissed : NoMissed k

theorem Met.fewer (m : Met k) (h : Fewer k k') : Met k' :=
  ⟨m.population.transfer h.toSameTable, m.noMissed.fewer h⟩

theorem Met.received {t : Nat} {src : Word} {timeout : Time} (m : Met k) (h : Received k t src timeout k') : Met k' := by
  induction h with
  | skip nil => exact m.fewer ((Released.refl _).wake _).fewer
  | serve named found copied rest ih =>
    exact (ih (m.fewer ((Released.refl _).copyPayload copied).fewer)).fewer ((Released.refl _).wake _).fewer
  | refuse named found failed overflow =>
    exact m.fewer (((Released.refl _).copyPayload failed).rejected.endError _ .recvBlocked).fewer
  | missing named found => exact m.fewer (((Released.refl _).reportError _ _ _).endError _ _).fewer
  | @block k k₁ t src timeout named found armed =>
    have b := blocked_spec src armed
    exact ⟨m.population.transfer b.table, b.noMissed_recv m.population m.noMissed found⟩
  | abort named found zero => exact m.fewer (((Released.refl _).reportError _ _ _).endError _ _).fewer

theorem Met.called {t : Nat} (m : Met k) (h : Called k t k') : Met k' := by
  cases h with
  | receives sent received => exact (m.fewer (sent.released nofun).fewer).received received
  | fails sent => exact m.fewer ((sent.released nofun).endError _ _).fewer
  | waits sent =>
    obtain ⟨_, found, k₂, armed, ends⟩ := sent.blocks
    have b := blocked_spec (k.sendTo t) armed
    have same : SameSearch true k (k.log (.sending t (k.sendTo t))) := .of_tcbs true rfl rfl rfl rfl
    have noted : Met (k.log (.sending t (k.sendTo t))) := m.fewer ((Released.refl k).log _).fewer
    rw [ends]
    exact ⟨noted.population.transfer b.table,
      b.noMissed_send noted.population noted.noMissed ((same.findPartner _ _).trans found)⟩

end Kernel

/-! ### Runs -/

namespace Ipc

open Kernel

variable {k k' : Kernel}

theorem trapped_fewer (k : Kernel) (caller : Nat) (cpu : Context) (mem : Memory) :
    Fewer k (trapped k caller cpu mem) := by
  have other : ∀ t, (trapped k caller cpu mem).Waits t → t ≠ caller := by
    intro t waits same
    simp [Waits, Kernel.state, trapped_tcbs, same] at waits
  refine ⟨trapped_table k caller cpu mem, fun t waits => ?_, fun t waits => ?_⟩
  · unfold Kernel.state
    rw [trapped_tcbs, Function.update_of_ne (other t waits)]
  · rw [trapped_tcbs, Function.update_of_ne (other t waits)]

theorem step_met {a : Action} (m : Met k) (step : Step k a k') : Met k' := by
  obtain ⟨_, h⟩ := step
  cases a with
  | call caller cpu mem fuel => exact (m.fewer (trapped_fewer k caller cpu mem)).called (call_spec h)
  | timeout data =>
    cases h
    rcases timeout_cases k data with same | ⟨t, _, _, timed⟩
    · rw [same]; exact m
    · rw [timed]
      exact m.fewer (Released.timedOut k t).fewer

/-- In every state that calls and timeouts can reach while nobody waits at first, no thread waits to
send to a thread that waits to receive from it. -/
theorem no_missed_rendezvous {as : List Action} (population : Population k) (idle : ∀ t, k.Listed t → ¬ k.Waits t)
    (run : Theory.Run Step k as k') (s r : Nat) (hs : k'.Listed s) (hr : k'.Listed r) (other : s ≠ r)
    (sends : k'.state s = .sendBlocked) (names : (k'.tcbs s).ipcFrom = (k'.tcbs r).globalId)
    (receives : k'.state r = .recvBlocked) :
    ¬ ((k'.tcbs r).ipcFrom = anyThread ∨ (k'.tcbs r).ipcFrom = (k'.tcbs s).globalId) := by
  have start : Met k := ⟨population, fun s r hs _ _ sends _ _ => absurd (.inl sends) (idle s hs)⟩
  have m : Met k' := run.invariant (I := Met) (fun _ _ _ step m => step_met m step) start
  exact m.noMissed s r hs hr other sends names receives

/-! ### A run of the small system -/

/-- The root thread waits to receive from the idle thread, and the second thread to send to it. -/
def crossed : List (Kernel → Action) :=
  [ask 2 0x4000#32 nilThread idleId 0#32, ask 3 0x6000#32 rootId anyThread 0#32]

theorem no_missed_rendezvous_crossed : ∃ k k' as, SmallSystem.start = some k ∧ Theory.Run Step k as k' ∧
    k'.state 3 = .sendBlocked ∧ (k'.tcbs 3).ipcFrom = (k'.tcbs 2).globalId ∧ k'.state 2 = .recvBlocked ∧
      ¬ ((k'.tcbs 2).ipcFrom = anyThread ∨ (k'.tcbs 2).ipcFrom = (k'.tcbs 3).globalId) := by
  have done : (SmallSystem.start.any fun k => populated k && decide (∀ i < k.threadCount, ¬ k.Waits (k.threadList i)) &&
      (Theory.follow next k crossed).any fun k' => decide (k'.state 3 = .sendBlocked ∧
        (k'.tcbs 3).ipcFrom = (k'.tcbs 2).globalId ∧ k'.state 2 = .recvBlocked) &&
        decide (∃ i < k'.threadCount, k'.threadList i = 3) &&
        decide (∃ i < k'.threadCount, k'.threadList i = 2)) = true := by decide +kernel
  obtain ⟨_, k, _, _, _, found, holds⟩ := SmallSystem.reached done
  simp only [Bool.and_eq_true, decide_eq_true_eq] at holds
  obtain ⟨⟨population, idle⟩, later⟩ := holds
  obtain ⟨k', ran, ends⟩ := (Option.any_eq_true _ _).mp later
  simp only [Bool.and_eq_true, decide_eq_true_eq] at ends
  obtain ⟨⟨⟨sends, names, receives⟩, three⟩, two⟩ := ends
  obtain ⟨as, run⟩ := Theory.run_of_follow step_of_next ran
  have nobody : ∀ t, k.Listed t → ¬ k.Waits t := by
    rintro t ⟨i, hi, rfl⟩
    exact idle i hi
  exact ⟨k, k', as, found, run, sends, names, receives,
    no_missed_rendezvous (population_of_populated population) nobody run 3 2 three two (by decide) sends names receives⟩

end Ipc
end BradypOS
