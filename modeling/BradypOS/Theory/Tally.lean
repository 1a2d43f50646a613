import BradypOS.Theory.Transition

/-!
# Counting steps

`Tallied event step` counts the steps for which `event` holds. What such a step uses up of a bounded measure, and no
step gives back, bounds their number.
-/

namespace Theory

variable {σ α : Type*} {event : σ → α → Prop} [∀ s a, Decidable (event s a)] {step : σ → α → σ → Prop} {as : List α}

def Tallied (event : σ → α → Prop) [∀ s a, Decidable (event s a)] (step : σ → α → σ → Prop) : σ × Nat → α → σ × Nat → Prop :=
  fun s a t => step s.1 a t.1 ∧ t.2 = if event s.1 a then s.2 + 1 else s.2

namespace Run

/-- A measure that the counted steps raise by one, and no other step changes, rises by their number. -/
theorem tally {m : σ → Nat} (each : ∀ s a t, step s a t → m t = if event s a then m s + 1 else m s) {s t : σ × Nat}
    (run : Run (Tallied event step) s as t) : m t.1 + s.2 = m s.1 + t.2 := by
  induction run with
  | nil s => rfl
  | @cons s t u a as first _ ih =>
    have rise := each _ _ _ first.1
    have count := first.2
    split at rise
    · rename_i holds
      rw [if_pos holds] at count
      omega
    · rename_i other
      rw [if_neg other] at count
      omega

end Run

/-- `Tallied` as a partial function. -/
def tally (event : σ → α → Prop) [∀ s a, Decidable (event s a)] (next : σ → α → Option σ) (s : σ × Nat) (a : α) : Option (σ × Nat) :=
  (next s.1 a).map fun t => (t, if event s.1 a then s.2 + 1 else s.2)

theorem tallied_of_tally {next : σ → α → Option σ} (sound : ∀ s a t, next s a = some t → step s a t) (s : σ × Nat) (a : α) (t : σ × Nat)
    (h : tally event next s a = some t) : Tallied event step s a t := by
  obtain ⟨u, found, rfl⟩ := Option.map_eq_some_iff.mp h
  exact ⟨sound _ _ _ found, rfl⟩

end Theory
