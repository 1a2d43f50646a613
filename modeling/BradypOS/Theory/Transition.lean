import Mathlib.Tactic

/-!
# Runs of a labelled transition relation

`Run step s as t`: the actions `as`, taken one after another, lead from `s` to `t`. A prefix of a
run is a run, so what holds at the end of every run holds in every state a run goes through.
-/

namespace Theory

variable {σ α : Type*}

inductive Run (step : σ → α → σ → Prop) : σ → List α → σ → Prop where
  | nil (s : σ) : Run step s [] s
  | cons {s t u : σ} {a : α} {as : List α} : step s a t → Run step t as u → Run step s (a :: as) u

/-- The steps of `step` that start in a state where `guard` allows the action. -/
def Guarded (guard : σ → α → Prop) (step : σ → α → σ → Prop) : σ → α → σ → Prop :=
  fun s a t => guard s a ∧ step s a t

namespace Run

variable {step step' : σ → α → σ → Prop} {s t u : σ} {a : α} {as bs : List α}

theorem single (h : step s a t) : Run step s [a] t := cons h (nil t)

theorem append (h : Run step s as t) (h' : Run step t bs u) : Run step s (as ++ bs) u := by
  induction h with
  | nil s => exact h'
  | cons first _ ih => exact cons first (ih h')

theorem mono (sub : ∀ s a t, step s a t → step' s a t) (h : Run step s as t) : Run step' s as t := by
  induction h with
  | nil s => exact nil s
  | cons first _ ih => exact cons (sub _ _ _ first) ih

/-- What every step preserves, every run preserves. -/
theorem invariant {I : σ → Prop} (keep : ∀ s a t, step s a t → I s → I t)
    (h : Run step s as t) (start : I s) : I t := by
  induction h with
  | nil s => exact start
  | cons first _ ih => exact ih (keep _ _ _ first start)

/-- What relates the two ends of every step, and composes, relates the two ends of every run. -/
theorem relates {R : σ → σ → Prop} (refl : ∀ s, R s s) (trans : ∀ s t u, R s t → R t u → R s u)
    (each : ∀ s a t, step s a t → R s t) (h : Run step s as t) : R s t := by
  induction h with
  | nil s => exact refl s
  | cons first _ ih => exact trans _ _ _ (each _ _ _ first) ih

end Run

/-- A run computed by a partial step function, with actions that depend on the state reached. -/
def follow (next : σ → α → Option σ) : σ → List (σ → α) → Option σ
  | s, [] => some s
  | s, f :: fs => (next s (f s)).bind fun t => follow next t fs

theorem run_of_follow {step : σ → α → σ → Prop} {next : σ → α → Option σ}
    (sound : ∀ s a t, next s a = some t → step s a t) {s t : σ} {fs : List (σ → α)}
    (h : follow next s fs = some t) : ∃ as, Run step s as t := by
  induction fs generalizing s with
  | nil => cases h; exact ⟨[], .nil _⟩
  | cons f fs ih =>
    obtain ⟨u, first, rest⟩ := Option.bind_eq_some_iff.mp h
    obtain ⟨as, run⟩ := ih rest
    exact ⟨f s :: as, .cons (sound _ _ _ first) run⟩

theorem run_of_follow_const {step : σ → α → σ → Prop} {next : σ → α → Option σ}
    (sound : ∀ s a t, next s a = some t → step s a t) {s t : σ} {as : List α}
    (h : follow next s (as.map fun a _ => a) = some t) : Run step s as t := by
  induction as generalizing s with
  | nil => cases h; exact .nil _
  | cons a as ih =>
    obtain ⟨u, first, rest⟩ := Option.bind_eq_some_iff.mp h
    exact .cons (sound _ _ _ first) (ih rest)

/-- A partial step function that takes only the steps its guard allows. -/
def restrict (guard : σ → α → Prop) [∀ s a, Decidable (guard s a)] (next : σ → α → Option σ) (s : σ) (a : α) : Option σ :=
  if guard s a then next s a else none

theorem guarded_of_restrict {guard : σ → α → Prop} [∀ s a, Decidable (guard s a)] {next : σ → α → Option σ}
    {step : σ → α → σ → Prop} (sound : ∀ s a t, next s a = some t → step s a t) (s : σ) (a : α) (t : σ)
    (h : restrict guard next s a = some t) : Guarded guard step s a t := by
  unfold restrict at h
  split at h
  · rename_i allowed
    exact ⟨allowed, sound s a t h⟩
  · cases h

/-- A check that the guard follows from. -/
theorem guarded_of_check {guard : σ → α → Prop} {check : σ → α → Bool} {next : σ → α → Option σ} {step : σ → α → σ → Prop}
    (allows : ∀ s a, check s a = true → guard s a) (sound : ∀ s a t, next s a = some t → step s a t) (s : σ) (a : α) (t : σ)
    (h : restrict (fun s a => check s a = true) next s a = some t) : Guarded guard step s a t := by
  obtain ⟨checked, taken⟩ := guarded_of_restrict sound s a t h
  exact ⟨allows s a checked, taken⟩

end Theory
