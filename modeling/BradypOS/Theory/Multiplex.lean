import BradypOS.Theory.Transition

/-!
# One register file for many

A machine with one register file runs one of many contexts and has the registers of the others saved. Each context has
registers of its own, which saving and loading does not show. `Private` is the machine that really has a register file
for each context.
-/

namespace Theory

variable {ι γ : Type*} [DecidableEq ι]

structure Multiplexed (ι γ : Type*) where
  current : ι
  registers : γ
  saved : ι → γ

namespace Multiplexed

/-- The registers of a context, wherever they are. -/
def own (m : Multiplexed ι γ) (i : ι) : γ := if i = m.current then m.registers else m.saved i

theorem own_current (m : Multiplexed ι γ) : m.own m.current = m.registers := if_pos rfl

theorem own_other {m : Multiplexed ι γ} {i : ι} (other : i ≠ m.current) : m.own i = m.saved i := if_neg other

/-- Behind a switch the registers are those that were saved for the current context, and the saved ones show everywhere. -/
theorem own_loaded {m : Multiplexed ι γ} (loaded : m.registers = m.saved m.current) (i : ι) : m.own i = m.saved i := by
  by_cases here : i = m.current
  · rw [here, own_current, loaded]
  · exact own_other here

end Multiplexed

/-- What a step of the private machine does. -/
inductive Private (ι γ : Type*) where
  | silent
  /-- A context computes. -/
  | runs (i : ι) (registers : γ)
  /-- A context is given registers from outside. -/
  | given (i : ι) (registers : γ)

/-- The effect of a step on the register files. -/
def Private.effect (files : ι → γ) : Private ι γ → ι → γ
  | .silent => files
  | .runs i registers => Function.update files i registers
  | .given i registers => Function.update files i registers

theorem Private.effect_runs (files : ι → γ) (i : ι) (registers : γ) : (Private.runs i registers).effect files i = registers :=
  Function.update_self _ _ _

theorem Private.effect_given (files : ι → γ) (i : ι) (registers : γ) : (Private.given i registers).effect files i = registers :=
  Function.update_self _ _ _

/-- A context that neither computes nor is given registers. -/
def Private.Spares (i : ι) : Private ι γ → Prop
  | .silent => True
  | .runs j _ => j ≠ i
  | .given j _ => j ≠ i

theorem Private.effect_spared {files : ι → γ} {i : ι} {label : Private ι γ} (spares : label.Spares i) : label.effect files i = files i := by
  cases label with
  | silent => rfl
  | runs j registers => exact Function.update_of_ne (Ne.symm spares) _ _
  | given j registers => exact Function.update_of_ne (Ne.symm spares) _ _

theorem Private.effects_spared {labels : List (Private ι γ)} {i : ι} (spares : ∀ label ∈ labels, label.Spares i) (files : ι → γ) :
    labels.foldl Private.effect files i = files i := by
  induction labels generalizing files with
  | nil => rfl
  | cons label labels ih =>
    obtain ⟨first, rest⟩ := List.forall_mem_cons.mp spares
    rw [List.foldl_cons, ih rest, effect_spared first]

/-- What a step does to a context depends on that context alone. -/
theorem Private.effect_congr {files files' : ι → γ} {i : ι} (same : files i = files' i) (label : Private ι γ) :
    label.effect files i = label.effect files' i := by
  cases label with
  | silent => exact same
  | runs j registers => simp only [effect, Function.update_apply, same]
  | given j registers => simp only [effect, Function.update_apply, same]

theorem Private.effects_congr {files files' : ι → γ} {i : ι} (same : files i = files' i) (labels : List (Private ι γ)) :
    labels.foldl Private.effect files i = labels.foldl Private.effect files' i := by
  induction labels generalizing files files' with
  | nil => exact same
  | cons label labels ih => exact ih (effect_congr same label)

section Refines

variable {σ α : Type*} {step : σ → α → σ → Prop} {shows : σ → α → σ → Private ι γ → Prop} {files : σ → ι → γ} {watched : ι → Prop}

/-- Where every step of a machine shows a step of the private one, so does every run. -/
theorem run_private (each : ∀ s a s', step s a s' →
      ∃ label, shows s a s' label ∧ ∀ i, watched i → files s' i = label.effect (files s) i)
    {s s' : σ} {as : List α} (run : Run step s as s') :
    ∃ als : List (α × Private ι γ), als.map Prod.fst = as ∧
      Run (fun s al s' => step s al.1 s' ∧ shows s al.1 s' al.2) s als s' ∧
      ∀ i, watched i → files s' i = (als.map Prod.snd).foldl Private.effect (files s) i := by
  induction run with
  | nil s => exact ⟨[], rfl, .nil s, fun _ _ => rfl⟩
  | @cons s t u a as first _ ih =>
    obtain ⟨label, shown, same⟩ := each s a t first
    obtain ⟨als, actions, rest, agree⟩ := ih
    refine ⟨(a, label) :: als, congrArg (a :: ·) actions, .cons ⟨first, shown⟩ rest, fun i seen => ?_⟩
    exact (agree i seen).trans (Private.effects_congr (same i seen) _)

end Refines

end Theory
