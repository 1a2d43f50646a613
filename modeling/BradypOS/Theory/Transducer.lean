import Mathlib.Tactic

/-!
# Machines that read and write

A machine takes its inputs one after another and puts something out for each. Two machines whose steps
agree on what they put out, from states that belong together, put out the same for all inputs.
-/

namespace Theory

variable {σ τ α β : Type*} {step : σ → α → List β × σ} {step' : τ → α → List β × τ}

/-- What is put out for a list of inputs, and the state behind it. -/
def transduce (step : σ → α → List β × σ) : σ → List α → List β × σ
  | s, [] => ([], s)
  | s, a :: as => ((step s a).1 ++ (transduce step (step s a).2 as).1, (transduce step (step s a).2 as).2)

theorem transduce_append (s : σ) (as bs : List α) :
    transduce step s (as ++ bs) = ((transduce step s as).1 ++ (transduce step (transduce step s as).2 bs).1,
      (transduce step (transduce step s as).2 bs).2) := by
  induction as generalizing s with
  | nil => rfl
  | cons a as ih =>
    rw [List.cons_append, transduce, ih]
    simp only [transduce, List.append_assoc]

theorem transduce_map {γ : Type*} (read : γ → α) (s : σ) (cs : List γ) :
    transduce (fun s c => step s (read c)) s cs = transduce step s (cs.map read) := by
  induction cs generalizing s with
  | nil => rfl
  | cons c cs ih => rw [List.map_cons, transduce, transduce, ih]

theorem transduce_simulates {R : σ → τ → Prop}
    (sim : ∀ s t a, R s t → (step s a).1 = (step' t a).1 ∧ R (step s a).2 (step' t a).2) {s : σ} {t : τ} (start : R s t)
    (as : List α) : (transduce step s as).1 = (transduce step' t as).1 ∧ R (transduce step s as).2 (transduce step' t as).2 := by
  induction as generalizing s t with
  | nil => exact ⟨rfl, start⟩
  | cons a as ih =>
    obtain ⟨same, related⟩ := sim s t a start
    obtain ⟨rest, finally_⟩ := ih related
    refine ⟨?_, finally_⟩
    rw [transduce, transduce, same, rest]

end Theory
