import Mathlib.Tactic

/-!
# Enough fuel

A computation with a bound on its loops settles when it has one result for every bound that is large enough. Bounds are
shared by the parts of a computation, so that parts that settle make a whole that settles.
-/

namespace Theory

universe u v
variable {m : Type u → Type v} [Monad m] {α β : Type u}

/-- With enough fuel the result is `a`. -/
def Settles (f : Nat → m α) (a : α) : Prop := ∃ n, ∀ fuel, n ≤ fuel → f fuel = pure a

namespace Settles

variable {f : Nat → m α} {g : α → Nat → m β} {a : α} {b : β}

theorem const {x : m α} (result : x = pure a) : Settles (fun _ => x) a := ⟨0, fun _ _ => result⟩

theorem bind [LawfulMonad m] (first : Settles f a) (second : Settles (g a) b) : Settles (fun fuel => f fuel >>= fun x => g x fuel) b := by
  obtain ⟨n, first⟩ := first
  obtain ⟨k, second⟩ := second
  refine ⟨max n k, fun fuel enough => ?_⟩
  dsimp only
  rw [first fuel (le_of_max_le_left enough), pure_bind]
  exact second fuel (le_of_max_le_right enough)

theorem congr {f' : Nat → m α} (h : Settles f a) (same : ∀ fuel, f' fuel = f fuel) : Settles f' a := by
  obtain ⟨n, settled⟩ := h
  exact ⟨n, fun fuel enough => (same fuel).trans (settled fuel enough)⟩

end Settles

end Theory
