import Mathlib.Data.List.Count

/-!
# Requests and their replies

The history of a server that takes requests one at a time, the last exchange first.
-/

namespace Theory

inductive Exchange (ι : Type*) where
  | request (client : ι)
  | reply (client : ι)
  /-- The client did not take its reply. -/
  | refused (client : ι)
  deriving DecidableEq

namespace Exchange

variable {ι : Type*} {history : List (Exchange ι)} {c : ι}

/-- The client whose request was taken and is not answered yet. -/
def serving : List (Exchange ι) → Option ι
  | .request c :: _ => some c
  | _ => none

/-- What may follow: a request while nobody is served, and an answer to the client that is. -/
def Fits (history : List (Exchange ι)) : Exchange ι → Prop
  | .request _ => serving history = none
  | .reply c | .refused c => serving history = some c

def Matched : List (Exchange ι) → Prop
  | [] => True
  | e :: history => Fits history e ∧ Matched history

theorem serving_some (h : serving history = some c) : ∃ earlier, history = .request c :: earlier := by
  unfold serving at h
  split at h
  · cases h
    exact ⟨_, rfl⟩
  · cases h

theorem Matched.suffix {later earlier : List (Exchange ι)} (h : Matched (later ++ earlier)) : Matched earlier := by
  induction later with
  | nil => exact h
  | cons e later ih => exact ih h.2

/-- An answer comes directly after the request that it answers. -/
theorem Matched.answers {later earlier : List (Exchange ι)} (h : Matched (later ++ .reply c :: earlier)) :
    ∃ before, earlier = .request c :: before :=
  serving_some h.suffix.1

/-- Every request is answered once, but for the one that is being served. -/
theorem Matched.count [DecidableEq ι] (h : Matched history) (c : ι) :
    history.count (.request c) = history.count (.reply c) + history.count (.refused c) + if serving history = some c then 1 else 0 := by
  induction history with
  | nil => rfl
  | cons e history ih =>
    obtain ⟨fits, before⟩ := h
    have ih := ih before
    cases e with
    | request d =>
      have idle : serving history = none := fits
      rw [idle] at ih
      simp only [List.count_cons, serving, Option.some.injEq, beq_iff_eq, request.injEq, reduceCtorEq, if_false] at ih ⊢
      omega
    | reply d =>
      have here : serving history = some d := fits
      rw [here] at ih
      simp only [List.count_cons, serving, Option.some.injEq, beq_iff_eq, reply.injEq, reduceCtorEq, if_false] at ih ⊢
      omega
    | refused d =>
      have here : serving history = some d := fits
      rw [here] at ih
      simp only [List.count_cons, serving, Option.some.injEq, beq_iff_eq, refused.injEq, reduceCtorEq, if_false] at ih ⊢
      omega

end Exchange

end Theory
