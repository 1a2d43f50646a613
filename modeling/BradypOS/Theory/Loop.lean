import Mathlib.Tactic

/-!
# Loops that may not end

`loop round fuel s` runs a loop from `s`, for `fuel` rounds at most. `Reaches round n s t` says that
`n` rounds lead from `s` to `t`; the loop ends in a state it reaches, in a round that exits.
-/

namespace Theory

variable {σ ρ : Type*}

/-- How one round of a loop ends. -/
inductive Turn (σ ρ : Type*) where
  | next (s : σ)
  | exit (r : ρ)

def loop (round : σ → Turn σ ρ) : Nat → σ → Turn σ ρ
  | 0, s => .next s
  | fuel + 1, s =>
    match round s with
    | .next t => loop round fuel t
    | .exit r => .exit r

def Reaches (round : σ → Turn σ ρ) (n : Nat) (s t : σ) : Prop := loop round n s = .next t

section

variable {round : σ → Turn σ ρ} {s t u : σ} {n k : Nat} {r : ρ}

theorem loop_next (step : round s = .next t) (fuel : Nat) : loop round (fuel + 1) s = loop round fuel t := by
  rw [loop, step]

theorem loop_exit (step : round s = .exit r) (fuel : Nat) : loop round (fuel + 1) s = .exit r := by
  rw [loop, step]

theorem Reaches.refl (s : σ) : Reaches round 0 s s := rfl

theorem Reaches.loop_add (reached : Reaches round n s t) (fuel : Nat) :
    loop round (n + fuel) s = loop round fuel t := by
  induction n generalizing s with
  | zero =>
    obtain rfl := Turn.next.inj reached
    rw [Nat.zero_add]
  | succ n ih =>
    rw [Nat.succ_add]
    cases step : round s with
    | next v =>
      rw [Reaches, loop_next step] at reached
      rw [loop_next step]
      exact ih reached
    | exit r =>
      rw [Reaches, loop_exit step] at reached
      cases reached

theorem Reaches.loop_succ (reached : Reaches round n s t) : loop round (n + 1) s = round t := by
  rw [reached.loop_add]
  cases step : round t with
  | next u => rw [loop_next step, loop]
  | exit r => rw [loop_exit step]

theorem Reaches.unique (reached : Reaches round n s t) (again : Reaches round n s u) : t = u :=
  Turn.next.inj (reached.symm.trans again)

theorem Reaches.before (reached : Reaches round (n + 1) s u) : ∃ t, Reaches round n s t ∧ round t = .next u := by
  induction n generalizing s with
  | zero =>
    refine ⟨s, Reaches.refl s, ?_⟩
    cases step : round s with
    | next v =>
      rw [Reaches, loop_next step] at reached
      exact congrArg Turn.next (Turn.next.inj reached)
    | exit r =>
      rw [Reaches, loop_exit step] at reached
      cases reached
  | succ n ih =>
    cases step : round s with
    | next v =>
      rw [Reaches, loop_next step] at reached
      obtain ⟨t, before, last⟩ := ih reached
      exact ⟨t, (loop_next step n).trans before, last⟩
    | exit r =>
      rw [Reaches, loop_exit step] at reached
      cases reached

/-- What holds at the start and is carried over each round that goes on holds wherever the loop comes. -/
theorem Reaches.invariant {I : Nat → σ → Prop} (start : I 0 s)
    (keep : ∀ n t u, Reaches round n s t → round t = .next u → I n t → I (n + 1) u) (reached : Reaches round n s t) : I n t := by
  induction n generalizing t with
  | zero =>
    obtain rfl := Turn.next.inj reached
    exact start
  | succ n ih =>
    obtain ⟨u, before, last⟩ := reached.before
    exact keep n u t before last (ih before)

theorem Reaches.exits (reached : Reaches round n s t) (step : round t = .exit r) {fuel : Nat} (enough : n < fuel) :
    loop round fuel s = .exit r := by
  obtain ⟨more, rfl⟩ : ∃ more, fuel = n + (more + 1) := ⟨fuel - n - 1, by omega⟩
  rw [reached.loop_add]
  exact loop_exit step more

theorem Reaches.le_of_exit (reached : Reaches round n s t) (step : round t = .exit r) (further : Reaches round k s u) :
    k ≤ n := by
  by_contra more
  have ends := reached.exits step (Nat.lt_of_not_le more)
  cases further.symm.trans ends

theorem exits_of_loop {fuel : Nat} (ends : loop round fuel s = .exit r) :
    ∃ n t, n < fuel ∧ Reaches round n s t ∧ round t = .exit r := by
  induction fuel generalizing s with
  | zero => cases ends
  | succ fuel ih =>
    cases step : round s with
    | next v =>
      rw [loop_next step] at ends
      obtain ⟨n, t, enough, reached, last⟩ := ih ends
      exact ⟨n + 1, t, by omega, (loop_next step n).trans reached, last⟩
    | exit q =>
      rw [loop_exit step] at ends
      exact ⟨0, s, by omega, Reaches.refl s, step.trans ends⟩

/-! ### Loops that come back -/

/-- The loop comes to one state twice. -/
def ComesBack (round : σ → Turn σ ρ) (s : σ) : Prop := ∃ i j t, i < j ∧ Reaches round i s t ∧ Reaches round j s t

theorem Reaches.drop (reached : Reaches round (n + k) s t) (first : Reaches round n s u) : Reaches round k u t :=
  (first.loop_add k).symm.trans reached

theorem Reaches.earlier (reached : Reaches round n s t) (le : k ≤ n) : ∃ u, Reaches round k s u := by
  obtain ⟨more, rfl⟩ := Nat.exists_eq_add_of_le le
  induction more generalizing t with
  | zero => exact ⟨t, reached⟩
  | succ more ih =>
    obtain ⟨u, before, _⟩ := Reaches.before (n := k + more) reached
    exact ih before (Nat.le_add_right k more)

theorem Reaches.onward (reached : Reaches round n s t) (early : k < n) (there : Reaches round k s u) :
    ∃ v, round u = .next v ∧ Reaches round (k + 1) s v := by
  obtain ⟨v, further⟩ := reached.earlier early
  obtain ⟨w, before, step⟩ := further.before
  obtain rfl := before.unique there
  exact ⟨v, step, further⟩

/-- A state that a round leads back to at once. -/
theorem Reaches.stays (step : round s = .next s) (n : Nat) : Reaches round n s s := by
  induction n with
  | zero => exact Reaches.refl s
  | succ n ih => exact (loop_next step n).trans ih

/-- A loop that ends has not come to a state twice. -/
theorem Reaches.not_comesBack (reached : Reaches round n s t) (step : round t = .exit r) : ¬ ComesBack round s := by
  rintro ⟨i, j, u, before, first, again⟩
  obtain ⟨rest, rfl⟩ := Nat.exists_eq_add_of_le (reached.le_of_exit step again)
  have shortcut : Reaches round (i + rest) s t := (first.loop_add rest).trans (reached.drop again)
  have least := shortcut.le_of_exit step reached
  omega

/-- The states up to one that is reached are distinct. -/
theorem Reaches.lt_card (reached : Reaches round n s t) (fresh : ¬ ComesBack round s) (S : Finset σ)
    (inside : ∀ k ≤ n, ∀ u, Reaches round k s u → u ∈ S) : n < S.card := by
  have trail : ∀ k, ∃ u, k ≤ n → Reaches round k s u := by
    intro k
    by_cases early : k ≤ n
    · obtain ⟨u, there⟩ := reached.earlier early
      exact ⟨u, fun _ => there⟩
    · exact ⟨s, fun early' => absurd early' early⟩
  choose f there using trail
  have count : (Finset.range (n + 1)).card ≤ S.card := by
    apply Finset.card_le_card_of_injOn f
    · intro k member
      have early := Nat.le_of_lt_succ (Finset.mem_range.mp member)
      exact inside k early _ (there k early)
    · intro i memberI j memberJ same
      have first := there i (Nat.le_of_lt_succ (Finset.mem_range.mp memberI))
      have second := there j (Nat.le_of_lt_succ (Finset.mem_range.mp memberJ))
      rw [same] at first
      rcases Nat.lt_trichotomy i j with before | equal | after
      · exact absurd ⟨i, j, _, before, first, second⟩ fresh
      · exact equal
      · exact absurd ⟨j, i, _, after, second, first⟩ fresh
  rwa [Finset.card_range] at count

theorem Reaches.le_card (reached : Reaches round n s t) (fresh : ¬ ComesBack round s) (S : Finset σ)
    (inside : ∀ k < n, ∀ u, Reaches round k s u → u ∈ S) : n ≤ S.card := by
  cases n with
  | zero => exact Nat.zero_le _
  | succ n =>
    obtain ⟨u, before, _⟩ := reached.before
    exact before.lt_card fresh S fun k le => inside k (Nat.lt_succ_of_le le)

/-- A loop that does not go on for ever ends. -/
theorem exits_of_bounded {bound : Nat} (bounded : ∀ n t, Reaches round n s t → n < bound) :
    ∃ n t r, Reaches round n s t ∧ round t = .exit r := by
  by_contra endless
  have goes : ∀ n, ∃ t, Reaches round n s t := by
    intro n
    induction n with
    | zero => exact ⟨s, Reaches.refl s⟩
    | succ n ih =>
      obtain ⟨t, reached⟩ := ih
      cases step : round t with
      | next u => exact ⟨u, reached.loop_succ.trans step⟩
      | exit r => exact absurd ⟨n, t, r, reached, step⟩ endless
  obtain ⟨t, reached⟩ := goes bound
  exact absurd (bounded bound t reached) (Nat.lt_irrefl bound)

theorem ComesBack.endless (back : ComesBack round s) (n : Nat) : ∃ t, Reaches round n s t := by
  by_contra short
  have bounded : ∀ m t, Reaches round m s t → m < n := by
    intro m t reached
    by_contra long
    exact short (reached.earlier (Nat.le_of_not_lt long))
  obtain ⟨_, _, _, reached, step⟩ := exits_of_bounded bounded
  exact reached.not_comesBack step back

/-! ### Where a loop comes -/

def Comes (round : σ → Turn σ ρ) (s t : σ) : Prop := ∃ n, Reaches round n s t

theorem Comes.refl (s : σ) : Comes round s s := ⟨0, Reaches.refl s⟩

theorem Comes.step (step : round s = .next t) : Comes round s t := ⟨1, loop_next step 0⟩

theorem Comes.trans (first : Comes round s t) (rest : Comes round t u) : Comes round s u := by
  obtain ⟨n, reached⟩ := first
  obtain ⟨k, further⟩ := rest
  exact ⟨n + k, (reached.loop_add k).trans further⟩

/-- A loop that lowers a measure with every round it goes on from ends. -/
theorem exits_of_measure (measure : σ → Nat) (lowers : ∀ t u, Comes round s t → round t = .next u → measure u < measure t) :
    ∃ r, loop round (measure s + 1) s = .exit r := by
  generalize bound : measure s = m
  induction m using Nat.strong_induction_on generalizing s with
  | _ m ih =>
    cases step : round s with
    | exit r => exact ⟨r, loop_exit step m⟩
    | next t =>
      have less := lowers s t (Comes.refl s) step
      rw [bound] at less
      have later : ∀ v w, Comes round t v → round v = .next w → measure w < measure v :=
        fun v w comes => lowers v w ((Comes.step step).trans comes)
      obtain ⟨r, ends⟩ := ih (measure t) less later rfl
      obtain ⟨n, v, early, reached, last⟩ := exits_of_loop ends
      refine ⟨r, ?_⟩
      rw [loop_next step]
      exact reached.exits last (by omega)

/-- A loop whose rounds lower a measure or wait ends, if it waits for something that comes again and again. -/
theorem Comes.exits_of_waits {I : σ → Prop} (measure clock : σ → Nat) {due : Nat → Prop} (again : ∀ n, ∃ k, n ≤ k ∧ due k)
    (turn : ∀ t, I t → (∃ r, round t = .exit r) ∨ ∃ u, round t = .next u ∧ I u ∧
      (measure u < measure t ∨ ¬ due (clock t) ∧ measure u ≤ measure t ∧ clock u = clock t + 1))
    (start : I s) : ∃ t r, Comes round s t ∧ I t ∧ round t = .exit r := by
  generalize bound : measure s = m
  induction m using Nat.strong_induction_on generalizing s with
  | _ m lower =>
    obtain ⟨k, later, met⟩ := again (clock s)
    -- by induction on how long the loop waits
    obtain ⟨wait, rfl⟩ := Nat.exists_eq_add_of_le later
    induction wait generalizing s with
    | zero =>
      obtain ⟨r, ends⟩ | ⟨u, step, kept, less | ⟨notDue, -⟩⟩ := turn s start
      · exact ⟨s, r, .refl s, start, ends⟩
      · obtain ⟨t, r, comes, holds, ends⟩ := lower (measure u) (bound ▸ less) kept rfl
        exact ⟨t, r, (Comes.step step).trans comes, holds, ends⟩
      · exact absurd met notDue
    | succ wait ih =>
      obtain ⟨r, ends⟩ | ⟨u, step, kept, less | ⟨-, le, ticks⟩⟩ := turn s start
      · exact ⟨s, r, .refl s, start, ends⟩
      · obtain ⟨t, r, comes, holds, ends⟩ := lower (measure u) (bound ▸ less) kept rfl
        exact ⟨t, r, (Comes.step step).trans comes, holds, ends⟩
      · have due_ : due (clock u + wait) := by
          rw [ticks]
          convert met using 1
          omega
        rcases Nat.lt_or_eq_of_le le with less | same
        · obtain ⟨t, r, comes, holds, ends⟩ := lower (measure u) (bound ▸ less) kept rfl
          exact ⟨t, r, (Comes.step step).trans comes, holds, ends⟩
        · obtain ⟨t, r, comes, holds, ends⟩ := ih kept (same.trans bound) (Nat.le_add_right _ _) due_
          exact ⟨t, r, (Comes.step step).trans comes, holds, ends⟩

/-! ### Rounds with a log -/

section
variable {α : Type*} {logged : σ → List α × Turn σ ρ} {a : α}

def unlogged (logged : σ → List α × Turn σ ρ) (s : σ) : Turn σ ρ := (logged s).2

/-- The loop with what its rounds log. -/
def loggedLoop (logged : σ → List α × Turn σ ρ) : Nat → σ → List α × Turn σ ρ
  | 0, s => ([], .next s)
  | fuel + 1, s =>
    match logged s with
    | (log, .next t) => (log ++ (loggedLoop logged fuel t).1, (loggedLoop logged fuel t).2)
    | (log, .exit r) => (log, .exit r)

theorem loggedLoop_next (step : unlogged logged s = .next t) (fuel : Nat) :
    loggedLoop logged (fuel + 1) s = ((logged s).1 ++ (loggedLoop logged fuel t).1, (loggedLoop logged fuel t).2) := by
  rw [loggedLoop, show logged s = ((logged s).1, .next t) from Prod.ext rfl step]

theorem loggedLoop_exit (step : unlogged logged s = .exit r) (fuel : Nat) : loggedLoop logged (fuel + 1) s = ((logged s).1, .exit r) := by
  rw [loggedLoop, show logged s = ((logged s).1, .exit r) from Prod.ext rfl step]

/-- The log changes nothing about the loop. -/
theorem loggedLoop_loop (fuel : Nat) (s : σ) : (loggedLoop logged fuel s).2 = loop (unlogged logged) fuel s := by
  induction fuel generalizing s with
  | zero => rfl
  | succ fuel ih =>
    cases step : unlogged logged s with
    | next t =>
      rw [loggedLoop_next step, loop_next step]
      exact ih t
    | exit r => rw [loggedLoop_exit step, loop_exit step]

/-- What is logged is logged by the round of a state that the loop reaches. -/
theorem mem_loggedLoop_iff {fuel : Nat} : a ∈ (loggedLoop logged fuel s).1 ↔
    ∃ n t, n < fuel ∧ Reaches (unlogged logged) n s t ∧ a ∈ (logged t).1 := by
  constructor
  · intro member
    induction fuel generalizing s with
    | zero => cases member
    | succ fuel ih =>
      cases step : unlogged logged s with
      | next t =>
        rw [loggedLoop_next step, List.mem_append] at member
        rcases member with now | later
        · exact ⟨0, s, Nat.succ_pos fuel, Reaches.refl s, now⟩
        · obtain ⟨n, u, less, reached, there⟩ := ih later
          exact ⟨n + 1, u, Nat.succ_lt_succ less, (loop_next step n).trans reached, there⟩
      | exit r =>
        rw [loggedLoop_exit step] at member
        exact ⟨0, s, Nat.succ_pos fuel, Reaches.refl s, member⟩
  · rintro ⟨n, t, less, reached, member⟩
    induction n generalizing fuel s with
    | zero =>
      obtain ⟨rest, rfl⟩ := Nat.exists_eq_add_of_lt less
      obtain rfl := Turn.next.inj reached
      rw [Nat.zero_add]
      cases step : unlogged logged s with
      | next u =>
        rw [loggedLoop_next step]
        exact List.mem_append_left _ member
      | exit r =>
        rw [loggedLoop_exit step]
        exact member
    | succ n ih =>
      obtain ⟨rest, rfl⟩ : ∃ rest, fuel = rest + 1 := ⟨fuel - 1, by omega⟩
      cases step : unlogged logged s with
      | next u =>
        rw [Reaches, loop_next step] at reached
        rw [loggedLoop_next step]
        exact List.mem_append_right _ (ih (by omega) reached)
      | exit r =>
        rw [Reaches, loop_exit step] at reached
        cases reached

end

/-! ### What holds on the way -/

/-- The loop comes from `s` to `t`, and where it was before `t` there is `I`. -/
def Through (round : σ → Turn σ ρ) (I : σ → Prop) (s t : σ) : Prop :=
  ∃ n, Reaches round n s t ∧ ∀ k u, k < n → Reaches round k s u → I u

section
variable {I : σ → Prop}

theorem Through.refl (s : σ) : Through round I s s := ⟨0, Reaches.refl s, fun _ _ less _ => absurd less (Nat.not_lt_zero _)⟩

theorem Through.step (here : I s) (step : round s = .next t) : Through round I s t := by
  refine ⟨1, loop_next step 0, fun k u less reached => ?_⟩
  obtain rfl : k = 0 := by omega
  obtain rfl := Turn.next.inj reached
  exact here

theorem Through.comes (through : Through round I s t) : Comes round s t := through.imp fun _ => And.left

theorem Through.trans (first : Through round I s t) (rest : Through round I t u) : Through round I s u := by
  obtain ⟨n, reached, before⟩ := first
  obtain ⟨m, further, after⟩ := rest
  refine ⟨n + m, (reached.loop_add m).trans further, fun k v less there => ?_⟩
  rcases Nat.lt_or_ge k n with early | late
  · exact before k v early there
  · obtain ⟨j, rfl⟩ := Nat.exists_eq_add_of_le late
    exact after j v (by omega) (Reaches.drop there reached)

theorem Through.mono {J : σ → Prop} (through : Through round I s t) (sub : ∀ u, I u → J u) : Through round J s t := by
  obtain ⟨n, reached, before⟩ := through
  exact ⟨n, reached, fun k u less there => sub u (before k u less there)⟩

/-- A loop that ends has been nowhere else. -/
theorem Through.everywhere (through : Through round I s t) (step : round t = .exit r) (last : I t) (comes : Comes round s u) :
    I u := by
  obtain ⟨n, reached, before⟩ := through
  obtain ⟨k, there⟩ := comes
  rcases Nat.lt_or_eq_of_le (reached.le_of_exit step there) with early | rfl
  · exact before k u early there
  · rwa [there.unique reached]

end
end

end Theory
