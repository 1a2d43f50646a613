import BradypOS.Root.Inittab

/-!
# The end of the inittab

`parse` compares its position with the end for equality only. It goes past the end in a line that stops
behind the colon, in its path, or at a `/` of it, and has nothing there to stop it.
-/

namespace BradypOS.Root.Inittab

open Theory
open Inittab.Parser

def StaysInside (input : Input) : Prop :=
  (∃ t, Comes (parseRound input) init t ∧ parseRound input t = .exit t) ∧ ∀ t, Comes (parseRound input) init t → ∀ i ∈ t.reads, i < input.stop

/-! ### What a text consists of -/

def lineWord : List Byte := spawnStr ++ [colon]

/-- Directories that can be opened lead from one position to another. The byte behind a `/` may be any. -/
inductive Dirs (input : Input) (p : Nat) : Nat → Prop where
  | here : Dirs input p p
  | opened {q name d} (before : Dirs input p q) (has : input.Has q (name ++ [slash, d])) (plain : ∀ c ∈ name, Passed .parsePath c)
      (yes : input.opens (q + name.length) = true) : Dirs input p (q + name.length + 2)

/-- A line that `parse` gets over. -/
inductive LineTo (input : Input) (p : Nat) : Nat → Prop where
  | file {q name} (word : input.Has p (lineWord ++ [slash])) (dirs : Dirs input (p + 7) q) (has : input.Has q (name ++ [newline]))
      (plain : ∀ c ∈ name, Passed .parsePath c) : LineTo input p (q + name.length + 1)
  | failed {q name d rest} (word : input.Has p (lineWord ++ [slash])) (dirs : Dirs input (p + 7) q)
      (has : input.Has q (name ++ [slash, d])) (plain : ∀ c ∈ name, Passed .parsePath c) (no : input.opens (q + name.length) = false)
      (behind : input.Has (q + name.length + 2) (rest ++ [newline])) (free : ∀ c ∈ rest, c ≠ newline) :
      LineTo input p (q + name.length + 2 + rest.length + 1)
  | other {c rest} (word : input.Has p (lineWord ++ [c])) (noPath : c ≠ slash) (behind : input.Has (p + 7) (rest ++ [newline]))
      (free : ∀ c ∈ rest, c ≠ newline) : LineTo input p (p + 7 + rest.length + 1)

inductive Lines (input : Input) : Nat → Prop where
  | start : Lines input 0
  | next {p q} (before : Lines input p) (line : LineTo input p q) : Lines input q

/-- The text stops in a line, behind the colon or in a path with directories that can be opened. -/
inductive Unfinished (input : Input) (p : Nat) : Prop where
  | colon (word : input.Has p lineWord) (ends : p + 6 = input.stop)
  | name {q name} (word : input.Has p (lineWord ++ [slash])) (dirs : Dirs input (p + 7) q) (has : input.Has q name)
      (plain : ∀ c ∈ name, Passed .parsePath c) (ends : q + name.length = input.stop)
  | slash {q name} (word : input.Has p (lineWord ++ [slash])) (dirs : Dirs input (p + 7) q) (has : input.Has q (name ++ [slash]))
      (plain : ∀ c ∈ name, Passed .parsePath c) (ends : q + name.length + 1 = input.stop)

def Overruns (input : Input) : Prop := ∃ p, Lines input p ∧ Unfinished input p

/-! ### Positions and reads -/

section
variable {input : Input} {s t : Parser}

structure Parser.Inside (input : Input) (s : Parser) : Prop where
  begun : s.strStart ≤ s.pos
  reads : s.pos ≤ input.stop → ∀ i ∈ s.reads, i < input.stop

def Onward (input : Input) (s t : Parser) : Prop := s.Inside input → t.Inside input ∧ s.pos ≤ t.pos

theorem look_inside {start length : Nat} (old : ∀ i ∈ s.reads, i < input.stop) (fits : start + length ≤ input.stop) :
    ∀ i ∈ (s.look start length).reads, i < input.stop := by
  intro i member
  rcases List.mem_append.mp member with before | new
  · exact old i before
  · exact Nat.lt_of_lt_of_le (List.mem_range'_1.mp new).2 fits

theorem parseMode_onward : Onward input s (s.parseMode input) := by
  rintro ⟨begun, reads⟩
  unfold parseMode
  split
  · exact ⟨⟨begun, reads⟩, Nat.le_refl _⟩
  · rename_i going
    have looked (bound : s.pos ≤ input.stop) : ∀ i ∈ (s.look s.pos 1).reads, i < input.stop := look_inside (reads bound) (by omega)
    dsimp only
    split
    · split
      · exact ⟨⟨begun, looked⟩, Nat.le_refl _⟩
      · rename_i length
        have word (bound : s.pos ≤ input.stop) : ∀ i ∈ ((s.look s.pos 1).look s.strStart spawnStr.length).reads, i < input.stop := by
          have five : s.pos - s.strStart = spawnStr.length := not_not.mp length
          exact look_inside (looked bound) (by omega)
        split
        · exact ⟨⟨begun, word⟩, Nat.le_refl _⟩
        · exact ⟨⟨Nat.le_refl _, fun bound => word (Nat.le_of_succ_le bound)⟩, Nat.le_succ _⟩
    · exact ⟨⟨Nat.le_succ_of_le begun, fun bound => looked (Nat.le_of_succ_le bound)⟩, Nat.le_succ _⟩

theorem parsePathSlash_onward : Onward input s (s.parsePathSlash input) := by
  rintro ⟨begun, reads⟩
  unfold parsePathSlash
  split
  · exact ⟨⟨Nat.le_succ_of_le begun, fun bound => reads (Nat.le_of_succ_le bound)⟩, Nat.le_succ _⟩
  · have looked (bound : s.pos + 1 ≤ input.stop) : ∀ i ∈ (s.look s.pos 1).reads, i < input.stop :=
      look_inside (reads (Nat.le_of_succ_le bound)) bound
    dsimp only
    split
    · exact ⟨⟨Nat.le_succ_of_le begun, looked⟩, Nat.le_succ _⟩
    · exact ⟨⟨Nat.le_refl _, looked⟩, Nat.le_succ _⟩

theorem lastComponent_onward : Onward input s (s.lastComponent input) := by
  rintro ⟨begun, reads⟩
  refine ⟨⟨Nat.le_refl _, fun bound => ?_⟩, Nat.le_succ _⟩
  have before : s.pos ≤ input.stop := Nat.le_of_succ_le bound
  exact look_inside (reads before) (by omega)

theorem nextComponent_onward : Onward input s (s.nextComponent input) := by
  rintro ⟨begun, reads⟩
  have looked (bound : s.pos + 2 ≤ input.stop) : ∀ i ∈ (s.look s.strStart (s.pos - s.strStart)).reads, i < input.stop :=
    look_inside (reads (by omega)) (by omega)
  unfold nextComponent
  dsimp only
  split
  · exact ⟨⟨Nat.le_succ _, looked⟩, Nat.le_add_right _ _⟩
  · exact ⟨⟨Nat.le_succ _, looked⟩, Nat.le_add_right _ _⟩

theorem parsePath_onward : Onward input s (s.parsePath input) := by
  intro inside
  unfold parsePath
  split
  · exact lastComponent_onward inside
  · rename_i going
    have looked (bound : s.pos ≤ input.stop) : ∀ i ∈ (s.look s.pos 1).reads, i < input.stop :=
      look_inside (inside.reads bound) (by omega)
    have inside' : (s.look s.pos 1).Inside input := ⟨inside.begun, looked⟩
    dsimp only
    split
    · exact lastComponent_onward inside'
    · split
      · exact nextComponent_onward inside'
      · exact ⟨⟨Nat.le_succ_of_le inside.begun, fun bound => looked (Nat.le_of_succ_le bound)⟩, Nat.le_succ _⟩

theorem parseToNewline_onward : Onward input s (s.parseToNewline input) := by
  rintro ⟨begun, reads⟩
  unfold parseToNewline
  split
  · exact ⟨⟨begun, reads⟩, Nat.le_refl _⟩
  · have looked (bound : s.pos + 1 ≤ input.stop) : ∀ i ∈ (s.look s.pos 1).reads, i < input.stop :=
      look_inside (reads (Nat.le_of_succ_le bound)) bound
    dsimp only
    split
    · exact ⟨⟨Nat.le_refl _, looked⟩, Nat.le_succ _⟩
    · exact ⟨⟨Nat.le_succ_of_le begun, looked⟩, Nat.le_succ _⟩

theorem round_onward (step : parseRound input s = .next t) : Onward input s t := by
  unfold parseRound at step
  split at step
  · cases step
    exact parseMode_onward
  · cases step
    exact parsePathSlash_onward
  · cases step
    exact parsePath_onward
  · cases step
    exact parseToNewline_onward
  · cases step
  · cases step

theorem comes_onward (comes : Comes (parseRound input) s t) : Onward input s t := by
  intro inside
  obtain ⟨n, reached⟩ := comes
  refine reached.invariant (I := fun _ t => t.Inside input ∧ s.pos ≤ t.pos) ⟨inside, Nat.le_refl _⟩ fun n t u _ step before => ?_
  obtain ⟨inside', further⟩ := round_onward step before.1
  exact ⟨inside', before.2.trans further⟩

theorem init_inside : init.Inside input := ⟨Nat.le_refl _, fun _ i member => by cases member⟩

end

/-! ### Where a run comes -/

/-- `parse` comes to a position; the text of a line begins there in `parse_mode`. -/
def Arrives (input : Input) (state : ParserState) (pos : Nat) : Prop :=
  ∃ d f strStart calls reads, Comes (parseRound input) init ⟨state, d, f, pos, strStart, calls, reads⟩ ∧ (state = .parseMode → strStart = pos)

/-- `parse` ends, and not behind the text. -/
def Ends (input : Input) : Prop := ∃ t, Comes (parseRound input) init t ∧ parseRound input t = .exit t ∧ t.pos ≤ input.stop

section
variable {input : Input} {s t : Parser} {bytes name rest : List Byte} {c : Byte} {p q : Nat} {calls : List Call}

theorem arrives_start : Arrives input .parseMode 0 := ⟨otherFdStart, otherFdStart + 1, 0, [], [], Comes.refl _, fun _ => rfl⟩

namespace Arrives

theorem onto (here : Arrives input .parseMode p) (has : input.Has p lineWord) : Arrives input .parsePathSlash (p + 6) := by
  obtain ⟨d, f, strStart, before, reads, comes, begins⟩ := here
  obtain rfl := begins rfl
  obtain ⟨reads', through⟩ := @leads_spawn input before strStart d f has reads
  exact ⟨_, _, _, _, _, comes.trans through.comes, fun mode => absurd mode (by decide)⟩

theorem path (here : Arrives input .parsePathSlash p) (has : input.Has p [slash]) : Arrives input .parsePath (p + 1) := by
  obtain ⟨d, f, strStart, before, reads, comes, -⟩ := here
  have step : parseRound input ⟨.parsePathSlash, d, f, p, strStart, before, reads⟩ =
      .next ⟨.parsePath, rootFd, f, p + 1, p + 1, before, reads ++ List.range' p 1⟩ := by
    simp [parseRound, parsePathSlash, look, Nat.ne_of_lt has.1, has.2.1]
  exact ⟨_, _, _, _, _, comes.trans (Comes.step step), fun mode => absurd mode (by decide)⟩

/-- Without a `/` behind the colon the line is left out, one byte of it unseen. -/
theorem noPath (here : Arrives input .parsePathSlash p) (no : p = input.stop ∨ input.byte p ≠ slash) :
    Arrives input .parseToNewline (p + 1) := by
  obtain ⟨d, f, strStart, before, reads, comes, -⟩ := here
  have step : ∃ reads', parseRound input ⟨.parsePathSlash, d, f, p, strStart, before, reads⟩ =
      .next ⟨.parseToNewline, d, f, p + 1, strStart, before, reads'⟩ := by
    by_cases ends : p = input.stop
    · exact ⟨reads, congrArg Turn.next (if_pos ends)⟩
    · have other := no.resolve_left ends
      exact ⟨_, congrArg Turn.next ((if_neg ends).trans (if_pos other))⟩
  obtain ⟨reads', step⟩ := step
  exact ⟨_, _, _, _, _, comes.trans (Comes.step step), fun mode => absurd mode (by decide)⟩

theorem opened (here : Arrives input .parsePath q) (has : input.Has q (name ++ [slash])) (plain : ∀ c ∈ name, Passed .parsePath c)
    (yes : input.opens (q + name.length) = true) : Arrives input .parsePath (q + name.length + 2) := by
  obtain ⟨d, f, strStart, before, reads, comes, -⟩ := here
  obtain ⟨reads', through⟩ := @leads_component input name before before strStart q d f has plain reads
  simp only [nextComponent, yes] at through
  exact ⟨_, _, _, _, _, comes.trans through.comes, fun mode => absurd mode (by decide)⟩

theorem failed (here : Arrives input .parsePath q) (has : input.Has q (name ++ [slash])) (plain : ∀ c ∈ name, Passed .parsePath c)
    (no : input.opens (q + name.length) = false) : Arrives input .parseToNewline (q + name.length + 2) := by
  obtain ⟨d, f, strStart, before, reads, comes, -⟩ := here
  obtain ⟨reads', through⟩ := @leads_component input name before before strStart q d f has plain reads
  simp only [nextComponent, no] at through
  exact ⟨_, _, _, _, _, comes.trans through.comes, fun mode => absurd mode (by decide)⟩

theorem dirs (here : Arrives input .parsePath p) (dirs : Dirs input p q) : Arrives input .parsePath q := by
  induction dirs with
  | here => exact here
  | opened before has plain yes ih =>
    rw [List.append_cons] at has
    exact ih.opened (Input.has_append.mp has).1 plain yes

theorem file (here : Arrives input .parsePath q) (has : input.Has q (name ++ [newline])) (plain : ∀ c ∈ name, Passed .parsePath c) :
    Arrives input .parseMode (q + name.length + 1) := by
  obtain ⟨d, f, strStart, before, reads, comes, -⟩ := here
  obtain ⟨reads', through⟩ := @leads_file input name before before strStart q d f has plain reads
  exact ⟨_, _, _, _, _, comes.trans through.comes, fun _ => rfl⟩

/-- A name that the text stops in is the end of a path too, with a step behind the text. -/
theorem fileEnd (here : Arrives input .parsePath q) (has : input.Has q name) (plain : ∀ c ∈ name, Passed .parsePath c)
    (ends : q + name.length = input.stop) : Arrives input .parseMode (input.stop + 1) := by
  obtain ⟨d, f, strStart, before, reads, comes, -⟩ := here
  obtain ⟨reads', through⟩ := @leads_past input ⟨.parsePath, d, f, q, strStart, before, []⟩ name before has plain (idle_away nofun) reads
  dsimp only at through
  rw [ends] at through
  have step : parseRound input ⟨.parsePath, d, f, input.stop, strStart, before, reads'⟩ =
      .next (lastComponent input ⟨.parsePath, d, f, input.stop, strStart, before, reads'⟩) := congrArg Turn.next (if_pos rfl)
  exact ⟨_, _, _, _, _, (comes.trans through.comes).trans (Comes.step step), fun _ => rfl⟩

theorem nextLine (here : Arrives input .parseToNewline q) (has : input.Has q (rest ++ [newline])) (free : ∀ c ∈ rest, c ≠ newline) :
    Arrives input .parseMode (q + rest.length + 1) := by
  obtain ⟨d, f, strStart, before, reads, comes, -⟩ := here
  obtain ⟨reads', through⟩ := @leads_newline input rest before before strStart q d f has free reads
  exact ⟨_, _, _, _, _, comes.trans through.comes, fun _ => rfl⟩

theorem line (here : Arrives input .parseMode p) (line : LineTo input p q) : Arrives input .parseMode q := by
  have word {c} (has : input.Has p (lineWord ++ [c])) := Input.has_append.mp has
  cases line with
  | file begin_ dirs has plain =>
    have path := (here.onto (word begin_).1).path (word begin_).2
    exact (path.dirs dirs).file has plain
  | failed begin_ dirs has plain no behind free =>
    have path := (here.onto (word begin_).1).path (word begin_).2
    rw [List.append_cons] at has
    exact ((path.dirs dirs).failed (Input.has_append.mp has).1 plain no).nextLine behind free
  | other begin_ noPath behind free =>
    have none := (here.onto (word begin_).1).noPath (.inr ((word begin_).2.2.1.trans_ne noPath))
    exact none.nextLine behind free

theorem lines (lines : Lines input p) : Arrives input .parseMode p := by
  induction lines with
  | start => exact arrives_start
  | next before line ih => exact ih.line line

end Arrives

/-! ### Behind the end -/

theorem mem_look (s : Parser) : s.pos ∈ (s.look s.pos 1).reads := List.mem_append_right _ (List.mem_range'_1.mpr ⟨Nat.le_refl _, Nat.lt_succ_self _⟩)

theorem parseMode_reads (going : s.pos ≠ input.stop) : s.pos ∈ (s.parseMode input).reads := by
  have here := mem_look s
  unfold parseMode
  rw [if_neg going]
  dsimp only
  split
  · split
    · exact here
    · split
      · exact List.mem_append_left _ here
      · exact List.mem_append_left _ here
  · exact here

theorem parseToNewline_reads (going : s.pos ≠ input.stop) : s.pos ∈ (s.parseToNewline input).reads := by
  have here := mem_look s
  unfold parseToNewline
  rw [if_neg going]
  dsimp only
  split
  · exact here
  · exact here

theorem nextComponent_reads_mem (old : p ∈ s.reads) : p ∈ (s.nextComponent input).reads := by
  unfold nextComponent
  dsimp only
  split
  · exact List.mem_append_left _ old
  · exact List.mem_append_left _ old

theorem parsePath_reads (going : s.pos ≠ input.stop) : s.pos ∈ (s.parsePath input).reads := by
  have here := mem_look s
  unfold parsePath
  rw [if_neg going]
  dsimp only
  split
  · exact List.mem_append_left _ here
  · split
    · exact nextComponent_reads_mem here
    · exact here

/-- What is behind the text is read at once. -/
theorem Arrives.reads_behind {state : ParserState} (here : Arrives input state (input.stop + 1))
    (reading : state = .parseMode ∨ state = .parseToNewline ∨ state = .parsePath) :
    ∃ t, Comes (parseRound input) init t ∧ input.stop + 1 ∈ t.reads := by
  obtain ⟨d, f, strStart, before, reads, comes, -⟩ := here
  have past : input.stop + 1 ≠ input.stop := by omega
  rcases reading with rfl | rfl | rfl
  · exact ⟨_, comes.trans (Comes.step rfl), parseMode_reads past⟩
  · exact ⟨_, comes.trans (Comes.step rfl), parseToNewline_reads past⟩
  · exact ⟨_, comes.trans (Comes.step rfl), parsePath_reads past⟩

theorem not_inside_of_overruns (overruns : Overruns input) : ¬ StaysInside input := by
  rintro ⟨-, inside⟩
  obtain ⟨p, lines, unfinished⟩ := overruns
  have here := Arrives.lines lines
  obtain ⟨t, comes, behind⟩ : ∃ t, Comes (parseRound input) init t ∧ input.stop + 1 ∈ t.reads := by
    cases unfinished with
    | colon word ends =>
      have none := (here.onto word).noPath (.inl ends)
      rw [ends] at none
      exact none.reads_behind (.inr (.inl rfl))
    | name word dirs has plain ends =>
      obtain ⟨begin_, slash⟩ := Input.has_append.mp word
      exact ((((here.onto begin_).path slash).dirs dirs).fileEnd has plain ends).reads_behind (.inl rfl)
    | @slash q name word dirs has plain ends =>
      obtain ⟨begin_, slash⟩ := Input.has_append.mp word
      have path := ((here.onto begin_).path slash).dirs dirs
      have ends' : q + name.length + 2 = input.stop + 1 := by omega
      cases answer : input.opens (q + name.length) with
      | true =>
        have next := path.opened has plain answer
        rw [ends'] at next
        exact next.reads_behind (.inr (.inr rfl))
      | false =>
        have rest := path.failed has plain answer
        rw [ends'] at rest
        exact rest.reads_behind (.inr (.inl rfl))
  have := inside t comes _ behind
  omega

/-! ### Every other text -/

/-- The first byte of a kind, or none up to the end of the text. -/
theorem Input.find (kind : Byte → Prop) [DecidablePred kind] (le : p ≤ input.stop) :
    ∃ bytes, (∀ c ∈ bytes, ¬ kind c) ∧ (input.Has p bytes ∧ p + bytes.length = input.stop ∨ ∃ c, kind c ∧ input.Has p (bytes ++ [c])) := by
  induction left : input.stop - p generalizing p with
  | zero => exact ⟨[], by simp, .inl ⟨le, by rw [List.length_nil]; omega⟩⟩
  | succ rest ih =>
    have inside : p < input.stop := by omega
    by_cases here : kind (input.byte p)
    · exact ⟨[], by simp, .inr ⟨input.byte p, here, inside, rfl, inside⟩⟩
    · obtain ⟨bytes, free, found⟩ := @ih (p + 1) inside (by omega)
      refine ⟨input.byte p :: bytes, ?_, ?_⟩
      · intro c member
        rcases List.mem_cons.mp member with rfl | later
        · exact here
        · exact free c later
      · rcases found with ⟨has, ends⟩ | ⟨c, found, has⟩
        · exact .inl ⟨⟨inside, rfl, has⟩, by rw [List.length_cons]; omega⟩
        · exact .inr ⟨c, found, inside, rfl, has⟩

/-- The rest of a line has its newline, or `parse` ends with the text. -/
theorem Arrives.rest_cases (here : Arrives input .parseToNewline p) (le : p ≤ input.stop) :
    Ends input ∨ ∃ rest, input.Has p (rest ++ [newline]) ∧ ∀ c ∈ rest, c ≠ newline := by
  obtain ⟨rest, free, ⟨has, ends⟩ | ⟨c, rfl, has⟩⟩ := input.find (· = newline) le
  · left
    obtain ⟨d, f, strStart, before, reads, comes, -⟩ := here
    obtain ⟨reads', through⟩ := @leads_past input ⟨.parseToNewline, d, f, p, strStart, before, []⟩ rest before has free (idle_away nofun) reads
    have step : parseRound input ⟨.parseToNewline, d, f, p + rest.length, strStart, before, reads'⟩ =
        .next ⟨.parseError, d, f, p + rest.length, strStart, before, reads'⟩ := congrArg Turn.next (if_pos ends)
    exact ⟨_, (comes.trans through.comes).trans (Comes.step step), rfl, ends.le⟩
  · exact .inr ⟨rest, has, free⟩

theorem Dirs.le (dirs : Dirs input p q) : p ≤ q := by
  induction dirs with
  | here => exact Nat.le_refl p
  | opened _ _ _ _ ih => exact Nat.le_add_right_of_le (Nat.le_add_right_of_le ih)

theorem LineTo.bounds (line : LineTo input p q) : p < q ∧ q ≤ input.stop := by
  cases line with
  | file word dirs has plain =>
    have begun := dirs.le
    have inside := has.le
    rw [List.length_append, List.length_singleton] at inside
    omega
  | failed word dirs has plain no behind free =>
    have begun := dirs.le
    have inside := behind.le
    rw [List.length_append, List.length_singleton] at inside
    omega
  | other word noPath behind free =>
    have inside := behind.le
    rw [List.length_append, List.length_singleton] at inside
    omega

instance : DecidablePred fun c : Byte => c = newline ∨ c = slash := fun _ => inferInstanceAs (Decidable (_ ∨ _))

theorem Arrives.path_cases (fine : ¬ Unfinished input p) (word : input.Has p (lineWord ++ [slash])) (dirs : Dirs input (p + 7) q)
    (path : Arrives input .parsePath q) (le : q ≤ input.stop) : Ends input ∨ ∃ r, LineTo input p r := by
  induction left : input.stop - q using Nat.strong_induction_on generalizing q with
  | _ n ih =>
    obtain ⟨name, free, ⟨has, ends⟩ | ⟨c, found, has⟩⟩ := input.find (fun c => c = newline ∨ c = slash) le
    · exact absurd (.name word dirs has (fun c member => not_or.mp (free c member)) ends) fine
    · have plain : ∀ c ∈ name, Passed .parsePath c := fun c member => not_or.mp (free c member)
      rcases found with rfl | rfl
      · exact .inr ⟨_, .file word dirs has plain⟩
      · have inside := has.le
        rw [List.length_append, List.length_singleton] at inside
        rcases Nat.lt_or_eq_of_le inside with more | ends
        · have behind : input.Has q (name ++ [slash, input.byte (q + name.length + 1)]) := by
            rw [List.append_cons]
            exact Input.has_append.mpr ⟨has, by simpa [Nat.add_assoc] using ⟨more, rfl, more⟩⟩
          have le' : q + name.length + 2 ≤ input.stop := more
          cases answer : input.opens (q + name.length) with
          | true =>
            have shorter : input.stop - (q + name.length + 2) < n := by omega
            exact ih _ shorter (.opened dirs behind plain answer) (path.opened has plain answer) le' rfl
          | false =>
            apply (path.failed has plain answer).rest_cases le' |>.imp_right
            rintro ⟨rest, after, free'⟩
            exact ⟨_, .failed word dirs behind plain answer after free'⟩
        · exact absurd (.slash word dirs has plain ends) fine

theorem ends_of_round (comes : Comes (parseRound input) init s) (step : parseRound input s = .next t)
    (last : t.parserState = .parseEnd ∨ t.parserState = .parseError) (short : t.pos ≤ input.stop) : Ends input := by
  refine ⟨t, comes.trans (Comes.step step), ?_, short⟩
  unfold parseRound
  rcases last with same | same
  · rw [same]
  · rw [same]

/-- A colon behind another word is an error. -/
theorem parseMode_wrong {d f strStart : Nat} {before : List Call} {reads : List Nat} {word : List Byte}
    (has : input.Has strStart (word ++ [colon])) (wrong : word ≠ spawnStr) :
    ∃ reads', parseRound input ⟨.parseMode, d, f, strStart + word.length, strStart, before, reads⟩ =
      .next ⟨.parseError, d, f, strStart + word.length, strStart, before, reads'⟩ := by
  obtain ⟨has, inside, here, -⟩ := Input.has_append.mp has
  by_cases length : word.length = spawnStr.length
  · have same := has.bytesAt
    rw [length] at same inside here ⊢
    refine ⟨reads ++ List.range' (strStart + spawnStr.length) 1 ++ List.range' strStart spawnStr.length, ?_⟩
    simp [parseRound, parseMode, look, Nat.ne_of_lt inside, here, same, wrong]
  · refine ⟨reads ++ List.range' (strStart + word.length) 1, ?_⟩
    simp [parseRound, parseMode, look, Nat.ne_of_lt inside, here, length]

/-- A line begins with the word, or `parse` ends in it. -/
theorem Arrives.word_cases (here : Arrives input .parseMode p) (le : p ≤ input.stop) : Ends input ∨ input.Has p lineWord := by
  obtain ⟨d, f, strStart, before, reads, comes, begins⟩ := here
  obtain rfl := begins rfl
  obtain ⟨word, free, found⟩ := input.find (· = colon) le
  have has : input.Has strStart word := by
    rcases found with ⟨has, -⟩ | ⟨c, -, has⟩
    · exact has
    · exact (Input.has_append.mp has).1
  obtain ⟨reads', through⟩ := @leads_past input ⟨.parseMode, d, f, strStart, strStart, before, []⟩ word before has free (fun _ => rfl) reads
  have there := comes.trans through.comes
  dsimp only at there
  rcases found with ⟨-, ends⟩ | ⟨c, rfl, has'⟩
  · left
    refine ends_of_round there (congrArg Turn.next (if_pos ends)) ?_ ends.le
    dsimp only
    split
    · exact .inl rfl
    · exact .inr rfl
  · by_cases spawn : word = spawnStr
    · rw [spawn] at has'
      exact .inr has'
    · left
      obtain ⟨reads'', step⟩ := parseMode_wrong has' spawn
      exact ends_of_round there step (.inr rfl) has.le

theorem Arrives.line_cases (fine : ¬ Unfinished input p) (here : Arrives input .parseMode p) (le : p ≤ input.stop) :
    Ends input ∨ ∃ q, LineTo input p q := by
  rcases here.word_cases le with ends | word
  · exact .inl ends
  · have inside : p + 6 ≤ input.stop := word.le
    rcases Nat.lt_or_eq_of_le inside with more | ends
    · have behind : input.Has p (lineWord ++ [input.byte (p + 6)]) := Input.has_append.mpr ⟨word, more, rfl, more⟩
      by_cases path : input.byte (p + 6) = slash
      · rw [path] at behind
        exact ((here.onto word).path (Input.has_append.mp behind).2).path_cases fine behind .here more
      · apply ((here.onto word).noPath (.inr path)).rest_cases more |>.imp_right
        rintro ⟨rest, after, free⟩
        exact ⟨_, .other behind path after free⟩
    · exact absurd (.colon word ends) fine

theorem ends_of_not_overruns (fine : ¬ Overruns input) (lines : Lines input p) (le : p ≤ input.stop) : Ends input := by
  induction left : input.stop - p using Nat.strong_induction_on generalizing p with
  | _ n ih =>
    rcases (Arrives.lines lines).line_cases (fun unfinished => fine ⟨p, lines, unfinished⟩) le with ends | ⟨q, line⟩
    · exact ends
    · have further := line.bounds
      exact ih _ (by omega) (lines.next line) further.2 rfl

/-- The text is left exactly where it stops in a line. -/
theorem parse_inside_iff (input : Input) : StaysInside input ↔ ¬ Overruns input := by
  constructor
  · exact fun inside overruns => not_inside_of_overruns overruns inside
  · intro fine
    obtain ⟨t, comes, exits, short⟩ := ends_of_not_overruns fine .start (Nat.zero_le _)
    refine ⟨⟨t, comes, exits⟩, fun u between => ?_⟩
    have inside := (comes_onward between init_inside).1
    obtain ⟨n, reached⟩ := comes
    obtain ⟨k, there⟩ := between
    obtain ⟨j, rfl⟩ := Nat.exists_eq_add_of_le (reached.le_of_exit exits there)
    have later : u.pos ≤ t.pos := (comes_onward ⟨j, Reaches.drop reached there⟩ inside).2
    exact inside.reads (later.trans short)

end

/-- `spawn:/a` without a newline. -/
def unfinishedLine : Input := .of (lineWord ++ [slash] ++ [0x61#8]) (fun _ => true) fun _ => true

theorem unfinished_reads_behind : unfinishedLine.text = lineWord ++ [slash] ++ [0x61#8] ∧ ¬ StaysInside unfinishedLine := by
  have text : unfinishedLine.text = lineWord ++ [slash] ++ [0x61#8] := Input.text_of _ _ _
  have has := unfinishedLine.has_text
  rw [text] at has
  obtain ⟨word, name⟩ := Input.has_append.mp has
  refine ⟨text, not_inside_of_overruns ⟨0, .start, .name word .here name ?_ rfl⟩⟩
  intro c member
  rw [List.mem_singleton.mp member]
  exact ⟨by decide, by decide⟩

end BradypOS.Root.Inittab
