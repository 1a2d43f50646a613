import BradypOS.Terminal.Pl011
import BradypOS.Theory.Transducer

/-!
# The shell's input (`usr/bsh/bsh.c`)

`readline` takes the bytes of one reply of the terminal server into `line_buffer` and returns when a line
is complete; the loop of `main` calls it until then, writes the line and begins at 0 again. What a reply
has behind the end of a line is lost with it.
-/

namespace BradypOS.Bsh

open L4
open Terminal (newline termReadRet)
open Theory (transduce)

/-! ### The program -/

def shellLineMax : Nat := 128

def LineEnd (c : Byte) : Prop := c = 0x0D#8 ∨ c = 0x0A#8
def Backspace (c : Byte) : Prop := c = 0x7F#8 ∨ c = 0x08#8

instance : DecidablePred LineEnd := fun _ => inferInstanceAs (Decidable (_ ∨ _))
instance : DecidablePred Backspace := fun _ => inferInstanceAs (Decidable (_ ∨ _))

def termReadRetStr : Nat := 1

/-- What the shell has after its call of the terminal server. -/
structure Reply where
  utcb : Utcb
  byte : Word → Byte

/-- The string item of an answer. -/
def Reply.string (answer : Reply) : List Byte :=
  stringAt answer.byte (answer.utcb.mr (termReadRetStr + 1)) (Item.length (answer.utcb.mr termReadRetStr))

/-- `line_buffer` and `line_pos`, and the places at which the buffer was indexed. -/
structure Shell where
  lineBuffer : Nat → Byte
  linePos : Nat
  indexed : List Nat

namespace Shell

def init (lineBuffer : Nat → Byte) : Shell := ⟨lineBuffer, 0, []⟩

/-- `line_buffer[i] = c`. -/
def store (s : Shell) (i : Nat) (c : Byte) : Shell :=
  { s with lineBuffer := Function.update s.lineBuffer i c, indexed := s.indexed ++ [i] }

/-- The loop of `readline` over the received bytes; the result says whether a line is complete. -/
def readlineLoop (s : Shell) : List Byte → Bool × Shell
  | [] => (false, s)
  | c :: buf =>
    if LineEnd c then
      if s.linePos < shellLineMax - 2 then
        (true, { (s.store s.linePos newline).store (s.linePos + 1) 0#8 with linePos := s.linePos + 1 })
      else readlineLoop s buf
    else if Backspace c then
      if 0 < s.linePos then readlineLoop { s with linePos := s.linePos - 1 } buf else readlineLoop s buf
    else if s.linePos < shellLineMax - 3 then readlineLoop { s.store s.linePos c with linePos := s.linePos + 1 } buf
    else readlineLoop s buf

def readline (s : Shell) (answer : Reply) : Bool × Shell :=
  let answerTag := answer.utcb.mr 0
  if ipcFailed answerTag || MsgTag.label answerTag != termReadRet then (false, s) else s.readlineLoop answer.string

/-- A complete line is put out by `term_write`. -/
def putOut : Bool × Shell → List (List Byte) × Shell
  | (true, s) => ([(List.range s.linePos).map s.lineBuffer], { s with linePos := 0, indexed := s.indexed ++ List.range s.linePos })
  | (false, s) => ([], s)

/-- One call of `readline` by `main`. -/
def mainStep (s : Shell) (reply : Reply) : List (List Byte) × Shell := putOut (s.readline reply)

end Shell

/-! ### The lines of a stream -/

/-- A byte of a line: a backspace takes the last one away, and a line of 125 bytes takes no more. -/
def edit (line : List Byte) (c : Byte) : List Byte :=
  if Backspace c then line.dropLast else if line.length < shellLineMax - 3 then line ++ [c] else line

def edited (line bytes : List Byte) : List Byte := bytes.foldl edit line

def lineStep (line : List Byte) (c : Byte) : List (List Byte) × List Byte :=
  if LineEnd c then ([line ++ [newline]], []) else ([], edit line c)

/-- The bytes that a reply brings. -/
def Reply.bytes (answer : Reply) : List Byte :=
  if ipcFailed (answer.utcb.mr 0) || MsgTag.label (answer.utcb.mr 0) != termReadRet then [] else answer.string

def streamLines (stream : List Byte) : List (List Byte) := (transduce lineStep [] stream).1

/-- What a call of `readline` does to the line. -/
def replyStep (line : List Byte) : List Byte → List (List Byte) × List Byte
  | [] => ([], line)
  | c :: reply => if LineEnd c then ([line ++ [newline]], []) else replyStep (edit line c) reply

/-! ### The buffer holds the line -/

namespace Shell

structure Holds (s : Shell) (line : List Byte) : Prop where
  line : (List.range s.linePos).map s.lineBuffer = line
  short : s.linePos ≤ shellLineMax - 3
  inside : ∀ i ∈ s.indexed, i < shellLineMax

variable {s : Shell} {line : List Byte}

theorem Holds.length (h : s.Holds line) : line.length = s.linePos := by rw [← h.line, List.length_map, List.length_range]

theorem init_holds (lineBuffer : Nat → Byte) : (init lineBuffer).Holds [] := ⟨rfl, Nat.zero_le _, by simp [init]⟩

theorem store_next (s : Shell) (c : Byte) :
    (List.range (s.linePos + 1)).map (s.store s.linePos c).lineBuffer = (List.range s.linePos).map s.lineBuffer ++ [c] := by
  have before : (List.range s.linePos).map (s.store s.linePos c).lineBuffer = (List.range s.linePos).map s.lineBuffer := by
    apply List.map_congr_left
    intro i early
    exact Function.update_of_ne (Nat.ne_of_lt (List.mem_range.mp early)) _ _
  have here : (s.store s.linePos c).lineBuffer s.linePos = c := Function.update_self _ _ _
  rw [List.range_succ, List.map_append, before, List.map_singleton, here]

theorem Holds.stored (h : s.Holds line) {i : Nat} (c : Byte) (room : i < shellLineMax) : ∀ j ∈ (s.store i c).indexed, j < shellLineMax := by
  intro j member
  rcases List.mem_append.mp member with before | new
  · exact h.inside j before
  · rw [List.mem_singleton.mp new]
    exact room

theorem Holds.backspace (h : s.Holds line) : Holds { s with linePos := s.linePos - 1 } line.dropLast := by
  refine ⟨?_, Nat.le_trans (Nat.sub_le _ _) h.short, h.inside⟩
  rw [← h.line, ← List.map_dropLast]
  congr 1
  cases s.linePos with
  | zero => rfl
  | succ n => rw [List.range_succ, List.dropLast_concat, Nat.add_sub_cancel]

theorem Holds.type (h : s.Holds line) (c : Byte) (room : s.linePos < shellLineMax - 3) :
    Holds { s.store s.linePos c with linePos := s.linePos + 1 } (line ++ [c]) := by
  refine ⟨?_, room, h.stored c (Nat.lt_of_lt_of_le room (Nat.sub_le _ _))⟩
  rw [← h.line]
  exact store_next s c

theorem Holds.complete (h : s.Holds line) :
    putOut (true, { (s.store s.linePos newline).store (s.linePos + 1) 0#8 with linePos := s.linePos + 1 }) =
      ([line ++ [newline]], ⟨Function.update (Function.update s.lineBuffer s.linePos newline) (s.linePos + 1) 0#8, 0,
        s.indexed ++ [s.linePos] ++ [s.linePos + 1] ++ List.range (s.linePos + 1)⟩) := by
  have text : (List.range (s.linePos + 1)).map ((s.store s.linePos newline).store (s.linePos + 1) 0#8).lineBuffer = line ++ [newline] := by
    rw [← h.line, ← store_next]
    apply List.map_congr_left
    intro i early
    exact Function.update_of_ne (Nat.ne_of_lt (List.mem_range.mp early)) _ _
  rw [putOut]
  dsimp only
  rw [text]
  rfl

/-- A call of `readline` edits the line, up to the first line end. -/
theorem readlineLoop_simulates (h : s.Holds line) (reply : List Byte) :
    (putOut (s.readlineLoop reply)).1 = (replyStep line reply).1 ∧ (putOut (s.readlineLoop reply)).2.Holds (replyStep line reply).2 := by
  induction reply generalizing s line with
  | nil => exact ⟨rfl, h⟩
  | cons c reply ih =>
    have length := h.length
    have short := h.short
    unfold readlineLoop replyStep
    by_cases ends : LineEnd c
    · have room : s.linePos < shellLineMax - 2 := Nat.lt_of_le_of_lt h.short (by decide)
      rw [if_pos ends, if_pos ends, if_pos room, h.complete]
      refine ⟨rfl, rfl, Nat.zero_le _, ?_⟩
      intro i member
      have bound : s.linePos + 1 < shellLineMax := by omega
      simp only [List.mem_append, List.mem_singleton, List.mem_range] at member
      rcases member with ((before | rfl) | rfl) | early
      · exact h.inside i before
      · omega
      · exact bound
      · omega
    · rw [if_neg ends, if_neg ends]
      unfold edit
      by_cases back : Backspace c
      · rw [if_pos back, if_pos back]
        split
        · exact ih h.backspace
        · have empty : line = [] := List.eq_nil_of_length_eq_zero (by omega)
          subst empty
          exact ih h
      · rw [if_neg back, if_neg back, length]
        split
        · rename_i room
          exact ih (h.type c room)
        · exact ih h

theorem mainStep_simulates (h : s.Holds line) (reply : Reply) :
    (s.mainStep reply).1 = (replyStep line reply.bytes).1 ∧ (s.mainStep reply).2.Holds (replyStep line reply.bytes).2 := by
  unfold mainStep readline Reply.bytes
  dsimp only
  split
  · exact ⟨rfl, h⟩
  · exact readlineLoop_simulates h _

end Shell

/-! ### How the stream is cut -/

/-- What a reply has behind its first line end. -/
def behind (reply : List Byte) : List Byte := (reply.dropWhile fun c => ¬ LineEnd c).tail

/-- A stream up to its first line end. -/
def upToEnd (stream : List Byte) : List Byte := stream.takeWhile fun c => ¬ LineEnd c

/-- Two beginnings of a line make the same of it, if the stream has an end for it. -/
def SameLine (line line' stream : List Byte) : Prop :=
  (∃ c ∈ stream, LineEnd c) → edited line (upToEnd stream) = edited line' (upToEnd stream)

/-- Behind the first line end of a reply there is no other one, and what is there makes no difference to the next line. -/
def Undisturbed : List (List Byte) → Prop
  | [] => True
  | reply :: replies => (∀ c ∈ behind reply, ¬ LineEnd c) ∧ SameLine (edited [] (behind reply)) [] replies.flatten ∧ Undisturbed replies

section
variable {line line' text rest stream : List Byte} {c : Byte} {replies : List (List Byte)}

theorem edited_append (line text rest : List Byte) : edited line (text ++ rest) = edited (edited line text) rest := List.foldl_append

/-- A list of bytes has no line end, or it has a first one. -/
theorem first_lineEnd (bytes : List Byte) : (∀ c ∈ bytes, ¬ LineEnd c) ∨
    ∃ text c rest, bytes = text ++ c :: rest ∧ (∀ c ∈ text, ¬ LineEnd c) ∧ LineEnd c := by
  induction bytes with
  | nil => exact .inl (by simp)
  | cons c bytes ih =>
    by_cases ends : LineEnd c
    · exact .inr ⟨[], c, bytes, rfl, by simp, ends⟩
    · rcases ih with quiet | ⟨text, d, rest, rfl, quiet, last⟩
      · exact .inl (List.forall_mem_cons.mpr ⟨ends, quiet⟩)
      · exact .inr ⟨c :: text, d, rest, rfl, List.forall_mem_cons.mpr ⟨ends, quiet⟩, last⟩

theorem lineStep_quiet (quiet : ∀ c ∈ text, ¬ LineEnd c) : transduce lineStep line text = ([], edited line text) := by
  induction text generalizing line with
  | nil => rfl
  | cons c text ih =>
    obtain ⟨other, quiet⟩ := List.forall_mem_cons.mp quiet
    rw [transduce, lineStep, if_neg other, ih quiet]
    rfl

theorem replyStep_quiet (quiet : ∀ c ∈ text, ¬ LineEnd c) : replyStep line text = ([], edited line text) := by
  induction text generalizing line with
  | nil => rfl
  | cons c text ih =>
    obtain ⟨other, quiet⟩ := List.forall_mem_cons.mp quiet
    rw [replyStep, if_neg other, ih quiet]
    rfl

theorem lineStep_line (quiet : ∀ c ∈ text, ¬ LineEnd c) (ends : LineEnd c) (rest : List Byte) :
    (transduce lineStep line (text ++ c :: rest)).1 = (edited line text ++ [newline]) :: streamLines rest := by
  rw [Theory.transduce_append, lineStep_quiet quiet, transduce, lineStep, if_pos ends]
  rfl

theorem replyStep_line (quiet : ∀ c ∈ text, ¬ LineEnd c) (ends : LineEnd c) (rest : List Byte) :
    replyStep line (text ++ c :: rest) = ([edited line text ++ [newline]], []) := by
  induction text generalizing line with
  | nil => exact if_pos ends
  | cons d text ih =>
    obtain ⟨other, quiet⟩ := List.forall_mem_cons.mp quiet
    rw [List.cons_append, replyStep, if_neg other, ih quiet]
    rfl

theorem behind_quiet (quiet : ∀ c ∈ text, ¬ LineEnd c) : behind text = [] := by
  induction text with
  | nil => rfl
  | cons c text ih =>
    obtain ⟨other, quiet⟩ := List.forall_mem_cons.mp quiet
    rw [behind, List.dropWhile_cons_of_pos (by simpa using other)]
    exact ih quiet

theorem behind_line (quiet : ∀ c ∈ text, ¬ LineEnd c) (ends : LineEnd c) (rest : List Byte) : behind (text ++ c :: rest) = rest := by
  rw [behind, List.dropWhile_append_of_pos (by simpa using quiet), List.dropWhile_cons_of_neg (by simpa using ends)]
  rfl

theorem upToEnd_line (quiet : ∀ c ∈ text, ¬ LineEnd c) (ends : LineEnd c) (rest : List Byte) : upToEnd (text ++ c :: rest) = text := by
  rw [upToEnd, List.takeWhile_append_of_pos (by simpa using quiet), List.takeWhile_cons_of_neg (by simpa using ends), List.append_nil]

/-- Text without a line end is part of the line. -/
theorem sameLine_quiet (quiet : ∀ c ∈ text, ¬ LineEnd c) :
    SameLine line line' (text ++ stream) ↔ SameLine (edited line text) (edited line' text) stream := by
  have some_ : (∃ c ∈ text ++ stream, LineEnd c) ↔ ∃ c ∈ stream, LineEnd c := by
    constructor
    · rintro ⟨c, member, ends⟩
      rcases List.mem_append.mp member with early | late
      · exact absurd ends (quiet c early)
      · exact ⟨c, late, ends⟩
    · rintro ⟨c, late, ends⟩
      exact ⟨c, List.mem_append_right _ late, ends⟩
  have upTo : upToEnd (text ++ stream) = text ++ upToEnd stream := List.takeWhile_append_of_pos (by simpa using quiet)
  rw [SameLine, SameLine, some_, upTo, edited_append, edited_append]

theorem sameLine_line (quiet : ∀ c ∈ text, ¬ LineEnd c) (ends : LineEnd c) (rest : List Byte) :
    SameLine line line' (text ++ c :: rest) ↔ edited line text = edited line' text := by
  rw [SameLine, upToEnd_line quiet ends]
  exact forall_prop_of_true ⟨c, by simp, ends⟩

/-- The shell puts out no more lines than the replies have line ends. -/
theorem replyStep_length (line : List Byte) (replies : List (List Byte)) :
    (transduce replyStep line replies).1.length ≤ replies.flatten.countP (LineEnd ·) := by
  induction replies generalizing line with
  | nil => exact Nat.le_refl _
  | cons reply replies ih =>
    rw [transduce, List.length_append, List.flatten_cons, List.countP_append]
    apply Nat.add_le_add _ (ih _)
    rcases first_lineEnd reply with quiet | ⟨text, c, rest, rfl, quiet, ends⟩
    · rw [replyStep_quiet quiet]
      exact Nat.zero_le _
    · rw [replyStep_line quiet ends, List.countP_append, List.countP_cons_of_pos (by simpa using ends)]
      exact Nat.le_add_left_of_le (Nat.le_add_left _ _)

theorem lineStep_length (line stream : List Byte) : (transduce lineStep line stream).1.length = stream.countP (LineEnd ·) := by
  induction stream generalizing line with
  | nil => rfl
  | cons c stream ih =>
    rw [transduce, List.length_append, ih, lineStep]
    by_cases ends : LineEnd c
    · rw [if_pos ends, List.countP_cons_of_pos (by simpa using ends), Nat.add_comm]
      rfl
    · rw [if_neg ends, List.countP_cons_of_neg (by simpa using ends), Nat.add_comm]
      rfl

/-- The shell and the stream, from two beginnings of a line. -/
theorem lines_iff (line line' : List Byte) (replies : List (List Byte)) :
    (transduce replyStep line' replies).1 = (transduce lineStep line replies.flatten).1 ↔
      SameLine line line' replies.flatten ∧ Undisturbed replies := by
  induction replies generalizing line line' with
  | nil => simp [transduce, SameLine, Undisturbed]
  | cons reply replies ih =>
    rw [transduce, List.flatten_cons]
    rcases first_lineEnd reply with quiet | ⟨text, c, rest, rfl, quiet, ends⟩
    · have nothing : SameLine (edited [] []) [] replies.flatten := fun _ => rfl
      rw [replyStep_quiet quiet, List.nil_append, Theory.transduce_append, lineStep_quiet quiet, List.nil_append, ih, sameLine_quiet quiet,
        Undisturbed, behind_quiet quiet]
      simp [nothing]
    · have shape : (text ++ c :: rest) ++ replies.flatten = text ++ c :: (rest ++ replies.flatten) := by simp
      rw [replyStep_line quiet ends, shape, lineStep_line quiet ends, sameLine_line quiet ends, Undisturbed, behind_line quiet ends]
      dsimp only
      rw [List.singleton_append, List.cons.injEq, List.append_left_inj]
      rcases first_lineEnd rest with none_ | ⟨more, d, last, rfl, early, again⟩
      · rw [streamLines, Theory.transduce_append, lineStep_quiet none_, List.nil_append, ih, eq_comm (a := edited line' text)]
        exact and_congr_right fun _ => ⟨fun later => ⟨none_, later⟩, And.right⟩
      · have fewer : (transduce replyStep [] replies).1 ≠ streamLines (more ++ d :: last ++ replies.flatten) := by
          intro same
          have count := congrArg List.length same
          have bound := replyStep_length [] replies
          rw [streamLines, lineStep_length, List.countP_append, List.countP_append, List.countP_cons_of_pos (by simpa using again)] at count
          omega
        have disturbed : ¬ ∀ e ∈ more ++ d :: last, ¬ LineEnd e := fun quiet => quiet d (by simp) again
        simp only [fewer, disturbed, and_false, false_and]

end

/-- An answer of the terminal server that brings these bytes. -/
def Reply.carrying (bytes : List Byte) : Reply :=
  ⟨Terminal.readAnswer ⟨0#32, 0#32, 0#32, 0#32, 0#32, fun _ => 0#32⟩ (BitVec.ofNat 32 bytes.length) 0#32, fun w => bytes.getD w.toNat 0#8⟩

/-- The shell puts out the lines of the stream if no reply has anything behind its first line end that a later line would need,
and it indexes its buffer inside the buffer alone. -/
theorem readline_lines (lineBuffer : Nat → Byte) (replies : List Reply) :
    let run := transduce Shell.mainStep (.init lineBuffer) replies
    (run.1 = streamLines (replies.map Reply.bytes).flatten ↔ Undisturbed (replies.map Reply.bytes)) ∧
      ∀ i ∈ run.2.indexed, i < shellLineMax := by
  intro run
  obtain ⟨lines, held⟩ : run.1 = (transduce (fun line reply => replyStep line reply.bytes) [] replies).1 ∧ run.2.Holds _ :=
    Theory.transduce_simulates (R := Shell.Holds) (fun _ _ reply h => Shell.mainStep_simulates h reply) (Shell.init_holds lineBuffer)
      replies
  have same : SameLine [] [] (replies.map Reply.bytes).flatten := fun _ => rfl
  refine ⟨?_, held.inside⟩
  rw [lines, Theory.transduce_map, streamLines, lines_iff [] []]
  exact and_iff_right same

/-- `a` and `b` typed ahead as two lines: a reply that brings both loses the second one. -/
theorem pasted_lines :
    let lines := fun replies => (transduce Shell.mainStep (.init fun _ => 0#8) (replies.map Reply.carrying)).1
    lines [[0x61#8, 0x0A#8, 0x62#8, 0x0A#8]] = [[0x61#8, newline]] ∧
      lines [[0x61#8, 0x0A#8], [0x62#8, 0x0A#8]] = [[0x61#8, newline], [0x62#8, newline]] := by decide

end BradypOS.Bsh
