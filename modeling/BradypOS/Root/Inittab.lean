import BradypOS.Service.Message
import BradypOS.Theory.Loop

/-!
# The inittab (`usr/root/config.c`)

`parse` goes through the text of the inittab with one position and a state; it opens the components of a path one
after another, each from the directory before it, with two descriptors that change places. What the file server
answers to the `open_at` made at a position, and to the `map` behind it, is given.
-/

namespace BradypOS.Root.Inittab

open Theory

/-! ### The program -/

def rootFd : Nat := 3
def otherFdStart : Nat := 6

def newline : Byte := 0x0A#8
def slash : Byte := 0x2F#8
def colon : Byte := 0x3A#8

/-- `"spawn"`. -/
def spawnStr : List Byte := [0x73#8, 0x70#8, 0x61#8, 0x77#8, 0x6E#8]

/-- The memory from `str_start` on, where the text stops in it, and the answers of the server. -/
structure Input where
  byte : Nat → Byte
  stop : Nat
  opens : Nat → Bool
  maps : Nat → Bool

inductive Call where
  | openAt (dirFd fileFd : Nat) (path : List Byte) (opened : Bool)
  | stat (fd : Nat)
  | map (fd : Nat) (mapped : Bool)
  | loadExecutable (fd : Nat)
  | close (fd : Nat)
  deriving DecidableEq

inductive ParserState where
  | parseMode | parsePathSlash | parsePath | parseToNewline | parseEnd | parseError
  deriving DecidableEq

/-- The variables of `parse`, the calls that it has made and the places that it has read. -/
structure Parser where
  parserState : ParserState
  dirFd : Nat
  fileFd : Nat
  pos : Nat
  strStart : Nat
  calls : List Call
  reads : List Nat

def Input.bytesAt (input : Input) (start length : Nat) : List Byte := (List.range' start length).map input.byte

def swapFds (fds : Nat × Nat) : Nat × Nat := (fds.2, if fds.1 = rootFd then otherFdStart else fds.1)

namespace Parser

def init : Parser := ⟨.parseMode, otherFdStart, otherFdStart + 1, 0, 0, [], []⟩

def look (s : Parser) (start length : Nat) : Parser := { s with reads := s.reads ++ List.range' start length }

section
variable (input : Input) (s : Parser)

def parseMode : Parser :=
  if s.pos = input.stop then { s with parserState := if s.strStart = s.pos then .parseEnd else .parseError }
  else
    let s := s.look s.pos 1
    if input.byte s.pos = colon then
      if s.pos - s.strStart ≠ spawnStr.length then { s with parserState := .parseError }
      else
        let s := s.look s.strStart spawnStr.length
        if input.bytesAt s.strStart spawnStr.length ≠ spawnStr then { s with parserState := .parseError }
        else { s with parserState := .parsePathSlash, pos := s.pos + 1, strStart := s.pos + 1 }
    else { s with pos := s.pos + 1 }

def parsePathSlash : Parser :=
  if s.pos = input.stop then { s with parserState := .parseToNewline, pos := s.pos + 1 }
  else
    let s := s.look s.pos 1
    if input.byte s.pos ≠ slash then { s with parserState := .parseToNewline, pos := s.pos + 1 }
    else { s with parserState := .parsePath, pos := s.pos + 1, strStart := s.pos + 1, dirFd := rootFd }

/-- The `open_at` of the component between `str_start` and `pos`. -/
def openAt : Call := .openAt s.dirFd s.fileFd (input.bytesAt s.strStart (s.pos - s.strStart)) (input.opens s.pos)

def closeDir (dirFd : Nat) : List Call := if dirFd ≠ rootFd then [.close dirFd] else []

/-- What is done with the file that a path names. -/
def runFile (opened mapped : Bool) (fileFd : Nat) : List Call :=
  if opened then [.stat fileFd, .map fileFd mapped] ++ if mapped then [.loadExecutable fileFd] else [] else []

/-- The end of a path. -/
def lastComponent : Parser where
  parserState := .parseMode
  dirFd := otherFdStart
  fileFd := otherFdStart + 1
  pos := s.pos + 1
  strStart := s.pos + 1
  calls := s.calls ++ [s.openAt input] ++ runFile (input.opens s.pos) (input.maps s.pos) s.fileFd ++ closeDir s.dirFd ++ [.close s.fileFd]
  reads := s.reads ++ List.range' s.strStart (s.pos - s.strStart)

/-- A `/` behind a component. The position moves on twice. -/
def nextComponent : Parser :=
  let s' := s.look s.strStart (s.pos - s.strStart)
  if !input.opens s.pos then
    { s' with parserState := .parseToNewline, calls := s.calls ++ [s.openAt input], pos := s.pos + 2, strStart := s.pos + 1 }
  else
    { s' with
      dirFd := (swapFds (s.dirFd, s.fileFd)).1
      fileFd := (swapFds (s.dirFd, s.fileFd)).2
      calls := s.calls ++ [s.openAt input] ++ closeDir s.dirFd
      pos := s.pos + 2
      strStart := s.pos + 1 }

def parsePath : Parser :=
  if s.pos = input.stop then s.lastComponent input
  else
    let s := s.look s.pos 1
    if input.byte s.pos = newline then s.lastComponent input
    else if input.byte s.pos = slash then s.nextComponent input
    else { s with pos := s.pos + 1 }

def parseToNewline : Parser :=
  if s.pos = input.stop then { s with parserState := .parseError }
  else
    let s := s.look s.pos 1
    if input.byte s.pos = newline then { s with parserState := .parseMode, pos := s.pos + 1, strStart := s.pos + 1 }
    else { s with pos := s.pos + 1 }

/-- A round of the loop of `parse`. -/
def parseRound : Turn Parser Parser :=
  match s.parserState with
  | .parseMode => .next (s.parseMode input)
  | .parsePathSlash => .next (s.parsePathSlash input)
  | .parsePath => .next (s.parsePath input)
  | .parseToNewline => .next (s.parseToNewline input)
  | .parseEnd => .exit s
  | .parseError => .exit s

end
end Parser

/-! ### Text in the memory -/

/-- The memory has these bytes at a position, before the text stops. -/
def Input.Has (input : Input) : Nat → List Byte → Prop
  | p, [] => p ≤ input.stop
  | p, c :: bytes => p < input.stop ∧ input.byte p = c ∧ input.Has (p + 1) bytes

def Input.text (input : Input) : List Byte := input.bytesAt 0 input.stop

section
variable {input : Input} {p : Nat} {bytes more : List Byte}

theorem Input.Has.le (h : input.Has p bytes) : p + bytes.length ≤ input.stop := by
  induction bytes generalizing p with
  | nil => exact h
  | cons c bytes ih =>
    have rest := ih h.2.2
    rw [List.length_cons]
    omega

theorem Input.has_append : input.Has p (bytes ++ more) ↔ input.Has p bytes ∧ input.Has (p + bytes.length) more := by
  induction bytes generalizing p with
  | nil => exact ⟨fun h => ⟨(Nat.le_add_right _ _).trans h.le, h⟩, And.right⟩
  | cons c bytes ih =>
    rw [List.cons_append, Input.Has, ih, Input.Has, List.length_cons, Nat.add_right_comm, Nat.add_assoc p, and_assoc, and_assoc]

theorem Input.Has.bytesAt (h : input.Has p bytes) : input.bytesAt p bytes.length = bytes := by
  induction bytes generalizing p with
  | nil => rfl
  | cons c bytes ih =>
    obtain ⟨-, here, rest⟩ := h
    rw [Input.bytesAt, List.length_cons, List.range'_succ, List.map_cons, here]
    exact congrArg (c :: ·) (ih rest)

theorem Input.length_text (input : Input) : input.text.length = input.stop := by
  rw [Input.text, Input.bytesAt, List.length_map, List.length_range']

theorem Input.has_bytesAt (input : Input) {length : Nat} (le : p + length ≤ input.stop) : input.Has p (input.bytesAt p length) := by
  induction length generalizing p with
  | zero => exact le
  | succ length ih =>
    rw [Input.bytesAt, List.range'_succ, List.map_cons]
    exact ⟨by omega, rfl, ih (by omega)⟩

/-- A text with answers to the calls. -/
def Input.of (bytes : List Byte) (opens maps : Nat → Bool) : Input := ⟨fun i => bytes.getD i 0#8, bytes.length, opens, maps⟩

theorem Input.text_of (bytes : List Byte) (opens maps : Nat → Bool) : (Input.of bytes opens maps).text = bytes := by
  apply List.ext_getElem
  · exact Input.length_text _
  · intro i less inside
    simp [Input.text, Input.bytesAt, Input.of, inside]

theorem Input.has_text (input : Input) : input.Has 0 input.text := input.has_bytesAt (by omega)

end

/-! ### What a run does -/

namespace Parser

/-- A byte that the state only moves past. -/
def Passed : ParserState → Byte → Prop
  | .parseMode, c => c ≠ colon
  | .parsePath, c => c ≠ newline ∧ c ≠ slash
  | .parseToNewline, c => c ≠ newline
  | _, _ => False

/-- The calls are these wherever the beginning of a line is read. -/
def Idle (calls : List Call) (s : Parser) : Prop := s.parserState = .parseMode → s.calls = calls

/-- A run between two states, whatever was read before. -/
def Leads (input : Input) (calls : List Call) (s t : Parser) : Prop :=
  ∀ reads, ∃ reads', Through (parseRound input) (Idle calls) { s with reads := reads } { t with reads := reads' }

section
variable {input : Input} {s t u : Parser} {bytes : List Byte} {calls before : List Call} {p pos d f : Nat}

theorem Leads.refl : Leads input calls s s := fun reads => ⟨reads, Through.refl _⟩

theorem Leads.trans (first : Leads input calls s t) (rest : Leads input calls t u) : Leads input calls s u := by
  intro reads
  obtain ⟨between, through⟩ := first reads
  obtain ⟨reads', further⟩ := rest between
  exact ⟨reads', through.trans further⟩

theorem Leads.step (idle : Idle calls s)
    (round : ∀ reads, ∃ reads', parseRound input { s with reads := reads } = .next { t with reads := reads' }) : Leads input calls s t := by
  intro reads
  obtain ⟨reads', next⟩ := round reads
  exact ⟨reads', Through.step idle next⟩

theorem Leads.through (h : Leads input calls s t) : ∃ reads, Through (parseRound input) (Idle calls) s { t with reads := reads } :=
  h s.reads

theorem idle_away (away : s.parserState ≠ .parseMode) : Idle calls s := fun mode => absurd mode away

theorem leads_past (has : input.Has s.pos bytes) (passed : ∀ c ∈ bytes, Passed s.parserState c) (idle : Idle calls s) :
    Leads input calls s { s with pos := s.pos + bytes.length } := by
  induction bytes generalizing s with
  | nil => exact Leads.refl
  | cons c bytes ih =>
    obtain ⟨inside, here, rest⟩ := has
    have behind := ih (s := { s with pos := s.pos + 1 }) rest (fun c member => passed c (List.mem_cons_of_mem _ member)) idle
    have pass := passed c List.mem_cons_self
    have step : Leads input calls s { s with pos := s.pos + 1 } := by
      apply Leads.step idle
      intro reads
      refine ⟨reads ++ List.range' s.pos 1, ?_⟩
      obtain ⟨state, dirFd, fileFd, pos, strStart, made, seen⟩ := s
      dsimp only at inside here pass ⊢
      unfold Passed at pass
      split at pass
      · simp [parseRound, parseMode, look, Nat.ne_of_lt inside, here, pass]
      · simp [parseRound, parsePath, look, Nat.ne_of_lt inside, here, pass]
      · simp [parseRound, parseToNewline, look, Nat.ne_of_lt inside, here, pass]
      · exact pass.elim
    rw [List.length_cons, ← Nat.add_assoc, Nat.add_right_comm]
    exact step.trans behind

theorem colon_notMem_spawnStr : ∀ c ∈ spawnStr, c ≠ colon := by decide

theorem leads_spawn (has : input.Has p (spawnStr ++ [colon])) :
    Leads input calls ⟨.parseMode, d, f, p, p, calls, []⟩ ⟨.parsePathSlash, d, f, p + 6, p + 6, calls, []⟩ := by
  obtain ⟨word, inside, here, -⟩ := Input.has_append.mp has
  have past := leads_past (s := ⟨.parseMode, d, f, p, p, calls, []⟩) word colon_notMem_spawnStr (fun _ => rfl)
  apply past.trans
  apply Leads.step (fun _ => rfl)
  intro reads
  have same := word.bytesAt
  refine ⟨reads ++ List.range' (p + spawnStr.length) 1 ++ List.range' p spawnStr.length, ?_⟩
  simp [parseRound, parseMode, look, Nat.ne_of_lt inside, here, same]
  simp [spawnStr]

theorem leads_slash (has : input.Has p [slash]) :
    Leads input calls ⟨.parsePathSlash, d, f, p, p, before, []⟩ ⟨.parsePath, rootFd, f, p + 1, p + 1, before, []⟩ := by
  obtain ⟨inside, here, -⟩ := has
  refine Leads.step (idle_away nofun) fun reads => ?_
  refine ⟨reads ++ List.range' p 1, ?_⟩
  simp [parseRound, parsePathSlash, look, Nat.ne_of_lt inside, here]

theorem parsePath_slash (inside : s.pos < input.stop) (here : input.byte s.pos = slash) :
    s.parsePath input = (s.look s.pos 1).nextComponent input := by
  have other : ¬ input.byte (s.look s.pos 1).pos = newline := by
    rw [look, here]
    decide
  rw [parsePath, if_neg (Nat.ne_of_lt inside)]
  exact (if_neg other).trans (if_pos here)

theorem parsePath_newline (inside : s.pos < input.stop) (here : input.byte s.pos = newline) :
    s.parsePath input = (s.look s.pos 1).lastComponent input := by
  rw [parsePath, if_neg (Nat.ne_of_lt inside)]
  exact if_pos here

theorem nextComponent_reads (input : Input) (s : Parser) (reads : List Nat) :
    ∃ reads', nextComponent input { s with reads := reads } = { nextComponent input s with reads := reads' } := by
  unfold nextComponent
  cases input.opens s.pos
  · exact ⟨_, rfl⟩
  · exact ⟨_, rfl⟩

theorem leads_component (has : input.Has pos (bytes ++ [slash])) (passed : ∀ c ∈ bytes, Passed .parsePath c) :
    Leads input calls ⟨.parsePath, d, f, pos, p, before, []⟩
      (nextComponent input ⟨.parsePath, d, f, pos + bytes.length, p, before, []⟩) := by
  obtain ⟨name, inside, here, -⟩ := Input.has_append.mp has
  refine (leads_past (s := ⟨.parsePath, d, f, pos, p, before, []⟩) name passed (idle_away nofun)).trans ?_
  refine Leads.step (idle_away nofun) fun reads => ?_
  obtain ⟨reads', same⟩ := nextComponent_reads input ⟨.parsePath, d, f, pos + bytes.length, p, before, []⟩ _
  exact ⟨reads', congrArg Turn.next ((parsePath_slash inside here).trans same)⟩

theorem leads_file (has : input.Has pos (bytes ++ [newline])) (passed : ∀ c ∈ bytes, Passed .parsePath c) :
    Leads input calls ⟨.parsePath, d, f, pos, p, before, []⟩
      (lastComponent input ⟨.parsePath, d, f, pos + bytes.length, p, before, []⟩) := by
  obtain ⟨name, inside, here, -⟩ := Input.has_append.mp has
  refine (leads_past (s := ⟨.parsePath, d, f, pos, p, before, []⟩) name passed (idle_away nofun)).trans ?_
  refine Leads.step (idle_away nofun) fun reads => ?_
  exact ⟨_, congrArg Turn.next (parsePath_newline inside here)⟩

/-- What is left of a line after an error. -/
theorem leads_newline (has : input.Has pos (bytes ++ [newline])) (passed : ∀ c ∈ bytes, Passed .parseToNewline c) :
    Leads input calls ⟨.parseToNewline, d, f, pos, p, before, []⟩
      ⟨.parseMode, d, f, pos + bytes.length + 1, pos + bytes.length + 1, before, []⟩ := by
  obtain ⟨rest, inside, here, -⟩ := Input.has_append.mp has
  refine (leads_past (s := ⟨.parseToNewline, d, f, pos, p, before, []⟩) rest passed (idle_away nofun)).trans ?_
  refine Leads.step (idle_away nofun) fun reads => ?_
  refine ⟨reads ++ List.range' (pos + bytes.length) 1, ?_⟩
  simp [parseRound, parseToNewline, look, Nat.ne_of_lt inside, here]

end
end Parser

end BradypOS.Root.Inittab
