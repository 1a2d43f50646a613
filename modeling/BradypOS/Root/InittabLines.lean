import BradypOS.Root.Inittab
import BradypOS.Theory.Transducer

/-!
# Well-formed lines of the inittab

A line is `spawn:/c1/.../cm`. Its calls are a function of its names and of the answers to its own calls, as
long as `file_fd` has its first number; an error behind the first directory leaves a descriptor open and the
numbers changed.
-/

namespace BradypOS.Root.Inittab

open Theory
open Inittab.Parser

/-! ### The text -/

def Component (name : List Byte) : Prop := name ≠ [] ∧ ∀ c ∈ name, c ≠ newline ∧ c ≠ slash

instance : DecidablePred Component := fun _ => inferInstanceAs (Decidable (_ ∧ _))

structure Line where
  dirs : List (List Byte)
  file : List Byte
  plain : ∀ name ∈ dirs ++ [file], Component name

namespace Line

def path (line : Line) : List (List Byte) := line.dirs ++ [line.file]

def text (line : Line) : List Byte := spawnStr ++ [colon] ++ line.path.flatMap (slash :: ·) ++ [newline]

/-- Where the newline is in a line that begins at a position. -/
def newlineAt (line : Line) (p : Nat) : Nat := p + line.text.length - 1

end Line

def place : Nat → List Line → List (Nat × Line)
  | _, [] => []
  | p, line :: lines => (p, line) :: place (p + line.text.length) lines

/-- The answers to the `open_at` of the directories that are named from a position on. -/
def Input.answers (input : Input) : Nat → List (List Byte) → List Bool
  | _, [] => []
  | p, name :: names => input.opens (p + name.length) :: input.answers (p + name.length + 1) names

/-- The answers to the directories of a line, which are behind `"spawn:/"`. -/
def Input.dirAnswers (input : Input) (placed : Nat × Line) : List Bool := input.answers (placed.1 + 7) placed.2.dirs

/-- The file of a line was opened and mapped. -/
def Input.runs (input : Input) (placed : Nat × Line) : Bool :=
  input.opens (placed.2.newlineAt placed.1) && input.maps (placed.2.newlineAt placed.1)

/-! ### The calls of a path -/

def pathCalls (file : List Byte) (opened mapped : Bool) : Nat × Nat → List (List Byte × Bool) → List Call
  | fds, [] => [.openAt fds.1 fds.2 file opened] ++ runFile opened mapped fds.2 ++ closeDir fds.1 ++ [.close fds.2]
  | fds, (name, false) :: _ => [.openAt fds.1 fds.2 name false]
  | fds, (name, true) :: dirs => [.openAt fds.1 fds.2 name true] ++ closeDir fds.1 ++ pathCalls file opened mapped (swapFds fds) dirs

def pathFds : Nat × Nat → List Bool → Nat × Nat
  | _, [] => (otherFdStart, otherFdStart + 1)
  | fds, false :: _ => fds
  | fds, true :: answers => pathFds (swapFds fds) answers

/-- The calls of a line that begins with `file_fd = f`. -/
def Input.lineCalls (input : Input) (placed : Nat × Line) (f : Nat) : List Call :=
  pathCalls placed.2.file (input.opens (placed.2.newlineAt placed.1)) (input.maps (placed.2.newlineAt placed.1)) (rootFd, f)
    (placed.2.dirs.zip (input.dirAnswers placed))

section
variable {input : Input} {calls before : List Call} {p pos d f stop : Nat} {name file more : List Byte} {dirs : List (List Byte)}

theorem flatMap_slash (dirs : List (List Byte)) (file : List Byte) :
    (dirs ++ [file]).flatMap (slash :: ·) = slash :: (dirs.flatMap (· ++ [slash]) ++ file) := by
  induction dirs with
  | nil => simp
  | cons name dirs ih =>
    rw [List.cons_append, List.flatMap_cons, ih, List.flatMap_cons]
    simp

/-- The position may be behind the first byte of a component already. -/
theorem Component.rest (plain : Component name) (has : input.Has p (name ++ more)) (near : pos = p ∨ pos = p + 1) :
    ∃ bytes, input.Has pos (bytes ++ more) ∧ pos + bytes.length = p + name.length ∧ ∀ c ∈ bytes, Passed .parsePath c := by
  obtain ⟨nonempty, passed⟩ := plain
  rcases near with rfl | rfl
  · exact ⟨name, has, rfl, passed⟩
  · cases name with
    | nil => exact absurd rfl nonempty
    | cons c name =>
      refine ⟨name, has.2.2, ?_, fun c' member => passed c' (List.mem_cons_of_mem _ member)⟩
      rw [List.length_cons]
      omega

theorem bytesAt_name (has : input.Has p (name ++ more)) : input.bytesAt p (p + name.length - p) = name := by
  rw [Nat.add_sub_cancel_left]
  exact (Input.has_append.mp has).1.bytesAt

theorem leads_opened (plain : Component name) (has : input.Has p (name ++ [slash])) (near : pos = p ∨ pos = p + 1)
    (opened : input.opens (p + name.length) = true) :
    Leads input calls ⟨.parsePath, d, f, pos, p, before, []⟩
      ⟨.parsePath, (swapFds (d, f)).1, (swapFds (d, f)).2, p + name.length + 2, p + name.length + 1,
        before ++ [.openAt d f name true] ++ closeDir d, []⟩ := by
  obtain ⟨bytes, behind, same, passed⟩ := plain.rest has near
  have run : Leads input calls ⟨.parsePath, d, f, pos, p, before, []⟩ (nextComponent input ⟨.parsePath, d, f, pos + bytes.length, p, before, []⟩) :=
    leads_component behind passed
  rw [same] at run
  simp only [nextComponent, openAt, opened, bytesAt_name has] at run
  exact run

theorem leads_failed (plain : Component name) (has : input.Has p (name ++ [slash])) (near : pos = p ∨ pos = p + 1)
    (failed : input.opens (p + name.length) = false) :
    Leads input calls ⟨.parsePath, d, f, pos, p, before, []⟩
      ⟨.parseToNewline, d, f, p + name.length + 2, p + name.length + 1, before ++ [.openAt d f name false], []⟩ := by
  obtain ⟨bytes, behind, same, passed⟩ := plain.rest has near
  have run : Leads input calls ⟨.parsePath, d, f, pos, p, before, []⟩ (nextComponent input ⟨.parsePath, d, f, pos + bytes.length, p, before, []⟩) :=
    leads_component behind passed
  rw [same] at run
  simp only [nextComponent, openAt, failed, bytesAt_name has] at run
  exact run

theorem leads_last (plain : Component name) (has : input.Has p (name ++ [newline])) (near : pos = p ∨ pos = p + 1) :
    Leads input calls ⟨.parsePath, d, f, pos, p, before, []⟩
      ⟨.parseMode, otherFdStart, otherFdStart + 1, p + name.length + 1, p + name.length + 1,
        before ++ pathCalls name (input.opens (p + name.length)) (input.maps (p + name.length)) (d, f) [], []⟩ := by
  obtain ⟨bytes, behind, same, passed⟩ := plain.rest has near
  have run : Leads input calls ⟨.parsePath, d, f, pos, p, before, []⟩ (lastComponent input ⟨.parsePath, d, f, pos + bytes.length, p, before, []⟩) :=
    leads_file behind passed
  rw [same] at run
  simp only [lastComponent, openAt, bytesAt_name has] at run
  rw [pathCalls, ← List.append_assoc, ← List.append_assoc, ← List.append_assoc]
  exact run

/-- The names of a path are at least one byte, and no newline. -/
theorem names_plain (plain : ∀ name ∈ dirs ++ [file], Component name) :
    ∃ c bytes, dirs.flatMap (· ++ [slash]) ++ file = c :: bytes ∧ ∀ c' ∈ bytes, c' ≠ newline := by
  have free : ∀ c ∈ dirs.flatMap (· ++ [slash]) ++ file, c ≠ newline := by
    intro c member
    rcases List.mem_append.mp member with inDirs | inFile
    · obtain ⟨name, nameIn, cIn⟩ := List.mem_flatMap.mp inDirs
      rcases List.mem_append.mp cIn with inName | isSlash
      · exact ((plain name (List.mem_append_left _ nameIn)).2 c inName).1
      · rw [List.mem_singleton.mp isSlash]
        decide
    · exact ((plain file (by simp)).2 c inFile).1
  have nonempty : dirs.flatMap (· ++ [slash]) ++ file ≠ [] := by
    intro empty
    exact (plain file (by simp)).1 (List.append_eq_nil_iff.mp empty).2
  obtain ⟨c, bytes, same⟩ := List.exists_cons_of_ne_nil nonempty
  refine ⟨c, bytes, same, fun c' member => free c' ?_⟩
  rw [same]
  exact List.mem_cons_of_mem c member

theorem leads_path (plain : ∀ name ∈ dirs ++ [file], Component name)
    (has : input.Has p (dirs.flatMap (· ++ [slash]) ++ file ++ [newline])) (near : pos = p ∨ pos = p + 1)
    (stops : stop = p + (dirs.flatMap (· ++ [slash]) ++ file).length) :
    Leads input calls ⟨.parsePath, d, f, pos, p, before, []⟩
      ⟨.parseMode, (pathFds (d, f) (input.answers p dirs)).1, (pathFds (d, f) (input.answers p dirs)).2, stop + 1, stop + 1,
        before ++ pathCalls file (input.opens stop) (input.maps stop) (d, f) (dirs.zip (input.answers p dirs)), []⟩ := by
  induction dirs generalizing p pos d f before with
  | nil =>
    rw [List.flatMap_nil, List.nil_append] at has stops
    subst stops
    exact leads_last (plain file (by simp)) has near
  | cons name dirs ih =>
    rw [List.flatMap_cons, List.append_assoc, List.append_assoc] at has
    obtain ⟨here, behind⟩ := Input.has_append.mp has
    rw [← List.append_assoc] at behind
    have plain' : ∀ name ∈ dirs ++ [file], Component name := fun name member => plain name (List.mem_cons_of_mem _ member)
    have stops' : stop = p + name.length + 1 + (dirs.flatMap (· ++ [slash]) ++ file).length := by
      rw [stops, List.flatMap_cons]
      simp only [List.length_append, List.length_singleton]
      omega
    have nonempty := plain name List.mem_cons_self
    rw [Input.answers, List.zip_cons_cons]
    cases opened : input.opens (p + name.length) with
    | true =>
      apply (leads_opened nonempty here near opened).trans
      rw [pathFds, pathCalls, ← List.append_assoc, ← List.append_assoc]
      exact ih plain' (by simpa [Nat.add_assoc] using behind) (.inr rfl) stops'
    | false =>
      apply (leads_failed nonempty here near opened).trans
      rw [pathFds, pathCalls]
      obtain ⟨c, bytes, same, free⟩ := names_plain plain'
      rw [List.length_append, List.length_singleton, ← Nat.add_assoc] at behind
      rw [same] at behind
      rw [same, List.length_cons] at stops'
      have rest := @leads_newline input bytes calls (before ++ [.openAt d f name false]) (p + name.length + 1)
        (p + name.length + 1 + 1) d f behind.2.2 free
      have stops'' : p + name.length + 1 + 1 + bytes.length = stop := by omega
      rw [stops''] at rest
      exact rest

theorem Line.text_eq (line : Line) :
    line.text = (spawnStr ++ [colon]) ++ ([slash] ++ (line.dirs.flatMap (· ++ [slash]) ++ line.file ++ [newline])) := by
  rw [text, path, flatMap_slash]
  simp

theorem Line.newlineAt_eq (line : Line) (p : Nat) :
    line.newlineAt p = p + 7 + (line.dirs.flatMap (· ++ [slash]) ++ line.file).length := by
  rw [newlineAt, text_eq]
  simp only [List.length_append, spawnStr, List.length_cons, List.length_nil]
  omega

theorem Line.newlineAt_succ (line : Line) (p : Nat) : line.newlineAt p + 1 = p + line.text.length := by
  have long : 0 < line.text.length := by
    rw [text_eq]
    simp [spawnStr]
  rw [newlineAt]
  omega

theorem leads_line {line : Line} (has : input.Has p line.text) :
    Leads input before ⟨.parseMode, d, f, p, p, before, []⟩
      ⟨.parseMode, (pathFds (rootFd, f) (input.dirAnswers (p, line))).1, (pathFds (rootFd, f) (input.dirAnswers (p, line))).2,
        p + line.text.length, p + line.text.length, before ++ input.lineCalls (p, line) f, []⟩ := by
  rw [Line.text_eq] at has
  obtain ⟨word, behind⟩ := Input.has_append.mp has
  obtain ⟨here, path⟩ := Input.has_append.mp behind
  apply (leads_spawn word).trans
  apply (leads_slash here).trans
  rw [← line.newlineAt_succ]
  exact leads_path line.plain path (.inl rfl) (line.newlineAt_eq p)

end

/-! ### What the descriptors stand for -/

/-- The path from the root that each open descriptor was opened with. -/
abbrev Files := Nat → Option (List (List Byte))

/-- Only the root is open. -/
def Files.start : Files := Function.update (fun _ => none) rootFd (some [])

def Files.serve (files : Files) : Call → List (Option (List (List Byte))) × Files
  | .openAt dirFd fileFd path true => ([], Function.update files fileFd ((files dirFd).map (· ++ [path])))
  | .loadExecutable fd => ([files fd], files)
  | .close fd => ([], Function.update files fd none)
  | _ => ([], files)

/-- The programs that calls start, and what they leave open. -/
def served (calls : List Call) : List (Option (List (List Byte))) × Files := transduce Files.serve Files.start calls

/-- Besides the root only this descriptor is open. -/
def holding (fd : Nat) (path : List (List Byte)) : Files := Function.update Files.start fd (some path)

/-- The pairs of descriptors that `swap_fds` goes through. -/
def Pair (fds : Nat × Nat) : Prop := fds = (3, 7) ∨ fds = (7, 6) ∨ fds = (6, 7)

section
variable {fds : Nat × Nat} {d f fd : Nat} {path : List (List Byte)} {x : Option (List (List Byte))} {name file : List Byte}
  {opened mapped : Bool} {dirs : List (List Byte × Bool)}

theorem Pair.swap (pair : Pair fds) : Pair (swapFds fds) := by
  rcases pair with rfl | rfl | rfl
  · exact .inr (.inl rfl)
  · exact .inr (.inr rfl)
  · exact .inr (.inl rfl)

theorem Pair.ne (pair : Pair fds) : fds.1 ≠ fds.2 := by
  rcases pair with rfl | rfl | rfl
  all_goals decide

theorem Pair.ne_root (pair : Pair fds) : fds.2 ≠ rootFd := by
  rcases pair with rfl | rfl | rfl
  all_goals decide

theorem Files.start_none (other : fd ≠ rootFd) : Files.start fd = none := Function.update_of_ne other _ _

theorem holding_root : holding rootFd [] = Files.start := Function.update_eq_self _ _

theorem holding_ne_start (other : fd ≠ rootFd) : holding fd path ≠ Files.start := by
  intro same
  have here := congrFun same fd
  rw [holding, Function.update_self, Files.start_none other] at here
  cases here

theorem serve_open (files : Files) (here : files d = some path) :
    Files.serve files (.openAt d f name opened) = ([], if opened then Function.update files f (some (path ++ [name])) else files) := by
  cases opened with
  | true => rw [Files.serve, here, if_pos rfl, Option.map_some]
  | false => rfl

theorem serve_closeDir (different : d ≠ f) (root : d = rootFd → path = []) :
    transduce Files.serve (Function.update (holding d path) f x) (closeDir d) = ([], Function.update Files.start f x) := by
  unfold closeDir
  split
  · rename_i other
    have shut : Function.update (Function.update (holding d path) f x) d none = Function.update Files.start f x := by
      rw [Function.update_comm different.symm, holding, Function.update_idem, ← Files.start_none other, Function.update_eq_self]
    exact congrArg (Prod.mk _) shut
  · rename_i same
    obtain rfl := not_not.mp same
    rw [root rfl, holding_root]
    rfl

theorem holding_none (different : d ≠ f) (other : f ≠ rootFd) : holding d path f = none := by
  rw [holding, Function.update_of_ne different.symm, Files.start_none other]

theorem serve_runFile (different : d ≠ f) (other : f ≠ rootFd) :
    transduce Files.serve (holding d path) ([.openAt d f file opened] ++ runFile opened mapped f) =
      (if opened && mapped then [some (path ++ [file])] else [],
        Function.update (holding d path) f (if opened then some (path ++ [file]) else none)) := by
  have dir : holding d path d = some path := Function.update_self ..
  cases opened with
  | false =>
    have unchanged : Function.update (holding d path) f none = holding d path := by
      rw [← holding_none different other, Function.update_eq_self]
    exact congrArg (Prod.mk _) unchanged.symm
  | true =>
    rw [List.singleton_append, transduce, serve_open _ dir, if_pos rfl, if_pos rfl]
    cases mapped with
    | false => rfl
    | true => simp [runFile, transduce, Files.serve]

theorem served_file (path) (pair : Pair fds) (root : fds.1 = rootFd → path = []) :
    transduce Files.serve (holding fds.1 path) (pathCalls file opened mapped fds []) =
      (if opened && mapped then [some (path ++ [file])] else [], Files.start) := by
  have shut (x) : transduce Files.serve (Function.update Files.start fds.2 x) [.close fds.2] = ([], Files.start) := by
    refine congrArg (Prod.mk _) ?_
    rw [transduce, Files.serve, Function.update_idem, ← Files.start_none pair.ne_root, Function.update_eq_self]
  rw [pathCalls, transduce_append, transduce_append, serve_runFile pair.ne pair.ne_root]
  simp only [serve_closeDir pair.ne root, shut, List.append_nil]

/-- A directory that was opened takes the place of the one before it. -/
theorem served_dir (path) (name) (pair : Pair fds) (root : fds.1 = rootFd → path = []) :
    transduce Files.serve (holding fds.1 path) ([.openAt fds.1 fds.2 name true] ++ closeDir fds.1) =
      ([], holding (swapFds fds).1 (path ++ [name])) := by
  have dir : holding fds.1 path fds.1 = some path := Function.update_self ..
  rw [List.singleton_append, transduce, serve_open _ dir, if_pos rfl, serve_closeDir pair.ne root]
  rfl

theorem swapFds_ne_root (pair : Pair fds) : (swapFds fds).1 ≠ rootFd := pair.ne_root

theorem served_path (path) (pair : Pair fds) (root : fds.1 = rootFd → path = []) (all : ∀ dir ∈ dirs, dir.2 = true) :
    transduce Files.serve (holding fds.1 path) (pathCalls file opened mapped fds dirs) =
      (if opened && mapped then [some (path ++ dirs.map Prod.fst ++ [file])] else [], Files.start) := by
  induction dirs generalizing fds path with
  | nil =>
    rw [List.map_nil, List.append_nil]
    exact served_file path pair root
  | cons dir dirs ih =>
    obtain ⟨name, answer⟩ := dir
    obtain rfl : answer = true := all _ List.mem_cons_self
    have rest := ih (path ++ [name]) pair.swap (fun same => absurd same (swapFds_ne_root pair))
      (fun dir member => all dir (List.mem_cons_of_mem _ member))
    rw [pathCalls, transduce_append, served_dir path name pair root, rest]
    simp

/-- A path that breaks off behind a directory other than the root leaves one open. -/
theorem served_torn (path) (pair : Pair fds) (away : fds.1 ≠ rootFd) (torn : false ∈ dirs.map Prod.snd) :
    ∃ fd path', fd ≠ rootFd ∧
      transduce Files.serve (holding fds.1 path) (pathCalls file opened mapped fds dirs) = ([], holding fd path') := by
  induction dirs generalizing fds path with
  | nil => cases torn
  | cons dir dirs ih =>
    obtain ⟨name, answer⟩ := dir
    cases answer with
    | false => exact ⟨fds.1, path, away, rfl⟩
    | true =>
      have later : false ∈ dirs.map Prod.snd := by simpa using torn
      obtain ⟨fd, path', other, rest⟩ := ih (path ++ [name]) pair.swap (swapFds_ne_root pair) later
      refine ⟨fd, path', other, ?_⟩
      rw [pathCalls, transduce_append, served_dir path name pair (fun same => absurd same away), rest]
      rfl

end

/-! ### A line on its own -/

/-- The first directory of a path was opened and a later one was not. -/
def Torn (answers : List Bool) : Prop := ∃ later, answers = true :: later ∧ false ∈ later

/-- The program that a line stands for, if the server says yes to all of it. -/
def Input.programs (input : Input) (placed : Nat × Line) : List (Option (List (List Byte))) :=
  if (input.dirAnswers placed).all id && input.runs placed then [some placed.2.path] else []

section
variable {input : Input} {fds : Nat × Nat} {answers : List Bool} {placed : Nat × Line} {p : Nat}

theorem Input.length_answers (input : Input) (p : Nat) (names : List (List Byte)) : (input.answers p names).length = names.length := by
  induction names generalizing p with
  | nil => rfl
  | cons name names ih => rw [Input.answers, List.length_cons, ih, List.length_cons]

theorem not_torn_cases (clean : ¬ Torn answers) : (∃ later, answers = false :: later) ∨ ∀ answer ∈ answers, answer = true := by
  cases answers with
  | nil => exact .inr (by simp)
  | cons answer later =>
    cases answer with
    | false => exact .inl ⟨later, rfl⟩
    | true =>
      refine .inr fun other member => ?_
      rcases List.mem_cons.mp member with rfl | behind
      · rfl
      · by_contra no
        exact clean ⟨later, rfl, by simpa [Bool.eq_false_iff.mpr no] using behind⟩

theorem pathFds_all (all : ∀ answer ∈ answers, answer = true) : pathFds fds answers = (otherFdStart, otherFdStart + 1) := by
  induction answers generalizing fds with
  | nil => rfl
  | cons answer answers ih =>
    obtain rfl : answer = true := all answer List.mem_cons_self
    rw [pathFds]
    exact ih fun other member => all other (List.mem_cons_of_mem _ member)

/-- `file_fd` has its first number again behind a line that is not torn. -/
theorem pathFds_clean (clean : ¬ Torn answers) : (pathFds (rootFd, 7) answers).2 = 7 := by
  rcases not_torn_cases clean with ⟨later, rfl⟩ | all
  · rfl
  · rw [pathFds_all all]
    rfl

theorem start_pair : Pair (rootFd, 7) := .inl rfl

theorem zip_answers (input : Input) (placed : Nat × Line) :
    (placed.2.dirs.zip (input.dirAnswers placed)).map Prod.fst = placed.2.dirs ∧
      (placed.2.dirs.zip (input.dirAnswers placed)).map Prod.snd = input.dirAnswers placed := by
  have length := input.length_answers (placed.1 + 7) placed.2.dirs
  exact ⟨List.map_fst_zip length.ge, List.map_snd_zip length.le⟩

theorem served_eq (calls : List Call) : served calls = transduce Files.serve (holding (rootFd, 7).1 []) calls := by
  rw [served, ← holding_root]

theorem zip_opened (all : ∀ answer ∈ input.dirAnswers placed, answer = true) :
    ∀ dir ∈ placed.2.dirs.zip (input.dirAnswers placed), dir.2 = true :=
  fun _ member => all _ (List.of_mem_zip member).2

theorem served_all (all : ∀ answer ∈ input.dirAnswers placed, answer = true) :
    served (input.lineCalls placed 7) = (if input.runs placed then [some placed.2.path] else [], Files.start) := by
  rw [served_eq, Input.lineCalls, served_path [] start_pair (fun _ => rfl) (zip_opened all), (zip_answers input placed).1]
  rfl

theorem served_clean (clean : ¬ Torn (input.dirAnswers placed)) :
    served (input.lineCalls placed 7) = (input.programs placed, Files.start) := by
  rcases not_torn_cases clean with ⟨later, same⟩ | all
  · have nonempty := (zip_answers input placed).2
    rw [Input.programs, same]
    rw [same] at nonempty
    rw [Input.lineCalls, same]
    cases dirs : placed.2.dirs with
    | nil => rw [dirs] at nonempty; cases nonempty
    | cons name names => rfl
  · have every : (input.dirAnswers placed).all id = true := List.all_eq_true.mpr all
    rw [served_all all, Input.programs, every, Bool.true_and]

theorem served_torn_line (torn : Torn (input.dirAnswers placed)) : (served (input.lineCalls placed 7)).2 ≠ Files.start := by
  obtain ⟨later, same, no⟩ := torn
  have answers := (zip_answers input placed).2
  unfold Input.lineCalls
  cases dirs : placed.2.dirs.zip (input.dirAnswers placed) with
  | nil =>
    rw [dirs, same] at answers
    cases answers
  | cons dir dirs' =>
    rw [dirs, same, List.map_cons] at answers
    obtain ⟨name, answer⟩ := dir
    obtain ⟨rfl, rfl⟩ := List.cons.inj answers
    rw [served_eq, pathCalls, transduce_append, served_dir [] name start_pair (fun _ => rfl)]
    obtain ⟨fd, path, other, rest⟩ := served_torn [name] start_pair.swap (swapFds_ne_root start_pair) no
    dsimp only
    rw [List.nil_append, rest]
    exact holding_ne_start other

end

/-! ### The lines one after another -/

/-- Nothing is left open where a line begins. -/
def Closed (s : Parser) : Prop := s.parserState = .parseMode → (served s.calls).2 = Files.start

section
variable {input : Input} {lines : List Line} {before : List Call} {reads : List Nat} {p d : Nat}

theorem served_append (clean : (served before).2 = Files.start) (calls : List Call) :
    served (before ++ calls) = ((served before).1 ++ (served calls).1, (served calls).2) := by
  rw [served, transduce_append]
  exact congrArg (fun files => ((served before).1 ++ (transduce Files.serve files calls).1, (transduce Files.serve files calls).2)) clean

theorem through_line {line : Line} (has : input.Has p line.text) (clean : ¬ Torn (input.dirAnswers (p, line)))
    (start : (served before).2 = Files.start) :
    ∃ d' reads', Through (parseRound input) Closed ⟨.parseMode, d, 7, p, p, before, reads⟩
        ⟨.parseMode, d', 7, p + line.text.length, p + line.text.length, before ++ input.lineCalls (p, line) 7, reads'⟩ ∧
      (served (before ++ input.lineCalls (p, line) 7)).2 = Files.start := by
  obtain ⟨reads', through⟩ := leads_line has reads
  rw [pathFds_clean clean] at through
  refine ⟨_, reads', through.mono fun s idle mode => ?_, ?_⟩
  · rw [idle mode, start]
  · rw [served_append start, served_clean clean]

theorem through_lines (has : input.Has p (lines.flatMap Line.text)) (clean : ∀ placed ∈ place p lines, ¬ Torn (input.dirAnswers placed))
    (start : (served before).2 = Files.start) :
    ∃ t, Through (parseRound input) Closed ⟨.parseMode, d, 7, p, p, before, reads⟩ t ∧ t.parserState = .parseMode ∧
      t.pos = p + (lines.flatMap Line.text).length ∧ t.strStart = t.pos ∧
      t.calls = before ++ (place p lines).flatMap (input.lineCalls · 7) ∧ (served t.calls).2 = Files.start := by
  induction lines generalizing p d before reads with
  | nil => exact ⟨_, Through.refl _, rfl, rfl, rfl, (List.append_nil _).symm, start⟩
  | cons line lines ih =>
    obtain ⟨here, behind⟩ := Input.has_append.mp has
    obtain ⟨d', reads', first, start'⟩ := through_line (d := d) here (clean _ List.mem_cons_self) start
    obtain ⟨t, rest, mode, pos, strStart, calls, shut⟩ := ih behind (fun placed member => clean placed (List.mem_cons_of_mem _ member)) start'
    refine ⟨t, first.trans rest, mode, ?_, strStart, ?_, shut⟩
    · rw [pos, List.flatMap_cons, List.length_append, Nat.add_assoc]
    · rw [calls, place, List.flatMap_cons, List.append_assoc]

/-- A torn line is followed by the beginning of another one, with a descriptor left open. -/
theorem comes_torn (has : input.Has p (lines.flatMap Line.text)) (torn : ∃ placed ∈ place p lines, Torn (input.dirAnswers placed))
    (start : (served before).2 = Files.start) :
    ∃ t, Comes (parseRound input) ⟨.parseMode, d, 7, p, p, before, reads⟩ t ∧ t.parserState = .parseMode ∧ t.strStart = t.pos ∧
      (served t.calls).2 ≠ Files.start := by
  induction lines generalizing p d before reads with
  | nil =>
    obtain ⟨placed, member, -⟩ := torn
    cases member
  | cons line lines ih =>
    obtain ⟨here, behind⟩ := Input.has_append.mp has
    by_cases clean : Torn (input.dirAnswers (p, line))
    · obtain ⟨reads', through⟩ := leads_line here reads
      refine ⟨_, through.comes, rfl, rfl, ?_⟩
      dsimp only
      rw [served_append start]
      exact served_torn_line clean
    · obtain ⟨d', reads', first, start'⟩ := through_line (d := d) here clean start
      have later : ∃ placed ∈ place (p + line.text.length) lines, Torn (input.dirAnswers placed) := by
        obtain ⟨placed, member, torn⟩ := torn
        rcases List.mem_cons.mp member with rfl | behind
        · exact absurd torn clean
        · exact ⟨placed, behind, torn⟩
      obtain ⟨t, rest, found⟩ := ih behind later start'
      exact ⟨t, first.comes.trans rest, found⟩

theorem parse_clean (text : input.text = lines.flatMap Line.text) (clean : ∀ placed ∈ place 0 lines, ¬ Torn (input.dirAnswers placed)) :
    ∃ t, Through (parseRound input) Closed init t ∧ parseRound input t = .exit t ∧ t.parserState = .parseEnd ∧
      t.calls = (place 0 lines).flatMap (input.lineCalls · 7) := by
  have has := input.has_text
  rw [text] at has
  obtain ⟨t, through, mode, pos, strStart, calls, shut⟩ := @through_lines input lines [] [] 0 otherFdStart has clean rfl
  have ends : t.pos = input.stop := by rw [pos, ← text, Input.length_text, Nat.zero_add]
  have last : parseRound input t = .next { t with parserState := .parseEnd } := by
    rw [parseRound, mode]
    dsimp only
    rw [parseMode, if_pos ends, if_pos strStart]
  refine ⟨{ t with parserState := .parseEnd }, through.trans (Through.step (fun _ => shut) last), rfl, rfl, ?_⟩
  exact calls.trans (List.nil_append _)

theorem served_lines (clean : ∀ placed ∈ place p lines, ¬ Torn (input.dirAnswers placed)) :
    served ((place p lines).flatMap (input.lineCalls · 7)) = ((place p lines).flatMap input.programs, Files.start) := by
  induction lines generalizing p with
  | nil => rfl
  | cons line lines ih =>
    have first := served_clean (clean _ List.mem_cons_self)
    have rest := ih fun placed member => clean placed (List.mem_cons_of_mem _ member)
    rw [place, List.flatMap_cons, List.flatMap_cons, served_append (congrArg Prod.snd first), first, rest]

/-! ### What the listed programs need -/

/-- The descriptors and the name of an `open_at`. -/
def opening : Call → Option (Nat × Nat × List Byte)
  | .openAt dirFd fileFd path _ => some (dirFd, fileFd, path)
  | _ => none

/-- Calls that open the names of a line one from another, load the file once and close everything. -/
structure Spawns (input : Input) (placed : Nat × Line) (calls : List Call) : Prop where
  opens : ∃ fds : List Nat, fds.length = placed.2.path.length ∧ calls.filterMap opening = (rootFd :: fds).zip (fds.zip placed.2.path)
  load : (served calls).1 = if input.runs placed then [some placed.2.path] else []
  close : (served calls).2 = Files.start

theorem pathCalls_opens {file : List Byte} {opened mapped : Bool} {fds : Nat × Nat} {dirs : List (List Byte × Bool)}
    (all : ∀ dir ∈ dirs, dir.2 = true) :
    ∃ more : List Nat, more.length = dirs.length ∧
      (pathCalls file opened mapped fds dirs).filterMap opening =
        (fds.1 :: fds.2 :: more).zip ((fds.2 :: more).zip (dirs.map Prod.fst ++ [file])) := by
  have closes (fd : Nat) : (closeDir fd).filterMap opening = [] := by
    unfold closeDir
    split
    all_goals rfl
  have loads (fd : Nat) : (runFile opened mapped fd).filterMap opening = [] := by
    cases opened
    · rfl
    · cases mapped
      all_goals rfl
  induction dirs generalizing fds with
  | nil =>
    refine ⟨[], rfl, ?_⟩
    rw [pathCalls, List.filterMap_append, List.filterMap_append, List.filterMap_append, closes, loads]
    rfl
  | cons dir dirs ih =>
    obtain ⟨name, answer⟩ := dir
    obtain rfl : answer = true := all _ List.mem_cons_self
    obtain ⟨more, length, rest⟩ := @ih (swapFds fds) fun dir member => all dir (List.mem_cons_of_mem _ member)
    refine ⟨(swapFds fds).2 :: more, congrArg Nat.succ length, ?_⟩
    rw [pathCalls, List.filterMap_append, List.filterMap_append, closes, rest]
    rfl

theorem lineCalls_spawns {placed : Nat × Line} (all : ∀ answer ∈ input.dirAnswers placed, answer = true) :
    Spawns input placed (input.lineCalls placed 7) := by
  refine ⟨?_, congrArg Prod.fst (served_all all), congrArg Prod.snd (served_all all)⟩
  obtain ⟨more, length, opens⟩ := @pathCalls_opens placed.2.file (input.opens (placed.2.newlineAt placed.1))
    (input.maps (placed.2.newlineAt placed.1)) (rootFd, 7) _ (zip_opened all)
  rw [(zip_answers input placed).1] at opens
  have count := congrArg List.length (zip_answers input placed).1
  rw [List.length_map] at count
  refine ⟨7 :: more, ?_, opens⟩
  rw [Line.path, List.length_append, List.length_cons, length, count]
  rfl

/-- `parse` comes to its end and has made, line for line, the calls that start the listed program. -/
theorem parse_spawns (text : input.text = lines.flatMap Line.text)
    (opened : ∀ placed ∈ place 0 lines, ∀ answer ∈ input.dirAnswers placed, answer = true) :
    ∃ t calls, Comes (parseRound input) init t ∧ parseRound input t = .exit t ∧ t.parserState = .parseEnd ∧
      t.calls = (place 0 lines).flatMap calls ∧ ∀ placed ∈ place 0 lines, Spawns input placed (calls placed) := by
  have clean : ∀ placed ∈ place 0 lines, ¬ Torn (input.dirAnswers placed) := by
    rintro placed member ⟨later, same, no⟩
    have yes := opened placed member false
    rw [same] at yes
    exact absurd (yes (List.mem_cons_of_mem _ no)) (by decide)
  obtain ⟨t, through, exits, state, calls⟩ := parse_clean text clean
  exact ⟨t, (input.lineCalls · 7), through.comes, exits, state, calls, fun placed member => lineCalls_spawns (opened placed member)⟩

/-! ### What a line leaves to the others -/

/-- Nothing is open where a line begins, and the programs are those of the lines by the answers to their own calls. -/
def Isolated (input : Input) (lines : List Line) : Prop :=
  (∀ t, Comes (parseRound input) init t → t.parserState = .parseMode → t.strStart = t.pos → (served t.calls).2 = Files.start) ∧
    ∃ t, Comes (parseRound input) init t ∧ parseRound input t = .exit t ∧ (served t.calls).1 = (place 0 lines).flatMap input.programs

/-- The error exit behind a directory that was opened goes on to the next line without the `close` and with the numbers changed. -/
theorem parse_isolated_iff (text : input.text = lines.flatMap Line.text) :
    Isolated input lines ↔ ∀ placed ∈ place 0 lines, ¬ Torn (input.dirAnswers placed) := by
  constructor
  · intro isolated
    by_contra torn
    push Not at torn
    have has := input.has_text
    rw [text] at has
    obtain ⟨t, comes, mode, strStart, leaks⟩ := @comes_torn input lines [] [] 0 otherFdStart has torn rfl
    exact leaks (isolated.1 t comes mode strStart)
  · intro clean
    obtain ⟨t, through, exits, state, calls⟩ := parse_clean text clean
    have closed : Closed t := fun mode => by
      rw [state] at mode
      cases mode
    refine ⟨fun u comes mode _ => through.everywhere exits closed comes mode, t, through.comes, exits, ?_⟩
    rw [calls, served_lines clean]

end

/-- `spawn:/a/b/c`. -/
def deepLine : Line := ⟨[[0x61#8], [0x62#8]], [0x63#8], by decide⟩

/-- `spawn:/d`. -/
def flatLine : Line := ⟨[], [0x64#8], by decide⟩

/-- Both lines behind each other, in a file system where everything but the name that ends at a position can be opened. -/
def twoLines (missing : Nat) : Input := .of ([deepLine, flatLine].flatMap Line.text) (· != missing) fun _ => true

theorem twoLines_text (missing : Nat) : (twoLines missing).text = [deepLine, flatLine].flatMap Line.text := Input.text_of _ _ _

theorem parse_spawns_two : ∃ t calls, Comes (parseRound (twoLines 0)) init t ∧ parseRound (twoLines 0) t = .exit t ∧
    t.parserState = .parseEnd ∧ t.calls = (place 0 [deepLine, flatLine]).flatMap calls ∧
    ∀ placed ∈ place 0 [deepLine, flatLine], Spawns (twoLines 0) placed (calls placed) :=
  parse_spawns (twoLines_text 0) (by decide)

/-- Without the directory `a`. -/
theorem parse_isolated_two : Isolated (twoLines 8) [deepLine, flatLine] :=
  (parse_isolated_iff (twoLines_text 8)).mpr fun placed member => by
    have answers : (twoLines 8).dirAnswers placed = [false, true] ∨ (twoLines 8).dirAnswers placed = [] := by
      revert placed
      decide
    rintro ⟨later, same, -⟩
    rcases answers with deep | flat
    · rw [deep] at same
      cases same
    · rw [flat] at same
      cases same

/-- Without `b` in it, `a` is open under the number 7 when the next line begins. -/
theorem directory_leaks : (twoLines 10).text = [deepLine, flatLine].flatMap Line.text ∧
    ∃ t, Comes (parseRound (twoLines 10)) init t ∧ t.parserState = .parseMode ∧ t.strStart = t.pos ∧
      (served t.calls).2 7 = some [[0x61#8]] := by
  refine ⟨twoLines_text 10, ?_⟩
  have has := (twoLines 10).has_text
  rw [twoLines_text] at has
  obtain ⟨reads, through⟩ := @leads_line (twoLines 10) [] 0 6 7 deepLine (Input.has_append.mp has).1 []
  have leaked : (served ([] ++ (twoLines 10).lineCalls (0, deepLine) 7)).2 7 = some [[0x61#8]] := by decide
  exact ⟨_, through.comes, rfl, rfl, leaked⟩

end BradypOS.Root.Inittab
