import BradypOS.Romfs.Lookup
import BradypOS.Romfs.Operation

/-!
# What a client has open

To a client the table is a map from its descriptors to files. Opening adds to the map and closing takes away, as long as
the probe sequence of a new descriptor comes to a place that is not in use.
-/

namespace BradypOS.Romfs

open L4 Vfs Theory.Probing

open Theory (Chain)

/-! ### Directories -/

/-- `dir` is a directory with these entries, and every name ends in its field. -/
structure Lists (image : Word → Byte) (dir : Word) (entries : List Word) : Prop where
  type : typeOf image dir = .directory
  chain : Chain (nextOf image) invalidFile (infoOf image dir) entries
  ends : ∀ e ∈ entries, ∃ i < 16, nameByte image e i = 0#8

def entryNamed (image : Word → Byte) (name : List Byte) (entries : List Word) : Option Word :=
  entries.find? fun e => nameOf image e = name

def SameHeader (image image' : Word → Byte) (file : Word) : Prop :=
  ∀ i < 32, image' (file + BitVec.ofNat 32 i) = image (file + BitVec.ofNat 32 i)

section Header
variable {image image' : Word → Byte} {file dir : Word} {entries : List Word} {name : List Byte}

theorem SameHeader.headerWord (same : SameHeader image image' file) {i : Nat} (inside : i + 4 ≤ 32) :
    headerWord image' file i = headerWord image file i :=
  readBigEndian_congr fun j less => same (i + j) (by omega)

theorem SameHeader.nameByte (same : SameHeader image image' file) {i : Nat} (inside : i < 16) : nameByte image' file i = nameByte image file i :=
  same (16 + i) (by omega)

theorem SameHeader.nameOf (same : SameHeader image image' file) : nameOf image' file = nameOf image file := by
  have field : (List.range 16).map (Romfs.nameByte image' file) = (List.range 16).map (Romfs.nameByte image file) := by
    apply List.map_congr_left
    intro i member
    exact same.nameByte (List.mem_range.mp member)
  rw [Romfs.nameOf, field]
  rfl

theorem SameHeader.nextOf (same : SameHeader image image' file) : nextOf image' file = nextOf image file := by
  rw [Romfs.nextOf, same.headerWord (by decide)]
  rfl

theorem SameHeader.infoOf (same : SameHeader image image' file) : infoOf image' file = infoOf image file := same.headerWord (by decide)

theorem Lists.frame (lists : Lists image dir entries) (same : ∀ e ∈ dir :: entries, SameHeader image image' e) :
    Lists image' dir entries := by
  have here := same dir List.mem_cons_self
  have there : ∀ e ∈ entries, SameHeader image image' e := fun e member => same e (List.mem_cons_of_mem dir member)
  refine ⟨?_, ⟨?_, lists.chain.live⟩, ?_⟩
  · rw [typeOf, here.headerWord (by decide)]
    exact lists.type
  · rw [here.infoOf]
    exact lists.chain.path.frame fun e member => (there e member).nextOf
  · intro e member
    obtain ⟨i, inside, ends⟩ := lists.ends e member
    exact ⟨i, inside, ((there e member).nameByte inside).trans ends⟩

theorem entryNamed_congr (same : ∀ e ∈ entries, SameHeader image image' e) : entryNamed image' name entries = entryNamed image name entries := by
  unfold entryNamed
  induction entries with
  | nil => rfl
  | cons e entries ih =>
    have rest := ih fun e member => same e (List.mem_cons_of_mem _ member)
    rw [List.find?_cons, List.find?_cons, rest, (same e List.mem_cons_self).nameOf]

end Header

/-! ### Open files -/

/-- An open file: its place in the table, and what the server keeps of it. -/
structure OpenFile where
  place : Fin fileStateCount
  fileOff : Word
  fileInfo : FileInfo

def openFile (states : FileStates) (client fd : Word) : Option OpenFile :=
  (findVfsFileState states client fd).map fun i => ⟨i, (states i).fileOff, (states i).fileInfo⟩

/-- The entry that `install` makes. -/
def entryOf (client fd fileOff : Word) (fileInfo : FileInfo) : VfsFileState := { status := .used, owner := client, fd, fileInfo, fileOff }

/-- To this client the table is a map. -/
structure HasOpen (states : FileStates) (client : Word) (files : Word → Option OpenFile) : Prop where
  complete : Complete view probes states
  sole : ∀ fd i j, view.Holds (states i) (client, fd) → view.Holds (states j) (client, fd) → i = j
  files : ∀ fd, openFile states client fd = files fd

section Files
variable {states states' : FileStates} {client fd : Word} {files : Word → Option OpenFile} {f : OpenFile} {i : Fin fileStateCount}
  {fileOff : Word} {info : FileInfo} {iface : BlockIface} {image : Word → Byte}

theorem openFile_eq_some (isOpen : openFile states client fd = some f) :
    findVfsFileState states client fd = some f.place ∧ (states f.place).fileOff = f.fileOff ∧ (states f.place).fileInfo = f.fileInfo := by
  obtain ⟨i, found, rfl⟩ := Option.map_eq_some_iff.mp isOpen
  exact ⟨found, rfl, rfl⟩

theorem HasOpen.absent (h : HasOpen states client files) (closed : files fd = none) (i : Fin fileStateCount) :
    ¬ view.Holds (states i) (client, fd) := by
  intro holds
  obtain ⟨j, found⟩ := h.complete.lookup_iff.mpr ⟨i, holds⟩
  have isOpen : openFile states client fd = some ⟨j, (states j).fileOff, (states j).fileInfo⟩ := congrArg (Option.map _) found
  rw [h.files, closed] at isOpen
  cases isOpen

/-- A change where neither the old nor the new entry is the client's for `fd`. -/
theorem openFile_update {e : VfsFileState} (complete : Complete view probes states) (busy : e.status ≠ .free)
    (before : ¬ view.Holds (states i) (client, fd)) (after : ¬ view.Holds e (client, fd)) :
    openFile (Function.update states i e) client fd = openFile states client fd := by
  have same : findVfsFileState (Function.update states i e) client fd = findVfsFileState states client fd :=
    complete.lookup_update busy before after
  unfold openFile
  rw [same]
  cases here : findVfsFileState states client fd with
  | none => rfl
  | some j =>
    have other : j ≠ i := by
      rintro rfl
      exact before (lookup_holds here)
    simp only [Option.map_some, Function.update_of_ne other]

theorem HasOpen.install (h : HasOpen states client files) (closed : files fd = none)
    (point : findVfsFileStateInsertionPoint states client fd = some i) (vacant : (states i).status ≠ .used) :
    HasOpen (Function.update states i (entryOf client fd fileOff info)) client (Function.update files fd (some ⟨i, fileOff, info⟩)) := by
  have holds : view.Holds (entryOf client fd fileOff info) (client, fd) := ⟨rfl, rfl⟩
  have before : ∀ k, ¬ view.Holds (states i) k := fun k here => vacant here.1
  refine ⟨h.complete.insert point holds, ?_, ?_⟩
  · intro fd' a b first second
    by_cases same : fd' = fd
    · subst same
      by_cases here : a = i
      · by_cases there : b = i
        · rw [here, there]
        · exact absurd ((holds_update_other there).mp second) (h.absent closed b)
      · exact absurd ((holds_update_other here).mp first) (h.absent closed a)
    · have off : ∀ j, view.Holds (Function.update states i (entryOf client fd fileOff info) j) (client, fd') → j ≠ i := by
        rintro j holds' rfl
        rw [holds_update_same] at holds'
        exact same (congrArg Prod.snd (holds'.key_eq holds))
      exact h.sole fd' a b ((holds_update_other (off a first)).mp first) ((holds_update_other (off b second)).mp second)
  · intro fd'
    by_cases same : fd' = fd
    · subst same
      have found : findVfsFileState (Function.update states i (entryOf client fd' fileOff info)) client fd' = some i :=
        h.complete.lookup_insert (h.absent closed) point holds
      rw [openFile, found, Option.map_some, Function.update_self, Function.update_self]
      rfl
    · rw [Function.update_of_ne same, ← h.files fd']
      apply openFile_update h.complete _ (before _)
      · exact fun holds' => same (congrArg Prod.snd (holds'.key_eq holds))
      · exact nofun

theorem HasOpen.close (h : HasOpen states client files) (isOpen : files fd = some f) :
    ∃ states', closeFile states client fd = .ok states' ∧ states' = Function.update states f.place { states f.place with status := .tombstone } ∧
      HasOpen states' client (Function.update files fd none) := by
  obtain ⟨found, -, -⟩ := openFile_eq_some ((h.files fd).trans isOpen)
  have here : view.Holds (states f.place) (client, fd) := lookup_holds found
  refine ⟨_, by rw [closeFile, found], rfl, h.complete.delete rfl, ?_, ?_⟩
  · intro fd' a b first second
    have off : ∀ j, view.Holds (Function.update states f.place { states f.place with status := .tombstone } j) (client, fd') → j ≠ f.place := by
      rintro j holds rfl
      rw [holds_update_same] at holds
      cases holds.1
    exact h.sole fd' a b ((holds_update_other (off a first)).mp first) ((holds_update_other (off b second)).mp second)
  · intro fd'
    by_cases same : fd' = fd
    · subst same
      have gone : findVfsFileState (Function.update states f.place { states f.place with status := .tombstone }) client fd' = none :=
        lookup_delete (fun j holds => h.sole fd' j f.place holds here) nofun
      rw [openFile, gone, Function.update_self]
      rfl
    · rw [Function.update_of_ne same, ← h.files fd']
      apply openFile_update (e := { states f.place with status := .tombstone }) h.complete (by rintro ⟨⟩)
      · exact fun holds => same (congrArg Prod.snd (holds.key_eq here))
      · exact fun holds => nomatch holds.1

theorem HasOpen.of_free (free : ∀ i, (states i).status = .free) : HasOpen states client fun _ => none := by
  have never : ∀ i k, ¬ view.Holds (states i) k := by
    rintro i k ⟨used, -⟩
    cases used.symm.trans (free i)
  refine ⟨fun i k holds => absurd holds (never i k), fun fd i _ holds => absurd holds (never i _), fun fd => ?_⟩
  cases found : findVfsFileState states client fd with
  | none => rw [openFile, found, Option.map_none]
  | some i => exact absurd (lookup_holds found) (never i _)

/-! ### Room -/

theorem probes_nodup (key : Word × Word) : (probes key).Nodup := by
  refine List.Nodup.map_on ?_ List.nodup_range
  intro a first b second same
  have first : a < 5 := List.mem_range.mp first
  have second : b < 5 := List.mem_range.mp second
  have index : ((hashCombine key.1 key.2).toNat % 32 + a * a) % 32 = ((hashCombine key.1 key.2).toNat % 32 + b * b) % 32 :=
    congrArg Fin.val same
  generalize (hashCombine key.1 key.2).toNat % 32 = n at index
  interval_cases a <;> interval_cases b <;> omega

/-- At least `n` places of the probe sequence are not in use. -/
def Room (states : FileStates) (client fd : Word) (n : Nat) : Prop :=
  n ≤ ((probes (client, fd)).filter fun i => decide ((states i).status ≠ .used)).length

instance (states : FileStates) (client fd : Word) (n : Nat) : Decidable (Room states client fd n) := Nat.decLe _ _

/-- Only these places are in use now that were not before. -/
def UsesOnly (before states : FileStates) (own : List (Fin fileStateCount)) : Prop :=
  ∀ i, (states i).status = .used → (before i).status = .used ∨ i ∈ own

theorem UsesOnly.vacant {before : FileStates} {own : List (Fin fileStateCount)} {n : Nat} (h : UsesOnly before states own)
    (room : Room before client fd n) (few : own.length < n) : ∃ i ∈ probes (client, fd), (states i).status ≠ .used := by
  by_contra full
  push Not at full
  have taken : (probes (client, fd)).filter (fun i => decide ((before i).status ≠ .used)) ⊆ own := by
    intro i member
    obtain ⟨member, idle⟩ := List.mem_filter.mp member
    exact (h i (full i member)).resolve_left (of_decide_eq_true idle)
  have count := ((probes_nodup (client, fd)).filter _).subperm taken |>.length_le
  exact absurd (room.trans count) (by omega)

theorem UsesOnly.install {before : FileStates} {own : List (Fin fileStateCount)} (h : UsesOnly before states own) (e : VfsFileState) :
    UsesOnly before (Function.update states i e) (i :: own) := by
  intro j used
  by_cases here : j = i
  · exact .inr (here ▸ List.mem_cons_self)
  · rw [Function.update_of_ne here] at used
    exact (h j used).imp_right (List.mem_cons_of_mem i)

theorem UsesOnly.close {before : FileStates} {own : List (Fin fileStateCount)} (h : UsesOnly before states own) :
    UsesOnly before (Function.update states i { states i with status := .tombstone }) (own.filter (· ≠ i)) := by
  intro j used
  have other : j ≠ i := by
    rintro rfl
    rw [Function.update_self] at used
    cases used
  rw [Function.update_of_ne other] at used
  exact (h j used).imp_right fun member => List.mem_filter.mpr ⟨member, decide_eq_true other⟩

/-! ### Opening -/

theorem HasOpen.installFile (h : HasOpen states client files) (closed : files fd = none)
    (vacant : ∃ i ∈ probes (client, fd), (states i).status ≠ .used) (read : romfsFileInfo iface fileOff = some info) :
    ∃ i, Romfs.installFile iface states client fd fileOff = .ok (Function.update states i (entryOf client fd fileOff info)) ∧
      HasOpen (Function.update states i (entryOf client fd fileOff info)) client (Function.update files fd (some ⟨i, fileOff, info⟩)) := by
  obtain ⟨i, point, idle⟩ := insertionPoint_vacant (h.absent closed) vacant
  have unused : (states i).status ≠ .used := idle
  refine ⟨i, ?_, h.install closed point unused⟩
  have point : findVfsFileStateInsertionPoint states client fd = some i := point
  rw [Romfs.installFile, point]
  dsimp only
  rw [if_neg unused, read]
  rfl

theorem HasOpen.openFileAt (h : HasOpen states client files) (reads : ReadsImage iface image) (behind : Nat → Byte) {newFd file : Word}
    {entries : List Word} {name : List Byte} (isOpen : files fd = some f) (lists : Lists image f.fileOff entries)
    (named : entryNamed image name entries = some file) (noNul : 0#8 ∉ name) (closed : files newFd = none)
    (vacant : ∃ i ∈ probes (client, newFd), (states i).status ≠ .used) :
    ∃ i info, romfsFileInfo iface file = some info ∧
      Romfs.openFileAt iface states client fd behind newFd name =
        .ok (.ok (Function.update states i (entryOf client newFd file info))) ∧
      HasOpen (Function.update states i (entryOf client newFd file info)) client (Function.update files newFd (some ⟨i, file, info⟩)) := by
  obtain ⟨found, off, -⟩ := openFile_eq_some ((h.files fd).trans isOpen)
  obtain ⟨info, read, -⟩ := romfsFileInfo_reads reads file
  obtain ⟨i, installed, has⟩ := h.installFile closed vacant read
  refine ⟨i, info, read, ?_, has⟩
  have searched := (openat_finds reads behind f.fileOff noNul).2 lists.type entries lists.chain lists.ends
  rw [show entries.find? (fun e => nameOf image e = name) = some file from named, Option.getD_some] at searched
  have live : file ≠ invalidFile := fun same => lists.chain.live (same ▸ List.mem_of_find?_eq_some named)
  unfold Romfs.openFileAt
  rw [found]
  dsimp only
  rw [off, searched]
  change (if file = invalidFile then _ else _) = _
  rw [if_neg live, installed]

end Files

end BradypOS.Romfs
