import BradypOS.Romfs.Server
import BradypOS.Romfs.Walk
import BradypOS.Theory.Chain
import BradypOS.Theory.CString

/-!
# Lookup by name

What `romfs_openat` finds, in terms of the bytes of an image: the directory is a list of headers, linked
by their next pointers, and the search returns the first one with the name.
-/

namespace BradypOS.Romfs

open Theory (Turn loop Reaches Path Chain Terminated)

/-! ### Headers -/

/-- The interface maps every range, and what it maps are the bytes of the image. -/
def ReadsImage (iface : BlockIface) (image : Word → Byte) : Prop :=
  ∀ offset n, ∃ data, iface.map offset n = some data ∧ ∀ i < n, data i = image (offset + BitVec.ofNat 32 i)

section Header
variable (image : Word → Byte) (file : Word)

def headerWord (i : Nat) : Word := readBigEndian fun j => image (file + BitVec.ofNat 32 (i + j))

def typeOf : FileType := FileType.ofWord (headerWord image file 0)
def nextOf : Word := headerWord image file 0 &&& ~~~15#32
def infoOf : Word := headerWord image file 4

def nameByte (i : Nat) : Byte := image (file + BitVec.ofNat 32 (16 + i))

/-- The name field up to its first NUL. -/
def nameOf : List Byte := ((List.range 16).map (nameByte image file)).takeWhile (· ≠ 0#8)

end Header

variable {iface : BlockIface} {image : Word → Byte} {behind : Nat → Byte} {name : List Byte} {file p : Word}

theorem readBigEndian_congr {data data' : Nat → Byte} (same : ∀ i < 4, data i = data' i) : readBigEndian data = readBigEndian data' := by
  unfold readBigEndian
  rw [same 0 (by decide), same 1 (by decide), same 2 (by decide), same 3 (by decide)]

theorem romfsOps_reads (byte : Word → Byte) (base : Word) : ReadsImage (Server.romfsOps byte base) fun offset => byte (base + offset) := by
  intro offset n
  refine ⟨_, rfl, fun i _ => ?_⟩
  show byte (base + offset + BitVec.ofNat 32 i) = byte (base + (offset + BitVec.ofNat 32 i))
  rw [BitVec.add_assoc]

theorem romfsFileInfo_reads (reads : ReadsImage iface image) (file : Word) : ∃ info, romfsFileInfo iface file = some info ∧
    info.type = typeOf image file ∧ info.info = infoOf image file ∧ ∀ i : Fin 16, info.name i = nameByte image file i := by
  obtain ⟨data, mapped, bytes⟩ := reads file 32
  have word : ∀ i ≤ 28, readBigEndian (fun j => data (i + j)) = headerWord image file i := fun i le =>
    readBigEndian_congr fun j less => bytes (i + j) (by omega)
  have first : readBigEndian data = headerWord image file 0 := by
    rw [← word 0 (by decide)]
    simp only [Nat.zero_add]
  unfold romfsFileInfo
  rw [mapped]
  refine ⟨_, rfl, ?_, word 4 (by decide), fun i => bytes (16 + i) (by omega)⟩
  show FileType.ofWord (readBigEndian data) = _
  rw [first]
  rfl

theorem romfsNextFile_reads (reads : ReadsImage iface image) (file : Word) : romfsNextFile iface file = nextOf image file := by
  obtain ⟨data, mapped, bytes⟩ := reads file 16
  have first : readBigEndian data = headerWord image file 0 := by
    apply readBigEndian_congr
    intro j less
    rw [Nat.zero_add]
    exact bytes j (by omega)
  unfold romfsNextFile
  rw [mapped]
  dsimp only
  rw [first]
  rfl

/-! ### Names -/

theorem compares_strcmp : Theory.Compares 0#8 strcmp where
  nil s := by
    rw [strcmp, Int.natCast_eq_zero]
    exact BitVec.toNat_inj (y := 0#8)
  agree s c rest same live := by
    have goes_on : ¬ (s 0 = 0#8 ∨ ((s 0).toNat : Int) - c.toNat ≠ 0) := by
      rw [same]
      rintro (ends | different)
      · exact live ends
      · omega
    rw [strcmp, if_neg goes_on]
  differ s c rest other := by
    have different : ((s 0).toNat : Int) - c.toNat ≠ 0 := fun equal => other (BitVec.eq_of_toNat_eq (by omega))
    rw [strcmp, if_pos (.inr different)]
    exact different

/-- With a NUL in the field, what lies behind it does not matter. -/
theorem strcmp_name {info : FileInfo} (bytes : ∀ i : Fin 16, info.name i = nameByte image file i) (behind : Nat → Byte)
    (ends : ∃ i < 16, nameByte image file i = 0#8) (noNul : 0#8 ∉ name) :
    strcmp (info.nameString behind) name = 0 ↔ nameOf image file = name := by
  have inside : ∀ i < 16, info.nameString behind i = nameByte image file i := by
    intro i less
    rw [FileInfo.nameString, dif_pos less]
    exact bytes ⟨i, less⟩
  have field : Terminated 0#8 (info.nameString behind) (nameOf image file) := by
    have same : (List.range 16).map (nameByte image file) = (List.range 16).map (info.nameString behind) :=
      List.map_congr_left fun i member => (inside i (List.mem_range.mp member)).symm
    obtain ⟨i, less, nul⟩ := ends
    rw [nameOf, same]
    exact Terminated.takeWhile ⟨i, Nat.le_of_lt less, (inside i less).trans nul⟩
  rw [compares_strcmp.eq_zero_iff noNul]
  constructor
  · exact field.unique
  · intro same
    rw [← same]
    exact field

/-! ### The search -/

theorem walkRound_entry (reads : ReadsImage iface image) (behind : Nat → Byte) (live : file ≠ invalidFile)
    (ends : ∃ i < 16, nameByte image file i = 0#8) (noNul : 0#8 ∉ name) :
    walkRound iface behind name file = if nameOf image file = name then .exit file else .next (nextOf image file) := by
  obtain ⟨info, read, -, -, bytes⟩ := romfsFileInfo_reads reads file
  rw [walkRound, if_neg live, read]
  dsimp only
  rw [romfsNextFile_reads reads]
  simp only [strcmp_name bytes behind ends noNul]

/-- Along a list that ends the walk comes to the first entry with the name, or to the end. -/
theorem walk_finds (reads : ReadsImage iface image) (behind : Nat → Byte) (noNul : 0#8 ∉ name) {entries : List Word}
    (path : Path (nextOf image) p entries invalidFile) (live : invalidFile ∉ entries)
    (ends : ∀ e ∈ entries, ∃ i < 16, nameByte image e i = 0#8) :
    ∃ n t, Reaches (walkRound iface behind name) n p t ∧
      walkRound iface behind name t = .exit ((entries.find? fun e => nameOf image e = name).getD invalidFile) := by
  induction entries generalizing p with
  | nil =>
    obtain rfl : p = invalidFile := path
    exact ⟨0, invalidFile, Reaches.refl _, walkRound_null⟩
  | cons e entries ih =>
    obtain ⟨rfl, rest⟩ := path
    rw [List.mem_cons, not_or] at live
    have round := walkRound_entry reads behind (Ne.symm live.1) (ends p (by simp)) noNul
    by_cases here : nameOf image p = name
    · rw [if_pos here] at round
      refine ⟨0, p, Reaches.refl p, ?_⟩
      rw [round, List.find?_cons_of_pos (by simpa using here), Option.getD_some]
    · rw [if_neg here] at round
      obtain ⟨n, t, reached, step⟩ := ih rest live.2 fun e member => ends e (by simp [member])
      refine ⟨n + 1, t, (Theory.loop_next round n).trans reached, ?_⟩
      rw [step, List.find?_cons_of_neg (by simpa using here)]

/-- In a directory whose list ends and whose names fit into their fields, the search finds the first entry with the name; where
there is none, and in anything but a directory, it finds nothing. -/
theorem openat_finds (reads : ReadsImage iface image) (behind : Nat → Byte) (file : Word) (noNul : 0#8 ∉ name) :
    (typeOf image file ≠ .directory → romfsOpenat iface behind file name = .ok invalidFile) ∧
      (typeOf image file = .directory → ∀ entries, Chain (nextOf image) invalidFile (infoOf image file) entries →
        (∀ e ∈ entries, ∃ i < 16, nameByte image e i = 0#8) →
        romfsOpenat iface behind file name = .ok ((entries.find? fun e => nameOf image e = name).getD invalidFile)) := by
  obtain ⟨info, read, type, first, -⟩ := romfsFileInfo_reads reads file
  constructor
  · intro other
    rw [← type] at other
    exact romfsOpenat_other read other
  · intro dir entries chain ends
    rw [← first] at chain
    obtain ⟨n, t, reached, step⟩ := walk_finds reads behind noNul chain.path chain.live ends
    exact romfsOpenat_of_exit read (by rwa [type]) reached step

/-- The root directory has a file `a` and behind it a file `b`. -/
def twoFiles (offset : Word) : Byte :=
  if offset = 35#32 then 1#8 else if offset = 39#32 then 64#8 else if offset = 67#32 then 98#8 else if offset = 80#32 then 0x61#8
  else if offset = 99#32 then 2#8 else if offset = 112#32 then 0x62#8 else 0#8

theorem openat_finds_second : romfsOpenat (Server.romfsOps twoFiles 0#32) (fun _ => 0#8) romfsRootDirectory [0x62#8] = .ok 96#32 := by
  have ends : nextOf (fun offset => twoFiles (0#32 + offset)) 96#32 = invalidFile := by decide
  have chain : Chain (nextOf fun offset => twoFiles (0#32 + offset)) invalidFile
      (infoOf (fun offset => twoFiles (0#32 + offset)) romfsRootDirectory) [64#32, 96#32] :=
    ⟨⟨by decide, by decide, ends⟩, by decide⟩
  have short : ∀ e ∈ [64#32, 96#32], ∃ i < 16, nameByte (fun offset => twoFiles (0#32 + offset)) e i = 0#8 := by
    intro e member
    refine ⟨1, by decide, ?_⟩
    rcases List.mem_pair.mp member with rfl | rfl <;> decide
  exact (openat_finds (romfsOps_reads twoFiles 0#32) (fun _ => 0#8) romfsRootDirectory (by decide)).2 (by decide) _ chain short

end BradypOS.Romfs
