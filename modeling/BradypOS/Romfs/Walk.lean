import BradypOS.Romfs.Image
import BradypOS.Theory.Align
import BradypOS.Theory.Loop

/-!
# The walk along a directory

`romfs_openat` follows the next pointers of an image until it comes to the name, to the null offset or to
a header that it cannot read. Nothing bounds the walk but the image: an image whose pointers go round in a
circle keeps it going.
-/

namespace BradypOS.Romfs

open Theory (Turn loop Reaches ComesBack)

/-- One round of the loop of `romfs_openat`. -/
def walkRound (iface : BlockIface) (behind : Nat → Byte) (name : List Byte) (currentFile : Word) : Turn Word Word :=
  if currentFile = invalidFile then .exit invalidFile
  else
    match romfsFileInfo iface currentFile with
    | none => .next (romfsNextFile iface currentFile)
    | some fileInfo =>
      if strcmp (fileInfo.nameString behind) name = 0 then .exit currentFile else .next (romfsNextFile iface currentFile)

def answer : Turn Word Word → Fallible Word
  | .next _ => .error .hang
  | .exit r => .ok r

variable {iface : BlockIface} {behind : Nat → Byte} {name : List Byte} {p q t r : Word} {n m : Nat}

theorem romfsOpenatLoop_eq (fuel : Nat) (p : Word) :
    romfsOpenatLoop iface behind name fuel p = answer (loop (walkRound iface behind name) fuel p) := by
  induction fuel generalizing p with
  | zero => rfl
  | succ fuel ih =>
    unfold romfsOpenatLoop loop walkRound
    by_cases null : p = invalidFile
    · simp [null, answer]
    · simp only [null, if_false]
      cases romfsFileInfo iface p with
      | none => exact ih _
      | some info =>
        dsimp only
        split
        · rfl
        · exact ih _

theorem walkRound_null : walkRound iface behind name invalidFile = .exit invalidFile := by simp [walkRound]

theorem walkRound_next (step : walkRound iface behind name p = .next q) : p ≠ invalidFile ∧ q = romfsNextFile iface p := by
  unfold walkRound at step
  split at step
  · cases step
  · rename_i live
    refine ⟨live, ?_⟩
    split at step
    · cases step
      rfl
    · split at step
      · cases step
      · cases step
        rfl

theorem romfsNextFile_aligned (iface : BlockIface) (p : Word) : (romfsNextFile iface p).toNat % 16 = 0 := by
  unfold romfsNextFile
  split
  · rfl
  · rename_i data _
    have cleared := Theory.toNat_clear_low (k := 4) (readBigEndian data) 15#32 rfl
    rw [cleared]
    exact Nat.mul_mod_left _ _

/-! ### How far a walk goes -/

/-- Where a walk can come to: its first offset, and the units of 16 bytes below a bound. -/
def walkUnits (p : Word) (units : Nat) : Finset Word :=
  insert p (((Finset.range units).erase 0).image fun i => BitVec.ofNat 32 (16 * i))

theorem card_walkUnits (p : Word) (positive : 0 < m) : (walkUnits p m).card ≤ m := by
  have images := Finset.card_image_le (s := (Finset.range m).erase 0) (f := fun i => BitVec.ofNat 32 (16 * i))
  rw [Finset.card_erase_of_mem (Finset.mem_range.mpr positive), Finset.card_range] at images
  have whole := Finset.card_insert_le p (((Finset.range m).erase 0).image fun i => BitVec.ofNat 32 (16 * i))
  unfold walkUnits
  omega

theorem mem_walkUnits {u : Word} (live : u ≠ invalidFile) (place : u = p ∨ u.toNat % 16 = 0) (below : u.toNat / 16 < m) :
    u ∈ walkUnits p m := by
  rcases place with rfl | aligned
  · exact Finset.mem_insert_self _ _
  · apply Finset.mem_insert_of_mem
    have whole : 16 * (u.toNat / 16) = u.toNat := by omega
    refine Finset.mem_image.mpr ⟨u.toNat / 16, Finset.mem_erase.mpr ⟨fun zero => live ?_, Finset.mem_range.mpr below⟩, ?_⟩
    · rw [zero] at whole
      exact BitVec.eq_of_toNat_eq whole.symm
    · rw [whole, BitVec.ofNat_toNat, BitVec.setWidth_eq]

/-- All offsets of a walk but the last one are followed by a header that the interface maps. -/
theorem walk_le (reached : Reaches (walkRound iface behind name) n p t) (fresh : ¬ ComesBack (walkRound iface behind name) p)
    (S : Finset Word)
    (inside : ∀ u, u ≠ invalidFile → u = p ∨ u.toNat % 16 = 0 → romfsNextFile iface u ≠ invalidFile → u ∈ S) : n ≤ S.card + 1 := by
  cases n with
  | zero => exact Nat.zero_le _
  | succ k =>
    obtain ⟨u, before, last⟩ := reached.before
    apply Nat.succ_le_succ
    apply before.le_card fresh
    intro i early v there
    obtain ⟨w, step, further⟩ := before.onward early there
    obtain ⟨live, next⟩ := walkRound_next step
    apply inside v live
    · cases i with
      | zero => exact .inl (Turn.next.inj there).symm
      | succ i =>
        obtain ⟨x, _, from_⟩ := there.before
        rw [(walkRound_next from_).2]
        exact .inr (romfsNextFile_aligned iface x)
    · rw [← next]
      -- one more round leads on from the next offset, so that it is not null
      have onward : ∃ x, walkRound iface behind name w = .next x := by
        rcases Nat.lt_or_eq_of_le (Nat.succ_le_of_lt early) with more | here
        · obtain ⟨x, onward, _⟩ := before.onward more further
          exact ⟨x, onward⟩
        · obtain rfl : i + 1 = k := here
          rw [further.unique before]
          exact ⟨t, last⟩
      obtain ⟨x, onward⟩ := onward
      exact (walkRound_next onward).1

/-- The offsets are words, so a walk that does not come back stays within the bound. -/
theorem walk_bounded (reached : Reaches (walkRound iface behind name) n p t) (fresh : ¬ ComesBack (walkRound iface behind name) p) :
    n < walkBound := by
  have few := walk_le reached fresh (walkUnits p (2 ^ 28)) fun u live place _ =>
    mem_walkUnits live place (by have := u.isLt; omega)
  have count := card_walkUnits p (m := 2 ^ 28) (by decide)
  unfold walkBound
  omega

/-! ### When the search of a directory ends -/

theorem answer_ok {turn : Turn Word Word} (h : answer turn = .ok r) : turn = .exit r := by
  cases turn with
  | next t => cases h
  | exit q =>
    cases h
    rfl

theorem openatLoop_exits {fuel : Nat} (returned : romfsOpenatLoop iface behind name fuel p = .ok r) :
    ∃ n t, Reaches (walkRound iface behind name) n p t ∧ walkRound iface behind name t = .exit r := by
  rw [romfsOpenatLoop_eq] at returned
  obtain ⟨n, t, -, reached, step⟩ := Theory.exits_of_loop (answer_ok returned)
  exact ⟨n, t, reached, step⟩

theorem openatLoop_endless (back : ComesBack (walkRound iface behind name) p) (fuel : Nat) :
    romfsOpenatLoop iface behind name fuel p = .error .hang := by
  rw [romfsOpenatLoop_eq]
  cases turn : loop (walkRound iface behind name) fuel p with
  | next t => rfl
  | exit r =>
    obtain ⟨n, t, -, reached, step⟩ := Theory.exits_of_loop turn
    exact absurd back (reached.not_comesBack step)

section
variable {file : Word} {info : FileInfo} (read : romfsFileInfo iface file = some info)
include read

theorem romfsOpenat_directory (dir : info.type = .directory) :
    romfsOpenat iface behind file name = romfsOpenatLoop iface behind name walkBound info.info := by
  rw [romfsOpenat, read]
  dsimp only
  rw [if_neg (by simp [dir])]

theorem romfsOpenat_other (other : info.type ≠ .directory) : romfsOpenat iface behind file name = .ok invalidFile := by
  rw [romfsOpenat, read]
  dsimp only
  rw [if_pos other]

theorem romfsOpenat_of_exit (dir : info.type = .directory) (reached : Reaches (walkRound iface behind name) n info.info t)
    (step : walkRound iface behind name t = .exit r) : romfsOpenat iface behind file name = .ok r := by
  rw [romfsOpenat_directory read dir, romfsOpenatLoop_eq, reached.exits step (walk_bounded reached (reached.not_comesBack step))]
  rfl

/-- The search of a directory comes to an end if its walk does. -/
theorem romfsOpenat_returns (fresh : info.type = .directory → ¬ ComesBack (walkRound iface behind name) info.info) :
    ∃ r, romfsOpenat iface behind file name = .ok r := by
  by_cases dir : info.type = .directory
  · obtain ⟨n, t, r, reached, step⟩ := Theory.exits_of_bounded fun n t reached => walk_bounded reached (fresh dir)
    exact ⟨r, romfsOpenat_of_exit read dir reached step⟩
  · exact ⟨invalidFile, romfsOpenat_other read dir⟩

theorem romfsOpenat_exits (dir : info.type = .directory) (returned : romfsOpenat iface behind file name = .ok r) :
    ∃ n t, Reaches (walkRound iface behind name) n info.info t ∧ walkRound iface behind name t = .exit r := by
  rw [romfsOpenat_directory read dir] at returned
  exact openatLoop_exits returned

end

/-- The interface maps nothing behind the end of an image. -/
def MapsWithin (iface : BlockIface) (size : Nat) : Prop := ∀ offset n data, iface.map offset n = some data → offset.toNat + n ≤ size

theorem mapped_of_next (next : romfsNextFile iface p ≠ invalidFile) : ∃ data, iface.map p 16 = some data := by
  unfold romfsNextFile at next
  split at next
  · exact absurd rfl next
  · rename_i data mapped
    exact ⟨data, mapped⟩

/-- In an image the walk passes no more offsets than the image has units, and one behind its end. -/
theorem walk_le_units {size : Nat} (within : MapsWithin iface size) (reached : Reaches (walkRound iface behind name) n p t)
    (fresh : ¬ ComesBack (walkRound iface behind name) p) : n ≤ size / 16 + 1 := by
  have fits : ∀ u, romfsNextFile iface u ≠ invalidFile → u.toNat + 16 ≤ size := by
    intro u next
    obtain ⟨data, mapped⟩ := mapped_of_next next
    exact within u 16 data mapped
  rcases Nat.eq_zero_or_pos (size / 16) with none_ | some_
  · apply (walk_le reached fresh ∅ _).trans
    · simp
    · intro u _ _ next
      have := fits u next
      omega
  · have few := walk_le reached fresh (walkUnits p (size / 16)) fun u live place next =>
      mem_walkUnits live place (by have := fits u next; omega)
    have count := card_walkUnits p some_
    omega

/-- The search of a directory ends exactly if its walk comes to no offset twice before it ends; a walk in an image follows at
most one pointer more than the image has units of 16 bytes. -/
theorem openat_ends_iff (iface : BlockIface) (behind : Nat → Byte) (file : Word) (name : List Byte) :
    ((∃ r, romfsOpenat iface behind file name = .ok r) ↔ ∀ info, romfsFileInfo iface file = some info → info.type = .directory →
        ¬ ComesBack (walkRound iface behind name) info.info) ∧
      ∀ info, romfsFileInfo iface file = some info → info.type = .directory →
        (∀ r, romfsOpenat iface behind file name = .ok r → ∀ size, MapsWithin iface size →
          ∃ n t, n ≤ size / 16 + 1 ∧ Reaches (walkRound iface behind name) n info.info t ∧ walkRound iface behind name t = .exit r) ∧
        (ComesBack (walkRound iface behind name) info.info →
          ∀ fuel, romfsOpenatLoop iface behind name fuel info.info = .error .hang) := by
  refine ⟨⟨?_, ?_⟩, fun info read dir => ⟨?_, openatLoop_endless⟩⟩
  · intro ⟨r, returned⟩ info read dir
    obtain ⟨n, t, reached, step⟩ := romfsOpenat_exits read dir returned
    exact reached.not_comesBack step
  · intro fresh
    cases read : romfsFileInfo iface file with
    | none => exact ⟨invalidFile, by rw [romfsOpenat, read]⟩
    | some info => exact romfsOpenat_returns read (fresh info read)
  · intro r returned size within
    obtain ⟨n, t, reached, step⟩ := romfsOpenat_exits read dir returned
    exact ⟨n, t, walk_le_units within reached (reached.not_comesBack step), reached, step⟩

/-- An image of 96 bytes: the root directory, and behind it a file `b` that is followed by itself. -/
def circle : BlockIface where
  map offset n :=
    if offset.toNat + n ≤ 96 then
      some fun i =>
        match offset.toNat + i with
        | 35 => 1#8
        | 39 => 64#8
        | 67 => 0x42#8
        | 80 => 0x62#8
        | _ => 0#8
    else none

theorem circle_within : MapsWithin circle 96 := by
  intro offset n data mapped
  by_contra outside
  unfold circle at mapped
  simp only [outside, if_false] at mapped
  cases mapped

/-- The file itself is found. -/
theorem openat_ends_iff_found : ∃ r, romfsOpenat circle (fun _ => 0#8) romfsRootDirectory [0x62#8] = .ok r := by
  apply (openat_ends_iff circle (fun _ => 0#8) romfsRootDirectory [0x62#8]).1.mpr
  intro info read _
  cases read
  exact Reaches.not_comesBack (Reaches.refl _) rfl

/-- Any other name is looked for without end. -/
theorem circle_endless : MapsWithin circle 96 ∧ ∃ info, romfsFileInfo circle romfsRootDirectory = some info ∧ info.type = .directory ∧
    ∀ fuel, romfsOpenatLoop circle (fun _ => 0#8) [0x61#8] fuel info.info = .error .hang := by
  refine ⟨circle_within, _, rfl, by decide, fun fuel => ?_⟩
  have step : walkRound circle (fun _ => 0#8) [0x61#8] 64#32 = .next 64#32 := by rfl
  rw [romfsOpenatLoop_eq]
  have stays : Reaches (walkRound circle (fun _ => 0#8) [0x61#8]) fuel 64#32 64#32 := Reaches.stays step fuel
  exact congrArg answer stays

end BradypOS.Romfs
