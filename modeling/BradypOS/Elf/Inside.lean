import BradypOS.Elf.Image

/-!
# Where the loader writes

A run stays inside if it returns an error, or if it keeps to the entries of `state->segments`, to the
memory of the segment it loads and to the loaded segments it relocates, and neither divides by zero
nor follows an address that no segment holds. `ImageFits` says for which images every run does.
-/

namespace BradypOS.Elf
open Boot Theory

/-! ### The property -/

/-- The bytes of a segment in memory. -/
def Holds (segment : LoadedSegment) (a : Word) : Prop := a - segment.loadedAddr < segment.size

def WordInside (segments : List LoadedSegment) (a : Word) : Prop :=
  ∀ k < 4, ∃ segment ∈ segments, Holds segment (a + BitVec.ofNat 32 k)

def Event.Inside (max : Nat) (segments : List LoadedSegment) : Event → Prop
  | .entry index => index < max
  | .fill segment addr size => ∀ k < size, Holds segment (addr + k)
  | .examine _ => True
  | .apply _ target => WordInside segments target

def Loader.Inside (max : Nat) (l : Loader) : Prop := ∀ e ∈ l.trace, e.Inside max l.segments

def Result.Inside (max : Nat) : Result → Prop
  | .running l => l.Inside max
  | .returned _ l => l.Inside max
  | .fault _ => False

def Result.Errs : Result → Prop
  | .returned code _ => code ≠ .ok
  | _ => False

/-- What `max_segments` promises of the runs of the loader, one for each bound on its rounds. -/
def StaysInside (max : Nat) (run : Nat → Result) : Prop :=
  (∃ fuel, (run fuel).Errs) ∨ ∀ fuel, (run fuel).Inside max

/-! ### The condition -/

/-- An entry that is applied is for a word inside the segments. -/
def RoundFits (s : Word × Loader) : Prop :=
  s.2.wordAt (s.1 + 4#32) = rArmRelative →
    s.2.linkedToLoaded (s.2.wordAt s.1) ≠ 0#32 ∧ WordInside s.2.segments (s.2.linkedToLoaded (s.2.wordAt s.1))

/-- There is nothing to relocate, or the tags never end, or they name a table and each entry that the
loop comes to fits. -/
def RelocationFits (image : Loader) : Prop :=
  image.phdrs = 0#32 ∨ image.tags = none ∨
    ∃ tags, image.tags = some tags ∧ tags.currentReloc ≠ 0#32 ∧
      ∀ n s, Reaches relocRound n (tags.currentReloc, image) s → RoundFits s

/-- No writable segment has more bytes in the file than in memory. -/
def FileFits (ops : LibelfOps) (hdr : Ehdr) (i : Nat) : Prop :=
  Loads ops hdr i → (phdrAt ops hdr i).pFlags &&& pfW ≠ 0#32 → (phdrAt ops hdr i).pFilesz ≤ (phdrAt ops hdr i).pMemsz

instance (ops : LibelfOps) (hdr : Ehdr) : DecidablePred (FileFits ops hdr) :=
  fun _ => inferInstanceAs (Decidable (_ → _ → _))

def ImageFits (ops : LibelfOps) (hdr : Ehdr) (max : Nat) (byte : Word → Byte) : Prop :=
  let headers := List.range hdr.ePhnum.toNat
  headers.findSome? (stop ops hdr) = some .refused ∨
    headers.findSome? (stop ops hdr) = none ∧ (∀ i ∈ headers, FileFits ops hdr i) ∧
      headers.countP (fun i => Loads ops hdr i) ≤ max ∧ RelocationFits (imageOf ops hdr byte)

/-! ### Loading the segments -/

theorem fill_start_inside {segment : LoadedSegment} {size : Word} {max : Nat} {segments : List LoadedSegment} :
    (Event.fill segment segment.loadedAddr size).Inside max segments ↔ size ≤ segment.size := by
  constructor
  · intro inside
    by_contra more
    have last := inside segment.size (by bv_omega)
    simp only [Holds] at last
    bv_omega
  · intro le k less
    simp only [Holds]
    bv_omega

theorem fill_rest_inside {segment : LoadedSegment} {filesz : Word} {max : Nat} {segments : List LoadedSegment}
    (le : filesz ≤ segment.size) :
    (Event.fill segment (segment.loadedAddr + filesz) (segment.size - filesz)).Inside max segments := by
  intro k less
  simp only [Holds]
  bv_omega

variable {ops : LibelfOps} {hdr : Ehdr} {max : Nat} {segments : List LoadedSegment}

theorem placeEvents_inside {i k : Nat} :
    (∀ e ∈ placeEvents ops hdr k i, e.Inside max segments) ↔ (Loads ops hdr i → k < max) ∧ FileFits ops hdr i := by
  by_cases load : (phdrAt ops hdr i).pType = ptLoad
  · by_cases readOnly : (phdrAt ops hdr i).pFlags &&& pfW = 0#32
    · simp [placeEvents, Loads, FileFits, load, readOnly, Event.Inside]
    · simp only [placeEvents, Loads, FileFits, load, readOnly, ne_eq, not_true_eq_false, if_false, not_false_eq_true, forall_const]
      simp only [List.mem_cons, List.not_mem_nil, or_false, forall_eq_or_imp, forall_eq]
      rw [fill_start_inside]
      constructor
      · rintro ⟨entry, file, _⟩
        exact ⟨entry, file⟩
      · rintro ⟨entry, file⟩
        exact ⟨entry, file, fill_rest_inside file⟩
  · simp [placeEvents, Loads, FileFits, load]

theorem imageEvents_inside {is : List Nat} {k : Nat} (le : k ≤ max) :
    (∀ e ∈ imageEvents ops hdr k is, e.Inside max segments) ↔
      (∀ i ∈ is, FileFits ops hdr i) ∧ k + is.countP (fun i => Loads ops hdr i) ≤ max := by
  induction is generalizing k with
  | nil => simpa [imageEvents] using le
  | cons i is ih =>
    simp only [imageEvents, List.mem_append, or_imp, forall_and, placeEvents_inside, List.forall_mem_cons]
    by_cases load : Loads ops hdr i
    · simp only [load, forall_const, if_true, List.countP_cons_of_pos, decide_true]
      constructor
      · rintro ⟨⟨less, fits⟩, rest⟩
        obtain ⟨all, count⟩ := (ih less).mp rest
        exact ⟨⟨fits, all⟩, by omega⟩
      · rintro ⟨⟨fits, all⟩, count⟩
        have less : k < max := by omega
        exact ⟨⟨less, fits⟩, (ih less).mpr ⟨all, by omega⟩⟩
    · simp only [load, false_imp_iff, true_and, if_false, ih le, decide_false, Bool.false_eq_true, not_false_eq_true,
        List.countP_cons_of_neg, and_assoc]

theorem imageOf_inside (byte : Word → Byte) :
    (imageOf ops hdr byte).Inside max ↔
      (∀ i ∈ List.range hdr.ePhnum.toNat, FileFits ops hdr i) ∧
        (List.range hdr.ePhnum.toNat).countP (fun i => Loads ops hdr i) ≤ max := by
  rw [Loader.Inside, imageOf_trace, imageEvents_inside (Nat.zero_le max), Nat.zero_add]

/-! ### Relocating -/

theorem Loader.Inside.record_examine {l : Loader} (inside : l.Inside max) (pos : Word) :
    (l.record (.examine pos)).Inside max := by
  intro e member
  rcases List.mem_append.mp member with before | new
  · exact inside e before
  · obtain rfl := List.mem_singleton.mp new
    trivial

theorem Loader.store_inside {l : Loader} {pos target value : Word} :
    (l.store pos target value).Inside max ↔ l.Inside max ∧ WordInside l.segments target := by
  simp only [Loader.Inside, Loader.store, List.mem_append, List.mem_singleton, or_imp, forall_and, forall_eq]
  rfl

theorem inside_of_relocate {image : Loader} (inside : (relocateElfFile 0 image).Inside max) : image.Inside max := by
  simp only [relocateElfFile] at inside
  split at inside
  · exact inside
  · split at inside
    · exact inside
    · split at inside
      · exact inside.elim
      · exact inside

theorem reached_inside {start s : Word × Loader} {n : Nat} (inside : start.2.Inside max)
    (fits : ∀ n s, Reaches relocRound n start s → RoundFits s) (reached : Reaches relocRound n start s) :
    s.2.Inside max := by
  refine reached.invariant (I := fun _ s => s.2.Inside max) inside ?_
  intro n ⟨pos, l⟩ u before step here
  obtain ⟨relative, place, rfl⟩ := relocRound_next step
  exact Loader.store_inside.mpr ⟨here.record_examine pos, (fits n _ before relative).2⟩

theorem exit_inside {s : Word × Loader} {result : Result} (inside : s.2.Inside max) (fits : RoundFits s)
    (exit : relocRound s = .exit result) : result.Inside max := by
  obtain ⟨pos, l⟩ := s
  by_cases relative : l.wordAt (pos + 4#32) = rArmRelative
  · rw [relocRound_relative relative, if_neg (fits relative).1] at exit
    cases exit
  · by_cases none : l.wordAt (pos + 4#32) = rArmNone
    · rw [relocRound_none none] at exit
      obtain rfl := Turn.exit.inj exit
      exact inside.record_examine pos
    · rw [relocRound_unknown none relative] at exit
      obtain rfl := Turn.exit.inj exit
      exact inside.record_examine pos

theorem relocate_inside {image : Loader} (inside : image.Inside max) :
    (∀ fuel, (relocateElfFile fuel image).Inside max) ↔ RelocationFits image := by
  by_cases noDynamic : image.phdrs = 0#32
  · simp only [relocateElfFile, RelocationFits, noDynamic, if_true, true_or, iff_true]
    exact fun _ => inside
  cases found : image.tags with
  | none =>
    simp only [relocateElfFile, RelocationFits, noDynamic, found, if_false, true_or, or_true, iff_true]
    exact fun _ => inside
  | some tags =>
    constructor
    · intro every
      have table : tags.currentReloc ≠ 0#32 := by
        intro null
        have first := every 0
        simp only [relocateElfFile, noDynamic, found, null, if_true, if_false] at first
        exact first
      refine Or.inr (Or.inr ⟨tags, found, table, ?_⟩)
      intro n ⟨pos, l⟩ reached relative
      have last := every (n + 1)
      simp only [relocateElfFile, noDynamic, found, table, if_false, reached.loop_succ, relocRound_relative relative] at last
      by_cases null : l.linkedToLoaded (l.wordAt pos) = 0#32
      · simp only [null, if_true] at last
        exact last.elim
      · simp only [null, if_false] at last
        exact ⟨null, (Loader.store_inside.mp last).2⟩
    · rintro (nil | never | ⟨tags', same, table, fits⟩) fuel
      · exact absurd nil noDynamic
      · exact absurd (found.symm.trans never) (by simp)
      · obtain rfl := Option.some.inj (found.symm.trans same)
        simp only [relocateElfFile, noDynamic, found, table, if_false]
        cases ends : loop relocRound fuel (tags.currentReloc, image) with
        | next s => exact reached_inside inside fits ends
        | exit result =>
          obtain ⟨n, s, _, reached, exit⟩ := exits_of_loop ends
          exact exit_inside (reached_inside inside fits reached) (fits n s reached) exit

/-! ### Loading a file -/

section

variable {data : Nat → Byte} {byte : Word → Byte}

/-- A load that no header stops does what relocation does, and returns no error. -/
theorem loadElfFile_placed (read : ops.readElfFile .elfHdr 0#32 52#32 = some data)
    (valid : validateElfHeader (Ehdr.ofBytes data) = .ok)
    (go : (List.range (Ehdr.ofBytes data).ePhnum.toNat).findSome? (stop ops (Ehdr.ofBytes data)) = none) (fuel : Nat) :
    loadElfFile ops fuel (.fresh byte) =
      match relocateElfFile fuel (imageOf ops (Ehdr.ofBytes data) byte) with
      | .returned _ l => .returned .ok { l with entryPoint := l.linkedToLoaded (Ehdr.ofBytes data).eEntry }
      | result => result := by
  simp only [loadElfFile, read, valid, ne_eq, not_true_eq_false, if_false, loadPhdrs_placed go]
  rfl

theorem loadElfFile_placed_inside (read : ops.readElfFile .elfHdr 0#32 52#32 = some data)
    (valid : validateElfHeader (Ehdr.ofBytes data) = .ok)
    (go : (List.range (Ehdr.ofBytes data).ePhnum.toNat).findSome? (stop ops (Ehdr.ofBytes data)) = none) (fuel : Nat) :
    (loadElfFile ops fuel (.fresh byte)).Inside max ↔
      (relocateElfFile fuel (imageOf ops (Ehdr.ofBytes data) byte)).Inside max := by
  rw [loadElfFile_placed read valid go]
  cases relocateElfFile fuel (imageOf ops (Ehdr.ofBytes data) byte) with
  | running l => rfl
  | returned code l => rfl
  | fault f => rfl

theorem loadElfFile_placed_errs (read : ops.readElfFile .elfHdr 0#32 52#32 = some data)
    (valid : validateElfHeader (Ehdr.ofBytes data) = .ok)
    (go : (List.range (Ehdr.ofBytes data).ePhnum.toNat).findSome? (stop ops (Ehdr.ofBytes data)) = none) (fuel : Nat) :
    ¬(loadElfFile ops fuel (.fresh byte)).Errs := by
  rw [loadElfFile_placed read valid go]
  cases relocateElfFile fuel (imageOf ops (Ehdr.ofBytes data) byte) with
  | running l => exact id
  | returned code l => exact fun errs => errs rfl
  | fault f => exact id

/-- A load of a file whose header is valid stays inside exactly if a callback refuses one of its
segments before an alignment of zero is divided by, or if its headers and its relocations fit. -/
theorem load_inside_iff (read : ops.readElfFile .elfHdr 0#32 52#32 = some data)
    (valid : validateElfHeader (Ehdr.ofBytes data) = .ok) :
    StaysInside max (fun fuel => loadElfFile ops fuel (.fresh byte)) ↔ ImageFits ops (Ehdr.ofBytes data) max byte := by
  cases first : (List.range (Ehdr.ofBytes data).ePhnum.toNat).findSome? (stop ops (Ehdr.ofBytes data)) with
  | none =>
    simp only [StaysInside, ImageFits, first, loadElfFile_placed_errs read valid first,
      loadElfFile_placed_inside read valid first, exists_false, false_or, reduceCtorEq, true_and, ← and_assoc,
      ← imageOf_inside byte]
    constructor
    · intro every
      have inside := inside_of_relocate (every 0)
      exact ⟨inside, (relocate_inside inside).mp every⟩
    · intro ⟨inside, fits⟩
      exact (relocate_inside inside).mpr fits
  | some why =>
    cases why with
    | refused =>
      obtain ⟨half, returns⟩ := loadPhdrs_refused (l := .fresh byte) first
      refine ⟨fun _ => Or.inl first, fun _ => Or.inl ⟨0, ?_⟩⟩
      simp only [loadElfFile, read, valid, ne_eq, not_true_eq_false, if_false, returns, Result.Errs]
      decide
    | divides =>
      have fault : ∀ fuel, loadElfFile ops fuel (.fresh byte) = .fault .divideByZero := by
        intro fuel
        simp only [loadElfFile, read, valid, ne_eq, not_true_eq_false, if_false, loadPhdrs_divides first]
      simp [StaysInside, ImageFits, first, fault, Result.Errs, Result.Inside]

end

/-! ### Small files -/

/-- The bytes of a word in a file. -/
def wordBytes (w : Word) : List Byte :=
  [w.extractLsb' 0 8, w.extractLsb' 8 8, w.extractLsb' 16 8, w.extractLsb' 24 8]

/-- The header of an executable with `phnum` program headers. -/
def elfHdrBytes (phnum : Byte) : List Byte :=
  [0x7F, 0x45, 0x4C, 0x46, 1, 1, 1, 0, 0, 0, 0, 0, 0, 0, 0, 0, 2, 0, 40, 0, 1, 0, 0, 0] ++
    wordBytes 0x8000#32 ++ wordBytes 52#32 ++ wordBytes 0#32 ++ wordBytes 0#32 ++ [52, 0, 32, 0, phnum, 0, 0, 0, 0, 0, 0, 0]

/-- A program header from its type, offset, address, sizes, flags and alignment. -/
def phdrBytes (phdr : Phdr) : List Byte :=
  wordBytes phdr.pType ++ wordBytes phdr.pOffset ++ wordBytes phdr.pVaddr ++ wordBytes phdr.pVaddr ++
    wordBytes phdr.pFilesz ++ wordBytes phdr.pMemsz ++ wordBytes phdr.pFlags ++ wordBytes phdr.pAlign

/-- A file with these program headers and zeros for contents; its segments are put 4 KiB apart. -/
def smallFile (phdrs : List Phdr) : LibelfOps where
  readElfFile
    | .elfHdr, _, _ => some fun k => (elfHdrBytes (BitVec.ofNat 8 phdrs.length)).getD k 0#8
    | .phdr i, _, _ => some fun k => ((phdrs.map phdrBytes).getD i []).getD k 0#8
    | .segment _, _, _ => some fun _ => 0#8
  allocRw i _ _ _ _ := some (0x20000000#32 + BitVec.ofNat 32 (0x1000 * i))
  map i _ _ _ _ _ := some (0x10000000#32 + BitVec.ofNat 32 (0x1000 * i))
  stack _ _ := 0#8

def smallHdr (phdrs : List Phdr) : Ehdr := Ehdr.ofBytes fun k => (elfHdrBytes (BitVec.ofNat 8 phdrs.length)).getD k 0#8

/-- A text segment and a data segment. -/
def textAndData : List Phdr :=
  [⟨ptLoad, 0x1000#32, 0x8000#32, 64#32, 64#32, pfR ||| pfX, 4#32⟩, ⟨ptLoad, 0x1040#32, 0x9000#32, 16#32, 32#32, pfR ||| pfW, 4#32⟩]

theorem load_inside_small :
    StaysInside 4 (fun fuel => loadElfFile (smallFile textAndData) fuel (.fresh fun _ => 0#8)) :=
  (load_inside_iff rfl (by decide)).mpr (Or.inr ⟨by decide, by decide, by decide, Or.inl (by decide)⟩)

/-- Five text segments for the four entries of the callers. -/
def fiveSegments : List Phdr :=
  (List.range 5).map fun i => ⟨ptLoad, 0x1000#32, BitVec.ofNat 32 (0x8000 + 64 * i), 64#32, 64#32, pfR ||| pfX, 4#32⟩

theorem load_inside_fails :
    validateElfHeader (smallHdr fiveSegments) = .ok ∧
      ¬StaysInside 4 (fun fuel => loadElfFile (smallFile fiveSegments) fuel (.fresh fun _ => 0#8)) := by
  have valid : validateElfHeader (smallHdr fiveSegments) = .ok := by decide
  have go : (List.range (smallHdr fiveSegments).ePhnum.toNat).findSome? (stop (smallFile fiveSegments) (smallHdr fiveSegments)) = none := by
    decide
  refine ⟨valid, ?_⟩
  rintro (⟨fuel, errs⟩ | every)
  · exact loadElfFile_placed_errs rfl valid go fuel errs
  · have inside := inside_of_relocate ((loadElfFile_placed_inside rfl valid go 0).mp (every 0))
    have count := ((imageOf_inside _).mp inside).2
    exact absurd count (by decide)

end BradypOS.Elf
