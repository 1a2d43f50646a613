import BradypOS.Elf.Loader

/-!
# The image that the program headers describe

A header stops the loader if a callback refuses it or if its alignment is divided by; the headers
that stop nothing are placed one after another, and `imageOf` is what they come to.
-/

namespace BradypOS.Elf
open Boot

inductive Stop where
  | refused | divides
  deriving DecidableEq

/-- Where the callbacks put the segment of a header. -/
def granted (ops : LibelfOps) (i : Nat) (phdr : Phdr) : Option Word :=
  if phdr.pFlags &&& pfW = 0#32 then
    ops.map i phdr.pOffset phdr.pFilesz phdr.pAlign (phdr.pVaddr &&& phdr.pAlign) (elfFlagsToLibelfAccess phdr.pFlags)
  else do
    let loc ← ops.allocRw i phdr.pMemsz phdr.pAlign (phdr.pVaddr % phdr.pAlign) (elfFlagsToLibelfAccess phdr.pFlags)
    let _ ← ops.readElfFile (.segment i) phdr.pOffset phdr.pFilesz
    some loc

def stop (ops : LibelfOps) (hdr : Ehdr) (i : Nat) : Option Stop :=
  let phdr := phdrAt ops hdr i
  if phdr.pType ≠ ptLoad then none
  else if phdr.pFlags &&& pfW ≠ 0#32 ∧ phdr.pAlign = 0#32 then some .divides
  else if granted ops i phdr = none then some .refused
  else none

def segmentOf (ops : LibelfOps) (i : Nat) (phdr : Phdr) : LoadedSegment :=
  ⟨phdr.pVaddr, (granted ops i phdr).getD 0#32, phdr.pMemsz, elfFlagsToLibelfAccess phdr.pFlags⟩

/-- The file's part of a writable segment and the zeros behind it. -/
def Loader.contents (l : Loader) (segment : LoadedSegment) (filesz : Word) (data : Nat → Byte) : Loader :=
  (l.fill segment segment.loadedAddr filesz data).fill segment (segment.loadedAddr + filesz) (segment.size - filesz)
    fun _ => 0#8

/-- What a header adds to the image. -/
def place (ops : LibelfOps) (hdr : Ehdr) (l : Loader) (i : Nat) : Loader :=
  let phdr := phdrAt ops hdr i
  if phdr.pType = ptLoad then
    let segment := segmentOf ops i phdr
    let entered := { l with
      segments := l.segments ++ [segment]
      trace := l.trace ++ [.entry l.segments.length] }
    if phdr.pFlags &&& pfW = 0#32 then entered
    else entered.contents segment phdr.pFilesz ((ops.readElfFile (.segment i) phdr.pOffset phdr.pFilesz).getD fun _ => 0#8)
  else if phdr.pType = ptDynamic then { l with phdrs := l.linkedToLoaded phdr.pVaddr }
  else l

def imageOf (ops : LibelfOps) (hdr : Ehdr) (byte : Word → Byte) : Loader :=
  (List.range hdr.ePhnum.toNat).foldl (place ops hdr) (Loader.fresh byte)

variable {ops : LibelfOps} {hdr : Ehdr} {i : Nat} {is : List Nat} {l : Loader}

/-! ### One header -/

theorem loadPhdr_placed (go : stop ops hdr i = none) :
    loadPhdr ops i (phdrAt ops hdr i) l = .running (place ops hdr l i) := by
  by_cases load : (phdrAt ops hdr i).pType = ptLoad
  · simp only [stop, load, ne_eq, not_true_eq_false, if_false] at go
    split at go
    · cases go
    · rename_i aligned
      split at go
      · cases go
      · rename_i grants
        by_cases rw' : (phdrAt ops hdr i).pFlags &&& pfW = 0#32
        · simp only [granted, rw', if_true] at grants
          obtain ⟨loc, answer⟩ := Option.ne_none_iff_exists'.mp grants
          simp only [loadPhdr, loadSegment, place, segmentOf, granted, load, rw', answer, if_true, Option.getD_some]
        · have nonzero : (phdrAt ops hdr i).pAlign ≠ 0#32 := fun zero => aligned ⟨rw', zero⟩
          simp only [granted, rw', if_false] at grants
          cases alloc : ops.allocRw i (phdrAt ops hdr i).pMemsz (phdrAt ops hdr i).pAlign
              ((phdrAt ops hdr i).pVaddr % (phdrAt ops hdr i).pAlign) (elfFlagsToLibelfAccess (phdrAt ops hdr i).pFlags) with
          | none => simp [alloc] at grants
          | some loc =>
            cases read : ops.readElfFile (.segment i) (phdrAt ops hdr i).pOffset (phdrAt ops hdr i).pFilesz with
            | none => simp [alloc, read] at grants
            | some data =>
              simp [loadPhdr, loadSegment, place, segmentOf, granted, Loader.contents, load, rw', nonzero, alloc, read]
  · simp only [loadPhdr, place, load, if_false]
    split <;> rfl

theorem loadPhdr_refused (refused : stop ops hdr i = some .refused) :
    ∃ half, loadPhdr ops i (phdrAt ops hdr i) l = .returned .ifaceError half := by
  simp only [stop] at refused
  split at refused
  · cases refused
  · rename_i load
    split at refused
    · cases refused
    · rename_i aligned
      split at refused
      · rename_i grants
        have load := not_not.mp load
        by_cases rw' : (phdrAt ops hdr i).pFlags &&& pfW = 0#32
        · simp only [granted, rw', if_true] at grants
          simp only [loadPhdr, loadSegment, load, rw', grants, if_true]
          exact ⟨_, rfl⟩
        · have nonzero : (phdrAt ops hdr i).pAlign ≠ 0#32 := fun zero => aligned ⟨rw', zero⟩
          simp only [granted, rw', if_false] at grants
          simp only [loadPhdr, loadSegment, load, rw', nonzero, if_true, if_false]
          cases alloc : ops.allocRw i (phdrAt ops hdr i).pMemsz (phdrAt ops hdr i).pAlign
              ((phdrAt ops hdr i).pVaddr % (phdrAt ops hdr i).pAlign) (elfFlagsToLibelfAccess (phdrAt ops hdr i).pFlags) with
          | none => exact ⟨_, rfl⟩
          | some loc =>
            cases read : ops.readElfFile (.segment i) (phdrAt ops hdr i).pOffset (phdrAt ops hdr i).pFilesz with
            | none => exact ⟨_, rfl⟩
            | some data => simp [alloc, read] at grants
      · cases refused

theorem loadPhdr_divides (divides : stop ops hdr i = some .divides) :
    loadPhdr ops i (phdrAt ops hdr i) l = .fault .divideByZero := by
  simp only [stop] at divides
  split at divides
  · cases divides
  · rename_i load
    split at divides
    · rename_i zero
      simp only [loadPhdr, loadSegment, not_not.mp load, zero, if_true, if_false]
    · split at divides <;> cases divides

/-! ### All headers -/

theorem loadPhdrs_placed (go : is.findSome? (stop ops hdr) = none) :
    loadPhdrs ops hdr is l = .running (is.foldl (place ops hdr) l) := by
  induction is generalizing l with
  | nil => rfl
  | cons i is ih =>
    rw [List.findSome?_cons] at go
    cases first : stop ops hdr i with
    | some s => simp [first] at go
    | none =>
      rw [first] at go
      rw [loadPhdrs, loadPhdr_placed first]
      exact ih go

/-- A header that stops the loop decides what the loop returns. -/
theorem loadPhdrs_stopped {why : Stop} (stopped : is.findSome? (stop ops hdr) = some why) :
    ∃ i before, stop ops hdr i = some why ∧ loadPhdrs ops hdr is l = loadPhdr ops i (phdrAt ops hdr i) before := by
  induction is generalizing l with
  | nil => cases stopped
  | cons i is ih =>
    rw [List.findSome?_cons] at stopped
    cases first : stop ops hdr i with
    | none =>
      rw [first] at stopped
      rw [loadPhdrs, loadPhdr_placed first]
      exact ih stopped
    | some s =>
      rw [first] at stopped
      obtain rfl := Option.some.inj stopped
      refine ⟨i, l, first, ?_⟩
      cases s with
      | refused =>
        obtain ⟨half, returns⟩ := loadPhdr_refused (l := l) first
        rw [loadPhdrs, returns]
      | divides => rw [loadPhdrs, loadPhdr_divides first]

theorem loadPhdrs_refused (refused : is.findSome? (stop ops hdr) = some .refused) :
    ∃ half, loadPhdrs ops hdr is l = .returned .ifaceError half := by
  obtain ⟨i, before, first, same⟩ := loadPhdrs_stopped (l := l) refused
  rw [same]
  exact loadPhdr_refused first

theorem loadPhdrs_divides (divides : is.findSome? (stop ops hdr) = some .divides) :
    loadPhdrs ops hdr is l = .fault .divideByZero := by
  obtain ⟨i, before, first, same⟩ := loadPhdrs_stopped (l := l) divides
  rw [same]
  exact loadPhdr_divides first

/-! ### What placing leaves in the trace -/

/-- What placing the header `i` stores if `k` segments are there. -/
def placeEvents (ops : LibelfOps) (hdr : Ehdr) (k i : Nat) : List Event :=
  let phdr := phdrAt ops hdr i
  let segment := segmentOf ops i phdr
  if phdr.pType ≠ ptLoad then []
  else if phdr.pFlags &&& pfW = 0#32 then [.entry k]
  else [.entry k, .fill segment segment.loadedAddr phdr.pFilesz,
    .fill segment (segment.loadedAddr + phdr.pFilesz) (segment.size - phdr.pFilesz)]

def Loads (ops : LibelfOps) (hdr : Ehdr) (i : Nat) : Prop := (phdrAt ops hdr i).pType = ptLoad

instance : DecidablePred (Loads ops hdr) := fun _ => inferInstanceAs (Decidable (_ = _))

def imageEvents (ops : LibelfOps) (hdr : Ehdr) : Nat → List Nat → List Event
  | _, [] => []
  | k, i :: is => placeEvents ops hdr k i ++ imageEvents ops hdr (if Loads ops hdr i then k + 1 else k) is

theorem place_trace : (place ops hdr l i).trace = l.trace ++ placeEvents ops hdr l.segments.length i := by
  by_cases load : (phdrAt ops hdr i).pType = ptLoad
  · by_cases readOnly : (phdrAt ops hdr i).pFlags &&& pfW = 0#32
    · simp [place, placeEvents, load, readOnly]
    · simp [place, placeEvents, load, readOnly, Loader.contents, Loader.fill]
  · simp only [place, placeEvents, load, if_false, ne_eq, not_false_eq_true, if_true, List.append_nil]
    split <;> rfl

theorem place_segments :
    (place ops hdr l i).segments = if Loads ops hdr i then l.segments ++ [segmentOf ops i (phdrAt ops hdr i)] else l.segments := by
  by_cases load : (phdrAt ops hdr i).pType = ptLoad
  · by_cases readOnly : (phdrAt ops hdr i).pFlags &&& pfW = 0#32
    · simp [place, Loads, load, readOnly]
    · simp [place, Loads, load, readOnly, Loader.contents, Loader.fill]
  · simp only [place, Loads, load, if_false]
    split <;> rfl

theorem foldl_place_trace :
    (is.foldl (place ops hdr) l).trace = l.trace ++ imageEvents ops hdr l.segments.length is := by
  induction is generalizing l with
  | nil => simp [imageEvents]
  | cons i is ih =>
    have count : (place ops hdr l i).segments.length = if Loads ops hdr i then l.segments.length + 1 else l.segments.length := by
      rw [place_segments]
      split <;> simp
    rw [List.foldl_cons, ih, place_trace, imageEvents, count, List.append_assoc]

theorem imageOf_trace (ops : LibelfOps) (hdr : Ehdr) (byte : Word → Byte) :
    (imageOf ops hdr byte).trace = imageEvents ops hdr 0 (List.range hdr.ePhnum.toNat) := by
  rw [imageOf, foldl_place_trace]
  rfl

end BradypOS.Elf
