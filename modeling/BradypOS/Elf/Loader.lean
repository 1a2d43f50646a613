import BradypOS.Boot.Loader
import BradypOS.Service.Message
import BradypOS.Theory.Loop

/-!
# The ELF loader (`lib/elf/elf.c`)

`load_elf_file` reads a file and places its segments through the callbacks of its caller, then
relocates the image in memory. A run keeps a trace of what it stores and of the relocation entries it
examines. An entry behind the array of segments is kept like the ones in it.
-/

namespace BradypOS.Elf
open Boot Theory

inductive LibelfError where
  | ok | ifaceError | invalidElf | unknownReloc | nodyn | nosym
  deriving DecidableEq, Repr

/-- The calls of `read_elf_file`: for the ELF header, a program header, the contents of a segment. -/
inductive ReadCall where
  | elfHdr | phdr (i : Nat) | segment (i : Nat)

/-- What the callbacks of `struct libelf_ops` answer in one run, and what the run finds on its stack;
`alloc_rw` and `map` are called for a program header at most once. -/
structure LibelfOps where
  readElfFile : ReadCall → Word → Word → Option (Nat → Byte)
  allocRw : Nat → Word → Word → Word → Word → Option Word
  map : Nat → Word → Word → Word → Word → Word → Option Word
  stack : Nat → Nat → Byte

/-! ### The file -/

def halfAt (data : Nat → Byte) (offset : Nat) : BitVec 16 := data (offset + 1) ++ data offset

def wordAt (data : Nat → Byte) (offset : Nat) : Word :=
  data (offset + 3) ++ data (offset + 2) ++ data (offset + 1) ++ data offset

/-- `Elf32_Ehdr`. -/
structure Ehdr where
  eIdent : Nat → Byte
  eType : BitVec 16
  eMachine : BitVec 16
  eVersion : Word
  eEntry : Word
  ePhoff : Word
  ePhentsize : BitVec 16
  ePhnum : BitVec 16

def Ehdr.ofBytes (data : Nat → Byte) : Ehdr where
  eIdent := data
  eType := halfAt data 16
  eMachine := halfAt data 18
  eVersion := wordAt data 20
  eEntry := wordAt data 24
  ePhoff := wordAt data 28
  ePhentsize := halfAt data 42
  ePhnum := halfAt data 44

def phdrOfBytes (data : Nat → Byte) : Phdr where
  pType := wordAt data 0
  pOffset := wordAt data 4
  pVaddr := wordAt data 8
  pFilesz := wordAt data 16
  pMemsz := wordAt data 20
  pFlags := wordAt data 24
  pAlign := wordAt data 28

def validateElfHeader (hdr : Ehdr) : LibelfError :=
  if hdr.eIdent 0 ≠ 0x7F#8 ∨ hdr.eIdent 1 ≠ 0x45#8 ∨ hdr.eIdent 2 ≠ 0x4C#8 ∨ hdr.eIdent 3 ≠ 0x46#8 then .invalidElf
  else if hdr.eIdent 4 ≠ 1#8 then .invalidElf
  else if hdr.eIdent 5 ≠ 1#8 then .invalidElf
  else if hdr.eType ≠ 2#16 ∧ hdr.eType ≠ 3#16 then .invalidElf
  else if hdr.eMachine ≠ 40#16 then .invalidElf
  else if hdr.eVersion ≠ 1#32 then .invalidElf
  else if hdr.ePhentsize < 32#16 then .invalidElf
  else .ok

/-! ### The loader's state -/

/-- What a run does that the caller can tell: the stores to `state->segments` and to the memory of a
segment, the relocation entries it looks at and those it applies. -/
inductive Event where
  | entry (index : Nat)
  | fill (segment : LoadedSegment) (addr size : Word)
  | examine (pos : Word)
  | apply (pos target : Word)

/-- `struct libelf_state`, with the memory and the trace. -/
structure Loader where
  entryPoint : Word
  phdrs : Word
  segments : List LoadedSegment
  byte : Word → Byte
  trace : List Event

namespace Loader

/-- The state that the callers of `load_elf_file` pass. -/
def fresh (byte : Word → Byte) : Loader := ⟨0, 0, [], byte, []⟩

def wordAt (l : Loader) (a : Word) : Word := Elf.wordAt (fun k => l.byte (a + BitVec.ofNat 32 k)) 0

def linkedToLoaded (l : Loader) (addr : Word) : Word := linkedToLoadedAddr l.segments addr

def record (l : Loader) (e : Event) : Loader := { l with trace := l.trace ++ [e] }

/-- `size` bytes from `addr` on, for the segment being loaded. -/
def fill (l : Loader) (segment : LoadedSegment) (addr size : Word) (data : Nat → Byte) : Loader where
  entryPoint := l.entryPoint
  phdrs := l.phdrs
  segments := l.segments
  byte := fun a => if a - addr < size then data (a - addr).toNat else l.byte a
  trace := l.trace ++ [.fill segment addr size]

/-- The store of a relocation. -/
def store (l : Loader) (pos target value : Word) : Loader where
  entryPoint := l.entryPoint
  phdrs := l.phdrs
  segments := l.segments
  byte := fun a => if a - target < 4#32 then value.extractLsb' (8 * (a - target).toNat) 8 else l.byte a
  trace := l.trace ++ [.apply pos target]

end Loader

inductive Fault where
  | divideByZero | nullDereference
  deriving DecidableEq, Repr

inductive Result where
  | running (l : Loader)
  | returned (code : LibelfError) (l : Loader)
  | fault (f : Fault)

/-! ### Relocation -/

def dtNull : Word := 0#32
def dtRel : Word := 17#32
def dtRelsz : Word := 18#32
def dtRelent : Word := 19#32
def dtRelcount : Word := 0x6FFFFFFA#32

def rArmNone : Word := 0#32
def rArmRelative : Word := 23#32

/-- The variables that the loop over the dynamic tags sets. -/
structure DynTags where
  currentReloc : Word
  relSz : Word
  totalRelSz : Word
  relcount : Word

def DynTags.read (l : Loader) (tags : DynTags) (tag value : Word) : DynTags :=
  if tag = dtRel then { tags with currentReloc := l.linkedToLoaded value }
  else if tag = dtRelcount then { tags with relcount := value }
  else if tag = dtRelsz then { tags with totalRelSz := value }
  else if tag = dtRelent then { tags with relSz := value }
  else tags

def scanTags (l : Loader) : Nat → Word → DynTags → Option DynTags
  | 0, _, _ => none
  | fuel + 1, currentTag, tags =>
    if l.wordAt currentTag = dtNull then some tags
    else scanTags l fuel (currentTag + 8#32) (tags.read l (l.wordAt currentTag) (l.wordAt (currentTag + 4#32)))

/-- The tags of an image; past `2 ^ 29` tags the loop sees the first ones again and never ends. -/
def Loader.tags (l : Loader) : Option DynTags := scanTags l (2 ^ 29) l.phdrs ⟨0, 0, 0, 0⟩

/-- A round of the loop over the relocation entries. -/
def relocRound : Word × Loader → Turn (Word × Loader) Result
  | (currentReloc, l) =>
    let l := l.record (.examine currentReloc)
    if l.wordAt (currentReloc + 4#32) = rArmNone then .exit (.returned .ok l)
    else if l.wordAt (currentReloc + 4#32) = rArmRelative then
      let relocPos := l.linkedToLoaded (l.wordAt currentReloc)
      if relocPos = 0#32 then .exit (.fault .nullDereference)
      else .next (currentReloc + 8#32, l.store currentReloc relocPos (l.linkedToLoaded (l.wordAt relocPos)))
    else .exit (.returned .unknownReloc l)

section

variable {l : Loader} {pos : Word}

theorem relocRound_none (none : l.wordAt (pos + 4#32) = rArmNone) :
    relocRound (pos, l) = .exit (.returned .ok (l.record (.examine pos))) :=
  if_pos none

theorem relocRound_unknown (some : l.wordAt (pos + 4#32) ≠ rArmNone) (other : l.wordAt (pos + 4#32) ≠ rArmRelative) :
    relocRound (pos, l) = .exit (.returned .unknownReloc (l.record (.examine pos))) :=
  (if_neg some).trans (if_neg other)

theorem relocRound_relative (relative : l.wordAt (pos + 4#32) = rArmRelative) :
    relocRound (pos, l) =
      if l.linkedToLoaded (l.wordAt pos) = 0#32 then .exit (.fault .nullDereference)
      else .next (pos + 8#32, (l.record (.examine pos)).store pos (l.linkedToLoaded (l.wordAt pos))
        (l.linkedToLoaded (l.wordAt (l.linkedToLoaded (l.wordAt pos))))) := by
  have some : l.wordAt (pos + 4#32) ≠ rArmNone := by
    rw [relative]
    decide
  exact (if_neg some).trans (if_pos relative)

/-- Only an `R_ARM_RELATIVE` entry that has a place leads to the next one. -/
theorem relocRound_next {next : Word × Loader} (step : relocRound (pos, l) = .next next) :
    l.wordAt (pos + 4#32) = rArmRelative ∧ l.linkedToLoaded (l.wordAt pos) ≠ 0#32 ∧
      next = (pos + 8#32, (l.record (.examine pos)).store pos (l.linkedToLoaded (l.wordAt pos))
        (l.linkedToLoaded (l.wordAt (l.linkedToLoaded (l.wordAt pos))))) := by
  by_cases relative : l.wordAt (pos + 4#32) = rArmRelative
  · rw [relocRound_relative relative] at step
    split at step
    · cases step
    · rename_i place
      exact ⟨relative, place, (Turn.next.inj step).symm⟩
  · by_cases none : l.wordAt (pos + 4#32) = rArmNone
    · rw [relocRound_none none] at step
      cases step
    · rw [relocRound_unknown none relative] at step
      cases step

end

def relocateElfFile (fuel : Nat) (l : Loader) : Result :=
  if l.phdrs = 0#32 then .returned .ok l
  else
    match l.tags with
    | none => .running l
    | some tags =>
      if tags.currentReloc = 0#32 then .fault .nullDereference
      else
        match loop relocRound fuel (tags.currentReloc, l) with
        | .next (_, l) => .running l
        | .exit result => result

/-! ### Loading -/

/-- The program header that the loop has in its round `i`: what `read_elf_file` answers is not looked
at, so that a header which cannot be read is what lies on the stack. -/
def phdrAt (ops : LibelfOps) (hdr : Ehdr) (i : Nat) : Phdr :=
  phdrOfBytes ((ops.readElfFile (.phdr i) (hdr.ePhoff + BitVec.ofNat 32 (i * hdr.ePhentsize.toNat)) 32#32).getD (ops.stack i))

/-- The `PT_LOAD` case of `load_elf_file`. -/
def loadSegment (ops : LibelfOps) (i : Nat) (phdr : Phdr) (state : Loader) : Result :=
  let perm := elfFlagsToLibelfAccess phdr.pFlags
  let segment : Word → LoadedSegment := fun loc => ⟨phdr.pVaddr, loc, phdr.pMemsz, perm⟩
  let entered := fun loc => { state with
    segments := state.segments ++ [segment loc]
    trace := state.trace ++ [.entry state.segments.length] }
  if phdr.pFlags &&& pfW = 0#32 then
    match ops.map i phdr.pOffset phdr.pFilesz phdr.pAlign (phdr.pVaddr &&& phdr.pAlign) perm with
    | none => .returned .ifaceError (entered 0#32)
    | some loc => .running (entered loc)
  else if phdr.pAlign = 0#32 then .fault .divideByZero
  else
    match ops.allocRw i phdr.pMemsz phdr.pAlign (phdr.pVaddr % phdr.pAlign) perm with
    | none => .returned .ifaceError (entered 0#32)
    | some loc =>
      match ops.readElfFile (.segment i) phdr.pOffset phdr.pFilesz with
      | none => .returned .ifaceError (entered 0#32)
      | some data =>
        .running (((entered loc).fill (segment loc) loc phdr.pFilesz data).fill
          (segment loc) (loc + phdr.pFilesz) (phdr.pMemsz - phdr.pFilesz) fun _ => 0#8)

def loadPhdr (ops : LibelfOps) (i : Nat) (phdr : Phdr) (state : Loader) : Result :=
  if phdr.pType = ptLoad then loadSegment ops i phdr state
  else if phdr.pType = ptDynamic then .running { state with phdrs := state.linkedToLoaded phdr.pVaddr }
  else .running state

def loadPhdrs (ops : LibelfOps) (hdr : Ehdr) : List Nat → Loader → Result
  | [], l => .running l
  | i :: is, l =>
    match loadPhdr ops i (phdrAt ops hdr i) l with
    | .running l => loadPhdrs ops hdr is l
    | result => result

/-- `load_elf_file`, in which relocation takes `fuel` rounds at most. -/
def loadElfFile (ops : LibelfOps) (fuel : Nat) (state : Loader) : Result :=
  match ops.readElfFile .elfHdr 0#32 52#32 with
  | none => .returned .ifaceError state
  | some data =>
    let elfHdr := Ehdr.ofBytes data
    if validateElfHeader elfHdr ≠ .ok then .returned (validateElfHeader elfHdr) state
    else
      match loadPhdrs ops elfHdr (List.range elfHdr.ePhnum.toNat) state with
      | .running image =>
        -- What `relocate_elf_file` returns is not looked at.
        match relocateElfFile fuel image with
        | .returned _ l => .returned .ok { l with entryPoint := l.linkedToLoaded elfHdr.eEntry }
        | result => result
      | result => result

end BradypOS.Elf
