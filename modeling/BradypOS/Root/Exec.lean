import BradypOS.Elf.Symbols
import BradypOS.Root.Memory

/-!
# Starting a program (`usr/root/exec.c`)

`load_executable` has libelf load a file, looks up three symbols of it, and starts a thread that gets the
segments in one message. The callbacks of libelf take the pages of writable segments from the page allocator
and write an item for each segment into the message registers. What the system calls answer is given; what is
written into the pages of the program is the memory of the loader, apart from the records of the allocator.
-/

namespace BradypOS.Root

open L4 Pages Elf Boot

/-! ### The callbacks -/

/-- `struct root_elf_load_state`, with the page allocator, the UTCB of root and the items that were accepted. -/
structure ElfLoadState where
  elfBase : Word
  mapCount : Nat
  allocator : Allocator
  utcb : Utcb
  items : List MapItem

def elfToL4Perm (perm : Word) : Word :=
  (if perm &&& 1#32 ≠ 0 then Fpage.readable else 0) ||| (if perm &&& 2#32 ≠ 0 then Fpage.writable else 0) |||
    (if perm &&& 4#32 ≠ 0 then 1#32 else 0)

/-- The item of a segment at `addr`. -/
def segmentItem (addr size perm : Word) : MapItem :=
  MapItem.ofFpage (Fpage.addRights (Fpage.ofSize addr size) (elfToL4Perm perm)) addr

/-- How many pages hold this many bytes. -/
def pagesFor (actualSize : Word) : Word := actualSize / 512#32 + if actualSize &&& 511#32 ≠ 0 then 1#32 else 0#32

namespace ElfLoadState

def addMapping (state : ElfLoadState) (item : MapItem) : Option ElfLoadState :=
  if 1 + state.mapCount * 2 + 2 ≥ mrCount then none
  else some { state with
    utcb := (state.utcb.setMr (1 + state.mapCount * 2) (item.first ||| 1#32)).setMr (1 + state.mapCount * 2 + 1) item.second
    mapCount := state.mapCount + 1
    items := state.items ++ [item] }

/-- What a callback answers for the segment at `addr`, which begins at `location`, and the state behind it. -/
def answer (state : ElfLoadState) (addr location size perm : Word) : Option Word × ElfLoadState :=
  match state.addMapping (segmentItem addr size perm) with
  | none => (none, state)
  | some state => (some location, state)

/-- `none` when the fuel does not suffice for the search of the free list. -/
def elfAllocRw (fuel : Nat) (state : ElfLoadState) (size alignOffset perm : Word) : Option (Option Word × ElfLoadState) :=
  (allocPages fuel state.allocator (pagesFor (size + alignOffset))).map fun r =>
    let addr := BitVec.ofNat 32 r.1
    let state := { state with allocator := r.2 }
    if r.1 = 0 then (none, state) else state.answer addr (addr + alignOffset) size perm

def elfMap (state : ElfLoadState) (offset size perm : Word) : Option Word × ElfLoadState :=
  state.answer (state.elfBase + offset) (state.elfBase + offset) size perm

/-- `elf_read_file`, of a file that loading does not change. -/
def elfReadFile (state : ElfLoadState) (byte : Word → Byte) (offset : Word) (k : Nat) : Byte :=
  byte (state.elfBase + offset + BitVec.ofNat 32 k)

/-- `elf_ops` as they answer in a state. -/
def elfOps (fuel : Nat) (byte : Word → Byte) (state : ElfLoadState) : LibelfOps where
  readElfFile _ offset _ := some (state.elfReadFile byte offset)
  allocRw _ size _ alignOffset perm := (state.elfAllocRw fuel size alignOffset perm).bind Prod.fst
  map _ offset size _ _ perm := (state.elfMap offset size perm).1
  stack _ _ := 0#8

/-- The state behind a program header. -/
def afterPhdr (fuel : Nat) (state : ElfLoadState) (phdr : Phdr) : Option ElfLoadState :=
  let perm := elfFlagsToLibelfAccess phdr.pFlags
  if phdr.pType ≠ ptLoad then some state
  else if phdr.pFlags &&& pfW = 0#32 then some (state.elfMap phdr.pOffset phdr.pFilesz perm).2
  else if phdr.pAlign = 0#32 then some state
  else (state.elfAllocRw fuel phdr.pMemsz (phdr.pVaddr % phdr.pAlign) perm).map Prod.snd

/-- The loop of `load_elf_file` over the program headers, with the state of the callbacks. -/
def loadPhdrs (fuel : Nat) (byte : Word → Byte) (hdr : Ehdr) : List Nat → Loader → ElfLoadState → Option (Result × ElfLoadState)
  | [], image, state => some (.running image, state)
  | i :: is, image, state =>
    let ops := state.elfOps fuel byte
    match state.afterPhdr fuel (phdrAt ops hdr i) with
    | none => none
    | some next =>
      match loadPhdr ops i (phdrAt ops hdr i) image with
      | .running image => loadPhdrs fuel byte hdr is image next
      | result => some (result, next)

def elfHdr (byte : Word → Byte) (state : ElfLoadState) : Ehdr := Ehdr.ofBytes (state.elfReadFile byte 0#32)

/-- `load_elf_file(&elf_ops, &state, &root_state)`. -/
def loadElfFile (fuel : Nat) (byte : Word → Byte) (state : ElfLoadState) : Option (Result × ElfLoadState) :=
  let elfHdr := state.elfHdr byte
  if validateElfHeader elfHdr ≠ .ok then some (.returned (validateElfHeader elfHdr) (.fresh byte), state)
  else
    match loadPhdrs fuel byte elfHdr (List.range elfHdr.ePhnum.toNat) (.fresh byte) state with
    | some (.running image, state) =>
      match relocateElfFile fuel image with
      | .returned _ l => some (.returned .ok { l with entryPoint := l.linkedToLoaded elfHdr.eEntry }, state)
      | result => some (result, state)
    | other => other

/-- The message with the segments: `item_ptr` points to the place behind the last item. -/
def mapMessage (state : ElfLoadState) : Utcb :=
  let itemPtr := 1 + state.mapCount * 2
  let utcb := (state.utcb.setMr itemPtr (state.utcb.mr itemPtr &&& ~~~1#32)).setMr (itemPtr + 1) (state.utcb.mr (itemPtr + 1))
  utcb.setMr 0 (MsgTag.mk 0 (state.mapCount * 2) 0#32 1#32)

end ElfLoadState

/-! ### Loading and starting -/

/-- How a call of `load_executable` ends: with its result, the state of the callbacks and the messages that were sent. -/
inductive Exec where
  | running
  | fault (f : Fault)
  | returned (success : Bool) (state : ElfLoadState) (sent : List Utcb)

/-- Which of the system calls succeed. -/
structure Syscalls where
  threadControl : Bool
  spaceControl : Bool
  mapIpc : Bool
  startIpc : Bool

def utcbName : List Byte := ['_', '_', 'u', 't', 'c', 'b'].map fun c => BitVec.ofNat 8 c.toNat

def spName : List Byte := ['_', '_', 's', 'p'].map fun c => BitVec.ofNat 8 c.toNat

def gotName : List Byte :=
  ['_', '_', 'g', 'l', 'o', 'b', 'a', 'l', '_', 'o', 'f', 'f', 's', 'e', 't', '_', 't', 'a', 'b', 'l', 'e'].map fun c => BitVec.ofNat 8 c.toNat

/-- The program goes on with the value of a symbol that was found. -/
def withSymbol (fuel : Nat) (image : Loader) (state : ElfLoadState) (name : List Byte) (next : Word → Exec) : Exec :=
  match locateElfSymbol fuel image name 0#32 with
  | .running => .running
  | .fault f => .fault f
  | .returned code value => if code ≠ .ok then .returned false state [] else next value

/-- The message of the pager's start protocol; the stack has got two words before. -/
def startMessage (utcb : Utcb) (entryPoint spValue : Word) : Utcb :=
  ((utcb.setMr 0 (MsgTag.mk 2 0 0#32 0#32)).setMr 1 entryPoint).setMr 2 (spValue - 8#32)

def startThread (sys : Syscalls) (image : Loader) (state : ElfLoadState) (spValue : Word) : Exec :=
  if !sys.threadControl then .returned false state []
  else if !sys.spaceControl then .returned false state []
  else if !sys.mapIpc then .returned false state [state.mapMessage]
  else .returned sys.startIpc state [state.mapMessage, startMessage state.mapMessage image.entryPoint spValue]

def loadExecutable (fuel : Nat) (byte : Word → Byte) (sys : Syscalls) (allocator : Allocator) (utcb : Utcb) (elfBase : Word) : Exec :=
  match ElfLoadState.loadElfFile fuel byte ⟨elfBase, 0, allocator, utcb, []⟩ with
  | none => .running
  | some (.running _, _) => .running
  | some (.fault f, _) => .fault f
  | some (.returned code image, state) =>
    if code ≠ .ok then .returned false state []
    else
      withSymbol fuel image state utcbName fun _ =>
      withSymbol fuel image state spName fun spValue =>
      withSymbol fuel image state gotName fun _ => startThread sys image state spValue

/-! ### What a call does to the state of the callbacks -/

section
variable {fuel : Nat} {byte : Word → Byte} {sys : Syscalls} {allocator : Allocator} {utcb : Utcb} {elfBase : Word} {hdr : Ehdr}
  {image : Loader} {state state' : ElfLoadState} {result : Result} {I : ElfLoadState → Prop} {success : Bool} {sent : List Utcb}

namespace ElfLoadState

theorem loadPhdrs_invariant (keep : ∀ s phdr s', I s → s.afterPhdr fuel phdr = some s' → I s') {is : List Nat} (start : I state)
    (ran : loadPhdrs fuel byte hdr is image state = some (result, state')) : I state' := by
  induction is generalizing image state with
  | nil =>
    cases ran
    exact start
  | cons i is ih =>
    unfold loadPhdrs at ran
    dsimp only at ran
    split at ran
    · cases ran
    · rename_i next stepped
      have kept := keep _ _ _ start stepped
      split at ran
      · exact ih kept ran
      · cases ran
        exact kept

theorem loadElfFile_invariant (keep : ∀ s phdr s', I s → s.afterPhdr fuel phdr = some s' → I s') (start : I state)
    (ran : loadElfFile fuel byte state = some (result, state')) : I state' := by
  unfold loadElfFile at ran
  dsimp only at ran
  split at ran
  · cases ran
    exact start
  · split at ran
    · rename_i image next loaded
      have kept := loadPhdrs_invariant keep start loaded
      split at ran <;> cases ran <;> exact kept
    · exact loadPhdrs_invariant keep start ran

end ElfLoadState

theorem withSymbol_returned {name : List Byte} {next : Word → Exec}
    (ran : withSymbol fuel image state name next = .returned success state' sent) :
    (success = false ∧ state' = state ∧ sent = []) ∨ ∃ value, next value = .returned success state' sent := by
  unfold withSymbol at ran
  split at ran
  · cases ran
  · cases ran
  · split at ran
    · cases ran
      exact .inl ⟨rfl, rfl, rfl⟩
    · exact .inr ⟨_, ran⟩

theorem startThread_returned {spValue : Word} (ran : startThread sys image state spValue = .returned success state' sent) :
    state' = state ∧ (success = false ∧ (sent = [] ∨ sent = [state.mapMessage]) ∨
      sent = [state.mapMessage, startMessage state.mapMessage image.entryPoint spValue]) := by
  unfold startThread at ran
  split at ran
  · cases ran
    exact ⟨rfl, .inl ⟨rfl, .inl rfl⟩⟩
  · split at ran
    · cases ran
      exact ⟨rfl, .inl ⟨rfl, .inl rfl⟩⟩
    · split at ran
      · cases ran
        exact ⟨rfl, .inl ⟨rfl, .inr rfl⟩⟩
      · cases ran
        exact ⟨rfl, .inr rfl⟩

/-- A call that returns has loaded the file, or stopped when that failed, and sends nothing but the two messages. -/
theorem loadExecutable_returned (ran : loadExecutable fuel byte sys allocator utcb elfBase = .returned success state sent) :
    ∃ code image, ElfLoadState.loadElfFile fuel byte ⟨elfBase, 0, allocator, utcb, []⟩ = some (.returned code image, state) ∧
      (success = false ∧ (sent = [] ∨ sent = [state.mapMessage]) ∨
        code = .ok ∧ ∃ spValue, sent = [state.mapMessage, startMessage state.mapMessage image.entryPoint spValue]) := by
  unfold loadExecutable at ran
  split at ran
  · cases ran
  · cases ran
  · cases ran
  · rename_i code image reached loaded
    split at ran
    · cases ran
      exact ⟨code, image, loaded, .inl ⟨rfl, .inl rfl⟩⟩
    · rename_i ok
      rcases withSymbol_returned ran with ⟨rfl, rfl, rfl⟩ | ⟨_, ran⟩
      · exact ⟨code, image, loaded, .inl ⟨rfl, .inl rfl⟩⟩
      rcases withSymbol_returned ran with ⟨rfl, rfl, rfl⟩ | ⟨spValue, ran⟩
      · exact ⟨code, image, loaded, .inl ⟨rfl, .inl rfl⟩⟩
      rcases withSymbol_returned ran with ⟨rfl, rfl, rfl⟩ | ⟨_, ran⟩
      · exact ⟨code, image, loaded, .inl ⟨rfl, .inl rfl⟩⟩
      obtain ⟨rfl, few | all⟩ := startThread_returned ran
      · exact ⟨code, image, loaded, .inl few⟩
      · exact ⟨code, image, loaded, .inr ⟨not_not.mp ok, spValue, all⟩⟩

end

end BradypOS.Root
