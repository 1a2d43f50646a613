import BradypOS.Pages.Cyclic
import BradypOS.Root.Mappings

/-!
# Starts that fail

`elf_alloc_rw` takes pages from the allocator as soon as libelf comes to a writable segment, and nothing
gives them back when a later step fails. A start that fails gives its memory back if it has not taken any.
-/

namespace BradypOS.Root

open L4 Pages Elf Boot

/-! ### The property and the condition -/

/-- The list of the allocator is in order and has as many pages as it had. -/
def GaveBack (free : List Block) (a : Allocator) : Prop :=
  ∃ free', FreeList a free' ∧ (free'.map Block.pages).sum = (free.map Block.pages).sum

def IsLoad (phdr : Phdr) : Prop := phdr.pType = ptLoad
def ReadOnly (phdr : Phdr) : Prop := phdr.pFlags &&& pfW = 0#32

instance : DecidablePred IsLoad := fun _ => inferInstanceAs (Decidable (_ = _))
instance : DecidablePred ReadOnly := fun _ => inferInstanceAs (Decidable (_ = _))

/-- The pages that `elf_alloc_rw` asks for. -/
def pagesOf (phdr : Phdr) : Nat := (pagesFor (phdr.pMemsz + phdr.pVaddr % phdr.pAlign)).toNat

/-- With `mapped` items in the message, libelf comes to a writable segment before the items run out, and some free block is large
enough for the first one. -/
def TakesPages (free : List Block) (mapped : Nat) (headers : List Phdr) : Prop :=
  ∃ before phdr behind, headers = before ++ phdr :: behind ∧ (∀ h ∈ before, IsLoad h → ReadOnly h) ∧
    mapped + before.countP (IsLoad ·) ≤ 7 ∧ IsLoad phdr ∧ ¬ ReadOnly phdr ∧ phdr.pAlign ≠ 0#32 ∧ ∃ b ∈ free, pagesOf phdr ≤ b.pages

/-- The header of the file at `elfBase`, and its program headers. -/
def fileHeader (byte : Word → Byte) (elfBase : Word) : Ehdr := Ehdr.ofBytes fun k => byte (elfBase + 0#32 + BitVec.ofNat 32 k)

def programHeader (byte : Word → Byte) (elfBase : Word) (hdr : Ehdr) (i : Nat) : Phdr :=
  phdrOfBytes fun k => byte (elfBase + (hdr.ePhoff + BitVec.ofNat 32 (i * hdr.ePhentsize.toNat)) + BitVec.ofNat 32 k)

def programHeaders (byte : Word → Byte) (elfBase : Word) : List Phdr :=
  (List.range (fileHeader byte elfBase).ePhnum.toNat).map (programHeader byte elfBase (fileHeader byte elfBase))

/-! ### The headers one after another -/

section
variable {free : List Block} {mapped : Nat} {phdr : Phdr} {headers : List Phdr}

theorem takesPages_nil : ¬ TakesPages free mapped [] := by
  rintro ⟨before, phdr, behind, split, -⟩
  simp at split

theorem takesPages_cons : TakesPages free mapped (phdr :: headers) ↔
    (mapped ≤ 7 ∧ IsLoad phdr ∧ ¬ ReadOnly phdr ∧ phdr.pAlign ≠ 0#32 ∧ ∃ b ∈ free, pagesOf phdr ≤ b.pages) ∨
      (IsLoad phdr → ReadOnly phdr) ∧ TakesPages free (if IsLoad phdr then mapped + 1 else mapped) headers := by
  constructor
  · rintro ⟨before, w, behind, split, readOnly, room, rest⟩
    cases before with
    | nil =>
      obtain ⟨rfl, rfl⟩ := List.cons.inj split
      exact .inl ⟨room, rest⟩
    | cons h before =>
      obtain ⟨rfl, rfl⟩ := List.cons.inj split
      obtain ⟨here, others⟩ := List.forall_mem_cons.mp readOnly
      refine .inr ⟨here, before, w, behind, rfl, others, ?_, rest⟩
      rw [List.countP_cons] at room
      simp only [decide_eq_true_eq] at room
      split_ifs at room ⊢ <;> omega
  · rintro (⟨room, rest⟩ | ⟨here, before, w, behind, rfl, others, room, rest⟩)
    · exact ⟨[], phdr, headers, rfl, by simp, room, rest⟩
    · refine ⟨phdr :: before, w, behind, rfl, List.forall_mem_cons.mpr ⟨here, others⟩, ?_, rest⟩
      rw [List.countP_cons]
      simp only [decide_eq_true_eq]
      split_ifs at room ⊢ <;> omega

theorem not_takesPages_full (full : 7 < mapped) : ¬ TakesPages free mapped headers := by
  rintro ⟨before, phdr, behind, -, -, room, -⟩
  omega

end

/-! ### One header -/

section
variable {fuel i : Nat} {byte : Word → Byte} {hdr : Ehdr} {state state' next : ElfLoadState} {is : List Nat} {image : Loader} {result : Result}
  {addr location size perm : Word}

namespace ElfLoadState

theorem answer_accepted (room : state.mapCount < 7) (addr location size perm : Word) :
    state.answer addr location size perm = (some location, { state with
      utcb := (state.answer addr location size perm).2.utcb
      mapCount := state.mapCount + 1
      items := state.items ++ [segmentItem addr size perm] }) := by
  have accepted : ¬ 1 + state.mapCount * 2 + 2 ≥ mrCount := by
    unfold mrCount
    omega
  unfold answer addMapping
  rw [if_neg accepted]

theorem answer_refused (full : 7 ≤ state.mapCount) (addr location size perm : Word) : state.answer addr location size perm = (none, state) := by
  have refused : 1 + state.mapCount * 2 + 2 ≥ mrCount := by
    unfold mrCount
    omega
  unfold answer addMapping
  rw [if_pos refused]

theorem answer_allocator (state : ElfLoadState) (addr location size perm : Word) : (state.answer addr location size perm).2.allocator = state.allocator ∧
    (state.answer addr location size perm).2.elfBase = state.elfBase := by
  rcases Nat.lt_or_ge state.mapCount 7 with room | full
  · rw [answer_accepted room]
    exact ⟨rfl, rfl⟩
  · rw [answer_refused full]
    exact ⟨rfl, rfl⟩

theorem loadPhdrs_cons (ran : loadPhdrs fuel byte hdr (i :: is) image state = some (result, state')) :
    ∃ next, state.afterPhdr fuel (phdrAt (state.elfOps fuel byte) hdr i) = some next ∧
      (stop (state.elfOps fuel byte) hdr i = none ∧ (∃ image, loadPhdrs fuel byte hdr is image next = some (result, state')) ∨
        stop (state.elfOps fuel byte) hdr i ≠ none ∧ state' = next) := by
  unfold loadPhdrs at ran
  dsimp only at ran
  cases stepped : state.afterPhdr fuel (phdrAt (state.elfOps fuel byte) hdr i) with
  | none =>
    rw [stepped] at ran
    cases ran
  | some next =>
    rw [stepped] at ran
    refine ⟨next, rfl, ?_⟩
    cases stops : stop (state.elfOps fuel byte) hdr i with
    | none =>
      rw [loadPhdr_placed stops] at ran
      exact .inl ⟨rfl, _, ran⟩
    | some why =>
      refine .inr ⟨Option.some_ne_none _, ?_⟩
      cases why with
      | refused =>
        obtain ⟨half, refused⟩ := loadPhdr_refused (l := image) stops
        rw [refused] at ran
        cases ran
        rfl
      | divides =>
        rw [loadPhdr_divides stops] at ran
        cases ran
        rfl

/-- A header asks for pages once or not at all. -/
theorem afterPhdr_allocator {phdr : Phdr} (stepped : state.afterPhdr fuel phdr = some next) :
    next.allocator = state.allocator ∨ ∃ numPages base, linkedListAllocPages fuel state.allocator numPages = some (base, next.allocator) := by
  unfold afterPhdr at stepped
  dsimp only at stepped
  split at stepped
  · cases stepped
    exact .inl rfl
  split at stepped
  · cases stepped
    exact .inl (answer_allocator state _ _ _ _).1
  split at stepped
  · cases stepped
    exact .inl rfl
  · obtain ⟨answered, ran, rfl⟩ := Option.map_eq_some_iff.mp stepped
    obtain ⟨r, got, rfl⟩ := Option.map_eq_some_iff.mp ran
    refine .inr ⟨_, r.1, got.trans (congrArg some (Prod.ext rfl ?_))⟩
    dsimp only
    split
    · rfl
    · exact (answer_allocator { state with allocator := r.2 } _ _ _ _).1.symm

theorem afterPhdr_short {start count total : Nat} {phdr : Phdr} (pool : 0 < start ∧ start + pageSize * count ≤ 2 ^ 32)
    (missing : Short start count total state.allocator) (stepped : state.afterPhdr fuel phdr = some next) :
    Short start count total next.allocator := by
  rcases afterPhdr_allocator stepped with same | ⟨numPages, base, ran⟩
  · rwa [same]
  · exact missing.alloc pool ran

section
variable {phdr : Phdr} (header : phdrAt (state.elfOps fuel byte) hdr i = phdr)
include header

theorem header_other (other : ¬ IsLoad phdr) : stop (state.elfOps fuel byte) hdr i = none ∧ state.afterPhdr fuel phdr = some state := by
  unfold stop
  rw [header]
  exact ⟨if_pos other, if_pos other⟩

/-- A read-only segment has an item as long as there is room for one. -/
theorem header_readOnly (load : IsLoad phdr) (readOnly : ReadOnly phdr) :
    ∃ next, state.afterPhdr fuel phdr = some next ∧ next.allocator = state.allocator ∧ next.elfBase = state.elfBase ∧
      (state.mapCount < 7 ∧ stop (state.elfOps fuel byte) hdr i = none ∧ next.mapCount = state.mapCount + 1 ∨
        7 ≤ state.mapCount ∧ stop (state.elfOps fuel byte) hdr i ≠ none) := by
  have after : state.afterPhdr fuel phdr = some (state.elfMap phdr.pOffset phdr.pFilesz (elfFlagsToLibelfAccess phdr.pFlags)).2 :=
    (if_neg (not_not.mpr load)).trans (if_pos readOnly)
  have grants : granted (state.elfOps fuel byte) i phdr = (state.elfMap phdr.pOffset phdr.pFilesz (elfFlagsToLibelfAccess phdr.pFlags)).1 :=
    if_pos readOnly
  have stops : stop (state.elfOps fuel byte) hdr i = if granted (state.elfOps fuel byte) i phdr = none then some .refused else none := by
    unfold stop
    rw [header]
    exact (if_neg (not_not.mpr load)).trans (if_neg fun both => both.1 readOnly)
  obtain ⟨allocator, base⟩ := answer_allocator state (state.elfBase + phdr.pOffset) (state.elfBase + phdr.pOffset) phdr.pFilesz
    (elfFlagsToLibelfAccess phdr.pFlags)
  refine ⟨_, after, allocator, base, ?_⟩
  rw [stops, grants, elfMap]
  rcases Nat.lt_or_ge state.mapCount 7 with room | full
  · rw [answer_accepted room]
    exact .inl ⟨room, rfl, rfl⟩
  · rw [answer_refused full]
    exact .inr ⟨full, Option.some_ne_none _⟩

theorem header_divides (load : IsLoad phdr) (writable : ¬ ReadOnly phdr) (zero : phdr.pAlign = 0#32) :
    stop (state.elfOps fuel byte) hdr i ≠ none ∧ state.afterPhdr fuel phdr = some state := by
  have stops : stop (state.elfOps fuel byte) hdr i = some .divides := by
    unfold stop
    rw [header]
    exact (if_neg (not_not.mpr load)).trans (if_pos ⟨writable, zero⟩)
  rw [stops]
  exact ⟨Option.some_ne_none _, (if_neg (not_not.mpr load)).trans ((if_neg writable).trans (if_pos zero))⟩

/-- For a writable segment pages are asked for; without them it is the last one. -/
theorem header_writable (load : IsLoad phdr) (writable : ¬ ReadOnly phdr) (aligned : phdr.pAlign ≠ 0#32) {next : ElfLoadState}
    (stepped : state.afterPhdr fuel phdr = some next) :
    ∃ base, linkedListAllocPages fuel state.allocator (pagesOf phdr) = some (base, next.allocator) ∧
      (base = 0 → stop (state.elfOps fuel byte) hdr i ≠ none) := by
  have after : state.afterPhdr fuel phdr =
      (state.elfAllocRw fuel phdr.pMemsz (phdr.pVaddr % phdr.pAlign) (elfFlagsToLibelfAccess phdr.pFlags)).map Prod.snd :=
    (if_neg (not_not.mpr load)).trans ((if_neg writable).trans (if_neg aligned))
  rw [after] at stepped
  obtain ⟨answered, ran, rfl⟩ := Option.map_eq_some_iff.mp stepped
  have grants : granted (state.elfOps fuel byte) i phdr = answered.1 := by
    refine (if_neg writable).trans ?_
    simp [elfOps, ran]
  have stops : stop (state.elfOps fuel byte) hdr i = if granted (state.elfOps fuel byte) i phdr = none then some .refused else none := by
    unfold stop
    rw [header]
    exact (if_neg (not_not.mpr load)).trans (if_neg fun both => aligned both.2)
  obtain ⟨r, got, rfl⟩ := Option.map_eq_some_iff.mp ran
  refine ⟨r.1, got.trans (congrArg some (Prod.ext rfl ?_)), fun none_ => ?_⟩
  · dsimp only
    split
    · rfl
    · exact (answer_allocator { state with allocator := r.2 } _ _ _ _).1.symm
  · rw [stops, grants, if_pos none_, if_pos rfl]
    exact Option.some_ne_none _

end

end ElfLoadState

/-! ### All headers -/

section
variable {start count : Nat} {l : Ledger} {free : List Block} {elfBase : Word}

/-- A writable segment takes its pages if a block has as many, and they are missing from then on. -/
theorem writable_takes (kept : Conserved start count l free) (pool : 0 < start ∧ start + pageSize * count ≤ 2 ^ 32) (sized : Sized free)
    (same : state.allocator = l.allocator) {phdr : Phdr} (load : IsLoad phdr) (writable : ¬ ReadOnly phdr) (aligned : phdr.pAlign ≠ 0#32)
    {next : ElfLoadState} (stepped : state.afterPhdr fuel phdr = some next) (read : phdrAt (state.elfOps fuel byte) hdr i = phdr)
    (ends : stop (state.elfOps fuel byte) hdr i = none ∧
        (∃ image, ElfLoadState.loadPhdrs fuel byte hdr is image next = some (result, state')) ∨
      stop (state.elfOps fuel byte) hdr i ≠ none ∧ state' = next) :
    ((∃ b ∈ free, pagesOf phdr ≤ b.pages) ∧ Short start count (free.map Block.pages).sum state'.allocator) ∨
      ((¬ ∃ b ∈ free, pagesOf phdr ≤ b.pages) ∧ state'.allocator = l.allocator) := by
  obtain ⟨base, got, none_⟩ := ElfLoadState.header_writable read load writable aligned stepped
  rw [same] at got
  by_cases fits : ∃ b ∈ free, pagesOf phdr ≤ b.pages
  · have missing := (kept.alloc_short pool sized fits got).2
    refine .inl ⟨fits, ?_⟩
    rcases ends with ⟨-, image', ran⟩ | ⟨-, rfl⟩
    · exact ElfLoadState.loadPhdrs_invariant (I := fun s => Short start count (free.map Block.pages).sum s.allocator)
        (fun _ _ _ h stepped => ElfLoadState.afterPhdr_short pool h stepped) missing ran
    · exact missing
  · refine .inr ⟨fits, ?_⟩
    push Not at fits
    have nothing := alloc_fuel got (alloc_none kept.listed.toFreeList fits)
    obtain ⟨rfl, unchanged⟩ := Prod.mk.inj nothing
    rcases ends with ⟨go, -⟩ | ⟨-, rfl⟩
    · exact absurd go (none_ rfl)
    · exact unchanged

/-- Either the first writable segment gets pages, which are missing from then on, or none does. -/
theorem loadPhdrs_takes (kept : Conserved start count l free) (pool : 0 < start ∧ start + pageSize * count ≤ 2 ^ 32) (sized : Sized free)
    (same : state.allocator = l.allocator) (base : state.elfBase = elfBase) (room : state.mapCount ≤ 7)
    (ran : ElfLoadState.loadPhdrs fuel byte hdr is image state = some (result, state')) :
    (TakesPages free state.mapCount (is.map (programHeader byte elfBase hdr)) ∧ Short start count (free.map Block.pages).sum state'.allocator) ∨
      (¬ TakesPages free state.mapCount (is.map (programHeader byte elfBase hdr)) ∧ state'.allocator = l.allocator) := by
  induction is generalizing image state with
  | nil =>
    cases ran
    exact .inr ⟨takesPages_nil, same⟩
  | cons i is ih =>
    obtain ⟨next, stepped, ends⟩ := ElfLoadState.loadPhdrs_cons ran
    have header : phdrAt (state.elfOps fuel byte) hdr i = programHeader byte elfBase hdr i := by
      rw [← base]
      rfl
    rw [header] at stepped
    rw [List.map_cons, takesPages_cons]
    by_cases load : IsLoad (programHeader byte elfBase hdr i)
    · by_cases readOnly : ReadOnly (programHeader byte elfBase hdr i)
      · simp only [load, readOnly, not_true_eq_false, false_and, and_false, false_or, imp_self, true_and, if_true]
        obtain ⟨next', stepped', allocator, base', accepted | full⟩ := ElfLoadState.header_readOnly header load readOnly
        · obtain rfl := Option.some.inj (stepped.symm.trans stepped')
          obtain ⟨less, go, mapped⟩ := accepted
          rcases ends with ⟨-, image', ran'⟩ | ⟨stops, -⟩
          · rw [← mapped]
            exact ih (allocator.trans same) (base'.trans base) (mapped ▸ less) ran'
          · exact absurd go stops
        · obtain rfl := Option.some.inj (stepped.symm.trans stepped')
          rcases ends with ⟨go, -⟩ | ⟨-, rfl⟩
          · exact absurd go full.2
          · exact .inr ⟨not_takesPages_full (Nat.lt_succ_of_le full.1), allocator.trans same⟩
      · simp only [load, readOnly, not_false_eq_true, true_and, imp_false, not_true_eq_false, false_and, or_false, room]
        by_cases aligned : (programHeader byte elfBase hdr i).pAlign = 0#32
        · obtain ⟨stops, stepped'⟩ := ElfLoadState.header_divides header load readOnly aligned
          obtain rfl := Option.some.inj (stepped.symm.trans stepped')
          rcases ends with ⟨go, -⟩ | ⟨-, rfl⟩
          · exact absurd go stops
          · exact .inr ⟨fun takes => takes.1 aligned, same⟩
        · rcases writable_takes kept pool sized same load readOnly aligned stepped header ends with ⟨fits, missing⟩ | ⟨fits, unchanged⟩
          · exact .inl ⟨⟨aligned, fits⟩, missing⟩
          · exact .inr ⟨fun takes => fits takes.2, unchanged⟩
    · simp only [load, false_and, and_false, false_or, false_imp_iff, true_and, if_false]
      obtain ⟨go, stepped'⟩ := ElfLoadState.header_other header load
      obtain rfl := Option.some.inj (stepped.symm.trans stepped')
      rcases ends with ⟨-, image', ran'⟩ | ⟨stops, -⟩
      · exact ih same base room ran'
      · exact absurd go stops

theorem loadElfFile_valid (valid : validateElfHeader (state.elfHdr byte) = .ok)
    (ran : ElfLoadState.loadElfFile fuel byte state = some (result, state')) :
    ∃ placed, ElfLoadState.loadPhdrs fuel byte (state.elfHdr byte) (List.range (state.elfHdr byte).ePhnum.toNat) (.fresh byte) state =
      some (placed, state') := by
  unfold ElfLoadState.loadElfFile at ran
  dsimp only at ran
  rw [if_neg (not_not.mpr valid)] at ran
  split at ran
  · rename_i image next loaded
    have same : next = state' := by
      split at ran <;> cases ran <;> rfl
    exact ⟨_, by rw [loaded, same]⟩
  · exact ⟨result, ran⟩

theorem loadElfFile_takes (kept : Conserved start count l free) (pool : 0 < start ∧ start + pageSize * count ≤ 2 ^ 32) (sized : Sized free)
    {utcb : Utcb} (ran : ElfLoadState.loadElfFile fuel byte ⟨elfBase, 0, l.allocator, utcb, []⟩ = some (result, state')) :
    (validateElfHeader (fileHeader byte elfBase) = .ok ∧ TakesPages free 0 (programHeaders byte elfBase)) ∧
        Short start count (free.map Block.pages).sum state'.allocator ∨
      ¬ (validateElfHeader (fileHeader byte elfBase) = .ok ∧ TakesPages free 0 (programHeaders byte elfBase)) ∧
        state'.allocator = l.allocator := by
  by_cases valid : validateElfHeader (fileHeader byte elfBase) = .ok
  · have valid' : validateElfHeader (ElfLoadState.elfHdr byte ⟨elfBase, 0, l.allocator, utcb, []⟩) = .ok := valid
    obtain ⟨placed, loaded⟩ := loadElfFile_valid valid' ran
    rcases loadPhdrs_takes kept pool sized rfl rfl (Nat.zero_le 7) loaded with ⟨takes, missing⟩ | ⟨none_, unchanged⟩
    · exact .inl ⟨⟨valid, takes⟩, missing⟩
    · exact .inr ⟨fun both => none_ both.2, unchanged⟩
  · refine .inr ⟨fun both => valid both.1, ?_⟩
    unfold ElfLoadState.loadElfFile at ran
    have invalid : validateElfHeader (ElfLoadState.elfHdr byte ⟨elfBase, 0, l.allocator, utcb, []⟩) ≠ .ok := valid
    dsimp only at ran
    rw [if_pos invalid] at ran
    cases ran
    rfl

end
end

/-- In every state of the page allocator a start that fails gives its memory back exactly if the file has no header that libelf takes
pages for. -/
theorem load_gives_back_iff {m : Pages.Memory} {start count : Nat} {actions : List Action} {l : Ledger} {free : List Block}
    (pool : 0 < start ∧ start + pageSize * count ≤ 2 ^ 32) (page : 0 < count)
    (run : Theory.Run Step ⟨initLinkedListAllocState m start count, []⟩ actions l) (listed : FreeList l.allocator free)
    {fuel : Nat} {byte : Word → Byte} {sys : Syscalls} {utcb : Utcb} {elfBase : Word} {state : ElfLoadState} {sent : List Utcb}
    (failed : loadExecutable fuel byte sys l.allocator utcb elfBase = .returned false state sent) :
    GaveBack free state.allocator ↔
      ¬ (validateElfHeader (fileHeader byte elfBase) = .ok ∧ TakesPages free 0 (programHeaders byte elfBase)) := by
  obtain ⟨free', kept, sized⟩ := run_sized pool page run
  obtain rfl := kept.listed.toFreeList.unique listed
  obtain ⟨code, image, loaded, -⟩ := loadExecutable_returned failed
  rcases loadElfFile_takes kept pool sized loaded with ⟨takes, missing⟩ | ⟨none_, unchanged⟩
  · exact iff_of_false missing.not_listed (not_not.mpr takes)
  · refine iff_of_true ⟨free, ?_, rfl⟩ none_
    rw [unchanged]
    exact listed

/-- A pool of 516 pages. -/
def wholePool : Allocator := initLinkedListAllocState (fun _ => 0) 0x20001800 516

set_option maxRecDepth 100000 in
/-- The kernel makes no thread for the program, which has no writable segment. -/
theorem load_gives_back_program : ∃ state,
    loadExecutable 4 programByte ⟨false, true, true, true⟩ wholePool zeroUtcb 0x10000000#32 = .returned false state [] ∧
      GaveBack [⟨0x20001800, 516⟩] state.allocator := by
  obtain ⟨state, ran⟩ : ∃ state, loadExecutable 4 programByte ⟨false, true, true, true⟩ wholePool zeroUtcb 0x10000000#32 =
    .returned false state [] := ⟨_, rfl⟩
  have listed : FreeList wholePool [⟨0x20001800, 516⟩] := (init_listed (fun _ => 0) (by decide)).toFreeList
  have run : Theory.Run Step ⟨initLinkedListAllocState (fun _ => 0) 0x20001800 516, []⟩ [] ⟨wholePool, []⟩ := .nil _
  refine ⟨state, ran, (load_gives_back_iff (by decide) (by decide) run listed ran).mpr ?_⟩
  rintro ⟨-, before, phdr, behind, split, -, -, -, writable, -⟩
  have readOnly : ∀ h ∈ programHeaders programByte 0x10000000#32, ReadOnly h := by decide
  exact writable (readOnly phdr (by rw [split]; simp))

/-- A file of one writable segment, in which no symbol is found. -/
def noSymbolByte (a : Word) : Byte :=
  (elfHdrBytes 1#8 ++ phdrBytes ⟨ptLoad, 84#32, 0x9000#32, 16#32, 16#32, pfR ||| pfW, 4#32⟩).getD (a - 0x10000000#32).toNat 0#8

theorem noSymbol_leaks : ∃ state,
    loadExecutable 4 noSymbolByte ⟨true, true, true, true⟩ wholePool zeroUtcb 0x10000000#32 = .returned false state [] ∧
      ¬ GaveBack [⟨0x20001800, 516⟩] state.allocator := by
  have taken : ∃ a, linkedListAllocPages 4 wholePool 1 = some (0x20001800, a) ∧ ∃ state, state.allocator = a ∧
      loadExecutable 4 noSymbolByte ⟨true, true, true, true⟩ wholePool zeroUtcb 0x10000000#32 = .returned false state [] :=
    ⟨_, rfl, _, rfl, rfl⟩
  obtain ⟨a, got, state, rfl, ran⟩ := taken
  have kept : Conserved 0x20001800 516 ⟨wholePool, []⟩ [⟨0x20001800, 516⟩] := init_conserved _ 516 (by decide)
  have sized : Sized [⟨0x20001800, 516⟩] := fun b member => by
    rw [List.mem_singleton.mp member]
    decide
  exact ⟨state, ran, (kept.alloc_short (by decide) sized ⟨_, List.mem_singleton_self _, by decide⟩ got).2.not_listed⟩

end BradypOS.Root
