import BradypOS.L4.Types
import BradypOS.Pages.LinkedListAlloc

/-!
# From the boot loader to the page pool

Where `lib/elf/elf.c` and `boot/boot.c` put the segments of the kernel and of root, what
`boot/bootinfo.c` reports of them, and the pool that `usr/root/memory.c` makes of the report. The
contents of the segments (file data, relocations, symbols) are left out.
-/

namespace BradypOS.Boot

/-! ### Loading (`lib/elf/elf.c`, `boot/boot.c`) -/

def ptLoad : Word := 1#32
def ptDynamic : Word := 2#32

def pfX : Word := 1#32
def pfW : Word := 2#32
def pfR : Word := 4#32

/-- `Elf32_Phdr`. -/
structure Phdr where
  pType : Word
  pOffset : Word
  pVaddr : Word
  pFilesz : Word
  pMemsz : Word
  pFlags : Word
  pAlign : Word

structure ElfFile where
  eEntry : Word
  phdrs : List Phdr

structure LoadedSegment where
  linkedAddr : Word
  loadedAddr : Word
  size : Word
  perm : Word

def LoadedSegment.zero : LoadedSegment := ⟨0, 0, 0, 0⟩

structure LibelfState where
  entryPoint : Word
  phdrs : Word
  segments : List LoadedSegment

structure ElfFileState where
  elfFileBase : Word
  sramMarker : Word

def alignPtr (ptr align : Word) : Word :=
  let alignMask := align - 1
  (ptr + alignMask) &&& ~~~alignMask

def elfAllocRw (state : ElfFileState) (size align alignOffset : Word) : Word × ElfFileState :=
  let location := alignPtr state.sramMarker align + alignOffset
  (location, { state with sramMarker := location + size })

def elfMap (state : ElfFileState) (offset : Word) : Word := state.elfFileBase + offset

def elfFlagsToLibelfAccess (flags : Word) : Word :=
  (if flags &&& pfR ≠ 0 then 1#32 else 0) ||| (if flags &&& pfW ≠ 0 then 2#32 else 0) |||
    (if flags &&& pfX ≠ 0 then 4#32 else 0)

def linkedToLoadedAddr (segments : List LoadedSegment) (addr : Word) : Word :=
  match segments.find? fun s => s.linkedAddr ≤ addr ∧ addr < s.linkedAddr + s.size with
  | some s => s.loadedAddr + (addr - s.linkedAddr)
  | none => 0

/-- The `PT_LOAD` case of `load_elf_file`. -/
def loadSegment (user : ElfFileState) (phdr : Phdr) : LoadedSegment × ElfFileState :=
  let segment := fun loc => (⟨phdr.pVaddr, loc, phdr.pMemsz, elfFlagsToLibelfAccess phdr.pFlags⟩ : LoadedSegment)
  if phdr.pFlags &&& pfW = 0 then
    (segment (elfMap user phdr.pOffset), user)
  else
    let (loc, user) := elfAllocRw user phdr.pMemsz phdr.pAlign (phdr.pVaddr % phdr.pAlign)
    (segment loc, user)

def loadPhdr (loading : LibelfState × ElfFileState) (phdr : Phdr) : LibelfState × ElfFileState :=
  let (state, user) := loading
  if phdr.pType = ptLoad then
    let (segment, user) := loadSegment user phdr
    ({ state with segments := state.segments ++ [segment] }, user)
  else if phdr.pType = ptDynamic then
    ({ state with phdrs := linkedToLoadedAddr state.segments phdr.pVaddr }, user)
  else (state, user)

def loadElfFile (file : ElfFile) (user : ElfFileState) : LibelfState × ElfFileState :=
  let (state, user) := file.phdrs.foldl loadPhdr (⟨0, 0, []⟩, user)
  ({ state with entryPoint := linkedToLoadedAddr state.segments file.eEntry }, user)

/-- What `main` of the boot loader starts from. -/
structure Images where
  sramStart : Word
  kern : ElfFile
  kernElfBase : Word
  root : ElfFile
  rootElfBase : Word

/-- The kernel is loaded first; root is laid out behind it. -/
def Images.load (images : Images) : LibelfState × LibelfState :=
  let (kernState, user) := loadElfFile images.kern ⟨images.kernElfBase, images.sramStart⟩
  let (rootState, _) := loadElfFile images.root { user with elfFileBase := images.rootElfBase }
  (kernState, rootState)

/-! ### The boot info (`boot/bootinfo.c`) -/

structure SegmentInfo where
  pstart : Word
  vstart : Word
  size : Word

structure RecordExe where
  version : Word
  text : SegmentInfo
  data : SegmentInfo
  bss : SegmentInfo
  initialIp : Word
  flags : Word
  label : Word
  cmdlineOffset : Word

/-- A record of the boot info; the records are listed in the order of their `offset_next` links. -/
inductive BootInfoRec where
  | exe (record : RecordExe)
  | variables (version : Word) (entries : List (String × Word))

def elfToBootSegment (segment : LoadedSegment) : SegmentInfo :=
  ⟨segment.loadedAddr, segment.loadedAddr, segment.size⟩

def exeRecord (state : LibelfState) (label : Word) : RecordExe where
  version := 1
  text := elfToBootSegment (state.segments.getD 0 .zero)
  data := elfToBootSegment (state.segments.getD 1 .zero)
  bss := ⟨0, 0, 0⟩
  initialIp := state.entryPoint
  flags := 0
  label := label
  cmdlineOffset := 0

/-- `"kern"` and `"root"` as little-endian words. -/
def kernLabel : Word := 0x6E72656B#32
def rootLabel : Word := 0x746F6F72#32

/-- The values of the variables are symbols of root and the place of the file system. -/
def constructBootInfo (kernState rootState : LibelfState) (rootGot rootUtcb romfsStart : Word) : List BootInfoRec :=
  [.exe (exeRecord kernState kernLabel),
   .exe (exeRecord rootState rootLabel),
   .variables 1 [("root_got", rootGot), ("root_utcb", rootUtcb), ("rootfs_base", romfsStart)]]

/-! ### The page pool (`usr/root/memory.c`) -/

def rpiPicoSramEnd : Word := 0x20000000#32 + 0x00042000#32

def alignToPage (value : Word) : Word :=
  let alignMask := 512#32 - 1
  (value + alignMask) &&& ~~~alignMask

/-- One round of the loop of `find_heap_start`. -/
def higherAddress (highest : Word) (entry : BootInfoRec) : Word :=
  match entry with
  | .variables _ _ => highest
  | .exe exe =>
    let maxAddressData := exe.data.vstart + exe.data.size
    let highest := if maxAddressData > highest then maxAddressData else highest
    let maxAddressBss := exe.bss.vstart + exe.bss.size
    if maxAddressBss > highest then maxAddressBss else highest

def findHeapStart (info : List BootInfoRec) : Word :=
  alignToPage (info.foldl higherAddress 0)

/-- The base and the number of pages `init_memory_management` passes on. -/
def poolOf (info : List BootInfoRec) : Word × Word :=
  let heapBaseAligned := findHeapStart info
  (heapBaseAligned, (rpiPicoSramEnd - heapBaseAligned) >>> 9)

def initMemoryManagement (memory : Pages.Memory) (info : List BootInfoRec) : Pages.Allocator :=
  Pages.initLinkedListAllocState memory (poolOf info).1.toNat (poolOf info).2.toNat

/-! ### The kernel's exception stack (`kern/start.s`) -/

def kernStackBase : Word := 0x20040000#32
def kernStackSize : Word := 0x200#32

end BradypOS.Boot
