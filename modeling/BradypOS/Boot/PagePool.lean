import BradypOS.Theory.Align
import BradypOS.Boot.Loader
import BradypOS.Pages.Conservation

/-!
# The page pool and the memory in use

The pool reaches from the end of the loaded images to the end of the SRAM. The exception stack of the
kernel lies in the SRAM as well, at a fixed address that nothing reports to root.
-/

namespace BradypOS.Boot

open Theory (Run roundUp)

/-! ### Where the writable segments lie -/

/-- One read-only and one writable `PT_LOAD` header, in this order; the alignment of the writable one is a power of two. -/
structure TwoSegments (file : ElfFile) (ro rw : Phdr) : Prop where
  loads : file.phdrs.filter (·.pType = ptLoad) = [ro, rw]
  readOnly : ro.pFlags &&& pfW = 0
  writable : rw.pFlags &&& pfW ≠ 0
  align : ∃ k < 32, rw.pAlign.toNat = 2 ^ k

def writableStart (marker : Nat) (rw : Phdr) : Nat :=
  roundUp rw.pAlign.toNat marker + rw.pVaddr.toNat % rw.pAlign.toNat

def writableEnd (marker : Nat) (rw : Phdr) : Nat := writableStart marker rw + rw.pMemsz.toNat

/-- The end of root's writable segment behind the kernel's, in exact arithmetic. -/
def layoutEnd (sramStart : Nat) (kernRw rootRw : Phdr) : Nat := writableEnd (writableEnd sramStart kernRw) rootRw

section
variable {file : ElfFile} {ro rw : Phdr} {user : ElfFileState} {marker : Nat}

/-- The segments and the marker depend on the `PT_LOAD` headers only. -/
theorem foldl_loadPhdr (phdrs : List Phdr) (state : LibelfState) (user : ElfFileState) :
    (phdrs.foldl loadPhdr (state, user)).1.segments =
        ((phdrs.filter (·.pType = ptLoad)).foldl loadPhdr (state, user)).1.segments ∧
      (phdrs.foldl loadPhdr (state, user)).2 = ((phdrs.filter (·.pType = ptLoad)).foldl loadPhdr (state, user)).2 := by
  have blind : ∀ (phdrs : List Phdr) (state state' : LibelfState) (user : ElfFileState), state.segments = state'.segments →
      (phdrs.foldl loadPhdr (state, user)).1.segments = (phdrs.foldl loadPhdr (state', user)).1.segments ∧
        (phdrs.foldl loadPhdr (state, user)).2 = (phdrs.foldl loadPhdr (state', user)).2 := by
    intro phdrs
    induction phdrs with
    | nil => exact fun _ _ _ same => ⟨same, rfl⟩
    | cons phdr phdrs ih =>
      intro state state' user same
      simp only [List.foldl_cons, loadPhdr]
      split
      · exact ih _ _ _ (by simp [same])
      · split
        · exact ih _ _ _ same
        · exact ih _ _ _ same
  induction phdrs generalizing state user with
  | nil => exact ⟨rfl, rfl⟩
  | cons phdr phdrs ih =>
    by_cases load : phdr.pType = ptLoad
    · simp only [List.filter_cons, load, decide_true, if_true, List.foldl_cons]
      exact ih _ _
    · simp only [List.filter_cons, load, decide_false, List.foldl_cons, Bool.false_eq_true, if_false]
      have skip : ∃ state', loadPhdr (state, user) phdr = (state', user) ∧ state'.segments = state.segments := by
        simp only [loadPhdr, if_neg load]
        split
        · exact ⟨_, rfl, rfl⟩
        · exact ⟨_, rfl, rfl⟩
      obtain ⟨state', step, same⟩ := skip
      rw [step]
      obtain ⟨segments, marker⟩ := ih state' user
      obtain ⟨segments', marker'⟩ := blind (phdrs.filter (·.pType = ptLoad)) state' state user same
      exact ⟨segments.trans segments', marker.trans marker'⟩

theorem alignPtr_toNat {ptr align : Word} {k : Nat} (power : align.toNat = 2 ^ k)
    (fits : roundUp align.toNat ptr.toNat < 2 ^ 32) (small : k < 32) : (alignPtr ptr align).toNat = roundUp align.toNat ptr.toNat := by
  have positive : 0 < 2 ^ k := Nat.two_pow_pos k
  have mask : (align - 1).toNat = 2 ^ k - 1 := by
    rw [BitVec.toNat_sub_of_le]
    · rw [power]
      rfl
    · show (1#32).toNat ≤ align.toNat
      rw [power]
      exact positive
  have noWrap : ptr.toNat + (2 ^ k - 1) < 2 ^ 32 := by
    by_contra wrap
    have whole : 2 ^ k ∣ 2 ^ 32 := Nat.pow_dvd_pow 2 (Nat.le_of_lt small)
    obtain ⟨n, words⟩ := whole
    have quotient : n ≤ (ptr.toNat + (2 ^ k - 1)) / 2 ^ k := by
      apply (Nat.le_div_iff_mul_le positive).mpr
      rw [Nat.mul_comm, ← words]
      omega
    have large : 2 ^ 32 ≤ roundUp align.toNat ptr.toNat := by
      unfold roundUp
      rw [power]
      calc 2 ^ 32 = n * 2 ^ k := by rw [words, Nat.mul_comm]
        _ ≤ _ := Nat.mul_le_mul_right _ quotient
    omega
  rw [power]
  exact Theory.toNat_roundUp ptr _ mask noWrap

/-- What loading a file yields, as long as the layout does not wrap. -/
theorem loadElfFile_segments (two : TwoSegments file ro rw) (fits : writableEnd user.sramMarker.toNat rw < 2 ^ 32) :
    ∃ text data : LoadedSegment, (loadElfFile file user).1.segments = [text, data] ∧
      data.loadedAddr.toNat = writableStart user.sramMarker.toNat rw ∧ data.size = rw.pMemsz ∧
      (loadElfFile file user).2.sramMarker.toNat = writableEnd user.sramMarker.toNat rw := by
  obtain ⟨k, small, power⟩ := two.align
  obtain ⟨segments, marker⟩ := foldl_loadPhdr file.phdrs ⟨0, 0, []⟩ user
  have roLoad : ro.pType = ptLoad := by
    have member : ro ∈ file.phdrs.filter (·.pType = ptLoad) := by rw [two.loads]; simp
    simpa using (List.mem_filter.mp member).2
  have rwLoad : rw.pType = ptLoad := by
    have member : rw ∈ file.phdrs.filter (·.pType = ptLoad) := by rw [two.loads]; simp
    simpa using (List.mem_filter.mp member).2
  rw [two.loads] at segments marker
  simp only [List.foldl_cons, List.foldl_nil, loadPhdr, roLoad, rwLoad, if_true, loadSegment, two.readOnly, if_neg two.writable,
    elfAllocRw, List.nil_append, List.singleton_append] at segments marker
  unfold writableEnd writableStart at fits
  have aligned : (alignPtr user.sramMarker rw.pAlign).toNat = roundUp rw.pAlign.toNat user.sramMarker.toNat :=
    alignPtr_toNat power (by omega) small
  have offset : (rw.pVaddr % rw.pAlign).toNat = rw.pVaddr.toNat % rw.pAlign.toNat := BitVec.toNat_umod
  refine ⟨_, _, segments, ?_, rfl, ?_⟩
  · rw [BitVec.toNat_add, aligned, offset, Nat.mod_eq_of_lt (by omega)]
    rfl
  · show ((file.phdrs.foldl loadPhdr (⟨0, 0, []⟩, user)).2.sramMarker).toNat = _
    rw [marker]
    show (alignPtr user.sramMarker rw.pAlign + rw.pVaddr % rw.pAlign + rw.pMemsz).toNat = _
    rw [BitVec.toNat_add, BitVec.toNat_add, aligned, offset, Nat.mod_eq_of_lt (a := _ + _) (by omega), Nat.mod_eq_of_lt (by omega)]
    rfl

end

/-! ### The pool -/

/-- `count` bytes from `base`, in the 32-bit address space. -/
def Within (base : Word) (count : Nat) (address : Word) : Prop := (address - base).toNat < count

def Images.bootInfo (images : Images) (rootGot rootUtcb romfsStart : Word) : List BootInfoRec :=
  constructBootInfo images.load.1 images.load.2 rootGot rootUtcb romfsStart

def InPool (info : List BootInfoRec) (address : Word) : Prop :=
  Within (poolOf info).1 (Pages.pageSize * (poolOf info).2.toNat) address

def LoadedSegment.Holds (segment : LoadedSegment) (address : Word) : Prop :=
  Within segment.loadedAddr segment.size.toNat address

/-- The writable segments of the two images and the exception stack. -/
def Images.InUse (images : Images) (address : Word) : Prop :=
  (images.load.1.segments.getD 1 .zero).Holds address ∨ (images.load.2.segments.getD 1 .zero).Holds address ∨
    Within kernStackBase kernStackSize.toNat address

/-- The pool starts at a page, holds nothing in use, and no sequence of calls hands out anything in use. -/
structure PoolClear (images : Images) (info : List BootInfoRec) : Prop where
  aligned : (poolOf info).1.toNat % Pages.pageSize = 0
  disjoint : ∀ address, InPool info address → ¬ images.InUse address
  handed : ∀ (memory : Pages.Memory) (actions : List Pages.Action) (l : Pages.Ledger),
    Run Pages.Step ⟨initMemoryManagement memory info, []⟩ actions l →
    ∀ b ∈ l.handed, ∀ address : Word, b.Covers address.toNat → ¬ images.InUse address

/-- Two segments, one behind the other from `sramStart` on, with `last` the end of the second. -/
structure LaidOut (images : Images) (last : Nat) : Prop where
  fits : last < 2 ^ 32
  kern : ∃ text data, images.load.1.segments = [text, data] ∧ data.loadedAddr.toNat + data.size.toNat ≤ last
  root : ∃ text data, images.load.2.segments = [text, data] ∧ data.loadedAddr.toNat + data.size.toNat = last

section
variable {images : Images} {kernRo kernRw rootRo rootRw : Phdr} {last : Nat} {address : Word} (rootGot rootUtcb romfsStart : Word)

theorem laidOut (kern : TwoSegments images.kern kernRo kernRw) (root : TwoSegments images.root rootRo rootRw)
    (fits : layoutEnd images.sramStart.toNat kernRw rootRw < 2 ^ 32) :
    LaidOut images (layoutEnd images.sramStart.toNat kernRw rootRw) := by
  unfold layoutEnd at fits ⊢
  have below : writableEnd images.sramStart.toNat kernRw ≤ writableEnd (writableEnd images.sramStart.toNat kernRw) rootRw := by
    obtain ⟨k, -, power⟩ := root.align
    have grows := Theory.le_roundUp (power ▸ Nat.two_pow_pos k) (writableEnd images.sramStart.toNat kernRw)
    unfold writableEnd writableStart at grows ⊢
    omega
  have first : writableEnd (ElfFileState.mk images.kernElfBase images.sramStart).sramMarker.toNat kernRw < 2 ^ 32 :=
    Nat.lt_of_le_of_lt below fits
  obtain ⟨text, data, segments, start, size, marker⟩ := loadElfFile_segments kern first
  obtain ⟨user, userEq⟩ : ∃ user, user = { (loadElfFile images.kern ⟨images.kernElfBase, images.sramStart⟩).2 with
    elfFileBase := images.rootElfBase } := ⟨_, rfl⟩
  have marked : user.sramMarker.toNat = writableEnd images.sramStart.toNat kernRw := by rw [userEq]; exact marker
  rw [← marked] at fits
  obtain ⟨text', data', segments', start', size', -⟩ := loadElfFile_segments root fits
  rw [marked] at fits start'
  refine ⟨fits, ⟨text, data, segments, ?_⟩, ⟨text', data', ?_, ?_⟩⟩
  · rw [start, size]
    exact below
  · rw [userEq] at segments'
    exact segments'
  · rw [start', size']
    rfl

theorem LaidOut.highest (h : LaidOut images last) :
    ((images.bootInfo rootGot rootUtcb romfsStart).foldl higherAddress 0).toNat = last := by
  obtain ⟨text, data, segments, le⟩ := h.kern
  obtain ⟨text', data', segments', eq⟩ := h.root
  have fits := h.fits
  have kernEnd : (data.loadedAddr + data.size).toNat = data.loadedAddr.toNat + data.size.toNat := by
    rw [BitVec.toNat_add, Nat.mod_eq_of_lt (by omega)]
  have rootEnd : (data'.loadedAddr + data'.size).toNat = last := by
    rw [BitVec.toNat_add, Nat.mod_eq_of_lt (by omega), eq]
  simp only [Images.bootInfo, constructBootInfo, exeRecord, segments, segments', elfToBootSegment, List.foldl_cons, List.foldl_nil,
    higherAddress, List.getD_cons_succ, List.getD_cons_zero, gt_iff_lt, BitVec.lt_def]
  have bss : ((0 : Word) + 0).toNat = 0 := rfl
  have start : (0 : Word).toNat = 0 := rfl
  simp only [bss, start, Nat.not_lt_zero, if_false]
  split
  · split
    · exact rootEnd
    · rename_i notHigher
      omega
  · split
    · exact rootEnd
    · rename_i notHigher
      omega

theorem alignToPage_toNat {value : Word} (fits : value.toNat + 511 < 2 ^ 32) :
    (alignToPage value).toNat = roundUp Pages.pageSize value.toNat :=
  Theory.toNat_roundUp (k := 9) value _ rfl fits

theorem alignToPage_aligned (value : Word) : (alignToPage value).toNat % Pages.pageSize = 0 := by
  have cleared := Theory.toNat_clear_low (k := 9) (value + (512#32 - 1)) (512#32 - 1) rfl
  unfold alignToPage
  rw [cleared]
  exact Nat.mul_mod_left _ _

theorem alignToPage_wraps {value : Word} (wraps : 2 ^ 32 ≤ value.toNat + 511) : (alignToPage value).toNat = 0 := by
  have cleared := Theory.toNat_clear_low (k := 9) (value + (512#32 - 1)) (512#32 - 1) rfl
  have bound := value.isLt
  unfold alignToPage
  rw [cleared, BitVec.toNat_add]
  show (value.toNat + 511) % 2 ^ 32 / 2 ^ 9 * 2 ^ 9 = 0
  omega

/-! ### When the pool is clear -/

theorem poolOf_pages (info : List BootInfoRec) :
    (poolOf info).2.toNat = (2 ^ 32 - (poolOf info).1.toNat + 0x20042000) % 2 ^ 32 / Pages.pageSize := by
  show ((rpiPicoSramEnd - findHeapStart info) >>> 9).toNat = _
  rw [BitVec.toNat_ushiftRight, BitVec.toNat_sub, Nat.shiftRight_eq_div_pow]
  rfl

/-- The base of the pool, unless rounding up leaves the address space. -/
theorem LaidOut.base (h : LaidOut images last) :
    (poolOf (images.bootInfo rootGot rootUtcb romfsStart)).1.toNat =
      if last + 511 < 2 ^ 32 then roundUp Pages.pageSize last else 0 := by
  have highest := h.highest rootGot rootUtcb romfsStart
  show (alignToPage _).toNat = _
  split
  · rename_i fits
    rw [alignToPage_toNat (by rw [highest]; exact fits), highest]
  · rename_i wraps
    exact alignToPage_wraps (by rw [highest]; omega)

theorem within_iff {base address : Word} {count : Nat} :
    Within base count address ↔ (2 ^ 32 - base.toNat + address.toNat) % 2 ^ 32 < count := by
  unfold Within
  rw [BitVec.toNat_sub]

/-- Unless the images end above the base of the exception stack and within the SRAM, the pool holds that base. -/
theorem LaidOut.stack_in_pool (h : LaidOut images last) (out : last ≤ 0x20040000 ∨ 0x20042000 < last) :
    InPool (images.bootInfo rootGot rootUtcb romfsStart) kernStackBase := by
  have base := h.base rootGot rootUtcb romfsStart
  have pages := poolOf_pages (images.bootInfo rootGot rootUtcb romfsStart)
  have aligned := alignToPage_aligned ((images.bootInfo rootGot rootUtcb romfsStart).foldl higherAddress 0)
  have positive : 0 < Pages.pageSize := by decide
  have low := Theory.le_roundUp positive last
  have high := Theory.roundUp_lt positive last
  have fits := h.fits
  have whole : (poolOf (images.bootInfo rootGot rootUtcb romfsStart)).1.toNat % Pages.pageSize = 0 := aligned
  have stack : kernStackBase.toNat = 0x20040000 := rfl
  unfold InPool
  rw [within_iff, stack]
  generalize (poolOf (images.bootInfo rootGot rootUtcb romfsStart)).1.toNat = b at base pages whole ⊢
  generalize (poolOf (images.bootInfo rootGot rootUtcb romfsStart)).2.toNat = n at pages ⊢
  unfold Pages.pageSize at *
  split at base
  · omega
  · omega

/-- Where the images end there, the pool is what is left of the SRAM behind the exception stack. -/
theorem LaidOut.pool_bounds (h : LaidOut images last) (above : 0x20040000 < last) (within_ : last ≤ 0x20042000) :
    last ≤ (poolOf (images.bootInfo rootGot rootUtcb romfsStart)).1.toNat ∧
      0x20040200 ≤ (poolOf (images.bootInfo rootGot rootUtcb romfsStart)).1.toNat ∧
      (poolOf (images.bootInfo rootGot rootUtcb romfsStart)).1.toNat +
        Pages.pageSize * (poolOf (images.bootInfo rootGot rootUtcb romfsStart)).2.toNat = 0x20042000 := by
  have base := h.base rootGot rootUtcb romfsStart
  have pages := poolOf_pages (images.bootInfo rootGot rootUtcb romfsStart)
  have whole : (poolOf (images.bootInfo rootGot rootUtcb romfsStart)).1.toNat % Pages.pageSize = 0 :=
    alignToPage_aligned ((images.bootInfo rootGot rootUtcb romfsStart).foldl higherAddress 0)
  have positive : 0 < Pages.pageSize := by decide
  have low := Theory.le_roundUp positive last
  have high := Theory.roundUp_lt positive last
  generalize (poolOf (images.bootInfo rootGot rootUtcb romfsStart)).1.toNat = b at base pages whole ⊢
  generalize (poolOf (images.bootInfo rootGot rootUtcb romfsStart)).2.toNat = n at pages ⊢
  unfold Pages.pageSize at *
  rw [if_pos (by omega)] at base
  omega

theorem LaidOut.not_inUse (h : LaidOut images last) (behind : last ≤ address.toNat) (noStack : 0x20040200 ≤ address.toNat) :
    ¬ images.InUse address := by
  obtain ⟨text, data, segments, le⟩ := h.kern
  obtain ⟨text', data', segments', eq⟩ := h.root
  have bound := address.isLt
  have stack : kernStackBase.toNat = 0x20040000 := rfl
  have size : kernStackSize.toNat = 0x200 := rfl
  unfold Images.InUse LoadedSegment.Holds
  rw [segments, segments', within_iff, within_iff, within_iff, stack, size]
  simp only [List.getD_cons_succ, List.getD_cons_zero]
  have loaded := data.loadedAddr.isLt
  have loaded' := data'.loadedAddr.isLt
  omega

/-- The pool is clear exactly if the images, laid out one behind the other, end above the base of the
exception stack and within the SRAM. -/
theorem pool_clear_iff (kern : TwoSegments images.kern kernRo kernRw) (root : TwoSegments images.root rootRo rootRw)
    (fits : layoutEnd images.sramStart.toNat kernRw rootRw < 2 ^ 32) :
    PoolClear images (images.bootInfo rootGot rootUtcb romfsStart) ↔
      0x20040000 < layoutEnd images.sramStart.toNat kernRw rootRw ∧
        layoutEnd images.sramStart.toNat kernRw rootRw ≤ 0x20042000 := by
  have out := laidOut kern root fits
  constructor
  · intro clear
    by_contra outside
    have inPool := out.stack_in_pool rootGot rootUtcb romfsStart (by omega)
    exact clear.disjoint _ inPool (.inr (.inr (by rw [within_iff]; decide)))
  · intro ⟨above, inside⟩
    obtain ⟨behind, noStack, limit⟩ := out.pool_bounds rootGot rootUtcb romfsStart above inside
    refine ⟨alignToPage_aligned _, fun address inPool => ?_, fun memory actions l run b held address covered => ?_⟩
    · unfold InPool at inPool
      rw [within_iff] at inPool
      have bound := address.isLt
      apply out.not_inUse
      · omega
      · omega
    · obtain ⟨free, conserved⟩ := Pages.run_conserved ⟨by omega, by omega⟩ run
      have low := conserved.tiling.low b (by simp [held])
      have from_ := covered.1
      apply out.not_inUse
      · omega
      · omega

end

/-- A kernel of one page and a root whose writable segment has `rootSize` bytes, at the start of the SRAM. -/
def sampleImages (rootSize : Word) : Images where
  sramStart := 0x20000000#32
  kern := ⟨0x100#32, [⟨6#32, 0x34#32, 0x34#32, 0x80#32, 0x80#32, pfR, 4#32⟩, sampleText, sampleData 0x1000#32,
    ⟨ptDynamic, 0x3000#32, 0x3000#32, 0x80#32, 0x80#32, pfR ||| pfW, 4#32⟩]⟩
  kernElfBase := 0x10010000#32
  root := ⟨0x100#32, [sampleText, sampleData rootSize]⟩
  rootElfBase := 0x10020000#32
where
  sampleText : Phdr := ⟨ptLoad, 0#32, 0#32, 0x2000#32, 0x2000#32, pfR ||| pfX, 0x1000#32⟩
  sampleData (size : Word) : Phdr := ⟨ptLoad, 0x3000#32, 0x3000#32, 0x100#32, size, pfR ||| pfW, 0x1000#32⟩

theorem sampleImages_twoSegments (rootSize : Word) :
    TwoSegments (sampleImages rootSize).kern sampleImages.sampleText (sampleImages.sampleData 0x1000#32) ∧
      TwoSegments (sampleImages rootSize).root sampleImages.sampleText (sampleImages.sampleData rootSize) :=
  ⟨⟨rfl, rfl, by decide, 12, by decide, rfl⟩, ⟨rfl, rfl, by simp [sampleImages.sampleData]; decide, 12, by decide, rfl⟩⟩

/-- Root reaches into the second scratch bank, behind the exception stack. -/
theorem pool_clear_largeRoot : PoolClear (sampleImages 0x3F400#32) ((sampleImages 0x3F400#32).bootInfo 0 0 0) :=
  (pool_clear_iff 0 0 0 (sampleImages_twoSegments 0x3F400#32).1 (sampleImages_twoSegments 0x3F400#32).2 (by decide)).mpr
    (by decide)

/-- A root of half a page: one allocation of all 516 pages hands out the exception stack. -/
theorem smallRoot_stack_handed : ¬ PoolClear (sampleImages 0x800#32) ((sampleImages 0x800#32).bootInfo 0 0 0) ∧
    ∃ l, Run Pages.Step ⟨initMemoryManagement (fun _ => 0) ((sampleImages 0x800#32).bootInfo 0 0 0), []⟩ [.alloc 516] l ∧
      ∃ b ∈ l.handed, b.Covers kernStackBase.toNat := by
  have pool : initMemoryManagement (fun _ => 0) ((sampleImages 0x800#32).bootInfo 0 0 0) =
      Pages.initLinkedListAllocState (fun _ => 0) 0x20001800 516 := by
    unfold initMemoryManagement
    congr 1
  have run : ∃ l, Run Pages.Step ⟨Pages.initLinkedListAllocState (fun _ => 0) 0x20001800 516, []⟩ [.alloc 516] l ∧
      l.handed = [⟨0x20001800, 516⟩] := by
    refine ⟨_, .single (@Pages.Step.alloc _ 1 _ _ _ (by decide) rfl), ?_⟩
    rfl
  obtain ⟨l, run, handed⟩ := run
  have covered : ∃ b ∈ l.handed, b.Covers kernStackBase.toNat := ⟨⟨0x20001800, 516⟩, by simp [handed], by decide, by decide⟩
  rw [← pool] at run
  refine ⟨fun clear => ?_, l, run, covered⟩
  obtain ⟨b, held, covers⟩ := covered
  exact clear.handed _ _ l run b held kernStackBase covers (.inr (.inr (by rw [within_iff]; decide)))

end BradypOS.Boot
