import BradypOS.Elf.Relocated
import BradypOS.Theory.Patch

/-!
# What relocation writes

The addresses of the table, of the words it is for and of what these hold are all translated by the
segments. If the words are apart from one another and from the table, a relocation is a change of its own
word only, and the loop makes each of them once.
-/

namespace BradypOS.Elf
open Boot Theory

/-! ### The image -/

/-- The linked addresses of a segment. -/
def Contains (segment : LoadedSegment) (a : Word) : Prop :=
  segment.linkedAddr.toNat ≤ a.toNat ∧ a.toNat < segment.linkedAddr.toNat + segment.size.toNat

/-- No segment runs over the end of the address space or is at the null address, and no two have an address in common. -/
structure LaidOut (segments : List LoadedSegment) : Prop where
  linked : segments.Pairwise fun s t => ∀ a, ¬ (Contains s a ∧ Contains t a)
  loaded : segments.Pairwise fun s t => ∀ a, ¬ (Holds s a ∧ Holds t a)
  linkedEnd : ∀ s ∈ segments, s.linkedAddr.toNat + s.size.toNat < 2 ^ 32
  loadedEnd : ∀ s ∈ segments, s.loadedAddr.toNat + s.size.toNat < 2 ^ 32
  place : ∀ s ∈ segments, s.loadedAddr ≠ 0#32

/-- The bytes of the word at an address. -/
def bytesOf (target : Word) : Set Word := { a | a - target < 4#32 }

/-- The bytes of a table of `n` entries and the one that ends it. -/
def tableBytes (table : Word) (n : Nat) : Set Word := { a | (a - table).toNat < 8 * (n + 1) }

/-- The dynamic tags name a table of `R_ARM_RELATIVE` entries for the words at `offsets`, ended by an entry of no type. -/
structure Tabulates (image : Loader) (table : Word) (offsets : List Word) : Prop where
  dynamic : image.phdrs ≠ 0#32
  named : ∃ tags, image.tags = some tags ∧ tags.currentReloc = table
  present : table ≠ 0#32
  entries : ∀ i (less : i < offsets.length), image.wordAt (entryAt table i) = offsets[i] ∧
    image.wordAt (entryAt table i + 4#32) = rArmRelative
  ends : image.wordAt (entryAt table offsets.length + 4#32) = rArmNone

/-- The words of the table are inside the segments, apart from one another and not in the table. -/
structure Relocatable (image : Loader) (table : Word) (offsets : List Word) : Prop where
  laidOut : LaidOut image.segments
  tabulated : Tabulates image table offsets
  inside : ∀ offset ∈ offsets, ∃ segment ∈ image.segments, Contains segment offset
  apart : offsets.Pairwise fun i j => Apart (bytesOf (image.linkedToLoaded i)) (bytesOf (image.linkedToLoaded j))
  spared : ∀ offset ∈ offsets, Apart (bytesOf (image.linkedToLoaded offset)) (tableBytes table offsets.length)

/-! ### Translation -/

section
variable {segments segments' : List LoadedSegment} {segment : LoadedSegment} {a : Word}

theorem LaidOut.contains_iff (h : LaidOut segments) (member : segment ∈ segments) (a : Word) :
    segment.linkedAddr ≤ a ∧ a < segment.linkedAddr + segment.size ↔ Contains segment a := by
  have ends := h.linkedEnd segment member
  have total : (segment.linkedAddr + segment.size).toNat = segment.linkedAddr.toNat + segment.size.toNat := by
    rw [BitVec.toNat_add, Nat.mod_eq_of_lt ends]
  rw [Contains, BitVec.le_def, BitVec.lt_def, total]

theorem LaidOut.perm (h : LaidOut segments) (perm : segments.Perm segments') : LaidOut segments' where
  linked := (perm.pairwise_iff fun apart a both => apart a both.symm).mp h.linked
  loaded := (perm.pairwise_iff fun apart a both => apart a both.symm).mp h.loaded
  linkedEnd s member := h.linkedEnd s (perm.mem_iff.mpr member)
  loadedEnd s member := h.loadedEnd s (perm.mem_iff.mpr member)
  place s member := h.place s (perm.mem_iff.mpr member)

theorem LaidOut.unique (h : LaidOut segments) {s t : LoadedSegment} (first : s ∈ segments) (second : t ∈ segments)
    (inFirst : Contains s a) (inSecond : Contains t a) : s = t := by
  have symmetric : Std.Symm fun s t : LoadedSegment => ∀ a, ¬ (Contains s a ∧ Contains t a) := ⟨fun _ _ apart a both => apart a both.symm⟩
  by_contra other
  exact h.linked.forall first second other a ⟨inFirst, inSecond⟩

/-- An address of a segment is translated by it. -/
theorem LaidOut.translates (h : LaidOut segments) (member : segment ∈ segments) (contains : Contains segment a) :
    linkedToLoadedAddr segments a = segment.loadedAddr + (a - segment.linkedAddr) := by
  have some_ : (segments.find? fun s => s.linkedAddr ≤ a ∧ a < s.linkedAddr + s.size).isSome := by
    rw [List.find?_isSome]
    exact ⟨segment, member, decide_eq_true ((h.contains_iff member a).mpr contains)⟩
  obtain ⟨found, first⟩ := Option.isSome_iff_exists.mp some_
  have foundMember := List.mem_of_find?_eq_some first
  have holds := List.find?_some first
  rw [decide_eq_true_eq, h.contains_iff foundMember] at holds
  obtain rfl := h.unique foundMember member holds contains
  rw [linkedToLoadedAddr, first]

/-- An address of no segment is translated to 0. -/
theorem LaidOut.translates_none (h : LaidOut segments) (none_ : ∀ segment ∈ segments, ¬ Contains segment a) :
    linkedToLoadedAddr segments a = 0#32 := by
  have first : (segments.find? fun s => s.linkedAddr ≤ a ∧ a < s.linkedAddr + s.size) = none := by
    rw [List.find?_eq_none]
    intro s member holds
    exact none_ s member ((h.contains_iff member a).mp (of_decide_eq_true holds))
  rw [linkedToLoadedAddr, first]
  rfl

theorem LaidOut.translates_perm (h : LaidOut segments) (perm : segments.Perm segments') (a : Word) :
    linkedToLoadedAddr segments a = linkedToLoadedAddr segments' a := by
  by_cases inside : ∃ segment ∈ segments, Contains segment a
  · obtain ⟨segment, member, contains⟩ := inside
    rw [h.translates member contains, (h.perm perm).translates (perm.mem_iff.mp member) contains]
  · push Not at inside
    rw [h.translates_none inside, (h.perm perm).translates_none fun s member => inside s (perm.mem_iff.mpr member)]

theorem LaidOut.translates_ne_zero (h : LaidOut segments) (member : segment ∈ segments) (contains : Contains segment a) :
    linkedToLoadedAddr segments a ≠ 0#32 := by
  have ends := h.loadedEnd segment member
  have place := h.place segment member
  obtain ⟨low, high⟩ := contains
  rw [h.translates member ⟨low, high⟩]
  bv_omega

end

/-! ### One relocation -/

/-- The word at an address of the memory. -/
def wordIn (byte : Word → Byte) (a : Word) : Word := wordAt (fun k => byte (a + BitVec.ofNat 32 k)) 0

/-- The word at a linked address, relocated. -/
def relocateWord (segments : List LoadedSegment) (offset : Word) (byte : Word → Byte) : Word → Byte :=
  let target := linkedToLoadedAddr segments offset
  fun a => if a - target < 4#32 then (linkedToLoadedAddr segments (wordIn byte target)).extractLsb' (8 * (a - target).toNat) 8 else byte a

section
variable {byte byte' : Word → Byte} {a target : Word}

theorem mem_bytesOf {k : Nat} (less : k < 4) : target + BitVec.ofNat 32 k ∈ bytesOf target := by
  change target + BitVec.ofNat 32 k - target < 4#32
  bv_omega

theorem wordIn_congr (same : Set.EqOn byte byte' (bytesOf target)) : wordIn byte target = wordIn byte' target := by
  simp only [wordIn, wordAt]
  rw [same (mem_bytesOf (by decide)), same (mem_bytesOf (by decide)), same (mem_bytesOf (by decide)), same (mem_bytesOf (by decide))]

theorem relocateWord_inside {segments : List LoadedSegment} {offset : Word} (inside : a ∈ bytesOf (linkedToLoadedAddr segments offset)) :
    relocateWord segments offset byte a = (linkedToLoadedAddr segments (wordIn byte (linkedToLoadedAddr segments offset))).extractLsb'
      (8 * (a - linkedToLoadedAddr segments offset).toNat) 8 :=
  if_pos inside

theorem relocateWord_local (segments : List LoadedSegment) (offset : Word) :
    LocalTo (bytesOf (linkedToLoadedAddr segments offset)) (relocateWord segments offset) where
  frame _ _ outside := if_neg outside
  reads _ _ same _ inside := by rw [relocateWord_inside inside, relocateWord_inside inside, wordIn_congr same]

theorem append_bytes (value : Word) :
    value.extractLsb' 24 8 ++ value.extractLsb' 16 8 ++ value.extractLsb' 8 8 ++ value.extractLsb' 0 8 = value := by
  ext i less
  simp only [BitVec.getElem_append, BitVec.getElem_extractLsb']
  split
  · rw [Nat.zero_add, BitVec.getLsbD_eq_getElem less]
  · split
    · rw [← BitVec.getLsbD_eq_getElem less]
      congr 1
      omega
    · split
      · rw [← BitVec.getLsbD_eq_getElem less]
        congr 1
        omega
      · rw [← BitVec.getLsbD_eq_getElem less]
        congr 1
        omega

/-- A word whose bytes are those of a value holds it. -/
theorem wordIn_bytes {value : Word} (bytes : ∀ a ∈ bytesOf target, byte a = value.extractLsb' (8 * (a - target).toNat) 8) :
    wordIn byte target = value := by
  have distance : ∀ k < 4, byte (target + BitVec.ofNat 32 k) = value.extractLsb' (8 * k) 8 := by
    intro k less
    have away : (target + BitVec.ofNat 32 k - target).toNat = k := by bv_omega
    rw [bytes _ (mem_bytesOf less), away]
  calc wordIn byte target = byte (target + 3#32) ++ byte (target + 2#32) ++ byte (target + 1#32) ++ byte (target + 0#32) := rfl
    _ = value.extractLsb' 24 8 ++ value.extractLsb' 16 8 ++ value.extractLsb' 8 8 ++ value.extractLsb' 0 8 := by
      rw [distance 3 (by decide), distance 2 (by decide), distance 1 (by decide), distance 0 (by decide)]
    _ = value := append_bytes value

end

/-! ### The loop -/

section
variable {image : Loader} {table : Word} {offsets : List Word}

/-- What the relocations of the words at `offsets` make of the image's memory. -/
def Loader.relocated (image : Loader) (offsets : List Word) : Word → Byte := changed (relocateWord image.segments) image.byte offsets

theorem Relocatable.separate (h : Relocatable image table offsets) :
    Separate (fun offset => bytesOf (image.linkedToLoaded offset)) (relocateWord image.segments) offsets :=
  ⟨fun offset _ => relocateWord_local image.segments offset, h.apart⟩

theorem Relocatable.table_spared (h : Relocatable image table offsets) (i : Nat) {a : Word} (inTable : a ∈ tableBytes table offsets.length) :
    image.relocated (offsets.take i) a = image.byte a := by
  have part : Separate (fun offset => bytesOf (image.linkedToLoaded offset)) (relocateWord image.segments) (offsets.take i) :=
    ⟨fun offset _ => relocateWord_local image.segments offset, h.apart.sublist (List.take_sublist i offsets)⟩
  exact changed_outside part fun offset early inWord =>
    h.spared offset (List.mem_of_mem_take early) _ inWord inTable

/-- Memory that agrees with the image on the table has the entries of the table. -/
theorem table_wordIn {byte : Word → Byte} (same : Set.EqOn byte image.byte (tableBytes table offsets.length)) (small : offsets.length < 2 ^ 29)
    {i : Nat} (le : i ≤ offsets.length) : wordIn byte (entryAt table i) = image.wordAt (entryAt table i) ∧
      wordIn byte (entryAt table i + 4#32) = image.wordAt (entryAt table i + 4#32) := by
  constructor
  · refine wordIn_congr fun a inWord => same ?_
    change (a - table).toNat < 8 * (offsets.length + 1)
    change a - entryAt table i < 4#32 at inWord
    rw [entryAt] at inWord
    bv_omega
  · refine wordIn_congr fun a inWord => same ?_
    change (a - table).toNat < 8 * (offsets.length + 1)
    change a - (entryAt table i + 4#32) < 4#32 at inWord
    rw [entryAt] at inWord
    bv_omega

theorem Tabulates.small (h : Tabulates image table offsets) : offsets.length < 2 ^ 29 := by
  by_contra large
  have earlier : offsets.length - 2 ^ 29 < offsets.length := by omega
  have same : entryAt table offsets.length = entryAt table (offsets.length - 2 ^ 29) := by
    have round : 8 * offsets.length = 8 * (offsets.length - 2 ^ 29) + 2 ^ 32 := by omega
    have whole : BitVec.ofNat 32 (2 ^ 32) = 0#32 := BitVec.eq_of_toNat_eq (Nat.mod_self _)
    rw [entryAt, entryAt, round, BitVec.ofNat_add, whole, BitVec.add_zero]
  have relative := (h.entries _ earlier).2
  rw [← same, h.ends] at relative
  exact absurd relative (by decide)

theorem Relocatable.target_ne_zero (h : Relocatable image table offsets) {offset : Word} (member : offset ∈ offsets) :
    image.linkedToLoaded offset ≠ 0#32 := by
  obtain ⟨segment, inSegments, contains⟩ := h.inside offset member
  exact h.laidOut.translates_ne_zero inSegments contains

theorem take_succ_relocated (image : Loader) {i : Nat} (less : i < offsets.length) :
    image.relocated (offsets.take (i + 1)) = relocateWord image.segments offsets[i] (image.relocated (offsets.take i)) := by
  rw [List.take_succ_eq_append_getElem less, Loader.relocated, changed_concat]
  rfl

/-- The loop comes to each entry with the words of the ones before it relocated. -/
theorem Relocatable.reaches (h : Relocatable image table offsets) {i : Nat} (le : i ≤ offsets.length) :
    ∃ l, Reaches relocRound i (table, image) (entryAt table i, l) ∧ l.segments = image.segments ∧
      l.byte = image.relocated (offsets.take i) := by
  induction i with
  | zero =>
    refine ⟨image, ?_, rfl, rfl⟩
    rw [entryAt, Nat.mul_zero, BitVec.add_zero]
    exact Reaches.refl _
  | succ i ih =>
    have less : i < offsets.length := le
    obtain ⟨l, reached, segments, bytes⟩ := ih (Nat.le_of_lt less)
    have unread : Set.EqOn l.byte image.byte (tableBytes table offsets.length) := fun a inTable => by
      rw [bytes, h.table_spared i inTable]
    obtain ⟨offset, relative⟩ := h.tabulated.entries i less
    obtain ⟨here, type⟩ := table_wordIn unread h.tabulated.small (Nat.le_of_lt less)
    have same : l.wordAt (entryAt table i) = offsets[i] := here.trans offset
    have place : l.linkedToLoaded offsets[i] = image.linkedToLoaded offsets[i] := by rw [Loader.linkedToLoaded, segments, Loader.linkedToLoaded]
    have step := relocRound_relative (type.trans relative)
    rw [same, place, if_neg (h.target_ne_zero (List.getElem_mem less)), ← entryAt_succ] at step
    refine ⟨_, reached.loop_succ.trans step, segments, ?_⟩
    rw [take_succ_relocated image less, ← bytes, ← segments, ← place]
    rfl

theorem Tabulates.relocate (h : Tabulates image table offsets) (fuel : Nat) :
    relocateElfFile fuel image =
      match loop relocRound fuel (table, image) with
      | .next (_, l) => .running l
      | .exit result => result := by
  obtain ⟨tags, found, rfl⟩ := h.named
  cases ends : loop relocRound fuel (tags.currentReloc, image) with
  | next s => simp only [relocateElfFile, h.dynamic, found, h.present, if_false, ends]
  | exit result => simp only [relocateElfFile, h.dynamic, found, h.present, if_false, ends]

theorem Relocatable.returns (h : Relocatable image table offsets) :
    ∃ final, (∀ fuel, offsets.length < fuel → relocateElfFile fuel image = .returned .ok final) ∧ final.byte = image.relocated offsets := by
  obtain ⟨l, reached, segments, bytes⟩ := h.reaches (Nat.le_refl _)
  rw [List.take_length] at bytes
  have unread : Set.EqOn l.byte image.byte (tableBytes table offsets.length) := fun a inTable => by
    rw [bytes, ← List.take_length (l := offsets), h.table_spared _ inTable]
  have none_ : l.wordAt (entryAt table offsets.length + 4#32) = rArmNone :=
    (table_wordIn unread h.tabulated.small (Nat.le_refl _)).2.trans h.tabulated.ends
  refine ⟨l.record (.examine (entryAt table offsets.length)), fun fuel enough => ?_, bytes⟩
  rw [h.tabulated.relocate, reached.exits (relocRound_none none_) enough]

/-! ### The result -/

/-- The words at `offsets` hold what their contents are translated to, and the rest is as it was. -/
structure Rewritten (image : Loader) (offsets : List Word) (final : Loader) : Prop where
  words : ∀ offset ∈ offsets, final.wordAt (image.linkedToLoaded offset) =
    image.linkedToLoaded (image.wordAt (image.linkedToLoaded offset))
  frame : ∀ a, (∀ offset ∈ offsets, a ∉ bytesOf (image.linkedToLoaded offset)) → final.byte a = image.byte a

/-- What a translation makes of the addresses in a segment and of all others. -/
structure Translates (segments : List LoadedSegment) (translation : Word → Word) : Prop where
  inside : ∀ segment ∈ segments, ∀ a, Contains segment a → translation a = segment.loadedAddr + (a - segment.linkedAddr)
  outside : ∀ a, (∀ segment ∈ segments, ¬ Contains segment a) → translation a = 0#32

theorem Relocatable.rewritten (h : Relocatable image table offsets) {final : Loader} (bytes : final.byte = image.relocated offsets) :
    Rewritten image offsets final where
  words offset member := by
    refine wordIn_bytes fun a inWord => ?_
    rw [bytes, Loader.relocated, changed_inside h.separate member inWord]
    exact relocateWord_inside inWord
  frame a outside := by rw [bytes, Loader.relocated, changed_outside h.separate outside]

section
variable {image' : Loader} {offsets' : List Word}

theorem Relocatable.perm (h : Relocatable image table offsets) (segments : image.segments.Perm image'.segments) (perm : offsets.Perm offsets')
    (tabulated : Tabulates image' table offsets') : Relocatable image' table offsets' := by
  have place : image'.linkedToLoaded = image.linkedToLoaded := funext fun a => (h.laidOut.translates_perm segments a).symm
  refine ⟨h.laidOut.perm segments, tabulated, ?_, ?_, ?_⟩
  · intro offset member
    obtain ⟨segment, inSegments, contains⟩ := h.inside offset (perm.mem_iff.mpr member)
    exact ⟨segment, segments.mem_iff.mp inSegments, contains⟩
  · rw [place]
    exact (perm.pairwise_iff fun apart => apart.symm).mp h.apart
  · intro offset member
    rw [place, ← perm.length_eq]
    exact h.spared offset (perm.mem_iff.mpr member)

/-- Outside the table the result depends on the set of the words only. -/
theorem Relocatable.relocated_perm (h : Relocatable image table offsets) (segments : image.segments.Perm image'.segments)
    (perm : offsets.Perm offsets') (same : ∀ a, a ∉ tableBytes table offsets.length → image.byte a = image'.byte a) {a : Word}
    (outside : a ∉ tableBytes table offsets.length) : image.relocated offsets a = image'.relocated offsets' a := by
  have change : relocateWord image'.segments = relocateWord image.segments := by
    funext offset byte
    have translation : linkedToLoadedAddr image'.segments = linkedToLoadedAddr image.segments :=
      funext fun a => (h.laidOut.translates_perm segments a).symm
    rw [relocateWord, relocateWord, translation]
  rw [Loader.relocated, Loader.relocated, change]
  refine changed_perm h.separate perm (same a outside) fun offset member _ b inWord => ?_
  exact same b (h.spared offset member b inWord)

end

/-- Relocation comes to the end of its table, with exactly the listed words rewritten, each by the translation of what it held. Neither
the order of the entries nor that of the segments makes a difference outside the table. -/
theorem relocate_rewrites (h : Relocatable image table offsets) :
    Translates image.segments image.linkedToLoaded ∧
      ∃ final, (∀ fuel, offsets.length < fuel → relocateElfFile fuel image = .returned .ok final) ∧ Rewritten image offsets final ∧
        ∀ image' offsets', image.segments.Perm image'.segments → offsets.Perm offsets' → Tabulates image' table offsets' →
          (∀ a, a ∉ tableBytes table offsets.length → image.byte a = image'.byte a) →
          ∃ final', (∀ fuel, offsets.length < fuel → relocateElfFile fuel image' = .returned .ok final') ∧
            ∀ a, a ∉ tableBytes table offsets.length → final'.byte a = final.byte a := by
  refine ⟨⟨fun _ member _ contains => h.laidOut.translates member contains, fun _ none_ => h.laidOut.translates_none none_⟩, ?_⟩
  obtain ⟨final, returns, bytes⟩ := h.returns
  refine ⟨final, returns, h.rewritten bytes, ?_⟩
  intro image' offsets' segments perm tabulated same
  obtain ⟨final', returns', bytes'⟩ := (h.perm segments perm tabulated).returns
  rw [← perm.length_eq] at returns'
  refine ⟨final', returns', fun a outside => ?_⟩
  rw [bytes, bytes']
  exact (h.relocated_perm segments perm same outside).symm

end

/-- A text segment with the dynamic section and a table for two words of the data segment, a pointer to each segment. -/
def twoWordsImage : Loader where
  entryPoint := 0#32
  phdrs := 0x10000000#32
  segments := [⟨0x8000#32, 0x10000000#32, 64#32, 5#32⟩, ⟨0x9000#32, 0x20001000#32, 32#32, 3#32⟩]
  byte a :=
    if a < 0x20001000#32 then
      ([17#32, 0x8010#32, 0#32, 0#32, 0x9004#32, 23#32, 0x9008#32, 23#32, 0#32, 0#32].flatMap wordBytes).getD (a - 0x10000000#32).toNat 0#8
    else ([0#32, 0x8020#32, 0x9010#32].flatMap wordBytes).getD (a - 0x20001000#32).toNat 0#8
  trace := []

theorem twoWords_tabulates : Tabulates twoWordsImage 0x10000010#32 [0x9004#32, 0x9008#32] where
  dynamic := by decide
  named := ⟨⟨0x10000010#32, 0#32, 0#32, 0#32⟩, rfl, rfl⟩
  present := by decide
  entries i less := by
    simp only [List.length_cons, List.length_nil] at less
    interval_cases i <;> exact ⟨rfl, by decide⟩
  ends := by decide

theorem twoWords_relocatable : Relocatable twoWordsImage 0x10000010#32 [0x9004#32, 0x9008#32] where
  laidOut := {
    linked := by
      simp only [twoWordsImage, List.pairwise_cons, List.mem_singleton, forall_eq, Contains]
      refine ⟨fun a => ?_, by simp, .nil⟩
      simp
      omega
    loaded := by
      simp only [twoWordsImage, List.pairwise_cons, List.mem_singleton, forall_eq, Holds]
      refine ⟨fun a => ?_, by simp, .nil⟩
      bv_omega
    linkedEnd := by decide
    loadedEnd := by decide
    place := by decide }
  tabulated := twoWords_tabulates
  inside offset member := by
    refine ⟨⟨0x9000#32, 0x20001000#32, 32#32, 3#32⟩, by simp [twoWordsImage], ?_⟩
    rcases List.mem_pair.mp member with rfl | rfl <;> exact ⟨by decide, by decide⟩
  apart := by
    rw [List.pairwise_pair]
    intro a first second
    change a - 0x20001004#32 < 4#32 at first
    change a - 0x20001008#32 < 4#32 at second
    bv_omega
  spared offset member := by
    intro a inWord inTable
    change (a - 0x10000010#32).toNat < 24 at inTable
    rcases List.mem_pair.mp member with rfl | rfl
    · change a - 0x20001004#32 < 4#32 at inWord
      bv_omega
    · change a - 0x20001008#32 < 4#32 at inWord
      bv_omega

theorem relocate_rewrites_twoWords : ∃ final, relocateElfFile 3 twoWordsImage = .returned .ok final ∧
    final.wordAt 0x20001004#32 = 0x10000020#32 ∧ final.wordAt 0x20001008#32 = 0x20001010#32 := by
  obtain ⟨_, final, returns, rewritten, _⟩ := relocate_rewrites twoWords_relocatable
  exact ⟨final, returns 3 (by decide), rewritten.words 0x9004#32 (by decide), rewritten.words 0x9008#32 (by decide)⟩

end BradypOS.Elf
