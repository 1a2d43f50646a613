import BradypOS.Elf.Inside

/-!
# Which images are relocated

The dynamic section describes a table of relocations by its address and its size. The loop of
`relocate_elf_file` knows the address only: it goes on to the first entry that is not
`R_ARM_RELATIVE`, wherever that is, and what it returns is dropped.
-/

namespace BradypOS.Elf
open Boot Theory

/-! ### The property -/

/-- The tags of the image describe a table of `n` entries of type `Elf32_Rel` at `table`. -/
structure Describes (image : Loader) (table : Word) (n : Nat) : Prop where
  dynamic : image.phdrs ≠ 0#32
  tags : ∃ tags, image.tags = some tags ∧ tags.currentReloc = table ∧ tags.totalRelSz.toNat = 8 * n ∧ tags.relSz = 8#32
  present : table ≠ 0#32

def entryAt (table : Word) (i : Nat) : Word := table + BitVec.ofNat 32 (8 * i)

/-- Where the word of an entry is. -/
def Loader.target (l : Loader) (pos : Word) : Word := l.linkedToLoaded (l.wordAt pos)

def Writable (segment : LoadedSegment) : Prop := segment.perm &&& 2#32 ≠ 0#32

/-- An entry that can be applied: an `R_ARM_RELATIVE` one for a word inside a writable segment. -/
def GoodEntry (image : Loader) (pos : Word) : Prop :=
  image.wordAt (pos + 4#32) = rArmRelative ∧ image.target pos ≠ 0#32 ∧
    ∃ segment ∈ image.segments, Writable segment ∧ ∀ k < 4, Holds segment (image.target pos + BitVec.ofNat 32 k)

def Event.examination : Event → Option Word
  | .examine pos => some pos
  | _ => none

def Event.application : Event → Option (Word × Word)
  | .apply pos target => some (pos, target)
  | _ => none

def Loader.examined (l : Loader) : List Word := l.trace.filterMap Event.examination

def Loader.applied (l : Loader) : List (Word × Word) := l.trace.filterMap Event.application

/-- The entries of the table are good, and they are what was applied, each of them once. -/
def Relocated (image : Loader) (table : Word) (n : Nat) (final : Loader) : Prop :=
  (∀ i < n, GoodEntry image (entryAt table i)) ∧
    final.applied = (List.range n).map fun i => (entryAt table i, image.target (entryAt table i))

/-- No entry but those of the table was looked at. -/
def ReadsTable (table : Word) (n : Nat) (final : Loader) : Prop :=
  ∀ pos ∈ final.examined, ∃ i < n, pos = entryAt table i

/-- A load that succeeds leaves an image that is `done`, and a bad entry makes the load fail. -/
def SuccessMeans (done : Loader → Prop) (image : Loader) (table : Word) (n : Nat) (run : Nat → Result) : Prop :=
  (∀ fuel final, run fuel = .returned .ok final → done final) ∧
    ((∃ i < n, ¬GoodEntry image (entryAt table i)) → ∃ fuel, (run fuel).Errs)

/-- Success means that exactly the table was looked at and applied. -/
def FullyRelocated (image : Loader) (table : Word) (n : Nat) (run : Nat → Result) : Prop :=
  SuccessMeans (fun final => Relocated image table n final ∧ ReadsTable table n final) image table n run

/-! ### The condition -/

/-- The loop comes to the entry `k`, which is not an `R_ARM_RELATIVE` one. -/
def StopsAt (image : Loader) (table : Word) (k : Nat) : Prop :=
  ∃ s, Reaches relocRound k (table, image) s ∧ s.2.wordAt (s.1 + 4#32) ≠ rArmRelative

/-- No relocation changes where a later one of the first `k` entries goes. -/
def Unmoved (image : Loader) (table : Word) (k : Nat) : Prop :=
  ∀ i < k, ∀ s, Reaches relocRound i (table, image) s → s.2.target s.1 = image.target s.1

/-! ### The rounds of the loop -/

variable {image l : Loader} {table : Word} {s : Word × Loader} {k n : Nat}

theorem entryAt_succ (table : Word) (i : Nat) : entryAt table (i + 1) = entryAt table i + 8#32 := by
  rw [entryAt, entryAt, Nat.mul_succ, BitVec.ofNat_add, BitVec.add_assoc]

theorem entryAt_inj {i j : Nat} (small : j < 2 ^ 29) (le : i ≤ j) (same : entryAt table i = entryAt table j) : i = j := by
  simp only [entryAt] at same
  bv_omega

theorem examined_record (l : Loader) (pos : Word) : (l.record (.examine pos)).examined = l.examined ++ [pos] :=
  List.filterMap_append

theorem applied_record (l : Loader) (pos : Word) : (l.record (.examine pos)).applied = l.applied := by
  rw [Loader.applied, Loader.record, List.filterMap_append]
  exact List.append_nil _

theorem applied_store (l : Loader) (pos target value : Word) :
    (l.store pos target value).applied = l.applied ++ [(pos, target)] :=
  List.filterMap_append

theorem reached_pos (reached : Reaches relocRound k (table, image) s) : s.1 = entryAt table k := by
  refine reached.invariant (I := fun k s => s.1 = entryAt table k) (by simp [entryAt]) ?_
  intro k ⟨pos, l⟩ u _ step here
  obtain ⟨_, _, rfl⟩ := relocRound_next step
  rw [entryAt_succ, ← here]

theorem reached_applied_length (fresh : image.applied = []) (reached : Reaches relocRound k (table, image) s) :
    s.2.applied.length = k := by
  refine reached.invariant (I := fun k s => s.2.applied.length = k) (by rw [fresh]; rfl) ?_
  intro k ⟨pos, l⟩ u _ step earlier
  obtain ⟨_, _, rfl⟩ := relocRound_next step
  rw [applied_store, applied_record, List.length_append, earlier]
  rfl

/-- The entries are applied where the image says if no relocation has changed that. -/
theorem reached_applied (fresh : image.applied = []) (reached : Reaches relocRound k (table, image) s) :
    s.2.applied = ((List.range k).map fun i => (entryAt table i, image.target (entryAt table i))) ↔ Unmoved image table k := by
  refine reached.invariant (I := fun k s =>
    s.2.applied = ((List.range k).map fun i => (entryAt table i, image.target (entryAt table i))) ↔ Unmoved image table k)
    (by simp [fresh, Unmoved]) ?_
  intro k ⟨pos, l⟩ u before step earlier
  obtain ⟨_, _, rfl⟩ := relocRound_next step
  have here : pos = entryAt table k := reached_pos before
  rw [List.range_succ, List.map_append, List.map_singleton, applied_store, applied_record, List.append_singleton_inj, earlier,
    Prod.mk.injEq]
  constructor
  · intro ⟨unmoved, _, same⟩ i less t reach
    rcases Nat.lt_or_eq_of_le (Nat.le_of_lt_succ less) with less | rfl
    · exact unmoved i less t reach
    · obtain rfl := reach.unique before
      simpa only [Loader.target, here] using same
  · intro unmoved
    have same := unmoved k (Nat.lt_succ_self k) _ before
    refine ⟨fun i less => unmoved i (by omega), here, ?_⟩
    simpa only [Loader.target, here] using same

/-- A round that returns has looked at an entry of another type. -/
theorem relocRound_returned {code : LibelfError} (exit : relocRound s = .exit (.returned code l)) :
    s.2.wordAt (s.1 + 4#32) ≠ rArmRelative ∧ l = s.2.record (.examine s.1) := by
  obtain ⟨pos, m⟩ := s
  have other : m.wordAt (pos + 4#32) ≠ rArmRelative := by
    intro relative
    rw [relocRound_relative relative] at exit
    split at exit <;> cases exit
  refine ⟨other, ?_⟩
  by_cases none : m.wordAt (pos + 4#32) = rArmNone
  · rw [relocRound_none none] at exit
    cases exit
    rfl
  · rw [relocRound_unknown none other] at exit
    cases exit
    rfl

theorem relocRound_stops (other : s.2.wordAt (s.1 + 4#32) ≠ rArmRelative) :
    ∃ code, relocRound s = .exit (.returned code (s.2.record (.examine s.1))) := by
  obtain ⟨pos, m⟩ := s
  by_cases none : m.wordAt (pos + 4#32) = rArmNone
  · exact ⟨.ok, relocRound_none none⟩
  · exact ⟨.unknownReloc, relocRound_unknown none other⟩

theorem StopsAt.unique {j : Nat} (stops : StopsAt image table k) (again : StopsAt image table j) : k = j := by
  obtain ⟨s, reached, other⟩ := stops
  obtain ⟨t, reached', other'⟩ := again
  obtain ⟨code, exit⟩ := relocRound_stops other
  obtain ⟨code', exit'⟩ := relocRound_stops other'
  have le := reached.le_of_exit exit reached'
  have ge := reached'.le_of_exit exit' reached
  omega

/-! ### Relocation and loading -/

theorem Describes.relocate (describes : Describes image table n) (fuel : Nat) :
    relocateElfFile fuel image =
      match loop relocRound fuel (table, image) with
      | .next (_, l) => .running l
      | .exit result => result := by
  obtain ⟨tags, found, rfl, _, _⟩ := describes.tags
  cases ends : loop relocRound fuel (tags.currentReloc, image) with
  | next s => simp only [relocateElfFile, describes.dynamic, found, describes.present, if_false, ends]
  | exit result => simp only [relocateElfFile, describes.dynamic, found, describes.present, if_false, ends]

theorem Describes.small (describes : Describes image table n) : n < 2 ^ 29 := by
  obtain ⟨tags, _, _, size, _⟩ := describes.tags
  have bound := tags.totalRelSz.isLt
  omega

theorem Describes.relocate_returned (describes : Describes image table n) {fuel : Nat} {code : LibelfError}
    (returns : relocateElfFile fuel image = .returned code l) :
    ∃ k s, Reaches relocRound k (table, image) s ∧ s.2.wordAt (s.1 + 4#32) ≠ rArmRelative ∧ l = s.2.record (.examine s.1) := by
  rw [describes.relocate] at returns
  cases ends : loop relocRound fuel (table, image) with
  | next s =>
    rw [ends] at returns
    cases returns
  | exit result =>
    rw [ends] at returns
    obtain ⟨k, s, _, reached, exit⟩ := exits_of_loop ends
    dsimp only at returns
    rw [returns] at exit
    obtain ⟨other, rfl⟩ := relocRound_returned exit
    exact ⟨k, s, reached, other, rfl⟩

theorem Describes.relocate_stops (describes : Describes image table n) (reached : Reaches relocRound k (table, image) s)
    (other : s.2.wordAt (s.1 + 4#32) ≠ rArmRelative) :
    ∃ code, relocateElfFile (k + 1) image = .returned code (s.2.record (.examine s.1)) := by
  obtain ⟨code, exit⟩ := relocRound_stops other
  exact ⟨code, by rw [describes.relocate, reached.exits exit (Nat.lt_succ_self k)]⟩

theorem placeEvents_application {ops : LibelfOps} {hdr : Ehdr} {k i : Nat} :
    (placeEvents ops hdr k i).filterMap Event.application = [] := by
  simp only [placeEvents]
  split
  · rfl
  · split <;> rfl

/-- Placing the segments relocates nothing. -/
theorem imageOf_applied (ops : LibelfOps) (hdr : Ehdr) (byte : Word → Byte) : (imageOf ops hdr byte).applied = [] := by
  have none : ∀ is k, (imageEvents ops hdr k is).filterMap Event.application = [] := by
    intro is
    induction is with
    | nil => exact fun k => rfl
    | cons i is ih =>
      intro k
      rw [imageEvents, List.filterMap_append, placeEvents_application, ih]
      rfl
  rw [Loader.applied, imageOf_trace]
  exact none _ 0

section

variable {ops : LibelfOps} {data : Nat → Byte} {byte : Word → Byte}

/-- The loads that succeed are those in which the loop stops, whatever it stops at. -/
theorem successMeans_iff (read : ops.readElfFile .elfHdr 0#32 52#32 = some data)
    (valid : validateElfHeader (Ehdr.ofBytes data) = .ok)
    (go : (List.range (Ehdr.ofBytes data).ePhnum.toNat).findSome? (stop ops (Ehdr.ofBytes data)) = none)
    (describes : Describes (imageOf ops (Ehdr.ofBytes data) byte) table n) {done : Loader → Prop}
    (trace : ∀ l m : Loader, l.trace = m.trace → (done l ↔ done m)) :
    SuccessMeans done (imageOf ops (Ehdr.ofBytes data) byte) table n (fun fuel => loadElfFile ops fuel (.fresh byte)) ↔
      (∀ i < n, GoodEntry (imageOf ops (Ehdr.ofBytes data) byte) (entryAt table i)) ∧
        ∀ k s, Reaches relocRound k (table, imageOf ops (Ehdr.ofBytes data) byte) s → s.2.wordAt (s.1 + 4#32) ≠ rArmRelative →
          done (s.2.record (.examine s.1)) := by
  have noError : ¬∃ fuel, (loadElfFile ops fuel (.fresh byte)).Errs := fun ⟨fuel, errs⟩ =>
    loadElfFile_placed_errs read valid go fuel errs
  constructor
  · intro ⟨success, failure⟩
    refine ⟨?_, ?_⟩
    · by_contra bad
      push Not at bad
      exact noError (failure bad)
    · intro k s reached other
      obtain ⟨code, returns⟩ := describes.relocate_stops reached other
      have loaded := @loadElfFile_placed ops data byte read valid go (k + 1)
      rw [returns] at loaded
      refine (trace _ _ ?_).mp (success (k + 1) _ loaded)
      rfl
  · intro ⟨good, stops⟩
    refine ⟨?_, fun ⟨i, less, bad⟩ => absurd (good i less) bad⟩
    intro fuel final returns
    dsimp only at returns
    rw [loadElfFile_placed read valid go] at returns
    cases relocated : relocateElfFile fuel (imageOf ops (Ehdr.ofBytes data) byte) with
    | running l =>
      rw [relocated] at returns
      cases returns
    | fault f =>
      rw [relocated] at returns
      cases returns
    | returned code l =>
      rw [relocated] at returns
      obtain ⟨k, s, reached, other, rfl⟩ := describes.relocate_returned relocated
      cases returns
      refine (trace _ _ ?_).mpr (stops k s reached other)
      rfl

/-- No load that returns success has looked at its table only: the loop ends with an entry that it
does not apply. Apart from that entry, a load whose loop ends meets its purpose exactly if all entries
of the table are good, the first one behind it is not `R_ARM_RELATIVE`, and no relocation moves a later one. -/
theorem relocated_iff (read : ops.readElfFile .elfHdr 0#32 52#32 = some data)
    (valid : validateElfHeader (Ehdr.ofBytes data) = .ok)
    (go : (List.range (Ehdr.ofBytes data).ePhnum.toNat).findSome? (stop ops (Ehdr.ofBytes data)) = none)
    (describes : Describes (imageOf ops (Ehdr.ofBytes data) byte) table n) :
    let image := imageOf ops (Ehdr.ofBytes data) byte
    let run := fun fuel => loadElfFile ops fuel (.fresh byte)
    (FullyRelocated image table n run ↔
      (∀ i < n, GoodEntry image (entryAt table i)) ∧ ∀ k, ¬StopsAt image table k) ∧
    (SuccessMeans (Relocated image table n) image table n run ↔
      (∀ i < n, GoodEntry image (entryAt table i)) ∧ ∀ k, StopsAt image table k → k = n ∧ Unmoved image table k) := by
  have noneApplied := imageOf_applied ops (Ehdr.ofBytes data) byte
  intro image run
  have length : ∀ k s, Reaches relocRound k (table, image) s → Relocated image table n (s.2.record (.examine s.1)) → k = n := by
    intro k s reached relocated
    have applied := congrArg List.length relocated.2
    rwa [applied_record, reached_applied_length noneApplied reached, List.length_map, List.length_range] at applied
  constructor
  · rw [FullyRelocated, successMeans_iff read valid go describes]
    · refine and_congr_right fun good => ?_
      constructor
      · intro every k ⟨s, reached, other⟩
        obtain ⟨relocated, reads⟩ := every k s reached other
        obtain rfl := length k s reached relocated
        obtain ⟨i, less, same⟩ := reads s.1 (by rw [examined_record]; simp)
        rw [reached_pos reached] at same
        exact absurd (entryAt_inj describes.small (Nat.le_of_lt less) same.symm) (by omega)
      · intro never k s reached other
        exact absurd ⟨s, reached, other⟩ (never k)
    · intro l m same
      simp only [Relocated, ReadsTable, Loader.applied, Loader.examined, same]
  · rw [successMeans_iff read valid go describes]
    · refine and_congr_right fun good => ?_
      constructor
      · intro every k ⟨s, reached, other⟩
        have relocated := every k s reached other
        obtain rfl := length k s reached relocated
        refine ⟨rfl, (reached_applied noneApplied reached).mp ?_⟩
        rw [← applied_record s.2 s.1]
        exact relocated.2
      · intro ends k s reached other
        obtain ⟨rfl, unmoved⟩ := ends k ⟨s, reached, other⟩
        refine ⟨good, ?_⟩
        rw [applied_record]
        exact (reached_applied noneApplied reached).mpr unmoved
    · intro l m same
      simp only [Relocated, Loader.applied, same]

end

/-! ### A table of one entry -/

/-- The dynamic section is at the start of the text segment. -/
def oneEntry : List Phdr := textAndData ++ [⟨ptDynamic, 0x1000#32, 0x8000#32, 32#32, 32#32, pfR, 4#32⟩]

/-- The text segment: the dynamic section, and the entry for a word of the data segment. -/
def textOf (info : Word) (a : Word) : Byte :=
  ([17#32, 0x8020#32, 18#32, 8#32, 19#32, 8#32, 0#32, 0#32, 0x9004#32, info].flatMap wordBytes).getD (a - 0x10000000#32).toNat 0#8

def oneEntryImage (info : Word) : Loader := imageOf (smallFile oneEntry) (smallHdr oneEntry) (textOf info)

theorem describes_relative : Describes (oneEntryImage rArmRelative) 0x10000020#32 1 where
  dynamic := by decide
  tags := ⟨⟨0x10000020#32, 8#32, 8#32, 0#32⟩, rfl, rfl, rfl, rfl⟩
  present := by decide

theorem describes_abs32 : Describes (oneEntryImage 2#32) 0x10000020#32 1 where
  dynamic := by decide
  tags := ⟨⟨0x10000020#32, 8#32, 8#32, 0#32⟩, rfl, rfl, rfl, rfl⟩
  present := by decide

theorem good_relative : ∀ i < 1, GoodEntry (oneEntryImage rArmRelative) (entryAt 0x10000020#32 i) := by
  intro i less
  obtain rfl : i = 0 := by omega
  have data : segmentOf (smallFile oneEntry) 1 (phdrAt (smallFile oneEntry) (smallHdr oneEntry) 1) ∈
      (oneEntryImage rArmRelative).segments :=
    List.mem_cons_of_mem _ List.mem_cons_self
  refine ⟨by decide, by decide, _, data, by unfold Writable; decide, ?_⟩
  intro k less
  unfold Holds
  interval_cases k <;> decide

theorem stops_relative : StopsAt (oneEntryImage rArmRelative) 0x10000020#32 1 := by
  have first : Reaches relocRound 1 (0x10000020#32, oneEntryImage rArmRelative) _ := rfl
  exact ⟨_, first, by decide⟩

theorem unmoved_relative : Unmoved (oneEntryImage rArmRelative) 0x10000020#32 1 := by
  intro i less s reached
  obtain rfl : i = 0 := by omega
  obtain rfl := reached.unique (Reaches.refl _)
  rfl

theorem relocated_relative :
    let run := fun fuel => loadElfFile (smallFile oneEntry) fuel (.fresh (textOf rArmRelative))
    SuccessMeans (Relocated (oneEntryImage rArmRelative) 0x10000020#32 1) (oneEntryImage rArmRelative) 0x10000020#32 1 run ∧
      ¬FullyRelocated (oneEntryImage rArmRelative) 0x10000020#32 1 run := by
  have settled := @relocated_iff 0x10000020#32 1 (smallFile oneEntry) _ (textOf rArmRelative) rfl (by decide) (by decide) describes_relative
  refine ⟨settled.2.mpr ⟨good_relative, ?_⟩, fun full => (settled.1.mp full).2 1 stops_relative⟩
  intro k stops
  obtain rfl := stops.unique stops_relative
  exact ⟨rfl, unmoved_relative⟩

theorem relocated_fails :
    Describes (oneEntryImage 2#32) 0x10000020#32 1 ∧
      ¬FullyRelocated (oneEntryImage 2#32) 0x10000020#32 1
        (fun fuel => loadElfFile (smallFile oneEntry) fuel (.fresh (textOf 2#32))) := by
  refine ⟨describes_abs32, ?_⟩
  intro ⟨_, failure⟩
  obtain ⟨fuel, errs⟩ := failure ⟨0, by omega, fun good => absurd good.1 (by decide)⟩
  exact @loadElfFile_placed_errs (smallFile oneEntry) _ (textOf 2#32) rfl (by decide) (by decide) fuel errs

end BradypOS.Elf
