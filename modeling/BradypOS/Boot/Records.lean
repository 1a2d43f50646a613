import BradypOS.Elf.Inside
import BradypOS.Elf.Rewrites

/-!
# The boot info in memory (`boot/bootinfo.c`)

The boot loader writes the records, and three programs look for something in them: the kernel for root's entry point,
root for the end of the loaded images, the file server for the place of the file system. They go from record to record
by the offsets that they read.
-/

namespace BradypOS.Boot

open Elf (wordIn wordBytes append_bytes)
open Theory

abbrev Mem := Word → Byte

def literal (text : String) : List Byte := text.toList.map fun c => BitVec.ofNat 8 c.toNat

/-! ### Writing -/

/-- Bytes that are stored at an offset from the start of the boot info. -/
structure Store where
  offset : Nat
  bytes : List Byte

def Store.run (info : Word) (s : Store) (m : Mem) : Mem := fun a =>
  if s.offset ≤ (a - info).toNat then s.bytes[(a - info).toNat - s.offset]?.getD (m a) else m a

def storeWords (offset : Nat) (ws : List Word) : Store := ⟨offset, ws.flatMap wordBytes⟩

def bootInfoMagic : Word := 0x14B0021D#32
def bootInfoExe : Word := 0x2#32
def bootInfoVariables : Word := 0x40#32

/-- `struct L4_boot_info_record_exe` -/
def exeWords (record : RecordExe) : List Word :=
  [bootInfoExe, record.version, 64#32, record.text.pstart, record.text.vstart, record.text.size,
    record.data.pstart, record.data.vstart, record.data.size, record.bss.pstart, record.bss.vstart, record.bss.size,
    record.initialIp, record.flags, record.label, record.cmdlineOffset]

/-- `struct full_boot_info`, field after field. A symbol that is not found leaves its value as it was. -/
def fullBootInfo (kernState rootState : LibelfState) (rootGot rootUtcb : Option Word) (romfsStart : Word) : List Store :=
  [storeWords 0 [bootInfoMagic, 1#32, 212#32, 20#32, 3#32],
    storeWords 20 (exeWords (exeRecord kernState kernLabel)),
    storeWords 84 (exeWords (exeRecord rootState rootLabel)),
    storeWords 148 [bootInfoVariables, 1#32, 0#32, 3#32],
    ⟨164, literal "root_got" ++ [0]⟩, storeWords 176 rootGot.toList,
    ⟨180, literal "root_utcb" ++ [0]⟩, storeWords 192 rootUtcb.toList,
    ⟨196, literal "rootfs_base" ++ [0]⟩, storeWords 208 [romfsStart]]

/-- `construct_boot_info` -/
def writeBootInfo (m : Mem) (info : Word) (kernState rootState : LibelfState) (rootGot rootUtcb : Option Word) (romfsStart : Word) : Mem :=
  changed (Store.run info) m (fullBootInfo kernState rootState rootGot rootUtcb romfsStart)

/-! ### Reading -/

/-- What `memcmp` compares. -/
def bytesAt (m : Mem) (a : Word) (n : Nat) : List Byte := (List.range n).map fun i => m (a + BitVec.ofNat 32 i)

def segmentAt (m : Mem) (a : Word) : SegmentInfo := ⟨wordIn m a, wordIn m (a + 4#32), wordIn m (a + 8#32)⟩

def exeAt (m : Mem) (a : Word) : RecordExe where
  version := wordIn m (a + 4#32)
  text := segmentAt m (a + 12#32)
  data := segmentAt m (a + 24#32)
  bss := segmentAt m (a + 36#32)
  initialIp := wordIn m (a + 48#32)
  flags := wordIn m (a + 52#32)
  label := wordIn m (a + 56#32)
  cmdlineOffset := wordIn m (a + 60#32)

/-- `L4_boot_rec_next` -/
def recNext (m : Mem) (record : Word) : Word := record + wordIn m (record + 8#32)

/-- `L4_boot_info_first_entry` -/
def firstEntry (m : Mem) (info : Word) : Word := info + wordIn m (info + 12#32)

/-- The loop of `create_sys_threads` (`kern/systhread.c`). -/
def rootRecordRound (m : Mem) (record : Word) : Turn Word Word :=
  if wordIn m record ≠ bootInfoExe ∨ bytesAt m (record + 56#32) 4 ≠ literal "root" then .next (recNext m record) else .exit record

/-- Where the root thread starts. -/
def rootInitialIp (m : Mem) (info : Word) (fuel : Nat) : Option Word :=
  match loop (rootRecordRound m) fuel (firstEntry m info) with
  | .exit record => some (exeAt m record).initialIp
  | .next _ => none

/-- The loop of `find_heap_start` (`usr/root/memory.c`), with the rounds that are left. -/
def highestAddress (m : Mem) : Nat → Word → Word → Word
  | 0, _, highest => highest
  | rounds + 1, entry, highest =>
    highestAddress m rounds (recNext m entry) (if wordIn m entry ≠ bootInfoExe then highest else higherAddress highest (.exe (exeAt m entry)))

def heapStart (m : Mem) (info : Word) : Word :=
  alignToPage (highestAddress m (wordIn m (info + 16#32)).toNat (firstEntry m info) 0)

/-- The first loop of `locate_romfs_start` (`usr/root/romfs_server.c`). -/
def variablesRound (m : Mem) (entry : Word) : Turn Word Word :=
  if wordIn m (entry + 8#32) ≠ 0 ∧ wordIn m entry ≠ bootInfoVariables then .next (recNext m entry) else .exit entry

/-- The second one, over `var` and `var_idx`. -/
def variableRound (m : Mem) (count : Word) : Word × Word → Turn (Word × Word) (Word × Word)
  | (var, idx) => if idx < count ∧ bytesAt m var 11 ≠ literal "rootfs_base" then .next (var + 16#32, idx + 1) else .exit (var, idx)

/-- `rootfs_base`, unless the server gives up. -/
def locateRomfsStart (m : Mem) (info : Word) (fuel : Nat) : Option Word :=
  if wordIn m info ≠ bootInfoMagic then none
  else
    match loop (variablesRound m) fuel (firstEntry m info) with
    | .next _ => none
    | .exit entry =>
      if wordIn m entry ≠ bootInfoVariables then none
      else
        match loop (variableRound m (wordIn m (entry + 12#32))) fuel (entry + 16#32, 0) with
        | .next _ => none
        | .exit (var, idx) => if idx = wordIn m (entry + 12#32) then none else some (wordIn m (var + 12#32))

theorem bytesAt_take {m : Mem} {a : Word} {k n : Nat} (less : k ≤ n) : (bytesAt m a n).take k = bytesAt m a k := by
  rw [bytesAt, ← List.map_take, List.take_range, Nat.min_eq_left less]
  rfl

/-! ### What is where -/

/-- An offset from the start of the boot info. -/
def place (info : Word) (o : Nat) : Word := info + BitVec.ofNat 32 o

variable {info : Word} {m : Mem} {o k : Nat}

@[simp]
theorem place_add : place info o + BitVec.ofNat 32 k = place info (o + k) := by
  rw [place, place, BitVec.add_assoc, BitVec.ofNat_add]

theorem place_offset (less : o < 2 ^ 32) : (place info o - info).toNat = o := by
  rw [place, BitVec.add_comm, BitVec.add_sub_cancel, BitVec.toNat_ofNat, Nat.mod_eq_of_lt less]

def Store.region (info : Word) (s : Store) : Set Word :=
  { a | s.offset ≤ (a - info).toNat ∧ (a - info).toNat < s.offset + s.bytes.length }

theorem Store.run_local (info : Word) (s : Store) : LocalTo (s.region info) (s.run info) where
  frame m a outside := by
    unfold Store.run
    split
    · rename_i low
      rw [List.getElem?_eq_none, Option.getD_none]
      by_contra high
      exact outside ⟨low, by omega⟩
    · rfl
  reads m m' same a inside := by
    obtain ⟨low, high⟩ := inside
    unfold Store.run
    rw [if_pos low, if_pos low, List.getElem?_eq_getElem (by omega), Option.getD_some, Option.getD_some]

section
variable {kernState rootState : LibelfState} {rootGot rootUtcb : Option Word} {romfsStart : Word}

theorem fullBootInfo_ascending : (fullBootInfo kernState rootState rootGot rootUtcb romfsStart).Pairwise
    fun s t => s.offset + s.bytes.length ≤ t.offset := by
  cases rootGot <;> cases rootUtcb <;> simp [fullBootInfo, storeWords, exeWords, wordBytes, literal]

theorem fullBootInfo_end {s : Store} (member : s ∈ fullBootInfo kernState rootState rootGot rootUtcb romfsStart) :
    s.offset + s.bytes.length ≤ 212 := by
  have ends : ∀ s ∈ fullBootInfo kernState rootState rootGot rootUtcb romfsStart, s.offset + s.bytes.length ≤ 212 := by
    cases rootGot <;> cases rootUtcb <;> simp [fullBootInfo, storeWords, exeWords, wordBytes, literal]
  exact ends s member

theorem fullBootInfo_separate : Separate (Store.region info) (Store.run info) (fullBootInfo kernState rootState rootGot rootUtcb romfsStart) where
  localTo s _ := s.run_local info
  apart := by
    apply fullBootInfo_ascending.imp
    rintro s t before a ⟨_, high⟩ ⟨low, _⟩
    omega

theorem writeBootInfo_frame {a : Word} (outside : 212 ≤ (a - info).toNat) :
    writeBootInfo m info kernState rootState rootGot rootUtcb romfsStart a = m a := by
  apply changed_outside fullBootInfo_separate
  rintro s member ⟨_, high⟩
  have ends := fullBootInfo_end member
  omega

theorem writeBootInfo_byte {s : Store} {i : Nat} (member : s ∈ fullBootInfo kernState rootState rootGot rootUtcb romfsStart)
    (inside : i < s.bytes.length) :
    writeBootInfo m info kernState rootState rootGot rootUtcb romfsStart (place info (s.offset + i)) = s.bytes[i] := by
  have ends := fullBootInfo_end member
  have offset : (place info (s.offset + i) - info).toNat = s.offset + i := place_offset (by omega)
  have region : place info (s.offset + i) ∈ s.region info := by
    rw [Store.region, Set.mem_ofPred_eq, offset]
    omega
  have written := changed_inside (fullBootInfo_separate ) member region (m := m)
  refine written.trans ?_
  rw [Store.run, offset, if_pos (by omega), Nat.add_sub_cancel_left, List.getElem?_eq_getElem inside, Option.getD_some]

theorem flatMap_wordBytes {ws : List Word} {w : Word} {j k : Nat} (found : ws[j]? = some w) (less : k < 4) :
    (ws.flatMap wordBytes)[4 * j + k]? = some (w.extractLsb' (8 * k) 8) := by
  induction ws generalizing j with
  | nil => cases found
  | cons v ws ih =>
    rw [List.flatMap_cons]
    cases j with
    | zero =>
      obtain rfl := Option.some.inj found
      rw [List.getElem?_append_left (by rw [Nat.mul_zero, Nat.zero_add]; exact less), Nat.mul_zero, Nat.zero_add]
      have cases_ : k = 0 ∨ k = 1 ∨ k = 2 ∨ k = 3 := by omega
      rcases cases_ with rfl | rfl | rfl | rfl <;> rfl
    | succ j =>
      have four : (wordBytes v).length = 4 := rfl
      rw [List.getElem?_append_right (by omega), four, show 4 * (j + 1) + k - 4 = 4 * j + k by omega]
      exact ih found

theorem writeBootInfo_word {ws : List Word} {offset j : Nat} {w : Word}
    (member : storeWords offset ws ∈ fullBootInfo kernState rootState rootGot rootUtcb romfsStart) (found : ws[j]? = some w) :
    wordIn (writeBootInfo m info kernState rootState rootGot rootUtcb romfsStart) (place info (offset + 4 * j)) = w := by
  have byte : ∀ k < 4, writeBootInfo m info kernState rootState rootGot rootUtcb romfsStart (place info (offset + 4 * j) + BitVec.ofNat 32 k) =
      w.extractLsb' (8 * k) 8 := by
    intro k less
    have here := flatMap_wordBytes found less
    obtain ⟨inside, value⟩ := List.getElem?_eq_some_iff.mp here
    rw [place_add, Nat.add_assoc]
    exact (writeBootInfo_byte member inside).trans value
  calc wordIn _ (place info (offset + 4 * j)) = _ ++ _ ++ _ ++ _ := rfl
    _ = w.extractLsb' 24 8 ++ w.extractLsb' 16 8 ++ w.extractLsb' 8 8 ++ w.extractLsb' 0 8 := by
      rw [← byte 3 (by decide), ← byte 2 (by decide), ← byte 1 (by decide), ← byte 0 (by decide)]
    _ = w := append_bytes w

theorem writeBootInfo_bytes {s : Store} {i n : Nat} (member : s ∈ fullBootInfo kernState rootState rootGot rootUtcb romfsStart)
    (inside : i + n ≤ s.bytes.length) :
    bytesAt (writeBootInfo m info kernState rootState rootGot rootUtcb romfsStart) (place info (s.offset + i)) n = (s.bytes.drop i).take n := by
  apply List.ext_getElem
  · rw [bytesAt, List.length_map, List.length_range, List.length_take, List.length_drop, Nat.min_eq_left (by omega)]
  · intro k less _
    rw [bytesAt, List.length_map, List.length_range] at less
    simp only [bytesAt, List.getElem_map, List.getElem_range, place_add, List.getElem_take, List.getElem_drop, Nat.add_assoc]
    exact writeBootInfo_byte member (by omega)

theorem writeBootInfo_name {s : Store} {n : Nat} (member : s ∈ fullBootInfo kernState rootState rootGot rootUtcb romfsStart)
    (inside : n ≤ s.bytes.length) :
    bytesAt (writeBootInfo m info kernState rootState rootGot rootUtcb romfsStart) (place info s.offset) n = s.bytes.take n := by
  have bytes := @writeBootInfo_bytes info m _ _ _ _ _ s 0 n member (by omega)
  rwa [Nat.add_zero, List.drop_zero] at bytes

/-! ### What is read -/

theorem exeWords_label (record : RecordExe) : (((exeWords record).flatMap wordBytes).drop 56).take 4 = wordBytes record.label := rfl

theorem exeWords_length (record : RecordExe) : ((exeWords record).flatMap wordBytes).length = 64 := rfl

theorem exeLabel_written {record : RecordExe} {offset : Nat}
    (member : storeWords offset (exeWords record) ∈ fullBootInfo kernState rootState rootGot rootUtcb romfsStart) :
    bytesAt (writeBootInfo m info kernState rootState rootGot rootUtcb romfsStart) (place info (offset + 56)) 4 = wordBytes record.label := by
  have inside : 56 + 4 ≤ (storeWords offset (exeWords record)).bytes.length := by
    change 60 ≤ ((exeWords record).flatMap wordBytes).length
    rw [exeWords_length]
    decide
  exact (writeBootInfo_bytes member inside).trans (exeWords_label record)

theorem exeAt_written {record : RecordExe} {offset : Nat}
    (member : storeWords offset (exeWords record) ∈ fullBootInfo kernState rootState rootGot rootUtcb romfsStart) :
    exeAt (writeBootInfo m info kernState rootState rootGot rootUtcb romfsStart) (place info offset) = record := by
  obtain ⟨version, ⟨_, _, _⟩, ⟨_, _, _⟩, ⟨_, _, _⟩, initialIp, flags, label, cmdlineOffset⟩ := record
  simp only [exeAt, segmentAt, place_add]
  congr 1
  · exact writeBootInfo_word (j := 1) member rfl
  · congr 1
    · exact writeBootInfo_word (j := 3) member rfl
    · exact writeBootInfo_word (j := 4) member rfl
    · exact writeBootInfo_word (j := 5) member rfl
  · congr 1
    · exact writeBootInfo_word (j := 6) member rfl
    · exact writeBootInfo_word (j := 7) member rfl
    · exact writeBootInfo_word (j := 8) member rfl
  · congr 1
    · exact writeBootInfo_word (j := 9) member rfl
    · exact writeBootInfo_word (j := 10) member rfl
    · exact writeBootInfo_word (j := 11) member rfl
  · exact writeBootInfo_word (j := 12) member rfl
  · exact writeBootInfo_word (j := 13) member rfl
  · exact writeBootInfo_word (j := 14) member rfl
  · exact writeBootInfo_word (j := 15) member rfl

end

/-- The records of a boot info that was written, by their places. -/
structure Written (m : Mem) (info : Word) (kern root : RecordExe) (romfsStart : Word) : Prop where
  magic : wordIn m (place info 0) = bootInfoMagic
  first : wordIn m (place info 12) = 20#32
  entries : wordIn m (place info 16) = 3#32
  kernType : wordIn m (place info 20) = bootInfoExe
  kernNext : wordIn m (place info 28) = 64#32
  kernLabel : bytesAt m (place info 76) 4 ≠ literal "root"
  kern : exeAt m (place info 20) = kern
  rootType : wordIn m (place info 84) = bootInfoExe
  rootNext : wordIn m (place info 92) = 64#32
  rootLabel : bytesAt m (place info 140) 4 = literal "root"
  root : exeAt m (place info 84) = root
  varsType : wordIn m (place info 148) = bootInfoVariables
  varsNext : wordIn m (place info 156) = 0#32
  varsCount : wordIn m (place info 160) = 3#32
  got : bytesAt m (place info 164) 11 ≠ literal "rootfs_base"
  utcb : bytesAt m (place info 180) 11 ≠ literal "rootfs_base"
  name : bytesAt m (place info 196) 11 = literal "rootfs_base"
  value : wordIn m (place info 208) = romfsStart

section
variable {kernState rootState : LibelfState} {rootGot rootUtcb : Option Word} {romfsStart : Word}

theorem writeBootInfo_written : Written (writeBootInfo m info kernState rootState rootGot rootUtcb romfsStart) info
    (exeRecord kernState kernLabel) (exeRecord rootState rootLabel) romfsStart := by
  have header : storeWords 0 [bootInfoMagic, 1#32, 212#32, 20#32, 3#32] ∈ fullBootInfo kernState rootState rootGot rootUtcb romfsStart :=
    List.mem_of_getElem? (i := 0) rfl
  have kern : storeWords 20 (exeWords (exeRecord kernState kernLabel)) ∈ fullBootInfo kernState rootState rootGot rootUtcb romfsStart :=
    List.mem_of_getElem? (i := 1) rfl
  have root : storeWords 84 (exeWords (exeRecord rootState rootLabel)) ∈ fullBootInfo kernState rootState rootGot rootUtcb romfsStart :=
    List.mem_of_getElem? (i := 2) rfl
  have vars : storeWords 148 [bootInfoVariables, 1#32, 0#32, 3#32] ∈ fullBootInfo kernState rootState rootGot rootUtcb romfsStart :=
    List.mem_of_getElem? (i := 3) rfl
  have got : ⟨164, literal "root_got" ++ [0]⟩ ∈ fullBootInfo kernState rootState rootGot rootUtcb romfsStart :=
    List.mem_of_getElem? (i := 4) rfl
  have utcb : ⟨180, literal "root_utcb" ++ [0]⟩ ∈ fullBootInfo kernState rootState rootGot rootUtcb romfsStart :=
    List.mem_of_getElem? (i := 6) rfl
  have romfs : ⟨196, literal "rootfs_base" ++ [0]⟩ ∈ fullBootInfo kernState rootState rootGot rootUtcb romfsStart :=
    List.mem_of_getElem? (i := 8) rfl
  have value : storeWords 208 [romfsStart] ∈ fullBootInfo kernState rootState rootGot rootUtcb romfsStart :=
    List.mem_of_getElem? (i := 9) rfl
  have gotName := @writeBootInfo_name info m _ _ _ _ _ _ 9 got (by decide)
  have utcbName := @writeBootInfo_name info m _ _ _ _ _ _ 10 utcb (by decide)
  have romfsName := @writeBootInfo_name info m _ _ _ _ _ _ 11 romfs (by decide)
  dsimp only at gotName utcbName romfsName
  have names : (literal "rootfs_base").take 9 ≠ (literal "root_got" ++ [0]).take 9 ∧
      (literal "rootfs_base").take 10 ≠ (literal "root_utcb" ++ [0]).take 10 ∧
      (literal "rootfs_base" ++ [0]).take 11 = literal "rootfs_base" := by decide
  have labels : wordBytes kernLabel ≠ literal "root" ∧ wordBytes rootLabel = literal "root" := by decide
  exact {
    magic := writeBootInfo_word (j := 0) header rfl
    first := writeBootInfo_word (j := 3) header rfl
    entries := writeBootInfo_word (j := 4) header rfl
    kernType := writeBootInfo_word (j := 0) kern rfl
    kernNext := writeBootInfo_word (j := 2) kern rfl
    kernLabel := by
      rw [show 76 = 20 + 56 from rfl, exeLabel_written kern]
      exact labels.1
    kern := exeAt_written kern
    rootType := writeBootInfo_word (j := 0) root rfl
    rootNext := writeBootInfo_word (j := 2) root rfl
    rootLabel := by
      rw [show 140 = 84 + 56 from rfl, exeLabel_written root]
      exact labels.2
    root := exeAt_written root
    varsType := writeBootInfo_word (j := 0) vars rfl
    varsNext := writeBootInfo_word (j := 2) vars rfl
    varsCount := writeBootInfo_word (j := 3) vars rfl
    got := by
      intro same
      apply names.1
      rw [← same, bytesAt_take (by decide)]
      exact gotName
    utcb := by
      intro same
      apply names.2.1
      rw [← same, bytesAt_take (by decide)]
      exact utcbName
    name := romfsName.trans names.2.2
    value := writeBootInfo_word (j := 0) value rfl }

end

section
variable {kern root : RecordExe} {romfsStart : Word} {fuel : Nat}

theorem Written.firstEntry (w : Written m info kern root romfsStart) : firstEntry m info = place info 20 := by
  rw [Boot.firstEntry, show info + 12#32 = place info 12 from rfl, w.first]
  rfl

theorem Written.kernRecNext (w : Written m info kern root romfsStart) : recNext m (place info 20) = place info 84 := by
  rw [recNext, place_add, w.kernNext, place_add]

theorem Written.rootRecNext (w : Written m info kern root romfsStart) : recNext m (place info 84) = place info 148 := by
  rw [recNext, place_add, w.rootNext, place_add]

/-- The kernel passes its own record and stops at root's. -/
theorem Written.rootInitialIp (w : Written m info kern root romfsStart) (enough : 2 ≤ fuel) :
    rootInitialIp m info fuel = some root.initialIp := by
  obtain ⟨fuel, rfl⟩ : ∃ f, fuel = f + 2 := ⟨fuel - 2, by omega⟩
  have first : rootRecordRound m (place info 20) = .next (place info 84) := by
    rw [rootRecordRound, if_pos, w.kernRecNext]
    right
    rw [place_add]
    exact w.kernLabel
  have second : rootRecordRound m (place info 84) = .exit (place info 84) := by
    rw [rootRecordRound, if_neg]
    rw [place_add, not_or, not_not, not_not]
    exact ⟨w.rootType, w.rootLabel⟩
  rw [Boot.rootInitialIp, w.firstEntry, loop_next first, loop_exit second]
  dsimp only
  rw [w.root]

theorem Written.heapStart (w : Written m info kern root romfsStart) (entries : List (String × Word)) :
    heapStart m info = findHeapStart [.exe kern, .exe root, .variables 1 entries] := by
  have vars : bootInfoVariables ≠ bootInfoExe := by decide
  rw [Boot.heapStart, show info + 16#32 = place info 16 from rfl, w.entries, w.firstEntry]
  change alignToPage (highestAddress m 3 (place info 20) 0) = _
  rw [highestAddress, highestAddress, highestAddress, highestAddress, w.kernRecNext, w.rootRecNext, w.kernType, w.rootType, w.varsType,
    if_pos vars, if_neg (fun h => h rfl), if_neg (fun h => h rfl), w.kern, w.root]
  rfl

/-- The file server goes to the last record, and past the two variables in front of its own. -/
theorem Written.locateRomfsStart (w : Written m info kern root romfsStart) (enough : 3 ≤ fuel) :
    locateRomfsStart m info fuel = some romfsStart := by
  obtain ⟨fuel, rfl⟩ : ∃ f, fuel = f + 3 := ⟨fuel - 3, by omega⟩
  have kinds : bootInfoExe ≠ bootInfoVariables := by decide
  have first : variablesRound m (place info 20) = .next (place info 84) := by
    rw [variablesRound, if_pos, w.kernRecNext]
    rw [place_add, w.kernNext, w.kernType]
    exact ⟨by decide, kinds⟩
  have second : variablesRound m (place info 84) = .next (place info 148) := by
    rw [variablesRound, if_pos, w.rootRecNext]
    rw [place_add, w.rootNext, w.rootType]
    exact ⟨by decide, kinds⟩
  have third : variablesRound m (place info 148) = .exit (place info 148) := by
    rw [variablesRound, if_neg]
    rw [w.varsType]
    exact fun h => h.2 rfl
  have got : variableRound m 3#32 (place info 164, 0#32) = .next (place info 180, 1#32) := by
    rw [variableRound, if_pos ⟨by decide, w.got⟩, place_add]
    rfl
  have utcb : variableRound m 3#32 (place info 180, 1#32) = .next (place info 196, 2#32) := by
    rw [variableRound, if_pos ⟨by decide, w.utcb⟩, place_add]
    rfl
  have own : variableRound m 3#32 (place info 196, 2#32) = .exit (place info 196, 2#32) := by
    rw [variableRound, if_neg (fun h => h.2 w.name)]
  have magic : wordIn m info = bootInfoMagic := by
    have here := w.magic
    rwa [place, BitVec.add_zero] at here
  rw [Boot.locateRomfsStart, magic, if_neg (fun h => h rfl), w.firstEntry, loop_next first, loop_next second, loop_exit third]
  dsimp only
  rw [if_neg (fun h => h w.varsType), place_add, place_add, w.varsCount, show place info (148 + 16) = place info 164 from rfl,
    show (0 : Word) = 0#32 from rfl, loop_next got, loop_next utcb, loop_exit own]
  dsimp only
  rw [if_neg (by decide), place_add, w.value]

end

/-- Whatever the memory held: the kernel starts root where root was loaded, root's pool is that of the listed records, and the file server
finds the file system. Nothing behind the boot info is written. -/
theorem bootInfo_arrives (m : Mem) (info : Word) (kernState rootState : LibelfState) (rootGot rootUtcb : Option Word)
    (got utcb romfsStart : Word) (more : Nat) :
    let m' := writeBootInfo m info kernState rootState rootGot rootUtcb romfsStart
    rootInitialIp m' info (2 + more) = some rootState.entryPoint ∧
      heapStart m' info = findHeapStart (constructBootInfo kernState rootState got utcb romfsStart) ∧
      locateRomfsStart m' info (3 + more) = some romfsStart ∧ ∀ a, 212 ≤ (a - info).toNat → m' a = m a := by
  intro m'
  have written : Written m' info (exeRecord kernState kernLabel) (exeRecord rootState rootLabel) romfsStart := writeBootInfo_written
  exact ⟨written.rootInitialIp (by omega), written.heapStart _, written.locateRomfsStart (by omega), fun _ => writeBootInfo_frame⟩

end BradypOS.Boot
