import BradypOS.Printf.Rendered

/-!
# Printing into a buffer (`lib/tinyprintf/tinyprintf.c`, `kern/debug.c`, `kern/memory.c`)

`tfpVsnprintf` keeps to its buffer whatever is printed, `tfpVsprintf` does not know how long its buffer is. The kernel
prints with the second one.
-/

namespace BradypOS.Printf

open L4

/-! ### `tfp_vsnprintf` and `tfp_vsprintf` -/

structure VsnprintfPutcfData where
  destCapacity : Word
  dest : Nat → Byte
  numChars : Word

def vsnprintfPutcf (data : VsnprintfPutcfData) (c : Byte) : VsnprintfPutcfData :=
  { data with
    dest := if data.numChars < data.destCapacity then Function.update data.dest data.numChars.toNat c else data.dest
    numChars := data.numChars + 1#32 }

/-- What is returned, as an `int`, and the memory from `str` on. -/
def tfpVsnprintf (p : Param) (str : Nat → Byte) (size : Word) (format : List Byte) (ap : List Arg) : Option (Int × (Nat → Byte)) :=
  if size < 1#32 then some (0, str)
  else do
    let shown ← tfpFormat p format ap
    let data := shown.foldl vsnprintfPutcf { destCapacity := size - 1#32, dest := str, numChars := 0#32 }
    let last := if data.numChars < data.destCapacity then data.numChars else data.destCapacity
    some (data.numChars.toInt, Function.update data.dest last.toNat 0)

structure VsprintfPutcfData where
  dest : Nat → Byte
  numChars : Word

def vsprintfPutcf (data : VsprintfPutcfData) (c : Byte) : VsprintfPutcfData :=
  { dest := Function.update data.dest data.numChars.toNat c, numChars := data.numChars + 1#32 }

def tfpVsprintf (p : Param) (str : Nat → Byte) (format : List Byte) (ap : List Arg) : Option (Int × (Nat → Byte)) := do
  let shown ← tfpFormat p format ap
  let data := shown.foldl vsprintfPutcf { dest := str, numChars := 0#32 }
  some (data.numChars.toInt, Function.update data.dest data.numChars.toNat 0)

/-! ### What is in the buffer -/

/-- A memory with `bytes` from its start on. -/
def overwrite (m : Nat → Byte) (bytes : List Byte) : Nat → Byte := fun i => bytes[i]?.getD (m i)

variable {m : Nat → Byte} {p : Param}

theorem overwrite_concat (bytes : List Byte) (c : Byte) : Function.update (overwrite m bytes) bytes.length c = overwrite m (bytes ++ [c]) := by
  funext i
  unfold overwrite
  by_cases here : i = bytes.length
  · rw [here, Function.update_self, List.getElem?_concat_length]
    rfl
  · rw [Function.update_of_ne here]
    by_cases before : i < bytes.length
    · rw [List.getElem?_append_left before]
    · rw [List.getElem?_eq_none (by omega), List.getElem?_eq_none (by rw [List.length_append, List.length_singleton]; omega)]

/-- The count of the characters, which fits into a word. -/
theorem toNat_count {n : Nat} (fits : n < 2 ^ 32) : (BitVec.ofNat 32 n).toNat = n := Nat.mod_eq_of_lt fits

theorem count_lt {n : Nat} (fits : n < 2 ^ 32) {w : Word} : BitVec.ofNat 32 n < w ↔ n < w.toNat := by
  rw [BitVec.lt_def, toNat_count fits]

theorem count_concat (shown : List Byte) (c : Byte) : BitVec.ofNat 32 (shown ++ [c]).length = BitVec.ofNat 32 shown.length + 1#32 := by
  rw [List.length_append, List.length_singleton, BitVec.ofNat_add]

theorem vsnprintf_foldl (capacity : Word) {shown : List Byte} (fits : shown.length < 2 ^ 32) :
    shown.foldl vsnprintfPutcf { destCapacity := capacity, dest := m, numChars := 0#32 } =
      { destCapacity := capacity, dest := overwrite m (shown.take capacity.toNat), numChars := BitVec.ofNat 32 shown.length } := by
  induction shown using List.reverseRecOn with
  | nil =>
    rw [List.take_nil]
    rfl
  | append_singleton shown c ih =>
    rw [List.length_append, List.length_singleton] at fits
    rw [List.foldl_concat, ih (by omega), vsnprintfPutcf, count_concat]
    dsimp only
    congr 1
    split
    · rename_i room
      rw [count_lt (by omega)] at room
      rw [toNat_count (by omega), List.take_of_length_le room.le, overwrite_concat, List.take_of_length_le (by rw [List.length_append, List.length_singleton]; exact room)]
    · rename_i full
      rw [count_lt (by omega)] at full
      rw [List.take_append_of_le_length (Nat.le_of_not_lt full)]

theorem vsprintf_foldl {shown : List Byte} (fits : shown.length < 2 ^ 32) :
    shown.foldl vsprintfPutcf { dest := m, numChars := 0#32 } = { dest := overwrite m shown, numChars := BitVec.ofNat 32 shown.length } := by
  induction shown using List.reverseRecOn with
  | nil => rfl
  | append_singleton shown c ih =>
    rw [List.length_append, List.length_singleton] at fits
    rw [List.foldl_concat, ih (by omega), vsprintfPutcf, count_concat]
    dsimp only
    rw [toNat_count (by omega), overwrite_concat]

theorem toInt_count {n : Nat} (fits : n < 2 ^ 31) : (BitVec.ofNat 32 n).toInt = n := by
  rw [BitVec.toInt_eq_toNat_of_lt (by rw [toNat_count (by omega)]; omega), toNat_count (by omega)]

/-- A buffer gets what has room in front of the terminator, and nothing is written behind it, unless the output is so long that
the count of its characters is no `int`. -/
theorem tfpVsnprintf_pieces (pieces : List Piece) {size : Word} (positive : 0#32 < size)
    (fits : (pieces.flatMap Piece.output).length < 2 ^ 31) :
    tfpVsnprintf p m size (pieces.flatMap Piece.text) (pieces.flatMap Piece.args) =
      some (((pieces.flatMap Piece.output).length : Int), overwrite m ((pieces.flatMap Piece.output).take (size.toNat - 1) ++ [0])) := by
  have some_ : ¬ size < 1#32 := by bv_omega
  have capacity : (size - 1#32).toNat = size.toNat - 1 := by bv_omega
  rw [tfpVsnprintf, if_neg some_, tfpFormat, formatLoop_pieces pieces (le_refl _), Option.bind_eq_bind, Option.bind_some]
  generalize pieces.flatMap Piece.output = shown at fits ⊢
  dsimp only
  rw [vsnprintf_foldl (size - 1#32) (by omega)]
  dsimp only
  rw [toInt_count fits, ← capacity, ← overwrite_concat, List.length_take]
  congr 3
  split
  · rename_i room
    rw [count_lt (by omega)] at room
    rw [toNat_count (by omega), Nat.min_eq_right room.le]
  · rename_i full
    rw [count_lt (by omega)] at full
    rw [Nat.min_eq_left (Nat.le_of_not_lt full)]

theorem tfpVsprintf_pieces (pieces : List Piece) (fits : (pieces.flatMap Piece.output).length < 2 ^ 31) :
    tfpVsprintf p m (pieces.flatMap Piece.text) (pieces.flatMap Piece.args) =
      some (((pieces.flatMap Piece.output).length : Int), overwrite m (pieces.flatMap Piece.output ++ [0])) := by
  rw [tfpVsprintf, tfpFormat, formatLoop_pieces pieces (le_refl _), Option.bind_eq_bind, Option.bind_some]
  dsimp only
  rw [vsprintf_foldl (by omega)]
  dsimp only
  rw [toInt_count fits, toNat_count (by omega), overwrite_concat]

/-! ### The register dump of `__isr_hardfault` -/

/-- The words that the processor leaves at the stack pointer. -/
inductive CtxStack
  | r0
  | r1
  | r2
  | r3
  | r12
  | lr
  | pc
  | psr
  deriving DecidableEq

/-- A literal of the source. -/
def literal (text : String) : List Byte := text.toList.map ascii

def dumpFormat : List Byte :=
  literal "Context stored to %s\n" ++ literal "mode:\t%s\n" ++ literal "SP:\t0x%08x\n" ++ literal "PSR:\t0x%08x\n" ++
    literal "r0:\t0x%08x\n" ++ literal "r1:\t0x%08x\n" ++ literal "r2:\t0x%08x\n" ++ literal "r3:\t0x%08x\n" ++
    literal "r12:\t0x%08x\n" ++ literal "lr:\t0x%08x\n" ++ literal "pc:\t0x%08x\n"

def dumpArgs (usesPsp faultInThreadMode : Bool) (sp : Word) (faultedSp : CtxStack → Word) : List Arg :=
  [.str (literal (if usesPsp then "PSP" else "MSP")), .str (literal (if faultInThreadMode then "thread" else "handler")),
    .word sp, .word (faultedSp .psr), .word (faultedSp .r0), .word (faultedSp .r1), .word (faultedSp .r2), .word (faultedSp .r3),
    .word (faultedSp .r12), .word (faultedSp .lr), .word (faultedSp .pc)]

/-- `sizeof debug_buf`. -/
def debugBufSize : Nat := 128

/-- `dbg_printf` of the dump; `debugBuf` is the memory from `debug_buf` on. -/
def dumpRegisters (p : Param) (debugBuf : Nat → Byte) (usesPsp faultInThreadMode : Bool) (sp : Word) (faultedSp : CtxStack → Word) :
    Option (Int × (Nat → Byte)) :=
  tfpVsprintf p debugBuf dumpFormat (dumpArgs usesPsp faultInThreadMode sp faultedSp)

def chars (text : List Byte) (plain : ∀ ch ∈ text, ch ≠ ascii '%') : List Piece := text.attach.map fun ch => .char ch.1 (plain ch.1 ch.2)

section
variable {text : List Byte} {plain : ∀ ch ∈ text, ch ≠ ascii '%'}

@[simp]
theorem chars_text : (chars text plain).flatMap Piece.text = text := by
  unfold chars
  rw [List.flatMap_map]
  simp [Piece.text]

@[simp]
theorem chars_args : (chars text plain).flatMap Piece.args = [] := by
  unfold chars
  rw [List.flatMap_map]
  simp [Piece.args]

@[simp]
theorem chars_output : (chars text plain).flatMap Piece.output = text := by
  unfold chars
  rw [List.flatMap_map]
  simp [Piece.output]

end

/-- `%s` -/
def string (text : List Byte) : Piece :=
  .directive { flags := [], width := none, precision := none, conv := .s text, proper := fun _ => List.not_mem_nil }

def noParam : Param := { width := 0, base := 0, bf := [], sign := none, lz := false, alt := false, uc := false, alignLeft := false }

/-- Four characters for a buffer of three. -/
theorem tfpVsnprintf_pieces_cut : tfpVsnprintf noParam (fun _ => 255#8) 3 (literal "a%s") [.str (literal "bcd")] =
    some (4, overwrite (fun _ => 255#8) (literal "ab" ++ [0])) :=
  tfpVsnprintf_pieces [.char (ascii 'a') (by decide), string (literal "bcd")] (by decide : 0#32 < 3#32) (by decide)

/-- `%08x` -/
def word08 (v : Word) : Piece :=
  .directive { flags := [.zero], width := some ⟨8, by decide⟩, precision := none, conv := .x (.int v), proper := by rintro ⟨_, ⟨⟩⟩ }

theorem string_text (text : List Byte) : (string text).text = literal "%s" := rfl

theorem string_output (text : List Byte) : (string text).output = text := by
  change field .right 0 [] [] text = text
  unfold field
  simp

theorem word08_text (v : Word) : (word08 v).text = literal "%08x" := by
  have eight : Theory.digitsMsb 10 8 = [8] := by simp [Theory.digitsMsb]
  change ascii '%' :: ascii '0' :: ((Theory.digitsMsb 10 8).map (digitChar false) ++ [ascii 'x']) = _
  rw [eight]
  rfl

theorem word08_length (v : Word) : (word08 v).output.length = 8 := by
  have short : (Theory.digitsMsb 16 v.toNat).length ≤ 8 := Theory.digitsMsb_length (by decide) (by decide) v.isLt
  change (field .zeros 8 [] [] ((Theory.digitsMsb 16 v.toNat).map (digitChar false))).length = 8
  unfold field
  simp only [List.length_append, List.length_replicate, List.length_map, List.length_nil]
  omega

/-- A line of the dump, with a string or a word between the ends. -/
def line (start : String) (plain : ∀ ch ∈ literal start, ch ≠ ascii '%') (value : Piece) : List Piece :=
  chars (literal start) plain ++ [value] ++ [.char (ascii '\n') (by decide)]

theorem line_text (start : String) (plain : ∀ ch ∈ literal start, ch ≠ ascii '%') (value : Piece) :
    (line start plain value).flatMap Piece.text = literal start ++ value.text ++ [ascii '\n'] := by
  rw [line, List.flatMap_append, List.flatMap_append, chars_text, List.flatMap_singleton, List.flatMap_singleton]
  rfl

theorem line_args (start : String) (plain : ∀ ch ∈ literal start, ch ≠ ascii '%') (value : Piece) :
    (line start plain value).flatMap Piece.args = value.args := by
  rw [line, List.flatMap_append, List.flatMap_append, chars_args, List.flatMap_singleton, List.flatMap_singleton]
  exact List.append_nil _

theorem line_length (start : String) (plain : ∀ ch ∈ literal start, ch ≠ ascii '%') (value : Piece) :
    ((line start plain value).flatMap Piece.output).length = (literal start).length + value.output.length + 1 := by
  rw [line, List.flatMap_append, List.flatMap_append, chars_output, List.flatMap_singleton, List.flatMap_singleton, List.length_append,
    List.length_append]
  rfl

def dumpPieces (usesPsp faultInThreadMode : Bool) (sp : Word) (faultedSp : CtxStack → Word) : List Piece :=
  line "Context stored to " (by decide +kernel) (string (literal (if usesPsp then "PSP" else "MSP"))) ++
    line "mode:\t" (by decide +kernel) (string (literal (if faultInThreadMode then "thread" else "handler"))) ++
    line "SP:\t0x" (by decide +kernel) (word08 sp) ++ line "PSR:\t0x" (by decide +kernel) (word08 (faultedSp .psr)) ++
    line "r0:\t0x" (by decide +kernel) (word08 (faultedSp .r0)) ++ line "r1:\t0x" (by decide +kernel) (word08 (faultedSp .r1)) ++
    line "r2:\t0x" (by decide +kernel) (word08 (faultedSp .r2)) ++ line "r3:\t0x" (by decide +kernel) (word08 (faultedSp .r3)) ++
    line "r12:\t0x" (by decide +kernel) (word08 (faultedSp .r12)) ++ line "lr:\t0x" (by decide +kernel) (word08 (faultedSp .lr)) ++
    line "pc:\t0x" (by decide +kernel) (word08 (faultedSp .pc))

section
variable (usesPsp faultInThreadMode : Bool) (sp : Word) (faultedSp : CtxStack → Word)

theorem dumpPieces_text : (dumpPieces usesPsp faultInThreadMode sp faultedSp).flatMap Piece.text = dumpFormat := by
  simp only [dumpPieces, List.flatMap_append, line_text, string_text, word08_text]
  decide +kernel

theorem dumpPieces_args : (dumpPieces usesPsp faultInThreadMode sp faultedSp).flatMap Piece.args = dumpArgs usesPsp faultInThreadMode sp faultedSp := by
  simp only [dumpPieces, List.flatMap_append, line_args]
  rfl

theorem dumpPieces_length : ((dumpPieces usesPsp faultInThreadMode sp faultedSp).flatMap Piece.output).length =
    if faultInThreadMode then 172 else 173 := by
  simp only [dumpPieces, List.flatMap_append, List.length_append, line_length, string_output, word08_length]
  revert usesPsp faultInThreadMode
  decide +kernel

/-- Whatever the registers hold, the dump is longer than `debug_buf`, and writes behind it. -/
theorem dumpRegisters_overruns (p : Param) (debugBuf : Nat → Byte) : ∃ shown,
    dumpRegisters p debugBuf usesPsp faultInThreadMode sp faultedSp = some ((shown.length : Int), overwrite debugBuf (shown ++ [0])) ∧
      shown.length = (if faultInThreadMode then 172 else 173) ∧ debugBufSize + 44 ≤ shown.length := by
  refine ⟨_, ?_, dumpPieces_length usesPsp faultInThreadMode sp faultedSp, ?_⟩
  · have short : ((dumpPieces usesPsp faultInThreadMode sp faultedSp).flatMap Piece.output).length < 2 ^ 31 := by
      rw [dumpPieces_length]
      cases faultInThreadMode <;> decide
    rw [dumpRegisters, ← dumpPieces_args, ← dumpPieces_text usesPsp faultInThreadMode sp faultedSp, tfpVsprintf_pieces _ short]
  · rw [dumpPieces_length]
    cases faultInThreadMode <;> decide

end

end BradypOS.Printf
