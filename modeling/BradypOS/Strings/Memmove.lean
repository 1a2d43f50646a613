import BradypOS.Service.Message
import BradypOS.Theory.Copy

/-!
# Copying memory (`lib/string/string.c`)

`memmove` copies upwards whatever the ranges are, and `memcpy` is `memmove`. Both are functions of the bytes
of the memory, and give the destination back.
-/

namespace BradypOS.Strings

open Theory (Copied copyUp)

/-! ### The functions -/

/-- The loop over `size--`. -/
def memmoveLoop (byte : Word → Byte) (destC srcC : Word) : Nat → Word → Byte
  | 0 => byte
  | size + 1 => memmoveLoop (Function.update byte destC (byte srcC)) (destC + 1#32) (srcC + 1#32) size

def memmove (byte : Word → Byte) (dest src size : Word) : Word × (Word → Byte) := (dest, memmoveLoop byte dest src size.toNat)

def memcpy (byte : Word → Byte) (dest src size : Word) : Word × (Word → Byte) := memmove byte dest src size

/-! ### What they copy -/

def Apart (dest src size : Word) : Prop :=
  ∀ i < size.toNat, ∀ j < size.toNat, dest + BitVec.ofNat 32 i ≠ src + BitVec.ofNat 32 j

/-- A range in which the bytes in front of a distance come again and again. -/
def Repeats (byte : Word → Byte) (src distance size : Word) : Prop :=
  ∀ i < size.toNat, byte (src + BitVec.ofNat 32 (i % distance.toNat)) = byte (src + BitVec.ofNat 32 i)

variable {byte : Word → Byte} {dest src size : Word}

theorem memmoveLoop_eq (byte : Word → Byte) (dest src : Word) (size : Nat) : memmoveLoop byte dest src size = copyUp byte dest src size := by
  induction size generalizing byte dest src with
  | zero => rfl
  | succ size ih => exact ih _ _ _

theorem memmove_copied_iff : Copied byte (memmove byte dest src size).2 dest src size.toNat ↔ Repeats byte src (dest - src) size := by
  show Copied byte (memmoveLoop byte dest src size.toNat) dest src size.toNat ↔ _
  rw [memmoveLoop_eq]
  exact Theory.copyUp_copied_iff (Nat.le_of_lt size.isLt)

/-- From a range behind the destination, or a whole range in front of it, every byte is read before it is written. -/
theorem memmove_copied (ahead : dest = src ∨ size ≤ dest - src) : Copied byte (memmove byte dest src size).2 dest src size.toNat := by
  show Copied byte (memmoveLoop byte dest src size.toNat) dest src size.toNat
  rw [memmoveLoop_eq]
  exact Theory.copyUp_copied (Nat.le_of_lt size.isLt) (ahead.imp_right BitVec.le_def.mp)

theorem memcpy_copied (apart : Apart dest src size) : Copied byte (memcpy byte dest src size).2 dest src size.toNat :=
  memmove_copied (.inr (BitVec.le_def.mpr (Theory.le_of_disjoint apart)))

/-- `memmove` copies as if through a temporary if the source repeats at the distance of the two ranges; `memcpy` copies
between ranges that are apart. -/
theorem memmove_iff (byte : Word → Byte) (dest src size : Word) :
    (Copied byte (memmove byte dest src size).2 dest src size.toNat ∧
      (Apart dest src size → Copied byte (memcpy byte dest src size).2 dest src size.toNat)) ↔ Repeats byte src (dest - src) size := by
  rw [memmove_copied_iff]
  exact and_iff_left memcpy_copied

/-- Two bytes moved up by one: the first one arrives twice. -/
theorem memmove_overlaps :
    ¬ Copied (fun a => a.truncate 8) (memmove (fun a => a.truncate 8) 0x20000001#32 0x20000000#32 2#32).2 0x20000001#32 0x20000000#32 2 := by
  intro copied
  exact absurd (copied.inside 1 (by decide)) (by decide)

end BradypOS.Strings
