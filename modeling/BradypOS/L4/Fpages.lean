import BradypOS.Service.Message

/-!
# Flexpages in numbers

The address and the size of a flexpage as numbers, and the fields of one that is composed from its
parts. An address has 31 bits, so a page whose size is a word ends inside the address space.
-/

namespace BradypOS.L4.Fpage

/-- The size of a flexpage in unbounded arithmetic. -/
def bytes (raw : Word) : Nat := 2 ^ (s raw + 9)

/-- Where a flexpage ends. -/
def limit (raw : Word) : Nat := (address raw).toNat + bytes raw

variable {raw : Word}

theorem toNat_address (raw : Word) : (address raw).toNat = raw.toNat / 2 ^ 10 * 2 ^ 9 := by
  have small := raw.isLt
  rw [address, b, BitVec.toNat_shiftLeft, BitVec.toNat_ushiftRight, Nat.shiftRight_eq_div_pow, Nat.shiftLeft_eq]
  omega

theorem s_le_of_bytes (small : bytes raw < 2 ^ 32) : s raw + 9 < 32 := (Nat.pow_lt_pow_iff_right (by decide)).mp small

theorem toNat_size (small : bytes raw < 2 ^ 32) : (size raw).toNat = bytes raw := by
  rw [size, BitVec.toNat_shiftLeft, Nat.shiftLeft_eq]
  show 1 * 2 ^ (s raw + 9) % 2 ^ 32 = bytes raw
  rw [Nat.one_mul]
  exact Nat.mod_eq_of_lt small

theorem size_eq_zero (large : 2 ^ 32 ≤ bytes raw) : size raw = 0#32 := by
  have shift : 32 ≤ s raw + 9 := (Nat.pow_le_pow_iff_right (by decide)).mp large
  exact BitVec.shiftLeft_eq_zero shift

theorem bytes_ge (raw : Word) : 512 ≤ bytes raw := by
  show 2 ^ 9 ≤ 2 ^ (s raw + 9)
  apply Nat.pow_le_pow_right (by decide)
  omega

theorem limit_lt (small : bytes raw < 2 ^ 32) : limit raw < 2 ^ 32 := by
  have word := raw.isLt
  have half : bytes raw ≤ 2 ^ 31 := by
    apply Nat.pow_le_pow_right (by decide)
    have := s_le_of_bytes small
    omega
  rw [limit, toNat_address]
  omega

theorem toNat_limit (small : bytes raw < 2 ^ 32) : (address raw + size raw).toNat = limit raw := by
  rw [BitVec.toNat_add, toNat_size small]
  exact Nat.mod_eq_of_lt (limit_lt small)

/-! ### Composed flexpages -/

theorem s_addRights (raw rights : Word) : s (addRights raw rights) = s raw := by
  have field : (addRights raw rights >>> 4) &&& 0x3F#32 = (raw >>> 4) &&& 0x3F#32 := by
    ext i hi
    simp only [addRights]
    interval_cases i <;> simp
  rw [s, s, field]

theorem s_ofSize (base size : Word) : s (ofSize base size) = (floorlog2 size).toNat % 2 ^ 6 := by
  have field : (ofSize base size >>> 4) &&& 0x3F#32 = floorlog2 size &&& 0x3F#32 := by
    ext i hi
    simp only [ofSize, mk]
    interval_cases i <;> simp
  rw [s, field]
  exact Theory.toNat_and_mask _ _ rfl

/-- For less than 128 MiB the subtraction wraps. -/
theorem floorlog2_wraps {size : Word} (small : size.toNat < 2 ^ 27) : 36 ≤ (floorlog2 size).toNat % 2 ^ 6 := by
  have zeros : 5 ≤ size.clz.toNat := by
    by_contra few
    have nonzero : size ≠ 0#32 := by
      intro zero
      rw [BitVec.clz_eq_iff_eq_zero.mpr zero] at few
      exact few (by decide)
    have low := BitVec.two_pow_sub_clz_le_toNat_of_ne_zero (by decide) nonzero
    have power : 2 ^ 27 ≤ 2 ^ (32 - 1 - size.clz.toNat) := Nat.pow_le_pow_right (by decide) (by omega)
    omega
  have most : size.clz.toNat ≤ 32 := BitVec.le_def.mp BitVec.clz_le
  rw [floorlog2, BitVec.toNat_sub]
  show 36 ≤ (2 ^ 32 - size.clz.toNat + 4) % 2 ^ 32 % 2 ^ 6
  omega

theorem floorlog2_le {size : Word} (large : 2 ^ 27 ≤ size.toNat) : (floorlog2 size).toNat ≤ 4 := by
  have zeros : size.clz.toNat ≤ 4 := by
    by_contra many
    have high := BitVec.toNat_lt_two_pow_sub_clz (x := size)
    have power : 2 ^ (32 - size.clz.toNat) ≤ 2 ^ 27 := Nat.pow_le_pow_right (by decide) (by omega)
    omega
  rw [floorlog2, BitVec.toNat_sub]
  show (2 ^ 32 - size.clz.toNat + 4) % 2 ^ 32 ≤ 4
  omega

/-- A flexpage from its size in bytes is larger than the address space, or has at most 8 KiB. -/
theorem bytes_ofSize (base size : Word) :
    (size.toNat < 2 ^ 27 ∧ 2 ^ 32 ≤ bytes (ofSize base size)) ∨ (2 ^ 27 ≤ size.toNat ∧ bytes (ofSize base size) ≤ 2 ^ 13) := by
  unfold bytes
  rw [s_ofSize]
  rcases Nat.lt_or_ge size.toNat (2 ^ 27) with small | large
  · have wraps := floorlog2_wraps small
    exact .inl ⟨small, Nat.pow_le_pow_right (by decide) (by omega)⟩
  · have few := floorlog2_le large
    exact .inr ⟨large, Nat.pow_le_pow_right (by decide) (by omega)⟩

end BradypOS.L4.Fpage
