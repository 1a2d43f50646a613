import BradypOS.L4.Fpages

/-!
# What items and flexpages keep (`include/l4/ipc.h`, `include/l4/space.h`)

A map or grant item holds the whole word of its flexpage, but of the send base only what is left of it in 22
bits once it is shifted by nine, and a flexpage keeps as much of its address. So the highest bit is lost.
-/

namespace BradypOS.L4

variable {fpage base address : Word} {k : Nat}

/-- An address that a field of 22 bits can stand for. -/
def BelowHalf (address : Word) : Prop := address.toNat < 2 ^ 31

instance (address : Word) : Decidable (BelowHalf address) := inferInstanceAs (Decidable (_ < _))

/-- What is left of an address behind a field of 22 bits. -/
def fieldAddress (address : Word) : Word := (((address >>> 9) <<< 10) >>> 10) <<< 9

theorem toNat_fieldAddress (address : Word) : (fieldAddress address).toNat = address.toNat / 2 ^ 9 % 2 ^ 22 * 2 ^ 9 := by
  have small := address.isLt
  rw [fieldAddress, BitVec.toNat_shiftLeft, BitVec.toNat_ushiftRight, BitVec.toNat_shiftLeft, BitVec.toNat_ushiftRight]
  simp only [Nat.shiftLeft_eq, Nat.shiftRight_eq_div_pow]
  omega

theorem fieldAddress_iff (aligned : 512 ∣ address.toNat) : fieldAddress address = address ↔ BelowHalf address := by
  have small := address.isLt
  rw [← BitVec.toNat_inj, toNat_fieldAddress, BelowHalf]
  omega

/-- The field is the same whatever the ten bits below it are. -/
theorem fieldAddress_or {low : Word} (below : low >>> 10 = 0#32) (address : Word) :
    ((low ||| ((address >>> 9) <<< 10)) >>> 10) <<< 9 = fieldAddress address := by
  rw [BitVec.ushiftRight_or_distrib, below, BitVec.zero_or]
  rfl

theorem MapItem.sndBase_ofFpage (fpage base : Word) : (MapItem.ofFpage fpage base).sndBase = fieldAddress base :=
  fieldAddress_or rfl base

theorem GrantItem.sndBase_ofFpage (fpage base : Word) : (GrantItem.ofFpage fpage base).sndBase = fieldAddress base :=
  fieldAddress_or rfl base

theorem Fpage.address_log2 (address : Word) (k : Nat) : Fpage.address (Fpage.log2 address k) = fieldAddress address := by
  apply fieldAddress_or
  ext i hi
  interval_cases i <;> simp

theorem Fpage.sizeLog2_log2 (address : Word) (least : 9 ≤ k) (most : k ≤ 31) : Fpage.sizeLog2 (Fpage.log2 address k) = k := by
  have field : (Fpage.log2 address k >>> 4) &&& 0x3F#32 = BitVec.ofNat 32 (k - 9) &&& 0x3F#32 := by
    ext i hi
    simp only [Fpage.log2]
    interval_cases i <;> simp
  rw [Fpage.sizeLog2, Fpage.s, field, Theory.toNat_and_mask (k := 6) _ _ rfl, BitVec.toNat_ofNat]
  omega

/-- Whether the fields of an item and of a flexpage come out as they were put in. -/
structure ComeBack (fpage base address : Word) (k : Nat) : Prop where
  mapFpage : (MapItem.ofFpage fpage base).sndFpage = fpage
  mapBase : (MapItem.ofFpage fpage base).sndBase = base
  grantFpage : (GrantItem.ofFpage fpage base).sndFpage = fpage
  grantBase : (GrantItem.ofFpage fpage base).sndBase = base
  placed : Fpage.address (Fpage.log2 address k) = address
  size : Fpage.sizeLog2 (Fpage.log2 address k) = k

/-- Send bases and addresses come back from the lower half of the address space, flexpages and sizes always. -/
theorem comeBack_iff (fpage base address : Word) (k : Nat) (alignedBase : 512 ∣ base.toNat) (aligned : 512 ∣ address.toNat)
    (least : 9 ≤ k) (most : k ≤ 31) : ComeBack fpage base address k ↔ BelowHalf base ∧ BelowHalf address := by
  rw [← fieldAddress_iff alignedBase, ← fieldAddress_iff aligned]
  constructor
  · intro back
    rw [← MapItem.sndBase_ofFpage fpage, ← Fpage.address_log2 address k]
    exact ⟨back.mapBase, back.placed⟩
  · rintro ⟨sent, kept⟩
    exact {
      mapFpage := MapItem.sndFpage_ofFpage fpage base
      mapBase := (MapItem.sndBase_ofFpage fpage base).trans sent
      grantFpage := GrantItem.sndFpage_ofFpage fpage base
      grantBase := (GrantItem.sndBase_ofFpage fpage base).trans sent
      placed := (Fpage.address_log2 address k).trans kept
      size := Fpage.sizeLog2_log2 address least most }

theorem comeBack_uart : ComeBack 0#32 0x20000200#32 0x40034000#32 12 :=
  (comeBack_iff 0#32 0x20000200#32 0x40034000#32 12 (by decide) (by decide) (by decide) (by decide)).mpr ⟨by decide, by decide⟩

/-- A page of the single-cycle I/O block, which comes back at `0x50000000`. -/
theorem comeBack_sio : 512 ∣ (0xD0000000#32 : Word).toNat ∧ ¬ ComeBack 0#32 0xD0000000#32 0xD0000000#32 12 ∧
    Fpage.address (Fpage.log2 0xD0000000#32 12) = 0x50000000#32 ∧
    (MapItem.ofFpage 0#32 0xD0000000#32).sndBase = 0x50000000#32 := by
  refine ⟨by decide, fun back => ?_, by decide, by decide⟩
  exact absurd back.placed (by decide)

end BradypOS.L4
