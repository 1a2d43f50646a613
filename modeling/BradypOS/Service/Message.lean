import BradypOS.Kernel.State
import BradypOS.Theory.Align

/-!
# Messages of user programs (`include/l4/ipc.h`, `include/errno.h`)

A program composes a message word by word in its own UTCB. The items and error numbers here are the
ones that the servers and their clients send.
-/

namespace BradypOS

abbrev Byte := BitVec 8

/-- The string that an item describes. -/
def stringAt (mem : Word → Byte) (ptr : Word) (length : Nat) : List Byte :=
  (List.range length).map fun i => mem (ptr + BitVec.ofNat 32 i)

theorem length_stringAt (mem : Word → Byte) (ptr : Word) (length : Nat) : (stringAt mem ptr length).length = length := by
  simp [stringAt]

theorem take_stringAt (mem : Word → Byte) (ptr : Word) {n length : Nat} (le : n ≤ length) :
    (stringAt mem ptr length).take n = stringAt mem ptr n := by
  simp [stringAt, ← List.map_take, List.take_range, le]

namespace L4

def ipcFailed (tag : Word) : Bool := MsgTag.flags tag &&& (1#32 <<< 3) ≠ 0#32

/-! ### The fields of a tag -/

namespace MsgTag

variable (u t : Nat) (f l : Word)

theorem label_mk : label (mk u t f l) = l &&& 0xFFFF#32 := by
  ext i hi
  simp only [label, mk]
  interval_cases i <;> simp

theorem flags_mk : flags (mk u t f l) = f &&& 0xF#32 := by
  ext i hi
  simp only [flags, mk]
  interval_cases i <;> simp

theorem t_mk : MsgTag.t (mk u t f l) = t % 64 := by
  have field : ((mk u t f l) >>> 6) &&& 0x3F#32 = BitVec.ofNat 32 t &&& 0x3F#32 := by
    ext i hi
    simp only [mk]
    interval_cases i <;> simp
  rw [MsgTag.t, field, Theory.toNat_and_mask (k := 6) _ _ rfl, BitVec.toNat_ofNat]
  omega

theorem u_mk : MsgTag.u (mk u t f l) = u % 64 := by
  have field : (mk u t f l) &&& 0x3F#32 = BitVec.ofNat 32 u &&& 0x3F#32 := by
    ext i hi
    simp only [mk]
    interval_cases i <;> simp
  rw [MsgTag.u, field, Theory.toNat_and_mask (k := 6) _ _ rfl, BitVec.toNat_ofNat]
  omega

end MsgTag

/-- A message without flags is no error. -/
theorem not_ipcFailed_mk (u t : Nat) (label : Word) : ipcFailed (MsgTag.mk u t 0#32 label) = false := by
  rw [ipcFailed, MsgTag.flags_mk]
  decide

/-! ### String items -/

/-- `struct L4_simple_string_item` without its pointer; the length field has 22 bits. -/
def Item.simpleString (length : Word) : Word := (length &&& 0x3FFFFF#32) <<< 10

theorem Item.toNat_simpleString (length : Word) : (Item.simpleString length).toNat = length.toNat % 2 ^ 22 * 2 ^ 10 := by
  have low : (length &&& 0x3FFFFF#32).toNat = length.toNat % 2 ^ 22 := Theory.toNat_and_mask length _ rfl
  rw [Item.simpleString, BitVec.toNat_shiftLeft, low, Nat.shiftLeft_eq]
  omega

theorem Item.length_simpleString (length : Word) : Item.length (Item.simpleString length) = length.toNat % 2 ^ 22 := by
  rw [Item.length, BitVec.toNat_ushiftRight, Item.toNat_simpleString, Nat.shiftRight_eq_div_pow]
  omega

theorem Item.type_simpleString (length : Word) : Item.type (Item.simpleString length) = .stringItem := by
  have zero : ((Item.simpleString length >>> 1) &&& 7#32).toNat = 0 := by
    rw [Theory.toNat_and_mask (k := 3) _ _ rfl, BitVec.toNat_ushiftRight, Item.toNat_simpleString, Nat.shiftRight_eq_div_pow]
    omega
  simp only [Item.type, zero]

theorem Item.compound_simpleString (length : Word) : Item.compound (Item.simpleString length) = false := by
  simp [Item.compound, Item.simpleString]

/-! ### Flexpages and map items -/

/-- `floorlog2`, which subtracts from the size of the word in bytes; of zero, for which
`__builtin_clz` promises nothing, the leading zeros are the 32 of the library function. -/
def floorlog2 (value : Word) : Word := 4#32 - value.clz

namespace Fpage

/-- A flexpage from its bit fields. -/
def mk (perm s b : Word) : Word := (perm &&& 0xF#32) ||| ((s &&& 0x3F#32) <<< 4) ||| (b <<< 10)

/-- `L4_fpage`. -/
def ofSize (base size : Word) : Word := mk 0#32 (floorlog2 size) (base >>> 9)

def writable : Word := 2#32

theorem perm_or_rest (raw : Word) : perm raw ||| ((raw >>> 4) <<< 4) = raw := by
  ext i hi
  simp only [perm]
  interval_cases i <;> simp

/-- An item holds the fields of its page: the mask for `s` is wider than the field. -/
theorem mk_fields (raw : Word) : mk (raw &&& 0xF#32) ((raw >>> 4) &&& 0x7F#32) (raw >>> 4 >>> 6) = raw := by
  have low : mk (raw &&& 0xF#32) ((raw >>> 4) &&& 0x7F#32) (raw >>> 4 >>> 6) =
      (raw &&& 0xF#32) ||| (((raw >>> 4) &&& 0x3F#32) <<< 4) ||| ((raw >>> 10) <<< 10) := by
    rw [mk, BitVec.and_assoc, BitVec.and_assoc, ← BitVec.shiftRight_add]
    rfl
  rw [low]
  ext i hi
  interval_cases i <;> simp

end Fpage

structure MapItem where
  first : Word
  second : Word

namespace MapItem

/-- `L4_map_item`. -/
def ofFpage (fpage base : Word) : MapItem where
  first := (4#32 <<< 1) ||| ((base >>> 9) <<< 10)
  second := Fpage.perm fpage ||| ((fpage >>> 4) <<< 4)

/-- `L4_map_item_snd_fpage`; the field `s` has 6 bits. -/
def sndFpage (item : MapItem) : Word :=
  let snd := item.second >>> 4
  Fpage.mk (item.second &&& 0xF#32) (snd &&& 0x7F#32) (snd >>> 6)

/-- `L4_map_item_snd_base`, from the upper 22 bits. -/
def sndBase (item : MapItem) : Word := (item.first >>> 10) <<< 9

theorem type_first (fpage base : Word) : Item.type (MapItem.ofFpage fpage base).first = .mapItem := by
  have field : (((MapItem.ofFpage fpage base).first >>> 1) &&& 7#32) = 4#32 := by
    ext i hi
    simp only [MapItem.ofFpage]
    interval_cases i <;> simp
  rw [Item.type, field]
  rfl

theorem sndFpage_ofFpage (fpage base : Word) : (MapItem.ofFpage fpage base).sndFpage = fpage := by
  have second : (MapItem.ofFpage fpage base).second = fpage := Fpage.perm_or_rest fpage
  rw [sndFpage, second]
  exact Fpage.mk_fields fpage

theorem sndFpage_ne_zero (fpage base : Word) :
    (MapItem.ofFpage (Fpage.addRights fpage Fpage.readable) base).sndFpage ≠ 0#32 := by
  intro nil
  have bit := congrArg (fun w => BitVec.getLsbD w 2) nil
  simp [MapItem.sndFpage, MapItem.ofFpage, Fpage.mk, Fpage.perm, Fpage.addRights, Fpage.readable] at bit

end MapItem

/-- `struct L4_grant_item`, with the fields of a map item. -/
structure GrantItem where
  first : Word
  second : Word

namespace GrantItem

/-- `L4_grant_item`. -/
def ofFpage (fpage base : Word) : GrantItem where
  first := (5#32 <<< 1) ||| ((base >>> 9) <<< 10)
  second := Fpage.perm fpage ||| ((fpage >>> 4) <<< 4)

/-- `L4_grant_item_snd_fpage`. -/
def sndFpage (item : GrantItem) : Word :=
  let snd := item.second >>> 4
  Fpage.mk (item.second &&& 0xF#32) (snd &&& 0x7F#32) (snd >>> 6)

/-- `L4_grant_item_snd_base`. -/
def sndBase (item : GrantItem) : Word := (item.first >>> 10) <<< 9

theorem sndFpage_ofFpage (fpage base : Word) : (GrantItem.ofFpage fpage base).sndFpage = fpage := by
  have second : (GrantItem.ofFpage fpage base).second = fpage := Fpage.perm_or_rest fpage
  rw [sndFpage, second]
  exact Fpage.mk_fields fpage

end GrantItem

/-- The values of `enum errno_codes` that servers answer with. -/
inductive Errno where
  | enoent | eio | ebadf | enomem | efault | einval | erofs
  deriving DecidableEq, Repr

def Errno.toWord : Errno → Word
  | .enoent => 2#32
  | .eio => 5#32
  | .ebadf => 9#32
  | .enomem => 12#32
  | .efault => 14#32
  | .einval => 22#32
  | .erofs => 30#32

end L4

namespace Utcb

@[simp] theorem mr_setMr_same (u : Utcb) (i : Nat) (w : Word) : (u.setMr i w).mr i = w := by simp [mr, setMr]

theorem mr_setMr_other (u : Utcb) {i j : Nat} (other : j ≠ i) (w : Word) : (u.setMr i w).mr j = u.mr j := by simp [mr, setMr, other]

/-- `make_ipc_error` of a server whose error label is `label`. -/
def makeIpcError (u : Utcb) (label : Word) (err : L4.Errno) : Utcb :=
  (u.setMr 0 (L4.MsgTag.mk 1 0 0#32 label)).setMr 1 err.toWord

end Utcb
end BradypOS
