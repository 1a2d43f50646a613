import BradypOS.Service.Message
import BradypOS.Theory.Digits

/-!
# Numbers as text (`lib/tinyprintf/tinyprintf.c`)

`ui2a`, `uli2a` and `ulli2a` differ in the type of the number alone, and look for the highest power of the base before
they divide. `a2u` reads the width of a field.
-/

namespace BradypOS.Printf

open L4

def ascii (c : Char) : Byte := BitVec.ofNat 8 c.toNat

/-! ### Writing -/

/-- The `while` loop that looks for the divisor. -/
def scale (w base num : Nat) : Nat → Nat → Option Nat
  | 0, _ => none
  | fuel + 1, d => if base ≤ num / d then scale w base num fuel (d * base % 2 ^ w) else some d

def digitChar (uc : Bool) (dgt : Nat) : Byte :=
  if dgt < 10 then ascii '0' + BitVec.ofNat 8 dgt else ascii (if uc then 'A' else 'a') + BitVec.ofNat 8 (dgt - 10)

/-- The `while` loop that writes the digits; `n` are written so far. -/
def emit (base : Nat) (uc : Bool) : Nat → Nat → Nat → Nat → Option (List Byte)
  | 0, _, _, _ => none
  | fuel + 1, num, d, n =>
    if d = 0 then some []
    else if n ≠ 0 ∨ 0 < num / d ∨ d / base = 0 then
      (emit base uc fuel (num % d) (d / base) (n + 1)).map (digitChar uc (num / d) :: ·)
    else emit base uc fuel (num % d) (d / base) n

/-- `ulli2a`, `uli2a` and `ui2a` for numbers of `w` bits: what is in `bf` before its terminator. -/
def unsignedToAscii (w base : Nat) (uc : Bool) (num : Nat) : Option (List Byte) := do
  let d ← scale w base num (w + 1) 1
  emit base uc (w + 2) num d 0

def ui2a (base : Nat) (uc : Bool) (num : Word) : Option (List Byte) := unsignedToAscii 32 base uc num.toNat
def uli2a (base : Nat) (uc : Bool) (num : Word) : Option (List Byte) := unsignedToAscii 32 base uc num.toNat
def ulli2a (base : Nat) (uc : Bool) (num : BitVec 64) : Option (List Byte) := unsignedToAscii 64 base uc num.toNat

/-- `i2a`, `li2a` and `lli2a`: the sign, and the number without it. -/
def signOf {w : Nat} (num : BitVec w) : Option Byte × BitVec w := if num.slt 0 then (some (ascii '-'), -num) else (none, num)

/-! ### Reading -/

def a2d (ch : Byte) : Option Nat :=
  if ascii '0' ≤ ch ∧ ch ≤ ascii '9' then some (ch.toNat - (ascii '0').toNat)
  else if ascii 'a' ≤ ch ∧ ch ≤ ascii 'f' then some (ch.toNat - (ascii 'a').toNat + 10)
  else if ascii 'A' ≤ ch ∧ ch ≤ ascii 'F' then some (ch.toNat - (ascii 'A').toNat + 10)
  else none

/-- The first character that is not read and what follows it, behind the number. The base itself passes for a digit. -/
def a2u (base : Nat) : List Byte → Word → Word × List Byte
  | [], num => (num, [])
  | ch :: src, num =>
    match a2d ch with
    | some digit => if base < digit then (num, ch :: src) else a2u base src (num * BitVec.ofNat 32 base + BitVec.ofNat 32 digit)
    | none => (num, ch :: src)

/-! ### What is written -/

variable {w base num d k n fuel : Nat} {uc : Bool}

/-- No step of the search overflows, and it stops at the power of the first digit. -/
theorem scale_spec (two : 2 ≤ base) (fits : num < 2 ^ w) (low : k = 0 ∨ base ^ k ≤ num) (enough : w + 1 ≤ fuel + k) (below : k ≤ w) :
    ∃ j, scale w base num fuel (base ^ k) = some (base ^ j) ∧ (j = 0 ∨ base ^ j ≤ num) ∧ num < base ^ (j + 1) ∧ j ≤ w := by
  induction fuel generalizing k with
  | zero => omega
  | succ fuel ih =>
    have positive : 0 < base ^ k := Nat.pow_pos (by omega)
    rw [scale]
    split
    · rename_i more
      rw [Nat.le_div_iff_mul_le positive, ← pow_succ'] at more
      have exact_ : base ^ k * base % 2 ^ w = base ^ (k + 1) := by
        rw [← pow_succ, Nat.mod_eq_of_lt (lt_of_le_of_lt more fits)]
      have inside : k + 1 ≤ w := by
        have power : 2 ^ (k + 1) < 2 ^ w := lt_of_le_of_lt (le_trans (Nat.pow_le_pow_left two _) more) fits
        exact ((Nat.pow_lt_pow_iff_right (by decide)).mp power).le
      rw [exact_]
      exact ih (.inr more) (by omega) inside
    · rename_i done
      have high : num < base ^ (k + 1) := by
        rw [pow_succ', ← Nat.div_lt_iff_lt_mul positive]
        omega
      exact ⟨k, rfl, low, high, below⟩

theorem emit_columns (two : 2 ≤ base) (written : n ≠ 0) (enough : k + 2 ≤ fuel) :
    emit base uc fuel num (base ^ k) n = some ((Theory.columns base k num).map (digitChar uc)) := by
  induction k generalizing fuel num n with
  | zero =>
    obtain ⟨fuel, rfl⟩ : ∃ f, fuel = f + 2 := ⟨fuel - 2, by omega⟩
    rw [pow_zero, emit, if_neg one_ne_zero, if_pos (.inl written), Nat.div_eq_of_lt (by omega : 1 < base), emit, if_pos rfl, Nat.div_one]
    rfl
  | succ k ih =>
    obtain ⟨fuel, rfl⟩ : ∃ f, fuel = f + 1 := ⟨fuel - 1, by omega⟩
    have positive : base ^ (k + 1) ≠ 0 := (Nat.pow_pos (by omega)).ne'
    have next : base ^ (k + 1) / base = base ^ k := by rw [pow_succ, Nat.mul_div_cancel _ (by omega)]
    rw [emit, if_neg positive, if_pos (.inl written), next, ih (Nat.succ_ne_zero n) (by omega)]
    rfl

theorem unsignedToAscii_digits (two : 2 ≤ base) (fits : num < 2 ^ w) :
    unsignedToAscii w base uc num = some ((Theory.digitsMsb base num).map (digitChar uc)) := by
  obtain ⟨j, found, low, high, below⟩ := scale_spec (k := 0) two fits (.inl rfl) (le_refl (w + 1)) (by omega)
  rw [pow_zero] at found
  have positive : base ^ j ≠ 0 := (Nat.pow_pos (by omega)).ne'
  have leading : 0 < num / base ^ j ∨ base ^ j / base = 0 := by
    rcases low with rfl | low
    · right
      rw [pow_zero]
      exact Nat.div_eq_of_lt (by omega)
    · exact .inl (Nat.div_pos low (Nat.pos_of_ne_zero positive))
  rw [unsignedToAscii, found, ← Theory.columns_eq two low high, Option.bind_eq_bind, Option.bind_some, emit, if_neg positive, if_pos (.inr leading)]
  cases j with
  | zero =>
    rw [pow_zero, Nat.div_eq_of_lt (by omega : 1 < base), emit, if_pos rfl, Nat.div_one]
    rfl
  | succ k =>
    have next : base ^ (k + 1) / base = base ^ k := by rw [pow_succ, Nat.mul_div_cancel _ (by omega)]
    rw [next, emit_columns two (Nat.succ_ne_zero 0) (by omega)]
    rfl

/-! ### Reading what is written -/

theorem a2d_digitChar {dgt : Nat} (small : dgt < 16) (uc : Bool) : a2d (digitChar uc dgt) = some dgt := by
  revert dgt uc
  decide

/-- What follows a number: the end, or a character that is no digit of the base, not even the base. -/
def Ends (base : Nat) : List Byte → Prop
  | [] => True
  | ch :: _ => ∀ digit, a2d ch = some digit → base < digit

theorem a2u_digits {rest : List Byte} (small : base ≤ 16) (ends : Ends base rest) {digits : List Nat} (below : ∀ dgt ∈ digits, dgt < base)
    (v : Nat) : a2u base (digits.map (digitChar uc) ++ rest) (BitVec.ofNat 32 v) =
      (BitVec.ofNat 32 (digits.foldl (fun v dgt => v * base + dgt) v), rest) := by
  induction digits generalizing v with
  | nil =>
    cases rest with
    | nil => rfl
    | cons ch rest =>
      rw [List.map_nil, List.nil_append, a2u]
      split
      · rename_i digit found
        rw [if_pos (ends digit found)]
        rfl
      · rfl
  | cons dgt digits ih =>
    obtain ⟨here, later⟩ := List.forall_mem_cons.mp below
    rw [List.map_cons, List.cons_append, a2u, a2d_digitChar (by omega) uc]
    dsimp only
    rw [if_neg (by omega), List.foldl_cons, ← ih later, BitVec.ofNat_add, BitVec.ofNat_mul]

end BradypOS.Printf
