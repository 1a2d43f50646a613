import Mathlib.Data.Nat.Digits.Lemmas

/-!
# Digits from the most significant one on

`digitsMsb` writes a number as people do, and zero as one digit. `columns` divides by the powers of the base one after
another, the highest one first.
-/

namespace Theory

variable {b n k : Nat}

def digitsMsb (b n : Nat) : List Nat := if n = 0 then [0] else (Nat.digits b n).reverse

/-- The value of digits, the most significant one first. -/
def valueMsb (b : Nat) (digits : List Nat) : Nat := digits.foldl (fun v d => v * b + d) 0

theorem valueMsb_digitsMsb (b n : Nat) : valueMsb b (digitsMsb b n) = n := by
  unfold digitsMsb
  split
  · rename_i zero
    rw [zero]
    simp [valueMsb]
  · unfold valueMsb
    rw [List.foldl_reverse]
    conv_rhs => rw [← Nat.ofDigits_digits b n, Nat.ofDigits_eq_foldr]
    simp only [Nat.cast_id]
    congr 1
    funext d v
    ring

theorem digitsMsb_lt {d : Nat} (base : 2 ≤ b) (member : d ∈ digitsMsb b n) : d < b := by
  unfold digitsMsb at member
  split at member
  · rw [List.mem_singleton.mp member]
    omega
  · exact Nat.digits_lt_base (by omega) (List.mem_reverse.mp member)

theorem digitsMsb_ne_nil (b n : Nat) : digitsMsb b n ≠ [] := by
  unfold digitsMsb
  split
  · exact List.cons_ne_nil _ _
  · rename_i positive
    rw [ne_eq, List.reverse_eq_nil_iff]
    exact Nat.digits_ne_nil_iff_ne_zero.mpr positive

theorem digitsMsb_head {d : Nat} {ds : List Nat} (positive : n ≠ 0) (same : digitsMsb b n = d :: ds) : d ≠ 0 := by
  unfold digitsMsb at same
  rw [if_neg positive] at same
  have last := Nat.getLast_digit_ne_zero b positive
  have nonempty : Nat.digits b n ≠ [] := Nat.digits_ne_nil_iff_ne_zero.mpr positive
  have head : (Nat.digits b n).getLast nonempty = d := by
    have reversed : (Nat.digits b n).reverse.head? = some d := by rw [same]; rfl
    rw [List.head?_reverse, List.getLast?_eq_some_getLast nonempty] at reversed
    exact Option.some.inj reversed
  rwa [head] at last

/-- The digits that division by `b ^ k`, `b ^ (k - 1)` and so on leads to. -/
def columns (b : Nat) : Nat → Nat → List Nat
  | 0, n => [n]
  | k + 1, n => n / b ^ (k + 1) :: columns b k (n % b ^ (k + 1))

theorem columns_snoc (b k n : Nat) : columns b (k + 1) n = columns b k (n / b) ++ [n % b] := by
  induction k generalizing n with
  | zero => simp [columns]
  | succ k ih =>
    rw [columns, ih, columns]
    have power : b ^ (k + 2) = b * b ^ (k + 1) := by ring
    have quotient : n / b ^ (k + 2) = n / b / b ^ (k + 1) := by rw [power, Nat.div_div_eq_div_mul]
    have middle : n % b ^ (k + 2) / b = n / b % b ^ (k + 1) := by rw [power, Nat.mod_mul_right_div_self]
    have last : n % b ^ (k + 2) % b = n % b := Nat.mod_mod_of_dvd n (dvd_pow_self b (by omega))
    rw [quotient, middle, last, List.cons_append]

/-- From a power that is not above the number, the columns are its digits. -/
theorem columns_eq (base : 2 ≤ b) (low : k = 0 ∨ b ^ k ≤ n) (high : n < b ^ (k + 1)) : columns b k n = digitsMsb b n := by
  induction k generalizing n with
  | zero =>
    rw [Nat.zero_add, pow_one] at high
    unfold columns digitsMsb
    split
    · rename_i zero
      rw [zero]
    · rename_i positive
      rw [Nat.digits_of_lt b n positive high]
      rfl
  | succ k ih =>
    have low : b ^ (k + 1) ≤ n := low.resolve_left (Nat.succ_ne_zero k)
    have positive : n ≠ 0 := by
      have : 0 < b ^ (k + 1) := Nat.pow_pos (by omega)
      omega
    have below : n / b < b ^ (k + 1) := by
      rw [Nat.div_lt_iff_lt_mul (by omega), ← pow_succ]
      exact high
    have above : b ^ k ≤ n / b := by
      rw [Nat.le_div_iff_mul_le (by omega), ← pow_succ]
      exact low
    have quotient : n / b ≠ 0 := by
      have : 0 < b ^ k := Nat.pow_pos (by omega)
      omega
    rw [columns_snoc, ih (.inr above) below]
    unfold digitsMsb
    rw [if_neg quotient, if_neg positive, Nat.digits_def' (by omega) (Nat.pos_of_ne_zero positive), List.reverse_cons]

theorem digitsMsb_length (base : 2 ≤ b) (positive : 0 < k) (high : n < b ^ k) : (digitsMsb b n).length ≤ k := by
  unfold digitsMsb
  split
  · exact positive
  · rw [List.length_reverse]
    exact (Nat.digits_length_le_iff (by omega) n).mpr high

end Theory
