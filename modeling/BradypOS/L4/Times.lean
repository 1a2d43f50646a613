import BradypOS.L4.Types

/-!
# Comparing times (`lib/l4/schedule.c`)

A relative time stands for `m * 2 ^ e` microseconds. Two times are compared after the mantissa of the
one with the smaller exponent was shifted right. The shift copies bit 9 of the mantissa into the
places that it frees, and after 22 places it drops bits.
-/

namespace BradypOS.L4.Time

def isLonger (lhs rhs : Time) : Bool :=
  let exp := max lhs.e rhs.e
  (adjFixValue rhs exp).ult (adjFixValue lhs exp)

def isShorter (lhs rhs : Time) : Bool :=
  let exp := max lhs.e rhs.e
  (adjFixValue lhs exp).ult (adjFixValue rhs exp)

def isNotEqual (lhs rhs : Time) : Bool :=
  let exp := max lhs.e rhs.e
  adjFixValue lhs exp != adjFixValue rhs exp

/-- The microseconds of a relative time. -/
def value (time : Time) : Nat := time.m.toNat * 2 ^ time.e

/-- What the four comparisons are for. -/
structure Agrees (lhs rhs : Time) : Prop where
  longer : isLonger lhs rhs = true ↔ rhs.value < lhs.value
  shorter : isShorter lhs rhs = true ↔ lhs.value < rhs.value
  equal : isEqual lhs rhs = true ↔ lhs.value = rhs.value
  notEqual : isNotEqual lhs rhs = true ↔ lhs.value ≠ rhs.value

/-- `low` has the smaller exponent. A small mantissa must not be shifted to 0 against 0. A mantissa from 512 on
is filled up with ones: it still compares right with a much smaller and with a much larger time. -/
def Aligned (low high : Time) : Prop :=
  let d := high.e - low.e
  if low.m.toNat < 512 then ¬ (high.m.toNat = 0 ∧ 0 < low.m.toNat ∧ low.m.toNat < 2 ^ (d - 22))
  else d = 0 ∨ high.m.toNat * 2 ^ d < low.m.toNat ∨ (1024 - high.m.toNat) * 2 ^ d < 1024 - low.m.toNat

instance (low high : Time) : Decidable (Aligned low high) := inferInstanceAs (Decidable (ite _ _ _))

def Comparable (lhs rhs : Time) : Prop := if lhs.e ≤ rhs.e then Aligned lhs rhs else Aligned rhs lhs

instance (lhs rhs : Time) : Decidable (Comparable lhs rhs) := inferInstanceAs (Decidable (ite _ _ _))

/-! ### The fields and the shifted mantissa -/

theorem m_lt (time : Time) : time.m.toNat < 1024 := by
  have below : (time &&& 0x3FF#16).toNat ≤ 0x3FF := by
    rw [BitVec.toNat_and]
    exact Nat.and_le_right
  unfold m
  rw [BitVec.zeroExtend, BitVec.toNat_setWidth]
  omega

theorem toNat_mantissa (time : Time) : (time.m <<< 22).toNat = time.m.toNat * 2 ^ 22 := by
  have small := m_lt time
  rw [BitVec.toNat_shiftLeft, Nat.shiftLeft_eq]
  omega

theorem adjFixValue_self (time : Time) : (adjFixValue time time.e).toNat = time.m.toNat * 2 ^ 22 := by
  unfold adjFixValue
  rw [Nat.sub_self, BitVec.sshiftRight_zero, toNat_mantissa]

theorem adjFixValue_small {time : Time} (small : time.m.toNat < 512) (exp : Nat) :
    (adjFixValue time exp).toNat = time.m.toNat * 2 ^ 22 / 2 ^ (exp - time.e) := by
  have positive : (time.m <<< 22).msb = false := by
    rw [BitVec.msb_eq_decide, toNat_mantissa]
    exact decide_eq_false (by omega)
  unfold adjFixValue
  rw [BitVec.sshiftRight_eq_of_msb_false positive, BitVec.toNat_ushiftRight, toNat_mantissa, Nat.shiftRight_eq_div_pow]

theorem adjFixValue_large {time : Time} (large : 512 ≤ time.m.toNat) (exp : Nat) :
    (adjFixValue time exp).toNat = 2 ^ 32 - 1 - ((1024 - time.m.toNat) * 2 ^ 22 - 1) / 2 ^ (exp - time.e) := by
  have bound := m_lt time
  have negative : (time.m <<< 22).msb = true := by
    rw [BitVec.msb_eq_decide, toNat_mantissa]
    exact decide_eq_true (by omega)
  have rest : (~~~(time.m <<< 22)).toNat = (1024 - time.m.toNat) * 2 ^ 22 - 1 := by
    rw [BitVec.toNat_not, toNat_mantissa]
    omega
  unfold adjFixValue
  rw [BitVec.sshiftRight_eq_of_msb_true negative, BitVec.toNat_not, BitVec.toNat_ushiftRight, rest, Nat.shiftRight_eq_div_pow]

/-! ### When the shifted mantissas are in the order of the times -/

def SameOrder (a b x y : Nat) : Prop := (b < a ↔ y < x) ∧ (a < b ↔ x < y) ∧ (a = b ↔ x = y)

theorem sameOrder_less {a b x y : Nat} (less : x < y) : SameOrder a b x y ↔ a < b := by
  unfold SameOrder
  omega

theorem sameOrder_equal {a b x y : Nat} (equal : x = y) : SameOrder a b x y ↔ a = b := by
  unfold SameOrder
  omega

theorem sameOrder_greater {a b x y : Nat} (greater : y < x) : SameOrder a b x y ↔ b < a := by
  unfold SameOrder
  omega

theorem sameOrder_swap {a b x y : Nat} : SameOrder a b x y ↔ SameOrder b a y x := by
  unfold SameOrder
  omega

theorem sameOrder_scale {a b x y c : Nat} (positive : 0 < c) : SameOrder a b (x * c) (y * c) ↔ SameOrder a b x y := by
  unfold SameOrder
  rw [Nat.mul_lt_mul_right positive, Nat.mul_lt_mul_right positive, Nat.mul_left_inj (Nat.pos_iff_ne_zero.mp positive)]

theorem sameOrder_mul {x y c : Nat} (positive : 0 < c) : SameOrder (x * c) (y * c) x y :=
  ⟨Nat.mul_lt_mul_right positive, Nat.mul_lt_mul_right positive, Nat.mul_left_inj (Nat.pos_iff_ne_zero.mp positive)⟩

/-- A mantissa below 512 compares right until so many of its bits are dropped that it becomes 0. -/
theorem sameOrder_small {low high d : Nat} (small : low < 512) :
    SameOrder (low * 2 ^ 22 / 2 ^ d) (high * 2 ^ 22) low (high * 2 ^ d) ↔ ¬ (high = 0 ∧ 0 < low ∧ low < 2 ^ (d - 22)) := by
  by_cases few : d ≤ 22
  · have split : (2 : Nat) ^ 22 = 2 ^ d * 2 ^ (22 - d) := by rw [← Nat.pow_add, Nat.add_sub_cancel' few]
    have exact : low * 2 ^ 22 / 2 ^ d = low * 2 ^ (22 - d) := by
      rw [split, Nat.mul_left_comm, Nat.mul_div_cancel_left _ (by positivity)]
    have scaled : high * 2 ^ 22 = high * 2 ^ d * 2 ^ (22 - d) := by rw [split, Nat.mul_assoc]
    refine iff_of_true ?_ ?_
    · rw [exact, scaled]
      exact sameOrder_mul (by positivity)
    · rw [Nat.sub_eq_zero_of_le few]
      omega
  · obtain ⟨k, rfl⟩ : ∃ k, d = 22 + k := ⟨d - 22, by omega⟩
    have dropped : low * 2 ^ 22 / 2 ^ (22 + k) = low / 2 ^ k := by
      rw [Nat.pow_add, Nat.mul_comm low, Nat.mul_div_mul_left _ _ (by positivity)]
    rw [dropped, Nat.add_sub_cancel_left]
    rcases Nat.eq_zero_or_pos high with rfl | positive
    · have positive : 0 < 2 ^ k := by positivity
      have gone : low / 2 ^ k = 0 ↔ low < 2 ^ k := Nat.div_eq_zero_iff_lt positive
      generalize low / 2 ^ k = q at gone ⊢
      simp only [SameOrder, Nat.zero_mul, Nat.not_lt_zero, true_and]
      omega
    · have below : low / 2 ^ k < high * 2 ^ 22 := by
        have := Nat.div_le_self low (2 ^ k)
        omega
      have less : low < high * 2 ^ (22 + k) := by
        have scale : high * 2 ^ 22 * 1 ≤ high * 2 ^ 22 * 2 ^ k := Nat.mul_le_mul_left _ (Nat.one_le_two_pow)
        rw [Nat.pow_add, ← Nat.mul_assoc]
        omega
      rw [sameOrder_less less]
      omega

/-- Filled up with ones, a mantissa from 512 on becomes larger than any that is at most half of 1024. -/
theorem sameOrder_large {low high d : Nat} (large : 512 ≤ low) (bound : low < 1024) (bound' : high < 1024) :
    SameOrder (2 ^ 32 - 1 - ((1024 - low) * 2 ^ 22 - 1) / 2 ^ d) (high * 2 ^ 22) low (high * 2 ^ d) ↔
      d = 0 ∨ high * 2 ^ d < low ∨ (1024 - high) * 2 ^ d < 1024 - low := by
  rcases Nat.eq_zero_or_pos d with rfl | positive
  · refine iff_of_true ?_ (.inl rfl)
    have whole : 2 ^ 32 - 1 - ((1024 - low) * 2 ^ 22 - 1) / 2 ^ 0 = low * 2 ^ 22 := by omega
    rw [whole, Nat.pow_zero, Nat.mul_one]
    exact sameOrder_mul (by positivity)
  have two : 2 * 1 ≤ 2 ^ d := by
    have := Nat.pow_le_pow_right (n := 2) (by omega) positive
    omega
  have half : ((1024 - low) * 2 ^ 22 - 1) / 2 ^ d ≤ ((1024 - low) * 2 ^ 22 - 1) / 2 := Nat.div_le_div_left (by omega) (by omega)
  by_cases longer : low < high * 2 ^ d
  · -- The larger time is right above only where it also exceeds the ones.
    have reach : (1024 - high) * 2 ^ d < 1024 - low ↔ (1024 - high) * 2 ^ 22 ≤ ((1024 - low) * 2 ^ 22 - 1) / 2 ^ d := by
      rw [Nat.le_div_iff_mul_le (by positivity), Nat.mul_right_comm]
      omega
    rw [sameOrder_less longer]
    omega
  · -- The larger time's mantissa is below 512, and all mantissas filled up with ones are above.
    have double : high * 2 ≤ high * 2 ^ d := Nat.mul_le_mul_left _ (by omega)
    have above : high * 2 ^ 22 < 2 ^ 32 - 1 - ((1024 - low) * 2 ^ 22 - 1) / 2 ^ d := by omega
    have wide : ¬ (1024 - high) * 2 ^ d < 1024 - low := by
      have := Nat.mul_le_mul_left (1024 - high) two
      omega
    rcases Nat.lt_or_eq_of_le (Nat.not_lt.mp longer) with shorter | equal
    · rw [sameOrder_greater shorter]
      omega
    · rw [sameOrder_equal equal.symm]
      omega

/-! ### The comparisons -/

theorem value_scaled {low high : Time} (order : low.e ≤ high.e) :
    high.value = high.m.toNat * 2 ^ (high.e - low.e) * 2 ^ low.e := by
  rw [value, Nat.mul_assoc, ← Nat.pow_add, Nat.sub_add_cancel order]

theorem sameOrder_iff_aligned {low high : Time} (order : low.e ≤ high.e) :
    SameOrder (adjFixValue low high.e).toNat (adjFixValue high high.e).toNat low.value high.value ↔ Aligned low high := by
  rw [value_scaled order, value, sameOrder_scale (by positivity), adjFixValue_self]
  unfold Aligned
  dsimp only
  split
  · rename_i small
    rw [adjFixValue_small small]
    exact sameOrder_small small
  · rename_i large
    rw [adjFixValue_large (Nat.not_lt.mp large)]
    exact sameOrder_large (Nat.not_lt.mp large) (m_lt low) (m_lt high)

theorem agrees_iff_sameOrder {lhs rhs : Time} : Agrees lhs rhs ↔
    SameOrder (adjFixValue lhs (max lhs.e rhs.e)).toNat (adjFixValue rhs (max lhs.e rhs.e)).toNat lhs.value rhs.value := by
  have longer : isLonger lhs rhs = true ↔
      (adjFixValue rhs (max lhs.e rhs.e)).toNat < (adjFixValue lhs (max lhs.e rhs.e)).toNat := by
    simp [isLonger, BitVec.ult]
  have shorter : isShorter lhs rhs = true ↔
      (adjFixValue lhs (max lhs.e rhs.e)).toNat < (adjFixValue rhs (max lhs.e rhs.e)).toNat := by
    simp [isShorter, BitVec.ult]
  have equal : isEqual lhs rhs = true ↔
      (adjFixValue lhs (max lhs.e rhs.e)).toNat = (adjFixValue rhs (max lhs.e rhs.e)).toNat := by
    simp [isEqual, BitVec.toNat_inj]
  have notEqual : isNotEqual lhs rhs = true ↔ ¬ isEqual lhs rhs = true := by simp [isNotEqual, isEqual]
  constructor
  · intro agrees
    exact ⟨longer.symm.trans agrees.longer, shorter.symm.trans agrees.shorter, equal.symm.trans agrees.equal⟩
  · intro ⟨greater, less, same⟩
    exact ⟨longer.trans greater, shorter.trans less, equal.trans same, notEqual.trans (not_congr (equal.trans same))⟩

theorem agrees_iff (lhs rhs : Time) : Agrees lhs rhs ↔ Comparable lhs rhs := by
  rw [agrees_iff_sameOrder, Comparable]
  split
  · rename_i order
    rw [max_eq_right order]
    exact sameOrder_iff_aligned order
  · rename_i order
    have order : rhs.e ≤ lhs.e := by omega
    rw [max_eq_left order, sameOrder_swap]
    exact sameOrder_iff_aligned order

theorem isShorter_swap (lhs rhs : Time) : isShorter lhs rhs = isLonger rhs lhs := by
  rw [isShorter, isLonger, max_comm]

def OneOf (a b c : Bool) : Prop := (a = true ∧ b = false ∧ c = false) ∨ (a = false ∧ b = true ∧ c = false) ∨
  (a = false ∧ b = false ∧ c = true)

theorem oneOf_compare (lhs rhs : Time) : OneOf (isLonger lhs rhs) (isShorter lhs rhs) (isEqual lhs rhs) := by
  simp only [OneOf, isLonger, isShorter, isEqual, BitVec.ult, decide_eq_true_eq, decide_eq_false_iff_not, beq_iff_eq,
    beq_eq_false_iff_ne, ne_eq, ← BitVec.toNat_inj]
  omega

/-- The comparisons of two times compare their values if and only if the two are comparable. One of longer, shorter
and equal always holds, and where all pairs are comparable longer is transitive. -/
theorem compare_iff (lhs rhs : Time) : (Agrees lhs rhs ↔ Comparable lhs rhs) ∧
    OneOf (isLonger lhs rhs) (isShorter lhs rhs) (isEqual lhs rhs) ∧ isShorter lhs rhs = isLonger rhs lhs ∧
    ∀ other : Time, Comparable lhs rhs → Comparable rhs other → Comparable lhs other → isLonger lhs rhs = true →
      isLonger rhs other = true → isLonger lhs other = true := by
  refine ⟨agrees_iff lhs rhs, oneOf_compare lhs rhs, isShorter_swap lhs rhs, fun other first second ends longer longer' => ?_⟩
  have above := ((agrees_iff lhs rhs).mpr first).longer.mp longer
  have below := ((agrees_iff rhs other).mpr second).longer.mp longer'
  exact ((agrees_iff lhs other).mpr ends).longer.mpr (below.trans above)

/-- 512 microseconds and 256 times 2 microseconds. -/
theorem compare_half : isLonger 0x200#16 0x500#16 = true ∧ value 0x200#16 = value 0x500#16 ∧ ¬ Agrees 0x200#16 0x500#16 := by
  have longer : isLonger 0x200#16 0x500#16 = true ∧ value 0x200#16 = value 0x500#16 := by decide
  refine ⟨longer.1, longer.2, fun agrees => ?_⟩
  have less := agrees.longer.mp longer.1
  omega

/-! ### The two special timeouts and the ticks of the others -/

theorem isEqual_never {timeout : Time} : timeout.isEqual never = true ↔ timeout.m = 0#32 := by
  have nothing : adjFixValue never timeout.e = 0#32 := by
    show (0#32).sshiftRight _ = 0#32
    exact BitVec.zero_sshiftRight
  have exp : max timeout.e never.e = timeout.e := Nat.max_eq_left (Nat.zero_le _)
  have whole := adjFixValue_self timeout
  simp only [isEqual, exp, nothing, beq_iff_eq, ← BitVec.toNat_inj, whole, BitVec.toNat_zero]
  omega

/-- A timeout that is not taken for `never` is not taken for `zero` either. -/
theorem isEqual_zero {timeout : Time} (some : timeout.m ≠ 0#32) : timeout.isEqual zero = false := by
  have nothing : adjFixValue zero (max timeout.e zero.e) = 0#32 := by
    show (0#32).sshiftRight _ = 0#32
    exact BitVec.zero_sshiftRight
  have positive : timeout.m.toNat ≠ 0 := fun none => some (BitVec.eq_of_toNat_eq none)
  have bound := m_lt timeout
  have one : max timeout.e zero.e - timeout.e ≤ 1 := by
    have : zero.e = 1 := by decide
    omega
  have kept : (adjFixValue timeout (max timeout.e zero.e)).toNat ≠ 0 := by
    by_cases small : timeout.m.toNat < 512
    · rw [adjFixValue_small small]
      rcases Nat.le_one_iff_eq_zero_or_eq_one.mp one with h | h <;> rw [h] <;> omega
    · rw [adjFixValue_large (Nat.not_lt.mp small)]
      have := Nat.div_le_self ((1024 - timeout.m.toNat) * 2 ^ 22 - 1) (2 ^ (max timeout.e zero.e - timeout.e))
      omega
  simp only [isEqual, nothing, beq_eq_false_iff_ne, ne_eq, ← BitVec.toNat_inj]
  exact kept

theorem toNat_shifted (timeout : Time) : (timeout.m <<< timeout.e).toNat = timeout.value % 2 ^ 32 := by
  rw [BitVec.toNat_shiftLeft, Nat.shiftLeft_eq, value]

theorem toNat_sdiv_ten (x : Word) :
    (x.sdiv 10#32).toNat = if x.toNat < 2 ^ 31 then x.toNat / 10 else (2 ^ 32 - (2 ^ 32 - x.toNat) / 10) % 2 ^ 32 := by
  have ten : (10#32).msb = false := by decide
  have bound := x.isLt
  by_cases small : x.toNat < 2 ^ 31
  · have sign : x.msb = false := by
      rw [BitVec.msb_eq_decide]
      exact decide_eq_false (by omega)
    rw [if_pos small, BitVec.sdiv_eq, ten, sign]
    exact BitVec.toNat_udiv
  · have sign : x.msb = true := by
      rw [BitVec.msb_eq_decide]
      exact decide_eq_true (by omega)
    have opposite : (-x).toNat = 2 ^ 32 - x.toNat := by
      rw [BitVec.toNat_neg]
      omega
    rw [if_neg small, BitVec.sdiv_eq, ten, sign]
    show (-((-x).udiv 10#32)).toNat = _
    rw [BitVec.toNat_neg, BitVec.udiv_eq, BitVec.toNat_udiv, opposite]
    rfl

theorem quotient_iff {v r : Nat} (rest : r = v % 2 ^ 32) (short : v / 10 < 2 ^ 32) :
    (if r < 2 ^ 31 then r / 10 else (2 ^ 32 - (2 ^ 32 - r) / 10) % 2 ^ 32) = v / 10 ↔
      v < 2 ^ 31 ∨ 19 * 2 ^ 31 ≤ v ∧ v < 10 * 2 ^ 32 ∧ v % 10 = 0 := by
  obtain ⟨b, whole, few⟩ : ∃ b, v = 2 ^ 32 * b + r ∧ b < 10 := ⟨v / 2 ^ 32, by omega, by omega⟩
  split
  · rename_i small
    rcases Nat.eq_zero_or_pos b with rfl | positive
    · omega
    · omega
  · rename_i large
    by_cases last : b = 9
    · subst last
      omega
    · omega

/-- The end of a timeout fits into the clock, and its ticks come out right. Past `2 ^ 31` the shift leaves the machine word, and
only a few quotients come right again. -/
def Representable (now : Word) (timeout : Time) : Prop :=
  (timeout.value < 2 ^ 31 ∨ 19 * 2 ^ 31 ≤ timeout.value ∧ timeout.value < 10 * 2 ^ 32 ∧ timeout.value % 10 = 0) ∧
    now.toNat + timeout.value / 10 < 2 ^ 32

instance (now : Word) (timeout : Time) : Decidable (Representable now timeout) := inferInstanceAs (Decidable ((_ ∨ _) ∧ _))

theorem add_ticks_iff (now : Word) (timeout : Time) :
    (now + timeout.ticks).toNat = now.toNat + timeout.value / 10 ↔ Representable now timeout := by
  have room := now.isLt
  have split : (now + timeout.ticks).toNat = now.toNat + timeout.value / 10 ↔
      timeout.ticks.toNat = timeout.value / 10 ∧ now.toNat + timeout.value / 10 < 2 ^ 32 := by
    rw [BitVec.toNat_add]
    omega
  rw [split, Representable]
  refine and_congr_left fun short => ?_
  rw [ticks, toNat_sdiv_ten]
  exact quotient_iff (toNat_shifted timeout) (by omega)
end BradypOS.L4.Time
