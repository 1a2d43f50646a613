import Mathlib.Tactic

/-!
# Copying from the first cell on

A copy that goes upwards reads cells that it has written where the destination begins inside the source:
the cells in front of the destination come out again and again. Addresses are words and wrap.
-/

namespace Theory

variable {w : Nat} {α : Type*}

def copyUp (m : BitVec w → α) (dest src : BitVec w) : Nat → BitVec w → α
  | 0 => m
  | n + 1 => copyUp (Function.update m dest (m src)) (dest + 1#w) (src + 1#w) n

/-- `n` cells were copied, and the others left alone. -/
structure Copied (m m' : BitVec w → α) (dest src : BitVec w) (n : Nat) : Prop where
  inside : ∀ i < n, m' (dest + BitVec.ofNat w i) = m (src + BitVec.ofNat w i)
  outside : ∀ a, (∀ i < n, a ≠ dest + BitVec.ofNat w i) → m' a = m a

section
variable {m : BitVec w → α} {dest src : BitVec w} {i j n : Nat}

theorem add_ofNat_succ (a : BitVec w) (i : Nat) : a + 1#w + BitVec.ofNat w i = a + BitVec.ofNat w (i + 1) := by
  rw [BitVec.add_assoc, ← BitVec.ofNat_add, Nat.add_comm 1 i]

theorem add_ofNat_inj (a : BitVec w) (left : i < 2 ^ w) (right : j < 2 ^ w)
    (same : a + BitVec.ofNat w i = a + BitVec.ofNat w j) : i = j := by
  have offsets := congrArg BitVec.toNat ((BitVec.add_right_inj a).mp same)
  rwa [BitVec.toNat_ofNat, BitVec.toNat_ofNat, Nat.mod_eq_of_lt left, Nat.mod_eq_of_lt right] at offsets

theorem add_ofNat_meet (le : i ≤ n) : src + BitVec.ofNat w n = dest + BitVec.ofNat w i ↔ dest - src = BitVec.ofNat w (n - i) := by
  have split : BitVec.ofNat w n = BitVec.ofNat w (n - i) + BitVec.ofNat w i := by rw [← BitVec.ofNat_add, Nat.sub_add_cancel le]
  rw [split, ← BitVec.add_assoc, BitVec.add_left_inj]
  constructor
  · rintro rfl
    rw [BitVec.add_comm, BitVec.add_sub_cancel]
  · intro apart
    rw [← apart, BitVec.add_comm, BitVec.sub_add_cancel]

/-- The last cell is copied after the others. -/
theorem copyUp_succ (n : Nat) : copyUp m dest src (n + 1) =
    Function.update (copyUp m dest src n) (dest + BitVec.ofNat w n) (copyUp m dest src n (src + BitVec.ofNat w n)) := by
  induction n generalizing m dest src with
  | zero => simp [copyUp]
  | succ n ih =>
    rw [copyUp, ih, add_ofNat_succ, add_ofNat_succ]
    rfl

theorem copyUp_outside {a : BitVec w} (outside : ∀ i < n, a ≠ dest + BitVec.ofNat w i) : copyUp m dest src n a = m a := by
  induction n with
  | zero => rfl
  | succ n ih =>
    rw [copyUp_succ, Function.update_of_ne (outside n (Nat.lt_succ_self n))]
    exact ih fun i early => outside i (Nat.lt_succ_of_lt early)

/-- A cell is read as it was, or as the one that came out in its place: at the distance of the two beginnings. -/
theorem copyUp_inside (room : n ≤ 2 ^ w) :
    ∀ i < n, copyUp m dest src n (dest + BitVec.ofNat w i) = m (src + BitVec.ofNat w (i % (dest - src).toNat)) := by
  induction n with
  | zero => simp
  | succ n ih =>
    have before := ih (Nat.le_of_succ_le room)
    have last : copyUp m dest src n (src + BitVec.ofNat w n) = m (src + BitVec.ofNat w (n % (dest - src).toNat)) := by
      by_cases written : 0 < (dest - src).toNat ∧ (dest - src).toNat ≤ n
      · have there : src + BitVec.ofNat w n = dest + BitVec.ofNat w (n - (dest - src).toNat) := by
          rw [add_ofNat_meet (Nat.sub_le _ _), Nat.sub_sub_self written.2, BitVec.ofNat_toNat, BitVec.setWidth_eq]
        rw [there, before _ (by omega), ← Nat.mod_eq_sub_mod written.2]
      · have unwritten : ∀ i < n, src + BitVec.ofNat w n ≠ dest + BitVec.ofNat w i := by
          intro i early meet
          have apart := congrArg BitVec.toNat ((add_ofNat_meet (Nat.le_of_lt early)).mp meet)
          rw [BitVec.toNat_ofNat, Nat.mod_eq_of_lt (by omega)] at apart
          omega
        have itself : n % (dest - src).toNat = n := by
          rcases Nat.eq_zero_or_pos (dest - src).toNat with same | apart
          · rw [same, Nat.mod_zero]
          · exact Nat.mod_eq_of_lt (by omega)
        rw [copyUp_outside unwritten, itself]
    intro i early
    rw [copyUp_succ]
    rcases Nat.lt_succ_iff_lt_or_eq.mp early with early | rfl
    · have other : dest + BitVec.ofNat w i ≠ dest + BitVec.ofNat w n := by
        intro same
        have equal := add_ofNat_inj dest (by omega) (by omega) same
        omega
      rw [Function.update_of_ne other]
      exact before i early
    · rw [Function.update_self]
      exact last

/-- The copy is right if what comes out again is what should have come. -/
theorem copyUp_copied_iff (room : n ≤ 2 ^ w) : Copied m (copyUp m dest src n) dest src n ↔
    ∀ i < n, m (src + BitVec.ofNat w (i % (dest - src).toNat)) = m (src + BitVec.ofNat w i) := by
  constructor
  · intro copied i inside
    exact (copyUp_inside room i inside).symm.trans (copied.inside i inside)
  · intro repeats
    refine ⟨fun i inside => ?_, fun a outside => copyUp_outside outside⟩
    rw [copyUp_inside room i inside]
    exact repeats i inside

theorem copyUp_copied (room : n ≤ 2 ^ w) (ahead : dest = src ∨ n ≤ (dest - src).toNat) : Copied m (copyUp m dest src n) dest src n := by
  rw [copyUp_copied_iff room]
  intro i inside
  rcases ahead with rfl | far
  · rw [BitVec.sub_self, BitVec.toNat_zero, Nat.mod_zero]
  · rw [Nat.mod_eq_of_lt (Nat.lt_of_lt_of_le inside far)]

/-- Ranges that have no cell in common begin as far apart. -/
theorem le_of_disjoint (disjoint : ∀ i < n, ∀ j < n, dest + BitVec.ofNat w i ≠ src + BitVec.ofNat w j) :
    n ≤ (dest - src).toNat := by
  by_contra near
  have near := Nat.lt_of_not_le near
  apply disjoint 0 (Nat.zero_lt_of_lt near) _ near
  symm
  rw [add_ofNat_meet (Nat.zero_le _), Nat.sub_zero, BitVec.ofNat_toNat, BitVec.setWidth_eq]

end
end Theory
