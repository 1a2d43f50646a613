import Mathlib.Tactic

/-!
# Rings and the queues they hold

A ring keeps its entries in `n` places, from its tail on. Seen from outside it is a queue; `offer` is the
arrival of an entry at a queue that drops its oldest one rather than have more than `cap` of them.
-/

namespace Theory

variable {α : Type*}

/-- A new entry at the end; the oldest one goes where there are more than `cap`. -/
def offer (cap : Nat) (q : List α) (c : α) : List α := (q ++ [c]).drop (q.length + 1 - cap)

section
variable {cap : Nat} {q : List α} (c : α)

theorem offer_room (room : q.length < cap) : offer cap q c = q ++ [c] := by
  have none_ : q.length + 1 - cap = 0 := by omega
  rw [offer, none_, List.drop_zero]

theorem offer_full {oldest : α} (full : q.length + 1 = cap) : offer cap (oldest :: q) c = q ++ [c] := by
  have one : (oldest :: q).length + 1 - cap = 1 := by
    rw [List.length_cons]
    omega
  rw [offer, one]
  rfl

end

/-- With room for all of them, the entries go behind what is there. -/
theorem offers_room {cap : Nat} {q cs : List α} (room : q.length + cs.length ≤ cap) : cs.foldl (offer cap) q = q ++ cs := by
  induction cs generalizing q with
  | nil => exact (List.append_nil q).symm
  | cons c cs ih =>
    rw [List.length_cons] at room
    have first : offer cap q c = q ++ [c] := offer_room c (by omega)
    rw [List.foldl_cons, first, ih]
    · exact List.append_assoc q [c] cs
    · rw [List.length_append, List.length_singleton]
      omega

namespace Ring

variable {n : Nat} [NeZero n] {buf : Fin n → α} {tail : Fin n} {len : Nat}

/-- The place `i` places behind another. -/
def place (tail : Fin n) (i : Nat) : Fin n := tail + Fin.ofNat n i

/-- The `len` entries from the tail on. -/
def contents (buf : Fin n → α) (tail : Fin n) (len : Nat) : List α := (List.range len).map fun i => buf (place tail i)

theorem length_contents : (contents buf tail len).length = len := by rw [contents, List.length_map, List.length_range]

theorem val_place (tail : Fin n) (i : Nat) : (place tail i).val = (tail.val + i) % n := by
  rw [place, Fin.val_add, Fin.val_ofNat, Nat.add_mod_mod]

theorem place_zero (tail : Fin n) : place tail 0 = tail := by
  apply Fin.ext
  rw [val_place, Nat.add_zero, Nat.mod_eq_of_lt tail.isLt]

theorem place_next (tail : Fin n) (i : Nat) : place (place tail 1) i = place tail (i + 1) := by
  apply Fin.ext
  rw [val_place, val_place, val_place, Nat.mod_add_mod, Nat.add_assoc, Nat.add_comm 1 i]

theorem next_place (tail : Fin n) (i : Nat) : place (place tail i) 1 = place tail (i + 1) := by
  apply Fin.ext
  rw [val_place, val_place, val_place, Nat.mod_add_mod, Nat.add_assoc]

/-- Less than one turn apart, two places differ. -/
theorem place_ne {i j : Nat} (before : i < j) (turn : j < n) : place tail i ≠ place tail j := by
  intro same
  have values := congrArg Fin.val same
  rw [val_place, val_place] at values
  have congruent : i ≡ j [MOD n] := Nat.ModEq.add_left_cancel' tail.val values
  have equal := congruent.eq_of_lt_of_lt (before.trans turn) turn
  omega

theorem contents_snoc : contents buf tail (len + 1) = contents buf tail len ++ [buf (place tail len)] := by
  rw [contents, List.range_succ, List.map_append]
  rfl

theorem contents_cons : contents buf tail (len + 1) = buf tail :: contents buf (place tail 1) len := by
  rw [contents, List.range_succ_eq_map, List.map_cons, List.map_map, place_zero, contents]
  congr 1
  apply List.map_congr_left
  intro i _
  rw [place_next]
  rfl

/-- A store behind the last entry adds one. -/
theorem contents_store (c : α) (room : len < n) :
    contents (Function.update buf (place tail len) c) tail (len + 1) = contents buf tail len ++ [c] := by
  rw [contents_snoc, Function.update_self]
  congr 1
  apply List.map_congr_left
  intro i early
  exact Function.update_of_ne (place_ne (List.mem_range.mp early) room) _ _

end Ring
end Theory
