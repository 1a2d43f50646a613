import BradypOS.Terminal.Protocol
import BradypOS.Theory.Ring
import BradypOS.Theory.Transducer

/-!
# The receive ring as a queue

One of the places of the ring stays empty, so that it holds 127 bytes. Pushing to a ring with as many
drops the oldest one.
-/

namespace BradypOS.Terminal

open Theory (offer transduce)
open Theory.Ring (place contents)

namespace RxRing

/-- `rxrb_free`. -/
def free (r : RxRing) : Nat := ipcBufferSize - r.len - 1

instance : NeZero ipcBufferSize := ⟨by decide⟩

/-- The ring at the start of the server. -/
def init : RxRing := ⟨fun _ => 0#8, 0, 0⟩

/-- The bytes in the ring, the oldest one first. -/
def bytes (r : RxRing) : List Byte := contents r.buf r.tail r.len

inductive Op where
  | push (c : Byte)
  | pop

/-- A ring and what it answers: a pop gives a byte, or `none` for -1. -/
def step (r : RxRing) : Op → List (Option Byte) × RxRing
  | .push c => ([], r.push c)
  | .pop =>
    match r.pop with
    | none => ([none], r)
    | some (c, r) => ([some c], r)

/-- The queue that the ring stands for. -/
def queueStep (q : List Byte) : Op → List (Option Byte) × List Byte
  | .push c => ([], offer (ipcBufferSize - 1) q c)
  | .pop =>
    match q with
    | [] => ([none], [])
    | c :: q => ([some c], q)

/-! ### The ring holds the queue -/

variable {r : RxRing}

theorem length_bytes (r : RxRing) : r.bytes.length = r.len := Theory.Ring.length_contents

/-- The next byte goes behind the last one. -/
theorem head_eq (r : RxRing) : r.head = place r.tail r.len := by
  apply Fin.ext
  rw [Theory.Ring.val_place]
  have head := r.head.isLt
  have tail := r.tail.isLt
  simp only [len, Fin.le_def, ipcBufferSize] at head tail ⊢
  split <;> omega

theorem next_head (r : RxRing) : r.head + 1 = place r.tail (r.len + 1) := by
  rw [← Theory.Ring.next_place, ← head_eq]
  rfl

theorem len_of_places {buf : Fin ipcBufferSize → Byte} {tail : Fin ipcBufferSize} {n : Nat} (small : n < ipcBufferSize) :
    len ⟨buf, place tail n, tail⟩ = n := by
  have value := Theory.Ring.val_place tail n
  have bound := tail.isLt
  simp only [len, Fin.le_def, ipcBufferSize] at value bound small ⊢
  split <;> omega

theorem push_room (c : Byte) (room : r.len + 1 < ipcBufferSize) : (r.push c).bytes = r.bytes ++ [c] := by
  have notFull : r.head + 1 ≠ r.tail := by
    rw [next_head]
    have apart : place r.tail 0 ≠ place r.tail (r.len + 1) := Theory.Ring.place_ne (Nat.succ_pos r.len) room
    rw [Theory.Ring.place_zero] at apart
    exact apart.symm
  have stored : r.push c = ⟨Function.update r.buf (place r.tail r.len) c, place r.tail (r.len + 1), r.tail⟩ := by
    rw [push, if_neg notFull, next_head, ← head_eq]
  rw [bytes, stored, len_of_places room]
  exact Theory.Ring.contents_store c (Nat.lt_of_succ_lt room)

theorem push_full (c : Byte) (full : r.len + 1 = ipcBufferSize) : (r.push c).bytes = r.bytes.tail ++ [c] := by
  obtain ⟨n, more⟩ : ∃ n, r.len = n + 1 := ⟨126, Nat.succ.inj full⟩
  have small : n + 1 < ipcBufferSize := by omega
  have around : r.head + 1 = r.tail := by
    rw [next_head, full]
    apply Fin.ext
    rw [Theory.Ring.val_place, Nat.add_mod_right, Nat.mod_eq_of_lt r.tail.isLt]
  have last : place (place r.tail 1) n = r.head := by rw [Theory.Ring.place_next, head_eq, more]
  have next : place (place r.tail 1) (n + 1) = r.tail := by
    rw [← Theory.Ring.next_place, last]
    exact around
  have stored : r.push c = ⟨Function.update r.buf (place (place r.tail 1) n) c, place (place r.tail 1) (n + 1), place r.tail 1⟩ := by
    rw [next, last, push, if_pos around, around]
    rfl
  rw [bytes, stored, len_of_places small, Theory.Ring.contents_store c (Nat.lt_of_succ_lt small), bytes, more,
    Theory.Ring.contents_cons, List.tail_cons]

theorem bytes_push (r : RxRing) (c : Byte) : (r.push c).bytes = offer (ipcBufferSize - 1) r.bytes c := by
  have length := r.length_bytes
  have bound := r.len_lt
  rcases Nat.lt_or_ge (r.len + 1) ipcBufferSize with room | full
  · rw [push_room c room, Theory.offer_room]
    rw [length]
    exact Nat.lt_sub_of_add_lt room
  · have full : r.len + 1 = ipcBufferSize := Nat.le_antisymm bound full
    rw [push_full c full]
    cases held : r.bytes with
    | nil =>
      rw [held, List.length_nil] at length
      rw [← length] at full
      exact absurd full (by decide)
    | cons oldest q =>
      rw [held, List.length_cons] at length
      rw [Theory.offer_full c (by omega), List.tail_cons]

theorem pop_empty (empty : r.bytes = []) : r.pop = none := by
  have none_ : r.len = 0 := by rw [← r.length_bytes, empty, List.length_nil]
  have same := r.head_eq
  rw [none_, Theory.Ring.place_zero] at same
  exact if_pos same.symm

theorem pop_oldest {c : Byte} {q : List Byte} (held : r.bytes = c :: q) : ∃ r', r.pop = some (c, r') ∧ r'.bytes = q := by
  have more : r.len = q.length + 1 := by rw [← r.length_bytes, held, List.length_cons]
  have bound := r.len_lt
  have apart : place r.tail 0 ≠ place r.tail (q.length + 1) := Theory.Ring.place_ne (Nat.succ_pos q.length) (by omega)
  rw [Theory.Ring.place_zero, ← more, ← head_eq] at apart
  rw [bytes, more, Theory.Ring.contents_cons] at held
  obtain ⟨first, rest⟩ := List.cons.inj held
  refine ⟨⟨r.buf, place (place r.tail 1) q.length, place r.tail 1⟩, ?_, ?_⟩
  · rw [pop, if_neg apart, first, Theory.Ring.place_next, ← more, ← head_eq]
    rfl
  · rw [bytes, len_of_places (by omega)]
    exact rest

/-! ### Sequences of operations -/

/-- The ring answers like the queue and goes on holding it. -/
theorem step_simulates {q : List Byte} (op : Op) (held : r.bytes = q) :
    (r.step op).1 = (queueStep q op).1 ∧ (r.step op).2.bytes = (queueStep q op).2 := by
  cases op with
  | push c =>
    refine ⟨rfl, ?_⟩
    rw [step, queueStep, bytes_push, held]
  | pop =>
    unfold step queueStep
    cases q with
    | nil =>
      rw [pop_empty held]
      exact ⟨rfl, held⟩
    | cons c q =>
      obtain ⟨r', popped, rest⟩ := pop_oldest held
      rw [popped]
      exact ⟨rfl, rest⟩

theorem bytes_init : init.bytes = [] := rfl

end RxRing

namespace Pl011

/-- A read takes bytes off the front of the queue. -/
theorem uartReadFromRing_bytes (len : Nat) (r : RxRing) :
    (uartReadFromRing len r).1 = r.bytes.take len ∧ (uartReadFromRing len r).2.bytes = r.bytes.drop len := by
  induction len generalizing r with
  | zero => exact ⟨List.take_zero.symm, List.drop_zero.symm⟩
  | succ len ih =>
    unfold uartReadFromRing
    cases held : r.bytes with
    | nil =>
      rw [RxRing.pop_empty held]
      exact ⟨rfl, held⟩
    | cons c q =>
      obtain ⟨r', popped, rest⟩ := RxRing.pop_oldest held
      obtain ⟨taken, left⟩ := ih r'
      rw [popped, List.take_succ_cons, List.drop_succ_cons, ← rest, ← taken, ← left]
      exact ⟨rfl, rfl⟩

end Pl011

/-- From the empty ring, all operations answer as on a queue of at most 127 bytes that drops its oldest one. The ring then holds
the queue and says how long it is and how much room it has, and a read of any length stores fewer bytes than the buffer has. -/
theorem ring_queue (ops : List RxRing.Op) :
    let q := (transduce RxRing.queueStep [] ops).2
    let r := (transduce RxRing.step RxRing.init ops).2
    (transduce RxRing.step RxRing.init ops).1 = (transduce RxRing.queueStep [] ops).1 ∧ r.bytes = q ∧ q.length ≤ ipcBufferSize - 1 ∧
      r.len = q.length ∧ r.free = ipcBufferSize - 1 - q.length ∧
      ∀ len, (Pl011.uartReadFromRing len r).1 = q.take len ∧ (Pl011.uartReadFromRing len r).2.bytes = q.drop len ∧
        (Pl011.uartReadFromRing len r).1.length < ipcBufferSize := by
  intro q r
  obtain ⟨answers, held⟩ : (transduce RxRing.step RxRing.init ops).1 = (transduce RxRing.queueStep [] ops).1 ∧ r.bytes = q :=
    Theory.transduce_simulates (R := fun r q => RxRing.bytes r = q) (fun _ _ op held => RxRing.step_simulates op held)
      RxRing.bytes_init ops
  have length : r.len = q.length := by rw [← held, RxRing.length_bytes]
  have bound := r.len_lt
  refine ⟨answers, held, ?_, length, ?_, fun len => ?_⟩
  · rw [← length]
    exact Nat.le_sub_one_of_lt bound
  · rw [RxRing.free, length, Nat.sub_right_comm]
  · obtain ⟨taken, left⟩ := Pl011.uartReadFromRing_bytes len r
    rw [held] at taken left
    refine ⟨taken, left, ?_⟩
    rw [taken, List.length_take, ← length]
    exact Nat.lt_of_le_of_lt (Nat.min_le_right _ _) bound

end BradypOS.Terminal
