import BradypOS.Terminal.Pl011
import BradypOS.Theory.Transition

/-!
# What the PL011 driver sends

Every newline goes out behind a carriage return, also where the FIFO fills up between the two and the
newline waits for the next call.
-/

namespace BradypOS.Terminal

def expand (bytes : List Byte) : List Byte :=
  bytes.flatMap fun c => if c = newline then [carriageReturn, newline] else [c]

theorem expand_append (bytes rest : List Byte) : expand (bytes ++ rest) = expand bytes ++ expand rest := by
  simp [expand]

def UartEvent.sent : UartEvent → Option Byte
  | .dr c => some c
  | _ => none

/-- The bytes stored to `UARTDR`, the first one first. -/
def stores (log : List UartEvent) : List Byte := (log.filterMap UartEvent.sent).reverse

/-- Each store directly follows an answer that there is room, which no other store can have used. -/
def Granted : List UartEvent → Prop
  | [] => True
  | .dr _ :: log => log.head? = some (.writable true) ∧ Granted log
  | _ :: log => Granted log

@[simp] theorem stores_writable (answer : Bool) (log : List UartEvent) : stores (.writable answer :: log) = stores log := by
  simp [stores, List.filterMap_cons, UartEvent.sent]

@[simp] theorem stores_dr (c : Byte) (log : List UartEvent) : stores (.dr c :: log) = stores log ++ [c] := by
  simp [stores, UartEvent.sent]

@[simp] theorem granted_writable (answer : Bool) (log : List UartEvent) : Granted (.writable answer :: log) ↔ Granted log := Iff.rfl

@[simp] theorem granted_dr (c : Byte) (log : List UartEvent) :
    Granted (.dr c :: log) ↔ log.head? = some (.writable true) ∧ Granted log := Iff.rfl

namespace Pl011

/-- What was sent, with the newline that waits. -/
def output (s : Pl011) : List Byte := stores s.log ++ if s.pendingNl then [newline] else []

/-- What sending the first `written` bytes of `buffer` does. -/
structure Sent (s : Pl011) (buffer : List Byte) (written : Nat) (s' : Pl011) : Prop where
  bound : written ≤ buffer.length
  output : s'.output = s.output ++ expand (buffer.take written)
  granted : Granted s.log → Granted s'.log

variable {s s' : Pl011} {buffer : List Byte} {c : Byte} {written : Nat}

theorem Sent.none (same : s'.output = s.output) (granted : Granted s.log → Granted s'.log) : Sent s buffer 0 s' :=
  ⟨Nat.zero_le _, by simp [same, expand], granted⟩

theorem Sent.cons {s₁ : Pl011} (first : s₁.output = s.output ++ expand [c]) (granted : Granted s.log → Granted s₁.log)
    (rest : Sent s₁ buffer written s') : Sent s (c :: buffer) (written + 1) s' := by
  refine ⟨Nat.succ_le_succ rest.bound, ?_, fun before => rest.granted (granted before)⟩
  rw [rest.output, first, List.take_succ_cons, List.append_assoc, ← expand_append]
  rfl

theorem writeLoop_sent (buffer : List Byte) (written : Nat) (s : Pl011) (idle : s.pendingNl = false) :
    ∃ n, (writeLoop buffer written s).1 = written + n ∧ Sent s buffer n (writeLoop buffer written s).2 := by
  induction buffer generalizing s written with
  | nil => exact ⟨0, rfl, .none rfl id⟩
  | cons c rest ih =>
    cases room : s.answers s.asked with
    | false =>
      simp only [writeLoop, uartIsWritable, room]
      exact ⟨0, rfl, .none rfl id⟩
    | true =>
      by_cases nl : c = newline
      · cases again : s.answers (s.asked + 1) with
        | false =>
          simp only [writeLoop, uartIsWritable, store, room, nl, again, Bool.not_true, Bool.not_false, if_true, Bool.false_eq_true,
            if_false]
          refine ⟨1, rfl, .cons ?_ ?_ (.none rfl id)⟩
          · simp [output, expand, idle]
          · simp
        | true =>
          simp only [writeLoop, uartIsWritable, store, room, nl, again, Bool.not_true, if_true, Bool.false_eq_true, if_false]
          obtain ⟨n, count, sent⟩ := ih (written + 1) { s with
            asked := s.asked + 1 + 1
            log := .dr newline :: .writable true :: .dr carriageReturn :: .writable true :: s.log } idle
          refine ⟨n + 1, by rw [count]; omega, .cons ?_ ?_ sent⟩
          · simp [output, expand, idle]
          · simp
      · simp only [writeLoop, uartIsWritable, store, room, nl, Bool.not_true, Bool.false_eq_true, if_false]
        obtain ⟨n, count, sent⟩ := ih (written + 1) { s with
          asked := s.asked + 1
          log := .dr c :: .writable true :: s.log } idle
        refine ⟨n + 1, by rw [count]; omega, .cons ?_ ?_ sent⟩
        · simp [output, expand, idle, nl]
        · simp

/-- The newline that waits goes out first, or nothing does. -/
theorem uartWriteNonblocking_sent (s : Pl011) (buffer : List Byte) :
    Sent s buffer (s.uartWriteNonblocking buffer).1 (s.uartWriteNonblocking buffer).2 := by
  have loop : ∀ s₁ : Pl011, s₁.pendingNl = false → s₁.output = s.output → (Granted s.log → Granted s₁.log) →
      Sent s buffer (writeLoop buffer 0 s₁).1 (writeLoop buffer 0 s₁).2 := by
    intro s₁ idle same granted
    obtain ⟨n, count, sent⟩ := writeLoop_sent buffer 0 s₁ idle
    rw [count, Nat.zero_add]
    exact ⟨sent.bound, by rw [sent.output, same], fun before => sent.granted (granted before)⟩
  unfold uartWriteNonblocking
  cases idle : s.pendingNl with
  | false => exact loop s idle rfl id
  | true =>
    cases room : s.answers s.asked with
    | false =>
      simp only [uartIsWritable, room, Bool.not_false, if_true]
      exact .none (by simp [output]) id
    | true =>
      simp only [uartIsWritable, room, Bool.not_true, Bool.false_eq_true, if_false, if_true]
      apply loop _ rfl
      · simp [output, store, idle]
      · simp [store]

/-- A call with its buffer and the number of bytes it reports. -/
def Call (s : Pl011) (call : List Byte × Nat) (s' : Pl011) : Prop := s.uartWriteNonblocking call.1 = (call.2, s')

def delivered (calls : List (List Byte × Nat)) : List Byte := calls.flatMap fun call => call.1.take call.2

theorem run_sent {calls : List (List Byte × Nat)} (run : Theory.Run Call s calls s') :
    s'.output = s.output ++ expand (delivered calls) ∧ (Granted s.log → Granted s'.log) := by
  induction run with
  | nil s => simp [delivered, expand]
  | @cons s s₁ s' call calls step rest ih =>
    have sent := uartWriteNonblocking_sent s call.1
    rw [step] at sent
    refine ⟨?_, fun before => ih.2 (sent.granted before)⟩
    rw [ih.1, sent.output, List.append_assoc, ← expand_append]
    rfl

/-- Whatever the calls and whenever the FIFO has room: what was sent, and the newline that waits, are the
bytes that the calls report as written, with a carriage return before each newline, and each store to
`UARTDR` has an answer of its own that there is room. -/
theorem output_of_run {calls : List (List Byte × Nat)} (quiet : s.log = []) (idle : s.pendingNl = false)
    (run : Theory.Run Call s calls s') :
    (stores s'.log ++ if s'.pendingNl then [newline] else []) = expand (delivered calls) ∧ Granted s'.log := by
  obtain ⟨sent, granted⟩ := run_sent run
  refine ⟨?_, granted (by rw [quiet]; trivial)⟩
  have before : s.output = [] := by simp [output, quiet, idle, stores]
  rw [before, List.nil_append] at sent
  exact sent

/-- The FIFO has room for the carriage return alone, and takes the newline in the second call. -/
def stalled : Pl011 where
  rxrb := { buf := fun _ => 0#8, head := ⟨0, by decide⟩, tail := ⟨0, by decide⟩ }
  pendingNl := false
  ipcBuffer := fun _ => 0#8
  answers i := i != 1
  asked := 0
  received := []
  log := []

theorem output_of_run_stalled : ∃ s', Theory.Run Call stalled [([newline, 0x41#8], 1), ([0x41#8], 1)] s' ∧
    (stores s'.log ++ if s'.pendingNl then [newline] else []) = expand [newline, 0x41#8] ∧ Granted s'.log := by
  have run : Theory.Run Call stalled [([newline, 0x41#8], 1), ([0x41#8], 1)]
      ((stalled.uartWriteNonblocking [newline, 0x41#8]).2.uartWriteNonblocking [0x41#8]).2 := .cons rfl (.single rfl)
  exact ⟨_, run, output_of_run rfl rfl run⟩

end Pl011
end BradypOS.Terminal
