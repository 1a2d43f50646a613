import BradypOS.Bsh.TermWrite
import BradypOS.Romfs.EndToEnd
import BradypOS.Terminal.Session
import BradypOS.Theory.Loop

/-!
# The shell's output arrives

`term_write` against the PL011 driver: every round goes through the kernel to the driver and back. What goes out is
the buffer with a carriage return before each newline, and the calls end where the transmit FIFO has room again and again.
-/

namespace BradypOS.Bsh

open L4
open Terminal (Link Session Pl011 expand ipcBufferSize termWriteBuf termWriteRet)
open Theory (Turn loop Comes)

/-! ### The program -/

/-- `term_write` between two rounds. -/
structure Writing where
  session : Session
  utcb : Utcb
  buf : Word
  size : Word

def writeRound (l : Link) (w : Writing) : Turn Writing (Fallible (Bool × Session × Utcb)) :=
  if w.size = 0#32 then .exit (.ok (true, w.session, w.utcb))
  else
    match w.session.call l (writeRequest w.utcb w.buf w.size) with
    | .error fault => .exit (.error fault)
    | .ok (answer, session) =>
      let answerTag := answer.mr 0
      if ipcFailed answerTag && MsgTag.label answerTag != termWriteRet then .exit (.ok (false, session, answer))
      else
        let written := answer.mr termWriteRetSize
        .next ⟨session, answer, w.buf + written, w.size - written⟩

/-- The loop of `write_buffer` over its pieces, each of them with at most `rounds` rounds. -/
def writePieces (l : Link) (rounds : Nat) : Session → Utcb → List (Word × Nat) → Option (Fallible (Session × Utcb))
  | s, u, [] => some (.ok (s, u))
  | s, u, (buf, size) :: pieces =>
    match loop (writeRound l) rounds ⟨s, u, buf, BitVec.ofNat 32 size⟩ with
    | .next _ => none
    | .exit (.error fault) => some (.error fault)
    | .exit (.ok (_, s, u)) => writePieces l rounds s u pieces

/-! ### One round -/

variable {l : Link} {w w' : Writing}

/-- The bytes of a buffer, none of which the driver's own buffer has. -/
def Clear (l : Link) (buf : Word) (size : Nat) : Prop := ∀ i < size, l.Elsewhere (buf + BitVec.ofNat 32 i)

instance (buf : Word) (size : Nat) : Decidable (Clear l buf size) := inferInstanceAs (Decidable (∀ i < size, l.Elsewhere _))

/-- A round in which the first `n` bytes were taken. -/
structure Round (l : Link) (w : Writing) (n : Nat) (w' : Writing) : Prop where
  bound : n ≤ w.size.toNat
  size : w'.size.toNat = w.size.toNat - n
  buf : w'.buf = w.buf + BitVec.ofNat 32 n
  output : w'.session.driver.output = w.session.driver.output ++ expand (stringAt w.session.memory.byte w.buf n)
  receives : Pl011.ReceivesAlike w.session.driver w'.session.driver
  elsewhere : ∀ a, l.Elsewhere a → w'.session.memory.byte a = w.session.memory.byte a
  moved : w.session.driver.answers w.session.driver.asked = true →
    w'.session.driver.owed w'.size.toNat < w.session.driver.owed w.size.toNat
  stalled : w.session.driver.answers w.session.driver.asked = false →
    n = 0 ∧ w'.session.driver.asked = w.session.driver.asked + 1 ∧ w'.session.driver.pendingNl = w.session.driver.pendingNl

theorem writeRequest_offered (u : Utcb) (buf : Word) {size : Word} (some_ : size ≠ 0#32) (fits : size.toNat ≤ ipcBufferSize) :
    Terminal.Offered (writeRequest u buf size) buf size := by
  refine ⟨rfl, rfl, rfl, Nat.pos_of_ne_zero fun zero => some_ ?_, fits⟩
  exact BitVec.eq_of_toNat_eq zero

theorem writeRound_spec (apart : l.client.utcb ≠ l.server.utcb) (some_ : w.size ≠ 0#32) (fits : w.size.toNat ≤ ipcBufferSize) :
    ∃ n w', writeRound l w = .next w' ∧ Round l w n w' := by
  obtain ⟨answer, s', called, taken⟩ := Session.call_offered (s := w.session) apart
    (writeRequest_offered w.utcb w.buf some_ fits)
  have delivered : ¬ (ipcFailed (answer.mr 0) && MsgTag.label (answer.mr 0) != termWriteRet) = true := by
    rw [taken.tag, not_ipcFailed_mk, Bool.false_and]
    exact Bool.false_ne_true
  have left : (w.size - answer.mr 1).toNat = w.size.toNat - (answer.mr 1).toNat := BitVec.toNat_sub_of_le taken.bound
  refine ⟨(answer.mr 1).toNat, ⟨s', answer, w.buf + answer.mr 1, w.size - answer.mr 1⟩, ?_, taken.bound, left, ?_, taken.output,
    taken.receives, taken.elsewhere, ?_, taken.stalled⟩
  · unfold writeRound
    rw [if_neg some_, called]
    dsimp only
    rw [if_neg delivered]
    rfl
  · rw [BitVec.ofNat_toNat, BitVec.setWidth_eq]
  · dsimp only
    rw [left]
    exact taken.moved

/-! ### All rounds -/

/-- What the rounds behind `w₀` have done, with the rest of the buffer left. -/
structure Sofar (l : Link) (w₀ w : Writing) : Prop where
  bound : w.size.toNat ≤ w₀.size.toNat
  buf : w.buf = w₀.buf + BitVec.ofNat 32 (w₀.size.toNat - w.size.toNat)
  output : w.session.driver.output =
    w₀.session.driver.output ++ expand (stringAt w₀.session.memory.byte w₀.buf (w₀.size.toNat - w.size.toNat))
  receives : Pl011.ReceivesAlike w₀.session.driver w.session.driver
  elsewhere : ∀ a, l.Elsewhere a → w.session.memory.byte a = w₀.session.memory.byte a

theorem stringAt_congr {byte byte' : Word → Byte} {buf : Word} {n : Nat} (same : ∀ i < n, byte' (buf + BitVec.ofNat 32 i) = byte (buf + BitVec.ofNat 32 i)) :
    stringAt byte' buf n = stringAt byte buf n := by
  apply List.map_congr_left
  intro i member
  exact same i (List.mem_range.mp member)

theorem Sofar.refl (l : Link) (w : Writing) : Sofar l w w := by
  refine ⟨Nat.le_refl _, ?_, ?_, ⟨rfl, rfl, rfl⟩, fun _ _ => rfl⟩
  · rw [Nat.sub_self, BitVec.add_zero]
  · rw [Nat.sub_self]
    exact (List.append_nil _).symm

theorem Sofar.next {w₀ : Writing} {n : Nat} (sofar : Sofar l w₀ w) (round : Round l w n w') (clear : Clear l w₀.buf w₀.size.toNat) :
    Sofar l w₀ w' := by
  have before := sofar.bound
  have inside := round.bound
  have size := round.size
  have total : w₀.size.toNat - w'.size.toNat = (w₀.size.toNat - w.size.toNat) + n := by omega
  refine ⟨by omega, ?_, ?_, ?_, ?_⟩
  · rw [round.buf, sofar.buf, total, BitVec.add_assoc, ← BitVec.ofNat_add]
  · have same : stringAt w.session.memory.byte w.buf n = stringAt w₀.session.memory.byte w.buf n := by
      apply stringAt_congr
      intro i early
      apply sofar.elsewhere
      rw [sofar.buf, BitVec.add_assoc, ← BitVec.ofNat_add]
      exact clear _ (by omega)
    have whole := stringAt_append w₀.session.memory.byte w₀.buf 0 (w₀.size.toNat - w.size.toNat) n
    rw [BitVec.add_zero, Nat.zero_add, ← sofar.buf] at whole
    rw [round.output, sofar.output, same, total, whole, Terminal.expand_append, List.append_assoc]
  · exact ⟨round.receives.rxrb.trans sofar.receives.rxrb, round.receives.received.trans sofar.receives.received,
      round.receives.answers.trans sofar.receives.answers⟩
  · exact fun a outside => (round.elsewhere a outside).trans (sofar.elsewhere a outside)

/-- The transmit FIFO has room again and again. -/
def Drains (answers : Nat → Bool) : Prop := ∀ n, ∃ k, n ≤ k ∧ answers k = true

/-- What was stored or waits as a line feed when the whole buffer was taken. -/
structure Arrives (l : Link) (s : Session) (bytes : List Byte) (s' : Session) : Prop where
  output : s'.driver.output = s.driver.output ++ expand bytes
  receives : Pl011.ReceivesAlike s.driver s'.driver
  elsewhere : ∀ a, l.Elsewhere a → s'.memory.byte a = s.memory.byte a

/-- The rounds of `term_write` end, and the whole buffer was stored but for a line feed that may wait. -/
theorem writeRound_ends (apart : l.client.utcb ≠ l.server.utcb) (fits : w.size.toNat ≤ ipcBufferSize)
    (clear : Clear l w.buf w.size.toNat) (drains : Drains w.session.driver.answers) :
    ∃ w' u s', Comes (writeRound l) w w' ∧ writeRound l w' = .exit (.ok (true, s', u)) ∧
      Arrives l w.session (stringAt w.session.memory.byte w.buf w.size.toNat) s' := by
  have comes : ∃ w' r, Comes (writeRound l) w w' ∧ Sofar l w w' ∧ writeRound l w' = .exit r := by
    apply Comes.exits_of_waits (fun v => v.session.driver.owed v.size.toNat) (fun v => v.session.driver.asked) drains _ (Sofar.refl l w)
    intro v sofar
    by_cases done : v.size = 0#32
    · exact .inl ⟨_, if_pos done⟩
    obtain ⟨n, v', step, round⟩ := writeRound_spec apart done (sofar.bound.trans fits)
    refine .inr ⟨v', step, sofar.next round clear, ?_⟩
    cases room : v.session.driver.answers v.session.driver.asked with
    | true => exact .inl (round.moved room)
    | false =>
      obtain ⟨none_, asked, waits⟩ := round.stalled room
      have size := round.size
      refine .inr ⟨?_, ?_, asked⟩
      · rw [← sofar.receives.answers, room]
        exact Bool.false_ne_true
      · rw [none_, Nat.sub_zero] at size
        rw [Pl011.owed, Pl011.owed, size, waits]
  obtain ⟨w', r, comes, sofar, ends⟩ := comes
  by_cases done : w'.size = 0#32
  · have here : writeRound l w' = .exit (.ok (true, w'.session, w'.utcb)) := if_pos done
    have output := sofar.output
    rw [done, BitVec.toNat_zero, Nat.sub_zero] at output
    exact ⟨w', w'.utcb, w'.session, comes, here, output, sofar.receives, sofar.elsewhere⟩
  · obtain ⟨n, v, step, -⟩ := writeRound_spec apart done (sofar.bound.trans fits)
    rw [step] at ends
    cases ends

/-! ### All pieces -/

section
variable {s s' s₁ : Session} {bytes rest : List Byte} {buf : Word} {size : Nat}

theorem Arrives.refl (l : Link) (s : Session) : Arrives l s [] s :=
  ⟨(List.append_nil _).symm, ⟨rfl, rfl, rfl⟩, fun _ _ => rfl⟩

theorem Arrives.append (first : Arrives l s bytes s₁) (second : Arrives l s₁ rest s') : Arrives l s (bytes ++ rest) s' := by
  refine ⟨?_, ?_, fun a outside => (second.elsewhere a outside).trans (first.elsewhere a outside)⟩
  · rw [second.output, first.output, Terminal.expand_append, List.append_assoc]
  · exact ⟨second.receives.rxrb.trans first.receives.rxrb, second.receives.received.trans first.receives.received,
      second.receives.answers.trans first.receives.answers⟩

theorem Arrives.stringAt (arrives : Arrives l s bytes s') (clear : Clear l buf size) :
    BradypOS.stringAt s'.memory.byte buf size = BradypOS.stringAt s.memory.byte buf size :=
  stringAt_congr fun i early => arrives.elsewhere _ (clear i early)

/-- A piece that the driver's buffer holds, in memory that is not the driver's. -/
def Piece (l : Link) (piece : Word × Nat) : Prop := piece.2 ≤ ipcBufferSize ∧ Clear l piece.1 piece.2

theorem writePieces_arrives (apart : l.client.utcb ≠ l.server.utcb) (pieces : List (Word × Nat)) (fit : ∀ piece ∈ pieces, Piece l piece)
    (u : Utcb) (drains : Drains s.driver.answers) :
    ∃ n s' u', (∀ rounds, n ≤ rounds → writePieces l rounds s u pieces = some (.ok (s', u'))) ∧
      Arrives l s (pieces.map fun piece => BradypOS.stringAt s.memory.byte piece.1 piece.2).flatten s' := by
  induction pieces generalizing s u with
  | nil => exact ⟨0, s, u, fun _ _ => rfl, .refl l s⟩
  | cons piece pieces ih =>
    obtain ⟨buf, size⟩ := piece
    obtain ⟨⟨fits, clear⟩, fit⟩ := List.forall_mem_cons.mp fit
    have word : (BitVec.ofNat 32 size).toNat = size := Terminal.toNat_of_length fits
    obtain ⟨w, u₁, s₁, ⟨k, comes⟩, ends, first⟩ := @writeRound_ends l ⟨s, u, buf, BitVec.ofNat 32 size⟩ apart (word.trans_le fits)
      (word.symm ▸ clear) drains
    dsimp only at first
    rw [word] at first
    obtain ⟨n, s', u', more, second⟩ := ih fit u₁ (first.receives.answers.symm ▸ drains)
    refine ⟨max (k + 1) n, s', u', fun rounds enough => ?_, ?_⟩
    · rw [writePieces, comes.exits ends (by omega)]
      exact more rounds (by omega)
    · rw [List.map_cons, List.flatten_cons]
      convert first.append second using 3
      apply List.map_congr_left
      intro piece member
      exact (first.stringAt (fit piece member).2).symm

theorem writeBuffer_clear (clear : Clear l buf size) (offset : Nat) : ∀ piece ∈ writeBuffer buf size offset, Piece l piece := by
  fun_induction writeBuffer buf size offset with
  | case1 offset more payloadSize ih =>
    have inside : offset + payloadSize ≤ size := by omega
    have short : payloadSize ≤ ipcBufferSize := (Nat.min_le_right _ _).trans (by decide)
    refine List.forall_mem_cons.mpr ⟨⟨short, fun i early => ?_⟩, ih⟩
    dsimp only
    rw [BitVec.add_assoc, ← BitVec.ofNat_add]
    exact clear _ (by omega)
  | case2 => simp

/-- `write_buffer` returns if the transmit FIFO has room again and again, however long that takes each time. Then the whole
buffer was sent, with a carriage return before each newline, and nothing else; its last line feed may still wait in the driver. -/
theorem writeBuffer_arrives (u : Utcb) (apart : l.client.utcb ≠ l.server.utcb) (clear : Clear l buf size)
    (drains : Drains s.driver.answers) :
    ∃ n s' u', (∀ rounds, n ≤ rounds → writePieces l rounds s u (writeBuffer buf size 0) = some (.ok (s', u'))) ∧
      s'.driver.output = s.driver.output ++ expand (BradypOS.stringAt s.memory.byte buf size) ∧ s'.driver.unread = s.driver.unread ∧
      ∀ a, l.Elsewhere a → s'.memory.byte a = s.memory.byte a := by
  obtain ⟨n, s', u', ends, arrives⟩ := writePieces_arrives apart (writeBuffer buf size 0) (writeBuffer_clear clear 0) u drains
  have whole := (writeBuffer_pieces s.memory.byte buf size 0).1
  rw [Nat.sub_zero, BitVec.add_zero] at whole
  refine ⟨n, s', u', ends, ?_, ?_, arrives.elsewhere⟩
  · rw [← whole]
    exact arrives.output
  · rw [Pl011.unread, Pl011.unread, arrives.receives.rxrb, arrives.receives.received]

end

def aLink : Link where
  server := Romfs.Server.thread 0x41#32 0x20000200#32 1
  client := Romfs.Server.thread 0x42#32 0x20000400#32 2
  ipcBuffer := 0x20001000#32

/-- Memory full of newlines, and a FIFO that is full when it is asked for the second time. -/
def aSession : Session := ⟨Pl011.stalled, { Romfs.Server.zeros with byte := fun _ => Terminal.newline }⟩

theorem writeBuffer_arrives_newlines :
    ∃ n s' u', (∀ rounds, n ≤ rounds →
        writePieces aLink rounds aSession blankUtcb (writeBuffer 0x20002000#32 100 0) = some (.ok (s', u'))) ∧
      s'.driver.output = aSession.driver.output ++ expand (stringAt aSession.memory.byte 0x20002000#32 100) ∧
      s'.driver.unread = aSession.driver.unread ∧ ∀ a, aLink.Elsewhere a → s'.memory.byte a = aSession.memory.byte a := by
  have drains : Drains aSession.driver.answers := by
    intro n
    refine ⟨n + 2, Nat.le_add_right n 2, ?_⟩
    show (n + 2 != 1) = true
    simp
  exact writeBuffer_arrives blankUtcb (by decide) (by decide) drains

end BradypOS.Bsh
