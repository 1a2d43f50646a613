import BradypOS.Bsh.Output
import BradypOS.Bsh.Readline

/-!
# The shell's main loop

`main` of `bsh.c` puts out a prompt, reads until a line is complete and puts the line out again. Between its calls the
UART receives words and the driver comes to the top of its own loop, at any times. What goes out is a transcript: prompts,
with the lines that were typed behind them.
-/

namespace BradypOS.Bsh

open L4
open Terminal (Link Session Pl011 expand expand_append ipcBufferSize storeBuffer loadBrs typed termReadLabel termReadSize)
open Theory (Turn loop Comes Run Guarded transduce)

/-! ### The program -/

/-- `"> "`. -/
def promptText : List Byte := [0x3E#8, 0x20#8]

/-- Where the shell has its prompt, its `line_buffer` and its `ipc_buffer`. -/
structure Places where
  link : Link
  prompt : Word
  lineBuffer : Word
  ipcBuffer : Word

/-- The message of `readline`, and its buffer registers. -/
def readRequest (u : Utcb) (ipcBuffer : Word) : Utcb :=
  let u := (loadBrs ipcBuffer u).setMr 0 (MsgTag.mk 2 0 0#32 termReadLabel)
  (u.setMr 1 0#32).setMr termReadSize (BitVec.ofNat 32 ipcBufferSize)

/-- Where the shell is, with what is left to write. -/
inductive Phase where
  | prompt (buf size : Word)
  | reading
  | echo (buf size : Word)

structure Console where
  session : Session
  utcb : Utcb
  shell : Shell
  phase : Phase

/-- A call of the shell, with what `readline` received; or the end of a `term_write`. -/
def shellRound (p : Places) (c : Console) : Fallible (List Reply × Console) :=
  match c.phase with
  | .prompt buf size =>
    match writeRound p.link ⟨c.session, c.utcb, buf, size⟩ with
    | .next w => .ok ([], { c with session := w.session, utcb := w.utcb, phase := .prompt w.buf w.size })
    | .exit (.error fault) => .error fault
    | .exit (.ok (_, session, utcb)) => .ok ([], ⟨session, utcb, { c.shell with linePos := 0 }, .reading⟩)
  | .reading => do
    let (answer, session) ← c.session.call p.link (readRequest c.utcb p.ipcBuffer)
    let reply : Reply := ⟨answer, session.memory.byte⟩
    let (ready, shell) := c.shell.readline reply
    let session := { session with memory := storeBuffer session.memory p.lineBuffer shell.lineBuffer }
    .ok ([reply], ⟨session, answer, shell, if ready then .echo p.lineBuffer (BitVec.ofNat 32 shell.linePos) else .reading⟩)
  | .echo buf size =>
    match writeRound p.link ⟨c.session, c.utcb, buf, size⟩ with
    | .next w => .ok ([], { c with session := w.session, utcb := w.utcb, phase := .echo w.buf w.size })
    | .exit (.error fault) => .error fault
    | .exit (.ok (_, session, utcb)) => .ok ([], { c with session, utcb, phase := .prompt p.prompt 2#32 })

inductive Event where
  | arrive (w : Word)
  | drain
  | shell (replies : List Reply)

def Step (p : Places) (c : Console) : Event → Console → Prop
  | .arrive w, c' => c' = { c with session := c.session.arrive w }
  | .drain, c' => c' = { c with session := c.session.drain }
  | .shell replies, c' => shellRound p c = .ok (replies, c')

/-- The words that the UART has received, and the answers that the shell has read. -/
def Event.arrived : Event → List Word
  | .arrive w => [w]
  | _ => []

def Event.replies : Event → List (List Byte)
  | .shell replies => replies.map Reply.bytes
  | _ => []

/-- Where the FIFO is emptied, the ring has room for what is in it. -/
def Roomy (c : Console) : Event → Prop
  | .arrive _ => True
  | .drain => c.session.driver.Fits
  | .shell _ => match c.phase with
    | .reading => c.session.driver.Fits
    | _ => True

/-! ### The transcript -/

def transcript (lines : List (List Byte)) : List Byte := lines.flatMap (promptText ++ ·)

/-- What is out, with these lines read so far. -/
def shown (lines : List (List Byte)) : Phase → List Byte
  | .prompt _ size => transcript lines ++ promptText.take (promptText.length - size.toNat)
  | .reading => transcript lines ++ promptText
  | .echo _ size => (transcript lines).take ((transcript lines).length - size.toNat)

/-- The shell's own bytes are not in the way of the driver's buffer or of each other. -/
structure Places.Apart (p : Places) : Prop where
  utcbs : p.link.client.utcb ≠ p.link.server.utcb
  prompt : Clear p.link p.prompt promptText.length
  line : Clear p.link p.lineBuffer ipcBufferSize
  promptRead : ∀ i < promptText.length, ipcBufferSize ≤ (p.prompt + BitVec.ofNat 32 i - p.ipcBuffer).toNat
  promptLine : ∀ i < promptText.length, ipcBufferSize ≤ (p.prompt + BitVec.ofNat 32 i - p.lineBuffer).toNat

/-! ### A text on its way out -/

theorem stringAt_slice (byte : Word → Byte) (buf : Word) {k n m : Nat} (inside : k + n ≤ m) :
    stringAt byte (buf + BitVec.ofNat 32 k) n = ((stringAt byte buf m).drop k).take n := by
  obtain ⟨r, rfl⟩ := Nat.exists_eq_add_of_le inside
  have first := stringAt_append byte buf 0 k (n + r)
  have second := stringAt_append byte buf k n r
  rw [BitVec.add_zero, Nat.zero_add] at first
  rw [Nat.add_assoc, first, List.drop_left' (length_stringAt _ _ _), second, List.take_left' (length_stringAt _ _ _)]

/-- `term_write` of `text` at `origin`, behind what is out already. -/
structure Writes (l : Link) (base shown : List Byte) (s : Session) (origin : Word) (text : List Byte) (buf size : Word) : Prop where
  fits : text.length ≤ ipcBufferSize
  left : size.toNat ≤ text.length
  buf : buf = origin + BitVec.ofNat 32 (text.length - size.toNat)
  string : stringAt s.memory.byte origin text.length = text
  clear : Clear l origin text.length
  output : s.driver.output = base ++ expand (shown ++ text.take (text.length - size.toNat))

section
variable {l : Link} {base before text : List Byte} {s : Session} {u : Utcb} {origin buf size : Word} {w : Writing}

theorem Writes.next (writes : Writes l base before s origin text buf size) (apart : l.client.utcb ≠ l.server.utcb)
    (step : writeRound l ⟨s, u, buf, size⟩ = .next w) :
    Writes l base before w.session origin text w.buf w.size ∧ Pl011.ReceivesAlike s.driver w.session.driver ∧
      ∀ a, l.Elsewhere a → w.session.memory.byte a = s.memory.byte a := by
  have some_ : size ≠ 0#32 := by
    intro zero
    rw [writeRound, if_pos zero] at step
    cases step
  obtain ⟨n, w', step', round⟩ := @writeRound_spec l ⟨s, u, buf, size⟩ apart some_ (writes.left.trans writes.fits)
  rw [step] at step'
  cases step'
  have inside := writes.left
  have bound : n ≤ size.toNat := round.bound
  have left : w.size.toNat = size.toNat - n := round.size
  have total : text.length - w.size.toNat = (text.length - size.toNat) + n := by omega
  refine ⟨⟨writes.fits, by omega, ?_, ?_, writes.clear, ?_⟩, round.receives, round.elsewhere⟩
  · rw [round.buf, writes.buf, total, BitVec.add_assoc, ← BitVec.ofNat_add]
  · rw [stringAt_congr fun i early => round.elsewhere _ (writes.clear i early)]
    exact writes.string
  · have piece : stringAt s.memory.byte buf n = (text.drop (text.length - size.toNat)).take n := by
      rw [writes.buf, stringAt_slice (m := text.length) s.memory.byte origin (by omega), writes.string]
    rw [round.output, writes.output, piece, total, List.take_add, List.append_assoc, ← expand_append,
      List.append_assoc]

theorem Writes.done (writes : Writes l base before s origin text buf size) (apart : l.client.utcb ≠ l.server.utcb) {b : Bool} {s' : Session}
    {u' : Utcb} (step : writeRound l ⟨s, u, buf, size⟩ = .exit (.ok (b, s', u'))) :
    s' = s ∧ s.driver.output = base ++ expand (before ++ text) := by
  by_cases zero : size = 0#32
  · rw [writeRound, if_pos zero] at step
    cases step
    have output := writes.output
    rw [zero, BitVec.toNat_zero, Nat.sub_zero, List.take_length] at output
    exact ⟨rfl, output⟩
  · obtain ⟨n, w', step', -⟩ := @writeRound_spec l ⟨s, u, buf, size⟩ apart zero (writes.left.trans writes.fits)
    rw [step] at step'
    cases step'

theorem Writes.start (fits : text.length ≤ ipcBufferSize) (string : stringAt s.memory.byte origin text.length = text)
    (clear : Clear l origin text.length) (output : s.driver.output = base ++ expand before) :
    Writes l base before s origin text origin (BitVec.ofNat 32 text.length) := by
  have size : (BitVec.ofNat 32 text.length).toNat = text.length := Terminal.toNat_of_length fits
  refine ⟨fits, size.le, ?_, string, clear, ?_⟩
  · rw [size, Nat.sub_self, BitVec.add_zero]
  · rw [size, Nat.sub_self, List.take_zero, List.append_nil]
    exact output

/-- The receiving side and the shell's reads leave a text alone. -/
theorem Writes.keep {s' : Session} (writes : Writes l base before s origin text buf size) (memory : s'.memory = s.memory)
    (output : s'.driver.output = s.driver.output) : Writes l base before s' origin text buf size :=
  ⟨writes.fits, writes.left, writes.buf, memory ▸ writes.string, writes.clear, output.trans writes.output⟩

end

/-! ### The invariant -/

/-- The lines that are complete, and the beginning of the next one. -/
def heard (replies : List (List Byte)) : List (List Byte) × List Byte := transduce replyStep [] replies

/-- What is out and what the shell holds, with these lines complete and `part` of another one. -/
def Stands (p : Places) (base : List Byte) (lines : List (List Byte)) (part : List Byte) (c : Console) : Prop :=
  match c.phase with
  | .prompt buf size => part = [] ∧ Writes p.link base (transcript lines) c.session p.prompt promptText buf size
  | .reading => c.shell.Holds part ∧ c.session.driver.output = base ++ expand (transcript lines ++ promptText)
  | .echo buf size => part = [] ∧ ∃ before line, lines = before ++ [line] ∧
      Writes p.link base (transcript before ++ promptText) c.session p.lineBuffer line buf size

structure Shows (p : Places) (base : List Byte) (replies : List (List Byte)) (c : Console) : Prop where
  stands : Stands p base (heard replies).1 (heard replies).2 c
  prompt : stringAt c.session.memory.byte p.prompt promptText.length = promptText
  inside : ∀ i ∈ c.shell.indexed, i < shellLineMax

theorem transcript_snoc (lines : List (List Byte)) (line : List Byte) :
    transcript (lines ++ [line]) = transcript lines ++ promptText ++ line := by simp [transcript]

theorem heard_snoc (replies : List (List Byte)) (reply : List Byte) :
    heard (replies ++ [reply]) = ((heard replies).1 ++ (replyStep (heard replies).2 reply).1, (replyStep (heard replies).2 reply).2) := by
  rw [heard, Theory.transduce_append]
  simp [transduce, heard]

/-- A line that is complete leaves nothing of the next one. -/
theorem replyStep_fresh (line reply : List Byte) : (replyStep line reply).1 = [] ∨ (replyStep line reply).2 = [] := by
  induction reply generalizing line with
  | nil => exact .inl rfl
  | cons c reply ih =>
    unfold replyStep
    split
    · exact .inr rfl
    · exact ih _

section
variable {p : Places} {base : List Byte} {replies : List (List Byte)} {c c' : Console}

theorem Stands.output {lines : List (List Byte)} {part : List Byte} (stands : Stands p base lines part c) :
    c.session.driver.output = base ++ expand (shown lines c.phase) := by
  unfold Stands at stands
  cases phase : c.phase with
  | prompt buf size =>
    rw [phase] at stands
    exact stands.2.output
  | reading =>
    rw [phase] at stands
    exact stands.2
  | echo buf size =>
    rw [phase] at stands
    obtain ⟨-, before, line, rfl, writes⟩ := stands
    have left := writes.left
    rw [writes.output, shown, transcript_snoc, List.length_append, Nat.add_sub_assoc left, List.take_length_add_append]

/-- Where only the receiving side of the driver changes. -/
theorem Shows.keep {s : Session} (shows_ : Shows p base replies c) (memory : s.memory = c.session.memory)
    (output : s.driver.output = c.session.driver.output) : Shows p base replies { c with session := s } := by
  refine ⟨?_, memory ▸ shows_.prompt, shows_.inside⟩
  have stands := shows_.stands
  unfold Stands at stands ⊢
  dsimp only
  cases phase : c.phase with
  | prompt buf size =>
    rw [phase] at stands
    exact ⟨stands.1, stands.2.keep memory output⟩
  | reading =>
    rw [phase] at stands
    exact ⟨stands.1, output.trans stands.2⟩
  | echo buf size =>
    rw [phase] at stands
    obtain ⟨fresh, before, line, last, writes⟩ := stands
    exact ⟨fresh, before, line, last, writes.keep memory output⟩

theorem Shows.prompt_kept (shows_ : Shows p base replies c) (apart : p.Apart) {s : Session}
    (elsewhere : ∀ a, p.link.Elsewhere a → s.memory.byte a = c.session.memory.byte a) :
    stringAt s.memory.byte p.prompt promptText.length = promptText := by
  rw [stringAt_congr fun i early => elsewhere _ (apart.prompt i early)]
  exact shows_.prompt

theorem Shows.prompt_step (shows_ : Shows p base replies c) (apart : p.Apart) {buf size : Word} (phase : c.phase = .prompt buf size)
    {more : List Reply} (step : shellRound p c = .ok (more, c')) :
    more = [] ∧ Shows p base replies c' ∧ c'.session.driver.unread = c.session.driver.unread := by
  have stands := shows_.stands
  unfold Stands at stands
  unfold shellRound at step
  rw [phase] at stands step
  dsimp only at stands step
  obtain ⟨fresh, writes⟩ := stands
  cases round : writeRound p.link ⟨c.session, c.utcb, buf, size⟩ with
  | next w =>
    rw [round] at step
    cases step
    obtain ⟨writes', receives, elsewhere⟩ := writes.next apart.utcbs round
    refine ⟨rfl, ⟨⟨fresh, writes'⟩, shows_.prompt_kept apart elsewhere, shows_.inside⟩, ?_⟩
    rw [Pl011.unread, Pl011.unread, receives.rxrb, receives.received]
  | exit r =>
    rw [round] at step
    cases r with
    | error fault => cases step
    | ok r =>
      obtain ⟨b, s, u⟩ := r
      cases step
      obtain ⟨rfl, output⟩ := writes.done apart.utcbs round
      refine ⟨rfl, ⟨⟨?_, output⟩, shows_.prompt, shows_.inside⟩, rfl⟩
      rw [fresh]
      exact ⟨rfl, Nat.zero_le _, shows_.inside⟩

theorem Shows.echo_step (shows_ : Shows p base replies c) (apart : p.Apart) {buf size : Word} (phase : c.phase = .echo buf size)
    {more : List Reply} (step : shellRound p c = .ok (more, c')) :
    more = [] ∧ Shows p base replies c' ∧ c'.session.driver.unread = c.session.driver.unread := by
  have stands := shows_.stands
  unfold Stands at stands
  unfold shellRound at step
  rw [phase] at stands step
  dsimp only at stands step
  obtain ⟨fresh, before, line, last, writes⟩ := stands
  cases round : writeRound p.link ⟨c.session, c.utcb, buf, size⟩ with
  | next w =>
    rw [round] at step
    cases step
    obtain ⟨writes', receives, elsewhere⟩ := writes.next apart.utcbs round
    refine ⟨rfl, ⟨⟨fresh, before, line, last, writes'⟩, shows_.prompt_kept apart elsewhere, shows_.inside⟩, ?_⟩
    rw [Pl011.unread, Pl011.unread, receives.rxrb, receives.received]
  | exit r =>
    rw [round] at step
    cases r with
    | error fault => cases step
    | ok r =>
      obtain ⟨b, s, u⟩ := r
      cases step
      obtain ⟨rfl, output⟩ := writes.done apart.utcbs round
      rw [← transcript_snoc, ← last] at output
      exact ⟨rfl, ⟨⟨fresh, .start (by decide) shows_.prompt apart.prompt output⟩, shows_.prompt, shows_.inside⟩, rfl⟩

theorem readRequest_asked (u : Utcb) (ipcBuffer : Word) : Terminal.Asked (readRequest u ipcBuffer) ipcBuffer := by
  constructor <;> simp [readRequest, loadBrs, Utcb.mr, Utcb.br, Utcb.setMr, mrCount, termReadSize]

theorem Reply.bytes_of_brought {l : Link} {s s' : Session} {buf : Word} {bytes : List Byte} {answer : Utcb}
    (brought : Terminal.Brought l s buf bytes answer s') : Reply.bytes ⟨answer, s'.memory.byte⟩ = bytes := by
  have delivered : ¬ (ipcFailed (answer.mr 0) || MsgTag.label (answer.mr 0) != Terminal.termReadRet) = true := by
    rw [brought.tag, not_ipcFailed_mk, MsgTag.label_mk]
    decide
  have ptr : answer.mr (termReadRetStr + 1) = buf := brought.ptr
  have length : Item.length (answer.mr termReadRetStr) = bytes.length := brought.length
  rw [Reply.bytes, if_neg delivered, Reply.string, ptr, length]
  exact brought.string

theorem Shows.reading_step (shows_ : Shows p base replies c) (apart : p.Apart) (phase : c.phase = .reading)
    (fits : c.session.driver.Fits) {more : List Reply} (step : shellRound p c = .ok (more, c')) :
    ∃ reply, more = [reply] ∧ reply.bytes = c.session.driver.unread ∧ c'.session.driver.unread = [] ∧
      Shows p base (replies ++ [reply.bytes]) c' := by
  have stands := shows_.stands
  unfold Stands at stands
  unfold shellRound at step
  rw [phase] at stands step
  dsimp only at stands step
  obtain ⟨holds, output⟩ := stands
  obtain ⟨answer, s, called, brought⟩ := Session.call_asked (s := c.session) apart.utcbs (readRequest_asked c.utcb p.ipcBuffer) fits
  rw [called] at step
  cases step
  have bytes := Reply.bytes_of_brought brought
  refine ⟨_, rfl, bytes, brought.unread, ?_⟩
  obtain ⟨lines, part⟩ := Shell.mainStep_simulates holds ⟨answer, s.memory.byte⟩
  unfold Shell.mainStep at lines part
  rw [bytes] at lines part ⊢
  generalize c.shell.readline ⟨answer, s.memory.byte⟩ = r at lines part ⊢
  obtain ⟨ready, shell⟩ := r
  have prompt : stringAt (storeBuffer s.memory p.lineBuffer shell.lineBuffer).byte p.prompt promptText.length = promptText := by
    have kept : stringAt s.memory.byte p.prompt promptText.length = promptText := by
      rw [stringAt_congr fun i early => brought.elsewhere _ (apart.prompt i early) (apart.promptRead i early)]
      exact shows_.prompt
    rw [stringAt_congr fun i early => if_neg (Nat.not_lt.mpr (apart.promptLine i early))]
    exact kept
  cases ready with
  | false =>
    refine ⟨?_, prompt, part.inside⟩
    rw [heard_snoc, ← lines]
    exact ⟨part, by simpa [Shell.putOut] using brought.sends.output.trans output⟩
  | true =>
    have inside : ∀ i ∈ shell.indexed ++ List.range shell.linePos, i < shellLineMax := part.inside
    have fits : shell.linePos ≤ ipcBufferSize := by
      cases pos : shell.linePos with
      | zero => exact Nat.zero_le _
      | succ n => exact inside n (List.mem_append_right _ (List.mem_range.mpr (by omega)))
    have fresh : (replyStep (heard replies).2 c.session.driver.unread).2 = [] := by
      rcases replyStep_fresh (heard replies).2 c.session.driver.unread with none_ | fresh
      · rw [← lines] at none_
        cases none_
      · exact fresh
    refine ⟨?_, prompt, fun i member => inside i (List.mem_append_left _ member)⟩
    rw [heard_snoc, fresh, ← lines]
    refine ⟨rfl, (heard replies).1, (List.range shell.linePos).map shell.lineBuffer, rfl, ?_⟩
    have length : ((List.range shell.linePos).map shell.lineBuffer).length = shell.linePos := by
      rw [List.length_map, List.length_range]
    have begins := @Writes.start p.link base (transcript (heard replies).1 ++ promptText) ((List.range shell.linePos).map shell.lineBuffer)
      { s with memory := storeBuffer s.memory p.lineBuffer shell.lineBuffer } p.lineBuffer (length.trans_le fits)
      (by rw [length]; exact Terminal.stringAt_storeBuffer _ _ _ fits) (fun i early => apart.line i (by omega)) (brought.sends.output.trans output)
    rwa [length] at begins

/-! ### Steps and runs -/

theorem step_shows {e : Event} (shows_ : Shows p base replies c) (apart : p.Apart) (step : Guarded Roomy (Step p) c e c') :
    Shows p base (replies ++ e.replies) c' ∧
      e.replies.flatten ++ c'.session.driver.unread = c.session.driver.unread ++ typed e.arrived := by
  obtain ⟨roomy, step⟩ := step
  cases e with
  | arrive w =>
    rw [show c' = _ from step]
    refine ⟨?_, ?_⟩
    · show Shows p base (replies ++ []) _
      rw [List.append_nil]
      exact shows_.keep rfl rfl
    · simp [Event.replies, Event.arrived, Session.arrive, Pl011.unread, Terminal.typed_append]
  | drain =>
    rw [show c' = _ from step]
    obtain ⟨alike, empty, bytes⟩ := c.session.driver.uartDrainHwRxToRing_spec roomy
    refine ⟨?_, ?_⟩
    · show Shows p base (replies ++ []) _
      rw [List.append_nil]
      exact shows_.keep rfl alike.output
    · simp [Event.replies, Event.arrived, Session.drain, Pl011.unread, empty, bytes, typed]
  | shell more =>
    have same : ∀ {more : List Reply}, more = [] → Shows p base replies c' → c'.session.driver.unread = c.session.driver.unread →
        Shows p base (replies ++ (Event.shell more).replies) c' ∧ (Event.shell more).replies.flatten ++ c'.session.driver.unread =
          c.session.driver.unread ++ typed (Event.shell more).arrived := by
      rintro _ rfl shows' unread
      simp [Event.replies, Event.arrived, typed, unread, shows']
    cases phase : c.phase with
    | prompt buf size =>
      obtain ⟨none_, shows', unread⟩ := shows_.prompt_step apart phase step
      exact same none_ shows' unread
    | reading =>
      rw [Roomy, phase] at roomy
      obtain ⟨reply, rfl, bytes, empty, shows'⟩ := shows_.reading_step apart phase roomy step
      refine ⟨shows', ?_⟩
      simp [Event.replies, Event.arrived, typed, bytes, empty]
    | echo buf size =>
      obtain ⟨none_, shows', unread⟩ := shows_.echo_step apart phase step
      exact same none_ shows' unread

theorem run_shows {events : List Event} (run : Run (Guarded Roomy (Step p)) c events c') (apart : p.Apart) (start : Shows p base replies c) :
    Shows p base (replies ++ events.flatMap Event.replies) c' ∧
      (events.flatMap Event.replies).flatten ++ c'.session.driver.unread =
        c.session.driver.unread ++ typed (events.flatMap Event.arrived) := by
  induction run generalizing replies with
  | nil c =>
    refine ⟨?_, (List.append_nil _).symm⟩
    rw [List.flatMap_nil, List.append_nil]
    exact start
  | @cons c c₁ c' e events step rest ih =>
    obtain ⟨first, early⟩ := step_shows start apart step
    obtain ⟨last, late⟩ := ih first
    rw [List.append_assoc] at last
    refine ⟨last, ?_⟩
    rw [List.flatMap_cons, List.flatMap_cons, List.flatten_append, Terminal.typed_append, List.append_assoc, late, ← List.append_assoc,
      early, List.append_assoc]

/-- From the top of the main loop, whatever arrives and whenever the FIFO has room: what was sent, with the line feed that waits in
the driver, is the transcript of the lines that were read, as far as the shell is with it. No byte is lost between the UART and the
shell, if the ring has room for what is in the FIFO; and the lines are those of the bytes read, if what a reply has behind its line
end makes no difference. -/
theorem shell_echoes {events : List Event} (apart : p.Apart) (phase : c.phase = .prompt p.prompt 2#32)
    (prompt : stringAt c.session.memory.byte p.prompt promptText.length = promptText) (quiet : c.shell.indexed = [])
    (run : Run (Guarded Roomy (Step p)) c events c') :
    let replies := events.flatMap Event.replies
    let lines := (heard replies).1
    c'.session.driver.output = c.session.driver.output ++ expand (shown lines c'.phase) ∧
      replies.flatten ++ c'.session.driver.unread = c.session.driver.unread ++ typed (events.flatMap Event.arrived) ∧
      (Undisturbed replies → lines = streamLines replies.flatten) := by
  intro replies lines
  have start : Shows p c.session.driver.output [] c := by
    refine ⟨?_, prompt, by simp [quiet]⟩
    unfold Stands
    rw [phase]
    exact ⟨rfl, .start (by decide) prompt apart.prompt (List.append_nil _).symm⟩
  obtain ⟨shows', conserved⟩ := run_shows run apart start
  rw [List.nil_append] at shows'
  refine ⟨shows'.stands.output, conserved, fun undisturbed => ?_⟩
  exact (lines_iff [] [] replies).mpr ⟨fun _ => rfl, undisturbed⟩

end

def aShell : Places := ⟨aLink, 0x20002000#32, 0x20002100#32, 0x20002200#32⟩

/-- A shell in front of its prompt, with the prompt in memory. -/
def prompting : Console where
  session := ⟨Pl011.stalled, { Romfs.Server.zeros with byte := fun a => if a = 0x20002000#32 then 0x3E#8 else 0x20#8 }⟩
  utcb := blankUtcb
  shell := .init fun _ => 0#8
  phase := .prompt 0x20002000#32 2#32

instance (s : Pl011) : Decidable s.Fits := inferInstanceAs (Decidable (_ ≤ _))

/-- Rounds of the shell one after another, and the events they are. -/
def shellRounds (p : Places) : Nat → Console → Option (List Event × Console)
  | 0, c => some ([], c)
  | n + 1, c =>
    if c.session.driver.Fits then
      match shellRound p c with
      | .ok (replies, c') => (shellRounds p n c').map fun r => (.shell replies :: r.1, r.2)
      | .error _ => none
    else none

theorem run_of_shellRounds {p : Places} {n : Nat} {c c' : Console} {events : List Event} (h : shellRounds p n c = some (events, c')) :
    Run (Guarded Roomy (Step p)) c events c' := by
  induction n generalizing c events with
  | zero =>
    cases h
    exact .nil _
  | succ n ih =>
    rw [shellRounds] at h
    by_cases fits : c.session.driver.Fits
    · rw [if_pos fits] at h
      split at h
      · rename_i replies c₁ round
        obtain ⟨⟨events, c₂⟩, rest, same⟩ := Option.map_eq_some_iff.mp h
        cases same
        have roomy : Roomy c (.shell replies) := by
          unfold Roomy
          dsimp only
          split
          · exact fits
          · trivial
        exact .cons ⟨roomy, round⟩ (ih rest)
      · cases h
    · rw [if_neg fits] at h
      cases h

/-- A letter and a newline are typed; the shell prompts and reads the line. -/
theorem shell_echoes_prompting : ∃ events c', Run (Guarded Roomy (Step aShell)) prompting events c' ∧
    c'.session.driver.output = promptText ∧ (heard (events.flatMap Event.replies)).1 = [[0x61#8, 0x0A#8]] ∧
    streamLines (events.flatMap Event.replies).flatten = [[0x61#8, 0x0A#8]] := by
  have apart : aShell.Apart := ⟨by decide, by decide, by decide, by decide, by decide⟩
  have done : ((shellRounds aShell 4 { prompting with session := (prompting.session.arrive 0x61#32).arrive 0x0A#32 }).any fun r =>
      decide (r.1.flatMap Event.replies = [[0x61#8, 0x0A#8]] ∧ (match r.2.phase with
        | .echo _ size => size
        | _ => 0#32) = 2#32)) = true := by decide +kernel
  obtain ⟨⟨events, c'⟩, ran, holds⟩ := (Option.any_eq_true _ _).mp done
  obtain ⟨replies, phase⟩ := of_decide_eq_true holds
  have run : Run (Guarded Roomy (Step aShell)) prompting (.arrive 0x61#32 :: .arrive 0x0A#32 :: events) c' :=
    .cons ⟨trivial, rfl⟩ (.cons ⟨trivial, rfl⟩ (run_of_shellRounds ran))
  obtain ⟨output, -, lines⟩ := shell_echoes apart rfl (by decide) rfl run
  have read : (Event.arrive 0x61#32 :: .arrive 0x0A#32 :: events).flatMap Event.replies = [[0x61#8, 0x0A#8]] := replies
  have heard_ : (heard [[0x61#8, 0x0A#8]]).1 = [[0x61#8, 0x0A#8]] := by decide
  rw [read] at output lines
  have undisturbed : Undisturbed [[0x61#8, 0x0A#8]] := ⟨fun _ => nofun, fun _ => rfl, trivial⟩
  refine ⟨_, c', run, ?_, by rw [read, heard_], by rw [read, ← lines undisturbed, heard_]⟩
  cases place : c'.phase with
  | echo buf size =>
    rw [place] at phase output
    subst phase
    exact output
  | prompt | reading =>
    rw [place] at phase
    cases phase

end BradypOS.Bsh
