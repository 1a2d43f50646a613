import BradypOS.Terminal.Pl011

/-!
# The shell's output (`usr/bsh/bsh.c`)

`term_write` offers the terminal server what is left of a buffer until all of it was taken. It gives up only
on an answer that both failed and has another label than the one it waits for, so what an error carries is
taken for a number of bytes.
-/

namespace BradypOS.Bsh

open L4
open Terminal (termError termWriteLabel termWriteRet termWriteBuf)

/-! ### The program -/

/-- `TERM_WRITE_FLAGS` and `TERM_WRITE_RET_SIZE`. -/
def termWriteFlags : Nat := 1
def termWriteRetSize : Nat := 1

/-- The message of a round. -/
def writeRequest (u : Utcb) (buf size : Word) : Utcb :=
  let u := (u.setMr 0 (MsgTag.mk 1 2 0#32 termWriteLabel)).setMr termWriteFlags 0#32
  (u.setMr termWriteBuf (Item.simpleString size)).setMr (termWriteBuf + 1) buf

/-- `term_write` with what its UTCB has after each call of the server: the messages that it sends, and its result unless it
still waits for an answer. -/
def termWrite (u : Utcb) (buf size : Word) (answers : List Utcb) : List Utcb × Option Bool :=
  if size = 0#32 then ([], some true)
  else
    let request := writeRequest u buf size
    match answers with
    | [] => ([request], none)
    | answer :: answers =>
      let answerTag := answer.mr 0
      if ipcFailed answerTag && MsgTag.label answerTag != termWriteRet then ([request], some false)
      else
        let written := answer.mr termWriteRetSize
        let (requests, result) := termWrite answer (buf + written) (size - written) answers
        (request :: requests, result)

/-- The pieces that `write_buffer` hands to `term_write`, one after another. -/
def writeBuffer (buf : Word) (size offset : Nat) : List (Word × Nat) :=
  if offset < size then
    let payloadSize := min (size - offset) 64
    (buf + BitVec.ofNat 32 offset, payloadSize) :: writeBuffer buf size (offset + payloadSize)
  else []
termination_by size - offset

/-! ### Answers -/

/-- An error of the server, or of the IPC. -/
def Refuses (answer : Utcb) : Prop := ipcFailed (answer.mr 0) = true ∨ MsgTag.label (answer.mr 0) = termError

/-- The answer says how many bytes were taken. -/
def Acknowledges (answer : Utcb) : Prop := ipcFailed (answer.mr 0) = false ∧ MsgTag.label (answer.mr 0) = termWriteRet

instance : DecidablePred Refuses := fun _ => inferInstanceAs (Decidable (_ ∨ _))
instance : DecidablePred Acknowledges := fun _ => inferInstanceAs (Decidable (_ ∧ _))

def written (answer : Utcb) : Nat := (answer.mr termWriteRetSize).toNat

/-- Answers of a server that is offered `remaining` bytes: errors, or counts of at most what is left. -/
def Answers : Nat → List Utcb → Prop
  | _, [] => True
  | remaining, answer :: answers =>
    remaining = 0 ∨ Refuses answer ∨ Acknowledges answer ∧ written answer ≤ remaining ∧ Answers (remaining - written answer) answers

/-- The first error, if it comes before all bytes were taken, is a failed IPC, and its label is not that of a count. -/
def Heard : Nat → List Utcb → Prop
  | _, [] => True
  | remaining, answer :: answers =>
    remaining = 0 ∨
      if Refuses answer then ipcFailed (answer.mr 0) = true ∧ MsgTag.label (answer.mr 0) ≠ termWriteRet
      else Heard (remaining - written answer) answers

/-! ### Honest writing -/

/-- The message offers the buffer from the byte `taken` on. -/
structure Offers (buf size : Word) (taken : Nat) (request : Utcb) : Prop where
  tag : request.mr 0 = MsgTag.mk 1 2 0#32 termWriteLabel
  type : Item.type (request.mr termWriteBuf) = .stringItem
  length : Item.length (request.mr termWriteBuf) = size.toNat - taken
  ptr : request.mr (termWriteBuf + 1) = buf + BitVec.ofNat 32 taken

/-- What the answers make of a buffer of which `taken` bytes were taken before: every message offers the others, the count
of them never passes the end, `true` comes when it has reached it, and `false` with the first error. -/
inductive Honest (buf size : Word) : Nat → List Utcb → List Utcb → Option Bool → Prop where
  | complete (answers : List Utcb) : Honest buf size size.toNat answers [] (some true)
  | waiting {taken : Nat} {request : Utcb} : taken < size.toNat → Offers buf size taken request → Honest buf size taken [] [request] none
  | refused {taken : Nat} {request answer : Utcb} (answers : List Utcb) : taken < size.toNat → Offers buf size taken request →
      Refuses answer → Honest buf size taken (answer :: answers) [request] (some false)
  | acknowledged {taken : Nat} {request answer : Utcb} {answers requests : List Utcb} {result : Option Bool} : taken < size.toNat →
      Offers buf size taken request → Acknowledges answer → taken + written answer ≤ size.toNat →
      Honest buf size (taken + written answer) answers requests result →
      Honest buf size taken (answer :: answers) (request :: requests) result

section
variable {u request answer : Utcb} {buf size : Word} {taken : Nat} {answers requests : List Utcb} {result : Option Bool}

theorem toNat_left (le : taken ≤ size.toNat) : (size - BitVec.ofNat 32 taken).toNat = size.toNat - taken := by
  have word := size.isLt
  rw [BitVec.toNat_sub, BitVec.toNat_ofNat]
  omega

theorem left_ne_zero (more : taken < size.toNat) : size - BitVec.ofNat 32 taken ≠ 0#32 := by
  intro zero
  have left := toNat_left (Nat.le_of_lt more)
  rw [zero, BitVec.toNat_zero] at left
  omega

/-- An item says the length of what is left only if it has a bit for each of its bits. -/
theorem offers_iff (le : taken ≤ size.toNat) :
    Offers buf size taken (writeRequest u (buf + BitVec.ofNat 32 taken) (size - BitVec.ofNat 32 taken)) ↔ size.toNat - taken < 2 ^ 22 := by
  have item : (writeRequest u (buf + BitVec.ofNat 32 taken) (size - BitVec.ofNat 32 taken)).mr termWriteBuf =
      Item.simpleString (size - BitVec.ofNat 32 taken) := rfl
  constructor
  · intro offers
    have length := offers.length
    rw [item, Item.length_simpleString, toNat_left le] at length
    omega
  · intro short
    refine ⟨rfl, ?_, ?_, rfl⟩
    · rw [item, Item.type_simpleString]
    · rw [item, Item.length_simpleString, toNat_left le]
      exact Nat.mod_eq_of_lt short

theorem not_acknowledges_of_refuses (refuses : Refuses answer) : ¬ Acknowledges answer := by
  rintro ⟨delivered, label⟩
  rcases refuses with failed | error
  · rw [failed] at delivered
    cases delivered
  · rw [error] at label
    exact absurd label (by decide)

/-- With bytes left, an honest write sends a message. -/
theorem Honest.offers (honest : Honest buf size taken answers requests result) (left : taken < size.toNat) :
    ∃ request rest, requests = request :: rest ∧ Offers buf size taken request := by
  cases honest with
  | complete => exact absurd left (Nat.lt_irrefl _)
  | waiting _ offers => exact ⟨_, [], rfl, offers⟩
  | refused _ _ offers _ => exact ⟨_, [], rfl, offers⟩
  | acknowledged _ offers _ _ _ => exact ⟨_, _, rfl, offers⟩

theorem Honest.after_refusal (honest : Honest buf size taken (answer :: answers) requests result) (left : taken < size.toNat)
    (refuses : Refuses answer) : result = some false ∧ requests.length = 1 := by
  cases honest with
  | complete => exact absurd left (Nat.lt_irrefl _)
  | refused _ _ _ _ => exact ⟨rfl, rfl⟩
  | acknowledged _ _ acknowledges _ _ => exact absurd acknowledges (not_acknowledges_of_refuses refuses)

theorem Honest.after_count (honest : Honest buf size taken (answer :: answers) (request :: requests) result) (left : taken < size.toNat)
    (acknowledges : Acknowledges answer) : Honest buf size (taken + written answer) answers requests result := by
  cases honest with
  | refused _ _ _ refuses => exact absurd acknowledges (not_acknowledges_of_refuses refuses)
  | acknowledged _ _ _ _ rest => exact rest

/-! ### The rounds of `term_write` -/

theorem termWrite_complete (u : Utcb) (buf : Word) (answers : List Utcb) : termWrite u buf 0#32 answers = ([], some true) := by
  unfold termWrite
  exact if_pos rfl

theorem termWrite_refused (some_ : size ≠ 0#32) (failed : ipcFailed (answer.mr 0) = true) (label : MsgTag.label (answer.mr 0) ≠ termWriteRet) :
    termWrite u buf size (answer :: answers) = ([writeRequest u buf size], some false) := by
  have gives_up : (ipcFailed (answer.mr 0) && MsgTag.label (answer.mr 0) != termWriteRet) = true := by simp [failed, label]
  unfold termWrite
  rw [if_neg some_]
  dsimp only
  rw [if_pos gives_up]

/-- Every other answer is taken for a count. -/
theorem termWrite_count (some_ : size ≠ 0#32) (taken : ¬ (ipcFailed (answer.mr 0) = true ∧ MsgTag.label (answer.mr 0) ≠ termWriteRet)) :
    termWrite u buf size (answer :: answers) =
      let run := termWrite answer (buf + answer.mr termWriteRetSize) (size - answer.mr termWriteRetSize) answers
      (writeRequest u buf size :: run.1, run.2) := by
  have goes_on : ¬ (ipcFailed (answer.mr 0) && MsgTag.label (answer.mr 0) != termWriteRet) = true := by simpa using taken
  rw [termWrite.eq_def]
  dsimp only
  rw [if_neg some_, if_neg goes_on]

theorem termWrite_silent (silent : (termWrite u buf size answers).1 = []) : (termWrite u buf size answers).2 = some true := by
  by_cases none_ : size = 0#32
  · rw [none_, termWrite_complete]
  · rw [termWrite.eq_def] at silent
    dsimp only at silent
    rw [if_neg none_] at silent
    cases answers with
    | nil => cases silent
    | cons answer answers =>
      dsimp only at silent
      split at silent
      · cases silent
      · cases silent

/-! ### One round -/

/-- What `term_write` does with a buffer of which `taken` bytes were taken before. -/
def writeRest (u : Utcb) (buf size : Word) (taken : Nat) (answers : List Utcb) : List Utcb × Option Bool :=
  termWrite u (buf + BitVec.ofNat 32 taken) (size - BitVec.ofNat 32 taken) answers

theorem honest_complete (u : Utcb) (buf size : Word) (answers : List Utcb) :
    Honest buf size size.toNat answers (writeRest u buf size size.toNat answers).1 (writeRest u buf size size.toNat answers).2 := by
  have zero : size - BitVec.ofNat 32 size.toNat = 0#32 := by rw [BitVec.ofNat_toNat, BitVec.setWidth_eq, BitVec.sub_self]
  rw [writeRest, zero, termWrite_complete]
  exact .complete answers

theorem honest_waiting (more : taken < size.toNat) :
    Honest buf size taken [] (writeRest u buf size taken []).1 (writeRest u buf size taken []).2 ↔ size.toNat - taken < 2 ^ 22 := by
  have waits : writeRest u buf size taken [] = ([writeRequest u (buf + BitVec.ofNat 32 taken) (size - BitVec.ofNat 32 taken)], none) := by
    unfold writeRest termWrite
    exact if_neg (left_ne_zero more)
  rw [waits, ← @offers_iff u buf size taken (Nat.le_of_lt more)]
  constructor
  · intro honest
    cases honest with
    | waiting _ offers => exact offers
  · exact .waiting more

theorem honest_refused (more : taken < size.toNat) (refuses : Refuses answer) :
    Honest buf size taken (answer :: answers) (writeRest u buf size taken (answer :: answers)).1
        (writeRest u buf size taken (answer :: answers)).2 ↔
      size.toNat - taken < 2 ^ 22 ∧ ipcFailed (answer.mr 0) = true ∧ MsgTag.label (answer.mr 0) ≠ termWriteRet := by
  have some_ := left_ne_zero more
  by_cases heard : ipcFailed (answer.mr 0) = true ∧ MsgTag.label (answer.mr 0) ≠ termWriteRet
  · rw [writeRest, termWrite_refused some_ heard.1 heard.2, ← @offers_iff u buf size taken (Nat.le_of_lt more)]
    constructor
    · intro honest
      obtain ⟨request, rest, same, offers⟩ := honest.offers more
      cases same
      exact ⟨offers, heard⟩
    · exact fun ⟨offers, _⟩ => .refused answers more offers refuses
  · rw [writeRest, termWrite_count some_ heard]
    refine iff_of_false (fun honest => ?_) fun both => heard both.2
    -- it would have to stop here, but the rest of the bytes is offered or all were taken
    obtain ⟨result, length⟩ := honest.after_refusal more refuses
    have silent := List.eq_nil_of_length_eq_zero (Nat.succ.inj length)
    rw [termWrite_silent silent] at result
    cases result

theorem writeRest_count (more : taken < size.toNat) (acknowledges : Acknowledges answer) : writeRest u buf size taken (answer :: answers) =
    let rest := writeRest answer buf size (taken + written answer) answers
    (writeRequest u (buf + BitVec.ofNat 32 taken) (size - BitVec.ofNat 32 taken) :: rest.1, rest.2) := by
  have delivered : ¬ (ipcFailed (answer.mr 0) = true ∧ MsgTag.label (answer.mr 0) ≠ termWriteRet) := by
    rintro ⟨failed, -⟩
    rw [acknowledges.1] at failed
    cases failed
  have count : answer.mr termWriteRetSize = BitVec.ofNat 32 (written answer) := by rw [written, BitVec.ofNat_toNat, BitVec.setWidth_eq]
  rw [writeRest, termWrite_count (left_ne_zero more) delivered, count, BitVec.add_assoc, ← BitVec.ofNat_add, BitVec.sub_sub, ← BitVec.ofNat_add]
  rfl

theorem honest_acknowledged (more : taken < size.toNat) (acknowledges : Acknowledges answer) (inside : taken + written answer ≤ size.toNat) :
    Honest buf size taken (answer :: answers) (writeRest u buf size taken (answer :: answers)).1
        (writeRest u buf size taken (answer :: answers)).2 ↔
      size.toNat - taken < 2 ^ 22 ∧ Honest buf size (taken + written answer) answers
        (writeRest answer buf size (taken + written answer) answers).1 (writeRest answer buf size (taken + written answer) answers).2 := by
  rw [writeRest_count more acknowledges, ← @offers_iff u buf size taken (Nat.le_of_lt more)]
  constructor
  · intro honest
    obtain ⟨request, rest, same, offers⟩ := honest.offers more
    cases same
    exact ⟨offers, honest.after_count more acknowledges⟩
  · exact fun ⟨offers, rest⟩ => .acknowledged more offers acknowledges inside rest

/-! ### All rounds -/

theorem heard_zero (answers : List Utcb) : Heard 0 answers := by
  cases answers with
  | nil => trivial
  | cons answer answers => exact .inl rfl

theorem heard_cons {remaining : Nat} (positive : 0 < remaining) : Heard remaining (answer :: answers) ↔
    if Refuses answer then ipcFailed (answer.mr 0) = true ∧ MsgTag.label (answer.mr 0) ≠ termWriteRet
    else Heard (remaining - written answer) answers := by
  rw [Heard]
  exact or_iff_right (Nat.ne_of_gt positive)

/-- By induction on the answers, from any byte of the buffer on. -/
theorem honest_iff (le : taken ≤ size.toNat) (valid : Answers (size.toNat - taken) answers) :
    Honest buf size taken answers (writeRest u buf size taken answers).1 (writeRest u buf size taken answers).2 ↔
      size.toNat - taken < 2 ^ 22 ∧ Heard (size.toNat - taken) answers := by
  induction answers generalizing u taken with
  | nil =>
    rcases Nat.eq_or_lt_of_le le with rfl | more
    · rw [Nat.sub_self]
      exact iff_of_true (honest_complete u buf size []) ⟨by decide, heard_zero []⟩
    · rw [honest_waiting more]
      exact (and_iff_left trivial).symm
  | cons answer answers ih =>
    rcases Nat.eq_or_lt_of_le le with rfl | more
    · rw [Nat.sub_self]
      exact iff_of_true (honest_complete u buf size _) ⟨by decide, heard_zero _⟩
    rw [heard_cons (Nat.sub_pos_of_lt more)]
    by_cases refuses : Refuses answer
    · rw [if_pos refuses]
      exact honest_refused more refuses
    · obtain zero | refuses' | ⟨acknowledges, inside, valid⟩ := valid
      · omega
      · exact absurd refuses' refuses
      have further : taken + written answer ≤ size.toNat := by omega
      rw [Nat.sub_sub] at valid
      rw [if_neg refuses, honest_acknowledged more acknowledges further, ih further valid, Nat.sub_sub]
      -- what is left after a count is shorter
      constructor
      · exact fun ⟨short, _, heard⟩ => ⟨short, heard⟩
      · exact fun ⟨short, heard⟩ => ⟨short, by omega, heard⟩

/-- Where an honest write returns `true`, the counts make up what was left. -/
theorem Honest.total (honest : Honest buf size taken answers requests result) (success : result = some true) :
    taken + ((answers.take requests.length).map written).sum = size.toNat := by
  induction honest with
  | complete => simp
  | waiting _ _ => cases success
  | refused _ _ _ _ => cases success
  | acknowledged _ _ _ _ _ ih =>
    rw [List.length_cons, List.take_succ_cons, List.map_cons, List.sum_cons, ← Nat.add_assoc]
    exact ih success

end

/-- `term_write` is honest if its buffer has less than four megabytes, and an error is only ever a failed IPC that does not look
like a count. -/
theorem termWrite_honest_iff (u : Utcb) (buf size : Word) (answers : List Utcb) (valid : Answers size.toNat answers) :
    Honest buf size 0 answers (termWrite u buf size answers).1 (termWrite u buf size answers).2 ↔
      size.toNat < 2 ^ 22 ∧ Heard size.toNat answers := by
  have whole := @honest_iff u buf size 0 answers (Nat.zero_le size.toNat) valid
  rwa [writeRest, BitVec.add_zero, BitVec.sub_zero] at whole

def blankUtcb : Utcb := ⟨0#32, 0#32, 0#32, 0#32, 0#32, fun _ => 0#32⟩

/-- The UTCB after a call that nobody answered. -/
def unanswered : Utcb := blankUtcb.setMr 0 (MsgTag.setError (MsgTag.mk 1 2 0#32 termWriteLabel))

theorem termWrite_honest_interrupted :
    let answers := [Terminal.writeAnswer blankUtcb 1#32, unanswered]
    Honest 0x20000000#32 2#32 0 answers (termWrite blankUtcb 0x20000000#32 2#32 answers).1
      (termWrite blankUtcb 0x20000000#32 2#32 answers).2 := by
  have valid : Answers 2 [Terminal.writeAnswer blankUtcb 1#32, unanswered] :=
    .inr (.inr ⟨by decide, by decide, .inr (.inl (by decide))⟩)
  have heard : Heard 2 [Terminal.writeAnswer blankUtcb 1#32, unanswered] := by
    refine .inr ?_
    rw [if_neg (by decide)]
    refine .inr ?_
    rw [if_pos (by decide)]
    decide
  exact (termWrite_honest_iff blankUtcb 0x20000000#32 2#32 _ valid).mpr ⟨by decide, heard⟩

/-- After `TERM_ERROR` with `EINVAL` the shell offers what is behind its buffer. -/
theorem termWrite_takes_error :
    let run := termWrite blankUtcb 0x20000000#32 2#32 [blankUtcb.makeIpcError termError .einval]
    Answers 2 [blankUtcb.makeIpcError termError .einval] ∧
      ¬ Honest 0x20000000#32 2#32 0 [blankUtcb.makeIpcError termError .einval] run.1 run.2 ∧
      run.1.map (fun request => (request.mr (termWriteBuf + 1), Item.length (request.mr termWriteBuf))) =
        [(0x20000000#32, 2), (0x20000016#32, 0x3FFFEC)] := by
  refine ⟨.inr (.inl (by decide)), fun honest => ?_, by decide⟩
  obtain ⟨result, -⟩ := honest.after_refusal (by decide) (by decide)
  exact absurd result (by decide)

/-! ### The pieces of `write_buffer` -/

theorem stringAt_append (byte : Word → Byte) (buf : Word) (offset m n : Nat) :
    stringAt byte (buf + BitVec.ofNat 32 offset) (m + n) =
      stringAt byte (buf + BitVec.ofNat 32 offset) m ++ stringAt byte (buf + BitVec.ofNat 32 (offset + m)) n := by
  unfold stringAt
  rw [List.range_add, List.map_append, List.map_map]
  congr 1
  apply List.map_congr_left
  intro i _
  dsimp only [Function.comp_apply]
  rw [BitVec.ofNat_add, BitVec.ofNat_add, BitVec.add_assoc, BitVec.add_assoc, BitVec.add_assoc]

/-- The pieces make up the rest of the buffer, and each is short enough for an item. -/
theorem writeBuffer_pieces (byte : Word → Byte) (buf : Word) (size offset : Nat) :
    ((writeBuffer buf size offset).map fun piece => stringAt byte piece.1 piece.2).flatten =
        stringAt byte (buf + BitVec.ofNat 32 offset) (size - offset) ∧
      ∀ piece ∈ writeBuffer buf size offset, 0 < piece.2 ∧ piece.2 ≤ 64 := by
  fun_induction writeBuffer buf size offset with
  | case1 offset more payloadSize ih =>
    obtain ⟨rest, short⟩ := ih
    constructor
    · rw [List.map_cons, List.flatten_cons, rest, ← stringAt_append]
      congr 1
      omega
    · exact List.forall_mem_cons.mpr ⟨by omega, short⟩
  | case2 offset done =>
    rw [Nat.sub_eq_zero_of_le (Nat.le_of_not_lt done)]
    exact ⟨rfl, by simp⟩

end BradypOS.Bsh
