import BradypOS.Root.Exec

/-!
# The segments in a message

An item that follows another one says so in its bit `c`. `add_mapping` sets it in every item, for
`load_executable` to clear it in the last one; what it clears is a bit of the register behind that.
-/

namespace BradypOS.Root

open L4 Elf Boot

/-- The first word of an item that is or is not followed by another one. -/
def withC (first : Word) (c : Bool) : Word := (first &&& ~~~1#32) ||| if c then 1#32 else 0#32

/-- The items are what the message has, each but the last one followed by another, and no register behind them was written. -/
structure WellFormedMapping (before : Utcb) (items : List MapItem) (message : Utcb) : Prop where
  typed : MsgTag.t (message.mr 0) = 2 * items.length
  words : ∀ i (less : i < items.length),
    message.mr (1 + i * 2) = withC items[i].first (i + 1 < items.length) ∧ message.mr (1 + i * 2 + 1) = items[i].second
  frame : ∀ j, 2 * items.length < j → message.mr j = before.mr j

/-- The registers while the segments are loaded. -/
structure Built (before : Utcb) (state : ElfLoadState) : Prop where
  count : state.mapCount = state.items.length
  small : state.items.length ≤ 7
  words : ∀ i (less : i < state.items.length),
    state.utcb.mr (1 + i * 2) = state.items[i].first ||| 1#32 ∧ state.utcb.mr (1 + i * 2 + 1) = state.items[i].second
  frame : ∀ j, 2 * state.items.length < j → state.utcb.mr j = before.mr j

/-- What is sent instead: every item is followed by another one, and the register behind the last one has lost its lowest bit. -/
structure Unpatched (before : Utcb) (items : List MapItem) (message : Utcb) : Prop where
  typed : MsgTag.t (message.mr 0) = 2 * items.length
  words : ∀ i (less : i < items.length),
    message.mr (1 + i * 2) = withC items[i].first true ∧ message.mr (1 + i * 2 + 1) = items[i].second
  behind : message.mr (2 * items.length + 1) = withC (before.mr (2 * items.length + 1)) false
  frame : ∀ j, 2 * items.length + 1 < j → message.mr j = before.mr j

section
variable {before : Utcb} {state state' : ElfLoadState} {fuel : Nat}

theorem Built.addMapping (h : Built before state) {item : MapItem} (added : state.addMapping item = some state') : Built before state' := by
  unfold ElfLoadState.addMapping at added
  split at added
  · cases added
  · rename_i room
    cases added
    have count := h.count
    unfold mrCount at room
    refine ⟨?_, ?_, ?_, ?_⟩
    · simp [count]
    · simp only [List.length_append, List.length_singleton]
      omega
    · intro i less
      dsimp only
      simp only [List.length_append, List.length_singleton] at less
      rw [count]
      rcases Nat.lt_or_eq_of_le (Nat.le_of_lt_succ less) with old | rfl
      · rw [Utcb.mr_setMr_other _ (by omega), Utcb.mr_setMr_other _ (by omega), Utcb.mr_setMr_other _ (by omega),
          Utcb.mr_setMr_other _ (by omega), List.getElem_append_left old]
        exact h.words i old
      · rw [Utcb.mr_setMr_other _ (by omega), Utcb.mr_setMr_same, Utcb.mr_setMr_same, List.getElem_concat_length rfl]
        exact ⟨rfl, rfl⟩
    · intro j beyond
      dsimp only at beyond ⊢
      simp only [List.length_append, List.length_singleton] at beyond
      rw [Utcb.mr_setMr_other _ (by omega), Utcb.mr_setMr_other _ (by omega)]
      exact h.frame j (by omega)

theorem Built.answer (h : Built before state) (addr location size perm : Word) : Built before (state.answer addr location size perm).2 := by
  unfold ElfLoadState.answer
  split
  · exact h
  · rename_i added
    exact h.addMapping added

theorem Built.afterPhdr (h : Built before state) {phdr : Phdr} (stepped : state.afterPhdr fuel phdr = some state') : Built before state' := by
  unfold ElfLoadState.afterPhdr at stepped
  dsimp only at stepped
  split at stepped
  · cases stepped
    exact h
  split at stepped
  · cases stepped
    exact h.answer _ _ _ _
  split at stepped
  · cases stepped
    exact h
  · obtain ⟨r, ran, rfl⟩ := Option.map_eq_some_iff.mp stepped
    obtain ⟨q, -, rfl⟩ := Option.map_eq_some_iff.mp ran
    have same : Built before { state with allocator := q.2 } := ⟨h.count, h.small, h.words, h.frame⟩
    dsimp only
    split
    · exact same
    · exact same.answer _ _ _ _

theorem or_one (w : Word) : w ||| 1#32 = withC w true := by
  ext i hi
  simp only [withC]
  interval_cases i <;> simp

theorem Built.mapMessage (h : Built before state) : Unpatched before state.items state.mapMessage := by
  have small := h.small
  unfold ElfLoadState.mapMessage
  rw [h.count, show 1 + state.items.length * 2 = 2 * state.items.length + 1 by omega]
  dsimp only
  refine ⟨?_, ?_, ?_, ?_⟩
  · rw [Utcb.mr_setMr_same, MsgTag.t_mk]
    omega
  · intro i less
    obtain ⟨first, second⟩ := h.words i less
    rw [Utcb.mr_setMr_other _ (by omega), Utcb.mr_setMr_other _ (by omega), Utcb.mr_setMr_other _ (by omega),
      Utcb.mr_setMr_other _ (by omega), Utcb.mr_setMr_other _ (by omega), Utcb.mr_setMr_other _ (by omega), first, second]
    exact ⟨or_one _, rfl⟩
  · rw [Utcb.mr_setMr_other _ (by omega), Utcb.mr_setMr_other _ (by omega), Utcb.mr_setMr_same, h.frame _ (by omega)]
    exact (BitVec.or_zero).symm
  · intro j beyond
    rw [Utcb.mr_setMr_other _ (by omega)]
    by_cases next : j = 2 * state.items.length + 1 + 1
    · rw [next, Utcb.mr_setMr_same]
      exact h.frame _ (by omega)
    · rw [Utcb.mr_setMr_other _ next, Utcb.mr_setMr_other _ (by omega)]
      exact h.frame j (by omega)

/-- The last item of such a message is followed by another one. -/
theorem Unpatched.not_wellFormed {items : List MapItem} {message : Utcb} (h : Unpatched before items message) (some_ : items ≠ []) :
    ¬ WellFormedMapping before items message := by
  intro wellFormed
  have positive := List.length_pos_iff.mpr some_
  have last : items.length - 1 < items.length := by omega
  have set := (h.words _ last).1
  have clear := (wellFormed.words _ last).1
  rw [set, decide_eq_false (by omega)] at clear
  have bit := congrArg (fun w => BitVec.getLsbD w 0) clear
  simp [withC] at bit

end

/-- The message with the segments of a program that is started is never well formed. -/
theorem mapping_malformed {fuel : Nat} {byte : Word → Byte} {sys : Syscalls} {allocator : Pages.Allocator} {utcb : Utcb} {elfBase : Word}
    {state : ElfLoadState} {sent : List Utcb} (ran : loadExecutable fuel byte sys allocator utcb elfBase = .returned true state sent)
    (some_ : state.items ≠ []) :
    ∃ message start, sent = [message, start] ∧ ¬ WellFormedMapping utcb state.items message ∧ Unpatched utcb state.items message := by
  obtain ⟨code, image, loaded, ⟨failed, -⟩ | ⟨-, spValue, both⟩⟩ := loadExecutable_returned ran
  · cases failed
  · have fresh : Built utcb ⟨elfBase, 0, allocator, utcb, []⟩ :=
      ⟨rfl, Nat.zero_le _, fun i less => absurd less (Nat.not_lt_zero i), fun _ _ => rfl⟩
    have built : Built utcb state := ElfLoadState.loadElfFile_invariant (fun _ _ _ h stepped => h.afterPhdr stepped) fresh loaded
    exact ⟨_, _, both, built.mapMessage.not_wellFormed some_, built.mapMessage⟩

/-- A program of one segment, which has a hash table of the three symbols. -/
def programBytes : List Byte :=
  elfHdrBytes 2#8 ++ phdrBytes ⟨ptLoad, 116#32, 0x8000#32, 0xC0#32, 0xC0#32, pfR ||| pfX, 4#32⟩ ++
    phdrBytes ⟨ptDynamic, 116#32, 0x8000#32, 40#32, 40#32, pfR, 4#32⟩ ++
    [17#32, 0x8028#32, 4#32, 0x8030#32, 5#32, 0x808C#32, 6#32, 0x804C#32, 0#32, 0#32, 0#32, 0#32,
      1#32, 4#32, 1#32, 0#32, 2#32, 3#32, 0#32,
      0#32, 0#32, 0#32, 0#32, 1#32, 0x8000#32, 0#32, 0#32, 8#32, 0x8010#32, 0#32, 0#32, 13#32, 0x8020#32, 0#32, 0#32].flatMap wordBytes ++
    [0#8] ++ utcbName ++ [0#8] ++ spName ++ [0#8] ++ gotName ++ [0#8]

def programByte (a : Word) : Byte := programBytes.getD (a - 0x10000000#32).toNat 0#8

def zeroUtcb : Utcb := ⟨0, 0, 0, 0, 0, fun _ => 0⟩

/-- Root starts it. -/
def startProgram : Exec :=
  loadExecutable 4 programByte ⟨true, true, true, true⟩ (Pages.initLinkedListAllocState (fun _ => 0) 0x20001800 516) zeroUtcb 0x10000000#32

set_option maxRecDepth 100000 in
theorem startProgram_returns : ∃ state message start, startProgram = .returned true state [message, start] ∧
    state.items = [segmentItem 0x10000074#32 0xC0#32 5#32] ∧ message.mr 1 = withC (segmentItem 0x10000074#32 0xC0#32 5#32).first true :=
  ⟨_, _, _, rfl, rfl, by decide⟩

theorem mapping_malformed_program : ∃ state message start, startProgram = .returned true state [message, start] ∧
    ¬ WellFormedMapping zeroUtcb state.items message := by
  obtain ⟨state, message, start, ran, items, -⟩ := startProgram_returns
  obtain ⟨message', start', sent, malformed, -⟩ := mapping_malformed ran (by simp [items])
  rw [sent] at ran
  exact ⟨state, message', start', ran, malformed⟩

theorem mapping_program_fails : ∃ state message start, startProgram = .returned true state [message, start] ∧
    state.items.length = 1 ∧ ¬ WellFormedMapping zeroUtcb state.items message := by
  obtain ⟨state, message, start, ran, items, first⟩ := startProgram_returns
  refine ⟨state, message, start, ran, by rw [items]; rfl, fun wellFormed => ?_⟩
  rw [items] at wellFormed
  have clear := (wellFormed.words 0 (by decide)).1
  rw [first] at clear
  exact absurd clear (by decide)

end BradypOS.Root
