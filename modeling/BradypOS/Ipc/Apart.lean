import BradypOS.Ipc.Intact
import BradypOS.Ipc.Waits
import BradypOS.Thread.Boot
import BradypOS.Thread.Kept
import BradypOS.Theory.Patch

/-!
# What a call leaves alone

A call writes the TCBs, the UTCBs and the saved frames of the threads that it involves. An `Area` is a set
of threads with the places in memory that are theirs; a change stays within it if it touches nothing else.
-/

namespace BradypOS

open L4

namespace Memory

variable {m m' : Memory}

theorem setUtcb_other (m : Memory) (f : Utcb → Utcb) {p q : Word} (other : q ≠ p) : (m.setUtcb p f).utcb q = m.utcb q :=
  Function.update_of_ne other _ _

theorem copyItems_utcb {src dst : Word} {last : Nat} {acceptor : Word} {fuel i j b n : Nat} {err : IpcErrorCode}
    (h : copyItems src dst last acceptor fuel m i j b = .ok (err, m', n)) {p : Word} (other : p ≠ dst) : m'.utcb p = m.utcb p := by
  induction fuel generalizing m i j b with
  | zero => cases h
  | succ fuel ih =>
    rw [copyItems] at h
    split at h
    · cases h; rfl
    · dsimp only at h
      split at h
      · rw [ih h, setUtcb_other _ _ other]
      · split at h
        · cases h; rfl
        · split at h
          · cases h
          · split at h
            · cases h
            · split at h
              · cases h; rfl
              · rw [ih h, setUtcb_other _ _ other, setUtcb_other _ _ other]
                rfl
      all_goals cases h

/-- A copied message is in the receiver's UTCB, and its sender in the receiver's frame. -/
theorem copyPayload_elsewhere {src dst : Tcb} {err : IpcErrorCode} (h : m.copyPayload src dst = .ok (err, m')) :
    (∀ p, p ≠ dst.utcb → m'.utcb p = m.utcb p) ∧ ∀ sp, sp ≠ dst.ctx.sp → m'.frame sp = m.frame sp := by
  unfold copyPayload at h
  dsimp only at h
  split at h
  · cases h
    exact ⟨fun _ _ => rfl, fun _ _ => rfl⟩
  · obtain ⟨⟨err, m₁, n⟩, copied, h⟩ := bind_ok h
    have utcb : ∀ p, p ≠ dst.utcb → m₁.utcb p = m.utcb p := fun p other => by
      rw [copyItems_utcb copied other, setUtcb_other _ _ other]
    have frame : m₁.frame = m.frame := by
      have kept := copyItems_frame copied
      exact kept
    dsimp only at h
    split at h
    · cases h
      exact ⟨utcb, fun sp _ => congrFun frame sp⟩
    · cases h
      refine ⟨fun p other => ?_, fun sp other => ?_⟩
      · rw [← utcb p other]
        exact Function.update_of_ne other _ _
      · rw [← frame]
        exact Function.update_of_ne other _ _

end Memory

/-- The threads between which an event says that a message was copied, or was not. -/
def Event.party : Event → Nat → Prop
  | .copied src dst, u => u = src ∨ u = dst
  | .failed t _ _, u => u = t
  | _, _ => False

/-- Threads, and the addresses of their UTCBs and saved frames. -/
structure Area where
  thread : Nat → Prop
  utcb : Word → Prop
  stack : Word → Prop

namespace Kernel

variable {k k' k'' : Kernel} {area : Area}

def Owns (area : Area) (k : Kernel) : Prop :=
  ∀ u, area.thread u → area.utcb (k.tcbs u).utcb ∧ area.stack (k.tcbs u).ctx.sp

/-- The record grew by events of these threads alone. -/
def Records (area : Area) (k k' : Kernel) : Prop :=
  ∃ es, k'.trace = es ++ k.trace ∧ ∀ e ∈ es, ∀ u, e.party u → area.thread u

theorem Records.trans (h : Records area k k') (h' : Records area k' k'') : Records area k k'' := by
  obtain ⟨es, grown, inside⟩ := h
  obtain ⟨es', grown', inside'⟩ := h'
  refine ⟨es' ++ es, by rw [grown', grown, List.append_assoc], fun e member => ?_⟩
  rcases List.mem_append.mp member with late | early
  · exact inside' e late
  · exact inside e early

theorem Records.of_trace (same : k'.trace = k.trace) : Records area k k' := ⟨[], same, nofun⟩

theorem Records.event {e : Event} (grown : k'.trace = e :: k.trace) (inside : ∀ u, e.party u → area.thread u) : Records area k k' := by
  refine ⟨[e], grown, fun e' member => ?_⟩
  rw [List.mem_singleton.mp member]
  exact inside

theorem Records.setThreadState (area : Area) (k : Kernel) (t : Nat) (st : ThreadState) : Records area k (k.setThreadState t st) := by
  have moved : Records area k (k.moveSchedule t st) := by
    unfold moveSchedule
    split
    · exact .event rfl nofun
    · split
      · unfold scheduleRemove
        split <;> exact .of_trace rfl
      · exact .of_trace rfl
  exact moved.trans (.event rfl nofun)

/-- Nothing outside of the area has changed, and what its threads now point to is still inside. -/
structure Within (area : Area) (k k' : Kernel) : Prop where
  owns : Owns area k'
  tcbs : ∀ u, ¬ area.thread u → k'.tcbs u = k.tcbs u
  utcb : ∀ p, ¬ area.utcb p → k'.mem.utcb p = k.mem.utcb p
  frame : ∀ sp, ¬ area.stack sp → k'.mem.frame sp = k.mem.frame sp
  records : Records area k k'

namespace Within

theorem of_same (owns : Owns area k) (tcbs : k'.tcbs = k.tcbs) (mem : k'.mem = k.mem) (records : Records area k k') :
    Within area k k' := by
  refine ⟨fun u here => ?_, fun u _ => congrFun tcbs u, fun p _ => by rw [mem], fun sp _ => by rw [mem], records⟩
  rw [tcbs]
  exact owns u here

theorem refl (owns : Owns area k) : Within area k k := of_same owns rfl rfl (.of_trace rfl)

theorem trans (h : Within area k k') (h' : Within area k' k'') : Within area k k'' :=
  ⟨h'.owns, fun u out => (h'.tcbs u out).trans (h.tcbs u out), fun p out => (h'.utcb p out).trans (h.utcb p out),
    fun sp out => (h'.frame sp out).trans (h.frame sp out), h.records.trans h'.records⟩

theorem log (h : Within area k k') {e : Event} (inside : ∀ u, e.party u → area.thread u) : Within area k (k'.log e) :=
  h.trans (of_same h.owns rfl rfl (.event rfl inside))

theorem setTcb (h : Within area k k') {t : Nat} (here : area.thread t) {f : Tcb → Tcb}
    (utcb : ∀ tcb, (f tcb).utcb = tcb.utcb) (stack : area.stack (f (k'.tcbs t)).ctx.sp) : Within area k (k'.setTcb t f) := by
  refine h.trans ⟨fun u inside => ?_, fun u out => setTcb_other _ _ _ _ (by rintro rfl; exact out here), fun _ _ => rfl, fun _ _ => rfl,
    .of_trace rfl⟩
  by_cases same : u = t
  · subst same
    rw [setTcb_same, utcb]
    exact ⟨(h.owns u inside).1, stack⟩
  · rw [setTcb_other _ _ _ _ same]
    exact h.owns u inside

theorem setThreadState (h : Within area k k') {t : Nat} (here : area.thread t) (st : ThreadState) :
    Within area k (k'.setThreadState t st) := by
  have tcbs : (k'.setThreadState t st).tcbs = (k'.setTcb t fun tcb => { tcb with state := st }).tcbs := setThreadState_tcbs ..
  have mem := @setThreadState_mem k' t st
  have set := h.setTcb here (f := fun tcb => { tcb with state := st }) (fun _ => rfl) (h.owns t here).2
  refine ⟨fun u inside => ?_, fun u out => ?_, fun p out => ?_, fun sp out => ?_, h.records.trans (.setThreadState area k' t st)⟩
  · rw [tcbs]
    exact set.owns u inside
  · rw [tcbs]
    exact set.tcbs u out
  · rw [mem]
    exact h.utcb p out
  · rw [mem]
    exact h.frame sp out

theorem setUtcb (h : Within area k k') {t : Nat} (here : area.thread t) (f : Utcb → Utcb) :
    Within area k (k'.setMem (k'.mem.setUtcb (k'.tcbs t).utcb f)) := by
  refine h.trans ⟨h.owns, fun _ _ => rfl, fun p out => Memory.setUtcb_other _ _ ?_, fun _ _ => rfl, .of_trace rfl⟩
  rintro rfl
  exact out (h.owns t here).1

theorem reportError (h : Within area k k') {t : Nat} (here : area.thread t) (p : Bool) (err : IpcErrorCode) :
    Within area k (k'.reportError t p err) := (h.setUtcb here _).log fun _ same => same ▸ here

theorem setIpcError (h : Within area k k') {t : Nat} (here : area.thread t) : Within area k (k'.setIpcError t) := h.setUtcb here _

theorem endError (h : Within area k k') {t : Nat} (here : area.thread t) (waits : ThreadState) :
    Within area k (k'.endIpc t waits .error) := (h.setIpcError here).setThreadState here .runnable

theorem copyPayload (h : Within area k k') {src dst : Nat} {err : IpcErrorCode} (sender : area.thread src) (here : area.thread dst)
    (copied : k'.copyPayload src dst = .ok (err, k'')) : Within area k k'' := by
  obtain ⟨mem, stored, rfl⟩ := copyPayload_spec copied
  obtain ⟨utcb, frame⟩ := Memory.copyPayload_elsewhere stored
  have written : Within area k (k'.setMem mem) := by
    refine h.trans ⟨h.owns, fun _ _ => rfl, fun p out => utcb p ?_, fun sp out => frame sp ?_, .of_trace rfl⟩
    · rintro rfl
      exact out (h.owns dst here).1
    · rintro rfl
      exact out (h.owns dst here).2
  split
  · refine written.log ?_
    rintro u (rfl | rfl)
    · exact sender
    · exact here
  · exact written

theorem setThreadTimeout (h : Within area k k') {t : Nat} {timeout : Time} {st : ThreadState} {blocks : Bool} (here : area.thread t)
    (armed : k'.setThreadTimeout t timeout st = .ok (blocks, k'')) : Within area k k'' := by
  rcases setThreadTimeout_cases armed with ⟨_, _, rfl⟩ | ⟨_, _, _, rfl⟩ | ⟨_, _, _, _, k₁, registered, rfl⟩
  · exact h.log nofun
  · exact h
  · have same : k₁.tcbs = k'.tcbs ∧ k₁.mem = k'.mem ∧ ∃ e₁ e₂, k₁.trace = e₁ :: e₂ :: k'.trace ∧ ∀ u, ¬ e₁.party u ∧ ¬ e₂.party u := by
      obtain ⟨alarms, rfl⟩ := registerKevent_frame registered
      exact ⟨rfl, rfl, _, _, rfl, fun _ => ⟨nofun, nofun⟩⟩
    obtain ⟨tcbs, mem, e₁, e₂, grown, quiet⟩ := same
    have records : Records area k' k₁ := by
      refine ⟨[e₁, e₂], grown, fun e member u party => ?_⟩
      simp only [List.mem_cons, List.not_mem_nil, or_false] at member
      rcases member with rfl | rfl
      · exact absurd party (quiet u).1
      · exact absurd party (quiet u).2
    exact (h.trans (of_same h.owns tcbs mem records)).setThreadState here st

theorem block (h : Within area k k') {t : Nat} (here : area.thread t) (w : Word) (st : ThreadState) :
    Within area k (k'.blocked t w st) :=
  (h.setTcb here (f := fun tcb => { tcb with ipcFrom := w }) (fun _ => rfl) (h.owns t here).2).setThreadState here st

theorem reject (h : Within area k k') {t s : Nat} (here : area.thread t) (sender : area.thread s) : Within area k (k'.rejected t s) :=
  ((((h.reportError here true _).reportError sender false _).setIpcError here).setIpcError sender).setThreadState sender .runnable

theorem unsend (h : Within area k k') {t p : Nat} (here : area.thread t) (partner : area.thread p) (err : IpcErrorCode) :
    Within area k (k'.unsent t p err) :=
  ((((h.reportError here false err).reportError partner true err).setIpcError here).setIpcError partner).setThreadState partner .runnable

theorem start (h : Within area k k') (pager : Nat) {p : Nat} (here : area.thread p)
    (stack : area.stack ((k'.mem.utcb (k'.tcbs pager).utcb).mr 2 - 32#32)) : Within area k (k'.pagerStartThread pager p) := by
  have context : Within area k (k'.startContext pager p) := by
    have placed := h.setTcb here (f := fun tcb => { tcb with ctx := { tcb.ctx with
      sp := (k'.mem.utcb (k'.tcbs pager).utcb).mr 2 - 32#32, ret := exceptionReturnToThread } }) (fun _ => rfl) stack
    refine placed.trans ⟨placed.owns, fun _ _ => rfl, fun _ _ => rfl, fun sp out => Function.update_of_ne ?_ _ _, .of_trace rfl⟩
    rintro rfl
    exact out stack
  exact (context.setThreadState here .runnable).log nofun

end Within

/-! ### The phases and the call -/

theorem Received.within {t : Nat} {src : Word} {timeout : Time} (h : Received k t src timeout k') (here : area.thread t)
    (served : ∀ s, Chain k t src s → area.thread s) (owns : Owns area k) : Within area k k' := by
  induction h with
  | skip nil => exact (Within.refl owns).setThreadState here .runnable
  | @serve k k₁ k₂ t s src timeout named found copied rest ih =>
    have same := copyPayload_same false copied
    have chain : ∀ u, Chain k₁ s (k₁.recvFrom s) u → Chain k t src u := by
      intro u chain
      have back := chain.congr same.1 fun s _ => same.2.1 s
      rw [same.2.1 s] at back
      exact .next named found back
    have sender := served s (.found named found)
    have first := (Within.refl owns).copyPayload sender here copied
    have later := ih sender (fun u chained => served u (chain u chained)) first.owns
    exact (first.trans later).setThreadState here .runnable
  | @refuse k k₁ t s src timeout err named found failed overflow =>
    have sender := served s (.found named found)
    have told := ((Within.refl owns).copyPayload sender here failed).reject here sender
    exact told.endError here .recvBlocked
  | missing named found => exact ((Within.refl owns).reportError here true _).endError here _
  | block named found armed => exact ((Within.refl owns).setThreadTimeout here armed).block here _ _
  | abort named found zero => exact ((Within.refl owns).reportError here true _).endError here _

theorem Sent.within {t : Nat} {dest : Word} {timeout : Time} {r : PhaseResult} (h : Sent k t dest timeout r k') (here : area.thread t)
    (partner : ∀ p, isNilThread dest = false → k.findIpcPartner t dest true = .ok (.found p) → area.thread p)
    (fresh : ∀ p, isNilThread dest = false → k.findIpcPartner t dest true = .ok (.pagerMsg p) → area.thread p)
    (stack : k.isStartMessage t → area.stack ((k.mem.utcb (k.tcbs t).utcb).mr 2 - 32#32)) (owns : Owns area k) : Within area k k' := by
  have noted : Within area k (k.log (.sending t dest)) := (Within.refl owns).log nofun
  cases h with
  | skip nil => exact .refl owns
  | deliver named found copied =>
    have receiver := partner _ named found
    exact (noted.copyPayload here receiver copied).setThreadState receiver .runnable
  | refuse named found failed overflow =>
    have receiver := partner _ named found
    exact (noted.copyPayload here receiver failed).unsend here receiver _
  | start named found message => exact noted.start t (fresh _ named found) (stack message)
  | pagerDeliver named found copied => exact noted.copyPayload here (fresh _ named found) copied
  | pagerRefuse named found failed overflow =>
    exact ((noted.copyPayload here (fresh _ named found) failed).reportError here false _).setIpcError here
  | missing named found => exact noted.reportError here false _
  | block named found armed =>
    have timed := noted.setThreadTimeout here armed
    exact timed.setTcb here (fun _ => rfl) (timed.owns t here).2
  | abort named found zero => exact noted.reportError here false _

/-- A call stays within the threads that it involves, if a thread that it starts gets its stack there too. -/
theorem Called.within {t : Nat} (h : Called k t k') (involved : ∀ u, Involved k t u → area.thread u)
    (stack : k.isStartMessage t → area.stack ((k.mem.utcb (k.tcbs t).utcb).mr 2 - 32#32)) (owns : Owns area k) : Within area k k' := by
  have here := involved t .caller
  have sends : ∀ {r : PhaseResult} {k₁ : Kernel}, Sent k t (k.sendTo t) (k.sendTime t) r k₁ → Within area k k₁ :=
    fun sent => sent.within here (fun p named found => involved p (.receiver named found))
      (fun p named found => involved p (.started named found)) stack owns
  cases h with
  | receives sent received =>
    have first := sends sent
    exact first.trans (received.within here (fun s chain => involved s (.sender (sent.chain chain))) first.owns)
  | fails sent => exact (sends sent).endError here .sendBlocked
  | waits sent => exact (sends sent).setThreadState here .sendBlocked

/-- Whoever a call involves is its caller, waits, or can be started. -/
theorem Involved.takes_part {c u : Nat} (h : Involved k c u) : u = c ∨ k.Waits u ∨ k.state u = .active := by
  cases h with
  | caller => exact .inl rfl
  | receiver _ found => exact .inr (.inl (.inr (isReadyPartner_waits (findIpcPartner_found found))))
  | started _ found => exact .inr (.inr (findIpcPartner_pagerMsg found).2.1)
  | sender chain => exact .inr (.inl (.inl chain.waits))

end Kernel

/-! ### A thread that takes no part -/

namespace Ipc

open Kernel

variable {k k' : Kernel} {t : Nat}

def Participates (k : Kernel) (u : Nat) : Prop := k.Listed u ∨ k.Waits u ∨ k.state u = .active

/-- All that belongs to the other threads. -/
def around (k : Kernel) (t : Nat) : Area where
  thread u := u ≠ t ∧ Participates k u
  utcb p := p ≠ (k.tcbs t).utcb
  stack sp := sp ≠ (k.tcbs t).ctx.sp

/-- `THREAD_CTX_STACK_WORD_COUNT` words. -/
def frameSize : Nat := 32

/-- An area outside of the thread's UTCB and of the frame at its saved stack pointer. -/
def Clear (k : Kernel) (t : Nat) (a : Word) (n : Nat) : Prop :=
  Theory.Apart (Memory.area a n) (Memory.area (k.tcbs t).utcb utcbSize.toNat) ∧ Theory.Apart (Memory.area a n) (Memory.area (k.tcbs t).ctx.sp frameSize)

/-- The buffers that a UTCB has for strings. -/
def BuffersClear (k : Kernel) (t : Nat) (u : Utcb) : Prop := ∀ i < 4, Clear k t (u.br (2 * i + 2)) (Item.length (u.br (2 * i + 1)))

/-- A call of another thread, whose code wrote neither the UTCB nor the saved frame of `t`, and which neither has its own stack
nor starts a thread where these are. No thread that takes part has its receive buffers there. -/
def Elsewhere (t : Nat) (k : Kernel) : Action → Prop
  | .call caller cpu mem _ =>
    caller ≠ t ∧ Clear k t cpu.sp frameSize ∧ mem.utcb (k.tcbs t).utcb = k.mem.utcb (k.tcbs t).utcb ∧
      mem.frame (k.tcbs t).ctx.sp = k.mem.frame (k.tcbs t).ctx.sp ∧
      Clear k t ((mem.utcb (k.tcbs caller).utcb).mr 2 - BitVec.ofNat 32 frameSize) frameSize ∧
      ∀ u, u ≠ t → Participates k u → BuffersClear k t (mem.utcb (k.tcbs u).utcb)
  | .timeout _ => True

theorem Clear.ne {a : Word} {n : Nat} (clear : Clear k t a n) (some : 0 < n) : a ≠ (k.tcbs t).utcb ∧ a ≠ (k.tcbs t).ctx.sp := by
  have base : ∀ {b : Word} {m : Nat}, 0 < m → b ∈ Memory.area b m := fun {b m} pos => by
    show (b - b).toNat < m
    rw [BitVec.sub_self]
    exact pos
  obtain ⟨utcb, frame⟩ := clear
  refine ⟨fun same => ?_, fun same => ?_⟩
  · exact utcb a (base some) (same ▸ base (by decide))
  · exact frame a (base some) (same ▸ base (by decide))

/-- What a run of the others' calls leaves of a thread. -/
structure Untouched (t : Nat) (k k' : Kernel) : Prop where
  tcb : k'.tcbs t = k.tcbs t
  utcb : k'.mem.utcb (k.tcbs t).utcb = k.mem.utcb (k.tcbs t).utcb
  frame : k'.mem.frame (k.tcbs t).ctx.sp = k.mem.frame (k.tcbs t).ctx.sp

/-- The others stay who they are and have their own places. -/
structure Around (t : Nat) (k k' : Kernel) : Prop extends Untouched t k k' where
  owns : Owns (around k t) k'
  participates : ∀ u, Participates k' u → Participates k u

theorem Around.within {k₁ : Kernel} (a : Around t k k₁) (h : Within (around k t) k₁ k') (table : SameTable k₁ k') : Around t k k' := by
  refine ⟨⟨?_, ?_, ?_⟩, h.owns, fun u takes => ?_⟩
  · rw [h.tcbs t fun inside => inside.1 rfl, a.tcb]
  · rw [h.utcb _ fun inside => inside rfl, a.utcb]
  · rw [h.frame _ fun inside => inside rfl, a.frame]
  · by_cases inside : (around k t).thread u
    · exact inside.2
    · apply a.participates u
      unfold Participates Waits Kernel.state at takes ⊢
      rwa [h.tcbs u inside, table.listed] at takes

theorem Around.trap {k₁ : Kernel} {caller fuel : Nat} {cpu : Context} {mem : Memory} (a : Around t k k₁) (listed : k₁.Listed caller)
    (elsewhere : Elsewhere t k₁ (.call caller cpu mem fuel)) : Around t k (trapped k₁ caller cpu mem) := by
  obtain ⟨other, stack, utcb, frame, -⟩ := elsewhere
  have stack := (stack.ne (by decide)).2
  have tcbs : ∀ u, u ≠ caller → (trapped k₁ caller cpu mem).tcbs u = k₁.tcbs u := fun u apart => by
    rw [trapped_tcbs, Function.update_of_ne apart]
  rw [a.tcb] at stack utcb frame
  refine ⟨⟨?_, ?_, ?_⟩, fun u inside => ?_, fun u takes => ?_⟩
  · rw [tcbs t other.symm, a.tcb]
  · rw [trapped_mem, utcb, a.utcb]
  · rw [trapped_mem, frame, a.frame]
  · by_cases here : u = caller
    · subst here
      rw [trapped_tcbs, Function.update_self]
      exact ⟨(a.owns u inside).1, stack⟩
    · rw [tcbs u here]
      exact a.owns u inside
  · by_cases here : u = caller
    · subst here
      exact a.participates u (.inl listed)
    · apply a.participates u
      unfold Participates Waits Kernel.state at takes ⊢
      rwa [tcbs u here, (trapped_table k₁ caller cpu mem).listed] at takes

theorem Around.step {k₁ : Kernel} {a : Action} (idle : ¬ k.Waits t) (started : k.state t ≠ .active) (h : Around t k k₁)
    (elsewhere : Elsewhere t k₁ a) (step : Step k₁ a k') : Around t k k' := by
  have same : ∀ {k₂ : Kernel}, Around t k k₂ → ¬ k₂.Waits t ∧ k₂.state t ≠ .active := fun {k₂} h₂ => by
    have state : k₂.state t = k.state t := congrArg Tcb.state h₂.tcb
    unfold Waits at idle ⊢
    rw [state]
    exact ⟨idle, started⟩
  obtain ⟨enabled, effect⟩ := step
  cases a with
  | call caller cpu mem fuel =>
    have trap := h.trap enabled.1 elsewhere
    have called := call_spec effect
    have involved : ∀ u, Involved (trapped k₁ caller cpu mem) caller u → (around k t).thread u := by
      intro u takes
      rcases takes.takes_part with rfl | waits | active
      · exact ⟨elsewhere.1, h.participates u (.inl enabled.1)⟩
      · exact ⟨by rintro rfl; exact (same trap).1 waits, trap.participates u (.inr (.inl waits))⟩
      · exact ⟨by rintro rfl; exact (same trap).2 active, trap.participates u (.inr (.inr active))⟩
    refine trap.within (called.within involved (fun _ => ?_) trap.owns) called.kept.sameTable
    have utcb : ((trapped k₁ caller cpu mem).tcbs caller).utcb = (k₁.tcbs caller).utcb := by rw [trapped_tcbs, Function.update_self]
    rw [trapped_mem, utcb]
    have stack := (elsewhere.2.2.2.2.1.ne (by decide)).2
    rw [h.tcb] at stack
    exact stack
  | timeout data =>
    cases effect
    rcases timeout_cases k₁ data with nobody | ⟨u, _, waits, timed⟩
    · rw [nobody]
      exact h
    · have here : (around k t).thread u := ⟨by rintro rfl; exact (same h).1 waits, h.participates u (.inr (.inl waits))⟩
      rw [timed]
      have woken := ((((Within.refl h.owns).setIpcError here).reportError here (decide (k₁.state u = .recvBlocked)) .timeout).setThreadState here
        .runnable).log (e := .timedOut u) nofun
      exact h.within woken (Released.timedOut k₁ u).toSameTable

/-- `Clear`, where areas that begin far enough from one another do not meet. -/
def Distant (k : Kernel) (t : Nat) (a : Word) (n : Nat) : Prop :=
  (n ≤ ((k.tcbs t).utcb - a).toNat ∧ utcbSize.toNat ≤ (a - (k.tcbs t).utcb).toNat) ∧
    n ≤ ((k.tcbs t).ctx.sp - a).toNat ∧ frameSize ≤ (a - (k.tcbs t).ctx.sp).toNat

instance (k : Kernel) (t : Nat) (a : Word) (n : Nat) : Decidable (Distant k t a n) := inferInstanceAs (Decidable ((_ ∧ _) ∧ _ ∧ _))

theorem apart_of_far {a b : Word} {n m : Nat} (ahead : n ≤ (b - a).toNat) (behind : m ≤ (a - b).toNat) :
    Theory.Apart (Memory.area a n) (Memory.area b m) := by
  intro p first second
  have first : (p - a).toNat < n := first
  have second : (p - b).toNat < m := second
  simp only [BitVec.toNat_sub] at *
  omega

theorem Distant.clear {a : Word} {n : Nat} (far : Distant k t a n) : Clear k t a n :=
  ⟨apart_of_far far.1.1 far.1.2, apart_of_far far.2.1 far.2.2⟩

end Ipc
end BradypOS
