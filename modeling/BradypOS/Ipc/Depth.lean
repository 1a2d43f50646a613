import BradypOS.Ipc.Stacked
import BradypOS.Kernel.Evaluate
import BradypOS.Theory.Loop

/-!
# How deep a call goes

A receiver that finds a waiting sender runs the sender's receive phase inside its own, while the
sender still looks like it waits. No search sees that another one served a thread, so the calls follow
the chain of searches of the state they began in: they nest no deeper than there are senders if it comes
to no thread twice, and without end if it does and every message is delivered.
-/

namespace BradypOS

open L4
open Theory (Turn Reaches ComesBack)

theorem bind_depth {α β : Type} {x : Fallible α} {f : α → Fallible β} (first : x ≠ .error .depth)
    (rest : ∀ a, x = .ok a → f a ≠ .error .depth) : x >>= f ≠ .error .depth := by
  intro deep
  rcases bind_error deep with deep | ⟨a, ok, deep⟩
  · exact first deep
  · exact rest a ok deep

theorem ok_depth {α : Type} {a : α} : (.ok a : Fallible α) ≠ .error .depth := by simp

/-- Two continuations that agree wherever the first has enough levels. -/
theorem bind_more {α β : Type} {x : Fallible α} {f g : α → Fallible β} (same : ∀ a, f a ≠ .error .depth → g a = f a)
    (enough : x >>= f ≠ .error .depth) : x >>= g = x >>= f := by
  cases x with
  | error e => rfl
  | ok a => exact same a enough

theorem Memory.copyItems_depth {src dst : Word} {last : Nat} {acceptor : Word} {fuel : Nat} {m : Memory} {i j b : Nat} :
    copyItems src dst last acceptor fuel m i j b ≠ .error .depth := by
  induction fuel generalizing m i j b with
  | zero => simp [copyItems]
  | succ fuel ih =>
    rw [copyItems]
    split
    · simp
    · dsimp only
      split
      · exact ih
      · split
        · simp
        · split
          · simp
          · split
            · simp
            · split
              · simp
              · exact ih
      all_goals simp

theorem Memory.copyPayload_depth {m : Memory} {src dst : Tcb} : m.copyPayload src dst ≠ .error .depth := by
  unfold Memory.copyPayload
  dsimp only
  split
  · simp
  · refine bind_depth copyItems_depth fun r _ => ?_
    obtain ⟨err, m', n⟩ := r
    dsimp only
    split <;> simp

theorem Alarms.findInsertionPointLoop_depth {a : Alarms} {time : Word} {fuel : Nat} {slot : EventSlot} :
    a.findInsertionPointLoop time fuel slot ≠ .error .depth := by
  induction fuel generalizing slot with
  | zero => simp [findInsertionPointLoop]
  | succ fuel ih =>
    rw [findInsertionPointLoop]
    split
    · simp
    · split
      · exact ih
      · simp

namespace Kernel

variable {k k' k₁ : Kernel} {c t : Nat}

/-! ### Nothing but nested calls uses up levels -/

theorem findIpcPartner_depth {who : Word} {sending : Bool} : k.findIpcPartner t who sending ≠ .error .depth := by
  have anylocal : ∀ fuel start, k.anylocalLoop t sending fuel start ≠ .error .depth := by
    intro fuel
    induction fuel with
    | zero => intro start; cases start <;> simp [anylocalLoop]
    | succ fuel ih =>
      intro start
      cases start with
      | none => simp [anylocalLoop]
      | some u =>
        rw [anylocalLoop]
        split
        · simp
        · exact ih _
  have siblings : ∀ fuel start, k.localLoop t who sending fuel start ≠ .error .depth := by
    intro fuel
    induction fuel with
    | zero => intro start; cases start <;> simp [localLoop]
    | succ fuel ih =>
      intro start
      cases start with
      | none => simp [localLoop]
      | some u =>
        rw [localLoop]
        split
        · split <;> simp
        · split
          · simp
          · exact ih _
  unfold findIpcPartner
  split
  · simp
  · split
    · unfold findIpcPartnerAnylocal
      split
      · simp
      · exact anylocal _ _
    · split
      · unfold findIpcPartnerLocal
        split
        · simp
        · exact siblings _ _
      · simp

theorem copyPayload_depth {src dst : Nat} : k.copyPayload src dst ≠ .error .depth :=
  bind_depth Memory.copyPayload_depth fun _ _ => ok_depth

theorem registerKevent_depth : k.registerKevent t ≠ .error .depth := by
  refine bind_depth (bind_depth Alarms.findInsertionPointLoop_depth fun ptr _ => ?_) fun _ _ => ok_depth
  refine bind_depth ?_ fun _ _ => ?_
  · unfold kassert
    split <;> simp
  · dsimp only
    split <;> simp

theorem phaseNotready_depth {w : Word} {timeout : Time} {st : ThreadState} {p : Bool} :
    k.phaseNotready t w timeout st p ≠ .error .depth := by
  refine bind_depth ?_ fun r _ => ?_
  · unfold setThreadTimeout
    split
    · simp
    · split
      · simp
      · split
        · simp
        · exact bind_depth registerKevent_depth fun _ _ => ok_depth
  · obtain ⟨blocks, k₁⟩ := r
    cases blocks <;> simp

theorem sendPagerMsg_depth {p : Nat} : k.sendPagerMsg t p ≠ .error .depth := by
  unfold sendPagerMsg
  dsimp only
  split
  · simp
  · refine bind_depth copyPayload_depth fun r _ => ?_
    split <;> simp

theorem ipcSend_depth {dest : Word} {timeout : Time} : k.ipcSend t dest timeout ≠ .error .depth := by
  unfold ipcSend
  split
  · simp
  · refine bind_depth findIpcPartner_depth fun search _ => ?_
    cases search with
    | found p =>
      refine bind_depth copyPayload_depth fun r _ => ?_
      dsimp only
      split <;> simp
    | pagerMsg p => exact sendPagerMsg_depth
    | nonexistent => simp
    | notready => exact phaseNotready_depth

/-- Only the receive phase of a sender that was found can run out of levels. -/
theorem ipcRecv_depth {receiveOf : Kernel → Nat → Fallible Kernel} {src : Word} {timeout : Time}
    (nested : ∀ s k₁, isNilThread src = false → k.findIpcPartner t src false = .ok (.found s) →
      k.copyPayload s t = .ok (.none, k₁) → receiveOf k₁ s ≠ .error .depth) : ipcRecv receiveOf k t src timeout ≠ .error .depth := by
  unfold ipcRecv
  split
  · simp
  · rename_i named
    refine bind_depth findIpcPartner_depth fun search found => ?_
    cases search with
    | found s =>
      refine bind_depth copyPayload_depth fun r copied => ?_
      obtain ⟨ret, k₁⟩ := r
      dsimp only
      split
      · rename_i none
        subst none
        exact bind_depth (nested s k₁ (eq_false_of_ne_true named) found copied) fun _ _ => ok_depth
      · simp
    | pagerMsg p => simp
    | nonexistent => simp
    | notready => exact phaseNotready_depth

/-! ### More levels than are needed change nothing -/

theorem ipcRecv_more {receiveOf receiveOf' : Kernel → Nat → Fallible Kernel} {src : Word} {timeout : Time}
    (same : ∀ k s, receiveOf k s ≠ .error .depth → receiveOf' k s = receiveOf k s)
    (enough : ipcRecv receiveOf k t src timeout ≠ .error .depth) :
    ipcRecv receiveOf' k t src timeout = ipcRecv receiveOf k t src timeout := by
  unfold ipcRecv at enough ⊢
  split
  · rfl
  · rename_i named
    rw [if_neg named] at enough
    refine bind_more (fun search enough => ?_) enough
    cases search with
    | found s =>
      refine bind_more (fun r enough => ?_) enough
      obtain ⟨ret, k₁⟩ := r
      dsimp only at enough ⊢
      split
      · rename_i none
        rw [if_pos none] at enough
        have rest : receiveOf k₁ s ≠ .error .depth := fun deep => enough (by rw [deep]; rfl)
        rw [same k₁ s rest]
      · rfl
    | pagerMsg p => rfl
    | nonexistent => rfl
    | notready => rfl

theorem doIpc_more {fuel more : Nat} {skip : Bool} (le : fuel ≤ more) (enough : doIpc fuel k t skip ≠ .error .depth) :
    doIpc more k t skip = doIpc fuel k t skip := by
  induction fuel generalizing more k t skip with
  | zero => exact absurd rfl enough
  | succ fuel ih =>
    obtain ⟨more, rfl⟩ : ∃ n, more = n + 1 := ⟨more - 1, by omega⟩
    rw [doIpc] at enough ⊢
    rw [doIpc]
    refine bind_more (fun sent enough => ?_) enough
    obtain ⟨r, k₁⟩ := sent
    cases r with
    | done =>
      have phase : ipcRecv (fun k s => doIpc fuel k s true) k₁ t (k.mem.frame (k.tcbs t).ctx.sp).r1
          (recvTimeout (k.mem.frame (k.tcbs t).ctx.sp).r2) ≠ .error .depth := by
        intro deep
        apply enough
        dsimp only
        rw [deep]
        rfl
      dsimp only
      rw [ipcRecv_more (fun k s enough => ih (by omega) enough) phase]
    | error => rfl
    | wait => rfl

/-! ### The chain of searches -/

/-- A thread, and the sender that its search finds. -/
def searchRound (k : Kernel) (t : Nat) : Theory.Turn Nat Unit :=
  if isNilThread (k.recvFrom t) then .exit ()
  else
    match k.findIpcPartner t (k.recvFrom t) false with
    | .ok (.found s) => .next s
    | _ => .exit ()

theorem searchRound_next {s : Nat} : k.searchRound t = .next s ↔
    isNilThread (k.recvFrom t) = false ∧ k.findIpcPartner t (k.recvFrom t) false = .ok (.found s) := by
  unfold searchRound
  cases nil : isNilThread (k.recvFrom t)
  · rw [if_neg Bool.false_ne_true]
    split
    · rename_i found
      rw [found]
      simp
    · rename_i other
      simpa using other s
  · simp

theorem reaches_found {n s : Nat} (reached : Reaches k.searchRound n c t) (named : isNilThread (k.recvFrom t) = false)
    (found : k.findIpcPartner t (k.recvFrom t) false = .ok (.found s)) : Reaches k.searchRound (n + 1) c s :=
  reached.loop_succ.trans (searchRound_next.mpr ⟨named, found⟩)

/-- The chain of searches from `c` comes to a thread twice. -/
def Circles (k : Kernel) (c : Nat) : Prop := ComesBack k.searchRound c

/-- The call has no send phase, or finds a partner for it. -/
def Receives (k : Kernel) (c : Nat) : Prop :=
  isNilThread (k.sendTo c) = true ∨
    ∃ p, k.findIpcPartner c (k.sendTo c) true = .ok (.found p) ∨ k.findIpcPartner c (k.sendTo c) true = .ok (.pagerMsg p)

theorem receives_of_done {timeout : Time} (h : k.ipcSend c (k.sendTo c) timeout = .ok (.done, k₁)) : k.Receives c := by
  have sent := sent_of_ipcSend h
  generalize hr : PhaseResult.done = r at sent
  cases sent with
  | skip nil => exact .inl nil
  | deliver named found => exact .inr ⟨_, .inl found⟩
  | start named found => exact .inr ⟨_, .inr found⟩
  | pagerDeliver named found => exact .inr ⟨_, .inr found⟩
  | refuse => cases hr
  | pagerRefuse => cases hr
  | missing => cases hr
  | block => cases hr
  | abort => cases hr

/-- Two kernels in which the chains of searches are the same. -/
structure SameChain (k k' : Kernel) : Prop extends SameSearch false k k' where
  wants : ∀ s, k.state s = .sendBlocked → k'.recvFrom s = k.recvFrom s

theorem SameChain.trans {k'' : Kernel} (h : SameChain k k') (h' : SameChain k' k'') : SameChain k k'' where
  toSameSearch := h.toSameSearch.trans h'.toSameSearch
  wants s sends := (h'.wants s ((h.waits s).mpr sends)).trans (h.wants s sends)

theorem SameChain.copied {src dst : Nat} {err : IpcErrorCode} (h : k.copyPayload src dst = .ok (err, k')) : SameChain k k' :=
  have same := copyPayload_same false h
  ⟨same.1, fun s _ => same.2.1 s⟩

theorem SameChain.sent {dest : Word} {timeout : Time} (h : k.ipcSend t dest timeout = .ok (.done, k')) : SameChain k k' :=
  have same := (sent_of_ipcSend h).same
  ⟨same.1, fun s sends => (same.2 s sends).1⟩

/-- Behind its first thread, the chain goes through senders that wait. -/
theorem waits_of_reaches {n : Nat} (reached : Reaches k.searchRound n c t) : t = c ∨ k.state t = .sendBlocked := by
  cases n with
  | zero => exact .inl (Turn.next.inj reached).symm
  | succ n =>
    obtain ⟨u, _, step⟩ := reached.before
    exact .inr (isReadyPartner_waits (findIpcPartner_found (searchRound_next.mp step).2))

/-- A sender that a search finds is the next of the chain. -/
theorem SameChain.onward {n s : Nat} (same : SameChain k k') (reached : Reaches k.searchRound n c t)
    (named : isNilThread (k.recvFrom t) = false) (found : k'.findIpcPartner t (k.recvFrom t) false = .ok (.found s)) :
    Reaches k.searchRound (n + 1) c s ∧ k.state s = .sendBlocked := by
  have found := (same.findPartner t (k.recvFrom t)).symm.trans found
  exact ⟨reaches_found reached named found, isReadyPartner_waits (findIpcPartner_found found)⟩

/-! ### A chain without a circle -/

variable {senders : Finset Nat}

/-- By induction on the levels that are left: every sender that is found is a new one. -/
theorem receive_depth {n fuel : Nat} {timeout : Time} (fresh : ¬ k.Circles c) (members : ∀ s, k.state s = .sendBlocked → s ∈ senders)
    (same : SameChain k k') (reached : Reaches k.searchRound n c t) (enough : senders.card ≤ fuel + n) :
    ipcRecv (fun k s => doIpc fuel k s true) k' t (k.recvFrom t) timeout ≠ .error .depth := by
  induction fuel generalizing k' t n timeout with
  | zero =>
    refine ipcRecv_depth fun s k₁ named found _ => ?_
    obtain ⟨further, _⟩ := same.onward reached named found
    have inside : ∀ m ≤ n + 1, ∀ u, Reaches k.searchRound m c u → u ∈ insert c senders := fun m _ u there =>
      Finset.mem_insert.mpr ((waits_of_reaches there).imp id (members u))
    have counted := further.lt_card fresh (insert c senders) inside
    have grown := Finset.card_insert_le c senders
    omega
  | succ fuel ih =>
    refine ipcRecv_depth fun s k₁ named found copied => ?_
    obtain ⟨further, sends⟩ := same.onward reached named found
    have later := same.trans (SameChain.copied copied)
    have nested : ipcRecv (fun k s => doIpc fuel k s true) k₁ s (k₁.recvFrom s) (k₁.recvTime s) ≠ .error .depth := by
      rw [later.wants s sends]
      exact ih later further (by omega)
    rw [doIpc]
    refine bind_depth ok_depth fun sent skipped => ?_
    cases skipped
    exact bind_depth nested fun _ _ => ok_depth

theorem call_depth (members : ∀ s, k.state s = .sendBlocked → s ∈ senders) (clear : ¬ (k.Receives c ∧ k.Circles c)) :
    doIpc (senders.card + 1) k c false ≠ .error .depth := by
  rw [doIpc]
  refine bind_depth ipcSend_depth fun sent phase => ?_
  obtain ⟨r, k₁⟩ := sent
  cases r with
  | error => simp
  | wait => simp
  | done =>
    have fresh : ¬ k.Circles c := fun circles => clear ⟨receives_of_done phase, circles⟩
    exact bind_depth (receive_depth fresh members (SameChain.sent phase) (Reaches.refl c) (Nat.le_refl _)) fun _ _ => ok_depth

end Kernel
end BradypOS
