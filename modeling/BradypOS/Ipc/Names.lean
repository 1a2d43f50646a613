import BradypOS.Ipc.Waits

/-!
# Whom waiting senders name

Senders that wait named listed threads, and want to receive from such threads or from anyone. A search for a sender then
finds one that named the thread that searches, as long as no thread's local id is the global id of another one.
-/

namespace BradypOS

open L4

namespace Kernel

variable {k k' : Kernel}

/-- What holds of the words that waiting senders gave: they name listed threads. -/
structure Setting (k : Kernel) : Prop where
  population : Population k
  locals : ∀ t u, k.Listed t → k.Listed u → (k.tcbs t).localId = (k.tcbs u).globalId → t = u
  names : ∀ s, k.Listed s → k.state s = .sendBlocked → ∃ d, k.Listed d ∧ (k.tcbs s).ipcFrom = (k.tcbs d).globalId
  wants : ∀ s, k.Listed s → k.state s = .sendBlocked → k.Source (k.recvFrom s)

namespace Setting

theorem released (s : Setting k) (h : Released k k') : Setting k' where
  population := s.population.transfer h.toSameTable
  locals t u ht hu := by
    rw [h.localId, h.globalId]
    exact s.locals t u ((h.listed t).mp ht) ((h.listed u).mp hu)
  names t ht sends := by
    obtain ⟨d, hd, same⟩ := s.names t ((h.listed t).mp ht) (h.state t (.inl sends) ▸ sends)
    exact ⟨d, (h.listed d).mpr hd, by rw [h.ipcFrom t (.inl sends), h.globalId]; exact same⟩
  wants t ht sends := by
    rw [h.recvFrom (.inl sends), h.source]
    exact s.wants t ((h.listed t).mp ht) (h.state t (.inl sends) ▸ sends)

theorem blocked {t : Nat} {w : Word} {st : ThreadState} (s : Setting k) (b : Blocked k t w st k')
    (names : st = .sendBlocked → ∃ d, k.Listed d ∧ w = (k.tcbs d).globalId)
    (wants : st = .sendBlocked → k.Source (k.recvFrom t)) : Setting k' where
  population := s.population.transfer b.table
  locals u v hu hv := by
    have localId : (k'.tcbs u).localId = (k.tcbs u).localId := by
      rw [b.tcbs]
      by_cases here : u = t
      · subst here; rw [Function.update_self]
      · rw [Function.update_of_ne here]
    rw [localId, b.table.globalId]
    exact s.locals u v ((b.table.listed u).mp hu) ((b.table.listed v).mp hv)
  names u hu sends := by
    by_cases here : u = t
    · subst here
      obtain ⟨state, same⟩ := b.here
      obtain ⟨d, hd, name⟩ := names (state.symm.trans sends)
      exact ⟨d, (b.table.listed d).mpr hd, by rw [same, b.table.globalId]; exact name⟩
    · obtain ⟨d, hd, name⟩ := s.names u ((b.table.listed u).mp hu) (b.state_others here ▸ sends)
      exact ⟨d, (b.table.listed d).mpr hd, by rw [b.others here, b.table.globalId]; exact name⟩
  wants u hu sends := by
    have kept : k'.recvFrom u = k.recvFrom u := by
      unfold recvFrom
      rw [b.mem, b.tcbs]
      by_cases here : u = t
      · subst here; rw [Function.update_self]
      · rw [Function.update_of_ne here]
    rw [kept, b.table.source]
    by_cases here : u = t
    · subst here
      exact wants (b.here.1.symm.trans sends)
    · exact s.wants u ((b.table.listed u).mp hu) (b.state_others here ▸ sends)

theorem partner {t s : Nat} {src : Word} (set : Setting k) (ht : k.Listed t) (allowed : k.Source src)
    (named : isNilThread src = false) (found : k.findIpcPartner t src false = .ok (.found s)) :
    k.Listed s ∧ k.state s = .sendBlocked ∧ (k.tcbs s).ipcFrom = (k.tcbs t).globalId := by
  obtain ⟨hs, _⟩ := set.population.found_listed allowed named found
  have ready := findIpcPartner_found found
  have sends : k.state s = .sendBlocked := isReadyPartner_waits ready
  refine ⟨hs, sends, ?_⟩
  obtain ⟨d, hd, name⟩ := set.names s hs sends
  obtain ⟨notAny, notLocal, _⟩ := set.population.ordinary d hd
  have viable : k.isViableIpcPartner t s = true := (Bool.and_eq_true_iff.mp ready).2
  simp only [isViableIpcPartner, Bool.or_eq_true, Bool.and_eq_true, decide_eq_true_eq] at viable
  rcases viable with ((any | ⟨anyLocal, _⟩) | same) | byLocal
  · exact absurd (name.symm.trans any) notAny
  · exact absurd (name.symm.trans anyLocal) notLocal
  · exact same
  · rw [set.locals t d ht hd (byLocal.symm.trans name)]
    exact name

end Setting

/-- A destination that names a listed thread leads a search to this thread alone. -/
theorem Population.named {t p : Nat} {dest : Word} (population : Population k) (allowed : k.Destination dest)
    (named : isNilThread dest = false)
    (found : k.findIpcPartner t dest true = .ok (.found p) ∨ k.findIpcPartner t dest true = .ok (.pagerMsg p)) :
    k.Listed p ∧ dest = (k.tcbs p).globalId := by
  rcases allowed with nil | ⟨d, hd, rfl⟩
  · rw [named] at nil
    cases nil
  · rcases found with found | fresh
    · obtain ⟨hp, any | same⟩ := population.found_listed (.inr (.inr ⟨d, hd, rfl⟩)) named found
      · exact absurd any (population.ordinary d hd).1
      · exact ⟨hp, same⟩
    · have found := (findIpcPartner_pagerMsg fresh).1
      rw [population.finds d hd] at found
      cases found
      exact ⟨hd, rfl⟩

end Kernel

namespace Ipc

open Kernel

variable {k : Kernel}

/-! ### What a computation can check -/

def permitted (k : Kernel) : Action → Bool
  | .call _ cpu mem _ =>
    let named := fun w => isNilThread w || decide (∃ i < k.threadCount, w = (k.tcbs (k.threadList i)).globalId)
    named (mem.frame cpu.sp).r0 && ((mem.frame cpu.sp).r1 = anyThread || named (mem.frame cpu.sp).r1) &&
      decide (∀ i < k.threadCount, k.state (k.threadList i) = .sendBlocked →
        (mem.frame (k.tcbs (k.threadList i)).ctx.sp).r1 = k.recvFrom (k.threadList i))
  | .timeout _ => true

theorem allowed_of_permitted {a : Action} (h : permitted k a = true) : Allowed k a := by
  cases a with
  | timeout data => trivial
  | call caller cpu mem fuel =>
    simp only [permitted, Bool.and_eq_true, Bool.or_eq_true, decide_eq_true_eq] at h
    obtain ⟨⟨dest, src⟩, frames⟩ := h
    have listed : ∀ {w : Word}, (isNilThread w = true ∨ ∃ i < k.threadCount, w = (k.tcbs (k.threadList i)).globalId) →
        k.Destination w := by
      rintro w (nil | ⟨i, hi, same⟩)
      · exact .inl nil
      · exact .inr ⟨k.threadList i, ⟨i, hi, rfl⟩, same⟩
    refine ⟨listed dest, src.imp id listed, ?_⟩
    rintro s ⟨i, hi, rfl⟩ sends
    exact frames i hi sends

end Ipc
end BradypOS
