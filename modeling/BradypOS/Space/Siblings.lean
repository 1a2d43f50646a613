import BradypOS.Theory.Chain
import BradypOS.Thread.Kept
import BradypOS.Thread.Boot
import BradypOS.Syscall.Outcomes

/-!
# The siblings of an address space

The threads of a space are linked into a list that starts at the space's first thread. What
`thread_control` and `space_control` do to the links, step by step.
-/

namespace BradypOS.Kernel

open L4

variable {k k' : Kernel} {as t d : Nat} {list : List Nat}

def nextOf (k : Kernel) (link : Option Nat) : Option Nat := link.bind fun t => (k.tcbs t).nextSibling

/-- A live thread of the space. -/
def InSpace (k : Kernel) (as t : Nat) : Prop := k.allocated t = true ∧ (k.tcbs t).addressSpace = some as

/-- The siblings from the first thread on are `list`: all threads of the space, each linked back to the one before it. -/
structure Siblings (k : Kernel) (as : Nat) (list : List Nat) : Prop where
  chain : Theory.Chain k.nextOf none (some (k.asPool as).firstThread) (list.map some)
  members : ∀ t, t ∈ list ↔ k.InSpace as t
  prev : list.IsChain fun a b => (k.tcbs b).prevSibling = some a

namespace Siblings

theorem nodup (s : Siblings k as list) : list.Nodup := List.Nodup.of_map _ s.chain.nodup

theorem first (s : Siblings k as list) : ∃ rest, list = (k.asPool as).firstThread :: rest := by
  have path := s.chain.path
  cases list with
  | nil => cases path
  | cons t rest =>
    have here : some (k.asPool as).firstThread = some t := path.1
    exact ⟨rest, by rw [Option.some.inj here]⟩

/-- The siblings depend on the space's first thread and on the links and spaces of the live threads. -/
theorem congr (s : Siblings k as list) (firstThread : (k'.asPool as).firstThread = (k.asPool as).firstThread)
    (same : ∀ t, k'.InSpace as t ↔ k.InSpace as t)
    (links : ∀ t, k.InSpace as t → (k'.tcbs t).nextSibling = (k.tcbs t).nextSibling ∧
      (k'.tcbs t).prevSibling = (k.tcbs t).prevSibling) : Siblings k' as list := by
  refine ⟨?_, fun t => (s.members t).trans (same t).symm, ?_⟩
  · rw [firstThread]
    refine s.chain.frame fun n member => ?_
    obtain ⟨t, listed, rfl⟩ := List.mem_map.mp member
    exact (links t ((s.members t).mp listed)).1
  · refine s.prev.imp_of_mem_imp fun a b _ listed back => ?_
    rw [(links b ((s.members b).mp listed)).2]
    exact back

end Siblings

/-- Every space in use has its list, and no live thread is in a space that is not in use. -/
structure Spaced (k : Kernel) : Prop where
  lists : ∀ as, k.asAllocated as = true → ∃ list, Siblings k as list
  owned : ∀ t as, k.InSpace as t → k.asAllocated as = true

theorem Spaced.congr (s : Spaced k) (allocated : k'.asAllocated = k.asAllocated)
    (firstThread : ∀ as, (k'.asPool as).firstThread = (k.asPool as).firstThread)
    (same : ∀ as t, k'.InSpace as t ↔ k.InSpace as t)
    (links : ∀ as t, k.InSpace as t → (k'.tcbs t).nextSibling = (k.tcbs t).nextSibling ∧
      (k'.tcbs t).prevSibling = (k.tcbs t).prevSibling) : Spaced k' := by
  refine ⟨fun as used => ?_, fun t as here => ?_⟩
  · rw [allocated] at used
    obtain ⟨list, l⟩ := s.lists as used
    exact ⟨list, l.congr (firstThread as) (same as) (links as)⟩
  · rw [allocated]
    exact s.owned t as ((same as t).mp here)

theorem Spaced.stable (s : Spaced k) (h : Stable k k') : Spaced k' := by
  have field : ∀ t, (k'.tcbs t).addressSpace = (k.tcbs t).addressSpace ∧ (k'.tcbs t).nextSibling = (k.tcbs t).nextSibling ∧
      (k'.tcbs t).prevSibling = (k.tcbs t).prevSibling := by
    intro t
    obtain ⟨_, _, _, same⟩ := h.tcbs t
    rw [same]
    exact ⟨rfl, rfl, rfl⟩
  refine s.congr h.asAllocated (fun as => by rw [h.asPool]) (fun as t => ?_) fun _ t _ => (field t).2
  unfold InSpace
  rw [h.allocated, (field t).1]

/-! ### Deleting a thread -/

/-- The first of the two writes of `delete_thread` to its neighbours' links. -/
def patchNext (k : Kernel) (d : Nat) : Kernel :=
  match (k.tcbs d).nextSibling with
  | none => k
  | some n => k.setTcb n fun tcb => { tcb with prevSibling := (k.tcbs d).prevSibling }

theorem patchNext_links (k : Kernel) (d t : Nat) :
    ((k.patchNext d).tcbs t).nextSibling = (k.tcbs t).nextSibling ∧ ((k.patchNext d).tcbs t).prevSibling =
      if (k.tcbs d).nextSibling = some t then (k.tcbs d).prevSibling else (k.tcbs t).prevSibling := by
  unfold patchNext
  cases next : (k.tcbs d).nextSibling with
  | none => simp
  | some n =>
    by_cases here : t = n
    · subst here
      simp [setTcb_same]
    · simp [setTcb_other _ _ _ _ here, Ne.symm here]

theorem unlinkSiblings_links (k : Kernel) (d t : Nat) :
    ((k.unlinkSiblings d).tcbs t).nextSibling =
        (if (k.tcbs d).prevSibling = some t then (k.tcbs d).nextSibling else (k.tcbs t).nextSibling) ∧
      ((k.unlinkSiblings d).tcbs t).prevSibling =
        (if (k.tcbs d).nextSibling = some t then (k.tcbs d).prevSibling else (k.tcbs t).prevSibling) := by
  have links := k.patchNext_links d
  have split_ : k.unlinkSiblings d = match ((k.patchNext d).tcbs d).prevSibling with
      | none => k.patchNext d
      | some p => (k.patchNext d).setTcb p fun tcb => { tcb with nextSibling := ((k.patchNext d).tcbs d).nextSibling } := rfl
  rw [split_]
  generalize k.patchNext d = k₁ at links
  have own : (k₁.tcbs d).prevSibling = (k.tcbs d).prevSibling := by
    rw [(links d).2]
    split <;> rfl
  rw [own]
  cases prev : (k.tcbs d).prevSibling with
  | none => simpa [prev] using links t
  | some p =>
    by_cases here : t = p
    · subst here
      simp only [setTcb_same, if_true]
      exact ⟨(links d).1, by rw [(links t).2, prev]⟩
    · have other : ¬ some p = some t := fun same => here (Option.some.inj same).symm
      simp only [setTcb_other _ _ _ _ here, if_neg other]
      exact ⟨(links t).1, by rw [(links t).2, prev]⟩

/-- What `delete_thread` leaves of the links and spaces. -/
structure Unlinked (k : Kernel) (d : Nat) (k' : Kernel) : Prop where
  allocated : k'.allocated = Function.update k.allocated d false
  asPool : k'.asPool = k.asPool
  asAllocated : k'.asAllocated = k.asAllocated
  space : ∀ t, (k'.tcbs t).addressSpace = (k.tcbs t).addressSpace
  next : ∀ t, (k'.tcbs t).nextSibling =
    if (k.tcbs d).prevSibling = some t then (k.tcbs d).nextSibling else (k.tcbs t).nextSibling
  prev : ∀ t, (k'.tcbs t).prevSibling =
    if (k.tcbs d).nextSibling = some t then (k.tcbs d).prevSibling else (k.tcbs t).prevSibling

theorem deleteThread_unlinked (h : k.deleteThread d = .ok k') : Unlinked k d k' := by
  obtain ⟨list, rfl⟩ := deleteThread_spec h
  obtain ⟨schedule, unscheduled⟩ := k.unschedule_frame d
  obtain ⟨k₁, eq⟩ : ∃ k₁, k₁ = (k.unschedule d).setTable (k.threadCount - 1) list := ⟨_, rfl⟩
  have tcbs : k₁.tcbs = k.tcbs := by rw [eq, unscheduled]; rfl
  have links := k₁.unlinkSiblings_links d
  obtain ⟨tcbs', unlinked, relinked⟩ := k₁.unlinkSiblings_frame d
  rw [← eq]
  rw [tcbs] at links relinked
  refine ⟨?_, ?_, ?_, fun t => ?_, fun t => (links t).1, fun t => (links t).2⟩
  · show Function.update (k₁.unlinkSiblings d).allocated d false = _
    rw [unlinked, eq, unscheduled]
    rfl
  · show (k₁.unlinkSiblings d).asPool = _
    rw [unlinked, eq, unscheduled]
    rfl
  · show (k₁.unlinkSiblings d).asAllocated = _
    rw [unlinked, eq, unscheduled]
    rfl
  · show ((k₁.unlinkSiblings d).tcbs t).addressSpace = _
    obtain ⟨_, _, same⟩ := relinked t
    rw [unlinked]
    show (tcbs' t).addressSpace = _
    rw [same]

theorem Unlinked.inSpace (u : Unlinked k d k') (as t : Nat) : k'.InSpace as t ↔ k.InSpace as t ∧ t ≠ d := by
  unfold InSpace
  rw [u.allocated, u.space, Function.update_apply]
  split
  · rename_i same
    simp [same]
  · rename_i other
    simp [other]

/-- A thread of a space that is not its first one, or a thread that is linked to nobody and in no list. -/
def Unlinkable (k : Kernel) (d : Nat) : Prop :=
  (k.allocated d = true ∧ (k.tcbs d).addressSpace ≠ none ∧ ∀ as ∈ (k.tcbs d).addressSpace, (k.asPool as).firstThread ≠ d) ∨
    ((k.tcbs d).nextSibling = none ∧ (k.tcbs d).prevSibling = none ∧ (k.allocated d = false ∨ (k.tcbs d).addressSpace = none))

instance (k : Kernel) (d : Nat) : Decidable (k.Unlinkable d) := inferInstanceAs (Decidable (_ ∨ _))

theorem Siblings.place (s : Siblings k as list) (here : k.InSpace as d) (behind : (k.asPool as).firstThread ≠ d) :
    ∃ ns p post, list = ns ++ p :: d :: post ∧ (k.tcbs d).prevSibling = some p ∧
      Theory.Path k.nextOf (k.tcbs d).nextSibling (post.map some) none := by
  obtain ⟨rest, split_⟩ := s.first
  have listed : d ∈ (k.asPool as).firstThread :: rest := split_ ▸ (s.members d).mpr here
  obtain ⟨front, post, restEq⟩ := List.append_of_mem ((List.mem_cons.mp listed).resolve_left (Ne.symm behind))
  obtain ⟨ns, p, frontEq⟩ : ∃ ns p, (k.asPool as).firstThread :: front = ns ++ [p] := by
    rcases List.eq_nil_or_concat ((k.asPool as).firstThread :: front) with none | ⟨ns, p, eq⟩
    · cases none
    · exact ⟨ns, p, eq.trans (List.concat_eq_append ..)⟩
  have whole : list = ns ++ p :: d :: post := by
    rw [split_, restEq, ← List.cons_append, frontEq]
    simp
  subst whole
  have chain := s.chain
  simp only [List.map_append, List.map_cons] at chain
  obtain ⟨q, -, path⟩ := Theory.Path.append_iff.mp chain.path
  exact ⟨ns, p, post, rfl, (List.isChain_append_cons_cons.mp s.prev).2.1, path.2.2⟩

theorem Siblings.neighbours (s : Siblings k as list) (here : k.InSpace as d) (behind : (k.asPool as).firstThread ≠ d) :
    (∀ p, (k.tcbs d).prevSibling = some p → k.InSpace as p) ∧ ∀ n, (k.tcbs d).nextSibling = some n → k.InSpace as n := by
  obtain ⟨ns, p, post, rfl, link, onward⟩ := s.place here behind
  refine ⟨fun q back => ?_, fun n next => ?_⟩
  · rw [link] at back
    cases back
    exact (s.members p).mp (by simp)
  · cases post with
    | nil =>
      have stop : (k.tcbs d).nextSibling = none := onward
      rw [stop] at next
      cases next
    | cons m post =>
      have there : (k.tcbs d).nextSibling = some m := onward.1
      rw [there] at next
      cases next
      exact (s.members n).mp (by simp)

theorem Siblings.unlinked (s : Siblings k as list) (u : Unlinked k d k') (here : k.InSpace as d)
    (behind : (k.asPool as).firstThread ≠ d) : ∃ list', Siblings k' as list' := by
  obtain ⟨ns, p, post, whole, link, onward⟩ := s.place here behind
  subst whole
  have nodup := s.nodup
  have chain := s.chain
  obtain ⟨before, -, after⟩ := List.isChain_append_cons_cons.mp s.prev
  simp only [List.map_append, List.map_cons] at chain
  have others : ∀ t ∈ ns ++ post, t ≠ p ∧ t ≠ d := by
    intro t member
    simp only [List.nodup_append, List.nodup_cons, List.mem_cons, List.mem_append] at nodup member
    obtain ⟨-, ⟨pd, dpost, -⟩, apart⟩ := nodup
    rcases member with early | late
    · exact ⟨apart t early p (.inl rfl), apart t early d (.inr (.inl rfl))⟩
    · exact ⟨fun same => pd (.inr (same ▸ late)), fun same => dpost (same ▸ late)⟩
  have pd : p ≠ d := by
    simp only [List.nodup_append, List.nodup_cons, List.mem_cons] at nodup
    exact fun same => nodup.2.1.1 (.inl same)
  refine ⟨ns ++ p :: post, ?_, fun t => ?_, ?_⟩
  · rw [u.asPool]
    simp only [List.map_append, List.map_cons]
    refine chain.remove ?_ fun n member => ?_
    · show (k'.tcbs p).nextSibling = (k.tcbs d).nextSibling
      rw [u.next, if_pos link]
    · rw [← List.map_append] at member
      obtain ⟨t, old, rfl⟩ := List.mem_map.mp member
      have other := (others t old).1
      show (k'.tcbs t).nextSibling = (k.tcbs t).nextSibling
      rw [u.next, if_neg]
      rw [link]
      exact fun same => other (Option.some.inj same).symm
  · rw [u.inSpace, ← s.members]
    constructor
    · intro member
      simp only [List.mem_append, List.mem_cons] at member
      rcases member with early | rfl | late
      · exact ⟨by simp [early], (others t (by simp [early])).2⟩
      · exact ⟨by simp, pd⟩
      · exact ⟨by simp [late], (others t (by simp [late])).2⟩
    · intro ⟨member, other⟩
      simp only [List.mem_append, List.mem_cons] at member ⊢
      tauto
  · cases post with
    | nil =>
      have stop : (k.tcbs d).nextSibling = none := onward
      refine before.imp_of_mem_imp fun a b _ _ back => ?_
      rw [u.prev, if_neg (by rw [stop]; exact nofun)]
      exact back
    | cons n post =>
      have next : (k.tcbs d).nextSibling = some n := onward.1
      have late : ∀ b ∈ ns ++ p :: post, b ≠ n := by
        intro b member same
        subst same
        simp only [List.nodup_append, List.nodup_cons, List.mem_cons, List.mem_append] at nodup member
        obtain ⟨-, ⟨outer, -, inner, -⟩, apart⟩ := nodup
        rcases member with early | here | later
        · exact apart b early b (.inr (.inr (.inl rfl))) rfl
        · exact outer (.inr (.inl here.symm))
        · exact inner later
      have kept : ∀ a b, b ∈ ns ++ p :: post → (k.tcbs b).prevSibling = some a → (k'.tcbs b).prevSibling = some a := by
        intro a b member back
        rw [u.prev, if_neg]
        · exact back
        · rw [next]
          exact fun same => late b member (Option.some.inj same).symm
      refine List.isChain_append_cons_cons.mpr ⟨?_, ?_, ?_⟩
      · refine before.imp_of_mem_imp fun a b _ member back => kept a b ?_ back
        simp only [List.mem_append, List.mem_cons, List.not_mem_nil, or_false] at member ⊢
        tauto
      · rw [u.prev, if_pos next, link]
      · refine (List.isChain_cons_cons.mp after).2.imp_of_mem_tail_imp fun a b _ member back => kept a b ?_ back
        have later : b ∈ post := member
        simp [later]

/-- A list in which the thread is not, and next to which it is not linked, stays. -/
theorem Siblings.unlinked_other (s : Siblings k as list) (u : Unlinked k d k') (elsewhere : ¬ k.InSpace as d)
    (prev : ∀ p, (k.tcbs d).prevSibling = some p → ¬ k.InSpace as p)
    (next : ∀ n, (k.tcbs d).nextSibling = some n → ¬ k.InSpace as n) : Siblings k' as list := by
  refine s.congr (by rw [u.asPool]) (fun t => ?_) fun t here => ⟨?_, ?_⟩
  · rw [u.inSpace]
    exact ⟨fun both => both.1, fun here => ⟨here, fun same => elsewhere (same ▸ here)⟩⟩
  · rw [u.next, if_neg fun link => prev t link here]
  · rw [u.prev, if_neg fun link => next t link here]

theorem Spaced.deleteThread (s : Spaced k) (ok : k.Unlinkable d) (h : k.deleteThread d = .ok k') : Spaced k' := by
  have u := deleteThread_unlinked h
  refine ⟨fun as used => ?_, fun t as here => ?_⟩
  · rw [u.asAllocated] at used
    obtain ⟨list, l⟩ := s.lists as used
    rcases ok with ⟨live, space, behind⟩ | ⟨next, prev, nowhere⟩
    · obtain ⟨own, mine⟩ := Option.ne_none_iff_exists'.mp space
      by_cases same : own = as
      · subst same
        exact l.unlinked u ⟨live, mine⟩ (behind own mine)
      · obtain ⟨_, l'⟩ := s.lists own (s.owned d own ⟨live, mine⟩)
        obtain ⟨before, after⟩ := l'.neighbours ⟨live, mine⟩ (behind own mine)
        have apart : ∀ {t}, k.InSpace own t → ¬ k.InSpace as t := fun h h' =>
          same (Option.some.inj (h.2.symm.trans h'.2))
        exact ⟨list, l.unlinked_other u (apart ⟨live, mine⟩) (fun p link => apart (before p link)) fun n link => apart (after n link)⟩
    · refine ⟨list, l.unlinked_other u ?_ (by rw [prev]; exact nofun) (by rw [next]; exact nofun)⟩
      intro ⟨live, mine⟩
      rcases nowhere with dead | none
      · rw [dead] at live; cases live
      · rw [none] at mine; cases mine
  · rw [u.asAllocated]
    exact s.owned t as ((u.inSpace as t).mp here).1

/-! ### Creating a thread -/

/-- A new thread, in the space of `space` or in none. -/
structure Joined (k : Kernel) (t : Nat) (space : Option Nat) (k' : Kernel) : Prop where
  allocated : k'.allocated = Function.update k.allocated t true
  asPool : k'.asPool = k.asPool
  asAllocated : k'.asAllocated = k.asAllocated
  fresh : k.allocated t = false
  others : ∀ u, u ≠ t → some u ≠ space → k'.tcbs u = k.tcbs u
  outside : space = none → (k'.tcbs t).addressSpace = none
  inside : ∀ s, space = some s → s ≠ t → (k'.tcbs t).addressSpace = (k.tcbs s).addressSpace ∧
    (k'.tcbs t).nextSibling = (k.tcbs s).nextSibling ∧ (k'.tcbs t).prevSibling = some s ∧
    (k'.tcbs s).addressSpace = (k.tcbs s).addressSpace ∧ (k'.tcbs s).nextSibling = some t ∧
    (k'.tcbs s).prevSibling = (k.tcbs s).prevSibling

theorem joinSiblings_links (k : Kernel) {t s : Nat} (other : s ≠ t) :
    (k.joinSiblings t s).tcbs t = { k.tcbs t with
      addressSpace := (k.tcbs s).addressSpace, nextSibling := (k.tcbs s).nextSibling, prevSibling := some s } ∧
    (k.joinSiblings t s).tcbs s = { k.tcbs s with nextSibling := some t } ∧
    ∀ u, u ≠ t → u ≠ s → (k.joinSiblings t s).tcbs u = k.tcbs u := by
  unfold joinSiblings
  dsimp only
  refine ⟨?_, ?_, fun u new old => ?_⟩
  · rw [setTcb_other _ _ _ _ (Ne.symm other), setTcb_same]
  · rw [setTcb_same, setTcb_other _ _ _ _ other]
  · rw [setTcb_other _ _ _ _ old, setTcb_other _ _ _ _ new]

theorem placeThread_links (k : Kernel) (t : Nat) (space : Option Nat) (dest scheduler pager utcbLocation : Word)
    (none_ : (k.tcbs t).addressSpace = none) :
    (∀ u, u ≠ t → some u ≠ space → (k.placeThread t space dest scheduler pager utcbLocation).tcbs u = k.tcbs u) ∧
      (space = none → ((k.placeThread t space dest scheduler pager utcbLocation).tcbs t).addressSpace = none) ∧
      ∀ s, space = some s → s ≠ t → ∃ tcb : Tcb,
        (k.placeThread t space dest scheduler pager utcbLocation).tcbs t =
          { tcb with addressSpace := (k.tcbs s).addressSpace, nextSibling := (k.tcbs s).nextSibling, prevSibling := some s, pager, scheduler } ∧
        (k.placeThread t space dest scheduler pager utcbLocation).tcbs s = { k.tcbs s with nextSibling := some t } := by
  unfold placeThread
  cases space with
  | none =>
    refine ⟨fun u other _ => ?_, fun _ => ?_, nofun⟩
    · dsimp only
      rw [setTcb_other _ _ _ _ other, setTcb_other _ _ _ _ other]
    · dsimp only
      rw [setTcb_same, setTcb_same]
      exact none_
  | some s =>
    obtain ⟨k₁, eq⟩ : ∃ k₁, k₁ = k.setTcb t fun new =>
      { new with
        globalId := dest, localId := utcbLocation, utcb := utcbLocation
        state := if isNilThread pager || (some s).isNone then .inactive else .active } := ⟨_, rfl⟩
    have old : ∀ u, u ≠ t → k₁.tcbs u = k.tcbs u := by
      intro u other
      rw [eq, setTcb_other _ _ _ _ other]
    dsimp only
    rw [← eq]
    refine ⟨fun u other elsewhere => ?_, nofun, fun s' same other => ?_⟩
    · have apart : u ≠ s := fun same => elsewhere (congrArg some same)
      rw [setTcb_other _ _ _ _ other]
      by_cases same : s = t
      · subst same
        unfold joinSiblings
        dsimp only
        rw [setTcb_other _ _ _ _ other, setTcb_other _ _ _ _ other, old u other]
      · rw [(k₁.joinSiblings_links same).2.2 u other apart, old u other]
    · cases same
      obtain ⟨new, behind, -⟩ := k₁.joinSiblings_links other
      rw [setTcb_same, setTcb_other _ _ _ _ other, new, behind, old s other]
      exact ⟨_, rfl, rfl⟩

theorem created_joined {id dest scheduler pager utcbLocation : Word} {space : Option Nat} {k₁ : Kernel}
    (made : k.createThread id = .ok (some t, k₁)) : Joined k t space (k₁.placeThread t space dest scheduler pager utcbLocation) := by
  rcases createThread_spec made with ⟨none_, _⟩ | ⟨u, list, same, free, _, rfl⟩
  · cases none_
  cases same
  obtain ⟨k₁, eq⟩ : ∃ k₁, k₁ = (((k.takeTcb t).setTcb t (freshTcb id)).setTable (k.threadCount + 1) list).log (.created t) := ⟨_, rfl⟩
  have old : ∀ u, u ≠ t → k₁.tcbs u = k.tcbs u := by
    intro u other
    rw [eq]
    exact setTcb_other _ _ _ _ other
  have new : (k₁.tcbs t).addressSpace = none := by
    rw [eq]
    show (((k.takeTcb t).setTcb t (freshTcb id)).tcbs t).addressSpace = none
    rw [setTcb_same]
    rfl
  have frame : ∃ tcbs, k₁.placeThread t space dest scheduler pager utcbLocation = k₁.setTcbs tcbs := by
    unfold placeThread joinSiblings
    cases space <;> exact ⟨_, rfl⟩
  obtain ⟨others, outside, inside⟩ := placeThread_links k₁ t space dest scheduler pager utcbLocation new
  rw [← eq]
  refine ⟨?_, ?_, ?_, (allocateTcb_spec free).2, fun u other elsewhere => (others u other elsewhere).trans (old u other), outside,
    fun s named other => ?_⟩
  · obtain ⟨_, same⟩ := frame
    rw [same, eq]
    rfl
  · obtain ⟨_, same⟩ := frame
    rw [same, eq]
    rfl
  · obtain ⟨_, same⟩ := frame
    rw [same, eq]
    rfl
  · obtain ⟨_, made, linked⟩ := inside s named other
    rw [made, linked, old s other]
    exact ⟨rfl, rfl, rfl, rfl, rfl, rfl⟩

theorem Joined.inSpace_other (j : Joined k t none k') (as u : Nat) : k'.InSpace as u ↔ k.InSpace as u := by
  unfold InSpace
  by_cases here : u = t
  · subst here
    rw [j.outside rfl]
    exact iff_of_false (fun h => by cases h.2) fun h => by rw [j.fresh] at h; cases h.1
  · rw [j.others u here nofun, j.allocated, Function.update_of_ne here]

theorem Joined.inSpace {s : Nat} (j : Joined k t (some s) k') (other : s ≠ t) (as u : Nat) :
    k'.InSpace as u ↔ k.InSpace as u ∨ (u = t ∧ (k.tcbs s).addressSpace = some as) := by
  obtain ⟨space, -, -, kept, -⟩ := j.inside s rfl other
  unfold InSpace
  by_cases here : u = t
  · subst here
    rw [space, j.allocated, Function.update_self, j.fresh]
    simp
  · rw [j.allocated, Function.update_of_ne here]
    by_cases there : u = s
    · subst there
      simp [kept, here]
    · rw [j.others u here fun same => there (Option.some.inj same)]
      simp [here]

/-- A thread created behind the last one of its space is the new last one. -/
theorem Siblings.joined {s : Nat} (l : Siblings k as list) (j : Joined k t (some s) k') (here : k.InSpace as s)
    (last : (k.tcbs s).nextSibling = none) : Siblings k' as (list ++ [t]) := by
  have other : s ≠ t := by
    rintro rfl
    have live := here.1
    rw [j.fresh] at live
    cases live
  obtain ⟨space, next, prev, -, link, back⟩ := j.inside s rfl other
  obtain ⟨ns, post, whole⟩ := List.append_of_mem ((l.members s).mpr here)
  have chain := l.chain
  rw [whole, List.map_append, List.map_cons] at chain
  have stop : post = [] := List.map_eq_nil_iff.mp (chain.last last)
  subst stop
  subst whole
  have old : ∀ u ∈ ns, u ≠ t ∧ u ≠ s := by
    intro u member
    refine ⟨?_, ?_⟩
    · rintro rfl
      have live := ((l.members u).mp (by simp [member])).1
      rw [j.fresh] at live
      cases live
    · rintro rfl
      have nodup := l.nodup
      simp only [List.nodup_append, List.mem_singleton] at nodup
      exact nodup.2.2 u member u rfl rfl
  refine ⟨?_, fun u => ?_, ?_⟩
  · rw [j.asPool]
    simp only [List.map_append, List.map_cons, List.map_nil, List.append_assoc, List.singleton_append]
    refine chain.insert nofun ?_ ?_ fun n member => ?_
    · exact link
    · exact next
    · simp only [List.map_nil, List.append_nil] at member
      obtain ⟨u, early, rfl⟩ := List.mem_map.mp member
      show (k'.tcbs u).nextSibling = (k.tcbs u).nextSibling
      rw [j.others u (old u early).1 fun same => (old u early).2 (Option.some.inj same)]
  · rw [j.inSpace other, ← l.members, List.mem_append, List.mem_singleton]
    simp [here.2]
  · rw [List.append_assoc, List.singleton_append]
    refine List.isChain_append_cons_cons.mpr ⟨?_, prev, List.isChain_singleton t⟩
    refine l.prev.imp_of_mem_imp fun a b _ member linked => ?_
    rcases List.mem_append.mp member with early | at_
    · rw [j.others b (old b early).1 fun same => (old b early).2 (Option.some.inj same)]
      exact linked
    · cases List.mem_singleton.mp at_
      rw [back]
      exact linked

theorem Spaced.joined (s : Spaced k) {space : Option Nat} (j : Joined k t space k')
    (last : ∀ u, space = some u → (∃ as, k.InSpace as u) ∧ (k.tcbs u).nextSibling = none) : Spaced k' := by
  cases space with
  | none =>
    refine s.congr j.asAllocated (fun as => by rw [j.asPool]) j.inSpace_other fun as u here => ?_
    have other : u ≠ t := by
      rintro rfl
      have live := here.1
      rw [j.fresh] at live
      cases live
    rw [j.others u other nofun]
    exact ⟨rfl, rfl⟩
  | some u =>
    obtain ⟨⟨own, here⟩, stop⟩ := last u rfl
    have other : u ≠ t := by
      rintro rfl
      have live := here.1
      rw [j.fresh] at live
      cases live
    refine ⟨fun as used => ?_, fun v as inside => ?_⟩
    · rw [j.asAllocated] at used
      obtain ⟨list, l⟩ := s.lists as used
      by_cases same : own = as
      · subst same
        exact ⟨_, l.joined j here stop⟩
      · have apart : (k.tcbs u).addressSpace ≠ some as := by
          rw [here.2]
          exact fun eq => same (Option.some.inj eq)
        refine ⟨list, l.congr (by rw [j.asPool]) (fun v => ?_) fun v inside => ?_⟩
        · rw [j.inSpace other]
          simp [apart]
        · have new : v ≠ t := by
            rintro rfl
            have live := inside.1
            rw [j.fresh] at live
            cases live
          have old : v ≠ u := fun same => apart (same ▸ inside.2)
          rw [j.others v new fun same => old (Option.some.inj same)]
          exact ⟨rfl, rfl⟩
    · rw [j.asAllocated]
      rcases (j.inSpace other as v).mp inside with before | ⟨-, space⟩
      · exact s.owned v as before
      · exact s.owned u as ⟨here.1, space⟩

/-! ### A new space, and a change of a thread -/

theorem newSpace_siblings (s : Spaced k) (free : k.asAllocated as = false) (live : k.allocated t = true)
    (none_ : (k.tcbs t).addressSpace = none) : Spaced (k.newSpace t as) := by
  have tcb : (k.newSpace t as).tcbs t = { k.tcbs t with nextSibling := none, prevSibling := none, addressSpace := some as } := by
    unfold newSpace
    rw [setTcb_same]
    rfl
  have others : ∀ u, u ≠ t → (k.newSpace t as).tcbs u = k.tcbs u := by
    intro u other
    unfold newSpace
    rw [setTcb_other _ _ _ _ other]
    rfl
  have outside : ∀ own u, k.InSpace own u → u ≠ t := by
    rintro own u here rfl
    have space := here.2
    rw [none_] at space
    cases space
  have inSpace : ∀ own u, (k.newSpace t as).InSpace own u ↔ k.InSpace own u ∨ (u = t ∧ own = as) := by
    intro own u
    unfold InSpace
    show k.allocated u = true ∧ ((k.newSpace t as).tcbs u).addressSpace = some own ↔ _
    by_cases same : u = t
    · subst same
      rw [tcb, none_]
      simp [live, eq_comm]
    · rw [others u same]
      simp [same]
  have empty : ∀ u, ¬ k.InSpace as u := by
    intro u here
    have used := s.owned u as here
    rw [free] at used
    cases used
  refine ⟨fun own used => ?_, fun u own here => ?_⟩
  · by_cases new : own = as
    · subst new
      refine ⟨[t], ⟨⟨?_, ?_⟩, nofun⟩, fun u => ?_, List.isChain_singleton t⟩
      · show some ((k.newSpace t own).asPool own).firstThread = some t
        simp [newSpace, setAs, setTcb, setTcbs]
      · show ((k.newSpace t own).tcbs t).nextSibling = none
        rw [tcb]
      · rw [inSpace, List.mem_singleton]
        simp [empty u]
    · have before : k.asAllocated own = true := by
        have used : Function.update k.asAllocated as true own = true := used
        rwa [Function.update_of_ne new] at used
      obtain ⟨list, l⟩ := s.lists own before
      refine ⟨list, l.congr ?_ (fun u => ?_) fun u here => ?_⟩
      · simp [newSpace, setAs, setTcb, setTcbs, takeAs, new]
      · rw [inSpace]
        simp [new]
      · rw [others u (outside own u here)]
        exact ⟨rfl, rfl⟩
  · show Function.update k.asAllocated as true own = true
    rcases (inSpace own u).mp here with before | ⟨-, rfl⟩
    · by_cases same : own = as
      · rw [same, Function.update_self]
      · rw [Function.update_of_ne same]
        exact s.owned u own before
    · rw [Function.update_self]

end BradypOS.Kernel
