import BradypOS.Thread.Members
import BradypOS.Theory.Align

/-!
# Ids that can be addressed

A global id has 18 bits of thread number above 14 bits of version. The version is read with a mask of
15 bits, and an id is taken for a local one by its low 7 bits.
-/

namespace BradypOS

namespace L4

variable {n v : Word}

theorem globalId_toNat (number : n.toNat < 2 ^ 18) (ver : v.toNat < 2 ^ 14) : (globalId n v).toNat = n.toNat * 2 ^ 14 + v.toNat := by
  have shifted : (n <<< 14).toNat = n.toNat <<< 14 := by
    rw [BitVec.toNat_shiftLeft, Nat.shiftLeft_eq, Nat.mod_eq_of_lt (by omega)]
  rw [globalId, BitVec.toNat_or, shifted, ← Nat.shiftLeft_add_eq_or_of_lt ver, Nat.shiftLeft_eq]

theorem threadNo_globalId (number : n.toNat < 2 ^ 18) (ver : v.toNat < 2 ^ 14) : threadNo (globalId n v) = n := by
  apply BitVec.eq_of_toNat_eq
  rw [threadNo, BitVec.toNat_ushiftRight, globalId_toNat number ver, Nat.shiftRight_eq_div_pow]
  omega

/-- The lowest bit of the thread number is read as part of the version. -/
theorem version_globalId (number : n.toNat < 2 ^ 18) (ver : v.toNat < 2 ^ 14) :
    (version (globalId n v)).toNat = n.toNat % 2 * 2 ^ 14 + v.toNat := by
  rw [version, Theory.toNat_and_mask (k := 15) _ _ rfl, globalId_toNat number ver]
  omega

theorem isLocalId_globalId (number : n.toNat < 2 ^ 18) (ver : v.toNat < 2 ^ 14) :
    isLocalId (globalId n v) = true ↔ v.toNat % 128 = 0 := by
  have low : (globalId n v &&& 0x7F#32).toNat = v.toNat % 128 := by
    rw [Theory.toNat_and_mask (k := 7) _ _ rfl, globalId_toNat number ver]
    omega
  rw [isLocalId, beq_iff_eq, ← low]
  exact ⟨fun zero => by rw [zero]; rfl, fun zero => BitVec.eq_of_toNat_eq zero⟩

theorem version_globalId_eq (number : n.toNat < 2 ^ 18) (ver : v.toNat < 2 ^ 14) :
    version (globalId n v) = v ↔ n.toNat % 2 = 0 := by
  have read := version_globalId number ver
  constructor
  · intro same
    rw [same] at read
    omega
  · intro even
    apply BitVec.eq_of_toNat_eq
    omega

end L4

namespace Kernel

open L4

variable {k k' : Kernel} {id n v : Word} {t : Nat}

/-- The order of the cells around a thread that was put one cell before its place. -/
theorem compareCell_misplaced (s : k.Searchable) (free : k.allocated t = false)
    (missing : ∀ i < k.threadCount, k.cellNo i ≠ threadNo id) (pos : 0 < k.place (threadNo id))
    (below : k.place (threadNo id) < k.threadCount) {i : Nat} (used : i < k.threadCount + 1) :
    (k.added t id (k.place (threadNo id) - 1)).compareCell (threadNo id) i =
      if i + 1 = k.place (threadNo id) then .eq else if i ≤ k.place (threadNo id) then .lt else .gt := by
  have split := place_splits s (threadNo id)
  generalize place : k.place (threadNo id) = p at split pos below ⊢
  have here : (k.added t id (p - 1)).cellNo i = if i < p - 1 then k.cellNo i else if i = p - 1 then threadNo id else k.cellNo (i - 1) :=
    added_cellNo s free (p - 1) i (by omega) used
  split_ifs with same less
  · rw [if_neg (by omega), if_pos (by omega)] at here
    exact compareCell_eq.mpr here
  · apply compareCell_lt.mpr
    rw [here]
    split
    · exact compareCell_lt.mp (split.before i (by omega))
    · rw [if_neg (by omega)]
      exact compareCell_lt.mp (split.before (i - 1) (by omega))
  · rw [if_neg (by omega), if_neg (by omega)] at here
    apply compareCell_gt.mpr
    rw [here]
    rcases Nat.lt_or_eq_of_le (show p ≤ i - 1 by omega) with later | first
    · exact compareCell_gt.mp (split.behind (i - 1) later (by omega))
    · rw [← first]
      cases order : k.compareCell (threadNo id) p with
      | eq => exact absurd (compareCell_eq.mp order) (missing p below)
      | lt => exact absurd order (split.here below)
      | gt => exact compareCell_gt.mp order

theorem find_misplaced (s : k.Searchable) (free : k.allocated t = false) (slot : t < maxThreads)
    (missing : ∀ i < k.threadCount, k.cellNo i ≠ threadNo id) (h : k.misplaces (threadNo id) = true) :
    (k.added t id (k.place (threadNo id) - 1)).findThreadByGlobalId id = some t ↔
      Theory.retrieves (k.place (threadNo id)) (k.threadCount + 1) = true := by
  have pos : 0 < k.place (threadNo id) := Theory.undershoots_pos h
  have below := place_lt_of_misplaces h
  have order := fun i (used : i < k.threadCount + 1) => compareCell_misplaced s free missing pos below used
  generalize k.place (threadNo id) = p at pos below order ⊢
  have index : (k.added t id (p - 1)).threadListFind id =
      Theory.bisect (fun i => if i + 1 = p then .eq else if i ≤ p then .lt else .gt) (k.threadCount + 1) (k.threadCount + 2) 0
        (k.threadCount + 1) := by
    unfold threadListFind
    rw [threadListFindLoop_eq]
    exact Theory.bisect_congr order (Nat.succ_pos k.threadCount) (Nat.le_refl _)
  have inside : (k.added t id (p - 1)).threadListFind id < k.threadCount + 1 := by
    have last : (if k.threadCount + 1 - 1 + 1 = p then Ordering.eq else if k.threadCount + 1 - 1 ≤ p then .lt else .gt) ≠ .lt := by
      rw [if_neg (by omega), if_neg (by omega)]
      simp
    rw [index]
    exact Theory.bisect_lt last (by omega) (Nat.le_refl _)
  rw [Theory.retrieves, ← index, beq_iff_eq]
  constructor
  · intro found
    by_contra other
    have missed : ¬ sameThreads ((k.added t id (p - 1)).tcbs ((k.added t id (p - 1)).threadList
        ((k.added t id (p - 1)).threadListFind id))).globalId id = true := by
      intro same
      have equal := compareCell_eq.mpr (sameThreads_iff.mp same : (k.added t id (p - 1)).cellNo _ = threadNo id)
      rw [order _ inside, if_neg other] at equal
      split at equal <;> cases equal
    unfold findThreadByGlobalId threadMapFind at found
    dsimp only at found
    rw [if_neg missed, if_pos rfl] at found
    cases found
  · intro here
    have at_ : (k.added t id (p - 1)).threadListFind id = p - 1 := by omega
    have valid : t ≠ invalidIdx := by
      unfold invalidIdx
      unfold maxThreads at slot
      omega
    have list : (k.added t id (p - 1)).threadList (p - 1) = t := by
      rw [added_threadList _ _ (by omega) (by omega), if_neg (by omega), if_pos rfl]
    have number : sameThreads ((k.added t id (p - 1)).tcbs t).globalId id = true := by
      have here : (k.added t id (p - 1)).cellNo (p - 1) = _ := added_cellNo s free (p - 1) (p - 1) (by omega) (by omega)
      rw [if_neg (by omega), if_pos rfl] at here
      unfold cellNo at here
      rw [list] at here
      exact sameThreads_iff.mpr here
    unfold findThreadByGlobalId threadMapFind
    dsimp only
    rw [at_, list, if_pos number, if_neg valid]

theorem find_added (s : k.Searchable) (room : k.threadCount < maxThreads) (free : k.allocated t = false) (slot : t < maxThreads)
    (missing : ∀ i < k.threadCount, k.cellNo i ≠ threadNo id) :
    (k.added t id (k.insertion (threadNo id))).findThreadByGlobalId id = some t ↔
      k.misplaces (threadNo id) = false ∨ Theory.retrieves (k.place (threadNo id)) (k.threadCount + 1) = true := by
  unfold insertion
  split
  · rename_i misplaced
    rw [find_misplaced s free slot missing misplaced]
    exact ⟨.inr, fun h => h.resolve_left (by simp [misplaced])⟩
  · rename_i placed
    have placed : k.misplaces (threadNo id) = false := by simpa using placed
    have a := added_place s room missing slot free
    obtain ⟨i, inside, here⟩ := (a.listed t).mpr (.inl rfl)
    have number : (k.added t id (k.place (threadNo id))).cellNo i = threadNo id := by
      unfold cellNo
      rw [here, a.globalId]
    refine ⟨fun _ => .inl placed, fun _ => ?_⟩
    rw [find_of_listed a.searchable inside number, here]

/-- A search for this id takes the path of the global ids, for every caller, and this thread is looked up there. -/
def ResolvesTo (k : Kernel) (id : Word) (t : Nat) : Prop :=
  (∀ target sending, k.findIpcPartner target id sending = .ok (k.findIpcPartnerGlobal target id sending)) ∧
    k.findThreadByGlobalId id = some t

/-- A caller outside of all address spaces tells the path of the local ids from that of the global ones. -/
theorem resolvesTo_iff {u : Nat} (outside : (k.tcbs u).addressSpace = none) (any : id ≠ anyThread) (anyLocal : id ≠ anyLocalThread) :
    k.ResolvesTo id t ↔ isLocalId id = false ∧ k.findThreadByGlobalId id = some t := by
  constructor
  · rintro ⟨path, found⟩
    refine ⟨?_, found⟩
    by_contra isLocal
    have isLocal : isLocalId id = true := by simpa using isLocal
    have here := path u true
    rw [findIpcPartner, if_neg any, if_neg anyLocal, if_pos isLocal, findIpcPartnerLocal, outside] at here
    cases here
  · rintro ⟨other, found⟩
    refine ⟨fun target sending => ?_, found⟩
    rw [findIpcPartner, if_neg any, if_neg anyLocal, if_neg (by simp [other])]

theorem createThread_zeroVersion (s : k.Searchable) (room : k.threadCount < maxThreads) (slots : ∃ t < maxThreads, k.allocated t = false)
    (missing : ∀ i < k.threadCount, k.cellNo i ≠ threadNo id) :
    k.createThread id = .error (.panic .zeroVersion) ↔ version id = 0#32 := by
  constructor
  · intro error
    by_contra valid
    obtain ⟨t, found⟩ := allocateTcb_of_free slots
    rw [createThread_eq s room missing valid found] at error
    cases error
  · intro zero
    unfold createThread
    rw [kassert, if_neg (by simp [zero])]
    rfl

/-- A thread that is created under an id is found under it if the id is not taken for a local one, and the search puts the
thread at its place or comes across it again. -/
theorem createThread_resolves (s : k.Searchable) (room : k.threadCount < maxThreads) (slots : ∃ t < maxThreads, k.allocated t = false)
    (missing : ∀ i < k.threadCount, k.cellNo i ≠ threadNo id) (valid : version id ≠ 0#32) (any : id ≠ anyThread)
    (anyLocal : id ≠ anyLocalThread) :
    (∃ t k', k.createThread id = .ok (some t, k') ∧ k'.ResolvesTo id t) ↔
      isLocalId id = false ∧
        (k.misplaces (threadNo id) = false ∨ Theory.retrieves (k.place (threadNo id)) (k.threadCount + 1) = true) := by
  have paths : ∀ {t}, k.allocateTcb = some t →
      ((k.added t id (k.insertion (threadNo id))).ResolvesTo id t ↔ isLocalId id = false ∧
        (k.misplaces (threadNo id) = false ∨ Theory.retrieves (k.place (threadNo id)) (k.threadCount + 1) = true)) := by
    intro t found
    obtain ⟨slot, free⟩ := allocateTcb_spec found
    have outside : ((k.added t id (k.insertion (threadNo id))).tcbs t).addressSpace = .none := by
      show (((k.takeTcb t).setTcb t (freshTcb id)).tcbs t).addressSpace = .none
      rw [setTcb_same]
      rfl
    rw [resolvesTo_iff outside any anyLocal, find_added s room free slot missing]
  constructor
  · intro ⟨t, k', created, resolves⟩
    obtain ⟨-, found, rfl⟩ := createThread_added s room missing created
    exact (paths found).mp resolves
  · intro ok
    obtain ⟨t, found⟩ := allocateTcb_of_free slots
    exact ⟨t, _, createThread_eq s room missing valid found, (paths found).mpr ok⟩

/-- A thread id has the number and the version that it is made of, a thread created with it is addressed by it, and it is
refused exactly for version 0, if and only if its thread number is even, and its version is 0, or not a multiple
of 128 and the search in the table puts the thread at its place or comes across it again. -/
theorem globalId_iff (s : k.Searchable) (room : k.threadCount < maxThreads) (slots : ∃ t < maxThreads, k.allocated t = false)
    (missing : ∀ i < k.threadCount, k.cellNo i ≠ n) (number : 0x40 ≤ n.toNat ∧ n.toNat < 2 ^ 18) (ver : v.toNat < 2 ^ 14)
    (any : globalId n v ≠ anyThread) (anyLocal : globalId n v ≠ anyLocalThread) :
    ((1 ≤ v.toNat → threadNo (globalId n v) = n ∧ version (globalId n v) = v ∧
        ∃ t k', k.createThread (globalId n v) = .ok (some t, k') ∧ k'.ResolvesTo (globalId n v) t) ∧
      (k.createThread (globalId n v) = .error (.panic .zeroVersion) ↔ v.toNat = 0)) ↔
    n.toNat % 2 = 0 ∧ (v.toNat = 0 ∨ v.toNat % 128 ≠ 0 ∧
      (k.misplaces n = false ∨ Theory.retrieves (k.place n) (k.threadCount + 1) = true)) := by
  have no := threadNo_globalId number.2 ver
  have missing' : ∀ i < k.threadCount, k.cellNo i ≠ threadNo (globalId n v) := by
    rw [no]
    exact missing
  have field := version_globalId number.2 ver
  have zero : version (globalId n v) = 0#32 ↔ n.toNat % 2 = 0 ∧ v.toNat = 0 := by
    constructor
    · intro zero
      rw [zero] at field
      have field : 0 = n.toNat % 2 * 2 ^ 14 + v.toNat := field
      omega
    · rintro ⟨even, none⟩
      apply BitVec.eq_of_toNat_eq
      rw [field, even, none]
      rfl
  have classified := (isLocalId_globalId number.2 ver).not
  rw [Bool.not_eq_true] at classified
  rw [createThread_zeroVersion s room slots missing', zero, version_globalId_eq number.2 ver]
  rcases Nat.eq_zero_or_pos v.toNat with first | later
  · rw [first]
    simp [no]
  · have valid : version (globalId n v) ≠ 0#32 := fun z => by
      have none := (zero.mp z).2
      omega
    rw [createThread_resolves s room slots missing' valid any anyLocal, no, classified]
    constructor
    · rintro ⟨all, -⟩
      exact ⟨(all later).2.1, .inr (all later).2.2⟩
    · intro ⟨even, good⟩
      exact ⟨fun _ => ⟨rfl, even, good.resolve_left (by omega)⟩, by omega⟩

theorem globalId_iff_second : ∃ t k', (ofTable [kernId, idleId] [0, 1] 2).createThread (globalId 0x42#32 1#32) = .ok (some t, k') ∧
    k'.ResolvesTo (globalId 0x42#32 1#32) t :=
  (((globalId_iff (k := ofTable [kernId, idleId] [0, 1] 2) (n := 0x42#32) (v := 1#32) (by decide) (by decide) ⟨2, by decide⟩ (by decide)
    (by decide) (by decide) (by decide) (by decide)).mpr ⟨by decide, .inr ⟨by decide, .inl (by decide)⟩⟩).1 (by decide)).2.2

/-- The version of thread 0x41 is read as 0x4001, and its version 0 is accepted; version 128 of thread 0x42 is a local id. -/
theorem globalId_odd : version (globalId 0x41#32 1#32) = 0x4001#32 ∧
    (∃ k', (ofTable [kernId, idleId] [0, 1] 2).createThread (globalId 0x41#32 0#32) = .ok (some 2, k')) ∧
    isLocalId (globalId 0x42#32 128#32) = true ∧
    ∃ k', (ofTable [kernId, idleId] [0, 1] 2).createThread (globalId 0x42#32 128#32) = .ok (some 2, k') ∧
      ¬ k'.ResolvesTo (globalId 0x42#32 128#32) 2 := by
  refine ⟨by decide, ⟨_, rfl⟩, by decide, _, rfl, ?_⟩
  intro resolves
  have other := ((resolvesTo_iff (u := 2) rfl (by decide) (by decide)).mp resolves).1
  exact absurd other (by decide)

end Kernel
end BradypOS
