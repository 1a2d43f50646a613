import BradypOS.Kernel.Evaluate
import BradypOS.L4.Fpages
import BradypOS.Space.Siblings
import BradypOS.Syscall.Refused

/-!
# Where a UTCB may lie

`fpage_contains_object` adds the size of the object to its address in a machine word, and it wants
the page to end behind the end of the object.
-/

namespace BradypOS

open L4

/-- Every byte of the object is one of the page, in unbounded arithmetic. -/
def LiesInside (page objectBase objectSize : Word) : Prop :=
  ∀ address : Nat, objectBase.toNat ≤ address → address < objectBase.toNat + objectSize.toNat →
    (Fpage.address page).toNat ≤ address ∧ address < Fpage.limit page

/-- The object does not end exactly where the page ends, nor in front of that after a wrap of its
end; and if it has no bytes it stands in the page. -/
def EndsApart (page objectBase objectSize : Word) : Prop :=
  if objectSize = 0#32 then (Fpage.address page).toNat ≤ objectBase.toNat ∧ objectBase.toNat < Fpage.limit page
  else objectBase.toNat < (Fpage.address page).toNat ∨ (objectBase.toNat + objectSize.toNat ≠ Fpage.limit page ∧
    ¬ (2 ^ 32 ≤ objectBase.toNat + objectSize.toNat ∧ objectBase.toNat + objectSize.toNat < 2 ^ 32 + Fpage.limit page))

instance (page objectBase objectSize : Word) : Decidable (EndsApart page objectBase objectSize) :=
  inferInstanceAs (Decidable (ite _ _ _))

variable {page objectBase objectSize : Word}

theorem liesInside_iff (nonempty : objectSize ≠ 0#32) : LiesInside page objectBase objectSize ↔
    (Fpage.address page).toNat ≤ objectBase.toNat ∧ objectBase.toNat + objectSize.toNat ≤ Fpage.limit page := by
  have positive : 0 < objectSize.toNat := Nat.pos_of_ne_zero fun zero => nonempty (BitVec.eq_of_toNat_eq zero)
  constructor
  · intro inside
    have first := inside objectBase.toNat (Nat.le_refl _) (by omega)
    have last := inside (objectBase.toNat + objectSize.toNat - 1) (by omega) (by omega)
    omega
  · intro ⟨low, high⟩ address above below
    omega

theorem fpageContainsObject_iff (small : Fpage.bytes page < 2 ^ 32) : fpageContainsObject page objectBase objectSize = true ↔
    (Fpage.address page).toNat ≤ objectBase.toNat ∧ (objectBase.toNat + objectSize.toNat) % 2 ^ 32 < Fpage.limit page := by
  simp only [fpageContainsObject, Bool.and_eq_true, decide_eq_true_eq, BitVec.le_def, BitVec.lt_def, Fpage.toNat_limit small,
    BitVec.toNat_add]

theorem fpageContainsObject_exact (small : Fpage.bytes page < 2 ^ 32) :
    (fpageContainsObject page objectBase objectSize = true ↔ LiesInside page objectBase objectSize) ↔
      EndsApart page objectBase objectSize := by
  rw [fpageContainsObject_iff small]
  have word := Fpage.limit_lt small
  have base := objectBase.isLt
  have size := objectSize.isLt
  unfold EndsApart
  by_cases empty : objectSize = 0#32
  · have inside : LiesInside page objectBase objectSize := by
      intro address above below
      rw [empty] at below
      exact absurd below (Nat.not_lt.mpr above)
    rw [if_pos empty, iff_true_right inside, empty, BitVec.toNat_ofNat, Nat.zero_mod, Nat.add_zero, Nat.mod_eq_of_lt base]
  · rw [if_neg empty, liesInside_iff empty]
    omega

/-! ### The UTCB of a thread -/

namespace Kernel

variable {k k' : Kernel} {as t : Nat}

/-- The call puts its thread into the existing space `as`, unless the UTCB does not fit there. -/
structure JoinsSpace (k : Kernel) (as : Nat) : Prop where
  user : UserDest k.callerFrame.r0
  keeps : sameThreads k.callerFrame.r1 nilThread = false
  known : k.KnownScheduler k.callerFrame.r2
  space : ∃ s, k.findThreadByGlobalId k.callerFrame.r1 = some s ∧ (k.tcbs s).addressSpace = some as

/-- The thread that the call is about: the existing one, or the one that gets the first free slot. -/
def Concerns (k : Kernel) (t : Nat) : Prop :=
  k.findThreadByGlobalId k.callerFrame.r0 = some t ∨
    (k.findThreadByGlobalId k.callerFrame.r0 = none ∧ k.allocateTcb = some t)

def Succeeded (k k' : Kernel) : Prop := (k'.mem.frame k.callerSp).r0 = 1#32

/-- A UTCB of a successful call lies in the space's area, and no location that fits is refused. -/
structure UtcbHonoured (k : Kernel) (as : Nat) (k' : Kernel) : Prop where
  inside : Succeeded k k' → k.callerR4 ≠ 0xFFFFFFFF#32 → ∀ t, k.Concerns t →
    LiesInside (k'.asPool as).utcbPage (k'.tcbs t).utcb utcbSize
  fits : LiesInside (k.asPool as).utcbPage k.callerR4 utcbSize → Succeeded k k'

/-- The location keeps its UTCB, or the UTCB there ends below the top of the address space and not where the area ends. -/
def UtcbApart (k : Kernel) (as : Nat) : Prop :=
  k.callerR4 = 0xFFFFFFFF#32 ∨ (k.callerR4.toNat + utcbSize.toNat < 2 ^ 32 ∧
    k.callerR4.toNat + utcbSize.toNat ≠ Fpage.limit (k.asPool as).utcbPage)

instance (k : Kernel) (as : Nat) : Decidable (k.UtcbApart as) := inferInstanceAs (Decidable (_ ∨ _ ∧ _))

theorem liesInside_utcb {page location : Word} : LiesInside page location utcbSize ↔
    (Fpage.address page).toNat ≤ location.toNat ∧ location.toNat + 160 ≤ Fpage.limit page := liesInside_iff (by decide)

theorem holdsUtcb_iff {location : Word} (small : Fpage.bytes (k.asPool as).utcbPage < 2 ^ 32) : k.HoldsUtcb as location ↔
    (Fpage.address (k.asPool as).utcbPage).toNat ≤ location.toNat ∧
      (location.toNat + 160) % 2 ^ 32 < Fpage.limit (k.asPool as).utcbPage := fpageContainsObject_iff small

theorem JoinsSpace.only (joins : k.JoinsSpace as) {s : Nat} {own : Nat} (named : k.findThreadByGlobalId k.callerFrame.r1 = some s)
    (here : (k.tcbs s).addressSpace = some own) : own = as := by
  obtain ⟨s', named', here'⟩ := joins.space
  cases named.symm.trans named'
  exact Option.some.inj (here.symm.trans here')

theorem not_succeeded_refuse (err : ErrorCode) : ¬ Succeeded k (k.refuse k.callerSp err).unblockCaller := by
  intro succeeded
  have zero := (refuse_r0 k k.callerSp err).2
  rw [Succeeded, zero] at succeeded
  cases succeeded

/-- Where all other checks pass, the call succeeds if it comes past the check of the UTCB. -/
theorem succeeded_of_holds (joins : k.JoinsSpace as) (holds : k.HoldsUtcb as k.callerR4) (h : k.syscallThreadControl = .ok k') :
    Succeeded k k' := by
  obtain ⟨s, named, here⟩ := joins.space
  have known : ¬ (!isNilThread k.callerFrame.r2 && (k.findThreadByGlobalId k.callerFrame.r2).isNone) = true := by
    rcases joins.known with nil | known
    · simp [nil]
    · simp [Option.isSome_iff_ne_none.mp known]
  have fits : (!fpageContainsObject (k.asPool as).utcbPage k.callerR4 utcbSize) = false := congrArg not holds
  unfold syscallThreadControl at h
  dsimp only at h
  split at h
  · rename_i system
    obtain ⟨nonnil, low⟩ := Bool.and_eq_true_iff.mp system
    rcases joins.user with nil | high
    · have given : (!isNilThread k.callerFrame.r0) = true := nonnil
      rw [nil] at given
      cases given
    · exact absurd (of_decide_eq_true low) high
  · split at h
    · split at h
      · rename_i nil
        exact absurd nil (Bool.eq_false_iff.mp joins.keeps)
      · obtain ⟨k₁, changed, h⟩ := bind_ok h
        cases h
        have moved : k.syscallThreadControlModify k.callerSp _ k.callerFrame.r0 k.callerFrame.r1 k.callerFrame.r2
          k.callerFrame.r3 k.callerR4 = .ok k₁ := changed
        unfold syscallThreadControlModify at moved
        rw [named] at moved
        dsimp only at moved
        rw [if_neg known, here] at moved
        dsimp only at moved
        rw [fits, if_neg Bool.false_ne_true] at moved
        cases moved
        exact (succeeded_r0 _ _).2
    · split at h
      · rename_i nil
        exact absurd nil (Bool.eq_false_iff.mp joins.keeps)
      · obtain ⟨k₁, made, h⟩ := bind_ok h
        cases h
        have created : k.syscallThreadControlCreate k.callerSp k.callerFrame.r0 k.callerFrame.r1 k.callerFrame.r2
          k.callerFrame.r3 k.callerR4 = .ok k₁ := made
        unfold syscallThreadControlCreate at created
        dsimp only at created
        rw [named, if_neg (fun missing => by cases missing.1)] at created
        rw [Option.map_some, here, if_neg (by simp), if_neg known] at created
        rw [Option.bind_some, here, Option.map_some, fits, if_neg (by simp)] at created
        obtain ⟨⟨made, k₂⟩, -, created⟩ := bind_ok created
        cases made with
        | none => cases created
        | some t =>
          cases created
          exact (succeeded_r0 _ _).2

theorem setThreadState_tcb_utcb (k : Kernel) (t u : Nat) (st : ThreadState) :
    ((k.setThreadState u st).tcbs t).utcb = (k.tcbs t).utcb := by
  rw [setThreadState_tcbs, Function.update_apply]
  split
  · rename_i same
    rw [same]
  · rfl

theorem placeThread_utcb (k : Kernel) (t : Nat) (space : Option Nat) (dest scheduler pager utcbLocation : Word) :
    ((k.placeThread t space dest scheduler pager utcbLocation).tcbs t).utcb = utcbLocation := by
  unfold placeThread
  rw [setTcb_same]
  cases space with
  | none =>
    dsimp only
    rw [setTcb_same]
  | some s =>
    unfold joinSiblings
    dsimp only
    by_cases same : t = s
    · subst same
      rw [setTcb_same, setTcb_same, setTcb_same]
    · rw [setTcb_other _ _ _ _ same, setTcb_same, setTcb_same]

/-- What a successful call leaves behind. -/
theorem succeeded_places (joins : k.JoinsSpace as) (h : k.syscallThreadControl = .ok k') (succeeded : Succeeded k k') :
    k.HoldsUtcb as k.callerR4 ∧ k'.asPool = k.asPool ∧ (∃ t, k.Concerns t) ∧
      (k.callerR4 ≠ 0xFFFFFFFF#32 → ∀ t, k.Concerns t → (k'.tcbs t).utcb = k.callerR4) := by
  cases threadControlled h with
  | privileged system => exact absurd joins.user system
  | refused user err => exact absurd succeeded (not_succeeded_refuse err)
  | deletedSelf user found nil => cases joins.keeps.symm.trans nil
  | deleted user found nil => cases joins.keeps.symm.trans nil
  | @modified dest space own user found named inside moves known fits =>
    cases joins.only named inside
    refine ⟨fits, ?_, ⟨dest, .inl found⟩, fun moved t concerns => ?_⟩
    · unfold unblockCaller
      rw [setThreadState_asPool]
      rfl
    · have here : t = dest := by
        rcases concerns with present | absent
        · exact Option.some.inj (present.symm.trans found)
        · cases found.symm.trans absent.1
      subst here
      unfold unblockCaller
      rw [setThreadState_tcb_utcb]
      show ((k.setTcb t _).tcbs t).utcb = k.callerR4
      rw [setTcb_same]
      exact if_neg moved
  | @created new k₁ user missing inside made moves known fits =>
    obtain ⟨s, named, here⟩ := joins.space
    have free : k.allocateTcb = some new := by
      rcases createThread_spec made with ⟨none_, _⟩ | ⟨_, _, same, free, _⟩
      · cases none_
      · cases same
        exact free
    refine ⟨fits s as named here, ?_, ⟨new, .inr ⟨missing, free⟩⟩, fun _ t concerns => ?_⟩
    · unfold unblockCaller
      rw [setThreadState_asPool]
      have joined : Joined k new _ (k₁.placeThread new (k.findThreadByGlobalId k.callerFrame.r1) k.callerFrame.r0 k.callerFrame.r2
        k.callerFrame.r3 k.callerR4) := created_joined made
      exact joined.asPool
    · have here : t = new := by
        rcases concerns with present | absent
        · cases present.symm.trans missing
        · exact Option.some.inj (absent.2.symm.trans free)
      subst here
      unfold unblockCaller
      rw [setThreadState_tcb_utcb]
      exact placeThread_utcb _ _ _ _ _ _ _

theorem utcbHonoured_iff (joins : k.JoinsSpace as) (area : Fpage.bytes (k.asPool as).utcbPage < 2 ^ 32)
    (h : k.syscallThreadControl = .ok k') : k.UtcbHonoured as k' ↔ k.UtcbApart as := by
  have word := Fpage.limit_lt area
  have room := Fpage.bytes_ge (k.asPool as).utcbPage
  have last : Fpage.limit (k.asPool as).utcbPage =
      (Fpage.address (k.asPool as).utcbPage).toNat + Fpage.bytes (k.asPool as).utcbPage := rfl
  have utcb : utcbSize.toNat = 160 := rfl
  unfold UtcbApart
  rw [utcb]
  constructor
  · intro honoured
    by_contra together
    push Not at together
    obtain ⟨moved, ends⟩ := together
    have number : k.callerR4.toNat ≠ 2 ^ 32 - 1 := fun same => moved (BitVec.eq_of_toNat_eq same)
    have location := k.callerR4.isLt
    by_cases wraps : k.callerR4.toNat + 160 < 2 ^ 32
    · -- The UTCB ends with the area, and is refused.
      have fits : LiesInside (k.asPool as).utcbPage k.callerR4 utcbSize := liesInside_utcb.mpr (by have := ends wraps; omega)
      have holds := (succeeded_places joins h (honoured.fits fits)).1
      rw [holdsUtcb_iff area] at holds
      have := ends wraps
      omega
    · -- The end wraps around, and the UTCB is accepted.
      have holds : k.HoldsUtcb as k.callerR4 := (holdsUtcb_iff area).mpr (by omega)
      have succeeded := succeeded_of_holds joins holds h
      obtain ⟨-, pool, ⟨t, concerns⟩, placed⟩ := succeeded_places joins h succeeded
      have inside := honoured.inside succeeded moved t concerns
      rw [pool, placed moved t concerns, liesInside_utcb] at inside
      omega
  · intro apart
    refine ⟨fun succeeded moved t concerns => ?_, fun inside => ?_⟩
    · obtain ⟨holds, pool, -, placed⟩ := succeeded_places joins h succeeded
      rw [pool, placed moved t concerns, liesInside_utcb]
      rw [holdsUtcb_iff area] at holds
      have below := (apart.resolve_left moved).1
      omega
    · rw [liesInside_utcb] at inside
      have number : k.callerR4 ≠ 0xFFFFFFFF#32 := by
        intro same
        rw [same, BitVec.toNat_ofNat] at inside
        omega
      obtain ⟨below, other⟩ := apart.resolve_left number
      exact succeeded_of_holds joins ((holdsUtcb_iff area).mpr (by omega)) h

/-- `fpage_contains_object` tells whether an object lies inside a page if and only if the object does not end where the page
ends, or in front of that after a wrap; and every `thread_control` that puts a thread into a space keeps its UTCB in the UTCB
area, and refuses no location there, if and only if its UTCB ends apart in this sense. -/
theorem utcb_inside_iff (small : Fpage.bytes page < 2 ^ 32) :
    ((fpageContainsObject page objectBase objectSize = true ↔ LiesInside page objectBase objectSize) ↔
        EndsApart page objectBase objectSize) ∧
      ∀ {k k' : Kernel} {as : Nat}, k.syscallThreadControl = .ok k' → k.JoinsSpace as →
        Fpage.bytes (k.asPool as).utcbPage < 2 ^ 32 → (k.UtcbHonoured as k' ↔ k.UtcbApart as) := by
  refine ⟨fpageContainsObject_exact small, ?_⟩
  intro k k' as h joins area
  exact utcbHonoured_iff joins area h

/-- The root thread has a UTCB area, and moves the second thread's UTCB inside it. -/
def movesUtcb : Kernel :=
  let k := (ofTable [rootId, SmallSystem.secondId] [0, 1] 2).setAs 0 fun as => { as with utcbPage := Fpage.log2 0x5000#32 12 }
  let k := k.setTcb 0 fun tcb => { tcb with addressSpace := some 0, ctx := { tcb.ctx with r4 := 0x5100#32 } }
  k.setMem (k.mem.setFrame 0#32 fun f => { f with r0 := SmallSystem.secondId, r1 := rootId })

theorem utcb_inside_iff_moved : ∃ k', movesUtcb.syscallThreadControl = .ok k' ∧ movesUtcb.UtcbHonoured 0 k' ∧
    fpageContainsObject (Fpage.log2 0x5000#32 12) 0x5100#32 utcbSize = true := by
  have returned : (movesUtcb.syscallThreadControl.toOption.isSome) = true := by decide
  obtain ⟨k', found⟩ := Option.isSome_iff_exists.mp returned
  have joins : movesUtcb.JoinsSpace 0 := ⟨.inr (by decide), by decide, by decide, 0, by decide, by decide⟩
  obtain ⟨exact_, honoured⟩ := @utcb_inside_iff (Fpage.log2 0x5000#32 12) 0x5100#32 utcbSize (by decide)
  have inside : LiesInside (Fpage.log2 0x5000#32 12) 0x5100#32 utcbSize := liesInside_utcb.mpr (by decide)
  exact ⟨k', ok_of_toOption found, (honoured (ok_of_toOption found) joins (by decide)).mpr (by decide),
    (exact_.mpr (by decide)).mpr inside⟩

/-- The root thread creates a third thread whose UTCB would end behind the top of the address space. -/
def createHigh : List (Kernel → Action) :=
  SmallSystem.setup ++ [SmallSystem.load 0x6000#32 (globalId 0x42#32 1#32) rootId rootId rootId 0xFFFFFFA0#32 2#32,
    fun _ => .svc, fun _ => .pendsv]

/-- A UTCB at the end of an area is refused, and one that leaves the address space is accepted. -/
theorem utcb_outside :
    (LiesInside (Fpage.log2 0x5000#32 12) 0x5F60#32 utcbSize ∧
      fpageContainsObject (Fpage.log2 0x5000#32 12) 0x5F60#32 utcbSize = false) ∧
    ∃ b k k' as, boot SmallSystem.bootInfo = .ok b ∧ Theory.Run Step b as k ∧ k.pendingCall = some .threadControl ∧
      k.syscallThreadControl = .ok k' ∧ k.JoinsSpace 0 ∧ k.callerR4 = 0xFFFFFFA0#32 ∧ ¬ k.UtcbHonoured 0 k' := by
  refine ⟨⟨liesInside_utcb.mpr (by decide), by decide⟩, ?_⟩
  have done : ((SmallSystem.after createHigh).any fun k =>
      decide (k.pendingCall = some .threadControl ∧ k.callerR4 = 0xFFFFFFA0#32 ∧ ¬ threadNo k.callerFrame.r0 < userThreadStart ∧
        sameThreads k.callerFrame.r1 nilThread = false ∧ k.KnownScheduler k.callerFrame.r2 ∧
        k.findThreadByGlobalId k.callerFrame.r1 = some 2 ∧ (k.tcbs 2).addressSpace = some 0 ∧
        Fpage.bytes (k.asPool 0).utcbPage < 2 ^ 32) && k.syscallThreadControl.toOption.isSome) = true := by decide +kernel
  obtain ⟨b, k, as, booted, run, _, holds⟩ := SmallSystem.reached_after done
  obtain ⟨call, returned⟩ := Bool.and_eq_true_iff.mp holds
  obtain ⟨number, location, high, keeps, known, named, space, area⟩ := of_decide_eq_true call
  obtain ⟨k', found⟩ := Option.isSome_iff_exists.mp returned
  have joins : k.JoinsSpace 0 := ⟨.inr high, keeps, known, 2, named, space⟩
  refine ⟨b, k, k', as, booted, run, number, ok_of_toOption found, joins, location, ?_⟩
  rw [utcbHonoured_iff joins area (ok_of_toOption found), UtcbApart, location]
  intro apart
  rcases apart with same | ⟨below, -⟩
  · exact absurd same (by decide)
  · exact absurd below (by decide)

end Kernel
end BradypOS
