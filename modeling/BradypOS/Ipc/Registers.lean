import BradypOS.Ipc.Items

/-!
# Message copies and the register files

`copy_payload` with a log of the registers it touches and the strings it writes. An item is read as two
words wherever it starts, and every string takes two more buffer registers.
-/

namespace BradypOS.Memory

open L4

/-- What a copy touches: message registers of sender and receiver, buffer registers of the receiver, and as many bytes
of a receive buffer for which it declares room. -/
inductive Access where
  | readMr (i : Nat)
  | writeMr (i : Nat)
  | readBr (i : Nat)
  | writeString (length room : Nat)
  deriving DecidableEq, Repr

def Access.inside : Access → Bool
  | .readMr i | .writeMr i => i < mrCount
  | .readBr i => i < brCount
  | .writeString length room => length ≤ room

def loggedItems (src dst : Word) (last : Nat) (acceptor : Word) :
    Nat → Memory → Nat → Nat → Nat → List Access × Fallible (IpcErrorCode × Memory × Nat)
  | 0, _, _, _, _ => ([], .error .hang)
  | fuel + 1, m, fromMrOffset, toMrOffset, toBrOffset =>
    if last < fromMrOffset then ([], .ok (.none, m, toMrOffset))
    else
      let item := (m.utcb src).mr fromMrOffset
      let second := (m.utcb src).mr (fromMrOffset + 1)
      let reads := [Access.readMr fromMrOffset, .readMr (fromMrOffset + 1)]
      let writes := [Access.writeMr toMrOffset, .writeMr (toMrOffset + 1)]
      let store := fun m : Memory =>
        m.setUtcb dst fun u => (u.setMr toMrOffset item).setMr (toMrOffset + 1) second
      match Item.type item with
      | .mapItem =>
        let rest := loggedItems src dst last acceptor fuel (store m) (fromMrOffset + 2) (toMrOffset + 2) toBrOffset
        (reads ++ writes ++ rest.1, rest.2)
      | .stringItem =>
        if !acceptsStrings acceptor then (reads, .ok (.messageOverflow, m, toMrOffset))
        else if Item.compound item then (reads, .error (.panic .compoundString))
        else
          let toItem := (m.utcb dst).br toBrOffset
          let looks := reads ++ [.readBr toBrOffset]
          if Item.compound toItem then (looks, .error (.panic .compoundString))
          else if Item.length toItem < Item.length item then (looks, .ok (.messageOverflow, m, toMrOffset))
          else
            let m := m.copyBytes ((m.utcb dst).br (toBrOffset + 1)) second (Item.length item)
            let m := store m
            let m := m.setUtcb dst fun u => u.setMr (toMrOffset + 1) (u.br (toBrOffset + 1))
            let rest := loggedItems src dst last acceptor fuel m (fromMrOffset + 2) (toMrOffset + 2) (toBrOffset + 2)
            (looks ++ [.readBr (toBrOffset + 1), .writeString (Item.length item) (Item.length toItem)] ++ writes ++ rest.1, rest.2)
      | .grantItem | .ctrlXferItem | .other => (reads, .error .hang)

def wordAccesses (u : Nat) : List Access := (List.range u).flatMap fun i => [.readMr (i + 1), .writeMr (i + 1)]

/-- The end of `copy_payload`, behind the items. -/
def loggedHead (src dst : Tcb) (u : Nat) (label : Word) (begun : List Access) :
    Fallible (IpcErrorCode × Memory × Nat) → List Access × Fallible (IpcErrorCode × Memory)
  | .error e => (begun, .error e)
  | .ok (err, m, toMrOffset) =>
    if err ≠ .none then (begun, .ok (err, m))
    else (begun ++ [.writeMr 0], .ok (.none, m.withHead src dst u (toMrOffset - (u + 1)) label))

/-- The words that the tag in a sender's first register counts. -/
def untyped (m : Memory) (src : Word) : Nat := MsgTag.u ((m.utcb src).mr 0)

def typed (m : Memory) (src : Word) : Nat := MsgTag.t ((m.utcb src).mr 0)

def itemLog (m : Memory) (src dst : Word) (u t : Nat) : List Access × Fallible (IpcErrorCode × Memory × Nat) :=
  loggedItems src dst (u + t) (((m.withWords src dst u).utcb dst).br 0) (mrCount + 1) (m.withWords src dst u) (u + 1) (u + 1) 1

def loggedPayload (m : Memory) (src dst : Tcb) : List Access × Fallible (IpcErrorCode × Memory) :=
  let u := m.untyped src.utcb
  let t := m.typed src.utcb
  if mrCount < u + t then ([.readMr 0], .ok (.messageOverflow, m))
  else
    let items := m.itemLog src.utcb dst.utcb u t
    loggedHead src dst u (MsgTag.label ((m.utcb src.utcb).mr 0))
      (.readMr 0 :: wordAccesses u ++ .readBr 0 :: items.1) items.2

section Log

variable {src dst acceptor : Word} {last fuel i j b : Nat} {m : Memory}

theorem loggedItems_eq : (loggedItems src dst last acceptor fuel m i j b).2 = copyItems src dst last acceptor fuel m i j b := by
  induction fuel generalizing m i j b with
  | zero => rfl
  | succ fuel ih =>
    unfold loggedItems copyItems
    split
    · rfl
    · dsimp only
      cases Item.type ((m.utcb src).mr i) with
      | mapItem => exact ih
      | stringItem =>
        dsimp only
        split
        · rfl
        · split
          · rfl
          · split
            · rfl
            · split
              · rfl
              · exact ih
      | grantItem => rfl
      | ctrlXferItem => rfl
      | other => rfl

end Log

theorem loggedPayload_eq (m : Memory) (src dst : Tcb) : (m.loggedPayload src dst).2 = m.copyPayload src dst := by
  have items : (m.itemLog src.utcb dst.utcb (m.untyped src.utcb) (m.typed src.utcb)).2 =
      copyItems src.utcb dst.utcb (m.untyped src.utcb + m.typed src.utcb)
        (((m.withWords src.utcb dst.utcb (m.untyped src.utcb)).utcb dst.utcb).br 0) (mrCount + 1)
        (m.withWords src.utcb dst.utcb (m.untyped src.utcb)) (m.untyped src.utcb + 1) (m.untyped src.utcb + 1) 1 := loggedItems_eq
  unfold loggedPayload copyPayload
  dsimp only
  change (if mrCount < m.untyped src.utcb + m.typed src.utcb then _ else _ : List Access × Fallible (IpcErrorCode × Memory)).2 =
    if mrCount < m.untyped src.utcb + m.typed src.utcb then _ else
      copyItems src.utcb dst.utcb (m.untyped src.utcb + m.typed src.utcb)
        (((m.withWords src.utcb dst.utcb (m.untyped src.utcb)).utcb dst.utcb).br 0) (mrCount + 1)
        (m.withWords src.utcb dst.utcb (m.untyped src.utcb)) (m.untyped src.utcb + 1) (m.untyped src.utcb + 1) 1 >>= _
  split
  · rfl
  · rw [← items]
    cases (m.itemLog src.utcb dst.utcb (m.untyped src.utcb) (m.typed src.utcb)).2 with
    | error e => rfl
    | ok r =>
      obtain ⟨err, m', n⟩ := r
      by_cases failed : err ≠ .none
      · rw [loggedHead, if_pos failed]
        exact (if_pos failed).symm
      · rw [loggedHead, if_neg failed]
        exact (if_neg failed).symm

def threadAt (utcb : Word) : Tcb :=
  { globalId := 0#32, localId := utcb, state := .inactive, ctx := ⟨0, 0, 0, 0, 0, 0, 0, 0, 0, 0⟩, addressSpace := none, utcb
    priority := 0#32, pager := 0#32, scheduler := 0#32, ipcFrom := 0#32, nextSibling := none, prevSibling := none }

end BradypOS.Memory
