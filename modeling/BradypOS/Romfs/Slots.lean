import BradypOS.Romfs.Operation
import BradypOS.Romfs.Reopen

/-!
# The slot that a request changes

A request that is answered with an error leaves the table of open files as it was. One that opens a file
makes an entry out of a slot that was not in use, one that closes a file makes a tombstone out of its entry,
and the others leave the table alone.
-/

namespace BradypOS.Romfs

open L4 Vfs Theory.Probing

variable {iface : BlockIface} {states states' : FileStates} {client fd : Word}

/-- A slot that was not in use has become the entry of a file, with what its header says. -/
def Adds (iface : BlockIface) (states : FileStates) (client fd fileOff : Word) (states' : FileStates) : Prop :=
  ∃ i fileInfo, (states i).status ≠ .used ∧ romfsFileInfo iface fileOff = some fileInfo ∧
    states' = Function.update states i { status := .used, owner := client, fd, fileInfo, fileOff }

/-- The entry of an open file has become a tombstone. -/
def Buries (states : FileStates) (client fd : Word) (states' : FileStates) : Prop :=
  ∃ i, (states i).status = .used ∧ (states i).owner = client ∧ (states i).fd = fd ∧
    states' = Function.update states i { states i with status := .tombstone }

theorem installFile_adds {fileOff : Word} (installed : installFile iface states client fd fileOff = .ok states') :
    Adds iface states client fd fileOff states' := by
  unfold installFile at installed
  split at installed
  · cases installed
  · split at installed
    · cases installed
    · rename_i i _ vacant
      split at installed
      · cases installed
      · rename_i info read
        cases installed
        exact ⟨i, info, vacant, read, rfl⟩

theorem closeFile_buries (closed : closeFile states client fd = .ok states') : Buries states client fd states' := by
  unfold closeFile at closed
  split at closed
  · cases closed
  · rename_i i found
    cases closed
    obtain ⟨used, key⟩ := lookup_holds found
    obtain ⟨owner, same⟩ := Prod.mk.inj key
    exact ⟨i, used, owner, same, rfl⟩

theorem openFileAt_ok {behind : Nat → Byte} {newFd : Word} {path : List Byte} {result : Except Errno FileStates}
    (opened : openFileAt iface states client fd behind newFd path = .ok result) (success : result = .ok states') :
    ∃ dir fileOff, findVfsFileState states client fd = some dir ∧ romfsOpenat iface behind (states dir).fileOff path = .ok fileOff ∧
      fileOff ≠ invalidFile ∧ Adds iface states client newFd fileOff states' := by
  unfold openFileAt at opened
  split at opened
  · cases opened
    cases success
  · rename_i dir found
    obtain ⟨fileOff, walked, rest⟩ := bind_ok opened
    split at rest
    · cases rest
      cases success
    · rename_i valid
      cases rest
      exact ⟨dir, fileOff, found, walked, valid, installFile_adds success⟩

namespace Server

/-- A request is answered with an error and no change, or with success and this change of the table. -/
inductive Outcome (changed : FileStates → Prop) (s s' : Server) : Prop where
  | failed (error : s'.Failed) (kept : s'.fileStates = s.fileStates)
  | done (success : ¬ s'.Failed) (change : changed s'.fileStates)

variable {s s' : Server} {r : Request} {client tag : Word}

theorem Outcome.mono {changed changed' : FileStates → Prop} (h : Outcome changed s s') (implies : ∀ t, changed t → changed' t) :
    Outcome changed' s s' := by
  rcases h with ⟨error, kept⟩ | ⟨success, change⟩
  · exact .failed error kept
  · exact .done success (implies _ change)

/-- An answer that changes the table is a success. -/
theorem outcome_conclude {answered : Server → Server} (kept : ∀ s, (answered s).fileStates = s.fileStates)
    (success : ∀ s, ¬ (answered s).Failed) (result : Except Errno FileStates) :
    Outcome (fun t => result = .ok t) s (s.conclude answered result) := by
  cases result with
  | error errno => exact .failed (failed_makeIpcError errno) rfl
  | ok states =>
    refine .done (success _) ?_
    rw [conclude, kept]
    rfl

theorem outcome_opened {op : Answer} {retFd : Nat} (behind : 0 < retFd) (success : op ≠ .error) (fd : Word)
    (result : Except Errno FileStates) :
    Outcome (fun t => result = .ok t) s (s.conclude (fun s' => (s'.answer op 1 0).loadMr retFd fd) result) := by
  apply outcome_conclude
  · exact fun _ => rfl
  · intro s
    rw [failed_loadMr behind, failed_answer]
    exact success

theorem handleVfsOpenroot_outcome (s : Server) (client tag : Word) :
    Outcome (Adds s.ops s.fileStates client (s.utcb.mr openrootFd) romfsRootDirectory) s (s.handleVfsOpenroot client tag) := by
  by_cases malformed : MsgTag.u tag ≠ 1 ∨ MsgTag.t tag ≠ 0
  · rw [handleVfsOpenroot, if_pos malformed]
    exact .failed (failed_makeIpcError _) rfl
  · push Not at malformed
    rw [handleVfsOpenroot_eq malformed.1 malformed.2]
    exact (outcome_opened (by decide) (by decide) _ _).mono fun _ => installFile_adds

/-- The path of a request leads from an open directory to this file. -/
def Finds (s : Server) (client fileOff : Word) : Prop :=
  ∃ dir, findVfsFileState s.fileStates client (s.utcb.mr openatFd) = some dir ∧ fileOff ≠ invalidFile ∧
    romfsOpenat s.terminated.ops s.stack (s.fileStates dir).fileOff
      (pathAt s.terminated.byte (s.utcb.mr (openatStr + 1)) (Item.length (s.utcb.mr openatStr))) = .ok fileOff

theorem handleVfsOpenat_outcome (answered : s.handleVfsOpenat client tag = .ok s') :
    Outcome (fun t => ∃ fileOff, s.Finds client fileOff ∧
      Adds s.terminated.ops s.fileStates client (s.utcb.mr openatNewfd) fileOff t) s s' := by
  by_cases malformed : MsgTag.u tag ≠ 2 ∨ MsgTag.t tag ≠ 2
  · rw [handleVfsOpenat, if_pos malformed] at answered
    cases answered
    exact .failed (failed_makeIpcError _) rfl
  by_cases string : Item.type (s.utcb.mr openatStr) = .stringItem
  · cases compound : Item.compound (s.utcb.mr openatStr) with
    | true =>
      rw [handleVfsOpenat, if_neg malformed] at answered
      dsimp only at answered
      rw [if_neg (by simp [string]), if_pos compound] at answered
      cases answered
      exact .failed (failed_makeIpcError _) rfl
    | false =>
      push Not at malformed
      rw [handleVfsOpenat_eq malformed.1 malformed.2 string compound] at answered
      cases opened : openFileAt s.terminated.ops s.fileStates client (s.utcb.mr openatFd) s.stack (s.utcb.mr openatNewfd)
          (pathAt s.terminated.byte (s.utcb.mr (openatStr + 1)) (Item.length (s.utcb.mr openatStr))) with
      | error halt =>
        rw [opened] at answered
        cases answered
      | ok result =>
        rw [opened] at answered
        cases answered
        have outcome : Outcome (fun t => result = .ok t) s.terminated
            (s.terminated.conclude (fun s' => (s'.answer .openatRet 1 0).loadMr openatRetFd (s.utcb.mr openatNewfd)) result) :=
          outcome_opened (by decide) (by decide) _ _
        rcases outcome with ⟨error, kept⟩ | ⟨success, change⟩
        · exact .failed error kept
        · obtain ⟨dir, fileOff, found, walked, valid, adds⟩ := openFileAt_ok opened change
          exact .done success ⟨fileOff, ⟨dir, found, valid, walked⟩, adds⟩
  · rw [handleVfsOpenat, if_neg malformed] at answered
    dsimp only at answered
    rw [if_pos string] at answered
    cases answered
    exact .failed (failed_makeIpcError _) rfl

theorem handleVfsClose_outcome (s : Server) (client tag : Word) :
    Outcome (Buries s.fileStates client (s.utcb.mr closeFd)) s (s.handleVfsClose client tag) := by
  by_cases malformed : MsgTag.u tag ≠ 1 ∨ MsgTag.t tag ≠ 0
  · rw [handleVfsClose, if_pos malformed]
    exact .failed (failed_makeIpcError _) rfl
  · push Not at malformed
    rw [handleVfsClose_eq malformed.1 malformed.2]
    have outcome : Outcome (fun t => closeFile s.fileStates client (s.utcb.mr closeFd) = .ok t) s
        (s.conclude (fun s' => s'.answer .closeRet 0 0) (closeFile s.fileStates client (s.utcb.mr closeFd))) := by
      apply outcome_conclude
      · exact fun _ => rfl
      · intro s
        rw [failed_answer]
        decide
    exact outcome.mono fun _ => closeFile_buries

/-- What a request does to the table, by its operation. -/
structure SlotEffect (s : Server) (r : Request) (s' : Server) : Prop where
  failed : s'.Failed → s'.fileStates = s.fileStates
  openroot : r.op = some .openroot → ¬ s'.Failed →
    Adds (romfsOps r.byte s.rootfsBase) s.fileStates r.client (r.utcb.mr openrootFd) romfsRootDirectory s'.fileStates
  openat : r.op = some .openat → ¬ s'.Failed → ∃ dir fileOff,
    findVfsFileState s.fileStates r.client (r.utcb.mr openatFd) = some dir ∧ fileOff ≠ invalidFile ∧
      romfsOpenat (romfsOps r.pathMemory s.rootfsBase) r.stack (s.fileStates dir).fileOff r.path = .ok fileOff ∧
      Adds (romfsOps r.pathMemory s.rootfsBase) s.fileStates r.client (r.utcb.mr openatNewfd) fileOff s'.fileStates
  close : r.op = some .close → ¬ s'.Failed → Buries s.fileStates r.client (r.utcb.mr closeFd) s'.fileStates
  others : r.op ≠ some .openroot → r.op ≠ some .openat → r.op ≠ some .close → s'.fileStates = s.fileStates

/-- A failed request changes nothing; a successful one changes one slot, or none if it neither opens nor closes a file. -/
theorem serve_slots (h : s.Serve r s') : s.SlotEffect r s' := by
  have kept : s'.fileStates = s.fileStates → r.op ≠ some .openroot → r.op ≠ some .openat → r.op ≠ some .close → s.SlotEffect r s' := by
    intro same notRoot notAt notClose
    exact ⟨fun _ => same, fun op => absurd op notRoot, fun op => absurd op notAt, fun op => absurd op notClose, fun _ _ _ => same⟩
  cases op : r.op with
  | none =>
    rw [Serve, serve_of_op op] at h
    cases h
    exact kept rfl (by simp [op]) (by simp [op]) (by simp [op])
  | some operation =>
    rw [Serve, serve_of_op op] at h
    cases operation with
    | openroot =>
      cases h
      rcases handleVfsOpenroot_outcome (s.receive r) r.client (r.utcb.mr 0) with ⟨error, same⟩ | ⟨success, adds⟩
      · exact ⟨fun _ => same, fun _ success => absurd error success, by simp [op], by simp [op], by simp [op]⟩
      · exact ⟨fun error => absurd error success, fun _ _ => adds, by simp [op], by simp [op], by simp [op]⟩
    | openat =>
      rcases handleVfsOpenat_outcome h with ⟨error, same⟩ | ⟨success, fileOff, ⟨dir, found, valid, walked⟩, adds⟩
      · exact ⟨fun _ => same, by simp [op], fun _ success => absurd error success, by simp [op], by simp [op]⟩
      · exact ⟨fun error => absurd error success, by simp [op], fun _ _ => ⟨dir, fileOff, found, valid, walked, adds⟩, by simp [op],
          by simp [op]⟩
    | close =>
      cases h
      rcases handleVfsClose_outcome (s.receive r) r.client (r.utcb.mr 0) with ⟨error, same⟩ | ⟨success, buries⟩
      · exact ⟨fun _ => same, by simp [op], by simp [op], fun _ success => absurd error success, by simp [op]⟩
      · exact ⟨fun error => absurd error success, by simp [op], by simp [op], fun _ _ => buries, by simp [op]⟩
    | stat =>
      cases h
      exact kept (handleVfsStat_fileStates _ _ _) (by simp [op]) (by simp [op]) (by simp [op])
    | read =>
      cases h
      exact kept (handleVfsRead_fileStates _ _ _) (by simp [op]) (by simp [op]) (by simp [op])
    | write =>
      cases h
      exact kept (handleVfsWrite_fileStates _ _ _) (by simp [op]) (by simp [op]) (by simp [op])
    | map =>
      cases h
      exact kept (handleVfsMap_fileStates _ _ _) (by simp [op]) (by simp [op]) (by simp [op])

/-- The root directory is opened in the table without entries. -/
theorem serve_slots_openroot : ∃ s, empty.Serve (ask .openroot 3#32) s ∧
    Adds (romfsOps (fun _ => 0#8) 0#32) empty.fileStates 0x100001#32 3#32 romfsRootDirectory s.fileStates := by
  have served : empty.Serve (ask .openroot 3#32) _ := rfl
  exact ⟨_, served, (serve_slots served).openroot (by decide) (by decide)⟩

end Server
end BradypOS.Romfs
