import BradypOS.Romfs.Server
import BradypOS.Theory.Transition

/-!
# The table of open files

What a request does to `file_states`, and what holds of the table in every run: lookups find every
open file, clients do not see one another, and an open file has one entry as long as no tombstone
hides it from a request that opens it again.
-/

namespace BradypOS.Romfs

open L4 Vfs Theory.Probing

namespace Request

def op (r : Request) : Option Op := Op.ofLabel (MsgTag.label (r.utcb.mr 0))

/-- The request asks to open `fd`. -/
inductive Opens (r : Request) (fd : Word) : Prop where
  | openroot (op : r.op = some .openroot) (here : r.utcb.mr openrootFd = fd)
  | openat (op : r.op = some .openat) (here : r.utcb.mr openatNewfd = fd)

def Closes (r : Request) (fd : Word) : Prop := r.op = some .close ∧ r.utcb.mr closeFd = fd

/-- The request asks for something of an open `fd`. -/
inductive Uses (r : Request) (fd : Word) : Prop where
  | stat (op : r.op = some .stat) (here : r.utcb.mr statFd = fd)
  | read (op : r.op = some .read) (here : r.utcb.mr readFd = fd)
  | map (op : r.op = some .map) (here : r.utcb.mr mapFd = fd)
  | openat (op : r.op = some .openat) (here : r.utcb.mr openatFd = fd)
  | close (op : r.op = some .close) (here : r.utcb.mr closeFd = fd)

end Request

namespace Server

def Serve (s : Server) (r : Request) (s' : Server) : Prop := s.serve r = .ok s'

/-- The answer is an error. -/
def Failed (s : Server) : Prop := MsgTag.label (s.utcb.mr 0) = Answer.error.toWord

instance (s : Server) : Decidable s.Failed := inferInstanceAs (Decidable (_ = _))

/-- The client has the file open. -/
def IsOpen (s : Server) (client fd : Word) : Prop := ∃ i, view.Holds (s.fileStates i) (client, fd)

/-- An entry for the client's `fd` was put where none was in use. -/
structure Installed (s : Server) (client fd : Word) (s' : Server) (i : Fin fileStateCount) (e : VfsFileState) : Prop where
  success : ¬ s'.Failed
  point : findVfsFileStateInsertionPoint s.fileStates client fd = some i
  vacant : (s.fileStates i).status ≠ .used
  holds : view.Holds e (client, fd)
  table : s'.fileStates = Function.update s.fileStates i e

/-- The entry for the client's `fd` became a tombstone. -/
structure Removed (s : Server) (client fd : Word) (s' : Server) (i : Fin fileStateCount) (e : VfsFileState) : Prop where
  found : findVfsFileState s.fileStates client fd = some i
  gone : e.status = .tombstone
  table : s'.fileStates = Function.update s.fileStates i e

/-- What a request has done to the table. -/
inductive Effect (s : Server) (r : Request) (s' : Server) : Prop where
  | kept (same : s'.fileStates = s.fileStates)
  | opened (fd : Word) (i : Fin fileStateCount) (e : VfsFileState) (opens : r.Opens fd) (done : s.Installed r.client fd s' i e)
  | closed (fd : Word) (i : Fin fileStateCount) (e : VfsFileState) (closes : r.Closes fd) (done : s.Removed r.client fd s' i e)

variable {s s' : Server} {r : Request} {client fd tag : Word}

@[simp] theorem fileStates_receive : (s.receive r).fileStates = s.fileStates := rfl
@[simp] theorem utcb_receive : (s.receive r).utcb = r.utcb := rfl
@[simp] theorem fileStates_makeIpcError (errno : Errno) : (s.makeIpcError errno).fileStates = s.fileStates := rfl
@[simp] theorem fileStates_answer (op : Answer) (u t : Nat) : (s.answer op u t).fileStates = s.fileStates := rfl
@[simp] theorem fileStates_loadMr (i : Nat) (w : Word) : (s.loadMr i w).fileStates = s.fileStates := rfl
@[simp] theorem fileStates_setByte (a : Word) (c : Byte) : (s.setByte a c).fileStates = s.fileStates := rfl
@[simp] theorem fileStates_setFileStates (t : FileStates) : (s.setFileStates t).fileStates = t := rfl
@[simp] theorem utcb_setByte (a : Word) (c : Byte) : (s.setByte a c).utcb = s.utcb := rfl

theorem failed_makeIpcError (errno : Errno) : (s.makeIpcError errno).Failed := by
  simp [Failed, makeIpcError, Utcb.makeIpcError, Utcb.mr, Utcb.setMr, MsgTag.label_mk, Answer.toWord]

theorem failed_loadMr {i : Nat} (behind : 0 < i) (w : Word) : (s.loadMr i w).Failed ↔ s.Failed := by
  simp [Failed, loadMr, Utcb.mr, Utcb.setMr, Nat.ne_of_lt behind]

theorem failed_answer (op : Answer) (u t : Nat) : (s.answer op u t).Failed ↔ op = .error := by
  cases op <;> simp [Failed, answer, Utcb.mr, Utcb.setMr, MsgTag.label_mk, Answer.toWord]

theorem not_holds {e : VfsFileState} {k : Word × Word} (idle : e.status ≠ .used) : ¬ view.Holds e k := fun holds => idle holds.1

theorem Removed.not_holds {i : Fin fileStateCount} {e : VfsFileState} {k : Word × Word} (done : s.Removed client fd s' i e) :
    ¬ view.Holds e k := by
  apply Server.not_holds
  rw [done.gone]
  decide

theorem not_holds_of_free (free : ∀ i, (s.fileStates i).status = .free) (i : Fin fileStateCount) (k : Word × Word) :
    ¬ view.Holds (s.fileStates i) k := by
  apply not_holds
  rw [free i]
  decide

theorem romfsFileInfo_ops (s : Server) (file : Word) : ∃ info, romfsFileInfo s.ops file = some info := ⟨_, rfl⟩

/-! ### The handlers -/

theorem openFileState_installed {i : Fin fileStateCount} (fileOff : Word) (op : Answer) (retFd : Nat) (success : op ≠ .error)
    (behind : 0 < retFd) (point : findVfsFileStateInsertionPoint s.fileStates client fd = some i)
    (vacant : (s.fileStates i).status ≠ .used) :
    ∃ e, s.Installed client fd (s.openFileState i client fd fileOff op retFd) i e := by
  obtain ⟨info, read⟩ := romfsFileInfo_ops s fileOff
  unfold openFileState
  rw [read]
  refine ⟨_, ?_, point, vacant, ⟨rfl, rfl⟩, rfl⟩
  rw [failed_loadMr behind, failed_answer]
  exact success

/-- A request to open a file fails without a change, or it puts an entry where none was in use. -/
theorem handleVfsOpenroot_cases (s : Server) (client tag : Word) :
    (s.handleVfsOpenroot client tag).Failed ∧ (s.handleVfsOpenroot client tag).fileStates = s.fileStates ∨
      ∃ i e, s.Installed client (s.utcb.mr openrootFd) (s.handleVfsOpenroot client tag) i e := by
  unfold handleVfsOpenroot
  split
  · exact .inl ⟨failed_makeIpcError _, rfl⟩
  · dsimp only
    split
    · exact .inl ⟨failed_makeIpcError _, rfl⟩
    · rename_i i point
      split
      · exact .inl ⟨failed_makeIpcError _, rfl⟩
      · rename_i vacant
        rw [if_neg (by decide)]
        exact .inr ⟨i, openFileState_installed romfsRootDirectory .openrootRet openrootRetFd (by decide) (by decide) point vacant⟩

theorem handleVfsOpenat_cases (h : s.handleVfsOpenat client tag = .ok s') :
    s'.Failed ∧ s'.fileStates = s.fileStates ∨ ∃ i e, s.Installed client (s.utcb.mr openatNewfd) s' i e := by
  unfold handleVfsOpenat at h
  split at h
  · cases h
    exact .inl ⟨failed_makeIpcError _, rfl⟩
  · simp only [] at h
    split_ifs at h
    · cases h
      exact .inl ⟨failed_makeIpcError _, rfl⟩
    · cases h
      exact .inl ⟨failed_makeIpcError _, rfl⟩
    · split at h
      · cases h
        exact .inl ⟨failed_makeIpcError _, rfl⟩
      · obtain ⟨fileOffset, -, h⟩ := bind_ok h
        split_ifs at h
        · cases h
          exact .inl ⟨failed_makeIpcError _, rfl⟩
        · split at h
          · cases h
            exact .inl ⟨failed_makeIpcError _, rfl⟩
          · rename_i i point
            split_ifs at h with used
            · cases h
              exact .inl ⟨failed_makeIpcError _, rfl⟩
            · cases h
              obtain ⟨e, done⟩ := openFileState_installed fileOffset .openatRet openatRetFd (by decide) (by decide) point used
              exact .inr ⟨i, e, done.success, done.point, done.vacant, done.holds, done.table⟩

theorem handleVfsClose_cases (s : Server) (client tag : Word) :
    (s.handleVfsClose client tag).Failed ∧ (s.handleVfsClose client tag).fileStates = s.fileStates ∨
      ∃ i e, s.Removed client (s.utcb.mr closeFd) (s.handleVfsClose client tag) i e := by
  unfold handleVfsClose deleteVfsFileState
  split
  · exact .inl ⟨failed_makeIpcError _, rfl⟩
  · cases found : findVfsFileState s.fileStates client (s.utcb.mr closeFd) with
    | none => exact .inl ⟨failed_makeIpcError _, rfl⟩
    | some i => exact .inr ⟨i, _, found, rfl, rfl⟩

theorem handleVfsStat_fileStates (s : Server) (client tag : Word) : (s.handleVfsStat client tag).fileStates = s.fileStates := by
  unfold handleVfsStat
  split
  · rfl
  · split
    · rfl
    · split <;> rfl

theorem handleVfsRead_fileStates (s : Server) (client tag : Word) : (s.handleVfsRead client tag).fileStates = s.fileStates := by
  unfold handleVfsRead
  split
  · rfl
  · split <;> rfl

theorem handleVfsWrite_fileStates (s : Server) (client tag : Word) : (s.handleVfsWrite client tag).fileStates = s.fileStates := by
  unfold handleVfsWrite
  split
  · rfl
  · split <;> rfl

theorem handleVfsMap_fileStates (s : Server) (client tag : Word) : (s.handleVfsMap client tag).fileStates = s.fileStates := by
  unfold handleVfsMap
  split
  · rfl
  · split
    · rfl
    · dsimp only
      split_ifs <;> rfl

theorem serve_of_op {op : Option Op} (named : r.op = op) : s.serve r = (s.receive r).dispatch op r.client (r.utcb.mr 0) := by
  rw [← named]
  rfl

theorem serve_effect (h : s.Serve r s') : s.Effect r s' := by
  unfold Serve serve dispatch at h
  dsimp only at h
  split at h
  · rename_i op
    cases h
    rcases handleVfsOpenroot_cases (s.receive r) r.client ((s.receive r).utcb.mr 0) with ⟨_, same⟩ | ⟨i, e, done⟩
    · exact .kept same
    · exact .opened _ i e (.openroot op rfl) ⟨done.success, done.point, done.vacant, done.holds, done.table⟩
  · rename_i op
    rcases handleVfsOpenat_cases h with ⟨_, same⟩ | ⟨i, e, done⟩
    · exact .kept same
    · exact .opened _ i e (.openat op rfl) ⟨done.success, done.point, done.vacant, done.holds, done.table⟩
  · rename_i op
    cases h
    rcases handleVfsClose_cases (s.receive r) r.client ((s.receive r).utcb.mr 0) with ⟨_, same⟩ | ⟨i, e, done⟩
    · exact .kept same
    · exact .closed _ i e ⟨op, rfl⟩ ⟨done.found, done.gone, done.table⟩
  · cases h
    exact .kept (handleVfsStat_fileStates _ _ _)
  · cases h
    exact .kept (handleVfsRead_fileStates _ _ _)
  · cases h
    exact .kept (handleVfsWrite_fileStates _ _ _)
  · cases h
    exact .kept (handleVfsMap_fileStates _ _ _)
  · cases h
    exact .kept rfl

/-! ### Complete lookups -/

/-- Every open file is reached by its probe sequence. -/
def Reachable (s : Server) : Prop := Complete view probes s.fileStates

theorem reachable_of_free (free : ∀ i, (s.fileStates i).status = .free) : s.Reachable := by
  intro i k holds
  exact absurd holds (not_holds_of_free free i k)

theorem Reachable.serve (h : s.Reachable) (step : s.Serve r s') : s'.Reachable := by
  unfold Reachable
  rcases serve_effect step with ⟨same⟩ | ⟨fd, i, e, _, done⟩ | ⟨fd, i, e, _, done⟩
  · rw [same]
    exact h
  · rw [done.table]
    exact Complete.insert h done.point done.holds
  · rw [done.table]
    exact Complete.delete h done.gone

/-- What a client sees of its open file. -/
def found (s : Server) (client fd : Word) : Option (Word × FileInfo) :=
  (findVfsFileState s.fileStates client fd).map fun i => ((s.fileStates i).fileOff, (s.fileStates i).fileInfo)

theorem found_update {i : Fin fileStateCount} {e : VfsFileState} (h : s.Reachable) (table : s'.fileStates = Function.update s.fileStates i e)
    (busy : e.status ≠ .free) (before : ¬ view.Holds (s.fileStates i) (client, fd)) (after : ¬ view.Holds e (client, fd)) :
    s'.found client fd = s.found client fd := by
  have same : findVfsFileState s'.fileStates client fd = findVfsFileState s.fileStates client fd := by
    rw [findVfsFileState, table]
    exact Complete.lookup_update h busy before after
  unfold found
  rw [same]
  cases here : findVfsFileState s.fileStates client fd with
  | none => rfl
  | some j =>
    have other : j ≠ i := by
      rintro rfl
      exact before (lookup_holds here)
    simp [table, other]

theorem found_serve (h : s.Reachable) (step : s.Serve r s') (other : client ≠ r.client) : s'.found client fd = s.found client fd := by
  have different : ∀ {e : VfsFileState} {fd' : Word}, view.Holds e (r.client, fd') → ¬ view.Holds e (client, fd) :=
    fun here there => other (congrArg Prod.fst (there.key_eq here))
  rcases serve_effect step with ⟨same⟩ | ⟨fd', i, e, _, done⟩ | ⟨fd', i, e, _, done⟩
  · unfold found
    rw [same]
  · have busy : e.status ≠ .free := by
      rw [show e.status = .used from done.holds.1]
      decide
    exact found_update h done.table busy (not_holds done.vacant) (different done.holds)
  · have busy : e.status ≠ .free := by
      rw [done.gone]
      decide
    exact found_update h done.table busy (different (lookup_holds done.found)) done.not_holds

/-- In every run from the empty table a lookup finds exactly the files that are open, and no request changes what another
client finds. -/
theorem lookups_complete {s₀ : Server} {rs : List Request} (empty : ∀ i, (s₀.fileStates i).status = .free)
    (run : Theory.Run Serve s₀ rs s) :
    (∀ owner fd, (∃ i, findVfsFileState s.fileStates owner fd = some i) ↔
        ∃ i, (s.fileStates i).status = .used ∧ (s.fileStates i).owner = owner ∧ (s.fileStates i).fd = fd) ∧
      (∀ owner fd i, findVfsFileState s.fileStates owner fd = some i → (s.fileStates i).owner = owner ∧ (s.fileStates i).fd = fd) ∧
      ∀ r s', s.Serve r s' → ∀ client fd, client ≠ r.client → s'.found client fd = s.found client fd := by
  have reachable : s.Reachable := run.invariant (fun _ _ _ step h => h.serve step) (reachable_of_free empty)
  have holds_iff : ∀ i owner fd, view.Holds (s.fileStates i) (owner, fd) ↔
      (s.fileStates i).status = .used ∧ (s.fileStates i).owner = owner ∧ (s.fileStates i).fd = fd :=
    fun i owner fd => and_congr_right fun _ => Prod.mk_inj
  refine ⟨fun owner fd => ?_, fun owner fd i here => ?_, fun r s' step client fd other => found_serve reachable step other⟩
  · simp only [← holds_iff]
    exact reachable.lookup_iff
  · exact ((holds_iff i owner fd).mp (lookup_holds here)).2

end Server
end BradypOS.Romfs
