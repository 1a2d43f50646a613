import BradypOS.Romfs.Table

/-!
# One entry for an open file

A request to open what the client has open already is refused when it comes to the entry. It does
not come to it when a tombstone lies before the entry in the probe sequence: a second entry is made
there, and closing the file removes one of the two.
-/

namespace BradypOS.Romfs

open L4 Vfs Theory Theory.Probing

namespace Request

/-- The memory when the directory is searched: the path has its terminator. -/
def pathMemory (r : Request) : Word → Byte :=
  Function.update r.byte (r.utcb.mr (openatStr + 1) + BitVec.ofNat 32 (Item.length (r.utcb.mr openatStr))) 0#8

def path (r : Request) : List Byte :=
  Server.pathAt r.pathMemory (r.utcb.mr (openatStr + 1)) (Item.length (r.utcb.mr openatStr))

end Request

namespace Server

/-- No tombstone comes before the entry of a file that is opened again. -/
def Unshadowed (s : Server) (r : Request) : Prop :=
  ∀ fd, r.Opens fd → Clear view s.fileStates (r.client, fd) (probes (r.client, fd))

/-- The list of the directory that is searched ends. -/
def WalkEnds (s : Server) (r : Request) : Prop :=
  r.op = some .openat → ∀ dir, findVfsFileState s.fileStates r.client (r.utcb.mr openatFd) = some dir →
    ∃ off, romfsOpenat (romfsOps r.pathMemory s.rootfsBase) r.stack (s.fileStates dir).fileOff r.path = .ok off

/-- A request that does not open the client's `fd` with success. -/
def LeavesClosed (client fd : Word) (s : Server) (r : Request) (s' : Server) : Prop :=
  s.Serve r s' ∧ ¬ (r.client = client ∧ r.Opens fd ∧ ¬ s'.Failed)

variable {s s' : Server} {r : Request} {client fd tag : Word}

theorem IsOpen.of_fileStates (same : s'.fileStates = s.fileStates) (h : s'.IsOpen client fd) : s.IsOpen client fd := by
  obtain ⟨i, holds⟩ := h
  rw [same] at holds
  exact ⟨i, holds⟩

/-! ### Opening again -/

/-- Where the entry comes first, an open file is not given another one. -/
theorem not_installed {i : Fin fileStateCount} {e : VfsFileState} (h : s.Reachable) (isOpen : s.IsOpen client fd)
    (clear : Clear view s.fileStates (client, fd) (probes (client, fd))) : ¬ s.Installed client fd s' i e := by
  intro done
  obtain ⟨j, holds⟩ := isOpen
  obtain ⟨b, point, inUse⟩ := Complete.insertionPoint_of_clear h clear holds
  have same : some b = some i := point.symm.trans done.point
  cases same
  exact done.vacant inUse.1

theorem handleVfsOpenat_returns (ends : s.WalkEnds r) (op : r.op = some .openat) (tag : Word) :
    ∃ s', (s.receive r).handleVfsOpenat r.client tag = .ok s' := by
  unfold handleVfsOpenat
  split
  · exact ⟨_, rfl⟩
  · dsimp only
    split_ifs
    · exact ⟨_, rfl⟩
    · exact ⟨_, rfl⟩
    · split
      · exact ⟨_, rfl⟩
      · rename_i dir found
        obtain ⟨off, walked⟩ := ends op dir found
        change ∃ s', (romfsOpenat (romfsOps r.pathMemory s.rootfsBase) r.stack (s.fileStates dir).fileOff r.path >>= _) = .ok s'
        rw [walked]
        simp only [bind, Except.bind]
        split
        · exact ⟨_, rfl⟩
        · split
          · exact ⟨_, rfl⟩
          · split_ifs
            · exact ⟨_, rfl⟩
            · exact ⟨_, rfl⟩

theorem refused (h : s.Reachable) (clear : s.Unshadowed r) (ends : s.WalkEnds r) (opens : r.Opens fd) (isOpen : s.IsOpen r.client fd) :
    ∃ s', s.Serve r s' ∧ s'.Failed ∧ s'.fileStates = s.fileStates := by
  have first := clear fd opens
  rcases opens with ⟨op, rfl⟩ | ⟨op, rfl⟩
  · refine ⟨_, serve_of_op op, ?_⟩
    rcases handleVfsOpenroot_cases (s.receive r) r.client (r.utcb.mr 0) with refused | ⟨i, e, done⟩
    · exact refused
    · exact absurd done (not_installed (s := s.receive r) h isOpen first)
  · obtain ⟨s', answered⟩ := handleVfsOpenat_returns ends op (r.utcb.mr 0)
    refine ⟨s', (serve_of_op op).trans answered, ?_⟩
    rcases handleVfsOpenat_cases answered with refused | ⟨i, e, done⟩
    · exact refused
    · exact absurd done (not_installed (s := s.receive r) h isOpen first)

/-! ### One entry -/

theorem unique_of_free (free : ∀ i, (s.fileStates i).status = .free) : Unique view s.fileStates := by
  intro i j k holds
  exact absurd holds (not_holds_of_free free i k)

theorem unique_serve (h : s.Reachable) (unique : Unique view s.fileStates) (clear : s.Unshadowed r) (step : s.Serve r s') :
    Unique view s'.fileStates := by
  rcases serve_effect step with ⟨same⟩ | ⟨fd, i, e, opens, done⟩ | ⟨fd, i, e, _, done⟩
  · rw [same]
    exact unique
  · rw [done.table]
    apply unique.insert _ done.holds
    intro j holds
    exact not_installed h ⟨j, holds⟩ (clear fd opens) done
  · rw [done.table]
    apply unique.delete
    rw [show view.status e = .tombstone from done.gone]
    decide

/-! ### Closed files -/

theorem LeavesClosed.closed (h : LeavesClosed client fd s r s') (closed : ¬ s.IsOpen client fd) : ¬ s'.IsOpen client fd := by
  rcases serve_effect h.1 with ⟨same⟩ | ⟨fd', i, e, opens, done⟩ | ⟨fd', i, e, _, done⟩
  · exact fun isOpen => closed (isOpen.of_fileStates same)
  · intro ⟨j, holds⟩
    rw [done.table] at holds
    by_cases here : j = i
    · rw [here, holds_update_same] at holds
      have key : (r.client, fd') = (client, fd) := done.holds.key_eq holds
      cases key
      exact h.2 ⟨rfl, opens, done.success⟩
    · exact closed ⟨j, (holds_update_other here).mp holds⟩
  · intro ⟨j, holds⟩
    rw [done.table] at holds
    by_cases here : j = i
    · rw [here, holds_update_same] at holds
      exact done.not_holds holds
    · exact closed ⟨j, (holds_update_other here).mp holds⟩

theorem close_closes (unique : Unique view s.fileStates) (closes : r.Closes fd) (step : s.Serve r s') (success : ¬ s'.Failed) :
    ¬ s'.IsOpen r.client fd := by
  obtain ⟨op, rfl⟩ := closes
  rw [Serve, serve_of_op op] at step
  cases step
  rcases handleVfsClose_cases (s.receive r) r.client (r.utcb.mr 0) with ⟨failed, _⟩ | ⟨i, e, done⟩
  · exact absurd failed success
  · intro ⟨j, holds⟩
    rw [done.table] at holds
    by_cases here : j = i
    · rw [here, holds_update_same] at holds
      exact done.not_holds holds
    · exact here (unique j i _ ((holds_update_other here).mp holds) (lookup_holds done.found))

theorem find_closed (closed : ¬ s.IsOpen client fd) : findVfsFileState s.fileStates client fd = none :=
  lookup_eq_none fun i holds => closed ⟨i, holds⟩

theorem handleVfsOpenat_failed (tag : Word) (absent : findVfsFileState s.fileStates client (s.utcb.mr openatFd) = none) :
    ∃ s', s.handleVfsOpenat client tag = .ok s' ∧ s'.Failed := by
  unfold handleVfsOpenat
  split
  · exact ⟨_, rfl, failed_makeIpcError _⟩
  · dsimp only
    split_ifs
    · exact ⟨_, rfl, failed_makeIpcError _⟩
    · exact ⟨_, rfl, failed_makeIpcError _⟩
    · simp only [fileStates_setByte, absent]
      exact ⟨_, rfl, failed_makeIpcError _⟩

theorem handleVfsClose_failed (absent : findVfsFileState s.fileStates client (s.utcb.mr closeFd) = none) :
    (s.handleVfsClose client tag).Failed := by
  unfold handleVfsClose deleteVfsFileState
  rw [absent]
  split <;> exact failed_makeIpcError _

theorem handleVfsStat_failed (absent : findVfsFileState s.fileStates client (s.utcb.mr statFd) = none) :
    (s.handleVfsStat client tag).Failed := by
  simp only [handleVfsStat, absent, ite_self]
  exact failed_makeIpcError _

theorem handleVfsRead_failed (absent : findVfsFileState s.fileStates client (s.utcb.mr readFd) = none) :
    (s.handleVfsRead client tag).Failed := by
  simp only [handleVfsRead, absent, ite_self]
  exact failed_makeIpcError _

theorem handleVfsMap_failed (absent : findVfsFileState s.fileStates client (s.utcb.mr mapFd) = none) :
    (s.handleVfsMap client tag).Failed := by
  simp only [handleVfsMap, absent]
  split <;> exact failed_makeIpcError _

/-- Whatever else is in the request, there is no file to answer it with. -/
theorem uses_fail (closed : ¬ s.IsOpen r.client fd) (uses : r.Uses fd) : ∃ s', s.Serve r s' ∧ s'.Failed := by
  have absent := find_closed closed
  rcases uses with ⟨op, rfl⟩ | ⟨op, rfl⟩ | ⟨op, rfl⟩ | ⟨op, rfl⟩ | ⟨op, rfl⟩
  · exact ⟨_, serve_of_op op, handleVfsStat_failed absent⟩
  · exact ⟨_, serve_of_op op, handleVfsRead_failed absent⟩
  · exact ⟨_, serve_of_op op, handleVfsMap_failed absent⟩
  · obtain ⟨s', answered, failed⟩ := handleVfsOpenat_failed (s := s.receive r) (r.utcb.mr 0) absent
    exact ⟨s', (serve_of_op op).trans answered, failed⟩
  · exact ⟨_, serve_of_op op, handleVfsClose_failed absent⟩

/-- In every run in which no tombstone hides an open file from a request to open it, the table has one entry for an open file,
such a request is refused, and a closed file is gone until it is opened again. -/
theorem table_is_map {s₀ : Server} {rs : List Request} (empty : ∀ i, (s₀.fileStates i).status = .free)
    (run : Run (Guarded Unshadowed Serve) s₀ rs s) :
    (∀ i j client fd, view.Holds (s.fileStates i) (client, fd) → view.Holds (s.fileStates j) (client, fd) → i = j) ∧
      (∀ r fd, s.Unshadowed r → s.WalkEnds r → r.Opens fd → s.IsOpen r.client fd →
        ∃ s', s.Serve r s' ∧ s'.Failed ∧ s'.fileStates = s.fileStates) ∧
      ∀ r fd s₁, r.Closes fd → s.Serve r s₁ → ¬ s₁.Failed →
        ∀ rs' s₂, Run (LeavesClosed r.client fd) s₁ rs' s₂ →
          ∀ r', r'.client = r.client → r'.Uses fd → ∃ s₃, s₂.Serve r' s₃ ∧ s₃.Failed := by
  have reached : s.Reachable ∧ Unique view s.fileStates := by
    refine run.invariant (I := fun s => s.Reachable ∧ Unique view s.fileStates) ?_ ⟨reachable_of_free empty, unique_of_free empty⟩
    rintro s r s' ⟨clear, step⟩ ⟨reachable, unique⟩
    exact ⟨reachable.serve step, unique_serve reachable unique clear step⟩
  obtain ⟨reachable, unique⟩ := reached
  refine ⟨fun i j client fd => unique i j _, fun r fd clear ends => refused reachable clear ends, ?_⟩
  intro r fd s₁ closes step success rs' s₂ later r' same uses
  have gone : ¬ s₂.IsOpen r.client fd :=
    later.invariant (I := fun s => ¬ s.IsOpen r.client fd) (fun _ _ _ taken => taken.closed) (close_closes unique closes step success)
  rw [← same] at gone
  exact uses_fail gone uses

/-! ### Three files in one place -/

def noFile : VfsFileState where
  status := .free
  owner := 0#32
  fd := 0#32
  fileInfo := { type := .hardLink, executable := false, info := 0#32, size := 0#32, name := fun _ => 0#8 }
  fileOff := 0#32

def empty : Server where
  rootfsBase := 0#32
  fileStates _ := noFile
  utcb := { globalId := 0#32, processorNo := 0#32, tPager := 0#32, error := 0#32, sender := 0#32, words := fun _ => 0#32 }
  byte _ := 0#8
  stack _ := 0#8

/-- A request with one register, from the thread with the global id `0x100001`. -/
def ask (op : Op) (fd : Word) : Request where
  client := 0x100001#32
  utcb := (empty.utcb.setMr 0 (MsgTag.mk 1 0 0#32 op.toWord)).setMr 1 fd
  byte _ := 0#8
  stack _ := 0#8

theorem lookups_complete_openroot : ∃ s, Run Serve empty [ask .openroot 3#32] s ∧
    ∀ r s', s.Serve r s' → ∀ client fd, client ≠ r.client → s'.found client fd = s.found client fd := by
  have run : Run Serve empty [ask .openroot 3#32] _ := .single rfl
  exact ⟨_, run, (lookups_complete (fun _ => rfl) run).2.2⟩

theorem table_is_map_openroot : ∃ s, Run (Guarded Unshadowed Serve) empty [ask .openroot 3#32] s ∧
    ∀ i j client fd, view.Holds (s.fileStates i) (client, fd) → view.Holds (s.fileStates j) (client, fd) → i = j := by
  have clear : empty.Unshadowed (ask .openroot 3#32) := by
    intro fd _ before i after _ ⟨used, _⟩
    cases used
  have run : Run (Guarded Unshadowed Serve) empty [ask .openroot 3#32] _ := .single ⟨clear, rfl⟩
  exact ⟨_, run, (table_is_map (fun _ => rfl) run).1⟩

/-- The descriptors 0 and 32 come to one place first. When 0 is closed, 32 is opened a second time in it. -/
theorem table_is_map_fails : ∃ s, Run Serve empty [ask .openroot 0#32, ask .openroot 32#32, ask .close 0#32, ask .openroot 32#32] s ∧
    ¬ s.Failed ∧ ∃ i j, i ≠ j ∧ view.Holds (s.fileStates i) (0x100001#32, 32#32) ∧ view.Holds (s.fileStates j) (0x100001#32, 32#32) := by
  have run : Run Serve empty [ask .openroot 0#32, ask .openroot 32#32, ask .close 0#32, ask .openroot 32#32] _ :=
    .cons rfl (.cons rfl (.cons rfl (.single rfl)))
  refine ⟨_, run, by decide, ⟨24, by decide⟩, ⟨25, by decide⟩, by decide, ?_, ?_⟩
  · exact ⟨rfl, rfl⟩
  · exact ⟨rfl, rfl⟩

end Server
end BradypOS.Romfs
