import BradypOS.Romfs.EndToEnd

/-!
# The memory behind a call

`exchange` says what a client gets of a call of the server. Here is what the two messages leave in memory: only `filename_buf`
changes, so that a client and the image have their bytes still when the next call comes.
-/

namespace BradypOS.Romfs

open L4 Vfs

/-- A client of the server, and where the server has its `filename_buf`. -/
structure Wire where
  server : Tcb
  client : Tcb
  filenameBuf : Word

/-- The address is neither in `filename_buf` nor where a terminator can be. -/
def Wire.Elsewhere (l : Wire) (a : Word) : Prop := pathMax < (a - l.filenameBuf).toNat

instance (l : Wire) (a : Word) : Decidable (l.Elsewhere a) := Nat.decLt _ _

/-- The server between two requests, and memory. -/
structure Mount where
  server : Server
  memory : Memory

namespace Mount

/-- Memory when the client sends its message. -/
def asking (l : Wire) (x : Mount) (u : Utcb) : Memory :=
  (x.memory.setUtcb l.server.utcb (Server.loadBrs l.filenameBuf)).setUtcb l.client.utcb fun _ => u

def request (l : Wire) (stack : Nat → Byte) (m : Memory) : Request :=
  { client := (m.frame l.server.ctx.sp).r0, utcb := m.utcb l.server.utcb, byte := m.byte, stack }

/-- Memory when the server sends its answer. -/
def answering (l : Wire) (m : Memory) (s : Server) : Memory := { m.setUtcb l.server.utcb fun _ => s.utcb with byte := s.byte }

/-- Memory when an IPC of the client has ended. -/
def ended (l : Wire) (m : Memory) (err : IpcErrorCode) : Memory :=
  if err ≠ .none then m.setUtcb l.client.utcb fun _ => Server.ipcError m l.client else m

/-- `exchange`, with the memory that it leaves. -/
def call (l : Wire) (stack : Nat → Byte) (x : Mount) (u : Utcb) : Fallible (Utcb × Mount) := do
  let (err, m) ← (x.asking l u).copyPayload l.client l.server
  if err ≠ .none then .ok ((ended l m err).utcb l.client.utcb, ⟨x.server, ended l m err⟩)
  else
    let s ← x.server.serve (request l stack m)
    let (err, m) ← (answering l m s).copyPayload l.server l.client
    .ok ((ended l m err).utcb l.client.utcb, ⟨s, ended l m err⟩)

end Mount

/-! ### Answers without strings -/

/-- A message of words, or of words and one map item. -/
inductive Plain (u : Utcb) : Prop where
  | words {n : Nat} {label : Word} (fits : n ≤ mrCount) (tag : u.mr 0 = MsgTag.mk n 0 0#32 label)
  | mapItem {n : Nat} {label : Word} (fits : n + 2 ≤ mrCount) (tag : u.mr 0 = MsgTag.mk n 2 0#32 label)
      (item : Item.type (u.mr (n + 1)) = .mapItem)

theorem Plain.copyPayload {m : Memory} {src dst : Tcb} (plain : Plain (m.utcb src.utcb)) (apart : src.utcb ≠ dst.utcb) :
    ∃ m', m.copyPayload src dst = .ok (.none, m') ∧ m'.byte = m.byte := by
  cases plain with
  | words fits tag =>
    obtain ⟨m', copied, -, same⟩ := Memory.copyPayload_words dst tag fits
    exact ⟨m', copied, same⟩
  | mapItem fits tag item =>
    obtain ⟨m', copied, -, same, -, -⟩ := Memory.copyPayload_mapItem dst tag fits apart item
    exact ⟨m', copied, same⟩

namespace Server

/-- An answer without a string, which has changed no bytes. -/
structure Replies (s s' : Server) : Prop where
  byte : s'.byte = s.byte
  base : s'.rootfsBase = s.rootfsBase
  plain : Plain s'.utcb

variable {s s' : Server} {client tag : Word}

theorem makeIpcError_replies (s : Server) (errno : Errno) : s.Replies (s.makeIpcError errno) :=
  ⟨rfl, rfl, .words (by decide) (makeIpcError_tag s errno)⟩

theorem openFileState_replies (s : Server) (i : Fin fileStateCount) (client fd fileOff : Word) (op : Answer) {retFd : Nat} (behind : 0 ≠ retFd) :
    s.Replies (s.openFileState i client fd fileOff op retFd) := by
  unfold openFileState
  split
  · exact makeIpcError_replies s _
  · exact ⟨rfl, rfl, .words (by decide) ((loadMr_other _ behind fd).trans (answer_tag _ op 1 0))⟩

theorem handleVfsOpenroot_replies (s : Server) (client tag : Word) : s.Replies (s.handleVfsOpenroot client tag) := by
  unfold handleVfsOpenroot
  split
  · exact makeIpcError_replies s _
  · dsimp only
    split
    · exact makeIpcError_replies s _
    · rw [if_neg (by decide : ¬ romfsRootDirectory = invalidFile)]
      split
      · exact makeIpcError_replies s _
      · exact openFileState_replies s _ client _ _ .openrootRet (by decide)

theorem handleVfsClose_replies (s : Server) (client tag : Word) : s.Replies (s.handleVfsClose client tag) := by
  unfold handleVfsClose
  split
  · exact makeIpcError_replies s _
  · split
    · exact makeIpcError_replies s _
    · exact ⟨rfl, rfl, .words (by decide) (answer_tag _ .closeRet 0 0)⟩

theorem handleVfsStat_replies (s : Server) (client tag : Word) : s.Replies (s.handleVfsStat client tag) := by
  unfold handleVfsStat
  split
  · exact makeIpcError_replies s _
  · split
    · exact makeIpcError_replies s _
    · split
      · exact makeIpcError_replies s _
      · exact ⟨rfl, rfl, .words (by decide : 2 ≤ mrCount) ((loadMr_other _ (by decide) _).trans
          ((loadMr_other _ (by decide) _).trans (answer_tag s .statRet 2 0)))⟩

theorem handleVfsMap_replies (s : Server) (client tag : Word) : s.Replies (s.handleVfsMap client tag) := by
  unfold handleVfsMap
  split
  · exact makeIpcError_replies s _
  · dsimp only
    split
    · exact makeIpcError_replies s _
    · split
      · exact makeIpcError_replies s _
      · split
        · exact makeIpcError_replies s _
        · refine ⟨rfl, rfl, .mapItem (by decide) (((loadMr_other _ (by decide) _).trans (loadMr_other _ (by decide) _)).trans
            ((loadMr_other _ (by decide) _).trans (answer_tag s .mapRet 1 2))) ?_⟩
          rw [show 1 + 1 = mapRetMapItem from rfl, loadMr_other _ (by decide), loadMr_same]
          exact MapItem.type_first _ _

theorem handleVfsWrite_replies (s : Server) (client tag : Word) : s.Replies (s.handleVfsWrite client tag) := by
  unfold handleVfsWrite
  split
  · exact makeIpcError_replies s _
  · split <;> exact makeIpcError_replies s _

theorem handleVfsOpenat_replies (answered : s.handleVfsOpenat client tag = .ok s') :
    s.Replies s' ∨ s.terminated.Replies s' := by
  unfold handleVfsOpenat at answered
  split at answered
  · cases answered
    exact .inl (makeIpcError_replies s _)
  · simp only [] at answered
    split_ifs at answered
    · cases answered
      exact .inl (makeIpcError_replies s _)
    · cases answered
      exact .inl (makeIpcError_replies s _)
    · split at answered
      · cases answered
        exact .inr (makeIpcError_replies _ _)
      · obtain ⟨fileOffset, -, answered⟩ := bind_ok answered
        split_ifs at answered
        · cases answered
          exact .inr (makeIpcError_replies _ _)
        · split at answered
          · cases answered
            exact .inr (makeIpcError_replies _ _)
          · split_ifs at answered
            · cases answered
              exact .inr (makeIpcError_replies _ _)
            · cases answered
              exact .inr (openFileState_replies _ _ client _ _ .openatRet (by decide))

/-- A request that is not for the content of a file is answered without a string, and of the bytes only the terminator of a path
changes. -/
theorem serve_replies {r : Request} {op : Op} (named : r.op = some op) (other : op ≠ .read) (step : s.serve r = .ok s') :
    Plain s'.utcb ∧ s'.rootfsBase = s.rootfsBase ∧
      ∀ a, (op = .openat → a ≠ r.utcb.mr (openatStr + 1) + BitVec.ofNat 32 (Item.length (r.utcb.mr openatStr))) → s'.byte a = r.byte a := by
  rw [serve_of_op named] at step
  have plain : ∀ {s'}, (s.receive r).Replies s' → Plain s'.utcb ∧ s'.rootfsBase = s.rootfsBase ∧
      ∀ a, (op = .openat → a ≠ r.utcb.mr (openatStr + 1) + BitVec.ofNat 32 (Item.length (r.utcb.mr openatStr))) → s'.byte a = r.byte a :=
    fun replies => ⟨replies.plain, replies.base, fun a _ => congrFun replies.byte a⟩
  cases op with
  | openroot =>
    cases step
    exact plain (handleVfsOpenroot_replies _ _ _)
  | openat =>
    rcases handleVfsOpenat_replies step with replies | replies
    · exact plain replies
    · refine ⟨replies.plain, replies.base, fun a away => ?_⟩
      rw [replies.byte]
      exact Function.update_of_ne (away rfl) _ _
  | close =>
    cases step
    exact plain (handleVfsClose_replies _ _ _)
  | stat =>
    cases step
    exact plain (handleVfsStat_replies _ _ _)
  | read => exact absurd rfl other
  | write =>
    cases step
    exact plain (handleVfsWrite_replies _ _ _)
  | map =>
    cases step
    exact plain (handleVfsMap_replies _ _ _)

end Server

/-! ### Calls -/

/-- A message of the client's functions: words, or a path that `filename_buf` has room for. -/
inductive Asks (u : Utcb) : Op → Prop where
  | words {op : Op} {n : Nat} (fits : n ≤ mrCount) (tag : u.mr 0 = MsgTag.mk n 0 0#32 op.toWord) (other : op ≠ .openat) : Asks u op
  | path {pathlen : Word} (tag : u.mr 0 = MsgTag.mk 2 2 0#32 Op.openat.toWord) (item : u.mr openatStr = Item.simpleString pathlen)
      (short : pathlen.toNat ≤ pathMax) : Asks u .openat

namespace Mount

variable {l : Wire} {stack : Nat → Byte} {x : Mount} {u u' : Utcb} {op : Op} {s' : Server}

theorem asking_client : (x.asking l u).utcb l.client.utcb = u := Function.update_self _ _ _

theorem asking_server (apart : l.client.utcb ≠ l.server.utcb) :
    (x.asking l u).utcb l.server.utcb = Server.loadBrs l.filenameBuf (x.memory.utcb l.server.utcb) := by
  rw [asking, Memory.setUtcb]
  dsimp only
  rw [Function.update_of_ne apart.symm]
  exact Function.update_self _ _ _

/-- What the kernel has made of a message: only `filename_buf` has changed, and a terminator belongs there. -/
structure Delivered (l : Wire) (x : Mount) (op : Op) (m : Memory) : Prop where
  named : Op.ofLabel (MsgTag.label ((m.utcb l.server.utcb).mr 0)) = some op
  elsewhere : ∀ a, l.Elsewhere a → m.byte a = x.memory.byte a
  terminator : op = .openat → ∀ a, l.Elsewhere a →
    a ≠ (m.utcb l.server.utcb).mr (openatStr + 1) + BitVec.ofNat 32 (Item.length ((m.utcb l.server.utcb).mr openatStr))

theorem ofLabel_mk (n t : Nat) (op : Op) : Op.ofLabel (MsgTag.label (MsgTag.mk n t 0#32 op.toWord)) = some op := by
  rw [MsgTag.label_mk]
  cases op <;> decide

theorem asks_delivered (apart : l.client.utcb ≠ l.server.utcb) (asks : Asks u op) :
    ∃ m, (x.asking l u).copyPayload l.client l.server = .ok (.none, m) ∧ Delivered l x op m := by
  have client : (x.asking l u).utcb l.client.utcb = u := asking_client
  have server := asking_server (x := x) (u := u) apart
  cases asks with
  | words fits tag other =>
    rw [← client] at tag
    obtain ⟨m, copied, arrived, bytes⟩ := Memory.copyPayload_words l.server tag fits
    refine ⟨m, copied, ?_, fun a _ => congrFun bytes a, fun same => absurd same other⟩
    rw [arrived.tag]
    exact ofLabel_mk _ _ op
  | @path pathlen tag item short =>
    have length : Item.length (u.mr (2 + 1)) = pathlen.toNat := by
      rw [show 2 + 1 = openatStr from rfl, item, Item.length_simpleString]
      exact Nat.mod_eq_of_lt (lt_of_le_of_lt short (by decide))
    obtain ⟨m, copied, arrived, bytes, first, second⟩ := @Memory.copyPayload_string (x.asking l u) l.client 2 Op.openat.toWord l.server
      (by rw [client]; exact tag) (by decide) apart (by rw [client, show 2 + 1 = openatStr from rfl, item]; exact Item.type_simpleString _)
      (by rw [client, show 2 + 1 = openatStr from rfl, item]; exact Item.compound_simpleString _)
      (by rw [server, Server.loadBrs_acceptor]; rfl) (by rw [server, Server.loadBrs_item]; exact Item.compound_simpleString _)
      (by
        rw [client, server, Server.loadBrs_item, length, Item.length_simpleString]
        exact le_trans short (by decide))
    rw [client] at bytes first
    rw [server, Server.loadBrs_ptr] at bytes second
    rw [length] at bytes
    refine ⟨m, copied, ?_, ?_, ?_⟩
    · rw [arrived.tag]
      exact ofLabel_mk _ _ .openat
    · intro a away
      rw [bytes]
      have far : ¬ (a - l.filenameBuf).toNat < pathlen.toNat := Nat.not_lt.mpr (short.trans away.le)
      exact if_neg far
    · rintro - a away rfl
      rw [show openatStr + 1 = 2 + 1 + 1 from rfl, second, show openatStr = 2 + 1 from rfl, first, length] at away
      have inside : l.filenameBuf + BitVec.ofNat 32 pathlen.toNat - l.filenameBuf = pathlen := by
        rw [BitVec.add_comm, BitVec.add_sub_cancel, BitVec.ofNat_toNat, BitVec.setWidth_eq]
      rw [Wire.Elsewhere, inside] at away
      omega

theorem ended_client (l : Wire) (m : Memory) (err : IpcErrorCode) :
    (ended l m err).utcb l.client.utcb = if err ≠ .none then Server.ipcError m l.client else m.utcb l.client.utcb := by
  unfold ended
  split
  · exact Function.update_self _ _ _
  · rfl

theorem call_exchange (x : Mount) (l : Wire) (stack : Nat → Byte) (u : Utcb) :
    (x.call l stack u).map (fun r => (r.1, r.2.server)) = x.server.exchange x.memory l.server l.client l.filenameBuf stack u := by
  unfold call Server.exchange
  dsimp only
  change _ = (x.asking l u).copyPayload l.client l.server >>= _
  cases (x.asking l u).copyPayload l.client l.server with
  | error halt => rfl
  | ok sent =>
    obtain ⟨err, m⟩ := sent
    simp only [bind, Except.bind]
    by_cases failed : err ≠ .none
    · rw [if_pos failed, if_pos failed, Except.map, ended_client, if_pos failed]
    · rw [if_neg failed, if_neg failed]
      unfold request
      generalize x.server.serve _ = served
      cases served with
      | error halt => rfl
      | ok s =>
        unfold Server.answerTo
        change Except.map _ ((answering l m s).copyPayload l.server l.client >>= _) = (answering l m s).copyPayload l.server l.client >>= _
        cases (answering l m s).copyPayload l.server l.client with
        | error halt => rfl
        | ok answered =>
          simp only [bind, Except.bind, Except.map, ended_client]

/-- The server has its image where it was, and every byte outside `filename_buf` is what it was. -/
structure Leaves (l : Wire) (x x' : Mount) : Prop where
  base : x'.server.rootfsBase = x.server.rootfsBase
  elsewhere : ∀ a, l.Elsewhere a → x'.memory.byte a = x.memory.byte a

theorem call_of_exchange (apart : l.client.utcb ≠ l.server.utcb) (asks : Asks u op) (other : op ≠ .read)
    (h : x.server.exchange x.memory l.server l.client l.filenameBuf stack u = .ok (u', s')) :
    ∃ m, x.call l stack u = .ok (u', ⟨s', m⟩) ∧ x.Leaves l ⟨s', m⟩ := by
  obtain ⟨m, copied, delivered⟩ := asks_delivered (x := x) apart asks
  unfold Server.exchange at h
  dsimp only at h
  rw [show ((x.memory.setUtcb l.server.utcb (Server.loadBrs l.filenameBuf)).setUtcb l.client.utcb fun _ => u) = x.asking l u from rfl, copied] at h
  change x.server.serve (request l stack m) >>= (fun s => s.answerTo m l.server l.client) = .ok (u', s') at h
  obtain ⟨s, served, answered⟩ := bind_ok h
  obtain ⟨plain, base, bytes⟩ := Server.serve_replies (r := request l stack m) delivered.named other served
  have here : (answering l m s).utcb l.server.utcb = s.utcb := Function.update_self _ _ _
  obtain ⟨m', back, same⟩ := Plain.copyPayload (m := answering l m s) (here.symm ▸ plain) apart.symm
  have answer : s.answerTo m l.server l.client = .ok (m'.utcb l.client.utcb, s) := by
    unfold Server.answerTo
    dsimp only
    rw [show ({ m.setUtcb l.server.utcb fun _ => s.utcb with byte := s.byte } : Memory) = answering l m s from rfl, back]
    rfl
  rw [answer] at answered
  cases answered
  refine ⟨m', ?_, base, fun a away => ?_⟩
  · unfold call
    rw [copied]
    change x.server.serve (request l stack m) >>= _ = _
    rw [served]
    change (answering l m s').copyPayload l.server l.client >>= _ = _
    rw [back]
    rfl
  · have kept : s'.byte a = m.byte a := bytes a fun path => delivered.terminator path a away
    dsimp only
    rw [same]
    exact kept.trans (delivered.elsewhere a away)

/-! ### The functions of the client -/

/-- A function of the client sends one message and makes its result of the answer. -/
theorem call_of_function {α : Type} {f : (σ : Type) → (Utcb → Fallible (Utcb × σ)) → Fallible (α × σ)} {r : Utcb → α} {a : α}
    (shape : ∀ σ ipc, f σ ipc = ipc u >>= fun answer => .ok (r answer.1, answer.2)) (apart : l.client.utcb ≠ l.server.utcb)
    (asks : Asks u op) (other : op ≠ .read) (h : f _ (x.server.exchange x.memory l.server l.client l.filenameBuf stack) = .ok (a, s')) :
    ∃ m, f _ (x.call l stack) = .ok (a, ⟨s', m⟩) ∧ x.Leaves l ⟨s', m⟩ := by
  rw [shape] at h
  obtain ⟨⟨u', s⟩, exchanged, result⟩ := bind_ok h
  cases result
  obtain ⟨m, called, leaves⟩ := call_of_exchange apart asks other exchanged
  refine ⟨m, ?_, leaves⟩
  rw [shape, called]
  rfl

section Functions
variable (x) (u) (stack) {told : Bool} {fd : Word}

theorem openAt_call {newFd path pathlen : Word} (apart : l.client.utcb ≠ l.server.utcb) (short : pathlen.toNat ≤ pathMax)
    (h : openAt (x.server.exchange x.memory l.server l.client l.filenameBuf stack) u fd newFd path pathlen = .ok (told, s')) :
    ∃ m, openAt (x.call l stack) u fd newFd path pathlen = .ok (told, ⟨s', m⟩) ∧ x.Leaves l ⟨s', m⟩ := by
  have asks : Asks (((((u.setMr 0 (MsgTag.mk 2 2 0#32 Op.openat.toWord)).setMr openatFd fd).setMr openatNewfd newFd).setMr openatStr
      (Item.simpleString pathlen)).setMr (openatStr + 1) path) .openat := by
    refine @Asks.path _ pathlen ?_ ?_ short
    · simp [Utcb.mr, Utcb.setMr, openatFd, openatNewfd, openatStr]
    · rw [Utcb.mr_setMr_other _ (by decide), Utcb.mr_setMr_same]
  exact call_of_function (f := fun _ ipc => openAt ipc u fd newFd path pathlen)
    (r := fun u => isAnswer (u.mr 0) .openatRet && MsgTag.u (u.mr 0) == 1 && MsgTag.t (u.mr 0) == 0) (fun _ _ => rfl) apart asks (by decide) h

theorem close_call (apart : l.client.utcb ≠ l.server.utcb)
    (h : close (x.server.exchange x.memory l.server l.client l.filenameBuf stack) u fd = .ok (told, s')) :
    ∃ m, close (x.call l stack) u fd = .ok (told, ⟨s', m⟩) ∧ x.Leaves l ⟨s', m⟩ := by
  have asks : Asks ((u.setMr 0 (MsgTag.mk 1 0 0#32 Op.close.toWord)).setMr closeFd fd) .close :=
    .words (by decide : 1 ≤ mrCount) (by rw [Utcb.mr_setMr_other _ (by decide), Utcb.mr_setMr_same]) (by decide)
  exact call_of_function (f := fun _ ipc => close ipc u fd) (r := fun u => isAnswer (u.mr 0) .closeRet) (fun _ _ => rfl) apart asks (by decide) h

theorem openRootFd_call (apart : l.client.utcb ≠ l.server.utcb)
    (h : openRootFd (x.server.exchange x.memory l.server l.client l.filenameBuf stack) u fd = .ok (told, s')) :
    ∃ m, openRootFd (x.call l stack) u fd = .ok (told, ⟨s', m⟩) ∧ x.Leaves l ⟨s', m⟩ := by
  have asks : Asks ((u.setMr 0 (MsgTag.mk 1 0 0#32 Op.openroot.toWord)).setMr openrootFd fd) .openroot :=
    .words (by decide : 1 ≤ mrCount) (by rw [Utcb.mr_setMr_other _ (by decide), Utcb.mr_setMr_same]) (by decide)
  exact call_of_function (f := fun _ ipc => openRootFd ipc u fd)
    (r := fun u => isAnswer (u.mr 0) .openrootRet && MsgTag.u (u.mr 0) == 1 && MsgTag.t (u.mr 0) == 0) (fun _ _ => rfl) apart asks (by decide) h

theorem stat_call {result : StatResult} (apart : l.client.utcb ≠ l.server.utcb)
    (h : stat (x.server.exchange x.memory l.server l.client l.filenameBuf stack) u fd = .ok (result, s')) :
    ∃ m, stat (x.call l stack) u fd = .ok (result, ⟨s', m⟩) ∧ x.Leaves l ⟨s', m⟩ := by
  have asks : Asks ((u.setMr 0 (MsgTag.mk 1 0 0#32 Op.stat.toWord)).setMr statFd fd) .stat :=
    .words (by decide : 1 ≤ mrCount) (by rw [Utcb.mr_setMr_other _ (by decide), Utcb.mr_setMr_same]) (by decide)
  refine call_of_function (f := fun _ ipc => stat ipc u fd) (r := fun u => if !isAnswer (u.mr 0) .statRet then
    { success := false, type := FileType.other.toWord, size := 0#32 } else { success := true, type := u.mr statRetType, size := u.mr statRetSize })
    (fun σ ipc => ?_) apart asks (by decide) h
  exact congrArg (ipc _ >>= ·) (funext fun _ => (apply_ite (fun result => Except.ok (result, _)) _ _ _).symm)

theorem map_call {offset size : Word} {result : MapResult} (apart : l.client.utcb ≠ l.server.utcb)
    (h : Vfs.map (x.server.exchange x.memory l.server l.client l.filenameBuf stack) u fd offset size = .ok (result, s')) :
    ∃ m, Vfs.map (x.call l stack) u fd offset size = .ok (result, ⟨s', m⟩) ∧ x.Leaves l ⟨s', m⟩ := by
  have asks : Asks (((((u.setMr 0 (MsgTag.mk 4 0 0#32 Op.map.toWord)).setMr mapFd fd).setMr mapOffset offset).setMr mapSize size).setMr mapPerm
      Fpage.readable) .map :=
    .words (by decide : 4 ≤ mrCount) (by simp [Utcb.mr, Utcb.setMr, mapFd, mapOffset, mapSize, mapPerm]) (by decide)
  refine call_of_function (f := fun _ ipc => Vfs.map ipc u fd offset size) (r := fun u =>
    if !isAnswer (u.mr 0) .mapRet || MsgTag.u (u.mr 0) != 1 || MsgTag.t (u.mr 0) != 2 then { fpage := 0#32, addr := 0#32 }
    else { fpage := MapItem.sndFpage ⟨u.mr mapRetMapItem, u.mr (mapRetMapItem + 1)⟩, addr := u.mr mapRetAddr })
    (fun σ ipc => ?_) apart asks (by decide) h
  exact congrArg (ipc _ >>= ·) (funext fun _ => (apply_ite (fun result => Except.ok (result, _)) _ _ _).symm)

end Functions

end Mount

end BradypOS.Romfs
