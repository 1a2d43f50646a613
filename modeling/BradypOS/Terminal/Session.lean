import BradypOS.Terminal.Ring
import BradypOS.Service.Transfer

/-!
# A client's call of the PL011 driver

The driver empties the receive FIFO, waits for a message, answers it and sends the answer back. Between two calls of a
client the FIFO fills again; of a call the client has what the kernel copies.
-/

namespace BradypOS.Terminal

open L4
open Theory (offer)

/-! ### The main loop -/

/-- `L4_string_items_acceptor`, with one buffer of `IPC_BUFFER_SIZE` bytes. -/
def loadBrs (buffer : Word) (u : Utcb) : Utcb :=
  ((u.setMr mrCount 1#32).setMr (mrCount + 1) (Item.simpleString (BitVec.ofNat 32 ipcBufferSize))).setMr (mrCount + 2) buffer

/-- The two threads, and where the driver has its `ipc_buffer`. -/
structure Link where
  server : Tcb
  client : Tcb
  ipcBuffer : Word

/-- The driver between two messages. -/
structure Session where
  driver : Pl011
  memory : Memory

namespace Pl011

/-- The driver with the `ipc_buffer` that memory has. -/
def loaded (s : Pl011) (byte : Word → Byte) (ipcBuffer : Word) : Pl011 :=
  { s with ipcBuffer := fun i => byte (ipcBuffer + BitVec.ofNat 32 i) }

/-- The `switch` of the main loop. -/
def dispatch (s : Pl011) (u : Utcb) (byte : Word → Byte) (ipcBuffer : Word) : Pl011 × Utcb :=
  let tag := u.mr 0
  let s := s.loaded byte ipcBuffer
  if MsgTag.label tag = termReadLabel then (s.handleRead u tag ipcBuffer).2
  else if MsgTag.label tag = termWriteLabel then s.handleWrite u byte tag
  else (s, u.makeIpcError termError .einval)

end Pl011

/-- The bytes of `ipc_buffer`, stored. -/
def storeBuffer (m : Memory) (ipcBuffer : Word) (buffer : Nat → Byte) : Memory :=
  { m with byte := fun a => if (a - ipcBuffer).toNat < ipcBufferSize then buffer (a - ipcBuffer).toNat else m.byte a }

/-- The registers of the client after an IPC that failed. -/
def failed (m : Memory) (client : Tcb) : Utcb := (m.utcb client.utcb).setMr 0 (MsgTag.setError ((m.utcb client.utcb).mr 0))

namespace Session

/-- The driver comes to the top of its loop. -/
def drain (s : Session) : Session := { s with driver := s.driver.uartDrainHwRxToRing }

/-- The UART receives a word. -/
def arrive (s : Session) (w : Word) : Session := { s with driver := { s.driver with received := s.driver.received ++ [w] } }

/-- Memory when the client sends its message. -/
def asking (l : Link) (s : Session) (u : Utcb) : Memory :=
  (s.memory.setUtcb l.server.utcb (loadBrs l.ipcBuffer)).setUtcb l.client.utcb fun _ => u

/-- Memory when the driver sends its answer. -/
def answering (l : Link) (m : Memory) (driver : Pl011) (answer : Utcb) : Memory :=
  storeBuffer (m.setUtcb l.server.utcb fun _ => answer) l.ipcBuffer driver.ipcBuffer

def answer (l : Link) (m : Memory) : Pl011 × Utcb → Fallible (Utcb × Session)
  | (driver, answer) => do
    let (err, m) ← (answering l m driver answer).copyPayload l.server l.client
    .ok (if err ≠ .none then failed m l.client else m.utcb l.client.utcb, ⟨driver, m⟩)

/-- `L4_ipc` of the client with the registers `u`, with what it finds in them afterwards. -/
def call (l : Link) (s : Session) (u : Utcb) : Fallible (Utcb × Session) := do
  let (err, m) ← (s.asking l u).copyPayload l.client l.server
  if err ≠ .none then .ok (failed m l.client, { s with memory := m })
  else answer l m (s.driver.dispatch (m.utcb l.server.utcb) m.byte l.ipcBuffer)

end Session

/-! ### Received bytes -/

/-- The byte of a word that was received without an error. -/
def errorFree (w : Word) : Option Byte := if (w >>> 8) &&& 0xF#32 = 0#32 then some (w.truncate 8) else none

def typed (ws : List Word) : List Byte := ws.filterMap errorFree

theorem typed_append (ws ws' : List Word) : typed (ws ++ ws') = typed ws ++ typed ws' := List.filterMap_append

namespace Pl011

variable {s s' : Pl011}

/-- What the receiving side leaves alone. -/
structure SendsAlike (s s' : Pl011) : Prop where
  stores : stores s'.log = stores s.log
  pendingNl : s'.pendingNl = s.pendingNl
  answers : s'.answers = s.answers
  asked : s'.asked = s.asked

/-- What the sending side leaves alone. -/
structure ReceivesAlike (s s' : Pl011) : Prop where
  rxrb : s'.rxrb = s.rxrb
  received : s'.received = s.received
  answers : s'.answers = s.answers

theorem SendsAlike.output (alike : SendsAlike s s') : s'.output = s.output := by
  rw [Pl011.output, Pl011.output, alike.stores, alike.pendingNl]

/-- The driver when the first words of the FIFO have been read. -/
def drainWord (s : Pl011) (currentChar : Word) : Pl011 :=
  let errorMask := (currentChar >>> 8) &&& 0xF#32
  if errorMask ≠ 0#32 then { s with log := .rsr errorMask :: s.log }
  else { s with rxrb := s.rxrb.push (currentChar.truncate 8) }

theorem drainWords (ws : List Word) (s : Pl011) :
    SendsAlike s (ws.foldl drainWord s) ∧ (ws.foldl drainWord s).received = s.received ∧
      (ws.foldl drainWord s).rxrb.bytes = (typed ws).foldl (offer (ipcBufferSize - 1)) s.rxrb.bytes := by
  induction ws generalizing s with
  | nil => exact ⟨⟨rfl, rfl, rfl, rfl⟩, rfl, rfl⟩
  | cons w ws ih =>
    obtain ⟨alike, received, bytes⟩ := ih (s.drainWord w)
    rw [List.foldl_cons, typed, List.filterMap_cons]
    by_cases clean : (w >>> 8) &&& 0xF#32 = 0#32
    · have step : s.drainWord w = { s with rxrb := s.rxrb.push (w.truncate 8) } := if_neg (not_not.mpr clean)
      have byte : errorFree w = some (w.truncate 8) := if_pos clean
      rw [step] at alike received bytes ⊢
      rw [byte]
      refine ⟨⟨alike.stores, alike.pendingNl, alike.answers, alike.asked⟩, received, ?_⟩
      rw [bytes, List.foldl_cons, ← RxRing.bytes_push]
      rfl
    · have step : s.drainWord w = { s with log := .rsr ((w >>> 8) &&& 0xF#32) :: s.log } := if_pos clean
      have byte : errorFree w = none := if_neg clean
      rw [step] at alike received bytes ⊢
      rw [byte]
      exact ⟨⟨alike.stores, alike.pendingNl, alike.answers, alike.asked⟩, received, bytes⟩

/-- The bytes in the ring and those that are still in the FIFO. -/
def unread (s : Pl011) : List Byte := s.rxrb.bytes ++ typed s.received

/-- What is in the FIFO has room in the ring. -/
def Fits (s : Pl011) : Prop := s.rxrb.len + (typed s.received).length ≤ ipcBufferSize - 1

theorem uartDrainHwRxToRing_spec (s : Pl011) (fits : s.Fits) : SendsAlike s s.uartDrainHwRxToRing ∧
    s.uartDrainHwRxToRing.received = [] ∧ s.uartDrainHwRxToRing.rxrb.bytes = s.unread := by
  obtain ⟨alike, received, bytes⟩ := drainWords s.received { s with received := [] }
  refine ⟨⟨alike.stores, alike.pendingNl, alike.answers, alike.asked⟩, received, ?_⟩
  have room : s.rxrb.bytes.length + (typed s.received).length ≤ ipcBufferSize - 1 := by
    rw [RxRing.length_bytes]
    exact fits
  exact bytes.trans (Theory.offers_room room)

theorem handleReadImpl_all (s : Pl011) (fits : s.Fits) :
    (s.handleReadImpl ipcBufferSize).1 = s.unread ∧ SendsAlike s (s.handleReadImpl ipcBufferSize).2 ∧
      (s.handleReadImpl ipcBufferSize).2.unread = [] ∧
      (s.handleReadImpl ipcBufferSize).2.ipcBuffer = fill s.uartDrainHwRxToRing.ipcBuffer s.unread ∧ s.unread.length < ipcBufferSize := by
  obtain ⟨alike, received, bytes⟩ := uartDrainHwRxToRing_spec s fits
  obtain ⟨taken, left⟩ := uartReadFromRing_bytes ipcBufferSize s.uartDrainHwRxToRing.rxrb
  have short : s.unread.length < ipcBufferSize := by
    rw [← bytes, RxRing.length_bytes]
    exact RxRing.len_lt _
  rw [bytes, List.take_of_length_le (Nat.le_of_lt short)] at taken
  rw [bytes, List.drop_eq_nil_of_le (Nat.le_of_lt short)] at left
  have reads : s.handleReadImpl ipcBufferSize = (s.unread, { s.uartDrainHwRxToRing with
      rxrb := (uartReadFromRing ipcBufferSize s.uartDrainHwRxToRing.rxrb).2
      ipcBuffer := fill s.uartDrainHwRxToRing.ipcBuffer s.unread }) := by
    rw [← taken]
    rfl
  rw [reads]
  refine ⟨rfl, ⟨alike.stores, alike.pendingNl, alike.answers, alike.asked⟩, ?_, rfl, short⟩
  show (uartReadFromRing ipcBufferSize s.uartDrainHwRxToRing.rxrb).2.bytes ++ typed s.uartDrainHwRxToRing.received = []
  rw [left, received]
  rfl

end Pl011

/-! ### Progress of a write -/

namespace Pl011

variable {s : Pl011}

theorem handleWrite_some {u : Utcb} {tag : Word} {n : Nat} (mem : Word → Byte) (words : MsgTag.u tag = 1) (items : MsgTag.t tag = 2)
    (length : Item.length (u.mr termWriteBuf) = n) (some_ : 0 < n) (fits : n ≤ ipcBufferSize) :
    let bytes := stringAt mem (u.mr (termWriteBuf + 1)) n
    let r := uartWriteNonblocking { s with ipcBuffer := fill s.ipcBuffer bytes } bytes
    s.handleWrite u mem tag = (r.2, writeAnswer u (BitVec.ofNat 32 r.1)) := by
  have tagged : ¬ (MsgTag.u tag ≠ 1 ∨ MsgTag.t tag ≠ 2) := by simp [words, items]
  have string : stringAt mem (u.mr (termWriteBuf + 1)) n ≠ [] := by
    apply List.ne_nil_of_length_pos
    rwa [length_stringAt]
  unfold handleWrite
  rw [if_neg tagged, length, Nat.min_eq_left fits]
  dsimp only
  rw [handleWriteImpl, if_neg string]

/-- What may still go out of a string with `remaining` bytes left, where each of them may need a second round. -/
def owed (s : Pl011) (remaining : Nat) : Nat := 2 * remaining + s.pendingNl.toNat

theorem writeLoop_alike (buffer : List Byte) (written : Nat) (s : Pl011) : ReceivesAlike s (writeLoop buffer written s).2 := by
  induction buffer generalizing written s with
  | nil => exact ⟨rfl, rfl, rfl⟩
  | cons c rest ih =>
    have on : ∀ (w : Nat) (t : Pl011), ReceivesAlike s t → ReceivesAlike s (writeLoop rest w t).2 := by
      intro w t alike
      obtain ⟨rxrb, received, answers⟩ := ih w t
      exact ⟨rxrb.trans alike.rxrb, received.trans alike.received, answers.trans alike.answers⟩
    unfold writeLoop
    dsimp only [uartIsWritable, store]
    split
    · exact ⟨rfl, rfl, rfl⟩
    split
    · split
      · exact ⟨rfl, rfl, rfl⟩
      · apply on
        exact ⟨rfl, rfl, rfl⟩
    · apply on
      exact ⟨rfl, rfl, rfl⟩

theorem uartWriteNonblocking_alike (s : Pl011) (buffer : List Byte) : ReceivesAlike s (s.uartWriteNonblocking buffer).2 := by
  unfold uartWriteNonblocking
  dsimp only [uartIsWritable, store]
  split
  · split
    · exact ⟨rfl, rfl, rfl⟩
    · obtain ⟨rxrb, received, answers⟩ := writeLoop_alike buffer 0 { s with
        asked := s.asked + 1, pendingNl := false, log := .dr newline :: .writable (s.answers s.asked) :: s.log }
      exact ⟨rxrb, received, answers⟩
  · exact writeLoop_alike buffer 0 s

/-- A loop that took nothing asked once, if there was something to take. -/
theorem writeLoop_takes (buffer : List Byte) (idle : s.pendingNl = false) :
    0 < (writeLoop buffer 0 s).1 ∨ (writeLoop buffer 0 s).1 = 0 ∧ (writeLoop buffer 0 s).2.pendingNl = false ∧
      (buffer = [] ∨ s.answers s.asked = false ∧ (writeLoop buffer 0 s).2.asked = s.asked + 1) := by
  cases buffer with
  | nil => exact .inr ⟨rfl, idle, .inl rfl⟩
  | cons c rest =>
    have more : ∀ t : Pl011, t.pendingNl = false → 0 < (writeLoop rest (0 + 1) t).1 := by
      intro t idle
      obtain ⟨n, count, -⟩ := writeLoop_sent rest (0 + 1) t idle
      omega
    cases room : s.answers s.asked with
    | false =>
      refine .inr ?_
      unfold writeLoop
      dsimp only [uartIsWritable]
      rw [room, Bool.not_false, if_pos rfl]
      exact ⟨rfl, idle, .inr ⟨rfl, rfl⟩⟩
    | true =>
      refine .inl ?_
      unfold writeLoop
      dsimp only [uartIsWritable, store]
      rw [room, Bool.not_true, if_neg Bool.false_ne_true]
      split
      · split
        · exact Nat.succ_pos 0
        · apply more
          exact idle
      · apply more
        exact idle

/-- Where the FIFO has room at first, less is owed; otherwise only the question was asked. -/
theorem uartWriteNonblocking_moves (s : Pl011) {buffer : List Byte} (some_ : buffer ≠ []) :
    (s.answers s.asked = true → (s.uartWriteNonblocking buffer).2.owed (buffer.length - (s.uartWriteNonblocking buffer).1) < s.owed buffer.length) ∧
      (s.answers s.asked = false → (s.uartWriteNonblocking buffer).1 = 0 ∧ (s.uartWriteNonblocking buffer).2.asked = s.asked + 1 ∧
        (s.uartWriteNonblocking buffer).2.pendingNl = s.pendingNl) := by
  have length : 0 < buffer.length := List.length_pos_iff.mpr some_
  have bound := (uartWriteNonblocking_sent s buffer).bound
  have digit : ∀ b : Bool, b.toNat ≤ 1 := Bool.toNat_le
  unfold uartWriteNonblocking at bound ⊢
  cases waits : s.pendingNl with
  | false =>
    rw [waits] at bound
    simp only [Bool.false_eq_true, if_false] at bound ⊢
    have last := digit (writeLoop buffer 0 s).2.pendingNl
    obtain takes | ⟨none_, idle, empty | ⟨stalled, asked⟩⟩ := writeLoop_takes buffer waits
    · constructor
      · intro _
        simp only [owed, waits, Bool.toNat_false]
        omega
      · intro stalled
        have nothing : (writeLoop buffer 0 s).1 = 0 := by
          obtain ⟨c, rest, rfl⟩ := List.exists_cons_of_ne_nil some_
          simp [writeLoop, uartIsWritable, stalled]
        omega
    · exact absurd empty some_
    · refine ⟨fun room => ?_, fun _ => ⟨none_, asked, idle⟩⟩
      rw [stalled] at room
      cases room
  | true =>
    cases room : s.answers s.asked with
    | false =>
      dsimp only [uartIsWritable]
      rw [if_pos rfl, room, Bool.not_false, if_pos rfl]
      exact ⟨fun absurd => (Bool.false_ne_true absurd).elim, fun _ => ⟨rfl, rfl, waits⟩⟩
    | true =>
      rw [waits] at bound
      simp only [uartIsWritable, store, room, if_true, Bool.not_true, Bool.false_eq_true, if_false] at bound ⊢
      refine ⟨fun _ => ?_, fun absurd => (Bool.false_ne_true absurd.symm).elim⟩
      generalize from_ : ({ s with asked := s.asked + 1, pendingNl := false, log := .dr newline :: .writable true :: s.log } : Pl011) = t at bound ⊢
      have idle : t.pendingNl = false := by rw [← from_]
      have last := digit (writeLoop buffer 0 t).2.pendingNl
      simp only [owed, waits, Bool.toNat_true]
      obtain takes | ⟨none_, quiet, -⟩ := writeLoop_takes buffer idle
      · omega
      · rw [quiet, Bool.toNat_false]
        omega

end Pl011

/-! ### Calls -/

/-- An address that the driver's buffer does not have. -/
def Link.Elsewhere (l : Link) (a : Word) : Prop := ipcBufferSize ≤ (a - l.ipcBuffer).toNat

instance (l : Link) : DecidablePred l.Elsewhere := fun _ => inferInstanceAs (Decidable (_ ≤ _))

theorem copyBytes_elsewhere (m : Memory) {dst src a : Word} {length : Nat} (outside : length ≤ (a - dst).toNat) :
    (m.copyBytes dst src length).byte a = m.byte a := if_neg (Nat.not_lt.mpr outside)

theorem stringAt_copyBytes (m : Memory) (dst src : Word) {n length : Nat} (le : n ≤ length) (word : length ≤ 2 ^ 32) :
    stringAt (m.copyBytes dst src length).byte dst n = stringAt m.byte src n := by
  apply List.map_congr_left
  intro i member
  have inside : i < n := List.mem_range.mp member
  have distance : dst + BitVec.ofNat 32 i - dst = BitVec.ofNat 32 i := by rw [BitVec.add_comm, BitVec.add_sub_cancel]
  have small : (BitVec.ofNat 32 i).toNat = i := by
    rw [BitVec.toNat_ofNat]
    exact Nat.mod_eq_of_lt (by omega)
  rw [Memory.copyBytes]
  dsimp only
  rw [distance, small, if_pos (by omega)]

/-- A call in which the driver took some of the bytes that it was offered. -/
structure Taken (l : Link) (s : Session) (buf : Word) (length : Nat) (answer : Utcb) (s' : Session) : Prop where
  tag : answer.mr 0 = MsgTag.mk 1 0 0#32 termWriteRet
  bound : (answer.mr 1).toNat ≤ length
  output : s'.driver.output = s.driver.output ++ expand (stringAt s.memory.byte buf (answer.mr 1).toNat)
  receives : Pl011.ReceivesAlike s.driver s'.driver
  elsewhere : ∀ a, l.Elsewhere a → s'.memory.byte a = s.memory.byte a
  moved : s.driver.answers s.driver.asked = true → s'.driver.owed (length - (answer.mr 1).toNat) < s.driver.owed length
  stalled : s.driver.answers s.driver.asked = false →
    (answer.mr 1).toNat = 0 ∧ s'.driver.asked = s.driver.asked + 1 ∧ s'.driver.pendingNl = s.driver.pendingNl

/-- A call in which the driver brought bytes into the client's buffer. -/
structure Brought (l : Link) (s : Session) (buf : Word) (bytes : List Byte) (answer : Utcb) (s' : Session) : Prop where
  tag : answer.mr 0 = MsgTag.mk 0 2 0#32 termReadRet
  length : Item.length (answer.mr 1) = bytes.length
  ptr : answer.mr 2 = buf
  string : stringAt s'.memory.byte buf bytes.length = bytes
  short : bytes.length < ipcBufferSize
  sends : Pl011.SendsAlike s.driver s'.driver
  unread : s'.driver.unread = []
  elsewhere : ∀ a, l.Elsewhere a → ipcBufferSize ≤ (a - buf).toNat → s'.memory.byte a = s.memory.byte a

section
variable {l : Link} {s : Session} {u : Utcb}

@[simp] theorem loadBrs_acceptor (buffer : Word) (u : Utcb) : (loadBrs buffer u).br 0 = 1#32 := by
  simp [loadBrs, Utcb.br, Utcb.setMr]

@[simp] theorem loadBrs_item (buffer : Word) (u : Utcb) :
    (loadBrs buffer u).br 1 = Item.simpleString (BitVec.ofNat 32 ipcBufferSize) := by
  simp [loadBrs, Utcb.br, Utcb.setMr]

@[simp] theorem loadBrs_ptr (buffer : Word) (u : Utcb) : (loadBrs buffer u).br 2 = buffer := by
  simp [loadBrs, Utcb.br, Utcb.setMr]

namespace Session

theorem asking_client : (s.asking l u).utcb l.client.utcb = u := Function.update_self _ _ _

theorem asking_server (apart : l.client.utcb ≠ l.server.utcb) :
    (s.asking l u).utcb l.server.utcb = loadBrs l.ipcBuffer (s.memory.utcb l.server.utcb) := by
  rw [asking, Memory.setUtcb]
  dsimp only
  rw [Function.update_of_ne apart.symm]
  exact Function.update_self _ _ _

theorem answering_server (m : Memory) (driver : Pl011) (answer : Utcb) : (answering l m driver answer).utcb l.server.utcb = answer :=
  Function.update_self _ _ _

theorem answering_client (apart : l.client.utcb ≠ l.server.utcb) (m : Memory) (driver : Pl011) (answer : Utcb) :
    (answering l m driver answer).utcb l.client.utcb = m.utcb l.client.utcb := Function.update_of_ne apart _ _

theorem answering_elsewhere (m : Memory) (driver : Pl011) (answer : Utcb) {a : Word} (outside : l.Elsewhere a) :
    (answering l m driver answer).byte a = m.byte a := if_neg (Nat.not_lt.mpr outside)

theorem call_of_copied {m m' : Memory} {driver : Pl011} {reply : Utcb}
    (arrived : (s.asking l u).copyPayload l.client l.server = .ok (.none, m))
    (handled : s.driver.dispatch (m.utcb l.server.utcb) m.byte l.ipcBuffer = (driver, reply))
    (back : (answering l m driver reply).copyPayload l.server l.client = .ok (.none, m')) :
    s.call l u = .ok (m'.utcb l.client.utcb, ⟨driver, m'⟩) := by
  unfold call
  rw [arrived]
  change answer l m (s.driver.dispatch (m.utcb l.server.utcb) m.byte l.ipcBuffer) = _
  rw [handled, answer, back]
  rfl

end Session

/-- An offered string of at most as many bytes as the driver's buffer has. -/
structure Offered (u : Utcb) (buf length : Word) : Prop where
  tag : u.mr 0 = MsgTag.mk 1 2 0#32 termWriteLabel
  item : u.mr termWriteBuf = Item.simpleString length
  ptr : u.mr (termWriteBuf + 1) = buf
  some_ : 0 < length.toNat
  fits : length.toNat ≤ ipcBufferSize

theorem Offered.length {buf length : Word} (offered : Offered u buf length) : Item.length (u.mr termWriteBuf) = length.toNat := by
  rw [offered.item, Item.length_simpleString]
  exact Nat.mod_eq_of_lt (Nat.lt_of_le_of_lt offered.fits (by decide))

/-- What the driver receives of an offered string. -/
structure Received (l : Link) (s : Session) (buf : Word) (length : Nat) (m : Memory) : Prop where
  tag : (m.utcb l.server.utcb).mr 0 = MsgTag.mk 1 2 0#32 termWriteLabel
  size : Item.length ((m.utcb l.server.utcb).mr termWriteBuf) = length
  ptr : (m.utcb l.server.utcb).mr (termWriteBuf + 1) = l.ipcBuffer
  string : stringAt m.byte l.ipcBuffer length = stringAt s.memory.byte buf length
  elsewhere : ∀ a, l.Elsewhere a → m.byte a = s.memory.byte a

namespace Session

theorem offered_arrives {buf length : Word} (apart : l.client.utcb ≠ l.server.utcb) (offered : Offered u buf length) :
    ∃ m, (s.asking l u).copyPayload l.client l.server = .ok (.none, m) ∧ Received l s buf length.toNat m := by
  have client : (s.asking l u).utcb l.client.utcb = u := asking_client
  have server := asking_server (s := s) (u := u) apart
  have size : Item.length (u.mr (1 + 1)) = length.toNat := offered.length
  have pointer : u.mr (1 + 1 + 1) = buf := offered.ptr
  obtain ⟨m, arrived, words, bytes, item, ptr⟩ := @Memory.copyPayload_string (s.asking l u) l.client 1 termWriteLabel
    l.server (by rw [client, offered.tag]) (by decide) apart
    (by rw [client]; exact offered.item ▸ Item.type_simpleString length)
    (by rw [client]; exact offered.item ▸ Item.compound_simpleString length)
    (by rw [server, loadBrs_acceptor]; rfl) (by rw [server, loadBrs_item]; exact Item.compound_simpleString _)
    (by
      rw [client, server, loadBrs_item]
      exact size.trans_le offered.fits)
  rw [client] at bytes item
  rw [server, loadBrs_ptr] at bytes ptr
  rw [size, pointer] at bytes
  refine ⟨m, arrived, words.tag, ?_, ptr, ?_, ?_⟩
  · exact (congrArg Item.length item).trans size
  · rw [bytes]
    exact stringAt_copyBytes _ _ _ (Nat.le_refl _) length.isLt.le
  · intro a outside
    rw [bytes]
    exact copyBytes_elsewhere _ (offered.fits.trans outside)

theorem offered_handled {m : Memory} {buf : Word} {n : Nat} (received : Received l s buf n m) (some_ : 0 < n) (fits : n ≤ ipcBufferSize) :
    let driver := { s.driver.loaded m.byte l.ipcBuffer with
      ipcBuffer := Pl011.fill (s.driver.loaded m.byte l.ipcBuffer).ipcBuffer (stringAt s.memory.byte buf n) }
    let r := driver.uartWriteNonblocking (stringAt s.memory.byte buf n)
    s.driver.dispatch (m.utcb l.server.utcb) m.byte l.ipcBuffer =
      (r.2, writeAnswer (m.utcb l.server.utcb) (BitVec.ofNat 32 r.1)) := by
  have words : MsgTag.u ((m.utcb l.server.utcb).mr 0) = 1 := by rw [received.tag, MsgTag.u_mk]
  have items : MsgTag.t ((m.utcb l.server.utcb).mr 0) = 2 := by rw [received.tag, MsgTag.t_mk]
  have label : MsgTag.label ((m.utcb l.server.utcb).mr 0) = termWriteLabel := by
    rw [received.tag, MsgTag.label_mk]
    rfl
  have handled := Pl011.handleWrite_some (s := s.driver.loaded m.byte l.ipcBuffer) m.byte words items received.size some_ fits
  rw [received.ptr, received.string] at handled
  unfold Pl011.dispatch
  dsimp only
  rw [if_neg (by rw [label]; decide), if_pos label]
  exact handled

theorem written_back (m : Memory) (driver : Pl011) (server : Utcb) {n : Nat} (fits : n ≤ ipcBufferSize) :
    ∃ m', (answering l m driver (writeAnswer server (BitVec.ofNat 32 n))).copyPayload l.server l.client = .ok (.none, m') ∧
      (m'.utcb l.client.utcb).mr 0 = MsgTag.mk 1 0 0#32 termWriteRet ∧ ((m'.utcb l.client.utcb).mr 1).toNat = n ∧
      ∀ a, l.Elsewhere a → m'.byte a = m.byte a := by
  have here := answering_server (l := l) m driver (writeAnswer server (BitVec.ofNat 32 n))
  obtain ⟨m', back, words, bytes⟩ := @Memory.copyPayload_words (answering l m driver (writeAnswer server (BitVec.ofNat 32 n)))
    l.server 1 termWriteRet l.client (by rw [here]; rfl) (by decide)
  refine ⟨m', back, words.tag, ?_, ?_⟩
  · rw [words.words 1 (Nat.le_refl 1) (Nat.le_refl 1), here]
    exact toNat_of_length fits
  · intro a outside
    rw [bytes]
    exact answering_elsewhere m driver _ outside

theorem call_offered {buf length : Word} (apart : l.client.utcb ≠ l.server.utcb) (offered : Offered u buf length) :
    ∃ answer s', s.call l u = .ok (answer, s') ∧ Taken l s buf length.toNat answer s' := by
  obtain ⟨m, arrived, received⟩ := offered_arrives (s := s) apart offered
  have handled := offered_handled received offered.some_ offered.fits
  dsimp only at handled
  generalize loaded : ({ s.driver.loaded m.byte l.ipcBuffer with
    ipcBuffer := Pl011.fill (s.driver.loaded m.byte l.ipcBuffer).ipcBuffer (stringAt s.memory.byte buf length.toNat) } : Pl011) =
      driver at handled
  have some_ : stringAt s.memory.byte buf length.toNat ≠ [] := by
    apply List.ne_nil_of_length_pos
    rw [length_stringAt]
    exact offered.some_
  have sent := Pl011.uartWriteNonblocking_sent driver (stringAt s.memory.byte buf length.toNat)
  have alike := Pl011.uartWriteNonblocking_alike driver (stringAt s.memory.byte buf length.toNat)
  have moves := Pl011.uartWriteNonblocking_moves driver some_
  generalize driver.uartWriteNonblocking (stringAt s.memory.byte buf length.toNat) = r at handled sent alike moves
  have bound : r.1 ≤ length.toNat := length_stringAt s.memory.byte buf length.toNat ▸ sent.bound
  obtain ⟨m', back, tag, count, elsewhere⟩ := written_back (l := l) m r.2 (m.utcb l.server.utcb) (bound.trans offered.fits)
  rw [length_stringAt] at moves
  subst loaded
  refine ⟨_, _, call_of_copied arrived handled back, tag, ?_, ?_, ⟨alike.rxrb, alike.received, alike.answers⟩, ?_, ?_, ?_⟩
  · rwa [count]
  · rw [count, ← take_stringAt s.memory.byte buf bound]
    exact sent.output
  · exact fun a outside => (elsewhere a outside).trans (received.elsewhere a outside)
  · rw [count]
    exact moves.1
  · rw [count]
    exact moves.2

end Session

/-- A read of as much as a buffer of the client's holds. -/
structure Asked (u : Utcb) (buf : Word) : Prop where
  tag : u.mr 0 = MsgTag.mk 2 0 0#32 termReadLabel
  size : u.mr termReadSize = BitVec.ofNat 32 ipcBufferSize
  acceptor : u.br 0 = 1#32
  item : u.br 1 = Item.simpleString (BitVec.ofNat 32 ipcBufferSize)
  ptr : u.br 2 = buf

theorem stringAt_storeBuffer (m : Memory) (origin : Word) (buffer : Nat → Byte) {n : Nat} (fits : n ≤ ipcBufferSize) :
    stringAt (storeBuffer m origin buffer).byte origin n = (List.range n).map buffer := by
  apply List.map_congr_left
  intro i member
  have early : i < n := List.mem_range.mp member
  have distance : origin + BitVec.ofNat 32 i - origin = BitVec.ofNat 32 i := by rw [BitVec.add_comm, BitVec.add_sub_cancel]
  have small : (BitVec.ofNat 32 i).toNat = i := toNat_of_length (early.le.trans fits)
  unfold storeBuffer
  dsimp only
  rw [distance, small, if_pos (early.trans_le fits)]

theorem map_fill (old : Nat → Byte) (bytes : List Byte) : (List.range bytes.length).map (Pl011.fill old bytes) = bytes := by
  apply List.ext_getElem (by rw [List.length_map, List.length_range])
  intro i _ inside
  rw [List.getElem_map, List.getElem_range, Pl011.fill, List.getD_eq_getElem?_getD, List.getElem?_eq_getElem inside, Option.getD_some]

namespace Session

variable {buf : Word}

theorem asked_handled {m : Memory} (tag : (m.utcb l.server.utcb).mr 0 = MsgTag.mk 2 0 0#32 termReadLabel)
    (size : (m.utcb l.server.utcb).mr termReadSize = BitVec.ofNat 32 ipcBufferSize) (fits : s.driver.Fits) :
    ∃ driver old, s.driver.dispatch (m.utcb l.server.utcb) m.byte l.ipcBuffer =
        (driver, readAnswer (m.utcb l.server.utcb) (BitVec.ofNat 32 s.driver.unread.length) l.ipcBuffer) ∧
      Pl011.SendsAlike s.driver driver ∧ driver.unread = [] ∧ driver.ipcBuffer = Pl011.fill old s.driver.unread := by
  have words : MsgTag.u ((m.utcb l.server.utcb).mr 0) = 2 := by rw [tag, MsgTag.u_mk]
  have items : MsgTag.t ((m.utcb l.server.utcb).mr 0) = 0 := by rw [tag, MsgTag.t_mk]
  have label : MsgTag.label ((m.utcb l.server.utcb).mr 0) = termReadLabel := by
    rw [tag, MsgTag.label_mk]
    rfl
  have tagged : ¬ (MsgTag.u ((m.utcb l.server.utcb).mr 0) ≠ 2 ∨ MsgTag.t ((m.utcb l.server.utcb).mr 0) ≠ 0) := by simp [words, items]
  obtain ⟨bytes, alike, empty, filled, -⟩ := Pl011.handleReadImpl_all (s.driver.loaded m.byte l.ipcBuffer) fits
  refine ⟨((s.driver.loaded m.byte l.ipcBuffer).handleReadImpl ipcBufferSize).2, _, ?_, ?_, empty, filled⟩
  · unfold Pl011.dispatch
    dsimp only
    rw [if_pos label, Pl011.handleRead, if_neg tagged]
    dsimp only
    rw [size, if_neg (by decide), show (BitVec.ofNat 32 ipcBufferSize).toNat = ipcBufferSize from rfl, bytes]
    rfl
  · exact ⟨alike.stores, alike.pendingNl, alike.answers, alike.asked⟩

theorem brought_back {m : Memory} {driver : Pl011} (server : Utcb) {bytes : List Byte} {old : Nat → Byte}
    (apart : l.client.utcb ≠ l.server.utcb) (asked : Asked (m.utcb l.client.utcb) buf) (fits : bytes.length ≤ ipcBufferSize)
    (filled : driver.ipcBuffer = Pl011.fill old bytes) :
    ∃ m', (answering l m driver (readAnswer server (BitVec.ofNat 32 bytes.length) l.ipcBuffer)).copyPayload l.server l.client =
        .ok (.none, m') ∧
      (m'.utcb l.client.utcb).mr 0 = MsgTag.mk 0 2 0#32 termReadRet ∧ Item.length ((m'.utcb l.client.utcb).mr 1) = bytes.length ∧
      (m'.utcb l.client.utcb).mr 2 = buf ∧ stringAt m'.byte buf bytes.length = bytes ∧
      ∀ a, l.Elsewhere a → ipcBufferSize ≤ (a - buf).toNat → m'.byte a = m.byte a := by
  generalize reply : readAnswer server (BitVec.ofNat 32 bytes.length) l.ipcBuffer = answer
  have here := answering_server (l := l) m driver answer
  have there := answering_client (l := l) apart m driver answer
  have item : answer.mr (0 + 1) = Item.simpleString (BitVec.ofNat 32 bytes.length) := by rw [← reply]; rfl
  have pointer : answer.mr (0 + 1 + 1) = l.ipcBuffer := by rw [← reply]; rfl
  have size : Item.length (answer.mr (0 + 1)) = bytes.length := by
    rw [item, Item.length_simpleString, toNat_of_length fits]
    exact Nat.mod_eq_of_lt (Nat.lt_of_le_of_lt fits (by decide))
  obtain ⟨m', back, words, stored, first, second⟩ := @Memory.copyPayload_string (answering l m driver answer) l.server 0 termReadRet
    l.client (by rw [here, ← reply]; rfl) (by decide) apart.symm
    (by rw [here, item]; exact Item.type_simpleString _) (by rw [here, item]; exact Item.compound_simpleString _)
    (by rw [there, asked.acceptor]; rfl) (by rw [there, asked.item]; exact Item.compound_simpleString _)
    (by
      rw [here, there, size, asked.item]
      exact fits)
  rw [here] at stored first
  rw [there, asked.ptr] at stored second
  rw [size, pointer] at stored
  refine ⟨m', back, words.tag, (congrArg Item.length first).trans size, second, ?_, ?_⟩
  · have text := stringAt_storeBuffer (m.setUtcb l.server.utcb fun _ => answer) l.ipcBuffer (Pl011.fill old bytes) fits
    rw [map_fill] at text
    rw [stored, stringAt_copyBytes _ _ _ (Nat.le_refl _) (fits.trans (by decide))]
    rw [← filled] at text
    exact text
  · intro a outside client
    rw [stored, copyBytes_elsewhere _ (fits.trans client)]
    exact answering_elsewhere m driver answer outside

theorem call_asked (apart : l.client.utcb ≠ l.server.utcb) (asked : Asked u buf) (fits : s.driver.Fits) :
    ∃ answer s', s.call l u = .ok (answer, s') ∧ Brought l s buf s.driver.unread answer s' := by
  have client : (s.asking l u).utcb l.client.utcb = u := asking_client
  obtain ⟨m, arrived, words, bytes⟩ := @Memory.copyPayload_words (s.asking l u) l.client 2 termReadLabel l.server (by rw [client, asked.tag]) (by decide)
  have same : m.utcb l.client.utcb = u := (words.others _ apart).trans client
  have size : (m.utcb l.server.utcb).mr termReadSize = BitVec.ofNat 32 ipcBufferSize := by
    have second := words.words termReadSize (by decide) (Nat.le_refl 2)
    rw [second, client]
    exact asked.size
  obtain ⟨driver, old, handled, alike, empty, filled⟩ := asked_handled words.tag size fits
  have short : s.driver.unread.length < ipcBufferSize := (Pl011.handleReadImpl_all s.driver fits).2.2.2.2
  obtain ⟨m', back, tag, length, ptr, string, elsewhere⟩ :=
    brought_back (m.utcb l.server.utcb) apart (same.symm ▸ asked) short.le filled
  refine ⟨_, _, call_of_copied arrived handled back, tag, length, ptr, string, short, alike, empty, fun a outside client => ?_⟩
  rw [elsewhere a outside client, bytes]
  rfl

end Session
end

end BradypOS.Terminal
