import BradypOS.Terminal.Output
import BradypOS.Terminal.Shterm

/-!
# The protocol of a terminal server

A read delivers no more than the buffer holds and says how much it is; a write says how much of the
string was taken. The PL011 server does both. The semihosting server reads past its buffer when the
host has that much, and reports the bytes of a write that are left.
-/

namespace BradypOS.Terminal

open L4

/-- A read of at most `size` bytes that stored `bytes` into the buffer. -/
structure ReadHonoured (size : Word) (bytes : List Byte) (answer : Utcb) : Prop where
  fits : bytes.length ≤ ipcBufferSize
  bound : bytes.length ≤ size.toNat
  tag : answer.mr 0 = MsgTag.mk 0 2 0#32 termReadRet
  length : Item.length (answer.mr 1) = bytes.length

/-- A write of `length` bytes, of which `consumed` were taken. -/
structure WriteHonoured (length consumed : Nat) (answer : Utcb) : Prop where
  bound : consumed ≤ length
  tag : answer.mr 0 = MsgTag.mk 1 0 0#32 termWriteRet
  size : (answer.mr 1).toNat = consumed

variable {u : Utcb} {tag ipcBuffer : Word}

/-! ### The ring -/

theorem RxRing.len_lt (r : RxRing) : r.len < ipcBufferSize := by
  unfold RxRing.len
  have head := r.head.isLt
  have tail := r.tail.isLt
  simp only [Fin.le_def, ipcBufferSize] at head tail ⊢
  split <;> omega

theorem RxRing.len_pop {r r' : RxRing} {c : Byte} (h : r.pop = some (c, r')) : r'.len + 1 = r.len := by
  unfold RxRing.pop at h
  split at h
  · cases h
  · rename_i more
    cases h
    have differs : r.tail.val ≠ r.head.val := fun same => more (Fin.ext same)
    have head := r.head.isLt
    have tail := r.tail.isLt
    have next : (r.tail + 1).val = (r.tail.val + 1) % ipcBufferSize := Fin.val_add r.tail 1
    simp only [RxRing.len, Fin.le_def, next, ipcBufferSize] at head tail ⊢
    split <;> split <;> omega

namespace Pl011

theorem uartReadFromRing_length (len : Nat) (r : RxRing) :
    (uartReadFromRing len r).1.length ≤ len ∧ (uartReadFromRing len r).1.length ≤ r.len := by
  induction len generalizing r with
  | zero => simp [uartReadFromRing]
  | succ len ih =>
    unfold uartReadFromRing
    cases popped : r.pop with
    | none => simp
    | some p =>
      obtain ⟨c, r'⟩ := p
      have shorter := RxRing.len_pop popped
      have rest := ih r'
      simp only [List.length_cons]
      omega

end Pl011

/-! ### Answers -/

theorem readAnswer_honoured {size length : Word} {bytes : List Byte} (fits : bytes.length ≤ ipcBufferSize)
    (bound : bytes.length ≤ size.toNat) (same : length.toNat = bytes.length) : ReadHonoured size bytes (readAnswer u length ipcBuffer) := by
  refine ⟨fits, bound, rfl, ?_⟩
  show Item.length (Item.simpleString length) = bytes.length
  rw [Item.length_simpleString, same]
  exact Nat.mod_eq_of_lt (lt_of_le_of_lt fits (by decide))

theorem toNat_of_length {n : Nat} (fits : n ≤ ipcBufferSize) : (BitVec.ofNat 32 n).toNat = n := by
  rw [BitVec.toNat_ofNat]
  exact Nat.mod_eq_of_lt (lt_of_le_of_lt fits (by decide))

namespace Pl011

theorem handleRead_honoured (s : Pl011) (u : Utcb) (ipcBuffer : Word) (words : MsgTag.u tag = 2) (items : MsgTag.t tag = 0) :
    ReadHonoured (u.mr termReadSize) (s.handleRead u tag ipcBuffer).1 (s.handleRead u tag ipcBuffer).2.2 := by
  have tagged : ¬ (MsgTag.u tag ≠ 2 ∨ MsgTag.t tag ≠ 0) := by simp [words, items]
  unfold handleRead
  rw [if_neg tagged]
  dsimp only
  split
  · exact readAnswer_honoured (Nat.zero_le _) (Nat.zero_le _) rfl
  · rename_i some
    have positive : (u.mr termReadSize).toNat ≠ 0 := fun zero => some (BitVec.eq_of_toNat_eq zero)
    unfold handleReadImpl
    rw [if_neg positive]
    obtain ⟨bound, inside⟩ := uartReadFromRing_length (u.mr termReadSize).toNat s.uartDrainHwRxToRing.rxrb
    have fits := inside.trans (RxRing.len_lt s.uartDrainHwRxToRing.rxrb).le
    exact readAnswer_honoured fits bound (toNat_of_length fits)

theorem handleWrite_honoured (s : Pl011) (u : Utcb) (mem : Word → Byte) (words : MsgTag.u tag = 1) (items : MsgTag.t tag = 2) :
    ∃ consumed, WriteHonoured (Item.length (u.mr termWriteBuf)) consumed (s.handleWrite u mem tag).2 ∧
      (s.handleWrite u mem tag).1.output = s.output ++ expand (stringAt mem (u.mr (termWriteBuf + 1)) consumed) := by
  have tagged : ¬ (MsgTag.u tag ≠ 1 ∨ MsgTag.t tag ≠ 2) := by simp [words, items]
  unfold handleWrite
  rw [if_neg tagged]
  dsimp only
  generalize string : stringAt mem (u.mr (termWriteBuf + 1)) (min (Item.length (u.mr termWriteBuf)) ipcBufferSize) = bytes
  have length : bytes.length = min (Item.length (u.mr termWriteBuf)) ipcBufferSize := by rw [← string, length_stringAt]
  unfold handleWriteImpl
  split
  · refine ⟨0, ⟨Nat.zero_le _, rfl, rfl⟩, ?_⟩
    simp [output, stringAt, expand]
  · have sent := uartWriteNonblocking_sent { s with ipcBuffer := fill s.ipcBuffer bytes } bytes
    generalize Pl011.uartWriteNonblocking { s with ipcBuffer := fill s.ipcBuffer bytes } bytes = r at sent
    have bound := sent.bound
    have fits : r.1 ≤ ipcBufferSize := by omega
    refine ⟨r.1, ⟨by omega, rfl, toNat_of_length fits⟩, ?_⟩
    rw [← take_stringAt mem _ (length ▸ bound), string]
    exact sent.output

end Pl011

namespace Host

theorem handleRead_iff (host : Host) (u : Utcb) (ipcBuffer : Word) (words : MsgTag.u tag = 2) (items : MsgTag.t tag = 0) :
    ReadHonoured (u.mr termReadSize) (host.handleRead u tag ipcBuffer).1 (host.handleRead u tag ipcBuffer).2 ↔
      (host.read (u.mr termReadSize)).length ≤ ipcBufferSize := by
  have tagged : ¬ (MsgTag.u tag ≠ 2 ∨ MsgTag.t tag ≠ 0) := by simp [words, items]
  unfold handleRead
  rw [if_neg tagged]
  refine ⟨fun honoured => honoured.fits, fun fits => readAnswer_honoured fits (host.read_le _) ?_⟩
  show (u.mr termReadSize - (u.mr termReadSize - BitVec.ofNat 32 (host.read (u.mr termReadSize)).length)).toNat = _
  rw [sub_sub_cancel]
  exact toNat_of_length fits

theorem handleWrite_iff (host : Host) (u : Utcb) (mem : Word → Byte) (words : MsgTag.u tag = 1) (items : MsgTag.t tag = 2) :
    WriteHonoured (Item.length (u.mr termWriteBuf))
        (host.write (stringAt mem (u.mr (termWriteBuf + 1)) (Item.length (u.mr termWriteBuf)))) (host.handleWrite u mem tag) ↔
      2 * host.write (stringAt mem (u.mr (termWriteBuf + 1)) (Item.length (u.mr termWriteBuf))) =
        Item.length (u.mr termWriteBuf) := by
  have tagged : ¬ (MsgTag.u tag ≠ 1 ∨ MsgTag.t tag ≠ 2) := by simp [words, items]
  unfold handleWrite
  rw [if_neg tagged]
  generalize string : stringAt mem (u.mr (termWriteBuf + 1)) (Item.length (u.mr termWriteBuf)) = bytes
  have length : bytes.length = Item.length (u.mr termWriteBuf) := by rw [← string, length_stringAt]
  have le := host.write_le bytes
  have small : Item.length (u.mr termWriteBuf) < 2 ^ 32 := (u.mr termWriteBuf >>> 10).isLt
  have answer : (host.shWrite bytes).toNat = bytes.length - host.write bytes := by
    unfold shWrite
    rw [BitVec.toNat_sub, BitVec.toNat_ofNat, BitVec.toNat_ofNat]
    omega
  constructor
  · intro honoured
    have size : (host.shWrite bytes).toNat = host.write bytes := honoured.size
    omega
  · intro half
    refine ⟨by omega, rfl, ?_⟩
    show (host.shWrite bytes).toNat = host.write bytes
    omega

end Host

/-- The PL011 server honours the protocol in every state. The semihosting server honours a read if and only
if the host delivers no more than the buffer holds, and a write if and only if the host takes half of it. -/
theorem servers_honour (s : Pl011) (host : Host) (u : Utcb) (mem : Word → Byte) (tag ipcBuffer : Word) :
    (MsgTag.u tag = 2 → MsgTag.t tag = 0 →
      ReadHonoured (u.mr termReadSize) (s.handleRead u tag ipcBuffer).1 (s.handleRead u tag ipcBuffer).2.2 ∧
      (ReadHonoured (u.mr termReadSize) (host.handleRead u tag ipcBuffer).1 (host.handleRead u tag ipcBuffer).2 ↔
        (host.read (u.mr termReadSize)).length ≤ ipcBufferSize)) ∧
    (MsgTag.u tag = 1 → MsgTag.t tag = 2 →
      (∃ consumed, WriteHonoured (Item.length (u.mr termWriteBuf)) consumed (s.handleWrite u mem tag).2 ∧
        (s.handleWrite u mem tag).1.output = s.output ++ expand (stringAt mem (u.mr (termWriteBuf + 1)) consumed)) ∧
      (WriteHonoured (Item.length (u.mr termWriteBuf))
          (host.write (stringAt mem (u.mr (termWriteBuf + 1)) (Item.length (u.mr termWriteBuf)))) (host.handleWrite u mem tag) ↔
        2 * host.write (stringAt mem (u.mr (termWriteBuf + 1)) (Item.length (u.mr termWriteBuf))) =
          Item.length (u.mr termWriteBuf))) := by
  constructor
  · intro words items
    exact ⟨s.handleRead_honoured u ipcBuffer words items, host.handleRead_iff u ipcBuffer words items⟩
  · intro words items
    exact ⟨s.handleWrite_honoured u mem words items, host.handleWrite_iff u mem words items⟩

/-- A host that delivers one byte to a read and takes half of a string. -/
def half : Host where
  read len := if len = 0#32 then [] else [0x41#8]
  read_le len := by
    split
    · simp
    · rename_i some
      have positive : len.toNat ≠ 0 := fun zero => some (BitVec.eq_of_toNat_eq zero)
      simp only [List.length_singleton]
      omega
  write bytes := bytes.length / 2
  write_le bytes := Nat.div_le_self bytes.length 2

/-- A client's registers, with the third one. -/
def asks (word : Word) : Utcb where
  globalId := 0#32
  processorNo := 0#32
  tPager := 0#32
  error := 0#32
  sender := 0#32
  words i := if i = 2 then word else 0#32

def readTag : Word := MsgTag.mk 2 0 0#32 0#32

def writeTag : Word := MsgTag.mk 1 2 0#32 1#32

theorem servers_honour_half :
    (ReadHonoured 5#32 (Pl011.stalled.handleRead (asks 5#32) readTag 0x3000#32).1 (Pl011.stalled.handleRead (asks 5#32) readTag 0x3000#32).2.2 ∧
      ReadHonoured 5#32 (half.handleRead (asks 5#32) readTag 0x3000#32).1 (half.handleRead (asks 5#32) readTag 0x3000#32).2) ∧
    (∃ consumed, WriteHonoured 2 consumed (Pl011.stalled.handleWrite (asks (Item.simpleString 2#32)) (fun _ => 0x41#8) writeTag).2) ∧
      WriteHonoured 2 1 (half.handleWrite (asks (Item.simpleString 2#32)) (fun _ => 0x41#8) writeTag) := by
  obtain ⟨reads, _⟩ := servers_honour Pl011.stalled half (asks 5#32) (fun _ => 0x41#8) readTag 0x3000#32
  obtain ⟨_, writes⟩ := servers_honour Pl011.stalled half (asks (Item.simpleString 2#32)) (fun _ => 0x41#8) writeTag 0x3000#32
  obtain ⟨pl011, shterm⟩ := reads (by decide) (by decide)
  obtain ⟨⟨consumed, honoured, _⟩, shterm'⟩ := writes (by decide) (by decide)
  exact ⟨⟨pl011, shterm.mpr (by decide)⟩, ⟨consumed, honoured⟩, shterm'.mpr (by decide)⟩

/-- A host that delivers and takes all it is asked for. -/
def full : Host where
  read len := List.replicate len.toNat 0x41#8
  read_le len := by simp
  write bytes := bytes.length
  write_le bytes := le_rfl

/-- A read of 129 bytes is stored past the buffer, and a write that takes the only byte is answered with 0. -/
theorem shterm_dishonours :
    ¬ ReadHonoured 129#32 (full.handleRead (asks 129#32) readTag 0x3000#32).1 (full.handleRead (asks 129#32) readTag 0x3000#32).2 ∧
    full.write (stringAt (fun _ => 0x41#8) 0#32 1) = 1 ∧
    ¬ WriteHonoured 1 1 (full.handleWrite (asks (Item.simpleString 1#32)) (fun _ => 0x41#8) writeTag) := by
  refine ⟨fun honoured => ?_, by decide, fun honoured => ?_⟩
  · exact absurd honoured.fits (by decide +kernel)
  · exact absurd honoured.size (by decide)

end BradypOS.Terminal
