import BradypOS.Bsh.Startup
import BradypOS.Theory.Fuel
import Mathlib.Data.List.TakeWhile

/-!
# The greeting

What the shell shows before its first prompt is what the image of the file system has under two names. The calls of two servers
take turns, and each server has a buffer that it writes to: the image and the shell's strings lie outside of both.
-/

namespace BradypOS.Bsh

open L4 Theory
open Terminal (Link Session Pl011 expand)
open Romfs (Wire Mount Lists entryNamed SameHeader OpenFile HasOpen UsesOnly Room headerWord romfsRootDirectory romfsFileContentOffset)

/-! ### What is there -/

/-- No server writes to the address. -/
def Surroundings.Kept (p : Surroundings) (a : Word) : Prop := p.link.Elsewhere a ∧ p.wire.Elsewhere a

instance (p : Surroundings) (a : Word) : Decidable (p.Kept a) := inferInstanceAs (Decidable (_ ∧ _))

def Surroundings.id (p : Surroundings) : Word := Memory.senderOf p.link.client p.romfs

namespace System

def image (s : System) (offset : Word) : Byte := s.session.memory.byte (s.server.rootfsBase + offset)

def fileSize (s : System) (file : Word) : Word := headerWord s.image file 8

def fileAddr (s : System) (file : Word) : Word := s.server.rootfsBase + romfsFileContentOffset file

def contents (s : System) (file : Word) : List Byte := stringAt s.session.memory.byte (s.fileAddr file) (s.fileSize file).toNat

end System

/-- A directory whose headers are kept. -/
structure Listed (p : Surroundings) (s : System) (dir : Word) (entries : List Word) : Prop where
  lists : Lists s.image dir entries
  kept : ∀ e ∈ dir :: entries, ∀ i < 32, p.Kept (s.server.rootfsBase + (e + BitVec.ofNat 32 i))

/-- A name without a NUL that is kept. -/
structure Named (p : Surroundings) (s : System) (path pathlen : Word) (name : List Byte) : Prop where
  string : stringAt s.session.memory.byte path pathlen.toNat = name
  kept : ∀ i < pathlen.toNat, p.Kept (path + BitVec.ofNat 32 i)
  short : pathlen.toNat ≤ Vfs.pathMax
  noNul : 0#8 ∉ name

/-- A file whose content is kept; a file at the address 0 is not shown. -/
structure Showable (p : Surroundings) (s : System) (file : Word) : Prop where
  some_ : s.fileAddr file ≠ 0#32
  kept : ∀ i < (s.fileSize file).toNat, p.Kept (s.fileAddr file + BitVec.ofNat 32 i)

/-! ### The invariant -/

/-- What the shell has shown and what it has open, with the image and the strings of the beginning. -/
structure Shown (p : Surroundings) (s₀ : System) (text : List Byte) (files : Word → Option OpenFile) (own : List (Fin Romfs.fileStateCount))
    (s : System) : Prop where
  output : s.session.driver.output = s₀.session.driver.output ++ expand text
  receives : Pl011.ReceivesAlike s₀.session.driver s.session.driver
  base : s.server.rootfsBase = s₀.server.rootfsBase
  kept : ∀ a, p.Kept a → s.session.memory.byte a = s₀.session.memory.byte a
  isOpen : HasOpen s.server.fileStates p.id files
  uses : UsesOnly s₀.server.fileStates s.server.fileStates own

variable {p : Surroundings} {s₀ s : System} {text name : List Byte} {files : Word → Option OpenFile} {own : List (Fin Romfs.fileStateCount)}
  {fd newFd file path pathlen : Word} {f : OpenFile} {entries : List Word}

theorem sameHeader_of_kept {byte : Word → Byte} (kept : ∀ i < 32, p.Kept (s₀.server.rootfsBase + (file + BitVec.ofNat 32 i)))
    (same : ∀ a, p.Kept a → byte a = s₀.session.memory.byte a) : SameHeader s₀.image (fun offset => byte (s₀.server.rootfsBase + offset)) file :=
  fun i inside => same _ (kept i inside)

theorem romfsFileInfo_size {iface : Romfs.BlockIface} {image : Word → Byte} {info : Romfs.FileInfo} (reads : Romfs.ReadsImage iface image)
    (read : Romfs.romfsFileInfo iface file = some info) : info.size = headerWord image file 8 := by
  obtain ⟨data, mapped, bytes⟩ := reads file 32
  unfold Romfs.romfsFileInfo at read
  rw [mapped] at read
  have size : info.size = Romfs.readBigEndian fun i => data (8 + i) := congrArg Romfs.FileInfo.size (Option.some.inj read).symm
  exact size.trans (Romfs.readBigEndian_congr fun j less => bytes (8 + j) (by omega))

theorem pathStored_elsewhere (m : Memory) (path : Word) {a : Word} (short : pathlen.toNat ≤ Vfs.pathMax) (away : p.wire.Elsewhere a) :
    Romfs.Server.pathStored m p.filenameBuf path pathlen a = m.byte a := by
  have far : Vfs.pathMax < (a - p.filenameBuf).toNat := away
  have other : a ≠ p.filenameBuf + pathlen := by
    rintro rfl
    rw [BitVec.add_comm, BitVec.add_sub_cancel] at far
    omega
  rw [Romfs.Server.pathStored, Function.update_of_ne other]
  exact if_neg (Nat.not_lt.mpr (short.trans far.le))

namespace System

theorem ask_ok {α : Type} {f : (Utcb → Fallible (Utcb × Mount)) → Utcb → Fallible (α × Mount)} {a : α} {x : Mount}
    (called : f (s.mount.call p.wire (p.stack s)) s.utcb = .ok (a, x)) : s.ask p f = pure (a, s.afterCall p x) := by
  unfold ask
  rw [called]
  rfl

end System

namespace Shown

theorem afterCall (h : Shown p s₀ text files own s) {x : Mount} {files' : Word → Option OpenFile} {own' : List (Fin Romfs.fileStateCount)}
    (leaves : s.mount.Leaves p.wire x) (isOpen : HasOpen x.server.fileStates p.id files')
    (uses : UsesOnly s₀.server.fileStates x.server.fileStates own') : Shown p s₀ text files' own' (s.afterCall p x) where
  output := h.output
  receives := h.receives
  base := leaves.base.trans h.base
  kept a kept := (leaves.elsewhere a kept.2).trans (h.kept a kept)
  isOpen := isOpen
  uses := uses

theorem reads (h : Shown p s₀ text files own s) (byte : Word → Byte) :
    Romfs.ReadsImage (Romfs.Server.romfsOps byte s.server.rootfsBase) fun offset => byte (s₀.server.rootfsBase + offset) := by
  rw [h.base]
  exact Romfs.romfsOps_reads byte s₀.server.rootfsBase

theorem openRootFd (h : Shown p s₀ text files own s) (apart : p.link.client.utcb ≠ p.romfs.utcb) (closed : files fd = none)
    (room : Room s₀.server.fileStates p.id fd (own.length + 1)) :
    ∃ f own' s', s.ask p (fun ipc u => Vfs.openRootFd ipc u fd) = pure (true, s') ∧ f.fileOff = romfsRootDirectory ∧
      own'.length = own.length + 1 ∧ Shown p s₀ text (Function.update files fd (some f)) own' s' := by
  obtain ⟨info, read, -⟩ := Romfs.romfsFileInfo_reads (h.reads s.session.memory.byte) romfsRootDirectory
  obtain ⟨i, installed, has⟩ := h.isOpen.installFile closed (h.uses.vacant room (Nat.lt_succ_self _)) read
  obtain ⟨told, s', called, agrees⟩ := Romfs.Server.openRootFd_agrees s.server s.session.memory p.filenameBuf (p.stack s) p.romfs p.link.client
    s.utcb fd
  obtain ⟨m, asked, leaves⟩ := Mount.openRootFd_call (l := p.wire) (p.stack s) s.mount s.utcb apart called
  rw [Romfs.openRootFile, show Memory.senderOf p.link.client p.romfs = p.id from rfl, installed] at agrees
  cases agrees with
  | done table answered =>
    refine ⟨⟨i, romfsRootDirectory, info⟩, i :: own, _, System.ask_ok asked, rfl, rfl, h.afterCall leaves ?_ ?_⟩
    · rw [table]
      exact has
    · rw [table]
      exact h.uses.install _

theorem openAt (h : Shown p s₀ text files own s) (fd newFd : Word) (apart : p.link.client.utcb ≠ p.romfs.utcb) (isOpen : files fd = some f)
    (listed : Listed p s₀ f.fileOff entries) (found : entryNamed s₀.image name entries = some file) (named : Named p s₀ path pathlen name)
    (closed : files newFd = none) (room : Room s₀.server.fileStates p.id newFd (own.length + 1)) :
    ∃ g own' s', s.ask p (fun ipc u => Vfs.openAt ipc u fd newFd path pathlen) = pure (true, s') ∧ g.fileOff = file ∧
      g.fileInfo.size = s₀.fileSize file ∧ own' = g.place :: own ∧ Shown p s₀ text (Function.update files newFd (some g)) own' s' := by
  have same : ∀ a, p.Kept a → Romfs.Server.pathStored s.session.memory p.filenameBuf path pathlen a = s₀.session.memory.byte a :=
    fun a kept => (pathStored_elsewhere _ path named.short kept.2).trans (h.kept a kept)
  have headers : ∀ e ∈ f.fileOff :: entries, SameHeader s₀.image
      (fun offset => Romfs.Server.pathStored s.session.memory p.filenameBuf path pathlen (s₀.server.rootfsBase + offset)) e :=
    fun e member => sameHeader_of_kept (listed.kept e member) same
  have text_ : (stringAt s.session.memory.byte path pathlen.toNat).takeWhile (· ≠ 0#8) = name := by
    rw [stringAt_congr fun i inside => h.kept _ (named.kept i inside), named.string]
    apply List.takeWhile_eq_self_iff.mpr
    intro c member
    exact decide_eq_true fun nul => named.noNul (nul ▸ member)
  obtain ⟨i, info, read, outcome, has⟩ := h.isOpen.openFileAt (h.reads _) (p.stack s) isOpen (listed.lists.frame headers)
    ((Romfs.entryNamed_congr fun e member => headers e (List.mem_cons_of_mem _ member)).trans found) named.noNul closed
    (h.uses.vacant room (Nat.lt_succ_self _))
  have agree := (Romfs.Server.openAt_agrees s.server s.session.memory p.filenameBuf (p.stack s) p.romfs p.link.client s.utcb fd newFd path
    pathlen apart named.short).2
  rw [text_] at agree
  obtain ⟨told, s', called, agrees⟩ := agree _ outcome
  obtain ⟨m, asked, leaves⟩ := Mount.openAt_call (l := p.wire) (p.stack s) s.mount s.utcb apart named.short called
  have member : file ∈ f.fileOff :: entries := List.mem_cons_of_mem _ (List.mem_of_find?_eq_some found)
  cases agrees with
  | done table answered =>
    refine ⟨⟨i, file, info⟩, i :: own, _, System.ask_ok asked, rfl, ?_, rfl, h.afterCall leaves ?_ ?_⟩
    · exact (romfsFileInfo_size (h.reads _) read).trans ((headers file member).headerWord (by decide))
    · rw [table]
      exact has
    · rw [table]
      exact h.uses.install _

theorem stat (h : Shown p s₀ text files own s) (apart : p.link.client.utcb ≠ p.romfs.utcb) (isOpen : files fd = some f)
    (kept : ∀ i < 32, p.Kept (s₀.server.rootfsBase + (f.fileOff + BitVec.ofNat 32 i))) :
    ∃ stat s', s.ask p (fun ipc u => Vfs.stat ipc u fd) = pure (stat, s') ∧ stat.success = true ∧ stat.size = s₀.fileSize f.fileOff ∧
      Shown p s₀ text files own s' := by
  obtain ⟨found, off, -⟩ := Romfs.openFile_eq_some ((h.isOpen.files fd).trans isOpen)
  obtain ⟨info, read, -⟩ := Romfs.romfsFileInfo_reads (h.reads s.session.memory.byte) f.fileOff
  have size : info.size = s₀.fileSize f.fileOff :=
    (romfsFileInfo_size (h.reads _) read).trans ((sameHeader_of_kept kept h.kept).headerWord (by decide))
  have outcome : Romfs.statFile (Romfs.Server.romfsOps s.session.memory.byte s.server.rootfsBase) s.server.fileStates p.id fd =
      .ok (Romfs.Server.vfsType info.type, info.size) := by
    rw [Romfs.statFile, found]
    dsimp only
    rw [off, read]
  obtain ⟨result, s', called, agrees⟩ := Romfs.Server.stat_agrees s.server s.session.memory p.filenameBuf (p.stack s) p.romfs p.link.client
    s.utcb fd
  obtain ⟨m, asked, leaves⟩ := Mount.stat_call (l := p.wire) (p.stack s) s.mount s.utcb apart called
  rw [show Memory.senderOf p.link.client p.romfs = p.id from rfl, outcome] at agrees
  cases agrees with
  | done table answered =>
    refine ⟨_, _, System.ask_ok asked, rfl, size, h.afterCall leaves ?_ ?_⟩
    · rw [table]
      exact h.isOpen
    · rw [table]
      exact h.uses

theorem map (h : Shown p s₀ text files own s) (apart : p.link.client.utcb ≠ p.romfs.utcb) (isOpen : files fd = some f) :
    ∃ res s', s.ask p (fun ipc u => Vfs.map ipc u fd 0#32 f.fileInfo.size) = pure (res, s') ∧ res.addr = s₀.fileAddr f.fileOff ∧
      Shown p s₀ text files own s' := by
  obtain ⟨found, off, info⟩ := Romfs.openFile_eq_some ((h.isOpen.files fd).trans isOpen)
  have outcome : ∃ fpage, Romfs.mapFile s.server.fileStates p.id fd s.server.rootfsBase 0#32 f.fileInfo.size =
      .ok (s₀.fileAddr f.fileOff, fpage) := by
    rw [Romfs.mapFile, found]
    dsimp only
    rw [info, off, BitVec.zero_add, if_neg (BitVec.lt_irrefl _), h.base]
    exact ⟨_, rfl⟩
  obtain ⟨fpage, outcome⟩ := outcome
  obtain ⟨result, s', called, agrees⟩ := Romfs.Server.map_agrees s.server s.session.memory p.filenameBuf (p.stack s) p.romfs p.link.client
    s.utcb fd 0#32 f.fileInfo.size apart
  obtain ⟨m, asked, leaves⟩ := Mount.map_call (l := p.wire) (p.stack s) s.mount s.utcb apart called
  rw [show Memory.senderOf p.link.client p.romfs = p.id from rfl, outcome] at agrees
  cases agrees with
  | done table answered mapped same reply =>
    refine ⟨_, _, System.ask_ok asked, same, h.afterCall leaves ?_ ?_⟩
    · rw [table]
      exact h.isOpen
    · rw [table]
      exact h.uses

theorem close (h : Shown p s₀ text files own s) (fd : Word) (apart : p.link.client.utcb ≠ p.romfs.utcb) (isOpen : files fd = some f) :
    ∃ s', s.ask p (fun ipc u => Vfs.close ipc u fd) = pure (true, s') ∧
      Shown p s₀ text (Function.update files fd none) (own.filter (· ≠ f.place)) s' := by
  obtain ⟨states, closed, changed, has⟩ := h.isOpen.close isOpen
  obtain ⟨told, s', called, agrees⟩ := Romfs.Server.close_agrees s.server s.session.memory p.filenameBuf (p.stack s) p.romfs p.link.client s.utcb fd
  obtain ⟨m, asked, leaves⟩ := Mount.close_call (l := p.wire) (p.stack s) s.mount s.utcb apart called
  rw [show Memory.senderOf p.link.client p.romfs = p.id from rfl, closed] at agrees
  cases agrees with
  | done table answered =>
    refine ⟨_, System.ask_ok asked, h.afterCall leaves ?_ ?_⟩
    · rw [table]
      exact has
    · rw [table, changed]
      exact h.uses.close

theorem write (h : Shown p s₀ text files own s) (apart : p.link.client.utcb ≠ p.link.server.utcb) (drains : Drains s₀.session.driver.answers)
    {buf : Word} {size : Nat} (kept : ∀ i < size, p.Kept (buf + BitVec.ofNat 32 i)) :
    ∃ s', Settles (fun rounds => s.write p rounds buf size) s' ∧
      Shown p s₀ (text ++ stringAt s₀.session.memory.byte buf size) files own s' := by
  have clear : Clear p.link buf size := fun i inside => (kept i inside).1
  obtain ⟨n, session, utcb, ends, arrives⟩ := writePieces_arrives apart (writeBuffer buf size 0) (writeBuffer_clear clear 0) s.utcb
    (h.receives.answers.symm ▸ drains)
  have whole := (writeBuffer_pieces s.session.memory.byte buf size 0).1
  rw [Nat.sub_zero, BitVec.add_zero] at whole
  refine ⟨{ s with session, utcb }, ⟨n, fun rounds enough => ?_⟩, ?_, ?_, h.base, ?_, h.isOpen, h.uses⟩
  · change ExceptT.mk ((writePieces p.link rounds s.session s.utcb (writeBuffer buf size 0)).map _) = _
    rw [ends rounds enough]
    rfl
  · have same : stringAt s.session.memory.byte buf size = stringAt s₀.session.memory.byte buf size :=
      stringAt_congr fun i inside => h.kept _ (kept i inside)
    rw [arrives.output, h.output, List.append_assoc, ← Terminal.expand_append, ← same, ← whole]
  · exact ⟨arrives.receives.rxrb.trans h.receives.rxrb, arrives.receives.received.trans h.receives.received,
      arrives.receives.answers.trans h.receives.answers⟩
  · exact fun a kept => (arrives.elsewhere a kept.1).trans (h.kept a kept)

theorem showFile (h : Shown p s₀ text files own s) (fd : Word) (toDriver : p.link.client.utcb ≠ p.link.server.utcb)
    (toRomfs : p.link.client.utcb ≠ p.romfs.utcb) (drains : Drains s₀.session.driver.answers) (isOpen : files etcFd = some f)
    (listed : Listed p s₀ f.fileOff entries) (found : entryNamed s₀.image name entries = some file) (named : Named p s₀ path pathlen name)
    (closed : files fd = none) (room : Room s₀.server.fileStates p.id fd (own.length + 1)) (showable : Showable p s₀ file) :
    ∃ g s', Settles (fun rounds => s.showFile p rounds fd path pathlen) (true, s') ∧ g.fileOff = file ∧
      Shown p s₀ (text ++ s₀.contents file) (Function.update files fd (some g)) (g.place :: own) s' := by
  obtain ⟨g, own', s₁, opened, rfl, size, rfl, h₁⟩ := h.openAt etcFd fd toRomfs isOpen listed found named closed room
  have here : Function.update files fd (some g) fd = some g := Function.update_self _ _ _
  have member : g.fileOff ∈ f.fileOff :: entries := List.mem_cons_of_mem _ (List.mem_of_find?_eq_some found)
  obtain ⟨stat, s₂, asked, success, same, h₂⟩ := h₁.stat toRomfs here (listed.kept g.fileOff member)
  obtain ⟨res, s₃, mapped, addr, h₃⟩ := h₂.map toRomfs here
  obtain ⟨s₄, written, h₄⟩ := h₃.write toDriver drains showable.kept
  have last : Settles (fun rounds => s₃.write p rounds (s₀.fileAddr g.fileOff) (s₀.fileSize g.fileOff).toNat >>= fun s => pure (true, s))
      (true, s₄) := written.bind (.const rfl)
  refine ⟨g, s₄, last.congr fun rounds => ?_, rfl, h₄⟩
  unfold System.showFile
  rw [opened, pure_bind]
  dsimp only
  rw [if_neg (by decide), asked, pure_bind]
  dsimp only
  rw [if_neg (by rw [success]; decide), same, ← size, mapped, pure_bind]
  dsimp only
  rw [addr, if_neg showable.some_, size]

end Shown

/-! ### From the beginning -/

/-- `"etc"`, `"motd.txt"`, `"version"`. -/
def etcName : List Byte := [0x65#8, 0x74#8, 0x63#8]
def motdName : List Byte := [0x6D#8, 0x6F#8, 0x74#8, 0x64#8, 0x2E#8, 0x74#8, 0x78#8, 0x74#8]
def versionName : List Byte := [0x76#8, 0x65#8, 0x72#8, 0x73#8, 0x69#8, 0x6F#8, 0x6E#8]

def initSpace : List Byte := [0x0A#8, 0#8]

/-- The image has both files, and no server writes over the image or over the strings of the shell. -/
structure Greets (p : Surroundings) (s : System) (etc motd version : Word) : Prop where
  toDriver : p.link.client.utcb ≠ p.link.server.utcb
  toRomfs : p.link.client.utcb ≠ p.romfs.utcb
  root : ∃ entries, Listed p s romfsRootDirectory entries ∧ entryNamed s.image etcName entries = some etc
  directory : ∃ entries, Listed p s etc entries ∧ entryNamed s.image motdName entries = some motd ∧
    entryNamed s.image versionName entries = some version
  space : stringAt s.session.memory.byte p.initSpaceOut 2 = initSpace
  spaceKept : ∀ i < 2, p.Kept (p.initSpaceOut + BitVec.ofNat 32 i)
  etcPath : Named p s p.etcPath 3#32 etcName
  motdPath : Named p s p.motdPath 8#32 motdName
  versionPath : Named p s p.versionPath 7#32 versionName
  motd : Showable p s motd
  version : Showable p s version

/-- In the probe sequences there is room for the files that the shell has open at one time. -/
structure HasRoom (p : Surroundings) (s : System) : Prop where
  root : Room s.server.fileStates p.id rootFd 1
  etc : Room s.server.fileStates p.id etcFd 2
  motd : Room s.server.fileStates p.id motdFd 3
  version : Room s.server.fileStates p.id versionFd 3

/-- What the shell has open in front of its loop. -/
def keptOpen (version : Word) (fd : Word) : Option Word :=
  if fd = rootFd then some romfsRootDirectory else if fd = versionFd then some version else none

/-- A shell with nothing open comes to its loop if the transmit FIFO has room again and again. Then a newline with its terminator
and both files were sent, as the image has them, and nothing else, where the last line feed may still wait in the driver; the root
directory and the file with the version stay open. -/
theorem greeting_arrives {etc motd version : Word} (greets : Greets p s etc motd version) (isOpen : HasOpen s.server.fileStates p.id fun _ => none)
    (room : HasRoom p s) (drains : Drains s.session.driver.answers) :
    ∃ n s', (∀ rounds, n ≤ rounds → s.start p rounds = pure s') ∧
      s'.session.driver.output = s.session.driver.output ++ expand (initSpace ++ s.contents motd ++ s.contents version) ∧
      s'.session.driver.unread = s.session.driver.unread ∧
      ∃ files, HasOpen s'.server.fileStates p.id files ∧ ∀ fd, (files fd).map OpenFile.fileOff = keptOpen version fd := by
  have h₀ : Shown p s [] (fun _ => none) [] s :=
    ⟨(List.append_nil _).symm, ⟨rfl, rfl, rfl⟩, rfl, fun _ _ => rfl, isOpen, fun _ used => .inl used⟩
  obtain ⟨rootEntries, rootListed, etcFound⟩ := greets.root
  obtain ⟨etcEntries, etcListed, motdFound, versionFound⟩ := greets.directory
  obtain ⟨r, own₁, s₁, rooted, rootOff, length₁, h₁⟩ := h₀.openRootFd greets.toRomfs rfl room.root
  obtain ⟨s₂, spaced, h₂⟩ := h₁.write greets.toDriver drains greets.spaceKept
  rw [greets.space, List.nil_append] at h₂
  obtain ⟨e, own₃, s₃, entered, etcOff, -, rfl, h₃⟩ := h₂.openAt rootFd etcFd (f := r) greets.toRomfs rfl (rootOff.symm ▸ rootListed) etcFound
    greets.etcPath rfl (length₁.symm ▸ room.etc)
  obtain ⟨m, s₄, greeted, motdOff, h₄⟩ := h₃.showFile motdFd greets.toDriver greets.toRomfs drains (f := e) rfl (etcOff.symm ▸ etcListed) motdFound
    greets.motdPath rfl (by rw [List.length_cons, length₁]; exact room.motd) greets.motd
  obtain ⟨s₅, closed, h₅⟩ := h₄.close motdFd greets.toRomfs (f := m) rfl
  have length₅ : (List.filter (· ≠ m.place) (m.place :: e.place :: own₁)).length + 1 ≤ 3 := by
    rw [List.filter_cons_of_neg (by simp)]
    have shorter := List.length_filter_le (fun i => decide (i ≠ m.place)) (e.place :: own₁)
    rw [List.length_cons, length₁] at shorter
    exact Nat.succ_le_succ shorter
  obtain ⟨v, s₆, told, versionOff, h₆⟩ := h₅.showFile versionFd greets.toDriver greets.toRomfs drains (f := e) rfl (etcOff.symm ▸ etcListed) versionFound
    greets.versionPath rfl (length₅.trans room.version) greets.version
  obtain ⟨s₇, left, h₇⟩ := h₆.close etcFd greets.toRomfs (f := e) rfl
  have settles : Settles (fun rounds => s.start p rounds) s₇ := by
    unfold System.start System.startup
    rw [rooted]
    simp only [pure_bind]
    refine spaced.bind ?_
    simp only [entered, pure_bind, Bool.not_true, Bool.false_eq_true, if_false]
    refine greeted.bind ?_
    simp only [closed, pure_bind, Bool.not_true, Bool.false_eq_true, if_false]
    refine told.bind (.const ?_)
    simp only [left, pure_bind, Bool.not_true, Bool.false_eq_true, if_false]
  obtain ⟨n, settled⟩ := settles
  refine ⟨n, s₇, settled, h₇.output, ?_, _, h₇.isOpen, fun fd => ?_⟩
  · rw [Pl011.unread, Pl011.unread, h₇.receives.rxrb, h₇.receives.received]
  · unfold keptOpen
    by_cases root : fd = rootFd
    · subst root
      exact congrArg some rootOff
    by_cases last : fd = versionFd
    · subst last
      exact congrArg some versionOff
    · simp only [Function.update_apply, root, last, if_false]
      split
      · rfl
      · split <;> simp [*]

/-- The root directory has `etc`, which has a `motd.txt` of two bytes and a `version` of one. The strings of the shell are behind them. -/
def segments : List (Nat × List Byte) :=
  [(35, [1#8]), (39, [64#8]), (67, [1#8]), (71, [96#8]), (80, etcName), (99, [0x92#8]), (107, [2#8]), (112, motdName),
    (128, [0x68#8, 0x69#8]), (147, [2#8]), (155, [1#8]), (160, versionName), (176, [0x31#8]), (192, initSpace), (196, etcName),
    (200, motdName), (208, versionName)]

def segmentByte (a : Word) : Byte :=
  (segments.findSome? fun segment => if segment.1 ≤ a.toNat then segment.2[a.toNat - segment.1]? else none).getD 0#8

def aSystem : System :=
  ⟨⟨Pl011.stalled, { Romfs.Server.zeros with byte := segmentByte }⟩, Romfs.Server.empty, blankUtcb⟩

def someSurroundings : Surroundings where
  link := aLink
  romfs := Romfs.Server.thread 0x43#32 0x20000600#32 3
  filenameBuf := 0x20003000#32
  initSpaceOut := 192#32
  etcPath := 196#32
  motdPath := 200#32
  versionPath := 208#32
  stack _ _ := 0#8

theorem aSystem_root : Listed someSurroundings aSystem romfsRootDirectory [64#32] := by
  have ends : Romfs.nextOf aSystem.image 64#32 = Romfs.invalidFile := by decide +kernel
  refine ⟨⟨by decide +kernel, ⟨⟨by decide +kernel, ends⟩, by decide⟩, ?_⟩, ?_⟩
  · intro e member
    rw [List.mem_singleton.mp member]
    decide +kernel
  · intro e member
    rcases List.mem_pair.mp member with rfl | rfl <;> decide +kernel

theorem aSystem_etc : Listed someSurroundings aSystem 64#32 [96#32, 144#32] := by
  have ends : Romfs.nextOf aSystem.image 144#32 = Romfs.invalidFile := by decide +kernel
  refine ⟨⟨by decide +kernel, ⟨⟨by decide +kernel, by decide +kernel, ends⟩, by decide⟩, ?_⟩, ?_⟩
  · intro e member
    rcases List.mem_pair.mp member with rfl | rfl <;> decide +kernel
  · intro e member
    rcases List.mem_cons.mp member with rfl | member
    · decide +kernel
    · rcases List.mem_pair.mp member with rfl | rfl <;> decide +kernel

theorem aSystem_greets : Greets someSurroundings aSystem 64#32 96#32 144#32 where
  toDriver := by decide
  toRomfs := by decide
  root := ⟨_, aSystem_root, by decide +kernel⟩
  directory := ⟨_, aSystem_etc, by decide +kernel, by decide +kernel⟩
  space := by decide +kernel
  spaceKept := by decide +kernel
  etcPath := ⟨by decide +kernel, by decide +kernel, by decide, by decide⟩
  motdPath := ⟨by decide +kernel, by decide +kernel, by decide, by decide⟩
  versionPath := ⟨by decide +kernel, by decide +kernel, by decide, by decide⟩
  motd := ⟨by decide +kernel, by decide +kernel⟩
  version := ⟨by decide +kernel, by decide +kernel⟩

theorem greeting_arrives_hi :
    ∃ n s', (∀ rounds, n ≤ rounds → aSystem.start someSurroundings rounds = pure s') ∧
      s'.session.driver.output =
        aSystem.session.driver.output ++ expand (initSpace ++ aSystem.contents 96#32 ++ aSystem.contents 144#32) ∧
      s'.session.driver.unread = aSystem.session.driver.unread ∧
      ∃ files, HasOpen s'.server.fileStates someSurroundings.id files ∧ ∀ fd, (files fd).map OpenFile.fileOff = keptOpen 144#32 fd := by
  have room : HasRoom someSurroundings aSystem := ⟨by decide +kernel, by decide +kernel, by decide +kernel, by decide +kernel⟩
  have drains : Drains aSystem.session.driver.answers := by
    intro n
    refine ⟨n + 2, Nat.le_add_right n 2, ?_⟩
    show (n + 2 != 1) = true
    simp
  exact greeting_arrives aSystem_greets (.of_free fun _ => rfl) room drains

end BradypOS.Bsh
