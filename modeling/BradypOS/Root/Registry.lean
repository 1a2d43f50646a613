import BradypOS.Service.Message

/-!
# The service registry (`usr/root/service.c`)

Root keeps the threads of the services under names of four bytes. A registration is put behind the others, and
a lookup takes the first entry that has the name, so that a service that is started again is never found.
-/

namespace BradypOS.Root.Registry

open L4

/-! ### Labels and registers (`service.h`) -/

def servError : Word := 0#32
def servGetRet : Word := 1#32
def servRegisterRet : Word := 2#32

def servGetName : Nat := 1
def servRegisterName : Nat := 1
def servGetRetTid : Nat := 1

def maxServiceCount : Nat := 16

/-! ### The registry -/

structure ServiceDesc where
  thread : Word
  name : Word
  deriving DecidableEq

/-- The entries of `services` that are in use. -/
abbrev Services := List ServiceDesc

def makeServiceIpcError (u : Utcb) (err : Errno) : Utcb := u.makeIpcError servError err

/-- `L4_global_id_of`, which takes the id for the address of a UTCB. -/
def globalIdOf (utcbs : Word → Utcb) (tid : Word) : Word := (utcbs tid).globalId

namespace Services

def findServiceDesc (services : Services) (servName : Word) : Option ServiceDesc := services.find? fun desc => desc.name = servName

def getService (services : Services) (name : Word) : Word :=
  match services.findServiceDesc name with
  | some desc => desc.thread
  | none => nilThread

def registerService (services : Services) (tid name : Word) : Services :=
  if maxServiceCount ≤ services.length then services else services ++ [{ thread := tid, name }]

def handleServiceGet (services : Services) (u : Utcb) (tag : Word) : Utcb :=
  if MsgTag.u tag ≠ 1 ∨ MsgTag.t tag ≠ 0 then makeServiceIpcError u .einval
  else
    match services.findServiceDesc (u.mr servGetName) with
    | none => makeServiceIpcError u .enoent
    | some desc => (u.setMr 0 (MsgTag.mk 1 0 0#32 servGetRet)).setMr servGetRetTid desc.thread

def handleServiceRegister (services : Services) (utcbs : Word → Utcb) (u : Utcb) (tag sender : Word) : Services × Utcb :=
  if MsgTag.u tag ≠ 1 ∨ MsgTag.t tag ≠ 0 then (services, makeServiceIpcError u .einval)
  else if services.length = maxServiceCount then (services, makeServiceIpcError u .enomem)
  else
    let sender := if isLocalId sender then globalIdOf utcbs sender else sender
    (services ++ [{ name := u.mr servRegisterName, thread := sender }], u.setMr 0 (MsgTag.mk 0 0 0#32 servRegisterRet))

end Services

/-! ### Requests -/

/-- A thread that sends a message, and whether it is in root's address space. -/
structure Sender where
  globalId : Word
  localId : Word
  sameSpace : Bool

/-- The id that root gets with the message. -/
def Sender.delivered (sender : Sender) : Word := if sender.sameSpace then sender.localId else sender.globalId

/-- A call of `register_service`, or a message to root; `utcbs` is what is in memory when it comes. -/
inductive Request where
  | registerService (tid name : Word)
  | get (u : Utcb)
  | register (utcbs : Word → Utcb) (u : Utcb) (sender : Sender)

/-- The registry behind a request, and the answer to a message. -/
def serve (services : Services) : Request → Services × Option Utcb
  | .registerService tid name => (services.registerService tid name, none)
  | .get u => (services, some (services.handleServiceGet u (u.mr 0)))
  | .register utcbs u sender =>
    let served := services.handleServiceRegister utcbs u (u.mr 0) sender.delivered
    (served.1, some served.2)

/-! ### What is promised -/

/-- What the requests so far say about a name: it was never registered, the last registration was answered, or it was a call of
`register_service`, which nobody answers. -/
inductive Promise where
  | unknown
  | answered (thread : Word)
  | unanswered

/-- The registry, and what is promised about the names. -/
structure Ledger where
  services : Services
  promised : Word → Promise

namespace Ledger

def empty : Ledger := ⟨[], fun _ => .unknown⟩

def RegisterRet (answer : Utcb) : Prop := MsgTag.label (answer.mr 0) = servRegisterRet

instance : DecidablePred RegisterRet := fun _ => inferInstanceAs (Decidable (_ = _))

/-- The name that a request registers, if it goes through. -/
def registered (services : Services) : Request → Option (Word × Promise)
  | .registerService _ name => if services.length < maxServiceCount then some (name, .unanswered) else none
  | .get _ => none
  | .register utcbs u sender =>
    if RegisterRet (services.handleServiceRegister utcbs u (u.mr 0) sender.delivered).2 then
      some (u.mr servRegisterName, .answered sender.globalId)
    else none

def after (ledger : Ledger) (request : Request) : Ledger where
  services := (serve ledger.services request).1
  promised :=
    match registered ledger.services request with
    | some (name, promise) => Function.update ledger.promised name promise
    | none => ledger.promised

/-- The ledger behind a sequence of requests. -/
def behind (requests : List Request) : Ledger := requests.foldl after empty

end Ledger

/-- A request for the thread of a name. -/
structure Asks (u : Utcb) (name : Word) : Prop where
  words : MsgTag.u (u.mr 0) = 1
  items : MsgTag.t (u.mr 0) = 0
  name : u.mr servGetName = name

namespace Services

/-- Every request for the name is answered with the thread. -/
def Returns (services : Services) (name thread : Word) : Prop :=
  ∀ u, Asks u name → MsgTag.label ((services.handleServiceGet u (u.mr 0)).mr 0) = servGetRet ∧
    (services.handleServiceGet u (u.mr 0)).mr servGetRetTid = thread

/-- Every request for the name is answered with an error. -/
def Errs (services : Services) (name : Word) : Prop :=
  ∀ u, Asks u name → MsgTag.label ((services.handleServiceGet u (u.mr 0)).mr 0) = servError

def Keeps (services : Services) (name : Word) : Promise → Prop
  | .unknown => services.Errs name
  | .answered thread => services.Returns name thread
  | .unanswered => True

end Services

/-- What holds whenever a request of the sequence has been served. -/
structure Lawful (requests : List Request) : Prop where
  kept : ∀ seen, seen <+: requests → ∀ name, (Ledger.behind seen).services.Keeps name ((Ledger.behind seen).promised name)
  bounded : ∀ seen, seen <+: requests → (Ledger.behind seen).services.length ≤ maxServiceCount
  refused : ∀ seen request, seen ++ [request] <+: requests → Ledger.registered (Ledger.behind seen).services request = none →
    ∀ u, (Ledger.behind (seen ++ [request])).services.handleServiceGet u (u.mr 0) = (Ledger.behind seen).services.handleServiceGet u (u.mr 0)

/-- The checks of `handle_service_register`. -/
def Accepts (services : Services) (u : Utcb) : Prop := MsgTag.u (u.mr 0) = 1 ∧ MsgTag.t (u.mr 0) = 0 ∧ services.length ≠ maxServiceCount

def recorded (utcbs : Word → Utcb) (tid : Word) : Word := if isLocalId tid then globalIdOf utcbs tid else tid

/-- The name of a registration that is accepted has no entry, and the thread is recorded under its own id, or its first entry is of
the same thread. -/
def Sound (services : Services) : Request → Prop
  | .register utcbs u sender =>
    Accepts services u →
      match services.findServiceDesc (u.mr servRegisterName) with
      | none => recorded utcbs sender.delivered = sender.globalId
      | some desc => desc.thread = sender.globalId
  | _ => True

section
variable {services : Services} {utcbs : Word → Utcb} {u : Utcb} {sender : Sender} {name thread : Word} {desc : ServiceDesc}
  {request : Request} {ledger : Ledger} {promise : Promise}

theorem findServiceDesc_append (services : Services) (desc : ServiceDesc) (name : Word) : (services ++ [desc]).findServiceDesc name =
    (services.findServiceDesc name).or (if desc.name = name then some desc else none) := by
  unfold Services.findServiceDesc
  rw [List.find?_append, List.find?_singleton]
  simp

/-! ### Answers -/

theorem label_error (err : Errno) : MsgTag.label ((makeServiceIpcError u err).mr 0) = servError := by
  have tag : (makeServiceIpcError u err).mr 0 = MsgTag.mk 1 0 0#32 servError := rfl
  rw [tag]
  decide

theorem label_getRet (u : Utcb) (thread : Word) :
    MsgTag.label (((u.setMr 0 (MsgTag.mk 1 0 0#32 servGetRet)).setMr servGetRetTid thread).mr 0) = servGetRet := by
  have tag : ((u.setMr 0 (MsgTag.mk 1 0 0#32 servGetRet)).setMr servGetRetTid thread).mr 0 = MsgTag.mk 1 0 0#32 servGetRet := rfl
  rw [tag]
  decide

theorem label_registerRet (u : Utcb) : MsgTag.label ((u.setMr 0 (MsgTag.mk 0 0 0#32 servRegisterRet)).mr 0) = servRegisterRet := by
  have tag : (u.setMr 0 (MsgTag.mk 0 0 0#32 servRegisterRet)).mr 0 = MsgTag.mk 0 0 0#32 servRegisterRet := rfl
  rw [tag]
  decide

theorem tag_checked (words : MsgTag.u (u.mr 0) = 1) (items : MsgTag.t (u.mr 0) = 0) :
    ¬ (MsgTag.u (u.mr 0) ≠ 1 ∨ MsgTag.t (u.mr 0) ≠ 0) := by
  rintro (other | some_)
  · exact other words
  · exact some_ items

theorem handleServiceGet_missing (asks : Asks u name) (missing : services.findServiceDesc name = none) :
    services.handleServiceGet u (u.mr 0) = makeServiceIpcError u .enoent := by
  unfold Services.handleServiceGet
  rw [if_neg (tag_checked asks.words asks.items), asks.name, missing]

theorem handleServiceGet_found (asks : Asks u name) (found : services.findServiceDesc name = some desc) :
    services.handleServiceGet u (u.mr 0) = (u.setMr 0 (MsgTag.mk 1 0 0#32 servGetRet)).setMr servGetRetTid desc.thread := by
  unfold Services.handleServiceGet
  rw [if_neg (tag_checked asks.words asks.items), asks.name, found]

/-- A message with a name, as programs send it. -/
def naming (label name : Word) : Utcb := ⟨0#32, 0#32, 0#32, 0#32, 0#32, fun i => if i = 0 then MsgTag.mk 1 0 0#32 label else name⟩

def asking (name : Word) : Utcb := naming 0#32 name

theorem asking_asks (name : Word) : Asks (asking name) name := by
  have tag : (asking name).mr 0 = MsgTag.mk 1 0 0#32 0#32 := rfl
  refine ⟨?_, ?_, rfl⟩
  · rw [tag, MsgTag.u_mk]
  · rw [tag, MsgTag.t_mk]

theorem returns_iff : services.Returns name thread ↔ ∃ desc, services.findServiceDesc name = some desc ∧ desc.thread = thread := by
  constructor
  · intro returns
    obtain ⟨label, answer⟩ := returns (asking name) (asking_asks name)
    cases found : services.findServiceDesc name with
    | none =>
      rw [handleServiceGet_missing (asking_asks name) found, label_error] at label
      exact absurd label (by decide)
    | some desc =>
      rw [handleServiceGet_found (asking_asks name) found] at answer
      exact ⟨desc, rfl, answer⟩
  · rintro ⟨desc, found, rfl⟩ u asks
    rw [handleServiceGet_found asks found]
    exact ⟨label_getRet u desc.thread, rfl⟩

theorem errs_iff : services.Errs name ↔ services.findServiceDesc name = none := by
  constructor
  · intro errs
    have label := errs (asking name) (asking_asks name)
    cases found : services.findServiceDesc name with
    | none => rfl
    | some desc =>
      rw [handleServiceGet_found (asking_asks name) found, label_getRet] at label
      exact absurd label (by decide)
  · intro missing u asks
    rw [handleServiceGet_missing asks missing, label_error]

theorem getService_returns (returns : services.Returns name thread) : services.getService name = thread := by
  obtain ⟨desc, found, rfl⟩ := returns_iff.mp returns
  unfold Services.getService
  rw [found]

/-- What the answers about a name are depends on its first entry. -/
theorem keeps_congr {services' : Services} (same : services'.findServiceDesc name = services.findServiceDesc name) :
    services'.Keeps name promise ↔ services.Keeps name promise := by
  cases promise with
  | unknown =>
    show services'.Errs name ↔ services.Errs name
    rw [errs_iff, errs_iff, same]
  | answered thread =>
    show services'.Returns name thread ↔ services.Returns name thread
    rw [returns_iff, returns_iff, same]
  | unanswered => exact Iff.rfl

/-! ### Registrations -/

theorem handleServiceRegister_accepted (accepts : Accepts services u) (utcbs : Word → Utcb) (delivered : Word) :
    services.handleServiceRegister utcbs u (u.mr 0) delivered =
      (services ++ [{ name := u.mr servRegisterName, thread := recorded utcbs delivered }], u.setMr 0 (MsgTag.mk 0 0 0#32 servRegisterRet)) := by
  obtain ⟨words, items, room⟩ := accepts
  unfold Services.handleServiceRegister
  rw [if_neg (tag_checked words items), if_neg room]
  rfl

theorem handleServiceRegister_refused (refused : ¬ Accepts services u) (utcbs : Word → Utcb) (delivered : Word) :
    ∃ err, services.handleServiceRegister utcbs u (u.mr 0) delivered = (services, makeServiceIpcError u err) := by
  unfold Services.handleServiceRegister
  split
  · exact ⟨.einval, rfl⟩
  · rename_i tagged
    split
    · exact ⟨.enomem, rfl⟩
    · rename_i room
      exact absurd ⟨by tauto, by tauto, room⟩ refused

theorem registered_register : Ledger.registered services (.register utcbs u sender) = some (name, promise) ↔
    Accepts services u ∧ name = u.mr servRegisterName ∧ promise = .answered sender.globalId := by
  show (if Ledger.RegisterRet (services.handleServiceRegister utcbs u (u.mr 0) sender.delivered).2 then
    some (u.mr servRegisterName, Promise.answered sender.globalId) else none) = some (name, promise) ↔ _
  by_cases accepts : Accepts services u
  · have answer : Ledger.RegisterRet (services.handleServiceRegister utcbs u (u.mr 0) sender.delivered).2 := by
      rw [handleServiceRegister_accepted accepts]
      exact label_registerRet u
    rw [if_pos answer, Option.some.injEq, Prod.mk.injEq]
    simp [accepts, eq_comm]
  · have answer : ¬ Ledger.RegisterRet (services.handleServiceRegister utcbs u (u.mr 0) sender.delivered).2 := by
      obtain ⟨err, refused⟩ := handleServiceRegister_refused accepts utcbs sender.delivered
      rw [refused, Ledger.RegisterRet, label_error]
      decide
    rw [if_neg answer]
    simp [accepts]

/-- A request that registers nothing leaves the registry alone. -/
theorem serve_unregistered (none_ : Ledger.registered services request = none) : (serve services request).1 = services := by
  cases request with
  | registerService tid name =>
    unfold Ledger.registered at none_
    dsimp only at none_
    split at none_
    · cases none_
    · rename_i full
      exact if_pos (Nat.le_of_not_lt full)
  | get u => rfl
  | register utcbs u sender =>
    by_cases accepts : Accepts services u
    · rw [registered_register.mpr ⟨accepts, rfl, rfl⟩] at none_
      cases none_
    · obtain ⟨err, refused⟩ := handleServiceRegister_refused accepts utcbs sender.delivered
      show (services.handleServiceRegister utcbs u (u.mr 0) sender.delivered).1 = services
      rw [refused]

/-- One that does puts an entry with the name behind the others, in a registry that is not full. -/
theorem serve_registered (some_ : Ledger.registered services request = some (name, promise)) : services.length ≠ maxServiceCount ∧
    ∃ desc, desc.name = name ∧ (serve services request).1 = services ++ [desc] := by
  cases request with
  | registerService tid name' =>
    unfold Ledger.registered at some_
    dsimp only at some_
    split at some_
    · rename_i room
      cases some_
      exact ⟨Nat.ne_of_lt room, _, rfl, if_neg (Nat.not_le.mpr room)⟩
    · cases some_
  | get u => cases some_
  | register utcbs u sender =>
    obtain ⟨accepts, rfl, -⟩ := registered_register.mp some_
    refine ⟨accepts.2.2, { name := u.mr servRegisterName, thread := recorded utcbs sender.delivered }, rfl, ?_⟩
    show (services.handleServiceRegister utcbs u (u.mr 0) sender.delivered).1 = _
    rw [handleServiceRegister_accepted accepts]

/-! ### Sequences of requests -/

theorem behind_concat (seen : List Request) (request : Request) :
    Ledger.behind (seen ++ [request]) = (Ledger.behind seen).after request := by
  unfold Ledger.behind
  rw [List.foldl_append]
  rfl

theorem after_unregistered (none_ : Ledger.registered ledger.services request = none) : (ledger.after request).services = ledger.services ∧
    (ledger.after request).promised = ledger.promised := by
  refine ⟨serve_unregistered none_, ?_⟩
  unfold Ledger.after
  dsimp only
  rw [none_]

theorem after_registered (some_ : Ledger.registered ledger.services request = some (name, promise)) :
    (ledger.after request).promised = Function.update ledger.promised name promise := by
  unfold Ledger.after
  dsimp only
  rw [some_]

/-- The thread of a registration is found by its name in front, or in the new entry. -/
theorem returns_accepted_iff (accepts : Accepts services u) :
    (serve services (.register utcbs u sender)).1.Returns (u.mr servRegisterName) sender.globalId ↔
      Sound services (.register utcbs u sender) := by
  have served : (serve services (.register utcbs u sender)).1 =
      services ++ [{ name := u.mr servRegisterName, thread := recorded utcbs sender.delivered }] := by
    show (services.handleServiceRegister utcbs u (u.mr 0) sender.delivered).1 = _
    rw [handleServiceRegister_accepted accepts]
  rw [served, returns_iff, findServiceDesc_append, if_pos rfl]
  show _ ↔ (Accepts services u → _)
  rw [forall_prop_of_true accepts]
  cases services.findServiceDesc (u.mr servRegisterName) with
  | none => simp
  | some desc => simp

theorem keeps_after (kept : ∀ name, ledger.services.Keeps name (ledger.promised name)) (sound : Sound ledger.services request)
    (name : Word) : (ledger.after request).services.Keeps name ((ledger.after request).promised name) := by
  cases some_ : Ledger.registered ledger.services request with
  | none =>
    obtain ⟨services, promised⟩ := after_unregistered some_
    rw [services, promised]
    exact kept name
  | some p =>
    obtain ⟨here, promise⟩ := p
    rw [after_registered some_]
    by_cases same : name = here
    · subst same
      rw [Function.update_self]
      cases request with
      | registerService tid name' =>
        unfold Ledger.registered at some_
        dsimp only at some_
        split at some_
        · cases some_
          trivial
        · cases some_
      | get u => cases some_
      | register utcbs u sender =>
        obtain ⟨accepts, rfl, rfl⟩ := registered_register.mp some_
        exact (returns_accepted_iff accepts).mpr sound
    · obtain ⟨-, desc, named, served⟩ := serve_registered some_
      have first : (serve ledger.services request).1.findServiceDesc name = ledger.services.findServiceDesc name := by
        have other : desc.name ≠ name := fun equal => same (equal.symm.trans named)
        rw [served, findServiceDesc_append, if_neg other, Option.or_none]
      rw [Function.update_of_ne same]
      exact (keeps_congr first).mpr (kept name)

theorem sound_of_keeps_after (kept : ∀ name, (ledger.after request).services.Keeps name ((ledger.after request).promised name)) :
    Sound ledger.services request := by
  cases request with
  | registerService tid name => trivial
  | get u => trivial
  | register utcbs u sender =>
    by_cases accepts : Accepts ledger.services u
    · have promised := kept (u.mr servRegisterName)
      rw [after_registered (registered_register.mpr ⟨accepts, rfl, rfl⟩), Function.update_self] at promised
      exact (returns_accepted_iff accepts).mp promised
    · exact fun accepted => absurd accepted accepts

theorem length_le (seen : List Request) : (Ledger.behind seen).services.length ≤ maxServiceCount := by
  induction seen using List.reverseRecOn with
  | nil => exact Nat.zero_le _
  | append_singleton seen request ih =>
    rw [behind_concat]
    cases some_ : Ledger.registered (Ledger.behind seen).services request with
    | none =>
      rw [(after_unregistered some_).1]
      exact ih
    | some p =>
      obtain ⟨name, promise⟩ := p
      obtain ⟨room, desc, -, served⟩ := serve_registered some_
      show (serve (Ledger.behind seen).services request).1.length ≤ maxServiceCount
      rw [served, List.length_append, List.length_singleton]
      omega

theorem keeps_behind (seen : List Request)
    (sound : ∀ before request, before ++ [request] <+: seen → Sound (Ledger.behind before).services request) (name : Word) :
    (Ledger.behind seen).services.Keeps name ((Ledger.behind seen).promised name) := by
  induction seen using List.reverseRecOn generalizing name with
  | nil => exact errs_iff.mpr rfl
  | append_singleton seen request ih =>
    rw [behind_concat]
    apply keeps_after
    · exact ih fun before request' early => sound before request' (early.trans (List.prefix_append seen [request]))
    · exact sound seen request (List.prefix_refl _)

end

/-- In a sequence of requests every name is answered with the thread of its last registration if and only if each registration that is
accepted is the first one of its name, or by the same thread. -/
theorem registry_lawful_iff (requests : List Request) :
    Lawful requests ↔ ∀ seen request, seen ++ [request] <+: requests → Sound (Ledger.behind seen).services request := by
  constructor
  · intro lawful seen request early
    apply sound_of_keeps_after
    rw [← behind_concat]
    exact lawful.kept _ early
  · intro sound
    refine ⟨fun seen early => ?_, fun seen _ => length_le seen, fun seen request _ none_ u => ?_⟩
    · exact keeps_behind seen fun before request now => sound before request (now.trans early)
    · rw [behind_concat, (after_unregistered none_).1]

/-- The terminal server is started, and started again by another thread: who asks for it gets the first one. -/
def restarted : List Request :=
  let server := fun id => Request.register (fun _ => asking 0#32) (naming 1#32 0x6D726574#32) ⟨id, 0#32, false⟩
  [server 0x108001#32, server 0x10C001#32]

theorem restarted_unlawful : ¬ Lawful restarted ∧
    (Ledger.behind restarted).services.map ServiceDesc.thread = [0x108001#32, 0x10C001#32] ∧
    (Ledger.behind restarted).services.getService 0x6D726574#32 = 0x108001#32 := by
  refine ⟨fun lawful => ?_, by decide, by decide⟩
  have promised : (Ledger.behind restarted).promised 0x6D726574#32 = .answered 0x10C001#32 := by rfl
  have kept := lawful.kept restarted (List.prefix_refl _) 0x6D726574#32
  rw [promised] at kept
  exact absurd (getService_returns kept) (by decide)

end BradypOS.Root.Registry
