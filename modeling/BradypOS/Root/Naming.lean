import BradypOS.Romfs.EndToEnd
import BradypOS.Root.Registry
import BradypOS.Theory.Transition

/-!
# Names and their threads

A service registers its name with root until root has taken it, and a client asks root for a name until there is a thread. Their
calls come in any order, and each goes through the kernel to root and back.
-/

namespace BradypOS.Root.Naming

open L4 Registry
open Theory (Run)
open Romfs.Server (ipcError)

def servGet : Word := 0#32
def servRegister : Word := 1#32

/-! ### The programs -/

section Programs

-- `L4_ipc` takes the message registers and gives them back with the answer
variable {σ : Type} (ipc : Utcb → Fallible (Utcb × σ)) (u : Utcb) (name : Word)

/-- `usr/bsh/bsh.c`; `name` has the four bytes of `svc`. -/
def fetchService : Fallible (Word × σ) := do
  let (u, world) ← ipc ((u.setMr 0 (MsgTag.mk 1 0 0#32 servGet)).setMr servGetName name)
  let tag := u.mr 0
  if ipcFailed tag || MsgTag.label tag != servGetRet || MsgTag.u tag != 1 || MsgTag.t tag != 0 then .ok (nilThread, world)
  else .ok (u.mr servGetRetTid, world)

/-- The loop of `register_service` in `usr/pl011/pl011.c`, once; `true` where it ends. -/
def registerServiceRound : Fallible (Bool × σ) := do
  let (u, world) ← ipc ((u.setMr 0 (MsgTag.mk 1 0 0#32 servRegister)).setMr servRegisterName name)
  let tag := u.mr 0
  .ok (!ipcFailed tag && MsgTag.u tag == 0 && MsgTag.t tag == 0 && MsgTag.label tag == servRegisterRet, world)

end Programs

/-! ### Root -/

/-- A round of root's loop, for the messages that are not about memory. -/
def dispatch (services : Services) (m : Memory) (root : Tcb) : Services × Utcb :=
  let u := m.utcb root.utcb
  let tag := u.mr 0
  if MsgTag.label tag = servGet then (services, services.handleServiceGet u tag)
  else if MsgTag.label tag = servRegister then services.handleServiceRegister m.utcb u tag (m.frame root.ctx.sp).r0
  else (services, makeServiceIpcError u .einval)

/-- Root's answer on its way to the client. -/
def answerTo (served : Services × Utcb) (m : Memory) (root client : Tcb) : Fallible (Utcb × Services) := do
  let (err, m) ← (m.setUtcb root.utcb fun _ => served.2).copyPayload root client
  .ok (if err ≠ .none then ipcError m client else m.utcb client.utcb, served.1)

/-- `L4_ipc` of a program with the registers `u`, while root waits for a message. -/
def exchange (services : Services) (m : Memory) (root client : Tcb) (u : Utcb) : Fallible (Utcb × Services) := do
  let (err, m) ← (m.setUtcb client.utcb fun _ => u).copyPayload client root
  if err ≠ .none then .ok (ipcError m client, services)
  else answerTo (dispatch services m root) m root client

/-! ### A call -/

section Call
variable {services : Services} {m : Memory} {root client : Tcb} {u : Utcb} {name label : Word}

/-- What root has of a message with a name. -/
structure Delivered (root client : Tcb) (label name : Word) (m : Memory) : Prop where
  tag : (m.utcb root.utcb).mr 0 = MsgTag.mk 1 0 0#32 label
  name : (m.utcb root.utcb).mr 1 = name
  sender : (m.frame root.ctx.sp).r0 = Memory.senderOf client root

theorem exchange_delivered (services : Services) (m : Memory) (root : Tcb) (tag : u.mr 0 = MsgTag.mk 1 0 0#32 label) (named : u.mr 1 = name) :
    ∃ m', exchange services m root client u = answerTo (dispatch services m' root) m' root client ∧ Delivered root client label name m' := by
  have composed : (m.setUtcb client.utcb fun _ => u).utcb client.utcb = u := Function.update_self _ _ _
  rw [← composed] at tag named
  obtain ⟨m', copied, arrived, -⟩ := Memory.copyPayload_words root tag (by decide : 1 ≤ mrCount)
  refine ⟨m', ?_, arrived.tag, (arrived.words 1 (le_refl 1) (le_refl 1)).trans named, arrived.sender⟩
  unfold exchange
  rw [copied]
  rfl

theorem answerTo_words {served : Services × Utcb} {n : Nat} (tag : served.2.mr 0 = MsgTag.mk n 0 0#32 label) (fits : n ≤ mrCount) :
    ∃ u', answerTo served m root client = .ok (u', served.1) ∧ u'.mr 0 = MsgTag.mk n 0 0#32 label ∧
      ∀ i, 1 ≤ i → i ≤ n → u'.mr i = served.2.mr i := by
  have composed : (m.setUtcb root.utcb fun _ => served.2).utcb root.utcb = served.2 := Function.update_self _ _ _
  rw [← composed] at tag
  obtain ⟨m', copied, arrived, -⟩ := Memory.copyPayload_words client tag fits
  refine ⟨m'.utcb client.utcb, ?_, arrived.tag, fun i first last => ?_⟩
  · unfold answerTo
    rw [copied]
    rfl
  · rw [arrived.words i first last, composed]

theorem Delivered.checked (d : Delivered root client label name m) :
    MsgTag.u ((m.utcb root.utcb).mr 0) = 1 ∧ MsgTag.t ((m.utcb root.utcb).mr 0) = 0 := by
  rw [d.tag, MsgTag.u_mk, MsgTag.t_mk]
  exact ⟨rfl, rfl⟩

theorem Delivered.labelled (d : Delivered root client label name m) : MsgTag.label ((m.utcb root.utcb).mr 0) = label &&& 0xFFFF#32 := by
  rw [d.tag, MsgTag.label_mk]

theorem fetchService_exchange (services : Services) (m : Memory) (root client : Tcb) (u : Utcb) (name : Word) :
    fetchService (exchange services m root client) u name = .ok (services.getService name, services) := by
  obtain ⟨m', called, d⟩ := @exchange_delivered client ((u.setMr 0 (MsgTag.mk 1 0 0#32 servGet)).setMr servGetName name) name servGet
    services m root rfl rfl
  have asks : Asks (m'.utcb root.utcb) name := ⟨d.checked.1, d.checked.2, d.name⟩
  have served : dispatch services m' root = (services, services.handleServiceGet (m'.utcb root.utcb) ((m'.utcb root.utcb).mr 0)) := by
    unfold dispatch
    exact if_pos (d.labelled.trans (by decide))
  unfold fetchService Services.getService
  rw [called, served]
  cases found : services.findServiceDesc name with
  | none =>
    rw [handleServiceGet_missing asks found]
    obtain ⟨u', answered, tag, -⟩ := @answerTo_words m' root client servError
      (services, makeServiceIpcError (m'.utcb root.utcb) .enoent) 1 rfl (by decide)
    rw [answered]
    simp only [bind, Except.bind]
    rw [tag, MsgTag.label_mk, if_pos (by simp; decide)]
  | some desc =>
    rw [handleServiceGet_found asks found]
    obtain ⟨u', answered, tag, words⟩ := @answerTo_words m' root client servGetRet
      (services, ((m'.utcb root.utcb).setMr 0 (MsgTag.mk 1 0 0#32 servGetRet)).setMr servGetRetTid desc.thread) 1 rfl (by decide)
    have tid : u'.mr servGetRetTid = desc.thread := words 1 (le_refl 1) (le_refl 1)
    rw [answered]
    simp only [bind, Except.bind]
    rw [tag, tid, not_ipcFailed_mk, MsgTag.label_mk, MsgTag.u_mk, MsgTag.t_mk]
    rfl

theorem registerServiceRound_exchange (services : Services) (m : Memory) (u : Utcb) (name : Word)
    (space : root.addressSpace ≠ client.addressSpace) (global : isLocalId client.globalId = false) :
    registerServiceRound (exchange services m root client) u name =
      .ok (if services.length = maxServiceCount then (false, services) else (true, services ++ [⟨client.globalId, name⟩])) := by
  obtain ⟨m', called, d⟩ := @exchange_delivered client ((u.setMr 0 (MsgTag.mk 1 0 0#32 servRegister)).setMr servRegisterName name) name
    servRegister services m root rfl rfl
  have sender : (m'.frame root.ctx.sp).r0 = client.globalId := d.sender.trans (if_neg space)
  have served : dispatch services m' root =
      services.handleServiceRegister m'.utcb (m'.utcb root.utcb) ((m'.utcb root.utcb).mr 0) client.globalId := by
    unfold dispatch
    dsimp only
    rw [sender, d.labelled]
    rfl
  unfold registerServiceRound
  rw [called, served]
  by_cases full : services.length = maxServiceCount
  · have refused : services.handleServiceRegister m'.utcb (m'.utcb root.utcb) ((m'.utcb root.utcb).mr 0) client.globalId =
        (services, makeServiceIpcError (m'.utcb root.utcb) .enomem) := by
      unfold Services.handleServiceRegister
      rw [if_neg (tag_checked d.checked.1 d.checked.2), if_pos full]
    rw [if_pos full, refused]
    obtain ⟨u', answered, tag, -⟩ := @answerTo_words m' root client servError
      (services, makeServiceIpcError (m'.utcb root.utcb) .enomem) 1 rfl (by decide)
    rw [answered]
    change Except.ok (!ipcFailed (u'.mr 0) && MsgTag.u (u'.mr 0) == 0 && _ && _, services) = _
    rw [tag, not_ipcFailed_mk, MsgTag.u_mk]
    rfl
  · have entry : recorded m'.utcb client.globalId = client.globalId := by
      unfold recorded
      rw [global]
      rfl
    rw [if_neg full, handleServiceRegister_accepted ⟨d.checked.1, d.checked.2, full⟩, entry,
      show (m'.utcb root.utcb).mr servRegisterName = name from d.name]
    obtain ⟨u', answered, tag, -⟩ := @answerTo_words m' root client servRegisterRet
      (services ++ [⟨client.globalId, name⟩], (m'.utcb root.utcb).setMr 0 (MsgTag.mk 0 0 0#32 servRegisterRet)) 0 rfl (by decide)
    rw [answered]
    change Except.ok (!ipcFailed (u'.mr 0) && _ && _ && _, services ++ [⟨client.globalId, name⟩]) = _
    rw [tag, not_ipcFailed_mk, MsgTag.u_mk, MsgTag.t_mk, MsgTag.label_mk]
    rfl

end Call

/-! ### Any order -/

inductive Program where
  /-- The loop of `register_service`. -/
  | registers (name : Word)
  /-- `wait_for_service`. -/
  | waits (name : Word)

def Program.name : Program → Word
  | .registers name | .waits name => name

inductive Progress where
  | trying | registered
  | found (tid : Word)
  deriving DecidableEq

/-- Root, and threads that run such programs. -/
structure System (ι : Type) where
  root : Tcb
  thread : ι → Tcb
  program : ι → Program

structure World (ι : Type) where
  services : Services
  progress : ι → Progress

namespace System

variable {ι : Type} [DecidableEq ι] {sys : System ι} {w₀ w w' : World ι} {i : ι} {as : List (ι × Memory)} {order : List ι}

/-- A round of the thread's loop, with whatever is in memory when it comes. -/
def round (sys : System ι) (w : World ι) (i : ι) (m : Memory) : Fallible (World ι) :=
  let call := exchange w.services m sys.root (sys.thread i)
  let u := m.utcb (sys.thread i).utcb
  match w.progress i, sys.program i with
  | .trying, .registers name => do
    let (ends, services) ← registerServiceRound call u name
    .ok ⟨services, if ends then Function.update w.progress i .registered else w.progress⟩
  | .trying, .waits name => do
    let (tid, services) ← fetchService call u name
    .ok ⟨services, if isNilThread tid then w.progress else Function.update w.progress i (.found tid)⟩
  | _, _ => .ok w

def Step (sys : System ι) (w : World ι) (a : ι × Memory) (w' : World ι) : Prop := sys.round w a.1 a.2 = .ok w'

/-- Root is alone in its address space, and no id of a thread could be the address of a UTCB. -/
structure Placed (sys : System ι) : Prop where
  space : ∀ i, sys.root.addressSpace ≠ (sys.thread i).addressSpace
  global : ∀ i, isLocalId (sys.thread i).globalId = false

def entry (sys : System ι) (i : ι) : ServiceDesc := ⟨(sys.thread i).globalId, (sys.program i).name⟩

/-- What a round can do. -/
inductive Moves (sys : System ι) (w : World ι) (i : ι) : World ι → Prop where
  | rests (done : w.progress i ≠ .trying) : Moves sys w i w
  | refused {name : Word} (program : sys.program i = .registers name) (full : w.services.length = maxServiceCount) : Moves sys w i w
  | registers {name : Word} (program : sys.program i = .registers name) (trying : w.progress i = .trying) (room : w.services.length ≠ maxServiceCount) :
      Moves sys w i ⟨w.services ++ [sys.entry i], Function.update w.progress i .registered⟩
  | misses {name : Word} (program : sys.program i = .waits name) (missing : w.services.getService name = nilThread) : Moves sys w i w
  | finds {name : Word} (program : sys.program i = .waits name) (trying : w.progress i = .trying) (found : w.services.getService name ≠ nilThread) :
      Moves sys w i ⟨w.services, Function.update w.progress i (.found (w.services.getService name))⟩

theorem round_moves (placed : sys.Placed) (w : World ι) (i : ι) (m : Memory) : ∃ w', sys.round w i m = .ok w' ∧ sys.Moves w i w' := by
  unfold round
  by_cases trying : w.progress i = .trying
  · rw [trying]
    cases program : sys.program i with
    | registers name =>
      dsimp only
      rw [registerServiceRound_exchange _ _ _ _ (placed.space i) (placed.global i)]
      by_cases full : w.services.length = maxServiceCount
      · rw [if_pos full]
        exact ⟨w, rfl, .refused program full⟩
      · rw [if_neg full]
        have same : sys.entry i = ⟨(sys.thread i).globalId, name⟩ := by rw [entry, program, Program.name]
        refine ⟨_, rfl, ?_⟩
        rw [← same]
        exact .registers program trying full
    | waits name =>
      dsimp only
      rw [fetchService_exchange]
      by_cases missing : w.services.getService name = nilThread
      · refine ⟨w, ?_, .misses program missing⟩
        change Except.ok _ = _
        rw [if_pos (isNilThread_iff.mpr missing)]
      · refine ⟨_, ?_, .finds program trying missing⟩
        change Except.ok _ = _
        rw [if_neg (mt isNilThread_iff.mp missing)]
  · refine ⟨w, ?_, .rests trying⟩
    split <;> first | rfl | contradiction

theorem moves_of_step (placed : sys.Placed) {a : ι × Memory} (step : sys.Step w a w') : sys.Moves w a.1 w' := by
  obtain ⟨w₁, stepped, moves⟩ := round_moves placed w a.1 a.2
  cases step.symm.trans stepped
  exact moves

/-! ### What a round leaves -/

theorem getService_append {services : Services} {name : Word} (desc : ServiceDesc) (found : services.getService name ≠ nilThread) :
    Services.getService (services ++ [desc]) name = services.getService name := by
  unfold Services.getService at found ⊢
  rw [findServiceDesc_append]
  cases first : services.findServiceDesc name with
  | none =>
    rw [first] at found
    exact absurd rfl found
  | some _ => rfl

/-- The entries behind the first ones are those of the registered threads, one each, and what was found is what root has. -/
structure Kept (sys : System ι) (w₀ w : World ι) (order : List ι) : Prop where
  nodup : order.Nodup
  registered : ∀ i, i ∈ order ↔ w.progress i = .registered
  services : w.services = w₀.services ++ order.map sys.entry
  bounded : w.services.length ≤ maxServiceCount
  found : ∀ i name tid, sys.program i = .waits name → w.progress i = .found tid → w.services.getService name = tid ∧ tid ≠ nilThread
  waits : ∀ i name, sys.program i = .waits name → w.progress i ≠ .registered
  registers : ∀ i name tid, sys.program i = .registers name → w.progress i ≠ .found tid

omit [DecidableEq ι] in
theorem registers_ne_waits {j : ι} {name name' : Word} (registers : sys.program i = .registers name) (waits : sys.program j = .waits name') :
    i ≠ j := by
  rintro rfl
  cases registers.symm.trans waits

theorem Kept.register {name : Word} (h : sys.Kept w₀ w order) (program : sys.program i = .registers name) (trying : w.progress i = .trying)
    (room : w.services.length ≠ maxServiceCount) :
    sys.Kept w₀ ⟨w.services ++ [sys.entry i], Function.update w.progress i .registered⟩ (order ++ [i]) := by
  have fresh : i ∉ order := by
    rw [h.registered, trying]
    nofun
  refine ⟨?_, fun j => ?_, ?_, ?_, fun j name tid waits found => ?_, fun j name waits => ?_, fun j name tid registers => ?_⟩
  · rw [← List.concat_eq_append]
    exact h.nodup.concat fresh
  · rw [List.mem_append, List.mem_singleton, h.registered]
    dsimp only
    rw [Function.update_apply]
    by_cases same : j = i <;> simp [same]
  · rw [h.services, List.append_assoc, List.map_append]
    rfl
  · rw [List.length_append, List.length_singleton]
    exact Nat.lt_of_le_of_ne h.bounded room
  · dsimp only at found ⊢
    rw [Function.update_of_ne (registers_ne_waits program waits).symm] at found
    obtain ⟨here, live⟩ := h.found j name tid waits found
    exact ⟨(getService_append _ (here.symm ▸ live)).trans here, live⟩
  · dsimp only
    rw [Function.update_of_ne (registers_ne_waits program waits).symm]
    exact h.waits j name waits
  · dsimp only
    rw [Function.update_apply]
    split
    · nofun
    · exact h.registers j name tid registers

theorem Kept.find {name : Word} (h : sys.Kept w₀ w order) (program : sys.program i = .waits name) (trying : w.progress i = .trying)
    (found : w.services.getService name ≠ nilThread) :
    sys.Kept w₀ ⟨w.services, Function.update w.progress i (.found (w.services.getService name))⟩ order := by
  refine ⟨h.nodup, fun j => ?_, h.services, h.bounded, fun j name tid waits here => ?_, fun j name waits => ?_, fun j name tid registers => ?_⟩
  · rw [h.registered]
    dsimp only
    rw [Function.update_apply]
    split
    · rename_i same
      rw [same, trying]
      simp
    · rfl
  · dsimp only at here ⊢
    rw [Function.update_apply] at here
    split at here
    · rename_i same
      subst same
      cases program.symm.trans waits
      cases here
      exact ⟨rfl, found⟩
    · exact h.found j name tid waits here
  · dsimp only
    rw [Function.update_apply]
    split
    · simp
    · exact h.waits j name waits
  · dsimp only
    rw [Function.update_of_ne (registers_ne_waits registers program)]
    exact h.registers j name tid registers

theorem Moves.kept (h : sys.Kept w₀ w order) (moves : sys.Moves w i w') : ∃ order', sys.Kept w₀ w' order' := by
  cases moves with
  | rests _ | refused _ _ | misses _ _ => exact ⟨order, h⟩
  | registers program trying room => exact ⟨order ++ [i], h.register program trying room⟩
  | finds program trying found => exact ⟨order, h.find program trying found⟩

/-- What no round takes back. -/
structure Later (w w' : World ι) : Prop where
  stays : ∀ i, w.progress i ≠ .trying → w'.progress i = w.progress i
  found : ∀ name, w.services.getService name ≠ nilThread → w'.services.getService name = w.services.getService name
  grows : w.services.length ≤ w'.services.length
  full : w.services.length = maxServiceCount → w'.services = w.services ∧ ∀ i, w'.progress i = .registered → w.progress i = .registered

omit [DecidableEq ι] in
theorem Later.refl (w : World ι) : Later w w := ⟨fun _ _ => rfl, fun _ _ => rfl, le_refl _, fun _ => ⟨rfl, fun _ => id⟩⟩

omit [DecidableEq ι] in
theorem Later.trans {w w' w'' : World ι} (first : Later w w') (second : Later w' w'') : Later w w'' where
  stays i done := (second.stays i (by rw [first.stays i done]; exact done)).trans (first.stays i done)
  found name live := (second.found name (by rw [first.found name live]; exact live)).trans (first.found name live)
  grows := first.grows.trans second.grows
  full reached := by
    obtain ⟨same, before⟩ := first.full reached
    obtain ⟨same', before'⟩ := second.full (by rw [same]; exact reached)
    exact ⟨same'.trans same, fun i registered => before i (before' i registered)⟩

theorem Moves.later (moves : sys.Moves w i w') : Later w w' := by
  cases moves with
  | rests _ | refused _ _ | misses _ _ => exact Later.refl w
  | registers program trying room =>
    refine ⟨fun j done => ?_, fun name live => getService_append _ live, ?_, fun full => absurd full room⟩
    · have other : j ≠ i := by
        rintro rfl
        exact done trying
      exact Function.update_of_ne other _ _
    · rw [List.length_append]
      exact Nat.le_add_right _ _
  | finds program trying found =>
    refine ⟨fun j done => ?_, fun _ _ => rfl, le_refl _, fun _ => ⟨rfl, fun j registered => ?_⟩⟩
    · have other : j ≠ i := by
        rintro rfl
        exact done trying
      exact Function.update_of_ne other _ _
    · dsimp only at registered
      rw [Function.update_apply] at registered
      split at registered
      · cases registered
      · exact registered

/-! ### Runs -/

theorem later_of_run (placed : sys.Placed) (run : Run sys.Step w as w') : Later w w' :=
  run.relates Later.refl (fun _ _ _ => Later.trans) fun _ _ _ step => (moves_of_step placed step).later

theorem kept_of_run (placed : sys.Placed) (run : Run sys.Step w as w') (h : ∃ order, sys.Kept w₀ w order) : ∃ order, sys.Kept w₀ w' order :=
  run.invariant (I := fun w => ∃ order, sys.Kept w₀ w order) (fun _ _ _ step ⟨_, h⟩ => (moves_of_step placed step).kept h) h

theorem Moves.found {name : Word} (h : sys.Kept w₀ w order) (waits : sys.program i = .waits name)
    (live : w.services.getService name ≠ nilThread) (moves : sys.Moves w i w') : w'.progress i = .found (w.services.getService name) := by
  cases moves with
  | rests done =>
    cases progress : w.progress i with
    | trying => exact absurd progress done
    | registered => exact absurd progress (h.waits i name waits)
    | found tid => rw [(h.found i name tid waits progress).1]
  | refused program _ | registers program _ _ => cases program.symm.trans waits
  | misses program missing =>
    cases program.symm.trans waits
    exact absurd missing live
  | finds program _ _ =>
    cases program.symm.trans waits
    exact Function.update_self _ _ _

theorem Moves.registered {name : Word} (h : sys.Kept w₀ w order) (registers : sys.program i = .registers name)
    (room : w.services.length < maxServiceCount) (moves : sys.Moves w i w') : w'.progress i = .registered := by
  cases moves with
  | rests done =>
    cases progress : w.progress i with
    | trying => exact absurd progress done
    | registered => rfl
    | found tid => exact absurd progress (h.registers i name tid registers)
  | refused _ full => exact absurd full (Nat.ne_of_lt room)
  | registers _ _ _ => exact Function.update_self _ _ _
  | misses program _ | finds program _ _ => cases program.symm.trans registers

/-- What a round of `i` brings, if what it needs holds from there on, holds at the end of every run in which `i` has a round. -/
theorem served_of_run (placed : sys.Placed) {P : World ι → Prop} {p : Progress} (settled : p ≠ .trying)
    (brings : ∀ w w' order, sys.Kept w₀ w order → P w → sys.Moves w i w' → w'.progress i = p) (run : Run sys.Step w as w')
    (needs : ∀ w₁ bs cs, Run sys.Step w bs w₁ → Run sys.Step w₁ cs w' → P w₁) (h : ∃ order, sys.Kept w₀ w order)
    (served : i ∈ as.map Prod.fst) : w'.progress i = p := by
  induction run with
  | nil => cases served
  | @cons w w₁ w' a as step rest ih =>
    have moves := moves_of_step placed step
    obtain ⟨order, kept⟩ := h
    rw [List.map_cons, List.mem_cons] at served
    rcases served with rfl | later
    · have here := brings w w₁ order kept (needs w [] _ (.nil w) (.cons step rest)) moves
      rw [(later_of_run placed rest).stays _ (by rw [here]; exact settled), here]
    · exact ih (fun w₂ bs cs before after => needs w₂ (a :: bs) cs (.cons step before) after) (moves.kept kept) later

/-- In any order of their rounds, the threads that register and the threads that wait agree. A registered thread has one entry, and who
waits for a name finds the thread of the first entry with it, as soon as there is one, and no other thread later. A thread that has had
a round is registered if there is room, and where there is none no more threads are. -/
theorem names_agree (placed : sys.Placed) (start : ∀ i, w₀.progress i = .trying) (room : w₀.services.length ≤ maxServiceCount)
    (run : Run sys.Step w₀ as w) :
    (∃ order : List ι, order.Nodup ∧ (∀ i, i ∈ order ↔ w.progress i = .registered) ∧ w.services = w₀.services ++ order.map sys.entry) ∧
      (∀ i name tid, sys.program i = .waits name → w.progress i = .found tid → w.services.getService name = tid ∧ tid ≠ nilThread) ∧
      (∀ a, ∃ w', sys.Step w a w') ∧
      ∀ bs w', Run sys.Step w bs w' →
        (∀ i j name tid tid', sys.program i = .waits name → sys.program j = .waits name → w.progress i = .found tid →
          w'.progress j = .found tid' → tid' = tid) ∧
        (∀ i name, sys.program i = .waits name → w.services.getService name ≠ nilThread → i ∈ bs.map Prod.fst →
          w'.progress i = .found (w.services.getService name)) ∧
        (∀ i name, sys.program i = .registers name → w'.services.length < maxServiceCount → i ∈ bs.map Prod.fst →
          w'.progress i = .registered) ∧
        (w.services.length = maxServiceCount → ∀ i, w'.progress i = .registered → w.progress i = .registered) := by
  have begun : sys.Kept w₀ w₀ [] := by
    refine ⟨List.nodup_nil, fun i => ?_, (List.append_nil _).symm, room, fun i _ _ _ found => ?_, fun i _ _ => ?_, fun i _ _ _ => ?_⟩
    · simp [start i]
    · cases (start i).symm.trans found
    · simp [start i]
    · simp [start i]
  have kept := kept_of_run placed run ⟨[], begun⟩
  obtain ⟨order, h⟩ := kept
  refine ⟨⟨order, h.nodup, h.registered, h.services⟩, h.found, fun a => ?_, fun bs w' further => ⟨?_, ?_, ?_, ?_⟩⟩
  · obtain ⟨w', step, -⟩ := round_moves placed w a.1 a.2
    exact ⟨w', step⟩
  · intro i j name tid tid' first second found found'
    obtain ⟨here, live⟩ := h.found i name tid first found
    obtain ⟨order', h'⟩ := kept_of_run placed further ⟨order, h⟩
    have there := (h'.found j name tid' second found').1
    rw [(later_of_run placed further).found name (by rw [here]; exact live), here] at there
    exact there.symm
  · intro i name waits live served
    refine served_of_run placed (P := fun w₁ => w₁.services.getService name = w.services.getService name) (by simp) ?_ further ?_ ⟨order, h⟩ served
    · intro w₁ w₂ order kept same moves
      rw [← same]
      exact moves.found kept waits (by rw [same]; exact live)
    · exact fun w₁ bs cs before _ => (later_of_run placed before).found name live
  · intro i name registers room served
    refine served_of_run placed (P := fun w₁ => w₁.services.length < maxServiceCount) (by simp) ?_ further ?_ ⟨order, h⟩ served
    · exact fun w₁ w₂ order kept room moves => moves.registered kept registers room
    · exact fun w₁ bs cs _ after => lt_of_le_of_lt (later_of_run placed after).grows room
  · exact fun full => ((later_of_run placed further).full full).2

/-- Root with its own two names, the driver and the shell. -/
def driverAndShell : System Bool where
  root := Romfs.Server.thread 0x40#32 0x20000200#32 1
  thread driver := if driver then Romfs.Server.thread 0x42#32 0x20000400#32 2 else Romfs.Server.thread 0x43#32 0x20000600#32 3
  program driver := if driver then .registers 0x6D726574#32 else .waits 0x6D726574#32

def atFirst : World Bool := ⟨[⟨0x100001#32, 0x006D656D#32⟩, ⟨0x100001#32, 0x76726573#32⟩], fun _ => .trying⟩

/-- The shell asks, the driver registers, and the shell asks again. -/
theorem names_agree_term : ∃ w w', Run driverAndShell.Step atFirst [(false, Romfs.Server.zeros), (true, Romfs.Server.zeros)] w ∧
    Run driverAndShell.Step w [(false, Romfs.Server.zeros)] w' ∧ w.services.getService 0x6D726574#32 = 0x108001#32 ∧
    w'.progress false = .found (w.services.getService 0x6D726574#32) := by
  have placed : driverAndShell.Placed := ⟨by decide, by decide⟩
  have asked : driverAndShell.Step atFirst (false, Romfs.Server.zeros) atFirst := rfl
  have registered : driverAndShell.Step atFirst (true, Romfs.Server.zeros)
      ⟨atFirst.services ++ [⟨0x108001#32, 0x6D726574#32⟩], Function.update atFirst.progress true .registered⟩ := rfl
  have run := Run.cons asked (.single registered)
  have agree := names_agree placed (fun _ => rfl) (by decide) run
  obtain ⟨w', step⟩ := agree.2.2.1 (false, Romfs.Server.zeros)
  exact ⟨_, w', run, .single step, by decide, (agree.2.2.2 _ w' (.single step)).2.1 false _ rfl (by decide) (List.mem_singleton.mpr rfl)⟩

end System

end BradypOS.Root.Naming
