import BradypOS.Scheduler.Basic

/-!
# What boot leaves behind

The kernel thread, the idle thread and the root thread have the first three slots. No other slot has
been used, no alarm is armed and there is no address space.
-/

namespace BradypOS.Kernel

open L4

variable {k k' : Kernel}

/-- One block of `create_sys_threads`: a free slot is handed out. -/
structure SystemThread (k : Kernel) (t : Nat) (tcb : Tcb) (k' : Kernel) : Prop where
  slot : k.allocateTcb = some t
  allocated : k'.allocated = Function.update k.allocated t true
  tcbs : k'.tcbs = Function.update k.tcbs t tcb
  asAllocated : k'.asAllocated = k.asAllocated
  alarms : k'.alarms = k.alarms
  currentThreadIdx : k'.currentThreadIdx = k.currentThreadIdx
  softirqPending : k'.softirqPending = k.softirqPending

/-- A system thread's TCB: a slot that was never used before, filled in. -/
def systemTcb (info : BootInfo) (id sp priority localId : Word) (state : ThreadState) : Tcb :=
  { sysTcb sp priority localId (freshTcb id ((init info).tcbs 0)) with state }

theorem createSysThread_spec {id sp pc priority localId : Word} {state : ThreadState}
    (h : k.createSysThread id sp pc priority localId state = .ok k') :
    ∃ t, SystemThread k t { sysTcb sp priority localId (freshTcb id (k.tcbs t)) with state } k' := by
  unfold createSysThread at h
  obtain ⟨⟨made, k₁⟩, created, h⟩ := bind_ok h
  rcases createThread_spec created with ⟨rfl, _⟩ | ⟨t, list, rfl, slot, _, rfl⟩
  · cases h
  · cases h
    refine ⟨t, slot, ?_, ?_, ?_, ?_, ?_, ?_⟩
    · rw [setThreadState_allocated]; rfl
    · rw [setThreadState_tcbs]
      simp [setFrame, setMem, setTcb, setTcbs, log, setTable, takeTcb]
    all_goals
      obtain ⟨_, _, frame⟩ := setThreadState_frame _ t state
      rw [frame]
      rfl

structure Booted (info : BootInfo) (k : Kernel) : Prop where
  allocated : ∀ t, k.allocated t = true ↔ t < 3
  kernel : k.tcbs kernTcb = systemTcb info kernId info.kernSp 0#32 0#32 .inactive
  idle : k.tcbs idleTcb = systemTcb info idleId info.idleSp 0xFFFFFFFF#32 0#32 .runnable
  root : k.tcbs rootTcb = systemTcb info rootId info.rootSp 42#32 info.rootUtcb .runnable
  unused : ∀ t, 3 ≤ t → k.tcbs t = (init info).tcbs t
  asAllocated : ∀ as, k.asAllocated as = false
  alarms : k.alarms = (init info).alarms
  currentThreadIdx : k.currentThreadIdx = invalidIdx
  softirqPending : k.softirqPending = false

theorem booted {info : BootInfo} (h : boot info = .ok k) : Booted info k := by
  unfold boot createSysThreads at h
  obtain ⟨k₃, threads, h⟩ := bind_ok h
  cases h
  obtain ⟨k₁, kern, threads⟩ := bind_ok threads
  obtain ⟨k₂, idle, root⟩ := bind_ok threads
  obtain ⟨t₁, s₁⟩ := createSysThread_spec kern
  obtain ⟨t₂, s₂⟩ := createSysThread_spec idle
  obtain ⟨t₃, s₃⟩ := createSysThread_spec root
  have first : t₁ = 0 := (Option.some.inj s₁.slot).symm
  subst first
  have second : t₂ = 1 := by
    have slot := s₂.slot
    unfold allocateTcb at slot
    rw [s₁.allocated] at slot
    exact (Option.some.inj slot).symm
  subst second
  have third : t₃ = 2 := by
    have slot := s₃.slot
    unfold allocateTcb at slot
    rw [s₂.allocated, s₁.allocated] at slot
    exact (Option.some.inj slot).symm
  subst third
  have tcbs := s₃.tcbs
  rw [s₂.tcbs, s₁.tcbs] at tcbs
  refine ⟨fun t => ?_, ?_, ?_, ?_, fun t unused => ?_, fun as => ?_, ?_, ?_, ?_⟩
  · show k₃.allocated t = true ↔ t < 3
    rw [s₃.allocated, s₂.allocated, s₁.allocated]
    simp only [Function.update_apply, init]
    split <;> rename_i h₂
    · simp [h₂]
    · split <;> rename_i h₁
      · simp [h₁]
      · split <;> rename_i h₀
        · simp [h₀]
        · exact iff_of_false (by simp) (by omega)
  · show k₃.tcbs 0 = _
    rw [tcbs]; rfl
  · show k₃.tcbs 1 = _
    rw [tcbs]; rfl
  · show k₃.tcbs 2 = _
    rw [tcbs]; rfl
  · show k₃.tcbs t = _
    rw [tcbs, Function.update_of_ne (by omega), Function.update_of_ne (by omega), Function.update_of_ne (by omega)]
  · show k₃.asAllocated as = false
    rw [s₃.asAllocated, s₂.asAllocated, s₁.asAllocated]; rfl
  · show k₃.alarms = _
    rw [s₃.alarms, s₂.alarms, s₁.alarms]
  · show k₃.currentThreadIdx = _
    rw [s₃.currentThreadIdx, s₂.currentThreadIdx, s₁.currentThreadIdx]; rfl
  · show k₃.softirqPending = _
    rw [s₃.softirqPending, s₂.softirqPending, s₁.softirqPending]; rfl

theorem createSysThread_ready {id sp pc priority localId : Word} {state : ThreadState}
    (h : k.createSysThread id sp pc priority localId state = .ok k') :
    ∃ t, k.allocateTcb = some t ∧ k'.allocated = Function.update k.allocated t true ∧
      ∀ u ∈ k'.ready, u ∈ k.ready ∨ u = t ∧ state = .runnable := by
  unfold createSysThread at h
  obtain ⟨⟨made, k₁⟩, created, h⟩ := bind_ok h
  rcases createThread_spec created with ⟨rfl, _⟩ | ⟨t, list, rfl, slot, _, rfl⟩
  · cases h
  · cases h
    refine ⟨t, slot, ?_, fun u member => ?_⟩
    · rw [setThreadState_allocated]; rfl
    · rcases setThreadState_ready member with before | wakes
      · exact .inl before
      · exact .inr wakes

theorem boot_ready {info : BootInfo} (h : boot info = .ok k) : kernTcb ∉ k.ready := by
  unfold boot createSysThreads at h
  obtain ⟨k₃, threads, h⟩ := bind_ok h
  cases h
  obtain ⟨k₁, kern, threads⟩ := bind_ok threads
  obtain ⟨k₂, idle, root⟩ := bind_ok threads
  obtain ⟨t₁, slot₁, live₁, ready₁⟩ := createSysThread_ready kern
  obtain ⟨t₂, slot₂, live₂, ready₂⟩ := createSysThread_ready idle
  obtain ⟨t₃, slot₃, live₃, ready₃⟩ := createSysThread_ready root
  have first : t₁ = kernTcb := (Option.some.inj slot₁).symm
  have used₁ : k₁.allocated kernTcb = true := by rw [live₁, first]; exact Function.update_self ..
  have second : kernTcb ≠ t₂ := by
    intro same
    rw [← same] at slot₂
    rw [(allocateTcb_spec slot₂).2] at used₁
    cases used₁
  have used₂ : k₂.allocated kernTcb = true := by rw [live₂, Function.update_of_ne second]; exact used₁
  have third : kernTcb ≠ t₃ := by
    intro same
    rw [← same] at slot₃
    rw [(allocateTcb_spec slot₃).2] at used₂
    cases used₂
  intro member
  rcases ready₃ _ member with member | ⟨same, _⟩
  · rcases ready₂ _ member with member | ⟨same, _⟩
    · rcases ready₁ _ member with member | ⟨_, runs⟩
      · cases member
      · cases runs
    · exact second same
  · exact third same

end BradypOS.Kernel
