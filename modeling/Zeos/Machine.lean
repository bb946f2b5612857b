import Zeos.Sys
import Zeos.Transition

/-! The running system. The kernel cannot be interrupted: interrupts and system calls
start in user mode (or in the loop of the idle task), and a task that is switched to
inside the kernel goes on from its `k_esp` before anything else happens. -/
namespace Zeos

inductive Syscall where
  | getpid
  | fork
  | createThread (function stack parameter : DWord)
  | exit
  | block
  | unblock (pid : Int)
  | waitThread (pid : Int)
  | read (b : DWord) (maxchars : Int)
  | dynMem (numPags : Int)
  | semCreate (initialValue : Int)
  | semWait (semid : Int)
  | semSignal (semid : Int)
  | semDestroy (semid : Int)
  deriving DecidableEq, Repr

/-- The arguments are `int`s. -/
def Syscall.WellFormed : Syscall → Prop
  | .unblock x | .waitThread x | .read _ x | .dynMem x | .semCreate x | .semWait x | .semSignal x
  | .semDestroy x => IsInt x
  | _ => True

instance (call : Syscall) : Decidable call.WellFormed := by
  cases call <;> unfold Syscall.WellFormed <;> infer_instance

inductive Event where
  | clock
  | key (readInp : UInt8)
  | syscall (call : Syscall)
  | resume
  deriving DecidableEq, Repr

/-- A property of events can be decided when it can for each kind of event. -/
def Event.decidable (e : Event) {p : Event → Prop} [Decidable (p .clock)] [∀ readInp, Decidable (p (.key readInp))]
    [Decidable (p .resume)] [Decidable (p (.syscall .getpid))] [Decidable (p (.syscall .fork))]
    [∀ function stack parameter, Decidable (p (.syscall (.createThread function stack parameter)))]
    [Decidable (p (.syscall .exit))] [Decidable (p (.syscall .block))] [∀ pid, Decidable (p (.syscall (.unblock pid)))]
    [∀ pid, Decidable (p (.syscall (.waitThread pid)))] [∀ b maxchars, Decidable (p (.syscall (.read b maxchars)))]
    [∀ numPags, Decidable (p (.syscall (.dynMem numPags)))]
    [∀ initialValue, Decidable (p (.syscall (.semCreate initialValue)))]
    [∀ semid, Decidable (p (.syscall (.semWait semid)))] [∀ semid, Decidable (p (.syscall (.semSignal semid)))]
    [∀ semid, Decidable (p (.syscall (.semDestroy semid)))] : Decidable (p e) :=
  match e with
  | .clock | .key _ | .resume | .syscall .getpid | .syscall .fork | .syscall (.createThread ..) | .syscall .exit
  | .syscall .block | .syscall (.unblock _) | .syscall (.waitThread _) | .syscall (.read ..) | .syscall (.dynMem _)
  | .syscall (.semCreate _) | .syscall (.semWait _) | .syscall (.semSignal _) | .syscall (.semDestroy _) => inferInstance

namespace State

def syscall : Syscall → State → Except Fault State
  | .getpid, s => .ok (s.sysReturn (some s.core.sysGetpid))
  | .fork, s => s.sysFork
  | .createThread function stack parameter, s => s.sysCreateThread function stack parameter
  | .exit, s => s.sysExit
  | .block, s => s.sysBlock
  | .unblock pid, s => s.sysUnblock pid
  | .waitThread pid, s => s.sysWaitThread pid
  | .read b maxchars, s => s.sysRead b maxchars
  | .dynMem numPags, s => do return s.setCore (← memory (s.core.sysDynMem numPags))
  | .semCreate initialValue, s => s.sysSemCreate initialValue
  | .semWait semid, s => s.sysSemWait semid
  | .semSignal semid, s => s.sysSemSignal semid
  | .semDestroy semid, s => s.sysSemDestroy semid

/-- What stands behind the `sched_next_rr()` of a continuation. The stack of a task that
has left is never switched to. -/
def goOn : Kont → State → Except Fault State
  | .user, s => .ok s
  | .block, s => .ok (s.sysReturn none)
  | .unblock ret, s => .ok (s.sysReturn (some ret))
  | .waitThread bt, s => .ok (s.sysReturn (some (s.core.task bt).pid))
  | .read b maxchars, s => s.readWait b maxchars
  | .semWait i, s => .ok (s.sysReturn (some (s.core.semaphores i).creatorPID))
  | .semSignal i, s => .ok (s.sysReturn (some (s.core.semaphores i).value))
  | .semDestroy i semid caller, s => do
    match ← s.destroyFrom i semid caller with
    | (none, s) => return s
    | (some v, s) =>
      match caller with
      | .syscall => return s.sysReturn (some v)
      | .exit j => s.exitSlots (Core.slotsAfter j)
  | .exited, _ => .error .wild

/-- The running task goes on; its saved stack is used up. -/
def resume (s : State) : Except Fault State :=
  (s.setTask s.core.current fun ts => { ts with kEsp := .user }).goOn s.core.ct.kEsp

def step : Event → State → Except Fault State
  | .clock, s => s.clockRoutine
  | .key readInp, s => s.keyboardRoutine readInp
  | .syscall call, s => s.syscall call
  | .resume, s => s.resume

end State

/-- Control is outside the kernel, or in the interruptible loop of the idle task. -/
def Core.InUser (c : Core) : Prop := c.ct.kEsp = .user

instance (c : Core) : Decidable c.InUser := inferInstanceAs (Decidable (_ = _))

/-- What can happen next: only a task makes system calls, and nothing interrupts the
kernel. -/
def Core.Enabled (c : Core) : Event → Prop
  | .clock | .key _ => c.InUser
  | .syscall call => c.InUser ∧ c.current ≠ idleTask ∧ call.WellFormed
  | .resume => ¬ c.InUser

instance (c : Core) (e : Event) : Decidable (c.Enabled e) := by
  cases e <;> unfold Core.Enabled <;> infer_instance

def Step (s : State) (e : Event) (s' : State) : Prop := s.core.Enabled e ∧ s.step e = .ok s'

/-- The memory of the kernel before its first instruction: zero where the image does
not initialise it. -/
def coldStart : State where
  links := ⟨fun _ => .null, fun _ => .null⟩
  core :=
    { task := fun _ => ⟨0, none, 0, 0, none, none, .stRun, .exited, none⟩
      semaphores := fun _ => ⟨0, 0, false, 0, 0⟩
      current := 3
      cr3 := 0
      tickCounter := 0
      zeosTick := 0
      pidGlobal := 1000
      semIDglobal := firstUserSemId
      semIDsystem := 0
      kbBuffer := ⟨fun _ => 0, 0, 0⟩
      tmpbuff := fun _ => 0
      mm := Mm.initMm
      live := fun _ => false }

/-- `main()` up to `init_task1`: `init_mm` takes a directory for `task[0]`, then come
`init_sched` and `init_idle`. -/
def initSystem : Except Fault State := do
  let s := coldStart
  let (dir, mm) := s.core.mm.allocateDir
  let s := (s.setCore { s.core with mm }).setTask 0 fun t => { t with dirPagesBaseAddr := dir }
  let s ← s.initSched
  let s ← s.initIdle
  s.initTask1

/-- `main()`; `ram` is the memory after its `copy_data` of the user image. -/
def boot (ram : Nat → Nat → UInt8) : Except Fault State := do
  let s ← initSystem
  return s.setCore { s.core with mm := { s.core.mm with ram } }

/-- The runs of the system: from boot, with any contents of the memory. -/
def Run (events : List Event) (s : State) : Prop :=
  ∃ ram s₀, boot ram = .ok s₀ ∧ Transition.Path Step s₀ events s

/-- The runs whose steps are all allowed. -/
def RunWhere (allowed : State → Event → Prop) (events : List Event) (s : State) : Prop :=
  ∃ ram s₀, boot ram = .ok s₀ ∧ Transition.Path (Transition.Guarded allowed Step) s₀ events s

/-- The machine carried through the events of a list, as long as each is allowed. -/
def execute (allowed : State → Event → Bool) : List Event → State → Option State
  | [], s => some s
  | e :: events, s =>
    if s.core.Enabled e ∧ allowed s e then
      match s.step e with
      | .ok s => execute allowed events s
      | .error _ => none
    else none

def executeBoot (allowed : State → Event → Bool) (events : List Event) : Option State :=
  match boot fun _ _ => 0 with
  | .ok s => execute allowed events s
  | .error _ => none

theorem execute_path (allowed : State → Event → Bool) (events : List Event) (s s' : State)
    (h : execute allowed events s = some s') :
    Transition.Path (Transition.Guarded (fun s e => allowed s e = true) Step) s events s' := by
  induction events generalizing s with
  | nil =>
    cases h
    exact .nil
  | cons e events ih =>
    simp only [execute] at h
    split at h
    · rename_i ready
      split at h
      · rename_i next step
        have first : Transition.Path (Transition.Guarded (fun s e => allowed s e = true) Step) s [e] next :=
          .single ⟨ready.2, ready.1, step⟩
        exact first.append (ih next h)
      · contradiction
    · contradiction

/-- A computed run is a run. -/
theorem executeBoot_run (allowed : State → Event → Bool) (events : List Event) (check : State → Bool)
    (h : (executeBoot allowed events).any check = true) :
    ∃ s, RunWhere (fun s e => allowed s e = true) events s ∧ check s = true := by
  rw [Option.any_eq_true] at h
  obtain ⟨s, run, checked⟩ := h
  refine ⟨s, ?_, checked⟩
  unfold executeBoot at run
  split at run
  · rename_i s₀ booted
    exact ⟨_, s₀, booted, execute_path allowed events s₀ s run⟩
  · contradiction

/-- A computed step is a step. -/
theorem Step.of_any {s : State} {e : Event} {check : State → Bool} (enabled : s.core.Enabled e)
    (h : (s.step e).toOption.any check = true) : ∃ s', Step s e s' ∧ check s' = true := by
  cases done : s.step e with
  | error f => rw [done] at h; contradiction
  | ok s' =>
    rw [done] at h
    exact ⟨s', ⟨enabled, done⟩, h⟩

/-- A run with conditions on its steps is a run. -/
theorem RunWhere.run {allowed : State → Event → Prop} {events : List Event} {s : State}
    (h : RunWhere allowed events s) : Run events s := by
  obtain ⟨ram, s₀, booted, path⟩ := h
  exact ⟨ram, s₀, booted, path.mono fun _ _ _ step => step.2⟩

/-- A run with a weaker condition on its steps. -/
theorem RunWhere.weaken {allowed allowed' : State → Event → Prop} {events : List Event} {s : State}
    (h : RunWhere allowed events s) (weaker : ∀ s e, allowed s e → allowed' s e) : RunWhere allowed' events s := by
  obtain ⟨ram, s₀, booted, path⟩ := h
  exact ⟨ram, s₀, booted, path.mono fun s e _ step => ⟨weaker s e step.1, step.2⟩⟩

end Zeos
