import Zeos.Placement
import Zeos.Queues

/-! The invariant of the kernel: every task stands in the queues its PCB names, once in
each, and the PCBs, the history of live tasks and the semaphores agree. -/
namespace Zeos
open Placement

namespace Core

/-- The queues the PCB of a task names. The idle task is in no queue of the scheduler,
and a call may have a PCB `out` in hand that belongs to the free queue. -/
def Home (c : Core) (out : Option Task) : Head → Task → Prop
  | .freequeue, t => c.live t = false ∧ out ≠ some t
  | .readyqueue, t => c.live t ∧ t ≠ idleTask ∧ (c.task t).currentState = .stReady
  | .blocked, t => c.live t ∧ (c.task t).currentState = .stBlocked
  | .readBlocked, t => c.live t ∧ (c.task t).currentState = .stReadblocked
  | .fills u, t => c.live t ∧ (c.task t).pare = some u
  | .waitList u, t =>
    c.live t ∧ (c.task t).currentState = .stBlocked ∧ (c.task t).kEsp = .waitThread u
  | .blockedThreads i, t =>
    c.live t ∧ (c.task t).currentState = .stBlocked ∧ (c.task t).kEsp = .semWait i

/-- The heads that are in use; a task that exits uses its own till it is switched from. -/
def Valid (c : Core) : Head → Prop
  | .fills t | .waitList t => c.live t ∨ t = c.current
  | .blockedThreads i => (c.semaphores i).free = false
  | _ => True

/-- A continuation that may be saved on the stack of `t`: the destroyer of a semaphore
has marked it and is the only one. -/
def Fits (c : Core) (t : Task) : Kont → Prop
  | .semDestroy i _ _ => (c.semaphores i).free = false ∧ (c.semaphores i).creatorPID = -1 ∧
      ∀ u semid caller, c.live u → (c.task u).kEsp = .semDestroy i semid caller → u = t
  | .exited => False
  | _ => True

structure Good (c : Core) : Prop where
  idle : c.live idleTask ∧ (c.task idleTask).pid = 0 ∧ (c.task idleTask).kEsp = .user ∧
    ((c.task idleTask).currentState = .stRun ∨ (c.task idleTask).currentState = .stReady)
  positive : ∀ t, c.live t → t ≠ idleTask → 0 < (c.task t).pid
  distinct : ∀ t u, c.live t → c.live u → (c.task t).pid = (c.task u).pid → t = u
  fresh : c.pidGlobal < 2147483648 ∧
    (0 < c.pidGlobal → ∀ t, c.live t → (c.task t).pid < c.pidGlobal)
  directory : ∀ t, c.live t → (c.task t).dirPagesBaseAddr.isSome
  running : ∀ t, c.live t → (c.task t).currentState = .stRun → t = c.current
  reading : ∀ t, c.live t → (c.task t).currentState = .stReadblocked → t ≠ c.current →
    ∃ b maxchars, (c.task t).kEsp = .read b maxchars
  started : ∀ t, c.live t → (c.task t).currentState ≠ .stFree
  saved : ∀ t, c.live t → c.Fits t (c.task t).kEsp
  valid : ∀ h t, c.Home none h t → c.Valid h

/-- The running task is in a system call. -/
structure InCall (c : Core) : Prop where
  live : c.live c.current
  task : c.current ≠ idleTask
  user : c.ct.kEsp = .user
  run : c.ct.currentState = .stRun

theorem InCall.running {c : Core} (call : c.InCall) : (c.task c.current).currentState = .stRun := call.run

/-- What holds of the running task between two steps. -/
structure Between (c : Core) : Prop where
  live : c.live c.current
  state : c.ct.currentState = .stRun ∨
    c.ct.currentState = .stReadblocked ∧ ∃ b maxchars, c.ct.kEsp = .read b maxchars

/-- A task that neither runs nor reads has not got the processor. -/
theorem Between.not_current {c : Core} (between : c.Between) {t : Task} {state : TaskState}
    (there : (c.task t).currentState = state) (run : state ≠ .stRun) (read : state ≠ .stReadblocked) :
    t ≠ c.current := by
  rintro rfl
  rcases between.state with runs | ⟨reads, _⟩
  · exact run (there.symm.trans runs)
  · exact read (there.symm.trans reads)

theorem fits_congr {c c' : Core} {t : Task} (x : Kont) (live : c'.live = c.live)
    (semaphores : c'.semaphores = c.semaphores) (kEsp : ∀ u, (c'.task u).kEsp = (c.task u).kEsp) :
    c'.Fits t x ↔ c.Fits t x := by
  cases x <;> simp [Fits, live, semaphores, kEsp]

theorem valid_congr {c c' : Core} (h : Head) (live : c'.live = c.live)
    (semaphores : c'.semaphores = c.semaphores) (current : c'.current = c.current) :
    c'.Valid h ↔ c.Valid h := by
  cases h <;> simp [Valid, live, semaphores, current]

theorem home_congr {c c' : Core} {t : Task} {out : Option Task} (h : Head) (live : c'.live t = c.live t)
    (same : c'.task t = c.task t) : c'.Home out h t ↔ c.Home out h t := by
  cases h <;> simp [Home, live, same]

/-- A PCB gets another state or another continuation. -/
theorem Good.restate {c : Core} {t : Task} {f : TaskStruct → TaskStruct} (good : c.Good)
    (pid : (f (c.task t)).pid = (c.task t).pid)
    (dir : (f (c.task t)).dirPagesBaseAddr = (c.task t).dirPagesBaseAddr)
    (idle : t = idleTask → (f (c.task t)).kEsp = .user ∧
      ((f (c.task t)).currentState = .stRun ∨ (f (c.task t)).currentState = .stReady))
    (running : c.live t → (f (c.task t)).currentState = .stRun → t = c.current)
    (reading : c.live t → (f (c.task t)).currentState = .stReadblocked → t ≠ c.current →
      ∃ b maxchars, (f (c.task t)).kEsp = .read b maxchars)
    (started : c.live t → (f (c.task t)).currentState ≠ .stFree)
    (saved : c.live t → c.Fits t (f (c.task t)).kEsp)
    (valid : ∀ h, (c.setTask t f).Home none h t → c.Valid h) : (c.setTask t f).Good := by
  have others : ∀ u, u ≠ t → ((c.setTask t f).task u) = c.task u := by intro u h; simp [h]
  have here : (c.setTask t f).task t = f (c.task t) := by simp
  constructor
  case saved =>
    intro u live
    by_cases same : u = t
    · subst same
      have fits := saved live
      rw [here]
      cases h : (f (c.task u)).kEsp <;> simp only [h, Fits] at fits ⊢
      grind [setTask_live, setTask_semaphores, setTask_task]
    · have fits := good.saved u live
      rw [others u same]
      cases h : (c.task u).kEsp <;> simp only [h, Fits] at fits ⊢
      refine ⟨fits.1, fits.2.1, fun v semid caller liveV kEsp => ?_⟩
      by_cases second : v = t
      · subst second
        rw [here] at kEsp
        have := saved liveV
        simp only [kEsp, Fits] at this
        exact absurd (this.2.2 u _ _ live h) same
      · rw [others v second] at kEsp
        exact fits.2.2 v _ _ liveV kEsp
  case valid =>
    intro h u home
    refine (valid_congr (c := c) h (by rfl) (by rfl) (by rfl)).mpr ?_
    by_cases same : u = t
    · subst same; exact valid h home
    · exact good.valid h u ((home_congr h (by rfl) (others u same)).mp home)
  all_goals
    obtain ⟨idle', positive', distinct', fresh', directory', running', reading', started', -, -⟩ := good
    simp only [setTask_task, setTask_live, setTask_pidGlobal, setTask_current]
    grind

/-- Another task gets the processor. A task that has left leaves no children and no
waiters behind. -/
theorem Good.switch {c : Core} (good : c.Good) (new : Task) (cr3 : Dir) (tickCounter : Int)
    (left : c.live c.current ∨
      ∀ t, ¬ c.Home none (.fills c.current) t ∧ ¬ c.Home none (.waitList c.current) t)
    (running : ∀ t, c.live t → (c.task t).currentState = .stRun → t = new)
    (reading : ∀ t, c.live t → (c.task t).currentState = .stReadblocked → t ≠ new →
      ∃ b maxchars, (c.task t).kEsp = .read b maxchars) :
    { c with current := new, cr3, tickCounter }.Good := by
  refine { good with running, reading, valid := fun h t home => ?_ }
  have valid := good.valid h t home
  cases h
  case fills u | waitList u =>
    refine .inl (valid.elim id ?_)
    rintro rfl
    have := left.resolve_right fun none => by have := none t; tauto
    exact this
  all_goals exact valid

end Core

namespace Kernel

/-- The part of the invariant that also holds inside a system call. -/
structure Sound (k : Kernel) (out : Option Task) : Prop where
  good : k.core.Good
  placed : Placed k.queues (k.core.Home out)

structure Inv (k : Kernel) : Prop extends Sound k none where
  between : k.core.Between

variable {k : Kernel} {t u : Task} {h : Head} {out : Option Task}

@[simp] theorem setTask_core (f : TaskStruct → TaskStruct) :
    (k.setTask t f).core = k.core.setTask t f := rfl
@[simp] theorem setTask_queues (f : TaskStruct → TaskStruct) : (k.setTask t f).queues = k.queues := rfl
@[simp] theorem setCore_core (c : Core) : (k.setCore c).core = c := rfl
@[simp] theorem setCore_queues (c : Core) : (k.setCore c).queues = k.queues := rfl
@[simp] theorem setSem_core (i : SemIndex) (f : Semaphore → Semaphore) :
    (k.setSem i f).core = k.core.setSem i f := rfl
@[simp] theorem setSem_queues (i : SemIndex) (f : Semaphore → Semaphore) :
    (k.setSem i f).queues = k.queues := rfl
@[simp] theorem sysReturn_core (v : Option Int) : (k.sysReturn v).core = k.core.sysReturn v := rfl
@[simp] theorem sysReturn_queues (v : Option Int) : (k.sysReturn v).queues = k.queues := rfl
@[simp] theorem enqueue_core : (k.enqueue h t).core = k.core := rfl
@[simp] theorem dequeue_core : (k.dequeue h t).core = k.core := rfl
@[simp] theorem clear_core : (k.clear h).core = k.core := rfl
@[simp] theorem enqueue?_core (h : Option Head) : (k.enqueue? h t).core = k.core := by
  cases h <;> rfl
@[simp] theorem dequeue?_core (h : Option Head) : (k.dequeue? h t).core = k.core := by
  cases h <;> rfl
@[simp] theorem move_core : (k.move t h).core =
    k.core.setTask t fun ts => { ts with currentState := h.state } := by simp [move]
@[simp] theorem wake_core : (k.wake t).core =
    k.core.setTask t fun ts => { ts with currentState := .stReady } := by
  simp [wake, Head.state]

theorem sysReturn_eax (k : Kernel) (v : Option Int) : (k.sysReturn v).core.ct.eax = v := by
  simp [Core.sysReturn, Core.ct]

theorem placed_enqueue {home : Head → Task → Prop} (placed : Placed k.queues home) (new : ¬ home h t) :
    Placed (k.enqueue h t).queues fun j u => home j u ∨ (j = h ∧ u = t) := placed.append new

theorem placed_dequeue {home : Head → Task → Prop} (placed : Placed k.queues home) (h : Head) (t : Task) :
    Placed (k.dequeue h t).queues fun j u => home j u ∧ ¬ (j = h ∧ u = t) := placed.erase h t

theorem placed_enqueue? {home : Head → Task → Prop} (placed : Placed k.queues home) (h : Option Head)
    (new : ∀ j, h = some j → ¬ home j t) :
    Placed (k.enqueue? h t).queues fun j u => home j u ∨ (h = some j ∧ u = t) := by
  cases h with
  | none => exact placed.congr fun j u => by simp
  | some h => exact (placed.append (new h rfl)).congr fun j u => by simp [eq_comm]

theorem placed_dequeue? {home : Head → Task → Prop} (placed : Placed k.queues home) (h : Option Head)
    (t : Task) : Placed (k.dequeue? h t).queues fun j u => home j u ∧ ¬ (h = some j ∧ u = t) := by
  cases h with
  | none => exact placed.congr fun j u => by simp
  | some h => exact (placed.erase h t).congr fun j u => by simp [eq_comm]

/-- A change of queue, described. -/
theorem placed_move {home : Head → Task → Prop} (placed : Placed k.queues home)
    (new : home h t → (k.core.task t).currentState.queue = some h) :
    Placed (k.move t h).queues fun j u =>
      (home j u ∧ ¬ ((k.core.task t).currentState.queue = some j ∧ u = t)) ∨ (j = h ∧ u = t) := by
  refine placed_enqueue (placed_dequeue? placed _ t) fun old => ?_
  exact old.2 ⟨new old.1, rfl⟩

theorem placed_wake {home : Head → Task → Prop} (placed : Placed k.queues home)
    (new : ¬ home .readyqueue t) :
    Placed (k.wake t).queues fun j u =>
      (home j u ∧ ¬ ((k.core.task t).kEsp.waitHead = some j ∧ u = t) ∧
        ¬ ((k.core.task t).currentState.queue = some j ∧ u = t)) ∨ (j = .readyqueue ∧ u = t) := by
  have moved := placed_move (k := k.dequeue? (k.core.task t).kEsp.waitHead t) (h := .readyqueue)
    (placed_dequeue? placed _ t) fun old => absurd old.1 new
  exact moved.congr fun j u => by simp [and_assoc]

/-- A sleeping task is woken. -/
theorem Sound.wake (sound : k.Sound out) (live : k.core.live t)
    (state : (k.core.task t).currentState = .stBlocked) : (k.wake t).Sound out := by
  obtain ⟨good, placed⟩ := sound
  have other : t ≠ idleTask := by
    rintro rfl
    have := good.idle
    simp [state] at this
  refine ⟨?_, ?_⟩
  · rw [wake_core]
    refine good.restate rfl rfl (by simp [other]) (by simp) (by simp) (by simp) (good.saved t) ?_
    intro h home
    cases h <;> simp [Core.Home, Core.Valid] at home ⊢
    exact good.valid (.fills _) t home
  · have new : ¬ k.core.Home out .readyqueue t := by simp [Core.Home, state]
    refine (placed_wake placed new).congr fun j u => ?_
    by_cases same : u = t
    · subst same
      cases j <;> simp [Core.Home, state, live, other]
    · cases j <;> simp [Core.Home, same]

@[simp] theorem park_core (kont : Kont) : (k.park kont).core = k.core.setTask k.core.current
    fun ts => { ts with currentState := .stBlocked, kEsp := kont } := by
  simp [park, Head.state, Function.comp_def]

/-- The running task falls asleep. -/
theorem Sound.park (sound : k.Sound none) (call : k.core.InCall) (kont : Kont)
    (fits : k.core.Fits k.core.current kont) (valid : ∀ h, kont.waitHead = some h → k.core.Valid h) :
    (k.park kont).Sound none := by
  obtain ⟨good, placed⟩ := sound
  obtain ⟨live, other, user, run⟩ := call
  have run : (k.core.task k.core.current).currentState = .stRun := run
  refine ⟨?_, ?_⟩
  · rw [park_core]
    refine good.restate rfl rfl (by simp [other]) (by simp) (by simp) (by simp) (fun _ => fits) ?_
    intro h home
    cases h <;> simp [Core.Home] at home
    case fills u => exact good.valid (.fills u) _ home
    case waitList u => exact valid _ (by simp [home.2])
    case blockedThreads i => exact valid _ (by simp [home.2])
    all_goals trivial
  · have queued := placed_enqueue? (t := k.core.current) placed kont.waitHead fun j here home => by
      cases j <;> simp [Core.Home, run] at here home
    have moved := placed_move (t := k.core.current) (h := .blocked) queued (by simp [Core.Home, run])
    refine moved.congr fun j u => ?_
    rw [enqueue?_core, park_core]
    by_cases same : u = k.core.current
    · subst same
      cases j <;> simp [Core.Home, run, live, TaskState.queue]
    · cases j <;> simp [Core.Home, same]

/-- The running task gets a continuation, or a value to return. -/
theorem Sound.save (sound : k.Sound out) (f : TaskStruct → TaskStruct)
    (keeps : ∀ ts, (f ts).pid = ts.pid ∧ (f ts).dirPagesBaseAddr = ts.dirPagesBaseAddr ∧
      (f ts).pare = ts.pare ∧ (f ts).currentState = ts.currentState)
    (other : k.core.current ≠ idleTask ∨ (f k.core.ct).kEsp = .user)
    (awake : k.core.ct.currentState ≠ .stBlocked)
    (fits : k.core.live k.core.current → k.core.Fits k.core.current (f k.core.ct).kEsp) :
    (k.setTask k.core.current f).Sound out := by
  obtain ⟨good, placed⟩ := sound
  obtain ⟨pid, dir, pare, state⟩ := keeps (k.core.task k.core.current)
  have awake : (k.core.task k.core.current).currentState ≠ .stBlocked := awake
  refine ⟨?_, placed.congr fun j u => ?_⟩
  · refine good.restate pid dir ?_ (fun _ _ => rfl) (fun _ _ different => absurd rfl different) ?_ fits ?_
    · intro same
      refine ⟨other.resolve_left (absurd same), ?_⟩
      rw [state, same]
      exact good.idle.2.2.2
    · rw [state]
      exact good.started _
    · intro h home
      cases h <;> simp [Core.Home, state, pare, awake] at home
      case fills u => exact good.valid (.fills u) _ home
      all_goals trivial
  · by_cases same : u = k.core.current
    · subst same
      cases j <;> simp [Core.Home, state, pare, awake]
    · cases j <;> simp [Core.Home, same]

theorem next_cases (k : Kernel) :
    (k.queues .readyqueue = [] ∧ k.next = idleTask) ∨ k.next ∈ k.queues .readyqueue := by
  unfold next
  cases k.queues .readyqueue <;> simp

theorem Sound.live_next (sound : k.Sound out) : k.core.live k.next := by
  rcases next_cases k with ⟨_, idle⟩ | mem
  · rw [idle]; exact sound.good.idle.1
  · exact ((sound.placed.mem _ _).mp mem).1

@[simp] theorem yield_current : k.yield.core.current = k.core.current := by
  unfold yield; split <;> [split; skip] <;> simp
@[simp] theorem yield_live : k.yield.core.live = k.core.live := by
  unfold yield; split <;> [split; skip] <;> simp
@[simp] theorem yield_semaphores : k.yield.core.semaphores = k.core.semaphores := by
  unfold yield; split <;> [split; skip] <;> simp
@[simp] theorem start_core : (k.start t).core =
    k.core.setTask t fun ts => { ts with currentState := .stRun } := by
  unfold start; split <;> simp

/-- Of the PCBs, yielding changes the state of the running task. -/
theorem yield_task (k : Kernel) (u : Task) : k.yield.core.task u =
    { k.core.task u with
      currentState := if u = k.core.current ∧ k.core.ct.currentState = .stRun then .stReady
        else (k.core.task u).currentState } := by
  unfold yield
  split
  · rename_i run
    split
    · rename_i idle
      by_cases same : u = idleTask <;> simp [same, idle, run]
    · by_cases same : u = k.core.current <;> simp [same, Head.state, run]
  · rename_i run
    simp [run]

/-- The running task makes room. -/
theorem Sound.yield (sound : k.Sound none)
    (alive : k.core.ct.currentState = .stRun → k.core.live k.core.current) : k.yield.Sound none := by
  obtain ⟨good, placed⟩ := sound
  unfold Kernel.yield
  split
  · rename_i run
    have live := alive run
    have run : (k.core.task k.core.current).currentState = .stRun := run
    have ready : (k.core.setTask k.core.current fun ts => { ts with currentState := .stReady }).Good := by
      refine good.restate rfl rfl ?_ (by simp) (by simp) (by simp) (good.saved _) ?_
      · intro same
        rw [same]
        exact ⟨good.idle.2.2.1, .inr rfl⟩
      · intro h home
        cases h <;> simp [Core.Home] at home
        case fills u => exact good.valid (.fills u) _ home
        all_goals trivial
    split
    · rename_i idle
      rw [idle] at ready run
      refine ⟨ready, placed.congr fun j u => ?_⟩
      by_cases same : u = idleTask
      · subst same
        cases j <;> simp [Core.Home, run]
      · cases j <;> simp [Core.Home, same]
    · rename_i other
      refine ⟨by simpa [Head.state] using ready, ?_⟩
      have moved := placed_move (t := k.core.current) (h := .readyqueue) placed (by simp [Core.Home, run])
      refine moved.congr fun j u => ?_
      rw [move_core]
      by_cases same : u = k.core.current
      · subst same
        cases j <;> simp [Core.Home, run, live, TaskState.queue, Head.state, other]
      · cases j <;> simp [Core.Home, same]
  · exact ⟨good, placed⟩

theorem Sound.yield_not_run (sound : k.Sound out) (live : k.core.live u) :
    (k.yield.core.task u).currentState ≠ .stRun := by
  rw [yield_task]
  have := sound.good.running u live
  simp only [Core.ct]
  grind

theorem Sound.yield_reading (sound : k.Sound out) (live : k.core.live u)
    (state : (k.yield.core.task u).currentState = .stReadblocked)
    (reads : k.core.live k.core.current → k.core.ct.currentState = .stReadblocked →
      ∃ b maxchars, k.core.ct.kEsp = .read b maxchars) :
    ∃ b maxchars, (k.yield.core.task u).kEsp = .read b maxchars := by
  rw [yield_task] at state ⊢
  by_cases current : u = k.core.current
  · subst current
    have := reads live
    simp only [Core.ct] at *
    grind
  · exact sound.good.reading u live (by simpa [current] using state) current

theorem Sound.next_ready (sound : k.Sound out) :
    (k.yield.core.task k.next).currentState = .stReady := by
  rw [yield_task]
  rcases next_cases k with ⟨_, idle⟩ | mem
  · have := sound.good.idle
    have := sound.good.running idleTask
    rw [idle]
    simp only [Core.ct]
    grind
  · have ready := ((sound.placed.mem _ _).mp mem).2.2
    simp [ready]

/-- The task that gives up the processor lives, or it has left without children and waiters. -/
def Leaves (k : Kernel) : Prop := k.core.live k.core.current ∨
  k.core.ct.currentState ≠ .stRun ∧ k.queues (.fills k.core.current) = [] ∧
    k.queues (.waitList k.core.current) = []

theorem Sound.yield_left (sound : k.Sound none) (leaves : k.Leaves) :
    k.yield.core.live k.yield.core.current ∨ ∀ t, ¬ k.yield.core.Home none (.fills k.yield.core.current) t ∧
      ¬ k.yield.core.Home none (.waitList k.yield.core.current) t := by
  rcases leaves with live | ⟨stopped, fills, waitList⟩
  · exact .inl (by simpa using live)
  · right
    have same : k.yield = k := by simp [Kernel.yield, stopped]
    intro t
    rw [same, ← sound.placed.mem, ← sound.placed.mem, fills, waitList]
    simp

/-- What a dispatch does to the core. -/
theorem dispatch_core (k : Kernel) : ∃ cr3 tickCounter, k.dispatch.core =
    { k.yield.core with current := k.next, cr3, tickCounter }.setTask k.next
      fun ts => { ts with currentState := .stRun } := by
  refine ⟨k.dispatch.core.cr3, k.dispatch.core.tickCounter, ?_⟩
  simp only [dispatch, switch, setQuantum, setCore, start_core]
  rfl

theorem dispatch_queues (k : Kernel) : k.dispatch.queues = (k.yield.start k.next).queues := rfl

theorem yield_queues (k : Kernel) (h : Head) : k.yield.queues h =
    if h = .readyqueue ∧ k.core.ct.currentState = .stRun ∧ k.core.current ≠ idleTask then
      k.queues .readyqueue ++ [k.core.current] else k.queues h := by
  unfold yield
  by_cases run : k.core.ct.currentState = .stRun
  · have run' : (k.core.task k.core.current).currentState = .stRun := run
    by_cases idle : k.core.current = idleTask
    · simp [run, idle]
    · by_cases same : h = .readyqueue <;> simp [run, run', idle, same, move, enqueue, dequeue?, TaskState.queue]
  · simp [run]

/-- A dispatch takes the first ready task and appends the running one. -/
theorem Sound.dispatch_lists (sound : k.Sound none) (h : Head) : k.dispatch.queues h =
    if h = .readyqueue then (k.queues .readyqueue).tail ++
      (if k.core.ct.currentState = .stRun ∧ k.core.current ≠ idleTask then [k.core.current] else [])
    else k.queues h := by
  have yielded := yield_queues k
  have ready := sound.next_ready
  rw [Kernel.dispatch_queues, start]
  cases first : k.queues .readyqueue with
  | nil =>
    have idle : k.next = idleTask := by simp [next, first]
    rw [if_pos idle, setTask_queues, yielded]
    by_cases same : h = .readyqueue <;> simp [same, first]
  | cons t rest =>
    have next : k.next = t := by simp [next, first]
    have task : t ≠ idleTask := ((sound.placed.mem .readyqueue t).mp (by simp [first])).2.1
    rw [next] at ready ⊢
    rw [if_neg task, setTask_queues, ready]
    simp only [TaskState.queue, dequeue?, dequeue, Function.update_apply, yielded, first]
    by_cases same : h = .readyqueue
    · by_cases runs : k.core.ct.currentState = .stRun ∧ k.core.current ≠ idleTask <;> simp [same, runs]
    · simp [same]

theorem dispatch_kEsp (k : Kernel) (t : Task) : (k.dispatch.core.task t).kEsp = (k.core.task t).kEsp := by
  obtain ⟨cr3, tickCounter, core⟩ := dispatch_core k
  rw [core, Core.setTask_task]
  split
  · rename_i here
    rw [here]
    simp [yield_task]
  · simp [yield_task]

/-- The next ready task, or the idle task, runs. -/
theorem Sound.dispatch (sound : k.Sound none) (leaves : k.Leaves)
    (reads : k.core.live k.core.current → k.core.ct.currentState = .stReadblocked →
      ∃ b maxchars, k.core.ct.kEsp = .read b maxchars) : k.dispatch.Inv := by
  have live := sound.live_next
  have ready := sound.next_ready
  have stops := fun u => sound.yield_not_run (u := u)
  have left := sound.yield_left leaves
  have reading := fun u live state => sound.yield_reading (u := u) live state reads
  obtain ⟨good, placed⟩ := sound.yield fun run => leaves.resolve_right fun gone => gone.1 run
  have liveY : k.yield.core.live k.next := by simpa using live
  have switched (cr3 : Dir) (tickCounter : Int) :
      ({ k.yield.core with current := k.next, cr3, tickCounter }.setTask k.next
        fun ts => { ts with currentState := .stRun }).Good := by
    have given := good.switch k.next cr3 tickCounter left
      (fun t liveT run => absurd run (stops t (by simpa using liveT)))
      (fun t liveT state _ => reading t (by simpa using liveT) state)
    refine given.restate rfl rfl ?_ (fun _ _ => rfl) (by simp) (by simp) (given.saved k.next) ?_
    · intro idle
      exact ⟨idle ▸ good.idle.2.2.1, .inl rfl⟩
    · intro h home
      cases h <;> simp [Core.Home] at home
      case fills u => exact given.valid (.fills u) k.next (by simpa [Core.Home] using home)
      all_goals trivial
  obtain ⟨cr3, tickCounter, core⟩ := dispatch_core k
  refine ⟨⟨by rw [core]; exact switched cr3 tickCounter, ?_⟩, ?_⟩
  · rw [core, dispatch_queues]
    unfold start
    split
    · rename_i idle
      refine placed.congr fun j u => ?_
      by_cases same : u = k.next
      · subst same
        rw [idle] at ready ⊢
        cases j <;> simp [Core.Home, ready]
      · cases j <;> simp [Core.Home, same]
    · rename_i other
      refine (placed_dequeue? placed _ _).congr fun j u => ?_
      by_cases same : u = k.next
      · subst same
        cases j <;> simp [Core.Home, ready, liveY, TaskState.queue, live]
      · cases j <;> simp [Core.Home, same]
  · rw [core]
    exact ⟨by simpa using live, .inl (by simp [Core.ct])⟩

end Kernel
end Zeos
