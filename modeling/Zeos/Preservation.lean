import Zeos.Invariant
import Zeos.Outcome

/-! Every step of the kernel keeps the invariant, as long as it is one of those that do
what its callers expect: `Core.Allowed` names the five that may not be. -/
namespace Zeos
open Placement

namespace Core

/-- Memory, clock, key buffer and id counters are not looked at by the scheduler. -/
structure SameTasks (c c' : Core) : Prop where
  task : c'.task = c.task
  live : c'.live = c.live
  semaphores : c'.semaphores = c.semaphores
  current : c'.current = c.current
  pidGlobal : c'.pidGlobal = c.pidGlobal

theorem SameTasks.home {c c' : Core} (same : c.SameTasks c') (out : Option Task) :
    c'.Home out = c.Home out := by
  funext h t
  obtain ⟨task, live, _⟩ := same
  cases h <;> simp [Home, task, live]

theorem SameTasks.good {c c' : Core} (same : c.SameTasks c') (good : c.Good) : c'.Good := by
  obtain ⟨task, live, semaphores, current, pidGlobal⟩ := same
  cases c; cases c'
  dsimp only at *
  subst task live semaphores current pidGlobal
  exact ⟨good.idle, good.positive, good.distinct, good.fresh, good.directory, good.running,
    good.reading, good.started, good.saved, good.valid⟩

theorem SameTasks.inCall {c c' : Core} (same : c.SameTasks c') (call : c.InCall) : c'.InCall := by
  obtain ⟨task, live, semaphores, current, pidGlobal⟩ := same
  cases c; cases c'
  dsimp only at *
  subst task live semaphores current pidGlobal
  exact ⟨call.live, call.task, call.user, call.run⟩

/-- Only memory and the PCB of `fill` differ. -/
structure Apart (fill : Task) (c c' : Core) : Prop where
  task : ∀ t, t ≠ fill → c'.task t = c.task t
  live : c'.live = c.live
  semaphores : c'.semaphores = c.semaphores
  current : c'.current = c.current
  pidGlobal : c'.pidGlobal = c.pidGlobal

theorem Apart.setTask (fill : Task) (c : Core) (f : TaskStruct → TaskStruct) :
    Apart fill c (c.setTask fill f) := ⟨fun t other => by simp [other], rfl, rfl, rfl, rfl⟩

/-- A PCB that is not live has no part in the invariant. -/
theorem Apart.home {fill : Task} {c c' : Core} (apart : Apart fill c c') (dead : c.live fill = false)
    (out : Option Task) (h : Head) (t : Task) : c'.Home out h t ↔ c.Home out h t := by
  by_cases same : t = fill
  · subst same
    cases h <;> simp [Home, apart.live, dead]
  · exact home_congr h (by rw [apart.live]) (apart.task t same)

theorem Apart.good {fill : Task} {c c' : Core} (apart : Apart fill c c') (dead : c.live fill = false)
    (good : c.Good) : c'.Good := by
  have homes := apart.home dead none
  obtain ⟨task, live, semaphores, current, pidGlobal⟩ := apart
  have alive (t : Task) (h : c.live t) : c'.task t = c.task t := task t (by grind)
  constructor
  case saved =>
    intro t liveT
    rw [live] at liveT
    have fits := good.saved t liveT
    rw [alive t liveT]
    cases kEsp : (c.task t).kEsp <;> simp only [kEsp, Fits] at fits ⊢
    rw [semaphores, live]
    refine ⟨fits.1, fits.2.1, fun u semid caller liveU kEspU => ?_⟩
    exact fits.2.2 u semid caller liveU (by rwa [alive u liveU] at kEspU)
  case valid =>
    intro h t home
    exact (valid_congr h live semaphores current).mpr (good.valid h t ((homes h t).mp home))
  all_goals
    obtain ⟨idle, positive, distinct, fresh, directory, running, reading, started, -, -⟩ := good
    simp only [live, pidGlobal, current]
    grind

theorem Apart.inCall {fill : Task} {c c' : Core} (apart : Apart fill c c') (dead : c.live fill = false)
    (call : c.InCall) : c'.InCall := by
  obtain ⟨task, live, semaphores, current, pidGlobal⟩ := apart
  obtain ⟨alive, other, user, run⟩ := call
  have same : c'.task c.current = c.task c.current := task _ (by grind)
  refine ⟨by rw [live, current]; exact alive, by rw [current]; exact other, ?_, ?_⟩
  · rw [ct, current, same]; exact user
  · rw [ct, current, same]; exact run

/-- The PCB in hand becomes a live task with a new PID. -/
theorem Good.nameChild {c : Core} (good : c.Good) (call : c.InCall) {fill : Task} (dead : c.live fill = false)
    (positive : 0 < c.pidGlobal) (directory : (c.task fill).dirPagesBaseAddr.isSome) :
    ((c.nameChild fill).setTask fill fun ts => { ts with currentState := .stReady }).Good := by
  have other : fill ≠ c.current := fun e => by simp [e, call.live] at dead
  have liveness (t : Task) : (c.nameChild fill).live t = (decide (t = fill) || c.live t) := by
    simp only [Core.nameChild, setTask_live, Function.update_apply]
    by_cases same : t = fill <;> simp [same]
  have alive : c.live c.current := call.live
  obtain ⟨idle, positives, distinct, fresh, directories, running, reading, started, saved, valid⟩ := good
  have next : int32 (c.pidGlobal + 1) < 2147483648 ∧ (0 < int32 (c.pidGlobal + 1) →
      int32 (c.pidGlobal + 1) = c.pidGlobal + 1) := by
    by_cases last : c.pidGlobal = 2147483647
    · rw [last]; decide
    · rw [int32_of_range (by omega) (by omega)]; omega
  constructor
  case saved =>
    intro t live
    rw [setTask_live, liveness] at live
    by_cases same : t = fill
    · subst same
      simp [Core.nameChild, Fits]
    · have live : c.live t := by simpa [same] using live
      have fits := saved t live
      simp only [Core.nameChild, setTask_task, same, if_false]
      cases kEsp : (c.task t).kEsp <;> simp only [kEsp, Fits] at fits ⊢
      refine ⟨fits.1, fits.2.1, fun u semid caller liveU kEspU => ?_⟩
      by_cases sameU : u = fill
      · simp [sameU] at kEspU
      · exact fits.2.2 u semid caller (by simpa [Function.update_apply, sameU] using liveU)
          (by simpa [sameU] using kEspU)
  case valid =>
    intro h t home
    by_cases same : t = fill
    · subst same
      cases h <;> simp [Home, Core.nameChild] at home
      case fills u =>
        rw [← home]
        exact .inr rfl
      all_goals trivial
    · have old := valid h t (by
        cases h <;> simpa [Home, Core.nameChild, same, Function.update_apply] using home)
      cases h <;> simp [Valid, liveness] at old ⊢
      case blockedThreads i => exact old
      all_goals exact old.elim (fun live => .inl (.inr live)) .inr
  all_goals
    simp only [setTask_live, setTask_task, Core.nameChild, setTask_pidGlobal, setTask_current]
    grind

/-- A semaphore changes: a slot that becomes free has no sleeper and no destroyer. -/
theorem Good.setSem {c : Core} (good : c.Good) (i : SemIndex) (f : Semaphore → Semaphore)
    (valid : (f (c.semaphores i)).free = false ∨ ∀ t, ¬ c.Home none (.blockedThreads i) t)
    (saved : ∀ t semid caller, c.live t → (c.task t).kEsp = .semDestroy i semid caller →
      (f (c.semaphores i)).free = false ∧ (f (c.semaphores i)).creatorPID = -1) :
    (c.setSem i f).Good := by
  refine { good with saved := fun t live => ?_, valid := fun h t home => ?_ }
  · have fits := good.saved t live
    simp only [setSem_task]
    cases kEsp : (c.task t).kEsp <;> simp only [kEsp, Fits] at fits ⊢
    case semDestroy j semid caller =>
      refine ⟨?_, ?_, fits.2.2⟩
      all_goals
        by_cases same : j = i
        · subst same
          have := saved t semid caller live kEsp
          simp [this]
        · simp [same, fits]
  · have old := good.valid h t home
    cases h <;> try exact old
    case blockedThreads j =>
      by_cases same : j = i
      · subst same
        have := valid.resolve_right fun none => none t home
        simp [Valid, this]
      · simpa [Valid, same] using old

/-- No task is in the wake-up loop of the semaphore. -/
def Unmarked (c : Core) (i : SemIndex) : Prop :=
  ∀ t semid caller, c.live t → (c.task t).kEsp ≠ .semDestroy i semid caller

theorem Good.unmarked {c : Core} (good : c.Good) {i : SemIndex}
    (other : (c.semaphores i).creatorPID ≠ -1) : c.Unmarked i := fun t semid caller live kEsp => by
  have fits := good.saved t live
  simp only [kEsp, Fits] at fits
  exact other fits.2.1

/-- A live task is never the creator of a semaphore that is being destroyed. -/
theorem Good.pid_ne {c : Core} (good : c.Good) {t : Task} (live : c.live t) : (c.task t).pid ≠ -1 := by
  have := good.positive t live
  have := good.idle
  by_cases same : t = idleTask
  · subst same; omega
  · have := good.positive t live same; omega

end Core

namespace Kernel

variable {k : Kernel} {t u : Task} {out : Option Task}

theorem Sound.sameTasks (sound : k.Sound out) {c : Core} (same : k.core.SameTasks c) :
    (k.setCore c).Sound out :=
  ⟨same.good sound.good, by simpa [same.home] using sound.placed⟩

/-- A call of the scheduler. -/
theorem Sound.sched (sound : k.Sound none) (kont : Kont) (leaves : k.Leaves)
    (other : k.core.current ≠ idleTask ∨ kont = .user) (awake : k.core.ct.currentState ≠ .stBlocked)
    (fits : k.core.live k.core.current → k.core.Fits k.core.current kont)
    (reads : k.core.live k.core.current → k.core.ct.currentState = .stReadblocked →
      ∃ b maxchars, kont = .read b maxchars) : (k.sched kont).Inv := by
  have saved := sound.save (fun ts => { ts with kEsp := kont }) (fun _ => ⟨rfl, rfl, rfl, rfl⟩) other
    awake fits
  refine saved.dispatch ?_ ?_
  · simpa [Leaves, Core.ct] using leaves
  · simpa [Core.ct] using reads

theorem Sound.schedCall (sound : k.Sound none) (call : k.core.InCall) (kont : Kont)
    (fits : k.core.Fits k.core.current kont) : (k.sched kont).Inv :=
  sound.sched kont (.inl call.live) (.inl call.task) (by simp [call.run]) (fun _ => fits)
    (by simp [call.run])

theorem Sound.parkCall (sound : k.Sound none) (call : k.core.InCall) (kont : Kont)
    (fits : k.core.Fits k.core.current kont) (valid : ∀ h, kont.waitHead = some h → k.core.Valid h) :
    (k.park kont).dispatch.Inv := by
  refine (sound.park call kont fits valid).dispatch (.inl ?_) ?_
  · simpa using call.live
  · simp [Core.ct]

/-- A system call returns. -/
theorem Sound.sysReturn (sound : k.Sound none) (live : k.core.live k.core.current)
    (run : k.core.ct.currentState = .stRun) (v : Option Int) : (k.sysReturn v).Inv := by
  have saved := sound.save (fun ts => { ts with kEsp := .user, eax := v }) (fun _ => ⟨rfl, rfl, rfl, rfl⟩)
    (.inr rfl) (by simp [run]) (by simp [Core.Fits])
  refine ⟨saved, ⟨live, .inl ?_⟩⟩
  have run : (k.core.task k.core.current).currentState = .stRun := run
  simp [Core.sysReturn, Core.ct, run]

theorem Sound.returnCall (sound : k.Sound none) (call : k.core.InCall) (v : Option Int) :
    (k.sysReturn v).Inv := sound.sysReturn call.live call.run v

/-- Waking another task leaves the system call of the running one alone. -/
theorem inCall_wake (call : k.core.InCall) (other : t ≠ k.core.current) : (k.wake t).core.InCall := by
  obtain ⟨live, task, user, run⟩ := call
  refine ⟨by simpa using live, by simpa using task, ?_, ?_⟩
  · simpa [Core.ct, Ne.symm other] using user
  · simpa [Core.ct, Ne.symm other] using run

theorem Inv.run (inv : k.Inv) (user : k.core.InUser) : k.core.ct.currentState = .stRun := by
  rcases inv.between.state with run | ⟨_, b, maxchars, reading⟩
  · exact run
  · rw [Core.InUser, reading] at user
    contradiction

theorem Inv.inCall (inv : k.Inv) (user : k.core.InUser) (task : k.core.current ≠ idleTask) :
    k.core.InCall := ⟨inv.between.live, task, user, inv.run user⟩

theorem Inv.sameTasks (inv : k.Inv) {c : Core} (same : k.core.SameTasks c) : (k.setCore c).Inv := by
  refine ⟨inv.toSound.sameTasks same, ?_⟩
  obtain ⟨task, live, _, current, _⟩ := same
  obtain ⟨alive, state⟩ := inv.between
  simp only [Core.ct] at state
  refine ⟨?_, ?_⟩ <;> simp only [setCore_core, Core.ct, task, live, current]
  · exact alive
  · exact state

/-- A reader gets the processor with a key press, wherever it was in its loop. -/
theorem Sound.switch (sound : k.Sound none) (nt : Task) (alive : k.core.live k.core.current)
    (stops : ∀ t, k.core.live t → (k.core.task t).currentState ≠ .stRun) (live : k.core.live nt)
    (state : (k.core.task nt).currentState = .stReadblocked) (reads : ∀ t, k.core.live t →
      (k.core.task t).currentState = .stReadblocked → ∃ b maxchars, (k.core.task t).kEsp = .read b maxchars) :
    (k.switch nt).Inv := by
  obtain ⟨good, placed⟩ := sound
  refine ⟨⟨?_, placed.congr fun j u => ?_⟩, live, .inr ⟨state, reads nt live state⟩⟩
  · exact good.switch nt _ k.core.tickCounter (.inl alive) (fun t liveT run => absurd run (stops t liveT))
      fun t liveT stateT _ => reads t liveT stateT
  · cases j <;> simp [Core.Home, Kernel.switch]

theorem Inv.keyboardRoutine (inv : k.Inv) (user : k.core.InUser) (readInp : UInt8) :
    (k.keyboardRoutine readInp).Inv := by
  unfold Kernel.keyboardRoutine
  cases keyChar readInp with
  | none => exact inv
  | some charPrint =>
    let pressed := k.setCore { k.core with kbBuffer := k.core.kbBuffer.press charPrint }
    have sound : pressed.Inv := inv.sameTasks ⟨rfl, rfl, rfl, rfl, rfl⟩
    have run : pressed.core.ct.currentState = .stRun := inv.run user
    dsimp only
    split
    · exact sound
    · rename_i nt rest first
      have home := (sound.placed.mem .readBlocked nt).mp (by
        rw [show pressed.queues .readBlocked = nt :: rest from first]
        exact List.mem_cons_self)
      have other : nt ≠ pressed.core.current := by
        rintro rfl
        have := home.2
        simp [Core.ct] at run
        simp [run] at this
      have alive := sound.between.live
      refine (sound.yield fun _ => alive).switch nt (by simpa using alive)
        (fun t live => sound.yield_not_run (by simpa using live)) (by simpa using home.1) ?_ ?_
      · simp [yield_task, other, home.2]
      · intro t live state
        exact sound.yield_reading (by simpa using live) state (by simp [run])

theorem Inv.clockRoutine (inv : k.Inv) (user : k.core.InUser) : k.clockRoutine.Inv := by
  let ticked := k.setCore { k.core with
    zeosTick := int32 (k.core.zeosTick + 10)
    tickCounter := if 0 < k.core.tickCounter then k.core.tickCounter - 1 else k.core.tickCounter }
  have sound : ticked.Inv := inv.sameTasks ⟨rfl, rfl, rfl, rfl, rfl⟩
  have run : ticked.core.ct.currentState = .stRun := inv.run user
  show Inv (if ticked.core.tickCounter ≤ 0 then ticked.sched .user else ticked)
  by_cases due : ticked.core.tickCounter ≤ 0
  · rw [if_pos due]
    exact sound.sched .user (.inl sound.between.live) (.inr rfl) (by simp [run]) (by simp [Core.Fits])
      (by simp [run])
  · rwa [if_neg due]

theorem Sound.setSem (sound : k.Sound out) (i : SemIndex) (f : Semaphore → Semaphore)
    (valid : (f (k.core.semaphores i)).free = false ∨ ∀ t, ¬ k.core.Home none (.blockedThreads i) t)
    (saved : ∀ t semid caller, k.core.live t → (k.core.task t).kEsp = .semDestroy i semid caller →
      (f (k.core.semaphores i)).free = false ∧ (f (k.core.semaphores i)).creatorPID = -1) :
    (k.setSem i f).Sound out :=
  ⟨sound.good.setSem i f valid saved, sound.placed.congr fun j u => by cases j <;> simp [Core.Home]⟩

theorem inCall_setSem (call : k.core.InCall) (i : SemIndex) (f : Semaphore → Semaphore) :
    (k.setSem i f).core.InCall := ⟨call.live, call.task, call.user, call.run⟩

theorem home_eq_nil (sound : k.Sound out) {h : Head} (empty : k.queues h = []) (t : Task) :
    ¬ k.core.Home out h t := by
  rw [← sound.placed.mem, empty]
  simp

theorem Sound.first_blocked (sound : k.Sound none) {i : SemIndex} {rest : List Task}
    (first : k.queues (.blockedThreads i) = t :: rest) :
    k.core.live t ∧ (k.core.task t).currentState = .stBlocked ∧ (k.core.task t).kEsp = .semWait i :=
  (sound.placed.mem (.blockedThreads i) t).mp (by simp [first])

/-- The first sleeper of a semaphore is woken in the middle of a call. -/
theorem Sound.wakeFirst (sound : k.Sound none) (call : k.core.InCall) {i : SemIndex} {rest : List Task}
    (first : k.queues (.blockedThreads i) = t :: rest) :
    (k.wake t).Sound none ∧ (k.wake t).core.InCall := by
  obtain ⟨live, state, _⟩ := sound.first_blocked first
  refine ⟨sound.wake live state, inCall_wake call ?_⟩
  rintro rfl
  have run := call.run
  simp [Core.ct, state] at run

/-- Counting leaves the rest of the slot alone. -/
theorem Sound.countSem (sound : k.Sound out) {i : SemIndex} (free : (k.core.semaphores i).free = false)
    (value : Int) : (k.setSem i fun m => { m with value }).Sound out := by
  refine sound.setSem i _ (.inl free) fun t semid caller live kEsp => ?_
  have fits := sound.good.saved t live
  simp only [kEsp, Core.Fits] at fits
  exact ⟨fits.1, fits.2.1⟩

section Cases

variable {k' : Kernel}

/-- `sys_semWait` is refused, or it counts down and sleeps when the counter is negative. -/
theorem sysSemWait_cases (k : Kernel) (semid : Int) : (∃ v, k.sysSemWait semid = k.sysReturn v) ∨
    ∃ i value, (k.core.semaphores i).free = false ∧
      (k.sysSemWait semid = ((k.setSem i fun m => { m with value }).park (.semWait i)).dispatch ∨
      ∃ v, k.sysSemWait semid = (k.setSem i fun m => { m with value }).sysReturn v) := by
  unfold sysSemWait
  split
  · exact .inl ⟨_, rfl⟩
  split
  · exact .inl ⟨_, rfl⟩
  rename_i i found
  split
  · exact .inl ⟨_, rfl⟩
  rename_i used
  refine .inr ⟨i, int32 ((k.core.semaphores i).value - 1), by simpa using used, ?_⟩
  dsimp only
  split
  · exact .inl rfl
  · exact .inr ⟨_, rfl⟩

/-- `sys_semSignal` is refused, or it counts up and wakes the first sleeper. -/
theorem sysSemSignal_cases {semid : Int} (done : k.sysSemSignal semid = .ok k') : (∃ v, k' = k.sysReturn v) ∨
    ∃ i value, (k.core.semaphores i).free = false ∧
      ((∃ t rest, (k.setSem i fun m => { m with value }).queues (.blockedThreads i) = t :: rest ∧
        k' = ((k.setSem i fun m => { m with value }).wake t).sched (.semSignal i)) ∨
      ∃ v, k' = (k.setSem i fun m => { m with value }).sysReturn v) := by
  unfold sysSemSignal at done
  split at done
  · exact .inl ⟨_, (Except.ok.inj done).symm⟩
  split at done
  · exact .inl ⟨_, (Except.ok.inj done).symm⟩
  rename_i i found
  split at done
  · exact .inl ⟨_, (Except.ok.inj done).symm⟩
  rename_i used
  refine .inr ⟨i, int32 ((k.core.semaphores i).value + 1), by simpa using used, ?_⟩
  dsimp only at done
  split at done
  · split at done
    · contradiction
    · rename_i t rest first
      exact .inl ⟨t, rest, first, (Except.ok.inj done).symm⟩
  · exact .inr ⟨_, (Except.ok.inj done).symm⟩

/-- `sys_read` is refused, or the caller lines up and reads when it is the first. -/
theorem sysRead_cases {b : DWord} {maxchars : Int} (done : k.sysRead b maxchars = .ok k') :
    (∃ v, k' = k.sysReturn v) ∨ 0 ≤ maxchars ∧
      let entered := k.move k.core.current .readBlocked
      ((entered.queues .readBlocked).head? ≠ some entered.core.current ∧ k' = entered.sched (.read b maxchars) ∨
        entered.readWait b maxchars = .ok k') := by
  unfold sysRead at done
  split at done
  · exact .inl ⟨_, (Except.ok.inj done).symm⟩
  split at done
  · exact .inl ⟨_, (Except.ok.inj done).symm⟩
  rename_i size
  split at done
  · exact .inl ⟨_, (Except.ok.inj done).symm⟩
  refine .inr ⟨by omega, ?_⟩
  dsimp only at done ⊢
  split at done
  · rename_i behind
    exact .inl ⟨behind, (Except.ok.inj done).symm⟩
  · exact .inr done

/-- `sys_fork` finds no PCB, or it takes the first one, with or without memory for the child. -/
theorem sysFork_cases (done : k.sysFork = .ok k') : (∃ v, k' = k.sysReturn v) ∨
    ∃ fill rest core, k.queues .freequeue = fill :: rest ∧
      let taken := (k.dequeue .freequeue fill).setTask fill fun _ => k.core.ct
      (memory (taken.core.forkMemory fill) = .ok (true, core) ∧ k' = (taken.setCore core).startChild fill ∨
        memory (taken.core.forkMemory fill) = .ok (false, core) ∧
          k' = ((taken.setCore core).enqueue .freequeue fill).sysReturn (some (-eNOMEM))) := by
  unfold sysFork at done
  split at done
  · exact .inl ⟨_, (Except.ok.inj done).symm⟩
  rename_i fill rest first
  obtain ⟨⟨complete, core⟩, mem, done⟩ := Outcome.bind_ok.mp done
  refine .inr ⟨fill, rest, core, first, ?_⟩
  cases complete with
  | true => exact .inl ⟨mem, (Except.ok.inj done).symm⟩
  | false => exact .inr ⟨mem, (Except.ok.inj done).symm⟩

/-- `sys_create_thread` is refused, or it takes the first PCB. -/
theorem sysCreateThread_cases {function stack parameter : DWord} (done : k.sysCreateThread function stack parameter = .ok k') :
    (∃ v, k' = k.sysReturn v) ∨ ∃ fill rest core, k.queues .freequeue = fill :: rest ∧
      let taken := (k.dequeue .freequeue fill).setTask fill fun _ => k.core.ct
      memory (taken.core.threadMemory fill stack parameter) = .ok core ∧ k' = (taken.setCore core).startChild fill := by
  unfold sysCreateThread at done
  split at done
  · exact .inl ⟨_, (Except.ok.inj done).symm⟩
  rename_i fill rest first
  split at done
  · exact .inl ⟨_, (Except.ok.inj done).symm⟩
  split at done
  · exact .inl ⟨_, (Except.ok.inj done).symm⟩
  obtain ⟨core, mem, done⟩ := Outcome.bind_ok.mp done
  exact .inr ⟨fill, rest, core, first, mem, (Except.ok.inj done).symm⟩

end Cases
theorem sysSemCreate_inv (sound : k.Sound none) (call : k.core.InCall) (initialValue : Int) :
    (k.sysSemCreate initialValue).Inv := by
  unfold sysSemCreate
  split
  · exact sound.returnCall call _
  · rename_i i found
    have free : (k.core.semaphores i).free = true := by simpa using List.find?_some found
    have unused (t : Task) : ¬ k.core.Home none (.blockedThreads i) t := fun home => by
      have := sound.good.valid _ t home
      simp [Core.Valid, free] at this
    have filled : (k.setCore (k.core.fillSlot i initialValue)).Sound none := by
      have counted : (k.setCore { k.core with semIDglobal := int32 (k.core.semIDglobal + 1) }).Sound none :=
        sound.sameTasks ⟨rfl, rfl, rfl, rfl, rfl⟩
      refine counted.setSem i _ (.inl rfl) fun t semid caller live kEsp => ?_
      have fits := sound.good.saved t live
      have kEsp : (k.core.task t).kEsp = .semDestroy i semid caller := kEsp
      simp [kEsp, Core.Fits, free] at fits
    have cleared : ((k.setCore (k.core.fillSlot i initialValue)).clear (.blockedThreads i)).Sound none := by
      refine ⟨filled.good, (filled.placed.clear _).congr fun j u => ?_⟩
      refine ⟨fun old => old.1, fun home => ⟨home, ?_⟩⟩
      rintro rfl
      exact unused u home
    exact cleared.sysReturn call.live call.run _

theorem sysSemWait_inv (sound : k.Sound none) (call : k.core.InCall) (semid : Int) :
    (k.sysSemWait semid).Inv := by
  rcases sysSemWait_cases k semid with ⟨v, done⟩ | ⟨i, value, free, done | ⟨v, done⟩⟩ <;> rw [done]
  · exact sound.returnCall call _
  · refine (sound.countSem free value).parkCall (inCall_setSem call i _) _ trivial fun h waits => ?_
    cases waits
    simp [Core.Valid, free]
  · exact (sound.countSem free value).returnCall (inCall_setSem call i _) _

/-- A kernel that a call left, if it left one, satisfies the invariant. -/
def Leads (x : Except Fault Kernel) : Prop := ∀ k, x = .ok k → k.Inv

theorem leads_ok (inv : k.Inv) : Leads (.ok k) := by rintro _ ⟨⟩; exact inv

theorem sysSemSignal_inv (sound : k.Sound none) (call : k.core.InCall) (semid : Int) :
    Leads (k.sysSemSignal semid) := by
  intro k' done
  rcases sysSemSignal_cases done with ⟨v, rfl⟩ | ⟨i, value, free, ⟨t, rest, first, rfl⟩ | ⟨v, rfl⟩⟩
  · exact sound.returnCall call _
  · obtain ⟨woken, call⟩ := (sound.countSem free value).wakeFirst (inCall_setSem call i _) first
    exact woken.schedCall call _ trivial
  · exact (sound.countSem free value).returnCall (inCall_setSem call i _) _

/-- The destroyer marks the slot. -/
theorem Sound.markSem (sound : k.Sound out) {i : SemIndex} (free : (k.core.semaphores i).free = false)
    (unmarked : k.core.Unmarked i) : (k.setSem i fun m => { m with creatorPID := -1 }).Sound out :=
  sound.setSem i _ (.inl free) fun t semid caller live kEsp => absurd kEsp (unmarked t semid caller live)

theorem fits_destroyer {i : SemIndex} {semid : Int} {caller : DestroyCaller}
    (free : (k.core.semaphores i).free = false) (unmarked : k.core.Unmarked i) :
    ((k.setSem i fun m => { m with creatorPID := -1 }).wake t).core.Fits u (.semDestroy i semid caller) := by
  refine ⟨by simpa using free, by simp, fun v semid caller live kEsp => ?_⟩
  have unmarked := unmarked v semid caller (by simpa using live)
  simp only [wake_core, Core.setTask_task, setSem_core, Core.setSem_task] at kEsp
  split at kEsp
  · rename_i same; subst same; exact absurd kEsp unmarked
  · exact absurd kEsp unmarked

theorem Sound.unmarked (sound : k.Sound out) (call : k.core.InCall) {i : SemIndex}
    (creator : k.core.ct.pid = (k.core.semaphores i).creatorPID) : k.core.Unmarked i :=
  sound.good.unmarked (by rw [← creator]; exact sound.good.pid_ne call.live)

/-- A round of the wake-up loop leaves the destroyer asleep in it. -/
theorem Sound.destroyRound (sound : k.Sound none) (call : k.core.InCall) {i : SemIndex} (semid : Int)
    (caller : DestroyCaller) (free : (k.core.semaphores i).free = false) (unmarked : k.core.Unmarked i)
    {k' : Kernel} (round : k.destroyRound i semid caller = some k') : k'.Inv := by
  unfold Kernel.destroyRound at round
  split at round
  · contradiction
  rename_i t rest first
  cases round
  obtain ⟨woken, call⟩ := (sound.markSem free unmarked).wakeFirst (inCall_setSem call i _) first
  exact woken.schedCall call _ (fits_destroyer free unmarked)

/-- When nothing waits, the slot is given back. -/
theorem Sound.freeSem (sound : k.Sound none) {i : SemIndex} {semid : Int} {caller : DestroyCaller}
    (unmarked : k.core.Unmarked i) (round : k.destroyRound i semid caller = none) :
    (k.freeSem i).Sound none := by
  unfold Kernel.destroyRound at round
  split at round
  · rename_i empty
    exact sound.setSem i _ (.inr (home_eq_nil sound empty)) fun t semid caller live kEsp =>
      absurd kEsp (unmarked t semid caller live)
  · contradiction

/-- The loop of `sys_semDestroy_extended` ends in the middle of a call, or suspended. -/
def LoopLeads (x : Option Int × Kernel) : Prop :=
  (x.1.isSome → x.2.Sound none ∧ x.2.core.InCall) ∧ (x.1 = none → x.2.Inv)

theorem Sound.destroySlots (semid : Int) (caller : DestroyCaller) (slots : List SemIndex)
    {k : Kernel} (sound : k.Sound none) (call : k.core.InCall) :
    LoopLeads (Kernel.destroySlots semid caller slots k) := by
  induction slots generalizing k with
  | nil => exact ⟨fun _ => ⟨sound, call⟩, by simp [Kernel.destroySlots]⟩
  | cons i slots ih =>
    unfold Kernel.destroySlots
    split
    · split
      · exact ⟨fun _ => ⟨sound, call⟩, by simp⟩
      rename_i free
      split
      · exact ⟨fun _ => ⟨sound, call⟩, by simp⟩
      rename_i creator
      have unmarked := sound.unmarked call (by simpa using creator)
      split
      · rename_i round
        exact ⟨by simp, fun _ => sound.destroyRound call semid caller (by simpa using free) unmarked round⟩
      · rename_i round
        exact ih (sound.freeSem unmarked round) (inCall_setSem call i _)
    · exact ih sound call

theorem Sound.destroyFrom (sound : k.Sound none) (call : k.core.InCall) (i : SemIndex) (semid : Int)
    (caller : DestroyCaller) (free : (k.core.semaphores i).free = false) (unmarked : k.core.Unmarked i) :
    LoopLeads (k.destroyFrom i semid caller) := by
  unfold Kernel.destroyFrom
  split
  · rename_i round
    exact ⟨by simp, fun _ => sound.destroyRound call semid caller free unmarked round⟩
  · rename_i round
    exact (sound.freeSem unmarked round).destroySlots semid caller _ (inCall_setSem call i _)

theorem sysSemDestroy_inv (sound : k.Sound none) (call : k.core.InCall) (semid : Int) :
    (k.sysSemDestroy semid).Inv := by
  unfold sysSemDestroy
  split
  · exact sound.returnCall call _
  have leads := sound.destroySlots semid .syscall (List.finRange numSems) call
  split <;> rename_i result
  · obtain ⟨sound, call⟩ := leads.1 (by simp [result])
    rw [result] at sound call
    exact sound.returnCall call _
  · have inv := leads.2 (by simp [result])
    rwa [result] at inv

theorem exitMemory_sameTasks {c c' : Core} (done : memory c.exitMemory = .ok c') : c.SameTasks c' := by
  rw [memory, Outcome.mapError_ok, Core.exitMemory] at done
  obtain ⟨ctTP, _, done⟩ := Outcome.bind_ok.mp done
  dsimp only at done
  split at done
  · obtain ⟨mm, _, done⟩ := Outcome.bind_ok.mp done
    obtain ⟨zone, _, done⟩ := Outcome.bind_ok.mp done
    obtain ⟨mm, _, done⟩ := Outcome.bind_ok.mp done
    cases done
    exact ⟨rfl, rfl, rfl, rfl, rfl⟩
  · cases done
    exact ⟨rfl, rfl, rfl, rfl, rfl⟩

/-- `ct` is leaving: it is no longer live, not in a queue, and still the running task. -/
structure Leaving (k : Kernel) (ct : Task) : Prop extends Sound k (some ct) where
  current : k.core.current = ct
  task : ct ≠ idleTask
  gone : k.core.live ct = false
  pid : (k.core.task ct).pid < 0

theorem leaveFather_core {k k' : Kernel} {ct : Task} {father : Option Task}
    (left : k.leaveFather ct father = .ok k') : k'.core = k.core := by
  unfold leaveFather at left
  split at left
  · cases left; rfl
  · split at left
    · cases left; rfl
    · contradiction

/-- The PCB is cleared and taken from its father's list. -/
theorem Sound.clearTask (sound : k.Sound none) (call : k.core.InCall) {k' : Kernel}
    (left : (k.setCore k.core.clearTask).leaveFather k.core.current k.core.ct.pare = .ok k') :
    k'.Leaving k.core.current := by
  obtain ⟨good, placed⟩ := sound
  obtain ⟨live, other, user, run⟩ := call
  have run : (k.core.task k.core.current).currentState = .stRun := run
  have cleared : k.core.clearTask.Good := by
    obtain ⟨idle, positive, distinct, fresh, directory, running, reading, started, saved, valid⟩ := good
    constructor <;> simp only [Core.clearTask, Core.setTask_task, Core.setTask_live,
      Core.setTask_pidGlobal, Core.setTask_current, Function.update_apply]
    case saved =>
      intro t liveT
      have other : t ≠ k.core.current := by grind
      have liveT : k.core.live t := by simpa [other] using liveT
      have fits := saved t liveT
      simp only [other, if_false]
      cases kEsp : (k.core.task t).kEsp <;> simp only [kEsp, Core.Fits] at fits ⊢
      refine ⟨fits.1, fits.2.1, fun u semid caller liveU kEspU => ?_⟩
      have otherU : u ≠ k.core.current := by
        rintro rfl
        simp at liveU
      exact fits.2.2 u semid caller (by simpa [Function.update_apply, otherU] using liveU)
        (by simpa [otherU] using kEspU)
    case valid =>
      intro h t home
      by_cases same : t = k.core.current
      · subst same
        cases h <;> simp [Core.Home] at home
        trivial
      · have old := valid h t (by cases h <;> simpa [Core.Home, same] using home)
        cases h <;> simp [Core.Valid, Function.update_apply] at old ⊢
        all_goals first | exact old | grind
    all_goals grind
  have core : k'.core = k.core.clearTask := leaveFather_core left
  refine ⟨⟨by rwa [core], ?_⟩, by rw [core]; rfl, other, by rw [core]; simp [Core.clearTask],
    by rw [core]; simp [Core.clearTask]⟩
  have removed : Placed k'.queues fun j u => k.core.Home none j u ∧
      ¬ (u = k.core.current ∧ k.core.ct.pare.map .fills = some j) := by
    unfold leaveFather at left
    split at left
    · rename_i father pare
      cases left
      exact (placed_dequeue placed _ _).congr fun j u => by simp [pare, and_comm, eq_comm]
    · rename_i pare
      split at left
      · cases left
        exact placed.congr fun j u => by simp [pare]
      · contradiction
  refine removed.congr fun j u => ?_
  rw [core]
  by_cases same : u = k.core.current
  · subst same
    cases j <;> simp [Core.Home, Core.clearTask, run, live, Core.ct]
  · cases j <;> simp [Core.Home, Core.clearTask, same, Ne.symm same]

/-- The idle task becomes the father of a task. -/
theorem adopted_good {c : Core} (good : c.Good) (t : Task) :
    (c.setTask t fun ts => { ts with pare := idleTask }).Good := by
  have same (u : Task) : ((c.setTask t fun ts => { ts with pare := idleTask }).task u).kEsp =
      (c.task u).kEsp := by simp; grind
  constructor
  case saved =>
    intro u live
    rw [same]
    exact (Core.fits_congr _ (by rfl) (by rfl) same).mpr (good.saved u live)
  case valid =>
    intro h u home
    refine (Core.valid_congr (c := c) h (by rfl) (by rfl) (by rfl)).mpr ?_
    cases h
    case fills v =>
      by_cases here : u = t
      · subst here
        simp [Core.Home] at home
        simp [Core.Valid, ← home.2, good.idle.1]
      · exact good.valid (.fills v) u (by simpa [Core.Home, here] using home)
    all_goals
      refine good.valid _ u ?_
      simp [Core.Home] at home ⊢
      grind
  all_goals
    obtain ⟨idle, positive, distinct, fresh, directory, running, reading, started, -, -⟩ := good
    simp only [Core.setTask_task, Core.setTask_live, Core.setTask_pidGlobal, Core.setTask_current]
    grind

/-- What one round of the adoption keeps: the children still to come are in no list. -/
theorem adopt_round {ct child : Task} {rest : List Task} (task : ct ≠ idleTask) (good : k.core.Good)
    (nodup : (child :: rest).Nodup)
    (children : ∀ t ∈ child :: rest, k.core.live t ∧ (k.core.task t).pare = some ct)
    (placed : Placed k.queues fun j u => k.core.Home out j u ∧ ¬ (j = .fills ct ∧ u ∈ child :: rest)) :
    (k.adoptChild child).core.Good ∧
      (∀ t ∈ rest, (k.adoptChild child).core.live t ∧ ((k.adoptChild child).core.task t).pare = some ct) ∧
      Placed (k.adoptChild child).queues fun j u =>
        (k.adoptChild child).core.Home out j u ∧ ¬ (j = .fills ct ∧ u ∈ rest) := by
  unfold adoptChild
  obtain ⟨absent, nodup⟩ := List.nodup_cons.mp nodup
  obtain ⟨live, pare⟩ := children child (by simp)
  refine ⟨adopted_good good child, fun t mem => ?_, ?_⟩
  · have other : t ≠ child := fun e => absent (e ▸ mem)
    simpa [other] using children t (List.mem_cons_of_mem _ mem)
  · have new : ¬ (k.core.Home out (.fills idleTask) child ∧ ¬ (Head.fills idleTask = .fills ct ∧
        child ∈ child :: rest)) := by simp [Core.Home, pare, task]
    refine (placed_enqueue (k := k.setTask child fun t => { t with pare := idleTask }) placed new).congr
      fun j u => ?_
    by_cases same : u = child
    · subst same
      cases j <;> simp [Core.Home, live, pare, absent, eq_comm]
    · cases j <;> simp [Core.Home, same]

theorem Leaving.adopt {ct : Task} (leaving : k.Leaving ct) :
    (k.adopt ct).Leaving ct ∧ (k.adopt ct).queues (.fills ct) = [] := by
  obtain ⟨⟨good, placed⟩, current, task, gone, pid⟩ := leaving
  have loop (rest : List Task) : ∀ k : Kernel, k.core.current = ct → k.core.live ct = false →
      (k.core.task ct).pid < 0 →
      k.core.Good → rest.Nodup → (∀ t ∈ rest, k.core.live t ∧ (k.core.task t).pare = some ct) →
      Placed k.queues (fun j u => k.core.Home (some ct) j u ∧ ¬ (j = .fills ct ∧ u ∈ rest)) →
      k.queues (.fills ct) = [] →
      (rest.foldl adoptChild k).Leaving ct ∧ (rest.foldl adoptChild k).queues (.fills ct) = [] := by
    induction rest with
    | nil =>
      intro k current gone pid good _ _ placed empty
      exact ⟨⟨⟨good, placed.congr fun j u => by simp⟩, current, task, gone, pid⟩, empty⟩
    | cons child rest ih =>
      intro k current gone pid good nodup children placed empty
      obtain ⟨good', children', placed'⟩ := adopt_round task good nodup children placed
      have pid' : ((k.adoptChild child).core.task ct).pid < 0 := by
        simp only [adoptChild, enqueue_core, setTask_core, Core.setTask_task]
        split
        · rename_i same; rwa [← same]
        · exact pid
      exact ih _ current gone pid' good' (List.nodup_cons.mp nodup).2 children' placed'
        (by simpa [adoptChild, enqueue, Function.update_apply, task] using empty)
  refine loop _ (k.clear (.fills ct)) current gone pid good (placed.nodup _) (fun t mem => ?_) ?_ (by simp [clear])
  · exact (placed.mem (.fills ct) t).mp mem
  · refine (placed.clear (.fills ct)).congr fun j u => ?_
    constructor
    · rintro ⟨home, other⟩
      exact ⟨home, fun same => other same.1⟩
    · rintro ⟨home, apart⟩
      refine ⟨home, fun same => apart ⟨same, ?_⟩⟩
      rw [placed.mem, ← same]
      exact home

theorem wake_queues_other {h : Head} (ready : h ≠ .readyqueue) (waits : (k.core.task t).kEsp.waitHead ≠ some h)
    (state : (k.core.task t).currentState.queue ≠ some h) : (k.wake t).queues h = k.queues h := by
  simp only [wake, move, enqueue, setTask_queues, Function.update_of_ne ready, dequeue?_core]
  have drop (x : Kernel) (o : Option Head) (other : o ≠ some h) :
      (x.dequeue? o t).queues h = x.queues h := by
    cases o with
    | none => rfl
    | some j =>
      have : h ≠ j := fun e => other (by rw [e])
      simp [dequeue?, dequeue, Function.update_of_ne this]
  rw [drop _ _ state, drop _ _ waits]

theorem wake_queues_wait {h : Head} (ready : h ≠ .readyqueue) (waits : (k.core.task t).kEsp.waitHead = some h)
    (state : (k.core.task t).currentState.queue ≠ some h) :
    (k.wake t).queues h = (k.queues h).erase t := by
  simp only [wake, move, enqueue, setTask_queues, Function.update_of_ne ready, dequeue?_core]
  cases q : (k.core.task t).currentState.queue with
  | none => simp [dequeue?, waits, dequeue]
  | some j =>
    have : h ≠ j := fun e => state (by rw [q, e])
    simp [dequeue?, waits, dequeue, Function.update_of_ne this]

theorem Leaving.wake {ct : Task} (leaving : k.Leaving ct) (live : k.core.live t)
    (state : (k.core.task t).currentState = .stBlocked) : (k.wake t).Leaving ct :=
  ⟨leaving.toSound.wake live state, by simpa using leaving.current, leaving.task,
    by simpa using leaving.gone, by
      have := leaving.pid
      rw [wake_core, Core.setTask_task]
      split
      · rename_i same; rwa [← same]
      · exact this⟩

theorem Leaving.releaseWaiters {ct : Task} (leaving : k.Leaving ct) (alone : k.queues (.fills ct) = []) :
    (k.releaseWaiters ct).Leaving ct ∧ (k.releaseWaiters ct).queues (.fills ct) = [] ∧
      (k.releaseWaiters ct).queues (.waitList ct) = [] := by
  have loop (rest : List Task) : ∀ k : Kernel, k.Leaving ct → k.queues (.fills ct) = [] →
      k.queues (.waitList ct) = rest → (rest.foldl (fun k t => k.wake t) k).Leaving ct ∧
      (rest.foldl (fun k t => k.wake t) k).queues (.fills ct) = [] ∧
      (rest.foldl (fun k t => k.wake t) k).queues (.waitList ct) = [] := by
    induction rest with
    | nil => exact fun k leaving alone empty => ⟨leaving, alone, empty⟩
    | cons t rest ih =>
      intro k leaving alone waiters
      obtain ⟨live, state, kEsp⟩ := (leaving.placed.mem (.waitList ct) t).mp (by simp [waiters])
      refine ih _ (leaving.wake live state) ?_ ?_
      · rw [wake_queues_other (by simp) (by simp) (by simp), alone]
      · rw [wake_queues_wait (by simp) (by simp [kEsp]) (by simp), waiters]
        simp
  exact loop _ k leaving alone rfl

/-- The PCB goes to the free queue. -/
theorem Leaving.free {ct : Task} (leaving : k.Leaving ct) :
    ((k.setTask ct fun t => { t with currentState := .stFree }).enqueue .freequeue ct).Sound none := by
  obtain ⟨⟨good, placed⟩, rfl, task, gone, _⟩ := leaving
  refine ⟨?_, ?_⟩
  · refine good.restate (f := fun t => { t with currentState := .stFree }) rfl rfl (by simp [task]) (by simp)
      (by simp) (by simp [gone]) (good.saved _) ?_
    intro h home
    cases h <;> simp [Core.Home, gone] at home
    trivial
  · have taken := placed_enqueue (k := k.setTask k.core.current fun t => { t with currentState := .stFree })
      (h := .freequeue) (t := k.core.current) placed (by simp [Core.Home])
    refine taken.congr fun j u => ?_
    by_cases same : u = k.core.current
    · subst same
      cases j <;> simp [Core.Home, gone]
    · cases j <;> simp [Core.Home, same, Ne.symm same]

/-- The processor goes to another task. -/
theorem Leaving.finish {ct : Task} (leaving : k.Leaving ct) (alone : k.queues (.fills ct) = [])
    (released : k.queues (.waitList ct) = []) :
    (((k.setTask ct fun t => { t with currentState := .stFree }).enqueue .freequeue ct).sched .exited).Inv := by
  have freed := leaving.free
  obtain ⟨_, rfl, task, gone, _⟩ := leaving
  refine freed.sched .exited (.inr ⟨by simp [Core.ct], ?_, ?_⟩) (.inl (by simpa using task))
    (by simp [Core.ct]) (by simp [gone]) (by simp [gone])
  · simpa [enqueue, Function.update_apply] using alone
  · simpa [enqueue, Function.update_apply] using released

theorem exitTail_inv (sound : k.Sound none) (call : k.core.InCall) : Leads k.exitTail := by
  intro k' done
  obtain ⟨core, memory, done⟩ := Outcome.bind_ok.mp done
  have same := exitMemory_sameTasks memory
  obtain ⟨left, leave, done⟩ := Outcome.bind_ok.mp done
  cases done
  have leaving : left.Leaving k.core.current := by
    have current : k.core.current = core.current := same.current.symm
    have pare : k.core.ct.pare = core.ct.pare := by simp only [Core.ct, same.task, same.current]
    rw [current, pare] at leave
    rw [current]
    exact (sound.sameTasks same).clearTask (same.inCall call) leave
  obtain ⟨leaving, alone⟩ := leaving.adopt
  obtain ⟨leaving, alone, released⟩ := leaving.releaseWaiters alone
  exact leaving.finish alone released

theorem exitSlots_inv (slots : List SemIndex) {k : Kernel} (sound : k.Sound none)
    (call : k.core.InCall) : Leads (k.exitSlots slots) := by
  induction slots generalizing k with
  | nil => exact exitTail_inv sound call
  | cons j slots ih =>
    unfold Kernel.exitSlots
    split
    · have leads := sound.destroySlots (k.core.semaphores j).id (.exit j) (List.finRange numSems) call
      split <;> rename_i result
      · rw [result] at leads
        exact ih (leads.1 rfl).1 (leads.1 rfl).2
      · rw [result] at leads
        exact leads_ok (leads.2 rfl)
    · exact ih sound call

/-- Fields that only the owner of a PCB looks at. -/
theorem Sound.adjust (sound : k.Sound out) (t : Task) (f : TaskStruct → TaskStruct)
    (keeps : ∀ ts, (f ts).pid = ts.pid ∧ (f ts).dirPagesBaseAddr = ts.dirPagesBaseAddr ∧
      (f ts).pare = ts.pare ∧ (f ts).currentState = ts.currentState ∧ (f ts).kEsp = ts.kEsp) :
    (k.setTask t f).Sound out := by
  obtain ⟨good, placed⟩ := sound
  obtain ⟨pid, dir, pare, state, kEsp⟩ := keeps (k.core.task t)
  have home (j : Head) (u : Task) (out : Option Task) :
      (k.core.setTask t f).Home out j u ↔ k.core.Home out j u := by
    by_cases same : u = t
    · subst same
      cases j <;> simp [Core.Home, state, pare, kEsp]
    · cases j <;> simp [Core.Home, same]
  refine ⟨?_, placed.congr fun j u => (home j u out).symm⟩
  have idle := good.idle
  refine good.restate pid dir (fun same => ?_) (fun live run => ?_) (fun live reading other => ?_)
    (fun live => ?_) (fun live => ?_) fun h there => good.valid h t ((home h t none).mp there)
  · rw [kEsp, state, same]; exact idle.2.2
  · exact good.running t live (state ▸ run)
  · rw [kEsp]; exact good.reading t live (state ▸ reading) other
  · rw [state]; exact good.started t live
  · rw [kEsp]; exact good.saved t live

theorem inCall_adjust (call : k.core.InCall) (t : Task) (f : TaskStruct → TaskStruct)
    (keeps : ∀ ts, (f ts).currentState = ts.currentState ∧ (f ts).kEsp = ts.kEsp) :
    (k.setTask t f).core.InCall := by
  obtain ⟨live, task, user, run⟩ := call
  refine ⟨live, task, ?_, ?_⟩ <;> simp only [Core.ct, setTask_core, Core.setTask_task,
    Core.setTask_current] at * <;> split <;> simp_all

theorem sysBlock_inv (sound : k.Sound none) (call : k.core.InCall) : k.sysBlock.Inv := by
  unfold sysBlock
  split
  · exact sound.parkCall call .block trivial (by simp [Kont.waitHead])
  · refine Sound.returnCall (sound.adjust _ _ fun _ => ?_) (inCall_adjust call _ _ fun _ => ?_) _ <;> simp

theorem sysWaitThread_inv (sound : k.Sound none) (call : k.core.InCall) (pid : Int)
    (found : ∀ t, k.core.taskOf pid = some t → k.core.live t) : (k.sysWaitThread pid).Inv := by
  unfold sysWaitThread
  split
  · exact sound.returnCall call _
  · rename_i bt here
    refine sound.parkCall call _ trivial fun h waits => ?_
    cases waits
    exact .inl (found bt here)

/-- One child is looked at by `sys_unblock`. -/
theorem unblockChild_sound {r : Int × Kernel} (sound : r.2.Sound none) (call : r.2.core.InCall) (pid : Int)
    {child : Task} (live : r.2.core.live child) :
    (unblockChild pid r child).2.Sound none ∧ (unblockChild pid r child).2.core.InCall ∧
      (unblockChild pid r child).2.core.live = r.2.core.live := by
  unfold unblockChild
  split
  · split
    · rename_i state
      refine ⟨sound.wake live state, inCall_wake call ?_, by simp⟩
      rintro rfl
      have run := call.run
      rw [Core.ct, state] at run
      contradiction
    · refine ⟨sound.adjust _ _ fun _ => ?_, inCall_adjust call _ _ fun _ => ?_, rfl⟩ <;> simp
  · exact ⟨sound, call, rfl⟩

theorem Sound.unblockLoop (sound : k.Sound none) (call : k.core.InCall) (pid : Int) :
    let r := (k.queues (.fills k.core.current)).foldl (unblockChild pid) (-1, k)
    r.2.Sound none ∧ r.2.core.InCall := by
  have loop (rest : List Task) : ∀ r : Int × Kernel, r.2.Sound none → r.2.core.InCall →
      (∀ t ∈ rest, r.2.core.live t) → (rest.foldl (unblockChild pid) r).2.Sound none ∧
      (rest.foldl (unblockChild pid) r).2.core.InCall := by
    induction rest with
    | nil => exact fun r sound call _ => ⟨sound, call⟩
    | cons child rest ih =>
      intro r sound call live
      obtain ⟨sound, call, same⟩ := unblockChild_sound sound call pid (live child (by simp))
      exact ih _ sound call fun t mem => by rw [same]; exact live t (List.mem_cons_of_mem _ mem)
  exact loop _ (-1, k) sound call fun t mem => ((sound.placed.mem (.fills k.core.current) t).mp mem).1

theorem sysUnblock_inv (sound : k.Sound none) (call : k.core.InCall) (pid : Int) :
    (k.sysUnblock pid).Inv := by
  obtain ⟨sound, call⟩ := sound.unblockLoop call pid
  exact sound.schedCall call _ trivial

/-- The running task is in `sys_read`. -/
structure Reading (k : Kernel) : Prop extends Sound k none where
  live : k.core.live k.core.current
  task : k.core.current ≠ idleTask
  state : k.core.ct.currentState = .stRun ∨ k.core.ct.currentState = .stReadblocked

theorem readChars_sameTasks {c c' : Core} {b : DWord} {maxchars : Int}
    (done : memory (c.readChars b maxchars) = .ok c') : c.SameTasks c' := by
  have pops (n : Nat) : ∀ (i : Nat) (c c' : Core), c.popChars i n = .ok c' → c.SameTasks c' := by
    induction n with
    | zero => intro i c c' done; cases done; exact ⟨rfl, rfl, rfl, rfl, rfl⟩
    | succ n ih =>
      intro i c c' done
      unfold Core.popChars at done
      split at done
      · obtain ⟨task, live, semaphores, current, pidGlobal⟩ := ih _ _ _ done
        exact ⟨task, live, semaphores, current, pidGlobal⟩
      · contradiction
  rw [memory, Outcome.mapError_ok, Core.readChars] at done
  obtain ⟨popped, pop, copy⟩ := Outcome.bind_ok.mp done
  obtain ⟨mm, _, done⟩ := Outcome.bind_ok.mp copy
  cases done
  obtain ⟨task, live, semaphores, current, pidGlobal⟩ := pops _ _ _ _ pop
  exact ⟨task, live, semaphores, current, pidGlobal⟩

theorem Sound.startSelf (sound : k.Sound none) (live : k.core.live k.core.current)
    (awake : k.core.ct.currentState ≠ .stBlocked) : (k.start k.core.current).Sound none := by
  obtain ⟨good, placed⟩ := sound
  have awake : (k.core.task k.core.current).currentState ≠ .stBlocked := awake
  refine ⟨?_, ?_⟩
  · rw [start_core]
    refine good.restate rfl rfl ?_ (fun _ _ => rfl) (by simp) (by simp) (good.saved _) ?_
    · exact fun idle => ⟨idle ▸ good.idle.2.2.1, .inl rfl⟩
    · intro h home
      cases h <;> simp [Core.Home] at home
      case fills u => exact good.valid (.fills u) _ home
      all_goals trivial
  · rw [start_core]
    unfold start
    split
    · rename_i idle
      refine placed.congr fun j u => ?_
      have state := good.idle.2.2.2
      by_cases same : u = idleTask
      · subst same
        rw [idle]
        cases j <;> simp [Core.Home] <;> grind
      · cases j <;> simp [Core.Home, same, idle]
    · rename_i other
      refine (placed_dequeue? placed _ _).congr fun j u => ?_
      by_cases same : u = k.core.current
      · subst same
        have := good.started _ live
        cases j <;> simp [Core.Home, live, awake]
      · cases j <;> simp [Core.Home, same]

theorem Reading.readWait (reading : k.Reading) (b : DWord) (maxchars : Int) :
    Leads (k.readWait b maxchars) := by
  obtain ⟨sound, live, task, state⟩ := reading
  unfold Kernel.readWait
  split
  · refine leads_ok (sound.sched _ (.inl live) (.inl task) ?_ (by simp [Core.Fits])
      fun _ _ => ⟨b, maxchars, rfl⟩)
    rcases state with state | state <;> simp [state]
  · intro k' done
    obtain ⟨core, memory, done⟩ := Outcome.bind_ok.mp done
    cases done
    have same := readChars_sameTasks memory
    have sound := sound.sameTasks same
    have live : core.live core.current := by rw [same.live, same.current]; exact live
    have state : core.ct.currentState = .stRun ∨ core.ct.currentState = .stReadblocked := by
      simpa only [Core.ct, same.task, same.current] using state
    have started := sound.startSelf live (by rcases state with state | state <;> simp [state])
    exact started.sysReturn (by simpa using live) (by simp [Core.ct]) _

/-- The running task is put into the queue of the readers. -/
theorem Sound.reading (sound : k.Sound none) (call : k.core.InCall) :
    (k.move k.core.current .readBlocked).Reading := by
  obtain ⟨good, placed⟩ := sound
  obtain ⟨live, task, user, run⟩ := call
  have run : (k.core.task k.core.current).currentState = .stRun := run
  refine ⟨⟨?_, ?_⟩, by simpa using live, by simpa using task, .inr (by simp [Core.ct, Head.state])⟩
  · rw [move_core]
    refine good.restate rfl rfl (by simp [task]) (by simp [Head.state]) (by simp) (by simp [Head.state])
      (good.saved _) ?_
    intro h home
    cases h <;> simp [Core.Home, Head.state] at home
    case fills u => exact good.valid (.fills u) _ home
    all_goals trivial
  · refine (placed_move placed (by simp [Core.Home, run])).congr fun j u => ?_
    rw [move_core]
    by_cases same : u = k.core.current
    · subst same
      cases j <;> simp [Core.Home, Head.state, run, live, TaskState.queue]
    · cases j <;> simp [Core.Home, same]

theorem sysRead_inv (sound : k.Sound none) (call : k.core.InCall) (b : DWord) (maxchars : Int) :
    Leads (k.sysRead b maxchars) := by
  have reading := sound.reading call
  intro k' done
  rcases sysRead_cases done with ⟨v, rfl⟩ | ⟨-, ⟨-, rfl⟩ | waits⟩
  · exact sound.returnCall call _
  · refine reading.sched _ (.inl reading.live) (.inl reading.task) ?_ (by simp [Core.Fits]) fun _ _ => ⟨b, maxchars, rfl⟩
    simp [Core.ct, Head.state]
  · exact reading.readWait b maxchars k' waits

theorem forkMemory_apart {fill : Task} {c c' : Core} {done : Bool}
    (obtained : memory (c.forkMemory fill) = .ok (done, c')) : c.Apart fill c' ∧
      (c'.task fill).dirPagesBaseAddr.isSome ∧
      (c'.task fill).currentState = (c.task fill).currentState := by
  rw [memory, Outcome.mapError_ok, Core.forkMemory] at obtained
  obtain ⟨fillTP, dir, obtained⟩ := Outcome.bind_ok.mp obtained
  obtain ⟨zone, _, obtained⟩ := Outcome.bind_ok.mp obtained
  have directory : ∀ p : Option Dir, pointer p = .ok fillTP → p.isSome := by
    intro p here
    cases p
    · contradiction
    · rfl
  have directory := directory _ dir
  dsimp only at obtained
  split at obtained
  · cases obtained
    exact ⟨⟨fun t other => by simp [other], rfl, rfl, rfl, rfl⟩, by simpa using directory, by simp⟩
  · obtain ⟨pareTP, _, obtained⟩ := Outcome.bind_ok.mp obtained
    obtain ⟨mapped, _, obtained⟩ := Outcome.bind_ok.mp obtained
    obtain ⟨copied, _, obtained⟩ := Outcome.bind_ok.mp obtained
    cases obtained
    exact ⟨⟨fun t other => by simp [other], rfl, rfl, rfl, rfl⟩, by simpa using directory, by simp⟩

theorem threadMemory_apart {fill : Task} {stack parameter : DWord} {c c' : Core}
    (obtained : memory (c.threadMemory fill stack parameter) = .ok c') : c.Apart fill c' ∧
      (c'.task fill).dirPagesBaseAddr.isSome ∧
      (c'.task fill).currentState = (c.task fill).currentState := by
  rw [memory, Outcome.mapError_ok, Core.threadMemory] at obtained
  obtain ⟨dir, directory, obtained⟩ := Outcome.bind_ok.mp obtained
  obtain ⟨mm, _, obtained⟩ := Outcome.bind_ok.mp obtained
  obtain ⟨mm, _, obtained⟩ := Outcome.bind_ok.mp obtained
  cases obtained
  refine ⟨⟨fun t _ => rfl, rfl, rfl, rfl, rfl⟩, ?_, rfl⟩
  cases here : (c.task fill).dirPagesBaseAddr
  · rw [here] at directory; contradiction
  · rfl

theorem startChild_inv {fill : Task} (sound : k.Sound (some fill)) (call : k.core.InCall)
    (dead : k.core.live fill = false) (positive : 0 < k.core.pidGlobal)
    (directory : (k.core.task fill).dirPagesBaseAddr.isSome)
    (state : (k.core.task fill).currentState = .stRun) : (k.startChild fill).Inv := by
  obtain ⟨good, placed⟩ := sound
  have named := good.nameChild call dead positive directory
  have other : fill ≠ k.core.current := fun e => by simp [e, call.live] at dead
  have unused (j : Head) (fresh : j = .fills fill ∨ j = .waitList fill) (u : Task) :
      ¬ k.core.Home none j u := fun home => by
    have := good.valid j u home
    rcases fresh with rfl | rfl <;> simp [Core.Valid, dead, other] at this
  have entered := placed_enqueue (k := k.setCore (k.core.nameChild fill)) (h := .fills k.core.current)
    (t := fill) placed (by simp [Core.Home, dead])
  have moved := placed_move (h := .readyqueue) (t := fill)
    (k := (((k.setCore (k.core.nameChild fill)).enqueue (.fills k.core.current) fill).clear
      (.fills fill)).clear (.waitList fill))
    ((entered.clear (.fills fill)).clear (.waitList fill)) (by simp [Core.Home, dead])
  have started : Sound (((((k.setCore (k.core.nameChild fill)).enqueue (.fills k.core.current) fill).clear
      (.fills fill)).clear (.waitList fill)).move fill .readyqueue) none := by
    refine ⟨by simpa [Head.state] using named, moved.congr fun j u => ?_⟩
    by_cases same : u = fill
    · subst same
      have task : u ≠ idleTask := fun e => by simp [e, good.idle.1] at dead
      cases j <;> simp [Core.Home, Core.nameChild, dead, state, TaskState.queue, Head.state, task, eq_comm]
      rintro rfl
      exact other
    · have unusedFills := unused (.fills fill) (.inl rfl) u
      have unusedWait := unused (.waitList fill) (.inr rfl) u
      cases j <;> simp [Core.Home, Core.nameChild, same, Ne.symm same] at *
      all_goals
        intro live
        grind
  refine started.sysReturn ?_ ?_ _
  · have := call.live
    simp only [move_core, Core.setTask_live, Core.setTask_current]
    simp [Core.nameChild, Ne.symm other, this]
  · have run := call.running
    simp [Core.ct, Core.nameChild, Ne.symm other, run]

/-- The first free PCB is taken and filled with a copy of the running task's. -/
theorem Sound.takeFree (sound : k.Sound none) {fill : Task} {rest : List Task}
    (first : k.queues .freequeue = fill :: rest) (call : k.core.InCall) :
    k.core.live fill = false ∧ fill ≠ k.core.current ∧
      ((k.dequeue .freequeue fill).setTask fill fun _ => k.core.ct).Sound (some fill) ∧
      ((k.dequeue .freequeue fill).setTask fill fun _ => k.core.ct).core.InCall := by
  have dead : k.core.live fill = false := ((sound.placed.mem .freequeue fill).mp (by simp [first])).1
  have apart := Core.Apart.setTask fill k.core fun _ => k.core.ct
  refine ⟨dead, fun same => by simp [same, call.live] at dead,
    ⟨apart.good dead sound.good, (placed_dequeue sound.placed _ _).congr fun j u => ?_⟩,
    apart.inCall dead call⟩
  rw [setTask_core, dequeue_core, apart.home dead]
  cases j <;> simp only [Core.Home] <;> grind

theorem Sound.apart (sound : k.Sound out) {fill : Task} {c : Core} (apart : k.core.Apart fill c)
    (dead : k.core.live fill = false) : (k.setCore c).Sound out :=
  ⟨apart.good dead sound.good, sound.placed.congr fun j u => (apart.home dead out j u).symm⟩

/-- The PCB in hand is put back. -/
theorem Sound.giveBack (sound : k.Sound (some t)) (dead : k.core.live t = false) :
    (k.enqueue .freequeue t).Sound none := by
  refine ⟨sound.good, (placed_enqueue sound.placed (by simp [Core.Home])).congr fun j u => ?_⟩
  rw [enqueue_core]
  cases j <;> simp only [Core.Home] <;> grind

theorem sysFork_inv (sound : k.Sound none) (call : k.core.InCall) (positive : 0 < k.core.pidGlobal) :
    Leads k.sysFork := by
  intro k' done
  rcases sysFork_cases done with ⟨v, rfl⟩ | ⟨fill, rest, core, first, ⟨memory, rfl⟩ | ⟨memory, rfl⟩⟩
  · exact sound.returnCall call _
  all_goals
    obtain ⟨dead, other, taken, inCall⟩ := sound.takeFree first call
    obtain ⟨apart, directory, state⟩ := forkMemory_apart memory
    have held := taken.apart apart dead
    have inCall := apart.inCall dead inCall
    have dead : core.live fill = false := by rw [apart.live]; exact dead
  · refine startChild_inv held inCall dead (by rw [setCore_core, apart.pidGlobal]; exact positive) directory ?_
    simpa [call.run] using state
  · exact (held.giveBack dead).returnCall inCall _

theorem sysCreateThread_inv (sound : k.Sound none) (call : k.core.InCall) (positive : 0 < k.core.pidGlobal)
    (function stack parameter : DWord) : Leads (k.sysCreateThread function stack parameter) := by
  intro k' done
  rcases sysCreateThread_cases done with ⟨v, rfl⟩ | ⟨fill, rest, core, first, memory, rfl⟩
  · exact sound.returnCall call _
  obtain ⟨dead, other, taken, inCall⟩ := sound.takeFree first call
  obtain ⟨apart, directory, state⟩ := threadMemory_apart memory
  refine startChild_inv (taken.apart apart dead) (apart.inCall dead inCall)
    (by rw [setCore_core, apart.live]; exact dead)
    (by rw [setCore_core, apart.pidGlobal]; exact positive) directory ?_
  simpa [call.run] using state

/-- `sys_dyn_mem` changes memory and returns. -/
theorem sysDynMem_spec {c c' : Core} {numPags : Int} (done : memory (c.sysDynMem numPags) = .ok c') :
    ∃ mm cr3 v, c' = { c with mm, cr3 }.sysReturn (some v) := by
  rw [memory, Outcome.mapError_ok, Core.sysDynMem] at done
  obtain ⟨zone, _, done⟩ := Outcome.bind_ok.mp done
  obtain ⟨dir, _, done⟩ := Outcome.bind_ok.mp done
  split at done
  · cases done
    exact ⟨c.mm, c.cr3, _, rfl⟩
  split at done
  · split at done
    · contradiction
    obtain ⟨⟨grown, mm⟩, _, done⟩ := Outcome.bind_ok.mp done
    dsimp only at done
    split at done <;> cases done <;> exact ⟨_, c.cr3, _, rfl⟩
  dsimp only at done
  split at done
  · cases done
    exact ⟨c.mm, c.cr3, _, rfl⟩
  · obtain ⟨mm, _, done⟩ := Outcome.bind_ok.mp done
    cases done
    exact ⟨_, _, _, rfl⟩

end Kernel

namespace Core

/-- The slot a `semWait` or `semSignal` counts on. -/
def hit (semid : Int) (c : Core) : Option SemIndex :=
  if semid < firstUserSemId then none
  else (c.slotOf semid).filter fun i => !(c.semaphores i).free

theorem hit_eq_some {c : Core} {semid : Int} {i : SemIndex} : c.hit semid = some i ↔
    firstUserSemId ≤ semid ∧ c.slotOf semid = some i ∧ (c.semaphores i).free = false := by
  unfold hit
  split
  · rename_i system
    simp only [reduceCtorEq, false_iff, not_and]
    exact fun user => absurd system (Int.not_lt.mpr user)
  · rename_i user
    rw [Option.filter_eq_some_iff]
    simp [Int.not_lt.mp user]

end Core

/-- The steps that do what their callers expect. A new PID is positive; `sys_unblock`
finds the child asleep in `sys_block`, not in a join or a semaphore; `sys_wait_thread`
finds a task that lives (PID -1 finds a free PCB, whose list holds a sleeper until the PCB is used
again); `frames` of `sys_dyn_mem` has room on the kernel stack; and `sys_semSignal` finds a
sleeper when the counter says so. -/
def Core.Allowed (c : Core) : Event → Prop
  | .syscall .fork | .syscall (.createThread ..) => 0 < c.pidGlobal
  | .syscall (.unblock pid) => ∀ t, c.live t → (c.task t).pare = some c.current →
      (c.task t).pid = pid → (c.task t).currentState = .stBlocked → (c.task t).kEsp = .block
  | .syscall (.waitThread pid) => ∀ t, c.taskOf pid = some t → c.live t
  | .syscall (.dynMem numPags) => numPags ≤ stackFrames
  | .syscall (.semSignal semid) => ∀ i, c.hit semid = some i → int32 ((c.semaphores i).value + 1) ≤ 0 →
      ∃ t, c.live t ∧ (c.task t).currentState = .stBlocked ∧ (c.task t).kEsp = .semWait i
  | _ => True

instance (c : Core) (e : Event) : Decidable (c.Allowed e) := by
  unfold Core.Allowed
  apply e.decidable

namespace Kernel

variable {k : Kernel}

theorem syscall_inv (sound : k.Sound none) (call : k.core.InCall) (request : Syscall)
    (allowed : k.core.Allowed (.syscall request)) : Leads (k.syscall request) := by
  cases request with
  | getpid => exact leads_ok (sound.returnCall call _)
  | fork => exact sysFork_inv sound call allowed
  | createThread function stack parameter => exact sysCreateThread_inv sound call allowed function stack parameter
  | exit => exact exitSlots_inv _ sound call
  | block => exact leads_ok (sysBlock_inv sound call)
  | unblock pid => exact leads_ok (sysUnblock_inv sound call pid)
  | waitThread pid => exact leads_ok (sysWaitThread_inv sound call pid allowed)
  | read b maxchars => exact sysRead_inv sound call b maxchars
  | dynMem numPags =>
    intro k' done
    obtain ⟨core, memory, done⟩ := Outcome.bind_ok.mp done
    obtain ⟨mm, cr3, v, rfl⟩ := sysDynMem_spec memory
    cases done
    have same : k.core.SameTasks { k.core with mm, cr3 } := ⟨rfl, rfl, rfl, rfl, rfl⟩
    exact (sound.sameTasks same).returnCall (same.inCall call) _
  | semCreate initialValue => exact leads_ok (sysSemCreate_inv sound call initialValue)
  | semWait semid => exact leads_ok (sysSemWait_inv sound call semid)
  | semSignal semid => exact sysSemSignal_inv sound call semid
  | semDestroy semid => exact leads_ok (sysSemDestroy_inv sound call semid)

/-- A task that is switched to has used up its saved stack. -/
theorem Inv.used (inv : k.Inv) : (k.setTask k.core.current fun ts => { ts with kEsp := .user }).Sound none := by
  refine inv.save _ (fun _ => ⟨rfl, rfl, rfl, rfl⟩) (.inr rfl) ?_ (by simp [Core.Fits])
  rcases inv.between.state with run | ⟨reading, _⟩ <;> simp [*]

theorem Inv.not_idle (inv : k.Inv) (inside : ¬ k.core.InUser) : k.core.current ≠ idleTask := fun idle =>
  inside (by rw [Core.InUser, Core.ct, idle]; exact inv.good.idle.2.2.1)

theorem Inv.resume_inCall (inv : k.Inv) (inside : ¬ k.core.InUser)
    (other : ∀ b maxchars, k.core.ct.kEsp ≠ .read b maxchars) :
    (k.setTask k.core.current fun ts => { ts with kEsp := .user }).core.InCall := by
  refine ⟨inv.between.live, inv.not_idle inside, by simp [Core.ct], ?_⟩
  rcases inv.between.state with run | ⟨_, b, maxchars, reading⟩
  · simpa [Core.ct] using run
  · exact absurd reading (other b maxchars)

theorem Inv.resume_reading (inv : k.Inv) {b : DWord} {maxchars : Int} (kEsp : k.core.ct.kEsp = .read b maxchars) :
    (k.setTask k.core.current fun ts => { ts with kEsp := .user }).Reading := by
  refine ⟨inv.used, inv.between.live, inv.not_idle (by simp [Core.InUser, kEsp]), ?_⟩
  rcases inv.between.state with state | ⟨state, _⟩ <;> simp [Core.ct] at state ⊢ <;> simp [state]

theorem Inv.resume_destroyer (inv : k.Inv) {i : SemIndex} {semid : Int} {caller : DestroyCaller}
    (kEsp : k.core.ct.kEsp = .semDestroy i semid caller) :
    (k.setTask k.core.current fun ts => { ts with kEsp := .user }).Sound none ∧
    (k.setTask k.core.current fun ts => { ts with kEsp := .user }).core.InCall ∧
    (k.core.semaphores i).free = false ∧
    (k.core.setTask k.core.current fun ts => { ts with kEsp := .user }).Unmarked i := by
  have call := inv.resume_inCall (by simp [Core.InUser, kEsp]) (by simp [kEsp])
  have fits := inv.good.saved _ inv.between.live
  rw [Core.ct] at kEsp
  simp only [kEsp, Core.Fits] at fits
  refine ⟨inv.used, call, fits.1, fun t semid' caller' liveT kEspT => ?_⟩
  by_cases same : t = k.core.current
  · simp [same] at kEspT
  · exact same (fits.2.2 t semid' caller' liveT (by simpa [same] using kEspT))

theorem Inv.resume (inv : k.Inv) (inside : ¬ k.core.InUser) : Leads k.resume := by
  have fits := inv.good.saved _ inv.between.live
  have run := inv.resume_inCall inside
  unfold Kernel.resume
  cases kEsp : k.core.ct.kEsp <;> simp only [kEsp, ne_eq, reduceCtorEq, not_false_eq_true, implies_true,
    forall_const] at run <;> simp only [goOn]
  case user => exact absurd kEsp inside
  case block => exact leads_ok (inv.used.returnCall run _)
  case unblock ret => exact leads_ok (inv.used.returnCall run _)
  case waitThread bt => exact leads_ok (inv.used.returnCall run _)
  case read b maxchars => exact (inv.resume_reading kEsp).readWait b maxchars
  case semWait i => exact leads_ok (inv.used.returnCall run _)
  case semSignal i => exact leads_ok (inv.used.returnCall run _)
  case semDestroy i semid caller =>
    obtain ⟨sound, call, free, unmarked⟩ := inv.resume_destroyer kEsp
    have leads := sound.destroyFrom call i semid caller free unmarked
    split <;> rename_i result <;> rw [result] at leads
    · exact leads_ok (leads.2 rfl)
    · obtain ⟨sound, call⟩ := leads.1 rfl
      cases caller with
      | syscall => exact leads_ok (sound.returnCall call _)
      | exit j => exact exitSlots_inv _ sound call
  case exited =>
    rw [Core.ct] at kEsp
    simp [kEsp, Core.Fits] at fits

/-- The invariant holds after every allowed step. -/
theorem step_inv {e : Event} {k' : Kernel} (inv : k.Inv) (allowed : k.core.Allowed e)
    (step : k.Step e k') : k'.Inv := by
  obtain ⟨enabled, step⟩ := step
  cases e with
  | clock => cases step; exact inv.clockRoutine enabled
  | key readInp => cases step; exact inv.keyboardRoutine enabled readInp
  | syscall request => exact syscall_inv inv.toSound (inv.inCall enabled.1 enabled.2.1) request allowed k' step
  | resume => exact inv.resume enabled k' step

end Kernel
end Zeos
