import Zeos.Identifiers
import Zeos.Family
import Zeos.Wakeups

/-! What `sys_exit` hands over before its last switch: its children to the idle task, its
waiters to the ready queue, its semaphores to nobody. -/
namespace Zeos
open Circular Placement Outcome Transition

namespace Kernel

variable {k k' : Kernel} {t ct : Task}

/-- The tasks are woken one after the other. -/
theorem foldl_wake_task (ts : List Task) (k : Kernel) (u : Task) : ((ts.foldl (fun k t => k.wake t) k).core.task u) =
    if u ∈ ts then { k.core.task u with currentState := .stReady } else k.core.task u := by
  induction ts generalizing k with
  | nil => simp
  | cons t ts ih =>
    rw [List.foldl_cons, ih, wake_core, Core.setTask_task]
    by_cases first : u = t
    · subst first
      simp
    · simp [first]

/-- The children go behind those of the idle task. -/
theorem foldl_adoptChild_fills (ts : List Task) (k : Kernel) :
    (ts.foldl adoptChild k).queues (.fills idleTask) = k.queues (.fills idleTask) ++ ts ∧
    ∀ h, h ≠ .fills idleTask → (ts.foldl adoptChild k).queues h = k.queues h := by
  induction ts generalizing k with
  | nil => simp
  | cons t ts ih =>
    obtain ⟨fills, others⟩ := ih (k.adoptChild t)
    rw [List.foldl_cons]
    refine ⟨?_, fun h other => ?_⟩
    · rw [fills]
      simp [adoptChild, enqueue]
    · rw [others h other]
      simp [adoptChild, enqueue, Function.update_of_ne other]

theorem foldl_wake_queues (ts : List Task) {h : Head} (ready : h ≠ .readyqueue) {k : Kernel}
    (waits : ∀ t ∈ ts, (k.core.task t).kEsp.waitHead ≠ some h)
    (state : ∀ t ∈ ts, (k.core.task t).currentState = .stBlocked) (other : h ≠ .blocked) (nodup : ts.Nodup) :
    (ts.foldl (fun k t => k.wake t) k).queues h = k.queues h := by
  induction ts generalizing k with
  | nil => rfl
  | cons t ts ih =>
    obtain ⟨absent, nodup⟩ := List.nodup_cons.mp nodup
    have same {u : Task} (mem : u ∈ ts) : (k.wake t).core.task u = k.core.task u := by
      have apart : u ≠ t := fun e => absent (e ▸ mem)
      simp [apart]
    rw [List.foldl_cons, ih (fun u mem => by rw [same mem]; exact waits u (List.mem_cons_of_mem _ mem))
      (fun u mem => by rw [same mem]; exact state u (List.mem_cons_of_mem _ mem)) nodup]
    refine wake_queues_other ready (waits t (List.mem_cons_self ..)) ?_
    rw [state t (List.mem_cons_self ..)]
    simpa [TaskState.queue] using Ne.symm other

/-- What a task that leaves has handed over when it switches for the last time. -/
structure Handed (k : Kernel) (ct : Task) (m : Kernel) : Prop where
  fills : m.queues (.fills idleTask) = (k.queues (.fills idleTask)).erase ct ++ k.queues (.fills ct)
  pare : ∀ t ∈ k.queues (.fills ct), (m.core.task t).pare = some idleTask
  waiters : ∀ t ∈ k.queues (.waitList ct), (m.core.task t).currentState = .stReady ∧ t ∈ m.queues .readyqueue
  waitList : m.queues (.waitList ct) = []
  semaphores : m.core.semaphores = k.core.semaphores

/-- A task that leaves its father leaves one list, in which it stands. -/
theorem Sound.leaveFather_queues {out : Option Task} (sound : k.Sound out) {c : Core}
    (left : (k.setCore c).leaveFather ct (k.core.task ct).pare = .ok k') :
    k'.queues (.fills idleTask) = (k.queues (.fills idleTask)).erase ct ∧
      ∀ h, (k.core.task ct).pare.map .fills ≠ some h → k'.queues h = k.queues h := by
  have others : ∀ h, (k.core.task ct).pare.map .fills ≠ some h → k'.queues h = k.queues h := by
    intro h other
    unfold leaveFather at left
    split at left
    · rename_i u pare
      cases left
      have apart : h ≠ .fills u := fun same => other (by rw [pare, same]; rfl)
      simp [dequeue, Function.update_of_ne apart]
    · split at left
      · cases left; rfl
      · contradiction
  refine ⟨?_, others⟩
  by_cases idle : (k.core.task ct).pare = some idleTask
  · rw [idle] at left
    cases left
    simp [dequeue]
  · have absent : ct ∉ k.queues (.fills idleTask) := fun mem =>
      idle ((sound.placed.mem (.fills idleTask) ct).mp mem).2
    rw [others, List.erase_of_not_mem absent]
    intro same
    obtain ⟨u, pare, here⟩ := Option.map_eq_some_iff.mp same
    cases here
    exact idle pare

theorem Sound.handed (sound : k.Sound none) (call : k.core.InCall) (selfless : k.core.ct.pare ≠ some k.core.current)
    {m : Kernel} (done : k.depart = .ok m) : k.Handed k.core.current m := by
  obtain ⟨core, mem, done⟩ := bind_ok.mp done
  obtain ⟨k₁, leave, done⟩ := bind_ok.mp done
  cases done
  have same := exitMemory_sameTasks mem
  have leaving : k₁.Leaving k.core.current := by
    have pare : k.core.ct.pare = core.ct.pare := by simp only [Core.ct, same.task, same.current]
    rw [← same.current]
    rw [pare, ← same.current] at leave
    exact (sound.sameTasks same).clearTask (same.inCall call) leave
  have core₁ : k₁.core = core.clearTask := leaveFather_core leave
  obtain ⟨idle, others⟩ := sound.leaveFather_queues leave
  have fills : k₁.queues (.fills k.core.current) = k.queues (.fills k.core.current) := others _ fun same => by
    obtain ⟨u, pare, here⟩ := Option.map_eq_some_iff.mp same
    cases here
    exact selfless pare
  have waitList : k₁.queues (.waitList k.core.current) = k.queues (.waitList k.core.current) := others _ fun same => by
    obtain ⟨u, pare, here⟩ := Option.map_eq_some_iff.mp same
    cases here
  obtain ⟨leaving₂, alone⟩ := leaving.adopt
  obtain ⟨leaving₃, -, released⟩ := leaving₂.releaseWaiters alone
  have freed := leaving₃.free
  -- the children
  have task : k.core.current ≠ idleTask := call.task
  obtain ⟨adopted, kept⟩ := foldl_adoptChild_fills (k₁.queues (.fills k.core.current)) (k₁.clear (.fills k.core.current))
  have clear : (k₁.clear (.fills k.core.current)).queues (.fills idleTask) = k₁.queues (.fills idleTask) := by
    simp [Kernel.clear, Ne.symm task]
  have fills₂ : (k₁.adopt k.core.current).queues (.fills idleTask) =
      (k.queues (.fills idleTask)).erase k.core.current ++ k.queues (.fills k.core.current) := by
    rw [Kernel.adopt, adopted, clear, idle, fills]
  have children (t : Task) (mem : t ∈ k.queues (.fills k.core.current)) :
      ((k₁.adopt k.core.current).core.task t).pare = some idleTask := by
    rw [Kernel.adopt, foldl_adoptChild, fills]
    simp [mem]
  -- the waiters
  have waiters : (k₁.adopt k.core.current).queues (.waitList k.core.current) = k.queues (.waitList k.core.current) := by
    rw [Kernel.adopt, kept _ (by simp), ← waitList]
    simp [Kernel.clear]
  have asleep (t : Task) (mem : t ∈ k.queues (.waitList k.core.current)) := (leaving₂.placed.mem (.waitList k.core.current) t).mp
    (by rw [waiters]; exact mem)
  have fills₃ := foldl_wake_queues (k.queues (.waitList k.core.current)) (h := .fills idleTask) (by simp)
    (k := k₁.adopt k.core.current) (fun t _ => by simp) (fun t mem => (asleep t mem).2.1) (by simp)
    (sound.placed.nodup _)
  have woken := foldl_wake_task (k.queues (.waitList k.core.current)) (k₁.adopt k.core.current)
  have frame := leaving.frame_adopt.trans (frame_releaseWaiters _ k.core.current)
  have loop : (k₁.adopt k.core.current).releaseWaiters k.core.current =
      (k.queues (.waitList k.core.current)).foldl (fun k t => k.wake t) (k₁.adopt k.core.current) := by
    rw [Kernel.releaseWaiters, waiters]
  rw [← loop] at fills₃
  simp only [← loop] at woken
  refine ⟨?_, fun t mem => ?_, fun t mem => ?_, ?_, ?_⟩
  · simp [enqueue, fills₃, fills₂]
  · have pare := children t mem
    simp only [enqueue_core, setTask_core, Core.setTask_task, woken]
    split <;> split <;> simp_all
  · obtain ⟨live, state, kEsp⟩ := asleep t mem
    have apart : t ≠ k.core.current := by
      rintro rfl
      rw [leaving₂.gone] at live
      contradiction
    have ready : (((((k₁.adopt k.core.current).releaseWaiters k.core.current).setTask k.core.current fun t =>
        { t with currentState := .stFree }).enqueue .freequeue k.core.current).core.task t).currentState = .stReady := by
      simp only [enqueue_core, setTask_core, Core.setTask_task, apart, if_false, woken, mem, if_true]
    refine ⟨ready, (freed.placed.mem .readyqueue t).mpr ⟨?_, ?_, ready⟩⟩
    · simp only [enqueue_core, setTask_core, Core.setTask_live]
      rw [(frame_releaseWaiters _ _).live]
      exact live
    · rintro rfl
      have := leaving₂.good.idle
      simp [state] at this
  · simpa [enqueue] using released
  · simp only [enqueue_core, setTask_core, Core.setTask_semaphores]
    rw [frame.semaphores, core₁]
    exact same.semaphores

/-- A task that has left is gone. -/
theorem Sound.exitTail_gone (sound : k.Sound none) (call : k.core.InCall) (done : k.exitTail = .ok k') :
    k'.core.live k.core.current = false := by
  obtain ⟨core, mem, done⟩ := bind_ok.mp done
  obtain ⟨k₁, leave, done⟩ := bind_ok.mp done
  cases done
  have same := exitMemory_sameTasks mem
  have pare : k.core.ct.pare = core.ct.pare := by simp only [Core.ct, same.task, same.current]
  have leaving : k₁.Leaving k.core.current := by
    rw [← same.current]
    rw [pare, ← same.current] at leave
    exact (sound.sameTasks same).clearTask (same.inCall call) leave
  obtain ⟨leaving₂, alone⟩ := leaving.adopt
  obtain ⟨leaving₃, -, -⟩ := leaving₂.releaseWaiters alone
  rw [(frame_sched _ _).live]
  exact leaving₃.gone

/-! Which continuation the running task leaves on its stack. -/

@[simp] theorem sysReturn_saves (k : Kernel) (v : Option Int) : ((k.sysReturn v).core.task k.core.current).kEsp = .user := by
  simp [Core.sysReturn]

@[simp] theorem sched_saves (k : Kernel) (kont : Kont) : ((k.sched kont).core.task k.core.current).kEsp = kont := by
  rw [sched, dispatch_kEsp]
  simp

@[simp] theorem park_saves (k : Kernel) (kont : Kont) :
    ((k.park kont).dispatch.core.task k.core.current).kEsp = kont := by
  rw [dispatch_kEsp, park_core]
  simp

theorem startChild_saves (k : Kernel) (fill : Task) : ((k.startChild fill).core.task k.core.current).kEsp = .user := by
  have current : (k.startChild fill).core.current = k.core.current := by
    rw [(frame_startChild k fill).2.current]
    rfl
  unfold startChild at current ⊢
  dsimp only at current ⊢
  rw [← current]
  simp [Core.sysReturn]

/-- The running task leaves another continuation than that of `sys_exit` in its loop over
the semaphores. -/
def NotExiting (c : Core) (k : Kernel) : Prop := ∀ i semid j, (k.core.task c.current).kEsp ≠ .semDestroy i semid (.exit j)

theorem NotExiting.of_kEsp {c : Core} {kont : Kont} (saved : (k.core.task c.current).kEsp = kont)
    (other : ∀ i semid j, kont ≠ .semDestroy i semid (.exit j)) : NotExiting c k := fun i semid j same =>
  other i semid j (saved.symm.trans same)

section
variable {c : Core} (mine : k.core.current = c.current)
include mine

theorem notExiting_sysReturn {v : Option Int} : NotExiting c (k.sysReturn v) := by
  have saved := sysReturn_saves k v
  rw [mine] at saved
  exact .of_kEsp saved (by simp)

theorem notExiting_sched {kont : Kont} (other : ∀ i semid j, kont ≠ .semDestroy i semid (.exit j)) :
    NotExiting c (k.sched kont) := by
  have saved := sched_saves k kont
  rw [mine] at saved
  exact .of_kEsp saved other

theorem notExiting_park {kont : Kont} (other : ∀ i semid j, kont ≠ .semDestroy i semid (.exit j)) :
    NotExiting c (k.park kont).dispatch := by
  have saved := park_saves k kont
  rw [mine] at saved
  exact .of_kEsp saved other

theorem notExiting_startChild {fill : Task} : NotExiting c (k.startChild fill) := by
  have saved := startChild_saves k fill
  rw [mine] at saved
  exact .of_kEsp saved (by simp)

theorem notExiting_readWait {b : DWord} {maxchars : Int} (done : k.readWait b maxchars = .ok k') : NotExiting c k' := by
  unfold readWait at done
  split at done
  · cases done
    exact notExiting_sched mine (by simp)
  · obtain ⟨core, mem, done⟩ := bind_ok.mp done
    cases done
    have same := readChars_sameTasks mem
    refine notExiting_sysReturn ?_
    rw [start_core, Core.setTask_current, setCore_core, same.current, mine]

end

theorem destroyRound_saves {i : SemIndex} {semid : Int} {caller : DestroyCaller}
    (round : k.destroyRound i semid caller = some k') :
    (k'.core.task k.core.current).kEsp = .semDestroy i semid caller := by
  unfold destroyRound at round
  split at round
  · contradiction
  rename_i t rest first
  cases round
  have current : ((k.setSem i fun m => { m with creatorPID := -1 }).wake t).core.current = k.core.current := by simp
  have saved := sched_saves ((k.setSem i fun m => { m with creatorPID := -1 }).wake t) (.semDestroy i semid caller)
  rwa [current] at saved

theorem destroySlots_saves (semid : Int) (caller : DestroyCaller) (slots : List SemIndex) {k : Kernel}
    (ends : (destroySlots semid caller slots k).1 = none) :
    ∃ i, ((destroySlots semid caller slots k).2.core.task k.core.current).kEsp = .semDestroy i semid caller := by
  induction slots generalizing k with
  | nil => contradiction
  | cons i slots ih =>
    unfold destroySlots at ends ⊢
    split
    · rename_i named
      rw [if_pos named] at ends
      split
      · rename_i free
        rw [if_pos free] at ends
        contradiction
      rename_i used
      rw [if_neg used] at ends
      split
      · rename_i creator
        rw [if_pos creator] at ends
        contradiction
      rename_i creator
      rw [if_neg creator] at ends
      split
      · rename_i round
        exact ⟨i, destroyRound_saves round⟩
      · rename_i round
        rw [round] at ends
        have rest := ih (k := k.freeSem i) ends
        exact rest
    · rename_i other
      rw [if_neg other] at ends
      exact ih ends

theorem destroyFrom_saves {i : SemIndex} {semid : Int} {caller : DestroyCaller}
    (ends : (k.destroyFrom i semid caller).1 = none) :
    ∃ j, ((k.destroyFrom i semid caller).2.core.task k.core.current).kEsp = .semDestroy j semid caller := by
  unfold destroyFrom at ends ⊢
  split
  · rename_i round
    exact ⟨i, destroyRound_saves round⟩
  · rename_i round
    rw [round] at ends
    have rest := destroySlots_saves semid caller _ (k := k.freeSem i) ends
    exact rest

end Kernel

namespace Kernel

variable {k k' : Kernel}

theorem foldl_unblockChild_current (pid : Int) (ts : List Task) (r : Int × Kernel) :
    (ts.foldl (unblockChild pid) r).2.core.current = r.2.core.current := by
  induction ts generalizing r with
  | nil => rfl
  | cons t ts ih => exact (ih _).trans unblockChild_current

theorem syscall_notExiting {request : Syscall} (other : request ≠ .exit) (done : k.syscall request = .ok k') :
    NotExiting k.core k' := by
  cases request with
  | getpid => cases done; exact notExiting_sysReturn (by rfl)
  | fork =>
    rcases sysFork_cases done with ⟨v, rfl⟩ | ⟨fill, rest, core, -, ⟨mem, rfl⟩ | ⟨mem, rfl⟩⟩
    · exact notExiting_sysReturn (by rfl)
    · exact notExiting_startChild (by simpa using (forkMemory_apart mem).1.current)
    · exact notExiting_sysReturn (by simpa using (forkMemory_apart mem).1.current)
  | createThread function stack parameter =>
    rcases sysCreateThread_cases done with ⟨v, rfl⟩ | ⟨fill, rest, core, -, mem, rfl⟩
    · exact notExiting_sysReturn (by rfl)
    · exact notExiting_startChild (by simpa using (threadMemory_apart mem).1.current)
  | exit => contradiction
  | block =>
    cases done
    unfold sysBlock
    split
    · exact notExiting_park (by rfl) (by simp)
    · exact notExiting_sysReturn (by rfl)
  | unblock pid =>
    cases done
    exact notExiting_sched (foldl_unblockChild_current pid _ _) (by simp)
  | waitThread pid =>
    cases done
    unfold sysWaitThread
    split
    · exact notExiting_sysReturn (by rfl)
    · exact notExiting_park (by rfl) (by simp)
  | read b maxchars =>
    have current : (k.move k.core.current .readBlocked).core.current = k.core.current := by simp
    rcases sysRead_cases done with ⟨v, rfl⟩ | ⟨-, ⟨-, rfl⟩ | waits⟩
    · exact notExiting_sysReturn (by rfl)
    · exact notExiting_sched current (by simp)
    · exact notExiting_readWait current waits
  | dynMem numPags =>
    obtain ⟨core, mem, done⟩ := bind_ok.mp done
    obtain ⟨mm, cr3, v, rfl⟩ := sysDynMem_spec mem
    cases done
    exact notExiting_sysReturn (by rfl)
  | semCreate initialValue =>
    cases done
    unfold sysSemCreate
    split
    · exact notExiting_sysReturn (by rfl)
    · exact notExiting_sysReturn (by rfl)
  | semWait semid =>
    cases done
    rcases sysSemWait_cases k semid with ⟨v, done⟩ | ⟨i, value, -, done | ⟨v, done⟩⟩ <;> rw [done]
    · exact notExiting_sysReturn (by rfl)
    · exact notExiting_park (by rfl) (by simp)
    · exact notExiting_sysReturn (by rfl)
  | semSignal semid =>
    rcases sysSemSignal_cases done with ⟨v, rfl⟩ | ⟨i, value, -, ⟨t, rest, -, rfl⟩ | ⟨v, rfl⟩⟩
    · exact notExiting_sysReturn (by rfl)
    · exact notExiting_sched (by simp) (by simp)
    · exact notExiting_sysReturn (by rfl)
  | semDestroy semid =>
    cases done
    unfold sysSemDestroy
    split
    · exact notExiting_sysReturn (by rfl)
    · have changed := destroySlots_core semid .syscall (List.finRange numSems) (k := k)
      have saves := destroySlots_saves semid .syscall (List.finRange numSems) (k := k)
      split <;> rename_i result <;> rw [result] at changed saves
      · obtain ⟨semaphores, core⟩ := changed rfl
        exact notExiting_sysReturn (by rw [core])
      · obtain ⟨i, saved⟩ := saves rfl
        exact .of_kEsp saved (by simp)

/-- Who does not go on in `sys_exit` does not come to its loop. -/
theorem Step.notExiting {e : Event} (step : k.Step e k') (other : ¬ k.core.Exiting e) : NotExiting k.core k' := by
  obtain ⟨enabled, done⟩ := step
  cases e with
  | clock =>
    cases done
    unfold Kernel.clockRoutine
    generalize (if 0 < k.core.tickCounter then k.core.tickCounter - 1 else k.core.tickCounter) = tick
    dsimp only
    split
    · exact notExiting_sched (by rfl) (by simp)
    · exact .of_kEsp enabled (by simp)
  | key readInp =>
    cases done
    refine .of_kEsp (show _ = Kont.user from ?_) (by simp)
    rcases keyboardRoutine_task k readInp k.core.current with same | same <;> rw [same]
    · exact enabled
    · rw [yield_task]
      split <;> exact enabled
  | syscall request => exact syscall_notExiting (fun same => other same) done
  | resume =>
    have kEsp : ∀ i semid j, k.core.ct.kEsp ≠ .semDestroy i semid (.exit j) := fun i semid j same =>
      other ⟨i, semid, j, same⟩
    have done : k.resume = .ok k' := done
    unfold Kernel.resume at done
    have outside : k.core.ct.kEsp ≠ .user := enabled
    generalize k.core.ct.kEsp = kont at done kEsp outside
    have current : (k.setTask k.core.current fun ts => { ts with kEsp := .user }).core.current = k.core.current := rfl
    generalize (k.setTask k.core.current fun ts => { ts with kEsp := .user }) = m at done current
    cases kont with
    | user => contradiction
    | read b maxchars => exact notExiting_readWait current done
    | exited => contradiction
    | semDestroy i semid caller =>
      cases caller with
      | exit j => exact absurd rfl (kEsp i semid j)
      | syscall =>
        have changed (ends : (m.destroyFrom i semid .syscall).1.isSome) := destroyFrom_core ends
        have saves (ends : (m.destroyFrom i semid .syscall).1 = none) := destroyFrom_saves ends
        simp only [goOn] at done
        split at done <;> rename_i result <;> rw [result] at changed saves <;> cases done
        · obtain ⟨j, saved⟩ := saves rfl
          rw [current] at saved
          exact .of_kEsp saved (by simp)
        · obtain ⟨semaphores, core⟩ := changed rfl
          exact notExiting_sysReturn (by rw [core]; exact current)
    | _ => cases done; exact notExiting_sysReturn current

end Kernel

/-- The loop of `sys_exit` over the semaphores, without what stands behind it: it ends, or
it is suspended in a `sched_next_rr()`. -/
def State.exitLoop : List SemIndex → State → Except Fault (Bool × State)
  | [], s => .ok (true, s)
  | j :: slots, s => do
    if (s.core.semaphores j).creatorPID = s.core.ct.pid then
      match ← destroySlots (s.core.semaphores j).id (.exit j) (List.finRange numSems) s with
      | (some _, s) => exitLoop slots s
      | (none, s) => return (false, s)
    else exitLoop slots s

def Kernel.exitLoop : List SemIndex → Kernel → Bool × Kernel
  | [], k => (true, k)
  | j :: slots, k =>
    if (k.core.semaphores j).creatorPID = k.core.ct.pid then
      match destroySlots (k.core.semaphores j).id (.exit j) (List.finRange numSems) k with
      | (some _, k) => exitLoop slots k
      | (none, k) => (false, k)
    else exitLoop slots k

theorem State.exitSlots_eq (slots : List SemIndex) (s : State) :
    s.exitSlots slots = s.exitLoop slots >>= fun r => if r.1 then r.2.exitTail else .ok r.2 := by
  induction slots generalizing s with
  | nil => rfl
  | cons j slots ih =>
    unfold exitSlots exitLoop
    split
    · rw [bind_assoc]
      refine bind_congr fun r => ?_
      obtain ⟨v, s'⟩ := r
      cases v with
      | none => rfl
      | some v => exact ih s'
    · exact ih s

theorem Kernel.exitSlots_eq (slots : List SemIndex) (k : Kernel) :
    k.exitSlots slots = if (k.exitLoop slots).1 then (k.exitLoop slots).2.exitTail else .ok (k.exitLoop slots).2 := by
  induction slots generalizing k with
  | nil => rfl
  | cons j slots ih =>
    unfold exitSlots exitLoop
    split
    · rcases destroySlots (k.core.semaphores j).id (.exit j) (List.finRange numSems) k with ⟨_ | v, k'⟩
      · rfl
      · exact ih k'
    · exact ih k

/-- The part of a step in `sys_exit` that belongs to its loop over the semaphores. -/
def State.exitCourse (e : Event) (s : State) : Except Fault (Bool × State) :=
  match e, s.core.ct.kEsp with
  | .syscall .exit, _ => s.exitLoop (List.finRange numSems)
  | .resume, .semDestroy i semid (.exit j) => do
    match ← (s.setTask s.core.current fun ts => { ts with kEsp := .user }).destroyFrom i semid (.exit j) with
    | (some _, s) => s.exitLoop (Core.slotsAfter j)
    | (none, s) => return (false, s)
  | _, _ => .ok (false, s)

def Kernel.exitCourse (e : Event) (k : Kernel) : Bool × Kernel :=
  match e, k.core.ct.kEsp with
  | .syscall .exit, _ => k.exitLoop (List.finRange numSems)
  | .resume, .semDestroy i semid (.exit j) =>
    match (k.setTask k.core.current fun ts => { ts with kEsp := .user }).destroyFrom i semid (.exit j) with
    | (some _, k) => k.exitLoop (Core.slotsAfter j)
    | (none, k) => (false, k)
  | _, _ => (false, k)

theorem State.step_exiting {s : State} {e : Event} (exiting : s.core.Exiting e) :
    s.step e = s.exitCourse e >>= fun r => if r.1 then r.2.exitTail else .ok r.2 := by
  cases e with
  | syscall call =>
    cases exiting
    exact s.exitSlots_eq _
  | resume =>
    obtain ⟨i, semid, j, kEsp⟩ := exiting
    simp only [step, resume, exitCourse, kEsp, goOn, bind_assoc]
    refine bind_congr fun r => ?_
    obtain ⟨v, s'⟩ := r
    cases v with
    | none => rfl
    | some v => exact s'.exitSlots_eq _
  | _ => exact exiting.elim

theorem Kernel.step_exiting {k : Kernel} {e : Event} (exiting : k.core.Exiting e) :
    k.step e = if (k.exitCourse e).1 then (k.exitCourse e).2.exitTail else .ok (k.exitCourse e).2 := by
  cases e with
  | syscall call =>
    cases exiting
    exact k.exitSlots_eq _
  | resume =>
    obtain ⟨i, semid, j, kEsp⟩ := exiting
    simp only [step, resume, exitCourse, kEsp, goOn]
    split <;> rename_i result <;> simp only [result]
    · rfl
    · exact Kernel.exitSlots_eq _ _
  | _ => exact exiting.elim

/-- Two results of the loop of `sys_exit`. -/
def Refines.Course (x : Bool × State) (y : Bool × Kernel) : Prop := x.1 = y.1 ∧ Refines x.2 y.2

theorem Refines.exitLoop (slots : List SemIndex) {s : State} {k : Kernel} (rep : Refines s k) (sound : k.Sound none)
    (call : k.core.InCall) : Agree Course (s.exitLoop slots) (.ok (k.exitLoop slots)) := by
  induction slots generalizing s k with
  | nil => exact Agree.ok ⟨rfl, rep⟩
  | cons j slots ih =>
    unfold State.exitLoop Kernel.exitLoop
    rw [rep.core]
    split
    · have leads := sound.destroySlots (k.core.semaphores j).id (.exit j) (List.finRange numSems) call
      refine (rep.destroySlots (k.core.semaphores j).id (.exit j) (List.finRange numSems) sound call).bind_ok ?_
      rintro ⟨v, s'⟩ ⟨same, rep'⟩
      generalize Kernel.destroySlots (k.core.semaphores j).id (.exit j) (List.finRange numSems) k = r at *
      obtain ⟨w, k'⟩ := r
      dsimp only at same rep'
      subst same
      cases v with
      | some v => exact ih rep' (leads.1 rfl).1 (leads.1 rfl).2
      | none => exact Agree.ok ⟨rfl, rep'⟩
    · exact ih rep sound call

theorem Refines.exitCourse {s : State} {k : Kernel} {e : Event} (rep : Refines s k) (inv : k.Inv)
    (enabled : k.core.Enabled e) (exiting : k.core.Exiting e) : Agree Course (s.exitCourse e) (.ok (k.exitCourse e)) := by
  unfold State.exitCourse Kernel.exitCourse
  rw [rep.core]
  cases e with
  | syscall call =>
    cases exiting
    exact rep.exitLoop _ inv.toSound (inv.inCall enabled.1 enabled.2.1)
  | resume =>
    obtain ⟨i, semid, j, kEsp⟩ := exiting
    obtain ⟨sound, call, free, unmarked⟩ := inv.resume_destroyer kEsp
    have used := rep.setTask k.core.current (fun ts => { ts with kEsp := .user }) id
    have leads := sound.destroyFrom call i semid (.exit j) free unmarked
    simp only [kEsp]
    refine (used.destroyFrom sound call i semid (.exit j) free unmarked).bind_ok ?_
    rintro ⟨v, s'⟩ ⟨same, rep'⟩
    generalize (k.setTask k.core.current fun ts => { ts with kEsp := .user }).destroyFrom i semid (.exit j) = r at *
    obtain ⟨w, k'⟩ := r
    dsimp only at same rep'
    subst same
    cases v with
    | some v => exact rep'.exitLoop _ (leads.1 rfl).1 (leads.1 rfl).2
    | none => exact Agree.ok ⟨rfl, rep'⟩
  | _ => exact exiting.elim

/-- A semaphore in use that the task with this PID made. -/
def Core.Owns (c : Core) (pid : Int) (i : SemIndex) : Prop :=
  (c.semaphores i).free = false ∧ (c.semaphores i).creatorPID = pid

/-- No task comes to own a semaphore that is not filled. -/
theorem Semaphore.Ages.owns {c c' : Core} {i : SemIndex} {pid : Int} (ages : (c.semaphores i).Ages (c'.semaphores i))
    (task : pid ≠ -1) (owns : c'.Owns pid i) : c.Owns pid i := by
  obtain ⟨used, creator⟩ := owns
  refine ⟨Bool.eq_false_iff.mpr fun free => ?_, ?_⟩
  · rw [ages.free free] at used
    contradiction
  · rcases ages.creatorPID with same | marked
    · rw [← same, creator]
    · exact absurd (creator.symm.trans marked) task

/-- The slots of a task in `sys_exit` up to the one at which it waits are not its own. -/
def Core.Leaver (c : Core) (t : Task) : Prop :=
  ∀ i semid j, (c.task t).kEsp = .semDestroy i semid (.exit j) → ∀ i' ≤ j, ¬ c.Owns (c.task t).pid i'

namespace Kernel

variable {k k' : Kernel} {semid : Int} {caller : DestroyCaller}

theorem Sound.destroySlots_ages (semid : Int) (caller : DestroyCaller) (slots : List SemIndex) (sound : k.Sound none)
    (call : k.core.InCall) (i : SemIndex) :
    (k.core.semaphores i).Ages ((Kernel.destroySlots semid caller slots k).2.core.semaphores i) := by
  obtain ⟨ends, suspended⟩ := table_destroySlots (fun _ => True) semid caller slots sound call fun _ _ _ => trivial
  cases result : (Kernel.destroySlots semid caller slots k).1 with
  | some v => exact (ends (by rw [result]; rfl)).ages i
  | none => exact (suspended result).destroyed.ages i

theorem Sound.destroyFrom_ages (semid : Int) (caller : DestroyCaller) {j : SemIndex} (sound : k.Sound none) (call : k.core.InCall)
    (free : (k.core.semaphores j).free = false) (unmarked : k.core.Unmarked j) (i : SemIndex) :
    (k.core.semaphores i).Ages ((k.destroyFrom j semid caller).2.core.semaphores i) := by
  obtain ⟨ends, suspended⟩ := table_destroyFrom (fun _ => True) sound call semid caller free unmarked trivial
    fun _ _ _ => trivial
  cases result : (k.destroyFrom j semid caller).1 with
  | some v => exact (ends (by rw [result]; rfl)).ages i
  | none => exact (suspended result).destroyed.ages i

theorem destroyRound_marks {i : SemIndex} (round : k.destroyRound i semid caller = some k') :
    (k'.core.semaphores i).creatorPID = -1 := by
  unfold Kernel.destroyRound at round
  split at round
  · contradiction
  · cases round
    rw [(frame_sched _ _).semaphores, (frame_wake _ _).semaphores]
    simp

/-- The loop comes to the slot with its identifier, and frees or marks it if it may. -/
theorem Sound.destroySlots_disowns {slots : List SemIndex} {j : SemIndex} (sound : k.Sound none) (call : k.core.InCall)
    (mem : j ∈ slots) (named : (k.core.semaphores j).id = semid)
    (only : ∀ i, (k.core.semaphores i).id = semid → i = j) :
    ¬ (Kernel.destroySlots semid caller slots k).2.core.Owns k.core.ct.pid j := by
  have task : k.core.ct.pid ≠ -1 := sound.good.pid_ne call.live
  induction slots with
  | nil => contradiction
  | cons i slots ih =>
    unfold Kernel.destroySlots
    by_cases here : i = j
    · subst here
      rw [if_pos named]
      split
      · rename_i free
        rintro ⟨used, _⟩
        rw [free] at used
        contradiction
      split
      · rename_i creator
        rintro ⟨_, mine⟩
        exact creator mine.symm
      rename_i creator
      have unmarked := sound.unmarked call (by simpa using creator)
      split
      · rename_i round
        rintro ⟨_, mine⟩
        rw [destroyRound_marks round] at mine
        exact task mine.symm
      · rename_i round
        intro owns
        have ages := (sound.freeSem unmarked round).destroySlots_ages semid caller slots
          (inCall_setSem call i _) i
        have freed := (ages.owns task owns).1
        simp [Kernel.freeSem] at freed
    · rw [if_neg fun same => here (only i same)]
      exact ih ((List.mem_cons.mp mem).resolve_left (Ne.symm here))

/-- The loop of `sys_exit` has come to its end. -/
structure Ended (k m : Kernel) : Prop where
  sound : m.Sound none
  call : m.core.InCall
  queues : m.queues = k.queues
  core : ∃ semaphores, m.core = { k.core with semaphores }

/-- The loop of `sys_exit` waits at a slot behind a sleeper that it has woken. -/
structure Suspended (k m : Kernel) : Prop where
  live : m.core.live = k.core.live
  place : ∃ i semid j, (m.core.task k.core.current).kEsp = .semDestroy i semid (.exit j) ∧
    ∀ i' ≤ j, ¬ m.core.Owns k.core.ct.pid i'

/-- The loop of `sys_exit` leaves no semaphore of the task behind it. -/
theorem Sound.exitLoop (slots : List SemIndex) {k : Kernel} (sound : k.Sound none) (call : k.core.InCall)
    (sorted : slots.Pairwise (· < ·)) (passed : ∀ i, i ∉ slots → ¬ k.core.Owns k.core.ct.pid i)
    (only : ∀ i j, k.core.Owns k.core.ct.pid j → (k.core.semaphores i).id = (k.core.semaphores j).id → i = j) :
    let r := k.exitLoop slots
    (r.1 = true → k.Ended r.2 ∧ ∀ i, ¬ r.2.core.Owns k.core.ct.pid i) ∧
    (r.1 = false → k.Suspended r.2) := by
  have task : k.core.ct.pid ≠ -1 := sound.good.pid_ne call.live
  induction slots generalizing k with
  | nil => exact ⟨fun _ => ⟨⟨sound, call, rfl, _, rfl⟩, fun i => passed i (List.not_mem_nil)⟩, by simp [Kernel.exitLoop]⟩
  | cons j slots ih =>
    obtain ⟨first, sorted⟩ := List.pairwise_cons.mp sorted
    unfold Kernel.exitLoop
    split
    · rename_i creator
      have leads := sound.destroySlots (k.core.semaphores j).id (.exit j) (List.finRange numSems) call
      have ages := sound.destroySlots_ages (k.core.semaphores j).id (.exit j) (List.finRange numSems) call
      have changed := destroySlots_core (k.core.semaphores j).id (.exit j) (List.finRange numSems) (k := k)
      have queues := destroySlots_queues (k.core.semaphores j).id (.exit j) (List.finRange numSems) (k := k)
      have saves := destroySlots_saves (k.core.semaphores j).id (.exit j) (List.finRange numSems) (k := k)
      have quiet := quiet_destroySlots (k.core.semaphores j).id (.exit j) (List.finRange numSems) sound call
      have disowned : ¬ (Kernel.destroySlots (k.core.semaphores j).id (.exit j) (List.finRange numSems) k).2.core.Owns
          k.core.ct.pid j := fun owns => sound.destroySlots_disowns call (List.mem_finRange j) rfl
        (fun i same => only i j ((ages j).owns task owns) same) owns
      generalize Kernel.destroySlots (k.core.semaphores j).id (.exit j) (List.finRange numSems) k = r at *
      obtain ⟨v, m⟩ := r
      dsimp only at ages disowned
      cases v with
      | none =>
        obtain ⟨i, saved⟩ := saves rfl
        refine ⟨by simp, fun _ => ⟨(quiet rfl).live, i, _, j, saved, fun i' below owns => ?_⟩⟩
        by_cases here : i' = j
        · exact disowned (here ▸ owns)
        · refine passed i' (fun mem => ?_) ((ages i').owns task owns)
          rcases List.mem_cons.mp mem with same | later
          · exact here same
          · exact absurd (first i' later) (not_lt_of_ge below)
      | some v =>
        obtain ⟨sound', call'⟩ := leads.1 rfl
        obtain ⟨semaphores, core⟩ := changed rfl
        dsimp only at core sound' call'
        have pid : m.core.ct.pid = k.core.ct.pid := by rw [core]; rfl
        have current : m.core.current = k.core.current := by rw [core]
        have rest := ih sound' call' sorted
          (fun i absent owns => by
            rw [pid] at owns
            by_cases here : i = j
            · exact disowned (here ▸ owns)
            · exact passed i (by simp [here, absent]) ((ages i).owns task owns))
          (fun i i' owns same => by
            rw [pid] at owns
            rw [(ages i).id, (ages i').id] at same
            exact only i i' ((ages i').owns task owns) same)
          (by rwa [pid])
        rw [pid] at rest
        refine ⟨fun ends => ?_, fun held => ?_⟩
        · obtain ⟨⟨sound₂, call₂, queues₂, semaphores₂, core₂⟩, none⟩ := rest.1 ends
          exact ⟨⟨sound₂, call₂, queues₂.trans (queues rfl), semaphores₂, by rw [core₂, core]⟩, none⟩
        · obtain ⟨live, place⟩ := rest.2 held
          rw [pid, current] at place
          exact ⟨by rw [live, core], place⟩
    · rename_i creator
      refine ih sound call sorted (fun i absent owns => ?_) only task
      by_cases here : i = j
      · subst here
        exact creator owns.2
      · exact passed i (by simp [here, absent]) owns

/-- A task keeps its PID as long as it lives. -/
theorem Inv.pid_step {e : Event} {t : Task} (inv : k.Inv) (allowed : k.core.Allowed e) (step : k.Step e k')
    (live : k.core.live t) (live' : k'.core.live t) : (k'.core.task t).pid = (k.core.task t).pid := by
  refine inv.keeps (fun m => (m.core.live t → (m.core.task t).pid = (k.core.task t).pid) ∧
    (t = k.core.current ∨ m.core.live t)) allowed step (fun m m' mine act ⟨same, mem⟩ => ?_) ⟨fun _ => rfl, .inr live⟩ |>.1 live'
  rcases act.kin with kin | ⟨fill, born⟩ | ⟨fill, unborn⟩ | left
  · rw [kin.live, kin.pid]
    exact ⟨same, mem⟩
  · have alive : m.core.live t := mem.elim (fun here => by rw [here, ← mine]; exact born.alive) id
    obtain ⟨lives, pid, -⟩ := born.elder (born.ne alive)
    exact ⟨fun _ => pid.trans (same alive), .inr (by rwa [lives])⟩
  · have alive : m.core.live t := mem.elim (fun here => by rw [here, ← mine]; exact unborn.alive) id
    rw [unborn.live, unborn.elder alive]
    exact ⟨same, mem⟩
  · refine ⟨fun live' => ?_, ?_⟩
    · obtain ⟨other, alive⟩ := left.stays live'
      rw [left.pid other]
      exact same alive
    · by_cases here : t = m.core.current
      · exact .inl (here.trans mine)
      · rw [left.live, Function.update_of_ne here]
        exact mem.imp id id

/-- A task that is born in a step has no call behind it. -/
theorem Inv.newborn {e : Event} {t : Task} (inv : k.Inv) (allowed : k.core.Allowed e) (step : k.Step e k')
    (dead : k.core.live t = false) (live' : k'.core.live t) : (k'.core.task t).kEsp = .user := by
  have other : t ≠ k.core.current := fun here => by
    have alive := inv.between.live
    rw [← here, dead] at alive
    contradiction
  refine inv.keeps (fun m => m.core.live t → (m.core.task t).kEsp = .user) allowed step
    (fun m m' mine act same live' => ?_) (fun live => by rw [dead] at live; contradiction) live'
  have apart : t ≠ m.core.current := by rwa [mine]
  by_cases live : m.core.live t
  · exact (act.others live apart).1.trans (same live)
  · rcases act.kin with kin | ⟨fill, born⟩ | ⟨fill, unborn⟩ | left
    · rw [kin.live] at live'
      exact absurd live' live
    · by_cases here : t = fill
      · rw [here]
        exact born.child.2.2.2.1
      · rw [(born.elder here).1] at live'
        exact absurd live' live
    · rw [unborn.live] at live'
      exact absurd live' live
    · exact absurd (left.stays live').2 live

theorem mem_slotsAfter {i j : SemIndex} : i ∈ Core.slotsAfter j ↔ j < i := by
  simp only [Core.slotsAfter, List.mem_drop_iff_getElem, List.getElem_finRange, List.length_finRange]
  constructor
  · rintro ⟨n, bound, rfl⟩
    exact Fin.lt_def.mpr (by simp; omega)
  · intro later
    have bound := i.isLt
    have later := Fin.lt_def.mp later
    exact ⟨i.val - (j.val + 1), by omega, Fin.ext (by simp; omega)⟩

theorem slotsAfter_sorted (j : SemIndex) : (Core.slotsAfter j).Pairwise (· < ·) :=
  (List.pairwise_lt_finRange numSems).sublist (List.drop_sublist _ _)

/-- The loop of `sys_exit` in one step: it ends without a semaphore of the task, or it waits. -/
theorem Inv.exitCourse {e : Event} (inv : k.Inv) (numbered : k.core.Numbered) (leaver : k.core.Leaver k.core.current)
    (enabled : k.core.Enabled e) (exiting : k.core.Exiting e) :
    let entered := k.setTask k.core.current fun ts => { ts with kEsp := .user }
    let r := k.exitCourse e
    (r.1 = true → entered.Ended r.2 ∧ ∀ i, ¬ r.2.core.Owns k.core.ct.pid i) ∧
    (r.1 = false → k.Suspended r.2) := by
  intro entered
  have sorted : (List.finRange numSems).Pairwise (· < ·) := List.pairwise_lt_finRange numSems
  have unique (i j : SemIndex) (owns : k.core.Owns k.core.ct.pid j)
      (same : (k.core.semaphores i).id = (k.core.semaphores j).id) : i = j :=
    numbered.unique j i (numbered.used j owns.1) same
  unfold Kernel.exitCourse
  cases e with
  | syscall call =>
    cases exiting
    have user : k.core.ct.kEsp = .user := enabled.1
    have same : entered = k := by
      have kept : ({ k.core.task k.core.current with kEsp := .user } : TaskStruct) = k.core.task k.core.current := by
        rw [← user]
        rfl
      simp only [entered, Kernel.setTask, Core.setTask, Kernel.setCore, kept, Function.update_eq_self]
    rw [same]
    exact inv.toSound.exitLoop _ (inv.inCall enabled.1 enabled.2.1) sorted
      (fun i absent => absurd (List.mem_finRange i) absent) unique
  | resume =>
    obtain ⟨i, semid, j, kEsp⟩ := exiting
    obtain ⟨sound, call, free, unmarked⟩ := inv.resume_destroyer kEsp
    have pid : entered.core.ct.pid = k.core.ct.pid := by simp [entered, Core.ct]
    have task : k.core.ct.pid ≠ -1 := inv.good.pid_ne inv.between.live
    have passed := leaver i semid j kEsp
    have leads := sound.destroyFrom call i semid (.exit j) free unmarked
    have ages := sound.destroyFrom_ages semid (.exit j) call free unmarked
    have changed (ends : (entered.destroyFrom i semid (.exit j)).1.isSome) := destroyFrom_core ends
    have queues (ends : (entered.destroyFrom i semid (.exit j)).1.isSome) := destroyFrom_queues ends
    have saves (ends : (entered.destroyFrom i semid (.exit j)).1 = none) := destroyFrom_saves ends
    have quiet := quiet_destroyFrom sound call semid (.exit j) free unmarked
    have aged {i' : SemIndex} (owns : (entered.destroyFrom i semid (.exit j)).2.core.Owns k.core.ct.pid i') :
        k.core.Owns k.core.ct.pid i' := (ages i').owns task owns
    simp only [kEsp]
    show let r := match entered.destroyFrom i semid (.exit j) with
      | (some _, k) => k.exitLoop (Core.slotsAfter j)
      | (none, k) => (false, k)
      _
    generalize entered.destroyFrom i semid (.exit j) = r at *
    obtain ⟨v, m⟩ := r
    cases v with
    | none =>
      obtain ⟨i', saved⟩ := saves rfl
      exact ⟨by simp, fun _ => ⟨(quiet rfl).live, i', semid, j, saved, fun i' below owns => passed i' below (aged owns)⟩⟩
    | some v =>
      obtain ⟨sound', call'⟩ := leads.1 rfl
      obtain ⟨semaphores, core⟩ := changed rfl
      dsimp only at core sound' call' aged ages
      have ct : m.core.ct.pid = k.core.ct.pid := by rw [core, ← pid]; rfl
      have current : m.core.current = k.core.current := by rw [core]; rfl
      have rest := sound'.exitLoop (Core.slotsAfter j) call' (slotsAfter_sorted j)
        (fun i' absent owns => by
          rw [ct] at owns
          exact passed i' (not_lt.mp fun later => absent (mem_slotsAfter.mpr later)) (aged owns))
        (fun i₁ i₂ owns same => by
          rw [ct] at owns
          rw [(ages i₁).id, (ages i₂).id] at same
          exact unique i₁ i₂ (aged owns) same)
      rw [ct] at rest
      refine ⟨fun ends => ?_, fun held => ?_⟩
      · obtain ⟨⟨sound₂, call₂, queues₂, semaphores₂, core₂⟩, none⟩ := rest.1 ends
        exact ⟨⟨sound₂, call₂, queues₂.trans (queues rfl), semaphores₂, by rw [core₂, core]⟩, none⟩
      · obtain ⟨live, place⟩ := rest.2 held
        rw [ct, current] at place
        exact ⟨by rw [live, core]; rfl, place⟩
  | _ => exact exiting.elim

/-- What waits in `sys_exit` has passed its own semaphores. -/
theorem Inv.leavers_step {e : Event} (inv : k.Inv) (allowed : k.core.Allowed e) (numbered : k.core.Numbered)
    (step : k.Step e k') (leavers : ∀ t, k.core.live t → k.core.Leaver t) : ∀ t, k'.core.live t → k'.core.Leaver t := by
  intro t live' i semid j kEsp i' below owns
  by_cases here : t = k.core.current
  · subst here
    by_cases exiting : k.core.Exiting e
    · obtain ⟨ends, waits⟩ := inv.exitCourse numbered (leavers _ inv.between.live) step.1 exiting
      have pid := inv.pid_step allowed step inv.between.live live'
      have done := step.2
      rw [step_exiting exiting] at done
      cases course : (k.exitCourse e).1 with
      | true =>
        obtain ⟨⟨sound, call, -, semaphores, core⟩, -⟩ := ends course
        have current : (k.exitCourse e).2.core.current = k.core.current := by rw [core]; rfl
        rw [course] at done
        have gone := sound.exitTail_gone call done
        rw [current] at gone
        rw [gone] at live'
        contradiction
      | false =>
        rw [course] at done
        cases done
        obtain ⟨-, i₁, semid₁, j₁, saved, passed⟩ := waits course
        rw [kEsp] at saved
        cases saved
        rw [pid] at owns
        exact passed i' below owns
    · exact step.notExiting exiting i semid j kEsp
  · by_cases live : k.core.live t
    · obtain ⟨-, same⟩ := inv.elsewhere allowed step live here
      have pid := inv.pid_step allowed step live live'
      rw [same] at kEsp
      rw [pid] at owns
      rcases (step_table inv allowed step).ages i' with ages | ⟨v, -, -, filled⟩
      · exact leavers t live i semid j kEsp i' below (ages.owns (inv.good.pid_ne live) owns)
      · have mine : (k'.core.semaphores i').creatorPID = k.core.ct.pid := congrArg Semaphore.creatorPID filled
        exact here (inv.good.distinct t _ live inv.between.live (owns.2.symm.trans mine))
    · rw [inv.newborn allowed step (by simpa using live) live'] at kEsp
      contradiction

end Kernel

/-- Nobody is its own father; the idle task has none. -/
structure Core.Selfless (c : Core) : Prop where
  idle : c.live idleTask ∧ (c.task idleTask).pare = none
  other : ∀ t, c.live t → (c.task t).pare ≠ some t

theorem Core.Selfless.act {c : Core} {e : Event} {k k' : Kernel} (selfless : k.core.Selfless) (act : Kernel.Act c e k k') :
    k'.core.Selfless := by
  obtain ⟨idle, other⟩ := selfless
  rcases act.kin with kin | ⟨fill, born⟩ | ⟨fill, unborn⟩ | left
  · constructor <;> simp only [kin.live, kin.pare]
    · exact idle
    · exact other
  · have idles := born.elder (born.ne idle.1)
    refine ⟨?_, fun t live => ?_⟩
    · rw [idles.1, idles.2.2.1]
      exact idle
    · by_cases same : t = fill
      · have alive := born.alive
        rw [same, born.child.2.1]
        intro own
        rw [Option.some.inj own, born.dead] at alive
        contradiction
      · obtain ⟨lives, -, pare, -⟩ := born.elder same
        rw [pare]
        exact other t (lives ▸ live)
  · refine ⟨?_, fun t live => ?_⟩
    · rw [unborn.live, unborn.elder idle.1]
      exact idle
    · rw [unborn.live] at live
      rw [unborn.elder live]
      exact other t live
  · have idles := Ne.symm left.task
    refine ⟨?_, fun t live => ?_⟩
    · rw [left.live, Function.update_of_ne idles, left.others _ idles]
      simp [idle]
    · obtain ⟨apart, lives⟩ := left.stays live
      rw [left.others t apart]
      dsimp only
      split
      · rename_i child
        rintro same
        rw [← Option.some.inj same, idle.2] at child
        exact absurd child.2 (by simp)
      · exact other t lives

/-- What the tasks owe when they leave. -/
structure Core.Departing (c : Core) : Prop extends c.Selfless where
  leavers : ∀ t, c.live t → c.Leaver t

theorem boot_departing (ram : Nat → Nat → UInt8) : (bootCore ram).Departing := by
  have idle := boot_idle ram
  have one := boot_task1 ram
  refine ⟨⟨⟨by simp [boot_live], by rw [idle]⟩, fun t live => ?_⟩, fun t live => ?_⟩
  · rcases live_boot ram live with rfl | rfl
    · rw [idle]
      simp
    · rw [one]
      simp
  · intro i semid j kEsp
    rcases live_boot ram live with rfl | rfl
    · rw [idle] at kEsp
      contradiction
    · rw [one] at kEsp
      contradiction

theorem Kernel.Inv.departing_step {k k' : Kernel} {e : Event} (inv : k.Inv) (allowed : k.core.Allowed e)
    (numbered : k.core.Numbered) (step : k.Step e k') (departing : k.core.Departing) : k'.core.Departing where
  toSelfless := inv.keeps (fun k => k.core.Selfless) allowed step
    (fun _ _ _ act selfless => selfless.act act) departing.toSelfless
  leavers := inv.leavers_step allowed numbered step departing.leavers

/-- What the task `t` has handed over between the end of its loop over the semaphores and its
last switch. It has left its father's list before it hands its children over. -/
structure Departed (s₀ s₁ : State) (t : Task) (old children waiting ready : List Task) : Prop where
  idle : Ring s₀.links (.head (.fills idleTask)) (old.map .parentAnchor)
  own : Ring s₀.links (.head (.fills t)) (children.map .parentAnchor)
  waits : Ring s₀.links (.head (.waitList t)) (waiting.map .waitAnchor)
  waiters : ∀ u, s₀.core.live u → (s₀.core.task u).currentState = .stBlocked → (s₀.core.task u).kEsp = .waitThread t →
    u ∈ waiting
  adopted : Ring s₁.links (.head (.fills idleTask)) ((old.erase t ++ children).map .parentAnchor)
  pare : ∀ u ∈ children, (s₁.core.task u).pare = some idleTask
  alone : Ring s₁.links (.head (.waitList t)) []
  readyqueue : Ring s₁.links (.head .readyqueue) (ready.map .list)
  released : ∀ u ∈ waiting, (s₁.core.task u).currentState = .stReady ∧ u ∈ ready
  semaphores : ∀ i, ¬ s₁.core.Owns (s₀.core.task t).pid i

/-- The lists of the queues are those of the pointers. -/
theorem Refines.departed {s₀ s₁ : State} {k₀ : Kernel} (rep : Refines s₀ k₀) (sound : k₀.Sound none)
    (call : k₀.core.InCall) (selfless : k₀.core.ct.pare ≠ some k₀.core.current)
    (none : ∀ i, ¬ k₀.core.Owns k₀.core.ct.pid i) (done : s₀.depart = .ok s₁) :
    ∃ old children waiting ready, Departed s₀ s₁ k₀.core.current old children waiting ready := by
  obtain ⟨m, departed, rep₁⟩ := (rep.depart sound call).of_ok done
  have handed := sound.handed call selfless departed
  have task : idleTask ≠ k₀.core.current := Ne.symm call.task
  have idle : k₀.core.Valid (.fills idleTask) := .inl sound.good.idle.1
  refine ⟨k₀.queues (.fills idleTask), k₀.queues (.fills k₀.core.current), k₀.queues (.waitList k₀.core.current),
    m.queues .readyqueue, ?_, ?_, ?_, fun u live state kEsp => ?_, ?_, ?_, ?_, ?_, ?_, fun i owns => ?_⟩
  · exact rep.rings.ring (.fills idleTask) idle
  · exact rep.rings.ring (.fills k₀.core.current) (.inl call.live)
  · exact rep.rings.ring (.waitList k₀.core.current) (.inl call.live)
  · rw [rep.core] at live state kEsp
    exact (sound.placed.mem (.waitList k₀.core.current) u).mpr ⟨live, state, kEsp⟩
  · have ring := rep₁.rings.ring (.fills idleTask) ⟨idle, by simpa using task⟩
    rwa [handed.fills] at ring
  · rw [rep₁.core]
    exact handed.pare
  · have ring := rep₁.rings.ring (.waitList k₀.core.current) ⟨.inl call.live, by simp⟩
    rwa [handed.waitList] at ring
  · exact rep₁.rings.ring .readyqueue ⟨trivial, by simp⟩
  · rw [rep₁.core]
    exact handed.waiters
  · unfold Core.Owns at owns
    rw [rep₁.core, rep.core, handed.semaphores] at owns
    exact none i owns

/-- When a task leaves, its children stand in order behind those of the idle task, which is
their father; who waited for it is ready; and no semaphore in use is its own. This holds in
the runs in which no task is unblocked that waits for something else. -/
theorem exit_hands_over {events : List Event} {s s' : State} {e : Event}
    (run : RunWhere (fun s e => s.core.Numbers e) events s) (exiting : s.core.Exiting e) (step : NumberedStep s e s')
    (gone : s'.core.live s.core.current = false) :
    ∃ s₀ s₁ old children waiting ready, s.exitCourse e = .ok (true, s₀) ∧ s₀.depart = .ok s₁ ∧
      s₁.schedNextRr .exited = .ok s' ∧ Departed s₀ s₁ s.core.current old children waiting ready := by
  obtain ⟨ram, first, started, path⟩ := run
  rw [boot_eq, Except.ok.injEq] at started
  subst started
  obtain ⟨k, rep, inv, numbered, departing⟩ := (boot_refines ram).numbered_path Core.Departing (boot_inv ram)
    (boot_numbered ram) (boot_departing ram)
    (fun _ _ _ inv numbers numbered step departing => inv.departing_step numbers.allowed numbered step departing) path
  obtain ⟨-, enabled, done⟩ := step
  rw [State.step_exiting exiting] at done
  obtain ⟨⟨ended, s₀⟩, course, done⟩ := bind_ok.mp done
  rw [rep.core] at exiting enabled gone ⊢
  obtain ⟨r, result, same, rep₀⟩ := (rep.exitCourse inv enabled exiting).of_ok course
  cases result
  obtain ⟨ends, waits⟩ := inv.exitCourse numbered (departing.leavers _ inv.between.live) enabled exiting
  dsimp only at same rep₀ done
  cases ended with
  | false =>
    cases done
    rw [rep₀.core, (waits same.symm).live] at gone
    have alive := inv.between.live
    rw [gone] at alive
    contradiction
  | true =>
    obtain ⟨⟨sound, call, -, semaphores, core⟩, none⟩ := ends same.symm
    have current : (k.exitCourse e).2.core.current = k.core.current := by rw [core]; rfl
    have pid : (k.exitCourse e).2.core.ct.pid = k.core.ct.pid := by rw [core]; simp [Core.ct]
    have pare : (k.exitCourse e).2.core.ct.pare = k.core.ct.pare := by rw [core]; simp [Core.ct]
    rw [if_pos rfl, State.exitTail_eq] at done
    obtain ⟨s₁, departed, switched⟩ := bind_ok.mp done
    obtain ⟨old, children, waiting, ready, handed⟩ := rep₀.departed sound call
      (by rw [pare, current]; exact departing.other _ inv.between.live) (by rwa [pid]) departed
    rw [current] at handed
    exact ⟨s₀, s₁, old, children, waiting, ready, course, departed, switched, handed⟩

/-- A thread of the running task. -/
def aThread : Syscall := .createThread 0x114000 0x102000 0

def sharedExit : List Event :=
  [.syscall aThread, .syscall aThread, .syscall (.unblock 0), .syscall aThread, .syscall (.semCreate 1), .syscall (.unblock 0),
    .syscall (.waitThread 1000), .resume, .syscall (.unblock 0), .syscall (.unblock 0), .resume]

/-- A task with a child, a waiter and a semaphore exits. -/
theorem exit_hands_over_shared : ∃ s s', RunWhere (fun s e => s.core.Numbers e) sharedExit s ∧
    NumberedStep s (.syscall .exit) s' ∧ ∃ s₀ s₁ old children waiting ready, s.exitCourse (.syscall .exit) = .ok (true, s₀) ∧
      s₀.depart = .ok s₁ ∧ s₁.schedNextRr .exited = .ok s' ∧ Departed s₀ s₁ s.core.current old children waiting ready := by
  obtain ⟨s, run, checked⟩ := executeBoot_run (fun s e => s.core.Numbers e) sharedExit
    (fun s => s.core.Enabled (.syscall .exit) ∧
      (s.step (.syscall .exit)).toOption.any fun s' => s'.core.live s.core.current = false) (by decide +kernel)
  have run : RunWhere (fun s e => s.core.Numbers e) sharedExit s := by simpa using run
  simp only [decide_eq_true_eq] at checked
  obtain ⟨enabled, exits⟩ := checked
  obtain ⟨s', step, gone⟩ := Step.of_any enabled exits
  have step : NumberedStep s (.syscall .exit) s' := ⟨trivial, step⟩
  exact ⟨s, s', run, step, exit_hands_over run rfl step (by simpa using gone)⟩

/-- Two tasks wait for the same one. The first is unblocked and waits again: the second is
lost from the list, and the exit does not wake it. -/
def waitTwice : List Event :=
  [.syscall aThread, .syscall aThread, .syscall aThread, .syscall (.unblock 0), .syscall (.unblock 0),
    .syscall (.waitThread 1000), .syscall (.waitThread 1000), .resume, .syscall (.unblock 1001), .resume,
    .syscall (.unblock 0), .resume, .syscall (.waitThread 1000), .resume, .syscall (.unblock 0), .resume]

theorem exit_leaves_waiter : ∃ s s', Run waitTwice s ∧ Step s (.syscall .exit) s' ∧ s.core.ct.pid ≠ 1 ∧
    s'.core.live s.core.current = false ∧
    (s.core.live 4 ∧ (s.core.task 4).currentState = .stBlocked ∧ (s.core.task 4).kEsp = .waitThread s.core.current) ∧
    s'.core.live 4 ∧ (s'.core.task 4).currentState = .stBlocked := by
  obtain ⟨s, run, checked⟩ := executeBoot_run (fun _ _ => true) waitTwice
    (fun s => s.core.Enabled (.syscall .exit) ∧ s.core.ct.pid ≠ 1 ∧
      (s.core.live 4 ∧ (s.core.task 4).currentState = .stBlocked ∧ (s.core.task 4).kEsp = .waitThread s.core.current) ∧
      (s.step (.syscall .exit)).toOption.any fun s' => s'.core.live s.core.current = false ∧
        s'.core.live 4 ∧ (s'.core.task 4).currentState = .stBlocked) (by decide +kernel)
  simp only [decide_eq_true_eq] at checked
  obtain ⟨enabled, other, waits, exits⟩ := checked
  obtain ⟨s', step, left⟩ := Step.of_any enabled exits
  simp only [decide_eq_true_eq] at left
  exact ⟨s, s', run.run, step, other, left.1, waits, left.2⟩

end Zeos
