import Zeos.Departures
import Zeos.Fairness
import Zeos.Unblocks

/-! When the idle task gets the processor. -/
namespace Zeos
open Circular Placement Outcome

namespace Kernel

variable {c : Core} {e : Event} {k k' : Kernel} {t : Task}

/-- The running task keeps the processor, or gives it up while somebody is ready or while it
cannot go on itself. -/
def Relays (c : Core) (k' : Kernel) : Prop :=
  k'.core.current = c.current ∨ ∃ m : Kernel, m.Sound none ∧ k' = m.dispatch ∧
    (m.queues .readyqueue ≠ [] ∨ m.core.ct.currentState ≠ .stRun)

theorem dispatch_current (k : Kernel) : k.dispatch.core.current = k.next := by
  obtain ⟨cr3, tickCounter, core⟩ := dispatch_core k
  rw [core]
  rfl

theorem Sound.dispatch_idle (sound : k.Sound none) : k.dispatch.core.current = idleTask ↔ k.queues .readyqueue = [] := by
  rw [dispatch_current]
  constructor
  · intro idle
    rcases next_cases k with ⟨none, -⟩ | mem
    · exact none
    · exact absurd idle ((sound.placed.mem .readyqueue k.next).mp mem).2.1
  · intro none
    simp [next, none]

theorem Relays.idle (relays : Relays c k') (task : c.current ≠ idleTask) (idle : k'.core.current = idleTask) :
    k'.queues .readyqueue = [] := by
  rcases relays with same | ⟨m, sound, rfl, busy⟩
  · exact absurd (same.symm.trans idle) task
  · have none := sound.dispatch_idle.mp idle
    have stopped := busy.resolve_left fun some => some none
    rw [sound.dispatch_lists, if_pos rfl, none, if_neg fun both => stopped both.1]
    rfl

theorem wake_somebody (k : Kernel) (t : Task) : (k.wake t).queues .readyqueue ≠ [] := by simp [wake, move, enqueue]

/-- A call of the scheduler. -/
theorem Sound.relays_sched (sound : k.Sound none) (kont : Kont) (other : k.core.current ≠ idleTask ∨ kont = .user)
    (awake : k.core.ct.currentState ≠ .stBlocked) (fits : k.core.live k.core.current → k.core.Fits k.core.current kont)
    (busy : k.queues .readyqueue ≠ [] ∨ k.core.ct.currentState ≠ .stRun) : Relays c (k.sched kont) := by
  have saved := sound.save (fun ts => { ts with kEsp := kont }) (fun _ => ⟨rfl, rfl, rfl, rfl⟩) other awake fits
  refine .inr ⟨_, saved, rfl, ?_⟩
  simpa [Core.ct] using busy

/-- Somebody has been woken. -/
theorem Sound.relays_wake (sound : (k.wake t).Sound none) (call : (k.wake t).core.InCall) (kont : Kont)
    (fits : (k.wake t).core.Fits (k.wake t).core.current kont) : Relays c ((k.wake t).sched kont) :=
  sound.relays_sched kont (.inl call.task) (by rw [call.run]; simp) (fun _ => fits) (.inl (wake_somebody k t))

theorem Sound.relays_park (sound : k.Sound none) (call : k.core.InCall) (kont : Kont) (fits : k.core.Fits k.core.current kont)
    (valid : ∀ h, kont.waitHead = some h → k.core.Valid h) : Relays c (k.park kont).dispatch := by
  refine .inr ⟨_, sound.park call kont fits valid, rfl, .inr ?_⟩
  simp [Core.ct]

section
variable (mine : k.core.current = c.current)
include mine

theorem relays_ret {v : Option Int} : Relays c (k.sysReturn v) := .inl mine

theorem relays_startChild {fill : Task} : Relays c (k.startChild fill) := by
  left
  rw [(frame_startChild k fill).2.current]
  exact mine

end

theorem Sound.relays_sysSemWait (sound : k.Sound none) (call : k.core.InCall) (semid : Int) :
    Relays k.core (k.sysSemWait semid) := by
  rcases sysSemWait_cases k semid with ⟨v, done⟩ | ⟨i, value, free, done | ⟨v, done⟩⟩ <;> rw [done]
  · exact relays_ret rfl
  · refine (sound.countSem free value).relays_park (inCall_setSem call i _) (.semWait i) trivial ?_
    rintro h ⟨⟩
    simp [Core.Valid, free]
  · exact relays_ret rfl

theorem Sound.relays_sysSemSignal (sound : k.Sound none) (call : k.core.InCall) {semid : Int}
    (done : k.sysSemSignal semid = .ok k') : Relays k.core k' := by
  rcases sysSemSignal_cases done with ⟨v, rfl⟩ | ⟨i, value, free, ⟨t, rest, first, rfl⟩ | ⟨v, rfl⟩⟩
  · exact relays_ret rfl
  · obtain ⟨woken, call⟩ := (sound.countSem free value).wakeFirst (inCall_setSem call i _) first
    exact woken.relays_wake call _ trivial
  · exact relays_ret rfl

theorem Sound.relays_destroyRound (sound : k.Sound none) (call : k.core.InCall) {i : SemIndex} {semid : Int}
    {caller : DestroyCaller} (free : (k.core.semaphores i).free = false) (unmarked : k.core.Unmarked i)
    (round : k.destroyRound i semid caller = some k') : Relays c k' := by
  unfold Kernel.destroyRound at round
  split at round
  · contradiction
  rename_i t rest first
  cases round
  have marked := sound.markSem free unmarked
  obtain ⟨woken, call⟩ := marked.wakeFirst (inCall_setSem call i _) first
  exact woken.relays_wake call _ (fits_destroyer free unmarked)

theorem Sound.relays_destroySlots (semid : Int) (caller : DestroyCaller) (slots : List SemIndex) {k : Kernel}
    (sound : k.Sound none) (call : k.core.InCall) (mine : k.core.current = c.current) :
    Relays c (Kernel.destroySlots semid caller slots k).2 := by
  induction slots generalizing k with
  | nil => exact .inl mine
  | cons i slots ih =>
    unfold Kernel.destroySlots
    split
    · split
      · exact .inl mine
      rename_i free
      split
      · exact .inl mine
      rename_i creator
      have unmarked := sound.unmarked call (by simpa using creator)
      split
      · rename_i round
        exact sound.relays_destroyRound call (by simpa using free) unmarked round
      · rename_i round
        exact ih (sound.freeSem unmarked round) (inCall_setSem call i _) mine
    · exact ih sound call mine

theorem Sound.relays_destroyFrom (sound : k.Sound none) (call : k.core.InCall) (mine : k.core.current = c.current)
    (i : SemIndex) (semid : Int) (caller : DestroyCaller) (free : (k.core.semaphores i).free = false)
    (unmarked : k.core.Unmarked i) : Relays c (k.destroyFrom i semid caller).2 := by
  unfold Kernel.destroyFrom
  split
  · rename_i round
    exact sound.relays_destroyRound call free unmarked round
  · rename_i round
    exact (sound.freeSem unmarked round).relays_destroySlots semid caller _ (inCall_setSem call i _) mine

theorem Sound.relays_sysSemDestroy (sound : k.Sound none) (call : k.core.InCall) (semid : Int) :
    Relays k.core (k.sysSemDestroy semid) := by
  unfold sysSemDestroy
  split
  · exact relays_ret rfl
  have relays := sound.relays_destroySlots (c := k.core) semid .syscall (List.finRange numSems) call rfl
  have changed := destroyed_current (destroySlots_core semid .syscall (List.finRange numSems) (k := k))
  split <;> rename_i result <;> rw [result] at relays changed
  · exact relays_ret (changed rfl)
  · exact relays

theorem Leaving.relays_finish (leaving : k.Leaving t) : Relays c
    (((k.setTask t fun ts => { ts with currentState := .stFree }).enqueue .freequeue t).sched .exited) := by
  have freed := leaving.free
  obtain ⟨_, rfl, task, gone, _⟩ := leaving
  refine freed.relays_sched .exited (.inl (by simpa using task)) ?_ (by simp [gone]) (.inr ?_)
  · simp [Core.ct]
  · simp [Core.ct]

theorem Sound.relays_exitTail (sound : k.Sound none) (call : k.core.InCall) (done : k.exitTail = .ok k') : Relays c k' := by
  obtain ⟨core, mem, done⟩ := bind_ok.mp done
  have same := exitMemory_sameTasks mem
  obtain ⟨out, leave, done⟩ := bind_ok.mp done
  cases done
  have leaving : out.Leaving k.core.current := by
    have current : k.core.current = core.current := same.current.symm
    have pare : k.core.ct.pare = core.ct.pare := by simp only [Core.ct, same.task, same.current]
    rw [current, pare] at leave
    rw [current]
    exact (sound.sameTasks same).clearTask (same.inCall call) leave
  obtain ⟨leaving, alone⟩ := leaving.adopt
  exact (leaving.releaseWaiters alone).1.relays_finish

theorem Sound.relays_exitSlots (slots : List SemIndex) {k : Kernel} (sound : k.Sound none) (call : k.core.InCall)
    (mine : k.core.current = c.current) (done : k.exitSlots slots = .ok k') : Relays c k' := by
  induction slots generalizing k with
  | nil => exact sound.relays_exitTail call done
  | cons j slots ih =>
    unfold Kernel.exitSlots at done
    split at done
    · have leads := sound.destroySlots (k.core.semaphores j).id (.exit j) (List.finRange numSems) call
      have relays := sound.relays_destroySlots (c := c) (k.core.semaphores j).id (.exit j) (List.finRange numSems) call mine
      have changed := destroyed_current (destroySlots_core (k.core.semaphores j).id (.exit j) (List.finRange numSems) (k := k))
      split at done <;> rename_i result <;> rw [result] at leads relays changed
      · exact ih (leads.1 rfl).1 (leads.1 rfl).2 ((changed rfl).trans mine) done
      · cases done
        exact relays
    · exact ih sound call mine done

theorem Reading.relays_readWait (reading : k.Reading) (state : k.core.ct.currentState = .stReadblocked)
    (mine : k.core.current = c.current) {b : DWord} {maxchars : Int} (done : k.readWait b maxchars = .ok k') : Relays c k' := by
  unfold Kernel.readWait at done
  split at done
  · cases done
    exact reading.relays_sched _ (.inl reading.task) (by simp [state]) (fun _ => trivial) (.inr (by simp [state]))
  · obtain ⟨core, mem, done⟩ := bind_ok.mp done
    cases done
    have same := readChars_sameTasks mem
    refine relays_ret ?_
    rw [start_core, Core.setTask_current, setCore_core, same.current, mine]

theorem Sound.relays_sysRead (sound : k.Sound none) (call : k.core.InCall) {b : DWord} {maxchars : Int}
    (done : k.sysRead b maxchars = .ok k') : Relays k.core k' := by
  have reading := sound.reading call
  have state : (k.move k.core.current .readBlocked).core.ct.currentState = .stReadblocked := by simp [Core.ct, Head.state]
  rcases sysRead_cases done with ⟨v, rfl⟩ | ⟨-, ⟨-, rfl⟩ | waits⟩
  · exact relays_ret rfl
  · exact reading.relays_sched _ (.inl reading.task) (by rw [state]; simp) (fun _ => trivial) (.inr (by rw [state]; simp))
  · exact reading.relays_readWait state (by simp) waits

theorem Sound.relays_syscall (sound : k.Sound none) (call : k.core.InCall) {request : Syscall}
    (allowed : k.core.Allowed (.syscall request)) (other : ∀ pid, request ≠ .unblock pid)
    (done : k.syscall request = .ok k') : Relays k.core k' := by
  cases request with
  | getpid => cases done; exact relays_ret rfl
  | fork =>
    rcases sysFork_cases done with ⟨v, rfl⟩ | ⟨fill, rest, core, -, ⟨mem, rfl⟩ | ⟨mem, rfl⟩⟩
    · exact relays_ret rfl
    · exact relays_startChild (by simpa using (forkMemory_apart mem).1.current)
    · exact relays_ret (by simpa using (forkMemory_apart mem).1.current)
  | createThread function stack parameter =>
    rcases sysCreateThread_cases done with ⟨v, rfl⟩ | ⟨fill, rest, core, -, mem, rfl⟩
    · exact relays_ret rfl
    · exact relays_startChild (by simpa using (threadMemory_apart mem).1.current)
  | exit => exact sound.relays_exitSlots _ call rfl done
  | block =>
    cases done
    unfold sysBlock
    split
    · exact sound.relays_park call .block trivial (by simp [Kont.waitHead])
    · exact relays_ret rfl
  | unblock pid => exact absurd rfl (other pid)
  | waitThread pid =>
    cases done
    unfold sysWaitThread
    split
    · exact relays_ret rfl
    · rename_i bt here
      refine sound.relays_park call _ trivial fun h waits => ?_
      cases waits
      exact .inl (allowed bt here)
  | read b maxchars => exact sound.relays_sysRead call done
  | dynMem numPags =>
    obtain ⟨core, mem, done⟩ := bind_ok.mp done
    obtain ⟨mm, cr3, v, rfl⟩ := sysDynMem_spec mem
    cases done
    exact .inl rfl
  | semCreate initialValue =>
    cases done
    unfold sysSemCreate
    split <;> exact relays_ret rfl
  | semWait semid => cases done; exact sound.relays_sysSemWait call semid
  | semSignal semid => exact sound.relays_sysSemSignal call done
  | semDestroy semid => cases done; exact sound.relays_sysSemDestroy call semid

theorem Inv.relays_resume (inv : k.Inv) (attends : k.Attends) (inside : ¬ k.core.InUser) (done : k.resume = .ok k') :
    Relays k.core k' := by
  have fits := inv.good.saved _ inv.between.live
  unfold Kernel.resume at done
  cases kEsp : k.core.ct.kEsp <;> rw [kEsp] at done <;> simp only [goOn] at done
  case user => exact absurd kEsp inside
  case read b maxchars =>
    have state := attends.asleep _ b maxchars inv.between.live kEsp
    exact (inv.resume_reading kEsp).relays_readWait (by simpa [Core.ct] using state) rfl done
  case semDestroy i semid caller =>
    obtain ⟨sound, call, free, unmarked⟩ := inv.resume_destroyer kEsp
    have relays := sound.relays_destroyFrom (c := k.core) call rfl i semid caller free unmarked
    have leads := sound.destroyFrom call i semid caller free unmarked
    have changed (ends : ((k.setTask k.core.current fun ts => { ts with kEsp := .user }).destroyFrom i semid caller).1.isSome) :=
      destroyed_current destroyFrom_core ends
    split at done <;> rename_i result <;> rw [result] at relays leads changed
    · cases done
      exact relays
    · obtain ⟨sound, call⟩ := leads.1 rfl
      cases caller with
      | syscall => cases done; exact relays_ret (changed rfl)
      | exit j => exact sound.relays_exitSlots _ call (changed rfl) done
  case exited =>
    rw [Core.ct] at kEsp
    simp [kEsp, Core.Fits] at fits
  all_goals
    cases done
    exact relays_ret rfl

theorem Sound.ready_nil (sound : k.Sound none) : k.queues .readyqueue = [] ↔
    ∀ t, k.core.live t → t ≠ idleTask → (k.core.task t).currentState ≠ .stReady := by
  constructor
  · intro none t live task ready
    have mem := (sound.placed.mem .readyqueue t).mpr ⟨live, task, ready⟩
    rw [none] at mem
    contradiction
  · intro busy
    rw [List.eq_nil_iff_forall_not_mem]
    intro t mem
    obtain ⟨live, task, ready⟩ := (sound.placed.mem .readyqueue t).mp mem
    exact busy t live task ready

/-- A task that calls the scheduler while it can go on is overtaken by the idle task when nobody
else is ready. -/
theorem Sound.sched_idle_iff (sound : k.Sound none) (kont : Kont) (task : k.core.current ≠ idleTask)
    (run : k.core.ct.currentState = .stRun) (fits : k.core.live k.core.current → k.core.Fits k.core.current kont) :
    ((k.sched kont).core.current = idleTask → (k.sched kont).queues .readyqueue = []) ↔ k.queues .readyqueue ≠ [] := by
  have saved := sound.save (fun ts => { ts with kEsp := kont }) (fun _ => ⟨rfl, rfl, rfl, rfl⟩) (.inl task) (by simp [run]) fits
  have idle := saved.dispatch_idle
  have lists := saved.dispatch_lists .readyqueue
  rw [if_pos rfl, if_pos ⟨by simpa [Core.ct] using run, by simpa using task⟩] at lists
  rw [Kernel.sched, idle, lists]
  simp

end Kernel

namespace Core

/-- The step gives the processor to the idle task, or leaves it there at the end of a quantum. -/
def Idles (c : Core) (e : Event) (c' : Core) : Prop :=
  c'.current = idleTask ∧ (c.current ≠ idleTask ∨ e = .clock ∧ c.tickCounter ≤ 1)

/-- The running task calls the scheduler though it can go on, and has woken nobody. -/
def Insists (c : Core) : Event → Prop
  | .clock => c.tickCounter ≤ 1
  | .syscall (.unblock pid) => ∀ t, c.Named pid t → (c.task t).currentState ≠ .stBlocked
  | _ => False

end Core

namespace Kernel

variable {e : Event} {k k' : Kernel}

theorem Inv.clock_idle_iff (inv : k.Inv) (user : k.core.InUser) :
    (k.core.Idles .clock k.clockRoutine.core → k.clockRoutine.queues .readyqueue = []) ↔
      ¬ (k.queues .readyqueue = [] ∧ k.core.current ≠ idleTask ∧ k.core.Insists .clock) := by
  have run := inv.run user
  let ticked := k.setCore { k.core with
    zeosTick := int32 (k.core.zeosTick + 10)
    tickCounter := if 0 < k.core.tickCounter then k.core.tickCounter - 1 else k.core.tickCounter }
  have sound : ticked.Sound none := inv.toSound.sameTasks ⟨rfl, rfl, rfl, rfl, rfl⟩
  have ends : ticked.core.tickCounter ≤ 0 ↔ k.core.tickCounter ≤ 1 := by
    show (if 0 < k.core.tickCounter then k.core.tickCounter - 1 else k.core.tickCounter) ≤ 0 ↔ _
    split <;> omega
  have routine : k.clockRoutine = if ticked.core.tickCounter ≤ 0 then ticked.sched .user else ticked := rfl
  by_cases expired : k.core.tickCounter ≤ 1
  · rw [routine, if_pos (ends.mpr expired)]
    by_cases task : k.core.current = idleTask
    · have awake : ticked.core.ct.currentState ≠ .stBlocked := by
        rw [show ticked.core.ct.currentState = .stRun from run]
        simp
      have saved := sound.save (fun ts => { ts with kEsp := .user }) (fun _ => ⟨rfl, rfl, rfl, rfl⟩) (.inr rfl) awake
        fun _ => trivial
      refine iff_of_true (fun idles => ?_) fun all => all.2.1 task
      have lists := saved.dispatch_lists .readyqueue
      rw [if_pos rfl, if_neg fun both => both.2 task] at lists
      rw [sched, lists, saved.dispatch_idle.mp idles.1]
      rfl
    · have idle := sound.sched_idle_iff .user task run fun _ => trivial
      have same : (k.core.Idles .clock (ticked.sched .user).core) ↔ (ticked.sched .user).core.current = idleTask :=
        and_iff_left (.inl task)
      have rest : k.core.current ≠ idleTask ∧ k.core.Insists .clock := ⟨task, expired⟩
      rw [same, idle]
      show _ ↔ ¬ (ticked.queues .readyqueue = [] ∧ _)
      rw [and_iff_left rest]
  · rw [routine, if_neg fun less => expired (ends.mp less)]
    refine iff_of_true (fun idles => ?_) fun all => expired all.2.2
    rcases idles.2 with task | ⟨-, less⟩
    · exact absurd idles.1 task
    · exact absurd less expired

theorem Inv.unblock_idle_iff (inv : k.Inv) (call : k.core.InCall) (pid : Int) :
    (k.core.Idles (.syscall (.unblock pid)) (k.sysUnblock pid).core → (k.sysUnblock pid).queues .readyqueue = []) ↔
      ¬ (k.queues .readyqueue = [] ∧ k.core.current ≠ idleTask ∧ k.core.Insists (.syscall (.unblock pid))) := by
  obtain ⟨_, tasks⟩ := foldl_unblockChild pid (k.queues (.fills k.core.current)) (inv.placed.nodup _) (-1, k)
  have current := unblockLoop_current pid (k.queues (.fills k.core.current)) (-1, k)
  have kin := kin_unblockLoop pid (k.queues (.fills k.core.current)) (-1, k)
  obtain ⟨sound, calling⟩ := inv.toSound.unblockLoop call pid
  have idle := sound.sched_idle_iff (.unblock ((k.queues (.fills k.core.current)).foldl (unblockChild pid) (-1, k)).1)
    calling.task calling.run fun _ => trivial
  have mem (t : Task) : t ∈ k.queues (.fills k.core.current) ↔ k.core.live t ∧ (k.core.task t).pare = some k.core.current :=
    inv.placed.mem (.fills k.core.current) t
  have empty : ((k.queues (.fills k.core.current)).foldl (unblockChild pid) (-1, k)).2.queues .readyqueue = [] ↔
      k.queues .readyqueue = [] ∧ k.core.Insists (.syscall (.unblock pid)) := by
    rw [sound.ready_nil, inv.toSound.ready_nil, kin.live]
    constructor
    · intro busy
      refine ⟨fun t live task ready => ?_, fun t named asleep => ?_⟩
      · refine busy t live task ?_
        rw [tasks]
        split
        · simp [TaskStruct.roused, ready]
        · exact ready
      · have task : t ≠ idleTask := by
          rintro rfl
          have idle := inv.good.idle.2.2.2
          simp [asleep] at idle
        refine busy t named.1 task ?_
        rw [tasks, if_pos ⟨(mem t).mpr ⟨named.1, named.2.1⟩, named.2.2⟩]
        show (k.core.task t).roused.currentState = _
        rw [TaskStruct.roused, if_pos asleep]
    · rintro ⟨busy, awake⟩ t live task ready
      rw [tasks] at ready
      split at ready
      · rename_i named
        obtain ⟨alive, pare⟩ := (mem t).mp named.1
        have awake := awake t ⟨alive, pare, named.2⟩
        have ready : (k.core.task t).roused.currentState = .stReady := ready
        rw [TaskStruct.roused, if_neg awake] at ready
        exact busy t live task ready
      · exact busy t live task ready
  have same : k.core.Idles (.syscall (.unblock pid)) (k.sysUnblock pid).core ↔ (k.sysUnblock pid).core.current = idleTask :=
    and_iff_left (.inl call.task)
  rw [same, and_left_comm, and_iff_right call.task, ← empty]
  exact idle

/-- The idle task gets the processor while nobody is ready, but from a task that insists. -/
theorem Inv.idle_iff (inv : k.Inv) (attends : k.Attends) (allowed : k.core.Allowed e) (step : k.Step e k') :
    (k.core.Idles e k'.core → k'.queues .readyqueue = []) ↔
      ¬ (k.queues .readyqueue = [] ∧ k.core.current ≠ idleTask ∧ k.core.Insists e) := by
  obtain ⟨enabled, done⟩ := step
  have calm (relays : Relays k.core k') (other : ∀ c : Core, ¬ c.Insists e) (clock : e ≠ .clock) :
      (k.core.Idles e k'.core → k'.queues .readyqueue = []) ↔
        ¬ (k.queues .readyqueue = [] ∧ k.core.current ≠ idleTask ∧ k.core.Insists e) := by
    refine iff_of_true (fun idles => ?_) fun all => other _ all.2.2
    rcases idles.2 with task | ⟨same, -⟩
    · exact relays.idle task idles.1
    · exact absurd same clock
  cases e with
  | clock =>
    cases done
    exact inv.clock_idle_iff enabled
  | key readInp =>
    cases done
    refine iff_of_true (fun idles => ?_) fun all => all.2.2
    rcases idles.2 with task | ⟨same, -⟩
    · have idle := idles.1
      unfold Kernel.keyboardRoutine at idle
      split at idle
      · exact absurd idle task
      dsimp only at idle
      split at idle
      · exact absurd idle task
      · rename_i nt rest first
        have reader := (inv.placed.mem .readBlocked nt).mp (by rw [show k.queues .readBlocked = nt :: rest from first]; simp)
        have idle : nt = idleTask := idle
        have state := inv.good.idle.2.2.2
        rw [← idle, reader.2] at state
        simp at state
    · contradiction
  | syscall request =>
    have call := inv.inCall enabled.1 enabled.2.1
    by_cases unblock : ∃ pid, request = .unblock pid
    · obtain ⟨pid, rfl⟩ := unblock
      cases done
      exact inv.unblock_idle_iff call pid
    · refine calm (inv.toSound.relays_syscall call allowed (fun pid same => unblock ⟨pid, same⟩) done) (fun c insists => ?_) nofun
      cases request <;> first | exact insists | exact unblock ⟨_, rfl⟩
  | resume => exact calm (inv.relays_resume attends enabled done) (fun _ => id) nofun

end Kernel

/-- No task but the idle one can run. -/
def State.Lull (s : State) : Prop :=
  s.Ready [] ∧ ∀ t, s.core.live t → t ≠ idleTask →
    (s.core.task t).currentState ≠ .stReady ∧ (s.core.task t).currentState ≠ .stRun

theorem Refines.lull_iff {s : State} {k : Kernel} (rep : Refines s k) (inv : k.Inv) (idle : k.core.current = idleTask) :
    s.Lull ↔ k.queues .readyqueue = [] := by
  constructor
  · exact fun lull => rep.ready.unique lull.1
  · intro none
    refine ⟨none ▸ rep.ready, fun t live task => ?_⟩
    rw [rep.core] at live ⊢
    refine ⟨inv.toSound.ready_nil.mp none t live task, fun run => task ?_⟩
    rw [inv.good.running t live run, idle]

/-- The idle task is dispatched only in a lull, except when the running task insists on the
scheduler while nobody else is ready: then the idle task is chosen before the running one
is put back into the ready queue. -/
theorem idle_in_lull_iff {events : List Event} {s s' : State} {e : Event}
    (run : RunWhere (fun s e => s.core.Allowed e) events s) (allowed : s.core.Allowed e) (step : Step s e s') :
    (s.core.Idles e s'.core → s'.Lull) ↔ ¬ (s.Ready [] ∧ s.core.current ≠ idleTask ∧ s.core.Insists e) := by
  obtain ⟨k, rep, inv, attends⟩ := run.invariant Core.Allowed Kernel.Attends (fun ram => (Kernel.boot_patient ram).1)
    (fun _ _ _ _ allowed => allowed)
    fun k e k' inv inv' attends allowed step => (attends.readStep inv allowed step).attends inv inv' attends
  rw [rep.core] at allowed
  obtain ⟨k', step', rep', inv'⟩ := rep.advance inv allowed step
  have ready : s.Ready [] ↔ k.queues .readyqueue = [] := by
    constructor
    · exact fun none => rep.ready.unique none
    · exact fun none => none ▸ rep.ready
  rw [ready, rep.core, rep'.core, ← inv.idle_iff attends allowed step']
  constructor
  · exact fun lull idles => (rep'.lull_iff inv' idles.1).mp (lull idles)
  · exact fun none idles => (rep'.lull_iff inv' idles.1).mpr (none idles)

/-- `task1` blocks. -/
theorem idle_in_lull_block : ∃ s s', RunWhere (fun s e => s.core.Allowed e) [] s ∧ Step s (.syscall .block) s' ∧
    s.core.Idles (.syscall .block) s'.core ∧ s'.Lull := by
  obtain ⟨s, run, checked⟩ := executeBoot_run (fun s e => s.core.Allowed e) []
    (fun s => (s.core.Enabled (.syscall .block) ∧ s.core.current ≠ idleTask) ∧
      (s.step (.syscall .block)).toOption.any fun s' => s'.core.current = idleTask) (by decide +kernel)
  simp only [decide_eq_true_eq] at run checked
  obtain ⟨⟨enabled, task⟩, rest⟩ := checked
  obtain ⟨s', step, idle⟩ := Step.of_any enabled rest
  rw [decide_eq_true_eq] at idle
  have idles : s.core.Idles (.syscall .block) s'.core := ⟨idle, .inl task⟩
  have allowed : s.core.Allowed (.syscall .block) := trivial
  exact ⟨s, s', run, step, idles, (idle_in_lull_iff run allowed step).mpr (fun all => all.2.2) idles⟩

/-- The quantum of `task1` is over. -/
theorem idle_overtakes : ∃ s s', Run (.replicate 9 .clock) s ∧ Step s .clock s' ∧ s.core.Idles .clock s'.core ∧
    s'.Ready [task1] ∧ ¬ s'.Lull := by
  obtain ⟨s, run, checked⟩ := executeBoot_run (fun _ _ => True) (.replicate 9 .clock)
    (fun s => (s.core.Enabled .clock ∧ s.core.current ≠ idleTask) ∧
      (s.step .clock).toOption.any fun s' => s'.core.current = idleTask ∧ s'.Ready [task1]) (by decide +kernel)
  simp only [decide_eq_true_eq] at checked
  obtain ⟨⟨enabled, task⟩, rest⟩ := checked
  obtain ⟨s', step, behind⟩ := Step.of_any enabled rest
  rw [decide_eq_true_eq] at behind
  obtain ⟨idle, ready⟩ := behind
  refine ⟨s, s', run.run, step, ⟨idle, .inl task⟩, ready, fun lull => ?_⟩
  have same := lull.1.unique ready
  contradiction

end Zeos
