import Zeos.Runs

/-! The table of semaphores: what a step does to the slots and to those who sleep in them. -/
namespace Zeos
open Outcome

/-- The semaphores with their sleepers. -/
structure Table where
  slot : SemIndex → Semaphore
  sleepers : SemIndex → List Task

namespace Table

variable {T T' T'' : Table} {i j : SemIndex}

def set (i : SemIndex) (m : Semaphore) (sleepers : List Task) (T : Table) : Table :=
  ⟨Function.update T.slot i m, Function.update T.sleepers i sleepers⟩

@[simp] theorem set_slot (m : Semaphore) (ts : List Task) :
    (T.set i m ts).slot j = if j = i then m else T.slot j := by simp [set, Function.update_apply]
@[simp] theorem set_sleepers (m : Semaphore) (ts : List Task) :
    (T.set i m ts).sleepers j = if j = i then ts else T.sleepers j := by simp [set, Function.update_apply]

/-- A wait of `t`: it sleeps when the counter is negative. -/
def take (i : SemIndex) (t : Task) (T : Table) : Table :=
  let value := int32 ((T.slot i).value - 1)
  T.set i { T.slot i with value } (if value < 0 then T.sleepers i ++ [t] else T.sleepers i)

/-- A signal: the first sleeper is woken while the counter says that there is one. -/
def give (i : SemIndex) (T : Table) : Table :=
  let value := int32 ((T.slot i).value + 1)
  T.set i { T.slot i with value } (if value ≤ 0 then (T.sleepers i).tail else T.sleepers i)

/-- A round of the destroyer. -/
def mark (i : SemIndex) (T : Table) : Table :=
  T.set i { T.slot i with creatorPID := -1 } (T.sleepers i).tail

def release (i : SemIndex) (T : Table) : Table :=
  T.set i { T.slot i with free := true } (T.sleepers i)

/-- Slots without sleepers are given back. -/
inductive Released (own : SemIndex → Prop) : Table → Table → Prop where
  | refl (T : Table) : Released own T T
  | release {T T' : Table} (i : SemIndex) (mine : own i) (used : (T.slot i).free = false)
      (empty : T.sleepers i = []) (rest : Released own (T.release i) T') : Released own T T'

/-- Slots are given back, till one has a sleeper, who is woken. -/
def Destroyed (own : SemIndex → Prop) (T T' : Table) : Prop :=
  ∃ M, Released own T M ∧
    (T' = M ∨ ∃ i, own i ∧ (M.slot i).free = false ∧ M.sleepers i ≠ [] ∧ T' = M.mark i)

namespace Released

variable {own own' : SemIndex → Prop}

theorem trans (first : Released own T T') (second : Released own T' T'') : Released own T T'' := by
  induction first with
  | refl T => exact second
  | release i mine used empty _ ih => exact .release i mine used empty (ih second)

theorem mono (released : Released own T T') (more : ∀ i, own i → own' i) : Released own' T T' := by
  induction released with
  | refl T => exact .refl T
  | release i mine used empty _ ih => exact .release i (more i mine) used empty ih

theorem sleepers (released : Released own T T') : T'.sleepers = T.sleepers := by
  induction released with
  | refl T => rfl
  | release i _ _ _ _ ih =>
    rw [ih]
    funext j
    by_cases same : j = i <;> simp [Table.release, same]

/-- A slot is unchanged, or it was given back. -/
theorem slot (released : Released own T T') (i : SemIndex) :
    T'.slot i = T.slot i ∨ own i ∧ T'.slot i = { T.slot i with free := true } := by
  induction released with
  | refl T => exact .inl rfl
  | release j mine _ _ _ ih =>
    by_cases same : i = j
    · subst same
      rcases ih with ih | ih
      · exact .inr ⟨mine, by simpa [Table.release] using ih⟩
      · exact .inr ⟨mine, by simpa [Table.release] using ih.2⟩
    · simpa [Table.release, same] using ih

theorem destroyed (released : Released own T T') (rest : Destroyed own T' T'') : Destroyed own T T'' := by
  obtain ⟨M, more, last⟩ := rest
  exact ⟨M, released.trans more, last⟩

end Released

theorem Destroyed.mono {own own' : SemIndex → Prop} (destroyed : Destroyed own T T')
    (more : ∀ i, own i → own' i) : Destroyed own' T T' := by
  obtain ⟨M, released, last⟩ := destroyed
  refine ⟨M, released.mono more, last.imp id ?_⟩
  rintro ⟨i, mine, rest⟩
  exact ⟨i, more i mine, rest⟩

end Table

namespace Core

/-- The slots a step of a destroyer may give back. -/
def Destroys (c : Core) (i : SemIndex) : Event → Prop
  | .syscall (.semDestroy semid) => (c.semaphores i).id = semid ∧ (c.semaphores i).creatorPID = c.ct.pid
  | .syscall .exit => (c.semaphores i).creatorPID = c.ct.pid
  | .resume => ∃ j semid caller, c.ct.kEsp = .semDestroy j semid caller ∧
      (i = j ∨ (c.semaphores i).creatorPID = c.ct.pid)
  | _ => False

/-- The slots in which the step of a destroyer may wake a sleeper. -/
def Rouses (c : Core) (i : SemIndex) : Event → Prop
  | .syscall (.semDestroy semid) => (c.semaphores i).id = semid ∧ (c.semaphores i).creatorPID = c.ct.pid
  | .syscall .exit => (c.semaphores i).creatorPID = c.ct.pid
  | .resume => match c.ct.kEsp with
    | .semDestroy j semid caller =>
      i = j ∨ (c.semaphores i).creatorPID = c.ct.pid ∧ ((c.semaphores i).id = semid ∨ caller ≠ .syscall)
    | _ => False
  | _ => False

instance (c : Core) (i : SemIndex) (e : Event) : Decidable (c.Rouses i e) := by
  have resume : Decidable (c.Rouses i .resume) := by
    unfold Rouses
    dsimp only
    split <;> infer_instance
  unfold Rouses at resume ⊢
  apply e.decidable

theorem Rouses.destroys {c : Core} {i : SemIndex} {e : Event} (rouses : c.Rouses i e) : c.Destroys i e := by
  unfold Rouses at rouses
  split at rouses
  · exact rouses
  · exact rouses
  · split at rouses
    · rename_i j semid caller kEsp
      exact ⟨j, semid, caller, kEsp, rouses.imp id And.left⟩
    · contradiction
  · contradiction

/-- What a step does to the table. -/
def TableStep (c : Core) : Event → Table → Table → Prop
  | .syscall (.semCreate initialValue), T, T' =>
    T' = match c.freeSlot with
      | none => T
      | some i => T.set i ⟨c.semIDglobal, initialValue, false, c.ct.pid, initialValue⟩ []
  | .syscall (.semWait semid), T, T' =>
    T' = match c.hit semid with
      | none => T
      | some i => T.take i c.current
  | .syscall (.semSignal semid), T, T' =>
    T' = match c.hit semid with
      | none => T
      | some i => T.give i
  | .syscall (.semDestroy semid), T, T' => T.Destroyed (fun i => c.Destroys i (.syscall (.semDestroy semid))) T'
  | .syscall .exit, T, T' => T.Destroyed (fun i => c.Destroys i (.syscall .exit)) T'
  | .resume, T, T' => T.Destroyed (fun i => c.Destroys i .resume) T'
  | _, T, T' => T' = T

end Core

namespace Kernel

variable {k k' : Kernel} {t : Task} {h : Head} {i : SemIndex}

def table (k : Kernel) : Table := ⟨k.core.semaphores, fun i => k.queues (.blockedThreads i)⟩

@[simp] theorem table_slot : k.table.slot i = k.core.semaphores i := rfl
@[simp] theorem table_sleepers : k.table.sleepers i = k.queues (.blockedThreads i) := rfl

theorem table_congr (semaphores : k'.core.semaphores = k.core.semaphores)
    (queues : ∀ i, k'.queues (.blockedThreads i) = k.queues (.blockedThreads i)) : k'.table = k.table := by
  simp [table, semaphores, queues]

@[simp] theorem table_setTask (f : TaskStruct → TaskStruct) : (k.setTask t f).table = k.table := rfl
@[simp] theorem table_sysReturn (v : Option Int) : (k.sysReturn v).table = k.table := rfl
@[simp] theorem table_switch : (k.switch t).table = k.table := rfl
@[simp] theorem table_setQuantum : (k.setQuantum t).table = k.table := rfl
theorem table_setCore {c : Core} (same : c.semaphores = k.core.semaphores) : (k.setCore c).table = k.table := by
  simp [table, same]
theorem table_setSem (f : Semaphore → Semaphore) :
    (k.setSem i f).table = k.table.set i (f (k.core.semaphores i)) (k.queues (.blockedThreads i)) := by
  simp only [table, Table.set, setSem_core, setSem_queues, Core.setSem]
  rw [Function.update_eq_self]

theorem table_enqueue (other : ∀ i, h ≠ .blockedThreads i) : (k.enqueue h t).table = k.table :=
  table_congr rfl fun i => by simp [enqueue, Ne.symm (other i)]
theorem table_dequeue (other : ∀ i, h ≠ .blockedThreads i) : (k.dequeue h t).table = k.table :=
  table_congr rfl fun i => by simp [dequeue, Ne.symm (other i)]
theorem table_clear (other : ∀ i, h ≠ .blockedThreads i) : (k.clear h).table = k.table :=
  table_congr rfl fun i => by simp [clear, Ne.symm (other i)]

@[simp] theorem table_leave (s : TaskState) : (k.dequeue? s.queue t).table = k.table := by
  cases s <;> rfl

theorem table_move (other : ∀ i, h ≠ .blockedThreads i) : (k.move t h).table = k.table := by
  rw [move, table_enqueue other, table_setTask, table_leave]

@[simp] theorem table_yield : k.yield.table = k.table := by
  unfold yield
  split
  · split
    · rfl
    · exact table_move (by simp)
  · rfl

@[simp] theorem table_start : (k.start t).table = k.table := by
  unfold start
  split <;> simp

@[simp] theorem table_dispatch : k.dispatch.table = k.table := by simp [dispatch]
@[simp] theorem table_sched (kont : Kont) : (k.sched kont).table = k.table := by simp [sched]

theorem table_wake (other : ∀ i, (k.core.task t).kEsp ≠ .semWait i) : (k.wake t).table = k.table := by
  rw [wake, table_move (by simp)]
  cases kEsp : (k.core.task t).kEsp <;> try rfl
  case semWait i => exact absurd kEsp (other i)

/-- The first sleeper of a semaphore is woken. -/
theorem table_wakeFirst {rest : List Task} (kEsp : (k.core.task t).kEsp = .semWait i)
    (first : k.queues (.blockedThreads i) = t :: rest) :
    (k.wake t).table = k.table.set i (k.core.semaphores i) rest := by
  rw [wake, table_move (by simp), kEsp]
  simp only [Kont.waitHead, dequeue?, dequeue, table, Table.set, Function.update_eq_self, first,
    List.erase_cons_head, Table.mk.injEq, true_and]
  funext j
  by_cases same : j = i <;> simp [same]

theorem table_park {kont : Kont} (other : ∀ i, kont ≠ .semWait i) : (k.park kont).table = k.table := by
  rw [park, table_setTask, table_move (by simp)]
  cases kont <;> try rfl
  case semWait i => exact absurd rfl (other i)

/-- The running task falls asleep in a semaphore. -/
theorem table_parkSem : (k.park (.semWait i)).table =
    k.table.set i (k.core.semaphores i) (k.queues (.blockedThreads i) ++ [k.core.current]) := by
  rw [park, table_setTask, table_move (by simp)]
  simp only [Kont.waitHead, enqueue?, enqueue, table, Table.set, Function.update_eq_self, Table.mk.injEq, true_and]
  funext j
  by_cases same : j = i <;> simp [same]

@[simp] theorem table_startChild : (k.startChild t).table = k.table := by
  unfold startChild
  dsimp only
  rw [table_sysReturn, table_move (by simp), table_clear (by simp), table_clear (by simp), table_enqueue (by simp)]
  exact table_setCore rfl

theorem table_sysFork (done : k.sysFork = .ok k') : k'.table = k.table := by
  rcases sysFork_cases done with ⟨v, rfl⟩ | ⟨fill, rest, core, first, ⟨memory, rfl⟩ | ⟨memory, rfl⟩⟩
  · simp
  all_goals
    obtain ⟨apart, _⟩ := forkMemory_apart memory
    have taken : ((k.dequeue .freequeue fill).setTask fill fun _ => k.core.ct).table = k.table :=
      table_dequeue (by simp)
    have same : (((k.dequeue .freequeue fill).setTask fill fun _ => k.core.ct).setCore core).table = k.table := by
      rw [table_setCore apart.semaphores, taken]
  · rw [table_startChild, same]
  · rw [table_sysReturn, table_enqueue (by simp), same]

theorem table_sysCreateThread {function stack parameter : DWord}
    (done : k.sysCreateThread function stack parameter = .ok k') : k'.table = k.table := by
  rcases sysCreateThread_cases done with ⟨v, rfl⟩ | ⟨fill, rest, core, first, memory, rfl⟩
  · simp
  obtain ⟨apart, _⟩ := threadMemory_apart memory
  have taken : ((k.dequeue .freequeue fill).setTask fill fun _ => k.core.ct).table = k.table :=
    table_dequeue (by simp)
  rw [table_startChild, table_setCore apart.semaphores, taken]

theorem table_sysSemCreate (initialValue : Int) : (k.sysSemCreate initialValue).table =
    match k.core.freeSlot with
    | none => k.table
    | some i => k.table.set i ⟨k.core.semIDglobal, initialValue, false, k.core.ct.pid, initialValue⟩ [] := by
  unfold sysSemCreate
  cases k.core.freeSlot with
  | none => rfl
  | some i =>
    simp only [table_sysReturn]
    refine (Table.mk.injEq ..).mpr ⟨rfl, ?_⟩
    funext j
    by_cases same : j = i <;> simp [same, clear]

theorem table_sysSemWait (semid : Int) : (k.sysSemWait semid).table =
    match k.core.hit semid with
    | none => k.table
    | some i => k.table.take i k.core.current := by
  unfold sysSemWait Core.hit
  by_cases system : semid < firstUserSemId
  · rw [if_pos system, if_pos system]
    rfl
  rw [if_neg system, if_neg system]
  cases k.core.slotOf semid with
  | none => rfl
  | some i =>
    cases free : (k.core.semaphores i).free
    · simp only [Bool.false_eq_true, if_false, Option.filter_some, free, Bool.not_false, if_true]
      have counted := table_setSem (k := k) (i := i) fun m => { m with value := int32 ((k.core.semaphores i).value - 1) }
      split
      · rename_i negative
        rw [table_dispatch, table_parkSem, counted]
        simp [Table.take, Table.set, negative]
      · rename_i positive
        rw [table_sysReturn, counted]
        simp [Table.take, positive]
    · simp [Option.filter_some, free]

theorem table_sysSemSignal (sound : k.Sound none) {semid : Int} (done : k.sysSemSignal semid = .ok k') :
    k'.table = match k.core.hit semid with
      | none => k.table
      | some i => k.table.give i := by
  unfold sysSemSignal at done
  unfold Core.hit
  split at done
  · rename_i system
    cases done
    simp [system]
  rename_i user
  rw [if_neg user]
  cases found : k.core.slotOf semid with
  | none => rw [found] at done; cases done; rfl
  | some i =>
    rw [found] at done
    cases free : (k.core.semaphores i).free
    · simp only [free, Bool.false_eq_true, if_false] at done
      simp only [Option.filter_some, free, Bool.not_false, if_true]
      have counted := table_setSem (k := k) (i := i) fun m => { m with value := int32 ((k.core.semaphores i).value + 1) }
      split at done
      · rename_i waiting
        split at done
        · contradiction
        rename_i t rest first
        cases done
        have kEsp := (sound.countSem free (int32 ((k.core.semaphores i).value + 1))).first_blocked first
        rw [setSem_queues] at first
        rw [table_sched, table_wakeFirst kEsp.2.2 first, counted]
        simp [Table.give, Table.set, waiting, first]
      · rename_i nobody
        cases done
        rw [table_sysReturn, counted]
        simp [Table.give, nobody]
    · simp only [free, if_true] at done
      cases done
      simp [Option.filter_some, free]

/-- How the loops of a destroyer end: it has given slots back, or it waits behind the
sleeper that it has woken. -/
inductive Rounds (own : SemIndex → Prop) (k k' : Kernel) : Prop where
  | ends (released : k.table.Released own k'.table)
  | sleeps {M : Table} {i : SemIndex} {semid : Int} {caller : DestroyCaller} {t : Task} {rest line : List Task}
      (released : k.table.Released own M) (mine : own i) (used : (M.slot i).free = false)
      (first : M.sleepers i = t :: rest) (marked : k'.table = M.mark i)
      (kEsp : (k'.core.task k.core.current).kEsp = .semDestroy i semid caller)
      (before : k.queues .readyqueue ++ [t] = k'.core.current :: line)
      (behind : k'.queues .readyqueue = line ++ [k.core.current])

theorem Rounds.destroyed {own : SemIndex → Prop} (rounds : Rounds own k k') : k.table.Destroyed own k'.table := by
  cases rounds with
  | ends released => exact released.destroyed ⟨_, .refl _, .inl rfl⟩
  | sleeps released mine used first marked kEsp before behind =>
    exact ⟨_, released, .inr ⟨_, mine, used, by rw [first]; exact List.cons_ne_nil _ _, marked⟩⟩

theorem Rounds.after {own : SemIndex → Prop} {m : Kernel} (rounds : Rounds own m k') (begins : k.table.Released own m.table)
    (same : m.core.current = k.core.current) (queue : m.queues .readyqueue = k.queues .readyqueue) : Rounds own k k' := by
  cases rounds with
  | ends released => exact .ends (begins.trans released)
  | sleeps released mine used first marked kEsp before behind =>
    rw [same] at kEsp behind
    rw [queue] at before
    exact .sleeps (begins.trans released) mine used first marked kEsp before behind

theorem wake_ready (asleep : (k.core.task t).currentState = .stBlocked) :
    (k.wake t).queues .readyqueue = k.queues .readyqueue ++ [t] := by
  cases wait : (k.core.task t).kEsp.waitHead with
  | none => simp [wake, move, enqueue, dequeue?, wait, asleep, TaskState.queue, dequeue]
  | some h =>
    have other : h ≠ .readyqueue := by
      rintro rfl
      simp at wait
    simp [wake, move, enqueue, dequeue?, wait, asleep, TaskState.queue, dequeue, Function.update_of_ne (Ne.symm other)]

theorem rounds_destroyRound (own : SemIndex → Prop) (mine : own i) (sound : k.Sound none) (call : k.core.InCall) {semid : Int}
    {caller : DestroyCaller} (free : (k.core.semaphores i).free = false) (unmarked : k.core.Unmarked i)
    (round : k.destroyRound i semid caller = some k') : Rounds own k k' := by
  unfold destroyRound at round
  split at round
  · contradiction
  rename_i t rest first
  cases round
  have marked := sound.markSem free unmarked
  have kEsp := marked.first_blocked first
  obtain ⟨woken, awake⟩ := marked.wakeFirst (inCall_setSem call i _) first
  have ready := wake_ready kEsp.2.1
  generalize woke : (k.setSem i fun m => { m with creatorPID := -1 }).wake t = m at *
  have current : m.core.current = k.core.current := by rw [← woke]; simp
  have table : m.table = k.table.mark i := by
    rw [← woke, table_wakeFirst kEsp.2.2 first, table_setSem]
    simp [Table.mark, Table.set, first]
  have fits : m.core.Fits m.core.current (.semDestroy i semid caller) := by
    rw [← woke]
    exact fits_destroyer free unmarked
  have saved := woken.save (fun ts => { ts with kEsp := .semDestroy i semid caller }) (fun _ => ⟨rfl, rfl, rfl, rfl⟩)
    (.inl awake.task) (by simp [awake.run]) (fun _ => fits)
  have line := saved.dispatch_lists .readyqueue
  have run : m.core.ct.currentState = .stRun := awake.run
  have runs : (m.setTask m.core.current fun ts => { ts with kEsp := .semDestroy i semid caller }).core.ct.currentState = .stRun ∧
      (m.setTask m.core.current fun ts => { ts with kEsp := .semDestroy i semid caller }).core.current ≠ idleTask :=
    ⟨by simpa [Core.ct] using run, awake.task⟩
  rw [if_pos rfl, if_pos runs] at line
  obtain ⟨u, rest', queue⟩ : ∃ u rest', k.queues .readyqueue ++ [t] = u :: rest' :=
    List.exists_cons_of_ne_nil (by simp)
  have saves : ((m.sched (.semDestroy i semid caller)).core.task k.core.current).kEsp = .semDestroy i semid caller := by
    rw [sched, dispatch_kEsp, ← current]
    simp
  have before : k.queues .readyqueue ++ [t] = (m.sched (.semDestroy i semid caller)).core.current :: rest' := by
    show _ = Kernel.next _ :: rest'
    have head : m.queues .readyqueue = u :: rest' := ready.trans queue
    rw [queue, next, setTask_queues, head]
    rfl
  refine .sleeps (.refl _) mine free first (by rw [table_sched, table]) saves before ?_
  · rw [sched, line, setTask_queues, ready]
    show (k.queues .readyqueue ++ [t]).tail ++ _ = _
    rw [queue, List.tail_cons, setTask_core, Core.setTask_current, current]

theorem destroyRound_none {semid : Int} {caller : DestroyCaller} (round : k.destroyRound i semid caller = none) :
    k.queues (.blockedThreads i) = [] := by
  unfold destroyRound at round
  split at round
  · assumption
  · contradiction

theorem table_freeSem : (k.freeSem i).table = k.table.release i := table_setSem _

/-- The loop of the destroyer gives slots back; a suspended one has woken a sleeper. -/
theorem table_destroySlots (own : SemIndex → Prop) (semid : Int) (caller : DestroyCaller) (slots : List SemIndex)
    {k : Kernel} (sound : k.Sound none) (call : k.core.InCall)
    (mine : ∀ i, (k.core.semaphores i).id = semid → (k.core.semaphores i).creatorPID = k.core.ct.pid → own i) :
    let r := destroySlots semid caller slots k
    (r.1.isSome → k.table.Released own r.2.table) ∧ (r.1 = none → Rounds own k r.2) := by
  induction slots generalizing k with
  | nil => exact ⟨fun _ => .refl _, by simp [destroySlots]⟩
  | cons i slots ih =>
    unfold destroySlots
    split
    · rename_i named
      split
      · exact ⟨fun _ => .refl _, by simp⟩
      rename_i used
      split
      · exact ⟨fun _ => .refl _, by simp⟩
      rename_i creator
      have used : (k.core.semaphores i).free = false := by simpa using used
      have creator : (k.core.semaphores i).creatorPID = k.core.ct.pid := by simpa [eq_comm] using creator
      have unmarked := sound.unmarked call creator.symm
      split
      · rename_i k' round
        exact ⟨by simp, fun _ => rounds_destroyRound own (mine i named creator) sound call used unmarked round⟩
      · rename_i round
        have rest := ih (sound.freeSem unmarked round) (inCall_setSem call i _) fun j named creator => by
          refine mine j ?_ ?_ <;> simp only [freeSem, setSem_core, Core.setSem_semaphores] at named creator
          · split at named <;> simp_all
          · split at creator <;> simp_all [Core.ct]
        have released (T : Table) (more : (k.freeSem i).table.Released own T) : k.table.Released own T := by
          rw [table_freeSem] at more
          exact .release i (mine i named creator) used (destroyRound_none round) more
        exact ⟨fun result => released _ (rest.1 result), fun result => (rest.2 result).after (released _ (.refl _)) rfl rfl⟩
    · exact ih sound call mine

/-- The loop of the destroyer changes semaphores only, unless it is suspended. -/
theorem destroySlots_core (semid : Int) (caller : DestroyCaller) (slots : List SemIndex) {k : Kernel}
    (ends : (destroySlots semid caller slots k).1.isSome) :
    ∃ semaphores, (destroySlots semid caller slots k).2.core = { k.core with semaphores } := by
  induction slots generalizing k with
  | nil => exact ⟨_, rfl⟩
  | cons i slots ih =>
    unfold destroySlots at ends ⊢
    split
    · rename_i named
      rw [if_pos named] at ends
      split
      · exact ⟨_, rfl⟩
      rename_i used
      rw [if_neg used] at ends
      split
      · exact ⟨_, rfl⟩
      rename_i creator
      rw [if_neg creator] at ends
      split
      · rename_i round
        rw [round] at ends
        contradiction
      · rename_i round
        rw [round] at ends
        obtain ⟨semaphores, core⟩ := ih ends
        exact ⟨semaphores, core⟩
    · rename_i other
      rw [if_neg other] at ends
      exact ih ends

theorem destroyFrom_core {semid : Int} {caller : DestroyCaller} (ends : (k.destroyFrom i semid caller).1.isSome) :
    ∃ semaphores, (k.destroyFrom i semid caller).2.core = { k.core with semaphores } := by
  unfold destroyFrom at ends ⊢
  split
  · rename_i round
    rw [round] at ends
    contradiction
  · rename_i round
    rw [round] at ends
    obtain ⟨semaphores, core⟩ := destroySlots_core _ _ _ ends
    exact ⟨semaphores, core⟩

theorem destroySlots_queues (semid : Int) (caller : DestroyCaller) (slots : List SemIndex) {k : Kernel}
    (ends : (destroySlots semid caller slots k).1.isSome) : (destroySlots semid caller slots k).2.queues = k.queues := by
  induction slots generalizing k with
  | nil => rfl
  | cons i slots ih =>
    unfold destroySlots at ends ⊢
    split
    · rename_i named
      rw [if_pos named] at ends
      split
      · rfl
      rename_i used
      rw [if_neg used] at ends
      split
      · rfl
      rename_i creator
      rw [if_neg creator] at ends
      split
      · rename_i round
        rw [round] at ends
        contradiction
      · rename_i round
        rw [round] at ends
        exact ih ends
    · rename_i other
      rw [if_neg other] at ends
      exact ih ends

theorem destroyFrom_queues {semid : Int} {caller : DestroyCaller} (ends : (k.destroyFrom i semid caller).1.isSome) :
    (k.destroyFrom i semid caller).2.queues = k.queues := by
  unfold destroyFrom at ends ⊢
  split
  · rename_i round
    rw [round] at ends
    contradiction
  · rename_i round
    rw [round] at ends
    exact destroySlots_queues semid caller _ ends

theorem table_foldl_wake (ts : List Task) {k : Kernel} (other : ∀ t ∈ ts, ∀ i, (k.core.task t).kEsp ≠ .semWait i) :
    (ts.foldl (fun k t => k.wake t) k).table = k.table := by
  induction ts generalizing k with
  | nil => rfl
  | cons t ts ih =>
    rw [List.foldl_cons, ih fun u mem i => ?_, table_wake (other t (by simp))]
    have := other u (by simp [mem]) i
    simp only [wake_core, Core.setTask_task]
    split
    · rename_i same; subst same; exact this
    · exact this

theorem table_adopt (ct : Task) : (k.adopt ct).table = k.table := by
  have loop (ts : List Task) : ∀ k : Kernel, (ts.foldl adoptChild k).table = k.table := by
    induction ts with
    | nil => exact fun k => rfl
    | cons t ts ih => exact fun k => (ih _).trans (table_enqueue (by simp))
  rw [adopt, loop, table_clear (by simp)]

theorem table_leaveFather {ct : Task} {father : Option Task} (left : k.leaveFather ct father = .ok k') :
    k'.table = k.table := by
  unfold leaveFather at left
  split at left
  · cases left; exact table_dequeue (by simp)
  · split at left
    · cases left; rfl
    · contradiction

theorem table_exitTail (sound : k.Sound none) (call : k.core.InCall) (done : k.exitTail = .ok k') :
    k'.table = k.table := by
  obtain ⟨core, memory, done⟩ := bind_ok.mp done
  obtain ⟨left, leave, done⟩ := bind_ok.mp done
  cases done
  have same := exitMemory_sameTasks memory
  have current : k.core.current = core.current := same.current.symm
  have pare : k.core.ct.pare = core.ct.pare := by simp only [Core.ct, same.task, same.current]
  have leaving : left.Leaving core.current := by
    rw [current, pare] at leave
    exact (sound.sameTasks same).clearTask (same.inCall call) leave
  obtain ⟨adopted, _⟩ := leaving.adopt
  have waiters (t : Task) (mem : t ∈ (left.adopt core.current).queues (.waitList core.current)) (i : SemIndex) :
      ((left.adopt core.current).core.task t).kEsp ≠ .semWait i := by
    have home := (adopted.placed.mem _ _).mp mem
    simp [home.2.2]
  rw [table_sched, table_enqueue (by simp), table_setTask, current, releaseWaiters, table_foldl_wake _ waiters,
    table_adopt, table_leaveFather leave, table_setCore]
  exact same.semaphores

/-- `sys_exit` destroys the semaphores of its task. -/
theorem table_exitSlots (own : SemIndex → Prop) (slots : List SemIndex) {k : Kernel} (sound : k.Sound none)
    (call : k.core.InCall) (mine : ∀ i, (k.core.semaphores i).creatorPID = k.core.ct.pid → own i)
    (done : k.exitSlots slots = .ok k') : Rounds own k k' := by
  induction slots generalizing k with
  | nil => exact .ends (by rw [table_exitTail sound call done]; exact .refl _)
  | cons j slots ih =>
    unfold exitSlots at done
    split at done
    · have leads := sound.destroySlots (k.core.semaphores j).id (.exit j) (List.finRange numSems) call
      have table := table_destroySlots own (k.core.semaphores j).id (.exit j) (List.finRange numSems) sound call
        fun i _ => mine i
      have changed := destroySlots_core (k.core.semaphores j).id (.exit j) (List.finRange numSems) (k := k)
      have queues := destroySlots_queues (k.core.semaphores j).id (.exit j) (List.finRange numSems) (k := k)
      generalize destroySlots (k.core.semaphores j).id (.exit j) (List.finRange numSems) k = r at *
      obtain ⟨v, middle⟩ := r
      cases v with
      | some v =>
        have released := table.1 rfl
        obtain ⟨semaphores, core⟩ := changed rfl
        have ct : middle.core.ct = k.core.ct := by dsimp only at core; rw [core]; rfl
        refine (ih (leads.1 rfl).1 (leads.1 rfl).2 (fun i creator => ?_) done).after released (by dsimp only at core; rw [core])
          (by rw [queues rfl])
        rw [ct] at creator
        refine mine i ?_
        rcases released.slot i with same | ⟨_, same⟩ <;> simp only [table_slot] at same <;> rw [same] at creator <;>
          exact creator
      | none =>
        cases done
        exact table.2 rfl
    · exact ih sound call mine done

theorem rounds_sysSemDestroy (sound : k.Sound none) (call : k.core.InCall) (semid : Int) :
    Rounds (fun i => k.core.Rouses i (.syscall (.semDestroy semid))) k (k.sysSemDestroy semid) := by
  unfold sysSemDestroy
  split
  · exact .ends (.refl _)
  · have table := table_destroySlots (fun i => k.core.Rouses i (.syscall (.semDestroy semid))) semid .syscall
      (List.finRange numSems) sound call fun i named creator => ⟨named, creator⟩
    split <;> rename_i result <;> rw [result] at table
    · exact .ends (table.1 rfl)
    · exact table.2 rfl

theorem table_unblock (pid : Int) (ts : List Task) {r : Int × Kernel}
    (other : ∀ t ∈ ts, (r.2.core.task t).pid = pid → (r.2.core.task t).currentState = .stBlocked →
      ∀ i, (r.2.core.task t).kEsp ≠ .semWait i) : (ts.foldl (unblockChild pid) r).2.table = r.2.table := by
  induction ts generalizing r with
  | nil => rfl
  | cons t ts ih =>
    rw [List.foldl_cons, ih fun u mem => ?_]
    · unfold unblockChild
      split
      · split
        · exact table_wake (other t (by simp) ‹_› ‹_›)
        · rfl
      · rfl
    · have := other u (by simp [mem])
      unfold unblockChild
      split
      · split
        · simp only [wake_core, Core.setTask_task]
          split
          · simp
          · exact this
        · simp only [setTask_core, Core.setTask_task]
          split
          · rename_i same; subst same; exact this
          · exact this
      · exact this

theorem table_readWait {b : DWord} {maxchars : Int} (done : k.readWait b maxchars = .ok k') :
    k'.table = k.table := by
  unfold readWait at done
  split at done
  · cases done; simp
  · obtain ⟨core, memory, done⟩ := bind_ok.mp done
    cases done
    rw [table_sysReturn, table_start, table_setCore (readChars_sameTasks memory).semaphores]

theorem table_sysRead {b : DWord} {maxchars : Int} (done : k.sysRead b maxchars = .ok k') :
    k'.table = k.table := by
  have moved : (k.move k.core.current .readBlocked).table = k.table := table_move (by simp)
  rcases sysRead_cases done with ⟨v, rfl⟩ | ⟨-, ⟨-, rfl⟩ | waits⟩
  · simp
  · simp [moved]
  · rw [table_readWait waits, moved]

theorem table_syscall {request : Syscall} (sound : k.Sound none) (call : k.core.InCall)
    (allowed : k.core.Allowed (.syscall request)) (done : k.syscall request = .ok k') :
    k.core.TableStep (.syscall request) k.table k'.table := by
  cases request with
  | getpid => cases done; rfl
  | fork => exact table_sysFork done
  | createThread function stack parameter => exact table_sysCreateThread done
  | exit => exact (table_exitSlots _ _ sound call (fun i mine => mine) done).destroyed
  | block =>
    cases done
    unfold sysBlock
    split
    · exact table_dispatch.trans (table_park (by simp))
    · rfl
  | unblock pid =>
    cases done
    refine (table_sched _).trans (table_unblock pid _ fun t mem named state i => ?_)
    have home := (sound.placed.mem _ _).mp mem
    simp [allowed t home.1 home.2 named state]
  | waitThread pid =>
    cases done
    unfold sysWaitThread
    split
    · rfl
    · exact table_dispatch.trans (table_park (by simp))
  | read b maxchars => exact table_sysRead done
  | dynMem numPags =>
    obtain ⟨core, memory, done⟩ := bind_ok.mp done
    obtain ⟨mm, cr3, v, rfl⟩ := sysDynMem_spec memory
    cases done
    rfl
  | semCreate initialValue => cases done; exact table_sysSemCreate initialValue
  | semWait semid => cases done; exact table_sysSemWait semid
  | semSignal semid => exact table_sysSemSignal sound done
  | semDestroy semid => cases done; exact (rounds_sysSemDestroy sound call semid).destroyed.mono fun _ => Core.Rouses.destroys

/-- The destroyer goes on behind its round. -/
theorem table_destroyFrom (own : SemIndex → Prop) (sound : k.Sound none) (call : k.core.InCall) (semid : Int)
    (caller : DestroyCaller) (free : (k.core.semaphores i).free = false) (unmarked : k.core.Unmarked i)
    (first : own i)
    (mine : ∀ j, (k.core.semaphores j).id = semid → (k.core.semaphores j).creatorPID = k.core.ct.pid → own j) :
    let r := k.destroyFrom i semid caller
    (r.1.isSome → k.table.Released own r.2.table) ∧ (r.1 = none → Rounds own k r.2) := by
  unfold destroyFrom
  split
  · rename_i round
    exact ⟨by simp, fun _ => rounds_destroyRound own first sound call free unmarked round⟩
  · rename_i round
    have freed := sound.freeSem unmarked round
    have rest := table_destroySlots own semid caller (Core.slotsAfter i) freed (inCall_setSem call i _)
      fun j named creator => by
        simp only [freeSem, setSem_core, Core.setSem_semaphores] at named creator
        by_cases same : j = i
        · rw [same]; exact first
        · exact mine j (by simpa [same] using named) (by simpa [same, Core.ct] using creator)
    have released (T : Table) (more : (k.freeSem i).table.Released own T) : k.table.Released own T := by
      rw [table_freeSem] at more
      exact .release i first free (destroyRound_none round) more
    exact ⟨fun result => released _ (rest.1 result), fun result => (rest.2 result).after (released _ (.refl _)) rfl rfl⟩

theorem Inv.rounds_resume (inv : k.Inv) (done : k.resume = .ok k') : Rounds (fun i => k.core.Rouses i .resume) k k' := by
  have stays (same : k'.table = k.table) : Rounds (fun i => k.core.Rouses i .resume) k k' :=
    .ends (by rw [same]; exact .refl _)
  unfold Kernel.resume at done
  cases kEsp : k.core.ct.kEsp with
  | read b maxchars =>
    rw [kEsp] at done
    simp only [goOn] at done
    exact stays ((table_readWait done).trans (table_setTask _))
  | exited =>
    rw [kEsp] at done
    contradiction
  | semDestroy i semid caller =>
    obtain ⟨sound, call, free, unmarked⟩ := inv.resume_destroyer kEsp
    have pid : (k.setTask k.core.current fun ts => { ts with kEsp := .user }).core.ct.pid = k.core.ct.pid := by
      simp [Core.ct]
    have rouses (j : SemIndex) (mine : j = i ∨ (k.core.semaphores j).creatorPID = k.core.ct.pid ∧
        ((k.core.semaphores j).id = semid ∨ caller ≠ .syscall)) : k.core.Rouses j .resume := by
      simpa only [Core.Rouses, kEsp] using mine
    have table := table_destroyFrom (fun i => k.core.Rouses i .resume) sound call semid caller free unmarked
      (rouses i (.inl rfl)) fun j named creator => rouses j (.inr ⟨by rwa [pid] at creator, .inl named⟩)
    have leads := sound.destroyFrom call i semid caller free unmarked
    have changed (ends : ((k.setTask k.core.current fun ts => { ts with kEsp := .user }).destroyFrom i semid
        caller).1.isSome) := destroyFrom_core ends
    have queues (ends : ((k.setTask k.core.current fun ts => { ts with kEsp := .user }).destroyFrom i semid
        caller).1.isSome) := destroyFrom_queues ends
    have begins : k.table.Released (fun i => k.core.Rouses i .resume)
      (k.setTask k.core.current fun ts => { ts with kEsp := .user }).table := .refl _
    rw [kEsp] at done
    simp only [goOn] at done
    generalize (k.setTask k.core.current fun ts => { ts with kEsp := .user }).destroyFrom i semid caller = r at *
    obtain ⟨v, middle⟩ := r
    cases v with
    | none => cases done; exact (table.2 rfl).after begins rfl rfl
    | some v =>
      have released := table.1 rfl
      obtain ⟨semaphores, core⟩ := changed rfl
      have ct : middle.core.ct.pid = k.core.ct.pid := by dsimp only at core; rw [core, ← pid]; rfl
      cases caller with
      | syscall => cases done; exact .ends released
      | exit j =>
        refine (table_exitSlots _ _ (leads.1 rfl).1 (leads.1 rfl).2 (fun i' creator => ?_) done).after released
          (by dsimp only at core; rw [core]; rfl) (by rw [queues rfl]; rfl)
        refine rouses i' (.inr ⟨?_, .inr (by simp)⟩)
        rw [ct] at creator
        rcases released.slot i' with same | ⟨_, same⟩ <;> simp only [table_slot] at same <;> rw [same] at creator <;>
          exact creator
  | _ => rw [kEsp] at done; cases done; exact stays rfl

theorem step_table {e : Event} (inv : k.Inv) (allowed : k.core.Allowed e) (step : k.Step e k') :
    k.core.TableStep e k.table k'.table := by
  obtain ⟨enabled, step⟩ := step
  cases e with
  | clock =>
    cases step
    unfold clockRoutine
    generalize (if 0 < k.core.tickCounter then k.core.tickCounter - 1 else k.core.tickCounter) = tick
    dsimp only
    split
    · exact table_sched _
    · rfl
  | key readInp =>
    cases step
    unfold keyboardRoutine
    split
    · rfl
    · dsimp only
      split
      · rfl
      · exact table_switch.trans table_yield
  | syscall request => exact table_syscall inv.toSound (inv.inCall enabled.1 enabled.2.1) allowed step
  | resume => exact (inv.rounds_resume step).destroyed.mono fun _ => Core.Rouses.destroys

/-- A step that destroys: by `sys_semDestroy`, by `sys_exit`, or by going on in either. -/
theorem Inv.rounds {e : Event} (inv : k.Inv) (step : k.Step e k') (destroys : ∃ i, k.core.Destroys i e) :
    Rounds (fun i => k.core.Rouses i e) k k' := by
  obtain ⟨enabled, done⟩ := step
  obtain ⟨i, destroys⟩ := destroys
  unfold Core.Destroys at destroys
  split at destroys
  · cases done
    exact rounds_sysSemDestroy inv.toSound (inv.inCall enabled.1 enabled.2.1) _
  · exact table_exitSlots _ _ inv.toSound (inv.inCall enabled.1 enabled.2.1) (fun i mine => mine) done
  · exact inv.rounds_resume done
  · contradiction

end Kernel
end Zeos
