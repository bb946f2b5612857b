import Zeos.Wakeups

/-! The wake-ups that `sys_unblock` gives and `sys_block` takes: none is lost and none is
taken twice, up to the width of `pending_unblocks`. -/
namespace Zeos
open Circular Placement Outcome

/-- Threads that come and go, block and unblock. -/
def Event.Blocking : Event → Prop
  | .clock | .resume | .syscall .fork | .syscall (.createThread ..) | .syscall .exit | .syscall .block
  | .syscall (.unblock _) => True
  | _ => False

instance (e : Event) : Decidable e.Blocking := by
  unfold Event.Blocking
  apply e.decidable

/-- The PCB of a child that `sys_unblock` names. -/
def TaskStruct.roused (ts : TaskStruct) : TaskStruct :=
  if ts.currentState = .stBlocked then { ts with currentState := .stReady }
  else { ts with pendingUnblocks := int32 (ts.pendingUnblocks + 1) }

@[simp] theorem TaskStruct.roused_pid (ts : TaskStruct) : ts.roused.pid = ts.pid := by
  unfold roused
  split <;> rfl

namespace Core

/-- The children of the running task that a PID names. -/
def Named (c : Core) (pid : Int) (t : Task) : Prop := c.live t ∧ (c.task t).pare = some c.current ∧ (c.task t).pid = pid

instance (c : Core) (pid : Int) (t : Task) : Decidable (c.Named pid t) := inferInstanceAs (Decidable (_ ∧ _))

/-- The PCBs behind the loop of `sys_unblock`. -/
def rouse (c : Core) (pid : Int) : Core :=
  { c with task := fun t => if c.Named pid t then (c.task t).roused else c.task t }

theorem rouse_task (c : Core) (pid : Int) (t : Task) :
    (c.rouse pid).task t = if c.Named pid t then (c.task t).roused else c.task t := rfl

/-- A new PID is positive, and a counter that `sys_unblock` raises has room. -/
def Roomy (c : Core) : Event → Prop
  | .syscall .fork | .syscall (.createThread ..) => 0 < c.pidGlobal
  | .syscall (.unblock pid) => ∀ t, c.Named pid t → (c.task t).currentState ≠ .stBlocked →
      (c.task t).pendingUnblocks < 2147483647
  | _ => True

instance (c : Core) (e : Event) : Decidable (c.Roomy e) := by
  unfold Roomy
  apply e.decidable

/-- A call of `unblock(t)` that returns 0: its value is saved when it gives up the processor. -/
def Unblocks (c : Core) (e : Event) (c' : Core) (t : Task) : Prop :=
  e = .syscall (.unblock (c.task t).pid) ∧ (c'.task c.current).kEsp = .unblock 0

/-- A call of `block()` of `t` that completes or is released. -/
def Unblocked (c : Core) (e : Event) (c' : Core) (t : Task) : Prop :=
  (c'.task t).currentState ≠ .stBlocked ∧
    ((c.task t).currentState = .stBlocked ∨ e = .syscall .block ∧ t = c.current)

instance (c : Core) (e : Event) (c' : Core) (t : Task) : Decidable (c.Unblocks e c' t) := inferInstanceAs (Decidable (_ ∧ _))
instance (c : Core) (e : Event) (c' : Core) (t : Task) : Decidable (c.Unblocked e c' t) := inferInstanceAs (Decidable (_ ∧ _))

end Core

/-- What each task has been given and has taken since its creation. -/
structure Tally where
  given : Task → Nat
  taken : Task → Nat

/-- A PCB that is taken from the free queue starts anew. -/
def Tally.next (n : Tally) (c : Core) (e : Event) (c' : Core) : Tally where
  given t := if c.live t then n.given t + (if c.Unblocks e c' t then 1 else 0) else 0
  taken t := if c.live t then n.taken t + (if c.Unblocked e c' t then 1 else 0) else 0

/-- The steps of the system with their tally. -/
def Tallied (x : State × Tally) (e : Event) (x' : State × Tally) : Prop :=
  (e.Blocking ∧ x.1.core.Roomy e) ∧ Step x.1 e x'.1 ∧ x'.2 = x.2.next x.1.core e x'.1.core

namespace Core

/-- The task stands in the queue of the blocked ones, or not, as before, and is owed as much. -/
structure Rests (c : Core) (t : Task) (c' : Core) : Prop where
  pending : (c'.task t).pendingUnblocks = (c.task t).pendingUnblocks
  asleep : (c'.task t).currentState = .stBlocked ↔ (c.task t).currentState = .stBlocked
  kEsp : (c.task t).currentState = .stBlocked → (c'.task t).kEsp = (c.task t).kEsp

variable {c c' c'' : Core} {t u : Task} {f : TaskStruct → TaskStruct}

theorem Rests.of_same (same : c'.task t = c.task t) : c.Rests t c' := by
  refine ⟨?_, ?_, fun _ => ?_⟩ <;> rw [same]

theorem Rests.trans (first : c.Rests t c') (second : c'.Rests t c'') : c.Rests t c'' where
  pending := second.pending.trans first.pending
  asleep := second.asleep.trans first.asleep
  kEsp asleep := (second.kEsp (first.asleep.mpr asleep)).trans (first.kEsp asleep)

theorem Rests.setTask (pending : t = u → (f (c.task t)).pendingUnblocks = (c.task t).pendingUnblocks)
    (before : t = u → (c.task t).currentState ≠ .stBlocked) (behind : t = u → (f (c.task t)).currentState ≠ .stBlocked) :
    c.Rests t (c.setTask u f) := by
  by_cases same : t = u
  · subst same
    have here : (c.setTask t f).task t = f (c.task t) := by simp
    refine ⟨?_, ?_, fun asleep => absurd asleep (before rfl)⟩
    · rw [here, pending rfl]
    · rw [here]
      exact iff_of_false (behind rfl) (before rfl)
  · exact .of_same (by simp [same])

/-- What happens between the calls of `sys_block` and `sys_unblock`: tasks leave and are
born, and nothing else happens to what they are owed. -/
structure Owes (c c' : Core) : Prop where
  stays : ∀ t, c.live t → t ≠ c.current → c'.live t
  rests : ∀ t, c.live t → c'.live t → c.Rests t c'
  born : ∀ t, c.live t = false → c'.live t → (c'.task t).pendingUnblocks = 0 ∧ (c'.task t).currentState ≠ .stBlocked

/-- What leaves every task as it is goes on with the same debts. -/
theorem Owes.rest (owes : c.Owes c') (live : c''.live = c'.live) (rests : ∀ t, c'.live t → c'.Rests t c'') : c.Owes c'' := by
  refine ⟨?_, ?_, ?_⟩
  · intro t before other
    rw [live]
    exact owes.stays t before other
  · intro t before behind
    rw [live] at behind
    exact (owes.rests t before behind).trans (rests t behind)
  · intro t before behind
    rw [live] at behind
    obtain ⟨pending, awake⟩ := owes.born t before behind
    have same := rests t behind
    exact ⟨same.pending.trans pending, fun asleep => awake (same.asleep.mp asleep)⟩

end Core

namespace Kernel

variable {k k' : Kernel} {e : Event}

theorem rests_yield (k : Kernel) (t : Task) : k.core.Rests t k.yield.core := by
  refine ⟨by rw [yield_task], ?_, fun _ => by rw [yield_task]⟩
  rw [yield_task]
  dsimp only
  split
  · rename_i running
    rw [running.1]
    have run : (k.core.task k.core.current).currentState = .stRun := running.2
    simp [run]
  · exact .rfl

theorem Sound.rests_dispatch (sound : k.Sound none) (t : Task) : k.core.Rests t k.dispatch.core := by
  have ready := sound.next_ready
  obtain ⟨cr3, tickCounter, core⟩ := dispatch_core k
  rw [core]
  have other : k.yield.core.Rests t { k.yield.core with current := k.next, cr3, tickCounter } := .of_same rfl
  refine (rests_yield k t).trans (other.trans (.setTask (fun _ => rfl) (fun same => ?_) (by simp)))
  rw [same, ready]
  simp

theorem Sound.rests_sched (sound : k.Sound none) (call : k.core.InCall) (kont : Kont)
    (fits : k.core.Fits k.core.current kont) (t : Task) : k.core.Rests t (k.sched kont).core := by
  have awake : k.core.ct.currentState ≠ .stBlocked := by simp [call.run]
  have saved := sound.save (fun ts => { ts with kEsp := kont }) (fun _ => ⟨rfl, rfl, rfl, rfl⟩) (.inl call.task) awake
    fun _ => fits
  have first : k.core.Rests t (k.core.setTask k.core.current fun ts => { ts with kEsp := kont }) :=
    .setTask (fun _ => rfl) (fun same => by rw [same]; exact awake) fun same => by rw [same]; exact awake
  exact first.trans (saved.rests_dispatch t)

/-- Nothing is owed to a task that is born, and it is owed nothing to be born. -/
theorem Born.owes {c : Core} {fill : Task} (born : k.Born fill k') (mine : k.core.current = c.current)
    (awake : ∀ t, t = k.core.current → k.core.live t → (k.core.task t).currentState ≠ .stBlocked)
    (owes : c.Owes k.core) : c.Owes k'.core := by
  have elder (t : Task) (other : t ≠ fill) : k'.core.live t = k.core.live t := by simp [born.live, other]
  have kept (t : Task) (other : t ≠ fill) (live : k.core.live t) : k.core.Rests t k'.core := by
    by_cases active : t = k.core.current
    · have state := awake t active live
      subst active
      refine ⟨?_, ?_, fun asleep => absurd asleep state⟩ <;> rw [born.father]
      · rfl
      · exact .rfl
    · exact .of_same (born.others t other active)
  refine ⟨?_, ?_, ?_⟩
  · intro t before other
    have live := owes.stays t before other
    rw [elder t (born.ne live)]
    exact live
  · intro t before behind
    have other : t ≠ fill := by
      rintro rfl
      by_cases active : t = c.current
      · have alive := born.alive
        rw [mine, ← active, born.dead] at alive
        contradiction
      · have alive := owes.stays t before active
        rw [born.dead] at alive
        contradiction
    rw [elder t other] at behind
    exact (owes.rests t before behind).trans (kept t other behind)
  · intro t before behind
    by_cases other : t = fill
    · rw [other, born.child.2.2.1]
      exact ⟨born.child.2.2.2.2.1, by simp⟩
    · rw [elder t other] at behind
      obtain ⟨pending, state⟩ := owes.born t before behind
      have same := kept t other behind
      exact ⟨same.pending.trans pending, fun asleep => state (same.asleep.mp asleep)⟩

theorem Left.owes {c : Core} (left : k.Left k') (mine : k.core.current = c.current) (owes : c.Owes k.core) :
    c.Owes k'.core := by
  refine ⟨?_, ?_, ?_⟩
  · intro t before other
    rw [left.live, Function.update_of_ne (by rwa [mine])]
    exact owes.stays t before other
  · intro t before behind
    obtain ⟨other, live⟩ := left.stays behind
    refine (owes.rests t before live).trans ⟨?_, ?_, fun _ => ?_⟩ <;> rw [left.others t other]
  · intro t before behind
    obtain ⟨other, live⟩ := left.stays behind
    rw [left.others t other]
    exact owes.born t before live

/-- The acts of a step of another kind leave alone what the tasks are owed. -/
theorem Act.owes {c : Core} {m m' : Kernel} (act : Act c e m m') (mine : m.core.current = c.current)
    (blocking : e.Blocking) (block : e ≠ .syscall .block) (unblock : ∀ pid, e ≠ .syscall (.unblock pid))
    (waits : ∀ t, c.live t → (c.task t).currentState = .stBlocked → (c.task t).kEsp = .block)
    (runs : (c.task c.current).currentState ≠ .stBlocked) (owes : c.Owes m.core) : c.Owes m'.core := by
  have running (live : m.core.live m.core.current) : (m.core.task m.core.current).currentState ≠ .stBlocked := by
    cases before : c.live m.core.current with
    | true =>
      intro asleep
      rw [(owes.rests _ before live).asleep, mine] at asleep
      exact runs asleep
    | false => exact (owes.born _ before live).2
  have own (f : TaskStruct → TaskStruct) (pending : ∀ ts, (f ts).pendingUnblocks = ts.pendingUnblocks)
      (state : ∀ ts : TaskStruct, ts.currentState ≠ .stBlocked → (f ts).currentState ≠ .stBlocked) :
      c.Owes (m.core.setTask m.core.current f) := by
    refine owes.rest rfl fun t live => .setTask (fun _ => pending _) ?_ ?_ <;> rintro rfl
    · exact running live
    · exact state _ (running live)
  cases act with
  | aside aside => exact owes.rest aside.live fun t _ => .of_same (by rw [aside.task])
  | save kont plain why => exact own (fun ts => { ts with kEsp := kont }) (fun _ => rfl) fun _ => id
  | ret v => exact own (fun ts => { ts with kEsp := .user, eax := v }) (fun _ => rfl) fun _ => id
  | wake live asleep why =>
    rename_i t
    exfalso
    have before : c.live t := by
      by_contra dead
      exact (owes.born t (by simpa using dead) live).2 asleep
    have rests := owes.rests t before live
    have saved := (rests.kEsp (rests.asleep.mp asleep)).trans (waits t before (rests.asleep.mp asleep))
    rcases why with ⟨_, _, pid, same, _⟩ | ⟨kEsp, _⟩ | ⟨i, kEsp⟩
    · exact unblock pid same
    · rw [saved] at kEsp
      contradiction
    · rw [saved] at kEsp
      contradiction
  | park kont call waits why who =>
    exfalso
    rcases waits with sleeps | joins
    · exact block (why sleeps).1
    · rcases who joins with ⟨pid, same⟩ | ⟨semid, same⟩ <;> rw [same] at blocking <;> exact blocking
  | dispatch sound alive unserved => exact owes.rest (kin_dispatch m).live fun t _ => sound.rests_dispatch t
  | key readInp inv user why =>
    rw [why] at blocking
    exact blocking.elim
  | tick zeosTick why => exact owes.rest rfl fun t _ => .of_same rfl
  | enter b maxchars call why size =>
    rw [why] at blocking
    exact blocking.elim
  | serve b maxchars why reading enough done =>
    rename_i core
    have same : m.core.SameTasks core := readChars_sameTasks (congrArg memory done)
    rw [start_core, setCore_core]
    refine owes.rest same.live fun t live => ?_
    have first : m.core.Rests t core := .of_same (by rw [same.task])
    refine first.trans (.setTask (fun _ => rfl) (fun here => ?_) fun _ => by simp)
    rw [same.task, here, same.current]
    exact running (by rw [← same.current, ← here]; exact live)
  | spend why pending => exact absurd why block
  | grant live awake why => exact absurd why.2 (unblock _)
  | born born => exact born.owes mine (fun t same live => same ▸ running (same ▸ live)) owes
  | unborn unborn =>
    exact owes.rest unborn.live fun t live => .of_same (unborn.elder live)
  | left left => exact left.owes mine owes
  | free dead =>
    rw [enqueue_core]
    refine owes.rest rfl fun t live => .of_same ?_
    have other : t ≠ m.core.current := by
      rintro rfl
      rw [dead] at live
      contradiction
    simp [other]

theorem unblockChild_task (pid : Int) (r : Int × Kernel) (child t : Task) : (unblockChild pid r child).2.core.task t =
    if t = child ∧ (r.2.core.task t).pid = pid then (r.2.core.task t).roused else r.2.core.task t := by
  by_cases here : t = child
  · subst here
    by_cases named : (r.2.core.task t).pid = pid <;>
      simp only [unblockChild, TaskStruct.roused, named, if_true, if_false, and_self, and_false]
    split <;> simp [named]
  · rw [unblockChild_other here, if_neg fun both => here both.1]

/-- The loop of `sys_unblock`. -/
theorem foldl_unblockChild (pid : Int) (ts : List Task) (nodup : ts.Nodup) (r : Int × Kernel) :
    (ts.foldl (unblockChild pid) r).1 = (if ∃ t ∈ ts, (r.2.core.task t).pid = pid then 0 else r.1) ∧
    ∀ t, (ts.foldl (unblockChild pid) r).2.core.task t =
      if t ∈ ts ∧ (r.2.core.task t).pid = pid then (r.2.core.task t).roused else r.2.core.task t := by
  induction ts generalizing r with
  | nil => simp
  | cons child ts ih =>
    obtain ⟨absent, nodup⟩ := List.nodup_cons.mp nodup
    obtain ⟨value, tasks⟩ := ih nodup (unblockChild pid r child)
    have pids (t : Task) : ((unblockChild pid r child).2.core.task t).pid = (r.2.core.task t).pid := by
      rw [unblockChild_task]
      split <;> simp
    simp only [pids] at value tasks
    rw [List.foldl_cons]
    refine ⟨?_, fun t => ?_⟩
    · rw [value]
      by_cases named : (r.2.core.task child).pid = pid
      · have first : (unblockChild pid r child).1 = 0 := by
          unfold unblockChild
          rw [if_pos named]
          split <;> rfl
        simp [first, named]
      · have first : (unblockChild pid r child).1 = r.1 := by
          unfold unblockChild
          rw [if_neg named]
        simp [first, named]
    · rw [tasks, unblockChild_task]
      by_cases here : t = child
      · subst here
        simp [absent]
      · simp [here]

theorem unblockLoop_current (pid : Int) (ts : List Task) (r : Int × Kernel) :
    (ts.foldl (unblockChild pid) r).2.core.current = r.2.core.current := by
  induction ts generalizing r with
  | nil => rfl
  | cons child ts ih => rw [List.foldl_cons, ih, unblockChild_current]

theorem kin_unblockLoop (pid : Int) (ts : List Task) (r : Int × Kernel) :
    r.2.core.SameKin (ts.foldl (unblockChild pid) r).2.core := by
  induction ts generalizing r with
  | nil => exact .refl _
  | cons child ts ih =>
    rw [List.foldl_cons]
    refine Core.SameKin.trans ?_ (ih _)
    unfold unblockChild
    split
    · split
      · rw [wake_core]
        exact .setTask _ _ _ fun _ => ⟨rfl, rfl, rfl⟩
      · exact kin_setTask _ fun _ => ⟨rfl, rfl, rfl⟩
    · exact .refl _

theorem kin_sched (kont : Kont) (k : Kernel) : k.core.SameKin (k.sched kont).core := by
  have saved : k.core.SameKin (k.setTask k.core.current fun ts => { ts with kEsp := kont }).core :=
    kin_setTask _ fun _ => ⟨rfl, rfl, rfl⟩
  exact saved.trans (kin_dispatch _)

theorem kin_sysUnblock (pid : Int) (k : Kernel) : k.core.SameKin (k.sysUnblock pid).core := by
  have loop := kin_unblockLoop pid (k.queues (.fills k.core.current)) (-1, k)
  exact loop.trans (kin_sched _ _)

/-- What `sys_unblock` does: it returns 0 if and only if it names a child. -/
theorem Inv.sysUnblock_task (inv : k.Inv) (call : k.core.InCall) (pid : Int) :
    ((k.sysUnblock pid).core.task k.core.current).kEsp = .unblock (if ∃ t, k.core.Named pid t then 0 else -1) ∧
    ∀ t, (k.core.rouse pid).Rests t (k.sysUnblock pid).core := by
  have mem (t : Task) : t ∈ k.queues (.fills k.core.current) ↔ k.core.live t ∧ (k.core.task t).pare = some k.core.current :=
    inv.placed.mem (.fills k.core.current) t
  obtain ⟨value, tasks⟩ := foldl_unblockChild pid (k.queues (.fills k.core.current)) (inv.placed.nodup _) (-1, k)
  have current := unblockLoop_current pid (k.queues (.fills k.core.current)) (-1, k)
  obtain ⟨sound, calling⟩ := inv.toSound.unblockLoop call pid
  have named : (∃ t ∈ k.queues (.fills k.core.current), (k.core.task t).pid = pid) ↔ ∃ t, k.core.Named pid t := by
    simp only [mem, Core.Named, and_assoc]
  refine ⟨?_, fun t => ?_⟩
  · show ((Kernel.dispatch _).core.task k.core.current).kEsp = _
    rw [dispatch_kEsp, setTask_core, Core.setTask_task, if_pos current.symm, value]
    simp only [named]
  · have loop : (k.core.rouse pid).Rests t ((k.queues (.fills k.core.current)).foldl (unblockChild pid) (-1, k)).2.core := by
      refine .of_same ((tasks t).trans ?_)
      by_cases here : k.core.Named pid t
      · rw [Core.rouse_task, if_pos here, if_pos ⟨(mem t).mpr ⟨here.1, here.2.1⟩, here.2.2⟩]
      · rw [Core.rouse_task, if_neg here, if_neg fun both => here ⟨((mem t).mp both.1).1, ((mem t).mp both.1).2, both.2⟩]
    exact loop.trans (sound.rests_sched calling (.unblock _) trivial t)

/-- The tally agrees with the PCBs of the live tasks. -/
structure Tallies (k : Kernel) (n : Tally) : Prop where
  balance : ∀ t, k.core.live t → (n.given t : Int) = n.taken t + (k.core.task t).pendingUnblocks
  bounds : ∀ t, k.core.live t → 0 ≤ (k.core.task t).pendingUnblocks ∧ (k.core.task t).pendingUnblocks ≤ 2147483647
  asleep : ∀ t, k.core.live t → (k.core.task t).currentState = .stBlocked →
    (k.core.task t).pendingUnblocks = 0 ∧ (k.core.task t).kEsp = .block

/-- The books of one task balance over a step. -/
structure Books (c : Core) (e : Event) (c' : Core) (t : Task) : Prop where
  balance : (if c.Unblocks e c' t then 1 else 0) + (c.task t).pendingUnblocks =
    (if c.Unblocked e c' t then 1 else 0) + (c'.task t).pendingUnblocks
  bounds : 0 ≤ (c'.task t).pendingUnblocks ∧ (c'.task t).pendingUnblocks ≤ 2147483647
  asleep : (c'.task t).currentState = .stBlocked → (c'.task t).pendingUnblocks = 0 ∧ (c'.task t).kEsp = .block

variable {n : Tally}

theorem Tallies.next (tallies : k.Tallies n) (books : ∀ t, k.core.live t → k'.core.live t → Books k.core e k'.core t)
    (born : ∀ t, k.core.live t = false → k'.core.live t →
      (k'.core.task t).pendingUnblocks = 0 ∧ (k'.core.task t).currentState ≠ .stBlocked) :
    k'.Tallies (n.next k.core e k'.core) := by
  refine ⟨fun t live => ?_, fun t live => ?_, fun t live asleep => ?_⟩ <;> cases before : k.core.live t
  · simp [Tally.next, before, (born t before live).1]
  · have balance := (books t before live).balance
    have earlier := tallies.balance t before
    simp only [Tally.next, before, if_true]
    split at balance <;> split at balance <;> rename_i given taken <;>
      simp only [given, taken, if_true, if_false] <;> omega
  · rw [(born t before live).1]
    decide
  · exact (books t before live).bounds
  · exact absurd asleep (born t before live).2
  · exact (books t before live).asleep asleep

/-- The books of a task that rests. -/
theorem Tallies.rests (tallies : k.Tallies n) {t : Task} (live : k.core.live t) (rests : k.core.Rests t k'.core)
    (unblock : ¬ k.core.Unblocks e k'.core t) (block : e = .syscall .block → t ≠ k.core.current) :
    Books k.core e k'.core t := by
  have taken : ¬ k.core.Unblocked e k'.core t := by
    rintro ⟨awake, asleep | ⟨calls, mine⟩⟩
    · exact awake (rests.asleep.mpr asleep)
    · exact block calls mine
  refine ⟨?_, ?_, fun asleep => ?_⟩
  · rw [if_neg unblock, if_neg taken, rests.pending]
  · rw [rests.pending]
    exact tallies.bounds t live
  · have before := rests.asleep.mp asleep
    rw [rests.pending, rests.kEsp before]
    exact tallies.asleep t live before

theorem boot_tallies (ram : Nat → Nat → UInt8) : (bootKernel ram).Tallies ⟨fun _ => 0, fun _ => 0⟩ := by
  have quiet (t : Task) (live : (bootCore ram).live t) : ((bootCore ram).task t).pendingUnblocks = 0 ∧
      ((bootCore ram).task t).currentState ≠ .stBlocked := by
    rcases live_boot ram live with rfl | rfl
    · rw [boot_idle]
      decide
    · rw [boot_task1]
      decide
  refine ⟨fun t live => ?_, fun t live => ?_, fun t live asleep => absurd asleep (quiet t live).2⟩
  · show (0 : Int) = 0 + ((bootCore ram).task t).pendingUnblocks
    rw [(quiet t live).1]
    rfl
  · show 0 ≤ ((bootCore ram).task t).pendingUnblocks ∧ ((bootCore ram).task t).pendingUnblocks ≤ _
    rw [(quiet t live).1]
    decide

theorem Tallies.allowed (tallies : k.Tallies n) (blocking : e.Blocking) (roomy : k.core.Roomy e) : k.core.Allowed e := by
  cases e with
  | syscall call =>
    cases call with
    | fork => exact roomy
    | createThread function stack parameter => exact roomy
    | unblock pid => exact fun t live _ _ asleep => (tallies.asleep t live asleep).2
    | exit => trivial
    | block => trivial
    | _ => exact blocking.elim
  | key readInp => exact blocking.elim
  | _ => trivial

theorem Tallies.sysBlock (tallies : k.Tallies n) (inv : k.Inv) (call : k.core.InCall) :
    k.sysBlock.Tallies (n.next k.core (.syscall .block) k.sysBlock.core) := by
  have owed := tallies.bounds _ call.live
  have run := call.running
  have gives (t : Task) (c' : Core) : ¬ k.core.Unblocks (.syscall .block) c' t := fun unblocks => by
    have := unblocks.1
    simp at this
  unfold Kernel.sysBlock
  split
  · rename_i none
    have none : (k.core.task k.core.current).pendingUnblocks ≤ 0 := none
    have parked := inv.toSound.park call .block trivial (by simp [Kont.waitHead])
    have live : (k.park .block).dispatch.core.live = k.core.live := (kin_dispatch _).live.trans (by simp)
    have rests (t : Task) := parked.rests_dispatch t
    refine tallies.next (fun t before _ => ?_) fun t before behind => ?_
    · by_cases mine : t = k.core.current
      · have here : (k.park .block).core.task t = { k.core.task t with currentState := .stBlocked, kEsp := .block } := by
          simp [mine]
        have state := (rests t).asleep
        have pending := (rests t).pending
        have saved := (rests t).kEsp
        rw [here] at state pending saved
        subst mine
        have same : ((k.park .block).dispatch.core.task k.core.current).pendingUnblocks =
          (k.core.task k.core.current).pendingUnblocks := pending
        refine ⟨?_, ?_, fun _ => ⟨?_, saved rfl⟩⟩
        · rw [if_neg (gives _ _), if_neg fun taken => taken.1 (state.mpr rfl), same]
        · rw [same]
          exact owed
        · omega
      · refine tallies.rests before (.trans (.of_same ?_) (rests t)) (gives t _) fun _ => mine
        simp [mine]
    · rw [live, before] at behind
      contradiction
  · rename_i some
    have some : 0 < (k.core.task k.core.current).pendingUnblocks := Int.not_le.mp some
    let spent := k.setTask k.core.current fun t => { t with pendingUnblocks := int32 (t.pendingUnblocks - 1) }
    change (spent.sysReturn none).Tallies (n.next k.core _ (spent.sysReturn none).core)
    refine tallies.next (fun t before _ => ?_) fun t before behind => ?_
    · by_cases mine : t = k.core.current
      · subst mine
        have less : int32 ((k.core.task k.core.current).pendingUnblocks - 1) = (k.core.task k.core.current).pendingUnblocks - 1 :=
          int32_of_range (by omega) (by omega)
        have pending : ((spent.sysReturn none).core.task k.core.current).pendingUnblocks =
            (k.core.task k.core.current).pendingUnblocks - 1 := by simp [spent, Core.sysReturn, less]
        have state : ((spent.sysReturn none).core.task k.core.current).currentState = .stRun := by
          simp [spent, Core.sysReturn, run]
        have taken : k.core.Unblocked (.syscall .block) (spent.sysReturn none).core k.core.current :=
          ⟨by rw [state]; simp, .inr ⟨rfl, rfl⟩⟩
        refine ⟨?_, ?_, fun asleep => ?_⟩
        · rw [if_neg (gives _ _), if_pos taken, pending]
          omega
        · omega
        · rw [state] at asleep
          contradiction
      · refine tallies.rests before (.of_same ?_) (gives t _) fun _ => mine
        simp [spent, Core.sysReturn, mine]
    · have behind : k.core.live t = true := behind
      rw [before] at behind
      contradiction

theorem Tallies.sysUnblock (tallies : k.Tallies n) (inv : k.Inv) (call : k.core.InCall) {pid : Int}
    (roomy : k.core.Roomy (.syscall (.unblock pid))) :
    (k.sysUnblock pid).Tallies (n.next k.core (.syscall (.unblock pid)) (k.sysUnblock pid).core) := by
  obtain ⟨value, rests⟩ := inv.sysUnblock_task call pid
  have live := (kin_sysUnblock pid k).live
  refine tallies.next (fun t before _ => ?_) fun t before behind => ?_
  · have gives : k.core.Unblocks (.syscall (.unblock pid)) (k.sysUnblock pid).core t ↔ k.core.Named pid t := by
      unfold Core.Unblocks
      rw [value]
      constructor
      · rintro ⟨same, returns⟩
        cases same
        by_cases some : ∃ u, k.core.Named (k.core.task t).pid u
        · obtain ⟨u, named⟩ := some
          have here := inv.good.distinct u t named.1 before named.2.2
          subst here
          exact named
        · rw [if_neg some] at returns
          contradiction
      · intro named
        exact ⟨by rw [named.2.2], by rw [if_pos ⟨t, named⟩]⟩
    obtain ⟨pending, state, saved⟩ := rests t
    have bounds := tallies.bounds t before
    have takes : k.core.Unblocked (.syscall (.unblock pid)) (k.sysUnblock pid).core t ↔
        ((k.sysUnblock pid).core.task t).currentState ≠ .stBlocked ∧ (k.core.task t).currentState = .stBlocked := by
      simp [Core.Unblocked]
    rw [Core.rouse_task] at pending state saved
    by_cases named : k.core.Named pid t
    · rw [if_pos named] at pending state saved
      unfold TaskStruct.roused at pending state
      by_cases sleeps : (k.core.task t).currentState = .stBlocked
      · rw [if_pos sleeps] at pending state
        have awake : ((k.sysUnblock pid).core.task t).currentState ≠ .stBlocked := fun same => by simpa using state.mp same
        have pending : ((k.sysUnblock pid).core.task t).pendingUnblocks = (k.core.task t).pendingUnblocks := pending
        refine ⟨?_, ?_, fun same => absurd same awake⟩
        · rw [if_pos (gives.mpr named), if_pos (takes.mpr ⟨awake, sleeps⟩), pending]
        · rw [pending]
          exact bounds
      · rw [if_neg sleeps] at pending state
        have room := roomy t named sleeps
        have awake : ((k.sysUnblock pid).core.task t).currentState ≠ .stBlocked := fun same => sleeps (state.mp same)
        have more : int32 ((k.core.task t).pendingUnblocks + 1) = (k.core.task t).pendingUnblocks + 1 :=
          int32_of_range (by omega) (by omega)
        have pending : ((k.sysUnblock pid).core.task t).pendingUnblocks = (k.core.task t).pendingUnblocks + 1 :=
          pending.trans more
        refine ⟨?_, by omega, fun same => absurd same awake⟩
        rw [if_pos (gives.mpr named), if_neg fun taken => sleeps (takes.mp taken).2, pending]
        omega
    · rw [if_neg named] at pending state saved
      refine tallies.rests before ⟨pending, state, saved⟩ (fun given => named (gives.mp given)) (by simp)
  · rw [live, before] at behind
    contradiction

theorem Tallies.step (tallies : k.Tallies n) (inv : k.Inv) (blocking : e.Blocking) (roomy : k.core.Roomy e)
    (step : k.Step e k') : k'.Tallies (n.next k.core e k'.core) := by
  have allowed := tallies.allowed blocking roomy
  by_cases block : e = .syscall .block
  · subst block
    obtain ⟨enabled, done⟩ := step
    cases done
    exact tallies.sysBlock inv (inv.inCall enabled.1 enabled.2.1)
  by_cases unblock : ∃ pid, e = .syscall (.unblock pid)
  · obtain ⟨pid, rfl⟩ := unblock
    obtain ⟨enabled, done⟩ := step
    cases done
    exact tallies.sysUnblock inv (inv.inCall enabled.1 enabled.2.1) roomy
  have unblock (pid : Int) : e ≠ .syscall (.unblock pid) := fun same => unblock ⟨pid, same⟩
  have runs : (k.core.task k.core.current).currentState ≠ .stBlocked := fun asleep =>
    inv.between.not_current asleep nofun nofun rfl
  have owes := inv.keeps (fun m => k.core.Owes m.core) allowed step
    (fun m m' mine act owes => act.owes mine blocking block unblock (fun t live asleep => (tallies.asleep t live asleep).2)
      runs owes)
    ⟨fun _ live _ => live, fun t _ _ => .of_same rfl, fun t dead live => by rw [dead] at live; contradiction⟩
  exact tallies.next (fun t before behind => tallies.rests before (owes.rests t before behind)
    (fun given => unblock _ given.1) fun same => absurd same block) owes.born

theorem resume_unblock {v : Int} (kEsp : k.core.ct.kEsp = .unblock v) (step : k.Step .resume k') :
    k'.core.ct.eax = some v := by
  obtain ⟨_, done⟩ := step
  change k.resume = .ok k' at done
  unfold Kernel.resume at done
  rw [kEsp] at done
  cases done
  simp [Core.sysReturn, Core.ct]

/-- A call that does not return 0 names no child, and changes nothing that a task is owed. -/
theorem Inv.refused (inv : k.Inv) {pid : Int} (step : k.Step (.syscall (.unblock pid)) k') :
    ∃ v, (k'.core.task k.core.current).kEsp = .unblock v ∧
      (v ≠ 0 → k'.core.live = k.core.live ∧ ∀ t, k.core.Rests t k'.core) := by
  obtain ⟨enabled, done⟩ := step
  cases done
  obtain ⟨value, rests⟩ := inv.sysUnblock_task (inv.inCall enabled.1 enabled.2.1) pid
  refine ⟨_, value, fun refused => ⟨(kin_sysUnblock pid k).live, fun t => ?_⟩⟩
  have nobody : ¬ ∃ t, k.core.Named pid t := fun some => refused (if_pos some)
  have same : k.core.Rests t (k.core.rouse pid) := .of_same (if_neg fun named => nobody ⟨t, named⟩)
  exact same.trans (rests t)

end Kernel

/-- The task stands in the queue of the blocked ones. -/
def State.Sleeps (s : State) (t : Task) : Prop :=
  ∃ ts : List Task, Ring s.links (.head .blocked) (ts.map .list) ∧ t ∈ ts

theorem Refines.sleeps_iff {s : State} {k : Kernel} (rep : Refines s k) (inv : k.Inv) (t : Task) :
    s.Sleeps t ↔ k.core.live t ∧ (k.core.task t).currentState = .stBlocked := by
  have ring : Ring s.links (.head .blocked) ((k.queues .blocked).map .list) := rep.rings.ring .blocked (rep.main _ rfl)
  have mem : t ∈ k.queues .blocked ↔ k.core.live t ∧ (k.core.task t).currentState = .stBlocked :=
    inv.placed.mem .blocked t
  rw [← mem]
  constructor
  · rintro ⟨ts, other, member⟩
    have same : ts = k.queues .blocked := List.map_injective_iff.mpr (fun _ _ => Node.list.inj) (Circular.Ring.unique other ring)
    rwa [← same]
  · exact fun member => ⟨_, ring, member⟩

/-- For every task, the successful calls of `unblock` are its completed or released calls of
`block` and what it is owed; a task that is owed something does not sleep; and a call of
`unblock` that fails changes neither. -/
theorem unblocks_conserved {ram : Nat → Nat → UInt8} {s₀ s : State} {n : Tally} {events : List Event}
    (started : boot ram = .ok s₀) (path : Transition.Path Tallied (s₀, ⟨fun _ => 0, fun _ => 0⟩) events (s, n)) :
    (∀ t, s.core.live t → (n.given t : Int) = n.taken t + (s.core.task t).pendingUnblocks ∧
      0 ≤ (s.core.task t).pendingUnblocks ∧ (s.Sleeps t → (s.core.task t).pendingUnblocks = 0)) ∧
    (∀ pid s', Step s (.syscall (.unblock pid)) s' → ∃ v, (s'.core.task s.core.current).kEsp = .unblock v ∧
      (v ≠ 0 → ∀ t, (s'.core.task t).pendingUnblocks = (s.core.task t).pendingUnblocks ∧ (s'.Sleeps t ↔ s.Sleeps t))) ∧
    ∀ v s', s.core.ct.kEsp = .unblock v → Step s .resume s' → s'.core.ct.eax = some v := by
  rw [boot_eq, Except.ok.injEq] at started
  subst started
  obtain ⟨k, rep, inv, tallies⟩ := path.invariant (fun x => ∃ k, Refines x.1 k ∧ k.Inv ∧ k.Tallies x.2)
    (fun x e x' ⟨k, rep, inv, tallies⟩ ⟨⟨blocking, roomy⟩, step, next⟩ => by
      rw [rep.core] at roomy
      obtain ⟨k', step', rep', inv'⟩ := rep.advance inv (tallies.allowed blocking roomy) step
      rw [rep.core, rep'.core] at next
      rw [next]
      exact ⟨k', rep', inv', tallies.step inv blocking roomy step'⟩)
    ⟨bootKernel ram, boot_refines ram, boot_inv ram, Kernel.boot_tallies ram⟩
  refine ⟨fun t live => ?_, fun pid s' step => ?_, fun v s' kEsp step => ?_⟩
  · rw [rep.sleeps_iff inv]
    rw [rep.core] at live ⊢
    exact ⟨tallies.balance t live, (tallies.bounds t live).1, fun asleep => (tallies.asleep t live asleep.2).1⟩
  · have allowed : k.core.Allowed (.syscall (.unblock pid)) :=
      fun t live _ _ asleep => (tallies.asleep t live asleep).2
    obtain ⟨k', step', rep', inv'⟩ := rep.advance inv allowed step
    obtain ⟨v, value, refused⟩ := inv.refused step'
    rw [rep.core, rep'.core]
    refine ⟨v, value, fun nonzero t => ?_⟩
    obtain ⟨live, rests⟩ := refused nonzero
    rw [rep.sleeps_iff inv, rep'.sleeps_iff inv', live, (rests t).asleep]
    exact ⟨(rests t).pending, .rfl⟩
  · have allowed : k.core.Allowed .resume := trivial
    rw [rep.core] at kEsp
    obtain ⟨k', step', rep', _⟩ := rep.advance inv allowed step
    rw [rep'.core]
    exact Kernel.resume_unblock kEsp step'

/-- Every run has its tally. -/
theorem tallied_of_path {s₀ s : State} {events : List Event} (n : Tally)
    (path : Transition.Path (Transition.Guarded (fun s e => e.Blocking ∧ s.core.Roomy e) Step) s₀ events s) :
    ∃ n', Transition.Path Tallied (s₀, n) events (s, n') := by
  induction path with
  | nil => exact ⟨n, .nil⟩
  | @snoc _ middle final event _ last ih =>
    obtain ⟨n', tallied⟩ := ih
    exact ⟨n'.next middle.core event final.core, tallied.snoc ⟨last.1, last.2, rfl⟩⟩

/-- The child is unblocked before it blocks, and blocks twice. -/
def blocksTwice : List Event :=
  [.syscall .fork, .syscall (.unblock 1000), .syscall .block, .syscall .block]

theorem unblocks_conserved_blocksTwice : ∃ (s : State) (n : Tally), s.Sleeps 2 ∧ n.given 2 = n.taken 2 ∧
    (s.core.task 2).pendingUnblocks = 0 := by
  obtain ⟨s, run, checked⟩ := executeBoot_run (fun s e => e.Blocking ∧ s.core.Roomy e) blocksTwice
    (fun s => Ring s.links (.head .blocked) (([2] : List Task).map .list) ∧ s.core.live 2) (by decide +kernel)
  simp only [decide_eq_true_eq] at run checked
  obtain ⟨ring, live⟩ := checked
  obtain ⟨ram, s₀, started, path⟩ := run
  obtain ⟨n, tallied⟩ := tallied_of_path ⟨fun _ => 0, fun _ => 0⟩ path
  obtain ⟨balance, _, awake⟩ := (unblocks_conserved started tallied).1 2 live
  have sleeps : s.Sleeps 2 := ⟨_, ring, List.mem_singleton_self _⟩
  have none := awake sleeps
  refine ⟨s, n, sleeps, ?_, none⟩
  omega

namespace Kernel

variable {k : Kernel}

/-- A call of the scheduler gives the processor to the first ready task. -/
theorem Sound.sched_turns (sound : k.Sound none) (call : k.core.InCall) (kont : Kont) (fits : k.core.Fits k.core.current kont)
    {t : Task} {rest : List Task} (ready : k.queues .readyqueue = t :: rest) : (k.sched kont).core.current = t ∧
      (k.sched kont).queues .readyqueue = rest ++ [k.core.current] := by
  have saved := sound.save (fun ts => { ts with kEsp := kont }) (fun _ => ⟨rfl, rfl, rfl, rfl⟩) (.inl call.task)
    (by simp [call.run]) fun _ => fits
  have run := call.running
  refine ⟨(saved.turn_dispatch ready).1, (saved.dispatch_lists .readyqueue).trans ?_⟩
  simp [Core.ct, run, call.task, ready]

theorem unblockLoop_queues {pid : Int} (ts : List Task) (r : Int × Kernel)
    (awake : ∀ t ∈ ts, (r.2.core.task t).pid = pid → (r.2.core.task t).currentState ≠ .stBlocked) :
    (ts.foldl (unblockChild pid) r).2.queues = r.2.queues := by
  induction ts generalizing r with
  | nil => rfl
  | cons child ts ih =>
    have first : (unblockChild pid r child).2.queues = r.2.queues := by
      unfold unblockChild
      split
      · rename_i named
        rw [if_neg (awake child List.mem_cons_self named)]
        rfl
      · rfl
    rw [List.foldl_cons, ih, first]
    intro t mem
    rw [unblockChild_task]
    intro named
    have before := awake t (List.mem_cons_of_mem _ mem)
    split at named
    · rename_i both
      rw [if_pos both, TaskStruct.roused, if_neg (before both.2)]
      exact before both.2
    · rename_i other
      rw [if_neg other]
      exact before named

/-- A call of `unblock` that wakes nobody gives the processor to the first ready task. -/
theorem Inv.sysUnblock_turns (inv : k.Inv) (call : k.core.InCall) {pid : Int} {t : Task} {rest : List Task}
    (awake : ∀ t, k.core.Named pid t → (k.core.task t).currentState ≠ .stBlocked)
    (ready : k.queues .readyqueue = t :: rest) : (k.sysUnblock pid).core.current = t ∧
      (k.sysUnblock pid).queues .readyqueue = rest ++ [k.core.current] := by
  have mem (u : Task) := inv.placed.mem (.fills k.core.current) u
  have queues : ((k.queues (.fills k.core.current)).foldl (unblockChild pid) (-1, k)).2.queues = k.queues :=
    unblockLoop_queues _ (-1, k) fun u member named => awake u ⟨((mem u).mp member).1, ((mem u).mp member).2, named⟩
  have current := unblockLoop_current pid (k.queues (.fills k.core.current)) (-1, k)
  obtain ⟨sound, calling⟩ := inv.toSound.unblockLoop call pid
  obtain ⟨next, line⟩ := sound.sched_turns calling (.unblock _) trivial ((congrFun queues .readyqueue).trans ready)
  exact ⟨next, line.trans (by rw [current])⟩

/-- `task1` and its child have the processor in turn, each inside a call of `unblock`: `a`
runs and `b` is next. -/
structure Duel (k : Kernel) (a b : Task) (p : Int) : Prop where
  inv : k.Inv
  current : k.core.current = a
  ready : k.queues .readyqueue = [b]
  mine : ∃ v, (k.core.task a).kEsp = .unblock v
  other : ∃ v, (k.core.task b).kEsp = .unblock v
  child : k.core.live 2 ∧ (k.core.task 2).pare = some task1 ∧ (k.core.task 2).pid = 1000
  pending : (k.core.task 2).pendingUnblocks = p

theorem Duel.half {a b : Task} {p : Int} (duel : k.Duel a b p) (here : a = 2 ∨ b = 2) :
    ∃ m k', k.Step .resume m ∧ m.Inv ∧ m.core.Allowed (.syscall (.unblock 1000)) ∧ m.Step (.syscall (.unblock 1000)) k' ∧
      k'.Duel b a (if a = task1 then int32 (p + 1) else p) := by
  obtain ⟨inv, rfl, ready, ⟨v, mine⟩, ⟨w, other⟩, ⟨live, pare, pid⟩, pending⟩ := duel
  have idle : k.core.current ≠ idleTask := inv.not_idle (by simp [Core.InUser, Core.ct, mine])
  let m := (k.setTask k.core.current fun ts => { ts with kEsp := .user }).sysReturn (some v)
  have resumed : k.Step .resume m := by
    refine ⟨by simp [Core.Enabled, Core.InUser, Core.ct, mine], ?_⟩
    show k.resume = .ok m
    unfold Kernel.resume
    rw [Core.ct, mine]
    rfl
  have inv' : m.Inv := Kernel.step_inv inv (e := .resume) trivial resumed
  have user : m.core.InUser := by simp [m, Core.InUser, Core.ct, Core.sysReturn]
  have call : m.core.InCall := inv'.inCall user idle
  have first : k.core.SameKin (k.core.setTask k.core.current fun ts => { ts with kEsp := .user }) :=
    .setTask _ _ _ fun _ => ⟨rfl, rfl, rfl⟩
  have kin : k.core.SameKin m.core :=
    first.trans (.setTask _ _ (fun ts => { ts with kEsp := .user, eax := some v }) fun _ => ⟨rfl, rfl, rfl⟩)
  have live : m.core.live 2 := by rwa [kin.live]
  have pid : (m.core.task 2).pid = 1000 := by rwa [kin.pid]
  have pare : (m.core.task 2).pare = some task1 := by rwa [kin.pare]
  have only (t : Task) (alive : m.core.live t) (named : (m.core.task t).pid = 1000) : t = 2 :=
    inv'.good.distinct t 2 alive live (named.trans pid.symm)
  have ready' : m.queues .readyqueue = [b] := ready
  have waits : (m.core.task b).currentState = .stReady := ((inv'.placed.mem .readyqueue b).mp (by rw [ready']; simp)).2.2
  have awake : (m.core.task 2).currentState ≠ .stBlocked := by
    rcases here with here | here
    · have run := call.running
      rw [← here]
      show (m.core.task m.core.current).currentState ≠ _
      rw [run]
      simp
    · rw [← here, waits]
      simp
  have allowed : m.core.Allowed (.syscall (.unblock 1000)) := fun t alive _ named asleep => by
    rw [only t alive named] at asleep
    exact absurd asleep awake
  have step : m.Step (.syscall (.unblock 1000)) (m.sysUnblock 1000) := ⟨⟨user, idle, by decide⟩, rfl⟩
  obtain ⟨value, rests⟩ := inv'.sysUnblock_task call 1000
  have rests' (t : Task) (named : m.core.Named 1000 t) : (m.core.task t).currentState ≠ .stBlocked := by
    rw [only t named.1 named.2.2]
    exact awake
  obtain ⟨current, line⟩ := inv'.sysUnblock_turns call rests' ready'
  have kin' := kin_sysUnblock 1000 m
  refine ⟨m, m.sysUnblock 1000, resumed, inv', allowed, step, Kernel.step_inv inv' allowed step, current, line, ?_, ⟨_, value⟩,
    ?_, ?_⟩
  · have different : b ≠ m.core.current := by
      rintro rfl
      have run := call.run
      rw [Core.ct, waits] at run
      contradiction
    have lives : m.core.live b := ((inv'.placed.mem .readyqueue b).mp (by rw [ready']; simp)).1
    refine ⟨w, ?_⟩
    rw [(inv'.elsewhere allowed step lives different).2, ← other]
    simp [m, Core.sysReturn, show b ≠ k.core.current from different]
  · exact ⟨by rw [kin'.live]; exact live, by rw [kin'.pare]; exact pare, by rw [kin'.pid]; exact pid⟩
  · have owed (t : Task) : (m.core.task t).pendingUnblocks = (k.core.task t).pendingUnblocks := by
      by_cases mine : t = k.core.current <;> simp [m, Core.sysReturn, mine]
    rw [(rests 2).pending, Core.rouse_task]
    by_cases father : k.core.current = task1
    · have named : m.core.Named 1000 2 := ⟨live, by rw [pare]; exact congrArg some father.symm, pid⟩
      rw [if_pos father, if_pos named, TaskStruct.roused, if_neg awake, owed, pending]
    · have strange : ¬ m.core.Named 1000 2 := fun named => father (Option.some.inj (named.2.1.symm.trans pare))
      rw [if_neg father, if_neg strange, owed, pending]

end Kernel

/-- One turn of a task in which it calls `unblock(1000)`. -/
def oneTurn : List Event := [.resume, .syscall (.unblock 1000)]

theorem Refines.half {s : State} {k : Kernel} {a b : Task} {p : Int} (rep : Refines s k) (duel : k.Duel a b p)
    (here : a = 2 ∨ b = 2) :
    ∃ s' k', Transition.Path Step s oneTurn s' ∧ Refines s' k' ∧ k'.Duel b a (if a = task1 then int32 (p + 1) else p) := by
  obtain ⟨m, k', resumed, inv, allowed, unblocked, duel'⟩ := duel.half here
  have free : k.core.Allowed .resume := trivial
  obtain ⟨s₁, first, rep₁⟩ := rep.realize duel.inv free resumed
  obtain ⟨s', second, rep'⟩ := rep₁.realize inv allowed unblocked
  have path : Transition.Path Step s [.resume] s₁ := .single first
  exact ⟨s', k', path.snoc second, rep', duel'⟩

theorem Refines.floods (n : Nat) {s : State} {k : Kernel} {p : Int} (rep : Refines s k) (duel : k.Duel task1 2 (int32 p)) :
    ∃ s' k', Transition.Path Step s (List.replicate n (oneTurn ++ oneTurn)).flatten s' ∧ Refines s' k' ∧
      k'.Duel task1 2 (int32 (p + n)) := by
  induction n generalizing s k p with
  | zero => exact ⟨s, k, .nil, rep, by simpa using duel⟩
  | succ n ih =>
    obtain ⟨s₁, k₁, first, rep₁, duel₁⟩ := rep.half duel (.inr rfl)
    obtain ⟨s₂, k₂, second, rep₂, duel₂⟩ := rep₁.half duel₁ (.inl rfl)
    have more : int32 (int32 p + 1) = int32 (p + 1) := by
      unfold int32
      exact Int.bmod_add_bmod
    rw [if_pos rfl, if_neg (by decide), more] at duel₂
    obtain ⟨s', k', path, rep', duel'⟩ := ih rep₂ duel₂
    refine ⟨s', k', ?_, rep', ?_⟩
    · rw [List.replicate_succ, List.flatten_cons]
      exact (first.append second).append path
    · rw [show p + ((n + 1 : Nat) : Int) = p + 1 + n by omega]
      exact duel'

/-- `task1` and its child call `unblock(1000)` in turn, 2147483648 times each. -/
def floodsChild : List Event :=
  [.syscall .fork, .syscall (.unblock 1000), .syscall (.unblock 1000)] ++
    (List.replicate 2147483647 (oneTurn ++ oneTurn)).flatten

theorem blocking_floodsChild : ∀ e ∈ floodsChild, e.Blocking := by
  intro e mem
  unfold floodsChild at mem
  rcases List.mem_append.mp mem with first | later
  · simp only [List.mem_cons, List.not_mem_nil, or_false] at first
    rcases first with rfl | rfl | rfl <;> trivial
  · obtain ⟨turns, many, mem⟩ := List.mem_flatten.mp later
    rw [List.eq_of_mem_replicate many] at mem
    simp only [oneTurn, List.cons_append, List.nil_append, List.mem_cons, List.not_mem_nil, or_false] at mem
    rcases mem with rfl | rfl | rfl | rfl <;> trivial

/-- The counter of the child overflows. -/
theorem pending_overflows : ∃ s, Run floodsChild s ∧ (∀ e ∈ floodsChild, e.Blocking) ∧ s.core.live 2 ∧
    (s.core.task 2).pendingUnblocks < 0 := by
  obtain ⟨s, run, checked⟩ := executeBoot_run (fun s e => s.core.Allowed e)
    [.syscall .fork, .syscall (.unblock 1000), .syscall (.unblock 1000)]
    (fun s => (s.core.current = task1 ∧ s.Ready [2] ∧ (s.core.task task1).kEsp = .unblock 0 ∧
      (s.core.task 2).kEsp = .unblock (-1)) ∧
      (s.core.live 2 ∧ (s.core.task 2).pare = some task1 ∧ (s.core.task 2).pid = 1000) ∧ (s.core.task 2).pendingUnblocks = 1)
    (by decide +kernel)
  simp only [decide_eq_true_eq] at run checked
  obtain ⟨⟨current, ready, mine, other⟩, child, pending⟩ := checked
  obtain ⟨k, rep, inv, _⟩ := run.invariant Core.Allowed (fun _ => True) (fun _ => trivial) (fun _ _ _ _ allowed => allowed)
    fun _ _ _ _ _ _ _ _ => trivial
  have line := ready.unique rep.ready
  rw [rep.core] at current mine other child pending
  have duel : k.Duel task1 2 (int32 1) := ⟨inv, current, line.symm, ⟨_, mine⟩, ⟨_, other⟩, child, pending⟩
  obtain ⟨s', k', path, rep', duel'⟩ := rep.floods 2147483647 duel
  obtain ⟨ram, s₀, started, before⟩ := run.run
  refine ⟨s', ⟨ram, s₀, started, before.append path⟩, blocking_floodsChild, ?_, ?_⟩
  · rw [rep'.core]
    exact duel'.child.1
  · rw [rep'.core, duel'.pending]
    decide

end Zeos
