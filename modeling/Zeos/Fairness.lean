import Zeos.Readers

/-! Who waits in the ready queue runs in turn, and when its turn comes at the latest. -/
namespace Zeos
open Circular Placement Outcome

/-- The counter and all quanta lie within `DEFAULT_QUANTUM_TICKS`. -/
structure Core.Timed (c : Core) : Prop where
  tickCounter : c.tickCounter ≤ defaultQuantumTicks
  quantum : ∀ t, c.live t → (c.task t).quantum ≤ defaultQuantumTicks

@[simp] theorem Core.setTask_tickCounter (c : Core) (t : Task) (f : TaskStruct → TaskStruct) :
    (c.setTask t f).tickCounter = c.tickCounter := rfl

theorem popChars_tickCounter (n : Nat) {i : Nat} {c c' : Core} (done : c.popChars i n = .ok c') :
    c'.tickCounter = c.tickCounter := by
  induction n generalizing i c with
  | zero => cases done; rfl
  | succ n ih =>
    unfold Core.popChars at done
    split at done
    · exact (ih (c := { c with kbBuffer := c.kbBuffer.pop.2, tmpbuff := Function.update c.tmpbuff i c.kbBuffer.pop.1 })
        (i := i + 1) done).trans rfl
    · contradiction

theorem readChars_tickCounter {b : DWord} {maxchars : Int} {c c' : Core} (done : c.readChars b maxchars = .ok c') :
    c'.tickCounter = c.tickCounter := by
  obtain ⟨m, pops, copy⟩ := bind_ok.mp done
  obtain ⟨mm, copied, finish⟩ := bind_ok.mp copy
  cases finish
  have same : m.tickCounter = c.tickCounter := popChars_tickCounter _ pops
  exact same

namespace Kernel

variable {c : Core} {e : Event} {k k' : Kernel}

@[simp] theorem yield_tickCounter (k : Kernel) : k.yield.core.tickCounter = k.core.tickCounter := by
  unfold yield
  split <;> [split; skip] <;> simp

theorem dispatch_tickCounter (k : Kernel) : k.dispatch.core.tickCounter = (k.core.task k.next).quantum := by
  show ((k.yield.start k.next).core.task k.next).quantum = _
  rw [start_core, Core.setTask_task, if_pos rfl, yield_task]

@[simp] theorem keyboardRoutine_tickCounter (k : Kernel) (readInp : UInt8) :
    (k.keyboardRoutine readInp).core.tickCounter = k.core.tickCounter := by
  unfold keyboardRoutine
  split
  · rfl
  dsimp only
  split
  · rfl
  · show (Kernel.yield _).core.tickCounter = _
    simp

/-- What an act does to the ready queue and the counter. -/
theorem Act.line (act : Act c e k k') :
    (k'.core.current = k.core.current ∧ k'.core.tickCounter = k.core.tickCounter ∧
      ∃ added, k'.queues .readyqueue = k.queues .readyqueue ++ added) ∨ (k.Sound none ∧ k' = k.dispatch) ∨
    (e = .clock ∨ ∃ readInp, e = .key readInp) ∧ k'.core.tickCounter ≤ k.core.tickCounter := by
  cases act with
  | aside aside => exact .inl ⟨aside.current, aside.tickCounter, [], by rw [aside.ready, List.append_nil]⟩
  | wake live asleep why =>
    exact .inl ⟨by simp, by simp, _, wake_ready asleep⟩
  | park kont call waits why =>
    have run := call.running
    refine .inl ⟨by simp, by simp, [], ?_⟩
    cases kont <;> simp [Kernel.park, move, enqueue, enqueue?, dequeue?, Kont.waitHead, run, TaskState.queue]
  | dispatch sound alive unserved => exact .inr (.inl ⟨sound, rfl⟩)
  | key readInp inv user why => exact .inr (.inr ⟨.inr ⟨readInp, why⟩, by simp⟩)
  | tick zeosTick why =>
    refine .inr (.inr ⟨.inl why, ?_⟩)
    simp only [setCore_core]
    split <;> omega
  | enter b maxchars call why size =>
    have run := call.running
    exact .inl ⟨by simp, by simp, [], by simp [move, enqueue, dequeue?, run, TaskState.queue]⟩
  | serve b maxchars why reading enough done =>
    rename_i core
    have same : k.core.SameTasks core := readChars_sameTasks (congrArg memory done)
    refine .inl ⟨by simp [same.current], ?_, [], ?_⟩
    · rw [start_core]
      simpa using readChars_tickCounter done
    · rw [start, same.current, if_neg reading.task, setTask_queues, setCore_core, same.task, List.append_nil]
      rcases reading.state with state | state <;> rw [Core.ct] at state <;>
        simp [state, TaskState.queue, dequeue?, dequeue]
  | born born => exact .inl ⟨born.current, born.tickCounter, _, born.ready⟩
  | unborn unborn => exact .inl ⟨unborn.current, unborn.tickCounter, [], by rw [unborn.ready, List.append_nil]⟩
  | left left => exact .inl ⟨left.current, left.tickCounter, [], by rw [left.ready, List.append_nil]⟩
  | free dead => exact .inl ⟨rfl, rfl, [], by simp [enqueue]⟩
  | _ => exact .inl ⟨rfl, rfl, [], (List.append_nil _).symm⟩

theorem Act.timed (act : Act c e k k') (timed : k.core.Timed) : k'.core.Timed := by
  refine ⟨?_, fun t live => ?_⟩
  · have limit := timed.tickCounter
    rcases act.line with ⟨_, tick, _⟩ | ⟨sound, rfl⟩ | ⟨_, tick⟩
    · omega
    · rw [dispatch_tickCounter]
      exact timed.quantum k.next sound.live_next
    · omega
  · rcases act.kin with kin | ⟨fill, born⟩ | ⟨fill, unborn⟩ | left
    · rw [kin.quantum]
      exact timed.quantum t (by rwa [← kin.live])
    · by_cases here : t = fill
      · rw [here, born.child.2.2.2.2.2]
      · obtain ⟨lives, _, _, quantum⟩ := born.elder here
        rw [quantum]
        exact timed.quantum t (by rwa [← lives])
    · rw [unborn.live] at live
      rw [unborn.elder live]
      exact timed.quantum t live
    · obtain ⟨other, alive⟩ := left.stays live
      rw [left.others t other]
      exact timed.quantum t alive

/-- A step leaves the first ready task in its place, or gives it the processor. -/
inductive Turn (k : Kernel) (e : Event) (k' : Kernel) (t : Task) (rest : List Task) : Prop where
  | stays (added : List Task) (queue : k'.queues .readyqueue = t :: rest ++ added)
      (current : k'.core.current = k.core.current ∨ k'.core.current ∈ k.readers)
      (tick : max k'.core.tickCounter 1 + (if e = .clock then 1 else 0) ≤ max k.core.tickCounter 1)
  | next (added : List Task) (queue : k'.queues .readyqueue = rest ++ added) (current : k'.core.current = t)

theorem Sound.turn_dispatch (sound : k.Sound none) {t : Task} {rest : List Task} (queue : k.queues .readyqueue = t :: rest) :
    k.dispatch.core.current = t ∧ ∃ added, k.dispatch.queues .readyqueue = rest ++ added := by
  have line := sound.dispatch_lists .readyqueue
  rw [if_pos rfl, queue, List.tail_cons] at line
  refine ⟨?_, _, line⟩
  show k.next = t
  simp [next, queue]

theorem Inv.turn_clock (inv : k.Inv) (user : k.core.InUser) {t : Task} {rest : List Task}
    (queue : k.queues .readyqueue = t :: rest) : k.Turn .clock k.clockRoutine t rest := by
  let ticked := k.setCore { k.core with
    zeosTick := int32 (k.core.zeosTick + 10)
    tickCounter := if 0 < k.core.tickCounter then k.core.tickCounter - 1 else k.core.tickCounter }
  have sound : ticked.Inv := inv.sameTasks ⟨rfl, rfl, rfl, rfl, rfl⟩
  have run : ticked.core.ct.currentState = .stRun := inv.run user
  show k.Turn .clock (if ticked.core.tickCounter ≤ 0 then ticked.sched .user else ticked) t rest
  split
  · have saved := sound.save (fun ts => { ts with kEsp := .user }) (fun _ => ⟨rfl, rfl, rfl, rfl⟩) (.inr rfl)
      (by simp [run]) (by simp [Core.Fits])
    obtain ⟨current, added, queue'⟩ := saved.turn_dispatch queue
    exact .next added queue' current
  · rename_i positive
    refine .stays [] (by rw [List.append_nil]; exact queue) (.inl rfl) ?_
    simp only [ticked, setCore_core] at positive ⊢
    split at positive <;> rename_i running
    · rw [if_pos running, if_pos trivial]
      omega
    · omega

theorem turn_keyboardRoutine (k : Kernel) (readInp : UInt8) {t : Task} {rest : List Task}
    (queue : k.queues .readyqueue = t :: rest) : k.Turn (.key readInp) (k.keyboardRoutine readInp) t rest := by
  unfold Kernel.keyboardRoutine
  cases pressed : keyChar readInp with
  | none => exact .stays [] (by simpa using queue) (.inl rfl) (by simp)
  | some char =>
    dsimp only
    split
    · exact .stays [] (by simpa using queue) (.inl rfl) (by simp)
    · rename_i nt others readers
      have readers : k.readers = nt :: others := readers
      have lines := yield_queues (k.setCore { k.core with kbBuffer := k.core.kbBuffer.press char }) .readyqueue
      refine .stays (if k.core.ct.currentState = .stRun ∧ k.core.current ≠ idleTask then [k.core.current] else []) ?_ (.inr ?_) ?_
      · show (Kernel.yield _).queues .readyqueue = _
        rw [lines]
        by_cases runs : k.core.ct.currentState = .stRun ∧ k.core.current ≠ idleTask
        · rw [if_pos runs, if_pos ⟨rfl, runs⟩, ← queue]
          rfl
        · rw [if_neg runs, if_neg fun all => runs all.2, List.append_nil]
          exact queue
      · show nt ∈ k.readers
        rw [readers]
        exact List.mem_cons_self
      · show max (Kernel.yield _).core.tickCounter 1 + _ ≤ _
        simp

theorem Inv.turn (inv : k.Inv) (allowed : k.core.Allowed e) (step : k.Step e k') {t : Task} {rest : List Task}
    (queue : k.queues .readyqueue = t :: rest) : k.Turn e k' t rest := by
  by_cases ticks : e = .clock
  · subst ticks
    obtain ⟨enabled, done⟩ := step
    cases done
    exact inv.turn_clock enabled queue
  by_cases keys : ∃ readInp, e = .key readInp
  · obtain ⟨readInp, rfl⟩ := keys
    obtain ⟨enabled, done⟩ := step
    cases done
    exact turn_keyboardRoutine k readInp queue
  have keys (readInp : UInt8) : e ≠ .key readInp := fun same => keys ⟨readInp, same⟩
  have ready := ((inv.placed.mem .readyqueue t).mp (by rw [queue]; exact List.mem_cons_self)).2.2
  have other : t ≠ k.core.current := inv.between.not_current ready nofun nofun
  have reached := inv.keeps
    (fun m => (m.core.current = k.core.current ∧ m.core.tickCounter = k.core.tickCounter ∧
        ∃ added, m.queues .readyqueue = t :: rest ++ added) ∨
      m.core.current = t ∧ ∃ added, m.queues .readyqueue = rest ++ added)
    allowed step (fun m m' mine act before => by
      rcases before with ⟨_, tick, added, line⟩ | ⟨gone, _⟩
      · rcases act.line with ⟨current', tick', added', line'⟩ | ⟨sound, rfl⟩ | ⟨clock | ⟨readInp, key⟩, _⟩
        · exact .inl ⟨current'.trans mine, tick'.trans tick, added ++ added', by rw [line', line, List.append_assoc]⟩
        · rw [List.cons_append] at line
          obtain ⟨current', added', line'⟩ := sound.turn_dispatch line
          exact .inr ⟨current', added ++ added', by rw [line', List.append_assoc]⟩
        · exact absurd clock ticks
        · exact absurd key (keys readInp)
      · exact absurd (gone.symm.trans mine) other)
    (.inl ⟨rfl, rfl, [], by rw [queue, List.append_nil]⟩)
  rcases reached with ⟨current, tick, added, line⟩ | ⟨current, added, line⟩
  · exact .stays added line (.inl current) (by rw [tick, if_neg ticks, Int.add_zero])
  · exact .next added line current

/-- How many ticks the task at place `i` of the ready queue waits at most. -/
def patience (k : Kernel) (i : Nat) : Int := max k.core.tickCounter 1 + defaultQuantumTicks * i

end Kernel

theorem boot_timed (ram : Nat → Nat → UInt8) : (bootCore ram).Timed := by
  have tick : booted.core.tickCounter ≤ defaultQuantumTicks := by decide +kernel
  refine ⟨tick, fun t live => ?_⟩
  rcases live_boot ram live with rfl | rfl
  · rw [boot_idle]
    decide
  · rw [boot_task1]

/-- The tasks of the ready queue, in its order. -/
def State.Ready (s : State) (ts : List Task) : Prop := Ring s.links (.head .readyqueue) (ts.map .list)

instance (s : State) (ts : List Task) : Decidable (s.Ready ts) := inferInstanceAs (Decidable (Ring ..))

theorem Refines.ready {s : State} {k : Kernel} (rep : Refines s k) : s.Ready (k.queues .readyqueue) :=
  rep.rings.ring .readyqueue (rep.main _ rfl)

theorem State.Ready.unique {s : State} {ts us : List Task} (ready : s.Ready ts) (ready' : s.Ready us) : ts = us :=
  List.map_injective_iff.mpr (fun _ _ => Node.list.inj) (Circular.Ring.unique ready ready')

/-- An allowed step that does not give `p` the processor. -/
def Waiting (p : Task) (s : State) (e : Event) (s' : State) : Prop :=
  s.core.Allowed e ∧ Step s e s' ∧ s'.core.current ≠ p

/-- While `p` waits, the ready queue only loses those that stand before `p`, from its front,
and the clock ticks fewer times than the quanta of all of them together. -/
theorem Kernel.waiting {k : Kernel} {s s' : State} {events : List Event} {i : Nat} {p : Task} (rep : Refines s k)
    (inv : k.Inv) (timed : k.core.Timed) (place : (k.queues .readyqueue)[i]? = some p)
    (path : Transition.Path (Waiting p) s events s') :
    ∃ m : Kernel, Refines s' m ∧ m.Inv ∧ m.core.Timed ∧ ∃ j later, j ≤ i ∧
      m.queues .readyqueue = (k.queues .readyqueue).drop j ++ later ∧
      events.count .clock + m.patience (i - j) ≤ k.patience i := by
  induction path with
  | nil => exact ⟨k, rep, inv, timed, 0, [], Nat.zero_le i, by simp, by simp⟩
  | @snoc events _ _ e path step ih =>
    obtain ⟨m, rep, inv, timed, j, later, before, line, ticks⟩ := ih
    obtain ⟨allowed, step, other⟩ := step
    rw [rep.core] at allowed
    obtain ⟨m', step', rep', inv'⟩ := rep.advance inv allowed step
    have timed' : m'.core.Timed := inv.keeps (fun m => m.core.Timed) allowed step' (fun _ _ _ act => act.timed) timed
    obtain ⟨short, here⟩ := List.getElem?_eq_some_iff.mp place
    have inside : j < (k.queues .readyqueue).length := by omega
    have front := line
    rw [List.drop_eq_getElem_cons inside, List.cons_append] at front
    have counted : (events ++ [e]).count .clock = events.count .clock + if e = .clock then 1 else 0 := by
      rw [List.count_append, List.count_singleton]
      simp only [beq_iff_eq]
    rw [counted]
    unfold patience at ticks ⊢
    rcases inv.turn allowed step' front with ⟨added, line', current, tick⟩ | ⟨added, line', current⟩
    · refine ⟨m', rep', inv', timed', j, later ++ added, before, ?_, ?_⟩
      · rw [line', List.drop_eq_getElem_cons inside, List.cons_append, List.cons_append, List.append_assoc]
      · split at tick <;> rename_i clock <;> simp only [clock, if_true, if_false] <;> push_cast <;> omega
    · have further : j ≠ i := by
        rintro rfl
        rw [rep'.core, current] at other
        exact other here
      have limit := timed'.tickCounter
      refine ⟨m', rep', inv', timed', j + 1, later ++ added, by omega, by rw [line', List.append_assoc], ?_⟩
      simp only [defaultQuantumTicks] at *
      split <;> push_cast <;> omega

/-- A task at place `i` of the ready queue runs before all that enter the queue later, and
before the clock has ticked `i + 1` quanta. -/
theorem dispatched_in_turn {events events' : List Event} {s s' : State} {ts : List Task} {i : Nat} {p : Task}
    (run : RunWhere (fun s e => s.core.Allowed e) events s) (ready : s.Ready ts) (place : ts[i]? = some p)
    (path : Transition.Path (Waiting p) s events' s') :
    (events'.count .clock : Int) < (i + 1) * defaultQuantumTicks ∧
      ∃ j later, j ≤ i ∧ s'.Ready (ts.drop j ++ later) ∧
        ∀ e s'', s'.core.Allowed e → Step s' e s'' → (s'.core.task s''.core.current).currentState = .stReady →
          ts[j]? = some s''.core.current := by
  obtain ⟨k, rep, inv, timed⟩ := run.invariant Core.Allowed (fun k => k.core.Timed) boot_timed
    (fun _ _ _ _ allowed => allowed)
    (fun _ _ _ inv _ timed allowed step => inv.keeps (fun m => m.core.Timed) allowed step (fun _ _ _ act => act.timed) timed)
  have same := ready.unique rep.ready
  subst same
  obtain ⟨m, rep', inv', timed', j, later, before, line, ticks⟩ := Kernel.waiting rep inv timed place path
  have limit := timed.tickCounter
  unfold Kernel.patience at ticks
  refine ⟨by simp only [defaultQuantumTicks] at *; omega, j, later, before, by rw [← line]; exact rep'.ready, ?_⟩
  intro e s'' allowed step awake
  rw [rep'.core] at allowed awake
  obtain ⟨m', step', rep'', inv''⟩ := rep'.advance inv' allowed step
  rw [rep''.core] at awake ⊢
  have inside : j < (k.queues .readyqueue).length := by
    have := (List.getElem?_eq_some_iff.mp place).1
    omega
  rw [List.drop_eq_getElem_cons inside, List.cons_append] at line
  rcases inv'.turn allowed step' line with ⟨_, _, current, _⟩ | ⟨_, _, current⟩
  · exfalso
    rcases current with same | reader
    · rw [same] at awake
      exact inv'.between.not_current awake nofun nofun rfl
    · have asleep := ((inv'.placed.mem .readBlocked m'.core.current).mp reader).2
      rw [awake] at asleep
      contradiction
  · rw [current]
    exact List.getElem?_eq_getElem inside

/-- The third child waits while its father and its brothers use up their time, and is next. -/
theorem dispatched_in_turn_third : ∃ s s' s'', RunWhere (fun s e => s.core.Allowed e) (List.replicate 3 (.syscall .fork)) s ∧
    s.Ready [2, 3, 4] ∧ Transition.Path (Waiting 4) s (List.replicate 29 .clock) s' ∧ Step s' .clock s'' ∧
    s''.core.current = 4 := by
  obtain ⟨s, run, checked⟩ := executeBoot_run (fun s e => s.core.Allowed e) (List.replicate 3 (.syscall .fork))
    (fun s => s.Ready [2, 3, 4] ∧
      (execute (fun s e => s.core.Allowed e ∧ (s.step e).toOption.any fun s' => s'.core.current ≠ 4)
        (List.replicate 29 .clock) s).any fun s' =>
        (s'.Ready [4, 1, 2] ∧ s'.core.Enabled .clock) ∧ (s'.step .clock).toOption.any fun s'' =>
          (s'.core.task s''.core.current).currentState = .stReady) (by decide +kernel)
  simp only [decide_eq_true_eq] at run checked
  obtain ⟨ready, rest⟩ := checked
  obtain ⟨s', path, rest⟩ := (Option.any_eq_true _ _).mp rest
  rw [decide_eq_true_eq] at rest
  obtain ⟨⟨ready', enabled⟩, rest⟩ := rest
  obtain ⟨s'', step, awake⟩ := Step.of_any enabled rest
  rw [decide_eq_true_eq] at awake
  have path : Transition.Path (Waiting 4) s (List.replicate 29 .clock) s' := by
    refine (execute_path _ _ s s' path).mono fun m e m' => ?_
    rintro ⟨guard, enabled, done⟩
    obtain ⟨allowed, waits⟩ := of_decide_eq_true guard
    rw [done] at waits
    exact ⟨allowed, ⟨enabled, done⟩, of_decide_eq_true waits⟩
  obtain ⟨_, j, later, before, line, next⟩ := dispatched_in_turn run ready (i := 2) rfl path
  have there := next .clock s'' trivial step awake
  have same := line.unique ready'
  refine ⟨s, s', s'', run, ready, path, step, ?_⟩
  -- the queue has lost its first two places
  obtain rfl | rfl | rfl : j = 0 ∨ j = 1 ∨ j = 2 := by omega
  · simp at same
  · simp at same
  · exact (Option.some.inj there).symm

/-- 1001 joins 1000 and is woken by its father. -/
def joinerReady : List Event :=
  List.replicate 3 (.syscall .fork) ++ List.replicate 20 .clock ++
    [.syscall (.waitThread 1000), .syscall (.unblock 0), .syscall (.unblock 1001)]

/-- 1000 makes a child and exits. -/
def joinedExits : List Event :=
  [.syscall .fork, .syscall .exit, .resume] ++ List.replicate 10 .clock ++ [.resume] ++ List.replicate 10 .clock

/-- 1001 stands in the ready queue all the time, but the exit of the task it has joined puts
it at the end; the child of that task, which came later, runs first. -/
theorem overtaken_joiner : ∃ s s', Run joinerReady s ∧ s.Ready [4, 3, 1] ∧ ¬ s.core.live 5 ∧
    Transition.Path (Transition.Guarded (fun s _ => ∃ ts, s.Ready ts ∧ 3 ∈ ts) Step) s joinedExits s' ∧
    joinedExits.count .clock = (1 + 1) * 10 ∧ s'.Ready [3, 4, 1] ∧ s'.core.current = 5 := by
  obtain ⟨s, run, checked⟩ := executeBoot_run (fun _ _ => true) joinerReady
    (fun s => (s.Ready [4, 3, 1] ∧ ¬ s.core.live 5) ∧
      (execute (fun s _ => [[4, 3, 1], [4, 3, 1, 5], [1, 5, 3], [5, 3, 4], [3, 4, 1]].any fun ts => s.Ready ts ∧ 3 ∈ ts)
        joinedExits s).any fun s' => s'.Ready [3, 4, 1] ∧ s'.core.current = 5) (by decide +kernel)
  simp only [decide_eq_true_eq, Option.any_eq_true] at checked
  obtain ⟨⟨ready, dead⟩, s', path, ready', current⟩ := checked
  have path := execute_path _ joinedExits s s' path
  refine ⟨s, s', run.run, ready, dead, path.mono fun s e s' => ?_, by decide +kernel, ready', current⟩
  rintro ⟨queued, step⟩
  obtain ⟨ts, _, queued⟩ := List.any_eq_true.mp queued
  exact ⟨⟨ts, by simpa using queued⟩, step⟩

end Zeos
