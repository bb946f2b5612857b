import Zeos.Exclusion
import Zeos.Fairness

/-! What `semWait` returns to a task that has slept in it. It reads the slot again when it
goes on, whatever has become of the slot. -/
namespace Zeos
open Circular Outcome

namespace Core

/-- A signal wakes no sleeper of a slot whose destroyer is at work. -/
def Lasts (c : Core) : Event → Prop
  | .syscall (.semSignal semid) => ∀ i, c.hit semid = some i → int32 ((c.semaphores i).value + 1) ≤ 0 →
      (c.semaphores i).creatorPID ≠ -1
  | _ => True

instance (c : Core) (e : Event) : Decidable (c.Lasts e) := by
  unfold Lasts
  apply e.decidable

/-- A destroyer wakes a sleeper of a slot only when nobody who was woken there has still to
go on. -/
def Calm (c : Core) (e : Event) : Prop :=
  ∀ i, c.Rouses i e → (∃ t, c.Asleep i t) → ∀ t, c.live t → (c.task t).kEsp = .semWait i → c.Asleep i t

instance (c : Core) (e : Event) : Decidable (c.Calm e) := inferInstanceAs (Decidable (∀ _, _))

def Settled (c : Core) (e : Event) : Prop := c.Allowed e ∧ c.Lasts e ∧ c.Calm e

instance (c : Core) (e : Event) : Decidable (c.Settled e) := inferInstanceAs (Decidable (_ ∧ _))

end Core

namespace Kernel

variable {k k' : Kernel} {e : Event} {t : Task} {i : SemIndex}

/-- A task that does not run keeps its place in the kernel. -/
theorem Inv.elsewhere (inv : k.Inv) (allowed : k.core.Allowed e) (step : k.Step e k') (live : k.core.live t)
    (other : t ≠ k.core.current) : k'.core.live t ∧ (k'.core.task t).kEsp = (k.core.task t).kEsp :=
  inv.keeps (fun m => m.core.live t ∧ (m.core.task t).kEsp = (k.core.task t).kEsp) allowed step
    (fun m m' mine act ⟨alive, same⟩ => by
      have other : t ≠ m.core.current := by rwa [mine]
      exact ⟨act.stays alive other, (act.others alive other).1.trans same⟩)
    ⟨live, rfl⟩

/-- Who has to go on in a call takes no other step. -/
theorem Step.elsewhere (step : k.Step e k') (inside : (k.core.task t).kEsp ≠ .user)
    (waits : e = .resume → k.core.current ≠ t) : t ≠ k.core.current := by
  rintro rfl
  obtain ⟨enabled, _⟩ := step
  cases e with
  | resume => exact waits rfl rfl
  | syscall call => exact inside enabled.1
  | _ => exact inside enabled

/-- The owner of a slot changes with its creation and with the round of its destroyer. -/
theorem Inv.creator_step (inv : k.Inv) (allowed : k.core.Allowed e) (step : k.Step e k') (i : SemIndex) :
    (k'.core.semaphores i).creatorPID = (k.core.semaphores i).creatorPID ∨
      (k'.core.semaphores i).creatorPID = k.core.ct.pid ∨
      k.core.Rouses i e ∧ k.table.sleepers i ≠ [] ∧ (k'.core.semaphores i).creatorPID = -1 := by
  have released {own : SemIndex → Prop} {M : Table} (released : k.table.Released own M) :
      (M.slot i).creatorPID = (k.core.semaphores i).creatorPID := by
    rcases released.slot i with same | ⟨_, same⟩ <;> rw [same] <;> rfl
  by_cases destroys : ∃ i, k.core.Destroys i e
  · cases inv.rounds step destroys with
    | ends given => exact .inl (released given)
    | @sleeps M j semid caller t rest line given mine used first marked kEsp before behind =>
      have slot : k'.core.semaphores i = (M.mark j).slot i := by rw [← marked]; rfl
      by_cases here : i = j
      · subst here
        refine .inr (.inr ⟨mine, ?_, by simp [slot, Table.mark]⟩)
        rw [← given.sleepers, first]
        exact List.cons_ne_nil _ _
      · refine .inl ?_
        rw [slot, ← released given]
        simp [Table.mark, here]
  have table := step_table inv allowed step
  have destroyed {own : SemIndex → Prop} (none : ∀ j, ¬ own j) (destroyed : k.table.Destroyed own k'.table) :
      (k'.core.semaphores i).creatorPID = (k.core.semaphores i).creatorPID := by
    obtain ⟨M, given, same | ⟨j, mine, _⟩⟩ := destroyed
    · rw [← released given, ← same]
      rfl
    · exact absurd mine (none j)
  have slot : k'.core.semaphores i = k'.table.slot i := rfl
  have nobody (j : SemIndex) : ¬ k.core.Destroys j e := fun mine => destroys ⟨j, mine⟩
  unfold Core.TableStep at table
  split at table
  · rename_i initialValue
    rw [slot, table]
    cases k.core.freeSlot with
    | none => exact .inl rfl
    | some j =>
      by_cases here : i = j
      · exact .inr (.inl (by simp [here]))
      · exact .inl (by simp [here])
  · rename_i semid
    rw [slot, table]
    cases k.core.hit semid with
    | none => exact .inl rfl
    | some j => by_cases here : i = j <;> simp [Table.take, here]
  · rename_i semid
    rw [slot, table]
    cases k.core.hit semid with
    | none => exact .inl rfl
    | some j => by_cases here : i = j <;> simp [Table.give, here]
  · exact .inl (destroyed nobody table)
  · exact .inl (destroyed nobody table)
  · exact .inl (destroyed nobody table)
  · exact .inl (by rw [slot, table]; rfl)

/-- Only the task that takes the step falls asleep in it. -/
theorem Inv.slept_step (inv : k.Inv) (allowed : k.core.Allowed e) (step : k.Step e k') (asleep : t ∈ k'.table.sleepers i) :
    t ∈ k.table.sleepers i ∨ t = k.core.current := by
  have table := step_table inv allowed step
  have destroyed {own : SemIndex → Prop} (destroyed : k.table.Destroyed own k'.table) : t ∈ k.table.sleepers i := by
    obtain ⟨M, given, same | ⟨j, _, _, _, same⟩⟩ := destroyed
    · rw [same, given.sleepers] at asleep
      exact asleep
    · rw [same] at asleep
      by_cases here : i = j
      · simp only [Table.mark, Table.set_sleepers, here, if_true, given.sleepers] at asleep ⊢
        exact List.mem_of_mem_tail asleep
      · simpa [Table.mark, here, given.sleepers] using asleep
  unfold Core.TableStep at table
  split at table
  · rename_i initialValue
    rw [table] at asleep
    cases found : k.core.freeSlot with
    | none => exact .inl (by simpa only [found] using asleep)
    | some j =>
      simp only [found] at asleep
      by_cases here : i = j
      · simp [here] at asleep
      · exact .inl (by simpa [here] using asleep)
  · rename_i semid
    rw [table] at asleep
    cases hit : k.core.hit semid with
    | none => exact .inl (by simpa only [hit] using asleep)
    | some j =>
      simp only [hit] at asleep
      by_cases here : i = j
      · subst here
        simp only [Table.take, Table.set_sleepers, if_true] at asleep
        split at asleep
        · simpa using asleep
        · exact .inl asleep
      · exact .inl (by simpa [Table.take, here] using asleep)
  · rename_i semid
    rw [table] at asleep
    cases hit : k.core.hit semid with
    | none => exact .inl (by simpa only [hit] using asleep)
    | some j =>
      simp only [hit] at asleep
      by_cases here : i = j
      · subst here
        simp only [Table.give, Table.set_sleepers, if_true] at asleep
        split at asleep
        · exact .inl (List.mem_of_mem_tail asleep)
        · exact .inl asleep
      · exact .inl (by simpa [Table.give, here] using asleep)
  · exact .inl (destroyed table)
  · exact .inl (destroyed table)
  · exact .inl (destroyed table)
  · rw [table] at asleep
    exact .inl asleep

/-- The owners of the slots are PIDs, or the mark of a destroyer. -/
def Owned (k : Kernel) : Prop := ∀ i, -1 ≤ (k.core.semaphores i).creatorPID

theorem Inv.pid_nonneg (inv : k.Inv) : 0 ≤ k.core.ct.pid := by
  by_cases idle : k.core.current = idleTask
  · rw [Core.ct, idle, inv.good.idle.2.1]
  · have := inv.good.positive _ inv.between.live idle
    rw [Core.ct]
    omega

theorem Owned.step (owned : k.Owned) (inv : k.Inv) (allowed : k.core.Allowed e) (step : k.Step e k') : k'.Owned := by
  intro i
  have before := owned i
  have pid := inv.pid_nonneg
  rcases inv.creator_step allowed step i with same | mine | ⟨_, _, marked⟩ <;> omega

/-- A signal has woken the task, and its slot has an owner. -/
structure Signalled (k : Kernel) (t : Task) (i : SemIndex) : Prop where
  live : k.core.live t
  kEsp : (k.core.task t).kEsp = .semWait i
  awake : t ∉ k.table.sleepers i
  owner : 0 ≤ (k.core.semaphores i).creatorPID

theorem Inv.signalled (inv : k.Inv) (owned : k.Owned) (settled : k.core.Settled e) (step : k.Step e k')
    (asleep : t ∈ k.table.sleepers i) (awake : t ∉ k'.table.sleepers i)
    (signal : ∃ semid, e = .syscall (.semSignal semid) ∧ k.core.hit semid = some i) : k'.Signalled t i := by
  obtain ⟨semid, rfl, hit⟩ := signal
  obtain ⟨live, _, kEsp⟩ := (inv.asleep_iff i t).mp asleep
  obtain ⟨live', kEsp'⟩ := inv.elsewhere settled.1 step live (inv.asleep_ne asleep)
  have table := step_table inv settled.1 step
  simp only [Core.TableStep, hit] at table
  have value : int32 ((k.core.semaphores i).value + 1) ≤ 0 := by
    by_contra positive
    have positive : ¬ int32 ((k.table.slot i).value + 1) ≤ 0 := positive
    rw [table] at awake
    simp only [Table.give, Table.set_sleepers, if_true, if_neg positive] at awake
    exact awake asleep
  have lasts := settled.2.1 i hit value
  have owner := owned i
  have slot : k'.core.semaphores i = k'.table.slot i := rfl
  refine ⟨live', kEsp'.trans kEsp, awake, ?_⟩
  rw [slot, table]
  simp only [Table.give, Table.set_slot, if_true, table_slot]
  omega

/-- The owner stays until the task goes on. -/
theorem Signalled.step (signalled : k.Signalled t i) (inv : k.Inv) (settled : k.core.Settled e) (step : k.Step e k')
    (waits : e = .resume → k.core.current ≠ t) : k'.Signalled t i := by
  obtain ⟨live, kEsp, awake, owner⟩ := signalled
  have other := step.elsewhere (by rw [kEsp]; simp) waits
  obtain ⟨live', kEsp'⟩ := inv.elsewhere settled.1 step live other
  refine ⟨live', kEsp'.trans kEsp, fun asleep => ?_, ?_⟩
  · rcases inv.slept_step settled.1 step asleep with before | mine
    · exact awake before
    · exact other mine
  · have pid := inv.pid_nonneg
    rcases inv.creator_step settled.1 step i with same | mine | ⟨rouses, some, _⟩
    · omega
    · omega
    · obtain ⟨u, sleeper⟩ := List.exists_mem_of_ne_nil _ some
      have asleep := settled.2.2 i rouses ⟨u, (inv.asleep_iff i u).mp sleeper⟩ t live kEsp
      exact absurd ((inv.asleep_iff i t).mpr asleep) awake

/-- A destroyer has woken the task and stands behind it, or the task has its turn. -/
structure Destroyed (k : Kernel) (t : Task) (i : SemIndex) : Prop where
  live : k.core.live t
  kEsp : (k.core.task t).kEsp = .semWait i
  marked : (k.core.semaphores i).creatorPID = -1
  turn : t = k.core.current ∨ ∃ front back d semid caller, k.queues .readyqueue = front ++ t :: back ∧ d ∈ back ∧
    (k.core.task d).kEsp = .semDestroy i semid caller

theorem Inv.destroyer (inv : k.Inv) {d : Task} (ready : d ∈ k.queues .readyqueue) {semid : Int} {caller : DestroyCaller}
    (kEsp : (k.core.task d).kEsp = .semDestroy i semid caller) : (k.core.semaphores i).creatorPID = -1 := by
  have fits := inv.good.saved d ((inv.placed.mem .readyqueue d).mp ready).1
  rw [kEsp] at fits
  exact fits.2.1

theorem Inv.destroyed (inv : k.Inv) (inv' : k'.Inv) (allowed : k.core.Allowed e) (step : k.Step e k')
    (asleep : t ∈ k.table.sleepers i) (awake : t ∉ k'.table.sleepers i) (destroys : k.core.Destroys i e) : k'.Destroyed t i := by
  obtain ⟨live, _, kEsp⟩ := (inv.asleep_iff i t).mp asleep
  obtain ⟨live', kEsp'⟩ := inv.elsewhere allowed step live (inv.asleep_ne asleep)
  cases inv.rounds step ⟨i, destroys⟩ with
  | ends given =>
    rw [given.sleepers] at awake
    exact absurd asleep awake
  | @sleeps M j semid caller u rest line given mine used first marked saves before behind =>
    have here : i = j := by
      by_contra other
      rw [marked] at awake
      simp only [Table.mark, Table.set_sleepers, if_neg other, given.sleepers] at awake
      exact awake asleep
    subst here
    have woken : u = t := by
      rw [marked] at awake
      simp only [Table.mark, Table.set_sleepers, if_true, first, List.tail_cons] at awake
      rw [← given.sleepers, first] at asleep
      exact ((List.mem_cons.mp asleep).resolve_right awake).symm
    subst woken
    have ready : k.core.current ∈ k'.queues .readyqueue := by rw [behind]; simp
    refine ⟨live', kEsp'.trans kEsp, inv'.destroyer ready saves, ?_⟩
    cases queue : k.queues .readyqueue with
    | nil =>
      rw [queue] at before
      exact .inl (List.cons.inj before).1
    | cons v others =>
      rw [queue] at before
      obtain ⟨_, rfl⟩ := List.cons.inj before
      exact .inr ⟨others, [k.core.current], k.core.current, semid, caller, by rw [behind]; simp, by simp, saves⟩

/-- The mark stays until the task goes on. -/
theorem Destroyed.step (destroyed : k.Destroyed t i) (inv : k.Inv) (inv' : k'.Inv) (allowed : k.core.Allowed e)
    (step : k.Step e k') (waits : e = .resume → k.core.current ≠ t) : k'.Destroyed t i := by
  obtain ⟨live, kEsp, _, turn⟩ := destroyed
  have other := step.elsewhere (by rw [kEsp]; simp) waits
  obtain ⟨live', kEsp'⟩ := inv.elsewhere allowed step live other
  obtain ⟨front, back, d, semid, caller, queue, mem, saved⟩ := turn.resolve_left other
  have ready : d ∈ k.queues .readyqueue := by rw [queue]; simp [mem]
  have waiting := (inv.placed.mem .readyqueue d).mp ready
  have waitingD : d ≠ k.core.current := inv.between.not_current waiting.2.2 nofun nofun
  obtain ⟨liveD, savedD⟩ := inv.elsewhere allowed step waiting.1 waitingD
  have marks := inv'.good.saved d liveD
  rw [savedD, saved] at marks
  refine ⟨live', kEsp'.trans kEsp, marks.2.1, ?_⟩
  cases front with
  | nil =>
    rcases inv.turn allowed step queue with ⟨added, line, _, _⟩ | ⟨_, _, current⟩
    · exact .inr ⟨[], back ++ added, d, semid, caller, by rw [line]; simp, by simp [mem], savedD.trans saved⟩
    · exact .inl current.symm
  | cons u front =>
    rw [List.cons_append] at queue
    rcases inv.turn allowed step queue with ⟨added, line, _, _⟩ | ⟨added, line, _⟩
    · exact .inr ⟨u :: front, back ++ added, d, semid, caller, by rw [line]; simp, by simp [mem], savedD.trans saved⟩
    · exact .inr ⟨front, back ++ added, d, semid, caller, by rw [line]; simp, by simp [mem], savedD.trans saved⟩

theorem resume_semWait (kEsp : k.core.ct.kEsp = .semWait i) (step : k.Step .resume k') :
    k'.core.ct.eax = some (k.core.semaphores i).creatorPID := by
  obtain ⟨_, done⟩ := step
  change k.resume = .ok k' at done
  unfold Kernel.resume at done
  rw [kEsp] at done
  cases done
  simp [Core.sysReturn, Core.ct]

end Kernel

theorem boot_owned (ram : Nat → Nat → UInt8) : (bootKernel ram).Owned := by
  have : ∀ i, -1 ≤ (booted.core.semaphores i).creatorPID := by decide +kernel
  exact this

/-- The call of `t` has not gone on yet. -/
def StillAsleep (t : Task) (s : State) (e : Event) : Prop :=
  s.core.Settled e ∧ (e = .resume → s.core.current ≠ t)

instance (t : Task) (s : State) (e : Event) : Decidable (StillAsleep t s e) := inferInstanceAs (Decidable (_ ∧ _))

/-- A `semWait` that has slept returns a value that is not negative behind a signal, and a
negative one behind the destruction of the semaphore. -/
theorem semWait_returns {events events' : List Event} {s s₁ s₂ s₃ : State} {e : Event} {i : SemIndex} {t : Task}
    (run : RunWhere (fun s e => s.core.Settled e) events s) (asleep : s.core.Asleep i t) (settled : s.core.Settled e)
    (step : Step s e s₁) (awake : ¬ s₁.core.Asleep i t)
    (waits : Transition.Path (Transition.Guarded (StillAsleep t) Step) s₁ events' s₂)
    (mine : s₂.core.current = t) (resumed : Step s₂ .resume s₃) :
    ∃ v, s₃.core.ct.eax = some v ∧
      ((∃ semid, e = .syscall (.semSignal semid) ∧ s.core.hit semid = some i) ∧ 0 ≤ v ∨ s.core.Destroys i e ∧ v < 0) := by
  obtain ⟨k, rep, inv, owned⟩ := run.invariant Core.Settled Kernel.Owned boot_owned (fun _ _ _ _ settled => settled.1)
    (fun _ _ _ inv _ owned settled step => owned.step inv settled.1 step)
  rw [rep.core] at asleep settled
  obtain ⟨k₁, step₁, rep₁, inv₁⟩ := rep.advance inv settled.1 step
  rw [rep₁.core] at awake
  have member := (inv.asleep_iff i t).mpr asleep
  have outside : t ∉ k₁.table.sleepers i := fun mem => awake ((inv₁.asleep_iff i t).mp mem)
  rw [rep.core]
  have last (k₂ : Kernel) (rep₂ : Refines s₂ k₂) (inv₂ : k₂.Inv) (kEsp : (k₂.core.task t).kEsp = .semWait i) :
      s₃.core.ct.eax = some (k₂.core.semaphores i).creatorPID := by
    rw [rep₂.core] at mine
    have allowed : k₂.core.Allowed .resume := trivial
    obtain ⟨k₃, step₃, rep₃, _⟩ := rep₂.advance inv₂ allowed resumed
    rw [rep₃.core]
    exact Kernel.resume_semWait (by rw [Core.ct, mine]; exact kEsp) step₃
  rcases (inv.woken settled.1 step₁ member outside).2.2 with signal | destroys
  · obtain ⟨k₂, rep₂, inv₂, signalled⟩ := waits.invariant (fun s => ∃ m, Refines s m ∧ m.Inv ∧ m.Signalled t i)
      (by
        rintro s e s' ⟨m, rep, inv, signalled⟩ ⟨⟨settled, elsewhere⟩, step⟩
        rw [rep.core] at settled elsewhere
        obtain ⟨m', step', rep', inv'⟩ := rep.advance inv settled.1 step
        exact ⟨m', rep', inv', signalled.step inv settled step' elsewhere⟩)
      ⟨k₁, rep₁, inv₁, inv.signalled owned settled step₁ member outside signal⟩
    exact ⟨_, last k₂ rep₂ inv₂ signalled.kEsp, .inl ⟨signal, signalled.owner⟩⟩
  · obtain ⟨k₂, rep₂, inv₂, destroyed⟩ := waits.invariant (fun s => ∃ m, Refines s m ∧ m.Inv ∧ m.Destroyed t i)
      (by
        rintro s e s' ⟨m, rep, inv, destroyed⟩ ⟨⟨settled, elsewhere⟩, step⟩
        rw [rep.core] at settled elsewhere
        obtain ⟨m', step', rep', inv'⟩ := rep.advance inv settled.1 step
        exact ⟨m', rep', inv', destroyed.step inv inv' settled.1 step' elsewhere⟩)
      ⟨k₁, rep₁, inv₁, inv.destroyed inv₁ settled.1 step₁ member outside destroys⟩
    exact ⟨_, last k₂ rep₂ inv₂ destroyed.kEsp, .inr ⟨destroys, by rw [destroyed.marked]; decide⟩⟩

/-- Two tasks sleep in a semaphore of `task1`, and a third one runs. -/
def twoAsleep : List Event :=
  .syscall (.semCreate 0) :: List.replicate 3 (.syscall .fork) ++ List.replicate 10 .clock ++
    List.replicate 2 (.syscall (.semWait 100000))

/-- The third task signals, and the first sleeper goes on when `task1` has used up its time. -/
theorem semWait_returns_signalled : ∃ s s₁ s₂ s₃, RunWhere (fun s e => s.core.Settled e) twoAsleep s ∧ s.core.Asleep 0 2 ∧
    Step s (.syscall (.semSignal 100000)) s₁ ∧ ¬ s₁.core.Asleep 0 2 ∧ s₂.core.current = 2 ∧ Step s₂ .resume s₃ ∧
    ∃ v, s₃.core.ct.eax = some v ∧ 0 ≤ v := by
  obtain ⟨s, run, checked⟩ := executeBoot_run (fun s e => s.core.Settled e) twoAsleep
    (fun s => (s.core.Asleep 0 2 ∧ s.core.Settled (.syscall (.semSignal 100000)) ∧
      s.core.Enabled (.syscall (.semSignal 100000))) ∧
      (s.step (.syscall (.semSignal 100000))).toOption.any fun s₁ => ¬ s₁.core.Asleep 0 2 ∧
        (execute (fun s e => StillAsleep 2 s e) (List.replicate 10 .clock) s₁).any fun s₂ =>
          (s₂.core.current = 2 ∧ s₂.core.Enabled .resume) ∧ (s₂.step .resume).toOption.any fun s₃ => s₃.core.current = 2)
    (by decide +kernel)
  simp only [decide_eq_true_eq] at run checked
  obtain ⟨⟨asleep, settled, enabled⟩, rest⟩ := checked
  obtain ⟨s₁, signalled, rest⟩ := Step.of_any enabled rest
  rw [decide_eq_true_eq] at rest
  obtain ⟨awake, rest⟩ := rest
  obtain ⟨s₂, path, rest⟩ := (Option.any_eq_true _ _).mp rest
  rw [decide_eq_true_eq] at rest
  have path := execute_path _ _ s₁ s₂ path
  simp only [decide_eq_true_eq] at path
  obtain ⟨⟨current, enabled₂⟩, rest⟩ := rest
  obtain ⟨s₃, resumed, _⟩ := Step.of_any enabled₂ rest
  obtain ⟨v, value, ⟨_, nonneg⟩ | ⟨destroys, _⟩⟩ := semWait_returns run asleep settled signalled awake path current resumed
  · exact ⟨s, s₁, s₂, s₃, run, asleep, signalled, awake, current, resumed, v, value, nonneg⟩
  · exact destroys.elim

/-- The third task signals, and `task1` destroys the semaphore before the first sleeper goes
on: that one finds the mark that is meant for the second sleeper. -/
theorem semWait_returns_marked : ∃ s s₁ s₂ s₃, Run twoAsleep s ∧ s.core.Asleep 0 2 ∧ s.core.hit 100000 = some 0 ∧
    Step s (.syscall (.semSignal 100000)) s₁ ∧ ¬ s₁.core.Asleep 0 2 ∧ Step s₁ (.syscall (.semDestroy 100000)) s₂ ∧
    s₂.core.current = 2 ∧ Step s₂ .resume s₃ ∧ s₃.core.ct.eax = some (-1) := by
  obtain ⟨s, run, checked⟩ := executeBoot_run (fun _ _ => true) twoAsleep
    (fun s => (s.core.Asleep 0 2 ∧ s.core.hit 100000 = some 0 ∧ s.core.Enabled (.syscall (.semSignal 100000))) ∧
      (s.step (.syscall (.semSignal 100000))).toOption.any fun s₁ =>
        (¬ s₁.core.Asleep 0 2 ∧ s₁.core.Enabled (.syscall (.semDestroy 100000))) ∧
        (s₁.step (.syscall (.semDestroy 100000))).toOption.any fun s₂ => (s₂.core.current = 2 ∧ s₂.core.Enabled .resume) ∧
          (s₂.step .resume).toOption.any fun s₃ => s₃.core.ct.eax = some (-1)) (by decide +kernel)
  simp only [decide_eq_true_eq] at checked
  obtain ⟨⟨asleep, hit, enabled⟩, rest⟩ := checked
  obtain ⟨s₁, signalled, rest⟩ := Step.of_any enabled rest
  simp only [decide_eq_true_eq] at rest
  obtain ⟨⟨awake, enabled₁⟩, rest⟩ := rest
  obtain ⟨s₂, destroyed, rest⟩ := Step.of_any enabled₁ rest
  simp only [decide_eq_true_eq] at rest
  obtain ⟨⟨current, enabled₂⟩, rest⟩ := rest
  obtain ⟨s₃, resumed, value⟩ := Step.of_any enabled₂ rest
  exact ⟨s, s₁, s₂, s₃, run.run, asleep, hit, signalled, awake, destroyed, current, resumed, by simpa using value⟩

end Zeos
