import Zeos.Acts
import Zeos.Scheduling

/-! The tree of tasks: whose child a task is, and in whose list it is linked. The task
that boot makes has no father. -/
namespace Zeos
open Circular Placement Outcome

/-- The two cores have the same tasks with the same fathers. -/
structure Core.SameKin (c c' : Core) : Prop where
  live : c'.live = c.live
  pidGlobal : c'.pidGlobal = c.pidGlobal
  pid : ∀ t, (c'.task t).pid = (c.task t).pid
  pare : ∀ t, (c'.task t).pare = (c.task t).pare
  quantum : ∀ t, (c'.task t).quantum = (c.task t).quantum

namespace Core.SameKin

variable {c c' c'' : Core}

theorem refl (c : Core) : c.SameKin c := ⟨rfl, rfl, fun _ => rfl, fun _ => rfl, fun _ => rfl⟩

theorem trans (first : c.SameKin c') (second : c'.SameKin c'') : c.SameKin c'' where
  live := second.live.trans first.live
  pidGlobal := second.pidGlobal.trans first.pidGlobal
  pid t := (second.pid t).trans (first.pid t)
  pare t := (second.pare t).trans (first.pare t)
  quantum t := (second.quantum t).trans (first.quantum t)

theorem setTask (c : Core) (t : Task) (f : TaskStruct → TaskStruct)
    (keeps : ∀ ts, (f ts).pid = ts.pid ∧ (f ts).pare = ts.pare ∧ (f ts).quantum = ts.quantum) : c.SameKin (c.setTask t f) := by
  refine ⟨rfl, rfl, fun u => ?_, fun u => ?_, fun u => ?_⟩ <;> rw [setTask_task] <;> split <;> simp_all

end Core.SameKin

namespace Kernel

variable {c : Core} {e : Event} {k k' : Kernel}

theorem kin_setTask {t : Task} (f : TaskStruct → TaskStruct)
    (keeps : ∀ ts, (f ts).pid = ts.pid ∧ (f ts).pare = ts.pare ∧ (f ts).quantum = ts.quantum) :
    k.core.SameKin (k.setTask t f).core := .setTask k.core t f keeps

theorem kin_yield (k : Kernel) : k.core.SameKin k.yield.core := by
  refine ⟨by simp, ?_, fun t => by simp [yield_task], fun t => by simp [yield_task], fun t => by simp [yield_task]⟩
  exact (frame_yield k).pidGlobal

theorem kin_dispatch (k : Kernel) : k.core.SameKin k.dispatch.core := by
  obtain ⟨cr3, tickCounter, core⟩ := dispatch_core k
  rw [core]
  refine (kin_yield k).trans (Core.SameKin.trans ?_ (.setTask _ k.next _ fun _ => ⟨rfl, rfl, rfl⟩))
  exact ⟨rfl, rfl, fun _ => rfl, fun _ => rfl, fun _ => rfl⟩

theorem kin_keyboardRoutine (k : Kernel) (readInp : UInt8) : k.core.SameKin (k.keyboardRoutine readInp).core := by
  unfold keyboardRoutine
  split
  · exact .refl _
  dsimp only
  rename_i charPrint _
  have pressed : k.core.SameKin { k.core with kbBuffer := k.core.kbBuffer.press charPrint } :=
    ⟨rfl, rfl, fun _ => rfl, fun _ => rfl, fun _ => rfl⟩
  split
  · exact pressed
  · obtain ⟨live, pidGlobal, pid, pare, quantum⟩ := pressed.trans (kin_yield (k.setCore _))
    exact ⟨live, pidGlobal, pid, pare, quantum⟩

/-- Tasks come with a birth and go with an exit, and the tree changes with them only. -/
theorem Act.kin (act : Act c e k k') : k.core.SameKin k'.core ∨ (∃ fill, k.Born fill k') ∨
    (∃ fill, k.Unborn fill k') ∨ k.Left k' := by
  cases act with
  | aside aside =>
    exact .inl ⟨aside.live, aside.pidGlobal, fun t => by rw [aside.task], fun t => by rw [aside.task],
      fun t => by rw [aside.task]⟩
  | ret v => exact .inl (kin_setTask _ fun _ => ⟨rfl, rfl, rfl⟩)
  | save kont plain why => exact .inl (kin_setTask _ fun _ => ⟨rfl, rfl, rfl⟩)
  | wake live asleep why => rw [wake_core]; exact .inl (.setTask _ _ _ (by simp))
  | park kont call waits why => rw [park_core]; exact .inl (.setTask _ _ _ (by simp))
  | dispatch sound alive unserved => exact .inl (kin_dispatch k)
  | key readInp inv user why => exact .inl (kin_keyboardRoutine k readInp)
  | tick zeosTick why => exact .inl ⟨rfl, rfl, fun _ => rfl, fun _ => rfl, fun _ => rfl⟩
  | enter b maxchars call why size => rw [move_core]; exact .inl (.setTask _ _ _ (by simp))
  | serve b maxchars why reading enough done =>
    rename_i core
    have same : k.core.SameTasks core := readChars_sameTasks (congrArg memory done)
    rw [start_core]
    refine .inl (Core.SameKin.trans ?_ (.setTask _ _ _ (by simp)))
    exact ⟨same.live, same.pidGlobal, fun t => by simp [same.task], fun t => by simp [same.task],
      fun t => by simp [same.task]⟩
  | spend why pending => exact .inl (kin_setTask _ fun _ => ⟨rfl, rfl, rfl⟩)
  | grant live awake why => exact .inl (kin_setTask _ fun _ => ⟨rfl, rfl, rfl⟩)
  | free dead => rw [enqueue_core]; exact .inl (kin_setTask _ fun _ => ⟨rfl, rfl, rfl⟩)
  | born born => exact .inr (.inl ⟨_, born⟩)
  | unborn unborn => exact .inr (.inr (.inl ⟨_, unborn⟩))
  | left left => exact .inr (.inr (.inr left))

/-- A task that does not run does not leave. -/
theorem Act.stays {t : Task} (act : Act c e k k') (live : k.core.live t) (other : t ≠ k.core.current) : k'.core.live t := by
  rcases act.kin with kin | ⟨fill, born⟩ | ⟨fill, unborn⟩ | left
  · rwa [kin.live]
  · rwa [(born.elder (born.ne live)).1]
  · rwa [unborn.live]
  · rwa [left.live, Function.update_of_ne other]

end Kernel

/-- Only the idle task and the task of boot, PID 1, have no father. -/
structure Core.Rooted (c : Core) : Prop where
  idle : c.live idleTask ∧ (c.task idleTask).pid = 0
  first : ∀ t, c.live t → (c.task t).pid = 1 → (c.task t).pare = none
  root : ∀ t, c.live t → (c.task t).pare = none → t = idleTask ∨ (c.task t).pid = 1
  fresh : (c.pidGlobal ≤ 0 ∨ 1 < c.pidGlobal) ∧ c.pidGlobal < 2147483648

theorem Core.Rooted.act {c : Core} {e : Event} {k k' : Kernel} (rooted : k.core.Rooted) (act : Kernel.Act c e k k') :
    k'.core.Rooted := by
  obtain ⟨idle, first, root, fresh⟩ := rooted
  rcases act.kin with ⟨live, pidGlobal, pid, pare, _⟩ | ⟨fill, born⟩ | ⟨fill, unborn⟩ | left
  · constructor <;> simp only [live, pidGlobal, pid, pare]
    · exact idle
    · exact first
    · exact root
    · exact fresh
  · have positive := born.positive
    have idles := born.elder (born.ne idle.1)
    refine ⟨?_, fun t live one => ?_, fun t live none => ?_, ?_⟩
    · rw [idles.1, idles.2.1]
      exact idle
    · by_cases same : t = fill
      · rw [same, born.child.1] at one
        omega
      · obtain ⟨lives, pid, pare, _⟩ := born.elder same
        rw [pare]
        exact first t (lives ▸ live) (pid ▸ one)
    · by_cases same : t = fill
      · rw [same, born.child.2.1] at none
        contradiction
      · obtain ⟨lives, pid, pare, _⟩ := born.elder same
        rw [pid]
        exact root t (lives ▸ live) (pare ▸ none)
    · rw [born.pidGlobal]
      refine ⟨?_, (int32_isInt _).2⟩
      by_cases room : k.core.pidGlobal < 2147483647
      · rw [int32_of_range (by omega) (by omega)]
        omega
      · have last : k.core.pidGlobal = 2147483647 := by omega
        rw [last]
        exact .inl (by decide)
  · constructor <;> simp only [unborn.live, unborn.pidGlobal]
    · rw [unborn.elder idle.1]
      exact idle
    · intro t live
      rw [unborn.elder live]
      exact first t live
    · intro t live
      rw [unborn.elder live]
      exact root t live
    · exact fresh
  · have idles := Ne.symm left.task
    refine ⟨?_, fun t live one => ?_, fun t live none => ?_, ?_⟩
    · rw [left.others _ idles, left.live, Function.update_of_ne idles]
      exact idle
    · obtain ⟨other, lives⟩ := left.stays live
      rw [left.others t other] at one ⊢
      have none := first t lives one
      simp [none]
    · obtain ⟨other, lives⟩ := left.stays live
      rw [left.others t other] at none ⊢
      dsimp only at none
      split at none
      · contradiction
      · exact root t lives none
    · rw [left.pidGlobal]
      exact fresh

/-- The lists of children of the live tasks. -/
def State.Fills (s : State) (lists : Task → List Task) : Prop :=
  ∀ u, s.core.live u → Ring s.links (.head (.fills u)) ((lists u).map .parentAnchor)

/-- The task is linked once, in the list of the live task that is its father. -/
def Core.Fathered (c : Core) (lists : Task → List Task) (t : Task) : Prop :=
  ∃ u, (c.task t).pare = some u ∧ c.live u ∧ (lists u).count t = 1 ∧ ∀ v, c.live v → t ∈ lists v → v = u

/-- The running task goes on in `sys_exit`. -/
def Core.Exiting (c : Core) : Event → Prop
  | .syscall call => call = .exit
  | .resume => ∃ i semid j, c.ct.kEsp = .semDestroy i semid (.exit j)
  | _ => False

/-- The task of boot is linked nowhere. -/
theorem unfathered_boot : ∃ s, Run [] s ∧ s.core.live task1 ∧
    ¬ ∃ lists, s.Fills lists ∧ ∀ t, s.core.live t → t ≠ idleTask → s.core.Fathered lists t := by
  obtain ⟨s, run, checked⟩ := executeBoot_run (fun _ _ => true) []
    (fun s => s.core.live task1 ∧ (s.core.task task1).pare = none) (by decide +kernel)
  simp only [decide_eq_true_eq] at checked
  obtain ⟨live, root⟩ := checked
  refine ⟨s, run.run, live, ?_⟩
  rintro ⟨lists, _, all⟩
  obtain ⟨u, pare, _⟩ := all task1 live (by decide)
  rw [root] at pare
  contradiction

namespace Kernel

variable {k : Kernel}

theorem Inv.fathered (inv : k.Inv) (rooted : k.core.Rooted) {t : Task} (live : k.core.live t) (task : t ≠ idleTask) :
    k.core.Fathered (fun u => k.queues (.fills u)) t ↔ (k.core.task t).pid ≠ 1 := by
  constructor
  · rintro ⟨u, pare, _⟩ one
    rw [rooted.first t live one] at pare
    contradiction
  · intro other
    obtain ⟨u, pare⟩ := Option.ne_none_iff_exists'.mp fun none => (rooted.root t live none).elim task other
    have home : k.core.Home none (.fills u) t := ⟨live, pare⟩
    have mem := (inv.placed.mem (.fills u) t).mpr home
    refine ⟨u, pare, ?_, List.count_eq_one_of_mem (inv.placed.nodup _) mem, fun v _ there => ?_⟩
    · rcases inv.good.valid (.fills u) t home with live | running
      · exact live
      · rw [running]
        exact inv.between.live
    · have := ((inv.placed.mem (.fills v) t).mp there).2
      rw [pare] at this
      exact (Option.some.inj this).symm

/-- The failures of `sys_exit` in memory. -/
abbrev Linked {α : Type} (x : Except Fault α) : Prop := Fails (· = .memory .outside) x

theorem exitMemory_linked (c : Core) : Linked (memory c.exitMemory) := by
  have page (p : Int) : Fails (· = MemFault.outside) (Mm.pageIndex p) := by
    unfold Mm.pageIndex
    split
    · exact .ok _
    · exact .error rfl
  have followed (p : Option Dir) : Fails (· = MemFault.outside) (pointer p) := by
    cases p
    · exact .error rfl
    · exact .ok _
  have release (d : Dir) (pages : List Int) (mm : Mm) : Fails (· = MemFault.outside) (mm.releasePages d pages) := by
    refine .foldlM (fun p _ mm => .bind (.bind (page p) fun _ _ => .ok _) fun _ _ => .bind (page p) fun _ _ => .ok _) mm
  have exits : Fails (· = MemFault.outside) c.exitMemory := by
    refine .bind (followed _) fun d _ => ?_
    dsimp only
    split
    · exact .bind (release _ _ _) fun _ _ => .bind (followed _) fun _ _ => .bind (release _ _ _) fun _ _ => .ok _
    · exact .ok _
  intro f failed
  cases result : c.exitMemory with
  | ok core => rw [result] at failed; contradiction
  | error m =>
    rw [result] at failed
    cases failed
    exact congrArg Fault.memory (exits m result)

theorem exitTail_linked (father : k.core.ct.pare ≠ none) : Linked k.exitTail := by
  refine .bind (exitMemory_linked _) fun core _ => .bind ?_ fun _ _ => .ok _
  obtain ⟨u, pare⟩ := Option.ne_none_iff_exists'.mp father
  rw [pare]
  exact .ok _

theorem exitSlots_linked (slots : List SemIndex) {k : Kernel} (father : k.core.ct.pare ≠ none) :
    Linked (k.exitSlots slots) := by
  induction slots generalizing k with
  | nil => exact exitTail_linked father
  | cons j slots ih =>
    unfold exitSlots
    split
    · have changed := destroySlots_core (k.core.semaphores j).id (.exit j) (List.finRange numSems) (k := k)
      split <;> rename_i result <;> rw [result] at changed
      · obtain ⟨semaphores, core⟩ := changed rfl
        exact ih (by rw [core]; exact father)
      · exact .ok _
    · exact ih father

/-- A task with a father meets no unlinked node in `sys_exit`. -/
theorem exit_linked {e : Event} (father : k.core.ct.pare ≠ none) (exiting : k.core.Exiting e) : Linked (k.step e) := by
  cases e with
  | syscall call =>
    cases exiting
    exact exitSlots_linked _ father
  | resume =>
    obtain ⟨i, semid, j, kEsp⟩ := exiting
    let entered := k.setTask k.core.current fun ts => { ts with kEsp := .user }
    have father' : entered.core.ct.pare ≠ none := by simpa [entered, Core.ct] using father
    have changed (ends : (entered.destroyFrom i semid (.exit j)).1.isSome) := destroyFrom_core ends
    show Linked k.resume
    unfold Kernel.resume
    rw [kEsp]
    show Linked (entered.goOn (.semDestroy i semid (.exit j)))
    unfold goOn
    dsimp only
    split <;> rename_i result <;> rw [result] at changed
    · exact .ok _
    · obtain ⟨semaphores, core⟩ := changed rfl
      exact exitSlots_linked _ (by rw [core]; exact father')
  | _ => exact exiting.elim

end Kernel

theorem boot_rooted (ram : Nat → Nat → UInt8) : (bootCore ram).Rooted := by
  have idle := boot_idle ram
  have one := boot_task1 ram
  refine ⟨by simp [idle, boot_live], fun t live _ => ?_, fun t live _ => ?_, by rw [boot_pidGlobal]; decide⟩
  · rcases live_boot ram live with rfl | rfl
    · rw [idle]
    · rw [one]
  · rcases live_boot ram live with rfl | rfl
    · exact .inl rfl
    · rw [one]
      exact .inr rfl

/-- The tree of tasks in every run whose steps are allowed: the lists hold live tasks only,
exactly the task of boot is not linked once in its father's list, and the exit of any other
task meets no unlinked node. -/
theorem fathered_iff {events : List Event} {s : State} (run : RunWhere (fun s e => s.core.Allowed e) events s) :
    ∃ lists, s.Fills lists ∧ (∀ u, s.core.live u → ∀ t ∈ lists u, s.core.live t) ∧
      (∀ t, s.core.live t → t ≠ idleTask → (s.core.Fathered lists t ↔ (s.core.task t).pid ≠ 1)) ∧
      ∀ e, s.core.Exiting e → s.core.Enabled e → s.core.ct.pid ≠ 1 →
        s.step e ≠ .error (.memory .pageFault) ∧ s.step e ≠ .error .wild ∧ s.step e ≠ .error .endless := by
  obtain ⟨k, rep, inv, rooted⟩ := run.invariant Core.Allowed (fun k => k.core.Rooted) boot_rooted
    (fun _ _ _ _ allowed => allowed)
    (fun k e k' inv _ rooted allowed step =>
      inv.keeps (fun k => k.core.Rooted) allowed step (fun _ _ _ act rooted => rooted.act act) rooted)
  rw [rep.core]
  refine ⟨fun u => k.queues (.fills u), fun u live => ?_, fun u _ t mem => ?_, fun t live task => ?_,
    fun e exiting enabled other => ?_⟩
  · rw [rep.core] at live
    exact rep.rings.ring (.fills u) (.inl live)
  · exact ((inv.placed.mem (.fills u) t).mp mem).1
  · exact inv.fathered rooted live task
  · have allowed : k.core.Allowed e := by
      cases e with
      | syscall call => cases exiting; trivial
      | resume => trivial
      | _ => exact exiting.elim
    have task : k.core.current ≠ idleTask := by
      cases e with
      | syscall call => exact enabled.2.1
      | resume => exact inv.not_idle enabled
      | _ => exact exiting.elim
    have father : k.core.ct.pare ≠ none := fun none => (rooted.root _ inv.between.live none).elim task other
    have agree := rep.step inv allowed enabled
    have linked := Kernel.exit_linked father exiting
    refine ⟨fun failed => ?_, fun failed => ?_, fun failed => ?_⟩ <;>
      · have := linked _ (agree.of_error failed)
        contradiction

def forkedTwice : List Event :=
  [.syscall .fork, .syscall .fork] ++ List.replicate 10 .clock ++ [.syscall .exit]

/-- The first of two children exits. -/
theorem fathered_of_forked : ∃ s, RunWhere (fun s e => s.core.Allowed e) forkedTwice s ∧
    ∃ lists, s.Fills lists ∧ ∀ t, s.core.live t → t ≠ idleTask → (s.core.Fathered lists t ↔ (s.core.task t).pid ≠ 1) := by
  obtain ⟨s, run, _⟩ := executeBoot_run (fun s e => s.core.Allowed e) forkedTwice (fun _ => true)
    (by decide +kernel)
  simp only [decide_eq_true_eq] at run
  obtain ⟨lists, fills, _, once, _⟩ := fathered_iff run
  exact ⟨s, run, lists, fills, once⟩

end Zeos
