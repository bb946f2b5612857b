import Zeos.Semaphores

/-! The counter of a semaphore and the number of tasks that sleep in it. -/
namespace Zeos
open Circular Outcome

/-- The task sleeps in a `semWait` on the slot. -/
def Core.Asleep (c : Core) (i : SemIndex) (t : Task) : Prop :=
  c.live t ∧ (c.task t).currentState = .stBlocked ∧ (c.task t).kEsp = .semWait i

instance (c : Core) (i : SemIndex) (t : Task) : Decidable (c.Asleep i t) := inferInstanceAs (Decidable (_ ∧ _))

/-- In every used slot that started from a counter that is not negative, as many tasks
are linked as the counter is below zero. -/
def State.Counted (s : State) : Prop :=
  ∀ i, (s.core.semaphores i).free = false → 0 ≤ (s.core.semaphores i).created →
    ∃ ts : List Task, Ring s.links (.head (.blockedThreads i)) (ts.map .semList) ∧
      (ts.length : Int) = max 0 (-(s.core.semaphores i).value)

/-- The child sleeps in a semaphore that its father destroys. -/
def destroyedBusy : List Event :=
  [.syscall (.semCreate 0), .syscall .fork] ++ List.replicate 10 .clock ++
    [.syscall (.semWait 100000), .syscall (.semDestroy 100000)]

/-- The destroyer is suspended behind its first round. -/
theorem counted_destroyedBusy : ∃ s, Run destroyedBusy s ∧ ¬ s.Counted := by
  obtain ⟨s, run, checked⟩ := executeBoot_run (fun _ _ => true) destroyedBusy
    (fun s => (s.core.semaphores 0).free = false ∧ (s.core.semaphores 0).created = 0 ∧
      (s.core.semaphores 0).value = -1 ∧
      s.links.next (.head (.blockedThreads 0)) = .head (.blockedThreads 0)) (by decide +kernel)
  simp only [decide_eq_true_eq] at checked
  obtain ⟨used, created, value, next⟩ := checked
  refine ⟨s, run.run, fun counted => ?_⟩
  obtain ⟨ts, ring, length⟩ := counted 0 used (by rw [created])
  have empty := ring.next_eq_head.mp next
  simp only [List.map_eq_nil_iff] at empty
  simp [empty, value] at length

namespace Table

variable {T T' : Table} {own : SemIndex → Prop} {i : SemIndex} {t : Task}

def Counted (T : Table) : Prop :=
  ∀ i, (T.slot i).free = false → 0 ≤ (T.slot i).created →
    IsInt (T.slot i).value ∧ ((T.sleepers i).length : Int) = max 0 (-(T.slot i).value)

theorem Counted.set (counted : T.Counted) (i : SemIndex) (m : Semaphore) (ts : List Task)
    (here : m.free = false → 0 ≤ m.created → IsInt m.value ∧ (ts.length : Int) = max 0 (-m.value)) :
    (T.set i m ts).Counted := by
  intro j used created
  by_cases same : j = i
  · subst same
    simp only [set_slot, set_sleepers, if_true] at used created ⊢
    exact here used created
  · simp only [set_slot, set_sleepers, same, if_false] at used created ⊢
    exact counted j used created

/-- A wait: one more sleeper when the counter passes below zero. -/
theorem Counted.take (counted : T.Counted) (few : (T.sleepers i).length ≤ nrTasks) : (T.take i t).Counted := by
  refine counted.set i _ _ fun used created => ?_
  obtain ⟨⟨low, high⟩, length⟩ := counted i used created
  have exactly : int32 ((T.slot i).value - 1) = (T.slot i).value - 1 :=
    int32_of_range (by simp only [nrTasks] at few; omega) (by omega)
  refine ⟨int32_isInt _, ?_⟩
  simp only [exactly]
  split
  · simp only [List.length_append, List.length_singleton]; omega
  · omega

/-- A signal: one sleeper less while there is one. -/
theorem Counted.give (counted : T.Counted) (room : 0 ≤ (T.slot i).created → (T.slot i).value < 2147483647) :
    (T.give i).Counted := by
  refine counted.set i _ _ fun used created => ?_
  obtain ⟨⟨low, high⟩, length⟩ := counted i used created
  have exactly : int32 ((T.slot i).value + 1) = (T.slot i).value + 1 :=
    int32_of_range (by omega) (by have := room created; omega)
  refine ⟨int32_isInt _, ?_⟩
  simp only [exactly]
  split
  · simp only [List.length_tail]; omega
  · omega

theorem Counted.released (counted : T.Counted) (released : Released own T T') : T'.Counted := by
  induction released with
  | refl T => exact counted
  | release i _ _ _ _ ih => exact ih (counted.set i _ _ (by simp))

/-- A destroyer that meets no sleeper only gives slots back. -/
theorem Destroyed.released (destroyed : Destroyed own T T')
    (empty : ∀ i, own i → (T.slot i).free = false → T.sleepers i = []) : Released own T T' := by
  obtain ⟨M, released, same | ⟨i, mine, used, waiting, _⟩⟩ := destroyed
  · rwa [same]
  · rw [released.sleepers] at waiting
    refine absurd (empty i mine ?_) waiting
    rcases released.slot i with same | ⟨_, freed⟩
    · rwa [← same]
    · rw [freed] at used
      contradiction

end Table

/-- No destroyer meets a sleeper, and no signal meets the greatest value; a semaphore that
started below zero is signalled as its counter promises. -/
def Core.Balanced (c : Core) (e : Event) : Prop :=
  (∀ i t, c.Destroys i e → (c.semaphores i).free = false → ¬ c.Asleep i t) ∧
    match e with
    | .syscall (.semSignal semid) => ∀ i, c.hit semid = some i →
        (0 ≤ (c.semaphores i).created → (c.semaphores i).value < 2147483647) ∧
        ((c.semaphores i).created < 0 → int32 ((c.semaphores i).value + 1) ≤ 0 → ∃ t, c.Asleep i t)
    | e => c.Allowed e

instance (c : Core) (i : SemIndex) (e : Event) : Decidable (c.Destroys i e) := by
  have resume : Decidable (c.Destroys i .resume) := match kEsp : c.ct.kEsp with
    | .semDestroy j semid caller =>
      decidable_of_iff (i = j ∨ (c.semaphores i).creatorPID = c.ct.pid)
        ⟨fun mine => ⟨j, semid, caller, kEsp, mine⟩, fun ⟨_, _, _, same, mine⟩ => by cases kEsp.symm.trans same; exact mine⟩
    | .user | .block | .unblock _ | .waitThread _ | .read _ _ | .semWait _ | .semSignal _ | .exited =>
      .isFalse fun ⟨_, _, _, same, _⟩ => by cases kEsp.symm.trans same
  unfold Core.Destroys at resume ⊢
  apply e.decidable

instance (c : Core) (e : Event) : Decidable (c.Balanced e) := by
  unfold Core.Balanced
  refine @instDecidableAnd _ _ inferInstance ?_
  apply e.decidable

namespace Kernel

variable {k k' : Kernel}

theorem Inv.asleep_iff (inv : k.Inv) (i : SemIndex) (t : Task) :
    t ∈ k.table.sleepers i ↔ k.core.Asleep i t := inv.placed.mem (.blockedThreads i) t

theorem Inv.few (inv : k.Inv) (i : SemIndex) : (k.table.sleepers i).length ≤ nrTasks := by
  have := (inv.placed.nodup (.blockedThreads i)).length_le_card
  simpa using this

/-- The counter tells a signal whether a task waits. -/
theorem Inv.allowed_of_balanced {e : Event} (inv : k.Inv) (counted : k.table.Counted)
    (balanced : k.core.Balanced e) : k.core.Allowed e := by
  obtain ⟨_, balanced⟩ := balanced
  unfold Core.Allowed
  split at balanced
  · rename_i semid
    intro i hit waiting
    obtain ⟨_, _, used⟩ := Core.hit_eq_some.mp hit
    obtain ⟨room, below⟩ := balanced i hit
    by_cases created : (k.core.semaphores i).created < 0
    · exact below created waiting
    · have created : 0 ≤ (k.core.semaphores i).created := by omega
      obtain ⟨⟨low, high⟩, length⟩ := counted i used created
      simp only [table_slot] at low high length
      have room := room created
      rw [int32_of_range (by omega) (by omega)] at waiting
      have waits : k.table.sleepers i ≠ [] := by
        intro none
        rw [none] at length
        simp only [List.length_nil] at length
        omega
      obtain ⟨t, rest, first⟩ := List.exists_cons_of_ne_nil waits
      exact ⟨t, (inv.asleep_iff i t).mp (by rw [first]; simp)⟩
  · exact balanced

theorem Counted.step {e : Event} (inv : k.Inv) (counted : k.table.Counted) (balanced : k.core.Balanced e)
    (step : k.Step e k') : k'.table.Counted := by
  have table := step_table inv (inv.allowed_of_balanced counted balanced) step
  have alone (i : SemIndex) (mine : k.core.Destroys i e) (used : (k.table.slot i).free = false) :
      k.table.sleepers i = [] :=
    List.eq_nil_iff_forall_not_mem.mpr fun t mem =>
      balanced.1 i t mine used ((inv.asleep_iff i t).mp mem)
  obtain ⟨enabled, _⟩ := step
  unfold Core.TableStep at table
  split at table
  · rename_i initialValue
    rw [table]
    split
    · exact counted
    · exact counted.set _ _ _ fun _ created => ⟨enabled.2.2, by simp at created ⊢; omega⟩
  · rename_i semid
    rw [table]
    split
    · exact counted
    · exact counted.take (inv.few _)
  · rename_i semid
    rw [table]
    split
    · exact counted
    · rename_i i hit
      exact counted.give (balanced.2 i hit).1
  · exact counted.released (table.released alone)
  · exact counted.released (table.released alone)
  · exact counted.released (table.released alone)
  · rw [table]
    exact counted

end Kernel

/-- The sleepers of a used slot are linked. -/
theorem Refines.sleepers {s : State} {k : Kernel} {i : SemIndex} (rep : Refines s k)
    (used : (k.core.semaphores i).free = false) :
    Ring s.links (.head (.blockedThreads i)) ((k.table.sleepers i).map .semList) :=
  rep.rings.ring (.blockedThreads i) used

/-- A used slot in a run whose steps are balanced: its counter counts its sleepers, and a
signal takes the first of them off. -/
theorem counted_of_balanced {events : List Event} {s : State}
    (run : RunWhere (fun s e => s.core.Balanced e) events s) (i : SemIndex)
    (used : (s.core.semaphores i).free = false) (created : 0 ≤ (s.core.semaphores i).created) :
    ∃ ts : List Task, Ring s.links (.head (.blockedThreads i)) (ts.map .semList) ∧
      (ts.length : Int) = max 0 (-(s.core.semaphores i).value) ∧
      ∀ semid s', s.core.hit semid = some i → s.core.Balanced (.syscall (.semSignal semid)) →
        Step s (.syscall (.semSignal semid)) s' →
        Ring s'.links (.head (.blockedThreads i)) (ts.tail.map .semList) := by
  obtain ⟨k, rep, inv, counted⟩ := run.invariant Core.Balanced (fun k => k.table.Counted)
    (fun ram i used => by simp [Kernel.table, bootKernel, boot_free] at used)
    (fun k e inv counted balanced => inv.allowed_of_balanced counted balanced)
    (fun k e k' inv _ counted balanced step => Kernel.Counted.step inv counted balanced step)
  rw [rep.core] at used created ⊢
  have length := (counted i used created).2
  refine ⟨k.table.sleepers i, rep.sleepers used, length, fun semid s' hit balanced step => ?_⟩
  have allowed := inv.allowed_of_balanced counted balanced
  obtain ⟨k', step', rep', _⟩ := rep.advance inv allowed step
  have table : k'.table = k.table.give i := by
    have := Kernel.step_table inv allowed step'
    simpa only [Core.TableStep, hit] using this
  have value : (k.table.slot i).value < 2147483647 := (balanced.2 i hit).1 created
  have used' : (k'.table.slot i).free = false := by simpa [table, Table.give] using used
  have fewer : k'.table.sleepers i = (k.table.sleepers i).tail := by
    rw [table]
    simp only [Table.give, Table.set_sleepers, if_true]
    split
    · rfl
    · rename_i nobody
      simp only [Kernel.table_slot] at length nobody value
      have low := (counted i used created).1.1
      simp only [Kernel.table_slot] at low
      rw [int32_of_range (by omega) (by omega)] at nobody
      have none : k.table.sleepers i = [] := by
        rw [← List.length_eq_zero_iff]
        omega
      rw [none, List.tail_nil]
  rw [← fewer]
  exact rep'.sleepers used'

/-- `task1` sleeps in its semaphore. -/
theorem counted_of_slept : ∃ s, RunWhere (fun s e => s.core.Balanced e)
    [.syscall (.semCreate 0), .syscall (.semWait 100000)] s ∧
    ∃ ts : List Task, Ring s.links (.head (.blockedThreads 0)) (ts.map .semList) ∧ ts.length = 1 := by
  obtain ⟨s, run, checked⟩ := executeBoot_run (fun s e => s.core.Balanced e)
    [.syscall (.semCreate 0), .syscall (.semWait 100000)]
    (fun s => (s.core.semaphores 0).free = false ∧ (s.core.semaphores 0).created = 0 ∧
      (s.core.semaphores 0).value = -1) (by decide +kernel)
  simp only [decide_eq_true_eq] at run checked
  obtain ⟨used, created, value⟩ := checked
  obtain ⟨ts, ring, length, _⟩ := counted_of_balanced run 0 used (by rw [created])
  rw [value] at length
  exact ⟨s, run, ts, ring, by omega⟩

end Zeos
