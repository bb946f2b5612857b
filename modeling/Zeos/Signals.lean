import Zeos.Counting
import Zeos.Departures

/-! What `sys_semSignal` and `sys_semDestroy` take and return. A semaphore may start below
zero: then its counter says that a task waits while none does. -/
namespace Zeos
open Circular Outcome

namespace Table

variable {T T' : Table} {own : SemIndex → Prop} {i : SemIndex} {t : Task}

/-- How many tasks sleep in a slot with this counter that started from `created`. -/
def awaited (m : Semaphore) : Int := if 0 ≤ m.created then max 0 (-m.value) else m.created - m.value

/-- The counters tell how many tasks sleep, in slots that are free too. In a slot whose sleepers
have been woken by a destroyer they count those who have gone, too. -/
def Tracked (T : Table) : Prop := ∀ i, IsInt (T.slot i).value ∧
  if (T.slot i).creatorPID = -1 then (T.sleepers i).length + (T.slot i).value < min 0 (T.slot i).created
  else ((T.sleepers i).length : Int) = awaited (T.slot i)

/-- A signal to the slot finds a sleeper whenever its counter says so. -/
def Served (m : Semaphore) : Prop := if 0 ≤ m.created then m.value < 2147483647 else m.value < m.created

instance (m : Semaphore) : Decidable (Served m) := by
  unfold Served
  infer_instance

theorem Tracked.set (tracked : T.Tracked) (i : SemIndex) (m : Semaphore) (ts : List Task)
    (here : IsInt m.value ∧ if m.creatorPID = -1 then ts.length + m.value < min 0 m.created
      else (ts.length : Int) = awaited m) : (T.set i m ts).Tracked := by
  intro j
  rw [set_slot, set_sleepers]
  by_cases same : j = i
  · rw [if_pos same, if_pos same]
    exact here
  · rw [if_neg same, if_neg same]
    exact tracked j

/-- A wait. -/
theorem Tracked.take (tracked : T.Tracked) (few : (T.sleepers i).length ≤ nrTasks)
    (room : (T.slot i).created < 0 ∨ (T.slot i).creatorPID = -1 → -2147483648 < (T.slot i).value) : (T.take i t).Tracked := by
  obtain ⟨⟨low, high⟩, counts⟩ := tracked i
  simp only [nrTasks] at few
  unfold awaited at counts
  have exactly : int32 ((T.slot i).value - 1) = (T.slot i).value - 1 := by
    apply int32_of_range
    · split at counts
      · omega
      · split at counts <;> omega
    · omega
  apply tracked.set
  refine ⟨int32_isInt _, ?_⟩
  simp only [exactly, awaited]
  split at counts
  · rename_i marked
    rw [if_pos marked, if_pos (by omega), List.length_append, List.length_singleton]
    omega
  · rename_i whole
    rw [if_neg whole]
    by_cases start : 0 ≤ (T.slot i).created
    · rw [if_pos start] at counts ⊢
      split
      · rw [List.length_append, List.length_singleton]
        omega
      · omega
    · rw [if_neg start] at counts ⊢
      rw [if_pos (by omega), List.length_append, List.length_singleton]
      omega

/-- The counter asks for a sleeper. -/
theorem Tracked.asks_iff (tracked : T.Tracked) : (int32 ((T.slot i).value + 1) ≤ 0 → T.sleepers i ≠ []) ↔
    Served (T.slot i) ∧ ((T.slot i).creatorPID = -1 → T.sleepers i ≠ []) := by
  obtain ⟨⟨low, high⟩, counts⟩ := tracked i
  have some : T.sleepers i ≠ [] ↔ 0 < ((T.sleepers i).length : Int) := by
    rw [← List.length_pos_iff]
    omega
  unfold awaited at counts
  unfold Served
  split at counts
  · rename_i marked
    have exactly : int32 ((T.slot i).value + 1) = (T.slot i).value + 1 := int32_of_range (by omega) (by omega)
    have served : if 0 ≤ (T.slot i).created then (T.slot i).value < 2147483647 else (T.slot i).value < (T.slot i).created := by
      split <;> omega
    rw [exactly]
    constructor
    · exact fun asks => ⟨served, fun _ => asks (by omega)⟩
    · exact fun both _ => both.2 marked
  · rename_i whole
    have alone : (T.slot i).creatorPID = -1 → T.sleepers i ≠ [] := fun marked => absurd marked whole
    rw [and_iff_left alone, some, counts]
    by_cases top : (T.slot i).value = 2147483647
    · have wrapped : int32 (2147483647 + 1) = -2147483648 := by decide
      rw [top, wrapped]
      split <;> omega
    · rw [int32_of_range (by omega) (by omega)]
      by_cases start : 0 ≤ (T.slot i).created
      · rw [if_pos start, if_pos start]
        omega
      · rw [if_neg start] at counts
        rw [if_neg start, if_neg start]
        omega

/-- A signal that finds a sleeper when it asks for one. -/
theorem Tracked.give (tracked : T.Tracked) (asks : int32 ((T.slot i).value + 1) ≤ 0 → T.sleepers i ≠ []) :
    (T.give i).Tracked := by
  obtain ⟨served, -⟩ := tracked.asks_iff.mp asks
  have some : T.sleepers i ≠ [] → 0 < (T.sleepers i).length := List.length_pos_iff.mpr
  obtain ⟨⟨low, high⟩, counts⟩ := tracked i
  unfold awaited at counts
  unfold Served at served
  have exactly : int32 ((T.slot i).value + 1) = (T.slot i).value + 1 := by
    apply int32_of_range
    · omega
    · split at served <;> split at counts <;> omega
  rw [exactly] at asks
  apply tracked.set
  refine ⟨int32_isInt _, ?_⟩
  simp only [exactly, awaited]
  split at counts
  · rename_i marked
    have waits := some (asks (by omega))
    rw [if_pos marked, if_pos (by omega), List.length_tail]
    omega
  · rename_i whole
    rw [if_neg whole]
    by_cases start : 0 ≤ (T.slot i).created
    · rw [if_pos start] at counts ⊢
      split
      · rw [List.length_tail]
        omega
      · omega
    · rw [if_neg start] at counts served ⊢
      rw [if_pos (by omega), List.length_tail]
      omega

theorem Tracked.released (tracked : T.Tracked) (released : Released own T T') : T'.Tracked := by
  induction released with
  | refl T => exact tracked
  | release i _ _ _ _ ih => exact ih (tracked.set i _ _ (tracked i))

/-- A destroyer that wakes a sleeper. -/
theorem Tracked.mark (tracked : T.Tracked) (waits : T.sleepers i ≠ []) : (T.mark i).Tracked := by
  have some := List.length_pos_iff.mpr waits
  obtain ⟨int, counts⟩ := tracked i
  apply tracked.set
  refine ⟨int, ?_⟩
  unfold awaited at counts
  rw [if_pos rfl, List.length_tail]
  dsimp only
  split at counts
  · omega
  · split at counts <;> omega

theorem Tracked.destroyed (tracked : T.Tracked) (destroyed : Destroyed own T T') : T'.Tracked := by
  obtain ⟨M, released, rfl | ⟨i, -, -, waits, rfl⟩⟩ := destroyed
  · exact tracked.released released
  · exact (tracked.released released).mark waits

end Table

namespace Core

/-- No wait finds the counter at the least `int`, in a semaphore that started below zero or of which
a destroyer wakes the sleepers. -/
def Lowers (c : Core) : Event → Prop
  | .syscall (.semWait semid) => ∀ i, c.hit semid = some i →
      (c.semaphores i).created < 0 ∨ (c.semaphores i).creatorPID = -1 → -2147483648 < (c.semaphores i).value
  | _ => True

instance (c : Core) (e : Event) : Decidable (c.Lowers e) := by
  unfold Lowers
  apply e.decidable

/-- A signal to a semaphore that started from `v` finds its counter below 2³¹ - 1, and below `v` when
`v` is negative; one to a semaphore whose sleepers a destroyer wakes finds one of them; and waits
keep to `Lowers`. -/
def Paced (c : Core) (e : Event) : Prop :=
  c.Lowers e ∧
    match e with
    | .syscall (.semSignal semid) => ∀ i, c.hit semid = some i → Table.Served (c.semaphores i) ∧
        ((c.semaphores i).creatorPID = -1 → ∃ t, c.Asleep i t)
    | e => c.Allowed e

instance (c : Core) (e : Event) : Decidable (c.Paced e) := by
  unfold Paced
  refine @instDecidableAnd _ _ inferInstance ?_
  apply e.decidable

end Core

namespace Kernel

variable {k k' : Kernel} {e : Event}

theorem Inv.asleep_some (inv : k.Inv) (i : SemIndex) : (∃ t, k.core.Asleep i t) ↔ k.table.sleepers i ≠ [] := by
  simp only [← inv.asleep_iff, ne_eq, List.eq_nil_iff_forall_not_mem, not_forall, not_not]

/-- A task of which the counter of a slot tells sleeps there. -/
theorem Inv.served_iff (inv : k.Inv) (tracked : k.table.Tracked) (i : SemIndex) :
    (int32 ((k.core.semaphores i).value + 1) ≤ 0 → ∃ t, k.core.Asleep i t) ↔
      Table.Served (k.core.semaphores i) ∧ ((k.core.semaphores i).creatorPID = -1 → ∃ t, k.core.Asleep i t) := by
  rw [inv.asleep_some]
  exact tracked.asks_iff

theorem Inv.allowed_of_paced (inv : k.Inv) (tracked : k.table.Tracked) (paced : k.core.Paced e) : k.core.Allowed e := by
  obtain ⟨_, paced⟩ := paced
  unfold Core.Allowed
  split at paced
  · exact fun i hit asks => (inv.served_iff tracked i).mpr (paced i hit) asks
  · exact paced

theorem Tracked.step (inv : k.Inv) (tracked : k.table.Tracked) (allowed : k.core.Allowed e) (lowers : k.core.Lowers e)
    (step : k.Step e k') : k'.table.Tracked := by
  have table := step_table inv allowed step
  obtain ⟨enabled, _⟩ := step
  unfold Core.TableStep at table
  split at table
  · rename_i initialValue
    rw [table]
    split
    · exact tracked
    · have positive : 0 < k.core.ct.pid := inv.good.positive _ inv.between.live enabled.2.1
      apply tracked.set
      refine ⟨enabled.2.2, ?_⟩
      rw [if_neg (by dsimp only; omega)]
      simp only [Table.awaited, List.length_nil]
      split <;> omega
  · rename_i semid
    rw [table]
    split
    · exact tracked
    · rename_i i hit
      exact tracked.take (inv.few _) (lowers i hit)
  · rename_i semid
    rw [table]
    split
    · exact tracked
    · rename_i i hit
      exact tracked.give fun asks => (inv.asleep_some i).mp (allowed i hit asks)
  · exact tracked.destroyed table
  · exact tracked.destroyed table
  · exact tracked.destroyed table
  · rw [table]
    exact tracked

theorem boot_tracked (ram : Nat → Nat → UInt8) : (bootKernel ram).table.Tracked := by
  have all : ∀ i, (booted.core.semaphores i).value = 0 ∧ (booted.core.semaphores i).created = 0 ∧
      (booted.core.semaphores i).creatorPID ≠ -1 := by decide +kernel
  intro i
  obtain ⟨value, created, whole⟩ := all i
  have value : ((bootKernel ram).table.slot i).value = 0 := value
  have created : ((bootKernel ram).table.slot i).created = 0 := created
  have whole : ((bootKernel ram).table.slot i).creatorPID ≠ -1 := whole
  rw [if_neg whole, Table.awaited, value, created]
  exact ⟨by decide, rfl⟩

end Kernel

/-- A signal whose counter says that a task waits finds one that sleeps in a `semWait` at the
front of the list. -/
def State.TakesSleeper (s : State) (i : SemIndex) : Prop :=
  int32 ((s.core.semaphores i).value + 1) ≤ 0 →
    ∃ t, s.links.next (.head (.blockedThreads i)) = .semList t ∧ s.core.Asleep i t

theorem Refines.takesSleeper_iff {s : State} {k : Kernel} {i : SemIndex} (rep : Refines s k) (inv : k.Inv)
    (tracked : k.table.Tracked) (used : (k.core.semaphores i).free = false) :
    s.TakesSleeper i ↔
      Table.Served (k.core.semaphores i) ∧ ((k.core.semaphores i).creatorPID = -1 → ∃ t, k.core.Asleep i t) := by
  rw [← inv.served_iff tracked i, State.TakesSleeper, rep.core]
  apply imp_congr_right
  intro _
  constructor
  · rintro ⟨t, -, asleep⟩
    exact ⟨t, asleep⟩
  · rintro ⟨t, asleep⟩
    have mem := (inv.asleep_iff i t).mpr asleep
    obtain ⟨u, rest, first⟩ := List.exists_cons_of_ne_nil (List.ne_nil_of_mem mem)
    have ring := rep.sleepers used
    rw [first, List.map_cons] at ring
    exact ⟨u, ring.next_cons, (inv.asleep_iff i u).mp (by rw [first]; simp)⟩

/-- A signal never takes a task from an empty list, exactly when it finds the counter in step with
the value the semaphore started from, and a sleeper if a destroyer has begun to wake them. -/
theorem signal_takes_sleeper_iff {events : List Event} {s : State} (run : RunWhere (fun s e => s.core.Paced e) events s)
    {i : SemIndex} (used : (s.core.semaphores i).free = false) :
    s.TakesSleeper i ↔
      Table.Served (s.core.semaphores i) ∧ ((s.core.semaphores i).creatorPID = -1 → ∃ t, s.core.Asleep i t) := by
  obtain ⟨k, rep, inv, tracked⟩ := run.invariant Core.Paced (fun k => k.table.Tracked) Kernel.boot_tracked
    (fun k e inv tracked paced => inv.allowed_of_paced tracked paced)
    fun k e k' inv _ tracked paced step => Kernel.Tracked.step inv tracked (inv.allowed_of_paced tracked paced) paced.1 step
  rw [rep.core] at used ⊢
  exact rep.takesSleeper_iff inv tracked used

/-- `task1` sleeps in a semaphore that it made with -3. -/
theorem signal_takes_sleeper_below : ∃ s, RunWhere (fun s e => s.core.Paced e)
    [.syscall (.semCreate (-3)), .syscall (.semWait 100000)] s ∧ (s.core.semaphores 0).value = -4 ∧ s.TakesSleeper 0 := by
  obtain ⟨s, run, checked⟩ := executeBoot_run (fun s e => s.core.Paced e)
    [.syscall (.semCreate (-3)), .syscall (.semWait 100000)]
    (fun s => (s.core.semaphores 0).free = false ∧ (s.core.semaphores 0).creatorPID ≠ -1 ∧ (s.core.semaphores 0).value = -4 ∧
      Table.Served (s.core.semaphores 0)) (by decide +kernel)
  simp only [decide_eq_true_eq] at run checked
  obtain ⟨used, whole, value, served⟩ := checked
  exact ⟨s, run, value, (signal_takes_sleeper_iff run used).mpr ⟨served, fun marked => absurd marked whole⟩⟩

/-- The list head itself is masked into a PCB. -/
theorem signal_takes_head : ∃ s, Run [.syscall (.semCreate (-1))] s ∧
    s.core.Enabled (.syscall (.semSignal 100000)) ∧ s.core.hit 100000 = some 0 ∧
    s.links.next (.head (.blockedThreads 0)) = .head (.blockedThreads 0) ∧ ¬ s.TakesSleeper 0 ∧
    ¬ (s.step (.syscall (.semSignal 100000))).isOk := by
  obtain ⟨s, run, checked⟩ := executeBoot_run (fun _ _ => true) [.syscall (.semCreate (-1))]
    (fun s => s.core.Enabled (.syscall (.semSignal 100000)) ∧ s.core.hit 100000 = some 0 ∧
      s.links.next (.head (.blockedThreads 0)) = .head (.blockedThreads 0) ∧ (s.core.semaphores 0).value = -1 ∧
      ¬ (s.step (.syscall (.semSignal 100000))).isOk) (by decide +kernel)
  simp only [decide_eq_true_eq] at checked
  obtain ⟨enabled, hit, next, value, stuck⟩ := checked
  refine ⟨s, run.run, enabled, hit, next, fun takes => ?_, stuck⟩
  obtain ⟨t, first, -⟩ := takes (by rw [value]; decide)
  rw [next] at first
  contradiction

namespace State

variable {s : State} {semid : Int}

/-- A signal that names no semaphore in use. -/
theorem semSignal_refused (none : s.core.hit semid = none) :
    ∃ v < 0, s.step (.syscall (.semSignal semid)) = .ok (s.sysReturn (some v)) := by
  simp only [step, syscall, sysSemSignal]
  split
  · exact ⟨-1, by decide, rfl⟩
  rename_i user
  split
  · exact ⟨-1, by decide, rfl⟩
  rename_i i found
  split
  · exact ⟨-eINVAL, by decide, rfl⟩
  rename_i used
  have hit := Core.hit_eq_some.mpr ⟨by omega, found, by simpa using used⟩
  rw [none] at hit
  contradiction

theorem destroySlots_refused (strange : ∀ i, (s.core.semaphores i).id = semid → (s.core.semaphores i).free = false →
    s.core.ct.pid ≠ (s.core.semaphores i).creatorPID) (caller : DestroyCaller) (slots : List SemIndex) :
    ∃ v < 0, destroySlots semid caller slots s = .ok (some v, s) := by
  induction slots with
  | nil => exact ⟨-1, by decide, rfl⟩
  | cons i slots ih =>
    unfold destroySlots
    split
    · rename_i named
      split
      · exact ⟨-eINVAL, by decide, rfl⟩
      · rename_i used
        rw [if_pos (strange i named (by simpa using used))]
        exact ⟨-eINVAL, by decide, rfl⟩
    · exact ih

/-- A destroyer that names no semaphore of its own. -/
theorem semDestroy_refused (strange : ∀ i, (s.core.semaphores i).id = semid → (s.core.semaphores i).free = false →
    s.core.ct.pid ≠ (s.core.semaphores i).creatorPID) :
    ∃ v < 0, s.step (.syscall (.semDestroy semid)) = .ok (s.sysReturn (some v)) := by
  simp only [step, syscall, sysSemDestroy]
  split
  · exact ⟨-eINVAL, by decide, rfl⟩
  · obtain ⟨v, negative, refused⟩ := destroySlots_refused strange .syscall (List.finRange numSems)
    rw [refused]
    exact ⟨v, negative, rfl⟩

end State

namespace Kernel

variable {k k' : Kernel} {i : SemIndex} {semid : Int} {caller : DestroyCaller} {v : Int}

/-- The loop over the slots ends with an error in any case. -/
theorem destroySlots_negative (slots : List SemIndex) {k : Kernel}
    (ends : (destroySlots semid caller slots k).1 = some v) : v < 0 := by
  induction slots generalizing k with
  | nil =>
    cases ends
    decide
  | cons i slots ih =>
    unfold destroySlots at ends
    split at ends
    · split at ends
      · cases ends
        decide
      split at ends
      · cases ends
        decide
      split at ends
      · contradiction
      · exact ih ends
    · exact ih ends

theorem destroyFrom_negative (ends : (k.destroyFrom i semid caller).1 = some v) : v < 0 := by
  unfold destroyFrom at ends
  split at ends
  · contradiction
  · exact destroySlots_negative _ ends

/-- A signal to a semaphore in use that returns at once. -/
theorem sysSemSignal_positive (hit : k.core.hit semid = some i) (done : k.sysSemSignal semid = .ok k')
    (same : k'.core.current = k.core.current) (user : k'.core.InUser) : ∃ v, k'.core.ct.eax = some v ∧ 0 < v := by
  obtain ⟨low, found, used⟩ := Core.hit_eq_some.mp hit
  unfold sysSemSignal at done
  rw [if_neg (by omega), found] at done
  simp only [used, Bool.false_eq_true, if_false] at done
  split at done
  · split at done
    · contradiction
    · rename_i t rest first
      cases done
      have saved := sched_saves
        (((k.setSem i fun m => { m with value := int32 ((k.core.semaphores i).value + 1) }).wake t)) (.semSignal i)
      rw [Core.InUser, Core.ct, same] at user
      have current : ((k.setSem i fun m => { m with value := int32 ((k.core.semaphores i).value + 1) }).wake t).core.current =
          k.core.current := by simp
      rw [current, user] at saved
      contradiction
  · rename_i positive
    cases done
    exact ⟨_, sysReturn_eax _ _, by omega⟩

/-- A destroyer that is done returns an error. -/
theorem sysSemDestroy_negative (done : k.sysSemDestroy semid = k') (same : k'.core.current = k.core.current)
    (user : k'.core.InUser) : ∃ v < 0, k'.core.ct.eax = some v := by
  unfold sysSemDestroy at done
  split at done
  · subst done
    exact ⟨-eINVAL, by decide, sysReturn_eax _ _⟩
  · have negative (v : Int) : (destroySlots semid .syscall (List.finRange numSems) k).1 = some v → v < 0 :=
      destroySlots_negative _
    have saves := destroySlots_saves semid .syscall (List.finRange numSems) (k := k)
    split at done <;> rename_i result <;> rw [result] at negative saves
    · subst done
      exact ⟨_, negative _ rfl, sysReturn_eax _ _⟩
    · subst done
      obtain ⟨j, saved⟩ := saves rfl
      rw [Core.InUser, Core.ct, same, saved] at user
      contradiction

theorem resume_semSignal (kEsp : k.core.ct.kEsp = .semSignal i) (done : k.resume = .ok k') :
    k'.core.ct.eax = some (k.core.semaphores i).value := by
  unfold Kernel.resume at done
  rw [kEsp] at done
  cases done
  exact sysReturn_eax _ _

theorem resume_semDestroy (kEsp : k.core.ct.kEsp = .semDestroy i semid .syscall) (done : k.resume = .ok k')
    (same : k'.core.current = k.core.current) (user : k'.core.InUser) : ∃ v < 0, k'.core.ct.eax = some v := by
  unfold Kernel.resume at done
  rw [kEsp, goOn] at done
  have negative (v : Int) : ((k.setTask k.core.current fun ts => { ts with kEsp := .user }).destroyFrom i semid .syscall).1 =
      some v → v < 0 := destroyFrom_negative
  have saves (ends : ((k.setTask k.core.current fun ts => { ts with kEsp := .user }).destroyFrom i semid .syscall).1 = none) :=
    destroyFrom_saves ends
  split at done <;> rename_i result <;> rw [result] at negative saves
  · cases done
    obtain ⟨j, saved⟩ := saves rfl
    rw [Core.InUser, Core.ct, same] at user
    simp only [setTask_core, Core.setTask_current] at saved
    rw [saved] at user
    contradiction
  · cases done
    exact ⟨_, negative _ rfl, sysReturn_eax _ _⟩

end Kernel

namespace Core

/-- A call of `sys_semSignal` or `sys_semDestroy`, or one that goes on. -/
def Settles (c : Core) : Event → Prop
  | .syscall (.semSignal _) | .syscall (.semDestroy _) => True
  | .resume => (∃ i, c.ct.kEsp = .semSignal i) ∨ ∃ i semid, c.ct.kEsp = .semDestroy i semid .syscall
  | _ => False

/-- The call signals or destroys a semaphore. One that goes on has begun to do so. -/
def Effective (c : Core) : Event → Prop
  | .syscall (.semSignal semid) => ∃ i, (c.semaphores i).free = false ∧ (c.semaphores i).id = semid
  | .syscall (.semDestroy semid) => ∃ i, (c.semaphores i).free = false ∧ (c.semaphores i).id = semid ∧
      (c.semaphores i).creatorPID = c.ct.pid
  | _ => True

/-- Nothing is destroyed, and a signal that goes on finds nobody asleep in a semaphore that did
not start below zero and of which no sleeper was woken by a destroyer. -/
def Candid (c : Core) : Event → Prop
  | .syscall (.semDestroy semid) => ∀ i, (c.semaphores i).free = false → (c.semaphores i).id = semid →
      (c.semaphores i).creatorPID ≠ c.ct.pid
  | .resume => ∃ i, c.ct.kEsp = .semSignal i ∧ (c.semaphores i).creatorPID ≠ -1 ∧ 0 ≤ (c.semaphores i).created ∧
      ∀ t, ¬ c.Asleep i t
  | _ => True

end Core

/-- The call returns a negative value if and only if it has had no effect, and then nothing has
changed. -/
def State.Tells (s : State) (e : Event) (s' : State) : Prop :=
  ∃ v, s'.core.ct.eax = some v ∧ (v < 0 ↔ ¬ s.core.Effective e) ∧ (¬ s.core.Effective e → s' = s.sysReturn (some v))

section
variable {s s' : State} {e : Event} {v : Int}

theorem State.tells_refused (refused : s.step e = .ok (s.sysReturn (some v))) (negative : v < 0) (step : Step s e s')
    (ineffective : ¬ s.core.Effective e) : s.Tells e s' := by
  obtain ⟨-, done⟩ := step
  rw [refused] at done
  cases done
  exact ⟨v, by simp [sysReturn, Core.sysReturn, Core.ct], iff_of_true negative ineffective, fun _ => rfl⟩

theorem State.tells_iff (value : s'.core.ct.eax = some v) (effective : s.core.Effective e) : s.Tells e s' ↔ 0 ≤ v := by
  constructor
  · rintro ⟨w, other, told, -⟩
    rw [value] at other
    cases other
    by_contra negative
    exact told.mp (by omega) effective
  · intro positive
    exact ⟨v, value, iff_of_false (by omega) (fun none => none effective), fun none => absurd effective none⟩

end

/-- The counter is not negative when nobody sleeps, or slept when it was destroyed, in a semaphore
that did not start below zero. -/
theorem Table.Tracked.positive_iff {T : Table} {i : SemIndex} (tracked : T.Tracked) :
    0 ≤ (T.slot i).value ↔ (T.slot i).creatorPID ≠ -1 ∧ 0 ≤ (T.slot i).created ∧ T.sleepers i = [] := by
  obtain ⟨-, counts⟩ := tracked i
  rw [← List.length_eq_zero_iff]
  split at counts
  · rename_i marked
    exact iff_of_false (by omega) fun both => both.1 marked
  · rename_i whole
    rw [and_iff_right whole]
    unfold awaited at counts
    split at counts <;> omega

/-- A `sys_semSignal` that succeeds finds a sleeper when its counter says so: the first node
of an empty list is the head, around which there is no PCB. -/
theorem Refines.signal_allowed {s s' : State} {k : Kernel} {semid : Int} (rep : Refines s k) (inv : k.Inv)
    (step : Step s (.syscall (.semSignal semid)) s') : k.core.Allowed (.syscall (.semSignal semid)) := by
  obtain ⟨enabled, done⟩ := step
  intro i hit waiting
  obtain ⟨user, found, used⟩ := Core.hit_eq_some.mp hit
  cases line : k.queues (.blockedThreads i) with
  | cons t rest => exact ⟨t, inv.first_blocked line⟩
  | nil =>
    have ring := rep.rings.ring (.blockedThreads i) used
    rw [line] at ring
    have next := ring.next_nil
    have done : s.sysSemSignal semid = .ok s' := done
    unfold State.sysSemSignal at done
    rw [rep.core, if_neg (Int.not_lt.mpr user)] at done
    simp only [found, used, waiting, if_true, Bool.false_eq_true, if_false] at done
    simp [State.wakeFirst, State.listFirst, State.loadNext, State.setCore, next, listHeadToTaskStruct] at done
    contradiction

namespace Refines

variable {s s' : State} {k : Kernel}

/-- A `sys_semSignal` that returns at once tells what it has done. -/
theorem semSignal_tells {semid : Int} (rep : Refines s k) (inv : k.Inv) (numbered : s.core.Numbered)
    (step : Step s (.syscall (.semSignal semid)) s') (same : s'.core.current = s.core.current) (user : s'.core.InUser) :
    s.Tells (.syscall (.semSignal semid)) s' := by
  cases hit : s.core.hit semid with
  | none =>
    obtain ⟨v, negative, refused⟩ := State.semSignal_refused hit
    apply State.tells_refused refused negative step
    rintro ⟨i, used, named⟩
    have found := Core.hit_eq_some.mpr ⟨numbered.used i used, numbered.slotOf used, used⟩
    rw [named, hit] at found
    contradiction
  | some i =>
    obtain ⟨k', done, rep', -⟩ := rep.advance inv (rep.signal_allowed inv step) step
    obtain ⟨-, found, used⟩ := Core.hit_eq_some.mp hit
    have named : (s.core.semaphores i).id = semid := by
      simpa using List.find?_some (show List.find? _ _ = some i from found)
    rw [rep.core] at hit same
    rw [rep'.core] at same user
    obtain ⟨v, value, positive⟩ := Kernel.sysSemSignal_positive hit done.2 same user
    rw [← rep'.core] at value
    have effective : s.core.Effective (.syscall (.semSignal semid)) := ⟨i, used, named⟩
    exact (State.tells_iff value effective).mpr (by omega)

/-- A `sys_semDestroy` that returns at once tells what it has done when it is refused. -/
theorem semDestroy_tells_iff {semid : Int} (rep : Refines s k) (inv : k.Inv)
    (step : Step s (.syscall (.semDestroy semid)) s') (same : s'.core.current = s.core.current) (user : s'.core.InUser) :
    s.Tells (.syscall (.semDestroy semid)) s' ↔ s.core.Candid (.syscall (.semDestroy semid)) := by
  by_cases effective : s.core.Effective (.syscall (.semDestroy semid))
  · have allowed : k.core.Allowed (.syscall (.semDestroy semid)) := trivial
    obtain ⟨k', done, rep', -⟩ := rep.advance inv allowed step
    rw [rep.core] at same
    rw [rep'.core] at same user
    obtain ⟨v, negative, value⟩ := Kernel.sysSemDestroy_negative (Except.ok.inj done.2) same user
    rw [← rep'.core] at value
    apply iff_of_false
    · intro tells
      have := (State.tells_iff value effective).mp tells
      omega
    · intro candid
      obtain ⟨i, used, named, mine⟩ := effective
      exact candid i used named mine
  · have strange : ∀ i, (s.core.semaphores i).id = semid → (s.core.semaphores i).free = false →
        s.core.ct.pid ≠ (s.core.semaphores i).creatorPID := by
      intro i named used mine
      exact effective ⟨i, used, named, mine.symm⟩
    obtain ⟨v, negative, refused⟩ := State.semDestroy_refused strange
    apply iff_of_true (State.tells_refused refused negative step effective)
    intro i used named mine
    exact effective ⟨i, used, named, mine⟩

/-- A `sys_semSignal` that goes on returns the counter, which is not negative when nobody sleeps. -/
theorem semSignal_goes_on {i : SemIndex} (rep : Refines s k) (inv : k.Inv) (tracked : k.table.Tracked)
    (kEsp : s.core.ct.kEsp = .semSignal i) (step : Step s .resume s') :
    s.Tells .resume s' ↔ s.core.Candid .resume := by
  have allowed : k.core.Allowed .resume := trivial
  have effective : s.core.Effective .resume := trivial
  obtain ⟨k', done, rep', -⟩ := rep.advance inv allowed step
  rw [rep.core] at kEsp
  have value := Kernel.resume_semSignal kEsp done.2
  rw [← rep'.core] at value
  have positive := tracked.positive_iff (i := i)
  rw [Kernel.table_slot] at positive
  rw [State.tells_iff value effective, positive, List.eq_nil_iff_forall_not_mem]
  simp only [inv.asleep_iff]
  rw [Core.Candid, rep.core]
  constructor
  · intro all
    exact ⟨i, kEsp, all⟩
  · rintro ⟨j, other, all⟩
    rw [kEsp] at other
    cases other
    exact all

/-- A `sys_semDestroy` that goes on reports an error. -/
theorem semDestroy_goes_on {i : SemIndex} {semid : Int} (rep : Refines s k) (inv : k.Inv)
    (kEsp : s.core.ct.kEsp = .semDestroy i semid .syscall) (step : Step s .resume s')
    (same : s'.core.current = s.core.current) (user : s'.core.InUser) : ¬ s.Tells .resume s' := by
  have allowed : k.core.Allowed .resume := trivial
  have effective : s.core.Effective .resume := trivial
  obtain ⟨k', done, rep', -⟩ := rep.advance inv allowed step
  rw [rep.core] at kEsp same
  rw [rep'.core] at same user
  obtain ⟨v, negative, value⟩ := Kernel.resume_semDestroy kEsp done.2 same user
  rw [← rep'.core] at value
  rw [State.tells_iff value effective]
  omega

end Refines

/-- A call that returns tells what it has done, exactly when it is not a `sys_semDestroy` that
succeeds or a `sys_semSignal` that goes on while somebody still sleeps in the slot, or did when it
was destroyed. -/
theorem semaphore_tells_iff {events : List Event} {s s' : State} {e : Event}
    (run : RunWhere (fun s e => s.core.Numbers e ∧ s.core.Lowers e) events s) (step : Step s e s') (settles : s.core.Settles e)
    (same : s'.core.current = s.core.current) (user : s'.core.InUser) : s.Tells e s' ↔ s.core.Candid e := by
  obtain ⟨k, rep, inv, tracked, numbered⟩ := run.invariant (fun c e => c.Numbers e ∧ c.Lowers e)
    (fun k => k.table.Tracked ∧ k.core.Numbered) (fun ram => ⟨Kernel.boot_tracked ram, boot_numbered ram⟩)
    (fun _ _ _ _ on => on.1.allowed)
    fun k e k' inv _ ⟨tracked, numbered⟩ ⟨numbers, lowers⟩ step =>
      ⟨Kernel.Tracked.step inv tracked numbers.allowed lowers step, inv.numbered_step numbers numbered step⟩
  rw [← rep.core] at numbered
  cases e with
  | clock | key readInp => cases settles
  | syscall call =>
    cases call with
    | semSignal semid => exact iff_of_true (rep.semSignal_tells inv numbered step same user) trivial
    | semDestroy semid => exact rep.semDestroy_tells_iff inv step same user
    | _ => cases settles
  | resume =>
    rcases settles with ⟨i, kEsp⟩ | ⟨i, semid, kEsp⟩
    · exact rep.semSignal_goes_on inv tracked kEsp step
    · apply iff_of_false (rep.semDestroy_goes_on inv kEsp step same user)
      rintro ⟨j, other, -⟩
      rw [kEsp] at other
      contradiction

/-- The child sleeps, `task1` signals and is suspended till the child's quantum is over. -/
def signalsOne : List Event :=
  [.syscall (.semCreate 0), .syscall .fork] ++ List.replicate 10 .clock ++
    [.syscall (.semWait 100000), .syscall (.semSignal 100000), .resume] ++ List.replicate 10 .clock

/-- The child whose sleep was ended by the destroyer goes on till its quantum is over. -/
def destroysOne : List Event := destroyedBusy ++ [.resume] ++ List.replicate 10 .clock

/-- The signal that goes on tells what it did, the destroyer that goes on does not. -/
theorem semaphore_tells_one :
    (∃ s s', RunWhere (fun s e => s.core.Numbers e ∧ s.core.Lowers e) signalsOne s ∧
      Step s .resume s' ∧ s.core.ct.kEsp = .semSignal 0 ∧ s.Tells .resume s') ∧
    ∃ s s', RunWhere (fun s e => s.core.Numbers e ∧ s.core.Lowers e) destroysOne s ∧
      Step s .resume s' ∧ s.core.ct.kEsp = .semDestroy 0 100000 .syscall ∧ ¬ s.Tells .resume s' := by
  constructor
  · obtain ⟨s, run, checked⟩ := executeBoot_run (fun s e => s.core.Numbers e ∧ s.core.Lowers e) signalsOne
      (fun s => (s.core.Enabled .resume ∧ s.core.ct.kEsp = .semSignal 0 ∧ (s.core.semaphores 0).creatorPID ≠ -1 ∧
        0 ≤ (s.core.semaphores 0).created ∧ ∀ t, ¬ s.core.Asleep 0 t) ∧
        (s.step .resume).toOption.any fun s' => s'.core.current = s.core.current ∧ s'.core.InUser) (by decide +kernel)
    simp only [decide_eq_true_eq] at run checked
    obtain ⟨⟨enabled, kEsp, candid⟩, rest⟩ := checked
    obtain ⟨s', step, returned⟩ := Step.of_any enabled rest
    rw [decide_eq_true_eq] at returned
    have settles : s.core.Settles .resume := .inl ⟨0, kEsp⟩
    exact ⟨s, s', run, step, kEsp, (semaphore_tells_iff run step settles returned.1 returned.2).mpr ⟨0, kEsp, candid⟩⟩
  · obtain ⟨s, run, checked⟩ := executeBoot_run (fun s e => s.core.Numbers e ∧ s.core.Lowers e) destroysOne
      (fun s => (s.core.Enabled .resume ∧ s.core.ct.kEsp = .semDestroy 0 100000 .syscall) ∧
        (s.step .resume).toOption.any fun s' => s'.core.current = s.core.current ∧ s'.core.InUser) (by decide +kernel)
    simp only [decide_eq_true_eq] at run checked
    obtain ⟨⟨enabled, kEsp⟩, rest⟩ := checked
    obtain ⟨s', step, returned⟩ := Step.of_any enabled rest
    rw [decide_eq_true_eq] at returned
    have settles : s.core.Settles .resume := .inr ⟨0, 100000, kEsp⟩
    refine ⟨s, s', run, step, kEsp, fun tells => ?_⟩
    obtain ⟨i, other, -⟩ := (semaphore_tells_iff run step settles returned.1 returned.2).mp tells
    rw [kEsp] at other
    contradiction

/-- Two children sleep; `task1` signals once. -/
def signalsTwo : List Event :=
  [.syscall (.semCreate 0), .syscall .fork, .syscall .fork] ++ List.replicate 10 .clock ++
    [.syscall (.semWait 100000), .syscall (.semWait 100000), .syscall (.semSignal 100000), .resume] ++
    List.replicate 10 .clock

/-- Both calls report an error though they have done what they were asked for. -/
theorem semaphore_tells_error : (∃ s s', Run signalsTwo s ∧ Step s .resume s' ∧ s.core.ct.kEsp = .semSignal 0 ∧
      s'.core.ct.eax = some (-1) ∧ ¬ s.Tells .resume s') ∧
    ∃ s s', Run [.syscall (.semCreate 1)] s ∧ Step s (.syscall (.semDestroy 100000)) s' ∧
      (s.core.semaphores 0).free = false ∧ (s'.core.semaphores 0).free ∧ s'.core.ct.eax = some (-1) ∧
      ¬ s.Tells (.syscall (.semDestroy 100000)) s' := by
  constructor
  · obtain ⟨s, run, checked⟩ := executeBoot_run (fun _ _ => true) signalsTwo
      (fun s => (s.core.Enabled .resume ∧ s.core.ct.kEsp = .semSignal 0) ∧
        (s.step .resume).toOption.any fun s' => s'.core.ct.eax = some (-1)) (by decide +kernel)
    simp only [decide_eq_true_eq] at checked
    obtain ⟨⟨enabled, kEsp⟩, rest⟩ := checked
    obtain ⟨s', step, value⟩ := Step.of_any enabled rest
    rw [decide_eq_true_eq] at value
    have effective : s.core.Effective .resume := trivial
    refine ⟨s, s', run.run, step, kEsp, value, fun tells => ?_⟩
    have := (State.tells_iff value effective).mp tells
    contradiction
  · obtain ⟨s, run, checked⟩ := executeBoot_run (fun _ _ => true) [.syscall (.semCreate 1)]
      (fun s => (s.core.Enabled (.syscall (.semDestroy 100000)) ∧ (s.core.semaphores 0).free = false ∧
        (s.core.semaphores 0).id = 100000 ∧ (s.core.semaphores 0).creatorPID = s.core.ct.pid) ∧
        (s.step (.syscall (.semDestroy 100000))).toOption.any fun s' =>
          (s'.core.semaphores 0).free ∧ s'.core.ct.eax = some (-1)) (by decide +kernel)
    simp only [decide_eq_true_eq] at checked
    obtain ⟨⟨enabled, used, named, mine⟩, rest⟩ := checked
    obtain ⟨s', step, behind⟩ := Step.of_any enabled rest
    rw [decide_eq_true_eq] at behind
    have effective : s.core.Effective (.syscall (.semDestroy 100000)) := ⟨0, used, named, mine⟩
    refine ⟨s, s', run.run, step, used, behind.1, behind.2, fun tells => ?_⟩
    have := (State.tells_iff behind.2 effective).mp tells
    contradiction

end Zeos
