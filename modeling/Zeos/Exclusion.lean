import Mathlib.Data.Finset.Card
import Zeos.Counting

/-! Who wakes a task that sleeps in a semaphore, and what a semaphore that starts from
one guards. -/
namespace Zeos
open Circular Outcome

/-- A child sleeps in a semaphore and its father unblocks it. -/
def unblockedSleeper : List Event :=
  [.syscall (.semCreate 0), .syscall .fork] ++ List.replicate 10 .clock ++ [.syscall (.semWait 100000)]

/-- The child goes on, and is still linked to the semaphore. -/
theorem asleep_unblockedSleeper : ∃ s s', Run unblockedSleeper s ∧ Step s (.syscall (.unblock 1000)) s' ∧
    s.core.Asleep 0 2 ∧ ¬ s'.core.Asleep 0 2 ∧ s'.core.current = 2 ∧
    s'.links.next (.head (.blockedThreads 0)) = .semList 2 := by
  obtain ⟨s, run, checked⟩ := executeBoot_run (fun _ _ => true) unblockedSleeper
    (fun s => s.core.Enabled (.syscall (.unblock 1000)) ∧ s.core.Asleep 0 2 ∧
      (s.step (.syscall (.unblock 1000))).toOption.any fun s' =>
        ¬ s'.core.Asleep 0 2 ∧ s'.core.current = 2 ∧
          s'.links.next (.head (.blockedThreads 0)) = .semList 2) (by decide +kernel)
  simp only [decide_eq_true_eq] at checked
  obtain ⟨enabled, asleep, woken⟩ := checked
  cases done : s.step (.syscall (.unblock 1000)) with
  | error f => rw [done] at woken; contradiction
  | ok s' =>
    rw [done] at woken
    simp only [Except.toOption, Option.any_some, decide_eq_true_eq] at woken
    exact ⟨s, s', run.run, ⟨enabled, done⟩, asleep, woken⟩

/-- A sleeper that leaves a slot was its first one, and a signal or the destroyer of the
slot took it off. -/
theorem Core.TableStep.woken {c : Core} {e : Event} {T T' : Table} {i : SemIndex} {t : Task}
    (step : c.TableStep e T T') (slots : T.slot = c.semaphores)
    (unused : ∀ j, (T.slot j).free = true → T.sleepers j = [])
    (asleep : t ∈ T.sleepers i) (awake : t ∉ T'.sleepers i) :
    T.sleepers i = t :: T'.sleepers i ∧ (T'.slot i).free = false ∧
      ((∃ semid, e = .syscall (.semSignal semid) ∧ c.hit semid = some i) ∨ c.Destroys i e) := by
  have first (tail : T'.sleepers i = (T.sleepers i).tail) : T.sleepers i = t :: T'.sleepers i := by
    rw [tail] at awake ⊢
    cases list : T.sleepers i with
    | nil => rw [list] at asleep; contradiction
    | cons u rest =>
      rw [list] at asleep awake
      have same : t = u := (List.mem_cons.mp asleep).resolve_right awake
      rw [same, List.tail_cons]
  have destroyed (d : T.Destroyed (fun j => c.Destroys j e) T') :
      T.sleepers i = t :: T'.sleepers i ∧ (T'.slot i).free = false ∧ c.Destroys i e := by
    obtain ⟨M, released, same | ⟨j, mine, used, waiting, same⟩⟩ := d
    · rw [same, released.sleepers] at awake
      contradiction
    · by_cases here : i = j
      · subst here
        refine ⟨first ?_, by simpa [same, Table.mark] using used, mine⟩
        simp [same, Table.mark, released.sleepers]
      · simp [same, Table.mark, here, released.sleepers, asleep] at awake
  unfold TableStep at step
  split at step
  · rename_i initialValue
    cases found : c.freeSlot with
    | none => simp only [found] at step; rw [step] at awake; contradiction
    | some j =>
      simp only [found] at step
      by_cases here : i = j
      · subst here
        have free : (c.semaphores i).free = true := by simpa using List.find?_some found
        rw [unused i (by rw [slots, free])] at asleep
        contradiction
      · simp [step, here, asleep] at awake
  · rename_i semid
    cases hit : c.hit semid with
    | none => simp only [hit] at step; rw [step] at awake; contradiction
    | some j =>
      simp only [hit] at step
      by_cases here : i = j
      · subst here
        simp only [step, Table.take, Table.set_sleepers, if_true] at awake
        split at awake
        · exact absurd (List.mem_append_left _ asleep) awake
        · contradiction
      · simp [step, Table.take, here, asleep] at awake
  · rename_i semid
    cases hit : c.hit semid with
    | none => simp only [hit] at step; rw [step] at awake; contradiction
    | some j =>
      simp only [hit] at step
      by_cases here : i = j
      · subst here
        have used := (hit_eq_some.mp hit).2.2
        refine ⟨first ?_, by simpa [step, Table.give, slots] using used, .inl ⟨semid, rfl, hit⟩⟩
        rw [step]
        simp only [Table.give, Table.set_sleepers, if_true]
        split
        · rfl
        · rename_i nobody
          simp [step, Table.give, nobody, asleep] at awake
      · simp [step, Table.give, here, asleep] at awake
  · obtain ⟨list, used, mine⟩ := destroyed step
    exact ⟨list, used, .inr mine⟩
  · obtain ⟨list, used, mine⟩ := destroyed step
    exact ⟨list, used, .inr mine⟩
  · obtain ⟨list, used, mine⟩ := destroyed step
    exact ⟨list, used, .inr mine⟩
  · rw [step] at awake
    contradiction

/-- Where a task is with a semaphore: outside, between the call of its `semWait` and the
return, or between that and its `semSignal`. -/
inductive Phase where
  | out
  | waiting
  | inside
  deriving DecidableEq, Repr

namespace Core

/-- The phase of the running task behind its step, for the semaphore in slot `i`. -/
def nextPhase (i : SemIndex) (c : Core) : Event → Phase → Phase
  | .syscall (.semWait semid), p =>
    if c.hit semid = some i then if int32 ((c.semaphores i).value - 1) < 0 then .waiting else .inside else p
  | .syscall (.semSignal semid), p => if c.hit semid = some i then .out else p
  | .resume, p => if c.ct.kEsp = .semWait i ∧ p = .waiting then .inside else p
  | _, p => p

/-- The phases behind a step to `c'`; a task that has left is outside. -/
def follow (i : SemIndex) (c : Core) (e : Event) (c' : Core) (phase : Task → Phase) (t : Task) : Phase :=
  if c'.live t = false then .out else if t = c.current then c.nextPhase i e (phase t) else phase t

/-- Every task alternates `semWait` and `semSignal` on slot `i`, which is not destroyed. -/
structure Follows (i : SemIndex) (c : Core) (phase : Task → Phase) (e : Event) (c' : Core)
    (phase' : Task → Phase) : Prop where
  waits : ∀ semid, e = .syscall (.semWait semid) → c.hit semid = some i → phase c.current = .out
  signals : ∀ semid, e = .syscall (.semSignal semid) → c.hit semid = some i → phase c.current = .inside
  used : (c'.semaphores i).free = false
  creator : (c'.semaphores i).creatorPID = (c.semaphores i).creatorPID
  next : phase' = c.follow i e c' phase

end Core

/-- The steps of the system with the phases of the tasks for slot `i`. -/
def Watched (i : SemIndex) (x : State × (Task → Phase)) (e : Event) (x' : State × (Task → Phase)) : Prop :=
  x.1.core.Allowed e ∧ Step x.1 e x'.1 ∧ Core.Follows i x.1.core x.2 e x'.1.core x'.2

/-- The tasks that are not outside. -/
def entered (phase : Task → Phase) : Finset Task := Finset.univ.filter fun t => phase t ≠ .out

@[simp] theorem mem_entered {phase : Task → Phase} {t : Task} : t ∈ entered phase ↔ phase t ≠ .out := by
  simp [entered]

namespace Table

variable {T T' : Table} {i : SemIndex} {c : Core} {e : Event} {phase phase' : Task → Phase} {me : Task}

/-- A semaphore that started from one: the counter and the tasks that have entered share
one token, and the sleepers are on their way in. -/
structure Guards (T : Table) (i : SemIndex) (phase : Task → Phase) : Prop where
  used : (T.slot i).free = false
  owned : (T.slot i).creatorPID ≠ -1
  length : ((T.sleepers i).length : Int) = max 0 (-(T.slot i).value)
  tokens : (T.slot i).value + (entered phase).card ≤ 1
  waiting : ∀ t ∈ T.sleepers i, phase t = .waiting

theorem Guards.exclusive (guards : T.Guards i phase) (nodup : (T.sleepers i).Nodup) {t u : Task}
    (here : phase t = .inside) (there : phase u = .inside) : t = u := by
  by_contra different
  have sleeping : insert t (insert u (T.sleepers i).toFinset) ⊆ entered phase := by
    intro v mem
    simp only [Finset.mem_insert, List.mem_toFinset] at mem
    rcases mem with rfl | rfl | mem
    · simp [here]
    · simp [there]
    · simp [guards.waiting v mem]
  have uOut : u ∉ (T.sleepers i).toFinset := fun mem => by
    have := guards.waiting u (by simpa using mem)
    rw [there] at this
    contradiction
  have tOut : t ∉ insert u (T.sleepers i).toFinset := fun mem => by
    rcases Finset.mem_insert.mp mem with same | mem
    · exact different same
    · have := guards.waiting t (by simpa using mem)
      rw [here] at this
      contradiction
  have card := Finset.card_le_card sleeping
  rw [Finset.card_insert_of_notMem tOut, Finset.card_insert_of_notMem uOut,
    List.toFinset_card_of_nodup nodup] at card
  have tokens := guards.tokens
  have length := guards.length
  omega

/-- A task comes in and takes the token, or sleeps. -/
theorem Guards.take (guards : T.Guards i phase) (few : (T.sleepers i).length ≤ nrTasks)
    (kept : ∀ t, t ≠ me → phase' t ≠ .out → phase t ≠ .out)
    (asleep : ∀ t ∈ (T.take i me).sleepers i, phase' t = if t = me then .waiting else phase t) :
    (T.take i me).Guards i phase' := by
  obtain ⟨used, owned, length, tokens, waiting⟩ := guards
  simp only [nrTasks] at few
  have value : int32 ((T.slot i).value - 1) = (T.slot i).value - 1 := int32_of_range (by omega) (by omega)
  have more : entered phase' ⊆ insert me (entered phase) := fun t mem => by
    by_cases same : t = me
    · simp [same]
    · simpa [same] using kept t same (by simpa using mem)
  have card := (Finset.card_le_card more).trans (Finset.card_insert_le _ _)
  refine ⟨by simpa [Table.take] using used, by simpa [Table.take] using owned, ?_, ?_, fun t mem => ?_⟩
  · simp only [Table.take, set_slot, set_sleepers, if_true, value]
    split
    · simp only [List.length_append, List.length_singleton]; omega
    · omega
  · simp only [Table.take, set_slot, if_true, value]
    omega
  · rw [asleep t mem]
    split
    · rfl
    · rename_i other
      simp only [Table.take, set_sleepers, if_true] at mem
      split at mem
      · exact waiting t (by simpa [other] using mem)
      · exact waiting t mem

/-- A task goes out and gives the token back. -/
theorem Guards.give (guards : T.Guards i phase) (few : (T.sleepers i).length ≤ nrTasks)
    (inside : phase me ≠ .out) (left : phase' me = .out) (kept : ∀ t, phase' t ≠ .out → phase t ≠ .out)
    (asleep : ∀ t ∈ (T.give i).sleepers i, phase' t = phase t) : (T.give i).Guards i phase' := by
  obtain ⟨used, owned, length, tokens, waiting⟩ := guards
  simp only [nrTasks] at few
  have value : int32 ((T.slot i).value + 1) = (T.slot i).value + 1 := int32_of_range (by omega) (by omega)
  have less : entered phase' ⊆ (entered phase).erase me := fun t mem => by
    simp only [mem_entered] at mem
    rw [Finset.mem_erase, mem_entered]
    exact ⟨by rintro rfl; exact mem left, kept t mem⟩
  have mine : me ∈ entered phase := by simpa using inside
  have card := Finset.card_le_card less
  rw [Finset.card_erase_of_mem mine] at card
  have some := Finset.card_pos.mpr ⟨_, mine⟩
  refine ⟨by simpa [Table.give] using used, by simpa [Table.give] using owned, ?_, ?_, fun t mem => ?_⟩
  · simp only [Table.give, set_slot, set_sleepers, if_true, value]
    split
    · simp only [List.length_tail]; omega
    · omega
  · simp only [Table.give, set_slot, if_true, value]
    omega
  · rw [asleep t mem]
    simp only [Table.give, set_sleepers, if_true] at mem
    split at mem
    · exact waiting t (List.mem_of_mem_tail mem)
    · exact waiting t mem

/-- Steps elsewhere at most let a task go out. -/
theorem Guards.same (guards : T.Guards i phase) (slot : T'.slot i = T.slot i)
    (sleepers : T'.sleepers i = T.sleepers i) (kept : ∀ t, phase' t ≠ .out → phase t ≠ .out)
    (asleep : ∀ t ∈ T'.sleepers i, phase' t = phase t) : T'.Guards i phase' := by
  obtain ⟨used, owned, length, tokens, waiting⟩ := guards
  have less : entered phase' ⊆ entered phase := fun t mem => by simpa using kept t (by simpa using mem)
  have card := Finset.card_le_card less
  refine ⟨by rwa [slot], by rwa [slot], by rwa [slot, sleepers], by rw [slot]; omega, fun t mem => ?_⟩
  rw [asleep t mem]
  exact waiting t (by rwa [← sleepers])

/-- A step that does not count on a slot and does not destroy it leaves it alone. -/
theorem untouched (step : c.TableStep e T T') (slots : T.slot = c.semaphores) (used : (T.slot i).free = false)
    (owned : (T.slot i).creatorPID ≠ -1) (used' : (T'.slot i).free = false)
    (creator : (T'.slot i).creatorPID = (T.slot i).creatorPID)
    (waits : ∀ semid, e = .syscall (.semWait semid) → c.hit semid ≠ some i)
    (signals : ∀ semid, e = .syscall (.semSignal semid) → c.hit semid ≠ some i) :
    T'.slot i = T.slot i ∧ T'.sleepers i = T.sleepers i := by
  have destroyed {own : SemIndex → Prop} (d : T.Destroyed own T') :
      T'.slot i = T.slot i ∧ T'.sleepers i = T.sleepers i := by
    obtain ⟨M, released, same | ⟨j, _, _, _, same⟩⟩ := d
    · rw [same] at used' ⊢
      refine ⟨(released.slot i).resolve_right fun freed => ?_, by rw [released.sleepers]⟩
      rw [freed.2] at used'
      contradiction
    · by_cases here : i = j
      · subst here
        rw [← creator, same] at owned
        simp [Table.mark] at owned
      · simp only [same, Table.mark, set_slot, set_sleepers, here, if_false] at used' ⊢
        refine ⟨(released.slot i).resolve_right fun freed => ?_, by rw [released.sleepers]⟩
        rw [freed.2] at used'
        contradiction
  unfold Core.TableStep at step
  split at step
  · cases found : c.freeSlot with
    | none => simp [found] at step; simp [step]
    | some j =>
      have free : (c.semaphores j).free = true := by simpa using List.find?_some found
      have other : i ≠ j := by rintro rfl; rw [slots, free] at used; contradiction
      simp [step, found, other]
  · rename_i semid
    cases hit : c.hit semid with
    | none => simp [hit] at step; simp [step]
    | some j =>
      have other : i ≠ j := by rintro rfl; exact waits semid rfl hit
      simp [step, hit, Table.take, other]
  · rename_i semid
    cases hit : c.hit semid with
    | none => simp [hit] at step; simp [step]
    | some j =>
      have other : i ≠ j := by rintro rfl; exact signals semid rfl hit
      simp [step, hit, Table.give, other]
  · exact destroyed step
  · exact destroyed step
  · exact destroyed step
  · simp [step]

end Table

namespace Kernel

variable {k k' : Kernel} {i : SemIndex} {e : Event} {phase phase' : Task → Phase}

theorem Inv.asleep_ne (inv : k.Inv) {t : Task} (asleep : t ∈ k.table.sleepers i) : t ≠ k.core.current :=
  inv.between.not_current ((inv.asleep_iff i t).mp asleep).2.1 nofun nofun

/-- A task that sleeps behind the step and is not the one that made it kept its phase. -/
theorem Inv.follow_asleep (inv' : k'.Inv) {t : Task} (asleep : t ∈ k'.table.sleepers i) (other : t ≠ k.core.current) :
    k.core.follow i e k'.core phase t = phase t := by
  have live := ((inv'.asleep_iff i t).mp asleep).1
  simp [Core.follow, live, other]

/-- A new semaphore with one token. -/
theorem guards_create (inv : k.Inv) (found : k.core.freeSlot = some i)
    (step : k.Step (.syscall (.semCreate 1)) k') : k'.table.Guards i fun _ => .out := by
  have allowed : k.core.Allowed (.syscall (.semCreate 1)) := trivial
  have table := step_table inv allowed step
  simp only [Core.TableStep, found] at table
  have pid : k.core.ct.pid ≠ -1 := inv.good.pid_ne inv.between.live
  constructor <;> simp [table, entered, pid]

theorem guards_step (inv : k.Inv) (inv' : k'.Inv) (allowed : k.core.Allowed e) (step : k.Step e k')
    (guards : k.table.Guards i phase) (follows : Core.Follows i k.core phase e k'.core phase') :
    k'.table.Guards i phase' := by
  have table := step_table inv allowed step
  obtain ⟨waits, signals, used, creator, rfl⟩ := follows
  have others (t : Task) (other : t ≠ k.core.current) (enters : k.core.follow i e k'.core phase t ≠ .out) :
      phase t ≠ .out := by
    unfold Core.follow at enters
    rw [if_neg other] at enters
    split at enters
    · contradiction
    · exact enters
  by_cases take : ∃ semid, e = .syscall (.semWait semid) ∧ k.core.hit semid = some i
  · obtain ⟨semid, rfl, hit⟩ := take
    simp only [Core.TableStep, hit] at table
    rw [table]
    refine guards.take (inv.few i) others fun t asleep => ?_
    have asleep' : t ∈ k'.table.sleepers i := by rwa [table]
    split
    · rename_i same
      have live := ((inv'.asleep_iff i t).mp asleep').1
      have negative : int32 ((k.core.semaphores i).value - 1) < 0 := by
        by_contra positive
        simp only [Table.take, Table.set_sleepers, if_true, table_slot, positive, if_false] at asleep
        exact inv.asleep_ne asleep same
      rw [Core.follow, if_neg (by simp [live]), if_pos same, Core.nextPhase, if_pos hit, if_pos negative]
    · rename_i other
      exact inv'.follow_asleep asleep' other
  by_cases give : ∃ semid, e = .syscall (.semSignal semid) ∧ k.core.hit semid = some i
  · obtain ⟨semid, rfl, hit⟩ := give
    simp only [Core.TableStep, hit] at table
    rw [table]
    have inside := signals semid rfl hit
    have left : k.core.follow i (.syscall (.semSignal semid)) k'.core phase k.core.current = .out := by
      simp [Core.follow, Core.nextPhase, hit]
    refine guards.give (inv.few i) (by simp [inside]) left (fun t enters => ?_) fun t asleep => ?_
    · by_cases same : t = k.core.current
      · simp [same, inside]
      · exact others t same enters
    · refine inv'.follow_asleep (by rwa [table]) (inv.asleep_ne (i := i) ?_)
      simp only [Table.give, Table.set_sleepers, if_true] at asleep
      split at asleep
      · exact List.mem_of_mem_tail asleep
      · exact asleep
  simp only [not_exists, not_and] at take give
  obtain ⟨slot, sleepers⟩ := Table.untouched table rfl guards.used guards.owned used creator take give
  refine guards.same slot sleepers (fun t enters => ?_) fun t asleep => ?_
  · by_cases same : t = k.core.current
    · unfold Core.follow at enters
      rw [if_pos same] at enters
      split at enters
      · contradiction
      · intro out
        rw [out] at enters
        unfold Core.nextPhase at enters
        split at enters <;> simp_all
    · exact others t same enters
  · exact inv'.follow_asleep asleep (inv.asleep_ne (i := i) (by rwa [← sleepers]))

/-- Who takes a sleeper off its slot. -/
theorem Inv.woken (inv : k.Inv) (allowed : k.core.Allowed e) (step : k.Step e k') {t : Task} (asleep : t ∈ k.table.sleepers i)
    (awake : t ∉ k'.table.sleepers i) : k.table.sleepers i = t :: k'.table.sleepers i ∧ (k'.table.slot i).free = false ∧
      ((∃ semid, e = .syscall (.semSignal semid) ∧ k.core.hit semid = some i) ∨ k.core.Destroys i e) := by
  refine (step_table inv allowed step).woken rfl (fun j free => ?_) asleep awake
  apply List.eq_nil_iff_forall_not_mem.mpr
  intro u mem
  have valid := inv.good.valid (.blockedThreads j) u ((inv.asleep_iff j u).mp mem)
  simp only [Core.Valid] at valid
  rw [table_slot, valid] at free
  contradiction

end Kernel

/-- While every step is allowed, a sleeper of a semaphore is taken off by a signal or by
the destroyer of the slot, as the first in the list; and a semaphore that starts from one
lets one task in at a time. -/
theorem exclusive_of_allowed {events : List Event} {s : State}
    (run : RunWhere (fun s e => s.core.Allowed e) events s) :
    (∀ e s' i t, s.core.Allowed e → Step s e s' → s.core.Asleep i t → ¬ s'.core.Asleep i t →
      (∃ ts : List Task, Ring s.links (.head (.blockedThreads i)) ((t :: ts).map .semList) ∧
        Ring s'.links (.head (.blockedThreads i)) (ts.map .semList)) ∧
      ((∃ semid, e = .syscall (.semSignal semid) ∧ s.core.hit semid = some i) ∨ s.core.Destroys i e)) ∧
    ∀ i s₁, s.core.freeSlot = some i → Step s (.syscall (.semCreate 1)) s₁ →
      ∀ events' s' phase, Transition.Path (Watched i) (s₁, fun _ => .out) events' (s', phase) →
        ∀ t u, phase t = .inside → phase u = .inside → t = u := by
  obtain ⟨k, rep, inv, _⟩ := run.invariant Core.Allowed (fun _ => True) (fun _ => trivial)
    (fun _ _ _ _ allowed => allowed) (fun _ _ _ _ _ _ _ _ => trivial)
  refine ⟨fun e s' i t allowed step asleep awake => ?_, fun i s₁ found created events' s' phase path => ?_⟩
  · rw [rep.core] at allowed asleep ⊢
    obtain ⟨k', step', rep', inv'⟩ := rep.advance inv allowed step
    rw [rep'.core] at awake
    have member := (inv.asleep_iff i t).mpr asleep
    obtain ⟨first, used', woken⟩ := inv.woken allowed step' member fun mem => awake ((inv'.asleep_iff i t).mp mem)
    have used : (k.core.semaphores i).free = false := inv.good.valid (.blockedThreads i) t asleep
    refine ⟨⟨k'.table.sleepers i, ?_, rep'.sleepers used'⟩, woken⟩
    rw [← first]
    exact rep.sleepers used
  · have kept := path.invariant (fun x => ∃ k, Refines x.1 k ∧ k.Inv ∧ k.table.Guards i x.2)
      (fun x e x' ⟨k, rep, inv, guards⟩ ⟨allowed, step, follows⟩ => by
        rw [rep.core] at allowed follows
        obtain ⟨k', step', rep', inv'⟩ := rep.advance inv allowed step
        rw [rep'.core] at follows
        exact ⟨k', rep', inv', Kernel.guards_step inv inv' allowed step' guards follows⟩) ?_
    · obtain ⟨k', _, inv', guards⟩ := kept
      exact fun t u here there => guards.exclusive (inv'.placed.nodup _) here there
    · rw [rep.core] at found
      have allowed : k.core.Allowed (.syscall (.semCreate 1)) := trivial
      obtain ⟨k₁, step₁, rep₁, inv₁⟩ := rep.advance inv allowed created
      exact ⟨k₁, rep₁, inv₁, Kernel.guards_create inv found step₁⟩

/-- The child's sleep ends with its father's signal. -/
theorem exclusive_of_signalled : ∃ s s', RunWhere (fun s e => s.core.Allowed e) unblockedSleeper s ∧
    Step s (.syscall (.semSignal 100000)) s' ∧ ¬ s'.core.Asleep 0 2 ∧
    ∃ ts : List Task, Ring s.links (.head (.blockedThreads 0)) ((2 :: ts).map .semList) ∧
      Ring s'.links (.head (.blockedThreads 0)) (ts.map .semList) := by
  obtain ⟨s, run, checked⟩ := executeBoot_run (fun s e => s.core.Allowed e) unblockedSleeper
    (fun s => s.core.Enabled (.syscall (.semSignal 100000)) ∧ s.core.Allowed (.syscall (.semSignal 100000)) ∧
      s.core.Asleep 0 2 ∧ (s.step (.syscall (.semSignal 100000))).toOption.any fun s' => ¬ s'.core.Asleep 0 2)
    (by decide +kernel)
  simp only [decide_eq_true_eq] at run checked
  obtain ⟨enabled, allowed, asleep, woken⟩ := checked
  cases done : s.step (.syscall (.semSignal 100000)) with
  | error f => rw [done] at woken; contradiction
  | ok s' =>
    rw [done] at woken
    simp only [Except.toOption, Option.any_some, decide_eq_true_eq] at woken
    have step : Step s (.syscall (.semSignal 100000)) s' := ⟨enabled, done⟩
    exact ⟨s, s', run, step, woken, ((exclusive_of_allowed run).1 _ s' 0 2 allowed step asleep woken).1⟩

end Zeos
