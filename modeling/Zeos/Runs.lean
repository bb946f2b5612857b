import Zeos.Refinement

/-! What boot leaves behind, and what the runs from there keep: a run of the pointer
lists whose steps are allowed is a run of the queues. -/
namespace Zeos
open Circular Placement Outcome

/-- The state behind `init_task1`. -/
@[irreducible] def booted : State := initSystem.toOption.getD coldStart

theorem initSystem_eq : initSystem = .ok booted := by
  have done : initSystem.isOk = true := by decide +kernel
  unfold booted
  cases result : initSystem with
  | ok s => rfl
  | error e => rw [result] at done; contradiction

/-- The queues behind boot. -/
def bootQueues : Queues
  | .freequeue => [2, 3, 4, 5, 6, 7, 8, 9]
  | _ => []

def bootCore (ram : Nat → Nat → UInt8) : Core :=
  { booted.core with mm := { booted.core.mm with ram } }

def bootKernel (ram : Nat → Nat → UInt8) : Kernel := ⟨bootQueues, bootCore ram⟩

theorem boot_eq (ram : Nat → Nat → UInt8) : boot ram = .ok (booted.setCore (bootCore ram)) := by
  rw [boot, initSystem_eq]
  rfl

section Booted

variable (ram : Nat → Nat → UInt8)

theorem booted_core : (∀ t, booted.core.live t = decide (t = idleTask ∨ t = task1)) ∧
    booted.core.task idleTask = ⟨0, some 1, 0, 0, none, none, .stReady, .user, none⟩ ∧
    booted.core.task task1 = ⟨1, some 2, 10, 0, some 2, none, .stRun, .user, none⟩ ∧
    booted.core.current = task1 ∧ booted.core.pidGlobal = 1000 ∧
    ∀ i, (booted.core.semaphores i).free = true := by
  decide +kernel

theorem boot_live (t : Task) : (bootCore ram).live t = decide (t = idleTask ∨ t = task1) :=
  booted_core.1 t

theorem boot_idle : (bootCore ram).task idleTask = ⟨0, some 1, 0, 0, none, none, .stReady, .user, none⟩ :=
  booted_core.2.1

theorem boot_task1 :
    (bootCore ram).task task1 = ⟨1, some 2, 10, 0, some 2, none, .stRun, .user, none⟩ :=
  booted_core.2.2.1

theorem boot_current : (bootCore ram).current = task1 :=
  booted_core.2.2.2.1

theorem boot_pidGlobal : (bootCore ram).pidGlobal = 1000 :=
  booted_core.2.2.2.2.1

theorem boot_free (i : SemIndex) : ((bootCore ram).semaphores i).free = true :=
  booted_core.2.2.2.2.2 i

theorem live_boot {t : Task} (live : (bootCore ram).live t) : t = idleTask ∨ t = task1 := by
  simpa [boot_live] using live

theorem boot_inv : (bootKernel ram).Inv := by
  have idle := boot_idle ram
  have one := boot_task1 ram
  have current := boot_current ram
  have pidGlobal := boot_pidGlobal ram
  have liveness := boot_live ram
  refine ⟨⟨?_, ?_⟩, ?_⟩
  · constructor <;> simp only [bootKernel]
    case saved =>
      intro t live
      rcases live_boot ram live with rfl | rfl <;> simp [idle, one, Core.Fits]
    case valid =>
      intro h t home
      cases h <;> simp only [Core.Home] at home
      case fills u => rcases live_boot ram home.1 with rfl | rfl <;> simp [idle, one] at home
      case waitList u => rcases live_boot ram home.1 with rfl | rfl <;> simp [idle, one] at home
      case blockedThreads i => rcases live_boot ram home.1 with rfl | rfl <;> simp [idle, one] at home
      all_goals trivial
    case idle => simp [idle, liveness]
    case positive =>
      intro t live other
      rcases live_boot ram live with rfl | rfl
      · contradiction
      · simp [one]
    case distinct =>
      intro t u live liveU same
      rcases live_boot ram live with rfl | rfl <;> rcases live_boot ram liveU with rfl | rfl <;>
        simp [idle, one] at same ⊢
    case fresh =>
      refine ⟨by rw [pidGlobal]; decide, fun _ t live => ?_⟩
      rcases live_boot ram live with rfl | rfl <;> simp [idle, one, pidGlobal]
    all_goals
      intro t live
      rcases live_boot ram live with rfl | rfl <;> simp [idle, one, current]
  · refine ⟨fun h => by cases h <;> simp [bootKernel, bootQueues], fun h t => ?_⟩
    have dead : t ∈ bootQueues .freequeue ↔ (bootCore ram).live t = false := by
      rw [liveness]
      revert t
      decide +kernel
    by_cases live : (bootCore ram).live t
    · cases h
      case freequeue => simp [bootKernel, dead, Core.Home]
      all_goals
        rcases live_boot ram live with rfl | rfl <;>
          simp [bootKernel, bootQueues, Core.Home, idle, one, liveness]
    · cases h <;> simp [bootKernel, Core.Home, live, dead] <;> simp [bootQueues]
  · refine ⟨?_, ?_⟩ <;> simp [bootKernel, current, liveness, Core.ct, one]

theorem boot_refines : Refines (booted.setCore (bootCore ram)) (bootKernel ram) := by
  have lists : Ring booted.links (.head .freequeue) ((bootQueues .freequeue).map .list) ∧
      Ring booted.links (.head .readyqueue) [] ∧ Ring booted.links (.head .blocked) [] ∧
      Ring booted.links (.head .readBlocked) [] := by decide +kernel
  have own : ∀ t : Task, t = idleTask ∨ t = task1 → Ring booted.links (.head (.fills t)) [] ∧
      Ring booted.links (.head (.waitList t)) [] := by decide +kernel
  have root : ∀ t : Task, t = idleTask ∨ t = task1 → booted.links.next (.parentAnchor t) = .null ∧
      booted.links.prev (.parentAnchor t) = .null := by decide +kernel
  refine ⟨rfl, Core.valid_main _, ⟨fun h valid => ?_, fun h j _ _ different => ?_⟩, fun t live _ => ?_⟩
  · cases h
    case fills t =>
      refine (own t (valid.elim (live_boot ram) fun same => ?_)).1
      exact .inr (same.trans (boot_current ram))
    case waitList t =>
      refine (own t (valid.elim (live_boot ram) fun same => ?_)).2
      exact .inr (same.trans (boot_current ram))
    case blockedThreads i =>
      rw [Core.Valid, bootKernel, boot_free] at valid
      contradiction
    case freequeue => exact lists.1
    case readyqueue => exact lists.2.1
    case blocked => exact lists.2.2.1
    case readBlocked => exact lists.2.2.2
  · cases h <;> cases j <;> simp [bootKernel, bootQueues, Head.anchor] at different ⊢ <;>
      exact Ne.symm different
  · exact ⟨(root t (live_boot ram live)).1, (root t (live_boot ram live)).2, fun u _ => by
      simp [bootKernel, bootQueues]⟩

end Booted

/-- An allowed step of the pointer lists is matched by the queues. -/
theorem Refines.advance {s s' : State} {k : Kernel} {e : Event} (rep : Refines s k) (inv : k.Inv)
    (allowed : k.core.Allowed e) (step : Step s e s') : ∃ k', k.Step e k' ∧ Refines s' k' ∧ k'.Inv := by
  obtain ⟨enabled, done⟩ := step
  rw [rep.core] at enabled
  obtain ⟨k', done', rep'⟩ := (rep.step inv allowed enabled).of_ok done
  exact ⟨k', ⟨enabled, done'⟩, rep', Kernel.step_inv inv allowed ⟨enabled, done'⟩⟩

/-- A step of the queues is one of the pointer lists. -/
theorem Refines.realize {s : State} {k k' : Kernel} {e : Event} (rep : Refines s k) (inv : k.Inv) (allowed : k.core.Allowed e)
    (step : k.Step e k') : ∃ s', Step s e s' ∧ Refines s' k' := by
  obtain ⟨enabled, done⟩ := step
  have agree := rep.step inv allowed enabled
  cases result : s.step e with
  | ok s' =>
    obtain ⟨m, done', rep'⟩ := agree.of_ok result
    rw [done] at done'
    cases done'
    exact ⟨s', ⟨by rw [rep.core]; exact enabled, result⟩, rep'⟩
  | error f =>
    have failed := agree.of_error result
    rw [done] at failed
    contradiction

/-- The steps of the queues on a condition. -/
abbrev Kernel.StepWhere (condition : Core → Event → Prop) : Kernel → Event → Kernel → Prop :=
  Transition.Guarded (fun k e => condition k.core e) Kernel.Step

variable {events : List Event} {s : State}

/-- What every step on the condition keeps is kept on every path, given that such a step
that succeeds is allowed. -/
theorem Refines.follow (condition : Core → Event → Prop) (property : Kernel → Prop)
    (allowed : ∀ s k e s', Refines s k → k.Inv → property k → condition k.core e → Step s e s' → k.core.Allowed e)
    (step : ∀ k e k', k.Inv → k'.Inv → property k → condition k.core e → k.core.Allowed e → k.Step e k' → property k')
    {s s' : State} {k : Kernel} (rep : Refines s k) (inv : k.Inv) (initial : property k)
    (path : Transition.Path (Transition.Guarded (fun s e => condition s.core e) Step) s events s') :
    ∃ k, Refines s' k ∧ k.Inv ∧ property k := by
  obtain ⟨k, _, related⟩ := path.simulate (fun s (k : Kernel) => Refines s k ∧ k.Inv ∧ property k)
    (fun s e s' k ⟨rep, inv, holds⟩ ⟨on, step'⟩ => show ∃ k', Kernel.StepWhere condition k e k' ∧ _ from by
      have on : condition k.core e := by rw [← rep.core]; exact on
      have safe := allowed s k e s' rep inv holds on step'
      obtain ⟨k', done, rep', inv'⟩ := rep.advance inv safe step'
      exact ⟨k', ⟨on, done⟩, rep', inv', step k e k' inv inv' holds on safe done⟩)
    ⟨rep, inv, initial⟩
  exact ⟨k, related⟩

/-- What boot establishes and every step on the condition keeps, given that it makes the
steps allowed, holds behind every run on the condition. -/
theorem RunWhere.invariant (condition : Core → Event → Prop) (property : Kernel → Prop)
    (initial : ∀ ram, property (bootKernel ram))
    (allowed : ∀ k e, k.Inv → property k → condition k.core e → k.core.Allowed e)
    (step : ∀ k e k', k.Inv → k'.Inv → property k → condition k.core e → k.Step e k' → property k')
    (run : RunWhere (fun s e => condition s.core e) events s) :
    ∃ k, Refines s k ∧ k.Inv ∧ property k := by
  obtain ⟨ram, s₀, started, path⟩ := run
  rw [boot_eq, Except.ok.injEq] at started
  subst started
  exact (boot_refines ram).follow condition property
    (fun _ k e _ _ inv holds on _ => allowed k e inv holds on)
    (fun k e k' inv inv' holds on _ done => step k e k' inv inv' holds on done) (boot_inv ram) (initial ram) path

/-- The last step of a run, behind a run. -/
theorem RunWhere.last {allowed : State → Event → Prop} {e : Event} (run : RunWhere allowed events s)
    (last : events.getLast? = some e) :
    ∃ before s₀, RunWhere allowed before s₀ ∧ allowed s₀ e ∧ Step s₀ e s := by
  obtain ⟨ram, s₁, started, path⟩ := run
  cases path with
  | nil => contradiction
  | snoc first step =>
    rw [List.getLast?_concat, Option.some.injEq] at last
    subst last
    exact ⟨_, _, ⟨ram, s₁, started, first⟩, step⟩

end Zeos
