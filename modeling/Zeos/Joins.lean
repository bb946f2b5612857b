import Zeos.Family

/-! `sys_wait_thread`: when a task that waits for another one goes on, and with what value. -/
namespace Zeos
open Circular Placement Outcome

/-- No live task has the PID any more, and none will get it. -/
def Core.Gone (c : Core) (pid : Int) : Prop := ∀ t, c.live t → (c.task t).pid ≠ pid

/-- The task `w` waits for the one that had the PID in the PCB `bt`: it sleeps while that one
lives, and when it is gone the PCB has another PID. -/
structure Core.Joining (c : Core) (w bt : Task) (pid : Int) : Prop where
  live : c.live w
  kEsp : (c.task w).kEsp = .waitThread bt
  fresh : (pid < c.pidGlobal ∨ c.pidGlobal ≤ 0) ∧ c.pidGlobal < 2147483648
  target : ((c.task w).currentState = .stBlocked ∧ c.live bt ∧ ∀ t, c.live t → ((c.task t).pid = pid ↔ t = bt)) ∨
    ((c.task bt).pid ≠ pid ∧ c.Gone pid)
  positive : 0 ≤ pid

namespace Core.Joining

variable {c : Core} {w bt : Task} {pid : Int} {e : Event} {k k' : Kernel}

theorem act (joining : k.core.Joining w bt pid) (other : w ≠ k.core.current) (act : Kernel.Act c e k k') :
    k'.core.Joining w bt pid := by
  obtain ⟨live, kEsp, fresh, target, positive⟩ := joining
  obtain ⟨kEsp', asleep⟩ := act.others live other
  rw [kEsp] at kEsp'
  have asleep (blocked : (k.core.task w).currentState = .stBlocked) (alive : k.core.live bt) :
      (k'.core.task w).currentState = .stBlocked := by
    rcases asleep blocked with still | ⟨block, _⟩ | ⟨waits, dead⟩ | ⟨i, waits⟩
    · exact still
    · rw [kEsp] at block
      contradiction
    · rw [kEsp, Kont.waitThread.injEq] at waits
      rw [waits, dead] at alive
      contradiction
    · rw [kEsp] at waits
      contradiction
  rcases act.kin with ⟨lives, pidGlobal, pids, _, _⟩ | ⟨fill, born⟩ | ⟨fill, unborn⟩ | left
  · refine ⟨by rwa [lives], kEsp', by rwa [pidGlobal], target.imp ?_ ?_, positive⟩
    · rintro ⟨blocked, alive, named⟩
      simp only [lives, pids]
      exact ⟨asleep blocked alive, alive, named⟩
    · simp only [Gone, lives, pids]
      exact id
  · have own := born.positive
    obtain ⟨lives, _⟩ := born.elder (born.ne live)
    refine ⟨by rwa [lives], kEsp', ?_, ?_, positive⟩
    · rw [born.pidGlobal]
      refine ⟨?_, (int32_isInt _).2⟩
      by_cases room : k.core.pidGlobal < 2147483647
      · rw [int32_of_range (by omega) (by omega)]
        omega
      · have last : k.core.pidGlobal = 2147483647 := by omega
        rw [last]
        exact .inr (by decide)
    · have fresh : (k'.core.task fill).pid ≠ pid := by
        rw [born.child.1]
        omega
      refine target.imp ?_ ?_
      · rintro ⟨blocked, alive, named⟩
        have elder := born.ne alive
        refine ⟨asleep blocked alive, by rwa [(born.elder elder).1], fun t liveT => ?_⟩
        by_cases same : t = fill
        · rw [same]
          exact ⟨fun here => absurd here fresh, fun here => absurd here.symm elder⟩
        · obtain ⟨lives, pids, _⟩ := born.elder same
          rw [pids]
          exact named t (lives ▸ liveT)
      · rintro ⟨reused, gone⟩
        refine ⟨?_, fun t liveT => ?_⟩
        · by_cases same : bt = fill
          · rwa [same]
          · rwa [(born.elder same).2.1]
        · by_cases same : t = fill
          · rwa [same]
          · obtain ⟨lives, pids, _⟩ := born.elder same
            rw [pids]
            exact gone t (lives ▸ liveT)
  · refine ⟨by rwa [unborn.live], kEsp', by rwa [unborn.pidGlobal], target.imp ?_ ?_, positive⟩
    · rintro ⟨blocked, alive, named⟩
      refine ⟨asleep blocked alive, by rwa [unborn.live], fun t liveT => ?_⟩
      rw [unborn.live] at liveT
      rw [unborn.elder liveT]
      exact named t liveT
    · rintro ⟨reused, gone⟩
      refine ⟨?_, fun t liveT => ?_⟩
      · by_cases same : bt = fill
        · rw [same, unborn.copy]
          exact gone _ unborn.alive
        · rwa [unborn.others bt same]
      · rw [unborn.live] at liveT
        rw [unborn.elder liveT]
        exact gone t liveT
  · refine ⟨by rwa [left.live, Function.update_of_ne other], kEsp', by rwa [left.pidGlobal], ?_, positive⟩
    have gone (here : (k'.core.task bt).pid ≠ pid) (unused : ∀ t, k'.core.live t → (k.core.task t).pid ≠ pid) :
        (k'.core.task bt).pid ≠ pid ∧ k'.core.Gone pid := by
      refine ⟨here, fun t liveT => ?_⟩
      rw [left.pid (left.stays liveT).1]
      exact unused t liveT
    have cleared : (k'.core.task k.core.current).pid ≠ pid := by
      rw [left.gone]
      show (-1 : Int) ≠ pid
      omega
    rcases target with ⟨blocked, alive, named⟩ | ⟨reused, unnamed⟩
    · by_cases same : bt = k.core.current
      · refine .inr (gone (by rwa [same]) fun t liveT here => ?_)
        obtain ⟨otherT, liveT⟩ := left.stays liveT
        exact otherT (((named t liveT).mp here).trans same)
      · refine .inl ⟨asleep blocked alive, by rwa [left.live, Function.update_of_ne same], fun t liveT => ?_⟩
        obtain ⟨otherT, liveT⟩ := left.stays liveT
        rw [left.pid otherT]
        exact named t liveT
    · refine .inr (gone ?_ fun t liveT => unnamed t (left.stays liveT).2)
      by_cases same : bt = k.core.current
      · rwa [same]
      · rwa [left.pid same]

end Core.Joining

namespace Kernel

variable {k k' : Kernel} {e : Event} {w bt : Task} {pid : Int}

/-- The call falls asleep. -/
theorem Inv.joining (inv : k.Inv) (live : k.core.live bt) (named : (k.core.task bt).pid = pid) (other : bt ≠ k.core.current)
    (allowed : k.core.Allowed (.syscall (.waitThread pid))) (step : k.Step (.syscall (.waitThread pid)) k') :
    k'.core.Joining k.core.current bt pid := by
  obtain ⟨⟨user, task, _⟩, done⟩ := step
  have call := inv.inCall user task
  have alone (t : Task) (liveT : k.core.live t) : (k.core.task t).pid = pid ↔ t = bt := by
    constructor
    · intro same
      exact inv.good.distinct t bt liveT live (same.trans named.symm)
    · rintro rfl
      exact named
  have found : k.core.taskOf pid = some bt := by
    cases result : k.core.taskOf pid with
    | none =>
      have := List.find?_eq_none.mp result bt (List.mem_finRange bt)
      simp [named] at this
    | some u =>
      have here : (k.core.task u).pid = pid := by simpa using List.find?_some result
      rw [(alone u (allowed u result)).mp here]
  have sleeps : k' = (k.park (.waitThread bt)).dispatch := by
    cases done
    simp [sysWaitThread, found]
  have parked := inv.toSound.park call (.waitThread bt) trivial fun h waits => by cases waits; exact .inl live
  have ready := parked.next_ready
  have kin := kin_dispatch (k.park (.waitThread bt))
  obtain ⟨cr3, tickCounter, core⟩ := dispatch_core (k.park (.waitThread bt))
  have pids (t : Task) : (k'.core.task t).pid = (k.core.task t).pid := by
    rw [sleeps, kin.pid, park_core, Core.setTask_task]
    split
    · rename_i same
      rw [same]
    · rfl
  have lives : k'.core.live = k.core.live := by rw [sleeps, kin.live, park_core, Core.setTask_live]
  have slept : (k'.core.task k.core.current).kEsp = .waitThread bt ∧
      (k'.core.task k.core.current).currentState = .stBlocked := by
    have awake : (k.park (.waitThread bt)).next ≠ k.core.current := fun same => by
      rw [same, yield_task] at ready
      simp [Core.ct] at ready
    rw [sleeps, core, Core.setTask_task, if_neg (Ne.symm awake)]
    simp [yield_task, Core.ct]
  refine ⟨by rw [lives]; exact call.live, slept.1, ?_, .inl ⟨slept.2, by rwa [lives], fun t liveT => ?_⟩, ?_⟩
  · have fresh := inv.good.fresh
    rw [sleeps, kin.pidGlobal, park_core, Core.setTask_pidGlobal]
    refine ⟨?_, fresh.1⟩
    by_cases positive : 0 < k.core.pidGlobal
    · rw [← named]
      exact .inl (fresh.2 positive bt live)
    · exact .inr (by omega)
  · rw [pids]
    exact alone t (lives ▸ liveT)
  · rw [← named]
    by_cases idle : bt = idleTask
    · rw [idle, inv.good.idle.2.1]
    · have := inv.good.positive bt live idle
      omega

/-- It sleeps on as long as it is not the one that goes on. -/
theorem Joining.step (joining : k.core.Joining w bt pid) (inv : k.Inv) (allowed : k.core.Allowed e)
    (step : k.Step e k') (elsewhere : e = .resume → k.core.current ≠ w) : k'.core.Joining w bt pid := by
  have other : w ≠ k.core.current := by
    rintro rfl
    have inside : ¬ k.core.InUser := fun user => by
      rw [Core.InUser, Core.ct, joining.kEsp] at user
      contradiction
    obtain ⟨enabled, _⟩ := step
    cases e with
    | resume => exact elsewhere rfl rfl
    | syscall call => exact inside enabled.1
    | _ => exact inside enabled
  exact inv.keeps (fun k => k.core.Joining w bt pid) allowed step
    (fun m m' mine act joining => joining.act (by rwa [mine]) act) joining

/-- What it returns when it goes on. -/
theorem Joining.resumed (joining : k.core.Joining k.core.current bt pid) (inv : k.Inv) (step : k.Step .resume k') :
    k.core.Gone pid ∧ k'.core.ct.eax = some (k.core.task bt).pid ∧ (k.core.task bt).pid ≠ pid := by
  obtain ⟨_, done⟩ := step
  have kEsp : k.core.ct.kEsp = .waitThread bt := joining.kEsp
  rcases joining.target with ⟨asleep, _⟩ | ⟨reused, gone⟩
  · have awake := inv.between.state
    rw [Core.ct, asleep] at awake
    simp at awake
  · refine ⟨gone, ?_, reused⟩
    change k.resume = .ok k' at done
    unfold Kernel.resume at done
    rw [kEsp] at done
    cases done
    by_cases here : bt = k.core.current <;> simp [Core.sysReturn, Core.ct, here]

end Kernel

/-- The call of `w` has not gone on yet. -/
def StillJoining (w : Task) (s : State) (e : Event) : Prop :=
  s.core.Allowed e ∧ (e = .resume → s.core.current ≠ w)

/-- `task1` waits for its child, which exits. -/
theorem joined_child : ∃ s s₁ s₂ s₃, RunWhere (fun s e => s.core.Allowed e) [.syscall .fork] s ∧
    s.core.live 2 ∧ (s.core.task 2).pid = 1000 ∧ 2 ≠ s.core.current ∧
    s.core.Allowed (.syscall (.waitThread 1000)) ∧ Step s (.syscall (.waitThread 1000)) s₁ ∧
    Transition.Guarded (StillJoining s.core.current) Step s₁ (.syscall .exit) s₂ ∧
    s₂.core.current = s.core.current ∧ Step s₂ .resume s₃ ∧ s₃.core.ct.eax = some (-1) := by
  obtain ⟨s, run, checked⟩ := executeBoot_run (fun s e => s.core.Allowed e) [.syscall .fork]
    (fun s => (s.core.live 2 ∧ (s.core.task 2).pid = 1000 ∧ 2 ≠ s.core.current ∧
      s.core.Allowed (.syscall (.waitThread 1000)) ∧ s.core.Enabled (.syscall (.waitThread 1000))) ∧
      (s.step (.syscall (.waitThread 1000))).toOption.any fun s₁ => s₁.core.Enabled (.syscall .exit) ∧
        (s₁.step (.syscall .exit)).toOption.any fun s₂ => (s₂.core.current = s.core.current ∧ s₂.core.Enabled .resume) ∧
          (s₂.step .resume).toOption.any fun s₃ => s₃.core.ct.eax = some (-1)) (by decide +kernel)
  simp only [decide_eq_true_eq] at run checked
  obtain ⟨⟨live, named, other, allowed, enabled⟩, rest⟩ := checked
  obtain ⟨s₁, called, rest⟩ := Step.of_any enabled rest
  simp only [decide_eq_true_eq] at rest
  obtain ⟨s₂, exited, rest⟩ := Step.of_any rest.1 rest.2
  simp only [decide_eq_true_eq] at rest
  obtain ⟨s₃, resumed, rest⟩ := Step.of_any rest.1.2 rest.2
  rename_i back
  exact ⟨s, s₁, s₂, s₃, run, live, named, other, allowed, called, ⟨⟨trivial, fun same => by cases same⟩, exited⟩,
    back.1.1, resumed, by simpa using rest⟩

/-- `sys_wait_thread` of a live task goes on behind the exit of that task, and does not
return its PID. -/
theorem misnamed_of_joined {events events' : List Event} {s s₁ s₂ s₃ : State} {t : Task} {pid : Int}
    (run : RunWhere (fun s e => s.core.Allowed e) events s) (live : s.core.live t) (named : (s.core.task t).pid = pid)
    (other : t ≠ s.core.current) (allowed : s.core.Allowed (.syscall (.waitThread pid)))
    (called : Step s (.syscall (.waitThread pid)) s₁)
    (waits : Transition.Path (Transition.Guarded (StillJoining s.core.current) Step) s₁ events' s₂)
    (mine : s₂.core.current = s.core.current) (resumed : Step s₂ .resume s₃) :
    s₂.core.Gone pid ∧ ∃ v, s₃.core.ct.eax = some v ∧ v ≠ pid := by
  obtain ⟨k, rep, inv, _⟩ := run.invariant Core.Allowed (fun _ => True) (fun _ => trivial)
    (fun _ _ _ _ allowed => allowed) (fun _ _ _ _ _ _ _ _ => trivial)
  rw [rep.core] at live named other allowed waits mine
  obtain ⟨k₁, step₁, rep₁, inv₁⟩ := rep.advance inv allowed called
  have joining := inv.joining live named other allowed step₁
  have kept := waits.invariant (fun s => ∃ m, Refines s m ∧ m.Inv ∧ m.core.Joining k.core.current t pid)
    (fun s e s' ⟨m, rep, inv, joining⟩ ⟨⟨allowed, elsewhere⟩, step⟩ => by
      rw [rep.core] at allowed elsewhere
      obtain ⟨m', step', rep', inv'⟩ := rep.advance inv allowed step
      exact ⟨m', rep', inv', Kernel.Joining.step joining inv allowed step' elsewhere⟩)
    ⟨k₁, rep₁, inv₁, joining⟩
  obtain ⟨k₂, rep₂, inv₂, joining⟩ := kept
  rw [rep₂.core] at mine ⊢
  have allowed : k₂.core.Allowed .resume := trivial
  obtain ⟨k₃, step₃, rep₃, _⟩ := rep₂.advance inv₂ allowed resumed
  rw [← mine] at joining
  obtain ⟨gone, eax, different⟩ := Kernel.Joining.resumed joining inv₂ step₃
  rw [rep₃.core]
  exact ⟨gone, _, eax, different⟩

/-- The child had the PID 1000. -/
theorem misnamed_child : ∃ s s₁ s₂ s₃, Run [.syscall .fork] s ∧ s.core.live 2 ∧ (s.core.task 2).pid = 1000 ∧
    2 ≠ s.core.current ∧ Step s (.syscall (.waitThread 1000)) s₁ ∧ Step s₁ (.syscall .exit) s₂ ∧
    s₂.core.current = s.core.current ∧ Step s₂ .resume s₃ ∧ s₃.core.ct.eax = some (-1) := by
  obtain ⟨s, s₁, s₂, s₃, run, live, named, other, _, called, waits, mine, resumed, value⟩ := joined_child
  exact ⟨s, s₁, s₂, s₃, run.run, live, named, other, called, waits.2, mine, resumed, value⟩

theorem misnamed_of_child : ∃ s s₁ s₂ s₃, RunWhere (fun s e => s.core.Allowed e) [.syscall .fork] s ∧
    Step s (.syscall (.waitThread 1000)) s₁ ∧ Step s₁ (.syscall .exit) s₂ ∧ Step s₂ .resume s₃ ∧
    s₂.core.Gone 1000 ∧ ∃ v, s₃.core.ct.eax = some v ∧ v ≠ 1000 := by
  obtain ⟨s, s₁, s₂, s₃, run, live, named, other, allowed, called, waits, mine, resumed, _⟩ := joined_child
  exact ⟨s, s₁, s₂, s₃, run, called, waits.2, resumed,
    misnamed_of_joined run live named other allowed called (.single waits) mine resumed⟩

end Zeos
