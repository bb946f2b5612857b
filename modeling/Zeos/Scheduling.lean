import Zeos.Runs

/-! The lists of the scheduler behind any number of steps. -/
namespace Zeos
open Circular Placement Outcome

/-- The lists of the scheduler. -/
def Head.main : List Head := [.freequeue, .readyqueue, .blocked, .readBlocked]

/-- The four lists are rings. Every PCB but the idle one and the running one is linked
once, in one of them, and no live task is in the free queue. -/
def State.Scheduled (s : State) : Prop :=
  ∃ lists : Head → List Task,
    (∀ h ∈ Head.main, Ring s.links (.head h) ((lists h).map .list)) ∧
    (∀ t, t ≠ idleTask → t ≠ s.core.current → (Head.main.flatMap lists).count t = 1) ∧
    ∀ t ∈ lists .freequeue, s.core.live t = false

/-- Two tasks 1000 and 1001: the second joins the first, is woken by its father and
exits; then the first one's exit wakes it again. -/
def joinedTwice : List Event :=
  [.syscall .fork, .syscall .fork] ++ List.replicate 20 .clock ++
    [.syscall (.waitThread 1000), .syscall (.unblock 1001), .syscall .block, .resume, .syscall .exit,
     .resume, .syscall (.unblock 1000), .resume, .syscall .exit, .resume]

theorem Ring.prev_ne_self {L : Links Node} {h n : Node} {xs : List Node} (ring : Ring L h xs) (mem : n ∈ xs) :
    L.prev n ≠ n := by
  obtain ⟨ys, zs, rfl⟩ := List.append_of_mem mem
  have before := ring.prev_inner_mem
  have nodup := ring.nodup
  intro same
  rw [same] at before
  simp only [List.mem_cons, List.mem_append, List.nodup_cons, List.nodup_append] at before nodup
  grind

/-- The PCB of task 1001 ends linked to itself. -/
theorem scheduled_joinedTwice :
    ∃ s, Run joinedTwice s ∧ s.core.InUser ∧ ¬ s.Scheduled := by
  obtain ⟨s, run, checked⟩ := executeBoot_run (fun _ _ => true) joinedTwice
    (fun s => s.core.InUser ∧ s.core.current ≠ 3 ∧ s.links.prev (.list 3) = .list 3) (by decide +kernel)
  simp only [decide_eq_true_eq] at checked
  refine ⟨s, run.run, checked.1, ?_⟩
  rintro ⟨lists, rings, once, _⟩
  have linked : 3 ∈ Head.main.flatMap lists := by
    have := once 3 (by decide) (Ne.symm checked.2.1)
    rw [← List.count_pos_iff]
    omega
  obtain ⟨h, main, mem⟩ := List.mem_flatMap.mp linked
  exact Ring.prev_ne_self (rings h main) (List.mem_map_of_mem mem) checked.2.2

namespace Kernel

variable {k : Kernel}

theorem Inv.count (inv : k.Inv) {t : Task} (idle : t ≠ idleTask) (current : t ≠ k.core.current) :
    (Head.main.flatMap k.queues).count t = 1 := by
  have counted (h : Head) : (k.queues h).count t = if k.queues h |>.contains t then 1 else 0 := by
    simp [(inv.placed.nodup h).count]
  have inside (h : Head) : (k.queues h).contains t = true ↔ k.core.Home none h t := by
    simp [inv.placed.mem]
  simp only [Head.main, List.flatMap_cons, List.flatMap_nil, List.append_nil, List.count_append, counted,
    inside, Core.Home]
  by_cases live : k.core.live t
  · have stopped : (k.core.task t).currentState ≠ .stRun := fun run => current (inv.good.running t live run)
    have started := inv.good.started t live
    cases state : (k.core.task t).currentState <;> simp_all
  · simp [live]

theorem Inv.scheduled (inv : k.Inv) {s : State} (rep : Refines s k) : s.Scheduled := by
  refine ⟨k.queues, fun h main => ?_, fun t idle current => ?_, fun t free => ?_⟩
  · have ring := rep.rings.ring h (rep.main h (by revert h; simp [Head.main, Head.anchor]))
    have list : h.anchor = .list := by revert h; simp [Head.main, Head.anchor]
    rwa [list] at ring
  · rw [rep.core] at current
    exact inv.count idle current
  · rw [rep.core]
    exact ((inv.placed.mem .freequeue t).mp free).1

/-- The failures left: page faults and accesses outside the memory tables. -/
def InMemory (f : Fault) : Prop := ∃ m, f = .memory m

theorem memory_fails {α : Type} (x : Except MemFault α) : Fails InMemory (memory x) :=
  .mapError x fun m => ⟨m, rfl⟩

theorem exitTail_fails : Fails InMemory k.exitTail := by
  refine .bind (memory_fails _) fun core _ => .bind ?_ fun k' _ => .ok _
  unfold leaveFather
  split
  · exact .ok _
  · split
    · exact .ok _
    · exact .error ⟨_, rfl⟩

theorem exitSlots_fails (slots : List SemIndex) (k : Kernel) : Fails InMemory (k.exitSlots slots) := by
  induction slots generalizing k with
  | nil => exact exitTail_fails
  | cons j slots ih =>
    unfold exitSlots
    split
    · split
      · exact ih _
      · exact .ok _
    · exact ih k

theorem readWait_fails (b : DWord) (maxchars : Int) : Fails InMemory (k.readWait b maxchars) := by
  unfold readWait
  split
  · exact .ok _
  · exact .bind (memory_fails _) fun _ _ => .ok _

theorem syscall_fails (sound : k.Sound none) (request : Syscall) (allowed : k.core.Allowed (.syscall request)) :
    Fails InMemory (k.syscall request) := by
  cases request with
  | fork =>
    simp only [syscall, sysFork]
    split
    · exact .ok _
    · refine .bind (memory_fails _) fun r _ => ?_
      split <;> exact .ok _
  | createThread function stack parameter =>
    simp only [syscall, sysCreateThread]
    split
    · exact .ok _
    split
    · exact .ok _
    split
    · exact .ok _
    · exact .bind (memory_fails _) fun _ _ => .ok _
  | exit => exact exitSlots_fails _ k
  | read b maxchars =>
    simp only [syscall, sysRead]
    split
    · exact .ok _
    split
    · exact .ok _
    split
    · exact .ok _
    split
    · exact .ok _
    · exact readWait_fails _ _
  | dynMem numPags => exact .bind (memory_fails _) fun _ _ => .ok _
  | semSignal semid =>
    simp only [syscall, sysSemSignal]
    split
    · exact .ok _
    rename_i user
    cases found : k.core.slotOf semid with
    | none => exact .ok _
    | some i =>
      dsimp only
      split
      · exact .ok _
      rename_i free
      split
      · rename_i waiting
        obtain ⟨t, sleeper⟩ := allowed i
          (Core.hit_eq_some.mpr ⟨Int.not_lt.mp user, found, by simpa using free⟩) waiting
        have mem := (sound.placed.mem (.blockedThreads i) t).mpr sleeper
        simp only [setSem_queues]
        split
        · rename_i none; rw [none] at mem; contradiction
        · exact .ok _
      · exact .ok _
  | _ => exact .ok _

theorem Inv.resume_fails (inv : k.Inv) : Fails InMemory k.resume := by
  have fits := inv.good.saved _ inv.between.live
  unfold Kernel.resume
  cases kEsp : k.core.ct.kEsp with
  | read b maxchars => exact readWait_fails b maxchars
  | semDestroy i semid caller =>
    simp only [goOn]
    split
    · exact .ok _
    · cases caller with
      | syscall => exact .ok _
      | exit j => exact exitSlots_fails _ _
  | exited =>
    rw [Core.ct] at kEsp
    simp [kEsp, Core.Fits] at fits
  | _ => exact .ok _

/-- An allowed step does not meet a broken list. -/
theorem Inv.step_fails {e : Event} (inv : k.Inv) (allowed : k.core.Allowed e) : Fails InMemory (k.step e) := by
  cases e with
  | clock => exact .ok _
  | key readInp => exact .ok _
  | syscall request => exact syscall_fails inv.toSound request allowed
  | resume => exact inv.resume_fails

end Kernel

/-- While every step is allowed, the lists of the scheduler stay in order, and no allowed
step meets a broken list. -/
theorem scheduled_of_allowed {events : List Event} {s : State}
    (run : RunWhere (fun s e => s.core.Allowed e) events s) :
    s.Scheduled ∧ ∀ e, s.core.Enabled e → s.core.Allowed e →
      s.step e ≠ .error .wild ∧ s.step e ≠ .error .endless := by
  obtain ⟨k, rep, inv, _⟩ := run.invariant Core.Allowed (fun _ => True) (fun _ => trivial)
    (fun _ _ _ _ allowed => allowed) (fun _ _ _ _ _ _ _ _ => trivial)
  refine ⟨inv.scheduled rep, fun e enabled allowed => ?_⟩
  rw [rep.core] at enabled allowed
  have agree := rep.step inv allowed enabled
  have fails := inv.step_fails allowed
  constructor <;> intro failed
  · obtain ⟨m, h⟩ := fails _ (agree.of_error failed); cases h
  · obtain ⟨m, h⟩ := fails _ (agree.of_error failed); cases h

/-- A child is forked, waited for and exits. -/
theorem scheduled_of_joined : ∃ s, RunWhere (fun s e => s.core.Allowed e)
    [.syscall .fork, .syscall (.waitThread 1000), .syscall .exit, .resume] s ∧ s.Scheduled := by
  obtain ⟨s, run, _⟩ := executeBoot_run (fun s e => s.core.Allowed e)
    [.syscall .fork, .syscall (.waitThread 1000), .syscall .exit, .resume] (fun _ => true) (by decide +kernel)
  have run : RunWhere (fun s e => s.core.Allowed e)
      [.syscall .fork, .syscall (.waitThread 1000), .syscall .exit, .resume] s := by simpa using run
  exact ⟨s, run, (scheduled_of_allowed run).1⟩

end Zeos
