import Zeos.Preservation

/-! What the scheduler leaves alone: memory, semaphores, and who lives under which PID
with which directory and heap counter. -/
namespace Zeos

/-- The two cores differ in who runs, sleeps or waits where only. -/
structure Core.Frame (c c' : Core) : Prop where
  live : c'.live = c.live
  semaphores : c'.semaphores = c.semaphores
  mm : c'.mm = c.mm
  pidGlobal : c'.pidGlobal = c.pidGlobal
  semIDglobal : c'.semIDglobal = c.semIDglobal
  pid : ∀ t, (c'.task t).pid = (c.task t).pid
  dir : ∀ t, (c'.task t).dirPagesBaseAddr = (c.task t).dirPagesBaseAddr
  myHeap : ∀ t, (c'.task t).myHeap = (c.task t).myHeap
  root : ∀ t, (c.task t).pare = none → (c'.task t).pare = none

namespace Core.Frame

theorem refl (c : Core) : c.Frame c := ⟨rfl, rfl, rfl, rfl, rfl, fun _ => rfl, fun _ => rfl, fun _ => rfl, fun _ => id⟩

theorem trans {c c' c'' : Core} (first : c.Frame c') (second : c'.Frame c'') : c.Frame c'' where
  live := second.live.trans first.live
  semaphores := second.semaphores.trans first.semaphores
  mm := second.mm.trans first.mm
  pidGlobal := second.pidGlobal.trans first.pidGlobal
  semIDglobal := second.semIDglobal.trans first.semIDglobal
  pid t := (second.pid t).trans (first.pid t)
  dir t := (second.dir t).trans (first.dir t)
  myHeap t := (second.myHeap t).trans (first.myHeap t)
  root t := second.root t ∘ first.root t

theorem setTask (c : Core) (t : Task) (f : TaskStruct → TaskStruct)
    (keeps : ∀ ts, (f ts).pid = ts.pid ∧ (f ts).dirPagesBaseAddr = ts.dirPagesBaseAddr ∧
      (f ts).myHeap = ts.myHeap ∧ (ts.pare = none → (f ts).pare = none)) : c.Frame (c.setTask t f) := by
  refine ⟨rfl, rfl, rfl, rfl, rfl, fun u => ?_, fun u => ?_, fun u => ?_, fun u => ?_⟩ <;>
    rw [setTask_task] <;> split <;> simp_all

end Core.Frame

namespace Kernel

variable {k : Kernel} {t : Task}

theorem frame_setTask (k : Kernel) (t : Task) (f : TaskStruct → TaskStruct)
    (keeps : ∀ ts, (f ts).pid = ts.pid ∧ (f ts).dirPagesBaseAddr = ts.dirPagesBaseAddr ∧
      (f ts).myHeap = ts.myHeap ∧ (ts.pare = none → (f ts).pare = none)) : k.core.Frame (k.setTask t f).core :=
  .setTask k.core t f keeps

theorem frame_wake (k : Kernel) (t : Task) : k.core.Frame (k.wake t).core := by
  rw [wake_core]; exact .setTask _ _ _ (by simp)

theorem frame_move (k : Kernel) (t : Task) (h : Head) : k.core.Frame (k.move t h).core := by
  rw [move_core]; exact .setTask _ _ _ (by simp)

theorem frame_park (k : Kernel) (kont : Kont) : k.core.Frame (k.park kont).core := by
  rw [park_core]; exact .setTask _ _ _ (by simp)

theorem frame_yield (k : Kernel) : k.core.Frame k.yield.core := by
  unfold yield
  split
  · split
    · exact frame_setTask k _ _ fun _ => ⟨rfl, rfl, rfl, id⟩
    · exact frame_move k _ _
  · exact .refl _

theorem frame_switch (k : Kernel) (t : Task) : k.core.Frame (k.switch t).core :=
  ⟨rfl, rfl, rfl, rfl, rfl, fun _ => rfl, fun _ => rfl, fun _ => rfl, fun _ => id⟩

theorem frame_start (k : Kernel) (t : Task) : k.core.Frame (k.start t).core := by
  rw [start_core]; exact .setTask _ _ _ (by simp)

theorem frame_dispatch (k : Kernel) : k.core.Frame k.dispatch.core :=
  (frame_yield k).trans <| (frame_start k.yield k.next).trans
    ⟨rfl, rfl, rfl, rfl, rfl, fun _ => rfl, fun _ => rfl, fun _ => rfl, fun _ => id⟩

theorem frame_sched (k : Kernel) (kont : Kont) : k.core.Frame (k.sched kont).core :=
  (frame_setTask k k.core.current (fun ts => { ts with kEsp := kont }) fun _ => ⟨rfl, rfl, rfl, id⟩).trans
    (frame_dispatch _)

theorem frame_sysReturn (k : Kernel) (v : Option Int) : k.core.Frame (k.sysReturn v).core :=
  frame_setTask k k.core.current (fun ts => { ts with kEsp := .user, eax := v }) fun _ => ⟨rfl, rfl, rfl, id⟩

theorem frame_foldl {f : Kernel → Task → Kernel} (step : ∀ (k : Kernel) t, k.core.Frame (f k t).core)
    (ts : List Task) (k : Kernel) : k.core.Frame (ts.foldl f k).core := by
  induction ts generalizing k with
  | nil => exact .refl _
  | cons t ts ih => exact (step k t).trans (ih (f k t))

theorem frame_adoptChild (child : (k.core.task t).pare ≠ none) : k.core.Frame (k.adoptChild t).core := by
  refine ⟨rfl, rfl, rfl, rfl, rfl, fun u => ?_, fun u => ?_, fun u => ?_, fun u => ?_⟩ <;>
    simp only [adoptChild, enqueue_core, setTask_core, Core.setTask_task] <;> split <;> simp_all

theorem Leaving.frame_adopt {ct : Task} (leaving : k.Leaving ct) : k.core.Frame (k.adopt ct).core := by
  have loop (ts : List Task) : ∀ k : Kernel, (∀ t ∈ ts, (k.core.task t).pare ≠ none) →
      k.core.Frame (ts.foldl adoptChild k).core := by
    induction ts with
    | nil => exact fun k _ => .refl _
    | cons t ts ih =>
      intro k children
      refine (frame_adoptChild (children t (by simp))).trans (ih _ fun u mem => ?_)
      have child := children u (List.mem_cons_of_mem _ mem)
      simp only [adoptChild, enqueue_core, setTask_core, Core.setTask_task]
      split <;> simp [child]
  refine loop _ (k.clear (.fills ct)) fun t mem => ?_
  have home := (leaving.placed.mem (.fills ct) t).mp mem
  simp [home.2]

theorem frame_releaseWaiters (k : Kernel) (ct : Task) : k.core.Frame (k.releaseWaiters ct).core :=
  frame_foldl frame_wake _ k

theorem frame_unblock (pid : Int) (ts : List Task) (r : Int × Kernel) :
    r.2.core.Frame (ts.foldl (unblockChild pid) r).2.core := by
  induction ts generalizing r with
  | nil => exact .refl _
  | cons t ts ih =>
    refine Core.Frame.trans ?_ (ih _)
    unfold unblockChild
    split
    · split
      · exact frame_wake _ _
      · exact frame_setTask r.2 _ _ fun _ => ⟨rfl, rfl, rfl, id⟩
    · exact .refl _

end Kernel
end Zeos
