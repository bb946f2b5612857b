import Mathlib.Data.Finset.Card
import Zeos.Frames

/-! The reference counts of the directories. `sys_fork` does not look at the result of
`allocate_DIR`: as long as it finds a free directory, the counts are right. -/
namespace Zeos
open Outcome

namespace Core

variable {c c' core : Core} {d : Dir} {t fill : Task}

/-- The live tasks that use a directory. -/
def users (c : Core) (d : Dir) : Finset Task :=
  Finset.univ.filter fun t => c.live t ∧ (c.task t).dirPagesBaseAddr = some d

theorem mem_users : t ∈ c.users d ↔ c.live t ∧ (c.task t).dirPagesBaseAddr = some d := by
  simp [users]

/-- The count of every directory in use is the number of its users. -/
structure Referenced (c : Core) : Prop where
  nonneg : ∀ d, 0 ≤ c.mm.dirPagesNumReferences d
  count : ∀ d, (c.users d).Nonempty → c.mm.dirPagesNumReferences d = (c.users d).card

/-- A directory that can be allocated has no user. -/
theorem Referenced.unused (referenced : c.Referenced) (free : c.mm.dirPagesNumReferences d ≤ 0) :
    c.mm.dirPagesNumReferences d = 0 ∧ c.users d = ∅ := by
  refine ⟨Int.le_antisymm free (referenced.nonneg d), Finset.not_nonempty_iff_eq_empty.mp fun used => ?_⟩
  have count := referenced.count d used
  have positive := Finset.card_pos.mpr used
  omega

theorem SameSpace.users (same : c.SameSpace c') (d : Dir) : c'.users d = c.users d := by
  ext t
  rw [mem_users, mem_users, same.live]
  exact and_congr_right fun live => by rw [same.dir t live]

theorem Referenced.sameSpace (referenced : c.Referenced) (same : c.SameSpace c') : c'.Referenced := by
  refine ⟨fun d => ?_, fun d used => ?_⟩
  · rw [same.tables.references]; exact referenced.nonneg d
  · rw [same.users] at used ⊢
    rw [same.tables.references]
    exact referenced.count d used

/-- The users when a task is born into a directory. -/
theorem users_nameChild {pos : Dir} (dead : c.live fill = false) (live : core.live = c.live)
    (others : ∀ t, t ≠ fill → core.task t = c.task t) (own : (core.task fill).dirPagesBaseAddr = some pos) (d : Dir) :
    (core.nameChild fill).users d = if d = pos then insert fill (c.users d) else c.users d := by
  have member (t : Task) : t ∈ (core.nameChild fill).users d ↔ (t = fill ∧ d = pos) ∨ t ∈ c.users d := by
    simp only [mem_users, nameChild, setTask_live, setTask_task, Function.update_apply, live]
    by_cases same : t = fill
    · subst same
      simp [dead, own, eq_comm]
    · simp [same, others t same]
  ext t
  rw [member]
  split
  · rename_i here; simp [here]
  · rename_i other; simp [other]

theorem users_clearTask (live : core.live = c.live) (task : core.task = c.task) (current : core.current = c.current)
    (d : Dir) : core.clearTask.users d = (c.users d).erase c.current := by
  ext t
  simp only [mem_users, Finset.mem_erase, clearTask, setTask_live, setTask_task, Function.update_apply, live, task,
    current]
  by_cases same : t = c.current <;> simp [same]

/-- The steps of a run in which `sys_fork` finds a directory for every PCB it gets. -/
def Housed (c : Core) (e : Event) : Prop :=
  c.Allowed e ∧ (e = .syscall .fork → (∃ t, c.live t = false) → ∃ d, c.mm.dirPagesNumReferences d ≤ 0)

instance (c : Core) (e : Event) : Decidable (c.Housed e) := inferInstanceAs (Decidable (_ ∧ _))

end Core

theorem Mm.allocateDir_free {mm : Mm} (free : ∃ d, mm.dirPagesNumReferences d ≤ 0) :
    ∃ pos, mm.dirPagesNumReferences pos ≤ 0 ∧
      mm.allocateDir = (some pos, mm.setRef pos (mm.dirPagesNumReferences pos + 1)) := by
  unfold allocateDir
  split
  · rename_i pos found
    exact ⟨pos, by simpa using List.find?_some found, rfl⟩
  · rename_i none
    obtain ⟨d, free⟩ := free
    have := List.find?_eq_none.mp none d (List.mem_finRange d)
    simp [free] at this

namespace Core

variable {c c' core : Core} {d : Dir} {t fill : Task}

/-- What `sys_fork` takes when a directory is free. -/
theorem Housed.fork (housed : c.Housed (.syscall .fork)) (dead : c.live fill = false) :
    ∃ pos, c.mm.dirPagesNumReferences pos ≤ 0 ∧ c.forkDir = some pos ∧
      (c.forkTables pos).dirPagesNumReferences =
        Function.update c.mm.dirPagesNumReferences pos (c.mm.dirPagesNumReferences pos + 1) ∧
      (c.forkTables pos).heapZones = Function.update c.mm.heapZones pos 0 ∧
      (c.forkTables pos).pagusrTable = c.mm.pagusrTable ∧ (c.forkTables pos).physMem = c.mm.physMem := by
  obtain ⟨pos, free, allocated⟩ := Mm.allocateDir_free (housed.2 rfl ⟨fill, dead⟩)
  refine ⟨pos, free, ?_, ?_, ?_, ?_, ?_⟩ <;> simp [forkDir, forkTables, allocated, Mm.setHeapZone, Mm.setRef]

/-- The counts behind the memory part of `sys_fork`. -/
theorem Forked.references {complete : Bool} {pos : Dir} (forked : c.Forked fill complete core)
    (dir : c.forkDir = some pos) :
    (c.forkTables pos).SameCounts core.mm ∧ core.live = c.live ∧ (∀ t, t ≠ fill → core.task t = c.task t) ∧
      (core.task fill).dirPagesBaseAddr = some pos := by
  cases forked with
  | out dir' heap none =>
    cases dir.symm.trans dir'
    exact ⟨(Mm.allocFrames_table none).2, rfl, fun t other => by simp [childOf, other], by simp [childOf]⟩
  | done dir' heap parent some map copy =>
    cases dir.symm.trans dir'
    exact ⟨(Mm.allocFrames_table some).2.trans ((Mm.mapChild_counts map).trans (Mm.copyPages_counts copy)), rfl,
      fun t other => by simp [childOf, other], by simp [childOf]⟩

theorem Referenced.congr (referenced : c.Referenced) (users : ∀ d, c'.users d = c.users d)
    (references : c'.mm.dirPagesNumReferences = c.mm.dirPagesNumReferences) : c'.Referenced := by
  refine ⟨fun d => by rw [references]; exact referenced.nonneg d, fun d used => ?_⟩
  rw [users] at used ⊢
  rw [references]
  exact referenced.count d used

theorem users_congr (live : c'.live = c.live) (dir : ∀ t, c.live t →
    (c'.task t).dirPagesBaseAddr = (c.task t).dirPagesBaseAddr) (d : Dir) : c'.users d = c.users d := by
  ext t
  rw [mem_users, mem_users, live]
  exact and_congr_right fun here => by rw [dir t here]

/-- A fork that does not get its frames keeps the directory it took. -/
theorem Referenced.unforked (referenced : c.Referenced) (housed : c.Housed (.syscall .fork)) (dead : c.live fill = false)
    (forked : c.Forked fill false core) : core.Referenced := by
  obtain ⟨pos, free, dir, references, _⟩ := housed.fork dead
  obtain ⟨counts, live, others, _⟩ := forked.references dir
  obtain ⟨zero, empty⟩ := referenced.unused free
  have users (d : Dir) : core.users d = c.users d := users_congr live (fun t here => by
    rw [others t fun same => by simp [same, dead] at here]) d
  refine ⟨fun d => ?_, fun d used => ?_⟩
  all_goals rw [counts.references, references, Function.update_apply]
  · split
    · omega
    · exact referenced.nonneg d
  · rw [users] at used ⊢
    rw [if_neg fun same => by simp [same, empty] at used]
    exact referenced.count d used

theorem Referenced.forked {complete : Bool} (referenced : c.Referenced) (housed : c.Housed (.syscall .fork))
    (dead : c.live fill = false) (forked : c.Forked fill complete core) : (core.nameChild fill).Referenced := by
  obtain ⟨pos, free, dir, references, _⟩ := housed.fork dead
  obtain ⟨counts, live, others, own⟩ := forked.references dir
  obtain ⟨zero, empty⟩ := referenced.unused free
  have users := users_nameChild dead live others own
  have refs (d : Dir) : (core.nameChild fill).mm.dirPagesNumReferences d =
      if d = pos then 1 else c.mm.dirPagesNumReferences d := by
    have mm : (core.nameChild fill).mm = core.mm := rfl
    rw [mm, counts.references, references, Function.update_apply, zero, Int.zero_add]
  refine ⟨fun d => ?_, fun d used => ?_⟩ <;> rw [refs] <;> split
  · decide
  · exact referenced.nonneg d
  · rename_i here
    rw [users, if_pos here, here, empty]
    rfl
  · rename_i other
    rw [users, if_neg other] at used ⊢
    exact referenced.count d used

theorem Referenced.thread {stack parameter : DWord} (referenced : c.Referenced) (alive : c.live c.current)
    (dead : c.live fill = false) (done : (c.setTask fill fun _ => c.ct).threadMemory fill stack parameter = .ok core) :
    (core.nameChild fill).Referenced := by
  obtain ⟨dir, mm, own, tables, rfl⟩ := threadMemory_ok done
  let core : Core := { c.setTask fill fun _ => c.ct with mm }
  have users : ∀ d, (core.nameChild fill).users d = if d = dir then insert fill (c.users d) else c.users d :=
    users_nameChild dead rfl (fun t other => by simp [core, other]) (by simpa [core] using own)
  have current : c.current ∈ c.users dir := mem_users.mpr ⟨alive, own⟩
  have count := referenced.count dir ⟨_, current⟩
  have absent : fill ∉ c.users dir := fun mem => by simp [(mem_users.mp mem).1] at dead
  have refs (d : Dir) : mm.dirPagesNumReferences d =
      if d = dir then c.mm.dirPagesNumReferences dir + 1 else c.mm.dirPagesNumReferences d := by
    rw [tables.references]
    exact Function.update_apply ..
  refine ⟨fun d => ?_, fun d used => ?_⟩
  · show 0 ≤ mm.dirPagesNumReferences d
    rw [refs]
    have := referenced.nonneg d
    split <;> omega
  · show mm.dirPagesNumReferences d = _
    rw [refs]
    split
    · rename_i here
      rw [users, if_pos here, here, Finset.card_insert_of_notMem absent, count]
      rfl
    · rename_i other
      rw [users, if_neg other] at used ⊢
      exact referenced.count d used

theorem Exited.references (exited : c.Exited core) : ∃ dir, c.ct.dirPagesBaseAddr = some dir ∧
    core.mm.dirPagesNumReferences =
      Function.update c.mm.dirPagesNumReferences dir (c.mm.dirPagesNumReferences dir - 1) ∧
    core.live = c.live ∧ core.task = c.task ∧ core.current = c.current := by
  cases exited with
  | shared own more => exact ⟨_, own, rfl, rfl, rfl, rfl⟩
  | last own heap last first second =>
    refine ⟨_, own, ?_, rfl, rfl, rfl⟩
    exact (Mm.releasePages_table second).1.references.trans (Mm.releasePages_table first).1.references

theorem Referenced.exited (referenced : c.Referenced) (alive : c.live c.current) (exited : c.Exited core) :
    core.clearTask.Referenced := by
  obtain ⟨dir, own, references, live, task, current⟩ := exited.references
  have users := users_clearTask live task current
  have mem : c.current ∈ c.users dir := mem_users.mpr ⟨alive, own⟩
  have count := referenced.count dir ⟨_, mem⟩
  have positive := Finset.card_pos.mpr ⟨_, mem⟩
  have refs (d : Dir) : core.clearTask.mm.dirPagesNumReferences d =
      if d = dir then c.mm.dirPagesNumReferences dir - 1 else c.mm.dirPagesNumReferences d := by
    have mm : core.clearTask.mm = core.mm := rfl
    rw [mm, references, Function.update_apply]
  refine ⟨fun d => ?_, fun d used => ?_⟩ <;> rw [refs]
  · have := referenced.nonneg d
    split <;> omega
  · split
    · rename_i here
      rw [users, here, Finset.card_erase_of_mem mem, count]
      omega
    · rename_i other
      have absent : c.current ∉ c.users d := fun mem => by
        have := (mem_users.mp mem).2
        rw [← ct, own] at this
        exact other (Option.some.inj this).symm
      rw [users, Finset.erase_eq_of_notMem absent] at used ⊢
      exact referenced.count d used

theorem Resized.references {numPags : Int} (resized : c.Resized numPags core) :
    core.mm.dirPagesNumReferences = c.mm.dirPagesNumReferences ∧ core.live = c.live ∧
      ∀ t, (core.task t).dirPagesBaseAddr = (c.task t).dirPagesBaseAddr := by
  have dirs (mm : Mm) (cr3 : Dir) (v : Int) (t : Task) :
      (({ c with mm, cr3 }.sysReturn (some v)).task t).dirPagesBaseAddr = (c.task t).dirPagesBaseAddr := by
    simp only [sysReturn, setTask_task]
    split
    · rename_i here; rw [here]
    · rfl
  cases resized with
  | refused => exact ⟨rfl, rfl, dirs c.mm c.cr3 _⟩
  | grown heap own positive grow =>
    refine ⟨?_, rfl, dirs _ c.cr3 _⟩
    have only := (Mm.growHeap_only grow).references
    simp only [sysReturn, setTask_mm]
    split <;> exact only
  | shrunk heap own negative enough release =>
    exact ⟨(Mm.releasePages_table release).1.references, rfl, dirs _ _ _⟩

/-- A step of a run in which forks find directories keeps the counts right. -/
theorem Referenced.step {e : Event} (referenced : c.Referenced) (alive : c.live c.current) (housed : c.Housed e)
    (memory : c.MemoryStep e c') : c'.Referenced := by
  have other {fill : Task} (dead : c.live fill = false) : fill ≠ c.current := fun same => by
    simp [same, alive] at dead
  cases memory with
  | same same => exact referenced.sameSpace same
  | forked dead done child =>
    exact (referenced.forked housed dead (forkMemory_forked (other dead) done)).sameSpace child
  | unforked dead done back =>
    exact (referenced.unforked housed dead (forkMemory_forked (other dead) done)).sameSpace back
  | thread _ dead done child => exact (referenced.thread alive dead done).sameSpace child
  | exit exits =>
    obtain ⟨_, core, done, _, left⟩ := exits
    exact (referenced.exited alive (exitMemory_exited done)).sameSpace left
  | dynMem _ done same =>
    obtain ⟨references, live, dir⟩ := (sysDynMem_resized done).references
    exact (referenced.congr (users_congr live fun t _ => dir t) references).sameSpace same

end Core

namespace Kernel

variable {k k' : Kernel} {fill : Task}

/-- The parent gets the PID of the child. -/
theorem startChild_pid (k : Kernel) (fill : Task) : (k.startChild fill).core.ct.eax = some k.core.pidGlobal ∧
    (k.startChild fill).core.live fill ∧ ((k.startChild fill).core.task fill).pid = k.core.pidGlobal := by
  have frame := (frame_startChild k fill).1
  refine ⟨sysReturn_eax _ _, ?_, ?_⟩
  · rw [frame.live]
    simp [Core.nameChild]
  · rw [frame.pid]
    simp [Core.nameChild]

/-- A child has its directory for itself. -/
theorem sysFork_alone (sound : k.Sound none) (call : k.core.InCall) (referenced : k.core.Referenced)
    (housed : k.core.Housed (.syscall .fork)) (done : k.sysFork = .ok k') {pid : Int}
    (returned : k'.core.ct.eax = some pid) (positive : 0 < pid) :
    ∃ child, k'.core.live child ∧ (k'.core.task child).pid = pid ∧
      ∀ u, k'.core.live u → (k'.core.task u).dirPagesBaseAddr = (k'.core.task child).dirPagesBaseAddr → u = child := by
  have failed (k : Kernel) : (k.sysReturn (some (-eNOMEM))).core.ct.eax ≠ some pid := by
    rw [sysReturn_eax]
    rintro ⟨⟩
    contradiction
  unfold sysFork at done
  split at done
  · cases done
    exact absurd returned (failed _)
  rename_i fill rest first
  obtain ⟨dead, other, _, _⟩ := sound.takeFree first call
  obtain ⟨⟨complete, core⟩, mem, done⟩ := bind_ok.mp done
  dsimp only at done
  split at done
  · cases done
    let born := ((k.dequeue .freequeue fill).setTask fill fun _ => k.core.ct).setCore core
    have bornCore : born.core = core := rfl
    obtain ⟨eax, live, named⟩ := startChild_pid born fill
    obtain ⟨pos, free, dir, _⟩ := housed.fork dead
    obtain ⟨_, alive, others, own⟩ := (Core.forkMemory_forked other (mapError_ok.mp mem)).references dir
    have users : (born.startChild fill).core.users pos = {fill} := by
      rw [(startChild_quiet born fill).users, bornCore, Core.users_nameChild dead alive others own, if_pos rfl,
        (referenced.unused free).2]
      rfl
    have childDir : ((born.startChild fill).core.task fill).dirPagesBaseAddr = some pos := by
      rw [(frame_startChild born fill).1.dir, bornCore]
      simpa [Core.nameChild] using own
    refine ⟨fill, live, ?_, fun u liveU same => ?_⟩
    · rw [named]
      exact Option.some.inj (eax.symm.trans returned)
    · have mem : u ∈ (born.startChild fill).core.users pos := Core.mem_users.mpr ⟨liveU, same.trans childDir⟩
      rw [users] at mem
      exact Finset.mem_singleton.mp mem
  · cases done
    exact absurd returned (failed _)

end Kernel

namespace State

/-- A directory in use counts its users, and the test of `sys_exit` tells the last of them. -/
structure DirsCounted (s : State) : Prop where
  count : ∀ t d, s.core.live t → (s.core.task t).dirPagesBaseAddr = some d →
    s.core.mm.dirPagesNumReferences d = (s.core.users d).card
  last : ∀ t d, s.core.live t → (s.core.task t).dirPagesBaseAddr = some d →
    ((s.core.mm.subDirRef d).1 ≤ 0 ↔ ∀ u, s.core.live u → (s.core.task u).dirPagesBaseAddr = some d → u = t)

/-- The running task has got a PID from `sys_fork`: no other task uses the directory of
the task with that PID. -/
def ChildAlone (s : State) : Prop := ∀ pid, s.core.ct.eax = some pid → 0 < pid →
  ∃ child, s.core.live child ∧ (s.core.task child).pid = pid ∧ ∀ u, s.core.live u →
    (s.core.task u).dirPagesBaseAddr = (s.core.task child).dirPagesBaseAddr → u = child

end State

theorem Core.Referenced.last {c : Core} {t : Task} {d : Dir} (referenced : c.Referenced) (live : c.live t)
    (own : (c.task t).dirPagesBaseAddr = some d) :
    (c.mm.subDirRef d).1 ≤ 0 ↔ ∀ u, c.live u → (c.task u).dirPagesBaseAddr = some d → u = t := by
  have mem : t ∈ c.users d := Core.mem_users.mpr ⟨live, own⟩
  have count := referenced.count d ⟨t, mem⟩
  have test : (c.mm.subDirRef d).1 ≤ 0 ↔ (c.users d).card ≤ 1 := by
    simp only [Mm.subDirRef, count]
    omega
  rw [test, Finset.card_le_one]
  constructor
  · exact fun one u liveU ownU => one u (Core.mem_users.mpr ⟨liveU, ownU⟩) t mem
  · intro alone u memU v memV
    obtain ⟨liveU, ownU⟩ := Core.mem_users.mp memU
    obtain ⟨liveV, ownV⟩ := Core.mem_users.mp memV
    rw [alone u liveU ownU, alone v liveV ownV]

theorem boot_referenced (ram : Nat → Nat → UInt8) : (bootCore ram).Referenced := by
  have nonneg : ∀ d, 0 ≤ booted.core.mm.dirPagesNumReferences d := by decide +kernel
  have count : ∀ d, (booted.core.users d).Nonempty →
      booted.core.mm.dirPagesNumReferences d = (booted.core.users d).card := by decide +kernel
  exact ⟨nonneg, count⟩

end Zeos
