import Zeos.Semaphores

/-! What a step does to memory: every call but four leaves the directories, the page
tables, the frames and the heap counters alone. -/
namespace Zeos
open Outcome

theorem pointer_ok {p : Option Dir} {d : Dir} : pointer p = .ok d ↔ p = some d := by
  cases p <;> simp [pointer]

/-- The tables of memory management agree; the contents of the frames may differ. -/
structure Mm.SameTables (mm mm' : Mm) : Prop where
  physMem : mm'.physMem = mm.physMem
  pagusrTable : mm'.pagusrTable = mm.pagusrTable
  references : mm'.dirPagesNumReferences = mm.dirPagesNumReferences
  heapZones : mm'.heapZones = mm.heapZones

theorem Mm.SameTables.refl (mm : Mm) : mm.SameTables mm := ⟨rfl, rfl, rfl, rfl⟩

theorem Mm.SameTables.trans {mm mm' mm'' : Mm} (first : mm.SameTables mm') (second : mm'.SameTables mm'') :
    mm.SameTables mm'' :=
  ⟨second.1.trans first.1, second.2.trans first.2, second.3.trans first.3, second.4.trans first.4⟩

theorem storeByte_tables {d : Dir} {addr : DWord} {byte : UInt8} {mm mm' : Mm}
    (done : mm.storeByte d addr byte = .ok mm') : mm.SameTables mm' := by
  unfold Mm.storeByte at done
  split at done
  · contradiction
  · cases done
    exact ⟨rfl, rfl, rfl, rfl⟩

/-- The same tasks live, with the same directories and heap counters, over the same tables;
a task without a father stays one. -/
structure Core.SameSpace (c c' : Core) : Prop where
  live : c'.live = c.live
  dir : ∀ t, c.live t → (c'.task t).dirPagesBaseAddr = (c.task t).dirPagesBaseAddr
  myHeap : ∀ t, c.live t → (c'.task t).myHeap = (c.task t).myHeap
  root : ∀ t, c.live t → (c.task t).pare = none → (c'.task t).pare = none
  tables : c.mm.SameTables c'.mm

namespace Core

/-- The directory of the running task is the one in use. -/
def Loaded (c : Core) : Prop := c.ct.dirPagesBaseAddr = some c.cr3

/-- Neither the running task nor the directory in use changes. -/
structure Stays (c c' : Core) : Prop where
  current : c'.current = c.current
  cr3 : c'.cr3 = c.cr3
  dir : ∀ t, (c'.task t).dirPagesBaseAddr = (c.task t).dirPagesBaseAddr

namespace SameSpace

variable {c c' c'' : Core}

theorem refl (c : Core) : c.SameSpace c := ⟨rfl, fun _ _ => rfl, fun _ _ => rfl, fun _ _ => id, .refl _⟩

theorem trans (first : c.SameSpace c') (second : c'.SameSpace c'') : c.SameSpace c'' where
  live := second.live.trans first.live
  dir t live := (second.dir t (by rwa [first.live])).trans (first.dir t live)
  myHeap t live := (second.myHeap t (by rwa [first.live])).trans (first.myHeap t live)
  root t live none := second.root t (by rwa [first.live]) (first.root t live none)
  tables := first.tables.trans second.tables

end SameSpace

theorem Frame.space {c c' : Core} (frame : c.Frame c') : c.SameSpace c' :=
  ⟨frame.live, fun t _ => frame.dir t, fun t _ => frame.myHeap t, fun t _ => frame.root t, by
    rw [frame.mm]; exact .refl _⟩

namespace Stays

variable {c c' c'' : Core}

theorem refl (c : Core) : c.Stays c := ⟨rfl, rfl, fun _ => rfl⟩

theorem trans (first : c.Stays c') (second : c'.Stays c'') : c.Stays c'' :=
  ⟨second.1.trans first.1, second.2.trans first.2, fun t => (second.3 t).trans (first.3 t)⟩

theorem loaded (stays : c.Stays c') (loaded : c.Loaded) : c'.Loaded := by
  unfold Loaded ct at *
  rw [stays.current, stays.cr3, stays.dir]
  exact loaded

theorem dir_none (stays : c.Stays c') (left : c.ct.dirPagesBaseAddr = none) :
    c'.ct.dirPagesBaseAddr = none := by
  unfold ct at *
  rw [stays.current, stays.dir]
  exact left

theorem setTask (c : Core) (t : Task) (f : TaskStruct → TaskStruct)
    (keeps : ∀ ts, (f ts).dirPagesBaseAddr = ts.dirPagesBaseAddr) : c.Stays (c.setTask t f) := by
  refine ⟨rfl, rfl, fun u => ?_⟩
  rw [setTask_task]
  split
  · rename_i same; rw [keeps, same]
  · rfl

end Stays
end Core

namespace Kernel

variable {k k' : Kernel} {t : Task}

theorem stays_setTask (k : Kernel) (t : Task) (f : TaskStruct → TaskStruct)
    (keeps : ∀ ts, (f ts).dirPagesBaseAddr = ts.dirPagesBaseAddr) : k.core.Stays (k.setTask t f).core :=
  .setTask _ _ _ keeps

theorem stays_wake (k : Kernel) (t : Task) : k.core.Stays (k.wake t).core := by
  rw [wake_core]; exact .setTask _ _ _ fun _ => rfl

theorem stays_move (k : Kernel) (t : Task) (h : Head) : k.core.Stays (k.move t h).core := by
  rw [move_core]; exact .setTask _ _ _ fun _ => rfl

theorem stays_park (k : Kernel) (kont : Kont) : k.core.Stays (k.park kont).core := by
  rw [park_core]; exact .setTask _ _ _ fun _ => rfl

theorem stays_yield (k : Kernel) : k.core.Stays k.yield.core := by
  unfold yield
  split
  · split
    · exact stays_setTask k _ _ fun _ => rfl
    · exact stays_move k _ _
  · exact .refl _

theorem stays_start (k : Kernel) (t : Task) : k.core.Stays (k.start t).core := by
  rw [start_core]; exact .setTask _ _ _ fun _ => rfl

theorem stays_sysReturn (k : Kernel) (v : Option Int) : k.core.Stays (k.sysReturn v).core :=
  stays_setTask k k.core.current (fun ts => { ts with kEsp := .user, eax := v }) fun _ => rfl

theorem stays_foldl {f : Kernel → Task → Kernel} (step : ∀ (k : Kernel) t, k.core.Stays (f k t).core)
    (ts : List Task) (k : Kernel) : k.core.Stays (ts.foldl f k).core := by
  induction ts generalizing k with
  | nil => exact .refl _
  | cons t ts ih => exact (step k t).trans (ih (f k t))

theorem stays_adopt (k : Kernel) (ct : Task) : k.core.Stays (k.adopt ct).core :=
  stays_foldl (f := adoptChild)
    (fun k t => stays_setTask k t (fun ts => { ts with pare := idleTask }) fun _ => rfl) _ (k.clear (.fills ct))

theorem stays_releaseWaiters (k : Kernel) (ct : Task) : k.core.Stays (k.releaseWaiters ct).core :=
  stays_foldl stays_wake _ k

theorem stays_unblock (pid : Int) (ts : List Task) (r : Int × Kernel) :
    r.2.core.Stays (ts.foldl (unblockChild pid) r).2.core := by
  induction ts generalizing r with
  | nil => exact .refl _
  | cons t ts ih =>
    refine Core.Stays.trans ?_ (ih _)
    unfold unblockChild
    split
    · split
      · exact stays_wake _ _
      · exact stays_setTask r.2 _ _ fun _ => rfl
    · exact .refl _

theorem switch_loaded (new : (k.core.task t).dirPagesBaseAddr.isSome)
    (old : k.core.Loaded ∨ k.core.ct.dirPagesBaseAddr = none) : (k.switch t).core.Loaded := by
  obtain ⟨d, dir⟩ := Option.isSome_iff_exists.mp new
  unfold Core.Loaded at *
  simp only [switch, setCore, Core.ct, dir] at *
  split
  · rfl
  · rename_i same
    rcases old with old | old
    · simpa [old] using same
    · simp [old] at same

theorem Sound.next_dir {out : Option Task} (sound : k.Sound out) : (k.core.task k.next).dirPagesBaseAddr.isSome :=
  sound.good.directory _ sound.live_next

theorem dispatch_loaded (new : (k.core.task k.next).dirPagesBaseAddr.isSome)
    (old : k.core.Loaded ∨ k.core.ct.dirPagesBaseAddr = none) : k.dispatch.core.Loaded := by
  have stays : k.core.Stays ((k.yield.start k.next).setQuantum k.next).core :=
    (stays_yield k).trans ((stays_start k.yield k.next).trans ⟨rfl, rfl, fun _ => rfl⟩)
  refine switch_loaded (t := k.next) ?_ (old.imp stays.loaded stays.dir_none)
  rwa [stays.dir]

theorem sched_loaded (kont : Kont) (new : (k.core.task k.next).dirPagesBaseAddr.isSome)
    (old : k.core.Loaded ∨ k.core.ct.dirPagesBaseAddr = none) : (k.sched kont).core.Loaded := by
  have stays := stays_setTask k k.core.current (fun ts => { ts with kEsp := kont }) fun _ => rfl
  refine dispatch_loaded ?_ (old.imp stays.loaded stays.dir_none)
  rw [stays.dir]
  exact new

end Kernel

/-- A step that memory management does not see. -/
structure Core.Quiet (c c' : Core) : Prop extends SameSpace c c' where
  loaded : c.Loaded → c'.Loaded

namespace Core.Quiet

variable {c c' c'' : Core}

theorem trans (first : c.Quiet c') (second : c'.Quiet c'') : c.Quiet c'' :=
  ⟨first.toSameSpace.trans second.toSameSpace, second.loaded ∘ first.loaded⟩

theorem of_frame (frame : c.Frame c') (stays : c.Stays c') : c.Quiet c' := ⟨frame.space, stays.loaded⟩

/-- The semaphores do not matter. -/
theorem semaphores (c : Core) (semaphores : SemIndex → Semaphore) : c.Quiet { c with semaphores } :=
  ⟨⟨rfl, fun _ _ => rfl, fun _ _ => rfl, fun _ _ => id, .refl _⟩, id⟩

end Core.Quiet

namespace Kernel

variable {k k' : Kernel} {t : Task} {i : SemIndex}

theorem quiet_sysReturn (k : Kernel) (v : Option Int) : k.core.Quiet (k.sysReturn v).core :=
  .of_frame (frame_sysReturn k v) (stays_sysReturn k v)

theorem quiet_setSem (k : Kernel) (i : SemIndex) (f : Semaphore → Semaphore) : k.core.Quiet (k.setSem i f).core :=
  .semaphores _ _

theorem Sound.quiet_sched {out : Option Task} (sound : k.Sound out) (kont : Kont) :
    k.core.Quiet (k.sched kont).core :=
  ⟨(frame_sched k kont).space, fun loaded => sched_loaded kont sound.next_dir (.inl loaded)⟩

theorem Sound.quiet_dispatch {out : Option Task} (sound : k.Sound out) : k.core.Quiet k.dispatch.core :=
  ⟨(frame_dispatch k).space, fun loaded => dispatch_loaded sound.next_dir (.inl loaded)⟩

theorem Sound.quiet_park (sound : k.Sound none) (call : k.core.InCall) (kont : Kont)
    (fits : k.core.Fits k.core.current kont) (valid : ∀ h, kont.waitHead = some h → k.core.Valid h) :
    k.core.Quiet (k.park kont).dispatch.core :=
  Core.Quiet.trans (.of_frame (frame_park k kont) (stays_park k kont)) (sound.park call kont fits valid).quiet_dispatch

theorem Inv.quiet_keyboardRoutine (inv : k.Inv) (readInp : UInt8) : k.core.Quiet (k.keyboardRoutine readInp).core := by
  unfold Kernel.keyboardRoutine
  cases keyChar readInp with
  | none => exact ⟨.refl _, id⟩
  | some charPrint =>
    have pressed : k.core.Quiet { k.core with kbBuffer := k.core.kbBuffer.press charPrint } :=
      ⟨⟨rfl, fun _ _ => rfl, fun _ _ => rfl, fun _ _ => id, .refl _⟩, id⟩
    refine pressed.trans ?_
    cases first : k.queues .readBlocked with
    | nil => simp only [setCore_queues, first]; exact ⟨.refl _, id⟩
    | cons nt rest =>
      simp only [setCore_queues, first]
      have home := (inv.placed.mem .readBlocked nt).mp (by simp [first])
      let pressed := k.setCore { k.core with kbBuffer := k.core.kbBuffer.press charPrint }
      have stays := stays_yield pressed
      have frame := (frame_yield pressed).trans (frame_switch pressed.yield nt)
      refine ⟨frame.space, fun loaded => ?_⟩
      refine switch_loaded ?_ (.inl (stays.loaded loaded))
      rw [stays.dir]
      exact inv.good.directory nt home.1

theorem Inv.quiet_clockRoutine (inv : k.Inv) : k.core.Quiet k.clockRoutine.core := by
  unfold Kernel.clockRoutine
  generalize (if 0 < k.core.tickCounter then k.core.tickCounter - 1 else k.core.tickCounter) = tick
  have ticked : k.core.Quiet { k.core with zeosTick := int32 (k.core.zeosTick + 10), tickCounter := tick } :=
    ⟨⟨rfl, fun _ _ => rfl, fun _ _ => rfl, fun _ _ => id, .refl _⟩, id⟩
  refine ticked.trans ?_
  have inv₁ : (k.setCore { k.core with
    zeosTick := int32 (k.core.zeosTick + 10), tickCounter := tick }).Inv := inv.sameTasks ⟨rfl, rfl, rfl, rfl, rfl⟩
  dsimp only
  split
  · exact inv₁.quiet_sched _
  · exact ⟨.refl _, id⟩

theorem Sound.quiet_destroyRound (sound : k.Sound none) {semid : Int} {caller : DestroyCaller}
    (call : k.core.InCall) (free : (k.core.semaphores i).free = false) (unmarked : k.core.Unmarked i)
    (round : k.destroyRound i semid caller = some k') : k.core.Quiet k'.core := by
  unfold Kernel.destroyRound at round
  split at round
  · contradiction
  rename_i t rest first
  cases round
  have woken := ((sound.markSem free unmarked).wakeFirst (inCall_setSem call i _) first).1
  have marked := quiet_setSem k i fun m => { m with creatorPID := -1 }
  have wakes := Core.Quiet.of_frame (frame_wake (k.setSem i fun m => { m with creatorPID := -1 }) t)
    (stays_wake _ _)
  exact (marked.trans wakes).trans (woken.quiet_sched _)

/-- The loop of the destroyer, suspended. -/
theorem quiet_destroySlots (semid : Int) (caller : DestroyCaller) (slots : List SemIndex) {k : Kernel}
    (sound : k.Sound none) (call : k.core.InCall) (suspended : (destroySlots semid caller slots k).1 = none) :
    k.core.Quiet (destroySlots semid caller slots k).2.core := by
  induction slots generalizing k with
  | nil => contradiction
  | cons i slots ih =>
    unfold destroySlots at suspended ⊢
    split
    · rename_i named
      rw [if_pos named] at suspended
      split
      · rename_i free
        rw [if_pos free] at suspended
        contradiction
      rename_i used
      rw [if_neg used] at suspended
      split
      · rename_i other
        rw [if_pos other] at suspended
        contradiction
      rename_i creator
      rw [if_neg creator] at suspended
      have unmarked := sound.unmarked call (by simpa using creator)
      split
      · rename_i round
        exact sound.quiet_destroyRound call (by simpa using used) unmarked round
      · rename_i round
        rw [round] at suspended
        exact (quiet_setSem k i _).trans (ih (sound.freeSem unmarked round) (inCall_setSem call i _) suspended)
    · rename_i other
      rw [if_neg other] at suspended
      exact ih sound call suspended

theorem quiet_destroyFrom (sound : k.Sound none) (call : k.core.InCall) (semid : Int) (caller : DestroyCaller)
    (free : (k.core.semaphores i).free = false) (unmarked : k.core.Unmarked i)
    (suspended : (k.destroyFrom i semid caller).1 = none) : k.core.Quiet (k.destroyFrom i semid caller).2.core := by
  unfold destroyFrom at suspended ⊢
  split
  · rename_i round
    exact sound.quiet_destroyRound call free unmarked round
  · rename_i round
    rw [round] at suspended
    exact (quiet_setSem k i _).trans
      (quiet_destroySlots semid caller (Core.slotsAfter i) (sound.freeSem unmarked round) (inCall_setSem call i _)
        suspended)

end Kernel

namespace Core

/-- The running task leaves: its directory is given up, and a task without a father gets
through `list_del` only where logical page 0 is mapped. -/
def Exits (c c' : Core) : Prop :=
  c.current ≠ idleTask ∧
    ∃ core, c.exitMemory = .ok core ∧ (c.ct.pare = none → core.pageZeroMapped) ∧ core.clearTask.SameSpace c'

/-- What a step does to memory. -/
inductive MemoryStep (c : Core) : Event → Core → Prop where
  | same {e : Event} {c' : Core} (same : c.SameSpace c') : MemoryStep c e c'
  | forked {fill : Task} {core c' : Core} (dead : c.live fill = false)
      (done : (c.setTask fill fun _ => c.ct).forkMemory fill = .ok (true, core))
      (child : (core.nameChild fill).SameSpace c') : MemoryStep c (.syscall .fork) c'
  | unforked {fill : Task} {core c' : Core} (dead : c.live fill = false)
      (done : (c.setTask fill fun _ => c.ct).forkMemory fill = .ok (false, core))
      (back : core.SameSpace c') : MemoryStep c (.syscall .fork) c'
  | thread {function stack parameter : DWord} {fill : Task} {core c' : Core} (acts : c.current ≠ idleTask)
      (dead : c.live fill = false)
      (done : (c.setTask fill fun _ => c.ct).threadMemory fill stack parameter = .ok core)
      (child : (core.nameChild fill).SameSpace c') :
      MemoryStep c (.syscall (.createThread function stack parameter)) c'
  | exit {e : Event} {c' : Core} (exits : c.Exits c') : MemoryStep c e c'
  | dynMem {numPags : Int} {core c' : Core} (int : IsInt numPags) (done : c.sysDynMem numPags = .ok core)
      (same : core.SameSpace c') :
      MemoryStep c (.syscall (.dynMem numPags)) c'

/-- An exit does not look at semaphores or saved stacks. -/
theorem Exits.congr {c c₁ c' : Core} (exits : c₁.Exits c') (current : c₁.current = c.current)
    (live : c₁.live = c.live) (cr3 : c₁.cr3 = c.cr3) (mm : c₁.mm = c.mm)
    (dir : ∀ t, (c₁.task t).dirPagesBaseAddr = (c.task t).dirPagesBaseAddr)
    (myHeap : ∀ t, (c₁.task t).myHeap = (c.task t).myHeap)
    (pare : ∀ t, (c₁.task t).pare = (c.task t).pare) : c.Exits c' := by
  obtain ⟨acts, core, done, zero, space⟩ := exits
  have shape : ∃ mm, core = { c₁ with mm } ∧ c.exitMemory = .ok { c with mm } := by
    unfold exitMemory at done ⊢
    simp only [ct, current, dir, myHeap, mm] at done ⊢
    obtain ⟨ctTP, pointed, done⟩ := bind_ok.mp done
    rw [pointed, ok_bind]
    split
    · rename_i last
      rw [if_pos last] at done
      obtain ⟨mm₁, data, done⟩ := bind_ok.mp done
      obtain ⟨zone, zoned, done⟩ := bind_ok.mp done
      obtain ⟨mm₂, heap, done⟩ := bind_ok.mp done
      rw [data, ok_bind, zoned, ok_bind, heap, ok_bind]
      cases done
      exact ⟨_, rfl, rfl⟩
    · rename_i more
      rw [if_neg more] at done
      cases done
      exact ⟨_, rfl, rfl⟩
  obtain ⟨mm', rfl, done'⟩ := shape
  refine ⟨by rwa [← current], _, done', fun root => ?_, SameSpace.trans ?_ space⟩
  · have := zero (by rw [ct, current, pare]; exact root)
    unfold pageZeroMapped at this ⊢
    rwa [cr3] at this
  · refine ⟨?_, fun t _ => ?_, fun t _ => ?_, fun t _ => ?_, .refl _⟩
    · simp [clearTask, current, live]
    · simp only [clearTask, setTask_task, current]
      split
      · rfl
      · exact dir t
    · simp only [clearTask, setTask_task, current]
      split
      · exact myHeap _
      · exact myHeap t
    · simp only [clearTask, setTask_task, current]
      split
      · exact id
      · rw [pare]; exact id

end Core

namespace Kernel

variable {k k' : Kernel} {t : Task} {i : SemIndex}

/-- The characters go into the contents of the frames. -/
theorem readChars_quiet {c c' : Core} {b : DWord} {maxchars : Int}
    (done : memory (c.readChars b maxchars) = .ok c') : c.Quiet c' := by
  have pops (n : Nat) : ∀ (i : Nat) (c c' : Core), c.popChars i n = .ok c' → c.Quiet c' := by
    induction n with
    | zero => intro i c c' done; cases done; exact ⟨.refl _, id⟩
    | succ n ih =>
      intro i c c' done
      unfold Core.popChars at done
      split at done
      · have one : c.Quiet { c with kbBuffer := c.kbBuffer.pop.2, tmpbuff := Function.update c.tmpbuff i c.kbBuffer.pop.1 } :=
          ⟨⟨rfl, fun _ _ => rfl, fun _ _ => rfl, fun _ _ => id, .refl _⟩, id⟩
        exact one.trans (ih _ _ _ done)
      · contradiction
  rw [memory, mapError_ok, Core.readChars] at done
  obtain ⟨popped, pop, copy⟩ := bind_ok.mp done
  obtain ⟨mm, stored, done⟩ := bind_ok.mp copy
  cases done
  have tables : popped.mm.SameTables mm :=
    foldlM_keeps (fun mm => popped.mm.SameTables mm) (fun _ _ mm mm' same round => same.trans (storeByte_tables round))
      stored (.refl _)
  exact (pops _ _ _ _ pop).trans ⟨⟨rfl, fun _ _ => rfl, fun _ _ => rfl, fun _ _ => id, tables⟩, id⟩

/-- What a call does to memory, and that the directory in use stays the right one. -/
def Remembers (c : Core) (e : Event) (c' : Core) : Prop := c.MemoryStep e c' ∧ (c.Loaded → c'.Loaded)

theorem remembers_quiet {c c' : Core} {e : Event} (quiet : c.Quiet c') : Remembers c e c' :=
  ⟨.same quiet.toSameSpace, quiet.loaded⟩

theorem exitTail_exits (sound : k.Sound none) (call : k.core.InCall) (done : k.exitTail = .ok k') :
    k.core.Exits k'.core ∧ k'.core.Loaded := by
  obtain ⟨core, mem, done⟩ := bind_ok.mp done
  obtain ⟨left, leave, done⟩ := bind_ok.mp done
  cases done
  have same := exitMemory_sameTasks mem
  have current : k.core.current = core.current := same.current.symm
  have pare : k.core.ct.pare = core.ct.pare := by simp only [Core.ct, same.task, same.current]
  have leaving : left.Leaving core.current := by
    have leave := leave
    rw [current, pare] at leave
    exact (sound.sameTasks same).clearTask (same.inCall call) leave
  have leftCore : left.core = core.clearTask := leaveFather_core leave
  obtain ⟨adopted, alone⟩ := leaving.adopt
  obtain ⟨released, alone, empty⟩ := adopted.releaseWaiters alone
  have freed := released.free
  rw [current]
  generalize entered : (left.adopt core.current).releaseWaiters core.current = gone at *
  have frame : left.core.Frame (gone.setTask core.current fun ts => { ts with currentState := .stFree }).core := by
    refine Core.Frame.trans ?_ (frame_setTask gone _ _ fun _ => ⟨rfl, rfl, rfl, id⟩)
    rw [← entered]
    exact leaving.frame_adopt.trans (frame_releaseWaiters _ _)
  have stays : left.core.Stays (gone.setTask core.current fun ts => { ts with currentState := .stFree }).core := by
    refine Core.Stays.trans ?_ (stays_setTask gone _ _ fun _ => rfl)
    rw [← entered]
    exact (stays_adopt left core.current).trans (stays_releaseWaiters _ _)
  refine ⟨⟨call.task, core, ?_, fun root => ?_, ?_⟩, ?_⟩
  · rwa [memory, mapError_ok] at mem
  · rw [root, leaveFather] at leave
    cases mapped : core.clearTask.pageZeroMapped
    · simp [mapped] at leave
    · exact mapped
  · rw [← leftCore]
    exact frame.space.trans (frame_sched ((gone.setTask core.current fun ts =>
      { ts with currentState := .stFree }).enqueue .freequeue core.current) .exited).space
  · refine sched_loaded .exited freed.next_dir (.inr (stays.dir_none ?_))
    simp [leftCore, Core.ct, Core.clearTask]

/-- `sys_exit` is suspended in a destruction, or the task leaves. -/
theorem exitSlots_exits (slots : List SemIndex) {k : Kernel} (sound : k.Sound none)
    (call : k.core.InCall) (done : k.exitSlots slots = .ok k') :
    k.core.Quiet k'.core ∨ k.core.Exits k'.core ∧ k'.core.Loaded := by
  induction slots generalizing k with
  | nil => exact .inr (exitTail_exits sound call done)
  | cons j slots ih =>
    unfold exitSlots at done
    split at done
    · have leads := sound.destroySlots (k.core.semaphores j).id (.exit j) (List.finRange numSems) call
      have changed := destroySlots_core (k.core.semaphores j).id (.exit j) (List.finRange numSems) (k := k)
      have suspended := quiet_destroySlots (k.core.semaphores j).id (.exit j) (List.finRange numSems) sound call
      generalize destroySlots (k.core.semaphores j).id (.exit j) (List.finRange numSems) k = r at *
      obtain ⟨v, middle⟩ := r
      cases v with
      | some v =>
        obtain ⟨semaphores, core⟩ := changed rfl
        dsimp only at core
        refine (ih (leads.1 rfl).1 (leads.1 rfl).2 done).imp ?_ ?_
        · rw [core]
          exact (Core.Quiet.semaphores _ _).trans
        · rintro ⟨exits, loaded⟩
          rw [core] at exits
          exact ⟨exits.congr rfl rfl rfl rfl (fun _ => rfl) (fun _ => rfl) (fun _ => rfl), loaded⟩
      | none =>
        cases done
        exact .inl (suspended rfl)
    · exact ih sound call done

theorem quiet_readWait {b : DWord} {maxchars : Int} (sound : k.Sound none) (done : k.readWait b maxchars = .ok k') :
    k.core.Quiet k'.core := by
  unfold readWait at done
  split at done
  · cases done
    exact sound.quiet_sched _
  · obtain ⟨core, mem, done⟩ := bind_ok.mp done
    cases done
    have read : k.core.Quiet core := readChars_quiet mem
    have starts := Core.Quiet.of_frame (frame_start (k.setCore core) core.current) (stays_start _ _)
    exact (read.trans starts).trans (quiet_sysReturn _ _)

theorem quiet_sysRead {b : DWord} {maxchars : Int} (sound : k.Sound none) (call : k.core.InCall)
    (done : k.sysRead b maxchars = .ok k') : k.core.Quiet k'.core := by
  have reading := sound.reading call
  have moved := Core.Quiet.of_frame (frame_move k k.core.current .readBlocked) (stays_move _ _ _)
  rcases sysRead_cases done with ⟨v, rfl⟩ | ⟨-, ⟨-, rfl⟩ | waits⟩
  · exact quiet_sysReturn _ _
  · exact moved.trans (reading.quiet_sched _)
  · exact moved.trans (quiet_readWait reading.toSound waits)

theorem frame_startChild (k : Kernel) (fill : Task) :
    (k.core.nameChild fill).Frame (k.startChild fill).core ∧ (k.core.nameChild fill).Stays (k.startChild fill).core := by
  let child := (((k.setCore (k.core.nameChild fill)).enqueue (.fills k.core.current) fill).clear
    (.fills fill)).clear (.waitList fill)
  exact ⟨(frame_move child fill .readyqueue).trans (frame_sysReturn _ _),
    (stays_move child fill .readyqueue).trans (stays_sysReturn _ _)⟩

theorem startChild_quiet (k : Kernel) (fill : Task) :
    (k.core.nameChild fill).Quiet (k.startChild fill).core :=
  .of_frame (frame_startChild k fill).1 (frame_startChild k fill).2

theorem nameChild_stays (c : Core) (fill : Task) : c.Stays (c.nameChild fill) := by
  refine ⟨rfl, rfl, fun t => ?_⟩
  simp only [Core.nameChild, Core.setTask_task]
  split
  · rename_i same; rw [same]
  · rfl

/-- The PCB taken from the free queue is not the running one's. -/
theorem fill_loaded {c : Core} {fill : Task} (other : fill ≠ c.current) (loaded : c.Loaded) :
    (c.setTask fill fun _ => c.ct).Loaded := by
  unfold Core.Loaded Core.ct at *
  simpa [Ne.symm other] using loaded

/-- What `sys_fork` does to memory ends with the directory of the parent in use. -/
theorem forkMemory_loaded {fill : Task} {c c' : Core} {done : Bool} (other : fill ≠ c.current)
    (obtained : c.forkMemory fill = .ok (done, c')) (loaded : c.Loaded) : c'.Loaded := by
  rw [Core.forkMemory] at obtained
  obtain ⟨fillTP, dir, obtained⟩ := bind_ok.mp obtained
  obtain ⟨zone, _, obtained⟩ := bind_ok.mp obtained
  unfold Core.Loaded Core.ct at loaded ⊢
  dsimp only at obtained
  split at obtained
  · cases obtained
    simp only [Core.setTask_task, Core.setTask_current, Core.setTask_cr3, Ne.symm other, if_false]
    exact loaded
  · obtain ⟨pareTP, parent, obtained⟩ := bind_ok.mp obtained
    obtain ⟨mapped, _, obtained⟩ := bind_ok.mp obtained
    obtain ⟨copied, _, obtained⟩ := bind_ok.mp obtained
    cases obtained
    simp only [Core.ct, Core.setTask_task, Core.setTask_current, Ne.symm other, if_false] at parent ⊢
    exact pointer_ok.mp parent

theorem threadMemory_stays {fill : Task} {stack parameter : DWord} {c c' : Core}
    (obtained : c.threadMemory fill stack parameter = .ok c') : c.Stays c' := by
  rw [Core.threadMemory] at obtained
  obtain ⟨dir, _, obtained⟩ := bind_ok.mp obtained
  obtain ⟨mm, _, obtained⟩ := bind_ok.mp obtained
  obtain ⟨mm, _, obtained⟩ := bind_ok.mp obtained
  cases obtained
  exact ⟨rfl, rfl, fun _ => rfl⟩

theorem sysDynMem_loaded {c c' : Core} {numPags : Int} (done : c.sysDynMem numPags = .ok c')
    (loaded : c.Loaded) : c'.Loaded := by
  rw [Core.sysDynMem] at done
  obtain ⟨zone, _, done⟩ := bind_ok.mp done
  obtain ⟨dir, here, done⟩ := bind_ok.mp done
  have kept (mm : Mm) (v : Option Int) : ({ c with mm }.sysReturn v).Loaded := by
    simpa [Core.Loaded, Core.ct, Core.sysReturn] using loaded
  split at done
  · cases done
    exact kept c.mm _
  split at done
  · split at done
    · contradiction
    obtain ⟨⟨grown, mm⟩, _, done⟩ := bind_ok.mp done
    dsimp only at done
    split at done <;> cases done <;> exact kept _ _
  dsimp only at done
  split at done
  · cases done
    exact kept c.mm _
  · obtain ⟨mm, _, done⟩ := bind_ok.mp done
    cases done
    simpa [Core.Loaded, Core.ct, Core.sysReturn] using pointer_ok.mp here

theorem remembers_sysFork (sound : k.Sound none) (call : k.core.InCall) (done : k.sysFork = .ok k') :
    Remembers k.core (.syscall .fork) k'.core := by
  rcases sysFork_cases done with ⟨v, rfl⟩ | ⟨fill, rest, core, first, outcome⟩
  · exact remembers_quiet (quiet_sysReturn _ _)
  obtain ⟨dead, other, _, _⟩ := sound.takeFree first call
  have loads {complete : Bool} (mem : (k.core.setTask fill fun _ => k.core.ct).forkMemory fill = .ok (complete, core))
      (loaded : k.core.Loaded) : core.Loaded :=
    forkMemory_loaded (c := k.core.setTask fill fun _ => k.core.ct) other mem (fill_loaded other loaded)
  rcases outcome with ⟨mem, rfl⟩ | ⟨mem, rfl⟩
  · have mem := mapError_ok.mp mem
    have started := startChild_quiet ((((k.dequeue .freequeue fill).setTask fill fun _ => k.core.ct)).setCore core) fill
    exact ⟨.forked dead mem started.toSameSpace, fun loaded =>
      started.loaded ((nameChild_stays core fill).loaded (loads mem loaded))⟩
  · have mem := mapError_ok.mp mem
    have back := quiet_sysReturn ((((k.dequeue .freequeue fill).setTask fill fun _ => k.core.ct).setCore core).enqueue
      .freequeue fill) (some (-eNOMEM))
    exact ⟨.unforked dead mem back.toSameSpace, back.loaded ∘ loads mem⟩

theorem remembers_sysCreateThread {function stack parameter : DWord} (sound : k.Sound none) (call : k.core.InCall)
    (done : k.sysCreateThread function stack parameter = .ok k') :
    Remembers k.core (.syscall (.createThread function stack parameter)) k'.core := by
  rcases sysCreateThread_cases done with ⟨v, rfl⟩ | ⟨fill, rest, core, first, mem, rfl⟩
  · exact remembers_quiet (quiet_sysReturn _ _)
  obtain ⟨dead, other, _, _⟩ := sound.takeFree first call
  have mem : (k.core.setTask fill fun _ => k.core.ct).threadMemory fill stack parameter = .ok core := mapError_ok.mp mem
  have started := startChild_quiet ((((k.dequeue .freequeue fill).setTask fill fun _ => k.core.ct)).setCore core) fill
  exact ⟨.thread call.task dead mem started.toSameSpace, fun loaded => started.loaded
    ((nameChild_stays core fill).loaded ((threadMemory_stays mem).loaded (fill_loaded other loaded)))⟩

theorem remembers_exit {e : Event} (exits : k.core.Quiet k'.core ∨ k.core.Exits k'.core ∧ k'.core.Loaded) :
    Remembers k.core e k'.core := by
  rcases exits with quiet | ⟨exits, loaded⟩
  · exact remembers_quiet quiet
  · exact ⟨.exit exits, fun _ => loaded⟩

theorem Sound.quiet_sysUnblock (sound : k.Sound none) (call : k.core.InCall) (pid : Int) :
    k.core.Quiet (k.sysUnblock pid).core := by
  have loop := Sound.unblockLoop sound call pid
  have frame := frame_unblock pid (k.queues (.fills k.core.current)) (-1, k)
  have stays := stays_unblock pid (k.queues (.fills k.core.current)) (-1, k)
  exact Core.Quiet.trans (.of_frame frame stays) (loop.1.quiet_sched _)

theorem Sound.quiet_sysBlock (sound : k.Sound none) (call : k.core.InCall) : k.core.Quiet k.sysBlock.core := by
  unfold sysBlock
  split
  · exact sound.quiet_park call .block trivial (by simp [Kont.waitHead])
  · have spent := Core.Quiet.of_frame
      (frame_setTask k k.core.current (fun t => { t with pendingUnblocks := int32 (t.pendingUnblocks - 1) })
        fun _ => ⟨rfl, rfl, rfl, id⟩)
      (stays_setTask k _ _ fun _ => rfl)
    exact spent.trans (quiet_sysReturn _ _)

theorem Sound.quiet_sysWaitThread (sound : k.Sound none) (call : k.core.InCall) (pid : Int)
    (found : ∀ t, k.core.taskOf pid = some t → k.core.live t) : k.core.Quiet (k.sysWaitThread pid).core := by
  unfold sysWaitThread
  split
  · exact quiet_sysReturn _ _
  · rename_i bt here
    refine sound.quiet_park call _ trivial fun h waits => ?_
    cases waits
    exact .inl (found bt here)

theorem quiet_sysSemCreate (k : Kernel) (initialValue : Int) : k.core.Quiet (k.sysSemCreate initialValue).core := by
  unfold sysSemCreate
  split
  · exact quiet_sysReturn _ _
  · rename_i i found
    have filled : k.core.Quiet (k.core.fillSlot i initialValue) :=
      ⟨⟨rfl, fun _ _ => rfl, fun _ _ => rfl, fun _ _ => id, .refl _⟩, id⟩
    exact filled.trans (quiet_sysReturn ((k.setCore (k.core.fillSlot i initialValue)).clear _) _)

theorem Sound.quiet_sysSemWait (sound : k.Sound none) (call : k.core.InCall) (semid : Int) :
    k.core.Quiet (k.sysSemWait semid).core := by
  rcases sysSemWait_cases k semid with ⟨v, done⟩ | ⟨i, value, free, done | ⟨v, done⟩⟩ <;> rw [done]
  · exact quiet_sysReturn _ _
  · refine (quiet_setSem k i _).trans ((sound.countSem free value).quiet_park (inCall_setSem call i _) _ trivial ?_)
    rintro h ⟨⟩
    simp [Core.Valid, free]
  · exact (quiet_setSem k i _).trans (quiet_sysReturn _ _)

theorem Sound.quiet_sysSemSignal (sound : k.Sound none) (call : k.core.InCall) {semid : Int}
    (done : k.sysSemSignal semid = .ok k') : k.core.Quiet k'.core := by
  rcases sysSemSignal_cases done with ⟨v, rfl⟩ | ⟨i, value, free, ⟨t, rest, first, rfl⟩ | ⟨v, rfl⟩⟩
  · exact quiet_sysReturn _ _
  · have woken := ((sound.countSem free value).wakeFirst (inCall_setSem call i _) first).1
    exact (quiet_setSem k i _).trans
      (Core.Quiet.trans (.of_frame (frame_wake _ t) (stays_wake _ t)) (woken.quiet_sched _))
  · exact (quiet_setSem k i _).trans (quiet_sysReturn _ _)

/-- The end of a destruction inside a call: only semaphores have changed. -/
theorem quiet_destroyed {r : Option Int × Kernel}
    (changed : r.1.isSome → ∃ semaphores, r.2.core = { k.core with semaphores }) (done : r.1.isSome) :
    k.core.Quiet r.2.core := by
  obtain ⟨semaphores, core⟩ := changed done
  rw [core]
  exact .semaphores _ _

theorem Sound.quiet_sysSemDestroy (sound : k.Sound none) (call : k.core.InCall) (semid : Int) :
    k.core.Quiet (k.sysSemDestroy semid).core := by
  unfold sysSemDestroy
  split
  · exact quiet_sysReturn _ _
  have changed := destroySlots_core semid .syscall (List.finRange numSems) (k := k)
  have suspended := quiet_destroySlots semid .syscall (List.finRange numSems) sound call
  split <;> rename_i result <;> rw [result] at changed suspended
  · exact (quiet_destroyed changed rfl).trans (quiet_sysReturn _ _)
  · exact suspended rfl

theorem remembers_syscall {request : Syscall} (sound : k.Sound none) (call : k.core.InCall)
    (formed : request.WellFormed) (allowed : k.core.Allowed (.syscall request)) (done : k.syscall request = .ok k') :
    Remembers k.core (.syscall request) k'.core := by
  cases request with
  | getpid => cases done; exact remembers_quiet (quiet_sysReturn _ _)
  | fork => exact remembers_sysFork sound call done
  | createThread function stack parameter => exact remembers_sysCreateThread sound call done
  | exit => exact remembers_exit (exitSlots_exits _ sound call done)
  | block => cases done; exact remembers_quiet (sound.quiet_sysBlock call)
  | unblock pid => cases done; exact remembers_quiet (sound.quiet_sysUnblock call pid)
  | waitThread pid => cases done; exact remembers_quiet (sound.quiet_sysWaitThread call pid allowed)
  | read b maxchars => exact remembers_quiet (quiet_sysRead sound call done)
  | dynMem numPags =>
    obtain ⟨core, mem, done⟩ := bind_ok.mp done
    cases done
    have mem : k.core.sysDynMem numPags = .ok core := mapError_ok.mp mem
    exact ⟨.dynMem formed mem (.refl _), sysDynMem_loaded mem⟩
  | semCreate initialValue => cases done; exact remembers_quiet (quiet_sysSemCreate k initialValue)
  | semWait semid => cases done; exact remembers_quiet (sound.quiet_sysSemWait call semid)
  | semSignal semid => exact remembers_quiet (sound.quiet_sysSemSignal call done)
  | semDestroy semid => cases done; exact remembers_quiet (sound.quiet_sysSemDestroy call semid)

/-- A step behind one that memory management does not see. -/
theorem remembers_after {c : Core} {e : Event} (quiet : c.Quiet k.core)
    (exits : k.core.Exits k'.core → c.Exits k'.core)
    (rest : k.core.Quiet k'.core ∨ k.core.Exits k'.core ∧ k'.core.Loaded) : Remembers c e k'.core :=
  match rest with
  | .inl rest => remembers_quiet (quiet.trans rest)
  | .inr rest => ⟨.exit (exits rest.1), fun _ => rest.2⟩

theorem Inv.remembers_resume (inv : k.Inv) (done : k.resume = .ok k') : Remembers k.core .resume k'.core := by
  have used : k.core.Quiet (k.setTask k.core.current fun ts => { ts with kEsp := .user }).core :=
    .of_frame (frame_setTask k _ _ fun _ => ⟨rfl, rfl, rfl, id⟩) (stays_setTask k _ _ fun _ => rfl)
  unfold Kernel.resume at done
  cases kEsp : k.core.ct.kEsp with
  | read b maxchars =>
    rw [kEsp] at done
    exact remembers_quiet (used.trans (quiet_readWait inv.used done))
  | exited =>
    rw [kEsp] at done
    contradiction
  | semDestroy i semid caller =>
    obtain ⟨sound, call, free, unmarked⟩ := inv.resume_destroyer kEsp
    have leads := sound.destroyFrom call i semid caller free unmarked
    have changed (ends : ((k.setTask k.core.current fun ts => { ts with kEsp := .user }).destroyFrom i semid
        caller).1.isSome) := destroyFrom_core ends
    have suspended := quiet_destroyFrom sound call semid caller free unmarked
    rw [kEsp] at done
    simp only [goOn] at done
    generalize (k.setTask k.core.current fun ts => { ts with kEsp := .user }).destroyFrom i semid caller = r at *
    obtain ⟨v, middle⟩ := r
    cases v with
    | none => cases done; exact remembers_quiet (used.trans (suspended rfl))
    | some v =>
      have destroyed := used.trans (quiet_destroyed changed rfl)
      obtain ⟨semaphores, core⟩ := changed rfl
      cases caller with
      | syscall => cases done; exact remembers_quiet (destroyed.trans (quiet_sysReturn _ _))
      | exit j =>
        dsimp only at core
        refine remembers_after destroyed (fun exits => ?_) (exitSlots_exits _ (leads.1 rfl).1 (leads.1 rfl).2 done)
        rw [core] at exits
        refine exits.congr rfl rfl rfl rfl (fun t => ?_) (fun t => ?_) fun t => ?_ <;>
          simp only [setTask_core, Core.setTask_task] <;> split <;> simp_all
  | _ =>
    rw [kEsp] at done
    cases done
    first | exact remembers_quiet used | exact remembers_quiet (used.trans (quiet_sysReturn _ _))

/-- What a step does to memory, and that the directory in use stays that of the running task. -/
theorem step_remembers {e : Event} (inv : k.Inv) (allowed : k.core.Allowed e) (step : k.Step e k') :
    Remembers k.core e k'.core := by
  obtain ⟨enabled, step⟩ := step
  cases e with
  | clock => cases step; exact remembers_quiet inv.quiet_clockRoutine
  | key readInp => cases step; exact remembers_quiet (inv.quiet_keyboardRoutine readInp)
  | syscall request =>
    exact remembers_syscall inv.toSound (inv.inCall enabled.1 enabled.2.1) enabled.2.2 allowed step
  | resume => exact inv.remembers_resume step

end Kernel
/-! The four calls that change the tables. -/
namespace Core

variable {c core : Core} {fill : Task}

/-- The tables when `sys_fork` asks for frames: a directory is taken and its heap zone reset. -/
def forkTables (c : Core) (pos : Dir) : Mm := c.mm.allocateDir.2.setHeapZone pos 0

/-- The directory of the child: that of the parent where none is free. -/
def forkDir (c : Core) : Option Dir := c.mm.allocateDir.1.or c.ct.dirPagesBaseAddr

/-- The PCB of the child is the parent's but for the directory. -/
def childOf (c : Core) (fill : Task) (pos : Dir) : Core :=
  c.setTask fill fun _ => { c.ct with dirPagesBaseAddr := some pos }

/-- The two ways through the memory part of `sys_fork`. -/
inductive Forked (c : Core) (fill : Task) : Bool → Core → Prop where
  | out {pos zone : Dir} {mm : Mm} (dir : c.forkDir = some pos) (heap : c.ct.myHeap = some zone)
      (none : Mm.allocFrames (numPagData + (c.forkTables pos).heapZones zone).toNat [] (c.forkTables pos) = (none, mm)) :
      Forked c fill false { c.childOf fill pos with mm }
  | done {pos zone pare : Dir} {frames : List Nat} {taken mapped mm : Mm} (dir : c.forkDir = some pos)
      (heap : c.ct.myHeap = some zone) (parent : c.ct.dirPagesBaseAddr = some pare)
      (some : Mm.allocFrames (numPagData + (c.forkTables pos).heapZones zone).toNat [] (c.forkTables pos) =
        (some frames, taken))
      (map : taken.mapChild pos pare frames ((c.forkTables pos).heapZones zone) = .ok mapped)
      (copy : mapped.copyPages pos pare c.cr3 ((c.forkTables pos).heapZones zone) = .ok mm) :
      Forked c fill true { c.childOf fill pos with mm, cr3 := pare }

theorem forkMemory_forked {complete : Bool} (other : fill ≠ c.current)
    (done : (c.setTask fill fun _ => c.ct).forkMemory fill = .ok (complete, core)) : c.Forked fill complete core := by
  have parent (f : TaskStruct → TaskStruct) : (c.setTask fill f).task c.current = c.task c.current := by
    simp [Ne.symm other]
  unfold forkMemory at done
  simp only [setTask_mm, setTask_task, if_true] at done
  obtain ⟨pos, dir, done⟩ := bind_ok.mp done
  obtain ⟨zone, heap, done⟩ := bind_ok.mp done
  rw [pointer_ok] at dir heap
  simp only [ct, setTask_current, setTask_task, Ne.symm other, if_false] at dir heap done
  split at done
  · rename_i mm none
    cases done
    refine (congrArg (c.Forked fill false) ?_).mpr (.out dir heap none)
    simp [childOf, setTask, ct, dir, heap]
  · rename_i frames taken some
    obtain ⟨pare, parent, done⟩ := bind_ok.mp done
    obtain ⟨mapped, map, done⟩ := bind_ok.mp done
    obtain ⟨mm, copy, done⟩ := bind_ok.mp done
    cases done
    refine (congrArg (c.Forked fill true) ?_).mpr (.done dir heap (pointer_ok.mp parent) some map copy)
    simp [childOf, setTask, ct, dir, heap]
/-- A thread counts as another user of the directory. -/
theorem threadMemory_ok {stack parameter : DWord}
    (done : (c.setTask fill fun _ => c.ct).threadMemory fill stack parameter = .ok core) :
    ∃ dir mm, c.ct.dirPagesBaseAddr = some dir ∧ (c.mm.addDirRef dir).SameTables mm ∧
      core = { c.setTask fill fun _ => c.ct with mm } := by
  have stored {d : Dir} {addr value : DWord} {m m' : Mm} (done : m.storeLong d addr value = .ok m') :
      m.SameTables m' :=
    foldlM_keeps m.SameTables (fun _ _ _ _ same round => same.trans (storeByte_tables round)) done (.refl _)
  unfold threadMemory at done
  obtain ⟨dir, own, done⟩ := bind_ok.mp done
  obtain ⟨mm₁, first, done⟩ := bind_ok.mp done
  obtain ⟨mm₂, second, done⟩ := bind_ok.mp done
  cases done
  refine ⟨dir, mm₂, ?_, (stored first).trans (stored second), rfl⟩
  simpa using pointer_ok.mp own

/-- The two ways through the memory part of `sys_exit`. -/
inductive Exited (c : Core) : Core → Prop where
  | shared {dir : Dir} (own : c.ct.dirPagesBaseAddr = some dir) (more : 0 < (c.mm.subDirRef dir).1) :
      Exited c { c with mm := (c.mm.subDirRef dir).2 }
  | last {dir zone : Dir} {data mm : Mm} (own : c.ct.dirPagesBaseAddr = some dir) (heap : c.ct.myHeap = some zone)
      (last : (c.mm.subDirRef dir).1 ≤ 0)
      (first : (c.mm.subDirRef dir).2.releasePages dir
        (Mm.pages pagLogInitData (pagLogInitData + numPagData)) = .ok data)
      (second : data.releasePages dir (Mm.pages pagLogInitHeap (pagLogInitHeap + data.heapZones zone)) = .ok mm) :
      Exited c { c with mm }

theorem exitMemory_exited (done : c.exitMemory = .ok core) : c.Exited core := by
  unfold exitMemory at done
  obtain ⟨dir, own, done⟩ := bind_ok.mp done
  dsimp only at done
  split at done
  · rename_i last
    obtain ⟨data, first, done⟩ := bind_ok.mp done
    obtain ⟨zone, heap, done⟩ := bind_ok.mp done
    obtain ⟨mm, second, done⟩ := bind_ok.mp done
    cases done
    exact .last (pointer_ok.mp own) (pointer_ok.mp heap) last first second
  · rename_i more
    cases done
    exact .shared (pointer_ok.mp own) (by omega)

/-- The ways through `sys_dyn_mem`. -/
inductive Resized (c : Core) (numPags : Int) : Core → Prop where
  | refused {v : Int} : Resized c numPags (c.sysReturn v)
  | grown {zone dir : Dir} {mm : Mm} {v : Int} {done : Bool} (heap : c.ct.myHeap = some zone)
      (own : c.ct.dirPagesBaseAddr = some dir) (positive : 0 < numPags)
      (grow : c.mm.growHeap dir (c.mm.heapZones zone) numPags.toNat [] = .ok (done, mm)) :
      Resized c numPags ({ c with
        mm := if done then mm.setHeapZone zone (c.mm.heapZones zone + numPags) else mm }.sysReturn v)
  | shrunk {zone dir : Dir} {mm : Mm} {v : Int} (heap : c.ct.myHeap = some zone)
      (own : c.ct.dirPagesBaseAddr = some dir) (negative : numPags < 0)
      (enough : int32 (numPags * -1) ≤ c.mm.heapZones zone)
      (release : c.mm.releasePages dir (Mm.pages
        (int32 (pagLogInitHeap + c.mm.heapZones zone - int32 (numPags * -1)))
        (pagLogInitHeap + c.mm.heapZones zone)) = .ok mm) :
      Resized c numPags ({ c with
        mm := mm.setHeapZone zone (c.mm.heapZones zone - int32 (numPags * -1)), cr3 := dir }.sysReturn v)

theorem sysDynMem_resized {numPags : Int} (done : c.sysDynMem numPags = .ok core) : c.Resized numPags core := by
  unfold sysDynMem at done
  obtain ⟨zone, heap, done⟩ := bind_ok.mp done
  obtain ⟨dir, own, done⟩ := bind_ok.mp done
  rw [pointer_ok] at heap own
  split at done
  · cases done
    exact .refused
  rename_i nonzero
  split at done
  · rename_i positive
    split at done
    · contradiction
    obtain ⟨⟨grown, mm⟩, grow, done⟩ := bind_ok.mp done
    dsimp only at done
    split at done <;> rename_i result
    · cases done
      simpa [result] using Resized.grown heap own positive grow
    · cases done
      simpa [result] using Resized.grown heap own positive grow
  · rename_i negative
    dsimp only at done
    split at done
    · cases done
      exact .refused
    · rename_i enough
      obtain ⟨mm, release, done⟩ := bind_ok.mp done
      cases done
      exact .shrunk heap own (by omega) (by omega) release

end Core
end Zeos
