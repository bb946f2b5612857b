import Zeos.Bounds

/-! What refused calls leave behind. A `sys_fork` that finds no PCB returns with everything
as it was; one that runs out of frames gives its PCB back as a copy of the parent's, and
keeps the directory. `sys_wait_thread` refuses a PID only if no PCB carries it, free ones
included. -/
namespace Zeos
open Circular Outcome

/-- The free PCBs, in the order of `freequeue`. -/
def State.Spare (s : State) (ts : List Task) : Prop := Ring s.links (.head .freequeue) (ts.map .list)

theorem Refines.spare {s : State} {k : Kernel} (rep : Refines s k) : s.Spare (k.queues .freequeue) :=
  rep.rings.ring .freequeue (rep.main _ rfl)

theorem State.Spare.unique {s : State} {ts us : List Task} (spare : s.Spare ts) (spare' : s.Spare us) : ts = us :=
  List.map_injective_iff.mpr (fun _ _ => Node.list.inj) (Circular.Ring.unique spare spare')

/-- The second state is the first one again, up to the order of `freequeue`. -/
structure State.Restored (s s' : State) : Prop where
  spare : ∃ ts us, s.Spare ts ∧ s'.Spare us ∧ ts.Perm us ∧
    ∀ t ∈ us, (s'.core.task t).pid = -1 ∧ (s'.core.task t).currentState = .stFree
  references : s'.core.mm.dirPagesNumReferences = s.core.mm.dirPagesNumReferences
  physMem : s'.core.mm.physMem = s.core.mm.physMem
  heapZones : ∀ t d, s.core.live t → (s.core.task t).myHeap = some d →
    s'.core.mm.heapZones d = s.core.mm.heapZones d
  pare : ∀ t, s.core.live t → (s'.core.task t).pare = (s.core.task t).pare
  fills : ∀ t ts, s.core.live t → Ring s.links (.head (.fills t)) ts → Ring s'.links (.head (.fills t)) ts
  tables : s'.core.mm.pagusrTable = s.core.mm.pagusrTable

/-- A return to user mode changes no data of the kernel. -/
theorem State.restored_sysReturn {s : State} (v : Option Int) (empty : s.Spare []) : s.Restored (s.sysReturn v) where
  spare := ⟨[], [], empty, empty, .refl _, nofun⟩
  references := rfl
  physMem := rfl
  heapZones _ _ _ _ := rfl
  pare t _ := by
    simp only [sysReturn, Core.sysReturn, Core.setTask_task]
    split <;> simp_all
  fills _ _ _ ring := ring
  tables := rfl

/-- A heap that finds frames and room grows. -/
theorem Mm.growHeap_grows {d : Dir} {heap : Int} {n : Nat} {frames : List Nat} {mm : Mm} (low : 0 ≤ heap)
    (fits : pagLogInitHeap + heap + frames.length + n ≤ totalPages) (enough : n ≤ mm.available) :
    ∃ mm', mm.growHeap d heap n frames = .ok (true, mm') ∧ mm'.available + n = mm.available := by
  induction n generalizing frames mm with
  | zero => exact ⟨mm, rfl, rfl⟩
  | succ n ih =>
    unfold growHeap
    split <;> rename_i got
    · have none := available_none got
      omega
    · rename_i frame taken
      have fewer := available_take got
      obtain ⟨p, index⟩ := Int.eq_ofNat_of_zero_le (show 0 ≤ pagLogInitHeap + heap + frames.length by omega)
      have mapped : taken.setSsPag d (pagLogInitHeap + heap + frames.length) frame =
          .ok (taken.setEntry d p ⟨frame, true, true, true⟩) := setSsPag_ok.mpr ⟨p, index, by omega, rfl⟩
      have same : (taken.setEntry d p ⟨frame, true, true, true⟩).available = taken.available := rfl
      obtain ⟨mm', grown, left⟩ := @ih (frames ++ [frame]) (taken.setEntry d p ⟨frame, true, true, true⟩)
        (by rw [List.length_append, List.length_singleton]; omega) (by omega)
      rw [mapped]
      exact ⟨mm', grown, by omega⟩

theorem Core.sysDynMem_grows {c : Core} {zone dir : Dir} {n : Nat} (heap : c.ct.myHeap = some zone)
    (own : c.ct.dirPagesBaseAddr = some dir) (low : 0 ≤ c.mm.heapZones zone) (more : 0 < n)
    (fits : pagLogInitHeap + c.mm.heapZones zone + n ≤ totalPages) (enough : n ≤ c.mm.available) :
    ∃ mm, c.sysDynMem n = .ok (({ c with mm := mm.setHeapZone zone (c.mm.heapZones zone + n) } : Core).sysReturn
        (some ((pagLogInitHeap + c.mm.heapZones zone) * pageSize))) ∧
      mm.available + n = c.mm.available ∧ c.mm.SameCounts mm := by
  obtain ⟨mm, grown, left⟩ := @Mm.growHeap_grows dir (c.mm.heapZones zone) n [] c.mm low
    (by rw [List.length_nil]; omega) enough
  refine ⟨mm, ?_, left, (Mm.growHeap_only grown).toSameCounts⟩
  have room : (pagLogInitHeap : Int) = 284 ∧ (totalPages : Int) = 1024 ∧ (stackFrames : Int) = 968 := ⟨rfl, rfl, rfl⟩
  unfold sysDynMem
  simp only [heap, own, pointer, ok_bind]
  rw [if_neg (by omega), if_pos (by omega), if_neg (by omega), Int.toNat_natCast, grown]
  rfl

theorem Kernel.step_dynMem {k : Kernel} {core : Core} {numPags : Int} (enabled : k.core.Enabled (.syscall (.dynMem numPags)))
    (done : k.core.sysDynMem numPags = .ok core) : k.Step (.syscall (.dynMem numPags)) (k.setCore core) := by
  refine ⟨enabled, ?_⟩
  simp only [step, syscall, done]
  rfl

/-- A child that cannot get its frames. -/
theorem Core.forkMemory_out {c : Core} {fill : Task} {pos zone : Dir} (other : fill ≠ c.current)
    (dir : c.forkDir = some pos) (heap : c.ct.myHeap = some zone)
    (short : c.mm.available < (numPagData + (c.forkTables pos).heapZones zone).toNat) :
    ∃ core, (c.setTask fill fun _ => c.ct).forkMemory fill = .ok (false, core) := by
  have same : (c.forkTables pos).available = c.mm.available := by
    rw [Mm.available, Mm.available, (c.forkTables_pages pos).2.1]
  have dir' : c.mm.allocateDir.1.or (c.task c.current).dirPagesBaseAddr = some pos := dir
  have heap' : (c.task c.current).myHeap = some zone := heap
  have out : ¬ (Mm.allocFrames (numPagData + (c.mm.allocateDir.2.setHeapZone pos 0).heapZones zone).toNat []
      (c.mm.allocateDir.2.setHeapZone pos 0)).1.isSome := by
    refine mt (Mm.allocFrames_isSome _ [] (c.forkTables pos)).mp ?_
    rw [same]
    exact Nat.not_le.mpr short
  unfold forkMemory
  simp only [setTask_mm, setTask_task, if_true, ct, setTask_current, Ne.symm other, if_false, dir', heap', pointer, ok_bind]
  split
  · exact ⟨_, rfl⟩
  · rename_i got
    rw [got] at out
    exact absurd rfl out

namespace Kernel

variable {k k' : Kernel}

/-- A `sys_fork` that fails with a PCB in hand gives it back as a copy of the parent's. -/
theorem sysFork_failed {fill : Task} {rest : List Task} (sound : k.Sound none) (call : k.core.InCall)
    (positive : 0 < k.core.pidGlobal) (first : k.queues .freequeue = fill :: rest) (done : k.sysFork = .ok k')
    (failed : k'.core.ct.eax = some (-eNOMEM)) :
    fill ∈ k'.queues .freequeue ∧ (k'.core.task fill).pid = k.core.ct.pid := by
  obtain ⟨dead, other, taken, _⟩ := sound.takeFree first call
  unfold sysFork at done
  simp only [first] at done
  obtain ⟨⟨complete, core⟩, mem, done⟩ := bind_ok.mp done
  have forked := Core.forkMemory_forked other (mapError_ok.mp mem)
  cases forked with
  | out dir heap out =>
    cases done
    refine ⟨by simp [enqueue], ?_⟩
    simp [Core.childOf, Core.sysReturn, Core.ct, other]
  | done dir heap parent some map copy =>
    cases done
    rw [startChild, sysReturn_eax] at failed
    have returned : k.core.pidGlobal = -12 := Option.some.inj failed
    omega

end Kernel

/-- A free PCB with a PID was not left as it was found. -/
theorem Refines.not_restored {s s' : State} {k : Kernel} {t : Task} (rep : Refines s' k) (mem : t ∈ k.queues .freequeue)
    (named : (k.core.task t).pid ≠ -1) : ¬ s.Restored s' := by
  intro restored
  obtain ⟨ts, us, -, spare, -, blank⟩ := restored.spare
  have same := spare.unique rep.spare
  subst same
  rw [rep.core] at blank
  exact named (blank t mem).1

/-- A `sys_fork` that returns -ENOMEM leaves the kernel as it was exactly when it found
`freequeue` empty. -/
theorem fork_restores_iff {events : List Event} {s s' : State} (run : RunWhere (fun s e => s.core.Allowed e) events s)
    (allowed : s.core.Allowed (.syscall .fork)) (step : Step s (.syscall .fork) s')
    (failed : s'.core.ct.eax = some (-eNOMEM)) :
    s.Restored s' ↔ s.listEmpty (.head .freequeue) = .ok true := by
  obtain ⟨k, rep, inv, -⟩ := run.invariant Core.Allowed (fun _ => True) (fun _ => trivial) (fun _ _ _ _ on => on)
    fun _ _ _ _ _ _ _ _ => trivial
  rw [rep.core] at allowed
  obtain ⟨k', step', rep', -⟩ := rep.advance inv allowed step
  have empty : s.listEmpty (.head .freequeue) = .ok true ↔ k.queues .freequeue = [] := by
    have head := rep.spare.next_eq_head
    simp only [State.listEmpty, State.loadNext, reduceCtorEq, if_false, ok_bind]
    simpa [pure, Except.pure] using head
  rw [empty]
  constructor
  · intro restored
    by_contra some
    obtain ⟨fill, rest, first⟩ := List.exists_cons_of_ne_nil some
    have call := inv.inCall step'.1.1 step'.1.2.1
    rw [rep'.core] at failed
    obtain ⟨mem, copied⟩ := Kernel.sysFork_failed inv.toSound call allowed first step'.2 failed
    have parent := inv.good.positive k.core.current call.live call.task
    refine rep'.not_restored mem ?_ restored
    rw [copied, Core.ct]
    omega
  · intro none
    have spare := rep.spare
    rw [none] at spare
    have done := step.2
    simp only [State.step, State.syscall, State.sysFork, empty.mpr none, ok_bind, if_true] at done
    cases done
    exact State.restored_sysReturn _ spare

/-- With eight threads there is no PCB left to fork into. -/
theorem fork_restores_full : ∃ s s', RunWhere (fun s e => s.core.Allowed e)
    (List.replicate 8 (.syscall (.createThread 0x114000 0x102000 0))) s ∧ Step s (.syscall .fork) s' ∧
    s'.core.ct.eax = some (-eNOMEM) ∧ s.Restored s' := by
  obtain ⟨s, run, checked⟩ := executeBoot_run (fun s e => s.core.Allowed e)
    (List.replicate 8 (.syscall (.createThread 0x114000 0x102000 0)))
    (fun s => s.core.Allowed (.syscall .fork) ∧ s.core.Enabled (.syscall .fork) ∧
      (s.listEmpty (.head .freequeue)).toOption = some true ∧
      (s.step (.syscall .fork)).toOption.any fun s' => s'.core.ct.eax = some (-eNOMEM)) (by decide +kernel)
  have run : RunWhere (fun s e => s.core.Allowed e)
      (List.replicate 8 (.syscall (.createThread 0x114000 0x102000 0))) s := by simpa using run
  simp only [decide_eq_true_eq] at checked
  obtain ⟨allowed, enabled, empty, failed⟩ := checked
  obtain ⟨s', step, failed⟩ := Step.of_any enabled failed
  have failed : s'.core.ct.eax = some (-eNOMEM) := of_decide_eq_true failed
  refine ⟨s, s', run, step, failed, (fork_restores_iff run allowed step failed).mpr ?_⟩
  cases result : s.listEmpty (.head .freequeue) with
  | ok b => rw [result] at empty; exact congrArg Except.ok (Option.some.inj empty)
  | error e => rw [result] at empty; contradiction


theorem boot_available (ram : Nat → Nat → UInt8) : (bootCore ram).mm.available = 356 := by
  have : booted.core.mm.available = 356 := by decide +kernel
  exact this

/-- The first user task runs alone and has all frames in its heap. -/
structure Kernel.Starved (k : Kernel) : Prop where
  spare : k.queues .freequeue = [2, 3, 4, 5, 6, 7, 8, 9]
  current : k.core.current = task1
  parent : k.core.ct.pid = 1 ∧ k.core.ct.dirPagesBaseAddr = some 2 ∧ k.core.ct.myHeap = some 2 ∧ k.core.ct.kEsp = .user
  pidGlobal : k.core.pidGlobal = 1000
  references : k.core.mm.dirPagesNumReferences = booted.core.mm.dirPagesNumReferences
  heap : k.core.mm.heapZones 2 = 356
  available : k.core.mm.available = 0

theorem Kernel.starves (ram : Nat → Nat → UInt8) : ∃ k, (bootKernel ram).Step (.syscall (.dynMem 356)) k ∧ k.Starved := by
  have one := boot_task1 ram
  have current := boot_current ram
  have enabled : (bootCore ram).Enabled (.syscall (.dynMem (356 : Nat))) := by
    refine ⟨?_, by rw [current]; decide, by decide⟩
    simp [Core.InUser, Core.ct, current, one]
  have heap : (bootCore ram).mm.heapZones 2 = 0 := by
    have : booted.core.mm.heapZones 2 = 0 := by decide +kernel
    exact this
  have own : (bootCore ram).ct.dirPagesBaseAddr = some 2 := by rw [Core.ct, current, one]
  have zone : (bootCore ram).ct.myHeap = some 2 := by rw [Core.ct, current, one]
  have free := boot_available ram
  obtain ⟨mm, done, left, counts⟩ := Core.sysDynMem_grows zone own (n := 356) (by rw [heap]) (by decide)
    (by rw [heap]; decide) (by rw [free])
  have empty : mm.available = 0 := by omega
  refine ⟨_, Kernel.step_dynMem enabled done, ⟨rfl, current, ?_, boot_pidGlobal ram, counts.references, ?_, empty⟩⟩
  · simp [Core.sysReturn, Core.ct, current, one]
  · simp [Mm.setHeapZone, heap, Core.sysReturn]

/-- Without frames a fork fails with a PCB in hand. -/
theorem Kernel.sysFork_out {k : Kernel} {fill : Task} {rest : List Task} {pos zone : Dir}
    (first : k.queues .freequeue = fill :: rest)
    (other : fill ≠ k.core.current) (dir : k.core.forkDir = some pos) (heap : k.core.ct.myHeap = some zone)
    (short : k.core.mm.available < (numPagData + (k.core.forkTables pos).heapZones zone).toNat) :
    ∃ k', k.sysFork = .ok k' ∧ k'.core.ct.eax = some (-eNOMEM) := by
  obtain ⟨core, out⟩ := Core.forkMemory_out other dir heap short
  refine ⟨_, ?_, sysReturn_eax ((((k.dequeue .freequeue fill).setTask fill fun _ => k.core.ct).setCore core).enqueue
    .freequeue fill) _⟩
  unfold sysFork
  simp only [first, setTask_core, dequeue_core, out]
  rfl

/-- The first user task takes all frames and forks: PCB 2 becomes a free one with its PID. -/
theorem fork_without_frames : ∃ s s', RunWhere (fun s e => s.core.Allowed e) [.syscall (.dynMem 356)] s ∧
    s.core.Allowed (.syscall .fork) ∧ Step s (.syscall .fork) s' ∧ s'.core.ct.eax = some (-eNOMEM) ∧
    ¬ s.Restored s' ∧ s.listEmpty (.head .freequeue) = .ok false ∧ s'.core.live 2 = false ∧ (s'.core.task 2).pid = 1 := by
  obtain ⟨k, first, starved⟩ := Kernel.starves fun _ _ => 0
  have free : (bootKernel fun _ _ => 0).core.Allowed (.syscall (.dynMem 356)) := by
    show (356 : Int) ≤ stackFrames
    decide
  obtain ⟨s, step, rep⟩ := (boot_refines _).realize (boot_inv _) free first
  have inv := Kernel.step_inv (boot_inv _) free first
  obtain ⟨pid, own, zone, user⟩ := starved.parent
  have found : (List.finRange nrTasks).find? (fun i => booted.core.mm.dirPagesNumReferences i ≤ 0) = some 3 := by
    decide +kernel
  have dir : k.core.forkDir = some 3 := by
    rw [Core.forkDir, Mm.allocateDir, starved.references, found]
    rfl
  have short : k.core.mm.available < (numPagData + (k.core.forkTables 3).heapZones 2).toNat := by
    rw [(k.core.forkTables_pages 3).2.2, Function.update_of_ne (by decide), starved.heap, starved.available]
    decide
  have positive : k.core.Allowed (.syscall .fork) := by
    rw [Core.Allowed, starved.pidGlobal]
    decide
  have enabled : k.core.Enabled (.syscall .fork) := ⟨user, by rw [starved.current]; decide, trivial⟩
  obtain ⟨k', done, failed⟩ := Kernel.sysFork_out starved.spare (by rw [starved.current]; decide) dir zone short
  obtain ⟨s', step', rep'⟩ := rep.realize inv positive ⟨enabled, done⟩
  obtain ⟨mem, copied⟩ := Kernel.sysFork_failed inv.toSound (inv.inCall enabled.1 enabled.2.1) positive starved.spare done failed
  have inv' := Kernel.step_inv inv positive ⟨enabled, done⟩
  have dead := ((inv'.placed.mem .freequeue 2).mp mem).1
  rw [pid] at copied
  have spare := rep.spare
  rw [starved.spare] at spare
  refine ⟨s, s', ⟨_, _, boot_eq _, .single ⟨free, step⟩⟩, by rw [rep.core]; exact positive, step',
    by rw [rep'.core]; exact failed, rep'.not_restored mem (by rw [copied]; decide), ?_,
    by rw [rep'.core]; exact dead, by rw [rep'.core]; exact copied⟩
  have next := spare.next_cons
  simp [State.listEmpty, State.loadNext, next, pure, Except.pure]

namespace State

variable {s s' : State} {n value : Node} {t u : Task}

theorem storeNext_core (done : s.storeNext n value = .ok s') : s'.core = s.core := by
  unfold storeNext at done
  split at done
  · split at done
    · cases done; rfl
    · contradiction
  · cases done; rfl

theorem storePrev_core (done : s.storePrev n value = .ok s') : s'.core = s.core := by
  unfold storePrev at done
  split at done
  · split at done
    · cases done; rfl
    · contradiction
  · cases done; rfl

theorem listAddTail_core {head : Node} (done : s.listAddTail n head = .ok s') : s'.core = s.core := by
  obtain ⟨prev, -, done⟩ := bind_ok.mp done
  obtain ⟨s₁, first, done⟩ := bind_ok.mp done
  obtain ⟨s₂, second, done⟩ := bind_ok.mp done
  obtain ⟨s₃, third, last⟩ := bind_ok.mp done
  rw [storeNext_core last, storePrev_core third, storeNext_core second, storePrev_core first]

theorem listDel_core (done : s.listDel n = .ok s') : s'.core = s.core := by
  obtain ⟨prev, -, done⟩ := bind_ok.mp done
  obtain ⟨next, -, done⟩ := bind_ok.mp done
  obtain ⟨s₁, first, done⟩ := bind_ok.mp done
  obtain ⟨s₂, second, done⟩ := bind_ok.mp done
  obtain ⟨s₃, third, last⟩ := bind_ok.mp done
  rw [storePrev_core last, storeNext_core third, storeNext_core second, storePrev_core first]

/-- The saved stacks and the running task are the same. -/
def SameStacks (s s' : State) : Prop :=
  s'.core.current = s.core.current ∧ ∀ t, (s'.core.task t).kEsp = (s.core.task t).kEsp

theorem SameStacks.of_core (same : s'.core = s.core) : s.SameStacks s' := ⟨by rw [same], fun _ => by rw [same]⟩

theorem SameStacks.trans {s'' : State} (first : s.SameStacks s') (second : s'.SameStacks s'') : s.SameStacks s'' :=
  ⟨second.1.trans first.1, fun t => (second.2 t).trans (first.2 t)⟩

theorem SameStacks.restate (state : TaskState) :
    s.SameStacks (s.setTask t fun ts => { ts with currentState := state }) := by
  refine ⟨rfl, fun u => ?_⟩
  simp only [setTask, Core.setTask_task]
  split <;> simp_all

theorem setState_stacks (dest : Head) : s.SameStacks (s.setState t dest) := by
  cases dest <;> first | exact .restate _ | exact .of_core rfl

/-- A change of state and queue leaves every saved stack alone. -/
theorem updateProcessStateRr_stacks {dest : Option Head} (done : s.updateProcessStateRr t dest = .ok s') :
    s.SameStacks s' := by
  unfold updateProcessStateRr at done
  split at done
  · exact (setState_stacks _).trans (.of_core (listAddTail_core done))
  · obtain ⟨s₁, left, done⟩ := bind_ok.mp done
    have first : s.SameStacks s₁ := by
      unfold leaveList at left
      split at left
      · exact .of_core (listDel_core left)
      · cases left; exact .of_core rfl
    cases dest with
    | none =>
      cases done
      exact first.trans (.restate _)
    | some dest =>
      dsimp only at done
      split at done
      · exact first.trans ((setState_stacks _).trans (.of_core (listAddTail_core done)))
      · cases done
        exact first.trans (setState_stacks _)

/-- The task that calls `sched_next_rr()` leaves its continuation on its stack. -/
theorem schedNextRr_saves {kont : Kont} (done : s.schedNextRr kont = .ok s') :
    (s'.core.task s.core.current).kEsp = kont := by
  have saved : ((s.setTask s.core.current fun ts => { ts with kEsp := kont }).core.task s.core.current).kEsp = kont := by
    simp [setTask]
  obtain ⟨nt, -, done⟩ := bind_ok.mp done
  obtain ⟨s₁, requeued, done⟩ := bind_ok.mp done
  obtain ⟨s₂, started, done⟩ := bind_ok.mp done
  have first : (s.setTask s.core.current fun ts => { ts with kEsp := kont }).SameStacks s₁ := by
    unfold requeueCurrent at requeued
    split at requeued
    · exact updateProcessStateRr_stacks requeued
    · cases requeued; exact .of_core rfl
  have both := first.trans (updateProcessStateRr_stacks started)
  rw [← saved, ← both.2]
  dsimp only at done
  split at done
  · unfold taskSwitch at done
    split at done
    · split at done
      · cases done; rfl
      · contradiction
    · cases done; rfl
  · cases done; rfl

end State

/-- `sys_wait_thread(pid)` returns -EINVAL to its caller and changes nothing else. -/
def State.Refuses (s : State) (pid : Int) : Prop :=
  s.step (.syscall (.waitThread pid)) = .ok (s.sysReturn (some (-eINVAL)))

/-- A PID that no live task has is refused exactly when no free PCB carries it. -/
theorem wait_thread_refuses_iff (s : State) (pid : Int) (strange : ∀ t, s.core.live t → (s.core.task t).pid ≠ pid) :
    s.Refuses pid ↔ ∀ t, s.core.live t = false → (s.core.task t).pid ≠ pid := by
  have none_iff : s.core.taskOf pid = none ↔ ∀ t, s.core.live t = false → (s.core.task t).pid ≠ pid := by
    simp only [Core.taskOf, List.find?_eq_none, List.mem_finRange, decide_eq_true_eq, forall_const]
    refine forall_congr' fun t => ?_
    by_cases live : s.core.live t
    · simp [live, strange t live]
    · simp [live]
  rw [← none_iff]
  unfold State.Refuses
  simp only [State.step, State.syscall, State.sysWaitThread]
  cases found : s.core.taskOf pid with
  | none => exact iff_of_true rfl rfl
  | some bt =>
    refine iff_of_false (fun refused => ?_) nofun
    -- the caller would go to sleep with its continuation saved
    obtain ⟨s₁, linked, done⟩ := bind_ok.mp refused
    obtain ⟨s₂, blocked, done⟩ := bind_ok.mp done
    have same : s₂.core.current = s.core.current := by
      rw [(State.updateProcessStateRr_stacks blocked).1, State.listAddTail_core linked]
    have saved := State.schedNextRr_saves done
    rw [same] at saved
    simp [State.sysReturn, Core.sysReturn] at saved

/-- Behind boot no PCB carries the PID 77. -/
theorem wait_thread_refuses_77 : (booted.setCore (bootCore fun _ _ => 0)).Refuses 77 :=
  (wait_thread_refuses_iff (booted.setCore (bootCore fun _ _ => 0)) 77 (by decide +kernel)).mpr (by decide +kernel)

/-- Behind boot the free PCBs carry the PID -1, and the heads of their `waitList` are not
initialised: the call runs into a page fault. -/
theorem wait_thread_accepts_free : ∃ s, Run [] s ∧ s.core.Enabled (.syscall (.waitThread (-1))) ∧
    (∀ t, s.core.live t → (s.core.task t).pid ≠ -1) ∧ ¬ s.Refuses (-1) ∧
    s.step (.syscall (.waitThread (-1))) = .error (.memory .pageFault) := by
  have fault : ((booted.setCore (bootCore fun _ _ => 0)).step (.syscall (.waitThread (-1)))).map (fun _ => ()) =
      .error (.memory .pageFault) := by decide +kernel
  have failed : (booted.setCore (bootCore fun _ _ => 0)).step (.syscall (.waitThread (-1))) =
      .error (.memory .pageFault) := by
    rcases result : (booted.setCore (bootCore fun _ _ => 0)).step (.syscall (.waitThread (-1))) with e | s
    · rw [result] at fault
      cases fault
      rfl
    · rw [result] at fault
      contradiction
  refine ⟨_, ⟨_, _, boot_eq fun _ _ => 0, .nil⟩, by decide +kernel, by decide +kernel, fun refused => ?_, failed⟩
  rw [State.Refuses, failed] at refused
  contradiction

end Zeos
