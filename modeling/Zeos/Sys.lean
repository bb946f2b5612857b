import Zeos.Interrupt
import Zeos.Utils

/-! `sys.c`: the system calls. A call that does not switch tasks returns to user mode
with its value in `eax`; behind a `sched_next_rr()` it continues in `resume`. -/
namespace Zeos

/-- A pointer into `dir_pages` or `heap_zones` that is followed. -/
def pointer (p : Option Dir) : Except MemFault Dir :=
  match p with
  | some d => .ok d
  | none => .error .outside

namespace Mm

/-- `frames[i] = alloc_frame()` for `n` frames; on failure those taken are freed. -/
def allocFrames : Nat → List Nat → Mm → Option (List Nat) × Mm
  | 0, frames, mm => (some frames, mm)
  | n + 1, frames, mm =>
    match mm.allocFrame with
    | (some frame, mm) => allocFrames n (frames ++ [frame]) mm
    | (none, mm) => (none, frames.foldl (fun mm frame => mm.freeFrame frame) mm)

/-- The page table of the child: kernel and code frames of the parent, new frames for
the data and heap pages. -/
def mapChild (fillTP pareTP : Dir) (frames : List Nat) (heap : Int) (mm : Mm) : Except MemFault Mm := do
  let mm ← (Mm.pages 0 numPagKernel).foldlM
    (fun mm i => do mm.setSsPag fillTP i (← mm.getFrame pareTP i)) mm
  let mm ← (Mm.pages pagLogInitCode (pagLogInitCode + numPagCode)).foldlM
    (fun mm i => do mm.setSsPag fillTP i (← mm.getFrame pareTP i)) mm
  let mm ← (List.range numPagData).foldlM
    (fun mm (i : Nat) => mm.setSsPag fillTP (pagLogInitData + (i : Int)) (frames.getD i 0)) mm
  (List.range heap.toNat).foldlM
    (fun mm (i : Nat) => mm.setSsPag fillTP (pagLogInitHeap + (i : Int)) (frames.getD (numPagData + i) 0)) mm

/-- One round of the two copy loops: the child's frame is mapped in the parent at
`i + offset` while the page is copied. -/
def copyThrough (fillTP pareTP : Dir) (cr3 : Dir) (offset : Int) (mm : Mm) (i : Int) : Except MemFault Mm := do
  let mm ← mm.setSsPag pareTP (i + offset) (← mm.getFrame fillTP i)
  let mm ← mm.copyPage cr3 i (i + offset)
  mm.delSsPag pareTP (i + offset)

/-- The copy of the data pages, then of the heap pages. -/
def copyPages (fillTP pareTP cr3 : Dir) (heap : Int) (mm : Mm) : Except MemFault Mm := do
  let mm ← (Mm.pages pagLogInitData (pagLogInitData + numPagData)).foldlM
    (copyThrough fillTP pareTP cr3 (numPagData + numPagCode + heap)) mm
  (Mm.pages pagLogInitHeap (pagLogInitHeap + heap)).foldlM
    (copyThrough fillTP pareTP cr3 (numPagData + heap)) mm

/-- The growing loop of `sys_dyn_mem` with `n` pages to go; `frames` are those taken. -/
def growHeap (d : Dir) (heap : Int) : Nat → List Nat → Mm → Except MemFault (Bool × Mm)
  | 0, _, mm => .ok (true, mm)
  | n + 1, frames, mm =>
    match mm.allocFrame with
    | (none, mm) => do
      let mm ← (List.range frames.length).foldlM (fun mm (j : Nat) =>
        (mm.freeFrame (frames.getD j 0)).delSsPag d (pagLogInitHeap + heap + (j : Int))) mm
      return (false, mm)
    | (some frame, mm) => do
      let mm ← mm.setSsPag d (pagLogInitHeap + heap + (frames.length : Int)) frame
      growHeap d heap n (frames ++ [frame]) mm

end Mm

namespace Core

/-- The memory of a new process: `sys_fork` from `allocate_DIR` to the flush of the TLB.
The Boolean tells whether all frames were obtained. The result of `allocate_DIR` is not
looked at: when it fails, the directory copied from the parent stays. The heap zone of
the new directory is reset, and then the counter of the parent is used. Its `frames` have
room on the kernel stack, the counter being at most `totalPages - pagLogInitHeap`. -/
def forkMemory (fill : Task) (c : Core) : Except MemFault (Bool × Core) := do
  let (dir, mm) := c.mm.allocateDir
  let c := { c with mm }.setTask fill fun t => { t with dirPagesBaseAddr := dir.or t.dirPagesBaseAddr }
  let fillTP ← pointer (c.task fill).dirPagesBaseAddr
  let c := { c with mm := c.mm.setHeapZone fillTP 0 }.setTask fill fun t => { t with myHeap := c.ct.myHeap }
  let zone ← pointer c.ct.myHeap
  let heap := c.mm.heapZones zone
  match c.mm.allocFrames (numPagData + heap).toNat [] with
  | (none, mm) => return (false, { c with mm })
  | (some frames, mm) =>
    let pareTP ← pointer c.ct.dirPagesBaseAddr
    let mm ← mm.mapChild fillTP pareTP frames heap
    let mm ← mm.copyPages fillTP pareTP c.cr3 heap
    return (true, { c with mm, cr3 := pareTP })

/-- The memory of a new thread: a reference to the directory, and the parameter and a
null return address written below `stack`. -/
def threadMemory (fill : Task) (stack parameter : DWord) (c : Core) : Except MemFault Core := do
  let dir ← pointer (c.task fill).dirPagesBaseAddr
  let mm ← (c.mm.addDirRef dir).storeLong c.cr3 (stack - 4) parameter
  let mm ← mm.storeLong c.cr3 (stack - 8) 0
  return { c with mm }

/-- `sys_exit` gives up the directory; the last user of it frees the data and heap frames. -/
def exitMemory (c : Core) : Except MemFault Core := do
  let ctTP ← pointer c.ct.dirPagesBaseAddr
  let (refs, mm) := c.mm.subDirRef ctTP
  if refs ≤ 0 then
    let mm ← mm.releasePages ctTP (Mm.pages pagLogInitData (pagLogInitData + numPagData))
    let zone ← pointer c.ct.myHeap
    let mm ← mm.releasePages ctTP (Mm.pages pagLogInitHeap (pagLogInitHeap + mm.heapZones zone))
    return { c with mm }
  else return { c with mm }

/-- `sys_dyn_mem(num_pags)`. An array `frames[num_pags]` that has no room in the union of the
task overwrites its PCB. -/
def sysDynMem (numPags : Int) (c : Core) : Except MemFault Core := do
  let zone ← pointer c.ct.myHeap
  let heap := c.mm.heapZones zone
  let dir ← pointer c.ct.dirPagesBaseAddr
  if numPags = 0 then return c.sysReturn (some ((pagLogInitHeap + heap) * pageSize))
  else if 0 < numPags then
    if stackFrames < numPags then .error .outside
    else
      let (done, mm) ← c.mm.growHeap dir heap numPags.toNat []
      if done then
        return { c with mm := mm.setHeapZone zone (heap + numPags) }.sysReturn
          (some ((pagLogInitHeap + heap) * pageSize))
      else return { c with mm }.sysReturn (some (-eNOMEM))
  else
    let numPags := int32 (numPags * -1)
    if heap < numPags then return c.sysReturn (some (-eINVAL))
    else
      let mm ← c.mm.releasePages dir
        (Mm.pages (int32 (pagLogInitHeap + heap - numPags)) (pagLogInitHeap + heap))
      return { c with mm := mm.setHeapZone zone (heap - numPags), cr3 := dir }.sysReturn
        (some ((pagLogInitHeap + (heap - numPags)) * pageSize))

/-- `tmpbuff[i] = kb_buffer_pop()` for `n` indices from `i` on. -/
def popChars : Nat → Nat → Core → Except MemFault Core
  | _, 0, c => .ok c
  | i, n + 1, c =>
    if i < readAuxBuffMaxSize then
      let (char, kbBuffer) := c.kbBuffer.pop
      popChars (i + 1) n { c with kbBuffer, tmpbuff := Function.update c.tmpbuff i char }
    else .error .outside

/-- `copy_to_user(tmpbuff, b, n)`. -/
def copyToUser (b : DWord) (n : Nat) (c : Core) : Except MemFault Core := do
  let mm ← (List.range n).foldlM
    (fun mm k => mm.storeByte c.cr3 (b + BitVec.ofNat 32 k) (c.tmpbuff k)) c.mm
  return { c with mm }

/-- `sys_read` takes its characters and delivers them. -/
def readChars (b : DWord) (maxchars : Int) (c : Core) : Except MemFault Core := do
  let c ← c.popChars 0 maxchars.toNat
  c.copyToUser b maxchars.toNat

/-- The first slot with an id, as the loops over `semaphores` find it. -/
def slotOf (semid : Int) (c : Core) : Option SemIndex :=
  (List.finRange numSems).find? fun i => (c.semaphores i).id = semid

/-- The first free slot. -/
def freeSlot (c : Core) : Option SemIndex :=
  (List.finRange numSems).find? fun i => (c.semaphores i).free

/-- The PCB `sys_wait_thread` finds. -/
def taskOf (pid : Int) (c : Core) : Option Task :=
  (List.finRange nrTasks).find? fun t => (c.task t).pid = pid

/-- `sys_semCreate_extended(initial_value, 1)` fills slot `i`. -/
def fillSlot (i : SemIndex) (initialValue : Int) (c : Core) : Core :=
  { c with semIDglobal := int32 (c.semIDglobal + 1) }.setSem i
    fun _ => ⟨c.semIDglobal, initialValue, false, c.sysGetpid, initialValue⟩

/-- The values the child gets in `sys_fork` and `sys_create_thread`. -/
def nameChild (fill : Task) (c : Core) : Core :=
  { c with
    pidGlobal := int32 (c.pidGlobal + 1)
    live := Function.update c.live fill true }.setTask fill fun t =>
      { t with pid := c.pidGlobal, pare := c.current, kEsp := .user, eax := some 0,
               pendingUnblocks := 0, quantum := defaultQuantumTicks }

/-- What `sys_exit` clears in its PCB. -/
def clearTask (c : Core) : Core :=
  { c with live := Function.update c.live c.current false }.setTask c.current fun t =>
    { t with pid := -1, dirPagesBaseAddr := none, pare := none }

/-- The semaphore slots `sys_exit` and `sys_semDestroy` still have to look at. -/
def slotsAfter (i : SemIndex) : List SemIndex := (List.finRange numSems).drop (i.val + 1)

end Core

namespace State

def setCore (core : Core) (s : State) : State := { s with core }

/-- `copy_data(current(), fill, sizeof(union task_union))`: the fields, and the list
nodes inside the PCB with their pointers. -/
def copyTaskUnion (fill : Task) (s : State) : State :=
  let source := s.core.current
  let copy (get : Node → Node) : Node → Node
    | .list t => get (.list (if t = fill then source else t))
    | .parentAnchor t => get (.parentAnchor (if t = fill then source else t))
    | .waitAnchor t => get (.waitAnchor (if t = fill then source else t))
    | .semList t => get (.semList (if t = fill then source else t))
    | .head (.fills t) => get (.head (.fills (if t = fill then source else t)))
    | .head (.waitList t) => get (.head (.waitList (if t = fill then source else t)))
    | n => get n
  { links := ⟨copy s.links.next, copy s.links.prev⟩, core := s.core.setTask fill fun _ => s.core.ct }

/-- The end of `sys_fork` and `sys_create_thread`: the new task enters the tree of tasks
and the ready queue. -/
def startChild (fill : Task) (s : State) : Except Fault State := do
  let pid := s.core.pidGlobal
  let s := s.setCore (s.core.nameChild fill)
  let s ← s.listAddTail (.parentAnchor fill) (.head (.fills s.core.current))
  let s ← s.initListHead (.head (.fills fill))
  let s ← s.initListHead (.head (.waitList fill))
  let s ← s.updateProcessStateRr fill (some .readyqueue)
  return s.sysReturn (some pid)

/-- `sys_fork()`. -/
def sysFork (s : State) : Except Fault State := do
  if ← s.listEmpty (.head .freequeue) then return s.sysReturn (some (-eNOMEM))
  else
    let e ← s.listFirst (.head .freequeue)
    let fill ← listHeadToTaskStruct e
    let s ← s.listDel e
    let s := s.copyTaskUnion fill
    let (done, core) ← memory (s.core.forkMemory fill)
    if done then (s.setCore core).startChild fill
    else
      let s ← (s.setCore core).listAddTail (.list fill) (.head .freequeue)
      return s.sysReturn (some (-eNOMEM))

/-- `sys_create_thread(function, stack, parameter)`. The user context of the new thread
(`function` and `stack`) is not followed further. -/
def sysCreateThread (function stack parameter : DWord) (s : State) : Except Fault State := do
  if ← s.listEmpty (.head .freequeue) then return s.sysReturn (some (-eNOMEM))
  else if ¬ accessOk .read function 4 then return s.sysReturn (some (-eFAULT))
  else if ¬ accessOk .write stack 4 then return s.sysReturn (some (-eFAULT))
  else
    let e ← s.listFirst (.head .freequeue)
    let fill ← listHeadToTaskStruct e
    let s ← s.listDel e
    let s := s.copyTaskUnion fill
    let core ← memory (s.core.threadMemory fill stack parameter)
    (s.setCore core).startChild fill

/-- `sys_semCreate_extended(initial_value, 1)`. -/
def sysSemCreate (initialValue : Int) (s : State) : Except Fault State := do
  match s.core.freeSlot with
  | none => return s.sysReturn (some (-1))
  | some i =>
    let id := s.core.semIDglobal
    let s ← (s.setCore (s.core.fillSlot i initialValue)).initListHead (.head (.blockedThreads i))
    return s.sysReturn (some id)

/-- `sys_semWait_extended(semid, 1)`. -/
def sysSemWait (semid : Int) (s : State) : Except Fault State := do
  if semid < firstUserSemId then return s.sysReturn (some (-eINVAL))
  else
    match s.core.slotOf semid with
    | none => return s.sysReturn (some (-1))
    | some i =>
      if (s.core.semaphores i).free then return s.sysReturn (some (-eINVAL))
      else
        let value := int32 ((s.core.semaphores i).value - 1)
        let s := s.setCore (s.core.setSem i fun m => { m with value })
        if value < 0 then
          let s ← s.listAddTail (.semList s.core.current) (.head (.blockedThreads i))
          let s ← s.updateProcessStateRr s.core.current (some .blocked)
          s.schedNextRr (.semWait i)
        else return s.sysReturn (some (s.core.semaphores i).creatorPID)

/-- The first task of `blockedThreads` leaves it and becomes ready. -/
def wakeFirst (i : SemIndex) (s : State) : Except Fault State := do
  let e ← s.listFirst (.head (.blockedThreads i))
  let firstBlocked ← listHeadToTaskStruct e
  let s ← s.listDel e
  s.updateProcessStateRr firstBlocked (some .readyqueue)

/-- `sys_semSignal_extended(semid, 1)`. -/
def sysSemSignal (semid : Int) (s : State) : Except Fault State := do
  if semid < firstUserSemId then return s.sysReturn (some (-1))
  else
    match s.core.slotOf semid with
    | none => return s.sysReturn (some (-1))
    | some i =>
      if (s.core.semaphores i).free then return s.sysReturn (some (-eINVAL))
      else
        let value := int32 ((s.core.semaphores i).value + 1)
        let s := s.setCore (s.core.setSem i fun m => { m with value })
        if value ≤ 0 then
          let s ← s.wakeFirst i
          s.schedNextRr (.semSignal i)
        else return s.sysReturn (some value)

/-- One test of the wake-up loop of `sys_semDestroy_extended` with its body; `none` when
the list is empty. -/
def destroyRound (i : SemIndex) (semid : Int) (caller : DestroyCaller) (s : State) :
    Except Fault (Option State) := do
  if ← s.listEmpty (.head (.blockedThreads i)) then return none
  else
    let s := s.setCore (s.core.setSem i fun m => { m with creatorPID := -1 })
    let s ← s.wakeFirst i
    let s ← s.schedNextRr (.semDestroy i semid caller)
    return some s

/-- The loop of `sys_semDestroy_extended` over the slots that are left. It ends with the
return value, or with `none` when it is suspended in a `sched_next_rr()`. -/
def destroySlots (semid : Int) (caller : DestroyCaller) :
    List SemIndex → State → Except Fault (Option Int × State)
  | [], s => .ok (some (-1), s)
  | i :: slots, s => do
    if (s.core.semaphores i).id = semid then
      if (s.core.semaphores i).free then return (some (-eINVAL), s)
      else if s.core.ct.pid ≠ (s.core.semaphores i).creatorPID then return (some (-eINVAL), s)
      else
        match ← s.destroyRound i semid caller with
        | some s => return (none, s)
        | none =>
          destroySlots semid caller slots (s.setCore (s.core.setSem i fun m => { m with free := true }))
    else destroySlots semid caller slots s

/-- The wake-up loop of slot `i` goes on, and after it the loop over the slots. -/
def destroyFrom (i : SemIndex) (semid : Int) (caller : DestroyCaller) (s : State) :
    Except Fault (Option Int × State) := do
  match ← s.destroyRound i semid caller with
  | some s => return (none, s)
  | none =>
    destroySlots semid caller (Core.slotsAfter i)
      (s.setCore (s.core.setSem i fun m => { m with free := true }))

/-- `sys_semDestroy_extended(semid, 1)`. -/
def sysSemDestroy (semid : Int) (s : State) : Except Fault State := do
  if semid < firstUserSemId then return s.sysReturn (some (-eINVAL))
  else
    match ← destroySlots semid .syscall (List.finRange numSems) s with
    | (some v, s) => return s.sysReturn (some v)
    | (none, s) => return s

/-- The loop body of `sys_exit` over `fills`. -/
def orphan (pos : Node) (s : State) : Except Fault State := do
  let child ← listHeadToTaskStruct pos
  (s.setTask child fun t => { t with pare := idleTask }).listAddTail pos (.head (.fills idleTask))

/-- The loop body of `sys_exit` over `waitList`. -/
def releaseWaiter (pos : Node) (s : State) : Except Fault State := do
  let waiter ← listHeadToTaskStruct pos
  let s ← s.updateProcessStateRr waiter (some .readyqueue)
  s.listDel pos

/-- `sys_exit` behind its loop over the semaphores. -/
def exitTail (s : State) : Except Fault State := do
  let ct := s.core.current
  let core ← memory s.core.exitMemory
  let s := s.setCore core.clearTask
  let s ← s.listDel (.parentAnchor ct)
  let s ← forEachSafe orphan (.head (.fills ct)) s
  let s ← forEachSafe releaseWaiter (.head (.waitList ct)) s
  let s ← s.updateProcessStateRr ct (some .freequeue)
  s.schedNextRr .exited

/-- The loop of `sys_exit` over the semaphores that are left. -/
def exitSlots : List SemIndex → State → Except Fault State
  | [], s => s.exitTail
  | j :: slots, s => do
    if (s.core.semaphores j).creatorPID = s.core.ct.pid then
      match ← destroySlots (s.core.semaphores j).id (.exit j) (List.finRange numSems) s with
      | (some _, s) => exitSlots slots s
      | (none, s) => return s
    else exitSlots slots s

/-- `sys_exit()`. -/
def sysExit (s : State) : Except Fault State := s.exitSlots (List.finRange numSems)

/-- `sys_block()`. -/
def sysBlock (s : State) : Except Fault State := do
  if s.core.ct.pendingUnblocks ≤ 0 then
    let s ← s.updateProcessStateRr s.core.current (some .blocked)
    s.schedNextRr .block
  else
    return (s.setTask s.core.current fun t =>
      { t with pendingUnblocks := int32 (t.pendingUnblocks - 1) }).sysReturn none

/-- `sys_wait_thread(pid)`. -/
def sysWaitThread (pid : Int) (s : State) : Except Fault State := do
  match s.core.taskOf pid with
  | none => return s.sysReturn (some (-eINVAL))
  | some bt =>
    let s ← s.listAddTail (.waitAnchor s.core.current) (.head (.waitList bt))
    let s ← s.updateProcessStateRr s.core.current (some .blocked)
    s.schedNextRr (.waitThread bt)

/-- The loop body of `sys_unblock`, with its local `ret`. -/
def unblockChild (pid : Int) (pos : Node) : Int × State → Except Fault (Int × State)
  | (ret, s) => do
    let fill ← listHeadToTaskStruct pos
    if (s.core.task fill).pid = pid then
      if (s.core.task fill).currentState = .stBlocked then
        let s ← s.updateProcessStateRr fill (some .readyqueue)
        return (0, s)
      else
        return (0, s.setTask fill fun t => { t with pendingUnblocks := int32 (t.pendingUnblocks + 1) })
    else return (ret, s)

/-- `sys_unblock(pid)`. -/
def sysUnblock (pid : Int) (s : State) : Except Fault State := do
  let (ret, s) ← forEach (unblockChild pid) (.head (.fills s.core.current)) (-1, s)
  s.schedNextRr (.unblock ret)

/-- The waiting loop of `sys_read` and what follows it. -/
def readWait (b : DWord) (maxchars : Int) (s : State) : Except Fault State := do
  if s.core.kbBuffer.size < maxchars.toNat then s.schedNextRr (.read b maxchars)
  else
    let core ← memory (s.core.readChars b maxchars)
    let s ← (s.setCore core).updateProcessStateRr core.current none
    return s.sysReturn (some maxchars)

/-- `sys_read(b, maxchars)`. Both calls of `sched_next_rr()` come back to the test of
the waiting loop. -/
def sysRead (b : DWord) (maxchars : Int) (s : State) : Except Fault State := do
  if b = 0 then return s.sysReturn (some (-eFAULT))
  else if maxchars < 0 then return s.sysReturn (some (-eINVAL))
  else if ¬ accessOk .write b (BitVec.ofInt 32 maxchars) then return s.sysReturn (some (-eFAULT))
  else
    let s ← s.updateProcessStateRr s.core.current (some .readBlocked)
    if ← s.listEmpty (.head .readBlocked) then s.readWait b maxchars
    else
      let e ← s.listFirst (.head .readBlocked)
      let first ← listHeadToTaskStruct e
      if (s.core.task first).pid ≠ s.core.ct.pid then s.schedNextRr (.read b maxchars)
      else s.readWait b maxchars

end State
end Zeos
