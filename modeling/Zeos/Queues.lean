import Zeos.Machine

/-! The kernel with its lists as sequences of tasks. The operations say what the system
calls do to the queues when every node is linked where its PCB says; no pointer is
followed, so nothing here can run into a broken list. -/
namespace Zeos

abbrev Queues := Head → List Task

/-- The field of a PCB that links it into a list. -/
def Head.anchor : Head → Task → Node
  | .fills _ => .parentAnchor
  | .waitList _ => .waitAnchor
  | .blockedThreads _ => .semList
  | _ => .list

/-- The state of the tasks in a queue. -/
def Head.state : Head → TaskState
  | .readyqueue => .stReady
  | .blocked => .stBlocked
  | .readBlocked => .stReadblocked
  | _ => .stFree

/-- The queue a task of some state is in. -/
def TaskState.queue : TaskState → Option Head
  | .stRun => none
  | .stFree => some .freequeue
  | .stReady => some .readyqueue
  | .stBlocked => some .blocked
  | .stReadblocked => some .readBlocked

/-- The second list a sleeping task waits in. -/
def Kont.waitHead : Kont → Option Head
  | .waitThread bt => some (.waitList bt)
  | .semWait i => some (.blockedThreads i)
  | _ => none

namespace TaskState

variable {s : TaskState}

/-- The state that a task has in the queue. -/
theorem queue_eq_some {h : Head} : s.queue = some h ↔ s = .stFree ∧ h = .freequeue ∨ s = .stReady ∧ h = .readyqueue ∨
    s = .stBlocked ∧ h = .blocked ∨ s = .stReadblocked ∧ h = .readBlocked := by
  cases s <;> simp [queue, eq_comm]

@[simp] theorem queue_freequeue : s.queue = some .freequeue ↔ s = .stFree := by simp [queue_eq_some]
@[simp] theorem queue_readyqueue : s.queue = some .readyqueue ↔ s = .stReady := by simp [queue_eq_some]
@[simp] theorem queue_blocked : s.queue = some .blocked ↔ s = .stBlocked := by simp [queue_eq_some]
@[simp] theorem queue_readBlocked : s.queue = some .readBlocked ↔ s = .stReadblocked := by simp [queue_eq_some]
@[simp] theorem queue_fills (t : Task) : s.queue ≠ some (.fills t) := by simp [queue_eq_some]
@[simp] theorem queue_waitList (t : Task) : s.queue ≠ some (.waitList t) := by simp [queue_eq_some]
@[simp] theorem queue_blockedThreads (i : SemIndex) : s.queue ≠ some (.blockedThreads i) := by simp [queue_eq_some]

end TaskState

namespace Kont

variable {x : Kont}

/-- What a task waits for in the list. -/
theorem waitHead_eq_some {h : Head} : x.waitHead = some h ↔ (∃ u, x = .waitThread u ∧ h = .waitList u) ∨
    ∃ i, x = .semWait i ∧ h = .blockedThreads i := by
  cases x <;> simp [waitHead, eq_comm]

@[simp] theorem waitHead_waitList (u : Task) : x.waitHead = some (.waitList u) ↔ x = .waitThread u := by
  simp [waitHead_eq_some]
@[simp] theorem waitHead_blockedThreads (i : SemIndex) :
    x.waitHead = some (.blockedThreads i) ↔ x = .semWait i := by simp [waitHead_eq_some]
@[simp] theorem waitHead_freequeue : x.waitHead ≠ some .freequeue := by simp [waitHead_eq_some]
@[simp] theorem waitHead_readyqueue : x.waitHead ≠ some .readyqueue := by simp [waitHead_eq_some]
@[simp] theorem waitHead_blocked : x.waitHead ≠ some .blocked := by simp [waitHead_eq_some]
@[simp] theorem waitHead_readBlocked : x.waitHead ≠ some .readBlocked := by simp [waitHead_eq_some]
@[simp] theorem waitHead_fills (u : Task) : x.waitHead ≠ some (.fills u) := by simp [waitHead_eq_some]

end Kont

structure Kernel where
  queues : Queues
  core : Core

namespace Kernel

def setCore (core : Core) (k : Kernel) : Kernel := { k with core }

def setTask (t : Task) (f : TaskStruct → TaskStruct) (k : Kernel) : Kernel :=
  k.setCore (k.core.setTask t f)

def setSem (i : SemIndex) (f : Semaphore → Semaphore) (k : Kernel) : Kernel :=
  k.setCore (k.core.setSem i f)

def sysReturn (v : Option Int) (k : Kernel) : Kernel := k.setCore (k.core.sysReturn v)

def enqueue (h : Head) (t : Task) (k : Kernel) : Kernel :=
  { k with queues := Function.update k.queues h (k.queues h ++ [t]) }

def dequeue (h : Head) (t : Task) (k : Kernel) : Kernel :=
  { k with queues := Function.update k.queues h ((k.queues h).erase t) }

def clear (h : Head) (k : Kernel) : Kernel := { k with queues := Function.update k.queues h [] }

/-- Into or out of a list that need not be there. -/
def enqueue? (h : Option Head) (t : Task) (k : Kernel) : Kernel :=
  match h with
  | some h => k.enqueue h t
  | none => k

def dequeue? (h : Option Head) (t : Task) (k : Kernel) : Kernel :=
  match h with
  | some h => k.dequeue h t
  | none => k

/-- The task changes its state and its queue. -/
def move (t : Task) (h : Head) (k : Kernel) : Kernel :=
  ((k.dequeue? (k.core.task t).currentState.queue t).setTask t
    fun ts => { ts with currentState := h.state }).enqueue h t

/-- The running task falls asleep, to continue with `kont`. -/
def park (kont : Kont) (k : Kernel) : Kernel :=
  ((k.enqueue? kont.waitHead k.core.current).move k.core.current .blocked).setTask k.core.current
    fun ts => { ts with kEsp := kont }

/-- A sleeping task becomes ready. -/
def wake (t : Task) (k : Kernel) : Kernel :=
  (k.dequeue? (k.core.task t).kEsp.waitHead t).move t .readyqueue

/-- The task that gets the processor, and the three steps that give it. -/
def next (k : Kernel) : Task := (k.queues .readyqueue).headD idleTask

def yield (k : Kernel) : Kernel :=
  if k.core.ct.currentState = .stRun then
    if k.core.current = idleTask then k.setTask idleTask fun ts => { ts with currentState := .stReady }
    else k.move k.core.current .readyqueue
  else k

def start (t : Task) (k : Kernel) : Kernel :=
  (if t = idleTask then k else k.dequeue? (k.core.task t).currentState.queue t).setTask t
    fun ts => { ts with currentState := .stRun }

def switch (new : Task) (k : Kernel) : Kernel :=
  k.setCore { k.core with
    current := new
    cr3 := if (k.core.task new).dirPagesBaseAddr ≠ k.core.ct.dirPagesBaseAddr then
        (k.core.task new).dirPagesBaseAddr.getD k.core.cr3
      else k.core.cr3 }

def setQuantum (t : Task) (k : Kernel) : Kernel :=
  k.setCore { k.core with tickCounter := (k.core.task t).quantum }

def dispatch (k : Kernel) : Kernel :=
  (((k.yield).start k.next).setQuantum k.next).switch k.next

def sched (kont : Kont) (k : Kernel) : Kernel :=
  (k.setTask k.core.current fun ts => { ts with kEsp := kont }).dispatch

def keyboardRoutine (readInp : UInt8) (k : Kernel) : Kernel :=
  match keyChar readInp with
  | none => k
  | some charPrint =>
    let k := k.setCore { k.core with kbBuffer := k.core.kbBuffer.press charPrint }
    match k.queues .readBlocked with
    | [] => k
    | nt :: _ => k.yield.switch nt

def clockRoutine (k : Kernel) : Kernel :=
  let tick := if 0 < k.core.tickCounter then k.core.tickCounter - 1 else k.core.tickCounter
  let k := k.setCore { k.core with zeosTick := int32 (k.core.zeosTick + 10), tickCounter := tick }
  if tick ≤ 0 then k.sched .user else k

/-- The new task enters the tree of tasks and the ready queue. -/
def startChild (fill : Task) (k : Kernel) : Kernel :=
  let pid := k.core.pidGlobal
  let k := (k.setCore (k.core.nameChild fill)).enqueue (.fills k.core.current) fill
  (((k.clear (.fills fill)).clear (.waitList fill)).move fill .readyqueue).sysReturn (some pid)

def sysFork (k : Kernel) : Except Fault Kernel :=
  match k.queues .freequeue with
  | [] => .ok (k.sysReturn (some (-eNOMEM)))
  | fill :: _ => do
    let k := (k.dequeue .freequeue fill).setTask fill fun _ => k.core.ct
    let (done, core) ← memory (k.core.forkMemory fill)
    if done then return (k.setCore core).startChild fill
    else return ((k.setCore core).enqueue .freequeue fill).sysReturn (some (-eNOMEM))

def sysCreateThread (function stack parameter : DWord) (k : Kernel) : Except Fault Kernel :=
  match k.queues .freequeue with
  | [] => .ok (k.sysReturn (some (-eNOMEM)))
  | fill :: _ =>
    if ¬ accessOk .read function 4 then .ok (k.sysReturn (some (-eFAULT)))
    else if ¬ accessOk .write stack 4 then .ok (k.sysReturn (some (-eFAULT)))
    else do
      let k := (k.dequeue .freequeue fill).setTask fill fun _ => k.core.ct
      let core ← memory (k.core.threadMemory fill stack parameter)
      return (k.setCore core).startChild fill

def sysSemCreate (initialValue : Int) (k : Kernel) : Kernel :=
  match k.core.freeSlot with
  | none => k.sysReturn (some (-1))
  | some i =>
    ((k.setCore (k.core.fillSlot i initialValue)).clear (.blockedThreads i)).sysReturn
      (some k.core.semIDglobal)

def sysSemWait (semid : Int) (k : Kernel) : Kernel :=
  if semid < firstUserSemId then k.sysReturn (some (-eINVAL))
  else
    match k.core.slotOf semid with
    | none => k.sysReturn (some (-1))
    | some i =>
      if (k.core.semaphores i).free then k.sysReturn (some (-eINVAL))
      else
        let value := int32 ((k.core.semaphores i).value - 1)
        let k := k.setSem i fun m => { m with value }
        if value < 0 then (k.park (.semWait i)).dispatch
        else k.sysReturn (some (k.core.semaphores i).creatorPID)

def sysSemSignal (semid : Int) (k : Kernel) : Except Fault Kernel :=
  if semid < firstUserSemId then .ok (k.sysReturn (some (-1)))
  else
    match k.core.slotOf semid with
    | none => .ok (k.sysReturn (some (-1)))
    | some i =>
      if (k.core.semaphores i).free then .ok (k.sysReturn (some (-eINVAL)))
      else
        let value := int32 ((k.core.semaphores i).value + 1)
        let k := k.setSem i fun m => { m with value }
        if value ≤ 0 then
          -- the counter says that a task waits; the queue may say otherwise
          match k.queues (.blockedThreads i) with
          | [] => .error .wild
          | t :: _ => .ok ((k.wake t).sched (.semSignal i))
        else .ok (k.sysReturn (some value))

def destroyRound (i : SemIndex) (semid : Int) (caller : DestroyCaller) (k : Kernel) : Option Kernel :=
  match k.queues (.blockedThreads i) with
  | [] => none
  | t :: _ => some (((k.setSem i fun m => { m with creatorPID := -1 }).wake t).sched
      (.semDestroy i semid caller))

def freeSem (i : SemIndex) (k : Kernel) : Kernel := k.setSem i fun m => { m with free := true }

def destroySlots (semid : Int) (caller : DestroyCaller) : List SemIndex → Kernel → Option Int × Kernel
  | [], k => (some (-1), k)
  | i :: slots, k =>
    if (k.core.semaphores i).id = semid then
      if (k.core.semaphores i).free then (some (-eINVAL), k)
      else if k.core.ct.pid ≠ (k.core.semaphores i).creatorPID then (some (-eINVAL), k)
      else
        match k.destroyRound i semid caller with
        | some k => (none, k)
        | none => destroySlots semid caller slots (k.freeSem i)
    else destroySlots semid caller slots k

def destroyFrom (i : SemIndex) (semid : Int) (caller : DestroyCaller) (k : Kernel) : Option Int × Kernel :=
  match k.destroyRound i semid caller with
  | some k => (none, k)
  | none => destroySlots semid caller (Core.slotsAfter i) (k.freeSem i)

def sysSemDestroy (semid : Int) (k : Kernel) : Kernel :=
  if semid < firstUserSemId then k.sysReturn (some (-eINVAL))
  else
    match destroySlots semid .syscall (List.finRange numSems) k with
    | (some v, k) => k.sysReturn (some v)
    | (none, k) => k

def adoptChild (k : Kernel) (child : Task) : Kernel :=
  (k.setTask child fun t => { t with pare := idleTask }).enqueue (.fills idleTask) child

/-- The children of an exiting task go to the idle task. -/
def adopt (ct : Task) (k : Kernel) : Kernel :=
  (k.queues (.fills ct)).foldl adoptChild (k.clear (.fills ct))

/-- A task without a father was never linked: `list_del` follows its NULL pointers. -/
def leaveFather (ct : Task) (father : Option Task) (k : Kernel) : Except Fault Kernel :=
  match father with
  | some u => .ok (k.dequeue (.fills u) ct)
  | none => if k.core.pageZeroMapped then .ok k else .error (.memory .pageFault)

def releaseWaiters (ct : Task) (k : Kernel) : Kernel :=
  (k.queues (.waitList ct)).foldl (fun k t => k.wake t) k

def exitTail (k : Kernel) : Except Fault Kernel := do
  let ct := k.core.current
  let core ← memory k.core.exitMemory
  let k ← (k.setCore core.clearTask).leaveFather ct k.core.ct.pare
  let k := (k.adopt ct).releaseWaiters ct
  return ((k.setTask ct fun t => { t with currentState := .stFree }).enqueue .freequeue ct).sched .exited

def exitSlots : List SemIndex → Kernel → Except Fault Kernel
  | [], k => k.exitTail
  | j :: slots, k =>
    if (k.core.semaphores j).creatorPID = k.core.ct.pid then
      match destroySlots (k.core.semaphores j).id (.exit j) (List.finRange numSems) k with
      | (some _, k) => exitSlots slots k
      | (none, k) => .ok k
    else exitSlots slots k

def sysBlock (k : Kernel) : Kernel :=
  if k.core.ct.pendingUnblocks ≤ 0 then (k.park .block).dispatch
  else
    (k.setTask k.core.current fun t =>
      { t with pendingUnblocks := int32 (t.pendingUnblocks - 1) }).sysReturn none

def sysWaitThread (pid : Int) (k : Kernel) : Kernel :=
  match k.core.taskOf pid with
  | none => k.sysReturn (some (-eINVAL))
  | some bt => (k.park (.waitThread bt)).dispatch

def unblockChild (pid : Int) (r : Int × Kernel) (child : Task) : Int × Kernel :=
  if (r.2.core.task child).pid = pid then
    if (r.2.core.task child).currentState = .stBlocked then (0, r.2.wake child)
    else (0, r.2.setTask child fun t => { t with pendingUnblocks := int32 (t.pendingUnblocks + 1) })
  else r

def sysUnblock (pid : Int) (k : Kernel) : Kernel :=
  let r := (k.queues (.fills k.core.current)).foldl (unblockChild pid) (-1, k)
  r.2.sched (.unblock r.1)

def readWait (b : DWord) (maxchars : Int) (k : Kernel) : Except Fault Kernel := do
  if k.core.kbBuffer.size < maxchars.toNat then return k.sched (.read b maxchars)
  else
    let core ← memory (k.core.readChars b maxchars)
    return ((k.setCore core).start core.current).sysReturn (some maxchars)

def sysRead (b : DWord) (maxchars : Int) (k : Kernel) : Except Fault Kernel :=
  if b = 0 then .ok (k.sysReturn (some (-eFAULT)))
  else if maxchars < 0 then .ok (k.sysReturn (some (-eINVAL)))
  else if ¬ accessOk .write b (BitVec.ofInt 32 maxchars) then .ok (k.sysReturn (some (-eFAULT)))
  else
    let k := k.move k.core.current .readBlocked
    if (k.queues .readBlocked).head? ≠ some k.core.current then .ok (k.sched (.read b maxchars))
    else k.readWait b maxchars

def syscall : Syscall → Kernel → Except Fault Kernel
  | .getpid, k => .ok (k.sysReturn (some k.core.sysGetpid))
  | .fork, k => k.sysFork
  | .createThread function stack parameter, k => k.sysCreateThread function stack parameter
  | .exit, k => k.exitSlots (List.finRange numSems)
  | .block, k => .ok k.sysBlock
  | .unblock pid, k => .ok (k.sysUnblock pid)
  | .waitThread pid, k => .ok (k.sysWaitThread pid)
  | .read b maxchars, k => k.sysRead b maxchars
  | .dynMem numPags, k => do return k.setCore (← memory (k.core.sysDynMem numPags))
  | .semCreate initialValue, k => .ok (k.sysSemCreate initialValue)
  | .semWait semid, k => .ok (k.sysSemWait semid)
  | .semSignal semid, k => k.sysSemSignal semid
  | .semDestroy semid, k => .ok (k.sysSemDestroy semid)

def goOn : Kont → Kernel → Except Fault Kernel
  | .user, k => .ok k
  | .block, k => .ok (k.sysReturn none)
  | .unblock ret, k => .ok (k.sysReturn (some ret))
  | .waitThread bt, k => .ok (k.sysReturn (some (k.core.task bt).pid))
  | .read b maxchars, k => k.readWait b maxchars
  | .semWait i, k => .ok (k.sysReturn (some (k.core.semaphores i).creatorPID))
  | .semSignal i, k => .ok (k.sysReturn (some (k.core.semaphores i).value))
  | .semDestroy i semid caller, k =>
    match k.destroyFrom i semid caller with
    | (none, k) => .ok k
    | (some v, k) =>
      match caller with
      | .syscall => .ok (k.sysReturn (some v))
      | .exit j => k.exitSlots (Core.slotsAfter j)
  | .exited, _ => .error .wild

def resume (k : Kernel) : Except Fault Kernel :=
  (k.setTask k.core.current fun ts => { ts with kEsp := .user }).goOn k.core.ct.kEsp

def step : Event → Kernel → Except Fault Kernel
  | .clock, k => .ok k.clockRoutine
  | .key readInp, k => .ok (k.keyboardRoutine readInp)
  | .syscall call, k => k.syscall call
  | .resume, k => k.resume

/-- A step of the kernel with its lists as sequences. -/
def Step (k : Kernel) (e : Event) (k' : Kernel) : Prop := k.core.Enabled e ∧ k.step e = .ok k'

end Kernel
end Zeos
