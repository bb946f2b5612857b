import Zeos.List
import Zeos.Mm

/-! `sched.c`: the queues of the scheduler, the context switch and the boot of the
first two tasks. -/
namespace Zeos
namespace State

def setTask (t : Task) (f : TaskStruct → TaskStruct) (s : State) : State :=
  { s with core := s.core.setTask t f }

/-- A task that is in a list leaves it. -/
def leaveList (t : Task) (s : State) : Except Fault State :=
  if 0 < (s.core.task t).pid ∧ (s.core.task t).currentState ≠ .stRun then s.listDel (.list t) else .ok s

/-- The state that belongs to the destination list. -/
def setState (t : Task) : Head → State → State
  | .readyqueue, s => s.setTask t fun ts => { ts with currentState := .stReady }
  | .blocked, s => s.setTask t fun ts => { ts with currentState := .stBlocked }
  | .readBlocked, s => s.setTask t fun ts => { ts with currentState := .stReadblocked }
  | .freequeue, s => s.setTask t fun ts => { ts with currentState := .stFree }
  | _, s => s

/-- `update_process_state_rr(t, dest)`; the destination `none` is NULL. -/
def updateProcessStateRr (t : Task) (dest : Option Head) (s : State) : Except Fault State :=
  if (s.core.task t).pid < 0 then
    (s.setState t .freequeue).listAddTail (.list t) (.head .freequeue)
  else do
    let s ← s.leaveList t
    match dest with
    | none => return s.setTask t fun ts => { ts with currentState := .stRun }
    | some dest =>
      let s := s.setState t dest
      if (s.core.task t).pid ≠ 0 then s.listAddTail (.list t) (.head dest) else return s

/-- The running task goes back to the ready queue. -/
def requeueCurrent (s : State) : Except Fault State :=
  if s.core.ct.currentState = .stRun then s.updateProcessStateRr s.core.current (some .readyqueue)
  else .ok s

/-- `task_switch(new)`: the saved stack of the running task is already in `kEsp`. -/
def taskSwitch (new : Task) (s : State) : Except Fault State :=
  if (s.core.task new).dirPagesBaseAddr ≠ s.core.ct.dirPagesBaseAddr then
    match (s.core.task new).dirPagesBaseAddr with
    | some cr3 => .ok { s with core := { s.core with cr3, current := new } }
    | none => .error (.memory .outside)
  else .ok { s with core := { s.core with current := new } }

/-- The task `sched_next_rr` chooses. -/
def nextTask (s : State) : Except Fault Task := do
  if ← s.listEmpty (.head .readyqueue) then return idleTask
  else
    let e ← s.listFirst (.head .readyqueue)
    listHeadToTaskStruct e

/-- `sched_next_rr()`. -/
def dispatch (s : State) : Except Fault State := do
  let nt ← s.nextTask
  let s ← s.requeueCurrent
  let s ← s.updateProcessStateRr nt none
  let s := { s with core := { s.core with tickCounter := (s.core.task nt).quantum } }
  if s.core.ct.pid ≠ (s.core.task nt).pid then s.taskSwitch nt else return s

/-- A call of `sched_next_rr()` behind which the running task continues with `k`. -/
def schedNextRr (k : Kont) (s : State) : Except Fault State :=
  (s.setTask s.core.current fun ts => { ts with kEsp := k }).dispatch

/-- The system call of the running task returns. -/
def sysReturn (v : Option Int) (s : State) : State := { s with core := s.core.sysReturn v }

/-- `init_idle()`. -/
def initIdle (s : State) : Except Fault State := do
  let e ← s.listFirst (.head .freequeue)
  let ct ← listHeadToTaskStruct e
  let s ← s.listDel e
  let s := s.setTask ct fun ts => { ts with pid := 0, pendingUnblocks := 0, currentState := .stReady }
  let s ← s.initListHead (.head (.fills ct))
  let s ← s.initListHead (.head (.waitList ct))
  let (dir, mm) := s.core.mm.allocateDir
  let s := { s with core := { s.core with mm, live := Function.update s.core.live ct true } }
  return s.setTask ct fun ts =>
    { ts with quantum := 0, kEsp := .user, dirPagesBaseAddr := dir.or ts.dirPagesBaseAddr }

/-- `init_task1()`; its stack becomes the one interrupts from user mode use. -/
def initTask1 (s : State) : Except Fault State := do
  let e ← s.listFirst (.head .freequeue)
  let ct ← listHeadToTaskStruct e
  let s := s.setTask ct fun ts => { ts with pid := 1, pendingUnblocks := 0 }
  let s ← s.updateProcessStateRr ct none
  let s ← s.initListHead (.head (.fills ct))
  let s ← s.initListHead (.head (.waitList ct))
  let (dir, mm) := s.core.mm.allocateDir
  match dir with
  | none => throw (.memory .outside)
  | some pos =>
    let mm := (mm.setHeapZone pos 0).setUserPages pos
    let s := { s with core := { s.core with
      mm, cr3 := pos, current := ct, tickCounter := defaultQuantumTicks
      live := Function.update s.core.live ct true } }
    return s.setTask ct fun ts =>
      { ts with quantum := defaultQuantumTicks, kEsp := .user, dirPagesBaseAddr := pos, myHeap := pos }

/-- `init_sched()`; the heap zones are zero already. -/
def initSched (s : State) : Except Fault State := do
  let s ← s.initListHead (.head .blocked)
  let s ← s.initListHead (.head .readBlocked)
  let s ← s.initListHead (.head .freequeue)
  let s ← s.initListHead (.head .readyqueue)
  let s := { s with core := { s.core with
    semaphores := fun i => { s.core.semaphores i with free := true } } }
  (List.finRange nrTasks).foldlM
    (fun s i => (s.setTask i fun ts => { ts with pid := -1 }).updateProcessStateRr i (some .freequeue)) s

end State
end Zeos
