import Mathlib.Algebra.GroupWithZero.Nat
import Mathlib.Data.Fin.Basic
import Zeos.Circular

/-! The data of the kernel: the constants of its headers, the list nodes inside and
outside the PCBs, the PCB with its saved context, semaphores, the key buffer and the
paging data. Pointers to PCBs, directories and heap counters are indices; `none` is
NULL. An `int` is an `Int`, wrapped where the code can overflow it. -/
namespace Zeos
open Circular

@[simp] abbrev nrTasks : Nat := 10
@[simp] abbrev numSems : Nat := 100
@[simp] abbrev defaultQuantumTicks : Int := 10
@[simp] abbrev totalPages : Nat := 1024
@[simp] abbrev pageSize : Nat := 0x1000
@[simp] abbrev numPagKernel : Nat := 256
@[simp] abbrev numPagCode : Nat := 8
@[simp] abbrev numPagData : Nat := 20
@[simp] abbrev lUserStart : Nat := 0x100000
@[simp] abbrev userFirstPage : Nat := lUserStart / pageSize
@[simp] abbrev pagLogInitData : Nat := lUserStart / pageSize
@[simp] abbrev pagLogInitCode : Nat := pagLogInitData + numPagData
@[simp] abbrev pagLogInitHeap : Nat := pagLogInitCode + numPagCode
@[simp] abbrev kbBufferSize : Nat := 255
@[simp] abbrev readAuxBuffMaxSize : Nat := 1024
@[simp] abbrev firstUserSemId : Int := 100000
@[simp] abbrev kernelStackSize : Nat := 1024

@[simp] abbrev eNOMEM : Int := 12
@[simp] abbrev eFAULT : Int := 14
@[simp] abbrev eINVAL : Int := 22

instance : NeZero nrTasks := ⟨by decide⟩

/-- An index of `task[]`, of `dir_pages[]` and of `semaphores[]`. -/
abbrev Task := Fin nrTasks
abbrev Dir := Fin nrTasks
abbrev SemIndex := Fin numSems
abbrev DWord := BitVec 32

/-- The values of an `int`. -/
def IsInt (x : Int) : Prop := -2147483648 ≤ x ∧ x < 2147483648

instance (x : Int) : Decidable (IsInt x) := inferInstanceAs (Decidable (_ ∧ _))

/-- The value an `int` holds after an operation with the mathematical result `x`. -/
def int32 (x : Int) : Int := Int.bmod x 4294967296

theorem int32_of_range {x : Int} (low : -2147483648 ≤ x) (high : x < 2147483648) : int32 x = x := by
  unfold int32; rw [Int.bmod_eq_of_le (by omega) (by omega)]

theorem int32_isInt (x : Int) : IsInt (int32 x) := by
  have low := Int.le_bmod (x := x) (m := 4294967296) (by decide)
  have high := Int.bmod_lt (x := x) (m := 4294967296) (by decide)
  exact ⟨by unfold int32; omega, by unfold int32; omega⟩

/-- `idle_task` and `task1`: boot takes the first two PCBs and nothing reassigns the
two pointers. -/
abbrev idleTask : Task := 0
abbrev task1 : Task := 1

/-- The words that `frames[num_pags]` of `sys_dyn_mem` can have on the kernel stack: those of
the union without the 20 of the PCB, the 16 of the entry, the 12 of the call and its frame,
and 6 below the array for the calls made there, in steps of 4. -/
@[simp] abbrev stackFrames : Nat := (kernelStackSize - 20 - 16 - 12 - 6) / 4 * 4

/-- A memory access that does not succeed: `pageFault` is the loop that ends
`page_fault_routine_2`, `outside` an index beyond a kernel array, an array beyond the kernel
stack or a NULL directory. -/
inductive MemFault where
  | pageFault
  | outside
  deriving DecidableEq, Repr

/-- What the kernel does when it does not return: a memory fault, a list walk that never
meets its head, or a list pointer that leads to no PCB. -/
inductive Fault where
  | memory (fault : MemFault)
  | endless
  | wild
  deriving DecidableEq, Repr

/-- A memory operation inside a system call. -/
def memory {α : Type} (x : Except MemFault α) : Except Fault α := x.mapError .memory

/-- The list heads: four global ones, two in each PCB and one in each semaphore. -/
inductive Head where
  | freequeue
  | readyqueue
  | blocked
  | readBlocked
  | fills (t : Task)
  | waitList (t : Task)
  | blockedThreads (i : SemIndex)
  deriving DecidableEq, Repr

/-- Every `struct list_head` of the kernel, and the NULL pointer. -/
inductive Node where
  | null
  | head (h : Head)
  | list (t : Task)
  | parentAnchor (t : Task)
  | waitAnchor (t : Task)
  | semList (t : Task)
  deriving DecidableEq, Repr

inductive TaskState where
  | stRun
  | stFree
  | stReady
  | stBlocked
  | stReadblocked
  deriving DecidableEq, Repr

/-- Who called `sys_semDestroy_extended`: the system call, or `sys_exit` in the
iteration `j` of its loop over the semaphores. -/
inductive DestroyCaller where
  | syscall
  | exit (j : SemIndex)
  deriving DecidableEq, Repr

/-- Where a kernel stack continues when it is switched to: back to user mode, or
behind the `sched_next_rr()` call of a system call, with the locals that live there. -/
inductive Kont where
  | user
  | block
  | unblock (ret : Int)
  | waitThread (bt : Task)
  | read (b : DWord) (maxchars : Int)
  | semWait (i : SemIndex)
  | semSignal (i : SemIndex)
  | semDestroy (i : SemIndex) (semid : Int) (caller : DestroyCaller)
  | exited
  deriving DecidableEq, Repr

/-- `struct task_struct` without its list nodes. `kEsp` stands for the stack that
`k_esp` points to, `eax` for the value the last system call left in that register. -/
structure TaskStruct where
  pid : Int
  dirPagesBaseAddr : Option Dir
  quantum : Int
  pendingUnblocks : Int
  myHeap : Option Dir
  pare : Option Task
  currentState : TaskState
  kEsp : Kont
  eax : Option Int
  deriving DecidableEq, Repr

/-- `created` is history: the argument of the `sys_semCreate` that filled the slot. -/
structure Semaphore where
  id : Int
  value : Int
  free : Bool
  creatorPID : Int
  created : Int
  deriving DecidableEq, Repr

structure KeyBuffer where
  buffer : Nat → UInt8
  head : Nat
  tail : Nat

/-- The fields of a page table entry that the kernel uses. -/
structure PageTableEntry where
  pbaseAddr : Nat
  user : Bool
  rw : Bool
  present : Bool
  deriving DecidableEq, Repr

def PageTableEntry.zero : PageTableEntry := ⟨0, false, false, false⟩

inductive FrameUse where
  | freeFrame
  | usedFrame
  deriving DecidableEq, Repr

/-- Memory management data. Entry 0 of directory `d` always points to `pagusr_table[d]`,
so a directory stands for its table; `ram` holds the bytes of the physical frames. -/
structure Mm where
  physMem : Nat → FrameUse
  pagusrTable : Dir → Nat → PageTableEntry
  dirPagesNumReferences : Dir → Int
  heapZones : Dir → Int
  ram : Nat → Nat → UInt8

/-- All kernel data but the list pointers. `live` is history: the tasks that boot,
`sys_fork` or `sys_create_thread` made and that have not gone through `sys_exit`. -/
structure Core where
  task : Task → TaskStruct
  semaphores : SemIndex → Semaphore
  current : Task
  cr3 : Dir
  tickCounter : Int
  zeosTick : Int
  pidGlobal : Int
  semIDglobal : Int
  semIDsystem : Int
  kbBuffer : KeyBuffer
  tmpbuff : Nat → UInt8
  mm : Mm
  live : Task → Bool

structure State where
  links : Links Node
  core : Core

namespace Core

def setTask (c : Core) (t : Task) (f : TaskStruct → TaskStruct) : Core :=
  { c with task := Function.update c.task t (f (c.task t)) }

def setSem (c : Core) (i : SemIndex) (f : Semaphore → Semaphore) : Core :=
  { c with semaphores := Function.update c.semaphores i (f (c.semaphores i)) }

/-- `current()`. -/
def ct (c : Core) : TaskStruct := c.task c.current

@[simp] theorem setTask_task (c : Core) (t u : Task) (f : TaskStruct → TaskStruct) :
    (c.setTask t f).task u = if u = t then f (c.task t) else c.task u := by
  simp [setTask, Function.update_apply]
@[simp] theorem setTask_setTask (c : Core) (t : Task) (f g : TaskStruct → TaskStruct) :
    (c.setTask t f).setTask t g = c.setTask t (g ∘ f) := by simp [setTask]
@[simp] theorem setTask_semaphores (c : Core) (t : Task) (f : TaskStruct → TaskStruct) :
    (c.setTask t f).semaphores = c.semaphores := rfl
@[simp] theorem setTask_current (c : Core) (t : Task) (f : TaskStruct → TaskStruct) :
    (c.setTask t f).current = c.current := rfl
@[simp] theorem setTask_cr3 (c : Core) (t : Task) (f : TaskStruct → TaskStruct) :
    (c.setTask t f).cr3 = c.cr3 := rfl
@[simp] theorem setTask_pidGlobal (c : Core) (t : Task) (f : TaskStruct → TaskStruct) :
    (c.setTask t f).pidGlobal = c.pidGlobal := rfl
@[simp] theorem setTask_kbBuffer (c : Core) (t : Task) (f : TaskStruct → TaskStruct) :
    (c.setTask t f).kbBuffer = c.kbBuffer := rfl
@[simp] theorem setTask_mm (c : Core) (t : Task) (f : TaskStruct → TaskStruct) :
    (c.setTask t f).mm = c.mm := rfl
@[simp] theorem setTask_live (c : Core) (t : Task) (f : TaskStruct → TaskStruct) :
    (c.setTask t f).live = c.live := rfl

@[simp] theorem setSem_semaphores (c : Core) (i j : SemIndex) (f : Semaphore → Semaphore) :
    (c.setSem i f).semaphores j = if j = i then f (c.semaphores i) else c.semaphores j := by
  simp [setSem, Function.update_apply]
@[simp] theorem setSem_task (c : Core) (i : SemIndex) (f : Semaphore → Semaphore) :
    (c.setSem i f).task = c.task := rfl
@[simp] theorem setSem_current (c : Core) (i : SemIndex) (f : Semaphore → Semaphore) :
    (c.setSem i f).current = c.current := rfl
@[simp] theorem setSem_cr3 (c : Core) (i : SemIndex) (f : Semaphore → Semaphore) :
    (c.setSem i f).cr3 = c.cr3 := rfl
@[simp] theorem setSem_pidGlobal (c : Core) (i : SemIndex) (f : Semaphore → Semaphore) :
    (c.setSem i f).pidGlobal = c.pidGlobal := rfl
@[simp] theorem setSem_mm (c : Core) (i : SemIndex) (f : Semaphore → Semaphore) :
    (c.setSem i f).mm = c.mm := rfl
@[simp] theorem setSem_live (c : Core) (i : SemIndex) (f : Semaphore → Semaphore) :
    (c.setSem i f).live = c.live := rfl

/-- `sys_getpid()`. -/
def sysGetpid (c : Core) : Int := c.ct.pid

/-- The system call returns `v` to user mode. `none` is the unused register of a
`void` function. -/
def sysReturn (c : Core) (v : Option Int) : Core :=
  c.setTask c.current fun t => { t with kEsp := .user, eax := v }

end Core
end Zeos
