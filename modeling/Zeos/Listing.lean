import Zeos.Assembly
import Zeos.Entry

/-! `wrappers.S` and `entry.S` as listings. The macros of the sources are lists of
instructions here, and what the wrappers have in common is one listing. -/
namespace Zeos
open Words Assembly

@[simp] abbrev kernelCs : Word32 := 0x10
@[simp] abbrev kernelDs : Word32 := 0x18
@[simp] abbrev userCs : Word32 := 0x23
@[simp] abbrev userDs : Word32 := 0x2B

/-- The entries of `wrappers.S`. -/
inductive Wrapper where
  | write | read | gettime | getpid | fork | createThread | exit | exitThread | block | unblock | waitThread
  | dynMem | gotoxy | setColor | semCreate | semWait | semSignal | semDestroy
  deriving DecidableEq, Repr

/-- The labels of both files, and what they refer to outside. -/
inductive Symbol where
  | wrapper (w : Wrapper)
  | ret (w : Wrapper)
  | sinError (w : Wrapper)
  | errno
  | keyboardHandler | clockHandler
  | cambioStack | taskSwitch
  | systemCallHandler | err | fin
  | syscallHandlerSysenter | sysenterErr | sysenterFin
  | pageFaultHandler2 | writeMSR
  | sysCallTable
  | routine (r : Routine)
  | keyboardRoutine | clockRoutine | pageFaultRoutine2 | innerTaskSwitch
  | retFromFork | retFromNewThread | cpuIdle
  deriving DecidableEq, Repr

/-- The register of each argument, in the order of a C call behind `SAVE_ALL`. -/
def argRegs (args : Nat) : List Reg := [.edx, .ecx, .ebx].take args

namespace Listing

/-- From the entry to `sysenter`. -/
def enter (number : Word32) (args : Nat) (ret : Symbol) : List (Instr Symbol) :=
  [.push (.reg .ebp), .mov .esp .ebp] ++ (argRegs args).map (fun r => .push (.reg r)) ++
    (argRegs args).mapIdx (fun i r => .movLoad (BitVec.ofNat 32 (8 + 4 * i)) .ebp r) ++
    [.movImm number .eax, .pushLabel ret, .push (.reg .ebp), .mov .esp .ebp, .sysenter]

/-- From the return of `sysenter` on. -/
def back (args : Nat) : List (Instr Symbol) :=
  [.pop (.reg .ebp), .add 4 .esp] ++ (argRegs args).reverse.map (fun r => .pop (.reg r))

/-- A negative value becomes -1, with its opposite in `errno`. -/
def check (sinError : Symbol) : List (Instr Symbol) :=
  [.cmp 0 .eax, .jge sinError, .neg .eax, .movTo .eax .errno, .movImm (-1) .eax]

def leave : List (Instr Symbol) := [.pop (.reg .ebp), .ret]

def lines (is : List (Instr Symbol)) : List (Line Symbol) := is.map .instr

/-- A wrapper that reports errors. `ret` is the label that it pushes, and `sinError` the one
behind its own check. -/
def checked (w : Wrapper) (number : Word32) (args : Nat) (ret sinError : Symbol) : List (Line Symbol) :=
  [.label (.wrapper w)] ++ lines (enter number args ret) ++ [.label (.ret w)] ++ lines (back args ++ check sinError) ++
    [.label (.sinError w)] ++ lines leave

/-- A wrapper that returns what the routine returns. -/
def unchecked (w : Wrapper) (number : Word32) (ret : Symbol) : List (Line Symbol) :=
  [.label (.wrapper w)] ++ lines (enter number 0 ret) ++ [.label (.ret w)] ++ lines (back 0 ++ leave)

def write : List (Line Symbol) := checked .write 4 3 (.ret .write) (.sinError .write)
def read : List (Line Symbol) := checked .read 7 2 (.ret .read) (.sinError .read)
def gettime : List (Line Symbol) :=
  [.label (.wrapper .gettime)] ++ lines [.push (.reg .ebp), .mov .esp .ebp, .movImm 0x0A .eax, .int 0x80, .pop (.reg .ebp), .ret]
def getpid : List (Line Symbol) := unchecked .getpid 20 (.ret .getpid)
def fork : List (Line Symbol) := checked .fork 2 0 (.ret .fork) (.sinError .fork)
def createThread : List (Line Symbol) := checked .createThread 11 3 (.ret .createThread) (.sinError .createThread)
def exit : List (Line Symbol) := unchecked .exit 1 (.ret .exit)
def exitThread : List (Line Symbol) := unchecked .exitThread 1 (.ret .exit)
def block : List (Line Symbol) := checked .block 5 0 (.ret .block) (.sinError .block)
def unblock : List (Line Symbol) := checked .unblock 6 1 (.ret .unblock) (.sinError .unblock)
def waitThread : List (Line Symbol) := checked .waitThread 12 1 (.ret .unblock) (.sinError .unblock)
def dynMem : List (Line Symbol) := checked .dynMem 13 1 (.ret .unblock) (.sinError .unblock)
def gotoxy : List (Line Symbol) := checked .gotoxy 8 2 (.ret .gotoxy) (.sinError .gotoxy)
def setColor : List (Line Symbol) := checked .setColor 9 2 (.ret .setColor) (.sinError .setColor)
def semCreate : List (Line Symbol) := checked .semCreate 14 1 (.ret .semCreate) (.sinError .semCreate)
def semWait : List (Line Symbol) := checked .semWait 15 1 (.ret .semWait) (.sinError .semWait)
def semSignal : List (Line Symbol) := checked .semSignal 16 1 (.ret .semSignal) (.sinError .semSignal)
def semDestroy : List (Line Symbol) := checked .semDestroy 17 1 (.ret .semDestroy) (.sinError .semDestroy)

/-- `wrappers.S`. -/
def wrappers : List (Line Symbol) :=
  write ++ read ++ gettime ++ getpid ++ fork ++ createThread ++ exit ++ exitThread ++ block ++ unblock ++ waitThread ++
    dynMem ++ gotoxy ++ setColor ++ semCreate ++ semWait ++ semSignal ++ semDestroy

/-- What `SAVE_ALL` pushes. -/
def saved : List Slot :=
  [.seg .gs, .seg .fs, .seg .es, .seg .ds, .reg .eax, .reg .ebp, .reg .edi, .reg .esi, .reg .ebx, .reg .ecx, .reg .edx]

def saveAll : List (Instr Symbol) :=
  saved.map .push ++ [.movImm kernelDs .edx, .movSeg .edx .ds, .movSeg .edx .es]

def restoreAll : List (Instr Symbol) := saved.reverse.map .pop

/-- The end of an interrupt, for its controller. -/
def eoi : List (Instr Symbol) := [.movAl 0x20, .out 0x20]

/-- The choice of a routine by `EAX`. -/
def dispatch (refused done : Symbol) : List (Instr Symbol) :=
  [.cmp 0 .eax, .jl refused, .cmp maxSyscall .eax, .jg refused, .callTable .sysCallTable .eax, .jmp done]

def handler (name routine : Symbol) : List (Line Symbol) :=
  [.label name] ++ lines (saveAll ++ eoi ++ [.call routine] ++ restoreAll ++ [.iret])

def keyboardHandler : List (Line Symbol) := handler .keyboardHandler .keyboardRoutine
def clockHandler : List (Line Symbol) := handler .clockHandler .clockRoutine

def cambioStack : List (Line Symbol) :=
  [.label .cambioStack] ++ lines
    [.movLoad 4 .esp .ebx, .movStore .ebp 0 .ebx, .movLoad 8 .esp .esp, .pop (.reg .ebp), .ret]

def taskSwitch : List (Line Symbol) :=
  [.label .taskSwitch] ++ lines
    [.push (.reg .ebp), .mov .esp .ebp, .push (.reg .esi), .push (.reg .edi), .push (.reg .ebx), .pushMem 8 .ebp,
     .call .innerTaskSwitch, .add 4 .esp, .pop (.reg .ebx), .pop (.reg .edi), .pop (.reg .esi), .mov .ebp .esp,
     .pop (.reg .ebp), .ret]

def pageFaultHandler2 : List (Line Symbol) := [.label .pageFaultHandler2] ++ lines [.call .pageFaultRoutine2]

def writeMSR : List (Line Symbol) :=
  [.label .writeMSR] ++ lines
    [.push (.reg .ebp), .mov .esp .ebp, .movLoad 8 .ebp .ecx, .movImm 0 .edx, .movLoad 12 .ebp .eax, .wrmsr,
     .pop (.reg .ebp), .ret]

def systemCallHandler : List (Line Symbol) :=
  [.label .systemCallHandler] ++ lines (saveAll ++ dispatch .err .fin) ++
    [.label .err] ++ lines [.movImm (-eNOSYS) .eax] ++
    [.label .fin] ++ lines ([.movStore .eax 0x18 .esp] ++ restoreAll ++ [.iret])

def syscallHandlerSysenter : List (Line Symbol) :=
  [.label .syscallHandlerSysenter] ++ lines
    ([.pushImm userDs, .push (.reg .ebp), .pushf, .pushImm userCs, .pushMem 4 .ebp] ++ saveAll ++
      dispatch .sysenterErr .sysenterFin) ++
    [.label .sysenterErr] ++ lines [.movImm (-eNOSYS) .eax] ++
    [.label .sysenterFin] ++ lines ([.movStore .eax 0x18 .esp] ++ restoreAll ++
      [.movLoad 0 .esp .edx, .movLoad 12 .esp .ecx, .sti, .sysexit])

/-- `entry.S`. -/
def entry : List (Line Symbol) :=
  keyboardHandler ++ cambioStack ++ taskSwitch ++ clockHandler ++ pageFaultHandler2 ++ writeMSR ++ systemCallHandler ++
    syscallHandlerSysenter

/-- What is linked into the image. -/
def all : List (Line Symbol) := wrappers ++ entry

end Listing

namespace Wrapper

/-- The number that goes to `EAX`. -/
def number : Wrapper → Word32
  | .exit | .exitThread => 1
  | .fork => 2
  | .write => 4
  | .block => 5
  | .unblock => 6
  | .read => 7
  | .gotoxy => 8
  | .setColor => 9
  | .gettime => 10
  | .createThread => 11
  | .waitThread => 12
  | .dynMem => 13
  | .semCreate => 14
  | .semWait => 15
  | .semSignal => 16
  | .semDestroy => 17
  | .getpid => 20

def args : Wrapper → Nat
  | .write | .createThread => 3
  | .read | .gotoxy | .setColor => 2
  | .unblock | .waitThread | .dynMem | .semCreate | .semWait | .semSignal | .semDestroy => 1
  | .gettime | .getpid | .fork | .exit | .exitThread | .block => 0

def routine : Wrapper → Routine
  | .write => .sysWrite
  | .read => .sysRead
  | .gettime => .sysGettime
  | .getpid => .sysGetpid
  | .fork => .sysFork
  | .createThread => .sysCreateThread
  | .exit | .exitThread => .sysExit
  | .block => .sysBlock
  | .unblock => .sysUnblock
  | .waitThread => .sysWaitThread
  | .dynMem => .sysDynMem
  | .gotoxy => .sysGotoxy
  | .setColor => .sysSetColor
  | .semCreate => .sysSemCreate
  | .semWait => .sysSemWait
  | .semSignal => .sysSemSignal
  | .semDestroy => .sysSemDestroy

/-- The wrapper looks for errors. -/
def checks : Wrapper → Bool
  | .gettime | .getpid | .exit | .exitThread => false
  | _ => true

/-- The wrapper whose end it shares. -/
def tail : Wrapper → Wrapper
  | .exitThread => .exit
  | .waitThread | .dynMem => .unblock
  | w => w

/-- What it does with the value that comes back. -/
def finish (w : Wrapper) : List (Instr Symbol) := if w.checks then Listing.check (.sinError w.tail) else []

theorem routine_number (w : Wrapper) : sysCallTable[w.number.toNat]? = some w.routine := by
  cases w <;> rfl

theorem tableIndex_number (w : Wrapper) : tableIndex w.number = some w.number := by
  cases w <;> decide

theorem args_le (w : Wrapper) : w.args ≤ 3 := by
  cases w <;> decide

theorem enters (w : Wrapper) (fast : w ≠ .gettime) :
    Listing.enter w.number w.args (.ret w.tail) <+: Line.behind (.wrapper w) Listing.all := by
  cases w <;> first | contradiction | decide +kernel

theorem ends (w : Wrapper) (fast : w ≠ .gettime) :
    Listing.back w.args ++ (w.finish ++ Listing.leave) <+: Line.behind (.ret w.tail) Listing.all := by
  cases w <;> first | contradiction | decide +kernel

theorem leaves (w : Wrapper) (checks : w.checks) : Listing.leave <+: Line.behind (.sinError w.tail) Listing.all := by
  cases w <;> first | contradiction | decide +kernel

end Wrapper
end Zeos
