import Zeos.Types

/-! `entry.S`: how the two entry points for system calls choose a routine of
`sys_call_table`. Both compare `EAX` with the number of its entries, signed and
inclusive. -/
namespace Zeos

@[simp] abbrev eNOSYS : DWord := 38

/-- The routines in `sys_call_table`. -/
inductive Routine where
  | sysNiSyscall
  | sysExit
  | sysFork
  | sysWrite
  | sysBlock
  | sysUnblock
  | sysRead
  | sysGotoxy
  | sysSetColor
  | sysGettime
  | sysCreateThread
  | sysWaitThread
  | sysDynMem
  | sysSemCreate
  | sysSemWait
  | sysSemSignal
  | sysSemDestroy
  | sysGetpid
  deriving DecidableEq, Repr

/-- `sys_call_table`. -/
def sysCallTable : List Routine :=
  [.sysNiSyscall, .sysExit, .sysFork, .sysNiSyscall, .sysWrite, .sysBlock, .sysUnblock, .sysRead, .sysGotoxy,
   .sysSetColor, .sysGettime, .sysCreateThread, .sysWaitThread, .sysDynMem, .sysSemCreate, .sysSemWait,
   .sysSemSignal, .sysSemDestroy, .sysNiSyscall, .sysNiSyscall, .sysGetpid]

/-- `MAX_SYSCALL = (. - sys_call_table)/4`, each entry being a `.long`. -/
def maxSyscall : DWord := BitVec.ofNat 32 (4 * sysCallTable.length / 4)

/-- What `SAVE_ALL` pushes and `RESTORE_ALL` pops. -/
structure Registers where
  edx : DWord
  ecx : DWord
  ebx : DWord
  esi : DWord
  edi : DWord
  ebp : DWord
  eax : DWord
  ds : DWord
  es : DWord
  fs : DWord
  gs : DWord
  deriving DecidableEq, Repr

/-- The comparisons of both entry points: the index of the table entry they call, or
`none` when they jump to the error. -/
def tableIndex (eax : DWord) : Option DWord :=
  if eax.slt 0 then none
  else if maxSyscall.slt eax then none
  else some eax

/-- The value stored over the saved `EAX`, where `routine` tells what the routine at a
table index returns. -/
def result (routine : DWord → DWord) (eax : DWord) : DWord :=
  match tableIndex eax with
  | some index => routine index
  | none => -eNOSYS

/-- `system_call_handler`: the registers back in user mode. -/
def systemCallHandler (routine : DWord → DWord) (regs : Registers) : Registers :=
  { regs with eax := result routine regs.eax }

/-- `syscall_handler_sysenter`, which leaves with the return address that stands above
the user's `EBP` and with that `EBP`, the user stack. -/
def syscallHandlerSysenter (routine : DWord → DWord) (returnAddress : DWord) (regs : Registers) : Registers :=
  { regs with eax := result routine regs.eax, edx := returnAddress, ecx := regs.ebp }

/-- An index is one of the table, and the one asked for. -/
def InTable (eax : DWord) : Prop :=
  ∀ index, tableIndex eax = some index → index = eax ∧ index.toNat < sysCallTable.length

/-- Both entry points return what a routine of the table returns, or `-ENOSYS`, and decide
alike. -/
structure Dispatches (eax : DWord) : Prop where
  inTable : InTable eax
  called : ∀ routine regs index, regs.eax = eax → tableIndex eax = some index →
    (systemCallHandler routine regs).eax = routine index
  refused : ∀ routine regs, regs.eax = eax → tableIndex eax = none → (systemCallHandler routine regs).eax = -eNOSYS
  alike : ∀ routine address regs, regs.eax = eax →
    (syscallHandlerSysenter routine address regs).eax = (systemCallHandler routine regs).eax

theorem tableIndex_eq (eax : DWord) : tableIndex eax = if eax.toNat ≤ sysCallTable.length then some eax else none := by
  have small := eax.isLt
  have length : sysCallTable.length = 21 := rfl
  have max : maxSyscall.toInt = 21 := by decide
  unfold tableIndex
  have value := BitVec.toInt_eq_toNat_cond (x := eax)
  simp only [BitVec.slt_iff_toInt_lt, BitVec.ofNat_eq_ofNat, BitVec.toInt_zero, max, length]
  split at value <;> split_ifs <;> first | rfl | omega

/-- The word behind the table is called like a routine. -/
theorem tableIndex_behind : tableIndex 21 = some 21 ∧ sysCallTable.length = 21 ∧ ¬ InTable 21 := by
  refine ⟨by decide, rfl, fun inTable => ?_⟩
  have := (inTable 21 (by decide)).2
  contradiction

/-- Only the index one behind the last entry gets through the comparisons. -/
theorem dispatches_iff (eax : DWord) : Dispatches eax ↔ eax ≠ 21 := by
  have length : sysCallTable.length = 21 := rfl
  constructor
  · rintro ⟨inTable, _, _, _⟩ rfl
    have := (inTable 21 (by decide)).2
    contradiction
  · intro other
    refine ⟨fun i called => ?_, fun routine regs i same called => ?_, fun routine regs same refused => ?_,
      fun _ _ _ _ => rfl⟩
    · rw [tableIndex_eq] at called
      split at called
      · rename_i low
        cases called
        have : eax.toNat ≠ 21 := fun here => other (BitVec.eq_of_toNat_eq here)
        exact ⟨rfl, by omega⟩
      · contradiction
    · simp [systemCallHandler, result, same, called]
    · simp [systemCallHandler, result, same, refused]

end Zeos
