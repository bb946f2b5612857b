import Zeos.Access
import Zeos.Runs

/-! Where `sys_create_thread` writes the first stack of a thread. The block that it
checks starts at `stack`, the two words that it writes lie below. -/
namespace Zeos
open Outcome

namespace Mm

/-- The byte stores of `storeLong`. -/
def longWrites (addr value : DWord) : List (DWord × UInt8) :=
  (List.range 4).map fun k => (addr + BitVec.ofNat 32 k, UInt8.ofNat (value.toNat / 256 ^ k))

/-- Byte stores, one after the other. -/
def storeBytes (d : Dir) (writes : List (DWord × UInt8)) (mm : Mm) : Except MemFault Mm :=
  writes.foldlM (fun mm w => mm.storeByte d w.1 w.2) mm

theorem storeLong_eq (d : Dir) (addr value : DWord) (mm : Mm) :
    mm.storeLong d addr value = mm.storeBytes d (longWrites addr value) := by
  unfold storeBytes longWrites
  rw [List.foldlM_map]
  rfl

theorem storeByte_translate {d d' : Dir} {addr other : DWord} {byte : UInt8} {mm mm' : Mm}
    (done : mm.storeByte d addr byte = .ok mm') : mm'.translate d' other = mm.translate d' other := by
  unfold storeByte at done
  split at done
  · contradiction
  · cases done; rfl

/-- A byte of a frame that a store changes is the one behind its address. -/
theorem storeByte_ram {d : Dir} {addr : DWord} {byte : UInt8} {mm mm' : Mm} {frame offset : Nat}
    (done : mm.storeByte d addr byte = .ok mm')
    (changed : mm'.ram frame offset ≠ mm.ram frame offset) :
    mm.translate d addr = some (frame, offset) := by
  unfold storeByte at done
  split at done
  · contradiction
  · rename_i frame' offset' place
    cases done
    rw [place, Option.some.injEq, Prod.mk.injEq]
    by_contra elsewhere
    apply changed
    by_cases here : frame = frame'
    · subst here
      have apart : offset ≠ offset' := by
        rintro rfl
        exact elsewhere ⟨rfl, rfl⟩
      simp [apart]
    · simp [here]

theorem storeBytes_ram {d : Dir} {writes : List (DWord × UInt8)} {mm mm' : Mm} {frame offset : Nat}
    (done : mm.storeBytes d writes = .ok mm')
    (changed : mm'.ram frame offset ≠ mm.ram frame offset) :
    ∃ w ∈ writes, mm.translate d w.1 = some (frame, offset) := by
  induction writes generalizing mm with
  | nil =>
    cases done
    contradiction
  | cons w writes ih =>
    obtain ⟨next, first, rest⟩ := bind_ok.mp done
    by_cases later : mm'.ram frame offset = next.ram frame offset
    · rw [later] at changed
      exact ⟨w, List.mem_cons_self .., storeByte_ram first changed⟩
    · obtain ⟨w', mem, place⟩ := ih rest later
      rw [storeByte_translate first] at place
      exact ⟨w', List.mem_cons_of_mem _ mem, place⟩

end Mm

/-- The byte stores of `sys_create_thread`: the parameter, then the null return address. -/
def threadWrites (stack parameter : DWord) : List (DWord × UInt8) :=
  Mm.longWrites (stack - 4) parameter ++ Mm.longWrites (stack - 8) 0

theorem Core.threadMemory_eq (fill : Task) (stack parameter : DWord) (c : Core) :
    c.threadMemory fill stack parameter = do
      let dir ← pointer (c.task fill).dirPagesBaseAddr
      let mm ← (c.mm.addDirRef dir).storeBytes c.cr3 (threadWrites stack parameter)
      return { c with mm } := by
  unfold threadMemory threadWrites Mm.storeBytes
  simp only [List.foldlM_append, Mm.storeLong_eq, Mm.storeBytes, bind_assoc]

/-- A byte of a frame that the call changes is one it stores at. -/
theorem Core.threadMemory_ram {fill : Task} {stack parameter : DWord} {c c' : Core} {frame offset : Nat}
    (done : c.threadMemory fill stack parameter = .ok c')
    (changed : c'.mm.ram frame offset ≠ c.mm.ram frame offset) :
    ∃ w ∈ threadWrites stack parameter, c.mm.translate c.cr3 w.1 = some (frame, offset) := by
  rw [threadMemory_eq] at done
  obtain ⟨dir, -, done⟩ := bind_ok.mp done
  obtain ⟨mm, stored, done⟩ := bind_ok.mp done
  cases done
  have here := Mm.storeBytes_ram stored changed
  exact here

theorem Mm.longWrites_addresses (addr value : DWord) (place : Nat) (fits : addr.toNat + 4 ≤ 2 ^ 32) :
    (∃ w ∈ longWrites addr value, w.1.toNat = place) ↔ addr.toNat ≤ place ∧ place < addr.toNat + 4 := by
  simp only [longWrites, List.mem_map, List.mem_range]
  constructor
  · rintro ⟨w, ⟨k, small, rfl⟩, rfl⟩
    simp only [BitVec.toNat_add, BitVec.toNat_ofNat]
    omega
  · rintro ⟨low, high⟩
    refine ⟨_, ⟨place - addr.toNat, by omega, rfl⟩, ?_⟩
    simp only [BitVec.toNat_add, BitVec.toNat_ofNat]
    omega

/-- The stores go to the eight bytes below `stack`. -/
theorem threadWrites_addresses (stack parameter : DWord) (place : Nat) (above : 8 ≤ stack.toNat) :
    (∃ w ∈ threadWrites stack parameter, w.1.toNat = place) ↔
      stack.toNat - 8 ≤ place ∧ place < stack.toNat := by
  have small := stack.isLt
  have upper : (stack - 4).toNat = stack.toNat - 4 := by bv_omega
  have lower : (stack - 8).toNat = stack.toNat - 8 := by bv_omega
  have parameterAt := Mm.longWrites_addresses (stack - 4) parameter place (by omega)
  have returnAt := Mm.longWrites_addresses (stack - 8) 0 place (by omega)
  simp only [threadWrites, List.mem_append, or_and_right, exists_or, parameterAt, returnAt]
  clear parameterAt returnAt
  omega

/-- The new stack lies in the data pages of the caller whenever the two checks let the
call through. -/
def StackGuarded (function stack parameter : DWord) : Prop :=
  accessOk .read function 4 = true → accessOk .write stack 4 = true →
    ∀ w ∈ threadWrites stack parameter, Verify.Region .write (w.1.toNat / pageSize)

theorem stackGuarded_iff_range (function stack parameter : DWord) (above : 8 ≤ stack.toNat)
    (passes : accessOk .read function 4 = true ∧ accessOk .write stack 4 = true) :
    StackGuarded function stack parameter ↔
      lUserStart + 8 ≤ stack.toNat ∧ stack.toNat ≤ (pagLogInitData + numPagData) * pageSize := by
  have addresses := threadWrites_addresses stack parameter
  constructor
  · intro guarded
    obtain ⟨first, mem, lowest⟩ := (addresses (stack.toNat - 8) above).mpr (by omega)
    obtain ⟨last, mem', highest⟩ := (addresses (stack.toNat - 1) above).mpr (by omega)
    have low := (guarded passes.1 passes.2 first mem).1
    have high := (guarded passes.1 passes.2 last mem').2
    simp only [lowest, highest] at low high
    simp at low high ⊢
    omega
  · rintro ⟨low, high⟩ - - w mem
    have range := (addresses w.1.toNat above).mp ⟨w, mem, rfl⟩
    simp [Verify.Region] at *
    omega

/-- A call whose stack is guarded changes bytes of the caller's data pages only. -/
theorem StackGuarded.keeps {function stack parameter : DWord} {fill : Task} {c c' : Core} {frame offset : Nat}
    (guarded : StackGuarded function stack parameter)
    (passes : accessOk .read function 4 = true ∧ accessOk .write stack 4 = true)
    (done : c.threadMemory fill stack parameter = .ok c')
    (changed : c'.mm.ram frame offset ≠ c.mm.ram frame offset) :
    ∃ addr : DWord, Verify.Region .write (addr.toNat / pageSize) ∧
      c.mm.translate c.cr3 addr = some (frame, offset) := by
  obtain ⟨w, mem, place⟩ := c.threadMemory_ram done changed
  exact ⟨w.1, guarded passes.1 passes.2 w mem, place⟩

/-- What `sys_create_thread` stores is `threadWrites`, and it stays in the data pages
exactly when the call is refused or `stack` points at least eight bytes into them and not
behind their end. -/
theorem create_thread_stack_iff (function stack parameter : DWord) :
    (∀ (fill : Task) (c : Core), c.threadMemory fill stack parameter = do
      let dir ← pointer (c.task fill).dirPagesBaseAddr
      let mm ← (c.mm.addDirRef dir).storeBytes c.cr3 (threadWrites stack parameter)
      return { c with mm }) ∧
    (StackGuarded function stack parameter ↔
      (function.toNat < lUserStart ∨ (pagLogInitHeap + 1) * pageSize ≤ function.toNat + 4) ∨
      (stack.toNat < lUserStart ∨ (pagLogInitHeap + 1) * pageSize ≤ stack.toNat + 4) ∨
      (lUserStart + 8 ≤ stack.toNat ∧ stack.toNat ≤ (pagLogInitData + numPagData) * pageSize)) := by
  refine ⟨fun fill c => c.threadMemory_eq fill stack parameter, ?_⟩
  have function_iff := accessOk_iff .read function 4 (by decide)
  have stack_iff := accessOk_iff .write stack 4 (by decide)
  have four : (4 : DWord).toNat = 4 := by decide
  rw [four] at function_iff stack_iff
  by_cases passes : accessOk .read function 4 = true ∧ accessOk .write stack 4 = true
  · have inside := function_iff.mp passes.1
    have above := stack_iff.mp passes.2
    rw [stackGuarded_iff_range function stack parameter (by simp at above; omega) passes]
    omega
  · have refused : StackGuarded function stack parameter := fun function_ok stack_ok =>
      absurd ⟨function_ok, stack_ok⟩ passes
    rw [function_iff, stack_iff] at passes
    exact iff_of_true refused (by omega)

/-- A call that the first user task makes behind boot, with `stack` at the start of the
data pages: the parameter goes into the last page of the kernel. -/
theorem create_thread_overwrites_kernel :
    ¬ StackGuarded 0x114000 0x100000 0xFFFFFFFF ∧
      ∃ s₀ s, boot (fun _ _ => 0) = .ok s₀ ∧ Step s₀ (.syscall (.createThread 0x114000 0x100000 0xFFFFFFFF)) s ∧
        s₀.core.mm.translate s₀.core.cr3 0xFFFFC = some (0xFF, 0xFFC) ∧
        s₀.core.mm.ram 0xFF 0xFFC = 0 ∧ s.core.mm.ram 0xFF 0xFFC = 0xFF := by
  refine ⟨fun guarded => ?_, ?_⟩
  · have := guarded (by decide) (by decide) (0xFFFFC, 0xFF) (by decide)
    simp [Verify.Region] at this
  · have enabled : (booted.setCore (bootCore fun _ _ => 0)).core.Enabled
        (.syscall (.createThread 0x114000 0x100000 0xFFFFFFFF)) := by decide +kernel
    obtain ⟨s, step, after⟩ : ∃ s, Step (booted.setCore (bootCore fun _ _ => 0))
        (.syscall (.createThread 0x114000 0x100000 0xFFFFFFFF)) s ∧ decide (s.core.mm.ram 0xFF 0xFFC = 0xFF) = true :=
      Step.of_any enabled (by decide +kernel)
    exact ⟨_, s, boot_eq _, step, by decide +kernel, rfl, of_decide_eq_true after⟩

end Zeos
