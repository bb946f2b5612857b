import Zeos.Runs
import Zeos.Starting
import Zeos.ThreadStack

/-! The move of the program through the page table of the first task. Memory that a page table
shows one to one is copied like flat memory. -/
namespace Zeos
open Bytes (Memory blit)
open Build (File build number onDisk)
open Loader (Bios Reads readIt)

namespace Mm

/-- A byte loaded by the kernel from a logical address. -/
def loadByte (d : Dir) (addr : DWord) (mm : Mm) : Except MemFault UInt8 :=
  match mm.translate d addr with
  | none => .error .pageFault
  | some (frame, offset) => .ok (mm.ram frame offset)

/-- An `unsigned long` loaded from a logical address, lowest byte first. -/
def loadLong (d : Dir) (addr : DWord) (mm : Mm) : Except MemFault DWord := do
  let b₀ ← mm.loadByte d addr
  let b₁ ← mm.loadByte d (addr + 1)
  let b₂ ← mm.loadByte d (addr + 2)
  let b₃ ← mm.loadByte d (addr + 3)
  return .ofNat 32 (b₀.toNat + 256 * (b₁.toNat + 256 * (b₂.toNat + 256 * b₃.toNat)))

/-- The word loop of `copy_data`, with the pointers and the size behind it. -/
def copyWords (d : Dir) (p q : DWord) (size : Int) (mm : Mm) : Except MemFault (Mm × DWord × DWord × Int) :=
  if 4 < size then do
    let v ← mm.loadLong d p
    let mm ← mm.storeLong d q v
    copyWords d (p + 4) (q + 4) (size - 4) mm
  else .ok (mm, p, q, size)
  termination_by size.toNat
  decreasing_by omega

/-- The byte loop of `copy_data`. -/
def copyBytes (d : Dir) (p₁ q₁ : DWord) (size : Int) (mm : Mm) : Except MemFault Mm :=
  if 0 < size then do
    let b ← mm.loadByte d p₁
    let mm ← mm.storeByte d q₁ b
    copyBytes d (p₁ + 1) (q₁ + 1) (size - 1) mm
  else .ok mm
  termination_by size.toNat
  decreasing_by omega

/-- `copy_data(start, dest, size)` in the address space `d`. -/
def copyData (d : Dir) (start dest : DWord) (size : Int) (mm : Mm) : Except MemFault Mm := do
  let (mm, p, q, size) ← mm.copyWords d start dest size
  mm.copyBytes d p q size

/-- `copy_data((void *) KERNEL_START + *p_sys_size, (void *) L_USER_START, *p_usr_size)` -/
def moveUser (d : Dir) (mm : Mm) : Except MemFault Mm := do
  let sysSize ← mm.loadLong d 0x10000
  let usrSize ← mm.loadLong d 0x10004
  mm.copyData d (0x10000 + sysSize) 0x100000 usrSize.toInt

/-- In the region the address space shows the memory `m`, each byte in a place of its own. -/
structure Shown (d : Dir) (place : Nat → Nat × Nat) (R : Set Nat) (mm : Mm) (m : Memory) : Prop where
  mapped : ∀ x ∈ R, mm.translate d (.ofNat 32 x) = some (place x)
  bytes : ∀ x ∈ R, mm.ram (place x).1 (place x).2 = m x

namespace Shown

variable {d : Dir} {place : Nat → Nat × Nat} {R : Set Nat} {mm : Mm} {m : Memory} {x : Nat}

theorem load (shown : Shown d place R mm m) (inside : x ∈ R) : mm.loadByte d (.ofNat 32 x) = .ok (m x) := by
  rw [loadByte, shown.mapped x inside]
  exact congrArg Except.ok (shown.bytes x inside)

theorem store (one : Set.InjOn place R) (shown : Shown d place R mm m) (inside : x ∈ R) (b : UInt8) :
    ∃ mm', mm.storeByte d (.ofNat 32 x) b = .ok mm' ∧ Shown d place R mm' (Function.update m x b) := by
  refine ⟨{ mm with ram := Function.update mm.ram (place x).1 (Function.update (mm.ram (place x).1) (place x).2 b) },
    ?_, shown.mapped, ?_⟩
  · rw [storeByte, shown.mapped x inside]
  · intro y other
    by_cases same : y = x
    · subst same
      simp
    · have apart : place y ≠ place x := fun eq => same (one other inside eq)
      rw [Function.update_of_ne same, ← shown.bytes y other]
      dsimp only
      by_cases frame : (place y).1 = (place x).1
      · have offset : (place y).2 ≠ (place x).2 := fun eq => apart (Prod.ext frame eq)
        rw [frame, Function.update_self, Function.update_of_ne offset]
      · rw [Function.update_of_ne frame]

theorem address (x k : Nat) : BitVec.ofNat 32 x + BitVec.ofNat 32 k = BitVec.ofNat 32 (x + k) := (BitVec.ofNat_add x k).symm

theorem loadLong (shown : Shown d place R mm m) (inside : Set.Ico x (x + 4) ⊆ R) :
    mm.loadLong d (.ofNat 32 x) = .ok (.ofNat 32 (number m x 4)) := by
  have first : x ∈ R := inside ⟨by omega, by omega⟩
  have second : x + 1 ∈ R := inside ⟨by omega, by omega⟩
  have third : x + 2 ∈ R := inside ⟨by omega, by omega⟩
  have fourth : x + 3 ∈ R := inside ⟨by omega, by omega⟩
  have e₁ : BitVec.ofNat 32 x + 1 = BitVec.ofNat 32 (x + 1) := address x 1
  have e₂ : BitVec.ofNat 32 x + 2 = BitVec.ofNat 32 (x + 2) := address x 2
  have e₃ : BitVec.ofNat 32 x + 3 = BitVec.ofNat 32 (x + 3) := address x 3
  rw [Mm.loadLong, e₁, e₂, e₃, shown.load first, shown.load second, shown.load third, shown.load fourth]
  rfl

/-- The bytes of a number are those that it was made of. -/
theorem number_byte (m : Memory) (x : Nat) {k : Nat} (small : k < 4) :
    UInt8.ofNat ((BitVec.ofNat 32 (number m x 4)).toNat / 256 ^ k) = m (x + k) := by
  have b₀ := (m x).toNat_lt
  have b₁ := (m (x + 1)).toNat_lt
  have b₂ := (m (x + 2)).toNat_lt
  have b₃ := (m (x + 3)).toNat_lt
  apply UInt8.toNat.inj
  rw [UInt8.toNat_ofNat', BitVec.toNat_ofNat]
  simp only [number, Nat.add_assoc, Nat.reduceAdd]
  obtain rfl | rfl | rfl | rfl : k = 0 ∨ k = 1 ∨ k = 2 ∨ k = 3 := by omega
  · simp
  · simp
    omega
  · simp
    omega
  · simp
    omega

theorem blit_four (m : Memory) (p q : Nat) :
    Function.update (Function.update (Function.update (Function.update m q (m p)) (q + 1) (m (p + 1))) (q + 2) (m (p + 2)))
      (q + 3) (m (p + 3)) = blit m p q 4 := by
  funext x
  simp only [Function.update_apply, blit]
  by_cases inside : q ≤ x ∧ x < q + 4
  · obtain ⟨k, rfl⟩ := Nat.exists_eq_add_of_le inside.1
    obtain rfl | rfl | rfl | rfl : k = 0 ∨ k = 1 ∨ k = 2 ∨ k = 3 := by omega
    all_goals simp
  · rw [if_neg inside, if_neg (by omega), if_neg (by omega), if_neg (by omega), if_neg (by omega)]

theorem moveLong (one : Set.InjOn place R) (shown : Shown d place R mm m) {p q : Nat} (dest : Set.Ico q (q + 4) ⊆ R) :
    ∃ mm', mm.storeLong d (.ofNat 32 q) (.ofNat 32 (number m p 4)) = .ok mm' ∧ Shown d place R mm' (blit m p q 4) := by
  obtain ⟨m₁, first, shown⟩ := shown.store one (dest ⟨by omega, by omega⟩ : q ∈ R) (m p)
  obtain ⟨m₂, second, shown⟩ := shown.store one (dest ⟨by omega, by omega⟩ : q + 1 ∈ R) (m (p + 1))
  obtain ⟨m₃, third, shown⟩ := shown.store one (dest ⟨by omega, by omega⟩ : q + 2 ∈ R) (m (p + 2))
  obtain ⟨m₄, fourth, shown⟩ := shown.store one (dest ⟨by omega, by omega⟩ : q + 3 ∈ R) (m (p + 3))
  rw [blit_four] at shown
  refine ⟨m₄, ?_, shown⟩
  have range : List.range 4 = [0, 1, 2, 3] := rfl
  simp only [Mm.storeLong, range, List.foldlM_cons, List.foldlM_nil, address, number_byte m p (by decide : 0 < 4),
    number_byte m p (by decide : 1 < 4), number_byte m p (by decide : 2 < 4), number_byte m p (by decide : 3 < 4),
    Nat.add_zero, first, second, third, fourth, Outcome.ok_bind]
  rfl

theorem copyWords (one : Set.InjOn place R) (n : Nat) : ∀ {mm m p q}, Shown d place R mm m → Set.Ico p (p + n) ⊆ R →
    Set.Ico q (q + n) ⊆ R → q ≤ p ∨ p + n ≤ q → ∃ k ≤ n, ∃ mm', mm.copyWords d (.ofNat 32 p) (.ofNat 32 q) n =
      .ok (mm', .ofNat 32 (p + k), .ofNat 32 (q + k), ((n - k : Nat) : Int)) ∧ Shown d place R mm' (blit m p q k) := by
  induction n using Nat.strong_induction_on with
  | _ n ih =>
    intro mm m p q shown source dest ahead
    rw [Mm.copyWords]
    split
    · obtain ⟨r, rfl⟩ := Nat.exists_eq_add_of_le (show 4 ≤ n by omega)
      have read := shown.loadLong (x := p) ((Set.Ico_subset_Ico le_rfl (by omega)).trans source)
      obtain ⟨mm₁, written, shown⟩ := shown.moveLong one (p := p) (q := q)
        ((Set.Ico_subset_Ico le_rfl (by omega)).trans dest)
      obtain ⟨k, le, mm₂, rest, shown⟩ := ih r (by omega) shown (p := p + 4) (q := q + 4)
        ((Set.Ico_subset_Ico (by omega) (by omega)).trans source)
        ((Set.Ico_subset_Ico (by omega) (by omega)).trans dest) (by omega)
      have size : ((4 + r : Nat) : Int) - 4 = r := by omega
      have left : 4 + r - (4 + k) = r - k := by omega
      have e₁ : BitVec.ofNat 32 p + 4 = BitVec.ofNat 32 (p + 4) := address p 4
      have e₂ : BitVec.ofNat 32 q + 4 = BitVec.ofNat 32 (q + 4) := address q 4
      rw [Bytes.blit_blit (by omega)] at shown
      refine ⟨4 + k, by omega, mm₂, ?_, shown⟩
      rw [read, Outcome.ok_bind, written, Outcome.ok_bind, e₁, e₂, size, rest, left, Nat.add_assoc, Nat.add_assoc]
    · exact ⟨0, by omega, mm, rfl, by rw [Bytes.blit_zero]; exact shown⟩

theorem copyBytes (one : Set.InjOn place R) (n : Nat) : ∀ {mm m p q}, Shown d place R mm m → Set.Ico p (p + n) ⊆ R →
    Set.Ico q (q + n) ⊆ R → q ≤ p ∨ p + n ≤ q → ∃ mm', mm.copyBytes d (.ofNat 32 p) (.ofNat 32 q) n = .ok mm' ∧
      Shown d place R mm' (blit m p q n) := by
  induction n with
  | zero =>
    intro mm m p q shown _ _ _
    rw [Mm.copyBytes, if_neg (by decide), Bytes.blit_zero]
    exact ⟨mm, rfl, shown⟩
  | succ n ih =>
    intro mm m p q shown source dest ahead
    have read := shown.load (source ⟨by omega, by omega⟩ : p ∈ R)
    obtain ⟨mm₁, written, shown⟩ := shown.store one (dest ⟨by omega, by omega⟩ : q ∈ R) (m p)
    rw [Bytes.update_eq_blit] at shown
    obtain ⟨mm₂, rest, shown⟩ := ih shown (p := p + 1) (q := q + 1)
      ((Set.Ico_subset_Ico (by omega) (by omega)).trans source)
      ((Set.Ico_subset_Ico (by omega) (by omega)).trans dest) (by omega)
    rw [Bytes.blit_blit (by omega), Nat.add_comm] at shown
    have size : ((n + 1 : Nat) : Int) - 1 = n := by omega
    have e₁ : BitVec.ofNat 32 p + 1 = BitVec.ofNat 32 (p + 1) := address p 1
    have e₂ : BitVec.ofNat 32 q + 1 = BitVec.ofNat 32 (q + 1) := address q 1
    refine ⟨mm₂, ?_, shown⟩
    rw [Mm.copyBytes, if_pos (by omega), read, Outcome.ok_bind, written, Outcome.ok_bind, e₁, e₂, size, rest]

/-- Through a page table the copy does what it does in flat memory. -/
theorem copyData (one : Set.InjOn place R) (n : Nat) {p q : Nat} (shown : Shown d place R mm m) (source : Set.Ico p (p + n) ⊆ R)
    (dest : Set.Ico q (q + n) ⊆ R) (ahead : q ≤ p ∨ p + n ≤ q) : ∃ mm', mm.copyData d (.ofNat 32 p) (.ofNat 32 q) n = .ok mm' ∧
      Shown d place R mm' (blit m p q n) := by
  obtain ⟨k, le, mm₁, words, shown⟩ := copyWords one n shown source dest ahead
  obtain ⟨mm₂, bytes, shown⟩ := copyBytes one (n - k) shown (p := p + k) (q := q + k)
    ((Set.Ico_subset_Ico (by omega) (by omega)).trans source)
    ((Set.Ico_subset_Ico (by omega) (by omega)).trans dest) (by omega)
  rw [Bytes.blit_blit (by omega), Nat.add_sub_cancel' le] at shown
  refine ⟨mm₂, ?_, shown⟩
  rw [Mm.copyData, words, Outcome.ok_bind]
  exact bytes

end Shown
end Mm

/-- The frame behind a page of the first task, up to the end of its code. -/
def rootFrame (page : Nat) : Nat :=
  if page < numPagKernel then page
  else if page < pagLogInitCode then numPagKernel + 2 * (numPagCode + (page - pagLogInitData))
  else numPagKernel + 2 * (page - pagLogInitCode)

/-- The memory that the first task is shown. -/
def rootMemory (ram : Nat → Nat → UInt8) : Memory := fun x => ram (rootFrame (x / 4096)) (x % 4096)

/-- The frame and the offset behind an address of the first task. -/
def rootPlace (x : Nat) : Nat × Nat := (rootFrame (x / 4096), x % 4096)

theorem booted_table : booted.core.cr3 = 2 ∧ ∀ page < 284, 1 ≤ page →
    (booted.core.mm.pagusrTable 2 page).present = true ∧ (booted.core.mm.pagusrTable 2 page).pbaseAddr = rootFrame page := by
  decide +kernel

/-- Two pages that the kernel maps for the first task have two frames. -/
theorem rootFrame_inj {page other : Nat} (inside : page < 284) (inside' : other < 284)
    (same : rootFrame page = rootFrame other) : page = other := by
  simp only [rootFrame, numPagKernel, numPagData, numPagCode, pagLogInitData, pagLogInitCode, lUserStart, pageSize,
    Nat.reduceDiv, Nat.reduceAdd] at same
  split_ifs at same <;> omega

theorem rootPlace_injOn : Set.InjOn rootPlace (Set.Ico 0x1000 0x11C000) := by
  intro x inside y other same
  have page : x / 4096 = y / 4096 :=
    rootFrame_inj (by have := inside.2; omega) (by have := other.2; omega) (congrArg Prod.fst same)
  have offset : x % 4096 = y % 4096 := congrArg Prod.snd same
  rw [← Nat.div_add_mod x 4096, page, offset, Nat.div_add_mod]

theorem bootCore_shown (ram : Nat → Nat → UInt8) :
    Mm.Shown 2 rootPlace (Set.Ico 0x1000 0x11C000) (bootCore ram).mm (rootMemory ram) := by
  refine ⟨fun x inside => ?_, fun x _ => rfl⟩
  obtain ⟨low, high⟩ := inside
  obtain ⟨present, frame⟩ := booted_table.2 (x / 4096) (by omega) (by omega)
  have address : (BitVec.ofNat 32 x).toNat = x := by
    rw [BitVec.toNat_ofNat]
    omega
  have table : (bootCore ram).mm.pagusrTable = booted.core.mm.pagusrTable := rfl
  have few : x / 4096 < totalPages := by
    simp
    omega
  simp only [Mm.translate, address, table]
  rw [if_pos ⟨few, present⟩, frame]
  rfl

variable {sys usr image : List UInt8} {bios : Bios} {m : Memory}

/-- The program of an image that `build` makes comes into the pages of the first task, from
where its page table shows it at `L_USER_START`. -/
theorem program_mapped {bootsect system user : File} (systemRead : system.content = .ok sys) (userRead : user.content = .ok usr)
    (built : build bootsect system user = .ok image) (header : 12 ≤ sys.length)
    (small : sys.length + usr.length + 15 < 0x80000) (pages : usr.length ≤ (numPagData + numPagCode) * pageSize)
    (reads : Reads (onDisk image) bios) (boot : ∀ i < 512, m (0x90000 + i) = onDisk image i) :
    ∃ fuel p, readIt bios fuel Loader.SYSSEG m = some p ∧ ∀ ram : Nat → Nat → UInt8,
      (∀ x ∈ Set.Ico 0x10000 (0x10000 + 12), ram (x / 4096) (x % 4096) = p.mem x) →
        (∀ x ∈ Set.Ico (0x10000 + sys.length) (0x10000 + sys.length + usr.length), ram (x / 4096) (x % 4096) = p.mem x) →
          ∃ mm', (bootCore ram).mm.moveUser (bootCore ram).cr3 = .ok mm' ∧
            ∀ i < usr.length, mm'.loadByte (bootCore ram).cr3 (.ofNat 32 (0x100000 + i)) = .ok (onDisk usr i) := by
  obtain ⟨fuel, p, done, loaded⟩ := (Build.build_holds systemRead userRead header (by omega) built).loads header small reads boot
  refine ⟨fuel, p, done, fun ram front rear => ?_⟩
  have cr3 : (bootCore ram).cr3 = 2 := booted_table.1
  have shown := bootCore_shown ram
  have kernel {x : Nat} (low : x < 0x100000) : rootMemory ram x = ram (x / 4096) (x % 4096) := by
    have page : x / 4096 < numPagKernel := by
      simp
      omega
    rw [rootMemory, rootFrame, if_pos page]
  simp at pages
  have sysSize : number (rootMemory ram) 0x10000 4 = sys.length :=
    (Build.number_congr 4 fun i inside => (kernel (by omega)).trans (front _ ⟨by omega, by omega⟩)).trans loaded.sysSize
  have usrSize : number (rootMemory ram) (0x10000 + 4) 4 = usr.length :=
    (Build.number_congr 4 fun i inside => (kernel (by omega)).trans (front _ ⟨by omega, by omega⟩)).trans loaded.usrSize
  have first := shown.loadLong (x := 0x10000) (Set.Ico_subset_Ico (by omega) (by omega))
  have second := shown.loadLong (x := 0x10000 + 4) (Set.Ico_subset_Ico (by omega) (by omega))
  rw [sysSize] at first
  rw [usrSize] at second
  obtain ⟨mm', moved, after⟩ := Mm.Shown.copyData rootPlace_injOn usr.length shown (p := 0x10000 + sys.length) (q := 0x100000)
    (Set.Ico_subset_Ico (by omega) (by omega))
    (Set.Ico_subset_Ico (by omega) (by omega)) (by omega)
  have start : (0x10000 : DWord) + BitVec.ofNat 32 sys.length = BitVec.ofNat 32 (0x10000 + sys.length) :=
    Mm.Shown.address 0x10000 sys.length
  have size : (BitVec.ofNat 32 usr.length).toInt = usr.length := by
    have unsigned : (BitVec.ofNat 32 usr.length).toNat = usr.length := by
      rw [BitVec.toNat_ofNat]
      omega
    rw [BitVec.toInt_eq_toNat_of_lt (by omega), unsigned]
  rw [cr3]
  refine ⟨mm', ?_, fun i inside => ?_⟩
  · have low : (bootCore ram).mm.loadLong 2 0x10000 = .ok (BitVec.ofNat 32 sys.length) := first
    have high : (bootCore ram).mm.loadLong 2 0x10004 = .ok (BitVec.ofNat 32 usr.length) := second
    rw [Mm.moveUser, low, Outcome.ok_bind, high, Outcome.ok_bind, start, size]
    exact moved
  · rw [after.load ⟨by omega, by omega⟩, Bytes.blit_inside inside, kernel (by omega), rear _ ⟨by omega, by omega⟩]
    exact congrArg Except.ok (loaded.user i inside)

namespace Starting

/-- The first task reads `mov $42, %eax` and `ret` at the start of its code. -/
theorem user_mapped : ∃ image fuel p mm', build bootsect system user = .ok image ∧
    readIt (Loader.plainBios (onDisk image)) fuel Loader.SYSSEG (fun x => onDisk image (x - 0x90000)) = some p ∧
      (bootCore fun frame offset => p.mem (4096 * frame + offset)).mm.moveUser 2 = .ok mm' ∧
        ∀ i < 6, mm'.loadByte 2 (.ofNat 32 (0x100000 + i)) = .ok (onDisk [0xB8, 0x2A, 0x00, 0x00, 0x00, 0xC3] i) := by
  have built : build bootsect system user = .ok (Build.imageOf _ _ _) :=
    Build.build_imageOf bootsect_accepted rfl rfl (by decide)
  obtain ⟨fuel, p, done, moves⟩ := program_mapped rfl rfl built (by decide) (by decide) (by decide) (Loader.plainBios_reads _)
    (m := fun x => onDisk _ (x - 0x90000)) (fun i _ => congrArg _ (Nat.add_sub_cancel_left ..))
  have whole (x : Nat) : p.mem (4096 * (x / 4096) + x % 4096) = p.mem x := by rw [Nat.div_add_mod]
  obtain ⟨mm', moved, arrived⟩ :=
    moves (fun frame offset => p.mem (4096 * frame + offset)) (fun x _ => whole x) fun x _ => whole x
  have cr3 : (bootCore fun frame offset => p.mem (4096 * frame + offset)).cr3 = 2 := booted_table.1
  rw [cr3] at moved arrived
  exact ⟨_, fuel, p, mm', built, done, moved, arrived⟩

end Starting
end Zeos
