import Zeos.Frames

/-! The protection of kernel and code pages. Boot sets it up in every table; `sys_fork`
writes the table of the child with `set_ss_pag`, which opens every page it maps. -/
namespace Zeos
open Outcome

/-- A table in which page 0 is not mapped, kernel pages are closed to the user and code
pages cannot be written. -/
structure Protects (table : Nat → PageTableEntry) : Prop where
  null : (table 0).present = false
  kernel : ∀ p, 1 ≤ p → p < numPagKernel → (table p).user = false
  code : ∀ p, pagLogInitCode ≤ p → p < pagLogInitCode + numPagCode → (table p).rw = false

namespace Mm

/-- The tables are protected, and the heaps lie behind the code. -/
structure Protected (mm : Mm) : Prop where
  tables : ∀ d, Protects (mm.pagusrTable d)
  heaps : ∀ z, 0 ≤ mm.heapZones z ∧ pagLogInitHeap + mm.heapZones z ≤ totalPages

variable {mm mm' : Mm} {d : Dir}

theorem Protected.of_tables (safe : mm.Protected) (tables : mm'.pagusrTable = mm.pagusrTable)
    (zones : mm'.heapZones = mm.heapZones) : mm'.Protected :=
  ⟨fun d => by rw [tables]; exact safe.tables d, fun z => by rw [zones]; exact safe.heaps z⟩

/-- An entry that is emptied keeps the protection. -/
theorem Protects.wipe {table table' : Nat → PageTableEntry} (protects : Protects table)
    (wiped : ∀ p, table' p = .zero ∨ table' p = table p) : Protects table' := by
  refine ⟨?_, fun p low high => ?_, fun p low high => ?_⟩
  · rcases wiped 0 with zero | same
    · rw [zero]; rfl
    · rw [same]; exact protects.null
  · rcases wiped p with zero | same
    · rw [zero]; rfl
    · rw [same]; exact protects.kernel p low high
  · rcases wiped p with zero | same
    · rw [zero]; rfl
    · rw [same]; exact protects.code p low high

theorem Protected.releasePages {range : List Int} (safe : mm.Protected)
    (done : mm.releasePages d range = .ok mm') : mm'.Protected := by
  obtain ⟨counts, table⟩ := releasePages_table done
  refine ⟨fun d' => Protects.wipe (safe.tables d') fun p => ?_, fun z => ?_⟩
  · rw [table]
    split
    · exact .inl rfl
    · exact .inr rfl
  · rw [counts.heapZones]
    exact safe.heaps z

theorem Protected.onlyFrom {base : Int} (safe : mm.Protected) (above : pagLogInitHeap ≤ base)
    (only : OnlyFrom d base mm mm') : mm'.Protected := by
  have start : (pagLogInitHeap : Int) = 284 := rfl
  have below {p : Nat} (low : p < pagLogInitHeap) (d' : Dir) : mm'.pagusrTable d' p = mm.pagusrTable d' p :=
    only.table d' p fun here => by omega
  refine ⟨fun d' => ⟨?_, fun p low high => ?_, fun p low high => ?_⟩, fun z => ?_⟩
  · rw [below (by decide)]
    exact (safe.tables d').null
  · rw [below (Nat.lt_trans high (by decide))]
    exact (safe.tables d').kernel p low high
  · rw [below high]
    exact (safe.tables d').code p low high
  · rw [only.heapZones]
    exact safe.heaps z

theorem Protected.setHeapZone {z : Dir} {n : Int} (safe : mm.Protected) (low : 0 ≤ n)
    (high : pagLogInitHeap + n ≤ totalPages) : (mm.setHeapZone z n).Protected := by
  refine ⟨safe.tables, fun y => ?_⟩
  simp only [Mm.setHeapZone, Function.update_apply]
  split
  · exact ⟨low, high⟩
  · exact safe.heaps y

end Mm

namespace Core

variable {c c' core : Core} {fill : Task}

/-- The frames `sys_fork` asks for: `*my_heap` is read after the zone of the directory at
hand has been reset. -/
def forkDemand (c : Core) : Option Nat := do
  let pos ← c.forkDir
  let zone ← c.ct.myHeap
  return (numPagData + (c.forkTables pos).heapZones zone).toNat

/-- The steps of a run in which no `sys_fork` gets its PCB and its frames. -/
def Childless (c : Core) (e : Event) : Prop :=
  c.Allowed e ∧ (e = .syscall .fork → (∀ t, c.live t) ∨ ∀ n ∈ c.forkDemand, c.mm.available < n)

instance (c : Core) (e : Event) : Decidable (c.Childless e) := inferInstanceAs (Decidable (_ ∧ _))

theorem forkTables_pages (c : Core) (pos : Dir) :
    (c.forkTables pos).pagusrTable = c.mm.pagusrTable ∧ (c.forkTables pos).physMem = c.mm.physMem ∧
      (c.forkTables pos).heapZones = Function.update c.mm.heapZones pos 0 := by
  unfold forkTables Mm.allocateDir
  split <;> exact ⟨rfl, rfl, rfl⟩

/-- Without frames there is no child. -/
theorem Childless.not_done (childless : c.Childless (.syscall .fork)) (dead : c.live fill = false) :
    ¬ c.Forked fill true core := by
  rintro ⟨⟩
  rename_i pos zone pare frames taken mapped mm dir heap parent got map copy
  have enough := (Mm.allocFrames_isSome (numPagData + (c.forkTables pos).heapZones zone).toNat [] (c.forkTables pos)).mp
    (by rw [got]; rfl)
  have same : (c.forkTables pos).available = c.mm.available := by
    rw [Mm.available, Mm.available, (c.forkTables_pages pos).2.1]
  rcases childless.2 rfl with full | few
  · simp [full fill] at dead
  · have := few _ (by rw [forkDemand, dir, heap]; rfl)
    omega

theorem Forked.protected (safe : c.mm.Protected) (forked : c.Forked fill false core) : core.mm.Protected := by
  cases forked with
  | out dir heap none =>
    rename_i pos zone mm
    obtain ⟨pages, _, zones⟩ := c.forkTables_pages pos
    obtain ⟨table, counts⟩ := Mm.allocFrames_table none
    have reset : (c.mm.setHeapZone pos 0).Protected := safe.setHeapZone (by decide) (by decide)
    exact reset.of_tables (table.trans pages) (counts.heapZones.trans zones)

theorem Exited.protected (safe : c.mm.Protected) (exited : c.Exited core) : core.mm.Protected := by
  cases exited with
  | shared own more => exact safe.of_tables rfl rfl
  | last own heap last first second =>
    rename_i dir zone data mm
    have given : (c.mm.subDirRef dir).2.Protected := safe.of_tables rfl rfl
    exact (given.releasePages first).releasePages second

theorem Resized.protected {numPags : Int} (safe : c.mm.Protected) (int : IsInt numPags)
    (resized : c.Resized numPags core) : core.mm.Protected := by
  cases resized with
  | refused => exact safe
  | grown heap own positive grow =>
    rename_i zone dir mm v done
    obtain ⟨low, _⟩ := safe.heaps zone
    have kept := safe.onlyFrom (by omega) (Mm.growHeap_only grow)
    simp only [sysReturn, setTask_mm]
    split
    · rename_i grown
      subst grown
      refine kept.setHeapZone (by omega) ?_
      have bound := Mm.growHeap_bound grow
      simp only [List.length_nil] at bound
      omega
    · exact kept
  | shrunk heap own negative enough release =>
    rename_i zone dir mm v
    obtain ⟨low, high⟩ := safe.heaps zone
    have negated := (Mm.shrink_exact int negative low high release).1
    rw [negated] at enough
    simp only [sysReturn, setTask_mm, negated]
    exact (safe.releasePages release).setHeapZone (by omega) (by omega)

theorem protected_step {e : Event} (safe : c.mm.Protected) (alive : c.live c.current) (childless : c.Childless e)
    (memory : c.MemoryStep e c') : c'.mm.Protected := by
  have tables {c₁ c₂ : Core} (space : c₁.SameSpace c₂) (kept : c₁.mm.Protected) : c₂.mm.Protected :=
    kept.of_tables space.tables.pagusrTable space.tables.heapZones
  have other {fill : Task} (dead : c.live fill = false) : fill ≠ c.current := fun same => by
    simp [same, alive] at dead
  cases memory with
  | same same => exact tables same safe
  | forked dead done child => exact (childless.not_done dead (forkMemory_forked (other dead) done)).elim
  | unforked dead done back => exact tables back (Forked.protected safe (forkMemory_forked (other dead) done))
  | thread _ dead done child =>
    obtain ⟨dir, mm, own, same, rfl⟩ := threadMemory_ok done
    exact tables child (Mm.Protected.of_tables safe same.pagusrTable same.heapZones)
  | exit exits =>
    obtain ⟨_, core, done, _, left⟩ := exits
    have kept : core.mm.Protected := Exited.protected safe (exitMemory_exited done)
    exact tables left kept
  | dynMem int done same => exact tables same (Resized.protected safe int (sysDynMem_resized done))

end Core

theorem boot_protected (ram : Nat → Nat → UInt8) : (bootCore ram).mm.Protected := by
  have null : ∀ d, (booted.core.mm.pagusrTable d 0).present = false := by decide +kernel
  have kernel : ∀ d, ∀ p < numPagKernel, (booted.core.mm.pagusrTable d p).user = false := by decide +kernel
  have code : ∀ d, ∀ i < numPagCode, (booted.core.mm.pagusrTable d (pagLogInitCode + i)).rw = false := by decide +kernel
  have heaps : ∀ z, booted.core.mm.heapZones z = 0 := by decide +kernel
  refine ⟨fun d => ⟨null d, fun p _ high => kernel d p high, fun p low high => ?_⟩, fun z => ?_⟩
  · obtain ⟨i, rfl⟩ := Nat.exists_eq_add_of_le low
    exact code d i (by omega)
  · have := heaps z
    simp only [bootCore, this]
    decide

/-- The page table of every live task has its protection. -/
def State.Protected (s : State) : Prop :=
  ∀ t d, s.core.live t → (s.core.task t).dirPagesBaseAddr = some d → Protects (s.core.mm.pagusrTable d)

end Zeos
