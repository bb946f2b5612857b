import Zeos.Types

/-! `mm.c`: physical frames, page table entries, directory references. -/
namespace Zeos

/-- The frames `alloc_frame` looks at, in its order. -/
def searchFrames : List Nat := (List.range 384).map fun k => numPagKernel + 2 * k

namespace Mm

def setFrame (mm : Mm) (frame : Nat) (use : FrameUse) : Mm :=
  { mm with physMem := Function.update mm.physMem frame use }

def setEntry (mm : Mm) (d : Dir) (page : Nat) (e : PageTableEntry) : Mm :=
  { mm with pagusrTable := Function.update mm.pagusrTable d (Function.update (mm.pagusrTable d) page e) }

/-- `alloc_frame()`; `none` is the result -1. -/
def allocFrame (mm : Mm) : Option Nat × Mm :=
  match searchFrames.find? fun i => mm.physMem i = .freeFrame with
  | some i => (some i, mm.setFrame i .usedFrame)
  | none => (none, mm)

/-- `free_frame(frame)`. -/
def freeFrame (frame : Nat) (mm : Mm) : Mm :=
  if numPagKernel < frame ∧ frame < totalPages then mm.setFrame frame .freeFrame else mm

/-- A page number of the table; `PT[page]` beyond it is outside `pagusr_table[d]`. -/
def pageIndex (page : Int) : Except MemFault Nat :=
  if 0 ≤ page ∧ page < totalPages then .ok page.toNat else .error .outside

/-- `set_ss_pag(PT, page, frame)` for the table of directory `d`. -/
def setSsPag (d : Dir) (page : Int) (frame : Nat) (mm : Mm) : Except MemFault Mm := do
  let p ← pageIndex page
  return mm.setEntry d p ⟨frame, true, true, true⟩

/-- `del_ss_pag(PT, logical_page)`. -/
def delSsPag (d : Dir) (page : Int) (mm : Mm) : Except MemFault Mm := do
  let p ← pageIndex page
  return mm.setEntry d p .zero

/-- `get_frame(PT, logical_page)`. -/
def getFrame (d : Dir) (page : Int) (mm : Mm) : Except MemFault Nat := do
  let p ← pageIndex page
  return (mm.pagusrTable d p).pbaseAddr

def setRef (mm : Mm) (d : Dir) (n : Int) : Mm :=
  { mm with dirPagesNumReferences := Function.update mm.dirPagesNumReferences d n }

/-- `sub_DIR_ref(t)` for a task that uses `d`. -/
def subDirRef (d : Dir) (mm : Mm) : Int × Mm :=
  (mm.dirPagesNumReferences d - 1, mm.setRef d (mm.dirPagesNumReferences d - 1))

/-- `add_DIR_ref(t)` for a task that uses `d`. -/
def addDirRef (d : Dir) (mm : Mm) : Mm := mm.setRef d (mm.dirPagesNumReferences d + 1)

/-- `allocate_DIR(t)`; `none` is -ENOMEM, which leaves `t->dir_pages_baseAddr` alone. -/
def allocateDir (mm : Mm) : Option Dir × Mm :=
  match (List.finRange nrTasks).find? fun i => mm.dirPagesNumReferences i ≤ 0 with
  | some pos => (some pos, mm.setRef pos (mm.dirPagesNumReferences pos + 1))
  | none => (none, mm)

def setHeapZone (mm : Mm) (d : Dir) (n : Int) : Mm :=
  { mm with heapZones := Function.update mm.heapZones d n }

/-- The frame and offset behind a logical address of the address space `d`, if mapped.
Only entry 0 of a directory is present, which covers `totalPages` pages. -/
def translate (mm : Mm) (d : Dir) (addr : DWord) : Option (Nat × Nat) :=
  let page := addr.toNat / pageSize
  if page < totalPages ∧ (mm.pagusrTable d page).present then
    some ((mm.pagusrTable d page).pbaseAddr, addr.toNat % pageSize)
  else none

/-- A byte stored by the kernel at a logical address; it is not stopped by `rw`. -/
def storeByte (d : Dir) (addr : DWord) (byte : UInt8) (mm : Mm) : Except MemFault Mm :=
  match mm.translate d addr with
  | none => .error .pageFault
  | some (frame, offset) =>
    .ok { mm with ram := Function.update mm.ram frame (Function.update (mm.ram frame) offset byte) }

/-- An `unsigned long` stored at a logical address, lowest byte first. -/
def storeLong (d : Dir) (addr value : DWord) (mm : Mm) : Except MemFault Mm :=
  (List.range 4).foldlM
    (fun mm k => mm.storeByte d (addr + BitVec.ofNat 32 k) (UInt8.ofNat (value.toNat / 256 ^ k))) mm

/-- `copy_data` of one whole page between two page-aligned logical addresses. -/
def copyPage (d : Dir) (source dest : Int) (mm : Mm) : Except MemFault Mm := do
  match mm.translate d (BitVec.ofInt 32 (source * pageSize)),
      mm.translate d (BitVec.ofInt 32 (dest * pageSize)) with
  | some (from_, _), some (to_, _) =>
    return { mm with ram := Function.update mm.ram to_ (mm.ram from_) }
  | _, _ => throw .pageFault

/-- The pages `low`, `low + 1`, ... below `high`. -/
def pages (low high : Int) : List Int := (List.range (high - low).toNat).map fun k : Nat => low + (k : Int)

/-- `free_frame(get_frame(PT, i)); del_ss_pag(PT, i)` for every page of a range. -/
def releasePages (d : Dir) (range : List Int) (mm : Mm) : Except MemFault Mm :=
  range.foldlM (fun mm i => do
    let frame ← mm.getFrame d i
    (mm.freeFrame frame).delSsPag d i) mm

/-- `init_dir_pages`, `init_table_pages` and `init_frames`: every reference count is 0,
every table maps the kernel pages but page 0 onto themselves, and the frames of the
kernel are used. -/
def initMm : Mm where
  physMem i := if i < numPagKernel then .usedFrame else .freeFrame
  pagusrTable _ i := if 1 ≤ i ∧ i < numPagKernel then ⟨i, false, true, true⟩ else .zero
  dirPagesNumReferences _ := 0
  heapZones _ := 0
  ram _ _ := 0

/-- One iteration of a loop of `set_user_pages`. -/
def setUserPage (d : Dir) (page : Nat) (writable : Bool) (mm : Mm) : Mm :=
  let (frame, mm) := mm.allocFrame
  mm.setEntry d page ⟨frame.getD 0xFFFFF, true, writable, true⟩

/-- `set_user_pages(task)` for a task that uses `d`. -/
def setUserPages (d : Dir) (mm : Mm) : Mm :=
  let mm := (List.range numPagCode).foldl (fun mm pag => mm.setUserPage d (pagLogInitCode + pag) false) mm
  (List.range numPagData).foldl (fun mm pag => mm.setUserPage d (pagLogInitData + pag) true) mm

end Mm
end Zeos
