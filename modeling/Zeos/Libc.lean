import Zeos.Types
import Zeos.Bytes
import Zeos.BoundaryTags

/-! `malloc` and `free` of libc.c with the memory of the process that calls them. Pointers are
natural numbers below 2^32, sizes are `int`. What `dyn_mem` finds in the kernel is not
followed: `grants` says for each request for pages whether it succeeds, and what the new
pages hold. -/
namespace Zeos
open Bytes BoundaryTags

@[simp] abbrev mallocHeaderSize : Nat := 8
@[simp] abbrev heapBase : Nat := pagLogInitHeap * pageSize

/-- A pointer is what its 32 bits say. -/
def ptr (x : Int) : Nat := (x % 4294967296).toNat

theorem ptr_of_range {x : Int} {n : Nat} (same : x = n) (small : n < 4294967296) : ptr x = n := by
  subst same
  unfold ptr
  omega

/-- An access to a page that is not mapped, or to a page in front of the heap; a walk that
does not end. -/
inductive HeapFault where
  | pageFault
  | foreign
  | endless
  deriving DecidableEq, Repr

/-- The end of a heap of `myHeap` pages is not negative as an `int`, but for 0x80000000. -/
structure HeapFits (myHeap : Nat) : Prop where
  le : heapBase + pageSize * myHeap ≤ 2147483648

instance (myHeap : Nat) : Decidable (HeapFits myHeap) :=
  decidable_of_iff (heapBase + pageSize * myHeap ≤ 2147483648) ⟨fun le => ⟨le⟩, fun fits => fits.le⟩

theorem HeapFits.mono {n m : Nat} (fits : HeapFits m) (le : n ≤ m) : HeapFits n :=
  ⟨(Nat.add_le_add_left (Nat.mul_le_mul_left _ le) _).trans fits.le⟩

structure Process where
  mem : Memory
  myHeap : Nat
  heapStart : Nat
  heapEnd : Nat
  grants : Nat → Option Memory
  fits : HeapFits myHeap

namespace Process

def brk (s : Process) : Nat := heapBase + pageSize * s.myHeap

/-- The state with other bytes. -/
def setMem (m : Memory) (s : Process) : Process := { s with mem := m }

/-- An access to the four bytes of an `int`. -/
def access (a : Nat) (s : Process) : Except HeapFault Unit :=
  if heapBase ≤ a ∧ a + 4 ≤ s.brk then .ok ()
  else if lUserStart ≤ a ∧ a + 4 ≤ s.brk then .error .foreign
  else .error .pageFault

def loadInt (a : Nat) (s : Process) : Except HeapFault Int := do
  s.access a
  return load s.mem a

def storeInt (a : Nat) (v : Int) (s : Process) : Except HeapFault Process := do
  s.access a
  return s.setMem (store s.mem a v)

/-- `block->size` -/
def size (block : Nat) (s : Process) : Except HeapFault Int := s.loadInt block

/-- `block->is_free` -/
def isFree (block : Nat) (s : Process) : Except HeapFault Int := s.loadInt (ptr (block + 4))

/-- The wrapper `dyn_mem`: what is negative as an `int` is an error. -/
def answer (a : Nat) : Nat := if a < 2147483648 then a else ptr (-1)

/-- `dyn_mem(num_pags)`: pages behind the break, or the last ones given back. -/
def dynMem (numPags : Int) (s : Process) : Nat × Process :=
  if 0 < numPags then
    match s.grants 0 with
    | some fresh =>
      if fits : HeapFits (s.myHeap + numPags.toNat) then
        (answer s.brk, { s with
          mem := fun x => if s.brk ≤ x then fresh x else s.mem x
          myHeap := s.myHeap + numPags.toNat
          grants := fun n => s.grants (n + 1)
          fits })
      else (ptr (-1), { s with grants := fun n => s.grants (n + 1) })
    | none => (ptr (-1), { s with grants := fun n => s.grants (n + 1) })
  else if numPags < -s.myHeap then (ptr (-1), s)
  else
    (answer (heapBase + pageSize * (s.myHeap - (-numPags).toNat)), { s with
      myHeap := s.myHeap - (-numPags).toNat
      fits := s.fits.mono (Nat.sub_le _ _) })

/-- `next_block(block)` -/
def nextBlock (block : Nat) (s : Process) : Except HeapFault Nat := do
  return ptr (block + (← s.size block))

/-- `prev_block(block)` -/
def prevBlock (block : Nat) (s : Process) : Except HeapFault Nat := do
  let prevSize ← s.size (ptr (block - mallocHeaderSize))
  return ptr (block - prevSize)

/-- `write_header_footer(block, size, is_free)` -/
def writeHeaderFooter (block : Nat) (size isFree : Int) (s : Process) : Except HeapFault Process := do
  let s ← s.storeInt block size
  let s ← s.storeInt (ptr (block + 4)) isFree
  let footer := ptr (block + size - mallocHeaderSize)
  let s ← s.storeInt footer size
  s.storeInt (ptr (footer + 4)) isFree

/-- The first page of the heap. -/
def firstPage (s : Process) : Except HeapFault Process :=
  if s.heapStart = 0 then
    let (a, s) := s.dynMem 1
    writeHeaderFooter a pageSize 1 { s with heapStart := a, heapEnd := ptr (a + pageSize) }
  else .ok s

/-- The loop of `malloc`. It writes nothing, so that one with more rounds than there are
pointers does not end. -/
def search (totalSize : Int) : Nat → Nat → Process → Except HeapFault (Option Nat)
  | 0, _, _ => .error .endless
  | fuel + 1, current, s => do
    if current < s.heapEnd then
      if (← s.isFree current) ≠ 0 ∧ totalSize ≤ (← s.size current) then return some current
      else search totalSize fuel (← s.nextBlock current) s
    else return none

/-- The block that was found is used; what is left of it becomes a block when it is big
enough. The comparison is one of unsigned values. -/
def take (current : Nat) (totalSize : Int) (s : Process) : Except HeapFault (Nat × Process) := do
  let rem := int32 ((← s.size current) - totalSize)
  let s ←
    if 2 * mallocHeaderSize < rem % 4294967296 then do
      let s ← s.writeHeaderFooter current totalSize 0
      let part ← s.nextBlock current
      s.writeHeaderFooter part rem 1
    else do
      let size ← s.size current
      s.writeHeaderFooter current size 0
  return (ptr (current + mallocHeaderSize), s)

/-- No block is big enough: new pages. -/
def extend (totalSize : Int) (s : Process) : Except HeapFault (Nat × Process) := do
  let pagesNeeded := (int32 (totalSize + pageSize - 1)).tdiv pageSize
  let (newMem, s) := s.dynMem pagesNeeded
  let oldHeapEnd := s.heapEnd
  let s := { s with heapEnd := ptr (newMem + int32 (pagesNeeded * pageSize)) }
  let s ← s.writeHeaderFooter oldHeapEnd (int32 (pagesNeeded * pageSize)) 0
  return (ptr (oldHeapEnd + mallocHeaderSize), s)

/-- `malloc(num_bytes)` -/
def malloc (numBytes : Int) (s : Process) : Except HeapFault (Nat × Process) := do
  if numBytes ≤ 0 then return (ptr (-1), s)
  else
    let totalSize := int32 (numBytes + 2 * mallocHeaderSize)
    let s ← s.firstPage
    match ← s.search totalSize 4294967296 s.heapStart with
    | some current => s.take current totalSize
    | none => s.extend totalSize

/-- `free` joins the block with the next one. -/
def joinNext (block : Nat) (s : Process) : Except HeapFault Process := do
  let next ← s.nextBlock block
  if next < s.heapEnd then
    if (← s.isFree next) ≠ 0 then
      let newSize := int32 ((← s.size block) + (← s.size next))
      s.writeHeaderFooter block newSize 1
    else return s
  else return s

/-- `free` joins the block with the one in front of it. -/
def joinPrev (block : Nat) (s : Process) : Except HeapFault Process := do
  if s.heapStart < block then
    let prev ← s.prevBlock block
    if (← s.isFree prev) ≠ 0 then
      let newSize := int32 ((← s.size block) + (← s.size prev))
      s.writeHeaderFooter prev newSize 1
    else return s
  else return s

/-- `free` gives whole pages of the last block back. -/
def trim (s : Process) : Except HeapFault Process := do
  let last ← s.prevBlock s.heapEnd
  if (← s.isFree last) ≠ 0 then
    let blockEnd := ptr (last + (← s.size last))
    let freeBytes := int32 (s.heapEnd - last)
    let freePages := freeBytes.tdiv pageSize
    if 0 < freePages ∧ blockEnd = s.heapEnd then
      let s := { s with heapEnd := ptr (s.heapEnd - int32 (freePages * pageSize)) }
      let s ← s.storeInt last (int32 ((← s.size last) - int32 (freePages * pageSize)))
      return (s.dynMem (-freePages)).2
    else return s
  else return s

/-- `free(p)` -/
def free (p : Nat) (s : Process) : Except HeapFault (Int × Process) := do
  if p = 0 ∨ s.heapStart = 0 then return (-1, s)
  else if p < ptr (s.heapStart + mallocHeaderSize) ∨ s.heapEnd ≤ p then return (-1, s)
  else
    let block := ptr (p - mallocHeaderSize)
    if (← s.isFree block) ≠ 0 then return (-1, s)
    else
      let size ← s.size block
      let s ← s.writeHeaderFooter block size 1
      let s ← s.joinNext block
      let s ← s.joinPrev block
      let s ← s.trim
      return (0, s)

end Process
end Zeos
