import Zeos.Libc
import Zeos.Outcome

/-! The heap as blocks: what `malloc` does to them. -/
namespace Zeos
open Bytes BoundaryTags

/-- The tag at an address: the two fields of a `block_header`. -/
def tagAt (m : Memory) (a : Nat) : Int × Int := (load m a, load m (a + 4))

theorem tagAt_congr {m m' : Memory} {a : Nat} (same : SameOn m m' a (a + 8)) : tagAt m' a = tagAt m a := by
  rw [tagAt, load_congr (same.mono (Nat.le_refl a) (by omega)), load_congr (same.mono (by omega) (by omega)), tagAt]

/-- What `write_header_footer` leaves behind. -/
def retag (m : Memory) (a n : Nat) (v : Int) : Memory :=
  store (store (store (store m a n) (a + 4) v) (a + n - 8) n) (a + n - 4) v

section retag
variable {m : Memory} {a n : Nat} {v : Int}

theorem retag_sameOn {lo hi : Nat} (wide : 16 ≤ n) (apart : hi ≤ a ∨ a + n ≤ lo ∨ (a + 8 ≤ lo ∧ hi ≤ a + n - 8)) :
    SameOn m (retag m a n v) lo hi := by
  refine (store_sameOn ?_).trans ((store_sameOn ?_).trans ((store_sameOn ?_).trans (store_sameOn ?_))) <;> omega

theorem retag_tags (wide : 16 ≤ n) (small : n < 2147483648) (low : -2147483648 ≤ v) (high : v < 2147483648) :
    tagAt (retag m a n v) a = ((n : Int), v) ∧ tagAt (retag m a n v) (a + n - 8) = ((n : Int), v) := by
  unfold tagAt retag
  simp only [Prod.mk.injEq]
  refine ⟨⟨?_, ?_⟩, ?_, ?_⟩
  · rw [load_store_other (by omega), load_store_other (by omega), load_store_other (by omega),
      load_store (by omega) (by omega)]
  · rw [load_store_other (by omega), load_store_other (by omega), load_store low high]
  · rw [load_store_other (by omega), load_store (by omega) (by omega)]
  · rw [show a + n - 8 + 4 = a + n - 4 by omega, load_store low high]

end retag

namespace Process

variable {s : Process} {a n : Nat} {v : Int}

theorem heapBase_pos : 0 < heapBase := by decide

theorem brk_le (s : Process) : s.brk ≤ 2147483648 := s.fits.le

@[simp] theorem setMem_mem (m : Memory) : (s.setMem m).mem = m := rfl
@[simp] theorem setMem_brk (m : Memory) : (s.setMem m).brk = s.brk := rfl
@[simp] theorem setMem_heapStart (m : Memory) : (s.setMem m).heapStart = s.heapStart := rfl
@[simp] theorem setMem_heapEnd (m : Memory) : (s.setMem m).heapEnd = s.heapEnd := rfl
@[simp] theorem setMem_setMem (m m' : Memory) : (s.setMem m).setMem m' = s.setMem m' := rfl

theorem access_ok (low : heapBase ≤ a) (high : a + 4 ≤ s.brk) : s.access a = .ok () := by
  unfold access
  rw [if_pos ⟨low, high⟩]

theorem loadInt_ok (low : heapBase ≤ a) (high : a + 4 ≤ s.brk) : s.loadInt a = .ok (load s.mem a) := by
  unfold loadInt
  rw [access_ok low high]
  rfl

theorem storeInt_ok (low : heapBase ≤ a) (high : a + 4 ≤ s.brk) (v : Int) :
    s.storeInt a v = .ok (s.setMem (store s.mem a v)) := by
  unfold storeInt
  rw [access_ok low high]
  rfl

theorem size_ok (low : heapBase ≤ a) (high : a + 8 ≤ s.brk) : s.size a = .ok (tagAt s.mem a).1 :=
  loadInt_ok low (by omega)

theorem isFree_ok (low : heapBase ≤ a) (high : a + 8 ≤ s.brk) : s.isFree a = .ok (tagAt s.mem a).2 := by
  have small := s.brk_le
  unfold isFree
  rw [ptr_of_range (n := a + 4) (by omega) (by omega)]
  exact loadInt_ok (by omega) (by omega)

theorem writeHeaderFooter_ok (low : heapBase ≤ a) (wide : 16 ≤ n) (high : a + n ≤ s.brk) (v : Int) :
    s.writeHeaderFooter a n v = .ok (s.setMem (retag s.mem a n v)) := by
  have small := s.brk_le
  have foot : ptr ((a : Int) + n - mallocHeaderSize) = a + n - 8 := ptr_of_range (by simp; omega) (by omega)
  unfold writeHeaderFooter
  rw [storeInt_ok low (by omega), Outcome.ok_bind, ptr_of_range (n := a + 4) (by omega) (by omega),
    storeInt_ok (by omega) (by rw [setMem_brk]; omega), Outcome.ok_bind, foot]
  dsimp only
  rw [storeInt_ok (by omega) (by simp only [setMem_brk]; omega), Outcome.ok_bind,
    ptr_of_range (n := a + n - 4) (by omega) (by omega), storeInt_ok (by omega) (by simp only [setMem_brk]; omega)]
  rfl

/-- The blocks fill the heap, which ends at the break. -/
structure Tiled (s : Process) (bs : List Block) : Prop where
  base : heapBase ≤ s.heapStart
  brk : s.heapEnd = s.brk
  tiles : Tiles mallocHeaderSize (tagAt s.mem) s.heapStart bs s.heapEnd

/-- A well-formed heap. -/
structure Heap (s : Process) (bs : List Block) : Prop extends Tiled s bs where
  apart : Apart bs

namespace Tiled

variable {bs : List Block} {b : Block}

theorem bounds (heap : s.Tiled bs) (stands : At s.heapStart bs a b) :
    heapBase ≤ a ∧ 16 ≤ b.size ∧ a + b.size ≤ s.brk := by
  have inside := stands.bounds
  have wide := (heap.tiles.tags stands).1
  have fills := heap.tiles.hi_eq
  have base := heap.base
  rw [heap.brk] at fills
  exact ⟨by omega, wide, by omega⟩

theorem size_eq (heap : s.Tiled bs) (stands : At s.heapStart bs a b) : s.size a = .ok b.size := by
  obtain ⟨low, wide, high⟩ := heap.bounds stands
  rw [size_ok low (by omega), (heap.tiles.tags stands).2.1]
  rfl

theorem isFree_eq (heap : s.Tiled bs) (stands : At s.heapStart bs a b) : s.isFree a = .ok b.mark := by
  obtain ⟨low, wide, high⟩ := heap.bounds stands
  rw [isFree_ok low (by omega), (heap.tiles.tags stands).2.1]
  rfl

theorem nextBlock_eq (heap : s.Tiled bs) (stands : At s.heapStart bs a b) : s.nextBlock a = .ok (a + b.size) := by
  obtain ⟨low, wide, high⟩ := heap.bounds stands
  have small := s.brk_le
  unfold nextBlock
  rw [heap.size_eq stands, Outcome.ok_bind, ptr_of_range (n := a + b.size) (by omega) (by omega)]
  rfl

theorem prevBlock_eq (heap : s.Tiled bs) (stands : At s.heapStart bs a b) : s.prevBlock (a + b.size) = .ok a := by
  obtain ⟨low, wide, high⟩ := heap.bounds stands
  have small := s.brk_le
  unfold prevBlock
  rw [ptr_of_range (n := a + b.size - 8) (by simp; omega) (by omega), size_ok (by omega) (by omega),
    (heap.tiles.tags stands).2.2, Outcome.ok_bind]
  show Except.ok (ptr ((a + b.size : Nat) - (b.size : Int))) = .ok a
  rw [ptr_of_range (n := a) (by omega) (by omega)]

end Tiled

/-- One block is written over those that fill its place. -/
theorem Tiled.retag {before mid after : List Block} (heap : s.Tiled (before ++ (mid ++ after))) (wide : 16 ≤ total mid)
    (low : -2147483648 ≤ v) (high : v < 2147483648) :
    (s.setMem (Zeos.retag s.mem (s.heapStart + total before) (total mid) v)).Tiled
      (before ++ ([⟨total mid, v⟩] ++ after)) := by
  have fills := heap.tiles.hi_eq
  have small := s.brk_le
  have base := heapBase_pos.trans_le heap.base
  rw [heap.brk, total_append, total_append] at fills
  obtain ⟨head, foot⟩ := retag_tags (m := s.mem) (a := s.heapStart + total before) wide (by omega) low high
  refine ⟨heap.base, heap.brk, heap.tiles.replace (fun x _ below => ?_) (fun x above _ => ?_) (.single wide head foot)⟩
  · exact tagAt_congr (retag_sameOn wide (.inl below))
  · exact tagAt_congr (retag_sameOn wide (.inr (.inl above)))

end Process

/-- The pages that `malloc` asks for. -/
def pagesFor (t : Nat) : Nat := (t + pageSize - 1) / pageSize

theorem pagesFor_bounds {t : Nat} (some : 0 < t) :
    0 < pagesFor t ∧ t ≤ pagesFor t * pageSize ∧ pagesFor t * pageSize < t + pageSize := by
  simp only [pagesFor, pageSize]
  omega

/-- A free block that is big enough. -/
def Fits (t : Int) (b : Block) : Prop := b.Free ∧ t ≤ b.size

/-- What is left of a free block that is used for `t` bytes. -/
def carve (b : Block) (t : Nat) : List Block :=
  if 16 < b.size - t then [⟨t, 0⟩, ⟨b.size - t, 1⟩] else [⟨b.size, 0⟩]

theorem total_carve {b : Block} {t : Nat} (fits : t ≤ b.size) : total (carve b t) = b.size := by
  unfold carve
  split
  · simp
    omega
  · simp

namespace Process

variable {s : Process} {a n t : Nat} {v : Int}

/-- A free block is cut in two. -/
theorem Tiled.cut {before after : List Block} {b : Block} (heap : s.Tiled (before ++ b :: after))
    (place : s.heapStart + total before = a) (wide : 16 ≤ t) (rest : 16 < b.size - t) :
    let m := Zeos.retag (Zeos.retag s.mem a t 0) (a + t) (b.size - t) 1
    (s.setMem m).Tiled (before ++ ([⟨t, 0⟩, ⟨b.size - t, 1⟩] ++ after)) ∧ tagAt m a = ((t : Int), 0) ∧
      ∀ lo hi, hi ≤ a ∨ a + b.size ≤ lo → SameOn s.mem m lo hi := by
  intro m
  obtain ⟨low, big, high⟩ := heap.bounds (at_split s.heapStart b before after)
  have small := s.brk_le
  have base := heapBase_pos
  rw [place] at low high
  obtain ⟨head, foot⟩ := retag_tags (m := s.mem) (a := a) (v := 0) wide (by omega) (by decide) (by decide)
  obtain ⟨head', foot'⟩ := retag_tags (m := Zeos.retag s.mem a t 0) (a := a + t) (n := b.size - t) (v := 1)
    (by omega) (by omega) (by decide) (by decide)
  have same₁ {lo hi : Nat} (apart : hi ≤ a ∨ a + t ≤ lo) : SameOn s.mem (Zeos.retag s.mem a t 0) lo hi :=
    retag_sameOn wide (by omega)
  have same₂ {lo hi : Nat} (apart : hi ≤ a + t ∨ a + b.size ≤ lo) : SameOn (Zeos.retag s.mem a t 0) m lo hi :=
    retag_sameOn (by omega) (by omega)
  have first : tagAt m a = ((t : Int), 0) := (tagAt_congr (same₂ (by omega))).trans head
  have filled : Tiles mallocHeaderSize (tagAt s.mem) s.heapStart (before ++ ([b] ++ after)) s.heapEnd := heap.tiles
  refine ⟨⟨heap.base, heap.brk, filled.replace (fun x _ below => ?_) (fun x above _ => ?_) ?_⟩, first,
    fun lo hi apart => (same₁ (by omega)).trans (same₂ (by omega))⟩
  · rw [place, mallocHeaderSize] at below
    exact tagAt_congr ((same₁ (.inl below)).trans (same₂ (by omega)))
  · rw [place, total_cons, total_nil, Nat.add_zero] at above
    exact tagAt_congr ((same₁ (by omega)).trans (same₂ (by omega)))
  · rw [place]
    refine ⟨wide, first, (tagAt_congr (same₂ (by simp; omega))).trans foot, by simp; omega, head', foot', by simp [Tiles]; omega⟩

/-- The block that was found is used. -/
theorem Tiled.take {before after : List Block} {b : Block} (heap : s.Tiled (before ++ b :: after))
    (place : s.heapStart + total before = a) (fits : t ≤ b.size) (wide : 16 ≤ t) :
    ∃ m, s.take a t = .ok (a + 8, s.setMem m) ∧ (s.setMem m).Tiled (before ++ (carve b t ++ after)) ∧
      ∀ lo hi, hi ≤ a ∨ a + b.size ≤ lo → SameOn s.mem m lo hi := by
  have stands := at_split s.heapStart b before after
  rw [place] at stands
  obtain ⟨low, big, high⟩ := heap.bounds stands
  have small := s.brk_le
  have base := heapBase_pos
  have left : int32 ((b.size : Int) - t) = ((b.size - t : Nat) : Int) := by
    rw [int32_of_range (by omega) (by omega)]
    omega
  have payload : ptr ((a : Int) + mallocHeaderSize) = a + 8 := ptr_of_range (by simp) (by omega)
  unfold Process.take carve
  rw [heap.size_eq stands, Outcome.ok_bind, left]
  by_cases rest : 16 < b.size - t
  · rw [if_pos (by simp; omega), if_pos rest]
    obtain ⟨tiled, head, same⟩ := heap.cut place wide rest
    refine ⟨_, ?_, tiled, same⟩
    have first : (s.setMem (Zeos.retag s.mem a t 0)).nextBlock a = .ok (a + t) := by
      unfold nextBlock
      rw [size_ok low (by simp only [setMem_brk]; omega), setMem_mem,
        (retag_tags wide (by omega) (by decide) (by decide)).1, Outcome.ok_bind, ptr_of_range (n := a + t) (by simp) (by omega)]
      rfl
    rw [writeHeaderFooter_ok low wide (by omega)]
    simp only [Outcome.ok_bind, first]
    rw [writeHeaderFooter_ok (by omega) (by omega) (by simp only [setMem_brk]; omega)]
    simp only [Outcome.ok_bind, payload]
    rfl
  · rw [if_neg (by simp; omega), if_neg rest]
    have filled : s.Tiled (before ++ ([b] ++ after)) := heap
    have whole := filled.retag (v := 0) (by simpa using big) (by decide) (by decide)
    rw [place] at whole
    refine ⟨Zeos.retag s.mem a b.size 0, ?_, by simpa using whole, fun lo hi apart => retag_sameOn big (by omega)⟩
    rw [Outcome.ok_bind, writeHeaderFooter_ok low big high]
    simp only [Outcome.ok_bind, payload]
    rfl

/-- The walk stops at the first block that fits. -/
theorem Tiled.search {t : Int} {before rest : List Block} (heap : s.Tiled (before ++ rest)) (fuel : Nat)
    (enough : rest.length < fuel) :
    (∃ pre b post, rest = pre ++ b :: post ∧ (∀ c ∈ pre, ¬ Fits t c) ∧ Fits t b ∧
      s.search t fuel (s.heapStart + total before) = .ok (some (s.heapStart + total (before ++ pre)))) ∨
    (∀ c ∈ rest, ¬ Fits t c) ∧ s.search t fuel (s.heapStart + total before) = .ok none := by
  induction rest generalizing before fuel with
  | nil =>
    obtain ⟨fuel, rfl⟩ : ∃ n, fuel = n + 1 := ⟨fuel - 1, by simp at enough; omega⟩
    have fills := heap.tiles.hi_eq
    rw [List.append_nil] at fills
    refine .inr ⟨by simp, ?_⟩
    unfold Process.search
    rw [if_neg (by omega)]
    rfl
  | cons b rest ih =>
    obtain ⟨fuel, rfl⟩ : ∃ n, fuel = n + 1 := ⟨fuel - 1, by simp at enough; omega⟩
    have stands := at_split s.heapStart b before rest
    obtain ⟨low, big, high⟩ := heap.bounds stands
    have inside : s.heapStart + total before < s.heapEnd := by
      rw [heap.brk]
      omega
    unfold Process.search
    rw [if_pos inside, heap.isFree_eq stands, heap.size_eq stands, heap.nextBlock_eq stands]
    simp only [Outcome.ok_bind]
    by_cases fits : b.mark ≠ 0 ∧ t ≤ (b.size : Int)
    · rw [if_pos fits]
      exact .inl ⟨[], b, rest, rfl, by simp, fits, by simp; rfl⟩
    · rw [if_neg fits]
      have moved : s.Tiled ((before ++ [b]) ++ rest) := by simpa using heap
      have place : s.heapStart + total before + b.size = s.heapStart + total (before ++ [b]) := by simp; omega
      rw [place]
      rcases ih moved fuel (by simpa using enough) with ⟨pre, c, post, rfl, first, found, done⟩ | ⟨none, done⟩
      · refine .inl ⟨b :: pre, c, post, rfl, ?_, found, by simpa using done⟩
        intro d mem
        rcases List.mem_cons.mp mem with rfl | mem
        · exact fits
        · exact first d mem
      · refine .inr ⟨?_, done⟩
        intro d mem
        rcases List.mem_cons.mp mem with rfl | mem
        · exact fits
        · exact none d mem

/-- The next `dyn_mem(num_pags)` succeeds. -/
def Grants (numPags : Nat) (s : Process) : Prop :=
  (s.grants 0).isSome ∧ HeapFits (s.myHeap + numPags)

/-- The pages are mapped behind the break, the bytes in front of it stay. -/
theorem Grants.dynMem {numPags : Nat} (grants : s.Grants numPags) (some : 0 < numPags) :
    (s.dynMem numPags).1 = s.brk ∧ (s.dynMem numPags).2.brk = s.brk + pageSize * numPags ∧
      SameOn s.mem (s.dynMem numPags).2.mem 0 s.brk ∧ (s.dynMem numPags).2.heapStart = s.heapStart ∧
      (s.dynMem numPags).2.heapEnd = s.heapEnd := by
  obtain ⟨given, room⟩ := grants
  obtain ⟨fresh, given⟩ := Option.isSome_iff_exists.mp given
  have fits : HeapFits (s.myHeap + (numPags : Int).toNat) := by simpa using room
  have below : s.brk < 2147483648 := by
    have le := room.le
    unfold brk
    simp only [pageSize] at le ⊢
    omega
  unfold Process.dynMem
  rw [if_pos (by omega), given]
  simp only [fits, dif_pos]
  refine ⟨?_, ?_, ?_, trivial, trivial⟩
  · rw [answer, if_pos below]
  · simp only [brk, Int.toNat_natCast]
    ring
  · intro x _ high
    dsimp only
    rw [if_neg (by omega)]

theorem pagesNeeded {t : Nat} (small : t + pageSize ≤ 2147483647) :
    (int32 ((t : Int) + pageSize - 1)).tdiv pageSize = pagesFor t ∧
      int32 ((pagesFor t : Int) * pageSize) = (pagesFor t * pageSize : Nat) := by
  simp only [pageSize] at small ⊢
  refine ⟨?_, ?_⟩
  · rw [int32_of_range (by omega) (by omega), Int.tdiv_eq_ediv_of_nonneg (by omega)]
    simp only [pagesFor, pageSize]
    omega
  · rw [int32_of_range] <;> simp only [pagesFor, pageSize] <;> omega

theorem extend_eq {totalSize pages : Int} {newMem : Nat} {s₁ : Process}
    (needed : (int32 (totalSize + pageSize - 1)).tdiv pageSize = pages) (result : s.dynMem pages = (newMem, s₁)) :
    s.extend totalSize = do
      let s ← writeHeaderFooter s₁.heapEnd (int32 (pages * pageSize)) 0
        { s₁ with heapEnd := ptr (newMem + int32 (pages * pageSize)) }
      return (ptr (s₁.heapEnd + mallocHeaderSize), s) := by
  unfold Process.extend
  simp only [needed, result]

/-- A new block behind the old end of the heap. -/
theorem Tiled.extend {bs : List Block} (heap : s.Tiled bs) (some : 16 ≤ t) (small : t + pageSize ≤ 2147483647)
    (grants : s.Grants (pagesFor t)) : ∃ s', s.extend t = .ok (s.heapEnd + 8, s') ∧ s'.heapStart = s.heapStart ∧
      s'.Tiled (bs ++ [⟨pagesFor t * pageSize, 0⟩]) ∧ SameOn s.mem s'.mem 0 s.heapEnd := by
  obtain ⟨positive, enough, -⟩ := pagesFor_bounds (t := t) (by omega)
  obtain ⟨returned, brk, same, start, stop⟩ := grants.dynMem positive
  obtain ⟨needed, bytes⟩ := pagesNeeded small
  rcases result : s.dynMem (pagesFor t) with ⟨newMem, s₁⟩
  rw [result] at returned brk same start stop
  dsimp only at returned brk same start stop
  subst newMem
  rw [extend_eq needed result, bytes]
  have small₁ := s₁.brk_le
  have fills := heap.tiles.hi_eq
  have base := heap.base
  have above := heapBase_pos
  have low : heapBase ≤ s₁.heapEnd := by rw [stop]; omega
  have old := heap.brk
  have bytes' : pagesFor t * pageSize = pageSize * pagesFor t := Nat.mul_comm _ _
  have top : ptr ((s.brk : Int) + (pagesFor t * pageSize : Nat)) = s₁.brk := ptr_of_range (by rw [brk, bytes']; simp) (by omega)
  have wide : 16 ≤ pagesFor t * pageSize := by omega
  have written : writeHeaderFooter s₁.heapEnd (pagesFor t * pageSize : Nat) 0 { s₁ with heapEnd := s₁.brk } =
      .ok (Process.setMem (Zeos.retag s₁.mem s₁.heapEnd (pagesFor t * pageSize) 0) { s₁ with heapEnd := s₁.brk }) :=
    writeHeaderFooter_ok (s := { s₁ with heapEnd := s₁.brk }) low wide (show _ ≤ s₁.brk by omega) 0
  rw [top, written]
  have kept : SameOn s.mem (Zeos.retag s₁.mem s₁.heapEnd (pagesFor t * pageSize) 0) 0 s.heapEnd :=
    (same.mono (by omega) (by omega)).trans (retag_sameOn wide (.inl (by omega)))
  refine ⟨Process.setMem (Zeos.retag s₁.mem s₁.heapEnd (pagesFor t * pageSize) 0) { s₁ with heapEnd := s₁.brk }, ?_, start,
    ⟨?_, rfl, ?_⟩, kept⟩
  · simp only [Outcome.ok_bind, stop, ptr_of_range (x := (s.heapEnd : Int) + mallocHeaderSize) (n := s.heapEnd + 8)
      (by simp) (by omega)]
    rfl
  · exact (show heapBase ≤ s₁.heapStart by rwa [start])
  · obtain ⟨head, foot⟩ := retag_tags (m := s₁.mem) (a := s₁.heapEnd) (v := 0) wide (by omega) (by decide) (by decide)
    have first := heap.tiles.congr fun x _ below => tagAt_congr (kept.mono (by omega) below)
    have last := Tiles.single (b := ⟨pagesFor t * pageSize, 0⟩) wide head foot
    show Tiles mallocHeaderSize (tagAt (Zeos.retag s₁.mem s₁.heapEnd (pagesFor t * pageSize) 0)) s₁.heapStart _ s₁.brk
    rw [start, Tiles.append, ← fills]
    refine ⟨first, ?_⟩
    have place : s₁.heapEnd + pagesFor t * pageSize = s₁.brk := by rw [stop, brk, old, bytes']
    rw [← stop, ← place]
    exact last

theorem firstPage_eq {newMem : Nat} {s₁ : Process} (null : s.heapStart = 0) (result : s.dynMem 1 = (newMem, s₁)) :
    s.firstPage = writeHeaderFooter newMem pageSize 1 { s₁ with heapStart := newMem, heapEnd := ptr (newMem + pageSize) } := by
  unfold Process.firstPage
  rw [if_pos null]
  simp only [result]

/-- The heap begins as one free block of a page. -/
theorem firstPage_heap (null : s.heapStart = 0) (grants : s.Grants 1) :
    ∃ s', s.firstPage = .ok s' ∧ s'.heapStart = s.brk ∧ s'.Heap [⟨pageSize, 1⟩] ∧ SameOn s.mem s'.mem 0 s.brk ∧
      s'.grants = (s.dynMem 1).2.grants ∧ s'.myHeap = (s.dynMem 1).2.myHeap := by
  obtain ⟨returned, brk, same, -, -⟩ := grants.dynMem (by decide)
  rcases result : s.dynMem ((1 : Nat) : Int) with ⟨newMem, s₁⟩
  rw [result] at returned brk same
  dsimp only at returned brk same
  subst newMem
  have small := s₁.brk_le
  have low : heapBase ≤ s.brk := Nat.le_add_right _ _
  have top : ptr ((s.brk : Int) + (pageSize : Nat)) = s₁.brk := ptr_of_range (by rw [brk]; simp) (by omega)
  have written : writeHeaderFooter s.brk (pageSize : Nat) 1 { s₁ with heapStart := s.brk, heapEnd := s₁.brk } =
      .ok (Process.setMem (Zeos.retag s₁.mem s.brk pageSize 1) { s₁ with heapStart := s.brk, heapEnd := s₁.brk }) :=
    writeHeaderFooter_ok (s := { s₁ with heapStart := s.brk, heapEnd := s₁.brk }) low (by decide)
      (show s.brk + pageSize ≤ s₁.brk by rw [brk]; omega) 1
  obtain ⟨head, foot⟩ := retag_tags (m := s₁.mem) (a := s.brk) (n := pageSize) (v := 1) (by decide) (by decide)
    (by decide) (by decide)
  have page := Tiles.single (b := ⟨pageSize, 1⟩) (by decide) head foot
  have result : s.dynMem 1 = (s.brk, s₁) := result
  rw [firstPage_eq null result, top, written]
  refine ⟨_, rfl, rfl, ⟨⟨low, rfl, ?_⟩, List.isChain_singleton _⟩,
    same.trans (retag_sameOn (by decide) (.inl (by omega))), rfl, rfl⟩
  show Tiles mallocHeaderSize (tagAt (Zeos.retag s₁.mem s.brk pageSize 1)) s.brk _ s₁.brk
  have place : s.brk + pageSize = s₁.brk := by rw [brk]; omega
  rw [← place]
  exact page

/-- The heap that `malloc` searches, and where it begins: the one that is there, or a first page. -/
inductive Opens (s : Process) : Nat → List Block → Prop where
  | heap {bs : List Block} (heap : s.Heap bs) : Opens s s.heapStart bs
  | first (null : s.heapStart = 0) : Opens s s.brk [⟨pageSize, 1⟩]

/-- The `dyn_mem` calls of `malloc(num_bytes)` succeed. -/
def Serves (t : Nat) (bs : List Block) (s : Process) : Prop :=
  if s.heapStart = 0 then s.Grants 1 ∧ ((∀ b ∈ bs, ¬ Fits t b) → (s.dynMem 1).2.Grants (pagesFor t))
  else (∀ b ∈ bs, ¬ Fits t b) → s.Grants (pagesFor t)

end Process

/-- The blocks behind `malloc`, with the pointer it returns: the first free block that fits,
or a new one at the end. -/
def Chosen (lo t : Nat) (bs : List Block) (p : Nat) (bs' : List Block) : Prop :=
  (∃ before b after, bs = before ++ b :: after ∧ (∀ c ∈ before, ¬ Fits t c) ∧ Fits t b ∧
    p = lo + total before + mallocHeaderSize ∧ bs' = before ++ (carve b t ++ after)) ∨
  ((∀ c ∈ bs, ¬ Fits t c) ∧ p = lo + total bs + mallocHeaderSize ∧ bs' = bs ++ [⟨pagesFor t * pageSize, 0⟩])

section Chosen
variable {lo t p : Nat} {bs bs' : List Block}

theorem carve_apart {before after : List Block} {b : Block} (apart : Apart (before ++ b :: after)) (free : b.Free) :
    Apart (before ++ (carve b t ++ after)) := by
  obtain ⟨first, rest, join⟩ := List.isChain_append.mp apart
  have used (n : Nat) : ¬ (⟨n, 0⟩ : Block).Free := fun marked => marked rfl
  have after' : ∀ c ∈ after.head?, ¬ c.Free := fun c mem => by
    cases after with
    | nil => simp at mem
    | cons d after =>
      cases mem
      exact fun marked => (List.isChain_cons_cons.mp rest).1 ⟨free, marked⟩
  have tail : Apart after := rest.tail
  refine List.isChain_append.mpr ⟨first, ?_, ?_⟩ <;> unfold carve <;> split
  · refine List.isChain_cons_cons.mpr ⟨fun both => used _ both.1, ?_⟩
    exact List.isChain_cons.mpr ⟨fun c mem both => after' c mem both.2, tail⟩
  · exact List.isChain_cons.mpr ⟨fun c mem both => after' c mem both.2, tail⟩
  · rintro c - d mem both
    cases mem
    exact used _ both.2
  · rintro c - d mem both
    cases mem
    exact used _ both.2

theorem carve_head {b : Block} (fits : t ≤ b.size) : ∃ c rest, carve b t = c :: rest ∧ ¬ c.Free ∧ t ≤ c.size := by
  unfold carve
  split
  · exact ⟨_, _, rfl, fun marked => marked rfl, Nat.le_refl t⟩
  · exact ⟨_, _, rfl, fun marked => marked rfl, fits⟩

end Chosen

namespace Process

variable {s : Process} {lo t n : Nat} {bs bs' : List Block}

/-- Blocks in use keep their place and their bytes. -/
def Keeps (s s' : Process) (lo : Nat) (bs bs' : List Block) : Prop :=
  ∀ a b, At lo bs a b → ¬ b.Free → At lo bs' a b ∧ SameOn s.mem s'.mem a (a + b.size)

/-- The heap is there when the search begins. -/
theorem Opens.firstPage (opens : s.Opens lo bs) (serves : s.Serves t bs) :
    ∃ s₁, s.firstPage = .ok s₁ ∧ s₁.heapStart = lo ∧ s₁.Heap bs ∧ ((∀ b ∈ bs, ¬ Fits t b) → s₁.Grants (pagesFor t)) ∧
      s.Keeps s₁ lo bs bs := by
  unfold Serves at serves
  cases opens with
  | heap heap =>
    have base := heapBase_pos.trans_le heap.base
    have ready : ¬ s.heapStart = 0 := by omega
    rw [if_neg ready] at serves
    refine ⟨s, ?_, rfl, heap, serves, fun a b stands _ => ⟨stands, .refl _ _ _⟩⟩
    unfold Process.firstPage
    rw [if_neg ready]
  | first null =>
    rw [if_pos null] at serves
    obtain ⟨s₁, done, start, heap, -, grants, pages⟩ := firstPage_heap null serves.1
    refine ⟨s₁, done, start, heap, fun none => ?_, fun a b stands used => ?_⟩
    · have more := serves.2 none
      unfold Grants at more ⊢
      rwa [grants, pages]
    · rcases stands with ⟨-, rfl⟩ | outside
      · exact absurd (show (1 : Int) ≠ 0 by decide) used
      · exact outside.elim

/-- The walk of `malloc` ends. -/
theorem Tiled.search_all {t : Int} (heap : s.Tiled bs) :
    (∃ pre b post, bs = pre ++ b :: post ∧ (∀ c ∈ pre, ¬ Fits t c) ∧ Fits t b ∧
      s.search t 4294967296 s.heapStart = .ok (some (s.heapStart + total pre))) ∨
    (∀ c ∈ bs, ¬ Fits t c) ∧ s.search t 4294967296 s.heapStart = .ok none := by
  have few := heap.tiles.length_le
  have fills := heap.tiles.hi_eq
  have small := s.brk_le
  have old := heap.brk
  simp only [mallocHeaderSize] at few
  have whole : s.Tiled ([] ++ bs) := heap
  exact whole.search 4294967296 (by omega)

/-- What `malloc` returns and leaves behind. -/
theorem Opens.malloc (opens : s.Opens lo bs) (positive : 0 < n)
    (small : n + 2 * mallocHeaderSize + pageSize ≤ 2147483647) (serves : s.Serves (n + 2 * mallocHeaderSize) bs) :
    ∃ p s' bs', s.malloc n = .ok (p, s') ∧ s'.heapStart = lo ∧ s'.Heap bs' ∧
      Chosen lo (n + 2 * mallocHeaderSize) bs p bs' ∧
      (∃ c, At lo bs' (p - mallocHeaderSize) c ∧ ¬ c.Free ∧ n + 2 * mallocHeaderSize ≤ c.size) ∧ s.Keeps s' lo bs bs' := by
  obtain ⟨s₁, opened, start, heap, more, kept⟩ := opens.firstPage serves
  subst start
  have size : int32 ((n : Int) + 2 * mallocHeaderSize) = (n + 2 * mallocHeaderSize : Nat) := by
    simp only [mallocHeaderSize] at small ⊢
    rw [int32_of_range (by omega) (by omega)]
    push_cast
    rfl
  generalize total : n + 2 * mallocHeaderSize = t at *
  have wide : 16 ≤ t := by
    simp only [mallocHeaderSize] at total
    omega
  unfold Process.malloc
  rw [if_neg (by omega), size, opened, Outcome.ok_bind]
  rcases heap.search_all (t := (t : Int)) with ⟨pre, b, post, rfl, first, fits, found⟩ | ⟨none, found⟩
  · have enough : t ≤ b.size := by exact_mod_cast fits.2
    obtain ⟨m, taken, tiled, same⟩ := heap.take rfl enough wide
    have stands := at_split s₁.heapStart b pre post
    refine ⟨_, s₁.setMem m, _, ?_, rfl, ⟨tiled, carve_apart heap.apart fits.1⟩, .inl ⟨pre, b, post, rfl, first, fits, rfl, rfl⟩,
      ?_, fun a c there used => ?_⟩
    · rw [found, Outcome.ok_bind]
      exact taken
    · obtain ⟨c, rest, cut, used, big⟩ := carve_head enough
      rw [Nat.add_sub_cancel, cut]
      exact ⟨c, at_split _ _ pre (rest ++ post), used, big⟩
    · have other : ¬ At (s₁.heapStart + BoundaryTags.total pre) [b] a c := by
        rintro (⟨-, rfl⟩ | outside)
        · exact used fits.1
        · exact outside
      have there' : At s₁.heapStart (pre ++ ([b] ++ post)) a c := there
      refine ⟨there'.replace (by rw [total_carve enough]; simp) other, ?_⟩
      refine (kept a c there used).2.trans (same _ _ ?_)
      rcases stands.disjoint there with ⟨-, rfl⟩ | apart
      · exact absurd fits.1 used
      · exact apart.symm
  · obtain ⟨-, enough, -⟩ := pagesFor_bounds (t := t) (by omega)
    obtain ⟨s', done, start, tiled, same⟩ := heap.extend wide small (more none)
    have fills := heap.tiles.hi_eq
    have used : ¬ (⟨pagesFor t * pageSize, 0⟩ : Block).Free := fun marked => marked rfl
    have apart : Apart (bs ++ [⟨pagesFor t * pageSize, 0⟩]) := List.isChain_append.mpr
      ⟨heap.apart, List.isChain_singleton _, fun c _ d mem both => by cases mem; exact used both.2⟩
    refine ⟨_, s', _, ?_, start, ⟨tiled, apart⟩, .inr ⟨none, by rw [← fills], rfl⟩, ?_, fun a c there busy => ?_⟩
    · rw [found, Outcome.ok_bind]
      exact done
    · refine ⟨_, ?_, used, enough⟩
      rw [Nat.add_sub_cancel, fills]
      exact at_split _ _ bs []
    · refine ⟨at_append.mpr (.inl there), (kept a c there busy).2.trans (same.mono (by omega) ?_)⟩
      rw [fills]
      exact there.bounds.2

/-- `malloc` in a well-formed heap, or before there is one: the heap stays well-formed, the
payload lies in the first free block that fits or in new pages, and no block in use changes. -/
theorem malloc_heap (opens : s.Opens lo bs) (positive : 0 < n)
    (small : n + 2 * mallocHeaderSize + pageSize ≤ 2147483647) (serves : s.Serves (n + 2 * mallocHeaderSize) bs) :
    ∃ p s' bs', s.malloc n = .ok (p, s') ∧ s'.heapStart = lo ∧ s'.Heap bs' ∧
      Chosen lo (n + 2 * mallocHeaderSize) bs p bs' ∧
      (∃ c, At lo bs' (p - mallocHeaderSize) c ∧ ¬ c.Free ∧ n + 2 * mallocHeaderSize ≤ c.size) ∧ s.Keeps s' lo bs bs' :=
  opens.malloc positive small serves

/-- A process that has not called `malloc` yet; the kernel has pages, or it has none. -/
def start (pages : Bool) : Process :=
  ⟨fun _ => 0, 0, 0, 0, fun _ => if pages then some fun _ => 0 else none, ⟨by decide⟩⟩

/-- `malloc(12272)`, `malloc(4080)`, `malloc(4080)`, `free` of the first one, `malloc(100)`. -/
def worn : Process :=
  let calls : Except HeapFault Process := do
    let (p, s) ← (start true).malloc 12272
    let (_, s) ← s.malloc 4080
    let (_, s) ← s.malloc 4080
    let (_, s) ← s.free p
    return (← s.malloc 100).2
  calls.toOption.getD (start true)

theorem worn_heap : worn.Heap [⟨4096, 0⟩, ⟨116, 0⟩, ⟨12172, 1⟩, ⟨4096, 0⟩] :=
  ⟨⟨by decide +kernel, by decide +kernel, by decide +kernel⟩, by decide⟩

/-- The first `malloc`, and one that splits the free block of `worn`. -/
theorem malloc_heap_first :
    (∃ p s' bs', (start true).malloc 100 = .ok (p, s') ∧ s'.heapStart = (start true).brk ∧ s'.Heap bs' ∧
      Chosen (start true).brk 116 [⟨pageSize, 1⟩] p bs' ∧
      (∃ c, At (start true).brk bs' (p - mallocHeaderSize) c ∧ ¬ c.Free ∧ 116 ≤ c.size) ∧
      (start true).Keeps s' (start true).brk [⟨pageSize, 1⟩] bs') ∧
    ∃ p s' bs', worn.malloc 200 = .ok (p, s') ∧ s'.heapStart = worn.heapStart ∧ s'.Heap bs' ∧
      Chosen worn.heapStart 216 [⟨4096, 0⟩, ⟨116, 0⟩, ⟨12172, 1⟩, ⟨4096, 0⟩] p bs' ∧
      (∃ c, At worn.heapStart bs' (p - mallocHeaderSize) c ∧ ¬ c.Free ∧ 216 ≤ c.size) ∧
      worn.Keeps s' worn.heapStart [⟨4096, 0⟩, ⟨116, 0⟩, ⟨12172, 1⟩, ⟨4096, 0⟩] bs' := by
  constructor
  · have fits : HeapFits 1 := ⟨by decide⟩
    have serves : (start true).Serves (100 + 2 * mallocHeaderSize) [⟨pageSize, 1⟩] := by
      unfold Serves
      rw [if_pos (show (start true).heapStart = 0 from rfl)]
      refine ⟨⟨rfl, fits⟩, fun none => absurd ?_ (none _ (List.mem_singleton_self _))⟩
      exact ⟨show (1 : Int) ≠ 0 by decide, by decide⟩
    exact malloc_heap (.first rfl) (by decide) (by decide) serves
  · have serves : worn.Serves (200 + 2 * mallocHeaderSize) [⟨4096, 0⟩, ⟨116, 0⟩, ⟨12172, 1⟩, ⟨4096, 0⟩] := by
      unfold Serves
      rw [if_neg (by decide +kernel)]
      intro none
      have fits : Fits (200 + 2 * mallocHeaderSize) ⟨12172, 1⟩ := ⟨show (1 : Int) ≠ 0 by decide, by decide⟩
      exact absurd fits (none _ (by simp))
    exact malloc_heap (.heap worn_heap) (by decide) (by decide) serves

end Process
end Zeos
