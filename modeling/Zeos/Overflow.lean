import Zeos.Allocations

/-! The arithmetic of `malloc` for every `int`. -/
namespace Zeos
open Bytes BoundaryTags Outcome

namespace Process

variable {s s₁ : Process} {numBytes : Int} {a lo : Nat} {bs : List Block} {b : Block}

/-- `malloc(num_bytes)` calls `dyn_mem` with such a number of pages. -/
inductive Asks (numBytes : Int) (s : Process) : Int → Prop where
  | first (positive : 0 < numBytes) (null : s.heapStart = 0) : Asks numBytes s 1
  | more {s₁ : Process} (positive : 0 < numBytes) (opened : s.firstPage = .ok s₁)
      (none : s₁.search (int32 (numBytes + 2 * mallocHeaderSize)) 4294967296 s₁.heapStart = .ok none) :
      Asks numBytes s (morePages numBytes)

/-- `malloc(num_bytes)` fails, or returns the payload of a block in use that is long enough. It
asks for no negative number of pages. -/
def Measures (s : Process) (numBytes : Int) : Prop :=
  ((∃ s', s.malloc numBytes = .ok (ptr (-1), s')) ∨
    ∃ p s' bs' c, s.malloc numBytes = .ok (p, s') ∧ s'.Heap bs' ∧ At s'.heapStart bs' (p - mallocHeaderSize) c ∧
      ¬ c.Free ∧ numBytes + 2 * mallocHeaderSize ≤ c.size) ∧
  ∀ pages, s.Asks numBytes pages → 0 ≤ pages

/-- The sum with the two tags wraps around. -/
theorem wrapped_size (int : numBytes < 2147483648) (big : 2147483647 < numBytes + 2 * mallocHeaderSize) :
    int32 (numBytes + 2 * mallocHeaderSize) = numBytes + 2 * mallocHeaderSize - 4294967296 := by
  simp only [mallocHeaderSize] at big ⊢
  apply int32_wraps <;> omega

/-- A size that wrapped around puts the footer behind the heap. -/
theorem Tiled.take_wrapped {t : Int} (heap : s.Tiled bs) (stands : At s.heapStart bs a b) (low : -2147483648 ≤ t)
    (high : t < -2147483632) : s.take a t = .error .pageFault := by
  obtain ⟨above, wide, inside⟩ := heap.bounds stands
  have small := s.brk_le
  have base : pageSize ≤ heapBase := by decide
  simp only [pageSize] at base
  have rem : int32 ((b.size : Int) - t) = b.size - t - 4294967296 := by
    apply int32_wraps <;> omega
  have footer : ptr ((a : Int) + t - mallocHeaderSize) = a + (t + 4294967288).toNat := by
    simp only [mallocHeaderSize]
    unfold ptr
    omega
  have outside (m : Memory) : (s.setMem m).storeInt (ptr ((a : Int) + t - mallocHeaderSize)) t = .error .pageFault := by
    rw [footer]
    unfold storeInt access
    rw [setMem_brk, if_neg (by omega), if_neg (by omega)]
    rfl
  unfold Process.take writeHeaderFooter
  rw [heap.size_eq stands, ok_bind, rem, if_pos (by simp only [mallocHeaderSize]; omega), storeInt_ok above (by omega), ok_bind,
    ptr_of_range (n := a + 4) (by omega) (by omega), storeInt_ok (by omega) (by rw [setMem_brk]; omega), ok_bind]
  dsimp only
  rw [setMem_setMem, outside]
  rfl

theorem malloc_found (positive : 0 < numBytes) (opened : s.firstPage = .ok s₁)
    (found : s₁.search (int32 (numBytes + 2 * mallocHeaderSize)) 4294967296 s₁.heapStart = .ok (some a)) :
    s.malloc numBytes = s₁.take a (int32 (numBytes + 2 * mallocHeaderSize)) := by
  unfold Process.malloc
  rw [if_neg (by omega), opened, ok_bind, found]
  rfl

/-- A `dyn_mem` call that is made fails or serves. -/
theorem Opens.supplied (opens : s.Opens lo bs) (held : ¬ s.Refused numBytes bs) : s.Supplied numBytes := by
  intro _
  constructor
  · intro null failed
    exact held (.inl ⟨null, failed⟩)
  · cases opened : s.firstPage with
    | error e => trivial
    | ok s₁ =>
      intro searched failed
      obtain ⟨-, heap⟩ := opens.opened opened
      apply held
      refine .inr ⟨s₁, opened, ?_, failed⟩
      rcases heap.search_all (t := int32 (numBytes + 2 * mallocHeaderSize)) with ⟨pre, c, post, -, -, -, found⟩ | ⟨none, -⟩
      · have reached : s₁.Found numBytes := by
          unfold Found
          rw [found]
          exact rfl
        exact absurd reached searched
      · exact none

/-- The request is small enough when `malloc` does what it should. -/
theorem Measures.fits (measures : s.Measures numBytes) (opens : s.Opens lo bs) (positive : 0 < numBytes)
    (int : numBytes < 2147483648) : numBytes + 2 * mallocHeaderSize ≤ 2147483647 := by
  by_contra big
  have size := wrapped_size int (by omega)
  simp only [mallocHeaderSize] at big
  have low : -2147483648 ≤ int32 (numBytes + 2 * mallocHeaderSize) := by rw [size]; simp only [mallocHeaderSize]; omega
  have high : int32 (numBytes + 2 * mallocHeaderSize) < -2147483632 := by rw [size]; simp only [mallocHeaderSize]; omega
  have fails : s.malloc numBytes ≠ .error .pageFault := by
    intro faults
    rcases measures.1 with ⟨s', done⟩ | ⟨p, s', bs', c, done, -⟩ <;> rw [faults] at done <;> contradiction
  cases opened : s.firstPage with
  | error e =>
    apply fails
    apply opens.faults positive
    left
    cases opens with
    | heap heap =>
      have base := heapBase_pos.trans_le heap.base
      unfold Process.firstPage at opened
      rw [if_neg (by omega)] at opened
      contradiction
    | first null =>
      refine ⟨null, ?_⟩
      rcases s.dynMem_answers with failed | grants
      · exact failed
      · obtain ⟨s', done, -⟩ := firstPage_heap null grants
        rw [opened] at done
        contradiction
  | ok s₁ =>
    obtain ⟨-, heap⟩ := opens.opened opened
    rcases heap.search_all (t := int32 (numBytes + 2 * mallocHeaderSize)) with ⟨pre, c, post, rfl, -, -, found⟩ | ⟨-, none⟩
    · apply fails
      rw [malloc_found positive opened found]
      exact heap.take_wrapped (at_split _ c pre post) low high
    · have asked := measures.2 _ (.more positive opened none)
      have pages : morePages numBytes < 0 := by
        unfold morePages
        rw [int32_of_range (x := int32 (numBytes + 2 * mallocHeaderSize) + pageSize - 1) (by simp only [pageSize]; omega)
          (by simp only [pageSize]; omega), ← Int.neg_neg (_ - _), Int.neg_tdiv, Int.tdiv_eq_ediv_of_nonneg
          (by simp only [pageSize]; omega)]
        simp only [pageSize]
        omega
      omega

/-- The arithmetic of `malloc` is right exactly when the size with its tags is an `int`, as far
as the kernel has the pages. -/
theorem malloc_measures_iff (opens : s.Opens lo bs) (positive : 0 < numBytes) (int : numBytes < 2147483648) :
    s.Measures numBytes ↔ numBytes + 2 * mallocHeaderSize ≤ 2147483647 ∧ s.Supplied numBytes := by
  constructor
  · intro measures
    refine ⟨measures.fits opens positive int, opens.supplied fun refused => ?_⟩
    have faults := opens.faults positive refused
    rcases measures.1 with ⟨s', done⟩ | ⟨p, s', bs', c, done, -⟩ <;> rw [faults] at done <;> contradiction
  · rintro ⟨fits, supplied⟩
    lift numBytes to Nat using by omega
    obtain ⟨small, serves⟩ := opens.serves (by exact_mod_cast positive) fits supplied
    obtain ⟨p, s', bs', done, start, heap, -, ⟨c, stands, used, enough⟩, -⟩ :=
      opens.malloc (by exact_mod_cast positive) small serves
    refine ⟨.inr ⟨p, s', bs', c, done, heap, start ▸ stands, used, by exact_mod_cast enough⟩, ?_⟩
    rintro pages (⟨-, -⟩ | ⟨-, -, -⟩)
    · decide
    · rw [morePages_of_small (by exact_mod_cast small)]
      exact Int.natCast_nonneg _

/-- The first `malloc` of a process, and one in a heap in use. -/
theorem malloc_measures_first : (start true).Measures 100 ∧ worn.Measures 100 :=
  ⟨(malloc_measures_iff (.first rfl) (by decide) (by decide)).mpr ⟨by decide, by decide +kernel⟩,
    (malloc_measures_iff (.heap worn_heap) (by decide) (by decide)).mpr ⟨by decide, by decide +kernel⟩⟩

/-- The sum with the two tags wraps around in the first `malloc`. -/
theorem malloc_wraps : ¬ (start true).Measures 0x7FFFFFF8 := by
  rintro ⟨measured, -⟩
  have faults : ((start true).malloc 0x7FFFFFF8).isOk = false := by decide +kernel
  rcases measured with ⟨s', done⟩ | ⟨p, s', bs', c, done, -⟩ <;> rw [done] at faults <;> contradiction

end Process
end Zeos
