import Zeos.Heap

/-! `malloc` when the kernel has no pages. -/
namespace Zeos
open Bytes BoundaryTags

namespace Process

variable {s : Process} {a : Nat}

/-- `malloc` reports a failure and has changed nothing. -/
def Declines (s : Process) (numBytes : Int) : Prop :=
  ∃ s', s.malloc numBytes = .ok (ptr (-1), s') ∧ s'.mem = s.mem ∧ s'.heapStart = s.heapStart ∧ s'.heapEnd = s.heapEnd

/-- A `dyn_mem` call of `malloc` reports a failure: that for the first page, or that for more
pages when no block fits. -/
def Refused (s : Process) (numBytes : Int) (bs : List Block) : Prop :=
  (s.heapStart = 0 ∧ (s.dynMem 1).1 = ptr (-1)) ∨
  ∃ s₁, s.firstPage = .ok s₁ ∧ (∀ b ∈ bs, ¬ Fits (int32 (numBytes + 2 * mallocHeaderSize)) b) ∧
    (s₁.dynMem ((int32 (int32 (numBytes + 2 * mallocHeaderSize) + pageSize - 1)).tdiv pageSize)).1 = ptr (-1)

theorem ptr_neg_one : ptr (-1) = 4294967295 := by decide

/-- A failing `dyn_mem` leaves the break where it is. -/
theorem dynMem_failed {numPags : Int} (failed : (s.dynMem numPags).1 = ptr (-1)) :
    (s.dynMem numPags).2.brk = s.brk ∧ (s.dynMem numPags).2.heapEnd = s.heapEnd := by
  have small := s.fits.le
  rw [ptr_neg_one] at failed
  unfold Process.dynMem at failed ⊢
  split at failed <;> rename_i sign
  · rw [if_pos sign]
    split at failed <;> rename_i given
    · split at failed <;> rename_i fits
      · have le := fits.le
        unfold answer brk at failed
        simp only [pageSize] at *
        rw [if_pos (by omega)] at failed
        omega
      · simp only [fits, dif_neg, not_false_eq_true]
        exact ⟨rfl, trivial⟩
    · exact ⟨rfl, rfl⟩
  · rw [if_neg sign]
    split at failed <;> rename_i below
    · rw [if_pos below]
      exact ⟨rfl, rfl⟩
    · rw [if_neg below]
      refine ⟨?_, rfl⟩
      unfold answer at failed
      simp only [brk, pageSize] at *
      split at failed <;> omega

/-- A header in a page behind the break. -/
theorem writeHeaderFooter_behind (behind : s.brk < a + 4) (v w : Int) : s.writeHeaderFooter a v w = .error .pageFault := by
  unfold writeHeaderFooter storeInt access
  rw [if_neg (by omega), if_neg (by omega)]
  rfl

/-- The header of the first page goes to the pointer −1. -/
theorem firstPage_refused (null : s.heapStart = 0) (failed : (s.dynMem 1).1 = ptr (-1)) : s.firstPage = .error .pageFault := by
  obtain ⟨brk, -⟩ := dynMem_failed failed
  rcases result : s.dynMem 1 with ⟨newMem, s₁⟩
  rw [result] at failed brk
  dsimp only at failed brk
  subst newMem
  have small := s.brk_le
  rw [firstPage_eq null result, writeHeaderFooter_behind]
  show s₁.brk < ptr (-1) + 4
  rw [brk, ptr_neg_one]
  omega

theorem dynMem_answers : (s.dynMem 1).1 = ptr (-1) ∨ s.Grants 1 := by
  rcases given : s.grants 0 with none | fresh
  · left
    unfold Process.dynMem
    rw [if_pos (by decide), given]
  · by_cases fits : HeapFits (s.myHeap + 1)
    · exact .inr ⟨by rw [given]; rfl, fits⟩
    · left
      unfold Process.dynMem
      rw [if_pos (by decide), given]
      have fits : ¬ HeapFits (s.myHeap + (1 : Int).toNat) := fits
      simp only [fits, dif_neg, not_false_eq_true]

/-- The heap in which the walk begins, whatever the kernel does. -/
theorem Opens.opened {s₁ : Process} {lo : Nat} {bs : List Block} (opens : s.Opens lo bs) (done : s.firstPage = .ok s₁) :
    s₁.heapStart = lo ∧ s₁.Heap bs := by
  cases opens with
  | heap heap =>
    have base := heapBase_pos.trans_le heap.base
    unfold Process.firstPage at done
    rw [if_neg (by omega)] at done
    cases done
    exact ⟨rfl, heap⟩
  | first null =>
    rcases s.dynMem_answers with failed | grants
    · rw [firstPage_refused null failed] at done
      contradiction
    · obtain ⟨s', done', start, heap, -⟩ := firstPage_heap null grants
      rw [done] at done'
      cases done'
      exact ⟨start, heap⟩

theorem Opens.faults {numBytes : Int} {lo : Nat} {bs : List Block} (opens : s.Opens lo bs) (positive : 0 < numBytes)
    (refused : s.Refused numBytes bs) : s.malloc numBytes = .error .pageFault := by
  unfold Process.malloc
  rw [if_neg (by omega)]
  unfold Refused at refused
  generalize int32 (numBytes + 2 * mallocHeaderSize) = total at refused ⊢
  rcases refused with ⟨null, failed⟩ | ⟨s₁, done, none, failed⟩
  · rw [firstPage_refused null failed]
    rfl
  · obtain ⟨start, heap⟩ := opens.opened done
    rw [done, Outcome.ok_bind]
    rcases heap.search_all (t := total) with ⟨pre, b, post, same, -, fits, -⟩ | ⟨-, found⟩
    · exact absurd fits (none b (by simp [same]))
    rw [found, Outcome.ok_bind]
    obtain ⟨brk, stop⟩ := dynMem_failed failed
    generalize needed : (int32 (total + pageSize - 1)).tdiv pageSize = pages at failed brk stop
    rcases result : s₁.dynMem pages with ⟨newMem, s₂⟩
    rw [result] at failed brk stop
    dsimp only at failed brk stop
    show s₁.extend total = _
    rw [extend_eq needed result, writeHeaderFooter_behind]
    · rfl
    · show s₂.brk < s₂.heapEnd + 4
      have old := heap.brk
      omega

/-- `malloc` never reports that `dyn_mem` failed: it writes a header through the pointer −1, or
behind the break. -/
theorem malloc_refused {numBytes : Int} {lo : Nat} {bs : List Block} (opens : s.Opens lo bs) (positive : 0 < numBytes)
    (refused : s.Refused numBytes bs) : s.malloc numBytes = .error .pageFault ∧ ¬ s.Declines numBytes := by
  have faults := opens.faults positive refused
  refine ⟨faults, ?_⟩
  rintro ⟨s', same, -⟩
  rw [faults] at same
  contradiction

/-- The first `malloc` of a process finds no page. -/
theorem malloc_refused_first : (start false).malloc 100 = .error .pageFault ∧ ¬ (start false).Declines 100 :=
  malloc_refused (.first rfl) (by decide) (.inl ⟨rfl, rfl⟩)

/-- The same, computed. -/
theorem malloc_faults : (start false).heapStart = 0 ∧ ((start false).dynMem 1).1 = ptr (-1) ∧
    ¬ (start false).Declines 100 := by
  refine ⟨rfl, rfl, ?_⟩
  rintro ⟨s', same, -⟩
  have faults : ((start false).malloc 100).isOk = false := by decide
  rw [same] at faults
  contradiction

end Process
end Zeos
