import Mathlib.Data.List.Nodup
import Mathlib.Logic.Function.Basic

/-! Families of queues described by who stands in which queue. The description is a
relation of its own, so that it follows a queue operation without looking at the others. -/
namespace Placement

variable {ι α : Type*} [DecidableEq ι] [DecidableEq α]

/-- Exactly the elements that `home` puts there stand in a queue, each of them once. -/
structure Placed (queues : ι → List α) (home : ι → α → Prop) : Prop where
  nodup : ∀ i, (queues i).Nodup
  mem : ∀ i x, x ∈ queues i ↔ home i x

namespace Placed

variable {queues : ι → List α} {home other : ι → α → Prop} {i : ι} {x : α}

omit [DecidableEq ι] [DecidableEq α] in
theorem congr (placed : Placed queues home) (same : ∀ j y, home j y ↔ other j y) :
    Placed queues other :=
  ⟨placed.nodup, fun j y => (placed.mem j y).trans (same j y)⟩

omit [DecidableEq α] in
theorem append (placed : Placed queues home) (new : ¬ home i x) :
    Placed (Function.update queues i (queues i ++ [x])) fun j y => home j y ∨ (j = i ∧ y = x) := by
  refine ⟨fun j => ?_, fun j y => ?_⟩
  · by_cases here : j = i
    · subst here
      have absent : x ∉ queues j := fun mem => new ((placed.mem j x).mp mem)
      simp [List.nodup_append, placed.nodup]
      rintro y mem rfl
      exact absent mem
    · simp [here, placed.nodup]
  · by_cases here : j = i
    · subst here; simp [placed.mem]
    · simp [here, placed.mem]

theorem erase (placed : Placed queues home) (i : ι) (x : α) :
    Placed (Function.update queues i ((queues i).erase x)) fun j y => home j y ∧ ¬ (j = i ∧ y = x) := by
  refine ⟨fun j => ?_, fun j y => ?_⟩
  · by_cases here : j = i
    · subst here; simpa using (placed.nodup j).erase x
    · simp [here, placed.nodup]
  · by_cases here : j = i
    · subst here; simp [(placed.nodup j).mem_erase_iff, placed.mem, and_comm]
    · simp [here, placed.mem]

omit [DecidableEq α] in
theorem clear (placed : Placed queues home) (i : ι) :
    Placed (Function.update queues i []) fun j y => home j y ∧ j ≠ i := by
  refine ⟨fun j => ?_, fun j y => ?_⟩
  · by_cases here : j = i
    · subst here; simp
    · simp [here, placed.nodup]
  · by_cases here : j = i
    · subst here; simp
    · simp [here, placed.mem]

end Placed
end Placement
