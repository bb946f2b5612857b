import Mathlib.Data.List.Range
import Mathlib.Logic.Function.Basic

/-! The cells a circular array holds between a start index and a length. -/
namespace Window

variable {α : Type*}

/-- The `n` cells from `start` on, in an array of `cap` cells. -/
def read (cap : Nat) (cells : Nat → α) (start n : Nat) : List α :=
  (List.range n).map fun i => cells ((start + i) % cap)

theorem mod_ne_of_lt {cap start i n : Nat} (before : i < n) (bound : n < cap) :
    (start + i) % cap ≠ (start + n) % cap := by
  intro same
  have := Nat.sub_mod_eq_zero_of_mod_eq same.symm
  rw [show start + n - (start + i) = n - i by omega, Nat.mod_eq_of_lt (by omega)] at this
  omega

/-- Writing the cell behind the last one extends the window, as long as it does not
reach its own start. -/
theorem read_push {cap start n : Nat} (cells : Nat → α) (c : α) (bound : n < cap) :
    read cap (Function.update cells ((start + n) % cap) c) start (n + 1) =
      read cap cells start n ++ [c] := by
  simp only [read, List.range_succ, List.map_append, List.map_cons, List.map_nil,
    Function.update_self, List.append_cancel_right_eq]
  refine List.map_congr_left fun i mem => ?_
  rw [Function.update_of_ne (mod_ne_of_lt (List.mem_range.mp mem) bound)]

/-- The first cell leaves when the start moves on. -/
theorem read_pop (cap start n : Nat) (cells : Nat → α) :
    read cap cells start (n + 1) = cells (start % cap) :: read cap cells ((start + 1) % cap) n := by
  simp only [read, List.range_succ_eq_map, List.map_cons, List.map_map, Nat.add_zero, List.cons.injEq,
    true_and]
  refine List.map_congr_left fun i _ => ?_
  simp [Function.comp, Nat.add_assoc, Nat.add_comm 1 i]

end Window

/-- Pieces cut off a stream one behind the other, up to a place; what lies between two of
them is skipped. -/
inductive Pieces {α : Type*} (stream : List α) : List (List α) → Nat → Prop where
  | nil : Pieces stream [] 0
  | skip {pieces : List (List α)} {place later : Nat} : Pieces stream pieces place → place ≤ later →
      Pieces stream pieces later
  | cut {pieces : List (List α)} {place : Nat} {piece : List α} : Pieces stream pieces place →
      piece <+: stream.drop place → Pieces stream (pieces ++ [piece]) (place + piece.length)

namespace Pieces

variable {α : Type*} {stream : List α} {pieces : List (List α)} {place : Nat}

theorem extend (cuts : Pieces stream pieces place) (more : List α) : Pieces (stream ++ more) pieces place := by
  induction cuts with
  | nil => exact nil
  | skip _ further ih => exact ih.skip further
  | cut _ front ih =>
    apply ih.cut
    rw [List.drop_append]
    exact front.trans (List.prefix_append ..)

/-- Every piece has a place of its own in the stream. -/
theorem places (cuts : Pieces stream pieces place) : ∃ start : Nat → Nat,
    (∀ i piece, pieces[i]? = some piece → piece <+: stream.drop (start i) ∧ start i + piece.length ≤ place) ∧
    ∀ i j piece, i < j → j < pieces.length → pieces[i]? = some piece → start i + piece.length ≤ start j := by
  induction cuts with
  | nil => exact ⟨fun _ => 0, by simp, by simp⟩
  | skip _ further ih =>
    obtain ⟨start, each, order⟩ := ih
    exact ⟨start, fun i piece at_i => ⟨(each i piece at_i).1, (each i piece at_i).2.trans further⟩, order⟩
  | @cut pieces place piece _ front ih =>
    obtain ⟨start, each, order⟩ := ih
    refine ⟨Function.update start pieces.length place, fun i other at_i => ?_, fun i j other before inside at_i => ?_⟩
    · rcases Nat.lt_or_ge i pieces.length with below | above
      · rw [List.getElem?_append_left below] at at_i
        rw [Function.update_of_ne (by omega)]
        have := each i other at_i
        exact ⟨this.1, by omega⟩
      · have last : i = pieces.length := by
          have := (List.getElem?_eq_some_iff.mp at_i).1
          simp at this
          omega
        subst last
        simp at at_i
        subst at_i
        rw [Function.update_self]
        exact ⟨front, le_refl _⟩
    · rw [List.length_append, List.length_singleton] at inside
      rw [List.getElem?_append_left (by omega)] at at_i
      rw [Function.update_of_ne (by omega)]
      rcases Nat.lt_or_ge j pieces.length with below | above
      · rw [Function.update_of_ne (by omega)]
        exact order i j other before below at_i
      · have last : j = pieces.length := by omega
        subst last
        rw [Function.update_self]
        exact (each i other at_i).2

end Pieces
