import Zeos.Bytes
import Mathlib.Order.CompletePartialOrder
import Mathlib.Order.Interval.Set.Defs
import Mathlib.Order.Interval.Set.Disjoint

/-! The copies of `utils.c`: `copy_data`, `copy_from_user` and `copy_to_user` move words
while more than four bytes are left, then bytes. -/
namespace Zeos

open Bytes (Memory blit)

/-- `while (size > 4) { *q++ = *p++; size -= 4; }`, with the pointers and the size behind it. -/
def copyWords (m : Memory) (p q : Nat) (size : Int) : Memory × Nat × Nat × Int :=
  if 4 < size then copyWords (Bytes.store m q (Bytes.load m p)) (p + 4) (q + 4) (size - 4) else (m, p, q, size)
  termination_by size.toNat
  decreasing_by omega

/-- `while (size > 0) { *q1++ = *p1++; size--; }`. -/
def copyBytes (m : Memory) (p₁ q₁ : Nat) (size : Int) : Memory :=
  if 0 < size then copyBytes (Function.update m q₁ (m p₁)) (p₁ + 1) (q₁ + 1) (size - 1) else m
  termination_by size.toNat
  decreasing_by omega

/-- The body that the three copies share. -/
def copyBlock (m : Memory) (start dest : Nat) (size : Int) : Memory :=
  let (m, p, q, size) := copyWords m start dest size
  copyBytes m p q size

/-- `copy_data(start, dest, size)`. -/
def copyData (start dest : Nat) (size : Int) (m : Memory) : Memory := copyBlock m start dest size

/-- `copy_from_user(start, dest, size)`. -/
def copyFromUser (start dest : Nat) (size : Int) (m : Memory) : Int × Memory := (0, copyBlock m start dest size)

/-- `copy_to_user(start, dest, size)`. -/
def copyToUser (start dest : Nat) (size : Int) (m : Memory) : Int × Memory := (0, copyBlock m start dest size)

/-- In `m'` the `n` bytes at `dest` are those that `m` had at `start`; the others are as
in `m`. -/
structure Copied (start dest n : Nat) (m m' : Memory) : Prop where
  inside : ∀ i < n, m' (dest + i) = m (start + i)
  outside : ∀ x, x ∉ Set.Ico dest (dest + n) → m' x = m x

variable {m : Memory} {start dest : Nat}

/-- The bytes that the word loop has moved are a move of their own; the rest has yet to be read. -/
theorem copyWords_blit (n : Nat) : ∀ (m : Memory) (start dest : Nat), dest ≤ start ∨ start + n ≤ dest → ∃ k ≤ n,
    copyWords m start dest n = (blit m start dest k, start + k, dest + k, ((n - k : Nat) : Int)) := by
  induction n using Nat.strong_induction_on with
  | _ n ih =>
    intro m start dest ahead
    rw [copyWords]
    split
    · obtain ⟨r, rfl⟩ := Nat.exists_eq_add_of_le (show 4 ≤ n by omega)
      obtain ⟨k, inside, rest⟩ := ih r (by omega) (Bytes.store m dest (Bytes.load m start)) (start + 4)
        (dest + 4) (by omega)
      refine ⟨4 + k, by omega, ?_⟩
      have size : ((4 + r : Nat) : Int) - 4 = r := by omega
      have left : r - k = 4 + r - (4 + k) := by omega
      rw [size, rest, Bytes.store_load, Bytes.blit_blit (by omega), left, Nat.add_assoc, Nat.add_assoc]
    · exact ⟨0, by omega, by simp⟩

theorem copyBytes_blit (n : Nat) : ∀ {m start dest}, dest ≤ start ∨ start + n ≤ dest →
    copyBytes m start dest n = blit m start dest n := by
  induction n with
  | zero =>
    intro m start dest _
    rw [copyBytes, if_neg (by decide), Bytes.blit_zero]
  | succ n ih =>
    intro m start dest ahead
    have size : ((n + 1 : Nat) : Int) - 1 = n := by omega
    rw [copyBytes, if_pos (by omega), size, ih (by omega), Bytes.update_eq_blit, Bytes.blit_blit (by omega),
      Nat.add_comm]

/-- Where no byte is overwritten before it is read, the two loops move the block. -/
theorem copyBlock_blit {n : Nat} (ahead : dest ≤ start ∨ start + n ≤ dest) :
    copyBlock m start dest n = blit m start dest n := by
  obtain ⟨k, inside, words⟩ := copyWords_blit n m start dest ahead
  unfold copyBlock
  rw [words]
  show copyBytes (blit m start dest k) (start + k) (dest + k) ((n - k : Nat) : Int) = _
  rw [copyBytes_blit (n - k) (by omega), Bytes.blit_blit (by omega), Nat.add_sub_cancel' inside]

/-- A size below zero moves nothing, as a size of zero. -/
theorem copyBlock_of_nonpos {size : Int} (none : size ≤ 0) : copyBlock m start dest size = m := by
  unfold copyBlock
  rw [copyWords, if_neg (by omega)]
  show copyBytes m start dest size = m
  rw [copyBytes, if_neg (by omega)]

theorem blit_copied (n : Nat) : Copied start dest n m (blit m start dest n) where
  inside _ small := Bytes.blit_inside small
  outside x out := Bytes.blit_other (by rw [Set.mem_Ico] at out; omega)

theorem copyBlock_copied {n : Nat} (apart : Disjoint (Set.Ico start (start + n)) (Set.Ico dest (dest + n)) ∨ dest ≤ start) :
    Copied start dest n m (copyBlock m start dest n) := by
  rcases Nat.eq_zero_or_pos n with rfl | some
  · rw [copyBlock_of_nonpos (by decide)]
    have moved : Copied start dest 0 m (blit m start dest 0) := blit_copied 0
    simpa using moved
  · have ahead : dest ≤ start ∨ start + n ≤ dest := by
      rcases apart with apart | below
      · rw [Set.Ico_disjoint_Ico] at apart
        omega
      · exact .inl below
    rw [copyBlock_blit ahead]
    exact blit_copied n

/-- The copies move a block that is not overwritten from below while it is read, and
return 0. -/
theorem copies_move (m : Memory) (start dest : Nat) (size : Int) (nonneg : 0 ≤ size)
    (apart : Disjoint (Set.Ico start (start + size.toNat)) (Set.Ico dest (dest + size.toNat)) ∨ dest ≤ start) :
    Copied start dest size.toNat m (copyData start dest size m) ∧
      (∃ m', copyFromUser start dest size m = (0, m') ∧ Copied start dest size.toNat m m') ∧
      ∃ m', copyToUser start dest size m = (0, m') ∧ Copied start dest size.toNat m m' := by
  obtain ⟨n, rfl⟩ := Int.eq_ofNat_of_zero_le nonneg
  have moved := copyBlock_copied (m := m) apart
  exact ⟨moved, ⟨_, rfl, moved⟩, _, rfl, moved⟩

/-- Nine bytes moved down by two, over part of themselves. -/
theorem copies_move_down : Copied 3 1 9 (fun x => .ofNat x) (copyData 3 1 9 fun x => .ofNat x) :=
  (copies_move (fun x => .ofNat x) 3 1 9 (by decide) (.inr (by decide))).1

end Zeos
