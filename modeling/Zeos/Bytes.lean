import Mathlib.Tactic.Ring
import Mathlib.Data.Int.Basic
import Mathlib.Logic.Function.Basic

/-! A memory of bytes with little-endian integers of four bytes. -/
namespace Bytes

abbrev Memory := Nat → UInt8

def byteOf (v : Int) (i : Nat) : UInt8 := .ofNat (v / 256 ^ i % 256).toNat

def load (m : Memory) (a : Nat) : Int :=
  Int.bmod ((m a).toNat + 256 * (m (a + 1)).toNat + 65536 * (m (a + 2)).toNat + 16777216 * (m (a + 3)).toNat) 4294967296

def store (m : Memory) (a : Nat) (v : Int) : Memory := fun x => if a ≤ x ∧ x < a + 4 then byteOf v (x - a) else m x

/-- The memories have the same bytes from `lo` up to `hi`. -/
def SameOn (m m' : Memory) (lo hi : Nat) : Prop := ∀ x, lo ≤ x → x < hi → m' x = m x

namespace SameOn

variable {m m' m'' : Memory} {lo hi : Nat}

theorem refl (m : Memory) (lo hi : Nat) : SameOn m m lo hi := fun _ _ _ => rfl

theorem trans (first : SameOn m m' lo hi) (second : SameOn m' m'' lo hi) : SameOn m m'' lo hi := fun x low high =>
  (second x low high).trans (first x low high)

theorem mono {lo' hi' : Nat} (same : SameOn m m' lo hi) (low : lo ≤ lo') (high : hi' ≤ hi) : SameOn m m' lo' hi' :=
  fun x above below => same x (low.trans above) (below.trans_le high)

end SameOn

variable {m m' : Memory} {a b : Nat} {v : Int}

theorem byteOf_toNat (v : Int) (i : Nat) : ((byteOf v i).toNat : Int) = v / 256 ^ i % 256 := by
  have low : 0 ≤ v / 256 ^ i % 256 := Int.emod_nonneg _ (by decide)
  have high : v / 256 ^ i % 256 < 256 := Int.emod_lt_of_pos _ (by decide)
  unfold byteOf
  generalize v / 256 ^ i % 256 = d at low high
  have small : d.toNat < 2 ^ 8 := by omega
  rw [UInt8.toNat_ofNat', Nat.mod_eq_of_lt small]
  omega

/-- A store leaves the bytes outside its four alone. -/
theorem store_other {x : Nat} (other : x < a ∨ a + 4 ≤ x) : store m a v x = m x := by
  unfold store
  rw [if_neg (by omega)]

theorem store_sameOn {lo hi : Nat} (apart : hi ≤ a ∨ a + 4 ≤ lo) : SameOn m (store m a v) lo hi := fun x low high =>
  store_other (by omega)

theorem load_congr (same : SameOn m m' a (a + 4)) : load m' a = load m a := by
  unfold load
  rw [same a (by omega) (by omega), same (a + 1) (by omega) (by omega), same (a + 2) (by omega) (by omega),
    same (a + 3) (by omega) (by omega)]

theorem load_store_other (apart : b + 4 ≤ a ∨ a + 4 ≤ b) : load (store m a v) b = load m b :=
  load_congr (store_sameOn (by omega))

/-- What is stored is read back. -/
theorem load_store (low : -2147483648 ≤ v) (high : v < 2147483648) : load (store m a v) a = v := by
  have byte (i : Nat) (small : i < 4) : ((store m a v (a + i)).toNat : Int) = v / 256 ^ i % 256 := by
    unfold store
    rw [if_pos (by omega), byteOf_toNat, Nat.add_sub_cancel_left]
  have b₀ := byte 0 (by decide)
  have b₁ := byte 1 (by decide)
  have b₂ := byte 2 (by decide)
  have b₃ := byte 3 (by decide)
  have digits : v % 4294967296 = v / 256 ^ 0 % 256 + 256 * (v / 256 ^ 1 % 256) + 65536 * (v / 256 ^ 2 % 256) +
      16777216 * (v / 256 ^ 3 % 256) := by
    norm_num
    omega
  unfold load
  rw [Nat.add_zero] at b₀
  rw [b₀, b₁, b₂, b₃, ← digits]
  show (v % (4294967296 : Nat)).bmod 4294967296 = v
  rw [Int.emod_bmod, Int.bmod_eq_of_le (by omega) (by omega)]

/-- A loaded word carries its four bytes. -/
theorem byteOf_load (m : Memory) (a : Nat) {i : Nat} (small : i < 4) : byteOf (load m a) i = m (a + i) := by
  have b₀ := (m a).toNat_lt
  have b₁ := (m (a + 1)).toNat_lt
  have b₂ := (m (a + 2)).toNat_lt
  have b₃ := (m (a + 3)).toNat_lt
  have word : load m a % 4294967296 = (m a).toNat + 256 * (m (a + 1)).toNat + 65536 * (m (a + 2)).toNat +
      16777216 * (m (a + 3)).toNat := by
    have same := Int.bmod_emod
      (x := (m a).toNat + 256 * (m (a + 1)).toNat + 65536 * (m (a + 2)).toNat + 16777216 * (m (a + 3)).toNat)
      (m := 4294967296)
    unfold load
    omega
  have digit := byteOf_toNat (load m a) i
  apply UInt8.toNat_inj.mp
  obtain rfl | rfl | rfl | rfl : i = 0 ∨ i = 1 ∨ i = 2 ∨ i = 3 := by omega
  · rw [Nat.add_zero]
    omega
  all_goals omega

/-- The `n` bytes from `start` on, moved to `dest` all at once. -/
def blit (m : Memory) (start dest n : Nat) : Memory := fun x =>
  if dest ≤ x ∧ x < dest + n then m (start + (x - dest)) else m x

theorem blit_inside {start dest n i : Nat} (inside : i < n) : blit m start dest n (dest + i) = m (start + i) := by
  unfold blit
  rw [if_pos (by omega), Nat.add_sub_cancel_left]

theorem blit_other {start dest n x : Nat} (other : x < dest ∨ dest + n ≤ x) : blit m start dest n x = m x :=
  if_neg (by omega)

@[simp] theorem blit_zero (m : Memory) (start dest : Nat) : blit m start dest 0 = m := by
  funext x
  exact blit_other (by omega)

/-- A part moved before the rest makes the whole move, as long as it does not land on
what the rest still has to read. -/
theorem blit_blit {start dest k n : Nat} (ahead : dest ≤ start ∨ start + (k + n) ≤ dest) :
    blit (blit m start dest k) (start + k) (dest + k) n = blit m start dest (k + n) := by
  funext x
  by_cases second : dest + k ≤ x ∧ x < dest + k + n
  · obtain ⟨i, rfl⟩ := Nat.exists_eq_add_of_le second.1
    have unread : start + k + i < dest ∨ dest + k ≤ start + k + i := by omega
    rw [blit_inside (by omega), blit_other unread, Nat.add_assoc, Nat.add_assoc, blit_inside (by omega)]
  · rw [blit_other (by omega)]
    by_cases first : dest ≤ x ∧ x < dest + k
    · obtain ⟨i, rfl⟩ := Nat.exists_eq_add_of_le first.1
      rw [blit_inside (by omega), blit_inside (by omega)]
    · rw [blit_other (by omega), blit_other (by omega)]

/-- A word that is loaded and stored moves four bytes. -/
theorem store_load (m : Memory) (start dest : Nat) : store m dest (load m start) = blit m start dest 4 := by
  funext x
  by_cases inside : dest ≤ x ∧ x < dest + 4
  · obtain ⟨i, rfl⟩ := Nat.exists_eq_add_of_le inside.1
    have small : i < 4 := by omega
    rw [blit_inside small, ← byteOf_load m start small]
    unfold store
    rw [if_pos inside, Nat.add_sub_cancel_left]
  · rw [store_other (by omega), blit_other (by omega)]

theorem update_eq_blit (m : Memory) (start dest : Nat) :
    Function.update m dest (m start) = blit m start dest 1 := by
  funext x
  by_cases here : x = dest
  · subst here
    rw [Function.update_self]
    exact (blit_inside (i := 0) (by decide)).symm
  · rw [Function.update_of_ne here, blit_other (by omega)]

/-- The `n` bytes at `start`. -/
def bytesAt (m : Memory) (start n : Nat) : List UInt8 := (List.range n).map fun i => m (start + i)

@[simp] theorem bytesAt_length (m : Memory) (start n : Nat) : (bytesAt m start n).length = n := by simp [bytesAt]

theorem bytesAt_succ (m : Memory) (start n : Nat) : bytesAt m start (n + 1) = m start :: bytesAt m (start + 1) n := by
  simp [bytesAt, List.range_succ_eq_map, Nat.add_right_comm, Nat.add_assoc]

theorem bytesAt_add (m : Memory) (start k n : Nat) :
    bytesAt m start (k + n) = bytesAt m start k ++ bytesAt m (start + k) n := by
  simp [bytesAt, List.range_add, Nat.add_assoc]

theorem bytesAt_congr {start dest n : Nat} (same : ∀ i < n, m' (dest + i) = m (start + i)) :
    bytesAt m' dest n = bytesAt m start n :=
  List.map_congr_left fun i inside => same i (List.mem_range.mp inside)

attribute [irreducible] load store

end Bytes
