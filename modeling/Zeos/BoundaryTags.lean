import Mathlib.Data.List.Chain
import Mathlib.Tactic.Ring

/-! Blocks that lie one behind the other, each with a tag of its size and its mark at either
end. A tag is `w` addresses wide; `tag` reads one. -/
namespace BoundaryTags

structure Block where
  size : Nat
  mark : Int
  deriving DecidableEq, Repr

namespace Block

def Free (b : Block) : Prop := b.mark ≠ 0

instance (b : Block) : Decidable b.Free := inferInstanceAs (Decidable (_ ≠ _))

def tag (b : Block) : Int × Int := (b.size, b.mark)

end Block

def total (bs : List Block) : Nat := (bs.map Block.size).sum

@[simp] theorem total_nil : total [] = 0 := rfl
@[simp] theorem total_cons (b : Block) (bs : List Block) : total (b :: bs) = b.size + total bs := by simp [total]
@[simp] theorem total_append (as bs : List Block) : total (as ++ bs) = total as + total bs := by simp [total]

/-- The blocks fill the addresses from `lo` up to `hi`. -/
def Tiles (w : Nat) (tag : Nat → Int × Int) : Nat → List Block → Nat → Prop
  | lo, [], hi => lo = hi
  | lo, b :: bs, hi =>
    2 * w ≤ b.size ∧ tag lo = b.tag ∧ tag (lo + b.size - w) = b.tag ∧ Tiles w tag (lo + b.size) bs hi

instance decidableTiles (w : Nat) (tag : Nat → Int × Int) :
    (lo : Nat) → (bs : List Block) → (hi : Nat) → Decidable (Tiles w tag lo bs hi)
  | lo, [], hi => inferInstanceAs (Decidable (lo = hi))
  | lo, b :: bs, hi =>
    have := decidableTiles w tag (lo + b.size) bs hi
    inferInstanceAs (Decidable (_ ∧ _ ∧ _ ∧ _))

/-- The block stands at the address. -/
def At : Nat → List Block → Nat → Block → Prop
  | _, [], _, _ => False
  | lo, c :: cs, a, b => (a = lo ∧ b = c) ∨ At (lo + c.size) cs a b

/-- No two neighbours are free. -/
abbrev Apart (bs : List Block) : Prop := bs.IsChain fun a b => ¬ (a.Free ∧ b.Free)

variable {w : Nat} {tag tag' : Nat → Int × Int} {lo hi a a' : Nat} {b c : Block} {as bs cs : List Block}

theorem at_append : At lo (as ++ bs) a b ↔ At lo as a b ∨ At (lo + total as) bs a b := by
  induction as generalizing lo with
  | nil => simp [At]
  | cons c as ih => simp only [List.cons_append, At, ih, total_cons, Nat.add_assoc, or_assoc]

/-- A block lies inside the addresses that the list fills. -/
theorem At.bounds (stands : At lo bs a b) : lo ≤ a ∧ a + b.size ≤ lo + total bs := by
  induction bs generalizing lo with
  | nil => exact stands.elim
  | cons c bs ih =>
    rw [total_cons]
    rcases stands with ⟨rfl, rfl⟩ | stands
    · omega
    · have := ih stands
      omega

theorem At.mem (stands : At lo bs a b) : b ∈ bs := by
  induction bs generalizing lo with
  | nil => exact stands.elim
  | cons c bs ih =>
    rcases stands with ⟨-, rfl⟩ | stands
    · exact List.mem_cons_self
    · exact List.mem_cons_of_mem c (ih stands)

/-- Two blocks are the same or do not meet. -/
theorem At.disjoint (stands : At lo bs a b) (stands' : At lo bs a' c) :
    (a' = a ∧ c = b) ∨ a + b.size ≤ a' ∨ a' + c.size ≤ a := by
  induction bs generalizing lo with
  | nil => exact stands.elim
  | cons d bs ih =>
    rcases stands with ⟨rfl, rfl⟩ | stands <;> rcases stands' with ⟨rfl, rfl⟩ | stands'
    · exact .inl ⟨rfl, rfl⟩
    · exact .inr (.inl stands'.bounds.1)
    · exact .inr (.inr stands.bounds.1)
    · exact ih stands stands'

/-- The place of a block splits the list. -/
theorem At.split (stands : At lo bs a b) : ∃ before after, bs = before ++ b :: after ∧ a = lo + total before := by
  induction bs generalizing lo with
  | nil => exact stands.elim
  | cons c bs ih =>
    rcases stands with ⟨rfl, rfl⟩ | stands
    · exact ⟨[], bs, rfl, rfl⟩
    · obtain ⟨before, after, rfl, rfl⟩ := ih stands
      exact ⟨c :: before, after, rfl, by simp [Nat.add_assoc]⟩

theorem at_split (lo : Nat) (b : Block) (before after : List Block) : At lo (before ++ b :: after) (lo + total before) b :=
  at_append.mpr (.inr (.inl ⟨rfl, rfl⟩))

namespace Tiles

theorem hi_eq (tiles : Tiles w tag lo bs hi) : hi = lo + total bs := by
  induction bs generalizing lo with
  | nil => exact tiles.symm
  | cons b bs ih =>
    rw [ih tiles.2.2.2, total_cons]
    omega

theorem append : Tiles w tag lo (as ++ bs) hi ↔ Tiles w tag lo as (lo + total as) ∧ Tiles w tag (lo + total as) bs hi := by
  induction as generalizing lo with
  | nil => simp [Tiles]
  | cons b as ih => simp only [List.cons_append, Tiles, ih, total_cons, Nat.add_assoc, and_assoc]

/-- The tags of the blocks decide. -/
theorem congr (tiles : Tiles w tag lo bs hi) (same : ∀ x, lo ≤ x → x + w ≤ hi → tag' x = tag x) : Tiles w tag' lo bs hi := by
  have fills := tiles.hi_eq
  induction bs generalizing lo with
  | nil => exact tiles
  | cons b bs ih =>
    obtain ⟨size, head, foot, rest⟩ := tiles
    rw [total_cons] at fills
    refine ⟨size, ?_, ?_, ih rest (fun x low high => same x (by omega) high) (by omega)⟩
    · rw [same lo (by omega) (by omega), head]
    · rw [same (lo + b.size - w) (by omega) (by omega), foot]

/-- The tags determine the blocks: a list that goes further begins with the same ones. -/
theorem begins {mid : Nat} (wide : 0 < w) (tiles : Tiles w tag lo as mid) (tiles' : Tiles w tag lo cs hi) (le : mid ≤ hi) :
    ∃ rest, cs = as ++ rest ∧ Tiles w tag mid rest hi := by
  induction as generalizing lo cs with
  | nil =>
    cases tiles
    exact ⟨cs, rfl, tiles'⟩
  | cons b bs ih =>
    cases cs with
    | nil =>
      have fills := tiles.hi_eq
      rw [total_cons] at fills
      have size := tiles.1
      have here : lo = hi := tiles'
      omega
    | cons c cs =>
      have same : b.tag = c.tag := tiles.2.1.symm.trans tiles'.2.1
      obtain ⟨n, m⟩ := b
      obtain ⟨n', m'⟩ := c
      simp only [Block.tag, Prod.mk.injEq, Int.natCast_inj] at same
      obtain ⟨rfl, rfl⟩ := same
      obtain ⟨rest, rfl, more⟩ := ih tiles.2.2.2 tiles'.2.2.2
      exact ⟨rest, rfl, more⟩

/-- Blocks are replaced by others that fill the same addresses. -/
theorem replace {before mid mid' after : List Block} (tiles : Tiles w tag lo (before ++ (mid ++ after)) hi)
    (low : ∀ x, lo ≤ x → x + w ≤ lo + total before → tag' x = tag x)
    (high : ∀ x, lo + total before + total mid ≤ x → x + w ≤ hi → tag' x = tag x)
    (new : Tiles w tag' (lo + total before) mid' (lo + total before + total mid)) :
    Tiles w tag' lo (before ++ (mid' ++ after)) hi := by
  obtain ⟨first, rest⟩ := append.mp tiles
  obtain ⟨-, last⟩ := append.mp rest
  have fills := new.hi_eq
  refine append.mpr ⟨first.congr low, append.mpr ⟨?_, ?_⟩⟩
  · rwa [← fills]
  · rw [← fills]
    exact last.congr high

/-- There are at most as many blocks as tags fit. -/
theorem length_le (tiles : Tiles w tag lo bs hi) : 2 * w * bs.length ≤ total bs := by
  induction bs generalizing lo with
  | nil => simp
  | cons b bs ih =>
    have rest := ih tiles.2.2.2
    have size := tiles.1
    rw [List.length_cons, total_cons, Nat.mul_succ]
    omega

/-- A block with its tags. -/
theorem single (size : 2 * w ≤ b.size) (head : tag lo = b.tag) (foot : tag (lo + b.size - w) = b.tag) :
    Tiles w tag lo [b] (lo + b.size) := ⟨size, head, foot, rfl⟩

/-- The tags of a block. -/
theorem tags (tiles : Tiles w tag lo bs hi) (stands : At lo bs a b) :
    2 * w ≤ b.size ∧ tag a = b.tag ∧ tag (a + b.size - w) = b.tag := by
  induction bs generalizing lo with
  | nil => exact stands.elim
  | cons c bs ih =>
    obtain ⟨size, head, foot, rest⟩ := tiles
    rcases stands with ⟨rfl, rfl⟩ | stands
    · exact ⟨size, head, foot⟩
    · exact ih rest stands

end Tiles

/-- Blocks outside the replaced ones keep their place. -/
theorem At.replace {before mid mid' after : List Block} (stands : At lo (before ++ (mid ++ after)) a b)
    (same : total mid' = total mid) (other : ¬ At (lo + total before) mid a b) : At lo (before ++ (mid' ++ after)) a b := by
  rw [at_append, at_append] at stands ⊢
  rw [same]
  tauto

end BoundaryTags
