import Mathlib.Logic.Function.Basic

/-! Words of 32 bits in a memory of bytes, lowest byte first. Addresses wrap, so that a region
is told by the distance from where it begins. -/
namespace Words

abbrev Word32 := BitVec 32
abbrev Memory := Word32 → BitVec 8

variable {m m' m'' : Memory} {a b v : Word32} {n k : Nat} {ws vs : List Word32}

def load (m : Memory) (a : Word32) : Word32 := m (a + 3) ++ m (a + 2) ++ m (a + 1) ++ m a

def store (m : Memory) (a v : Word32) : Memory := fun x =>
  if (x - a).toNat < 4 then v.extractLsb' (8 * (x - a).toNat) 8 else m x

/-- The `n` bytes from `a` on are the same. -/
def Same (a : Word32) (n : Nat) (m m' : Memory) : Prop := ∀ x : Word32, (x - a).toNat < n → m' x = m x

/-- The `n` bytes from `a` on and the `k` bytes from `b` on have none in common. -/
def Apart (a : Word32) (n : Nat) (b : Word32) (k : Nat) : Prop := n ≤ (b - a).toNat ∧ k ≤ (a - b).toNat

instance (a : Word32) (n : Nat) (b : Word32) (k : Nat) : Decidable (Apart a n b k) := inferInstanceAs (Decidable (_ ∧ _))

theorem Apart.symm (apart : Apart a n b k) : Apart b k a n := ⟨apart.2, apart.1⟩

/-- A part of a region is as far from the other one. -/
theorem Apart.part (apart : Apart a n b k) {i j : Nat} (inside : i + j ≤ n) (some : 0 < j) :
    Apart (a + BitVec.ofNat 32 i) j b k := by
  obtain ⟨first, second⟩ := apart
  have bound := (b - a).isLt
  constructor <;> bv_omega

theorem Apart.shrink (apart : Apart a n b k) {c : Word32} {i j : Nat} (place : c = b + BitVec.ofNat 32 i) (inside : i + j ≤ k)
    (some : 0 < j) : Apart a n c j := by
  subst place
  exact (apart.symm.part inside some).symm

theorem load_store (m : Memory) (a v : Word32) : load (store m a v) a = v := by
  have offset (i : Word32) : a + i - a = i := by bv_omega
  have here : a - a = 0 := BitVec.sub_self a
  have joined : v.extractLsb' 24 8 ++ v.extractLsb' 16 8 ++ v.extractLsb' 8 8 ++ v.extractLsb' 0 8 = v := by
    have first : v.extractLsb' 24 8 ++ v.extractLsb' 16 8 = v.extractLsb' 16 16 :=
      BitVec.extractLsb'_append_extractLsb'_eq_extractLsb' rfl
    have second : v.extractLsb' 16 16 ++ v.extractLsb' 8 8 = v.extractLsb' 8 24 :=
      BitVec.extractLsb'_append_extractLsb'_eq_extractLsb' rfl
    have third : v.extractLsb' 8 24 ++ v.extractLsb' 0 8 = v.extractLsb' 0 32 :=
      BitVec.extractLsb'_append_extractLsb'_eq_extractLsb' rfl
    rw [first, second, third]
    exact BitVec.extractLsb'_eq_self
  unfold load store
  simp only [offset, here]
  exact joined

theorem Same.refl (a : Word32) (n : Nat) (m : Memory) : Same a n m m := fun _ _ => rfl

theorem Same.trans (first : Same a n m m') (second : Same a n m' m'') : Same a n m m'' :=
  fun x inside => (second x inside).trans (first x inside)

theorem Same.part (same : Same a n m m') {i j : Nat} (inside : i + j ≤ n) : Same (a + BitVec.ofNat 32 i) j m m' := by
  intro x near
  apply same
  bv_omega

theorem Same.load (same : Same a n m m') (whole : 4 ≤ n) : load m' a = load m a := by
  have byte (i : Word32) (small : i.toNat < 4) : m' (a + i) = m (a + i) := by
    apply same
    have offset : a + i - a = i := by bv_omega
    rw [offset]
    omega
  have first : m' a = m a := by simpa using byte 0#32 (by decide)
  unfold Words.load
  rw [byte 1 (by decide), byte 2 (by decide), byte 3 (by decide), first]

theorem store_same (m : Memory) (v : Word32) (apart : Apart a n b 4) : Same a n m (store m b v) := by
  obtain ⟨first, second⟩ := apart
  intro x near
  apply if_neg
  bv_omega

theorem store_congr (same : Same a n m m') (b v : Word32) : Same a n (store m b v) (store m' b v) := by
  intro x near
  unfold store
  split
  · rfl
  · exact same x near

/-- Words are stored one behind the other. -/
def stores (m : Memory) (a : Word32) : List Word32 → Memory
  | [] => m
  | w :: ws => store (stores m (a + 4) ws) a w

/-- The words that stand one behind the other from an address on. -/
def Stored (m : Memory) : Word32 → List Word32 → Prop
  | _, [] => True
  | a, w :: ws => load m a = w ∧ Stored m (a + 4) ws

instance decidableStored (m : Memory) : (a : Word32) → (ws : List Word32) → Decidable (Stored m a ws)
  | _, [] => .isTrue trivial
  | a, _ :: ws =>
    have := decidableStored m (a + 4) ws
    inferInstanceAs (Decidable (_ ∧ _))

namespace Stored

theorem same (holds : Stored m a ws) (same : Same a (4 * ws.length) m m') : Stored m' a ws := by
  induction ws generalizing a with
  | nil => trivial
  | cons w ws ih =>
    obtain ⟨here, behind⟩ := holds
    rw [List.length_cons] at same
    exact ⟨(same.load (by omega)).trans here, ih behind (same.part (i := 4) (by omega))⟩

theorem append : Stored m a (vs ++ ws) ↔ Stored m a vs ∧ Stored m (a + BitVec.ofNat 32 (4 * vs.length)) ws := by
  induction vs generalizing a with
  | nil => simp [Stored]
  | cons v vs ih =>
    have further : a + 4 + BitVec.ofNat 32 (4 * vs.length) = a + BitVec.ofNat 32 (4 * (v :: vs).length) := by
      rw [List.length_cons]
      bv_omega
    simp only [List.cons_append, Stored, ih, further, and_assoc]

theorem drop (holds : Stored m a ws) {i : Nat} (inside : i ≤ ws.length) : Stored m (a + BitVec.ofNat 32 (4 * i)) (ws.drop i) := by
  have := (append.mp ((List.take_append_drop i ws).symm ▸ holds)).2
  rwa [List.length_take, Nat.min_eq_left inside] at this

theorem unique (first : Stored m a vs) (second : Stored m a ws) (length : vs.length = ws.length) : vs = ws := by
  induction vs generalizing a ws with
  | nil => exact (List.length_eq_zero_iff.mp length.symm).symm
  | cons v vs ih =>
    cases ws with
    | nil => contradiction
    | cons w ws =>
      rw [List.length_cons, List.length_cons, Nat.add_right_cancel_iff] at length
      rw [first.1.symm.trans second.1, ih first.2 second.2 length]

/-- The words have been copied. -/
theorem moved (holds : Stored m a ws)
    (copied : ∀ j : Nat, j < 4 * ws.length → m' (b + BitVec.ofNat 32 j) = m (a + BitVec.ofNat 32 j)) : Stored m' b ws := by
  induction ws generalizing a b with
  | nil => trivial
  | cons w ws ih =>
    rw [List.length_cons] at copied
    have zero := copied 0 (by omega)
    have one := copied 1 (by omega)
    have two := copied 2 (by omega)
    have three := copied 3 (by omega)
    rw [BitVec.add_zero, BitVec.add_zero] at zero
    obtain ⟨here, behind⟩ := holds
    refine ⟨?_, ih behind fun j inside => ?_⟩
    · rw [← here]
      unfold load
      rw [zero]
      exact congrArg₂ _ (congrArg₂ _ (congrArg₂ _ three two) one) rfl
    · have further (x : Word32) : x + 4 + BitVec.ofNat 32 j = x + BitVec.ofNat 32 (j + 4) := by bv_omega
      rw [further, further]
      exact copied (j + 4) (by omega)

/-- A word in front of those that stand there. -/
theorem cons (holds : Stored m a ws) (v : Word32) (room : 4 * ws.length + 4 ≤ 4294967296) :
    Stored (store m (a - 4) v) (a - 4) (v :: ws) := by
  have back : a - 4 + 4 = a := BitVec.sub_add_cancel a 4
  refine ⟨load_store .., ?_⟩
  rw [back]
  apply holds.same
  apply store_same
  have bound := a.isLt
  constructor <;> bv_omega

theorem word (holds : Stored m a ws) {i : Nat} (inside : i < ws.length) :
    load m (a + BitVec.ofNat 32 (4 * i)) = ws[i] := by
  induction ws generalizing a i with
  | nil => contradiction
  | cons w ws ih =>
    cases i with
    | zero => simpa using holds.1
    | succ i =>
      rw [List.length_cons] at inside
      have further : a + BitVec.ofNat 32 (4 * (i + 1)) = a + 4 + BitVec.ofNat 32 (4 * i) := by bv_omega
      rw [further]
      exact ih holds.2 (by omega)

/-- One of the words is replaced. -/
theorem set (holds : Stored m a ws) {i : Nat} (inside : i < ws.length) (room : 4 * ws.length ≤ 4294967296) (v : Word32) :
    Stored (store m (a + BitVec.ofNat 32 (4 * i)) v) a (ws.set i v) := by
  induction ws generalizing a i with
  | nil => contradiction
  | cons w ws ih =>
    rw [List.length_cons] at inside room
    cases i with
    | zero =>
      have here : a + BitVec.ofNat 32 (4 * 0) = a := by simp
      have back : a + 4 - 4 = a := BitVec.add_sub_cancel a 4
      rw [here]
      have := holds.2.cons v (by omega)
      rwa [back] at this
    | succ i =>
      have further : a + BitVec.ofNat 32 (4 * (i + 1)) = a + 4 + BitVec.ofNat 32 (4 * i) := by bv_omega
      have kept : Same a 4 m (store m (a + BitVec.ofNat 32 (4 * (i + 1))) v) := by
        apply store_same
        constructor <;> bv_omega
      refine ⟨(kept.load (by omega)).trans holds.1, ?_⟩
      rw [further]
      exact ih holds.2 (by omega) (by omega)

end Stored
theorem stores_same (m : Memory) (ws : List Word32) (apart : Apart a n b (4 * ws.length)) : Same a n m (stores m b ws) := by
  induction ws generalizing b with
  | nil => exact Same.refl a n m
  | cons w ws ih =>
    rw [List.length_cons] at apart
    refine Same.trans ?_ (store_same _ w (apart.shrink (i := 0) (by simp) (by omega) (by omega)))
    cases ws with
    | nil => exact Same.refl a n m
    | cons v ws =>
      rw [List.length_cons] at apart
      exact ih (apart.shrink (i := 4) rfl (by rw [List.length_cons]; omega) (by rw [List.length_cons]; omega))

theorem stores_holds (m : Memory) (a : Word32) (ws : List Word32) (room : 4 * ws.length ≤ 4294967296) :
    Stored (stores m a ws) a ws := by
  induction ws generalizing a with
  | nil => trivial
  | cons w ws ih =>
    rw [List.length_cons] at room
    have back : a + 4 - 4 = a := BitVec.add_sub_cancel a 4
    have := (ih (a + 4) (by omega)).cons w (by omega)
    rwa [back] at this

end Words
