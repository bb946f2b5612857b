import Mathlib.Data.List.Nodup

/-! Slots that hold resources, a mark on the resources that are taken, and the resources
in hand, taken but not yet in a slot. -/

/-- What each slot holds, and which resources are marked. -/
structure Ledger (σ ρ : Type*) where
  holds : σ → Option ρ
  taken : ρ → Prop

namespace Ledger

variable {σ ρ : Type*} {L L' : Ledger σ ρ} {hand : List ρ} {s : σ} {x : ρ}

/-- A resource is marked exactly when it is in a slot or in hand, and it is there once. -/
structure Balanced (L : Ledger σ ρ) (hand : List ρ) : Prop where
  nodup : hand.Nodup
  once : ∀ s s' x, L.holds s = some x → L.holds s' = some x → s = s'
  apart : ∀ s x, L.holds s = some x → x ∉ hand
  taken : ∀ x, L.taken x ↔ (∃ s, L.holds s = some x) ∨ x ∈ hand

namespace Balanced

theorem congr (balanced : L.Balanced hand) (holds : ∀ s, L'.holds s = L.holds s)
    (taken : ∀ x, L'.taken x ↔ L.taken x) : L'.Balanced hand where
  nodup := balanced.nodup
  once s s' x := by simpa only [holds] using balanced.once s s' x
  apart s x := by simpa only [holds] using balanced.apart s x
  taken x := by simpa only [holds, taken] using balanced.taken x

/-- An unmarked resource is neither in a slot nor in hand. -/
theorem absent (balanced : L.Balanced hand) (free : ¬ L.taken x) :
    (∀ s, L.holds s ≠ some x) ∧ x ∉ hand := by
  rw [balanced.taken] at free
  exact ⟨fun s held => free (.inl ⟨s, held⟩), fun mem => free (.inr mem)⟩

theorem marked (balanced : L.Balanced hand) (held : L.holds s = some x) : L.taken x :=
  (balanced.taken x).mpr (.inl ⟨s, held⟩)

/-- A free resource is taken in hand. -/
theorem take (balanced : L.Balanced hand) (free : ¬ L.taken x) (holds : ∀ s, L'.holds s = L.holds s)
    (taken : ∀ y, L'.taken y ↔ L.taken y ∨ y = x) : L'.Balanced (hand ++ [x]) := by
  obtain ⟨unheld, unhanded⟩ := balanced.absent free
  refine ⟨?_, fun s s' y => ?_, fun s y held => ?_, fun y => ?_⟩
  · have other (y : ρ) (mem : y ∈ hand) : y ≠ x := fun same => unhanded (same ▸ mem)
    simpa [List.nodup_append, balanced.nodup] using other
  · simpa only [holds] using balanced.once s s' y
  · rw [holds] at held
    have other : y ≠ x := fun same => unheld s (same ▸ held)
    simp [other, balanced.apart s y held]
  · simp only [taken, balanced.taken, holds, List.mem_append, List.mem_singleton, or_assoc]

/-- A resource in hand is given back. -/
theorem drop (balanced : L.Balanced (x :: hand)) (holds : ∀ s, L'.holds s = L.holds s)
    (taken : ∀ y, L'.taken y ↔ L.taken y ∧ y ≠ x) : L'.Balanced hand := by
  obtain ⟨unhanded, nodup⟩ := List.nodup_cons.mp balanced.nodup
  refine ⟨nodup, fun s s' y => ?_, fun s y held mem => ?_, fun y => ?_⟩
  · simpa only [holds] using balanced.once s s' y
  · rw [holds] at held
    exact balanced.apart s y held (List.mem_cons_of_mem _ mem)
  · simp only [taken, balanced.taken, holds, List.mem_cons]
    constructor
    · rintro ⟨held | same | mem, other⟩
      · exact .inl held
      · exact absurd same other
      · exact .inr mem
    · rintro (⟨s, held⟩ | mem)
      · exact ⟨.inl ⟨s, held⟩, fun same => balanced.apart s y held (by simp [same])⟩
      · exact ⟨.inr (.inr mem), fun same => unhanded (same ▸ mem)⟩

/-- All that is in hand is put into empty slots. -/
theorem fill (balanced : L.Balanced hand) (fresh : σ → Option ρ)
    (empty : ∀ s, (fresh s).isSome → L.holds s = none)
    (once : ∀ s s' x, fresh s = some x → fresh s' = some x → s = s')
    (all : ∀ x, x ∈ hand ↔ ∃ s, fresh s = some x)
    (holds : ∀ s, L'.holds s = (fresh s).or (L.holds s)) (taken : ∀ x, L'.taken x ↔ L.taken x) :
    L'.Balanced [] := by
  have cases (s : σ) (x : ρ) : L'.holds s = some x ↔ fresh s = some x ∨ L.holds s = some x := by
    rw [holds]
    cases new : fresh s with
    | none => simp
    | some y => simp [empty s (by simp [new])]
  refine ⟨List.nodup_nil, fun s s' x held held' => ?_, fun _ _ _ => List.not_mem_nil, fun x => ?_⟩
  · have crossed {s s' : σ} (new : fresh s = some x) (old : L.holds s' = some x) : False :=
      balanced.apart s' x old ((all x).mpr ⟨s, new⟩)
    rcases (cases s x).mp held with new | old <;> rcases (cases s' x).mp held' with new' | old'
    · exact once s s' x new new'
    · exact (crossed new old').elim
    · exact (crossed new' old).elim
    · exact balanced.once s s' x old old'
  · simp only [taken, balanced.taken, cases, all, exists_or, List.not_mem_nil, or_false]
    exact or_comm

/-- One resource is put into an empty slot. -/
theorem place [DecidableEq σ] (balanced : L.Balanced [x]) (empty : L.holds s = none)
    (holds : ∀ u, L'.holds u = if u = s then some x else L.holds u) (taken : ∀ y, L'.taken y ↔ L.taken y) :
    L'.Balanced [] := by
  refine balanced.fill (fun u => if u = s then some x else none) (fun u new => ?_) (fun u u' y new new' => ?_)
    (fun y => ?_) (fun u => ?_) taken
  · have same : u = s := by by_contra other; simp [other] at new
    rw [same, empty]
  · have same : u = s := by by_contra other; simp [other] at new
    have same' : u' = s := by by_contra other; simp [other] at new'
    rw [same, same']
  · simp [eq_comm]
  · rw [holds]
    split <;> simp

/-- A slot is emptied and its resource given back. -/
theorem release [DecidableEq σ] (balanced : L.Balanced hand) (full : L.holds s = some x)
    (holds : ∀ u, L'.holds u = if u = s then none else L.holds u)
    (taken : ∀ y, L'.taken y ↔ L.taken y ∧ y ≠ x) : L'.Balanced hand := by
  have held (u : σ) (y : ρ) : L'.holds u = some y ↔ L.holds u = some y ∧ y ≠ x := by
    rw [holds]
    split
    · rename_i same
      simp [same, full, eq_comm]
    · rename_i other
      exact ⟨fun here => ⟨here, fun same => other (balanced.once u s x (same ▸ here) full)⟩, And.left⟩
  refine ⟨balanced.nodup, fun u u' y here here' => ?_, fun u y here => ?_, fun y => ?_⟩
  · exact balanced.once u u' y ((held u y).mp here).1 ((held u' y).mp here').1
  · exact balanced.apart u y ((held u y).mp here).1
  · simp only [taken, balanced.taken, held]
    constructor
    · rintro ⟨⟨u, here⟩ | mem, other⟩
      · exact .inl ⟨u, here, other⟩
      · exact .inr mem
    · rintro (⟨u, here, other⟩ | mem)
      · exact ⟨.inl ⟨u, here⟩, other⟩
      · exact ⟨.inr mem, fun same => balanced.apart s x full (same ▸ mem)⟩

end Balanced
end Ledger
