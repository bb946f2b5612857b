import Mathlib.Data.List.Basic

/-! Computations that may fail: how they are taken apart, what their loops keep, and when
one of them agrees with another. -/
namespace Outcome

universe u v
variable {α β γ δ : Type u} {ε : Type v}

theorem bind_ok {x : Except ε α} {f : α → Except ε β} {b : β} :
    (x >>= f) = .ok b ↔ ∃ a, x = .ok a ∧ f a = .ok b := by
  cases x <;> simp [bind, Except.bind]

@[simp] theorem ok_bind (a : α) (f : α → Except ε β) : (Except.ok a >>= f) = f a := rfl

theorem mapError_ok {x : Except ε α} {ε' : Type v} {f : ε → ε'} {a : α} :
    x.mapError f = .ok a ↔ x = .ok a := by
  cases x <;> simp [Except.mapError]

/-- What every successful round of a loop keeps holds after the loop. -/
theorem foldlM_keeps {f : β → α → Except ε β} (property : β → Prop)
    {xs : List α} (round : ∀ x ∈ xs, ∀ b b', property b → f b x = .ok b' → property b') {b b' : β}
    (done : xs.foldlM f b = .ok b') (initial : property b) : property b' := by
  induction xs generalizing b with
  | nil => cases done; exact initial
  | cons x xs ih =>
    rw [List.foldlM_cons] at done
    obtain ⟨m, first, rest⟩ := bind_ok.mp done
    exact ih (fun y mem => round y (List.mem_cons_of_mem _ mem)) rest
      (round x (List.mem_cons_self ..) b m initial first)

/-- Every round of a loop that succeeds has succeeded. -/
theorem foldlM_round {f : β → α → Except ε β} {xs : List α} {b b' : β} (done : xs.foldlM f b = .ok b') {x : α}
    (mem : x ∈ xs) : ∃ c c', f c x = .ok c' := by
  induction xs generalizing b with
  | nil => contradiction
  | cons y xs ih =>
    rw [List.foldlM_cons] at done
    obtain ⟨m, first, rest⟩ := bind_ok.mp done
    rcases List.mem_cons.mp mem with rfl | later
    · exact ⟨b, m, first⟩
    · exact ih rest later

/-- The two fail alike, or end with related results. -/
def Agree (related : α → β → Prop) : Except ε α → Except ε β → Prop
  | .ok a, .ok b => related a b
  | .error e, .error e' => e = e'
  | _, _ => False

namespace Agree

variable {related : α → β → Prop} {related' : γ → δ → Prop}

theorem ok {a : α} {b : β} (h : related a b) : Agree related (Except.ok (ε := ε) a) (.ok b) := h

theorem error (e : ε) : Agree related (.error e) (.error e) := rfl

theorem mono_ok {x : Except ε α} {b : β} {weaker : α → δ → Prop} {d : δ}
    (agree : Agree related x (.ok b)) (h : ∀ a, related a b → weaker a d) : Agree weaker x (.ok d) := by
  cases x with
  | ok a => exact h a agree
  | error e => exact agree.elim

/-- The rest may use where the two results come from. -/
theorem bind_of {x : Except ε α} {y : Except ε β} {f : α → Except ε γ} {g : β → Except ε δ}
    (first : Agree related x y)
    (rest : ∀ a b, x = .ok a → y = .ok b → related a b → Agree related' (f a) (g b)) :
    Agree related' (x >>= f) (y >>= g) := by
  cases x <;> cases y
  case ok.ok => exact rest _ _ rfl rfl first
  case error.error => exact first
  all_goals exact first.elim

theorem bind_same {x : Except ε α} {f : α → Except ε γ} {g : α → Except ε δ}
    (rest : ∀ a, x = .ok a → Agree related' (f a) (g a)) : Agree related' (x >>= f) (x >>= g) := by
  cases x with
  | ok a => exact rest a rfl
  | error e => rfl

theorem bind_ok {x : Except ε α} {b : β} {f : α → Except ε γ} {y : Except ε δ}
    (first : Agree related x (.ok b)) (rest : ∀ a, related a b → Agree related' (f a) y) :
    Agree related' (x >>= f) y := by
  cases x with
  | ok a => exact rest a first
  | error e => exact first.elim

theorem of_yields {x : Except ε α} {b : β} (agree : Agree related x (.ok b)) :
    ∃ a, x = .ok a ∧ related a b := by
  cases x with
  | ok a => exact ⟨a, rfl, agree⟩
  | error e => exact agree.elim

theorem of_ok {x : Except ε α} {y : Except ε β} (agree : Agree related x y) {a : α} (h : x = .ok a) :
    ∃ b, y = .ok b ∧ related a b := by
  cases y with
  | ok b => exact ⟨b, rfl, by rwa [h] at agree⟩
  | error e => rw [h] at agree; exact agree.elim

theorem of_error {x : Except ε α} {y : Except ε β} (agree : Agree related x y) {e : ε} (h : x = .error e) :
    y = .error e := by
  cases y with
  | ok b => rw [h] at agree; exact agree.elim
  | error e' => rw [h] at agree; exact congrArg _ (Eq.symm agree)

end Agree

/-- If it fails, then with such a failure. -/
def Fails (expected : ε → Prop) (x : Except ε α) : Prop := ∀ e, x = .error e → expected e

namespace Fails

variable {expected : ε → Prop}

theorem ok (a : α) : Fails expected (.ok a) := fun _ h => nomatch h

theorem error {e : ε} (h : expected e) : Fails expected (Except.error (α := α) e) := fun _ same => by
  cases same; exact h

theorem mapError {ε' : Type v} {f : ε' → ε} (x : Except ε' α) (h : ∀ e, expected (f e)) :
    Fails expected (x.mapError f) := by
  cases x with
  | ok a => exact ok a
  | error e => exact error (h e)

theorem bind {x : Except ε α} {f : α → Except ε β} (first : Fails expected x)
    (rest : ∀ a, x = .ok a → Fails expected (f a)) : Fails expected (x >>= f) := by
  cases x with
  | ok a => exact rest a rfl
  | error e => exact fun e' same => first e' (by cases same; rfl)

/-- Only the first of two steps can fail otherwise. -/
theorem bind_iff {x : Except ε α} {f : α → Except ε β} (rest : ∀ a, Fails expected (f a)) :
    Fails expected (x >>= f) ↔ Fails expected x := by
  refine ⟨fun both e failed => both e ?_, fun first => bind first fun a _ => rest a⟩
  rw [failed]
  rfl

theorem foldlM {f : β → α → Except ε β} {xs : List α} (round : ∀ x ∈ xs, ∀ b, Fails expected (f b x)) (b : β) :
    Fails expected (xs.foldlM f b) := by
  induction xs generalizing b with
  | nil => exact ok b
  | cons x xs ih =>
    rw [List.foldlM_cons]
    exact bind (round x (List.mem_cons_self ..) b) fun b' _ => ih (fun y mem => round y (List.mem_cons_of_mem _ mem)) b'

theorem result {x : Except ε α} (never : Fails (fun _ => False) x) : ∃ a, x = .ok a := by
  cases x with
  | ok a => exact ⟨a, rfl⟩
  | error e => exact (never e rfl).elim

end Fails

/-- If it succeeds, then with such a result. -/
def Ensures (expected : α → Prop) : Except ε α → Prop
  | .ok a => expected a
  | .error _ => True

instance (expected : α → Prop) [DecidablePred expected] : (x : Except ε α) → Decidable (Ensures expected x)
  | .ok a => inferInstanceAs (Decidable (expected a))
  | .error _ => .isTrue trivial

theorem Ensures.of_ok {expected : α → Prop} {x : Except ε α} {a : α} (ensures : Ensures expected x) (h : x = .ok a) :
    expected a := by
  rw [h] at ensures
  exact ensures

end Outcome
