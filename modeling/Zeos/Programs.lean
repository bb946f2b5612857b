import Mathlib.Data.List.Basic

/-! Programs as trees of operations. An operation asks its surroundings for an answer, and the
rest of the program depends on it; what the operations do is said apart, by a handler that
answers each of them or by rules that only bound the answers. -/
namespace Programs

variable {ι : Type} {ρ : ι → Type} {α β : Type} {σ : Type}

/-- A program over the operations `ι`, of which `i` answers a value of `ρ i`. -/
inductive Prog (ρ : ι → Type) (α : Type) where
  | pure (a : α)
  | op (i : ι) (k : ρ i → Prog ρ α)

/-- What every operation does to the state, and what it answers. -/
abbrev Handler (ρ : ι → Type) (σ : Type) := (i : ι) → σ → ρ i × σ

/-- A program that was run: its operations, each with the state it was performed in, the value
it ended with and the state it left. -/
structure Ran (ι σ α : Type) where
  events : List (ι × σ)
  value : α
  state : σ

/-- Where an operation may be performed, and what it may answer and leave there. -/
structure Rules (ρ : ι → Type) (σ : Type) where
  allowed : ι → σ → Prop
  answers : (i : ι) → σ → ρ i → σ → Prop

/-- The rules that a handler follows to the letter. -/
def Handler.rules (h : Handler ρ σ) (allowed : ι → σ → Prop) : Rules ρ σ :=
  ⟨allowed, fun i s r s' => (r, s') = h i s⟩

namespace Prog

def bind : Prog ρ α → (α → Prog ρ β) → Prog ρ β
  | .pure a, f => f a
  | .op i k, f => .op i fun r => (k r).bind f

instance : Monad (Prog ρ) where
  pure := .pure
  bind := .bind

/-- The program of one operation. -/
def perform (i : ι) : Prog ρ (ρ i) := .op i .pure

/-- `n` turns of a loop that counts upwards from `i`. -/
def loop (body : Int → Prog ρ Unit) : Nat → Int → Prog ρ Unit
  | 0, _ => .pure ()
  | n + 1, i => (body i).bind fun _ => loop body n (i + 1)

/-- The same loop, left at the first turn that returns something. -/
def search (body : Int → Prog ρ (Option β)) : Nat → Int → Prog ρ (Option β)
  | 0, _ => .pure none
  | n + 1, i => (body i).bind fun
    | some b => .pure (some b)
    | none => search body n (i + 1)

def run (h : Handler ρ σ) : Prog ρ α → σ → Ran ι σ α
  | .pure a, s => ⟨[], a, s⟩
  | .op i k, s =>
    let rest := (k (h i s).1).run h (h i s).2
    { rest with events := (i, s) :: rest.events }

/-- Runs a program up to the first operation that is a call. -/
def drain (calls : ι → Bool) (h : Handler ρ σ) : Prog ρ α → σ → Ran ι σ (Prog ρ α)
  | .pure a, s => ⟨[], .pure a, s⟩
  | .op i k, s =>
    if calls i then ⟨[], .op i k, s⟩
    else
      let rest := (k (h i s).1).drain calls h (h i s).2
      { rest with events := (i, s) :: rest.events }

/-- Every operation is performed where the rules allow it, and whatever they let it answer the
program ends with `Q`. -/
def wp (R : Rules ρ σ) : Prog ρ α → (α → σ → Prop) → σ → Prop
  | .pure a, Q, s => Q a s
  | .op i k, Q, s => R.allowed i s ∧ ∀ r s', R.answers i s r s' → (k r).wp R Q s'

/-- No operation outside `P` is in the program. -/
def All (P : ι → Prop) : Prog ρ α → Prop
  | .pure _ => True
  | .op i k => P i ∧ ∀ r, (k r).All P

section Rules

variable {R : Rules ρ σ} {Q Q' : α → σ → Prop} {s : σ} {p : Prog ρ α}

@[simp] theorem wp_pure (a : α) : wp R (Pure.pure a : Prog ρ α) Q s ↔ Q a s := Iff.rfl

@[simp] theorem wp_perform (h : Handler ρ σ) (allowed : ι → σ → Prop) (i : ι) (Q : ρ i → σ → Prop) :
    wp (h.rules allowed) (perform i) Q s ↔ allowed i s ∧ Q (h i s).1 (h i s).2 := by
  constructor
  · intro holds
    exact ⟨holds.1, holds.2 _ _ rfl⟩
  · rintro ⟨here, after⟩
    refine ⟨here, ?_⟩
    intro r s' answered
    change (r, s') = h i s at answered
    rw [← answered] at after
    exact after

@[simp] theorem wp_bind (p : Prog ρ α) (f : α → Prog ρ β) (Q : β → σ → Prop) :
    wp R (p >>= f) Q s ↔ wp R p (fun a s' => wp R (f a) Q s') s := by
  induction p generalizing s with
  | pure a => exact Iff.rfl
  | op i k ih =>
    have rest : ∀ r s', wp R ((k r).bind f) Q s' ↔ wp R (k r) (fun a t => wp R (f a) Q t) s' :=
      fun r s' => ih r
    simp only [Bind.bind, Prog.bind, wp, rest]

@[simp] theorem wp_ite (c : Prop) [Decidable c] (p q : Prog ρ α) :
    wp R (if c then p else q) Q s ↔ if c then wp R p Q s else wp R q Q s := by
  split <;> rfl

theorem wp_mono (weaker : ∀ a s', Q a s' → Q' a s') (holds : wp R p Q s) : wp R p Q' s := by
  induction p generalizing s with
  | pure a => exact weaker a s holds
  | op i k ih =>
    refine ⟨holds.1, ?_⟩
    intro r s' answered
    exact ih r (holds.2 r s' answered)

/-- A loop keeps what each of its turns passes on to the next. -/
theorem wp_loop {p : Int → Prog ρ Unit} {n : Nat} {a : Int} (I : Int → σ → Prop)
    (turn : ∀ i s, a ≤ i → i < a + n → I i s → wp R (p i) (fun _ => I (i + 1)) s)
    (start : I a s) : wp R (loop p n a) (fun _ => I (a + n)) s := by
  induction n generalizing a s with
  | zero => simpa [loop, wp] using start
  | succ n ih =>
    apply (wp_bind _ _ _).mpr
    apply wp_mono _ (turn a s (by omega) (by omega) start)
    intro _ s' next
    have last : a + 1 + (n : Int) = a + (n + 1 : Nat) := by omega
    rw [← last]
    apply ih _ next
    intro i t low high
    exact turn i t (by omega) (by omega)

/-- A search that ends without a result has made all its turns. -/
theorem wp_search {body : Int → Prog ρ (Option β)} {n : Nat} {a : Int} (I : Int → σ → Prop)
    {Q : Option β → σ → Prop}
    (turn : ∀ i s, a ≤ i → i < a + n → I i s →
      wp R (body i) (fun r s' => if r = none then I (i + 1) s' else Q r s') s)
    (last : ∀ s, I (a + n) s → Q none s) (start : I a s) : wp R (search body n a) Q s := by
  induction n generalizing a s with
  | zero => exact last s (by simpa using start)
  | succ n ih =>
    apply (wp_bind _ _ _).mpr
    apply wp_mono _ (turn a s (by omega) (by omega) start)
    intro r s' next
    cases r with
    | some b => simpa [wp] using next
    | none =>
      apply ih _ _ (by simpa using next)
      · intro i t low high
        exact turn i t (by omega) (by omega)
      · intro t done
        have same : a + 1 + (n : Int) = a + (n + 1 : Nat) := by omega
        exact last t (same ▸ done)

end Rules

section All

variable {P : ι → Prop} {R : Rules ρ σ} {s : σ}

@[simp, grind ←] theorem all_pure (a : α) : (Pure.pure a : Prog ρ α).All P := trivial

@[simp, grind =] theorem all_perform (i : ι) : (perform i : Prog ρ (ρ i)).All P ↔ P i := by
  simp [perform, All]

@[simp] theorem all_ite (c : Prop) [Decidable c] (p q : Prog ρ α) :
    (if c then p else q).All P ↔ if c then p.All P else q.All P := by
  split <;> rfl

@[grind ←] theorem All.bind {p : Prog ρ α} {f : α → Prog ρ β} (first : p.All P) (rest : ∀ a, (f a).All P) :
    (p >>= f).All P := by
  induction p with
  | pure a => exact rest a
  | op i k ih => exact ⟨first.1, fun r => ih r (first.2 r)⟩

@[grind ←] theorem All.loop {body : Int → Prog ρ Unit} (each : ∀ i, (body i).All P) (n : Nat) (i : Int) :
    (loop body n i).All P := by
  induction n generalizing i with
  | zero => trivial
  | succ n ih => exact All.bind (each i) fun _ => ih (i + 1)

@[grind ←] theorem All.search {body : Int → Prog ρ (Option β)} (each : ∀ i, (body i).All P) (n : Nat) (i : Int) :
    (search body n i).All P := by
  induction n generalizing i with
  | zero => trivial
  | succ n ih =>
    apply All.bind (each i)
    intro r
    cases r with
    | none => exact ih (i + 1)
    | some b => trivial

theorem All.mono {P' : ι → Prop} {p : Prog ρ α} (all : p.All P) (weaker : ∀ i, P i → P' i) : p.All P' := by
  induction p with
  | pure a => trivial
  | op i k ih => exact ⟨weaker i all.1, fun r => ih r (all.2 r)⟩

theorem All.run {p : Prog ρ α} (all : p.All P) (h : Handler ρ σ) (s : σ) :
    ∀ e ∈ (p.run h s).events, P e.1 := by
  induction p generalizing s with
  | pure a => simp [Prog.run]
  | op i k ih =>
    intro e mem
    rcases List.mem_cons.mp mem with rfl | mem
    · exact all.1
    · exact ih _ (all.2 _) _ e mem

/-- What every operation of the program keeps, the program keeps. -/
theorem All.wp {p : Prog ρ α} {J : σ → Prop} (all : p.All P)
    (keeps : ∀ i s, P i → J s → R.allowed i s ∧ ∀ r s', R.answers i s r s' → J s')
    (start : J s) : p.wp R (fun _ => J) s := by
  induction p generalizing s with
  | pure a => exact start
  | op i k ih =>
    obtain ⟨here, after⟩ := keeps i s all.1 start
    refine ⟨here, ?_⟩
    intro r s' answered
    exact ih r (all.2 r) (after r s' answered)

end All

section Runs

variable {h : Handler ρ σ} {allowed : ι → σ → Prop} {Q : α → σ → Prop} {s : σ}

/-- What the rules of a handler promise of a program holds of its run. -/
theorem run_of_wp {p : Prog ρ α} (holds : p.wp (h.rules allowed) Q s) :
    (∀ e ∈ (p.run h s).events, allowed e.1 e.2) ∧ Q (p.run h s).value (p.run h s).state := by
  induction p generalizing s with
  | pure a => exact ⟨by simp [run], holds⟩
  | op i k ih =>
    obtain ⟨safe, after⟩ := ih (h i s).1 (holds.2 _ _ rfl)
    refine ⟨?_, after⟩
    intro e mem
    rcases List.mem_cons.mp mem with rfl | mem
    · exact holds.1
    · exact safe e mem

end Runs

end Prog
end Programs
