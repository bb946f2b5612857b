import Mathlib.Logic.Relation

/-! Runs of a labelled transition system, given by its step relation. The labels
of a run are kept, so that a condition on the steps of a run is a condition on its
labels and on the states before them. -/
namespace Transition

variable {σ α ε : Type*}

/-- A finite run, extended at its end. -/
inductive Path (step : σ → ε → σ → Prop) (start : σ) : List ε → σ → Prop where
  | nil : Path step start [] start
  | snoc {events : List ε} {middle final : σ} {event : ε} :
      Path step start events middle → step middle event final →
      Path step start (events ++ [event]) final

/-- Steps restricted to those whose label is allowed in the state before. -/
def Guarded (allowed : σ → ε → Prop) (step : σ → ε → σ → Prop) (s : σ) (e : ε) (s' : σ) : Prop :=
  allowed s e ∧ step s e s'

namespace Path

variable {step : σ → ε → σ → Prop} {start middle final : σ} {xs ys : List ε}

theorem single {event : ε} (h : step start event final) : Path step start [event] final :=
  snoc nil h

theorem append (first : Path step start xs middle) (second : Path step middle ys final) :
    Path step start (xs ++ ys) final := by
  induction second with
  | nil => simpa using first
  | snoc _ last ih => rw [← List.append_assoc]; exact snoc ih last

/-- What holds at the start and is kept by every step holds after every run. -/
theorem invariant (property : σ → Prop)
    (preserved : ∀ s event s', property s → step s event s' → property s')
    (path : Path step start xs final) (initial : property start) : property final := by
  induction path with
  | nil => exact initial
  | snoc _ last ih => exact preserved _ _ _ ih last

/-- A label of a run belongs to one of its steps. -/
theorem mem {event : ε} (path : Path step start xs final) (mem : event ∈ xs) :
    ∃ before s s', before ++ [event] <+: xs ∧ Path step start before s ∧ step s event s' := by
  induction path with
  | nil => contradiction
  | snoc first last ih =>
    rcases List.mem_append.mp mem with mem | mem
    · obtain ⟨before, s, s', initial, run, step⟩ := ih mem
      exact ⟨before, s, s', initial.trans (List.prefix_append ..), run, step⟩
    · rw [List.mem_singleton.mp mem]
      exact ⟨_, _, _, List.prefix_rfl, first, last⟩

theorem mono {step' : σ → ε → σ → Prop} (weaker : ∀ s event s', step s event s' → step' s event s')
    (path : Path step start xs final) : Path step' start xs final := by
  induction path with
  | nil => exact nil
  | snoc _ last ih => exact snoc ih (weaker _ _ _ last)

/-- A run of one system is matched label by label by a run of another that
simulates it. -/
theorem simulate {step' : α → ε → α → Prop} (related : σ → α → Prop)
    (simulation : ∀ s event s' a, related s a → step s event s' →
      ∃ a', step' a event a' ∧ related s' a')
    (path : Path step start xs final) {a : α} (initial : related start a) :
    ∃ a', Path step' a xs a' ∧ related final a' := by
  induction path with
  | nil => exact ⟨a, nil, initial⟩
  | snoc _ last ih =>
    obtain ⟨b, run, rel⟩ := ih
    obtain ⟨b', stepB, rel'⟩ := simulation _ _ _ _ rel last
    exact ⟨b', snoc run stepB, rel'⟩

end Path

/-- The state that a partial function of the labels reaches. -/
def follow (next : ε → σ → Option σ) : List ε → σ → Option σ
  | [], s => some s
  | e :: events, s => (next e s).bind (follow next events)

theorem follow_path {next : ε → σ → Option σ} {events : List ε} {s s' : σ} (reached : follow next events s = some s') :
    Path (fun s e s' => next e s = some s') s events s' := by
  induction events generalizing s with
  | nil => cases reached; exact .nil
  | cons e events ih =>
    obtain ⟨m, first, rest⟩ := Option.bind_eq_some_iff.mp reached
    have one : Path (fun s e s' => next e s = some s') s [e] m := .single first
    exact one.append (ih rest)

end Transition
