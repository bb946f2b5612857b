import Zeos.Programs
import Zeos.Transition

/-! Threads that share a state and run programs, one call at a time: in a step a thread returns
from the call it stands at and runs on to the next, and nothing else happens meanwhile. What the
threads may do is proved one thread at a time, each relying on what the others keep. -/
namespace Programs
open Transition

/-- Threads `τ` over the operations `ι`. A program ends at a point `π`, where `body` goes on; a
call returns when it is ready, with the answer its surroundings `ε` choose. -/
structure Threads (τ : Type) {ι : Type} (ρ : ι → Type) (π σ ε : Type) where
  body : π → Prog ρ π
  calls : ι → Bool
  handler : ε → Handler ρ σ
  ready : ι → σ → Prop
  alive : τ → σ → Prop

/-- The shared state, and what is left of each thread's program. -/
structure Pool (τ : Type) {ι : Type} (ρ : ι → Type) (π σ : Type) where
  shared : σ
  code : τ → Prog ρ π

/-- A step: the thread that takes it, what its surroundings answer, and the operations it
performs, each with the state it is performed in. -/
structure Turn (τ ι σ ε : Type) where
  thread : τ
  env : ε
  events : List (ι × σ)

variable {τ ι : Type} {ρ : ι → Type} {π σ ε : Type}

/-- A program that has ended, or stands at a call. -/
def Prog.Parked {α : Type} (calls : ι → Bool) : Prog ρ α → Prop
  | .pure _ => True
  | .op i _ => calls i

namespace Threads

variable (T : Threads τ ρ π σ ε)

/-- Runs a program to its next call. One that ends goes on at the point where it ends, once: a
loop that makes no call stays at its head. -/
def settle (e : ε) (p : Prog ρ π) (s : σ) : Ran ι σ (Prog ρ π) :=
  let ran := p.drain T.calls (T.handler e) s
  match ran.value with
  | .pure x =>
    let more := (T.body x).drain T.calls (T.handler e) ran.state
    { more with events := ran.events ++ more.events }
  | .op _ _ => ran

/-- Returns from the call that a program stands at. -/
def resume (e : ε) : Prog ρ π → σ → Ran ι σ (Prog ρ π)
  | .pure x, s => T.settle e (T.body x) s
  | .op i k, s =>
    let ran := T.settle e (k (T.handler e i s).1) (T.handler e i s).2
    { ran with events := (i, s) :: ran.events }

def Ready : Prog ρ π → σ → Prop
  | .pure _, _ => True
  | .op i _, s => T.ready i s

/-- A thread takes its turn. -/
def Step [DecidableEq τ] (S : Pool τ ρ π σ) (turn : Turn τ ι σ ε) (S' : Pool τ ρ π σ) : Prop :=
  let ran := T.resume turn.env (S.code turn.thread) S.shared
  T.alive turn.thread S.shared ∧ T.Ready (S.code turn.thread) S.shared ∧ turn.events = ran.events ∧
    S' = ⟨ran.state, Function.update S.code turn.thread ran.value⟩

end Threads

/-- What each thread may do, what it relies on the others for, and what it knows at the points of
its program. `assumed` is what is taken for granted of a call that returns. -/
structure Protocol (T : Threads τ ρ π σ ε) where
  allowed : τ → ι → σ → Prop
  assumed : ε → ι → σ → Prop
  rely : τ → σ → σ → Prop
  knows : τ → π → σ → Prop
  rely_refl : ∀ t s, rely t s s
  rely_trans : ∀ t s s' s'', rely t s s' → rely t s' s'' → rely t s s''
  knows_stable : ∀ t x s s', knows t x s → rely t s s' → knows t x s'
  alive_kept : ∀ t e i s, T.alive t s → T.alive t (T.handler e i s).2
  guarantee : ∀ t u e i s, t ≠ u → allowed t i s → rely u s (T.handler e i s).2

namespace Protocol

variable {T : Threads τ ρ π σ ε} (P : Protocol T)

/-- The rules of a thread: the others act before each of its calls returns. -/
def rules (t : τ) : Rules ρ σ where
  allowed i s := if T.calls i then ∀ s', P.rely t s s' → P.allowed t i s' else P.allowed t i s
  answers i s r s' :=
    if T.calls i then ∃ e before, P.rely t s before ∧ T.ready i before ∧ P.assumed e i before ∧
      (r, s') = T.handler e i before
    else ∃ e, (r, s') = T.handler e i s

/-- What is left of a thread's program keeps to the rules. -/
def Safe (t : τ) (p : Prog ρ π) (s : σ) : Prop := p.Parked T.calls ∧ p.wp (P.rules t) (P.knows t) s

/-- Each thread's programs keep to the rules from the points where it is. -/
def Correct : Prop :=
  ∀ t x s, P.knows t x s → T.alive t s → (T.body x).wp (P.rules t) (P.knows t) s

/-- The call that a program stands at returns as assumed. -/
def Returns (e : ε) : Prog ρ π → σ → Prop
  | .pure _, _ => True
  | .op i _, s => P.assumed e i s

def Assumed (S : Pool τ ρ π σ) (turn : Turn τ ι σ ε) : Prop :=
  P.Returns turn.env (S.code turn.thread) S.shared

variable {P} {t u : τ} {p : Prog ρ π} {s s' : σ} {e : ε}

/-- What the others do leaves a thread that stands at a call as safe as it was. -/
theorem Safe.stable (safe : P.Safe t p s) (others : P.rely t s s') : P.Safe t p s' := by
  obtain ⟨parked, holds⟩ := safe
  refine ⟨parked, ?_⟩
  cases p with
  | pure x => exact P.knows_stable t x s s' holds others
  | op i k =>
    have call : T.calls i = true := parked
    simp only [Prog.wp, rules, call, if_true] at holds ⊢
    obtain ⟨here, after⟩ := holds
    refine ⟨fun before acted => here before (P.rely_trans _ _ _ _ others acted), ?_⟩
    rintro r s'' ⟨e, before, acted, answered⟩
    exact after r s'' ⟨e, before, P.rely_trans _ _ _ _ others acted, answered⟩

/-- A thread's program may perform what its operations, one by one, may perform where `J` holds. -/
theorem wp_of_all {α : Type} {p : Prog ρ α} {ok : ι → Prop} {J : σ → Prop} (all : p.All ok)
    (here : ∀ i s, ok i → J s → P.allowed t i s)
    (stable : ∀ i s s', ok i → T.calls i = true → J s → P.rely t s s' → J s')
    (kept : ∀ e i s, ok i → J s → (T.calls i = true → P.assumed e i s) → J (T.handler e i s).2)
    (start : J s) : p.wp (P.rules t) (fun _ => J) s := by
  apply all.wp _ start
  intro i s allows holds
  simp only [rules]
  by_cases call : T.calls i = true
  · simp only [call, if_true]
    constructor
    · intro s' others
      exact here i s' allows (stable i s s' allows call holds others)
    · rintro r s' ⟨e, before, others, -, assumed, answered⟩
      have next := kept e i before allows (stable i s before allows call holds others) fun _ => assumed
      rwa [← answered] at next
  · simp only [call]
    refine ⟨here i s allows holds, ?_⟩
    rintro r s' ⟨e, answered⟩
    have next := kept e i s allows holds fun called => absurd called call
    rwa [← answered] at next

/-- A call, before which the others act. -/
theorem wp_call {i : ι} {Q : ρ i → σ → Prop} (call : T.calls i = true)
    (here : ∀ s', P.rely t s s' → P.allowed t i s')
    (after : ∀ e before, P.rely t s before → P.assumed e i before →
      Q (T.handler e i before).1 (T.handler e i before).2) : (Prog.perform i).wp (P.rules t) Q s := by
  simp only [Prog.perform, Prog.wp, rules, call, if_true]
  refine ⟨here, ?_⟩
  rintro r s' ⟨e, before, others, -, assumed, answered⟩
  have next := after e before others assumed
  rwa [← answered] at next

/-- An operation during which nobody else acts. -/
theorem wp_silent {i : ι} {Q : ρ i → σ → Prop} (silent : T.calls i = false) (here : P.allowed t i s)
    (after : ∀ e, Q (T.handler e i s).1 (T.handler e i s).2) : (Prog.perform i).wp (P.rules t) Q s := by
  simp only [Prog.perform, Prog.wp, rules, silent, Bool.false_eq_true, if_false]
  refine ⟨here, ?_⟩
  rintro r s' ⟨e, answered⟩
  have next := after e
  rwa [← answered] at next

/-- What a stretch of a thread's program does: every operation is allowed, the others' reliance
is kept, and the thread stays alive. -/
structure Kept (P : Protocol T) (t : τ) (s : σ) (events : List (ι × σ)) (s' : σ) : Prop where
  allowed : ∀ event ∈ events, P.allowed t event.1 event.2
  rely : ∀ u, t ≠ u → P.rely u s s'
  alive : T.alive t s → T.alive t s'

theorem Kept.nil : Kept P t s [] s := ⟨by simp, fun u _ => P.rely_refl u s, id⟩

theorem Kept.cons {i : ι} {events : List (ι × σ)} (here : P.allowed t i s)
    (rest : Kept P t (T.handler e i s).2 events s') : Kept P t s ((i, s) :: events) s' := by
  refine ⟨?_, ?_, ?_⟩
  · intro event mem
    rcases List.mem_cons.mp mem with rfl | mem
    · exact here
    · exact rest.allowed event mem
  · intro u other
    exact P.rely_trans _ _ _ _ (P.guarantee t u e i s other here) (rest.rely u other)
  · intro alive
    exact rest.alive (P.alive_kept t e i s alive)

theorem Kept.append {s'' : σ} {first second : List (ι × σ)} (one : Kept P t s first s')
    (two : Kept P t s' second s'') : Kept P t s (first ++ second) s'' := by
  refine ⟨?_, ?_, ?_⟩
  · intro event mem
    rcases List.mem_append.mp mem with mem | mem
    · exact one.allowed event mem
    · exact two.allowed event mem
  · intro u other
    exact P.rely_trans _ _ _ _ (one.rely u other) (two.rely u other)
  · intro alive
    exact two.alive (one.alive alive)

theorem kept_drain (holds : p.wp (P.rules t) (P.knows t) s) :
    let ran := p.drain T.calls (T.handler e) s
    Kept P t s ran.events ran.state ∧ P.Safe t ran.value ran.state := by
  induction p generalizing s with
  | pure x => exact ⟨Kept.nil, trivial, holds⟩
  | op i k ih =>
    obtain ⟨here, after⟩ := holds
    by_cases call : T.calls i = true
    · simp only [Prog.drain, call, if_true]
      exact ⟨Kept.nil, call, here, after⟩
    · simp only [rules, call] at here after
      simp only [Prog.drain, call]
      obtain ⟨kept, safe⟩ := ih _ (after _ _ ⟨e, rfl⟩)
      exact ⟨Kept.cons here kept, safe⟩

theorem kept_settle (correct : P.Correct) (alive : T.alive t s)
    (holds : p.wp (P.rules t) (P.knows t) s) :
    let ran := T.settle e p s
    Kept P t s ran.events ran.state ∧ P.Safe t ran.value ran.state := by
  obtain ⟨kept, safe⟩ := kept_drain (e := e) holds
  simp only [Threads.settle]
  split
  next x ended =>
    rw [ended] at safe
    obtain ⟨more, settled⟩ := kept_drain (e := e) (correct t x _ safe.2 (kept.alive alive))
    exact ⟨kept.append more, settled⟩
  next i k standing => exact ⟨kept, safe⟩

theorem kept_resume (correct : P.Correct) (alive : T.alive t s) (ready : T.Ready p s)
    (assumed : P.Returns e p s) (safe : P.Safe t p s) :
    let ran := T.resume e p s
    Kept P t s ran.events ran.state ∧ P.Safe t ran.value ran.state := by
  obtain ⟨parked, holds⟩ := safe
  cases p with
  | pure x => exact kept_settle correct alive (correct t x s holds alive)
  | op i k =>
    have call : T.calls i = true := parked
    simp only [Prog.wp, rules, call, if_true] at holds
    obtain ⟨here, after⟩ := holds
    have onward := after _ _ ⟨e, s, P.rely_refl t s, ready, assumed, rfl⟩
    obtain ⟨kept, settled⟩ := kept_settle (e := e) correct (P.alive_kept t e i s alive) onward
    exact ⟨Kept.cons (here s (P.rely_refl t s)) kept, settled⟩

variable [DecidableEq τ] {S S' : Pool τ ρ π σ} {turn : Turn τ ι σ ε}

/-- A turn of one thread leaves every thread safe. -/
theorem step_safe (correct : P.Correct) (safe : ∀ t, P.Safe t (S.code t) S.shared)
    (assumed : P.Assumed S turn) (step : T.Step S turn S') :
    (∀ event ∈ turn.events, P.allowed turn.thread event.1 event.2) ∧ ∀ t, P.Safe t (S'.code t) S'.shared := by
  obtain ⟨alive, ready, events, rfl⟩ := step
  obtain ⟨kept, settled⟩ := kept_resume correct alive ready assumed (safe turn.thread)
  refine ⟨events ▸ kept.allowed, ?_⟩
  intro u
  by_cases same : u = turn.thread
  · subst same
    simpa using settled
  · simpa [Function.update_of_ne same] using (safe u).stable (kept.rely u (Ne.symm same))

/-- In every run whose calls return as assumed, every operation is allowed. -/
theorem sound {turns : List (Turn τ ι σ ε)} (correct : P.Correct)
    (initial : ∀ t, P.Safe t (S.code t) S.shared) (run : Path (Guarded P.Assumed T.Step) S turns S') :
    ∀ turn ∈ turns, ∀ event ∈ turn.events, P.allowed turn.thread event.1 event.2 := by
  have both : (∀ turn ∈ turns, ∀ event ∈ turn.events, P.allowed turn.thread event.1 event.2) ∧
      ∀ t, P.Safe t (S'.code t) S'.shared := by
    induction run with
    | nil => exact ⟨by simp, initial⟩
    | snoc _ last ih =>
      obtain ⟨before, safe⟩ := ih
      obtain ⟨here, after⟩ := step_safe correct safe last.1 last.2
      refine ⟨?_, after⟩
      intro turn mem
      rcases List.mem_append.mp mem with mem | mem
      · exact before turn mem
      · rw [List.mem_singleton.mp mem]
        exact here
  exact both.1

end Protocol

namespace Threads

variable {T : Threads τ ρ π σ ε} {t : τ} {e : ε} {s : σ} {A : ε → ι → σ → Prop}

/-- A turn of a thread whose call, if it stands at one, returns as assumed. -/
def Returns (A : ε → ι → σ → Prop) (S : Pool τ ρ π σ) (turn : Turn τ ι σ ε) : Prop :=
  ∀ i k, S.code turn.thread = .op i k → A turn.env i S.shared

/-- The pool in which thread `t` has got as far as `ran`. -/
def put [DecidableEq τ] (S : Pool τ ρ π σ) (t : τ) (ran : Ran ι σ (Prog ρ π)) : Pool τ ρ π σ :=
  ⟨ran.state, Function.update S.code t ran.value⟩

theorem settle_silent {i : ι} {k : ρ i → Prog ρ π} (silent : T.calls i = false) :
    (T.settle e (.op i k) s).value = (T.settle e (k (T.handler e i s).1) (T.handler e i s).2).value ∧
    (T.settle e (.op i k) s).state = (T.settle e (k (T.handler e i s).1) (T.handler e i s).2).state := by
  simp only [settle, Prog.drain, silent, Bool.false_eq_true, if_false]
  split <;> exact ⟨rfl, rfl⟩

/-- A thread that nobody disturbs runs its program to the end, if each call is ready. -/
theorem solo [DecidableEq τ] (S : Pool τ ρ π σ) (p : Prog ρ π)
    (alive : ∀ s i, T.alive t s → T.alive t (T.handler e i s).2) (here : T.alive t s)
    (ready : ∀ event ∈ (p.run (T.handler e) s).events, T.calls event.1 →
      T.ready event.1 event.2 ∧ A e event.1 event.2) :
    ∃ turns, Path (Guarded (Returns A) T.Step) (put S t (T.settle e p s)) turns
      (put S t (T.settle e (.pure (p.run (T.handler e) s).value) (p.run (T.handler e) s).state)) := by
  induction p generalizing s with
  | pure x => exact ⟨[], .nil⟩
  | op i k ih =>
    have onward := alive s i here
    obtain ⟨turns, path⟩ := ih (T.handler e i s).1 onward fun event mem =>
      ready event (List.mem_cons_of_mem _ mem)
    by_cases call : T.calls i = true
    · have stands : T.settle e (.op i k) s = ⟨[], .op i k, s⟩ := by simp [settle, Prog.drain, call]
      have first := ready (i, s) List.mem_cons_self call
      have step : Guarded (Returns A) T.Step (put S t (T.settle e (.op i k) s))
          ⟨t, e, (i, s) :: (T.settle e (k (T.handler e i s).1) (T.handler e i s).2).events⟩
          (put S t (T.settle e (k (T.handler e i s).1) (T.handler e i s).2)) := by
        rw [stands]
        refine ⟨fun i' k' same => ?_, ?_⟩
        · simp only [put, Function.update_self, Prog.op.injEq] at same
          obtain ⟨rfl, -⟩ := same
          exact first.2
        · simp only [Step, put, Function.update_self, resume, Function.update_idem, and_true]
          exact ⟨here, first.1⟩
      exact ⟨_, (Path.single step).append path⟩
    · obtain ⟨value, state⟩ := settle_silent (k := k) (s := s) (e := e) (T := T) (by simpa using call)
      refine ⟨turns, ?_⟩
      have same : put S t (T.settle e (.op i k) s) =
          put S t (T.settle e (k (T.handler e i s).1) (T.handler e i s).2) := by
        simp only [put, value, state]
      rw [same]
      exact path

/-- Getting no further than where it stands changes nothing. -/
theorem put_self [DecidableEq τ] (S : Pool τ ρ π σ) (t : τ) (events : List (ι × σ)) :
    put S t ⟨events, S.code t, S.shared⟩ = S := by
  simp [put]

/-- A thread that may take its turn. -/
theorem takes_turn [DecidableEq τ] {S : Pool τ ρ π σ} (here : T.alive t S.shared) (ready : T.Ready (S.code t) S.shared) :
    T.Step S ⟨t, e, (T.resume e (S.code t) S.shared).events⟩ (put S t (T.resume e (S.code t) S.shared)) :=
  ⟨here, ready, rfl, rfl⟩

/-- A thread that stands at a call runs its program to the end, if each call is ready. -/
theorem runs_on [DecidableEq τ] {S : Pool τ ρ π σ} {i : ι} {k : ρ i → Prog ρ π} (stands : S.code t = .op i k)
    (call : T.calls i = true) (alive : ∀ s i, T.alive t s → T.alive t (T.handler e i s).2)
    (here : T.alive t S.shared)
    (ready : ∀ event ∈ ((S.code t).run (T.handler e) S.shared).events, T.calls event.1 →
      T.ready event.1 event.2 ∧ A e event.1 event.2) :
    let ran := (S.code t).run (T.handler e) S.shared
    ∃ turns, Path (Guarded (Returns A) T.Step) S turns (put S t (T.settle e (.pure ran.value) ran.state)) := by
  have parked : T.settle e (S.code t) S.shared = ⟨[], S.code t, S.shared⟩ := by
    rw [stands]
    simp [settle, Prog.drain, call]
  obtain ⟨turns, path⟩ := solo S (S.code t) alive here ready
  rw [parked, put_self] at path
  exact ⟨turns, path⟩

/-- A thread that goes on at a point runs the program there to the end, if each call is ready. -/
theorem runs_from [DecidableEq τ] {S : Pool τ ρ π σ} {x : π} (stands : S.code t = .pure x)
    (alive : ∀ s i, T.alive t s → T.alive t (T.handler e i s).2) (here : T.alive t S.shared)
    (ready : ∀ event ∈ ((T.body x).run (T.handler e) S.shared).events, T.calls event.1 →
      T.ready event.1 event.2 ∧ A e event.1 event.2) :
    let ran := (T.body x).run (T.handler e) S.shared
    ∃ turns, Path (Guarded (Returns A) T.Step) S turns (put S t (T.settle e (.pure ran.value) ran.state)) := by
  have first := takes_turn (e := e) here (by rw [stands]; trivial)
  have returns : Returns A S ⟨t, e, (T.resume e (S.code t) S.shared).events⟩ := fun i k stands' => by
    rw [stands] at stands'
    contradiction
  rw [stands] at first returns
  obtain ⟨turns, path⟩ := solo S (T.body x) alive here ready
  exact ⟨_, (Path.single ⟨returns, first⟩).append path⟩

end Threads
end Programs
