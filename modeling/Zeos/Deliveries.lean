import Zeos.Readers

/-! The calls of `sys_read` in the order they are issued, and the characters they get. -/
namespace Zeos
open Circular Placement Outcome

/-- A call of `sys_read` that has returned, with its value and the characters it got. -/
structure Answer where
  task : Task
  value : Option Int
  chars : List UInt8
  deriving DecidableEq, Repr

/-- The accepted calls, those that have returned and the characters of the keyboard, each
in the order of the run. -/
structure ReadLog where
  asked : List (Task × Int)
  answered : List Answer
  pressed : List UInt8

namespace Core

/-- The accepted call the running task goes on in. -/
def reading (c : Core) : Event → Option (DWord × Int)
  | .syscall (.read b maxchars) => if Accepted b maxchars then some (b, maxchars) else none
  | .resume => match c.ct.kEsp with
    | .read b maxchars => some (b, maxchars)
    | _ => none
  | _ => none

/-- The call that is issued with an event. -/
def asked (c : Core) : Event → List (Task × Int)
  | .syscall (.read b maxchars) => if Accepted b maxchars then [(c.current, maxchars)] else []
  | _ => []

/-- The call that returns with a step to `c'`. -/
def answered (c : Core) (e : Event) (c' : Core) : List Answer :=
  if (c.reading e).isSome ∧ c'.InUser ∧ c'.current = c.current then
    [⟨c.current, c'.ct.eax, (List.range (c'.ct.eax.getD 0).toNat).map c'.tmpbuff⟩]
  else []

end Core

/-- The character that comes in with an event. -/
def Event.chars : Event → List UInt8
  | .key readInp => (keyChar readInp).toList
  | _ => []

namespace ReadLog

def next (log : ReadLog) (c : Core) (e : Event) (c' : Core) : ReadLog :=
  ⟨log.asked ++ c.asked e, log.answered ++ c.answered e c', log.pressed ++ e.chars⟩

/-- The calls return in the order they were issued, with as many characters as they asked
for, and each gets its own stretch of what the keyboard sent. -/
structure InOrder (log : ReadLog) : Prop where
  order : log.answered.map (fun a => (a.task, a.value)) <+: log.asked.map fun q => (q.1, some q.2)
  full : ∀ a ∈ log.answered, a.value = some (a.chars.length : Int)
  apart : ∃ start : Nat → Nat,
    (∀ i a, log.answered[i]? = some a → a.chars <+: log.pressed.drop (start i)) ∧
    ∀ i j a, i < j → j < log.answered.length → log.answered[i]? = some a → start i + a.chars.length ≤ start j

end ReadLog

/-- The steps of the system with their log. -/
def Logged (x : State × ReadLog) (e : Event) (x' : State × ReadLog) : Prop :=
  x.1.core.Allowed e ∧ Step x.1 e x'.1 ∧ x'.2 = x.2.next x.1.core e x'.1.core

namespace Core

variable {c c' : Core} {e : Event} {b : DWord} {maxchars : Int}

theorem reading_iff : c.reading e = some (b, maxchars) ↔ c.Goes b maxchars e := by
  unfold Goes
  cases e with
  | syscall call =>
    cases call with
    | read b' maxchars' =>
      by_cases good : Accepted b' maxchars' <;> simp only [reading, good]
      · constructor
        · intro same
          cases same
          exact .inl ⟨rfl, good⟩
        · rintro (⟨⟨⟩, _⟩ | ⟨⟨⟩, _⟩)
          rfl
      · constructor
        · intro same
          cases same
        · rintro (⟨⟨⟩, other⟩ | ⟨⟨⟩, _⟩)
          exact absurd other good
    | _ => simp [reading]
  | resume => cases kont : c.ct.kEsp <;> simp [reading, kont]
  | _ => simp [reading]

theorem asked_idle (idle : ∀ b maxchars, ¬ c.Goes b maxchars e) : c.asked e = [] ∧ c.reading e = none := by
  have reading : c.reading e = none := Option.eq_none_iff_forall_ne_some.mpr fun ⟨b, maxchars⟩ same =>
    idle b maxchars (reading_iff.mp same)
  refine ⟨?_, reading⟩
  unfold asked
  split
  · rw [if_neg fun good => idle _ _ (.inl ⟨rfl, good⟩)]
  · rfl

theorem issued_eq (c : Core) (e : Event) : c.issued e = (c.asked e).map Prod.fst := by
  unfold issued asked
  cases e with
  | syscall call =>
    cases call with
    | read b maxchars => by_cases good : Accepted b maxchars <;> simp [good]
    | _ => rfl
  | _ => rfl

theorem asked_goes (goes : c.Goes b maxchars e) : e.chars = [] ∧
    (e = .syscall (.read b maxchars) ∧ 0 ≤ maxchars ∧ c.asked e = [(c.current, maxchars)] ∨
      e = .resume ∧ c.ct.kEsp = .read b maxchars ∧ c.asked e = []) := by
  rcases goes with ⟨rfl, good⟩ | ⟨rfl, waits⟩
  · exact ⟨rfl, .inl ⟨rfl, good.2.1, if_pos good⟩⟩
  · exact ⟨rfl, .inr ⟨rfl, waits, rfl⟩⟩

end Core

namespace Kernel

variable {e : Event} {k k' : Kernel} {log : ReadLog}

/-- The log tells which calls the readers wait in and what the key buffer holds. -/
structure Logs (k : Kernel) (log : ReadLog) : Prop where
  valid : k.core.kbBuffer.InBounds
  asked : ∃ pending : List (Task × Int),
    log.asked = log.answered.map (fun a => (a.task, (a.chars.length : Int))) ++ pending ∧
    pending.map Prod.fst = k.readers ∧ ∀ q ∈ pending, 0 ≤ q.2 ∧ ∃ b, (k.core.task q.1).kEsp = .read b q.2
  full : ∀ a ∈ log.answered, a.value = some (a.chars.length : Int)
  held : ∃ gone, Pieces log.pressed (log.answered.map Answer.chars) gone ∧
    k.core.kbBuffer.contents = log.pressed.drop gone ∧ gone ≤ log.pressed.length

theorem boot_logs (ram : Nat → Nat → UInt8) : (bootKernel ram).Logs ⟨[], [], []⟩ := by
  have empty : (bootCore ram).kbBuffer.contents = [] := by
    have : booted.core.kbBuffer.size = 0 := by decide +kernel
    show Window.read kbBufferSize booted.core.kbBuffer.buffer _ booted.core.kbBuffer.size = []
    rw [this]
    rfl
  exact ⟨(boot_patient ram).2.valid, ⟨[], rfl, rfl, by simp⟩, by simp, ⟨0, .nil, empty, le_refl _⟩⟩

theorem Logs.apart (logs : k.Logs log) (idle : ∀ b maxchars, ¬ k.core.Goes b maxchars e)
    (unpressed : ∀ readInp, e = .key readInp → keyChar readInp = none) (readers : k'.readers = k.readers)
    (kbBuffer : k'.core.kbBuffer = k.core.kbBuffer) (kEsp : ∀ t ∈ k.readers, (k'.core.task t).kEsp = (k.core.task t).kEsp) :
    k'.Logs (log.next k.core e k'.core) := by
  obtain ⟨none, silent⟩ := Core.asked_idle idle
  have chars : e.chars = [] := by
    unfold Event.chars
    split
    · rw [unpressed _ rfl]
      rfl
    · rfl
  have answered : k.core.answered e k'.core = [] := by simp [Core.answered, silent]
  have same : log.next k.core e k'.core = log := by simp [ReadLog.next, none, chars, answered]
  rw [same]
  obtain ⟨pending, asked, queue, waits⟩ := logs.asked
  refine ⟨by rw [kbBuffer]; exact logs.valid, ⟨pending, asked, by rw [readers, queue], fun q mem => ?_⟩, logs.full,
    by rw [kbBuffer]; exact logs.held⟩
  rw [kEsp q.1 (by rw [← queue]; exact List.mem_map_of_mem mem)]
  exact waits q mem

theorem Logs.press (logs : k.Logs log) {readInp char : UInt8} (pressed : keyChar readInp = some char)
    (readers : k'.readers = k.readers) (kbBuffer : k'.core.kbBuffer = k.core.kbBuffer.press char)
    (kEsp : ∀ t, (k'.core.task t).kEsp = (k.core.task t).kEsp) :
    k'.Logs (log.next k.core (.key readInp) k'.core) := by
  have chars : Event.chars (.key readInp) = [char] := by simp [Event.chars, pressed]
  have same : log.next k.core (.key readInp) k'.core = { log with pressed := log.pressed ++ [char] } := by
    simp [ReadLog.next, Core.asked, chars, Core.answered, Core.reading]
  have held : k'.core.kbBuffer = k.core.kbBuffer.push char := by
    rw [kbBuffer, KeyBuffer.press, if_pos (KeyBuffer.size_lt logs.valid)]
  obtain ⟨pending, asked, queue, waits⟩ := logs.asked
  obtain ⟨gone, cuts, contents, inside⟩ := logs.held
  rw [same]
  refine ⟨by rw [held]; exact logs.valid.push char, ⟨pending, asked, by rw [readers, queue], fun q mem => ?_⟩, logs.full, ?_⟩
  · rw [kEsp]
    exact waits q mem
  · by_cases full : k.core.kbBuffer.size = 254
    · refine ⟨(log.pressed ++ [char]).length, (cuts.extend _).skip (by simp; omega), ?_, le_refl _⟩
      have none : k'.core.kbBuffer.size = 0 := by rw [held, KeyBuffer.size_push logs.valid, if_pos full]
      rw [List.drop_length, KeyBuffer.contents, none]
      rfl
    · refine ⟨gone, cuts.extend _, ?_, by simp; omega⟩
      rw [held, KeyBuffer.contents_push logs.valid char full, contents, List.drop_append_of_le_length inside]

/-- A call sleeps, or goes back to sleep. -/
theorem Logs.sleep (logs : k.Logs log) {b : DWord} {maxchars : Int} (goes : k.core.Goes b maxchars e)
    (readers : k'.readers = k.readers ++ k.core.issued e) (kbBuffer : k'.core.kbBuffer = k.core.kbBuffer)
    (kEsp : ∀ t, (k'.core.task t).kEsp = if t = k.core.current then .read b maxchars else (k.core.task t).kEsp)
    (awake : ∀ b maxchars, e = .syscall (.read b maxchars) → k.core.current ∉ k.readers)
    (current : k'.core.current ≠ k.core.current) : k'.Logs (log.next k.core e k'.core) := by
  obtain ⟨chars, call⟩ := Core.asked_goes goes
  have answered : k.core.answered e k'.core = [] := by simp [Core.answered, current]
  have same : log.next k.core e k'.core = { log with asked := log.asked ++ k.core.asked e } := by
    simp [ReadLog.next, chars, answered]
  obtain ⟨pending, asked, queue, waits⟩ := logs.asked
  rw [same]
  refine ⟨by rw [kbBuffer]; exact logs.valid, ⟨pending ++ k.core.asked e, ?_, ?_, fun q mem => ?_⟩, logs.full,
    by rw [kbBuffer]; exact logs.held⟩
  · rw [asked, List.append_assoc]
  · rw [List.map_append, queue, readers, Core.issued_eq]
  · rw [kEsp]
    rcases List.mem_append.mp mem with old | new
    · have mem : q.1 ∈ k.readers := by rw [← queue]; exact List.mem_map_of_mem old
      obtain ⟨positive, b', kont⟩ := waits q old
      split
      · rename_i here
        rcases call with ⟨rfl, _, _⟩ | ⟨_, kont', _⟩
        · exact absurd (by rwa [← here]) (awake b maxchars rfl)
        · rw [here] at kont
          have same := kont'.symm.trans kont
          cases same
          exact ⟨positive, b, rfl⟩
      · exact ⟨positive, b', kont⟩
    · rcases call with ⟨_, positive, asks⟩ | ⟨_, _, asks⟩
      · rw [asks, List.mem_singleton] at new
        subst new
        exact ⟨positive, b, if_pos rfl⟩
      · rw [asks] at new
        contradiction

/-- The first call returns. -/
theorem Logs.done (logs : k.Logs log) (inv : k.Inv) {b : DWord} {maxchars : Int} (goes : k.core.Goes b maxchars e)
    (awake : ∀ b maxchars, e = .syscall (.read b maxchars) → k.core.current ∉ k.readers)
    (first : (k.readers ++ k.core.issued e).head? = some k.core.current)
    (readers : k'.readers = (k.readers ++ k.core.issued e).tail)
    {chars : List UInt8} (length : chars.length = maxchars.toNat)
    (answered : k.core.answered e k'.core = [⟨k.core.current, some maxchars, chars⟩])
    (valid : k'.core.kbBuffer.InBounds) (contents : k.core.kbBuffer.contents = chars ++ k'.core.kbBuffer.contents)
    (kEsp : ∀ t, t ≠ k.core.current → (k'.core.task t).kEsp = (k.core.task t).kEsp) :
    k'.Logs (log.next k.core e k'.core) := by
  obtain ⟨silent, call⟩ := Core.asked_goes goes
  obtain ⟨pending, asked, queue, waits⟩ := logs.asked
  obtain ⟨gone, cuts, held, inside⟩ := logs.held
  have all : (pending ++ k.core.asked e).map Prod.fst = k.readers ++ k.core.issued e := by
    rw [List.map_append, queue, Core.issued_eq]
  -- the first call in the log is the one that returns
  obtain ⟨rest, calls, positive⟩ : ∃ rest, pending ++ k.core.asked e = (k.core.current, maxchars) :: rest ∧ 0 ≤ maxchars := by
    rcases call with ⟨rfl, positive, asks⟩ | ⟨rfl, kont, asks⟩
    · cases pending with
      | nil => exact ⟨[], by rw [asks]; rfl, positive⟩
      | cons q others =>
        rw [← all, List.cons_append, List.map_cons, List.head?_cons, Option.some.injEq] at first
        exact absurd (by rw [← queue, ← first]; exact List.mem_map_of_mem List.mem_cons_self) (awake b maxchars rfl)
    · rw [asks, List.append_nil] at all ⊢
      cases pending with
      | nil => rw [← all] at first; contradiction
      | cons q others =>
        rw [← all, List.map_cons, List.head?_cons, Option.some.injEq] at first
        obtain ⟨positive, b', waits⟩ := waits q List.mem_cons_self
        rw [first] at waits
        have same := kont.symm.trans waits
        have number : maxchars = q.2 := (Kont.read.inj same).2
        refine ⟨others, ?_, by omega⟩
        rw [number, ← first]
  have front : chars <+: log.pressed.drop gone := by
    rw [← held, contents]
    exact List.prefix_append ..
  rw [calls, List.map_cons] at all
  rw [← all, List.tail_cons] at readers
  have value : (some maxchars : Option Int) = some (chars.length : Int) := by
    rw [length, Int.toNat_of_nonneg positive]
  have alone : (k.core.current :: rest.map Prod.fst).Nodup := by
    rw [all]
    rcases call with ⟨rfl, _, asks⟩ | ⟨rfl, _, asks⟩
    · rw [Core.issued_eq, asks, List.map_singleton]
      exact List.Nodup.append (inv.placed.nodup .readBlocked) (List.nodup_singleton _) (by simpa using awake b maxchars rfl)
    · rw [Core.issued_eq, asks, List.map_nil, List.append_nil]
      exact inv.placed.nodup .readBlocked
  refine ⟨valid, ⟨rest, ?_, readers.symm, fun q mem => ?_⟩, fun a mem => ?_, ⟨gone + chars.length, ?_, ?_, ?_⟩⟩
  · show log.asked ++ k.core.asked e = (log.answered ++ k.core.answered e k'.core).map _ ++ rest
    rw [asked, answered, List.append_assoc, calls, List.map_append, List.append_assoc]
    simp [length, Int.toNat_of_nonneg positive]
  · have other : q.1 ≠ k.core.current := fun here =>
      (List.nodup_cons.mp alone).1 (by rw [← here]; exact List.mem_map_of_mem mem)
    rw [kEsp q.1 other]
    have member : q ∈ pending ++ k.core.asked e := by rw [calls]; exact List.mem_cons_of_mem _ mem
    rcases List.mem_append.mp member with old | new
    · exact waits q old
    · rcases call with ⟨_, _, asks⟩ | ⟨_, _, asks⟩
      · rw [asks, List.mem_singleton] at new
        rw [new] at other
        contradiction
      · rw [asks] at new
        contradiction
  · replace mem : a ∈ log.answered ++ k.core.answered e k'.core := mem
    rw [answered, List.mem_append, List.mem_singleton] at mem
    rcases mem with old | rfl
    · exact logs.full a old
    · exact value
  · show Pieces (log.pressed ++ e.chars) ((log.answered ++ k.core.answered e k'.core).map Answer.chars) _
    rw [silent, List.append_nil, answered, List.map_append]
    exact cuts.cut front
  · show _ = (log.pressed ++ e.chars).drop _
    rw [silent, List.append_nil, ← List.drop_drop, ← held, contents, List.drop_left]
  · show _ ≤ (log.pressed ++ e.chars).length
    have := front.length_le
    rw [List.length_drop] at this
    rw [silent, List.append_nil]
    omega

/-- What a returning call gets. -/
theorem ReadStep.answer (reads : k.ReadStep e k') (valid : k.core.kbBuffer.InBounds) {a : Answer}
    (answered : a ∈ k.core.answered e k'.core) :
    ∃ b maxchars, k.core.Goes b maxchars e ∧ a.task = k.core.current ∧ a.value = some maxchars ∧
      a.chars.length = maxchars.toNat ∧ k.core.kbBuffer.contents = a.chars ++ k'.core.kbBuffer.contents ∧
      k.core.mm.deliver k.core.cr3 b a.chars = .ok k'.core.mm := by
  unfold Core.answered at answered
  split at answered
  rename_i returns
  · rw [List.mem_singleton] at answered
    cases reads with
    | apart idle =>
      rw [(Core.asked_idle idle).2] at returns
      simp at returns
    | press readInp char key =>
      subst key
      simp [Core.reading] at returns
    | sleep b maxchars goes readers kbBuffer kEsp unserved live run current => exact absurd returns.2.2 current
    | done b maxchars entered core goes first readers enough same read kEsp live kbBuffer tmpbuff mm current user value =>
      obtain ⟨_, _, contents, delivered⟩ := readChars_taken (by rw [same.1]; exact valid) (by rw [same.1]; exact enough) read
      rw [value, Option.getD_some, tmpbuff] at answered
      rw [answered]
      rw [same.1, ← kbBuffer] at contents
      rw [same.2.1, same.2.2, ← mm] at delivered
      exact ⟨b, maxchars, goes, rfl, rfl, by simp, contents, delivered⟩
  · contradiction

theorem Logs.step (logs : k.Logs log) (attends : k.Attends) (inv : k.Inv) (allowed : k.core.Allowed e)
    (step : k.Step e k') : k'.Logs (log.next k.core e k'.core) := by
  have awake (b : DWord) (maxchars : Int) (call : e = .syscall (.read b maxchars)) : k.core.current ∉ k.readers := by
    subst call
    exact inv.awake step.1.1
  have reads := attends.readStep inv allowed step
  cases reads with
  | apart idle unpressed readers kbBuffer kEsp attends' => exact logs.apart idle unpressed readers kbBuffer kEsp
  | press readInp char key pressed readers kbBuffer kEsp live goes =>
    subst key
    exact logs.press pressed readers kbBuffer kEsp
  | sleep b maxchars goes readers kbBuffer kEsp unserved live run current =>
    exact logs.sleep goes readers kbBuffer kEsp awake current
  | done b maxchars entered core goes first readers enough same read kEsp live kbBuffer tmpbuff mm current user value =>
    obtain ⟨valid, _, contents, _⟩ := readChars_taken (by rw [same.1]; exact logs.valid) (by rw [same.1]; exact enough) read
    rw [same.1, ← kbBuffer] at contents
    rw [← kbBuffer] at valid
    have returns : (k.core.reading e).isSome ∧ k'.core.InUser ∧ k'.core.current = k.core.current :=
      ⟨by rw [Core.reading_iff.mpr goes]; rfl, user, current⟩
    have answered : k.core.answered e k'.core =
        [⟨k.core.current, some maxchars, (List.range maxchars.toNat).map core.tmpbuff⟩] := by
      rw [Core.answered, if_pos returns, value, tmpbuff]
      rfl
    exact logs.done inv goes awake first readers (by simp) answered valid contents kEsp

theorem Logs.inOrder (logs : k.Logs log) : log.InOrder := by
  obtain ⟨pending, asked, _, _⟩ := logs.asked
  obtain ⟨gone, cuts, _, _⟩ := logs.held
  obtain ⟨start, each, order⟩ := cuts.places
  refine ⟨?_, logs.full, start, fun i a at_i => ?_, fun i j a before inside at_i => ?_⟩
  · rw [asked, List.map_append, List.map_map]
    have same : log.answered.map (fun a => (a.task, a.value)) =
        log.answered.map ((fun q : Task × Int => (q.1, some q.2)) ∘ fun a => (a.task, (a.chars.length : Int))) := by
      apply List.map_congr_left
      intro a mem
      simp [logs.full a mem]
    rw [same]
    exact List.prefix_append ..
  · exact (each i a.chars (by rw [List.getElem?_map, at_i]; rfl)).1
  · exact order i j a.chars before (by simpa using inside) (by rw [List.getElem?_map, at_i]; rfl)

end Kernel

/-- The calls of `sys_read` return in the order they were issued, each with the characters
it asked for from the front of the key buffer, which no other call gets. -/
theorem reads_inOrder {ram : Nat → Nat → UInt8} {s₀ s : State} {log : ReadLog} {events : List Event}
    (started : boot ram = .ok s₀) (path : Transition.Path Logged (s₀, ⟨[], [], []⟩) events (s, log)) :
    log.InOrder ∧ ∀ e s', s.core.Allowed e → Step s e s' → ∀ a ∈ s.core.answered e s'.core,
      ∃ b maxchars, s.core.Goes b maxchars e ∧ a.task = s.core.current ∧ a.value = some maxchars ∧
        a.chars.length = maxchars.toNat ∧ s.core.kbBuffer.contents = a.chars ++ s'.core.kbBuffer.contents ∧
        s.core.mm.deliver s.core.cr3 b a.chars = .ok s'.core.mm := by
  rw [boot_eq, Except.ok.injEq] at started
  subst started
  obtain ⟨k, rep, inv, attends, logs⟩ := path.invariant
    (fun x => ∃ k, Refines x.1 k ∧ k.Inv ∧ k.Attends ∧ k.Logs x.2)
    (fun x e x' ⟨k, rep, inv, attends, logs⟩ ⟨allowed, step, next⟩ => by
      rw [rep.core] at allowed
      obtain ⟨k', step', rep', inv'⟩ := rep.advance inv allowed step
      rw [rep.core, rep'.core] at next
      rw [next]
      exact ⟨k', rep', inv', (attends.readStep inv allowed step').attends inv inv' attends, logs.step attends inv allowed step'⟩)
    ⟨bootKernel ram, boot_refines ram, boot_inv ram, (Kernel.boot_patient ram).1, Kernel.boot_logs ram⟩
  refine ⟨logs.inOrder, fun e s' allowed step a answered => ?_⟩
  rw [rep.core] at allowed answered ⊢
  obtain ⟨k', step', rep', inv'⟩ := rep.advance inv allowed step
  rw [rep'.core] at answered ⊢
  exact (attends.readStep inv allowed step').answer logs.valid answered

/-- Every allowed run has its log. -/
theorem logged_of_allowed {s₀ s : State} {events : List Event} (log : ReadLog)
    (path : Transition.Path (Transition.Guarded (fun s e => s.core.Allowed e) Step) s₀ events s) :
    ∃ log', Transition.Path Logged (s₀, log) events (s, log') := by
  induction path with
  | nil => exact ⟨log, .nil⟩
  | @snoc _ middle final event _ last ih =>
    obtain ⟨log', logged⟩ := ih
    exact ⟨log'.next middle.core event final.core, logged.snoc ⟨last.1, last.2, rfl⟩⟩

/-- `task1` sleeps, the key `q` wakes it up, and it goes on. -/
theorem reads_inOrder_woken : ∃ (s s' : State) (log : ReadLog), log.InOrder ∧ Step s .resume s' ∧
    s.core.answered .resume s'.core = [⟨task1, some 1, [113]⟩] ∧
    s.core.kbBuffer.contents = [113] ++ s'.core.kbBuffer.contents := by
  obtain ⟨s, run, checked⟩ := executeBoot_run (fun s e => s.core.Allowed e)
    [.syscall .fork, .syscall (.read 0x100000 1), .key 16]
    (fun s => s.core.Enabled .resume ∧ (s.step .resume).toOption.any fun s' =>
      s.core.answered .resume s'.core = [⟨task1, some 1, [113]⟩]) (by decide +kernel)
  simp only [decide_eq_true_eq] at run checked
  obtain ⟨s', step, answered⟩ := Step.of_any checked.1 checked.2
  rw [decide_eq_true_eq] at answered
  obtain ⟨ram, s₀, started, path⟩ := run
  obtain ⟨log, logged⟩ := logged_of_allowed ⟨[], [], []⟩ path
  obtain ⟨order, answers⟩ := reads_inOrder started logged
  obtain ⟨b, maxchars, _, _, _, _, contents, _⟩ := answers .resume s' trivial step _
    (by rw [answered]; exact List.mem_singleton_self _)
  exact ⟨s, s', log, order, step, answered, contents⟩

end Zeos
