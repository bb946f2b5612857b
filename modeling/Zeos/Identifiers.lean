import Zeos.Acts

/-! The identifiers of semaphores. They are handed out in order, so that an identifier
names one slot while its semaphore lives and no slot that is in use afterwards. -/
namespace Zeos
open Placement Outcome Transition

namespace Kernel

variable {k k' : Kernel} {i : SemIndex}

theorem destroyRound_ids {semid : Int} {caller : DestroyCaller} (round : k.destroyRound i semid caller = some k') :
    k'.core.semIDglobal = k.core.semIDglobal := by
  unfold destroyRound at round
  split at round
  · contradiction
  · cases round
    rw [(frame_sched _ _).semIDglobal, (frame_wake _ _).semIDglobal]
    rfl

theorem destroySlots_ids (semid : Int) (caller : DestroyCaller) (slots : List SemIndex) {k : Kernel} :
    (destroySlots semid caller slots k).2.core.semIDglobal = k.core.semIDglobal := by
  induction slots generalizing k with
  | nil => rfl
  | cons i slots ih =>
    unfold destroySlots
    split
    · split
      · rfl
      · split
        · rfl
        · split
          · rename_i round
            exact destroyRound_ids round
          · exact ih
    · exact ih

theorem destroyFrom_ids (semid : Int) (caller : DestroyCaller) :
    (k.destroyFrom i semid caller).2.core.semIDglobal = k.core.semIDglobal := by
  unfold destroyFrom
  split
  · rename_i round
    exact destroyRound_ids round
  · exact destroySlots_ids semid caller _

theorem adopt_ids (ct : Task) : (k.adopt ct).core.semIDglobal = k.core.semIDglobal := by
  unfold adopt
  generalize k.queues (.fills ct) = ts
  have loop : ∀ m : Kernel, (ts.foldl adoptChild m).core.semIDglobal = m.core.semIDglobal := by
    induction ts with
    | nil => exact fun _ => rfl
    | cons t ts ih => exact fun m => ih _
  exact loop _

theorem exitTail_ids (done : k.exitTail = .ok k') : k'.core.semIDglobal = k.core.semIDglobal := by
  obtain ⟨core, mem, done⟩ := bind_ok.mp done
  obtain ⟨m, left, done⟩ := bind_ok.mp done
  cases done
  have memory : core.semIDglobal = k.core.semIDglobal := by
    cases Core.exitMemory_exited (mapError_ok.mp mem) <;> rfl
  rw [(frame_sched _ _).semIDglobal]
  change ((m.adopt _).releaseWaiters _).core.semIDglobal = _
  rw [(frame_releaseWaiters _ _).semIDglobal, adopt_ids, leaveFather_core left]
  exact memory

theorem exitSlots_ids (slots : List SemIndex) {k : Kernel} (done : k.exitSlots slots = .ok k') :
    k'.core.semIDglobal = k.core.semIDglobal := by
  induction slots generalizing k with
  | nil => exact exitTail_ids done
  | cons j slots ih =>
    unfold exitSlots at done
    have destroyed := destroySlots_ids (k.core.semaphores j).id (.exit j) (List.finRange numSems) (k := k)
    split at done
    · split at done <;> rename_i result <;> rw [result] at destroyed
      · rw [ih done]
        exact destroyed
      · cases done
        exact destroyed
    · exact ih done

theorem readChars_ids {b : DWord} {maxchars : Int} {c c' : Core} (done : c.readChars b maxchars = .ok c') :
    c'.semIDglobal = c.semIDglobal := by
  have pops (n : Nat) : ∀ (i : Nat) (c c' : Core), c.popChars i n = .ok c' → c'.semIDglobal = c.semIDglobal := by
    induction n with
    | zero => rintro i c c' ⟨⟩; rfl
    | succ n ih =>
      intro i c c' done
      unfold Core.popChars at done
      split at done
      · have rest := ih _ _ _ done
        exact rest
      · contradiction
  obtain ⟨middle, popped, done⟩ := bind_ok.mp done
  obtain ⟨mm, -, done⟩ := bind_ok.mp done
  cases done
  have taken := pops _ _ _ _ popped
  exact taken

theorem readWait_ids {b : DWord} {maxchars : Int} (done : k.readWait b maxchars = .ok k') :
    k'.core.semIDglobal = k.core.semIDglobal := by
  unfold readWait at done
  split at done
  · cases done
    exact (frame_sched _ _).semIDglobal
  · obtain ⟨core, mem, done⟩ := bind_ok.mp done
    cases done
    rw [(frame_sysReturn _ _).semIDglobal, (frame_start _ _).semIDglobal]
    exact readChars_ids (mapError_ok.mp mem)

theorem sysUnblock_ids (pid : Int) : (k.sysUnblock pid).core.semIDglobal = k.core.semIDglobal := by
  unfold sysUnblock
  rw [(frame_sched _ _).semIDglobal, (frame_unblock _ _ _).semIDglobal]

end Kernel

/-- The value of `semIDglobal` behind a step. -/
def Core.nextId (c : Core) : Event → Int
  | .syscall (.semCreate _) => if c.freeSlot.isSome then int32 (c.semIDglobal + 1) else c.semIDglobal
  | _ => c.semIDglobal

namespace Kernel

variable {k k' : Kernel} {i : SemIndex}

theorem syscall_nextId {request : Syscall} (sound : k.Sound none) (call : k.core.InCall)
    (done : k.syscall request = .ok k') : k'.core.semIDglobal = k.core.nextId (.syscall request) := by
  cases request with
  | fork =>
    rcases sysFork_cases done with ⟨v, rfl⟩ | ⟨fill, rest, core, first, outcome⟩
    · rfl
    obtain ⟨dead, other, _, _⟩ := sound.takeFree first call
    have same {complete : Bool} (mem : memory ((k.core.setTask fill fun _ => k.core.ct).forkMemory fill) = .ok (complete, core)) :
        core.semIDglobal = k.core.semIDglobal := by
      cases Core.forkMemory_forked other (mapError_ok.mp mem) <;> rfl
    rcases outcome with ⟨mem, rfl⟩ | ⟨mem, rfl⟩
    · rw [(frame_startChild _ _).1.semIDglobal]
      exact same mem
    · exact same mem
  | createThread function stack parameter =>
    rcases sysCreateThread_cases done with ⟨v, rfl⟩ | ⟨fill, rest, core, -, mem, rfl⟩
    · rfl
    · obtain ⟨dir, mm, -, -, same⟩ := Core.threadMemory_ok (mapError_ok.mp mem)
      rw [(frame_startChild _ _).1.semIDglobal, setCore_core, same]
      rfl
  | exit => exact exitSlots_ids _ done
  | block =>
    cases done
    unfold sysBlock
    split
    · rw [(frame_dispatch _).semIDglobal, (frame_park _ _).semIDglobal]
      rfl
    · rfl
  | unblock pid =>
    cases done
    exact sysUnblock_ids pid
  | waitThread pid =>
    cases done
    unfold sysWaitThread
    split
    · rfl
    · rw [(frame_dispatch _).semIDglobal, (frame_park _ _).semIDglobal]
      rfl
  | read b maxchars =>
    have moved := (frame_move k k.core.current .readBlocked).semIDglobal
    rcases sysRead_cases done with ⟨v, rfl⟩ | ⟨-, ⟨-, rfl⟩ | waits⟩
    · rfl
    · rw [(frame_sched _ _).semIDglobal, moved]
      rfl
    · rw [readWait_ids waits, moved]
      rfl
  | dynMem numPags =>
    obtain ⟨core, mem, done⟩ := bind_ok.mp done
    cases done
    obtain ⟨mm, cr3, v, rfl⟩ := sysDynMem_spec mem
    rfl
  | semCreate initialValue =>
    cases done
    unfold sysSemCreate Core.nextId
    split <;> rename_i found <;> simp only [found] <;> rfl
  | semWait semid =>
    cases done
    rcases sysSemWait_cases k semid with ⟨v, done⟩ | ⟨i, value, -, done | ⟨v, done⟩⟩ <;> rw [done]
    · rfl
    · rw [(frame_dispatch _).semIDglobal, (frame_park _ _).semIDglobal]
      rfl
    · rfl
  | semSignal semid =>
    rcases sysSemSignal_cases done with ⟨v, rfl⟩ | ⟨i, value, -, ⟨t, rest, -, rfl⟩ | ⟨v, rfl⟩⟩
    · rfl
    · rw [(frame_sched _ _).semIDglobal, (frame_wake _ _).semIDglobal]
      rfl
    · rfl
  | semDestroy semid =>
    cases done
    unfold sysSemDestroy
    split
    · rfl
    · have destroyed := destroySlots_ids semid .syscall (List.finRange numSems) (k := k)
      split <;> rename_i result <;> rw [result] at destroyed <;> exact destroyed
  | getpid => cases done; rfl

theorem goOn_ids {kont : Kont} (done : k.goOn kont = .ok k') : k'.core.semIDglobal = k.core.semIDglobal := by
  cases kont with
  | read b maxchars => exact readWait_ids done
  | exited => contradiction
  | semDestroy i semid caller =>
    have destroyed := destroyFrom_ids semid caller (i := i) (k := k)
    simp only [goOn] at done
    generalize k.destroyFrom i semid caller = r at done destroyed
    obtain ⟨v, m⟩ := r
    cases v with
    | none =>
      cases done
      exact destroyed
    | some v =>
      cases caller with
      | syscall =>
        cases done
        exact destroyed
      | exit j => exact (exitSlots_ids _ done).trans destroyed
  | _ => cases done; rfl

theorem Inv.nextId {e : Event} (inv : k.Inv) (step : k.Step e k') : k'.core.semIDglobal = k.core.nextId e := by
  obtain ⟨enabled, done⟩ := step
  cases e with
  | clock =>
    cases done
    unfold Kernel.clockRoutine
    generalize (if 0 < k.core.tickCounter then k.core.tickCounter - 1 else k.core.tickCounter) = tick
    dsimp only
    split
    · exact (frame_sched _ _).semIDglobal
    · rfl
  | key readInp =>
    cases done
    unfold Kernel.keyboardRoutine
    split
    · rfl
    · dsimp only
      split
      · rfl
      · exact (frame_switch _ _).semIDglobal.trans (frame_yield _).semIDglobal
  | syscall request => exact syscall_nextId inv.toSound (inv.inCall enabled.1 enabled.2.1) done
  | resume =>
    have used := goOn_ids done
    exact used

end Kernel

/-- What happens to a slot that is not filled: it may be given back, and its owner may be
marked. -/
structure Semaphore.Ages (m m' : Semaphore) : Prop where
  id : m'.id = m.id
  free : m.free = true → m'.free = true
  creatorPID : m'.creatorPID = m.creatorPID ∨ m'.creatorPID = -1

namespace Table

variable {T T' : Table} {own : SemIndex → Prop}

theorem Released.ages (released : Released own T T') (i : SemIndex) : (T.slot i).Ages (T'.slot i) := by
  rcases released.slot i with same | ⟨-, same⟩ <;> rw [same]
  · exact ⟨rfl, fun free => free, .inl rfl⟩
  · exact ⟨rfl, fun _ => rfl, .inl rfl⟩

theorem Destroyed.ages (destroyed : Destroyed own T T') (i : SemIndex) : (T.slot i).Ages (T'.slot i) := by
  obtain ⟨M, released, same | ⟨j, -, -, -, same⟩⟩ := destroyed <;> subst same
  · exact released.ages i
  · have first := released.ages i
    by_cases here : i = j
    · subst here
      refine ⟨?_, fun free => ?_, .inr ?_⟩ <;> simp [mark, first.id]
      exact first.free free
    · refine ⟨?_, fun free => ?_, ?_⟩ <;> simp only [mark, set_slot, here, if_false]
      · exact first.id
      · exact first.free free
      · exact first.creatorPID

end Table

/-- A step fills the first free slot, or lets a slot age. -/
theorem Core.TableStep.ages {c : Core} {e : Event} {T T' : Table} (step : c.TableStep e T T') (i : SemIndex) :
    (T.slot i).Ages (T'.slot i) ∨
      ∃ v, e = .syscall (.semCreate v) ∧ c.freeSlot = some i ∧ T'.slot i = ⟨c.semIDglobal, v, false, c.ct.pid, v⟩ := by
  have same {m : Semaphore} : m.Ages m := ⟨rfl, fun free => free, .inl rfl⟩
  unfold TableStep at step
  split at step
  · rename_i v
    cases found : c.freeSlot with
    | none =>
      rw [found] at step
      exact .inl (by rw [step]; exact same)
    | some j =>
      rw [found] at step
      subst step
      by_cases here : i = j
      · subst here
        exact .inr ⟨v, rfl, rfl, by simp⟩
      · exact .inl (by simpa [here] using same)
  · subst step
    split
    · exact .inl same
    · rename_i j _
      by_cases here : i = j
      · subst here
        exact .inl (by simpa [Table.take] using ⟨rfl, fun free => free, .inl rfl⟩)
      · exact .inl (by simpa [Table.take, here] using same)
  · subst step
    split
    · exact .inl same
    · rename_i j _
      by_cases here : i = j
      · subst here
        exact .inl (by simpa [Table.give] using ⟨rfl, fun free => free, .inl rfl⟩)
      · exact .inl (by simpa [Table.give, here] using same)
  · exact .inl (step.ages i)
  · exact .inl (step.ages i)
  · exact .inl (step.ages i)
  · exact .inl (by rw [step]; exact same)

/-- The allowed steps of the runs in which the counter of identifiers stays an `int`: a
`sys_semCreate` that finds a slot finds the counter below its last value. -/
def Core.Numbers (c : Core) : Event → Prop
  | .syscall (.semCreate _) => c.freeSlot.isSome → c.semIDglobal < 2147483647
  | e => c.Allowed e

instance (c : Core) (e : Event) : Decidable (c.Numbers e) := by
  unfold Core.Numbers
  apply e.decidable

theorem Core.Numbers.allowed {c : Core} {e : Event} (numbers : c.Numbers e) : c.Allowed e := by
  unfold Core.Numbers at numbers
  split at numbers
  · trivial
  · exact numbers

/-- Identifiers are given out once, in order. A slot that was never filled has the
identifier 0. -/
structure Core.Numbered (c : Core) : Prop where
  low : firstUserSemId ≤ c.semIDglobal
  below : ∀ i, (c.semaphores i).id < c.semIDglobal
  unique : ∀ i j, firstUserSemId ≤ (c.semaphores i).id → (c.semaphores j).id = (c.semaphores i).id → j = i
  used : ∀ i, (c.semaphores i).free = false → firstUserSemId ≤ (c.semaphores i).id

theorem boot_numbered (ram : Nat → Nat → UInt8) : (bootCore ram).Numbered := by
  have global : booted.core.semIDglobal = firstUserSemId := by decide +kernel
  have zero : ∀ i, (booted.core.semaphores i).id = 0 := by decide +kernel
  have global : (bootCore ram).semIDglobal = firstUserSemId := global
  have zero : ∀ i, ((bootCore ram).semaphores i).id = 0 := zero
  refine ⟨global.ge, fun i => ?_, fun i j user => ?_, fun i used => ?_⟩
  · rw [zero, global]
    decide
  · rw [zero] at user
    contradiction
  · rw [boot_free] at used
    contradiction

/-- The identifier was given out, and no slot that is in use has it. -/
def Core.Retired (id : Int) (c : Core) : Prop :=
  id < c.semIDglobal ∧ ∀ i, (c.semaphores i).id = id → (c.semaphores i).free = true

/-- The identifier was given out, and no slot but `i` has it. -/
def Core.Names (id : Int) (i : SemIndex) (c : Core) : Prop :=
  id < c.semIDglobal ∧ ∀ j, (c.semaphores j).id = id → j = i

namespace Kernel

variable {k k' : Kernel} {e : Event} {i : SemIndex} {id : Int}

theorem Inv.nextId_grows (inv : k.Inv) (numbers : k.core.Numbers e) (low : firstUserSemId ≤ k.core.semIDglobal)
    (step : k.Step e k') : k.core.semIDglobal ≤ k'.core.semIDglobal ∧
      ∀ v, e = .syscall (.semCreate v) → k.core.freeSlot.isSome → k'.core.semIDglobal = k.core.semIDglobal + 1 := by
  have next := inv.nextId step
  unfold Core.nextId at next
  simp only [firstUserSemId] at low
  split at next
  · rename_i v
    cases found : k.core.freeSlot with
    | none => simp [next, found]
    | some j =>
      have small : k.core.semIDglobal < 2147483647 := numbers (by rw [found]; rfl)
      rw [found, Option.isSome_some, if_pos rfl, int32_of_range (by omega) (by omega)] at next
      exact ⟨by omega, fun _ _ _ => next⟩
  · rename_i other
    exact ⟨next.ge, fun v same => absurd same (other v)⟩

/-- A slot with an identifier from before the step is the one that had it. -/
theorem Inv.aged (inv : k.Inv) (allowed : k.core.Allowed e) (step : k.Step e k')
    (old : (k'.core.semaphores i).id < k.core.semIDglobal) : (k.core.semaphores i).Ages (k'.core.semaphores i) := by
  rcases (step_table inv allowed step).ages i with ages | ⟨v, -, -, filled⟩
  · exact ages
  · have new : (k'.core.semaphores i).id = k.core.semIDglobal := congrArg Semaphore.id filled
    omega

theorem Inv.retired_step (inv : k.Inv) (numbers : k.core.Numbers e) (numbered : k.core.Numbered) (step : k.Step e k')
    (retired : k.core.Retired id) : k'.core.Retired id := by
  obtain ⟨old, free⟩ := retired
  refine ⟨old.trans_le (inv.nextId_grows numbers numbered.low step).1, fun i named => ?_⟩
  have ages := inv.aged numbers.allowed step (i := i) (by rw [named]; exact old)
  exact ages.free (free i (ages.id.symm.trans named))

theorem Inv.names_step (inv : k.Inv) (numbers : k.core.Numbers e) (numbered : k.core.Numbered) (step : k.Step e k')
    (names : k.core.Names id i) : k'.core.Names id i := by
  obtain ⟨old, only⟩ := names
  refine ⟨old.trans_le (inv.nextId_grows numbers numbered.low step).1, fun j named => ?_⟩
  have ages := inv.aged numbers.allowed step (i := j) (by rw [named]; exact old)
  exact only j (ages.id.symm.trans named)

theorem Inv.numbered_step (inv : k.Inv) (numbers : k.core.Numbers e) (numbered : k.core.Numbered) (step : k.Step e k') :
    k'.core.Numbered := by
  obtain ⟨grows, created⟩ := inv.nextId_grows numbers numbered.low step
  have ages (i : SemIndex) := (step_table inv numbers.allowed step).ages i
  have fresh {i : SemIndex} {v : Int} (filled : k'.core.semaphores i = ⟨k.core.semIDglobal, v, false, k.core.ct.pid, v⟩) :
      (k'.core.semaphores i).id = k.core.semIDglobal := congrArg Semaphore.id filled
  constructor
  case low => exact numbered.low.trans grows
  case below =>
    intro i
    have before := numbered.below i
    rcases ages i with ages | ⟨v, create, found, filled⟩
    · have same : (k'.core.semaphores i).id = (k.core.semaphores i).id := ages.id
      omega
    · have next := created v create (by rw [found]; rfl)
      have new := fresh filled
      omega
  case unique =>
    intro i j user same
    have before := numbered.below
    rcases ages i with agesI | ⟨v, -, foundI, filledI⟩ <;> rcases ages j with agesJ | ⟨w, -, foundJ, filledJ⟩
    · have sameI : (k'.core.semaphores i).id = (k.core.semaphores i).id := agesI.id
      have sameJ : (k'.core.semaphores j).id = (k.core.semaphores j).id := agesJ.id
      exact numbered.unique i j (by rwa [← sameI]) (by rw [← sameI, ← sameJ, same])
    · have sameI : (k'.core.semaphores i).id = (k.core.semaphores i).id := agesI.id
      have := before i
      have := fresh filledJ
      omega
    · have sameJ : (k'.core.semaphores j).id = (k.core.semaphores j).id := agesJ.id
      have := before j
      have := fresh filledI
      omega
    · exact Option.some.inj (foundJ.symm.trans foundI)
  case used =>
    intro i used
    rcases ages i with ages | ⟨v, -, -, filled⟩
    · have same : (k'.core.semaphores i).id = (k.core.semaphores i).id := ages.id
      rw [same]
      refine numbered.used i (Bool.eq_false_iff.mpr fun free => ?_)
      have freed : (k'.core.semaphores i).free = true := ages.free free
      rw [freed] at used
      contradiction
    · rw [fresh filled]
      exact numbered.low

end Kernel

/-- An identifier in use leads to its slot. -/
theorem Core.Numbered.slotOf {c : Core} {i : SemIndex} (numbered : c.Numbered) (used : (c.semaphores i).free = false) :
    c.slotOf (c.semaphores i).id = some i := by
  cases found : c.slotOf (c.semaphores i).id with
  | none =>
    have absent := List.find?_eq_none.mp found i (List.mem_finRange i)
    simp at absent
  | some j =>
    have same := List.find?_some found
    rw [numbered.unique i j (numbered.used i used) (of_decide_eq_true same)]

/-- The three calls with an identifier return a negative value and change nothing else. -/
def State.Refused (id : Int) (s : State) : Prop :=
  ∀ call, call = .semWait id ∨ call = .semSignal id ∨ call = .semDestroy id →
    ∃ v < 0, s.syscall call = .ok (s.sysReturn (some v))

theorem State.destroySlots_retired {s : State} {id : Int} (retired : s.core.Retired id) (caller : DestroyCaller)
    (slots : List SemIndex) :
    ∃ v < 0, destroySlots id caller slots s = .ok (some v, s) := by
  induction slots with
  | nil => exact ⟨-1, by decide, rfl⟩
  | cons i slots ih =>
    unfold destroySlots
    split
    · rename_i named
      rw [if_pos (retired.2 i named)]
      exact ⟨-eINVAL, by decide, rfl⟩
    · exact ih

theorem State.refused_of_retired {s : State} {id : Int} (retired : s.core.Retired id) : s.Refused id := by
  have freed {i : SemIndex} (found : s.core.slotOf id = some i) : (s.core.semaphores i).free = true :=
    retired.2 i (by simpa using List.find?_some (show List.find? _ _ = some i from found))
  rintro call (rfl | rfl | rfl)
  · simp only [syscall, sysSemWait]
    split
    · exact ⟨-eINVAL, by decide, rfl⟩
    · split
      · exact ⟨-1, by decide, rfl⟩
      · rename_i found
        rw [if_pos (freed found)]
        exact ⟨-eINVAL, by decide, rfl⟩
  · simp only [syscall, sysSemSignal]
    split
    · exact ⟨-1, by decide, rfl⟩
    · split
      · exact ⟨-1, by decide, rfl⟩
      · rename_i found
        rw [if_pos (freed found)]
        exact ⟨-eINVAL, by decide, rfl⟩
  · simp only [syscall, sysSemDestroy]
    split
    · exact ⟨-eINVAL, by decide, rfl⟩
    · obtain ⟨v, negative, refused⟩ := destroySlots_retired retired .syscall (List.finRange numSems)
      rw [refused]
      exact ⟨v, negative, rfl⟩

/-- A slot that is filled is named by the value that the call returns. -/
theorem Kernel.Inv.created {k k' : Kernel} {v : Int} {i : SemIndex} (inv : k.Inv)
    (numbers : k.core.Numbers (.syscall (.semCreate v)))
    (numbered : k.core.Numbered) (found : k.core.freeSlot = some i) (step : k.Step (.syscall (.semCreate v)) k') :
    k'.core.ct.eax = some k.core.semIDglobal ∧ k'.core.Names k.core.semIDglobal i := by
  have allowed : k.core.Allowed (.syscall (.semCreate v)) := trivial
  have next := (inv.nextId_grows numbers numbered.low step).2 v rfl (by rw [found]; rfl)
  refine ⟨?_, by omega, fun j named => ?_⟩
  · obtain ⟨_, done⟩ := step
    cases done
    unfold sysSemCreate
    rw [found]
    exact Kernel.sysReturn_eax _ _
  · rcases (step_table inv allowed step).ages j with ages | ⟨_, -, found', -⟩
    · have before := numbered.below j
      have same : (k'.core.semaphores j).id = (k.core.semaphores j).id := ages.id
      omega
    · exact Option.some.inj (found'.symm.trans found)

/-- A slot that is given back takes its identifier along. -/
theorem Kernel.Inv.retires {k k' : Kernel} {e : Event} {i : SemIndex} (inv : k.Inv) (numbers : k.core.Numbers e)
    (numbered : k.core.Numbered) (step : k.Step e k')
    (used : (k.core.semaphores i).free = false) (free : (k'.core.semaphores i).free = true) :
    k'.core.Retired (k.core.semaphores i).id := by
  have old := numbered.below i
  refine ⟨old.trans_le (inv.nextId_grows numbers numbered.low step).1, fun j named => ?_⟩
  have ages := inv.aged numbers.allowed step (i := j) (by rw [named]; exact old)
  rw [numbered.unique i j (numbered.used i used) (ages.id.symm.trans named)]
  exact free

/-- A step of the runs in which the counter of identifiers stays an `int`. -/
abbrev NumberedStep : State → Event → State → Prop := Guarded (fun s e => s.core.Numbers e) Step

/-- What the steps of such a run keep, together with the order of the identifiers. -/
theorem Refines.numbered_path {s s' : State} {k : Kernel} {events : List Event} (property : Core → Prop) (rep : Refines s k)
    (inv : k.Inv) (numbered : k.core.Numbered) (initial : property k.core)
    (keeps : ∀ (k k' : Kernel) (e : Event), k.Inv → k.core.Numbers e → k.core.Numbered →
      k.Step e k' → property k.core → property k'.core)
    (path : Path NumberedStep s events s') :
    ∃ k, Refines s' k ∧ k.Inv ∧ k.core.Numbered ∧ property k.core := by
  exact rep.follow Core.Numbers (fun k => k.core.Numbered ∧ property k.core)
    (fun _ _ _ _ _ _ _ on _ => on.allowed)
    (fun k e k' inv _ ⟨numbered, holds⟩ on _ step =>
      ⟨inv.numbered_step on numbered step, keeps k k' e inv on numbered step holds⟩)
    inv ⟨numbered, initial⟩ path

theorem RunWhere.numbered {events : List Event} {s : State} (run : RunWhere (fun s e => s.core.Numbers e) events s) :
    ∃ k, Refines s k ∧ k.Inv ∧ k.core.Numbered := by
  obtain ⟨ram, s₀, started, path⟩ := run
  rw [boot_eq, Except.ok.injEq] at started
  subst started
  obtain ⟨k, rep, inv, numbered, -⟩ := (boot_refines ram).numbered_path (fun _ => True) (boot_inv ram) (boot_numbered ram)
    trivial (fun _ _ _ _ _ _ _ _ => trivial) path
  exact ⟨k, rep, inv, numbered⟩

end Zeos
