import Zeos.Family
import Zeos.Keyboard

/-! The tasks that read from the keyboard: in which order they get their characters, and
when they sleep. -/
namespace Zeos
open Circular Placement Outcome Relation

namespace Kernel

variable {c : Core} {e : Event} {k k' : Kernel} {t : Task} {h : Head}

/-- The readers, in the order in which they came. -/
abbrev readers (k : Kernel) : List Task := k.queues .readBlocked

/-- Acts outside `sys_read` and `keyboard_routine` leave the readers and the key buffer alone. -/
theorem Act.readers (act : Act c e k k') (calls : ∀ b maxchars, ¬ c.Reads b maxchars e) (keys : ∀ readInp, e ≠ .key readInp) :
    k'.readers = k.readers ∧ k'.core.kbBuffer = k.core.kbBuffer := by
  cases act with
  | aside aside => exact ⟨aside.readers, aside.kbBuffer⟩
  | wake live asleep why =>
    exact ⟨wake_queues_other (by simp) (by simp) (by simp [asleep]), by simp⟩
  | park kont call waits why =>
    refine ⟨?_, by simp⟩
    have run := call.running
    cases kont <;> simp [Kernel.readers, Kernel.park, move, enqueue, enqueue?, dequeue?, Kont.waitHead, run, TaskState.queue]
  | dispatch sound alive unserved =>
    refine ⟨by simp [Kernel.readers, sound.dispatch_lists], ?_⟩
    obtain ⟨cr3, tickCounter, core⟩ := dispatch_core k
    rw [core]
    show k.yield.core.kbBuffer = _
    unfold yield
    split <;> [split; skip] <;> simp
  | key readInp inv user why => exact absurd why (keys readInp)
  | enter b maxchars call why size => exact absurd (by rw [why]; rfl) (calls b maxchars)
  | serve b maxchars why reading enough done => exact absurd why (calls b maxchars)
  | born born => exact ⟨born.readers, born.kbBuffer⟩
  | unborn unborn => exact ⟨unborn.readers, unborn.kbBuffer⟩
  | left left => exact ⟨left.readers, left.kbBuffer⟩
  | free dead => exact ⟨by simp [Kernel.readers, enqueue], rfl⟩
  | _ => exact ⟨rfl, rfl⟩

/-- Who is to go on in `sys_read` stands in the queue, and only the first one gets the processor. -/
structure Attends (k : Kernel) : Prop where
  asleep : ∀ t b maxchars, k.core.live t → (k.core.task t).kEsp = .read b maxchars →
    (k.core.task t).currentState = .stReadblocked
  first : k.core.ct.currentState = .stReadblocked → k.readers.head? = some k.core.current

/-- One PCB changes, and not into that of a reader. -/
theorem Attends.setTask {f : TaskStruct → TaskStruct} (attends : k.Attends) (core : k'.core = k.core.setTask t f)
    (lists : k'.readers = k.readers) (plain : ∀ b maxchars, k.core.live t → (f (k.core.task t)).kEsp = .read b maxchars →
      (f (k.core.task t)).currentState = .stReadblocked)
    (state : (f (k.core.task t)).currentState = .stReadblocked → (k.core.task t).currentState = .stReadblocked) :
    k'.Attends := by
  refine ⟨fun u b maxchars live reads => ?_, fun reading => ?_⟩
  · rw [core] at live
    rw [core, Core.setTask_task] at reads ⊢
    split at reads
    · rename_i here
      rw [here] at live
      rw [if_pos here]
      exact plain b maxchars live reads
    · rename_i other
      rw [if_neg other]
      exact attends.asleep u b maxchars live reads
  · rw [lists, core, Core.setTask_current]
    apply attends.first
    rw [Core.ct, core, Core.setTask_current, Core.setTask_task] at reading
    split at reading
    · rename_i here
      rw [Core.ct, here]
      exact state reading
    · exact reading

/-- A reader does not make room, and is not ready. -/
theorem Attends.yield_state (attends : k.Attends) {b : DWord} {maxchars : Int} (live : k.core.live t)
    (reads : (k.core.task t).kEsp = .read b maxchars) : (k.yield.core.task t).currentState = .stReadblocked := by
  have asleep := attends.asleep t b maxchars live reads
  rw [yield_task]
  split
  · rename_i runs
    rw [Core.ct, ← runs.1, asleep] at runs
    simp at runs
  · exact asleep

theorem Attends.dispatch (attends : k.Attends) (sound : k.Sound none) : k.dispatch.Attends := by
  have ready := sound.next_ready
  obtain ⟨cr3, tickCounter, core⟩ := dispatch_core k
  refine ⟨fun t b maxchars live reads => ?_, fun reading => ?_⟩
  · have alive : k.core.live t := by simpa [core] using live
    have asleep := attends.yield_state alive ((dispatch_kEsp k t).symm.trans reads)
    have other : t ≠ k.next := fun here => by
      rw [here, ready] at asleep
      contradiction
    rw [core, Core.setTask_task, if_neg other]
    exact asleep
  · rw [core] at reading
    simp [Core.ct] at reading

/-- Acts outside `sys_read` and `keyboard_routine`. -/
theorem Act.attends (act : Act c e k k') (calls : ∀ b maxchars, ¬ c.Reads b maxchars e) (keys : ∀ readInp, e ≠ .key readInp)
    (attends : k.Attends) : k'.Attends := by
  have lists := (act.readers calls keys).1
  cases act with
  | aside aside =>
    refine ⟨fun t b maxchars live reads => ?_, fun reading => ?_⟩
    · rw [aside.task] at reads ⊢
      exact attends.asleep t b maxchars (by rwa [← aside.live]) reads
    · rw [lists, aside.current]
      apply attends.first
      rwa [Core.ct, aside.task, aside.current] at reading
  | save kont plain why =>
    refine attends.setTask (setTask_core _) lists (fun b maxchars _ reads => ?_) id
    exact absurd (why b maxchars reads) (calls b maxchars)
  | ret v =>
    have core : (k.sysReturn v).core = k.core.setTask k.core.current fun ts => { ts with kEsp := .user, eax := v } := rfl
    exact attends.setTask core lists (by simp) id
  | wake live asleep why =>
    refine attends.setTask wake_core lists (fun b maxchars live reads => ?_) (by simp)
    have := attends.asleep _ b maxchars live reads
    rw [asleep] at this
    contradiction
  | park kont call waits why =>
    refine attends.setTask (park_core kont) lists (fun b maxchars live reads => ?_) (by simp)
    simp only at reads
    simp [reads, Kont.waitHead] at waits
  | dispatch sound alive unserved => exact attends.dispatch sound
  | key readInp inv user why => exact absurd why (keys readInp)
  | tick zeosTick why => exact ⟨attends.asleep, attends.first⟩
  | enter b maxchars call why size => exact absurd (by rw [why]; rfl) (calls b maxchars)
  | serve b maxchars why reading enough done => exact absurd why (calls b maxchars)
  | spend why pending => exact attends.setTask (setTask_core _) lists (fun b maxchars => attends.asleep _ b maxchars) id
  | grant live awake why => exact attends.setTask (setTask_core _) lists (fun b maxchars => attends.asleep _ b maxchars) id
  | free dead => exact attends.setTask (by rw [enqueue_core, setTask_core]) lists (by simp [dead]) (by simp)
  | born born =>
    rename_i fill
    refine ⟨fun t b maxchars live reads => ?_, fun reading => ?_⟩
    · by_cases here : t = fill
      · rw [here, born.child.2.2.2.1] at reads
        contradiction
      by_cases active : t = k.core.current
      · rw [active, born.father] at reads
        contradiction
      rw [born.others t here active] at reads ⊢
      exact attends.asleep t b maxchars (by rwa [← (born.elder here).1]) reads
    · rw [lists, born.current]
      apply attends.first
      rwa [Core.ct, born.current, born.father] at reading
  | unborn unborn =>
    refine ⟨fun t b maxchars live reads => ?_, fun reading => ?_⟩
    · rw [unborn.live] at live
      rw [unborn.elder live] at reads ⊢
      exact attends.asleep t b maxchars live reads
    · rw [lists, unborn.current]
      apply attends.first
      rwa [Core.ct, unborn.current, unborn.elder unborn.alive] at reading
  | left left =>
    refine ⟨fun t b maxchars live reads => ?_, fun reading => ?_⟩
    · obtain ⟨other, live⟩ := left.stays live
      rw [left.others t other] at reads ⊢
      exact attends.asleep t b maxchars live reads
    · rw [lists, left.current]
      apply attends.first
      rwa [Core.ct, left.current, left.gone] at reading

/-- A reader goes to sleep in the loop of `sys_read`. -/
theorem Reading.sleeps (reading : k.Reading) (state : k.core.ct.currentState = .stReadblocked) (b : DWord) (maxchars : Int) :
    (k.sched (.read b maxchars)).readers = k.readers ∧
      (k.sched (.read b maxchars)).core.kbBuffer = k.core.kbBuffer ∧
      (∀ t, ((k.sched (.read b maxchars)).core.task t).kEsp =
        if t = k.core.current then .read b maxchars else (k.core.task t).kEsp) ∧
      (k.sched (.read b maxchars)).core.ct.currentState = .stRun ∧
      (k.sched (.read b maxchars)).core.current ≠ k.core.current := by
  have saved := reading.save (fun ts => { ts with kEsp := .read b maxchars }) (fun _ => ⟨rfl, rfl, rfl, rfl⟩)
    (.inl reading.task) (by simp [state]) (by simp [Core.Fits])
  have ready := saved.next_ready
  have waits : (k.core.task k.core.current).currentState = .stReadblocked := state
  let m := k.setTask k.core.current fun ts => { ts with kEsp := .read b maxchars }
  have same : m.yield = m := by simp [m, yield, Core.ct, waits]
  have buffer : m.dispatch.core.kbBuffer = k.core.kbBuffer := by
    obtain ⟨cr3, tickCounter, core⟩ := dispatch_core m
    rw [core, same]
    rfl
  have current : m.dispatch.core.current = m.next := rfl
  refine ⟨?_, buffer, fun t => ?_, ?_, ?_⟩
  · show m.dispatch.queues .readBlocked = _
    rw [saved.dispatch_lists]
    rfl
  · show (m.dispatch.core.task t).kEsp = _
    rw [dispatch_kEsp]
    by_cases here : t = k.core.current <;> simp [here, m]
  · show m.dispatch.core.ct.currentState = _
    obtain ⟨cr3, tickCounter, core⟩ := dispatch_core m
    rw [core]
    simp [Core.ct]
  · show m.dispatch.core.current ≠ _
    rw [current]
    intro here
    rw [same] at ready
    have := ready
    rw [here] at this
    simp [m, waits] at this

/-- A reader gets its characters. -/
theorem Reading.serves {core : Core} {b : DWord} {maxchars : Int} (reading : k.Reading)
    (state : k.core.ct.currentState = .stReadblocked) (done : k.core.readChars b maxchars = .ok core) :
    (((k.setCore core).start core.current).sysReturn (some maxchars)).readers = k.readers.erase k.core.current ∧
      (∀ t, t ≠ k.core.current →
        ((((k.setCore core).start core.current).sysReturn (some maxchars)).core.task t).kEsp = (k.core.task t).kEsp) := by
  have same := readChars_sameTasks (congrArg memory done)
  have waits : (k.core.task k.core.current).currentState = .stReadblocked := state
  refine ⟨?_, fun t other => ?_⟩
  · rw [readers, sysReturn_queues, start, same.current, if_neg reading.task, setCore_core, same.task, waits]
    simp [dequeue?, dequeue, TaskState.queue]
  · simp [Core.sysReturn, same.current, same.task, other]

end Kernel

/-- The call passes the checks of `sys_read`. -/
def Accepted (b : DWord) (maxchars : Int) : Prop :=
  b ≠ 0 ∧ 0 ≤ maxchars ∧ accessOk .write b (BitVec.ofInt 32 maxchars) = true

instance (b : DWord) (maxchars : Int) : Decidable (Accepted b maxchars) := inferInstanceAs (Decidable (_ ∧ _))

namespace Core

/-- The running task goes on in an accepted call of `sys_read`. -/
def Goes (c : Core) (b : DWord) (maxchars : Int) (e : Event) : Prop :=
  (e = .syscall (.read b maxchars) ∧ Accepted b maxchars) ∨ (e = .resume ∧ c.ct.kEsp = .read b maxchars)

/-- The calls of `sys_read` that are accepted with an event. -/
def issued (c : Core) : Event → List Task
  | .syscall (.read b maxchars) => if Accepted b maxchars then [c.current] else []
  | _ => []

end Core

namespace Kernel

variable {c : Core} {e : Event} {k k' : Kernel} {t : Task}

/-- What a step does for the readers: nothing, a character comes in, a call sleeps, or one
gets its characters and returns. -/
inductive ReadStep (k : Kernel) (e : Event) (k' : Kernel) : Prop where
  | apart (idle : ∀ b maxchars, ¬ k.core.Goes b maxchars e) (unpressed : ∀ readInp, e = .key readInp → keyChar readInp = none)
      (readers : k'.readers = k.readers) (kbBuffer : k'.core.kbBuffer = k.core.kbBuffer)
      (kEsp : ∀ t ∈ k.readers, (k'.core.task t).kEsp = (k.core.task t).kEsp) (attends : k'.Attends)
  | press (readInp : UInt8) (char : UInt8) (key : e = .key readInp) (pressed : keyChar readInp = some char)
      (readers : k'.readers = k.readers) (kbBuffer : k'.core.kbBuffer = k.core.kbBuffer.press char)
      (kEsp : ∀ t, (k'.core.task t).kEsp = (k.core.task t).kEsp) (live : k'.core.live = k.core.live)
      (goes : ∀ t rest, k.readers = t :: rest → k'.core.current = t)
  | sleep (b : DWord) (maxchars : Int) (goes : k.core.Goes b maxchars e) (readers : k'.readers = k.readers ++ k.core.issued e)
      (kbBuffer : k'.core.kbBuffer = k.core.kbBuffer)
      (kEsp : ∀ t, (k'.core.task t).kEsp = if t = k.core.current then .read b maxchars else (k.core.task t).kEsp)
      (unserved : (k.readers ++ k.core.issued e).head? = some k.core.current → k.core.kbBuffer.size < maxchars.toNat)
      (live : k'.core.live = k.core.live) (run : k'.core.ct.currentState = .stRun)
      (current : k'.core.current ≠ k.core.current)
  | done (b : DWord) (maxchars : Int) (entered core : Core) (goes : k.core.Goes b maxchars e)
      (first : (k.readers ++ k.core.issued e).head? = some k.core.current)
      (readers : k'.readers = (k.readers ++ k.core.issued e).tail) (enough : maxchars.toNat ≤ k.core.kbBuffer.size)
      (same : entered.kbBuffer = k.core.kbBuffer ∧ entered.mm = k.core.mm ∧ entered.cr3 = k.core.cr3)
      (read : entered.readChars b maxchars = .ok core)
      (kEsp : ∀ t, t ≠ k.core.current → (k'.core.task t).kEsp = (k.core.task t).kEsp) (live : k'.core.live = k.core.live)
      (kbBuffer : k'.core.kbBuffer = core.kbBuffer) (tmpbuff : k'.core.tmpbuff = core.tmpbuff) (mm : k'.core.mm = core.mm)
      (current : k'.core.current = k.core.current) (user : k'.core.InUser) (value : k'.core.ct.eax = some maxchars)

theorem readStep_press (k : Kernel) {readInp char : UInt8} (pressed : keyChar readInp = some char) :
    k.ReadStep (.key readInp) (k.keyboardRoutine readInp) := by
  have same (t : Task) : ((k.keyboardRoutine readInp).core.task t).kEsp = (k.core.task t).kEsp := by
    rcases keyboardRoutine_task k readInp t with same | same <;> rw [same]
    simp [yield_task]
  refine .press readInp char rfl pressed ?_ ?_ same (kin_keyboardRoutine k readInp).live ?_ <;>
    unfold Kernel.keyboardRoutine <;> rw [pressed] <;> dsimp only
  · split
    · rfl
    · show (Kernel.yield _).queues .readBlocked = _
      rw [yield_queues]
      rfl
  · split
    · rfl
    · show (Kernel.yield _).core.kbBuffer = _
      unfold Kernel.yield
      split <;> [split; skip] <;> simp
  · intro t rest first
    have first : k.queues .readBlocked = t :: rest := first
    rw [setCore_queues, first]
    rfl

/-- The waiting loop of a reader that stands in the queue; `m` is the kernel as it is in the loop. -/
theorem Reading.readStep {m : Kernel} {b : DWord} {maxchars : Int} (reading : m.Reading)
    (state : m.core.ct.currentState = .stReadblocked) (done : m.readWait b maxchars = .ok k')
    (goes : k.core.Goes b maxchars e) (readers : m.readers = k.readers ++ k.core.issued e)
    (first : m.readers.head? = some m.core.current) (current : m.core.current = k.core.current)
    (same : m.core.kbBuffer = k.core.kbBuffer ∧ m.core.mm = k.core.mm ∧ m.core.cr3 = k.core.cr3)
    (kEsp : ∀ t, t ≠ k.core.current → (m.core.task t).kEsp = (k.core.task t).kEsp) (live : m.core.live = k.core.live) :
    k.ReadStep e k' := by
  unfold Kernel.readWait at done
  split at done
  · rename_i few
    cases done
    obtain ⟨list, buffer, konts, run, gone⟩ := reading.sleeps state b maxchars
    refine .sleep b maxchars goes (list.trans readers) (buffer.trans same.1) (fun t => ?_) (fun _ => ?_)
      ((frame_sched m _).live.trans live) run ?_
    · rw [konts, current]
      split
      · rfl
      · rename_i other
        exact kEsp t other
    · rwa [← same.1]
    · rwa [← current]
  · rename_i enough
    obtain ⟨core, mem, done⟩ := bind_ok.mp done
    cases done
    have read : m.core.readChars b maxchars = .ok core := mapError_ok.mp mem
    have tasks := readChars_sameTasks mem
    obtain ⟨list, konts⟩ := reading.serves state read
    have head : m.readers = m.core.current :: m.readers.tail := by
      cases list : m.readers with
      | nil => rw [list] at first; contradiction
      | cons t rest =>
        rw [list] at first
        rw [Option.some.inj first, List.tail_cons]
    rw [head, List.erase_cons_head, readers] at list
    refine .done b maxchars m.core core goes ?_ list ?_ same read (fun t other => ?_) ?_ ?_ ?_ ?_ ?_ ?_ ?_
    · rw [← readers, ← current]
      exact first
    · rw [← same.1]
      omega
    · exact (konts t (by rwa [current])).trans (kEsp t other)
    · simp [Core.sysReturn, tasks.live, live]
    · simp [Core.sysReturn]
    · simp [Core.sysReturn, Core.setTask]
    · simp [Core.sysReturn]
    · simp [Core.sysReturn, tasks.current, current]
    · simp [Core.sysReturn, Core.InUser, Core.ct]
    · simp [Core.sysReturn, Core.ct]

theorem Inv.apart (inv : k.Inv) (allowed : k.core.Allowed e) (step : k.Step e k')
    (calls : ∀ b maxchars, ¬ k.core.Reads b maxchars e) (keys : ∀ readInp, e ≠ .key readInp) :
    k'.readers = k.readers ∧ k'.core.kbBuffer = k.core.kbBuffer ∧
      (∀ t ∈ k.readers, (k'.core.task t).kEsp = (k.core.task t).kEsp) := by
  have run : k.core.ct.currentState = .stRun := by
    rcases inv.between.state with run | ⟨_, b, maxchars, reads⟩
    · exact run
    · have inside : ¬ k.core.InUser := fun user => by
        rw [Core.InUser, reads] at user
        contradiction
      obtain ⟨enabled, _⟩ := step
      cases e with
      | resume => exact absurd reads (calls b maxchars)
      | syscall call => exact absurd enabled.1 inside
      | _ => exact absurd enabled inside
  have kept := inv.keeps (fun m => m.readers = k.readers ∧ m.core.kbBuffer = k.core.kbBuffer ∧
      ∀ t ∈ k.readers, m.core.live t ∧ (m.core.task t).kEsp = (k.core.task t).kEsp) allowed step
    (by
      rintro m m' mine act ⟨lists, buffer, konts⟩
      obtain ⟨lists', buffer'⟩ := act.readers calls keys
      refine ⟨lists'.trans lists, buffer'.trans buffer, fun t mem => ?_⟩
      obtain ⟨live, kEsp⟩ := konts t mem
      have other : t ≠ m.core.current := by
        rw [mine]
        rintro rfl
        have asleep := ((inv.placed.mem .readBlocked k.core.current).mp mem).2
        rw [Core.ct, asleep] at run
        contradiction
      exact ⟨act.stays live other, (act.others live other).1.trans kEsp⟩)
    ⟨rfl, rfl, fun t mem => ⟨((inv.placed.mem .readBlocked t).mp mem).1, rfl⟩⟩
  exact ⟨kept.1, kept.2.1, fun t mem => (kept.2.2 t mem).2⟩

theorem Attends.readStep_sysRead (attends : k.Attends) (inv : k.Inv) (call : k.core.InCall) {b : DWord} {maxchars : Int}
    (done : k.sysRead b maxchars = .ok k') : k.ReadStep (.syscall (.read b maxchars)) k' := by
  have reading := inv.toSound.reading call
  have run := call.running
  have rejected (bad : ¬ Accepted b maxchars) (v : Option Int) :
      k.ReadStep (.syscall (.read b maxchars)) (k.sysReturn v) := by
    have core : (k.sysReturn v).core = k.core.setTask k.core.current fun ts => { ts with kEsp := .user, eax := v } := rfl
    refine .apart ?_ (by simp) rfl rfl (fun t mem => ?_) (attends.setTask core rfl (by simp) id)
    · rintro b' maxchars' (⟨⟨⟩, good⟩ | ⟨⟨⟩, _⟩)
      exact bad good
    · have other : t ≠ k.core.current := by
        rintro rfl
        have asleep := ((inv.placed.mem .readBlocked k.core.current).mp mem).2
        rw [asleep] at run
        contradiction
      simp [Core.sysReturn, other]
  unfold Kernel.sysRead at done
  split at done
  · rename_i null
    cases done
    exact rejected (fun good => good.1 null) _
  rename_i pointer
  split at done
  · rename_i negative
    cases done
    exact rejected (fun good => by have := good.2.1; omega) _
  rename_i size
  split at done
  · rename_i outside
    cases done
    exact rejected (fun good => outside good.2.2) _
  rename_i inside
  have good : Accepted b maxchars := ⟨pointer, by omega, by simpa using inside⟩
  have goes : k.core.Goes b maxchars (.syscall (.read b maxchars)) := .inl ⟨rfl, good⟩
  have queued : (k.move k.core.current .readBlocked).readers = k.readers ++ k.core.issued (.syscall (.read b maxchars)) := by
    simp [readers, Core.issued, good, move, enqueue, run, TaskState.queue, dequeue?]
  have kEsp (t : Task) (other : t ≠ k.core.current) :
      ((k.move k.core.current .readBlocked).core.task t).kEsp = (k.core.task t).kEsp := by simp [other]
  dsimp only at done
  have state : (k.move k.core.current .readBlocked).core.ct.currentState = .stReadblocked := by simp [Core.ct, Head.state]
  split at done
  · rename_i behind
    cases done
    obtain ⟨list, buffer, konts, runs, gone⟩ := reading.sleeps state b maxchars
    refine .sleep b maxchars goes (list.trans queued) (buffer.trans (by simp)) (fun t => ?_) (fun first => ?_)
      ((frame_sched _ _).live.trans (by simp)) runs (by simpa using gone)
    · rw [konts]
      by_cases here : t = k.core.current <;> simp [here]
    · rw [← queued] at first
      exact absurd (by simpa using first) behind
  · rename_i first
    exact reading.readStep state done goes queued (by simpa using first) (by simp) ⟨by simp, by simp, by simp⟩ kEsp (by simp)

theorem Attends.readStep_resume (attends : k.Attends) (inv : k.Inv) {b : DWord} {maxchars : Int}
    (kEsp : k.core.ct.kEsp = .read b maxchars) (done : k.resume = .ok k') : k.ReadStep .resume k' := by
  have reading := inv.resume_reading kEsp
  have state := attends.asleep _ b maxchars inv.between.live kEsp
  have first := attends.first state
  unfold Kernel.resume at done
  rw [kEsp] at done
  refine reading.readStep ?_ done (.inr ⟨rfl, kEsp⟩) ?_ first rfl ⟨rfl, rfl, rfl⟩ (fun t other => by simp [other]) rfl
  · simpa [Core.ct] using state
  · simp [readers, Core.issued]

/-- What an allowed step does for the readers. -/
theorem Attends.readStep (attends : k.Attends) (inv : k.Inv) (allowed : k.core.Allowed e) (step : k.Step e k') :
    k.ReadStep e k' := by
  have apart (calls : ∀ b maxchars, ¬ k.core.Reads b maxchars e) (keys : ∀ readInp, e ≠ .key readInp) : k.ReadStep e k' := by
    obtain ⟨list, buffer, kEsp⟩ := inv.apart allowed step calls keys
    have kept := inv.keeps Attends allowed step (fun m m' _ act => act.attends calls keys) attends
    refine .apart (fun b maxchars goes => ?_) (fun readInp key => absurd key (keys readInp)) list buffer kEsp kept
    rcases goes with ⟨rfl, _⟩ | ⟨rfl, kEsp⟩
    · exact calls b maxchars rfl
    · exact calls b maxchars kEsp
  have enabled := step.1
  have done := step.2
  cases e with
  | clock => exact apart (fun _ _ => id) (by simp)
  | key readInp =>
    cases done
    cases pressed : keyChar readInp with
    | some char => exact readStep_press k pressed
    | none =>
      have same : k.keyboardRoutine readInp = k := by simp [Kernel.keyboardRoutine, pressed]
      rw [same]
      refine .apart (by simp [Core.Goes]) (fun r key => ?_) rfl rfl (fun _ _ => rfl) attends
      cases key
      exact pressed
  | syscall call =>
    by_cases read : ∃ b maxchars, call = .read b maxchars
    · obtain ⟨b, maxchars, rfl⟩ := read
      exact attends.readStep_sysRead inv (inv.inCall enabled.1 enabled.2.1) done
    · exact apart (fun b maxchars same => read ⟨b, maxchars, same⟩) (by simp)
  | resume =>
    by_cases read : ∃ b maxchars, k.core.ct.kEsp = .read b maxchars
    · obtain ⟨b, maxchars, kEsp⟩ := read
      exact attends.readStep_resume inv kEsp done
    · exact apart (fun b maxchars same => read ⟨b, maxchars, same⟩) (by simp)

theorem ReadStep.attends (reads : k.ReadStep e k') (inv : k.Inv) (inv' : k'.Inv) (attends : k.Attends) : k'.Attends := by
  have queued {m : Kernel} (inv : m.Inv) (t : Task) : t ∈ m.readers ↔
      m.core.live t ∧ (m.core.task t).currentState = .stReadblocked :=
    inv.placed.mem .readBlocked t
  cases reads with
  | apart idle unpressed readers kbBuffer kEsp attends' => exact attends'
  | press readInp char key pressed readers kbBuffer kEsp live goes =>
    refine ⟨fun t b maxchars alive konts => ?_, fun reading => ?_⟩
    · rw [live] at alive
      rw [kEsp] at konts
      have mem := (queued inv t).mpr ⟨alive, attends.asleep t b maxchars alive konts⟩
      exact ((queued inv' t).mp (by rwa [readers])).2
    · have mem := (queued inv' _).mpr ⟨inv'.between.live, reading⟩
      rw [readers] at mem ⊢
      obtain ⟨t, rest, list⟩ := List.exists_cons_of_ne_nil (List.ne_nil_of_mem mem)
      rw [list, goes t rest list]
      rfl
  | sleep b maxchars goes readers kbBuffer kEsp unserved live run current =>
    refine ⟨fun t b' maxchars' alive konts => ?_, fun reading => ?_⟩
    · rw [live] at alive
      rw [kEsp] at konts
      refine ((queued inv' t).mp ?_).2
      rw [readers, List.mem_append]
      split at konts
      · rename_i here
        rcases goes with ⟨rfl, good⟩ | ⟨rfl, waits⟩
        · simp [Core.issued, good, here]
        · rw [here]
          exact .inl ((queued inv _).mpr ⟨inv.between.live, attends.asleep _ b maxchars inv.between.live waits⟩)
      · exact .inl ((queued inv t).mpr ⟨alive, attends.asleep t b' maxchars' alive konts⟩)
    · rw [run] at reading
      contradiction
  | done b maxchars entered core goes first readers enough same read kEsp live kbBuffer tmpbuff mm current user value =>
    refine ⟨fun t b' maxchars' alive konts => ?_, fun reading => ?_⟩
    · by_cases here : t = k.core.current
      · rw [here, ← current] at konts
        rw [Core.InUser, Core.ct, konts] at user
        contradiction
      · rw [live] at alive
        rw [kEsp t here] at konts
        have mem := (queued inv t).mpr ⟨alive, attends.asleep t b' maxchars' alive konts⟩
        refine ((queued inv' t).mp ?_).2
        cases list : k.readers with
        | nil => rw [list] at mem; contradiction
        | cons u rest =>
          rw [list, List.cons_append, List.head?_cons, Option.some.injEq] at first
          rw [list, first] at mem
          rw [readers, list, List.cons_append, List.tail_cons]
          exact List.mem_append_left _ ((List.mem_cons.mp mem).resolve_left here)
    · rw [inv'.run user] at reading
      contradiction

end Kernel
/-- The loop that fills `tmpbuff` takes the oldest characters of the buffer. -/
theorem popChars_taken (n : Nat) {i : Nat} {c c' : Core} (valid : c.kbBuffer.InBounds) (enough : n ≤ c.kbBuffer.size)
    (done : c.popChars i n = .ok c') : c'.kbBuffer.InBounds ∧ c'.kbBuffer.size + n = c.kbBuffer.size ∧
      c'.mm = c.mm ∧ c'.cr3 = c.cr3 ∧ (∀ j < i, c'.tmpbuff j = c.tmpbuff j) ∧
      c.kbBuffer.contents = (List.range n).map (fun j => c'.tmpbuff (i + j)) ++ c'.kbBuffer.contents := by
  induction n generalizing i c with
  | zero =>
    cases done
    exact ⟨valid, rfl, rfl, rfl, fun _ _ => rfl, by simp⟩
  | succ n ih =>
    unfold Core.popChars at done
    split at done
    · have shrunk := KeyBuffer.size_pop valid (by omega)
      dsimp only at done
      generalize next : ({ c with
        kbBuffer := c.kbBuffer.pop.2
        tmpbuff := Function.update c.tmpbuff i c.kbBuffer.pop.1 } : Core) = d at done
      have buffer : d.kbBuffer = c.kbBuffer.pop.2 := by rw [← next]
      have cells : d.tmpbuff = Function.update c.tmpbuff i c.kbBuffer.pop.1 := by rw [← next]
      obtain ⟨valid', size, mm, cr3, before, contents⟩ := ih (buffer ▸ valid.pop) (by rw [buffer]; omega) done
      have first : c'.tmpbuff i = c.kbBuffer.pop.1 := by rw [before i (by omega), cells]; simp
      refine ⟨valid', by rw [buffer] at size; omega, by rw [mm, ← next], by rw [cr3, ← next], fun j below => ?_, ?_⟩
      · rw [before j (by omega), cells, Function.update_apply, if_neg (Nat.ne_of_lt below)]
      · rw [KeyBuffer.contents_pop valid (by omega), ← buffer, contents, List.range_succ_eq_map, List.map_cons,
          List.map_map, List.cons_append, ← first]
        congr 2
        apply List.map_congr_left
        intro j _
        simp only [Function.comp_apply, Nat.succ_eq_add_one]
        congr 1
        omega
    · contradiction

/-- `copy_to_user` of the characters. -/
def Mm.deliver (mm : Mm) (d : Dir) (b : DWord) (chars : List UInt8) : Except MemFault Mm :=
  (List.range chars.length).foldlM (fun mm k => mm.storeByte d (b + BitVec.ofNat 32 k) (chars.getD k 0)) mm

theorem foldlM_congr {α β ε : Type} {f g : β → α → Except ε β} (xs : List α) (same : ∀ x ∈ xs, ∀ m, f m x = g m x) (m : β) :
    xs.foldlM f m = xs.foldlM g m := by
  induction xs generalizing m with
  | nil => rfl
  | cons x xs ih =>
    rw [List.foldlM_cons, List.foldlM_cons, same x List.mem_cons_self]
    congr 1
    funext m'
    exact ih (fun y mem => same y (List.mem_cons_of_mem x mem)) m'

theorem readChars_taken {b : DWord} {maxchars : Int} {c c' : Core} (valid : c.kbBuffer.InBounds)
    (enough : maxchars.toNat ≤ c.kbBuffer.size) (done : c.readChars b maxchars = .ok c') :
    c'.kbBuffer.InBounds ∧ c'.kbBuffer.size + maxchars.toNat = c.kbBuffer.size ∧
      c.kbBuffer.contents = (List.range maxchars.toNat).map c'.tmpbuff ++ c'.kbBuffer.contents ∧
      c.mm.deliver c.cr3 b ((List.range maxchars.toNat).map c'.tmpbuff) = .ok c'.mm := by
  obtain ⟨m, pops, copy⟩ := bind_ok.mp done
  obtain ⟨mm, copied, finish⟩ := bind_ok.mp copy
  cases finish
  obtain ⟨valid', size, sameMm, cr3, _, contents⟩ := popChars_taken maxchars.toNat valid enough pops
  refine ⟨valid', size, by simpa using contents, ?_⟩
  rw [← copied, sameMm, cr3]
  unfold Mm.deliver
  rw [List.length_map, List.length_range]
  apply foldlM_congr
  intro j mem mm
  have below := List.mem_range.mp mem
  simp [List.getD_eq_getElem?_getD, below]

namespace Kernel

variable {e : Event} {k k' : Kernel}

/-- The buffer does not hold what the first reader asks for, or the reader has the processor
and asks for all of it; those behind ask for some character. -/
structure Patient (k : Kernel) : Prop where
  valid : k.core.kbBuffer.InBounds
  first : ∀ t rest, k.readers = t :: rest → ∃ b maxchars, (k.core.task t).kEsp = .read b maxchars ∧
    (k.core.kbBuffer.size < maxchars.toNat ∨ t = k.core.current ∧ k.core.kbBuffer.size ≤ maxchars.toNat)
  behind : ∀ t ∈ k.readers.tail, ∃ b maxchars, (k.core.task t).kEsp = .read b maxchars ∧ 0 < maxchars.toNat

end Kernel

/-- No call of `sys_read` asks for nothing while another one sleeps. -/
def Core.Asks (c : Core) : Event → Prop
  | .syscall (.read b maxchars) => Accepted b maxchars → maxchars = 0 → ∀ t, c.live t → (c.task t).currentState ≠ .stReadblocked
  | _ => True

instance (c : Core) (e : Event) : Decidable (c.Asks e) := by
  unfold Core.Asks
  apply e.decidable

def Core.Prompt (c : Core) (e : Event) : Prop := c.Allowed e ∧ c.Asks e

instance (c : Core) (e : Event) : Decidable (c.Prompt e) := inferInstanceAs (Decidable (_ ∧ _))

namespace Kernel

variable {e : Event} {k k' : Kernel}

theorem boot_patient (ram : Nat → Nat → UInt8) : (bootKernel ram).Attends ∧ (bootKernel ram).Patient := by
  have alive (t : Task) (live : (bootCore ram).live t) : ((bootCore ram).task t).kEsp = .user := by
    rcases live_boot ram live with rfl | rfl
    · rw [boot_idle]
    · rw [boot_task1]
  have buffer : (bootCore ram).kbBuffer.InBounds := by
    have : booted.core.kbBuffer.head < kbBufferSize ∧ booted.core.kbBuffer.tail < kbBufferSize := by decide +kernel
    exact this
  refine ⟨⟨fun t b maxchars live reads => ?_, fun reading => ?_⟩, buffer, fun t rest first => ?_, fun t behind => ?_⟩
  · rw [bootKernel, alive t live] at reads
    contradiction
  · rw [Core.ct, bootKernel, boot_current, boot_task1] at reading
    contradiction
  · contradiction
  · contradiction

/-- Who calls `sys_read` does not stand in the queue. -/
theorem Inv.awake (inv : k.Inv) (user : k.core.InUser) : k.core.current ∉ k.readers := fun mem => by
  have asleep := ((inv.placed.mem .readBlocked k.core.current).mp mem).2
  have run : (k.core.task k.core.current).currentState = .stRun := inv.run user
  rw [asleep] at run
  contradiction

theorem Patient.short (patient : k.Patient) (user : k.core.InUser) {t : Task} {rest : List Task} (list : k.readers = t :: rest) :
    ∃ b maxchars, (k.core.task t).kEsp = .read b maxchars ∧ k.core.kbBuffer.size < maxchars.toNat := by
  obtain ⟨b, maxchars, waits, short⟩ := patient.first t rest list
  refine ⟨b, maxchars, waits, short.resolve_right ?_⟩
  rintro ⟨rfl, _⟩
  rw [Core.InUser, Core.ct, waits] at user
  contradiction

theorem Patient.apart (patient : k.Patient) (idle : ∀ b maxchars, ¬ k.core.Goes b maxchars e) (step : k.Step e k')
    (readers : k'.readers = k.readers) (kbBuffer : k'.core.kbBuffer = k.core.kbBuffer)
    (kEsp : ∀ t ∈ k.readers, (k'.core.task t).kEsp = (k.core.task t).kEsp) : k'.Patient := by
  refine ⟨by rw [kbBuffer]; exact patient.valid, fun t rest list => ?_, fun t behind => ?_⟩
  · rw [readers] at list
    obtain ⟨b, maxchars, waits, short⟩ := patient.first t rest list
    refine ⟨b, maxchars, by rw [kEsp t (by rw [list]; exact List.mem_cons_self), waits], .inl ?_⟩
    rw [kbBuffer]
    apply short.resolve_right
    rintro ⟨rfl, _⟩
    have waits : k.core.ct.kEsp = .read b maxchars := waits
    have kernel : ¬ k.core.InUser := fun user => by rw [Core.InUser, waits] at user; contradiction
    obtain ⟨enabled, _⟩ := step
    cases e with
    | resume => exact idle b maxchars (.inr ⟨rfl, waits⟩)
    | syscall call => exact kernel enabled.1
    | _ => exact kernel enabled
  · rw [readers] at behind
    rw [kEsp t (List.mem_of_mem_tail behind)]
    exact patient.behind t behind

theorem Patient.press (patient : k.Patient) (user : k.core.InUser) {char : UInt8} (readers : k'.readers = k.readers)
    (kbBuffer : k'.core.kbBuffer = k.core.kbBuffer.press char) (kEsp : ∀ t, (k'.core.task t).kEsp = (k.core.task t).kEsp)
    (goes : ∀ t rest, k.readers = t :: rest → k'.core.current = t) : k'.Patient := by
  have small := KeyBuffer.size_lt patient.valid
  have held : k'.core.kbBuffer = k.core.kbBuffer.push char := by rw [kbBuffer, KeyBuffer.press, if_pos small]
  have size := KeyBuffer.size_push patient.valid char
  rw [← held] at size
  refine ⟨by rw [held]; exact patient.valid.push char, fun t rest list => ?_, fun t behind => ?_⟩
  · rw [readers] at list
    obtain ⟨b, maxchars, waits, short⟩ := patient.short user list
    refine ⟨b, maxchars, by rw [kEsp, waits], .inr ⟨(goes t rest list).symm, ?_⟩⟩
    split at size <;> omega
  · rw [readers] at behind
    rw [kEsp]
    exact patient.behind t behind

/-- A call sleeps behind those that came before. -/
theorem Patient.calls (patient : k.Patient) (inv : k.Inv) (user : k.core.InUser) {b : DWord} {maxchars : Int}
    (asks : k.readers ≠ [] → 0 < maxchars.toNat)
    (readers : k'.readers = k.readers ++ [k.core.current]) (kbBuffer : k'.core.kbBuffer = k.core.kbBuffer)
    (kEsp : ∀ t, (k'.core.task t).kEsp = if t = k.core.current then .read b maxchars else (k.core.task t).kEsp)
    (unserved : (k.readers ++ [k.core.current]).head? = some k.core.current → k.core.kbBuffer.size < maxchars.toNat) :
    k'.Patient := by
  have outside := inv.awake user
  refine ⟨by rw [kbBuffer]; exact patient.valid, fun t rest list => ?_, fun t behind => ?_⟩
  · rw [readers] at list
    rw [kbBuffer, kEsp]
    cases queue : k.readers with
    | nil =>
      rw [queue] at list unserved
      cases list
      exact ⟨b, maxchars, if_pos rfl, .inl (unserved rfl)⟩
    | cons u others =>
      rw [queue] at list
      cases list
      rw [if_neg (fun same => outside (by rw [queue, same]; exact List.mem_cons_self))]
      obtain ⟨b, maxchars, waits, short⟩ := patient.short user queue
      exact ⟨b, maxchars, waits, .inl short⟩
  · rw [kEsp]
    cases queue : k.readers with
    | nil =>
      rw [readers, queue] at behind
      contradiction
    | cons u others =>
      rw [readers, queue, List.cons_append, List.tail_cons, List.mem_append, List.mem_singleton] at behind
      rcases behind with behind | rfl
      · rw [if_neg (fun same => outside (by rw [queue, ← same]; exact List.mem_cons_of_mem u behind))]
        exact patient.behind t (by rw [queue]; exact behind)
      · exact ⟨b, maxchars, if_pos rfl, asks (by simp [queue])⟩

/-- The first reader goes back to sleep. -/
theorem Patient.waits (patient : k.Patient) (inv : k.Inv) {b : DWord} {maxchars : Int}
    (first : k.readers.head? = some k.core.current)
    (readers : k'.readers = k.readers) (kbBuffer : k'.core.kbBuffer = k.core.kbBuffer)
    (kEsp : ∀ t, (k'.core.task t).kEsp = if t = k.core.current then .read b maxchars else (k.core.task t).kEsp)
    (unserved : k.core.kbBuffer.size < maxchars.toNat) : k'.Patient := by
  refine ⟨by rw [kbBuffer]; exact patient.valid, fun t rest list => ?_, fun t behind => ?_⟩
  · rw [readers] at list
    rw [list, List.head?_cons, Option.some.injEq] at first
    rw [kbBuffer, kEsp, if_pos first]
    exact ⟨b, maxchars, rfl, .inl unserved⟩
  · rw [readers] at behind
    obtain ⟨u, rest, list⟩ := List.exists_cons_of_ne_nil (List.ne_nil_of_mem (List.mem_of_mem_tail behind))
    rw [list, List.head?_cons, Option.some.injEq] at first
    have alone : (u :: rest).Nodup := by rw [← list]; exact inv.placed.nodup .readBlocked
    have other : t ≠ k.core.current := by
      rintro rfl
      rw [list, List.tail_cons, ← first] at behind
      exact (List.nodup_cons.mp alone).1 behind
    rw [kEsp, if_neg other]
    exact patient.behind t behind

/-- The first reader takes all there is. -/
theorem Patient.leaves (patient : k.Patient) (inv : k.Inv) {b : DWord} {maxchars : Int}
    (waits : k.core.ct.kEsp = .read b maxchars)
    (first : k.readers.head? = some k.core.current) (readers : k'.readers = k.readers.tail)
    (valid : k'.core.kbBuffer.InBounds) (left : k'.core.kbBuffer.size + maxchars.toNat = k.core.kbBuffer.size)
    (kEsp : ∀ t, t ≠ k.core.current → (k'.core.task t).kEsp = (k.core.task t).kEsp) : k'.Patient := by
  obtain ⟨rest, list⟩ : ∃ rest, k.readers = k.core.current :: rest := List.head?_eq_some_iff.mp first
  have empty : k'.core.kbBuffer.size = 0 := by
    obtain ⟨b', maxchars', waits', short⟩ := patient.first _ _ list
    have same := waits.symm.trans waits'
    cases same
    omega
  have alone : (k.core.current :: rest).Nodup := by rw [← list]; exact inv.placed.nodup .readBlocked
  have asks (t : Task) (mem : t ∈ rest) : ∃ b maxchars, (k'.core.task t).kEsp = .read b maxchars ∧ 0 < maxchars.toNat := by
    rw [kEsp t (fun same => (List.nodup_cons.mp alone).1 (by rwa [← same]))]
    exact patient.behind t (by rwa [list])
  rw [list, List.tail_cons] at readers
  refine ⟨valid, fun t others queue => ?_, fun t behind => ?_⟩
  · obtain ⟨b, maxchars, waits, some⟩ := asks t (by rw [← readers, queue]; exact List.mem_cons_self)
    exact ⟨b, maxchars, waits, .inl (by rw [empty]; exact some)⟩
  · rw [readers] at behind
    exact asks t (List.mem_of_mem_tail behind)

theorem Patient.step (patient : k.Patient) (attends : k.Attends) (inv : k.Inv) (prompt : k.core.Prompt e)
    (step : k.Step e k') : k'.Patient := by
  cases attends.readStep inv prompt.1 step with
  | apart idle unpressed readers kbBuffer kEsp attends' => exact patient.apart idle step readers kbBuffer kEsp
  | press readInp char key pressed readers kbBuffer kEsp live goes =>
    subst key
    exact patient.press step.1 readers kbBuffer kEsp goes
  | sleep b maxchars goes readers kbBuffer kEsp unserved live run current =>
    rcases goes with ⟨rfl, good⟩ | ⟨rfl, waits⟩
    · have issued : k.core.issued (.syscall (.read b maxchars)) = [k.core.current] := if_pos good
      rw [issued] at readers unserved
      refine patient.calls inv step.1.1 (fun some => ?_) readers kbBuffer kEsp unserved
      by_contra none
      have zero : maxchars = 0 := by have := good.2.1; omega
      subst zero
      obtain ⟨t, mem⟩ := List.exists_mem_of_ne_nil _ some
      obtain ⟨live, asleep⟩ := (inv.placed.mem .readBlocked t).mp mem
      exact prompt.2 good rfl t live asleep
    · have first := attends.first (attends.asleep _ b maxchars inv.between.live waits)
      have issued : k.core.issued .resume = [] := rfl
      rw [issued, List.append_nil] at readers unserved
      exact patient.waits inv first readers kbBuffer kEsp (unserved first)
  | done b maxchars entered core goes first readers enough same read kEsp live kbBuffer tmpbuff mm current user value =>
    obtain ⟨valid, left, _⟩ := readChars_taken (by rw [same.1]; exact patient.valid) (by rw [same.1]; exact enough) read
    rw [← kbBuffer, same.1] at left
    rw [← kbBuffer] at valid
    rcases goes with ⟨rfl, good⟩ | ⟨rfl, waits⟩
    · have issued : k.core.issued (.syscall (.read b maxchars)) = [k.core.current] := if_pos good
      rw [issued] at first readers
      have none : k.readers = [] := by
        cases queue : k.readers with
        | nil => rfl
        | cons t rest =>
          rw [queue, List.cons_append, List.head?_cons, Option.some.injEq] at first
          exact absurd (by rw [queue, first]; exact List.mem_cons_self) (inv.awake step.1.1)
      rw [none] at readers
      exact ⟨valid, fun t rest list => by rw [readers] at list; contradiction,
        fun t behind => by rw [readers] at behind; contradiction⟩
    · have issued : k.core.issued .resume = [] := rfl
      rw [issued, List.append_nil] at first readers
      exact patient.leaves inv waits first readers valid left kEsp

end Kernel

/-- `read_blocked` is empty, or its first task asks for more than the key buffer holds. -/
def State.Waits (s : State) : Prop :=
  s.links.next (.head .readBlocked) = .head .readBlocked ∨
    ∃ t b maxchars, s.links.next (.head .readBlocked) = .list t ∧ (s.core.task t).kEsp = .read b maxchars ∧
      (s.core.kbBuffer.size : Int) < maxchars

theorem waits_of_prompt {events : List Event} {s : State} (run : RunWhere (fun s e => s.core.Prompt e) events s)
    (user : s.core.InUser) : s.Waits := by
  obtain ⟨k, rep, inv, attends, patient⟩ := run.invariant Core.Prompt (fun k => k.Attends ∧ k.Patient) Kernel.boot_patient
    (fun _ _ _ _ prompt => prompt.1)
    (fun k e k' inv inv' ⟨attends, patient⟩ prompt step =>
      ⟨(attends.readStep inv prompt.1 step).attends inv inv' attends, patient.step attends inv prompt step⟩)
  have next := rep.next_first (h := .readBlocked) (rep.main _ rfl)
  rw [rep.core] at user
  unfold State.Waits
  rw [rep.core, next]
  cases list : k.readers with
  | nil =>
    have list : k.queues .readBlocked = [] := list
    exact .inl (by rw [list]; rfl)
  | cons t rest =>
    obtain ⟨b, maxchars, waits, short⟩ := patient.short user list
    have list : k.queues .readBlocked = t :: rest := list
    exact .inr ⟨t, b, maxchars, by rw [list]; rfl, waits, by omega⟩

/-- `task1` and its child read. -/
def readTwice (maxchars : Int) : List Event :=
  [.syscall .fork, .syscall (.read 0x100000 1), .syscall (.read 0x100000 maxchars), .key 16, .resume]

/-- The first reader has its character, and the second one waits for the next. -/
theorem waits_of_readTwice : ∃ s, RunWhere (fun s e => s.core.Prompt e) (readTwice 1) s ∧ s.core.InUser ∧ s.Waits := by
  obtain ⟨s, run, checked⟩ := executeBoot_run (fun s e => s.core.Prompt e) (readTwice 1) (fun s => s.core.InUser)
    (by decide +kernel)
  simp only [decide_eq_true_eq] at run checked
  exact ⟨s, run, checked, waits_of_prompt run checked⟩

/-- The second reader asks for nothing, and sleeps. -/
theorem unserved_readTwice : ∃ s, Run (readTwice 0) s ∧ s.core.InUser ∧ ¬ s.Waits := by
  obtain ⟨s, run, checked⟩ := executeBoot_run (fun _ _ => true) (readTwice 0)
    (fun s => s.core.InUser ∧ s.links.next (.head .readBlocked) = .list 2 ∧ (s.core.task 2).kEsp = .read 0x100000 0)
    (by decide +kernel)
  simp only [decide_eq_true_eq] at checked
  obtain ⟨user, first, kEsp⟩ := checked
  refine ⟨s, run.run, user, ?_⟩
  rintro (none | ⟨t, b, maxchars, next, waits, short⟩)
  · rw [first] at none
    contradiction
  · rw [first, Node.list.injEq] at next
    rw [← next, kEsp, Kont.read.injEq] at waits
    rw [← waits.2] at short
    omega

end Zeos
