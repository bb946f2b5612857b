import Zeos.Memory

/-! What a step of the kernel is made of. Every allowed step is a sequence of acts, each
with the reason the code has for it: what holds of all acts holds of all steps. -/
namespace Zeos
open Placement Outcome Relation

namespace Core

/-- The call of `sys_read` that a step goes on with. -/
def Reads (c : Core) (b : DWord) (maxchars : Int) : Event → Prop
  | .syscall call => call = .read b maxchars
  | .resume => c.ct.kEsp = .read b maxchars
  | _ => False

/-- Why a sleeping task is woken: its sleep in `sys_block` ends with its father's
`sys_unblock`, its sleep in `sys_wait_thread` with the exit of the task it waits for. -/
def Wakes (c : Core) (t : Task) (e : Event) : Prop :=
  ((c.task t).kEsp = .block ∧ (c.task t).pare = some c.current ∧
    ∃ pid, e = .syscall (.unblock pid) ∧ (c.task t).pid = pid) ∨
  ((c.task t).kEsp = .waitThread c.current ∧ c.live c.current = false) ∨
  ∃ i, (c.task t).kEsp = .semWait i

end Core

namespace Kernel

/-- The ready queue and the queue of the readers stay. -/
structure SameLines (k k' : Kernel) : Prop where
  ready : k'.queues .readyqueue = k.queues .readyqueue
  readers : k'.queues .readBlocked = k.queues .readBlocked

/-- Memory, semaphores and the clock. -/
structure Aside (k k' : Kernel) : Prop extends SameLines k k' where
  task : k'.core.task = k.core.task
  live : k'.core.live = k.core.live
  current : k'.core.current = k.core.current
  pidGlobal : k'.core.pidGlobal = k.core.pidGlobal
  tickCounter : k'.core.tickCounter = k.core.tickCounter
  kbBuffer : k'.core.kbBuffer = k.core.kbBuffer

/-- A free PCB becomes a child of the running task, which returns. -/
structure Born (k : Kernel) (fill : Task) (k' : Kernel) : Prop where
  dead : k.core.live fill = false
  alive : k.core.live k.core.current
  positive : 0 < k.core.pidGlobal
  live : k'.core.live = Function.update k.core.live fill true
  others : ∀ t, t ≠ fill → t ≠ k.core.current → k'.core.task t = k.core.task t
  father : k'.core.task k.core.current = { k.core.ct with kEsp := .user, eax := some k.core.pidGlobal }
  child : (k'.core.task fill).pid = k.core.pidGlobal ∧ (k'.core.task fill).pare = some k.core.current ∧
    (k'.core.task fill).currentState = .stReady ∧ (k'.core.task fill).kEsp = .user ∧
    (k'.core.task fill).pendingUnblocks = 0 ∧ (k'.core.task fill).quantum = defaultQuantumTicks
  current : k'.core.current = k.core.current
  pidGlobal : k'.core.pidGlobal = int32 (k.core.pidGlobal + 1)
  tickCounter : k'.core.tickCounter = k.core.tickCounter
  kbBuffer : k'.core.kbBuffer = k.core.kbBuffer
  ready : k'.queues .readyqueue = k.queues .readyqueue ++ [fill]
  readers : k'.queues .readBlocked = k.queues .readBlocked

/-- A free PCB keeps a copy of the running task's when there is no memory for a child. -/
structure Unborn (k : Kernel) (fill : Task) (k' : Kernel) : Prop extends SameLines k k' where
  dead : k.core.live fill = false
  alive : k.core.live k.core.current
  others : ∀ t, t ≠ fill → k'.core.task t = k.core.task t
  copy : (k'.core.task fill).pid = k.core.ct.pid
  live : k'.core.live = k.core.live
  current : k'.core.current = k.core.current
  pidGlobal : k'.core.pidGlobal = k.core.pidGlobal
  tickCounter : k'.core.tickCounter = k.core.tickCounter
  kbBuffer : k'.core.kbBuffer = k.core.kbBuffer

/-- The running task leaves: its children become those of the idle task. -/
structure Left (k k' : Kernel) : Prop extends SameLines k k' where
  alive : k.core.live k.core.current
  task : k.core.current ≠ idleTask
  live : k'.core.live = Function.update k.core.live k.core.current false
  others : ∀ t, t ≠ k.core.current → k'.core.task t = { k.core.task t with
    pare := if k.core.live t ∧ (k.core.task t).pare = some k.core.current then some idleTask else (k.core.task t).pare }
  gone : k'.core.task k.core.current = { k.core.ct with pid := -1, dirPagesBaseAddr := none, pare := none }
  current : k'.core.current = k.core.current
  pidGlobal : k'.core.pidGlobal = k.core.pidGlobal
  tickCounter : k'.core.tickCounter = k.core.tickCounter
  kbBuffer : k'.core.kbBuffer = k.core.kbBuffer

/-- The acts of a step with event `e` from the core `c`. -/
inductive Act (c : Core) (e : Event) : Kernel → Kernel → Prop where
  | aside {k k' : Kernel} (aside : k.Aside k') : Act c e k k'
  | save {k : Kernel} (kont : Kont) (plain : kont.waitHead = none ∧ kont ≠ .block)
      (why : ∀ b maxchars, kont = .read b maxchars → c.Reads b maxchars e) :
      Act c e k (k.setTask k.core.current fun ts => { ts with kEsp := kont })
  | ret {k : Kernel} (v : Option Int) : Act c e k (k.sysReturn v)
  | wake {k : Kernel} {t : Task} (live : k.core.live t) (asleep : (k.core.task t).currentState = .stBlocked)
      (why : k.core.Wakes t e) : Act c e k (k.wake t)
  | park {k : Kernel} (kont : Kont) (call : k.core.InCall) (waits : kont = .block ∨ kont.waitHead.isSome)
      (why : kont = .block → e = .syscall .block ∧ k.core.ct.pendingUnblocks ≤ 0)
      (who : kont.waitHead.isSome → (∃ pid, e = .syscall (.waitThread pid)) ∨ ∃ semid, e = .syscall (.semWait semid)) :
      Act c e k (k.park kont)
  | dispatch {k : Kernel} (sound : k.Sound none) (alive : k.core.live k.core.current ∨ k.core.ct.currentState ≠ .stRun)
      (unserved : ∀ b maxchars, k.core.ct.kEsp = .read b maxchars →
        (k.queues .readBlocked).head? = some k.core.current → k.core.kbBuffer.size < maxchars.toNat) :
      Act c e k k.dispatch
  | key {k : Kernel} (readInp : UInt8) (inv : k.Inv) (user : k.core.InUser) (why : e = .key readInp) :
      Act c e k (k.keyboardRoutine readInp)
  | tick {k : Kernel} (zeosTick : Int) (why : e = .clock) : Act c e k (k.setCore { k.core with
      zeosTick, tickCounter := if 0 < k.core.tickCounter then k.core.tickCounter - 1 else k.core.tickCounter })
  | enter {k : Kernel} (b : DWord) (maxchars : Int) (call : k.core.InCall) (why : e = .syscall (.read b maxchars))
      (size : 0 ≤ maxchars) : Act c e k (k.move k.core.current .readBlocked)
  | serve {k : Kernel} {core : Core} (b : DWord) (maxchars : Int) (why : c.Reads b maxchars e)
      (reading : k.Reading) (enough : maxchars.toNat ≤ k.core.kbBuffer.size)
      (done : k.core.readChars b maxchars = .ok core) : Act c e k ((k.setCore core).start core.current)
  | spend {k : Kernel} (why : e = .syscall .block) (pending : 0 < k.core.ct.pendingUnblocks) :
      Act c e k (k.setTask k.core.current fun t => { t with pendingUnblocks := int32 (t.pendingUnblocks - 1) })
  | grant {k : Kernel} {t : Task} (live : k.core.live t) (awake : (k.core.task t).currentState ≠ .stBlocked)
      (why : (k.core.task t).pare = some k.core.current ∧ e = .syscall (.unblock (k.core.task t).pid)) :
      Act c e k (k.setTask t fun t => { t with pendingUnblocks := int32 (t.pendingUnblocks + 1) })
  | born {k k' : Kernel} {fill : Task} (born : k.Born fill k') : Act c e k k'
  | unborn {k k' : Kernel} {fill : Task} (unborn : k.Unborn fill k') : Act c e k k'
  | left {k k' : Kernel} (left : k.Left k') : Act c e k k'
  | free {k : Kernel} (dead : k.core.live k.core.current = false) : Act c e k
      ((k.setTask k.core.current fun t => { t with currentState := .stFree }).enqueue .freequeue k.core.current)

/-- Acts of the task that runs when the step begins. -/
abbrev Acts (c : Core) (e : Event) : Kernel → Kernel → Prop :=
  ReflTransGen fun k k' => k.core.current = c.current ∧ Act c e k k'

variable {c core : Core} {e : Event} {k k' : Kernel} {t : Task}

theorem Born.elder {fill : Task} (born : k.Born fill k') (other : t ≠ fill) :
    k'.core.live t = k.core.live t ∧ (k'.core.task t).pid = (k.core.task t).pid ∧
      (k'.core.task t).pare = (k.core.task t).pare ∧ (k'.core.task t).quantum = (k.core.task t).quantum := by
  refine ⟨by simp [born.live, other], ?_⟩
  by_cases active : t = k.core.current
  · rw [active, born.father]
    exact ⟨rfl, rfl, rfl⟩
  · rw [born.others t other active]
    exact ⟨rfl, rfl, rfl⟩

theorem Born.ne {fill : Task} (born : k.Born fill k') (live : k.core.live t) : t ≠ fill := fun same => by
  simp [same, born.dead] at live

theorem Unborn.elder {fill : Task} (unborn : k.Unborn fill k') (live : k.core.live t) : k'.core.task t = k.core.task t :=
  unborn.others t fun same => by simp [same, unborn.dead] at live

theorem Left.stays (left : k.Left k') (live : k'.core.live t) : t ≠ k.core.current ∧ k.core.live t := by
  rw [left.live, Function.update_apply] at live
  split at live
  · contradiction
  · rename_i other
    exact ⟨other, live⟩

theorem Left.pid (left : k.Left k') (other : t ≠ k.core.current) : (k'.core.task t).pid = (k.core.task t).pid := by
  rw [left.others t other]

theorem acts_one (mine : k.core.current = c.current) (act : Act c e k k') : Acts c e k k' := .single ⟨mine, act⟩

theorem acts_ret (mine : k.core.current = c.current) (v : Option Int) : Acts c e k (k.sysReturn v) :=
  acts_one mine (.ret v)

theorem acts_sem (mine : k.core.current = c.current) (i : SemIndex) (f : Semaphore → Semaphore) :
    Acts c e k (k.setSem i f) := acts_one mine (.aside ⟨⟨rfl, rfl⟩, rfl, rfl, rfl, rfl, rfl, rfl⟩)

/-- A call of the scheduler. -/
theorem Sound.acts_sched (sound : k.Sound none) (mine : k.core.current = c.current) (kont : Kont)
    (alive : k.core.live k.core.current ∨
    k.core.ct.currentState ≠ .stRun) (other : k.core.current ≠ idleTask ∨ kont = .user)
    (awake : k.core.ct.currentState ≠ .stBlocked) (fits : k.core.live k.core.current → k.core.Fits k.core.current kont)
    (plain : kont.waitHead = none ∧ kont ≠ .block) (why : ∀ b maxchars, kont = .read b maxchars → c.Reads b maxchars e)
    (unserved : ∀ b maxchars, kont = .read b maxchars →
      (k.queues .readBlocked).head? = some k.core.current → k.core.kbBuffer.size < maxchars.toNat) :
    Acts c e k (k.sched kont) := by
  have saved := sound.save (fun ts => { ts with kEsp := kont }) (fun _ => ⟨rfl, rfl, rfl, rfl⟩) other awake fits
  have first : Act c e k (k.setTask k.core.current fun ts => { ts with kEsp := kont }) := .save kont plain why
  refine (acts_one mine first).tail ⟨mine, .dispatch saved ?_ ?_⟩
  · simpa [Core.ct] using alive
  · simpa [Core.ct] using unserved

theorem Sound.acts_schedCall (sound : k.Sound none) (call : k.core.InCall) (mine : k.core.current = c.current) (kont : Kont)
    (fits : k.core.Fits k.core.current kont) (plain : kont.waitHead = none ∧ kont ≠ .block)
    (calm : ∀ b maxchars, kont ≠ .read b maxchars) : Acts c e k (k.sched kont) :=
  sound.acts_sched mine kont (.inl call.live) (.inl call.task) (by simp [call.run]) (fun _ => fits) plain
    (fun b maxchars same => absurd same (calm b maxchars)) fun b maxchars same => absurd same (calm b maxchars)

theorem Sound.acts_park (sound : k.Sound none) (call : k.core.InCall) (mine : k.core.current = c.current) (kont : Kont)
    (fits : k.core.Fits k.core.current kont) (valid : ∀ h, kont.waitHead = some h → k.core.Valid h)
    (waits : kont = .block ∨ kont.waitHead.isSome)
    (why : kont = .block → e = .syscall .block ∧ k.core.ct.pendingUnblocks ≤ 0)
    (who : kont.waitHead.isSome → (∃ pid, e = .syscall (.waitThread pid)) ∨ ∃ semid, e = .syscall (.semWait semid)) :
    Acts c e k (k.park kont).dispatch := by
  have parked := sound.park call kont fits valid
  refine (acts_one mine (.park kont call waits why who)).tail ⟨by simpa using mine, .dispatch parked ?_ ?_⟩
  · exact .inl (by simpa using call.live)
  · intro b maxchars reading
    simp only [Core.ct, park_core, Core.setTask_task, Core.setTask_current, if_true] at reading
    rw [reading] at waits
    simp [Kont.waitHead] at waits

theorem Sound.acts_wakeFirst (sound : k.Sound none) (mine : k.core.current = c.current) {i : SemIndex} {rest : List Task}
    (first : k.queues (.blockedThreads i) = t :: rest) : Acts c e k (k.wake t) := by
  obtain ⟨live, asleep, kEsp⟩ := sound.first_blocked first
  exact acts_one mine (.wake live asleep (.inr (.inr ⟨i, kEsp⟩)))

theorem Inv.acts_keyboardRoutine (inv : k.Inv) (user : k.core.InUser) (readInp : UInt8) :
    Acts k.core (.key readInp) k (k.keyboardRoutine readInp) := acts_one rfl (.key readInp inv user rfl)

theorem Inv.acts_clockRoutine (inv : k.Inv) (user : k.core.InUser) : Acts k.core .clock k k.clockRoutine := by
  let ticked := k.setCore { k.core with
    zeosTick := int32 (k.core.zeosTick + 10)
    tickCounter := if 0 < k.core.tickCounter then k.core.tickCounter - 1 else k.core.tickCounter }
  have sound : ticked.Inv := inv.sameTasks ⟨rfl, rfl, rfl, rfl, rfl⟩
  have first : Acts k.core .clock k ticked := acts_one rfl (.tick _ rfl)
  have run : ticked.core.ct.currentState = .stRun := inv.run user
  show Acts k.core .clock k (if ticked.core.tickCounter ≤ 0 then ticked.sched .user else ticked)
  split
  · refine first.trans (sound.acts_sched (by rfl) .user (.inl sound.between.live) (.inr rfl) (by simp [run]) (by simp [Core.Fits])
      ⟨rfl, by simp⟩ (by simp) (by simp))
  · exact first

theorem acts_sysSemCreate (mine : k.core.current = c.current) (initialValue : Int) :
    Acts c e k (k.sysSemCreate initialValue) := by
  unfold sysSemCreate
  split
  · exact acts_ret mine _
  · rename_i i _
    refine (acts_one mine (.aside ?_)).trans (acts_ret (by exact mine) _)
    exact ⟨⟨by simp [clear], by simp [clear]⟩, rfl, rfl, rfl, rfl, rfl, rfl⟩

theorem Sound.acts_sysSemWait (sound : k.Sound none) (call : k.core.InCall) (mine : k.core.current = c.current) (semid : Int) :
    Acts c (.syscall (.semWait semid)) k (k.sysSemWait semid) := by
  rcases sysSemWait_cases k semid with ⟨v, done⟩ | ⟨i, value, free, done | ⟨v, done⟩⟩ <;> rw [done]
  · exact acts_ret mine _
  · refine (acts_sem mine i _).trans ((sound.countSem free value).acts_park (inCall_setSem call i _) mine (.semWait i) trivial
      ?_ ?_ ?_ fun _ => .inr ⟨semid, rfl⟩)
    · rintro h ⟨⟩
      simp [Core.Valid, free]
    · simp [Kont.waitHead]
    · simp
  · exact (acts_sem mine i _).trans (acts_ret (by exact mine) _)

theorem Sound.acts_sysSemSignal (sound : k.Sound none) (call : k.core.InCall) (mine : k.core.current = c.current) {semid : Int}
    (done : k.sysSemSignal semid = .ok k') : Acts c e k k' := by
  rcases sysSemSignal_cases done with ⟨v, rfl⟩ | ⟨i, value, free, ⟨t, rest, first, rfl⟩ | ⟨v, rfl⟩⟩
  · exact acts_ret mine _
  · have counted := sound.countSem free value
    obtain ⟨woken, call⟩ := counted.wakeFirst (inCall_setSem call i _) first
    exact (acts_sem mine i _).trans ((counted.acts_wakeFirst mine first).trans
      (woken.acts_schedCall call (by simpa using mine) _ trivial ⟨rfl, by simp⟩ (by simp)))
  · exact (acts_sem mine i _).trans (acts_ret (by exact mine) _)

theorem Sound.acts_destroyRound (sound : k.Sound none) (call : k.core.InCall) (mine : k.core.current = c.current)
    {i : SemIndex} {semid : Int}
    {caller : DestroyCaller} (free : (k.core.semaphores i).free = false) (unmarked : k.core.Unmarked i)
    (round : k.destroyRound i semid caller = some k') : Acts c e k k' := by
  unfold Kernel.destroyRound at round
  split at round
  · contradiction
  rename_i t rest first
  cases round
  have marked := sound.markSem free unmarked
  obtain ⟨woken, call⟩ := marked.wakeFirst (inCall_setSem call i _) first
  exact (acts_sem mine i _).trans ((marked.acts_wakeFirst mine first).trans
    (woken.acts_schedCall call (by simpa using mine) _ (fits_destroyer free unmarked) ⟨rfl, by simp⟩ (by simp)))

theorem Sound.acts_destroySlots (semid : Int) (caller : DestroyCaller) (slots : List SemIndex)
    {k : Kernel} (sound : k.Sound none) (call : k.core.InCall) (mine : k.core.current = c.current) :
    Acts c e k (Kernel.destroySlots semid caller slots k).2 := by
  induction slots generalizing k with
  | nil => exact .refl
  | cons i slots ih =>
    unfold Kernel.destroySlots
    split
    · split
      · exact .refl
      rename_i free
      split
      · exact .refl
      rename_i creator
      have unmarked := sound.unmarked call (by simpa using creator)
      split
      · rename_i round
        exact sound.acts_destroyRound call mine (by simpa using free) unmarked round
      · rename_i round
        exact (acts_sem mine i _).trans (ih (sound.freeSem unmarked round) (inCall_setSem call i _) mine)
    · exact ih sound call mine

theorem Sound.acts_destroyFrom (sound : k.Sound none) (call : k.core.InCall) (mine : k.core.current = c.current)
    (i : SemIndex) (semid : Int) (caller : DestroyCaller) (free : (k.core.semaphores i).free = false)
    (unmarked : k.core.Unmarked i) :
    Acts c e k (k.destroyFrom i semid caller).2 := by
  unfold Kernel.destroyFrom
  split
  · rename_i round
    exact sound.acts_destroyRound call mine free unmarked round
  · rename_i round
    exact (acts_sem mine i _).trans
      ((sound.freeSem unmarked round).acts_destroySlots semid caller _ (inCall_setSem call i _) mine)

theorem destroyed_current {r : Option Int × Kernel}
    (changed : r.1.isSome → ∃ semaphores, r.2.core = { k.core with semaphores }) (done : r.1.isSome) :
    r.2.core.current = k.core.current := by
  obtain ⟨semaphores, core⟩ := changed done
  rw [core]

theorem Sound.acts_sysSemDestroy (sound : k.Sound none) (call : k.core.InCall) (mine : k.core.current = c.current)
    (semid : Int) : Acts c e k (k.sysSemDestroy semid) := by
  unfold sysSemDestroy
  split
  · exact acts_ret mine _
  have acts := sound.acts_destroySlots (c := c) (e := e) semid .syscall (List.finRange numSems) call mine
  have changed := destroyed_current (destroySlots_core semid .syscall (List.finRange numSems) (k := k))
  split <;> rename_i result <;> rw [result] at acts changed
  · exact acts.trans (acts_ret ((changed rfl).trans mine) _)
  · exact acts

theorem Sound.acts_sysWaitThread (sound : k.Sound none) (call : k.core.InCall) (mine : k.core.current = c.current)
    (pid : Int) (found : ∀ t, k.core.taskOf pid = some t → k.core.live t) :
    Acts c (.syscall (.waitThread pid)) k (k.sysWaitThread pid) := by
  unfold sysWaitThread
  split
  · exact acts_ret mine _
  · rename_i bt here
    refine sound.acts_park call mine _ trivial (fun h waits => ?_) (by simp [Kont.waitHead]) (by simp) fun _ => .inl ⟨pid, rfl⟩
    cases waits
    exact .inl (found bt here)

theorem Sound.acts_sysBlock (sound : k.Sound none) (call : k.core.InCall) (mine : k.core.current = c.current) :
    Acts c (.syscall .block) k k.sysBlock := by
  unfold sysBlock
  split
  · rename_i none
    exact sound.acts_park call mine .block trivial (by simp [Kont.waitHead]) (.inl rfl) (fun _ => ⟨rfl, none⟩)
      (by simp [Kont.waitHead])
  · rename_i some
    exact (acts_one mine (.spend rfl (by omega))).tail ⟨mine, .ret _⟩

theorem unblockChild_other {pid : Int} {r : Int × Kernel} {child u : Task} (other : u ≠ child) :
    (unblockChild pid r child).2.core.task u = r.2.core.task u := by
  unfold unblockChild
  split
  · split <;> simp [other]
  · rfl

theorem unblockChild_current {pid : Int} {r : Int × Kernel} {child : Task} :
    (unblockChild pid r child).2.core.current = r.2.core.current := by
  unfold unblockChild
  split
  · split <;> simp
  · rfl

theorem Sound.acts_sysUnblock (sound : k.Sound none) (call : k.core.InCall) (mine : k.core.current = c.current) {pid : Int}
    (allowed : k.core.Allowed (.syscall (.unblock pid))) :
    Acts c (.syscall (.unblock pid)) k (k.sysUnblock pid) := by
  have loop (rest : List Task) : ∀ r : Int × Kernel, r.2.Sound none → r.2.core.InCall →
      r.2.core.current = k.core.current → rest.Nodup →
      (∀ t ∈ rest, k.core.live t ∧ (k.core.task t).pare = some k.core.current ∧ r.2.core.live t ∧
        r.2.core.task t = k.core.task t) →
      Acts c (.syscall (.unblock pid)) r.2 (rest.foldl (unblockChild pid) r).2 ∧
        (rest.foldl (unblockChild pid) r).2.core.current = k.core.current := by
    induction rest with
    | nil => exact fun _ _ _ current _ _ => ⟨.refl, current⟩
    | cons child rest ih =>
      intro r sound call current nodup children
      obtain ⟨absent, nodup⟩ := List.nodup_cons.mp nodup
      obtain ⟨alive, pare, live, same⟩ := children child (by simp)
      have first : Acts c (.syscall (.unblock pid)) r.2 (unblockChild pid r child).2 := by
        unfold unblockChild
        split
        · rename_i named
          split
          · rename_i asleep
            refine acts_one (current.trans mine) (.wake live asleep (.inl ⟨?_, ?_, pid, rfl, named⟩))
            · rw [same] at asleep named ⊢
              exact allowed child alive pare named asleep
            · rw [same, current]
              exact pare
          · rename_i awake
            refine acts_one (current.trans mine) (.grant live awake ⟨?_, by rw [named]⟩)
            rw [same, current]
            exact pare
        · exact .refl
      obtain ⟨sound, call, lives⟩ := unblockChild_sound sound call pid live
      have rest := ih _ sound call (unblockChild_current.trans current) nodup fun t mem => by
        obtain ⟨alive, pare, live, same⟩ := children t (List.mem_cons_of_mem _ mem)
        have other : t ≠ child := fun here => absent (here ▸ mem)
        exact ⟨alive, pare, by rw [lives]; exact live, (unblockChild_other other).trans same⟩
      exact ⟨first.trans rest.1, rest.2⟩
  obtain ⟨acts, current⟩ := loop _ (-1, k) sound call rfl (sound.placed.nodup (.fills k.core.current)) fun t mem => by
    obtain ⟨live, pare⟩ := (sound.placed.mem (.fills k.core.current) t).mp mem
    exact ⟨live, pare, live, rfl⟩
  obtain ⟨sound, call⟩ := sound.unblockLoop call pid
  exact acts.trans (sound.acts_schedCall call (current.trans mine) _ trivial ⟨rfl, by simp⟩ (by simp))

theorem Reading.acts_readWait (reading : k.Reading) (mine : k.core.current = c.current) {b : DWord} {maxchars : Int}
    (why : c.Reads b maxchars e)
    (done : k.readWait b maxchars = .ok k') : Acts c e k k' := by
  unfold Kernel.readWait at done
  split at done
  · rename_i few
    cases done
    refine reading.acts_sched mine _ (.inl reading.live) (.inl reading.task) ?_ (fun _ => trivial) ⟨rfl, by simp⟩ ?_ ?_
    · rcases reading.state with state | state <;> simp [state]
    · rintro b maxchars ⟨⟩
      exact why
    · rintro b maxchars ⟨⟩ _
      exact few
  · rename_i enough
    obtain ⟨core, memory, done⟩ := bind_ok.mp done
    cases done
    have same := readChars_sameTasks memory
    refine (acts_one mine (.serve b maxchars why reading (by omega) (mapError_ok.mp memory))).tail ⟨?_, .ret _⟩
    simpa [same.current] using mine

theorem Sound.acts_sysRead (sound : k.Sound none) (call : k.core.InCall) (mine : k.core.current = c.current)
    {b : DWord} {maxchars : Int}
    (done : k.sysRead b maxchars = .ok k') : Acts c (.syscall (.read b maxchars)) k k' := by
  have reading := sound.reading call
  rcases sysRead_cases done with ⟨v, rfl⟩ | ⟨size, reads⟩
  · exact acts_ret mine _
  have enter : Acts c (.syscall (.read b maxchars)) k (k.move k.core.current .readBlocked) :=
    acts_one mine (.enter b maxchars call rfl size)
  rcases reads with ⟨behind, rfl⟩ | waits
  · refine enter.trans (reading.acts_sched (by simpa using mine) _ (.inl reading.live) (.inl reading.task) ?_
      (fun _ => trivial) ⟨rfl, by simp⟩ (fun b maxchars same => ?_) fun b maxchars _ first => ?_)
    · simp [Core.ct, Head.state]
    · cases same
      exact rfl
    · exact absurd (by simpa using first) behind
  · exact enter.trans (reading.acts_readWait (by simpa using mine) rfl waits)

/-- The children in a list get the idle task as their father. -/
theorem foldl_adoptChild (ts : List Task) (k : Kernel) : (ts.foldl adoptChild k).core = { k.core with
    task := fun t => { k.core.task t with pare := if t ∈ ts then some idleTask else (k.core.task t).pare } } := by
  induction ts generalizing k with
  | nil => simp
  | cons child ts ih =>
    rw [List.foldl_cons, ih]
    simp only [adoptChild, enqueue_core, setTask_core, Core.setTask, Core.mk.injEq, and_true]
    funext t
    by_cases same : t = child
    · subst same; simp
    · simp [same]

theorem foldl_adoptChild_lines (ts : List Task) (k : Kernel) : k.SameLines (ts.foldl adoptChild k) := by
  induction ts generalizing k with
  | nil => exact ⟨rfl, rfl⟩
  | cons child ts ih =>
    obtain ⟨ready, readers⟩ := ih (k.adoptChild child)
    exact ⟨by simpa [adoptChild, enqueue] using ready, by simpa [adoptChild, enqueue] using readers⟩

theorem leaveFather_lines {ct : Task} {father : Option Task} (left : k.leaveFather ct father = .ok k') :
    k.SameLines k' := by
  unfold leaveFather at left
  split at left
  · cases left
    exact ⟨by simp [dequeue], by simp [dequeue]⟩
  · split at left
    · cases left
      exact ⟨rfl, rfl⟩
    · contradiction

/-- The exiting task is cleared, leaves its father and gives its children away. -/
theorem Sound.left (sound : k.Sound none) (call : k.core.InCall)
    (leave : (k.setCore k.core.clearTask).leaveFather k.core.current k.core.ct.pare = .ok k') :
    k.Left (k'.adopt k.core.current) := by
  have leaving := sound.clearTask call leave
  have core : k'.core = k.core.clearTask := leaveFather_core leave
  have first := leaveFather_lines leave
  have second := foldl_adoptChild_lines (k'.queues (.fills k.core.current)) (k'.clear (.fills k.core.current))
  have child (t : Task) (other : t ≠ k.core.current) : t ∈ k'.queues (.fills k.core.current) ↔
      k.core.live t ∧ (k.core.task t).pare = some k.core.current := by
    rw [leaving.placed.mem, core]
    simp [Core.Home, Core.clearTask, other]
  have self : k.core.current ∉ k'.queues (.fills k.core.current) := by
    rw [leaving.placed.mem, core]
    simp [Core.Home, Core.clearTask]
  constructor
  case toSameLines =>
    refine ⟨?_, ?_⟩
    · exact second.ready.trans (by simpa [clear] using first.ready)
    · exact second.readers.trans (by simpa [clear] using first.readers)
  case alive => exact call.live
  case task => exact call.task
  case others =>
    intro t other
    rw [adopt, foldl_adoptChild]
    simp only [clear_core, core, child t other]
    simp [Core.clearTask, other]
  case gone =>
    rw [adopt, foldl_adoptChild]
    simp only [clear_core, core, self, if_false]
    simp [Core.clearTask, Core.ct]
  all_goals
    rw [adopt, foldl_adoptChild]
    simp only [clear_core, core]
    rfl

/-- The tasks that wait for the exiting one are woken. -/
theorem Leaving.acts_releaseWaiters (leaving : k.Leaving t) (mine : t = c.current) :
    Acts c e k (k.releaseWaiters t) := by
  have loop (rest : List Task) : ∀ k : Kernel, k.Leaving t → k.queues (.waitList t) = rest →
      Acts c e k (rest.foldl (fun k t => k.wake t) k) := by
    induction rest with
    | nil => exact fun _ _ _ => .refl
    | cons u rest ih =>
      intro k leaving waiters
      obtain ⟨live, asleep, kEsp⟩ := (leaving.placed.mem (.waitList t) u).mp (by simp [waiters])
      have first : Act c e k (k.wake u) := by
        refine .wake live asleep (.inr (.inl ⟨?_, ?_⟩))
        · rw [kEsp, leaving.current]
        · rw [leaving.current]
          exact leaving.gone
      refine .head ⟨leaving.current.trans mine, first⟩ (ih _ (leaving.wake live asleep) ?_)
      rw [wake_queues_wait (by simp) (by simp [kEsp]) (by simp), waiters]
      simp
  exact loop _ k leaving rfl

theorem acts_exitMemory (mine : k.core.current = c.current) (done : k.core.exitMemory = .ok core) :
    Acts c e k (k.setCore core) := by
  cases Core.exitMemory_exited done <;> exact acts_one mine (.aside ⟨⟨rfl, rfl⟩, rfl, rfl, rfl, rfl, rfl, rfl⟩)

theorem Leaving.acts_finish (leaving : k.Leaving t) (mine : t = c.current) : Acts c e k
    (((k.setTask t fun ts => { ts with currentState := .stFree }).enqueue .freequeue t).sched .exited) := by
  have freed := leaving.free
  obtain ⟨_, rfl, task, gone, _⟩ := leaving
  have first : Act c e k ((k.setTask k.core.current fun ts => { ts with currentState := .stFree }).enqueue .freequeue
      k.core.current) := .free gone
  refine .head ⟨mine, first⟩
    (freed.acts_sched mine .exited (.inr ?_) (.inl (by simpa using task)) ?_ (by simp [gone]) ⟨rfl, by simp⟩
      (by simp) (by simp))
  · simp [Core.ct]
  · simp [Core.ct]

theorem Sound.acts_exitTail (sound : k.Sound none) (call : k.core.InCall) (mine : k.core.current = c.current)
    (done : k.exitTail = .ok k') : Acts c e k k' := by
  obtain ⟨core, mem, done⟩ := bind_ok.mp done
  have same := exitMemory_sameTasks mem
  obtain ⟨out, leave, done⟩ := bind_ok.mp done
  cases done
  have current : k.core.current = core.current := same.current.symm
  have pare : k.core.ct.pare = core.ct.pare := by simp only [Core.ct, same.task, same.current]
  rw [current, pare] at leave
  rw [current]
  have left := Sound.left (k := k.setCore core) (sound.sameTasks same) (same.inCall call) leave
  obtain ⟨leaving, alone⟩ := ((sound.sameTasks same).clearTask (same.inCall call) leave).adopt
  have released := leaving.releaseWaiters alone
  have own := current.symm.trans mine
  exact (acts_exitMemory mine (mapError_ok.mp mem)).trans (.head ⟨own, .left left⟩
    ((leaving.acts_releaseWaiters own).trans (released.1.acts_finish own)))

theorem Sound.acts_exitSlots (slots : List SemIndex) {k : Kernel} (sound : k.Sound none) (call : k.core.InCall)
    (mine : k.core.current = c.current) (done : k.exitSlots slots = .ok k') : Acts c e k k' := by
  induction slots generalizing k with
  | nil => exact sound.acts_exitTail call mine done
  | cons j slots ih =>
    unfold Kernel.exitSlots at done
    split at done
    · have leads := sound.destroySlots (k.core.semaphores j).id (.exit j) (List.finRange numSems) call
      have acts := sound.acts_destroySlots (c := c) (e := e) (k.core.semaphores j).id (.exit j) (List.finRange numSems)
        call mine
      have changed := destroyed_current (destroySlots_core (k.core.semaphores j).id (.exit j) (List.finRange numSems) (k := k))
      split at done <;> rename_i result <;> rw [result] at leads acts changed
      · exact acts.trans (ih (leads.1 rfl).1 (leads.1 rfl).2 ((changed rfl).trans mine) done)
      · cases done
        exact acts
    · exact ih sound call mine done

/-- The PCB in hand becomes a child. -/
theorem born_startChild {queues : Queues} (alive : k.core.live k.core.current) (dead : k.core.live t = false)
    (positive : 0 < k.core.pidGlobal) (others : ∀ u, u ≠ t → core.task u = k.core.task u)
    (state : (core.task t).currentState = .stRun) (live : core.live = k.core.live)
    (current : core.current = k.core.current) (pidGlobal : core.pidGlobal = k.core.pidGlobal)
    (tickCounter : core.tickCounter = k.core.tickCounter) (kbBuffer : core.kbBuffer = k.core.kbBuffer)
    (ready : queues .readyqueue = k.queues .readyqueue) (readers : queues .readBlocked = k.queues .readBlocked) :
    k.Born t (Kernel.startChild t ⟨queues, core⟩) := by
  have other : k.core.current ≠ t := fun same => by simp [← same, alive] at dead
  constructor
  case dead => exact dead
  case alive => exact alive
  case positive => exact positive
  case ready => simp [startChild, move, enqueue, clear, Core.nameChild, state, TaskState.queue, dequeue?, sysReturn, ready]
  case readers => simp [startChild, move, enqueue, clear, Core.nameChild, state, TaskState.queue, dequeue?, sysReturn, readers]
  case tickCounter =>
    simp only [startChild, sysReturn_core, move_core, clear_core, enqueue_core, setCore_core]
    exact tickCounter
  case others =>
    intro u otherU active
    simp [startChild, Core.sysReturn, Core.nameChild, otherU, active, current, others u otherU]
  all_goals simp [startChild, Core.sysReturn, Core.nameChild, Core.ct, other, Ne.symm other, current, others _ other,
    live, pidGlobal, tickCounter, kbBuffer, Head.state]

theorem Sound.acts_sysFork (sound : k.Sound none) (call : k.core.InCall) (mine : k.core.current = c.current)
    (positive : 0 < k.core.pidGlobal)
    (done : k.sysFork = .ok k') : Acts c e k k' := by
  rcases sysFork_cases done with ⟨v, rfl⟩ | ⟨fill, rest, core, first, outcome⟩
  · exact acts_ret mine _
  obtain ⟨dead, other, _, _⟩ := sound.takeFree first call
  have task (pos : Dir) (u : Task) (otherU : u ≠ fill) : (k.core.childOf fill pos).task u = k.core.task u := by
    simp [Core.childOf, otherU]
  rcases outcome with ⟨mem, rfl⟩ | ⟨mem, rfl⟩
  · have forked : k.core.Forked fill true core := Core.forkMemory_forked other (mapError_ok.mp mem)
    cases forked with
    | done dir heap parent some map copy =>
      refine acts_one mine (.born (born_startChild call.live dead positive (task _) ?_ rfl rfl rfl rfl rfl ?_ ?_))
      · simpa [Core.childOf] using call.run
      · simp [dequeue]
      · simp [dequeue]
  · have forked : k.core.Forked fill false core := Core.forkMemory_forked other (mapError_ok.mp mem)
    cases forked with
    | out dir heap none =>
      have unborn (mm : Mm) (pos : Dir) : k.Unborn fill
          (((k.dequeue .freequeue fill).setCore { k.core.childOf fill pos with mm }).enqueue .freequeue fill) :=
        ⟨⟨by simp [enqueue, dequeue], by simp [enqueue, dequeue]⟩, dead, call.live, task _, by simp [Core.childOf, Core.ct],
          rfl, rfl, rfl, rfl, rfl⟩
      exact (acts_one mine (.unborn (unborn _ _))).tail ⟨mine, .ret _⟩

theorem Sound.acts_sysCreateThread (sound : k.Sound none) (call : k.core.InCall) (mine : k.core.current = c.current)
    (positive : 0 < k.core.pidGlobal) {function stack parameter : DWord}
    (done : k.sysCreateThread function stack parameter = .ok k') :
    Acts c e k k' := by
  rcases sysCreateThread_cases done with ⟨v, rfl⟩ | ⟨fill, rest, core, first, mem, rfl⟩
  · exact acts_ret mine _
  obtain ⟨dead, other, _, _⟩ := sound.takeFree first call
  obtain ⟨dir, mm, own, same, rfl⟩ := Core.threadMemory_ok (c := k.core) (mapError_ok.mp mem)
  refine acts_one mine (.born (born_startChild call.live dead positive (fun u otherU => ?_) ?_ rfl rfl rfl rfl rfl ?_ ?_))
  · simp [otherU]
  · simpa using call.run
  · simp [dequeue]
  · simp [dequeue]

theorem acts_sysDynMem (mine : k.core.current = c.current) {numPags : Int} (done : memory (k.core.sysDynMem numPags) = .ok core) :
    Acts c e k (k.setCore core) := by
  obtain ⟨mm, cr3, v, rfl⟩ := sysDynMem_spec done
  have first : Act c e k (k.setCore { k.core with mm, cr3 }) := .aside ⟨⟨rfl, rfl⟩, rfl, rfl, rfl, rfl, rfl, rfl⟩
  exact .head ⟨mine, first⟩ (acts_ret (k := k.setCore { k.core with mm, cr3 }) mine _)

theorem Sound.acts_syscall (sound : k.Sound none) (call : k.core.InCall) {request : Syscall}
    (allowed : k.core.Allowed (.syscall request)) (done : k.syscall request = .ok k') :
    Acts k.core (.syscall request) k k' := by
  cases request with
  | getpid => cases done; exact acts_ret rfl _
  | fork => exact sound.acts_sysFork call rfl allowed done
  | createThread function stack parameter => exact sound.acts_sysCreateThread call rfl allowed done
  | exit => exact sound.acts_exitSlots _ call rfl done
  | block => cases done; exact sound.acts_sysBlock call rfl
  | unblock pid => cases done; exact sound.acts_sysUnblock call rfl allowed
  | waitThread pid => cases done; exact sound.acts_sysWaitThread call rfl pid allowed
  | read b maxchars => exact sound.acts_sysRead call rfl done
  | dynMem numPags =>
    obtain ⟨core, mem, done⟩ := bind_ok.mp done
    cases done
    exact acts_sysDynMem rfl mem
  | semCreate initialValue => cases done; exact acts_sysSemCreate rfl initialValue
  | semWait semid => cases done; exact sound.acts_sysSemWait call rfl semid
  | semSignal semid => exact sound.acts_sysSemSignal call rfl done
  | semDestroy semid => cases done; exact sound.acts_sysSemDestroy call rfl semid

theorem Inv.acts_resume (inv : k.Inv) (done : k.resume = .ok k') : Acts k.core .resume k k' := by
  have first : Act k.core .resume k (k.setTask k.core.current fun ts => { ts with kEsp := .user }) :=
    .save .user ⟨rfl, by simp⟩ (by simp)
  unfold Kernel.resume at done
  cases kEsp : k.core.ct.kEsp with
  | read b maxchars =>
    rw [kEsp] at done
    exact .head ⟨rfl, first⟩ ((inv.resume_reading kEsp).acts_readWait rfl kEsp done)
  | exited => rw [kEsp] at done; contradiction
  | semDestroy i semid caller =>
    obtain ⟨sound, call, free, unmarked⟩ := inv.resume_destroyer kEsp
    have leads := sound.destroyFrom call i semid caller free unmarked
    have acts := sound.acts_destroyFrom (c := k.core) (e := .resume) call rfl i semid caller free unmarked
    have changed := destroyed_current (k := k.setTask k.core.current fun ts => { ts with kEsp := .user })
      (@destroyFrom_core _ i semid caller)
    rw [kEsp] at done
    simp only [goOn] at done
    split at done <;> rename_i result <;> rw [result] at leads acts changed
    · cases done
      exact .head ⟨rfl, first⟩ acts
    · cases caller with
      | syscall => cases done; exact .head ⟨rfl, first⟩ (acts.trans (acts_ret (by exact changed rfl) _))
      | exit j => exact .head ⟨rfl, first⟩ (acts.trans ((leads.1 rfl).1.acts_exitSlots _ (leads.1 rfl).2 (changed rfl) done))
  | _ =>
    rw [kEsp] at done
    cases done
    first | exact acts_one rfl first | exact .head ⟨rfl, first⟩ (acts_ret (by rfl) _)

/-- What a key press does to the PCBs: the running task may make room. -/
theorem keyboardRoutine_task (k : Kernel) (readInp : UInt8) (t : Task) :
    (k.keyboardRoutine readInp).core.task t = k.core.task t ∨
      (k.keyboardRoutine readInp).core.task t = k.yield.core.task t := by
  unfold keyboardRoutine
  split
  · exact .inl rfl
  dsimp only
  split
  · exact .inl rfl
  · refine .inr ?_
    show (setCore _ k).yield.core.task t = _
    rw [yield_task, yield_task]
    rfl

/-- An act leaves the other tasks where they are in the kernel, and asleep unless it wakes them. -/
theorem Act.others (act : Act c e k k') (live : k.core.live t) (other : t ≠ k.core.current) :
    (k'.core.task t).kEsp = (k.core.task t).kEsp ∧
      ((k.core.task t).currentState = .stBlocked → (k'.core.task t).currentState = .stBlocked ∨ k.core.Wakes t e) := by
  have elder {fill : Task} (dead : k.core.live fill = false) : t ≠ fill := fun same => by simp [same, dead] at live
  cases act with
  | aside aside =>
    rw [aside.task]
    exact ⟨rfl, .inl⟩
  | wake lives asleep why =>
    rename_i u
    rw [wake_core, Core.setTask_task]
    split
    · rename_i same
      subst same
      exact ⟨rfl, fun _ => .inr why⟩
    · exact ⟨rfl, .inl⟩
  | dispatch sound alive unserved =>
    have ready := sound.next_ready
    obtain ⟨cr3, tickCounter, core⟩ := dispatch_core k
    rw [core, Core.setTask_task]
    split
    · rename_i same
      subst same
      rw [yield_task] at ready ⊢
      simp only [other, false_and, if_false] at ready ⊢
      refine ⟨trivial, fun asleep => ?_⟩
      rw [asleep] at ready
      contradiction
    · simp only [yield_task, other, false_and, if_false]
      exact ⟨trivial, .inl⟩
  | key readInp inv user why =>
    rcases keyboardRoutine_task k readInp t with same | same <;> rw [same]
    · exact ⟨rfl, .inl⟩
    · rw [yield_task]
      simp only [other, false_and, if_false]
      exact ⟨trivial, .inl⟩
  | serve b maxchars why reading enough done =>
    have same := readChars_sameTasks (congrArg memory done)
    rw [start_core, setCore_core, Core.setTask_task, same.task, same.current, if_neg other]
    exact ⟨rfl, .inl⟩
  | grant lives awake why =>
    rw [setTask_core, Core.setTask_task]
    split
    · rename_i same
      subst same
      exact ⟨rfl, fun asleep => absurd asleep awake⟩
    · exact ⟨rfl, .inl⟩
  | born born =>
    rw [born.others t (elder born.dead) other]
    exact ⟨rfl, .inl⟩
  | unborn unborn =>
    rw [unborn.others t (elder unborn.dead)]
    exact ⟨rfl, .inl⟩
  | left left =>
    rw [left.others t other]
    exact ⟨rfl, .inl⟩
  | tick zeosTick why => exact ⟨rfl, .inl⟩
  | ret v =>
    refine ⟨by simp [Core.sysReturn, other], fun asleep => .inl ?_⟩
    simpa [Core.sysReturn, other] using asleep
  | save kont plain why => exact ⟨by simp [other], fun asleep => .inl (by simpa [other] using asleep)⟩
  | park kont call waits why => exact ⟨by simp [other], fun asleep => .inl (by simpa [other] using asleep)⟩
  | enter b maxchars call why size => exact ⟨by simp [other], fun asleep => .inl (by simpa [other] using asleep)⟩
  | spend why pending => exact ⟨by simp [other], fun asleep => .inl (by simpa [other] using asleep)⟩
  | free dead => exact ⟨by simp [other], fun asleep => .inl (by simpa [other] using asleep)⟩

/-- An allowed step is a sequence of acts. -/
theorem Inv.acts (inv : k.Inv) (allowed : k.core.Allowed e) (step : k.Step e k') : Acts k.core e k k' := by
  obtain ⟨enabled, done⟩ := step
  cases e with
  | clock => cases done; exact inv.acts_clockRoutine enabled
  | key readInp => cases done; exact inv.acts_keyboardRoutine enabled readInp
  | syscall request => exact inv.toSound.acts_syscall (inv.inCall enabled.1 enabled.2.1) allowed done
  | resume => exact inv.acts_resume done

/-- What every act keeps, every allowed step keeps. -/
theorem Inv.keeps (inv : k.Inv) (property : Kernel → Prop) (allowed : k.core.Allowed e) (step : k.Step e k')
    (act : ∀ m m', m.core.current = k.core.current → Act k.core e m m' → property m → property m')
    (initial : property k) : property k' := by
  have acts := inv.acts allowed step
  clear step
  induction acts with
  | refl => exact initial
  | tail _ last ih => exact act _ _ last.1 last.2 ih

end Kernel
end Zeos
