import Mathlib.Data.Fintype.Card
import Zeos.Frame

/-! The pointer lists implement the queues: a state represents a kernel when every head
in use starts a ring through the anchors of its queue. Each operation on the lists is
matched by the operation on the queues. -/
namespace Zeos
open Circular Placement Outcome

theorem Head.anchor_ne_null (h : Head) (t : Task) : h.anchor t ≠ .null := by
  cases h <;> nofun

theorem Head.anchor_ne_head (h j : Head) (t : Task) : h.anchor t ≠ .head j := by
  cases h <;> nofun

@[simp] theorem listHeadToTaskStruct_anchor (h : Head) (t : Task) :
    listHeadToTaskStruct (h.anchor t) = .ok t := by cases h <;> rfl

theorem Head.anchor_eq {h j : Head} {t u : Task} (same : h.anchor t = j.anchor u) :
    t = u ∧ h.anchor = j.anchor := by cases h <;> cases j <;> simp_all [anchor]

theorem Head.anchor_injective (h : Head) : Function.Injective h.anchor :=
  fun _ _ same => (Head.anchor_eq same).1

/-- The ring behind every head in use goes through its queue. Tasks without a father
were never linked to one: `list_del` finds NULL there. -/
structure Represents (valid : Head → Prop) (s : State) (k : Kernel) : Prop where
  core : s.core = k.core
  main : ∀ h : Head, h.anchor = .list → valid h
  rings : Rings s.links valid Node.head fun h => (k.queues h).map h.anchor
  root : ∀ t, k.core.live t → (k.core.task t).pare = none →
    s.links.next (.parentAnchor t) = .null ∧ s.links.prev (.parentAnchor t) = .null ∧
      ∀ u, valid (.fills u) → t ∉ k.queues (.fills u)

/-- The computation succeeds, with a state that represents the kernel. -/
abbrev Yields (valid : Head → Prop) (x : Except Fault State) (k : Kernel) : Prop :=
  Agree (Represents valid) x (.ok k)

namespace Represents

variable {valid valid' : Head → Prop} {s : State} {k : Kernel} {h : Head} {t : Task}

theorem mono (rep : Represents valid s k) (fewer : ∀ j, valid' j → valid j)
    (main : ∀ h : Head, h.anchor = .list → valid' h) : Represents valid' s k :=
  ⟨rep.core, main, rep.rings.mono fewer, fun t live pare =>
    let ⟨next, prev, out⟩ := rep.root t live pare
    ⟨next, prev, fun u v => out u (fewer _ v)⟩⟩

/-- A change of the core that makes no task a root. -/
theorem setCore (rep : Represents valid s k) (c : Core) (roots : ∀ t, c.live t → (c.task t).pare = none →
    k.core.live t ∧ (k.core.task t).pare = none) : Represents valid (s.setCore c) (k.setCore c) :=
  ⟨rfl, rep.main, rep.rings, fun t live pare =>
    let old := roots t live pare
    rep.root t old.1 old.2⟩

theorem setTask (rep : Represents valid s k) (t : Task) (f : TaskStruct → TaskStruct)
    (pare : (f (k.core.task t)).pare = none → (k.core.task t).pare = none) :
    Represents valid (s.setTask t f) (k.setTask t f) := by
  have := rep.setCore (k.core.setTask t f) fun u live root => ⟨live, by
    simp only [Core.setTask_task] at root
    split at root
    · rename_i same; subst same; exact pare root
    · exact root⟩
  simpa [State.setTask, Kernel.setTask, State.setCore, rep.core] using this

/-- The node is linked to none of the heads in use. -/
def Unlinked (valid : Head → Prop) (k : Kernel) (h : Head) (t : Task) : Prop :=
  ∀ j, valid j → j.anchor = h.anchor → t ∉ k.queues j

theorem Unlinked.fresh (unlinked : Unlinked valid k h t) (j : Head) (vj : valid j) :
    h.anchor t ∉ Node.head j :: (k.queues j).map j.anchor := by
  simp only [List.mem_cons, List.mem_map, not_or, not_exists, not_and]
  refine ⟨Head.anchor_ne_head h j t, fun u mem same => ?_⟩
  obtain ⟨rfl, anchor⟩ := Head.anchor_eq same
  exact unlinked j vj anchor mem

theorem linked_ne_null {n : Node}
    (mem : n ∈ Node.head h :: (k.queues h).map h.anchor) : n ≠ .null := by
  rintro rfl
  simp only [List.mem_cons, reduceCtorEq, List.mem_map, false_or] at mem
  obtain ⟨u, _, same⟩ := mem
  exact Head.anchor_ne_null h u same

theorem listAddTail_ok {s : State} (new head : Node) (hn : new ≠ .null) (hh : head ≠ .null)
    (hp : s.links.prev head ≠ .null) : s.listAddTail new head =
      .ok { s with links := s.links.insert new (s.links.prev head) head } := by
  simp [State.listAddTail, State.loadPrev, State.listInsert, State.storePrev, State.storeNext, hn, hh, hp,
    Links.insert, bind, Except.bind]

theorem listDel_ok {s : State} {entry : Node} (he : entry ≠ .null) (hp : s.links.prev entry ≠ .null)
    (hn : s.links.next entry ≠ .null) : s.listDel entry =
      .ok { s with links := s.links.remove entry .null } := by
  simp [State.listDel, State.loadPrev, State.loadNext, State.storePrev, State.storeNext, he, hp, hn,
    Links.remove, Links.join, bind, Except.bind]

/-- `list_add_tail` appends to the queue. -/
theorem listAddTail (rep : Represents valid s k) (vh : valid h) (unlinked : Unlinked valid k h t)
    (root : ∀ u, h = .fills u → (k.core.task t).pare ≠ none) :
    Yields valid (s.listAddTail (h.anchor t) (.head h)) (k.enqueue h t) := by
  have last := linked_ne_null (rep.rings.ring h vh).prev_mem
  rw [listAddTail_ok _ _ (Head.anchor_ne_null h t) (by simp) last]
  refine Agree.ok ⟨rep.core, rep.main, ?_, fun u live pare => ?_⟩
  · refine rep.rings.insertTail vh (unlinked.fresh) ?_ fun j other => ?_
    · simp [Kernel.enqueue]
    · simp [Kernel.enqueue, other]
  · obtain ⟨next, prev, out⟩ := rep.root u live pare
    have stays : .parentAnchor u ∉ Node.head h :: (k.queues h).map h.anchor := by
      cases h <;> simp [Head.anchor]
      exact out _ vh
    have other : .parentAnchor u ≠ h.anchor t := by
      cases h <;> simp [Head.anchor]
      rintro rfl
      exact root _ rfl pare
    have apart : Node.parentAnchor u ≠ .head h := by simp
    have frame := s.links.insert_frame other (rep.rings.prev_ne vh stays) apart
    refine ⟨frame.1.trans next, frame.2.trans prev, fun v vv => ?_⟩
    by_cases here : h = .fills v
    · subst here
      have apart : u ≠ t := fun e => other (by rw [e]; rfl)
      simp [Kernel.enqueue, out v vv, apart]
    · simp [Kernel.enqueue, Ne.symm here, out v vv]

/-- `list_del` takes a task out of its queue. -/
theorem listDel (rep : Represents valid s k) (vh : valid h) (mem : t ∈ k.queues h) :
    Yields valid (s.listDel (h.anchor t)) (k.dequeue h t) := by
  have linked : h.anchor t ∈ (k.queues h).map h.anchor := List.mem_map_of_mem mem
  obtain ⟨nextMem, prevMem⟩ := rep.rings.neighbours vh linked
  rw [listDel_ok (Head.anchor_ne_null h t) (linked_ne_null prevMem) (linked_ne_null nextMem)]
  refine Agree.ok ⟨rep.core, rep.main, ?_, fun u live pare => ?_⟩
  · refine rep.rings.remove vh linked .null ?_ fun j other => ?_
    · simp [Kernel.dequeue, List.map_erase (Head.anchor_injective h)]
    · simp [Kernel.dequeue, other]
  · obtain ⟨next, prev, out⟩ := rep.root u live pare
    have stays : .parentAnchor u ∉ Node.head h :: (k.queues h).map h.anchor := by
      cases h <;> simp [Head.anchor]
      exact out _ vh
    have frame := @Links.remove_frame _ _ s.links (h.anchor t) .null (.parentAnchor u)
      (fun e => stays (by rw [e]; exact List.mem_cons_of_mem _ linked)) (fun e => stays (e ▸ prevMem))
      (fun e => stays (e ▸ nextMem))
    refine ⟨frame.1.trans next, frame.2.trans prev, fun v vv => ?_⟩
    by_cases here : h = .fills v
    · subst here
      simp only [Kernel.dequeue, Function.update_self]
      exact fun there => out v vv (List.mem_of_mem_erase there)
    · simp [Kernel.dequeue, Ne.symm here, out v vv]

/-- `INIT_LIST_HEAD` starts an empty queue. -/
theorem initListHead (rep : Represents valid s k) (more : ∀ j, valid' j → j ≠ h → valid j)
    (main : ∀ h : Head, h.anchor = .list → valid' h) :
    Yields valid' (s.initListHead (.head h)) (k.clear h) := by
  have done : s.initListHead (.head h) = .ok { s with links := s.links.self (.head h) } := by
    simp [State.initListHead, State.storeNext, State.storePrev, Links.self, bind, Except.bind]
  rw [done]
  refine Agree.ok ⟨rep.core, main, ?_, fun u live pare => ?_⟩
  · refine rep.rings.self (by simp [Kernel.clear]) (fun j other _ => by simp [Kernel.clear, other])
      (fun j other _ => ?_) more
    simp only [List.mem_cons, Node.head.injEq, List.mem_map, not_or, not_exists, not_and]
    exact ⟨Ne.symm other, fun t _ => Head.anchor_ne_head j h t⟩
  · obtain ⟨next, prev, out⟩ := rep.root u live pare
    refine ⟨by simpa [Links.self] using next, by simpa [Links.self] using prev, fun v vv => ?_⟩
    by_cases here : h = .fills v
    · simp [here, Kernel.clear]
    · simp [Kernel.clear, Ne.symm here, out v (more _ vv (Ne.symm here))]

theorem listEmpty (rep : Represents valid s k) (vh : valid h) :
    s.listEmpty (.head h) = .ok (k.queues h).isEmpty := by
  have empty := (rep.rings.ring h vh).next_eq_head
  simp only [State.listEmpty, State.loadNext, reduceCtorEq, if_false, bind, Except.bind, pure, Except.pure,
    Except.ok.injEq]
  cases q : k.queues h <;> simp [q, empty]

theorem listFirst (rep : Represents valid s k) (vh : valid h) {rest : List Task}
    (first : k.queues h = t :: rest) : s.listFirst (.head h) = .ok (h.anchor t) := by
  have ring := rep.rings.ring h vh
  simp only [first, List.map_cons] at ring
  simp [State.listFirst, State.loadNext, ring.next_cons]

end Represents

namespace Kernel

variable {k : Kernel} {h : Head} {t : Task} {out : Option Task}

/-- The `list` node of a task is linked where its state says. -/
structure Settled (k : Kernel) (t : Task) : Prop where
  pid : 0 < (k.core.task t).pid
  task : t ≠ idleTask
  there : ∀ q, (k.core.task t).currentState.queue = some q → t ∈ k.queues q
  only : ∀ j : Head, j.anchor = .list → t ∈ k.queues j → (k.core.task t).currentState.queue = some j
  nodup : ∀ j, (k.queues j).Nodup

theorem Sound.settled (sound : k.Sound out) (live : k.core.live t) (task : t ≠ idleTask) : k.Settled t := by
  obtain ⟨good, placed⟩ := sound
  have started := good.started t live
  refine ⟨good.positive t live task, task, fun q state => ?_, fun j anchor mem => ?_, placed.nodup⟩
  · rw [placed.mem]
    cases state' : (k.core.task t).currentState <;> rw [state'] at state started <;> cases state <;>
      simp [Core.Home, live, state', task] at *
  · rw [placed.mem] at mem
    cases j <;> simp [Core.Home, Head.anchor, live, funext_iff] at mem anchor <;> simp [mem]

/-- A second list does not matter. -/
theorem Settled.other (settled : k.Settled t) {k' : Kernel} (core : k'.core.task t = k.core.task t)
    (same : ∀ j : Head, j.anchor = .list → k'.queues j = k.queues j) (nodup : ∀ j, (k'.queues j).Nodup) :
    k'.Settled t := by
  obtain ⟨pid, task, there, only, _⟩ := settled
  refine ⟨by rwa [core], task, fun q state => ?_, fun j anchor mem => ?_, nodup⟩
  · rw [core] at state
    rw [same q]
    · exact there q state
    · cases s : (k.core.task t).currentState <;> rw [s] at state <;> cases state <;> rfl
  · rw [core]
    rw [same j anchor] at mem
    exact only j anchor mem

theorem Settled.unlinked (settled : k.Settled t) (valid : Head → Prop) (list : h.anchor = .list) :
    Represents.Unlinked valid (k.dequeue? (k.core.task t).currentState.queue t) h t := by
  intro j _ anchor mem
  rw [list] at anchor
  cases state : (k.core.task t).currentState.queue with
  | none =>
    rw [state] at mem
    have := settled.only j anchor mem
    simp [state] at this
  | some q =>
    rw [state] at mem
    by_cases here : j = q
    · subst here
      simp [dequeue?, dequeue, (settled.nodup j).mem_erase_iff] at mem
    · have old : t ∈ k.queues j := by simpa [dequeue?, dequeue, here] using mem
      have := settled.only j anchor old
      simp [state, Ne.symm here] at this

theorem switch_self (current : k.core.current = t) : k.switch t = k := by
  subst current
  simp [switch, setCore, Core.ct]

theorem Sound.next_eq_current (sound : k.Sound none) (own : k.core.live k.core.current ∨ k.core.ct.pid < 0)
    (same : k.core.ct.pid = (k.core.task k.next).pid) : k.core.current = k.next := by
  have live := sound.live_next
  rcases own with alive | negative
  · exact sound.good.distinct _ _ alive live same
  · have := sound.good.idle
    by_cases idle : k.next = idleTask
    · rw [idle] at same; omega
    · have := sound.good.positive _ live idle; omega

end Kernel

namespace Represents

variable {valid valid' : Head → Prop} {s : State} {k : Kernel} {h : Head} {t : Task} {out : Option Task}

theorem leaveList (rep : Represents valid s k) (settled : k.Settled t) :
    Yields valid (s.leaveList t) (k.dequeue? (k.core.task t).currentState.queue t) := by
  unfold State.leaveList
  rw [rep.core]
  cases state : (k.core.task t).currentState
  case stRun => simpa [TaskState.queue, Kernel.dequeue?] using Agree.ok rep
  all_goals
    simp only [settled.pid, ne_eq, reduceCtorEq, not_false_eq_true, and_self, if_true]
    have mem := settled.there _ (by rw [state]; rfl)
    exact rep.listDel (rep.main _ rfl) mem

/-- `update_process_state_rr` moves a task to the queue of a sleeping or ready state. -/
theorem update_move (rep : Represents valid s k) (settled : k.Settled t)
    (dest : h = .readyqueue ∨ h = .blocked ∨ h = .readBlocked) :
    Yields valid (s.updateProcessStateRr t (some h)) (k.move t h) := by
  have pid := settled.pid
  have list : h.anchor = .list := by rcases dest with rfl | rfl | rfl <;> rfl
  unfold State.updateProcessStateRr
  rw [if_neg (by rw [rep.core]; omega)]
  refine (rep.leaveList settled).bind_ok fun s₁ left => ?_
  have stated := left.setTask t (fun ts => { ts with currentState := h.state }) id
  have append := stated.listAddTail (h := h) (t := t) (rep.main h list) (settled.unlinked valid list)
    (by rintro u rfl; rcases dest with e | e | e <;> cases e)
  have same : (s₁.core.task t).pid ≠ 0 := by rw [left.core, Kernel.dequeue?_core]; omega
  rcases dest with rfl | rfl | rfl <;>
    simpa [State.setState, State.setTask, same, Kernel.move, Head.state, Head.anchor] using append

/-- `update_process_state_rr(t, NULL)`. -/
theorem update_start (rep : Represents valid s k)
    (known : t = idleTask ∧ (k.core.task t).pid = 0 ∨ k.Settled t) :
    Yields valid (s.updateProcessStateRr t none) (k.start t) := by
  unfold State.updateProcessStateRr Kernel.start
  rcases known with ⟨idle, pid⟩ | settled
  · rw [if_neg (by rw [rep.core]; omega), if_pos idle]
    simp only [State.leaveList, rep.core, pid, lt_irrefl, false_and, if_false]
    exact Agree.ok (rep.setTask t _ id)
  · have pid := settled.pid
    rw [if_neg (by rw [rep.core]; omega), if_neg settled.task]
    exact (rep.leaveList settled).bind_ok fun s₁ left => Agree.ok (left.setTask t _ id)

theorem requeueCurrent (rep : Represents valid s k) (sound : k.Sound out)
    (alive : k.core.ct.currentState = .stRun → k.core.live k.core.current) :
    Yields valid s.requeueCurrent k.yield := by
  unfold State.requeueCurrent Kernel.yield
  rw [rep.core]
  split
  · rename_i run
    split
    · rename_i idle
      rw [idle]
      have pid : (s.core.task idleTask).pid = 0 := by rw [rep.core]; exact sound.good.idle.2.1
      have done : s.updateProcessStateRr idleTask (some .readyqueue) =
          .ok (s.setTask idleTask fun ts => { ts with currentState := .stReady }) := by
        simp [State.updateProcessStateRr, State.leaveList, State.setState, State.setTask, pid, bind,
          Except.bind, pure, Except.pure]
      rw [done]
      exact Agree.ok (rep.setTask _ _ id)
    · rename_i other
      exact rep.update_move (sound.settled (alive run) other) (.inl rfl)
  · exact Agree.ok rep

theorem taskSwitch (rep : Represents valid s k) (directory : (k.core.task t).dirPagesBaseAddr.isSome) :
    Yields valid (s.taskSwitch t) (k.switch t) := by
  obtain ⟨d, dir⟩ := Option.isSome_iff_exists.mp directory
  have switched := rep.setCore (k.switch t).core fun u live pare => ⟨live, pare⟩
  unfold State.taskSwitch
  rw [rep.core, dir]
  split
  · rename_i different
    refine Agree.ok ?_
    simpa [Kernel.switch, State.setCore, Kernel.setCore, dir, different] using switched
  · rename_i same
    refine Agree.ok ?_
    simpa [Kernel.switch, State.setCore, Kernel.setCore, dir, same] using switched

theorem nextTask (rep : Represents valid s k) : s.nextTask = .ok k.next := by
  unfold State.nextTask Kernel.next
  rw [rep.listEmpty (rep.main .readyqueue rfl)]
  cases first : k.queues .readyqueue with
  | nil => rfl
  | cons t rest =>
    simp only [bind, Except.bind, List.isEmpty_cons, Bool.false_eq_true, if_false,
      rep.listFirst (rep.main .readyqueue rfl) first]
    rfl

/-- `sched_next_rr` dispatches the first ready task. -/
theorem dispatch (rep : Represents valid s k) (sound : k.Sound none) (leaves : k.Leaves)
    (own : k.core.live k.core.current ∨ k.core.ct.pid < 0) : Yields valid s.dispatch k.dispatch := by
  have alive : k.core.ct.currentState = .stRun → k.core.live k.core.current :=
    fun run => leaves.resolve_right fun gone => gone.1 run
  have live := sound.live_next
  have yielded := sound.yield alive
  have liveY : k.yield.core.live k.next := by simpa using live
  unfold State.dispatch
  rw [rep.nextTask]
  refine (rep.requeueCurrent sound alive).bind_ok fun s₁ rep₁ => ?_
  have known : k.next = idleTask ∧ (k.yield.core.task k.next).pid = 0 ∨ k.yield.Settled k.next := by
    by_cases idle : k.next = idleTask
    · exact .inl ⟨idle, by rw [idle]; exact yielded.good.idle.2.1⟩
    · exact .inr (yielded.settled liveY idle)
  refine (rep₁.update_start known).bind_ok fun s₂ rep₂ => ?_
  have rep₃ := rep₂.setCore
    { (k.yield.start k.next).core with tickCounter := ((k.yield.start k.next).core.task k.next).quantum }
    fun u live pare => ⟨live, pare⟩
  have core : { s₂ with core := { s₂.core with tickCounter := (s₂.core.task k.next).quantum } } =
      s₂.setCore { (k.yield.start k.next).core with
        tickCounter := ((k.yield.start k.next).core.task k.next).quantum } := by
    rw [State.setCore, rep₂.core]
  simp only [core]
  have directory := yielded.good.directory _ liveY
  split
  · exact rep₃.taskSwitch (t := k.next) (by simpa using directory)
  · rename_i same
    have pid (u : Task) : ((k.yield.start k.next).core.task u).pid = (k.core.task u).pid := by
      simp [Kernel.yield_task, apply_ite TaskStruct.pid]
      rintro rfl
      rfl
    have current : k.core.current = k.next := sound.next_eq_current own (by
      have same : (s₂.core.task s₂.core.current).pid = (s₂.core.task k.next).pid := by
        simpa [State.setCore, Core.ct, rep₂.core] using same
      rw [rep₂.core, pid, pid] at same
      simpa [Core.ct] using same)
    have stay : k.dispatch = (k.yield.start k.next).setCore
        { (k.yield.start k.next).core with
          tickCounter := ((k.yield.start k.next).core.task k.next).quantum } :=
      Kernel.switch_self (by simpa [Kernel.setQuantum, Kernel.setCore] using current)
    rw [stay]
    exact Agree.ok rep₃

end Represents

/-- A state represents a kernel with all heads that the kernel has in use. -/
abbrev Refines (s : State) (k : Kernel) : Prop := Represents k.core.Valid s k

theorem Core.valid_main (c : Core) (h : Head) (list : h.anchor = .list) : c.Valid h := by
  cases h <;> simp [Head.anchor, funext_iff, Valid] at *

namespace Refines

variable {valid : Head → Prop} {s : State} {k : Kernel} {h : Head} {t : Task} {out : Option Task}

theorem of_rep (rep : Represents valid s k) (fewer : ∀ j, k.core.Valid j → valid j) : Refines s k :=
  rep.mono fewer k.core.valid_main

theorem setTask (rep : Refines s k) (t : Task) (f : TaskStruct → TaskStruct)
    (pare : (f (k.core.task t)).pare = none → (k.core.task t).pare = none) :
    Refines (s.setTask t f) (k.setTask t f) :=
  of_rep (Represents.setTask rep t f pare) fun j valid => (Core.valid_congr j (by rfl) (by rfl) (by rfl)).mp valid

theorem sysReturn (rep : Refines s k) (v : Option Int) : Refines (s.sysReturn v) (k.sysReturn v) := by
  have := rep.setTask k.core.current (fun t => { t with kEsp := .user, eax := v }) id
  rw [State.setTask, rep.core] at this
  rwa [State.sysReturn, Core.sysReturn, rep.core]

theorem sameTasks (rep : Refines s k) {c : Core} (same : k.core.SameTasks c) :
    Refines (s.setCore c) (k.setCore c) := by
  refine of_rep (Represents.setCore rep c fun t live pare => ?_) fun j valid => ?_
  · rw [same.live] at live
    rw [same.task] at pare
    exact ⟨live, pare⟩
  · exact (Core.valid_congr j same.live same.semaphores same.current).mp valid

/-- A call of the scheduler. -/
theorem sched (rep : Represents valid s k) (kont : Kont)
    (sound : (k.setTask k.core.current fun ts => { ts with kEsp := kont }).Sound none) (leaves : k.Leaves)
    (own : k.core.live k.core.current ∨ k.core.ct.pid < 0)
    (fewer : ∀ j, (k.sched kont).core.Valid j → valid j) :
    Agree Refines (s.schedNextRr kont) (.ok (k.sched kont)) := by
  unfold State.schedNextRr
  rw [rep.core]
  have saved := rep.setTask k.core.current (fun ts => { ts with kEsp := kont }) id
  have done := saved.dispatch sound (by simpa [Kernel.Leaves, Core.ct] using leaves)
    (by simpa [Core.ct] using own)
  exact done.mono_ok fun s' rep' => of_rep rep' fewer

theorem valid_dispatch (sound : k.Sound out) (j : Head)
    (valid : k.dispatch.core.Valid j) : k.core.Valid j := by
  obtain ⟨cr3, tickCounter, core⟩ := Kernel.dispatch_core k
  have live := sound.live_next
  rw [core] at valid
  cases j <;> simp [Core.Valid] at valid ⊢
  case blockedThreads i => exact valid
  all_goals grind

theorem live_of_valid_dispatch (sound : k.Sound out) {t : Task} (valid : k.dispatch.core.Valid (.fills t)) :
    k.core.live t := by
  obtain ⟨cr3, tickCounter, core⟩ := Kernel.dispatch_core k
  have live := sound.live_next
  rw [core] at valid
  simp [Core.Valid] at valid
  grind

theorem schedCall (rep : Refines s k) (sound : k.Sound none) (call : k.core.InCall) (kont : Kont)
    (fits : k.core.Fits k.core.current kont) : Agree Refines (s.schedNextRr kont) (.ok (k.sched kont)) := by
  have saved := sound.save (fun ts => { ts with kEsp := kont }) (fun _ => ⟨rfl, rfl, rfl, rfl⟩) (.inl call.task)
    (by simp [call.run]) (fun _ => fits)
  exact sched rep kont saved (.inl call.live) (.inl call.live) (valid_dispatch saved)

/-- The running task falls asleep in its call. -/
theorem park (kont : Kont) (rep : Represents k.core.Valid s (k.enqueue? kont.waitHead k.core.current)) (sound : k.Sound none)
    (call : k.core.InCall) (fits : k.core.Fits k.core.current kont)
    (valid : ∀ h, kont.waitHead = some h → k.core.Valid h) :
    Agree Refines (s.updateProcessStateRr s.core.current (some .blocked) >>= fun s => s.schedNextRr kont)
      (.ok (k.park kont).dispatch) := by
  have parked := sound.park call kont fits valid
  have run := call.running
  have queued := Kernel.placed_enqueue? (t := k.core.current) sound.placed kont.waitHead fun j here home => by
    cases j <;> simp [Core.Home, run] at here home
  have settled : (k.enqueue? kont.waitHead k.core.current).Settled k.core.current := by
    refine (sound.settled call.live call.task).other (by simp) (fun j list => ?_) queued.nodup
    cases waits : kont.waitHead with
    | none => rfl
    | some h =>
      have : j ≠ h := by rintro rfl; cases j <;> simp [Head.anchor, funext_iff] at waits list
      simp [Kernel.enqueue?, Kernel.enqueue, this]
  rw [rep.core, Kernel.enqueue?_core]
  refine (rep.update_move settled (.inr (.inl rfl))).bind_ok fun s₁ rep₁ => ?_
  unfold State.schedNextRr
  rw [rep₁.core, Kernel.move_core, Kernel.enqueue?_core]
  have saved := rep₁.setTask k.core.current (fun ts => { ts with kEsp := kont }) id
  have done := saved.dispatch parked (.inl (by simpa using call.live)) (.inl (by simpa using call.live))
  refine done.mono_ok fun s' rep' => of_rep rep' fun j v => ?_
  have := valid_dispatch parked j v
  rw [Kernel.park_core] at this
  exact (Core.valid_congr j (by rfl) (by rfl) (by rfl)).mp this

/-- The first sleeper of a semaphore is woken. -/
theorem wakeFirst (rep : Refines s k) (sound : k.Sound none) {i : SemIndex} {rest : List Task}
    (first : k.queues (.blockedThreads i) = t :: rest) : Agree Refines (s.wakeFirst i) (.ok (k.wake t)) := by
  obtain ⟨live, state, kEsp⟩ := sound.first_blocked first
  have task : t ≠ idleTask := by
    rintro rfl
    have := sound.good.idle
    simp [state] at this
  have valid : k.core.Valid (.blockedThreads i) := sound.good.valid _ t ⟨live, state, kEsp⟩
  have settled : (k.dequeue (.blockedThreads i) t).Settled t := by
    refine (sound.settled live task).other rfl (fun j list => ?_) (Kernel.placed_dequeue sound.placed _ _).nodup
    have : j ≠ .blockedThreads i := by rintro rfl; simp [Head.anchor, funext_iff] at list
    simp [Kernel.dequeue, this]
  unfold State.wakeFirst
  rw [rep.listFirst valid first, ok_bind, listHeadToTaskStruct_anchor, ok_bind]
  refine (rep.listDel valid (t := t) (by simp [first])).bind_ok fun s₁ rep₁ => ?_
  refine (rep₁.update_move settled (.inl rfl)).mono_ok fun s₂ rep₂ => ?_
  rw [Kernel.wake, kEsp]
  exact of_rep rep₂ fun j valid => (Core.valid_congr j (by simp) (by simp) (by simp)).mp valid

theorem setSem (rep : Refines s k) (i : SemIndex) (f : Semaphore → Semaphore)
    (fewer : (k.core.semaphores i).free → (f (k.core.semaphores i)).free) :
    Refines (s.setCore (s.core.setSem i f)) (k.setSem i f) := by
  rw [rep.core]
  refine of_rep (Represents.setCore rep _ fun t live pare => ⟨live, pare⟩) fun j valid => ?_
  cases j <;> try exact valid
  case blockedThreads j =>
    simp [Core.Valid] at valid ⊢
    split at valid
    · rename_i same; subst same; grind
    · exact valid

/-- The running task enters a second list and falls asleep. -/
theorem enter (rep : Refines s k) (sound : k.Sound none) (call : k.core.InCall) (kont : Kont)
    (waits : kont.waitHead = some h) (fits : k.core.Fits k.core.current kont) (valid : k.core.Valid h) :
    Agree Refines (s.listAddTail (h.anchor s.core.current) (.head h) >>= fun s =>
        s.updateProcessStateRr s.core.current (some .blocked) >>= fun s => s.schedNextRr kont)
      (.ok (k.park kont).dispatch) := by
  have run := call.running
  have unlinked : Represents.Unlinked k.core.Valid k h k.core.current := fun j _ anchor mem => by
    rw [sound.placed.mem] at mem
    cases kont <;> simp [Kont.waitHead] at waits <;> subst waits <;>
      cases j <;> simp [Head.anchor, funext_iff, Core.Home, run] at anchor mem
  rw [rep.core]
  refine (rep.listAddTail valid unlinked fun u same => ?_).bind_ok fun s₁ rep₁ => ?_
  · subst same; simp at waits
  · refine park kont (k := k) ?_ sound call fits fun j other => ?_
    · rwa [waits]
    · rw [waits] at other; cases other; exact valid

theorem sysSemWait (rep : Refines s k) (sound : k.Sound none) (call : k.core.InCall) (semid : Int) :
    Agree Refines (s.sysSemWait semid) (.ok (k.sysSemWait semid)) := by
  unfold State.sysSemWait Kernel.sysSemWait
  rw [rep.core]
  split
  · exact Agree.ok (rep.sysReturn _)
  cases found : k.core.slotOf semid with
  | none => exact Agree.ok (rep.sysReturn _)
  | some i =>
    by_cases free : (k.core.semaphores i).free
    · simp only [free, if_true]
      exact Agree.ok (rep.sysReturn _)
    have free : (k.core.semaphores i).free = false := by simpa using free
    have counted := rep.setSem i (fun m => { m with value := int32 ((k.core.semaphores i).value - 1) }) id
    have sound := sound.countSem free (int32 ((k.core.semaphores i).value - 1))
    rw [rep.core] at counted
    simp only [free, Bool.false_eq_true, if_false]
    split
    · exact counted.enter sound (Kernel.inCall_setSem call i _) _ rfl trivial (by simp [Core.Valid, free])
    · exact Agree.ok (counted.sysReturn _)

theorem sysSemSignal (rep : Refines s k) (sound : k.Sound none) (call : k.core.InCall) (semid : Int)
    (allowed : k.core.Allowed (.syscall (.semSignal semid))) :
    Agree Refines (s.sysSemSignal semid) (k.sysSemSignal semid) := by
  unfold State.sysSemSignal Kernel.sysSemSignal
  rw [rep.core]
  split
  · exact Agree.ok (rep.sysReturn _)
  rename_i user
  cases found : k.core.slotOf semid with
  | none => exact Agree.ok (rep.sysReturn _)
  | some i =>
    by_cases free : (k.core.semaphores i).free
    · simp only [free, if_true]
      exact Agree.ok (rep.sysReturn _)
    have free : (k.core.semaphores i).free = false := by simpa using free
    have counted := rep.setSem i (fun m => { m with value := int32 ((k.core.semaphores i).value + 1) }) id
    have countedSound := sound.countSem free (int32 ((k.core.semaphores i).value + 1))
    rw [rep.core] at counted
    simp only [free, Bool.false_eq_true, if_false]
    split
    · rename_i waiting
      obtain ⟨t, sleeper⟩ := allowed i (Core.hit_eq_some.mpr ⟨Int.not_lt.mp user, found, free⟩) waiting
      have mem := (sound.placed.mem (.blockedThreads i) t).mpr sleeper
      cases first : k.queues (.blockedThreads i) with
      | nil => rw [first] at mem; contradiction
      | cons t rest =>
        obtain ⟨woken, inCall⟩ := countedSound.wakeFirst (Kernel.inCall_setSem call i _) first
        simp only [Kernel.setSem_queues, first]
        exact (counted.wakeFirst countedSound first).bind_ok fun s₁ rep₁ =>
          rep₁.schedCall woken inCall _ trivial
    · exact Agree.ok (counted.sysReturn _)

theorem sysSemCreate (rep : Refines s k) (initialValue : Int) :
    Agree Refines (s.sysSemCreate initialValue) (.ok (k.sysSemCreate initialValue)) := by
  unfold State.sysSemCreate Kernel.sysSemCreate
  rw [rep.core]
  cases found : k.core.freeSlot with
  | none => exact Agree.ok (rep.sysReturn _)
  | some i =>
    have filled := Represents.setCore rep (k.core.fillSlot i initialValue) fun t live pare => ⟨live, pare⟩
    have started : Yields (k.core.fillSlot i initialValue).Valid
        ((s.setCore (k.core.fillSlot i initialValue)).initListHead (.head (.blockedThreads i)))
        ((k.setCore (k.core.fillSlot i initialValue)).clear (.blockedThreads i)) := by
      refine filled.initListHead (fun j valid other => ?_) (Core.valid_main _)
      cases j <;> try exact valid
      case blockedThreads j =>
        have apart : j ≠ i := fun e => other (by rw [e])
        simpa [Core.Valid, Core.fillSlot, apart] using valid
    refine started.bind_ok fun s₁ rep₁ => ?_
    exact Agree.ok (sysReturn (k := (k.setCore (k.core.fillSlot i initialValue)).clear (.blockedThreads i)) rep₁ _)

/-- Two results of the wake-up loop. -/
def Round : Option State → Option Kernel → Prop
  | some s, some k => Refines s k
  | none, none => True
  | _, _ => False

theorem destroyRound (rep : Refines s k) (sound : k.Sound none) (call : k.core.InCall) {i : SemIndex}
    (semid : Int) (caller : DestroyCaller) (free : (k.core.semaphores i).free = false)
    (unmarked : k.core.Unmarked i) :
    Agree Round (s.destroyRound i semid caller) (.ok (k.destroyRound i semid caller)) := by
  unfold State.destroyRound Kernel.destroyRound
  rw [rep.listEmpty (by simpa [Core.Valid] using free), ok_bind]
  cases first : k.queues (.blockedThreads i) with
  | nil => exact Agree.ok trivial
  | cons t rest =>
    have marked := rep.setSem i (fun m => { m with creatorPID := -1 }) id
    have markedSound := sound.markSem free unmarked
    have inCall := Kernel.inCall_setSem call i fun m => { m with creatorPID := -1 }
    obtain ⟨woken, inCall⟩ := markedSound.wakeFirst inCall first
    simp only [List.isEmpty_cons, Bool.false_eq_true, if_false]
    refine (marked.wakeFirst markedSound first).bind_ok fun s₁ rep₁ => ?_
    refine (rep₁.schedCall woken inCall _ ?_).bind_ok fun s₂ rep₂ => Agree.ok rep₂
    exact Kernel.fits_destroyer free unmarked

/-- Two results of the loop over the slots. -/
def Loop (x : Option Int × State) (y : Option Int × Kernel) : Prop := x.1 = y.1 ∧ Refines x.2 y.2

theorem destroySlots (semid : Int) (caller : DestroyCaller) (slots : List SemIndex) {s : State} {k : Kernel}
    (rep : Refines s k) (sound : k.Sound none) (call : k.core.InCall) :
    Agree Loop (State.destroySlots semid caller slots s) (.ok (Kernel.destroySlots semid caller slots k)) := by
  induction slots generalizing s k with
  | nil => exact Agree.ok ⟨rfl, rep⟩
  | cons i slots ih =>
    unfold State.destroySlots Kernel.destroySlots
    rw [rep.core]
    split
    · split
      · exact Agree.ok ⟨rfl, rep⟩
      rename_i free
      split
      · exact Agree.ok ⟨rfl, rep⟩
      rename_i creator
      have unmarked := sound.unmarked call (by simpa using creator)
      have free : (k.core.semaphores i).free = false := by simpa using free
      refine (rep.destroyRound sound call semid caller free unmarked).bind_ok fun r round => ?_
      cases result : k.destroyRound i semid caller with
      | some k' =>
        rw [result] at round
        cases r with
        | some s' => exact Agree.ok ⟨rfl, round⟩
        | none => exact round.elim
      | none =>
        rw [result] at round
        cases r with
        | some s' => exact round.elim
        | none =>
          have freed := rep.setSem i (fun m => { m with free := true }) fun _ => rfl
          rw [rep.core] at freed
          exact ih freed (sound.freeSem unmarked result) (Kernel.inCall_setSem call i _)
    · exact ih rep sound call

theorem destroyFrom (rep : Refines s k) (sound : k.Sound none) (call : k.core.InCall) (i : SemIndex)
    (semid : Int) (caller : DestroyCaller) (free : (k.core.semaphores i).free = false)
    (unmarked : k.core.Unmarked i) :
    Agree Loop (s.destroyFrom i semid caller) (.ok (k.destroyFrom i semid caller)) := by
  unfold State.destroyFrom Kernel.destroyFrom
  refine (rep.destroyRound sound call semid caller free unmarked).bind_ok fun r round => ?_
  cases result : k.destroyRound i semid caller with
  | some k' =>
    rw [result] at round
    cases r with
    | some s' => exact Agree.ok ⟨rfl, round⟩
    | none => exact round.elim
  | none =>
    rw [result] at round
    cases r with
    | some s' => exact round.elim
    | none =>
      have freed := rep.setSem i (fun m => { m with free := true }) fun _ => rfl
      exact freed.destroySlots semid caller _ (sound.freeSem unmarked result) (Kernel.inCall_setSem call i _)

theorem sysSemDestroy (rep : Refines s k) (sound : k.Sound none) (call : k.core.InCall) (semid : Int) :
    Agree Refines (s.sysSemDestroy semid) (.ok (k.sysSemDestroy semid)) := by
  unfold State.sysSemDestroy Kernel.sysSemDestroy
  split
  · exact Agree.ok (rep.sysReturn _)
  refine (rep.destroySlots semid .syscall (List.finRange numSems) sound call).bind_ok ?_
  rintro ⟨v, s'⟩ ⟨same, rep'⟩
  generalize Kernel.destroySlots semid .syscall (List.finRange numSems) k = r at *
  obtain ⟨w, k'⟩ := r
  dsimp only at same rep'
  subst same
  cases v with
  | some v => exact Agree.ok (rep'.sysReturn _)
  | none => exact Agree.ok rep'

theorem sysBlock (rep : Refines s k) (sound : k.Sound none) (call : k.core.InCall) :
    Agree Refines s.sysBlock (.ok k.sysBlock) := by
  unfold State.sysBlock Kernel.sysBlock
  rw [rep.core]
  split
  · have parked := park .block (s := s) rep sound call trivial (by simp [Kont.waitHead])
    rwa [rep.core] at parked
  · have counted := rep.setTask k.core.current
      (fun t => { t with pendingUnblocks := int32 (t.pendingUnblocks - 1) }) id
    exact Agree.ok (counted.sysReturn _)

theorem sysWaitThread (rep : Refines s k) (sound : k.Sound none) (call : k.core.InCall) (pid : Int)
    (allowed : k.core.Allowed (.syscall (.waitThread pid))) :
    Agree Refines (s.sysWaitThread pid) (.ok (k.sysWaitThread pid)) := by
  unfold State.sysWaitThread Kernel.sysWaitThread
  rw [rep.core]
  cases found : k.core.taskOf pid with
  | none => exact Agree.ok (rep.sysReturn _)
  | some bt =>
    have entered := rep.enter sound call (.waitThread bt) rfl trivial (.inl (allowed bt found))
    rwa [rep.core] at entered

end Refines

/-- `sys_exit` behind its loop over the semaphores, up to its last `sched_next_rr()`. -/
def State.depart (s : State) : Except Fault State := do
  let ct := s.core.current
  let core ← memory s.core.exitMemory
  let s := s.setCore core.clearTask
  let s ← s.listDel (.parentAnchor ct)
  let s ← forEachSafe State.orphan (.head (.fills ct)) s
  let s ← forEachSafe State.releaseWaiter (.head (.waitList ct)) s
  s.updateProcessStateRr ct (some .freequeue)

def Kernel.depart (k : Kernel) : Except Fault Kernel := do
  let ct := k.core.current
  let core ← memory k.core.exitMemory
  let k ← (k.setCore core.clearTask).leaveFather ct k.core.ct.pare
  let k := (k.adopt ct).releaseWaiters ct
  return (k.setTask ct fun t => { t with currentState := .stFree }).enqueue .freequeue ct

theorem State.exitTail_eq (s : State) : s.exitTail = s.depart >>= fun s => s.schedNextRr .exited := by
  simp only [State.exitTail, State.depart, bind_assoc]

theorem Kernel.exitTail_eq (k : Kernel) : k.exitTail = k.depart >>= fun k => .ok (k.sched .exited) := by
  simp only [Kernel.exitTail, Kernel.depart, bind_assoc, pure_bind]
  rfl

/-- The node a walk over a list reaches when `rest` is still to come. -/
def nodeAfter (h : Head) (rest : List Task) : Node := (rest.map h.anchor).headD (.head h)

theorem nodeAfter_ne_null (h : Head) (rest : List Task) : nodeAfter h rest ≠ .null := by
  cases rest with
  | nil => simp [nodeAfter]
  | cons t rest => simpa [nodeAfter] using Head.anchor_ne_null h t

theorem Represents.next_first {valid : Head → Prop} {s : State} {k : Kernel} (rep : Represents valid s k)
    {h : Head} (vh : valid h) : s.links.next (.head h) = nodeAfter h (k.queues h) := by
  have ring := rep.rings.ring h vh
  unfold nodeAfter
  cases q : k.queues h with
  | nil => rw [q] at ring; exact ring.next_nil
  | cons t rest => rw [q] at ring; exact ring.next_cons

theorem Represents.next_after {valid : Head → Prop} {s : State} {k : Kernel} (rep : Represents valid s k)
    {h : Head} (vh : valid h) {before rest : List Task} {t : Task}
    (split : k.queues h = before ++ t :: rest) : s.links.next (h.anchor t) = nodeAfter h rest := by
  have ring := rep.rings.ring h vh
  rw [split, List.map_append, List.map_cons] at ring
  exact ring.next_inner

/-- A walk over a list whose links the body leaves alone. -/
theorem listForEach_agree {α : Type} {body : Node → Int × State → Except Fault (Int × State)} {f : α → Task → α}
    {h : Head} (inv : List Task → Int × State → α → Prop)
    (round : ∀ t rest r b, inv (t :: rest) r b → ∃ r', body (h.anchor t) r = .ok r' ∧
      inv rest r' (f b t) ∧ r'.2.links.next (h.anchor t) = nodeAfter h rest)
    (xs : List Task) (fuel : Nat) (enough : xs.length < fuel) {r : Int × State} {b : α} (start : inv xs r b) :
    Agree (inv []) (listForEach body (.head h) fuel (nodeAfter h xs) r) (.ok (xs.foldl f b)) := by
  induction xs generalizing fuel r b with
  | nil =>
    obtain ⟨fuel, rfl⟩ : ∃ n, fuel = n + 1 := ⟨fuel - 1, by simp at enough; omega⟩
    simpa [listForEach, nodeAfter] using Agree.ok start
  | cons t rest ih =>
    obtain ⟨fuel, rfl⟩ : ∃ n, fuel = n + 1 := ⟨fuel - 1, by simp at enough; omega⟩
    obtain ⟨r', done, kept, next⟩ := round t rest r b start
    have inner : nodeAfter h (t :: rest) = h.anchor t := rfl
    rw [listForEach, inner, if_neg (Head.anchor_ne_head h h t), done, ok_bind, State.loadNext,
      if_neg (Head.anchor_ne_null h t), ok_bind, next]
    exact ih fuel (by simpa using enough) kept

/-- A walk that has read the next node before its body runs. -/
theorem listForEachSafe_agree {α : Type} {body : Node → State → Except Fault State} {f : α → Task → α}
    {h : Head} (inv : List Task → State → α → Prop)
    (linked : ∀ t rest s b, inv (t :: rest) s b → s.links.next (h.anchor t) = nodeAfter h rest)
    (round : ∀ t rest s b, inv (t :: rest) s b → ∃ s', body (h.anchor t) s = .ok s' ∧ inv rest s' (f b t))
    (xs : List Task) (fuel : Nat) (enough : xs.length < fuel) (n : Node)
    (saved : ∀ t rest, xs = t :: rest → n = nodeAfter h rest) {s : State} {b : α} (start : inv xs s b) :
    Agree (inv []) (listForEachSafe body (.head h) fuel (nodeAfter h xs) n s) (.ok (xs.foldl f b)) := by
  induction xs generalizing fuel n s b with
  | nil =>
    obtain ⟨fuel, rfl⟩ : ∃ n, fuel = n + 1 := ⟨fuel - 1, by simp at enough; omega⟩
    simpa [listForEachSafe, nodeAfter] using Agree.ok start
  | cons t rest ih =>
    obtain ⟨fuel, rfl⟩ : ∃ n, fuel = n + 1 := ⟨fuel - 1, by simp at enough; omega⟩
    obtain ⟨s', done, kept⟩ := round t rest s b start
    have inner : nodeAfter h (t :: rest) = h.anchor t := rfl
    rw [saved t rest rfl, listForEachSafe, inner, if_neg (Head.anchor_ne_head h h t), done, ok_bind,
      State.loadNext, if_neg (nodeAfter_ne_null h rest), ok_bind]
    refine ih fuel (by simpa using enough) _ (fun u rest' same => ?_) kept
    subst same
    exact linked u rest' s' _ kept

theorem queue_length {queues : Queues} {home : Head → Task → Prop} (placed : Placed queues home) (h : Head) :
    (queues h).length < walkBound := by
  have bound := (placed.nodup h).length_le_card
  rw [Fintype.card_fin] at bound
  simp only [walkBound, nrTasks] at *
  omega

namespace Refines

variable {valid : Head → Prop} {s : State} {k : Kernel} {h : Head} {t : Task} {out : Option Task}

/-- The walk of `sys_unblock` keeps its place in the list of children. -/
structure Walk (ct : Task) (pid : Int) (rest : List Task) (r : Int × State) (b : Int × Kernel) : Prop where
  ret : r.1 = b.1
  rep : Refines r.2 b.2
  sound : b.2.Sound none
  call : b.2.core.InCall
  current : b.2.core.current = ct
  place : ∃ before, b.2.queues (.fills ct) = before ++ rest
  allowed : ∀ t, b.2.core.live t → (b.2.core.task t).pare = some ct → (b.2.core.task t).pid = pid →
    (b.2.core.task t).currentState = .stBlocked → (b.2.core.task t).kEsp = .block

theorem wake_sleeper (rep : Refines s k) (sound : k.Sound out) (live : k.core.live t)
    (state : (k.core.task t).currentState = .stBlocked) (kEsp : (k.core.task t).kEsp = .block) :
    Agree Refines (s.updateProcessStateRr t (some .readyqueue)) (.ok (k.wake t)) := by
  have task : t ≠ idleTask := by
    rintro rfl
    have := sound.good.idle
    simp [state] at this
  refine (rep.update_move (sound.settled live task) (.inl rfl)).mono_ok fun s' rep' => ?_
  have same : k.wake t = k.move t .readyqueue := by simp [Kernel.wake, kEsp, Kont.waitHead, Kernel.dequeue?]
  rw [same]
  exact of_rep rep' fun j valid => (Core.valid_congr j (by simp) (by simp) (by simp)).mp valid

theorem Walk.round {ct : Task} {pid : Int} {rest : List Task} {r : Int × State} {b : Int × Kernel}
    (walk : Walk ct pid (t :: rest) r b) : ∃ r', State.unblockChild pid (.parentAnchor t) r = .ok r' ∧
      Walk ct pid rest r' (Kernel.unblockChild pid b t) ∧
      r'.2.links.next (.parentAnchor t) = nodeAfter (.fills ct) rest := by
  obtain ⟨ret, rep, sound, call, current, ⟨before, place⟩, allowed⟩ := walk
  obtain ⟨v, s⟩ := r
  obtain ⟨w, k⟩ := b
  dsimp only at *
  subst ret
  have home := (sound.placed.mem (.fills ct) t).mp (by simp [place])
  have valid : k.core.Valid (.fills ct) := .inr current.symm
  have place' : k.queues (.fills ct) = (before ++ [t]) ++ rest := by simp [place]
  unfold State.unblockChild Kernel.unblockChild
  simp only [listHeadToTaskStruct, ok_bind, rep.core]
  split
  · rename_i matching
    split
    · rename_i state
      have kEsp := allowed t home.1 home.2 matching state
      obtain ⟨k₁, same, rep₁⟩ := (rep.wake_sleeper sound home.1 state kEsp).of_yields
      have queue : (k.wake t).queues (.fills ct) = k.queues (.fills ct) :=
        Kernel.wake_queues_other (by simp) (by simp) (by simp)
      refine ⟨_, by rw [same]; rfl, ⟨rfl, rep₁, sound.wake home.1 state, Kernel.inCall_wake call ?_,
        by simpa using current, ⟨before ++ [t], by rw [queue, place']⟩, fun u live pare pid blocked => ?_⟩, ?_⟩
      · rintro rfl
        have run := call.run
        rw [Core.ct, state] at run
        contradiction
      · simp only [Kernel.wake_core, Core.setTask_task, Core.setTask_live] at live pare pid blocked ⊢
        have := allowed u live
        grind
      · exact rep₁.next_after (h := .fills ct) (by simpa [Core.Valid] using valid) (by rw [queue, place])
    · have rep₁ := rep.setTask t (fun t => { t with pendingUnblocks := int32 (t.pendingUnblocks + 1) }) id
      refine ⟨_, rfl, ⟨rfl, rep₁, sound.adjust _ _ (by simp), Kernel.inCall_adjust call _ _ (by simp),
        current, ⟨before ++ [t], place'⟩, fun u live pare pid blocked => ?_⟩, ?_⟩
      · simp only [Kernel.setTask_core, Core.setTask_task, Core.setTask_live] at live pare pid blocked ⊢
        have := allowed u live
        grind
      · exact rep₁.next_after (h := .fills ct) valid place
  · exact ⟨_, rfl, ⟨rfl, rep, sound, call, current, ⟨before ++ [t], place'⟩, allowed⟩,
      rep.next_after (h := .fills ct) valid place⟩

theorem sysUnblock (rep : Refines s k) (sound : k.Sound none) (call : k.core.InCall) (pid : Int)
    (allowed : k.core.Allowed (.syscall (.unblock pid))) :
    Agree Refines (s.sysUnblock pid) (.ok (k.sysUnblock pid)) := by
  have valid : k.core.Valid (.fills k.core.current) := .inl call.live
  have walk : Walk k.core.current pid (k.queues (.fills k.core.current)) (-1, s) (-1, k) :=
    ⟨rfl, rep, sound, call, rfl, ⟨[], rfl⟩, allowed⟩
  unfold State.sysUnblock Kernel.sysUnblock forEach
  rw [rep.core]
  simp only [State.loadNext, reduceCtorEq, if_false, ok_bind, rep.next_first valid]
  refine (listForEach_agree (h := .fills k.core.current) (Walk k.core.current pid)
    (fun t rest r b walk => walk.round) _ walkBound (queue_length sound.placed _) walk).bind_ok ?_
  rintro ⟨ret, s'⟩ ⟨same, rep', sound', call', _, _, _⟩
  dsimp only at same rep'
  subst same
  exact rep'.schedCall sound' call' _ trivial

/-- The heads in use while `ct` leaves: its children are no longer in its list. -/
def LeavingHeads (c : Core) (ct : Task) (j : Head) : Prop := c.Valid j ∧ j ≠ .fills ct

/-- The walk of `sys_exit` over the children: those still to come hang together. -/
structure Orphans (heads : Head → Prop) (ct : Task) (rest : List Task) (s : State) (k : Kernel) : Prop where
  rep : Represents heads s k
  good : k.core.Good
  nodup : rest.Nodup
  children : ∀ t ∈ rest, k.core.live t ∧ (k.core.task t).pare = some ct
  placed : Placed k.queues fun j u => k.core.Home (some ct) j u ∧ ¬ (j = .fills ct ∧ u ∈ rest)
  chain : ∀ before t after, rest = before ++ t :: after →
    s.links.next (.parentAnchor t) = nodeAfter (.fills ct) after

theorem Orphans.round {heads : Head → Prop} {ct : Task} {rest : List Task} (task : ct ≠ idleTask)
    (valid : heads (.fills idleTask)) (gone : ¬ heads (.fills ct))
    (orphans : Orphans heads ct (t :: rest) s k) : ∃ s', State.orphan (.parentAnchor t) s = .ok s' ∧
      Orphans heads ct rest s' (k.adoptChild t) := by
  obtain ⟨rep, good, nodup, children, placed, chain⟩ := orphans
  obtain ⟨absent, nodup'⟩ := List.nodup_cons.mp nodup
  obtain ⟨good', children', placed'⟩ := Kernel.adopt_round task good nodup children placed
  have stated := rep.setTask t (fun ts => { ts with pare := idleTask }) (by simp)
  have unlinked : Represents.Unlinked heads (k.setTask t fun ts => { ts with pare := idleTask })
      (.fills idleTask) t := fun j valid anchor mem => by
    have home := (placed.mem j t).mp mem
    cases j <;> simp [Head.anchor, funext_iff] at anchor
    case fills u =>
      have pare := (children t (by simp)).2
      simp only [Core.Home, pare, Option.some.injEq] at home
      rw [← home.1.2] at valid
      exact gone valid
  have last := Represents.linked_ne_null (stated.rings.ring _ valid).prev_mem
  have done := Represents.listAddTail_ok (s := s.setTask t fun ts => { ts with pare := idleTask })
    (.parentAnchor t) (.head (.fills idleTask)) (by simp) (by simp) last
  have added := stated.listAddTail valid unlinked (by simp)
  obtain ⟨s', same, rep'⟩ := added.of_yields
  refine ⟨s', by simpa [State.orphan, listHeadToTaskStruct, Head.anchor] using same, rep', good', nodup',
    children', placed', fun before u after split => ?_⟩
  have mem : u ∈ rest := by simp [split]
  have other : Node.parentAnchor u ≠ .parentAnchor t := by
    simp only [ne_eq, Node.parentAnchor.injEq]
    rintro rfl
    exact absent mem
  have outside : Node.parentAnchor u ∉ Node.head (.fills idleTask) ::
      ((k.setTask t fun ts => { ts with pare := idleTask }).queues (.fills idleTask)).map
        (Head.fills idleTask).anchor := by
    simp only [List.mem_cons, reduceCtorEq, List.mem_map, false_or, not_exists, not_and]
    intro v mem' same
    cases same
    have home := (placed.mem (.fills idleTask) u).mp mem'
    have pare := (children u (by simp [mem])).2
    simp only [Core.Home, pare, Option.some.injEq] at home
    exact task home.1.2
  have apart : Node.parentAnchor u ≠ .head (.fills idleTask) := by simp
  have frame := (s.setTask t fun ts => { ts with pare := idleTask }).links.insert_frame other
    (stated.rings.prev_ne valid outside) apart
  have links : s'.links = (s.setTask t fun ts => { ts with pare := idleTask }).links.insert (.parentAnchor t)
      ((s.setTask t fun ts => { ts with pare := idleTask }).links.prev (.head (.fills idleTask)))
      (.head (.fills idleTask)) := by
    have := same.symm.trans done
    cases this
    rfl
  rw [links, frame.1]
  exact chain (t :: before) u after (by rw [split]; rfl)

/-- `sys_exit` gives the children to the idle task. -/
theorem adopt {ct : Task} {heads : Head → Prop} (rep : Represents heads s k) (leaving : k.Leaving ct)
    (own : heads (.fills ct)) (idle : heads (.fills idleTask)) :
    Yields (fun j => heads j ∧ j ≠ .fills ct) (forEachSafe State.orphan (.head (.fills ct)) s)
      (k.adopt ct) := by
  obtain ⟨⟨good, placed⟩, current, task, gone, _⟩ := leaving
  have start : Orphans (fun j => heads j ∧ j ≠ .fills ct) ct (k.queues (.fills ct)) s (k.clear (.fills ct)) := by
    refine ⟨⟨rep.core, fun h list => ⟨rep.main h list, ?_⟩, ?_, fun t live pare => ?_⟩, good, placed.nodup _,
      fun t mem => (placed.mem (.fills ct) t).mp mem, ?_, fun before t after split => rep.next_after own split⟩
    · rintro rfl; simp [Head.anchor, funext_iff] at list
    · refine ⟨fun j valid => ?_, fun i j vi vj other => ?_⟩
      · simpa [Kernel.clear, valid.2] using rep.rings.ring j valid.1
      · simpa [Kernel.clear, vi.2, vj.2] using rep.rings.apart i j vi.1 vj.1 other
    · obtain ⟨next, prev, out⟩ := rep.root t live pare
      exact ⟨next, prev, fun u valid => by simpa [Kernel.clear, valid.2] using out u valid.1⟩
    · refine (placed.clear (.fills ct)).congr fun j u => ?_
      constructor
      · rintro ⟨home, other⟩
        exact ⟨home, fun same => other same.1⟩
      · rintro ⟨home, apart⟩
        refine ⟨home, fun same => apart ⟨same, ?_⟩⟩
        rw [placed.mem, ← same]
        exact home
  unfold forEachSafe
  simp only [State.loadNext, reduceCtorEq, if_false, ok_bind, rep.next_first own,
    nodeAfter_ne_null (.fills ct) (k.queues (.fills ct))]
  have walked := listForEachSafe_agree (h := .fills ct) (Orphans (fun j => heads j ∧ j ≠ .fills ct) ct)
    (f := Kernel.adoptChild)
    (fun t rest s b orphans => orphans.chain [] t rest rfl)
    (fun t rest s b orphans => orphans.round task ⟨idle, by simpa using Ne.symm task⟩ (fun valid => valid.2 rfl))
    (k.queues (.fills ct)) walkBound (queue_length placed _)
    (s.links.next (nodeAfter (.fills ct) (k.queues (.fills ct))))
    (fun t rest split => by
      have first : k.queues (.fills ct) = [] ++ t :: rest := split
      rw [split]
      exact rep.next_after own first) start
  exact walked.mono_ok fun s' orphans => orphans.rep

/-- `sys_exit` dequeues a waiter after it made it ready; `wake` does it before. -/
theorem move_dequeue (k : Kernel) (t u : Task) :
    (k.move t .readyqueue).dequeue (.waitList u) t = (k.dequeue (.waitList u) t).move t .readyqueue := by
  simp only [Kernel.move, Kernel.dequeue, Kernel.enqueue, Kernel.setTask, Kernel.setCore, Kernel.mk.injEq]
  refine ⟨?_, by simp⟩
  funext j
  cases (k.core.task t).currentState <;>
    simp only [TaskState.queue, Kernel.dequeue?, Kernel.dequeue, Function.update_apply] <;>
    cases j <;> simp

/-- The walk of `sys_exit` over the waiters. -/
structure Waiters (heads : Head → Prop) (ct : Task) (rest : List Task) (s : State) (k : Kernel) : Prop where
  rep : Represents heads s k
  leaving : k.Leaving ct
  queue : k.queues (.waitList ct) = rest

theorem Waiters.round {heads : Head → Prop} {ct : Task} {rest : List Task} (valid : heads (.waitList ct))
    (waiters : Waiters heads ct (t :: rest) s k) :
    ∃ s', State.releaseWaiter (.waitAnchor t) s = .ok s' ∧ Waiters heads ct rest s' (k.wake t) := by
  obtain ⟨rep, leaving, queue⟩ := waiters
  obtain ⟨live, state, kEsp⟩ := (leaving.placed.mem (.waitList ct) t).mp (by simp [queue])
  have task : t ≠ idleTask := by
    rintro rfl
    have := leaving.good.idle
    simp [state] at this
  have woken : k.wake t = (k.move t .readyqueue).dequeue (.waitList ct) t := by
    rw [move_dequeue, Kernel.wake, kEsp]
    rfl
  have queue' : (k.wake t).queues (.waitList ct) = rest := by
    rw [Kernel.wake_queues_wait (by simp) (by simp [kEsp]) (by simp), queue]
    simp
  have linked : t ∈ (k.move t .readyqueue).queues (.waitList ct) := by
    have moved := Kernel.placed_move (h := .readyqueue) (t := t) leaving.placed (by simp [Core.Home])
    rw [moved.mem]
    simp [Core.Home, live, state, kEsp]
  obtain ⟨s₁, same, rep₁⟩ := (rep.update_move (leaving.settled live task) (.inl rfl)).of_yields
  obtain ⟨s₂, same', rep₂⟩ := (rep₁.listDel valid linked).of_yields
  have same' : s₁.listDel (.waitAnchor t) = .ok s₂ := same'
  refine ⟨s₂, by simp [State.releaseWaiter, listHeadToTaskStruct, same, same'], ?_, leaving.wake live state, queue'⟩
  rwa [woken]

theorem releaseWaiters {ct : Task} {heads : Head → Prop} (rep : Represents heads s k) (leaving : k.Leaving ct)
    (own : heads (.waitList ct)) :
    Yields heads (forEachSafe State.releaseWaiter (.head (.waitList ct)) s) (k.releaseWaiters ct) := by
  unfold forEachSafe
  simp only [State.loadNext, reduceCtorEq, if_false, ok_bind, rep.next_first own,
    nodeAfter_ne_null (.waitList ct) (k.queues (.waitList ct))]
  have walked := listForEachSafe_agree (h := .waitList ct) (Waiters heads ct)
    (f := fun k t => k.wake t)
    (fun t rest s b waiters => waiters.rep.next_after own
      (show b.queues (.waitList ct) = [] ++ t :: rest from waiters.queue))
    (fun t rest s b waiters => waiters.round own)
    (k.queues (.waitList ct)) walkBound (queue_length leaving.placed _)
    (s.links.next (nodeAfter (.waitList ct) (k.queues (.waitList ct))))
    (fun t rest split => by
      have first : k.queues (.waitList ct) = [] ++ t :: rest := split
      rw [split]
      exact rep.next_after own first) ⟨rep, leaving, rfl⟩
  exact walked.mono_ok fun s' waiters => waiters.rep

theorem setBlank (L : Links Node) (n : Node) (next : L.next n = .null) (prev : L.prev n = .null) :
    (L.setNext n .null).setPrev n .null = L := by
  cases L
  simp only [Links.setNext, Links.setPrev, Links.mk.injEq] at *
  exact ⟨by rw [← next, Function.update_eq_self], by rw [← prev, Function.update_eq_self]⟩

/-- The first `list_del` of `sys_exit`; without a father it meets NULL pointers. -/
theorem leaveFather (rep : Refines s k) (sound : k.Sound none) (call : k.core.InCall) :
    Agree (Represents k.core.Valid)
      ((s.setCore k.core.clearTask).listDel (.parentAnchor k.core.current))
      ((k.setCore k.core.clearTask).leaveFather k.core.current k.core.ct.pare) := by
  have cleared := Represents.setCore rep k.core.clearTask fun t live pare => by
    by_cases same : t = k.core.current
    · simp [same, Core.clearTask] at live
    · simpa [Core.clearTask, same, Function.update_apply] using And.intro live pare
  unfold Kernel.leaveFather
  cases pare : k.core.ct.pare with
  | some u =>
    have home : k.core.Home none (.fills u) k.core.current := ⟨call.live, pare⟩
    exact cleared.listDel (sound.good.valid _ _ home) ((sound.placed.mem _ _).mpr home)
  | none =>
    obtain ⟨next, prev, _⟩ := rep.root _ call.live pare
    simp only [State.listDel, State.loadPrev, State.loadNext, State.storePrev, State.storeNext, reduceCtorEq,
      if_false, ok_bind, State.setCore, next, prev, if_true, Kernel.setCore_core]
    by_cases mapped : k.core.clearTask.pageZeroMapped = true
    · simp only [mapped, if_true, ok_bind, setBlank s.links _ next prev]
      exact Agree.ok cleared
    · simp only [mapped, Bool.false_eq_true, if_false]
      exact Agree.error _

/-- The PCB goes to the free queue. -/
theorem retire {ct : Task} {heads : Head → Prop} (rep : Represents heads s k) (leaving : k.Leaving ct) :
    Agree (Represents heads) (s.updateProcessStateRr ct (some .freequeue))
      (.ok ((k.setTask ct fun t => { t with currentState := .stFree }).enqueue .freequeue ct)) := by
  obtain ⟨⟨good, placed⟩, rfl, task, gone, negative⟩ := leaving
  have stated := rep.setTask k.core.current (fun t => { t with currentState := .stFree }) id
  have unlinked : Represents.Unlinked heads (k.setTask k.core.current fun t => { t with currentState := .stFree })
      .freequeue k.core.current := fun j _ anchor mem => by
    have home := (placed.mem j _).mp mem
    cases j <;> simp [Head.anchor, funext_iff, Core.Home, gone] at anchor home
  unfold State.updateProcessStateRr
  rw [if_pos (by rw [rep.core]; exact negative)]
  exact stated.listAddTail (rep.main .freequeue rfl) unlinked (by simp)

/-- The processor goes to another task. -/
theorem finish {ct : Task} {heads : Head → Prop}
    (rep : Represents heads s ((k.setTask ct fun t => { t with currentState := .stFree }).enqueue .freequeue ct))
    (leaving : k.Leaving ct) (alone : k.queues (.fills ct) = []) (released : k.queues (.waitList ct) = [])
    (fewer : ∀ j, k.core.Valid j → j ≠ .fills ct → heads j) :
    Agree Refines (s.schedNextRr .exited)
      (.ok (((k.setTask ct fun t => { t with currentState := .stFree }).enqueue .freequeue ct).sched .exited)) := by
  have freed := leaving.free
  obtain ⟨⟨good, placed⟩, rfl, task, gone, negative⟩ := leaving
  have saved := freed.save (fun ts => { ts with kEsp := .exited }) (fun _ => ⟨rfl, rfl, rfl, rfl⟩)
    (.inl (by simpa using task)) (by simp [Core.ct]) (by simp [gone])
  refine sched rep .exited saved (.inr ⟨by simp [Core.ct], ?_, ?_⟩) (.inr (by simpa [Core.ct] using negative))
    fun j valid => ?_
  · simpa [Kernel.enqueue, Function.update_apply] using alone
  · simpa [Kernel.enqueue, Function.update_apply] using released
  · have old := valid_dispatch saved j valid
    refine fewer j ((Core.valid_congr j (by simp) (by simp) (by simp)).mp old) ?_
    rintro rfl
    have alive := live_of_valid_dispatch saved valid
    simp [gone] at alive

/-- `sys_exit` behind its loop over the semaphores, up to its last switch. -/
theorem depart (rep : Refines s k) (sound : k.Sound none) (call : k.core.InCall) :
    Agree (Represents (LeavingHeads k.core k.core.current)) s.depart k.depart := by
  unfold State.depart Kernel.depart
  rw [rep.core]
  refine Agree.bind_same fun core done => ?_
  have same := Kernel.exitMemory_sameTasks done
  have current : k.core.current = core.current := same.current.symm
  have pare : k.core.ct.pare = core.ct.pare := by simp only [Core.ct, same.task, same.current]
  have heads : LeavingHeads k.core core.current = fun j => core.Valid j ∧ j ≠ .fills core.current :=
    funext fun j => by rw [LeavingHeads, Core.valid_congr (c := k.core) j same.live same.semaphores same.current]
  rw [current, pare, heads]
  have left := leaveFather (rep.sameTasks same) (sound.sameTasks same) (same.inCall call)
  refine left.bind_of fun s₁ k₁ _ leave rep₁ => ?_
  have leaving : k₁.Leaving core.current := (sound.sameTasks same).clearTask (same.inCall call) leave
  have good := same.good sound.good
  refine (adopt rep₁ leaving (.inr rfl) (.inl good.idle.1)).bind_ok fun s₂ rep₂ => ?_
  obtain ⟨leaving₂, _⟩ := leaving.adopt
  refine (releaseWaiters rep₂ leaving₂ ⟨.inr rfl, by simp⟩).bind_ok fun s₃ rep₃ => ?_
  exact retire rep₃ (leaving₂.releaseWaiters (leaving.adopt).2).1

theorem exitTail (rep : Refines s k) (sound : k.Sound none) (call : k.core.InCall) :
    Agree Refines s.exitTail k.exitTail := by
  rw [State.exitTail_eq, Kernel.exitTail_eq]
  refine (rep.depart sound call).bind_of fun s₁ k₁ _ departed rep₁ => ?_
  obtain ⟨core, done, departed⟩ := bind_ok.mp departed
  obtain ⟨left, leave, departed⟩ := bind_ok.mp departed
  cases departed
  have same := Kernel.exitMemory_sameTasks done
  have current : k.core.current = core.current := same.current.symm
  have pare : k.core.ct.pare = core.ct.pare := by simp only [Core.ct, same.task, same.current]
  rw [current, pare] at leave
  rw [current] at rep₁ ⊢
  have leaving : left.Leaving core.current := (sound.sameTasks same).clearTask (same.inCall call) leave
  have core₁ : left.core = core.clearTask := Kernel.leaveFather_core leave
  obtain ⟨leaving₂, alone⟩ := leaving.adopt
  obtain ⟨leaving₃, alone, released⟩ := leaving₂.releaseWaiters alone
  refine finish rep₁ leaving₃ alone released fun j valid apart => ⟨?_, apart⟩
  have frame := leaving.frame_adopt.trans (Kernel.frame_releaseWaiters _ core.current)
  rw [Core.valid_congr (c := left.core) j frame.live frame.semaphores
    (leaving₃.current.trans leaving.current.symm), core₁] at valid
  rw [Core.valid_congr (c := core) j same.live.symm same.semaphores.symm same.current.symm]
  cases j <;> simp [Core.Valid, Core.clearTask, Function.update_apply] at valid ⊢ <;> grind

theorem exitSlots (slots : List SemIndex) {s : State} {k : Kernel} (rep : Refines s k) (sound : k.Sound none)
    (call : k.core.InCall) : Agree Refines (s.exitSlots slots) (k.exitSlots slots) := by
  induction slots generalizing s k with
  | nil => exact rep.exitTail sound call
  | cons j slots ih =>
    unfold State.exitSlots Kernel.exitSlots
    rw [rep.core]
    split
    · have leads := sound.destroySlots (k.core.semaphores j).id (.exit j) (List.finRange numSems) call
      refine (rep.destroySlots (k.core.semaphores j).id (.exit j) (List.finRange numSems) sound call).bind_ok ?_
      rintro ⟨v, s'⟩ ⟨same, rep'⟩
      generalize Kernel.destroySlots (k.core.semaphores j).id (.exit j) (List.finRange numSems) k = r at *
      obtain ⟨w, k'⟩ := r
      dsimp only at same rep'
      subst same
      cases v with
      | some v => exact ih rep' (leads.1 rfl).1 (leads.1 rfl).2
      | none => exact Agree.ok rep'
    · exact ih rep sound call

theorem schedReading (rep : Refines s k) (reading : k.Reading) (b : DWord) (maxchars : Int) :
    Agree Refines (s.schedNextRr (.read b maxchars)) (.ok (k.sched (.read b maxchars))) := by
  obtain ⟨sound, live, task, state⟩ := reading
  have saved := sound.save (fun ts => { ts with kEsp := .read b maxchars }) (fun _ => ⟨rfl, rfl, rfl, rfl⟩)
    (.inl task) (by rcases state with state | state <;> simp [state]) (by simp [Core.Fits])
  exact sched rep _ saved (.inl live) (.inl live) (valid_dispatch saved)

theorem readWait (rep : Refines s k) (reading : k.Reading) (b : DWord) (maxchars : Int) :
    Agree Refines (s.readWait b maxchars) (k.readWait b maxchars) := by
  unfold State.readWait Kernel.readWait
  rw [rep.core]
  split
  · exact rep.schedReading reading b maxchars
  · refine Agree.bind_same fun core done => ?_
    have same := Kernel.readChars_sameTasks done
    have rep₁ := rep.sameTasks same
    have settled : (k.setCore core).Settled core.current := by
      refine (reading.toSound.sameTasks same).settled ?_ ?_
      · rw [Kernel.setCore_core, same.live, same.current]; exact reading.live
      · rw [same.current]; exact reading.task
    refine (rep₁.update_start (.inr settled)).bind_ok fun s₁ rep₂ => Agree.ok ?_
    exact sysReturn (k := (k.setCore core).start core.current)
      (of_rep rep₂ fun j valid => (Core.valid_congr j (by simp) (by simp) (by simp)).mp valid) _

theorem sysRead (rep : Refines s k) (sound : k.Sound none) (call : k.core.InCall) (b : DWord) (maxchars : Int) :
    Agree Refines (s.sysRead b maxchars) (k.sysRead b maxchars) := by
  unfold State.sysRead Kernel.sysRead
  split
  · exact Agree.ok (rep.sysReturn _)
  split
  · exact Agree.ok (rep.sysReturn _)
  split
  · exact Agree.ok (rep.sysReturn _)
  have reading := sound.reading call
  rw [rep.core]
  refine (rep.update_move (h := .readBlocked) (sound.settled call.live call.task) (.inr (.inr rfl))).bind_ok
    fun s₁ moved => ?_
  have rep₁ : Refines s₁ (k.move k.core.current .readBlocked) :=
    of_rep moved fun j valid => (Core.valid_congr j (by simp) (by simp) (by simp)).mp valid
  have self : k.core.current ∈ (k.move k.core.current .readBlocked).queues .readBlocked := by
    rw [reading.placed.mem]
    simp [Core.Home, Head.state, call.live]
  rw [rep₁.listEmpty (rep₁.main .readBlocked rfl), ok_bind]
  cases first : (k.move k.core.current .readBlocked).queues .readBlocked with
  | nil => rw [first] at self; contradiction
  | cons t rest =>
    simp only [List.isEmpty_cons, Bool.false_eq_true, if_false, rep₁.listFirst (rep₁.main .readBlocked rfl) first,
      ok_bind, listHeadToTaskStruct_anchor, rep₁.core]
    have home := (reading.placed.mem .readBlocked t).mp (by simp [first])
    have same : ((k.move k.core.current .readBlocked).core.task t).pid =
        (k.move k.core.current .readBlocked).core.ct.pid ↔ t = k.core.current := by
      constructor
      · exact fun same => by simpa using reading.good.distinct _ _ home.1 reading.live same
      · rintro rfl; simp [Core.ct]
    by_cases self : t = k.core.current
    · rw [if_neg (by simpa using same.mpr self)]
      simp only [first, List.head?_cons, self, Kernel.move_core, Core.setTask_current, ne_eq, not_true_eq_false,
        if_false]
      exact rep₁.readWait reading b maxchars
    · rw [if_pos (fun pid => self (same.mp pid))]
      simp only [first, List.head?_cons, Kernel.move_core, Core.setTask_current, ne_eq, Option.some.injEq, self,
        not_false_eq_true, if_true]
      exact rep₁.schedReading reading b maxchars

/-- The PCB that was taken from the free queue gets the running task's contents. -/
theorem copyTaskUnion {heads : Head → Prop} {fill : Task} (rep : Represents heads s k)
    (dead : k.core.live fill = false) (unlinked : ∀ j, heads j → fill ∉ k.queues j)
    (unused : ¬ heads (.fills fill) ∧ ¬ heads (.waitList fill)) :
    Represents heads (s.copyTaskUnion fill) (k.setTask fill fun _ => k.core.ct) := by
  refine ⟨?_, rep.main, rep.rings.congr fun j valid n mem => ?_, fun t live pare => ?_⟩
  · rw [State.copyTaskUnion, rep.core]
    rfl
  · simp only [List.mem_cons, List.mem_map] at mem
    rcases mem with rfl | ⟨t, mem, rfl⟩
    · cases j <;> simp only [State.copyTaskUnion, and_self]
      all_goals
        rename_i u
        have other : u ≠ fill := by rintro rfl; tauto
        simp [other]
    · have other : t ≠ fill := by rintro rfl; exact unlinked j valid mem
      cases j <;> simp [State.copyTaskUnion, Head.anchor, other]
  · have other : t ≠ fill := by rintro rfl; simp [dead] at live
    obtain ⟨next, prev, out⟩ := rep.root t live (by simpa [other] using pare)
    exact ⟨by simpa [State.copyTaskUnion, other] using next, by simpa [State.copyTaskUnion, other] using prev, out⟩

/-- The first PCB of the free queue is taken and filled. -/
theorem takeFree (rep : Refines s k) (sound : k.Sound none) (call : k.core.InCall) {fill : Task}
    {rest : List Task} (first : k.queues .freequeue = fill :: rest) :
    Agree (fun s k' => Refines (s.copyTaskUnion fill) (k'.setTask fill fun _ => k.core.ct))
      (s.listDel (.list fill)) (.ok (k.dequeue .freequeue fill)) := by
  obtain ⟨dead, other, taken, _⟩ := sound.takeFree first call
  have deleted := rep.listDel (h := .freequeue) (t := fill) trivial (by simp [first])
  refine deleted.mono_ok fun s₁ rep₁ => ?_
  have unused (j : Head) (valid : k.core.Valid j) : j ≠ .fills fill ∧ j ≠ .waitList fill := by
    constructor <;> rintro rfl <;> simp [Core.Valid, dead, other] at valid
  have unlinked (j : Head) (_ : k.core.Valid j) : fill ∉ (k.dequeue .freequeue fill).queues j := fun mem => by
    have home := (taken.placed.mem j fill).mp mem
    cases j <;> simp [Core.Home, dead] at home
  have copied := copyTaskUnion rep₁ dead unlinked ⟨fun v => (unused _ v).1 rfl, fun v => (unused _ v).2 rfl⟩
  exact of_rep copied fun j v => (Core.valid_congr j (by rfl) (by rfl) (by rfl)).mp v

theorem apart (rep : Refines s k) {fill : Task} {c : Core} (apart : k.core.Apart fill c)
    (dead : k.core.live fill = false) : Refines (s.setCore c) (k.setCore c) := by
  refine of_rep (Represents.setCore rep c fun t live pare => ?_) fun j valid => ?_
  · rw [apart.live] at live
    have other : t ≠ fill := by rintro rfl; simp [dead] at live
    rw [apart.task t other] at pare
    exact ⟨live, pare⟩
  · exact (Core.valid_congr j apart.live apart.semaphores apart.current).mp valid

/-- The new task enters its father's list and the ready queue. -/
theorem startChild {fill : Task} (rep : Refines s k) (sound : k.Sound (some fill)) (call : k.core.InCall)
    (dead : k.core.live fill = false) (positive : 0 < k.core.pidGlobal)
    (state : (k.core.task fill).currentState = .stRun) :
    Agree Refines (s.startChild fill) (.ok (k.startChild fill)) := by
  obtain ⟨good, placed⟩ := sound
  have task : fill ≠ idleTask := fun e => by simp [e, good.idle.1] at dead
  unfold State.startChild Kernel.startChild
  rw [rep.core]
  have named := Represents.setCore rep (k.core.nameChild fill) fun t live pare => by
    by_cases same : t = fill
    · simp [same, Core.nameChild] at pare
    · simpa [Core.nameChild, same] using And.intro live pare
  have absent (j : Head) (other : j ≠ .freequeue) : fill ∉ k.queues j := fun mem => by
    rw [placed.mem] at mem
    cases j <;> simp [Core.Home, dead] at mem other
  have free : fill ∉ k.queues .freequeue := fun mem => by
    rw [placed.mem] at mem
    simp [Core.Home] at mem
  have unlinked : ∀ j, fill ∉ k.queues j := fun j => by
    by_cases here : j = .freequeue
    · rw [here]; exact free
    · exact absent j here
  have added := named.listAddTail (h := .fills k.core.current) (t := fill) (.inl call.live)
    (fun j _ _ => unlinked j) (by simp [Core.nameChild])
  refine added.bind_ok fun s₁ rep₁ => ?_
  have startsFills := rep₁.initListHead (h := .fills fill)
    (fun j (v : k.core.Valid j ∨ j = .fills fill) other => v.resolve_right other)
    (fun h list => .inl (rep₁.main h list))
  refine startsFills.bind_ok fun s₂ rep₂ => ?_
  have startsWait := rep₂.initListHead (h := .waitList fill)
    (fun j (v : (k.core.Valid j ∨ j = .fills fill) ∨ j = .waitList fill) other => v.resolve_right other)
      (fun h list => .inl (rep₂.main h list))
  refine startsWait.bind_ok fun s₃ rep₃ => ?_
  have entered := Kernel.placed_enqueue (k := k.setCore (k.core.nameChild fill)) (h := .fills k.core.current)
    (t := fill) placed (by simp [Core.Home, dead])
  have nodup := ((entered.clear (.fills fill)).clear (.waitList fill)).nodup
  have settled : Kernel.Settled ((((k.setCore (k.core.nameChild fill)).enqueue (.fills k.core.current) fill).clear
      (.fills fill)).clear (.waitList fill)) fill := by
    refine ⟨by simpa [Core.nameChild] using positive, task, ?_, fun j anchor mem => ?_, nodup⟩
    · simp [Core.nameChild, state, TaskState.queue]
    · have := unlinked j
      cases j <;> simp [Head.anchor, funext_iff, Kernel.clear, Kernel.enqueue] at anchor mem <;> contradiction
  refine (rep₃.update_move (h := .readyqueue) settled (.inl rfl)).bind_ok fun s₄ rep₄ => Agree.ok ?_
  refine Refines.sysReturn (of_rep rep₄ fun j valid => ?_) _
  cases j <;> simp [Core.Valid, Core.nameChild, Function.update_apply] at valid ⊢ <;> grind

/-- The PCB in hand is put back. -/
theorem giveBack {fill : Task} (rep : Refines s k) (sound : k.Sound (some fill))
    (dead : k.core.live fill = false) (v : Option Int) :
    Agree Refines (s.listAddTail (.list fill) (.head .freequeue) >>= fun s => .ok (s.sysReturn v))
      (.ok ((k.enqueue .freequeue fill).sysReturn v)) := by
  have unlinked : Represents.Unlinked k.core.Valid k .freequeue fill := fun j _ anchor mem => by
    have home := (sound.placed.mem j fill).mp mem
    cases j <;> simp [Head.anchor, funext_iff, Core.Home, dead] at anchor home
  refine (rep.listAddTail (h := .freequeue) (rep.main .freequeue rfl) unlinked (by simp)).bind_ok
    fun s₁ rep₁ => Agree.ok ?_
  exact sysReturn (k := k.enqueue .freequeue fill) rep₁ v

theorem sysFork (rep : Refines s k) (sound : k.Sound none) (call : k.core.InCall)
    (positive : 0 < k.core.pidGlobal) : Agree Refines s.sysFork k.sysFork := by
  unfold State.sysFork Kernel.sysFork
  rw [rep.listEmpty (rep.main .freequeue rfl), ok_bind]
  cases first : k.queues .freequeue with
  | nil => exact Agree.ok (rep.sysReturn _)
  | cons fill rest =>
    simp only [List.isEmpty_cons, Bool.false_eq_true, if_false, rep.listFirst (rep.main .freequeue rfl) first,
      ok_bind, listHeadToTaskStruct_anchor]
    obtain ⟨dead, other, taken, inCall⟩ := sound.takeFree first call
    refine (rep.takeFree sound call first).bind_ok fun s₁ rep₁ => ?_
    rw [rep₁.core]
    refine Agree.bind_same fun ⟨complete, core⟩ done => ?_
    obtain ⟨apart, directory, state⟩ := Kernel.forkMemory_apart done
    have held := taken.apart apart dead
    have inCall := apart.inCall dead inCall
    have rep₂ := rep₁.apart apart dead
    have dead : core.live fill = false := by rw [apart.live]; exact dead
    cases complete
    · exact rep₂.giveBack held dead _
    · exact rep₂.startChild held inCall dead (by rw [Kernel.setCore_core, apart.pidGlobal]; exact positive)
        (by simpa [call.run] using state)

theorem sysCreateThread (rep : Refines s k) (sound : k.Sound none) (call : k.core.InCall)
    (positive : 0 < k.core.pidGlobal) (function stack parameter : DWord) :
    Agree Refines (s.sysCreateThread function stack parameter) (k.sysCreateThread function stack parameter) := by
  unfold State.sysCreateThread Kernel.sysCreateThread
  rw [rep.listEmpty (rep.main .freequeue rfl), ok_bind]
  cases first : k.queues .freequeue with
  | nil => exact Agree.ok (rep.sysReturn _)
  | cons fill rest =>
    simp only [List.isEmpty_cons, Bool.false_eq_true, if_false]
    split
    · exact Agree.ok (rep.sysReturn _)
    split
    · exact Agree.ok (rep.sysReturn _)
    simp only [rep.listFirst (rep.main .freequeue rfl) first, ok_bind, listHeadToTaskStruct_anchor]
    obtain ⟨dead, other, taken, inCall⟩ := sound.takeFree first call
    refine (rep.takeFree sound call first).bind_ok fun s₁ rep₁ => ?_
    rw [rep₁.core]
    refine Agree.bind_same fun core done => ?_
    obtain ⟨apart, directory, state⟩ := Kernel.threadMemory_apart done
    exact (rep₁.apart apart dead).startChild (taken.apart apart dead) (apart.inCall dead inCall)
      (by rw [Kernel.setCore_core, apart.live]; exact dead)
      (by rw [Kernel.setCore_core, apart.pidGlobal]; exact positive) (by simpa [call.run] using state)

theorem sysDynMem (rep : Refines s k) (numPags : Int) :
    Agree Refines (s.syscall (.dynMem numPags)) (k.syscall (.dynMem numPags)) := by
  have same : s.core = k.core := rep.core
  show Agree Refines (memory (s.core.sysDynMem numPags) >>= fun core => .ok (s.setCore core))
    (memory (k.core.sysDynMem numPags) >>= fun core => .ok (k.setCore core))
  rw [same]
  refine Agree.bind_same fun core done => Agree.ok ?_
  obtain ⟨mm, cr3, v, rfl⟩ := Kernel.sysDynMem_spec done
  have same : k.core.SameTasks { k.core with mm, cr3 } := ⟨rfl, rfl, rfl, rfl, rfl⟩
  exact (rep.sameTasks same).sysReturn (some v)

theorem syscall (rep : Refines s k) (sound : k.Sound none) (call : k.core.InCall) (request : Syscall)
    (allowed : k.core.Allowed (.syscall request)) : Agree Refines (s.syscall request) (k.syscall request) := by
  cases request with
  | getpid =>
    have returned := rep.sysReturn (some k.core.sysGetpid)
    rw [← rep.core] at returned
    exact Agree.ok (by rwa [← rep.core])
  | fork => exact rep.sysFork sound call allowed
  | createThread function stack parameter => exact rep.sysCreateThread sound call allowed function stack parameter
  | exit => exact rep.exitSlots _ sound call
  | block => exact rep.sysBlock sound call
  | unblock pid => exact rep.sysUnblock sound call pid allowed
  | waitThread pid => exact rep.sysWaitThread sound call pid allowed
  | read b maxchars => exact rep.sysRead sound call b maxchars
  | dynMem numPags => exact rep.sysDynMem numPags
  | semCreate initialValue => exact rep.sysSemCreate initialValue
  | semWait semid => exact rep.sysSemWait sound call semid
  | semSignal semid => exact rep.sysSemSignal sound call semid allowed
  | semDestroy semid => exact rep.sysSemDestroy sound call semid

theorem resume (rep : Refines s k) (inv : k.Inv) (inside : ¬ k.core.InUser) :
    Agree Refines s.resume k.resume := by
  have fits := inv.good.saved _ inv.between.live
  have used := rep.setTask k.core.current (fun ts => { ts with kEsp := .user }) id
  unfold State.resume Kernel.resume
  rw [rep.core]
  cases kEsp : k.core.ct.kEsp with
  | user => exact absurd kEsp inside
  | block => exact Agree.ok (used.sysReturn _)
  | unblock ret => exact Agree.ok (used.sysReturn _)
  | waitThread bt =>
    simp only [State.goOn, used.core]
    exact Agree.ok (used.sysReturn _)
  | read b maxchars => exact used.readWait (inv.resume_reading kEsp) b maxchars
  | semWait i =>
    simp only [State.goOn, used.core]
    exact Agree.ok (used.sysReturn _)
  | semSignal i =>
    simp only [State.goOn, used.core]
    exact Agree.ok (used.sysReturn _)
  | semDestroy i semid caller =>
    obtain ⟨sound, call, free, unmarked⟩ := inv.resume_destroyer kEsp
    have leads := sound.destroyFrom call i semid caller free unmarked
    simp only [State.goOn, Kernel.goOn]
    refine (used.destroyFrom sound call i semid caller free unmarked).bind_ok ?_
    rintro ⟨v, s'⟩ ⟨same, rep'⟩
    generalize (k.setTask k.core.current fun ts => { ts with kEsp := .user }).destroyFrom i semid caller = r at *
    obtain ⟨w, k'⟩ := r
    dsimp only at same rep'
    subst same
    cases v with
    | none => exact Agree.ok rep'
    | some v =>
      cases caller with
      | syscall => exact Agree.ok (rep'.sysReturn _)
      | exit j => exact rep'.exitSlots _ (leads.1 rfl).1 (leads.1 rfl).2
  | exited =>
    rw [Core.ct] at kEsp
    simp [kEsp, Core.Fits] at fits

theorem clockRoutine (rep : Refines s k) (inv : k.Inv) (user : k.core.InUser) :
    Agree Refines s.clockRoutine (.ok k.clockRoutine) := by
  unfold State.clockRoutine Kernel.clockRoutine
  rw [rep.core]
  generalize (if 0 < k.core.tickCounter then k.core.tickCounter - 1 else k.core.tickCounter) = tick
  have same : k.core.SameTasks { k.core with
    zeosTick := int32 (k.core.zeosTick + 10), tickCounter := tick } := ⟨rfl, rfl, rfl, rfl, rfl⟩
  have ticked := rep.sameTasks same
  have inv₁ : (k.setCore { k.core with
    zeosTick := int32 (k.core.zeosTick + 10), tickCounter := tick }).Inv := inv.sameTasks same
  have run := inv₁.run user
  dsimp only
  split
  · have saved := inv₁.save (fun ts => { ts with kEsp := .user }) (fun _ => ⟨rfl, rfl, rfl, rfl⟩) (.inr rfl)
      (by rw [run]; simp) (by simp [Core.Fits])
    exact sched ticked .user saved (.inl inv.between.live) (.inl inv.between.live) (valid_dispatch saved)
  · exact Agree.ok ticked

theorem keyboardRoutine (rep : Refines s k) (inv : k.Inv) (readInp : UInt8) :
    Agree Refines (s.keyboardRoutine readInp) (.ok (k.keyboardRoutine readInp)) := by
  unfold State.keyboardRoutine Kernel.keyboardRoutine
  cases keyChar readInp with
  | none => exact Agree.ok rep
  | some charPrint =>
    have same : k.core.SameTasks { k.core with kbBuffer := k.core.kbBuffer.press charPrint } :=
      ⟨rfl, rfl, rfl, rfl, rfl⟩
    have pressed := rep.sameTasks same
    have inv₁ : (k.setCore { k.core with kbBuffer := k.core.kbBuffer.press charPrint }).Inv :=
      inv.sameTasks same
    have alive := inv₁.between.live
    simp only [rep.core]
    have empty := pressed.listEmpty (pressed.main .readBlocked rfl)
    simp only [State.setCore] at empty
    rw [empty, ok_bind]
    cases first : k.queues .readBlocked with
    | nil =>
      simp only [Kernel.setCore_queues, first, List.isEmpty_nil, if_true]
      exact Agree.ok pressed
    | cons nt rest =>
      have home := (inv.placed.mem .readBlocked nt).mp (by simp [first])
      have head := pressed.listFirst (pressed.main .readBlocked rfl) first
      simp only [State.setCore] at head
      simp only [Kernel.setCore_queues, first, List.isEmpty_cons, Bool.false_eq_true, if_false, head, ok_bind]
      have yielded := inv₁.yield fun _ => alive
      refine (pressed.requeueCurrent inv₁.toSound fun _ => alive).bind_ok fun s₁ rep₁ => ?_
      rw [listHeadToTaskStruct_anchor, ok_bind]
      have directory := yielded.good.directory nt (by simpa using home.1)
      refine (rep₁.taskSwitch directory).mono_ok fun s₂ rep₂ => of_rep rep₂ fun j valid => ?_
      cases j <;> simp [Core.Valid, Kernel.switch] at valid ⊢
      case blockedThreads i => exact valid
      all_goals
        rcases valid with live | rfl
        · exact .inl live
        · exact .inl home.1

/-- An allowed step of the pointer lists is the step of the queues. -/
theorem step {e : Event} (rep : Refines s k) (inv : k.Inv) (allowed : k.core.Allowed e)
    (enabled : k.core.Enabled e) : Agree Refines (s.step e) (k.step e) := by
  cases e with
  | clock => exact rep.clockRoutine inv enabled
  | key readInp => exact rep.keyboardRoutine inv readInp
  | syscall request => exact rep.syscall inv.toSound (inv.inCall enabled.1 enabled.2.1) request allowed
  | resume => exact rep.resume inv enabled

end Refines
end Zeos
