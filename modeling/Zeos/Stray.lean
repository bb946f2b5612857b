import Zeos.Identifiers

/-! What becomes of a `sys_semSignal` whose counter says that a task waits while none does. The
first node of the empty list is the list head; around it there is no PCB, but the kernel takes
the page that it lies in for one. The addresses are those of the linked image. -/
namespace Zeos
open Circular

/-- The address of a PCB, whose size is that of a page. -/
def taskAddr (t : Task) : Nat := 0x17000 + 0x1000 * t

def semaphoreAddr (i : SemIndex) : Nat := 0x14C60 + 24 * i

/-- The address of a list node. -/
def Node.addr : Node → Nat
  | .null => 0
  | .head .readyqueue => 0x14C2C
  | .head .freequeue => 0x14C34
  | .head .readBlocked => 0x14C3C
  | .head .blocked => 0x162E0
  | .head (.blockedThreads i) => semaphoreAddr i + 16
  | .list t => taskAddr t + 8
  | .head (.fills t) => taskAddr t + 32
  | .parentAnchor t => taskAddr t + 40
  | .head (.waitList t) => taskAddr t + 48
  | .waitAnchor t => taskAddr t + 56
  | .semList t => taskAddr t + 64

/-- `l & 0xfffff000` -/
def pageOf (l : Nat) : Nat := l / 0x1000 * 0x1000

/-- A node leads to a PCB exactly when the mask finds one around it. -/
theorem listHeadToTaskStruct_addr (n : Node) (t : Task) :
    listHeadToTaskStruct n = .ok t ↔ pageOf n.addr = taskAddr t := by
  have tasks (u : Task) (k : Nat) (small : k < 0x1000) : pageOf (taskAddr u + k) = taskAddr t ↔ u = t := by
    unfold pageOf taskAddr
    rw [Fin.ext_iff]
    omega
  have below {l : Nat} (low : l < 0x17000) : ¬ pageOf l = taskAddr t := by
    unfold pageOf taskAddr
    omega
  cases n with
  | null => exact iff_of_false (by simp [listHeadToTaskStruct]) (below (by decide))
  | list u => exact (by simp [listHeadToTaskStruct] : _ ↔ u = t).trans (tasks u 8 (by decide)).symm
  | parentAnchor u => exact (by simp [listHeadToTaskStruct] : _ ↔ u = t).trans (tasks u 40 (by decide)).symm
  | waitAnchor u => exact (by simp [listHeadToTaskStruct] : _ ↔ u = t).trans (tasks u 56 (by decide)).symm
  | semList u => exact (by simp [listHeadToTaskStruct] : _ ↔ u = t).trans (tasks u 64 (by decide)).symm
  | head h =>
    cases h with
    | fills u => exact (by simp [listHeadToTaskStruct] : _ ↔ u = t).trans (tasks u 32 (by decide)).symm
    | waitList u => exact (by simp [listHeadToTaskStruct] : _ ↔ u = t).trans (tasks u 48 (by decide)).symm
    | blockedThreads i =>
      refine iff_of_false (by simp [listHeadToTaskStruct]) (below ?_)
      have := i.isLt
      simp only [Node.addr, semaphoreAddr, numSems] at *
      omega
    | freequeue | readyqueue | blocked | readBlocked =>
      exact iff_of_false (by simp [listHeadToTaskStruct]) (below (by decide))

/-- Different nodes have no word in common. -/
theorem Node.addr_apart {n u : Node} (other : n ≠ u) : n.addr ≠ u.addr ∧ n.addr ≠ u.addr + 4 := by
  have slots : numSems = 100 := rfl
  rcases n with _ | (_ | _ | _ | _ | t | t | i) | t | t | t | t <;>
    rcases u with _ | (_ | _ | _ | _ | v | v | j) | v | v | v | v <;>
    simp only [ne_eq, Node.head.injEq, Head.fills.injEq, Head.waitList.injEq, Head.blockedThreads.injEq, Node.list.injEq,
      Node.parentAnchor.injEq, Node.waitAnchor.injEq, Node.semList.injEq, reduceCtorEq, not_false_eq_true, not_true_eq_false,
      true_and, and_true, Fin.ext_iff, addr, taskAddr, semaphoreAddr] at other ⊢ <;>
    omega

theorem Node.addr_inj {n u : Node} : n.addr = u.addr ↔ n = u :=
  ⟨fun same => by_contra fun other => (addr_apart other).1 same, congrArg addr⟩

theorem Node.addr_cross (n u : Node) : n.addr ≠ u.addr + 4 ∧ n.addr + 4 ≠ u.addr := by
  by_cases same : n = u
  · subst same
    omega
  · exact ⟨(addr_apart same).2, (addr_apart (Ne.symm same)).2.symm⟩

/-- The words of the memory, by their addresses. -/
abbrev Cells := Nat → Nat

namespace Cells

variable {m : Cells} {t l : Nat}

def readyqueue : Nat := 0x14C2C
def freequeue : Nat := 0x14C34

/-- `list_add_tail(new, head)`. -/
def listAddTail (new head : Nat) (m : Cells) : Cells :=
  let prev := m (head + 4)
  let m := Function.update m (head + 4) new
  let m := Function.update m new head
  let m := Function.update m (new + 4) prev
  Function.update m prev new

/-- `list_del(entry)`. -/
def listDel (entry : Nat) (m : Cells) : Cells :=
  let prev := m (entry + 4)
  let next := m entry
  let m := Function.update m (next + 4) prev
  let m := Function.update m prev next
  let m := Function.update m entry 0
  Function.update m (entry + 4) 0

/-- The words hold the pointers of the nodes. -/
def Holds (L : Links Node) (m : Cells) : Prop :=
  ∀ n, n ≠ .null → m n.addr = (L.next n).addr ∧ m (n.addr + 4) = (L.prev n).addr

/-- On the words of nodes the two operations are those on pointers. -/
theorem Holds.listAddTail {L : Links Node} {new head : Node} (holds : Holds L m) (valid : head ≠ .null) :
    Holds (L.insert new (L.prev head) head) (listAddTail new.addr head.addr m) := by
  intro n other
  obtain ⟨next, prev⟩ := holds n other
  simp only [Cells.listAddTail, Function.update_apply, (holds head valid).2, (Node.addr_cross _ _).1,
    (Node.addr_cross _ _).2, Node.addr_inj, Nat.add_right_cancel_iff, if_false, next, prev, Links.insert,
    Links.setNext_next, Links.setNext_prev, Links.setPrev_next, Links.setPrev_prev]
  constructor
  · split
    · rfl
    · split <;> rfl
  · split
    · rfl
    · split <;> rfl

theorem Holds.listDel {L : Links Node} {entry : Node} (holds : Holds L m) (valid : entry ≠ .null) :
    Holds (L.remove entry .null) (listDel entry.addr m) := by
  intro n other
  obtain ⟨next, prev⟩ := holds n other
  simp only [Cells.listDel, Function.update_apply, (holds entry valid).1, (holds entry valid).2, (Node.addr_cross _ _).1,
    (Node.addr_cross _ _).2, Node.addr_inj, Nat.add_right_cancel_iff, if_false, next, prev, Links.remove, Links.join,
    Links.setNext_next, Links.setNext_prev, Links.setPrev_next, Links.setPrev_prev]
  constructor
  · split
    · rfl
    · split <;> rfl
  · split
    · rfl
    · split <;> rfl

/-- `update_process_state_rr(t, &readyqueue)`: the PID of a PCB is its first word, its list node lies
at 8 and its state at 76. -/
def updateProcessStateRr (t : Nat) (m : Cells) : Cells :=
  if 0x80000000 ≤ m t then listAddTail (t + 8) freequeue (Function.update m (t + 76) 1)
  else
    let m := if 0 < m t ∧ m (t + 76) ≠ 0 then listDel (t + 8) m else m
    let m := Function.update m (t + 76) 2
    if m t ≠ 0 then listAddTail (t + 8) readyqueue m else m

/-- The three lines of `sys_semSignal_extended` that wake the first task of the list at `l`. -/
def wakeFirst (l : Nat) (m : Cells) : Cells :=
  let e := m l
  updateProcessStateRr (pageOf e) (listDel e m)

/-- `sys_semSignal_extended` on the slot that it has found, up to `sched_next_rr()`. -/
def semSignal (i : SemIndex) (m : Cells) : Cells :=
  let value := (m (semaphoreAddr i + 4) + 1) % 0x100000000
  let m := Function.update m (semaphoreAddr i + 4) value
  if value = 0 ∨ 0x80000000 ≤ value then wakeFirst (semaphoreAddr i + 16) m else m

/-- The wake-up of an empty list overwrites the third word of the page that its head lies in, if the
first word of that page passes for a PID and the word at 76 for `ST_RUN`. -/
theorem wakeFirst_overwrites (empty : m l = l ∧ m (l + 4) = l) (apart : pageOf l ≠ l ∧ l ≠ pageOf l + 76 ∧ l + 4 ≠ pageOf l + 76)
    (queue : l ≠ readyqueue + 4 ∧ l + 4 ≠ readyqueue + 4) (pid : 0 < m (pageOf l) ∧ m (pageOf l) < 0x80000000)
    (run : m (pageOf l + 76) = 0) (tail : m (readyqueue + 4) ≠ pageOf l + 8) :
    wakeFirst l m (pageOf l + 8) = readyqueue := by
  obtain ⟨next, prev⟩ := empty
  have aligned : pageOf l % 0x1000 = 0 ∧ pageOf l ≤ l := by
    unfold pageOf
    omega
  have other : pageOf l + 76 ≠ readyqueue + 4 := by
    unfold readyqueue
    omega
  -- the head is taken off its own list
  have off {x : Nat} (first : x ≠ l) (second : x ≠ l + 4) : listDel l m x = m x := by
    simp only [listDel, next, prev, Function.update_of_ne first, Function.update_of_ne second]
  unfold wakeFirst
  rw [next]
  generalize page : pageOf l = t at *
  generalize gone : listDel l m = m' at *
  have pid' : m' t = m t := off (by omega) (by omega)
  have run' : m' (t + 76) = 0 := (off (by omega) (by omega)).trans run
  have tail' : m' (readyqueue + 4) = m (readyqueue + 4) := off queue.1.symm queue.2.symm
  have stays : (if 0 < m' t ∧ m' (t + 76) ≠ 0 then listDel (t + 8) m' else m') = m' := if_neg fun both => both.2 run'
  unfold updateProcessStateRr
  rw [if_neg (by omega), stays, Function.update_of_ne (by omega : t ≠ t + 76), if_pos (by omega)]
  unfold listAddTail
  rw [Function.update_of_ne other.symm, tail', Function.update_of_ne tail.symm, Function.update_of_ne (by omega),
    Function.update_self]

/-- A signal to a semaphore whose counter is -1 while nobody sleeps, and which lies 8 behind the start
of its page: its identifier is overwritten. -/
theorem semSignal_overwrites {i : SemIndex} (asks : m (semaphoreAddr i + 4) = 0xFFFFFFFF)
    (empty : m (semaphoreAddr i + 16) = semaphoreAddr i + 16 ∧ m (semaphoreAddr i + 20) = semaphoreAddr i + 16)
    (place : pageOf (semaphoreAddr i + 16) + 8 = semaphoreAddr i)
    (pid : 0 < m (pageOf (semaphoreAddr i + 16)) ∧ m (pageOf (semaphoreAddr i + 16)) < 0x80000000)
    (run : m (pageOf (semaphoreAddr i + 16) + 76) = 0) (tail : m (readyqueue + 4) ≠ semaphoreAddr i) :
    semSignal i m (semaphoreAddr i) = readyqueue := by
  have high : readyqueue + 8 ≤ semaphoreAddr i := by
    unfold readyqueue semaphoreAddr
    omega
  have woken : semSignal i m = wakeFirst (semaphoreAddr i + 16) (Function.update m (semaphoreAddr i + 4) 0) := by
    unfold semSignal
    rw [asks]
    exact if_pos (.inl rfl)
  have other {x : Nat} (apart : x ≠ semaphoreAddr i + 4) : Function.update m (semaphoreAddr i + 4) 0 x = m x :=
    Function.update_of_ne apart ..
  have written := wakeFirst_overwrites (m := Function.update m (semaphoreAddr i + 4) 0) (l := semaphoreAddr i + 16)
  rw [place, other (by omega), other (by omega), other (by omega), other (by omega), other (by omega)] at written
  rw [woken]
  exact written empty (by omega) (by omega) pid run tail

end Cells

/-- The words of the semaphores and of the head of the ready queue. -/
def State.cells (s : State) : Cells := fun a =>
  if a = Cells.readyqueue then (s.links.next (.head .readyqueue)).addr
  else if a = Cells.readyqueue + 4 then (s.links.prev (.head .readyqueue)).addr
  else if semaphoreAddr 0 ≤ a ∧ a < semaphoreAddr 0 + 24 * numSems then
    let i : SemIndex := Fin.ofNat numSems ((a - semaphoreAddr 0) / 24)
    match (a - semaphoreAddr 0) % 24 with
    | 0 => ((s.core.semaphores i).id % 0x100000000).toNat
    | 4 => ((s.core.semaphores i).value % 0x100000000).toNat
    | 8 => if (s.core.semaphores i).free then 1 else 0
    | 12 => ((s.core.semaphores i).creatorPID % 0x100000000).toNat
    | 16 => (s.links.next (.head (.blockedThreads i))).addr
    | _ => (s.links.prev (.head (.blockedThreads i))).addr
  else 0

/-- `task1` makes a thread and forty semaphores, the last of them below zero. -/
def fortySemaphores : List Event :=
  .syscall (.createThread 0x114000 0x102000 0) ::
    (List.replicate 39 (.syscall (.semCreate 1)) ++ [.syscall (.semCreate (-1))])

end Zeos
