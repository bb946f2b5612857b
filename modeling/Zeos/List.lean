import Zeos.Types

/-! `list.c` and the walks of `list.h` over the nodes of the kernel. A NULL pointer is
followed through logical page 0 of the address space in `cr3`: a page fault unless that
page is mapped. Where it is mapped a store lands in a frame nothing else uses. -/
namespace Zeos

def Core.pageZeroMapped (c : Core) : Bool := (c.mm.pagusrTable c.cr3 0).present

namespace State

def loadNext (n : Node) (s : State) : Except Fault Node :=
  if n = .null then .error (if s.core.pageZeroMapped then .wild else .memory .pageFault)
  else .ok (s.links.next n)

def loadPrev (n : Node) (s : State) : Except Fault Node :=
  if n = .null then .error (if s.core.pageZeroMapped then .wild else .memory .pageFault)
  else .ok (s.links.prev n)

def storeNext (n value : Node) (s : State) : Except Fault State :=
  if n = .null then if s.core.pageZeroMapped then .ok s else .error (.memory .pageFault)
  else .ok { s with links := s.links.setNext n value }

def storePrev (n value : Node) (s : State) : Except Fault State :=
  if n = .null then if s.core.pageZeroMapped then .ok s else .error (.memory .pageFault)
  else .ok { s with links := s.links.setPrev n value }

/-- `INIT_LIST_HEAD(list)`. -/
def initListHead (list : Node) (s : State) : Except Fault State := do
  let s ← s.storeNext list list
  s.storePrev list list

/-- `__list_add(new, prev, next)`. -/
def listInsert (new prev next : Node) (s : State) : Except Fault State := do
  let s ← s.storePrev next new
  let s ← s.storeNext new next
  let s ← s.storePrev new prev
  s.storeNext prev new

/-- `list_add_tail(new, head)`. -/
def listAddTail (new head : Node) (s : State) : Except Fault State := do
  let prev ← s.loadPrev head
  s.listInsert new prev head

/-- `list_del(entry)`. -/
def listDel (entry : Node) (s : State) : Except Fault State := do
  let prev ← s.loadPrev entry
  let next ← s.loadNext entry
  let s ← s.storePrev next prev
  let s ← s.storeNext prev next
  let s ← s.storeNext entry .null
  s.storePrev entry .null

/-- `list_first(head)`. -/
def listFirst (head : Node) (s : State) : Except Fault Node := s.loadNext head

/-- `list_empty(head)`. -/
def listEmpty (head : Node) (s : State) : Except Fault Bool := do
  let next ← s.loadNext head
  return next = head

end State

/-- `list_head_to_task_struct(l)` masks the address: it finds the PCB around a node.
Around the heads outside the PCBs there is none. -/
def listHeadToTaskStruct : Node → Except Fault Task
  | .list t | .parentAnchor t | .waitAnchor t | .semList t => .ok t
  | .head (.fills t) | .head (.waitList t) => .ok t
  | .null | .head _ => .error .wild

/-- More iterations than there are nodes: a walk that is still going is on a cycle. -/
abbrev walkBound : Nat := 1000

/-- `list_for_each(pos, head)`, from the position `pos` on; the body has a local. -/
def listForEach (body : Node → Int × State → Except Fault (Int × State)) (head : Node) :
    Nat → Node → Int × State → Except Fault (Int × State)
  | 0, _, _ => .error .endless
  | fuel + 1, pos, s =>
    if pos = head then .ok s
    else do
      let s ← body pos s
      let next ← s.2.loadNext pos
      listForEach body head fuel next s

/-- `list_for_each_safe(pos, n, head)`, from the position `pos` with its saved
successor `n` on. -/
def listForEachSafe (body : Node → State → Except Fault State) (head : Node) :
    Nat → Node → Node → State → Except Fault State
  | 0, _, _, _ => .error .endless
  | fuel + 1, pos, n, s =>
    if pos = head then .ok s
    else do
      let s ← body pos s
      let next ← s.loadNext n
      listForEachSafe body head fuel n next s

/-- The two walks with their first assignments. -/
def forEach (body : Node → Int × State → Except Fault (Int × State)) (head : Node) (s : Int × State) :
    Except Fault (Int × State) := do
  let pos ← s.2.loadNext head
  listForEach body head walkBound pos s

def forEachSafe (body : Node → State → Except Fault State) (head : Node) (s : State) :
    Except Fault State := do
  let pos ← s.loadNext head
  let n ← s.loadNext pos
  listForEachSafe body head walkBound pos n s

end Zeos
