import Zeos.Refinement

/-! `list.c` over any pointer memory: its operations as they write the two fields of their
nodes, and the sequences that they stand for. The kernel's own lists are the instance with
its nodes. -/
namespace Zeos
open Circular

namespace Lists

variable {α ι : Type*} [DecidableEq α]

/-- `INIT_LIST_HEAD(list)`. -/
def initListHead (list : α) (L : Links α) : Links α :=
  let L := L.setNext list list
  L.setPrev list list

/-- `__list_add(new, prev, next)`. -/
def listInsert (new prev next : α) (L : Links α) : Links α :=
  let L := L.setPrev next new
  let L := L.setNext new next
  let L := L.setPrev new prev
  L.setNext prev new

/-- `list_add(new, head)`. -/
def listAdd (new head : α) (L : Links α) : Links α := listInsert new head (L.next head) L

/-- `list_add_tail(new, head)`. -/
def listAddTail (new head : α) (L : Links α) : Links α := listInsert new (L.prev head) head L

/-- `__list_del(prev, next)`. -/
def listUnlink (prev next : α) (L : Links α) : Links α :=
  let L := L.setPrev next prev
  L.setNext prev next

/-- `list_del(entry)`; `null` is the pointer 0. -/
def listDel (null entry : α) (L : Links α) : Links α :=
  let L := listUnlink (L.prev entry) (L.next entry) L
  let L := L.setNext entry null
  L.setPrev entry null

/-- `list_empty(head)`. -/
def listEmpty (head : α) (L : Links α) : Bool := L.next head = head

/-- `list_first(head)`. -/
def listFirst (head : α) (L : Links α) : α := L.next head

/-- Disjoint rings in the memory, each with the sequence that it represents. -/
abbrev Represents (L : Links α) (head : ι → α) (seq : ι → List α) : Prop := Rings L (fun _ => True) head seq

variable {L : Links α} {head : ι → α} {seq : ι → List α} {i : ι} {x : α}

section
variable [DecidableEq ι]

theorem listAdd_represents (lists : Represents L head seq) (free : ∀ j, x ∉ head j :: seq j) :
    Represents (listAdd x (head i) L) head (Function.update seq i (x :: seq i)) :=
  lists.insertHead trivial (fun j _ => free j) (Function.update_self ..) fun _ other => Function.update_of_ne other ..

theorem listAddTail_represents (lists : Represents L head seq) (free : ∀ j, x ∉ head j :: seq j) :
    Represents (listAddTail x (head i) L) head (Function.update seq i (seq i ++ [x])) :=
  lists.insertTail trivial (fun j _ => free j) (Function.update_self ..) fun _ other => Function.update_of_ne other ..

theorem listDel_represents (lists : Represents L head seq) (null : α) (linked : x ∈ seq i) :
    Represents (listDel null x L) head (Function.update seq i ((seq i).erase x)) :=
  lists.remove trivial linked null (Function.update_self ..) fun _ other => Function.update_of_ne other ..

end

/-- A new head stands for the empty sequence, beside the lists that are there. -/
theorem initListHead_represents (lists : Represents L head seq) {h : α} (free : ∀ j, h ∉ head j :: seq j) :
    Represents (initListHead h L) (fun j : Option ι => j.elim h head) (fun j => j.elim [] seq) := by
  have others : Rings L (fun j : Option ι => j ≠ none) (fun j => j.elim h head) (fun j => j.elim [] seq) := by
    constructor
    · rintro (_ | j) some
      · contradiction
      · exact lists.ring j trivial
    · rintro (_ | j) (_ | k) some other different
      · contradiction
      · contradiction
      · contradiction
      · exact lists.apart j k trivial trivial fun same => different (congrArg _ same)
  refine others.self (i := none) rfl (fun _ _ _ => rfl) (fun j other _ => ?_) fun j _ other => other
  cases j with
  | none => contradiction
  | some j => exact free j

theorem listEmpty_represents (lists : Represents L head seq) (i : ι) : listEmpty (head i) L = true ↔ seq i = [] := by
  unfold listEmpty
  rw [decide_eq_true_iff]
  exact (lists.ring i trivial).next_eq_head

omit [DecidableEq α] in
/-- The first node, or the head of an empty list. -/
theorem listFirst_represents (lists : Represents L head seq) (i : ι) : listFirst (head i) L = (seq i).headD (head i) := by
  have ring := lists.ring i trivial
  unfold listFirst
  cases first : seq i with
  | nil =>
    rw [first] at ring
    exact ring.next_nil
  | cons x xs =>
    rw [first] at ring
    exact ring.next_cons

/-- On disjoint well-formed lists each operation does to the represented sequences what its
name says: the list it works on gains or loses the node, every other keeps its sequence, and
all are well-formed lists again. -/
theorem operations_represent [DecidableEq ι] (null : α) (L : Links α) (head : ι → α) (seq : ι → List α)
    (lists : Represents L head seq) :
    (∀ i x, (∀ j, x ∉ head j :: seq j) →
      Represents (listAdd x (head i) L) head (Function.update seq i (x :: seq i)) ∧
      Represents (listAddTail x (head i) L) head (Function.update seq i (seq i ++ [x]))) ∧
    (∀ i, ∀ x ∈ seq i, Represents (listDel null x L) head (Function.update seq i ((seq i).erase x))) ∧
    (∀ h, (∀ j, h ∉ head j :: seq j) →
      Represents (initListHead h L) (fun j : Option ι => j.elim h head) fun j => j.elim [] seq) ∧
    ∀ i, (listEmpty (head i) L = true ↔ seq i = []) ∧ listFirst (head i) L = (seq i).headD (head i) := by
  refine ⟨fun i x free => ⟨?_, ?_⟩, fun i x linked => ?_, fun h free => ?_, fun i => ⟨?_, ?_⟩⟩
  · exact listAdd_represents lists free
  · exact listAddTail_represents lists free
  · exact listDel_represents lists null linked
  · exact initListHead_represents lists free
  · exact listEmpty_represents lists i
  · exact listFirst_represents lists i

/-- Two lists, of which the second gets a node at its front and one at its tail, and loses the
first again. -/
theorem operations_represent_two : Represents (listDel 9 5 (listAddTail 6 1 (listAdd 5 1 ⟨id, id⟩)))
    (fun i : Bool => if i then 1 else 0) (Function.update (fun _ => []) true [6]) := by
  have empty : Represents ⟨id, id⟩ (fun i : Bool => if i then 1 else 0) (fun _ => ([] : List Nat)) := by
    constructor
    · intro i _
      exact ⟨⟨rfl, rfl⟩, List.nodup_singleton _⟩
    · intro i j _ _ different
      cases i <;> cases j <;> simp at different ⊢
  have front := ((operations_represent 9 _ _ _ empty).1 true 5 (by decide)).1
  have tail := ((operations_represent 9 _ _ _ front).1 true 6 (by decide)).2
  have gone := (operations_represent 9 _ _ _ tail).2.1 true 5 (by decide)
  simpa using gone

end Lists

/-- The kernel's `list_add_tail` and `list_del`, where no pointer is NULL. -/
theorem State.listAddTail_links {s : State} {new head : Node} (hn : new ≠ .null) (hh : head ≠ .null)
    (hp : s.links.prev head ≠ .null) :
    s.listAddTail new head = .ok { s with links := Lists.listAddTail new head s.links } :=
  Represents.listAddTail_ok new head hn hh hp

theorem State.listDel_links {s : State} {entry : Node} (he : entry ≠ .null) (hp : s.links.prev entry ≠ .null)
    (hn : s.links.next entry ≠ .null) : s.listDel entry = .ok { s with links := Lists.listDel .null entry s.links } :=
  Represents.listDel_ok he hp hn

end Zeos
