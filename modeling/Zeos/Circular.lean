import Mathlib.Data.List.Nodup
import Mathlib.Logic.Function.Basic

/-! Circular doubly linked lists in pointer memory. A memory gives every node two
pointers; a family of heads, each with the sequence of nodes linked behind it, is
represented when every head starts a ring through exactly its sequence and no node
lies on two rings. Insertion and removal are the pointer writes; the rules say what
they do to the represented sequences. -/
namespace Circular

/-- The two pointer fields of every node. -/
structure Links (α : Type*) where
  next : α → α
  prev : α → α

variable {α ι : Type*} [DecidableEq α]

namespace Links

def setNext (L : Links α) (n value : α) : Links α := { L with next := Function.update L.next n value }
def setPrev (L : Links α) (n value : α) : Links α := { L with prev := Function.update L.prev n value }

/-- Link `new` between the consecutive nodes `before` and `after`. -/
def insert (L : Links α) (new before after : α) : Links α :=
  (((L.setPrev after new).setNext new after).setPrev new before).setNext before new

/-- Close the gap between the two neighbours of a node. -/
def join (L : Links α) (before after : α) : Links α := (L.setPrev after before).setNext before after

/-- Take a node out and leave `blank` in both its pointers. -/
def remove (L : Links α) (n blank : α) : Links α :=
  ((L.join (L.prev n) (L.next n)).setNext n blank).setPrev n blank

/-- Make a node point at itself. -/
def self (L : Links α) (n : α) : Links α := (L.setNext n n).setPrev n n

@[simp] theorem setNext_next (L : Links α) (n v m : α) :
    (L.setNext n v).next m = if m = n then v else L.next m := by
  simp [setNext, Function.update_apply]
@[simp] theorem setNext_prev (L : Links α) (n v : α) : (L.setNext n v).prev = L.prev := rfl
@[simp] theorem setPrev_prev (L : Links α) (n v m : α) :
    (L.setPrev n v).prev m = if m = n then v else L.prev m := by
  simp [setPrev, Function.update_apply]
@[simp] theorem setPrev_next (L : Links α) (n v : α) : (L.setPrev n v).next = L.next := rfl

/-- Insertion writes three nodes only. -/
theorem insert_frame (L : Links α) {new before after n : α} (hn : n ≠ new) (hb : n ≠ before)
    (ha : n ≠ after) :
    (L.insert new before after).next n = L.next n ∧ (L.insert new before after).prev n = L.prev n := by
  simp [insert, hn, hb, ha]

/-- Removal writes the node and its two neighbours only. -/
theorem remove_frame (L : Links α) {n blank m : α} (hn : m ≠ n) (hb : m ≠ L.prev n)
    (ha : m ≠ L.next n) :
    (L.remove n blank).next m = L.next m ∧ (L.remove n blank).prev m = L.prev m := by
  simp [remove, join, hn, hb, ha]

end Links

/-- `a`, then the nodes of the list, then `b` are linked one after the other in both
directions. -/
def Segment (L : Links α) (a : α) : List α → α → Prop
  | [], b => L.next a = b ∧ L.prev b = a
  | x :: xs, b => (L.next a = x ∧ L.prev x = a) ∧ Segment L x xs b

instance Segment.decidable (L : Links α) : (a : α) → (xs : List α) → (b : α) → Decidable (Segment L a xs b)
  | a, [], b => inferInstanceAs (Decidable (L.next a = b ∧ L.prev b = a))
  | a, x :: xs, b =>
    have := Segment.decidable L x xs b
    inferInstanceAs (Decidable ((L.next a = x ∧ L.prev x = a) ∧ Segment L x xs b))

omit [DecidableEq α] in
theorem segment_append (L : Links α) (a y b : α) (xs ys : List α) :
    Segment L a (xs ++ y :: ys) b ↔ Segment L a xs y ∧ Segment L y ys b := by
  induction xs generalizing a with
  | nil => simp [Segment]
  | cons x xs ih => simp [Segment, ih, and_assoc]

omit [DecidableEq α] in
/-- A segment is read through the `next` of all its nodes but the last and the
`prev` of all but the first. -/
theorem segment_congr (L M : Links α) (a b : α) (xs : List α)
    (next : ∀ n ∈ a :: xs, M.next n = L.next n) (prev : ∀ n ∈ xs ++ [b], M.prev n = L.prev n)
    (h : Segment L a xs b) : Segment M a xs b := by
  induction xs generalizing a with
  | nil =>
    simp only [Segment] at h ⊢
    exact ⟨(next a (by simp)).trans h.1, (prev b (by simp)).trans h.2⟩
  | cons x xs ih =>
    obtain ⟨⟨hn, hp⟩, rest⟩ := h
    refine ⟨⟨(next a (by simp)).trans hn, (prev x (by simp)).trans hp⟩, ?_⟩
    exact ih x (fun n hn => next n (List.mem_cons_of_mem _ hn))
      (fun n hn => prev n (by simp at hn ⊢; tauto)) rest

omit [DecidableEq α] in
theorem segment_next_mem (L : Links α) (a b : α) (xs : List α) (h : Segment L a xs b) :
    L.next a ∈ xs ++ [b] := by
  cases xs with
  | nil => simp [h.1]
  | cons x xs => simp [h.1.1]

omit [DecidableEq α] in
theorem segment_prev_mem (L : Links α) (a b : α) (xs : List α) (h : Segment L a xs b) :
    L.prev b ∈ a :: xs := by
  induction xs generalizing a with
  | nil => simp [h.2]
  | cons x xs ih => exact List.mem_cons_of_mem _ (ih x h.2)

/-- Inserting before the end of a segment. The two ends may be one node. -/
theorem segment_insert (L : Links α) (a b n : α) (xs : List α) (h : Segment L a xs b)
    (starts : (a :: xs).Nodup) (ends : (xs ++ [b]).Nodup) (new : n ∉ a :: xs ++ [b]) :
    Segment (L.insert n (L.prev b) b) a (xs ++ [n]) b := by
  induction xs generalizing a with
  | nil =>
    have apart : a ≠ n ∧ b ≠ n := by simpa [eq_comm] using new
    simp [Segment, Links.insert, h.2, apart.2, Ne.symm apart.1]
  | cons x xs ih =>
    obtain ⟨⟨next, prev⟩, rest⟩ := h
    have last := segment_prev_mem L x b xs rest
    have first : a ≠ L.prev b ∧ a ≠ n := by
      simp only [List.nodup_cons] at starts
      exact ⟨fun e => starts.1 (e ▸ last), by simp at new; tauto⟩
    have second : x ≠ b ∧ x ≠ n := by simp at ends new; tauto
    refine ⟨⟨by simpa [Links.insert, first] using next, by simpa [Links.insert, second] using prev⟩, ?_⟩
    exact ih x rest starts.of_cons ends.of_cons (fun m => new (List.mem_cons_of_mem _ m))

/-- Inserting behind the start of a segment. The two ends may be one node. -/
theorem segment_push (L : Links α) (a b n : α) (xs : List α) (h : Segment L a xs b)
    (starts : (a :: xs).Nodup) (ends : (xs ++ [b]).Nodup) (new : n ∉ a :: xs ++ [b]) :
    Segment (L.insert n a (L.next a)) a (n :: xs) b := by
  cases xs with
  | nil =>
    have apart : n ≠ a ∧ n ≠ b := by simpa using new
    simp [Segment, Links.insert, h.1, apart.1, Ne.symm apart.2]
  | cons x xs =>
    obtain ⟨⟨next, prev⟩, rest⟩ := h
    have outer : n ≠ a ∧ n ≠ x := by simp at new; tauto
    refine ⟨by simp [Links.insert], ?_, ?_⟩
    · simp [Links.insert, next, outer.1, Ne.symm outer.2]
    · refine segment_congr L _ x b xs (fun m mem => ?_) (fun m mem => ?_) rest
      · have other : m ≠ a ∧ m ≠ n := by
          have := (List.nodup_cons.mp starts).1
          exact ⟨fun e => this (e ▸ mem), fun e => new (by simp at mem ⊢; grind)⟩
        simp [Links.insert, other]
      · have other : m ≠ x ∧ m ≠ n := by
          have := (List.nodup_cons.mp ends).1
          exact ⟨fun e => this (e ▸ mem), fun e => new (by simp at mem ⊢; grind)⟩
        simp [Links.insert, next, other]

/-- Removing the node between two segments joins them. The outer ends may be one node. -/
theorem segment_remove (L : Links α) (a b n blank : α) (xs ys : List α) (before : Segment L a xs n)
    (after : Segment L n ys b) (starts : (a :: xs ++ n :: ys).Nodup)
    (ends : (xs ++ n :: ys ++ [b]).Nodup) : Segment (L.remove n blank) a (xs ++ ys) b := by
  induction xs generalizing a with
  | nil =>
    have apart : a ≠ n ∧ a ∉ ys := by simpa using (List.nodup_cons.mp starts).1
    cases ys with
    | nil =>
      have other : n ≠ b := by simpa using ends
      simp [Segment, Links.remove, Links.join, before.2, after.1, apart.1, Ne.symm other]
    | cons y ys =>
      obtain ⟨⟨next, prev⟩, rest⟩ := after
      have outer : n ≠ y ∧ n ∉ ys ∧ n ≠ b ∧ y ∉ ys ∧ y ≠ b := by
        simp at ends; grind
      have inner : a ≠ y ∧ a ∉ ys := by simpa using apart.2
      refine ⟨by simp [Links.remove, Links.join, before.2, next, apart.1, Ne.symm outer.1], ?_⟩
      refine segment_congr L _ y b ys (fun m hm => ?_) (fun m hm => ?_) rest
      · have : m ≠ n ∧ m ≠ a := by simp at hm; grind
        simp [Links.remove, Links.join, before.2, this]
      · have : m ≠ n ∧ m ≠ y := by simp at hm; grind
        simp [Links.remove, Links.join, next, this]
  | cons x xs ih =>
    obtain ⟨⟨next, prev⟩, rest⟩ := before
    have last := segment_prev_mem L x n xs rest
    have first := segment_next_mem L n b ys after
    have start : a ≠ n ∧ a ≠ L.prev n := by
      have := (List.nodup_cons.mp starts).1
      refine ⟨fun e => this (by simp [e]), fun e => this ?_⟩
      rw [e]; simp at last ⊢; tauto
    have second : x ≠ n ∧ x ≠ L.next n := by
      have := (List.nodup_cons.mp ends).1
      refine ⟨fun e => this (by simp [e]), fun e => this ?_⟩
      rw [e]; simp at first ⊢; tauto
    refine ⟨⟨?_, ?_⟩, ih x rest starts.of_cons ends.of_cons⟩
    · simpa [Links.remove, Links.join, start] using next
    · simpa [Links.remove, Links.join, second] using prev

omit [DecidableEq α] in
theorem segment_unique {L : Links α} {b : α} {xs : List α} : ∀ {a : α} {ys : List α}, Segment L a xs b → Segment L a ys b →
    b ∉ xs → b ∉ ys → xs = ys := by
  induction xs with
  | nil =>
    intro a ys first second _ outside
    cases ys with
    | nil => rfl
    | cons y ys => exact absurd (by rw [← first.1, second.1.1]; exact List.mem_cons_self) outside
  | cons x xs ih =>
    intro a ys first second outside outside'
    cases ys with
    | nil => exact absurd (by rw [← second.1, first.1.1]; exact List.mem_cons_self) outside
    | cons y ys =>
      have same : x = y := first.1.1.symm.trans second.1.1
      subst same
      rw [ih first.2 second.2 (fun mem => outside (List.mem_cons_of_mem x mem)) fun mem => outside' (List.mem_cons_of_mem x mem)]

/-- The nodes of `xs`, in order, make a ring with the head `h`. -/
structure Ring (L : Links α) (h : α) (xs : List α) : Prop where
  segment : Segment L h xs h
  nodup : (h :: xs).Nodup

instance (L : Links α) (h : α) (xs : List α) : Decidable (Ring L h xs) :=
  decidable_of_iff (Segment L h xs h ∧ (h :: xs).Nodup) ⟨fun ⟨segment, nodup⟩ => ⟨segment, nodup⟩,
    fun ⟨segment, nodup⟩ => ⟨segment, nodup⟩⟩

namespace Ring

variable {L M : Links α} {h n : α} {xs ys zs : List α}

omit [DecidableEq α] in
theorem congr (ring : Ring L h xs)
    (same : ∀ n ∈ h :: xs, M.next n = L.next n ∧ M.prev n = L.prev n) : Ring M h xs :=
  ⟨segment_congr L M h h xs (fun n hn => (same n hn).1)
    (fun n hn => (same n (by simp at hn ⊢; tauto)).2) ring.segment, ring.nodup⟩

omit [DecidableEq α] in
theorem unique (ring : Ring L h xs) (other : Ring L h ys) : xs = ys :=
  segment_unique ring.segment other.segment (List.nodup_cons.mp ring.nodup).1 (List.nodup_cons.mp other.nodup).1

omit [DecidableEq α] in
theorem next_nil (ring : Ring L h []) : L.next h = h := ring.segment.1

omit [DecidableEq α] in
theorem next_cons (ring : Ring L h (n :: xs)) : L.next h = n := ring.segment.1.1

omit [DecidableEq α] in
/-- The head points at itself exactly when nothing is linked behind it. -/
theorem next_eq_head (ring : Ring L h xs) : L.next h = h ↔ xs = [] := by
  cases xs with
  | nil => simp [ring.next_nil]
  | cons x xs =>
    have apart : h ≠ x := by have := ring.nodup; simp at this; tauto
    simp [ring.next_cons, Ne.symm apart]

omit [DecidableEq α] in
theorem next_mem (ring : Ring L h xs) : L.next h ∈ h :: xs := by
  have := segment_next_mem L h h xs ring.segment
  simp at this ⊢; tauto

omit [DecidableEq α] in
theorem prev_mem (ring : Ring L h xs) : L.prev h ∈ h :: xs :=
  segment_prev_mem L h h xs ring.segment

omit [DecidableEq α] in
theorem rotate_nodup (ring : Ring L h xs) : (xs ++ [h]).Nodup :=
  List.nodup_append_comm.mpr ring.nodup

omit [DecidableEq α] in
/-- Following `next` from a linked node leads to the rest of the sequence. -/
theorem next_inner (ring : Ring L h (ys ++ n :: zs)) : L.next n = zs.headD h := by
  have := ((segment_append ..).mp ring.segment).2
  cases zs with
  | nil => exact this.1
  | cons z zs => exact this.1.1

omit [DecidableEq α] in
theorem next_inner_mem (ring : Ring L h (ys ++ n :: zs)) : L.next n ∈ h :: (ys ++ zs) := by
  have := segment_next_mem L n h zs ((segment_append ..).mp ring.segment).2
  simp at this ⊢; tauto

omit [DecidableEq α] in
theorem prev_inner_mem (ring : Ring L h (ys ++ n :: zs)) : L.prev n ∈ h :: (ys ++ zs) := by
  have := segment_prev_mem L h n ys ((segment_append ..).mp ring.segment).1
  simp at this ⊢; tauto

/-- Linking a new node before the head appends it. -/
theorem insertTail (ring : Ring L h xs) (fresh : n ∉ h :: xs) :
    Ring (L.insert n (L.prev h) h) h (xs ++ [n]) := by
  refine ⟨segment_insert L h h n xs ring.segment ring.nodup ring.rotate_nodup ?_, ?_⟩
  · simp at fresh ⊢; tauto
  · rw [← List.cons_append]
    exact List.nodup_append_comm.mp (List.nodup_cons.mpr ⟨fresh, ring.nodup⟩)

/-- Linking a new node behind the head puts it first. -/
theorem insertHead (ring : Ring L h xs) (fresh : n ∉ h :: xs) : Ring (L.insert n h (L.next h)) h (n :: xs) := by
  refine ⟨segment_push L h h n xs ring.segment ring.nodup ring.rotate_nodup ?_, ?_⟩
  · simp at fresh ⊢; tauto
  · have nodup : (n :: h :: xs).Nodup := List.nodup_cons.mpr ⟨fresh, ring.nodup⟩
    exact (List.Perm.swap h n xs).nodup_iff.mp nodup

/-- Taking a linked node out keeps the others in order. -/
theorem remove (ring : Ring L h (ys ++ n :: zs)) (blank : α) :
    Ring (L.remove n blank) h (ys ++ zs) := by
  obtain ⟨before, after⟩ := (segment_append ..).mp ring.segment
  exact ⟨segment_remove L h h n blank ys zs before after ring.nodup ring.rotate_nodup,
    ring.nodup.sublist (by simp)⟩

/-- A node made to point at itself is a ring of its own. -/
theorem ofSelf (L : Links α) (h : α) : Ring (L.self h) h [] :=
  ⟨by simp [Links.self, Segment], by simp⟩

end Ring

/-- A family of heads with the sequence behind each; only the heads of `valid` are
represented in the memory. -/
structure Rings (L : Links α) (valid : ι → Prop) (head : ι → α) (seq : ι → List α) : Prop where
  ring : ∀ i, valid i → Ring L (head i) (seq i)
  apart : ∀ i j, valid i → valid j → i ≠ j → List.Disjoint (head i :: seq i) (head j :: seq j)

namespace Rings

variable {L M : Links α} {valid valid' : ι → Prop} {head : ι → α} {seq seq' : ι → List α}
variable {i : ι} {n : α}

omit [DecidableEq α] in
theorem mono (rings : Rings L valid head seq) (fewer : ∀ i, valid' i → valid i) :
    Rings L valid' head seq :=
  ⟨fun i v => rings.ring i (fewer i v), fun i j vi vj => rings.apart i j (fewer i vi) (fewer j vj)⟩

omit [DecidableEq α] in
/-- Writes that touch no node of a represented ring change nothing. -/
theorem congr (rings : Rings L valid head seq)
    (same : ∀ i, valid i → ∀ n ∈ head i :: seq i, M.next n = L.next n ∧ M.prev n = L.prev n) :
    Rings M valid head seq :=
  ⟨fun i v => (rings.ring i v).congr (same i v), rings.apart⟩

omit [DecidableEq α] in
theorem not_mem_other (rings : Rings L valid head seq) {i j : ι} (vi : valid i) (vj : valid j)
    (other : j ≠ i) (mem : n ∈ head i :: seq i) : n ∉ head j :: seq j :=
  fun m => rings.apart j i vj vi other m mem

omit [DecidableEq α] in
theorem prev_ne (rings : Rings L valid head seq) (vi : valid i) (out : n ∉ head i :: seq i) :
    n ≠ L.prev (head i) := fun e => out (e ▸ (rings.ring i vi).prev_mem)

omit [DecidableEq α] in
/-- A linked node has its two neighbours on its own ring. -/
theorem neighbours (rings : Rings L valid head seq) (vi : valid i) (mem : n ∈ seq i) :
    L.next n ∈ head i :: seq i ∧ L.prev n ∈ head i :: seq i := by
  obtain ⟨ys, zs, split⟩ := List.append_of_mem mem
  have ring := rings.ring i vi
  rw [split] at ring
  have next := ring.next_inner_mem
  have prev := ring.prev_inner_mem
  rw [split]
  simp at next prev ⊢
  tauto

/-- Linking a node that lies on no represented ring between two nodes of one of them. -/
theorem insert (rings : Rings L valid head seq) (vi : valid i) (fresh : ∀ j, valid j → n ∉ head j :: seq j)
    {before after : α} (mem_before : before ∈ head i :: seq i) (mem_after : after ∈ head i :: seq i)
    (ring : Ring (L.insert n before after) (head i) (seq' i)) (here : ∀ m ∈ seq' i, m = n ∨ m ∈ seq i)
    (there : ∀ j, j ≠ i → seq' j = seq j) : Rings (L.insert n before after) valid head seq' := by
  have apart (j : ι) (vj : valid j) (other : j ≠ i) : List.Disjoint (head i :: seq' i) (head j :: seq' j) := by
    intro m mem mem'
    rw [there j other] at mem'
    rcases List.mem_cons.mp mem with rfl | mem
    · exact rings.not_mem_other vi vj other List.mem_cons_self mem'
    · rcases here m mem with rfl | mem
      · exact fresh j vj mem'
      · exact rings.not_mem_other vi vj other (List.mem_cons_of_mem _ mem) mem'
  refine ⟨fun j vj => ?_, fun j k vj vk different => ?_⟩
  · by_cases same : j = i
    · subst same
      exact ring
    · rw [there j same]
      refine (rings.ring j vj).congr fun m hm => ?_
      have before_ne : m ≠ before := fun e => rings.not_mem_other vi vj same mem_before (e ▸ hm)
      have after_ne : m ≠ after := fun e => rings.not_mem_other vi vj same mem_after (e ▸ hm)
      exact L.insert_frame (fun e => fresh j vj (e ▸ hm)) before_ne after_ne
  · by_cases hj : j = i
    · subst hj
      exact apart k vk (Ne.symm different)
    · by_cases hk : k = i
      · subst hk
        exact List.disjoint_symm (apart j vj hj)
      · rw [there j hj, there k hk]
        exact rings.apart j k vj vk different

/-- Appending a node that lies on no represented ring. -/
theorem insertTail (rings : Rings L valid head seq) (vi : valid i)
    (fresh : ∀ j, valid j → n ∉ head j :: seq j) (here : seq' i = seq i ++ [n])
    (there : ∀ j, j ≠ i → seq' j = seq j) :
    Rings (L.insert n (L.prev (head i)) (head i)) valid head seq' := by
  have ring := (rings.ring i vi).insertTail (fresh i vi)
  refine rings.insert vi fresh (rings.ring i vi).prev_mem List.mem_cons_self (here ▸ ring) (fun m mem => ?_) there
  rw [here, List.mem_append, List.mem_singleton] at mem
  exact mem.symm

/-- Putting such a node first. -/
theorem insertHead (rings : Rings L valid head seq) (vi : valid i)
    (fresh : ∀ j, valid j → n ∉ head j :: seq j) (here : seq' i = n :: seq i)
    (there : ∀ j, j ≠ i → seq' j = seq j) :
    Rings (L.insert n (head i) (L.next (head i))) valid head seq' := by
  have ring := (rings.ring i vi).insertHead (fresh i vi)
  refine rings.insert vi fresh List.mem_cons_self (rings.ring i vi).next_mem (here ▸ ring) (fun m mem => ?_) there
  rwa [here, List.mem_cons] at mem

/-- Taking out a linked node. -/
theorem remove (rings : Rings L valid head seq) (vi : valid i) (mem : n ∈ seq i) (blank : α)
    (here : seq' i = (seq i).erase n) (there : ∀ j, j ≠ i → seq' j = seq j) :
    Rings (L.remove n blank) valid head seq' := by
  obtain ⟨ys, zs, split⟩ := List.append_of_mem mem
  have ring := rings.ring i vi
  have shorter : seq' i = ys ++ zs := by
    have nodup := ring.nodup
    rw [split] at nodup
    have absent : n ∉ ys := by simp [List.nodup_append] at nodup; grind
    rw [here, split, List.erase_append_right _ absent, List.erase_cons_head]
  have subset : ∀ m ∈ head i :: seq' i, m ∈ head i :: seq i := by
    intro m hm; rw [shorter] at hm; rw [split]; simp at hm ⊢; tauto
  refine ⟨fun j vj => ?_, fun j k vj vk different => ?_⟩
  · by_cases same : j = i
    · subst same
      rw [shorter]
      exact Ring.remove (split ▸ ring) blank
    · rw [there j same]
      refine (rings.ring j vj).congr fun m hm => ?_
      have outside : m ∉ head i :: seq i := fun h => rings.not_mem_other vi vj same h hm
      rw [split] at ring outside
      have next := ring.next_inner_mem
      have prev := ring.prev_inner_mem
      refine L.remove_frame ?_ ?_ ?_ <;> rintro rfl <;> simp at outside next prev <;> tauto
  · have old := rings.apart j k vj vk different
    intro m hj hk
    refine old (a := m) ?_ ?_
    · by_cases same : j = i
      · subst same; exact subset m hj
      · rwa [there j same] at hj
    · by_cases same : k = i
      · subst same; exact subset m hk
      · rwa [there k same] at hk

/-- Starting a new, empty ring at a node that lies on none. -/
theorem self (rings : Rings L valid head seq) (empty : seq' i = [])
    (there : ∀ j, j ≠ i → valid j → seq' j = seq j)
    (fresh : ∀ j, j ≠ i → valid j → head i ∉ head j :: seq j)
    (more : ∀ j, valid' j → j ≠ i → valid j) : Rings (L.self (head i)) valid' head seq' := by
  refine ⟨fun j vj => ?_, fun j k vj vk different => ?_⟩
  · by_cases same : j = i
    · subst same
      rw [empty]
      exact Ring.ofSelf ..
    · have old := more j vj same
      rw [there j same old]
      refine (rings.ring j old).congr fun m hm => ?_
      have : m ≠ head i := fun e => fresh j same old (e ▸ hm)
      simp [Links.self, this]
  · by_cases hj : j = i
    · subst hj
      have vk' := more k vk (Ne.symm different)
      rw [empty, there k (Ne.symm different) vk']
      simpa using fresh k (Ne.symm different) vk'
    · have vj' := more j vj hj
      by_cases hk : k = i
      · subst hk
        rw [empty, there j hj vj']
        simpa using fresh j hj vj'
      · rw [there j hj vj', there k hk (more k vk hk)]
        exact rings.apart j k vj' (more k vk hk) different

end Rings
end Circular
