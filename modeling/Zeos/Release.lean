import Zeos.Heap

/-! What `free` does to the blocks. -/
namespace Zeos
open Bytes BoundaryTags

/-- A freed block takes in the next one, when that is free. -/
def joinedNext (b : Block) : List Block → Block × List Block
  | [] => (b, [])
  | c :: after => if c.Free then (⟨b.size + c.size, 1⟩, after) else (b, c :: after)

/-- The tags that are written then. -/
def joinedTags (m : Memory) (a : Nat) (b : Block) : List Block → Memory
  | [] => m
  | c :: _ => if c.Free then retag m a (b.size + c.size) 1 else m

/-- The one in front of it takes it in. -/
def joinedPrev (before : List Block) (b : Block) : List Block × Block :=
  match before.getLast? with
  | none => (before, b)
  | some q => if q.Free then (before.dropLast, ⟨b.size + q.size, 1⟩) else (before, b)

/-- The addresses from `lo` up to `hi` meet no tag of a block of `n` bytes, and none inside it. -/
def Beside (a n lo hi : Nat) : Prop := hi ≤ a ∨ a + n ≤ lo ∨ (a + 8 ≤ lo ∧ hi ≤ a + n - 8)

section
variable {before after : List Block} {b c q : Block}

theorem joinedNext_free (free : c.Free) : joinedNext b (c :: after) = (⟨b.size + c.size, 1⟩, after) := if_pos free

theorem joinedNext_used (used : ¬ c.Free) : joinedNext b (c :: after) = (b, c :: after) := if_neg used

theorem joinedPrev_free (free : q.Free) : joinedPrev (before ++ [q]) b = (before, ⟨b.size + q.size, 1⟩) := by
  simp [joinedPrev, free]

theorem joinedPrev_used (used : ¬ q.Free) : joinedPrev (before ++ [q]) b = (before ++ [q], b) := by
  simp [joinedPrev, used]

theorem joinedNext_cases (marked : b.mark = 1) (apart : Apart after) : ∃ trail post, after = trail ++ post ∧
    (∀ c ∈ trail, c.Free) ∧ (∀ c ∈ post.head?, ¬ c.Free) ∧ joinedNext b after = (⟨b.size + total trail, 1⟩, post) := by
  have same : b = ⟨b.size, 1⟩ := by rw [← marked]
  cases after with
  | nil => exact ⟨[], [], rfl, by simp, by simp, by rw [joinedNext, total_nil, Nat.add_zero, ← same]⟩
  | cons c after =>
    by_cases free : c.Free
    · refine ⟨[c], after, rfl, by simpa using free, fun d mem marked => ?_, by rw [joinedNext_free free]; simp⟩
      exact (List.isChain_cons.mp apart).1 d mem ⟨free, marked⟩
    · refine ⟨[], c :: after, rfl, by simp, ?_, by rw [joinedNext_used free, total_nil, Nat.add_zero, ← same]⟩
      rintro d mem
      cases mem
      exact free

theorem joinedPrev_cases (marked : b.mark = 1) (apart : Apart before) : ∃ pre lead, before = pre ++ lead ∧
    (∀ c ∈ lead, c.Free) ∧ (∀ c ∈ pre.getLast?, ¬ c.Free) ∧ joinedPrev before b = (pre, ⟨total lead + b.size, 1⟩) := by
  have same : b = ⟨b.size, 1⟩ := by rw [← marked]
  rcases List.eq_nil_or_concat' before with rfl | ⟨pre, q, rfl⟩
  · exact ⟨[], [], rfl, by simp, by simp, by rw [total_nil, Nat.zero_add, ← same]; rfl⟩
  · by_cases free : q.Free
    · refine ⟨pre, [q], rfl, by simpa using free, fun d mem marked => ?_, by rw [joinedPrev_free free]; simp [Nat.add_comm]⟩
      exact (List.isChain_append.mp apart).2.2 d mem q rfl ⟨marked, free⟩
    · refine ⟨pre ++ [q], [], by simp, by simp, ?_, by rw [joinedPrev_used free, total_nil, Nat.zero_add, ← same]⟩
      rintro d mem
      simp only [List.getLast?_append, List.getLast?_singleton, Option.mem_def, Option.some_or, Option.some.injEq] at mem
      exact mem ▸ free

/-- The blocks behind a `free` that gives no page back. -/
def released (before : List Block) (b : Block) (after : List Block) : List Block :=
  (joinedPrev before (joinedNext ⟨b.size, 1⟩ after).1).1 ++
    (joinedPrev before (joinedNext ⟨b.size, 1⟩ after).1).2 :: (joinedNext ⟨b.size, 1⟩ after).2

/-- The freed block and its free neighbours become one block. -/
theorem released_cases (b : Block) (apart : Apart (before ++ b :: after)) : ∃ pre lead trail post,
    before = pre ++ lead ∧ after = trail ++ post ∧ (∀ c ∈ lead, c.Free) ∧ (∀ c ∈ trail, c.Free) ∧
    joinedPrev before (joinedNext ⟨b.size, 1⟩ after).1 = (pre, ⟨total (lead ++ b :: trail), 1⟩) ∧
    total lead + (joinedNext ⟨b.size, 1⟩ after).1.size = total (lead ++ b :: trail) ∧
    released before b after = pre ++ ⟨total (lead ++ b :: trail), 1⟩ :: post ∧ Apart (released before b after) := by
  obtain ⟨first, rest, -⟩ := List.isChain_append.mp apart
  have tail : Apart after := rest.tail
  obtain ⟨trail, post, behind, trailFree, postUsed, next⟩ := joinedNext_cases (b := ⟨b.size, 1⟩) rfl tail
  obtain ⟨pre, lead, front, leadFree, preUsed, prev⟩ :=
    joinedPrev_cases (b := ⟨b.size + total trail, 1⟩) rfl first
  have joined : total lead + (b.size + total trail) = total (lead ++ b :: trail) := by simp
  have merged : joinedPrev before (joinedNext ⟨b.size, 1⟩ after).1 = (pre, ⟨total (lead ++ b :: trail), 1⟩) := by
    rw [next, prev, joined]
  have same : released before b after = pre ++ ⟨total (lead ++ b :: trail), 1⟩ :: post := by
    unfold released
    rw [merged, next]
  refine ⟨pre, lead, trail, post, front, behind, leadFree, trailFree, merged, by rw [next, joined], same, ?_⟩
  rw [same]
  subst front behind
  refine List.isChain_append.mpr ⟨(List.isChain_append.mp first).1, List.isChain_cons.mpr ⟨?_, ?_⟩, ?_⟩
  · exact fun c mem both => postUsed c mem both.2
  · exact (List.isChain_append.mp tail).2.1
  · rintro c mem d - both
    exact preUsed c mem both.1

end

namespace Process

variable {s : Process} {a : Nat} {before after : List Block} {b : Block}

theorem Tiled.joinNext (heap : s.Tiled (before ++ b :: after)) (place : s.heapStart + total before = a) :
    s.joinNext a = .ok (s.setMem (joinedTags s.mem a b after)) ∧
      (s.setMem (joinedTags s.mem a b after)).Tiled (before ++ (joinedNext b after).1 :: (joinedNext b after).2) := by
  have stands := at_split s.heapStart b before after
  rw [place] at stands
  obtain ⟨low, big, high⟩ := heap.bounds stands
  have small := s.brk_le
  have base := heapBase_pos
  have fills := heap.tiles.hi_eq
  unfold Process.joinNext joinedTags
  rw [heap.nextBlock_eq stands, Outcome.ok_bind]
  cases after with
  | nil =>
    refine ⟨?_, heap⟩
    rw [if_neg (by simp at fills; omega)]
    rfl
  | cons c after =>
    have next := at_split s.heapStart c (before ++ [b]) after
    rw [List.append_assoc, List.singleton_append, total_append, total_cons, total_nil, Nat.add_zero, ← Nat.add_assoc,
      place] at next
    obtain ⟨low', big', high'⟩ := heap.bounds next
    rw [if_pos (by rw [heap.brk]; omega), heap.isFree_eq next, Outcome.ok_bind]
    by_cases free : c.Free
    · rw [if_pos (show c.mark ≠ 0 from free), joinedNext_free free]
      have sum : int32 ((b.size : Int) + c.size) = (b.size + c.size : Nat) := by
        rw [int32_of_range (by omega) (by omega)]
        push_cast
        rfl
      rw [heap.size_eq stands, heap.size_eq next]
      simp only [Outcome.ok_bind, sum, if_pos free]
      rw [writeHeaderFooter_ok low (by omega) (by omega)]
      have filled : s.Tiled (before ++ ([b, c] ++ after)) := heap
      have joined := filled.retag (v := 1) (by simp; omega) (by decide) (by decide)
      rw [place] at joined
      simp only [total_cons, total_nil, Nat.add_zero] at joined
      exact ⟨rfl, joined⟩
    · rw [if_neg (show ¬ c.mark ≠ 0 from free), joinedNext_used free]
      simp only [if_neg free]
      exact ⟨rfl, heap⟩

theorem Tiled.joinPrev (heap : s.Tiled (before ++ b :: after)) (place : s.heapStart + total before = a) :
    ∃ m, s.joinPrev a = .ok (s.setMem m) ∧
      (s.setMem m).Tiled ((joinedPrev before b).1 ++ (joinedPrev before b).2 :: after) ∧
      ∀ lo hi, Beside (s.heapStart + total (joinedPrev before b).1) (joinedPrev before b).2.size lo hi →
        SameOn s.mem m lo hi := by
  have stands := at_split s.heapStart b before after
  rw [place] at stands
  obtain ⟨low, big, high⟩ := heap.bounds stands
  have small := s.brk_le
  have base := heapBase_pos
  unfold Process.joinPrev
  rcases List.eq_nil_or_concat' before with rfl | ⟨front, q, rfl⟩
  · refine ⟨s.mem, ?_, heap, fun _ _ _ => .refl _ _ _⟩
    rw [if_neg (by simp at place; omega)]
    rfl
  · have place' : s.heapStart + total front + q.size = a := by
      rw [← place]
      simp
      omega
    have heap : s.Tiled (front ++ ([q, b] ++ after)) := by simpa using heap
    have prev := at_split s.heapStart q front (b :: after)
    obtain ⟨low', big', high'⟩ := heap.bounds prev
    have behind := heap.prevBlock_eq prev
    rw [place'] at behind
    have stands : At s.heapStart (front ++ ([q, b] ++ after)) a b := by simpa using stands
    rw [if_pos (by omega), behind, Outcome.ok_bind, heap.isFree_eq prev, Outcome.ok_bind]
    by_cases free : q.Free
    · rw [if_pos (show q.mark ≠ 0 from free), joinedPrev_free free]
      have sum : int32 ((b.size : Int) + q.size) = (b.size + q.size : Nat) := by
        rw [int32_of_range (by omega) (by omega)]
        push_cast
        rfl
      rw [heap.size_eq stands, heap.size_eq prev]
      simp only [Outcome.ok_bind, sum]
      rw [writeHeaderFooter_ok low' (by omega) (by omega)]
      have joined := heap.retag (v := 1) (by simp; omega) (by decide) (by decide)
      simp only [total_cons, total_nil, Nat.add_zero, Nat.add_comm q.size] at joined
      exact ⟨_, rfl, joined, fun lo hi beside => retag_sameOn (by omega) beside⟩
    · rw [if_neg (show ¬ q.mark ≠ 0 from free), joinedPrev_used free]
      exact ⟨s.mem, rfl, by simpa [Process.setMem] using heap, fun _ _ _ => .refl _ _ _⟩

/-- Pages that are given back. -/
theorem dynMem_back {n : Nat} (held : n ≤ s.myHeap) : (s.dynMem (-n)).2.mem = s.mem ∧
    (s.dynMem (-n)).2.heapStart = s.heapStart ∧ (s.dynMem (-n)).2.heapEnd = s.heapEnd ∧
    (s.dynMem (-n)).2.brk + pageSize * n = s.brk := by
  unfold Process.dynMem
  rw [if_neg (by omega), if_neg (by omega)]
  refine ⟨rfl, rfl, rfl, ?_⟩
  simp only [brk, pageSize]
  omega

/-- The size of the last block when it is trimmed. -/
def rest (last : Block) : Nat := last.size % pageSize

/-- Whole pages of the last block are given back: its size changes, its footer stays where it is. -/
theorem Tiled.trim_pages {front : List Block} {last : Block} (heap : s.Tiled (front ++ [last])) (free : last.Free)
    (pages : pageSize ≤ last.size) (place : s.heapStart + total front = a) :
    ∃ s', s.trim = .ok s' ∧ s'.mem = store s.mem a (rest last) ∧ s'.heapStart = s.heapStart ∧
      s'.heapEnd = a + rest last ∧ s'.brk = s'.heapEnd := by
  have stands := at_split s.heapStart last front []
  rw [place] at stands
  obtain ⟨low, wide, high⟩ := heap.bounds stands
  have fills := heap.tiles.hi_eq
  rw [total_append, total_cons, total_nil, Nat.add_zero, ← Nat.add_assoc, place] at fills
  have small := s.brk_le
  have base := heapBase_pos
  have old := heap.brk
  have whole : last.size = pageSize * (last.size / pageSize) + rest last := (Nat.div_add_mod _ _).symm
  generalize count : last.size / pageSize = n at whole
  have some : 0 < n := by
    rw [← count]
    exact Nat.div_pos pages (by decide)
  simp only [pageSize] at whole pages
  have bytes : int32 ((s.heapEnd : Int) - a) = (last.size : Nat) := by
    rw [int32_of_range (by omega) (by omega)]
    omega
  have freePages : (last.size : Int).tdiv pageSize = n := by
    rw [Int.tdiv_eq_ediv_of_nonneg (by omega), ← count]
    exact (Int.natCast_ediv _ _).symm
  have product : int32 ((n : Int) * pageSize) = (pageSize * n : Nat) := by
    rw [int32_of_range] <;> simp only [pageSize] <;> omega
  have left : int32 ((last.size : Int) - (pageSize * n : Nat)) = (rest last : Nat) := by
    rw [int32_of_range] <;> simp only [pageSize] <;> omega
  have blockEnd : ptr ((a : Int) + last.size) = s.heapEnd := ptr_of_range (by omega) (by omega)
  have newEnd : ptr ((s.heapEnd : Int) - (pageSize * n : Nat)) = a + rest last :=
    ptr_of_range (by simp only [pageSize]; omega) (by omega)
  have behind := heap.prevBlock_eq stands
  rw [← fills] at behind
  have held : n ≤ s.myHeap := by
    simp only [Process.brk, heapBase, pageSize] at old low
    omega
  unfold Process.trim
  rw [behind, Outcome.ok_bind, heap.isFree_eq stands, Outcome.ok_bind, if_pos (show last.mark ≠ 0 from free),
    heap.size_eq stands]
  simp only [Outcome.ok_bind, bytes, freePages, blockEnd, product, newEnd]
  rw [if_pos ⟨by omega, trivial⟩]
  have sized : size a { s with heapEnd := a + rest last } = .ok last.size := by
    rw [size_ok (s := { s with heapEnd := a + rest last }) low (show a + 8 ≤ s.brk by omega),
      (heap.tiles.tags stands).2.1]
    rfl
  rw [sized]
  simp only [Outcome.ok_bind, left]
  rw [storeInt_ok (s := { s with heapEnd := a + rest last }) low (show a + 4 ≤ s.brk by omega), Outcome.ok_bind]
  obtain ⟨mem, start, stop, brk⟩ := dynMem_back
    (s := Process.setMem (store s.mem a (rest last)) { s with heapEnd := a + rest last }) held
  refine ⟨_, rfl, mem, start, stop, ?_⟩
  rw [stop]
  have brk : _ = s.brk := brk
  simp only [setMem_heapEnd, pageSize] at brk ⊢
  omega

theorem Tiled.trim_kept {front : List Block} {last : Block} (heap : s.Tiled (front ++ [last]))
    (kept : ¬ (last.Free ∧ pageSize ≤ last.size)) : s.trim = .ok s := by
  have stands := at_split s.heapStart last front []
  obtain ⟨low, wide, high⟩ := heap.bounds stands
  have fills := heap.tiles.hi_eq
  rw [total_append, total_cons, total_nil, Nat.add_zero, ← Nat.add_assoc] at fills
  have small := s.brk_le
  have behind := heap.prevBlock_eq stands
  rw [← fills] at behind
  unfold Process.trim
  rw [behind, Outcome.ok_bind, heap.isFree_eq stands, Outcome.ok_bind]
  by_cases free : last.Free
  · have few : last.size < pageSize := by
      by_contra pages
      exact kept ⟨free, Nat.not_lt.mp pages⟩
    have none : (int32 ((s.heapEnd : Int) - (s.heapStart + total front : Nat))).tdiv pageSize = 0 := by
      simp only [pageSize] at few ⊢
      rw [int32_of_range (by omega) (by omega), Int.tdiv_eq_ediv_of_nonneg (by omega)]
      omega
    rw [if_pos (show last.mark ≠ 0 from free), heap.size_eq stands]
    simp only [Outcome.ok_bind, none]
    rw [if_neg (by omega)]
    rfl
  · rw [if_neg (show ¬ last.mark ≠ 0 from free)]
    rfl

/-- Nothing stays of the last block, or what stays ends in a footer for it. -/
def Footed (m : Memory) (a : Nat) (last : Block) : Prop :=
  rest last = 0 ∨ 2 * mallocHeaderSize ≤ rest last ∧
    tagAt m (a + rest last - mallocHeaderSize) = ((rest last : Int), last.mark)

instance (m : Memory) (a : Nat) (last : Block) : Decidable (Footed m a last) := inferInstanceAs (Decidable (_ ∨ _ ∧ _))

/-- The blocks when whole pages of the last one are given back. -/
def trimmed (front : List Block) (last : Block) : List Block :=
  if rest last = 0 then front else front ++ [⟨rest last, last.mark⟩]

section trimmed
variable {s' : Process} {front bs : List Block} {last : Block} (heap : s.Tiled (front ++ [last]))
  (place : s.heapStart + total front = a) (mem : s'.mem = store s.mem a (rest last)) (start : s'.heapStart = s.heapStart)
  (stop : s'.heapEnd = a + rest last)
include heap place mem start

theorem front_tiles : Tiles mallocHeaderSize (tagAt s'.mem) s'.heapStart front a := by
  have first := (Tiles.append.mp heap.tiles).1
  rw [place] at first
  rw [mem, start]
  exact first.congr fun x _ below => tagAt_congr (store_sameOn (.inl (by simpa using below)))

include stop

theorem Footed.tiled (footed : Footed s.mem a last) (brk : s'.heapEnd = s'.brk) : s'.Tiled (trimmed front last) := by
  have first := front_tiles heap place mem start
  refine ⟨start ▸ heap.base, brk, ?_⟩
  unfold trimmed
  rcases footed with none | ⟨wide, foot⟩
  · rw [if_pos none, stop, none]
    exact first
  · simp only [mallocHeaderSize] at wide foot
    have few : rest last < pageSize := Nat.mod_lt _ (by decide)
    have stands := at_split s.heapStart last front []
    rw [place] at stands
    have mark : load s.mem (a + 4) = last.mark := congrArg Prod.snd (heap.tiles.tags stands).2.1
    rw [if_neg (by omega), Tiles.append, stop]
    have fills : s'.heapStart + total front = a := by rw [start, place]
    rw [fills]
    refine ⟨first, Tiles.single wide ?_ ?_⟩ <;> rw [mem]
    · simp only [pageSize] at few
      rw [tagAt, load_store (by omega) (by omega), load_store_other (by omega), mark]
      rfl
    · dsimp only
      rw [tagAt_congr (store_sameOn (by simp; omega))]
      exact foot

theorem Tiled.footed (tiled : s'.Tiled bs) : Footed s.mem a last := by
  obtain ⟨more, -, behind⟩ := (front_tiles heap place mem start).begins (by decide) tiled.tiles (by omega)
  by_cases none : rest last = 0
  · exact .inl none
  · have few : rest last < pageSize := Nat.mod_lt _ (by decide)
    have stands := at_split s.heapStart last front []
    rw [place] at stands
    have mark : load s.mem (a + 4) = last.mark := congrArg Prod.snd (heap.tiles.tags stands).2.1
    rw [stop] at behind
    cases more with
    | nil =>
      have here : a = a + rest last := behind
      omega
    | cons c more =>
      obtain ⟨wide, head, foot, -⟩ := behind
      simp only [pageSize] at few
      rw [mem, tagAt, load_store (by omega) (by omega), load_store_other (by omega), mark] at head
      obtain ⟨n, m⟩ := c
      simp only [Block.tag, Prod.mk.injEq, Int.natCast_inj] at head
      obtain ⟨rfl, rfl⟩ := head
      refine .inr ⟨wide, ?_⟩
      rw [mem, tagAt_congr (store_sameOn (by simp at wide ⊢; omega))] at foot
      exact foot

end trimmed

/-- The tags that `free` writes before it looks at the block in front. -/
def markedTags (m : Memory) (a : Nat) (b : Block) (after : List Block) : Memory :=
  joinedTags (retag m a b.size 1) a ⟨b.size, 1⟩ after

theorem markedTags_sameOn {m : Memory} {lo hi : Nat} (wide : 16 ≤ b.size)
    (apart : hi ≤ a ∨ a + (joinedNext ⟨b.size, 1⟩ after).1.size ≤ lo) : SameOn m (markedTags m a b after) lo hi := by
  unfold markedTags joinedTags
  cases after with
  | nil =>
    simp only [joinedNext] at apart
    exact retag_sameOn wide (by omega)
  | cons c after =>
    by_cases free : c.Free
    · rw [joinedNext_free free] at apart
      simp only [if_pos free] at apart ⊢
      exact (retag_sameOn wide (by omega)).trans (retag_sameOn (by omega) (by omega))
    · rw [joinedNext_used free] at apart
      simp only [if_neg free] at apart ⊢
      exact retag_sameOn wide (by omega)

/-- The tags stand at the ends: what the next block had inside stays, and the header says free. -/
theorem markedTags_inner {m : Memory} {lo hi : Nat} (wide : 16 ≤ b.size) (low : a + b.size ≤ lo)
    (high : hi + 8 ≤ a + (joinedNext ⟨b.size, 1⟩ after).1.size) : SameOn m (markedTags m a b after) lo hi := by
  have first : SameOn m (retag m a b.size 1) lo hi := retag_sameOn wide (by omega)
  unfold markedTags joinedTags
  cases after with
  | nil => exact first
  | cons c after =>
    by_cases free : c.Free
    · rw [joinedNext_free free] at high
      simp only [if_pos free] at high ⊢
      exact first.trans (retag_sameOn (by omega) (by omega))
    · simp only [if_neg free]
      exact first

theorem markedTags_mark {m : Memory} (wide : 16 ≤ b.size) : load (markedTags m a b after) (a + 4) = 1 := by
  have header {m : Memory} {n : Nat} (wide : 16 ≤ n) : load (retag m a n 1) (a + 4) = 1 := by
    unfold retag
    rw [load_store_other (by omega), load_store_other (by omega), load_store (by decide) (by decide)]
  unfold markedTags joinedTags
  cases after with
  | nil => exact header wide
  | cons c after =>
    dsimp only
    split
    · exact header (by omega)
    · exact header wide

/-- `free` marks the block, joins it with its free neighbours and trims the heap. -/
theorem Tiled.free_eq (heap : s.Tiled (before ++ b :: after)) (used : ¬ b.Free) (place : s.heapStart + total before = a) :
    ∃ m, s.free (a + 8) = (do let s ← (s.setMem m).trim; return (0, s)) ∧
      (s.setMem m).Tiled (released before b after) ∧
      ∀ lo hi, Beside (s.heapStart + total (joinedPrev before (joinedNext ⟨b.size, 1⟩ after).1).1)
        (joinedPrev before (joinedNext ⟨b.size, 1⟩ after).1).2.size lo hi → SameOn (markedTags s.mem a b after) m lo hi := by
  have stands := at_split s.heapStart b before after
  rw [place] at stands
  obtain ⟨low, wide, high⟩ := heap.bounds stands
  have small := s.brk_le
  have base := heapBase_pos.trans_le heap.base
  have above := heapBase_pos
  have inside := stands.bounds.1
  have old := heap.brk
  have filled : s.Tiled (before ++ ([b] ++ after)) := heap
  have marked := filled.retag (v := 1) (by simpa using wide) (by decide) (by decide)
  simp only [total_cons, total_nil, Nat.add_zero, place] at marked
  obtain ⟨joined, tiled⟩ := Tiled.joinNext marked place
  obtain ⟨m, joined', tiled', same⟩ := Tiled.joinPrev tiled place
  refine ⟨m, ?_, tiled', same⟩
  have start : ptr ((s.heapStart : Int) + mallocHeaderSize) = s.heapStart + 8 := ptr_of_range (by simp) (by omega)
  have block : ptr (((a + 8 : Nat) : Int) - mallocHeaderSize) = a := ptr_of_range (by simp) (by omega)
  have mark : b.mark = 0 := not_not.mp used
  unfold Process.free
  rw [if_neg (by omega), start, if_neg (by omega)]
  simp only [block]
  rw [heap.isFree_eq stands, Outcome.ok_bind, if_neg (by rw [mark]; simp), heap.size_eq stands, Outcome.ok_bind,
    writeHeaderFooter_ok low wide high, Outcome.ok_bind, joined, Outcome.ok_bind, joined', Outcome.ok_bind]
  rfl

/-- The other blocks in use keep their place and their bytes, and the memory `[a, a + n)` is
in no block in use. -/
def Clears (s s' : Process) (bs bs' : List Block) (a n : Nat) : Prop :=
  (∀ x c, At s.heapStart bs' x c → ¬ c.Free → x + c.size ≤ a ∨ a + n ≤ x) ∧
  ∀ x c, At s.heapStart bs x c → ¬ c.Free → x ≠ a → At s.heapStart bs' x c ∧ SameOn s.mem s'.mem x (x + c.size)

theorem Heap.clears {m : Memory} (heap : s.Heap (before ++ b :: after)) (place : s.heapStart + total before = a)
    (same : ∀ lo hi, Beside (s.heapStart + total (joinedPrev before (joinedNext ⟨b.size, 1⟩ after).1).1)
      (joinedPrev before (joinedNext ⟨b.size, 1⟩ after).1).2.size lo hi → SameOn (markedTags s.mem a b after) m lo hi) :
    s.Clears (s.setMem m) (before ++ b :: after) (released before b after) a b.size := by
  have stands := at_split s.heapStart b before after
  obtain ⟨-, wide, -⟩ := heap.bounds stands
  obtain ⟨pre, lead, trail, post, rfl, rfl, leadFree, trailFree, merged, size, blocks, -⟩ := released_cases b heap.apart
  rw [merged] at same
  dsimp only at same
  have here := at_split s.heapStart ⟨total (lead ++ b :: trail), 1⟩ pre post
  rw [← blocks] at here
  have marked : (⟨total (lead ++ b :: trail), 1⟩ : Block).Free := show (1 : Int) ≠ 0 by decide
  rw [total_append, ← Nat.add_assoc] at place
  have whole : total (lead ++ b :: trail) = total lead + (b.size + total trail) := by simp
  have clear {x : Nat} {c : Block} (there : At s.heapStart (released (pre ++ lead) b (trail ++ post)) x c) (busy : ¬ c.Free) :
      x + c.size ≤ s.heapStart + total pre ∨ s.heapStart + total pre + total (lead ++ b :: trail) ≤ x := by
    rcases here.disjoint there with ⟨-, rfl⟩ | apart
    · exact absurd marked busy
    · exact apart.symm
  refine ⟨fun x c there busy => ?_, fun x c there busy other => ?_⟩
  · have apart := clear there busy
    omega
  · have outside : ¬ At (s.heapStart + total pre) (lead ++ b :: trail) x c := by
      intro mid
      rcases at_append.mp mid with mid | ⟨rfl, -⟩ | mid
      · exact busy (leadFree c mid.mem)
      · exact other place
      · exact busy (trailFree c mid.mem)
    have there : At s.heapStart (pre ++ ((lead ++ b :: trail) ++ post)) x c := by simpa using there
    have kept : At s.heapStart (released (pre ++ lead) b (trail ++ post)) x c := by
      rw [blocks]
      exact there.replace (show total [⟨total (lead ++ b :: trail), 1⟩] = _ by simp) outside
    have apart := clear kept busy
    exact ⟨kept, (markedTags_sameOn wide (by omega)).trans (same _ _ (by unfold Beside; omega))⟩

/-- What is given back was in no block in use. -/
theorem Clears.trim {s' s'' : Process} {bs front : List Block} {last : Block} {c n : Nat}
    (clears : s.Clears s' bs (front ++ [last]) c n) (free : last.Free) (place : s.heapStart + total front = a)
    (mem : s''.mem = store s'.mem a (rest last)) (wide : 16 ≤ last.size) : s.Clears s'' bs (trimmed front last) c n := by
  have stands := at_split s.heapStart last front []
  rw [place] at stands
  have fewer {x : Nat} {d : Block} (there : At s.heapStart (trimmed front last) x d) (busy : ¬ d.Free) :
      At s.heapStart front x d := by
    unfold trimmed at there
    split at there
    · exact there
    · rcases at_append.mp there with there | ⟨-, rfl⟩ | outside
      · exact there
      · exact absurd free busy
      · exact outside.elim
  refine ⟨fun x d there busy => clears.1 x d (at_append.mpr (.inl (fewer there busy))) busy, fun x d there busy other => ?_⟩
  obtain ⟨kept, same⟩ := clears.2 x d there busy other
  have first : At s.heapStart front x d := by
    rcases at_append.mp kept with first | ⟨-, rfl⟩ | outside
    · exact first
    · exact absurd free busy
    · exact outside.elim
  refine ⟨?_, ?_⟩
  · unfold trimmed
    split
    · exact first
    · exact at_append.mpr (.inl first)
  · rw [mem]
    have apart := first.bounds.2
    exact same.trans (store_sameOn (.inl (by omega)))

theorem trimmed_apart {front : List Block} {last : Block} (apart : Apart (front ++ [last])) : Apart (trimmed front last) := by
  obtain ⟨first, -, join⟩ := List.isChain_append.mp apart
  unfold trimmed
  split
  · exact first
  · refine List.isChain_append.mpr ⟨first, List.isChain_singleton _, fun c mem d mem' both => ?_⟩
    cases mem'
    exact join c mem last rfl both

/-- `free` of the payload of the block at `a` returns 0 and leaves a well-formed heap, in which the
block is free or given back and the other blocks in use are what they were. -/
def Releases (s : Process) (bs : List Block) (a : Nat) (b : Block) : Prop :=
  ∃ s' bs', s.free (a + mallocHeaderSize) = .ok (0, s') ∧ s'.heapStart = s.heapStart ∧ s'.Heap bs' ∧
    s.Clears s' bs bs' a b.size

/-- When whole pages of the last block are given back, what stays of it has a footer: the bytes in
front of its new end already are one, once `write_header_footer` has marked the freed block and
has joined it with the next one. -/
def Retains (s : Process) (before : List Block) (b : Block) (after : List Block) : Prop :=
  ∀ front last, released before b after = front ++ [last] → last.Free → pageSize ≤ last.size →
    Footed (markedTags s.mem (s.heapStart + total before) b after) (s.heapStart + total front) last

/-- The bytes where the new footer belongs lie beside the tags of the joined block. -/
theorem footed_iff {m m' : Memory} {front pre post : List Block} {last merged : Block} (pages : pageSize ≤ last.size)
    (blocks : pre ++ merged :: post = front ++ [last]) {lo : Nat}
    (same : ∀ x y, Beside (lo + total pre) merged.size x y → SameOn m m' x y) :
    Footed m' (lo + total front) last ↔ Footed m (lo + total front) last := by
  unfold Footed
  refine or_congr_right (and_congr_right fun wide => ?_)
  have few : rest last + pageSize ≤ last.size := by
    unfold rest
    simp only [pageSize] at pages ⊢
    omega
  simp only [pageSize, mallocHeaderSize] at few wide ⊢
  rw [tagAt_congr (same _ _ ?_)]
  unfold Beside
  rcases List.eq_nil_or_concat' post with rfl | ⟨post, d, rfl⟩
  · obtain ⟨rfl, only⟩ := List.append_inj' blocks rfl
    cases List.singleton_inj.mp only
    omega
  · rw [← List.cons_append, ← List.append_assoc] at blocks
    obtain ⟨rfl, -⟩ := List.append_inj' blocks rfl
    simp only [total_append, total_cons]
    omega

section
variable (heap : s.Heap (before ++ b :: after)) (used : ¬ b.Free)
include heap used

/-- Up to the trimming all goes well. -/
theorem Heap.untrimmed : ∃ m front last, released before b after = front ++ [last] ∧
    s.free (s.heapStart + total before + mallocHeaderSize) = (do let s ← (s.setMem m).trim; return (0, s)) ∧
    (s.setMem m).Heap (front ++ [last]) ∧
    s.Clears (s.setMem m) (before ++ b :: after) (front ++ [last]) (s.heapStart + total before) b.size ∧
    (pageSize ≤ last.size → (Footed m (s.heapStart + total front) last ↔
      Footed (markedTags s.mem (s.heapStart + total before) b after) (s.heapStart + total front) last)) ∧
    ∀ lo hi, Beside (s.heapStart + total (joinedPrev before (joinedNext ⟨b.size, 1⟩ after).1).1)
      (joinedPrev before (joinedNext ⟨b.size, 1⟩ after).1).2.size lo hi →
        SameOn (markedTags s.mem (s.heapStart + total before) b after) m lo hi := by
  obtain ⟨m, done, tiled, same⟩ := heap.free_eq used rfl
  have clears := heap.clears rfl same
  obtain ⟨pre, lead, trail, post, -, -, -, -, merged, -, blocks, apart⟩ := released_cases b heap.apart
  obtain ⟨front, last, shape⟩ : ∃ front last, released before b after = front ++ [last] := by
    rcases List.eq_nil_or_concat' (released before b after) with none | ⟨front, last, shape⟩
    · rw [blocks] at none
      simp at none
    · exact ⟨front, last, shape⟩
  refine ⟨m, front, last, shape, done, ⟨shape ▸ tiled, shape ▸ apart⟩, shape ▸ clears, fun pages => ?_, same⟩
  rw [merged] at same
  exact footed_iff pages (blocks.symm.trans shape) same

theorem Heap.retains (releases : s.Releases (before ++ b :: after) (s.heapStart + total before) b) :
    s.Retains before b after := by
  obtain ⟨m, front, last, shape, done, tiled, -, footed, -⟩ := heap.untrimmed used
  obtain ⟨s'', bs', returned, -, left, -⟩ := releases
  intro front' last' shape' free pages
  obtain ⟨rfl, only⟩ := List.append_inj' (shape'.symm.trans shape) rfl
  cases List.singleton_inj.mp only
  obtain ⟨s', gone, mem, start, stop, -⟩ := tiled.trim_pages free pages rfl
  rw [done, gone, Outcome.ok_bind] at returned
  cases returned
  exact (footed pages).mp (Tiled.footed tiled.toTiled rfl mem start stop left.toTiled)

theorem Heap.releases (retains : s.Retains before b after) :
    s.Releases (before ++ b :: after) (s.heapStart + total before) b := by
  obtain ⟨m, front, last, shape, done, tiled, clears, footed, -⟩ := heap.untrimmed used
  unfold Releases
  rw [done]
  by_cases trims : last.Free ∧ pageSize ≤ last.size
  · obtain ⟨free, pages⟩ := trims
    obtain ⟨s', gone, mem, start, stop, brk⟩ := tiled.trim_pages free pages rfl
    have foot := (footed pages).mpr (retains front last shape free pages)
    rw [gone, Outcome.ok_bind]
    refine ⟨s', trimmed front last, rfl, start, ⟨?_, trimmed_apart tiled.apart⟩, ?_⟩
    · exact foot.tiled tiled.toTiled rfl mem start stop brk.symm
    · exact clears.trim free rfl mem (le_trans (by decide) pages)
  · rw [tiled.trim_kept trims, Outcome.ok_bind]
    exact ⟨s.setMem m, front ++ [last], rfl, rfl, tiled, clears⟩

end

/-- `free` leaves a well-formed heap exactly when the trimmed block gets a footer. -/
theorem free_releases_iff (heap : s.Heap (before ++ b :: after)) (used : ¬ b.Free) :
    s.Releases (before ++ b :: after) (s.heapStart + total before) b ↔ s.Retains before b after :=
  ⟨heap.retains used, heap.releases used⟩

/-- The first block of that heap is freed. -/
theorem free_releases_worn : worn.Releases [⟨4096, 0⟩, ⟨116, 0⟩, ⟨12172, 1⟩, ⟨4096, 0⟩] worn.heapStart ⟨4096, 0⟩ := by
  have heap : worn.Heap ([] ++ ⟨4096, 0⟩ :: [⟨116, 0⟩, ⟨12172, 1⟩, ⟨4096, 0⟩]) := worn_heap
  refine (free_releases_iff heap (by decide)).mpr ?_
  intro front last shape free pages
  obtain ⟨-, only⟩ := List.append_inj' (show [⟨4096, 1⟩, ⟨116, 0⟩, ⟨12172, 1⟩] ++ [⟨4096, 0⟩] = front ++ [last] from shape) rfl
  cases List.singleton_inj.mp only
  exact absurd free (by decide)

/-- The last one is: 12288 bytes are given back, and the 3980 that stay have no footer. -/
theorem free_spoils : ∃ before b, worn.Heap (before ++ [b]) ∧ ¬ b.Free ∧
    ¬ worn.Releases (before ++ [b]) (worn.heapStart + total before) b := by
  refine ⟨[⟨4096, 0⟩, ⟨116, 0⟩, ⟨12172, 1⟩], ⟨4096, 0⟩, worn_heap, by decide, fun releases => ?_⟩
  have footed := Heap.retains worn_heap (by decide) releases [⟨4096, 0⟩, ⟨116, 0⟩] ⟨16268, 1⟩ (by decide) (by decide) (by decide)
  exact absurd footed (by decide +kernel)

end Process
end Zeos
