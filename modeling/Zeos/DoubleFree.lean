import Zeos.Release

/-! A pointer that is freed twice. The second `free` looks at the mark in a header that may lie
inside a bigger free block, or behind the heap. -/
namespace Zeos
open Bytes BoundaryTags Outcome

section load
variable {m : Memory} {a i : Nat}

/-- A byte that is not 0 is one of an integer that is not 0. -/
theorem load_ne_zero (small : i < 4) (byte : m (a + i) ≠ 0) : load m a ≠ 0 := by
  intro zero
  have nonzero : (m (a + i)).toNat ≠ 0 := fun none => byte (UInt8.toNat.inj none)
  have b₀ := (m a).toNat_lt
  have b₁ := (m (a + 1)).toNat_lt
  have b₂ := (m (a + 2)).toNat_lt
  have b₃ := (m (a + 3)).toNat_lt
  unfold load at zero
  rw [Int.bmod_def] at zero
  obtain rfl | rfl | rfl | rfl : i = 0 ∨ i = 1 ∨ i = 2 ∨ i = 3 := by omega
  · rw [Nat.add_zero] at nonzero
    split at zero <;> omega
  all_goals split at zero <;> omega

theorem byte_of_load_one (one : load m a = 1) : m a ≠ 0 := by
  intro zero
  have b₁ := (m (a + 1)).toNat_lt
  have b₂ := (m (a + 2)).toNat_lt
  have b₃ := (m (a + 3)).toNat_lt
  unfold load at one
  rw [zero, Int.bmod_def] at one
  simp only [UInt8.toNat_zero] at one
  split at one <;> omega

end load

/-- The header at `a` lies in the free block from `x` up to `e` and its mark is not 0. Only the tags of a
block that ends less than 16 bytes behind `a` meet it: then the heap ends there, at `top`. -/
structure Sunk (m : Memory) (top a x e : Nat) : Prop where
  low : x = a ∨ x + 16 ≤ a
  high : a + 8 < e
  last : a + 16 ≤ e ∨ e = top
  mark : load m (a + 4) ≠ 0
  byte : m (a + 4) ≠ 0 ∨ top ≤ a + 12

/-- The block becomes part of a bigger free one, from `y` up to `z`. -/
theorem Sunk.merge {m m' : Memory} {top a x e y z : Nat} (sunk : Sunk m top a x e) (low : y = x ∨ y + 16 ≤ x) (high : e ≤ z)
    (inside : z ≤ top) (head : load m' (y + 4) = 1) (foot : tagAt m' (z - 8) = (((z - y : Nat) : Int), 1))
    (same : ∀ i, x ≤ i → (y = x → x + 8 ≤ i) → i < e → i + 8 < z → m' i = m i) : Sunk m' top a y z := by
  obtain ⟨start, behind, last, mark, byte⟩ := sunk
  simp only [tagAt, Prod.mk.injEq] at foot
  obtain ⟨size, one⟩ := foot
  by_cases here : y = a
  · subst here
    exact ⟨.inl rfl, by omega, by omega, by rw [head]; decide, .inl (byte_of_load_one head)⟩
  · have kept {i : Nat} (above : a + 4 ≤ i) (below : i < a + 8) (small : i + 8 < z) : m' i = m i :=
      same i (by omega) (by omega) (by omega) small
    refine ⟨by omega, by omega, by omega, ?_, ?_⟩
    · by_cases far : a + 16 ≤ z
      · rw [load_congr fun i above below => kept above (by omega) (by omega)]
        exact mark
      · have ends : z = top := by omega
        by_cases near : top ≤ a + 12
        · by_cases exact_ : z = a + 12
          · have place : z - 8 = a + 4 := by omega
            rw [← place, size]
            omega
          · have byte := byte_of_load_one one
            have place : z - 8 + 4 = a + 4 + (z - a - 8) := by omega
            rw [place] at byte
            exact load_ne_zero (by omega) byte
        · refine load_ne_zero (show 0 < 4 by decide) ?_
          rw [Nat.add_zero, kept (Nat.le_refl _) (by omega) (by omega)]
          exact byte.resolve_right near
    · by_cases near : top ≤ a + 12
      · exact .inr near
      · rw [kept (Nat.le_refl _) (by omega) (by omega)]
        exact .inl (byte.resolve_right near)

theorem Sunk.congr {m m' : Memory} {top a x e : Nat} (sunk : Sunk m top a x e) (same : SameOn m m' x e) : Sunk m' top a x e := by
  obtain ⟨start, behind, last, mark, byte⟩ := sunk
  refine ⟨start, behind, last, ?_, ?_⟩
  · rw [load_congr (same.mono (by omega) (by omega))]
    exact mark
  · rw [same (a + 4) (by omega) (by omega)]
    exact byte

namespace Process

variable {s : Process} {a x y : Nat} {before after bs front : List Block} {b c last : Block}

/-- The header at `a` is that of a freed block: it lies behind the heap, or inside a free block. -/
def Spent (s : Process) (bs : List Block) (a : Nat) : Prop :=
  s.heapEnd ≤ a + mallocHeaderSize ∨
    ∃ x c, At s.heapStart bs x c ∧ c.Free ∧ Sunk s.mem s.heapEnd a x (x + c.size)

section
variable (heap : s.Heap (before ++ b :: after)) (used : ¬ b.Free)
include heap used

/-- Up to the trimming, a freed header stays one, and that of the block becomes one. -/
theorem Heap.untrimmed_spent : ∃ m front last, released before b after = front ++ [last] ∧
    s.free (s.heapStart + total before + mallocHeaderSize) = (do let s ← (s.setMem m).trim; return (0, s)) ∧
    (s.setMem m).Heap (front ++ [last]) ∧
    (s.setMem m).Spent (front ++ [last]) (s.heapStart + total before) ∧
    ∀ a, s.Spent (before ++ b :: after) a → (s.setMem m).Spent (front ++ [last]) a := by
  obtain ⟨m, front, last, shape, done, tiled, -, -, same⟩ := heap.untrimmed used
  refine ⟨m, front, last, shape, done, tiled, ?_⟩
  rw [← shape] at tiled ⊢
  have stands := at_split s.heapStart b before after
  obtain ⟨-, wide, high⟩ := heap.bounds stands
  obtain ⟨pre, lead, trail, post, rfl, rfl, leadFree, trailFree, merged, size, blocks, -⟩ := released_cases b heap.apart
  rw [merged] at same
  dsimp only at same
  rw [blocks] at tiled ⊢
  have here := at_split s.heapStart ⟨total (lead ++ b :: trail), 1⟩ pre post
  obtain ⟨-, head, foot⟩ := tiled.tiles.tags here
  have free : (⟨total (lead ++ b :: trail), 1⟩ : Block).Free := show (1 : Int) ≠ 0 by decide
  have fills := tiled.tiles.hi_eq
  have whole : total (lead ++ b :: trail) = total lead + (b.size + total trail) := by simp
  have place : s.heapStart + total (pre ++ lead) = s.heapStart + total pre + total lead := by
    rw [total_append, Nat.add_assoc]
  rw [total_append, total_cons] at fills
  simp only [setMem_heapEnd, setMem_heapStart, setMem_mem, mallocHeaderSize] at fills head foot
  generalize total (lead ++ b :: trail) = n at *
  generalize start : s.heapStart + total pre = z at *
  rw [place] at same stands high
  -- what the call has not written: in front of the freed block, behind it, and outside the joined one
  have front {lo hi : Nat} (low : z + 8 ≤ lo) (high : hi ≤ z + total lead) : SameOn s.mem m lo hi :=
    (markedTags_sameOn wide (.inl high)).trans (same lo hi (.inr (.inr ⟨low, by omega⟩)))
  have back {lo hi : Nat} (low : z + total lead + b.size ≤ lo) (high : hi + 8 ≤ z + n) : SameOn s.mem m lo hi :=
    (markedTags_inner wide low (by omega)).trans (same lo hi (.inr (.inr ⟨by omega, by omega⟩)))
  have outside {lo hi : Nat} (apart : hi ≤ z ∨ z + n ≤ lo) : SameOn s.mem m lo hi :=
    (markedTags_sameOn wide (by omega)).trans (same lo hi (by unfold Beside; omega))
  have header : load m (z + 4) = 1 := congrArg Prod.snd head
  have footer : tagAt m (z + n - 8) = (((z + n - z : Nat) : Int), 1) := by
    rw [Nat.add_sub_cancel_left]
    exact foot
  have wideOf {x : Nat} {c : Block} (stands : At s.heapStart (pre ++ lead ++ b :: (trail ++ post)) x c) : 16 ≤ c.size :=
    (heap.bounds stands).2.1
  have wideLead : total lead = 0 ∨ 16 ≤ total lead := by
    rcases lead with _ | ⟨q, lead⟩
    · exact .inl rfl
    · have stands := at_split s.heapStart q pre (lead ++ b :: (trail ++ post))
      have := wideOf (by simpa using stands)
      rw [total_cons]
      omega
  constructor
  · have mark : load m (z + total lead + 4) = 1 := by
      rcases wideLead with none | some
      · rw [none]
        exact header
      · rw [load_congr (same _ _ (.inr (.inr ⟨by omega, by omega⟩)))]
        exact markedTags_mark wide
    rw [place]
    exact .inr ⟨z, ⟨n, 1⟩, here, free, by omega, by show _ < z + n; omega, .inl (by show _ ≤ z + n; omega),
      by rw [setMem_mem, mark]; decide, .inl (byte_of_load_one mark)⟩
  · rintro a (behind | ⟨x, c, stands', free', sunk⟩)
    · exact .inl behind
    have merges (low : z = x ∨ z + 16 ≤ x) (high : x + c.size ≤ z + n)
        (kept : ∀ i, x ≤ i → (z = x → x + 8 ≤ i) → i < x + c.size → i + 8 < z + n → m i = s.mem i) :
        (s.setMem m).Spent (pre ++ ⟨n, 1⟩ :: post) a :=
      .inr ⟨z, ⟨n, 1⟩, here, free, sunk.merge low high (by show z + n ≤ s.heapEnd; omega) header footer kept⟩
    rcases at_append.mp stands' with stands' | ⟨-, rfl⟩ | stands'
    · rcases at_append.mp stands' with stands' | stands'
      · have below := stands'.bounds.2
        exact .inr ⟨x, c, at_append.mpr (.inl stands'), free', sunk.congr (outside (.inl (by omega)))⟩
      · rw [start] at stands'
        obtain ⟨low, below⟩ := stands'.bounds
        have begins : z = x ∨ z + 16 ≤ x := by
          obtain ⟨ahead, behind, rfl, rfl⟩ := stands'.split
          rcases ahead with _ | ⟨q, ahead⟩
          · exact .inl rfl
          · have stands := at_split s.heapStart q pre (ahead ++ c :: behind ++ b :: (trail ++ post))
            have := wideOf (by simpa using stands)
            rw [total_cons]
            omega
        exact merges begins (by omega) fun i above first below' _ => front (by omega) (by omega) i (Nat.le_refl i)
          (Nat.lt_succ_self i)
    · exact absurd free' used
    · rw [place] at stands'
      rcases at_append.mp stands' with stands' | stands'
      · obtain ⟨low, below⟩ := stands'.bounds
        exact merges (by omega) (by omega) fun i above _ below' inside =>
          back (by omega) (by omega) i (Nat.le_refl i) (Nat.lt_succ_self i)
      · have above := stands'.bounds.1
        have same' : z + total lead + b.size + total trail = z + n := by omega
        rw [same'] at stands' above
        refine .inr ⟨x, c, at_append.mpr (.inr (.inr ?_)), free', sunk.congr (outside (.inr above))⟩
        rw [setMem_heapStart, start]
        exact stands'

end

/-- The blocks of a heap are those that its tags tell. -/
theorem Tiled.unique {cs : List Block} (heap : s.Tiled bs) (heap' : s.Tiled cs) : cs = bs := by
  obtain ⟨rest, rfl, more⟩ := heap.tiles.begins (by decide) heap'.tiles (Nat.le_refl _)
  cases rest with
  | nil => exact List.append_nil bs
  | cons c rest =>
    have wide := more.1
    have fills := more.hi_eq
    rw [total_cons] at fills
    simp only [mallocHeaderSize] at wide
    omega

/-- A `free` of the pointer finds nothing to free. -/
structure Refuses (s : Process) (a : Nat) : Prop where
  base : heapBase ≤ s.heapStart
  low : s.heapStart ≤ a
  le : s.heapStart ≤ s.heapEnd
  brk : s.heapEnd = s.brk
  mark : s.heapEnd ≤ a + mallocHeaderSize ∨ load s.mem (a + 4) ≠ 0

theorem Refuses.free (refuses : s.Refuses a) : s.free (a + mallocHeaderSize) = .ok (-1, s) := by
  obtain ⟨base, low, le, brk, mark⟩ := refuses
  have small := s.brk_le
  have above := heapBase_pos
  simp only [mallocHeaderSize] at mark ⊢
  have start : ptr ((s.heapStart : Int) + mallocHeaderSize) = s.heapStart + 8 := ptr_of_range (by simp) (by omega)
  unfold Process.free
  rw [if_neg (by omega), start]
  by_cases behind : s.heapEnd ≤ a + 8
  · rw [if_pos (.inr behind)]
    rfl
  · have block : ptr (((a + 8 : Nat) : Int) - mallocHeaderSize) = a := ptr_of_range (by simp) (by omega)
    rw [if_neg (by omega)]
    simp only [block]
    rw [isFree_ok (by omega) (by omega), Outcome.ok_bind, if_pos (show (tagAt s.mem a).2 ≠ 0 from mark.resolve_left behind)]
    rfl

theorem Spent.refuses (spent : s.Spent bs a) (heap : s.Tiled bs) (low : s.heapStart ≤ a) : s.Refuses a := by
  have fills := heap.tiles.hi_eq
  refine ⟨heap.base, low, by omega, heap.brk, ?_⟩
  rcases spent with behind | ⟨x, c, -, -, sunk⟩
  · exact .inl behind
  · exact .inr sunk.mark

/-- Trimming stores a size, and no size is a mark. -/
theorem Heap.trim_spent (heap : s.Heap (front ++ [last])) : ∃ s', s.trim = .ok s' ∧ s'.heapStart = s.heapStart ∧
    ∀ a, s.heapStart ≤ a → s.Spent (front ++ [last]) a → s'.Refuses a ∧ ∀ bs, s'.Tiled bs → s'.Spent bs a := by
  by_cases trims : last.Free ∧ pageSize ≤ last.size
  · obtain ⟨free, pages⟩ := trims
    obtain ⟨s', done, mem, start, stop, brk⟩ := heap.trim_pages free pages rfl
    have less : rest last + pageSize ≤ last.size := by
      unfold rest
      simp only [pageSize] at pages ⊢
      omega
    have fills := heap.tiles.hi_eq
    rw [total_append, total_cons, total_nil, Nat.add_zero, ← Nat.add_assoc] at fills
    refine ⟨s', done, start, fun a low spent => ?_⟩
    by_cases behind : s'.heapEnd ≤ a + mallocHeaderSize
    · exact ⟨⟨start ▸ heap.base, start ▸ low, by rw [start]; omega, brk.symm, .inl behind⟩, fun _ _ => .inl behind⟩
    simp only [mallocHeaderSize, pageSize] at behind less
    obtain ⟨x, c, stands, free', sunk⟩ := spent.resolve_left (by simp only [mallocHeaderSize]; omega)
    obtain ⟨begins, inside, ends, mark, byte⟩ := sunk
    have apart : s.heapStart + total front + 4 ≤ a + 4 ∨ a + 8 ≤ s.heapStart + total front := by
      rcases at_append.mp stands with stands | ⟨rfl, -⟩ | stands
      · have := stands.bounds.2
        omega
      · omega
      · exact stands.elim
    have same : SameOn s.mem s'.mem (a + 4) (a + 8) := by
      rw [mem]
      exact store_sameOn (by omega)
    have mark' : load s'.mem (a + 4) ≠ 0 := by
      rw [load_congr same]
      exact mark
    have byte' : s'.mem (a + 4) ≠ 0 ∨ s'.heapEnd ≤ a + 12 := by
      rw [same (a + 4) (by omega) (by omega)]
      exact byte.imp_right fun near => by omega
    refine ⟨⟨start ▸ heap.base, start ▸ low, by rw [start]; omega, brk.symm, .inr mark'⟩, fun bs tiled => .inr ?_⟩
    have footed := Tiled.footed heap.toTiled rfl mem start stop tiled
    rw [(footed.tiled heap.toTiled rfl mem start stop brk.symm).unique tiled, start]
    rcases at_append.mp stands with stands | ⟨rfl, rfl⟩ | stands
    · have := stands.bounds.2
      have kept : At s.heapStart (trimmed front last) x c := by
        unfold trimmed
        split
        · exact stands
        · exact at_append.mpr (.inl stands)
      exact ⟨x, c, kept, free', begins, inside, by omega, mark', byte'⟩
    · have some : rest c ≠ 0 := by omega
      refine ⟨_, ⟨rest c, c.mark⟩, ?_, free', begins, by show a + 8 < _ + rest c; omega,
        .inr (by show _ + rest c = _; omega), mark', byte'⟩
      unfold trimmed
      rw [if_neg some]
      exact at_append.mpr (.inr (.inl ⟨rfl, rfl⟩))
    · exact stands.elim
  · refine ⟨s, heap.trim_kept trims, rfl, fun a low spent => ⟨spent.refuses heap.toTiled low, fun bs tiled => ?_⟩⟩
    rw [heap.toTiled.unique tiled]
    exact spent

/-- `p` points to the payload of a block in use. -/
def Allocated (s : Process) (bs : List Block) (p : Nat) : Prop :=
  ∃ a b, At s.heapStart bs a b ∧ ¬ b.Free ∧ p = a + mallocHeaderSize

/-- Calls of `free`, one after the other. -/
def frees (ps : List Nat) (s : Process) : Except HeapFault Process := ps.foldlM (fun s p => do return (← s.free p).2) s

theorem frees_cons {p : Nat} {ps : List Nat} {r : Int} {s' : Process} (done : s.free p = .ok (r, s')) :
    s.frees (p :: ps) = s'.frees ps := by
  rw [frees, List.foldlM_cons, done]
  rfl

/-- Each of the calls but the last one leaves a footer behind when it gives pages back. -/
def Mindful : List Nat → Process → Prop
  | p :: q :: ps, s => (∀ before b after, s.Heap (before ++ b :: after) →
      p = s.heapStart + total before + mallocHeaderSize → s.Retains before b after) ∧
      Ensures (fun r => Mindful (q :: ps) r.2) (s.free p)
  | _, _ => True

/-- A call keeps freed headers and makes one of the block's. -/
theorem Heap.free_spent (heap : s.Heap (before ++ b :: after)) (used : ¬ b.Free) : ∃ s',
    s.free (s.heapStart + total before + mallocHeaderSize) = .ok (0, s') ∧ s'.heapStart = s.heapStart ∧
    ∀ a, s.heapStart ≤ a → a = s.heapStart + total before ∨ s.Spent (before ++ b :: after) a →
      s'.Refuses a ∧ ∀ bs, s'.Tiled bs → s'.Spent bs a := by
  obtain ⟨m, front, last, -, done, tiled, own, others⟩ := heap.untrimmed_spent used
  obtain ⟨s', trimmed, start, left⟩ := tiled.trim_spent
  refine ⟨s', by rw [done, trimmed]; rfl, start, fun a low spent => left a low ?_⟩
  rcases spent with rfl | spent
  · exact own
  · exact others a spent

/-- A pointer that is among those freed first, or was freed before, is refused behind the calls. -/
theorem Heap.frees_spent {ps : List Nat} (heap : s.Heap bs) (allocated : ∀ p ∈ ps, s.Allocated bs p) (distinct : ps.Nodup)
    (mindful : Mindful ps s) (low : s.heapStart ≤ a) (spent : ps.head? = some (a + mallocHeaderSize) ∨ s.Spent bs a) :
    ∃ s', s.frees ps = .ok s' ∧ s'.Refuses a := by
  induction ps generalizing s bs with
  | nil => exact ⟨s, rfl, (spent.resolve_left (by simp)).refuses heap.toTiled low⟩
  | cons p ps ih =>
    obtain ⟨x, b, stands, used, rfl⟩ := allocated p (List.mem_cons_self ..)
    obtain ⟨before, after, rfl, rfl⟩ := stands.split
    obtain ⟨s', done, start, left⟩ := heap.free_spent used
    have here : a = s.heapStart + total before ∨ s.Spent (before ++ b :: after) a :=
      spent.imp_left fun head => by simpa using head.symm
    obtain ⟨refuses, spent'⟩ := left a low here
    rw [frees_cons done]
    cases ps with
    | nil => exact ⟨s', rfl, refuses⟩
    | cons q ps =>
      obtain ⟨retains, rest⟩ := mindful
      obtain ⟨s'', bs', again, -, heap', -, kept⟩ := heap.releases used (retains before b after heap rfl)
      obtain rfl : s' = s'' := by
        have same := done.symm.trans again
        simpa using same
      obtain ⟨absent, distinct⟩ := List.nodup_cons.mp distinct
      refine ih heap' (fun r mem => ?_) distinct (rest.of_ok done) (start ▸ low) (.inr (spent' bs' heap'.toTiled))
      obtain ⟨y, c, stands', used', rfl⟩ := allocated r (List.mem_cons_of_mem _ mem)
      have other : y ≠ s.heapStart + total before := by
        rintro rfl
        exact absent mem
      exact ⟨y, c, start ▸ (kept y c stands' used' other).1, used', rfl⟩

/-- A second `free` of a pointer is refused and changes nothing, whatever was freed in between. -/
theorem free_twice_refused {p : Nat} {qs : List Nat} (heap : s.Heap bs) (allocated : ∀ q ∈ p :: qs, s.Allocated bs q)
    (distinct : (p :: qs).Nodup) (mindful : Mindful (p :: qs) s) :
    ∃ s', s.frees (p :: qs) = .ok s' ∧ s'.free p = .ok (-1, s') := by
  obtain ⟨a, b, stands, -, rfl⟩ := allocated p (List.mem_cons_self ..)
  obtain ⟨s', done, refuses⟩ := heap.frees_spent allocated distinct mindful stands.bounds.1 (.inl rfl)
  exact ⟨s', done, refuses.free⟩

/-- The pointers to the blocks in use of `worn`. -/
theorem allocated_worn (s : Process) : ∀ q ∈ [s.heapStart + 8, s.heapStart + 4104, s.heapStart + 16392],
    s.Allocated [⟨4096, 0⟩, ⟨116, 0⟩, ⟨12172, 1⟩, ⟨4096, 0⟩] q := by
  intro q mem
  simp only [List.mem_cons, List.not_mem_nil, or_false] at mem
  rcases mem with rfl | rfl | rfl
  · exact ⟨s.heapStart, ⟨4096, 0⟩, .inl ⟨rfl, rfl⟩, by decide, rfl⟩
  · exact ⟨s.heapStart + 4096, ⟨116, 0⟩, .inr (.inl ⟨rfl, rfl⟩), by decide, by simp only [mallocHeaderSize]⟩
  · exact ⟨s.heapStart + 16384, ⟨4096, 0⟩, by simp [At, Nat.add_assoc], by decide, by simp⟩

/-- The first two blocks of `worn` are freed. -/
theorem free_twice_refused_worn : ∃ s', worn.frees [worn.heapStart + 8, worn.heapStart + 4104] = .ok s' ∧
    s'.free (worn.heapStart + 8) = .ok (-1, s') := by
  refine free_twice_refused worn_heap (fun q mem => allocated_worn worn q ?_) (by simp) ⟨?_, ?_⟩
  · exact List.mem_append_left [worn.heapStart + 16392] mem
  · intro before b after heap place front last shape free pages
    have same := worn_heap.toTiled.unique heap.toTiled
    have none : before = [] := by
      rcases before with _ | ⟨c, before⟩
      · rfl
      · have wide := (heap.bounds (at_split worn.heapStart c [] (before ++ b :: after))).2.1
        simp only [total_cons, mallocHeaderSize] at place
        omega
    subst none
    obtain ⟨rfl, rfl⟩ := List.cons.inj same
    obtain ⟨-, only⟩ := List.append_inj'
      (show [⟨4096, 1⟩, ⟨116, 0⟩, ⟨12172, 1⟩] ++ [⟨4096, 0⟩] = front ++ [last] from shape) rfl
    cases List.singleton_inj.mp only
    exact absurd free (by decide)
  · cases worn.free (worn.heapStart + 8) <;> trivial

/-- The last block of `worn` is freed, and then the first one, for which the footer is read that the
trimming did not write. -/
theorem free_twice_faults : worn.Heap [⟨4096, 0⟩, ⟨116, 0⟩, ⟨12172, 1⟩, ⟨4096, 0⟩] ∧
    (∀ q ∈ [worn.heapStart + 16392, worn.heapStart + 8], worn.Allocated [⟨4096, 0⟩, ⟨116, 0⟩, ⟨12172, 1⟩, ⟨4096, 0⟩] q) ∧
    ¬ ∃ s', worn.frees [worn.heapStart + 16392, worn.heapStart + 8] = .ok s' ∧
      s'.free (worn.heapStart + 16392) = .ok (-1, s') := by
  refine ⟨worn_heap, fun q mem => allocated_worn worn q ?_, ?_⟩
  · rcases List.mem_cons.mp mem with last | first
    · exact List.mem_append_right [worn.heapStart + 8, worn.heapStart + 4104] (List.mem_singleton.mpr last)
    · exact List.mem_append_left [worn.heapStart + 4104, worn.heapStart + 16392] first
  · rintro ⟨s', done, -⟩
    have failed : ¬ (worn.frees [worn.heapStart + 16392, worn.heapStart + 8]).isOk := by decide +kernel
    exact failed (by rw [done]; rfl)

end Process
end Zeos
