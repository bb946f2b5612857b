import Zeos.Exhaustion
import Zeos.Release

/-! Runs of a process that calls `malloc` and `free` and writes in what it got. -/
namespace Zeos
open Bytes BoundaryTags Outcome

namespace Process

variable {s : Process} {a n : Nat} {before after bs bs' : List Block} {b : Block}

/-- The pages that `malloc(num_bytes)` asks for when no block is big enough. -/
def morePages (numBytes : Int) : Int := (int32 (int32 (numBytes + 2 * mallocHeaderSize) + pageSize - 1)).tdiv pageSize

/-- The walk of `malloc(num_bytes)` finds a block. -/
def Found (numBytes : Int) (s : Process) : Prop :=
  Ensures (·.isSome) (s.search (int32 (numBytes + 2 * mallocHeaderSize)) 4294967296 s.heapStart)

instance (numBytes : Int) (s : Process) : Decidable (s.Found numBytes) := inferInstanceAs (Decidable (Ensures _ _))

/-- No `dyn_mem` call of `malloc(num_bytes)` reports a failure. -/
def Supplied (numBytes : Int) (s : Process) : Prop :=
  0 < numBytes → (s.heapStart = 0 → (s.dynMem 1).1 ≠ ptr (-1)) ∧
    Ensures (fun s₁ => ¬ s₁.Found numBytes → (s₁.dynMem (morePages numBytes)).1 ≠ ptr (-1)) s.firstPage

instance (numBytes : Int) (s : Process) : Decidable (s.Supplied numBytes) := inferInstanceAs (Decidable (_ → _))

/-- A call for more pages succeeds or fails. -/
theorem dynMem_grants {n : Nat} (some : 0 < n) (success : (s.dynMem n).1 ≠ ptr (-1)) : s.Grants n := by
  unfold Process.dynMem at success
  rw [if_pos (by omega)] at success
  rcases given : s.grants 0 with none | fresh
  · simp [given] at success
  · refine ⟨by rw [given]; rfl, ?_⟩
    by_contra fits
    have fits : ¬ HeapFits (s.myHeap + (n : Int).toNat) := by simpa using fits
    simp only [given, dif_neg fits] at success
    exact success rfl

/-- No heap reaches so far, in either direction. -/
theorem dynMem_beyond {numPags : Int} (beyond : numPags ≤ -524287 ∨ 524287 ≤ numPags) : (s.dynMem numPags).1 = ptr (-1) := by
  have fits := s.fits.le
  have base : pageSize * 2 ≤ heapBase := by decide
  simp only [pageSize] at fits base
  by_contra success
  rcases beyond with below | above
  · unfold Process.dynMem at success
    rw [if_neg (by omega), if_pos (by omega)] at success
    exact success rfl
  · lift numPags to Nat using by omega
    have room := (dynMem_grants (by omega) success).2.le
    simp only [pageSize] at room
    omega

theorem size_of_fits (fits : (n : Int) + 2 * mallocHeaderSize ≤ 2147483647) :
    int32 ((n : Int) + 2 * mallocHeaderSize) = (n + 2 * mallocHeaderSize : Nat) := by
  simp only [mallocHeaderSize] at fits ⊢
  rw [int32_of_range (by omega) (by omega)]
  push_cast
  rfl

theorem morePages_of_small (small : (n : Int) + 2 * mallocHeaderSize + pageSize ≤ 2147483647) :
    morePages n = pagesFor (n + 2 * mallocHeaderSize) := by
  simp only [mallocHeaderSize, pageSize] at small
  unfold morePages
  rw [size_of_fits (by simp only [mallocHeaderSize]; omega)]
  exact (pagesNeeded (by simp only [mallocHeaderSize, pageSize]; omega)).1

theorem int32_wraps {x : Int} (low : 2147483648 ≤ x) (high : x < 6442450944) : int32 x = x - 4294967296 := by
  have same : int32 x = int32 (x - 4294967296) := (Int.sub_bmod_right x 4294967296).symm
  rw [same, int32_of_range (by omega) (by omega)]

theorem Tiled.not_found (heap : s.Tiled bs) (fits : (n : Int) + 2 * mallocHeaderSize ≤ 2147483647)
    (none : ∀ b ∈ bs, ¬ Fits (n + 2 * mallocHeaderSize : Nat) b) : ¬ s.Found n := by
  unfold Found
  rw [size_of_fits fits]
  rcases heap.search_all (t := (n + 2 * mallocHeaderSize : Nat)) with ⟨pre, c, post, rfl, -, found, -⟩ | ⟨-, found⟩
  · exact absurd found (none c (by simp))
  · rw [found]
    exact (by decide)

/-- A request too big for the computation of its pages finds no block and no page. -/
theorem Tiled.served_small (heap : s.Tiled bs) (fits : (n : Int) + 2 * mallocHeaderSize ≤ 2147483647)
    (served : ¬ s.Found n → (s.dynMem (morePages n)).1 ≠ ptr (-1)) :
    n + 2 * mallocHeaderSize + pageSize ≤ 2147483647 := by
  by_contra big
  have small := s.brk_le
  have base : pageSize * 2 ≤ heapBase := by decide
  have low := heap.base
  have old := heap.brk
  have none : ∀ b ∈ bs, ¬ Fits (n + 2 * mallocHeaderSize : Nat) b := by
    rintro c mem ⟨-, enough⟩
    obtain ⟨pre, post, rfl⟩ := List.append_of_mem mem
    obtain ⟨-, -, high⟩ := heap.bounds (at_split s.heapStart c pre post)
    simp only [mallocHeaderSize, pageSize] at enough big base
    omega
  refine served (heap.not_found fits none) (dynMem_beyond ?_)
  unfold morePages
  rw [size_of_fits fits]
  simp only [mallocHeaderSize, pageSize] at fits big ⊢
  by_cases wraps : ((n + 2 * 8 : Nat) : Int) + (4096 : Nat) - 1 < 2147483648
  · right
    rw [int32_of_range (by omega) wraps, Int.tdiv_eq_ediv_of_nonneg (by omega)]
    omega
  · left
    rw [int32_wraps (by omega) (by omega), ← Int.neg_neg (_ - _), Int.neg_tdiv, Int.tdiv_eq_ediv_of_nonneg (by omega)]
    omega

/-- The calls of `dyn_mem` that succeed serve the request. -/
theorem Opens.serves {lo : Nat} (opens : s.Opens lo bs) (positive : 0 < n)
    (fits : (n : Int) + 2 * mallocHeaderSize ≤ 2147483647) (supplied : s.Supplied n) :
    n + 2 * mallocHeaderSize + pageSize ≤ 2147483647 ∧ s.Serves (n + 2 * mallocHeaderSize) bs := by
  obtain ⟨page, more⟩ := supplied (by omega)
  have grants {s₁ : Process} (heap : s₁.Tiled bs) (served : ¬ s₁.Found n → (s₁.dynMem (morePages n)).1 ≠ ptr (-1)) :
      n + 2 * mallocHeaderSize + pageSize ≤ 2147483647 ∧
        ((∀ b ∈ bs, ¬ Fits (n + 2 * mallocHeaderSize : Nat) b) → s₁.Grants (pagesFor (n + 2 * mallocHeaderSize))) := by
    have small := heap.served_small fits served
    refine ⟨small, fun none => dynMem_grants (pagesFor_bounds (by omega)).1 ?_⟩
    rw [← morePages_of_small (by exact_mod_cast small)]
    exact served (heap.not_found fits none)
  unfold Serves
  cases opens with
  | heap heap =>
    have base := heapBase_pos.trans_le heap.base
    have ready : ¬ s.heapStart = 0 := by omega
    have same : s.firstPage = .ok s := if_neg ready
    rw [if_neg ready]
    exact grants heap.toTiled (more.of_ok same)
  | first null =>
    have first : s.Grants 1 := dynMem_grants (by decide) (page null)
    obtain ⟨s₁, done, -, heap, -, kept, pages⟩ := firstPage_heap null first
    obtain ⟨small, enough⟩ := grants heap.toTiled (more.of_ok done)
    rw [if_pos null]
    refine ⟨small, first, fun none => ?_⟩
    have granted := enough none
    unfold Grants at granted ⊢
    rwa [← kept, ← pages]

theorem Opens.wide {lo : Nat} (opens : s.Opens lo bs) (stands : At lo bs a b) : 0 < b.size := by
  cases opens with
  | heap heap =>
    obtain ⟨-, wide, -⟩ := heap.bounds stands
    omega
  | first null =>
    cases List.mem_singleton.mp stands.mem
    exact (by decide)

/-- The pointer that `malloc` returns is not one to a block in use before. -/
theorem Opens.chosen {lo t p : Nat} (opens : s.Opens lo bs) (chosen : Chosen lo t bs p bs') :
    ∃ x, p = x + mallocHeaderSize ∧ ∀ b, At lo bs x b → b.Free := by
  rcases chosen with ⟨pre, c, post, rfl, -, fits, rfl, -⟩ | ⟨-, rfl, -⟩
  · refine ⟨_, rfl, fun b stands => ?_⟩
    have wide := opens.wide stands
    rcases stands.disjoint (at_split lo c pre post) with ⟨-, rfl⟩ | apart
    · exact fits.1
    · have wide' := opens.wide (at_split lo c pre post)
      omega
  · refine ⟨_, rfl, fun b stands => ?_⟩
    have wide := opens.wide stands
    have inside := stands.bounds
    omega

/-- The payload of a block gets other bytes. -/
theorem Heap.poke {m : Memory} (heap : s.Heap (before ++ b :: after)) (place : s.heapStart + total before = a)
    (same : ∀ x, x < a + mallocHeaderSize ∨ a + b.size - mallocHeaderSize ≤ x → m x = s.mem x) :
    (s.setMem m).Heap (before ++ b :: after) := by
  have tags := heap.tiles.tags (at_split s.heapStart b before after)
  rw [place] at tags
  obtain ⟨wide, head, foot⟩ := tags
  simp only [mallocHeaderSize] at wide foot same
  have kept {lo hi : Nat} (apart : hi ≤ a + 8 ∨ a + b.size - 8 ≤ lo) : SameOn s.mem m lo hi := fun x low high =>
    same x (by omega)
  have filled : Tiles mallocHeaderSize (tagAt s.mem) s.heapStart (before ++ ([b] ++ after)) s.heapEnd := heap.tiles
  have tiles : Tiles mallocHeaderSize (tagAt m) s.heapStart (before ++ ([b] ++ after)) s.heapEnd := by
    refine filled.replace (fun x _ below => ?_) (fun x above _ => ?_) ?_
    · rw [place, mallocHeaderSize] at below
      exact tagAt_congr (kept (.inl (by omega)))
    · rw [place, total_cons, total_nil] at above
      exact tagAt_congr (kept (.inr (by omega)))
    · rw [place, total_cons, total_nil, Nat.add_zero]
      refine .single wide ?_ ?_
      · exact (tagAt_congr (kept (.inl (by omega)))).trans head
      · exact (tagAt_congr (kept (.inr (by simp)))).trans foot
  exact ⟨⟨heap.base, heap.brk, tiles⟩, heap.apart⟩

end Process

/-- A process with the pointers that `malloc` has returned and `free` has not got, each with the
bytes that were asked for. -/
structure Session where
  process : Process
  live : List (Nat × Int)

inductive Act where
  | malloc (numBytes : Int)
  | free (p : Nat)
  | write (x : Nat) (v : UInt8)

namespace Session

def step (σ : Session) : Act → Except HeapFault Session
  | .malloc numBytes => do
    let (p, s) ← σ.process.malloc numBytes
    return ⟨s, if p = ptr (-1) then σ.live else (p, numBytes) :: σ.live⟩
  | .free p => do
    let (_, s) ← σ.process.free p
    return ⟨s, σ.live.filter fun entry => entry.1 ≠ p⟩
  | .write x v => return { σ with process := σ.process.setMem fun y => if y = x then v else σ.process.mem y }

def run (σ : Session) (acts : List Act) : Except HeapFault Session := acts.foldlM step σ

/-- The bytes of an allocation: what its header says without the two tags. -/
def room (σ : Session) (p : Nat) : Nat := (load σ.process.mem (p - mallocHeaderSize)).toNat - 2 * mallocHeaderSize

/-- The pages that `malloc` asks for are there, `free` gets a live pointer, a write is one in the
payload of a live pointer. -/
def Permits (σ : Session) : Act → Prop
  | .malloc numBytes => numBytes ≤ 2147483647 ∧ σ.process.Supplied numBytes
  | .free p => p ∈ σ.live.map Prod.fst
  | .write x _ => ∃ p ∈ σ.live.map Prod.fst, p ≤ x ∧ x < p + σ.room p

/-- The size of the block can be computed; a block that `free` trims gets a footer. -/
def Minds (σ : Session) : Act → Prop
  | .malloc numBytes => numBytes + 2 * mallocHeaderSize ≤ 2147483647
  | .free p => ∀ before b after, σ.process.Heap (before ++ b :: after) →
      p = σ.process.heapStart + total before + mallocHeaderSize → σ.process.Retains before b after
  | .write _ _ => True

instance (σ : Session) : DecidablePred σ.Permits
  | .malloc _ => inferInstanceAs (Decidable (_ ∧ _))
  | .free _ => inferInstanceAs (Decidable (_ ∈ _))
  | .write _ _ => inferInstanceAs (Decidable (∃ p ∈ _, _))

/-- Every step of the run is such a step. -/
def Along (permits : Session → Act → Prop) : Session → List Act → Prop
  | _, [] => True
  | σ, a :: acts => permits σ a ∧ Ensures (Along permits · acts) (σ.step a)

instance decidableAlong (permits : Session → Act → Prop) [∀ σ, DecidablePred (permits σ)] : (σ : Session) → (acts : List Act) →
    Decidable (Along permits σ acts)
  | _, [] => .isTrue trivial
  | σ, _ :: acts =>
    have : DecidablePred (Along permits · acts) := fun σ' => decidableAlong permits σ' acts
    inferInstanceAs (Decidable (_ ∧ Ensures (Along permits · acts) (σ.step _)))

/-- No `malloc` yet. -/
def Fresh (σ : Session) : Prop := σ.process.heapStart = 0 ∧ σ.live = []

/-- The payloads of the live pointers lie in the heap, are big enough and do not meet. -/
structure Orderly (σ : Session) : Prop where
  apart : σ.live.Pairwise fun e e' => e.1 + σ.room e.1 ≤ e'.1 ∨ e'.1 + σ.room e'.1 ≤ e.1
  inside : ∀ e ∈ σ.live, σ.process.heapStart ≤ e.1 ∧ e.1 + σ.room e.1 ≤ σ.process.heapEnd
  enough : ∀ e ∈ σ.live, e.2 ≤ σ.room e.1

/-- The two calls change no byte of a payload that stays live. -/
def Untouched (σ : Session) (a : Act) (σ' : Session) : Prop :=
  match a with
  | .write _ _ => True
  | _ => ∀ e ∈ σ.live, e ∈ σ'.live → SameOn σ.process.mem σ'.process.mem e.1 (e.1 + σ.room e.1)

/-- A live pointer is that of a block in use. -/
def Owned (s : Process) (bs : List Block) (e : Nat × Int) : Prop :=
  ∃ x b, e.1 = x + mallocHeaderSize ∧ At s.heapStart bs x b ∧ ¬ b.Free ∧ e.2 + 2 * mallocHeaderSize ≤ b.size

/-- What every step keeps. -/
def Sound (σ : Session) : Prop :=
  σ.Fresh ∨ ∃ bs, σ.process.Heap bs ∧ (∀ e ∈ σ.live, Owned σ.process bs e) ∧ (σ.live.map Prod.fst).Nodup

section
variable {s : Process} {bs : List Block} {e e' : Nat × Int}

theorem Owned.room (heap : s.Tiled bs) (owned : Owned s bs e) : ∃ x b, e.1 = x + 8 ∧ At s.heapStart bs x b ∧ ¬ b.Free ∧
    e.2 + 16 ≤ b.size ∧ Session.room ⟨s, []⟩ e.1 = b.size - 16 ∧ 16 ≤ b.size := by
  obtain ⟨x, b, place, stands, used, enough⟩ := owned
  simp only [mallocHeaderSize] at place enough
  obtain ⟨-, wide, -⟩ := heap.bounds stands
  have head : load s.mem x = b.size := congrArg Prod.fst (heap.tiles.tags stands).2.1
  refine ⟨x, b, place, stands, used, enough, ?_, wide⟩
  unfold Session.room
  rw [place]
  simp only [mallocHeaderSize, Nat.add_sub_cancel, head, Int.toNat_natCast]

theorem Sound.orderly {σ : Session} (sound : σ.Sound) : σ.Orderly := by
  rcases sound with ⟨-, none⟩ | ⟨bs, heap, owned, distinct⟩
  · constructor <;> simp [none]
  · refine ⟨?_, fun e mem => ?_, fun e mem => ?_⟩
    · refine (List.pairwise_map.mp distinct).imp_of_mem fun {e e'} mem mem' other => ?_
      obtain ⟨x, b, place, stands, -, -, room, wide⟩ := (owned e mem).room heap.toTiled
      obtain ⟨y, c, place', stands', -, -, room', wide'⟩ := (owned e' mem').room heap.toTiled
      have room : σ.room e.1 = b.size - 16 := room
      have room' : σ.room e'.1 = c.size - 16 := room'
      rcases stands.disjoint stands' with ⟨rfl, -⟩ | apart
      · exact absurd (place.trans place'.symm) other
      · omega
    · obtain ⟨x, b, place, stands, -, -, room, wide⟩ := (owned e mem).room heap.toTiled
      have room : σ.room e.1 = b.size - 16 := room
      have fills := heap.tiles.hi_eq
      have inside := stands.bounds
      omega
    · obtain ⟨x, b, place, stands, -, enough, room, wide⟩ := (owned e mem).room heap.toTiled
      have room : σ.room e.1 = b.size - 16 := room
      omega

/-- A block in use that keeps its place. -/
theorem Owned.kept {s' : Process} {bs' : List Block} (owned : Owned s bs e) (start : s'.heapStart = s.heapStart)
    (kept : ∀ x b, At s.heapStart bs x b → ¬ b.Free → e.1 = x + mallocHeaderSize → At s.heapStart bs' x b) : Owned s' bs' e := by
  obtain ⟨x, b, place, stands, used, enough⟩ := owned
  exact ⟨x, b, place, start ▸ kept x b stands used place, used, enough⟩

/-- The bytes of a live payload are among those of its block. -/
theorem Owned.sameOn {m : Memory} {σ : Session} (owned : Owned σ.process bs e) (heap : σ.process.Tiled bs)
    (same : ∀ x b, At σ.process.heapStart bs x b → ¬ b.Free → e.1 = x + mallocHeaderSize →
      SameOn σ.process.mem m x (x + b.size)) : SameOn σ.process.mem m e.1 (e.1 + σ.room e.1) := by
  obtain ⟨x, b, place, stands, used, -, room, wide⟩ := owned.room heap
  have room : σ.room e.1 = b.size - 16 := room
  exact (same x b stands used place).mono (by omega) (by omega)

end

variable {σ : Session}

theorem step_malloc {numBytes : Int} {p : Nat} {s : Process} (done : σ.process.malloc numBytes = .ok (p, s)) :
    σ.step (.malloc numBytes) = .ok ⟨s, if p = ptr (-1) then σ.live else (p, numBytes) :: σ.live⟩ := by
  simp only [step, done]
  rfl

theorem step_free {p : Nat} {r : Int} {s : Process} (done : σ.process.free p = .ok (r, s)) :
    σ.step (.free p) = .ok ⟨s, σ.live.filter fun entry => entry.1 ≠ p⟩ := by
  simp only [step, done]
  rfl

/-- `malloc` adds a block in use. -/
theorem Sound.malloc {numBytes : Int} (sound : σ.Sound) (permits : σ.Permits (.malloc numBytes))
    (minds : σ.Minds (.malloc numBytes)) : ∃ σ', σ.step (.malloc numBytes) = .ok σ' ∧ σ'.Sound ∧
      ∀ e ∈ σ.live, e ∈ σ'.live → SameOn σ.process.mem σ'.process.mem e.1 (e.1 + σ.room e.1) := by
  by_cases positive : 0 < numBytes
  · lift numBytes to Nat using by omega
    obtain ⟨lo, bs, opens, owned, distinct⟩ : ∃ lo bs, σ.process.Opens lo bs ∧
        (∀ e ∈ σ.live, σ.process.heapStart = lo ∧ σ.process.Tiled bs ∧ Owned σ.process bs e) ∧
        (σ.live.map Prod.fst).Nodup := by
      rcases sound with ⟨null, none⟩ | ⟨bs, heap, owned, distinct⟩
      · exact ⟨_, _, .first null, by simp [none], by simp [none]⟩
      · exact ⟨_, bs, .heap heap, fun e mem => ⟨rfl, heap.toTiled, owned e mem⟩, distinct⟩
    obtain ⟨small, serves⟩ := opens.serves (by exact_mod_cast positive) minds permits.2
    obtain ⟨p, s', bs', done, start, heap', chosen, ⟨c, stands, used, enough⟩, keeps⟩ :=
      opens.malloc (by exact_mod_cast positive) small serves
    obtain ⟨x, rfl, fresh⟩ := opens.chosen chosen
    rw [Nat.add_sub_cancel] at stands
    obtain ⟨-, wide, high⟩ := heap'.bounds (start ▸ stands)
    have small' := s'.brk_le
    have pointer : ¬ x + mallocHeaderSize = ptr (-1) := by
      rw [Process.ptr_neg_one]
      simp only [mallocHeaderSize]
      omega
    refine ⟨⟨s', (x + mallocHeaderSize, (numBytes : Int)) :: σ.live⟩, ?_, .inr ⟨bs', heap', ?_, ?_⟩, fun e mem _ => ?_⟩
    · rw [step_malloc done, if_neg pointer]
    · intro e mem
      rcases List.mem_cons.mp mem with rfl | mem
      · exact ⟨x, c, rfl, start ▸ stands, used, show (numBytes : Int) + (2 * 8 : Nat) ≤ c.size by exact_mod_cast enough⟩
      · obtain ⟨same, -, old⟩ := owned e mem
        exact old.kept (start.trans same.symm) fun y b stands used _ => same ▸ (keeps y b (same ▸ stands) used).1
    · refine List.nodup_cons.mpr ⟨fun mem => ?_, distinct⟩
      obtain ⟨e, mem, place⟩ := List.mem_map.mp mem
      obtain ⟨same, -, y, b, place', stands, busy, -⟩ := owned e mem
      obtain rfl : x = y := Nat.add_right_cancel (place.symm.trans place')
      exact busy (fresh b (same ▸ stands))
    · obtain ⟨same, tiled, old⟩ := owned e mem
      exact old.sameOn tiled fun y b stands used _ => (keeps y b (same ▸ stands) used).2
  · refine ⟨σ, ?_, sound, fun e _ _ => .refl _ _ _⟩
    have done : σ.process.malloc numBytes = .ok (ptr (-1), σ.process) := by
      unfold Process.malloc
      rw [if_pos (by omega)]
      rfl
    rw [step_malloc done, if_pos rfl]

/-- `free` takes a block out of use. -/
theorem Sound.free {p : Nat} (sound : σ.Sound) (permits : σ.Permits (.free p)) (minds : σ.Minds (.free p)) :
    ∃ σ', σ.step (.free p) = .ok σ' ∧ σ'.Sound ∧
      ∀ e ∈ σ.live, e ∈ σ'.live → SameOn σ.process.mem σ'.process.mem e.1 (e.1 + σ.room e.1) := by
  obtain ⟨e, mem, rfl⟩ := List.mem_map.mp permits
  rcases sound with ⟨-, none⟩ | ⟨bs, heap, owned, distinct⟩
  · simp [none] at mem
  · obtain ⟨x, b, place, stands, used, -⟩ := owned e mem
    obtain ⟨before, after, rfl, rfl⟩ := stands.split
    obtain ⟨s', bs', done, start, heap', -, kept⟩ := heap.releases used (minds before b after heap place)
    have other {e' : Nat × Int} {y : Nat} (mem' : e' ∈ σ.live.filter fun entry => entry.1 ≠ e.1)
        (place' : e'.1 = y + mallocHeaderSize) : y ≠ σ.process.heapStart + total before := by
      rintro rfl
      have different := (List.mem_filter.mp mem').2
      exact absurd (place'.trans place.symm) (by simpa using different)
    refine ⟨⟨s', σ.live.filter fun entry => entry.1 ≠ e.1⟩, ?_, .inr ⟨bs', heap', fun e' mem' => ?_, ?_⟩, fun e' mem' live => ?_⟩
    · rw [step_free (by rw [place]; exact done)]
    · refine (owned e' (List.mem_filter.mp mem').1).kept start fun y c stands used place' => ?_
      exact (kept y c stands used (other mem' place')).1
    · exact distinct.sublist (List.filter_sublist.map _)
    · refine (owned e' mem').sameOn heap.toTiled fun y c stands used place' => ?_
      exact (kept y c stands used (other live place')).2

/-- A write stays in its payload. -/
theorem Sound.write {x : Nat} {v : UInt8} (sound : σ.Sound) (permits : σ.Permits (.write x v)) :
    ∃ σ', σ.step (.write x v) = .ok σ' ∧ σ'.Sound := by
  obtain ⟨p, mem, above, below⟩ := permits
  obtain ⟨e, live, rfl⟩ := List.mem_map.mp mem
  rcases sound with ⟨-, none⟩ | ⟨bs, heap, owned, distinct⟩
  · simp [none] at live
  · obtain ⟨y, b, place, stands, -, -, room, wide⟩ := (owned e live).room heap.toTiled
    have room : σ.room e.1 = b.size - 16 := room
    obtain ⟨before, after, rfl, rfl⟩ := stands.split
    refine ⟨_, rfl, .inr ⟨_, heap.poke rfl fun z outside => if_neg ?_, fun e' mem' => ?_, distinct⟩⟩
    · simp only [mallocHeaderSize] at outside
      omega
    · exact (owned e' mem').kept rfl fun _ _ stands _ _ => stands

/-- What a step keeps. -/
theorem Sound.step {a : Act} (sound : σ.Sound) (permits : σ.Permits a) (minds : σ.Minds a) :
    ∃ σ', σ.step a = .ok σ' ∧ σ'.Sound ∧ σ.Untouched a σ' := by
  cases a with
  | malloc numBytes => exact sound.malloc permits minds
  | free p => exact sound.free permits minds
  | write x v =>
    obtain ⟨σ', done, sound'⟩ := sound.write permits
    exact ⟨σ', done, sound', trivial⟩

/-- What a run keeps. -/
theorem Sound.run {acts : List Act} (sound : σ.Sound) (meets : σ.Along (fun σ a => σ.Permits a ∧ σ.Minds a) acts) :
    ∃ σ', σ.run acts = .ok σ' ∧ σ'.Sound := by
  induction acts generalizing σ with
  | nil => exact ⟨σ, rfl, sound⟩
  | cons a acts ih =>
    obtain ⟨⟨permits, minds⟩, rest⟩ := meets
    obtain ⟨σ₁, first, sound₁, -⟩ := sound.step permits minds
    obtain ⟨σ', done, sound'⟩ := ih sound₁ (rest.of_ok first)
    refine ⟨σ', ?_, sound'⟩
    unfold Session.run
    rw [List.foldlM_cons, first]
    exact done

theorem Along.append {permits : Session → Act → Prop} {acts acts' : List Act} (along : σ.Along permits (acts ++ acts'))
    {σ' : Session} (done : σ.run acts = .ok σ') : σ'.Along permits acts' := by
  induction acts generalizing σ with
  | nil =>
    cases done
    exact along
  | cons a acts ih =>
    unfold Session.run at done
    rw [List.foldlM_cons] at done
    obtain ⟨σ₁, first, rest⟩ := bind_ok.mp done
    exact ih (along.2.of_ok first) rest

theorem Along.before {permits : Session → Act → Prop} {acts acts' : List Act} (along : σ.Along permits (acts ++ acts')) :
    σ.Along permits acts := by
  induction acts generalizing σ with
  | nil => trivial
  | cons a acts ih =>
    refine ⟨along.1, ?_⟩
    have rest := along.2
    cases first : σ.step a with
    | ok σ₁ => exact ih (rest.of_ok first)
    | error e => trivial

/-- The run gets as far as the step and through it; the payloads behind it are in order, and the
step has changed none that it had not to. -/
def Behaves (σ : Session) (acts : List Act) (a : Act) : Prop :=
  ∃ σ₁ σ₂, σ.run acts = .ok σ₁ ∧ σ₁.step a = .ok σ₂ ∧ σ₂.Orderly ∧ σ₁.Untouched a σ₂

/-- The allocations of a process stay in order as long as every size can be computed and every
trimmed block gets a footer. -/
theorem allocations_behave {acts : List Act} {a : Act} (fresh : σ.Fresh)
    (meets : σ.Along (fun σ a => σ.Permits a ∧ σ.Minds a) (acts ++ [a])) : σ.Behaves acts a := by
  have sound : σ.Sound := .inl fresh
  obtain ⟨σ₁, done, sound₁⟩ := sound.run meets.before
  obtain ⟨⟨permits, minds⟩, -⟩ := meets.append done
  obtain ⟨σ₂, next, sound₂, untouched⟩ := sound₁.step permits minds
  exact ⟨σ₁, σ₂, done, next, sound₂.orderly, untouched⟩

/-- A process that has not called `malloc`. -/
def opened : Session := ⟨Process.start true, []⟩

def firstBlock : Nat := heapBase + mallocHeaderSize

/-- The first block of a heap of one page is freed. -/
theorem minds_first (start : σ.process.heapStart = heapBase) (heap : σ.process.Heap [⟨116, 0⟩, ⟨3980, 1⟩]) :
    σ.Minds (.free firstBlock) := by
  intro before b after heap' place front last shape free pages
  obtain ⟨more, same, behind⟩ := heap.tiles.begins (by decide) heap'.tiles (Nat.le_refl _)
  have none : total more = 0 := by
    have fills := behind.hi_eq
    omega
  have few := behind.length_le
  have early : total before = 0 := by
    rw [start] at place
    unfold firstBlock at place
    omega
  cases before with
  | cons c before =>
    obtain ⟨wide, -⟩ := heap'.tiles.tags (.inl ⟨rfl, rfl⟩)
    rw [total_cons] at early
    simp only [mallocHeaderSize] at wide
    omega
  | nil =>
    cases more with
    | cons c more => simp [none] at few
    | nil =>
      cases same
      obtain ⟨rfl, only⟩ := List.append_inj' (show [] ++ [⟨4096, 1⟩] = front ++ [last] from shape) rfl
      cases List.singleton_inj.mp only
      exact .inl rfl

/-- One block is used, written and freed. -/
theorem allocations_behave_first : opened.Behaves [.malloc 100, .write (firstBlock + 99) 255] (.free firstBlock) := by
  have computed : Ensures (fun σ₁ => σ₁.Permits (.write (firstBlock + 99) 255) ∧
      Ensures (fun σ₂ => σ₂.Permits (.free firstBlock) ∧ σ₂.process.heapStart = heapBase ∧
        σ₂.process.heapEnd = σ₂.process.brk ∧ Tiles mallocHeaderSize (tagAt σ₂.process.mem) σ₂.process.heapStart
          [⟨116, 0⟩, ⟨3980, 1⟩] σ₂.process.heapEnd)
        (σ₁.step (.write (firstBlock + 99) 255))) (opened.step (.malloc 100)) := by decide +kernel
  refine allocations_behave ⟨rfl, rfl⟩ ⟨⟨by decide +kernel, show (100 : Int) + 16 ≤ 2147483647 by decide⟩, ?_⟩
  cases first : opened.step (.malloc 100) with
  | error e => trivial
  | ok σ₁ =>
    have computed := computed.of_ok first
    refine ⟨⟨computed.1, trivial⟩, ?_⟩
    cases second : σ₁.step (.write (firstBlock + 99) 255) with
    | error e => trivial
    | ok σ₂ =>
      obtain ⟨permits, start, brk, tiles⟩ := computed.2.of_ok second
      have heap : σ₂.process.Heap [⟨116, 0⟩, ⟨3980, 1⟩] := ⟨⟨start.ge, brk, tiles⟩, by decide⟩
      refine ⟨⟨permits, minds_first start heap⟩, ?_⟩
      cases σ₂.step (.free firstBlock) <;> trivial

/-- `free` of the last block behind a free one, and the next `free`. -/
def wears : List Act := [.malloc 12272, .malloc 4080, .malloc 4080, .free (firstBlock + 4096), .malloc 100,
  .free (firstBlock + 16384)]

/-- Every call of the run is permitted, and the last one faults. -/
theorem allocations_fault : opened.Fresh ∧ opened.Along Permits (wears ++ [.free firstBlock]) ∧
    ¬ opened.Behaves wears (.free firstBlock) := by
  have faults : (opened.run (wears ++ [.free firstBlock])).isOk = false := by decide +kernel
  refine ⟨⟨rfl, rfl⟩, by decide +kernel, ?_⟩
  rintro ⟨σ₁, σ₂, done, next, -⟩
  unfold run at faults done
  rw [List.foldlM_append, done, ok_bind, List.foldlM_cons, next] at faults
  contradiction

/-- A size that overflows: the free block is split behind the end of the heap. -/
example : opened.Along Permits [.malloc 0x7FFFFFF8] ∧ (opened.run [.malloc 0x7FFFFFF8]).isOk = false := by decide +kernel

end Session
end Zeos
