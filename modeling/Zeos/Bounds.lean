import Zeos.Ownership
import Zeos.Protection

/-! Which page numbers reach the tables. Nothing compares them with `TOTAL_PAGES`; what
keeps them below is that a heap counter never passes the end of the table, and that the
frames run out before a fork has windows behind it. -/
namespace Zeos
open Outcome

namespace Mm

variable {mm mm' : Mm} {d : Dir} {p f : Nat} {limit : Int}

/-- The computation reaches no page number outside a table. -/
abbrev Inside {α : Type} (x : Except MemFault α) : Prop := Fails (· ≠ .outside) x

/-- The code frames are used and no own page has one, and tables are empty from a limit on. -/
structure Tidy (limit : Int) (mm : Mm) : Prop where
  code : ∀ f ∈ codeFrames, mm.physMem f = .usedFrame
  own : ∀ d p, OwnPage p → (mm.pagusrTable d p).pbaseAddr ∉ codeFrames
  empty : ∀ d (p : Nat), limit ≤ p → mm.pagusrTable d p = .zero

theorem zero_notCode : PageTableEntry.zero.pbaseAddr ∉ codeFrames := by decide

namespace Tidy

theorem of_tables (tidy : mm.Tidy limit) (physMem : mm'.physMem = mm.physMem)
    (tables : mm'.pagusrTable = mm.pagusrTable) : mm'.Tidy limit := by
  refine ⟨?_, ?_, ?_⟩
  · rw [physMem]; exact tidy.code
  · rw [tables]; exact tidy.own
  · rw [tables]; exact tidy.empty

theorem take (tidy : mm.Tidy limit) (got : mm.allocFrame = (some f, mm')) : mm'.Tidy limit ∧ f ∉ codeFrames := by
  obtain ⟨_, free, rfl⟩ := allocFrame_some got
  refine ⟨⟨fun g code => ?_, tidy.own, tidy.empty⟩, fun code => ?_⟩
  · simp only [setFrame, Function.update_apply]
    split
    · rfl
    · exact tidy.code g code
  · rw [tidy.code f code] at free
    cases free

theorem freeFrame (tidy : mm.Tidy limit) (other : f ∉ codeFrames) : (mm.freeFrame f).Tidy limit := by
  unfold Mm.freeFrame
  split
  · refine ⟨fun g code => ?_, tidy.own, tidy.empty⟩
    have different : g ≠ f := fun same => other (same ▸ code)
    simp [setFrame, different, tidy.code g code]
  · exact tidy

theorem setEntry {e : PageTableEntry} (tidy : mm.Tidy limit) (own : OwnPage p → e.pbaseAddr ∉ codeFrames)
    (empty : limit ≤ p → e = .zero) : (mm.setEntry d p e).Tidy limit := by
  refine ⟨tidy.code, fun d' p' page => ?_, fun d' p' high => ?_⟩ <;> rw [setEntry_table] <;> split
  · rename_i here
    exact own (here.2 ▸ page)
  · exact tidy.own d' p' page
  · rename_i here
    exact empty (here.2 ▸ high)
  · exact tidy.empty d' p' high

theorem setSsPag {i : Int} (tidy : mm.Tidy limit) (other : f ∉ codeFrames) (below : i < limit)
    (done : mm.setSsPag d i f = .ok mm') : mm'.Tidy limit := by
  obtain ⟨p, rfl, _, rfl⟩ := setSsPag_ok.mp done
  exact tidy.setEntry (fun _ => other) fun high => absurd below (not_lt.mpr high)

theorem delSsPag {i : Int} (tidy : mm.Tidy limit) (done : mm.delSsPag d i = .ok mm') : mm'.Tidy limit := by
  obtain ⟨p, rfl, _, rfl⟩ := delSsPag_ok.mp done
  exact tidy.setEntry (fun _ => zero_notCode) fun _ => rfl

theorem releasePages {range : List Int} (tidy : mm.Tidy limit) (own : ∀ p : Nat, (p : Int) ∈ range → OwnPage p)
    (done : mm.releasePages d range = .ok mm') : mm'.Tidy limit := by
  refine foldlM_keeps (Tidy limit) (fun i mem m m' tidy round => ?_) done tidy
  obtain ⟨p, rfl, _, rfl⟩ := releaseRound_ok.mp round
  exact (tidy.freeFrame (tidy.own d p (own p mem))).setEntry (fun _ => zero_notCode) fun _ => rfl

theorem freeAll {frames : List Nat} (tidy : mm.Tidy limit) (others : ∀ f ∈ frames, f ∉ codeFrames) :
    (frames.foldl (fun mm frame => mm.freeFrame frame) mm).Tidy limit := by
  induction frames generalizing mm with
  | nil => exact tidy
  | cons f frames ih =>
    exact ih (tidy.freeFrame (others f (List.mem_cons_self ..))) fun g mem => others g (List.mem_cons_of_mem _ mem)

theorem allocFrames {n : Nat} {frames : List Nat} {got : Option (List Nat)} (tidy : mm.Tidy limit)
    (others : ∀ f ∈ frames, f ∉ codeFrames) (done : Mm.allocFrames n frames mm = (got, mm')) :
    mm'.Tidy limit ∧ ∀ all, got = some all → ∀ f ∈ all, f ∉ codeFrames := by
  induction n generalizing frames mm with
  | zero =>
    cases done
    exact ⟨tidy, fun _ same => Option.some.inj same ▸ others⟩
  | succ n ih =>
    unfold Mm.allocFrames at done
    split at done <;> rename_i taken
    · obtain ⟨tidy, other⟩ := tidy.take taken
      refine ih tidy (fun f mem => ?_) done
      rcases List.mem_append.mp mem with mem | mem
      · exact others f mem
      · rw [List.mem_singleton.mp mem]
        exact other
    · cases done
      rw [(allocFrame_none taken).1]
      exact ⟨tidy.freeAll others, by simp⟩

theorem getD_frames {frames : List Nat} (others : ∀ f ∈ frames, f ∉ codeFrames) (j : Nat) :
    frames.getD j 0 ∉ codeFrames := by
  rw [List.getD_eq_getElem?_getD]
  cases got : frames[j]? with
  | none => exact zero_notCode
  | some f => exact others f (List.mem_of_getElem? got)

theorem mapChild {fillTP pareTP : Dir} {frames : List Nat} {heap : Int} (tidy : mm.Tidy limit)
    (others : ∀ f ∈ frames, f ∉ codeFrames) (low : pagLogInitHeap ≤ limit) (fits : pagLogInitHeap + heap ≤ limit)
    (done : mm.mapChild fillTP pareTP frames heap = .ok mm') : mm'.Tidy limit := by
  have start : pagLogInitData = 256 ∧ pagLogInitCode = 276 := ⟨rfl, rfl⟩
  have size : pagLogInitHeap = 284 ∧ numPagData = 20 := ⟨rfl, rfl⟩
  have copied {range : List Int} (shared : ∀ i ∈ range, i < pagLogInitHeap ∧ ∀ p : Nat, i = p → ¬ OwnPage p)
      {m m' : Mm} (tidy : m.Tidy limit)
      (done : range.foldlM (fun mm i => do mm.setSsPag fillTP i (← mm.getFrame pareTP i)) m = .ok m') :
      m'.Tidy limit := by
    refine foldlM_keeps (Tidy limit) (fun i mem m m' tidy round => ?_) done tidy
    obtain ⟨frame, _, round⟩ := bind_ok.mp round
    obtain ⟨p, rfl, _, rfl⟩ := setSsPag_ok.mp round
    obtain ⟨below, shared⟩ := shared _ mem
    exact tidy.setEntry (fun own => absurd own (shared p rfl)) fun high => by omega
  have put {js : List Nat} {base : Nat} {frame : Nat → Nat} (frames : ∀ j, frame j ∉ codeFrames)
      (below : ∀ j ∈ js, (base + j : Int) < limit) {m m' : Mm} (tidy : m.Tidy limit)
      (done : js.foldlM (fun mm (j : Nat) => mm.setSsPag fillTP (base + (j : Int)) (frame j)) m = .ok m') :
      m'.Tidy limit :=
    foldlM_keeps (Tidy limit) (fun j mem m m' tidy round => tidy.setSsPag (frames j) (below j mem) round) done tidy
  have kernel (i : Int) (mem : i ∈ pages 0 numPagKernel) : i < pagLogInitHeap ∧ ∀ p : Nat, i = p → ¬ OwnPage p := by
    have := mem_pages.mp mem
    simp only [numPagKernel, OwnPage, start, size] at *
    exact ⟨by omega, by omega⟩
  have code (i : Int) (mem : i ∈ pages pagLogInitCode (pagLogInitCode + numPagCode)) :
      i < pagLogInitHeap ∧ ∀ p : Nat, i = p → ¬ OwnPage p := by
    have := mem_pages.mp mem
    simp only [numPagCode, OwnPage, start, size] at *
    exact ⟨by omega, by omega⟩
  have data (j : Nat) (mem : j ∈ List.range numPagData) : (pagLogInitData + j : Int) < limit := by
    have := List.mem_range.mp mem
    simp only [start, size] at *
    omega
  have heap (j : Nat) (mem : j ∈ List.range heap.toNat) : (pagLogInitHeap + j : Int) < limit := by
    have := List.mem_range.mp mem
    omega
  unfold Mm.mapChild at done
  obtain ⟨withKernel, first, done⟩ := bind_ok.mp done
  obtain ⟨withCode, second, done⟩ := bind_ok.mp done
  obtain ⟨withData, third, done⟩ := bind_ok.mp done
  have tidy := put (getD_frames others) data (copied code (copied kernel tidy first) second) third
  exact put (fun j => getD_frames others _) heap tidy done

theorem copyPages {fillTP pareTP cr3 : Dir} {heap : Int} (tidy : mm.Tidy limit)
    (done : mm.copyPages fillTP pareTP cr3 heap = .ok mm') : mm'.Tidy limit := by
  have round {offset : Int} (i : Int) (m m' : Mm) (tidy : m.Tidy limit)
      (done : copyThrough fillTP pareTP cr3 offset m i = .ok m') : m'.Tidy limit := by
    unfold copyThrough at done
    obtain ⟨frame, _, done⟩ := bind_ok.mp done
    obtain ⟨mapped, first, done⟩ := bind_ok.mp done
    obtain ⟨copied, copy, last⟩ := bind_ok.mp done
    obtain ⟨p, index, _, rfl⟩ := setSsPag_ok.mp first
    obtain ⟨q, index', _, rfl⟩ := delSsPag_ok.mp last
    have tables := copyPage_tables copy
    cases Int.ofNat.inj (index.symm.trans index')
    refine (tidy.setEntry (d := pareTP) (p := p) (e := .zero) (fun _ => zero_notCode) fun _ => rfl).of_tables
      tables.physMem ?_
    funext d' p'
    rw [setEntry_table, setEntry_table, tables.pagusrTable, setEntry_table]
    split <;> rfl
  unfold Mm.copyPages at done
  obtain ⟨data, first, done⟩ := bind_ok.mp done
  exact foldlM_keeps (Tidy limit) (fun i _ => round i) done (foldlM_keeps (Tidy limit) (fun i _ => round i) first tidy)

/-- A heap that has room for its request below the limit grows below it. -/
theorem growHeap {n : Nat} {heap : Int} {frames : List Nat} {grown : Bool} (tidy : mm.Tidy limit)
    (others : ∀ f ∈ frames, f ∉ codeFrames)
    (fits : pagLogInitHeap + heap + frames.length + (min n mm.available : Nat) ≤ limit)
    (done : growHeap d heap n frames mm = .ok (grown, mm')) : mm'.Tidy limit := by
  induction n generalizing frames mm with
  | zero => cases done; exact tidy
  | succ n ih =>
    unfold Mm.growHeap at done
    split at done <;> rename_i got
    · rw [(allocFrame_none got).1] at done
      obtain ⟨undone, undo, done⟩ := bind_ok.mp done
      cases done
      refine foldlM_keeps (Tidy limit) (fun j _ m m' tidy round => ?_) undo tidy
      exact (tidy.freeFrame (getD_frames others j)).delSsPag round
    · obtain ⟨mapped, set, done⟩ := bind_ok.mp done
      obtain ⟨tidy, other⟩ := tidy.take got
      have fewer := available_take got
      obtain ⟨p, index, _, rfl⟩ := setSsPag_ok.mp set
      have tidy := tidy.setSsPag other (by omega) set
      refine ih tidy (fun f mem => ?_) ?_ done
      · rcases List.mem_append.mp mem with mem | mem
        · exact others f mem
        · rw [List.mem_singleton.mp mem]
          exact other
      · have same (e : PageTableEntry) (m : Mm) : (m.setEntry d p e).available = m.available := rfl
        rw [same, List.length_append, List.length_singleton]
        omega

end Tidy

section Inside

variable {i : Int} {expected : MemFault → Prop}

theorem pageIndex_inside (low : 0 ≤ i) (high : i < totalPages) : Fails expected (pageIndex i) := by
  rw [pageIndex, if_pos ⟨low, high⟩]
  exact .ok _

theorem pageIndex_outside (out : ¬ (0 ≤ i ∧ i < totalPages)) : pageIndex i = .error .outside := by
  rw [pageIndex, if_neg out]

theorem setSsPag_inside (low : 0 ≤ i) (high : i < totalPages) : Fails expected (mm.setSsPag d i f) :=
  .bind (pageIndex_inside low high) fun _ _ => .ok _

theorem delSsPag_inside (low : 0 ≤ i) (high : i < totalPages) : Fails expected (mm.delSsPag d i) :=
  .bind (pageIndex_inside low high) fun _ _ => .ok _

theorem getFrame_inside (low : 0 ≤ i) (high : i < totalPages) : Fails expected (mm.getFrame d i) :=
  .bind (pageIndex_inside low high) fun _ _ => .ok _

theorem releasePages_inside {range : List Int} (within : ∀ i ∈ range, 0 ≤ i ∧ i < totalPages) :
    Fails expected (mm.releasePages d range) :=
  .foldlM (fun i mem _ => .bind (getFrame_inside (within i mem).1 (within i mem).2) fun _ _ =>
    delSsPag_inside (within i mem).1 (within i mem).2) mm

theorem pages_cons {low high : Int} (some : low < high) : ∃ rest, pages low high = low :: rest := by
  obtain ⟨n, length⟩ : ∃ n, (high - low).toNat = n + 1 := ⟨(high - low).toNat - 1, by omega⟩
  rw [pages, length, List.range_succ_eq_map, List.map_cons, Int.natCast_zero, Int.add_zero]
  exact ⟨_, rfl⟩

theorem releasePages_outside {range : List Int} (out : ¬ (0 ≤ i ∧ i < totalPages)) :
    mm.releasePages d (i :: range) = .error .outside := by
  rw [releasePages, List.foldlM_cons, getFrame, pageIndex_outside out]
  rfl

theorem mapChild_inside {fillTP pareTP : Dir} {frames : List Nat} {heap : Int} (fits : pagLogInitHeap + heap ≤ totalPages) :
    Fails expected (mm.mapChild fillTP pareTP frames heap) := by
  have start : pagLogInitData = 256 ∧ pagLogInitCode = 276 := ⟨rfl, rfl⟩
  have size : pagLogInitHeap = 284 ∧ numPagData = 20 := ⟨rfl, rfl⟩
  have limits : numPagKernel = 256 ∧ numPagCode = 8 ∧ totalPages = 1024 := ⟨rfl, rfl, rfl⟩
  have copied {range : List Int} (within : ∀ i ∈ range, 0 ≤ i ∧ i < totalPages) (m : Mm) :
      Fails expected (range.foldlM (fun mm i => do mm.setSsPag fillTP i (← mm.getFrame pareTP i)) m) :=
    .foldlM (fun i mem _ => .bind (getFrame_inside (within i mem).1 (within i mem).2) fun _ _ =>
      setSsPag_inside (within i mem).1 (within i mem).2) m
  have put {js : List Nat} {base : Nat} {frame : Nat → Nat} (below : ∀ j ∈ js, (base + j : Int) < totalPages) (m : Mm) :
      Fails expected (js.foldlM (fun mm (j : Nat) => mm.setSsPag fillTP (base + (j : Int)) (frame j)) m) :=
    .foldlM (fun j mem _ => setSsPag_inside (by omega) (below j mem)) m
  refine .bind (copied (fun i mem => ?_) mm) fun m _ => .bind (copied (fun i mem => ?_) m) fun m _ =>
    .bind (put (fun j mem => ?_) m) fun m _ => put (fun j mem => ?_) m
  · have := mem_pages.mp mem
    simp only [limits] at *
    omega
  · have := mem_pages.mp mem
    simp only [limits, start, size] at *
    omega
  · have := List.mem_range.mp mem
    simp only [limits, start, size] at *
    omega
  · have := List.mem_range.mp mem
    omega

/-- The last window of `sys_fork` is twice the heap behind the last data page. -/
theorem copyPages_inside {fillTP pareTP cr3 : Dir} {heap : Int} (low : 0 ≤ heap)
    (fits : pagLogInitHeap + numPagData + 2 * heap ≤ totalPages) : Inside (mm.copyPages fillTP pareTP cr3 heap) := by
  have start : pagLogInitData = 256 ∧ pagLogInitCode = 276 := ⟨rfl, rfl⟩
  have size : pagLogInitHeap = 284 ∧ numPagData = 20 ∧ numPagCode = 8 := ⟨rfl, rfl, rfl⟩
  have round {offset i : Int} (low : 0 ≤ i) (up : 0 ≤ offset) (high : i + offset < totalPages) (m : Mm) :
      Inside (copyThrough fillTP pareTP cr3 offset m i) := by
    refine .bind (getFrame_inside low (by omega)) fun _ _ => .bind (setSsPag_inside (by omega) high) fun _ _ =>
      .bind ?_ fun _ _ => delSsPag_inside (by omega) high
    unfold copyPage
    split
    · exact .ok _
    · exact .error nofun
  refine .bind (.foldlM (fun i mem m => round ?_ ?_ ?_ m) mm) fun m _ => .foldlM (fun i mem m => round ?_ ?_ ?_ m) m <;>
    have := mem_pages.mp mem <;> simp only [start, size] at * <;> omega

/-- A heap grows inside its table exactly when there is room for the frames it obtains. -/
theorem growHeap_inside_iff {n : Nat} {heap : Int} {frames : List Nat} (low : 0 ≤ pagLogInitHeap + heap)
    (fits : pagLogInitHeap + heap + frames.length ≤ totalPages) :
    Inside (mm.growHeap d heap n frames) ↔
      pagLogInitHeap + heap + frames.length + (min n mm.available : Nat) ≤ totalPages := by
  induction n generalizing frames mm with
  | zero =>
    refine iff_of_true (.ok _) ?_
    rw [Nat.zero_min]
    omega
  | succ n ih =>
    unfold growHeap
    split <;> rename_i got
    · have none := available_none got
      rw [none, Nat.min_zero]
      refine iff_of_true (.bind (.foldlM (fun j mem m => ?_) _) fun _ _ => .ok _) (by omega)
      have := List.mem_range.mp mem
      exact delSsPag_inside (by omega) (by omega)
    · have fewer := available_take got
      by_cases room : pagLogInitHeap + heap + (frames.length : Int) < totalPages
      · obtain ⟨p, index⟩ := Int.eq_ofNat_of_zero_le (show 0 ≤ pagLogInitHeap + heap + (frames.length : Int) by omega)
        rename_i frame taken
        have set : taken.setSsPag d (pagLogInitHeap + heap + (frames.length : Int)) frame =
            .ok (taken.setEntry d p ⟨frame, true, true, true⟩) := setSsPag_ok.mpr ⟨p, index, by omega, rfl⟩
        have same (e : PageTableEntry) : (taken.setEntry d p e).available = taken.available := rfl
        rw [set, ok_bind, ih (by rw [List.length_append, List.length_singleton]; omega), same, List.length_append,
          List.length_singleton]
        omega
      · refine iff_of_false (fun inside => ?_) (by omega)
        rw [setSsPag, pageIndex_outside (by omega)] at inside
        exact inside .outside rfl rfl

end Inside
end Mm

namespace Core

variable {c c' core : Core} {fill : Task} {limit : Int} {dir zone : Dir}

/-- The heap counters stay below the limit that the tables keep. -/
structure Below (limit : Int) (c : Core) : Prop where
  tidy : c.mm.Tidy limit
  zones : ∀ z, 0 ≤ c.mm.heapZones z ∧ pagLogInitHeap + c.mm.heapZones z ≤ limit
  heap : ∀ t, c.live t → t ≠ idleTask → (c.task t).myHeap.isSome

/-- A `sys_dyn_mem` has room for `frames`, and asks for no more pages than fit below the limit,
as far as there are frames for them. -/
def Within (limit : Int) (c : Core) : Event → Prop
  | .syscall (.dynMem numPags) => numPags ≠ -2147483648 ∧ numPags ≤ stackFrames ∧
      ∀ z, c.ct.myHeap = some z → 0 < numPags →
        pagLogInitHeap + c.mm.heapZones z + (min numPags.toNat c.mm.available : Nat) ≤ limit
  | _ => True

instance (limit : Int) (c : Core) (e : Event) : Decidable (c.Within limit e) := by
  unfold Within
  apply e.decidable

/-- The steps that change page tables. -/
def Maps (c : Core) : Event → Prop
  | .syscall .fork | .syscall .exit | .syscall (.dynMem _) => True
  | .resume => ∃ i semid j, c.ct.kEsp = .semDestroy i semid (.exit j)
  | _ => False

namespace Below

theorem zones_of (below : c.Below limit) (zones : c'.mm.heapZones = c.mm.heapZones) :
    ∀ z, 0 ≤ c'.mm.heapZones z ∧ pagLogInitHeap + c'.mm.heapZones z ≤ limit := by
  rw [zones]
  exact below.zones

theorem low (below : c.Below limit) : pagLogInitHeap ≤ limit := by
  obtain ⟨low, high⟩ := below.zones rootDir
  omega

theorem sameSpace (below : c.Below limit) (space : c.SameSpace c') : c'.Below limit := by
  refine ⟨below.tidy.of_tables space.tables.physMem space.tables.pagusrTable, below.zones_of space.tables.heapZones,
    fun t live other => ?_⟩
  rw [space.live] at live
  rw [space.myHeap t live]
  exact below.heap t live other

theorem forkTables (below : c.Below limit) (pos : Dir) :
    (c.forkTables pos).Tidy limit ∧ ∀ z, 0 ≤ (c.forkTables pos).heapZones z ∧
      pagLogInitHeap + (c.forkTables pos).heapZones z ≤ limit := by
  obtain ⟨tables, physMem, zones⟩ := c.forkTables_pages pos
  refine ⟨below.tidy.of_tables physMem tables, fun z => ?_⟩
  rw [zones, Function.update_apply]
  split
  · exact ⟨le_rfl, by simpa using below.low⟩
  · exact below.zones z

/-- The memory part of a fork, and the PCB it leaves to the child. -/
theorem forked {complete : Bool} (below : c.Below limit) (dead : c.live fill = false)
    (forked : c.Forked fill complete core) : core.Below limit ∧ core.live = c.live ∧ (core.task fill).myHeap.isSome := by
  have elders (t : Task) (live : c.live t) : t ≠ fill := fun same => by simp [same, dead] at live
  cases forked with
  | out dir heap none =>
    rename_i pos zone mm
    obtain ⟨tidy, zones⟩ := below.forkTables pos
    obtain ⟨_, counts⟩ := Mm.allocFrames_table none
    refine ⟨⟨(tidy.allocFrames (by simp) none).1, ?_, fun t live other => ?_⟩, rfl, ?_⟩
    · show ∀ z, 0 ≤ mm.heapZones z ∧ _
      rw [counts.heapZones]
      exact zones
    · simpa [childOf, elders t live] using below.heap t live other
    · simp [childOf, heap]
  | done dir heap parent some map copy =>
    rename_i pos zone pare frames taken mapped mm
    obtain ⟨tidy, zones⟩ := below.forkTables pos
    obtain ⟨_, counts⟩ := Mm.allocFrames_table some
    obtain ⟨tidy, others⟩ := tidy.allocFrames (by simp) some
    have tidy := (tidy.mapChild (others frames rfl) below.low (zones zone).2 map).copyPages copy
    have counts := counts.trans ((Mm.mapChild_counts map).trans (Mm.copyPages_counts copy))
    refine ⟨⟨tidy, ?_, fun t live other => ?_⟩, rfl, ?_⟩
    · show ∀ z, 0 ≤ mm.heapZones z ∧ _
      rw [counts.heapZones]
      exact zones
    · simpa [childOf, elders t live] using below.heap t live other
    · simp [childOf, heap]

theorem named (below : core.Below limit) (heap : (core.task fill).myHeap.isSome) : (core.nameChild fill).Below limit := by
  refine ⟨below.tidy, below.zones, fun t live other => ?_⟩
  by_cases same : t = fill
  · subst same
    simpa [nameChild] using heap
  · have live : core.live t := by simpa [nameChild, same] using live
    simpa [nameChild, same] using below.heap t live other

theorem exited (below : c.Below limit) (exited : c.Exited core) : core.Below limit := by
  have start : pagLogInitData = 256 ∧ pagLogInitCode = 276 := ⟨rfl, rfl⟩
  have size : pagLogInitHeap = 284 ∧ numPagData = 20 := ⟨rfl, rfl⟩
  cases exited with
  | shared own more => exact ⟨below.tidy.of_tables rfl rfl, below.zones, below.heap⟩
  | last own heap last first second =>
    rename_i dir zone data mm
    obtain ⟨counts₁, _⟩ := Mm.releasePages_table first
    obtain ⟨counts₂, _⟩ := Mm.releasePages_table second
    have given : (c.mm.subDirRef dir).2.Tidy limit := below.tidy.of_tables rfl rfl
    have ownData (p : Nat) (mem : (p : Int) ∈ Mm.pages pagLogInitData (pagLogInitData + numPagData)) : OwnPage p := by
      have := Mm.mem_pages.mp mem
      simp only [OwnPage, start, size] at *
      omega
    exact ⟨(given.releasePages ownData first).releasePages
      (fun p mem => ownPage_heap (by have := Mm.mem_pages.mp mem; omega)) second,
      below.zones_of (counts₂.heapZones.trans counts₁.heapZones), below.heap⟩

theorem setHeapZone {mm : Mm} {n : Int} (tidy : mm.Tidy limit) (zones : mm.heapZones = c.mm.heapZones) (below : c.Below limit)
    (range : 0 ≤ n ∧ pagLogInitHeap + n ≤ limit) (z : Dir) (cr3 : Dir) :
    ({ c with mm := mm.setHeapZone z n, cr3 } : Core).Below limit := by
  refine ⟨tidy.of_tables rfl rfl, fun z' => ?_, below.heap⟩
  simp only [Mm.setHeapZone, Function.update_apply, zones]
  split
  · exact range
  · exact below.zones z'

theorem resized {numPags : Int} (below : c.Below limit) (small : limit ≤ totalPages) (int : IsInt numPags)
    (within : c.Within limit (.syscall (.dynMem numPags))) (resized : c.Resized numPags core) : core.Below limit := by
  have returned {middle : Core} {v : Option Int} (kept : middle.Below limit) : (middle.sysReturn v).Below limit :=
    kept.sameSpace (sysReturn_space _ _)
  cases resized with
  | refused => exact returned below
  | grown heap own positive grow =>
    rename_i zone dir mm v done
    obtain ⟨low, high⟩ := below.zones zone
    have fits := within.2.2 zone heap positive
    have tidy := below.tidy.growHeap (by simp) (by simpa using fits) grow
    have zones : mm.heapZones = c.mm.heapZones := (Mm.growHeap_only grow).heapZones
    cases done with
    | false => exact returned ⟨tidy, below.zones_of zones, below.heap⟩
    | true =>
      have enough := (Mm.growHeap_grown grow).mp rfl
      rw [Nat.min_eq_left enough] at fits
      exact returned (setHeapZone tidy zones below (by omega) zone c.cr3)
  | shrunk heap own negative enough release =>
    rename_i zone dir mm v
    obtain ⟨low, high⟩ := below.zones zone
    obtain ⟨negated, start⟩ := Mm.shrink_exact int negative low (by omega) release
    rw [start] at release
    rw [negated] at enough ⊢
    have tidy := below.tidy.releasePages (fun p mem => ownPage_heap (by have := Mm.mem_pages.mp mem; omega)) release
    exact returned (setHeapZone tidy (Mm.releasePages_table release).1.heapZones below (by omega) zone dir)

theorem step {e : Event} (below : c.Below limit) (small : limit ≤ totalPages) (alive : c.live c.current)
    (within : c.Within limit e) (memory : c.MemoryStep e c') : c'.Below limit := by
  have other {fill : Task} (dead : c.live fill = false) : fill ≠ c.current := fun same => by
    simp [same, alive] at dead
  cases memory with
  | same same => exact below.sameSpace same
  | forked dead done child =>
    obtain ⟨kept, _, heap⟩ := below.forked dead (forkMemory_forked (other dead) done)
    exact (kept.named heap).sameSpace child
  | unforked dead done back => exact (below.forked dead (forkMemory_forked (other dead) done)).1.sameSpace back
  | thread acts dead done child =>
    rename_i fill _
    obtain ⟨dir, mm, own, same, rfl⟩ := threadMemory_ok done
    have given : (c.mm.addDirRef dir).Tidy limit := below.tidy.of_tables rfl rfl
    have kept : ({ c.setTask fill fun _ => c.ct with mm } : Core).Below limit := by
      refine ⟨given.of_tables same.physMem same.pagusrTable, below.zones_of same.heapZones, fun t live task => ?_⟩
      have live : c.live t := live
      have elder : t ≠ fill := fun same => by simp [same, dead] at live
      simpa [elder] using below.heap t live task
    refine (kept.named ?_).sameSpace child
    simpa [ct] using below.heap _ alive acts
  | exit exits =>
    obtain ⟨_, core, done, _, left⟩ := exits
    have kept := below.exited (exitMemory_exited done)
    have gone : core.clearTask.Below limit := by
      refine ⟨kept.tidy, kept.zones, fun t live task => ?_⟩
      simp only [clearTask, setTask_live, Function.update_apply] at live
      split at live
      · contradiction
      · rename_i different
        simpa [clearTask, different] using kept.heap t live task
    exact gone.sameSpace left
  | dynMem int done same => exact (below.resized small int within (sysDynMem_resized done)).sameSpace same

/-- The code frames leave 376 frames of those `alloc_frame` looks at. -/
theorem available_le (below : c.Below limit) : c.mm.available ≤ 376 := by
  have split : searchFrames = codeFrames ++ (List.range 376).map fun k => 272 + 2 * k := by decide +kernel
  have used : codeFrames.countP (fun f => c.mm.physMem f = .freeFrame) = 0 :=
    List.countP_eq_zero.mpr fun f mem => by simp [below.tidy.code f mem]
  have rest := List.countP_le_length (p := fun f => decide (c.mm.physMem f = .freeFrame))
    (l := (List.range 376).map fun k => 272 + 2 * k)
  rw [List.length_map, List.length_range] at rest
  rw [Mm.available, split, List.countP_append, used]
  omega

theorem pointer_inside (d : Dir) : Mm.Inside (pointer (some d)) := .ok _

/-- A fork that obtains its frames has room for its windows. -/
theorem forkMemory_inside (below : c.Below totalPages) (other : fill ≠ c.current) (own : c.ct.dirPagesBaseAddr = some dir)
    (heap : c.ct.myHeap = some zone) : Mm.Inside ((c.setTask fill fun _ => c.ct).forkMemory fill) := by
  obtain ⟨pos, chosen⟩ : ∃ pos, c.mm.allocateDir.1.or c.ct.dirPagesBaseAddr = some pos := by
    rw [own]
    cases c.mm.allocateDir.1 <;> exact ⟨_, rfl⟩
  have own' : (c.task c.current).dirPagesBaseAddr = some dir := own
  have heap' : (c.task c.current).myHeap = some zone := heap
  obtain ⟨_, zones⟩ := below.forkTables pos
  obtain ⟨low, _⟩ := zones zone
  have few : (c.forkTables pos).available ≤ 376 := by
    have := below.available_le
    rwa [Mm.available, (c.forkTables_pages pos).2.1, ← Mm.available]
  have start : pagLogInitHeap = 284 ∧ numPagData = 20 ∧ totalPages = 1024 := ⟨rfl, rfl, rfl⟩
  unfold forkMemory
  simp only [setTask_mm, setTask_task, if_true, chosen]
  simp only [ct, setTask_current, setTask_task, Ne.symm other, if_false, own', heap', pointer, ok_bind]
  split
  · exact .ok _
  · rename_i frames taken some
    change Mm.allocFrames (numPagData + (c.forkTables pos).heapZones zone).toNat [] (c.forkTables pos) = _ at some
    have enough := (Mm.allocFrames_isSome (numPagData + (c.forkTables pos).heapZones zone).toNat [] (c.forkTables pos)).mp
      (by rw [some]; rfl)
    have fits : pagLogInitHeap + (c.forkTables pos).heapZones zone ≤ totalPages ∧
        pagLogInitHeap + numPagData + 2 * (c.forkTables pos).heapZones zone ≤ totalPages := by
      simp only [start] at enough ⊢
      omega
    exact .bind (Mm.mapChild_inside fits.1) fun mapped _ => .bind (Mm.copyPages_inside low fits.2) fun _ _ => .ok _

theorem exitMemory_inside (below : c.Below totalPages) (own : c.ct.dirPagesBaseAddr = some dir)
    (heap : c.ct.myHeap = some zone) : Mm.Inside c.exitMemory := by
  have start : pagLogInitData = 256 ∧ pagLogInitHeap = 284 := ⟨rfl, rfl⟩
  have size : numPagData = 20 ∧ totalPages = 1024 := ⟨rfl, rfl⟩
  unfold exitMemory
  rw [own, heap]
  refine .bind (pointer_inside dir) fun d same => ?_
  cases same
  dsimp only
  split
  · refine .bind (Mm.releasePages_inside fun i mem => ?_) fun data first => .bind (pointer_inside zone) fun z same =>
      .bind (Mm.releasePages_inside fun i mem => ?_) fun _ _ => .ok _
    · have := Mm.mem_pages.mp mem
      simp only [start, size] at *
      omega
    · cases same
      have zones : data.heapZones zone = c.mm.heapZones zone := congrFun (Mm.releasePages_table first).1.heapZones zone
      have := Mm.mem_pages.mp mem
      have := below.zones zone
      rw [zones] at *
      simp only [start, size] at *
      omega
  · exact .ok _

/-- A heap is resized inside its table exactly when the request is within the limit. -/
theorem sysDynMem_inside_iff {numPags : Int} (below : c.Below totalPages) (int : IsInt numPags)
    (own : c.ct.dirPagesBaseAddr = some dir) (heap : c.ct.myHeap = some zone) :
    Mm.Inside (c.sysDynMem numPags) ↔ c.Within totalPages (.syscall (.dynMem numPags)) := by
  have start : (pagLogInitHeap : Int) = 284 ∧ (totalPages : Int) = 1024 ∧ (stackFrames : Int) = 968 := ⟨rfl, rfl, rfl⟩
  obtain ⟨low, high⟩ := below.zones zone
  obtain ⟨least, _⟩ := int
  unfold sysDynMem Within
  simp only [own, heap, pointer, ok_bind, Option.some.injEq]
  split
  · rename_i zero
    exact iff_of_true (.ok _) ⟨by omega, by omega, fun z _ positive => by omega⟩
  split
  · rename_i positive
    split
    · rename_i deep
      refine iff_of_false (fun inside => inside .outside rfl rfl) fun within => ?_
      exact absurd within.2.1 (by omega)
    rename_i room
    have grows : Mm.Inside (c.mm.growHeap dir (c.mm.heapZones zone) numPags.toNat []) ↔
        pagLogInitHeap + c.mm.heapZones zone + (min numPags.toNat c.mm.available : Nat) ≤ totalPages := by
      have empty : pagLogInitHeap + c.mm.heapZones zone + (([] : List Nat).length : Int) ≤ totalPages := by simpa using high
      simpa only [List.length_nil, Int.natCast_zero, Int.add_zero] using Mm.growHeap_inside_iff (by omega) empty
    refine ((Fails.bind_iff fun r => ?_).trans grows).trans ?_
    · split <;> exact .ok _
    constructor
    · rintro fits
      refine ⟨by omega, by omega, ?_⟩
      rintro z rfl _
      omega
    · intro within
      have := within.2.2 zone rfl positive
      omega
  · rename_i negative
    have within : (numPags ≠ -2147483648 ∧ numPags ≤ stackFrames ∧ ∀ z, zone = z → 0 < numPags →
        pagLogInitHeap + c.mm.heapZones z + (min numPags.toNat c.mm.available : Nat) ≤ totalPages) ↔ numPags ≠ -2147483648 :=
      and_iff_left ⟨by omega, fun _ _ positive => absurd positive negative⟩
    rw [within]
    by_cases smallest : numPags = -2147483648
    · refine iff_of_false (fun inside => ?_) fun other => other smallest
      have negated : int32 (numPags * -1) = -2147483648 := by rw [smallest]; decide
      have wrapped : int32 (pagLogInitHeap + c.mm.heapZones zone - -2147483648) =
          pagLogInitHeap + c.mm.heapZones zone - 2147483648 := by
        unfold int32
        rw [Int.bmod_def]
        omega
      have below : pagLogInitHeap + c.mm.heapZones zone - 2147483648 < pagLogInitHeap + c.mm.heapZones zone := by omega
      obtain ⟨rest, first⟩ := Mm.pages_cons below
      rw [negated, if_neg (by omega), wrapped, first, Mm.releasePages_outside (by omega)] at inside
      exact inside .outside rfl rfl
    · refine iff_of_true ?_ smallest
      have negated : int32 (numPags * -1) = -numPags := by rw [int32_of_range (by omega) (by omega)]; omega
      rw [negated]
      split
      · exact .ok _
      · rw [int32_of_range (by omega) (by omega)]
        refine .bind (Mm.releasePages_inside fun i mem => ?_) fun _ _ => .ok _
        have := Mm.mem_pages.mp mem
        omega

theorem semaphores (below : c.Below limit) (semaphores : SemIndex → Semaphore) :
    ({ c with semaphores } : Core).Below limit := ⟨below.tidy, below.zones, below.heap⟩

end Below
end Core

namespace Kernel

variable {k : Kernel}

/-- The failures but those of a page number outside a table. -/
abbrev Mapped {α : Type} (x : Except Fault α) : Prop := Fails (· ≠ .memory .outside) x

theorem memory_mapped {α : Type} {x : Except MemFault α} : Mapped (memory x) ↔ Mm.Inside x := by
  cases x with
  | ok a => exact iff_of_true (.ok _) (.ok _)
  | error e => simp [Fails, memory, Except.mapError]

theorem sysFork_mapped (sound : k.Sound none) (call : k.core.InCall) (below : k.core.Below totalPages) :
    Mapped k.sysFork := by
  obtain ⟨dir, own⟩ := Option.isSome_iff_exists.mp (sound.good.directory _ call.live)
  obtain ⟨zone, heap⟩ := Option.isSome_iff_exists.mp (below.heap _ call.live call.task)
  unfold sysFork
  split
  · exact .ok _
  · rename_i fill rest first
    obtain ⟨dead, other, _, _⟩ := sound.takeFree first call
    refine .bind (memory_mapped.mpr (below.forkMemory_inside other own heap)) fun r _ => ?_
    dsimp only
    split <;> exact .ok _

theorem exitTail_mapped (sound : k.Sound none) (call : k.core.InCall) (below : k.core.Below totalPages) :
    Mapped k.exitTail := by
  obtain ⟨dir, own⟩ := Option.isSome_iff_exists.mp (sound.good.directory _ call.live)
  obtain ⟨zone, heap⟩ := Option.isSome_iff_exists.mp (below.heap _ call.live call.task)
  refine .bind (memory_mapped.mpr (below.exitMemory_inside own heap)) fun core _ => .bind ?_ fun _ _ => .ok _
  unfold leaveFather
  split
  · exact .ok _
  · split
    · exact .ok _
    · exact .error nofun

theorem exitSlots_mapped (slots : List SemIndex) {k : Kernel} (sound : k.Sound none) (call : k.core.InCall)
    (below : k.core.Below totalPages) : Mapped (k.exitSlots slots) := by
  induction slots generalizing k with
  | nil => exact exitTail_mapped sound call below
  | cons j slots ih =>
    unfold exitSlots
    split
    · have leads := sound.destroySlots (k.core.semaphores j).id (.exit j) (List.finRange numSems) call
      have changed := destroySlots_core (k.core.semaphores j).id (.exit j) (List.finRange numSems) (k := k)
      split <;> rename_i result <;> rw [result] at leads changed
      · obtain ⟨semaphores, core⟩ := changed rfl
        obtain ⟨sound, call⟩ := leads.1 rfl
        exact ih sound call (by rw [core]; exact below.semaphores semaphores)
      · exact .ok _
    · exact ih sound call below

theorem Inv.resume_mapped (inv : k.Inv) (below : k.core.Below totalPages) {i : SemIndex} {semid : Int} {j : SemIndex}
    (kEsp : k.core.ct.kEsp = .semDestroy i semid (.exit j)) : Mapped k.resume := by
  obtain ⟨sound, call, free, unmarked⟩ := inv.resume_destroyer kEsp
  have leads := sound.destroyFrom call i semid (.exit j) free unmarked
  have changed (ends : ((k.setTask k.core.current fun ts => { ts with kEsp := .user }).destroyFrom i semid
      (.exit j)).1.isSome) := destroyFrom_core ends
  unfold Kernel.resume
  rw [kEsp]
  simp only [goOn]
  generalize (k.setTask k.core.current fun ts => { ts with kEsp := .user }).destroyFrom i semid (.exit j) = r at *
  obtain ⟨v, middle⟩ := r
  cases v with
  | none => exact .ok _
  | some v =>
    obtain ⟨semaphores, core⟩ := changed rfl
    obtain ⟨sound, call⟩ := leads.1 rfl
    have used : (k.core.setTask k.core.current fun ts => { ts with kEsp := .user }).Below totalPages :=
      below.sameSpace (frame_setTask k k.core.current (fun ts => { ts with kEsp := .user })
        fun _ => ⟨rfl, rfl, rfl, id⟩).space
    refine exitSlots_mapped _ sound call ?_
    rw [show middle.core = _ from core]
    exact used.semaphores semaphores

/-- The calls reach no page number outside a table, but for requests of `sys_dyn_mem` that
do not fit. -/
theorem Inv.mapped_iff (inv : k.Inv) (below : k.core.Below totalPages) {e : Event} (enabled : k.core.Enabled e)
    (maps : k.core.Maps e) : Mapped (k.step e) ↔ k.core.Within totalPages e := by
  cases e with
  | clock => cases maps
  | key => cases maps
  | resume =>
    obtain ⟨i, semid, j, kEsp⟩ := maps
    exact iff_of_true (inv.resume_mapped below kEsp) trivial
  | syscall request =>
    have sound := inv.toSound
    have call := inv.inCall enabled.1 enabled.2.1
    cases request with
    | fork => exact iff_of_true (sysFork_mapped sound call below) trivial
    | exit => exact iff_of_true (exitSlots_mapped _ sound call below) trivial
    | dynMem numPags =>
      obtain ⟨dir, own⟩ := Option.isSome_iff_exists.mp (sound.good.directory _ call.live)
      obtain ⟨zone, heap⟩ := Option.isSome_iff_exists.mp (below.heap _ call.live call.task)
      rw [← below.sysDynMem_inside_iff enabled.2.2 own heap, ← memory_mapped]
      refine ⟨fun mapped e failed => mapped e ?_, fun mapped => .bind mapped fun _ _ => .ok _⟩
      show (do return k.setCore (← memory (k.core.sysDynMem numPags)) : Except Fault Kernel) = _
      rw [failed]
      rfl
    | _ => cases maps

end Kernel

namespace Core

theorem boot_below {limit : Int} (low : pagLogInitHeap ≤ limit) (ram : Nat → Nat → UInt8) : (bootCore ram).Below limit := by
  have owned := boot_owned ram
  have zones : ∀ z, (bootCore ram).mm.heapZones z = 0 := by
    have : ∀ z, booted.core.mm.heapZones z = 0 := by decide +kernel
    exact this
  refine ⟨⟨owned.fair.code, fun d p page code => ?_, fun d p high => ?_⟩, fun z => ?_,
    fun t live other => by rw [owned.heap t live other]; rfl⟩
  · cases present : ((bootCore ram).mm.pagusrTable d p).present with
    | true =>
      have held : (bootCore ram).mm.ledger.holds (d, p) = some ((bootCore ram).mm.pagusrTable d p).pbaseAddr :=
        Mm.Fair.holds_some.mpr ⟨page, present, rfl⟩
      exact (owned.fair.balanced.marked held).2.1 code
    | false =>
      rw [owned.fair.clear d p page present] at code
      exact Mm.zero_notCode code
  · have page : OwnPage p := ownPage_heap (by omega)
    refine owned.fair.clear d p page (Bool.eq_false_iff.mpr fun present => ?_)
    have inside := (owned.extent d p page).mp present
    rw [heapEnd, zones] at inside
    split at inside <;> omega
  · rw [zones]
    exact ⟨le_rfl, by simpa using low⟩

end Core

/-- The two kernels stay inside the tables together. -/
theorem Refines.inside_iff {s : State} {k : Kernel} {e : Event} (rep : Refines s k) (inv : k.Inv)
    (below : k.core.Below totalPages) (enabled : s.core.Enabled e) (positive : e = .syscall .fork → 0 < s.core.pidGlobal)
    (maps : s.core.Maps e) : s.step e ≠ .error (.memory .outside) ↔ s.core.Within totalPages e := by
  rw [rep.core] at enabled positive maps ⊢
  rw [← inv.mapped_iff below enabled maps]
  have agree : Agree Refines (s.step e) (k.step e) := by
    cases e with
    | clock | key => cases maps
    | resume => exact rep.step inv trivial enabled
    | syscall request =>
      cases request with
      | fork => exact rep.step inv (positive rfl) enabled
      | exit => exact rep.step inv trivial enabled
      | dynMem numPags => exact rep.sysDynMem numPags
      | _ => cases maps
  constructor
  · rintro inside _ failed rfl
    cases result : s.step e with
    | ok s' => rw [result, failed] at agree; exact agree
    | error f => rw [result, failed] at agree; exact inside (by rw [result, agree])
  · intro mapped failed
    exact mapped _ (agree.of_error failed) rfl

/-- The smallest `int` has no negation: `task1` gives back pages before its table. -/
theorem dynMem_least_outside : ∃ s, Run [] s ∧ s.core.Enabled (.syscall (.dynMem (-2147483648))) ∧
    s.step (.syscall (.dynMem (-2147483648))) = .error (.memory .outside) := by
  have user : booted.core.Enabled (.syscall (.dynMem (-2147483648))) := by decide +kernel
  refine ⟨_, ⟨_, _, boot_eq fun _ _ => 0, .nil⟩, user, ?_⟩
  by_contra inside
  have within := ((boot_refines fun _ _ => 0).inside_iff (e := .syscall (.dynMem (-2147483648))) (boot_inv _)
    (Core.boot_below (by decide) _) user (by simp) trivial).mp inside
  exact within.1 rfl

/-- A call that changes page tables stays inside them exactly when it is no `sys_dyn_mem`
whose array or whose pages do not fit. -/
theorem pagesInside_iff_within {events : List Event} {s : State} (run : RunWhere (fun s e => s.core.Allowed e) events s)
    {e : Event} (enabled : s.core.Enabled e) (positive : e = .syscall .fork → 0 < s.core.pidGlobal)
    (maps : s.core.Maps e) : s.step e ≠ .error (.memory .outside) ↔ s.core.Within totalPages e := by
  obtain ⟨k, rep, inv, below⟩ := run.invariant Core.Allowed (fun k => k.core.Below totalPages)
    (Core.boot_below (by decide))
    (fun _ _ _ _ allowed => allowed) fun k e k' inv _ below allowed step => by
      have within : k.core.Within totalPages e := by
        by_cases maps : k.core.Maps e
        · refine (inv.mapped_iff below step.1 maps).mp ?_
          rw [step.2]
          exact .ok _
        · unfold Core.Within
          split
          · exact absurd trivial maps
          · trivial
      exact below.step (le_refl _) inv.between.live within (Kernel.step_remembers inv allowed step).1
  exact rep.inside_iff inv below enabled positive maps

/-- A heap of two pages is given back. -/
theorem pagesInside_shrunk : ∃ s, RunWhere (fun s e => s.core.Allowed e) [.syscall (.dynMem 2)] s ∧
    s.step (.syscall (.dynMem (-2))) ≠ .error (.memory .outside) := by
  obtain ⟨s, run, checked⟩ := executeBoot_run (fun s e => s.core.Allowed e) [.syscall (.dynMem 2)]
    (fun s => s.core.Enabled (.syscall (.dynMem (-2)))) (by decide +kernel)
  simp only [decide_eq_true_eq] at run checked
  exact ⟨s, run, (pagesInside_iff_within run checked (by simp) trivial).mpr
    ⟨by decide, by decide, fun _ _ positive => by omega⟩⟩

end Zeos
