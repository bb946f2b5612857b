import Zeos.Resizing
import Zeos.Refusals
import Zeos.Isolation

/-! How `sys_fork` copies the pages of its caller. -/
namespace Zeos
open Outcome

section Copying

variable {α : Type*} {β : Type*} {ι : Type*} [DecidableEq α] {source target : ι → α} {xs : List ι}

/-- One after the other, each target gets what its source holds at that time. -/
def copyAll (source target : ι → α) (xs : List ι) (m : α → β) : α → β :=
  xs.foldl (fun m x => Function.update m (target x) (m (source x))) m

theorem copyAll_append (source target : ι → α) (xs ys : List ι) (m : α → β) :
    copyAll source target (xs ++ ys) m = copyAll source target ys (copyAll source target xs m) :=
  List.foldl_append ..

/-- What is no target stays. -/
theorem copyAll_other {a : α} (other : ∀ x ∈ xs, a ≠ target x) (m : α → β) : copyAll source target xs m a = m a := by
  induction xs generalizing m with
  | nil => rfl
  | cons x xs ih =>
    have rest := ih (fun y mem => other y (List.mem_cons_of_mem _ mem)) (Function.update m (target x) (m (source x)))
    rw [copyAll, List.foldl_cons, ← copyAll, rest]
    exact Function.update_of_ne (other x (List.mem_cons_self ..)) _ _

/-- Different targets that are no sources get what the sources hold in the beginning. -/
theorem copyAll_target (nodup : (xs.map target).Nodup) (apart : ∀ x ∈ xs, ∀ y ∈ xs, source x ≠ target y) {x : ι}
    (mem : x ∈ xs) (m : α → β) : copyAll source target xs m (target x) = m (source x) := by
  induction xs generalizing m with
  | nil => contradiction
  | cons y xs ih =>
    obtain ⟨absent, nodup⟩ := List.nodup_cons.mp nodup
    rw [copyAll, List.foldl_cons, ← copyAll]
    rcases List.mem_cons.mp mem with rfl | later
    · rw [copyAll_other, Function.update_self]
      intro z there same
      exact absent (same ▸ List.mem_map_of_mem there)
    · rw [ih nodup (fun z there w there' => apart z (List.mem_cons_of_mem _ there) w (List.mem_cons_of_mem _ there')) later]
      exact Function.update_of_ne (apart x mem y (List.mem_cons_self ..)) _ _

end Copying

namespace Mm

variable {mm mm' : Mm} {fillTP pareTP : Dir} {f p q : Nat} {frames : List Nat}

/-- The frames are in use. -/
def taken (frames : List Nat) (mm : Mm) : Mm :=
  { mm with physMem := fun f => if f ∈ frames then .usedFrame else mm.physMem f }

theorem taken_snoc (mm : Mm) (frames : List Nat) (f : Nat) :
    (mm.taken frames).setFrame f .usedFrame = mm.taken (frames ++ [f]) := by
  apply ext_tables
  · intro g
    simp only [taken, setFrame, Function.update_apply, List.mem_append, List.mem_singleton]
    split_ifs <;> simp_all
  all_goals intros; rfl

theorem Obtainable.snoc (obtainable : mm.Obtainable frames) (searched : f ∈ searchFrames) (free : mm.physMem f = .freeFrame)
    (absent : f ∉ frames) : mm.Obtainable (frames ++ [f]) := by
  refine ⟨List.nodup_append.mpr ⟨obtainable.nodup, List.nodup_singleton f, ?_⟩, ?_, ?_⟩
  · rintro g mem h single rfl
    exact absent (List.mem_singleton.mp single ▸ mem)
  · intro g mem
    rcases List.mem_append.mp mem with mem | single
    · exact obtainable.searched g mem
    · exact List.mem_singleton.mp single ▸ searched
  · intro g mem
    rcases List.mem_append.mp mem with mem | single
    · exact obtainable.free g mem
    · exact List.mem_singleton.mp single ▸ free

/-- All frames are obtained when enough are free. -/
theorem allocFrames_eq (n : Nat) (obtainable : mm.Obtainable frames) (enough : n ≤ (mm.taken frames).available) :
    ∃ all, all.length = frames.length + n ∧ mm.Obtainable all ∧
      allocFrames n frames (mm.taken frames) = (some all, mm.taken all) := by
  induction n generalizing frames with
  | zero => exact ⟨frames, rfl, obtainable, rfl⟩
  | succ n ih =>
    rcases got : (mm.taken frames).allocFrame with ⟨_ | f, next⟩
    · have none := available_none got
      omega
    · obtain ⟨searched, free, rfl⟩ := allocFrame_some got
      have fewer := available_take got
      have absent : f ∉ frames := by
        intro mem
        simp [taken, mem] at free
      have more := obtainable.snoc searched (by simpa [taken, absent] using free) absent
      rw [taken_snoc] at fewer got
      obtain ⟨all, length, done, result⟩ := ih more (by omega)
      refine ⟨all, ?_, done, ?_⟩
      · rw [length, List.length_append, List.length_singleton]
        omega
      · rw [allocFrames, got]
        exact result

theorem translate_page (mm : Mm) (d : Dir) (small : p < totalPages) :
    mm.translate d (BitVec.ofInt 32 ((p : Int) * pageSize)) =
      if (mm.pagusrTable d p).present then some ((mm.pagusrTable d p).pbaseAddr, 0) else none := by
  have address : (BitVec.ofInt 32 ((p : Int) * pageSize)).toNat = p * pageSize := by
    rw [BitVec.toNat_ofInt]
    simp only [pageSize, totalPages] at *
    omega
  have page : p * pageSize / pageSize = p := Nat.mul_div_cancel _ (by decide)
  simp only [translate, address, page, small, true_and, Nat.mul_mod_left]

/-- One round of the copy loops, through a window that is clear. -/
theorem copyThrough_eq {offset : Int} (window : (p : Int) + offset = q) (room : q < totalPages) (low : p < totalPages)
    (present : (mm.pagusrTable pareTP p).present) (unused : mm.pagusrTable pareTP q = .zero) :
    copyThrough fillTP pareTP pareTP offset mm (p : Int) = .ok { mm with
      ram := Function.update mm.ram (mm.pagusrTable fillTP p).pbaseAddr (mm.ram (mm.pagusrTable pareTP p).pbaseAddr) } := by
  have other : p ≠ q := by
    rintro rfl
    rw [unused] at present
    contradiction
  let mapped := mm.setEntry pareTP q ⟨(mm.pagusrTable fillTP p).pbaseAddr, true, true, true⟩
  have source : mapped.pagusrTable pareTP p = mm.pagusrTable pareTP p := by
    rw [setEntry_table]
    exact if_neg fun same => other same.2
  have target : mapped.pagusrTable pareTP q = ⟨(mm.pagusrTable fillTP p).pbaseAddr, true, true, true⟩ := by
    rw [setEntry_table]
    exact if_pos ⟨rfl, rfl⟩
  have got : mm.getFrame fillTP (p : Int) = .ok (mm.pagusrTable fillTP p).pbaseAddr := by
    rw [getFrame, pageIndex_ok.mpr ⟨rfl, low⟩]
    rfl
  have set : mm.setSsPag pareTP (q : Int) (mm.pagusrTable fillTP p).pbaseAddr = .ok mapped :=
    setSsPag_ok.mpr ⟨q, rfl, room, rfl⟩
  have copied : mapped.copyPage pareTP p q = .ok { mapped with
      ram := Function.update mm.ram (mm.pagusrTable fillTP p).pbaseAddr (mm.ram (mm.pagusrTable pareTP p).pbaseAddr) } := by
    rw [copyPage, translate_page _ _ low, translate_page _ _ room, source, target, if_pos present]
    rfl
  rw [copyThrough, window, got, ok_bind, set, ok_bind, copied, ok_bind]
  refine delSsPag_ok.mpr ⟨q, rfl, room, ext_tables (fun _ => rfl) (fun d r => ?_) rfl rfl rfl⟩
  rw [setEntry_table]
  by_cases entry : d = pareTP ∧ r = q
  · rw [if_pos entry, entry.1, entry.2, unused]
  · rw [if_neg entry]
    exact ((setEntry_table mm pareTP d q r _).trans (if_neg entry)).symm

/-- The loop over pages that are mapped and have clear windows. -/
theorem copyLoop_eq {offset : Int} {ps : List Nat} (rounds : ∀ p ∈ ps, p < totalPages ∧ (mm.pagusrTable pareTP p).present ∧
      ∃ q : Nat, (p : Int) + offset = q ∧ q < totalPages ∧ mm.pagusrTable pareTP q = .zero) :
    (ps.map fun p : Nat => (p : Int)).foldlM (copyThrough fillTP pareTP pareTP offset) mm = .ok { mm with
      ram := copyAll (fun p => (mm.pagusrTable pareTP p).pbaseAddr) (fun p => (mm.pagusrTable fillTP p).pbaseAddr)
        ps mm.ram } := by
  induction ps generalizing mm with
  | nil => rfl
  | cons p ps ih =>
    obtain ⟨low, present, q, window, room, unused⟩ := rounds p (List.mem_cons_self ..)
    rw [List.map_cons, List.foldlM_cons, copyThrough_eq window room low present unused, ok_bind]
    exact @ih { mm with
      ram := Function.update mm.ram (mm.pagusrTable fillTP p).pbaseAddr (mm.ram (mm.pagusrTable pareTP p).pbaseAddr) }
      fun r mem => rounds r (List.mem_cons_of_mem _ mem)

theorem pages_eq (base n : Nat) : pages base (base + n) = (pagesFrom base n).map fun p : Nat => (p : Int) := by
  have length : ((base : Int) + n - base).toNat = n := by omega
  unfold pages pagesFrom
  rw [List.map_map, length]
  apply List.map_congr_left
  intro k _
  exact (Int.natCast_add base k).symm

/-- The data pages and the pages of a heap of `heap` pages. -/
def ownPages (heap : Nat) : List Nat := pagesFrom 256 numPagData ++ pagesFrom 284 heap

theorem mem_ownPages {heap : Nat} : p ∈ ownPages heap ↔ OwnPage p ∧ p < pagLogInitHeap + heap := by
  have start : pagLogInitData = 256 ∧ pagLogInitCode = 276 := ⟨rfl, rfl⟩
  have size : pagLogInitHeap = 284 ∧ numPagData = 20 := ⟨rfl, rfl⟩
  unfold ownPages OwnPage
  simp only [List.mem_append, mem_pagesFrom, start, size]
  omega

theorem ownPages_nodup (heap : Nat) : (ownPages heap).Nodup := by
  have size : numPagData = 20 := rfl
  refine List.nodup_append.mpr ⟨?_, ?_, ?_⟩
  · exact List.Nodup.map (fun i j same => by simpa using same) List.nodup_range
  · exact List.Nodup.map (fun i j same => by simpa using same) List.nodup_range
  · rintro p data q high rfl
    have := mem_pagesFrom.mp data
    have := mem_pagesFrom.mp high
    omega

/-- The copy loops, with room for their windows above the heap. -/
theorem copyPages_eq {heap : Nat} (room : pagLogInitHeap + numPagData + 2 * heap ≤ totalPages)
    (live : ∀ p ∈ ownPages heap, (mm.pagusrTable pareTP p).present) (clear : mm.ClearFrom pareTP (pagLogInitHeap + heap)) :
    mm.copyPages fillTP pareTP pareTP heap = .ok { mm with
      ram := copyAll (fun p => (mm.pagusrTable pareTP p).pbaseAddr) (fun p => (mm.pagusrTable fillTP p).pbaseAddr)
        (ownPages heap) mm.ram } := by
  have size : pagLogInitHeap = 284 ∧ numPagData = 20 ∧ numPagCode = 8 ∧ totalPages = 1024 := ⟨rfl, rfl, rfl, rfl⟩
  have data : pages pagLogInitData (pagLogInitData + numPagData) = (pagesFrom 256 numPagData).map fun p : Nat => (p : Int) :=
    pages_eq 256 numPagData
  have rest : pages pagLogInitHeap (pagLogInitHeap + heap) = (pagesFrom 284 heap).map fun p : Nat => (p : Int) :=
    pages_eq 284 heap
  unfold copyPages
  rw [data, rest, copyLoop_eq, ok_bind, copyLoop_eq]
  · rw [ownPages, copyAll_append]
  · intro p mem
    have present := live p (List.mem_append_right _ mem)
    have := mem_pagesFrom.mp mem
    simp only [size] at room clear ⊢
    refine ⟨by omega, present, p + 20 + heap, by omega, by omega, clear _ (by omega) (by simp only [size]; omega)⟩
  · intro p mem
    have present := live p (List.mem_append_left _ mem)
    have := mem_pagesFrom.mp mem
    simp only [size] at room clear this ⊢
    refine ⟨by omega, present, p + 28 + heap, by omega, by omega, clear _ (by omega) (by simp only [size]; omega)⟩

/-- A round clears its window, whatever it was used for. -/
theorem copyThrough_entry {cr3 : Dir} {offset i : Int} (done : copyThrough fillTP pareTP cr3 offset mm i = .ok mm') (q : Nat) :
    i + offset < totalPages ∧ mm'.pagusrTable pareTP q = if (q : Int) = i + offset then .zero else mm.pagusrTable pareTP q := by
  unfold copyThrough at done
  obtain ⟨frame, _, done⟩ := bind_ok.mp done
  obtain ⟨mapped, first, done⟩ := bind_ok.mp done
  obtain ⟨copied, copy, last⟩ := bind_ok.mp done
  obtain ⟨w, window, room, rfl⟩ := setSsPag_ok.mp first
  obtain ⟨w', window', -, rfl⟩ := delSsPag_ok.mp last
  have same : w' = w := by omega
  subst same
  refine ⟨by omega, ?_⟩
  rw [setEntry_table, (copyPage_tables copy).pagusrTable, setEntry_table]
  by_cases here : q = w'
  · rw [if_pos ⟨rfl, here⟩, if_pos (by omega)]
  · rw [if_neg fun same => here same.2, if_neg fun same => here same.2, if_neg (by omega)]

/-- The last window is inside the table. -/
theorem copyPages_room {cr3 : Dir} {heap : Nat} (done : mm.copyPages fillTP pareTP cr3 heap = .ok mm') :
    pagLogInitHeap + numPagData + 2 * heap ≤ totalPages := by
  have size : pagLogInitHeap = 284 ∧ numPagData = 20 ∧ totalPages = 1024 := ⟨rfl, rfl, rfl⟩
  unfold copyPages at done
  obtain ⟨middle, -, second⟩ := bind_ok.mp done
  by_cases empty : heap = 0
  · subst empty
    decide
  · have last : ((pagLogInitHeap + heap - 1 : Nat) : Int) ∈ pages pagLogInitHeap (pagLogInitHeap + heap) := by
      simp only [mem_pages, size]
      omega
    obtain ⟨m, m', round⟩ := foldlM_round second last
    have := (copyThrough_entry round 0).1
    simp only [size] at this ⊢
    omega

/-- Without heap pages the first window is the first page of the heap. -/
theorem copyPages_clears {cr3 : Dir} (done : mm.copyPages fillTP pareTP cr3 0 = .ok mm') :
    mm'.pagusrTable pareTP pagLogInitHeap = .zero := by
  have size : pagLogInitData = 256 ∧ pagLogInitHeap = 284 ∧ numPagData = 20 ∧ numPagCode = 8 := ⟨rfl, rfl, rfl, rfl⟩
  have stays {offset : Int} {range : List Int} {m m' : Mm} (clear : m.pagusrTable pareTP pagLogInitHeap = .zero)
      (done : range.foldlM (copyThrough fillTP pareTP cr3 offset) m = .ok m') :
      m'.pagusrTable pareTP pagLogInitHeap = .zero := by
    refine foldlM_keeps (fun m => m.pagusrTable pareTP pagLogInitHeap = .zero) (fun i _ m m' clear round => ?_) done clear
    rw [(copyThrough_entry round _).2, clear, ite_self]
  unfold copyPages at done
  obtain ⟨middle, first, second⟩ := bind_ok.mp done
  obtain ⟨rest, range⟩ := pages_cons (show (pagLogInitData : Int) < pagLogInitData + numPagData by decide)
  rw [range, List.foldlM_cons] at first
  obtain ⟨begun, round, first⟩ := bind_ok.mp first
  refine stays (stays ?_ first) second
  rw [(copyThrough_entry round _).2, if_pos (by simp only [size]; omega)]

/-- Behind a copy of the pages of `dir` for `child`: they are mapped to different frames that were
free and hold what the pages of `dir` hold; the code is shared; `dir` and all frames that were in use are
as before. -/
structure Copied (mm mm' : Mm) (dir child : Dir) (heap : Nat) : Prop where
  pages : ∀ p ∈ ownPages heap, (mm'.pagusrTable child p).present ∧
    mm.physMem (mm'.pagusrTable child p).pbaseAddr = .freeFrame ∧
    mm'.physMem (mm'.pagusrTable child p).pbaseAddr = .usedFrame ∧
    mm'.ram (mm'.pagusrTable child p).pbaseAddr = mm.ram (mm.pagusrTable dir p).pbaseAddr
  distinct : ∀ p ∈ ownPages heap, ∀ q ∈ ownPages heap,
    (mm'.pagusrTable child p).pbaseAddr = (mm'.pagusrTable child q).pbaseAddr → p = q
  code : ∀ p, pagLogInitCode ≤ p → p < pagLogInitHeap →
    (mm'.pagusrTable child p).pbaseAddr = (mm.pagusrTable dir p).pbaseAddr
  table : mm'.pagusrTable dir = mm.pagusrTable dir
  contents : ∀ f, mm.physMem f ≠ .freeFrame → mm'.ram f = mm.ram f

section
variable {heap : Nat} (other : fillTP ≠ pareTP) (obtained : mm.Obtainable frames) (length : frames.length = numPagData + heap)
  (map : (mm.taken frames).mapChild fillTP pareTP frames heap = .ok mm')
include other length map

/-- The own pages of the child have the frames that were obtained. -/
theorem mapChild_frame (own : p ∈ ownPages heap) : (mm'.pagusrTable fillTP p).present ∧
    (mm'.pagusrTable fillTP p).pbaseAddr ∈ frames ∧ frames[frameIndex p]? = some (mm'.pagusrTable fillTP p).pbaseAddr := by
  obtain ⟨-, -, table⟩ := mapChild_table other.symm map
  obtain ⟨own, below⟩ := mem_ownPages.mp own
  have index : frameIndex p < frames.length := by
    rw [length]
    exact frameIndex_lt own below
  have entry : mm'.pagusrTable fillTP p = ⟨frames[frameIndex p], true, true, true⟩ := by
    rw [table, Int.toNat_natCast, if_pos ⟨rfl, below⟩, if_pos own, List.getD_eq_getElem _ _ index]
  rw [entry]
  exact ⟨rfl, List.getElem_mem index, List.getElem?_eq_getElem index⟩

include obtained

/-- The copy that the loops make for a child with its own frames. -/
theorem copied_of_mapChild (used : ∀ p ∈ ownPages heap, mm.physMem (mm.pagusrTable pareTP p).pbaseAddr ≠ .freeFrame) :
    mm.Copied { mm' with
      ram := copyAll (fun p => (mm.pagusrTable pareTP p).pbaseAddr) (fun p => (mm'.pagusrTable fillTP p).pbaseAddr)
        (ownPages heap) mm.ram } pareTP fillTP heap := by
  obtain ⟨⟨physMem, -⟩, -, table⟩ := mapChild_table other.symm map
  have frame {p : Nat} (own : p ∈ ownPages heap) := mapChild_frame other length map own
  have distinct : ∀ p ∈ ownPages heap, ∀ q ∈ ownPages heap,
      (mm'.pagusrTable fillTP p).pbaseAddr = (mm'.pagusrTable fillTP q).pbaseAddr → p = q := by
    intro p own q own' same
    have both : frames[frameIndex p]? = frames[frameIndex q]? := by rw [(frame own).2.2, (frame own').2.2, same]
    obtain ⟨low, below⟩ := mem_ownPages.mp own
    refine frameIndex_inj low (mem_ownPages.mp own').1 ((List.getElem?_inj ?_ obtained.nodup).mp both)
    rw [length]
    exact frameIndex_lt low below
  have apart {f q : Nat} (used : mm.physMem f ≠ .freeFrame) (own : q ∈ ownPages heap) :
      f ≠ (mm'.pagusrTable fillTP q).pbaseAddr := by
    rintro rfl
    exact used (obtained.free _ (frame own).2.1)
  refine ⟨fun p own => ⟨(frame own).1, obtained.free _ (frame own).2.1, ?_, ?_⟩, distinct, fun p low high => ?_, ?_,
    fun f used => copyAll_other (fun q own => apart used own) mm.ram⟩
  · show mm'.physMem _ = _
    rw [physMem]
    exact if_pos (frame own).2.1
  · exact copyAll_target ((ownPages_nodup heap).map_on fun p own q own' same => distinct p own q own' same)
      (fun q own' r own'' => apart (used q own') own'') own mm.ram
  · show (mm'.pagusrTable fillTP p).pbaseAddr = _
    rw [table, Int.toNat_natCast, if_pos ⟨rfl, by omega⟩, if_neg fun own => own.2 ⟨low, high⟩]
    rfl
  · funext p
    show mm'.pagusrTable pareTP p = _
    rw [table, if_neg fun same => other same.1.symm]
    rfl

end

end Mm

namespace Core

variable {c core : Core} {fill : Task} {dir zone pos : Dir} {heap : Nat}

/-- The caller of `sys_fork` runs on its own directory. Its data pages and those of its heap are
mapped to frames that are not free, and nothing is above them. -/
structure Parent (c : Core) (dir zone : Dir) (heap : Nat) : Prop where
  own : c.ct.dirPagesBaseAddr = some dir
  loaded : c.cr3 = dir
  myHeap : c.ct.myHeap = some zone
  size : c.mm.heapZones zone = heap
  mapped : ∀ p ∈ Mm.ownPages heap, (c.mm.pagusrTable dir p).present ∧
    c.mm.physMem (c.mm.pagusrTable dir p).pbaseAddr ≠ .freeFrame
  clear : c.mm.ClearFrom dir (pagLogInitHeap + heap)

/-- The directory that `allocate_DIR` finds is neither that of the caller nor the one whose zone
counts its heap, and the windows of the copy loops fit behind that heap. -/
def Copyable (c : Core) (dir zone : Dir) (heap : Nat) : Prop :=
  c.mm.allocateDir.1 ≠ some dir ∧ (c.mm.allocateDir.1 = some zone → heap = 0) ∧
    pagLogInitHeap + numPagData + 2 * heap ≤ totalPages

instance : Decidable (c.Copyable dir zone heap) := inferInstanceAs (Decidable (_ ∧ (_ → _) ∧ _))

theorem forkMemory_done {frames : List Nat} {taken mapped mm : Mm} (other : fill ≠ c.current) (own : c.forkDir = some pos)
    (myHeap : c.ct.myHeap = some zone) (parent : c.ct.dirPagesBaseAddr = some dir)
    (some : Mm.allocFrames (numPagData + (c.forkTables pos).heapZones zone).toNat [] (c.forkTables pos) = (some frames, taken))
    (map : taken.mapChild pos dir frames ((c.forkTables pos).heapZones zone) = .ok mapped)
    (copy : mapped.copyPages pos dir c.cr3 ((c.forkTables pos).heapZones zone) = .ok mm) :
    (c.setTask fill fun _ => c.ct).forkMemory fill = .ok (true, { c.childOf fill pos with mm, cr3 := dir }) := by
  have own' : c.mm.allocateDir.1.or (.some dir) = .some pos := by
    rw [← parent]
    exact own
  have myHeap' : (c.task c.current).myHeap = .some zone := myHeap
  have parent' : (c.task c.current).dirPagesBaseAddr = .some dir := parent
  unfold forkTables at some map copy
  unfold forkMemory
  simp only [setTask_mm, setTask_task, if_true, ct, setTask_current, setTask_cr3, Ne.symm other, if_false, own', myHeap', pointer,
    ok_bind, some, parent', map, copy]
  refine congrArg (fun core => Except.ok (true, core)) ?_
  have found : c.mm.allocateDir.1.getD dir = pos := by simpa using own'
  simp [childOf, setTask, ct, parent', myHeap', found]

section
variable (parent : c.Parent dir zone heap)
include parent

theorem Parent.forkHeap (kept : pos = zone → heap = 0) :
    (c.forkTables pos).heapZones zone = heap := by
  rw [(c.forkTables_pages pos).2.2, Function.update_apply]
  split
  · rename_i same
    rw [kept same.symm]
    rfl
  · exact parent.size

/-- All goes well when the child's directory is another one and its heap zone is not in use. -/
theorem Parent.copied (other : fill ≠ c.current) (free : c.mm.allocateDir.1 = some pos)
    (enough : numPagData + heap ≤ c.mm.available) (copyable : c.Copyable dir zone heap) :
    ∃ core, (c.setTask fill fun _ => c.ct).forkMemory fill = .ok (true, core) ∧
      (core.task fill).dirPagesBaseAddr = some pos ∧ c.mm.Copied core.mm dir pos heap := by
  obtain ⟨apart, kept, room⟩ := copyable
  rw [free] at apart kept
  have apart : pos ≠ dir := fun same => apart (congrArg some same)
  have zones := parent.forkHeap fun same => kept (congrArg some same)
  obtain ⟨tables, phys, -⟩ := c.forkTables_pages pos
  have ram : (c.forkTables pos).ram = c.mm.ram := by
    unfold forkTables Mm.allocateDir
    split <;> rfl
  have start : (c.forkTables pos).taken [] = c.forkTables pos :=
    Mm.ext_tables (fun f => by simp [Mm.taken]) (fun _ _ => rfl) rfl rfl rfl
  have none : (c.forkTables pos).Obtainable [] := ⟨List.nodup_nil, by simp, by simp⟩
  have demand : (numPagData + (c.forkTables pos).heapZones zone).toNat = numPagData + heap := by
    rw [zones]
    exact Int.toNat_natCast _
  obtain ⟨frames, length, obtained, got⟩ := Mm.allocFrames_eq (numPagData + heap) none (by
    rw [start, Mm.available, phys]
    exact enough)
  rw [start, ← demand] at got
  rw [List.length_nil, Nat.zero_add] at length
  have size : pagLogInitHeap = 284 ∧ numPagData = 20 ∧ totalPages = 1024 := ⟨rfl, rfl, rfl⟩
  have runs : Fails (fun _ => False) (((c.forkTables pos).taken frames).mapChild pos dir frames heap) :=
    Mm.mapChild_inside (by simp only [size] at room ⊢; omega)
  obtain ⟨mapped, map⟩ := runs.result
  obtain ⟨-, -, table⟩ := Mm.mapChild_table apart.symm map
  have old (p : Nat) : mapped.pagusrTable dir p = c.mm.pagusrTable dir p := by
    rw [table, if_neg fun same => apart same.1.symm]
    exact congrFun (congrFun tables dir) p
  have same : mapped.ram = c.mm.ram :=
    Mm.mapChild_keeps (fun m => m.ram = c.mm.ram) (fun _ _ _ before => before) map ram
  have copy : mapped.copyPages pos dir dir heap = _ :=
    Mm.copyPages_eq room (fun p own => by rw [old]; exact (parent.mapped p own).1)
    fun p above below => (old p).trans (parent.clear p above below)
  have done := forkMemory_done other (by rw [forkDir, free, Option.some_or]) parent.myHeap parent.own got
    (by rw [zones]; exact map) (by rw [zones, parent.loaded]; exact copy)
  refine ⟨_, done, by simp [childOf], ?_⟩
  have copied := Mm.copied_of_mapChild apart obtained length map
    fun p own => by rw [tables, phys]; exact (parent.mapped p own).2
  simp only [old, same]
  rw [tables, ram] at copied
  exact ⟨by simpa only [tables, phys, ram] using copied.pages, copied.distinct, by simpa only [tables] using copied.code,
    by simpa only [tables] using copied.table, by simpa only [phys, ram] using copied.contents⟩

/-- A copy that is right shows that its directory was a good one. -/
theorem Parent.copyable {complete : Bool} {child : Dir} (other : fill ≠ c.current) (free : c.mm.allocateDir.1 = some pos)
    (enough : numPagData + heap ≤ c.mm.available)
    (done : (c.setTask fill fun _ => c.ct).forkMemory fill = .ok (complete, core))
    (own : (core.task fill).dirPagesBaseAddr = some child) (copied : c.mm.Copied core.mm dir child heap) :
    c.Copyable dir zone heap := by
  have size : pagLogInitHeap = 284 ∧ numPagData = 20 ∧ totalPages = 1024 := ⟨rfl, rfl, rfl⟩
  have found : c.forkDir = some pos := by rw [forkDir, free, Option.some_or]
  obtain ⟨tables, phys, zones⟩ := c.forkTables_pages pos
  have data : 256 ∈ Mm.ownPages heap := Mm.mem_ownPages.mpr ⟨by decide, by simp only [size]; omega⟩
  cases forkMemory_forked other done with
  | @out pos' zone' mm dir' myHeap none =>
    cases found.symm.trans dir'
    cases parent.myHeap.symm.trans myHeap
    have demand : (numPagData + (c.forkTables pos).heapZones zone).toNat ≤ numPagData + heap := by
      rw [zones, Function.update_apply]
      split
      · simp only [size]
        omega
      · rw [parent.size]
        omega
    have obtained := (Mm.allocFrames_isSome (numPagData + (c.forkTables pos).heapZones zone).toNat [] (c.forkTables pos)).mpr
      (by rw [Mm.available, phys]; exact demand.trans enough)
    rw [none] at obtained
    contradiction
  | @done pos' zone' pare frames taken mapped mm dir' myHeap own' some map copy =>
    cases found.symm.trans dir'
    cases parent.myHeap.symm.trans myHeap
    cases parent.own.symm.trans own'
    have same : child = pos := by simpa [childOf] using own.symm
    subst same
    have apart : child ≠ dir := by
      rintro rfl
      obtain ⟨-, unused, -⟩ := copied.pages 256 data
      rw [copied.table] at unused
      exact (parent.mapped 256 data).2 unused
    have kept : child = zone → heap = 0 := by
      rintro rfl
      by_contra some
      have live : pagLogInitHeap ∈ Mm.ownPages heap := Mm.mem_ownPages.mpr ⟨by decide, by omega⟩
      have present := (parent.mapped _ live).1
      rw [zones, Function.update_self] at copy
      have table : mm.pagusrTable dir = c.mm.pagusrTable dir := copied.table
      rw [← table, Mm.copyPages_clears copy] at present
      exact absurd present (by decide)
    rw [parent.forkHeap kept] at copy
    rw [Copyable, free]
    exact ⟨fun same => apart (Option.some.inj same), fun same => kept (Option.some.inj same), Mm.copyPages_room copy⟩

end

end Core

/-- `sys_fork` leaves a child in the PCB `fill` whose pages are copies of the caller's. -/
def State.Copies (s : State) (fill : Task) (dir : Dir) (heap : Nat) : Prop :=
  ∃ s' child, s.sysFork = .ok s' ∧ (s'.core.task fill).dirPagesBaseAddr = some child ∧
    s.core.mm.Copied s'.core.mm dir child heap

/-- What `sys_fork` leaves of memory and of the child's directory. -/
theorem Kernel.sysFork_left {k : Kernel} {fill : Task} {rest : List Task} (first : k.queues .freequeue = fill :: rest)
    (other : fill ≠ k.core.current) {complete : Bool} {core : Core}
    (done : (k.core.setTask fill fun _ => k.core.ct).forkMemory fill = .ok (complete, core)) :
    ∃ k', k.sysFork = .ok k' ∧ k'.core.mm = core.mm ∧
      (k'.core.task fill).dirPagesBaseAddr = (core.task fill).dirPagesBaseAddr := by
  have current : core.current = k.core.current := by
    cases Core.forkMemory_forked other done <;> rfl
  have taken : memory (Core.forkMemory fill ((k.dequeue .freequeue fill).setTask fill fun _ => k.core.ct).core) =
      .ok (complete, core) := mapError_ok.mpr done
  simp only [sysFork, first, taken, ok_bind]
  cases complete
  · refine ⟨_, rfl, rfl, ?_⟩
    simp [Core.sysReturn, current, other]
  · refine ⟨_, rfl, ?_, ?_⟩ <;> simp [startChild, Core.sysReturn, Core.nameChild, current, other]

/-- The first free PCB becomes the child. -/
theorem Refines.fork_copies {s : State} {k : Kernel} {fill : Task} {dir : Dir} {heap : Nat} (rep : Refines s k)
    (sound : k.Sound none) (call : k.core.InCall) (positive : 0 < k.core.pidGlobal)
    (spare : s.links.next (.head .freequeue) = .list fill) : fill ≠ k.core.current ∧ (s.Copies fill dir heap ↔
      ∃ complete core child, (k.core.setTask fill fun _ => k.core.ct).forkMemory fill = .ok (complete, core) ∧
        (core.task fill).dirPagesBaseAddr = some child ∧ k.core.mm.Copied core.mm dir child heap) := by
  have ring := Refines.spare rep
  obtain ⟨rest, first⟩ : ∃ rest, k.queues .freequeue = fill :: rest := by
    cases queue : k.queues .freequeue with
    | nil =>
      rw [queue] at ring
      have empty := ring.next_nil
      rw [spare] at empty
      contradiction
    | cons t rest =>
      rw [queue] at ring
      have head := ring.next_cons
      rw [spare] at head
      cases head
      exact ⟨rest, rfl⟩
  obtain ⟨-, other, -, -⟩ := sound.takeFree first call
  have agree := rep.sysFork sound call positive
  refine ⟨other, ?_, ?_⟩
  · rintro ⟨s', child, done, own, copied⟩
    rw [done] at agree
    cases mem : (k.core.setTask fill fun _ => k.core.ct).forkMemory fill with
    | error e =>
      have failed : k.sysFork = .error (.memory e) := by
        have taken : memory (Core.forkMemory fill ((k.dequeue .freequeue fill).setTask fill fun _ => k.core.ct).core) =
            .error (.memory e) := congrArg memory mem
        simp only [Kernel.sysFork, first, taken]
        rfl
      rw [failed] at agree
      exact agree.elim
    | ok result =>
      obtain ⟨complete, core⟩ := result
      obtain ⟨k', done', mm, dirs⟩ := Kernel.sysFork_left first other mem
      rw [done'] at agree
      have same : s'.core = k'.core := Represents.core agree
      rw [same, dirs] at own
      rw [same, mm, rep.core] at copied
      exact ⟨complete, core, child, rfl, own, copied⟩
  · rintro ⟨complete, core, child, mem, own, copied⟩
    obtain ⟨k', done', mm, dirs⟩ := Kernel.sysFork_left first other mem
    rw [done'] at agree
    cases done : s.sysFork with
    | error e =>
      rw [done] at agree
      exact agree.elim
    | ok s' =>
      rw [done] at agree
      have same : s'.core = k'.core := Represents.core agree
      refine ⟨s', child, done, ?_, ?_⟩
      · rw [same, dirs, own]
      · rw [same, mm, rep.core]
        exact copied

/-- A fork that gets its directory and its frames copies the pages of its caller exactly when the
directory is not the one that counts the caller's heap and the windows fit. -/
theorem fork_copies_iff {s : State} {k : Kernel} {fill : Task} {dir zone : Dir} {heap : Nat} (rep : Refines s k)
    (sound : k.Sound none) (call : k.core.InCall) (positive : 0 < k.core.pidGlobal)
    (spare : s.links.next (.head .freequeue) = .list fill) (parent : s.core.Parent dir zone heap)
    (free : s.core.mm.allocateDir.1.isSome) (enough : numPagData + heap ≤ s.core.mm.available) :
    s.Copies fill dir heap ↔ s.core.Copyable dir zone heap := by
  obtain ⟨pos, free⟩ := Option.isSome_iff_exists.mp free
  obtain ⟨other, copies⟩ := rep.fork_copies sound call positive spare
  rw [copies]
  rw [rep.core] at parent free enough ⊢
  constructor
  · rintro ⟨complete, core, child, done, own, copied⟩
    exact parent.copyable other free enough done own copied
  · intro copyable
    obtain ⟨core, done, own, copied⟩ := parent.copied other free enough copyable
    exact ⟨true, core, pos, done, own, copied⟩

/-- A run whose heaps stay below the end of the caller's leaves nothing above it. -/
theorem Core.Below.parent {c : Core} {dir zone : Dir} {heap : Nat} (below : c.Below (pagLogInitHeap + heap))
    (own : c.ct.dirPagesBaseAddr = some dir ∧ c.cr3 = dir ∧ c.ct.myHeap = some zone ∧ c.mm.heapZones zone = heap)
    (mapped : ∀ p ∈ Mm.ownPages heap, (c.mm.pagusrTable dir p).present ∧
      c.mm.physMem (c.mm.pagusrTable dir p).pbaseAddr ≠ .freeFrame) : c.Parent dir zone heap :=
  ⟨own.1, own.2.1, own.2.2.1, own.2.2.2, mapped, fun p above _ => below.tidy.empty dir p above⟩

/-- The state at the end of a run has lists that represent its queues. -/
theorem RunWhere.refines {events : List Event} {s : State} (run : RunWhere (fun s e => s.core.Allowed e) events s) :
    ∃ k, Refines s k ∧ k.Inv := by
  obtain ⟨k, rep, inv, -⟩ := run.invariant Core.Allowed (fun _ => True) (fun _ => trivial)
    (fun _ _ _ _ allowed => allowed) fun _ _ _ _ _ _ _ _ => trivial
  exact ⟨k, rep, inv⟩

/-- `task1` forks with two heap pages. -/
theorem fork_copies_two : ∃ s, RunWhere (fun s e => s.core.Allowed e) [.syscall (.dynMem 2)] s ∧ s.Copies 2 2 2 := by
  obtain ⟨s, run, checked⟩ := executeBoot_run (fun s e => s.core.Allowed e ∧ s.core.Within (pagLogInitHeap + 2) e)
    [.syscall (.dynMem 2)]
    (fun s => (s.core.InUser ∧ s.core.current ≠ idleTask ∧ 0 < s.core.pidGlobal ∧
      s.links.next (.head .freequeue) = .list 2) ∧
      (s.core.ct.dirPagesBaseAddr = some 2 ∧ s.core.cr3 = 2 ∧ s.core.ct.myHeap = some 2 ∧ s.core.mm.heapZones 2 = (2 : Nat)) ∧
      (∀ p ∈ Mm.ownPages 2, (s.core.mm.pagusrTable 2 p).present ∧
        s.core.mm.physMem (s.core.mm.pagusrTable 2 p).pbaseAddr ≠ .freeFrame) ∧
      s.core.mm.allocateDir.1.isSome ∧ numPagData + 2 ≤ s.core.mm.available ∧ s.core.Copyable 2 2 2) (by decide +kernel)
  simp only [decide_eq_true_eq] at run checked
  obtain ⟨⟨user, task, positive, spare⟩, own, mapped, free, enough, copyable⟩ := checked
  have parent := (below_of_within (by decide) (by decide) run).parent own mapped
  have run : RunWhere (fun s e => s.core.Allowed e) [.syscall (.dynMem 2)] s := run.weaken fun _ _ on => on.1
  obtain ⟨k, rep, inv⟩ := run.refines
  rw [rep.core] at user task positive
  exact ⟨s, run, (fork_copies_iff rep inv.toSound (inv.inCall user task) positive spare parent free enough).mpr copyable⟩

/-- The eighth child shares the directory of `task1` and gives it up; then the first one gets a heap page. -/
def sharedGivenUp : List Event :=
  List.replicate 8 (.syscall .fork) ++ [.syscall .block] ++ List.replicate 10 .clock ++
    List.replicate 6 (.syscall .block) ++ [.syscall .exit, .syscall (.dynMem 1)]

/-- The first child forks: the directory of `task1` counts as free, and its zone, which counts the heap
of all of them, is reset. -/
theorem fork_forgets_heap : ∃ s, RunWhere (fun s e => s.core.Allowed e) sharedGivenUp s ∧ s.core.Enabled (.syscall .fork) ∧
    s.links.next (.head .freequeue) = .list 9 ∧ s.core.Parent 3 2 1 ∧ s.core.mm.allocateDir.1.isSome ∧
    numPagData + 1 ≤ s.core.mm.available ∧ ¬ s.Copies 9 3 1 := by
  obtain ⟨s, run, checked⟩ := executeBoot_run (fun s e => s.core.Allowed e ∧ s.core.Within (pagLogInitHeap + 1) e) sharedGivenUp
    (fun s => (s.core.InUser ∧ s.core.current ≠ idleTask ∧ 0 < s.core.pidGlobal ∧
      s.links.next (.head .freequeue) = .list 9) ∧
      (s.core.ct.dirPagesBaseAddr = some 3 ∧ s.core.cr3 = 3 ∧ s.core.ct.myHeap = some 2 ∧ s.core.mm.heapZones 2 = (1 : Nat)) ∧
      (∀ p ∈ Mm.ownPages 1, (s.core.mm.pagusrTable 3 p).present ∧
        s.core.mm.physMem (s.core.mm.pagusrTable 3 p).pbaseAddr ≠ .freeFrame) ∧
      s.core.mm.allocateDir.1 = some 2 ∧ numPagData + 1 ≤ s.core.mm.available) (by decide +kernel)
  simp only [decide_eq_true_eq] at run checked
  obtain ⟨⟨user, task, positive, spare⟩, own, mapped, free, enough⟩ := checked
  have parent := (below_of_within (by decide) (by decide) run).parent own mapped
  have run : RunWhere (fun s e => s.core.Allowed e) sharedGivenUp s := run.weaken fun _ _ on => on.1
  refine ⟨s, run, ⟨user, task, trivial⟩, spare, parent, by rw [free]; rfl, enough, ?_⟩
  obtain ⟨k, rep, inv⟩ := run.refines
  rw [rep.core] at user task positive parent free enough
  obtain ⟨other, copies⟩ := rep.fork_copies inv.toSound (inv.inCall user task) positive spare
  rw [copies]
  rintro ⟨complete, core, child, done, own, copied⟩
  obtain ⟨-, kept, -⟩ := parent.copyable other free enough done own copied
  exact absurd (kept free) (by decide)

end Zeos
