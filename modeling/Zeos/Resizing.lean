import Mathlib.Algebra.Order.BigOperators.Group.List
import Mathlib.Algebra.Order.Group.Int
import Mathlib.Algebra.Ring.Int.Defs
import Zeos.Bounds

/-! `sys_dyn_mem` on one address space: what it maps and what it gives back. -/
namespace Zeos
open Outcome

namespace Mm

variable {mm mm' : Mm} {d : Dir} {base f : Nat} {frames keep drop : List Nat}

/-- The frames are in use, at consecutive pages from `base` on. -/
def mapFrames (d : Dir) (base : Nat) (frames : List Nat) (mm : Mm) : Mm :=
  { mm with
    physMem := fun f => if f ∈ frames then .usedFrame else mm.physMem f
    pagusrTable := Function.update mm.pagusrTable d fun p =>
      if base ≤ p ∧ p < base + frames.length then ⟨frames.getD (p - base) 0, true, true, true⟩ else mm.pagusrTable d p }

/-- The pages are unmapped, and the frames they had are free. -/
def unmapPages (d : Dir) (ps : List Nat) (mm : Mm) : Mm :=
  { mm with
    physMem := fun f => if f ∈ ps.map (fun p => (mm.pagusrTable d p).pbaseAddr) then .freeFrame else mm.physMem f
    pagusrTable := Function.update mm.pagusrTable d fun p => if p ∈ ps then .zero else mm.pagusrTable d p }

/-- Only the frames that `free_frame` frees become free. -/
def releaseFrames (d : Dir) (ps : List Nat) (mm : Mm) : Mm :=
  { mm.unmapPages d ps with
    physMem := fun f => if numPagKernel < f ∧ f < totalPages then (mm.unmapPages d ps).physMem f else mm.physMem f }

/-- The pages from `base` on. -/
def pagesFrom (base n : Nat) : List Nat := (List.range n).map (base + ·)

theorem mem_pagesFrom {p n : Nat} : p ∈ pagesFrom base n ↔ base ≤ p ∧ p < base + n := by
  unfold pagesFrom
  rw [List.mem_map]
  constructor
  · rintro ⟨k, mem, rfl⟩
    have := List.mem_range.mp mem
    omega
  · rintro ⟨low, high⟩
    exact ⟨p - base, List.mem_range.mpr (by omega), by omega⟩

theorem ext_tables (physMem : ∀ f, mm.physMem f = mm'.physMem f) (tables : ∀ d p, mm.pagusrTable d p = mm'.pagusrTable d p)
    (references : mm.dirPagesNumReferences = mm'.dirPagesNumReferences) (zones : mm.heapZones = mm'.heapZones)
    (ram : mm.ram = mm'.ram) : mm = mm' := by
  have physMem := funext physMem
  have tables := funext fun d => funext (tables d)
  cases mm
  cases mm'
  simp_all

theorem mapFrames_table (mm : Mm) (d d' : Dir) (base p : Nat) (frames : List Nat) :
    (mm.mapFrames d base frames).pagusrTable d' p = if d' = d ∧ base ≤ p ∧ p < base + frames.length then
      ⟨frames.getD (p - base) 0, true, true, true⟩ else mm.pagusrTable d' p := by
  simp only [mapFrames, Function.update_apply]
  by_cases here : d' = d <;> simp [here]

theorem releaseFrames_physMem (mm : Mm) (d : Dir) (ps : List Nat) (f : Nat) :
    (mm.releaseFrames d ps).physMem f =
      if numPagKernel < f ∧ f < totalPages ∧ ∃ p ∈ ps, (mm.pagusrTable d p).pbaseAddr = f then .freeFrame
      else mm.physMem f := by
  simp only [releaseFrames, unmapPages, List.mem_map, ← and_assoc]
  by_cases range : numPagKernel < f ∧ f < totalPages <;> simp [range]

theorem releaseFrames_table (mm : Mm) (d d' : Dir) (ps : List Nat) (p : Nat) :
    (mm.releaseFrames d ps).pagusrTable d' p = if d' = d ∧ p ∈ ps then .zero else mm.pagusrTable d' p := by
  simp only [releaseFrames, unmapPages, Function.update_apply]
  by_cases here : d' = d <;> simp [here]

theorem mapFrames_nil (mm : Mm) (d : Dir) (base : Nat) : mm.mapFrames d base [] = mm := by
  apply ext_tables
  · intro f
    simp [mapFrames]
  · intro d' p
    rw [mapFrames_table, if_neg (by simp only [List.length_nil]; omega)]
  all_goals rfl

/-- One more frame. -/
theorem mapFrames_snoc (mm : Mm) (d : Dir) (base : Nat) (frames : List Nat) (f : Nat) :
    ((mm.mapFrames d base frames).setFrame f .usedFrame).setEntry d (base + frames.length) ⟨f, true, true, true⟩ =
      mm.mapFrames d base (frames ++ [f]) := by
  apply ext_tables
  · intro g
    simp only [mapFrames, setEntry, setFrame, Function.update_apply, List.mem_append, List.mem_singleton]
    by_cases same : g = f <;> simp [same]
  · intro d' p
    rw [setEntry_table, mapFrames_table, List.length_append, List.length_singleton]
    show (if _ then _ else (mm.mapFrames d base frames).pagusrTable d' p) = _
    rw [mapFrames_table]
    by_cases here : d' = d
    · subst here
      simp only [true_and]
      by_cases below : base ≤ p ∧ p < base + frames.length
      · rw [if_neg (by omega), if_pos below, if_pos (by omega), List.getD_append _ _ _ _ (by omega)]
      · by_cases last : p = base + frames.length
        · subst last
          simp
        · rw [if_neg last, if_neg below, if_neg (by omega)]
    · simp [here]
  all_goals rfl

theorem freeFrame_physMem (mm : Mm) (g f : Nat) : (mm.freeFrame g).physMem f =
    if numPagKernel < f ∧ f < totalPages ∧ g = f then .freeFrame else mm.physMem f := by
  unfold freeFrame
  by_cases same : g = f
  · subst same
    by_cases range : numPagKernel < g ∧ g < totalPages <;> simp [range, setFrame]
  · split <;> simp [setFrame, same, Ne.symm same]

/-- The loop over the pages of a list. -/
theorem releasePages_eq (ps : List Nat) (inside : ∀ p ∈ ps, p < totalPages) :
    mm.releasePages d (ps.map fun p : Nat => (p : Int)) = .ok (mm.releaseFrames d ps) := by
  induction ps generalizing mm with
  | nil =>
    show Except.ok mm = _
    congr 1
    apply ext_tables
    · intro f
      simp [releaseFrames_physMem]
    · intro d' p
      simp [releaseFrames_table]
    all_goals rfl
  | cons p ps ih =>
    have first : (do let frame ← mm.getFrame d p; (mm.freeFrame frame).delSsPag d p) =
        Except.ok ((mm.freeFrame (mm.pagusrTable d p).pbaseAddr).setEntry d p .zero) :=
      releaseRound_ok.mpr ⟨p, rfl, inside p (List.mem_cons_self ..), rfl⟩
    rw [List.map_cons, releasePages, List.foldlM_cons, first, ok_bind]
    refine (ih fun q mem => inside q (List.mem_cons_of_mem _ mem)).trans (congrArg _ ?_)
    have counts := freeFrame_counts mm (mm.pagusrTable d p).pbaseAddr
    apply ext_tables
    · intro f
      rw [releaseFrames_physMem, releaseFrames_physMem]
      show (if _ then _ else (mm.freeFrame (mm.pagusrTable d p).pbaseAddr).physMem f) = _
      rw [freeFrame_physMem]
      by_cases range : numPagKernel < f ∧ f < totalPages
      · have either : (∃ q ∈ p :: ps, (mm.pagusrTable d q).pbaseAddr = f) ↔
            (∃ q ∈ ps, (((mm.freeFrame (mm.pagusrTable d p).pbaseAddr).setEntry d p .zero).pagusrTable d q).pbaseAddr = f) ∨
              (mm.pagusrTable d p).pbaseAddr = f := by
          constructor
          · rintro ⟨q, mem, same⟩
            by_cases here : q = p
            · exact .inr (here ▸ same)
            · refine .inl ⟨q, (List.mem_cons.mp mem).resolve_left here, ?_⟩
              rw [setEntry_table, if_neg (fun both => here both.2), freeFrame_table]
              exact same
          · rintro (⟨q, mem, same⟩ | same)
            · by_cases here : q = p
              · rw [setEntry_table, if_pos ⟨rfl, here⟩] at same
                have zero : 0 = f := same
                omega
              · rw [setEntry_table, if_neg (fun both => here both.2), freeFrame_table] at same
                exact ⟨q, List.mem_cons_of_mem _ mem, same⟩
            · exact ⟨p, List.mem_cons_self, same⟩
        simp only [range, true_and, either, ite_or]
      · simp only [← and_assoc, range, false_and, if_false]
    · intro d' q
      simp only [releaseFrames_table, setEntry_table, freeFrame_table, List.mem_cons]
      by_cases same : q = p <;> by_cases mem : q ∈ ps <;> by_cases here : d' = d <;> simp [same, mem, here]
    · exact counts.references
    · exact counts.heapZones
    · unfold freeFrame setEntry
      split <;> rfl

/-- All frames become free when `free_frame` accepts them. -/
theorem releaseFrames_eq_iff (mm : Mm) (d : Dir) (ps : List Nat) :
    (mm.releaseFrames d ps).physMem = (mm.unmapPages d ps).physMem ↔ ∀ p ∈ ps,
      mm.physMem (mm.pagusrTable d p).pbaseAddr = .freeFrame ∨
        numPagKernel < (mm.pagusrTable d p).pbaseAddr ∧ (mm.pagusrTable d p).pbaseAddr < totalPages := by
  constructor
  · intro same p mem
    by_contra refused
    obtain ⟨used, out⟩ := not_or.mp refused
    have here := congrFun same (mm.pagusrTable d p).pbaseAddr
    rw [releaseFrames_physMem, if_neg fun range => out ⟨range.1, range.2.1⟩] at here
    simp only [unmapPages] at here
    rw [if_pos (List.mem_map.mpr ⟨p, mem, rfl⟩)] at here
    exact used here
  · intro accepted
    funext f
    rw [releaseFrames_physMem]
    simp only [unmapPages, List.mem_map]
    by_cases held : ∃ p ∈ ps, (mm.pagusrTable d p).pbaseAddr = f
    · rw [if_pos held]
      obtain ⟨p, mem, rfl⟩ := held
      rcases accepted p mem with free | range
      · split
        · rfl
        · exact free
      · exact if_pos ⟨range.1, range.2, p, mem, rfl⟩
    · rw [if_neg held, if_neg fun all => held all.2.2]

/-- Different frames that `alloc_frame` finds free, without the first of its sequence. -/
structure Obtainable (mm : Mm) (frames : List Nat) : Prop where
  nodup : frames.Nodup
  searched : ∀ f ∈ frames, f ∈ searchFrames
  free : ∀ f ∈ frames, mm.physMem f = .freeFrame

/-- The entries of a table from a page on are clear. -/
def ClearFrom (mm : Mm) (d : Dir) (base : Int) : Prop :=
  ∀ p : Nat, base ≤ p → p < totalPages → mm.pagusrTable d p = .zero

/-- The last frames are given back. -/
theorem releaseFrames_mapFrames (obtainable : mm.Obtainable (keep ++ drop)) (first : mm.physMem numPagKernel = .usedFrame)
    (clear : mm.ClearFrom d base) (room : base + (keep ++ drop).length ≤ totalPages) :
    (mm.mapFrames d base (keep ++ drop)).releaseFrames d (pagesFrom (base + keep.length) drop.length) =
      mm.mapFrames d base keep := by
  rw [List.length_append] at room
  apply ext_tables
  · intro f
    have held : (∃ p ∈ pagesFrom (base + keep.length) drop.length,
        ((mm.mapFrames d base (keep ++ drop)).pagusrTable d p).pbaseAddr = f) ↔ f ∈ drop := by
      constructor
      · rintro ⟨p, mem, same⟩
        obtain ⟨low, high⟩ := mem_pagesFrom.mp mem
        rw [mapFrames_table, if_pos ⟨rfl, by omega, by rw [List.length_append]; omega⟩,
          List.getD_append_right _ _ _ _ (by omega)] at same
        have inside : p - base - keep.length < drop.length := by omega
        rw [List.getD_eq_getElem _ _ inside] at same
        exact same ▸ List.getElem_mem inside
      · intro mem
        obtain ⟨k, inside, same⟩ := List.mem_iff_getElem.mp mem
        refine ⟨base + keep.length + k, mem_pagesFrom.mpr ⟨by omega, by omega⟩, ?_⟩
        rw [mapFrames_table, if_pos ⟨rfl, by omega, by rw [List.length_append]; omega⟩,
          List.getD_append_right _ _ _ _ (by omega), show base + keep.length + k - base - keep.length = k by omega,
          List.getD_eq_getElem _ _ inside]
        exact same
    rw [releaseFrames_physMem]
    simp only [held]
    simp only [mapFrames, List.mem_append]
    by_cases dropped : f ∈ drop
    · have free := obtainable.free f (List.mem_append_right _ dropped)
      have range := searchFrames_range (obtainable.searched f (List.mem_append_right _ dropped))
      have other : f ≠ numPagKernel := by
        rintro rfl
        rw [first] at free
        contradiction
      have apart : f ∉ keep := fun kept => (List.nodup_append.mp obtainable.nodup).2.2 f kept f dropped rfl
      rw [if_pos ⟨by omega, range.2, dropped⟩, if_neg apart, free]
    · rw [if_neg (fun all => dropped all.2.2)]
      simp [dropped]
  · intro d' p
    simp only [releaseFrames_table, mapFrames_table, mem_pagesFrom, List.length_append]
    by_cases here : d' = d
    · subst here
      simp only [true_and]
      by_cases kept : base ≤ p ∧ p < base + keep.length
      · rw [if_neg (by omega), if_pos (by omega), if_pos kept, List.getD_append _ _ _ _ (by omega)]
      · rw [if_neg kept]
        by_cases dropped : base + keep.length ≤ p ∧ p < base + keep.length + drop.length
        · rw [if_pos dropped, clear p (by omega) (by omega)]
        · rw [if_neg dropped, if_neg (by omega)]
    · simp [here]
  all_goals rfl

/-- All frames are given back. -/
theorem releaseFrames_all (obtainable : mm.Obtainable frames) (first : mm.physMem numPagKernel = .usedFrame)
    (clear : mm.ClearFrom d base) (room : base + frames.length ≤ totalPages) :
    (mm.mapFrames d base frames).releaseFrames d (pagesFrom base frames.length) = mm := by
  have all : (mm.mapFrames d base ([] ++ frames)).releaseFrames d (pagesFrom base frames.length) = mm.mapFrames d base [] :=
    releaseFrames_mapFrames obtainable first clear room
  rwa [mapFrames_nil] at all

/-- The loop of `sys_dyn_mem` that undoes the growing. -/
theorem undo_eq {heap : Int} {js : List Nat} (start : pagLogInitHeap + heap = (base : Int)) (nodup : js.Nodup)
    (inside : ∀ j ∈ js, base + j < totalPages)
    (placed : ∀ j ∈ js, (mm.pagusrTable d (base + j)).pbaseAddr = frames.getD j 0) :
    js.foldlM (fun mm (j : Nat) =>
      (mm.freeFrame (frames.getD j 0)).delSsPag d (pagLogInitHeap + heap + (j : Int))) mm =
    mm.releasePages d ((js.map (base + ·)).map fun p : Nat => (p : Int)) := by
  induction js generalizing mm with
  | nil => rfl
  | cons j js ih =>
    obtain ⟨absent, nodup⟩ := List.nodup_cons.mp nodup
    have low := inside j (List.mem_cons_self ..)
    have freed : (do let frame ← mm.getFrame d (base + j : Nat); (mm.freeFrame frame).delSsPag d (base + j : Nat)) =
        Except.ok ((mm.freeFrame (mm.pagusrTable d (base + j)).pbaseAddr).setEntry d (base + j) .zero) :=
      releaseRound_ok.mpr ⟨base + j, rfl, low, rfl⟩
    have undone : (mm.freeFrame (frames.getD j 0)).delSsPag d (pagLogInitHeap + heap + (j : Int)) =
        .ok ((mm.freeFrame (mm.pagusrTable d (base + j)).pbaseAddr).setEntry d (base + j) .zero) := by
      rw [placed j (List.mem_cons_self ..)]
      exact delSsPag_ok.mpr ⟨base + j, by rw [start]; push_cast; rfl, low, rfl⟩
    rw [List.foldlM_cons, undone, List.map_cons, List.map_cons, releasePages, List.foldlM_cons, freed]
    refine ih nodup (fun i mem => inside i (List.mem_cons_of_mem _ mem)) fun i mem => ?_
    have other : i ≠ j := fun same => absent (same ▸ mem)
    rw [setEntry_table, if_neg (by omega), freeFrame_table]
    exact placed i (List.mem_cons_of_mem _ mem)

/-- The growing loop, when the frames it obtains fit into the table: it maps all it was asked
for, or leaves everything as it was. -/
theorem growHeap_eq {heap : Int} (start : pagLogInitHeap + heap = (base : Int)) (clear : mm.ClearFrom d base)
    (first : mm.physMem numPagKernel = .usedFrame) (n : Nat) (obtainable : mm.Obtainable frames)
    (room : base + frames.length + min n (mm.mapFrames d base frames).available ≤ totalPages) :
    if n ≤ (mm.mapFrames d base frames).available then
      ∃ all, all.length = frames.length + n ∧ mm.Obtainable all ∧
        growHeap d heap n frames (mm.mapFrames d base frames) = .ok (true, mm.mapFrames d base all)
    else growHeap d heap n frames (mm.mapFrames d base frames) = .ok (false, mm) := by
  induction n generalizing frames with
  | zero =>
    rw [if_pos (Nat.zero_le _)]
    exact ⟨frames, rfl, obtainable, rfl⟩
  | succ n ih =>
    rcases got : (mm.mapFrames d base frames).allocFrame with ⟨_ | f, taken⟩
    · obtain ⟨rfl, -⟩ := allocFrame_none got
      rw [available_none got] at room ⊢
      have placed : ∀ j ∈ List.range frames.length,
          ((mm.mapFrames d base frames).pagusrTable d (base + j)).pbaseAddr = frames.getD j 0 := by
        intro j mem
        have := List.mem_range.mp mem
        rw [mapFrames_table, if_pos ⟨rfl, by omega, by omega⟩, Nat.add_sub_cancel_left]
      have undone := undo_eq start List.nodup_range
        (fun j mem => by have := List.mem_range.mp mem; omega) placed
      have gone : (mm.mapFrames d base frames).releasePages d
          (((List.range frames.length).map (base + ·)).map fun p : Nat => (p : Int)) = .ok mm := by
        rw [releasePages_eq _ fun p mem => by have := mem_pagesFrom.mp mem; omega]
        exact congrArg _ (releaseFrames_all obtainable first clear (by omega))
      rw [if_neg (by omega)]
      simp only [growHeap, got, undone, gone, ok_bind]
      rfl
    · obtain ⟨searched, free, rfl⟩ := allocFrame_some got
      have fewer := available_take got
      have absent : f ∉ frames := by
        intro mem
        simp [mapFrames, mem] at free
      have more : mm.Obtainable (frames ++ [f]) := by
        refine ⟨List.nodup_append.mpr ⟨obtainable.nodup, List.nodup_singleton f, ?_⟩, ?_, ?_⟩
        · rintro g mem h single rfl
          exact absent (List.mem_singleton.mp single ▸ mem)
        · intro g mem
          rcases List.mem_append.mp mem with mem | single
          · exact obtainable.searched g mem
          · exact List.mem_singleton.mp single ▸ searched
        · intro g mem
          rcases List.mem_append.mp mem with mem | single
          · exact obtainable.free g mem
          · rw [List.mem_singleton.mp single]
            simpa [mapFrames, absent] using free
      have next := mapFrames_snoc mm d base frames f
      have same : (mm.mapFrames d base (frames ++ [f])).available =
          ((mm.mapFrames d base frames).setFrame f .usedFrame).available := by
        rw [← next]
        rfl
      have set : ((mm.mapFrames d base frames).setFrame f .usedFrame).setSsPag d
          (pagLogInitHeap + heap + (frames.length : Int)) f = .ok (mm.mapFrames d base (frames ++ [f])) :=
        setSsPag_ok.mpr ⟨base + frames.length, by rw [start]; push_cast; rfl, by omega, next.symm⟩
      have rest := ih more (by rw [same, List.length_append, List.length_singleton]; omega)
      simp only [growHeap, got, set, ok_bind]
      by_cases enough : n ≤ (mm.mapFrames d base (frames ++ [f])).available
      · rw [if_pos enough] at rest
        obtain ⟨all, length, obtained, done⟩ := rest
        rw [if_pos (by omega)]
        refine ⟨all, ?_, obtained, done⟩
        rw [length, List.length_append, List.length_singleton]
        omega
      · rw [if_neg enough] at rest
        rw [if_neg (by omega)]
        exact rest

/-- A heap that ends outside its table gets no page. -/
theorem growHeap_outside {heap : Int} {n : Nat} (some : 0 < n) (free : 0 < mm.available)
    (out : ¬ (0 ≤ pagLogInitHeap + heap ∧ pagLogInitHeap + heap < totalPages)) :
    growHeap d heap n [] mm = .error .outside := by
  obtain ⟨n, rfl⟩ : ∃ m, n = m + 1 := ⟨n - 1, by omega⟩
  rcases got : mm.allocFrame with ⟨_ | f, taken⟩
  · have := available_none got
    omega
  · simp only [growHeap, got, setSsPag]
    rw [pageIndex_outside (by simpa using out)]
    rfl

end Mm

namespace Core

variable {c : Core} {dir zone : Dir} {numPags : Int}

/-- `frames` of `sys_dyn_mem` fits on the kernel stack, and the frames that it can obtain have
their pages inside the table. -/
def HasRoom (c : Core) (zone : Dir) (numPags : Int) : Prop :=
  numPags ≤ stackFrames ∧ (c.mm.available = 0 ∨ 0 ≤ pagLogInitHeap + c.mm.heapZones zone ∧
    pagLogInitHeap + c.mm.heapZones zone + (min numPags.toNat c.mm.available : Nat) ≤ totalPages)

instance : Decidable (c.HasRoom zone numPags) := inferInstanceAs (Decidable (_ ∧ (_ ∨ _ ∧ _)))

/-- `sys_dyn_mem(num_pags)` maps frames that were free at the pages behind the heap and returns the
old break, or it reports -ENOMEM and has changed nothing. -/
def Grows (c : Core) (dir zone : Dir) (numPags : Int) : Prop :=
  (∃ frames : List Nat, ∃ base : Nat, frames.length = numPags ∧ base = pagLogInitHeap + c.mm.heapZones zone ∧
    frames.Nodup ∧ (∀ f ∈ frames, c.mm.physMem f = .freeFrame) ∧
    c.sysDynMem numPags = .ok ({ c with
      mm := (c.mm.mapFrames dir base frames).setHeapZone zone (c.mm.heapZones zone + numPags) }.sysReturn
        (some ((pagLogInitHeap + c.mm.heapZones zone) * pageSize)))) ∨
  c.sysDynMem numPags = .ok (c.sysReturn (some (-eNOMEM)))

section
variable (own : c.ct.dirPagesBaseAddr = some dir) (heap : c.ct.myHeap = some zone)
include own heap

theorem sysDynMem_grow (positive : 0 < numPags) (fits : numPags ≤ stackFrames) : c.sysDynMem numPags = do
    let (done, mm) ← c.mm.growHeap dir (c.mm.heapZones zone) numPags.toNat []
    if done then
      return { c with mm := mm.setHeapZone zone (c.mm.heapZones zone + numPags) }.sysReturn
        (some ((pagLogInitHeap + c.mm.heapZones zone) * pageSize))
    else return { c with mm }.sysReturn (some (-eNOMEM)) := by
  unfold sysDynMem
  rw [pointer_ok.mpr heap, ok_bind, pointer_ok.mpr own, ok_bind, if_neg (by omega), if_pos positive, if_neg (Int.not_lt.mpr fits)]

/-- An array that is too large for the kernel stack. -/
theorem sysDynMem_deep (deep : stackFrames < numPags) : c.sysDynMem numPags = .error .outside := by
  have room : (stackFrames : Int) = 968 := rfl
  unfold sysDynMem
  rw [pointer_ok.mpr heap, ok_bind, pointer_ok.mpr own, ok_bind, if_neg (by omega), if_pos (by omega), if_pos deep]

/-- The three ways in which `sys_dyn_mem` ends for a positive request. -/
theorem sysDynMem_grow_cases (clear : c.mm.ClearFrom dir (pagLogInitHeap + c.mm.heapZones zone))
    (first : c.mm.physMem numPagKernel = .usedFrame) (positive : 0 < numPags) :
    (¬ c.HasRoom zone numPags ∧ c.sysDynMem numPags = .error .outside) ∨
    (c.HasRoom zone numPags ∧ c.sysDynMem numPags = .ok (c.sysReturn (some (-eNOMEM)))) ∨
    (c.HasRoom zone numPags ∧ ∃ frames : List Nat, ∃ base : Nat, frames.length = numPags ∧
      base = pagLogInitHeap + c.mm.heapZones zone ∧ base + frames.length ≤ totalPages ∧ c.mm.Obtainable frames ∧
      c.sysDynMem numPags = .ok ({ c with
        mm := (c.mm.mapFrames dir base frames).setHeapZone zone (c.mm.heapZones zone + numPags) }.sysReturn
          (some ((pagLogInitHeap + c.mm.heapZones zone) * pageSize)))) := by
  by_cases fits : numPags ≤ stackFrames
  case neg => exact .inl ⟨fun room => fits room.1, sysDynMem_deep own heap (Int.not_le.mp fits)⟩
  have start := sysDynMem_grow own heap positive fits
  by_cases room : c.HasRoom zone numPags
  · refine .inr ?_
    by_cases none : c.mm.available = 0
    · refine .inl ⟨room, ?_⟩
      obtain ⟨n, positive⟩ : ∃ n, numPags.toNat = n + 1 := ⟨numPags.toNat - 1, by omega⟩
      rcases got : c.mm.allocFrame with ⟨_ | f, taken⟩
      · obtain ⟨rfl, -⟩ := Mm.allocFrame_none got
        rw [start, positive]
        simp only [Mm.growHeap, got]
        rfl
      · have := Mm.available_take got
        omega
    · obtain ⟨low, fits⟩ := room.2.resolve_left none
      obtain ⟨base, place⟩ := Int.eq_ofNat_of_zero_le low
      have nothing : c.mm.mapFrames dir base [] = c.mm := Mm.mapFrames_nil _ _ _
      have none : c.mm.Obtainable [] := ⟨List.nodup_nil, by simp, by simp⟩
      have grown := Mm.growHeap_eq place (place ▸ clear) first numPags.toNat none
        (by rw [nothing, List.length_nil]; omega)
      rw [nothing] at grown
      by_cases enough : numPags.toNat ≤ c.mm.available
      · rw [if_pos enough] at grown
        obtain ⟨all, length, obtained, done⟩ := grown
        rw [List.length_nil] at length
        refine .inr ⟨room, all, base, by omega, place.symm, by omega, obtained, ?_⟩
        rw [start, done]
        rfl
      · rw [if_neg enough] at grown
        refine .inl ⟨room, ?_⟩
        rw [start, grown]
        rfl
  · refine .inl ⟨room, ?_⟩
    obtain ⟨free, cramped⟩ := not_or.mp fun inside => room ⟨fits, inside⟩
    have faults : c.mm.growHeap dir (c.mm.heapZones zone) numPags.toNat [] = .error .outside := by
      by_cases inside : 0 ≤ pagLogInitHeap + c.mm.heapZones zone ∧ pagLogInitHeap + c.mm.heapZones zone ≤ totalPages
      · have outside : ¬ Mm.Inside (c.mm.growHeap dir (c.mm.heapZones zone) numPags.toNat []) := by
          rw [Mm.growHeap_inside_iff inside.1 (by simpa using inside.2)]
          intro fits
          exact cramped ⟨inside.1, by simpa using fits⟩
        unfold Mm.Inside Fails at outside
        push Not at outside
        obtain ⟨e, failed, rfl⟩ := outside
        exact failed
      · exact Mm.growHeap_outside (by omega) (by omega) (by omega)
    rw [start, faults]
    rfl

/-- The growth of a heap is all or nothing exactly when it stays inside the kernel stack and the
table. -/
theorem sysDynMem_grows_iff (clear : c.mm.ClearFrom dir (pagLogInitHeap + c.mm.heapZones zone))
    (first : c.mm.physMem numPagKernel = .usedFrame) (positive : 0 < numPags) :
    c.Grows dir zone numPags ↔ c.HasRoom zone numPags := by
  rcases sysDynMem_grow_cases own heap clear first positive with
    ⟨cramped, faults⟩ | ⟨room, refused⟩ | ⟨room, frames, base, length, place, -, obtained, done⟩
  · refine iff_of_false (fun grows => ?_) cramped
    rcases grows with ⟨frames, base, -, -, -, -, done⟩ | done <;> rw [faults] at done <;> contradiction
  · exact iff_of_true (.inr refused) room
  · exact iff_of_true (.inl ⟨frames, base, length, place, obtained.nodup, obtained.free, done⟩) room

end

/-- The heap of `task1` behind boot is empty, and nothing lies above it. -/
theorem booted_clear : booted.core.mm.ClearFrom rootDir (pagLogInitHeap + booted.core.mm.heapZones rootDir) := by
  have start : (pagLogInitHeap : Int) + booted.core.mm.heapZones rootDir = 284 := by decide +kernel
  have above : ∀ p : Fin totalPages, 284 ≤ p.val → booted.core.mm.pagusrTable rootDir p = .zero := by decide +kernel
  intro p low high
  exact above ⟨p, high⟩ (by show 284 ≤ p; omega)

theorem sysDynMem_grows_first : booted.core.Grows rootDir rootDir 2 := by
  have room : booted.core.HasRoom rootDir 2 := by decide +kernel
  have first : booted.core.mm.physMem numPagKernel = .usedFrame := by decide +kernel
  exact (sysDynMem_grows_iff (by decide +kernel) (by decide +kernel) booted_clear first (by decide)).mpr room

/-- The counter of the heap has passed the table while other tasks that share it came and went. -/
def worn : Core := { booted.core with mm := booted.core.mm.setHeapZone rootDir 740 }

theorem sysDynMem_beyond_table : worn.ct.dirPagesBaseAddr = some rootDir ∧ worn.ct.myHeap = some rootDir ∧
    worn.mm.ClearFrom rootDir (pagLogInitHeap + worn.mm.heapZones rootDir) ∧
    worn.mm.physMem numPagKernel = .usedFrame ∧ ¬ worn.Grows rootDir rootDir 1 := by
  have own : worn.ct.dirPagesBaseAddr = some rootDir := by decide +kernel
  have heap : worn.ct.myHeap = some rootDir := by decide +kernel
  have counter : worn.mm.heapZones rootDir = 740 := by decide +kernel
  refine ⟨own, heap, fun p low high => ?_, by decide +kernel, fun grows => ?_⟩
  · rw [counter] at low
    have : (pagLogInitHeap : Int) = 284 ∧ totalPages = 1024 := ⟨rfl, rfl⟩
    omega
  · have faults : worn.mm.growHeap rootDir (worn.mm.heapZones rootDir) 1 [] = .error .outside :=
      Mm.growHeap_outside (by decide) (by decide +kernel) (by rw [counter]; decide)
    have positive : (0 : Int) < 1 := by decide
    have start := sysDynMem_grow own heap positive (by decide)
    rw [show (1 : Int).toNat = 1 from rfl, faults] at start
    rcases grows with ⟨frames, base, -, -, -, -, done⟩ | done <;> rw [start] at done <;> contradiction

/-- The pages that `sys_dyn_mem(num_pags)` gives back for a negative `num_pags`. -/
def lastPages (c : Core) (zone : Dir) (numPags : Int) : List Nat :=
  Mm.pagesFrom (pagLogInitHeap + c.mm.heapZones zone + numPags).toNat (-numPags).toNat

/-- `sys_dyn_mem(num_pags)` refuses to give back more pages than the heap has, and else gives back
its last pages and returns the new break. -/
def Shrinks (c : Core) (dir zone : Dir) (numPags : Int) : Prop :=
  if c.mm.heapZones zone < -numPags then c.sysDynMem numPags = .ok (c.sysReturn (some (-eINVAL)))
  else c.sysDynMem numPags = .ok ({ c with
    mm := (c.mm.unmapPages dir (c.lastPages zone numPags)).setHeapZone zone (c.mm.heapZones zone + numPags)
    cr3 := dir }.sysReturn (some ((pagLogInitHeap + (c.mm.heapZones zone + numPags)) * pageSize)))

/-- The number of pages has a negation, and `free_frame` accepts the frames that are in use. -/
def Returnable (c : Core) (dir zone : Dir) (numPags : Int) : Prop :=
  numPags ≠ -2147483648 ∧ (c.mm.heapZones zone < -numPags ∨ ∀ p ∈ c.lastPages zone numPags,
    c.mm.physMem (c.mm.pagusrTable dir p).pbaseAddr = .freeFrame ∨
      numPagKernel < (c.mm.pagusrTable dir p).pbaseAddr ∧ (c.mm.pagusrTable dir p).pbaseAddr < totalPages)

section
variable (own : c.ct.dirPagesBaseAddr = some dir) (heap : c.ct.myHeap = some zone)
include own heap

theorem sysDynMem_shrink (negative : numPags < 0) : c.sysDynMem numPags =
    if c.mm.heapZones zone < int32 (numPags * -1) then .ok (c.sysReturn (some (-eINVAL)))
    else do
      let mm ← c.mm.releasePages dir (Mm.pages
        (int32 (pagLogInitHeap + c.mm.heapZones zone - int32 (numPags * -1))) (pagLogInitHeap + c.mm.heapZones zone))
      return { c with mm := mm.setHeapZone zone (c.mm.heapZones zone - int32 (numPags * -1)), cr3 := dir }.sysReturn
        (some ((pagLogInitHeap + (c.mm.heapZones zone - int32 (numPags * -1))) * pageSize)) := by
  unfold sysDynMem
  rw [pointer_ok.mpr heap, ok_bind, pointer_ok.mpr own, ok_bind, if_neg (by omega), if_neg (by omega)]
  rfl

/-- Pages of the heap are given back. -/
theorem sysDynMem_release (negative : numPags < 0) (least : -2147483648 < numPags)
    (enough : -numPags ≤ c.mm.heapZones zone) (inside : pagLogInitHeap + c.mm.heapZones zone ≤ totalPages) :
    c.sysDynMem numPags = .ok ({ c with
      mm := (c.mm.releaseFrames dir (c.lastPages zone numPags)).setHeapZone zone (c.mm.heapZones zone + numPags)
      cr3 := dir }.sysReturn (some ((pagLogInitHeap + (c.mm.heapZones zone + numPags)) * pageSize))) := by
  have start : (pagLogInitHeap : Int) = 284 ∧ (totalPages : Int) = 1024 := ⟨rfl, rfl⟩
  have negated : int32 (numPags * -1) = -numPags := by rw [int32_of_range (by omega) (by omega)]; omega
  have range : Mm.pages (pagLogInitHeap + c.mm.heapZones zone - -numPags) (pagLogInitHeap + c.mm.heapZones zone) =
      (c.lastPages zone numPags).map fun p : Nat => (p : Int) := by
    unfold Mm.pages lastPages Mm.pagesFrom
    rw [List.map_map, show pagLogInitHeap + c.mm.heapZones zone - (pagLogInitHeap + c.mm.heapZones zone - -numPags) =
      -numPags by omega]
    apply List.map_congr_left
    intro k _
    show _ = (((pagLogInitHeap + c.mm.heapZones zone + numPags).toNat + k : Nat) : Int)
    omega
  have released : c.mm.releasePages dir ((c.lastPages zone numPags).map fun p : Nat => (p : Int)) =
      .ok (c.mm.releaseFrames dir (c.lastPages zone numPags)) := by
    apply Mm.releasePages_eq
    intro p mem
    have := Mm.mem_pagesFrom.mp mem
    omega
  rw [sysDynMem_shrink own heap negative, negated, if_neg (by omega), int32_of_range (by omega) (by omega), range, released,
    ok_bind, show c.mm.heapZones zone - -numPags = c.mm.heapZones zone + numPags by omega]
  rfl

/-- The smallest `int` has no negation. -/
theorem sysDynMem_least (low : 0 ≤ c.mm.heapZones zone) (inside : pagLogInitHeap + c.mm.heapZones zone ≤ totalPages) :
    c.sysDynMem (-2147483648) = .error .outside := by
  have start : (pagLogInitHeap : Int) = 284 ∧ (totalPages : Int) = 1024 := ⟨rfl, rfl⟩
  have shrink := sysDynMem_shrink own heap (by decide : (-2147483648 : Int) < 0)
  have negated : int32 (-2147483648 * -1) = -2147483648 := by decide
  have wrapped : int32 (pagLogInitHeap + c.mm.heapZones zone - -2147483648) =
      pagLogInitHeap + c.mm.heapZones zone - 2147483648 := by
    unfold int32
    rw [Int.bmod_def]
    omega
  have below : pagLogInitHeap + c.mm.heapZones zone - 2147483648 < pagLogInitHeap + c.mm.heapZones zone := by omega
  obtain ⟨rest, first⟩ := Mm.pages_cons below
  rw [negated, if_neg (by omega), wrapped, first, Mm.releasePages_outside (by omega)] at shrink
  exact shrink

/-- The heap loses its last pages exactly when the request has a negation and `free_frame` accepts
the frames. -/
theorem sysDynMem_shrinks_iff (low : 0 ≤ c.mm.heapZones zone)
    (mapped : ∀ p : Nat, pagLogInitHeap ≤ p → (p : Int) < pagLogInitHeap + c.mm.heapZones zone →
      p < totalPages ∧ (c.mm.pagusrTable dir p).present)
    (int : IsInt numPags) (negative : numPags < 0) :
    c.Shrinks dir zone numPags ↔ c.Returnable dir zone numPags := by
  have start : (pagLogInitHeap : Int) = 284 ∧ (totalPages : Int) = 1024 := ⟨rfl, rfl⟩
  have inside : pagLogInitHeap + c.mm.heapZones zone ≤ totalPages := by
    by_contra beyond
    have here := mapped totalPages (by decide) (by omega)
    exact absurd here.1 (Nat.lt_irrefl _)
  have shrink := sysDynMem_shrink own heap negative
  obtain ⟨least, _⟩ := int
  unfold Shrinks Returnable
  by_cases smallest : numPags = -2147483648
  · subst smallest
    rw [if_pos (by omega), sysDynMem_least own heap low inside]
    exact iff_of_false (fun done => by contradiction) fun other => other.1 rfl
  · have negated : int32 (numPags * -1) = -numPags := by rw [int32_of_range (by omega) (by omega)]; omega
    rw [negated] at shrink
    by_cases more : c.mm.heapZones zone < -numPags
    · rw [if_pos more, shrink, if_pos more]
      exact iff_of_true rfl ⟨smallest, .inl more⟩
    · have done := sysDynMem_release own heap negative (by omega) (by omega) inside
      have accepted_iff := c.mm.releaseFrames_eq_iff dir (c.lastPages zone numPags)
      rw [if_neg more, done]
      constructor
      · intro same
        have physMem := congrArg (fun c : Core => c.mm.physMem) (Except.ok.inj same)
        exact ⟨smallest, .inr (accepted_iff.mp physMem)⟩
      · rintro ⟨-, accepted⟩
        have physMem := accepted_iff.mpr (accepted.resolve_left more)
        have same : c.mm.releaseFrames dir (c.lastPages zone numPags) = c.mm.unmapPages dir (c.lastPages zone numPags) :=
          Mm.ext_tables (congrFun physMem) (fun _ _ => rfl) rfl rfl rfl
        rw [same]

end

instance : Decidable (c.Returnable dir zone numPags) := inferInstanceAs (Decidable (_ ∧ (_ ∨ _)))

/-- Behind a growth from `c₀` on, of which the frames `keep` are left. -/
structure Kept (c₀ c : Core) (dir zone : Dir) (base : Nat) (keep : List Nat) : Prop where
  own : c.ct.dirPagesBaseAddr = some dir
  heap : c.ct.myHeap = some zone
  mm : c.mm = (c₀.mm.mapFrames dir base keep).setHeapZone zone (c₀.mm.heapZones zone + keep.length)

section
variable {c₀ : Core} {base : Nat} {keep : List Nat}
variable (place : (base : Int) = pagLogInitHeap + c₀.mm.heapZones zone) (low : 0 ≤ c₀.mm.heapZones zone)
  (clear : c₀.mm.ClearFrom dir base) (first : c₀.mm.physMem numPagKernel = .usedFrame)
include place low clear first

/-- One call gives the last frames back. -/
theorem Kept.giveBack (kept : c₀.Kept c dir zone base keep) (obtainable : c₀.mm.Obtainable keep)
    (room : base + keep.length ≤ totalPages) (negative : numPags < 0) (enough : -numPags ≤ keep.length) :
    ∃ c', c.sysDynMem numPags = .ok c' ∧ c₀.Kept c' dir zone base (keep.take (keep.length + numPags).toNat) := by
  have start : (pagLogInitHeap : Int) = 284 ∧ (totalPages : Int) = 1024 := ⟨rfl, rfl⟩
  have counter : c.mm.heapZones zone = c₀.mm.heapZones zone + keep.length := by
    rw [kept.mm]
    simp [Mm.setHeapZone]
  have done := sysDynMem_release kept.own kept.heap negative (by omega) (by omega) (by omega)
  have split := List.take_append_drop (keep.length + numPags).toNat keep
  have left : (keep.take (keep.length + numPags).toNat).length = keep.length + numPags := by
    rw [List.length_take]
    omega
  have gone : (keep.drop (keep.length + numPags).toNat).length = (-numPags).toNat := by
    rw [List.length_drop]
    omega
  have last : c.lastPages zone numPags = Mm.pagesFrom (base + (keep.take (keep.length + numPags).toNat).length)
      (keep.drop (keep.length + numPags).toNat).length := by
    rw [gone, lastPages, counter]
    congr 1
    omega
  rw [← split] at obtainable room
  have released := Mm.releaseFrames_mapFrames obtainable first clear room
  rw [split] at released
  refine ⟨_, done, ?_, ?_, ?_⟩
  · simpa [sysReturn, ct] using kept.own
  · simpa [sysReturn, ct] using kept.heap
  · show (c.mm.releaseFrames dir (c.lastPages zone numPags)).setHeapZone zone (c.mm.heapZones zone + numPags) = _
    rw [counter, left, last, kept.mm, ← released]
    apply Mm.ext_tables
    · exact fun _ => rfl
    · exact fun _ _ => rfl
    · rfl
    · show Function.update (Function.update c₀.mm.heapZones zone _) zone _ = Function.update c₀.mm.heapZones zone _
      rw [Function.update_idem, Int.add_assoc]
    · rfl

/-- Calls that add up to all frames give all of them back. -/
theorem Kept.giveAll {parts : List Int} (negative : ∀ m ∈ parts, m < 0) (total : parts.sum = -(keep.length : Int))
    (kept : c₀.Kept c dir zone base keep) (obtainable : c₀.mm.Obtainable keep) (room : base + keep.length ≤ totalPages) :
    ∃ c', parts.foldlM (fun c m => c.sysDynMem m) c = .ok c' ∧ c₀.Kept c' dir zone base [] := by
  induction parts generalizing c keep with
  | nil =>
    have none : keep = [] := List.eq_nil_of_length_eq_zero (by simpa using total.symm)
    exact ⟨c, rfl, none ▸ kept⟩
  | cons m parts ih =>
    rw [List.sum_cons] at total
    have rest : parts.sum ≤ parts.length • 0 := List.sum_le_card_nsmul parts 0 fun m mem => by
      have := negative m (List.mem_cons_of_mem _ mem)
      omega
    rw [nsmul_zero] at rest
    have here := negative m (List.mem_cons_self ..)
    obtain ⟨c', done, kept⟩ := kept.giveBack place low clear first obtainable room here (by omega)
    have left : ((keep.take (keep.length + m).toNat).length : Int) = keep.length + m := by
      rw [List.length_take]
      omega
    have fewer : c₀.mm.Obtainable (keep.take (keep.length + m).toNat) :=
      ⟨obtainable.nodup.sublist (List.take_sublist _ _), fun f mem => obtainable.searched f (List.mem_of_mem_take mem),
        fun f mem => obtainable.free f (List.mem_of_mem_take mem)⟩
    obtain ⟨c'', rest, all⟩ := ih (fun m mem => negative m (List.mem_cons_of_mem _ mem)) (by omega) kept fewer (by omega)
    refine ⟨c'', ?_, all⟩
    rw [List.foldlM_cons, done, ok_bind]
    exact rest

end

section
variable (own : c.ct.dirPagesBaseAddr = some dir) (heap : c.ct.myHeap = some zone)
include own heap

/-- `dyn_mem(0)`. -/
theorem sysDynMem_zero : c.sysDynMem 0 = .ok (c.sysReturn (some ((pagLogInitHeap + c.mm.heapZones zone) * pageSize))) := by
  unfold sysDynMem
  rw [pointer_ok.mpr heap, ok_bind, pointer_ok.mpr own, ok_bind, if_pos rfl]
  rfl

/-- Growing by `num_pags` and giving as many pages back, in any parts, changes nothing. -/
theorem sysDynMem_restores (low : 0 ≤ c.mm.heapZones zone)
    (clear : c.mm.ClearFrom dir (pagLogInitHeap + c.mm.heapZones zone)) (first : c.mm.physMem numPagKernel = .usedFrame)
    (positive : 0 < numPags) {c' : Core} (done : c.sysDynMem numPags = .ok c') (succeeded : c'.ct.eax ≠ some (-eNOMEM))
    {parts : List Int} (negative : ∀ m ∈ parts, m < 0) (total : parts.sum = -numPags) :
    ∃ c'', parts.foldlM (fun c m => c.sysDynMem m) c' = .ok c'' ∧ c''.mm = c.mm ∧
      ∃ brk, c.sysDynMem 0 = .ok (c.sysReturn (some brk)) ∧ c''.sysDynMem 0 = .ok (c''.sysReturn (some brk)) := by
  rcases sysDynMem_grow_cases own heap clear first positive with
    ⟨-, faults⟩ | ⟨-, refused⟩ | ⟨-, frames, base, length, place, room, obtained, grown⟩
  · rw [faults] at done
    contradiction
  · rw [refused] at done
    obtain rfl := Except.ok.inj done
    exact absurd (by simp [sysReturn, ct]) succeeded
  · rw [grown] at done
    obtain rfl := Except.ok.inj done
    have kept : c.Kept ({ c with
        mm := (c.mm.mapFrames dir base frames).setHeapZone zone (c.mm.heapZones zone + numPags) }.sysReturn
        (some ((pagLogInitHeap + c.mm.heapZones zone) * pageSize))) dir zone base frames := by
      refine ⟨?_, ?_, ?_⟩
      · simpa [sysReturn, ct] using own
      · simpa [sysReturn, ct] using heap
      · rw [length]
        rfl
    rw [← place] at clear
    obtain ⟨c'', back, all⟩ := kept.giveAll place low clear first negative (by omega) obtained room
    have same : c''.mm = c.mm := by
      rw [all.mm, Mm.mapFrames_nil]
      simp [Mm.setHeapZone]
    refine ⟨c'', back, same, _, sysDynMem_zero own heap, ?_⟩
    rw [← same]
    exact sysDynMem_zero all.own all.heap

end

/-- Three pages, given back in two parts. -/
theorem sysDynMem_restores_three : ∃ c' c'', booted.core.sysDynMem 3 = .ok c' ∧
    [-1, -2].foldlM (fun c m => c.sysDynMem m) c' = .ok c'' ∧ c''.mm = booted.core.mm := by
  have checked : (booted.core.sysDynMem 3).toOption.any (fun c => c.ct.eax ≠ some (-eNOMEM)) = true := by decide +kernel
  have own : booted.core.ct.dirPagesBaseAddr = some rootDir := by decide +kernel
  have heap : booted.core.ct.myHeap = some rootDir := by decide +kernel
  have low : 0 ≤ booted.core.mm.heapZones rootDir := by decide +kernel
  have first : booted.core.mm.physMem numPagKernel = .usedFrame := by decide +kernel
  cases done : booted.core.sysDynMem 3 with
  | error e =>
    rw [done] at checked
    contradiction
  | ok c' =>
    rw [done] at checked
    have succeeded : c'.ct.eax ≠ some (-eNOMEM) := of_decide_eq_true checked
    have total : ([-1, -2] : List Int).sum = -3 := by decide
    obtain ⟨c'', back, same, -⟩ :=
      sysDynMem_restores own heap low booted_clear first (by decide) done succeeded (by decide) total
    exact ⟨c', c'', rfl, back, same⟩

/-- A heap of two pages is given back. -/
theorem sysDynMem_shrinks_two : ∃ s, Run [.syscall (.dynMem 2)] s ∧ s.core.Shrinks rootDir rootDir (-2) := by
  obtain ⟨s, run, checked⟩ := executeBoot_run (fun _ _ => True) [.syscall (.dynMem 2)]
    (fun s => s.core.ct.dirPagesBaseAddr = some rootDir ∧ s.core.ct.myHeap = some rootDir ∧
      s.core.mm.heapZones rootDir = 2 ∧ (s.core.mm.pagusrTable rootDir 284).present ∧
      (s.core.mm.pagusrTable rootDir 285).present ∧ s.core.Returnable rootDir rootDir (-2)) (by decide +kernel)
  simp only [decide_eq_true_eq] at checked
  obtain ⟨own, heap, counter, first, second, returnable⟩ := checked
  have int : IsInt (-2) := by decide
  refine ⟨s, run.run, (sysDynMem_shrinks_iff own heap (by omega) (fun p low high => ?_) int (by decide)).mpr returnable⟩
  have start : (pagLogInitHeap : Int) = 284 ∧ totalPages = 1024 := ⟨rfl, rfl⟩
  obtain rfl | rfl : p = 284 ∨ p = 285 := by omega
  · exact ⟨by omega, first⟩
  · exact ⟨by omega, second⟩

theorem sysDynMem_least_unrefused : booted.core.ct.dirPagesBaseAddr = some rootDir ∧ booted.core.ct.myHeap = some rootDir ∧
    booted.core.mm.heapZones rootDir = 0 ∧ ¬ booted.core.Shrinks rootDir rootDir (-2147483648) := by
  have own : booted.core.ct.dirPagesBaseAddr = some rootDir := by decide +kernel
  have heap : booted.core.ct.myHeap = some rootDir := by decide +kernel
  have counter : booted.core.mm.heapZones rootDir = 0 := by decide +kernel
  refine ⟨own, heap, counter, fun shrinks => ?_⟩
  unfold Shrinks at shrinks
  rw [counter, if_pos (by decide), sysDynMem_least own heap (by omega) (by rw [counter]; decide)] at shrinks
  contradiction

end Core
end Zeos
