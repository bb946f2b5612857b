import Mathlib.Data.List.GetD
import Zeos.Ledger
import Zeos.Memory

/-! The ledger of the physical frames: what the loops over page tables do to it. -/
namespace Zeos
open Outcome

/-- A data or heap page, whose frame belongs to one address space. -/
def OwnPage (p : Nat) : Prop := pagLogInitData ≤ p ∧ ¬ (pagLogInitCode ≤ p ∧ p < pagLogInitHeap)

instance (p : Nat) : Decidable (OwnPage p) := inferInstanceAs (Decidable (_ ∧ _))

theorem ownPage_heap {p : Nat} (heap : pagLogInitHeap ≤ p) : OwnPage p :=
  ⟨Nat.le_trans (by decide) heap, fun code => Nat.not_lt.mpr heap code.2⟩

/-- The frames that boot takes for the code. -/
def codeFrames : List Nat := (List.range numPagCode).map fun k => numPagKernel + 2 * k

namespace Mm

/-- The frame each own page has, and the frames marked used besides those of kernel and code. -/
def ledger (mm : Mm) : Ledger (Dir × Nat) Nat where
  holds s := if OwnPage s.2 ∧ (mm.pagusrTable s.1 s.2).present then some (mm.pagusrTable s.1 s.2).pbaseAddr else none
  taken f := numPagKernel ≤ f ∧ f ∉ codeFrames ∧ mm.physMem f = .usedFrame

/-- The ledger is balanced, and the tables are tidy around it. -/
structure Fair (mm : Mm) (hand : List Nat) : Prop where
  balanced : mm.ledger.Balanced hand
  code : ∀ f ∈ codeFrames, mm.physMem f = .usedFrame
  bounded : ∀ f, totalPages ≤ f → mm.physMem f = .freeFrame
  clear : ∀ d p, OwnPage p → (mm.pagusrTable d p).present = false → mm.pagusrTable d p = .zero
  fixed : ∀ d p, ¬ OwnPage p →
    (mm.pagusrTable d p).pbaseAddr < numPagKernel ∨ (mm.pagusrTable d p).pbaseAddr ∈ codeFrames
  high : ∀ d p, totalPages ≤ p → mm.pagusrTable d p = .zero

/-- The counters of directories and heaps are the same. -/
structure SameCounts (mm mm' : Mm) : Prop where
  references : mm'.dirPagesNumReferences = mm.dirPagesNumReferences
  heapZones : mm'.heapZones = mm.heapZones

theorem SameCounts.refl (mm : Mm) : mm.SameCounts mm := ⟨rfl, rfl⟩

theorem SameCounts.trans {mm mm' mm'' : Mm} (first : mm.SameCounts mm') (second : mm'.SameCounts mm'') :
    mm.SameCounts mm'' := ⟨second.1.trans first.1, second.2.trans first.2⟩

variable {mm mm' : Mm} {hand : List Nat} {d : Dir} {p f : Nat}

theorem setEntry_table (mm : Mm) (d d' : Dir) (p p' : Nat) (e : PageTableEntry) :
    (mm.setEntry d p e).pagusrTable d' p' = if d' = d ∧ p' = p then e else mm.pagusrTable d' p' := by
  simp only [setEntry, Function.update_apply]
  by_cases here : d' = d <;> by_cases there : p' = p <;> simp [here, there]

theorem setEntry_counts (mm : Mm) (d : Dir) (p : Nat) (e : PageTableEntry) : mm.SameCounts (mm.setEntry d p e) :=
  ⟨rfl, rfl⟩

theorem freeFrame_table (mm : Mm) (f : Nat) : (mm.freeFrame f).pagusrTable = mm.pagusrTable := by
  unfold freeFrame; split <;> rfl

theorem freeFrame_counts (mm : Mm) (f : Nat) : mm.SameCounts (mm.freeFrame f) := by
  unfold freeFrame; split <;> exact ⟨rfl, rfl⟩

theorem pageIndex_ok {i : Int} : pageIndex i = .ok p ↔ i = (p : Int) ∧ p < totalPages := by
  unfold pageIndex
  split
  · simp only [Except.ok.injEq]; omega
  · simp only [reduceCtorEq, false_iff]; omega

theorem allocFrame_some (got : mm.allocFrame = (some f, mm')) :
    f ∈ searchFrames ∧ mm.physMem f = .freeFrame ∧ mm' = mm.setFrame f .usedFrame := by
  unfold allocFrame at got
  split at got
  · rename_i i found
    obtain ⟨rfl, rfl⟩ : i = f ∧ mm.setFrame i .usedFrame = mm' := by simpa using got
    exact ⟨List.mem_of_find?_eq_some found, by simpa using List.find?_some found, rfl⟩
  · simp at got

theorem allocFrame_none (out : mm.allocFrame = (none, mm')) :
    mm' = mm ∧ ∀ f ∈ searchFrames, mm.physMem f ≠ .freeFrame := by
  unfold allocFrame at out
  split at out
  · simp at out
  · rename_i none
    refine ⟨by simpa [eq_comm] using out, fun f mem => ?_⟩
    simpa using List.find?_eq_none.mp none f mem

theorem searchFrames_range (mem : f ∈ searchFrames) : numPagKernel ≤ f ∧ f < totalPages := by
  obtain ⟨k, below, rfl⟩ := List.mem_map.mp mem
  have := List.mem_range.mp below
  simp only [numPagKernel, totalPages]
  omega

theorem allocFrame_table (mm : Mm) : mm.allocFrame.2.pagusrTable = mm.pagusrTable := by
  unfold allocFrame; split <;> rfl

theorem allocFrame_counts (mm : Mm) : mm.SameCounts mm.allocFrame.2 := by
  unfold allocFrame; split <;> exact ⟨rfl, rfl⟩

namespace Fair

theorem holds_some {s : Dir × Nat} : mm.ledger.holds s = some f ↔
    OwnPage s.2 ∧ (mm.pagusrTable s.1 s.2).present ∧ (mm.pagusrTable s.1 s.2).pbaseAddr = f := by
  simp only [ledger]
  split <;> simp_all

/-- A frame in the ledger is one that `free_frame` frees. -/
theorem freed (fair : mm.Fair hand) (taken : mm.ledger.taken f) : mm.freeFrame f = mm.setFrame f .freeFrame := by
  obtain ⟨low, notCode, used⟩ := taken
  have first : numPagKernel ∈ codeFrames := by decide
  have other : f ≠ numPagKernel := fun same => notCode (same ▸ first)
  have high : f < totalPages := by
    by_contra beyond
    rw [fair.bounded f (by omega)] at used
    contradiction
  rw [freeFrame, if_pos ⟨by omega, high⟩]

/-- A frame obtained by `alloc_frame` is in hand. -/
theorem take (fair : mm.Fair hand) (got : mm.allocFrame = (some f, mm')) : mm'.Fair (hand ++ [f]) := by
  obtain ⟨search, free, rfl⟩ := allocFrame_some got
  obtain ⟨low, high⟩ := searchFrames_range search
  have notCode : f ∉ codeFrames := fun code => by simp [fair.code f code] at free
  have apply (g : Nat) : (mm.setFrame f .usedFrame).physMem g = if g = f then .usedFrame else mm.physMem g := by
    simp [setFrame, Function.update_apply]
  refine ⟨fair.balanced.take ?_ (fun _ => rfl) fun g => ?_, fun g code => ?_, fun g beyond => ?_, fair.clear,
    fair.fixed, fair.high⟩
  · rintro ⟨_, _, used⟩
    simp [free] at used
  · simp only [ledger, apply]
    by_cases same : g = f
    · simpa [same] using ⟨low, notCode⟩
    · simp [same]
  · rw [apply]
    split
    · rfl
    · exact fair.code g code
  · rw [apply, if_neg (by omega)]
    exact fair.bounded g beyond

/-- What becomes of the frames outside the ledger when one in it is freed. -/
theorem freed_outside (fair : mm.Fair hand) (taken : mm.ledger.taken f) :
    (∀ g ∈ codeFrames, (mm.setFrame f .freeFrame).physMem g = .usedFrame) ∧
    (∀ g, totalPages ≤ g → (mm.setFrame f .freeFrame).physMem g = .freeFrame) ∧
    (∀ g, (mm.setFrame f .freeFrame).ledger.taken g ↔ mm.ledger.taken g ∧ g ≠ f) := by
  obtain ⟨low, notCode, used⟩ := taken
  have apply (g : Nat) : (mm.setFrame f .freeFrame).physMem g = if g = f then .freeFrame else mm.physMem g := by
    simp [setFrame, Function.update_apply]
  refine ⟨fun g code => ?_, fun g beyond => ?_, fun g => ?_⟩
  · have other : g ≠ f := fun same => notCode (same ▸ code)
    rw [apply, if_neg other]
    exact fair.code g code
  · rw [apply]
    split
    · rfl
    · exact fair.bounded g beyond
  · simp only [ledger, apply]
    by_cases same : g = f
    · simp [same]
    · simp [same]

/-- A frame in hand is given back. -/
theorem drop (fair : mm.Fair (f :: hand)) : (mm.freeFrame f).Fair hand := by
  have taken : mm.ledger.taken f := (fair.balanced.taken f).mpr (.inr (by simp))
  obtain ⟨code, bounded, marked⟩ := fair.freed_outside taken
  rw [fair.freed taken]
  exact ⟨fair.balanced.drop (fun _ => rfl) marked, code, bounded, fair.clear, fair.fixed, fair.high⟩

theorem dropAll (fair : mm.Fair hand) : (hand.foldl (fun mm frame => mm.freeFrame frame) mm).Fair [] := by
  induction hand generalizing mm with
  | nil => exact fair
  | cons f hand ih => exact ih fair.drop

/-- The frame in hand is mapped at an own page. -/
theorem put (fair : mm.Fair [f]) (own : OwnPage p) (low : p < totalPages)
    (empty : (mm.pagusrTable d p).present = false) : (mm.setEntry d p ⟨f, true, true, true⟩).Fair [] := by
  refine ⟨fair.balanced.place (s := (d, p)) ?_ (fun u => ?_) fun _ => Iff.rfl, fair.code, fair.bounded, ?_, ?_, ?_⟩
  · simp [ledger, empty]
  · simp only [ledger, setEntry_table, Prod.ext_iff]
    by_cases here : u.1 = d ∧ u.2 = p
    · simp [here, own]
    · simp [here]
  all_goals
    intro d' p' page
    rw [setEntry_table]
    split
  · simp
  · exact fair.clear d' p' page
  · rename_i here
    exact absurd (here.2 ▸ own) page
  · exact fair.fixed d' p' page
  · omega
  · exact fair.high d' p' page

/-- `free_frame(get_frame(PT, i)); del_ss_pag(PT, i)` for an own page. -/
theorem releasePage (fair : mm.Fair hand) (own : OwnPage p) :
    ((mm.freeFrame (mm.pagusrTable d p).pbaseAddr).setEntry d p .zero).Fair hand := by
  cases present : (mm.pagusrTable d p).present with
  | false =>
    have zero := fair.clear d p own present
    have same : (mm.freeFrame (mm.pagusrTable d p).pbaseAddr).setEntry d p .zero = mm := by
      have noop : mm.freeFrame PageTableEntry.zero.pbaseAddr = mm := by simp [freeFrame, PageTableEntry.zero]
      rw [zero, noop]
      cases mm
      simp only [setEntry, mk.injEq, true_and, and_true] at zero ⊢
      rw [← zero, Function.update_eq_self, Function.update_eq_self]
    rwa [same]
  | true =>
    have held : mm.ledger.holds (d, p) = some (mm.pagusrTable d p).pbaseAddr := holds_some.mpr ⟨own, present, rfl⟩
    have taken := fair.balanced.marked held
    obtain ⟨code, bounded, marked⟩ := fair.freed_outside taken
    rw [fair.freed taken]
    refine ⟨fair.balanced.release held (fun u => ?_) marked, code, bounded, ?_, ?_, ?_⟩
    · simp only [ledger, setEntry_table, Prod.ext_iff]
      by_cases here : u.1 = d ∧ u.2 = p
      · simp [here, PageTableEntry.zero]
      · simp only [here, if_false]
        rfl
    all_goals
      intro d' p' page
      rw [setEntry_table]
      split
    · simp
    · exact fair.clear d' p' page
    · exact .inl (by simp [PageTableEntry.zero])
    · exact fair.fixed d' p' page
    · rfl
    · exact fair.high d' p' page

end Fair

/-- One round of `releasePages`. -/
theorem releaseRound_ok {i : Int} :
    (do let frame ← mm.getFrame d i; (mm.freeFrame frame).delSsPag d i) = .ok mm' ↔
      ∃ p : Nat, i = p ∧ p < totalPages ∧ mm' = (mm.freeFrame (mm.pagusrTable d p).pbaseAddr).setEntry d p .zero := by
  simp only [getFrame, delSsPag, bind_ok, pageIndex_ok]
  constructor
  · rintro ⟨frame, ⟨p, ⟨rfl, low⟩, same⟩, p', ⟨index, _⟩, result⟩
    cases same
    cases Int.ofNat.inj index
    exact ⟨p, rfl, low, by cases result; rfl⟩
  · rintro ⟨p, rfl, low, rfl⟩
    exact ⟨_, ⟨p, ⟨rfl, low⟩, rfl⟩, p, ⟨rfl, low⟩, rfl⟩

theorem releasePages_table {range : List Int} (done : mm.releasePages d range = .ok mm') :
    mm.SameCounts mm' ∧ ∀ d' p, mm'.pagusrTable d' p =
      if d' = d ∧ (p : Int) ∈ range then .zero else mm.pagusrTable d' p := by
  induction range generalizing mm with
  | nil => cases done; exact ⟨.refl _, by simp⟩
  | cons i range ih =>
    rw [releasePages, List.foldlM_cons] at done
    obtain ⟨middle, first, rest⟩ := bind_ok.mp done
    obtain ⟨q, rfl, low, rfl⟩ := releaseRound_ok.mp first
    obtain ⟨counts, table⟩ := ih rest
    refine ⟨((freeFrame_counts _ _).trans (setEntry_counts _ _ _ _)).trans counts, fun d' p => ?_⟩
    rw [table, setEntry_table, freeFrame_table]
    have cast : (p : Int) = q ↔ p = q := by omega
    simp only [List.mem_cons, cast]
    by_cases here : d' = d <;> by_cases mem : (p : Int) ∈ range <;> by_cases same : p = q <;>
      simp [here, mem, same]

theorem releasePages_fair {range : List Int} (own : ∀ p : Nat, (p : Int) ∈ range → OwnPage p)
    (fair : mm.Fair hand) (done : mm.releasePages d range = .ok mm') : mm'.Fair hand := by
  induction range generalizing mm with
  | nil => cases done; exact fair
  | cons i range ih =>
    rw [releasePages, List.foldlM_cons] at done
    obtain ⟨middle, first, rest⟩ := bind_ok.mp done
    obtain ⟨q, rfl, low, rfl⟩ := releaseRound_ok.mp first
    exact ih (fun p mem => own p (List.mem_cons_of_mem _ mem)) (fair.releasePage (own q (List.mem_cons_self ..))) rest

theorem allocFrames_table {n : Nat} {frames : List Nat} {got : Option (List Nat)}
    (done : allocFrames n frames mm = (got, mm')) : mm'.pagusrTable = mm.pagusrTable ∧ mm.SameCounts mm' := by
  have undo (frames : List Nat) : ∀ mm : Mm,
      (frames.foldl (fun mm frame => mm.freeFrame frame) mm).pagusrTable = mm.pagusrTable ∧
      mm.SameCounts (frames.foldl (fun mm frame => mm.freeFrame frame) mm) := by
    induction frames with
    | nil => exact fun mm => ⟨rfl, .refl _⟩
    | cons f frames ih =>
      intro mm
      obtain ⟨table, counts⟩ := ih (mm.freeFrame f)
      exact ⟨table.trans (freeFrame_table mm f), (freeFrame_counts mm f).trans counts⟩
  induction n generalizing frames mm with
  | zero => cases done; exact ⟨rfl, .refl _⟩
  | succ n ih =>
    unfold allocFrames at done
    have table := allocFrame_table mm
    have counts := allocFrame_counts mm
    split at done <;> rename_i middle taken <;> rw [taken] at table counts
    · exact ⟨(ih done).1.trans table, counts.trans (ih done).2⟩
    · cases done
      exact ⟨(undo frames _).1.trans table, counts.trans (undo frames _).2⟩

/-- Either all frames asked for are in hand, or those that were are given back. -/
theorem allocFrames_fair {n : Nat} {frames : List Nat} (fair : mm.Fair frames) {got : Option (List Nat)}
    (done : allocFrames n frames mm = (got, mm')) :
    mm'.Fair (got.getD []) ∧ ∀ all, got = some all → all.length = frames.length + n := by
  induction n generalizing frames mm with
  | zero =>
    cases done
    exact ⟨fair, by simp⟩
  | succ n ih =>
    unfold allocFrames at done
    split at done
    · rename_i frame middle taken
      obtain ⟨fair', length⟩ := ih (fair.take taken) done
      refine ⟨fair', fun all some => ?_⟩
      rw [length all some]
      simp only [List.length_append, List.length_singleton]
      omega
    · rename_i middle out
      cases done
      obtain ⟨rfl, _⟩ := allocFrame_none out
      exact ⟨fair.dropAll, by simp⟩

/-- The frames `alloc_frame` can still give. -/
def available (mm : Mm) : Nat := searchFrames.countP fun f => mm.physMem f = .freeFrame

theorem searchFrames_nodup : searchFrames.Nodup := by
  refine List.Nodup.map (fun i j same => ?_) List.nodup_range
  omega

theorem countP_update {frames : List Nat} (nodup : frames.Nodup) (mem : f ∈ frames) (free : mm.physMem f = .freeFrame) :
    (frames.countP fun g => (mm.setFrame f .usedFrame).physMem g = .freeFrame) + 1 =
      frames.countP fun g => mm.physMem g = .freeFrame := by
  have apply (g : Nat) : (mm.setFrame f .usedFrame).physMem g = if g = f then .usedFrame else mm.physMem g := by
    simp [setFrame, Function.update_apply]
  induction frames with
  | nil => contradiction
  | cons g frames ih =>
    obtain ⟨absent, nodup⟩ := List.nodup_cons.mp nodup
    by_cases same : g = f
    · subst same
      have rest : (frames.countP fun h => (mm.setFrame g .usedFrame).physMem h = .freeFrame) =
          frames.countP fun h => mm.physMem h = .freeFrame := by
        refine List.countP_congr fun h there => ?_
        have other : h ≠ g := fun same => absent (same ▸ there)
        simp [apply, other]
      rw [List.countP_cons, List.countP_cons, rest]
      simp [apply, free]
    · have rest := ih nodup ((List.mem_cons.mp mem).resolve_left (Ne.symm same))
      simp only [List.countP_cons, apply, same, if_false] at rest ⊢
      omega

theorem available_take (got : mm.allocFrame = (some f, mm')) : mm'.available + 1 = mm.available := by
  obtain ⟨search, free, rfl⟩ := allocFrame_some got
  exact countP_update searchFrames_nodup search free

theorem available_none (out : mm.allocFrame = (none, mm')) : mm.available = 0 :=
  List.countP_eq_zero.mpr fun f mem => by simpa using (allocFrame_none out).2 f mem

/-- The frames are obtained exactly when that many are free. -/
theorem allocFrames_isSome (n : Nat) (frames : List Nat) (mm : Mm) :
    (allocFrames n frames mm).1.isSome ↔ n ≤ mm.available := by
  induction n generalizing frames mm with
  | zero => simp [allocFrames]
  | succ n ih =>
    unfold allocFrames
    split <;> rename_i got
    · rw [ih, ← available_take got]
      omega
    · simp [available_none got]

/-- Only entries of one table from `base` on differ. -/
structure OnlyFrom (d : Dir) (base : Int) (mm mm' : Mm) : Prop extends SameCounts mm mm' where
  table : ∀ d' (p : Nat), ¬ (d' = d ∧ base ≤ p) → mm'.pagusrTable d' p = mm.pagusrTable d' p

namespace OnlyFrom

variable {mm'' : Mm} {base : Int}

theorem refl (d : Dir) (base : Int) (mm : Mm) : OnlyFrom d base mm mm := ⟨.refl _, fun _ _ _ => rfl⟩

theorem trans (first : OnlyFrom d base mm mm') (second : OnlyFrom d base mm' mm'') : OnlyFrom d base mm mm'' :=
  ⟨first.toSameCounts.trans second.toSameCounts, fun d' p out => (second.table d' p out).trans (first.table d' p out)⟩

theorem setEntry (mm : Mm) (e : PageTableEntry) (low : base ≤ p) : OnlyFrom d base mm (mm.setEntry d p e) := by
  refine ⟨setEntry_counts _ _ _ _, fun d' p' out => ?_⟩
  rw [setEntry_table, if_neg]
  rintro ⟨rfl, rfl⟩
  exact out ⟨rfl, low⟩

theorem freeFrame (mm : Mm) (f : Nat) : OnlyFrom d base mm (mm.freeFrame f) :=
  ⟨freeFrame_counts mm f, fun _ _ _ => by rw [freeFrame_table]⟩

theorem allocFrame (mm : Mm) : OnlyFrom d base mm mm.allocFrame.2 :=
  ⟨allocFrame_counts mm, fun _ _ _ => by rw [allocFrame_table]⟩

end OnlyFrom

theorem setSsPag_ok {i : Int} : mm.setSsPag d i f = .ok mm' ↔
    ∃ p : Nat, i = p ∧ p < totalPages ∧ mm' = mm.setEntry d p ⟨f, true, true, true⟩ := by
  simp only [setSsPag, bind_ok, pageIndex_ok]
  constructor
  · rintro ⟨p, ⟨rfl, low⟩, result⟩
    exact ⟨p, rfl, low, by cases result; rfl⟩
  · rintro ⟨p, rfl, low, rfl⟩
    exact ⟨p, ⟨rfl, low⟩, rfl⟩

theorem delSsPag_ok {i : Int} : mm.delSsPag d i = .ok mm' ↔
    ∃ p : Nat, i = p ∧ p < totalPages ∧ mm' = mm.setEntry d p .zero := by
  simp only [delSsPag, bind_ok, pageIndex_ok]
  constructor
  · rintro ⟨p, ⟨rfl, low⟩, result⟩
    exact ⟨p, rfl, low, by cases result; rfl⟩
  · rintro ⟨p, rfl, low, rfl⟩
    exact ⟨p, ⟨rfl, low⟩, rfl⟩

/-- The growing loop writes above the heap only. -/
theorem growHeap_only {n : Nat} {heap : Int} {frames : List Nat} {grown : Bool}
    (done : growHeap d heap n frames mm = .ok (grown, mm')) : OnlyFrom d (pagLogInitHeap + heap) mm mm' := by
  induction n generalizing frames mm with
  | zero => cases done; exact .refl _ _ _
  | succ n ih =>
    unfold growHeap at done
    have taken : OnlyFrom d (pagLogInitHeap + heap) mm mm.allocFrame.2 := .allocFrame mm
    split at done <;> rename_i got <;> rw [got] at taken
    · obtain ⟨undone, undo, done⟩ := bind_ok.mp done
      cases done
      refine taken.trans (foldlM_keeps (OnlyFrom d (pagLogInitHeap + heap) _) (fun j _ m m' only round => ?_) undo (.refl _ _ _))
      obtain ⟨p, index, low, rfl⟩ := delSsPag_ok.mp round
      exact only.trans ((OnlyFrom.freeFrame m _).trans (OnlyFrom.setEntry _ _ (by omega)))
    · obtain ⟨mapped, first, rest⟩ := bind_ok.mp done
      obtain ⟨p, index, low, rfl⟩ := setSsPag_ok.mp first
      exact taken.trans ((OnlyFrom.setEntry _ _ (by omega)).trans (ih rest))

/-- The pages that the growing loop has mapped, counted from the end of the heap. -/
def Placed (mm : Mm) (d : Dir) (heap : Int) (frames : List Nat) : Prop :=
  ∀ j < frames.length, ∀ p : Nat, (p : Int) = pagLogInitHeap + heap + j →
    mm.pagusrTable d p = ⟨frames.getD j 0, true, true, true⟩

/-- When the frames are those mapped, the loop that gives them back is `releasePages`. -/
theorem undo_releasePages {heap : Int} {frames : List Nat} {js : List Nat} (nodup : js.Nodup)
    (placed : ∀ j ∈ js, ∀ p : Nat, (p : Int) = pagLogInitHeap + heap + j →
      (mm.pagusrTable d p).pbaseAddr = frames.getD j 0)
    (done : js.foldlM (fun mm (j : Nat) =>
      (mm.freeFrame (frames.getD j 0)).delSsPag d (pagLogInitHeap + heap + (j : Int))) mm = .ok mm') :
    mm.releasePages d (js.map fun j : Nat => pagLogInitHeap + heap + (j : Int)) = .ok mm' := by
  induction js generalizing mm with
  | nil => exact done
  | cons j js ih =>
    obtain ⟨absent, nodup⟩ := List.nodup_cons.mp nodup
    rw [List.foldlM_cons] at done
    obtain ⟨middle, first, rest⟩ := bind_ok.mp done
    obtain ⟨p, index, low, rfl⟩ := delSsPag_ok.mp first
    have here := placed j (List.mem_cons_self ..) p index.symm
    rw [List.map_cons, releasePages, List.foldlM_cons]
    refine bind_ok.mpr ⟨_, releaseRound_ok.mpr ⟨p, index, low, rfl⟩, ?_⟩
    rw [here]
    refine ih nodup (fun i mem q page => ?_) rest
    have other : i ≠ j := fun same => absent (same ▸ mem)
    rw [setEntry_table, if_neg (by omega), freeFrame_table]
    exact placed i (List.mem_cons_of_mem _ mem) q page

/-- What the growing loop does to the ledger. -/
theorem growHeap_fair {n : Nat} {heap : Int} {frames : List Nat} {grown : Bool} (low : 0 ≤ heap)
    (fair : mm.Fair []) (placed : mm.Placed d heap frames)
    (empty : ∀ p : Nat, pagLogInitHeap + heap + frames.length ≤ p → (mm.pagusrTable d p).present = false)
    (done : growHeap d heap n frames mm = .ok (grown, mm')) :
    mm'.Fair [] ∧ ∀ p : Nat, pagLogInitHeap + heap ≤ p →
      ((mm'.pagusrTable d p).present ↔ grown ∧ (p : Int) < pagLogInitHeap + heap + frames.length + n) := by
  induction n generalizing frames mm with
  | zero =>
    cases done
    refine ⟨fair, fun p above => ?_⟩
    by_cases mapped : (p : Int) < pagLogInitHeap + heap + frames.length
    · have entry := placed (p - (pagLogInitHeap + heap)).toNat (by omega) p (by omega)
      simp only [entry, true_and, true_iff]
      omega
    · simp only [empty p (by omega), Bool.false_eq_true, false_iff, not_and]
      omega
  | succ n ih =>
    unfold growHeap at done
    split at done <;> rename_i got
    · obtain ⟨undone, undo, done⟩ := bind_ok.mp done
      cases done
      obtain ⟨rfl, _⟩ := allocFrame_none got
      have released := undo_releasePages List.nodup_range (fun j mem p page => by
        rw [placed j (List.mem_range.mp mem) p page]) undo
      refine ⟨releasePages_fair (fun p mem => ?_) fair released, fun p above => ?_⟩
      · obtain ⟨j, _, page⟩ := List.mem_map.mp mem
        exact ownPage_heap (by omega)
      · rw [(releasePages_table released).2]
        split
        · simp [PageTableEntry.zero]
        · rename_i out
          have beyond : pagLogInitHeap + heap + frames.length ≤ p := by
            by_contra inside
            obtain ⟨j, page⟩ := Int.eq_ofNat_of_zero_le (show 0 ≤ (p : Int) - (pagLogInitHeap + heap) by omega)
            refine out ⟨rfl, List.mem_map.mpr ⟨j, List.mem_range.mpr ?_, ?_⟩⟩ <;> omega
          simp [empty p beyond]
    · rename_i frame taken
      obtain ⟨mapped, first, rest⟩ := bind_ok.mp done
      obtain ⟨q, index, bound, rfl⟩ := setSsPag_ok.mp first
      have table : taken.pagusrTable = mm.pagusrTable := by
        have := allocFrame_table mm
        rwa [got] at this
      have own : OwnPage q := ownPage_heap (by omega)
      have fair' := (fair.take got).put (d := d) own bound (by rw [table]; exact empty q (by omega))
      have placed' : (taken.setEntry d q ⟨frame, true, true, true⟩).Placed d heap (frames ++ [frame]) := by
        intro j below p page
        rw [List.length_append, List.length_singleton] at below
        rw [setEntry_table, table]
        by_cases last : j = frames.length
        · subst last
          rw [if_pos ⟨rfl, by omega⟩, List.getD_append_right _ _ _ _ (Nat.le_refl _), Nat.sub_self]
          rfl
        · rw [if_neg (by omega), placed j (by omega) p page, List.getD_append _ _ _ _ (by omega)]
      obtain ⟨result, present⟩ := ih fair' placed' (fun p above => by
        rw [List.length_append, List.length_singleton] at above
        rw [setEntry_table, table, if_neg (by omega)]
        exact empty p (by omega)) rest
      refine ⟨result, fun p above => ?_⟩
      rw [present p above, List.length_append, List.length_singleton]
      refine and_congr_right fun _ => ?_
      omega

/-- The heap grows exactly when that many frames are free. -/
theorem growHeap_grown {n : Nat} {heap : Int} {frames : List Nat} {grown : Bool}
    (done : growHeap d heap n frames mm = .ok (grown, mm')) : grown ↔ n ≤ mm.available := by
  induction n generalizing frames mm with
  | zero => cases done; simp
  | succ n ih =>
    unfold growHeap at done
    split at done <;> rename_i got
    · obtain ⟨undone, _, done⟩ := bind_ok.mp done
      cases done
      simp [available_none got]
    · obtain ⟨mapped, first, rest⟩ := bind_ok.mp done
      obtain ⟨q, _, _, rfl⟩ := setSsPag_ok.mp first
      rw [ih rest, ← available_take got]
      exact Nat.succ_le_succ_iff.symm

variable {fillTP pareTP : Dir}

/-- A loop that gives pages of one table the frames another table has there. -/
theorem copyEntries {range : List Int} (other : pareTP ≠ fillTP)
    (done : range.foldlM (fun mm i => do mm.setSsPag fillTP i (← mm.getFrame pareTP i)) mm = .ok mm') :
    (mm'.physMem = mm.physMem ∧ mm.SameCounts mm') ∧ ∀ d (p : Nat), mm'.pagusrTable d p =
      if d = fillTP ∧ (p : Int) ∈ range then ⟨(mm.pagusrTable pareTP p).pbaseAddr, true, true, true⟩
      else mm.pagusrTable d p := by
  induction range generalizing mm with
  | nil => cases done; exact ⟨⟨rfl, .refl _⟩, by simp⟩
  | cons i range ih =>
    rw [List.foldlM_cons] at done
    obtain ⟨middle, first, rest⟩ := bind_ok.mp done
    obtain ⟨frame, source, first⟩ := bind_ok.mp first
    obtain ⟨q, rfl, low, rfl⟩ := setSsPag_ok.mp first
    obtain ⟨q', index, source⟩ := bind_ok.mp source
    cases Int.ofNat.inj (pageIndex_ok.mp index).1
    cases source
    obtain ⟨⟨physMem, counts⟩, table⟩ := ih rest
    refine ⟨⟨physMem, (setEntry_counts _ _ _ _).trans counts⟩, fun d p => ?_⟩
    have cast : (p : Int) = q ↔ p = q := by omega
    have parent : (mm.setEntry fillTP q ⟨(mm.pagusrTable pareTP q).pbaseAddr, true, true, true⟩).pagusrTable pareTP p =
        mm.pagusrTable pareTP p := by
      rw [setEntry_table, if_neg fun here => other here.1]
    rw [table, parent, setEntry_table]
    simp only [List.mem_cons, cast]
    by_cases here : d = fillTP <;> by_cases mem : (p : Int) ∈ range <;> by_cases same : p = q <;>
      simp [here, mem, same]

/-- A loop that gives consecutive pages of a table the frames of a list. -/
theorem putEntries {js : List Nat} {base : Nat} {frame : Nat → Nat}
    (done : js.foldlM (fun mm (i : Nat) => mm.setSsPag fillTP (base + (i : Int)) (frame i)) mm = .ok mm') :
    (mm'.physMem = mm.physMem ∧ mm.SameCounts mm') ∧ (∀ j ∈ js, base + j < totalPages) ∧
      ∀ d (p : Nat), mm'.pagusrTable d p =
        if d = fillTP ∧ base ≤ p ∧ p - base ∈ js then ⟨frame (p - base), true, true, true⟩
        else mm.pagusrTable d p := by
  induction js generalizing mm with
  | nil => cases done; exact ⟨⟨rfl, .refl _⟩, by simp, by simp⟩
  | cons j js ih =>
    rw [List.foldlM_cons] at done
    obtain ⟨middle, first, rest⟩ := bind_ok.mp done
    obtain ⟨q, index, low, rfl⟩ := setSsPag_ok.mp first
    obtain ⟨⟨physMem, counts⟩, bound, table⟩ := ih rest
    refine ⟨⟨physMem, (setEntry_counts _ _ _ _).trans counts⟩, fun i mem => ?_, fun d p => ?_⟩
    · rcases List.mem_cons.mp mem with rfl | mem
      · omega
      · exact bound i mem
    · rw [table, setEntry_table]
      have cast : p = q ↔ base ≤ p ∧ p - base = j := by omega
      simp only [List.mem_cons, cast]
      by_cases here : d = fillTP <;> by_cases above : base ≤ p <;> by_cases mem : p - base ∈ js <;>
        by_cases same : p - base = j <;> simp_all

theorem mem_pages {low high i : Int} : i ∈ pages low high ↔ low ≤ i ∧ i < high := by
  simp only [pages, List.mem_map, List.mem_range]
  constructor
  · rintro ⟨j, below, rfl⟩
    omega
  · rintro ⟨above, below⟩
    exact ⟨(i - low).toNat, by omega, by omega⟩

theorem setSsPag_counts {i : Int} (done : mm.setSsPag d i f = .ok mm') : mm.SameCounts mm' := by
  obtain ⟨p, _, _, rfl⟩ := setSsPag_ok.mp done
  exact setEntry_counts mm _ _ _

theorem delSsPag_counts {i : Int} (done : mm.delSsPag d i = .ok mm') : mm.SameCounts mm' := by
  obtain ⟨p, _, _, rfl⟩ := delSsPag_ok.mp done
  exact setEntry_counts mm _ _ _

theorem foldlM_counts {ι : Type} {body : Mm → ι → Except MemFault Mm} {xs : List ι}
    (round : ∀ x m m', body m x = .ok m' → m.SameCounts m') (done : xs.foldlM body mm = .ok mm') : mm.SameCounts mm' :=
  foldlM_keeps mm.SameCounts (fun x _ m m' same done => same.trans (round x m m' done)) done (.refl _)

/-- What the entries of the child's table do not touch stays. -/
theorem mapChild_keeps {frames : List Nat} {heap : Int} (property : Mm → Prop)
    (entry : ∀ m p e, property m → property (m.setEntry fillTP p e))
    (done : mm.mapChild fillTP pareTP frames heap = .ok mm') (initial : property mm) : property mm' := by
  have put {i : Int} {f : Nat} {m m' : Mm} (before : property m) (done : m.setSsPag fillTP i f = .ok m') : property m' := by
    obtain ⟨p, _, _, rfl⟩ := setSsPag_ok.mp done
    exact entry m p _ before
  have copied (i : Int) (m m' : Mm) (before : property m) (done : (do m.setSsPag fillTP i (← m.getFrame pareTP i)) = .ok m') :
      property m' := by
    obtain ⟨frame, _, done⟩ := bind_ok.mp done
    exact put before done
  unfold mapChild at done
  obtain ⟨kernel, first, done⟩ := bind_ok.mp done
  obtain ⟨code, second, done⟩ := bind_ok.mp done
  obtain ⟨data, third, fourth⟩ := bind_ok.mp done
  have behindKernel := foldlM_keeps property (fun i _ => copied i) first initial
  have behindCode := foldlM_keeps property (fun i _ => copied i) second behindKernel
  have behindData := foldlM_keeps property (fun _ _ _ _ before => put before) third behindCode
  exact foldlM_keeps property (fun _ _ _ _ before => put before) fourth behindData

theorem mapChild_counts {frames : List Nat} {heap : Int} (done : mm.mapChild fillTP pareTP frames heap = .ok mm') :
    mm.SameCounts mm' :=
  mapChild_keeps mm.SameCounts (fun m p e same => same.trans (setEntry_counts m fillTP p e)) done (.refl _)

theorem copyPages_counts {cr3 : Dir} {heap : Int} (done : mm.copyPages fillTP pareTP cr3 heap = .ok mm') :
    mm.SameCounts mm' := by
  have round {offset : Int} (i : Int) (m m' : Mm) (done : copyThrough fillTP pareTP cr3 offset m i = .ok m') :
      m.SameCounts m' := by
    unfold copyThrough at done
    obtain ⟨frame, _, done⟩ := bind_ok.mp done
    obtain ⟨mapped, first, done⟩ := bind_ok.mp done
    obtain ⟨copied, copy, last⟩ := bind_ok.mp done
    have same : mapped.SameCounts copied := by
      unfold copyPage at copy
      split at copy
      · cases copy; exact ⟨rfl, rfl⟩
      · contradiction
    exact (setSsPag_counts first).trans (same.trans (delSsPag_counts last))
  unfold copyPages at done
  obtain ⟨middle, first, second⟩ := bind_ok.mp done
  exact (foldlM_counts round first).trans (foldlM_counts round second)

/-- The place of an own page in the list of frames of a new process. -/
def frameIndex (p : Nat) : Nat := if p < pagLogInitCode then p - pagLogInitData else numPagData + (p - pagLogInitHeap)

/-- The page table of a child. -/
theorem mapChild_table {frames : List Nat} {heap : Int} (other : pareTP ≠ fillTP)
    (done : mm.mapChild fillTP pareTP frames heap = .ok mm') :
    (mm'.physMem = mm.physMem ∧ mm.SameCounts mm') ∧
      (∀ p : Nat, pagLogInitHeap ≤ p → p < pagLogInitHeap + heap.toNat → p < totalPages) ∧
      ∀ d (p : Nat), mm'.pagusrTable d p =
        if d = fillTP ∧ p < pagLogInitHeap + heap.toNat then
          if OwnPage p then ⟨frames.getD (frameIndex p) 0, true, true, true⟩
          else ⟨(mm.pagusrTable pareTP p).pbaseAddr, true, true, true⟩
        else mm.pagusrTable d p := by
  unfold mapChild at done
  obtain ⟨kernel, first, done⟩ := bind_ok.mp done
  obtain ⟨code, second, done⟩ := bind_ok.mp done
  obtain ⟨data, third, fourth⟩ := bind_ok.mp done
  obtain ⟨⟨phys₁, counts₁⟩, table₁⟩ := copyEntries other first
  obtain ⟨⟨phys₂, counts₂⟩, table₂⟩ := copyEntries other second
  obtain ⟨⟨phys₃, counts₃⟩, _, table₃⟩ := putEntries third
  obtain ⟨⟨phys₄, counts₄⟩, bound, table₄⟩ := putEntries fourth
  refine ⟨⟨phys₄.trans (phys₃.trans (phys₂.trans phys₁)), counts₁.trans (counts₂.trans (counts₃.trans counts₄))⟩,
    fun p above below => ?_, fun d p => ?_⟩
  · have := bound (p - pagLogInitHeap) (List.mem_range.mpr (by omega))
    omega
  · rw [table₄, table₃, table₂]
    by_cases here : d = fillTP
    · subst here
      have parent : kernel.pagusrTable pareTP p = mm.pagusrTable pareTP p := by simp [table₁, other]
      have child := table₁ d p
      have low : (numPagKernel : Int) = 256 ∧ pagLogInitData = 256 := ⟨rfl, rfl⟩
      have mid : pagLogInitCode = 276 ∧ numPagData = 20 ∧ numPagCode = 8 := ⟨rfl, rfl, rfl⟩
      have high : pagLogInitHeap = 284 := rfl
      simp only [true_and, mem_pages, List.mem_range, parent, child, OwnPage, frameIndex, low, mid, high]
      split_ifs <;> first | omega | rfl
    · simp only [here, false_and, if_false, table₁]

theorem frameIndex_lt {n : Nat} (own : OwnPage p) (below : p < pagLogInitHeap + n) : frameIndex p < numPagData + n := by
  have low : pagLogInitData = 256 ∧ pagLogInitCode = 276 := ⟨rfl, rfl⟩
  have high : pagLogInitHeap = 284 ∧ numPagData = 20 := ⟨rfl, rfl⟩
  simp only [OwnPage, frameIndex, low, high] at *
  split <;> omega

theorem frameIndex_inj {q : Nat} (own : OwnPage p) (own' : OwnPage q) (same : frameIndex p = frameIndex q) : p = q := by
  have low : pagLogInitData = 256 ∧ pagLogInitCode = 276 := ⟨rfl, rfl⟩
  have high : pagLogInitHeap = 284 ∧ numPagData = 20 := ⟨rfl, rfl⟩
  simp only [OwnPage, frameIndex, low, high] at *
  split at same <;> split at same <;> omega

theorem frameIndex_surj {n i : Nat} (below : i < numPagData + n) :
    ∃ p, OwnPage p ∧ p < pagLogInitHeap + n ∧ frameIndex p = i := by
  have low : pagLogInitData = 256 ∧ pagLogInitCode = 276 := ⟨rfl, rfl⟩
  have high : pagLogInitHeap = 284 ∧ numPagData = 20 := ⟨rfl, rfl⟩
  simp only [OwnPage, frameIndex, low, high] at *
  by_cases data : i < 20
  · exact ⟨256 + i, by omega, by omega, by rw [if_pos (by omega)]; omega⟩
  · exact ⟨264 + i, by omega, by omega, by rw [if_neg (by omega)]; omega⟩

/-- The frames in hand go to the own pages of the child. -/
theorem mapChild_fair {frames : List Nat} {heap : Int} (fair : mm.Fair frames)
    (length : frames.length = numPagData + heap.toNat) (other : pareTP ≠ fillTP)
    (empty : ∀ p, OwnPage p → (mm.pagusrTable fillTP p).present = false)
    (done : mm.mapChild fillTP pareTP frames heap = .ok mm') : mm'.Fair [] := by
  obtain ⟨⟨physMem, _⟩, bound, table⟩ := mapChild_table other done
  have get {p : Nat} (own : OwnPage p) (below : p < pagLogInitHeap + heap.toNat) :
      ∃ low : frameIndex p < frames.length, frames.getD (frameIndex p) 0 = frames[frameIndex p] := by
    have low : frameIndex p < frames.length := by rw [length]; exact frameIndex_lt own below
    exact ⟨low, List.getD_eq_getElem _ _ low⟩
  let fresh : Dir × Nat → Option Nat := fun s =>
    if s.1 = fillTP ∧ OwnPage s.2 ∧ s.2 < pagLogInitHeap + heap.toNat then some (frames.getD (frameIndex s.2) 0) else none
  have fresh_some {s : Dir × Nat} {f : Nat} : fresh s = some f ↔ s.1 = fillTP ∧ OwnPage s.2 ∧
      s.2 < pagLogInitHeap + heap.toNat ∧ frames.getD (frameIndex s.2) 0 = f := by
    simp only [fresh]
    split <;> simp_all
  refine ⟨fair.balanced.fill fresh (fun s new => ?_) (fun s s' f new new' => ?_) (fun f => ?_) (fun s => ?_)
    (fun f => by simp only [ledger, physMem]), ?_, ?_, fun d p own absent => ?_, fun d p fixed => ?_, fun d p beyond => ?_⟩
  · obtain ⟨f, new⟩ := Option.isSome_iff_exists.mp new
    obtain ⟨child, own, _⟩ := fresh_some.mp new
    simp [ledger, child, empty s.2 own]
  · obtain ⟨child, own, below, here⟩ := fresh_some.mp new
    obtain ⟨child', own', below', here'⟩ := fresh_some.mp new'
    obtain ⟨low, at_⟩ := get own below
    obtain ⟨low', at'⟩ := get own' below'
    have index : frameIndex s.2 = frameIndex s'.2 := by
      have both : frames[frameIndex s.2] = frames[frameIndex s'.2] := by rw [← at_, ← at', here, here']
      exact fair.balanced.nodup.getElem_inj_iff.mp both
    exact Prod.ext (child.trans child'.symm) (frameIndex_inj own own' index)
  · constructor
    · intro mem
      obtain ⟨i, low, here⟩ := List.getElem_of_mem mem
      obtain ⟨p, own, below, rfl⟩ := frameIndex_surj (n := heap.toNat) (i := i) (by omega)
      exact ⟨(fillTP, p), fresh_some.mpr ⟨rfl, own, below, by rw [List.getD_eq_getElem _ _ low, here]⟩⟩
    · rintro ⟨s, new⟩
      obtain ⟨_, own, below, here⟩ := fresh_some.mp new
      obtain ⟨low, at_⟩ := get own below
      rw [← here, at_]
      exact List.getElem_mem low
  · by_cases new : s.1 = fillTP ∧ OwnPage s.2 ∧ s.2 < pagLogInitHeap + heap.toNat
    · have entry := table s.1 s.2
      rw [if_pos ⟨new.1, new.2.2⟩, if_pos new.2.1] at entry
      rw [fresh_some.mpr ⟨new.1, new.2.1, new.2.2, rfl⟩]
      exact Fair.holds_some.mpr ⟨new.2.1, by rw [entry], by rw [entry]⟩
    · have old : fresh s = none := if_neg new
      rw [old, Option.none_or]
      simp only [ledger]
      by_cases own : OwnPage s.2
      · have entry := table s.1 s.2
        rw [if_neg fun child => new ⟨child.1, own, child.2⟩] at entry
        rw [entry]
      · rw [if_neg fun here => own here.1, if_neg fun here => own here.1]
  · rw [physMem]; exact fair.code
  · rw [physMem]; exact fair.bounded
  · by_cases child : d = fillTP ∧ p < pagLogInitHeap + heap.toNat
    · rw [table, if_pos child, if_pos own] at absent
      cases absent
    · rw [table, if_neg child] at absent ⊢
      exact fair.clear d p own absent
  · rw [table]
    split
    · exact fair.fixed pareTP p fixed
    · exact fair.fixed d p fixed
  · rw [table, if_neg]
    · exact fair.high d p beyond
    · rintro ⟨_, below⟩
      have := bound p (Nat.le_trans (by decide) beyond) below
      omega

theorem copyPage_tables {cr3 : Dir} {source dest : Int} (done : mm.copyPage cr3 source dest = .ok mm') :
    mm.SameTables mm' := by
  unfold copyPage at done
  split at done
  · cases done
    exact ⟨rfl, rfl, rfl, rfl⟩
  · contradiction

/-- The child's frame is mapped in the parent only while it is copied to. -/
theorem copyThrough_tables {cr3 : Dir} {offset i : Int}
    (unused : ∀ p : Nat, (p : Int) = i + offset → mm.pagusrTable pareTP p = .zero)
    (done : copyThrough fillTP pareTP cr3 offset mm i = .ok mm') : mm.SameTables mm' := by
  unfold copyThrough at done
  obtain ⟨frame, _, done⟩ := bind_ok.mp done
  obtain ⟨mapped, first, done⟩ := bind_ok.mp done
  obtain ⟨copied, copy, last⟩ := bind_ok.mp done
  obtain ⟨p, index, low, rfl⟩ := setSsPag_ok.mp first
  obtain ⟨q, index', _, rfl⟩ := delSsPag_ok.mp last
  obtain ⟨physMem, table, references, heapZones⟩ := copyPage_tables copy
  have same : p = q := by omega
  subst same
  refine ⟨physMem, ?_, references, heapZones⟩
  funext d p'
  rw [setEntry_table, table, setEntry_table]
  split
  · rename_i here
    rw [here.1, here.2, unused p index.symm]
  · rfl

theorem copyPages_tables {cr3 : Dir} {heap : Int}
    (unused : ∀ p : Nat, pagLogInitHeap + heap ≤ p → mm.pagusrTable pareTP p = .zero)
    (done : mm.copyPages fillTP pareTP cr3 heap = .ok mm') : mm.SameTables mm' := by
  have loop {offset : Int} {range : List Int} (above : ∀ i ∈ range, pagLogInitHeap + heap ≤ i + offset) {m m' : Mm}
      (same : mm.SameTables m) (done : range.foldlM (copyThrough fillTP pareTP cr3 offset) m = .ok m') :
      mm.SameTables m' := by
    refine foldlM_keeps mm.SameTables (fun i mem m m' same round => same.trans ?_) done same
    refine copyThrough_tables (fun p page => ?_) round
    rw [same.pagusrTable]
    exact unused p (by have := above i mem; omega)
  have low : pagLogInitData = 256 := rfl
  have high : pagLogInitHeap = 284 ∧ numPagData = 20 ∧ numPagCode = 8 := ⟨rfl, rfl, rfl⟩
  unfold copyPages at done
  obtain ⟨middle, first, second⟩ := bind_ok.mp done
  refine loop (fun i mem => ?_) (loop (fun i mem => ?_) (.refl _) first) second
  · have := mem_pages.mp mem
    simp only [low, high] at *
    omega
  · have := mem_pages.mp mem
    simp only [low, high] at *
    omega

/-- A heap that has grown ends inside the table. -/
theorem growHeap_bound {n : Nat} {heap : Int} {frames : List Nat}
    (done : growHeap d heap n frames mm = .ok (true, mm')) :
    n = 0 ∨ pagLogInitHeap + heap + frames.length + n ≤ totalPages := by
  induction n generalizing frames mm with
  | zero => exact .inl rfl
  | succ n ih =>
    unfold growHeap at done
    split at done
    · obtain ⟨undone, _, done⟩ := bind_ok.mp done
      cases done
    · obtain ⟨mapped, first, rest⟩ := bind_ok.mp done
      obtain ⟨q, index, low, rfl⟩ := setSsPag_ok.mp first
      have further := ih rest
      simp only [List.length_append, List.length_singleton] at further
      omega

theorem releasePages_nonneg {range : List Int} (done : mm.releasePages d range = .ok mm') : ∀ i ∈ range, 0 ≤ i := by
  induction range generalizing mm with
  | nil => simp
  | cons i range ih =>
    rw [releasePages, List.foldlM_cons] at done
    obtain ⟨middle, first, rest⟩ := bind_ok.mp done
    obtain ⟨q, rfl, _⟩ := releaseRound_ok.mp first
    intro j mem
    rcases List.mem_cons.mp mem with rfl | mem
    · omega
    · exact ih rest j mem

/-- The arithmetic of a shrinking heap: the smallest `int` has no negation, and with it
the loop starts below the table. -/
theorem shrink_exact {n heap : Int} (int : IsInt n) (negative : n < 0) (low : 0 ≤ heap)
    (high : pagLogInitHeap + heap ≤ totalPages)
    (release : mm.releasePages d (pages (int32 (pagLogInitHeap + heap - int32 (n * -1))) (pagLogInitHeap + heap)) =
      .ok mm') : int32 (n * -1) = -n ∧ int32 (pagLogInitHeap + heap - int32 (n * -1)) = pagLogInitHeap + heap + n := by
  have start : (pagLogInitHeap : Int) = 284 := rfl
  have size : (totalPages : Int) = 1024 := rfl
  obtain ⟨least, _⟩ := int
  by_cases smallest : n = -2147483648
  · subst smallest
    have negated : int32 (-2147483648 * -1) = -2147483648 := by decide
    have wrapped : int32 (pagLogInitHeap + heap - -2147483648) = pagLogInitHeap + heap - 2147483648 := by
      unfold int32
      rw [Int.bmod_def]
      omega
    rw [negated, wrapped] at release
    have := releasePages_nonneg release _ (mem_pages.mpr ⟨Int.le_refl _, by omega⟩)
    omega
  · have negated : int32 (n * -1) = -n := by rw [int32_of_range (by omega) (by omega)]; omega
    rw [negated] at release ⊢
    exact ⟨rfl, by rw [int32_of_range (by omega) (by omega)]; omega⟩

end Mm
end Zeos
