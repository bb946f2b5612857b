import Zeos.Bounds

/-! Frames without owners and heaps that others resize: neither is met in a run that
resizes heaps only while one address space is in use. -/
namespace Zeos
open Outcome

/-- The father's growing moves the heap of its child, whose table has no such page. -/
def resizedByFather : List Event := [.syscall .fork, .syscall (.dynMem 1)]

/-- The father grows by a page, the child gives back a page, and the father grows again. -/
def grownTwice : List Event :=
  [.syscall .fork, .syscall (.dynMem 1)] ++ List.replicate 10 .clock ++ [.syscall (.dynMem (-1))] ++
    List.replicate 10 .clock ++ [.syscall (.dynMem 1)]

/-- A frame at an own page of a live task is used, and mapped nowhere else; a used frame
that is neither the kernel's nor the code's is at such a page. -/
structure State.FramesOwned (s : State) : Prop where
  used : ∀ t d p, s.core.live t → (s.core.task t).dirPagesBaseAddr = some d → OwnPage p →
    (s.core.mm.pagusrTable d p).present →
      s.core.mm.physMem (s.core.mm.pagusrTable d p).pbaseAddr = .usedFrame ∧
      ∀ d' p', (s.core.mm.pagusrTable d' p').present →
        (s.core.mm.pagusrTable d' p').pbaseAddr = (s.core.mm.pagusrTable d p).pbaseAddr → d' = d ∧ p' = p
  mapped : ∀ f, numPagKernel ≤ f → f ∉ codeFrames → s.core.mm.physMem f = .usedFrame →
    ∃ t d p, s.core.live t ∧ (s.core.task t).dirPagesBaseAddr = some d ∧ OwnPage p ∧ p < totalPages ∧
      (s.core.mm.pagusrTable d p).present ∧ (s.core.mm.pagusrTable d p).pbaseAddr = f

/-- Every task but the idle one has a heap counter; it is the number of the pages mapped
from the start of the heap on, which are consecutive. -/
structure State.HeapsCounted (s : State) : Prop where
  counter : ∀ t, s.core.live t → t ≠ idleTask → (s.core.task t).myHeap.isSome
  extent : ∀ t z d, s.core.live t → (s.core.task t).myHeap = some z → (s.core.task t).dirPagesBaseAddr = some d →
    0 ≤ s.core.mm.heapZones z ∧ pagLogInitHeap + s.core.mm.heapZones z ≤ totalPages ∧
      ∀ p, pagLogInitHeap ≤ p →
        ((s.core.mm.pagusrTable d p).present ↔ (p : Int) < pagLogInitHeap + s.core.mm.heapZones z)

/-- The running task does not change what tasks of other address spaces see of their heaps. -/
def State.HeapsApart (s : State) (e : Event) : Prop :=
  ∀ s', Step s e s' → ∀ t, s.core.live t → (s.core.task t).dirPagesBaseAddr ≠ s.core.ct.dirPagesBaseAddr →
    s.core.Spares s'.core t

namespace Core

variable {c : Core}

/-- The frame is in no table of a live task, up to the first heap page. -/
def Unmapped (c : Core) (f : Nat) : Prop :=
  ∀ t, c.live t → ∀ d, (c.task t).dirPagesBaseAddr = some d → ∀ p < pagLogInitHeap + 1, OwnPage p →
    (c.mm.pagusrTable d p).pbaseAddr ≠ f

instance (c : Core) (f : Nat) : Decidable (c.Unmapped f) := by unfold Unmapped; infer_instance

theorem Owned.used (owned : c.Owned) {d : Dir} {p : Nat} (page : OwnPage p) (present : (c.mm.pagusrTable d p).present) :
    c.mm.physMem (c.mm.pagusrTable d p).pbaseAddr = .usedFrame ∧
      ∀ d' p', (c.mm.pagusrTable d' p').present →
        (c.mm.pagusrTable d' p').pbaseAddr = (c.mm.pagusrTable d p).pbaseAddr → d' = d ∧ p' = p := by
  have held : c.mm.ledger.holds (d, p) = some (c.mm.pagusrTable d p).pbaseAddr :=
    Mm.Fair.holds_some.mpr ⟨page, present, rfl⟩
  obtain ⟨kernel, code, used⟩ := owned.fair.balanced.marked held
  refine ⟨used, fun d' p' present' same => ?_⟩
  by_cases page' : OwnPage p'
  · have held' : c.mm.ledger.holds (d', p') = some (c.mm.pagusrTable d p).pbaseAddr :=
      Mm.Fair.holds_some.mpr ⟨page', present', same⟩
    exact Prod.ext_iff.mp (owned.fair.balanced.once _ _ _ held' held)
  · rcases owned.fair.fixed d' p' page' with low | mem
    · rw [same] at low
      omega
    · rw [same] at mem
      exact absurd mem code

theorem Owned.mapped (owned : c.Owned) {f : Nat} (kernel : numPagKernel ≤ f) (code : f ∉ codeFrames)
    (used : c.mm.physMem f = .usedFrame) :
    ∃ t d p, c.live t ∧ (c.task t).dirPagesBaseAddr = some d ∧ OwnPage p ∧ p < totalPages ∧
      (c.mm.pagusrTable d p).present ∧ (c.mm.pagusrTable d p).pbaseAddr = f := by
  rcases (owned.fair.balanced.taken f).mp ⟨kernel, code, used⟩ with ⟨⟨d, p⟩, held⟩ | mem
  · obtain ⟨page, present, frame⟩ := Mm.Fair.holds_some.mp held
    have inside := (owned.extent d p page).mp present
    have ends : c.heapEnd d ≤ totalPages := by
      unfold heapEnd
      split
      · exact owned.zone.2
      · decide
    obtain ⟨t, live, _, own⟩ : c.Peopled d := by
      by_contra unpeopled
      rw [heapEnd, if_neg unpeopled] at inside
      omega
    exact ⟨t, d, p, live, own, page, by omega, present, frame⟩
  · contradiction

end Core

/-- Ownership holds behind every run with lonely resizes. -/
theorem owned_of_solitary {events : List Event} {s : State}
    (run : RunWhere (fun s e => s.core.Solitary e) events s) : ∃ k, Refines s k ∧ k.Inv ∧ k.core.Owned ∧ k.core.Loaded :=
  run.invariant Core.Solitary (fun k => k.core.Owned ∧ k.core.Loaded)
    (fun ram => ⟨Core.boot_owned ram, Core.boot_loaded ram⟩) (fun _ _ _ _ solitary => solitary.1.1)
    fun _ _ _ inv _ ⟨owned, loaded⟩ solitary step =>
      have remembers := Kernel.step_remembers inv solitary.1.1 step
      ⟨(owned.step loaded inv.between.live solitary remembers.1).1, remembers.2 loaded⟩

/-- In a run whose heaps stay below a limit the tables are empty behind it. -/
theorem below_of_within {limit : Int} (low : pagLogInitHeap ≤ limit) (small : limit ≤ totalPages) {events : List Event}
    {s : State} (run : RunWhere (fun s e => s.core.Allowed e ∧ s.core.Within limit e) events s) : s.core.Below limit := by
  obtain ⟨k, rep, _, below⟩ := run.invariant (fun c e => c.Allowed e ∧ c.Within limit e) (fun k => k.core.Below limit)
    (Core.boot_below low) (fun _ _ _ _ on => on.1) fun _ _ _ inv _ below on step =>
      below.step small inv.between.live on.2 (Kernel.step_remembers inv on.1 step).1
  rwa [rep.core]

/-- A frame is left without an owner. -/
theorem framesOwned_grownTwice : ∃ s, Run grownTwice s ∧ ¬ s.FramesOwned := by
  obtain ⟨s, run, checked⟩ := executeBoot_run (fun s e => s.core.Allowed e ∧ s.core.Within (pagLogInitHeap + 1) e) grownTwice
    (fun s => s.core.mm.physMem 352 = .usedFrame ∧ s.core.Unmapped 352) (by decide +kernel)
  simp only [decide_eq_true_eq] at run checked
  obtain ⟨used, unmapped⟩ := checked
  have below := below_of_within (by decide) (by decide) run
  refine ⟨s, run.run, fun owned => ?_⟩
  obtain ⟨t, d, p, live, own, page, _, _, frame⟩ := owned.mapped 352 (by decide) (by decide) used
  by_cases low : p < pagLogInitHeap + 1
  · exact unmapped t live d own p low page frame
  · rw [below.tidy.empty d p (by omega)] at frame
    contradiction

theorem framesOwned_of_solitary {events : List Event} {s : State}
    (run : RunWhere (fun s e => s.core.Solitary e) events s) : s.FramesOwned := by
  obtain ⟨k, rep, _, owned, _⟩ := owned_of_solitary run
  rw [← rep.core] at owned
  exact ⟨fun t d p _ _ page present => owned.used page present, fun f => owned.mapped⟩

/-- `task1` grows its heap and forks. -/
theorem framesOwned_of_grown : ∃ s, RunWhere (fun s e => s.core.Solitary e)
    [.syscall (.dynMem 1), .syscall .fork] s ∧ s.FramesOwned := by
  obtain ⟨s, run, _⟩ := executeBoot_run (fun s e => s.core.Solitary e) [.syscall (.dynMem 1), .syscall .fork] (fun _ => true)
    (by decide +kernel)
  have run : RunWhere (fun s e => s.core.Solitary e) [.syscall (.dynMem 1), .syscall .fork] s := by simpa using run
  exact ⟨s, run, framesOwned_of_solitary run⟩

/-- The child counts a page it does not have. -/
theorem heapsCounted_resizedByFather : ∃ s, Run resizedByFather s ∧ ¬ s.HeapsCounted := by
  obtain ⟨s, run, checked⟩ := executeBoot_run (fun _ _ => true) resizedByFather
    (fun s => s.core.live 2 ∧ (s.core.task 2).myHeap = some 2 ∧ (s.core.task 2).dirPagesBaseAddr = some 3 ∧
      s.core.mm.heapZones 2 = 1 ∧ (s.core.mm.pagusrTable 3 284).present = false) (by decide +kernel)
  simp only [decide_eq_true_eq] at checked
  obtain ⟨live, heap, own, zone, absent⟩ := checked
  refine ⟨s, run.run, fun counted => ?_⟩
  have present := ((counted.extent 2 2 3 live heap own).2.2 284 (by decide)).mpr (by rw [zone]; decide)
  rw [absent] at present
  cases present

theorem heapsCounted_of_solitary {events : List Event} {s : State}
    (run : RunWhere (fun s e => s.core.Solitary e) events s) :
    s.HeapsCounted ∧ ∀ e, s.core.Solitary e → s.HeapsApart e := by
  obtain ⟨k, rep, inv, owned, loaded⟩ := owned_of_solitary run
  refine ⟨?_, fun e solitary s' step t live apart => ?_⟩
  · rw [← rep.core] at owned
    refine ⟨fun t live task => by rw [owned.heap t live task]; rfl, fun t z d live heap own => ?_⟩
    obtain ⟨task, rfl⟩ := owned.zone_eq live heap
    refine ⟨owned.zone.1, owned.zone.2, fun p above => ?_⟩
    rw [← owned.end_peopled ⟨t, live, task, own⟩]
    exact owned.extent d p (ownPage_heap above)
  · rw [rep.core] at solitary live apart ⊢
    obtain ⟨k', step', rep', _⟩ := rep.advance inv solitary.1.1 step
    rw [rep'.core]
    exact (owned.step loaded inv.between.live solitary (Kernel.step_remembers inv solitary.1.1 step').1).2 t live apart

/-- `task1` grows its heap, forks and gives nothing back. -/
theorem heapsCounted_of_grown : ∃ s, RunWhere (fun s e => s.core.Solitary e)
    [.syscall (.dynMem 1), .syscall .fork] s ∧ s.HeapsCounted := by
  obtain ⟨s, run, _⟩ := executeBoot_run (fun s e => s.core.Solitary e) [.syscall (.dynMem 1), .syscall .fork] (fun _ => true)
    (by decide +kernel)
  have run : RunWhere (fun s e => s.core.Solitary e) [.syscall (.dynMem 1), .syscall .fork] s := by simpa using run
  exact ⟨s, run, (heapsCounted_of_solitary run).1⟩

end Zeos
