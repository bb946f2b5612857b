import Zeos.Frames
import Zeos.Transition

/-! The frame allocator on its own. `free_frame` leaves out the first frame that
`alloc_frame` gives. -/
namespace Zeos

inductive FrameOp where
  | alloc
  | free (frame : Nat)
  deriving DecidableEq, Repr

/-- The memory with the frames that are allocated and not freed since. -/
structure Pool where
  mm : Mm
  allocated : List Nat

namespace Pool

/-- The state behind `init_frames`. -/
def start : Pool := ⟨Mm.initMm, []⟩

/-- `alloc_frame`, or `free_frame` of an allocated frame. -/
def apply : FrameOp → Pool → Option Pool
  | .alloc, k =>
    match k.mm.allocFrame with
    | (some frame, mm) => some ⟨mm, frame :: k.allocated⟩
    | (none, mm) => some ⟨mm, k.allocated⟩
  | .free frame, k =>
    if frame ∈ k.allocated then some ⟨k.mm.freeFrame frame, k.allocated.erase frame⟩ else none

def Step (k : Pool) (op : FrameOp) (k' : Pool) : Prop := k.apply op = some k'

/-- What an operation does: it gives no kernel frame and none that is allocated, it fails
only when all frames it looks for are allocated, and a freed frame can be given again. -/
def Lawful (k : Pool) : FrameOp → Prop
  | .alloc => (∀ frame, k.mm.allocFrame.1 = some frame → numPagKernel ≤ frame ∧ frame ∉ k.allocated) ∧
      (k.mm.allocFrame.1 = none → ∀ frame ∈ searchFrames, frame ∈ k.allocated)
  | .free frame => frame ∈ searchFrames ∧ (k.mm.freeFrame frame).physMem frame = .freeFrame

/-- Allocated frames are marked. -/
structure Held (k : Pool) : Prop where
  nodup : k.allocated.Nodup
  search : ∀ frame ∈ k.allocated, frame ∈ searchFrames
  used : ∀ frame ∈ k.allocated, k.mm.physMem frame = .usedFrame

/-- Of the frames `alloc_frame` looks for, only allocated ones are marked. -/
def Exact (k : Pool) : Prop := ∀ frame ∈ searchFrames, k.mm.physMem frame = .usedFrame → frame ∈ k.allocated

variable {k k' : Pool} {op : FrameOp} {ops : List FrameOp}

theorem setFrame_physMem (mm : Mm) (frame : Nat) (use : FrameUse) (f : Nat) :
    (mm.setFrame frame use).physMem f = if f = frame then use else mm.physMem f := by
  simp [Mm.setFrame, Function.update_apply]

/-- The two things an operation can do to the memory. -/
theorem step_cases (step : k.Step op k') :
    (op = .alloc ∧ ∃ frame ∈ searchFrames, k.mm.physMem frame = .freeFrame ∧
      k' = ⟨k.mm.setFrame frame .usedFrame, frame :: k.allocated⟩) ∨
    (op = .alloc ∧ k' = k) ∨
    (∃ frame ∈ k.allocated, op = .free frame ∧ k' = ⟨k.mm.freeFrame frame, k.allocated.erase frame⟩) := by
  cases op with
  | alloc =>
    simp only [Step, apply] at step
    split at step <;> rename_i got <;> cases step
    · obtain ⟨search, free, rfl⟩ := Mm.allocFrame_some got
      exact .inl ⟨rfl, _, search, free, rfl⟩
    · obtain ⟨rfl, _⟩ := Mm.allocFrame_none got
      exact .inr (.inl ⟨rfl, rfl⟩)
  | free frame =>
    simp only [Step, apply, Option.ite_none_right_eq_some, Option.some.injEq] at step
    obtain ⟨mem, rfl⟩ := step
    exact .inr (.inr ⟨frame, mem, rfl, rfl⟩)

theorem freeFrame_other {mm : Mm} {frame f : Nat} (other : f ≠ frame) :
    (mm.freeFrame frame).physMem f = mm.physMem f := by
  unfold Mm.freeFrame
  split
  · rw [setFrame_physMem, if_neg other]
  · rfl

/-- `free_frame` frees every frame `alloc_frame` gives but the first. -/
theorem freeFrame_self {mm : Mm} {frame : Nat} (search : frame ∈ searchFrames) (other : frame ≠ numPagKernel) :
    (mm.freeFrame frame).physMem frame = .freeFrame := by
  obtain ⟨low, high⟩ := Mm.searchFrames_range search
  rw [Mm.freeFrame, if_pos ⟨by omega, high⟩, setFrame_physMem, if_pos rfl]

theorem freeFrame_first (mm : Mm) : mm.freeFrame numPagKernel = mm := by
  rw [Mm.freeFrame, if_neg]
  intro inside
  exact Nat.lt_irrefl _ inside.1

theorem Held.step (held : k.Held) (step : k.Step op k') : k'.Held := by
  rcases step_cases step with ⟨_, frame, search, free, rfl⟩ | ⟨_, rfl⟩ | ⟨frame, mem, _, rfl⟩
  · have fresh : frame ∉ k.allocated := by
      intro mem
      have used := held.used frame mem
      rw [free] at used
      contradiction
    refine ⟨List.nodup_cons.mpr ⟨fresh, held.nodup⟩, ?_, ?_⟩
    · intro f mem
      rcases List.mem_cons.mp mem with rfl | mem
      · exact search
      · exact held.search f mem
    · intro f mem
      rw [setFrame_physMem]
      split
      · rfl
      · rename_i other
        exact held.used f ((List.mem_cons.mp mem).resolve_left other)
  · exact held
  · refine ⟨held.nodup.erase frame, ?_, ?_⟩
    · intro f mem
      exact held.search f (List.mem_of_mem_erase mem)
    · intro f mem
      have other : f ≠ frame := by
        rintro rfl
        exact held.nodup.not_mem_erase mem
      rw [freeFrame_other other]
      exact held.used f (List.mem_of_mem_erase mem)

theorem held (path : Transition.Path Step start ops k) : k.Held := by
  apply path.invariant Held
  · intro k op k' held step
    exact held.step step
  · exact ⟨List.nodup_nil, fun _ mem => absurd mem List.not_mem_nil, fun _ mem => absurd mem List.not_mem_nil⟩

theorem Exact.step (exact_ : k.Exact) (held : k.Held) (kept : op ≠ .free numPagKernel) (step : k.Step op k') : k'.Exact := by
  intro f search used
  rcases step_cases step with ⟨_, frame, _, _, rfl⟩ | ⟨_, rfl⟩ | ⟨frame, mem, rfl, rfl⟩
  · rw [setFrame_physMem] at used
    split at used
    · rename_i same
      exact List.mem_cons.mpr (.inl same)
    · exact List.mem_cons_of_mem _ (exact_ f search used)
  · exact exact_ f search used
  · have other : f ≠ frame := by
      rintro rfl
      rw [freeFrame_self search fun first => kept (by rw [first])] at used
      contradiction
    rw [freeFrame_other other] at used
    exact (List.mem_erase_of_ne other).mpr (exact_ f search used)

theorem exact_of_kept (path : Transition.Path Step start ops k) (kept : .free numPagKernel ∉ ops) : k.Exact := by
  induction path with
  | nil =>
    intro f search used
    have low := (Mm.searchFrames_range search).1
    simp only [start, Mm.initMm] at used
    rw [if_neg (by omega)] at used
    contradiction
  | snoc first last ih =>
    rw [List.mem_append, List.mem_singleton, not_or] at kept
    exact (ih kept.1).step (held first) (Ne.symm kept.2) last

theorem Held.lawful (held : k.Held) (exact_ : k.Exact) (kept : op ≠ .free numPagKernel) (step : k.Step op k') :
    k.Lawful op := by
  cases op with
  | alloc =>
    constructor
    · intro frame got
      obtain ⟨search, free, _⟩ := Mm.allocFrame_some (Prod.ext got rfl)
      refine ⟨(Mm.searchFrames_range search).1, fun mem => ?_⟩
      have used := held.used frame mem
      rw [free] at used
      contradiction
    · intro out frame search
      have marked := (Mm.allocFrame_none (Prod.ext out rfl)).2 frame search
      apply exact_ frame search
      cases use : k.mm.physMem frame
      · exact absurd use marked
      · rfl
  | free frame =>
    have mem : frame ∈ k.allocated := by
      by_contra absent
      simp [Step, apply, absent] at step
    refine ⟨held.search frame mem, freeFrame_self (held.search frame mem) ?_⟩
    rintro rfl
    exact kept rfl

/-- The first frame stays marked when it is freed. -/
theorem alloc_freeFirst : ∃ k, Transition.Path Step start [.alloc] k ∧ k.allocated = [numPagKernel] ∧
    ¬ k.Lawful (.free numPagKernel) := by
  refine ⟨⟨Mm.initMm.setFrame numPagKernel .usedFrame, [numPagKernel]⟩, .single rfl, rfl, ?_⟩
  rintro ⟨_, free⟩
  rw [freeFrame_first, setFrame_physMem] at free
  contradiction

/-- All operations of a sequence are lawful exactly when it does not free the first frame. -/
theorem lawful_iff_kept (path : Transition.Path Step start ops k) :
    (∀ pre op m m', pre ++ [op] <+: ops → Transition.Path Step start pre m → m.Step op m' → m.Lawful op) ↔
      .free numPagKernel ∉ ops := by
  constructor
  · intro lawful freed
    obtain ⟨pre, m, m', first, run, step⟩ := path.mem freed
    have mem : numPagKernel ∈ m.allocated := by
      by_contra absent
      simp [Step, apply, absent] at step
    have free := (lawful pre _ m m' first run step).2
    rw [freeFrame_first, (held run).used _ mem] at free
    contradiction
  · intro kept pre op m m' first run step
    have mem (x : FrameOp) (here : x ∈ pre ++ [op]) : x ∈ ops := first.subset here
    apply (held run).lawful (exact_of_kept run fun here => kept (mem _ (List.mem_append_left _ here))) _ step
    rintro rfl
    exact kept (mem _ (by simp))

/-- Two frames are taken and the second is freed. -/
theorem lawful_second : ∃ m m', Transition.Path Step start [.alloc, .alloc] m ∧ m.Step (.free 258) m' ∧ m.Lawful (.free 258) := by
  have reached : ((Transition.follow apply [.alloc, .alloc] start).bind (apply (.free 258))).isSome := by decide
  obtain ⟨m', all⟩ := Option.isSome_iff_exists.mp reached
  obtain ⟨m, first, last⟩ := Option.bind_eq_some_iff.mp all
  have path : Transition.Path Step start [.alloc, .alloc] m := Transition.follow_path first
  have lawful := (lawful_iff_kept (path.snoc last)).mpr (by decide)
  exact ⟨m, m', path, last, lawful _ _ m m' List.prefix_rfl path last⟩

end Pool
end Zeos
