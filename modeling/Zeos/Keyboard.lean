import Zeos.Interrupt
import Zeos.Transition
import Zeos.Window

/-! The key buffer as a queue. Its indices tell a full buffer from an empty one only as
long as one cell stays unused; `keyboard_routine` presses into that cell as well. -/
namespace Zeos

inductive KeyOp where
  | press (c : UInt8)
  | pop
  deriving DecidableEq, Repr

/-- The buffer with the characters it accepted and those taken from it so far. -/
structure Keyboard where
  buffer : KeyBuffer
  accepted : List UInt8
  popped : List UInt8

namespace KeyBuffer

/-- The buffered characters, oldest first. -/
def contents (b : KeyBuffer) : List UInt8 := Window.read kbBufferSize b.buffer b.tail b.size

def InBounds (b : KeyBuffer) : Prop := b.head < kbBufferSize ∧ b.tail < kbBufferSize

theorem next_index {i : Nat} (h : i < kbBufferSize) :
    (i + 1) % kbBufferSize = if i = 254 then 0 else i + 1 := by
  simp only [kbBufferSize] at *
  split <;> omega

theorem size_lt {b : KeyBuffer} (valid : b.InBounds) : b.size < kbBufferSize := by
  obtain ⟨head, tail⟩ := valid
  unfold size
  split <;> simp at * <;> omega

theorem head_eq {b : KeyBuffer} (valid : b.InBounds) :
    b.head = (b.tail + b.size) % kbBufferSize := by
  obtain ⟨head, tail⟩ := valid
  unfold size
  split <;> simp at * <;> omega

theorem InBounds.push {b : KeyBuffer} (valid : b.InBounds) (c : UInt8) : (b.push c).InBounds :=
  ⟨Nat.mod_lt _ (by simp), valid.2⟩

theorem InBounds.pop {b : KeyBuffer} (valid : b.InBounds) : b.pop.2.InBounds :=
  ⟨valid.1, Nat.mod_lt _ (by simp)⟩

/-- Pressing into the last unused cell makes the buffer look empty. -/
theorem size_push {b : KeyBuffer} (valid : b.InBounds) (c : UInt8) :
    (b.push c).size = if b.size = 254 then 0 else b.size + 1 := by
  have head : (b.push c).head = if b.head = 254 then 0 else b.head + 1 := next_index valid.1
  have tail : (b.push c).tail = b.tail := rfl
  have := valid.1
  have := valid.2
  simp only [size, head, tail, kbBufferSize] at *
  grind

theorem size_pop {b : KeyBuffer} (valid : b.InBounds) (some : 1 ≤ b.size) :
    b.pop.2.size = b.size - 1 := by
  have head : b.pop.2.head = b.head := rfl
  have tail : b.pop.2.tail = if b.tail = 254 then 0 else b.tail + 1 := next_index valid.2
  have := valid.1
  have := valid.2
  simp only [size, head, tail, kbBufferSize] at *
  grind

theorem contents_push {b : KeyBuffer} (valid : b.InBounds) (c : UInt8) (room : b.size ≠ 254) :
    (b.push c).contents = b.contents ++ [c] := by
  have bound := size_lt valid
  have grown := size_push valid c
  rw [if_neg room] at grown
  unfold contents
  rw [grown]
  simp only [push]
  rw [head_eq valid]
  exact Window.read_push _ c bound

theorem contents_pop {b : KeyBuffer} (valid : b.InBounds) (some : 1 ≤ b.size) :
    b.contents = b.pop.1 :: b.pop.2.contents := by
  have shrunk := size_pop valid some
  unfold contents
  rw [shrunk]
  obtain ⟨n, size⟩ : ∃ n, b.size = n + 1 := ⟨b.size - 1, by omega⟩
  rw [size, Window.read_pop]
  simp [pop, Nat.mod_eq_of_lt valid.2]

end KeyBuffer

namespace Keyboard

def start : Keyboard := ⟨⟨fun _ => 0, 0, 0⟩, [], []⟩

/-- A key press as `keyboard_routine` handles it, or a pop from a buffer that is not empty. -/
def apply : KeyOp → Keyboard → Option Keyboard
  | .press c, k => some
      { k with
        buffer := k.buffer.press c
        accepted := if k.buffer.size < kbBufferSize then k.accepted ++ [c] else k.accepted }
  | .pop, k =>
    if 1 ≤ k.buffer.size then
      some { k with buffer := k.buffer.pop.2, popped := k.popped ++ [k.buffer.pop.1] }
    else none

def Step (k : Keyboard) (op : KeyOp) (k' : Keyboard) : Prop := k.apply op = some k'

/-- The buffer is a bounded queue: its size is what came in less what went out, the
characters went out in the order they came in, and a refused press loses none. -/
structure Fifo (k : Keyboard) : Prop where
  size : k.buffer.size + k.popped.length = k.accepted.length
  order : k.popped ++ k.buffer.contents = k.accepted
  refused : ∀ c, ¬ k.buffer.size < kbBufferSize → (k.buffer.press c).contents = k.buffer.contents

theorem step_bounds {k k' : Keyboard} {op : KeyOp} (valid : k.buffer.InBounds) (step : k.Step op k') :
    k'.buffer.InBounds := by
  cases op with
  | press c =>
    cases step
    simp only [KeyBuffer.press, KeyBuffer.size_lt valid, if_true]
    exact valid.push c
  | pop =>
    simp only [Step, apply, Option.ite_none_right_eq_some, Option.some.injEq] at step
    obtain ⟨_, rfl⟩ := step
    exact valid.pop

theorem bounds {ops : List KeyOp} {k : Keyboard} (path : Transition.Path Step start ops k) :
    k.buffer.InBounds :=
  path.invariant (fun k => k.buffer.InBounds) (fun _ _ _ valid step => step_bounds valid step)
    ⟨by simp [start], by simp [start]⟩

/-- A step keeps the queue unless it presses into the last unused cell. -/
theorem step_fifo {k k' : Keyboard} {op : KeyOp} (valid : k.buffer.InBounds) (fifo : k.Fifo)
    (step : k.Step op k') (room : ∀ c, op = .press c → k.buffer.size ≠ 254) : k'.Fifo := by
  have bounds := step_bounds valid step
  have small := KeyBuffer.size_lt valid
  have small' := KeyBuffer.size_lt bounds
  have size := fifo.size
  have order := fifo.order
  cases op with
  | press c =>
    have room := room c rfl
    cases step
    refine ⟨?_, ?_, fun _ full => absurd small' full⟩
    · simp [KeyBuffer.press, small, KeyBuffer.size_push valid, room]
      omega
    · simp only [KeyBuffer.press, small, if_true, KeyBuffer.contents_push valid c room]
      rw [← order, List.append_assoc]
  | pop =>
    simp only [Step, apply, Option.ite_none_right_eq_some, Option.some.injEq] at step
    obtain ⟨some, rfl⟩ := step
    refine ⟨?_, ?_, fun _ full => absurd small' full⟩
    · simp [KeyBuffer.size_pop valid some]
      omega
    · rw [← order, KeyBuffer.contents_pop valid some]
      simp

theorem path_fifo {ops : List KeyOp} {k : Keyboard} (path : Transition.Path Step start ops k)
    (room : ∀ pre c k, pre ++ [.press c] <+: ops → Transition.Path Step start pre k →
      k.buffer.size ≠ 254) : k.Fifo := by
  induction path with
  | nil => exact ⟨rfl, rfl, fun _ full => absurd (by simp [start, KeyBuffer.size]) full⟩
  | snoc path step ih =>
    refine step_fifo (bounds path) (ih fun pre c k first => ?_) step fun c press => ?_
    · exact room pre c k (first.trans (List.prefix_append ..))
    · exact room _ c _ (by simp [press]) path

/-- A press that finds 254 characters breaks the queue. -/
theorem overrun {k k' : Keyboard} {c : UInt8} (valid : k.buffer.InBounds) (full : k.buffer.size = 254)
    (step : k.Step (.press c) k') : ¬ (k.Fifo ∧ k'.Fifo) := by
  rintro ⟨before, after⟩
  have size := before.size
  have size' := after.size
  cases step
  simp [KeyBuffer.press, full, KeyBuffer.size_push valid] at size'
  omega

/-- The key buffer is a bounded queue in all states of a sequence of presses and pops
exactly when no key is pressed while 254 characters are buffered. -/
theorem kb_buffer_fifo_iff (ops : List KeyOp) :
    (∀ pre k, pre <+: ops → Transition.Path Step start pre k → k.Fifo) ↔
      ∀ pre c k, pre ++ [.press c] <+: ops → Transition.Path Step start pre k →
        k.buffer.size ≠ 254 := by
  refine ⟨fun fifo pre c k first path full => ?_, fun room pre k first path => ?_⟩
  · have step : k.Step (.press c) _ := rfl
    exact overrun (bounds path) full step
      ⟨fifo pre k ((List.prefix_append ..).trans first) path, fifo _ _ first (path.snoc step)⟩
  · exact path_fifo path fun pre' c k' inner => room pre' c k' (inner.trans first)

def run : List KeyOp → Keyboard → Option Keyboard
  | [], k => some k
  | op :: ops, k => (k.apply op).bind (run ops)

theorem run_path {ops : List KeyOp} {k k' : Keyboard} (h : run ops k = some k') :
    Transition.Path Step k ops k' := by
  induction ops generalizing k with
  | nil => cases h; exact .nil
  | cons op ops ih =>
    obtain ⟨m, first, rest⟩ := Option.bind_eq_some_iff.mp h
    exact (Transition.Path.single first).append (ih rest)

/-- After 255 presses and no pop the buffer reports no character. -/
theorem kb_buffer_overrun :
    ∃ k, Transition.Path Step start (List.replicate 255 (.press 97)) k ∧
      k.buffer.size = 0 ∧ k.accepted.length = 255 ∧ k.popped = [] ∧ ¬ k.Fifo := by
  have computed : ((run (List.replicate 255 (.press 97)) start).any fun k =>
      k.buffer.size = 0 ∧ k.accepted.length = 255 ∧ k.popped = []) = true := by decide +kernel
  rw [Option.any_eq_true] at computed
  obtain ⟨k, run, checked⟩ := computed
  obtain ⟨size, accepted, popped⟩ := of_decide_eq_true checked
  refine ⟨k, run_path run, size, accepted, popped, fun fifo => ?_⟩
  have := fifo.size
  simp [size, accepted, popped] at this

end Keyboard
end Zeos
