import Zeos.Readers

/-! The copy loop of `sys_read`. Nothing compares `maxchars` with the size of `tmpbuff`; what
keeps the loop inside is that the key buffer never holds that much. -/
namespace Zeos
open Outcome

namespace Keyboard

variable {ops : List KeyOp} {op : KeyOp} {k k' : Keyboard}

/-- What is buffered are the last accepted characters, and what was popped are some of those
before them. -/
def Drawn (k : Keyboard) : Prop := ∃ gone ≤ k.accepted.length,
  k.popped.Sublist (k.accepted.take gone) ∧ k.buffer.contents = k.accepted.drop gone

theorem Drawn.sublist (drawn : k.Drawn) : k.popped.Sublist k.accepted := by
  obtain ⟨gone, -, popped, -⟩ := drawn
  exact popped.trans (List.take_sublist _ _)

theorem Drawn.step (drawn : k.Drawn) (valid : k.buffer.InBounds) (step : k.Step op k') : k'.Drawn := by
  obtain ⟨gone, inside, popped, held⟩ := drawn
  have small := KeyBuffer.size_lt valid
  cases op with
  | press c =>
    cases step
    simp only [Drawn, KeyBuffer.press, small, if_true]
    by_cases full : k.buffer.size = 254
    · -- the buffer looks empty behind the press, and all it held is lost
      refine ⟨k.accepted.length + 1, by simp, ?_, ?_⟩
      · rw [List.take_of_length_le (by simp)]
        exact (popped.trans (List.take_sublist _ _)).trans (List.sublist_append_left _ _)
      · have none : (k.buffer.push c).size = 0 := by rw [KeyBuffer.size_push valid, if_pos full]
        rw [List.drop_of_length_le (by simp), KeyBuffer.contents, none]
        rfl
    · refine ⟨gone, by simp; omega, ?_, ?_⟩
      · rw [List.take_append_of_le_length inside]
        exact popped
      · rw [KeyBuffer.contents_push valid c full, held, List.drop_append_of_le_length inside]
  | pop =>
    simp only [Step, apply, Option.ite_none_right_eq_some, Option.some.injEq] at step
    obtain ⟨some, rfl⟩ := step
    have first := KeyBuffer.contents_pop valid some
    rw [held] at first
    have before : gone < k.accepted.length := by
      by_contra all
      rw [List.drop_of_length_le (by omega)] at first
      contradiction
    rw [List.drop_eq_getElem_cons before, List.cons.injEq] at first
    refine ⟨gone + 1, before, ?_, first.2.symm⟩
    rw [← List.take_append_getElem before, first.1]
    exact popped.append (List.Sublist.refl _)

theorem drawn (path : Transition.Path Step start ops k) : k.Drawn := by
  have both := path.invariant (fun k => k.buffer.InBounds ∧ k.Drawn)
    (fun _ _ _ ⟨valid, drawn⟩ step => ⟨step_bounds valid step, drawn.step valid step⟩)
    ⟨⟨by simp [start], by simp [start]⟩, 0, by simp [start], by simp [start], rfl⟩
  exact both.2

/-- The loop as pops of single characters. -/
theorem popChars_path (n : Nat) {i : Nat} {c : Core} (valid : k.buffer.InBounds) (buffer : c.kbBuffer = k.buffer)
    (enough : n ≤ k.buffer.size) (room : i + n ≤ readAuxBuffMaxSize) :
    ∃ c' k', c.popChars i n = .ok c' ∧ Transition.Path Step k (.replicate n .pop) k' ∧ c'.kbBuffer = k'.buffer ∧
      k'.popped = k.popped ++ (List.range n).map (fun j => c'.tmpbuff (i + j)) ∧ ∀ j < i, c'.tmpbuff j = c.tmpbuff j := by
  induction n generalizing i c k with
  | zero => exact ⟨c, k, rfl, .nil, buffer, by simp, fun _ _ => rfl⟩
  | succ n ih =>
    have step : k.Step .pop { k with buffer := k.buffer.pop.2, popped := k.popped ++ [k.buffer.pop.1] } := if_pos (by omega)
    have shrunk := KeyBuffer.size_pop valid (by omega)
    obtain ⟨c', k', done, path, same, popped, frame⟩ := ih (i := i + 1)
      (c := { c with kbBuffer := k.buffer.pop.2, tmpbuff := Function.update c.tmpbuff i k.buffer.pop.1 })
      (step_bounds valid step) rfl (by show n ≤ k.buffer.pop.2.size; omega) (by omega)
    refine ⟨c', k', ?_, ?_, same, ?_, fun j before => ?_⟩
    · rw [Core.popChars, if_pos (by omega), buffer]
      exact done
    · exact (Transition.Path.single step).append path
    · have here : c'.tmpbuff (i + 0) = k.buffer.pop.1 := by simpa using frame i (by omega)
      rw [popped, List.range_succ_eq_map, List.map_cons, List.map_map, here]
      show (k.popped ++ [k.buffer.pop.1]) ++ _ = _
      rw [List.append_assoc, List.singleton_append]
      congr 2
      apply List.map_congr_left
      intro j _
      show c'.tmpbuff (i + 1 + j) = c'.tmpbuff (i + (j + 1))
      congr 1
      omega
    · have other : j ≠ i := by omega
      simpa [other] using frame j (by omega)

/-- Behind the waiting loop of `sys_read`, for any number of characters, the copy loop stays
inside `tmpbuff` and takes characters that were pushed, and the indices of the key buffer stay
inside too. -/
theorem copy_loop_inside (path : Transition.Path Step start ops k) {c : Core} (buffer : c.kbBuffer = k.buffer)
    {maxchars : Int} (waited : ¬ c.kbBuffer.size < maxchars.toNat) :
    maxchars.toNat ≤ readAuxBuffMaxSize ∧ ∃ c' k', c.popChars 0 maxchars.toNat = .ok c' ∧
      Transition.Path Step k (.replicate maxchars.toNat .pop) k' ∧ c'.kbBuffer = k'.buffer ∧
      k'.popped = k.popped ++ (List.range maxchars.toNat).map c'.tmpbuff ∧ k'.popped.Sublist k'.accepted ∧
      ∀ n m, Transition.Path Step k (.replicate n .pop) m → m.buffer.InBounds := by
  have valid := bounds path
  have small := KeyBuffer.size_lt valid
  have limits : kbBufferSize = 255 ∧ readAuxBuffMaxSize = 1024 := ⟨rfl, rfl⟩
  rw [buffer] at waited
  have inside : maxchars.toNat ≤ readAuxBuffMaxSize := by omega
  obtain ⟨c', k', done, pops, same, popped, -⟩ := popChars_path maxchars.toNat valid buffer (by omega) (by rwa [Nat.zero_add])
  simp only [Nat.zero_add] at popped
  exact ⟨inside, c', k', done, pops, same, popped, (drawn (path.append pops)).sublist, fun n m rest => bounds (path.append rest)⟩

/-- All 254 characters of a full buffer are asked for. -/
theorem copy_loop_inside_full : ∃ c c' : Core, c.kbBuffer.size = 254 ∧ c.popChars 0 254 = .ok c' := by
  have some : (run (.replicate 254 (.press 97)) start).isSome := by decide +kernel
  obtain ⟨k, done⟩ := Option.isSome_iff_exists.mp some
  have full : (run (.replicate 254 (.press 97)) start).any (fun k => k.buffer.size = 254) = true := by decide +kernel
  rw [done] at full
  have full : k.buffer.size = 254 := of_decide_eq_true full
  have waited : ¬ ({ coldStart.core with kbBuffer := k.buffer } : Core).kbBuffer.size < (254 : Int).toNat := by
    show ¬ k.buffer.size < 254
    omega
  obtain ⟨-, c', -, loop, -⟩ := copy_loop_inside (run_path done) (by rfl) waited
  exact ⟨_, c', full, loop⟩

end Keyboard

theorem boot_kbBuffer : booted.core.kbBuffer = Keyboard.start.buffer := by
  unfold booted
  rfl

/-- The key buffer of a run is that of some presses and pops. -/
theorem RunWhere.keyboard {events : List Event} {s : State} (run : RunWhere (fun s e => s.core.Allowed e) events s) :
    ∃ ops k, Transition.Path Keyboard.Step Keyboard.start ops k ∧ s.core.kbBuffer = k.buffer := by
  obtain ⟨k, rep, -, -, pressed⟩ := run.invariant Core.Allowed
    (fun k => k.Attends ∧ ∃ ops q, Transition.Path Keyboard.Step Keyboard.start ops q ∧ k.core.kbBuffer = q.buffer)
    (fun ram => ⟨(Kernel.boot_patient ram).1, [], Keyboard.start, .nil, boot_kbBuffer⟩) (fun _ _ _ _ allowed => allowed)
    fun k e k' inv inv' ⟨attends, ops, q, path, same⟩ allowed step => by
      have reads := attends.readStep inv allowed step
      refine ⟨reads.attends inv inv' attends, ?_⟩
      cases reads with
      | apart idle unpressed readers kbBuffer => exact ⟨ops, q, path, kbBuffer.trans same⟩
      | sleep b maxchars goes readers kbBuffer => exact ⟨ops, q, path, kbBuffer.trans same⟩
      | press readInp char key pressed readers kbBuffer =>
        have press : q.Step (.press char) _ := rfl
        exact ⟨_, _, path.snoc press, by rw [kbBuffer, same]⟩
      | done b maxchars entered core goes first readers enough before read kEsp live kbBuffer =>
        obtain ⟨popped, loop, copy⟩ := bind_ok.mp read
        obtain ⟨mm, -, copy⟩ := bind_ok.mp copy
        cases copy
        rw [same] at enough
        have small := KeyBuffer.size_lt (Keyboard.bounds path)
        have limits : kbBufferSize = 255 ∧ readAuxBuffMaxSize = 1024 := ⟨rfl, rfl⟩
        obtain ⟨c', q', pops, rest, kept, -⟩ := Keyboard.popChars_path maxchars.toNat (Keyboard.bounds path)
          (before.1.trans same) enough (i := 0) (by omega)
        rw [pops] at loop
        cases loop
        exact ⟨_, q', path.append rest, kbBuffer.trans kept⟩
  exact rep.core ▸ pressed

end Zeos
