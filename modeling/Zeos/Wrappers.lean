import Zeos.Handlers

/-! The calls of the C library reach the routines of `sys_call_table` with their arguments,
and come back to their callers. -/
namespace Zeos
open Words Assembly Relation Listing

variable {I : Image Symbol} {m : Machine} {k : Nat} {number : Word32} {ret : Symbol} {args : List Word32}

namespace Listing

/-- `enter` without the last instruction. -/
def ready (number : Word32) (args : Nat) (ret : Symbol) : List (Instr Symbol) :=
  [.push (.reg .ebp), .mov .esp .ebp] ++ (argRegs args).map (fun r => .push (.reg r)) ++
    (argRegs args).mapIdx (fun i r => .movLoad (BitVec.ofNat 32 (8 + 4 * i)) .ebp r) ++
    [.movImm number .eax, .pushLabel ret, .push (.reg .ebp), .mov .esp .ebp]

theorem enter_eq (number : Word32) (args : Nat) (ret : Symbol) :
    enter number args ret = ready number args ret ++ [.sysenter] := by
  simp [enter, ready]

theorem ready_straight (number : Word32) (args : Nat) (ret : Symbol) : ∀ i ∈ ready number args ret, i.straight := by
  intro i mem
  simp only [ready, List.mem_append, List.mem_cons, List.not_mem_nil, or_false, List.mem_map, List.mem_mapIdx] at mem
  obtain ((((rfl | rfl) | ⟨_, _, rfl⟩) | ⟨_, _, rfl⟩) | rfl | rfl | rfl | rfl) := mem <;> rfl

end Listing

/-- What a wrapper puts on the stack of its caller. -/
def callerPushes (I : Image Symbol) (m : Machine) (k : Nat) (ret : Symbol) : List Word32 :=
  m.reg .ebp :: (argRegs k).map m.reg ++ [I.sym ret, m.esp - 4]

section Caller

variable (I : Image Symbol) (m : Machine) (number : Word32) (ret : Symbol)

theorem ready_rest (le : k ≤ 3) : I.execs (Listing.ready number k ret) m =
    { m.pushAll (callerPushes I m k ret) with reg := (I.execs (Listing.ready number k ret) m).reg } := by
  obtain rfl | rfl | rfl | rfl : k = 0 ∨ k = 1 ∨ k = 2 ∨ k = 3 := by omega
  all_goals rfl

theorem ready_number (le : k ≤ 3) : (I.execs (Listing.ready number k ret) m).reg .eax = number := by
  obtain rfl | rfl | rfl | rfl : k = 0 ∨ k = 1 ∨ k = 2 ∨ k = 3 := by omega
  all_goals rfl

theorem ready_stack (le : k ≤ 3) :
    (I.execs (Listing.ready number k ret) m).reg .ebp = (m.pushAll (callerPushes I m k ret)).esp := by
  obtain rfl | rfl | rfl | rfl : k = 0 ∨ k = 1 ∨ k = 2 ∨ k = 3 := by omega
  all_goals rfl

theorem ready_others (le : k ≤ 3) {r : Reg} (other : r ∉ argRegs k) (eax : r ≠ .eax) (ebp : r ≠ .ebp) (esp : r ≠ .esp) :
    (I.execs (Listing.ready number k ret) m).reg r = m.reg r := by
  obtain rfl | rfl | rfl | rfl : k = 0 ∨ k = 1 ∨ k = 2 ∨ k = 3 := by omega
  all_goals cases r <;> first | rfl | simp [argRegs] at other eax ebp esp

theorem ready_loads (le : k ≤ 3) : (argRegs k).map (I.execs (Listing.ready number k ret) m).reg =
    (List.range k).map fun i =>
      load (m.pushAll (m.reg .ebp :: (argRegs k).map m.reg)).mem (m.esp - 4 + BitVec.ofNat 32 (8 + 4 * i)) := by
  obtain rfl | rfl | rfl | rfl : k = 0 ∨ k = 1 ∨ k = 2 ∨ k = 3 := by omega
  all_goals rfl

end Caller

theorem argRegs_length (le : k ≤ 3) : (argRegs k).length = k := by
  rw [argRegs, List.length_take]
  exact Nat.min_eq_left le

theorem ready_args (I : Image Symbol) (number : Word32) (ret : Symbol) (holds : Stored m.mem (m.esp + 4) args)
    (le : args.length ≤ 3) :
    (argRegs args.length).map (I.execs (Listing.ready number args.length ret) m).reg = args := by
  have pushed : (m.reg .ebp :: (argRegs args.length).map m.reg).length = args.length + 1 := by simp [argRegs_length le]
  have kept := Machine.pushAll_same (m.reg .ebp :: (argRegs args.length).map m.reg) m
    (a := m.esp + 4) (n := 4 * args.length) (by rw [pushed]; constructor <;> bv_omega) (by rw [pushed]; omega)
  have stay := holds.same kept
  rw [ready_loads I m number ret le]
  apply List.ext_getElem
  · simp
  · intro i _ inside
    have place : m.esp - 4 + BitVec.ofNat 32 (8 + 4 * i) = m.esp + 4 + BitVec.ofNat 32 (4 * i) := by bv_omega
    rw [List.getElem_map, List.getElem_range, place]
    exact stay.word inside

/-- The state at the entry point of the kernel, with the stack of the caller in `EBP`. -/
structure Switched (I : Image Symbol) (m h : Machine) (number : Word32) (args : List Word32) (ret : Symbol) : Prop where
  eip : h.eip = m.msr 0x176
  cs : h.seg .cs = (m.msr 0x174).setWidth 16
  ss : h.seg .ss = (m.msr 0x174 + 8).setWidth 16
  seg : ∀ s, s ≠ .cs → s ≠ .ss → h.seg s = m.seg s
  esp : h.esp = m.msr 0x175
  msr : h.msr = m.msr
  disabled : h.enabled = false
  eax : h.reg .eax = number
  ebp : h.reg .ebp = m.esp - BitVec.ofNat 32 (4 * (args.length + 3))
  passed : (argRegs args.length).map h.reg = args
  others : ∀ r, r ∉ argRegs args.length → r ≠ .eax → r ≠ .ebp → r ≠ .esp → h.reg r = m.reg r
  holds : Stored h.mem (h.reg .ebp) ([m.esp - 4, I.sym ret] ++ (((argRegs args.length).map m.reg).reverse ++ [m.reg .ebp, m.top]))
  kept : ∀ a n, Apart a n (m.esp - BitVec.ofNat 32 (4 * (args.length + 3))) (4 * (args.length + 3)) → Same a n m.mem h.mem

theorem enter_path (code : I.At m.eip (Listing.enter number args.length ret)) (holds : Stored m.mem (m.esp + 4) args)
    (le : args.length ≤ 3) : ∃ h, I.Path m h ∧ Switched I m h number args ret := by
  have length : (callerPushes I m args.length ret).length = args.length + 3 := by
    simp [callerPushes, argRegs_length le]
  have top : Stored m.mem m.esp [m.top] := ⟨rfl, trivial⟩
  have pushed := Machine.pushAll_holds (callerPushes I m args.length ret) top (by rw [length, List.length_singleton]; omega)
  have stack : (m.pushAll (callerPushes I m args.length ret)).esp = m.esp - BitVec.ofNat 32 (4 * (args.length + 3)) := by
    rw [← length]
    exact Machine.pushAll_reg ..
  have words : (callerPushes I m args.length ret).reverse ++ [m.top] =
      [m.esp - 4, I.sym ret] ++ (((argRegs args.length).map m.reg).reverse ++ [m.reg .ebp, m.top]) := by
    simp [callerPushes]
  rw [words] at pushed
  rw [Listing.enter_eq] at code
  obtain ⟨a, path, -⟩ := code.leap (Listing.ready_straight number args.length ret)
  have shown := ready_rest I m number ret le
  have eax := ready_number I m number ret le
  have ebp := ready_stack I m number ret le
  have regs := ready_args I number ret holds le
  have others := fun r => ready_others I m number ret le (r := r)
  generalize I.execs (Listing.ready number args.length ret) m = s at path shown eax ebp regs others
  have mem : s.mem = (m.pushAll (callerPushes I m args.length ret)).mem := by rw [shown]
  have seg : s.seg = m.seg := by
    rw [shown]
    exact Machine.pushAll_seg ..
  have msr : s.msr = m.msr := by rw [shown, Machine.pushAll_rest]
  have noStack : Reg.esp ∉ argRegs args.length := by
    intro mem
    have := List.mem_of_mem_take mem
    simp at this
  have reg (r : Reg) (other : r ≠ .esp) : (({ s with eip := a } : Machine).exec I.sym .sysenter).reg r = s.reg r :=
    Function.update_of_ne other ..
  refine ⟨_, path, ?_⟩
  constructor
  · exact congrFun msr _
  · exact congrArg (·.setWidth 16) (congrFun msr _)
  · exact congrArg (fun w => (w + 8).setWidth 16) (congrFun msr _)
  · intro x cs ss
    rw [← seg]
    exact (Function.update_of_ne ss ..).trans (Function.update_of_ne cs ..)
  · exact congrFun msr _
  · exact msr
  · exact (setBit_get 9 9 false s.eflags (by decide)).trans (if_pos rfl)
  · exact (reg .eax (by decide)).trans eax
  · exact (reg .ebp (by decide)).trans (ebp.trans stack)
  · refine (List.map_congr_left fun r mem => reg r fun same => noStack (same ▸ mem)).trans regs
  · intro r other eax ebp esp
    exact (reg r esp).trans (others r other eax ebp esp)
  · rw [reg .ebp (by decide), ebp]
    exact mem ▸ pushed
  · intro b n apart
    have same := Machine.pushAll_same (callerPushes I m args.length ret) m (by rw [length]; exact apart)
      (by rw [length]; omega)
    exact mem ▸ same

/-- What a wrapper took from the stack of its caller. -/
structure Popped (b c : Machine) (k : Nat) (regs : Reg → Word32) (ebp : Word32) : Prop where
  ebp : c.reg .ebp = ebp
  esp : c.esp = b.esp + BitVec.ofNat 32 (4 * (k + 2))
  saved : ∀ r ∈ argRegs k, c.reg r = regs r
  others : ∀ r, r ∉ argRegs k → r ≠ .ebp → r ≠ .esp → c.reg r = b.reg r
  seg : c.seg = b.seg
  mem : c.mem = b.mem
  enabled : c.enabled = b.enabled

theorem popped_saved (x : Machine) (regs : Reg → Word32) (le : k ≤ 3) :
    ∀ r ∈ argRegs k, ((x.drop k).setAll (((argRegs k).reverse.map .reg).zip ((argRegs k).map regs).reverse)).reg r = regs r := by
  obtain rfl | rfl | rfl | rfl : k = 0 ∨ k = 1 ∨ k = 2 ∨ k = 3 := by omega
  all_goals simp only [argRegs, List.take_zero, List.take_succ_cons, List.mem_cons, List.not_mem_nil, or_false, forall_eq_or_imp,
    forall_eq, false_implies, implies_true]
  · rfl
  · exact ⟨rfl, rfl⟩
  · exact ⟨rfl, rfl, rfl⟩

theorem popped_others (x : Machine) (regs : Reg → Word32) (le : k ≤ 3) {r : Reg} (other : r ∉ argRegs k) (esp : r ≠ .esp) :
    ((x.drop k).setAll (((argRegs k).reverse.map .reg).zip ((argRegs k).map regs).reverse)).reg r = x.reg r := by
  obtain rfl | rfl | rfl | rfl : k = 0 ∨ k = 1 ∨ k = 2 ∨ k = 3 := by omega
  all_goals cases r <;> first | rfl | simp [argRegs] at other esp

theorem popped_rest (x : Machine) (regs : Reg → Word32) (le : k ≤ 3) :
    (x.drop k).setAll (((argRegs k).reverse.map .reg).zip ((argRegs k).map regs).reverse) = { x with
      reg := ((x.drop k).setAll (((argRegs k).reverse.map .reg).zip ((argRegs k).map regs).reverse)).reg } ∧
    ((x.drop k).setAll (((argRegs k).reverse.map .reg).zip ((argRegs k).map regs).reverse)).esp =
      x.esp + BitVec.ofNat 32 (4 * k) := by
  obtain rfl | rfl | rfl | rfl : k = 0 ∨ k = 1 ∨ k = 2 ∨ k = 3 := by omega
  all_goals exact ⟨rfl, rfl⟩

theorem skip_exec (I : Image Symbol) (b : Machine) : Popped b (I.execs [.pop (.reg .ebp), .add 4 .esp] b) 0 b.reg b.top where
  ebp := rfl
  esp := by
    have : b.esp + 4 + 4 = b.esp + 8 := by bv_omega
    exact this
  saved r mem := absurd mem List.not_mem_nil
  others r _ ebp esp := (Function.update_of_ne esp ..).trans ((Function.update_of_ne ebp ..).trans (Function.update_of_ne esp ..))
  seg := rfl
  mem := rfl
  enabled := Machine.arith_enabled ((b.drop 1).set (.reg .ebp) b.top) ..

theorem back_path {b : Machine} {regs : Reg → Word32} {ebp label : Word32} {rest : List (Instr Symbol)} {ws : List Word32}
    (code : I.At b.eip (Listing.back k ++ rest)) (le : k ≤ 3)
    (holds : Stored b.mem b.esp ([ebp, label] ++ (((argRegs k).map regs).reverse ++ ws))) :
    ∃ c, I.Path b c ∧ Popped b c k regs ebp ∧ I.At c.eip rest := by
  have pops : Listing.back k = [.pop (.reg .ebp), .add 4 .esp] ++ ((argRegs k).reverse.map .reg).map Instr.pop := by
    simp [Listing.back, List.map_map, Function.comp_def]
  have top : b.top = ebp := holds.1
  have skipped := skip_exec I b
  obtain ⟨a, path, code⟩ := code.straight (by
    rw [pops]
    intro i mem
    simp only [List.mem_append, List.mem_cons, List.not_mem_nil, or_false, List.mem_map] at mem
    obtain (rfl | rfl) | ⟨_, _, rfl⟩ := mem <;> rfl)
  rw [pops, Image.execs_append] at path
  generalize I.execs [.pop (.reg .ebp), .add 4 .esp] b = x at path skipped
  have behind := (Stored.append.mp holds).2
  have esp : b.esp + 8 = x.esp := skipped.esp.symm
  have there : Stored x.mem x.esp (((argRegs k).map regs).reverse ++ ws) := by
    rw [skipped.mem, ← esp]
    exact behind
  have noStack : Reg.esp ∉ argRegs k := fun mem => by simpa using List.mem_of_mem_take mem
  have noFrame : Reg.ebp ∉ argRegs k := fun mem => by simpa using List.mem_of_mem_take mem
  rw [Image.execs_pop there (by simp) (by simpa using noStack), List.length_map, List.length_reverse, argRegs_length le] at path
  obtain ⟨shown, stack⟩ := popped_rest x regs le
  have saved := popped_saved x regs le
  have others := fun r => popped_others x regs le (r := r)
  generalize (x.drop k).setAll (((argRegs k).reverse.map .reg).zip ((argRegs k).map regs).reverse) = c
    at path shown stack saved others
  refine ⟨_, path, ⟨?_, ?_, saved, fun r other ebp esp => ?_, ?_, ?_, ?_⟩, code⟩
  · exact (others .ebp noFrame (by decide)).trans (skipped.ebp.trans top)
  · refine stack.trans ?_
    rw [← esp]
    bv_omega
  · exact (others r other esp).trans (skipped.others r List.not_mem_nil ebp esp)
  · rw [shown]
    exact skipped.seg
  · rw [shown]
    exact skipped.mem
  · rw [shown]
    exact skipped.enabled

/-- The value that comes back is an error for the wrapper. -/
def Wrapper.fails (w : Wrapper) (v : Word32) : Bool := w.checks && v.slt 0

/-- What a wrapper gives its caller for a value that comes back. -/
def Wrapper.answer (w : Wrapper) (v : Word32) : Word32 := if w.fails v then -1 else v

/-- Memory behind a wrapper's check. -/
def Wrapper.report (I : Image Symbol) (w : Wrapper) (v : Word32) (m : Memory) : Memory :=
  if w.fails v then store m (I.sym .errno) (-v) else m

/-- The state behind the check. -/
structure Finished (I : Image Symbol) (w : Wrapper) (c d : Machine) : Prop where
  eax : d.reg .eax = w.answer (c.reg .eax)
  others : ∀ r, r ≠ .eax → d.reg r = c.reg r
  seg : d.seg = c.seg
  mem : d.mem = w.report I (c.reg .eax) c.mem
  enabled : d.enabled = c.enabled

theorem report_exec (I : Image Symbol) (x : Machine) : ∃ f, f.getLsbD 9 = x.enabled ∧
    I.execs [.neg .eax, .movTo .eax Symbol.errno, .movImm (-1) .eax] x = { x with
      reg := Function.update x.reg .eax (-1)
      eflags := f
      mem := store x.mem (I.sym .errno) (-x.reg .eax) } := by
  refine ⟨_, Machine.arith_enabled x (-x.reg .eax) (x.reg .eax ≠ 0) (x.reg .eax).negOverflow, ?_⟩
  simp only [Image.execs, List.foldl_cons, List.foldl_nil, Machine.exec, Machine.setReg, Function.update_self,
    Function.update_idem, Machine.arith]

theorem finish_path (assembled : Line.Assembled Listing.all I) {w : Wrapper} {c : Machine}
    (code : I.At c.eip (w.finish ++ Listing.leave)) : ∃ d, I.Path c d ∧ Finished I w c d ∧ I.At d.eip Listing.leave := by
  cases checks : w.checks with
  | false =>
    have silent : w.fails (c.reg .eax) = false := by rw [Wrapper.fails, checks, Bool.false_and]
    rw [Wrapper.finish, checks] at code
    refine ⟨c, .refl, ⟨?_, fun _ _ => rfl, rfl, ?_, rfl⟩, code⟩
    · rw [Wrapper.answer, silent]
      rfl
    · rw [Wrapper.report, silent]
      rfl
  | true =>
    have same : w.fails (c.reg .eax) = (c.reg .eax).slt 0 := by rw [Wrapper.fails, checks, Bool.true_and]
    rw [Wrapper.finish, checks, if_pos rfl] at code
    obtain ⟨f, a, enabled, path, code⟩ := Image.At.notLess code
    cases negative : (c.reg .eax).slt 0 with
    | false =>
      rw [negative, if_neg Bool.false_ne_true] at path
      refine ⟨_, path, ⟨?_, fun _ _ => rfl, rfl, ?_, enabled⟩, assembled.code (w.leaves checks)⟩
      · rw [Wrapper.answer, same, negative]
        rfl
      · rw [Wrapper.report, same, negative]
        rfl
    | true =>
      rw [negative, if_pos rfl] at path
      obtain ⟨b, reporting, code⟩ := Image.At.straight (m := { c with eip := a, eflags := f })
        (show I.At a ([.neg .eax, .movTo .eax Symbol.errno, .movImm (-1) .eax] ++ _) from code) (by decide)
      obtain ⟨f', enabled', executed⟩ := report_exec I { c with eip := a, eflags := f }
      rw [executed] at reporting
      refine ⟨_, path.trans reporting, ⟨?_, fun r other => Function.update_of_ne other .., rfl, ?_, enabled'.trans enabled⟩, code⟩
      · rw [Wrapper.answer, same, negative]
        rfl
      · rw [Wrapper.report, same, negative]
        rfl

theorem leave_path {d : Machine} {ebp address : Word32} (code : I.At d.eip Listing.leave)
    (holds : Stored d.mem d.esp [ebp, address]) :
    ∃ e, I.Path d e ∧ e.eip = address ∧ e.esp = d.esp + 8 ∧ e.reg .ebp = ebp ∧
      (∀ r, r ≠ .ebp → r ≠ .esp → e.reg r = d.reg r) ∧ e.seg = d.seg ∧ e.mem = d.mem ∧ e.eflags = d.eflags := by
  obtain ⟨top, behind, -⟩ := holds
  obtain ⟨a, popping, code⟩ := Image.At.next code
  obtain ⟨b, returning, -⟩ := Image.At.next (m := { d with eip := a }.exec I.sym (.pop (.reg .ebp))) code
  refine ⟨_, popping.trans returning, behind, ?_, top, fun r ebp esp => ?_, rfl, rfl, rfl⟩
  · have : d.esp + 4 + 4 = d.esp + 8 := by bv_omega
    exact this
  · exact (Function.update_of_ne esp ..).trans ((Function.update_of_ne ebp ..).trans (Function.update_of_ne esp ..))

section Frame

variable {h x : Machine} {regs : Registers}

theorem frame_regs (le : k ≤ 3) (kept : regs.words.drop k = (Registers.of h).words.drop k) {r : Reg} (other : r ∉ argRegs k)
    (saved : r ∈ [Reg.ebx, .esi, .edi]) : (regs.into x).reg r = h.reg r := by
  have word (i : Nat) (above : k ≤ i) : regs.words[i]? = (Registers.of h).words[i]? := by
    obtain ⟨j, rfl⟩ := Nat.exists_eq_add_of_le above
    rw [← List.getElem?_drop, ← List.getElem?_drop, kept]
  simp only [List.mem_cons, List.not_mem_nil, or_false] at saved
  obtain rfl | rfl | rfl := saved
  · have above : k ≤ 2 := by
      by_contra beyond
      have : k = 3 := by omega
      subst this
      exact other (by decide)
    exact Option.some.inj (word 2 above)
  · exact Option.some.inj (word 3 le)
  · exact Option.some.inj (word 4 (by omega))

theorem frame_segs (le : k ≤ 3) (kept : regs.words.drop k = (Registers.of h).words.drop k) {s : Seg} (cs : s ≠ .cs)
    (ss : s ≠ .ss) :
    (regs.into x).seg s = h.seg s := by
  have word (i : Nat) (above : k ≤ i) : regs.words[i]? = (Registers.of h).words[i]? := by
    obtain ⟨j, rfl⟩ := Nat.exists_eq_add_of_le above
    rw [← List.getElem?_drop, ← List.getElem?_drop, kept]
  have narrow := h.get_seg
  cases s with
  | cs | ss => contradiction
  | ds => exact (congrArg (·.setWidth 16) (Option.some.inj (word 7 (by omega)))).trans (narrow .ds)
  | es => exact (congrArg (·.setWidth 16) (Option.some.inj (word 8 (by omega)))).trans (narrow .es)
  | fs => exact (congrArg (·.setWidth 16) (Option.some.inj (word 9 (by omega)))).trans (narrow .fs)
  | gs => exact (congrArg (·.setWidth 16) (Option.some.inj (word 10 (by omega)))).trans (narrow .gs)

end Frame

namespace Wrapper

/-- A wrapper is called. The stacks, the table and `errno` have nothing in common, where a
wrapper pushes up to six words and the kernel 17. -/
structure Ready (I : Image Symbol) (w : Wrapper) (m : Machine) (args : List Word32) : Prop where
  eip : m.eip = I.sym (.wrapper w)
  given : Stored m.mem (m.esp + 4) args
  length : args.length = w.args
  cs : m.seg .cs = 0x23
  ss : m.seg .ss = 0x2B
  kernel : m.msr 0x174 = kernelCs
  entry : m.msr 0x176 = I.sym .syscallHandlerSysenter
  table : Stored m.mem (I.sym .sysCallTable) (sysCallTable.map fun r => I.sym (.routine r))
  apart : Apart (m.esp - 24) 28 (m.msr 0x175 - 68) 68
  tableCaller : Apart (I.sym .sysCallTable) 84 (m.esp - 24) 24
  tableKernel : Apart (I.sym .sysCallTable) 84 (m.msr 0x175 - 68) 68
  errno : Apart (m.esp - 24) 28 (I.sym .errno) 4

/-- The routine is entered in the kernel, with the arguments on its stack and interrupts off. -/
structure Serves (I : Image Symbol) (w : Wrapper) (m s : Machine) (args : List Word32) : Prop where
  eip : s.eip = I.sym (.routine w.routine)
  cs : s.seg .cs = 0x10
  ss : s.seg .ss = 0x18
  ds : s.seg .ds = 0x18
  es : s.seg .es = 0x18
  disabled : s.enabled = false
  msr : s.msr = m.msr
  esp : s.esp = m.msr 0x175 - 68
  given : Stored s.mem (s.esp + 4) args
  kept : ∀ a n, Apart a n (m.esp - 24) 24 → Apart a n (m.msr 0x175 - 68) 68 → Same a n m.mem s.mem

/-- The caller `m` goes on behind a routine that returned `v` on the kernel stack below `top`. -/
structure Returns (I : Image Symbol) (w : Wrapper) (m : Machine) (top v : Word32) (mem : Memory) (e : Machine) : Prop where
  eip : e.eip = m.top
  esp : e.esp = m.esp + 4
  eax : e.reg .eax = w.answer v
  saved : ∀ r, r ∈ [Reg.ebp, .ebx, .esi, .edi] ∨ r ∈ argRegs w.args → e.reg r = m.reg r
  seg : e.seg = m.seg
  enabled : e.enabled = true
  kept : ∀ a n, Apart a n (top - 64) 64 → Same a n (w.report I v mem) e.mem

variable {w : Wrapper} {h s s' : Machine}

/-- Into the kernel. -/
theorem enters_kernel (assembled : Line.Assembled Listing.all I) (fast : w ≠ .gettime) (ready : w.Ready I m args) :
    ∃ h, I.Path m h ∧ Switched I m h w.number args (.ret w.tail) := by
  have code := assembled.code (w.enters fast)
  rw [← ready.eip, ← ready.length] at code
  exact enter_path code ready.given (ready.length ▸ w.args_le)

theorem number_index (w : Wrapper) : w.number.toNat < sysCallTable.length := by
  cases w <;> decide

/-- What the caller pushed is in its stack. -/
theorem caller_inside (few : args.length ≤ 3) {b : Word32} {n : Nat} (apart : Apart b n (m.esp - 24) 24) :
    Apart b n (m.esp - BitVec.ofNat 32 (4 * (args.length + 3))) (4 * (args.length + 3)) :=
  apart.shrink (i := 24 - 4 * (args.length + 3)) (by bv_omega) (by omega) (by omega)

theorem report_same {v a : Word32} {n : Nat} (mem : Memory) (apart : Apart a n (I.sym .errno) 4) :
    Same a n mem (w.report I v mem) := by
  unfold report
  split
  · exact store_same mem (-v) apart
  · exact Same.refl a n mem

theorem report_congr {v a : Word32} {n : Nat} {mem mem' : Memory} (same : Same a n mem mem') :
    Same a n (w.report I v mem) (w.report I v mem') := by
  unfold report
  split
  · exact store_congr same (I.sym .errno) (-v)
  · exact same

/-- The first words of the frame are what C takes for arguments. -/
theorem words_take (few : k ≤ 3) : (Registers.of h).words.take k = (argRegs k).map h.reg := by
  obtain rfl | rfl | rfl | rfl : k = 0 ∨ k = 1 ∨ k = 2 ∨ k = 3 := by omega
  all_goals rfl

theorem serves (assembled : Line.Assembled Listing.all I) (ready : w.Ready I m args)
    (switched : Switched I m h w.number args (.ret w.tail)) :
    ∃ s, I.Path h s ∧ Serving h s (I.sym (.routine w.routine)) ∧ w.Serves I m s args ∧
      ∀ s', s'.eip = s.top → I.Path s' { s' with eip := I.sym .sysenterFin } := by
  have few : args.length ≤ 3 := ready.length ▸ w.args_le
  have small := w.number_index
  have count : sysCallTable.length = 21 := rfl
  have index : tableIndex (h.reg .eax) = some w.number := by
    rw [switched.eax]
    exact w.tableIndex_number
  have ebp := switched.ebp
  have esp := switched.esp
  have user : Apart (h.reg .ebp + 4) 4 (h.esp - 16) 16 := by
    have part := ready.apart.part (i := 16 - 4 * args.length) (j := 4) (by omega) (by omega)
    have place : m.esp - 24 + BitVec.ofNat 32 (16 - 4 * args.length) = h.reg .ebp + 4 := by
      rw [ebp]
      bv_omega
    rw [place] at part
    exact part.shrink (i := 52) (by rw [esp]; bv_omega) (by omega) (by omega)
  have place : I.sym .sysCallTable + BitVec.ofNat 32 (4 * w.number.toNat) = I.sym .sysCallTable + w.number * 4 := by bv_omega
  have table : Apart (I.sym .sysCallTable + w.number * 4) 4 (h.esp - 68) 68 := by
    rw [esp, ← place]
    exact ready.tableKernel.part (by omega) (by omega)
  obtain ⟨s, path, serving, back⟩ := sysenter_serves assembled (switched.eip.trans ready.entry) user index table
  have routine : load h.mem (I.sym .sysCallTable + w.number * 4) = I.sym (.routine w.routine) := by
    have holds := ready.table.same (switched.kept _ _ (caller_inside few ready.tableCaller))
    have word := holds.word (i := w.number.toNat) (by simpa using small)
    have entry := w.routine_number
    rw [List.getElem?_eq_getElem small] at entry
    rw [place, List.getElem_map, Option.some.inj entry] at word
    exact word
  rw [routine] at serving
  refine ⟨s, path, serving, ⟨serving.eip, ?_, ?_, serving.ds, serving.es, ?_, serving.msr.trans switched.msr, ?_, ?_,
    fun a n caller kernel => ?_⟩, back⟩
  · rw [serving.cs, switched.cs, ready.kernel]
    rfl
  · rw [serving.ss, switched.ss, ready.kernel]
    rfl
  · exact serving.enabled.trans switched.disabled
  · exact serving.esp.trans (congrArg (· - 68) esp)
  · have holds := serving.holds
    rw [← List.take_append_drop args.length (Registers.of h).words, words_take few, switched.passed, List.append_assoc] at holds
    exact (Stored.append.mp holds).1
  · have first := switched.kept a n (caller_inside few caller)
    exact first.trans (serving.kept a n (esp ▸ kernel))

/-- What a wrapper left on the stack of its caller. -/
def frame (I : Image Symbol) (w : Wrapper) (m : Machine) : List Word32 :=
  [m.esp - 4, I.sym (.ret w.tail)] ++ (((argRegs w.args).map m.reg).reverse ++ [m.reg .ebp, m.top])

/-- Where it begins. -/
def base (w : Wrapper) (m : Machine) : Word32 := m.esp - BitVec.ofNat 32 (4 * (w.args + 3))

theorem frame_length (I : Image Symbol) (w : Wrapper) (m : Machine) : (w.frame I m).length = w.args + 4 := by
  simp [frame, argRegs_length w.args_le]

theorem base_place (w : Wrapper) (m : Machine) : m.esp - 24 + BitVec.ofNat 32 (12 - 4 * w.args) = w.base m := by
  have few := w.args_le
  unfold base
  bv_omega

/-- A routine of the table has come back, on the stack of a task that a wrapper called from. -/
structure Answered (I : Image Symbol) (w : Wrapper) (m x : Machine) (regs : Registers) : Prop where
  eip : x.eip = I.sym .sysenterFin
  msr : x.msr 0x174 = kernelCs
  holds : ∃ flags, Stored x.mem x.esp (regs.words ++ [I.sym (.ret w.tail), userCs, flags, w.base m, userDs])
  frame : Stored x.mem (w.base m) (w.frame I m)
  reg : ∀ r, r ∉ argRegs w.args → r ∈ [Reg.ebx, .esi, .edi] → (regs.into x).reg r = m.reg r
  seg : ∀ s, s ≠ .cs → s ≠ .ss → (regs.into x).seg s = m.seg s
  cs : m.seg .cs = 0x23
  ss : m.seg .ss = 0x2B
  apart : Apart (w.base m) (4 * (w.args + 4)) x.esp 64
  errno : Apart (m.esp - 24) 28 (I.sym .errno) 4

/-- Out of the kernel and back to the caller. -/
theorem Answered.returns {x : Machine} {regs : Registers} (assembled : Line.Assembled Listing.all I) (fast : w ≠ .gettime)
    (answered : w.Answered I m x regs) : ∃ e, I.Path x e ∧ w.Returns I m (x.esp + 64) (x.reg .eax) x.mem e := by
  have few := w.args_le
  obtain ⟨flags, holds⟩ := answered.holds
  obtain ⟨u, leaving, left, mem⟩ := sysenter_leaves (answered.eip ▸ assembled.code Listing.sysenter_behind.2.2) holds answered.msr
  have saving : Same (w.base m) (4 * (w.args + 4)) x.mem u.mem := by
    rw [mem]
    apply store_same
    exact answered.apart.shrink (i := 24) rfl (by omega) (by omega)
  have there := answered.frame.same (show Same _ _ _ u.mem by
    rw [frame_length]
    exact saving)
  have code := assembled.code (w.ends fast)
  rw [← left.eip] at code
  rw [← left.esp] at there
  obtain ⟨c, popping, popped, code⟩ := back_path code few there
  obtain ⟨d, finishing, finished, code⟩ := finish_path assembled code
  have value : c.reg .eax = x.reg .eax :=
    (popped.others .eax (fun mem => by simpa using List.mem_of_mem_take mem) (by decide) (by decide)).trans
      (congrFun (congrArg Machine.reg left.regs) .eax).symm
  have bottom : c.esp = m.esp - 4 := by
    rw [popped.esp, left.esp, base]
    bv_omega
  have behind : Stored c.mem c.esp [m.reg .ebp, m.top] := by
    have top := (Stored.append.mp (Stored.append.mp there).2).2
    have place : u.esp + BitVec.ofNat 32 (4 * [m.esp - 4, I.sym (.ret w.tail)].length) +
        BitVec.ofNat 32 (4 * ((argRegs w.args).map m.reg).reverse.length) = c.esp := by
      rw [popped.esp, List.length_reverse, List.length_map, argRegs_length few]
      simp only [List.length_cons, List.length_nil]
      bv_omega
    rw [place] at top
    rw [popped.mem]
    exact top
  have stay : d.esp = c.esp := finished.others .esp (by decide)
  have last : Stored d.mem d.esp [m.reg .ebp, m.top] := by
    rw [stay]
    apply behind.same
    rw [finished.mem, bottom]
    apply report_same
    have part := answered.errno.part (i := 20) (j := 8) (by omega) (by omega)
    have place : m.esp - 24 + BitVec.ofNat 32 20 = m.esp - 4 := by bv_omega
    rwa [place] at part
  obtain ⟨e, going, eip, esp, frame, others, seg, same, flags⟩ := leave_path code last
  refine ⟨e, ((leaving.trans popping).trans finishing).trans going, ⟨eip, ?_, ?_, ?_, ?_, ?_, ?_⟩⟩
  · rw [esp, stay, bottom]
    bv_omega
  · rw [others .eax (by decide) (by decide), finished.eax, value]
  · intro r saved
    by_cases base : r = .ebp
    · rw [base, frame]
    · have passed : r ∈ argRegs w.args → r ∈ [Reg.edx, .ecx, .ebx] := List.mem_of_mem_take
      have stack : r ≠ .esp := by
        rintro rfl
        simp at saved passed
        exact passed saved
      have value : r ≠ .eax := by
        rintro rfl
        simp at saved passed
        exact passed saved
      rw [others r base stack, finished.others r value]
      by_cases argument : r ∈ argRegs w.args
      · exact popped.saved r argument
      · have kind : r ∈ [Reg.ebx, .esi, .edi] := by simpa [base] using saved.resolve_right argument
        rw [popped.others r argument base stack, ← left.regs, ← answered.reg r argument kind]
        simp only [List.mem_cons, List.not_mem_nil, or_false] at kind
        obtain rfl | rfl | rfl := kind <;> rfl
  · rw [seg, finished.seg, popped.seg]
    funext s
    by_cases cs : s = .cs
    · rw [cs, left.cs, answered.cs]
    · by_cases ss : s = .ss
      · rw [ss, left.ss, answered.ss]
      · rw [← left.regs, ← answered.seg s cs ss]
        cases s <;> first | contradiction | rfl
  · have enabled : d.enabled = true := by rw [finished.enabled, popped.enabled, left.enabled]
    exact (congrArg (·.getLsbD 9) flags).trans enabled
  · intro a n apart
    rw [same, finished.mem, popped.mem, value, mem]
    apply report_congr
    apply store_same
    exact apart.shrink (i := 24) (by bv_omega) (by omega) (by omega)

/-- The words that a call left on a kernel stack, and those on the stack of its caller. -/
theorem answered {x : Machine} {regs : Registers} (ready : w.Ready I m args)
    (switched : Switched I m h w.number args (.ret w.tail)) (serving : Serving h s (I.sym (.routine w.routine)))
    (eip : x.eip = I.sym .sysenterFin) (msr : x.msr 0x174 = kernelCs)
    (kept : regs.words.drop w.args = (Registers.of h).words.drop w.args) (holds : Stored x.mem x.esp (regs.words ++ context h))
    (stack : Same (m.esp - 24) 28 s.mem x.mem) (kernel : Apart (m.esp - 24) 28 x.esp 64) : w.Answered I m x regs := by
  have few := w.args_le
  have ebp : h.reg .ebp = w.base m := by
    rw [base, ← ready.length]
    exact switched.ebp
  have begins : Stored h.mem (w.base m) (w.frame I m) := by
    rw [← ebp, frame, ← ready.length]
    exact switched.holds
  have label : load h.mem (h.reg .ebp + 4) = I.sym (.ret w.tail) := ebp ▸ begins.2.1
  have outside := stack.part (i := 12 - 4 * w.args) (j := 4 * (w.args + 4)) (by omega)
  have apart := ready.apart.part (i := 12 - 4 * w.args) (j := 4 * (w.args + 4)) (by omega) (by omega)
  have part := kernel.part (i := 12 - 4 * w.args) (j := 4 * (w.args + 4)) (by omega) (by omega)
  rw [base_place] at outside apart part
  rw [context, label, ebp] at holds
  refine ⟨eip, msr, ⟨h.eflags, holds⟩, ?_, ?_, ?_, ready.cs, ready.ss, part, ready.errno⟩
  · refine begins.same ?_
    rw [frame_length]
    exact (serving.kept _ _ (switched.esp ▸ apart)).trans outside
  · intro r argument kind
    have others : ∀ r ∈ [Reg.ebx, .esi, .edi], r ≠ .eax ∧ r ≠ .ebp ∧ r ≠ .esp := by decide
    obtain ⟨eax, frame, esp⟩ := others r kind
    rw [frame_regs few kept argument kind]
    exact switched.others r (ready.length ▸ argument) eax frame esp
  · intro x cs ss
    rw [frame_segs few kept cs ss]
    exact switched.seg x cs ss

/-- The routine that was called comes back. -/
theorem returns (assembled : Line.Assembled Listing.all I) (fast : w ≠ .gettime) (ready : w.Ready I m args)
    (switched : Switched I m h w.number args (.ret w.tail)) (serving : Serving h s (I.sym (.routine w.routine)))
    (resumes : I.Path s' { s' with eip := I.sym .sysenterFin }) (back : Returned s s' w.args (4 * (16 - w.args)))
    (kernel : s'.msr 0x174 = kernelCs) (stack : Same (m.esp - 24) 28 s.mem s'.mem) :
    ∃ e, I.Path s' e ∧ w.Returns I m (m.msr 0x175) (s'.reg .eax) s'.mem e := by
  have few := w.args_le
  have top : s'.esp = m.msr 0x175 - 64 := by
    rw [back.esp, serving.esp, switched.esp]
    bv_omega
  have length : 11 - w.args + (context h).length = 16 - w.args := by
    simp [context]
    omega
  obtain ⟨holds, kept⟩ := registers_returned serving.holds few (length.symm ▸ back)
  have answered := answered (x := { s' with eip := I.sym .sysenterFin }) ready switched serving rfl kernel kept holds stack
    (ready.apart.shrink (i := 4) (by rw [top]; bv_omega) (by omega) (by omega))
  obtain ⟨e, path, returns⟩ := answered.returns assembled fast
  have above : s'.esp + 64 = m.msr 0x175 := by
    rw [top]
    exact BitVec.sub_add_cancel ..
  exact ⟨e, resumes.trans path, above ▸ returns⟩

/-- A call of the C library arrives at its routine, and its caller goes on with the answer. -/
theorem calls_routine (assembled : Line.Assembled Listing.all I) (fast : w ≠ .gettime) (ready : w.Ready I m args) :
    ∃ s, I.Path m s ∧ w.Serves I m s args ∧
      ∀ s', Returned s s' w.args (4 * (16 - w.args)) → s'.msr 0x174 = kernelCs → Same (m.esp - 24) 28 s.mem s'.mem →
        ∃ e, I.Path s' e ∧ w.Returns I m (m.msr 0x175) (s'.reg .eax) s'.mem e := by
  obtain ⟨h, entering, switched⟩ := enters_kernel assembled fast ready
  obtain ⟨s, serving, served, serves, resumes⟩ := serves assembled ready switched
  refine ⟨s, entering.trans serving, serves, fun s' back kernel stack => ?_⟩
  exact returns assembled fast ready switched served (resumes s' back.eip) back kernel stack

theorem Returns.errno {top v : Word32} {mem : Memory} (returns : w.Returns I m top v mem h) (fails : w.fails v)
    (apart : Apart (I.sym .errno) 4 (top - 64) 64) : load h.mem (I.sym .errno) = -v := by
  rw [(returns.kept _ _ apart).load (by decide), report, if_pos fails]
  exact load_store ..

/-- The program calls `write(1, 0x120000, 5)`. -/
def caller : Machine :=
  { program with
    eip := image.sym (.wrapper .write)
    mem := stores program.mem 0x300000 [0x150000, 1, 0x120000, 5] }

theorem caller_ready : write.Ready image caller [1, 0x120000, 5] where
  eip := rfl
  given := by decide +kernel
  length := rfl
  cs := rfl
  ss := rfl
  kernel := rfl
  entry := rfl
  table := by decide +kernel
  apart := by decide +kernel
  tableCaller := by decide +kernel
  tableKernel := by decide +kernel
  errno := by decide +kernel

/-- `write` on a descriptor that is not open for it. -/
theorem caller_calls : ∃ s e, image.Path caller s ∧ s.eip = 0x220004 ∧ Stored s.mem (s.esp + 4) [1, 0x120000, 5] ∧
    image.Path { s with eip := s.top, reg := Function.update (Function.update s.reg .esp (s.esp + 4)) .eax (-9) } e ∧
    e.eip = 0x150000 ∧ e.reg .eax = -1 ∧ load e.mem (image.sym .errno) = 9 := by
  obtain ⟨s, path, serves, back⟩ := calls_routine image_assembled (by decide) caller_ready
  obtain ⟨e, leaving, returns⟩ := back
    { s with eip := s.top, reg := Function.update (Function.update s.reg .esp (s.esp + 4)) .eax (-9) }
    ⟨rfl, rfl, rfl, rfl, fun _ _ => rfl⟩ (congrFun serves.msr 0x174) (fun _ _ => rfl)
  have routine : image.sym (.routine write.routine) = 0x220004 := by decide +kernel
  have top : caller.top = 0x150000 := by decide +kernel
  have error : -(-9 : Word32) = 9 := by decide
  exact ⟨s, e, path, serves.eip.trans routine, serves.given, leaving, returns.eip.trans top, returns.eax,
    (returns.errno rfl (by decide +kernel)).trans error⟩

theorem gettime_behind : [.push (.reg .ebp), .mov .esp .ebp, .movImm 0x0A .eax] ++ .int 0x80 :: Listing.leave <+:
    Line.behind (.wrapper .gettime) Listing.all := by
  decide +kernel

/-- `gettime` is called, from user mode. -/
structure ReadyTrap (I : Image Symbol) (m : Machine) (before : Idt) : Prop where
  eip : m.eip = I.sym (.wrapper .gettime)
  user : ¬ m.inKernel
  idt : ∀ n, m.idt n = (setIdt I.sym before n).target
  table : Stored m.mem (I.sym .sysCallTable) (sysCallTable.map fun r => I.sym (.routine r))
  apart : Apart (m.esp - 4) 8 (m.esp0 - 68) 68
  tableCaller : Apart (I.sym .sysCallTable) 84 (m.esp - 4) 4
  tableKernel : Apart (I.sym .sysCallTable) 84 (m.esp0 - 68) 68

/-- The state that `gettime` traps in. -/
structure Trapping (I : Image Symbol) (m u : Machine) : Prop where
  code : I.At u.eip Listing.leave
  mem : u.mem = store m.mem (m.esp - 4) (m.reg .ebp)
  seg : u.seg = m.seg
  eflags : u.eflags = m.eflags
  esp0 : u.esp0 = m.esp0
  idt : u.idt = m.idt
  eax : u.reg .eax = 0x0A
  esp : u.esp = m.esp - 4
  others : ∀ r, r ≠ .eax → r ≠ .ebp → r ≠ .esp → u.reg r = m.reg r

theorem gettime_traps (assembled : Line.Assembled Listing.all I) (eip : m.eip = I.sym (.wrapper .gettime)) :
    ∃ u, I.Path m (u.interrupt 0x80) ∧ Trapping I m u := by
  have code := assembled.code gettime_behind
  rw [← eip] at code
  obtain ⟨a, path, code⟩ := code.leap (by decide)
  have executed : I.execs [.push (.reg .ebp), .mov .esp .ebp, .movImm 0x0A .eax] m =
      { m.push (m.reg .ebp) with
        reg := Function.update (Function.update (Function.update m.reg .esp (m.esp - 4)) .ebp (m.esp - 4)) .eax 0x0A } := by
    simp only [Image.execs, List.foldl_cons, List.foldl_nil, Machine.exec, Machine.get, Machine.push, Machine.setReg,
      Function.update_self]
  rw [executed] at path
  refine ⟨_, path, code, rfl, rfl, rfl, rfl, rfl, rfl, rfl, fun r other base stack => ?_⟩
  exact (Function.update_of_ne other ..).trans ((Function.update_of_ne base ..).trans (Function.update_of_ne stack ..))

namespace Trapping

variable {u : Machine} {before : Idt}

theorem user (trapping : Trapping I m u) (ready : ReadyTrap I m before) : ¬ u.inKernel := by
  rw [Machine.inKernel, trapping.seg]
  exact ready.user

theorem enter (trapping : Trapping I m u) (ready : ReadyTrap I m before) : u.enter.esp = m.esp0 := by
  rw [Machine.enter_esp, if_neg (trapping.user ready), trapping.esp0]

theorem frame_length (trapping : Trapping I m u) (ready : ReadyTrap I m before) : u.frame.length = 5 := by
  simp [Machine.frame, trapping.user ready]

theorem index (trapping : Trapping I m u) : tableIndex (u.reg .eax) = some 0x0A := by
  rw [trapping.eax]
  decide

theorem serves (trapping : Trapping I m u) (ready : ReadyTrap I m before) (assembled : Line.Assembled Listing.all I) :
    ∃ s, I.Path (u.interrupt 0x80) s ∧ Entered u s (I.sym (.routine .sysGettime)) ∧
      ∀ s', s'.eip = s.top → I.Path s' { s' with eip := I.sym .fin } := by
  have gate : u.idt 0x80 = (0x10, I.sym .systemCallHandler) := by
    rw [trapping.idt, ready.idt]
    exact (setIdt_gates I.sym before (p := 3) (by decide)).1
  have table := ready.tableKernel.part (i := 4 * 10) (j := 4) (by omega) (by omega)
  rw [← trapping.enter ready] at table
  obtain ⟨s, path, entered, resumes⟩ := trap_serves assembled gate trapping.index table
  have holds := ready.table.same (show Same _ _ _ u.mem by
    rw [trapping.mem]
    exact store_same m.mem (m.reg .ebp) ready.tableCaller)
  have word : load u.mem (I.sym .sysCallTable + 0x0A * 4) = I.sym (.routine .sysGettime) :=
    holds.word (i := 10) (Nat.lt_of_lt_of_eq (by decide) (List.length_map ..).symm)
  exact ⟨s, path, word ▸ entered, resumes⟩

theorem returns (trapping : Trapping I m u) (ready : ReadyTrap I m before) (assembled : Line.Assembled Listing.all I)
    {s s' : Machine} (entered : Entered u s (I.sym (.routine .sysGettime))) (back : Returned s s' 0 64)
    (stack : Same (m.esp - 4) 8 s.mem s'.mem) :
    ∃ v, I.Path { s' with eip := I.sym .fin } v ∧ Resumed u { Registers.of u with eax := s'.reg .eax } v ∧
      Stored v.mem v.esp [m.reg .ebp, m.top] := by
  have length := trapping.frame_length ready
  have enter := trapping.enter ready
  obtain ⟨kept, v, path, resumed, mem⟩ := trap_returns assembled entered trapping.index (Nat.zero_le 3)
    (by rw [length]; exact back)
  have found : Registers.found s'.mem s'.esp = Registers.of u := Registers.words_injective kept
  have answer : systemCallHandler (fun _ => s'.reg .eax) (Registers.of u) = { Registers.of u with eax := s'.reg .eax } := by
    have saved : (Registers.of u).eax = u.reg .eax := rfl
    simp only [systemCallHandler, result, saved, trapping.index]
  rw [found, answer] at resumed
  have top : Stored m.mem m.esp [m.top] := ⟨rfl, trivial⟩
  have pushed := top.cons (m.reg .ebp) (by simp)
  rw [← trapping.mem] at pushed
  have kernel := ready.apart
  rw [← enter] at kernel
  have saving : Same (m.esp - 4) 8 s'.mem v.mem := by
    rw [mem]
    apply store_same
    exact kernel.shrink (i := 28) (by rw [back.esp, entered.esp, length]; bv_omega) (by omega) (by omega)
  refine ⟨v, path, resumed, ?_⟩
  rw [resumed.esp, trapping.esp]
  exact pushed.same (((entered.kept _ _ kernel).trans stack).trans saving)

end Trapping

/-- `gettime` goes through `int $0x80` and gives its caller what `sys_gettime` returns. No
other register is changed. -/
theorem gettime_calls (assembled : Line.Assembled Listing.all I) {before : Idt} (ready : ReadyTrap I m before) :
    ∃ s, I.Path m s ∧ s.eip = I.sym (.routine .sysGettime) ∧ s.seg .cs = 0x10 ∧ s.enabled = false ∧
      ∀ s', Returned s s' 0 64 → Same (m.esp - 4) 8 s.mem s'.mem →
        ∃ e, I.Path s' e ∧ e.eip = m.top ∧ e.reg = Function.update (Function.update m.reg .eax (s'.reg .eax)) .esp (m.esp + 4) ∧
          e.seg = m.seg ∧ e.eflags = m.eflags := by
  obtain ⟨u, trap, trapping⟩ := gettime_traps assembled ready.eip
  obtain ⟨s, serving, entered, resumes⟩ := trapping.serves ready assembled
  refine ⟨s, trap.trans serving, entered.eip, entered.cs, entered.disabled, fun s' back stack => ?_⟩
  obtain ⟨v, path, resumed, holds⟩ := trapping.returns ready assembled entered back stack
  have code := trapping.code
  rw [← resumed.eip] at code
  obtain ⟨e, leaving, eip, esp, frame, others, seg, -, flags⟩ := leave_path code holds
  refine ⟨e, ((resumes s' back.eip).trans path).trans leaving, eip, ?_, ?_, ?_⟩
  · have held (r : Reg) : v.reg r = ({ Registers.of u with eax := s'.reg .eax }.into v).reg r := by rw [resumed.regs]
    funext r
    cases r with
    | ebp => exact frame
    | esp =>
      have top : v.esp + 8 = m.esp + 4 := by
        rw [resumed.esp, trapping.esp]
        bv_omega
      exact esp.trans top
    | eax => exact (others .eax (by decide) (by decide)).trans (held .eax)
    | ebx | ecx | edx | esi | edi =>
      rw [others _ (by decide) (by decide), held]
      exact trapping.others _ (by decide) (by decide) (by decide)
  · have held (x : Seg) : v.seg x = ({ Registers.of u with eax := s'.reg .eax }.into v).seg x := by rw [resumed.regs]
    rw [seg, ← trapping.seg]
    funext x
    cases x with
    | cs => exact resumed.cs
    | ss => exact resumed.ss
    | ds => exact (held .ds).trans (u.get_seg .ds)
    | es => exact (held .es).trans (u.get_seg .es)
    | fs => exact (held .fs).trans (u.get_seg .fs)
    | gs => exact (held .gs).trans (u.get_seg .gs)
  · rw [flags, resumed.eflags, trapping.eflags]

/-- The program calls `gettime()`. -/
def reader : Machine :=
  { program with
    eip := image.sym (.wrapper .gettime)
    mem := stores program.mem 0x300000 [0x150000] }

theorem reader_ready : ReadyTrap image reader (fun _ => interruptGate 0 0) where
  eip := rfl
  user := by decide
  idt _ := rfl
  table := by decide +kernel
  apart := by decide +kernel
  tableCaller := by decide +kernel
  tableKernel := by decide +kernel

theorem reader_calls : ∃ s e, image.Path reader s ∧ s.eip = 0x22000A ∧
    image.Path { s with eip := s.top, reg := Function.update (Function.update s.reg .esp (s.esp + 4)) .eax 1230 } e ∧
    e.eip = 0x150000 ∧ e.reg .eax = 1230 ∧ e.eflags = 0x202 := by
  obtain ⟨s, path, eip, -, -, back⟩ := gettime_calls image_assembled reader_ready
  obtain ⟨e, leaving, address, reg, -, flags⟩ := back
    { s with eip := s.top, reg := Function.update (Function.update s.reg .esp (s.esp + 4)) .eax 1230 }
    ⟨rfl, rfl, rfl, rfl, fun _ _ => rfl⟩ (fun _ _ => rfl)
  have routine : image.sym (.routine .sysGettime) = 0x22000A := by decide +kernel
  have top : reader.top = 0x150000 := by decide +kernel
  exact ⟨s, e, path, eip.trans routine, leaving, address.trans top, congrFun reg .eax, flags⟩

end Wrapper

end Zeos
