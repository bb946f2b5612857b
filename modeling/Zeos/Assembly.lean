import Mathlib.Logic.Relation
import Zeos.Words

/-! A part of IA-32: what moves words between registers and stacks, what jumps, and what goes
from one privilege level to the other. Memory is one space of bytes, and an access to it does
not fail. Of the flags that arithmetic sets, `AF` and `PF` are left out. -/
namespace Assembly
open Words

inductive Reg where
  | eax | ebx | ecx | edx | esi | edi | ebp | esp
  deriving DecidableEq, Repr

inductive Seg where
  | cs | ss | ds | es | fs | gs
  deriving DecidableEq, Repr

/-- What can be pushed and popped. -/
inductive Slot where
  | reg (r : Reg)
  | seg (s : Seg)
  deriving DecidableEq, Repr

structure Machine where
  reg : Reg → Word32
  seg : Seg → BitVec 16
  eflags : Word32
  eip : Word32
  mem : Memory
  msr : Word32 → Word32
  esp0 : Word32
  ss0 : BitVec 16
  idt : BitVec 8 → BitVec 16 × Word32

/-- The instructions, with the source operand in front. -/
inductive Instr (L : Type) where
  | push (x : Slot)
  | pushImm (v : Word32)
  | pushLabel (l : L)
  | pushMem (disp : Word32) (base : Reg)
  | pushf
  | pop (x : Slot)
  | mov (src dst : Reg)
  | movImm (v : Word32) (dst : Reg)
  | movAl (v : BitVec 8)
  | movLoad (disp : Word32) (base dst : Reg)
  | movStore (src : Reg) (disp : Word32) (base : Reg)
  | movTo (src : Reg) (l : L)
  | movSeg (src : Reg) (dst : Seg)
  | add (v : Word32) (dst : Reg)
  | neg (dst : Reg)
  | cmp (v : Word32) (r : Reg)
  | sti
  | out (port : BitVec 8)
  | wrmsr
  | jmp (l : L)
  | jge (l : L)
  | jl (l : L)
  | jg (l : L)
  | call (l : L)
  | callTable (l : L) (index : Reg)
  | ret
  | int (n : BitVec 8)
  | iret
  | sysenter
  | sysexit
  deriving DecidableEq

namespace Machine

abbrev esp (m : Machine) : Word32 := m.reg .esp

def setReg (r : Reg) (v : Word32) (m : Machine) : Machine := { m with reg := Function.update m.reg r v }

def get (m : Machine) : Slot → Word32
  | .reg r => m.reg r
  | .seg s => (m.seg s).setWidth 32

def set (x : Slot) (v : Word32) (m : Machine) : Machine :=
  match x with
  | .reg r => m.setReg r v
  | .seg s => { m with seg := Function.update m.seg s (v.setWidth 16) }

def push (v : Word32) (m : Machine) : Machine := { m.setReg .esp (m.esp - 4) with mem := store m.mem (m.esp - 4) v }

/-- The word on top of the stack, and the stack without it. -/
def top (m : Machine) : Word32 := load m.mem m.esp

def drop (n : Nat) (m : Machine) : Machine := m.setReg .esp (m.esp + BitVec.ofNat 32 (4 * n))

end Machine

/-- A bit of the flags. -/
def setBit (n : Nat) (b : Bool) (f : Word32) : Word32 :=
  if b then f ||| BitVec.twoPow 32 n else f &&& ~~~ BitVec.twoPow 32 n

theorem setBit_get (n i : Nat) (b : Bool) (f : Word32) (small : n < 32) :
    (setBit n b f).getLsbD i = if i = n then b else f.getLsbD i := by
  unfold setBit
  by_cases here : i = n
  · subst here
    cases b <;> simp [small]
  · rw [if_neg here]
    have far : ¬ n = i := fun same => here same.symm
    cases b
    · simpa [far] using fun set : f.getLsbD i = true => BitVec.lt_of_getLsbD set
    · simp [far]

namespace Machine

/-- `CF`, `ZF`, `SF` and `OF` of a result. -/
def arith (result : Word32) (carry overflow : Bool) (m : Machine) : Machine :=
  { m with eflags := setBit 0 carry (setBit 6 (result = 0) (setBit 7 result.msb (setBit 11 overflow m.eflags))) }

def sign (m : Machine) : Bool := m.eflags.getLsbD 7
def overflow (m : Machine) : Bool := m.eflags.getLsbD 11
def zero (m : Machine) : Bool := m.eflags.getLsbD 6

/-- Interrupts are let in. -/
def enabled (m : Machine) : Bool := m.eflags.getLsbD 9

/-- Words are pushed one after the other. -/
def pushAll (vs : List Word32) (m : Machine) : Machine := vs.foldl (fun m v => m.push v) m

/-- An interrupt comes to the same stack. -/
def inKernel (m : Machine) : Prop := m.seg .cs &&& 3 = 0

instance (m : Machine) : Decidable m.inKernel := inferInstanceAs (Decidable (_ = _))

/-- What an interrupt leaves on the stack. -/
def frame (m : Machine) : List Word32 :=
  [m.eip, m.get (.seg .cs), m.eflags] ++ if m.inKernel then [] else [m.esp, m.get (.seg .ss)]

/-- The stack that an interrupt comes to. -/
def enter (m : Machine) : Machine :=
  if m.inKernel then m else (m.setReg .esp m.esp0).set (.seg .ss) (m.ss0.setWidth 32)

/-- An interrupt, through an interrupt gate. -/
def interrupt (n : BitVec 8) (m : Machine) : Machine :=
  { (m.enter.pushAll m.frame.reverse).set (.seg .cs) ((m.idt n).1.setWidth 32) with
    eip := (m.idt n).2, eflags := setBit 9 false m.eflags }

/-- Back from an interrupt, to the stack of the user when it returns to user mode. -/
def leave (m : Machine) : Machine :=
  let word (i : Nat) : Word32 := load m.mem (m.esp + BitVec.ofNat 32 (4 * i))
  let back := { (m.drop 3).set (.seg .cs) (word 1) with eip := word 0, eflags := word 2 }
  if (word 1).setWidth 16 &&& 3 = m.seg .cs &&& 3 then back
  else (back.setReg .esp (word 3)).set (.seg .ss) (word 4)

/-- The instruction in front of `eip` is executed. -/
def exec {L : Type} (sym : L → Word32) (m : Machine) : Instr L → Machine
  | .push x => m.push (m.get x)
  | .pushImm v => m.push v
  | .pushLabel l => m.push (sym l)
  | .pushMem disp base => m.push (load m.mem (m.reg base + disp))
  | .pushf => m.push m.eflags
  | .pop x => (m.drop 1).set x m.top
  | .mov src dst => m.setReg dst (m.reg src)
  | .movImm v dst => m.setReg dst v
  | .movAl v => m.setReg .eax (m.reg .eax &&& 0xFFFFFF00 ||| v.setWidth 32)
  | .movLoad disp base dst => m.setReg dst (load m.mem (m.reg base + disp))
  | .movStore src disp base => { m with mem := store m.mem (m.reg base + disp) (m.reg src) }
  | .movTo src l => { m with mem := store m.mem (sym l) (m.reg src) }
  | .movSeg src dst => m.set (.seg dst) (m.reg src)
  | .add v dst => (m.arith (m.reg dst + v) ((m.reg dst).uaddOverflow v) ((m.reg dst).saddOverflow v)).setReg dst (m.reg dst + v)
  | .neg dst => (m.arith (- m.reg dst) (m.reg dst ≠ 0) (m.reg dst).negOverflow).setReg dst (- m.reg dst)
  | .cmp v r => m.arith (m.reg r - v) ((m.reg r).usubOverflow v) ((m.reg r).ssubOverflow v)
  | .sti => { m with eflags := setBit 9 true m.eflags }
  | .out _ => m
  | .wrmsr => { m with msr := Function.update m.msr (m.reg .ecx) (m.reg .eax) }
  | .jmp l => { m with eip := sym l }
  | .jge l => if m.sign = m.overflow then { m with eip := sym l } else m
  | .jl l => if m.sign ≠ m.overflow then { m with eip := sym l } else m
  | .jg l => if m.zero = false ∧ m.sign = m.overflow then { m with eip := sym l } else m
  | .call l => { m.push m.eip with eip := sym l }
  | .callTable l index => { m.push m.eip with eip := load m.mem (sym l + m.reg index * 4) }
  | .ret => { m.drop 1 with eip := m.top }
  | .int n => m.interrupt n
  | .iret => m.leave
  | .sysenter =>
    { ((m.set (.seg .cs) (m.msr 0x174)).set (.seg .ss) (m.msr 0x174 + 8)).setReg .esp (m.msr 0x175) with
      eip := m.msr 0x176, eflags := setBit 9 false m.eflags }
  | .sysexit =>
    { ((m.set (.seg .cs) (m.msr 0x174 + 16 ||| 3)).set (.seg .ss) (m.msr 0x174 + 24 ||| 3)).setReg .esp (m.reg .ecx) with
      eip := m.reg .edx }

@[simp] theorem setReg_reg (r r' : Reg) (v : Word32) (m : Machine) :
    (m.setReg r v).reg r' = if r' = r then v else m.reg r' := Function.update_apply ..

@[simp] theorem push_reg (v : Word32) (m : Machine) (r : Reg) : (m.push v).reg r = if r = .esp then m.esp - 4 else m.reg r :=
  Function.update_apply ..

@[simp] theorem setReg_mem (r : Reg) (v : Word32) (m : Machine) : (m.setReg r v).mem = m.mem := rfl

@[simp] theorem push_mem (v : Word32) (m : Machine) : (m.push v).mem = store m.mem (m.esp - 4) v := rfl

theorem get_seg (m : Machine) (s : Seg) : (m.get (.seg s)).setWidth 16 = m.seg s := by simp [get]

theorem push_get (v : Word32) (m : Machine) {x : Slot} (other : x ≠ .reg .esp) : (m.push v).get x = m.get x := by
  cases x with
  | seg s => rfl
  | reg r =>
    have : r ≠ .esp := fun same => other (congrArg _ same)
    simp [get, this]

/-- The places are given words one after the other. -/
def setAll (xs : List (Slot × Word32)) (m : Machine) : Machine := xs.foldl (fun m x => m.set x.1 x.2) m

variable {m m' : Machine} {vs ws : List Word32} {xs : List Slot}

theorem pushAll_reg (vs : List Word32) (m : Machine) (r : Reg) :
    (m.pushAll vs).reg r = if r = .esp then m.esp - BitVec.ofNat 32 (4 * vs.length) else m.reg r := by
  induction vs generalizing m with
  | nil =>
    simp only [pushAll, List.foldl_nil, List.length_nil, Nat.mul_zero]
    split
    · rename_i here
      subst here
      exact (BitVec.sub_zero _).symm
    · rfl
  | cons v vs ih =>
    have further : m.esp - 4 - BitVec.ofNat 32 (4 * vs.length) = m.esp - BitVec.ofNat 32 (4 * (v :: vs).length) := by
      rw [List.length_cons]
      bv_omega
    have := ih (m.push v)
    simp only [pushAll, List.foldl_cons] at this ⊢
    rw [this]
    split <;> simp_all

/-- Nothing but the memory and the stack pointer changes. -/
theorem pushAll_rest (vs : List Word32) (m : Machine) :
    m.pushAll vs = { m with mem := (m.pushAll vs).mem, reg := (m.pushAll vs).reg } := by
  induction vs generalizing m with
  | nil => rfl
  | cons v vs ih => exact ih (m.push v)

theorem pushAll_holds (vs : List Word32) (holds : Stored m.mem m.esp ws) (room : 4 * (vs.length + ws.length) ≤ 4294967296) :
    Stored (m.pushAll vs).mem (m.pushAll vs).esp (vs.reverse ++ ws) := by
  induction vs generalizing m ws with
  | nil => exact holds
  | cons v vs ih =>
    rw [List.length_cons] at room
    have step : Stored (m.push v).mem (m.push v).esp (v :: ws) := by
      simpa using holds.cons v (by omega)
    have := ih step (by rw [List.length_cons]; omega)
    simpa [pushAll] using this

/-- Pushing leaves alone what is not in the part of the stack that it fills. -/
theorem pushAll_same {a : Word32} {n : Nat} (vs : List Word32) (m : Machine)
    (apart : Apart a n (m.esp - BitVec.ofNat 32 (4 * vs.length)) (4 * vs.length)) (small : 4 * vs.length < 4294967296) :
    Same a n m.mem (m.pushAll vs).mem := by
  induction vs generalizing m with
  | nil => exact Same.refl a n m.mem
  | cons v vs ih =>
    rw [List.length_cons] at apart small
    obtain ⟨below, above⟩ := apart
    have first : Apart a n (m.esp - 4) 4 := by
      constructor <;> bv_omega
    refine (store_same m.mem v first).trans (ih (m.push v) ?_ (by omega))
    simp only [push_reg, if_true]
    constructor <;> bv_omega

theorem set_drop (n : Nat) (v : Word32) (m : Machine) {x : Slot} (other : x ≠ .reg .esp) :
    (m.drop n).set x v = (m.set x v).drop n := by
  cases x with
  | seg s => rfl
  | reg r =>
    have far : Reg.esp ≠ r := fun same => other (congrArg _ same.symm)
    simp only [set, drop, setReg, esp, Machine.mk.injEq, and_true]
    rw [Function.update_of_ne far, Function.update_comm far.symm]

theorem drop_drop (n k : Nat) (m : Machine) : (m.drop n).drop k = m.drop (n + k) := by
  have further : m.esp + BitVec.ofNat 32 (4 * n) + BitVec.ofNat 32 (4 * k) = m.esp + BitVec.ofNat 32 (4 * (n + k)) := by
    bv_omega
  simp only [drop, setReg, esp, Function.update_self, Function.update_idem, further]

theorem set_mem (x : Slot) (v : Word32) (m : Machine) : (m.set x v).mem = m.mem := by
  cases x <;> rfl

theorem set_esp (v : Word32) (m : Machine) {x : Slot} (other : x ≠ .reg .esp) : (m.set x v).esp = m.esp := by
  cases x with
  | seg s => rfl
  | reg r => exact Function.update_of_ne (fun same => other (congrArg _ same.symm)) ..

/-- What is popped are the words that stand on the stack. -/
theorem pop_all (holds : Stored m.mem m.esp (vs ++ ws)) (lengths : xs.length = vs.length) (others : Slot.reg .esp ∉ xs) :
    xs.foldl (fun m x => (m.drop 1).set x m.top) m = (m.drop xs.length).setAll (xs.zip vs) := by
  induction xs generalizing m vs with
  | nil =>
    have here : m.esp + 0 = m.esp := BitVec.add_zero _
    simp [drop, setReg, setAll]
  | cons x xs ih =>
    cases vs with
    | nil => contradiction
    | cons v vs =>
      simp only [List.length_cons, Nat.add_right_cancel_iff] at lengths
      simp only [List.mem_cons, not_or] at others
      have other : x ≠ .reg .esp := fun same => others.1 same.symm
      obtain ⟨top, behind⟩ := holds
      have rest : Stored ((m.drop 1).set x v).mem ((m.drop 1).set x v).esp (vs ++ ws) := by
        rw [set_mem, set_esp _ _ other]
        simpa [drop] using behind
      have shown : m.top = v := top
      rw [List.foldl_cons, shown, ih rest lengths others.2, ← set_drop _ _ _ other, drop_drop, List.length_cons,
        Nat.add_comm 1]
      rfl

theorem enter_esp (m : Machine) : m.enter.esp = if m.inKernel then m.esp else m.esp0 := by
  unfold enter
  split
  · rfl
  · exact Function.update_self Reg.esp m.esp0 m.reg

theorem interrupt_esp (n : BitVec 8) (m : Machine) :
    (m.interrupt n).esp = m.enter.esp - BitVec.ofNat 32 (4 * m.frame.length) := by
  have := pushAll_reg m.frame.reverse m.enter .esp
  rw [if_pos rfl, List.length_reverse] at this
  exact this

theorem interrupt_reg (n : BitVec 8) (m : Machine) {r : Reg} (other : r ≠ .esp) : (m.interrupt n).reg r = m.reg r := by
  have := pushAll_reg m.frame.reverse m.enter r
  rw [if_neg other] at this
  refine this.trans ?_
  unfold enter
  split
  · rfl
  · exact Function.update_of_ne other ..

theorem pushAll_seg (vs : List Word32) (m : Machine) : (m.pushAll vs).seg = m.seg := by
  rw [pushAll_rest]

theorem interrupt_seg (n : BitVec 8) (m : Machine) {s : Seg} (other : s ≠ .cs) : (m.interrupt n).seg s = m.enter.seg s := by
  have gate : (m.interrupt n).seg s = (m.enter.pushAll m.frame.reverse).seg s := Function.update_of_ne other ..
  rw [gate, pushAll_seg]

theorem enter_seg (m : Machine) {s : Seg} (other : s ≠ .ss) : m.enter.seg s = m.seg s := by
  unfold enter
  split
  · rfl
  · exact Function.update_of_ne other ..

theorem interrupt_cs (n : BitVec 8) (m : Machine) : (m.interrupt n).seg .cs = (m.idt n).1 := by
  have gate : (m.interrupt n).seg .cs = ((m.idt n).1.setWidth 32).setWidth 16 :=
    Function.update_self Seg.cs _ (m.enter.pushAll m.frame.reverse).seg
  simpa using gate

theorem interrupt_disabled (n : BitVec 8) (m : Machine) : (m.interrupt n).enabled = false := by
  exact (setBit_get 9 9 false m.eflags (by decide)).trans (if_pos rfl)

theorem frame_length_le (m : Machine) : m.frame.length ≤ 5 := by
  unfold frame
  split <;> simp

theorem interrupt_holds (n : BitVec 8) (m : Machine) : Stored (m.interrupt n).mem (m.interrupt n).esp m.frame := by
  have short := m.frame_length_le
  have := pushAll_holds m.frame.reverse (show Stored m.enter.mem m.enter.esp [] from trivial) (by simp; omega)
  rwa [List.reverse_reverse, List.append_nil] at this

/-- An interrupt changes nothing but the stack that it comes to. -/
theorem interrupt_same (n : BitVec 8) (m : Machine) {a : Word32} {k : Nat} (apart : Apart a k (m.enter.esp - 20) 20) :
    Same a k m.mem (m.interrupt n).mem := by
  have kept : m.enter.mem = m.mem := by
    unfold enter
    split <;> rfl
  have short := m.frame_length_le
  have place : m.enter.esp - 20 + BitVec.ofNat 32 (20 - 4 * m.frame.length) =
      m.enter.esp - BitVec.ofNat 32 (4 * m.frame.length) := by bv_omega
  have some : 0 < m.frame.length := by simp [frame]
  have part := apart.shrink (j := 4 * m.frame.length) place.symm (by omega) (by omega)
  rw [← kept]
  apply pushAll_same m.frame.reverse m.enter
  · rw [List.length_reverse]
    exact part
  · rw [List.length_reverse]
    omega

/-- The end of an interrupt goes back to what was interrupted. -/
theorem leave_frame (holds : Stored m'.mem m'.esp m.frame) (kernel : m'.inKernel)
    (esp : m'.esp = m.enter.esp - BitVec.ofNat 32 (4 * m.frame.length)) :
    m'.leave = { m' with
      reg := Function.update m'.reg .esp m.esp
      seg := fun s => if s = .cs ∨ s = .ss ∧ ¬ m.inKernel then m.seg s else m'.seg s
      eip := m.eip
      eflags := m.eflags } := by
  have word {i : Nat} (inside : i < m.frame.length) := holds.word inside
  have width := m.get_seg
  have first := word (i := 0) (by simp [frame])
  have second := word (i := 1) (by simp [frame])
  have third := word (i := 2) (by simp [frame])
  have kernel' : m'.seg .cs &&& 3 = 0 := kernel
  simp only [frame, List.cons_append, List.getElem_cons_zero, List.getElem_cons_succ] at first second third
  unfold leave
  simp only [first, second, third, width, kernel']
  by_cases inKernel : m.inKernel
  · have same : m.seg .cs &&& 3 = 0 := inKernel
    have bottom : m'.esp + 12 = m.esp := by
      rw [esp, enter_esp, if_pos inKernel]
      simp only [frame, inKernel, if_true]
      exact BitVec.sub_add_cancel m.esp 12
    rw [if_pos same]
    simp only [set, drop, setReg, width, Machine.mk.injEq, inKernel, and_true, not_true, and_false, or_false]
    refine ⟨congrArg (Function.update m'.reg .esp) bottom, ?_⟩
    funext s
    cases s <;> rfl
  · have other : ¬ m.seg .cs &&& 3 = 0 := inKernel
    have stack := word (i := 3) (by simp [frame, inKernel])
    have segment := word (i := 4) (by simp [frame, inKernel])
    simp only [frame, inKernel, if_false, List.cons_append, List.getElem_cons_zero, List.getElem_cons_succ,
      List.nil_append] at stack segment
    rw [if_neg other]
    simp only [set, drop, setReg, width, stack, segment, Machine.mk.injEq, inKernel, and_true, not_false_eq_true,
      Function.update_idem, true_and]
    funext s
    simp only [Function.update_apply]
    cases s <;> rfl

end Machine

namespace Machine

variable {L : Type} (sym : L → Word32) (m : Machine) (v : Word32) (r : Reg)

@[simp] theorem arith_sign (result : Word32) (carry overflow : Bool) : (m.arith result carry overflow).sign = result.msb := by
  simp (disch := decide) only [arith, sign, setBit_get, Nat.reduceEqDiff, if_false, if_true]

@[simp] theorem arith_overflow (result : Word32) (carry overflow : Bool) :
    (m.arith result carry overflow).overflow = overflow := by
  simp (disch := decide) only [arith, Machine.overflow, setBit_get, Nat.reduceEqDiff, if_false, if_true]

@[simp] theorem arith_zero (result : Word32) (carry overflow : Bool) :
    (m.arith result carry overflow).zero = decide (result = 0) := by
  simp (disch := decide) only [arith, zero, setBit_get, Nat.reduceEqDiff, if_false, if_true]

@[simp] theorem arith_enabled (result : Word32) (carry overflow : Bool) :
    (m.arith result carry overflow).enabled = m.enabled := by
  simp (disch := decide) only [arith, enabled, setBit_get, Nat.reduceEqDiff, if_false]

theorem sub_less (a b : Word32) : (a - b).msb ≠ a.ssubOverflow b ↔ a.slt b := by
  have low := a.le_two_mul_toInt
  have high := a.two_mul_toInt_lt
  have low' := b.le_two_mul_toInt
  have high' := b.two_mul_toInt_lt
  rw [BitVec.slt_iff_toInt_lt, BitVec.msb_eq_toInt, BitVec.toInt_sub, BitVec.ssubOverflow, Int.bmod_def]
  generalize a.toInt = x at *
  generalize b.toInt = y at *
  have outside : (decide (x - y ≥ 2 ^ (32 - 1)) || decide (x - y < -2 ^ (32 - 1))) =
      decide (x - y ≥ 2147483648 ∨ x - y < -2147483648) := by simp
  rw [outside, ne_eq, decide_eq_decide]
  split <;> omega

/-- Behind a comparison the flags tell what is less as an `int`. -/
theorem cmp_less : (m.exec sym (.cmp v r)).sign ≠ (m.exec sym (.cmp v r)).overflow ↔ (m.reg r).slt v := by
  rw [exec, arith_sign, arith_overflow]
  exact sub_less (m.reg r) v

theorem cmp_same : (m.exec sym (.cmp v r)).zero = true ↔ m.reg r = v := by
  rw [exec, arith_zero, decide_eq_true_eq]
  constructor <;> intro same <;> bv_omega

theorem cmp_more : (m.exec sym (.cmp v r)).zero = false ∧ (m.exec sym (.cmp v r)).sign = (m.exec sym (.cmp v r)).overflow ↔
    v.slt (m.reg r) := by
  have less := cmp_less sym m v r
  have same := cmp_same sym m v r
  rw [← Bool.not_eq_true, same]
  by_cases equal : m.reg r = v
  · simp [equal, BitVec.slt]
  · have total : v.slt (m.reg r) ↔ ¬ (m.reg r).slt v := by
      simp only [BitVec.slt_iff_toInt_lt]
      have : (m.reg r).toInt ≠ v.toInt := fun same => equal (BitVec.eq_of_toInt_eq same)
      omega
    rw [total, ← less]
    simp [equal]

end Machine

/-- The instruction goes on behind itself, whatever it finds. -/
def Instr.straight {L : Type} : Instr L → Bool
  | .push _ | .pushImm _ | .pushLabel _ | .pushMem .. | .pushf | .pop _ | .mov .. | .movImm .. | .movAl _ | .movLoad ..
  | .movStore .. | .movTo .. | .movSeg .. | .add .. | .neg _ | .cmp .. | .sti | .out _ | .wrmsr => true
  | _ => false

/-- The code in memory, and the addresses of the labels. -/
structure Image (L : Type) where
  fetch : Word32 → Option (Instr L × Word32)
  sym : L → Word32

namespace Image

open Machine Relation

variable {L : Type} {I : Image L} {m m' : Machine} {is rest : List (Instr L)} {i : Instr L}

/-- One instruction is executed. -/
def Next (I : Image L) (m m' : Machine) : Prop :=
  ∃ i next, I.fetch m.eip = some (i, next) ∧ m' = { m with eip := next }.exec I.sym i

abbrev Path (I : Image L) : Machine → Machine → Prop := ReflTransGen I.Next

/-- The instructions that stand at an address. -/
def At (I : Image L) : Word32 → List (Instr L) → Prop
  | _, [] => True
  | a, i :: is => ∃ next, I.fetch a = some (i, next) ∧ I.At next is

theorem At.front {a : Word32} {js : List (Instr L)} (code : I.At a js) (part : is <+: js) : I.At a is := by
  induction is generalizing a js with
  | nil => trivial
  | cons i is ih =>
    obtain ⟨rest, rfl⟩ := part
    obtain ⟨next, here, behind⟩ := code
    exact ⟨next, here, ih behind ⟨rest, rfl⟩⟩

/-- Instructions that go straight on. -/
def execs (I : Image L) (is : List (Instr L)) (m : Machine) : Machine := is.foldl (fun m i => m.exec I.sym i) m

theorem exec_straight (sym : L → Word32) (straight : i.straight) (a : Word32) (m : Machine) :
    { m with eip := a }.exec sym i = { m.exec sym i with eip := a } := by
  cases i with
  | push x => cases x <;> rfl
  | pop x => cases x <;> rfl
  | jmp | jge | jl | jg | call | callTable | ret | int | iret | sysenter | sysexit => contradiction
  | _ => rfl

theorem execs_straight (straight : ∀ i ∈ is, i.straight) (a : Word32) (m : Machine) :
    I.execs is { m with eip := a } = { I.execs is m with eip := a } := by
  induction is generalizing m with
  | nil => rfl
  | cons i is ih =>
    simp only [List.forall_mem_cons] at straight
    simp only [execs, List.foldl_cons]
    rw [exec_straight I.sym straight.1]
    exact ih straight.2 _

/-- One instruction, wherever it goes. -/
theorem At.next (code : I.At m.eip (i :: rest)) :
    ∃ next, I.Path m ({ m with eip := next }.exec I.sym i) ∧ I.At next rest := by
  obtain ⟨next, here, behind⟩ := code
  exact ⟨next, .single ⟨i, next, here, rfl⟩, behind⟩

/-- Instructions that go straight on are executed up to what stands behind them. -/
theorem At.straight (code : I.At m.eip (is ++ rest)) (straight : ∀ i ∈ is, i.straight) :
    ∃ next, I.Path m { I.execs is m with eip := next } ∧ I.At next rest := by
  induction is generalizing m with
  | nil => exact ⟨m.eip, .refl, code⟩
  | cons i is ih =>
    simp only [List.forall_mem_cons] at straight
    obtain ⟨next, first, behind⟩ := At.next code
    rw [exec_straight I.sym straight.1] at first
    obtain ⟨last, path, rest⟩ := ih (m := { m.exec I.sym i with eip := next }) behind straight.2
    rw [execs_straight straight.2] at path
    exact ⟨last, first.trans path, rest⟩

/-- Up to and with an instruction that goes wherever it likes. -/
theorem At.leap (code : I.At m.eip (is ++ i :: rest)) (straight : ∀ i ∈ is, i.straight) :
    ∃ next, I.Path m ({ I.execs is m with eip := next }.exec I.sym i) ∧ I.At next rest := by
  obtain ⟨next, first, behind⟩ := code.straight straight
  obtain ⟨last, second, rest⟩ := At.next (m := { I.execs is m with eip := next }) behind
  exact ⟨last, first.trans second, rest⟩

theorem execs_append (I : Image L) (is js : List (Instr L)) (m : Machine) : I.execs (is ++ js) m = I.execs js (I.execs is m) :=
  List.foldl_append ..

theorem execs_cons (I : Image L) (i : Instr L) (is : List (Instr L)) (m : Machine) :
    I.execs (i :: is) m = I.execs is (m.exec I.sym i) := rfl

/-- Places other than the stack pointer are pushed with what they hold. -/
theorem execs_push (xs : List Slot) (others : Slot.reg .esp ∉ xs) (m : Machine) :
    I.execs (xs.map .push) m = m.pushAll (xs.map m.get) := by
  induction xs generalizing m with
  | nil => rfl
  | cons x xs ih =>
    simp only [List.mem_cons, not_or] at others
    rw [List.map_cons, execs_cons, ih others.2, List.map_cons]
    have kept : xs.map (m.push (m.get x)).get = xs.map m.get := by
      apply List.map_congr_left
      intro y mem
      exact push_get _ _ fun same => others.2 (same ▸ mem)
    rw [show m.exec I.sym (.push x) = m.push (m.get x) from rfl, kept]
    rfl

/-- Places are popped with the words that stand on the stack. -/
theorem execs_pop {xs : List Slot} {vs ws : List Word32} (holds : Stored m.mem m.esp (vs ++ ws))
    (lengths : xs.length = vs.length) (others : Slot.reg .esp ∉ xs) :
    I.execs (xs.map .pop) m = (m.drop xs.length).setAll (xs.zip vs) := by
  rw [← pop_all holds lengths others, execs, List.foldl_map]
  rfl

/-- A comparison and a jump that depends on it. -/
theorem At.branch {v : Word32} {r : Reg} {j : Instr L} {l : L} {taken : Prop} [Decidable taken]
    (code : I.At m.eip (.cmp v r :: j :: rest))
    (jumps : ∀ a m', m' = { m with eip := a }.exec I.sym (.cmp v r) → ∀ b,
      { m' with eip := b }.exec I.sym j = { m' with eip := if taken then I.sym l else b }) :
    ∃ f a, f.getLsbD 9 = m.enabled ∧ I.Path m { m with eip := if taken then I.sym l else a, eflags := f } ∧ I.At a rest := by
  obtain ⟨a, comparing, code⟩ := At.next code
  obtain ⟨b, jumping, code⟩ := At.next (m := { m with eip := a }.exec I.sym (.cmp v r)) code
  rw [jumps a _ rfl b] at jumping
  exact ⟨_, b, arith_enabled m .., comparing.trans jumping, code⟩

variable {v : Word32} {r : Reg} {l : L}

theorem At.less (code : I.At m.eip (.cmp v r :: .jl l :: rest)) :
    ∃ f a, f.getLsbD 9 = m.enabled ∧
      I.Path m { m with eip := if (m.reg r).slt v then I.sym l else a, eflags := f } ∧ I.At a rest := by
  apply code.branch
  rintro a m' rfl b
  have less := cmp_less I.sym { m with eip := a } v r
  by_cases here : (m.reg r).slt v
  · exact (if_pos (less.mpr here)).trans (by rw [if_pos here])
  · exact (if_neg fun other => here (less.mp other)).trans (by rw [if_neg here])

theorem At.more (code : I.At m.eip (.cmp v r :: .jg l :: rest)) :
    ∃ f a, f.getLsbD 9 = m.enabled ∧
      I.Path m { m with eip := if v.slt (m.reg r) then I.sym l else a, eflags := f } ∧ I.At a rest := by
  apply code.branch
  rintro a m' rfl b
  have more := cmp_more I.sym { m with eip := a } v r
  by_cases here : v.slt (m.reg r)
  · exact (if_pos (more.mpr here)).trans (by rw [if_pos here])
  · exact (if_neg fun other => here (more.mp other)).trans (by rw [if_neg here])

theorem At.notLess (code : I.At m.eip (.cmp v r :: .jge l :: rest)) :
    ∃ f a, f.getLsbD 9 = m.enabled ∧
      I.Path m { m with eip := if (m.reg r).slt v then a else I.sym l, eflags := f } ∧ I.At a rest := by
  have swap (a : Word32) : (if (m.reg r).slt v then a else I.sym l) = if ¬ (m.reg r).slt v then I.sym l else a := by
    split <;> simp_all
  simp only [swap]
  apply code.branch
  rintro a m' rfl b
  have less := cmp_less I.sym { m with eip := a } v r
  by_cases here : (m.reg r).slt v
  · exact (if_neg (less.mpr here)).trans (by rw [if_neg fun other => other here])
  · have same := not_not.mp fun other => here (less.mp other)
    exact (if_pos same).trans (by rw [if_pos here])

end Image

/-- A routine has come back to its caller. Above its return address and its arguments, `n`
bytes are as they were. -/
structure Returned (m m' : Machine) (args n : Nat) : Prop where
  eip : m'.eip = m.top
  esp : m'.esp = m.esp + 4
  cs : m'.seg .cs = m.seg .cs
  ss : m'.seg .ss = m.seg .ss
  kept : Same (m.esp + 4 + BitVec.ofNat 32 (4 * args)) n m.mem m'.mem

/-- A line of a listing. -/
inductive Line (L : Type) where
  | label (l : L)
  | instr (i : Instr L)

namespace Line

variable {L : Type} [DecidableEq L]

/-- The instructions of a listing. -/
def code : List (Line L) → List (Instr L)
  | [] => []
  | .label _ :: lines => code lines
  | .instr i :: lines => i :: code lines

/-- The instructions behind a label. -/
def behind (l : L) : List (Line L) → List (Instr L)
  | [] => []
  | .label l' :: lines => if l' = l then code lines else behind l lines
  | .instr _ :: lines => behind l lines

def labels : List (Line L) → List L
  | [] => []
  | .label l :: lines => l :: labels lines
  | .instr _ :: lines => labels lines

/-- What stands in front of a label. -/
def before (l : L) : List (Line L) → Nat
  | [] => 0
  | .label l' :: lines => if l' = l then 0 else before l lines
  | .instr _ :: lines => before l lines + 1

/-- The listing stands in memory. -/
def Assembled (lines : List (Line L)) (I : Image L) : Prop := ∀ l, I.At (I.sym l) (behind l lines)

/-- The listing from a place on, with one address for each instruction. -/
def layout (base : Word32) (sym : L → Word32) (lines : List (Line L)) : Image L where
  fetch a := (code lines)[(a - base).toNat]?.map fun i => (i, a + 1)
  sym l := if l ∈ labels lines then base + BitVec.ofNat 32 (before l lines) else sym l

theorem Assembled.code {lines : List (Line L)} {I : Image L} (assembled : Assembled lines I) {l : L} {is : List (Instr L)}
    (part : is <+: behind l lines) : I.At (I.sym l) is := (assembled l).front part

theorem behind_absent {l : L} {lines : List (Line L)} (absent : l ∉ labels lines) : behind l lines = [] := by
  induction lines with
  | nil => rfl
  | cons line lines ih =>
    cases line with
    | instr i => exact ih absent
    | label l' =>
      simp only [labels, List.mem_cons, not_or] at absent
      rw [behind, if_neg fun same => absent.1 same.symm]
      exact ih absent.2

theorem behind_eq (l : L) {lines : List (Line L)} (present : l ∈ labels lines) :
    behind l lines = (code lines).drop (before l lines) := by
  induction lines with
  | nil => contradiction
  | cons line lines ih =>
    cases line with
    | instr i => exact ih present
    | label l' =>
      unfold behind before
      by_cases same : l' = l
      · rw [if_pos same, if_pos same]
        rfl
      · rw [if_neg same, if_neg same]
        exact ih ((List.mem_cons.mp present).resolve_left fun here => same here.symm)

/-- The layout holds the listing. -/
theorem layout_assembled (base : Word32) (sym : L → Word32) {lines : List (Line L)} (small : (code lines).length < 4294967296) :
    Assembled lines (layout base sym lines) := by
  have from_place (is : List (Instr L)) (n : Nat) (rest : (code lines).drop n = is) (inside : n ≤ (code lines).length) :
      (layout base sym lines).At (base + BitVec.ofNat 32 n) is := by
    induction is generalizing n with
    | nil => trivial
    | cons i is ih =>
      have more : n < (code lines).length := by
        by_contra short
        rw [List.drop_eq_nil_of_le (by omega)] at rest
        contradiction
      have place : (base + BitVec.ofNat 32 n - base).toNat = n := by bv_omega
      have next : base + BitVec.ofNat 32 n + 1 = base + BitVec.ofNat 32 (n + 1) := by bv_omega
      rw [List.drop_eq_getElem_cons more] at rest
      obtain ⟨here, behind⟩ := List.cons.inj rest
      refine ⟨base + BitVec.ofNat 32 (n + 1), ?_, ih (n + 1) behind more⟩
      simp only [layout, place, next, List.getElem?_eq_getElem more, here, Option.map_some]
  intro l
  by_cases present : l ∈ labels lines
  · have start : (layout base sym lines).sym l = base + BitVec.ofNat 32 (before l lines) := if_pos present
    rw [start, behind_eq l present]
    by_cases inside : before l lines ≤ (code lines).length
    · exact from_place _ _ rfl inside
    · rw [List.drop_eq_nil_of_le (by omega)]
      trivial
  · rw [behind_absent present]
    trivial

end Line
end Assembly
