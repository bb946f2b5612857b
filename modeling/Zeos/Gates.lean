import Zeos.Listing

/-! `setIdt`: what it stores in the descriptor table, and what the processor takes from there. -/
namespace Zeos
open Words Assembly

/-- `highWord(address)` -/
def highWord (address : Word32) : BitVec 16 := ((address >>> 16) &&& 0xFFFF).setWidth 16

/-- `lowWord(address)` -/
def lowWord (address : Word32) : BitVec 16 := (address &&& 0xFFFF).setWidth 16

structure Gate where
  lowOffset : BitVec 16
  segmentSelector : BitVec 16
  flags : BitVec 16
  highOffset : BitVec 16
  deriving DecidableEq, Repr

abbrev Idt := BitVec 8 → Gate

/-- The gate that both functions behind this store. -/
def interruptGate (handler maxAccessibleFromPL : Word32) : Gate where
  lowOffset := lowWord handler
  segmentSelector := kernelCs.setWidth 16
  flags := (maxAccessibleFromPL <<< 13).setWidth 16 ||| 0x8E00
  highOffset := highWord handler

/-- `setInterruptHandler(vector, handler, maxAccessibleFromPL)` -/
def setInterruptHandler (vector : BitVec 8) (handler maxAccessibleFromPL : Word32) (idt : Idt) : Idt :=
  Function.update idt vector (interruptGate handler maxAccessibleFromPL)

/-- `setTrapHandler(vector, handler, maxAccessibleFromPL)`, with the flags of an interrupt
gate. -/
def setTrapHandler (vector : BitVec 8) (handler maxAccessibleFromPL : Word32) (idt : Idt) : Idt :=
  Function.update idt vector (interruptGate handler maxAccessibleFromPL)

/-- `setIdt()`, over the gates that `set_handlers` left. -/
def setIdt (address : Symbol → Word32) (idt : Idt) : Idt :=
  let idt := setInterruptHandler 33 (address .keyboardHandler) 0 idt
  let idt := setInterruptHandler 32 (address .clockHandler) 0 idt
  let idt := setInterruptHandler 14 (address .pageFaultHandler2) 0 idt
  setTrapHandler 0x80 (address .systemCallHandler) 3 idt

/-- The registers for `sysenter` behind `setIdt()`. -/
def setMsrs (address : Symbol → Word32) (initialEsp : Word32) (msr : Word32 → Word32) : Word32 → Word32 :=
  let msr := Function.update msr 0x174 kernelCs
  let msr := Function.update msr 0x175 initialEsp
  Function.update msr 0x176 (address .syscallHandlerSysenter)

namespace Gate

/-- Where the processor goes. -/
def target (g : Gate) : BitVec 16 × Word32 := (g.segmentSelector, g.highOffset ++ g.lowOffset)

def present (g : Gate) : Bool := g.flags.getLsbD 15

/-- The lowest privilege that may use the gate with an instruction. -/
def dpl (g : Gate) : BitVec 2 := g.flags.extractLsb' 13 2

/-- Interrupts are off behind the gate. -/
def interrupt (g : Gate) : Prop := g.flags.extractLsb' 8 5 = 0b01110

instance (g : Gate) : Decidable g.interrupt := inferInstanceAs (Decidable (_ = _))

/-- `int n` goes through the gate. -/
def admits (g : Gate) (cpl : BitVec 2) : Bool := g.present && cpl.ule g.dpl

end Gate

theorem mask_word (x : Word32) : (x &&& 0xFFFF).setWidth 16 = x.setWidth 16 := by
  apply BitVec.eq_of_toNat_eq
  have masked := Nat.and_two_pow_sub_one_eq_mod x.toNat 16
  simp only [BitVec.toNat_setWidth, BitVec.toNat_and]
  exact (congrArg (· % 2 ^ 16) masked).trans (Nat.mod_mod ..)

theorem append_toNat {n k : Nat} (x : BitVec n) (y : BitVec k) : (x ++ y).toNat = x.toNat * 2 ^ k + y.toNat := by
  rw [BitVec.toNat_append, ← Nat.shiftLeft_add_eq_or_of_lt y.isLt, Nat.shiftLeft_eq]

theorem highWord_lowWord (address : Word32) : highWord address ++ lowWord address = address := by
  have bound := address.isLt
  rw [highWord, lowWord, mask_word, mask_word]
  apply BitVec.eq_of_toNat_eq
  simp only [append_toNat, BitVec.toNat_setWidth, BitVec.toNat_ushiftRight, Nat.shiftRight_eq_div_pow]
  omega

/-- What the processor reads from a gate is what was stored. -/
theorem interruptGate_target (handler maxAccessibleFromPL : Word32) :
    (interruptGate handler maxAccessibleFromPL).target = (0x10, handler) :=
  congrArg (Prod.mk _) (highWord_lowWord handler)

theorem interruptGate_flags (handler p : Word32) : (interruptGate handler p).interrupt ∧ (interruptGate handler p).present ∧
    (interruptGate handler p).dpl = p.setWidth 2 := by
  simp only [interruptGate, Gate.interrupt, Gate.present, Gate.dpl]
  refine ⟨?_, ?_, ?_⟩
  · ext i inside
    obtain rfl | rfl | rfl | rfl | rfl : i = 0 ∨ i = 1 ∨ i = 2 ∨ i = 3 ∨ i = 4 := by omega
    all_goals simp
  · simp
  · ext i inside
    obtain rfl | rfl : i = 0 ∨ i = 1 := by omega
    all_goals simp

/-- The vectors of `setIdt`, with their handlers and the privilege that may call them. -/
def vectors : List (BitVec 8 × Symbol × Word32) :=
  [(33, .keyboardHandler, 0), (32, .clockHandler, 0), (14, .pageFaultHandler2, 0), (0x80, .systemCallHandler, 3)]

theorem setIdt_vector (address : Symbol → Word32) (idt : Idt) {n : BitVec 8} {name : Symbol} {p : Word32}
    (vector : (n, name, p) ∈ vectors) : setIdt address idt n = interruptGate (address name) p := by
  simp only [vectors, List.mem_cons, List.not_mem_nil, or_false, Prod.mk.injEq] at vector
  obtain ⟨rfl, rfl, rfl⟩ | ⟨rfl, rfl, rfl⟩ | ⟨rfl, rfl, rfl⟩ | ⟨rfl, rfl, rfl⟩ := vector <;> rfl

/-- Each vector leads to its handler in the kernel, with interrupts off, and a program reaches
none of them but the system calls with an instruction. -/
theorem setIdt_gates (address : Symbol → Word32) (idt : Idt) {n : BitVec 8} {name : Symbol} {p : Word32}
    (vector : (n, name, p) ∈ vectors) :
    (setIdt address idt n).target = (0x10, address name) ∧ (setIdt address idt n).interrupt ∧ (setIdt address idt n).admits 0 ∧
      ((setIdt address idt n).admits 3 ↔ n = 0x80) := by
  obtain ⟨off, present, dpl⟩ := interruptGate_flags (address name) p
  rw [setIdt_vector address idt vector, Gate.admits, Gate.admits, present, dpl]
  refine ⟨interruptGate_target .., off, ?_, ?_⟩
  · simp [BitVec.ule]
  · simp only [vectors, List.mem_cons, List.not_mem_nil, or_false, Prod.mk.injEq] at vector
    obtain ⟨rfl, -, rfl⟩ | ⟨rfl, -, rfl⟩ | ⟨rfl, -, rfl⟩ | ⟨rfl, -, rfl⟩ := vector <;> decide

namespace Listing

/-- An image with `errno`, the table and the routines behind it. -/
def image : Image Symbol := Line.layout 0x100000
  (fun
    | .errno => 0x200000
    | .sysCallTable => 0x210000
    | .routine r => 0x220000 + BitVec.ofNat 32 (sysCallTable.idxOf r)
    | _ => 0)
  Listing.all

theorem image_assembled : Line.Assembled Listing.all image := Line.layout_assembled _ _ (by decide +kernel)

/-- A program of the image, with interrupts on. -/
def program : Machine where
  reg
    | .esp => 0x300000
    | _ => 7
  seg
    | .cs => 0x23
    | _ => 0x2B
  eflags := 0x202
  eip := 0x150000
  mem := stores (fun _ => 0) 0x210000 (sysCallTable.map fun r => image.sym (.routine r))
  msr := setMsrs image.sym 0x400000 fun _ => 0
  esp0 := 0x400000
  ss0 := 0x18
  idt n := (setIdt image.sym (fun _ => interruptGate 0 0) n).target

end Listing
end Zeos
