import Zeos.Sched

/-! `interrupt.c`: the key buffer and the two interrupt routines. -/
namespace Zeos

namespace KeyBuffer

/-- `kb_buffer_push(c)`. -/
def push (c : UInt8) (b : KeyBuffer) : KeyBuffer :=
  { b with buffer := Function.update b.buffer b.head c, head := (b.head + 1) % kbBufferSize }

/-- `kb_buffer_pop()`. -/
def pop (b : KeyBuffer) : UInt8 × KeyBuffer :=
  (b.buffer b.tail, { b with tail := (b.tail + 1) % kbBufferSize })

/-- `kb_buffer_size()`. -/
def size (b : KeyBuffer) : Nat :=
  if b.tail ≤ b.head then b.head - b.tail else kbBufferSize - b.tail + b.head

/-- What `keyboard_routine` does to the buffer with a character. -/
def press (c : UInt8) (b : KeyBuffer) : KeyBuffer :=
  if b.size < kbBufferSize then b.push c else b

end KeyBuffer

/-- `char_map`, in the one-byte encoding of the source. -/
def charMap : List UInt8 :=
  [0, 0, 49, 50, 51, 52, 53, 54, 55, 56,
   57, 48, 39, 161, 0, 0, 113, 119, 101, 114,
   116, 121, 117, 105, 111, 112, 96, 43, 0, 0,
   97, 115, 100, 102, 103, 104, 106, 107, 108, 241,
   0, 186, 0, 231, 122, 120, 99, 118, 98, 110,
   109, 44, 46, 45, 0, 42, 0, 0, 0, 0,
   0, 0, 0, 0, 0, 0, 0, 0, 0, 0,
   0, 55, 56, 57, 45, 52, 53, 54, 43, 49,
   50, 51, 48, 0, 0, 0, 60, 0, 0, 0,
   0, 0, 0, 0, 0, 0, 0, 0]

/-- The character of a make code, or `none` for the codes `keyboard_routine` ignores. -/
def keyChar (readInp : UInt8) : Option UInt8 :=
  let isBreak := readInp >>> 6
  let pCh := readInp &&& 127
  if isBreak ≠ 0 then none
  else
    let charPrint := charMap.getD pCh.toNat 0
    some (if charPrint = 0 then 67 else charPrint)

namespace State

/-- `keyboard_routine()`, with the byte read from port 0x60. -/
def keyboardRoutine (readInp : UInt8) (s : State) : Except Fault State := do
  match keyChar readInp with
  | none => return s
  | some charPrint =>
    let s := { s with core := { s.core with kbBuffer := s.core.kbBuffer.press charPrint } }
    if ← s.listEmpty (.head .readBlocked) then return s
    else
      let e ← s.listFirst (.head .readBlocked)
      let s ← s.requeueCurrent
      let nt ← listHeadToTaskStruct e
      s.taskSwitch nt

/-- `clock_routine()`. -/
def clockRoutine (s : State) : Except Fault State :=
  let tick := if 0 < s.core.tickCounter then s.core.tickCounter - 1 else s.core.tickCounter
  let s := { s with core := { s.core with
    zeosTick := int32 (s.core.zeosTick + 10), tickCounter := tick } }
  if tick ≤ 0 then s.schedNextRr .user else .ok s

end State
end Zeos
