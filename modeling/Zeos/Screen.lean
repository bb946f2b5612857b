import Zeos.Types

/-! The text screen of `io.c` with the two system calls that set its cursor and its
colours. A page is what the variables stand for: a cursor that counts the cells row
by row, and the cells. -/
namespace Zeos

abbrev Word := BitVec 16

abbrev numColumns : Nat := 80
abbrev numRows : Nat := 25

/-- The code of `'\n'`. -/
abbrev lineFeed : UInt8 := 10

/-- The variables of `io.c`, the screen memory from 0xb8000 on, and the bytes written to
port 0xe9 so far. -/
structure Console where
  x : UInt8
  y : UInt8
  foreground : UInt8
  background : UInt8
  screen : Vector Word (numColumns * numRows)
  port : List UInt8

namespace Console

/-- Boot finds some contents on the screen. -/
def boot (screen : Vector Word (numColumns * numRows)) : Console := ⟨0, 19, 2, 0, screen, []⟩

/-- `x = 0; y = (y + 1) % NUM_ROWS`. -/
def wrap (s : Console) : Console := { s with x := 0, y := .ofNat ((s.y.toNat + 1) % numRows) }

/-- `screen[index] = ch`. -/
def put (index : Nat) (ch : Word) (s : Console) : Except MemFault Console :=
  if inside : index < numColumns * numRows then .ok { s with screen := s.screen.set index ch } else .error .outside

end Console

/-- The word of a character in the colours of the console. -/
def attributed (c : UInt8) (s : Console) : Word :=
  .ofNat 16 (c.toNat &&& 0x00FF ||| s.foreground.toNat <<< 8 ||| s.background.toNat <<< 12)

/-- `printc(c)`. -/
def printc (c : UInt8) (s : Console) : Except MemFault Console := do
  let s := { s with port := s.port ++ [c] }
  if c = lineFeed then return s.wrap
  else
    let ch := attributed c s
    let s ← s.put (s.y.toNat * numColumns + s.x.toNat) ch
    let s := { s with x := s.x + 1 }
    return if numColumns ≤ s.x.toNat then s.wrap else s

/-- `printc_xy(mx, my, c)`. -/
def printcXy (mx my c : UInt8) (s : Console) : Except MemFault Console := do
  let cx := s.x
  let cy := s.y
  let s ← printc c { s with x := mx, y := my }
  return { s with x := cx, y := cy }

/-- `printk(string)`; the string ends before its first NUL. -/
def printk : List UInt8 → Console → Except MemFault Console
  | [], s => .ok s
  | c :: string, s =>
    if c = 0 then .ok s
    else do
      let s ← printc c s
      printk string s

/-- `sys_gotoxy(novaX, novaY)`. -/
def sysGotoxy (novaX novaY : Int) (s : Console) : Int × Console :=
  if novaY < 0 ∨ novaY ≥ 25 ∨ novaX < 0 ∨ novaX ≥ 80 then (-eINVAL, s)
  else (novaX + novaY, { s with x := .ofInt novaX, y := .ofInt novaY })

/-- `sys_set_color(fg, bg)`. -/
def sysSetColor (fg bg : Int) (s : Console) : Int × Console :=
  if fg < 0 ∨ bg < 0 ∨ fg > 16 ∨ bg > 16 then (-eINVAL, s)
  else (0, { s with foreground := .ofInt fg, background := .ofInt bg })

/-- The screen as a row of cells and a cursor that goes around it. -/
structure Page where
  cursor : Fin (numColumns * numRows)
  cells : Vector Word (numColumns * numRows)

namespace Page

/-- A cell at the cursor, which then moves on by one. -/
def type (w : Word) (p : Page) : Page := ⟨p.cursor + 1, p.cells.set p.cursor w⟩

/-- The cursor at the start of the next row. -/
def nextRow (p : Page) : Page :=
  { p with cursor := ⟨(p.cursor / numColumns + 1) % numRows * numColumns,
      (Nat.mul_lt_mul_right (by decide)).mpr (Nat.mod_lt _ (by decide)) |>.trans_eq (Nat.mul_comm ..)⟩ }

end Page

/-- A byte of a text; `w` is the cell of a character. -/
def Page.print (c : UInt8) (w : Word) (p : Page) : Page := if c = lineFeed then p.nextRow else p.type w

/-- The cell has the character in its low byte, the foreground in the bits 8 to 11 and the
background in the bits 12 to 15. -/
structure Shows (c : UInt8) (fg bg : Int) (w : Word) : Prop where
  character : w.toNat % 256 = c.toNat
  foreground : ((w.toNat / 256 % 16 : Nat) : Int) = fg
  background : ((w.toNat / 4096 : Nat) : Int) = bg

/-- A text written in two colours: what every one of its bytes does to the page. -/
inductive Written (fg bg : Int) : List UInt8 → Page → Page → Prop
  | nil {p : Page} : Written fg bg [] p p
  | newline {p p' : Page} {text : List UInt8} (rest : Written fg bg text p.nextRow p') :
      Written fg bg (lineFeed :: text) p p'
  | character {p p' : Page} {text : List UInt8} {c : UInt8} {w : Word} (other : c ≠ lineFeed)
      (shows : Shows c fg bg w) (rest : Written fg bg text (p.type w) p') : Written fg bg (c :: text) p p'

/-- A coordinate or a colour that fits the byte it is stored in. -/
theorem toNat_ofInt {n : Int} (low : 0 ≤ n) (high : n < 256) : ((UInt8.ofInt n).toNat : Int) = n := by
  have small : n % 2 ^ 8 = n := Int.emod_eq_of_lt low high
  unfold UInt8.ofInt
  rw [small, UInt8.toNat_ofNat']
  omega

namespace Console

variable {s s' : Console} {p : Page}

/-- The cursor is on the screen. -/
structure Inside (s : Console) : Prop where
  column : s.x.toNat < numColumns
  row : s.y.toNat < numRows

/-- The page that the variables stand for. -/
structure Displays (s : Console) (p : Page) : Prop where
  column : s.x.toNat = p.cursor % numColumns
  row : s.y.toNat = p.cursor / numColumns
  cells : s.screen = p.cells

theorem Inside.displays (inside : s.Inside) : ∃ p, s.Displays p := by
  have column : s.x.toNat < 80 := inside.column
  have row : s.y.toNat < 25 := inside.row
  have bound : s.y.toNat * 80 + s.x.toNat < 2000 := by omega
  refine ⟨⟨⟨s.y.toNat * 80 + s.x.toNat, bound⟩, s.screen⟩, ?_, ?_, rfl⟩
  · show s.x.toNat = (s.y.toNat * 80 + s.x.toNat) % 80
    omega
  · show s.y.toNat = (s.y.toNat * 80 + s.x.toNat) / 80
    omega

/-- The three facts in numbers. -/
theorem Displays.place (shown : s.Displays p) :
    s.x.toNat = p.cursor.val % 80 ∧ s.y.toNat = p.cursor.val / 80 ∧ p.cursor.val < 2000 :=
  ⟨shown.column, shown.row, p.cursor.isLt⟩

theorem Displays.inside (shown : s.Displays p) : s.Inside := by
  obtain ⟨column, row, bound⟩ := shown.place
  constructor
  · show s.x.toNat < 80
    omega
  · show s.y.toNat < 25
    omega

theorem Displays.index (shown : s.Displays p) : s.y.toNat * numColumns + s.x.toNat = p.cursor := by
  obtain ⟨column, row, bound⟩ := shown.place
  show s.y.toNat * 80 + s.x.toNat = p.cursor.val
  omega

/-- The row below, in the byte that holds it. -/
theorem wrap_y (s : Console) : s.wrap.y.toNat = (s.y.toNat + 1) % 25 := by
  show (UInt8.ofNat ((s.y.toNat + 1) % 25)).toNat = (s.y.toNat + 1) % 25
  rw [UInt8.toNat_ofNat']
  omega

theorem Displays.wrap (shown : s.Displays p) : s.wrap.Displays p.nextRow := by
  obtain ⟨column, row, bound⟩ := shown.place
  have below := s.wrap_y
  refine ⟨?_, ?_, shown.cells⟩
  · show 0 = (p.cursor.val / 80 + 1) % 25 * 80 % 80
    omega
  · show s.wrap.y.toNat = (p.cursor.val / 80 + 1) % 25 * 80 / 80
    omega

/-- Behind a stored character the code wraps the cursor by hand where the page counts on. -/
theorem Displays.type (shown : s.Displays p) (w : Word) (typed : Console) (x : typed.x = s.x + 1) (y : typed.y = s.y)
    (cells : typed.screen = p.cells.set p.cursor w) :
    (if numColumns ≤ typed.x.toNat then typed.wrap else typed).Displays (p.type w) := by
  obtain ⟨column, row, bound⟩ := shown.place
  have next : typed.x.toNat = s.x.toNat + 1 := by
    rw [x, UInt8.toNat_add]
    show (s.x.toNat + 1) % 256 = s.x.toNat + 1
    omega
  have cursor : (p.type w).cursor.val = (p.cursor.val + 1) % 2000 := Fin.val_add ..
  have below := typed.wrap_y
  rw [y] at below
  split
  next full =>
    have full : 80 ≤ typed.x.toNat := full
    refine ⟨?_, ?_, cells⟩
    · show 0 = (p.type w).cursor.val % 80
      omega
    · show typed.wrap.y.toNat = (p.type w).cursor.val / 80
      omega
  next inner =>
    have inner : ¬ 80 ≤ typed.x.toNat := inner
    refine ⟨?_, ?_, cells⟩
    · show typed.x.toNat = (p.type w).cursor.val % 80
      omega
    · show typed.y.toNat = (p.type w).cursor.val / 80
      rw [y]
      omega

/-- A byte goes to the port once and leaves the colours alone, wherever the cursor is. -/
theorem printc_keeps {c : UInt8} (done : printc c s = .ok s') :
    s'.port = s.port ++ [c] ∧ s'.foreground = s.foreground ∧ s'.background = s.background := by
  unfold printc at done
  split at done
  · cases done
    exact ⟨rfl, rfl, rfl⟩
  · simp only [put] at done
    split at done
    · cases done
      dsimp only
      split <;> exact ⟨rfl, rfl, rfl⟩
    · cases done

/-- On the screen a byte does to the page what it should, with the cell that the colours give. -/
theorem Displays.printc (shown : s.Displays p) (c : UInt8) :
    ∃ s', printc c s = .ok s' ∧ s'.Displays (p.print c (attributed c s)) := by
  unfold Zeos.printc Page.print
  by_cases feed : c = lineFeed
  · have same : ({ s with port := s.port ++ [c] } : Console).Displays p := ⟨shown.column, shown.row, shown.cells⟩
    rw [if_pos feed, if_pos feed]
    exact ⟨_, rfl, same.wrap⟩
  · have index := shown.index
    have inside : s.y.toNat * numColumns + s.x.toNat < numColumns * numRows := index ▸ p.cursor.isLt
    have cells : s.screen.set (s.y.toNat * numColumns + s.x.toNat) (attributed c s) =
        p.cells.set p.cursor (attributed c s) := by
      simp only [index, shown.cells]
    rw [if_neg feed, if_neg feed]
    simp only [put, dif_pos inside]
    have typed := shown.type (attributed c s)
      { s with port := s.port ++ [c], screen := s.screen.set _ (attributed c s) inside, x := s.x + 1 } rfl rfl cells
    exact ⟨_, rfl, typed⟩

end Console

/-- A cell has four bits for each colour. -/
theorem Shows.small {c : UInt8} {fg bg : Int} {w : Word} (shows : Shows c fg bg w) : fg ≤ 15 ∧ bg ≤ 15 := by
  have bound := w.isLt
  have first := shows.foreground
  have second := shows.background
  omega

/-- Colours of four bits fit beside each other. -/
theorem attributed_shows {s : Console} {fg bg : Int} (c : UInt8) (first : (s.foreground.toNat : Int) = fg)
    (second : (s.background.toNat : Int) = bg) (small : fg ≤ 15 ∧ bg ≤ 15) : Shows c fg bg (attributed c s) := by
  have byte := c.toNat_lt
  have low : c.toNat &&& 0x00FF = c.toNat := by
    rw [show 0x00FF = 2 ^ 8 - 1 by rfl, Nat.and_two_pow_sub_one_eq_mod]
    omega
  have middle : c.toNat ||| s.foreground.toNat <<< 8 = s.foreground.toNat * 256 + c.toNat := by
    rw [Nat.or_comm, ← Nat.shiftLeft_add_eq_or_of_lt (by omega), Nat.shiftLeft_eq]
  have all : s.foreground.toNat * 256 + c.toNat ||| s.background.toNat <<< 12 =
      s.background.toNat * 4096 + (s.foreground.toNat * 256 + c.toNat) := by
    rw [Nat.or_comm, ← Nat.shiftLeft_add_eq_or_of_lt (by omega), Nat.shiftLeft_eq]
  have word : (attributed c s).toNat = s.background.toNat * 4096 + (s.foreground.toNat * 256 + c.toNat) := by
    unfold attributed
    rw [low, middle, all, BitVec.toNat_ofNat]
    omega
  constructor <;> rw [word] <;> omega

end Zeos
