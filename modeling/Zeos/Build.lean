import Zeos.Bytes
import Zeos.Outcome

/-! `build.c`: the disk image from a boot sector, the system and the user program. What has been
written when it stops early is not followed. -/
namespace Zeos
namespace Build

/-- A file by its name; `error` says why it cannot be opened. -/
structure File where
  name : String
  content : Except String (List UInt8)

def openFile (f : File) : Except String (List UInt8) :=
  match f.content with
  | .ok bytes => .ok bytes
  | .error why => .error ("Unable to open `" ++ f.name ++ "': " ++ why)

abbrev MINIX_HEADER_LEN : Nat := 32

def hdr : List UInt8 := [0x01, 0x03, 0x10, 0x04, 0x20, 0x00, 0x00, 0x00]

/-- `lb[i]` is not zero. -/
def filled (buf : List UInt8) (i : Nat) : Bool := (buf.drop (4 * i)).take 4 != [0, 0, 0, 0]

/-- `minix_open(name)`, with what is left to read. -/
def minixOpen (f : File) : Except String (List UInt8) := do
  let bytes ← openFile f
  let buf := bytes.take MINIX_HEADER_LEN
  if buf.length ≠ MINIX_HEADER_LEN then .error (f.name ++ ": Unable to read header")
  else if buf.take 8 ≠ hdr ∨ filled buf 5 then .error (f.name ++ ": Non-Minix header")
  else if filled buf 3 then .error (f.name ++ ": Illegal data segment")
  else if filled buf 4 then .error (f.name ++ ": Illegal bss segment")
  else if filled buf 7 then .error (f.name ++ ": Illegal symbol table")
  else return bytes.drop MINIX_HEADER_LEN

/-- The loop that copies `sz` bytes of a file through `buf`. -/
def copyChunks (name : String) (sz : Nat) (bytes : List UInt8) : Except String (List UInt8) :=
  if 0 < sz then
    let l := min sz 1024
    if bytes.length < l then .error (name ++ ": Unexpected EOF")
    else (copyChunks name (sz - l) (bytes.drop l)).map (bytes.take l ++ ·)
  else .ok []
  termination_by sz
  decreasing_by omega

/-- The size of a file, an unsigned integer of 32 bits, with the bytes that are copied. -/
def copyFile (f : File) : Except String (Nat × List UInt8) := do
  let bytes ← openFile f
  let size := bytes.length % 4294967296
  let copied ← copyChunks f.name size bytes
  return (size, copied)

/-- The boot sector behind its header. -/
def bootSector (f : File) : Except String (List UInt8) := do
  let rest ← minixOpen f
  let buf := rest.take 1024
  if buf.length ≠ 512 then .error "Boot block must be exactly 512 bytes"
  else if buf[510]? ≠ some 0x55 ∨ buf[511]? ≠ some 0xAA then .error "Boot block hasn't got boot flag (0xAA55)"
  else return (buf.set 508 0).set 509 0

/-- `lseek(1, pos, SEEK_SET)` and `write(1, buf, n)`. -/
def writeAt (pos : Nat) (buf out : List UInt8) : List UInt8 :=
  out.take pos ++ List.replicate (pos - out.length) 0 ++ buf ++ out.drop (pos + buf.length)

def byte (n i : Nat) : UInt8 := .ofNat (n >>> (8 * i))

/-- The two sizes and the number behind them, each with a fourth byte of zero. -/
def size (n : Nat) : List UInt8 := [byte n 0, byte n 1, byte n 2, 0]

/-- `main`, when it is called with three arguments. -/
def build (bootsect system user : File) : Except String (List UInt8) := do
  let sector ← bootSector bootsect
  let (sysSize, sys) ← copyFile system
  let (usrSize, usr) ← copyFile user
  let imSize := (sysSize + usrSize + 15) % 4294967296 / 16
  let out := sector ++ sys ++ usr
  let out := writeAt 500 [byte imSize 0, byte imSize 1] out
  let out := writeAt 512 (size sysSize) out
  let out := writeAt 516 (size usrSize) out
  return writeAt 520 (size 0x7E6A) out

def main : List File → Except String (List UInt8)
  | [bootsect, system, user] => build bootsect system user
  | _ => .error "Usage: build bootsect system user [> image]"

/-- An unsigned integer of `k` bytes, lowest byte first. -/
def number (disk : Nat → UInt8) (a : Nat) : Nat → Nat
  | 0 => 0
  | k + 1 => (disk a).toNat + 256 * number disk (a + 1) k

/-- The bytes of a file on a disk; behind it there are zeros. -/
def onDisk (bytes : List UInt8) (i : Nat) : UInt8 := bytes.getD i 0

/-- What an image holds: the boot sector, then the system with its header, then the program. -/
structure Packed (sys usr : List UInt8) (image : List UInt8) : Prop where
  length : image.length = 512 + sys.length + usr.length
  flag : onDisk image 510 = 0x55 ∧ onDisk image 511 = 0xAA
  imSize : number (onDisk image) 500 2 = (sys.length + usr.length + 15) / 16 % 65536
  sysSize : number (onDisk image) 512 4 = sys.length % 16777216
  usrSize : number (onDisk image) 516 4 = usr.length % 16777216
  rdtr : number (onDisk image) 520 4 = 0x7E6A
  system : ∀ i, 12 ≤ i → i < sys.length → onDisk image (512 + i) = onDisk sys i
  user : ∀ i < usr.length, onDisk image (512 + sys.length + i) = onDisk usr i

variable {sys usr sector image out buf : List UInt8} {n : Nat}

theorem copyChunks_whole (name : String) (bytes : List UInt8) (le : n ≤ bytes.length) :
    copyChunks name n bytes = .ok (bytes.take n) := by
  induction n using Nat.strong_induction_on generalizing bytes with
  | _ n ih =>
    rw [copyChunks]
    split
    · have short : ¬ bytes.length < min n 1024 := by omega
      have rest := ih (n - min n 1024) (by omega) (bytes.drop (min n 1024)) (by rw [List.length_drop]; omega)
      have sum : min n 1024 + (n - min n 1024) = n := by omega
      simp only [if_neg short, rest, Except.map]
      rw [← List.take_add, sum]
    · have zero : n = 0 := by omega
      rw [zero, List.take_zero]

theorem copyFile_whole {f : File} {bytes : List UInt8} (content : f.content = .ok bytes) (small : bytes.length < 4294967296) :
    copyFile f = .ok (bytes.length, bytes) := by
  have opened : openFile f = .ok bytes := by rw [openFile, content]
  have size : bytes.length % 4294967296 = bytes.length := Nat.mod_eq_of_lt small
  have copied := copyChunks_whole f.name bytes (Nat.le_refl _)
  rw [List.take_length] at copied
  simp only [copyFile, opened, Outcome.ok_bind, size, copied]
  rfl

theorem bootSector_flag {f : File} (done : bootSector f = .ok sector) :
    sector.length = 512 ∧ onDisk sector 510 = 0x55 ∧ onDisk sector 511 = 0xAA := by
  obtain ⟨rest, -, done⟩ := Outcome.bind_ok.mp done
  dsimp only at done
  split at done
  · contradiction
  · rename_i length
    split at done
    · contradiction
    · rename_i flag
      cases done
      rw [not_not] at length
      rw [not_or, not_not, not_not] at flag
      refine ⟨by simpa using length, ?_, ?_⟩
      · simp [onDisk, List.getD_eq_getElem?_getD, flag.1]
      · simp [onDisk, List.getD_eq_getElem?_getD, flag.2]

theorem onDisk_append (xs ys : List UInt8) (i : Nat) :
    onDisk (xs ++ ys) i = if i < xs.length then onDisk xs i else onDisk ys (i - xs.length) := by
  simp only [onDisk, List.getD_eq_getElem?_getD, List.getElem?_append]
  split <;> rfl

theorem writeAt_length {pos : Nat} (inside : pos + buf.length ≤ out.length) : (writeAt pos buf out).length = out.length := by
  simp only [writeAt, List.length_append, List.length_take, List.length_replicate, List.length_drop]
  omega

/-- A write changes the bytes that it writes. -/
theorem onDisk_writeAt {pos : Nat} (inside : pos + buf.length ≤ out.length) (i : Nat) :
    onDisk (writeAt pos buf out) i = if pos ≤ i ∧ i < pos + buf.length then onDisk buf (i - pos) else onDisk out i := by
  have none : pos - out.length = 0 := by omega
  have front : (out.take pos).length = pos := by
    rw [List.length_take]
    omega
  rw [writeAt, none, List.replicate_zero, List.append_nil, onDisk_append, onDisk_append, List.length_append, front]
  by_cases before : i < pos
  · rw [if_pos (by omega), if_pos before, if_neg (by omega)]
    simp only [onDisk, List.getD_eq_getElem?_getD, List.getElem?_take, if_pos before]
  · by_cases written : i < pos + buf.length
    · rw [if_pos written, if_neg before, if_pos ⟨by omega, written⟩]
    · have place : pos + buf.length + (i - (pos + buf.length)) = i := by omega
      rw [if_neg written, if_neg (by omega)]
      simp only [onDisk, List.getD_eq_getElem?_getD, List.getElem?_drop, place]

theorem number_congr {f g : Nat → UInt8} {a b : Nat} (k : Nat) (same : ∀ i < k, f (a + i) = g (b + i)) :
    number f a k = number g b k := by
  induction k generalizing a b with
  | zero => rfl
  | succ k ih =>
    have first := same 0 (by omega)
    have rest := ih (a := a + 1) (b := b + 1) (by
      intro i small
      rw [Nat.add_assoc, Nat.add_assoc, Nat.add_comm 1 i]
      exact same (i + 1) (by omega))
    simp only [Nat.add_zero] at first
    rw [number, number, first, rest]

theorem number_two (disk : Nat → UInt8) (a : Nat) (low : disk a = byte n 0) (high : disk (a + 1) = byte n 1) :
    number disk a 2 = n % 65536 := by
  simp only [number, low, high, byte, UInt8.toNat_ofNat', Nat.shiftRight_eq_div_pow, Nat.reduceMul, Nat.reducePow]
  omega

theorem number_size (disk : Nat → UInt8) (a : Nat) (bytes : ∀ i < 4, disk (a + i) = onDisk (size n) i) :
    number disk a 4 = n % 16777216 := by
  have zero := bytes 0 (by decide)
  have one := bytes 1 (by decide)
  have two := bytes 2 (by decide)
  have three := bytes 3 (by decide)
  simp only [onDisk, size, List.getD_cons_zero, List.getD_cons_succ, Nat.add_zero] at zero one two three
  simp only [number, Nat.add_assoc, Nat.reduceAdd, zero, one, two, three, byte, UInt8.toNat_ofNat', Nat.shiftRight_eq_div_pow,
    Nat.reduceMul, Nat.reducePow]
  simp
  omega

/-- The image of the two files. -/
def imageOf (sector sys usr : List UInt8) : List UInt8 :=
  let imSize := (sys.length + usr.length + 15) % 4294967296 / 16
  writeAt 520 (size 0x7E6A) (writeAt 516 (size usr.length)
    (writeAt 512 (size sys.length) (writeAt 500 [byte imSize 0, byte imSize 1] (sector ++ sys ++ usr))))

theorem build_imageOf {bootsect system user : File} (boot : bootSector bootsect = .ok sector)
    (systemRead : system.content = .ok sys) (userRead : user.content = .ok usr) (small : sys.length + usr.length < 4294967296) :
    build bootsect system user = .ok (imageOf sector sys usr) := by
  unfold build
  rw [boot, Outcome.ok_bind, copyFile_whole systemRead (by omega), Outcome.ok_bind, copyFile_whole userRead (by omega)]
  rfl

/-- Every image that is built holds the two files behind its boot sector, with their sizes
where the loader and the system look for them. -/
theorem build_holds {bootsect system user : File} (systemRead : system.content = .ok sys)
    (userRead : user.content = .ok usr) (header : 12 ≤ sys.length) (small : sys.length + usr.length + 15 < 4294967296)
    (done : build bootsect system user = .ok image) : Packed sys usr image := by
  obtain ⟨sector, boot, -⟩ := Outcome.bind_ok.mp done
  obtain ⟨length, flag⟩ := bootSector_flag boot
  rw [build_imageOf boot systemRead userRead (by omega)] at done
  obtain rfl := Except.ok.inj done
  have total : (sys.length + usr.length + 15) % 4294967296 = sys.length + usr.length + 15 := Nat.mod_eq_of_lt small
  simp only [imageOf, total]
  have behind : (sector ++ sys ++ usr).length = 512 + sys.length + usr.length := by
    rw [List.length_append, List.length_append, length]
  have front {i : Nat} (inside : i < 512) : onDisk (sector ++ sys ++ usr) i = onDisk sector i := by
    rw [onDisk_append, List.length_append, length, if_pos (by omega), onDisk_append, length, if_pos inside]
  have middle {i : Nat} (inside : i < sys.length) : onDisk (sector ++ sys ++ usr) (512 + i) = onDisk sys i := by
    rw [onDisk_append, List.length_append, length, if_pos (by omega), onDisk_append, length, if_neg (by omega),
      Nat.add_sub_cancel_left]
  have rear (i : Nat) : onDisk (sector ++ sys ++ usr) (512 + sys.length + i) = onDisk usr i := by
    rw [onDisk_append, List.length_append, length, if_neg (by omega), Nat.add_sub_cancel_left]
  generalize sector ++ sys ++ usr = files at behind front middle rear
  generalize size_im : (sys.length + usr.length + 15) / 16 = im
  have four (n : Nat) : (size n).length = 4 := rfl
  have pair : ([byte im 0, byte im 1] : List UInt8).length = 2 := rfl
  have first : (writeAt 500 [byte im 0, byte im 1] files).length = files.length := writeAt_length (by omega)
  have second : (writeAt 512 (size sys.length) (writeAt 500 [byte im 0, byte im 1] files)).length = files.length :=
    (writeAt_length (by rw [four, first]; omega)).trans first
  have third : (writeAt 516 (size usr.length) (writeAt 512 (size sys.length) (writeAt 500 [byte im 0, byte im 1] files))).length =
      files.length := (writeAt_length (by rw [four, second]; omega)).trans second
  have written (i : Nat) : onDisk (writeAt 520 (size 0x7E6A) (writeAt 516 (size usr.length)
      (writeAt 512 (size sys.length) (writeAt 500 [byte im 0, byte im 1] files)))) i =
        if 520 ≤ i ∧ i < 524 then onDisk (size 0x7E6A) (i - 520)
        else if 516 ≤ i ∧ i < 520 then onDisk (size usr.length) (i - 516)
        else if 512 ≤ i ∧ i < 516 then onDisk (size sys.length) (i - 512)
        else if 500 ≤ i ∧ i < 502 then onDisk [byte im 0, byte im 1] (i - 500)
        else onDisk files i := by
    rw [onDisk_writeAt (by rw [four, third]; omega), onDisk_writeAt (by rw [four, second]; omega),
      onDisk_writeAt (by rw [four, first]; omega), onDisk_writeAt (by omega)]
    rfl
  have rest {i : Nat} (boot : i < 500 ∨ 502 ≤ i) (header : i < 512 ∨ 524 ≤ i) : _ = onDisk files i :=
    (written i).trans (by rw [if_neg (by omega), if_neg (by omega), if_neg (by omega), if_neg (by omega)])
  constructor
  case length => exact (writeAt_length (by rw [four, third]; omega)).trans (third.trans behind)
  case flag =>
    exact ⟨(rest (by decide) (by decide)).trans ((front (by decide)).trans flag.1),
      (rest (by decide) (by decide)).trans ((front (by decide)).trans flag.2)⟩
  case imSize =>
    rw [size_im]
    exact number_two _ 500 (written 500) (written 501)
  case sysSize =>
    apply number_size
    intro i inside
    rw [written, if_neg (by omega), if_neg (by omega), if_pos (by omega), Nat.add_sub_cancel_left]
  case usrSize =>
    apply number_size
    intro i inside
    rw [written, if_neg (by omega), if_pos (by omega), Nat.add_sub_cancel_left]
  case rdtr =>
    have value := number_size (n := 0x7E6A) (onDisk (writeAt 520 (size 0x7E6A) (writeAt 516 (size usr.length)
      (writeAt 512 (size sys.length) (writeAt 500 [byte im 0, byte im 1] files))))) 520 (by
        intro i inside
        rw [written, if_pos (by omega), Nat.add_sub_cancel_left])
    exact value
  case system =>
    intro i behind inside
    exact (rest (by omega) (by omega)).trans (middle inside)
  case user =>
    intro i inside
    exact (rest (by omega) (by omega)).trans (rear i)

end Build
end Zeos
