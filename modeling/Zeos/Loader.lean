import Zeos.Bytes
import Mathlib.Order.Interval.Set.Defs

/-! `read_it` of `bootsect.S`: the system comes from a floppy disk, as many sectors at a time as
the track and the segment have left. A read that fails is not noticed; the BIOS is a parameter. -/
namespace Zeos
namespace Loader
open Bytes (Memory)

abbrev Word16 := BitVec 16

abbrev SEC_PISTA : Nat := 18
/-- `sectors` -/
abbrev sectors : Word16 := .ofNat 16 SEC_PISTA
abbrev SETUPSECS : Word16 := 0
abbrev SYSSEG : Word16 := 0x1000

/-- The registers of a call of `int 0x13`. -/
structure Int13 where
  ax : Word16
  bx : Word16
  cx : Word16
  dx : Word16
  es : Word16
  deriving DecidableEq, Repr

abbrev Bios := Int13 → Memory → Memory

namespace Int13

/-- `AL` -/
def count (r : Int13) : Nat := r.ax.toNat % 256

/-- `CH`, and the two upper bits of `CL` -/
def cylinder (r : Int13) : Nat := r.cx.toNat / 256 + 256 * (r.cx.toNat % 256 / 64)

def sector (r : Int13) : Nat := r.cx.toNat % 64

/-- `DH` -/
def head (r : Int13) : Nat := r.dx.toNat / 256

def buffer (r : Int13) : Nat := 16 * r.es.toNat + r.bx.toNat

/-- The sectors that are read, counted from the start of the disk. -/
def first (r : Int13) : Nat := (r.cylinder * 2 + r.head) * SEC_PISTA + (r.sector - 1)

/-- Function 2 on drive 0, within a track and within a block of 64 kB. -/
structure Valid (r : Int13) : Prop where
  function : r.ax.toNat / 256 = 2
  drive : r.dx.toNat % 256 = 0
  count : 0 < r.count
  cylinder : r.cylinder < 80
  head : r.head < 2
  sector : 0 < r.sector
  track : r.sector + r.count ≤ SEC_PISTA + 1
  block : r.buffer % 65536 + 512 * r.count ≤ 65536

end Int13

/-- What function 2 of `int 0x13` does with a disk that can be read. -/
def Reads (disk : Nat → UInt8) (bios : Bios) : Prop := ∀ (r : Int13) (m : Memory), r.Valid →
  (∀ i < 512 * r.count, bios r m (r.buffer + i) = disk (512 * r.first + i)) ∧
    ∀ x, x ∉ Set.Ico r.buffer (r.buffer + 512 * r.count) → bios r m x = m x

/-- The registers and the variables of `read_it`. Its words in the boot sector, the stack below
0x94000 and what `int 0x10` and the BIOS change for themselves are not in `mem`. -/
structure Position where
  es : Word16
  bx : Word16
  sread : Word16
  head : Word16
  track : Word16
  mem : Memory

/-- A register with other bits in its upper half. -/
def halves (high low : Word16) : Word16 := .ofNat 16 (256 * (high.toNat % 256) + low.toNat % 256)

/-- `syssize`, in the boot sector at 0x90000. -/
def syssize (m : Memory) : Word16 := .ofNat 16 ((m 0x901F4).toNat + 256 * (m 0x901F5).toNat)

/-- `read_track`: the registers for `AX` sectors at the position. -/
def readTrack (ax : Word16) (p : Position) : Int13 :=
  let dx := p.track
  let cx := p.sread + 1
  let cx := halves dx cx
  let dx := p.head
  let dx := halves dx dx &&& 0x0100
  { ax := halves 2 ax, bx := p.bx, cx, dx, es := p.es }

/-- From `ok1_read` to `ok2_read`: the sectors that the track and the segment have left. -/
def sectorsLeft (p : Position) : Word16 :=
  let ax := sectors - p.sread
  let cx := ax <<< 9
  if cx.toNat + p.bx.toNat < 65536 ∨ cx + p.bx = 0 then ax else (0 - p.bx) >>> 9

/-- From `ok2_read` to `ok3_read`: the track behind `AX` sectors. -/
def advance (ax : Word16) (p : Position) : Position :=
  let ax := ax + p.sread
  if ax ≠ sectors then { p with sread := ax }
  else
    let ax := 1 - p.head
    if ax ≠ 0 then { p with head := ax, sread := 0 } else { p with track := p.track + 1, head := ax, sread := 0 }

/-- From `rp_read` to the next jump there; `none` is the return. -/
def rpRead (bios : Bios) (p : Position) : Option Position :=
  if syssize p.mem < p.es - SYSSEG then none
  else
    let ax := sectorsLeft p
    let p := { p with mem := bios (readTrack ax p) p.mem }
    let p := advance ax p
    let cx := ax <<< 9
    if p.bx.toNat + cx.toNat < 65536 then some { p with bx := p.bx + cx }
    else some { p with es := p.es + 0x1000, bx := 0 }

def readLoop (bios : Bios) : Nat → Position → Option Position
  | 0, _ => none
  | fuel + 1, p =>
    match rpRead bios p with
    | none => some p
    | some p => readLoop bios fuel p

/-- The position at the first `rp_read`. -/
def firstPosition (es : Word16) (m : Memory) : Position :=
  { es, bx := 0, sread := SETUPSECS + 1, head := 0, track := 0, mem := m }

/-- `read_it`; `none` is the loop at `die`, or a run that takes longer. -/
def readIt (bios : Bios) (fuel : Nat) (es : Word16) (m : Memory) : Option Position :=
  if es &&& 0x0FFF ≠ 0 then none else readLoop bios fuel (firstPosition es m)

/-- The calls of `int 0x13` on the way. -/
def requests (bios : Bios) : Nat → Position → List Int13
  | 0, _ => []
  | fuel + 1, p =>
    match rpRead bios p with
    | none => []
    | some p' => readTrack (sectorsLeft p) p :: requests bios fuel p'

/-- The position behind `n` sectors. -/
structure Behind (disk : Nat → UInt8) (m : Memory) (n : Nat) (p : Position) : Prop where
  es : p.es.toNat = 4096 * (1 + n / 128)
  bx : p.bx.toNat = 512 * (n % 128)
  sread : p.sread.toNat < 18
  head : p.head.toNat < 2
  place : (p.track.toNat * 2 + p.head.toNat) * 18 + p.sread.toNat = n + 1
  loaded : ∀ i < 512 * n, p.mem (0x10000 + i) = disk (512 + i)
  others : ∀ x, x ∉ Set.Ico 0x10000 (0x10000 + 512 * n) → p.mem x = m x

variable {disk : Nat → UInt8} {bios : Bios} {m : Memory} {n : Nat} {p : Position}

theorem toNat_shl (x : Word16) : (x <<< 9).toNat = x.toNat * 512 % 65536 := by
  simp [BitVec.toNat_shiftLeft, Nat.shiftLeft_eq]

theorem toNat_shr (x : Word16) : (x >>> 9).toNat = x.toNat / 512 := by
  simp [BitVec.toNat_ushiftRight, Nat.shiftRight_eq_div_pow]

theorem toNat_halves (high low : Word16) : (halves high low).toNat = 256 * (high.toNat % 256) + low.toNat % 256 := by
  rw [halves, BitVec.toNat_ofNat]
  omega

theorem Behind.head_cases {head : Word16} (small : head.toNat < 2) : head = 0 ∨ head = 1 := by
  obtain zero | one : head.toNat = 0 ∨ head.toNat = 1 := by omega
  · exact .inl (BitVec.toNat_inj.mp zero)
  · exact .inr (BitVec.toNat_inj.mp one)

/-- As many sectors as the track has left, if they fit into the segment. -/
theorem Behind.sectorsLeft (behind : Behind disk m n p) :
    (sectorsLeft p).toNat = min (18 - p.sread.toNat) (128 - n % 128) := by
  have bx := behind.bx
  have sread := behind.sread
  have eighteen : sectors.toNat = 18 := rfl
  have ax : (sectors - p.sread).toNat = 18 - p.sread.toNat := by
    rw [BitVec.toNat_sub, eighteen]
    omega
  have cx := toNat_shl (sectors - p.sread)
  have rest := toNat_shr (0 - p.bx)
  have minus : (0 - p.bx).toNat = (65536 - p.bx.toNat) % 65536 := by
    rw [BitVec.toNat_sub]
    rfl
  have sum : ((sectors - p.sread) <<< 9 + p.bx).toNat = (((sectors - p.sread) <<< 9).toNat + p.bx.toNat) % 65536 :=
    BitVec.toNat_add ..
  have whole : (sectors - p.sread) <<< 9 + p.bx = 0 ↔ (((sectors - p.sread) <<< 9).toNat + p.bx.toNat) % 65536 = 0 := by
    rw [← sum]
    exact BitVec.toNat_inj.symm
  simp only [Loader.sectorsLeft, whole]
  split
  · rename_i fits
    omega
  · rename_i beyond
    omega

theorem readTrack_valid (behind : Behind disk m n p) (inside : n < 1024) (ax : Word16)
    (some : 0 < ax.toNat) (track : p.sread.toNat + ax.toNat ≤ 18) (block : n % 128 + ax.toNat ≤ 128) :
    (readTrack ax p).Valid ∧ (readTrack ax p).first = n + 1 ∧ (readTrack ax p).count = ax.toNat ∧
      (readTrack ax p).buffer = 0x10000 + 512 * n := by
  obtain ⟨es, bx, sread, head, place, -, -⟩ := behind
  have next : (p.sread + 1).toNat = p.sread.toNat + 1 := by
    have sum : (p.sread + 1).toNat = (p.sread.toNat + 1) % 65536 := BitVec.toNat_add ..
    omega
  have a : (readTrack ax p).ax.toNat = 512 + ax.toNat := by
    have two : (2 : Word16).toNat = 2 := rfl
    have both := toNat_halves 2 ax
    rw [two] at both
    exact both.trans (by omega)
  have c : (readTrack ax p).cx.toNat = 256 * p.track.toNat + p.sread.toNat + 1 := by
    have both := toNat_halves p.track (p.sread + 1)
    exact both.trans (by omega)
  have d : (readTrack ax p).dx.toNat = 256 * p.head.toNat := by
    obtain zero | one : p.head = 0 ∨ p.head = 1 := Behind.head_cases head
    · simp only [readTrack, zero]
      rfl
    · simp only [readTrack, one]
      rfl
  have count : (readTrack ax p).count = ax.toNat := by
    rw [Int13.count, a]
    omega
  have cylinder : (readTrack ax p).cylinder = p.track.toNat := by
    rw [Int13.cylinder, c]
    omega
  have sector : (readTrack ax p).sector = p.sread.toNat + 1 := by
    rw [Int13.sector, c]
    omega
  have side : (readTrack ax p).head = p.head.toNat := by
    rw [Int13.head, d]
    omega
  have buffer : (readTrack ax p).buffer = 0x10000 + 512 * n := by
    have shown : (readTrack ax p).buffer = 16 * p.es.toNat + p.bx.toNat := rfl
    omega
  have first : (readTrack ax p).first = n + 1 := by
    rw [Int13.first, cylinder, side, sector]
    exact place
  refine ⟨⟨?_, ?_, ?_, ?_, ?_, ?_, ?_, ?_⟩, first, count, buffer⟩
  · omega
  · omega
  · omega
  · omega
  · omega
  · omega
  · simp only [SEC_PISTA]
    omega
  · omega

theorem advance_place (ax : Word16) (sread : p.sread.toNat < 18) (head : p.head.toNat < 2)
    (fits : p.sread.toNat + ax.toNat ≤ 18) (low : p.track.toNat < 80) :
    (advance ax p).sread.toNat < 18 ∧ (advance ax p).head.toNat < 2 ∧
      ((advance ax p).track.toNat * 2 + (advance ax p).head.toNat) * 18 + (advance ax p).sread.toNat =
        (p.track.toNat * 2 + p.head.toNat) * 18 + p.sread.toNat + ax.toNat := by
  have sum : (ax + p.sread).toNat = ax.toNat + p.sread.toNat := by
    have wrapped : (ax + p.sread).toNat = (ax.toNat + p.sread.toNat) % 65536 := BitVec.toNat_add ..
    omega
  have full : ax + p.sread = sectors ↔ ax.toNat + p.sread.toNat = 18 := by
    rw [← sum]
    exact BitVec.toNat_inj.symm
  have later : (p.track + 1).toNat = p.track.toNat + 1 := by
    have wrapped : (p.track + 1).toNat = (p.track.toNat + 1) % 65536 := BitVec.toNat_add ..
    omega
  have none : (0 : Word16).toNat = 0 := rfl
  have next : (1 : Word16).toNat = 1 := rfl
  by_cases ended : ax.toNat + p.sread.toNat = 18
  · have turn : (1 : Word16) - 0 = 1 := rfl
    have back : (1 : Word16) - 1 = 0 := rfl
    obtain zero | one := Behind.head_cases head
    · have shown : advance ax p = { p with head := 1, sread := 0 } := by
        simp only [advance, ne_eq, full, ended, zero, turn]
        rfl
      rw [shown, zero]
      simp only [none, next]
      omega
    · have shown : advance ax p = { p with track := p.track + 1, head := 0, sread := 0 } := by
        simp only [advance, ne_eq, full, ended, one, back]
        rfl
      rw [shown, one]
      simp only [none, next, later]
      omega
  · have shown : advance ax p = { p with sread := ax + p.sread } := by
      simp only [advance, ne_eq, full, ended]
      rfl
    rw [shown]
    simp only [sum]
    omega

theorem advance_rest (ax : Word16) (p : Position) :
    (advance ax p).es = p.es ∧ (advance ax p).bx = p.bx ∧ (advance ax p).mem = p.mem := by
  simp only [advance]
  split
  · exact ⟨rfl, rfl, rfl⟩
  · split <;> exact ⟨rfl, rfl, rfl⟩

/-- The sectors that are read are those behind the ones before. -/
theorem Behind.read (reads : Reads disk bios) (behind : Behind disk m n p) {r : Int13} (valid : r.Valid)
    (first : r.first = n + 1) (buffer : r.buffer = 0x10000 + 512 * n) :
    (∀ i < 512 * (n + r.count), bios r p.mem (0x10000 + i) = disk (512 + i)) ∧
      ∀ x, x ∉ Set.Ico 0x10000 (0x10000 + 512 * (n + r.count)) → bios r p.mem x = m x := by
  obtain ⟨inside, outside⟩ := reads r p.mem valid
  rw [first, buffer] at inside
  rw [buffer] at outside
  constructor
  · intro i small
    by_cases old : i < 512 * n
    · rw [outside _ (by rw [Set.mem_Ico]; omega)]
      exact behind.loaded i old
    · obtain ⟨j, rfl⟩ := Nat.exists_eq_add_of_le (Nat.le_of_not_lt old)
      have here : 0x10000 + (512 * n + j) = 0x10000 + 512 * n + j := by omega
      have there : 512 + (512 * n + j) = 512 * (n + 1) + j := by omega
      rw [here, there]
      exact inside j (by omega)
  · intro x out
    rw [Set.mem_Ico] at out
    rw [outside x (by rw [Set.mem_Ico]; omega)]
    exact behind.others x (by rw [Set.mem_Ico]; omega)

/-- A pass goes on, at most to the end of the segment. -/
theorem Behind.step (reads : Reads disk bios) (behind : Behind disk m n p) (inside : n < 1024)
    (more : ¬ syssize p.mem < p.es - SYSSEG) :
    ∃ k p', rpRead bios p = some p' ∧ (readTrack (Loader.sectorsLeft p) p).Valid ∧ 0 < k ∧ n % 128 + k ≤ 128 ∧
      Behind disk m (n + k) p' := by
  have left := behind.sectorsLeft
  have room := behind.sread
  have place := behind.place
  have bx := behind.bx
  have es := behind.es
  generalize picked : Loader.sectorsLeft p = ax at left
  obtain ⟨valid, first, count, buffer⟩ := readTrack_valid behind inside ax (by omega) (by omega) (by omega)
  obtain ⟨loaded, others⟩ := behind.read reads valid first buffer
  rw [count] at loaded others
  have pass : rpRead bios p =
      let q := advance ax { p with mem := bios (readTrack ax p) p.mem }
      if q.bx.toNat + (ax <<< 9).toNat < 65536 then some { q with bx := q.bx + ax <<< 9 }
      else some { q with es := q.es + 0x1000, bx := 0 } := by
    rw [← picked]
    exact if_neg more
  obtain ⟨sread, head, there⟩ := advance_place (p := { p with mem := bios (readTrack ax p) p.mem }) ax behind.sread
    behind.head (by simp only; omega) (by simp only; omega)
  obtain ⟨segment, offset, mem⟩ := advance_rest ax { p with mem := bios (readTrack ax p) p.mem }
  generalize advance ax { p with mem := bios (readTrack ax p) p.mem } = q at pass sread head there segment offset mem
  simp only at pass there segment offset mem
  have bytes : (ax <<< 9).toNat = 512 * ax.toNat := by
    rw [toNat_shl]
    omega
  rw [← mem] at loaded others
  by_cases fits : q.bx.toNat + (ax <<< 9).toNat < 65536
  · rw [if_pos fits] at pass
    rw [offset] at fits
    refine ⟨ax.toNat, _, pass, valid, by omega, by omega, ⟨?_, ?_, sread, head, ?_, loaded, others⟩⟩
    · rw [segment]
      omega
    · have sum : (q.bx + ax <<< 9).toNat = (q.bx.toNat + (ax <<< 9).toNat) % 65536 := BitVec.toNat_add ..
      rw [sum, offset]
      omega
    · rw [there]
      omega
  · rw [if_neg fits] at pass
    rw [offset] at fits
    have whole : n % 128 + ax.toNat = 128 := by omega
    refine ⟨ax.toNat, _, pass, valid, by omega, by omega, ⟨?_, ?_, sread, head, ?_, loaded, others⟩⟩
    · have further : (q.es + 0x1000).toNat = (p.es.toNat + 4096) % 65536 := by
        rw [segment, BitVec.toNat_add]
        rfl
      rw [further]
      omega
    · have zero : (0 : Word16).toNat = 0 := rfl
      rw [zero]
      omega
    · rw [there]
      omega

/-- The reads stay below the boot sector. -/
theorem Behind.syssize (behind : Behind disk m n p) (inside : n ≤ 1024) : syssize p.mem = Loader.syssize m := by
  have low := behind.others 0x901F4 (by rw [Set.mem_Ico]; omega)
  have high := behind.others 0x901F5 (by rw [Set.mem_Ico]; omega)
  rw [Loader.syssize, low, high, Loader.syssize]

theorem Behind.finish (reads : Reads disk bios) (small : (Loader.syssize m).toNat < 0x8000) (behind : Behind disk m n p)
    (before : n ≤ 128 * ((Loader.syssize m).toNat / 4096 + 1)) : ∃ fuel p', readLoop bios fuel p = some p' ∧
      (∀ r ∈ requests bios fuel p, r.Valid) ∧ Behind disk m (128 * ((Loader.syssize m).toNat / 4096 + 1)) p' := by
  induction rest : 128 * ((Loader.syssize m).toNat / 4096 + 1) - n using Nat.strong_induction_on generalizing n p with
  | _ rest ih =>
    have kept := behind.syssize (by omega)
    have es := behind.es
    have distance : (p.es - SYSSEG).toNat = 4096 * (n / 128) := by
      rw [BitVec.toNat_sub]
      simp
      omega
    by_cases done : n = 128 * ((Loader.syssize m).toNat / 4096 + 1)
    · have stop : Loader.syssize p.mem < p.es - SYSSEG := by
        rw [BitVec.lt_def, kept, distance]
        omega
      refine ⟨1, p, ?_, ?_, done ▸ behind⟩
      · simp only [readLoop, rpRead, if_pos stop]
      · simp only [requests, rpRead, if_pos stop, List.not_mem_nil, false_imp_iff, implies_true]
    · have more : ¬ Loader.syssize p.mem < p.es - SYSSEG := by
        rw [BitVec.lt_def, kept, distance]
        omega
      obtain ⟨k, p', pass, valid, some, inside, next⟩ := behind.step reads (by omega) more
      obtain ⟨fuel, last, loop, later, there⟩ := ih _ (by omega) next (by omega) rfl
      refine ⟨fuel + 1, last, ?_, ?_, there⟩
      · simp only [readLoop, pass, loop]
      · simp only [requests, pass]
        exact List.forall_mem_cons.mpr ⟨valid, later⟩

/-- `read_it` returns. -/
theorem readIt_behind (reads : Reads disk bios) (m : Memory) (small : (syssize m).toNat < 0x8000) :
    ∃ fuel p, readIt bios fuel SYSSEG m = some p ∧ (∀ r ∈ requests bios fuel (firstPosition SYSSEG m), r.Valid) ∧
      Behind disk m (128 * ((syssize m).toNat / 4096 + 1)) p := by
  have start : Behind disk m 0 (firstPosition SYSSEG m) := by
    refine ⟨rfl, rfl, ?_, ?_, rfl, fun i none => absurd none (Nat.not_lt_zero i), fun _ _ => rfl⟩
    · exact (by decide : (1 : Word16).toNat < 18)
    · exact (by decide : (0 : Word16).toNat < 2)
  obtain ⟨fuel, p, loop, valid, behind⟩ := start.finish reads small (Nat.zero_le _)
  refine ⟨fuel, p, ?_, valid, behind⟩
  rw [readIt, if_neg (by decide)]
  exact loop

/-- `read_it` comes back with whole blocks of 64 kB, as many as `syssize` needs, from the
sector behind the boot sector on, as long as they end below the boot sector at 0x90000. What
it asks of the BIOS stays within a track and a block. -/
theorem readIt_loads (reads : Reads disk bios) (m : Memory) (small : (syssize m).toNat < 0x8000) :
    ∃ fuel p, readIt bios fuel SYSSEG m = some p ∧ (∀ r ∈ requests bios fuel (firstPosition SYSSEG m), r.Valid) ∧
      (∀ i < 65536 * ((syssize m).toNat / 4096 + 1), p.mem (0x10000 + i) = disk (512 + i)) ∧
      ∀ x, x ∉ Set.Ico 0x10000 (0x10000 + 65536 * ((syssize m).toNat / 4096 + 1)) → p.mem x = m x := by
  obtain ⟨fuel, p, done, valid, behind⟩ := readIt_behind reads m small
  have bytes : 512 * (128 * ((syssize m).toNat / 4096 + 1)) = 65536 * ((syssize m).toNat / 4096 + 1) := by omega
  have loaded := behind.loaded
  have others := behind.others
  rw [bytes] at loaded others
  exact ⟨fuel, p, done, valid, loaded, others⟩

/-- A BIOS that reads the disk and does nothing else. -/
def plainBios (disk : Nat → UInt8) : Bios := fun r m x =>
  if r.buffer ≤ x ∧ x < r.buffer + 512 * r.count then disk (512 * r.first + (x - r.buffer)) else m x

theorem plainBios_reads (disk : Nat → UInt8) : Reads disk (plainBios disk) := by
  intro r m _
  constructor
  · intro i small
    have inside : r.buffer ≤ r.buffer + i ∧ r.buffer + i < r.buffer + 512 * r.count := by omega
    rw [plainBios, if_pos inside, Nat.add_sub_cancel_left]
  · intro x out
    rw [Set.mem_Ico] at out
    exact if_neg out

/-- An image of 300 kB comes in five blocks. -/
theorem readIt_loads_five : ∃ fuel p,
    readIt (plainBios fun x => .ofNat x) fuel SYSSEG (fun x => if x = 0x901F5 then 0x4B else 0) = some p ∧
      p.mem 0x10000 = 0 ∧ p.mem (0x10000 + 300000) = 0xE0 ∧ p.mem 0x901F5 = 0x4B := by
  have size : (syssize fun x => if x = 0x901F5 then 0x4B else 0).toNat = 0x4B00 := by decide
  obtain ⟨fuel, p, done, -, loaded, others⟩ := readIt_loads (plainBios_reads fun x => .ofNat x)
    (fun x => if x = 0x901F5 then 0x4B else 0) (by rw [size]; decide)
  rw [size] at loaded others
  refine ⟨fuel, p, done, (loaded 0 (by decide)).trans (by decide), (loaded 300000 (by decide)).trans (by decide), ?_⟩
  exact others 0x901F5 (by rw [Set.mem_Ico]; omega)

end Loader
end Zeos
