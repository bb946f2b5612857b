import Zeos.Screen
import Zeos.Copying
import Zeos.Access

/-! `sys_write` and the console behind it. The text goes to `printc` through a buffer of
the kernel, a chunk at a time; what arrives is the whole text as one write would print it. -/
namespace Zeos

open Bytes (Memory bytesAt bytesAt_succ bytesAt_add bytesAt_congr)

abbrev writeAuxBuffMaxSize : Nat := 1024

abbrev escriptura : Int := 1

/-- `check_fd(fd, permissions)`: -9 is EBADF, -13 is EACCES. -/
def checkFd (fd permissions : Int) : Int :=
  if fd ≠ 1 then -9 else if permissions ≠ escriptura then -13 else 0

/-- Where `bufferAux` lies. The kernel ends below the user pages. -/
structure BufferAux where
  addr : Nat
  below : addr + writeAuxBuffMaxSize ≤ lUserStart

/-- The memory that the running task and the kernel see, and the console. -/
structure Terminal where
  memory : Memory
  console : Console

/-- The loop of `sys_write_console`, from `i` on. -/
def writeConsole (m : Memory) (buffer : Nat) (size : Int) (i : Nat) (s : Console) : Except MemFault Console :=
  if i < size then do
    let s ← printc (m (buffer + i)) s
    writeConsole m buffer size (i + 1) s
  else .ok s
  termination_by (size - i).toNat
  decreasing_by omega

/-- `sys_write_console(buffer, size)`. -/
def sysWriteConsole (buffer : Nat) (size : Int) (m : Memory) (s : Console) : Except MemFault (Int × Console) := do
  let s ← writeConsole m buffer size 0 s
  return (size, s)

/-- The loop of `sys_write`, with the variables behind it. -/
def writeChunks (aux : BufferAux) (ret : Int) (buffer : DWord) (size : Int) (t : Terminal) :
    Except MemFault (Int × DWord × Int × Terminal) :=
  if writeAuxBuffMaxSize < size then do
    let (_, memory) := copyFromUser buffer.toNat aux.addr writeAuxBuffMaxSize t.memory
    let (n, console) ← sysWriteConsole aux.addr writeAuxBuffMaxSize memory t.console
    writeChunks aux (ret + n) (buffer + .ofNat 32 writeAuxBuffMaxSize) (size - writeAuxBuffMaxSize) ⟨memory, console⟩
  else .ok (ret, buffer, size, t)
  termination_by size.toNat
  decreasing_by
    simp only [writeAuxBuffMaxSize] at *
    omega

/-- `sys_write(fd, buffer, size)`. -/
def sysWrite (aux : BufferAux) (fd : Int) (buffer : DWord) (size : Int) (t : Terminal) : Except MemFault (Int × Terminal) :=
  if checkFd fd escriptura ≠ 0 then .ok (checkFd fd escriptura, t)
  else if buffer = 0 then .ok (-eFAULT, t)
  else if size ≤ 0 then .ok (-eINVAL, t)
  else if ¬ accessOk .read buffer (.ofInt 32 size) then .ok (-eFAULT, t)
  else do
    let (ret, buffer, size, t) ← writeChunks aux 0 buffer size t
    let (_, memory) := copyFromUser buffer.toNat aux.addr size t.memory
    let (n, console) ← sysWriteConsole aux.addr size memory t.console
    return (ret + n, ⟨memory, console⟩)

/-- The call passes the checks of `sys_write`. -/
def Accepts (fd : Int) (buffer : DWord) (size : Int) : Prop :=
  checkFd fd escriptura = 0 ∧ buffer ≠ 0 ∧ 0 < size ∧ accessOk .read buffer (.ofInt 32 size) = true

instance (fd : Int) (buffer : DWord) (size : Int) : Decidable (Accepts fd buffer size) :=
  inferInstanceAs (Decidable (_ ∧ _ ∧ _ ∧ _))

/-- `printc` for each byte of the text in turn. -/
def printAll (text : List UInt8) (s : Console) : Except MemFault Console := text.foldlM (fun s c => printc c s) s

variable {m m' : Memory} {s s' : Console} {text more : List UInt8}

theorem printAll_append (text more : List UInt8) (s : Console) :
    printAll (text ++ more) s = printAll text s >>= printAll more := List.foldlM_append

theorem printAll_port (done : printAll text s = .ok s') : s'.port = s.port ++ text := by
  induction text generalizing s with
  | nil =>
    cases done
    simp
  | cons c text ih =>
    cases first : printc c s with
    | error fault => simp [printAll, first, bind, Except.bind] at done
    | ok middle =>
      have rest : printAll text middle = .ok s' := by simpa [printAll, first, bind, Except.bind] using done
      rw [ih rest, (Console.printc_keeps first).1, List.append_assoc, List.singleton_append]

/-- From `i` on, the loop prints the `n` bytes that are left. -/
theorem writeConsole_eq (m : Memory) (buffer : Nat) (n : Nat) : ∀ (i : Nat) (s : Console),
    writeConsole m buffer ((i + n : Nat) : Int) i s = printAll (bytesAt m (buffer + i) n) s := by
  induction n with
  | zero =>
    intro i s
    rw [writeConsole, if_neg (by omega)]
    rfl
  | succ n ih =>
    intro i s
    have size : i + (n + 1) = i + 1 + n := by omega
    rw [writeConsole, if_pos (by omega), bytesAt_succ, Nat.add_assoc]
    show _ = printc (m (buffer + i)) s >>= printAll (bytesAt m (buffer + (i + 1)) n)
    simp only [size, ih]

theorem sysWriteConsole_eq (buffer n : Nat) (m : Memory) (s : Console) :
    sysWriteConsole buffer n m s = do
      let s ← printAll (bytesAt m buffer n) s
      return ((n : Int), s) := by
  have loop := writeConsole_eq m buffer n 0 s
  rw [Nat.zero_add] at loop
  unfold sysWriteConsole
  rw [loop]
  rfl

/-- No byte outside `bufferAux` differs. -/
def BufferAux.Only (aux : BufferAux) (m m' : Memory) : Prop :=
  ∀ x, x ∉ Set.Ico aux.addr (aux.addr + writeAuxBuffMaxSize) → m' x = m x

variable {aux : BufferAux}

theorem BufferAux.Only.trans {m'' : Memory} (first : aux.Only m m') (second : aux.Only m' m'') : aux.Only m m'' :=
  fun x out => (second x out).trans (first x out)

/-- The buffers of a task lie above the kernel, so nothing that is read later is overwritten. -/
theorem BufferAux.Only.bytesAt {start n : Nat} (only : aux.Only m m') (user : lUserStart ≤ start) :
    bytesAt m' start n = bytesAt m start n := by
  apply bytesAt_congr
  intro i inside
  apply only
  have below := aux.below
  simp only [Set.mem_Ico]
  omega

/-- A chunk is copied as it is, and into `bufferAux` only. -/
theorem copyFromUser_aux (aux : BufferAux) (m : Memory) {start n : Nat} (user : lUserStart ≤ start)
    (fits : n ≤ writeAuxBuffMaxSize) :
    ∃ m', copyFromUser start aux.addr n m = (0, m') ∧ aux.Only m m' ∧ bytesAt m' aux.addr n = bytesAt m start n := by
  have below := aux.below
  have copied : Copied start aux.addr n m (copyBlock m start aux.addr n) := copyBlock_copied (.inr (by omega))
  refine ⟨_, rfl, fun x out => copied.outside x ?_, bytesAt_congr copied.inside⟩
  rw [Set.mem_Ico] at out ⊢
  omega

/-- The loop prints a first part of the text and leaves at most a chunk, not empty. -/
theorem writeChunks_eq (aux : BufferAux) (n : Nat) : ∀ (buffer : DWord) (m : Memory), 0 < n → lUserStart ≤ buffer.toNat →
    buffer.toNat + n < 2 ^ 32 → ∃ k r m', k + r = n ∧ 0 < r ∧ r ≤ writeAuxBuffMaxSize ∧ aux.Only m m' ∧
      ∀ (ret : Int) (s : Console), writeChunks aux ret buffer n ⟨m, s⟩ = do
        let s ← printAll (bytesAt m buffer.toNat k) s
        return (ret + k, buffer + .ofNat 32 k, (r : Int), ⟨m', s⟩) := by
  induction n using Nat.strong_induction_on with
  | _ n ih =>
    intro buffer m some user bound
    by_cases more : 1024 < n
    · obtain ⟨left, rfl⟩ := Nat.exists_eq_add_of_lt more
      obtain ⟨m₁, copy, only, bytes⟩ := copyFromUser_aux aux m user le_rfl
      have next : (buffer + .ofNat 32 writeAuxBuffMaxSize).toNat = buffer.toNat + 1024 := by
        rw [BitVec.toNat_add]
        show (buffer.toNat + 1024) % 2 ^ 32 = _
        omega
      obtain ⟨k, r, m₂, whole, rest, fits, only₂, tail⟩ := ih (left + 1) (by omega) (buffer + .ofNat 32 writeAuxBuffMaxSize) m₁
        (by omega) (by omega) (by omega)
      refine ⟨1024 + k, r, m₂, by omega, rest, fits, only.trans only₂, fun ret s => ?_⟩
      have long : (writeAuxBuffMaxSize : Int) < ((1024 + left + 1 : Nat) : Int) := by
        push_cast
        omega
      have size : ((1024 + left + 1 : Nat) : Int) - writeAuxBuffMaxSize = (left + 1 : Nat) := by
        push_cast
        omega
      have address : buffer + BitVec.ofNat 32 writeAuxBuffMaxSize + BitVec.ofNat 32 k = buffer + BitVec.ofNat 32 (1024 + k) := by
        rw [BitVec.add_assoc, BitVec.ofNat_add]
      have later : bytesAt m₁ (buffer.toNat + 1024) k = bytesAt m (buffer.toNat + 1024) k := only.bytesAt (by omega)
      have count : ret + ((1024 : Nat) : Int) + k = ret + ((1024 + k : Nat) : Int) := by
        push_cast
        omega
      rw [writeChunks, if_pos long, size, copy]
      simp only [sysWriteConsole_eq, bytes, bind_assoc, pure_bind, tail]
      simp only [next, address, later, bytesAt_add, printAll_append, bind_assoc, count]
    · have short : ¬ (writeAuxBuffMaxSize : Int) < n := by
        push_cast
        omega
      refine ⟨0, n, m, Nat.zero_add n, some, by simpa using more, fun _ _ => rfl, fun ret s => ?_⟩
      rw [writeChunks, if_neg short]
      simp [bytesAt, printAll]
      rfl

/-- What `access_ok` lets through starts in the user pages and does not wrap around. -/
theorem Accepts.range {fd size : Int} {buffer : DWord} (accepts : Accepts fd buffer size) (int : IsInt size) :
    lUserStart ≤ buffer.toNat ∧ buffer.toNat + size.toNat < 2 ^ 32 := by
  obtain ⟨-, -, some, access⟩ := accepts
  obtain ⟨-, high⟩ := int
  have unsigned : (BitVec.ofInt 32 size).toNat = size.toNat := by
    rw [BitVec.toNat_ofInt]
    omega
  obtain ⟨start, bound⟩ := (accessOk_iff .read buffer (.ofInt 32 size) (by omega)).mp access
  rw [unsigned] at bound
  exact ⟨start, bound.trans (by decide)⟩

/-- An accepted text reaches `printc` as it is, in one go. -/
theorem sysWrite_eq (aux : BufferAux) {fd size : Int} {buffer : DWord} (accepts : Accepts fd buffer size)
    (int : IsInt size) (m : Memory) :
    ∃ m', aux.Only m m' ∧ ∀ s, sysWrite aux fd buffer size ⟨m, s⟩ = do
      let s ← printAll (bytesAt m buffer.toNat size.toNat) s
      return (size, ⟨m', s⟩) := by
  obtain ⟨user, bound⟩ := accepts.range int
  obtain ⟨descriptor, address, some, access⟩ := accepts
  obtain ⟨n, rfl⟩ := Int.eq_ofNat_of_zero_le some.le
  obtain ⟨k, r, m₁, whole, rest, fits, only, chunks⟩ := writeChunks_eq aux n buffer m (by omega) user bound
  have next : (buffer + .ofNat 32 k).toNat = buffer.toNat + k := by
    have small : k < 2 ^ 32 := by omega
    rw [BitVec.toNat_add, BitVec.toNat_ofNat, Nat.mod_eq_of_lt small]
    omega
  have user' : lUserStart ≤ buffer.toNat + k := by omega
  obtain ⟨m₂, copy, only₂, bytes⟩ := copyFromUser_aux aux m₁ user' fits
  have later : bytesAt m₁ (buffer.toNat + k) r = bytesAt m (buffer.toNat + k) r := only.bytesAt (by omega)
  have count : (0 : Int) + k + r = n := by omega
  refine ⟨m₂, only.trans only₂, fun s => ?_⟩
  unfold sysWrite
  rw [if_neg (by simpa using descriptor), if_neg address, if_neg (by omega), if_neg (by simpa using access)]
  simp only [chunks, bind_assoc, pure_bind, next, copy, sysWriteConsole_eq, bytes, later, count]
  rw [Int.toNat_natCast, ← whole, bytesAt_add, printAll_append, bind_assoc]

theorem sysWrite_ok {fd size ret : Int} {buffer : DWord} {t t' : Terminal} (accepts : Accepts fd buffer size) (int : IsInt size)
    (done : sysWrite aux fd buffer size t = .ok (ret, t')) :
    ret = size ∧ t'.console.port = t.console.port ++ bytesAt t.memory buffer.toNat size.toNat := by
  obtain ⟨m, s⟩ := t
  obtain ⟨m', -, run⟩ := sysWrite_eq aux accepts int m
  rw [run s] at done
  cases printed : printAll (bytesAt m buffer.toNat size.toNat) s with
  | error fault => simp [printed, bind, Except.bind] at done
  | ok s' =>
    obtain ⟨rfl, rfl⟩ : size = ret ∧ (⟨m', s'⟩ : Terminal) = t' := by
      simpa [printed, bind, Except.bind, pure, Except.pure] using done
    exact ⟨rfl, printAll_port printed⟩

/-- The chunked path is one write of the whole buffer: the same bytes go to `printc` in
the same order, `size` is returned, and of the memory only `bufferAux` changes. -/
theorem sysWrite_whole (aux : BufferAux) (fd : Int) (buffer : DWord) (size : Int) (t : Terminal) (int : IsInt size)
    (accepts : Accepts fd buffer size) :
    ∃ m', aux.Only t.memory m' ∧
      (sysWrite aux fd buffer size t = do
        let s ← printAll (bytesAt t.memory buffer.toNat size.toNat) t.console
        return (size, ⟨m', s⟩)) ∧
      (sysWrite aux fd buffer size t = do
        let (ret, s) ← sysWriteConsole buffer.toNat size t.memory t.console
        return (ret, ⟨m', s⟩)) ∧
      ∀ ret t', sysWrite aux fd buffer size t = .ok (ret, t') →
        ret = size ∧ t'.console.port = t.console.port ++ bytesAt t.memory buffer.toNat size.toNat := by
  obtain ⟨m, s⟩ := t
  obtain ⟨m', only, run⟩ := sysWrite_eq aux accepts int m
  have natural : ((size.toNat : Nat) : Int) = size := Int.toNat_of_nonneg accepts.2.2.1.le
  have direct := sysWriteConsole_eq buffer.toNat size.toNat m s
  rw [natural] at direct
  refine ⟨m', only, run s, ?_, fun ret t' done => sysWrite_ok accepts int done⟩
  rw [run s, direct]
  simp only [bind_assoc, pure_bind]

/-- 3000 bytes at the first user address: two full chunks and a part of one. -/
theorem sysWrite_whole_chunks :
    ∃ m', (⟨0x20000, by decide⟩ : BufferAux).Only (fun _ => 65) m' ∧
      sysWrite ⟨0x20000, by decide⟩ 1 0x100000 3000 ⟨fun _ => 65, .boot (.replicate _ 0)⟩ = do
        let s ← printAll (bytesAt (fun _ => 65) 0x100000 3000) (.boot (.replicate _ 0))
        return (3000, ⟨m', s⟩) := by
  obtain ⟨m', only, run, -⟩ := sysWrite_whole ⟨0x20000, by decide⟩ 1 0x100000 3000 ⟨fun _ => 65, .boot (.replicate _ 0)⟩
    (by decide) (by decide)
  exact ⟨m', only, run⟩

end Zeos
