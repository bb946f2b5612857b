import Zeos.Build
import Zeos.Copying
import Zeos.Loader
import Zeos.Types

/-! From the files that `build` reads to the program in its place: the boot sector loads the
image, `main` of `system.c` moves the program out of it. -/
namespace Zeos
open Build (File Packed build number onDisk)
open Bytes (Memory)
open Loader (Bios Reads readIt)

abbrev KERNEL_START : Nat := 0x10000

/-- `copy_data((void *) KERNEL_START + *p_sys_size, (void *) L_USER_START, *p_usr_size)` -/
def moveUser (m : Memory) : Memory :=
  copyData (KERNEL_START + number m KERNEL_START 4) lUserStart (number m (KERNEL_START + 4) 4) m

/-- The system and the program where the loader leaves them. -/
structure Loaded (sys usr : List UInt8) (m : Memory) : Prop where
  sysSize : number m 0x10000 4 = sys.length
  usrSize : number m (0x10000 + 4) 4 = usr.length
  system : ∀ i, 12 ≤ i → i < sys.length → m (0x10000 + i) = onDisk sys i
  user : ∀ i < usr.length, m (0x10000 + sys.length + i) = onDisk usr i

variable {sys usr image : List UInt8} {bios : Bios} {m m' : Memory}

/-- What is built for the two files and fits below the boot sector is loaded as it is. -/
theorem Build.Packed.loads (packed : Packed sys usr image) (header : 12 ≤ sys.length)
    (small : sys.length + usr.length + 15 < 0x80000) (reads : Reads (onDisk image) bios)
    (boot : ∀ i < 512, m (0x90000 + i) = onDisk image i) :
    ∃ fuel p, readIt bios fuel Loader.SYSSEG m = some p ∧ Loaded sys usr p.mem := by
  have imSize := packed.imSize
  simp only [number, Nat.reduceAdd] at imSize
  have size : (Loader.syssize m).toNat = (sys.length + usr.length + 15) / 16 := by
    have low := boot 500 (by decide)
    have high := boot 501 (by decide)
    simp only [Nat.reduceAdd] at low high
    rw [Loader.syssize, BitVec.toNat_ofNat, low, high]
    omega
  obtain ⟨fuel, p, done, -, behind⟩ := Loader.readIt_behind reads m (by omega)
  have loaded := behind.loaded
  rw [size] at loaded
  refine ⟨fuel, p, done, ?_⟩
  constructor
  case sysSize =>
    rw [Build.number_congr (g := onDisk image) (b := 512) 4 (fun i small => loaded i (by omega)), packed.sysSize]
    omega
  case usrSize =>
    rw [Build.number_congr (g := onDisk image) (b := 516) 4 (fun i small => ?_), packed.usrSize]
    · omega
    · have place := loaded (4 + i) (by omega)
      have here : 0x10000 + (4 + i) = 0x10000 + 4 + i := by omega
      have there : 512 + (4 + i) = 516 + i := by omega
      rw [here, there] at place
      exact place
  case system => exact fun i behind inside => (loaded i (by omega)).trans (packed.system i behind inside)
  case user =>
    intro i inside
    have place := loaded (sys.length + i) (by omega)
    rw [← Nat.add_assoc, ← Nat.add_assoc] at place
    exact place.trans (packed.user i inside)

/-- The program is moved to its address, from a memory that still has it. -/
theorem Loaded.moves (loaded : Loaded sys usr m) (small : sys.length + usr.length < 0x80000)
    (header : ∀ x ∈ Set.Ico 0x10000 (0x10000 + 12), m' x = m x)
    (kept : ∀ x ∈ Set.Ico (0x10000 + sys.length) (0x10000 + sys.length + usr.length), m' x = m x) :
    (∀ i < usr.length, moveUser m' (0x100000 + i) = onDisk usr i) ∧
      ∀ x, x ∉ Set.Ico 0x100000 (0x100000 + usr.length) → moveUser m' x = m' x := by
  have sysSize : number m' 0x10000 4 = sys.length :=
    (Build.number_congr 4 (fun i inside => header _ ⟨by omega, by omega⟩)).trans loaded.sysSize
  have usrSize : number m' (0x10000 + 4) 4 = usr.length :=
    (Build.number_congr 4 (fun i inside => header _ ⟨by omega, by omega⟩)).trans loaded.usrSize
  have apart : Disjoint (Set.Ico (0x10000 + sys.length) (0x10000 + sys.length + usr.length))
      (Set.Ico 0x100000 (0x100000 + usr.length)) := by
    rw [Set.Ico_disjoint_Ico]
    omega
  have moved : Copied (0x10000 + sys.length) 0x100000 usr.length m' (moveUser m') := by
    rw [moveUser, sysSize, usrSize]
    exact copyBlock_copied (.inl apart)
  refine ⟨fun i inside => ?_, moved.outside⟩
  rw [moved.inside i inside, kept _ ⟨by omega, by omega⟩]
  exact loaded.user i inside

/-- The program of every image that `build` accepts comes to its address unchanged, if the
image fits below the boot sector and what runs before the move keeps away from it. -/
theorem program_arrives {bootsect system user : File} (systemRead : system.content = .ok sys) (userRead : user.content = .ok usr)
    (built : build bootsect system user = .ok image) (header : 12 ≤ sys.length)
    (small : sys.length + usr.length + 15 < 0x80000) (reads : Reads (onDisk image) bios)
    (boot : ∀ i < 512, m (0x90000 + i) = onDisk image i) :
    ∃ fuel p, readIt bios fuel Loader.SYSSEG m = some p ∧
      (∀ i, 12 ≤ i → i < sys.length → p.mem (0x10000 + i) = onDisk sys i) ∧
      ∀ m' : Memory, (∀ x ∈ Set.Ico 0x10000 (0x10000 + 12), m' x = p.mem x) →
        (∀ x ∈ Set.Ico (0x10000 + sys.length) (0x10000 + sys.length + usr.length), m' x = p.mem x) →
          (∀ i < usr.length, moveUser m' (0x100000 + i) = onDisk usr i) ∧
            ∀ x, x ∉ Set.Ico 0x100000 (0x100000 + usr.length) → moveUser m' x = m' x := by
  obtain ⟨fuel, p, done, loaded⟩ := (Build.build_holds systemRead userRead header (by omega) built).loads header small reads boot
  exact ⟨fuel, p, done, loaded.system, fun m' => loaded.moves (by omega)⟩

namespace Starting

def bootsect : File :=
  ⟨"bootsect", .ok (Build.hdr ++ List.replicate 24 0 ++ (List.replicate 510 0 ++ [0x55, 0xAA]))⟩

def system : File := ⟨"system.out", .ok (List.replicate 24 0x90)⟩

/-- `mov $42, %eax` and `ret`. -/
def user : File := ⟨"user.out", .ok [0xB8, 0x2A, 0x00, 0x00, 0x00, 0xC3]⟩

theorem bootsect_accepted : Build.bootSector bootsect = .ok (List.replicate 510 0 ++ [0x55, 0xAA]) := by
  decide +kernel

/-- The six bytes arrive. -/
theorem user_arrives : ∃ image fuel p, build bootsect system user = .ok image ∧
    readIt (Loader.plainBios (onDisk image)) fuel Loader.SYSSEG (fun x => onDisk image (x - 0x90000)) = some p ∧
      ∀ i < 6, moveUser p.mem (0x100000 + i) = onDisk [0xB8, 0x2A, 0x00, 0x00, 0x00, 0xC3] i := by
  have built : build bootsect system user = .ok (Build.imageOf _ _ _) :=
    Build.build_imageOf bootsect_accepted rfl rfl (by decide)
  obtain ⟨fuel, p, done, -, moves⟩ := program_arrives rfl rfl built (by decide) (by decide) (Loader.plainBios_reads _)
    (m := fun x => onDisk _ (x - 0x90000)) (fun i _ => congrArg _ (Nat.add_sub_cancel_left ..))
  exact ⟨_, fuel, p, built, done, (moves p.mem (fun _ _ => rfl) fun _ _ => rfl).1⟩

end Starting
end Zeos
