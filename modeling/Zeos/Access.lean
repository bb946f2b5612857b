import Zeos.Utils

/-! What `access_ok` lets through. Both of its tests compare the page of the first byte
behind the buffer with the first page behind the region, and a write that fails its own
test is measured as a read. -/
namespace Zeos

namespace Verify

/-- The pages an access may touch: the data pages, and for a read the code pages too. -/
def Region : Verify → Nat → Prop
  | .write, page => pagLogInitData ≤ page ∧ page < pagLogInitData + numPagData
  | .read, page => pagLogInitData ≤ page ∧ page < pagLogInitCode + numPagCode

/-- The first address behind the region. -/
def limit : Verify → Nat
  | .write => (pagLogInitData + numPagData) * pageSize
  | .read => (pagLogInitCode + numPagCode) * pageSize

end Verify

/-- Every byte of a request that is let through lies in the region of its type. -/
def Guards (type : Verify) (addr size : DWord) : Prop :=
  accessOk type addr size = true →
    ∀ byte, addr.toNat ≤ byte → byte < addr.toNat + size.toNat → type.Region (byte / pageSize)

/-- The first page behind the code is let through as well, for both types. -/
theorem accessOk_iff (type : Verify) (addr size : DWord) (bound : size.toNat < 2 ^ 31) :
    accessOk type addr size = true ↔
      lUserStart ≤ addr.toNat ∧ addr.toNat + size.toNat < (pagLogInitHeap + 1) * pageSize := by
  have small := addr.isLt
  have first : (addr >>> 12).toNat = addr.toNat / 4096 := by
    simp [Nat.shiftRight_eq_div_pow]
  have last : ((addr + size) >>> 12).toNat = (addr.toNat + size.toNat) % 2 ^ 32 / 4096 := by
    simp [Nat.shiftRight_eq_div_pow]
  unfold accessOk
  simp only [first, last]
  cases type <;> simp <;> omega

/-- `access_ok` keeps a request inside its region exactly when the request starts below
the user pages, ends inside the region, or ends behind the first heap page. -/
theorem access_ok_guards_iff (type : Verify) (addr size : DWord) (some : 0 < size.toNat)
    (bound : size.toNat < 2 ^ 31) :
    Guards type addr size ↔
      addr.toNat < lUserStart ∨ addr.toNat + size.toNat ≤ type.limit ∨
        (pagLogInitHeap + 1) * pageSize ≤ addr.toNat + size.toNat := by
  unfold Guards
  rw [accessOk_iff type addr size bound]
  constructor
  · intro guards
    by_contra outside
    obtain ⟨start, behind, accepted⟩ : lUserStart ≤ addr.toNat ∧
        type.limit < addr.toNat + size.toNat ∧
        addr.toNat + size.toNat < (pagLogInitHeap + 1) * pageSize := by omega
    have last := guards ⟨start, accepted⟩ (addr.toNat + size.toNat - 1) (by omega) (by omega)
    cases type <;> simp [Verify.Region, Verify.limit] at * <;> omega
  · rintro (below | inside | past) ⟨start, accepted⟩ byte low high
    · omega
    · cases type <;> simp [Verify.Region, Verify.limit] at * <;> omega
    · omega

/-- A buffer of 16 bytes in a data page. -/
theorem access_ok_guards_data : Guards .write 0x100000 16 :=
  (access_ok_guards_iff .write 0x100000 16 (by decide) (by decide)).mpr (by decide)

/-- A write of one byte into the first code page, and into the page behind the code. -/
theorem access_ok_code_page :
    accessOk .write 0x114000 1 = true ∧ ¬ Guards .write 0x114000 1 ∧ ¬ Guards .read 0x11C000 1 := by
  refine ⟨by decide, fun guards => ?_, fun guards => ?_⟩
  · have := guards (by decide) 0x114000 (by decide) (by decide)
    simp [Verify.Region] at this
  · have := guards (by decide) 0x11C000 (by decide) (by decide)
    simp [Verify.Region] at this

end Zeos
