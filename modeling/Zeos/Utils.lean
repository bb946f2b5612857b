import Zeos.Mm

/-! `access_ok` of `utils.c`. -/
namespace Zeos

/-- The parameter `type` of `access_ok`. -/
inductive Verify where
  | read
  | write
  deriving DecidableEq, Repr

/-- `access_ok(type, addr, size)`. A write that the first test does not accept falls
through to the test for a read. -/
def accessOk (type : Verify) (addr size : DWord) : Bool :=
  let addrIni := (addr >>> 12).toNat
  let addrFin := ((addr + size) >>> 12).toNat
  if addrFin < addrIni then false
  else if type = .write ∧ userFirstPage ≤ addrIni ∧ addrFin ≤ userFirstPage + numPagData then true
  else if userFirstPage ≤ addrIni ∧ addrFin ≤ userFirstPage + numPagCode + numPagData then true
  else false

end Zeos
