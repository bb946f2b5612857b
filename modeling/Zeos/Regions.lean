import Zeos.Writing
import Zeos.Refusals

/-! The buffers of a task against `access_ok`, which knows the regions of the link map
only: the heap counts up to its first page, whatever `dyn_mem` has mapped. -/
namespace Zeos
open Outcome

/-- The pages that a task with `h` heap pages may access: its data, its heap, and for a
read its code. A page table has no more entries. -/
def Mapped (type : Verify) (h page : Nat) : Prop :=
  page < totalPages ∧
    (pagLogInitData ≤ page ∧ page < pagLogInitData + numPagData ∨
      pagLogInitHeap ≤ page ∧ page < pagLogInitHeap + h ∨
      type = .read ∧ pagLogInitCode ≤ page ∧ page < pagLogInitCode + numPagCode)

/-- Every byte of the buffer lies in a page of the task. -/
def Owned (type : Verify) (h : Nat) (addr : DWord) (size : Int) : Prop :=
  ∀ byte : Nat, addr.toNat ≤ byte → byte < addr.toNat + size.toNat → Mapped type h (byte / pageSize)

/-- `sys_write` reads the buffer of a task, `sys_read` writes it: neither returns -EFAULT. -/
def Serves : Verify → DWord → Int → Prop
  | .read, addr, size => ∀ aux fd t t', sysWrite aux fd addr size t ≠ .ok (-eFAULT, t')
  | .write, addr, size => ∀ s : State, s.sysRead addr size ≠ .ok (s.sysReturn (some (-eFAULT)))

variable {type : Verify} {h : Nat} {addr : DWord} {size : Int}

theorem Owned.range (owned : Owned type h addr size) (nonempty : 0 < size) :
    lUserStart ≤ addr.toNat ∧ addr.toNat + size.toNat ≤ totalPages * pageSize := by
  have first := owned addr.toNat le_rfl (by omega)
  have last := owned (addr.toNat + size.toNat - 1) (by omega) (by omega)
  simp [Mapped] at first last ⊢
  omega

/-- Of the buffers of a task the check lets those through that end inside the first heap page. -/
theorem Owned.accessOk (owned : Owned type h addr size) (nonempty : 0 < size) :
    accessOk type addr (.ofInt 32 size) = true ↔ addr.toNat + size.toNat < (pagLogInitHeap + 1) * pageSize := by
  obtain ⟨start, bound⟩ := owned.range nonempty
  have unsigned : (BitVec.ofInt 32 size).toNat = size.toNat := by
    rw [BitVec.toNat_ofInt]
    simp at bound
    omega
  rw [accessOk_iff type addr _ (by rw [unsigned]; simp at bound; omega), unsigned]
  exact and_iff_right start

theorem Owned.isInt (owned : Owned type h addr size) (nonempty : 0 < size) : IsInt size := by
  obtain ⟨start, bound⟩ := owned.range nonempty
  simp at bound
  exact ⟨by omega, by omega⟩

theorem Owned.ne_zero (owned : Owned type h addr size) (nonempty : 0 < size) : addr ≠ 0 := by
  rintro rfl
  obtain ⟨start, -⟩ := owned.range nonempty
  contradiction

/-- Behind its checks `sys_write` returns the size. -/
theorem Owned.serves_read (owned : Owned .read h addr size) (nonempty : 0 < size)
    (access : Zeos.accessOk .read addr (.ofInt 32 size) = true) : Serves .read addr size := by
  intro aux fd t t' done
  by_cases descriptor : checkFd fd escriptura = 0
  · have accepts : Accepts fd addr size := ⟨descriptor, owned.ne_zero nonempty, nonempty, access⟩
    have value := (sysWrite_ok accepts (owned.isInt nonempty) done).1
    simp at value
    omega
  · unfold sysWrite at done
    rw [if_pos descriptor] at done
    have value : checkFd fd escriptura = -eFAULT := (Prod.mk.inj (Except.ok.inj done)).1
    unfold checkFd at value
    split at value
    · contradiction
    · split at value <;> contradiction

/-- A reader that is not suspended has its characters. -/
theorem State.readWait_leaves {s s' : State} (done : s.readWait addr size = .ok s') :
    (s'.core.task s.core.current).kEsp = .read addr size ∨ s'.core.ct.eax = some size := by
  unfold readWait at done
  split at done
  · exact .inl (schedNextRr_saves done)
  · obtain ⟨core, -, done⟩ := bind_ok.mp done
    obtain ⟨s₁, -, done⟩ := bind_ok.mp done
    cases done
    right
    simp [State.sysReturn, Core.sysReturn, Core.ct]

/-- Behind its checks `sys_read` leaves the caller suspended, or returns the size. -/
theorem Owned.serves_write (owned : Owned .write h addr size) (nonempty : 0 < size)
    (access : Zeos.accessOk .write addr (.ofInt 32 size) = true) : Serves .write addr size := by
  intro s done
  have stack : ((s.sysReturn (some (-eFAULT))).core.task s.core.current).kEsp = .user := by
    simp [State.sysReturn, Core.sysReturn]
  have value : (s.sysReturn (some (-eFAULT))).core.ct.eax = some (-eFAULT) := by
    simp [State.sysReturn, Core.sysReturn, Core.ct]
  unfold State.sysRead at done
  rw [if_neg (owned.ne_zero nonempty), if_neg (by omega), if_neg (by simpa using access)] at done
  obtain ⟨s₁, queued, done⟩ := bind_ok.mp done
  have mine := (State.updateProcessStateRr_stacks queued).1
  have suspended {s' : State} (done : s₁.schedNextRr (.read addr size) = .ok s') : s' ≠ s.sysReturn (some (-eFAULT)) := by
    rintro rfl
    have saved := State.schedNextRr_saves done
    rw [mine, stack] at saved
    contradiction
  have served {s' : State} (done : s₁.readWait addr size = .ok s') : s' ≠ s.sysReturn (some (-eFAULT)) := by
    rintro rfl
    rcases State.readWait_leaves done with saved | returned
    · rw [mine, stack] at saved
      contradiction
    · rw [value] at returned
      simp at returned
      omega
  obtain ⟨alone, -, done⟩ := bind_ok.mp done
  split at done
  · exact served done rfl
  · obtain ⟨e, -, done⟩ := bind_ok.mp done
    obtain ⟨first, -, done⟩ := bind_ok.mp done
    split at done
    · exact suspended done rfl
    · exact served done rfl

/-- A buffer of a task is let through, and served, exactly if it ends in front of the last
byte of the first heap page. -/
theorem access_ok_serves_iff (type : Verify) (h : Nat) (addr : DWord) (size : Int) (nonempty : 0 < size)
    (owned : Owned type h addr size) :
    accessOk type addr (.ofInt 32 size) = true ∧ Serves type addr size ↔
      addr.toNat + size.toNat < (pagLogInitHeap + 1) * pageSize := by
  rw [← owned.accessOk nonempty]
  constructor
  · exact And.left
  · intro access
    cases type with
    | read => exact ⟨access, owned.serves_read nonempty access⟩
    | write => exact ⟨access, owned.serves_write nonempty access⟩

theorem owned_heap (type : Verify) {h : Nat} {addr : DWord} {size : Int} (start : pagLogInitHeap * pageSize ≤ addr.toNat)
    (bound : addr.toNat + size.toNat ≤ (pagLogInitHeap + h) * pageSize)
    (fits : addr.toNat + size.toNat ≤ totalPages * pageSize) : Owned type h addr size := by
  intro byte low high
  simp at start bound fits
  exact ⟨by simp; omega, .inr (.inl ⟨by simp; omega, by simp; omega⟩)⟩

/-- Sixteen bytes at the start of the heap. -/
theorem access_ok_serves_heap : accessOk .write 0x11C000 16 = true ∧ Serves .write 0x11C000 16 :=
  (access_ok_serves_iff .write 1 0x11C000 16 (by decide) (owned_heap .write (by decide) (by decide) (by decide))).mpr
    (by decide)

/-- The page that `dyn_mem(1)` gives is refused as a whole, and so is what lies in a second page. -/
theorem access_ok_refuses_heap :
    Owned .read 1 0x11C000 4096 ∧ accessOk .read 0x11C000 4096 = false ∧
      (∀ aux t, sysWrite aux 1 0x11C000 4096 t = .ok (-eFAULT, t)) ∧
      Owned .write 2 0x11D000 16 ∧ accessOk .write 0x11D000 16 = false := by
  refine ⟨owned_heap .read (by decide) (by decide) (by decide), by decide, fun aux t => ?_,
    owned_heap .write (by decide) (by decide) (by decide), by decide⟩
  unfold sysWrite
  rw [if_neg (by decide), if_neg (by decide), if_neg (by decide), if_pos (by decide)]

end Zeos
