import Zeos.Gates

/-! The entry points of the kernel in `entry.S`, from the instruction that leads to one of
them to the one that leads back. The routines that they call are known by the C calling
convention only. -/
namespace Zeos
open Words Assembly Relation

namespace Registers

/-- In the order in which they stand on the stack. -/
def words (regs : Registers) : List Word32 :=
  [regs.edx, regs.ecx, regs.ebx, regs.esi, regs.edi, regs.ebp, regs.eax, regs.ds, regs.es, regs.fs, regs.gs]

/-- What `SAVE_ALL` saves. -/
def of (m : Machine) : Registers where
  edx := m.reg .edx
  ecx := m.reg .ecx
  ebx := m.reg .ebx
  esi := m.reg .esi
  edi := m.reg .edi
  ebp := m.reg .ebp
  eax := m.reg .eax
  ds := m.get (.seg .ds)
  es := m.get (.seg .es)
  fs := m.get (.seg .fs)
  gs := m.get (.seg .gs)

/-- What `RESTORE_ALL` finds. -/
def found (m : Memory) (a : Word32) : Registers where
  edx := load m a
  ecx := load m (a + 4)
  ebx := load m (a + 8)
  esi := load m (a + 12)
  edi := load m (a + 16)
  ebp := load m (a + 20)
  eax := load m (a + 24)
  ds := load m (a + 28)
  es := load m (a + 32)
  fs := load m (a + 36)
  gs := load m (a + 40)

/-- A machine with these registers. -/
def into (regs : Registers) (m : Machine) : Machine :=
  { m with
    reg := fun
      | .eax => regs.eax
      | .ebx => regs.ebx
      | .ecx => regs.ecx
      | .edx => regs.edx
      | .esi => regs.esi
      | .edi => regs.edi
      | .ebp => regs.ebp
      | .esp => m.esp
    seg := fun
      | .cs => m.seg .cs
      | .ss => m.seg .ss
      | .ds => regs.ds.setWidth 16
      | .es => regs.es.setWidth 16
      | .fs => regs.fs.setWidth 16
      | .gs => regs.gs.setWidth 16 }

variable {m m' : Machine}

theorem of_into (m m' : Machine) : (of m).into m' = { m' with
    reg := Function.update m.reg .esp m'.esp
    seg := fun s => if s = .cs ∨ s = .ss then m'.seg s else m.seg s } := by
  simp only [into, of, Machine.get, Machine.mk.injEq, and_true]
  constructor
  · funext r
    cases r <;> rfl
  · funext s
    cases s <;> simp

theorem into_self {regs : Registers} (reg : ∀ r, (regs.into m).reg r = m.reg r) (seg : ∀ s, (regs.into m).seg s = m.seg s) :
    regs.into m = m := by
  have shown : regs.into m = { m with reg := (regs.into m).reg, seg := (regs.into m).seg } := rfl
  rw [shown, funext reg, funext seg]

/-- The registers are the same ones on another stack. -/
theorem into_other {regs : Registers} (held : regs.into m = m) (reg : ∀ r, r ≠ .esp → m'.reg r = m.reg r)
    (seg : ∀ s, s ≠ .cs → s ≠ .ss → m'.seg s = m.seg s) : regs.into m' = m' := by
  apply into_self
  · intro r
    by_cases stack : r = .esp
    · subst stack
      rfl
    · rw [reg r stack, ← congrFun (congrArg Machine.reg held) r]
      cases r <;> first | contradiction | rfl
  · intro s
    by_cases code : s = .cs
    · subst code
      rfl
    · by_cases stack : s = .ss
      · subst stack
        rfl
      · rw [seg s code stack, ← congrFun (congrArg Machine.seg held) s]
        cases s <;> first | contradiction | rfl

theorem of_congr (reg : ∀ r, r ≠ .esp → m'.reg r = m.reg r) (seg : ∀ s, s ≠ .cs → s ≠ .ss → m'.seg s = m.seg s) :
    of m' = of m := by
  simp [of, Machine.get, reg, seg]

theorem words_injective {regs regs' : Registers} (same : regs.words = regs'.words) : regs = regs' := by
  cases regs
  cases regs'
  simpa [words] using same

theorem holds_found (m : Memory) (a : Word32) : Stored m a (Registers.found m a).words := by
  have further (i j : Word32) : a + i + j = a + (i + j) := BitVec.add_assoc ..
  simp only [words, Stored, further, and_true]
  exact ⟨rfl, rfl, rfl, rfl, rfl, rfl, rfl, rfl, rfl, rfl, rfl⟩

end Registers

namespace Listing

variable {I : Image Symbol} {m m' : Machine} {ws : List Word32} {regs : Registers}

/-- `SAVE_ALL` -/
theorem saveAll_exec (I : Image Symbol) (m : Machine) : I.execs saveAll m =
    { m.pushAll (Registers.of m).words.reverse with
      reg := Function.update (Function.update m.reg .esp (m.esp - 44)) .edx kernelDs
      seg := fun s => if s = .ds ∨ s = .es then 0x18 else m.seg s } := by
  have pushed := Machine.pushAll_rest (Registers.of m).words.reverse m
  have regs : (m.pushAll (Registers.of m).words.reverse).reg = Function.update m.reg .esp (m.esp - 44) := by
    funext r
    rw [Machine.pushAll_reg, Function.update_apply]
    rfl
  unfold saveAll
  rw [Image.execs_append, Image.execs_push saved (by decide)]
  have words : saved.map m.get = (Registers.of m).words.reverse := rfl
  rw [words, pushed]
  simp only [Image.execs, List.foldl_cons, List.foldl_nil, Machine.exec, Machine.set, Machine.setReg, regs,
    Machine.mk.injEq, true_and, and_true]
  funext s
  cases s <;> rfl

/-- `RESTORE_ALL` -/
theorem restoreAll_exec (holds : Stored m.mem m.esp (regs.words ++ ws)) : I.execs restoreAll m = regs.into (m.drop 11) := by
  unfold restoreAll
  rw [Image.execs_pop holds rfl (by decide)]
  simp only [saved, Registers.words, Registers.into, Machine.setAll, List.reverse_cons, List.reverse_nil, List.nil_append,
    List.cons_append, List.zip_cons_cons, List.zip_nil_right, List.foldl_cons, List.foldl_nil, Machine.set,
    Machine.setReg, List.length_cons, List.length_nil, Machine.mk.injEq, and_true]
  constructor
  · funext r
    cases r <;> rfl
  · funext s
    cases s <;> rfl

end Listing

/-- The state behind `SAVE_ALL`, with the words `ws` in front of it on the stack. -/
structure Saved (m s : Machine) (ws : List Word32) : Prop where
  seg : s.seg = fun x => if x = .ds ∨ x = .es then 0x18 else m.seg x
  enabled : s.enabled = m.enabled
  msr : s.msr = m.msr
  esp : s.esp = m.esp - 44
  holds : Stored s.mem s.esp ((Registers.of m).words ++ ws)
  kept : ∀ a n, Apart a n (m.esp - 44) 44 → Same a n m.mem s.mem

/-- A routine is called behind `SAVE_ALL`. -/
structure Called (m s : Machine) (ws : List Word32) (routine : Word32) : Prop where
  eip : s.eip = routine
  seg : s.seg = fun x => if x = .ds ∨ x = .es then 0x18 else m.seg x
  enabled : s.enabled = m.enabled
  msr : s.msr = m.msr
  esp : s.esp = m.esp - 48
  holds : Stored s.mem (s.esp + 4) ((Registers.of m).words ++ ws)
  kept : ∀ a n, Apart a n (m.esp - 48) 48 → Same a n m.mem s.mem

section Saving

variable {m s s' : Machine} {ws : List Word32}

theorem Listing.saveAll_saved (I : Image Symbol) (holds : Stored m.mem m.esp ws) (short : ws.length ≤ 5) :
    Saved m (I.execs Listing.saveAll m) ws := by
  have length : (Registers.of m).words.length = 11 := rfl
  have pushed := Machine.pushAll_holds (Registers.of m).words.reverse holds (by simp [length]; omega)
  have esp : (m.pushAll (Registers.of m).words.reverse).esp = m.esp - 44 := Machine.pushAll_reg ..
  have same (a : Word32) (n : Nat) (apart : Apart a n (m.esp - 44) 44) :=
    Machine.pushAll_same (Registers.of m).words.reverse m apart (by simp [length])
  rw [List.reverse_reverse, esp] at pushed
  rw [Machine.pushAll_rest] at same pushed
  rw [Listing.saveAll_exec, Machine.pushAll_rest]
  exact ⟨rfl, rfl, rfl, rfl, pushed, same⟩

theorem Listing.saveAll_reg (I : Image Symbol) (m : Machine) {r : Reg} (other : r ≠ .esp) (far : r ≠ .edx) :
    (I.execs Listing.saveAll m).reg r = m.reg r := by
  rw [Listing.saveAll_exec]
  exact (Function.update_of_ne far ..).trans (Function.update_of_ne other ..)

/-- What goes on behind `SAVE_ALL` without touching the stack. -/
theorem Saved.congr (saved : Saved m s ws) (seg : s'.seg = s.seg) (enabled : s'.enabled = s.enabled)
    (msr : s'.msr = s.msr) (esp : s'.esp = s.esp) (mem : s'.mem = s.mem) : Saved m s' ws where
  seg := seg.trans saved.seg
  enabled := enabled.trans saved.enabled
  msr := msr.trans saved.msr
  esp := esp.trans saved.esp
  holds := by
    rw [esp, mem]
    exact saved.holds
  kept a n apart := mem ▸ saved.kept a n apart

theorem Saved.call (saved : Saved m s ws) (short : ws.length ≤ 5) (a routine : Word32) :
    Called m { s.push a with eip := routine } ws routine ∧ ({ s.push a with eip := routine } : Machine).top = a := by
  have length : ((Registers.of m).words ++ ws).length ≤ 16 := by
    simp [Registers.words]
    omega
  have pushed := saved.holds.cons a (by omega)
  have esp : (s.push a).esp = s.esp - 4 := Machine.push_reg ..
  have here : (s.push a).esp + 4 = s.esp := by
    rw [esp]
    exact BitVec.sub_add_cancel ..
  have further : s.esp - 4 = m.esp - 48 := by
    rw [saved.esp]
    bv_omega
  refine ⟨⟨rfl, saved.seg, saved.enabled, saved.msr, esp.trans further, ?_, fun b n apart => ?_⟩, ?_⟩
  · have behind := pushed.2
    rw [BitVec.sub_add_cancel] at behind
    change Stored (store s.mem (s.esp - 4) a) ((s.push a).esp + 4) _
    rw [here]
    exact behind
  · have first := saved.kept b n (apart.shrink (i := 4) (by bv_omega) (by omega) (by omega))
    rw [← further] at apart
    exact first.trans (store_same s.mem a (apart.shrink (i := 0) (by simp) (by omega) (by omega)))
  · have top : load (store s.mem (s.esp - 4) a) (s.push a).esp = a := by
      rw [esp]
      exact pushed.1
    exact top

end Saving

section Interrupts

variable {I : Image Symbol} {name routine : Symbol} {u : Machine} {n : BitVec 8}

/-- The routine of an interrupt is entered. -/
structure Entered (u m : Machine) (routine : Word32) : Prop where
  eip : m.eip = routine
  cs : m.seg .cs = 0x10
  ss : m.seg .ss = u.enter.seg .ss
  ds : m.seg .ds = 0x18
  es : m.seg .es = 0x18
  disabled : m.enabled = false
  esp : m.esp = u.enter.esp - BitVec.ofNat 32 (4 * u.frame.length) - 48
  saved : Stored m.mem (m.esp + 4) ((Registers.of u).words ++ u.frame)
  kept : ∀ a k, Apart a k (u.enter.esp - 68) 68 → Same a k u.mem m.mem

theorem Listing.handler_behind {name routine : Symbol}
    (handler : (name, routine) = (.keyboardHandler, .keyboardRoutine) ∨ (name, routine) = (.clockHandler, .clockRoutine)) :
    Listing.saveAll ++ Listing.eoi ++ .call routine :: (Listing.restoreAll ++ [.iret]) <+: Line.behind name Listing.all := by
  obtain same | same := handler <;> cases same <;> decide +kernel

theorem Called.entered {s : Machine} {target : Word32} (called : Called (u.interrupt n) s u.frame target)
    (gate : (u.idt n).1 = 0x10) : Entered u s target := by
  have seg := called.seg
  have esp := called.esp
  have holds := called.holds
  have kept := called.kept
  have some : 0 < u.frame.length := by simp [Machine.frame]
  have short := u.frame_length_le
  have words : Registers.of (u.interrupt n) = Registers.of u :=
    Registers.of_congr (fun r => Machine.interrupt_reg n u) fun s cs ss =>
      (Machine.interrupt_seg n u cs).trans (u.enter_seg ss)
  rw [Machine.interrupt_esp] at esp kept
  rw [words] at holds
  refine ⟨called.eip, ?_, ?_, ?_, ?_, ?_, esp, holds, fun b k apart => ?_⟩
  · exact (congrFun seg _).trans ((Machine.interrupt_cs n u).trans gate)
  · exact (congrFun seg _).trans (Machine.interrupt_seg n u (by decide))
  · exact congrFun seg _
  · exact congrFun seg _
  · exact called.enabled.trans (Machine.interrupt_disabled n u)
  · have first := Machine.interrupt_same n u
      (apart.shrink (c := u.enter.esp - 20) (i := 48) (j := 20) (by bv_omega) (by omega) (by omega))
    exact first.trans (kept b k (apart.shrink (i := 20 - 4 * u.frame.length) (by bv_omega) (by omega) (by omega)))

theorem handler_enters
    (code : I.At (I.sym name) (Listing.saveAll ++ Listing.eoi ++ .call routine :: (Listing.restoreAll ++ [.iret])))
    (gate : u.idt n = (0x10, I.sym name)) :
    ∃ m, I.Path (u.interrupt n) m ∧ Entered u m (I.sym routine) ∧ I.At m.top (Listing.restoreAll ++ [.iret]) := by
  have at_gate : (u.interrupt n).eip = I.sym name := congrArg Prod.snd gate
  have short := u.frame_length_le
  have saved := Listing.saveAll_saved I (Machine.interrupt_holds n u) short
  rw [← at_gate] at code
  obtain ⟨a, path, back⟩ := code.leap (by decide)
  rw [Image.execs_append] at path
  generalize I.execs Listing.saveAll (u.interrupt n) = s at path saved
  have later : Saved (u.interrupt n) { I.execs Listing.eoi s with eip := a } u.frame := saved.congr rfl rfl rfl rfl rfl
  generalize here : ({ I.execs Listing.eoi s with eip := a } : Machine) = x at path later
  have eip : x.eip = a := here ▸ rfl
  obtain ⟨called, top⟩ := later.call short x.eip (I.sym routine)
  rw [← eip, ← top] at back
  exact ⟨_, path, called.entered (congrArg Prod.fst gate), back⟩

theorem handler_leaves {m m' : Machine} (entered : Entered u m (I.sym routine))
    (code : I.At m.top (Listing.restoreAll ++ [.iret])) (back : Returned m m' 0 (4 * (11 + u.frame.length))) :
    ∃ m'', I.Path m' m'' ∧ m''.reg = u.reg ∧ m''.seg = u.seg ∧ m''.eip = u.eip ∧ m''.eflags = u.eflags ∧ m''.mem = m'.mem := by
  have words : ((Registers.of u).words ++ u.frame).length = 11 + u.frame.length := by
    simp [Registers.words]
    omega
  have kept := back.kept
  rw [Nat.mul_zero, BitVec.add_zero] at kept
  have holds := entered.saved.same (words.symm ▸ kept)
  rw [← back.esp] at holds
  rw [← back.eip] at code
  obtain ⟨next, path, -⟩ := code.leap (by decide)
  rw [Listing.restoreAll_exec holds, Registers.of_into] at path
  have frame : Stored (m'.drop 11).mem (m'.drop 11).esp u.frame := by
    have := (Stored.append.mp holds).2
    simpa [Machine.drop, Registers.words] using this
  have stack : (m'.drop 11).esp = u.enter.esp - BitVec.ofNat 32 (4 * u.frame.length) := by
    have : (m'.drop 11).esp = m'.esp + 44 := Machine.setReg_reg ..
    rw [this, back.esp, entered.esp]
    bv_omega
  generalize restored : ({ m'.drop 11 with
    reg := Function.update u.reg .esp (m'.drop 11).esp
    seg := fun s => if s = .cs ∨ s = .ss then (m'.drop 11).seg s else u.seg s
    eip := next } : Machine) = r at path
  have mem : r.mem = (m'.drop 11).mem := restored ▸ rfl
  have top : r.esp = (m'.drop 11).esp := by
    rw [← restored]
    exact Function.update_self Reg.esp _ u.reg
  have cs : r.seg .cs = 0x10 := by
    rw [← restored]
    exact back.cs.trans entered.cs
  have kernel : r.inKernel := by
    rw [Machine.inKernel, cs]
    rfl
  have left := Machine.leave_frame (show Stored r.mem r.esp u.frame by rw [mem, top]; exact frame) kernel (top.trans stack)
  refine ⟨r.leave, path, ?_⟩
  rw [left]
  refine ⟨?_, ?_, rfl, rfl, mem⟩
  · rw [← restored]
    simp
  · funext s
    rw [← restored]
    by_cases pushed : s = .cs ∨ s = .ss ∧ ¬ u.inKernel
    · exact if_pos pushed
    · refine (if_neg pushed).trans ?_
      simp only [not_or, not_and, not_not] at pushed
      obtain ⟨cs, stay⟩ := pushed
      by_cases stacked : s = .ss
      · subst stacked
        have inside : u.enter = u := if_pos (stay rfl)
        have kept : m'.seg .ss = u.seg .ss := by rw [back.ss, entered.ss, inside]
        exact kept
      · exact if_neg fun one => one.elim cs stacked

/-- The interrupts of the keyboard and of the clock are not noticed by what they interrupt. -/
theorem interrupt_transparent (assembled : Line.Assembled Listing.all I)
    (vector : (n, name, routine) = (33, .keyboardHandler, .keyboardRoutine) ∨
      (n, name, routine) = (32, .clockHandler, .clockRoutine))
    {before : Idt} (idt : ∀ n, u.idt n = (setIdt I.sym before n).target) :
    ∃ m, I.Path (u.interrupt n) m ∧ Entered u m (I.sym routine) ∧
      ∀ m', Returned m m' 0 (4 * (11 + u.frame.length)) →
        ∃ m'', I.Path m' m'' ∧ m''.reg = u.reg ∧ m''.seg = u.seg ∧ m''.eip = u.eip ∧ m''.eflags = u.eflags ∧
          m''.mem = m'.mem := by
  have handler : (name, routine) = (.keyboardHandler, .keyboardRoutine) ∨ (name, routine) = (.clockHandler, .clockRoutine) :=
    vector.imp (congrArg Prod.snd) (congrArg Prod.snd)
  have gate : u.idt n = (0x10, I.sym name) := by
    rw [idt]
    obtain same | same := vector <;> cases same <;> exact (setIdt_gates I.sym before (p := 0) (by decide)).1
  have code := assembled.code (Listing.handler_behind handler)
  obtain ⟨m, path, entered, behind⟩ := handler_enters code gate
  exact ⟨m, path, entered, fun m' back => handler_leaves entered behind back⟩

/-- A key is pressed while the program runs. -/
theorem program_transparent : ∃ m m'', Listing.image.Path (Listing.program.interrupt 33) m ∧
    m.eip = Listing.image.sym .keyboardRoutine ∧
    Listing.image.Path { m with eip := m.top, reg := Function.update m.reg .esp (m.esp + 4) } m'' ∧
    m''.reg = Listing.program.reg ∧ m''.eip = 0x150000 := by
  obtain ⟨m, path, entered, back⟩ := interrupt_transparent Listing.image_assembled (u := Listing.program) (.inl rfl)
    (fun n => rfl)
  obtain ⟨m'', leaving, reg, -, eip, -⟩ := back { m with eip := m.top, reg := Function.update m.reg .esp (m.esp + 4) }
    ⟨rfl, rfl, rfl, rfl, fun _ _ => rfl⟩
  exact ⟨m, m'', path, entered.eip, leaving, reg, eip⟩

end Interrupts

section Dispatch

variable {I : Image Symbol} {refused done : Symbol} {m : Machine} {rest : List (Instr Symbol)}

/-- Up to the choice that the two comparisons make. -/
theorem dispatch_path (code : I.At m.eip (Listing.dispatch refused done ++ rest)) :
    ∃ f a, f.getLsbD 9 = m.enabled ∧
      (tableIndex (m.reg .eax) = none → I.Path m { m with eip := I.sym refused, eflags := f }) ∧
      (∀ i, tableIndex (m.reg .eax) = some i → I.At a (.jmp done :: rest) ∧
        I.Path m { { m with eip := a, eflags := f }.push a with
          eip := load m.mem (I.sym .sysCallTable + i * 4) }) := by
  obtain ⟨f, a, kept, path, code⟩ := Image.At.less code
  by_cases low : (m.reg .eax).slt 0
  · rw [if_pos low] at path
    have out : tableIndex (m.reg .eax) = none := if_pos low
    exact ⟨f, a, kept, fun _ => path, fun i found => by rw [out] at found; contradiction⟩
  · rw [if_neg low] at path
    obtain ⟨f', a', kept', path', code⟩ := Image.At.more (m := { m with eip := a, eflags := f }) code
    by_cases high : maxSyscall.slt (m.reg .eax)
    · have out : tableIndex (m.reg .eax) = none := (if_neg low).trans (if_pos high)
      rw [if_pos high] at path'
      exact ⟨f', a, kept'.trans kept, fun _ => path.trans path', fun i found => by rw [out] at found; contradiction⟩
    · have within : tableIndex (m.reg .eax) = some (m.reg .eax) := (if_neg low).trans (if_neg high)
      rw [if_neg high] at path'
      obtain ⟨a'', calling, code⟩ := Image.At.next (m := { m with eip := a', eflags := f' }) code
      refine ⟨f', a'', kept'.trans kept, fun out => ?_, fun i found => ⟨code, ?_⟩⟩
      · rw [within] at out
        contradiction
      · rw [within] at found
        cases found
        exact (path.trans path').trans calling

/-- The end of both entry points for system calls, behind the label that the routines come
back to. -/
def Listing.fin (last : List (Instr Symbol)) : List (Instr Symbol) :=
  .movStore .eax 0x18 .esp :: Listing.restoreAll ++ last

variable {s : Machine} {ws : List Word32} {last : List (Instr Symbol)}

/-- A routine of the table is called and comes back to the end of the entry point. -/
theorem service_called (code : I.At m.eip (Listing.saveAll ++ (Listing.dispatch refused done ++ rest)))
    (holds : Stored m.mem m.esp ws) (short : ws.length ≤ 5) {i : Word32}
    (index : tableIndex (m.reg .eax) = some i) (table : Apart (I.sym .sysCallTable + i * 4) 4 (m.esp - 44) 44) :
    ∃ s, I.Path m s ∧ Called m s ws (load m.mem (I.sym .sysCallTable + i * 4)) ∧
      ∀ s', s'.eip = s.top → I.Path s' { s' with eip := I.sym done } := by
  have saved := Listing.saveAll_saved I holds short
  have reg := Listing.saveAll_reg I m (r := .eax) (by decide) (by decide)
  obtain ⟨a, path, code⟩ := code.straight (by decide)
  generalize I.execs Listing.saveAll m = s at saved reg path
  obtain ⟨f, b, enabled, -, called⟩ := dispatch_path (m := { s with eip := a }) code
  obtain ⟨code, calling⟩ := called i (by rw [← index, ← reg])
  have later : Saved m { s with eip := b, eflags := f } ws := saved.congr rfl enabled rfl rfl rfl
  obtain ⟨called, top⟩ := later.call short b (load s.mem (I.sym .sysCallTable + i * 4))
  have target := (saved.kept _ _ table).load (by decide)
  refine ⟨_, path.trans calling, target ▸ called, fun s' back => ?_⟩
  have back : s'.eip = b := back.trans top
  obtain ⟨_, jumping, -⟩ := Image.At.next (m := s') (back ▸ code)
  exact jumping

/-- What a routine leaves in the frame that `SAVE_ALL` built. It may use the places of its
arguments. -/
theorem registers_found {a : Word32} {mem mem' : Memory} {args : Nat} (holds : Stored mem a ((Registers.of m).words ++ ws))
    (few : args ≤ 3) (kept : Same (a + BitVec.ofNat 32 (4 * args)) (4 * (11 - args + ws.length)) mem mem') :
    Stored mem' a ((Registers.found mem' a).words ++ ws) ∧
      (Registers.found mem' a).words.drop args = (Registers.of m).words.drop args := by
  have length (regs : Registers) : regs.words.length = 11 := rfl
  have rest : ((Registers.of m).words ++ ws).drop args = (Registers.of m).words.drop args ++ ws :=
    List.drop_append_of_le_length (by rw [length]; omega)
  have old := holds.drop (i := args) (by rw [List.length_append, length]; omega)
  rw [rest] at old
  have all : ((Registers.of m).words.drop args ++ ws).length = 11 - args + ws.length := by
    rw [List.length_append, List.length_drop, length]
  rw [← all] at kept
  obtain ⟨registers, behind⟩ := Stored.append.mp (old.same kept)
  have found := Registers.holds_found mem' a
  constructor
  · refine Stored.append.mpr ⟨found, ?_⟩
    have place : a + BitVec.ofNat 32 (4 * args) + BitVec.ofNat 32 (4 * ((Registers.of m).words.drop args).length) =
        a + BitVec.ofNat 32 (4 * (Registers.found mem' a).words.length) := by
      rw [List.length_drop, length, length]
      bv_omega
    rwa [place] at behind
  · exact (found.drop (by rw [length]; omega)).unique registers (by rw [List.length_drop, List.length_drop, length, length])

theorem registers_returned {s s' : Machine} {args : Nat} (holds : Stored s.mem (s.esp + 4) ((Registers.of m).words ++ ws))
    (few : args ≤ 3) (back : Returned s s' args (4 * (11 - args + ws.length))) :
    Stored s'.mem s'.esp ((Registers.found s'.mem s'.esp).words ++ ws) ∧
      (Registers.found s'.mem s'.esp).words.drop args = (Registers.of m).words.drop args := by
  rw [back.esp]
  exact registers_found holds few back.kept

/-- A number without a routine. -/
theorem service_refused (code : I.At m.eip (Listing.saveAll ++ (Listing.dispatch refused done ++ rest)))
    (error : I.At (I.sym refused) (.movImm (-eNOSYS) .eax :: Listing.fin last)) (holds : Stored m.mem m.esp ws)
    (short : ws.length ≤ 5) (out : tableIndex (m.reg .eax) = none) :
    ∃ s, I.Path m s ∧ Saved m s ws ∧ s.reg .eax = -eNOSYS ∧ I.At s.eip (Listing.fin last) := by
  have saved := Listing.saveAll_saved I holds short
  have reg := Listing.saveAll_reg I m (r := .eax) (by decide) (by decide)
  obtain ⟨a, path, code⟩ := code.straight (by decide)
  generalize I.execs Listing.saveAll m = s at saved reg path
  obtain ⟨f, b, enabled, refused, -⟩ := dispatch_path (m := { s with eip := a }) code
  have jump := refused (by rw [← out, ← reg])
  obtain ⟨c, moving, code⟩ := Image.At.next (m := { s with eip := I.sym _, eflags := f }) error
  refine ⟨_, (path.trans jump).trans moving, saved.congr rfl enabled rfl rfl rfl, ?_, code⟩
  exact Function.update_self Reg.eax (-eNOSYS) s.reg

/-- Behind `RESTORE_ALL`, with what the processor pushed on top of the stack. -/
structure Restored (m s : Machine) (regs : Registers) (ws : List Word32) : Prop where
  regs : regs.into s = s
  esp : s.esp = m.esp + 44
  cs : s.seg .cs = m.seg .cs
  ss : s.seg .ss = m.seg .ss
  msr : s.msr = m.msr
  mem : s.mem = store m.mem (m.esp + 0x18) (m.reg .eax)
  holds : Stored s.mem s.esp ws

theorem fin_restored {regs : Registers} (holds : Stored m.mem m.esp (regs.words ++ ws)) (short : ws.length ≤ 5) :
    Restored m (I.execs (.movStore .eax 0x18 .esp :: Listing.restoreAll) m) { regs with eax := m.reg .eax } ws := by
  have length : (regs.words ++ ws).length ≤ 16 := by
    simp [Registers.words]
    omega
  have stored := holds.set (i := 6) (by simp [Registers.words]) (by omega) (m.reg .eax)
  have words : (regs.words ++ ws).set 6 (m.reg .eax) = { regs with eax := m.reg .eax }.words ++ ws := rfl
  rw [words] at stored
  have behind := (Stored.append.mp stored).2
  have exec := Listing.restoreAll_exec (I := I) (m := { m with mem := store m.mem (m.esp + 0x18) (m.reg .eax) }) stored
  rw [Image.execs_cons]
  have step : m.exec I.sym (.movStore .eax 0x18 .esp) = { m with mem := store m.mem (m.esp + 0x18) (m.reg .eax) } := rfl
  rw [step, exec]
  exact ⟨rfl, rfl, rfl, rfl, rfl, rfl, behind⟩

/-- Back in user mode with these registers. -/
structure Back (regs : Registers) (address stack : Word32) (m : Machine) : Prop where
  eip : m.eip = address
  esp : m.esp = stack
  cs : m.seg .cs = 0x23
  ss : m.seg .ss = 0x2B
  regs : regs.into m = m
  enabled : m.enabled = true

def Listing.sysexit : List (Instr Symbol) := [.movLoad 0 .esp .edx, .movLoad 12 .esp .ecx, .sti, .sysexit]

theorem sysenter_leaves {regs : Registers} {address flags stack : Word32}
    (code : I.At m.eip (Listing.fin Listing.sysexit))
    (holds : Stored m.mem m.esp (regs.words ++ [address, userCs, flags, stack, userDs])) (msr : m.msr 0x174 = kernelCs) :
    ∃ m', I.Path m m' ∧ Back { regs with eax := m.reg .eax, edx := address, ecx := stack } address stack m' ∧
      m'.mem = store m.mem (m.esp + 0x18) (m.reg .eax) := by
  have restored := fin_restored (I := I) holds (by simp)
  have split : Listing.fin Listing.sysexit = (.movStore .eax 0x18 .esp :: Listing.restoreAll) ++
      [.movLoad 0 .esp .edx, .movLoad 12 .esp .ecx, .sti] ++ [.sysexit] := rfl
  rw [split] at code
  obtain ⟨a, path, -⟩ := code.leap (by decide)
  rw [Image.execs_append] at path
  generalize I.execs (.movStore .eax 0x18 .esp :: Listing.restoreAll) m = s at path restored
  have first : load s.mem (s.esp + 0) = address := restored.holds.word (i := 0) (by simp)
  have fourth : load s.mem (s.esp + 12) = stack := restored.holds.word (i := 3) (by simp)
  have tail : I.execs [.movLoad 0 .esp .edx, .movLoad 12 .esp .ecx, .sti] s = { s with
      reg := Function.update (Function.update s.reg .edx address) .ecx stack
      eflags := setBit 9 true s.eflags } := by
    have esp : Function.update s.reg .edx address .esp = s.esp := Function.update_of_ne (by decide) ..
    simp only [Image.execs, List.foldl_cons, List.foldl_nil, Machine.exec, Machine.setReg, first, esp, fourth]
  have msr : s.msr 0x174 = 0x10 := by rw [restored.msr, msr]
  have reg (r : Reg) : ({ regs with eax := m.reg .eax }.into s).reg r = s.reg r := by rw [restored.regs]
  have seg (x : Seg) : ({ regs with eax := m.reg .eax }.into s).seg x = s.seg x := by rw [restored.regs]
  rw [tail] at path
  refine ⟨_, path, ⟨?_, ?_, ?_, ?_, ?_, ?_⟩, restored.mem⟩
  · rfl
  · rfl
  · have : ((s.msr 0x174 + 16 ||| 3).setWidth 16 : BitVec 16) = 0x23 := by rw [msr]; rfl
    exact this
  · have : ((s.msr 0x174 + 24 ||| 3).setWidth 16 : BitVec 16) = 0x2B := by rw [msr]; rfl
    exact this
  · apply Registers.into_self
    · intro r
      cases r with
      | edx | ecx | esp => rfl
      | eax => exact reg .eax
      | ebx => exact reg .ebx
      | esi => exact reg .esi
      | edi => exact reg .edi
      | ebp => exact reg .ebp
    · intro x
      cases x with
      | cs | ss => rfl
      | ds => exact seg .ds
      | es => exact seg .es
      | fs => exact seg .fs
      | gs => exact seg .gs
  · exact (setBit_get 9 9 true s.eflags (by decide)).trans (if_pos rfl)

end Dispatch

section Sysenter

variable {I : Image Symbol} {m : Machine}

/-- What the entry point pushes in place of the processor. -/
def Listing.pushes : List (Instr Symbol) := [.pushImm userDs, .push (.reg .ebp), .pushf, .pushImm userCs, .pushMem 4 .ebp]

theorem Listing.sysenter_behind :
    Listing.pushes ++ (Listing.saveAll ++ (Listing.dispatch .sysenterErr .sysenterFin ++ [])) <+:
        Line.behind .syscallHandlerSysenter Listing.all ∧
      .movImm (-eNOSYS) .eax :: Listing.fin Listing.sysexit <+: Line.behind .sysenterErr Listing.all ∧
      Listing.fin Listing.sysexit <+: Line.behind .sysenterFin Listing.all := by
  decide +kernel

/-- The address behind the call, the stack and the flags of the caller. -/
def context (m : Machine) : List Word32 := [load m.mem (m.reg .ebp + 4), userCs, m.eflags, m.reg .ebp, userDs]

theorem pushes_exec (user : Apart (m.reg .ebp + 4) 4 (m.esp - 16) 16) :
    I.execs Listing.pushes m = m.pushAll (context m).reverse := by
  have same := Machine.pushAll_same [userDs, m.reg .ebp, m.eflags, userCs] m user (by simp)
  have read := same.load (by decide)
  have shown : I.execs Listing.pushes m =
    (m.pushAll [userDs, m.reg .ebp, m.eflags, userCs]).push
      (load (m.pushAll [userDs, m.reg .ebp, m.eflags, userCs]).mem (m.reg .ebp + 4)) := rfl
  rw [shown, read]
  rfl

/-- The routine of a system call is entered. -/
structure Serving (m s : Machine) (routine : Word32) : Prop where
  eip : s.eip = routine
  cs : s.seg .cs = m.seg .cs
  ss : s.seg .ss = m.seg .ss
  ds : s.seg .ds = 0x18
  es : s.seg .es = 0x18
  enabled : s.enabled = m.enabled
  msr : s.msr = m.msr
  esp : s.esp = m.esp - 68
  holds : Stored s.mem (s.esp + 4) ((Registers.of m).words ++ context m)
  kept : ∀ a n, Apart a n (m.esp - 68) 68 → Same a n m.mem s.mem

/-- The state in front of `SAVE_ALL`. -/
structure Pushed (m p : Machine) : Prop where
  registers : Registers.of p = Registers.of m
  seg : p.seg = m.seg
  enabled : p.enabled = m.enabled
  msr : p.msr = m.msr
  esp : p.esp = m.esp - 20
  holds : Stored p.mem p.esp (context m)
  kept : ∀ a n, Apart a n (m.esp - 20) 20 → Same a n m.mem p.mem

theorem pushes_path {rest : List (Instr Symbol)} (code : I.At m.eip (Listing.pushes ++ rest))
    (user : Apart (m.reg .ebp + 4) 4 (m.esp - 16) 16) : ∃ p, I.Path m p ∧ Pushed m p ∧ I.At p.eip rest := by
  obtain ⟨a, path, code⟩ := code.straight (by decide)
  rw [pushes_exec user] at path
  have esp : (m.pushAll (context m).reverse).esp = m.esp - 20 := Machine.pushAll_reg ..
  have reg (r : Reg) (other : r ≠ .esp) : (m.pushAll (context m).reverse).reg r = m.reg r :=
    (Machine.pushAll_reg ..).trans (if_neg other)
  have seg : (m.pushAll (context m).reverse).seg = m.seg := Machine.pushAll_seg ..
  have holds := Machine.pushAll_holds (context m).reverse (show Stored m.mem m.esp [] from trivial) (by simp [context])
  rw [List.reverse_reverse, List.append_nil] at holds
  refine ⟨_, path, ⟨?_, seg, ?_, ?_, esp, holds, fun b n apart => ?_⟩, code⟩
  · exact Registers.of_congr reg fun s _ _ => congrFun seg s
  · rw [Machine.pushAll_rest]
    rfl
  · rw [Machine.pushAll_rest]
  · exact Machine.pushAll_same (context m).reverse m apart (by simp [context])

theorem sysenter_serves (assembled : Line.Assembled Listing.all I) (eip : m.eip = I.sym .syscallHandlerSysenter)
    (user : Apart (m.reg .ebp + 4) 4 (m.esp - 16) 16) {i : Word32} (index : tableIndex (m.reg .eax) = some i)
    (table : Apart (I.sym .sysCallTable + i * 4) 4 (m.esp - 68) 68) :
    ∃ s, I.Path m s ∧ Serving m s (load m.mem (I.sym .sysCallTable + i * 4)) ∧
      ∀ s', s'.eip = s.top → I.Path s' { s' with eip := I.sym .sysenterFin } := by
  have code := assembled.code Listing.sysenter_behind.1
  rw [← eip] at code
  obtain ⟨p, path, pushed, code⟩ := pushes_path code user
  have eax : p.reg .eax = m.reg .eax := congrArg Registers.eax pushed.registers
  have beyond : p.esp - 44 = m.esp - 68 + BitVec.ofNat 32 4 := by
    rw [pushed.esp]
    bv_omega
  obtain ⟨s, calling, called, back⟩ := service_called code pushed.holds (by simp [context]) (eax ▸ index)
    (table.shrink beyond (by omega) (by omega))
  have read := (pushed.kept _ _ (table.shrink (i := 48) (by bv_omega) (by omega) (by omega))).load (by decide)
  have esp : s.esp = m.esp - 68 := by
    rw [called.esp, pushed.esp]
    bv_omega
  refine ⟨s, path.trans calling, ⟨?_, ?_, ?_, ?_, ?_, ?_, ?_, esp, ?_, fun a n apart => ?_⟩, back⟩
  · exact called.eip.trans read
  · rw [called.seg, ← pushed.seg]
    rfl
  · rw [called.seg, ← pushed.seg]
    rfl
  · rw [called.seg]
    rfl
  · rw [called.seg]
    rfl
  · exact called.enabled.trans pushed.enabled
  · exact called.msr.trans pushed.msr
  · have holds := called.holds
    rw [pushed.registers] at holds
    exact holds
  · have first := pushed.kept a n (apart.shrink (i := 48) (by bv_omega) (by omega) (by omega))
    refine first.trans (called.kept a n (apart.shrink (i := 0) ?_ (by omega) (by omega)))
    rw [pushed.esp]
    bv_omega

/-- The registers of the frame that `RESTORE_ALL` needs, whatever the arguments became. -/
theorem frame_kept {regs : Registers} {args : Nat} (few : args ≤ 3)
    (kept : regs.words.drop args = (Registers.of m).words.drop args) : regs.eax = m.reg .eax ∧ regs.ebp = m.reg .ebp := by
  have word (i : Nat) : regs.words[args + i]? = (Registers.of m).words[args + i]? := by
    rw [← List.getElem?_drop, ← List.getElem?_drop, kept]
  have eax := word (6 - args)
  have ebp := word (5 - args)
  rw [Nat.add_sub_cancel' (by omega)] at eax ebp
  exact ⟨Option.some.inj eax, Option.some.inj ebp⟩

/-- A routine that comes back is answered as `syscallHandlerSysenter` says. -/
theorem sysenter_returns (assembled : Line.Assembled Listing.all I) {s s' : Machine} {routine i : Word32} {args : Nat}
    (serving : Serving m s routine) (index : tableIndex (m.reg .eax) = some i) (few : args ≤ 3)
    (back : Returned s s' args (4 * (16 - args))) (msr : s'.msr 0x174 = kernelCs) :
    (Registers.found s'.mem s'.esp).words.drop args = (Registers.of m).words.drop args ∧
      ∃ m', I.Path { s' with eip := I.sym .sysenterFin } m' ∧
        Back (syscallHandlerSysenter (fun _ => s'.reg .eax) (load m.mem (m.reg .ebp + 4)) (Registers.found s'.mem s'.esp))
          (load m.mem (m.reg .ebp + 4)) (m.reg .ebp) m' ∧
        m'.mem = store s'.mem (s'.esp + 0x18) (s'.reg .eax) := by
  have length : 11 - args + (context m).length = 16 - args := by
    simp [context]
    omega
  obtain ⟨holds, kept⟩ := registers_returned serving.holds few (length.symm ▸ back)
  obtain ⟨eax, ebp⟩ := frame_kept few kept
  obtain ⟨m', path, left, mem⟩ := sysenter_leaves (m := { s' with eip := I.sym .sysenterFin })
    (assembled.code Listing.sysenter_behind.2.2) holds msr
  have answer : syscallHandlerSysenter (fun _ => s'.reg .eax) (load m.mem (m.reg .ebp + 4)) (Registers.found s'.mem s'.esp) =
      { Registers.found s'.mem s'.esp with
        eax := s'.reg .eax, edx := load m.mem (m.reg .ebp + 4), ecx := m.reg .ebp } := by
    simp only [syscallHandlerSysenter, result, eax, ebp, index]
  exact ⟨kept, m', path, answer ▸ left, mem⟩

/-- A number without a routine is answered with `-ENOSYS`. -/
theorem sysenter_refuses (assembled : Line.Assembled Listing.all I) (eip : m.eip = I.sym .syscallHandlerSysenter)
    (user : Apart (m.reg .ebp + 4) 4 (m.esp - 16) 16) (msr : m.msr 0x174 = kernelCs) (out : tableIndex (m.reg .eax) = none)
    (routine : DWord → DWord) :
    ∃ m', I.Path m m' ∧
      Back (syscallHandlerSysenter routine (load m.mem (m.reg .ebp + 4)) (Registers.of m)) (load m.mem (m.reg .ebp + 4))
        (m.reg .ebp) m' ∧
      ∀ a n, Apart a n (m.esp - 64) 64 → Same a n m.mem m'.mem := by
  have code := assembled.code Listing.sysenter_behind.1
  rw [← eip] at code
  obtain ⟨p, path, pushed, code⟩ := pushes_path code user
  have eax : p.reg .eax = m.reg .eax := congrArg Registers.eax pushed.registers
  obtain ⟨s, refusing, saved, error, code⟩ := service_refused code
    (assembled.code Listing.sysenter_behind.2.1) pushed.holds (by simp [context]) (eax ▸ out)
  have holds := saved.holds
  rw [pushed.registers] at holds
  obtain ⟨m', leaving, left, mem⟩ := sysenter_leaves code holds (by rw [saved.msr, pushed.msr, msr])
  have answer : syscallHandlerSysenter routine (load m.mem (m.reg .ebp + 4)) (Registers.of m) =
      { Registers.of m with eax := s.reg .eax, edx := load m.mem (m.reg .ebp + 4), ecx := m.reg .ebp } := by
    have eax : (Registers.of m).eax = m.reg .eax := rfl
    have ebp : (Registers.of m).ebp = m.reg .ebp := rfl
    simp only [syscallHandlerSysenter, result, eax, ebp, out, error]
  refine ⟨m', (path.trans refusing).trans leaving, answer ▸ left, fun a n apart => ?_⟩
  have esp := pushed.esp
  have top := saved.esp
  have first := pushed.kept a n (apart.shrink (i := 44) (by bv_omega) (by omega) (by omega))
  have second := saved.kept a n (apart.shrink (i := 0) (by rw [esp]; bv_omega) (by omega) (by omega))
  rw [mem]
  exact (first.trans second).trans
    (store_same s.mem _ (apart.shrink (i := 24) (by rw [top, esp]; bv_omega) (by omega) (by omega)))

/-- `syscall_handler_sysenter` does what `syscallHandlerSysenter` says, for every number. -/
theorem sysenter_refines (assembled : Line.Assembled Listing.all I) (eip : m.eip = I.sym .syscallHandlerSysenter)
    (user : Apart (m.reg .ebp + 4) 4 (m.esp - 16) 16) (msr : m.msr 0x174 = kernelCs) :
    (tableIndex (m.reg .eax) = none → ∀ routine, ∃ m', I.Path m m' ∧
      Back (syscallHandlerSysenter routine (load m.mem (m.reg .ebp + 4)) (Registers.of m)) (load m.mem (m.reg .ebp + 4))
        (m.reg .ebp) m' ∧
      ∀ a n, Apart a n (m.esp - 64) 64 → Same a n m.mem m'.mem) ∧
    ∀ i, tableIndex (m.reg .eax) = some i → Apart (I.sym .sysCallTable + i * 4) 4 (m.esp - 68) 68 →
      ∃ s, I.Path m s ∧ Serving m s (load m.mem (I.sym .sysCallTable + i * 4)) ∧
        ∀ s' args, args ≤ 3 → Returned s s' args (4 * (16 - args)) → s'.msr 0x174 = kernelCs →
          (Registers.found s'.mem s'.esp).words.drop args = (Registers.of m).words.drop args ∧
            ∃ m', I.Path s' m' ∧
              Back (syscallHandlerSysenter (fun _ => s'.reg .eax) (load m.mem (m.reg .ebp + 4))
                (Registers.found s'.mem s'.esp)) (load m.mem (m.reg .ebp + 4)) (m.reg .ebp) m' := by
  refine ⟨fun out routine => sysenter_refuses assembled eip user msr out routine, fun i index table => ?_⟩
  obtain ⟨s, path, serving, resumes⟩ := sysenter_serves assembled eip user index table
  refine ⟨s, path, serving, fun s' args few back kernel => ?_⟩
  obtain ⟨kept, m', leaving, left, -⟩ := sysenter_returns assembled serving index few back kernel
  exact ⟨kept, m', (resumes s' back.eip).trans leaving, left⟩

/-- The program has asked for a number that the table does not have. -/
def Listing.stranger : Machine :=
  { Listing.program with
    reg
      | .eax => 99
      | .ebp => 0x300000
      | .esp => 0x400000
      | _ => 7
    seg
      | .cs => 0x10
      | .ss => 0x18
      | _ => 0x2B
    eip := Listing.image.sym .syscallHandlerSysenter
    mem := stores Listing.program.mem 0x300000 [0x2FFFF0, 0x150000] }

theorem stranger_refines : ∃ m, Listing.image.Path Listing.stranger m ∧ m.eip = 0x150000 ∧ m.esp = 0x300000 ∧ m.seg .cs = 0x23 ∧
    m.reg .eax = -38 := by
  have refines := sysenter_refines Listing.image_assembled (m := Listing.stranger) rfl (by decide +kernel) rfl
  obtain ⟨m, path, back, -⟩ := refines.1 (by decide) fun _ => 0
  have address : load Listing.stranger.mem (Listing.stranger.reg .ebp + 4) = 0x150000 := by decide +kernel
  have refused : (syscallHandlerSysenter (fun _ => 0) (load Listing.stranger.mem (Listing.stranger.reg .ebp + 4))
      (Registers.of Listing.stranger)).eax = -38 := by decide
  exact ⟨m, path, back.eip.trans address, back.esp, back.cs, (congrFun (congrArg Machine.reg back.regs) .eax).symm.trans refused⟩

end Sysenter

section Trap

variable {I : Image Symbol} {u : Machine} {n : BitVec 8}

theorem Listing.trap_behind :
    Listing.saveAll ++ (Listing.dispatch .err .fin ++ []) <+: Line.behind .systemCallHandler Listing.all ∧
      .movImm (-eNOSYS) .eax :: Listing.fin [.iret] <+: Line.behind .err Listing.all ∧
      Listing.fin [.iret] <+: Line.behind .fin Listing.all := by
  decide +kernel

/-- What was interrupted goes on with other registers. -/
structure Resumed (u : Machine) (regs : Registers) (m : Machine) : Prop where
  eip : m.eip = u.eip
  eflags : m.eflags = u.eflags
  esp : m.esp = u.esp
  cs : m.seg .cs = u.seg .cs
  ss : m.seg .ss = u.seg .ss
  regs : regs.into m = m

theorem trap_leaves {m : Machine} {regs : Registers} (code : I.At m.eip (Listing.fin [.iret]))
    (holds : Stored m.mem m.esp (regs.words ++ u.frame)) (cs : m.inKernel) (ss : m.seg .ss = u.enter.seg .ss)
    (esp : m.esp = u.enter.esp - BitVec.ofNat 32 (4 * u.frame.length) - 44) :
    ∃ m', I.Path m m' ∧ Resumed u { regs with eax := m.reg .eax } m' ∧ m'.mem = store m.mem (m.esp + 0x18) (m.reg .eax) := by
  have restored := fin_restored (I := I) holds u.frame_length_le
  obtain ⟨a, path, -⟩ := Image.At.leap
    (show I.At m.eip ((.movStore .eax 0x18 .esp :: Listing.restoreAll) ++ .iret :: []) from code) (by decide)
  generalize I.execs (.movStore .eax 0x18 .esp :: Listing.restoreAll) m = s at path restored
  have kernel : ({ s with eip := a } : Machine).inKernel := by
    have : s.seg .cs &&& 3 = 0 := by
      rw [restored.cs]
      exact cs
    exact this
  have top : s.esp = u.enter.esp - BitVec.ofNat 32 (4 * u.frame.length) := by
    rw [restored.esp, esp]
    bv_omega
  have left := Machine.leave_frame (show Stored ({ s with eip := a } : Machine).mem _ u.frame from restored.holds) kernel top
  refine ⟨_, path, ?_⟩
  have shown : ({ s with eip := a } : Machine).exec I.sym .iret = ({ s with eip := a } : Machine).leave := rfl
  rw [shown, left]
  refine ⟨⟨rfl, rfl, Function.update_self Reg.esp _ s.reg, rfl, ?_, ?_⟩, restored.mem⟩
  · by_cases stay : u.inKernel
    · have inside : u.enter = u := if_pos stay
      have kept : s.seg .ss = u.seg .ss := by rw [restored.ss, ss, inside]
      have same (other : .ss = Seg.cs ∨ .ss = Seg.ss ∧ ¬ u.inKernel) : False := by simp [stay] at other
      exact (if_neg same).trans kept
    · exact if_pos (Or.inr ⟨rfl, stay⟩)
  · apply Registers.into_other restored.regs
    · intro r other
      exact Function.update_of_ne other ..
    · intro x cs ss
      exact if_neg fun pushed => pushed.elim cs fun here => ss here.1

theorem trap_serves (assembled : Line.Assembled Listing.all I) (gate : u.idt n = (0x10, I.sym .systemCallHandler)) {i : Word32}
    (index : tableIndex (u.reg .eax) = some i) (table : Apart (I.sym .sysCallTable + i * 4) 4 (u.enter.esp - 68) 68) :
    ∃ s, I.Path (u.interrupt n) s ∧ Entered u s (load u.mem (I.sym .sysCallTable + i * 4)) ∧
      ∀ s', s'.eip = s.top → I.Path s' { s' with eip := I.sym .fin } := by
  have code := assembled.code Listing.trap_behind.1
  have at_gate : (u.interrupt n).eip = I.sym .systemCallHandler := congrArg Prod.snd gate
  have eax : (u.interrupt n).reg .eax = u.reg .eax := Machine.interrupt_reg n u (by decide)
  have short := u.frame_length_le
  have some : 0 < u.frame.length := by simp [Machine.frame]
  have esp := Machine.interrupt_esp n u
  rw [← at_gate] at code
  obtain ⟨s, path, called, back⟩ := service_called code (Machine.interrupt_holds n u) short (eax ▸ index)
    (table.shrink (i := 24 - 4 * u.frame.length) (by rw [esp]; bv_omega) (by omega) (by omega))
  have read := (Machine.interrupt_same n u (table.shrink (i := 48) (by bv_omega) (by omega) (by omega))).load (by decide)
  rw [read] at called
  exact ⟨s, path, called.entered (congrArg Prod.fst gate), back⟩

theorem trap_returns (assembled : Line.Assembled Listing.all I) {s s' : Machine} {routine i : Word32} {args : Nat}
    (entered : Entered u s routine) (index : tableIndex (u.reg .eax) = some i) (few : args ≤ 3)
    (back : Returned s s' args (4 * (11 - args + u.frame.length))) :
    (Registers.found s'.mem s'.esp).words.drop args = (Registers.of u).words.drop args ∧
      ∃ m', I.Path { s' with eip := I.sym .fin } m' ∧
        Resumed u (systemCallHandler (fun _ => s'.reg .eax) (Registers.found s'.mem s'.esp)) m' ∧
        m'.mem = store s'.mem (s'.esp + 0x18) (s'.reg .eax) := by
  obtain ⟨holds, kept⟩ := registers_returned entered.saved few back
  obtain ⟨eax, -⟩ := frame_kept few kept
  have kernel : s'.inKernel := by
    rw [Machine.inKernel, back.cs, entered.cs]
    rfl
  obtain ⟨m', path, resumed, mem⟩ := trap_leaves (m := { s' with eip := I.sym .fin }) (assembled.code Listing.trap_behind.2.2)
    holds kernel (back.ss.trans entered.ss) (by
      have esp : s'.esp = u.enter.esp - BitVec.ofNat 32 (4 * u.frame.length) - 44 := by
        rw [back.esp, entered.esp]
        bv_omega
      exact esp)
  have answer : systemCallHandler (fun _ => s'.reg .eax) (Registers.found s'.mem s'.esp) =
      { Registers.found s'.mem s'.esp with eax := s'.reg .eax } := by
    simp only [systemCallHandler, result, eax, index]
  exact ⟨kept, m', path, answer ▸ resumed, mem⟩

theorem trap_refuses (assembled : Line.Assembled Listing.all I) (gate : u.idt n = (0x10, I.sym .systemCallHandler))
    (out : tableIndex (u.reg .eax) = none) (routine : DWord → DWord) :
    ∃ m', I.Path (u.interrupt n) m' ∧ Resumed u (systemCallHandler routine (Registers.of u)) m' ∧
      ∀ a k, Apart a k (u.enter.esp - 64) 64 → Same a k u.mem m'.mem := by
  have code := assembled.code Listing.trap_behind.1
  have at_gate : (u.interrupt n).eip = I.sym .systemCallHandler := congrArg Prod.snd gate
  have eax : (u.interrupt n).reg .eax = u.reg .eax := Machine.interrupt_reg n u (by decide)
  have words : Registers.of (u.interrupt n) = Registers.of u :=
    Registers.of_congr (fun r => Machine.interrupt_reg n u) fun s cs ss =>
      (Machine.interrupt_seg n u cs).trans (u.enter_seg ss)
  have short := u.frame_length_le
  have some : 0 < u.frame.length := by simp [Machine.frame]
  have esp := Machine.interrupt_esp n u
  rw [← at_gate] at code
  obtain ⟨s, path, saved, error, code⟩ := service_refused code (assembled.code Listing.trap_behind.2.1)
    (Machine.interrupt_holds n u) short (eax ▸ out)
  have holds := saved.holds
  rw [words] at holds
  have kernel : s.inKernel := by
    have cs : s.seg .cs = (u.interrupt n).seg .cs := by rw [saved.seg]; rfl
    have zero : (0x10 : BitVec 16) &&& 3 = 0 := by decide
    rw [Machine.inKernel, cs, Machine.interrupt_cs, gate]
    exact zero
  have ss : s.seg .ss = u.enter.seg .ss := by
    have same : s.seg .ss = (u.interrupt n).seg .ss := by rw [saved.seg]; rfl
    exact same.trans (Machine.interrupt_seg n u (by decide))
  have top : s.esp = u.enter.esp - BitVec.ofNat 32 (4 * u.frame.length) - 44 := by rw [saved.esp, esp]
  obtain ⟨m', leaving, resumed, mem⟩ := trap_leaves code holds kernel ss top
  have answer : systemCallHandler routine (Registers.of u) = { Registers.of u with eax := s.reg .eax } := by
    have saved : (Registers.of u).eax = u.reg .eax := rfl
    simp only [systemCallHandler, result, saved, out, error]
  refine ⟨m', path.trans leaving, answer ▸ resumed, fun a k apart => ?_⟩
  have first := Machine.interrupt_same n u (apart.shrink (i := 44) (by bv_omega) (by omega) (by omega))
  have second := saved.kept a k (apart.shrink (i := 20 - 4 * u.frame.length) (by rw [esp]; bv_omega) (by omega) (by omega))
  rw [mem]
  exact (first.trans second).trans
    (store_same s.mem _ (apart.shrink (i := 44 - 4 * u.frame.length) (by rw [top]; bv_omega) (by omega) (by omega)))

/-- `system_call_handler` does what `systemCallHandler` says, for every number. -/
theorem trap_refines (assembled : Line.Assembled Listing.all I) {before : Idt}
    (idt : ∀ n, u.idt n = (setIdt I.sym before n).target) :
    (tableIndex (u.reg .eax) = none → ∀ routine, ∃ m', I.Path (u.interrupt 0x80) m' ∧
      Resumed u (systemCallHandler routine (Registers.of u)) m' ∧
      ∀ a k, Apart a k (u.enter.esp - 64) 64 → Same a k u.mem m'.mem) ∧
    ∀ i, tableIndex (u.reg .eax) = some i → Apart (I.sym .sysCallTable + i * 4) 4 (u.enter.esp - 68) 68 →
      ∃ s, I.Path (u.interrupt 0x80) s ∧ Entered u s (load u.mem (I.sym .sysCallTable + i * 4)) ∧
        ∀ s' args, args ≤ 3 → Returned s s' args (4 * (11 - args + u.frame.length)) →
          (Registers.found s'.mem s'.esp).words.drop args = (Registers.of u).words.drop args ∧
            ∃ m', I.Path s' m' ∧
              Resumed u (systemCallHandler (fun _ => s'.reg .eax) (Registers.found s'.mem s'.esp)) m' := by
  have gate : u.idt 0x80 = (0x10, I.sym .systemCallHandler) := by
    rw [idt]
    exact (setIdt_gates I.sym before (p := 3) (by decide)).1
  refine ⟨fun out routine => trap_refuses assembled gate out routine, fun i index table => ?_⟩
  obtain ⟨s, path, entered, resumes⟩ := trap_serves assembled gate index table
  refine ⟨s, path, entered, fun s' args few back => ?_⟩
  obtain ⟨kept, m', leaving, resumed, -⟩ := trap_returns assembled entered index few back
  exact ⟨kept, m', (resumes s' back.eip).trans leaving, resumed⟩

/-- The program calls `sys_read` with `int $0x80`. -/
theorem program_refines : ∃ s m, Listing.image.Path (Listing.program.interrupt 0x80) s ∧ s.eip = 0x220007 ∧
    Listing.image.Path { s with eip := s.top, reg := Function.update s.reg .esp (s.esp + 4) } m ∧
    m.eip = 0x150000 ∧ m.esp = 0x300000 := by
  have refines := trap_refines Listing.image_assembled (u := Listing.program) (fun _ => rfl)
  obtain ⟨s, path, entered, back⟩ := refines.2 7 (by decide) (by decide +kernel)
  obtain ⟨-, m, leaving, resumed⟩ := back { s with eip := s.top, reg := Function.update s.reg .esp (s.esp + 4) } 2 (by decide)
    ⟨rfl, rfl, rfl, rfl, fun _ _ => rfl⟩
  have routine : load Listing.program.mem (Listing.image.sym .sysCallTable + 7 * 4) = 0x220007 := by decide +kernel
  exact ⟨s, m, path, entered.eip.trans routine, leaving, resumed.eip, resumed.esp⟩

end Trap

end Zeos
