import Zeos.Wrappers

/-! `task_switch` and the stacks that it finds: those that it left itself, and those that
`sys_fork`, `sys_create_thread` and `init_idle` prepare. `inner_task_switch` is known by the
calling convention, with the frame pointer that the Makefile asks for. -/
namespace Zeos
open Words Assembly Relation Listing

variable {I : Image Symbol} {m c : Machine}

theorem Listing.cambio_behind :
    [.movLoad 4 .esp .ebx, .movStore .ebp 0 .ebx, .movLoad 8 .esp .esp, .pop (.reg .ebp)] ++ [.ret] <+:
      Line.behind .cambioStack Listing.all := by
  decide +kernel

/-- `cambio_stack(place, k)` is called, from a function whose frame `EBP` points to. -/
structure Changing (I : Image Symbol) (c : Machine) (place k : Word32) : Prop where
  eip : c.eip = I.sym .cambioStack
  first : load c.mem (c.esp + 4) = place
  second : load c.mem (c.esp + 8) = k
  apart : Apart (c.esp + 8) 4 place 4

/-- Another stack is in use, and the one before it is saved. -/
structure Changed (c r : Machine) (place k ebp address : Word32) : Prop where
  eip : r.eip = address
  esp : r.esp = k + 8
  ebp : r.reg .ebp = ebp
  others : ∀ x, x ≠ .ebx → x ≠ .ebp → x ≠ .esp → r.reg x = c.reg x
  seg : r.seg = c.seg
  msr : r.msr = c.msr
  eflags : r.eflags = c.eflags
  mem : r.mem = store c.mem place (c.reg .ebp)

theorem cambio_exec {place k ebp : Word32} {mem : Memory} (first : load c.mem (c.esp + 4) = place)
    (stored : store c.mem place (c.reg .ebp) = mem) (second : load mem (c.esp + 8) = k) (top : load mem k = ebp) :
    I.execs [.movLoad 4 .esp .ebx, .movStore .ebp 0 .ebx, .movLoad 8 .esp .esp, .pop (.reg .ebp)] c = { c with
      reg := Function.update (Function.update (Function.update c.reg .ebx place) .esp (k + 4)) .ebp ebp
      mem := mem } := by
  have zero : place + 0 = place := BitVec.add_zero place
  simp only [Image.execs, List.foldl_cons, List.foldl_nil, Machine.exec, Machine.setReg, Machine.set, Machine.drop, Machine.top,
    Machine.esp, Function.update_self, Function.update_idem, Function.update_of_ne, ne_eq, reduceCtorEq, not_false_eq_true,
    first, zero, stored, second, top]
  rfl

theorem Changing.path {place k ebp address : Word32} (assembled : Line.Assembled Listing.all I) (changing : Changing I c place k)
    (holds : Stored c.mem k [ebp, address]) (apart : Apart k 8 place 4) :
    ∃ r, I.Path c r ∧ Changed c r place k ebp address := by
  have code := assembled.code Listing.cambio_behind
  rw [← changing.eip] at code
  obtain ⟨a, path, -⟩ := code.leap (by decide)
  have kept : load (store c.mem place (c.reg .ebp)) (c.esp + 8) = k :=
    ((store_same c.mem _ changing.apart).load (by decide)).trans changing.second
  obtain ⟨frame, behind, -⟩ := holds.same (store_same c.mem (c.reg .ebp) apart)
  rw [cambio_exec changing.first rfl kept frame] at path
  refine ⟨_, path, behind, ?_, rfl, fun x base frame stack => ?_, rfl, rfl, rfl, rfl⟩
  · have : k + 4 + 4 = k + 8 := by bv_omega
    exact this
  · exact (Function.update_of_ne stack ..).trans
      ((Function.update_of_ne frame ..).trans ((Function.update_of_ne stack ..).trans (Function.update_of_ne base ..)))

/-- Where a call of `task_switch` goes on. -/
structure Context where
  ebx : Word32
  esi : Word32
  edi : Word32
  ebp : Word32
  esp : Word32
  eip : Word32
  deriving DecidableEq, Repr

/-- The context behind a call that is just made. -/
def Context.of (m : Machine) : Context where
  ebx := m.reg .ebx
  esi := m.reg .esi
  edi := m.reg .edi
  ebp := m.reg .ebp
  esp := m.esp + 4
  eip := m.top

/-- `task_switch` behind the call of `inner_task_switch`. -/
def Listing.resume : List (Instr Symbol) :=
  [.add 4 .esp, .pop (.reg .ebx), .pop (.reg .edi), .pop (.reg .esi), .mov .ebp .esp, .pop (.reg .ebp)]

def Listing.suspend : List (Instr Symbol) :=
  [.push (.reg .ebp), .mov .esp .ebp, .push (.reg .esi), .push (.reg .edi), .push (.reg .ebx), .pushMem 8 .ebp]

theorem Listing.switch_behind :
    Listing.suspend ++ .call .innerTaskSwitch :: (Listing.resume ++ [.ret]) <+: Line.behind .taskSwitch Listing.all := by
  decide +kernel

/-- The stack of a task that waits in `inner_task_switch`, from the saved `k_esp` on. -/
structure Parked (I : Image Symbol) (mem : Memory) (x : Context) (address new : Word32) : Prop where
  code : I.At address (Listing.resume ++ [.ret])
  holds : Stored mem (x.esp - 32) [x.esp - 8, address, new, x.ebx, x.edi, x.esi, x.ebp, x.eip]

/-- `inner_task_switch(new)` is called by `task_switch`. -/
structure Suspends (I : Image Symbol) (m s : Machine) : Prop where
  eip : s.eip = I.sym .innerTaskSwitch
  esp : s.esp = m.esp - 24
  ebp : s.reg .ebp = m.esp - 4
  code : I.At s.top (Listing.resume ++ [.ret])
  holds : Stored s.mem s.esp [s.top, load m.mem (m.esp + 4), m.reg .ebx, m.reg .edi, m.reg .esi, m.reg .ebp, m.top]
  kept : ∀ a n, Apart a n (m.esp - 24) 24 → Same a n m.mem s.mem

theorem task_switch_suspends (assembled : Line.Assembled Listing.all I) (eip : m.eip = I.sym .taskSwitch) :
    ∃ s, I.Path m s ∧ Suspends I m s := by
  have code := assembled.code Listing.switch_behind
  rw [← eip] at code
  obtain ⟨a, path, code⟩ := code.leap (by decide)
  have top : Stored m.mem m.esp [m.top] := ⟨rfl, trivial⟩
  have read : load (m.pushAll [m.reg .ebp, m.reg .esi, m.reg .edi, m.reg .ebx]).mem (m.esp - 4 + 8) = load m.mem (m.esp + 4) := by
    have place : m.esp - 4 + 8 = m.esp + 4 := by bv_omega
    rw [place]
    apply Same.load (n := 4) _ (by decide)
    apply Machine.pushAll_same
    · constructor <;> simp only [List.length_cons, List.length_nil] <;> bv_omega
    · simp
  have mem : (I.execs Listing.suspend m).mem =
      (m.pushAll [m.reg .ebp, m.reg .esi, m.reg .edi, m.reg .ebx, load m.mem (m.esp + 4)]).mem := by
    rw [← read]
    rfl
  have esp : (I.execs Listing.suspend m).esp = m.esp - 20 := by
    have : (I.execs Listing.suspend m).esp = m.esp - 4 - 4 - 4 - 4 - 4 := rfl
    rw [this]
    bv_omega
  have ebp : (I.execs Listing.suspend m).reg .ebp = m.esp - 4 := rfl
  generalize I.execs Listing.suspend m = x at path mem esp ebp
  have pushed := Machine.pushAll_holds
    [m.reg .ebp, m.reg .esi, m.reg .edi, m.reg .ebx, load m.mem (m.esp + 4)] top (by simp)
  have stack : (m.pushAll [m.reg .ebp, m.reg .esi, m.reg .edi, m.reg .ebx, load m.mem (m.esp + 4)]).esp = m.esp - 20 :=
    Machine.pushAll_reg ..
  rw [stack, ← mem] at pushed
  have called := pushed.cons a (by simp)
  have below : m.esp - 20 - 4 = m.esp - 24 := by bv_omega
  rw [below] at called
  have place : x.esp - 4 = m.esp - 24 := by rw [esp, below]
  refine ⟨_, path, ?_⟩
  generalize arrived : ({ x with eip := a } : Machine).exec I.sym (.call .innerTaskSwitch) = s
  have mem' : s.mem = store x.mem (m.esp - 24) a := by
    rw [← place, ← arrived]
    rfl
  have esp' : s.esp = m.esp - 24 := by
    rw [← place, ← arrived]
    rfl
  have top' : s.top = a := by
    rw [Machine.top, esp', mem']
    exact called.1
  refine ⟨?_, esp', ?_, top' ▸ code, ?_, fun b n apart => ?_⟩
  · rw [← arrived]
    rfl
  · rw [← arrived]
    exact ebp
  · rw [top', esp', mem']
    exact called
  · rw [mem']
    have first := Machine.pushAll_same (a := b) (n := n)
      [m.reg .ebp, m.reg .esi, m.reg .edi, m.reg .ebx, load m.mem (m.esp + 4)] m
      (apart.shrink (i := 4) (by simp only [List.length_cons, List.length_nil]; bv_omega) (by simp) (by simp)) (by simp)
    rw [← mem] at first
    exact first.trans (store_same x.mem a (apart.shrink (i := 0) (by simp) (by omega) (by omega)))

/-- The frame of `inner_task_switch`, up to its call of `cambio_stack`. -/
structure Framed (s c : Machine) : Prop where
  ebp : c.reg .ebp = s.esp - 4
  saved : load c.mem (s.esp - 4) = s.reg .ebp
  kept : Same s.esp 28 s.mem c.mem

/-- A call of `task_switch` has returned. -/
structure Resumes (x : Context) (r : Machine) : Prop where
  eip : r.eip = x.eip
  esp : r.esp = x.esp
  ebp : r.reg .ebp = x.ebp
  ebx : r.reg .ebx = x.ebx
  esi : r.reg .esi = x.esi
  edi : r.reg .edi = x.edi

/-- The way out of `task_switch`. -/
theorem Parked.leaves {x : Context} {address new : Word32} {r : Machine} (parked : Parked I r.mem x address new)
    (eip : r.eip = address) (esp : r.esp = x.esp - 24) (ebp : r.reg .ebp = x.esp - 8) :
    ∃ e, I.Path r e ∧ Resumes x e ∧ e.mem = r.mem := by
  have code := parked.code
  rw [← eip] at code
  obtain ⟨a, path, -⟩ := code.leap (by decide)
  have word {i : Nat} (inside : i < 8) {b : Word32} (place : b = x.esp - 32 + BitVec.ofNat 32 (4 * i)) :=
    place ▸ parked.holds.word (i := i) inside
  have first : (I.execs Listing.resume r).reg .ebx = load r.mem (r.esp + 4) := rfl
  have second : (I.execs Listing.resume r).reg .edi = load r.mem (r.esp + 4 + 4) := rfl
  have third : (I.execs Listing.resume r).reg .esi = load r.mem (r.esp + 4 + 4 + 4) := rfl
  have fourth : (I.execs Listing.resume r).reg .ebp = load r.mem (r.reg .ebp) := rfl
  have stack : (I.execs Listing.resume r).esp = r.reg .ebp + 4 := rfl
  have mem : (I.execs Listing.resume r).mem = r.mem := rfl
  rw [esp] at first second third
  rw [ebp] at fourth stack
  generalize I.execs Listing.resume r = s at path first second third fourth stack mem
  refine ⟨_, path, ⟨?_, ?_, ?_, ?_, ?_, ?_⟩, mem⟩
  · have top : load s.mem s.esp = x.eip := by
      rw [mem, stack]
      exact word (i := 7) (by decide) (by bv_omega)
    exact top
  · have above : s.esp + 4 = x.esp := by
      rw [stack]
      bv_omega
    exact above
  · exact fourth.trans (word (i := 6) (by decide) (by bv_omega))
  · exact first.trans (word (i := 3) (by decide) (by bv_omega))
  · exact third.trans (word (i := 5) (by decide) (by bv_omega))
  · exact second.trans (word (i := 4) (by decide) (by bv_omega))

theorem Parked.same {x : Context} {address new : Word32} {mem mem' : Memory} (parked : Parked I mem x address new)
    (same : Same (x.esp - 32) 32 mem mem') : Parked I mem' x address new :=
  ⟨parked.code, parked.holds.same same⟩

/-- The task that calls `task_switch` waits where the others wait. -/
theorem Suspends.parked {s : Machine} (suspends : Suspends I m s) (framed : Framed s c) :
    Parked I c.mem (Context.of m) s.top (load m.mem (m.esp + 4)) := by
  refine ⟨suspends.code, ?_⟩
  have holds := suspends.holds.same framed.kept
  have first : m.esp + 4 - 32 = m.esp - 28 := by bv_omega
  have second : m.esp + 4 - 8 = m.esp - 4 := by bv_omega
  have below : m.esp - 24 - 4 = m.esp - 28 := by bv_omega
  have next : m.esp - 28 + 4 = m.esp - 24 := by bv_omega
  have saved := framed.saved
  rw [suspends.esp, below, suspends.ebp] at saved
  rw [suspends.esp] at holds
  simp only [Context.of, first, second]
  exact ⟨saved, next ▸ holds⟩

theorem Parked.switches {s : Machine} {place address new : Word32} {x : Context} (parked : Parked I c.mem x address new)
    (assembled : Line.Assembled Listing.all I) (suspends : Suspends I m s) (framed : Framed s c)
    (changing : Changing I c place (x.esp - 32)) (apart : Apart (x.esp - 32) 32 place 4) :
    ∃ e, I.Path c e ∧ Resumes x e ∧ e.mem = store c.mem place ((Context.of m).esp - 32) := by
  have frame : Stored c.mem (x.esp - 32) [x.esp - 8, address] := ⟨parked.holds.1, parked.holds.2.1, trivial⟩
  obtain ⟨r, leaving, changed⟩ := changing.path assembled frame (apart.symm.shrink (i := 0) (by simp) (by omega) (by omega)).symm
  have mem := changed.mem
  have there := parked.same (show Same _ _ _ r.mem by rw [mem]; exact store_same c.mem (c.reg .ebp) apart)
  have esp : r.esp = x.esp - 24 := by
    rw [changed.esp]
    bv_omega
  obtain ⟨e, resuming, resumes, stay⟩ := there.leaves changed.eip esp changed.ebp
  have base : c.reg .ebp = (Context.of m).esp - 32 := by
    rw [framed.ebp, suspends.esp, Context.of]
    bv_omega
  exact ⟨e, leaving.trans resuming, resumes, by rw [stay, mem, base]⟩

section Turns

variable {T : Type} [DecidableEq T]

/-- A task runs. `context` is history: where the last call of `task_switch` in each of the
others goes on. -/
structure Point (T : Type) where
  machine : Machine
  current : T
  context : T → Context

/-- Where `k_esp` of each task is stored, apart from the stacks. -/
structure Places (T : Type) where
  place : T → Word32
  stack : T → Word32
  size : Nat
  apart : ∀ t u, Apart (stack t) size (place u) 4
  distinct : ∀ t u, t ≠ u → Apart (place t) 4 (place u) 4

/-- The part of its stack that a parked task needs. -/
def Places.Inside (P : Places T) (t : T) (x : Context) : Prop :=
  ∃ i, x.esp - 32 = P.stack t + BitVec.ofNat 32 i ∧ i + 32 ≤ P.size

/-- The other tasks are parked. -/
def Places.Parks (P : Places T) (I : Image Symbol) (q : Point T) : Prop := ∀ u, u ≠ q.current →
  load q.machine.mem (P.place u) = (q.context u).esp - 32 ∧ P.Inside u (q.context u) ∧
    ∃ address new, Parked I q.machine.mem (q.context u) address new

/-- Nothing is written to the others. -/
def Places.Keeps (P : Places T) (q : Point T) (mem : Memory) : Prop := ∀ u, u ≠ q.current →
  Same ((q.context u).esp - 32) 32 q.machine.mem mem ∧ Same (P.place u) 4 q.machine.mem mem

/-- The current task has called `task_switch`, and `inner_task_switch` has called
`cambio_stack` for the task `new`. -/
structure Places.Calls (P : Places T) (I : Image Symbol) (q : Point T) (s c : Machine) (new : T) : Prop where
  eip : q.machine.eip = I.sym .taskSwitch
  other : new ≠ q.current
  inside : P.Inside q.current (Context.of q.machine)
  path : I.Path q.machine s
  suspends : Suspends I q.machine s
  framed : Framed s c
  changing : Changing I c (P.place q.current) (load c.mem (P.place new))
  keeps : P.Keeps q c.mem

/-- Runs of the tasks, with arbitrary work between the calls of `task_switch`. -/
inductive Places.Turns (P : Places T) (I : Image Symbol) (p : Point T) : Point T → Prop where
  | start : Turns P I p p
  | work {q : Point T} {m : Machine} : Turns P I p q → P.Keeps q m.mem → Turns P I p { q with machine := m }
  | turn {q : Point T} {s c e : Machine} {new : T} : Turns P I p q → P.Calls I q s c new → I.Path c e →
      Resumes (q.context new) e → e.mem = store c.mem (P.place q.current) ((Context.of q.machine).esp - 32) →
      Turns P I p ⟨e, new, Function.update q.context q.current (Context.of q.machine)⟩

variable {P : Places T} {p q : Point T} {s e : Machine} {new : T}

omit [DecidableEq T] in
theorem Places.Inside.apart {t u : T} {x : Context} (inside : P.Inside t x) : Apart (x.esp - 32) 32 (P.place u) 4 := by
  obtain ⟨i, place, fits⟩ := inside
  rw [place]
  exact (P.apart t u).part fits (by decide)

omit [DecidableEq T] in
theorem Places.Parks.keep (parks : P.Parks I q) (keeps : P.Keeps q m.mem) : P.Parks I { q with machine := m } := by
  intro u other
  obtain ⟨saved, inside, address, arg, parked⟩ := parks u other
  obtain ⟨stack, place⟩ := keeps u other
  exact ⟨(place.load (by decide)).trans saved, inside, address, arg, parked.same stack⟩

theorem Places.Parks.turn (parks : P.Parks I q) (calls : P.Calls I q s c new)
    (mem : e.mem = store c.mem (P.place q.current) ((Context.of q.machine).esp - 32)) :
    P.Parks I ⟨e, new, Function.update q.context q.current (Context.of q.machine)⟩ := by
  intro u other
  by_cases own : u = q.current
  · subst own
    simp only [Function.update_self, mem]
    exact ⟨load_store .., calls.inside, _, _, (calls.suspends.parked calls.framed).same (store_same c.mem _ (calls.inside.apart))⟩
  · obtain ⟨saved, inside, address, arg, parked⟩ := parks.keep calls.keeps u own
    simp only [Function.update_of_ne own, mem]
    have place := (store_same c.mem ((Context.of q.machine).esp - 32) (P.distinct u q.current own)).load (by decide)
    exact ⟨place.trans saved, inside, address, arg, parked.same (store_same c.mem _ inside.apart)⟩

/-- Every run leaves the tasks that are not running parked. -/
theorem Places.Turns.parks (start : P.Parks I p) (turns : P.Turns I p q) : P.Parks I q := by
  induction turns with
  | start => exact start
  | work _ keeps ih => exact ih.keep keeps
  | turn _ calls _ _ mem ih => exact ih.turn calls mem

/-- In every run, a task that another one switches to goes on behind its own last call of
`task_switch`, with the registers that it had there. -/
theorem Places.Turns.resumes (assembled : Line.Assembled Listing.all I) (start : P.Parks I p) (turns : P.Turns I p q)
    (calls : P.Calls I q s c new) : ∃ e, I.Path c e ∧ Resumes (q.context new) e ∧
      P.Turns I p ⟨e, new, Function.update q.context q.current (Context.of q.machine)⟩ := by
  obtain ⟨saved, inside, address, arg, parked⟩ := (turns.parks start).keep calls.keeps new calls.other
  obtain ⟨e, path, regs, mem⟩ := parked.switches assembled calls.suspends calls.framed (saved ▸ calls.changing) inside.apart
  exact ⟨e, path, regs, turns.turn calls path regs mem⟩

/-- Two tasks, with the `k_esp` of both behind one another. -/
def pair : Places Bool where
  place t := cond t 0x600004 0x600000
  stack t := cond t 0x402000 0x400000
  size := 4096
  apart := by decide
  distinct := by decide

/-- One of the two waits while the other one calls `task_switch`. -/
def pairPoint (address : Word32) : Point Bool where
  machine := { program with
    eip := image.sym .taskSwitch
    reg
      | .esp => 0x400F00
      | _ => 7
    mem := stores (stores (stores program.mem 0x400F00 [0x152000, 9]) 0x600004 [0x402EE0]) 0x402EE0
      [0x402EF8, address, 9, 1, 3, 2, 4, 0x151000] }
  current := false
  context _ := ⟨1, 2, 3, 4, 0x402F00, 0x151000⟩

/-- `inner_task_switch` calls `cambio_stack`. -/
def pairInner (s : Machine) : Machine :=
  { s with
    eip := image.sym .cambioStack
    reg := Function.update (Function.update s.reg .ebp 0x400EE4) .esp 0x400ED4
    mem := stores (store s.mem 0x400EE4 (s.reg .ebp)) 0x400ED4 [0, 0x600000, 0x402EE0] }

theorem pairPoint_parks {address : Word32} (code : image.At address (Listing.resume ++ [.ret])) :
    pair.Parks image (pairPoint address) := by
  intro u other
  obtain rfl : u = true := by simpa [pairPoint] using other
  have apart : Apart (0x600004 : Word32) 4 0x402EE0 32 := by decide
  have holds := stores_holds (stores (stores program.mem 0x400F00 [0x152000, 9]) 0x600004 [0x402EE0]) 0x402EE0
    [0x402EF8, address, 9, 1, 3, 2, 4, 0x151000] (by simp)
  have saved := (stores_holds (stores program.mem 0x400F00 [0x152000, 9]) 0x600004 [0x402EE0] (by decide)).same
    (stores_same _ [0x402EF8, address, 9, 1, 3, 2, 4, 0x151000] apart)
  have k : (0x402F00 : Word32) - 32 = 0x402EE0 := by decide
  have top : (0x402F00 : Word32) - 8 = 0x402EF8 := by decide
  refine ⟨saved.1.trans k.symm, ⟨0xEE0, k, by decide⟩, address, 9, code, ?_⟩
  simp only [pairPoint, k, top]
  exact holds

theorem pairPoint_calls {address : Word32} {s : Machine} (path : image.Path (pairPoint address).machine s)
    (suspends : Suspends image (pairPoint address).machine s) :
    pair.Calls image (pairPoint address) s (pairInner s) true := by
  have bottom : (pairPoint address).machine.esp - 24 = 0x400EE8 := (by decide : (0x400F00 : Word32) - 24 = 0x400EE8)
  have esp : s.esp = 0x400EE8 := suspends.esp.trans bottom
  obtain ⟨-, first, second, -⟩ := stores_holds (store s.mem 0x400EE4 (s.reg .ebp)) 0x400ED4 [0, 0x600000, 0x402EE0] (by decide)
  have saved := (stores_holds (stores program.mem 0x400F00 [0x152000, 9]) 0x600004 [0x402EE0] (by decide)).same
    (stores_same _ [0x402EF8, address, 9, 1, 3, 2, 4, 0x151000] (by decide : Apart (0x600004 : Word32) 4 0x402EE0 32))
  have base : (0x400EE8 : Word32) - 4 = 0x400EE4 := by decide
  have stay {a : Word32} {n : Nat} (low : Apart a n 0x400EE4 4) (high : Apart a n 0x400ED4 12) :
    Same a n s.mem (pairInner s).mem :=
    (store_same s.mem (s.reg .ebp) low).trans (stores_same _ [0, 0x600000, 0x402EE0] high)
  have kept {a : Word32} {n : Nat} (own : Apart a n 0x400EE8 24) (low : Apart a n 0x400EE4 4) (high : Apart a n 0x400ED4 12) :
      Same a n (pairPoint address).machine.mem (pairInner s).mem := by
    rw [← bottom] at own
    exact (suspends.kept a n own).trans (stay low high)
  have stack := kept (a := 0x402F00 - 32) (n := 32) (by decide) (by decide) (by decide)
  have place := kept (a := 0x600004) (n := 4) (by decide) (by decide) (by decide)
  have inside : (0x400F00 + 4 : Word32) - 32 = 0x400000 + BitVec.ofNat 32 0xEE4 := by decide
  refine ⟨rfl, by simp [pairPoint], ⟨0xEE4, inside, by decide⟩, path, suspends, ⟨?_, ?_, ?_⟩, ⟨rfl, first, ?_, ?_⟩, ?_⟩
  · rw [esp, base]
    rfl
  · rw [esp, base]
    exact ((stores_same _ [0, 0x600000, 0x402EE0] (by decide : Apart (0x400EE4 : Word32) 4 0x400ED4 12)).load (by decide)).trans
      (load_store ..)
  · rw [esp]
    exact stay (by decide) (by decide)
  · exact second.trans ((place.load (by decide)).trans saved.1).symm
  · have closed : Apart (0x400ED4 + 8 : Word32) 4 0x600000 4 := by decide
    exact closed
  · intro u other
    obtain rfl : u = true := by simpa [pairPoint] using other
    exact ⟨stack, place⟩

theorem Places.Turns.pair_resumes : ∃ address s e, pair.Calls image (pairPoint address) s (pairInner s) true ∧
    image.Path (pairInner s) e ∧ e.eip = 0x151000 ∧ e.esp = 0x402F00 ∧ e.reg .ebx = 1 ∧ e.reg .ebp = 4 := by
  obtain ⟨s', -, there⟩ := task_switch_suspends image_assembled (m := (pairPoint 0).machine) rfl
  obtain ⟨s, path, suspends⟩ := task_switch_suspends image_assembled (m := (pairPoint s'.top).machine) rfl
  have calls := pairPoint_calls path suspends
  obtain ⟨e, going, regs, -⟩ := resumes image_assembled (pairPoint_parks there.code) .start calls
  exact ⟨s'.top, s, e, calls, going, regs.eip, regs.esp, regs.ebx, regs.ebp⟩

end Turns

section Children

/-- `copy_data(current(), fill, sizeof(union task_union))` -/
def copyUnion (current fill : Word32) (mem : Memory) : Memory := fun x =>
  if (x - fill).toNat < 4096 then mem (current + (x - fill)) else mem x

/-- What `sys_fork` and `sys_create_thread` put below the copy of the caller's stack: the
entries `KERNEL_STACK_SIZE - 19` and `KERNEL_STACK_SIZE - 18`. -/
def prepare (fill address : Word32) (mem : Memory) : Memory :=
  store (store mem (fill + 4096 - 76) 0) (fill + 4096 - 72) address

/-- The entries `KERNEL_STACK_SIZE - 5` and `KERNEL_STACK_SIZE - 2`, from `sys_create_thread`. -/
def redirect (fill function newStack : Word32) (mem : Memory) : Memory :=
  store (store mem (fill + 4096 - 20) function) (fill + 4096 - 8) newStack

variable {current fill address : Word32} {mem : Memory} {ws : List Word32}

theorem copyUnion_inside (current fill : Word32) (mem : Memory) {i : Word32} (inside : i.toNat < 4096) :
    copyUnion current fill mem (fill + i) = mem (current + i) := by
  have place : fill + i - fill = i := by bv_omega
  have within : (fill + i - fill).toNat < 4096 := place.symm ▸ inside
  exact (if_pos within).trans (by rw [place])

theorem copyUnion_holds (fill : Word32) (holds : Stored mem (current + 4096 - 68) ws) (length : ws.length = 17) :
    Stored (copyUnion current fill mem) (fill + 4096 - 68) ws := by
  apply holds.moved
  intro j inside
  rw [length] at inside
  have within : (4028 + BitVec.ofNat 32 j).toNat < 4096 := by bv_omega
  have here : fill + 4096 - 68 + BitVec.ofNat 32 j = fill + (4028 + BitVec.ofNat 32 j) := by bv_omega
  have there : current + 4096 - 68 + BitVec.ofNat 32 j = current + (4028 + BitVec.ofNat 32 j) := by bv_omega
  rw [here, there]
  exact copyUnion_inside current fill mem within

theorem prepare_holds (address : Word32) (holds : Stored mem (fill + 4096 - 68) ws) (length : ws.length = 17) :
    Stored (prepare fill address mem) (fill + 4096 - 76) (0 :: address :: ws) := by
  have first : fill + 4096 - 76 + 4 = fill + 4096 - 72 := by bv_omega
  have second : fill + 4096 - 72 + 4 = fill + 4096 - 68 := by bv_omega
  refine ⟨?_, ?_⟩
  · have apart : Apart (fill + 4096 - 76) 4 (fill + 4096 - 72) 4 := by constructor <;> bv_omega
    exact ((store_same _ address apart).load (by decide)).trans (load_store ..)
  · rw [first]
    refine ⟨load_store .., ?_⟩
    rw [second]
    have low : Apart (fill + 4096 - 68) (4 * ws.length) (fill + 4096 - 76) 4 := by
      rw [length]
      constructor <;> bv_omega
    have high : Apart (fill + 4096 - 68) (4 * ws.length) (fill + 4096 - 72) 4 := by
      rw [length]
      constructor <;> bv_omega
    exact holds.same ((store_same mem 0 low).trans (store_same _ address high))

theorem redirect_holds {base : Word32} (function newStack : Word32)
    (holds : Stored mem (fill + 4096 - 76) (base :: address :: ws))
    (length : ws.length = 17) :
    Stored (redirect fill function newStack mem) (fill + 4096 - 76)
    (base :: address :: (ws.set 12 function).set 15 newStack) := by
  have first := holds.set (i := 14) (by simp [length]) (by simp [length]) function
  have second := first.set (i := 17) (by simp [length]) (by simp [length]) newStack
  have low : fill + 4096 - 76 + BitVec.ofNat 32 (4 * 14) = fill + 4096 - 20 := by bv_omega
  have high : fill + 4096 - 76 + BitVec.ofNat 32 (4 * 17) = fill + 4096 - 8 := by bv_omega
  rw [low, high] at second
  exact second

/-- A new task is switched to for the first time, with what stands on the stack that was
prepared for it. -/
theorem child_starts (assembled : Line.Assembled Listing.all I) {place : Word32} {sym : Symbol}
    (changing : Changing I c place (fill + 4096 - 76)) (holds : Stored c.mem (fill + 4096 - 76) (0 :: I.sym sym :: ws))
    (length : ws.length = 17) (apart : Apart (fill + 4096 - 76) 76 place 4) :
    ∃ f, I.Path c f ∧ f.eip = I.sym sym ∧ f.esp = fill + 4096 - 68 ∧ f.seg = c.seg ∧ f.msr = c.msr ∧ Stored f.mem f.esp ws ∧
      f.mem = store c.mem place (c.reg .ebp) := by
  have frame : Stored c.mem (fill + 4096 - 76) [0, I.sym sym] := ⟨holds.1, holds.2.1, trivial⟩
  obtain ⟨f, path, changed⟩ := changing.path assembled frame (apart.symm.shrink (i := 0) (by simp) (by omega) (by omega)).symm
  have esp : f.esp = fill + 4096 - 68 := by
    rw [changed.esp]
    bv_omega
  have kept := holds.same (show Same _ _ _ f.mem by
    rw [changed.mem]
    simp only [List.length_cons, length]
    exact store_same c.mem (c.reg .ebp) apart)
  refine ⟨f, path, changed.eip, esp, changed.seg, changed.msr, ?_, changed.mem⟩
  have behind := kept.2.2
  have above : fill + 4096 - 76 + 4 + 4 = fill + 4096 - 68 := by bv_omega
  rw [esp, ← above]
  exact behind

/-- The words on the stack of a routine that a wrapper has called. -/
def routineWords (s h : Machine) : List Word32 := s.top :: ((Registers.of h).words ++ context h)

theorem serving_words {h s : Machine} {routine : Word32} (serving : Serving h s routine) :
    Stored s.mem (h.esp - 68) (routineWords s h) := by
  rw [← serving.esp]
  exact ⟨rfl, serving.holds⟩

end Children

namespace Wrapper

/-- `fork` returns twice: to its caller with what `sys_fork` returns, and to the same place in
the child with 0, where the child has copies of the caller's stacks. -/
theorem fork_twice (fill : Word32) (assembled : Line.Assembled Listing.all I) (ready : Wrapper.fork.Ready I m []) :
    ∃ s, I.Path m s ∧ Wrapper.fork.Serves I m s [] ∧
      (∀ s', Returned s s' 0 64 → s'.msr 0x174 = kernelCs → Same (m.esp - 24) 28 s.mem s'.mem →
        ∃ e, I.Path s' e ∧ Wrapper.fork.Returns I m (m.msr 0x175) (s'.reg .eax) s'.mem e) ∧
      ∀ mem c place, Same (m.msr 0x175 - 68) 68 s.mem mem →
        Same (fill + 4096 - 76) 76 (prepare fill (I.sym .retFromFork) (copyUnion (m.msr 0x175 - 4096) fill mem)) c.mem →
        Changing I c place (fill + 4096 - 76) → Apart (fill + 4096 - 76) 76 place 4 →
        Apart (m.esp - 24) 28 (fill + 4096 - 64) 64 →
          ∃ f, I.Path c f ∧ f.eip = I.sym .retFromFork ∧ f.msr = c.msr ∧ f.mem = store c.mem place (c.reg .ebp) ∧
            ∀ g, Returned f g 0 64 → g.reg .eax = 0 → g.msr 0x174 = kernelCs → Same (m.esp - 24) 28 s.mem g.mem →
              ∃ e, I.Path g e ∧ Wrapper.fork.Returns I m (fill + 4096) 0 g.mem e := by
  obtain ⟨h, entering, switched⟩ := enters_kernel assembled (by decide) ready
  obtain ⟨s, serving, served, serves, resumes⟩ := serves assembled ready switched
  refine ⟨s, entering.trans serving, serves, fun s' back kernel stack => ?_, ?_⟩
  · exact returns assembled (by decide) ready switched served (resumes s' back.eip) back kernel stack
  · intro mem c place same copied changing apart user
    have original := (serving_words served).same (switched.esp ▸ same)
    have union : m.msr 0x175 - 4096 + 4096 - 68 = h.esp - 68 := by
      rw [switched.esp, BitVec.sub_add_cancel]
    rw [← union] at original
    have words := prepare_holds (I.sym .retFromFork) (copyUnion_holds fill original rfl) rfl
    obtain ⟨f, path, eip, esp, -, msr, holds, mem⟩ := child_starts assembled changing (words.same copied) rfl apart
    refine ⟨f, path, eip, msr, mem, fun g back zero kernel stack => ?_⟩
    have frame : Stored g.mem g.esp ((Registers.of h).words ++ context h) := by
      have kept := back.kept
      rw [Nat.mul_zero, BitVec.add_zero, ← back.esp] at kept
      have behind := holds.2
      rw [← back.esp] at behind
      exact behind.same kept
    have top : g.eip = s.top := back.eip.trans holds.1
    have above : g.esp = fill + 4096 - 64 := by
      rw [back.esp, esp]
      bv_omega
    have room : Apart (m.esp - 24) 28 g.esp 64 := by
      rw [above]
      exact user
    have answered := answered (x := { g with eip := I.sym .sysenterFin }) ready switched served rfl kernel rfl frame stack room
    obtain ⟨e, leaving, returns⟩ := answered.returns assembled (by decide)
    have back : g.esp + 64 = fill + 4096 := by
      rw [above]
      exact BitVec.sub_add_cancel ..
    refine ⟨e, (resumes g top).trans leaving, ?_⟩
    rw [← back, ← zero]
    exact returns

/-- The program calls `fork()`. -/
def parent : Machine :=
  { program with
    eip := image.sym (.wrapper .fork)
    mem := stores program.mem 0x300000 [0x150000] }

theorem parent_ready : Wrapper.fork.Ready image parent [] where
  eip := rfl
  given := trivial
  length := rfl
  cs := rfl
  ss := rfl
  kernel := rfl
  entry := rfl
  table := by decide +kernel
  apart := by decide +kernel
  tableCaller := by decide +kernel
  tableKernel := by decide +kernel
  errno := by decide +kernel

/-- Another task switches to the one of the union at 0x700000. -/
def switcher (mem : Memory) : Machine :=
  { program with
    eip := image.sym .cambioStack
    reg
      | .esp => 0x500000
      | _ => 7
    mem := stores mem 0x500000 [0, 0x600000, 0x700000 + 4096 - 76] }

theorem switcher_changing (mem : Memory) : Changing image (switcher mem) 0x600000 (0x700000 + 4096 - 76) := by
  obtain ⟨-, first, second, -⟩ := stores_holds mem 0x500000 [0, 0x600000, 0x700000 + 4096 - 76] (by decide)
  have apart : Apart (0x500000 + 8 : Word32) 4 0x600000 4 := by decide
  exact ⟨rfl, first, second, apart⟩

/-- The stack of the caller is the same in the child. -/
theorem switcher_same (mem : Memory) (address base : Word32) :
    Same 0x2FFFE8 28 mem (store (switcher (prepare 0x700000 address (copyUnion 0x3FF000 0x700000 mem))).mem 0x600000 base) := by
  have copied : Same 0x2FFFE8 28 mem (copyUnion 0x3FF000 0x700000 mem) := by
    intro x near
    have outside : ¬ (x - 0x700000).toNat < 4096 := by bv_omega
    exact if_neg outside
  have prepared := (copied.trans (store_same _ 0 (b := 0x700000 + 4096 - 76) (by decide))).trans
    (store_same _ address (b := 0x700000 + 4096 - 72) (by decide))
  exact (prepared.trans (stores_same _ _ (by decide))).trans (store_same _ base (by decide))

theorem parent_twice : ∃ s f e, image.Path parent s ∧ s.eip = 0x220002 ∧
    image.Path (switcher (prepare 0x700000 (image.sym .retFromFork) (copyUnion 0x3FF000 0x700000 s.mem))) f ∧
    f.eip = image.sym .retFromFork ∧
    image.Path { f with eip := f.top, reg := Function.update (Function.update f.reg .esp (f.esp + 4)) .eax 0 } e ∧
    e.eip = 0x150000 ∧ e.reg .eax = 0 ∧ e.reg .esi = 7 := by
  obtain ⟨s, path, serves, -, child⟩ := fork_twice 0x700000 image_assembled parent_ready
  obtain ⟨f, starting, eip, msr, mem, again⟩ := child s.mem
    (switcher (prepare 0x700000 (image.sym .retFromFork) (copyUnion 0x3FF000 0x700000 s.mem))) 0x600000 (Same.refl _ _ _)
    (stores_same _ _ (by decide)) (switcher_changing _) (by decide) (by decide)
  obtain ⟨e, leaving, returns⟩ :=
    again { f with eip := f.top, reg := Function.update (Function.update f.reg .esp (f.esp + 4)) .eax 0 }
    ⟨rfl, rfl, rfl, rfl, fun _ _ => rfl⟩ rfl (congrFun msr 0x174) (mem ▸ switcher_same s.mem _ _)
  have routine : image.sym (.routine fork.routine) = 0x220002 := by decide +kernel
  have top : parent.top = 0x150000 := by decide +kernel
  exact ⟨s, f, e, path, serves.eip.trans routine, starting, eip, leaving, returns.eip.trans top, returns.eax,
    returns.saved .esi (by decide)⟩

/-- A new thread starts in user mode at its function, on the stack that it was given, when it
is switched to for the first time. -/
theorem thread_starts (fill : Word32) (assembled : Line.Assembled Listing.all I) {function stack parameter : Word32}
    (ready : Wrapper.createThread.Ready I m [function, stack, parameter]) :
    ∃ s, I.Path m s ∧ Wrapper.createThread.Serves I m s [function, stack, parameter] ∧
      ∀ mem c place, Same (m.msr 0x175 - 68) 4 s.mem mem → Same (m.msr 0x175 - 52) 52 s.mem mem →
        Same (fill + 4096 - 76) 76 (redirect fill function (stack - 8)
          (prepare fill (I.sym .retFromNewThread) (copyUnion (m.msr 0x175 - 4096) fill mem))) c.mem →
        Changing I c place (fill + 4096 - 76) → Apart (fill + 4096 - 76) 76 place 4 →
          ∃ f, I.Path c f ∧ f.eip = I.sym .retFromNewThread ∧ f.msr = c.msr ∧ f.mem = store c.mem place (c.reg .ebp) ∧
            ∀ g, Returned f g 0 64 → g.msr 0x174 = kernelCs →
              ∃ u regs, I.Path g u ∧ Back regs function (stack - 8) u ∧ regs.eax = g.reg .eax ∧
                ∀ a n, Apart a n (fill + 4096 - 64) 64 → Same a n g.mem u.mem := by
  obtain ⟨h, entering, switched⟩ := enters_kernel assembled (by decide) ready
  obtain ⟨s, serving, served, serves, resumes⟩ := serves assembled ready switched
  refine ⟨s, entering.trans serving, serves, fun mem c place top same copied changing apart => ?_⟩
  have esp := switched.esp
  have frame : h.esp - 68 + 4 = h.esp - 64 := by bv_omega
  have above : h.esp - 64 + BitVec.ofNat 32 (4 * 3) = m.msr 0x175 - 52 := by
    rw [esp]
    bv_omega
  have words := served.holds
  rw [served.esp, frame] at words
  obtain ⟨holds, -⟩ := registers_found words (show 3 ≤ 3 from le_rfl) (show Same _ _ _ mem by rw [above]; exact same)
  generalize Registers.found mem (h.esp - 64) = regs at holds
  have back : load mem (h.esp - 68) = s.top := by
    have kept := top.load (by decide)
    rw [← esp, ← served.esp] at kept
    rw [← served.esp]
    exact kept
  have original : Stored mem (h.esp - 68) (s.top :: (regs.words ++ context h)) := ⟨back, frame ▸ holds⟩
  have union : m.msr 0x175 - 4096 + 4096 - 68 = h.esp - 68 := by
    rw [esp, BitVec.sub_add_cancel]
  rw [← union] at original
  have prepared := prepare_holds (I.sym .retFromNewThread) (copyUnion_holds fill original rfl) rfl
  have redirected := redirect_holds function (stack - 8) prepared rfl
  obtain ⟨f, path, eip, place, -, msr, holds, mem⟩ := child_starts assembled changing (redirected.same copied) rfl apart
  refine ⟨f, path, eip, msr, mem, fun g back kernel => ?_⟩
  have behind : Stored g.mem g.esp (regs.words ++ [function, userCs, h.eflags, stack - 8, userDs]) := by
    have kept := back.kept
    rw [Nat.mul_zero, BitVec.add_zero, ← back.esp] at kept
    have behind := holds.2
    rw [← back.esp] at behind
    exact behind.same kept
  have top : g.eip = s.top := back.eip.trans holds.1
  obtain ⟨u, leaving, left, mem⟩ := sysenter_leaves (m := { g with eip := I.sym .sysenterFin })
    (assembled.code Listing.sysenter_behind.2.2) behind kernel
  refine ⟨u, _, (resumes g top).trans leaving, left, rfl, fun a n apart => ?_⟩
  rw [mem]
  apply store_same
  exact apart.shrink (i := 24) (by rw [back.esp, place]; bv_omega) (by omega) (by omega)

/-- The program calls `createThread(0x151000, 0x190000, 9)`. -/
def creator : Machine :=
  { program with
    eip := image.sym (.wrapper .createThread)
    mem := stores program.mem 0x300000 [0x150000, 0x151000, 0x190000, 9] }

theorem creator_ready : Wrapper.createThread.Ready image creator [0x151000, 0x190000, 9] where
  eip := rfl
  given := by decide +kernel
  length := rfl
  cs := rfl
  ss := rfl
  kernel := rfl
  entry := rfl
  table := by decide +kernel
  apart := by decide +kernel
  tableCaller := by decide +kernel
  tableKernel := by decide +kernel
  errno := by decide +kernel

theorem creator_starts : ∃ s f u, image.Path creator s ∧ Stored s.mem (s.esp + 4) [0x151000, 0x190000, 9] ∧
    image.Path (switcher (redirect 0x700000 0x151000 (0x190000 - 8)
      (prepare 0x700000 (image.sym .retFromNewThread) (copyUnion 0x3FF000 0x700000 s.mem)))) f ∧
    f.eip = image.sym .retFromNewThread ∧
    image.Path { f with eip := f.top, reg := Function.update (Function.update f.reg .esp (f.esp + 4)) .eax 0 } u ∧
    u.eip = 0x151000 ∧ u.esp = 0x18FFF8 := by
  obtain ⟨s, path, serves, child⟩ := thread_starts 0x700000 image_assembled creator_ready
  obtain ⟨f, starting, eip, msr, -, goes⟩ := child s.mem
    (switcher (redirect 0x700000 0x151000 (0x190000 - 8)
      (prepare 0x700000 (image.sym .retFromNewThread) (copyUnion 0x3FF000 0x700000 s.mem)))) 0x600000 (Same.refl _ _ _)
    (Same.refl _ _ _) (stores_same _ _ (by decide)) (switcher_changing _) (by decide)
  obtain ⟨u, regs, leaving, left, -⟩ := goes
    { f with eip := f.top, reg := Function.update (Function.update f.reg .esp (f.esp + 4)) .eax 0 }
    ⟨rfl, rfl, rfl, rfl, fun _ _ => rfl⟩ (congrFun msr 0x174)
  have stack : (0x190000 : Word32) - 8 = 0x18FFF8 := by decide
  exact ⟨s, f, u, path, serves.given, starting, eip, leaving, left.eip, left.esp.trans stack⟩

end Wrapper

end Zeos
