import Zeos.Writing

/-! Texts on the screen: which colours they come out in, and that no sequence of calls
prints beside the screen. -/
namespace Zeos

open Bytes (Memory bytesAt)

variable {s s' : Console} {p : Page} {text : List UInt8} {aux : BufferAux}

namespace Console

/-- A text whose colours fit their bits, or that has no character, is written as it should be. -/
theorem Displays.written {fg bg : Int} (fits : (fg ≤ 15 ∧ bg ≤ 15) ∨ ∀ c ∈ text, c = lineFeed) :
    ∀ {s p}, Displays s p → (s.foreground.toNat : Int) = fg → (s.background.toNat : Int) = bg →
      ∃ s' p', printAll text s = .ok s' ∧ s'.Displays p' ∧ Written fg bg text p p' := by
  induction text with
  | nil => exact fun shown _ _ => ⟨_, _, rfl, shown, .nil⟩
  | cons c text ih =>
    intro s p shown first second
    obtain ⟨middle, printed, next⟩ := shown.printc c
    obtain ⟨-, foreground, background⟩ := printc_keeps printed
    have fits' : (fg ≤ 15 ∧ bg ≤ 15) ∨ ∀ c ∈ text, c = lineFeed :=
      fits.imp_right fun feeds c mem => feeds c (List.mem_cons_of_mem _ mem)
    obtain ⟨s', p', rest, shown', written⟩ := ih fits' next (by rw [foreground, first]) (by rw [background, second])
    refine ⟨s', p', ?_, shown', ?_⟩
    · show Zeos.printc c s >>= printAll text = _
      rw [printed]
      exact rest
    · unfold Page.print at written
      split at written
      next feed =>
        subst feed
        exact .newline written
      next other =>
        have small : fg ≤ 15 ∧ bg ≤ 15 := fits.resolve_right fun feeds => other (feeds c List.mem_cons_self)
        exact .character other (attributed_shows c first second small) written

end Console

/-- No cell can show a colour of more than four bits. -/
theorem Written.fits {fg bg : Int} {p p' : Page} (written : Written fg bg text p p') :
    (fg ≤ 15 ∧ bg ≤ 15) ∨ ∀ c ∈ text, c = lineFeed := by
  induction written with
  | nil => simp
  | newline _ ih => exact ih.imp_right fun feeds => by simpa using feeds
  | character _ shows => exact .inl shows.small

/-- The console behind `set_color(fg, bg)` and `gotoxy(novaX, novaY)`. -/
def Console.prepare (fg bg novaX novaY : Int) (s : Console) : Console :=
  (sysGotoxy novaX novaY (sysSetColor fg bg s).2).2

/-- What a program expects of a text that it writes behind the two calls. -/
def Draws (aux : BufferAux) (fg bg novaX novaY fd : Int) (buffer : DWord) (size : Int) (t : Terminal) : Prop :=
  let s := t.console.prepare fg bg novaX novaY
  ∃ t' p p', sysWrite aux fd buffer size ⟨t.memory, s⟩ = .ok (size, t') ∧ (p.cursor : Int) = novaY * 80 + novaX ∧
    s.Displays p ∧ t'.console.Displays p' ∧ Written fg bg (bytesAt t.memory buffer.toNat size.toNat) p p'

/-- The calls accept what the screen has, and one colour more than there are. -/
theorem sysSetColor_accepts {fg bg : Int} (accepted : 0 ≤ (sysSetColor fg bg s).1) :
    ((sysSetColor fg bg s).2.foreground.toNat : Int) = fg ∧ ((sysSetColor fg bg s).2.background.toNat : Int) = bg := by
  unfold sysSetColor at accepted ⊢
  split at accepted
  · contradiction
  · rw [if_neg ‹_›]
    exact ⟨toNat_ofInt (by omega) (by omega), toNat_ofInt (by omega) (by omega)⟩

theorem sysGotoxy_accepts {novaX novaY : Int} (accepted : 0 ≤ (sysGotoxy novaX novaY s).1) :
    ∃ p : Page, (p.cursor : Int) = novaY * 80 + novaX ∧ (sysGotoxy novaX novaY s).2.Displays p := by
  unfold sysGotoxy at accepted ⊢
  split at accepted
  · contradiction
  · rw [if_neg ‹_›]
    have column := toNat_ofInt (n := novaX) (by omega) (by omega)
    have row := toNat_ofInt (n := novaY) (by omega) (by omega)
    have inside : Console.Inside { s with x := .ofInt novaX, y := .ofInt novaY } := by
      constructor
      · show (UInt8.ofInt novaX).toNat < 80
        omega
      · show (UInt8.ofInt novaY).toNat < 25
        omega
    obtain ⟨p, shown⟩ := inside.displays
    have index : (UInt8.ofInt novaY).toNat * 80 + (UInt8.ofInt novaX).toNat = p.cursor.val := shown.index
    exact ⟨p, by omega, shown⟩

theorem sysGotoxy_colors (novaX novaY : Int) (s : Console) :
    (sysGotoxy novaX novaY s).2.foreground = s.foreground ∧ (sysGotoxy novaX novaY s).2.background = s.background := by
  unfold sysGotoxy
  split <;> exact ⟨rfl, rfl⟩

theorem Draws.fits {fg bg novaX novaY fd size : Int} {buffer : DWord} {t : Terminal}
    (draws : Draws aux fg bg novaX novaY fd buffer size t) :
    (fg ≤ 15 ∧ bg ≤ 15) ∨ ∀ c ∈ bytesAt t.memory buffer.toNat size.toNat, c = lineFeed := by
  obtain ⟨_, _, _, _, _, _, _, written⟩ := draws
  exact written.fits

/-- A refused `gotoxy` leaves the cursor, and all the rest, as it was. -/
theorem sysGotoxy_rejects {novaX novaY : Int} (rejected : (sysGotoxy novaX novaY s).1 < 0) :
    (sysGotoxy novaX novaY s).2 = s := by
  unfold sysGotoxy at rejected ⊢
  split at rejected
  next out => rw [if_pos out]
  next inside => omega

/-- An accepted text is drawn as it should be in every accepted pair of colours that fits
four bits each; in another pair only a text without characters is. -/
theorem sysWrite_draws_iff (aux : BufferAux) (fg bg novaX novaY fd : Int) (buffer : DWord) (size : Int) (t : Terminal)
    (color : 0 ≤ (sysSetColor fg bg t.console).1)
    (place : 0 ≤ (sysGotoxy novaX novaY (sysSetColor fg bg t.console).2).1) (int : IsInt size)
    (accepts : Accepts fd buffer size) :
    Draws aux fg bg novaX novaY fd buffer size t ↔
      (fg ≤ 15 ∧ bg ≤ 15) ∨ ∀ c ∈ bytesAt t.memory buffer.toNat size.toNat, c = lineFeed := by
  constructor
  · exact Draws.fits
  · intro fits
    obtain ⟨first, second⟩ := sysSetColor_accepts color
    obtain ⟨p, cursor, shown⟩ := sysGotoxy_accepts place
    obtain ⟨foreground, background⟩ := sysGotoxy_colors novaX novaY (sysSetColor fg bg t.console).2
    obtain ⟨m', -, run⟩ := sysWrite_eq aux accepts int t.memory
    obtain ⟨s', p', printed, shown', written⟩ := shown.written fits (by rw [foreground, first]) (by rw [background, second])
    refine ⟨⟨m', s'⟩, p, p', ?_, cursor, shown, shown', written⟩
    show sysWrite aux fd buffer size ⟨t.memory, t.console.prepare fg bg novaX novaY⟩ = _
    rw [run]
    show (do
      let s ← printAll (bytesAt t.memory buffer.toNat size.toNat) (t.console.prepare fg bg novaX novaY)
      return (size, (⟨m', s⟩ : Terminal))) = _
    unfold Console.prepare
    rw [printed]
    rfl

/-- `A` in the last column, a line feed and two more letters, in bright white on black. -/
theorem sysWrite_draws_wrapped : Draws ⟨0x20000, by decide⟩ 15 0 79 3 1 0x100000 4
    ⟨fun x => if x = 0x100001 then lineFeed else 65, .boot (.replicate _ 0)⟩ :=
  (sysWrite_draws_iff ⟨0x20000, by decide⟩ 15 0 79 3 1 0x100000 4
    ⟨fun x => if x = 0x100001 then lineFeed else 65, .boot (.replicate _ 0)⟩ (by decide) (by decide) (by decide)
    (by decide)).mpr (.inl (by decide))

/-- The first colour behind the last one is accepted, and no letter comes out in it. -/
theorem sysWrite_draws_seventeenth :
    (sysSetColor 16 0 (.boot (.replicate _ 0))).1 = 0 ∧ Accepts 1 0x100000 1 ∧
      ¬ Draws ⟨0x20000, by decide⟩ 16 0 0 0 1 0x100000 1 ⟨fun _ => 65, .boot (.replicate _ 0)⟩ := by
  refine ⟨by decide, by decide, fun draws => ?_⟩
  rcases draws.fits with small | feeds
  · exact absurd small.1 (by decide)
  · have letter := feeds 65 (List.mem_singleton.mpr rfl)
    contradiction

/-- What reaches the screen, and what the program does to its memory in between. -/
inductive Call where
  | user (memory : Memory)
  | write (fd : Int) (buffer : DWord) (size : Int)
  | gotoxy (novaX novaY : Int)
  | setColor (fg bg : Int)
  | printk (string : List UInt8)
  | printcXy (mx my c : UInt8)

namespace Call

/-- `printc_xy` is given a place on the screen. -/
def Proper : Call → Prop
  | .printcXy mx my _ => mx.toNat < numColumns ∧ my.toNat < numRows
  | _ => True

def run (aux : BufferAux) : Call → Terminal → Except MemFault Terminal
  | .user memory, t => .ok { t with memory := memory }
  | .write fd buffer size, t => do
    let (_, t) ← sysWrite aux fd buffer size t
    return t
  | .gotoxy novaX novaY, t => .ok { t with console := (sysGotoxy novaX novaY t.console).2 }
  | .setColor fg bg, t => .ok { t with console := (sysSetColor fg bg t.console).2 }
  | .printk string, t => do
    let console ← Zeos.printk string t.console
    return { t with console := console }
  | .printcXy mx my c, t => do
    let console ← Zeos.printcXy mx my c t.console
    return { t with console := console }

end Call

/-- Calls one after another. -/
def runCalls (aux : BufferAux) (calls : List Call) (t : Terminal) : Except MemFault Terminal :=
  calls.foldlM (fun t call => call.run aux t) t

/-- The result is there, and the cursor of its console is on the screen. -/
def Lands {α : Type} (console : α → Console) (x : Except MemFault α) : Prop := ∃ a, x = .ok a ∧ (console a).Inside

namespace Lands

variable {α β : Type} {f : α → Console} {g : β → Console}

theorem pure {a : α} (inside : (f a).Inside) : Lands f (.ok a) := ⟨a, rfl, inside⟩

theorem bind {x : Except MemFault α} {next : α → Except MemFault β} (first : Lands f x)
    (second : ∀ a, (f a).Inside → Lands g (next a)) : Lands g (x >>= next) := by
  obtain ⟨a, rfl, inside⟩ := first
  exact second a inside

end Lands

namespace Console.Inside

theorem printc (inside : s.Inside) (c : UInt8) : Lands id (printc c s) := by
  obtain ⟨p, shown⟩ := inside.displays
  obtain ⟨s', printed, shown'⟩ := shown.printc c
  exact ⟨s', printed, shown'.inside⟩

theorem gotoxy (inside : s.Inside) (novaX novaY : Int) : (sysGotoxy novaX novaY s).2.Inside := by
  rcases lt_or_ge (sysGotoxy novaX novaY s).1 0 with rejected | accepted
  · rw [sysGotoxy_rejects rejected]
    exact inside
  · obtain ⟨p, -, shown⟩ := sysGotoxy_accepts accepted
    exact shown.inside

theorem setColor (inside : s.Inside) (fg bg : Int) : (sysSetColor fg bg s).2.Inside := by
  unfold sysSetColor
  split
  · exact inside
  · exact ⟨inside.column, inside.row⟩

theorem printk (inside : s.Inside) (string : List UInt8) : Lands id (printk string s) := by
  induction string generalizing s with
  | nil => exact .pure inside
  | cons c string ih =>
    unfold Zeos.printk
    split
    · exact .pure inside
    · exact (inside.printc c).bind fun _ inside => ih inside

/-- The cursor is put back behind the character, wherever that was. -/
theorem printcXy (inside : s.Inside) {mx my : UInt8} (c : UInt8) (place : mx.toNat < numColumns ∧ my.toNat < numRows) :
    Lands id (printcXy mx my c s) := by
  have there : Console.Inside { s with x := mx, y := my } := ⟨place.1, place.2⟩
  exact (there.printc c).bind fun _ _ => .pure ⟨inside.column, inside.row⟩

theorem writeConsole (m : Memory) (buffer : Nat) (size : Int) (i : Nat) (inside : s.Inside) :
    Lands id (writeConsole m buffer size i s) := by
  induction i, s using writeConsole.induct size with
  | case1 i s more ih =>
    rw [Zeos.writeConsole, if_pos more]
    exact (inside.printc _).bind fun s inside => ih s inside
  | case2 i s done =>
    rw [Zeos.writeConsole, if_neg done]
    exact .pure inside

theorem sysWriteConsole (buffer : Nat) (size : Int) (m : Memory) (inside : s.Inside) :
    Lands Prod.snd (sysWriteConsole buffer size m s) :=
  (inside.writeConsole m buffer size 0).bind fun _ inside => .pure inside

end Console.Inside

namespace Terminal

variable {t : Terminal}

theorem writeChunks (ret : Int) (buffer : DWord) (size : Int) (inside : t.console.Inside) :
    Lands (fun left => left.2.2.2.console) (writeChunks aux ret buffer size t) := by
  induction ret, buffer, size, t using writeChunks.induct aux with
  | case1 ret buffer size t more _ _ copied ih =>
    rw [Zeos.writeChunks, if_pos more, copied]
    exact (inside.sysWriteConsole ..).bind fun printed inside => ih printed.1 printed.2 inside
  | case2 ret buffer size t last =>
    rw [Zeos.writeChunks, if_neg last]
    exact .pure inside

theorem sysWrite (fd : Int) (buffer : DWord) (size : Int) (inside : t.console.Inside) :
    Lands (fun written => written.2.console) (sysWrite aux fd buffer size t) := by
  unfold Zeos.sysWrite
  iterate 4
    split
    · exact .pure inside
  exact (writeChunks _ _ _ inside).bind fun left inside =>
    (inside.sysWriteConsole ..).bind fun printed inside => .pure inside

theorem call {call : Call} (proper : call.Proper) (inside : t.console.Inside) : Lands console (call.run aux t) := by
  cases call with
  | user memory => exact .pure inside
  | write fd buffer size => exact (sysWrite fd buffer size inside).bind fun _ inside => .pure inside
  | gotoxy novaX novaY => exact .pure (inside.gotoxy novaX novaY)
  | setColor fg bg => exact .pure (inside.setColor fg bg)
  | printk string => exact (inside.printk string).bind fun _ inside => .pure inside
  | printcXy mx my c => exact (inside.printcXy c proper).bind fun _ inside => .pure inside

theorem calls {calls : List Call} (proper : ∀ call ∈ calls, call.Proper) (inside : t.console.Inside) :
    Lands console (runCalls aux calls t) := by
  induction calls generalizing t with
  | nil => exact .pure inside
  | cons call calls ih =>
    obtain ⟨first, rest⟩ := List.forall_mem_cons.mp proper
    exact (Terminal.call first inside).bind fun _ inside => ih rest inside

end Terminal

/-- Between any calls behind boot the cursor is on the screen, no store of `printc` has been
beside it (it would be the failure `outside`), and a `gotoxy` that is refused now leaves
the cursor where it is. -/
theorem calls_inside (aux : BufferAux) (screen : Vector Word (numColumns * numRows)) (memory : Memory) (calls : List Call)
    (proper : ∀ call ∈ calls, call.Proper) :
    ∃ t, runCalls aux calls ⟨memory, .boot screen⟩ = .ok t ∧ t.console.Inside ∧
      ∀ novaX novaY, (sysGotoxy novaX novaY t.console).1 < 0 →
        (sysGotoxy novaX novaY t.console).2.x = t.console.x ∧ (sysGotoxy novaX novaY t.console).2.y = t.console.y := by
  have start : (Console.boot screen).Inside := ⟨(by decide : 0 < numColumns), (by decide : 19 < numRows)⟩
  have lands : Lands Terminal.console (runCalls aux calls ⟨memory, .boot screen⟩) := Terminal.calls proper start
  obtain ⟨t, run, inside⟩ := lands
  refine ⟨t, run, inside, fun novaX novaY rejected => ?_⟩
  rw [sysGotoxy_rejects rejected]
  exact ⟨rfl, rfl⟩

/-- A character in the last cell, a text behind it, and one in the corner. -/
theorem calls_inside_corner :
    ∃ t, runCalls ⟨0x20000, by decide⟩ [.gotoxy 79 24, .write 1 0x100000 3000, .printcXy 79 24 65]
      ⟨fun _ => 65, .boot (.replicate _ 0)⟩ = .ok t ∧ t.console.Inside := by
  obtain ⟨t, run, inside, -⟩ := calls_inside ⟨0x20000, by decide⟩ (.replicate _ 0) (fun _ => 65)
    [.gotoxy 79 24, .write 1 0x100000 3000, .printcXy 79 24 65] (by simp [Call.Proper])
  exact ⟨t, run, inside⟩

end Zeos
