import Zeos.Game
import Mathlib.Data.Int.Range

/-! What a round of the game does to the data, and where it may be played: each function of the
game against the pure step it makes. -/
namespace Zeos.Game
open Programs Prog

/-- A cell of the map or of the screen. -/
def Dentro (i j : Int) : Prop := 0 ≤ i ∧ i < ROWS ∧ 0 ≤ j ∧ j < COLS

instance (i j : Int) : Decidable (Dentro i j) := inferInstanceAs (Decidable (_ ∧ _))

theorem dentro_iff {i j : Int} : Dentro i j ↔ 0 ≤ i ∧ i < 25 ∧ 0 ≤ j ∧ j < 80 := Iff.rfl

/-- An access to the map or a movement of the cursor inside `ROWS` × `COLS`. -/
def Op.Dentro : Op → Prop
  | .load (.mapa i j) | .store (.mapa i j) _ => Game.Dentro i j
  | .gotoxy x y => Game.Dentro y x
  | _ => True

/-- The rules of a run that reads the keys `leido`, with every access inside. -/
abbrev reglas (leido : Int × Char) : Rules Op.answer Estado :=
  (handler leido).rules fun o _ => o.Dentro

namespace Mem

@[simp] theorem character_player (m : Mem) : m.character .player = m.player := rfl

@[simp] theorem character_enemigo (m : Mem) (e : Enemigo) : m.character (.enemigo e) = m.enemigo e := rfl

def avanzaProyectil (m : Mem) (i : Int) : Mem :=
  m.setProyectil i { m.proyectiles i with
    x := if (m.proyectiles i).dir = .left then (m.proyectiles i).x - 1 else (m.proyectiles i).x + 1 }

def apagaProyectil (m : Mem) (i : Int) : Mem := m.setProyectil i { m.proyectiles i with activo := 0 }

/-- The cell of a projectile. -/
def celda (m : Mem) (i : Int) : Char := m.mapa (m.proyectiles i).y (m.proyectiles i).x

def alcanza (m : Mem) (i x y : Int) (e : Enemigo) : Mem :=
  if x ≥ (m.enemigo e).x ∧ x < (m.enemigo e).x + sizeXEnemigo ∧ y ≥ (m.enemigo e).y ∧
      y < (m.enemigo e).y + sizeYEnemigo ∧ m.muerto e = 0 then
    { m with muerto := Function.update m.muerto e 1 }.apagaProyectil i
  else m

def chocaProyectil (m : Mem) (i : Int) : Mem := if m.celda i = '0' then m.apagaProyectil i else m

def moverProyectil (m : Mem) (i : Int) : Mem :=
  if (m.proyectiles i).activo = 0 then m
  else
    let m := (m.avanzaProyectil i).chocaProyectil i
    let p := m.proyectiles i
    (m.alcanza i p.x p.y .enemigo1).alcanza i p.x p.y .enemigo2

/-- The first `n` turns of `moverProyectiles`. -/
def moverProyectiles (m : Mem) : Nat → Mem
  | 0 => m
  | n + 1 => (m.moverProyectiles n).moverProyectil n

def giraEnemigo (m : Mem) (e : Enemigo) : Mem :=
  m.setCharacter { m.enemigo e with dir := if (m.enemigo e).dir = .left then .right else .left } (.enemigo e)

def avanzaEnemigo (m : Mem) (e : Enemigo) : Mem :=
  m.setCharacter { m.enemigo e with
    x := if (m.enemigo e).dir = .left then (m.enemigo e).x - 1 else (m.enemigo e).x + 1 } (.enemigo e)

def mueveEnemigos (m : Mem) : Mem :=
  if m.contadorEnemigos ≥ 5 then
    ({ m with contadorEnemigos := 0 }.giraEnemigo .enemigo1).giraEnemigo .enemigo2
  else
    ({ m with contadorEnemigos := m.contadorEnemigos + 1 }.avanzaEnemigo .enemigo1).avanzaEnemigo .enemigo2

def muevePlayer (m : Mem) : Mem :=
  match m.player.state with
  | .stUp => { m with player := { m.player with y := m.player.y - 1 } }
  | .stDown => { m with player := { m.player with y := m.player.y + 1 } }
  | .stLeft => { m with player := { m.player with x := m.player.x - 1 } }
  | .stRight => { m with player := { m.player with x := m.player.x + 1 } }
  | .stStop => m

/-- No cell of the rectangle that lies on the map is a wall. -/
def Libre (m : Mem) (x y sizeX sizeY : Int) : Prop :=
  ∀ i, y ≤ i → i < min (y + sizeY) ROWS → ∀ j, x ≤ j → j < min (x + sizeX) COLS → m.mapa i j ≠ '0'

instance (m : Mem) (x y sizeX sizeY : Int) : Decidable (m.Libre x y sizeX sizeY) :=
  inferInstanceAs (Decidable (∀ i, _ ≤ i → i < _ → ∀ j, _ ≤ j → j < _ → _))

/-- The player where it was, if it stands on a wall. -/
def corrigePlayer (m : Mem) (x y : Int) : Mem :=
  if m.Libre m.player.x m.player.y sizeXDragon sizeYDragon then m
  else { m with player := { m.player with x, y } }

/-- The round of a player that was at `x`, `y`. -/
def rondaPlayer (m : Mem) (x y : Int) : Mem :=
  let m := m.muevePlayer.corrigePlayer x y
  { m with player := { m.player with state := .stStop } }

/-- The player's picture lies on the map. -/
def Encaja (m : Mem) : Prop :=
  0 ≤ m.player.x ∧ m.player.x + sizeXDragon ≤ COLS ∧ 0 ≤ m.player.y ∧ m.player.y + sizeYDragon ≤ ROWS

/-- It lies there a cell away from the edges. -/
def Suelto (m : Mem) : Prop :=
  1 ≤ m.player.x ∧ m.player.x + sizeXDragon < COLS ∧ 1 ≤ m.player.y ∧ m.player.y + sizeYDragon < ROWS

def rondaEnemigos (m : Mem) : Mem :=
  if m.muerto .enemigo1 = 0 ∨ m.muerto .enemigo2 = 0 then m.mueveEnemigos else m

@[simp] theorem setProyectil_self (m : Mem) (i : Int) (p : Proyectil) :
    (m.setProyectil i p).proyectiles i = p := Function.update_self ..

@[simp] theorem avanzaProyectil_enemigo (m : Mem) (i : Int) :
    (m.avanzaProyectil i).enemigo = m.enemigo := rfl

@[simp] theorem chocaProyectil_enemigo (m : Mem) (i : Int) : (m.chocaProyectil i).enemigo = m.enemigo := by
  unfold chocaProyectil
  split <;> rfl

@[simp] theorem alcanza_enemigo (m : Mem) (i x y : Int) (e : Enemigo) :
    (m.alcanza i x y e).enemigo = m.enemigo := by
  unfold alcanza
  split <;> rfl

/-- The projectile that `creaProyectil` puts in place `i`. -/
def dispara (m : Mem) (i : Int) : Mem :=
  m.setProyectil i {
    x := if m.player.dir = .left then m.player.x - 1 else m.player.x + sizeXDragon
    y := m.player.y + 4
    activo := 1
    dir := m.player.dir }

/-- What the collision functions return for a rectangle of `sizeX` × `sizeY` at `x`, `y`. -/
def choque (m : Mem) (x y sizeX sizeY : Int) : Int :=
  solapan m.player.x m.player.y (m.player.x + sizeXDragon - 1) (m.player.y + sizeYDragon - 1)
    x y (x + sizeX - 1) (y + sizeY - 1)

def Alcanzado (m : Mem) (e : Enemigo) : Prop :=
  m.choque (m.enemigo e).x (m.enemigo e).y sizeXEnemigo sizeYEnemigo ≠ 0 ∧ m.muerto e = 0

instance (m : Mem) (e : Enemigo) : Decidable (m.Alcanzado e) := inferInstanceAs (Decidable (_ ∧ _))

def Pierde (m : Mem) : Prop := m.Alcanzado .enemigo1 ∨ m.Alcanzado .enemigo2

instance (m : Mem) : Decidable m.Pierde := inferInstanceAs (Decidable (_ ∨ _))

def Gana (m : Mem) : Prop :=
  m.choque 5 (ROWS - 8) sizeXDiamante sizeYDiamante ≠ 0 ∨
    m.choque 70 (ROWS - 8) sizeXDiamante sizeYDiamante ≠ 0

instance (m : Mem) : Decidable m.Gana := inferInstanceAs (Decidable (_ ∨ _))

end Mem

variable {leido : Int × Char} {s : Estado} {α : Type}

section Loads

variable (i j : Int) (pix : Sprite) (e : Enemigo)

theorem wp_load (l : Loc) (Q : l.type → Estado → Prop) :
    (load l).wp (reglas leido) Q s ↔ (Op.load l).Dentro ∧ Q (s.mem.get l) s :=
  wp_perform ..

@[simp] theorem wp_load_x_player (Q : Int → Estado → Prop) :
    wp (α := Int) (reglas leido) (load (.x .player)) Q s ↔ Q s.mem.player.x s :=
  (wp_load (.x .player) Q).trans (and_iff_right trivial)

@[simp] theorem wp_load_x_enemigo (Q : Int → Estado → Prop) :
    wp (α := Int) (reglas leido) (load (.x (.enemigo e))) Q s ↔ Q (s.mem.enemigo e).x s :=
  (wp_load (.x (.enemigo e)) Q).trans (and_iff_right trivial)

@[simp] theorem wp_load_y_player (Q : Int → Estado → Prop) :
    wp (α := Int) (reglas leido) (load (.y .player)) Q s ↔ Q s.mem.player.y s :=
  (wp_load (.y .player) Q).trans (and_iff_right trivial)

@[simp] theorem wp_load_y_enemigo (Q : Int → Estado → Prop) :
    wp (α := Int) (reglas leido) (load (.y (.enemigo e))) Q s ↔ Q (s.mem.enemigo e).y s :=
  (wp_load (.y (.enemigo e)) Q).trans (and_iff_right trivial)

@[simp] theorem wp_load_state_player (Q : CharacterState → Estado → Prop) :
    wp (α := CharacterState) (reglas leido) (load (.state .player)) Q s ↔ Q s.mem.player.state s :=
  (wp_load (.state .player) Q).trans (and_iff_right trivial)

@[simp] theorem wp_load_dir_player (Q : CharacterDirection → Estado → Prop) :
    wp (α := CharacterDirection) (reglas leido) (load (.dir .player)) Q s ↔ Q s.mem.player.dir s :=
  (wp_load (.dir .player) Q).trans (and_iff_right trivial)

@[simp] theorem wp_load_dir_enemigo (Q : CharacterDirection → Estado → Prop) :
    wp (α := CharacterDirection) (reglas leido) (load (.dir (.enemigo e))) Q s ↔ Q (s.mem.enemigo e).dir s :=
  (wp_load (.dir (.enemigo e)) Q).trans (and_iff_right trivial)

@[simp] theorem wp_load_mapa (Q : Char → Estado → Prop) :
    wp (α := Char) (reglas leido) (load (.mapa i j)) Q s ↔ Dentro i j ∧ Q (s.mem.mapa i j) s :=
  wp_load (.mapa i j) Q

@[simp] theorem wp_load_fg (Q : Int → Estado → Prop) :
    wp (α := Int) (reglas leido) (load (.fg pix i j)) Q s ↔ Q (s.mem.pixels pix i j).fg s :=
  (wp_load (.fg pix i j) Q).trans (and_iff_right trivial)

@[simp] theorem wp_load_bg (Q : Int → Estado → Prop) :
    wp (α := Int) (reglas leido) (load (.bg pix i j)) Q s ↔ Q (s.mem.pixels pix i j).bg s :=
  (wp_load (.bg pix i j) Q).trans (and_iff_right trivial)

@[simp] theorem wp_load_ch (Q : Char → Estado → Prop) :
    wp (α := Char) (reglas leido) (load (.ch pix i j)) Q s ↔ Q (s.mem.pixels pix i j).ch s :=
  (wp_load (.ch pix i j) Q).trans (and_iff_right trivial)

@[simp] theorem wp_load_proyectilX (Q : Int → Estado → Prop) :
    wp (α := Int) (reglas leido) (load (.proyectilX i)) Q s ↔ Q (s.mem.proyectiles i).x s :=
  (wp_load (.proyectilX i) Q).trans (and_iff_right trivial)

@[simp] theorem wp_load_proyectilY (Q : Int → Estado → Prop) :
    wp (α := Int) (reglas leido) (load (.proyectilY i)) Q s ↔ Q (s.mem.proyectiles i).y s :=
  (wp_load (.proyectilY i) Q).trans (and_iff_right trivial)

@[simp] theorem wp_load_proyectilActivo (Q : Int → Estado → Prop) :
    wp (α := Int) (reglas leido) (load (.proyectilActivo i)) Q s ↔ Q (s.mem.proyectiles i).activo s :=
  (wp_load (.proyectilActivo i) Q).trans (and_iff_right trivial)

@[simp] theorem wp_load_proyectilDir (Q : CharacterDirection → Estado → Prop) :
    wp (α := CharacterDirection) (reglas leido) (load (.proyectilDir i)) Q s ↔ Q (s.mem.proyectiles i).dir s :=
  (wp_load (.proyectilDir i) Q).trans (and_iff_right trivial)

@[simp] theorem wp_load_muerto (Q : Int → Estado → Prop) :
    wp (α := Int) (reglas leido) (load (.muerto e)) Q s ↔ Q (s.mem.muerto e) s :=
  (wp_load (.muerto e) Q).trans (and_iff_right trivial)

@[simp] theorem wp_load_gameThreadMuerto (Q : Int → Estado → Prop) :
    wp (α := Int) (reglas leido) (load .gameThreadMuerto) Q s ↔ Q s.mem.gameThreadMuerto s :=
  (wp_load .gameThreadMuerto Q).trans (and_iff_right trivial)

@[simp] theorem wp_load_contadorEnemigos (Q : Int → Estado → Prop) :
    wp (α := Int) (reglas leido) (load .contadorEnemigos) Q s ↔ Q s.mem.contadorEnemigos s :=
  (wp_load .contadorEnemigos Q).trans (and_iff_right trivial)

end Loads

@[simp] theorem wp_store (l : Loc) (v : l.type) (Q : Unit → Estado → Prop) :
    (store l v).wp (reglas leido) Q s ↔ (Op.store l v).Dentro ∧ Q () { s with mem := s.mem.set l v } :=
  wp_perform ..

@[simp] theorem wp_gotoxy (x y : Int) (Q : Unit → Estado → Prop) :
    (gotoxy x y).wp (reglas leido) Q s ↔ Dentro y x ∧ Q () s :=
  wp_perform ..

@[simp] theorem wp_pintaCelda (celda : Char) (Q : Unit → Estado → Prop) :
    (pintaCelda celda).wp (reglas leido) Q s ↔ Q () s := by
  simp [pintaCelda, colorCelda, setColor, write, Op.Dentro, handler]

/-- A loop all of whose turns leave the state as they find it. -/
theorem wp_bucle {body : Int → Code Unit} {a b : Int} {Q : Unit → Estado → Prop}
    (turn : ∀ i, a ≤ i → i < b → (body i).wp (reglas leido) (fun _ s' => s' = s) s) (last : Q () s) :
    (loop body (turns a b) a).wp (reglas leido) Q s := by
  have all := wp_loop (R := reglas leido) (s := s) (n := turns a b) (a := a) (p := body)
    (fun _ s' => s' = s) (by
      intro i s' low high same
      subst same
      simp only [turns] at high
      exact turn i low (by omega)) rfl
  apply wp_mono _ all
  intro _ s' same
  exact same ▸ last

theorem wp_pintaTrozoMapa {x y sizeX sizeY : Int} {Q : Unit → Estado → Prop} (left : 0 ≤ x) (top : 0 ≤ y)
    (last : Q () s) : (pintaTrozoMapa x y sizeX sizeY).wp (reglas leido) Q s := by
  apply wp_bucle _ last
  intro i low high
  apply wp_bucle _ rfl
  intro j first final
  have inside : Dentro i j := by
    unfold Dentro
    omega
  simp [inside]

theorem wp_pintaPunto {x0 y0 i j k : Int} {pix : Sprite} {Q : Unit → Estado → Prop}
    (inside : Dentro (y0 + i) (x0 + j)) (last : Q () s) :
    (pintaPunto x0 y0 pix i j k).wp (reglas leido) Q s := by
  simpa [pintaPunto, inside, setColor, write, Op.Dentro, handler] using last

theorem wp_pintaPixel {x0 y0 sizeX sizeY : Int} {pix : Sprite} {Q : Unit → Estado → Prop}
    (left : 0 ≤ x0) (right : x0 + sizeX ≤ COLS) (top : 0 ≤ y0) (bottom : y0 + sizeY ≤ ROWS)
    (last : Q () s) : (pintaPixel x0 y0 sizeX sizeY pix).wp (reglas leido) Q s := by
  apply wp_bucle _ last
  intro i low high
  apply wp_bucle _ rfl
  intro j first final
  apply wp_pintaPunto _ rfl
  unfold Dentro
  omega

theorem wp_pintaDragonIzquierda {x0 y0 : Int} {Q : Unit → Estado → Prop}
    (left : 0 ≤ x0) (right : x0 + sizeXDragon ≤ COLS) (top : 0 ≤ y0) (bottom : y0 + sizeYDragon ≤ ROWS)
    (last : Q () s) : (pintaDragonIzquierda x0 y0).wp (reglas leido) Q s := by
  apply wp_bucle _ last
  intro i low high
  apply wp_bucle _ rfl
  intro j first final
  apply wp_pintaPunto _ rfl
  unfold Dentro
  omega

theorem wp_avanzaProyectil (i : Int) (Q : Unit → Estado → Prop) :
    (avanzaProyectil i).wp (reglas leido) Q s ↔ Q () { s with mem := s.mem.avanzaProyectil i } := by
  simp [avanzaProyectil, Mem.set, Mem.avanzaProyectil, Op.Dentro]

theorem wp_pintaProyectil {i : Int} {Q : Unit → Estado → Prop}
    (inside : Dentro (s.mem.proyectiles i).y (s.mem.proyectiles i).x)
    (last : Q () { s with mem := s.mem.chocaProyectil i }) :
    (pintaProyectil i).wp (reglas leido) Q s := by
  by_cases wall : s.mem.celda i = '0'
  · have wall' := wall
    simp only [Mem.celda] at wall'
    simpa [pintaProyectil, inside, wall', Mem.set, Op.Dentro, Mem.chocaProyectil, wall,
      Mem.apagaProyectil] using last
  · have wall' := wall
    simp only [Mem.celda] at wall'
    simpa [pintaProyectil, inside, wall', Op.Dentro, Mem.chocaProyectil, wall, setColor, write,
      handler] using last

theorem wp_alcanza {i x y : Int} {e : Enemigo} {Q : Unit → Estado → Prop}
    (left : 0 ≤ (s.mem.enemigo e).x) (top : 0 ≤ (s.mem.enemigo e).y)
    (last : Q () { s with mem := s.mem.alcanza i x y e }) : (alcanza i x y e).wp (reglas leido) Q s := by
  simp only [Mem.alcanza] at last
  simp only [alcanza, wp_bind, wp_load_x_enemigo, wp_load_y_enemigo, wp_load_muerto, wp_ite]
  split at last
  next hit =>
    rw [if_pos hit]
    simp only [wp_store, Mem.set, Op.Dentro, true_and]
    exact wp_pintaTrozoMapa left top last
  next missed => rwa [if_neg missed]

theorem wp_moverProyectil {i : Int} {Q : Unit → Estado → Prop}
    (inside : (s.mem.proyectiles i).activo ≠ 0 → 1 ≤ (s.mem.proyectiles i).x ∧
      (s.mem.proyectiles i).x ≤ COLS - 2 ∧ 0 ≤ (s.mem.proyectiles i).y ∧ (s.mem.proyectiles i).y < ROWS)
    (enemies : ∀ e, 0 ≤ (s.mem.enemigo e).x ∧ 0 ≤ (s.mem.enemigo e).y)
    (last : Q () { s with mem := s.mem.moverProyectil i }) : (moverProyectil i).wp (reglas leido) Q s := by
  by_cases off : (s.mem.proyectiles i).activo = 0
  · simpa [moverProyectil, off, Mem.moverProyectil] using last
  · obtain ⟨left, right, top, bottom⟩ := inside off
    have here : Dentro (s.mem.proyectiles i).y (s.mem.proyectiles i).x := by
      unfold Dentro
      omega
    simp only [Mem.moverProyectil, off, if_false] at last
    simp only [moverProyectil, wp_bind, wp_load_proyectilActivo, wp_ite, ne_eq, off, not_false_eq_true,
      if_true, wp_load_proyectilX, wp_load_proyectilY, wp_gotoxy, here, wp_load_mapa, wp_pintaCelda,
      wp_avanzaProyectil, true_and]
    apply wp_pintaProyectil
    · simp only [Mem.avanzaProyectil, Mem.setProyectil_self, Dentro]
      split <;> omega
    · apply wp_alcanza (by simpa using (enemies .enemigo1).1) (by simpa using (enemies .enemigo1).2)
      apply wp_alcanza (by simpa using (enemies .enemigo2).1) (by simpa using (enemies .enemigo2).2)
      exact last

@[simp] theorem wp_giraEnemigo (e : Enemigo) (Q : Unit → Estado → Prop) :
    (giraEnemigo e).wp (reglas leido) Q s ↔ Q () { s with mem := s.mem.giraEnemigo e } := by
  simp [giraEnemigo, Mem.giraEnemigo, Mem.set, Op.Dentro]

@[simp] theorem wp_avanzaEnemigo (e : Enemigo) (Q : Unit → Estado → Prop) :
    (avanzaEnemigo e).wp (reglas leido) Q s ↔ Q () { s with mem := s.mem.avanzaEnemigo e } := by
  simp [avanzaEnemigo, Mem.avanzaEnemigo, Mem.set, Op.Dentro]

@[simp] theorem Mem.mueveEnemigos_player (m : Mem) : m.mueveEnemigos.player = m.player := by
  unfold Mem.mueveEnemigos
  split <;> rfl

@[simp] theorem Mem.mueveEnemigos_mapa (m : Mem) : m.mueveEnemigos.mapa = m.mapa := by
  unfold Mem.mueveEnemigos
  split <;> rfl

@[simp] theorem Mem.mueveEnemigos_proyectiles (m : Mem) : m.mueveEnemigos.proyectiles = m.proyectiles := by
  unfold Mem.mueveEnemigos
  split <;> rfl

@[simp] theorem wp_mueveEnemigos (Q : Unit → Estado → Prop) :
    mueveEnemigos.wp (reglas leido) Q s ↔ Q () { s with mem := s.mem.mueveEnemigos } := by
  by_cases turn : s.mem.contadorEnemigos ≥ 5 <;>
    simp [mueveEnemigos, turn, Mem.set, Op.Dentro, Mem.mueveEnemigos]

@[simp] theorem wp_muevePlayer (Q : Unit → Estado → Prop) :
    muevePlayer.wp (reglas leido) Q s ↔ Q () { s with mem := s.mem.muevePlayer } := by
  cases state : s.mem.player.state <;>
    simp [muevePlayer, Mem.muevePlayer, state, Mem.set, Mem.setCharacter, Op.Dentro]

theorem wp_posicionValida {x y sizeX sizeY : Int} {Q : Int → Estado → Prop} (left : 0 ≤ x) (top : 0 ≤ y)
    (free : s.mem.Libre x y sizeX sizeY → Q 1 s) (taken : ¬s.mem.Libre x y sizeX sizeY → Q 0 s) :
    (posicionValida x y sizeX sizeY).wp (reglas leido) Q s := by
  let bottom := min (y + sizeY) ROWS
  let right := min (x + sizeX) COLS
  simp only [posicionValida, wp_bind, wp_pure]
  apply wp_search fun i s' => s' = s ∧ ∀ i', y ≤ i' → i' < i → i' < bottom →
    ∀ j, x ≤ j → j < right → s.mem.mapa i' j ≠ '0'
  · rintro i s' low high ⟨rfl, above⟩
    have row : i < bottom := by
      simp only [turns] at high
      omega
    apply wp_search fun j t => t = s' ∧ ∀ j', x ≤ j' → j' < j → j' < right → s'.mem.mapa i j' ≠ '0'
    · rintro j t first final ⟨rfl, before⟩
      have column : j < right := by
        simp only [turns] at final
        omega
      have inside : Dentro i j := by
        simp only [Dentro]
        omega
      by_cases wall : t.mem.mapa i j = '0'
      · simp only [wp_bind, wp_load_mapa, inside, wall, wp_ite, if_true, wp_pure, reduceCtorEq, if_false,
          Option.getD_some, true_and]
        apply taken
        intro free
        exact free i low row j first column wall
      · simp only [wp_bind, wp_load_mapa, inside, wall, wp_ite, if_false, wp_pure, if_true, true_and]
        intro j' from_ upto bound
        by_cases same : j' = j
        · exact same ▸ wall
        · exact before j' from_ (by omega) bound
    · rintro t ⟨rfl, all⟩
      simp only [if_true, true_and]
      intro i' from_ upto bound j first final
      by_cases same : i' = i
      · subst same
        exact all j first (by simp only [turns]; omega) final
      · exact above i' from_ (by omega) bound j first final
    · exact ⟨rfl, fun j' first before => by omega⟩
  · rintro t ⟨rfl, all⟩
    apply free
    intro i low high j first final
    exact all i low (by simp only [turns]; omega) high j first final
  · exact ⟨rfl, fun i' low above => by omega⟩

theorem wp_corrigePlayer {ant : Anteriores} {Q : Unit → Estado → Prop} (left : 0 ≤ s.mem.player.x)
    (top : 0 ≤ s.mem.player.y)
    (last : Q () { s with mem := s.mem.corrigePlayer ant.xAntPlayer ant.yAntPlayer }) :
    (corrigePlayer ant).wp (reglas leido) Q s := by
  simp only [corrigePlayer, wp_bind, wp_load_x_player, wp_load_y_player]
  apply wp_posicionValida left top
  · intro free
    simpa [Mem.corrigePlayer, free] using last
  · intro taken
    simpa [Mem.corrigePlayer, taken, Mem.set, Mem.setCharacter, Op.Dentro] using last

theorem wp_pintaPlayer {Q : Unit → Estado → Prop} (left : 0 ≤ s.mem.player.x)
    (right : s.mem.player.x + sizeXDragon ≤ COLS) (top : 0 ≤ s.mem.player.y)
    (bottom : s.mem.player.y + sizeYDragon ≤ ROWS) (last : Q () s) :
    pintaPlayer.wp (reglas leido) Q s := by
  simp only [pintaPlayer, wp_bind, wp_load_dir_player, wp_load_x_player, wp_load_y_player, wp_ite]
  split
  · exact wp_pintaPixel left right top bottom last
  · exact wp_pintaDragonIzquierda left right top bottom last

/-- A player that stood a cell away from the edges is still on the map. -/
theorem Mem.muevePlayer_fits {m : Mem} (loose : m.Suelto) : m.muevePlayer.Encaja := by
  simp only [Mem.Suelto, ROWS, COLS, sizeXDragon, sizeYDragon] at loose
  unfold Mem.muevePlayer
  split <;> simp only [Mem.Encaja, ROWS, COLS, sizeXDragon, sizeYDragon] <;> omega

theorem Mem.corrigePlayer_fits {m : Mem} {x y : Int} (fits : m.Encaja)
    (before : { m with player := { m.player with x, y } }.Encaja) : (m.corrigePlayer x y).Encaja := by
  unfold Mem.corrigePlayer
  split
  · exact fits
  · exact before

@[simp] theorem Mem.muevePlayer_back (m : Mem) (x y : Int) :
    ({ m.muevePlayer with player := { m.muevePlayer.player with x, y } } : Mem) =
      { m with player := { m.player with x, y } } := by
  unfold Mem.muevePlayer
  split <;> rfl

/-- A player that stands a cell away from the edges may be moved and painted. -/
theorem wp_rondaPlayer {ant : Anteriores} {Q : Anteriores → Estado → Prop}
    (atX : ant.xAntPlayer = s.mem.player.x) (atY : ant.yAntPlayer = s.mem.player.y) (loose : s.mem.Suelto)
    (last : let m := s.mem.rondaPlayer s.mem.player.x s.mem.player.y
      Q { ant with xAntPlayer := m.player.x, yAntPlayer := m.player.y } { s with mem := m }) :
    (rondaPlayer ant).wp (reglas leido) Q s := by
  have fits : s.mem.Encaja := by
    unfold Mem.Suelto at loose
    unfold Mem.Encaja
    omega
  have moved := Mem.muevePlayer_fits loose
  have here : Dentro ant.yAntPlayer ant.xAntPlayer := by
    rw [atX, atY]
    simp only [Mem.Suelto, sizeXDragon, sizeYDragon] at loose
    unfold Dentro
    omega
  simp only [rondaPlayer, wp_bind, wp_gotoxy, here, true_and]
  apply wp_pintaTrozoMapa here.2.2.1 here.1
  rw [wp_muevePlayer]
  apply wp_corrigePlayer moved.1 moved.2.2.1
  rw [atX, atY]
  have final : (s.mem.muevePlayer.corrigePlayer s.mem.player.x s.mem.player.y).Encaja := by
    apply Mem.corrigePlayer_fits moved
    rw [Mem.muevePlayer_back]
    exact fits
  apply wp_pintaPlayer
  · exact final.1
  · exact final.2.1
  · exact final.2.2.1
  · exact final.2.2.2
  · simp only [wp_load_x_player, wp_load_y_player, wp_store, Op.Dentro, true_and, wp_pure]
    exact last

/-- What `gameThread` remembers of the round before: where the player is, and cells of the map
for the enemies. -/
structure Anteriores.Cerca (ant : Anteriores) (m : Mem) : Prop where
  x : ant.xAntPlayer = m.player.x
  y : ant.yAntPlayer = m.player.y
  enemies : ∀ e, Dentro (ant.yAntEnemigo e) (ant.xAntEnemigo e)

/-- An enemy whose picture lies on the map. -/
def Character.Cabe (c : Character) : Prop :=
  0 ≤ c.x ∧ c.x + sizeXEnemigo ≤ COLS ∧ 0 ≤ c.y ∧ c.y + sizeYEnemigo ≤ ROWS

theorem wp_borraYPintaEnemigo {ant : Anteriores} {e : Enemigo} {Q : Anteriores → Estado → Prop}
    (near : ant.Cerca s.mem) (fits : (s.mem.enemigo e).Cabe) (last : ∀ ant', ant'.Cerca s.mem → Q ant' s) :
    (borraYPintaEnemigo ant e).wp (reglas leido) Q s := by
  simp only [borraYPintaEnemigo, wp_bind, wp_load_muerto, wp_ite, wp_gotoxy, near.enemies e, true_and, wp_pure]
  split
  · apply wp_pintaTrozoMapa (near.enemies e).2.2.1 (near.enemies e).1
    simp only [wp_load_x_enemigo, wp_load_y_enemigo]
    apply wp_pintaPixel fits.1 fits.2.1 fits.2.2.1 fits.2.2.2
    apply last
    refine ⟨near.x, near.y, ?_⟩
    intro f
    by_cases same : f = e
    · subst same
      simp only [Function.update_self, Dentro]
      simp only [Character.Cabe, sizeXEnemigo, sizeYEnemigo] at fits
      omega
    · simpa [Function.update_of_ne same] using near.enemies f
  · exact last ant near

theorem wp_rondaEnemigos {ant : Anteriores} {Q : Anteriores → Estado → Prop} (near : ant.Cerca s.mem)
    (fits : ∀ e, (s.mem.rondaEnemigos.enemigo e).Cabe)
    (last : ∀ ant', ant'.Cerca s.mem.rondaEnemigos → Q ant' { s with mem := s.mem.rondaEnemigos }) :
    (rondaEnemigos ant).wp (reglas leido) Q s := by
  simp only [rondaEnemigos, wp_bind, wp_load_muerto, wp_ite, wp_mueveEnemigos, wp_pure]
  by_cases alive : s.mem.muerto .enemigo1 = 0 ∨ s.mem.muerto .enemigo2 = 0
  · simp only [Mem.rondaEnemigos, alive, if_true] at fits last ⊢
    have near' : ant.Cerca s.mem.mueveEnemigos := by
      refine ⟨?_, ?_, near.enemies⟩
      · rw [near.x, Mem.mueveEnemigos_player]
      · rw [near.y, Mem.mueveEnemigos_player]
    apply wp_borraYPintaEnemigo near' (fits .enemigo1)
    intro ant1 near1
    exact wp_borraYPintaEnemigo near1 (fits .enemigo2) last
  · simp only [Mem.rondaEnemigos, alive, if_false] at last ⊢
    exact last ant near

@[simp] theorem wp_hayColisionEnemigo (numEnemigo : Int) (Q : Int → Estado → Prop) :
    (hayColisionEnemigo numEnemigo).wp (reglas leido) Q s ↔
      let e := s.mem.enemigo (if numEnemigo = 2 then .enemigo2 else .enemigo1)
      Q (s.mem.choque e.x e.y sizeXEnemigo sizeYEnemigo) s := by
  simp [hayColisionEnemigo, Mem.choque]

@[simp] theorem wp_hayColisionDiamante (dx1 dy1 : Int) (Q : Int → Estado → Prop) :
    (hayColisionDiamante dx1 dy1).wp (reglas leido) Q s ↔
      Q (s.mem.choque dx1 dy1 sizeXDiamante sizeYDiamante) s := by
  simp [hayColisionDiamante, Mem.choque]

@[simp] theorem wp_pierde (Q : Bool → Estado → Prop) :
    pierde.wp (reglas leido) Q s ↔ Q (decide s.mem.Pierde) s := by
  simp only [pierde, wp_bind, wp_hayColisionEnemigo, wp_load_muerto, wp_pure, Mem.Pierde, Mem.Alcanzado]
  exact Iff.rfl

@[simp] theorem wp_gana (Q : Bool → Estado → Prop) :
    gana.wp (reglas leido) Q s ↔ Q (decide s.mem.Gana) s := by
  simp only [gana, wp_bind, wp_hayColisionDiamante, wp_pure]
  exact Iff.rfl

/-- The state in which `gameThread` ends: the flag set and every block freed. -/
def Estado.acabado (s : Estado) : Estado :=
  { s with
    mem := { s.mem with gameThreadMuerto := 1 }
    libres := [.proyectiles, .sprite .loser, .sprite .winner, .sprite .diamante, .sprite .enemigo,
      .sprite .dragon, .mapa, .character (.enemigo .enemigo2), .character (.enemigo .enemigo1),
      .character .player] ++ s.libres }

theorem wp_acaba {x0 y0 sizeX sizeY : Int} {titulo : Sprite} {Q : Punto → Estado → Prop}
    (left : 0 ≤ x0) (right : x0 + sizeX ≤ COLS) (top : 0 ≤ y0) (bottom : y0 + sizeY ≤ ROWS)
    (last : Q .fin s.acabado) : (acaba x0 y0 sizeX sizeY titulo).wp (reglas leido) Q s := by
  simp only [acaba, wp_bind]
  apply wp_pintaPixel left right top bottom
  simpa [liberaRecursos, free, Op.Dentro, handler, Mem.set, Estado.acabado] using last

theorem wp_finRonda {ant : Anteriores} {Q : Punto → Estado → Prop}
    (goes : ¬s.mem.Pierde → ¬s.mem.Gana → Q (.bucleGame ant) s)
    (ends : s.mem.Pierde ∨ s.mem.Gana → Q .fin s.acabado) : (finRonda ant).wp (reglas leido) Q s := by
  simp only [finRonda, wp_bind, wp_pierde, wp_ite, wp_gana, decide_eq_true_eq, wp_pure]
  split
  next lost => exact wp_acaba (by decide) (by decide) (by decide) (by decide) (ends (.inl lost))
  next playing =>
    split
    next won => exact wp_acaba (by decide) (by decide) (by decide) (by decide) (ends (.inr won))
    next waiting => exact goes playing waiting

theorem Mem.dispara_eq (m : Mem) (i : Int) :
    (((m.set (.proyectilX i) (if m.player.dir = .left then m.player.x - 1 else m.player.x + sizeXDragon)).set
      (.proyectilY i) (m.player.y + 4)).set (.proyectilDir i) m.player.dir).set (.proyectilActivo i) 1 =
      m.dispara i := by
  simp [Mem.set, Mem.setProyectil, Mem.dispara]

/-- The shot goes to a place that is free, or nowhere. -/
theorem wp_creaProyectil {Q : Unit → Estado → Prop}
    (fires : ∀ i, 0 ≤ i → i < MAX_PROYECTILES → (s.mem.proyectiles i).activo = 0 →
      Q () { s with mem := s.mem.dispara i })
    (none : Q () s) : creaProyectil.wp (reglas leido) Q s := by
  simp only [creaProyectil, wp_bind, wp_pure]
  apply wp_search fun _ s' => s' = s
  · intro i s' low high same
    rw [same]
    have bound : i < MAX_PROYECTILES := by
      simp only [turns] at high
      omega
    by_cases free : (s.mem.proyectiles i).activo = 0
    · have fired := fires i low bound free
      rw [← Mem.dispara_eq] at fired
      simp only [wp_bind, wp_load_proyectilActivo, free, wp_ite, if_true, wp_load_dir_player, wp_load_x_player,
        wp_store, Op.Dentro, true_and, wp_load_y_player, wp_pure, reduceCtorEq, if_false]
      exact fired
    · simp [free]
  · intro s' same
    rw [same]
    exact none
  · rfl

theorem wp_tecla {c : Char} {Q : Unit → Estado → Prop}
    (turns : ∀ state dir, Q () { s with mem := { s.mem with player := { s.mem.player with state, dir } } })
    (fires : ∀ i, 0 ≤ i → i < MAX_PROYECTILES → (s.mem.proyectiles i).activo = 0 →
      Q () { s with mem := s.mem.dispara i })
    (none : Q () s) : (tecla c).wp (reglas leido) Q s := by
  have moves (state : CharacterState) := turns state s.mem.player.dir
  simp only [tecla, wp_ite, wp_bind, wp_store, Op.Dentro, true_and]
  split
  · exact moves _
  split
  · exact moves _
  split
  · exact turns _ _
  split
  · exact turns _ _
  split
  · exact wp_creaProyectil fires none
  · exact moves _

end Zeos.Game
