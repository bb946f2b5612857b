import Zeos.Board

/-! Whole games. The handlers of a key, of a tick of `main` and of a round run to their ends, in
any order that the semaphore admits, until the game ends. Nothing in them compares a coordinate
with zero: what keeps them inside is that the dragon stands on free cells, which the border
keeps a cell away from the edges, that a projectile is put out by the first wall, and that the
enemies turn round every five rounds. -/
namespace Zeos.Game
open Programs Prog

theorem casilla_inner {i j : Int} (free : casilla i j ≠ '0') :
    1 ≤ i ∧ i < 24 ∧ 2 ≤ j ∧ j < 78 ∧ casilla i j = '1' := by
  unfold casilla at free ⊢
  simp only [ROWS, COLS] at free ⊢
  split at free
  · contradiction
  next inner =>
    refine ⟨by omega, by omega, by omega, by omega, if_neg inner⟩

/-- The column where an enemy's patrol begins. -/
def patrulla : Enemigo → Int
  | .enemigo1 => 13
  | .enemigo2 => 55

/-- A projectile away from the side edges, on a row of the map. -/
def Proyectil.EnVuelo (p : Proyectil) : Prop := 1 ≤ p.x ∧ p.x ≤ COLS - 2 ∧ 0 ≤ p.y ∧ p.y < ROWS

/-- An enemy on its patrol, `contador` rounds after it last turned. -/
def Character.Patrulla (c : Character) (inicio contador : Int) : Prop :=
  c.y = ROWS - 9 ∧ c.x = if c.dir = .left then inicio + 5 - contador else inicio + contador

/-- The cell of row `i` and column `j` is under the dragon. -/
def Mem.BajoDragon (m : Mem) (i j : Int) : Prop :=
  m.player.y ≤ i ∧ i < m.player.y + sizeYDragon ∧ m.player.x ≤ j ∧ j < m.player.x + sizeXDragon

/-- What holds between two rounds. -/
structure Mem.Valida (m : Mem) : Prop where
  mapa : ∀ i j, Dentro i j → m.mapa i j = casilla i j
  dragon : ∀ i j, m.BajoDragon i j → Dentro i j ∧ m.mapa i j = '1'
  proyectiles : ∀ i, 0 ≤ i → i < MAX_PROYECTILES → (m.proyectiles i).activo ≠ 0 → (m.proyectiles i).EnVuelo
  contador : 0 ≤ m.contadorEnemigos ∧ m.contadorEnemigos ≤ 5
  enemigos : ∀ e, (m.enemigo e).Patrulla (patrulla e) m.contadorEnemigos

namespace Mem

variable {m m' : Mem} {i : Int} {e : Enemigo}

/-- The free cells keep the dragon inside the border. -/
theorem Valida.place (valid : m.Valida) :
    2 ≤ m.player.x ∧ m.player.x + 10 ≤ 78 ∧ 1 ≤ m.player.y ∧ m.player.y + 8 ≤ 24 := by
  have corner (i j : Int) (under : m.BajoDragon i j) : 1 ≤ i ∧ i < 24 ∧ 2 ≤ j ∧ j < 78 := by
    obtain ⟨inside, one⟩ := valid.dragon i j under
    have free : casilla i j ≠ '0' := by
      rw [← valid.mapa i j inside, one]
      decide
    have inner := casilla_inner free
    omega
  have first := corner m.player.y m.player.x (by simp [BajoDragon, sizeXDragon, sizeYDragon])
  have last := corner (m.player.y + 7) (m.player.x + 9) (by simp [BajoDragon, sizeXDragon, sizeYDragon])
  omega

theorem Valida.suelto (valid : m.Valida) : m.Suelto := by
  have place := valid.place
  simp only [Suelto, COLS, ROWS, sizeXDragon, sizeYDragon]
  omega

theorem Valida.cabe (valid : m.Valida) (e : Enemigo) : (m.enemigo e).Cabe := by
  obtain ⟨row, column⟩ := valid.enemigos e
  have bounds := valid.contador
  simp only [Character.Cabe, sizeXEnemigo, sizeYEnemigo, ROWS, COLS] at row ⊢
  split at column <;> cases e <;> simp only [patrulla] at column <;> omega

/-- What may happen to projectiles and enemies besides a projectile's move: nothing is put back
in flight, and a projectile still in flight is as it was. -/
structure Apaga (m m' : Mem) : Prop where
  player : m'.player = m.player
  mapa : m'.mapa = m.mapa
  enemigo : m'.enemigo = m.enemigo
  contador : m'.contadorEnemigos = m.contadorEnemigos
  flag : m'.gameThreadMuerto = m.gameThreadMuerto
  proyectiles : ∀ i, (m'.proyectiles i).activo ≠ 0 → m'.proyectiles i = m.proyectiles i

theorem Apaga.refl (m : Mem) : m.Apaga m := ⟨rfl, rfl, rfl, rfl, rfl, fun _ _ => rfl⟩

theorem Apaga.trans {m'' : Mem} (first : m.Apaga m') (second : m'.Apaga m'') : m.Apaga m'' where
  player := second.player.trans first.player
  mapa := second.mapa.trans first.mapa
  enemigo := second.enemigo.trans first.enemigo
  contador := second.contador.trans first.contador
  flag := second.flag.trans first.flag
  proyectiles := by
    intro i active
    have same := second.proyectiles i active
    rw [same]
    exact first.proyectiles i (same ▸ active)

theorem apagaProyectil_apaga (m : Mem) (i : Int) : m.Apaga (m.apagaProyectil i) := by
  refine ⟨rfl, rfl, rfl, rfl, rfl, ?_⟩
  intro k active
  by_cases same : k = i
  · subst same
    simp [apagaProyectil] at active
  · simp [apagaProyectil, setProyectil, Function.update_of_ne same]

theorem chocaProyectil_apaga (m : Mem) (i : Int) : m.Apaga (m.chocaProyectil i) := by
  unfold chocaProyectil
  split
  · exact apagaProyectil_apaga m i
  · exact Apaga.refl m

theorem alcanza_apaga (m : Mem) (i x y : Int) (e : Enemigo) : m.Apaga (m.alcanza i x y e) := by
  unfold alcanza
  split
  · obtain ⟨player, mapa, enemigo, contador, flag, proyectiles⟩ :=
      apagaProyectil_apaga { m with muerto := Function.update m.muerto e 1 } i
    exact ⟨player, mapa, enemigo, contador, flag, proyectiles⟩
  · exact Apaga.refl m

/-- A projectile that a wall has not put out is not on one. -/
theorem chocaProyectil_free (active : ((m.chocaProyectil i).proyectiles i).activo ≠ 0) : m.celda i ≠ '0' := by
  intro wall
  simp [chocaProyectil, wall, apagaProyectil] at active

/-- Projectiles may change as long as those in flight are where they may fly. -/
theorem Valida.vuelan (valid : m.Valida) (player : m'.player = m.player) (mapa : m'.mapa = m.mapa)
    (enemigo : m'.enemigo = m.enemigo) (contador : m'.contadorEnemigos = m.contadorEnemigos)
    (flying : ∀ i, 0 ≤ i → i < MAX_PROYECTILES → (m'.proyectiles i).activo ≠ 0 → (m'.proyectiles i).EnVuelo) :
    m'.Valida where
  mapa := by
    rw [mapa]
    exact valid.mapa
  dragon := by
    simp only [BajoDragon, player, mapa]
    exact valid.dragon
  proyectiles := flying
  contador := by
    rw [contador]
    exact valid.contador
  enemigos := by
    rw [enemigo, contador]
    exact valid.enemigos

theorem Valida.apaga (valid : m.Valida) (off : m.Apaga m') : m'.Valida := by
  apply valid.vuelan off.player off.mapa off.enemigo off.contador
  intro i low high active
  have same := off.proyectiles i active
  rw [same]
  exact valid.proyectiles i low high (same ▸ active)

/-- The cell a projectile moves to is on the map, and off its edge unless it is a wall. -/
theorem Valida.avanza (valid : m.Valida) (low : 0 ≤ i) (high : i < MAX_PROYECTILES)
    (active : (m.proyectiles i).activo ≠ 0) (free : (m.avanzaProyectil i).celda i ≠ '0') :
    ((m.avanzaProyectil i).proyectiles i).EnVuelo := by
  have inside := valid.proyectiles i low high active
  simp only [celda, avanzaProyectil, setProyectil_self] at free ⊢
  simp only [Proyectil.EnVuelo, COLS, ROWS] at inside ⊢
  have cell := valid.mapa (m.proyectiles i).y
    (if (m.proyectiles i).dir = .left then (m.proyectiles i).x - 1 else (m.proyectiles i).x + 1) (by
      rw [dentro_iff]
      split <;> omega)
  change m.mapa _ _ ≠ '0' at free
  rw [cell] at free
  have inner := casilla_inner free
  omega

theorem Valida.moverProyectil (valid : m.Valida) (low : 0 ≤ i) (high : i < MAX_PROYECTILES) :
    (m.moverProyectil i).Valida := by
  unfold Mem.moverProyectil
  split
  · exact valid
  next active =>
    apply Valida.apaga _ ((alcanza_apaga ..).trans (alcanza_apaga ..))
    have off := chocaProyectil_apaga (m.avanzaProyectil i) i
    apply valid.vuelan off.player off.mapa off.enemigo off.contador
    intro k first last flying
    have same := off.proyectiles k flying
    rw [same]
    by_cases moved : k = i
    · subst moved
      exact valid.avanza low high active (chocaProyectil_free flying)
    · rw [same] at flying
      simp only [avanzaProyectil, setProyectil, Function.update_of_ne moved] at flying ⊢
      exact valid.proyectiles k first last flying

theorem Valida.moverProyectiles (valid : m.Valida) {n : Nat} (few : (n : Int) ≤ MAX_PROYECTILES) :
    (m.moverProyectiles n).Valida := by
  induction n with
  | zero => exact valid
  | succ n ih =>
    apply (ih (by omega)).moverProyectil (by omega)
    omega

@[simp] theorem moverProyectil_player (m : Mem) (i : Int) : (m.moverProyectil i).player = m.player := by
  unfold Mem.moverProyectil
  split
  · rfl
  · exact ((chocaProyectil_apaga ..).trans ((alcanza_apaga ..).trans (alcanza_apaga ..))).player

theorem moverProyectil_flag (m : Mem) (i : Int) :
    (m.moverProyectil i).gameThreadMuerto = m.gameThreadMuerto := by
  unfold Mem.moverProyectil
  split
  · rfl
  · exact ((chocaProyectil_apaga ..).trans ((alcanza_apaga ..).trans (alcanza_apaga ..))).flag

@[simp] theorem moverProyectiles_player (m : Mem) (n : Nat) : (m.moverProyectiles n).player = m.player := by
  induction n with
  | zero => rfl
  | succ n ih => rw [Mem.moverProyectiles, moverProyectil_player, ih]

theorem mueveEnemigos_enemigo (m : Mem) (e : Enemigo) : (m.mueveEnemigos.enemigo e) =
    if m.contadorEnemigos ≥ 5 then
      { m.enemigo e with dir := if (m.enemigo e).dir = .left then .right else .left }
    else { m.enemigo e with
      x := if (m.enemigo e).dir = .left then (m.enemigo e).x - 1 else (m.enemigo e).x + 1 } := by
  unfold Mem.mueveEnemigos
  split <;> cases e <;> simp [giraEnemigo, avanzaEnemigo, setCharacter]

theorem mueveEnemigos_contador (m : Mem) : m.mueveEnemigos.contadorEnemigos =
    if m.contadorEnemigos ≥ 5 then 0 else m.contadorEnemigos + 1 := by
  unfold Mem.mueveEnemigos
  split <;> rfl

/-- The five steps of a patrol and the turn after them. -/
theorem Valida.mueveEnemigos (valid : m.Valida) : m.mueveEnemigos.Valida := by
  have bounds := valid.contador
  refine ⟨?_, ?_, ?_, ?_, ?_⟩
  · rw [mueveEnemigos_mapa]
    exact valid.mapa
  · simp only [BajoDragon, mueveEnemigos_player, mueveEnemigos_mapa]
    exact valid.dragon
  · rw [mueveEnemigos_proyectiles]
    exact valid.proyectiles
  · rw [mueveEnemigos_contador]
    split <;> omega
  · intro e
    obtain ⟨row, column⟩ := valid.enemigos e
    rw [mueveEnemigos_enemigo, mueveEnemigos_contador]
    split
    next turn =>
      refine ⟨row, ?_⟩
      cases dir : (m.enemigo e).dir <;> simp [dir] at column ⊢ <;> omega
    next walk =>
      refine ⟨row, ?_⟩
      cases dir : (m.enemigo e).dir <;> simp [dir] at column ⊢ <;> omega

theorem rondaEnemigos_flag (m : Mem) : m.rondaEnemigos.gameThreadMuerto = m.gameThreadMuerto := by
  unfold Mem.rondaEnemigos Mem.mueveEnemigos
  split
  · split <;> rfl
  · rfl

theorem muevePlayer_flag (m : Mem) : m.muevePlayer.gameThreadMuerto = m.gameThreadMuerto := by
  unfold Mem.muevePlayer
  split <;> rfl

theorem rondaPlayer_flag (m : Mem) (x y : Int) : (m.rondaPlayer x y).gameThreadMuerto = m.gameThreadMuerto := by
  unfold Mem.rondaPlayer Mem.corrigePlayer
  split <;> exact muevePlayer_flag m

theorem Valida.rondaEnemigos (valid : m.Valida) : m.rondaEnemigos.Valida := by
  unfold Mem.rondaEnemigos
  split
  · exact valid.mueveEnemigos
  · exact valid

/-- Another player does no harm if it covers free cells only. -/
theorem Valida.player (valid : m.Valida) {c : Character}
    (free : ∀ i j, { m with player := c }.BajoDragon i j → Dentro i j ∧ m.mapa i j = '1') :
    { m with player := c }.Valida :=
  ⟨valid.mapa, free, valid.proyectiles, valid.contador, valid.enemigos⟩

theorem muevePlayer_eq (m : Mem) : m.muevePlayer = { m with player := m.muevePlayer.player } := by
  unfold Mem.muevePlayer
  split <;> rfl

/-- The check of `posicionValida` and the undo keep the dragon on free cells. -/
theorem Valida.rondaPlayer (valid : m.Valida) : (m.rondaPlayer m.player.x m.player.y).Valida := by
  have fits := muevePlayer_fits valid.suelto
  have moved := muevePlayer_eq m
  unfold Mem.rondaPlayer Mem.corrigePlayer
  split
  next free =>
    rw [moved] at free fits ⊢
    apply valid.player
    intro i j under
    simp only [Encaja, BajoDragon, Libre, COLS, ROWS, sizeXDragon, sizeYDragon] at fits under free
    have inside : Dentro i j := by
      rw [dentro_iff]
      omega
    have open_ : m.mapa i j ≠ '0' := by
      rw [dentro_iff] at inside
      exact free i (by omega) (by omega) j (by omega) (by omega)
    rw [valid.mapa i j inside] at open_ ⊢
    exact ⟨inside, (casilla_inner open_).2.2.2.2⟩
  next taken =>
    rw [moved]
    apply valid.player
    exact valid.dragon

/-- A new projectile starts beside the dragon. -/
theorem Valida.dispara (valid : m.Valida) (i : Int) : (m.dispara i).Valida := by
  have flying : ∀ k, 0 ≤ k → k < MAX_PROYECTILES → ((m.dispara i).proyectiles k).activo ≠ 0 →
      ((m.dispara i).proyectiles k).EnVuelo := by
    intro k low high active
    by_cases new : k = i
    · subst new
      have place := valid.place
      simp only [Mem.dispara, setProyectil_self, Proyectil.EnVuelo, COLS, ROWS, sizeXDragon]
      refine ⟨?_, ?_, by omega, by omega⟩ <;> split <;> omega
    · simp only [Mem.dispara, setProyectil, Function.update_of_ne new] at active ⊢
      exact valid.proyectiles k low high active
  exact valid.vuelan rfl rfl rfl rfl flying

/-- The map, the characters and the empty sky that `main` leaves. -/
theorem preparada_valida (m : Mem) (counter : m.contadorEnemigos = 0) : m.preparada.Valida := by
  have mapa : ∀ i j, Dentro i j → m.preparada.mapa i j = casilla i j := by
    intro i j inside
    simp [preparada, colocada, conMapa, inside]
  refine ⟨mapa, ?_, ?_, ?_, ?_⟩
  · intro i j under
    have inside : Dentro i j ∧ casilla i j = '1' := by
      simp only [BajoDragon, preparada, colocada, ROWS, sizeXDragon, sizeYDragon] at under
      simp only [casilla, dentro_iff, ROWS, COLS]
      refine ⟨by omega, if_neg ?_⟩
      omega
    rw [mapa i j inside.1]
    exact inside
  · intro i low high active
    simp [preparada, colocada, conMapa, sinProyectiles, low, high] at active
  · simp [preparada, colocada, conMapa, sinProyectiles, counter]
  · intro e
    cases e <;> simp [preparada, colocada, conMapa, sinProyectiles, counter, Character.Patrulla, patrulla]

/-- The round that `gameThread` plays. -/
def ronda (m : Mem) : Mem :=
  let m := (m.moverProyectiles MAX_PROYECTILES.toNat).rondaEnemigos
  m.rondaPlayer m.player.x m.player.y

/-- The flag is not a round's business. -/
theorem ronda_gameThreadMuerto (m : Mem) : m.ronda.gameThreadMuerto = m.gameThreadMuerto := by
  have flown (n : Nat) : (m.moverProyectiles n).gameThreadMuerto = m.gameThreadMuerto := by
    induction n with
    | zero => rfl
    | succ n ih => rw [Mem.moverProyectiles, moverProyectil_flag, ih]
  simp only [ronda, rondaPlayer_flag, rondaEnemigos_flag, flown]

theorem Valida.ronda (valid : m.Valida) : m.ronda.Valida :=
  ((valid.moverProyectiles (by decide)).rondaEnemigos).rondaPlayer

end Mem

variable {leido : Int × Char} {s : Estado}

theorem wp_moverProyectiles {Q : Unit → Estado → Prop} (valid : s.mem.Valida)
    (last : Q () { s with mem := s.mem.moverProyectiles MAX_PROYECTILES.toNat }) :
    moverProyectiles.wp (reglas leido) Q s := by
  have all := wp_loop (R := reglas leido) (s := s) (n := turns 0 MAX_PROYECTILES) (a := 0) (p := moverProyectil)
    (fun i s' => s' = { s with mem := s.mem.moverProyectiles i.toNat }) (by
      intro i s' low high before
      have bound : i < MAX_PROYECTILES := by
        simp only [turns] at high
        omega
      obtain ⟨n, rfl⟩ := Int.eq_ofNat_of_zero_le low
      have valid' : (s.mem.moverProyectiles n).Valida := valid.moverProyectiles (by omega)
      rw [before]
      apply wp_moverProyectil
      · exact valid'.proyectiles n low bound
      · intro e
        have fits := valid'.cabe e
        exact ⟨fits.1, fits.2.2.1⟩
      · rfl) rfl
  apply wp_mono _ all
  intro _ s' done
  rw [done]
  exact last

/-- A round begun in a valid state makes the step `Mem.ronda`, and ends the game or leaves its
locals fit for another. -/
theorem wp_rondaGame {ant : Anteriores} {Q : Punto → Estado → Prop} (valid : s.mem.Valida)
    (near : ant.Cerca s.mem)
    (goes : ¬s.mem.ronda.Pierde → ¬s.mem.ronda.Gana → ∀ ant', ant'.Cerca s.mem.ronda →
      Q (.bucleGame ant') { s with mem := s.mem.ronda, semChanges := s.semChanges - 1 })
    (ends : s.mem.ronda.Pierde ∨ s.mem.ronda.Gana →
      Q .fin { s with mem := s.mem.ronda, semChanges := s.semChanges - 1 }.acabado) :
    (rondaGame ant).wp (reglas leido) Q s := by
  have flown := valid.moverProyectiles (n := MAX_PROYECTILES.toNat) (by decide)
  have walked := flown.rondaEnemigos
  simp only [rondaGame, wp_bind, wp_perform, handler, Op.Dentro, true_and]
  apply wp_pintaPixel (by decide) (by decide) (by decide) (by decide)
  apply wp_pintaPixel (by decide) (by decide) (by decide) (by decide)
  apply wp_moverProyectiles
  · exact valid
  apply wp_rondaEnemigos
  · refine ⟨?_, ?_, near.enemies⟩
    · rw [near.x, Mem.moverProyectiles_player]
    · rw [near.y, Mem.moverProyectiles_player]
  · exact walked.cabe
  · intro ant' near'
    apply wp_rondaPlayer near'.x near'.y walked.suelto
    apply wp_finRonda
    · intro playing waiting
      exact goes playing waiting _ ⟨rfl, rfl, near'.enemies⟩
    · exact ends

/-- A game under way: what the threads share, where `gameThread` stands, and every operation
so far with the state it was performed in. -/
structure Partida where
  estado : Estado
  game : Punto
  traza : List (Op × Estado)

/-- What is handled to completion: a read of `keyboardThread` and what follows it, a tick of
`main`, or `gameThread` from one `semWait` to the next. -/
inductive Turno where
  | tecla (leido : Int × Char)
  | reloj
  | ronda

namespace Partida

/-- The game after a program has run in it, with `gameThread` at `game`. -/
def sigue (p : Partida) (game : Punto) (ran : Ran Op Estado Punto) : Partida where
  estado := ran.state
  game := game
  traza := p.traza ++ ran.events

/-- The game when both threads have been created and `main` has signalled. -/
def inicial (contents : Mem) : Partida :=
  sigue { estado := Estado.inicial contents, game := .gameThread, traza := [] } .gameThread
    (main.run (handler (0, ' ')) (Estado.inicial contents))

/-- A turn of `gameThread` that runs `code`. -/
def corre (p : Partida) (code : Code Punto) : Partida :=
  let ran := code.run (handler (0, ' ')) p.estado
  p.sigue ran.value ran

/-- The game is over once `gameThread` has ended, and then nothing is played. A round waits
for the semaphore. -/
def turno (p : Partida) (t : Turno) : Partida :=
  match p.game, t with
  | .fin, _ => p
  | game, .tecla leido => p.sigue game (rondaKeyboard.run (handler leido) p.estado)
  | game, .reloj => p.sigue game ((cuerpo .bucleMain).run (handler (0, ' ')) p.estado)
  | .bucleGame ant, .ronda => if p.estado.semChanges ≤ 0 then p else p.corre (rondaGame ant)
  | .gameThread, .ronda => p.corre (cuerpo .gameThread)
  | _, .ronda => p

def juega (p : Partida) (turnos : List Turno) : Partida := turnos.foldl turno p

/-- What `gameThread` knows where it stands, as long as it has not ended. -/
def Sabe (m : Mem) : Punto → Prop
  | .gameThread => m.gameThreadMuerto = 0
  | .bucleGame ant => ant.Cerca m ∧ m.gameThreadMuerto = 0
  | .fin => True
  | _ => False

/-- What holds between two turns of a game. -/
structure Valida (p : Partida) : Prop where
  mem : p.estado.mem.Valida
  game : Sabe p.estado.mem p.game
  traza : ∀ e ∈ p.traza, e.1.Dentro

/-- A key leaves the game valid, the dragon where it is and the flag as it is. -/
theorem wp_rondaKeyboard {leido : Int × Char} {s : Estado} (valid : s.mem.Valida) :
    rondaKeyboard.wp (reglas leido) (fun _ s' => s'.mem.Valida ∧ s'.mem.player.x = s.mem.player.x ∧
      s'.mem.player.y = s.mem.player.y ∧ s'.mem.gameThreadMuerto = s.mem.gameThreadMuerto) s := by
  simp only [rondaKeyboard, leeTecla, wp_bind, wp_load_gameThreadMuerto, wp_ite, wp_pure, wp_perform, handler,
    Op.Dentro, true_and]
  split
  · exact ⟨valid, trivial⟩
  split
  · apply wp_tecla
    · intro state dir
      exact ⟨valid.player valid.dragon, rfl, rfl, rfl⟩
    · intro i low high free
      exact ⟨valid.dispara i, rfl, rfl, rfl⟩
    · exact ⟨valid, rfl, rfl, rfl⟩
  · exact ⟨valid, trivial⟩

/-- What `gameThread` remembers before its first round. -/
def anteriores (m : Mem) : Anteriores where
  xAntPlayer := m.player.x
  yAntPlayer := m.player.y
  xAntEnemigo
    | .enemigo1 => (m.enemigo .enemigo1).x
    | .enemigo2 => (m.enemigo .enemigo2).x
  yAntEnemigo
    | .enemigo1 => (m.enemigo .enemigo1).y
    | .enemigo2 => (m.enemigo .enemigo2).y

theorem cerca_anteriores {m : Mem} (valid : m.Valida) : (anteriores m).Cerca m := by
  refine ⟨rfl, rfl, ?_⟩
  intro e
  have fits := valid.cabe e
  simp only [Character.Cabe, sizeXEnemigo, sizeYEnemigo, COLS, ROWS] at fits
  rw [dentro_iff]
  cases e <;> simp only [anteriores] <;> omega

/-- The entry of `gameThread`, which only looks where everybody is. -/
theorem wp_gameThread {leido : Int × Char} {s : Estado} (valid : s.mem.Valida)
    (playing : s.mem.gameThreadMuerto = 0) :
    (cuerpo .gameThread).wp (reglas leido) (fun x s' => s'.mem.Valida ∧ Sabe s'.mem x) s := by
  simp only [cuerpo, wp_bind, wp_load_x_player, wp_load_y_player, wp_load_x_enemigo, wp_load_y_enemigo, wp_pure]
  exact ⟨valid, cerca_anteriores valid, playing⟩

theorem acabado_valida {s : Estado} (valid : s.mem.Valida) : s.acabado.mem.Valida :=
  valid.vuelan rfl rfl rfl rfl valid.proyectiles

theorem Valida.tras {p : Partida} {game : Punto} {ran : Ran Op Estado Punto} (inside : ∀ e ∈ p.traza, e.1.Dentro)
    (new : ∀ e ∈ ran.events, e.1.Dentro) (mem : ran.state.mem.Valida) (knows : Sabe ran.state.mem game) :
    (p.sigue game ran).Valida := by
  refine ⟨mem, knows, ?_⟩
  intro e mem
  rcases List.mem_append.mp mem with old | mem
  · exact inside e old
  · exact new e mem

/-- What is proved of a program holds of the game it is run in. -/
theorem Valida.sigue {p : Partida} {leido : Int × Char} {code : Code Punto} {game : Punto}
    (inside : ∀ e ∈ p.traza, e.1.Dentro)
    (holds : code.wp (reglas leido) (fun _ s' => s'.mem.Valida ∧ Sabe s'.mem game) p.estado) :
    (p.sigue game (code.run (handler leido) p.estado)).Valida := by
  obtain ⟨new, mem, knows⟩ := run_of_wp holds
  exact .tras inside new mem knows

theorem Valida.corre {p : Partida} {code : Code Punto} (valid : p.Valida)
    (holds : code.wp (reglas (0, ' ')) (fun x s' => s'.mem.Valida ∧ Sabe s'.mem x) p.estado) :
    (p.corre code).Valida := by
  obtain ⟨new, mem, knows⟩ := run_of_wp holds
  exact .tras valid.traza new mem knows

theorem Sabe.moved {m m' : Mem} {x : Punto} (knows : Sabe m x) (sameX : m'.player.x = m.player.x)
    (sameY : m'.player.y = m.player.y) (flag : m'.gameThreadMuerto = m.gameThreadMuerto) : Sabe m' x := by
  cases x with
  | bucleGame ant =>
    obtain ⟨near, playing⟩ := knows
    exact ⟨⟨near.x.trans sameX.symm, near.y.trans sameY.symm, near.enemies⟩, flag.trans playing⟩
  | gameThread => exact flag.trans knows
  | fin => trivial
  | main | bucleMain | keyboardThread => exact knows.elim

theorem Valida.turno {p : Partida} (valid : p.Valida) (t : Turno) : (p.turno t).Valida := by
  have knows := valid.game
  unfold Partida.turno
  split
  · exact valid
  · apply Valida.sigue valid.traza
    apply wp_mono _ (wp_rondaKeyboard valid.mem)
    rintro _ s' ⟨mem, sameX, sameY, flag⟩
    exact ⟨mem, knows.moved sameX sameY flag⟩
  · apply Valida.sigue valid.traza
    simpa [cuerpo, Op.Dentro, handler] using ⟨valid.mem, knows⟩
  next ant standing =>
    split
    · exact valid
    · rw [standing] at knows
      apply valid.corre
      apply wp_rondaGame valid.mem knows.1
      · intro _ _ ant' near
        refine ⟨valid.mem.ronda, near, ?_⟩
        rw [Mem.ronda_gameThreadMuerto]
        exact knows.2
      · intro _
        exact ⟨acabado_valida valid.mem.ronda, trivial⟩
  next standing =>
    rw [standing] at knows
    exact valid.corre (wp_gameThread valid.mem knows)
  · exact valid

theorem Valida.juega {p : Partida} (valid : p.Valida) (turnos : List Turno) : (p.juega turnos).Valida := by
  induction turnos generalizing p with
  | nil => exact valid
  | cons t turnos ih => exact ih (valid.turno t)

theorem inicial_valida (contents : Mem) : (inicial contents).Valida := by
  apply Valida.sigue (by simp)
  apply wp_main
  exact ⟨Mem.preparada_valida _ rfl, rfl⟩

end Partida

/-- In every game, whatever the keys and the ticks, until it ends: the dragon covers only cells
of the map marked as free, every active projectile is between the side edges on a row of the map,
and no access to the map and no movement of the cursor is outside it. -/
theorem partida_dentro (contents : Mem) (turnos : List Turno) :
    let p := (Partida.inicial contents).juega turnos
    (∀ i j, p.estado.mem.BajoDragon i j → Dentro i j ∧ p.estado.mem.mapa i j = '1') ∧
    (∀ i, 0 ≤ i → i < MAX_PROYECTILES → (p.estado.mem.proyectiles i).activo ≠ 0 →
      (p.estado.mem.proyectiles i).EnVuelo) ∧
    ∀ e ∈ p.traza, e.1.Dentro := by
  have valid := (Partida.inicial_valida contents).juega turnos
  exact ⟨valid.mem.dragon, valid.mem.proyectiles, valid.traza⟩

end Zeos.Game
