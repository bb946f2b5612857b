import Zeos.Programs

/-! The game of `user.c`. Its functions are programs whose operations are the accesses to the
game's data, the frees and the system calls, in the order of the source. The tables that `main`
allocates are there from the start, with any contents; the pictures that `creaDragon` and its
siblings draw keep theirs, since only colours depend on them. The operands of a condition are
loaded before it, each once. -/
namespace Zeos.Game
open Programs
open Prog (perform loop search)

abbrev ROWS : Int := 25
abbrev COLS : Int := 80
abbrev sizeYDragon : Int := 8
abbrev sizeXDragon : Int := 10
abbrev sizeYEnemigo : Int := 7
abbrev sizeXEnemigo : Int := 7
abbrev sizeYDiamante : Int := 4
abbrev sizeXDiamante : Int := 5
abbrev sizeXWinner : Int := 40
abbrev sizeYWinner : Int := 5
abbrev sizeXLoser : Int := 43
abbrev sizeYLoser : Int := 5
abbrev NEGRO : Int := 0
abbrev ROSA : Int := 5
abbrev MARRON : Int := 6
abbrev BLANCO : Int := 7
abbrev MAX_PROYECTILES : Int := 10

inductive CharacterState where
  | stUp | stDown | stLeft | stRight | stStop
deriving DecidableEq, Repr

inductive CharacterDirection where
  | left | right
deriving DecidableEq, Repr

structure Character where
  x : Int
  y : Int
  state : CharacterState
  dir : CharacterDirection

structure Pixel where
  ch : Char
  fg : Int
  bg : Int

structure Proyectil where
  x : Int
  y : Int
  activo : Int
  dir : CharacterDirection

inductive Enemigo where
  | enemigo1 | enemigo2
deriving DecidableEq, Repr

/-- What the pointers of type `character *` point to. -/
inductive Personaje where
  | player
  | enemigo (e : Enemigo)
deriving DecidableEq, Repr

inductive Sprite where
  | dragon | enemigo | diamante | winner | loser
deriving DecidableEq, Repr

/-- The blocks that `liberaRecursos` frees. -/
inductive Block where
  | character (p : Personaje)
  | mapa
  | sprite (sprite : Sprite)
  | proyectiles
deriving DecidableEq, Repr

/-- The variables of the game. -/
inductive Loc where
  | x (p : Personaje)
  | y (p : Personaje)
  | state (p : Personaje)
  | dir (p : Personaje)
  | mapa (i j : Int)
  | ch (sprite : Sprite) (i j : Int)
  | fg (sprite : Sprite) (i j : Int)
  | bg (sprite : Sprite) (i j : Int)
  | proyectilX (i : Int)
  | proyectilY (i : Int)
  | proyectilActivo (i : Int)
  | proyectilDir (i : Int)
  | muerto (e : Enemigo)
  | gameThreadMuerto
  | contadorEnemigos
deriving DecidableEq, Repr

namespace Loc

abbrev type : Loc → Type
  | state _ => CharacterState
  | dir _ | proyectilDir _ => CharacterDirection
  | mapa _ _ | ch _ _ _ => Char
  | x _ | y _ | fg _ _ _ | bg _ _ _ | proyectilX _ | proyectilY _ | proyectilActivo _ | muerto _
  | gameThreadMuerto | contadorEnemigos => Int

/-- The block an access goes through. A cell of a table is reached through the table of its
rows, which is what is freed. -/
def block : Loc → Option Block
  | x p | y p | state p | dir p => some (.character p)
  | mapa _ _ => some .mapa
  | ch sprite _ _ | fg sprite _ _ | bg sprite _ _ => some (.sprite sprite)
  | proyectilX _ | proyectilY _ | proyectilActivo _ | proyectilDir _ => some .proyectiles
  | muerto _ | gameThreadMuerto | contadorEnemigos => none

end Loc

structure Mem where
  player : Character
  enemigo : Enemigo → Character
  mapa : Int → Int → Char
  pixels : Sprite → Int → Int → Pixel
  proyectiles : Int → Proyectil
  muerto : Enemigo → Int
  gameThreadMuerto : Int
  contadorEnemigos : Int

namespace Mem

def character (m : Mem) : Personaje → Character
  | .player => m.player
  | .enemigo e => m.enemigo e

def setCharacter (m : Mem) (c : Character) : Personaje → Mem
  | .player => { m with player := c }
  | .enemigo e => { m with enemigo := Function.update m.enemigo e c }

def setPixel (m : Mem) (sprite : Sprite) (i j : Int) (pixel : Pixel) : Mem :=
  { m with pixels := fun t i' j' => if t = sprite ∧ i' = i ∧ j' = j then pixel else m.pixels t i' j' }

def setProyectil (m : Mem) (i : Int) (proyectil : Proyectil) : Mem :=
  { m with proyectiles := Function.update m.proyectiles i proyectil }

def get (m : Mem) : (l : Loc) → l.type
  | .x p => (m.character p).x
  | .y p => (m.character p).y
  | .state p => (m.character p).state
  | .dir p => (m.character p).dir
  | .mapa i j => m.mapa i j
  | .ch sprite i j => (m.pixels sprite i j).ch
  | .fg sprite i j => (m.pixels sprite i j).fg
  | .bg sprite i j => (m.pixels sprite i j).bg
  | .proyectilX i => (m.proyectiles i).x
  | .proyectilY i => (m.proyectiles i).y
  | .proyectilActivo i => (m.proyectiles i).activo
  | .proyectilDir i => (m.proyectiles i).dir
  | .muerto e => m.muerto e
  | .gameThreadMuerto => m.gameThreadMuerto
  | .contadorEnemigos => m.contadorEnemigos

def set (m : Mem) : (l : Loc) → l.type → Mem
  | .x p, v => m.setCharacter { m.character p with x := v } p
  | .y p, v => m.setCharacter { m.character p with y := v } p
  | .state p, v => m.setCharacter { m.character p with state := v } p
  | .dir p, v => m.setCharacter { m.character p with dir := v } p
  | .mapa i j, v => { m with mapa := fun i' j' => if i' = i ∧ j' = j then v else m.mapa i' j' }
  | .ch sprite i j, v => m.setPixel sprite i j { m.pixels sprite i j with ch := v }
  | .fg sprite i j, v => m.setPixel sprite i j { m.pixels sprite i j with fg := v }
  | .bg sprite i j, v => m.setPixel sprite i j { m.pixels sprite i j with bg := v }
  | .proyectilX i, v => m.setProyectil i { m.proyectiles i with x := v }
  | .proyectilY i, v => m.setProyectil i { m.proyectiles i with y := v }
  | .proyectilActivo i, v => m.setProyectil i { m.proyectiles i with activo := v }
  | .proyectilDir i, v => m.setProyectil i { m.proyectiles i with dir := v }
  | .muerto e, v => { m with muerto := Function.update m.muerto e v }
  | .gameThreadMuerto, v => { m with gameThreadMuerto := v }
  | .contadorEnemigos, v => { m with contadorEnemigos := v }

end Mem

/-- The threads of the game. -/
inductive Thread where
  | main | keyboardThread | gameThread
deriving DecidableEq, Repr

inductive Op where
  | load (l : Loc)
  | store (l : Loc) (v : l.type)
  | free (b : Block)
  | dynMem
  | gotoxy (x y : Int)
  | setColor (fg bg : Int)
  | write (ch : Char)
  | read
  | semCreate (count : Int)
  | semWait
  | semSignal
  | createThread (t : Thread)
  | exitThread

namespace Op

abbrev answer : Op → Type
  | load l => l.type
  | read => Int × Char
  | store _ _ | free _ | dynMem | gotoxy _ _ | setColor _ _ | write _ | semCreate _ | semWait
  | semSignal | createThread _ | exitThread => Unit

/-- The operations that enter the kernel. -/
def call : Op → Bool
  | load _ | store _ _ | free _ => false
  | dynMem | gotoxy _ _ | setColor _ _ | write _ | read | semCreate _ | semWait | semSignal
  | createThread _ | exitThread => true

end Op

abbrev Code := Prog Op.answer

def load (l : Loc) : Code l.type := perform (Op.load l)
def store (l : Loc) (v : l.type) : Code Unit := perform (Op.store l v)
def gotoxy (x y : Int) : Code Unit := perform (Op.gotoxy x y)
def setColor (fg bg : Int) : Code Unit := perform (Op.setColor fg bg)
def write (ch : Char) : Code Unit := perform (Op.write ch)

/-- Frees a block. The call that gives pages back to the kernel is always made here, where
the allocator makes it only when there are pages to give. -/
def free (b : Block) : Code Unit := do
  perform (Op.free b)
  perform Op.dynMem

/-- The turns of a loop that counts from `a` while below `b`. -/
def turns (a b : Int) : Nat := (b - a).toNat

def colorCelda (celda : Char) : Code Unit :=
  if celda = '1' then setColor BLANCO NEGRO else setColor BLANCO MARRON

/-- Paints a cell of the map where the cursor is. -/
def pintaCelda (celda : Char) : Code Unit := do
  colorCelda celda
  write ' '

def pintaTrozoMapa (x y sizeX sizeY : Int) : Code Unit :=
  loop (fun i => loop (fun j => do
    gotoxy j i
    let celda : Char ← load (.mapa i j)
    pintaCelda celda) (turns x (min (x + sizeX) COLS)) x) (turns y (min (y + sizeY) ROWS)) y

/-- The test of a projectile at `x`, `y` against an enemy, and what follows a hit. -/
def alcanza (i x y : Int) (e : Enemigo) : Code Unit := do
  let ex : Int ← load (.x (.enemigo e))
  let ey : Int ← load (.y (.enemigo e))
  let muerto : Int ← load (.muerto e)
  if x ≥ ex ∧ x < ex + sizeXEnemigo ∧ y ≥ ey ∧ y < ey + sizeYEnemigo ∧ muerto = 0 then do
    store (.muerto e) 1
    store (.proyectilActivo i) 0
    let ex : Int ← load (.x (.enemigo e))
    let ey : Int ← load (.y (.enemigo e))
    pintaTrozoMapa ex ey sizeXEnemigo sizeYEnemigo
  else pure ()

/-- Moves projectile `i` by a cell. -/
def avanzaProyectil (i : Int) : Code Unit := do
  let dir : CharacterDirection ← load (.proyectilDir i)
  let x : Int ← load (.proyectilX i)
  store (.proyectilX i) (if dir = .left then x - 1 else x + 1)

/-- Projectile `i` where it has moved to: a wall puts it out, and it is painted elsewhere. -/
def pintaProyectil (i : Int) : Code Unit := do
  let y : Int ← load (.proyectilY i)
  let x : Int ← load (.proyectilX i)
  let celda : Char ← load (.mapa y x)
  if celda = '0' then store (.proyectilActivo i) 0
  else do
    let x : Int ← load (.proyectilX i)
    let y : Int ← load (.proyectilY i)
    gotoxy x y
    setColor BLANCO ROSA
    write ' '

/-- The body of the loop of `moverProyectiles`. -/
def moverProyectil (i : Int) : Code Unit := do
  let activo : Int ← load (.proyectilActivo i)
  if activo ≠ 0 then do
    let x : Int ← load (.proyectilX i)
    let y : Int ← load (.proyectilY i)
    gotoxy x y
    let y : Int ← load (.proyectilY i)
    let x : Int ← load (.proyectilX i)
    let celda : Char ← load (.mapa y x)
    pintaCelda celda
    avanzaProyectil i
    pintaProyectil i
    let x : Int ← load (.proyectilX i)
    let y : Int ← load (.proyectilY i)
    alcanza i x y .enemigo1
    alcanza i x y .enemigo2
  else pure ()

def moverProyectiles : Code Unit := loop moverProyectil (turns 0 MAX_PROYECTILES) 0

def creaProyectil : Code Unit := do
  let _ ← search (fun i => do
    let activo : Int ← load (.proyectilActivo i)
    if activo = 0 then do
      let dir : CharacterDirection ← load (.dir .player)
      let x : Int ← load (.x .player)
      store (.proyectilX i) (if dir = .left then x - 1 else x + sizeXDragon)
      let y : Int ← load (.y .player)
      store (.proyectilY i) (y + 4)
      let dir : CharacterDirection ← load (.dir .player)
      store (.proyectilDir i) dir
      store (.proyectilActivo i) 1
      pure (some ())
    else pure none) (turns 0 MAX_PROYECTILES) 0
  pure ()

/-- The switch of `keyboardThread`. -/
def tecla (c : Char) : Code Unit :=
  if c = 'w' then store (.state .player) .stUp
  else if c = 's' then store (.state .player) .stDown
  else if c = 'a' then do
    store (.state .player) .stLeft
    store (.dir .player) .left
  else if c = 'd' then do
    store (.state .player) .stRight
    store (.dir .player) .right
  else if c = 'C' then creaProyectil
  else store (.state .player) .stStop

def pintaMapa : Code Unit :=
  loop (fun i => loop (fun j => do
    gotoxy j i
    let celda : Char ← load (.mapa i j)
    pintaCelda celda) (turns 0 COLS) 0) (turns 0 ROWS) 0

/-- The body of the last loop of `creaMapa`, which draws the steps. -/
def escalon (i : Int) : Code Unit := do
  store (.mapa (ROWS - 2) (i + 1)) '0'
  store (.mapa (ROWS - 2) (COLS - 2 - i)) '0'
  if i < 12 then do
    store (.mapa (ROWS - 3) (i + 1)) '0'
    store (.mapa (ROWS - 3) (COLS - 2 - i)) '0'
  else pure ()

def creaMapa : Code Unit := do
  loop (fun i => loop (fun j => store (.mapa i j) '1') (turns 0 COLS) 0) (turns 0 ROWS) 0
  loop (fun i => loop (fun j =>
    if i < 1 ∨ i ≥ ROWS - 1 ∨ j < 2 ∨ j ≥ COLS - 2 then store (.mapa i j) '0' else pure ())
    (turns 0 COLS) 0) (turns 0 ROWS) 0
  loop escalon (turns 0 24) 0

/-- The body of both painting loops: cell `i`, `k` of a picture, on the screen at `i`, `j`. -/
def pintaPunto (x0 y0 : Int) (pix : Sprite) (i j k : Int) : Code Unit := do
  gotoxy (x0 + j) (y0 + i)
  let fg : Int ← load (.fg pix i k)
  let bg : Int ← load (.bg pix i k)
  setColor fg bg
  let ch : Char ← load (.ch pix i k)
  write ch

def pintaPixel (x0 y0 sizeX sizeY : Int) (pix : Sprite) : Code Unit :=
  loop (fun i => loop (fun j => pintaPunto x0 y0 pix i j j) (turns 0 sizeX) 0) (turns 0 sizeY) 0

def pintaDragonIzquierda (x0 y0 : Int) : Code Unit :=
  loop (fun i => loop (fun j => pintaPunto x0 y0 .dragon i j (sizeXDragon - 1 - j))
    (turns 0 sizeXDragon) 0) (turns 0 sizeYDragon) 0

def posicionValida (x y sizeX sizeY : Int) : Code Int := do
  let hallada : Option Int ← search (fun i => search (fun j => do
    let celda : Char ← load (.mapa i j)
    if celda = '0' then pure (some (0 : Int)) else pure none)
    (turns x (min (x + sizeX) COLS)) x) (turns y (min (y + sizeY) ROWS)) y
  pure (hallada.getD 1)

/-- The two statements of `mueveEnemigos` that turn an enemy round. -/
def giraEnemigo (e : Enemigo) : Code Unit := do
  let dir : CharacterDirection ← load (.dir (.enemigo e))
  store (.dir (.enemigo e)) (if dir = .left then .right else .left)

/-- The two statements of `mueveEnemigos` that move an enemy by a cell. -/
def avanzaEnemigo (e : Enemigo) : Code Unit := do
  let dir : CharacterDirection ← load (.dir (.enemigo e))
  let x : Int ← load (.x (.enemigo e))
  store (.x (.enemigo e)) (if dir = .left then x - 1 else x + 1)

def mueveEnemigos : Code Unit := do
  let contador : Int ← load .contadorEnemigos
  if contador ≥ 5 then do
    store .contadorEnemigos 0
    giraEnemigo .enemigo1
    giraEnemigo .enemigo2
  else do
    let contador : Int ← load .contadorEnemigos
    store .contadorEnemigos (contador + 1)
    avanzaEnemigo .enemigo1
    avanzaEnemigo .enemigo2

/-- The last test of both collision functions: 0 when the rectangles are apart. -/
def solapan (px1 py1 px2 py2 ex1 ey1 ex2 ey2 : Int) : Int :=
  if px2 < ex1 ∨ px1 > ex2 ∨ py2 < ey1 ∨ py1 > ey2 then 0 else 1

def hayColisionEnemigo (numEnemigo : Int) : Code Int := do
  let px1 : Int ← load (.x .player)
  let py1 : Int ← load (.y .player)
  let px2 := px1 + sizeXDragon - 1
  let py2 := py1 + sizeYDragon - 1
  let e : Enemigo := if numEnemigo = 2 then .enemigo2 else .enemigo1
  let ex1 : Int ← load (.x (.enemigo e))
  let ey1 : Int ← load (.y (.enemigo e))
  let ex2 := ex1 + sizeXEnemigo - 1
  let ey2 := ey1 + sizeYEnemigo - 1
  pure (solapan px1 py1 px2 py2 ex1 ey1 ex2 ey2)

def hayColisionDiamante (dx1 dy1 : Int) : Code Int := do
  let px1 : Int ← load (.x .player)
  let py1 : Int ← load (.y .player)
  let px2 := px1 + sizeXDragon - 1
  let py2 := py1 + sizeYDragon - 1
  let dx2 := dx1 + sizeXDiamante - 1
  let dy2 := dy1 + sizeYDiamante - 1
  pure (solapan px1 py1 px2 py2 dx1 dy1 dx2 dy2)

def liberaRecursos : Code Unit := do
  free (.character .player)
  free (.character (.enemigo .enemigo1))
  free (.character (.enemigo .enemigo2))
  free .mapa
  free (.sprite .dragon)
  free (.sprite .enemigo)
  free (.sprite .diamante)
  free (.sprite .winner)
  free (.sprite .loser)
  free .proyectiles

/-- The locals of `gameThread` that live from one round to the next. -/
structure Anteriores where
  xAntPlayer : Int
  yAntPlayer : Int
  xAntEnemigo : Enemigo → Int
  yAntEnemigo : Enemigo → Int

/-- Where the threads stand between two turns of their loops: `main` before it sets the game
up, the three `while (1)`, `gameThread` before its loop, and a thread that has ended. -/
inductive Punto where
  | main
  | bucleMain
  | keyboardThread
  | gameThread
  | bucleGame (ant : Anteriores)
  | fin

/-- What `gameThread` does with an enemy in a round. -/
def borraYPintaEnemigo (ant : Anteriores) (e : Enemigo) : Code Anteriores := do
  let muerto : Int ← load (.muerto e)
  if muerto = 0 then do
    gotoxy (ant.xAntEnemigo e) (ant.yAntEnemigo e)
    pintaTrozoMapa (ant.xAntEnemigo e) (ant.yAntEnemigo e) sizeXEnemigo sizeYEnemigo
    let x : Int ← load (.x (.enemigo e))
    let y : Int ← load (.y (.enemigo e))
    pintaPixel x y sizeXEnemigo sizeYEnemigo .enemigo
    let x : Int ← load (.x (.enemigo e))
    let y : Int ← load (.y (.enemigo e))
    pure { ant with
      xAntEnemigo := Function.update ant.xAntEnemigo e x
      yAntEnemigo := Function.update ant.yAntEnemigo e y }
  else pure ant

/-- The switch of `gameThread`. -/
def muevePlayer : Code Unit := do
  let state : CharacterState ← load (.state .player)
  match state with
  | .stUp => do let y : Int ← load (.y .player); store (.y .player) (y - 1)
  | .stDown => do let y : Int ← load (.y .player); store (.y .player) (y + 1)
  | .stLeft => do let x : Int ← load (.x .player); store (.x .player) (x - 1)
  | .stRight => do let x : Int ← load (.x .player); store (.x .player) (x + 1)
  | .stStop => pure ()

/-- What `gameThread` does with the enemies in a round. -/
def rondaEnemigos (ant : Anteriores) : Code Anteriores := do
  let muerto1 : Int ← load (.muerto .enemigo1)
  let muerto2 : Int ← load (.muerto .enemigo2)
  if muerto1 = 0 ∨ muerto2 = 0 then do
    mueveEnemigos
    let ant ← borraYPintaEnemigo ant .enemigo1
    borraYPintaEnemigo ant .enemigo2
  else pure ant

/-- Puts the player back when it is not on the map's free cells. -/
def corrigePlayer (ant : Anteriores) : Code Unit := do
  let x : Int ← load (.x .player)
  let y : Int ← load (.y .player)
  let valida ← posicionValida x y sizeXDragon sizeYDragon
  if valida = 0 then do
    store (.x .player) ant.xAntPlayer
    store (.y .player) ant.yAntPlayer
  else pure ()

def pintaPlayer : Code Unit := do
  let dir : CharacterDirection ← load (.dir .player)
  let x : Int ← load (.x .player)
  let y : Int ← load (.y .player)
  if dir = .right then pintaPixel x y sizeXDragon sizeYDragon .dragon else pintaDragonIzquierda x y

/-- What `gameThread` does with the player in a round. -/
def rondaPlayer (ant : Anteriores) : Code Anteriores := do
  gotoxy ant.xAntPlayer ant.yAntPlayer
  pintaTrozoMapa ant.xAntPlayer ant.yAntPlayer sizeXDragon sizeYDragon
  muevePlayer
  corrigePlayer ant
  pintaPlayer
  let x : Int ← load (.x .player)
  let y : Int ← load (.y .player)
  store (.state .player) .stStop
  pure { ant with xAntPlayer := x, yAntPlayer := y }

/-- The condition under which the game is lost. -/
def pierde : Code Bool := do
  let colision1 ← hayColisionEnemigo 1
  let muerto1 : Int ← load (.muerto .enemigo1)
  let colision2 ← hayColisionEnemigo 2
  let muerto2 : Int ← load (.muerto .enemigo2)
  pure (decide (colision1 ≠ 0 ∧ muerto1 = 0 ∨ colision2 ≠ 0 ∧ muerto2 = 0))

/-- The condition under which the game is won. -/
def gana : Code Bool := do
  let diamante1 ← hayColisionDiamante 5 (ROWS - 8)
  let diamante2 ← hayColisionDiamante 70 (ROWS - 8)
  pure (decide (diamante1 ≠ 0 ∨ diamante2 ≠ 0))

/-- The end of `gameThread`, under the title it paints. -/
def acaba (x0 y0 sizeX sizeY : Int) (titulo : Sprite) : Code Punto := do
  pintaPixel x0 y0 sizeX sizeY titulo
  store .gameThreadMuerto 1
  liberaRecursos
  perform Op.exitThread
  pure .fin

/-- What `gameThread` does at the end of a round. -/
def finRonda (ant : Anteriores) : Code Punto := do
  let pierde ← pierde
  if pierde then acaba 17 4 sizeXLoser sizeYLoser .loser
  else do
    let gana ← gana
    if gana then acaba 20 4 sizeXWinner sizeYWinner .winner else pure (.bucleGame ant)

/-- One turn of the loop of `gameThread`. -/
def rondaGame (ant : Anteriores) : Code Punto := do
  perform Op.semWait
  pintaPixel 5 (ROWS - 8) sizeXDiamante sizeYDiamante .diamante
  pintaPixel 70 (ROWS - 8) sizeXDiamante sizeYDiamante .diamante
  moverProyectiles
  let ant ← rondaEnemigos ant
  let ant ← rondaPlayer ant
  finRonda ant

/-- The branch of `keyboardThread` that reads. -/
def leeTecla : Code Punto := do
  let leido : Int × Char ← perform Op.read
  if leido.1 > 0 then do
    tecla leido.2
    perform Op.semSignal
    pure .keyboardThread
  else pure .keyboardThread

/-- One turn of the loop of `keyboardThread`. A set flag makes it name `exit_thread` without
calling it, so that the loop goes on. -/
def rondaKeyboard : Code Punto := do
  let muerto : Int ← load .gameThreadMuerto
  if muerto ≠ 0 then pure .keyboardThread else leeTecla

/-- The part of `main` before there are other threads. -/
def prepara : Code Unit := do
  loop (fun i => store (.proyectilActivo i) 0) (turns 0 MAX_PROYECTILES) 0
  creaMapa
  pintaMapa
  store (.x .player) 40
  store (.y .player) (ROWS - 9)
  store (.dir .player) .right
  store (.state .player) .stStop
  store (.x (.enemigo .enemigo1)) 13
  store (.y (.enemigo .enemigo1)) (ROWS - 9)
  store (.dir (.enemigo .enemigo1)) .right
  store (.x (.enemigo .enemigo2)) 60
  store (.y (.enemigo .enemigo2)) (ROWS - 9)
  store (.dir (.enemigo .enemigo2)) .left

def main : Code Punto := do
  prepara
  perform (Op.semCreate 0)
  perform (Op.createThread .keyboardThread)
  perform (Op.createThread .gameThread)
  perform Op.semSignal
  pure .bucleMain

/-- What a thread runs next. -/
def cuerpo : Punto → Code Punto
  | .main => main
  | .bucleMain => do
    perform Op.semSignal
    pure .bucleMain
  | .keyboardThread => rondaKeyboard
  | .gameThread => do
    let xAntPlayer : Int ← load (.x .player)
    let yAntPlayer : Int ← load (.y .player)
    let xAntEnemigo1 : Int ← load (.x (.enemigo .enemigo1))
    let yAntEnemigo1 : Int ← load (.y (.enemigo .enemigo1))
    let xAntEnemigo2 : Int ← load (.x (.enemigo .enemigo2))
    let yAntEnemigo2 : Int ← load (.y (.enemigo .enemigo2))
    pure (.bucleGame {
      xAntPlayer, yAntPlayer
      xAntEnemigo := fun | .enemigo1 => xAntEnemigo1 | .enemigo2 => xAntEnemigo2
      yAntEnemigo := fun | .enemigo1 => yAntEnemigo1 | .enemigo2 => yAntEnemigo2 })
  | .bucleGame ant => rondaGame ant
  | .fin => pure .fin

/-- The state that the threads share. -/
structure Estado where
  mem : Mem
  libres : List Block
  semChanges : Int
  creados : List Thread

/-- What an operation does. A read answers what the keyboard has given. -/
def handler (leido : Int × Char) : Handler Op.answer Estado
  | .load l, s => (s.mem.get l, s)
  | .store l v, s => ((), { s with mem := s.mem.set l v })
  | .free b, s => ((), { s with libres := b :: s.libres })
  | .read, s => (leido, s)
  | .semCreate count, s => ((), { s with semChanges := count })
  | .semWait, s => ((), { s with semChanges := s.semChanges - 1 })
  | .semSignal, s => ((), { s with semChanges := s.semChanges + 1 })
  | .createThread t, s => ((), { s with creados := t :: s.creados })
  | .dynMem, s | .gotoxy _ _, s | .setColor _ _, s | .write _, s | .exitThread, s => ((), s)

/-- Before `main` runs: the globals that the source initialises, and any contents of the rest. -/
def Estado.inicial (contents : Mem) : Estado where
  mem := { contents with muerto := fun _ => 0, gameThreadMuerto := 0, contadorEnemigos := 0 }
  libres := []
  semChanges := 0
  creados := [.main]

end Zeos.Game
