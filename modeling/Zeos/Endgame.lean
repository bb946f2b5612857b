import Zeos.Playing
import Zeos.Threads

/-! The end of the game among its three threads. `gameThread` sets a flag and frees everything,
and `keyboardThread` looks at the flag before it reads, not after: a key that comes when the
game is over is still handled. -/
namespace Zeos.Game
open Programs Prog Transition

namespace Op

/-- What the threads do while nothing ends: no free, no thread created, no flag set, and the
semaphore not waited for. -/
def Juega : Op → Prop
  | free _ | store .gameThreadMuerto _ | createThread _ | semWait => False
  | _ => True

/-- The same without a call. -/
def Calla : Op → Prop
  | store .gameThreadMuerto _ => False
  | load _ | store _ _ => True
  | _ => False

theorem Calla.juega {o : Op} (quiet : o.Calla) : o.Juega := by
  cases o with
  | load l => trivial
  | store l v => cases l <;> trivial
  | _ => exact quiet.elim

/-- An access that is not through a freed block. -/
def Sano (o : Op) (s : Estado) : Prop :=
  match o with
  | load l | store l _ => ∀ b ∈ l.block, b ∉ s.libres
  | _ => True

end Op

@[grind ←] theorem calla_load (l : Loc) : (load l).All Op.Calla := (all_perform _).mpr trivial

@[grind ←] theorem calla_store {l : Loc} (v : l.type) (other : l ≠ .gameThreadMuerto) :
    (store l v).All Op.Calla := by
  apply (all_perform _).mpr
  cases l <;> first | contradiction | trivial

@[grind ←] theorem juega_load (l : Loc) : (load l).All Op.Juega := (all_perform _).mpr trivial

@[grind ←] theorem juega_store {l : Loc} (v : l.type) (other : l ≠ .gameThreadMuerto) :
    (store l v).All Op.Juega :=
  (calla_store v other).mono fun _ => Op.Calla.juega

@[grind ←] theorem juega_gotoxy (x y : Int) : (gotoxy x y).All Op.Juega := (all_perform _).mpr trivial

@[grind ←] theorem juega_setColor (fg bg : Int) : (setColor fg bg).All Op.Juega := (all_perform _).mpr trivial

@[grind ←] theorem juega_write (ch : Char) : (write ch).All Op.Juega := (all_perform _).mpr trivial

@[grind ←] theorem juega_pintaCelda (celda : Char) : (pintaCelda celda).All Op.Juega := by
  unfold pintaCelda colorCelda
  grind

@[grind ←] theorem juega_pintaTrozoMapa (x y sizeX sizeY : Int) :
    (pintaTrozoMapa x y sizeX sizeY).All Op.Juega := by
  unfold pintaTrozoMapa
  grind

@[grind ←] theorem juega_pintaPunto (x0 y0 i j k : Int) (pix : Sprite) :
    (pintaPunto x0 y0 pix i j k).All Op.Juega := by
  unfold pintaPunto
  grind

@[grind ←] theorem juega_pintaPixel (x0 y0 sizeX sizeY : Int) (pix : Sprite) :
    (pintaPixel x0 y0 sizeX sizeY pix).All Op.Juega := by
  unfold pintaPixel
  grind

@[grind ←] theorem juega_alcanza (i x y : Int) (e : Enemigo) : (alcanza i x y e).All Op.Juega := by
  unfold alcanza
  grind

@[grind ←] theorem juega_pintaProyectil (i : Int) : (pintaProyectil i).All Op.Juega := by
  unfold pintaProyectil
  grind

@[grind ←] theorem juega_avanzaProyectil (i : Int) : (avanzaProyectil i).All Op.Juega := by
  unfold avanzaProyectil
  grind

@[grind ←] theorem juega_moverProyectil (i : Int) : (moverProyectil i).All Op.Juega := by
  unfold moverProyectil
  apply All.bind (juega_load _)
  intro activo
  split
  · iterate 7 refine All.bind (by grind) fun _ => ?_
    grind
  · trivial

@[grind ←] theorem juega_moverProyectiles : moverProyectiles.All Op.Juega := All.loop juega_moverProyectil _ _

@[grind ←] theorem juega_mueveEnemigos : mueveEnemigos.All Op.Juega := by
  unfold mueveEnemigos giraEnemigo avanzaEnemigo
  grind

@[grind ←] theorem juega_borraYPintaEnemigo (ant : Anteriores) (e : Enemigo) :
    (borraYPintaEnemigo ant e).All Op.Juega := by
  unfold borraYPintaEnemigo
  apply All.bind (juega_load _)
  intro muerto
  split
  · iterate 4 refine All.bind (by grind) fun _ => ?_
    grind
  · trivial

@[grind ←] theorem juega_rondaEnemigos (ant : Anteriores) : (rondaEnemigos ant).All Op.Juega := by
  unfold rondaEnemigos
  grind

@[grind ←] theorem juega_muevePlayer : muevePlayer.All Op.Juega := by
  unfold muevePlayer
  grind

@[grind ←] theorem juega_posicionValida (x y sizeX sizeY : Int) :
    (posicionValida x y sizeX sizeY).All Op.Juega := by
  unfold posicionValida
  grind

@[grind ←] theorem juega_corrigePlayer (ant : Anteriores) : (corrigePlayer ant).All Op.Juega := by
  unfold corrigePlayer
  grind

@[grind ←] theorem juega_pintaPlayer : pintaPlayer.All Op.Juega := by
  unfold pintaPlayer pintaDragonIzquierda
  grind

@[grind ←] theorem juega_rondaPlayer (ant : Anteriores) : (rondaPlayer ant).All Op.Juega := by
  unfold rondaPlayer
  iterate 4 refine All.bind (by grind) fun _ => ?_
  grind

@[grind ←] theorem juega_hayColisionEnemigo (numEnemigo : Int) :
    (hayColisionEnemigo numEnemigo).All Op.Juega := by
  unfold hayColisionEnemigo
  grind

@[grind ←] theorem juega_hayColisionDiamante (dx1 dy1 : Int) : (hayColisionDiamante dx1 dy1).All Op.Juega := by
  unfold hayColisionDiamante
  grind

@[grind ←] theorem juega_pierde : pierde.All Op.Juega := by
  unfold pierde
  grind

@[grind ←] theorem juega_gana : gana.All Op.Juega := by
  unfold gana
  grind

@[grind ←] theorem juega_escalon (i : Int) : (escalon i).All Op.Juega := by
  unfold escalon
  grind

@[grind ←] theorem juega_creaMapa : creaMapa.All Op.Juega := by
  unfold creaMapa
  apply All.bind (All.loop (fun i => All.loop (fun j => by grind) _ _) _ _)
  intro _
  apply All.bind (All.loop (fun i => All.loop (fun j => by grind) _ _) _ _)
  intro _
  exact All.loop juega_escalon _ _

@[grind ←] theorem juega_pintaMapa : pintaMapa.All Op.Juega := by
  unfold pintaMapa
  grind

theorem juega_prepara : prepara.All Op.Juega := by
  unfold prepara
  iterate 10 refine All.bind (by grind) fun _ => ?_
  grind

@[grind ←] theorem calla_creaProyectil : creaProyectil.All Op.Calla := by
  unfold creaProyectil
  refine All.bind ?_ fun _ => all_pure _
  apply All.search
  intro i
  apply All.bind (calla_load _)
  intro activo
  split
  · iterate 3 refine All.bind (by grind) fun _ => ?_
    grind
  · trivial

theorem calla_tecla (c : Char) : (tecla c).All Op.Calla := by
  unfold tecla
  grind

/-- The three threads. A semaphore that is not signalled keeps its caller waiting; a read
returns with whatever the keyboard gives. -/
def hilos : Threads Thread Op.answer Punto Estado (Int × Char) where
  body := cuerpo
  calls := Op.call
  handler := handler
  ready
    | .semWait, s => s.semChanges > 0
    | _, _ => True
  alive t s := t ∈ s.creados

abbrev Juego := Pool Thread Op.answer Punto Estado

abbrev Jugada := Turn Thread Op Estado (Int × Char)

/-- Before `main` runs. -/
def Juego.inicial (contents : Mem) : Juego where
  shared := Estado.inicial contents
  code
    | .main => .pure .main
    | .keyboardThread => .pure .keyboardThread
    | .gameThread => .pure .gameThread

/-- Whenever a block has been freed the flag is set. -/
def Estado.Avisado (s : Estado) : Prop := s.libres ≠ [] → s.mem.gameThreadMuerto ≠ 0

/-- `keyboardThread` and `main` neither free nor touch the flag; `gameThread` sets it before it
frees, and nobody else creates threads but `main`. -/
def permitido : Thread → Op → Estado → Prop
  | .main, o, s => (o.Juega ∨ o.call) ∧ o.Sano s
  | .keyboardThread, o, s => o.Juega ∧ o.Sano s
  | .gameThread, o, s => o.Sano s ∧ .gameThread ∈ s.creados ∧
    match o with
    | .store .gameThreadMuerto v => v ≠ 0
    | .free _ => s.mem.gameThreadMuerto ≠ 0
    | _ => True

/-- What each thread relies on: `gameThread` that nothing is freed for it, `keyboardThread`
that a free is announced, `main` that nothing is freed before it has created `gameThread`. -/
def confia : Thread → Estado → Estado → Prop
  | .main, s, s' => .gameThread ∉ s.creados → s'.libres = s.libres ∧ .gameThread ∉ s'.creados
  | .keyboardThread, s, s' => s.Avisado → s'.Avisado
  | .gameThread, s, s' => s'.libres = s.libres ∧ s'.mem.gameThreadMuerto = s.mem.gameThreadMuerto ∧
    (.gameThread ∈ s.creados → .gameThread ∈ s'.creados)

def sabe : Thread → Punto → Estado → Prop
  | .main, .main, s => s.libres = [] ∧ .gameThread ∉ s.creados
  | .main, .bucleMain, _ => True
  | .keyboardThread, .keyboardThread, s => s.Avisado
  | .gameThread, .gameThread, s => s.libres = []
  | .gameThread, .bucleGame _, s => s.libres = []
  | .gameThread, .fin, _ => True
  | _, _, _ => False

@[simp] theorem set_gameThreadMuerto (m : Mem) {l : Loc} (v : l.type) (other : l ≠ .gameThreadMuerto) :
    (m.set l v).gameThreadMuerto = m.gameThreadMuerto := by
  cases l with
  | gameThreadMuerto => contradiction
  | x p | y p | state p | dir p => cases p <;> rfl
  | _ => rfl

section Handler

variable {leido : Int × Char} {o : Op} {s : Estado}

theorem quiet_same (leido : Int × Char) (s : Estado) (plays : o.Juega ∨ o.call) : ((handler leido o s).2).libres = s.libres ∧
    ((handler leido o s).2).mem.gameThreadMuerto = s.mem.gameThreadMuerto := by
  cases o with
  | store l v =>
    refine ⟨rfl, ?_⟩
    apply set_gameThreadMuerto
    rintro rfl
    rcases plays with plays | calls
    · exact plays
    · exact Bool.false_ne_true calls
  | free b =>
    rcases plays with plays | calls
    · exact plays.elim
    · exact (Bool.false_ne_true calls).elim
  | _ => exact ⟨rfl, rfl⟩

theorem quiet_avisado (plays : o.Juega ∨ o.call) (warned : s.Avisado) :
    ((handler leido o s).2).Avisado := by
  obtain ⟨libres, muerto⟩ := quiet_same leido s plays
  intro freed
  rw [libres] at freed
  rw [muerto]
  exact warned freed

theorem creados_same (creates : ∀ t, o ≠ .createThread t) : ((handler leido o s).2).creados = s.creados := by
  cases o with
  | createThread t => exact absurd rfl (creates t)
  | _ => rfl

theorem creados_kept {t : Thread} (mem : t ∈ s.creados) : t ∈ ((handler leido o s).2).creados := by
  cases o with
  | createThread u => exact List.mem_cons_of_mem _ mem
  | _ => exact mem

theorem creados_quiet (leido : Int × Char) (s : Estado) (plays : o.Juega) : ((handler leido o s).2).creados = s.creados := by
  apply creados_same
  rintro t rfl
  exact plays

/-- What `gameThread` may do announces what it frees. -/
theorem permitido_avisado (may : permitido .gameThread o s) (warned : s.Avisado) :
    ((handler leido o s).2).Avisado := by
  obtain ⟨-, -, may⟩ := may
  cases o with
  | store l v =>
    by_cases flag : l = .gameThreadMuerto
    · subst flag
      exact fun _ => may
    · intro freed
      have same := set_gameThreadMuerto s.mem v flag
      exact same ▸ warned freed
  | free b => exact fun _ => may
  | _ => exact warned

end Handler

def protocolo : Protocol hilos where
  allowed := permitido
  assumed leido o s := match o with
    | .read => leido.1 > 0 → s.mem.gameThreadMuerto = 0
    | _ => True
  rely := confia
  knows := sabe
  rely_refl t s := by
    cases t with
    | main => exact fun absent => ⟨rfl, absent⟩
    | keyboardThread => exact id
    | gameThread => exact ⟨rfl, rfl, id⟩
  rely_trans t s s' s'' first second := by
    cases t with
    | main =>
      intro absent
      obtain ⟨same, absent'⟩ := first absent
      obtain ⟨same', absent''⟩ := second absent'
      exact ⟨same'.trans same, absent''⟩
    | keyboardThread => exact second ∘ first
    | gameThread =>
      exact ⟨second.1.trans first.1, second.2.1.trans first.2.1, second.2.2 ∘ first.2.2⟩
  knows_stable t x s s' knows others := by
    cases t with
    | main =>
      cases x with
      | main =>
        obtain ⟨same, absent⟩ := others knows.2
        exact ⟨same.trans knows.1, absent⟩
      | bucleMain => trivial
      | _ => exact knows.elim
    | keyboardThread =>
      cases x with
      | keyboardThread => exact others knows
      | _ => exact knows.elim
    | gameThread =>
      cases x with
      | gameThread | bucleGame ant => exact others.1.trans knows
      | fin => trivial
      | _ => exact knows.elim
  alive_kept t leido o s alive := creados_kept alive
  guarantee t u leido o s other may := by
    cases u with
    | main =>
      intro absent
      cases t with
      | main => exact absurd rfl other
      | keyboardThread =>
        have same := creados_quiet leido s may.1
        refine ⟨(quiet_same leido s (.inl may.1)).1, ?_⟩
        change .gameThread ∉ ((handler leido o s).2).creados
        rwa [same]
      | gameThread => exact absurd may.2.1 absent
    | keyboardThread =>
      intro warned
      cases t with
      | main =>
        exact quiet_avisado may.1 warned
      | keyboardThread => exact absurd rfl other
      | gameThread => exact permitido_avisado may warned
    | gameThread =>
      cases t with
      | main =>
        obtain ⟨libres, muerto⟩ := quiet_same leido s may.1
        exact ⟨libres, muerto, creados_kept⟩
      | keyboardThread =>
        obtain ⟨libres, muerto⟩ := quiet_same leido s (.inl may.1)
        exact ⟨libres, muerto, creados_kept⟩
      | gameThread => exact absurd rfl other

section Correct

variable {α : Type} {p : Code α} {s : Estado}

theorem sano_of_empty {o : Op} (empty : s.libres = []) : o.Sano s := by
  unfold Op.Sano
  split
  · simp [empty]
  · simp [empty]
  · trivial

theorem sano_of_call {o : Op} (calls : o.call = true) : o.Sano s := by
  cases o with
  | load l | store l v => exact (Bool.false_ne_true calls).elim
  | _ => trivial

/-- While `gameThread` plays nothing is freed. -/
theorem gameThread_plays (all : p.All Op.Juega) (empty : s.libres = []) (here : .gameThread ∈ s.creados) :
    p.wp (protocolo.rules .gameThread) (fun _ s' => s'.libres = [] ∧ .gameThread ∈ s'.creados) s := by
  apply Protocol.wp_of_all all _ _ _ ⟨empty, here⟩
  · rintro o s' plays ⟨empty, here⟩
    refine ⟨sano_of_empty empty, here, ?_⟩
    split
    · exact plays.elim
    · exact plays.elim
    · trivial
  · rintro o s' s'' - - ⟨empty, here⟩ ⟨same, -, kept⟩
    exact ⟨same.trans empty, kept here⟩
  · rintro leido o s' plays ⟨empty, here⟩ -
    exact ⟨(quiet_same leido s' (.inl plays)).1.trans empty, creados_kept here⟩

/-- `main` prepares the game before there is a `gameThread`. -/
theorem main_prepares (all : p.All Op.Juega) (empty : s.libres = []) (absent : .gameThread ∉ s.creados) :
    p.wp (protocolo.rules .main) (fun _ s' => s'.libres = [] ∧ .gameThread ∉ s'.creados) s := by
  apply Protocol.wp_of_all all _ _ _ ⟨empty, absent⟩
  · rintro o s' plays ⟨empty, absent⟩
    exact ⟨.inl plays, sano_of_empty empty⟩
  · rintro o s' s'' - - ⟨empty, absent⟩ others
    obtain ⟨same, absent'⟩ := others absent
    exact ⟨same.trans empty, absent'⟩
  · rintro leido o s' plays ⟨empty, absent⟩ -
    refine ⟨(quiet_same leido s' (.inl plays)).1.trans empty, ?_⟩
    change .gameThread ∉ ((handler leido o s').2).creados
    rwa [creados_quiet leido s' plays]

/-- A key is handled in one go, so nothing is freed during it if nothing was before. -/
theorem keyboardThread_handles (all : p.All Op.Calla) (empty : s.libres = []) :
    p.wp (protocolo.rules .keyboardThread) (fun _ s' => s'.libres = []) s := by
  apply Protocol.wp_of_all (J := fun s : Estado => s.libres = []) all _ _ _ empty
  · intro o s' quiet empty
    exact ⟨quiet.juega, sano_of_empty empty⟩
  · intro o s' s'' quiet call
    cases o with
    | load l | store l v => exact (Bool.false_ne_true call).elim
    | _ => exact quiet.elim
  · intro leido o s' quiet empty _
    exact (quiet_same leido s' (.inl quiet.juega)).1.trans empty

theorem main_correct (prepared : s.libres = [] ∧ .gameThread ∉ s.creados) :
    main.wp (protocolo.rules .main) (sabe .main) s := by
  simp only [main, wp_bind]
  apply wp_mono _ (main_prepares juega_prepara prepared.1 prepared.2)
  intro _ s' _
  have call {o : Op} {s : Estado} {Q : o.answer → Estado → Prop} (calls : o.call = true)
      (after : ∀ r t, Q r t) : (perform o).wp (protocolo.rules .main) Q s :=
    Protocol.wp_call calls (fun _ _ => ⟨.inr calls, sano_of_call calls⟩) fun _ _ _ _ => after _ _
  apply call rfl
  intro _ _
  apply call rfl
  intro _ _
  apply call rfl
  intro _ _
  apply call rfl
  intro _ _
  trivial

theorem keyboardThread_correct (warned : s.Avisado) :
    rondaKeyboard.wp (protocolo.rules .keyboardThread) (sabe .keyboardThread) s := by
  simp only [rondaKeyboard, wp_bind]
  apply Protocol.wp_silent rfl
  · exact ⟨trivial, by rintro b ⟨⟩⟩
  intro _
  rw [wp_ite]
  split
  · exact warned
  simp only [leeTecla, wp_bind]
  apply Protocol.wp_call rfl
  · intro _ _
    exact ⟨trivial, trivial⟩
  intro leido before others assumed
  have warned' : before.Avisado := others warned
  rw [wp_ite]
  split
  next key =>
    have empty : before.libres = [] := by
      by_contra freed
      exact warned' freed (assumed key)
    simp only [wp_bind]
    apply wp_mono _ (keyboardThread_handles (calla_tecla _) empty)
    intro _ s' empty'
    apply Protocol.wp_call rfl
    · intro _ _
      exact ⟨trivial, trivial⟩
    intro leido' before' others' _
    have none : s'.Avisado := fun freed => absurd empty' freed
    exact others' none
  · exact warned'

/-- A block is freed after the flag has been set. -/
theorem gameThread_frees {b : Block} {Q : Unit → Estado → Prop} (warned : s.mem.gameThreadMuerto ≠ 0)
    (here : .gameThread ∈ s.creados)
    (after : ∀ t : Estado, t.mem.gameThreadMuerto ≠ 0 → .gameThread ∈ t.creados → Q () t) :
    (free b).wp (protocolo.rules .gameThread) Q s := by
  simp only [free, wp_bind]
  apply Protocol.wp_silent rfl
  · exact ⟨trivial, here, warned⟩
  intro leido
  apply Protocol.wp_call rfl
  · rintro t ⟨-, -, kept⟩
    exact ⟨trivial, kept here, trivial⟩
  · rintro leido' before ⟨-, same, kept⟩ -
    exact after _ (same ▸ warned) (kept here)

theorem acaba_correct {x0 y0 sizeX sizeY : Int} {titulo : Sprite} (empty : s.libres = [])
    (here : .gameThread ∈ s.creados) :
    (acaba x0 y0 sizeX sizeY titulo).wp (protocolo.rules .gameThread) (sabe .gameThread) s := by
  simp only [acaba, liberaRecursos, wp_bind]
  apply wp_mono _ (gameThread_plays (juega_pintaPixel ..) empty here)
  rintro _ s' ⟨empty', here'⟩
  apply Protocol.wp_silent rfl
  · exact ⟨sano_of_empty empty', here', Int.one_ne_zero⟩
  intro leido
  have flagged : ((handler leido (.store .gameThreadMuerto 1) s').2).mem.gameThreadMuerto ≠ 0 := Int.one_ne_zero
  -- the ten blocks, one after the other
  refine gameThread_frees flagged here' fun s1 flag1 here1 => ?_
  refine gameThread_frees flag1 here1 fun s2 flag2 here2 => ?_
  refine gameThread_frees flag2 here2 fun s3 flag3 here3 => ?_
  refine gameThread_frees flag3 here3 fun s4 flag4 here4 => ?_
  refine gameThread_frees flag4 here4 fun s5 flag5 here5 => ?_
  refine gameThread_frees flag5 here5 fun s6 flag6 here6 => ?_
  refine gameThread_frees flag6 here6 fun s7 flag7 here7 => ?_
  refine gameThread_frees flag7 here7 fun s8 flag8 here8 => ?_
  refine gameThread_frees flag8 here8 fun s9 flag9 here9 => ?_
  refine gameThread_frees flag9 here9 fun s10 flag10 here10 => ?_
  apply Protocol.wp_call rfl
  · rintro t ⟨-, -, kept⟩
    exact ⟨trivial, kept here10, trivial⟩
  · intro _ _ _ _
    trivial

theorem finRonda_correct {ant : Anteriores} (empty : s.libres = []) (here : .gameThread ∈ s.creados) :
    (finRonda ant).wp (protocolo.rules .gameThread) (sabe .gameThread) s := by
  simp only [finRonda, wp_bind]
  apply wp_mono _ (gameThread_plays juega_pierde empty here)
  rintro lost s' ⟨empty', here'⟩
  rw [wp_ite]
  split
  · exact acaba_correct empty' here'
  rw [wp_bind]
  apply wp_mono _ (gameThread_plays juega_gana empty' here')
  rintro won s'' ⟨empty'', here''⟩
  rw [wp_ite]
  split
  · exact acaba_correct empty'' here''
  · exact empty''

theorem rondaGame_correct {ant : Anteriores} (empty : s.libres = []) (here : .gameThread ∈ s.creados) :
    (rondaGame ant).wp (protocolo.rules .gameThread) (sabe .gameThread) s := by
  simp only [rondaGame, wp_bind]
  apply Protocol.wp_call rfl
  · rintro t ⟨-, -, kept⟩
    exact ⟨trivial, kept here, trivial⟩
  rintro leido before ⟨same, -, kept⟩ -
  have empty0 : ((handler leido .semWait before).2).libres = [] := same.trans empty
  apply wp_mono _ (gameThread_plays (juega_pintaPixel ..) empty0 (kept here))
  rintro _ s1 ⟨empty1, here1⟩
  apply wp_mono _ (gameThread_plays (juega_pintaPixel ..) empty1 here1)
  rintro _ s2 ⟨empty2, here2⟩
  apply wp_mono _ (gameThread_plays juega_moverProyectiles empty2 here2)
  rintro _ s3 ⟨empty3, here3⟩
  apply wp_mono _ (gameThread_plays (juega_rondaEnemigos ant) empty3 here3)
  rintro ant4 s4 ⟨empty4, here4⟩
  apply wp_mono _ (gameThread_plays (juega_rondaPlayer ant4) empty4 here4)
  rintro ant5 s5 ⟨empty5, here5⟩
  exact finRonda_correct empty5 here5

theorem gameThread_correct (empty : s.libres = []) (here : .gameThread ∈ s.creados) :
    (cuerpo .gameThread).wp (protocolo.rules .gameThread) (sabe .gameThread) s := by
  have look {l : Loc} {Q : l.type → Estado → Prop} (after : ∀ v, Q v s) :
      (load l).wp (protocolo.rules .gameThread) Q s :=
    Protocol.wp_silent rfl ⟨sano_of_empty empty, here, trivial⟩ fun _ => after _
  simp only [cuerpo, wp_bind]
  apply look
  intro _
  apply look
  intro _
  apply look
  intro _
  apply look
  intro _
  apply look
  intro _
  apply look
  intro _
  exact empty

theorem protocolo_correct : protocolo.Correct := by
  intro t x s knows alive
  cases t with
  | main =>
    cases x with
    | main => exact main_correct knows
    | bucleMain =>
      simp only [hilos, cuerpo, wp_bind]
      apply Protocol.wp_call rfl
      · intro _ _
        exact ⟨.inr rfl, trivial⟩
      · intro _ _ _ _
        trivial
    | _ => exact knows.elim
  | keyboardThread =>
    cases x with
    | keyboardThread => exact keyboardThread_correct knows
    | _ => exact knows.elim
  | gameThread =>
    cases x with
    | gameThread => exact gameThread_correct knows alive
    | bucleGame ant => exact rondaGame_correct knows alive
    | fin => trivial
    | _ => exact knows.elim

end Correct

/-- A turn that does not return from a read with a key while the flag is set. -/
def SinTecla (S : Juego) (jugada : Jugada) : Prop :=
  ∀ k, S.code jugada.thread = .op .read k → jugada.env.1 > 0 → S.shared.mem.gameThreadMuerto = 0

theorem SinTecla.assumed {S : Juego} {jugada : Jugada} (keyless : SinTecla S jugada) :
    protocolo.Assumed S jugada := by
  unfold Protocol.Assumed
  cases standing : S.code jugada.thread with
  | pure x => trivial
  | op o k =>
    cases o with
    | read => exact keyless k standing
    | _ => trivial

/-- In every run of the three threads in which no read returns with a key once `gameThread` has
set the flag, which it does on its way to `liberaRecursos`: nobody reads or writes a freed block. -/
theorem liberaRecursos_sano (contents : Mem) {jugadas : List Jugada} {S : Juego}
    (run : Path (Guarded SinTecla hilos.Step) (Juego.inicial contents) jugadas S) :
    ∀ jugada ∈ jugadas, ∀ event ∈ jugada.events, event.1.Sano event.2 := by
  have safe : ∀ t, protocolo.Safe t ((Juego.inicial contents).code t) (Juego.inicial contents).shared := by
    intro t
    cases t with
    | main => exact ⟨trivial, rfl, by simp [Juego.inicial, Estado.inicial]⟩
    | keyboardThread => exact ⟨trivial, fun freed => absurd rfl freed⟩
    | gameThread => exact ⟨trivial, rfl⟩
  intro jugada mem event happens
  have assumed := run.mono (fun _ _ _ step => (⟨step.1.assumed, step.2⟩ : Guarded protocolo.Assumed _ _ _ _))
  have may := Protocol.sound protocolo_correct safe assumed jugada mem event happens
  cases thread : jugada.thread with
  | main =>
    rw [thread] at may
    exact may.2
  | keyboardThread =>
    rw [thread] at may
    exact may.2
  | gameThread =>
    rw [thread] at may
    exact may.1

end Zeos.Game
