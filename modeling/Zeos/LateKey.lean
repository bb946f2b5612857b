import Zeos.Endgame

/-! The order of the three threads in which a key comes too late. `keyboardThread` finds the
flag unset and waits in its read; the game is lost meanwhile, and the next key is stored into
the player that `liberaRecursos` has freed. -/
namespace Zeos.Game
open Programs Prog Transition

/-- The player after one of the two keys that the run needs. -/
def Mem.pulsa (m : Mem) (c : Char) : Mem :=
  if c = 'w' then { m with player := { m.player with state := .stUp } }
  else if c = 'd' then { m with player := { m.player with state := .stRight, dir := .right } }
  else m

/-- What a key and the round after it make of the game. -/
def Mem.jugada (m : Mem) (c : Char) : Mem := (m.pulsa c).ronda

/-- The game goes on behind each of the keys. -/
def Mem.Sigue : List Char → Mem → Prop
  | [], _ => True
  | c :: keys, m => ¬(m.jugada c).Pierde ∧ ¬(m.jugada c).Gana ∧ (m.jugada c).Sigue keys

/-- Such a key turns the player and leaves it where it is. -/
theorem Mem.pulsa_eq (m : Mem) (c : Char) :
    ∃ state dir, m.pulsa c = { m with player := { m.player with state, dir } } := by
  unfold Mem.pulsa
  split
  · exact ⟨.stUp, m.player.dir, rfl⟩
  split
  · exact ⟨.stRight, .right, rfl⟩
  · exact ⟨m.player.state, m.player.dir, rfl⟩

theorem Mem.Valida.pulsa {m : Mem} (valid : m.Valida) (c : Char) : (m.pulsa c).Valida := by
  obtain ⟨state, dir, same⟩ := m.pulsa_eq c
  rw [same]
  exact valid.player valid.dragon

theorem Mem.pulsa_flag (m : Mem) (c : Char) : (m.pulsa c).gameThreadMuerto = m.gameThreadMuerto := by
  obtain ⟨state, dir, same⟩ := m.pulsa_eq c
  rw [same]

theorem Anteriores.Cerca.pulsa {ant : Anteriores} {m : Mem} (near : ant.Cerca m) (c : Char) :
    ant.Cerca (m.pulsa c) := by
  obtain ⟨state, dir, same⟩ := m.pulsa_eq c
  rw [same]
  exact ⟨near.x, near.y, near.enemies⟩

theorem Mem.Valida.jugada {m : Mem} (valid : m.Valida) (c : Char) : (m.jugada c).Valida := (valid.pulsa c).ronda

theorem Mem.jugada_flag (m : Mem) (c : Char) : (m.jugada c).gameThreadMuerto = m.gameThreadMuerto := by
  rw [Mem.jugada, Mem.ronda_gameThreadMuerto, Mem.pulsa_flag]

instance Mem.decidableSigue : (keys : List Char) → (m : Mem) → Decidable (m.Sigue keys)
  | [], _ => inferInstanceAs (Decidable True)
  | c :: keys, m =>
    have := decidableSigue keys (m.jugada c)
    inferInstanceAs (Decidable (_ ∧ _ ∧ _))

section Rules

variable {leido : Int × Char} {s : Estado} {c : Char}

theorem wp_pulsa {Q : Unit → Estado → Prop} (known : c = 'w' ∨ c = 'd')
    (last : Q () { s with mem := s.mem.pulsa c }) : (tecla c).wp (reglas leido) Q s := by
  rcases known with rfl | rfl
  · simpa [tecla, Mem.pulsa, Mem.set, Mem.setCharacter, Op.Dentro] using last
  · simpa [tecla, Mem.pulsa, Mem.set, Mem.setCharacter, Op.Dentro] using last

theorem wp_leeTecla {Q : Punto → Estado → Prop} (known : c = 'w' ∨ c = 'd')
    (last : Q .keyboardThread { s with mem := s.mem.pulsa c, semChanges := s.semChanges + 1 }) :
    leeTecla.wp (reglas (1, c)) Q s := by
  have pressed : (handler (1, c) Op.read s).1.1 > 0 := Int.one_pos
  simp only [leeTecla, wp_bind, wp_perform, Op.Dentro, true_and, wp_ite]
  rw [if_pos pressed]
  apply wp_pulsa known
  exact last

end Rules

section Ready

/-- What never has to wait. -/
abbrev Op.Corre (o : Op) : Prop := o ≠ .semWait

theorem Op.Juega.corre {o : Op} (plays : o.Juega) : o.Corre := by
  rintro rfl
  exact plays

theorem ready_of_corre {o : Op} {s : Estado} (goes : o.Corre) : hilos.ready o s := by
  cases o with
  | semWait => contradiction
  | _ => trivial

theorem corre_free (b : Block) : (free b).All Op.Corre := by
  simp [free, All.bind]

theorem corre_acaba (x0 y0 sizeX sizeY : Int) (titulo : Sprite) :
    (acaba x0 y0 sizeX sizeY titulo).All Op.Corre := by
  apply All.bind ((juega_pintaPixel ..).mono fun _ => Op.Juega.corre)
  intro _
  apply All.bind ((all_perform _).mpr nofun)
  intro _
  apply All.bind
  · unfold liberaRecursos
    iterate 9 refine All.bind (corre_free _) fun _ => ?_
    exact corre_free _
  · intro _
    exact ⟨nofun, fun _ => trivial⟩

theorem corre_finRonda (ant : Anteriores) : (finRonda ant).All Op.Corre := by
  apply All.bind (juega_pierde.mono fun _ => Op.Juega.corre)
  intro lost
  split
  · exact corre_acaba ..
  apply All.bind (juega_gana.mono fun _ => Op.Juega.corre)
  intro won
  split
  · exact corre_acaba ..
  · trivial

/-- A round waits once, at its start. -/
theorem rondaGame_waits (ant : Anteriores) :
    ∃ k, rondaGame ant = .op .semWait k ∧ ∀ r, (k r).All Op.Corre := by
  refine ⟨_, rfl, fun _ => ?_⟩
  have plays {α : Type} {p : Code α} (all : p.All Op.Juega) : p.All Op.Corre := all.mono fun _ => Op.Juega.corre
  apply All.bind (plays (juega_pintaPixel ..))
  intro _
  apply All.bind (plays (juega_pintaPixel ..))
  intro _
  apply All.bind (plays juega_moverProyectiles)
  intro _
  apply All.bind (plays (juega_rondaEnemigos ant))
  intro ant'
  apply All.bind (plays (juega_rondaPlayer ant'))
  intro ant''
  exact corre_finRonda ant''

/-- A key is read once, at the start. -/
theorem leeTecla_reads :
    ∃ k, leeTecla = .op .read k ∧ ∀ r, (k r).All fun o => o.Corre ∧ o ≠ .read := by
  have silent {o : Op} (quiet : o.Calla) : o.Corre ∧ o ≠ .read := by
    refine ⟨quiet.juega.corre, ?_⟩
    rintro rfl
    exact quiet
  refine ⟨_, rfl, fun leido => ?_⟩
  show (if leido.1 > 0 then _ else _ : Code Punto).All _
  split
  · apply All.bind ((calla_tecla _).mono fun _ => silent)
    intro _
    exact ⟨⟨nofun, nofun⟩, fun _ => trivial⟩
  · trivial

theorem corre_main : main.All Op.Corre := by
  apply All.bind (juega_prepara.mono fun _ => Op.Juega.corre)
  intro _
  exact ⟨nofun, fun _ => ⟨nofun, fun _ => ⟨nofun, fun _ => ⟨nofun, fun _ => trivial⟩⟩⟩⟩

end Ready

/-- The game between two keys: `keyboardThread` waits for one, `gameThread` for a round. -/
structure Espera (S : Juego) (m : Mem) : Prop where
  mem : S.shared.mem = m
  signals : 0 ≤ S.shared.semChanges
  created : ∀ t, t ∈ S.shared.creados
  keyboard : S.code .keyboardThread = leeTecla
  game : ∃ ant : Anteriores, ant.Cerca m ∧ S.code .gameThread = rondaGame ant

/-- A read that returns a key while the flag is unset, or no read that does. -/
def Temprana (leido : Int × Char) (o : Op) (s : Estado) : Prop :=
  o = .read → leido.1 > 0 → s.mem.gameThreadMuerto = 0

/-- A turn in which no key comes late. -/
abbrev PasoSinTecla : Juego → Jugada → Juego → Prop := Guarded SinTecla hilos.Step

theorem PasoSinTecla.of_returns {S S' : Juego} {jugada : Jugada}
    (step : Guarded (Threads.Returns Temprana) hilos.Step S jugada S') : PasoSinTecla S jugada S' :=
  ⟨fun k stands => step.1 .read k stands rfl, step.2⟩

/-- A thread that stands at a call comes to the end of its program, if nothing keeps it. -/
theorem reaches_end {S : Juego} {t : Thread} (leido : Int × Char) {o : Op} {k : o.answer → Code Punto}
    {Q : Punto → Estado → Prop} (stands : S.code t = .op o k) (call : o.call = true)
    (here : t ∈ S.shared.creados) (ready : hilos.ready o S.shared) (goes : ∀ r, (k r).All Op.Corre)
    (early : leido.1 > 0 → S.shared.mem.gameThreadMuerto = 0 ∧ ∀ r, (k r).All (· ≠ .read))
    (holds : (S.code t).wp (reglas leido) Q S.shared) : ∃ jugadas x s', Q x s' ∧
      Path PasoSinTecla S jugadas (Threads.put S t (hilos.settle leido (.pure x) s')) := by
  obtain ⟨jugadas, path⟩ := Threads.runs_on (T := hilos) (e := leido) (A := Temprana) stands call
    (fun _ _ => creados_kept) here (by
      intro event mem _
      rw [stands] at mem
      rcases List.mem_cons.mp mem with rfl | mem
      · exact ⟨ready, fun _ key => (early key).1⟩
      · refine ⟨ready_of_corre ((goes _).run _ _ event mem), fun reads key => ?_⟩
        exact absurd reads (((early key).2 _).run _ _ event mem))
  exact ⟨jugadas, _, _, (run_of_wp holds).2, path.mono fun _ _ _ => .of_returns⟩

/-- The same of a thread that goes on at a point, while no key comes. -/
theorem reaches_end_from {S : Juego} {t : Thread} (leido : Int × Char) {x : Punto} {Q : Punto → Estado → Prop}
    (keyless : ¬leido.1 > 0) (stands : S.code t = .pure x) (here : t ∈ S.shared.creados) (goes : (cuerpo x).All Op.Corre)
    (holds : (cuerpo x).wp (reglas leido) Q S.shared) : ∃ jugadas y s', Q y s' ∧
      Path PasoSinTecla S jugadas (Threads.put S t (hilos.settle leido (.pure y) s')) := by
  obtain ⟨jugadas, path⟩ := Threads.runs_from (T := hilos) (e := leido) (A := Temprana) stands
    (fun _ _ => creados_kept) here
    fun event mem _ => ⟨ready_of_corre (goes.run _ _ event mem), fun _ key => absurd key keyless⟩
  exact ⟨jugadas, _, _, (run_of_wp holds).2, path.mono fun _ _ _ => .of_returns⟩

/-- `keyboardThread` comes round to its read, as long as it finds the flag unset. -/
theorem put_keyboardThread (S : Juego) {leido : Int × Char} {s : Estado} (unset : s.mem.gameThreadMuerto = 0) :
    Threads.put S .keyboardThread (hilos.settle leido (.pure .keyboardThread) s) =
      ⟨s, Function.update S.code .keyboardThread leeTecla⟩ := by
  have stands : cuerpo .keyboardThread = .op (.load .gameThreadMuerto) fun muerto : Int =>
    if muerto ≠ 0 then .pure .keyboardThread else leeTecla := rfl
  simp only [Threads.put, Threads.settle, Prog.drain, hilos, stands, Op.call, handler, Mem.get, unset]
  rfl

/-- A key that comes while nothing is ended is handled, and signals a round. -/
theorem Espera.pulsa {S : Juego} {m : Mem} {c : Char} (waits : Espera S m) (known : c = 'w' ∨ c = 'd')
    (unset : m.gameThreadMuerto = 0) : ∃ jugadas S', Path PasoSinTecla S jugadas S' ∧ Espera S' (m.pulsa c) ∧
      0 < S'.shared.semChanges := by
  obtain ⟨k, reads, goes⟩ := leeTecla_reads
  obtain ⟨jugadas, x, s', ⟨rfl, rfl⟩, path⟩ := reaches_end (1, c) (waits.keyboard.trans reads) rfl (waits.created _)
    trivial (fun r => (goes r).mono fun _ both => both.1)
    (fun _ => ⟨by rw [waits.mem, unset], fun r => (goes r).mono fun _ both => both.2⟩)
    (Q := fun x s' => x = .keyboardThread ∧ s' = { S.shared with
      mem := m.pulsa c
      semChanges := S.shared.semChanges + 1 }) (by
      rw [waits.keyboard]
      apply wp_leeTecla known
      rw [waits.mem]
      exact ⟨rfl, rfl⟩)
  rw [put_keyboardThread S ((m.pulsa_flag c).trans unset)] at path
  obtain ⟨ant, near, game⟩ := waits.game
  have signals := waits.signals
  refine ⟨jugadas, _, path, ⟨rfl, ?_, waits.created, ?_, ant, near.pulsa c, ?_⟩, ?_⟩
  · simp only
    omega
  · simp only [Function.update_self]
  · simpa only [Function.update_of_ne (show Thread.gameThread ≠ .keyboardThread by decide)] using game
  · simp only
    omega

theorem settle_bucleGame (leido : Int × Char) (ant : Anteriores) (s : Estado) :
    hilos.settle leido (.pure (.bucleGame ant)) s = ⟨[], rondaGame ant, s⟩ := rfl

theorem settle_bucleMain (leido : Int × Char) (s : Estado) :
    hilos.settle leido (.pure .bucleMain) s = ⟨[], cuerpo .bucleMain, s⟩ := rfl

theorem settle_fin (leido : Int × Char) (s : Estado) :
    hilos.settle leido (.pure .fin) s = ⟨[], .pure .fin, s⟩ := rfl

/-- A round that has been signalled is played, and the game goes on or everything is freed. -/
theorem Espera.ronda {S : Juego} {m : Mem} (waits : Espera S m) (valid : m.Valida)
    (signalled : 0 < S.shared.semChanges) : ∃ jugadas S', Path PasoSinTecla S jugadas S' ∧
      (¬m.ronda.Pierde → ¬m.ronda.Gana → Espera S' m.ronda) ∧
      (m.ronda.Pierde ∨ m.ronda.Gana → .keyboardThread ∈ S'.shared.creados ∧
        S'.code .keyboardThread = leeTecla ∧ .character .player ∈ S'.shared.libres) := by
  obtain ⟨ant, near, game⟩ := waits.game
  obtain ⟨k, stands, goes⟩ := rondaGame_waits ant
  obtain ⟨jugadas, x, s', ends, path⟩ := reaches_end (0, ' ') (game.trans stands) rfl (waits.created _)
    signalled goes (fun key => absurd key (by decide)) (Q := fun x s' =>
      (¬m.ronda.Pierde ∧ ¬m.ronda.Gana ∧ (∃ ant' : Anteriores, ant'.Cerca m.ronda ∧ x = .bucleGame ant') ∧
        s' = { S.shared with mem := m.ronda, semChanges := S.shared.semChanges - 1 }) ∨
      (m.ronda.Pierde ∨ m.ronda.Gana) ∧ x = .fin ∧
        s' = ({ S.shared with mem := m.ronda, semChanges := S.shared.semChanges - 1 } : Estado).acabado) (by
      rw [game]
      apply wp_rondaGame
      · rw [waits.mem]
        exact valid
      · rw [waits.mem]
        exact near
      · rw [waits.mem]
        intro plays goes ant' near'
        exact .inl ⟨plays, goes, ⟨ant', near', rfl⟩, rfl⟩
      · rw [waits.mem]
        intro ended
        exact .inr ⟨ended, rfl, rfl⟩)
  refine ⟨jugadas, _, path, ?_⟩
  have other : Thread.keyboardThread ≠ .gameThread := by decide
  rcases ends with ⟨plays, goes, ⟨ant', near', rfl⟩, rfl⟩ | ⟨ended, rfl, rfl⟩
  · rw [settle_bucleGame]
    refine ⟨fun _ _ => ⟨rfl, ?_, waits.created, ?_, ant', near', ?_⟩, ?_⟩
    · simp only [Threads.put]
      omega
    · simpa only [Threads.put, Function.update_of_ne other] using waits.keyboard
    · simp only [Threads.put, Function.update_self]
    · intro ended
      exact (ended.elim plays goes).elim
  · rw [settle_fin]
    refine ⟨?_, ?_⟩
    · intro plays goes
      exact (ended.elim plays goes).elim
    · intro _
      refine ⟨waits.created _, ?_, ?_⟩
      · simpa only [Threads.put, Function.update_of_ne other] using waits.keyboard
      · simp [Threads.put, Estado.acabado]

theorem resume_gameThread (leido : Int × Char) (s : Estado) :
    (hilos.resume leido (.pure .gameThread) s).value = rondaGame (Partida.anteriores s.mem) ∧
    (hilos.resume leido (.pure .gameThread) s).state = s := ⟨rfl, rfl⟩

theorem resume_keyboardThread {leido : Int × Char} {s : Estado} (unset : s.mem.gameThreadMuerto = 0) :
    (hilos.resume leido (.pure .keyboardThread) s).value = leeTecla ∧
    (hilos.resume leido (.pure .keyboardThread) s).state = s := by
  have stands : cuerpo .keyboardThread = .op (.load .gameThreadMuerto) fun muerto : Int =>
    if muerto ≠ 0 then .pure .keyboardThread else leeTecla := rfl
  simp only [Threads.resume, Threads.settle, Prog.drain, hilos, stands, Op.call, handler, Mem.get, unset]
  exact ⟨rfl, rfl⟩

/-- A thread that goes on at a point and looks round without touching anything. -/
theorem looks_round {S : Juego} {t : Thread} (leido : Int × Char) {x : Punto} {code : Code Punto}
    (stands : S.code t = .pure x) (here : t ∈ S.shared.creados)
    (settled : (hilos.resume leido (.pure x) S.shared).value = code ∧
      (hilos.resume leido (.pure x) S.shared).state = S.shared) :
    ∃ jugadas, Path PasoSinTecla S jugadas ⟨S.shared, Function.update S.code t code⟩ := by
  have turn := Threads.takes_turn (T := hilos) (e := leido) here (by rw [stands]; trivial)
  rw [stands, Threads.put, settled.1, settled.2] at turn
  refine ⟨_, .single ⟨fun k reads => ?_, turn⟩⟩
  rw [stands] at reads
  contradiction

/-- The state in which `main` has set the game up. -/
def Estado.preparado (contents : Mem) : Estado where
  mem := (Estado.inicial contents).mem.preparada
  libres := []
  semChanges := 1
  creados := [.gameThread, .keyboardThread, .main]

/-- The threads settle to the game that `main` has prepared. -/
theorem inicial_espera (contents : Mem) : ∃ jugadas S, Path PasoSinTecla (Juego.inicial contents) jugadas S ∧
    Espera S (Estado.preparado contents).mem := by
  have valid : (Estado.preparado contents).mem.Valida := Mem.preparada_valida _ rfl
  obtain ⟨first, _, _, ⟨rfl, rfl⟩, path⟩ := reaches_end_from (S := Juego.inicial contents) (t := .main)
    (0, ' ') (Q := fun x s => x = .bucleMain ∧ s = .preparado contents) (by decide) rfl List.mem_cons_self corre_main
    (wp_main ⟨rfl, rfl⟩)
  rw [settle_bucleMain] at path
  have unset : (Estado.preparado contents).mem.gameThreadMuerto = 0 := rfl
  obtain ⟨second, path'⟩ := looks_round (t := .keyboardThread) (0, ' ')
    (S := Threads.put (Juego.inicial contents) .main ⟨[], cuerpo .bucleMain, .preparado contents⟩) rfl
    (List.mem_cons_of_mem _ List.mem_cons_self) (resume_keyboardThread unset)
  obtain ⟨third, path''⟩ := looks_round (t := .gameThread) (0, ' ')
    (S := ⟨.preparado contents, Function.update (Function.update (Juego.inicial contents).code .main (cuerpo .bucleMain))
      .keyboardThread leeTecla⟩) rfl List.mem_cons_self (resume_gameThread (0, ' ') (.preparado contents))
  refine ⟨_, _, (path.append path').append path'', rfl, Int.one_nonneg, ?_, rfl, _, Partida.cerca_anteriores valid, rfl⟩
  intro t
  cases t <;> simp [Estado.preparado]

/-- The keys are played one by one as long as the game goes on. -/
theorem Espera.sigue {S : Juego} {m : Mem} {keys : List Char} (waits : Espera S m) (valid : m.Valida)
    (unset : m.gameThreadMuerto = 0) (known : ∀ c ∈ keys, c = 'w' ∨ c = 'd') (goes : m.Sigue keys) :
    let m' := keys.foldl Mem.jugada m
    m'.Valida ∧ m'.gameThreadMuerto = 0 ∧ ∃ jugadas S', Path PasoSinTecla S jugadas S' ∧ Espera S' m' := by
  induction keys generalizing S m with
  | nil => exact ⟨valid, unset, [], S, .nil, waits⟩
  | cons c keys ih =>
    obtain ⟨here, later⟩ := List.forall_mem_cons.mp known
    obtain ⟨plays, waiting, rest⟩ := goes
    obtain ⟨first, S1, path1, pressed, signalled⟩ := waits.pulsa here unset
    obtain ⟨second, S2, path2, on, -⟩ := pressed.ronda (valid.pulsa c) signalled
    obtain ⟨valid', unset', others, S3, path3, waits3⟩ :=
      ih (on plays waiting) (valid.jugada c) ((m.jugada_flag c).trans unset) later rest
    exact ⟨valid', unset', _, S3, (path1.append path2).append path3, waits3⟩

/-- A key is stored as soon as its read has returned. -/
theorem stores_key (s : Estado) :
    (.store (.state .player) .stRight, s) ∈ (hilos.resume (1, 'd') leeTecla s).events :=
  List.mem_cons_of_mem _ List.mem_cons_self

/-- A game that starts from zeros. -/
def Mem.vacio : Mem where
  player := ⟨0, 0, .stStop, .left⟩
  enemigo _ := ⟨0, 0, .stStop, .left⟩
  mapa _ _ := ' '
  pixels _ _ _ := ⟨' ', 0, 0⟩
  proyectiles _ := ⟨0, 0, 0, .left⟩
  muerto _ := 0
  gameThreadMuerto := 0
  contadorEnemigos := 0

/-- The dragon climbs a cell, so that it fits over the steps, and follows the second enemy. -/
def persecucion : List Char := 'w' :: List.replicate 10 'd'

theorem vacio_sigue : Mem.vacio.preparada.Sigue persecucion := by
  decide +kernel

theorem vacio_pierde : ((persecucion.foldl Mem.jugada Mem.vacio.preparada).jugada 'd').Pierde := by
  decide +kernel

/-- A game that is played until it is lost, and everything freed: `keyboardThread` waits for a key. -/
theorem vacio_acaba : ∃ jugadas S, Path PasoSinTecla (Juego.inicial .vacio) jugadas S ∧
    .keyboardThread ∈ S.shared.creados ∧ S.code .keyboardThread = leeTecla ∧ .character .player ∈ S.shared.libres := by
  have known : ∀ c ∈ persecucion, c = 'w' ∨ c = 'd' := by simp [persecucion]
  obtain ⟨settling, S0, path0, waits0⟩ := inicial_espera .vacio
  obtain ⟨valid, unset, chase, S1, path1, waits1⟩ :=
    waits0.sigue (Mem.preparada_valida _ rfl) rfl known vacio_sigue
  obtain ⟨key, S2, path2, pressed, signalled⟩ := waits1.pulsa (c := 'd') (.inr rfl) unset
  obtain ⟨round, S3, path3, -, ended⟩ := pressed.ronda (valid.pulsa 'd') signalled
  exact ⟨_, S3, ((path0.append path1).append path2).append path3, ended (.inl vacio_pierde)⟩

/-- A key after the game is lost is stored into the player that has been freed. -/
theorem liberaRecursos_tarde : ∃ jugadas S, Path hilos.Step (Juego.inicial .vacio) jugadas S ∧
    ∃ jugada ∈ jugadas, ∃ event ∈ jugada.events, ¬event.1.Sano event.2 := by
  obtain ⟨jugadas, S, path, created, stands, freed⟩ := vacio_acaba
  have late := Threads.takes_turn (T := hilos) (e := (1, 'd')) created (by rw [stands]; trivial)
  rw [stands] at late
  have played : Path hilos.Step (Juego.inicial .vacio) jugadas S := path.mono fun _ _ _ step => step.2
  refine ⟨_, _, played.snoc late, _, List.mem_append_right _ List.mem_cons_self, _, stores_key S.shared, ?_⟩
  intro healthy
  exact healthy (.character .player) rfl freed

/-- The same game without that key: everything is freed in the end, and nothing freed was touched. -/
theorem liberaRecursos_sano_perdida : ∃ jugadas S, Path (Guarded SinTecla hilos.Step) (Juego.inicial .vacio) jugadas S ∧
    .character .player ∈ S.shared.libres ∧ ∀ jugada ∈ jugadas, ∀ event ∈ jugada.events, event.1.Sano event.2 := by
  obtain ⟨jugadas, S, path, -, -, freed⟩ := vacio_acaba
  exact ⟨jugadas, S, path, freed, liberaRecursos_sano .vacio path⟩

end Zeos.Game
