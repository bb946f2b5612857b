import Zeos.Rounds

/-! What `main` leaves before the first round: the map that `creaMapa` draws, no projectile and
the characters in their places. -/
namespace Zeos.Game
open Programs Prog

/-- The cell of the map that `creaMapa` leaves: the border and the steps are walls. -/
def casilla (i j : Int) : Char :=
  if i < 1 ∨ i ≥ ROWS - 1 ∨ j < 2 ∨ j ≥ COLS - 2 ∨ i = ROWS - 2 ∧ (j ≤ 24 ∨ COLS - 25 ≤ j) ∨
      i = ROWS - 3 ∧ (j ≤ 12 ∨ COLS - 13 ≤ j) then '0'
  else '1'

namespace Mem

/-- Draws the cells for which `f` has something. -/
def dibuja (m : Mem) (f : Int → Int → Option Char) : Mem :=
  { m with mapa := fun i j => (f i j).getD (m.mapa i j) }

/-- The same within a region. -/
def dibujaEn (m : Mem) (region : Int → Int → Prop) [∀ i j, Decidable (region i j)]
    (f : Int → Int → Option Char) : Mem :=
  m.dibuja fun i j => if region i j then f i j else none

variable {m : Mem} {f : Int → Int → Option Char} {region region' : Int → Int → Prop}
  [∀ i j, Decidable (region i j)] [∀ i j, Decidable (region' i j)]

theorem dibujaEn_congr (same : ∀ i j, region i j ↔ region' i j) : m.dibujaEn region f = m.dibujaEn region' f := by
  simp only [dibujaEn, same]

theorem dibujaEn_empty (none : ∀ i j, ¬region i j) : m.dibujaEn region f = m := by
  simp [dibujaEn, dibuja, none]

/-- One cell more. -/
theorem dibujaEn_next {i j : Int} (next : ∀ i' j', region' i' j' ↔ region i' j' ∨ i' = i ∧ j' = j) :
    (m.dibujaEn region f).dibujaEn (fun i' j' => i' = i ∧ j' = j) f = m.dibujaEn region' f := by
  simp only [dibujaEn, dibuja, next]
  congr 1
  funext i' j'
  by_cases here : i' = i ∧ j' = j
  · cases f i' j' <;> simp [here]
  · simp [here]

theorem dibujaEn_some {i j : Int} {v : Char} (here : f i j = some v) :
    m.dibujaEn (fun i' j' => i' = i ∧ j' = j) f = m.set (.mapa i j) v := by
  simp only [dibujaEn, dibuja, set]
  congr 1
  funext i' j'
  by_cases same : i' = i ∧ j' = j <;> simp [same, here]

theorem dibujaEn_none {i j : Int} (here : f i j = none) :
    m.dibujaEn (fun i' j' => i' = i ∧ j' = j) f = m := by
  have same : (m.dibujaEn (fun i' j' => i' = i ∧ j' = j) f).mapa = m.mapa := by
    funext i' j'
    by_cases cell : i' = i ∧ j' = j <;> simp [dibujaEn, dibuja, cell, here]
  calc m.dibujaEn (fun i' j' => i' = i ∧ j' = j) f
      = { m with mapa := (m.dibujaEn (fun i' j' => i' = i ∧ j' = j) f).mapa } := rfl
    _ = m := by rw [same]

/-- A wall put on a cell. -/
theorem dibujaEn_wall {i j : Int} (next : ∀ i' j', region' i' j' ↔ region i' j' ∨ i' = i ∧ j' = j) :
    (m.dibujaEn region fun _ _ => some '0').set (.mapa i j) '0' = m.dibujaEn region' fun _ _ => some '0' := by
  rw [← dibujaEn_some (f := fun _ _ => some '0') rfl, dibujaEn_next next]

end Mem

variable {leido : Int × Char} {s : Estado}

/-- Two nested loops that draw each cell as `f` says. -/
theorem wp_dibuja {body : Int → Int → Code Unit} {f : Int → Int → Option Char} {Q : Unit → Estado → Prop}
    (each : ∀ i j, Dentro i j → ∀ (s' : Estado) (Q' : Unit → Estado → Prop),
      Q' () { s' with mem := s'.mem.dibujaEn (fun i' j' => i' = i ∧ j' = j) f } →
        (body i j).wp (reglas leido) Q' s')
    (last : Q () { s with mem := s.mem.dibujaEn Dentro f }) :
    (loop (fun i => loop (body i) (turns 0 COLS) 0) (turns 0 ROWS) 0).wp (reglas leido) Q s := by
  let drawn (region : Int → Int → Prop) [∀ i j, Decidable (region i j)] : Estado :=
    { s with mem := s.mem.dibujaEn region f }
  have rows : (loop (fun i => loop (body i) (turns 0 COLS) 0) (turns 0 ROWS) 0).wp (reglas leido)
      (fun _ s' => s' = drawn fun i' j' => Dentro i' j' ∧ i' < 0 + (turns 0 ROWS : Nat)) s := by
    apply wp_loop fun i s' => s' = drawn fun i' j' => Dentro i' j' ∧ i' < i
    · intro i s' low high before
      have row : (loop (body i) (turns 0 COLS) 0).wp (reglas leido) (fun _ t => t = drawn fun i' j' =>
          Dentro i' j' ∧ (i' < i ∨ i' = i ∧ j' < 0 + (turns 0 COLS : Nat))) s' := by
        apply wp_loop fun j t => t = drawn fun i' j' => Dentro i' j' ∧ (i' < i ∨ i' = i ∧ j' < j)
        · intro j t first final done
          have inside : Dentro i j := by
            simp only [turns, ROWS, COLS] at high final
            rw [dentro_iff]
            omega
          apply each i j inside
          rw [done]
          simp only [drawn, Estado.mk.injEq, and_self, and_true]
          apply Mem.dibujaEn_next
          intro i' j'
          rw [dentro_iff] at inside ⊢
          omega
        · rw [before]
          simp only [drawn, Estado.mk.injEq, and_self, and_true]
          apply Mem.dibujaEn_congr
          intro i' j'
          rw [dentro_iff]
          omega
      apply wp_mono _ row
      intro _ t done
      rw [done]
      simp only [drawn, Estado.mk.injEq, and_self, and_true]
      apply Mem.dibujaEn_congr
      intro i' j'
      simp only [dentro_iff, turns, COLS]
      omega
    · simp only [drawn]
      rw [Mem.dibujaEn_empty]
      intro i' j'
      rw [dentro_iff]
      omega
  apply wp_mono _ rows
  intro _ s' done
  have whole : s.mem.dibujaEn (fun i' j' => Dentro i' j' ∧ i' < 0 + (turns 0 ROWS : Nat)) f =
      s.mem.dibujaEn Dentro f := by
    apply Mem.dibujaEn_congr
    intro i' j'
    simp only [dentro_iff, turns, ROWS]
    omega
  rw [done]
  simp only [drawn, whole]
  exact last

/-- The cells that the steps of `creaMapa` take in their first `n` turns. -/
def Escalon (n i j : Int) : Prop :=
  i = ROWS - 2 ∧ (1 ≤ j ∧ j ≤ n ∨ COLS - 2 - n < j ∧ j ≤ COLS - 2) ∨
  i = ROWS - 3 ∧ (1 ≤ j ∧ j ≤ min n 12 ∨ COLS - 2 - min n 12 < j ∧ j ≤ COLS - 2)

instance (n i j : Int) : Decidable (Escalon n i j) := inferInstanceAs (Decidable (_ ∨ _))

theorem escalon_iff {n i j : Int} : Escalon n i j ↔
    i = 23 ∧ (1 ≤ j ∧ j ≤ n ∨ 78 - n < j ∧ j ≤ 78) ∨
    i = 22 ∧ (1 ≤ j ∧ j ≤ min n 12 ∨ 78 - min n 12 < j ∧ j ≤ 78) := Iff.rfl

/-- The map that `creaMapa` leaves. -/
def Mem.conMapa (m : Mem) : Mem :=
  { m with mapa := fun i j => if Dentro i j then casilla i j else m.mapa i j }

/-- The walls of one turn: two cells of the lower step, and two of the upper one in the first
twelve turns. -/
theorem Mem.escalon_next (m : Mem) {n : Int} (low : 0 ≤ n) :
    let walls := (m.dibujaEn (Escalon n) fun _ _ => some '0').set (.mapa (ROWS - 2) (n + 1)) '0'
    let lower := walls.set (.mapa (ROWS - 2) (COLS - 2 - n)) '0'
    let upper := (lower.set (.mapa (ROWS - 3) (n + 1)) '0').set (.mapa (ROWS - 3) (COLS - 2 - n)) '0'
    (if n < 12 then upper else lower) = m.dibujaEn (Escalon (n + 1)) fun _ _ => some '0' := by
  intro walls lower upper
  have walls_eq : walls = m.dibujaEn (fun i j => Escalon n i j ∨ i = ROWS - 2 ∧ j = n + 1) fun _ _ => some '0' :=
    Mem.dibujaEn_wall fun i' j' => Iff.rfl
  have lower_eq : lower = m.dibujaEn (fun i j => (Escalon n i j ∨ i = ROWS - 2 ∧ j = n + 1) ∨
      i = ROWS - 2 ∧ j = COLS - 2 - n) fun _ _ => some '0' := by
    simp only [lower, walls_eq]
    exact Mem.dibujaEn_wall fun i' j' => Iff.rfl
  by_cases first : n < 12
  · rw [if_pos first]
    simp only [upper, lower_eq]
    rw [Mem.dibujaEn_wall (fun i' j' => Iff.rfl), Mem.dibujaEn_wall (fun i' j' => Iff.rfl)]
    apply Mem.dibujaEn_congr
    intro i j
    simp only [escalon_iff, ROWS, COLS]
    omega
  · rw [if_neg first, lower_eq]
    apply Mem.dibujaEn_congr
    intro i j
    simp only [escalon_iff, ROWS, COLS]
    omega

theorem wp_escalones {Q : Unit → Estado → Prop}
    (last : Q () { s with mem := s.mem.dibujaEn (Escalon 24) fun _ _ => some '0' }) :
    (loop escalon (turns 0 24) 0).wp (reglas leido) Q s := by
  have all := wp_loop (R := reglas leido) (s := s) (n := turns 0 24) (a := 0) (p := escalon)
    (fun n s' => s' = { s with mem := s.mem.dibujaEn (Escalon n) fun _ _ => some '0' }) (by
      intro n s' low high before
      have inside : Dentro (ROWS - 2) (n + 1) ∧ Dentro (ROWS - 2) (COLS - 2 - n) ∧
          Dentro (ROWS - 3) (n + 1) ∧ Dentro (ROWS - 3) (COLS - 2 - n) := by
        simp only [turns] at high
        simp only [dentro_iff, ROWS, COLS]
        omega
      simp only [escalon, wp_bind, wp_store, Op.Dentro, inside, wp_ite, wp_pure, true_and, before]
      rw [← s.mem.escalon_next low]
      split <;> rfl) (by
      rw [Mem.dibujaEn_empty]
      intro i j
      rw [escalon_iff]
      omega)
  apply wp_mono _ all
  intro _ s' done
  rw [done]
  exact last

theorem wp_creaMapa {Q : Unit → Estado → Prop} (last : Q () { s with mem := s.mem.conMapa }) :
    creaMapa.wp (reglas leido) Q s := by
  simp only [creaMapa, wp_bind]
  apply wp_dibuja (f := fun _ _ => some '1')
  · intro i j inside t Q' after
    rw [Mem.dibujaEn_some rfl] at after
    simpa [Op.Dentro, inside] using after
  apply wp_dibuja (f := fun i j => if i < 1 ∨ i ≥ ROWS - 1 ∨ j < 2 ∨ j ≥ COLS - 2 then some '0' else none)
  · intro i j inside t Q' after
    rw [wp_ite]
    split
    next border =>
      rw [Mem.dibujaEn_some (if_pos border)] at after
      simpa [Op.Dentro, inside] using after
    next inner =>
      rw [Mem.dibujaEn_none (if_neg inner)] at after
      exact after
  apply wp_escalones
  have drawn : ((s.mem.dibujaEn Dentro fun _ _ => some '1').dibujaEn Dentro fun i j =>
      if i < 1 ∨ i ≥ ROWS - 1 ∨ j < 2 ∨ j ≥ COLS - 2 then some '0' else none).dibujaEn (Escalon 24)
      (fun _ _ => some '0') = s.mem.conMapa := by
    simp only [Mem.dibujaEn, Mem.dibuja, Mem.conMapa]
    congr 1
    funext i j
    by_cases inside : Dentro i j
    · have walls : (i < 1 ∨ i ≥ ROWS - 1 ∨ j < 2 ∨ j ≥ COLS - 2 ∨ i = ROWS - 2 ∧ (j ≤ 24 ∨ COLS - 25 ≤ j) ∨
          i = ROWS - 3 ∧ (j ≤ 12 ∨ COLS - 13 ≤ j)) ↔
          (i < 1 ∨ i ≥ ROWS - 1 ∨ j < 2 ∨ j ≥ COLS - 2) ∨ Escalon 24 i j := by
        rw [dentro_iff] at inside
        simp only [escalon_iff, ROWS, COLS]
        omega
      simp only [inside, if_true, casilla, walls]
      by_cases step : Escalon 24 i j
      · simp [step]
      · simp only [step, if_false, or_false, Option.getD_none, Option.getD_some]
        split <;> rfl
    · have outside : ¬Escalon 24 i j := by
        rw [escalon_iff]
        rw [dentro_iff] at inside
        omega
      simp [inside, outside]
  rw [drawn]
  exact last

theorem wp_pintaMapa {Q : Unit → Estado → Prop} (last : Q () s) : pintaMapa.wp (reglas leido) Q s := by
  apply wp_bucle _ last
  intro i low high
  apply wp_bucle _ rfl
  intro j first final
  have inside : Dentro i j := ⟨low, high, first, final⟩
  simp [inside]

/-- The first `n` projectiles put out. -/
def Mem.sinProyectiles (m : Mem) (n : Int) : Mem :=
  { m with proyectiles := fun i =>
      if 0 ≤ i ∧ i < n then { m.proyectiles i with activo := 0 } else m.proyectiles i }

theorem Mem.sinProyectiles_next (m : Mem) {n : Int} (low : 0 ≤ n) :
    (m.sinProyectiles n).set (.proyectilActivo n) 0 = m.sinProyectiles (n + 1) := by
  simp only [sinProyectiles, set, setProyectil]
  congr 1
  funext i
  by_cases same : i = n
  · subst same
    simp [low]
  · rw [Function.update_of_ne same]
    have next : (0 ≤ i ∧ i < n + 1) ↔ 0 ≤ i ∧ i < n := by omega
    simp only [next]

theorem wp_sinProyectiles {Q : Unit → Estado → Prop}
    (last : Q () { s with mem := s.mem.sinProyectiles MAX_PROYECTILES }) :
    (loop (fun i => store (.proyectilActivo i) 0) (turns 0 MAX_PROYECTILES) 0).wp (reglas leido) Q s := by
  have all := wp_loop (R := reglas leido) (s := s) (n := turns 0 MAX_PROYECTILES) (a := 0)
    (p := fun i => store (.proyectilActivo i) 0)
    (fun n s' => s' = { s with mem := s.mem.sinProyectiles n }) (by
      intro n s' low high before
      rw [before, wp_store, ← s.mem.sinProyectiles_next low]
      exact ⟨trivial, rfl⟩) (by
      have none (i : Int) : ¬(0 ≤ i ∧ i < 0) := by omega
      simp only [Mem.sinProyectiles, none, if_false])
  apply wp_mono _ all
  intro _ s' done
  rw [done]
  exact last

/-- The characters in their places. -/
def Mem.colocada (m : Mem) : Mem :=
  { m with
    player := { x := 40, y := ROWS - 9, dir := .right, state := .stStop }
    enemigo := fun
      | .enemigo1 => { m.enemigo .enemigo1 with x := 13, y := ROWS - 9, dir := .right }
      | .enemigo2 => { m.enemigo .enemigo2 with x := 60, y := ROWS - 9, dir := .left } }

theorem Mem.colocada_eq (m : Mem) :
    (((((((((m.set (.x .player) 40).set (.y .player) (ROWS - 9)).set (.dir .player) .right).set
      (.state .player) .stStop).set (.x (.enemigo .enemigo1)) 13).set
      (.y (.enemigo .enemigo1)) (ROWS - 9)).set (.dir (.enemigo .enemigo1)) .right).set
      (.x (.enemigo .enemigo2)) 60).set (.y (.enemigo .enemigo2)) (ROWS - 9)).set
      (.dir (.enemigo .enemigo2)) .left = m.colocada := by
  simp only [colocada, set, setCharacter, character]
  congr 1
  funext e
  cases e <;> simp

/-- The game that `main` sets up. -/
def Mem.preparada (m : Mem) : Mem := (m.sinProyectiles MAX_PROYECTILES).conMapa.colocada

theorem wp_main {Q : Punto → Estado → Prop}
    (last : Q .bucleMain { s with
      mem := s.mem.preparada
      semChanges := 1
      creados := .gameThread :: .keyboardThread :: s.creados }) : main.wp (reglas leido) Q s := by
  simp only [main, prepara, wp_bind]
  apply wp_sinProyectiles
  apply wp_creaMapa
  apply wp_pintaMapa
  simp only [wp_store, Op.Dentro, true_and, wp_perform, wp_pure, handler]
  rw [Mem.colocada_eq]
  exact last

end Zeos.Game
