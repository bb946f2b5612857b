import Zeos.References

/-! Who owns which frame, and how large the heaps are. Every process counts its heap in
the zone of `task1`, whose address `sys_fork` hands down: as long as a heap is resized
only while one address space is in use, the counter is right for all of them. -/
namespace Zeos
open Outcome

/-- The directory of `task1`, and its heap zone. -/
abbrev rootDir : Dir := 2

namespace Mm

variable {mm mm' : Mm} {d : Dir} {hand : List Nat}

theorem Fair.of_tables (fair : mm.Fair hand) (physMem : mm'.physMem = mm.physMem)
    (tables : mm'.pagusrTable = mm.pagusrTable) : mm'.Fair hand := by
  refine ⟨fair.balanced.congr (fun s => ?_) fun f => ?_, ?_, ?_, ?_, ?_, ?_⟩
  · simp only [ledger, tables]
  · simp only [ledger, physMem]
  · rw [physMem]; exact fair.code
  · rw [physMem]; exact fair.bounded
  · rw [tables]; exact fair.clear
  · rw [tables]; exact fair.fixed
  · rw [tables]; exact fair.high

end Mm

namespace Core

variable {c c' core : Core} {d : Dir} {t fill : Task}

/-- A task other than the idle task uses the directory. -/
def Peopled (c : Core) (d : Dir) : Prop := ∃ t, c.live t ∧ t ≠ idleTask ∧ (c.task t).dirPagesBaseAddr = some d

instance (c : Core) (d : Dir) : Decidable (c.Peopled d) := inferInstanceAs (Decidable (∃ _, _))

/-- Where the own pages of a table end. -/
def heapEnd (c : Core) (d : Dir) : Int := if c.Peopled d then pagLogInitHeap + c.mm.heapZones rootDir else 0

/-- Frames, directories and heaps agree. -/
structure Owned (c : Core) : Prop where
  referenced : c.Referenced
  fair : c.mm.Fair []
  root : c.live task1 ∧ (c.task task1).pare = none ∧ (c.task task1).dirPagesBaseAddr = some rootDir
  null : (c.mm.pagusrTable rootDir 0).present = false
  idle : c.live idleTask ∧ (c.task idleTask).myHeap = none ∧ ∃ d, (c.task idleTask).dirPagesBaseAddr = some d ∧
    ∀ t, c.live t → (c.task t).dirPagesBaseAddr = some d → t = idleTask
  heap : ∀ t, c.live t → t ≠ idleTask → (c.task t).myHeap = some rootDir
  zone : 0 ≤ c.mm.heapZones rootDir ∧ pagLogInitHeap + c.mm.heapZones rootDir ≤ totalPages
  extent : ∀ d p, OwnPage p → ((c.mm.pagusrTable d p).present ↔ (p : Int) < c.heapEnd d)

/-- What a task sees of its memory stays the same for the others. -/
structure Spares (c c' : Core) (t : Task) : Prop where
  live : c'.live t
  dir : (c'.task t).dirPagesBaseAddr = (c.task t).dirPagesBaseAddr
  myHeap : (c'.task t).myHeap = (c.task t).myHeap
  zone : ∀ z, (c.task t).myHeap = some z → c'.mm.heapZones z = c.mm.heapZones z
  table : ∀ d, (c.task t).dirPagesBaseAddr = some d → c'.mm.pagusrTable d = c.mm.pagusrTable d

/-- `sys_dyn_mem` gets so far as to change the heap counter. -/
def Resizes (c : Core) (numPags : Int) : Prop :=
  (0 < numPags ∧ numPags ≤ c.mm.available) ∨
    (numPags < 0 ∧ ∃ z, c.ct.myHeap = some z ∧ -numPags ≤ c.mm.heapZones z)

instance (c : Core) (numPags : Int) : Decidable (c.Resizes numPags) := inferInstanceAs (Decidable (_ ∨ _))

/-- The steps of a run in which forks find directories, and heaps are resized only while
all tasks but the idle one share a directory. -/
def Solitary (c : Core) (e : Event) : Prop := c.Housed e ∧
  match e with
  | .syscall (.dynMem numPags) => c.Resizes numPags →
      ∀ t, c.live t → t ≠ idleTask → (c.task t).dirPagesBaseAddr = c.ct.dirPagesBaseAddr
  | _ => True

instance (c : Core) (e : Event) : Decidable (c.Solitary e) := by
  unfold Solitary
  refine @instDecidableAnd _ _ inferInstance ?_
  apply e.decidable

theorem Owned.root_dir (owned : c.Owned) (free : c.mm.dirPagesNumReferences d ≤ 0) (live : c.live t) :
    (c.task t).dirPagesBaseAddr ≠ some d := fun same => by
  have := mem_users.mpr ⟨live, same⟩
  rw [(owned.referenced.unused free).2] at this
  contradiction

theorem peopled_congr (live : c'.live = c.live)
    (dir : ∀ t, c.live t → (c'.task t).dirPagesBaseAddr = (c.task t).dirPagesBaseAddr) (d : Dir) :
    c'.Peopled d ↔ c.Peopled d := by
  refine exists_congr fun t => ?_
  rw [live]
  exact and_congr_right fun here => by rw [dir t here]

theorem heapEnd_congr (peopled : c'.Peopled d ↔ c.Peopled d)
    (zone : c'.mm.heapZones rootDir = c.mm.heapZones rootDir) : c'.heapEnd d = c.heapEnd d := by
  unfold heapEnd
  by_cases here : c.Peopled d
  · rw [if_pos here, if_pos (peopled.mpr here), zone]
  · rw [if_neg here, if_neg fun there => here (peopled.mp there)]

theorem Spares.refl (live : c.live t) : c.Spares c t := ⟨live, rfl, rfl, fun _ _ => rfl, fun _ _ => rfl⟩

theorem Spares.space {c'' : Core} (spares : c.Spares c' t) (space : c'.SameSpace c'') : c.Spares c'' t where
  live := by rw [space.live]; exact spares.live
  dir := (space.dir t spares.live).trans spares.dir
  myHeap := (space.myHeap t spares.live).trans spares.myHeap
  zone z here := by rw [space.tables.heapZones]; exact spares.zone z here
  table d here := by rw [space.tables.pagusrTable]; exact spares.table d here

theorem Owned.sameSpace (owned : c.Owned) (space : c.SameSpace c') : c'.Owned := by
  obtain ⟨referenced, fair, root, null, idle, heap, zone, extent⟩ := owned
  obtain ⟨d, own, alone⟩ := idle.2.2
  have zones := congrFun space.tables.heapZones rootDir
  refine ⟨referenced.sameSpace space, fair.of_tables space.tables.physMem space.tables.pagusrTable, ?_, ?_, ?_,
    fun t live other => ?_, by rwa [zones], fun d p page => ?_⟩
  · refine ⟨by rw [space.live]; exact root.1, space.root _ root.1 root.2.1, ?_⟩
    rw [space.dir _ root.1]
    exact root.2.2
  · rw [space.tables.pagusrTable]; exact null
  · refine ⟨by rw [space.live]; exact idle.1, by rw [space.myHeap _ idle.1]; exact idle.2.1, d, ?_, fun t live here => ?_⟩
    · rw [space.dir _ idle.1]; exact own
    · rw [space.live] at live
      rw [space.dir t live] at here
      exact alone t live here
  · rw [space.live] at live
    rw [space.myHeap t live]
    exact heap t live other
  · rw [space.tables.pagusrTable, heapEnd_congr (peopled_congr space.live space.dir d) zones]
    exact extent d p page

/-- A task with a heap counter uses the one of `task1`, and is not the idle task. -/
theorem Owned.zone_eq (owned : c.Owned) (live : c.live t) {z : Dir} (heap : (c.task t).myHeap = some z) :
    t ≠ idleTask ∧ z = rootDir := by
  have task : t ≠ idleTask := fun same => by
    rw [same, owned.idle.2.1] at heap
    cases heap
  rw [owned.heap t live task] at heap
  exact ⟨task, (Option.some.inj heap).symm⟩

theorem Owned.end_peopled (_ : c.Owned) (peopled : c.Peopled d) :
    c.heapEnd d = pagLogInitHeap + c.mm.heapZones rootDir := if_pos peopled

/-- Behind the end of a heap a table is empty. -/
theorem Owned.behind (owned : c.Owned) (peopled : c.Peopled d) {p : Nat}
    (behind : pagLogInitHeap + c.mm.heapZones rootDir ≤ p) : c.mm.pagusrTable d p = .zero := by
  have page : OwnPage p := ownPage_heap (by have := owned.zone.1; omega)
  refine owned.fair.clear d p page (Bool.eq_false_iff.mpr fun present => ?_)
  have := (owned.extent d p page).mp present
  rw [owned.end_peopled peopled] at this
  omega

/-- What the memory part of `sys_fork` does to the tables. -/
structure ForkedMm (c core : Core) (pos : Dir) (complete : Bool) : Prop where
  free : c.mm.dirPagesNumReferences pos ≤ 0
  root : pos ≠ rootDir
  fair : core.mm.Fair []
  zones : ∀ z, z ≠ pos → core.mm.heapZones z = c.mm.heapZones z
  tables : ∀ d, d ≠ pos → core.mm.pagusrTable d = c.mm.pagusrTable d
  extent : ∀ p, OwnPage p →
    ((core.mm.pagusrTable pos p).present ↔ complete ∧ (p : Int) < pagLogInitHeap + c.mm.heapZones rootDir)

theorem Owned.forkedMm {complete : Bool} (owned : c.Owned) (alive : c.live c.current)
    (housed : c.Housed (.syscall .fork)) (dead : c.live fill = false) (forked : c.Forked fill complete core) :
    ∃ pos, c.forkDir = some pos ∧ c.ForkedMm core pos complete := by
  obtain ⟨pos, free, dir, _, zones, tables, physMem⟩ := housed.fork dead
  have root : pos ≠ rootDir := fun same => owned.root_dir free owned.root.1 (same ▸ owned.root.2.2)
  have fair : (c.forkTables pos).Fair [] := owned.fair.of_tables physMem tables
  have zone (z : Dir) (other : z ≠ pos) : (c.forkTables pos).heapZones z = c.mm.heapZones z := by simp [zones, other]
  have unpeopled : ¬ c.Peopled pos := fun ⟨t, live, _, here⟩ => owned.root_dir free live here
  have empty (p : Nat) (page : OwnPage p) : (c.mm.pagusrTable pos p).present = false := by
    refine Bool.eq_false_iff.mpr fun present => ?_
    have := (owned.extent pos p page).mp present
    rw [heapEnd, if_neg unpeopled] at this
    omega
  refine ⟨pos, dir, ?_⟩
  cases forked with
  | out dir' heap none =>
    cases dir.symm.trans dir'
    obtain ⟨table, counts⟩ := Mm.allocFrames_table none
    refine ⟨free, root, (Mm.allocFrames_fair fair none).1, fun z other => ?_, fun d _ => ?_, fun p page => ?_⟩
    · exact (congrFun counts.heapZones z).trans (zone z other)
    · show _ = c.mm.pagusrTable d
      rw [← tables, ← table]
    · have same := congrFun (congrFun (table.trans tables) pos) p
      simp [same, empty p page]
  | done dir' heap parent some map copy =>
    rename_i pos' zone' pare frames taken mapped mm
    cases dir.symm.trans dir'
    obtain ⟨task, rfl⟩ := owned.zone_eq alive heap
    rw [zone rootDir (Ne.symm root)] at some map copy
    obtain ⟨low, high⟩ := owned.zone
    obtain ⟨table, counts⟩ := Mm.allocFrames_table some
    obtain ⟨hand, length⟩ := Mm.allocFrames_fair fair some
    have hand : taken.Fair frames := hand
    have length : frames.length = numPagData + (c.mm.heapZones rootDir).toNat := by
      rw [length frames rfl, List.length_nil]
      simp only [numPagData]
      omega
    have other : pare ≠ pos := fun same => owned.root_dir free alive (same ▸ parent)
    have peopled : c.Peopled pare := ⟨_, alive, task, parent⟩
    obtain ⟨⟨_, counts'⟩, _, mappedTable⟩ := Mm.mapChild_table other map
    have mappedFair := Mm.mapChild_fair hand length other
      (fun p page => by rw [table, tables]; exact empty p page) map
    have same : mapped.SameTables mm := by
      refine Mm.copyPages_tables (fun p behind => ?_) copy
      rw [mappedTable, if_neg fun here => other here.1, table, tables]
      exact owned.behind peopled behind
    refine ⟨free, root, mappedFair.of_tables same.physMem same.pagusrTable, fun z here => ?_, fun d here => ?_,
      fun p page => ?_⟩
    · rw [← zone z here, ← counts.heapZones, ← counts'.heapZones]
      exact congrFun same.heapZones z
    · funext p
      show mm.pagusrTable d p = _
      rw [same.pagusrTable, mappedTable, if_neg fun there => here there.1, table, tables]
    · show (mm.pagusrTable pos p).present ↔ _
      rw [same.pagusrTable, mappedTable]
      split
      · rename_i below
        simp only [true_and, true_iff]
        omega
      · rename_i out
        have above : ¬ p < pagLogInitHeap + (c.mm.heapZones rootDir).toNat := fun below => out ⟨rfl, below⟩
        rw [table, tables, empty p page]
        simp only [true_and, Bool.false_eq_true, false_iff]
        omega

/-- A child is born; the others see nothing of it. -/
theorem Owned.forked (owned : c.Owned) (alive : c.live c.current) (housed : c.Housed (.syscall .fork))
    (dead : c.live fill = false) (forked : c.Forked fill true core) :
    (core.nameChild fill).Owned ∧ ∀ t, c.live t → c.Spares (core.nameChild fill) t := by
  obtain ⟨pos, dir, mm⟩ := owned.forkedMm alive housed dead forked
  obtain ⟨_, live, others, own⟩ := forked.references dir
  have heap : (core.task fill).myHeap = some rootDir := by
    cases forked with
    | done dir' heap parent some map copy =>
      obtain ⟨_, rfl⟩ := owned.zone_eq alive heap
      simpa [childOf] using heap
  have task (t : Task) (other : t ≠ fill) : (core.nameChild fill).task t = c.task t := by
    simp [nameChild, other, others t other]
  have named : ((core.nameChild fill).task fill).dirPagesBaseAddr = some pos ∧
      ((core.nameChild fill).task fill).myHeap = some rootDir := by simp [nameChild, own, heap]
  have born (t : Task) : (core.nameChild fill).live t ↔ t = fill ∨ c.live t := by
    simp only [nameChild, setTask_live, Function.update_apply, live]
    split <;> simp_all
  have elder {t : Task} (live : c.live t) : t ≠ fill := fun same => by simp [same, dead] at live
  have fresh {t : Task} (live : c.live t) : (c.task t).dirPagesBaseAddr ≠ some pos := owned.root_dir mm.free live
  have tables (d : Dir) (other : d ≠ pos) : (core.nameChild fill).mm.pagusrTable d = c.mm.pagusrTable d :=
    mm.tables d other
  have zone : (core.nameChild fill).mm.heapZones rootDir = c.mm.heapZones rootDir := mm.zones _ (Ne.symm mm.root)
  have idle := elder owned.idle.1
  have peopled : (core.nameChild fill).Peopled pos := ⟨fill, (born fill).mpr (.inl rfl), Ne.symm idle, named.1⟩
  have peopled_other (d : Dir) (other : d ≠ pos) : (core.nameChild fill).Peopled d ↔ c.Peopled d := by
    refine exists_congr fun t => ?_
    rw [born]
    by_cases same : t = fill
    · subst same
      simp [named.1, Ne.symm other, dead]
    · simp [same, task t same]
  refine ⟨⟨owned.referenced.forked housed dead forked, mm.fair, ?_, ?_, ?_, fun t live other => ?_, ?_, fun d p page => ?_⟩,
    fun t live => ?_⟩
  · rw [task _ (elder owned.root.1)]
    exact ⟨(born _).mpr (.inr owned.root.1), owned.root.2⟩
  · rw [tables _ (Ne.symm mm.root)]
    exact owned.null
  · rw [task _ idle]
    obtain ⟨d, ownD, alone⟩ := owned.idle.2.2
    refine ⟨(born _).mpr (.inr owned.idle.1), owned.idle.2.1, d, ownD, fun t live here => ?_⟩
    rcases (born t).mp live with rfl | live
    · rw [named.1] at here
      exact absurd (ownD.trans here.symm) (fresh owned.idle.1)
    · rw [task t (elder live)] at here
      exact alone t live here
  · rcases (born t).mp live with rfl | live
    · exact named.2
    · rw [task t (elder live)]
      exact owned.heap t live other
  · rw [zone]
    exact owned.zone
  · by_cases here : d = pos
    · subst here
      rw [heapEnd, if_pos peopled, zone]
      exact (mm.extent p page).trans (by simp)
    · rw [tables d here, heapEnd_congr (peopled_other d here) zone]
      exact owned.extent d p page
  · refine ⟨(born t).mpr (.inr live), ?_, ?_, fun z here => mm.zones z ?_, fun d here => tables d ?_⟩
    · rw [task t (elder live)]
    · rw [task t (elder live)]
    · rw [(owned.zone_eq live here).2]
      exact Ne.symm mm.root
    · rintro rfl
      exact fresh live here

/-- A fork that fails takes a directory that nobody uses. -/
theorem Owned.unforked (owned : c.Owned) (alive : c.live c.current) (housed : c.Housed (.syscall .fork))
    (dead : c.live fill = false) (forked : c.Forked fill false core) :
    core.Owned ∧ ∀ t, c.live t → c.Spares core t := by
  obtain ⟨pos, dir, mm⟩ := owned.forkedMm alive housed dead forked
  obtain ⟨_, live, others, _⟩ := forked.references dir
  have task (t : Task) (here : c.live t) : core.task t = c.task t :=
    others t fun same => by simp [same, dead] at here
  have fresh {t : Task} (live : c.live t) : (c.task t).dirPagesBaseAddr ≠ some pos := owned.root_dir mm.free live
  have zone : core.mm.heapZones rootDir = c.mm.heapZones rootDir := mm.zones _ (Ne.symm mm.root)
  have peopled := peopled_congr live fun t here => by rw [task t here]
  refine ⟨⟨owned.referenced.unforked housed dead forked, mm.fair, ?_, ?_, ?_, fun t here other => ?_, ?_,
    fun d p page => ?_⟩, fun t here => ?_⟩
  · rw [live, task _ owned.root.1]
    exact owned.root
  · rw [mm.tables _ (Ne.symm mm.root)]
    exact owned.null
  · rw [live, task _ owned.idle.1]
    obtain ⟨d, ownD, alone⟩ := owned.idle.2.2
    refine ⟨owned.idle.1, owned.idle.2.1, d, ownD, fun t live here => ?_⟩
    rw [task t live] at here
    exact alone t live here
  · rw [live] at here
    rw [task t here]
    exact owned.heap t here other
  · rw [zone]
    exact owned.zone
  · by_cases here : d = pos
    · subst here
      have unpeopled : ¬ core.Peopled d := fun ⟨t, alive, _, here⟩ => by
        rw [live] at alive
        rw [task t alive] at here
        exact fresh alive here
      rw [heapEnd, if_neg unpeopled, mm.extent p page]
      simp only [Bool.false_eq_true, false_and, false_iff]
      omega
    · rw [mm.tables d here, heapEnd_congr (peopled d) zone]
      exact owned.extent d p page
  · refine ⟨by rw [live]; exact here, by rw [task t here], by rw [task t here], fun z heap => mm.zones z ?_,
      fun d own => mm.tables d ?_⟩
    · rw [(owned.zone_eq here heap).2]
      exact Ne.symm mm.root
    · rintro rfl
      exact fresh here own

/-- A thread shares the directory and the heap of its father. -/
theorem Owned.thread {stack parameter : DWord} (owned : c.Owned) (alive : c.live c.current) (acts : c.current ≠ idleTask)
    (dead : c.live fill = false) (done : (c.setTask fill fun _ => c.ct).threadMemory fill stack parameter = .ok core) :
    (core.nameChild fill).Owned ∧ ∀ t, c.live t → c.Spares (core.nameChild fill) t := by
  have referenced := owned.referenced.thread alive dead done
  obtain ⟨dir, mm, own, tables, rfl⟩ := threadMemory_ok done
  generalize born : ({ c.setTask fill fun _ => c.ct with mm } : Core).nameChild fill = core at *
  have table : core.mm.pagusrTable = c.mm.pagusrTable := by rw [← born]; exact tables.pagusrTable
  have zones : core.mm.heapZones = c.mm.heapZones := by rw [← born]; exact tables.heapZones
  have physMem : core.mm.physMem = c.mm.physMem := by rw [← born]; exact tables.physMem
  have task (t : Task) (other : t ≠ fill) : core.task t = c.task t := by simp [← born, nameChild, other]
  have named : (core.task fill).dirPagesBaseAddr = some dir ∧ (core.task fill).myHeap = some rootDir := by
    simp [← born, nameChild, own]
    exact owned.heap _ alive acts
  have lives (t : Task) : core.live t ↔ t = fill ∨ c.live t := by
    simp only [← born, nameChild, setTask_live, Function.update_apply]
    split <;> simp_all
  have elder {t : Task} (live : c.live t) : t ≠ fill := fun same => by simp [same, dead] at live
  have idle := elder owned.idle.1
  have peopled (d : Dir) : core.Peopled d ↔ c.Peopled d := by
    constructor
    · rintro ⟨t, live, other, here⟩
      rcases (lives t).mp live with rfl | live
      · rw [named.1] at here
        exact ⟨c.current, alive, acts, own.trans here⟩
      · exact ⟨t, live, other, by rwa [← task t (elder live)]⟩
    · rintro ⟨t, live, other, here⟩
      exact ⟨t, (lives t).mpr (.inr live), other, by rwa [task t (elder live)]⟩
  refine ⟨⟨referenced, owned.fair.of_tables physMem table, ?_, ?_, ?_, fun t live other => ?_, ?_, fun d p page => ?_⟩,
    fun t live => ⟨(lives t).mpr (.inr live), ?_, ?_, fun z _ => ?_, fun d _ => ?_⟩⟩
  · rw [task _ (elder owned.root.1)]
    exact ⟨(lives _).mpr (.inr owned.root.1), owned.root.2⟩
  · rw [table]
    exact owned.null
  · rw [task _ idle]
    obtain ⟨d, ownD, alone⟩ := owned.idle.2.2
    refine ⟨(lives _).mpr (.inr owned.idle.1), owned.idle.2.1, d, ownD, fun t live here => ?_⟩
    rcases (lives t).mp live with rfl | live
    · rw [named.1] at here
      exact absurd (alone _ alive (own.trans here)) acts
    · rw [task t (elder live)] at here
      exact alone t live here
  · rcases (lives t).mp live with rfl | live
    · exact named.2
    · rw [task t (elder live)]
      exact owned.heap t live other
  · rw [zones]
    exact owned.zone
  · rw [table, heapEnd_congr (peopled d) (congrFun zones rootDir)]
    exact owned.extent d p page
  · rw [task t (elder live)]
  · rw [task t (elder live)]
  · rw [zones]
  · rw [table]

/-- What the memory part of `sys_exit` does to the tables. -/
structure ExitedMm (c core : Core) (dir : Dir) : Prop where
  fair : core.mm.Fair []
  zones : core.mm.heapZones = c.mm.heapZones
  tables : ∀ d, d ≠ dir → core.mm.pagusrTable d = c.mm.pagusrTable d
  wiped : ∀ p, core.mm.pagusrTable dir p = .zero ∨ core.mm.pagusrTable dir p = c.mm.pagusrTable dir p
  extent : ∀ p, OwnPage p → ((core.mm.pagusrTable dir p).present ↔
    0 < (c.mm.subDirRef dir).1 ∧ (p : Int) < pagLogInitHeap + c.mm.heapZones rootDir)

theorem Owned.exitedMm (owned : c.Owned) (alive : c.live c.current) (acts : c.current ≠ idleTask) {dir : Dir}
    (own : c.ct.dirPagesBaseAddr = some dir) (exited : c.Exited core) : c.ExitedMm core dir := by
  have peopled : c.Peopled dir := ⟨_, alive, acts, own⟩
  have ends := owned.end_peopled peopled
  cases exited with
  | shared own' more =>
    cases own.symm.trans own'
    refine ⟨owned.fair.of_tables rfl rfl, rfl, fun _ _ => rfl, fun _ => .inr rfl, fun p page => ?_⟩
    rw [← ends]
    exact (owned.extent dir p page).trans (by simp [more])
  | last own' heap last first second =>
    rename_i zone data mm
    cases own.symm.trans own'
    obtain ⟨_, rfl⟩ := owned.zone_eq alive heap
    obtain ⟨counts₁, table₁⟩ := Mm.releasePages_table first
    obtain ⟨counts₂, table₂⟩ := Mm.releasePages_table second
    have given : (c.mm.subDirRef dir).2.Fair [] := owned.fair.of_tables rfl rfl
    have heapZone : data.heapZones rootDir = c.mm.heapZones rootDir := congrFun counts₁.heapZones rootDir
    have start : pagLogInitData = 256 ∧ pagLogInitCode = 276 := ⟨rfl, rfl⟩
    have size : pagLogInitHeap = 284 ∧ numPagData = 20 := ⟨rfl, rfl⟩
    have low := owned.zone.1
    rw [heapZone] at second table₂
    have ownData (p : Nat) (mem : (p : Int) ∈ Mm.pages pagLogInitData (pagLogInitData + numPagData)) : OwnPage p := by
      have := Mm.mem_pages.mp mem
      simp only [OwnPage, start, size] at *
      omega
    have fair := Mm.releasePages_fair (fun p mem => ownPage_heap (by have := Mm.mem_pages.mp mem; omega))
      (Mm.releasePages_fair ownData given first) second
    refine ⟨fair, counts₂.heapZones.trans counts₁.heapZones, fun d other => ?_, fun p => ?_, fun p page => ?_⟩
    · funext p
      show mm.pagusrTable d p = _
      rw [table₂, if_neg fun here => other here.1, table₁, if_neg fun here => other here.1]
      rfl
    · show mm.pagusrTable dir p = _ ∨ mm.pagusrTable dir p = _
      rw [table₂, table₁]
      split
      · exact .inl rfl
      · split
        · exact .inl rfl
        · exact .inr rfl
    · have gone : mm.pagusrTable dir p = .zero := by
        rw [table₂]
        split
        · rfl
        · rename_i out₂
          rw [table₁]
          split
          · rfl
          · rename_i out₁
            refine owned.behind peopled ?_
            by_contra inside
            rcases Nat.lt_or_ge p pagLogInitHeap with below | above
            · refine out₁ ⟨rfl, Mm.mem_pages.mpr ?_⟩
              simp only [OwnPage, start, size] at *
              omega
            · exact out₂ ⟨rfl, Mm.mem_pages.mpr (by omega)⟩
      show (mm.pagusrTable dir p).present ↔ _
      rw [gone]
      simp only [PageTableEntry.zero, Bool.false_eq_true, false_iff]
      omega

/-- `task1` does not get through `sys_exit`: it has no father, and page 0 is not mapped. -/
theorem Owned.not_root (owned : c.Owned) (alive : c.live c.current) (acts : c.current ≠ idleTask) (loaded : c.Loaded)
    (exited : c.Exited core) (zero : c.ct.pare = none → core.pageZeroMapped) : c.current ≠ task1 := fun same => by
  have own : c.ct.dirPagesBaseAddr = some rootDir := by rw [ct, same]; exact owned.root.2.2
  have cr3 : core.cr3 = rootDir := by
    have used : core.cr3 = c.cr3 := by cases exited <;> rfl
    rw [used]
    exact Option.some.inj (loaded.symm.trans own)
  have mapped := zero (by rw [ct, same]; exact owned.root.2.1)
  rw [pageZeroMapped, cr3] at mapped
  rcases (owned.exitedMm alive acts own exited).wiped 0 with wiped | kept
  · rw [wiped] at mapped
    contradiction
  · rw [kept, owned.null] at mapped
    contradiction

/-- A task leaves; those with another directory see nothing of it. -/
theorem Owned.exited (owned : c.Owned) (alive : c.live c.current) (acts : c.current ≠ idleTask) (loaded : c.Loaded)
    (exited : c.Exited core) (zero : c.ct.pare = none → core.pageZeroMapped) :
    core.clearTask.Owned ∧ ∀ t, c.live t → (c.task t).dirPagesBaseAddr ≠ c.ct.dirPagesBaseAddr →
      c.Spares core.clearTask t := by
  have root := owned.not_root alive acts loaded exited zero
  obtain ⟨dir, own, _, live, tasks, current⟩ := exited.references
  have mm := owned.exitedMm alive acts own exited
  have last := owned.referenced.last alive own
  have referenced := owned.referenced.exited alive exited
  have task (t : Task) (other : t ≠ c.current) : core.clearTask.task t = c.task t := by
    simp [clearTask, current, other, tasks]
  have lives (t : Task) : core.clearTask.live t ↔ t ≠ c.current ∧ c.live t := by
    simp only [clearTask, setTask_live, Function.update_apply, live, current]
    split <;> simp_all
  have zone : core.clearTask.mm.heapZones rootDir = c.mm.heapZones rootDir := congrFun mm.zones rootDir
  have tables (d : Dir) (other : d ≠ dir) : core.clearTask.mm.pagusrTable d = c.mm.pagusrTable d := mm.tables d other
  have idleDir : (c.task idleTask).dirPagesBaseAddr ≠ some dir := fun here => by
    obtain ⟨d, ownD, alone⟩ := owned.idle.2.2
    exact acts (alone _ alive (own.trans (here.symm.trans ownD)))
  have peopled_dir : core.clearTask.Peopled dir ↔ 0 < (c.mm.subDirRef dir).1 := by
    rw [← Int.not_le, last]
    constructor
    · rintro ⟨t, liveT, _, here⟩ alone
      obtain ⟨other, liveT⟩ := (lives t).mp liveT
      rw [task t other] at here
      exact other (alone t liveT here)
    · intro more
      obtain ⟨t, liveT, here, other⟩ : ∃ t, c.live t ∧ (c.task t).dirPagesBaseAddr = some dir ∧ t ≠ c.current := by
        simpa using more
      exact ⟨t, (lives t).mpr ⟨other, liveT⟩, fun idle => idleDir (idle ▸ here), by rwa [task t other]⟩
  have peopled_other (d : Dir) (different : d ≠ dir) : core.clearTask.Peopled d ↔ c.Peopled d := by
    refine exists_congr fun t => ?_
    rw [lives]
    by_cases same : t = c.current
    · subst same
      simp only [ne_eq, not_true_eq_false, false_and, false_iff, not_and]
      intro _ _ here
      exact different (Option.some.inj (here.symm.trans own))
    · simp [same, task t same]
  refine ⟨⟨referenced, mm.fair, ?_, ?_, ?_, fun t liveT other => ?_, ?_, fun d p page => ?_⟩, fun t liveT apart => ?_⟩
  · rw [task _ (Ne.symm root)]
    exact ⟨(lives _).mpr ⟨Ne.symm root, owned.root.1⟩, owned.root.2⟩
  · by_cases here : rootDir = dir
    · show (core.mm.pagusrTable rootDir 0).present = false
      rw [here]
      rcases mm.wiped 0 with wiped | kept
      · rw [wiped]; rfl
      · rw [kept, ← here]; exact owned.null
    · rw [tables _ here]
      exact owned.null
  · rw [task _ (Ne.symm acts)]
    obtain ⟨d, ownD, alone⟩ := owned.idle.2.2
    refine ⟨(lives _).mpr ⟨Ne.symm acts, owned.idle.1⟩, owned.idle.2.1, d, ownD, fun t liveT here => ?_⟩
    obtain ⟨other, liveT⟩ := (lives t).mp liveT
    rw [task t other] at here
    exact alone t liveT here
  · obtain ⟨different, liveT⟩ := (lives t).mp liveT
    rw [task t different]
    exact owned.heap t liveT other
  · rw [zone]
    exact owned.zone
  · by_cases here : d = dir
    · subst here
      refine (mm.extent p page).trans ?_
      rw [heapEnd, zone, ← peopled_dir]
      split
      · rename_i peopled; simp [peopled]
      · rename_i unpeopled
        simp only [unpeopled, false_and, false_iff]
        omega
    · rw [tables d here, heapEnd_congr (peopled_other d here) zone]
      exact owned.extent d p page
  · have other : t ≠ c.current := fun same => apart (by rw [same, ct])
    refine ⟨(lives t).mpr ⟨other, liveT⟩, by rw [task t other], by rw [task t other], fun z _ => congrFun mm.zones z,
      fun d here => tables d fun same => ?_⟩
    rw [here, own, same] at apart
    exact apart rfl

/-- A heap is resized in the tables of its directory; where its counter changes there is
no other address space. -/
theorem Owned.resized (owned : c.Owned) (alive : c.live c.current) (acts : c.current ≠ idleTask) {dir cr3 : Dir} {mm : Mm}
    {heap : Int} (own : c.ct.dirPagesBaseAddr = some dir) (fair : mm.Fair [])
    (references : mm.dirPagesNumReferences = c.mm.dirPagesNumReferences) (zone : mm.heapZones rootDir = heap)
    (range : 0 ≤ heap ∧ pagLogInitHeap + heap ≤ totalPages)
    (tables : ∀ d (p : Nat), ¬ (d = dir ∧ pagLogInitHeap ≤ p) → mm.pagusrTable d p = c.mm.pagusrTable d p)
    (extent : ∀ p, pagLogInitHeap ≤ p → ((mm.pagusrTable dir p).present ↔ (p : Int) < pagLogInitHeap + heap))
    (alone : heap ≠ c.mm.heapZones rootDir → ∀ t, c.live t → t ≠ idleTask → (c.task t).dirPagesBaseAddr = some dir) :
    ({ c with mm, cr3 } : Core).Owned ∧ ∀ t, c.live t → (c.task t).dirPagesBaseAddr ≠ c.ct.dirPagesBaseAddr →
      c.Spares { c with mm, cr3 } t := by
  have peopled : c.Peopled dir := ⟨_, alive, acts, own⟩
  have users (d : Dir) : ({ c with mm, cr3 } : Core).users d = c.users d := rfl
  refine ⟨⟨owned.referenced.congr users references, fair, owned.root, ?_, owned.idle, owned.heap, by rwa [zone],
    fun d p page => ?_⟩, fun t live apart => ⟨live, rfl, rfl, fun z here => ?_, fun d here => funext fun p => ?_⟩⟩
  · show (mm.pagusrTable rootDir 0).present = false
    rw [tables _ _ fun here => absurd here.2 (by decide)]
    exact owned.null
  · have ends : ({ c with mm, cr3 } : Core).heapEnd d = if c.Peopled d then pagLogInitHeap + heap else 0 := by
      rw [← zone]; rfl
    show (mm.pagusrTable d p).present ↔ _
    rw [ends]
    by_cases here : d = dir ∧ pagLogInitHeap ≤ p
    · rw [here.1, if_pos peopled]
      exact extent p here.2
    · rw [tables d p here, owned.extent d p page, heapEnd]
      by_cases inhabited : c.Peopled d
      · rw [if_pos inhabited, if_pos inhabited]
        by_cases same : heap = c.mm.heapZones rootDir
        · rw [same]
        · obtain ⟨t, live, other, ownT⟩ := inhabited
          have below : ¬ pagLogInitHeap ≤ p := fun above =>
            here ⟨Option.some.inj (ownT.symm.trans (alone same t live other)), above⟩
          have := owned.zone.1
          omega
      · rw [if_neg inhabited, if_neg inhabited]
  · obtain ⟨other, rfl⟩ := owned.zone_eq live here
    by_contra changed
    have := alone (fun same => changed (by rw [← same]; exact zone)) t live other
    exact apart (this.trans own.symm)
  · exact tables d p fun same => apart (by rw [here, same.1, own])

theorem sysReturn_space (c : Core) (v : Option Int) : c.SameSpace (c.sysReturn v) :=
  (Frame.setTask c c.current (fun t => { t with kEsp := .user, eax := v }) fun _ => ⟨rfl, rfl, rfl, id⟩).space

/-- A heap is resized alone; the others see nothing of it. -/
theorem Owned.dynMem {numPags : Int} (owned : c.Owned) (alive : c.live c.current) (int : IsInt numPags)
    (solitary : c.Solitary (.syscall (.dynMem numPags))) (resized : c.Resized numPags core) :
    core.Owned ∧ ∀ t, c.live t → (c.task t).dirPagesBaseAddr ≠ c.ct.dirPagesBaseAddr → c.Spares core t := by
  have returned {middle : Core} {v : Option Int} (done : middle.Owned ∧ ∀ t, c.live t →
      (c.task t).dirPagesBaseAddr ≠ c.ct.dirPagesBaseAddr → c.Spares middle t) : (middle.sysReturn v).Owned ∧
      ∀ t, c.live t → (c.task t).dirPagesBaseAddr ≠ c.ct.dirPagesBaseAddr → c.Spares (middle.sysReturn v) t :=
    ⟨done.1.sameSpace (sysReturn_space _ _), fun t live apart => (done.2 t live apart).space (sysReturn_space _ _)⟩
  obtain ⟨low, high⟩ := owned.zone
  cases resized with
  | refused => exact returned ⟨owned, fun t live _ => .refl live⟩
  | grown heap own positive grow =>
    rename_i zone dir mm v done
    obtain ⟨task, rfl⟩ := owned.zone_eq alive heap
    have peopled : c.Peopled dir := ⟨_, alive, task, own⟩
    have only := Mm.growHeap_only grow
    obtain ⟨fair, extent⟩ := Mm.growHeap_fair low owned.fair (by simp [Mm.Placed])
      (fun p behind => by rw [owned.behind peopled (by simpa using behind)]; rfl) grow
    have tables (d : Dir) (p : Nat) (out : ¬ (d = dir ∧ pagLogInitHeap ≤ p)) :
        mm.pagusrTable d p = c.mm.pagusrTable d p := only.table d p fun inside => out ⟨inside.1, by omega⟩
    have below (p : Nat) (above : pagLogInitHeap ≤ p) (inside : (p : Int) < pagLogInitHeap + c.mm.heapZones rootDir) :
        (mm.pagusrTable dir p).present := by
      rw [only.table dir p (by omega), owned.extent dir p (ownPage_heap above), owned.end_peopled peopled]
      exact inside
    have zone : mm.heapZones rootDir = c.mm.heapZones rootDir := congrFun only.heapZones rootDir
    cases done with
    | false =>
      refine returned (owned.resized alive task own fair only.references zone owned.zone tables (fun p above => ?_)
        fun changed => absurd rfl changed)
      rcases lt_or_ge (p : Int) (pagLogInitHeap + c.mm.heapZones rootDir) with inside | behind
      · exact iff_of_true (below p above inside) inside
      · refine iff_of_false (fun present => ?_) (Int.not_lt.mpr behind)
        exact Bool.false_ne_true ((extent p behind).mp present).1
    | true =>
      have enough : numPags ≤ c.mm.available := by
        have := (Mm.growHeap_grown grow).mp rfl
        omega
      have bound := Mm.growHeap_bound grow
      simp only [List.length_nil] at bound extent
      have fair : (mm.setHeapZone rootDir (c.mm.heapZones rootDir + numPags)).Fair [] := fair.of_tables rfl rfl
      have zone : (mm.setHeapZone rootDir (c.mm.heapZones rootDir + numPags)).heapZones rootDir =
          c.mm.heapZones rootDir + numPags := by simp [Mm.setHeapZone]
      have alone := solitary.2 (.inl ⟨positive, enough⟩)
      rw [own] at alone
      refine returned (owned.resized alive task own fair only.references zone (by omega) tables (fun p above => ?_)
        fun _ => alone)
      show (mm.pagusrTable dir p).present ↔ _
      rcases lt_or_ge (p : Int) (pagLogInitHeap + c.mm.heapZones rootDir) with inside | behind
      · exact iff_of_true (below p above inside) (by omega)
      · rw [extent p behind]
        simp only [true_and]
        omega
  | shrunk heap own negative enough release =>
    rename_i zone dir mm v
    obtain ⟨task, rfl⟩ := owned.zone_eq alive heap
    have peopled : c.Peopled dir := ⟨_, alive, task, own⟩
    obtain ⟨negated, start⟩ := Mm.shrink_exact int negative low high release
    rw [start] at release
    rw [negated] at enough ⊢
    obtain ⟨counts, table⟩ := Mm.releasePages_table release
    have fair := Mm.releasePages_fair (fun p mem => ownPage_heap (by have := Mm.mem_pages.mp mem; omega)) owned.fair release
    have fair : (mm.setHeapZone rootDir (c.mm.heapZones rootDir - -numPags)).Fair [] := fair.of_tables rfl rfl
    have zone : (mm.setHeapZone rootDir (c.mm.heapZones rootDir - -numPags)).heapZones rootDir =
        c.mm.heapZones rootDir - -numPags := by simp [Mm.setHeapZone]
    have alone := solitary.2 (.inr ⟨negative, rootDir, heap, enough⟩)
    rw [own] at alone
    refine returned (owned.resized alive task own fair counts.references zone (by omega) (fun d p out => ?_)
      (fun p above => ?_) fun _ => alone)
    · show mm.pagusrTable d p = _
      rw [table, if_neg]
      rintro ⟨rfl, mem⟩
      exact out ⟨rfl, by have := Mm.mem_pages.mp mem; omega⟩
    · show (mm.pagusrTable dir p).present ↔ _
      rw [table]
      split
      · rename_i freed
        have := Mm.mem_pages.mp freed.2
        simp only [PageTableEntry.zero, Bool.false_eq_true, false_iff]
        omega
      · rename_i kept
        have kept : ¬ _ := fun mem => kept ⟨rfl, Mm.mem_pages.mpr mem⟩
        rw [owned.extent dir p (ownPage_heap above), owned.end_peopled peopled]
        omega

theorem Owned.step {e : Event} (owned : c.Owned) (loaded : c.Loaded) (alive : c.live c.current)
    (solitary : c.Solitary e) (memory : c.MemoryStep e c') :
    c'.Owned ∧ ∀ t, c.live t → (c.task t).dirPagesBaseAddr ≠ c.ct.dirPagesBaseAddr → c.Spares c' t := by
  have other {fill : Task} (dead : c.live fill = false) : fill ≠ c.current := fun same => by
    simp [same, alive] at dead
  have follows {middle : Core} (space : middle.SameSpace c') (done : middle.Owned ∧ ∀ t, c.live t →
      (c.task t).dirPagesBaseAddr ≠ c.ct.dirPagesBaseAddr → c.Spares middle t) : c'.Owned ∧ ∀ t, c.live t →
      (c.task t).dirPagesBaseAddr ≠ c.ct.dirPagesBaseAddr → c.Spares c' t :=
    ⟨done.1.sameSpace space, fun t live apart => (done.2 t live apart).space space⟩
  cases memory with
  | same same => exact follows same ⟨owned, fun t live _ => .refl live⟩
  | forked dead done child =>
    obtain ⟨kept, spares⟩ := owned.forked alive solitary.1 dead (forkMemory_forked (other dead) done)
    exact follows child ⟨kept, fun t live _ => spares t live⟩
  | unforked dead done back =>
    obtain ⟨kept, spares⟩ := owned.unforked alive solitary.1 dead (forkMemory_forked (other dead) done)
    exact follows back ⟨kept, fun t live _ => spares t live⟩
  | thread acts dead done child =>
    obtain ⟨kept, spares⟩ := owned.thread alive acts dead done
    exact follows child ⟨kept, fun t live _ => spares t live⟩
  | exit exits =>
    obtain ⟨acts, core, done, zero, left⟩ := exits
    exact follows left (owned.exited alive acts loaded (exitMemory_exited done) zero)
  | dynMem int done same => exact follows same (owned.dynMem alive int solitary (sysDynMem_resized done))

end Core

namespace Mm

variable {mm : Mm} {d : Dir}

theorem setUserPage_table (mm : Mm) (d d' : Dir) (page p : Nat) (writable : Bool) :
    ∃ frame, (mm.setUserPage d page writable).pagusrTable d' p =
      if d' = d ∧ p = page then ⟨frame, true, writable, true⟩ else mm.pagusrTable d' p := by
  refine ⟨mm.allocFrame.1.getD 0xFFFFF, ?_⟩
  rw [setUserPage, setEntry_table, allocFrame_table]

/-- A loop of `set_user_pages` makes its pages present, and touches no other. -/
theorem setUserPage_loop (mm : Mm) (d d' : Dir) (base p : Nat) (writable : Bool) (pags : List Nat) :
    let mm' := pags.foldl (fun mm pag => mm.setUserPage d (base + pag) writable) mm
    (¬ (d' = d ∧ ∃ pag ∈ pags, p = base + pag) → mm'.pagusrTable d' p = mm.pagusrTable d' p) ∧
      ((d' = d ∧ ∃ pag ∈ pags, p = base + pag) → (mm'.pagusrTable d' p).present) := by
  induction pags generalizing mm with
  | nil => simp
  | cons pag pags ih =>
    obtain ⟨frame, first⟩ := setUserPage_table mm d d' (base + pag) p writable
    obtain ⟨kept, mapped⟩ := ih (mm.setUserPage d (base + pag) writable)
    refine ⟨fun out => ?_, fun ⟨same, pag', mem, page⟩ => ?_⟩
    · rw [List.foldl_cons, kept fun ⟨same, pag', mem, page⟩ => out ⟨same, pag', List.mem_cons_of_mem _ mem, page⟩, first,
        if_neg fun here => out ⟨here.1, pag, List.mem_cons_self, here.2⟩]
    · rw [List.foldl_cons]
      by_cases later : ∃ pag ∈ pags, p = base + pag
      · exact mapped ⟨same, later⟩
      · rw [kept fun here => later here.2, first]
        rcases List.mem_cons.mp mem with rfl | mem
        · rw [if_pos ⟨same, page⟩]
        · exact absurd ⟨pag', mem, page⟩ later

/-- The memory behind the first loop of `set_user_pages`. -/
@[irreducible] def withCode : Mm :=
  (List.range numPagCode).foldl (fun mm pag => mm.setUserPage rootDir (pagLogInitCode + pag) false) initMm

theorem setUserPage_bounded (mm : Mm) (d : Dir) (page : Nat) (writable : Bool)
    (bounded : ∀ f, totalPages ≤ f → mm.physMem f = .freeFrame) :
    ∀ f, totalPages ≤ f → (mm.setUserPage d page writable).physMem f = .freeFrame := by
  intro f beyond
  show mm.allocFrame.2.physMem f = _
  cases got : mm.allocFrame with
  | mk frame mm' =>
    cases frame with
    | none => rw [(allocFrame_none got).1]; exact bounded f beyond
    | some g =>
      obtain ⟨search, _, rfl⟩ := allocFrame_some got
      have := searchFrames_range search
      have other : f ≠ g := by omega
      simpa [setFrame, other] using bounded f beyond

theorem withCode_table (d : Dir) (p : Nat) (apart : p < pagLogInitCode ∨ pagLogInitHeap ≤ p) :
    withCode.pagusrTable d p = initMm.pagusrTable d p := by
  unfold withCode
  refine (setUserPage_loop initMm rootDir d pagLogInitCode p false (List.range numPagCode)).1 ?_
  rintro ⟨_, pag, mem, rfl⟩
  have := List.mem_range.mp mem
  simp only [pagLogInitHeap] at *
  omega

theorem initMm_table (d : Dir) {p : Nat} (high : numPagKernel ≤ p) : initMm.pagusrTable d p = .zero := by
  simp only [initMm]
  rw [if_neg fun low => absurd low.2 (Nat.not_lt.mpr high)]

theorem withCode_bounded : ∀ f, totalPages ≤ f → withCode.physMem f = .freeFrame := by
  have start : ∀ f, totalPages ≤ f → initMm.physMem f = .freeFrame := fun f beyond => by
    simp only [initMm]
    rw [if_neg (Nat.not_lt.mpr (Nat.le_trans (by decide) beyond))]
  unfold withCode
  generalize List.range numPagCode = pags
  generalize initMm = mm at start
  induction pags generalizing mm with
  | nil => exact start
  | cons pag pags ih => exact ih _ (setUserPage_bounded mm rootDir _ _ start)

theorem withCode_own (d : Dir) {p : Nat} (own : OwnPage p) : withCode.pagusrTable d p = .zero := by
  rw [withCode_table, initMm_table d own.1]
  have := own.2
  omega

theorem withCode_fair : withCode.Fair [] := by
  have use : ∀ f < totalPages, withCode.physMem f = .usedFrame ↔ f < numPagKernel ∨ f ∈ codeFrames := by decide +kernel
  have fixed : ∀ d : Dir, ∀ p < pagLogInitHeap, p < pagLogInitData ∨ pagLogInitCode ≤ p →
      (withCode.pagusrTable d p).pbaseAddr < numPagKernel ∨ (withCode.pagusrTable d p).pbaseAddr ∈ codeFrames := by
    decide +kernel
  have empty (s : Dir × Nat) : withCode.ledger.holds s = none := by
    simp only [ledger]
    rw [if_neg]
    rintro ⟨own, present⟩
    rw [withCode_own s.1 own] at present
    cases present
  refine ⟨⟨List.nodup_nil, fun s s' x held => ?_, fun s x held => ?_, fun x => ?_⟩, fun f code => ?_, withCode_bounded,
    fun d p own _ => withCode_own d own, fun d p other => ?_, fun d p high => withCode_own d (ownPage_heap ?_)⟩
  · rw [empty] at held; cases held
  · rw [empty] at held; cases held
  · simp only [empty, reduceCtorEq, exists_false, List.not_mem_nil, or_self, iff_false]
    rintro ⟨kernel, code, used⟩
    by_cases low : x < totalPages
    · rcases (use x low).mp used with below | mem
      · omega
      · exact code mem
    · rw [withCode_bounded x (by omega)] at used
      cases used
  · have low : ∀ f ∈ codeFrames, f < totalPages := by decide
    exact (use f (low f code)).mpr (.inr code)
  · have out : p < pagLogInitData ∨ (pagLogInitCode ≤ p ∧ p < pagLogInitHeap) := by
      by_contra inside
      exact other ⟨by omega, by omega⟩
    refine fixed d p ?_ (by omega)
    rcases out with low | code
    · exact Nat.lt_of_lt_of_le low (by decide)
    · exact code.2
  · exact Nat.le_trans (by decide) high

/-- The second loop of `set_user_pages` gives each data page a frame of its own. -/
theorem dataLoop_fair (n : Nat) (few : n ≤ numPagData) :
    ((List.range n).foldl (fun mm pag => mm.setUserPage rootDir (pagLogInitData + pag) true) withCode).Fair [] ∧
      ((List.range n).foldl (fun mm pag => mm.setUserPage rootDir (pagLogInitData + pag) true) withCode).available =
        withCode.available - n := by
  have free : withCode.available = 376 := by decide +kernel
  induction n with
  | zero => exact ⟨withCode_fair, rfl⟩
  | succ n ih =>
    obtain ⟨fair, left⟩ := ih (by omega)
    have kept := (setUserPage_loop withCode rootDir rootDir pagLogInitData (pagLogInitData + n) true (List.range n)).1
      (by rintro ⟨_, pag, mem, same⟩; have := List.mem_range.mp mem; omega)
    rw [List.range_succ, List.foldl_append, List.foldl_cons, List.foldl_nil]
    generalize (List.range n).foldl (fun mm pag => mm.setUserPage rootDir (pagLogInitData + pag) true) withCode = mm at *
    have size : numPagData = 20 := rfl
    have page : OwnPage (pagLogInitData + n) := ⟨Nat.le_add_right _ _, fun code => by
      have := code.1
      simp only [pagLogInitCode] at this
      omega⟩
    rw [withCode_own rootDir page] at kept
    cases got : mm.allocFrame with
    | mk frame mm' =>
      cases frame with
      | none => have := available_none got; omega
      | some f =>
        have one := available_take got
        have put := (fair.take got).put page (Nat.lt_of_lt_of_le (m := pagLogInitHeap) (by simp; omega) (by decide))
          (d := rootDir) (by rw [← allocFrame_table mm, got] at kept; rw [kept]; rfl)
        have set : mm.setUserPage rootDir (pagLogInitData + n) true =
            mm'.setEntry rootDir (pagLogInitData + n) ⟨f, true, true, true⟩ := by
          rw [setUserPage, got]; rfl
        rw [set]
        exact ⟨put, show mm'.available = _ by omega⟩

end Mm

theorem booted_mm : booted.core.mm.physMem = (Mm.initMm.setUserPages rootDir).physMem ∧
    booted.core.mm.pagusrTable = (Mm.initMm.setUserPages rootDir).pagusrTable := by
  unfold booted
  exact ⟨rfl, rfl⟩

theorem setUserPages_eq : Mm.initMm.setUserPages rootDir =
    (List.range numPagData).foldl (fun mm pag => mm.setUserPage rootDir (pagLogInitData + pag) true) Mm.withCode := by
  unfold Mm.withCode
  rfl

namespace Core

theorem boot_owned (ram : Nat → Nat → UInt8) : (bootCore ram).Owned := by
  obtain ⟨physMem, tables⟩ := booted_mm
  rw [setUserPages_eq] at physMem tables
  have own : ∀ t, booted.core.live t → t ≠ idleTask → booted.core.task t = booted.core.task task1 := by decide +kernel
  have root : (booted.core.task task1).dirPagesBaseAddr = some rootDir ∧ (booted.core.task task1).myHeap = some rootDir ∧
      (booted.core.task task1).pare = none ∧ booted.core.live task1 := by decide +kernel
  have idle : booted.core.live idleTask ∧ (booted.core.task idleTask).myHeap = none ∧
      (booted.core.task idleTask).dirPagesBaseAddr = some 1 := by decide +kernel
  have zone : booted.core.mm.heapZones rootDir = 0 := by decide +kernel
  have table (d : Dir) (p : Nat) := Mm.setUserPage_loop Mm.withCode rootDir d pagLogInitData p true (List.range numPagData)
  have peopled (d : Dir) : (bootCore ram).Peopled d ↔ d = rootDir := by
    constructor
    · rintro ⟨t, live, other, here⟩
      have same := own t live other
      rw [show (bootCore ram).task = booted.core.task from rfl, same, root.1] at here
      exact (Option.some.inj here).symm
    · rintro rfl
      exact ⟨task1, root.2.2.2, by decide, root.1⟩
  refine ⟨boot_referenced ram, (Mm.dataLoop_fair numPagData (Nat.le_refl _)).1.of_tables physMem tables,
    ⟨root.2.2.2, root.2.2.1, root.1⟩, ?_, ⟨idle.1, idle.2.1, 1, idle.2.2, fun t live here => ?_⟩,
    fun t live other => ?_, ?_, fun d p page => ?_⟩
  · have : (booted.core.mm.pagusrTable rootDir 0).present = false := by decide +kernel
    exact this
  · by_contra other
    have same := own t live other
    rw [show (bootCore ram).task = booted.core.task from rfl, same, root.1] at here
    exact absurd here (by decide)
  · have same := own t live other
    show (booted.core.task t).myHeap = _
    rw [same]
    exact root.2.1
  · show 0 ≤ booted.core.mm.heapZones rootDir ∧ _ + booted.core.mm.heapZones rootDir ≤ _
    rw [zone]
    decide
  · have low : pagLogInitData = 256 ∧ pagLogInitCode = 276 := ⟨rfl, rfl⟩
    have high : pagLogInitHeap = 284 ∧ numPagData = 20 := ⟨rfl, rfl⟩
    obtain ⟨kept, mapped⟩ := table d p
    have ends : (bootCore ram).heapEnd d = if d = rootDir then 284 else 0 := by
      have none : (bootCore ram).mm.heapZones rootDir = 0 := zone
      simp only [heapEnd, peopled, none]
      rfl
    show (booted.core.mm.pagusrTable d p).present ↔ _
    rw [tables, ends]
    by_cases here : d = rootDir ∧ ∃ pag ∈ List.range numPagData, p = pagLogInitData + pag
    · refine iff_of_true (mapped here) ?_
      obtain ⟨same, pag, mem, at'⟩ := here
      have := List.mem_range.mp mem
      rw [if_pos same]
      omega
    · rw [kept here, Mm.withCode_own d page]
      refine iff_of_false Bool.false_ne_true fun below => ?_
      split at below
      · rename_i same
        simp only [OwnPage, low, high] at page
        have start : 256 ≤ p ∧ p < 276 := by omega
        exact here ⟨same, p - 256, List.mem_range.mpr (by rw [high.2]; omega), by rw [low.1]; omega⟩
      · omega

theorem boot_loaded (ram : Nat → Nat → UInt8) : (bootCore ram).Loaded := by
  have : booted.core.Loaded := by
    unfold Loaded
    decide +kernel
  exact this

end Core

end Zeos
