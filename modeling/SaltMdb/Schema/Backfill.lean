import SaltMdb.Library.Separated
import SaltMdb.Memory.Store
import SaltMdb.Schema.Fresh

/-! The `revises` edges that the predicate migration gives to the copies of the history writer. -/

namespace SaltMdb
open Transactions

/-! ### The backfill -/

namespace RelationTable

/-- A row of the edge, active or ended. -/
def Records (T : RelationTable) (e : Edge) : Prop := ∃ r ∈ T.rows, r.edge = e

instance (T : RelationTable) (e : Edge) : Decidable (T.Records e) :=
  inferInstanceAs (Decidable (∃ r ∈ T.rows, r.edge = e))

theorem Holds.records {T : RelationTable} {e : Edge} (holds : T.Holds e) : T.Records e := by
  obtain ⟨r, member, _, edge⟩ := holds
  exact ⟨r, member, edge⟩

/-- `INSERT … SELECT … WHERE NOT EXISTS`. -/
def insertMissing (T : RelationTable) (d : RelationDraft) : RelationTable :=
  if recorded : T.Records d.edge then T else T.push d fun holds => recorded holds.records

theorem mem_insertMissing {T : RelationTable} {d : RelationDraft} {r : Relation} :
    r ∈ (T.insertMissing d).rows ↔ r ∈ T.rows ∨ ¬ T.Records d.edge ∧ r = d.row T.next := by
  unfold insertMissing
  split
  · rename_i recorded
    exact ⟨.inl, fun either => either.resolve_right fun new => new.1 recorded⟩
  · rename_i missing
    rw [mem_push]
    exact or_congr_right (by simp only [missing, not_false_eq_true, true_and])

end RelationTable

def historySeparator : List Char := ['_', 'h', '_']

/-- `id LIKE '%\_h\_%' ESCAPE '\'`, which takes ASCII letters in either case. -/
def likeHistory (id : EntityId) : Bool := decide (historySeparator <:+: id.toList.map Char.toLower)

/-- `hist_id.split("_h_", 1)[0]`. -/
def historyBase (id : EntityId) : EntityId := .ofList (Separated.beforeFirst historySeparator id.toList)

def revisesDraft (now : Instant) (baseId histId : EntityId) : RelationDraft where
  sourceId := baseId
  targetId := histId
  predicate := "revises"
  createdAt := now
  validFrom := some now
  validAt := none

def backfillHistoryRow (entities : EntityTable) (now : Instant) (T : RelationTable) (histId : EntityId) : RelationTable :=
  let baseId := historyBase histId
  if baseId = histId then T
  else if (entities.find baseId).isNone then T
  else T.insertMissing (revisesDraft now baseId histId)

def backfillScdHistoryRevisesEdges (entities : EntityTable) (now : Instant) (T : RelationTable) : RelationTable :=
  ((entities.rows.map (·.id)).filter likeHistory).foldl (backfillHistoryRow entities now) T

/-! ### The databases it is run on -/

/-- A copy that the history writer took: of which memory, and the drawn end of its id. -/
structure HistoryCopy where
  base : EntityId
  suffix : String
deriving DecidableEq, Repr

def HistoryCopy.hist (c : HistoryCopy) : EntityId := c.base ++ "_h_" ++ c.suffix

/-- The row of a copy: archived from the start. -/
def Entity.historyCopy (existing : Entity) (suffix : String) : Entity :=
  { existing with id := HistoryCopy.hist ⟨existing.id, suffix⟩, status := .archived }

/-- A database with the copies taken in it. -/
structure HistoryDb where
  entities : EntityTable
  relations : RelationTable
  copies : List HistoryCopy
  based : ∀ c ∈ copies, (entities.find c.base).isSome = true
  archived : ∀ c ∈ copies, ∃ e, entities.find c.hist = some e ∧ e.live = false

namespace HistoryDb

/-- What any statement but the history writer's leaves: rows may come and change, and none comes back from the archive. -/
structure Later (T U : EntityTable) : Prop where
  stays : ∀ id e, T.find id = some e → ∃ e', U.find id = some e' ∧ (e.live = false → e'.live = false)

variable {T U : EntityTable}

theorem Later.append {e : Entity} (free : T.find e.id = none) : Later T (T.append e free) := by
  constructor
  intro id old found
  refine ⟨old, ?_, fun h => h⟩
  have other : id ≠ e.id := by
    rintro rfl
    simp [free] at found
  rw [EntityTable.find_append, if_neg other, found]

theorem Later.update {sel : Entity → Bool} {f : EntityColumns → EntityColumns}
    (keeps : ∀ c, c.status = .archived → (f c).status = .archived) : Later T (T.updateWhere sel f) := by
  constructor
  intro id old found
  refine ⟨old.setIf sel f, by rw [EntityTable.find_updateWhere, found]; rfl, fun retired => ?_⟩
  have status : old.status = .archived := by simpa [Entity.live] using retired
  unfold Entity.setIf
  split
  · simp [Entity.live, keeps _ status]
  · exact retired

/-- A write to the memories and the relations that takes no copy. -/
def write (db : HistoryDb) (U : EntityTable) (later : Later db.entities U) (R : RelationTable) : HistoryDb where
  entities := U
  relations := R
  copies := db.copies
  based := by
    intro c taken
    obtain ⟨e, found⟩ := Option.isSome_iff_exists.mp (db.based c taken)
    obtain ⟨e', there, _⟩ := later.stays c.base e found
    simp [there]
  archived := by
    intro c taken
    obtain ⟨e, found, retired⟩ := db.archived c taken
    obtain ⟨e', there, kept⟩ := later.stays c.hist e found
    exact ⟨e', there, kept retired⟩

/-- `_write_raw_scd_history` on a memory. -/
def takeCopy (db : HistoryDb) (existing : Entity) (here : db.entities.find existing.id = some existing) (suffix : String)
    (free : db.entities.find (existing.historyCopy suffix).id = none) : HistoryDb where
  entities := db.entities.append (existing.historyCopy suffix) free
  relations := db.relations
  copies := ⟨existing.id, suffix⟩ :: db.copies
  based := by
    intro c taken
    have later : Later db.entities (db.entities.append (existing.historyCopy suffix) free) := .append free
    rcases List.mem_cons.mp taken with rfl | old
    · obtain ⟨e', there, _⟩ := later.stays _ _ here
      simp [there]
    · obtain ⟨e, found⟩ := Option.isSome_iff_exists.mp (db.based c old)
      obtain ⟨e', there, _⟩ := later.stays _ _ found
      simp [there]
  archived := by
    intro c taken
    rcases List.mem_cons.mp taken with rfl | old
    · exact ⟨existing.historyCopy suffix, by rw [EntityTable.find_append]; exact if_pos rfl, rfl⟩
    · obtain ⟨e, found, retired⟩ := db.archived c old
      have later : Later db.entities (db.entities.append (existing.historyCopy suffix) free) := .append free
      obtain ⟨e', there, kept⟩ := later.stays _ _ found
      exact ⟨e', there, kept retired⟩

/-- The history writer's transaction takes a copy, and nothing else of the memories changes. -/
theorem writeRawScdHistory_takes {env : Env} {db : HistoryDb} {existing : Entity} {w w' : World Db Supply}
    (here : db.entities.find existing.id = some existing) (same : w.durable.entities = db.entities)
    (ran : (writeRawScdHistory env existing.id existing).run w = (.ok (), w')) :
    ∃ suffix free, w'.durable.entities = (db.takeCopy existing here suffix free).entities := by
  unfold writeRawScdHistory at ran
  obtain ⟨drawn, v, draw, ran⟩ := Txn.bind_ok ran
  obtain ⟨-, rfl⟩ := Prod.mk.inj draw
  obtain ⟨d, v, reading, ran⟩ := Txn.bind_ok ran
  obtain ⟨found, rfl⟩ := Prod.mk.inj reading
  obtain rfl := Except.ok.inj found
  split at ran
  · simp at ran
  · rename_i inserted taken
    obtain ⟨free, rfl⟩ := EntityTable.insert_some taken
    obtain ⟨_, v, first, ran⟩ := Txn.bind_ok ran
    obtain ⟨-, rfl⟩ := Prod.mk.inj first
    obtain ⟨-, rfl⟩ := Prod.mk.inj ran
    have entities : w.durable.entities = db.entities := same
    refine ⟨.ofList (drawn.toList.take 8), entities ▸ free, ?_⟩
    simp only [takeCopy, ← entities]
    rfl

end HistoryDb

/-! ### What the backfill adds -/

theorem likeHistory_of_separator {id : EntityId} (inside : historySeparator <:+: id.toList) : likeHistory id = true := by
  have lowered : historySeparator.map Char.toLower = historySeparator := by decide
  rw [likeHistory, decide_eq_true_iff, ← lowered]
  exact inside.map Char.toLower

/-- The id reads as a copy's: it has the separator, and a memory's id stands before the first one. -/
def ReadsAsCopy (entities : EntityTable) (id : EntityId) : Prop :=
  historySeparator <:+: id.toList ∧ (entities.find (historyBase id)).isSome = true

theorem historyBase_eq_iff {id : EntityId} : historyBase id = id ↔ ¬ historySeparator <:+: id.toList := by
  have spelled : historyBase id = id ↔ Separated.beforeFirst historySeparator id.toList = id.toList := by
    rw [historyBase, String.ext_iff, String.toList_ofList]
  rw [spelled]
  exact ⟨fun whole inside => Separated.beforeFirst_ne (by decide) inside whole, Separated.beforeFirst_of_missing⟩

/-- A copy's id reads back as of its base exactly where no separator begins in the base. -/
theorem HistoryCopy.base_iff {c : HistoryCopy} : historyBase c.hist = c.base ↔ ¬ historySeparator <:+: (c.base ++ "_h").toList := by
  have spelled : c.hist.toList = c.base.toList ++ historySeparator ++ c.suffix.toList := by
    simp only [HistoryCopy.hist, String.toList_append]
    rfl
  rw [historyBase, String.ext_iff, String.toList_ofList, spelled, Separated.beforeFirst_eq_iff (by decide), String.toList_append]
  rfl

theorem HistoryCopy.separated (c : HistoryCopy) : historySeparator <:+: c.hist.toList := by
  refine ⟨c.base.toList, c.suffix.toList, ?_⟩
  simp only [HistoryCopy.hist, String.toList_append]
  rfl

def revisesEdge (baseId histId : EntityId) : Edge := ⟨baseId, "revises", histId⟩

variable {entities : EntityTable} {now : Instant} {T : RelationTable} {id : EntityId} {r : Relation}

/-- One row of the scan: an edge is added when the id reads as a copy's and the edge is nowhere recorded. -/
theorem mem_backfillHistoryRow : r ∈ (backfillHistoryRow entities now T id).rows ↔ r ∈ T.rows ∨
    (ReadsAsCopy entities id ∧ ¬ T.Records (revisesEdge (historyBase id) id) ∧
      r = (revisesDraft now (historyBase id) id).row T.next) := by
  unfold backfillHistoryRow ReadsAsCopy
  dsimp only
  by_cases whole : historyBase id = id
  · rw [if_pos whole]
    have missing := historyBase_eq_iff.mp whole
    simp only [missing, false_and, or_false]
  · rw [if_neg whole]
    have inside : historySeparator <:+: id.toList := by
      by_contra missing
      exact whole (historyBase_eq_iff.mpr missing)
    by_cases based : (entities.find (historyBase id)).isNone = true
    · rw [if_pos based]
      have gone : ¬ (entities.find (historyBase id)).isSome = true := by simpa using based
      exact ⟨.inl, fun either => either.resolve_right fun new => gone new.1.2⟩
    · rw [if_neg based, RelationTable.mem_insertMissing]
      have there : (entities.find (historyBase id)).isSome = true := by simpa [Option.isSome_iff_ne_none] using based
      simp only [inside, there, true_and]
      rfl

/-- The scan keeps every row, and what it adds are the edges of the ids that read as copies and had none. -/
theorem backfill_rows (entities : EntityTable) (now : Instant) (ids : List EntityId) (T : RelationTable) :
    (∀ r ∈ T.rows, r ∈ (ids.foldl (backfillHistoryRow entities now) T).rows) ∧
    (∀ r ∈ (ids.foldl (backfillHistoryRow entities now) T).rows, r ∈ T.rows ∨ ∃ id ∈ ids, ReadsAsCopy entities id ∧
      ¬ T.Records (revisesEdge (historyBase id) id) ∧ r.edge = revisesEdge (historyBase id) id) ∧
    ∀ id ∈ ids, ReadsAsCopy entities id →
      (ids.foldl (backfillHistoryRow entities now) T).Records (revisesEdge (historyBase id) id) := by
  induction ids generalizing T with
  | nil => exact ⟨fun r member => member, fun r member => .inl member, nofun⟩
  | cons first rest ih =>
    obtain ⟨keeps, adds, records⟩ := ih (backfillHistoryRow entities now T first)
    rw [List.foldl_cons]
    have kept : ∀ r ∈ T.rows, r ∈ (backfillHistoryRow entities now T first).rows := fun r member =>
      mem_backfillHistoryRow.mpr (.inl member)
    refine ⟨fun r member => keeps r (kept r member), ?_, ?_⟩
    · intro r member
      rcases adds r member with old | ⟨id, listed, reads, missing, edge⟩
      · rcases mem_backfillHistoryRow.mp old with old | ⟨reads, missing, rfl⟩
        · exact .inl old
        · exact .inr ⟨first, List.mem_cons_self, reads, missing, rfl⟩
      · refine .inr ⟨id, List.mem_cons_of_mem _ listed, reads, fun recorded => missing ?_, edge⟩
        obtain ⟨row, here, same⟩ := recorded
        exact ⟨row, kept row here, same⟩
    · intro id listed reads
      rcases List.mem_cons.mp listed with rfl | later
      · by_cases recorded : T.Records (revisesEdge (historyBase id) id)
        · obtain ⟨row, here, same⟩ := recorded
          exact ⟨row, keeps row (kept row here), same⟩
        · exact ⟨_, keeps _ (mem_backfillHistoryRow.mpr (.inr ⟨reads, recorded, rfl⟩)), rfl⟩
      · exact records id later reads

/-! ### Exactness -/

namespace HistoryDb

variable (db : HistoryDb)

/-- `hist` is an archived copy that the history writer took of `base`. -/
def CopyOf (base hist : EntityId) : Prop := ∃ c ∈ db.copies, c.base = base ∧ c.hist = hist

/-- The rows `after` are those before it and a `revises` edge for each copy that had none, from its base. -/
structure HistoryLinked (after : RelationTable) : Prop where
  keeps : ∀ r ∈ db.relations.rows, r ∈ after.rows
  links : ∀ base hist, (∃ r ∈ after.rows, r ∉ db.relations.rows ∧ r.edge = revisesEdge base hist) ↔
    db.CopyOf base hist ∧ ¬ db.relations.Records (revisesEdge base hist)
  others : ∀ r ∈ after.rows, r ∉ db.relations.rows → ∃ base hist, r.edge = revisesEdge base hist

/-- The ids can be read: no separator begins in the base of a copy, and an id that reads as a copy's is of one. -/
structure Legible : Prop where
  copies : ∀ c ∈ db.copies, ¬ db.relations.Records (revisesEdge c.base c.hist) →
    ¬ historySeparator <:+: (c.base ++ "_h").toList
  chosen : ∀ e ∈ db.entities.rows, ReadsAsCopy db.entities e.id →
    ¬ db.relations.Records (revisesEdge (historyBase e.id) e.id) → db.CopyOf (historyBase e.id) e.id

def backfill (now : Instant) : RelationTable := backfillScdHistoryRevisesEdges db.entities now db.relations

/-- A row is added for exactly the ids that read as copies and have no such edge. -/
theorem backfill_links (now : Instant) (base hist : EntityId) :
    (∃ r ∈ (db.backfill now).rows, r ∉ db.relations.rows ∧ r.edge = revisesEdge base hist) ↔
      (∃ e ∈ db.entities.rows, e.id = hist) ∧ ReadsAsCopy db.entities hist ∧ historyBase hist = base ∧
        ¬ db.relations.Records (revisesEdge base hist) := by
  obtain ⟨keeps, adds, records⟩ := backfill_rows db.entities now
    ((db.entities.rows.map (·.id)).filter likeHistory) db.relations
  constructor
  · rintro ⟨r, member, new, edge⟩
    obtain ⟨id, listed, reads, missing, same⟩ := (adds r member).resolve_left new
    obtain ⟨rfl, -, rfl⟩ := Edge.mk.inj (edge.symm.trans same)
    obtain ⟨e, here, rfl⟩ := List.mem_map.mp (List.mem_filter.mp listed).1
    exact ⟨⟨e, here, rfl⟩, reads, rfl, missing⟩
  · rintro ⟨⟨e, here, rfl⟩, reads, rfl, missing⟩
    have listed : e.id ∈ (db.entities.rows.map (·.id)).filter likeHistory :=
      List.mem_filter.mpr ⟨List.mem_map_of_mem here, likeHistory_of_separator reads.1⟩
    obtain ⟨r, member, edge⟩ := records e.id listed reads
    exact ⟨r, member, fun old => missing ⟨r, old, edge⟩, edge⟩

/-- The backfill is exact on a database if and only if its ids can be read. -/
theorem backfill_exact_iff (now : Instant) : db.HistoryLinked (db.backfill now) ↔ db.Legible := by
  constructor
  · intro linked
    refine ⟨fun c taken missing => ?_, fun e here reads missing => ?_⟩
    · obtain ⟨_, _, base, _⟩ := (db.backfill_links now c.base c.hist).mp ((linked.links c.base c.hist).mpr ⟨⟨c, taken, rfl, rfl⟩, missing⟩)
      exact HistoryCopy.base_iff.mp base
    · have added := (db.backfill_links now (historyBase e.id) e.id).mpr ⟨⟨e, here, rfl⟩, reads, rfl, missing⟩
      exact ((linked.links _ _).mp added).1
  · intro legible
    obtain ⟨keeps, adds, -⟩ := backfill_rows db.entities now
      ((db.entities.rows.map (·.id)).filter likeHistory) db.relations
    refine ⟨keeps, fun base hist => ?_, fun r member new => ?_⟩
    · rw [db.backfill_links now base hist]
      constructor
      · rintro ⟨⟨e, here, rfl⟩, reads, rfl, missing⟩
        exact ⟨legible.chosen e here reads missing, missing⟩
      · rintro ⟨⟨c, taken, rfl, rfl⟩, missing⟩
        have base := HistoryCopy.base_iff.mpr (legible.copies c taken missing)
        obtain ⟨e, found, _⟩ := db.archived c taken
        obtain ⟨here, same⟩ := EntityTable.find_some found
        exact ⟨⟨e, here, same⟩, ⟨c.separated, base.symm ▸ db.based c taken⟩, base, missing⟩
    · obtain ⟨id, _, _, _, edge⟩ := (adds r member).resolve_left new
      exact ⟨_, _, edge⟩

/-- Two memories under chosen ids, and no copy of either. -/
def chosenIds : HistoryDb where
  entities := ⟨[memoryRow "a" "First" "text", memoryRow "a_h_b" "Second" "text"], by decide⟩
  relations := .empty
  copies := []
  based := nofun
  archived := nofun

/-- The second memory is linked as a copy of the first, live as it is. -/
theorem chosenIds_linked : ¬ ∀ (db : HistoryDb) (now : Instant), db.HistoryLinked (db.backfill now) := by
  intro all
  have added : ∃ r ∈ (chosenIds.backfill 0).rows, r ∉ chosenIds.relations.rows ∧ r.edge = revisesEdge "a" "a_h_b" := by
    decide
  obtain ⟨⟨c, taken, _⟩, _⟩ := ((all chosenIds 0).links "a" "a_h_b").mp added
  simp [chosenIds] at taken

end HistoryDb
end SaltMdb
