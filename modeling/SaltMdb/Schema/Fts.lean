import SaltMdb.Library.Mirror
import SaltMdb.Store.Connection

/-! The full text tables: the triggers that `init_db` sets on `entities`, the statements that fire them, and the tables that
`init_db` makes for the memories of an older file. -/

namespace SaltMdb
open Mirror

structure EntityFtsRow where
  id : EntityId
  title : String
  fullContent : String
  searchAliases : String
deriving DecidableEq, Repr

structure RetrievalFtsRow where
  id : EntityId
  retrievalText : String
deriving DecidableEq, Repr

/-- `coalesce(json_extract(metadata, '$.search_aliases'), '')`. -/
def EntityColumns.searchAliases (c : EntityColumns) : String := (c.metadata.lookup "search_aliases").getD ""

def entityFtsRow (e : Entity) : EntityFtsRow := ⟨e.id, e.title, e.fullContent, e.searchAliases⟩

/-- The row of a memory with a retrieval text. -/
def retrievalFtsRow (e : Entity) : Option RetrievalFtsRow :=
  match e.retrievalText with
  | some text => if text ≠ "" then some ⟨e.id, text⟩ else none
  | none => none

/-! ### Triggers -/

def insertEntityFts : Trigger Entity EntityFtsRow
  | .inserted new, rows => if new.live then rows ++ [entityFtsRow new] else rows
  | _, rows => rows

def updateEntityFts : Trigger Entity EntityFtsRow
  | .updated old new, rows =>
    if new.live && old.live then
      rows.map fun r =>
        if r.id = old.id then { r with title := new.title, fullContent := new.fullContent, searchAliases := new.searchAliases } else r
    else rows
  | _, rows => rows

def updateEntityFtsUnarchived : Trigger Entity EntityFtsRow
  | .updated old new, rows => if new.live && !old.live then rows ++ [entityFtsRow new] else rows
  | _, rows => rows

def archiveMemoryFts : Trigger Entity EntityFtsRow
  | .updated old new, rows => if new.live then rows else rows.filter (·.id ≠ old.id)
  | _, rows => rows

def deleteEntityFts : Trigger Entity EntityFtsRow
  | .deleted old, rows => rows.filter (·.id ≠ old.id)
  | _, rows => rows

def entityFtsTriggers : List (Trigger Entity EntityFtsRow) :=
  [insertEntityFts, updateEntityFts, updateEntityFtsUnarchived, archiveMemoryFts, deleteEntityFts]

def insertRetrievalFts : Trigger Entity RetrievalFtsRow
  | .inserted new, rows => if new.live then rows ++ (retrievalFtsRow new).toList else rows
  | _, rows => rows

def updateRetrievalFts : Trigger Entity RetrievalFtsRow
  | .updated old new, rows =>
    if new.live && old.live then rows.filter (·.id ≠ old.id) ++ (retrievalFtsRow new).toList else rows
  | _, rows => rows

def archiveRetrievalFts : Trigger Entity RetrievalFtsRow
  | .updated old new, rows => if new.live then rows else rows.filter (·.id ≠ old.id)
  | _, rows => rows

def deleteRetrievalFts : Trigger Entity RetrievalFtsRow
  | .deleted old, rows => rows.filter (·.id ≠ old.id)
  | _, rows => rows

def retrievalFtsTriggers : List (Trigger Entity RetrievalFtsRow) :=
  [insertRetrievalFts, updateRetrievalFts, archiveRetrievalFts, deleteRetrievalFts]

/-! ### Statements -/

/-- A full text table, if the file has one: rows of an older shape have no text in the columns they lack. -/
structure FtsTable (ι : Type) where
  columns : List String
  rows : List ι
deriving DecidableEq, Repr

structure FtsDb where
  entities : EntityTable
  entitiesFts : Option (FtsTable EntityFtsRow)
  retrievalFts : Option (FtsTable RetrievalFtsRow)
deriving DecidableEq

def EntityTable.deleteWhere (T : EntityTable) (sel : Entity → Bool) : EntityTable where
  rows := T.rows.filter (!sel ·)
  distinct := T.distinct.sublist List.filter_sublist

/-- A statement on `entities`. None of them writes the id of a row. -/
inductive Statement where
  | insert (e : Entity)
  | upsert (e : Entity) (f : EntityColumns → EntityColumns)
  | update (sel : Entity → Bool) (f : EntityColumns → EntityColumns)
  | delete (sel : Entity → Bool)

namespace Statement

def run (T : EntityTable) : Statement → EntityTable
  | insert e => (T.insert e).getD T
  | upsert e f => T.upsert e f
  | update sel f => T.updateWhere sel f
  | delete sel => T.deleteWhere sel

/-- The rows that the statement changes; an insert of an id that is taken fails and changes none. -/
def changes (T : EntityTable) : Statement → List (Change Entity)
  | insert e => if (T.find e.id).isNone then [.inserted e] else []
  | upsert e f =>
    if (T.find e.id).isNone then [.inserted e]
    else (T.rows.filter (·.id == e.id)).map fun old => .updated old (old.setIf (·.id == e.id) f)
  | update sel f => (T.rows.filter sel).map fun old => .updated old (old.setIf sel f)
  | delete sel => (T.rows.filter sel).map .deleted

end Statement

def FtsTable.fire {ι : Type} (triggers : List (Trigger Entity ι)) (changes : List (Change Entity)) (table : FtsTable ι) : FtsTable ι :=
  { table with rows := fireAll (Mirror.fire triggers) changes table.rows }

namespace FtsDb

def execute (db : FtsDb) (statement : Statement) : FtsDb :=
  let changes := statement.changes db.entities
  { entities := statement.run db.entities
    entitiesFts := db.entitiesFts.map (·.fire entityFtsTriggers changes)
    retrievalFts := db.retrievalFts.map (·.fire retrievalFtsTriggers changes) }

def executeAll (db : FtsDb) (statements : List Statement) : FtsDb := statements.foldl execute db

/-! ### `init_db` -/

/-- The table has the column, and so is of the current shape. -/
def hasColumn {ι : Type} (table : Option (FtsTable ι)) (column : String) : Bool := table.any (·.columns.contains column)

/-- The backfill takes every memory. -/
def ensureEntityFts (db : FtsDb) : FtsDb :=
  if hasColumn db.entitiesFts "search_aliases" then db
  else { db with entitiesFts := some ⟨["id", "title", "full_content", "search_aliases"], db.entities.rows.map entityFtsRow⟩ }

def ensureRetrievalFts (db : FtsDb) : FtsDb :=
  if hasColumn db.retrievalFts "retrieval_text" then db
  else { db with retrievalFts := some ⟨["id", "retrieval_text"], (db.entities.rows.filter (·.live)).filterMap retrievalFtsRow⟩ }

/-! ### Mirrors -/

/-- The memory's row in `entities_fts`: its current text if it is not archived, and otherwise none. -/
def EntitiesMirrored (db : FtsDb) (id : EntityId) : Prop :=
  ∃ table, db.entitiesFts = some table ∧
    table.rows.filter (·.id = id) = (((db.entities.find id).filter (·.live)).map entityFtsRow).toList

/-- The memory's row in `retrieval_fts`: its current retrieval text if it has one and is not archived, and otherwise none. -/
def RetrievalMirrored (db : FtsDb) (id : EntityId) : Prop :=
  ∃ table, db.retrievalFts = some table ∧
    table.rows.filter (·.id = id) = (((db.entities.find id).filter (·.live)).bind retrievalFtsRow).toList

end FtsDb

/-- A file that some release left, after the columns it lacked are added. A full text table of the current shape has the
triggers of the current shape, and mirrors its memories. -/
structure LegacyDb where
  db : FtsDb
  /-- `embedding_status IS NOT 'archived'` -/
  embeddingPending : EntityId → Bool
  projectId : EntityId → Option String
  entitiesKept : FtsDb.hasColumn db.entitiesFts "search_aliases" = true → ∀ id, db.EntitiesMirrored id
  retrievalKept : FtsDb.hasColumn db.retrievalFts "retrieval_text" = true → ∀ id, db.RetrievalMirrored id

/-- The statements on `entities` that come before the full text tables are made. -/
def backfillLegacyEntityMetadata (env : Env) (legacy : LegacyDb) : List Statement :=
  [.update (fun e => e.status == .archived && legacy.embeddingPending e.id) id,
    .update (·.contentHash == "") fun c => { c with contentHash := env.computeContentHash c.fullContent }] ++
  legacy.db.entities.rows.map fun e =>
    .update (fun row => row.id == e.id && row.contextId.isNone && (legacy.projectId e.id).isSome) fun c =>
      { c with contextId := legacy.projectId e.id }

/-- The file when both full text tables are made. -/
def ensureFts (env : Env) (legacy : LegacyDb) : FtsDb :=
  ((legacy.db.executeAll (backfillLegacyEntityMetadata env legacy)).ensureEntityFts).ensureRetrievalFts

/-- `migrations` are the statements on `entities` of the migrations that come after the triggers are set. -/
def initDb (env : Env) (legacy : LegacyDb) (migrations : List Statement) : FtsDb := (ensureFts env legacy).executeAll migrations

end SaltMdb
