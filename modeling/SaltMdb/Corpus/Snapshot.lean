import Mathlib.Data.String.Basic
import Mathlib.Data.List.Sort
import SaltMdb.Library.Json
import SaltMdb.Library.Paging
import SaltMdb.Library.Separated

/-!
The pages of a corpus snapshot. Each is read in a transaction of its own; a hash over the exported
rows, the edges between them and the schema binds it to the first.
-/

namespace SaltMdb

/-! ### Columns -/

/-- A REAL, as the one text that it is printed with. -/
structure RealNumeral where
  numeral : Json.Numeral
  fractional : numeral.text.any (fun c => c = '.' || c = 'e' || c = 'I') = true
  deriving DecidableEq

inductive SqlValue
  | null
  | integer (i : Int)
  | real (r : RealNumeral)
  | text (s : String)
  deriving DecidableEq

def SqlValue.toJson : SqlValue → Json.Value
  | .null => .null
  | .integer i => .number (.ofInt i)
  | .real r => .number r.numeral
  | .text s => .text s

/-- `bool` of a column. -/
def SqlValue.truthy : SqlValue → Bool
  | .null => false
  | .integer i => i != 0
  | .real r => r.numeral.text != "0.0".toList && r.numeral.text != "-0.0".toList
  | .text s => s != ""

/-- The exported columns of a row of `entities`. -/
structure CorpusRow where
  id : String
  title : SqlValue
  fullContent : SqlValue
  status : SqlValue
  contentHash : SqlValue
  metadata : SqlValue
  createdAt : SqlValue
  updatedAt : SqlValue
  agentId : SqlValue
  scope : SqlValue
  isCore : SqlValue
  weight : SqlValue
  contextId : SqlValue
  memoryType : SqlValue
  deriving DecidableEq

def entityColumns : List String :=
  ["id", "title", "full_content", "status", "content_hash", "metadata", "created_at", "updated_at", "agent_id", "scope",
    "is_core", "weight", "context_id", "memory_type"]

def CorpusRow.rowValues (row : CorpusRow) : List SqlValue :=
  [.text row.id, row.title, row.fullContent, row.status, row.contentHash, row.metadata, row.createdAt, row.updatedAt,
    row.agentId, row.scope, row.isCore, row.weight, row.contextId, row.memoryType]

/-- The exported columns of a row of `relations`. -/
structure CorpusRelation where
  id : String
  sourceId : String
  targetId : String
  predicate : SqlValue
  createdAt : SqlValue
  validFrom : SqlValue
  validTo : SqlValue
  validAt : SqlValue
  invalidAt : SqlValue
  deriving DecidableEq

/-- The schema's rows in their order, its versions, and the columns that `entities` has. -/
structure CorpusSchema where
  objects : List (List SqlValue)
  schemaVersion : Int
  userVersion : Int
  columns : List String
  deriving DecidableEq

structure CorpusState where
  schema : CorpusSchema
  entities : List CorpusRow
  relations : List CorpusRelation
  distinct : entities.Pairwise fun a b => a.id ≠ b.id

/-! ### Hashes -/

def isSha256 (text : String) : Bool := text.toList.length = 64 && text.toList.all fun c => "0123456789abcdef".toList.contains c

structure Digest where
  text : String
  valid : isSha256 text = true
  deriving DecidableEq

/-- `sha256(text.encode("utf-8")).hexdigest()` and SQLite's `datetime`. -/
structure SnapshotEnv where
  sha256 : List Char → Digest
  datetime : SqlValue → Option String

inductive SnapshotError
  | malformed (message : String)
  | changed (message : String)
  deriving DecidableEq

section
variable (env : SnapshotEnv) (agentId : String) (includeArchived : Bool)

def sha256Json (value : Json.Value) : Digest := env.sha256 (Json.render value)

/-- Every object has its keys in order, as `sort_keys` puts them. -/
def CorpusSchema.document (schema : CorpusSchema) : Json.Value :=
  .object [("objects", .array (schema.objects.map fun row => .array (row.map SqlValue.toJson))),
    ("schema_version", .number (.ofInt schema.schemaVersion)), ("user_version", .number (.ofInt schema.userVersion))]

def requireEntityColumns (schema : CorpusSchema) : Except SnapshotError Unit :=
  let missing := (entityColumns.filter fun column => !schema.columns.contains column).insertionSort (· ≤ ·)
  if missing = [] then .ok ()
  else .error <| .malformed ("entities table is missing authoritative snapshot columns: " ++ String.intercalate ", " missing)

def visiblePredicate (row : CorpusRow) : Bool :=
  (row.agentId = .text agentId || row.scope = .text "shared") &&
    (includeArchived || row.status != .null && row.status != .text "archived")

def visibleRows (state : CorpusState) : List CorpusRow := state.entities.filter (visiblePredicate agentId includeArchived)

/-- `ORDER BY id`, of all that is visible. -/
def corpusRows (state : CorpusState) : List CorpusRow :=
  (visibleRows agentId includeArchived state).insertionSort fun a b => a.id ≤ b.id

def snapshotRows (state : CorpusState) (afterId : Option String) (limit : Nat) : List CorpusRow :=
  Paging.page CorpusRow.id limit afterId (corpusRows agentId includeArchived state)

/-- A comparison with an unreadable time is not true. -/
def begun (column asOf : SqlValue) : Bool :=
  column = .null || match env.datetime column, env.datetime asOf with
    | some t, some now => t ≤ now
    | _, _ => false

def unended (column asOf : SqlValue) : Bool :=
  column = .null || match env.datetime column, env.datetime asOf with
    | some t, some now => now < t
    | _, _ => false

/-- A supersedes edge that holds at a time. -/
def currentlyValid (asOf : SqlValue) (r : CorpusRelation) : Bool :=
  r.predicate = .text "supersedes" && begun env r.validFrom asOf && unended env r.validTo asOf &&
    begun env r.validAt asOf && unended env r.invalidAt asOf

def edgeBefore (a b : CorpusRelation) : Bool :=
  a.sourceId < b.sourceId || a.sourceId = b.sourceId &&
    (a.targetId < b.targetId || a.targetId = b.targetId && a.id ≤ b.id)

def supersedesEdges (state : CorpusState) (asOf : SqlValue) : List CorpusRelation :=
  let visible := (visibleRows agentId includeArchived state).map CorpusRow.id
  (state.relations.filter fun r => visible.contains r.sourceId && visible.contains r.targetId && currentlyValid env asOf r).insertionSort
    fun a b => edgeBefore a b

def CorpusRelation.document (r : CorpusRelation) : Json.Value :=
  .object [("created_at", r.createdAt.toJson), ("id", .text r.id), ("invalid_at", r.invalidAt.toJson),
    ("predicate", r.predicate.toJson), ("source_id", .text r.sourceId), ("target_id", .text r.targetId),
    ("valid_at", r.validAt.toJson), ("valid_from", r.validFrom.toJson), ("valid_to", r.validTo.toJson)]

def relationsDocument (edges : List CorpusRelation) : Json.Value :=
  .object [("agent_id", .text agentId), ("edges", .array (edges.map CorpusRelation.document)),
    ("include_archived", .bool includeArchived)]

def hex4 (n : Nat) : List Char :=
  [Json.hexDigit (n / 4096), Json.hexDigit (n / 256), Json.hexDigit (n / 16), Json.hexDigit n]

/-- The escapes of `ensure_ascii`: a character beyond the basic plane is a surrogate pair. -/
def escapeAscii (c : Char) : List Char :=
  match Json.shortEscape c with
  | some letter => ['\\', letter]
  | none =>
    if 32 ≤ c.toNat ∧ c.toNat < 127 then [c]
    else if c.toNat < 65536 then '\\' :: 'u' :: hex4 c.toNat
    else '\\' :: 'u' :: hex4 (55296 + (c.toNat - 65536) / 1024) ++ '\\' :: 'u' :: hex4 (56320 + (c.toNat - 65536) % 1024)

/-- The first line of the corpus text, encoded with `ensure_ascii`. -/
def scopeLine : List Char :=
  "\x7b\"agent_id\":\"".toList ++ agentId.toList.flatMap escapeAscii ++ "\",\"include_archived\":".toList ++
    Json.render (.bool includeArchived) ++ "\x7d\n".toList

def CorpusRow.line (row : CorpusRow) : List Char := Json.render (.array (row.rowValues.map SqlValue.toJson))

def corpusText (rows : List CorpusRow) : List Char :=
  scopeLine agentId includeArchived ++ rows.flatMap fun row => row.line ++ ['\n']

structure SnapshotProvenance where
  schemaHash : Digest
  corpusHash : Digest
  databaseHash : Digest
  snapshotHash : Digest
  entityCount : Nat
  includeArchived : Bool
  agentId : String
  relationRootHash : Digest
  relationCount : Nat
  deriving DecidableEq

def databaseDocument (schemaHash corpusHash relationRootHash : Digest) (entityCount : Nat) : Json.Value :=
  .object [("agent_id", .text agentId), ("corpus_hash", .text corpusHash.text), ("entity_count", .number (.ofInt entityCount)),
    ("relation_root_hash", .text relationRootHash.text), ("schema_hash", .text schemaHash.text)]

def snapshotDocument (databaseHash relationRootHash : Digest) : Json.Value :=
  .object [("agent_id", .text agentId), ("database_hash", .text databaseHash.text), ("include_archived", .bool includeArchived),
    ("relation_root_hash", .text relationRootHash.text)]

def provenance (state : CorpusState) (asOf : SqlValue) : SnapshotProvenance :=
  let rows := corpusRows agentId includeArchived state
  let edges := supersedesEdges env agentId includeArchived state asOf
  let schemaHash := sha256Json env state.schema.document
  let corpusHash := env.sha256 (corpusText agentId includeArchived rows)
  let relationRootHash := sha256Json env (relationsDocument agentId includeArchived edges)
  let databaseHash := sha256Json env (databaseDocument agentId schemaHash corpusHash relationRootHash rows.length)
  { schemaHash, corpusHash, databaseHash
    snapshotHash := sha256Json env (snapshotDocument agentId includeArchived databaseHash relationRootHash)
    entityCount := rows.length
    includeArchived, agentId, relationRootHash
    relationCount := edges.length }

end

/-! ### Pages -/

def defaultPageSize : Int := 100
def maxPageSize : Int := 1000

structure PageRequest where
  agentId : Option String
  pageSize : Option Int
  cursor : Option String
  snapshotHash : Option String
  includeArchived : Bool
  deriving DecidableEq

def validatePageRequest (request : PageRequest) : Except SnapshotError Nat :=
  let pageSize := request.pageSize.getD defaultPageSize
  if pageSize ≤ 0 ∨ maxPageSize < pageSize then
    .error <| .malformed s!"page_size must be between 1 and {maxPageSize}"
  else if request.cursor = some "" then .error <| .malformed "cursor must be a non-empty entity ID when supplied"
  else if request.snapshotHash.any fun hash => !isSha256 hash then
    .error <| .malformed "snapshot_hash must be a lowercase SHA-256"
  else .ok pageSize.toNat

structure EntityPayload where
  id : String
  title : SqlValue
  body : SqlValue
  status : SqlValue
  sourceHash : SqlValue
  sourceMetadata : SqlValue
  createdAt : SqlValue
  updatedAt : SqlValue
  agentId : SqlValue
  scope : SqlValue
  isCore : Bool
  weight : SqlValue
  contextId : SqlValue
  memoryType : SqlValue
  deriving DecidableEq

def entityPayload (row : CorpusRow) : EntityPayload where
  id := row.id
  title := row.title
  body := row.fullContent
  status := row.status
  sourceHash := row.contentHash
  sourceMetadata := row.metadata
  createdAt := row.createdAt
  updatedAt := row.updatedAt
  agentId := row.agentId
  scope := row.scope
  isCore := row.isCore.truthy
  weight := row.weight
  contextId := row.contextId
  memoryType := row.memoryType

structure CorpusPage where
  entities : List EntityPayload
  nextCursor : Option String
  hasMore : Bool
  pageSize : Nat
  provenance : SnapshotProvenance
  supersedesEdges : List CorpusRelation
  deriving DecidableEq

def pageResult (rows : List CorpusRow) (pageSize : Nat) (provenance : SnapshotProvenance) (supersedesEdges : List CorpusRelation) :
    CorpusPage :=
  let hasMore : Bool := pageSize < rows.length
  let entities := (rows.take pageSize).map entityPayload
  { entities
    nextCursor := if hasMore then entities.getLast?.map EntityPayload.id else none
    hasMore, pageSize, provenance, supersedesEdges }

/-- What a page finds: the state that its transaction reads, `data_version` on either side, and the clock. -/
structure PageVisit where
  state : CorpusState
  inTransaction : Bool
  beforeVersion : Int
  afterVersion : Int
  asOf : SqlValue

def readTransaction {α : Type} (visit : PageVisit) (body : Except SnapshotError α) : Except SnapshotError α :=
  if visit.inTransaction then
    .error <| .malformed "snapshot export requires a connection with no open transaction"
  else match body with
    | .error e => .error e
    | .ok result =>
      if visit.afterVersion ≠ visit.beforeVersion then
        .error <| .changed "database changed while the snapshot page was being read; retry from the first page"
      else .ok result

section
variable (env : SnapshotEnv)

def snapshotPage (visit : PageVisit) (agentId : String) (includeArchived : Bool) (pageSize : Nat) (cursor snapshotHash : Option String) :
    Except SnapshotError CorpusPage := do
  requireEntityColumns visit.state.schema
  let found := provenance env agentId includeArchived visit.state visit.asOf
  if snapshotHash.any fun hash => hash ≠ found.snapshotHash.text then
    throw <| .changed "corpus snapshot changed since the previous page; restart the export"
  let rows := snapshotRows agentId includeArchived visit.state cursor (pageSize + 1)
  let edges := supersedesEdges env agentId includeArchived visit.state visit.asOf
  if sha256Json env (relationsDocument agentId includeArchived edges) ≠ found.relationRootHash then
    throw <| .changed "supersedes relation snapshot changed while the page was being read"
  return pageResult rows pageSize found edges

def exportCorpusSnapshotPage (visit : PageVisit) (request : PageRequest) : Except SnapshotError CorpusPage := do
  let pageSize ← validatePageRequest request
  match request.agentId with
  | none => throw <| .malformed "agent_id is mandatory for corpus snapshot export"
  | some agentId =>
    if agentId = "" then throw <| .malformed "agent_id is mandatory for corpus snapshot export"
    readTransaction visit <| snapshotPage env visit agentId request.includeArchived pageSize request.cursor request.snapshotHash

/-- A caller's pages: each after the first has the cursor of the one before and the first one's hash. -/
def exportPages (agentId : String) (pageSize : Option Int) (includeArchived : Bool) :
    Option String → Option String → List PageVisit → Except SnapshotError (List CorpusPage)
  | _, _, [] => .ok []
  | cursor, hash, visit :: visits =>
    match exportCorpusSnapshotPage env visit ⟨some agentId, pageSize, cursor, hash, includeArchived⟩ with
    | .error e => .error e
    | .ok page =>
      match page.nextCursor with
      | none => .ok [page]
      | some next =>
        (exportPages agentId pageSize includeArchived (some next) (some (hash.getD page.provenance.snapshotHash.text)) visits).map
          (page :: ·)

end

end SaltMdb
