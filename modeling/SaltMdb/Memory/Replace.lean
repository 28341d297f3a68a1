import SaltMdb.Memory.Store

/-! `revise_memory` and `supersede_memory`: one new memory takes the place of an active one. -/

namespace SaltMdb
open Transactions

inductive Operation where
  | revises
  | supersedes
deriving DecidableEq, Repr

def Operation.text : Operation → String
  | .revises => "revises"
  | .supersedes => "supersedes"

structure ReplacementRequest where
  entityId : Option String
  title : Option String
  tags : Option (List String)
  content : Option String
  reason : Option String
  agentId : Option String
  contextId : Option String
  scope : Option String
  memoryType : Option String
  metadata : Option (List (String × String))
  retrievalText : Option String
  core : CoreDeclaration
  repointRelations : Bool
deriving DecidableEq, Repr

/-- Everything one replacement needs before its write transaction starts. -/
structure ReplacementPlan where
  resolvedId : EntityId
  before : Entity
  orphanedEdges : List Relation
  newTitle : String
  newContent : String
  contentHash : String
  now : Instant
  agentId : Option String
  contextId : Option String
  scope : Scope
  memoryType : MemoryType
  metadata : List (String × String)
  effectiveTags : List String
  reason : String
  retrievalText : Option String
  core : CoreDeclaration

/-- An edge that a replacement carried over to the new memory. -/
structure Repointed where
  oldRelationId : RelationId
  newRelationId : RelationId
  edge : Edge
deriving DecidableEq, Repr

structure ReplacementReceipt where
  oldId : EntityId
  newId : EntityId
  relationId : RelationId
  predicate : String
  reason : String
  orphanedSemanticEdges : List RelationId
  repointedRelations : List Repointed
deriving DecidableEq, Repr

variable (env : Env)

/-! ### Checks on the arguments -/

def blank (value : Option String) : Bool := Text.strip (value.getD "") = ""

def validateReplacementRequiredFields (request : ReplacementRequest) : Except Error Unit := do
  if blank request.entityId then .error (fieldError "MISSING_ENTITY_ID" "entity_id is mandatory." "entity_id")
  if blank request.title then
    .error (fieldError "MISSING_TITLE" "title is mandatory and cannot be empty." "title")
  if blank request.content then
    .error (fieldError "MISSING_CONTENT" "content is mandatory and cannot be empty." "content")
  if maxMemoryContentChars < (request.content.getD "").length then
    .error (fieldError "CONTENT_TOO_LONG"
      ("content exceeds " ++ toString maxMemoryContentChars ++ " characters (got " ++
        toString (request.content.getD "").length ++ ").") "content")
  if blank request.reason then
    .error (fieldError "MISSING_REASON" "reason is mandatory and cannot be empty." "reason")

def validateReplacementOptionalFields (request : ReplacementRequest) : Except Error Unit := do
  match request.tags with
  | none => .ok ()
  | some tags =>
    if tags.isEmpty || tags.any (fun tag => Text.strip tag = "") then
      .error (fieldError "INVALID_TAGS" "tags must be a non-empty list of non-empty strings." "tags")
  if request.scope.isSome ∧ (request.scope.bind Scope.parse).isNone then
    .error (fieldError "INVALID_SCOPE" "scope must be 'private' or 'shared'." "scope")
  if request.memoryType.isSome ∧ (request.memoryType.bind MemoryType.parse).isNone then
    .error (fieldError "INVALID_MEMORY_TYPE"
      "memory_type must be one of 'fact', 'event', 'procedure', 'decision', or 'preference'." "memory_type")

def ambiguousPrefixError (entityId : String) : Error :=
  fieldError "AMBIGUOUS_ID_PREFIX"
    ("ID prefix '" ++ entityId ++ "' matches multiple memories; provide a longer prefix or full UUID.") "entity_id"

def unknownEntityError (entityId : String) : Error :=
  fieldError "UNKNOWN_ENTITY_ID" ("No memory matches entity_id '" ++ entityId ++ "'.") "entity_id"

def inactiveTargetError (id : EntityId) (state : String) : Error :=
  fieldError "INACTIVE_TARGET"
    ("Memory '" ++ id ++ "' " ++ state ++ " To correct stale/wrong information on an inactive memory without reviving it, " ++
      "store a new store_memory fact with the correction, then manage_relation(predicate='corrects', source_id=<new " ++
      "memory>, target_id='" ++ id ++ "') -- no revise_memory/supersede_memory call is possible on an inactive target.")
    "entity_id"

/-- The target: an active memory, not one that was replaced, consolidated or archived before. -/
def replacementTarget (db : Db) (entityId : String) : Except Error Entity :=
  let found := resolveEntityRef env db entityId none
  if !found.candidates.isEmpty then .error (ambiguousPrefixError entityId)
  else match found.resolved.bind db.entities.find with
    | none => .error (unknownEntityError entityId)
    | some target =>
      if target.status ≠ .raw then
        .error (inactiveTargetError target.id ("is inactive (" ++ target.status.text ++
          "). Fetch an active successor and inspect it before retrying; no replacement was created."))
      else .ok target

/-- The active semantic edges that touch an entity. -/
def semanticEdgeWorklist (db : Db) (id : EntityId) : List Relation :=
  db.relations.rows.filter fun r => r.touches id && r.active && !isLineage r.predicate

/-! ### The plan -/

def replacementQualityError (code : String) : Error :=
  ⟨"MEMORY_QUALITY_REJECTED", "Memory quality check rejected. Reason: " ++ code, none⟩

def replacementQuality (content : String) : Except Error Unit :=
  match env.qualityHardErrors content with
  | [] => .ok ()
  | code :: _ => .error (replacementQualityError code)

def replacementRetrievalText (given : Option String) : Except Error (Option String) :=
  match given with
  | none => .ok none
  | some text => (normalizeRetrievalText env text).mapError fun e => fieldError "INVALID_RETRIEVAL_TEXT" e "retrieval_text"

def replacementPlan (db : Db) (now : Instant) (request : ReplacementRequest) (before : Entity) :
    Except Error ReplacementPlan := do
  let newTitle := env.redactSecrets (Text.strip (request.title.getD ""))
  let newContent := env.redactSecrets (request.content.getD "")
  (validateMemoryInput newTitle (request.tags.getD [])).mapError fun text => ⟨"INVALID_MEMORY", text, none⟩
  replacementQuality env newContent
  let retrievalText ← replacementRetrievalText env request.retrievalText
  return {
    resolvedId := before.id
    before := before
    orphanedEdges := semanticEdgeWorklist db before.id
    newTitle := newTitle
    newContent := newContent
    contentHash := env.computeContentHash newContent
    now := now
    agentId := request.agentId.or before.agentId
    contextId := request.contextId.or before.contextId
    scope := (request.scope.bind Scope.parse).getD before.scope
    memoryType := (request.memoryType.bind MemoryType.parse).getD before.memoryType
    metadata := request.metadata.getD before.metadata
    effectiveTags := request.tags.getD (listEntityTags db before.id)
    reason := request.reason.getD ""
    retrievalText := retrievalText
    core := request.core }

def prepareReplacement (db : Db) (now : Instant) (request : ReplacementRequest) : Except Error ReplacementPlan := do
  validateReplacementRequiredFields request
  validateReplacementOptionalFields request
  let before ← replacementTarget env db (request.entityId.getD "")
  replacementPlan env db now request before

/-! ### The write -/

def ReplacementPlan.entry (plan : ReplacementPlan) (newId : EntityId) : CoreEntry :=
  plan.core.entry newId plan.newTitle plan.memoryType plan.newContent

/-- The row of the new memory: what is neither supplied nor inherited starts afresh. -/
def ReplacementPlan.row (plan : ReplacementPlan) (newId : EntityId) (state : CoreState) : Entity where
  id := newId
  createdAt := plan.now
  updatedAt := plan.now
  agentId := plan.agentId
  contextId := plan.contextId
  scope := plan.scope
  status := .raw
  title := plan.newTitle
  fullContent := plan.newContent
  contentHash := plan.contentHash
  memoryType := plan.memoryType
  parentIds := []
  metadata := plan.metadata
  retrievalText := plan.retrievalText
  isCore := state.isCore
  coreReason := state.coreReason
  coreExitCondition := state.coreExitCondition
  coreReviewAfter := state.coreReviewAfter
  coreDetailMemoryIds := state.coreDetailMemoryIds
  coreReviewRationale := none

/-- The columns of the predecessor that must not have moved since the plan was made. -/
def Entity.sameFrozen (a b : Entity) : Bool :=
  a.title == b.title && a.fullContent == b.fullContent && a.agentId == b.agentId && a.contextId == b.contextId &&
    a.scope == b.scope && a.memoryType == b.memoryType && a.createdAt == b.createdAt && a.contentHash == b.contentHash &&
    a.metadata == b.metadata && a.parentIds == b.parentIds

def targetChangedError : Error :=
  fieldError "TARGET_CHANGED" "Target changed while replacement was being prepared; retry after fetching it again."
    "entity_id"

def replacementLockedSource (db : Db) (plan : ReplacementPlan) : Except Exc Unit :=
  match db.entities.find plan.resolvedId with
  | none => .error (.lifecycleRejected [unknownEntityError plan.resolvedId])
  | some current =>
    if current.status ≠ .raw then
      .error (.lifecycleRejected [inactiveTargetError plan.resolvedId ("became inactive (" ++ current.status.text ++
        ") before replacement; retry against an active successor.")])
    else if !current.sameFrozen plan.before then .error (.lifecycleRejected [targetChangedError])
    else .ok ()

/-- A plain `INSERT INTO entities`. -/
def insertEntity (e : Entity) : Tx Unit := do
  let db ← Tx.db
  match db.entities.insert e with
  | none => throw (.integrityError "UNIQUE constraint failed: entities.id")
  | some inserted => Tx.setEntities fun _ => inserted

/-- A plain `INSERT INTO relations`, which an active row of the same edge refuses. -/
def insertRelation (d : RelationDraft) : Tx RelationId := do
  let db ← Tx.db
  match db.relations.insertOrIgnore d with
  | none => throw (.integrityError "UNIQUE constraint failed: relations.source_id, relations.target_id, relations.predicate")
  | some inserted =>
    Tx.setRelations fun _ => inserted
    return db.relations.next

def replacementInsertCoreTags (plan : ReplacementPlan) (newId : EntityId) (state : CoreState) : Tx Unit :=
  Tx.when_ state.isCore do
    linkCoreTag env newId plan.agentId
    reconcileDetailRelations env newId plan.agentId state.coreDetailMemoryIds []

/-- `UPDATE entities SET status = 'archived' … WHERE id = ? AND status = 'raw'`. -/
def archivePredecessor (id : EntityId) (now : Instant) : Tx Unit :=
  Tx.setEntities (·.updateWhere (fun e => e.id == id && e.status == .raw) (·.archive now))

def replacementEnqueueJobs (plan : ReplacementPlan) (newId : EntityId) : Tx Unit := do
  cancelJobsForEntity plan.resolvedId
  enqueueEmbeddingJobsForEntity env newId plan.newTitle plan.newContent plan.contentHash
  enqueueRetrievalEmbeddingJobForEntity env newId plan.retrievalText

def ReplacementPlan.lineageDraft (plan : ReplacementPlan) (operation : Operation) (newId : EntityId) : RelationDraft :=
  ⟨newId, plan.resolvedId, operation.text, plan.now, some plan.now, some plan.now⟩

def replacementInsertEntity (plan : ReplacementPlan) (operation : Operation) (newId : EntityId) (state : CoreState) :
    Tx RelationId := do
  insertEntity (plan.row newId state)
  insertReplacementTags env newId plan.agentId plan.effectiveTags []
  replacementInsertCoreTags env plan newId state
  archivePredecessor plan.resolvedId plan.now
  replacementEnqueueJobs env plan newId
  insertRelation (plan.lineageDraft operation newId)

/-! ### Repointing -/

structure RepointProgress where
  repointed : List Repointed
  stillOrphaned : List RelationId

/-- An edge with the predecessor replaced on whichever side it stands. -/
def Edge.repoint (e : Edge) (resolvedId newId : EntityId) : Edge where
  source := if e.source = resolvedId then newId else e.source
  predicate := e.predicate
  target := if e.target = resolvedId then newId else e.target

def repointDraft (e : Edge) (now : Instant) : RelationDraft := ⟨e.source, e.target, e.predicate, now, some now, some now⟩

/-- A declared detail of a core predecessor, and an edge that would become a self-loop, stay behind. -/
def staysBehind (sourceIsCore : Bool) (resolvedId newId : EntityId) (e : Edge) : Bool :=
  (sourceIsCore && e.predicate == "elaborates_on" && e.target == resolvedId) ||
    (e.repoint resolvedId newId).source == (e.repoint resolvedId newId).target

def repointEdge (sourceIsCore : Bool) (resolvedId newId : EntityId) (now : Instant) (progress : RepointProgress)
    (r : Relation) : Tx RepointProgress :=
  if staysBehind sourceIsCore resolvedId newId r.edge then
    pure { progress with stillOrphaned := progress.stillOrphaned ++ [r.id] }
  else do
    Tx.setRelations (·.closeId r.id ⟨now, some now⟩)
    let db ← Tx.db
    let moved := r.edge.repoint resolvedId newId
    match db.relations.insertOrIgnore (repointDraft moved now) with
    | none => return progress
    | some inserted =>
      Tx.setRelations fun _ => inserted
      return { progress with repointed := progress.repointed ++ [⟨r.id, db.relations.next, moved⟩] }

def repointEdges (sourceIsCore : Bool) (resolvedId newId : EntityId) (now : Instant) :
    RepointProgress → List Relation → Tx RepointProgress
  | progress, [] => pure progress
  | progress, r :: rest => do
    let progress ← repointEdge sourceIsCore resolvedId newId now progress r
    repointEdges sourceIsCore resolvedId newId now progress rest

def replacementRepointEdges (resolvedId newId : EntityId) (now : Instant) : Tx RepointProgress := do
  let db ← Tx.db
  let sourceIsCore := ((db.entities.find resolvedId).map (·.isCore)).getD false
  repointEdges sourceIsCore resolvedId newId now ⟨[], []⟩ (semanticEdgeWorklist db resolvedId)

/-! ### The service -/

def replacementReceipt (operation : Operation) (plan : ReplacementPlan) (newId : EntityId) (relationId : RelationId)
    (progress : Option RepointProgress) : ReplacementReceipt where
  oldId := plan.resolvedId
  newId := newId
  relationId := relationId
  predicate := operation.text
  reason := Text.strip plan.reason
  orphanedSemanticEdges := match progress with
    | none => plan.orphanedEdges.map (·.id)
    | some p => (plan.orphanedEdges.map (·.id)).filter p.stillOrphaned.contains
  repointedRelations := (progress.map (·.repointed)).getD []

/-- What happens under the savepoint. -/
def replacementBody (operation : Operation) (plan : ReplacementPlan) (repointRelations : Bool) (newId : EntityId)
    (state : CoreState) : Tx ReplacementReceipt := do
  let relationId ← replacementInsertEntity env plan operation newId state
  if repointRelations then
    let progress ← replacementRepointEdges plan.resolvedId newId plan.now
    return replacementReceipt operation plan newId relationId (some progress)
  else return replacementReceipt operation plan newId relationId none

def replacementWrite (operation : Operation) (plan : ReplacementPlan) (repointRelations : Bool) : Tx ReplacementReceipt := do
  let db ← Tx.db
  Txn.ofExcept (replacementLockedSource db plan)
  let newId ← Tx.uuid4 env
  let now ← Tx.now env
  let state ← Txn.ofExcept
    (resolveDerivedCoreState env db now [plan.resolvedId] plan.core plan.newContent plan.scope (plan.entry newId))
  let receipt ← savepoint (replacementBody env operation plan repointRelations newId state)
  cancelRetrievalEmbeddingJobsForEntity plan.resolvedId
  return receipt

/-- The refusals a replacement answers with; any other exception stays one. -/
def replacementRefusal : Exc → Option (List Error)
  | .coreDecisionRequired text => some [fieldError "CORE_DECISION_REQUIRED" text "entity_id"]
  | .coreCapacityExceeded error => some [error]
  | .coreGovernanceRejected text =>
    some [fieldError validationError text (if Text.contains (Text.lower text) "private" then "scope" else "core")]
  | .lifecycleRejected errors => some errors
  | _ => none

def replacementFailure {α : Type} (mode : Mode) (e : Exc) : Tx (Envelope α) :=
  match replacementRefusal e with
  | some errors => pure (.rejected errors)
  | none =>
    match mode with
    | .coordinator => throw e
    | .direct => pure (.rejected [⟨"LIFECYCLE_WRITE_FAILED", e.message, none⟩])

def replaceMemory (mode : Mode) (operation : Operation) (request : ReplacementRequest) :
    Tx (Envelope ReplacementReceipt) := do
  let db ← Tx.db
  let now ← Tx.now env
  match prepareReplacement env db now request with
  | .error e => return .rejected [e]
  | .ok plan =>
    tryCatch (do
      let receipt ← writeTransactionRetrying mode (replacementWrite env operation plan request.repointRelations)
      return .ok receipt [])
      (replacementFailure mode)

end SaltMdb
