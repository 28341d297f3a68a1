import SaltMdb.Memory.Replace

/-! `consolidate_memories` and its two batch services: several active memories are merged into one. -/

namespace SaltMdb
open Transactions

/-- `COHESION_MIN_PAIRWISE_THRESHOLD`. -/
def cohesionMinPairwise : Rat := 6547 / 10000

structure ConsolidationRequest where
  parentIds : List String
  title : Option String
  content : Option String
  tags : List String
  scope : Scope
  overrideJustification : Option String
  agentId : Option String
  contextId : Option String
  core : CoreDeclaration
  metadata : Option (List (String × String))
  memoryType : Option MemoryType
deriving DecidableEq, Repr

structure ConsolidationCohesion where
  overrideApplied : Bool
  minSim : Rat
  unresolved : List (EntityId × String)
  justification : String

structure ConsolidationContent where
  redactedContent : String
  cleanTitle : String
  agentVal : String
  contentHash : String

/-- Everything the preflight established; `observedState` is what the cohesion measurement read of each parent. -/
structure ConsolidationPlan where
  resolvedParents : List EntityId
  cohesion : ConsolidationCohesion
  observedState : EntityId → Option (String × Status)
  content : ConsolidationContent

/-- What a batch measured before its transaction, sliced to the parents of one item. -/
structure BulkContext where
  measured : Db
  parents : List EntityId

structure ConsolidationReceipt where
  entityId : EntityId
  message : String
  orphanedRelations : List Edge
deriving DecidableEq, Repr

variable (env : Env)

/-! ### Parents -/

def unknownParentError (raw : String) : Error :=
  ⟨"UNKNOWN_PARENT_ID", "could not resolve parent_id '" ++ raw ++ "'.", none⟩

def ambiguousParentError (raw : String) (found : PrefixMatch) : Error :=
  ⟨"AMBIGUOUS_PARENT_ID", "parent_id '" ++ raw ++ "' is ambiguous; it matches " ++ toString found.candidates.length ++
    (if found.truncated then "+" else "") ++ " memories.", none⟩

def inactiveParentError (id : EntityId) (status : Status) : Error :=
  ⟨"INACTIVE_PARENT", "parent '" ++ id ++ "' is inactive (status='" ++ status.text ++ "'); inspect its successor with " ++
    "get_lineage(direction='descendants') before retrying. To correct stale/wrong information on an inactive " ++
    "(consolidated/archived) memory without reviving it, store a new store_memory fact with the correction, then " ++
    "manage_relation(predicate='corrects', source_id=<new memory>, target_id='" ++ id ++ "') -- no consolidate_memories " ++
    "call is needed for a single correction.", none⟩

/-- The parents in the order they were first named; a repeated one is not looked at twice. -/
def resolveParentIds (db : Db) : List String → List EntityId → Except Error (List EntityId)
  | [], resolved => .ok resolved
  | raw :: rest, resolved =>
    let found := resolveEntityRef env db raw none
    match found.resolved with
    | none => .error (if found.candidates.isEmpty then unknownParentError raw else ambiguousParentError raw found)
    | some id =>
      if id ∈ resolved then resolveParentIds db rest resolved
      else match db.entities.find id with
        | none => .error (unknownParentError raw)
        | some parent =>
          if parent.status ≠ .raw then .error (inactiveParentError id parent.status)
          else resolveParentIds db rest (resolved ++ [id])

def parentCountError : Error :=
  ⟨"REJECT_PARENT_COUNT", "consolidate_memories requires at least 2 distinct active parents; use revise_memory for a " ++
    "single parent.", none⟩

def resolveAndValidateParentIds (db : Db) (parentIds : List String) : Except Error (List EntityId) := do
  let resolved ← resolveParentIds env db parentIds []
  if resolved.length < 2 then .error parentCountError else .ok resolved

/-! ### Cohesion -/

/-- Fewer than two parents always cohere; an item of a batch is measured on its slice. -/
def consolidationMeasureCohesion (db : Db) (bulk : Option BulkContext) (parents : List EntityId) :
    Rat × Option (String × String) × List (EntityId × String) :=
  if parents.length < 2 then (1, none, [])
  else match bulk with
    | some context => measureCohesion env context.measured context.parents
    | none => measureCohesion env db parents

/-- What was observed of a parent: its content hash and status, and nothing of an archived one. -/
def observeParentState (db : Db) (id : EntityId) : Option (String × Status) :=
  ((db.entities.find id).filter (·.live)).map fun e => (e.contentHash, e.status)

def consolidationObservedState (db : Db) (bulk : Option BulkContext) (parents : List EntityId) (id : EntityId) :
    Option (String × Status) :=
  match bulk with
  | some context =>
    if 2 ≤ parents.length then (if context.parents.contains id then observeParentState context.measured id else none)
    else observeParentState db id
  | none => observeParentState db id

def lowCohesionError (m : Rat × Option (String × String) × List (EntityId × String)) : Error :=
  ⟨"REJECT_LOW_COHESION", "parent set fails pairwise similarity gate (min=" ++ env.formatFloat 4 m.1 ++
    " < 0.6547, weakest pair=" ++ ((m.2.1.map pyTuple).getD "None") ++
    (if m.2.2.isEmpty then "" else ", unresolved=" ++ pyDict m.2.2) ++
    s!"). Pass override_justification (>= {coherenceOverrideMinLength} chars) to force this merge.", none⟩

def overrideAnnotation (m : Rat × Option (String × String) × List (EntityId × String)) (justification : String) : String :=
  "\n\n---\n[Consolidation Override] This merge was forced past the automatic cohesion gate. The minimum pairwise " ++
    "similarity between parents was " ++ env.formatFloat 4 m.1 ++ ", below the required threshold of 0.6547. " ++
    (if m.2.2.isEmpty then "" else "One or more parents had no usable content for scoring. ") ++
    "Justification: " ++ justification

/-- An override is written into the content before it is hashed. -/
def consolidationApplyCohesionOverride (content : String) (override : Option String)
    (m : Rat × Option (String × String) × List (EntityId × String)) : Except Error (String × ConsolidationCohesion) :=
  let justification := Text.strip (override.getD "")
  let applied := decide (m.1 < cohesionMinPairwise)
  if applied ∧ justification.length < coherenceOverrideMinLength then .error (lowCohesionError env m)
  else .ok (if applied then content ++ overrideAnnotation env m justification else content,
    ⟨applied, m.1, m.2.2, justification⟩)

/-! ### The plan -/

def consolidationValidateRequest (request : ConsolidationRequest) : Except Error Unit := do
  if request.parentIds.isEmpty then
    .error ⟨"INVALID_PARENT_IDS", "parent_ids must be a non-empty list of UUID strings.", none⟩
  if request.title.getD "" = "" ∨ request.content.getD "" = "" then
    .error ⟨"MISSING_REQUIRED_FIELDS", "title and content are mandatory.", none⟩
  if maxMemoryContentChars < (request.content.getD "").length then
    .error ⟨"CONTENT_TOO_LONG",
      ("content exceeds " ++ toString maxMemoryContentChars ++ " characters (got " ++
        toString (request.content.getD "").length ++ ")."), none⟩

def consolidationContent (request : ConsolidationRequest) (content : String) : Except Error ConsolidationContent :=
  let redacted := env.redactSecrets content
  match env.qualityHardErrors redacted with
  | code :: _ => .error ⟨"REJECT_QUALITY", "Consolidation quality check rejected. Reason: " ++ code, none⟩
  | [] => .ok ⟨redacted, env.redactSecrets (request.title.getD ""), Text.orDefault request.agentId "system",
      env.computeContentHash redacted⟩

/-- An exact duplicate among the live memories of the agent that are no parents of the merge. -/
def consolidationDuplicate (db : Db) (parents : List EntityId) (content : ConsolidationContent) : Option Entity :=
  db.entities.rows.find? fun e =>
    e.contentHash == content.contentHash && e.agentId == some content.agentVal && e.live && !parents.contains e.id

def consolidationPlan (db : Db) (bulk : Option BulkContext) (request : ConsolidationRequest) :
    Except Error ConsolidationPlan := do
  consolidationValidateRequest request
  let parents ← resolveAndValidateParentIds env db request.parentIds
  (validateTagNames request.tags).mapError fun text => ⟨"INVALID_TAG_NAME", text, none⟩
  let (content, cohesion) ← consolidationApplyCohesionOverride env (request.content.getD "") request.overrideJustification
    (consolidationMeasureCohesion env db bulk parents)
  let content ← consolidationContent env request content
  match consolidationDuplicate db parents content with
  | some duplicate => .error ⟨"REJECT_EXACT_DUPLICATE", "Consolidated memory exact hash matches existing entity ID: " ++
      duplicate.id, none⟩
  | none => .ok ⟨parents, cohesion, consolidationObservedState db bulk parents, content⟩

/-! ### The commit -/

def currentParentState (db : Db) (id : EntityId) : Option (String × Status) :=
  (db.entities.find id).map fun e => (e.contentHash, e.status)

def pyState (state : Option (String × Status)) : String :=
  (state.map fun s => "('" ++ s.1 ++ "', '" ++ s.2.text ++ "')").getD "None"

/-- A parent that moved since the cohesion decision aborts the merge. -/
def consolidationRevalidate (db : Db) (plan : ConsolidationPlan) : Except Exc Unit :=
  match plan.resolvedParents.find? fun id => plan.observedState id != currentParentState db id with
  | some id => .error (.runtimeError ("Consolidation aborted: parent " ++ id ++
      " state changed since the cohesion decision was made (observed=" ++ pyState (plan.observedState id) ++
      ", current=" ++ pyState (currentParentState db id) ++ ")"))
  | none => .ok ()

def consolidationAuditOverride (plan : ConsolidationPlan) (consolidatedId : EntityId) : Tx Unit :=
  Tx.when_ plan.cohesion.overrideApplied
    (logEvent env plan.content.agentVal (.consolidationGateOverride plan.resolvedParents plan.cohesion.minSim
      plan.cohesion.unresolved plan.cohesion.justification consolidatedId))

/-- The row of the merged memory. Its status is an absorbing one: it is never replaced or merged again. -/
def consolidationRow (request : ConsolidationRequest) (plan : ConsolidationPlan) (consolidatedId : EntityId)
    (now : Instant) (state : CoreState) : Entity where
  id := consolidatedId
  createdAt := now
  updatedAt := now
  agentId := some plan.content.agentVal
  contextId := request.contextId
  scope := request.scope
  status := .consolidated
  title := plan.content.cleanTitle
  fullContent := plan.content.redactedContent
  contentHash := plan.content.contentHash
  memoryType := request.memoryType.getD .fact
  parentIds := plan.resolvedParents
  metadata := request.metadata.getD []
  retrievalText := none
  isCore := state.isCore
  coreReason := state.coreReason
  coreExitCondition := state.coreExitCondition
  coreReviewAfter := state.coreReviewAfter
  coreDetailMemoryIds := state.coreDetailMemoryIds
  coreReviewRationale := none

def consolidationInsertEntity (request : ConsolidationRequest) (plan : ConsolidationPlan) (consolidatedId : EntityId)
    (now : Instant) (state : CoreState) : Tx Unit := do
  insertEntity (consolidationRow request plan consolidatedId now state)
  Tx.when_ state.isCore
    (reconcileDetailRelations env consolidatedId (some plan.content.agentVal) state.coreDetailMemoryIds [])

/-- `UPDATE entities SET status = 'archived' … WHERE id IN (…)`. -/
def archiveParents (parents : List EntityId) (now : Instant) : Tx Unit :=
  Tx.setEntities (·.updateWhere (fun e => parents.contains e.id) (·.archive now))

def consolidationArchiveParents (request : ConsolidationRequest) (plan : ConsolidationPlan) (consolidatedId : EntityId)
    (now : Instant) (isCore : Bool) : Tx Unit := do
  enqueueEmbeddingJobsForEntity env consolidatedId plan.content.cleanTitle plan.content.redactedContent
    plan.content.contentHash
  insertTags env consolidatedId (some plan.content.agentVal) request.tags
  Tx.when_ isCore (linkCoreTag env consolidatedId (some plan.content.agentVal))
  archiveParents plan.resolvedParents now
  Txn.forEach cancelJobsForEntity plan.resolvedParents

/-- The active semantic edges that touch a parent: they are reported and left alone. -/
def consolidationCollectWorklist (db : Db) (parents : List EntityId) : List Edge :=
  (db.relations.rows.filter fun r =>
    (parents.contains r.sourceId || parents.contains r.targetId) && r.active && !isLineage r.predicate).map (·.edge)

def consolidationLineageDraft (consolidatedId : EntityId) (now : Instant) (parent : EntityId) : RelationDraft :=
  ⟨consolidatedId, parent, "consolidated_from", now, some now, none⟩

def consolidationInsertLineage (parents : List EntityId) (consolidatedId : EntityId) (now : Instant) : Tx Unit :=
  Txn.forEach (fun parent => do
    let _ ← insertRelation (consolidationLineageDraft consolidatedId now parent)
    return ()) parents

def consolidationEntry (request : ConsolidationRequest) (plan : ConsolidationPlan) (consolidatedId : EntityId) : CoreEntry :=
  request.core.entry consolidatedId plan.content.cleanTitle (request.memoryType.getD .fact) plan.content.redactedContent

/-- What a commit writes once its parents and its core state are settled. -/
def consolidationBody (request : ConsolidationRequest) (plan : ConsolidationPlan) (consolidatedId : EntityId)
    (now : Instant) (state : CoreState) : Tx (List Edge) := do
  consolidationAuditOverride env plan consolidatedId
  consolidationInsertEntity env request plan consolidatedId now state
  consolidationArchiveParents env request plan consolidatedId now state.isCore
  let db ← Tx.db
  consolidationInsertLineage plan.resolvedParents consolidatedId now
  return consolidationCollectWorklist db plan.resolvedParents

def consolidationCommit (request : ConsolidationRequest) (plan : ConsolidationPlan) (consolidatedId : EntityId)
    (now : Instant) : Tx (List Edge) := do
  let db ← Tx.db
  Txn.ofExcept (consolidationRevalidate db plan)
  let state ← Txn.ofExcept (resolveDerivedCoreState env db now plan.resolvedParents request.core
    plan.content.redactedContent request.scope (consolidationEntry request plan consolidatedId))
  consolidationBody env request plan consolidatedId now state

/-- Every exception of a commit becomes a rejection. -/
def consolidationFailure {α : Type} : Exc → Envelope α
  | .coreDecisionRequired text => .rejected [⟨"CORE_DECISION_REQUIRED", text, none⟩]
  | e => .rejected [⟨"CONSOLIDATION_FAILED", e.message, none⟩]

def consolidationReceipt (consolidatedId : EntityId) (orphaned : List Edge) : ConsolidationReceipt :=
  ⟨consolidatedId, "Successfully committed consolidated memory with ID: " ++ consolidatedId, orphaned⟩

/-- `_commit_single`. -/
def consolidationCommitSingle (request : ConsolidationRequest) (plan : ConsolidationPlan) (consolidatedId : EntityId)
    (now : Instant) : Tx (List Edge) := do
  let orphaned ← savepoint (consolidationCommit env request plan consolidatedId now)
  Txn.forEach cancelRetrievalEmbeddingJobsForEntity plan.resolvedParents
  return orphaned

/-- `consolidate_memories`: `commit` runs what the plan settled, in a transaction of its own or in that of a batch. -/
def consolidateWith (bulk : Option BulkContext) (request : ConsolidationRequest)
    (commit : ConsolidationPlan → EntityId → Instant → Tx (List Edge)) : Tx (Envelope ConsolidationReceipt) := do
  let db ← Tx.db
  match consolidationPlan env db bulk request with
  | .error e => return .rejected [e]
  | .ok plan =>
    let consolidatedId ← Tx.uuid4 env
    let now ← Tx.now env
    tryCatch (do
      let orphaned ← commit plan consolidatedId now
      return .ok (consolidationReceipt consolidatedId orphaned) [])
      fun e => return consolidationFailure e

def consolidateMemories (mode : Mode) (request : ConsolidationRequest) : Tx (Envelope ConsolidationReceipt) :=
  consolidateWith env none request fun plan id now =>
    writeTransactionRetrying mode (consolidationCommitSingle env request plan id now)

/-! ### Batches -/

/-- One object of a batch; an item's own owner and context stand before those of the batch. -/
structure ConsolidationItem where
  parentIds : List String
  title : Option String
  content : Option String
  tags : List String
  scope : Scope
  overrideJustification : Option String
  agentId : Option (Option String)
  contextId : Option (Option String)
  core : CoreDeclaration
deriving DecidableEq, Repr

def ConsolidationItem.request (item : ConsolidationItem) (parents : List EntityId) (agentId contextId : Option String) :
    ConsolidationRequest where
  parentIds := parents
  title := item.title
  content := item.content
  tags := item.tags
  scope := item.scope
  overrideJustification := item.overrideJustification
  agentId := item.agentId.getD agentId
  contextId := item.contextId.getD contextId
  core := item.core
  metadata := none
  memoryType := none

/-- An item inside the batch's transaction: no savepoint of its own. -/
def commitBulkConsolidationItem (measured : Db) (item : ConsolidationItem) (parents : List EntityId)
    (agentId contextId : Option String) : Tx (Envelope ConsolidationReceipt) :=
  let request := item.request parents agentId contextId
  consolidateWith env (some ⟨measured, parents⟩) request fun plan id now => consolidationCommit env request plan id now

def writeBulkConsolidationItems (measured : Db) (agentId contextId : Option String) :
    Nat → List (ConsolidationItem × List EntityId) → Tx (List ConsolidationReceipt)
  | _, [] => pure []
  | index, (item, parents) :: rest => do
    match ← commitBulkConsolidationItem env measured item parents agentId contextId with
    | .ok receipt _ =>
      let receipts ← writeBulkConsolidationItems measured agentId contextId (index + 1) rest
      return receipt :: receipts
    | .rejected errors => throw (.bulkItemRejected errors index)
    | .failure _ => throw (.bulkItemRejected [] index)

def writeBulkConsolidations (measured : Db) (agentId contextId : Option String)
    (items : List (ConsolidationItem × List EntityId)) : Tx (List ConsolidationReceipt) := do
  let receipts ← savepoint (writeBulkConsolidationItems env measured agentId contextId 0 items)
  Txn.forEach cancelRetrievalEmbeddingJobsForEntity (items.flatMap (·.2))
  return receipts

/-- The parents of every item, before any of them is written. -/
def prepareBulkConsolidationParents (db : Db) :
    Nat → List ConsolidationItem → Except (Error × Nat) (List (ConsolidationItem × List EntityId))
  | _, [] => .ok []
  | index, item :: rest => do
    let parents ← (resolveAndValidateParentIds env db item.parentIds).mapError fun e => (e, index)
    let others ← prepareBulkConsolidationParents db (index + 1) rest
    return (item, parents) :: others

def itemsField (index : Nat) (rest : FieldPath) : Option FieldPath := some (.name "items" :: .index index :: rest)

def prefixConsolidationErrors (errors : List Error) (index : Nat) : List Error :=
  errors.map fun e =>
    match e.field with
    | none => { e with field := itemsField index (if e.code = "CORE_DECISION_REQUIRED" then [.name "parent_memory_ids"] else []) }
    | some path => if path.head? = some (.name "items") then e else { e with field := itemsField index path }

def itemsArrayError : Error := fieldError validationError "items must be a non-empty array" "items"

def normalizeConsolidationItems : Nat → List (Option ConsolidationItem) → Except Error (List ConsolidationItem)
  | _, [] => .ok []
  | index, none :: _ => .error ⟨validationError, "consolidation item must be an object", itemsField index []⟩
  | index, some item :: rest => do
    let others ← normalizeConsolidationItems (index + 1) rest
    return { item with agentId := none, contextId := item.contextId.bind fun c => c.map some } :: others

/-- The first parent that an earlier item already uses, with the item it occurs in and its owner. -/
def crossItemParent : Nat → List (List EntityId) → List (EntityId × Nat) → Option (EntityId × Nat × Nat)
  | _, [], _ => none
  | index, parents :: rest, owners =>
    match parents.findSome? fun id => (owners.lookup id).map fun owner => (id, index, owner) with
    | some clash => some clash
    | none => crossItemParent (index + 1) rest (owners ++ parents.map fun id => (id, index))

def duplicateParentError (id : EntityId) (index owner : Nat) : Error :=
  ⟨"DUPLICATE_PARENT_ID", "parent '" ++ id ++ s!"' is already used by item {owner}.",
    itemsField index [.name "parent_memory_ids"]⟩

def applyConsolidationsPlan (db : Db) (items : List (Option ConsolidationItem)) :
    Except Error (List (ConsolidationItem × List EntityId)) := do
  if items.isEmpty then .error itemsArrayError
  let normalized ← normalizeConsolidationItems 0 items
  let resolved ← (prepareBulkConsolidationParents env db 0 normalized).mapError fun failed =>
    { failed.1 with field := itemsField failed.2 [.name "parent_memory_ids"] }
  match crossItemParent 0 (resolved.map (·.2)) [] with
  | some (id, index, owner) => .error (duplicateParentError id index owner)
  | none => .ok resolved

def applyConsolidationsFailure {α : Type} (mode : Mode) : Exc → Tx (Envelope α)
  | .bulkItemRejected errors index => pure (.rejected (prefixConsolidationErrors errors index))
  | e =>
    match mode with
    | .coordinator => throw e
    | .direct => pure (internalRejection e)

def applyConsolidations (mode : Mode) (items : List (Option ConsolidationItem)) (agentId contextId : Option String) :
    Tx (Envelope (List ConsolidationReceipt)) := do
  let db ← Tx.db
  match applyConsolidationsPlan env db items with
  | .error e => return .rejected [e]
  | .ok resolved =>
    tryCatch (do
      let receipts ← writeTransactionRetrying mode (writeBulkConsolidations env db agentId contextId resolved)
      return .ok receipts [])
      (applyConsolidationsFailure mode)

/-- `bulk_commit_consolidation`, the batch service of in-process callers: any failure is one text. -/
def bulkCommitConsolidation (mode : Mode) (items : List (Option ConsolidationItem)) (agentId contextId : Option String) :
    Tx (Envelope (List ConsolidationReceipt)) := do
  let db ← Tx.db
  if items.isEmpty then return .failure "consolidations must be a non-empty array of objects"
  match items.mapM id with
  | none => return .failure "object has no attribute 'get'"
  | some items =>
    match prepareBulkConsolidationParents env db 0 items with
    | .error (e, _) => return .failure (e.code ++ ": " ++ e.message)
    | .ok resolved =>
      tryCatch (do
        let receipts ← writeTransactionRetrying mode (writeBulkConsolidations env db agentId contextId resolved)
        return .ok receipts [])
        fun e => return .failure e.message

end SaltMdb
