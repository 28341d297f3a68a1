import SaltMdb.Core.Governance
import SaltMdb.Tag.Resolve

/-! `store_memory`: what a request is checked for, the row it is going to write, and the write itself. -/

namespace SaltMdb
open Transactions

def maxMemoryContentChars : Nat := 40000
def retrievalTextMaxChars : Nat := 4000
def titleMinLength : Nat := 5
def titleMaxLength : Nat := 200

/-- The `retrieval_text` argument: omitted, JSON null, or a text. -/
inductive RetrievalInput where
  | unset
  | null
  | text (value : String)
deriving DecidableEq, Repr

structure StoreRequest where
  content : Option String
  title : Option String
  retrievalText : RetrievalInput
  tags : Option (List String)
  agentId : Option String
  contextId : Option String
  scope : String
  entityId : Option String
  core : CoreDeclaration
  memoryType : Option String
  metadata : Option (List (String × String))
deriving DecidableEq, Repr

/-- The arguments once the basic checks let them through. -/
structure StoreBasics where
  content : String
  agentId : String
  scope : Scope
  memoryType : Option MemoryType
deriving DecidableEq, Repr

/-- The normalised content; `retrievalText` is `none` when the argument was omitted. -/
structure StoreContent where
  redactedContent : String
  title : String
  retrievalText : Option (Option String)
  contextId : Option String
  contentHash : String
deriving DecidableEq, Repr

/-- What will be persisted; `skipScdHistory` marks an administrative update of an existing row. -/
structure StoreProposal where
  resolvedEntityId : Option EntityId
  redactedContent : String
  title : String
  tags : Option (List String)
  agentId : Option String
  scope : Scope
  memoryType : Option MemoryType
  contextId : Option String
  core : CoreDeclaration
  metadata : Option (List (String × String))
  contentHash : String
  retrievalText : Option (Option String)
  skipScdHistory : Bool
deriving DecidableEq, Repr

structure StoreReceipt where
  id : EntityId
  message : String
deriving DecidableEq, Repr

abbrev StoreAnswer := Envelope StoreReceipt

variable (env : Env)

/-! ### Checks on the arguments -/

def validateStoreBasics (request : StoreRequest) : Except StoreAnswer StoreBasics := do
  let agentId ← match Text.orDefault request.agentId "" with
    | "" => .error (.failure
        "Error: agent_id is mandatory in this version of SALTMDB to prevent cross-lane signal contamination.")
    | agent => .ok agent
  let content := request.content.getD ""
  if Text.strip content = "" then .error (.failure "Error: content is mandatory and cannot be empty.")
  if maxMemoryContentChars < content.length then
    .error (.failure s!"Error: content exceeds {maxMemoryContentChars} characters (got {content.length}).")
  match Scope.parse request.scope with
  | none => .error (.failure "Error: scope must be either 'private' or 'shared'")
  | some scope =>
    match request.memoryType with
    | none => .ok ⟨content, agentId, scope, none⟩
    | some text =>
      match MemoryType.parse text with
      | none => .error (.failure
          "Error: memory_type must be one of 'fact', 'event', 'procedure', 'decision', 'preference'")
      | some memoryType => .ok ⟨content, agentId, scope, some memoryType⟩

/-- `normalize_retrieval_text`: an explicit empty text clears. -/
def normalizeRetrievalText (value : String) : Except String (Option String) :=
  let normalized := Text.strip (env.normalizeNfkc value)
  if normalized = "" then .ok none
  else
    let redacted := env.redactSecrets normalized
    if retrievalTextMaxChars < redacted.length then
      .error s!"retrieval_text exceeds the maximum length of {retrievalTextMaxChars} Unicode characters"
    else .ok (some redacted)

def normalizeRetrievalInput (input : RetrievalInput) : Except String (Option (Option String)) :=
  match input with
  | .unset => .ok none
  | .null => .error ("Error: retrieval_text JSON null is ambiguous; omit the field to preserve or use an empty string " ++
      "to clear.")
  | .text value => ((normalizeRetrievalText env value).mapError fun e => "Error: " ++ e).map some

def validateMemoryInput (title : String) (tags : List String) : Except String Unit := do
  let stripped := Text.strip title
  if title ≠ "" ∧ titleMaxLength < stripped.length then
    .error (s!"Error: Title exceeds the maximum length of {titleMaxLength} characters (got {stripped.length}). Titles " ++
      "must be a short canonical label in '[Domain] Topic' form, not the memory body. Move the full text into the " ++
      "'content' parameter.")
  if title ≠ "" ∧ stripped.length < titleMinLength then
    .error (s!"Error: Title is too short (minimum {titleMinLength} characters). Provide a descriptive, canonical title.")
  (validateTagNames tags).mapError fun e => "Error: " ++ e

/-- `metadata.get("project") or metadata.get("project_id")`, where no context was given. -/
def resolveContextId (contextId : Option String) (metadata : Option (List (String × String))) : Option String :=
  if contextId.getD "" ≠ "" then contextId
  else match metadata with
    | none => contextId
    | some fields =>
      if fields.isEmpty then contextId
      else match fields.lookup "project" with
        | some project => if project ≠ "" then some project else fields.lookup "project_id"
        | none => fields.lookup "project_id"

def qualityError (code : String) : Error :=
  fieldError code ("Memory quality check rejected by " ++ code ++ ".") "content"

def prepareStoreContent (request : StoreRequest) (basics : StoreBasics) : Except StoreAnswer StoreContent := do
  let redacted := env.redactSecrets basics.content
  let retrievalText ← (normalizeRetrievalInput env request.retrievalText).mapError Envelope.failure
  let title := match request.title with
    | some text => if text = "" then "" else env.redactSecrets text
    | none => ""
  if Text.strip title = "" then .error (.failure "Error: title is mandatory and cannot be empty.")
  (validateMemoryInput title (request.tags.getD [])).mapError Envelope.failure
  let redacted := env.autoFormatMarkdown redacted
  let contextId := resolveContextId request.contextId request.metadata
  match env.qualityHardErrors redacted with
  | [] => .ok ⟨redacted, title, retrievalText, contextId, env.computeContentHash redacted⟩
  | codes => .error (.rejected (codes.map qualityError))

/-! ### The target of the write -/

def exactDuplicateError (existing : EntityId) : Error :=
  fieldError "REJECT_EXACT_DUPLICATE"
    ("An active memory with the exact content hash already exists; use its existing ID " ++ existing ++
      " or revise/supersede it instead of storing a duplicate.") "content"

/-- An exact duplicate among the live memories that the agent can see. -/
def exactDuplicate (db : Db) (agentId : String) (contentHash : String) : Option Entity :=
  db.entities.rows.find? fun e =>
    e.contentHash == contentHash && (e.agentId == some agentId || e.scope == .shared) && e.live

def sameTitle (db : Db) (title agentId : String) (scope : Scope) : Option Entity :=
  db.entities.rows.find? fun e => e.title == title && e.agentId == some agentId && e.scope == scope && e.live

/-- The id the write is going to target: an explicit one, or that of a live memory of the same title. -/
def resolveExistingEntityId (db : Db) (entityId : Option EntityId) (title agentId : String) (scope : Scope)
    (contentHash : String) : Except StoreAnswer (Option EntityId) :=
  let explicit := entityId.filter (· ≠ "")
  if (explicit.bind db.entities.find).isSome then .ok explicit
  else match exactDuplicate db agentId contentHash with
    | some duplicate => .error (.rejected [exactDuplicateError duplicate.id])
    | none =>
      match explicit with
      | some id => .ok (some id)
      | none => .ok ((sameTitle db title agentId scope).map (·.id))

def sameMembers (xs ys : List String) : Bool := xs.all (ys.contains ·) && ys.all (xs.contains ·)

/-- The names of all tags of an entity. -/
def entityTagNames (db : Db) (entityId : EntityId) : List String :=
  (db.tags.tags.filter fun t => db.tags.links.contains (entityId, t.id)).map (·.name)

def legacyTagsChanged (db : Db) (entityId : EntityId) (tags : Option (List String)) : Bool :=
  match tags with
  | none => false
  | some tags =>
    let requested := (tags.filter fun tag => Text.strip tag ≠ "").map fun tag => Text.lower (normalizeTagName tag)
    let existing := ((entityTagNames db entityId).map Text.lower).filter (· ≠ coreTag)
    !sameMembers requested existing

/-- The frozen fields that the request would change; the default scope is not a change of a private one. -/
def legacyFrozenChanges (db : Db) (current : Entity) (request : StoreRequest) (basics : StoreBasics)
    (content : StoreContent) : List String :=
  (if content.title ≠ current.title then ["title"] else []) ++
  (if content.redactedContent ≠ current.fullContent then ["full_content"] else []) ++
  (if some basics.agentId ≠ current.agentId then ["agent_id"] else []) ++
  (if basics.scope ≠ current.scope ∧ ¬(basics.scope = .shared ∧ current.scope = .private_) then ["scope"] else []) ++
  (if basics.memoryType.isSome ∧ basics.memoryType ≠ some current.memoryType then ["memory_type"] else []) ++
  (if content.contextId.isSome ∧ content.contextId ≠ current.contextId then ["context_id"] else []) ++
  (if legacyTagsChanged db current.id request.tags then ["tags"] else [])

def immutableMemoryError (changes : List String) : Error :=
  fieldError "IMMUTABLE_MEMORY"
    ("Frozen field(s) cannot be changed by store_memory; use revise_memory or supersede_memory to create a new version: " ++
      Text.join ", " changes) (changes.headD "")

/-- A fresh insert persists the request, an existing row keeps every frozen value of its own. -/
def storeProposal (db : Db) (request : StoreRequest) (basics : StoreBasics) (content : StoreContent)
    (resolved : Option EntityId) : Except StoreAnswer StoreProposal :=
  match resolved.bind db.entities.find with
  | none => .ok {
      resolvedEntityId := resolved
      redactedContent := content.redactedContent
      title := content.title
      tags := request.tags
      agentId := some basics.agentId
      scope := basics.scope
      memoryType := basics.memoryType
      contextId := content.contextId
      core := request.core
      metadata := request.metadata
      contentHash := content.contentHash
      retrievalText := content.retrievalText
      skipScdHistory := false }
  | some current =>
    match legacyFrozenChanges db current request basics content with
    | [] => .ok {
        resolvedEntityId := resolved
        redactedContent := current.fullContent
        title := current.title
        tags := none
        agentId := current.agentId
        scope := current.scope
        memoryType := some current.memoryType
        contextId := current.contextId
        core := request.core
        metadata := request.metadata
        contentHash := current.contentHash
        retrievalText := content.retrievalText
        skipScdHistory := true }
    | changes => .error (.rejected [immutableMemoryError changes])

/-! ### The core state of the row -/

/-- The row the digest would gain. -/
def StoreProposal.entry (p : StoreProposal) (id : EntityId) (existing : Option Entity) (state : CoreState) : CoreEntry where
  id := id
  title := p.title
  memoryType := p.memoryType.getD ((existing.map (·.memoryType)).getD .fact)
  coreReason := state.coreReason
  coreExitCondition := state.coreExitCondition
  coreReviewAfter := state.coreReviewAfter
  fullContent := p.redactedContent

/-- A write never changes the status, so an archived target stays out of the digest. -/
def targetWillBeActive (existing : Option Entity) : Bool := (existing.map (·.live)).getD true

/-- The checks a core row passes, in the preview and again in the transaction that writes it. -/
def resolveRawCoreState (db : Db) (now : Instant) (p : StoreProposal) (id : EntityId) : Except Exc CoreState := do
  let existing := p.resolvedEntityId.bind db.entities.find
  let state ← (resolveStoreCoreState env db now existing p.core p.redactedContent p.scope).mapError .coreGovernanceRejected
  let entry := p.entry id existing state
  if targetWillBeActive existing then
    (enforceOverdueBoundary env db now p.resolvedEntityId state state.reviewAfterChanged (some entry)).mapError
      .coreGovernanceRejected
    if state.isCore then
      match checkCapacityAdmission env db now p.resolvedEntityId.toList entry with
      | some _ => .error (.coreCapacityExceeded coreCapacityError)
      | none => .ok state
    else .ok state
  else .ok state

/-! ### The write -/

/-- The columns of a fresh row. -/
def StoreProposal.columns (p : StoreProposal) (now : Instant) (state : CoreState) : EntityColumns where
  createdAt := now
  updatedAt := now
  agentId := p.agentId
  contextId := p.contextId
  scope := p.scope
  status := .raw
  title := p.title
  fullContent := p.redactedContent
  contentHash := p.contentHash
  memoryType := p.memoryType.getD .fact
  parentIds := []
  metadata := p.metadata.getD []
  retrievalText := p.retrievalText.getD none
  isCore := state.isCore
  coreReason := state.coreReason
  coreExitCondition := state.coreExitCondition
  coreReviewAfter := state.coreReviewAfter
  coreDetailMemoryIds := state.coreDetailMemoryIds
  coreReviewRationale := none

/-- `{**old, **new}`. -/
def mergeMetadata (old new : List (String × String)) : List (String × String) :=
  old.map (fun field => (field.1, (new.lookup field.1).getD field.2)) ++
    new.filter fun field => (old.lookup field.1).isNone

/-- `ON CONFLICT(id) DO UPDATE SET`: the status and the creation time stay. -/
def StoreProposal.update (p : StoreProposal) (now : Instant) (state : CoreState) (old : EntityColumns) : EntityColumns :=
  { old with
    updatedAt := now
    agentId := p.agentId.or old.agentId
    scope := p.scope
    isCore := state.isCore
    title := p.title
    fullContent := p.redactedContent
    metadata := mergeMetadata old.metadata (p.metadata.getD [])
    contextId := p.contextId.or old.contextId
    contentHash := p.contentHash
    memoryType := p.memoryType.getD old.memoryType
    retrievalText := p.retrievalText.getD old.retrievalText
    coreReason := state.coreReason
    coreExitCondition := state.coreExitCondition
    coreReviewAfter := state.coreReviewAfter
    coreDetailMemoryIds := state.coreDetailMemoryIds }

/-- The row of a drawn id that was already taken is kept as an archived copy. -/
def writeRawScdHistory (entityId : EntityId) (existing : Entity) : Tx Unit := do
  let drawn ← Tx.uuid4 env
  let histId := entityId ++ "_h_" ++ .ofList (drawn.toList.take 8)
  let db ← Tx.db
  match db.entities.insert { existing with id := histId, status := .archived } with
  | none => throw (.integrityError "UNIQUE constraint failed: entities.id")
  | some inserted =>
    Tx.setEntities fun _ => inserted
    Tx.setTags fun tags =>
      tags.setLinks (tags.links ++ (tags.links.filter (·.1 == entityId)).map fun l => (histId, l.2))

def upsertRawEntity (p : StoreProposal) (entityId : EntityId) (now : Instant) (state : CoreState) : Tx Unit :=
  Tx.setEntities (·.upsert { p.columns now state with id := entityId } (p.update now state))

def StoreProposal.sourceChanged (p : StoreProposal) (existing : Option Entity) : Bool :=
  match existing with
  | none => true
  | some old => old.title != p.title || old.fullContent != p.redactedContent || old.contentHash != p.contentHash

def enqueueRawEmbeddingJobs (p : StoreProposal) (entityId : EntityId) (existing : Option Entity) : Tx Unit := do
  Tx.when_ (p.sourceChanged existing)
    (enqueueEmbeddingJobsForEntity env entityId p.title p.redactedContent p.contentHash)
  Tx.when_ (p.retrievalText.isSome || existing.isNone)
    (enqueueRetrievalEmbeddingJobForEntity env entityId (p.retrievalText.getD none))

def keepScdHistory (p : StoreProposal) (entityId : EntityId) (existing : Option Entity) : Tx Unit :=
  match existing with
  | some old => Tx.when_ (!p.skipScdHistory) (writeRawScdHistory env entityId old)
  | none => pure ()

/-- What the write does once the core state is resolved. -/
def persistRawEntity (p : StoreProposal) (entityId : EntityId) (now : Instant) (state : CoreState)
    (existing : Option Entity) : Tx Unit := do
  keepScdHistory env p entityId existing
  deleteRawTags entityId p.tags
  upsertRawEntity p entityId now state
  reconcileDetailRelations env entityId p.agentId state.coreDetailMemoryIds state.previousDetailMemoryIds
  writeRawTags env entityId p.tags p.agentId
  syncRawCoreTag env entityId p.agentId
  enqueueRawEmbeddingJobs env p entityId existing

/-- The id of the row: the resolved one, or a new one. -/
def storeTargetId (p : StoreProposal) : Tx EntityId :=
  match p.resolvedEntityId with
  | some id => pure id
  | none => Tx.uuid4 env

def storeRawEntity (p : StoreProposal) : Tx (EntityId × Bool) := do
  let entityId ← storeTargetId env p
  let now ← Tx.now env
  let db ← Tx.db
  let state ← Txn.ofExcept (resolveRawCoreState env db now p entityId)
  let existing := db.entities.find entityId
  persistRawEntity env p entityId now state existing
  return (entityId, existing.isSome)

/-! ### The service -/

/-- How a refusal of the governance checks reaches the caller. -/
def governanceAnswer {α : Type} : Exc → Envelope α
  | .coreGovernanceRejected text => .failure ("Error: " ++ text)
  | .coreCapacityExceeded error => .rejected [error]
  | e => internalRejection e

/-- Everything before the write: the proposal, or the answer the call is refused with. -/
def prepareStore (db : Db) (now : Instant) (previewId : EntityId) (request : StoreRequest) :
    Except StoreAnswer StoreProposal := do
  let basics ← validateStoreBasics request
  let content ← prepareStoreContent env request basics
  let resolved ← resolveExistingEntityId db request.entityId content.title basics.agentId basics.scope content.contentHash
  let proposal ← storeProposal db request basics content resolved
  let _ ← (resolveRawCoreState env db now proposal (proposal.resolvedEntityId.getD previewId)).mapError governanceAnswer
  return proposal

def relationTip : String :=
  " [Tip: consider calling manage_relation to link this to related entities/concepts you just stored.]"

def storedAnswer (p : StoreProposal) (stored : EntityId × Bool) : StoreAnswer :=
  let tip := if !stored.2 && !(p.tags.getD []).isEmpty then relationTip else ""
  .ok ⟨stored.1, "Knowledge stored successfully with ID: " ++ stored.1 ++ tip⟩ []

def storeMemory (mode : Mode) (request : StoreRequest) : Tx StoreAnswer := do
  let db ← Tx.db
  let previewId ← Tx.uuid4 env
  let now ← Tx.now env
  match prepareStore env db now previewId request with
  | .error answer => return answer
  | .ok proposal =>
    tryCatch (do
      let stored ← writeTransactionRetrying mode (storeRawEntity env proposal)
      return storedAnswer proposal stored)
      fun e => return governanceAnswer e

end SaltMdb
