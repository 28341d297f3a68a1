import SaltMdb.Relation.Write

/-! `core_governance_service`: what a core declaration has to satisfy, how the bootstrap digest is rendered,
and the admission of a core row into the room the digest leaves. -/

namespace SaltMdb
open Transactions

def coreMaxActive : Nat := 5
def coreMaxContentChars : Nat := 2500
def coreMaxRenderedChars : Nat := 15000
def coreReasonMinChars : Nat := 20
def coreReasonMaxChars : Nat := 500
def coreExitMinChars : Nat := 20
def coreExitMaxChars : Nat := 500
def coreReviewRationaleMinChars : Nat := 20
def coreReviewRationaleMaxChars : Nat := 1000
def coreMaxDetailMemoryIds : Nat := 3
def coreDefaultReviewDays : Nat := 14
def coreMaxReviewDays : Nat := 30

/-- The core fields a caller declares; `None` is an omitted one. -/
structure CoreDeclaration where
  isCore : Option Bool
  coreReason : Option String
  coreExitCondition : Option String
  coreReviewAfter : Option String
  detailMemoryIds : Option (List String)
deriving DecidableEq, Repr

/-- The core fields a write is going to persist. -/
structure CoreState where
  isCore : Bool
  isNewCore : Bool
  reviewAfterChanged : Bool
  coreReason : Option String
  coreExitCondition : Option String
  coreReviewAfter : Option String
  coreDetailMemoryIds : List EntityId
  previousDetailMemoryIds : List EntityId
deriving DecidableEq, Repr

/-- A row as the digest renders it. -/
structure CoreEntry where
  id : EntityId
  title : String
  memoryType : MemoryType
  coreReason : Option String
  coreExitCondition : Option String
  coreReviewAfter : Option String
  fullContent : String
deriving DecidableEq, Repr

def Entity.coreEntry (e : Entity) : CoreEntry :=
  ⟨e.id, e.title, e.memoryType, e.coreReason, e.coreExitCondition, e.coreReviewAfter, e.fullContent⟩

/-- `is_core = 1 AND status != 'archived'`. -/
def Entity.activeCore (e : Entity) : Bool := e.isCore && e.live

variable (env : Env)

/-! ### The lifecycle texts -/

def normalizeLifecycleText (value : String) : String :=
  env.redactSecrets (Text.replace (Text.replace value "\r\n" "\n") "\r" "\n")

def validateBoundedText (value : Option String) (field : String) (minChars maxChars : Nat) : Except String String :=
  let stripped := Text.strip (value.getD "")
  if stripped = "" then
    .error s!"{field} is required for a core memory ({minChars}-{maxChars} characters)."
  else
    let normalized := normalizeLifecycleText env stripped
    if minChars ≤ normalized.length ∧ normalized.length ≤ maxChars then .ok normalized
    else .error (s!"{field} must be {minChars}-{maxChars} characters after redaction/normalization " ++
      s!"(got {normalized.length}).")

def validateCoreReason (value : Option String) : Except String String :=
  validateBoundedText env value "core_reason" coreReasonMinChars coreReasonMaxChars

def validateCoreExitCondition (value : Option String) : Except String String :=
  validateBoundedText env value "core_exit_condition" coreExitMinChars coreExitMaxChars

def validateCoreReviewRationale (value : Option String) : Except String String :=
  validateBoundedText env value "core_review_rationale" coreReviewRationaleMinChars coreReviewRationaleMaxChars

def validateCoreContentLength (content : String) : Except String Unit :=
  if coreMaxContentChars < content.length then
    .error (s!"Core memory content exceeds {coreMaxContentChars} Unicode characters (got {content.length}). Move " ++
      "rationale/chronology/evidence/examples into a linked normal memory (see detail_memory_ids) and keep the core " ++
      "itself directly actionable.")
  else .ok ()

/-! ### The review date -/

def parseCoreReviewAfter (value : Option String) (defaultDays : Option Nat) (now : Instant) : Except String String := do
  let due ← match value with
    | none =>
      match defaultDays with
      | none => Except.error "core_review_after is required."
      | some n => .ok (now + days n)
    | some text =>
      match env.parseIsoUtc text with
      | none => Except.error ("core_review_after is not a valid ISO-8601 timestamp: '" ++ text ++ "'")
      | some t => .ok t
  if due ≤ now then
    .error ("core_review_after must be strictly in the future (got " ++ env.isoformat due ++ ", now=" ++
      env.isoformat now ++ ").")
  else if now + days coreMaxReviewDays < due then
    .error (s!"core_review_after may not be more than {coreMaxReviewDays} days in the future (got " ++
      env.isoformat due ++ ").")
  else .ok (env.isoformat due)

/-- A preserved date is exempt from the bounds of a new one, and still has to parse. -/
def validatePreservedReviewAfter (value : String) : Except String String :=
  match env.parseIsoUtc value with
  | some t => .ok (env.isoformat t)
  | none => .error ("Existing core_review_after is malformed and cannot be preserved: '" ++ value ++
      "' -- supply a valid core_review_after to repair it, or demote/archive this core.")

def isOverdue (coreReviewAfter : Option String) (now : Instant) : Bool :=
  match coreReviewAfter with
  | none => true
  | some text =>
    if text = "" then true
    else match env.parseIsoUtc text with
      | none => true
      | some t => t ≤ now

/-! ### Detail declarations -/

def validateDetailReference (db : Db) (uid : EntityId) (content : String) : Except String Unit :=
  match db.entities.find uid with
  | none => .error ("detail_memory_ids references a memory that does not exist: " ++ uid)
  | some e =>
    if e.scope ≠ .shared then
      .error ("detail memory " ++ uid ++ " must be shared -- private core details are prohibited.")
    else if e.isCore then
      .error ("detail memory " ++ uid ++ " is itself core -- a core cannot declare another core as a detail memory.")
    else if !Text.contains content e.title || !Text.contains content uid then
      .error ("Core content must mention both the canonical title and the full UUID of declared detail memory " ++ uid ++
        " (title: '" ++ e.title ++ "') -- a core must stay directly actionable even if a lazy or weaker agent never " ++
        "follows the link.")
    else .ok ()

/-- Each reference in order: a repeated one is skipped before it is looked up. -/
def validateDetailReferences (db : Db) (content : String) : List String → List EntityId → Except String (List EntityId)
  | [], seen => .ok seen
  | raw :: rest, seen =>
    if isUuid (Text.strip raw) then
      let uid := Text.lower (Text.strip raw)
      if uid ∈ seen then validateDetailReferences db content rest seen
      else do
        validateDetailReference db uid content
        validateDetailReferences db content rest (seen ++ [uid])
    else .error ("detail_memory_ids must be full UUIDs, not prefixes or other references (got '" ++ raw ++ "').")

def validateDetailMemoryIds (db : Db) (detailMemoryIds : List String) (content : String) :
    Except String (List EntityId) :=
  if coreMaxDetailMemoryIds < detailMemoryIds.length then
    .error (s!"A core memory may declare at most {coreMaxDetailMemoryIds} detail_memory_ids (got " ++
      s!"{detailMemoryIds.length}).")
  else validateDetailReferences db content detailMemoryIds []

/-! ### Rendering -/

def escapeYamlLine (value : String) : String :=
  Text.replace (Text.replace (Text.replace value "\\" "\\\\") "\"" "\\\"") "\n" " "

def renderCoreEntry (row : CoreEntry) (due : Bool) : String :=
  let dueStr := if due then "true" else "false"
  let type := row.memoryType.text
  Text.join "\n"
    ["<memory id=\"" ++ row.id ++ "\" type=\"" ++ type ++ "\" is_core=\"true\" review_due=\"" ++ dueStr ++ "\">",
      "---",
      "title: \"" ++ escapeYamlLine row.title ++ "\"",
      "type: " ++ type,
      "is_core: true",
      "core_reason: \"" ++ escapeYamlLine (row.coreReason.getD "") ++ "\"",
      "core_exit_condition: \"" ++ escapeYamlLine (row.coreExitCondition.getD "") ++ "\"",
      "core_review_after: " ++ row.coreReviewAfter.getD "None",
      "review_due: " ++ dueStr,
      "---",
      "",
      Text.replace row.fullContent "</memory>" "&lt;/memory&gt;",
      "</memory>"]

/-- The lines of the digest, `due` telling for each row how it is rendered. -/
def renderDigest (due : CoreEntry → Bool) (rows : List CoreEntry) : String :=
  if rows.isEmpty then "<saltmdb-digest>\n\n</saltmdb-digest>"
  else Text.join "\n" (["<saltmdb-digest>", "", "<core-rules>"] ++
    rows.flatMap (fun row => ["", renderCoreEntry row (due row)]) ++ ["", "</core-rules>", "", "</saltmdb-digest>"])

/-- Every row in its longer form, as if none were due. -/
def renderPessimistic (rows : List CoreEntry) : String := renderDigest (fun _ => false) rows

def renderBootstrapDigest (now : Instant) (rows : List CoreEntry) : String :=
  renderDigest (fun row => isOverdue env row.coreReviewAfter now) rows

/-! ### The active cores -/

/-- Overdue first, then by review date, creation time and id. -/
def coreOrder (now : Instant) (a b : Entity) : Bool :=
  let rank := fun e : Entity => if isOverdue env e.coreReviewAfter now then 0 else 1
  let review := fun e : Entity => e.coreReviewAfter.getD ""
  if rank a ≠ rank b then decide (rank a < rank b)
  else if review a ≠ review b then decide (review a < review b)
  else if a.createdAt ≠ b.createdAt then decide (a.createdAt < b.createdAt)
  else decide (a.id ≤ b.id)

def loadActiveCores (db : Db) (now : Instant) : List Entity :=
  (db.entities.rows.filter (·.activeCore)).mergeSort (coreOrder env now)

/-! ### Capacity admission -/

/-- What a capacity rejection reports. -/
structure CapacityReport where
  violatedDimensions : List String
  currentCount : Nat
  currentRendered : Nat
  proposedCount : Nat
  proposedRendered : Nat
  contentChars : Nat
deriving DecidableEq, Repr

def coreCapacityError : Error :=
  ⟨"CORE_CAPACITY_EXCEEDED", "Core capacity would be exceeded by this write -- no memory, relation, or other state " ++
    "was created. Demote, archive, shorten, or consolidate existing core memories to make room (see the inventory " ++
    "below), then retry.", none⟩

/-- The rows that would be active: the current ones without the excluded, and the proposed one. -/
def prospectiveCores (db : Db) (now : Instant) (exclude : List EntityId) (newEntry : CoreEntry) : List CoreEntry :=
  (((loadActiveCores env db now).filter fun e => !exclude.contains e.id).map (·.coreEntry)) ++ [newEntry]

def checkCapacityAdmission (db : Db) (now : Instant) (exclude : List EntityId) (newEntry : CoreEntry) :
    Option CapacityReport :=
  let current := (loadActiveCores env db now).map (·.coreEntry)
  let prospective := prospectiveCores env db now exclude newEntry
  let rendered := (renderPessimistic prospective).length
  let violations :=
    (if coreMaxActive < prospective.length then ["count"] else []) ++
    (if coreMaxContentChars < newEntry.fullContent.length then ["content_length"] else []) ++
    (if coreMaxRenderedChars < rendered then ["rendered_size"] else [])
  if violations.isEmpty then none
  else some ⟨violations, current.length, (renderPessimistic current).length, prospective.length, rendered,
    newEntry.fullContent.length⟩

/-! ### The overdue boundary -/

def hasOverdueCore (db : Db) (now : Instant) : Option EntityId :=
  ((loadActiveCores env db now).find? fun e => isOverdue env e.coreReviewAfter now).map (·.id)

/-- While some core is overdue, no core is created, promoted, extended or enlarged. -/
def enforceOverdueBoundary (db : Db) (now : Instant) (entityId : Option EntityId) (state : CoreState)
    (reviewAfterChanged : Bool) (prospective : Option CoreEntry) : Except String Unit :=
  if !state.isCore then .ok ()
  else match hasOverdueCore env db now with
    | none => .ok ()
    | some overdue =>
      if state.isNewCore then
        .error ("Cannot create or promote a new core memory while core " ++ overdue ++ " is overdue for review -- " ++
          "resolve the overdue review first (review_core_memory), or demote/archive/shorten an existing core to make room.")
      else if reviewAfterChanged then
        .error ("Cannot change core_review_after directly while core " ++ overdue ++ " is overdue -- use " ++
          "review_core_memory(outcome='retain') to extend a review date.")
      else
        let size := fun entry : Option CoreEntry => (entry.map fun e => (renderCoreEntry e false).length).getD 0
        let existing := entityId.bind fun id => (db.entities.find id).map (·.coreEntry)
        if size existing < size prospective then
          .error ("Cannot enlarge a core memory's rendered bootstrap contribution (title, core_reason, " ++
            "core_exit_condition, or content) while core " ++ overdue ++ " is overdue for review -- shrink the rendered " ++
            "contribution, demote, or archive an existing core, or resolve the overdue review first.")
        else .ok ()

/-! ### Resolving a declaration -/

def nonCoreState (previous : List EntityId) : CoreState := ⟨false, false, false, none, none, none, [], previous⟩

def scopeError : String :=
  "A core memory must have scope='shared' -- private core memories are prohibited."

/-- A given text is validated, an omitted one is preserved and validated again. -/
def preservedText (validate : Option String → Except String String) (given existing : Option String)
    (missing : String) : Except String String :=
  match given with
  | some text => validate (some text)
  | none =>
    match existing with
    | none => .error missing
    | some text => if text = "" then .error missing else validate (some text)

def resolveCoreReview (existing : Option Entity) (given : Option String) (now : Instant) :
    Except String (String × Bool) :=
  let stored := existing.bind (·.coreReviewAfter)
  match given with
  | some text => do
    let review ← parseCoreReviewAfter env (some text) none now
    return (review, stored != none && stored != some review)
  | none =>
    match stored with
    | some text =>
      if text = "" then do
        let review ← parseCoreReviewAfter env none (some coreDefaultReviewDays) now
        return (review, false)
      else do
        let review ← validatePreservedReviewAfter env text
        return (review, false)
    | none => do
      let review ← parseCoreReviewAfter env none (some coreDefaultReviewDays) now
      return (review, false)

def CoreDeclaration.suppliesField (d : CoreDeclaration) : Bool :=
  d.coreReason.isSome || d.coreExitCondition.isSome || d.coreReviewAfter.isSome || d.detailMemoryIds.isSome

def strayFieldsError : String :=
  "core_reason/core_exit_condition/core_review_after/detail_memory_ids were supplied but the effective memory is not " ++
    "core -- these fields are rejected, never silently ignored. Pass is_core=True to create/keep a core memory, or omit " ++
    "them entirely."

/-- `resolve_store_core_state`: `existing` is the row the write updates. -/
def resolveStoreCoreState (db : Db) (now : Instant) (existing : Option Entity) (declaration : CoreDeclaration)
    (content : String) (scope : Scope) : Except String CoreState :=
  let previous := (existing.map (·.coreDetailMemoryIds)).getD []
  let wasCore := (existing.map (·.isCore)).getD false
  let effective := declaration.isCore.getD wasCore
  if !effective then
    if declaration.suppliesField then .error strayFieldsError else .ok (nonCoreState previous)
  else if scope ≠ .shared then .error scopeError
  else do
    let reason ← preservedText (validateCoreReason env) declaration.coreReason (existing.bind (·.coreReason))
      "core_reason is required to create or promote a core memory."
    let exitCondition ← preservedText (validateCoreExitCondition env) declaration.coreExitCondition
      (existing.bind (·.coreExitCondition)) "core_exit_condition is required to create or promote a core memory."
    let (review, changed) ← resolveCoreReview env existing declaration.coreReviewAfter now
    validateCoreContentLength content
    let details ← validateDetailMemoryIds db (declaration.detailMemoryIds.getD previous) content
    return ⟨true, !wasCore, changed, some reason, some exitCondition, some review, details, previous⟩

def coreDecisionMessage : String :=
  "One or more parents is an active core memory and is_core was omitted -- consolidation must never silently inherit or " ++
    "drop core status. Pass explicit is_core=True (with core_reason/core_exit_condition/core_review_after) to keep the " ++
    "result core, or is_core=False to let it become an ordinary memory."

/-- The outcome of a derived memory is never inherited: an active core among its sources asks for a decision. -/
def resolveConsolidationCoreState (db : Db) (now : Instant) (sources : List EntityId) (declaration : CoreDeclaration)
    (content : String) (scope : Scope) : Except Exc CoreState :=
  match declaration.isCore with
  | none =>
    if sources.any fun id => ((db.entities.find id).map (·.activeCore)).getD false then
      .error (.coreDecisionRequired coreDecisionMessage)
    else .ok (nonCoreState [])
  | some false => .ok (nonCoreState [])
  | some true =>
    if scope ≠ .shared then .error (.coreGovernanceRejected scopeError)
    else
      let resolved : Except String CoreState := do
        let reason ← validateCoreReason env declaration.coreReason
        let exitCondition ← validateCoreExitCondition env declaration.coreExitCondition
        let review ← parseCoreReviewAfter env declaration.coreReviewAfter (some coreDefaultReviewDays) now
        validateCoreContentLength content
        let details ← validateDetailMemoryIds db (declaration.detailMemoryIds.getD []) content
        return ⟨true, true, false, some reason, some exitCondition, some review, details, []⟩
      resolved.mapError .coreGovernanceRejected

/-- The entry a derived core is admitted with: the fields as they were declared. -/
def CoreDeclaration.entry (d : CoreDeclaration) (id : EntityId) (title : String) (memoryType : MemoryType)
    (content : String) : CoreEntry :=
  ⟨id, title, memoryType, d.coreReason, d.coreExitCondition, d.coreReviewAfter, content⟩

def resolveDerivedCoreState (db : Db) (now : Instant) (sources : List EntityId) (declaration : CoreDeclaration)
    (content : String) (scope : Scope) (newEntry : CoreEntry) : Except Exc CoreState := do
  let state ← resolveConsolidationCoreState env db now sources declaration content scope
  if state.isCore then
    (enforceOverdueBoundary env db now none state false none).mapError .coreGovernanceRejected
    match checkCapacityAdmission env db now sources newEntry with
    | some _ => .error (.coreCapacityExceeded coreCapacityError)
    | none => .ok state
  else .ok state

/-! ### Detail relations -/

def detailRelationArgs (coreId detailId : EntityId) (agentId : Option String) : StoreRelationArgs :=
  ⟨detailId, coreId, "elaborates_on", none, none, agentId, true⟩

def storeDetailRelation (coreId : EntityId) (agentId : Option String) (detailId : EntityId) : Tx Unit := do
  match ← storeRelationIn env (detailRelationArgs coreId detailId agentId) with
  | .rejected errors =>
    throw (.runtimeError ("Failed to create detail relation for " ++ detailId ++ ": " ++
      (errors.map (·.message)).headD ""))
  | .ok _ _ => return ()
  | .failure _ => return ()

/-- The drop of one detail edge, whether it is there or not. -/
def dropDetailRelation (coreId detailId : EntityId) : Tx Unit := do
  let _ ← invalidateRelationIn env ⟨detailId, coreId, "elaborates_on", none⟩
  return ()

/-- The declared details get their edges in order, the ones no longer declared lose theirs. -/
def reconcileDetailRelations (coreId : EntityId) (agentId : Option String) (newDetailIds previousDetailIds : List EntityId) :
    Tx Unit := do
  Txn.forEach (storeDetailRelation env coreId agentId) newDetailIds
  Txn.forEach (dropDetailRelation env coreId) (previousDetailIds.filter fun id => !newDetailIds.contains id)

end SaltMdb
