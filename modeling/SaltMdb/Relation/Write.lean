import SaltMdb.Relation.Vocabulary
import SaltMdb.Entity.Resolve

/-! `store_relation` and `invalidate_relation`, as they run inside an open transaction. -/

namespace SaltMdb
open Transactions

def coherenceOverrideMinLength : Nat := 20

/-- `RELATION_GATE_MIN_SIMILARITY_THRESHOLD`. -/
def relationGateMinSimilarity : Rat := 6505 / 10000

structure RelationReceipt where
  relationId : RelationId
  message : String
deriving DecidableEq, Repr

/-- What the relation gate measured for one candidate edge. -/
structure GateMeasurement where
  similarity : Rat
  offending : Option (String × String)
  unresolved : List (EntityId × String)
  contradictions : List String

/-- One validated `store_relation` call, ready for the transactional write. -/
structure RelationWriteRequest where
  sourceId : EntityId
  targetId : EntityId
  predicate : String
  validAt : Option Instant
  overrideJustification : Option String
  agentId : Option String
  now : Instant
  allowCoreElaboratesOn : Bool

/-- A no-op answer: the requested state already holds. -/
def alreadyDoneEnvelope {α : Type} (data : α) (message : String) : Envelope α :=
  .ok data [⟨alreadyDone, message⟩]

variable (env : Env)

/-! ### Cohesion -/

/-- Why an entity has no centroid, or `none` when it has one. -/
def unresolvedReason (db : Db) (id : EntityId) : Option String :=
  match db.entities.find id with
  | none => some "entity not found"
  | some e =>
    if e.status = .archived then some "entity is archived, not eligible as a consolidation/cluster candidate"
    else if env.embeddable e.fullContent then none
    else some "no embeddable content"

/-- The `unresolved` half of `get_fresh_entity_centroids`. -/
def unresolvedEntities (db : Db) (ids : List EntityId) : List (EntityId × String) :=
  ids.dedup.filterMap fun id => (unresolvedReason env db id).map fun reason => (id, reason)

def contentOf (db : Db) (id : EntityId) : String := ((db.entities.find id).map (·.fullContent)).getD ""

/-- `min_pairwise_cohesion`: the weakest pair, or `1.0` when there is no pair. -/
def minPairwiseCohesion (db : Db) : List EntityId → Rat × Option (String × String)
  | [] => (1, none)
  | id :: rest =>
    rest.foldl (fun best other =>
      let score := env.similarity (contentOf db id) (contentOf db other)
      if score < best.1 then (score, some (id, other)) else best) (minPairwiseCohesion db rest)

/-- Similarity with an unresolved entity counting as none at all. -/
def measureCohesion (db : Db) (ids : List EntityId) : Rat × Option (String × String) × List (EntityId × String) :=
  match unresolvedEntities env db ids with
  | [] => ((minPairwiseCohesion env db ids.dedup).1, (minPairwiseCohesion env db ids.dedup).2, [])
  | (id, reason) :: rest => (0, some (id, s!"<{reason}>"), (id, reason) :: rest)

/-! ### The gate -/

def relationGateMeasurements (db : Db) (request : RelationWriteRequest) (canonical : String) : GateMeasurement :=
  let measured := if isStrong canonical then measureCohesion env db [request.sourceId, request.targetId] else (1, none, [])
  let existing := ((db.relations.rows.filter fun r =>
    r.active && r.sourceId == request.sourceId && r.targetId == request.targetId).map
      fun r => canonicalPredicate db r.predicate).dedup
  { similarity := measured.1
    offending := measured.2.1
    unresolved := measured.2.2
    contradictions := existing.filter (contradict · canonical) }

def gateViolations (canonical : String) (m : GateMeasurement) : List String :=
  (if isStrong canonical && m.similarity < relationGateMinSimilarity then ["low_similarity"] else []) ++
    (if m.contradictions.isEmpty then [] else ["contradictory_predicate"])

def pyTuple (p : String × String) : String := s!"('{p.1}', '{p.2}')"

def pyList (xs : List String) : String := "[" ++ Text.join ", " (xs.map fun x => "'" ++ x ++ "'") ++ "]"

def pyDict (xs : List (String × String)) : String :=
  "\x7b" ++ Text.join ", " (xs.map fun x => "'" ++ x.1 ++ "': '" ++ x.2 ++ "'") ++ "\x7d"

def relationGateError (canonical : String) (m : GateMeasurement) (violations : List String) : Error :=
  let low := violations.contains "low_similarity"
  let reasons :=
    (if low then
      ["REJECT_LOW_RELATION_SIMILARITY (similarity=" ++ env.formatFloat 4 m.similarity ++ " < 0.6505, offending=" ++
        ((m.offending.map pyTuple).getD "None") ++
        (if m.unresolved.isEmpty then "" else ", unresolved=" ++ pyDict m.unresolved) ++ ")"]
      else []) ++
    (if violations.contains "contradictory_predicate" then
      ["REJECT_CONTRADICTORY_PREDICATE (predicate='" ++ canonical ++ "' conflicts with existing " ++
        pyList m.contradictions ++ " on this edge)"]
      else [])
  let message := "Error: " ++ Text.join " " reasons ++
    " Pass override_justification (>= 20 chars) to force this relation."
  ⟨if low then "REJECT_LOW_RELATION_SIMILARITY" else "REJECT_CONTRADICTORY_PREDICATE", message, none⟩

/-- `none` lets the edge pass. An overridden violation leaves its audit event behind, as the first write. -/
def applyRelationGate (request : RelationWriteRequest) (canonical : String) (m : GateMeasurement)
    (agent : String) (relationId : RelationId) : Tx (Option (Envelope RelationReceipt)) :=
  let violations := gateViolations canonical m
  let justification := Text.strip (request.overrideJustification.getD "")
  if violations.isEmpty then pure none
  else if justification.length < coherenceOverrideMinLength then
    pure (some (.rejected [relationGateError env canonical m violations]))
  else do
    logEvent env agent (.relationGateOverride request.sourceId request.targetId canonical violations m.similarity
      m.contradictions justification relationId)
    return none

def coreElaboratesOnError : Error :=
  fieldError "REJECT_CORE_ELABORATES_ON"
    ("Error: REJECT_CORE_ELABORATES_ON - elaborates_on edges into an active core memory are governed exclusively by " ++
      "that core's own core_detail_memory_ids declaration (store_memory/commit_consolidation) -- manage_relation " ++
      "cannot create them directly.") "predicate"

/-- A new `elaborates_on` edge into an active core comes from that core's own declaration only. -/
def checkCoreRelationGuard (db : Db) (target : EntityId) (canonical : String) (allow : Bool) :
    Option (Envelope RelationReceipt) :=
  if canonical = "elaborates_on" ∧ allow = false then
    match db.entities.find target with
    | some e =>
      if e.isCore ∧ e.status ≠ .archived then
        some (.rejected [coreElaboratesOnError])
      else none
    | none => none
  else none

/-! ### Storing -/

def canonicalNote (predicate canonical : String) : String :=
  let normalized := normalizePredicateName predicate
  if predicate ≠ "" ∧ normalized ≠ "" ∧ normalized ≠ canonical then
    s!" [canonicalized: requested '{predicate}', stored as '{canonical}']"
  else ""

def relationExistsMessage (canonical : String) (request : RelationWriteRequest) (id : RelationId) (note : String) :
    String :=
  s!"Relation already exists (no-op): '{canonical}' between " ++ request.sourceId ++ " and " ++ request.targetId ++
    s!" (ID: {id})" ++ note

def relationExists (canonical : String) (request : RelationWriteRequest) (id : RelationId) (note : String) :
    Envelope RelationReceipt :=
  alreadyDoneEnvelope ⟨id, relationExistsMessage canonical request id note⟩
    (relationExistsMessage canonical request id note)

def relationStoredMessage (canonical : String) (request : RelationWriteRequest) (id : RelationId) (note : String) :
    String :=
  s!"Relation successfully stored: '{canonical}' between " ++ request.sourceId ++ " and " ++ request.targetId ++
    s!" (ID: {id})" ++ note

/-- The draft of the row a store inserts. -/
def RelationWriteRequest.draft (request : RelationWriteRequest) (canonical : String) : RelationDraft where
  sourceId := request.sourceId
  targetId := request.targetId
  predicate := canonical
  createdAt := request.now
  validFrom := some request.now
  validAt := some (request.validAt.getD request.now)

/-- The active edge that a store of a strong predicate moves to its new target. -/
def staleEdge (T : RelationTable) (e : Edge) : Option Relation :=
  if isStrong e.predicate then T.fetchStale e else none

/-- `UPDATE relations SET invalid_at = ?, valid_to = ? WHERE id = ?` for the stale edge of a repoint. -/
def closeStale (stale : Option RelationId) (now : Instant) (T : RelationTable) : RelationTable :=
  match stale with
  | some id => T.closeId id ⟨now, some now⟩
  | none => T

def insertRelationWrite (request : RelationWriteRequest) (canonical : String) (stale : Option RelationId)
    (note : String) : Tx (Envelope RelationReceipt) := do
  Tx.setRelations (closeStale stale request.now)
  let db ← Tx.db
  match db.relations.insertOrIgnore (request.draft canonical) with
  | none =>
    -- the conflicting row, which the check before the gate did not see
    let existing := ((db.relations.fetchActive (request.draft canonical).edge).map (·.id)).getD db.relations.next
    return relationExists canonical request existing note
  | some inserted =>
    Tx.setRelations fun _ => inserted
    return .ok ⟨db.relations.next, relationStoredMessage canonical request db.relations.next note⟩ []

def storeRelationWrite (request : RelationWriteRequest) : Tx (Envelope RelationReceipt) := do
  let db ← Tx.db
  let canonical := canonicalPredicate db request.predicate
  let note := canonicalNote request.predicate canonical
  let edge := (request.draft canonical).edge
  match db.relations.fetchActive edge with
  | some existing => return relationExists canonical request existing.id note
  | none =>
    let stale := (staleEdge db.relations edge).map (·.id)
    match checkCoreRelationGuard db request.targetId canonical request.allowCoreElaboratesOn with
    | some rejection => return rejection
    | none =>
      let measurement := relationGateMeasurements env db request canonical
      match ← applyRelationGate env request canonical measurement (Text.orDefault request.agentId "system") db.relations.next with
      | some rejection => return rejection
      | none => insertRelationWrite request canonical stale note

def storeRelationPredicateError (predicate : String) : Option (List Error) :=
  match classifyPredicate predicate with
  | .selectable _ => none
  | .reserved _ tool => some [fieldError "RESERVED_PREDICATE"
      (s!"Error: RESERVED_PREDICATE - '{predicate}' is reserved; it is created only by {tool}, never directly via " ++
        "manage_relation.") "predicate"]
  | .legacyReadonly _ => some [fieldError "LEGACY_READONLY_PREDICATE"
      (s!"Error: LEGACY_READONLY_PREDICATE - '{predicate}' edges are legacy; existing ones remain readable but no " ++
        "new ones may be created.") "predicate"]
  | .aliasOf canonical swap => some [fieldError "NONCANONICAL_PREDICATE"
      (s!"Error: NONCANONICAL_PREDICATE - '{predicate}' is not canonical; the canonical form is '{canonical}'" ++
        (if swap then s!" with source_id/target_id swapped (canonical direction is '{canonical}' from the current " ++
          "target to the current source)" else "") ++ s!". Retry with predicate='{canonical}'.") "predicate"]
  | .unknown => some [fieldError "UNKNOWN_PREDICATE"
      (s!"Error: UNKNOWN_PREDICATE - '{predicate}' is not part of the closed predicate vocabulary. Valid predicates: " ++
        pyList (agentSelectablePredicates.mergeSort fun a b => decide (a ≤ b)) ++ ".") "predicate"]

/-- The error a reference that does not resolve is reported with. -/
def endpointError (db : Db) (rawId label : String) : Option Error :=
  let found := resolveEntityRef env db rawId none
  match found.resolved with
  | some _ => none
  | none =>
    if found.candidates.isEmpty then
      some ⟨"UNKNOWN_ENTITY_ID", s!"Error: UNKNOWN_ENTITY_ID - could not resolve {label} '{rawId}'.", none⟩
    else
      let lines := found.candidates.map fun c => "  " ++ c.id ++ " — '" ++ c.title ++ "' [" ++ c.status.text ++ "]"
      some ⟨"AMBIGUOUS_ID_PREFIX", s!"Error: AMBIGUOUS_ID_PREFIX - {label} '{rawId}' matches " ++
        toString found.candidates.length ++ (if found.truncated then "+" else "") ++ " memories:\n" ++
        Text.join "\n" lines, none⟩

/-- The endpoints both relation operations resolve first; the source's error is reported before the target's. -/
def resolveEndpoints (db : Db) (sourceId targetId : String) : Except (List Error) (EntityId × EntityId) :=
  match (resolveEntityRef env db sourceId none).resolved, (resolveEntityRef env db targetId none).resolved with
  | some source, some target => .ok (source, target)
  | _, _ => .error ((endpointError env db sourceId "source_id").or (endpointError env db targetId "target_id")).toList

def mandatoryParameters : List Error :=
  [⟨validationError, "Error: source_id, target_id, and predicate are mandatory parameters.", none⟩]

def selfReference : List Error :=
  [⟨validationError, "Error: Self-referential relations (source_id == target_id) are forbidden.", none⟩]

/-- The arguments of `store_relation` a caller chooses. -/
structure StoreRelationArgs where
  sourceId : String
  targetId : String
  predicate : String
  validAt : Option Instant
  overrideJustification : Option String
  agentId : Option String
  allowCoreElaboratesOn : Bool
deriving DecidableEq, Repr

/-- The checks of `store_relation` before its write: the resolved endpoints, or the errors it is rejected with. -/
def storeRelationEndpoints (db : Db) (args : StoreRelationArgs) : Except (List Error) (EntityId × EntityId) :=
  if args.sourceId = "" ∨ args.targetId = "" ∨ args.predicate = "" then .error mandatoryParameters
  else match resolveEndpoints env db args.sourceId args.targetId with
    | .error errors => .error errors
    | .ok (source, target) =>
      if source = target then .error selfReference
      else match storeRelationPredicateError args.predicate with
        | some errors => .error errors
        | none => .ok (source, target)

def StoreRelationArgs.request (args : StoreRelationArgs) (source target : EntityId) (now : Instant) :
    RelationWriteRequest :=
  ⟨source, target, args.predicate, args.validAt, args.overrideJustification, args.agentId, now,
    args.allowCoreElaboratesOn⟩

/-- An exception a relation service turns into a rejection. -/
def relationFailure {α : Type} (doing : String) (e : Exc) : Tx (Envelope α) :=
  pure (.rejected [⟨internalError, s!"Error {doing} relation: " ++ e.message, none⟩])

/-- `store_relation(…, _in_transaction=True)`. -/
def storeRelationIn (args : StoreRelationArgs) : Tx (Envelope RelationReceipt) := do
  let db ← Tx.db
  match storeRelationEndpoints env db args with
  | .error errors => return .rejected errors
  | .ok (source, target) =>
    let now ← Tx.now env
    tryCatch (storeRelationWrite env (args.request source target now)) (relationFailure "storing")

/-- `store_relation` on a connection of its own, or nested in a coordinator job. -/
def storeRelation (mode : Mode) (args : StoreRelationArgs) : Tx (Envelope RelationReceipt) := do
  let db ← Tx.db
  match storeRelationEndpoints env db args with
  | .error errors => return .rejected errors
  | .ok (source, target) =>
    let now ← Tx.now env
    tryCatch (writeTransactionRetrying mode (storeRelationWrite env (args.request source target now)))
      (relationFailure "storing")

/-! ### Invalidating -/

/-- The row an invalidation is about: the active one, else the last one already invalidated. -/
def invalidationTarget (T : RelationTable) (edge : Edge) : Option Relation :=
  (T.fetchActive edge).or (T.rows.reverse.find? fun r => r.edge == edge && r.invalidAt.isSome)

def relationInvalidatedMessage (source target : EntityId) (predicate canonical : String) (at_ : Instant)
    (id : RelationId) : String :=
  s!"Relation invalidated: '{canonical}' between " ++ source ++ " and " ++ target ++ " at " ++ env.isoformat at_ ++
    s!" (ID: {id})" ++ canonicalNote predicate canonical

def relationAlreadyInvalidatedMessage (at_ : Instant) (id : RelationId) : String :=
  "Relation already invalidated (no-op) at " ++ env.isoformat at_ ++ s!" (ID: {id})"

def relationNotFound : Error := ⟨notFound, "Error: relation not found", none⟩

def invalidateRelationWrite (source target : EntityId) (predicate : String) (invalidAt : Option Instant)
    (now : Instant) : Tx (Envelope RelationReceipt) := do
  let db ← Tx.db
  let canonical := canonicalPredicate db predicate
  match invalidationTarget db.relations ⟨source, canonical, target⟩ with
  | none => return .rejected [relationNotFound]
  | some existing =>
    match existing.invalidAt with
    | some at_ =>
      return alreadyDoneEnvelope ⟨existing.id, relationAlreadyInvalidatedMessage env at_ existing.id⟩
        (relationAlreadyInvalidatedMessage env at_ existing.id)
    | none =>
      let effective := invalidAt.getD now
      Tx.setRelations (·.closeId existing.id ⟨effective, some effective⟩)
      return .ok ⟨existing.id, relationInvalidatedMessage env source target predicate canonical effective existing.id⟩ []

structure InvalidateRelationArgs where
  sourceId : String
  targetId : String
  predicate : String
  invalidAt : Option Instant
deriving DecidableEq, Repr

def invalidateRelationEndpoints (db : Db) (args : InvalidateRelationArgs) : Except (List Error) (EntityId × EntityId) :=
  if args.sourceId = "" ∨ args.targetId = "" ∨ args.predicate = "" then .error mandatoryParameters
  else resolveEndpoints env db args.sourceId args.targetId

/-- `invalidate_relation(…, _in_transaction=True)`. -/
def invalidateRelationIn (args : InvalidateRelationArgs) : Tx (Envelope RelationReceipt) := do
  let db ← Tx.db
  match invalidateRelationEndpoints env db args with
  | .error errors => return .rejected errors
  | .ok (source, target) =>
    let now ← Tx.now env
    tryCatch (invalidateRelationWrite env source target args.predicate args.invalidAt now) (relationFailure "invalidating")

def invalidateRelation (mode : Mode) (args : InvalidateRelationArgs) : Tx (Envelope RelationReceipt) := do
  let db ← Tx.db
  match invalidateRelationEndpoints env db args with
  | .error errors => return .rejected errors
  | .ok (source, target) =>
    let now ← Tx.now env
    tryCatch (writeTransactionRetrying mode
      (invalidateRelationWrite env source target args.predicate args.invalidAt now)) (relationFailure "invalidating")

end SaltMdb
