import SaltMdb.Relation.Batch

/-! `archive_memory` and its two batch services. -/

namespace SaltMdb
open Transactions

structure ArchiveReceipt where
  id : EntityId
  message : String
deriving DecidableEq, Repr

structure ArchiveTarget where
  memoryId : EntityId
  alreadyArchived : Bool
deriving DecidableEq, Repr

variable (env : Env)

/-- The archival write itself: the memory leaves, and with it every active relation that touches it. -/
def archiveEntityUnchecked (id : EntityId) : Tx Unit := do
  let now ← Tx.now env
  Tx.setEntities (·.updateWhere (fun e => e.id == id && e.live) (·.archive now))
  Tx.setRelations (·.closeWhere (fun r => r.touches id && r.active) ⟨now, none⟩)
  cancelJobsForEntity id

/-- An owner is named on both sides and they differ. -/
def ownerMismatch (agentId : Option String) (e : Entity) : Bool :=
  agentId.getD "" != "" && e.agentId.getD "" != "" && e.agentId != agentId

inductive ArchiveDecision where
  | refuse (error : Error)
  | alreadyArchived (id : EntityId)
  | archive (id : EntityId)
deriving DecidableEq, Repr

/-- What `archive_memory` does about an id, before it writes. -/
def archiveDecision (db : Db) (entityId agentId : Option String) : ArchiveDecision :=
  let raw := entityId.getD ""
  if raw = "" then .refuse (fieldError validationError "entity_id parameter is mandatory." "entity_id")
  else
    let id := resolveEntityId env db raw
    if id = "" then .refuse (fieldError notFound ("Could not resolve entity '" ++ raw ++ "'") "entity_id")
    else match db.entities.find id with
      | none => .refuse (fieldError notFound ("Memory '" ++ id ++ "' not found.") "entity_id")
      | some e =>
        if e.status = .archived then .alreadyArchived id
        else if ownerMismatch agentId e then .refuse (fieldError conflict ("Memory '" ++ id ++ "' owner mismatch.") "agent_id")
        else .archive id

def alreadyArchivedAnswer (id : EntityId) : Envelope ArchiveReceipt :=
  .ok ⟨id, "Memory '" ++ id ++ "' is already archived."⟩ [⟨alreadyDone, "Memory was already archived."⟩]

def archivedAnswer (id : EntityId) : Envelope ArchiveReceipt :=
  .ok ⟨id, "Memory '" ++ id ++ "' was successfully archived."⟩ []

/-- `archive_memory(…, _in_transaction=True)`. -/
def archiveMemoryIn (entityId agentId : Option String) : Tx (Envelope ArchiveReceipt) := do
  let db ← Tx.db
  match archiveDecision env db entityId agentId with
  | .refuse error => return .rejected [error]
  | .alreadyArchived id => return alreadyArchivedAnswer id
  | .archive id =>
    archiveEntityUnchecked env id
    return archivedAnswer id

def archiveMemory (mode : Mode) (entityId agentId : Option String) : Tx (Envelope ArchiveReceipt) := do
  let db ← Tx.db
  match archiveDecision env db entityId agentId with
  | .refuse error => return .rejected [error]
  | .alreadyArchived id => return alreadyArchivedAnswer id
  | .archive id =>
    tryCatch (do
      writeTransactionRetrying mode (archiveEntityUnchecked env id)
      return archivedAnswer id)
      fun e => return internalRejection e

/-! ### The validated batch -/

/-- An id of the array, which is `none` when it is not a text. -/
def resolveArchiveId (db : Db) (request : Option String) : Except Error EntityId :=
  let raw := request.getD ""
  if Text.strip raw = "" then .error ⟨validationError, "memory id must be a non-empty string", none⟩
  else if (db.entities.find raw).isSome then .ok raw
  else
    let found := resolveIdPrefix db raw none
    if !found.candidates.isEmpty then
      .error ⟨"AMBIGUOUS_ID_PREFIX", "Memory id '" ++ raw ++ "' matches " ++ toString found.candidates.length ++
        (if found.truncated then "+" else "") ++ " candidates: " ++ Text.join ", " (found.candidates.map (·.id)), none⟩
    else match found.resolved with
      | none => .error ⟨notFound, "Could not resolve memory id '" ++ raw ++ "'", none⟩
      | some id => .ok id

def resolveArchiveTarget (db : Db) (request : Option String) (agentId : Option String) : Except Error ArchiveTarget := do
  let id ← resolveArchiveId db request
  match db.entities.find id with
  | none => .error ⟨notFound, "Memory '" ++ id ++ "' not found", none⟩
  | some e =>
    if e.status = .archived then .ok ⟨id, true⟩
    else if ownerMismatch agentId e then .error ⟨conflict, "Memory '" ++ id ++ "' owner mismatch", none⟩
    else .ok ⟨id, false⟩

def memoryIdsField (index : Nat) (e : Error) : Error := { e with field := some [.name "memory_ids", .index index] }

def duplicateIdError (id : EntityId) : Error :=
  ⟨"DUPLICATE_ID", "Memory id '" ++ id ++ "' was supplied more than once", none⟩

/-- Every request in turn, with the errors of all of them. -/
def validateArchiveRequests (db : Db) (agentId : Option String) :
    Nat → List (Option String) → List ArchiveTarget → List Error → List ArchiveTarget × List Error
  | _, [], targets, errors => (targets, errors)
  | index, request :: rest, targets, errors =>
    match resolveArchiveTarget db request agentId with
    | .error e => validateArchiveRequests db agentId (index + 1) rest targets (errors ++ [memoryIdsField index e])
    | .ok target =>
      if (targets.map (·.memoryId)).contains target.memoryId then
        validateArchiveRequests db agentId (index + 1) rest targets
          (errors ++ [memoryIdsField index (duplicateIdError target.memoryId)])
      else validateArchiveRequests db agentId (index + 1) rest (targets ++ [target]) errors

/-- `_archive_batch_transaction`: nothing is written once any request failed. -/
def archiveBatchTransaction (requests : List (Option String)) (agentId : Option String) :
    Tx (Envelope (List ArchiveTarget)) := do
  let db ← Tx.db
  let (targets, errors) := validateArchiveRequests db agentId 0 requests [] []
  if errors.isEmpty then
    Txn.forEach (archiveEntityUnchecked env) ((targets.filter fun t => !t.alreadyArchived).map (·.memoryId))
    return .ok targets []
  else return .rejected errors

def memoryIdsArrayError : Error := fieldError validationError "memory_ids must be a non-empty array" "memory_ids"

def archiveMemories (mode : Mode) (requests : List (Option String)) (agentId : Option String) :
    Tx (Envelope (List ArchiveTarget)) :=
  if requests.isEmpty then pure (.rejected [memoryIdsArrayError])
  else
    tryCatch (writeTransactionRetrying mode (archiveBatchTransaction env requests agentId)) fun e =>
      match mode with
      | .coordinator => throw e
      | .direct => pure (internalRejection e)

/-! ### All or nothing at the first failure -/

/-- An element of the legacy array: an id, an object with an owner, or neither. -/
inductive ArchiveRequest where
  | text (entityId : String)
  | object (entityId agentId : Option String)
  | other
deriving DecidableEq, Repr

def archiveRequest (request : ArchiveRequest) : Tx (Envelope ArchiveReceipt) :=
  match request with
  | .text id => archiveMemoryIn env (some id) none
  | .object id owner => archiveMemoryIn env id owner
  | .other => throw (.attributeError "object has no attribute 'get'")

def archiveBatchItem (request : ArchiveRequest) : Tx ArchiveReceipt := do
  match ← archiveRequest env request with
  | .ok receipt _ => return receipt
  | .rejected errors =>
    throw (.runtimeError ("Bulk archive aborted (all-or-nothing): " ++ (errors.map (·.message)).headD ""))
  | .failure text => throw (.runtimeError ("Bulk archive aborted (all-or-nothing): " ++ text))

def bulkArchiveMemory (mode : Mode) (requests : List ArchiveRequest) : Tx (Envelope (List ArchiveReceipt)) :=
  if requests.isEmpty then pure (.failure "archive_requests must be a non-empty list")
  else
    tryCatch (do
      let receipts ← writeTransactionRetrying mode (Txn.mapList (archiveBatchItem env) requests)
      return .ok receipts [])
      fun e => return .failure e.message

end SaltMdb
