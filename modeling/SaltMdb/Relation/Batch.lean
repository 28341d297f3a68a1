import SaltMdb.Relation.Effects

/-! The two batch services: `apply_relations`, which collects the rejections of all its items, and
`bulk_store_relations`, which stops at the first. -/

namespace SaltMdb
open Transactions

/-- One object of a `relations` array. `invalidate` and `agent_id` may be absent, and an absent
`agent_id` is not the same as one that is `None`. -/
structure RelationItem where
  sourceId : String
  targetId : String
  predicate : String
  invalidate : Option Bool
  validAt : Option Instant
  invalidAt : Option Instant
  overrideJustification : Option String
  agentId : Option (Option String)
deriving DecidableEq, Repr

def RelationItem.storeArgs (item : RelationItem) (agentId : Option String) : StoreRelationArgs :=
  ⟨item.sourceId, item.targetId, item.predicate, item.validAt, item.overrideJustification, agentId, false⟩

def RelationItem.invalidateArgs (item : RelationItem) : InvalidateRelationArgs :=
  ⟨item.sourceId, item.targetId, item.predicate, item.invalidAt⟩

inductive OutcomeKind where
  | created
  | duplicate
  | invalidated
deriving DecidableEq, Repr

inductive RelationAction where
  | store
  | invalidate
deriving DecidableEq, Repr

/-- One entry of the `items` a batch reports. -/
structure BatchItem where
  duplicate : Bool
  sourceId : String
  targetId : String
  predicate : String
  action : RelationAction
  result : Option RelationReceipt
deriving DecidableEq, Repr

structure RelationOutcome where
  kind : OutcomeKind
  item : BatchItem
deriving DecidableEq, Repr

variable (env : Env)

def hasAlreadyDone (warnings : List Warning) : Bool := warnings.any (·.code == alreadyDone)

/-- The data and the warnings of a result that is not a rejection. -/
def relationOutcome (item : RelationItem) (action : RelationAction) (data : Option RelationReceipt)
    (warnings : List Warning) : RelationOutcome :=
  let duplicate := hasAlreadyDone warnings
  let kind : OutcomeKind :=
    if duplicate then .duplicate else if action = .invalidate then .invalidated else .created
  ⟨kind, duplicate, item.sourceId, item.targetId, item.predicate, action, data⟩

/-- An internal error is raised again, any other rejection is handed on. -/
def relationRejection (errors : List Error) : Tx (List Error) :=
  let errors := if errors.isEmpty then [⟨internalError, "relation operation failed", none⟩] else errors
  match errors.find? (·.code == internalError) with
  | some e => throw (.runtimeError e.message)
  | none => pure errors

def prefixRelationErrors (errors : List Error) (index : Nat) : List Error :=
  errors.map fun e => { e with field := some (.name "relations" :: .index index :: e.field.getD []) }

def RelationItem.action (item : RelationItem) (default : Bool) : RelationAction :=
  if item.invalidate.getD default then .invalidate else .store

def runRelationItem (item : RelationItem) (action : RelationAction) (agentId : Option String) :
    Tx (Envelope RelationReceipt) :=
  match action with
  | .invalidate => invalidateRelationIn env item.invalidateArgs
  | .store => storeRelationIn env (item.storeArgs agentId)

def applyRelationItem (item : RelationItem) (agentId : Option String) : Tx (Except (List Error) RelationOutcome) := do
  let action := item.action false
  match ← runRelationItem env item action agentId with
  | .rejected errors => return .error (← relationRejection errors)
  | .ok data warnings => return .ok (relationOutcome item action (some data) warnings)
  | .failure _ => return .ok (relationOutcome item action none [])

/-- What `_apply_relations_transaction` accumulates over the items. -/
structure BatchProgress where
  items : List BatchItem
  errors : List Error
  createdCount : Nat
  duplicateCount : Nat
  invalidatedCount : Nat
deriving DecidableEq, Repr

namespace BatchProgress

def start : BatchProgress := ⟨[], [], 0, 0, 0⟩

def count (p : BatchProgress) : OutcomeKind → BatchProgress
  | .created => { p with createdCount := p.createdCount + 1 }
  | .duplicate => { p with duplicateCount := p.duplicateCount + 1 }
  | .invalidated => { p with invalidatedCount := p.invalidatedCount + 1 }

def accept (p : BatchProgress) (outcome : RelationOutcome) : BatchProgress :=
  let counted := p.count outcome.kind
  { counted with items := counted.items ++ [outcome.item] }

def reject (p : BatchProgress) (errors : List Error) : BatchProgress :=
  { p with errors := p.errors ++ errors }

def total (p : BatchProgress) : Nat := p.createdCount + p.duplicateCount + p.invalidatedCount

end BatchProgress

def relationItemError : Error := ⟨validationError, "relation item must be an object", none⟩

/-- The loop over the array; what is not an object is `none`. -/
def applyRelationItems (agentId : Option String) : Nat → List (Option RelationItem) → BatchProgress → Tx BatchProgress
  | _, [], progress => pure progress
  | index, none :: rest, progress =>
    applyRelationItems agentId (index + 1) rest (progress.reject (prefixRelationErrors [relationItemError] index))
  | index, some item :: rest, progress => do
    match ← applyRelationItem env item agentId with
    | .error errors =>
      applyRelationItems agentId (index + 1) rest (progress.reject (prefixRelationErrors errors index))
    | .ok outcome => applyRelationItems agentId (index + 1) rest (progress.accept outcome)

structure RelationBatch where
  items : List BatchItem
  createdCount : Nat
  duplicateCount : Nat
  invalidatedCount : Nat
deriving DecidableEq, Repr

def BatchProgress.batch (p : BatchProgress) : RelationBatch :=
  ⟨p.items, p.createdCount, p.duplicateCount, p.invalidatedCount⟩

def applyRelationsTransaction (relations : List (Option RelationItem)) (agentId : Option String) :
    Tx (Envelope RelationBatch) := do
  let savepoint ← Tx.db
  let progress ← applyRelationItems env agentId 0 relations .start
  if progress.errors.isEmpty then
    return .ok progress.batch []
  else
    Txn.modify fun _ => savepoint
    return .rejected progress.errors

def relationsArrayError (what : String) : Error := fieldError validationError what "relations"

def applyRelations (mode : Mode) (relations : List (Option RelationItem)) (agentId : Option String) :
    Tx (Envelope RelationBatch) :=
  if relations.isEmpty then pure (.rejected [relationsArrayError "relations must be a non-empty array"])
  else
    tryCatch (writeTransactionRetrying mode (applyRelationsTransaction env relations agentId)) fun e =>
      match mode with
      | .coordinator => throw e
      | .direct => pure (internalRejection e)

/-! ### All or nothing at the first failure -/

def storeRelationBatchItem (agentId : Option String) (invalidate : Bool) (element : Option RelationItem) :
    Tx BatchItem :=
  match element with
  | none => throw (.attributeError "object has no attribute 'get'")
  | some item => do
    let action := item.action invalidate
    match ← runRelationItem env item action (item.agentId.getD agentId) with
    | .rejected errors =>
      throw (.runtimeError ("Bulk relation store aborted (all-or-nothing): " ++ (errors.map (·.message)).headD ""))
    | .ok data warnings => return (relationOutcome item action (some data) warnings).item
    | .failure _ => return (relationOutcome item action none []).item

/-- `bulk_store_relations`: the exception of the first rejected item is caught outside the transaction
helper, and becomes a rejection. -/
def bulkStoreRelations (mode : Mode) (relations : List (Option RelationItem)) (agentId : Option String)
    (invalidate : Bool) : Tx (Envelope (List BatchItem)) :=
  if relations.isEmpty then pure (.rejected [relationsArrayError "relations must be a non-empty array of objects"])
  else
    tryCatch (do
      let results ← writeTransactionRetrying mode
        (Txn.mapList (storeRelationBatchItem env agentId invalidate) relations)
      return .ok results [])
      fun e => pure (internalRejection e)

end SaltMdb
