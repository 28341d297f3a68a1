import SaltMdb.Memory.Store

/-! `update_memory_metadata`, and the resolution of a memory that its own agent may change. -/

namespace SaltMdb
open Transactions

variable (env : Env)

def ambiguousTargetError (entityId : String) : Error :=
  fieldError "AMBIGUOUS_ID_PREFIX"
    ("ID prefix '" ++ entityId ++ "' matches multiple memories; provide a longer prefix or full UUID.") "entity_id"

def noMemoryError (code entityId : String) : Error :=
  fieldError code ("No memory matches entity_id '" ++ entityId ++ "'.") "entity_id"

def foreignCoreError : Error :=
  fieldError "IMMUTABLE_MEMORY"
    ("Only the owning agent can make this memory core; store a new core memory with store_memory(core=...) that cites " ++
      "it.") "entity_id"

/-- `_owned_memory_target`: a foreign shared memory is reported with `foreign`, a foreign private one as missing. -/
def ownedMemoryTarget (db : Db) (entityId : String) (agentId : Option String) (foreign : Error) :
    Except Error Entity :=
  let found := resolveEntityRef env db entityId agentId
  if !found.candidates.isEmpty then .error (ambiguousTargetError entityId)
  else match found.resolved.bind db.entities.find with
    | none => .error (noMemoryError notFound entityId)
    | some e =>
      if agentId.isNone ∨ e.agentId = agentId then .ok e
      else if e.scope = .shared then .error foreign
      else .error (noMemoryError notFound entityId)

structure MetadataReceipt where
  id : EntityId
  message : String
deriving DecidableEq, Repr

/-- The patch: a key with no value is deleted. -/
abbrev MetadataPatch := List (String × Option String)

def sortedKeys (keys : List String) : List String := keys.mergeSort fun a b => decide (a ≤ b)

def MetadataPatch.updates (patch : MetadataPatch) : List (String × String) :=
  patch.filterMap fun field => field.2.map fun value => (field.1, value)

def MetadataPatch.deletions (patch : MetadataPatch) (current : List (String × String)) : List String :=
  sortedKeys ((patch.filter fun field => field.2.isNone && (current.lookup field.1).isSome).map (·.1))

def MetadataPatch.apply (patch : MetadataPatch) (current : List (String × String)) : List (String × String) :=
  (mergeMetadata current patch.updates).filter fun field => !(patch.deletions current).contains field.1

def keyReport (what : String) (keys : List String) : String :=
  what ++ s!" ({keys.length} key(s): " ++ Text.join ", " keys ++ ")"

def metadataMessage (id : EntityId) (updated deleted : List String) : String :=
  let reports := (if updated.isEmpty then [] else [keyReport "updated" updated]) ++
    (if deleted.isEmpty then [] else [keyReport "deleted" deleted])
  "Memory '" ++ id ++ "' metadata " ++ Text.join "; " reports ++ "."

def writeMetadataUpdate (id : EntityId) (patch : MetadataPatch) : Tx (Envelope MetadataReceipt) := do
  let db ← Tx.db
  match db.entities.find id with
  | none => return .rejected [fieldError notFound ("Memory '" ++ id ++ "' not found.") "entity_id"]
  | some e =>
    let updated := sortedKeys (patch.updates.map (·.1))
    let deleted := patch.deletions e.metadata
    if updated.isEmpty && deleted.isEmpty then
      return .ok ⟨id, "Memory '" ++ id ++ "' metadata unchanged (empty patch)."⟩ []
    else
      let now ← Tx.now env
      Tx.setEntities (·.updateId id fun c => { c with metadata := patch.apply c.metadata, updatedAt := now })
      return .ok ⟨id, metadataMessage id updated deleted⟩ []

/-- `update_memory_metadata`; the patch is `none` when it is not an object. -/
def updateMemoryMetadata (mode : Mode) (entityId : Option String) (patch : Option MetadataPatch)
    (agentId : Option String) : Tx (Envelope MetadataReceipt) := do
  let db ← Tx.db
  let raw := entityId.getD ""
  if Text.strip raw = "" then return .rejected [fieldError validationError "entity_id is mandatory." "entity_id"]
  match patch with
  | none => return .rejected [fieldError validationError "metadata must be an object (dict)." "metadata"]
  | some patch =>
    match ownedMemoryTarget env db raw agentId (noMemoryError notFound raw) with
    | .error e => return .rejected [e]
    | .ok target =>
      tryCatch (writeTransactionRetrying mode (writeMetadataUpdate env target.id patch))
        fun e => return internalRejection e

end SaltMdb
