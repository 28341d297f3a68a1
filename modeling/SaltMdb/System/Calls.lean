import SaltMdb.Library.Runs
import SaltMdb.Core.Review
import SaltMdb.Memory.Consolidate
import SaltMdb.Relation.Batch
import SaltMdb.Schema.Fresh
import SaltMdb.Tag.Merge

/-! The mutating calls of the store, and runs of them: each call on a connection of its own or as a job of
the coordinator, on the state the calls before it left. -/

namespace SaltMdb
open Transactions

inductive Call where
  | storeMemory (request : StoreRequest)
  | replaceMemory (operation : Operation) (request : ReplacementRequest)
  | consolidateMemories (request : ConsolidationRequest)
  | applyConsolidations (items : List (Option ConsolidationItem)) (agentId contextId : Option String)
  | bulkCommitConsolidation (items : List (Option ConsolidationItem)) (agentId contextId : Option String)
  | archiveMemory (entityId agentId : Option String)
  | archiveMemories (requests : List (Option String)) (agentId : Option String)
  | bulkArchiveMemory (requests : List ArchiveRequest)
  | storeRelation (args : StoreRelationArgs)
  | invalidateRelation (args : InvalidateRelationArgs)
  | applyRelations (relations : List (Option RelationItem)) (agentId : Option String)
  | bulkStoreRelations (relations : List (Option RelationItem)) (agentId : Option String) (invalidate : Bool)
  | setCoreMemory (request : SetCoreRequest)
  | reviewCoreMemory (request : ReviewRequest)
  | updateMemoryMetadata (entityId : Option String) (patch : Option MetadataPatch) (agentId : Option String)
  | mergeTags (keepTag : String) (tagsToMerge : List String)
  | mergeTagsHeuristics

/-- A service reduced to whether its envelope reports success. -/
def reports {α : Type} (service : Tx (Envelope α)) : Tx Bool := do
  let answer ← service
  return answer.isOk

variable (env : Env)

/-- The service behind a call. No agent reaches the flag that lets an edge into a core. -/
def Call.service (call : Call) (mode : Mode) : Tx Bool :=
  match call with
  | .storeMemory request => reports (SaltMdb.storeMemory env mode request)
  | .replaceMemory operation request => reports (SaltMdb.replaceMemory env mode operation request)
  | .consolidateMemories request => reports (SaltMdb.consolidateMemories env mode request)
  | .applyConsolidations items agentId contextId =>
    reports (SaltMdb.applyConsolidations env mode items agentId contextId)
  | .bulkCommitConsolidation items agentId contextId =>
    reports (SaltMdb.bulkCommitConsolidation env mode items agentId contextId)
  | .archiveMemory entityId agentId => reports (SaltMdb.archiveMemory env mode entityId agentId)
  | .archiveMemories requests agentId => reports (SaltMdb.archiveMemories env mode requests agentId)
  | .bulkArchiveMemory requests => reports (SaltMdb.bulkArchiveMemory env mode requests)
  | .storeRelation args => reports (SaltMdb.storeRelation env mode { args with allowCoreElaboratesOn := false })
  | .invalidateRelation args => reports (SaltMdb.invalidateRelation env mode args)
  | .applyRelations relations agentId => reports (SaltMdb.applyRelations env mode relations agentId)
  | .bulkStoreRelations relations agentId invalidate =>
    reports (SaltMdb.bulkStoreRelations env mode relations agentId invalidate)
  | .setCoreMemory request => reports (SaltMdb.setCoreMemory env mode request)
  | .reviewCoreMemory request => reports (SaltMdb.reviewCoreMemory env mode request)
  | .updateMemoryMetadata entityId patch agentId =>
    reports (SaltMdb.updateMemoryMetadata env mode entityId patch agentId)
  | .mergeTags keepTag tagsToMerge => reports (SaltMdb.mergeTags mode keepTag tagsToMerge)
  | .mergeTagsHeuristics => do
    SaltMdb.mergeTagsHeuristics mode
    return true

/-- What a call answers and the world it leaves; an exception that reaches the caller reports no success. -/
def Call.run (call : Call) (mode : Mode) (w : World Db Supply) : Except Exc Bool × World Db Supply :=
  (serve mode (call.service env)).run w

def Call.succeeded (call : Call) (mode : Mode) (w : World Db Supply) : Bool :=
  (call.run env mode w).1.toOption.getD false

def Call.next (w : World Db Supply) (call : Mode × Call) : World Db Supply := (call.2.run env call.1 w).2

/-- Every state along a run of calls. -/
def Call.states : List (Mode × Call) → World Db Supply → List (World Db Supply) := Runs.states (Call.next env)

/-- Every call meets its guard on the world it runs in. -/
def Call.Guarded (guard : Mode × Call → World Db Supply → Prop) : List (Mode × Call) → World Db Supply → Prop :=
  Runs.Guarded (Call.next env) guard

/-! ### Sample requests -/

def undeclared : CoreDeclaration := ⟨none, none, none, none, none⟩

/-- A shared memory of one agent under an id of its own. -/
def noteRequest (id title content : String) (core : CoreDeclaration) : StoreRequest where
  content := some content
  title := some title
  retrievalText := .unset
  tags := none
  agentId := some "agent"
  contextId := none
  scope := "shared"
  entityId := some id
  core := core
  memoryType := some "fact"
  metadata := none

def replacementRequest (id title content : String) (tags : List String) (core : CoreDeclaration) : ReplacementRequest where
  entityId := some id
  title := some title
  tags := some tags
  content := some content
  reason := some "newer knowledge"
  agentId := none
  contextId := none
  scope := none
  memoryType := none
  metadata := none
  retrievalText := none
  core := core
  repointRelations := false

/-- The n-th id of the plain environment. -/
def drawn (n : Nat) : EntityId := Env.plain.uuid4 n

end SaltMdb
