import SaltMdb.Context.Budget
import SaltMdb.Context.Lineage
import SaltMdb.Context.Orphans

/-! `assemble_retrieve_context` with the local strategy. -/

namespace SaltMdb

/-- A reference that names no memory, or several. -/
structure AnchorError where
  error : Error
  candidates : List EntityId
  candidatesTruncated : Bool
deriving DecidableEq, Repr

inductive RetrieveFailure where
  | rejected (errors : List AnchorError)
  | raised (message : String)
deriving DecidableEq, Repr

structure ResolvedHit where
  id : EntityId
  title : String
  memoryType : String
deriving DecidableEq, Repr

inductive MemoryInclusion where
  | primary
  | expansion
  | conflictOnly
  | orphanCommunity
deriving DecidableEq, Repr

inductive RetrievalProvenance where
  | callerSuppliedAnchor (rank : Nat)
  | graphExpansion (hop : Provenance.Hop)
  | contradictsForceInclude (conflictSetId : String)
  | orphanCommunityAssignment (orphanEntityId : EntityId) (communityId : String) (similarity : Rat)
deriving DecidableEq, Repr

structure ContextMemory where
  entityId : EntityId
  title : String
  memoryType : String
  inclusion : MemoryInclusion
  retrievalProvenance : List RetrievalProvenance
deriving DecidableEq, Repr

structure ContextConflictSet where
  id : String
  members : List ConflictMember
  edges : List RawEdge
deriving DecidableEq, Repr

structure ContextBudget where
  unit : String
  limit : Int
  used : Nat
  primaryTruncated : Bool
  primaryDroppedCount : Nat
  expansionTruncated : Bool
  expansionDroppedCount : Nat
  conflictReserveTokensUsed : Nat
  orphanCommunityReserveTokensUsed : Nat
deriving DecidableEq, Repr

structure ContextMetadata where
  strategy : String
  fanOut : FanOut
  conflictReserve : ContradictsCap
  orphanCommunityReserve : OrphanCommunityCap
  budget : ContextBudget
deriving DecidableEq, Repr

structure LocalContext where
  entityIds : List String
  memories : List ContextMemory
  edges : List RawEdge
  lineage : List (EntityId × HeadLineage)
  conflictSets : List ContextConflictSet
  metadata : ContextMetadata
deriving DecidableEq, Repr

/-! ### Anchors -/

variable (env : Env)

/-- One reference, as a hit or as what is wrong with it. -/
def resolvePrimaryHit (db : Db) (agentId : Option String) (rawId : String) : Except AnchorError ResolvedHit :=
  let found := resolveEntityRef env db rawId agentId
  let unknown := ⟨fieldError "UNKNOWN_ENTITY_ID" ("No memory matches entity_id '" ++ rawId ++ "'.") "entity_ids", [], false⟩
  if !found.candidates.isEmpty then
    .error ⟨fieldError "AMBIGUOUS_ID_PREFIX"
      ("ID prefix '" ++ rawId ++ "' matches multiple memories; provide a longer prefix or full UUID.") "entity_ids",
      found.candidates.map (·.id), found.truncated⟩
  else match found.resolved with
    | none => .error unknown
    | some id =>
      match db.entities.find id with
      | none => .error unknown
      | some row => .ok ⟨id, row.title, row.memoryType.text⟩

def resolvedHits (resolutions : List (Except AnchorError ResolvedHit)) : List ResolvedHit := resolutions.filterMap (·.toOption)

def unresolvedErrors (resolutions : List (Except AnchorError ResolvedHit)) : List AnchorError :=
  resolutions.filterMap fun
    | .ok _ => none
    | .error e => some e

def validateRetrieveRequest (entityIds : List String) : List AnchorError :=
  if entityIds.isEmpty then
    [⟨fieldError validationError "entity_ids is required and must be a non-empty list" "entity_ids", [], false⟩]
  else if entityIds.any (· == "") then
    [⟨fieldError validationError "entity_ids must be a list of non-empty strings" "entity_ids", [], false⟩]
  else []

/-! ### Assembly -/

/-- `cs-1`, `cs-2`, …, each with its members. -/
def numberedConflictSets (conflicts : ConflictSetsResult) : List ContextConflictSet :=
  conflicts.conflictSets.zipIdx.map fun numbered => ⟨"cs-" ++ toString (numbered.2 + 1), numbered.1.members, numbered.1.edges⟩

/-- The last conflict set that a memory is a member of. -/
def memberToConflictSet (sets : List ContextConflictSet) (id : EntityId) : Option String :=
  (sets.reverse.find? fun c => c.members.any (·.id == id)).map (·.id)

/-- What the query for the ids reads, `unknown` where there is no row. -/
def memoryTypeById (db : Db) (id : EntityId) : String := ((db.entities.find id).map (·.memoryType.text)).getD "unknown"

/-- The place of a hit among the anchors; of a repeated one, the last. -/
def originalRank (hits : List ResolvedHit) (id : EntityId) : Nat :=
  ((hits.zipIdx.reverse.find? fun numbered => numbered.1.id == id).map (·.2 + 1)).getD 0

def primaryMemory (hits : List ResolvedHit) (id : EntityId) : ContextMemory :=
  let info := (hits.reverse.find? (·.id == id)).map fun hit => (hit.title, hit.memoryType)
  ⟨id, (info.getD ("", "")).1, (info.getD ("", "")).2, .primary, [.callerSuppliedAnchor (originalRank hits id)]⟩

def expansionMemory (db : Db) (candidates : List ExpansionCandidate) (id : EntityId) : ContextMemory :=
  let candidate := candidates.reverse.find? (·.entityId == id)
  ⟨id, (candidate.map (·.title)).getD "", memoryTypeById db id, .expansion,
    ((candidate.map (·.retrievalProvenance)).getD []).map .graphExpansion⟩

def conflictOnlyMemory (db : Db) (sets : List ContextConflictSet) (id : EntityId) : ContextMemory :=
  let meta_ := ((sets.flatMap (·.members)).reverse.find? fun m => m.id == id && m.inclusion = .conflictOnly).bind (·.title)
  ⟨id, meta_.getD "", memoryTypeById db id, .conflictOnly, [.contradictsForceInclude ((memberToConflictSet sets id).getD "")]⟩

def orphanMemory (db : Db) (found : OrphanMatch) : ContextMemory :=
  ⟨found.entityId, found.title, memoryTypeById db found.entityId, .orphanCommunity,
    [.orphanCommunityAssignment found.orphanEntityId found.communityId found.similarity]⟩

variable {ν : Type} (store : CommunityStore ν) (tokenCount : String → Nat)

/-- The answer for hits and the conflict sets around them. -/
def localContext (db : Db) (entityIds : List String) (hits : List ResolvedHit) (budgetTokens : Option Int) (pit : Instant)
    (agentId : Option String) (primaryHits : List PrimaryHit) (expansion : ExpansionResult) (conflicts : ConflictSetsResult) : LocalContext :=
  let candidateIds := expansion.expansionCandidates.map (·.entityId)
  let conflictOnlyIds := conflicts.conflictSets.flatMap fun c => (c.members.filter (·.inclusion = .conflictOnly)).map (·.id)
  let orphans := findOrphanCommunityMatches store db primaryHits (primaryHits.map (·.id) ++ candidateIds ++ conflictOnlyIds) agentId
  let packed := packContextBudget db tokenCount expansion primaryHits conflicts budgetTokens (orphans.matches_.map (·.entityId)) [] []
  let lineage := assembleLineage env db expansion primaryHits pit agentId
  let sets := numberedConflictSets conflicts
  let recoverable := fun id => (memberToConflictSet sets id).isSome
  let recoveredPrimary := packed.primary.dropped.filter recoverable
  let recoveredExpansion := packed.expansion.dropped.filter recoverable
  let truePrimaryDropped := packed.primary.dropped.filter (!recoverable ·)
  let trueExpansionDropped := packed.expansion.dropped.filter (!recoverable ·)
  let recoveredTokensUsed := tokenSum packed.tokenCounts (recoveredPrimary ++ recoveredExpansion)
  let memories := (packed.primary.packed ++ recoveredPrimary).map (primaryMemory hits) ++
    (packed.expansion.packed ++ recoveredExpansion).map (expansionMemory db expansion.expansionCandidates) ++
    packed.conflictOnlyEntityIds.map (conflictOnlyMemory db sets) ++ orphans.matches_.map (orphanMemory db)
  { entityIds := entityIds
    memories := memories
    edges := expansion.inNetworkEdges
    lineage := lineage.filter fun head => (memories.map (·.entityId)).contains head.1
    conflictSets := sets
    metadata := {
      strategy := "local"
      fanOut := expansion.fanOut
      conflictReserve := conflicts.contradictsCap
      orphanCommunityReserve := orphans.orphanCommunityCap
      budget := {
        unit := packed.budget.unit
        limit := packed.budget.limit
        used := packed.budget.used + recoveredTokensUsed
        primaryTruncated := decide (0 < truePrimaryDropped.length)
        primaryDroppedCount := truePrimaryDropped.length
        expansionTruncated := decide (0 < trueExpansionDropped.length)
        expansionDroppedCount := trueExpansionDropped.length
        conflictReserveTokensUsed := packed.budget.conflictReserveTokensUsed + recoveredTokensUsed
        orphanCommunityReserveTokensUsed := packed.budget.orphanCommunityReserveTokensUsed } } }

/-- Every anchor has the same score. -/
def anchorHits (hits : List ResolvedHit) : List PrimaryHit := hits.map fun hit => ⟨hit.id, 1⟩

def assembleRetrieveContext (db : Db) (entityIds : List String) (budgetTokens : Option Int) (pit : Instant) (agentId : Option String) :
    Except RetrieveFailure LocalContext :=
  let invalid := validateRetrieveRequest entityIds
  if !invalid.isEmpty then .error (.rejected invalid)
  else
    let resolutions := entityIds.map (resolvePrimaryHit env db agentId)
    let unresolved := unresolvedErrors resolutions
    if !unresolved.isEmpty then .error (.rejected unresolved)
    else
      let hits := resolvedHits resolutions
      let primaryHits := anchorHits hits
      let expansion := expandContextCandidates env db primaryHits pit agentId
      match assembleConflictSets env db expansion primaryHits pit with
      | .error message => .error (.raised message)
      | .ok conflicts => .ok (localContext env store tokenCount db entityIds hits budgetTokens pit agentId primaryHits expansion conflicts)

end SaltMdb
