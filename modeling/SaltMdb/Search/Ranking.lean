import SaltMdb.Library.Component
import SaltMdb.Search.Channels
import SaltMdb.Search.Supersession

/-! What a search does to its fused pool: the gate of strict searches and the orders laid over the pool. -/

namespace SaltMdb
open Fusion Component

/-! ### Orders over the pool -/

/-- Some candidates behind the others, both in their order. -/
def sinkBehind (sinks : EntityId → Bool) (orderedIds : List EntityId) : List EntityId :=
  orderedIds.filter (!sinks ·) ++ orderedIds.filter sinks

def applyTypeBias (db : Db) : List EntityId → List EntityId :=
  sinkBehind fun id => (db.entities.find id).any (·.memoryType == .event)

/-- The targets of an unended `supersedes` edge. -/
def supersededIds (db : Db) (now : Instant) (id : EntityId) : Bool :=
  db.relations.rows.any fun r => r.targetId == id && r.predicate == "supersedes" && r.validTo.all (datetime now < datetime ·)

/-- The targets of an edge that all four timestamps call valid. -/
def bitemporalTargetIds (db : Db) (predicate : String) (now : Instant) (id : EntityId) : Bool :=
  db.relations.rows.any fun r => r.targetId == id && r.predicate == predicate && r.validIn now

def applySupersessionDemotion (db : Db) (now : Instant) : List EntityId → List EntityId := sinkBehind (supersededIds db now)

def applyStrictRankingDefaults (db : Db) (now : Instant) (orderedIds : List EntityId) : List EntityId :=
  sinkBehind (fun id => bitemporalTargetIds db "supersedes" now id || bitemporalTargetIds db "corrects" now id)
    (applyTypeBias db orderedIds)

/-! ### Families -/

structure SupersedesMaps where
  sourceToTargets : EntityId → List EntityId
  targetToSources : EntityId → List EntityId

/-- Newer and older memories of each memory, over rows of a source and a target. -/
def buildSupersedesMaps (rows : List (EntityId × EntityId)) : SupersedesMaps where
  sourceToTargets id := ((rows.filter (·.1 == id)).map (·.2)).dedup
  targetToSources id := ((rows.filter (·.2 == id)).map (·.1)).dedup

def SupersedesMaps.undirected (maps : SupersedesMaps) (id : EntityId) : List EntityId :=
  maps.sourceToTargets id ++ maps.targetToSources id

/-- Every edge is put on the stack twice at most. -/
def supersedesComponent (rows : List (EntityId × EntityId)) (seed : EntityId) : List EntityId :=
  explore (buildSupersedesMaps rows).undirected (2 * rows.length + 1) [seed] []

def supersedesComponentIsLive (db : Db) (component pool : List EntityId) : Bool :=
  component.all fun id => pool.contains id && (db.entities.find id).any (·.status != .archived)

/-- From the head to older and older memories: what is passed, and where it ends. -/
def walkSupersedes (maps : SupersedesMaps) : Nat → EntityId → List EntityId → List EntityId × EntityId
  | 0, node, walked => (walked, node)
  | steps + 1, node, walked =>
    if walked.contains node then (walked, node)
    else match maps.sourceToTargets node with
      | [] => (walked ++ [node], node)
      | next :: _ => walkSupersedes maps steps next (walked ++ [node])

def supersedesChainHead (maps : SupersedesMaps) (component : List EntityId) : Option EntityId :=
  if component.all fun id => (maps.sourceToTargets id).length ≤ 1 && (maps.targetToSources id).length ≤ 1 then
    match component.filter fun id => (maps.targetToSources id).isEmpty with
    | [head] =>
      let (walked, node) := walkSupersedes maps (component.length + 1) head []
      if component.all walked.contains && walked.all component.contains && (maps.sourceToTargets node).isEmpty then some head else none
    | _ => none
  else none

/-- The family of a candidate, with the member that stands for it. -/
def supersedesFamily (db : Db) (rows : List (EntityId × EntityId)) (pool : List EntityId) (id : EntityId) :
    Option (List EntityId × EntityId) :=
  let maps := buildSupersedesMaps rows
  if (maps.undirected id).isEmpty then none
  else
    let component := supersedesComponent rows id
    if supersedesComponentIsLive db component pool then (supersedesChainHead maps component).map fun head => (component, head) else none

def emitCollapsedSupersedes (family : EntityId → Option (List EntityId × EntityId)) :
    List EntityId → List EntityId → List EntityId
  | [], _ => []
  | id :: rest, skipped =>
    if skipped.contains id then emitCollapsedSupersedes family rest skipped
    else match family id with
      | none => id :: emitCollapsedSupersedes family rest skipped
      | some (members, head) => head :: emitCollapsedSupersedes family rest (skipped ++ members)

def collapseSupersedesFamilies (db : Db) (now : Instant) (orderedIds : List EntityId) : List EntityId :=
  let rows := (db.relations.rows.filter (·.supersedesAt now)).map fun r => (r.sourceId, r.targetId)
  emitCollapsedSupersedes (supersedesFamily db rows orderedIds) orderedIds []

/-! ### Evidence -/

inductive Provenance where
  | direct
  | indirect
deriving DecidableEq, Repr

structure CandidateEvidence where
  provenance : Provenance
  inFtsAnd : Bool
  inFtsOrOnly : Bool
  inSemantic : Bool
  dualChannel : Bool
  semanticVerdict : Option SemanticVerdict
  predecessorGrounded : Bool
deriving DecidableEq, Repr

/-- The evidence record of one candidate. -/
def buildCandidateEvidence (channels : ChannelRows) (topicScores : EntityId → Option SemanticVerdict) (resolvedHead grounded : EntityId → Bool)
    (id : EntityId) : CandidateEvidence :=
  let inFts := channels.ftsRows.contains id
  let inFtsAnd := inFts && !channels.usedOrFallback
  let inSemantic := channels.semanticRows.contains id
  { provenance := if inFts || inSemantic || !resolvedHead id then .direct else .indirect
    inFtsAnd
    inFtsOrOnly := inFts && channels.usedOrFallback
    inSemantic
    dualChannel := inFtsAnd && inSemantic
    semanticVerdict := topicScores id
    predecessorGrounded := grounded id }

def acceptOrAbstain (evidence : CandidateEvidence) : Bool × String :=
  if evidence.provenance = .indirect then
    if evidence.predecessorGrounded then (true, "indirect_grounded_predecessor") else (false, "indirect_ungrounded_predecessor")
  else if evidence.dualChannel then (true, "dual_channel")
  else if evidence.inFtsAnd then (true, "fts_match")
  else if evidence.inFtsOrOnly then
    if evidence.semanticVerdict = some .sameSpecificTopic then (true, "fts_or_fallback_same_specific_topic")
    else (false, "fts_or_fallback_insufficient_topic_grounding")
  else if evidence.inSemantic then
    if evidence.semanticVerdict = some .sameSpecificTopic then (true, "semantic_only_same_specific_topic")
    else (false, "semantic_only_insufficient_topic_grounding")
  else (false, "no_evidence")

/-- The entries under the heads of their names, each head with the best of its scores. -/
def substituteResolvedHeads (rrfScoreMap : List (EntityId × Rat)) (resolvedMap : List (EntityId × EntityId)) : List (EntityId × Rat) :=
  byScore (enterAll max [] (rrfScoreMap.map fun entry => ((resolvedMap.lookup entry.1).getD entry.1, entry.2)))

end SaltMdb
