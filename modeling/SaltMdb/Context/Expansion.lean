import Mathlib.Algebra.Order.Ring.Rat
import Mathlib.Data.List.Dedup
import Mathlib.Data.Prod.Lex
import Mathlib.Data.String.Basic
import SaltMdb.Library.Dictionary
import SaltMdb.Relation.Dependencies

/-! `expand_context_candidates`: what one allowed hop around the primary hits brings in. -/

namespace SaltMdb

structure PrimaryHit where
  id : EntityId
  score : Rat
deriving DecidableEq, Repr

structure RawEdge where
  relationId : RelationId
  sourceId : EntityId
  targetId : EntityId
  predicate : String
deriving DecidableEq, Repr

/-- How a candidate was reached from a hit. -/
structure Provenance.Hop where
  origin : EntityId
  predicate : String
  direction : WalkDirection
deriving DecidableEq, Repr

structure ExpansionNode where
  entityId : EntityId
  title : String
  provenance : List Provenance.Hop
deriving DecidableEq, Repr

structure ExpansionCandidate where
  entityId : EntityId
  title : String
  mutualNeighborCount : Nat
  tiebreakScore : Rat
  retrievalProvenance : List Provenance.Hop
deriving DecidableEq, Repr

structure FanOut where
  cap : Nat
  eligibleCount : Nat
  truncated : Bool
  droppedCount : Nat
deriving DecidableEq, Repr

structure ExpansionResult where
  inNetworkEdges : List RawEdge
  expansionCandidates : List ExpansionCandidate
  contradictsEdges : List RawEdge
  fanOut : FanOut
deriving DecidableEq, Repr

def contextExpansionTopKRelationships : Nat := 10

def defaultContextExpansionPredicates : List String := ["elaborates_on", "depends_on", "corrects", "derived_from", "resolves"]

/-! ### Collecting -/

/-- The dictionaries that the edges are recorded in: by relation id, by relation id, by entity id. -/
structure Collected where
  inNetwork : List RawEdge
  contradicts : List RawEdge
  provenance : List ExpansionNode

def DependencyEdge.raw (e : DependencyEdge) : RawEdge := ⟨e.relationId, e.sourceId, e.targetId, e.predicate⟩

/-- `edges[edge["relation_id"]] = edge`. -/
def assignEdge (edges : List RawEdge) (e : RawEdge) : List RawEdge := Dictionary.assign (·.relationId) edges e

def ExpansionNode.addHop (hop : Provenance.Hop) (node : ExpansionNode) : ExpansionNode :=
  { node with provenance := if hop ∈ node.provenance then node.provenance else node.provenance ++ [hop] }

/-- `provenance.setdefault(…)["provenance"].add(…)`. -/
def addProvenance (nodes : List ExpansionNode) (entityId : EntityId) (title : String) (hop : Provenance.Hop) : List ExpansionNode :=
  Dictionary.adjust (·.entityId) nodes entityId ⟨entityId, title, []⟩ (ExpansionNode.addHop hop)

/-- The end of an edge that is not a hit, where the other one is, and how it was reached. -/
def provenanceOf (primaryIds : List EntityId) (e : DependencyEdge) : Option (EntityId × String × Provenance.Hop) :=
  if primaryIds.contains e.sourceId = primaryIds.contains e.targetId then none
  else if primaryIds.contains e.sourceId then some (e.targetId, e.targetTitle, ⟨e.sourceId, e.predicate, .outbound⟩)
  else some (e.sourceId, e.sourceTitle, ⟨e.targetId, e.predicate, .inbound⟩)

def recordProvenance (primaryIds : List EntityId) (nodes : List ExpansionNode) (e : DependencyEdge) : List ExpansionNode :=
  match provenanceOf primaryIds e with
  | none => nodes
  | some (entityId, title, hop) => addProvenance nodes entityId title hop

def recordEdge (primaryIds : List EntityId) (c : Collected) (e : DependencyEdge) : Collected :=
  if e.predicate = "contradicts" then { c with contradicts := assignEdge c.contradicts e.raw }
  else if ¬ defaultContextExpansionPredicates.contains e.predicate then c
  else if primaryIds.contains e.sourceId && primaryIds.contains e.targetId then { c with inNetwork := assignEdge c.inNetwork e.raw }
  else { c with provenance := recordProvenance primaryIds c.provenance e }

variable (env : Env)

/-- A hit that cannot be traversed is skipped. -/
def traversedEdges (db : Db) (pit : Instant) (agentId : Option String) (hitId : EntityId) : List DependencyEdge :=
  match analyzeDependencies env db hitId 1 pit .both agentId with
  | .error _ => []
  | .ok traversal => traversal.edges

def collectEdges (db : Db) (primaryIds : List EntityId) (pit : Instant) (agentId : Option String) (c : Collected) (hitId : EntityId) :
    Collected :=
  (traversedEdges env db pit agentId hitId).foldl (recordEdge primaryIds) c

/-! ### Ranking -/

def maxScore : List Rat → Rat
  | [] => 0
  | [score] => score
  | score :: rest => max score (maxScore rest)

/-- `{hit["id"]: hit["score"]}`: the last hit of an id counts. -/
def primaryScore (hits : List PrimaryHit) (id : EntityId) : Rat := ((hits.reverse.find? (·.id == id)).map (·.score)).getD 0

/-- Tuples in the order of their texts. -/
def Provenance.Hop.key (hop : Provenance.Hop) : Lex (String × Lex (String × String)) :=
  toLex (hop.origin, toLex (hop.predicate, match hop.direction with
    | .inbound => "inbound"
    | .outbound => "outbound"))

def sortedHops (hops : List Provenance.Hop) : List Provenance.Hop := hops.insertionSort fun a b => a.key ≤ b.key

def renderNode (hits : List PrimaryHit) (node : ExpansionNode) : ExpansionCandidate where
  entityId := node.entityId
  title := node.title
  mutualNeighborCount := (node.provenance.map (·.origin)).dedup.length
  tiebreakScore := maxScore (node.provenance.map fun hop => primaryScore hits hop.origin)
  retrievalProvenance := sortedHops node.provenance

/-- More neighbours first, then the higher score, then the id. -/
def ExpansionCandidate.key (c : ExpansionCandidate) : Lex (Int × Lex (Rat × String)) :=
  toLex (-(c.mutualNeighborCount : Int), toLex (-c.tiebreakScore, c.entityId))

def rankExpansionNodes (nodes : List ExpansionNode) (hits : List PrimaryHit) : List ExpansionCandidate :=
  (nodes.map (renderNode hits)).insertionSort fun a b => a.key ≤ b.key

def expandContextCandidates (db : Db) (primaryHits : List PrimaryHit) (pit : Instant) (agentId : Option String) : ExpansionResult :=
  let primaryIds := (primaryHits.map (·.id)).dedup
  let collected := primaryIds.foldl (collectEdges env db primaryIds pit agentId) ⟨[], [], []⟩
  let ranked := rankExpansionNodes collected.provenance primaryHits
  let cap := contextExpansionTopKRelationships * primaryHits.length
  { inNetworkEdges := collected.inNetwork.insertionSort fun a b => a.relationId ≤ b.relationId
    expansionCandidates := ranked.take cap
    contradictsEdges := collected.contradicts.insertionSort fun a b => a.relationId ≤ b.relationId
    fanOut := ⟨cap, ranked.length, decide (cap < ranked.length), ranked.length - cap⟩ }

end SaltMdb
