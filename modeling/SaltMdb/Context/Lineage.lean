import SaltMdb.Context.Conflicts

/-! `assemble_lineage`: the history of each head, with the contradictions that lineage resolved. -/

namespace SaltMdb

inductive HistoryInclusion where
  | recency
  | contradictsForceInclude
deriving DecidableEq, Repr

/-- An empty `contradictedWith` stands for an entry without a flag. -/
structure HistoricalEntry where
  id : EntityId
  title : String
  archivedAt : Option Instant
  includedVia : HistoryInclusion
  contradictedWith : List EntityId
deriving DecidableEq, Repr

structure HeadLineage where
  currentId : EntityId
  currentTitle : String
  currentContradictedWith : List EntityId
  historical : List HistoricalEntry
  historicalTruncated : Bool
  historicalDroppedCount : Nat
deriving DecidableEq, Repr

def lineageHistoricalCap : Nat := 5

/-- A missing instant comes before every other. -/
def notLater : Option Instant → Option Instant → Bool
  | none, _ => true
  | some _, none => false
  | some a, some b => a ≤ b

/-- By depth, then the latest first, then by id: three stable sorts from the last key on. -/
def sortAncestorNodes (nodes : List LineageNode) : List LineageNode :=
  let ordered := nodes.insertionSort fun a b => a.id ≤ b.id
  let latestFirst := ordered.insertionSort fun a b => notLater b.updatedAt a.updatedAt = true
  latestFirst.insertionSort fun a b => a.depth ≤ b.depth

/-- The memories that contradict one, in a component that lineage has resolved. -/
def contradictionPeers (components : List ConflictComponent) (id : EntityId) : List EntityId :=
  let edges := (components.filter (·.resolved)).flatMap (·.edges)
  let peers := edges.flatMap fun e => (if e.sourceId = id then [e.targetId] else []) ++ if e.targetId = id then [e.sourceId] else []
  peers.dedup.insertionSort (· ≤ ·)

variable (env : Env)

def assembleHeadLineage (db : Db) (pit : Instant) (agentId : Option String) (peers : EntityId → List EntityId) (headId : EntityId) :
    Option (EntityId × HeadLineage) :=
  match getLineage env db headId .ancestors supersessionChainMaxDepth pit agentId with
  | .error _ => none
  | .ok ancestors =>
    let nodes := sortAncestorNodes (ancestors.nodes.filter (·.id != headId))
    if nodes.isEmpty then none
    else
      let recencyKept := nodes.take lineageHistoricalCap
      let recencyKeptIds := recencyKept.map (·.id)
      let forceIncluded := nodes.filter fun n => !recencyKeptIds.contains n.id && !(peers n.id).isEmpty
      let final := sortAncestorNodes (recencyKept ++ forceIncluded)
      some (headId, {
        currentId := headId
        currentTitle := (lineageNode db ancestors.entityId 0).title
        currentContradictedWith := peers headId
        historical := final.map fun n =>
          ⟨n.id, n.title, n.updatedAt, if recencyKeptIds.contains n.id then .recency else .contradictsForceInclude, peers n.id⟩
        historicalTruncated := decide (final.length < nodes.length)
        historicalDroppedCount := nodes.length - final.length })

def assembleLineage (db : Db) (expansion : ExpansionResult) (primaryHits : List PrimaryHit) (pit : Instant) (agentId : Option String) :
    List (EntityId × HeadLineage) :=
  let headCandidateIds := (primaryHits.map (·.id) ++ expansion.expansionCandidates.map (·.entityId)).dedup
  let peers := contradictionPeers (classifyContradictsComponents env db expansion.contradictsEdges pit)
  (headCandidateIds.insertionSort (· ≤ ·)).filterMap (assembleHeadLineage env db pit agentId peers)

end SaltMdb
