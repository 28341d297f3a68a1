import Mathlib.Data.List.Sort
import SaltMdb.Library.Arrivals
import SaltMdb.Lineage.Query

/-! `analyze_dependencies`: the recursive query over the valid edges, guarded by the text of its path, and the graph it
returns. -/

namespace SaltMdb

/-! ### `LIKE` -/

/-- SQLite folds the letters of ASCII alone. -/
def asciiFold (c : Char) : Char := if 'A' ≤ c ∧ c ≤ 'Z' then Char.ofNat (c.toNat + 32) else c

/-- `text LIKE pattern`. -/
def likeChars : List Char → List Char → Bool
  | [], text => text.isEmpty
  | p :: pattern, text =>
    if p = '%' then text.tails.any (likeChars pattern)
    else match text with
      | [] => false
      | c :: text => (p == '_' || asciiFold p == asciiFold c) && likeChars pattern text

/-- `path LIKE '%' || id || '%'`. -/
def pathMatches (path id : String) : Bool := likeChars ('%' :: id.toList ++ ['%']) path.toList

/-! ### The recursive query -/

inductive WalkDirection where
  | outbound
  | inbound
deriving DecidableEq, Repr

inductive DependencyDirection where
  | outbound
  | inbound
  | both
deriving DecidableEq, Repr

def DependencyDirection.walks : DependencyDirection → List WalkDirection
  | .outbound => [.outbound]
  | .inbound => [.inbound]
  | .both => [.outbound, .inbound]

structure DependencyRow where
  relation : Relation
  depth : Nat
  path : String
deriving DecidableEq, Repr

def WalkDirection.origin : WalkDirection → Relation → EntityId
  | .outbound, r => r.sourceId
  | .inbound, r => r.targetId

/-- `newly_reached`. -/
def WalkDirection.reached : WalkDirection → Relation → EntityId
  | .outbound, r => r.targetId
  | .inbound, r => r.sourceId

/-- The path of a first row starts at the source of its edge, whichever way the walk goes. -/
def WalkDirection.seedPath (direction : WalkDirection) (r : Relation) : String := r.sourceId ++ "->" ++ direction.reached r

def dependencyStep (db : Db) (direction : WalkDirection) (pit : Instant) (agentId : Option String) (id : EntityId) : List Relation :=
  db.relations.rows.filter fun r => direction.origin r == id && r.validIn pit && r.visibleTo db agentId

def dependencySeeds (db : Db) (direction : WalkDirection) (pit : Instant) (agentId : Option String) (root : EntityId) :
    List DependencyRow :=
  (dependencyStep db direction pit agentId root).map fun r => ⟨r, 1, direction.seedPath r⟩

def dependencyHop (db : Db) (direction : WalkDirection) (pit : Instant) (agentId : Option String) (rows : List DependencyRow) :
    List DependencyRow :=
  rows.flatMap fun dt =>
    ((dependencyStep db direction pit agentId (direction.reached dt.relation)).filter fun r =>
      !pathMatches dt.path (direction.reached r)).map fun r => ⟨r, dt.depth + 1, dt.path ++ "->" ++ direction.reached r⟩

/-- The recursion, level by level; `hops` are left before the depth limit. -/
def dependencyWalk (db : Db) (direction : WalkDirection) (pit : Instant) (agentId : Option String) :
    Nat → List DependencyRow → List DependencyRow
  | 0, rows => rows
  | hops + 1, rows => rows ++ dependencyWalk db direction pit agentId hops (dependencyHop db direction pit agentId rows)

/-- A row that was joined with the titles of both its ends. -/
structure DependencyHit where
  direction : WalkDirection
  row : DependencyRow
  sourceTitle : String
  targetTitle : String
deriving DecidableEq, Repr

/-- The query of `_dependency_cte_sql`. The first rows are there at every depth limit. -/
def dependencyQuery (db : Db) (direction : WalkDirection) (root : EntityId) (pit : Instant) (maxDepth : Nat) (agentId : Option String) :
    List DependencyHit :=
  ((dependencyWalk db direction pit agentId (maxDepth - 1) (dependencySeeds db direction pit agentId root)).filterMap fun dt => do
    let source ← db.entities.find dt.relation.sourceId
    let target ← db.entities.find dt.relation.targetId
    pure ⟨direction, dt, source.title, target.title⟩).insertionSort fun a b => a.row.depth ≤ b.row.depth

def fetchDependencyRows (db : Db) (direction : DependencyDirection) (root : EntityId) (pit : Instant) (maxDepth : Nat)
    (agentId : Option String) : List DependencyHit :=
  direction.walks.flatMap fun walk => dependencyQuery db walk root pit maxDepth agentId

/-! ### The graph -/

structure DependencyNode where
  id : EntityId
  title : String
  depth : Nat
deriving DecidableEq, Repr

structure DependencyEdge where
  relationId : RelationId
  sourceId : EntityId
  sourceTitle : String
  targetId : EntityId
  targetTitle : String
  predicate : String
  depth : Nat
deriving DecidableEq, Repr

structure DependencyRoot where
  id : EntityId
  title : String
  status : String
deriving DecidableEq, Repr

structure DependencyResult where
  root : DependencyRoot
  totalDependenciesFound : Nat
  graphExhausted : Bool
  dependencies : List DependencyNode
  edges : List DependencyEdge
  pointInTime : Instant
deriving DecidableEq, Repr

structure DependencyGraph where
  nodes : List DependencyNode
  edges : List DependencyEdge

def DependencyHit.node (hit : DependencyHit) : DependencyNode :=
  ⟨hit.direction.reached hit.row.relation,
    match hit.direction with
    | .outbound => hit.targetTitle
    | .inbound => hit.sourceTitle, hit.row.depth⟩

def DependencyHit.edge (hit : DependencyHit) : DependencyEdge :=
  ⟨hit.row.relation.id, hit.row.relation.sourceId, hit.sourceTitle, hit.row.relation.targetId, hit.targetTitle,
    hit.row.relation.predicate, hit.row.depth⟩

/-- What was seen is what the nodes and the edges name. -/
def DependencyGraph.addRow (g : DependencyGraph) (hit : DependencyHit) : DependencyGraph where
  nodes := Arrivals.arrive (·.id) g.nodes hit.node
  edges := Arrivals.arrive (·.relationId) g.edges hit.edge

def DependencyGraph.addRows (g : DependencyGraph) (hits : List DependencyHit) : DependencyGraph :=
  (hits.insertionSort fun a b => a.row.depth ≤ b.row.depth).foldl DependencyGraph.addRow g

def DependencyGraph.result (g : DependencyGraph) (root : DependencyRoot) (maxDepth : Nat) (pit : Instant) : DependencyResult where
  root := root
  totalDependenciesFound := g.edges.length
  graphExhausted := g.edges.isEmpty || decide ((g.edges.map (·.depth)).foldr max 0 < maxDepth)
  dependencies := g.nodes
  edges := g.edges
  pointInTime := pit

def dependencyRoot (rootId : EntityId) : Option Entity → DependencyRoot
  | some e => ⟨e.id, e.title, e.status.text⟩
  | none => ⟨rootId, "Root", "raw"⟩

variable (env : Env)

def analyzeDependencies (db : Db) (rootEntityId : String) (maxDepth : Nat) (pit : Instant) (direction : DependencyDirection)
    (agentId : Option String) : Except String DependencyResult :=
  if rootEntityId = "" then .error "root_entity_id is mandatory"
  else match (resolveEntityRef env db rootEntityId agentId).resolved with
    | none => .error ("Could not resolve entity '" ++ rootEntityId ++ "'")
    | some rootId =>
      let rootRow := (db.entities.find rootId).filter (visibleTo agentId)
      if rootRow.isNone && agentId.isSome then .error ("Could not resolve entity '" ++ rootEntityId ++ "'")
      else
        let root := dependencyRoot rootId rootRow
        let start : DependencyGraph := ⟨[⟨rootId, root.title, 0⟩], []⟩
        .ok ((start.addRows (fetchDependencyRows db direction rootId pit maxDepth agentId)).result root maxDepth pit)

end SaltMdb
