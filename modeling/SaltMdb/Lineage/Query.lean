import SaltMdb.Entity.Resolve
import SaltMdb.Relation.Vocabulary

/-! `get_lineage`: the recursive query over the lineage edges of a point in time, and the graph it returns. -/

namespace SaltMdb

inductive LineageDirection where
  | ancestors
  | descendants
deriving DecidableEq, Repr

/-- One row of the recursive query. -/
structure LineageRow where
  relation : Relation
  depth : Nat
  nextId : EntityId
  path : String
deriving DecidableEq, Repr

structure LineageNode where
  id : EntityId
  title : String
  status : String
  agentId : Option String
  updatedAt : Option Instant
  depth : Nat
deriving DecidableEq, Repr

structure LineageEdge where
  relationId : RelationId
  edge : Edge
  depth : Nat
  sourceTitle : String
  sourceStatus : String
  targetTitle : String
  targetStatus : String
deriving DecidableEq, Repr

structure LineageResult where
  entityId : EntityId
  direction : LineageDirection
  nodes : List LineageNode
  edges : List LineageEdge
  graphExhausted : Bool
  pointInTime : Instant
  maxDepth : Nat
deriving DecidableEq, Repr

/-- How far lineage is followed where no caller says. -/
def supersessionChainMaxDepth : Nat := 10

variable (env : Env)

/-! ### The recursive query -/

/-- The four timestamps against one instant. -/
def Relation.validIn (r : Relation) (t : Instant) : Bool :=
  r.validTo.all (datetime t < datetime ·) && r.validFrom.all (datetime · ≤ datetime t) &&
    r.invalidAt.all (datetime t < datetime ·) && r.validAt.all (datetime · ≤ datetime t)

/-- Without an agent nothing is hidden; with one, both ends have to be its own or shared. -/
def Relation.visibleTo (db : Db) (agentId : Option String) (r : Relation) : Bool :=
  match agentId with
  | none => true
  | some _ =>
    (db.entities.find r.sourceId).any (SaltMdb.visibleTo agentId) &&
      (db.entities.find r.targetId).any (SaltMdb.visibleTo agentId)

def LineageDirection.origin : LineageDirection → Relation → EntityId
  | .ancestors, r => r.sourceId
  | .descendants, r => r.targetId

def LineageDirection.reached : LineageDirection → Relation → EntityId
  | .ancestors, r => r.targetId
  | .descendants, r => r.sourceId

/-- The lineage edges that leave an id in the direction of the walk. -/
def lineageStep (db : Db) (direction : LineageDirection) (pit : Instant) (agentId : Option String) (id : EntityId) :
    List Relation :=
  db.relations.rows.filter fun r =>
    direction.origin r == id && isLineage r.predicate && r.validIn pit && r.visibleTo db agentId

def lineageSeeds (db : Db) (direction : LineageDirection) (pit : Instant) (agentId : Option String) (root : EntityId) :
    List LineageRow :=
  (lineageStep db direction pit agentId root).map fun r =>
    ⟨r, 1, direction.reached r, "|" ++ root ++ "|" ++ direction.reached r ++ "|"⟩

/-- The rows one hop further on, without the ids that the path already names. -/
def lineageHop (db : Db) (direction : LineageDirection) (pit : Instant) (agentId : Option String)
    (rows : List LineageRow) : List LineageRow :=
  rows.flatMap fun l =>
    ((lineageStep db direction pit agentId l.nextId).filter fun r =>
      !Text.contains l.path ("|" ++ direction.reached r ++ "|")).map fun r =>
        ⟨r, l.depth + 1, direction.reached r, l.path ++ direction.reached r ++ "|"⟩

/-- The recursion, level by level; `hops` are left before the depth limit. -/
def lineageWalk (db : Db) (direction : LineageDirection) (pit : Instant) (agentId : Option String) :
    Nat → List LineageRow → List LineageRow
  | 0, rows => rows
  | hops + 1, rows => rows ++ lineageWalk db direction pit agentId hops (lineageHop db direction pit agentId rows)

def lineageOrder (a b : LineageRow) : Bool := a.depth < b.depth || (a.depth == b.depth && a.relation.id ≤ b.relation.id)

/-- `_lineage_query` for a depth of at least one. -/
def lineageQuery (db : Db) (direction : LineageDirection) (root : EntityId) (maxDepth : Nat) (pit : Instant)
    (agentId : Option String) : List LineageRow :=
  (lineageWalk db direction pit agentId (maxDepth - 1) (lineageSeeds db direction pit agentId root)).mergeSort lineageOrder

/-! ### The graph -/

def lineageNode (db : Db) (id : EntityId) (depth : Nat) : LineageNode :=
  match db.entities.find id with
  | none => ⟨id, "Unknown", "unknown", none, none, depth⟩
  | some e => ⟨id, e.title, e.status.text, e.agentId, some e.updatedAt, depth⟩

structure LineageGraph where
  nodes : List LineageNode
  edges : List LineageEdge
  seen : List RelationId

/-- `nodes_by_id.setdefault(…)`. -/
def setDefault (nodes : List LineageNode) (n : LineageNode) : List LineageNode :=
  if nodes.any (·.id == n.id) then nodes else nodes ++ [n]

/-- `nodes_by_id[id] = …` where the known depth is larger. -/
def setShallower (nodes : List LineageNode) (n : LineageNode) : List LineageNode :=
  nodes.map fun old => if old.id == n.id && n.depth < old.depth then n else old

def LineageGraph.add (db : Db) (g : LineageGraph) (l : LineageRow) : LineageGraph :=
  if g.seen.contains l.relation.id then g
  else
    let r := l.relation
    let source := lineageNode db r.sourceId (if r.sourceId = l.nextId then l.depth else 0)
    let target := lineageNode db r.targetId (if r.targetId = l.nextId then l.depth else 0)
    { nodes := setShallower (setDefault (setDefault g.nodes source) target) (lineageNode db l.nextId l.depth)
      edges := g.edges ++ [⟨r.id, r.edge, l.depth, source.title, source.status, target.title, target.status⟩]
      seen := g.seen ++ [r.id] }

def lineageGraph (db : Db) (root : EntityId) (rows : List LineageRow) : LineageGraph :=
  rows.foldl (LineageGraph.add db) ⟨[lineageNode db root 0], [], []⟩

def nodeOrder (a b : LineageNode) : Bool := a.depth < b.depth || (a.depth == b.depth && decide (a.id ≤ b.id))

def lineageResult (root : EntityId) (direction : LineageDirection) (maxDepth : Nat) (pit : Instant) (g : LineageGraph) :
    LineageResult :=
  ⟨root, direction, g.nodes.mergeSort nodeOrder, g.edges,
    g.edges.isEmpty || decide ((g.edges.map (·.depth)).foldr max 0 < maxDepth), pit, maxDepth⟩

/-- `get_lineage` at an instant: the one asked for, or the current one. -/
def getLineage (db : Db) (entityId : String) (direction : LineageDirection) (maxDepth : Nat) (pit : Instant)
    (agentId : Option String) : Except String LineageResult :=
  if entityId = "" then .error "entity_id is mandatory"
  else match (resolveEntityRef env db entityId agentId).resolved with
    | none => .error ("Could not resolve entity '" ++ entityId ++ "'")
    | some root =>
      if maxDepth = 0 then .ok (lineageResult root direction 0 pit ⟨[lineageNode db root 0], [], []⟩)
      else .ok (lineageResult root direction maxDepth pit
        (lineageGraph db root (lineageQuery db direction root maxDepth pit agentId)))

/-- The answer shows a memory. -/
def Reaches (answer : Except String LineageResult) (id : EntityId) : Prop :=
  ∃ result, answer = .ok result ∧ ∃ n ∈ result.nodes, n.id = id

variable {env}

/-! ### What the walk shows -/

theorem lineageWalk_mem {db : Db} {direction : LineageDirection} {pit : Instant} {agentId : Option String} {hops : Nat}
    {rows : List LineageRow} {l : LineageRow} (member : l ∈ rows) :
    l ∈ lineageWalk db direction pit agentId hops rows := by
  cases hops with
  | zero => exact member
  | succ hops => exact List.mem_append_left _ member

theorem lineageNode_id (db : Db) (id : EntityId) (depth : Nat) : (lineageNode db id depth).id = id := by
  unfold lineageNode
  split <;> rfl

/-- The ids a graph shows. -/
def LineageGraph.Shows (g : LineageGraph) (id : EntityId) : Prop := ∃ n ∈ g.nodes, n.id = id

theorem setDefault_shows {nodes : List LineageNode} {n : LineageNode} {id : EntityId} :
    (∃ m ∈ setDefault nodes n, m.id = id) ↔ (∃ m ∈ nodes, m.id = id) ∨ id = n.id := by
  unfold setDefault
  split
  · rename_i known
    obtain ⟨m, member, same⟩ := List.any_eq_true.mp known
    rw [beq_iff_eq] at same
    refine ⟨Or.inl, fun either => either.elim (fun found => found) fun this => ?_⟩
    exact ⟨m, member, same.trans this.symm⟩
  · simp [or_and_right, exists_or, eq_comm]

theorem setShallower_ids (nodes : List LineageNode) (n : LineageNode) : (setShallower nodes n).map (·.id) = nodes.map (·.id) := by
  rw [setShallower, List.map_map]
  refine List.map_congr_left fun m _ => ?_
  simp only [Function.comp_apply]
  split
  · rename_i same
    simp only [Bool.and_eq_true, beq_iff_eq] at same
    exact same.1.symm
  · rfl

theorem setShallower_shows {nodes : List LineageNode} {n : LineageNode} {id : EntityId} :
    (∃ m ∈ setShallower nodes n, m.id = id) ↔ ∃ m ∈ nodes, m.id = id := by
  rw [← List.mem_map, setShallower_ids, List.mem_map]

theorem add_shows {db : Db} {g : LineageGraph} {l : LineageRow} {id : EntityId} (shown : g.Shows id) :
    (g.add db l).Shows id := by
  unfold LineageGraph.add
  split
  · exact shown
  · dsimp only [LineageGraph.Shows]
    rw [setShallower_shows, setDefault_shows, setDefault_shows]
    exact Or.inl (Or.inl shown)

/-- Both ends of every edge that was added are shown. -/
def LineageGraph.Complete (db : Db) (g : LineageGraph) : Prop :=
  ∀ r ∈ db.relations.rows, r.id ∈ g.seen → g.Shows r.sourceId ∧ g.Shows r.targetId

theorem add_complete {db : Db} {g : LineageGraph} {l : LineageRow} (complete : g.Complete db)
    (listed : l.relation ∈ db.relations.rows) :
    (g.add db l).Complete db ∧ l.relation.id ∈ (g.add db l).seen := by
  by_cases known : g.seen.contains l.relation.id = true
  · have same : g.add db l = g := by simp only [LineageGraph.add, known, if_true]
    rw [same]
    exact ⟨complete, by simpa using known⟩
  · have seen : (g.add db l).seen = g.seen ++ [l.relation.id] := by
      simp only [LineageGraph.add, known]
      rfl
    refine ⟨fun r member later => ?_, by simp [seen]⟩
    rw [seen, List.mem_append, List.mem_singleton] at later
    rcases later with old | new
    · obtain ⟨source, target⟩ := complete r member old
      exact ⟨add_shows source, add_shows target⟩
    · obtain rfl := RelationTable.id_unique member listed new
      have shows_ : ∀ id, id = l.relation.sourceId ∨ id = l.relation.targetId → (g.add db l).Shows id := by
        intro id either
        simp only [LineageGraph.add, known, LineageGraph.Shows]
        rw [if_neg (by simp)]
        rw [setShallower_shows, setDefault_shows, setDefault_shows, lineageNode_id, lineageNode_id]
        exact either.elim (fun source => Or.inl (Or.inr source)) Or.inr
      exact ⟨shows_ _ (Or.inl rfl), shows_ _ (Or.inr rfl)⟩

theorem foldl_shows {db : Db} {rows : List LineageRow} {g : LineageGraph} {l : LineageRow} (complete : g.Complete db)
    (listed : ∀ l ∈ rows, l.relation ∈ db.relations.rows)
    (wanted : l ∈ rows ∨ (l.relation ∈ db.relations.rows ∧ l.relation.id ∈ g.seen)) :
    (rows.foldl (LineageGraph.add db) g).Shows l.relation.sourceId ∧
      (rows.foldl (LineageGraph.add db) g).Shows l.relation.targetId := by
  induction rows generalizing g with
  | nil =>
    rcases wanted with none_ | ⟨member, seen⟩
    · exact absurd none_ List.not_mem_nil
    · exact complete l.relation member seen
  | cons head rest ih =>
    obtain ⟨complete', seenHead⟩ := add_complete complete (listed head List.mem_cons_self)
    refine ih complete' (fun l member => listed l (List.mem_cons_of_mem _ member)) ?_
    rcases wanted with member | ⟨member, seen⟩
    · rcases List.mem_cons.mp member with rfl | later
      · exact Or.inr ⟨listed l List.mem_cons_self, seenHead⟩
      · exact Or.inl later
    · refine Or.inr ⟨member, ?_⟩
      unfold LineageGraph.add
      split
      · exact seen
      · exact List.mem_append_left _ seen

theorem lineageStep_mem {db : Db} {direction : LineageDirection} {pit : Instant} {agentId : Option String} {id : EntityId}
    {r : Relation} : r ∈ lineageStep db direction pit agentId id ↔
      r ∈ db.relations.rows ∧ direction.origin r = id ∧ isLineage r.predicate = true ∧ r.validIn pit = true ∧
        r.visibleTo db agentId = true := by
  simp only [lineageStep, List.mem_filter, Bool.and_eq_true, beq_iff_eq, and_assoc]

theorem lineageWalk_listed {db : Db} {direction : LineageDirection} {pit : Instant} {agentId : Option String}
    {hops : Nat} {rows : List LineageRow} (listed : ∀ l ∈ rows, l.relation ∈ db.relations.rows) :
    ∀ l ∈ lineageWalk db direction pit agentId hops rows, l.relation ∈ db.relations.rows := by
  induction hops generalizing rows with
  | zero => exact listed
  | succ hops ih =>
    intro l member
    rcases List.mem_append.mp member with old | new
    · exact listed l old
    · refine ih (fun l member => ?_) l new
      obtain ⟨from_, _, hop⟩ := List.mem_flatMap.mp member
      obtain ⟨r, kept, rfl⟩ := List.mem_map.mp hop
      exact (lineageStep_mem.mp (List.mem_filter.mp kept).1).1

/-- A lineage edge that is valid at the instant is one hop: from either end the walk shows the other. -/
theorem getLineage_reaches {db : Db} {entityId : String} (direction : LineageDirection) {maxDepth : Nat} {pit : Instant}
    {agentId : Option String} {r : Relation} (listed : r ∈ db.relations.rows) (lineage : isLineage r.predicate = true)
    (valid : r.validIn pit = true) (visible : r.visibleTo db agentId = true) (deep : 1 ≤ maxDepth)
    (resolved : (resolveEntityRef env db entityId agentId).resolved = some (direction.origin r)) :
    Reaches (getLineage env db entityId direction maxDepth pit agentId) (direction.reached r) := by
  have named : entityId ≠ "" := by
    rintro rfl
    simp [resolveEntityRef] at resolved
  have deep : maxDepth ≠ 0 := Nat.one_le_iff_ne_zero.mp deep
  unfold getLineage
  rw [if_neg named, resolved]
  dsimp only
  rw [if_neg deep]
  refine ⟨_, rfl, ?_⟩
  have seeded : (⟨r, 1, direction.reached r, "|" ++ direction.origin r ++ "|" ++ direction.reached r ++ "|"⟩ : LineageRow) ∈
      lineageSeeds db direction pit agentId (direction.origin r) :=
    List.mem_map.mpr ⟨r, lineageStep_mem.mpr ⟨listed, rfl, lineage, valid, visible⟩, rfl⟩
  have seeds : ∀ l ∈ lineageSeeds db direction pit agentId (direction.origin r), l.relation ∈ db.relations.rows := by
    intro l member
    obtain ⟨r, step, rfl⟩ := List.mem_map.mp member
    exact (lineageStep_mem.mp step).1
  have asked : (⟨r, 1, direction.reached r, "|" ++ direction.origin r ++ "|" ++ direction.reached r ++ "|"⟩ : LineageRow) ∈
      lineageQuery db direction (direction.origin r) maxDepth pit agentId :=
    List.mem_mergeSort.mpr (lineageWalk_mem seeded)
  have rows : ∀ l ∈ lineageQuery db direction (direction.origin r) maxDepth pit agentId, l.relation ∈ db.relations.rows :=
    fun l member => lineageWalk_listed seeds l (List.mem_mergeSort.mp member)
  have empty : LineageGraph.Complete db ⟨[lineageNode db (direction.origin r) 0], [], []⟩ :=
    fun _ _ seen => absurd seen List.not_mem_nil
  obtain ⟨source, target⟩ := foldl_shows empty rows (Or.inl asked)
  have shown : (lineageGraph db (direction.origin r)
      (lineageQuery db direction (direction.origin r) maxDepth pit agentId)).Shows (direction.reached r) := by
    cases direction with
    | ancestors => exact target
    | descendants => exact source
  obtain ⟨n, member, same⟩ := shown
  exact ⟨n, List.mem_mergeSort.mpr member, same⟩

end SaltMdb
