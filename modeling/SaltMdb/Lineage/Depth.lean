import SaltMdb.Library.Climb
import SaltMdb.Lineage.Query

/-! The depth at which `get_lineage` lists a memory: the length of the shortest path to it. -/

namespace SaltMdb

/-- A path of lineage edges that never returns to an id, as the query tests it on the text of the path. -/
inductive Trail (db : Db) (direction : LineageDirection) (pit : Instant) (agentId : Option String) (root : EntityId) :
    Nat → EntityId → String → Prop
  | seed {r : Relation} (step : r ∈ lineageStep db direction pit agentId root) :
      Trail db direction pit agentId root 1 (direction.reached r) ("|" ++ root ++ "|" ++ direction.reached r ++ "|")
  | hop {k : Nat} {id : EntityId} {path : String} {r : Relation} (trail : Trail db direction pit agentId root k id path)
      (step : r ∈ lineageStep db direction pit agentId id)
      (unnamed : Text.contains path ("|" ++ direction.reached r ++ "|") = false) :
      Trail db direction pit agentId root (k + 1) (direction.reached r) (path ++ direction.reached r ++ "|")

variable {db : Db} {direction : LineageDirection} {pit : Instant} {agentId : Option String} {root : EntityId}

/-- The memory is at the end of a path of that many hops. -/
def HopsTo (db : Db) (direction : LineageDirection) (pit : Instant) (agentId : Option String) (root : EntityId) (k : Nat)
    (id : EntityId) : Prop := ∃ path, Trail db direction pit agentId root k id path

theorem HopsTo.pos {k : Nat} {id : EntityId} (hops : HopsTo db direction pit agentId root k id) : 1 ≤ k := by
  obtain ⟨path, trail⟩ := hops
  cases trail with
  | seed => exact Nat.le_refl 1
  | hop => exact Nat.le_add_left 1 _

/-- What an agent can walk can be walked without one. -/
theorem lineageStep_unscreened {id : EntityId} {r : Relation} (step : r ∈ lineageStep db direction pit agentId id) :
    r ∈ lineageStep db direction pit none id := by
  obtain ⟨listed, origin, lineage, valid, _⟩ := lineageStep_mem.mp step
  exact lineageStep_mem.mpr ⟨listed, origin, lineage, valid, rfl⟩

theorem Trail.unscreened {k : Nat} {id : EntityId} {path : String} (trail : Trail db direction pit agentId root k id path) :
    Trail db direction pit none root k id path := by
  induction trail with
  | seed step => exact .seed (lineageStep_unscreened step)
  | hop _ step unnamed ih => exact .hop ih (lineageStep_unscreened step) unnamed

/-! ### The rows of the query, level by level -/

def lineageLevel (db : Db) (direction : LineageDirection) (pit : Instant) (agentId : Option String) (root : EntityId) (k : Nat) :
    List LineageRow :=
  (lineageHop db direction pit agentId)^[k] (lineageSeeds db direction pit agentId root)

theorem lineageLevel_succ (k : Nat) : lineageLevel db direction pit agentId root (k + 1) =
    lineageHop db direction pit agentId (lineageLevel db direction pit agentId root k) :=
  Function.iterate_succ_apply' _ _ _

theorem mem_lineageWalk {hops : Nat} {rows : List LineageRow} {l : LineageRow} :
    l ∈ lineageWalk db direction pit agentId hops rows ↔ ∃ k ≤ hops, l ∈ (lineageHop db direction pit agentId)^[k] rows :=
  Climb.mem_levels (fun _ => rfl) fun _ _ => rfl

theorem mem_lineageQuery {maxDepth : Nat} (deep : 1 ≤ maxDepth) {l : LineageRow} :
    l ∈ lineageQuery db direction root maxDepth pit agentId ↔ ∃ k < maxDepth, l ∈ lineageLevel db direction pit agentId root k := by
  rw [lineageQuery, List.mem_mergeSort, mem_lineageWalk]
  exact exists_congr fun k => and_congr_left fun _ => by omega

/-- What a row of a level says of the path it ends. -/
structure LevelRow (db : Db) (direction : LineageDirection) (pit : Instant) (agentId : Option String) (root : EntityId) (k : Nat)
    (l : LineageRow) : Prop where
  depth : l.depth = k + 1
  listed : l.relation ∈ db.relations.rows
  next : l.nextId = direction.reached l.relation
  trail : Trail db direction pit agentId root (k + 1) l.nextId l.path
  from_ : direction.origin l.relation = root ∨
    ∃ j p, k = j + 1 ∧ p ∈ lineageLevel db direction pit agentId root j ∧ p.nextId = direction.origin l.relation

theorem lineageLevel_row {k : Nat} {l : LineageRow} (member : l ∈ lineageLevel db direction pit agentId root k) :
    LevelRow db direction pit agentId root k l := by
  induction k generalizing l with
  | zero =>
    obtain ⟨r, step, rfl⟩ := List.mem_map.mp member
    obtain ⟨listed, origin, _⟩ := lineageStep_mem.mp step
    exact ⟨rfl, listed, rfl, .seed step, .inl origin⟩
  | succ k ih =>
    rw [lineageLevel_succ] at member
    obtain ⟨p, before, member⟩ := List.mem_flatMap.mp member
    obtain ⟨r, kept, rfl⟩ := List.mem_map.mp member
    obtain ⟨step, unnamed⟩ := List.mem_filter.mp kept
    obtain ⟨listed, origin, _⟩ := lineageStep_mem.mp step
    have parent := ih before
    refine ⟨congrArg (· + 1) parent.depth, listed, rfl, .hop parent.trail step ?_, .inr ⟨k, p, rfl, before, origin.symm⟩⟩
    simpa using unnamed

theorem Trail.level {k : Nat} {id : EntityId} {path : String} (trail : Trail db direction pit agentId root k id path) :
    ∃ j l, k = j + 1 ∧ l ∈ lineageLevel db direction pit agentId root j ∧ l.nextId = id ∧ l.path = path := by
  induction trail with
  | seed step => exact ⟨0, _, rfl, List.mem_map_of_mem step, rfl, rfl⟩
  | @hop k id path r _ step unnamed ih =>
    obtain ⟨j, l, rfl, member, rfl, rfl⟩ := ih
    refine ⟨j + 1, ⟨r, l.depth + 1, direction.reached r, l.path ++ direction.reached r ++ "|"⟩, rfl, ?_, rfl, rfl⟩
    rw [lineageLevel_succ]
    refine List.mem_flatMap.mpr ⟨l, member, List.mem_map_of_mem (List.mem_filter.mpr ⟨step, ?_⟩)⟩
    simpa using unnamed

theorem hopsTo_iff {k : Nat} {id : EntityId} : HopsTo db direction pit agentId root k id ↔
    ∃ j, k = j + 1 ∧ ∃ l ∈ lineageLevel db direction pit agentId root j, l.nextId = id := by
  constructor
  · rintro ⟨path, trail⟩
    obtain ⟨j, l, same, member, next, _⟩ := trail.level
    exact ⟨j, same, l, member, next⟩
  · rintro ⟨j, rfl, l, member, rfl⟩
    exact ⟨l.path, (lineageLevel_row member).trail⟩

/-! ### The nodes of the graph -/

/-- The depth of the first row that reaches the id. -/
def firstDepth (rows : List LineageRow) (id : EntityId) : Option Nat := (rows.find? (·.nextId == id)).map (·.depth)

/-- The graph after the rows: the root, and each id that was reached at the depth of its first row. -/
structure LineageGraph.Tracks (root : EntityId) (rows : List LineageRow) (g : LineageGraph) : Prop where
  nodes : ∀ id depth, (∃ n ∈ g.nodes, n.id = id ∧ n.depth = depth) ↔
    id = root ∧ depth = 0 ∨ id ≠ root ∧ firstDepth rows id = some depth
  seen : ∀ relationId, relationId ∈ g.seen ↔ ∃ l ∈ rows, l.relation.id = relationId

theorem firstDepth_append {rows : List LineageRow} {l : LineageRow} {id : EntityId} : firstDepth (rows ++ [l]) id =
    (firstDepth rows id).or (if l.nextId = id then some l.depth else none) := by
  unfold firstDepth
  rw [List.find?_append, Option.map_or]
  congr 1
  by_cases same : l.nextId = id
  · simp [same]
  · simp [same]

theorem firstDepth_none {rows : List LineageRow} {id : EntityId} : firstDepth rows id = none ↔ ∀ l ∈ rows, l.nextId ≠ id := by
  simp [firstDepth]

theorem tracks_start : LineageGraph.Tracks root [] ⟨[lineageNode db root 0], [], []⟩ where
  nodes := by
    intro id depth
    have shown : lineageNode db root 0 = lineageNode db root 0 ∧ (lineageNode db root 0).id = root ∧ (lineageNode db root 0).depth = 0 := by
      refine ⟨rfl, lineageNode_id _ _ _, ?_⟩
      unfold lineageNode
      split <;> rfl
    simp [shown.2.1, shown.2.2, firstDepth, eq_comm]
  seen := by simp

theorem lineageNode_depth (db : Db) (id : EntityId) (depth : Nat) : (lineageNode db id depth).depth = depth := by
  unfold lineageNode
  split <;> rfl

theorem setDefault_known {nodes : List LineageNode} {n m : LineageNode} (member : m ∈ nodes) (same : m.id = n.id) :
    setDefault nodes n = nodes := by
  unfold setDefault
  exact if_pos (List.any_eq_true.mpr ⟨m, member, by simp [same]⟩)

theorem setShallower_known {nodes : List LineageNode} {n : LineageNode}
    (shallow : ∀ m ∈ nodes, m.id = n.id → m.depth ≤ n.depth) : setShallower nodes n = nodes := by
  unfold setShallower
  have kept : ∀ m ∈ nodes, (if m.id == n.id && decide (n.depth < m.depth) then n else m) = m := by
    intro m member
    refine if_neg fun deeper => ?_
    simp only [Bool.and_eq_true, beq_iff_eq, decide_eq_true_eq] at deeper
    exact absurd deeper.2 (Nat.not_lt.mpr (shallow m member deeper.1))
  exact (List.map_congr_left kept).trans (List.map_id _)

/-- A row adds the id that it reaches, unless an earlier row did. -/
theorem LineageGraph.Tracks.add {rows : List LineageRow} {g : LineageGraph} (tracks : g.Tracks root rows) {l : LineageRow}
    (listed : l.relation ∈ db.relations.rows) (next : l.nextId = direction.reached l.relation)
    (before : ∀ p ∈ rows, p.relation ∈ db.relations.rows ∧ p.nextId = direction.reached p.relation ∧ p.depth ≤ l.depth)
    (from_ : direction.origin l.relation = root ∨ ∃ p ∈ rows, p.nextId = direction.origin l.relation) :
    (g.add db l).Tracks root (rows ++ [l]) := by
  have bounded : ∀ m ∈ g.nodes, m.depth ≤ l.depth := by
    intro m member
    rcases (tracks.nodes m.id m.depth).mp ⟨m, member, rfl, rfl⟩ with ⟨_, zero⟩ | ⟨_, first⟩
    · rw [zero]
      exact Nat.zero_le _
    · obtain ⟨q, found, same⟩ := Option.map_eq_some_iff.mp first
      rw [← same]
      exact (before q (List.mem_of_find?_eq_some found)).2.2
  have shown : ∀ id, (∃ m ∈ g.nodes, m.id = id) ↔ id = root ∨ ∃ p ∈ rows, p.nextId = id := by
    intro id
    constructor
    · rintro ⟨m, member, rfl⟩
      rcases (tracks.nodes m.id m.depth).mp ⟨m, member, rfl, rfl⟩ with ⟨same, _⟩ | ⟨_, first⟩
      · exact .inl same
      · obtain ⟨q, found, _⟩ := Option.map_eq_some_iff.mp first
        exact .inr ⟨q, List.mem_of_find?_eq_some found, by simpa using List.find?_some found⟩
    · intro either
      by_cases same : id = root
      · obtain ⟨m, member, named, _⟩ := (tracks.nodes id 0).mpr (.inl ⟨same, rfl⟩)
        exact ⟨m, member, named⟩
      · obtain ⟨p, here, reaches⟩ := either.resolve_left same
        cases first : firstDepth rows id with
        | none => exact absurd reaches (firstDepth_none.mp first p here)
        | some depth =>
          obtain ⟨m, member, named, _⟩ := (tracks.nodes id depth).mpr (.inr ⟨same, first⟩)
          exact ⟨m, member, named⟩
  by_cases seen : g.seen.contains l.relation.id = true
  · have same : g.add db l = g := by simp only [LineageGraph.add, seen, if_true]
    obtain ⟨p, here, sameId⟩ := (tracks.seen _).mp (by simpa using seen)
    obtain ⟨listedP, nextP, _⟩ := before p here
    have relation : p.relation = l.relation := RelationTable.id_unique listedP listed sameId
    rw [same]
    constructor
    · intro id depth
      rw [tracks.nodes, firstDepth_append]
      refine or_congr_right (and_congr_right fun _ => ?_)
      cases first : firstDepth rows id with
      | some known => simp
      | none =>
        have apart := firstDepth_none.mp first p here
        rw [nextP, relation, ← next] at apart
        simp [apart]
    · intro relationId
      rw [tracks.seen]
      simp only [List.mem_append, List.mem_singleton, or_and_right, exists_or, exists_eq_left]
      refine ⟨.inl, fun either => either.elim (fun found => found) ?_⟩
      rintro rfl
      exact ⟨p, here, sameId⟩
  · obtain ⟨o, memberO, namedO⟩ := (shown _).mpr from_
    have reached : (lineageNode db l.nextId l.depth).id = l.nextId := lineageNode_id _ _ _
    have grown : ∀ m ∈ setDefault g.nodes (lineageNode db l.nextId l.depth), m.depth ≤ l.depth := by
      intro m member
      unfold setDefault at member
      split at member
      · exact bounded m member
      · rcases List.mem_append.mp member with old | new
        · exact bounded m old
        · rw [List.mem_singleton.mp new, lineageNode_depth]
    have nodes : (g.add db l).nodes = setDefault g.nodes (lineageNode db l.nextId l.depth) := by
      unfold LineageGraph.add
      rw [if_neg seen]
      dsimp only
      have ends : setDefault (setDefault g.nodes (lineageNode db l.relation.sourceId (if l.relation.sourceId = l.nextId then l.depth else 0)))
          (lineageNode db l.relation.targetId (if l.relation.targetId = l.nextId then l.depth else 0)) =
            setDefault g.nodes (lineageNode db l.nextId l.depth) := by
        cases direction with
        | ancestors =>
          have target : l.relation.targetId = l.nextId := next.symm
          rw [setDefault_known memberO (by rw [lineageNode_id]; exact namedO), if_pos target, target]
        | descendants =>
          have source : l.relation.sourceId = l.nextId := next.symm
          rw [if_pos source, source]
          have still : o ∈ setDefault g.nodes (lineageNode db l.nextId l.depth) := by
            unfold setDefault
            split
            · exact memberO
            · exact List.mem_append_left _ memberO
          rw [setDefault_known still (by rw [lineageNode_id]; exact namedO)]
      rw [ends]
      exact setShallower_known fun m member _ => by rw [lineageNode_depth]; exact grown m member
    constructor
    · intro id depth
      rw [nodes, firstDepth_append]
      by_cases known : l.nextId = root ∨ ∃ p ∈ rows, p.nextId = l.nextId
      · obtain ⟨m, member, named⟩ := (shown _).mpr known
        rw [setDefault_known member (named.trans reached.symm), tracks.nodes]
        refine or_congr_right (and_congr_right fun other => ?_)
        by_cases same : l.nextId = id
        · subst same
          obtain ⟨p, here, reaches⟩ := known.resolve_left other
          cases first : firstDepth rows l.nextId with
          | none => exact absurd reaches (firstDepth_none.mp first p here)
          | some depth => rfl
        · rw [if_neg same, Option.or_none]
      · obtain ⟨notRoot, fresh⟩ := not_or.mp known
        have absent : ¬ g.nodes.any (·.id == (lineageNode db l.nextId l.depth).id) = true := by
          rw [reached]
          intro found
          obtain ⟨m, member, named⟩ := List.any_eq_true.mp found
          exact known ((shown _).mp ⟨m, member, by simpa using named⟩)
        have first : firstDepth rows l.nextId = none := firstDepth_none.mpr fun p here reaches => fresh ⟨p, here, reaches⟩
        unfold setDefault
        rw [if_neg absent]
        have split_ : (∃ n ∈ g.nodes ++ [lineageNode db l.nextId l.depth], n.id = id ∧ n.depth = depth) ↔
            (∃ n ∈ g.nodes, n.id = id ∧ n.depth = depth) ∨ l.nextId = id ∧ l.depth = depth := by
          simp only [List.mem_append, List.mem_singleton, or_and_right, exists_or, exists_eq_left, lineageNode_id, lineageNode_depth]
        rw [split_, tracks.nodes]
        by_cases same : l.nextId = id
        · subst same
          simp [notRoot, first]
        · simp [same]
    · intro relationId
      unfold LineageGraph.add
      rw [if_neg seen]
      dsimp only
      rw [List.mem_append, tracks.seen, List.mem_singleton, @eq_comm _ relationId]
      simp only [List.mem_append, List.mem_singleton, or_and_right, exists_or, exists_eq_left]

theorem lineageQuery_sorted {maxDepth : Nat} :
    (lineageQuery db direction root maxDepth pit agentId).Pairwise fun a b => a.depth ≤ b.depth := by
  have ordered : (lineageQuery db direction root maxDepth pit agentId).Pairwise fun a b => lineageOrder a b = true := by
    refine List.pairwise_mergeSort ?_ ?_ _
    · intro a b c ab bc
      simp only [lineageOrder, Bool.or_eq_true, Bool.and_eq_true, decide_eq_true_eq, beq_iff_eq] at ab bc ⊢
      rcases ab with shallower | ⟨level, first⟩
      · exact .inl (by omega)
      · rcases bc with shallower | ⟨level', second⟩
        · exact .inl (by omega)
        · exact .inr ⟨by omega, Nat.le_trans first second⟩
    · intro a b
      simp only [lineageOrder, Bool.or_eq_true, Bool.and_eq_true, decide_eq_true_eq, beq_iff_eq]
      rcases Nat.lt_trichotomy a.depth b.depth with shallower | level | deeper
      · exact .inl (.inl shallower)
      · exact (Nat.le_total a.relation.id b.relation.id).imp (fun first => .inr ⟨level, first⟩) fun second => .inr ⟨level.symm, second⟩
      · exact .inr (.inl deeper)
  refine ordered.imp fun {a b} order => ?_
  simp only [lineageOrder, Bool.or_eq_true, Bool.and_eq_true, decide_eq_true_eq, beq_iff_eq] at order
  omega

theorem lineageGraph_tracks {maxDepth : Nat} (deep : 1 ≤ maxDepth) :
    (lineageGraph db root (lineageQuery db direction root maxDepth pit agentId)).Tracks root
      (lineageQuery db direction root maxDepth pit agentId) := by
  have sorted : (lineageQuery db direction root maxDepth pit agentId).Pairwise fun a b => a.depth ≤ b.depth := lineageQuery_sorted
  have mem : ∀ l, l ∈ lineageQuery db direction root maxDepth pit agentId ↔ ∃ k < maxDepth, l ∈ lineageLevel db direction pit agentId root k :=
    fun l => mem_lineageQuery deep
  unfold lineageGraph
  generalize lineageQuery db direction root maxDepth pit agentId = rows at sorted mem
  have fold : ∀ post pre g, pre ++ post = rows → LineageGraph.Tracks root pre g →
      (post.foldl (LineageGraph.add db) g).Tracks root rows := by
    intro post
    induction post with
    | nil =>
      intro pre g split_ tracks
      rw [List.append_nil] at split_
      exact split_ ▸ tracks
    | cons l rest ih =>
      intro pre g split_ tracks
      subst split_
      obtain ⟨k, bound, level⟩ := (mem l).mp (List.mem_append_right _ List.mem_cons_self)
      have row := lineageLevel_row level
      obtain ⟨_, after, across⟩ := List.pairwise_append.mp sorted
      refine ih (pre ++ [l]) _ (by simp) (tracks.add row.listed row.next (fun p here => ?_) ?_)
      · obtain ⟨j, _, levelP⟩ := (mem p).mp (List.mem_append_left _ here)
        have rowP := lineageLevel_row levelP
        exact ⟨rowP.listed, rowP.next, across p here l List.mem_cons_self⟩
      · refine row.from_.imp_right ?_
        rintro ⟨j, p, rfl, levelP, origin⟩
        refine ⟨p, ?_, origin⟩
        have listed := (mem p).mpr ⟨j, by omega, levelP⟩
        rcases List.mem_append.mp listed with here | later
        · exact here
        · exfalso
          have deeper : l.depth ≤ p.depth := by
            rcases List.mem_cons.mp later with rfl | later
            · exact Nat.le_refl _
            · exact (List.pairwise_cons.mp after).1 p later
          rw [row.depth, (lineageLevel_row levelP).depth] at deeper
          omega
  exact fold rows [] _ rfl tracks_start

/-- The first row for an id is the least deep of its rows. -/
theorem firstDepth_le {rows : List LineageRow} (sorted : rows.Pairwise fun a b => a.depth ≤ b.depth) {l : LineageRow}
    (member : l ∈ rows) : ∃ depth ≤ l.depth, firstDepth rows l.nextId = some depth := by
  induction rows with
  | nil => simp at member
  | cons head rest ih =>
    obtain ⟨least, sorted⟩ := List.pairwise_cons.mp sorted
    unfold firstDepth
    by_cases same : head.nextId = l.nextId
    · rw [List.find?_cons_of_pos (by simpa using same)]
      refine ⟨head.depth, ?_, rfl⟩
      rcases List.mem_cons.mp member with rfl | later
      · exact Nat.le_refl _
      · exact least l later
    · rw [List.find?_cons_of_neg (by simpa using same)]
      rcases List.mem_cons.mp member with rfl | later
      · exact absurd rfl same
      · exact ih sorted later

/-- The shortest path to the memory has that many hops, and they are within the bound. -/
structure Shortest (db : Db) (direction : LineageDirection) (pit : Instant) (agentId : Option String) (root : EntityId)
    (maxDepth : Nat) (id : EntityId) (depth : Nat) : Prop where
  within : depth ≤ maxDepth
  reached : HopsTo db direction pit agentId root depth id
  least : ∀ k, HopsTo db direction pit agentId root k id → depth ≤ k

theorem firstDepth_nearest {maxDepth : Nat} (deep : 1 ≤ maxDepth) {id : EntityId} {depth : Nat} :
    firstDepth (lineageQuery db direction root maxDepth pit agentId) id = some depth ↔
      Shortest db direction pit agentId root maxDepth id depth := by
  have row : ∀ {k : Nat}, HopsTo db direction pit agentId root k id → k ≤ maxDepth →
      ∃ found ≤ k, firstDepth (lineageQuery db direction root maxDepth pit agentId) id = some found := by
    intro k hops bound
    obtain ⟨j, rfl, l, level, rfl⟩ := hopsTo_iff.mp hops
    obtain ⟨found, below, first⟩ := firstDepth_le lineageQuery_sorted ((mem_lineageQuery deep).mpr ⟨j, by omega, level⟩)
    rw [(lineageLevel_row level).depth] at below
    exact ⟨found, below, first⟩
  have hops : ∀ {found : Nat}, firstDepth (lineageQuery db direction root maxDepth pit agentId) id = some found →
      found ≤ maxDepth ∧ HopsTo db direction pit agentId root found id := by
    intro found first
    obtain ⟨l, here, rfl⟩ := Option.map_eq_some_iff.mp first
    obtain ⟨k, bound, level⟩ := (mem_lineageQuery deep).mp (List.mem_of_find?_eq_some here)
    have next : l.nextId = id := by simpa using List.find?_some here
    rw [(lineageLevel_row level).depth]
    exact ⟨bound, hopsTo_iff.mpr ⟨k, rfl, l, level, next⟩⟩
  constructor
  · intro first
    obtain ⟨within, reached⟩ := hops first
    refine ⟨within, reached, fun k other => ?_⟩
    by_cases bound : k ≤ maxDepth
    · obtain ⟨found, below, again⟩ := row other bound
      rw [first] at again
      rw [Option.some.inj again]
      exact below
    · omega
  · rintro ⟨within, reached, least⟩
    obtain ⟨found, below, first⟩ := row reached within
    have above := least found (hops first).2
    rw [first, Nat.le_antisymm below above]

/-- The memories that an answer shows and their depths: the root, and what the paths within the bound reach. -/
theorem lineageResult_nodes {maxDepth : Nat} (deep : 1 ≤ maxDepth) {id : EntityId} {depth : Nat} :
    (∃ n ∈ (lineageResult root direction maxDepth pit
        (lineageGraph db root (lineageQuery db direction root maxDepth pit agentId))).nodes, n.id = id ∧ n.depth = depth) ↔
      id = root ∧ depth = 0 ∨ id ≠ root ∧ Shortest db direction pit agentId root maxDepth id depth := by
  rw [← firstDepth_nearest deep, ← (lineageGraph_tracks deep).nodes]
  unfold lineageResult
  simp only [List.mem_mergeSort]

end SaltMdb
