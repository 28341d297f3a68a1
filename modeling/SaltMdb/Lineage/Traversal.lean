import SaltMdb.Library.Separated
import SaltMdb.Library.Walks
import SaltMdb.Lineage.Depth
import SaltMdb.Relation.Reachable

/-! What `get_lineage` lists against what the lineage edges reach, over ids without the delimiter of the paths. -/

namespace SaltMdb
open Walks

variable {env : Env} {db : Db} {direction : LineageDirection} {pit : Instant} {agentId : Option String} {root : EntityId}

/-! ### The text of a path -/

/-- The delimiter of the paths is in no id. -/
structure Db.Barless (db : Db) : Prop where
  entities : ∀ e ∈ db.entities.rows, '|' ∉ e.id.toList
  sources : ∀ r ∈ db.relations.rows, '|' ∉ r.sourceId.toList
  targets : ∀ r ∈ db.relations.rows, '|' ∉ r.targetId.toList

theorem Db.Barless.reached (barless : db.Barless) {r : Relation} (listed : r ∈ db.relations.rows) :
    '|' ∉ (direction.reached r).toList := by
  cases direction with
  | ancestors => exact barless.targets r listed
  | descendants => exact barless.sources r listed

/-- The ids of a path, each between bars. -/
def pathChars (ids : List EntityId) : List Char := '|' :: ids.flatMap fun id => id.toList ++ ['|']

theorem pathChars_concat (ids : List EntityId) (id : EntityId) : pathChars (ids ++ [id]) = pathChars ids ++ (id.toList ++ ['|']) := by
  simp [pathChars]

/-- A path with a text that names it, in ids without bars. -/
structure Written (path : String) (ids : List EntityId) : Prop where
  text : path.toList = pathChars ids
  barless : ∀ id ∈ ids, '|' ∉ id.toList

theorem Written.concat {path : String} {ids : List EntityId} (written : Written path ids) {id : EntityId} (bare : '|' ∉ id.toList) :
    Written (path ++ id ++ "|") (ids ++ [id]) where
  text := by
    rw [pathChars_concat, ← written.text]
    simp
  barless := by
    intro x member
    rcases List.mem_append.mp member with old | new
    · exact written.barless x old
    · exact List.mem_singleton.mp new ▸ bare

theorem written_two {x y : EntityId} (first : '|' ∉ x.toList) (second : '|' ∉ y.toList) : Written ("|" ++ x ++ "|" ++ y ++ "|") [x, y] where
  text := by simp [pathChars]
  barless := by simp [first, second]

/-- An id is named in the text of a path exactly where it is on the path. -/
theorem Written.contains_iff {path : String} {ids : List EntityId} (written : Written path ids) {id : EntityId} (bare : '|' ∉ id.toList) :
    Text.contains path ("|" ++ id ++ "|") = true ↔ id ∈ ids := by
  have barred : ("|" ++ id ++ "|").toList = '|' :: (id.toList ++ ['|']) := by simp
  have lines : pathChars ids = '|' :: ids.attach.flatMap fun a => a.1.toList ++ ['|'] := by
    rw [pathChars, ← List.attach_map_subtype_val ids, List.flatMap_map, List.attach_map_subtype_val]
  rw [Text.contains, decide_eq_true_iff, barred, written.text, lines,
    @Separated.infix_lines_iff {a // a ∈ ids} Char (fun a => a.1.toList) '|' (fun a => written.barless a.1 a.2) _ bare]
  constructor
  · rintro ⟨⟨a, member⟩, _, same⟩
    exact String.toList_inj.mp same ▸ member
  · intro member
    exact ⟨⟨id, member⟩, List.mem_attach _ _, rfl⟩

/-! ### Paths of the query and walks over the edges -/

/-- A lineage edge of the instant that the agent sees leads from one memory to the other. -/
def LineageTo (db : Db) (direction : LineageDirection) (pit : Instant) (agentId : Option String) (id next : EntityId) : Prop :=
  ∃ r ∈ lineageStep db direction pit agentId id, direction.reached r = next

/-- A trail is a walk without repetitions, after the edges of the root to itself with which it may begin. -/
theorem Trail.simple (barless : db.Barless) (bare : '|' ∉ root.toList) {k : Nat} {id : EntityId} {path : String}
    (trail : Trail db direction pit agentId root k id path) : ∃ ids, Written path ids ∧ ∃ n ≤ k, ∃ passed,
      Simple (LineageTo db direction pit agentId) root n id passed ∧ ∀ x, x ∈ passed ↔ x ∈ ids := by
  induction trail with
  | @seed r step =>
    have reached : '|' ∉ (direction.reached r).toList := barless.reached (lineageStep_mem.mp step).1
    refine ⟨_, written_two bare reached, ?_⟩
    by_cases loop : direction.reached r = root
    · refine ⟨0, Nat.zero_le 1, [root], loop ▸ .here, ?_⟩
      simp [loop]
    · have fresh : direction.reached r ∉ [root] := by simpa using loop
      exact ⟨1, Nat.le_refl 1, _, .onward .here ⟨r, step, rfl⟩ fresh, fun x => Iff.rfl⟩
  | @hop k id path r _ step unnamed ih =>
    obtain ⟨ids, written, n, within, passed, walk, same⟩ := ih
    have reached : '|' ∉ (direction.reached r).toList := barless.reached (lineageStep_mem.mp step).1
    have fresh : direction.reached r ∉ passed := by
      intro again
      rw [(written.contains_iff reached).mpr ((same _).mp again)] at unnamed
      exact absurd unnamed (by decide)
    refine ⟨_, written.concat reached, n + 1, Nat.succ_le_succ within, _, .onward walk ⟨r, step, rfl⟩ fresh, fun x => ?_⟩
    simp only [List.mem_append, same]

/-- Every walk without repetitions is a trail, and its text names what the walk passed. -/
theorem trail_of_simple (barless : db.Barless) (bare : '|' ∉ root.toList) {n : Nat} {id : EntityId} {passed : List EntityId}
    (walk : Simple (LineageTo db direction pit agentId) root n id passed) (moved : 1 ≤ n) :
    ∃ path, Trail db direction pit agentId root n id path ∧ Written path passed := by
  induction walk with
  | here => omega
  | @onward n y z passed walk next fresh ih =>
    obtain ⟨r, step, rfl⟩ := next
    have reached : '|' ∉ (direction.reached r).toList := barless.reached (lineageStep_mem.mp step).1
    cases walk with
    | here => exact ⟨_, .seed step, written_two bare reached⟩
    | onward walk next' fresh' =>
      obtain ⟨path, trail, written⟩ := ih (Nat.le_add_left 1 _)
      refine ⟨_, .hop trail step ?_, written.concat reached⟩
      rw [← Bool.not_eq_true, written.contains_iff reached]
      exact fresh

theorem HopsTo.steps (barless : db.Barless) (bare : '|' ∉ root.toList) {k : Nat} {id : EntityId}
    (hops : HopsTo db direction pit agentId root k id) : ∃ n ≤ k, Steps (LineageTo db direction pit agentId) root n id := by
  obtain ⟨path, trail⟩ := hops
  obtain ⟨_, _, n, within, _, walk, _⟩ := trail.simple barless bare
  exact ⟨n, within, walk.steps⟩

theorem Distance.hopsTo (barless : db.Barless) (bare : '|' ∉ root.toList) {n : Nat} {id : EntityId}
    (far : Distance (LineageTo db direction pit agentId) root n id) (moved : 1 ≤ n) : HopsTo db direction pit agentId root n id := by
  obtain ⟨passed, walk⟩ := far.simple
  obtain ⟨path, trail, _⟩ := trail_of_simple barless bare walk moved
  exact ⟨path, trail⟩

/-- The shortest trails are the shortest walks. -/
theorem shortest_iff (barless : db.Barless) (bare : '|' ∉ root.toList) {maxDepth depth : Nat} {id : EntityId} (other : id ≠ root) :
    Shortest db direction pit agentId root maxDepth id depth ↔
      depth ≤ maxDepth ∧ Distance (LineageTo db direction pit agentId) root depth id := by
  have moved : ∀ {n}, Distance (LineageTo db direction pit agentId) root n id → 1 ≤ n := by
    intro n far
    rcases Nat.eq_zero_or_pos n with rfl | positive
    · exact absurd (distance_zero.mp far) other
    · exact positive
  constructor
  · rintro ⟨within, hops, least⟩
    obtain ⟨n, shorter, walk⟩ := hops.steps barless bare
    obtain ⟨d, nearer, far⟩ := walk.distance
    have above := least d (Distance.hopsTo barless bare far (moved far))
    obtain rfl : d = depth := by omega
    exact ⟨within, far⟩
  · rintro ⟨within, far⟩
    refine ⟨within, Distance.hopsTo barless bare far (moved far), fun k hops => ?_⟩
    obtain ⟨n, shorter, walk⟩ := hops.steps barless bare
    exact Nat.le_trans (far.2 n walk) shorter

/-! ### The edges -/

/-- The edge leaves a memory within the bound, and not back to where the walk to that memory has been. -/
def LeadsOn (db : Db) (direction : LineageDirection) (pit : Instant) (agentId : Option String) (root : EntityId) (maxDepth : Nat)
    (r : Relation) : Prop :=
  r ∈ lineageStep db direction pit agentId (direction.origin r) ∧ 1 ≤ maxDepth ∧
    (direction.origin r = root ∧ direction.reached r = root ∨
      ∃ n < maxDepth, ∃ passed, Simple (LineageTo db direction pit agentId) root n (direction.origin r) passed ∧ direction.reached r ∉ passed)

/-- An edge is walked from the root or at the end of a trail that does not name what it reaches. -/
theorem rows_iff {maxDepth : Nat} (deep : 1 ≤ maxDepth) {r : Relation} :
    (∃ l ∈ lineageQuery db direction root maxDepth pit agentId, l.relation = r) ↔
      r ∈ lineageStep db direction pit agentId root ∨ ∃ k path, k < maxDepth ∧ Trail db direction pit agentId root k (direction.origin r) path ∧
        r ∈ lineageStep db direction pit agentId (direction.origin r) ∧ Text.contains path ("|" ++ direction.reached r ++ "|") = false := by
  constructor
  · rintro ⟨l, member, rfl⟩
    obtain ⟨k, within, level⟩ := (mem_lineageQuery deep).mp member
    cases k with
    | zero =>
      obtain ⟨r, step, rfl⟩ := List.mem_map.mp level
      exact .inl step
    | succ k =>
      rw [lineageLevel_succ] at level
      obtain ⟨p, before, level⟩ := List.mem_flatMap.mp level
      obtain ⟨r, kept, rfl⟩ := List.mem_map.mp level
      obtain ⟨step, unnamed⟩ := List.mem_filter.mp kept
      have origin : direction.origin r = p.nextId := (lineageStep_mem.mp step).2.1
      refine .inr ⟨k + 1, p.path, within, ?_, ?_, by simpa using unnamed⟩
      · exact origin.symm ▸ (lineageLevel_row before).trail
      · exact origin.symm ▸ step
  · rintro (step | ⟨k, path, within, trail, step, unnamed⟩)
    · exact ⟨_, (mem_lineageQuery deep).mpr ⟨0, deep, List.mem_map_of_mem step⟩, rfl⟩
    · obtain ⟨j, l, rfl, level, next, rfl⟩ := trail.level
      refine ⟨⟨r, l.depth + 1, direction.reached r, l.path ++ direction.reached r ++ "|"⟩, (mem_lineageQuery deep).mpr ⟨j + 1, within, ?_⟩, rfl⟩
      rw [lineageLevel_succ]
      refine List.mem_flatMap.mpr ⟨l, level, List.mem_map_of_mem (List.mem_filter.mpr ⟨next ▸ step, ?_⟩)⟩
      simpa using unnamed

theorem leadsOn_iff (barless : db.Barless) (bare : '|' ∉ root.toList) {maxDepth : Nat} (deep : 1 ≤ maxDepth) {r : Relation} :
    (∃ l ∈ lineageQuery db direction root maxDepth pit agentId, l.relation = r) ↔ LeadsOn db direction pit agentId root maxDepth r := by
  rw [rows_iff deep]
  constructor
  · rintro (step | ⟨k, path, within, trail, step, unnamed⟩)
    · have origin : direction.origin r = root := (lineageStep_mem.mp step).2.1
      refine ⟨origin.symm ▸ step, deep, ?_⟩
      by_cases loop : direction.reached r = root
      · exact .inl ⟨origin, loop⟩
      · exact .inr ⟨0, deep, [root], origin.symm ▸ .here, by simpa using loop⟩
    · obtain ⟨ids, written, n, shorter, passed, walk, same⟩ := trail.simple barless bare
      refine ⟨step, deep, .inr ⟨n, Nat.lt_of_le_of_lt shorter within, passed, walk, fun again => ?_⟩⟩
      have reached : '|' ∉ (direction.reached r).toList := barless.reached (lineageStep_mem.mp step).1
      rw [(written.contains_iff reached).mpr ((same _).mp again)] at unnamed
      exact absurd unnamed (by decide)
  · rintro ⟨step, _, ⟨origin, _⟩ | ⟨n, within, passed, walk, fresh⟩⟩
    · exact .inl (origin ▸ step)
    · rcases Nat.eq_zero_or_pos n with rfl | moved
      · exact .inl (steps_zero.mp walk.steps ▸ step)
      · obtain ⟨path, trail, written⟩ := trail_of_simple barless bare walk moved
        have reached : '|' ∉ (direction.reached r).toList := barless.reached (lineageStep_mem.mp step).1
        refine .inr ⟨n, path, within, trail, step, ?_⟩
        rw [← Bool.not_eq_true, written.contains_iff reached]
        exact fresh

/-! ### What the graph keeps once -/

/-- The edge is listed for the relation. -/
def LineageEdge.Of (e : LineageEdge) (r : Relation) : Prop := e.relationId = r.id ∧ e.edge = r.edge

structure LineageGraph.Once (db : Db) (g : LineageGraph) : Prop where
  nodes : (g.nodes.map (·.id)).Nodup
  ids : g.edges.map (·.relationId) = g.seen
  seen : g.seen.Nodup
  of : ∀ e ∈ g.edges, ∃ r ∈ db.relations.rows, e.Of r

theorem setDefault_once {nodes : List LineageNode} {n : LineageNode} (once : (nodes.map (·.id)).Nodup) :
    ((setDefault nodes n).map (·.id)).Nodup := by
  unfold setDefault
  split
  · exact once
  · rename_i absent
    rw [List.map_append, List.map_singleton, ← List.concat_eq_append]
    refine once.concat fun member => absent ?_
    obtain ⟨m, here, same⟩ := List.mem_map.mp member
    exact List.any_eq_true.mpr ⟨m, here, by simpa using same⟩

theorem LineageGraph.Once.add {g : LineageGraph} (once : g.Once db) {l : LineageRow} (listed : l.relation ∈ db.relations.rows) :
    (g.add db l).Once db := by
  by_cases known : g.seen.contains l.relation.id = true
  · have same : g.add db l = g := by simp only [LineageGraph.add, known, if_true]
    exact same.symm ▸ once
  · have fresh : l.relation.id ∉ g.seen := by simpa using known
    unfold LineageGraph.add
    rw [if_neg known]
    constructor
    · dsimp only
      rw [setShallower_ids]
      exact setDefault_once (setDefault_once once.nodes)
    · dsimp only
      rw [List.map_append, once.ids, List.map_singleton]
    · dsimp only
      rw [← List.concat_eq_append]
      exact once.seen.concat fresh
    · intro e member
      rcases List.mem_append.mp member with old | new
      · exact once.of e old
      · rw [List.mem_singleton.mp new]
        exact ⟨l.relation, listed, rfl, rfl⟩

theorem lineageGraph_once {rows : List LineageRow} (listed : ∀ l ∈ rows, l.relation ∈ db.relations.rows) :
    (lineageGraph db root rows).Once db := by
  have start : LineageGraph.Once db ⟨[lineageNode db root 0], [], []⟩ :=
    ⟨List.nodup_singleton _, rfl, List.nodup_nil, nofun⟩
  unfold lineageGraph
  generalize (⟨[lineageNode db root 0], [], []⟩ : LineageGraph) = g at start
  induction rows generalizing g with
  | nil => exact start
  | cons l rest ih =>
    exact ih (fun l member => listed l (List.mem_cons_of_mem _ member)) (g.add db l) (start.add (listed l List.mem_cons_self))

/-! ### The answer -/

/-- The answer lists what the edges reach within the bound, each memory once at its distance, and once each edge that leads on. -/
structure TraversedLineage (db : Db) (direction : LineageDirection) (pit : Instant) (agentId : Option String) (root : EntityId)
    (maxDepth : Nat) (result : LineageResult) : Prop where
  nodes : ∀ id depth, (∃ n ∈ result.nodes, n.id = id ∧ n.depth = depth) ↔
    depth ≤ maxDepth ∧ Distance (LineageTo db direction pit agentId) root depth id
  nodesOnce : (result.nodes.map (·.id)).Nodup
  edges : ∀ r ∈ db.relations.rows, (∃ e ∈ result.edges, e.Of r) ↔ LeadsOn db direction pit agentId root maxDepth r
  edgesOf : ∀ e ∈ result.edges, ∃ r ∈ db.relations.rows, e.Of r
  edgesOnce : (result.edges.map (·.relationId)).Nodup

theorem lineageQuery_listed {maxDepth : Nat} (deep : 1 ≤ maxDepth) :
    ∀ l ∈ lineageQuery db direction root maxDepth pit agentId, l.relation ∈ db.relations.rows := by
  intro l member
  obtain ⟨k, _, level⟩ := (mem_lineageQuery deep).mp member
  exact (lineageLevel_row level).listed

theorem lineageGraph_traversed (barless : db.Barless) (bare : '|' ∉ root.toList) {maxDepth : Nat} (deep : 1 ≤ maxDepth) :
    TraversedLineage db direction pit agentId root maxDepth (lineageResult root direction maxDepth pit
      (lineageGraph db root (lineageQuery db direction root maxDepth pit agentId))) := by
  have once : (lineageGraph db root (lineageQuery db direction root maxDepth pit agentId)).Once db := lineageGraph_once (lineageQuery_listed deep)
  have tracks := @lineageGraph_tracks db direction pit agentId root maxDepth deep
  constructor
  · intro id depth
    rw [lineageResult_nodes deep]
    by_cases same : id = root
    · subst same
      constructor
      · rintro (⟨_, rfl⟩ | ⟨other, _⟩)
        · exact ⟨Nat.zero_le _, distance_zero.mpr rfl⟩
        · exact absurd rfl other
      · rintro ⟨_, far⟩
        exact .inl ⟨rfl, far.unique (distance_zero.mpr rfl)⟩
    · rw [shortest_iff barless bare same]
      simp [same]
  · exact ((List.mergeSort_perm _ _).map _).nodup_iff.mpr once.nodes
  · intro r listed
    rw [← leadsOn_iff barless bare deep]
    constructor
    · rintro ⟨e, member, named, _⟩
      have seen : r.id ∈ (lineageGraph db root (lineageQuery db direction root maxDepth pit agentId)).seen := by
        rw [← once.ids, ← named]
        exact List.mem_map_of_mem member
      obtain ⟨l, here, same⟩ := (tracks.seen _).mp seen
      exact ⟨l, here, RelationTable.id_unique (lineageQuery_listed deep l here) listed same⟩
    · rintro ⟨l, here, rfl⟩
      have seen := (tracks.seen l.relation.id).mpr ⟨l, here, rfl⟩
      rw [← once.ids] at seen
      obtain ⟨e, member, named⟩ := List.mem_map.mp seen
      obtain ⟨r, listed', named', edge⟩ := once.of e member
      have same := RelationTable.id_unique listed' listed (named'.symm.trans named)
      exact ⟨e, member, named, same ▸ edge⟩
  · exact once.of
  · exact once.ids.symm ▸ once.seen

/-- Without a step to take the answer is the root. -/
theorem root_traversed : TraversedLineage db direction pit agentId root 0
    (lineageResult root direction 0 pit ⟨[lineageNode db root 0], [], []⟩) := by
  have shown : (lineageResult root direction 0 pit ⟨[lineageNode db root 0], [], []⟩).nodes = [lineageNode db root 0] := by
    simp [lineageResult]
  constructor
  · intro id depth
    rw [shown]
    simp only [List.mem_singleton, exists_eq_left, lineageNode_id, lineageNode_depth, Nat.le_zero]
    constructor
    · rintro ⟨rfl, rfl⟩
      exact ⟨rfl, distance_zero.mpr rfl⟩
    · rintro ⟨rfl, far⟩
      exact ⟨(distance_zero.mp far).symm, rfl⟩
  · rw [shown]
    exact List.nodup_singleton _
  · intro r listed
    constructor
    · rintro ⟨e, member, _⟩
      exact absurd member List.not_mem_nil
    · rintro ⟨_, deep, _⟩
      omega
  · exact nofun
  · exact List.nodup_nil

/-- What an edge leads to in one direction it leads back to in the other. -/
theorem lineageTo_reverse : (fun a b => LineageTo db .ancestors pit agentId b a) = LineageTo db .descendants pit agentId := by
  funext a b
  refine propext (exists_congr fun r => ?_)
  rw [lineageStep_mem, lineageStep_mem]
  exact ⟨fun ⟨⟨listed, origin, rest⟩, reached⟩ => ⟨⟨listed, reached, rest⟩, origin⟩,
    fun ⟨⟨listed, origin, rest⟩, reached⟩ => ⟨⟨listed, reached, rest⟩, origin⟩⟩

/-- Both traversals around any two memories that references name: each complete, and the one the other's mirror. -/
def TraversesLineage (env : Env) (db : Db) (pit : Instant) (agentId : Option String) (maxDepth : Nat) : Prop :=
  ∀ refA refB a b, (resolveEntityRef env db refA agentId).resolved = some a → (resolveEntityRef env db refB agentId).resolved = some b →
    ∃ up down, getLineage env db refA .ancestors maxDepth pit agentId = .ok up ∧ getLineage env db refB .descendants maxDepth pit agentId = .ok down ∧
      TraversedLineage db .ancestors pit agentId a maxDepth up ∧ TraversedLineage db .descendants pit agentId b maxDepth down ∧
      ∀ depth, (∃ n ∈ up.nodes, n.id = b ∧ n.depth = depth) ↔ ∃ n ∈ down.nodes, n.id = a ∧ n.depth = depth

theorem getLineage_traversed (barless : db.Barless) (pit : Instant) (direction : LineageDirection) (maxDepth : Nat) {ref : String}
    (resolved : (resolveEntityRef env db ref agentId).resolved = some root) :
    ∃ result, getLineage env db ref direction maxDepth pit agentId = .ok result ∧
      TraversedLineage db direction pit agentId root maxDepth result := by
  have named : ref ≠ "" := by
    rintro rfl
    simp [resolveEntityRef] at resolved
  obtain ⟨e, found, _⟩ := resolveEntityRef_visible resolved
  obtain ⟨listed, rfl⟩ := EntityTable.find_some found
  have bare := barless.entities e listed
  unfold getLineage
  rw [if_neg named, resolved]
  dsimp only
  rcases Nat.eq_zero_or_pos maxDepth with rfl | deep
  · exact ⟨_, if_pos rfl, root_traversed⟩
  · exact ⟨_, if_neg (Nat.pos_iff_ne_zero.mp deep), lineageGraph_traversed barless bare deep⟩

theorem getLineage_traverses (env : Env) {db : Db} (barless : db.Barless) (pit : Instant) (agentId : Option String) (maxDepth : Nat) :
    TraversesLineage env db pit agentId maxDepth := by
  intro refA refB a b resolvedA resolvedB
  obtain ⟨up, answerA, traversedA⟩ := getLineage_traversed barless pit .ancestors maxDepth resolvedA
  obtain ⟨down, answerB, traversedB⟩ := getLineage_traversed barless pit .descendants maxDepth resolvedB
  refine ⟨up, down, answerA, answerB, traversedA, traversedB, fun depth => ?_⟩
  rw [traversedA.nodes, traversedB.nodes, distance_reverse, lineageTo_reverse]

/-! ### Two memories that revise one another -/

def revisesRow (id : RelationId) (sourceId targetId : EntityId) : Relation :=
  (RelationDraft.mk sourceId targetId "revises" 0 none none).row id

/-- A legacy cycle. -/
def cyclicDb : Db :=
  { pairDb with relations := ⟨[revisesRow 0 "first" "second", revisesRow 1 "second" "first"], 2, by decide, by decide,
      List.pairwise_pair.mpr fun both => absurd both.2.2 (by decide)⟩ }

theorem cyclicDb_barless : cyclicDb.Barless := ⟨by decide, by decide, by decide⟩

theorem cyclicDb_traverses : TraversesLineage .plain cyclicDb 0 none 2 :=
  getLineage_traverses .plain cyclicDb_barless 0 none 2

/-- The edge back to the root leaves the other memory at depth one, within the bound of two, and is not listed. -/
theorem cyclicDb_unlisted : ∃ result, getLineage .plain cyclicDb "first" .ancestors 2 0 none = .ok result ∧
    (∃ n ∈ result.nodes, n.id = "second" ∧ n.depth = 1) ∧ revisesRow 1 "second" "first" ∈ lineageStep cyclicDb .ancestors 0 none "second" ∧
      ¬ ∃ e ∈ result.edges, e.Of (revisesRow 1 "second" "first") := by
  obtain ⟨result, answer, traversed⟩ := getLineage_traversed cyclicDb_barless 0 .ancestors 2
    (show (resolveEntityRef .plain cyclicDb "first" none).resolved = some "first" by rfl)
  have there : LineageTo cyclicDb .ancestors 0 none "first" "second" := ⟨revisesRow 0 "first" "second", by decide, rfl⟩
  refine ⟨result, answer, (traversed.nodes _ _).mpr ⟨by decide, .onward .here there, fun k walk => ?_⟩, by decide, ?_⟩
  · rcases Nat.eq_zero_or_pos k with rfl | positive
    · exact absurd (steps_zero.mp walk) (by decide)
    · exact positive
  · rw [traversed.edges _ (by decide)]
    rintro ⟨_, _, ⟨origin, _⟩ | ⟨n, _, passed, walk, fresh⟩⟩
    · exact absurd origin (by decide)
    · exact fresh walk.start

end SaltMdb
