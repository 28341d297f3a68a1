import SaltMdb.Library.Climb
import SaltMdb.Library.Walks
import SaltMdb.Relation.Dependencies
import SaltMdb.Schema.Fresh

/-! What `analyze_dependencies` lists against what the edges reach. -/

namespace SaltMdb
open Walks

/-! ### Guarded paths -/

/-- A path by its length, its last edge and its text, no id of which matches the text before it. -/
inductive GuardedPath (next : EntityId → List Relation) (reached : Relation → EntityId) (seedPath : Relation → String) (root : EntityId) :
    Nat → Relation → String → Prop
  | seed {r : Relation} (step : r ∈ next root) : GuardedPath next reached seedPath root 1 r (seedPath r)
  | hop {k : Nat} {before r : Relation} {path : String} (walked : GuardedPath next reached seedPath root k before path)
      (step : r ∈ next (reached before)) (unmatched : pathMatches path (reached r) = false) :
      GuardedPath next reached seedPath root (k + 1) r (path ++ "->" ++ reached r)

section
variable {next : EntityId → List Relation} {reached : Relation → EntityId} {seedPath : Relation → String} {root : EntityId}

theorem GuardedPath.pos {k : Nat} {r : Relation} {path : String} (walked : GuardedPath next reached seedPath root k r path) : 1 ≤ k := by
  cases walked with
  | seed => exact Nat.le_refl 1
  | hop => exact Nat.le_add_left 1 _

theorem GuardedPath.last {k : Nat} {r : Relation} {path : String} (walked : GuardedPath next reached seedPath root k r path) :
    ∃ id, r ∈ next id := by
  cases walked with
  | seed step => exact ⟨_, step⟩
  | hop _ step => exact ⟨_, step⟩

theorem guardedPath_one {r : Relation} {path : String} :
    GuardedPath next reached seedPath root 1 r path ↔ r ∈ next root ∧ path = seedPath r := by
  constructor
  · intro walked
    cases walked with
    | seed step => exact ⟨step, rfl⟩
    | hop walked => exact absurd walked.pos (Nat.not_succ_le_zero 0)
  · rintro ⟨step, rfl⟩
    exact .seed step

theorem guardedPath_succ {k : Nat} (positive : 1 ≤ k) {r : Relation} {path : String} :
    GuardedPath next reached seedPath root (k + 1) r path ↔ ∃ before text, GuardedPath next reached seedPath root k before text ∧
      r ∈ next (reached before) ∧ pathMatches text (reached r) = false ∧ path = text ++ "->" ++ reached r := by
  constructor
  · intro walked
    cases walked with
    | seed => exact absurd positive (Nat.not_succ_le_zero 0)
    | hop walked step unmatched => exact ⟨_, _, walked, step, unmatched, rfl⟩
  · rintro ⟨before, text, walked, step, unmatched, rfl⟩
    exact .hop walked step unmatched

end

variable {db : Db} {walk : WalkDirection} {direction : DependencyDirection} {pit : Instant} {agentId : Option String} {root : EntityId}

/-- The paths of the recursive query. -/
def DependencyPath (db : Db) (walk : WalkDirection) (pit : Instant) (agentId : Option String) (root : EntityId) :
    Nat → Relation → String → Prop :=
  GuardedPath (dependencyStep db walk pit agentId) walk.reached walk.seedPath root

theorem dependencyStep_mem {id : EntityId} {r : Relation} : r ∈ dependencyStep db walk pit agentId id ↔
    r ∈ db.relations.rows ∧ walk.origin r = id ∧ r.validIn pit = true ∧ r.visibleTo db agentId = true := by
  simp only [dependencyStep, List.mem_filter, Bool.and_eq_true, beq_iff_eq, and_assoc]

theorem DependencyPath.listed {k : Nat} {r : Relation} {path : String} (walked : DependencyPath db walk pit agentId root k r path) :
    r ∈ db.relations.rows := by
  obtain ⟨id, step⟩ := GuardedPath.last walked
  exact (dependencyStep_mem.mp step).1

def dependencyLevel (db : Db) (walk : WalkDirection) (pit : Instant) (agentId : Option String) (root : EntityId) (k : Nat) :
    List DependencyRow :=
  (dependencyHop db walk pit agentId)^[k] (dependencySeeds db walk pit agentId root)

theorem dependencyLevel_succ (k : Nat) : dependencyLevel db walk pit agentId root (k + 1) =
    dependencyHop db walk pit agentId (dependencyLevel db walk pit agentId root k) :=
  Function.iterate_succ_apply' _ _ _

theorem mem_dependencyLevel {k : Nat} {row : DependencyRow} : row ∈ dependencyLevel db walk pit agentId root k ↔
    row.depth = k + 1 ∧ DependencyPath db walk pit agentId root (k + 1) row.relation row.path := by
  induction k generalizing row with
  | zero =>
    rw [DependencyPath, guardedPath_one]
    constructor
    · intro member
      obtain ⟨r, step, rfl⟩ := List.mem_map.mp member
      exact ⟨rfl, step, rfl⟩
    · rintro ⟨depth, step, path⟩
      refine List.mem_map.mpr ⟨row.relation, step, ?_⟩
      rw [← path]
      exact congrArg (DependencyRow.mk row.relation · row.path) depth.symm
  | succ k ih =>
    rw [DependencyPath, guardedPath_succ (Nat.le_add_left 1 k), dependencyLevel_succ, dependencyHop, List.mem_flatMap]
    constructor
    · rintro ⟨dt, before, member⟩
      obtain ⟨r, kept, rfl⟩ := List.mem_map.mp member
      obtain ⟨step, unmatched⟩ := List.mem_filter.mp kept
      obtain ⟨depth, walked⟩ := ih.mp before
      exact ⟨congrArg (· + 1) depth, dt.relation, dt.path, walked, step, by simpa using unmatched, rfl⟩
    · rintro ⟨depth, before, text, walked, step, unmatched, path⟩
      refine ⟨⟨before, k + 1, text⟩, ih.mpr ⟨rfl, walked⟩, ?_⟩
      refine List.mem_map.mpr ⟨row.relation, List.mem_filter.mpr ⟨step, by simpa using unmatched⟩, ?_⟩
      rw [← path, ← depth]

/-- The rows of the query are the paths within the depth limit. -/
theorem mem_dependencyWalk {maxDepth : Nat} (deep : 1 ≤ maxDepth) {row : DependencyRow} :
    row ∈ dependencyWalk db walk pit agentId (maxDepth - 1) (dependencySeeds db walk pit agentId root) ↔
      row.depth ≤ maxDepth ∧ DependencyPath db walk pit agentId root row.depth row.relation row.path := by
  have levels : row ∈ dependencyWalk db walk pit agentId (maxDepth - 1) (dependencySeeds db walk pit agentId root) ↔
      ∃ k ≤ maxDepth - 1, row ∈ dependencyLevel db walk pit agentId root k := Climb.mem_levels (fun _ => rfl) fun _ _ => rfl
  rw [levels]
  constructor
  · rintro ⟨k, bound, member⟩
    obtain ⟨depth, walked⟩ := mem_dependencyLevel.mp member
    exact ⟨by omega, depth ▸ walked⟩
  · rintro ⟨bound, walked⟩
    have positive := GuardedPath.pos walked
    refine ⟨row.depth - 1, by omega, mem_dependencyLevel.mpr ⟨by omega, ?_⟩⟩
    rw [Nat.sub_add_cancel positive]
    exact walked

/-- Both ends of every edge have a row: the foreign keys of `relations`. -/
def Db.Linked (db : Db) : Prop :=
  ∀ r ∈ db.relations.rows, (db.entities.find r.sourceId).isSome = true ∧ (db.entities.find r.targetId).isSome = true

theorem mem_fetchDependencyRows (linked : db.Linked) {maxDepth : Nat} (deep : 1 ≤ maxDepth) {way : WalkDirection} {row : DependencyRow} :
    (∃ hit ∈ fetchDependencyRows db direction root pit maxDepth agentId, hit.direction = way ∧ hit.row = row) ↔
      way ∈ direction.walks ∧ row.depth ≤ maxDepth ∧ DependencyPath db way pit agentId root row.depth row.relation row.path := by
  simp only [fetchDependencyRows, dependencyQuery, List.mem_flatMap, List.mem_insertionSort, List.mem_filterMap]
  constructor
  · rintro ⟨hit, ⟨walk, listed, dt, member, joined⟩, rfl, rfl⟩
    simp only [Option.bind_eq_bind, Option.bind_eq_some_iff, Option.pure_def, Option.some.injEq] at joined
    obtain ⟨source, _, target, _, rfl⟩ := joined
    exact ⟨listed, (mem_dependencyWalk deep).mp member⟩
  · rintro ⟨listed, within⟩
    obtain ⟨source, target⟩ := linked _ within.2.listed
    obtain ⟨source, foundSource⟩ := Option.isSome_iff_exists.mp source
    obtain ⟨target, foundTarget⟩ := Option.isSome_iff_exists.mp target
    refine ⟨⟨way, row, source.title, target.title⟩, ⟨way, listed, row, (mem_dependencyWalk deep).mpr within, ?_⟩, rfl, rfl⟩
    simp [foundSource, foundTarget]

/-! ### The graph -/

def ClearOver (db : Db) (walk : WalkDirection) (pit : Instant) (agentId : Option String) (root : EntityId) (k : Nat) (r : Relation) : Prop :=
  ∃ path, DependencyPath db walk pit agentId root k r path

/-- A memory at the end of a path of that many steps. -/
def ClearTo (db : Db) (walk : WalkDirection) (pit : Instant) (agentId : Option String) (root : EntityId) (k : Nat) (id : EntityId) : Prop :=
  ∃ r, ClearOver db walk pit agentId root k r ∧ walk.reached r = id

def shallower (a b : DependencyHit) : Prop := a.row.depth ≤ b.row.depth

instance : DecidableRel shallower := fun a b => inferInstanceAs (Decidable (a.row.depth ≤ b.row.depth))

instance : Std.Total shallower := ⟨fun a b => Nat.le_total a.row.depth b.row.depth⟩

instance : IsTrans DependencyHit shallower := ⟨fun _ _ _ => Nat.le_trans⟩

theorem addRows_eq (g : DependencyGraph) (hits : List DependencyHit) :
    g.addRows hits = (hits.insertionSort shallower).foldl DependencyGraph.addRow g := rfl

theorem foldl_addRow_nodes (hits : List DependencyHit) (g : DependencyGraph) :
    (hits.foldl DependencyGraph.addRow g).nodes = (hits.map (·.node)).foldl (Arrivals.arrive (·.id)) g.nodes := by
  induction hits generalizing g with
  | nil => rfl
  | cons hit rest ih => exact ih (g.addRow hit)

theorem foldl_addRow_edges (hits : List DependencyHit) (g : DependencyGraph) :
    (hits.foldl DependencyGraph.addRow g).edges = (hits.map (·.edge)).foldl (Arrivals.arrive (·.relationId)) g.edges := by
  induction hits generalizing g with
  | nil => rfl
  | cons hit rest ih => exact ih (g.addRow hit)

/-- The graph that the rows of the query build. -/
def dependencyGraph (db : Db) (direction : DependencyDirection) (root : DependencyRoot) (rootId : EntityId) (pit : Instant) (maxDepth : Nat)
    (agentId : Option String) : DependencyGraph :=
  DependencyGraph.addRows ⟨[⟨rootId, root.title, 0⟩], []⟩ (fetchDependencyRows db direction rootId pit maxDepth agentId)

variable {maxDepth depth : Nat} {info : DependencyRoot} {id : EntityId}

theorem dependencyGraph_once : ((dependencyGraph db direction info root pit maxDepth agentId).nodes.map (·.id)).Nodup := by
  rw [dependencyGraph, addRows_eq, foldl_addRow_nodes]
  exact Arrivals.foldl_arrive_separate (List.nodup_singleton _)

theorem dependencyGraph_edgesOnce : ((dependencyGraph db direction info root pit maxDepth agentId).edges.map (·.relationId)).Nodup := by
  rw [dependencyGraph, addRows_eq, foldl_addRow_edges]
  exact Arrivals.foldl_arrive_separate List.nodup_nil

theorem sorted_hits (hits : List DependencyHit) : (hits.insertionSort shallower).Pairwise fun a b => a.row.depth ≤ b.row.depth :=
  List.pairwise_insertionSort shallower hits

/-- The depths at which the hits show what they are asked for, and the least of them. -/
theorem hits_least (linked : db.Linked) (deep : 1 ≤ maxDepth) (direction : DependencyDirection) (root : EntityId) (pit : Instant)
    (agentId : Option String) (depth : Nat) (q : WalkDirection → Relation → Prop) :
    ((∃ hit ∈ (fetchDependencyRows db direction root pit maxDepth agentId).insertionSort shallower,
        q hit.direction hit.row.relation ∧ hit.row.depth = depth) ↔
      depth ≤ maxDepth ∧ ∃ walk ∈ direction.walks, ∃ r, ClearOver db walk pit agentId root depth r ∧ q walk r) ∧
    ((∀ hit ∈ (fetchDependencyRows db direction root pit maxDepth agentId).insertionSort shallower,
        q hit.direction hit.row.relation → depth ≤ hit.row.depth) ↔
      ∀ walk ∈ direction.walks, ∀ k ≤ maxDepth, ∀ r, ClearOver db walk pit agentId root k r → q walk r → depth ≤ k) := by
  have hit_of : ∀ {walk k r}, walk ∈ direction.walks → k ≤ maxDepth → ClearOver db walk pit agentId root k r →
      ∃ hit ∈ (fetchDependencyRows db direction root pit maxDepth agentId).insertionSort shallower,
        hit.direction = walk ∧ hit.row.relation = r ∧ hit.row.depth = k := by
    rintro walk k r listed within ⟨path, walked⟩
    have row : ∃ hit ∈ fetchDependencyRows db direction root pit maxDepth agentId, hit.direction = walk ∧ hit.row = ⟨r, k, path⟩ :=
      (mem_fetchDependencyRows linked deep).mpr ⟨listed, within, walked⟩
    obtain ⟨hit, member, way, row⟩ := row
    exact ⟨hit, (List.mem_insertionSort _).mpr member, way, by rw [row], by rw [row]⟩
  have of_hit : ∀ hit ∈ (fetchDependencyRows db direction root pit maxDepth agentId).insertionSort shallower,
      hit.direction ∈ direction.walks ∧ hit.row.depth ≤ maxDepth ∧
        ClearOver db hit.direction pit agentId root hit.row.depth hit.row.relation := by
    intro hit member
    obtain ⟨listed, within, walked⟩ := (mem_fetchDependencyRows linked deep).mp ⟨hit, (List.mem_insertionSort _).mp member, rfl, rfl⟩
    exact ⟨listed, within, hit.row.path, walked⟩
  refine ⟨⟨?_, ?_⟩, ?_, ?_⟩
  · rintro ⟨hit, member, holds, rfl⟩
    obtain ⟨listed, within, clear⟩ := of_hit hit member
    exact ⟨within, hit.direction, listed, hit.row.relation, clear, holds⟩
  · rintro ⟨within, walk, listed, r, clear, holds⟩
    obtain ⟨hit, member, rfl, rfl, level⟩ := hit_of listed within clear
    exact ⟨hit, member, holds, level⟩
  · intro least walk listed k within r clear holds
    obtain ⟨hit, member, rfl, rfl, rfl⟩ := hit_of listed within clear
    exact least hit member holds
  · intro least hit member holds
    obtain ⟨listed, within, clear⟩ := of_hit hit member
    exact least hit.direction listed _ within _ clear holds

/-- The nodes: the root, and each memory at the least length of a path to it. -/
theorem dependencyGraph_nodes (linked : db.Linked) (deep : 1 ≤ maxDepth) :
    (∃ n ∈ (dependencyGraph db direction info root pit maxDepth agentId).nodes, n.id = id ∧ n.depth = depth) ↔
      id = root ∧ depth = 0 ∨ id ≠ root ∧ (depth ≤ maxDepth ∧ ∃ walk ∈ direction.walks, ClearTo db walk pit agentId root depth id) ∧
        ∀ walk ∈ direction.walks, ∀ k ≤ maxDepth, ClearTo db walk pit agentId root k id → depth ≤ k := by
  have ordered : (((fetchDependencyRows db direction root pit maxDepth agentId).insertionSort shallower).map (·.node)).Pairwise
      fun a b => a.depth ≤ b.depth := List.pairwise_map.mpr (sorted_hits _)
  obtain ⟨found, least⟩ := hits_least linked deep direction root pit agentId depth fun walk r => walk.reached r = id
  rw [dependencyGraph, addRows_eq, foldl_addRow_nodes, Arrivals.exists_foldl_arrive ordered]
  have atDepth : (∃ n ∈ ((fetchDependencyRows db direction root pit maxDepth agentId).insertionSort shallower).map (·.node),
      n.id = id ∧ n.depth = depth) ↔ depth ≤ maxDepth ∧ ∃ walk ∈ direction.walks, ClearTo db walk pit agentId root depth id := by
    simp only [List.mem_map, exists_exists_and_eq_and]
    exact found
  have below : (∀ n ∈ ((fetchDependencyRows db direction root pit maxDepth agentId).insertionSort shallower).map (·.node),
      n.id = id → depth ≤ n.depth) ↔ ∀ walk ∈ direction.walks, ∀ k ≤ maxDepth, ClearTo db walk pit agentId root k id → depth ≤ k := by
    simp only [List.forall_mem_map]
    refine least.trans (forall₂_congr fun walk _ => forall₂_congr fun k _ => ⟨?_, ?_⟩)
    · rintro all ⟨r, clear, reached⟩
      exact all r clear reached
    · exact fun all r clear reached => all ⟨r, clear, reached⟩
  rw [atDepth, below]
  simp only [List.mem_singleton, exists_eq_left, forall_eq, @eq_comm _ root id, @eq_comm _ 0 depth, ne_eq]

theorem dependencyGraph_edges (linked : db.Linked) (deep : 1 ≤ maxDepth) {r : Relation} (listed : r ∈ db.relations.rows) :
    (∃ e ∈ (dependencyGraph db direction info root pit maxDepth agentId).edges, e.relationId = r.id ∧ e.depth = depth) ↔
      (depth ≤ maxDepth ∧ ∃ walk ∈ direction.walks, ClearOver db walk pit agentId root depth r) ∧
        ∀ walk ∈ direction.walks, ∀ k ≤ maxDepth, ClearOver db walk pit agentId root k r → depth ≤ k := by
  have ordered : (((fetchDependencyRows db direction root pit maxDepth agentId).insertionSort shallower).map (·.edge)).Pairwise
      fun a b => a.depth ≤ b.depth := List.pairwise_map.mpr (sorted_hits _)
  obtain ⟨found, least⟩ := hits_least linked deep direction root pit agentId depth fun _ other => other.id = r.id
  have same : ∀ {walk k other}, ClearOver db walk pit agentId root k other → other.id = r.id → other = r := by
    rintro walk k other ⟨path, walked⟩ named
    exact RelationTable.id_unique walked.listed listed named
  rw [dependencyGraph, addRows_eq, foldl_addRow_edges, Arrivals.exists_foldl_arrive ordered]
  have atDepth : (∃ e ∈ ((fetchDependencyRows db direction root pit maxDepth agentId).insertionSort shallower).map (·.edge),
      e.relationId = r.id ∧ e.depth = depth) ↔ depth ≤ maxDepth ∧ ∃ walk ∈ direction.walks, ClearOver db walk pit agentId root depth r := by
    simp only [List.mem_map, exists_exists_and_eq_and]
    refine found.trans (and_congr_right fun _ => exists_congr fun walk => and_congr_right fun _ => ⟨?_, ?_⟩)
    · rintro ⟨other, clear, named⟩
      exact same clear named ▸ clear
    · exact fun clear => ⟨r, clear, rfl⟩
  have below : (∀ e ∈ ((fetchDependencyRows db direction root pit maxDepth agentId).insertionSort shallower).map (·.edge),
      e.relationId = r.id → depth ≤ e.depth) ↔ ∀ walk ∈ direction.walks, ∀ k ≤ maxDepth, ClearOver db walk pit agentId root k r → depth ≤ k := by
    simp only [List.forall_mem_map]
    refine least.trans (forall₂_congr fun walk _ => forall₂_congr fun k _ => ⟨?_, ?_⟩)
    · exact fun all clear => all r clear rfl
    · intro all other clear named
      exact all (same clear named ▸ clear)
  rw [atDepth, below]
  simp

/-! ### What the edges reach -/

/-- A valid, visible edge in the direction of the walk. -/
def LeadsTo (db : Db) (walk : WalkDirection) (pit : Instant) (agentId : Option String) (a b : EntityId) : Prop :=
  ∃ r ∈ dependencyStep db walk pit agentId a, walk.reached r = b

/-- That many steps in one of the directions asked for. -/
def Reached (db : Db) (direction : DependencyDirection) (pit : Instant) (agentId : Option String) (root : EntityId) (n : Nat)
    (id : EntityId) : Prop :=
  ∃ walk ∈ direction.walks, Steps (LeadsTo db walk pit agentId) root n id

def AtDepth (db : Db) (direction : DependencyDirection) (pit : Instant) (agentId : Option String) (root : EntityId) (depth : Nat)
    (id : EntityId) : Prop :=
  Reached db direction pit agentId root depth id ∧ ∀ n, Reached db direction pit agentId root n id → depth ≤ n

structure CompleteDependencies (db : Db) (direction : DependencyDirection) (pit : Instant) (agentId : Option String) (root : EntityId)
    (maxDepth : Nat) (result : DependencyResult) : Prop where
  once : (result.dependencies.map (·.id)).Nodup
  depths : ∀ id depth, (∃ n ∈ result.dependencies, n.id = id ∧ n.depth = depth) ↔
    depth ≤ maxDepth ∧ AtDepth db direction pit agentId root depth id
  exhausted : result.graphExhausted = true → ∀ id depth, AtDepth db direction pit agentId root depth id → depth ≤ maxDepth

/-- No memory within the limit is hidden by the ids on the way to it. -/
def Unhidden (db : Db) (direction : DependencyDirection) (pit : Instant) (agentId : Option String) (root : EntityId) (maxDepth : Nat) :
    Prop :=
  ∀ n ≤ maxDepth, ∀ id, id ≠ root → Reached db direction pit agentId root n id →
    ∃ walk ∈ direction.walks, ∃ k ≤ n, ClearTo db walk pit agentId root k id

/-- Where memories lie beyond the limit, an edge at the limit lies on no shorter path of either direction. -/
def FreshBoundary (db : Db) (direction : DependencyDirection) (pit : Instant) (agentId : Option String) (root : EntityId) (maxDepth : Nat) :
    Prop :=
  (∃ id depth, AtDepth db direction pit agentId root depth id ∧ maxDepth < depth) →
    ∃ r, (∃ walk ∈ direction.walks, ClearOver db walk pit agentId root maxDepth r) ∧
      ∀ walk ∈ direction.walks, ∀ k < maxDepth, ¬ ClearOver db walk pit agentId root k r

theorem ClearTo.steps {k : Nat} (clear : ClearTo db walk pit agentId root k id) : Steps (LeadsTo db walk pit agentId) root k id := by
  obtain ⟨r, ⟨path, walked⟩, rfl⟩ := clear
  unfold DependencyPath at walked
  induction walked with
  | seed step => exact .onward .here ⟨_, step, rfl⟩
  | hop _ step _ ih => exact .onward ih ⟨_, step, rfl⟩

theorem walks_nonempty (direction : DependencyDirection) : ∃ walk, walk ∈ direction.walks := by
  cases direction with
  | outbound => exact ⟨_, List.mem_cons_self⟩
  | inbound => exact ⟨_, List.mem_cons_self⟩
  | both => exact ⟨_, List.mem_cons_self⟩

theorem atDepth_zero : AtDepth db direction pit agentId root 0 id ↔ id = root := by
  constructor
  · rintro ⟨⟨walk, _, steps⟩, _⟩
    exact steps_zero.mp steps
  · rintro rfl
    obtain ⟨walk, listed⟩ := walks_nonempty direction
    exact ⟨⟨walk, listed, .here⟩, fun n _ => Nat.zero_le n⟩

theorem Reached.atDepth {n : Nat} (reached : Reached db direction pit agentId root n id) :
    ∃ depth ≤ n, AtDepth db direction pit agentId root depth id := by
  classical
  have some_ : ∃ k, Reached db direction pit agentId root k id := ⟨n, reached⟩
  exact ⟨Nat.find some_, Nat.find_le reached, Nat.find_spec some_, fun k other => Nat.find_le other⟩

theorem AtDepth.unique {d d' : Nat} (first : AtDepth db direction pit agentId root d id) (second : AtDepth db direction pit agentId root d' id) :
    d = d' :=
  Nat.le_antisymm (first.2 d' second.1) (second.2 d first.1)

/-- The nodes are complete exactly where no memory is hidden. -/
theorem dependencyGraph_depths_iff (linked : db.Linked) (deep : 1 ≤ maxDepth) :
    (∀ id depth, (∃ n ∈ (dependencyGraph db direction info root pit maxDepth agentId).nodes, n.id = id ∧ n.depth = depth) ↔
        depth ≤ maxDepth ∧ AtDepth db direction pit agentId root depth id) ↔
      Unhidden db direction pit agentId root maxDepth := by
  constructor
  · intro depths n within id other reached
    obtain ⟨depth, shorter, least⟩ := reached.atDepth
    have listed := (depths id depth).mpr ⟨by omega, least⟩
    rcases (dependencyGraph_nodes linked deep).mp listed with ⟨same, _⟩ | ⟨_, ⟨_, walk, way, clear⟩, _⟩
    · exact absurd same other
    · exact ⟨walk, way, depth, shorter, clear⟩
  · intro unhidden id depth
    rw [dependencyGraph_nodes linked deep]
    constructor
    · rintro (⟨rfl, rfl⟩ | ⟨other, ⟨within, walk, way, clear⟩, least⟩)
      · exact ⟨Nat.zero_le _, atDepth_zero.mpr rfl⟩
      · refine ⟨within, ⟨walk, way, clear.steps⟩, fun n reached => ?_⟩
        by_contra below
        obtain ⟨walk', way', k, shorter, clear'⟩ := unhidden n (by omega) id other reached
        have above := least walk' way' k (by omega) clear'
        omega
    · rintro ⟨within, reached, least⟩
      by_cases same : id = root
      · subst same
        exact .inl ⟨rfl, AtDepth.unique ⟨reached, least⟩ (atDepth_zero.mpr rfl)⟩
      · obtain ⟨walk, way, k, shorter, clear⟩ := unhidden depth within id same reached
        have above := least k ⟨walk, way, clear.steps⟩
        obtain rfl : k = depth := by omega
        exact .inr ⟨same, ⟨within, walk, way, clear⟩, fun walk' way' k' _ clear' => least k' ⟨walk', way', clear'.steps⟩⟩

theorem lt_of_foldr_max {limit : Nat} (positive : 0 < limit) (ds : List Nat) : ds.foldr max 0 < limit ↔ ∀ d ∈ ds, d < limit := by
  induction ds with
  | nil => simp [positive]
  | cons d rest ih => simp [ih]

theorem result_exhausted_iff (g : DependencyGraph) (deep : 1 ≤ maxDepth) :
    (g.result info maxDepth pit).graphExhausted = true ↔ ∀ e ∈ g.edges, e.depth < maxDepth := by
  have edges := lt_of_foldr_max deep (g.edges.map (·.depth))
  simp only [DependencyGraph.result, Bool.or_eq_true, List.isEmpty_iff, decide_eq_true_eq, edges, List.forall_mem_map]
  exact or_iff_right_of_imp fun empty => by simp [empty]

/-- An edge of the graph says what its relation says. -/
def DependencyEdge.Of (e : DependencyEdge) (r : Relation) : Prop :=
  e.relationId = r.id ∧ e.sourceId = r.sourceId ∧ e.targetId = r.targetId ∧ e.predicate = r.predicate

theorem dependencyGraph_listed (linked : db.Linked) (deep : 1 ≤ maxDepth) {e : DependencyEdge}
    (member : e ∈ (dependencyGraph db direction info root pit maxDepth agentId).edges) : ∃ r ∈ db.relations.rows, e.Of r := by
  rw [dependencyGraph, addRows_eq, foldl_addRow_edges] at member
  have arrived : ∀ (kept : List DependencyEdge) (hits : List DependencyEdge), e ∈ hits.foldl (Arrivals.arrive (·.relationId)) kept →
      e ∈ kept ∨ e ∈ hits := by
    intro kept hits
    induction hits generalizing kept with
    | nil => exact .inl
    | cons hit rest ih =>
      intro member
      rcases ih _ member with kept | later
      · rcases Arrivals.mem_arrive kept with old | rfl
        · exact .inl old
        · exact .inr List.mem_cons_self
      · exact .inr (List.mem_cons_of_mem _ later)
  rcases arrived _ _ member with none_ | new
  · simp at none_
  · obtain ⟨hit, here, rfl⟩ := List.mem_map.mp new
    obtain ⟨_, _, walked⟩ := (mem_fetchDependencyRows linked deep).mp ⟨hit, (List.mem_insertionSort _).mp here, rfl, rfl⟩
    exact ⟨hit.row.relation, walked.listed, rfl, rfl, rfl, rfl⟩

/-- The graph is reported as exhausted only where nothing is beyond it, exactly where the boundary is fresh. -/
theorem dependencyGraph_exhausted_iff (linked : db.Linked) (deep : 1 ≤ maxDepth) :
    (((dependencyGraph db direction info root pit maxDepth agentId).result info maxDepth pit).graphExhausted = true →
        ∀ id depth, AtDepth db direction pit agentId root depth id → depth ≤ maxDepth) ↔
      FreshBoundary db direction pit agentId root maxDepth := by
  have last : (∃ e ∈ (dependencyGraph db direction info root pit maxDepth agentId).edges, maxDepth ≤ e.depth) ↔
      ∃ r, (∃ walk ∈ direction.walks, ClearOver db walk pit agentId root maxDepth r) ∧
        ∀ walk ∈ direction.walks, ∀ k < maxDepth, ¬ ClearOver db walk pit agentId root k r := by
    constructor
    · rintro ⟨e, member, boundary⟩
      obtain ⟨r, listed, named, _⟩ := dependencyGraph_listed linked deep member
      obtain ⟨⟨within, clear⟩, least⟩ := (dependencyGraph_edges linked deep listed).mp ⟨e, member, named, rfl⟩
      obtain level : e.depth = maxDepth := by omega
      refine ⟨r, level ▸ clear, fun walk way k shorter clear' => ?_⟩
      have above := least walk way k (by omega) clear'
      omega
    · rintro ⟨r, ⟨walk, way, clear⟩, fresh⟩
      obtain ⟨path, walked⟩ := clear
      have least : ∀ walk ∈ direction.walks, ∀ k ≤ maxDepth, ClearOver db walk pit agentId root k r → maxDepth ≤ k := by
        intro walk way k _ clear'
        by_contra below
        exact fresh walk way k (by omega) clear'
      obtain ⟨e, member, _, level⟩ := (dependencyGraph_edges linked deep walked.listed).mpr
        ⟨⟨Nat.le_refl _, walk, way, path, walked⟩, least⟩
      exact ⟨e, member, Nat.le_of_eq level.symm⟩
  rw [result_exhausted_iff _ deep, FreshBoundary, ← last]
  constructor
  · rintro exhausted ⟨id, depth, beyond, deeper⟩
    by_contra none_
    have all : ∀ e ∈ (dependencyGraph db direction info root pit maxDepth agentId).edges, e.depth < maxDepth := by
      intro e member
      by_contra boundary
      exact none_ ⟨e, member, by omega⟩
    have within := exhausted all id depth beyond
    omega
  · intro fresh all id depth beyond
    by_contra deeper
    obtain ⟨e, member, boundary⟩ := fresh ⟨id, depth, beyond, by omega⟩
    have below := all e member
    omega

/-- In one direction a walk that leaves the limit has its edge at the limit on no shorter path. -/
theorem Unhidden.freshBoundary (unhidden : Unhidden db direction pit agentId root maxDepth) (deep : 1 ≤ maxDepth)
    {way : WalkDirection} (single : direction.walks = [way]) : FreshBoundary db direction pit agentId root maxDepth := by
  rintro ⟨id, depth, ⟨⟨walk, listed, steps⟩, least⟩, deeper⟩
  obtain rfl : walk = way := by simpa [single] using listed
  have far : Distance (LeadsTo db walk pit agentId) root (maxDepth + (depth - maxDepth)) id := by
    rw [Nat.add_sub_cancel' (by omega)]
    exact ⟨steps, fun k other => least k ⟨walk, listed, other⟩⟩
  obtain ⟨y, near, _⟩ := far.split
  have other : y ≠ root := by
    rintro rfl
    have zero := near.2 0 .here
    omega
  have nearest : ∀ {k}, ClearTo db walk pit agentId root k y → maxDepth ≤ k := fun clear => near.2 _ clear.steps
  obtain ⟨walk', listed', k, within, clear⟩ := unhidden maxDepth (Nat.le_refl _) y other ⟨walk, listed, near.1⟩
  obtain rfl : walk' = walk := by simpa [single] using listed'
  obtain rfl : k = maxDepth := Nat.le_antisymm within (nearest clear)
  obtain ⟨r, crossed, rfl⟩ := clear
  refine ⟨r, ⟨walk', listed', crossed⟩, fun walk'' listed'' k' shorter crossed' => ?_⟩
  obtain rfl : walk'' = walk' := by simpa [single] using listed''
  have longer := nearest ⟨r, crossed', rfl⟩
  omega

theorem resolveEntityRef_visible {env : Env} {raw : String} (resolved : (resolveEntityRef env db raw agentId).resolved = some id) :
    ∃ e, db.entities.find id = some e ∧ visibleTo agentId e = true := by
  unfold resolveEntityRef at resolved
  split at resolved
  · simp at resolved
  · split at resolved
    · rename_i e found
      obtain rfl := Option.some.inj resolved
      obtain ⟨here, visible⟩ := Option.filter_eq_some_iff.mp found
      exact ⟨e, EntityTable.find_mem (EntityTable.find_some here).1, visible⟩
    · split at resolved
      · rename_i found
        obtain rfl := Option.some.inj resolved
        unfold resolveVisibleTitle at found
        split at found
        · simp at found
        · obtain ⟨e, here, rfl⟩ := Option.map_eq_some_iff.mp found
          obtain ⟨member, passes⟩ := List.mem_filter.mp (latest_mem here)
          simp only [Bool.and_eq_true] at passes
          exact ⟨e, EntityTable.find_mem member, passes.2⟩
      · unfold resolveIdPrefix at resolved
        dsimp only at resolved
        split at resolved
        · simp at resolved
        · split at resolved
          · simp at resolved
          · rename_i e rows
            have member : e ∈ ([e] : List Entity) := List.mem_singleton_self e
            rw [← rows] at member
            obtain ⟨member, passes⟩ := List.mem_filter.mp (List.mem_of_mem_take member)
            simp only [Bool.and_eq_true] at passes
            obtain rfl := Option.some.inj resolved
            exact ⟨e, EntityTable.find_mem member, passes.2⟩
          · simp at resolved

theorem analyzeDependencies_eq {env : Env} {ref : String} (direction : DependencyDirection) (pit : Instant) (maxDepth : Nat)
    (resolved : (resolveEntityRef env db ref agentId).resolved = some root) :
    ∃ info, analyzeDependencies env db ref maxDepth pit direction agentId =
      .ok ((dependencyGraph db direction info root pit maxDepth agentId).result info maxDepth pit) := by
  have named : ref ≠ "" := by
    rintro rfl
    simp [resolveEntityRef] at resolved
  obtain ⟨e, found, visible⟩ := resolveEntityRef_visible resolved
  refine ⟨dependencyRoot root (some e), ?_⟩
  simp only [analyzeDependencies, if_neg named, resolved, found, Option.filter_some, visible, if_true, Option.isNone_some, Bool.false_and,
    Bool.false_eq_true, if_false]
  rfl

theorem analyzeDependencies_complete_iff (env : Env) {db : Db} (linked : db.Linked) (direction : DependencyDirection) {ref : String}
    {root : EntityId} (pit : Instant) (agentId : Option String) {maxDepth : Nat} (deep : 1 ≤ maxDepth)
    (resolved : (resolveEntityRef env db ref agentId).resolved = some root) :
    ∃ result, analyzeDependencies env db ref maxDepth pit direction agentId = .ok result ∧
      (CompleteDependencies db direction pit agentId root maxDepth result ↔
        Unhidden db direction pit agentId root maxDepth ∧ (direction = .both → FreshBoundary db direction pit agentId root maxDepth)) := by
  obtain ⟨info, answer⟩ := analyzeDependencies_eq direction pit maxDepth resolved
  refine ⟨_, answer, ?_⟩
  constructor
  · intro complete
    exact ⟨(dependencyGraph_depths_iff linked deep).mp complete.depths,
      fun _ => (dependencyGraph_exhausted_iff linked deep).mp complete.exhausted⟩
  · rintro ⟨unhidden, boundary⟩
    refine ⟨dependencyGraph_once, (dependencyGraph_depths_iff linked deep).mpr unhidden, ?_⟩
    refine (dependencyGraph_exhausted_iff linked deep).mpr ?_
    cases direction with
    | outbound => exact unhidden.freshBoundary deep rfl
    | inbound => exact unhidden.freshBoundary deep rfl
    | both => exact boundary rfl

/-! ### Ids that contain one another -/

def dependsOnRow (id : RelationId) (sourceId targetId : EntityId) : Relation :=
  (RelationDraft.mk sourceId targetId "depends_on" 0 none none).row id

/-- "plan" depends on "note-10", and that on "note-1". -/
def nestedDb : Db :=
  { Db.init with
    entities := ⟨[memoryRow "plan" "Plan" "p", memoryRow "note-10" "Tenth note" "n", memoryRow "note-1" "First note" "o"], by decide⟩
    relations := ⟨[dependsOnRow 0 "plan" "note-10", dependsOnRow 1 "note-10" "note-1"], 2, by decide, by decide,
      List.pairwise_pair.mpr fun both => absurd both.2.2 (by decide)⟩ }

theorem nestedDb_linked : nestedDb.Linked := by
  unfold Db.Linked
  decide

theorem nestedDb_below : ∃ result, analyzeDependencies .plain nestedDb "note-10" 3 0 .both none = .ok result ∧
    (CompleteDependencies nestedDb .both 0 none "note-10" 3 result ↔
      Unhidden nestedDb .both 0 none "note-10" 3 ∧
        (DependencyDirection.both = .both → FreshBoundary nestedDb .both 0 none "note-10" 3)) :=
  analyzeDependencies_complete_iff .plain nestedDb_linked .both 0 none (by decide) (by rfl)

/-- The way to "note-1" leads over "note-10". -/
theorem nestedDb_hides : ∃ result, analyzeDependencies .plain nestedDb "plan" 5 0 .outbound none = .ok result ∧
    ¬ CompleteDependencies nestedDb .outbound 0 none "plan" 5 result := by
  obtain ⟨info, answer⟩ := analyzeDependencies_eq .outbound 0 5 (show (resolveEntityRef .plain nestedDb "plan" none).resolved = some "plan" by rfl)
  refine ⟨_, answer, fun complete => ?_⟩
  have ids : (dependencyGraph nestedDb .outbound info "plan" 0 5 none).nodes.map (·.id) = ["plan", "note-10"] := by rfl
  have first : LeadsTo nestedDb .outbound 0 none "plan" "note-10" := ⟨dependsOnRow 0 "plan" "note-10", by decide, rfl⟩
  have second : LeadsTo nestedDb .outbound 0 none "note-10" "note-1" := ⟨dependsOnRow 1 "note-10" "note-1", by decide, rfl⟩
  have reached : Reached nestedDb .outbound 0 none "plan" 2 "note-1" :=
    ⟨.outbound, List.mem_cons_self, .onward (.onward .here first) second⟩
  obtain ⟨depth, within, atDepth⟩ := reached.atDepth
  obtain ⟨n, member, named, _⟩ := (complete.depths "note-1" depth).mpr ⟨by omega, atDepth⟩
  have listed : n.id ∈ (dependencyGraph nestedDb .outbound info "plan" 0 5 none).nodes.map (·.id) := List.mem_map_of_mem member
  rw [ids, named] at listed
  exact absurd listed (by decide)

end SaltMdb
