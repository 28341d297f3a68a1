import SaltMdb.Relation.Reachable
import Mathlib

/-! The inbound traversal against the outbound one of the reversed graph. -/

namespace SaltMdb

/-! ### `LIKE` -/

theorem likeChars_self (id rest : List Char) : likeChars (id ++ ['%']) (id ++ rest) = true := by
  induction id with
  | nil =>
    simp only [List.nil_append, likeChars, if_true]
    exact List.any_eq_true.mpr ⟨[], (List.mem_tails _ _).mpr List.nil_suffix, rfl⟩
  | cons c id ih =>
    simp only [List.cons_append, likeChars]
    split
    · refine List.any_eq_true.mpr ⟨id ++ rest, (List.mem_tails _ _).mpr (List.suffix_cons c _), ih⟩
    · simp [ih]

/-- An id matches every text that it occurs in. -/
theorem pathMatches_of_infix {path id : String} (inside : id.toList <:+: path.toList) : pathMatches path id = true := by
  obtain ⟨before, rest, same⟩ := inside
  unfold pathMatches
  rw [← same, List.append_assoc]
  simp only [List.cons_append, likeChars, if_true]
  exact List.any_eq_true.mpr ⟨id.toList ++ rest, (List.mem_tails _ _).mpr (List.suffix_append _ _), likeChars_self _ _⟩

section
variable {next : EntityId → List Relation} {reached : Relation → EntityId} {seedPath : Relation → String} {root : EntityId}

theorem GuardedPath.endsWith (seeded : ∀ r, ∃ front, seedPath r = front ++ reached r) {k : Nat} {r : Relation} {path : String}
    (walked : GuardedPath next reached seedPath root k r path) : (reached r).toList <:+: path.toList := by
  cases walked with
  | seed =>
    obtain ⟨front, same⟩ := seeded r
    rw [same, String.toList_append]
    exact (List.suffix_append _ _).isInfix
  | hop =>
    rw [String.toList_append]
    exact (List.suffix_append _ _).isInfix

theorem GuardedPath.startsWith (seeded : ∀ r ∈ next root, ∃ rest, seedPath r = root ++ rest) {k : Nat} {r : Relation} {path : String}
    (walked : GuardedPath next reached seedPath root k r path) : root.toList <+: path.toList := by
  induction walked with
  | seed step =>
    obtain ⟨rest, same⟩ := seeded _ step
    rw [same, String.toList_append]
    exact List.prefix_append _ _
  | hop _ _ _ ih =>
    rw [String.append_assoc, String.toList_append]
    exact ih.trans (List.prefix_append _ _)

end

/-! ### The reversed graph -/

def Relation.reversed (r : Relation) : Relation := { r with sourceId := r.targetId, targetId := r.sourceId }

theorem Relation.reversed_reversed (r : Relation) : r.reversed.reversed = r := rfl

def RelationTable.reversed (T : RelationTable) : RelationTable where
  rows := T.rows.map Relation.reversed
  next := T.next
  below := by
    intro r member
    obtain ⟨old, here, rfl⟩ := List.mem_map.mp member
    exact T.below old here
  distinct := List.pairwise_map.mpr T.distinct
  unique := by
    refine List.pairwise_map.mpr (T.unique.imp fun apart collide => apart ⟨collide.1, collide.2.1, ?_⟩)
    have edge := collide.2.2
    simp only [Relation.edge, Relation.reversed, Edge.mk.injEq] at edge ⊢
    exact ⟨edge.2.2, edge.2.1, edge.1⟩

def Db.reversed (db : Db) : Db := { db with relations := db.relations.reversed }

variable {db : Db} {pit : Instant} {agentId : Option String} {root id : EntityId}

theorem visibleTo_reversed (r : Relation) : r.reversed.visibleTo db.reversed agentId = r.visibleTo db agentId := by
  cases agentId with
  | none => rfl
  | some agent => exact Bool.and_comm _ _

theorem dependencyStep_reversed : dependencyStep db.reversed .outbound pit agentId id =
    (dependencyStep db .inbound pit agentId id).map Relation.reversed := by
  unfold dependencyStep
  rw [show db.reversed.relations.rows = db.relations.rows.map Relation.reversed from rfl, List.filter_map]
  refine congrArg (List.map Relation.reversed) (List.filter_congr fun r _ => ?_)
  simp only [Function.comp_apply, visibleTo_reversed]
  rfl

theorem Db.Linked.reversed (linked : db.Linked) : db.reversed.Linked := by
  intro r member
  obtain ⟨old, here, rfl⟩ := List.mem_map.mp member
  exact (linked old here).symm

/-- A walk against the edges, guarded as the outbound walk of the reversed graph is: its text starts with the root. -/
def MirrorOver (db : Db) (pit : Instant) (agentId : Option String) (root : EntityId) (k : Nat) (r : Relation) : Prop :=
  ∃ path, GuardedPath (dependencyStep db .inbound pit agentId) WalkDirection.inbound.reached (fun r => r.targetId ++ "->" ++ r.sourceId)
    root k r path

theorem guardedPath_reversed {k : Nat} {r : Relation} {path : String} :
    DependencyPath db.reversed .outbound pit agentId root k r.reversed path ↔
      GuardedPath (dependencyStep db .inbound pit agentId) WalkDirection.inbound.reached (fun r => r.targetId ++ "->" ++ r.sourceId)
        root k r path := by
  have steps : ∀ {id r}, r.reversed ∈ dependencyStep db.reversed .outbound pit agentId id ↔ r ∈ dependencyStep db .inbound pit agentId id := by
    intro id r
    rw [dependencyStep_reversed]
    constructor
    · intro member
      obtain ⟨old, here, same⟩ := List.mem_map.mp member
      rw [← Relation.reversed_reversed r, ← same, Relation.reversed_reversed]
      exact here
    · exact List.mem_map_of_mem
  unfold DependencyPath
  cases k with
  | zero => exact ⟨fun walked => absurd walked.pos (Nat.not_succ_le_zero 0), fun walked => absurd walked.pos (Nat.not_succ_le_zero 0)⟩
  | succ k =>
    induction k generalizing r path with
    | zero =>
      rw [guardedPath_one, guardedPath_one, steps]
      rfl
    | succ k ih =>
      rw [guardedPath_succ (Nat.le_add_left 1 k), guardedPath_succ (Nat.le_add_left 1 k)]
      constructor
      · rintro ⟨before, text, walked, step, unmatched, same⟩
        rw [← Relation.reversed_reversed before] at walked
        exact ⟨before.reversed, text, ih.mp walked, steps.mp step, unmatched, same⟩
      · rintro ⟨before, text, walked, step, unmatched, same⟩
        exact ⟨before.reversed, text, ih.mpr walked, steps.mpr step, unmatched, same⟩

theorem clearOver_reversed {k : Nat} {r : Relation} :
    ClearOver db.reversed .outbound pit agentId root k r.reversed ↔ MirrorOver db pit agentId root k r :=
  exists_congr fun _ => guardedPath_reversed

/-! ### The two traversals -/

/-- The same memories and edges at the same depths, the edges the other way. -/
structure MirrorImage (inbound outbound : DependencyResult) : Prop where
  nodes : ∀ id depth, (∃ n ∈ inbound.dependencies, n.id = id ∧ n.depth = depth) ↔ ∃ n ∈ outbound.dependencies, n.id = id ∧ n.depth = depth
  edges : ∀ (r : Relation) (depth : Nat), (∃ e ∈ inbound.edges, e.Of r ∧ e.depth = depth) ↔
    ∃ e ∈ outbound.edges, e.Of r.reversed ∧ e.depth = depth

/-- No walk against the edges comes back to the root, and what one of the two guards lets through is reached as soon by a walk
that the other lets through. -/
structure MirrorGuards (db : Db) (pit : Instant) (agentId : Option String) (root : EntityId) (bound : Nat) : Prop where
  noReturn : ∀ k ≤ bound, 2 ≤ k → ∀ r, ClearOver db .inbound pit agentId root k r → r.sourceId ≠ root
  there : ∀ k ≤ bound, ∀ r, ClearOver db .inbound pit agentId root k r → ∃ j ≤ k, MirrorOver db pit agentId root j r
  back : ∀ k ≤ bound, ∀ r, MirrorOver db pit agentId root k r → ∃ j ≤ k, ClearOver db .inbound pit agentId root j r

theorem least_iff {p q : Nat → Prop} {bound : Nat} (there : ∀ k ≤ bound, p k → ∃ j ≤ k, q j) (back : ∀ k ≤ bound, q k → ∃ j ≤ k, p j) {d : Nat} :
    ((d ≤ bound ∧ p d) ∧ ∀ k ≤ bound, p k → d ≤ k) ↔ (d ≤ bound ∧ q d) ∧ ∀ k ≤ bound, q k → d ≤ k := by
  have half : ∀ {p q : Nat → Prop}, (∀ k ≤ bound, p k → ∃ j ≤ k, q j) → (∀ k ≤ bound, q k → ∃ j ≤ k, p j) →
      ((d ≤ bound ∧ p d) ∧ ∀ k ≤ bound, p k → d ≤ k) → (d ≤ bound ∧ q d) ∧ ∀ k ≤ bound, q k → d ≤ k := by
    rintro p q there back ⟨⟨within, here⟩, least⟩
    have below : ∀ k ≤ bound, q k → d ≤ k := by
      intro k kept holds
      obtain ⟨j, shorter, holds⟩ := back k kept holds
      have above := least j (by omega) holds
      omega
    obtain ⟨j, shorter, holds⟩ := there d within here
    obtain rfl : j = d := Nat.le_antisymm shorter (below j (by omega) holds)
    exact ⟨⟨within, holds⟩, below⟩
  exact ⟨half there back, half back there⟩

theorem exists_least {p : Nat → Prop} {k : Nat} (holds : p k) : ∃ d ≤ k, p d ∧ ∀ j, p j → d ≤ j := by
  classical
  have some_ : ∃ k, p k := ⟨k, holds⟩
  exact ⟨Nat.find some_, Nat.find_le holds, Nat.find_spec some_, fun j other => Nat.find_le other⟩

variable {info info' : DependencyRoot} {bound depth : Nat}

theorem nodes_of_iff (linked : db.Linked) (deep : 1 ≤ bound) {walk : WalkDirection} {direction : DependencyDirection}
    (single : direction.walks = [walk]) :
    (∃ n ∈ (dependencyGraph db direction info root pit bound agentId).nodes, n.id = id ∧ n.depth = depth) ↔
      id = root ∧ depth = 0 ∨ id ≠ root ∧ (depth ≤ bound ∧ ClearTo db walk pit agentId root depth id) ∧
        ∀ k ≤ bound, ClearTo db walk pit agentId root k id → depth ≤ k := by
  rw [dependencyGraph_nodes linked deep]
  simp only [single, List.mem_singleton, exists_eq_left, forall_eq]

/-- An edge of the graph of one direction is its relation at the least length of a path over it. -/
theorem edges_of_iff (linked : db.Linked) (deep : 1 ≤ bound) {walk : WalkDirection} {direction : DependencyDirection}
    (single : direction.walks = [walk]) {r : Relation} :
    (∃ e ∈ (dependencyGraph db direction info root pit bound agentId).edges, e.Of r ∧ e.depth = depth) ↔
      (∃ kept ∈ db.relations.rows, kept.id = r.id ∧ kept.edge = r.edge ∧
        (depth ≤ bound ∧ ClearOver db walk pit agentId root depth kept) ∧ ∀ k ≤ bound, ClearOver db walk pit agentId root k kept → depth ≤ k) := by
  constructor
  · rintro ⟨e, member, ⟨named, source, target, predicate⟩, level⟩
    obtain ⟨kept, listed, same, source', target', predicate'⟩ := dependencyGraph_listed linked deep member
    obtain ⟨⟨within, found⟩, least⟩ := (dependencyGraph_edges linked deep listed).mp ⟨e, member, same, level⟩
    simp only [single, List.mem_singleton, exists_eq_left, forall_eq] at found least
    refine ⟨kept, listed, same.symm.trans named, ?_, ⟨within, found⟩, least⟩
    rw [Relation.edge, Relation.edge, ← source, ← target, ← predicate, source', target', predicate']
  · rintro ⟨kept, listed, named, edge, ⟨within, clear⟩, least⟩
    have found : ∃ e ∈ (dependencyGraph db direction info root pit bound agentId).edges, e.relationId = kept.id ∧ e.depth = depth := by
      refine (dependencyGraph_edges linked deep listed).mpr ?_
      simp only [single, List.mem_singleton, exists_eq_left, forall_eq]
      exact ⟨⟨within, clear⟩, least⟩
    obtain ⟨e, member, same, level⟩ := found
    obtain ⟨other, listed', named', source, target, predicate⟩ := dependencyGraph_listed linked deep member
    obtain rfl := RelationTable.id_unique listed' listed (named'.symm.trans same)
    simp only [Relation.edge, Edge.mk.injEq] at edge
    exact ⟨e, member, ⟨same.trans named, source.trans edge.1, target.trans edge.2.2, predicate.trans edge.2.1⟩, level⟩

theorem inboundEdges_iff (linked : db.Linked) (deep : 1 ≤ bound) {r : Relation} :
    (∃ e ∈ (dependencyGraph db .inbound info root pit bound agentId).edges, e.Of r ∧ e.depth = depth) ↔
      ∃ kept ∈ db.relations.rows, kept.id = r.id ∧ kept.edge = r.edge ∧
        (depth ≤ bound ∧ ClearOver db .inbound pit agentId root depth kept) ∧
          ∀ k ≤ bound, ClearOver db .inbound pit agentId root k kept → depth ≤ k :=
  edges_of_iff linked deep rfl

theorem mirrorEdges_iff (linked : db.Linked) (deep : 1 ≤ bound) {r : Relation} :
    (∃ e ∈ (dependencyGraph db.reversed .outbound info root pit bound agentId).edges, e.Of r.reversed ∧ e.depth = depth) ↔
      ∃ kept ∈ db.relations.rows, kept.id = r.id ∧ kept.edge = r.edge ∧
        (depth ≤ bound ∧ MirrorOver db pit agentId root depth kept) ∧ ∀ k ≤ bound, MirrorOver db pit agentId root k kept → depth ≤ k := by
  have turned : ∀ {kept : Relation}, kept.reversed.edge = r.reversed.edge ↔ kept.edge = r.edge := by
    intro kept
    simp only [Relation.edge, Relation.reversed, Edge.mk.injEq]
    exact ⟨fun same => ⟨same.2.2, same.2.1, same.1⟩, fun same => ⟨same.2.2, same.2.1, same.1⟩⟩
  rw [edges_of_iff linked.reversed deep rfl]
  constructor
  · rintro ⟨_, listed, named, edge, found, least⟩
    obtain ⟨kept, here, rfl⟩ := List.mem_map.mp listed
    simp only [clearOver_reversed] at found least
    exact ⟨kept, here, named, turned.mp edge, found, least⟩
  · rintro ⟨kept, here, named, edge, found, least⟩
    refine ⟨kept.reversed, List.mem_map_of_mem here, named, turned.mpr edge, ?_, ?_⟩
    · rw [clearOver_reversed]
      exact found
    · intro k within clear
      exact least k within (clearOver_reversed.mp clear)

theorem mirrorTo_iff {k : Nat} : ClearTo db.reversed .outbound pit agentId root k id ↔
    ∃ r, MirrorOver db pit agentId root k r ∧ r.sourceId = id := by
  constructor
  · rintro ⟨r, clear, reached⟩
    exact ⟨r.reversed, clearOver_reversed.mp clear, reached⟩
  · rintro ⟨r, crossed, reached⟩
    exact ⟨r.reversed, clearOver_reversed.mpr crossed, reached⟩

theorem MirrorGuards.image (guards : MirrorGuards db pit agentId root bound) (linked : db.Linked) (deep : 1 ≤ bound)
    (info info' : DependencyRoot) :
    MirrorImage ((dependencyGraph db .inbound info root pit bound agentId).result info bound pit)
      ((dependencyGraph db.reversed .outbound info' root pit bound agentId).result info' bound pit) where
  nodes := by
    intro id depth
    have inbound : (∃ n ∈ (dependencyGraph db .inbound info root pit bound agentId).nodes, n.id = id ∧ n.depth = depth) ↔ _ :=
      nodes_of_iff linked deep rfl
    have outbound : (∃ n ∈ (dependencyGraph db.reversed .outbound info' root pit bound agentId).nodes, n.id = id ∧ n.depth = depth) ↔ _ :=
      nodes_of_iff linked.reversed deep rfl
    refine inbound.trans (Iff.trans ?_ outbound.symm)
    refine or_congr_right (and_congr_right fun _ => ?_)
    refine least_iff (p := fun k => ClearTo db .inbound pit agentId root k id)
      (q := fun k => ClearTo db.reversed .outbound pit agentId root k id) ?_ ?_
    · rintro k within ⟨r, crossed, reached⟩
      obtain ⟨j, shorter, crossed⟩ := guards.there k within r crossed
      exact ⟨j, shorter, mirrorTo_iff.mpr ⟨r, crossed, reached⟩⟩
    · intro k within clear
      obtain ⟨r, crossed, reached⟩ := mirrorTo_iff.mp clear
      obtain ⟨j, shorter, crossed⟩ := guards.back k within r crossed
      exact ⟨j, shorter, r, crossed, reached⟩
  edges := by
    intro r depth
    have inbound : (∃ e ∈ (dependencyGraph db .inbound info root pit bound agentId).edges, e.Of r ∧ e.depth = depth) ↔ _ :=
      inboundEdges_iff linked deep
    have outbound : (∃ e ∈ (dependencyGraph db.reversed .outbound info' root pit bound agentId).edges, e.Of r.reversed ∧ e.depth = depth) ↔ _ :=
      mirrorEdges_iff linked deep
    refine inbound.trans (Iff.trans ?_ outbound.symm)
    refine exists_congr fun kept => and_congr_right fun _ => and_congr_right fun _ => and_congr_right fun _ => ?_
    exact least_iff (fun k within crossed => guards.there k within kept crossed) fun k within crossed => guards.back k within kept crossed

theorem MirrorOver.listed {k : Nat} {r : Relation} (crossed : MirrorOver db pit agentId root k r) : r ∈ db.relations.rows := by
  obtain ⟨path, walked⟩ := crossed
  obtain ⟨id, step⟩ := walked.last
  exact (dependencyStep_mem.mp step).1

/-- A walk of the mirrored guard never comes back to the root, unless over an edge of the root to itself. -/
theorem MirrorOver.fresh {k : Nat} {r : Relation} (crossed : MirrorOver db pit agentId root k r) (returns : r.sourceId = root) :
    r.targetId = root := by
  obtain ⟨path, walked⟩ := crossed
  rcases Nat.lt_or_ge k 2 with short | long
  · obtain rfl : k = 1 := by
      have positive := walked.pos
      omega
    exact (dependencyStep_mem.mp (guardedPath_one.mp walked).1).2.1
  · obtain ⟨k, rfl⟩ := Nat.exists_eq_add_of_le long
    rw [Nat.add_comm, guardedPath_succ (Nat.le_add_left 1 k)] at walked
    obtain ⟨before, text, walked, step, unmatched, _⟩ := walked
    have seeded : ∀ r ∈ dependencyStep db .inbound pit agentId root, ∃ rest, r.targetId ++ "->" ++ r.sourceId = root ++ rest := by
      intro r step
      have target : r.targetId = root := (dependencyStep_mem.mp step).2.1
      exact ⟨"->" ++ r.sourceId, by rw [target, String.append_assoc]⟩
    have known := pathMatches_of_infix (walked.startsWith seeded).isInfix
    rw [show WalkDirection.inbound.reached r = root from returns, known] at unmatched
    exact absurd unmatched (by simp)

theorem MirrorGuards.of_image (image : MirrorImage ((dependencyGraph db .inbound info root pit bound agentId).result info bound pit)
      ((dependencyGraph db.reversed .outbound info' root pit bound agentId).result info' bound pit))
    (linked : db.Linked) (deep : 1 ≤ bound) : MirrorGuards db pit agentId root bound := by
  have there : ∀ k ≤ bound, ∀ r, ClearOver db .inbound pit agentId root k r → ∃ j ≤ k, MirrorOver db pit agentId root j r := by
    intro k within r crossed
    obtain ⟨d, shorter, clear, least⟩ := exists_least (p := fun k => ClearOver db .inbound pit agentId root k r) crossed
    have listed : r ∈ db.relations.rows := clear.elim fun _ walked => walked.listed
    have shown := (image.edges r d).mp <| (inboundEdges_iff linked deep).mpr
      ⟨r, listed, rfl, rfl, ⟨Nat.le_trans shorter within, clear⟩, fun j _ => least j⟩
    obtain ⟨kept, here, named, _, ⟨_, crossed⟩, _⟩ := (mirrorEdges_iff linked deep).mp shown
    exact ⟨d, shorter, RelationTable.id_unique here listed named ▸ crossed⟩
  refine ⟨?noReturn, there, ?back⟩
  case back =>
    intro k within r crossed
    obtain ⟨d, shorter, clear, least⟩ := exists_least (p := fun k => MirrorOver db pit agentId root k r) crossed
    have shown := (image.edges r d).mpr <| (mirrorEdges_iff linked deep).mpr
      ⟨r, clear.listed, rfl, rfl, ⟨Nat.le_trans shorter within, clear⟩, fun j _ => least j⟩
    obtain ⟨kept, here, named, _, ⟨_, crossed⟩, _⟩ := (inboundEdges_iff linked deep).mp shown
    exact ⟨d, shorter, RelationTable.id_unique here clear.listed named ▸ crossed⟩
  case noReturn =>
    rintro k within long r ⟨path, walked⟩ returns
    obtain ⟨j, _, crossed⟩ := there k within r ⟨path, walked⟩
    have target := crossed.fresh returns
    -- the step before was at the root already, which its text names
    obtain ⟨k, rfl⟩ := Nat.exists_eq_add_of_le long
    rw [DependencyPath, Nat.add_comm, guardedPath_succ (Nat.le_add_left 1 k)] at walked
    obtain ⟨before, text, walked, step, unmatched, _⟩ := walked
    have at_ : WalkDirection.inbound.reached before = r.targetId := (dependencyStep_mem.mp step).2.1.symm
    have known := pathMatches_of_infix (walked.endsWith fun r => ⟨r.sourceId ++ "->", rfl⟩)
    rw [at_, target] at known
    rw [show WalkDirection.inbound.reached r = root from returns, known] at unmatched
    exact absurd unmatched (by simp)

/-- The first rows are there at every limit. -/
theorem dependencyGraph_limit (direction : DependencyDirection) (maxDepth : Nat) :
    dependencyGraph db direction info root pit maxDepth agentId = dependencyGraph db direction info root pit (max 1 maxDepth) agentId := by
  have hops : max 1 maxDepth - 1 = maxDepth - 1 := by omega
  simp only [dependencyGraph, fetchDependencyRows, dependencyQuery, hops]

theorem inbound_mirrors_iff (env : Env) {db : Db} (linked : db.Linked) {ref : String} {root : EntityId} (pit : Instant)
    (agentId : Option String) (maxDepth : Nat) (resolved : (resolveEntityRef env db ref agentId).resolved = some root) :
    ∃ inbound outbound, analyzeDependencies env db ref maxDepth pit .inbound agentId = .ok inbound ∧
      analyzeDependencies env db.reversed ref maxDepth pit .outbound agentId = .ok outbound ∧
      (MirrorImage inbound outbound ↔ MirrorGuards db pit agentId root (max 1 maxDepth)) := by
  have turned : (resolveEntityRef env db.reversed ref agentId).resolved = some root := by
    rw [resolveEntityRef_congr env (show db.reversed.entities = db.entities from rfl)]
    exact resolved
  obtain ⟨info, inbound⟩ := analyzeDependencies_eq .inbound pit maxDepth resolved
  obtain ⟨info', outbound⟩ := analyzeDependencies_eq .outbound pit maxDepth turned
  refine ⟨_, _, inbound, outbound, ?_⟩
  rw [dependencyGraph_limit .inbound maxDepth, dependencyGraph_limit .outbound maxDepth]
  have deep : 1 ≤ max 1 maxDepth := Nat.le_max_left 1 maxDepth
  constructor
  · intro image
    have shown : MirrorImage ((dependencyGraph db .inbound info root pit (max 1 maxDepth) agentId).result info (max 1 maxDepth) pit)
      ((dependencyGraph db.reversed .outbound info' root pit (max 1 maxDepth) agentId).result info' (max 1 maxDepth) pit) :=
      ⟨image.nodes, image.edges⟩
    exact .of_image shown linked deep
  · intro guards
    have image := guards.image linked deep info info'
    exact ⟨image.nodes, image.edges⟩

theorem nestedDb_mirrors : ∃ inbound outbound, analyzeDependencies .plain nestedDb "note-1" 5 0 .inbound none = .ok inbound ∧
    analyzeDependencies .plain nestedDb.reversed "note-1" 5 0 .outbound none = .ok outbound ∧
    (MirrorImage inbound outbound ↔ MirrorGuards nestedDb 0 none "note-1" (max 1 5)) :=
  inbound_mirrors_iff .plain nestedDb_linked 0 none 5 (by rfl)

/-! ### A cycle through the root -/

/-- "plan" and "note" depend on each other. -/
theorem planNote_distinct : [memoryRow "plan" "Plan" "p", memoryRow "note" "Note" "n"].Pairwise fun a b => a.id ≠ b.id := by
  decide

def cycleDb : Db :=
  { Db.init with
    entities := ⟨[memoryRow "plan" "Plan" "p", memoryRow "note" "Note" "n"], planNote_distinct⟩
    relations := ⟨[dependsOnRow 0 "note" "plan", dependsOnRow 1 "plan" "note"], 2, by decide, by decide,
      List.pairwise_pair.mpr fun both => absurd both.2.2 (by decide)⟩ }

/-- The inbound walk lists the edge that leaves the root, the mirrored one does not. -/
theorem cycleDb_unmirrored : ∃ inbound outbound, analyzeDependencies .plain cycleDb "plan" 2 0 .inbound none = .ok inbound ∧
    analyzeDependencies .plain cycleDb.reversed "plan" 2 0 .outbound none = .ok outbound ∧ ¬ MirrorImage inbound outbound := by
  have resolved : (resolveEntityRef .plain cycleDb "plan" none).resolved = some "plan" := by rfl
  obtain ⟨info, inbound⟩ := analyzeDependencies_eq .inbound 0 2 resolved
  have turned : (resolveEntityRef .plain cycleDb.reversed "plan" none).resolved = some "plan" := by rfl
  obtain ⟨info', outbound⟩ := analyzeDependencies_eq .outbound 0 2 turned
  refine ⟨_, _, inbound, outbound, fun image => ?_⟩
  have linked : cycleDb.Linked := by
    unfold Db.Linked
    decide
  have first : dependsOnRow 0 "note" "plan" ∈ dependencyStep cycleDb .inbound 0 none "plan" := by decide
  have second : dependsOnRow 1 "plan" "note" ∈ dependencyStep cycleDb .inbound 0 none "note" := by decide
  have returns : ClearOver cycleDb .inbound 0 none "plan" 2 (dependsOnRow 1 "plan" "note") :=
    ⟨_, .hop (.seed first) second (by decide)⟩
  exact (MirrorGuards.of_image image linked (by decide)).noReturn 2 (by decide) (by decide) _ returns rfl

end SaltMdb
