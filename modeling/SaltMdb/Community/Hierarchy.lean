import Mathlib.Data.List.Dedup
import Mathlib.Data.List.Nodup
import Mathlib.Data.List.Sort
import Mathlib.Data.Rat.Defs
import Mathlib.Algebra.Order.Ring.Rat
import SaltMdb.Library.Nested
import SaltMdb.Lineage.Query
import SaltMdb.Schema.Fresh

/-! `community_detection_service`: communities of the relation graph, split while they are large, and the rows written for them. -/

namespace SaltMdb
open Nested

def communityHierarchySizeThreshold : Nat := 20

def communityHierarchyMaxDepth : Nat := 2

/-- An undirected graph of numbered vertices. -/
structure CommunityGraph where
  size : Nat
  edges : List (Nat × Nat)

/-- The vertices of a group, numbered by their places in it, and the edges among them. -/
def CommunityGraph.subgraph (graph : CommunityGraph) (group : List Nat) : CommunityGraph where
  size := group.length
  edges := graph.edges.filterMap fun (a, b) => do return (← group.idxOf? a, ← group.idxOf? b)

/-- The graph and vector libraries: the partition of each pass of the finder, the rank of each vertex, the weighted centroid and
the cosine of two vectors. -/
structure CommunityFinder (ν : Type) where
  findPartition : Nat → CommunityGraph → List (List Nat)
  pagerank : CommunityGraph → Nat → Rat
  weightedCentroid : List (EntityId × ν) → List EntityId → List (EntityId × Rat) → ν
  cosine : ν → ν → Rat

structure CommunityRow where
  id : String
  representativeEntityId : Option EntityId
  memberCount : Nat
  level : Nat
  createdAt : Instant
  parentCommunityId : Option String
deriving DecidableEq, Repr

structure MembershipRow where
  entityId : EntityId
  communityId : String
  level : Nat
deriving DecidableEq, Repr

structure PartitionScope where
  graph : CommunityGraph
  nodeIds : List EntityId
  level : Nat
  parentCommunityId : Option String

/-- The rows collected for the write, with the ids and the finder's passes drawn so far. -/
structure CommunityRows (ν : Type) where
  now : Instant
  rawVector : List (EntityId × ν)
  communities : List CommunityRow
  membership : List MembershipRow
  embeddings : List (String × ν)
  draws : Nat
  passes : Nat

structure GroupInputs (ν : Type) where
  memberIds : List EntityId
  topIds : List EntityId
  centroidSource : List (EntityId × ν)
  pagerankById : List (EntityId × Rat)

structure CommunityGroup (ν : Type) where
  memberIds : List EntityId
  representativeId : Option EntityId
  centroidVec : Option ν

def sortedIds (ids : List EntityId) : List EntityId := ids.mergeSort fun a b => decide (a ≤ b)

variable {ν : Type} (env : Env) (finder : CommunityFinder ν)

def communityMembers (nodeIds : List EntityId) (group : List Nat) : List EntityId := sortedIds (group.filterMap (nodeIds[·]?))

/-- The ids of the greatest score. -/
def topScored (scored : List (EntityId × Rat)) : List EntityId :=
  sortedIds ((scored.filter (some ·.2 = (scored.map (·.2)).max?)).map (·.1))

def communityGroupInputs (group : List Nat) (graph : CommunityGraph) (nodeIds : List EntityId) (rawVector : List (EntityId × ν)) :
    GroupInputs ν :=
  let memberIds := communityMembers nodeIds group
  let source := memberIds.filterMap fun id => (rawVector.lookup id).map (id, ·)
  if memberIds.length = 1 then ⟨memberIds, [], source, memberIds.map (·, 1)⟩
  else
    let scores := finder.pagerank (graph.subgraph group)
    let pagerank := group.zipIdx.filterMap fun (v, i) => nodeIds[v]?.map (·, scores i)
    ⟨memberIds, topScored pagerank, source, pagerank⟩

def communityCentroid (inputs : GroupInputs ν) : Option ν :=
  if inputs.centroidSource.isEmpty then none
  else some (finder.weightedCentroid inputs.centroidSource inputs.memberIds inputs.pagerankById)

def communityRepresentative (topIds : List EntityId) (centroidVec : Option ν) (rawVector : List (EntityId × ν)) : Option EntityId :=
  if topIds.length = 1 then topIds.head?
  else
    match centroidVec with
    | none => (sortedIds topIds).head?
    | some centroid =>
      let cosine := fun id => ((rawVector.lookup id).map (finder.cosine · centroid)).getD (-1)
      (topScored (topIds.map fun id => (id, cosine id))).head?

def computeCommunityGroup (group : List Nat) (graph : CommunityGraph) (nodeIds : List EntityId) (rawVector : List (EntityId × ν)) :
    CommunityGroup ν :=
  let inputs := communityGroupInputs finder group graph nodeIds rawVector
  let centroidVec := communityCentroid finder inputs
  { memberIds := inputs.memberIds
    representativeId := if inputs.memberIds.length = 1 then inputs.memberIds.head?
      else communityRepresentative finder inputs.topIds centroidVec rawVector
    centroidVec }

/-- The row of one group, with the vector of its centroid. -/
def CommunityRows.addCommunity (rows : CommunityRows ν) (group : CommunityGroup ν) (scope : PartitionScope) : CommunityRows ν :=
  { rows with
    communities := rows.communities ++
      [⟨env.uuid4 rows.draws, group.representativeId, group.memberIds.length, scope.level, rows.now, scope.parentCommunityId⟩]
    embeddings := rows.embeddings ++ group.centroidVec.toList.map (env.uuid4 rows.draws, ·)
    draws := rows.draws + 1 }

def PartitionScope.child (scope : PartitionScope) (sortedGroup : List Nat) (communityId : String) : PartitionScope :=
  ⟨scope.graph.subgraph sortedGroup, sortedGroup.filterMap (scope.nodeIds[·]?), scope.level + 1, some communityId⟩

def sortedGroup (groupIndices : List Nat) : List Nat := groupIndices.mergeSort fun a b => decide (a ≤ b)

/-- `add_group`: the group's own row, then either those of a further pass over it or its membership rows. -/
def addGroup (rows : CommunityRows ν) (groupIndices : List Nat) (scope : PartitionScope) : CommunityRows ν :=
  let group := computeCommunityGroup finder (sortedGroup groupIndices) scope.graph scope.nodeIds rows.rawVector
  let communityId := env.uuid4 rows.draws
  let rows := rows.addCommunity env group scope
  if communityHierarchySizeThreshold < group.memberIds.length ∧ scope.level < communityHierarchyMaxDepth then
    let child := scope.child (sortedGroup groupIndices) communityId
    (finder.findPartition rows.passes child.graph).foldl (fun rows group => addGroup rows group child)
      { rows with passes := rows.passes + 1 }
  else { rows with membership := rows.membership ++ group.memberIds.map (⟨·, communityId, scope.level⟩) }
termination_by communityHierarchyMaxDepth - scope.level
decreasing_by
  simp only [PartitionScope.child]
  omega

/-! ### The tables -/

structure CommunityTables (ν : Type) where
  communities : List CommunityRow
  membership : List MembershipRow
  embeddings : List (String × ν)

def CommunityTables.insertCommunity (db : Db) (tables : CommunityTables ν) (row : CommunityRow) : Except Exc (CommunityTables ν) :=
  match row.representativeEntityId with
  | none => .error (.integrityError "NOT NULL constraint failed: communities.representative_entity_id")
  | some representative =>
    if tables.communities.any (·.id == row.id) then .error (.integrityError "UNIQUE constraint failed: communities.id")
    else if (db.entities.find representative).isSome &&
        row.parentCommunityId.all fun parent => tables.communities.any (·.id == parent) then
      .ok { tables with communities := tables.communities ++ [row] }
    else .error (.integrityError "FOREIGN KEY constraint failed")

def CommunityTables.insertMembership (db : Db) (tables : CommunityTables ν) (row : MembershipRow) : Except Exc (CommunityTables ν) :=
  if tables.membership.any (·.entityId == row.entityId) then
    .error (.integrityError "UNIQUE constraint failed: community_membership.entity_id")
  else if (db.entities.find row.entityId).isSome && tables.communities.any (·.id == row.communityId) then
    .ok { tables with membership := tables.membership ++ [row] }
  else .error (.integrityError "FOREIGN KEY constraint failed")

/-- `_write`: the old rows go, the new ones are inserted in the order in which they were collected. -/
def writeCommunities (db : Db) (vectorExtensionLoaded : Bool) (tables : CommunityTables ν) (rows : CommunityRows ν) :
    Except Exc (CommunityTables ν) := do
  let emptied : CommunityTables ν := { tables with communities := [], membership := [] }
  let listed ← rows.communities.foldlM (CommunityTables.insertCommunity db) emptied
  let placed ← rows.membership.foldlM (CommunityTables.insertMembership db) listed
  return if vectorExtensionLoaded then { placed with embeddings := rows.embeddings } else placed

/-- The relation rows that hold now between two memories that are not archived. -/
def communityEdgeRows (db : Db) (now : Instant) : List (EntityId × EntityId) :=
  (db.relations.rows.filter fun r =>
    (db.entities.find r.sourceId).any (·.status != .archived) && (db.entities.find r.targetId).any (·.status != .archived) &&
      r.validIn now).map fun r => (r.sourceId, r.targetId)

/-- The pairs without loops, each written with its smaller id first, once. -/
def communityEdgeSet (rows : List (EntityId × EntityId)) : List (EntityId × EntityId) :=
  ((rows.filter fun (source, target) => source != target).map fun (source, target) =>
    if source ≤ target then (source, target) else (target, source)).dedup

def clusteredNodes (edges : List (EntityId × EntityId)) : List EntityId :=
  sortedIds (edges.flatMap fun (a, b) => [a, b]).dedup

def communityGraph (edges : List (EntityId × EntityId)) (nodeIds : List EntityId) : CommunityGraph where
  size := nodeIds.length
  edges := edges.map fun (a, b) => (nodeIds.idxOf a, nodeIds.idxOf b)

structure RecomputeResult where
  status : String
  communitiesCreated : Nat
  nodesClustered : Option Nat
  communitiesMissingEmbedding : Option Nat
deriving DecidableEq, Repr

/-- The rows of every group of the first pass. -/
def collectCommunities (now : Instant) (rawVector : List (EntityId × ν)) (draws : Nat) (graph : CommunityGraph)
    (nodeIds : List EntityId) : CommunityRows ν :=
  (finder.findPartition 0 graph).foldl (fun rows group => addGroup env finder rows group ⟨graph, nodeIds, 0, none⟩)
    ⟨now, rawVector, [], [], [], draws, 1⟩

def recomputeCommunities (db : Db) (entityEmbeddings : List (EntityId × ν)) (vectorExtensionLoaded : Bool) (supply : Supply)
    (tables : CommunityTables ν) : Except Exc (RecomputeResult × CommunityTables ν) :=
  let now := env.clock supply.readings
  let edgeSet := communityEdgeSet (communityEdgeRows db now)
  let nodeIds := clusteredNodes edgeSet
  if edgeSet.isEmpty then
    .ok (⟨"no_edges", 0, none, none⟩, ⟨[], [], if vectorExtensionLoaded then [] else tables.embeddings⟩)
  else
    let rawVector := if vectorExtensionLoaded then entityEmbeddings.filter (nodeIds.contains ·.1) else []
    let rows := collectCommunities env finder now rawVector supply.draws (communityGraph edgeSet nodeIds) nodeIds
    (writeCommunities db vectorExtensionLoaded tables rows).map fun tables =>
      (⟨"recomputed", rows.communities.length, some nodeIds.length, some (rows.communities.length - rows.embeddings.length)⟩, tables)

/-! ### A group and its members -/

variable {finder}

/-- What is asked of the finder: each pass partitions the vertices of the graph it is given. -/
structure CommunityFinder.Partitions (finder : CommunityFinder ν) : Prop where
  nonempty : ∀ pass graph, ∀ group ∈ finder.findPartition pass graph, group ≠ []
  covers : ∀ pass graph, (finder.findPartition pass graph).flatten.Perm (List.range graph.size)

theorem sortedIds_perm (ids : List EntityId) : (sortedIds ids).Perm ids := List.mergeSort_perm ids _

theorem sortedGroup_perm (group : List Nat) : (sortedGroup group).Perm group := List.mergeSort_perm group _

theorem communityMembers_perm (nodeIds : List EntityId) (group : List Nat) :
    (communityMembers nodeIds (sortedGroup group)).Perm (group.filterMap (nodeIds[·]?)) :=
  (sortedIds_perm _).trans ((sortedGroup_perm group).filterMap _)

theorem filterMap_range (nodeIds : List EntityId) : (List.range nodeIds.length).filterMap (nodeIds[·]?) = nodeIds := by
  induction nodeIds with
  | nil => rfl
  | cons id rest ih =>
    rw [List.length_cons, List.range_succ_eq_map, List.filterMap_cons, List.filterMap_map]
    exact congrArg (id :: ·) ih

/-- The groups of a partition of the places hold the nodes, each in one of them. -/
theorem members_partition {nodeIds : List EntityId} {groups : List (List Nat)}
    (covers : groups.flatten.Perm (List.range nodeIds.length)) :
    ((groups.map fun group => communityMembers nodeIds (sortedGroup group)).flatten).Perm nodeIds := by
  have named : (groups.flatten.filterMap (nodeIds[·]?)).Perm nodeIds := by
    have perm := covers.filterMap (nodeIds[·]?)
    rwa [filterMap_range] at perm
  refine List.Perm.trans ?_ named
  clear covers named
  induction groups with
  | nil => exact List.Perm.refl _
  | cons group groups ih =>
    rw [List.map_cons, List.flatten_cons, List.flatten_cons, List.filterMap_append]
    exact (communityMembers_perm nodeIds group).append ih

theorem members_ne_nil {nodeIds : List EntityId} {group : List Nat} (nonempty : group ≠ [])
    (bounded : ∀ v ∈ group, v < nodeIds.length) : communityMembers nodeIds (sortedGroup group) ≠ [] := by
  obtain ⟨v, rest, rfl⟩ := List.exists_cons_of_ne_nil nonempty
  intro empty
  have inside := bounded v List.mem_cons_self
  have known : nodeIds[v]? = some nodeIds[v] := List.getElem?_eq_getElem inside
  have listed := (communityMembers_perm nodeIds (v :: rest)).mem_iff.mpr
    (List.mem_filterMap.mpr ⟨v, List.mem_cons_self, known⟩)
  rw [empty] at listed
  exact List.not_mem_nil listed

theorem head_mem {α : Type} {rows : List α} (nonempty : rows ≠ []) : ∃ a ∈ rows, rows.head? = some a := by
  obtain ⟨a, rest, rfl⟩ := List.exists_cons_of_ne_nil nonempty
  exact ⟨a, List.mem_cons_self, rfl⟩

theorem topScored_mem {scored : List (EntityId × Rat)} {id : EntityId} (top : id ∈ topScored scored) : ∃ s, (id, s) ∈ scored := by
  obtain ⟨⟨_, score⟩, kept, rfl⟩ := List.mem_map.mp ((sortedIds_perm _).subset top)
  exact ⟨score, (List.mem_filter.mp kept).1⟩

/-- Some id has the greatest score. -/
theorem topScored_ne_nil {scored : List (EntityId × Rat)} (nonempty : scored ≠ []) : topScored scored ≠ [] := by
  intro none_
  have perm : (topScored scored).Perm _ := sortedIds_perm _
  rw [none_] at perm
  have empty := List.nil_perm.mp perm
  cases best : (scored.map (·.2)).max? with
  | none => exact nonempty (List.map_eq_nil_iff.mp (List.max?_eq_none_iff.mp best))
  | some top =>
    have attained : Std.MaxEqOr Rat := ⟨fun a b => max_choice a b⟩
    obtain ⟨p, listed, same⟩ := List.mem_map.mp (List.max?_mem best)
    have kept := List.mem_map_of_mem (f := (·.1))
      (List.mem_filter (p := (some ·.2 = (scored.map (·.2)).max?)).mpr ⟨listed, decide_eq_true (same ▸ best.symm)⟩)
    rw [empty] at kept
    exact List.not_mem_nil kept

variable (finder)

theorem communityRepresentative_mem {topIds : List EntityId} (nonempty : topIds ≠ []) (centroidVec : Option ν)
    (rawVector : List (EntityId × ν)) : ∃ r ∈ topIds, communityRepresentative finder topIds centroidVec rawVector = some r := by
  unfold communityRepresentative
  split
  · exact head_mem nonempty
  · cases centroidVec with
    | none =>
      have sorted : sortedIds topIds ≠ [] := fun empty => nonempty (List.nil_perm.mp (empty ▸ (sortedIds_perm topIds)))
      obtain ⟨r, listed, first⟩ := head_mem sorted
      exact ⟨r, (sortedIds_perm topIds).subset listed, first⟩
    | some centroid =>
      obtain ⟨r, listed, first⟩ := head_mem (topScored_ne_nil fun empty => nonempty (List.map_eq_nil_iff.mp empty))
      obtain ⟨score, scored⟩ := topScored_mem listed
      obtain ⟨id, known, same⟩ := List.mem_map.mp scored
      exact ⟨r, (Prod.mk.inj same).1 ▸ known, first⟩

theorem computeCommunityGroup_memberIds (group : List Nat) (graph : CommunityGraph) (nodeIds : List EntityId)
    (rawVector : List (EntityId × ν)) :
    (computeCommunityGroup finder group graph nodeIds rawVector).memberIds = communityMembers nodeIds group := by
  unfold computeCommunityGroup communityGroupInputs
  dsimp only
  split <;> rfl

theorem ranked_ids (group : List Nat) (nodeIds : List EntityId) (scores : Nat → Rat) :
    (group.zipIdx.filterMap fun (v, i) => nodeIds[v]?.map fun id => (id, scores i)).map (·.1) = group.filterMap (nodeIds[·]?) := by
  have plain : group.filterMap (nodeIds[·]?) = (group.zipIdx.map (·.1)).filterMap (nodeIds[·]?) := by rw [List.zipIdx_map_fst]
  rw [plain, List.filterMap_map, List.map_filterMap]
  refine List.filterMap_congr fun ⟨v, i⟩ _ => ?_
  show Option.map _ (Option.map _ _) = _
  rw [Option.map_map]
  exact Option.map_id'

/-- The representative of a group is one of its members. -/
theorem representative_mem {group : List Nat} {nodeIds : List EntityId} (nonempty : group ≠ [])
    (bounded : ∀ v ∈ group, v < nodeIds.length) (graph : CommunityGraph) (rawVector : List (EntityId × ν)) :
    ∃ r ∈ communityMembers nodeIds (sortedGroup group),
      (computeCommunityGroup finder (sortedGroup group) graph nodeIds rawVector).representativeId = some r := by
  have listed := members_ne_nil nonempty bounded
  unfold computeCommunityGroup communityGroupInputs
  dsimp only
  split
  · exact head_mem listed
  · generalize finder.pagerank (graph.subgraph (sortedGroup group)) = scores
    have ranked := ranked_ids (sortedGroup group) nodeIds scores
    have members : (communityMembers nodeIds (sortedGroup group)).Perm ((sortedGroup group).filterMap (nodeIds[·]?)) := sortedIds_perm _
    generalize ((sortedGroup group).zipIdx.filterMap fun (v, i) => nodeIds[v]?.map fun id => (id, scores i)) = pagerank at ranked
    have nonempty : pagerank ≠ [] := by
      rintro rfl
      rw [← ranked] at members
      exact listed (List.perm_nil.mp members)
    obtain ⟨r, top, representative⟩ := communityRepresentative_mem finder (topScored_ne_nil nonempty) _ rawVector
    obtain ⟨score, scored⟩ := topScored_mem top
    have known : r ∈ pagerank.map (·.1) := List.mem_map_of_mem scored
    exact ⟨r, members.mem_iff.mpr (ranked ▸ known), representative⟩

/-! ### The collected rows -/

/-- A row with the members it counts. -/
def communityEntry (row : CommunityRow × List EntityId) : Entry String EntityId :=
  ⟨row.1.id, row.1.parentCommunityId, row.1.level, row.2⟩

def membershipRow (p : Place String EntityId) : MembershipRow := ⟨p.member, p.leaf, p.level⟩

/-- What the rows of some groups of a scope add to the rows collected before. -/
structure Emitted (scope : PartitionScope) (groups : List (List EntityId)) (before after : CommunityRows ν)
    (rows : List (CommunityRow × List EntityId)) (places : List (Place String EntityId)) : Prop where
  forest : Forest communityHierarchyMaxDepth scope.parentCommunityId scope.level groups (rows.map communityEntry) places
  communities : after.communities = before.communities ++ rows.map (·.1)
  membership : after.membership = before.membership ++ places.map membershipRow
  draws : after.draws = before.draws + rows.length
  ids : rows.map (·.1.id) = (List.range' before.draws rows.length).map env.uuid4
  counted : ∀ row ∈ rows, row.1.memberCount = row.2.length ∧ row.2.Nodup ∧ ∃ r ∈ row.2, row.1.representativeEntityId = some r

variable {env finder} {scope : PartitionScope} {before middle after : CommunityRows ν}

theorem Emitted.refl (before : CommunityRows ν) : Emitted env scope [] before before [] [] where
  forest := .nil _ _
  communities := (List.append_nil _).symm
  membership := (List.append_nil _).symm
  draws := rfl
  ids := rfl
  counted := by simp

theorem Emitted.trans {groups groups' : List (List EntityId)} {rows rows' : List (CommunityRow × List EntityId)}
    {places places' : List (Place String EntityId)} (first : Emitted env scope groups before middle rows places)
    (second : Emitted env scope groups' middle after rows' places') :
    Emitted env scope (groups ++ groups') before after (rows ++ rows') (places ++ places') where
  forest := by
    rw [List.map_append]
    exact first.forest.append second.forest
  communities := by rw [second.communities, first.communities, List.map_append, List.append_assoc]
  membership := by rw [second.membership, first.membership, List.map_append, List.append_assoc]
  draws := by rw [second.draws, first.draws, List.length_append, Nat.add_assoc]
  ids := by
    rw [List.map_append, first.ids, second.ids, first.draws, List.length_append, ← List.map_append, List.range'_append_1]
  counted := fun row listed => (List.mem_append.mp listed).elim (first.counted row) (second.counted row)

/-- A scope names each vertex of its graph, and no two alike. -/
structure PartitionScope.WellNamed (scope : PartitionScope) : Prop where
  sized : scope.nodeIds.length = scope.graph.size
  distinct : scope.nodeIds.Nodup
  shallow : scope.level ≤ communityHierarchyMaxDepth

/-- A group of the finder: places of the scope, each once. -/
structure PartitionScope.Holds (scope : PartitionScope) (group : List Nat) : Prop where
  nonempty : group ≠ []
  bounded : ∀ v ∈ group, v < scope.nodeIds.length
  distinct : group.Nodup

def PartitionScope.members (scope : PartitionScope) (group : List Nat) : List EntityId :=
  communityMembers scope.nodeIds (sortedGroup group)

theorem foldl_emitted {groups : List (List Nat)} (collect : CommunityRows ν → List Nat → CommunityRows ν)
    (emits : ∀ before, ∀ group ∈ groups, ∃ rows places, Emitted env scope [scope.members group] before (collect before group) rows places)
    (before : CommunityRows ν) :
    ∃ rows places, Emitted env scope (groups.map scope.members) before (groups.foldl collect before) rows places := by
  induction groups generalizing before with
  | nil => exact ⟨[], [], .refl before⟩
  | cons group groups ih =>
    obtain ⟨rows, places, first⟩ := emits before group List.mem_cons_self
    obtain ⟨rows', places', rest⟩ := ih (fun before other listed => emits before other (List.mem_cons_of_mem _ listed)) (collect before group)
    exact ⟨rows ++ rows', places ++ places', first.trans rest⟩

theorem members_nodup (named : scope.WellNamed) {group : List Nat} (holds : scope.Holds group) : (scope.members group).Nodup := by
  refine (communityMembers_perm scope.nodeIds group).nodup_iff.mpr ?_
  refine List.Nodup.filterMap (fun a b x here there => ?_) holds.distinct
  obtain ⟨inside, same⟩ := List.getElem?_eq_some_iff.mp here
  obtain ⟨inside', same'⟩ := List.getElem?_eq_some_iff.mp there
  exact (named.distinct.getElem_inj_iff).mp (same.trans same'.symm)

/-- The groups of a pass over a scope are groups of the scope. -/
theorem partition_holds (partitions : finder.Partitions) (named : scope.WellNamed) (pass : Nat) :
    ∀ group ∈ finder.findPartition pass scope.graph, scope.Holds group := by
  intro group listed
  have covers := partitions.covers pass scope.graph
  refine ⟨partitions.nonempty pass scope.graph group listed, fun v member => ?_, ?_⟩
  · have flat : v ∈ (finder.findPartition pass scope.graph).flatten := List.mem_flatten.mpr ⟨group, listed, member⟩
    rw [named.sized]
    exact List.mem_range.mp (covers.mem_iff.mp flat)
  · exact List.nodup_flatten.mp (covers.nodup_iff.mpr List.nodup_range) |>.1 group listed

theorem named_length {nodeIds : List EntityId} {group : List Nat} (bounded : ∀ v ∈ group, v < nodeIds.length) :
    (group.filterMap (nodeIds[·]?)).length = group.length := by
  induction group with
  | nil => rfl
  | cons v group ih =>
    have inside := bounded v List.mem_cons_self
    rw [List.filterMap_cons, List.getElem?_eq_getElem inside, List.length_cons, List.length_cons,
      ih fun w later => bounded w (List.mem_cons_of_mem _ later)]

/-- The scope of a further pass names the members of the group. -/
theorem child_nodeIds (group : List Nat) (communityId : String) :
    (scope.child (sortedGroup group) communityId).nodeIds.Perm (scope.members group) := (sortedIds_perm _).symm

theorem child_named (named : scope.WellNamed) {group : List Nat} (holds : scope.Holds group) (deeper : scope.level < communityHierarchyMaxDepth)
    (communityId : String) : (scope.child (sortedGroup group) communityId).WellNamed := by
  refine ⟨?_, (child_nodeIds group communityId).nodup_iff.mpr (members_nodup named holds), deeper⟩
  exact named_length fun v listed => holds.bounded v ((sortedGroup_perm group).subset listed)

/-- The row of a group alone, before its members are placed. -/
theorem addCommunity_row (before : CommunityRows ν) (group : List Nat) (scope : PartitionScope) :
    ∃ row : CommunityRow,
      (before.addCommunity env (computeCommunityGroup finder (sortedGroup group) scope.graph scope.nodeIds before.rawVector) scope).communities =
        before.communities ++ [row] ∧
      row.id = env.uuid4 before.draws ∧ row.parentCommunityId = scope.parentCommunityId ∧ row.level = scope.level ∧
      row.memberCount = (scope.members group).length ∧
      row.representativeEntityId =
        (computeCommunityGroup finder (sortedGroup group) scope.graph scope.nodeIds before.rawVector).representativeId := by
  refine ⟨_, rfl, rfl, rfl, rfl, ?_, rfl⟩
  exact congrArg _ (computeCommunityGroup_memberIds finder (sortedGroup group) scope.graph scope.nodeIds before.rawVector)

theorem child_partition (partitions : finder.Partitions) {child : PartitionScope} (named : child.WellNamed) (pass : Nat) :
    (((finder.findPartition pass child.graph).map child.members).flatten).Perm child.nodeIds :=
  members_partition (named.sized ▸ partitions.covers pass child.graph)

/-- A group emits its row, and then the groups that it is split into, or the places of its members. -/
theorem addGroup_emitted (partitions : finder.Partitions) (before : CommunityRows ν) (group : List Nat) (scope : PartitionScope)
    (named : scope.WellNamed) (holds : scope.Holds group) :
    ∃ rows places, Emitted env scope [scope.members group] before (addGroup env finder before group scope) rows places := by
  induction before, group, scope using addGroup.induct env finder with
  | case1 before group scope computed communityId oversized child ih =>
    obtain ⟨row, listed, own, parent, level, counted, representative⟩ := addCommunity_row before group scope
    obtain ⟨r, known, leads⟩ := representative_mem finder holds.nonempty holds.bounded scope.graph before.rawVector
    have childNamed : child.WellNamed := child_named named holds oversized.2 communityId
    rw [addGroup]
    dsimp only
    rw [if_pos oversized]
    generalize within : before.addCommunity env computed scope = collected
    have whole : collected.communities = before.communities ++ [row] := by rw [← within]; exact listed
    have placed : collected.membership = before.membership := by rw [← within]; rfl
    have drawn : collected.draws = before.draws + 1 := by rw [← within]; rfl
    have groups := partition_holds partitions childNamed collected.passes
    have emits : ∀ before, ∀ other ∈ finder.findPartition collected.passes child.graph, ∃ rows places,
        Emitted env child [child.members other] before (addGroup env finder before other child) rows places :=
      fun before other listed => ih before other childNamed (groups other listed)
    obtain ⟨rows, places, deeper⟩ := foldl_emitted (fun rows group => addGroup env finder rows group child) emits
      { collected with passes := collected.passes + 1 }
    refine ⟨(row, scope.members group) :: rows, places, ?_⟩
    have parts := (child_partition partitions childNamed collected.passes).trans (child_nodeIds group communityId)
    have nonempty : (finder.findPartition collected.passes child.graph).map child.members ≠ [] := by
      intro empty
      rw [empty] at parts
      exact members_ne_nil holds.nonempty holds.bounded (List.nil_perm.mp parts)
    constructor
    · have below : Forest communityHierarchyMaxDepth (some row.id) (scope.level + 1)
          ((finder.findPartition collected.passes child.graph).map child.members) (rows.map communityEntry) places := by
        rw [own]
        exact deeper.forest
      have forest := Forest.split row.id (scope.members group) oversized.2 nonempty parts below
        (.nil scope.parentCommunityId scope.level)
      rw [List.append_nil, List.append_nil] at forest
      rw [List.map_cons, communityEntry, parent, level]
      exact forest
    · rw [deeper.communities, List.map_cons, whole, List.append_assoc]
      rfl
    · rw [deeper.membership, placed]
    · rw [deeper.draws, drawn, List.length_cons, Nat.add_assoc, Nat.add_comm 1]
    · rw [List.map_cons, deeper.ids, drawn, own, List.length_cons, List.range'_succ, List.map_cons]
    · intro p member
      rcases List.mem_cons.mp member with rfl | later
      · exact ⟨counted, members_nodup named holds, r, known, representative.trans leads⟩
      · exact deeper.counted p later
  | case2 before group scope computed whole =>
    obtain ⟨row, listed, own, parent, level, counted, representative⟩ := addCommunity_row before group scope
    obtain ⟨r, known, leads⟩ := representative_mem finder holds.nonempty holds.bounded scope.graph before.rawVector
    have members : computed.memberIds = scope.members group := computeCommunityGroup_memberIds ..
    rw [addGroup]
    dsimp only
    rw [if_neg whole]
    refine ⟨[(row, scope.members group)], (scope.members group).map (⟨·, row.id, scope.level⟩), ?_⟩
    constructor
    · have forest := Forest.leaf row.id (scope.members group) named.shallow (.nil scope.parentCommunityId scope.level)
      rw [List.append_nil] at forest
      rw [List.map_cons, communityEntry, parent, level]
      exact forest
    · exact listed
    · show before.membership ++ computed.memberIds.map _ = _
      rw [members, List.map_map, own]
      rfl
    · rfl
    · rw [List.map_cons, own]
      rfl
    · intro p member
      rw [List.mem_singleton] at member
      subst member
      exact ⟨counted, members_nodup named holds, r, known, representative.trans leads⟩

/-! ### The written rows -/

theorem foldlM_insert {σ ρ ε : Type} {insert : σ → ρ → Except ε σ} {rows : List ρ} (put : List ρ → σ)
    (fine : ∀ before row after, rows = before ++ row :: after → insert (put before) row = .ok (put (before ++ [row]))) :
    rows.foldlM insert (put []) = .ok (put rows) := by
  have run : ∀ rest before, rows = before ++ rest → rest.foldlM insert (put before) = .ok (put rows) := by
    intro rest
    induction rest with
    | nil =>
      intro before same
      rw [same, List.append_nil]
      rfl
    | cons row rest ih =>
      intro before same
      rw [List.foldlM_cons, fine before row rest same]
      exact ih (before ++ [row]) (by rw [same, List.append_assoc]; rfl)
  exact run rows [] rfl

variable {db : Db} {groups : List (List EntityId)} {rows : List (CommunityRow × List EntityId)} {places : List (Place String EntityId)}

theorem Emitted.ids_nodup (emitted : Emitted env scope groups before after rows places) (fresh : Function.Injective env.uuid4) :
    (rows.map (·.1.id)).Nodup := by
  rw [emitted.ids]
  exact (List.nodup_range' (s := before.draws) (n := rows.length)).map fresh

theorem insertCommunity_ok {tables : CommunityTables ν} {row : CommunityRow} {r : EntityId} (leads : row.representativeEntityId = some r)
    (known : (db.entities.find r).isSome = true) (fresh : row.id ∉ tables.communities.map (·.id))
    (parent : ∀ p, row.parentCommunityId = some p → p ∈ tables.communities.map (·.id)) :
    tables.insertCommunity db row = .ok { tables with communities := tables.communities ++ [row] } := by
  have unused : tables.communities.any (·.id == row.id) = false := by
    rw [List.any_eq_false]
    intro other listed same
    exact fresh (eq_of_beq same ▸ List.mem_map_of_mem listed)
  have joined : (row.parentCommunityId.all fun parent => tables.communities.any (·.id == parent)) = true := by
    cases own : row.parentCommunityId with
    | none => rfl
    | some p =>
      obtain ⟨other, listed, same⟩ := List.mem_map.mp (parent p own)
      exact List.any_eq_true.mpr ⟨other, listed, beq_iff_eq.mpr same⟩
  unfold CommunityTables.insertCommunity
  rw [leads]
  dsimp only
  rw [unused, known, joined]
  rfl

theorem insertMembership_ok {tables : CommunityTables ν} {row : MembershipRow} (known : (db.entities.find row.entityId).isSome = true)
    (fresh : row.entityId ∉ tables.membership.map (·.entityId)) (joined : row.communityId ∈ tables.communities.map (·.id)) :
    tables.insertMembership db row = .ok { tables with membership := tables.membership ++ [row] } := by
  have unused : tables.membership.any (·.entityId == row.entityId) = false := by
    rw [List.any_eq_false]
    intro other listed same
    exact fresh (eq_of_beq same ▸ List.mem_map_of_mem listed)
  have found : tables.communities.any (·.id == row.communityId) = true := by
    obtain ⟨other, listed, same⟩ := List.mem_map.mp joined
    exact List.any_eq_true.mpr ⟨other, listed, beq_iff_eq.mpr same⟩
  unfold CommunityTables.insertMembership
  rw [unused, known, found]
  rfl

/-- The rows of a whole hierarchy meet every constraint of the tables, in the order in which they were collected. -/
theorem writeCommunities_ok (emitted : Emitted env scope groups before after rows places) (bare : before.communities = [] ∧ before.membership = [])
    (root : scope.parentCommunityId = none) (fresh : Function.Injective env.uuid4) (distinct : groups.flatten.Nodup)
    (known : ∀ id ∈ groups.flatten, (db.entities.find id).isSome = true) (vectorExtensionLoaded : Bool) (tables : CommunityTables ν) :
    writeCommunities db vectorExtensionLoaded tables after =
      .ok ⟨rows.map (·.1), places.map membershipRow, if vectorExtensionLoaded then after.embeddings else tables.embeddings⟩ := by
  have listed : after.communities = rows.map (·.1) := by rw [emitted.communities, bare.1, List.nil_append]
  have placed : after.membership = places.map membershipRow := by rw [emitted.membership, bare.2, List.nil_append]
  have first : (rows.map (·.1)).foldlM (CommunityTables.insertCommunity db) { tables with communities := [], membership := [] } =
      .ok { tables with communities := rows.map (·.1), membership := [] } := by
    let put (communities : List CommunityRow) : CommunityTables ν := ⟨communities, [], tables.embeddings⟩
    refine foldlM_insert put fun b row a split => ?_
    obtain ⟨rows₁, rest, rfl, rfl, tail⟩ := List.map_eq_append_iff.mp split
    obtain ⟨p, rows₂, rfl, rfl, rfl⟩ := List.map_eq_cons_iff.mp tail
    have member : p ∈ rows₁ ++ p :: rows₂ := List.mem_append_right _ List.mem_cons_self
    obtain ⟨_, _, r, inside, leads⟩ := emitted.counted p member
    have ids := emitted.ids_nodup fresh
    rw [List.map_append, List.map_cons, List.nodup_append] at ids
    refine insertCommunity_ok leads (known r (emitted.forest.members_mem (List.mem_map_of_mem member) inside)) ?_ ?_
    · intro same
      rw [List.map_map] at same
      exact ids.2.2 _ same _ List.mem_cons_self rfl
    · intro parent own
      rcases emitted.forest.ordered (by rw [List.map_append, List.map_cons]) with ⟨top, _⟩ | ⟨q, earlier, same, _⟩
      · exact absurd (own.symm.trans (top.trans root)) (Option.some_ne_none _)
      · obtain ⟨q', earlier', rfl⟩ := List.mem_map.mp earlier
        have eq : q'.1.id = parent := Option.some.inj (same.symm.trans own)
        exact eq ▸ List.mem_map_of_mem (List.mem_map_of_mem earlier')
  have second : (places.map membershipRow).foldlM (CommunityTables.insertMembership db) { tables with communities := rows.map (·.1), membership := [] } =
      .ok { tables with communities := rows.map (·.1), membership := places.map membershipRow } := by
    let put (membership : List MembershipRow) : CommunityTables ν := ⟨rows.map (·.1), membership, tables.embeddings⟩
    refine foldlM_insert put fun b row a split => ?_
    obtain ⟨places₁, rest, rfl, rfl, tail⟩ := List.map_eq_append_iff.mp split
    obtain ⟨p, places₂, rfl, rfl, rfl⟩ := List.map_eq_cons_iff.mp tail
    have member : p ∈ places₁ ++ p :: places₂ := List.mem_append_right _ List.mem_cons_self
    have perm := emitted.forest.places_perm
    have once := perm.nodup_iff.mpr distinct
    rw [List.map_append, List.map_cons, List.nodup_append] at once
    obtain ⟨e, entered, leaf, _, _⟩ := emitted.forest.place_entry member
    obtain ⟨q, found, rfl⟩ := List.mem_map.mp entered
    refine insertMembership_ok (known _ (perm.subset (List.mem_map_of_mem member))) ?_ ?_
    · intro same
      rw [List.map_map] at same
      exact once.2.2 _ same _ List.mem_cons_self rfl
    · have joined : q.1.id ∈ (rows.map (·.1)).map (·.id) := List.mem_map_of_mem (List.mem_map_of_mem found)
      exact (congrArg (· ∈ (rows.map (·.1)).map (·.id)) leaf).mpr joined
  unfold writeCommunities
  dsimp only
  rw [listed, placed, first]
  simp only [bind, Except.bind, second]
  cases vectorExtensionLoaded <;> rfl

/-! ### The hierarchy -/

def CommunityTables.childrenOf (tables : CommunityTables ν) (parent : Option String) : List CommunityRow :=
  tables.communities.filter (·.parentCommunityId = parent)

def CommunityTables.rowsIn (tables : CommunityTables ν) (communityId : String) : List MembershipRow :=
  tables.membership.filter (·.communityId = communityId)

/-- The tables hold a hierarchy over the nodes, where each community has the given members. -/
structure CommunityHierarchy (nodeIds : List EntityId) (tables : CommunityTables ν) (members : String → List EntityId) : Prop where
  identified : (tables.communities.map (·.id)).Nodup
  counted : ∀ c ∈ tables.communities, c.memberCount = (members c.id).length ∧ (members c.id).Nodup
  roots : ((tables.childrenOf none).flatMap (members ·.id)).Perm nodeIds
  leaf : ∀ c ∈ tables.communities, tables.childrenOf (some c.id) = [] →
    tables.rowsIn c.id = (members c.id).map (⟨·, c.id, c.level⟩)
  split : ∀ c ∈ tables.communities, tables.childrenOf (some c.id) ≠ [] →
    ((tables.childrenOf (some c.id)).flatMap (members ·.id)).Perm (members c.id) ∧ tables.rowsIn c.id = []
  placed : ∀ row ∈ tables.membership, ∃ c ∈ tables.communities, row.communityId = c.id ∧ row.level = c.level ∧
    tables.childrenOf (some c.id) = []
  once : nodeIds.Nodup ∧ (tables.membership.map (·.entityId)).Perm nodeIds
  shallow : ∀ c ∈ tables.communities, c.level ≤ communityHierarchyMaxDepth
  ordered : ∀ before c after, tables.communities = before ++ c :: after →
    (c.parentCommunityId = none ∧ c.level = 0) ∨ ∃ q ∈ before, c.parentCommunityId = some q.id ∧ c.level = q.level + 1

/-- The members that a community was collected with. -/
def membersOf (rows : List (CommunityRow × List EntityId)) (id : String) : List EntityId :=
  ((rows.find? (·.1.id == id)).map (·.2)).getD []

theorem membersOf_row (distinct : (rows.map (·.1.id)).Nodup) {p : CommunityRow × List EntityId} (listed : p ∈ rows) :
    membersOf rows p.1.id = p.2 := by
  unfold membersOf
  cases found : rows.find? (·.1.id == p.1.id) with
  | none =>
    have differ := List.find?_eq_none.mp found p listed
    simp at differ
  | some q =>
    have same : q.1.id = p.1.id := by simpa using List.find?_some found
    have eq := List.inj_on_of_nodup_map distinct (List.mem_of_find?_eq_some found) listed same
    rw [eq]
    rfl

theorem childrenOf_rows (membership : List MembershipRow) (embeddings : List (String × ν)) (parent : Option String) :
    (CommunityTables.mk (rows.map (·.1)) membership embeddings).childrenOf parent =
      (rows.filter (·.1.parentCommunityId = parent)).map (·.1) := List.filter_map

theorem under_rows (parent : Option String) :
    Forest.under parent (rows.map communityEntry) = (rows.filter (·.1.parentCommunityId = parent)).map communityEntry :=
  List.filter_map

theorem children_members (distinct : (rows.map (·.1.id)).Nodup) (membership : List MembershipRow) (embeddings : List (String × ν))
    (parent : Option String) :
    ((CommunityTables.mk (rows.map (·.1)) membership embeddings).childrenOf parent).flatMap (membersOf rows ·.id) =
      (Forest.under parent (rows.map communityEntry)).flatMap (·.members) := by
  rw [childrenOf_rows, under_rows, List.flatMap_map, List.flatMap_map]
  exact List.flatMap_congr fun p kept => membersOf_row distinct (List.mem_filter.mp kept).1

theorem children_nil (membership : List MembershipRow) (embeddings : List (String × ν)) (parent : Option String) :
    (CommunityTables.mk (rows.map (·.1)) membership embeddings).childrenOf parent = [] ↔
      Forest.under parent (rows.map communityEntry) = [] := by
  rw [childrenOf_rows, under_rows, List.map_eq_nil_iff, List.map_eq_nil_iff]

theorem rowsIn_places (communities : List CommunityRow) (embeddings : List (String × ν)) (id : String) :
    (CommunityTables.mk communities (places.map membershipRow) embeddings).rowsIn id = (Forest.within id places).map membershipRow :=
  List.filter_map

/-- What is collected from the root scope is a hierarchy over its groups. -/
theorem Emitted.hierarchy (emitted : Emitted env scope groups before after rows places) (root : scope.parentCommunityId = none)
    (top : scope.level = 0) (fresh : Function.Injective env.uuid4) {nodeIds : List EntityId} (covers : groups.flatten.Perm nodeIds)
    (distinct : nodeIds.Nodup) (embeddings : List (String × ν)) :
    CommunityHierarchy nodeIds ⟨rows.map (·.1), places.map membershipRow, embeddings⟩ (membersOf rows) := by
  have ids := emitted.ids_nodup fresh
  have entryIds : ((rows.map communityEntry).map (·.id)).Nodup := by rwa [List.map_map]
  have apart : ∀ e ∈ rows.map communityEntry, scope.parentCommunityId ≠ some e.id := fun e _ same =>
    Option.some_ne_none _ (same.symm.trans root)
  have cases_ : ∀ p ∈ rows, _ := fun p listed => emitted.forest.entry_cases entryIds apart (List.mem_map_of_mem (f := communityEntry) listed)
  have childless : ∀ p ∈ places, Forest.under (some p.leaf) (rows.map communityEntry) = [] := by
    intro p placed
    obtain ⟨e, entered, leaf, _, _⟩ := emitted.forest.place_entry placed
    rcases emitted.forest.entry_cases entryIds apart entered with ⟨bare, _⟩ | ⟨_, away, _⟩
    · exact leaf ▸ bare
    · have kept : p ∈ Forest.within e.id places := List.mem_filter.mpr ⟨placed, decide_eq_true leaf⟩
      rw [away] at kept
      exact absurd kept List.not_mem_nil
  constructor
  · rwa [List.map_map]
  · intro c listed
    obtain ⟨p, member, rfl⟩ := List.mem_map.mp listed
    rw [membersOf_row ids member]
    exact ⟨(emitted.counted p member).1, (emitted.counted p member).2.1⟩
  · rw [children_members ids, ← root, List.flatMap_def, emitted.forest.under_parent entryIds apart]
    exact covers
  · intro c listed bare
    obtain ⟨p, member, rfl⟩ := List.mem_map.mp listed
    rw [rowsIn_places, membersOf_row ids member]
    rcases cases_ p member with ⟨_, own⟩ | ⟨split, _⟩
    · show (Forest.within p.1.id places).map membershipRow = _
      rw [show Forest.within p.1.id places = _ from own, List.map_map]
      rfl
    · exact absurd ((children_nil _ _ _).mp bare) split
  · intro c listed split
    obtain ⟨p, member, rfl⟩ := List.mem_map.mp listed
    rw [rowsIn_places, membersOf_row ids member, children_members ids]
    rcases cases_ p member with ⟨bare, _⟩ | ⟨_, away, parts⟩
    · exact absurd ((children_nil _ _ _).mpr bare) split
    · exact ⟨parts, congrArg (List.map membershipRow) away⟩
  · intro row listed
    obtain ⟨p, placed, rfl⟩ := List.mem_map.mp listed
    obtain ⟨e, entered, leaf, level, _⟩ := emitted.forest.place_entry placed
    obtain ⟨q, found, rfl⟩ := List.mem_map.mp entered
    refine ⟨q.1, List.mem_map_of_mem found, leaf, level, (children_nil _ _ _).mpr ?_⟩
    have bare := childless p placed
    rwa [leaf] at bare
  · refine ⟨distinct, ?_⟩
    rw [List.map_map]
    exact emitted.forest.places_perm.trans covers
  · intro c listed
    obtain ⟨p, member, rfl⟩ := List.mem_map.mp listed
    exact emitted.forest.level_le (List.mem_map_of_mem (f := communityEntry) member)
  · intro b c a split
    obtain ⟨rows₁, rest, same, rfl, tail⟩ := List.map_eq_append_iff.mp split
    obtain ⟨p, rows₂, rfl, rfl, rfl⟩ := List.map_eq_cons_iff.mp tail
    rcases emitted.forest.ordered (by rw [same, List.map_append, List.map_cons]) with ⟨own, level⟩ | ⟨q, earlier, own, level⟩
    · exact .inl ⟨own.trans root, level.trans top⟩
    · obtain ⟨q', earlier', rfl⟩ := List.mem_map.mp earlier
      exact .inr ⟨q'.1, List.mem_map_of_mem earlier', own, level⟩

/-! ### One recomputation -/

variable {now : Instant}

theorem clusteredNodes_nodup (edges : List (EntityId × EntityId)) : (clusteredNodes edges).Nodup :=
  (sortedIds_perm _).nodup_iff.mpr (List.nodup_dedup _)

/-- The clustered nodes are memories of the store. -/
theorem clusteredNodes_known {id : EntityId} (clustered : id ∈ clusteredNodes (communityEdgeSet (communityEdgeRows db now))) :
    (db.entities.find id).isSome = true := by
  obtain ⟨⟨a, b⟩, edge, ends⟩ := List.mem_flatMap.mp (List.mem_dedup.mp ((sortedIds_perm _).subset clustered))
  obtain ⟨⟨source, target⟩, kept, same⟩ := List.mem_map.mp (List.mem_dedup.mp edge)
  obtain ⟨r, row, eq⟩ := List.mem_map.mp (List.mem_filter.mp kept).1
  obtain ⟨rfl, rfl⟩ := Prod.mk.inj eq
  have found := (List.mem_filter.mp row).2
  simp only [Bool.and_eq_true] at found
  have source := Option.isSome_of_any found.1.1
  have target := Option.isSome_of_any found.1.2
  dsimp only at same
  split at same
  · obtain ⟨rfl, rfl⟩ := Prod.mk.inj same
    rcases List.mem_pair.mp ends with rfl | rfl
    · exact source
    · exact target
  · obtain ⟨rfl, rfl⟩ := Prod.mk.inj same
    rcases List.mem_pair.mp ends with rfl | rfl
    · exact target
    · exact source

theorem collectCommunities_emitted (partitions : finder.Partitions) (now : Instant) (rawVector : List (EntityId × ν)) (draws : Nat)
    (graph : CommunityGraph) (nodeIds : List EntityId) (sized : nodeIds.length = graph.size) (distinct : nodeIds.Nodup) :
    ∃ groups rows places, groups.flatten.Perm nodeIds ∧ Emitted env ⟨graph, nodeIds, 0, none⟩ groups ⟨now, rawVector, [], [], [], draws, 1⟩
      (collectCommunities env finder now rawVector draws graph nodeIds) rows places := by
  have named : PartitionScope.WellNamed ⟨graph, nodeIds, 0, none⟩ := ⟨sized, distinct, Nat.zero_le _⟩
  have groups := partition_holds partitions named 0
  obtain ⟨rows, places, emitted⟩ := foldl_emitted _ (fun before group listed => addGroup_emitted partitions before group _ named (groups group listed))
    ⟨now, rawVector, [], [], [], draws, 1⟩
  exact ⟨_, rows, places, child_partition partitions named 0, emitted⟩

theorem hierarchy_nil (embeddings : List (String × ν)) : CommunityHierarchy (clusteredNodes []) ⟨[], [], embeddings⟩ fun _ => [] := by
  have none_ : clusteredNodes [] = [] := List.perm_nil.mp (sortedIds_perm _)
  rw [none_]
  constructor <;> simp [CommunityTables.childrenOf]

/-- Whatever the relations, a recomputation writes a hierarchy over the memories that they join. -/
theorem recomputeCommunities_hierarchy (partitions : finder.Partitions) (fresh : Function.Injective env.uuid4) (db : Db)
    (entityEmbeddings : List (EntityId × ν)) (vectorExtensionLoaded : Bool) (supply : Supply) (tables : CommunityTables ν) :
    ∃ result written members,
      recomputeCommunities env finder db entityEmbeddings vectorExtensionLoaded supply tables = .ok (result, written) ∧
      CommunityHierarchy (clusteredNodes (communityEdgeSet (communityEdgeRows db (env.clock supply.readings)))) written members := by
  unfold recomputeCommunities
  dsimp only
  split
  · rename_i bare
    refine ⟨_, _, fun _ => [], rfl, ?_⟩
    rw [List.isEmpty_iff.mp bare]
    exact hierarchy_nil _
  · have distinct := clusteredNodes_nodup (communityEdgeSet (communityEdgeRows db (env.clock supply.readings)))
    have known : ∀ id ∈ clusteredNodes (communityEdgeSet (communityEdgeRows db (env.clock supply.readings))),
        (db.entities.find id).isSome = true := fun id => clusteredNodes_known
    obtain ⟨groups, rows, places, covers, emitted⟩ := @collectCommunities_emitted ν env finder partitions (env.clock supply.readings)
      (if vectorExtensionLoaded then entityEmbeddings.filter
        ((clusteredNodes (communityEdgeSet (communityEdgeRows db (env.clock supply.readings)))).contains ·.1) else [])
      supply.draws (communityGraph (communityEdgeSet (communityEdgeRows db (env.clock supply.readings))) _) _ rfl distinct
    have written := writeCommunities_ok emitted ⟨rfl, rfl⟩ rfl fresh (covers.nodup_iff.mpr distinct)
      (fun id listed => known id (covers.subset listed)) vectorExtensionLoaded tables
    rw [written]
    exact ⟨_, _, _, rfl, emitted.hierarchy rfl rfl fresh covers distinct _⟩

/-- A finder that leaves every graph whole. -/
def CommunityFinder.whole : CommunityFinder Unit where
  findPartition _ graph := if graph.size = 0 then [] else [List.range graph.size]
  pagerank _ _ := 1
  weightedCentroid _ _ _ := ()
  cosine _ _ := 1

theorem CommunityFinder.whole_partitions : CommunityFinder.whole.Partitions where
  nonempty := by
    intro pass graph group listed
    unfold CommunityFinder.whole at listed
    dsimp only at listed
    split at listed
    · exact absurd listed List.not_mem_nil
    · rename_i some_
      rw [List.mem_singleton.mp listed]
      exact fun empty => some_ (List.range_eq_nil.mp empty)
  covers := by
    intro pass graph
    unfold CommunityFinder.whole
    dsimp only
    split
    · rename_i none_
      rw [none_]
      exact List.Perm.refl _
    · rw [List.flatten_singleton]

/-- Ids that grow by a letter with each draw. -/
def Env.lettered : Env := { Env.plain with uuid4 n := .ofList (List.replicate (n + 1) 'c') }

theorem Env.lettered_fresh : Function.Injective Env.lettered.uuid4 := by
  intro a b same
  have lists := congrArg List.length (String.ofList_injective same)
  rw [List.length_replicate, List.length_replicate] at lists
  exact Nat.succ.inj lists

/-- "plan" elaborates on "note". -/
def joinedDb : Db :=
  { Db.init with
    entities := ⟨[memoryRow "plan" "Plan" "p", memoryRow "note" "Note" "n"], by decide⟩
    relations := RelationTable.empty.push ⟨"plan", "note", "elaborates_on", 0, none, none⟩ (by decide) }

theorem joinedDb_hierarchy : ∃ result written members,
    recomputeCommunities .lettered CommunityFinder.whole joinedDb [("plan", ())] true ⟨0, 0⟩ ⟨[], [], []⟩ = .ok (result, written) ∧
    CommunityHierarchy (clusteredNodes (communityEdgeSet (communityEdgeRows joinedDb (Env.lettered.clock 0)))) written members :=
  recomputeCommunities_hierarchy CommunityFinder.whole_partitions Env.lettered_fresh joinedDb [("plan", ())] true ⟨0, 0⟩ ⟨[], [], []⟩

end SaltMdb
