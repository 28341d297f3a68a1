import SaltMdb.Context.Expansion

/-! `find_orphan_community_matches`: members of the nearest communities for hits that belong to none. -/

namespace SaltMdb

structure Community where
  id : String
  parentCommunityId : Option String
deriving DecidableEq, Repr

/-- The community tables and the vectors, with the cosine of two vectors. -/
structure CommunityStore (ν : Type) where
  vectorExtension : Bool
  communities : List Community
  communityEmbeddings : List (String × ν)
  membership : List (String × EntityId)
  entityEmbeddings : List (EntityId × ν)
  similarity : ν → ν → Rat

structure OrphanCandidate where
  entityId : EntityId
  orphanEntityId : EntityId
  communityId : String
  similarity : Rat
deriving DecidableEq, Repr

structure OrphanMatch where
  entityId : EntityId
  title : String
  similarity : Rat
  orphanEntityId : EntityId
  communityId : String
deriving DecidableEq, Repr

structure OrphanCommunityCap where
  cap : Nat
  eligibleCount : Nat
  truncated : Bool
  droppedCount : Nat
deriving DecidableEq, Repr

structure OrphanResult where
  matches_ : List OrphanMatch
  orphanCommunityCap : OrphanCommunityCap
deriving DecidableEq, Repr

def contextExpansionOrphanCommunityCap : Nat := 5

def communityOrphanSimilarityThreshold : Rat := 60 / 100

variable {ν : Type} (store : CommunityStore ν)

/-- The communities that no other names as its parent. -/
def fetchLeafCommunityCentroids : List (String × ν) :=
  store.communityEmbeddings.filter fun row =>
    store.communities.any (·.id == row.1) && !store.communities.any (·.parentCommunityId == some row.1)

def memberVisible (db : Db) (agentId : Option String) (id : EntityId) : Bool := (db.entities.find id).any (visibleTo agentId)

/-- Without an agent every centroid is there; with one, those of a community with a member that it sees. -/
def visibleCentroids (db : Db) (agentId : Option String) : List (String × ν) :=
  match agentId with
  | none => fetchLeafCommunityCentroids store
  | some _ => (fetchLeafCommunityCentroids store).filter fun row =>
      store.membership.any fun member => member.1 == row.1 && memberVisible db agentId member.2

/-- The community of the nearest centroid, where it is near enough. -/
def assignOrphan (centroids : List (String × ν)) (vector : ν) : Option String :=
  let candidates := centroids.map fun row => (store.similarity vector row.2, row.1)
  match candidates.insertionSort fun a b => toLex (-a.1, a.2) ≤ toLex (-b.1, b.2) with
  | [] => none
  | best :: _ => if communityOrphanSimilarityThreshold ≤ best.1 then some best.2 else none

def orphanCandidateRows (db : Db) (agentId : Option String) (excludedEntityIds : List EntityId) (orphan : EntityId × ν) (communityId : String) :
    List OrphanCandidate :=
  let memberIds := ((store.membership.filter fun row => row.1 == communityId && memberVisible db agentId row.2).map (·.2)).filter fun id =>
    id != orphan.1 && !excludedEntityIds.contains id
  (store.entityEmbeddings.filter fun row => memberIds.contains row.1).map fun row =>
    ⟨row.1, orphan.1, communityId, store.similarity orphan.2 row.2⟩

/-- The better row of a member, the first of equals. -/
def betterCandidate (best : List OrphanCandidate) (row : OrphanCandidate) : List OrphanCandidate :=
  Dictionary.adjust (·.entityId) best row.entityId row fun current => if current.similarity < row.similarity then row else current

def rankOrphanCandidates (rows : List OrphanCandidate) : List OrphanCandidate :=
  (rows.foldl betterCandidate []).insertionSort fun a b => toLex (-a.similarity, a.entityId) ≤ toLex (-b.similarity, b.entityId)

def buildOrphanResult (db : Db) (rows : List OrphanCandidate) : OrphanResult :=
  let ranked := rankOrphanCandidates rows
  { matches_ := (ranked.take contextExpansionOrphanCommunityCap).map fun c =>
      ⟨c.entityId, ((db.entities.find c.entityId).map (·.title)).getD "Unknown", c.similarity, c.orphanEntityId, c.communityId⟩
    orphanCommunityCap := ⟨contextExpansionOrphanCommunityCap, ranked.length,
      decide (0 < ranked.length - contextExpansionOrphanCommunityCap), ranked.length - contextExpansionOrphanCommunityCap⟩ }

/-- Where a stage has nothing to go on with, no row is a candidate. -/
def findOrphanCommunityMatches (db : Db) (primaryHits : List PrimaryHit) (excludedEntityIds : List EntityId) (agentId : Option String) :
    OrphanResult :=
  let orphanIds := (primaryHits.map (·.id)).filter fun id => !store.membership.any (·.2 == id)
  if orphanIds.isEmpty || !store.vectorExtension then buildOrphanResult db []
  else
    let centroids := visibleCentroids store db agentId
    let orphans := store.entityEmbeddings.filter fun row => orphanIds.contains row.1
    buildOrphanResult db (orphans.flatMap fun orphan =>
      ((assignOrphan store centroids orphan.2).map (orphanCandidateRows store db agentId excludedEntityIds orphan)).getD [])

/-! ### What is matched -/

variable {store} {db : Db} {agentId : Option String} {hits : List PrimaryHit} {excluded : List EntityId}

theorem betterCandidate_mem {best : List OrphanCandidate} {row c : OrphanCandidate} (member : c ∈ betterCandidate best row) : c ∈ best ∨ c = row := by
  rcases Dictionary.mem_adjust.mp member with ⟨old, _⟩ | ⟨current, old, _, rfl⟩ | ⟨_, rfl⟩
  · exact .inl old
  · split
    · exact .inr rfl
    · exact .inl old
  · exact .inr (if_neg (lt_irrefl _))

theorem foldl_betterCandidate (rows : List OrphanCandidate) :
    ((rows.foldl betterCandidate []).map (·.entityId)).Nodup ∧ rows.foldl betterCandidate [] ⊆ rows := by
  induction rows using List.reverseRecOn with
  | nil => exact ⟨List.nodup_nil, List.Subset.refl _⟩
  | append_singleton rows row ih =>
    rw [List.foldl_concat]
    refine ⟨Dictionary.adjust_apart ?_ (fun current named => ?_) ih.1, fun c member => ?_⟩
    · rw [if_neg (lt_irrefl _)]
    · split
      · rfl
      · exact named
    · rcases betterCandidate_mem member with old | rfl
      · exact List.mem_append_left _ (ih.2 old)
      · exact List.mem_append_right _ List.mem_cons_self

theorem buildOrphanResult_once (rows : List OrphanCandidate) : ((buildOrphanResult db rows).matches_.map (·.entityId)).Nodup := by
  have ranked : ((rankOrphanCandidates rows).map (·.entityId)).Nodup :=
    (((List.perm_insertionSort _ _).map _).nodup_iff).mpr (foldl_betterCandidate rows).1
  have names : (buildOrphanResult db rows).matches_.map (·.entityId) =
      ((rankOrphanCandidates rows).take contextExpansionOrphanCommunityCap).map (·.entityId) := by
    simp only [buildOrphanResult, List.map_map]
    rfl
  rw [names]
  exact ranked.sublist ((List.take_sublist _ _).map _)

theorem buildOrphanResult_from {rows : List OrphanCandidate} {found : OrphanMatch} (member : found ∈ (buildOrphanResult db rows).matches_) :
    ∃ row ∈ rows, row.entityId = found.entityId := by
  obtain ⟨c, listed, rfl⟩ := List.mem_map.mp member
  exact ⟨c, (foldl_betterCandidate rows).2 ((List.mem_insertionSort _).mp (List.mem_of_mem_take listed)), rfl⟩

theorem findOrphanCommunityMatches_once : ((findOrphanCommunityMatches store db hits excluded agentId).matches_.map (·.entityId)).Nodup := by
  unfold findOrphanCommunityMatches
  dsimp only
  split
  · exact buildOrphanResult_once _
  · exact buildOrphanResult_once _

theorem findOrphanCommunityMatches_apart {found : OrphanMatch}
    (member : found ∈ (findOrphanCommunityMatches store db hits excluded agentId).matches_) : found.entityId ∉ excluded := by
  unfold findOrphanCommunityMatches at member
  dsimp only at member
  split at member
  · obtain ⟨_, none_, _⟩ := buildOrphanResult_from member
    cases none_
  · obtain ⟨row, listed, named⟩ := buildOrphanResult_from member
    obtain ⟨orphan, _, listed⟩ := List.mem_flatMap.mp listed
    cases assigned : assignOrphan store (visibleCentroids store db agentId) orphan.2 with
    | none =>
      rw [assigned] at listed
      cases listed
    | some communityId =>
      rw [assigned] at listed
      obtain ⟨embedded, kept, rfl⟩ := List.mem_map.mp listed
      have outside := (List.mem_filter.mp (List.contains_iff_mem.mp (List.mem_filter.mp kept).2)).2
      simp only [Bool.and_eq_true, Bool.not_eq_true', List.contains_eq_mem, decide_eq_false_iff_not] at outside
      exact named ▸ outside.2

end SaltMdb
