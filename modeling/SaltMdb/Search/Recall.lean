import SaltMdb.Entity.Resolve
import SaltMdb.Schema.Fresh
import SaltMdb.Search.Primitives

/-! Which memories the vector lookups find: the neighbours are counted before the rows of other memories are dropped. -/

namespace SaltMdb
open Nearest

variable {ν δ : Type*} [LinearOrder δ]

/-! ### Entity vectors -/

def Corpus.eligibleEntity (c : Corpus ν) (clauses : Clauses) (row : EntityEmbedding ν) : Bool :=
  (c.readyEntity clauses row.entityId).isSome

/-- The corpus without some of its entity vectors. -/
def Corpus.withEntityVectors (c : Corpus ν) (kept : EntityEmbedding ν → Bool) : Corpus ν :=
  { c with
    entityEmbeddings := c.entityEmbeddings.filter kept
    vectorKeys := c.vectorKeys.sublist (List.filter_sublist.map _) }

/-- The rows of the eligible memories, the nearest first. -/
def eligibleEntities (v : VectorIndex ν δ) (c : Corpus ν) (query : String) (clauses : Clauses) : List (EntityId × δ) :=
  (v.entities.rank (v.entityDistance query) (c.entityEmbeddings.filter (c.eligibleEntity clauses))).map fun row =>
    (row.entityId, v.entityDistance query row)

/-- The search finds the nearest eligible memories, and finds no fewer for the vectors of others. -/
structure SemanticRecall (v : VectorIndex ν δ) (c : Corpus ν) (query : String) (clauses : Clauses) (limit offset : Nat) :
    Prop where
  nearest : semanticSearch v c query clauses limit offset = page offset limit (eligibleEntities v c query clauses)
  undisturbed : ∀ kept : EntityEmbedding ν → Bool, (∀ row, c.eligibleEntity clauses row = true → kept row = true) →
    ∀ found ∈ semanticSearch v (c.withEntityVectors kept) query clauses limit offset,
      found ∈ semanticSearch v c query clauses limit offset

/-- The rows asked for are the nearest eligible ones, or reach past all of these. -/
def EntityVectorsReach (v : VectorIndex ν δ) (c : Corpus ν) (query : String) (clauses : Clauses) (limit offset : Nat) : Prop :=
  limit = 0 ∨ (c.entityEmbeddings.filter (c.eligibleEntity clauses)).length ≤ offset ∨
    (∀ row ∈ v.matchEntities query (limit + offset) c.entityEmbeddings, c.eligibleEntity clauses row = true) ∨
    ∀ row ∈ (v.entities.rank (v.entityDistance query) c.entityEmbeddings).drop (limit + offset),
      c.eligibleEntity clauses row = false

section
variable (v : VectorIndex ν δ) (c : Corpus ν) (query : String) (clauses : Clauses)

/-- What the join gives of a row. -/
def joined (row : EntityEmbedding ν) : Option (EntityId × δ) :=
  (c.readyEntity clauses row.entityId).map fun e => (e.id, v.entityDistance query row)

theorem joined_eligible (row : EntityEmbedding ν) :
    joined v c query clauses row =
      if c.eligibleEntity clauses row then some (row.entityId, v.entityDistance query row) else none := by
  unfold joined Corpus.eligibleEntity
  cases found : c.readyEntity clauses row.entityId with
  | none => rfl
  | some e =>
    have there : c.entities.find row.entityId = some e := (Option.filter_eq_some_iff.mp found).1
    rw [Option.map_some, (EntityTable.find_some there).2]
    rfl

theorem filterMap_joined (rows : List (EntityEmbedding ν)) :
    rows.filterMap (joined v c query clauses) =
      (rows.filter (c.eligibleEntity clauses)).map fun row => (row.entityId, v.entityDistance query row) := by
  rw [← List.filterMap_eq_map, List.filterMap_filter]
  refine List.filterMap_congr fun row _ => ?_
  rw [joined_eligible]
  rfl

theorem eligibleEntities_joined : eligibleEntities v c query clauses =
    (v.entities.rank (v.entityDistance query) c.entityEmbeddings).filterMap (joined v c query clauses) := by
  rw [filterMap_joined, v.entities.filter]
  rfl

theorem semanticSearch_joined (limit offset : Nat) : semanticSearch v c query clauses limit offset =
    page offset limit (((v.entities.rank (v.entityDistance query) c.entityEmbeddings).take (limit + offset)).filterMap
      (joined v c query clauses)) := rfl

theorem eligibleEntities_without (kept : EntityEmbedding ν → Bool)
    (spared : ∀ row, c.eligibleEntity clauses row = true → kept row = true) :
    eligibleEntities v (c.withEntityVectors kept) query clauses = eligibleEntities v c query clauses := by
  have same : (c.entityEmbeddings.filter kept).filter (c.eligibleEntity clauses) =
      c.entityEmbeddings.filter (c.eligibleEntity clauses) := by
    rw [List.filter_filter]
    refine List.filter_congr fun row _ => ?_
    cases eligible : c.eligibleEntity clauses row with
    | false => rfl
    | true => rw [spared row eligible]; rfl
  show (v.entities.rank _ ((c.entityEmbeddings.filter kept).filter (c.eligibleEntity clauses))).map _ = _
  rw [same]
  rfl

/-- What the search finds is the beginning of what there is to find. -/
theorem semanticSearch_front (limit offset : Nat) :
    semanticSearch v c query clauses limit offset <+: page offset limit (eligibleEntities v c query clauses) := by
  rw [semanticSearch_joined, eligibleEntities_joined]
  exact page_front (filterMap_take_front _ _ _) offset limit

theorem semanticSearch_nearest_iff (limit offset : Nat) :
    semanticSearch v c query clauses limit offset = page offset limit (eligibleEntities v c query clauses) ↔
      EntityVectorsReach v c query clauses limit offset := by
  have counted : ((v.entities.rank (v.entityDistance query) c.entityEmbeddings).filterMap (joined v c query clauses)).length =
      (c.entityEmbeddings.filter (c.eligibleEntity clauses)).length := by
    rw [filterMap_joined, List.length_map, v.entities.filter, (v.entities.perm _ _).length_eq]
  have some_iff : ∀ row, (joined v c query clauses row).isSome = true ↔ c.eligibleEntity clauses row = true := by
    intro row
    rw [joined_eligible]
    cases c.eligibleEntity clauses row <;> simp
  have none_iff : ∀ row, joined v c query clauses row = none ↔ c.eligibleEntity clauses row = false := by
    intro row
    rw [joined_eligible]
    cases c.eligibleEntity clauses row <;> simp
  rw [semanticSearch_joined, eligibleEntities_joined, page_filterMap_iff, counted]
  simp only [some_iff, none_iff]
  rfl

theorem semanticRecall_iff (limit offset : Nat) :
    SemanticRecall v c query clauses limit offset ↔ EntityVectorsReach v c query clauses limit offset := by
  rw [← semanticSearch_nearest_iff]
  constructor
  · exact fun meets => meets.nearest
  · intro nearest
    refine ⟨nearest, fun kept spared found here => ?_⟩
    rw [nearest, ← eligibleEntities_without v c query clauses kept spared]
    exact (semanticSearch_front v (c.withEntityVectors kept) query clauses limit offset).subset here

end

/-! ### Chunk vectors -/

/-- A fresh row of a memory the filters let pass. -/
def Corpus.freshRow (v : VectorIndex ν δ) (c : Corpus ν) (query : String) (clauses : Clauses) (row : ChunkEmbedding ν) : Bool :=
  (freshChunkRow v query (fetchChunkEntityInfo c clauses) row).isSome

/-- The corpus without some of its chunk vectors. -/
def Corpus.withChunkVectors (c : Corpus ν) (kept : ChunkEmbedding ν → Bool) : Corpus ν :=
  { c with chunkEmbeddings := c.chunkEmbeddings.filter kept }

/-- An eligible memory with the distance of its best fresh chunk. -/
def BestFreshChunk (v : VectorIndex ν δ) (c : Corpus ν) (query : String) (clauses : Clauses) : EntityId × δ → Prop :=
  IsBest fun entry => ∃ row ∈ c.chunkEmbeddings,
    c.freshRow v query clauses row = true ∧ entry = (row.entityId, v.chunkDistance query row)

structure ChunkRecall (v : VectorIndex ν δ) (c : Corpus ν) (query : String) (clauses : Clauses)
    (candidateWindow oversamplingMultiplier : Nat) : Prop where
  nearest : ∃ all, Listing (BestFreshChunk v c query clauses) all ∧
    (chunkCandidateSearch v c query clauses candidateWindow oversamplingMultiplier).1 = all.take candidateWindow
  undisturbed : ∀ kept : ChunkEmbedding ν → Bool, (∀ row, c.freshRow v query clauses row = true → kept row = true) →
    ∀ found ∈ (chunkCandidateSearch v (c.withChunkVectors kept) query clauses candidateWindow oversamplingMultiplier).1,
      found ∈ (chunkCandidateSearch v c query clauses candidateWindow oversamplingMultiplier).1

/-- Every memory with fewer than `candidateWindow` nearer ones has a fresh chunk among the rows asked for. -/
def ChunkVectorsReach (v : VectorIndex ν δ) (c : Corpus ν) (query : String) (clauses : Clauses)
    (candidateWindow oversamplingMultiplier : Nat) : Prop :=
  ∃ all, Listing (BestFreshChunk v c query clauses) all ∧ ∀ entry ∈ all.take candidateWindow, query ≠ "" ∧
    ∃ row ∈ v.matchChunks query (candidateWindow * oversamplingMultiplier) c.chunkEmbeddings,
      row.entityId = entry.1 ∧ c.freshRow v query clauses row = true

section
variable (v : VectorIndex ν δ) (c : Corpus ν) (query : String) (clauses : Clauses)

/-- The fresh rows of the table, the nearest first. -/
def rankedFresh : List (EntityId × δ) :=
  (v.chunks.rank (v.chunkDistance query) c.chunkEmbeddings).filterMap
    (freshChunkRow v query (fetchChunkEntityInfo c clauses))

theorem freshChunkRow_eq (row : ChunkEmbedding ν) :
    freshChunkRow v query (fetchChunkEntityInfo c clauses) row =
      if c.freshRow v query clauses row then some (row.entityId, v.chunkDistance query row) else none := by
  unfold Corpus.freshRow freshChunkRow
  split
  · rfl
  · split
    · rfl
    · split <;> rfl

/-- The fresh rows among the nearest `k`. -/
def freshAmong (k : Nat) : List (EntityId × δ) :=
  (v.matchChunks query k c.chunkEmbeddings).filterMap (freshChunkRow v query (fetchChunkEntityInfo c clauses))

theorem rankedFresh_ascending : (rankedFresh v c query clauses).Pairwise fun a b => a.2 ≤ b.2 := by
  refine (v.chunks.sorted (v.chunkDistance query) c.chunkEmbeddings).filterMap _ ?_
  intro a b near x here y there
  rw [freshChunkRow_eq] at here there
  split at here
  · split at there
    · obtain rfl := Option.some.inj here
      obtain rfl := Option.some.inj there
      exact near
    · exact absurd there (by simp)
  · exact absurd here (by simp)

theorem mem_filterMap_fresh {rows : List (ChunkEmbedding ν)} {entry : EntityId × δ} :
    entry ∈ rows.filterMap (freshChunkRow v query (fetchChunkEntityInfo c clauses)) ↔
      ∃ row ∈ rows, c.freshRow v query clauses row = true ∧ entry = (row.entityId, v.chunkDistance query row) := by
  rw [List.mem_filterMap]
  refine exists_congr fun row => and_congr_right fun _ => ?_
  rw [freshChunkRow_eq]
  cases c.freshRow v query clauses row <;> simp [eq_comm]

theorem freshAmong_take (k : Nat) : freshAmong v c query clauses k =
    (rankedFresh v c query clauses).take (freshAmong v c query clauses k).length :=
  List.prefix_iff_eq_take.mp (filterMap_take_front _ _ _)

theorem isBest_rankedFresh : IsBest (· ∈ rankedFresh v c query clauses) = BestFreshChunk v c query clauses := by
  unfold BestFreshChunk
  congr 1
  funext entry
  refine propext ?_
  rw [rankedFresh, mem_filterMap_fresh]
  refine exists_congr fun row => and_congr_left fun _ => ?_
  exact (v.chunks.perm _ _).mem_iff

/-- The eligible memories in the order of their best fresh chunks. -/
def eligibleChunks : List (EntityId × δ) := byDistance (tally (rankedFresh v c query clauses))

theorem eligibleChunks_listing : Listing (BestFreshChunk v c query clauses) (eligibleChunks v c query clauses) := by
  have spec := tally_spec (rankedFresh v c query clauses)
  rw [← isBest_rankedFresh]
  exact byDistance_listing spec.names spec.complete

theorem isBest_freshAmong (k : Nat) (entry : EntityId × δ) : IsBest (· ∈ freshAmong v c query clauses k) entry ↔
    BestFreshChunk v c query clauses entry ∧ ∃ row ∈ v.matchChunks query k c.chunkEmbeddings,
      row.entityId = entry.1 ∧ c.freshRow v query clauses row = true := by
  have ascending := rankedFresh_ascending v c query clauses
  have best : IsBest (· ∈ (rankedFresh v c query clauses).take (freshAmong v c query clauses k).length) entry ↔ _ :=
    isBest_front ascending _
  rw [← freshAmong_take, isBest_rankedFresh] at best
  rw [best]
  refine and_congr_right fun _ => ?_
  constructor
  · rintro ⟨d, here⟩
    obtain ⟨row, member, fresh, same⟩ := (mem_filterMap_fresh v c query clauses).mp here
    exact ⟨row, member, (congrArg Prod.fst same).symm, fresh⟩
  · rintro ⟨row, member, named, fresh⟩
    refine ⟨v.chunkDistance query row, (mem_filterMap_fresh v c query clauses).mpr ⟨row, member, fresh, ?_⟩⟩
    rw [named]

theorem chunkCandidateSearch_found (asked : query ≠ "") (window multiplier : Nat) :
    (chunkCandidateSearch v c query clauses window multiplier).1 =
      (byDistance (tally (freshAmong v c query clauses (window * multiplier)))).take window := by
  unfold chunkCandidateSearch
  rw [if_neg asked]
  rfl

/-- The candidates are the nearest eligible memories where the rows asked for have a fresh chunk of each of these. -/
theorem chunkCandidateSearch_nearest_iff (window multiplier : Nat) :
    (chunkCandidateSearch v c query clauses window multiplier).1 = (eligibleChunks v c query clauses).take window ↔
      ∀ entry ∈ (eligibleChunks v c query clauses).take window, query ≠ "" ∧
        ∃ row ∈ v.matchChunks query (window * multiplier) c.chunkEmbeddings,
          row.entityId = entry.1 ∧ c.freshRow v query clauses row = true := by
  by_cases asked : query = ""
  · have nothing : (chunkCandidateSearch v c query clauses window multiplier).1 = [] := by
      rw [chunkCandidateSearch, if_pos asked]
    rw [nothing]
    constructor
    · intro same entry member
      rw [← same] at member
      exact absurd member List.not_mem_nil
    · intro reach
      refine (List.eq_nil_iff_forall_not_mem.mpr fun entry member => ?_).symm
      exact (reach entry member).1 asked
  · have whole := eligibleChunks_listing v c query clauses
    have spec := tally_spec (freshAmong v c query clauses (window * multiplier))
    have part := byDistance_listing spec.names spec.complete
    have within : ∀ entry, IsBest (· ∈ freshAmong v c query clauses (window * multiplier)) entry →
        BestFreshChunk v c query clauses entry :=
      fun entry best => ((isBest_freshAmong v c query clauses _ entry).mp best).1
    rw [chunkCandidateSearch_found v c query clauses asked, part.take_eq whole within]
    refine forall₂_congr fun entry member => ?_
    rw [isBest_freshAmong]
    have best := (whole.complete entry).mp (List.mem_of_mem_take member)
    exact ⟨fun here => ⟨asked, here.2⟩, fun here => ⟨best, here.2⟩⟩

theorem chunkVectorsReach_iff (window multiplier : Nat) : ChunkVectorsReach v c query clauses window multiplier ↔
    ∀ entry ∈ (eligibleChunks v c query clauses).take window, query ≠ "" ∧
      ∃ row ∈ v.matchChunks query (window * multiplier) c.chunkEmbeddings,
        row.entityId = entry.1 ∧ c.freshRow v query clauses row = true := by
  constructor
  · rintro ⟨all, listing, reach⟩
    rwa [listing.unique (eligibleChunks_listing v c query clauses)] at reach
  · exact fun reach => ⟨_, eligibleChunks_listing v c query clauses, reach⟩

/-! The rows of other memories take part in the count only. -/

variable (kept : ChunkEmbedding ν → Bool)

theorem eligibleChunks_without (spared : ∀ row, c.freshRow v query clauses row = true → kept row = true) :
    eligibleChunks v (c.withChunkVectors kept) query clauses = eligibleChunks v c query clauses := by
  have same : BestFreshChunk v (c.withChunkVectors kept) query clauses = BestFreshChunk v c query clauses := by
    unfold BestFreshChunk
    congr 1
    funext entry
    refine propext (exists_congr fun row => ?_)
    constructor
    · rintro ⟨member, fresh, named⟩
      exact ⟨List.mem_of_mem_filter member, fresh, named⟩
    · rintro ⟨member, fresh, named⟩
      exact ⟨List.mem_filter.mpr ⟨member, spared row fresh⟩, fresh, named⟩
  have listing := eligibleChunks_listing v (c.withChunkVectors kept) query clauses
  rw [same] at listing
  exact listing.unique (eligibleChunks_listing v c query clauses)

theorem matchChunks_without {row : ChunkEmbedding ν} {k : Nat} (spared : kept row = true)
    (near : row ∈ v.matchChunks query k c.chunkEmbeddings) :
    row ∈ v.matchChunks query k (c.withChunkVectors kept).chunkEmbeddings := by
  have forward : row ∈ ((v.chunks.rank (v.chunkDistance query) c.chunkEmbeddings).filter kept).take k :=
    (filter_take_front kept k _).subset (List.mem_filter.mpr ⟨near, spared⟩)
  rwa [v.chunks.filter] at forward

theorem chunkRecall_iff (window multiplier : Nat) :
    ChunkRecall v c query clauses window multiplier ↔ ChunkVectorsReach v c query clauses window multiplier := by
  rw [chunkVectorsReach_iff, ← chunkCandidateSearch_nearest_iff]
  constructor
  · rintro ⟨⟨all, listing, found⟩, _⟩
    rwa [listing.unique (eligibleChunks_listing v c query clauses)] at found
  · intro nearest
    refine ⟨⟨_, eligibleChunks_listing v c query clauses, nearest⟩, fun kept spared entry here => ?_⟩
    have reach := (chunkCandidateSearch_nearest_iff v c query clauses window multiplier).mp nearest
    have without : (chunkCandidateSearch v (c.withChunkVectors kept) query clauses window multiplier).1 =
        (eligibleChunks v (c.withChunkVectors kept) query clauses).take window := by
      refine (chunkCandidateSearch_nearest_iff v _ query clauses window multiplier).mpr fun entry member => ?_
      rw [eligibleChunks_without v c query clauses kept spared] at member
      obtain ⟨asked, row, near, named, fresh⟩ := reach entry member
      exact ⟨asked, row, matchChunks_without v c query kept (spared row fresh) near, named, fresh⟩
    rw [nearest, ← eligibleChunks_without v c query clauses kept spared, ← without]
    exact here

end

/-- Both lookups ignore the rows of ineligible memories exactly where the rows they ask for reach far enough. -/
theorem searches_recall (v : VectorIndex ν δ) (c : Corpus ν) (query : String) (clauses : Clauses)
    (limit offset candidateWindow oversamplingMultiplier : Nat) :
    (SemanticRecall v c query clauses limit offset ↔ EntityVectorsReach v c query clauses limit offset) ∧
    (ChunkRecall v c query clauses candidateWindow oversamplingMultiplier ↔
      ChunkVectorsReach v c query clauses candidateWindow oversamplingMultiplier) :=
  ⟨semanticRecall_iff v c query clauses limit offset,
    chunkRecall_iff v c query clauses candidateWindow oversamplingMultiplier⟩

/-- Vectors on a line, the query at its beginning. -/
def lineIndex : VectorIndex Nat Nat where
  embedQueryText _ := 0
  distance origin place := place - origin
  finite _ := true
  entities := byInsertion (EntityEmbedding Nat) Nat
  chunks := byInsertion (ChunkEmbedding Nat) Nat

/-- A private memory of another agent stands nearest to the query, and so does a stale chunk. -/
def crowdedCorpus : Corpus Nat where
  entities := ⟨[{ memoryRow "theirs" "Theirs" "private" with agentId := some "other", scope := .private_ },
    memoryRow "mine" "Mine" "text"], by decide⟩
  embeddingStatus _ := .ready
  entityEmbeddings := [⟨"theirs", 1⟩, ⟨"mine", 2⟩]
  chunkEmbeddings := [⟨"mine", 1, "older text"⟩, ⟨"mine", 2, "text"⟩]
  vectorKeys := by decide

theorem crowdedCorpus_forgotten : ¬ SemanticRecall lineIndex crowdedCorpus "text" (visibleTo (some "agent")) 1 0 ∧
    ¬ ChunkRecall lineIndex crowdedCorpus "text" (visibleTo (some "agent")) 1 1 := by
  constructor
  · intro meets
    have found : semanticSearch lineIndex crowdedCorpus "text" (visibleTo (some "agent")) 1 0 = [] := by decide
    have nearest : page 0 1 (eligibleEntities lineIndex crowdedCorpus "text" (visibleTo (some "agent"))) = [("mine", 2)] := by
      decide
    have same := meets.nearest
    rw [found, nearest] at same
    exact absurd same (by simp)
  · intro meets
    have eligible : eligibleChunks lineIndex crowdedCorpus "text" (visibleTo (some "agent")) = [("mine", 2)] := by decide
    have reach := (chunkVectorsReach_iff _ _ _ _ 1 1).mp ((chunkRecall_iff _ _ _ _ 1 1).mp meets) ("mine", 2)
    rw [eligible] at reach
    obtain ⟨_, row, near, _, fresh⟩ := reach (by simp)
    have stale : ∀ row ∈ lineIndex.matchChunks "text" 1 crowdedCorpus.chunkEmbeddings,
        crowdedCorpus.freshRow lineIndex "text" (visibleTo (some "agent")) row = false := by decide
    rw [stale row near] at fresh
    exact absurd fresh Bool.false_ne_true

end SaltMdb
