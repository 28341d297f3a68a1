import Mathlib.Data.String.Basic
import SaltMdb.Library.Nearest
import SaltMdb.Store.Connection

/-! The vector lookups of a search: nearest rows of the vector tables, filtered on the memories they belong to. -/

namespace SaltMdb
open Nearest

inductive EmbeddingStatus where
  | pending
  | ready
  | failed
  | archived
deriving DecidableEq, Repr

/-- A row of `entity_embeddings`. -/
structure EntityEmbedding (ν : Type*) where
  entityId : EntityId
  embedding : ν
deriving DecidableEq

/-- A row of `entity_chunk_embeddings`. -/
structure ChunkEmbedding (ν : Type*) where
  entityId : EntityId
  embedding : ν
  contentHash : String
deriving DecidableEq

/-- The memories with the vectors computed of them. `embeddingStatus` is a column of `entities`. -/
structure Corpus (ν : Type*) where
  entities : EntityTable
  embeddingStatus : EntityId → EmbeddingStatus
  entityEmbeddings : List (EntityEmbedding ν)
  chunkEmbeddings : List (ChunkEmbedding ν)
  vectorKeys : (entityEmbeddings.map EntityEmbedding.entityId).Nodup

variable {ν δ : Type*} [LinearOrder δ]

/-- The embedding model and the `vec0` tables: how far a row lies from a query, and the order in which a table gives
its rows. -/
structure VectorIndex (ν δ : Type*) [LinearOrder δ] where
  embedQueryText : String → ν
  distance : ν → ν → δ
  finite : δ → Bool
  entities : Ranking (EntityEmbedding ν) δ
  chunks : Ranking (ChunkEmbedding ν) δ

namespace VectorIndex

variable (v : VectorIndex ν δ)

def entityDistance (query : String) (r : EntityEmbedding ν) : δ := v.distance (v.embedQueryText query) r.embedding

def chunkDistance (query : String) (r : ChunkEmbedding ν) : δ := v.distance (v.embedQueryText query) r.embedding

/-- `embedding MATCH ? AND k = ?`: the nearest rows of the whole table. -/
def matchEntities (query : String) (k : Nat) (rows : List (EntityEmbedding ν)) : List (EntityEmbedding ν) :=
  (v.entities.rank (v.entityDistance query) rows).take k

def matchChunks (query : String) (k : Nat) (rows : List (ChunkEmbedding ν)) : List (ChunkEmbedding ν) :=
  (v.chunks.rank (v.chunkDistance query) rows).take k

end VectorIndex

/-- The caller's `where_clauses`. -/
abbrev Clauses := Entity → Bool

/-- The memory of a vector row, where the join and the filters leave it. -/
def Corpus.readyEntity (c : Corpus ν) (clauses : Clauses) (id : EntityId) : Option Entity :=
  (c.entities.find id).filter fun e => c.embeddingStatus e.id == .ready && clauses e

def semanticSearch (v : VectorIndex ν δ) (c : Corpus ν) (query : String) (clauses : Clauses) (limit : Nat)
    (offset : Nat) : List (EntityId × δ) :=
  let knnK := limit + offset
  let rows := v.matchEntities query knnK c.entityEmbeddings
  page offset limit (rows.filterMap fun row => (c.readyEntity clauses row.entityId).map fun e =>
    (e.id, v.entityDistance query row))

/-! ### Chunks -/

structure ChunkDiagnostics where
  requestedChunkRows : Nat
  candidateWindow : Nat
  oversamplingMultiplier : Nat
  rawChunkRows : Nat
  uniqueFreshEntities : Nat
  returnedEntities : Option Nat
  candidateShortfall : Nat
deriving DecidableEq, Repr

def emptyChunkCandidateDiagnostics (candidateWindow oversamplingMultiplier : Nat) : ChunkDiagnostics where
  requestedChunkRows := 0
  candidateWindow := candidateWindow
  oversamplingMultiplier := oversamplingMultiplier
  rawChunkRows := 0
  uniqueFreshEntities := 0
  returnedEntities := none
  candidateShortfall := candidateWindow

def fetchChunkEntityInfo (c : Corpus ν) (clauses : Clauses) (id : EntityId) : Option (String × Status) :=
  ((c.entities.find id).filter clauses).map fun e => (e.contentHash, e.status)

/-- What of a row reaches the deduplication. -/
def freshChunkRow (v : VectorIndex ν δ) (query : String) (info : EntityId → Option (String × Status))
    (row : ChunkEmbedding ν) : Option (EntityId × δ) :=
  match info row.entityId with
  | none => none
  | some (hash, status) =>
    if status = .archived ∨ row.contentHash ≠ hash then none
    else if v.finite (v.chunkDistance query row) then some (row.entityId, v.chunkDistance query row) else none

def dedupeFreshChunkRows (v : VectorIndex ν δ) (query : String) (rows : List (ChunkEmbedding ν))
    (info : EntityId → Option (String × Status)) : List (EntityId × δ) :=
  tally (rows.filterMap (freshChunkRow v query info))

def chunkSearchDiagnostics (requestedRows candidateWindow oversamplingMultiplier rawRows : Nat)
    (bestDistance ranked : List (EntityId × δ)) : ChunkDiagnostics where
  requestedChunkRows := requestedRows
  candidateWindow := candidateWindow
  oversamplingMultiplier := oversamplingMultiplier
  rawChunkRows := rawRows
  uniqueFreshEntities := bestDistance.length
  returnedEntities := some ranked.length
  candidateShortfall := candidateWindow - ranked.length

def chunkCandidateSearch (v : VectorIndex ν δ) (c : Corpus ν) (query : String) (clauses : Clauses)
    (candidateWindow oversamplingMultiplier : Nat) : List (EntityId × δ) × ChunkDiagnostics :=
  if query = "" then
    ([], emptyChunkCandidateDiagnostics candidateWindow oversamplingMultiplier)
  else
    let requestedRows := candidateWindow * oversamplingMultiplier
    let rows := v.matchChunks query requestedRows c.chunkEmbeddings
    let bestDistance := dedupeFreshChunkRows v query rows (fetchChunkEntityInfo c clauses)
    let ranked := (byDistance bestDistance).take candidateWindow
    (ranked, chunkSearchDiagnostics requestedRows candidateWindow oversamplingMultiplier rows.length bestDistance ranked)

end SaltMdb
