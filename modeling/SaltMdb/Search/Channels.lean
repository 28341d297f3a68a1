import Mathlib.Algebra.Order.Ring.Unbundled.Rat
import SaltMdb.Library.Fusion
import SaltMdb.Search.Primitives

/-! The channels of a hybrid search: full text, vectors, chunks and the two of the retrieval texts, and the fusion of their
ranks. -/

namespace SaltMdb
open Nearest Fusion

/-- A query on a full text table: quoted prefixes, one after the other or joined by `OR`. -/
structure FtsQuery where
  terms : List String
  joinedByOr : Bool
deriving DecidableEq, Repr

/-- A row of `retrieval_embeddings`. -/
structure RetrievalEmbedding (ν : Type*) where
  entityId : EntityId
  embedding : ν
  sourceHash : String
deriving DecidableEq

inductive SemanticVerdict where
  | sameSpecificTopic
  | broadlyRelatedThemes
  | differentTopics
deriving DecidableEq, Repr

/-- What a search reads. The full text tables give the ids of their matching rows, the best first, and the models give a
verdict and a score for each memory; `retrievalHash` is that of a memory whose retrieval job succeeded. -/
structure SearchStore (ν δ : Type*) [LinearOrder δ] where
  corpus : Corpus ν
  relations : RelationTable
  vectors : VectorIndex ν δ
  entitiesFts : FtsQuery → List EntityId
  retrievalFts : FtsQuery → List (EntityId × String)
  retrievalEmbeddings : List (RetrievalEmbedding ν)
  retrievalVectors : Ranking (RetrievalEmbedding ν) δ
  retrievalHash : EntityId → Option String
  topicVerdict : String → EntityId → SemanticVerdict
  crossEncoder : Option (String → EntityId → Rat)

inductive SearchMode where
  | strict
  | broad
  | history
deriving DecidableEq, Repr

structure SearchControls where
  sanitizedQuery : String
  queryKeywords : String
  mode : SearchMode
  chunkWindow : Nat
  chunkOversampling : Nat
  useChunkCandidates : Bool
  useRetrievalTextCandidates : Bool
  configuredChunkWeight : Rat
  configuredRetrievalFtsWeight : Rat
  configuredRetrievalVectorWeight : Rat
  ceCandidateCap : Nat
  preferDurableTypes : Bool
  demoteSuperseded : Bool
  collapseSupersedesFamilies : Bool
deriving DecidableEq, Repr

variable {ν δ : Type*} [LinearOrder δ]

/-! ### Full text -/

def stopWords : List String :=
  ["a", "an", "and", "are", "as", "at", "be", "by", "for", "from", "has", "he", "in", "is", "it", "its", "of", "on", "that",
    "the", "to", "was", "were", "will", "with", "what", "my", "when", "i", "type", "did", "how", "does", "or", "which", "who",
    "whom", "this", "these", "those"]

/-- `s.split()` -/
def Text.splitFrom : List Char → List Char → List String
  | [], word => if word.isEmpty then [] else [.ofList word.reverse]
  | c :: cs, word =>
    if Text.isSpace c then (if word.isEmpty then [] else [.ofList word.reverse]) ++ Text.splitFrom cs []
    else Text.splitFrom cs (c :: word)

def Text.split (s : String) : List String := Text.splitFrom s.toList []

def sanitizeFtsQuery (env : Env) (query : String) : String :=
  let cleaned := query.toList.map fun c => if env.isWordChar c || Text.isSpace c then c else ' '
  Text.join " " (Text.split (.ofList cleaned))

def ftsTerms (sanitizedQuery : String) : List String :=
  let rawTerms := Text.split sanitizedQuery
  let terms := rawTerms.filter fun t => !stopWords.contains (Text.lower t)
  if terms.isEmpty then rawTerms else terms

namespace SearchStore

variable (s : SearchStore ν δ)

/-- A row of `entities_fts` whose memory the caller's clauses select. -/
def ftsRows (clauses : Clauses) (limit : Nat) (q : FtsQuery) : List EntityId :=
  ((s.entitiesFts q).filter fun id => (s.corpus.entities.find id).any clauses).take limit

/-- The rows, and whether the `OR` retry found them. -/
def runFtsSearch (sanitizedQuery : String) (clauses : Clauses) (limit : Nat) : List EntityId × Bool :=
  let terms := ftsTerms sanitizedQuery
  if terms.isEmpty then ([], false)
  else
    let rows := s.ftsRows clauses limit ⟨terms, false⟩
    if rows.isEmpty && decide (1 < terms.length) then
      let rows := s.ftsRows clauses limit ⟨terms, true⟩
      (rows, !rows.isEmpty)
    else (rows, false)

/-- A row of `retrieval_fts` that holds the memory's current text. -/
def retrievalFtsRows (clauses : Clauses) (limit : Nat) (q : FtsQuery) : List EntityId :=
  (((s.retrievalFts q).filter fun row =>
    (s.corpus.entities.find row.1).any fun e => e.retrievalText == some row.2 && clauses e).take limit).map (·.1)

def runRetrievalFtsSearch (sanitizedQuery : String) (clauses : Clauses) (limit : Nat) : List EntityId :=
  let terms := ftsTerms sanitizedQuery
  if terms.isEmpty then []
  else
    let rows := s.retrievalFtsRows clauses limit ⟨terms, false⟩
    if rows.isEmpty && decide (1 < terms.length) then s.retrievalFtsRows clauses limit ⟨terms, true⟩ else rows

def retrievalDistance (query : String) (r : RetrievalEmbedding ν) : δ :=
  s.vectors.distance (s.vectors.embedQueryText query) r.embedding

/-- A vector of the memory's current retrieval text. -/
def freshRetrieval (clauses : Clauses) (r : RetrievalEmbedding ν) : Bool :=
  (s.corpus.entities.find r.entityId).any fun e =>
    e.retrievalText.isSome && clauses e && e.status != .archived && s.retrievalHash r.entityId == some r.sourceHash

def retrievalVectorSearch (query : String) (clauses : Clauses) (limit : Nat) : List EntityId :=
  let rows := (s.retrievalVectors.rank (s.retrievalDistance query) s.retrievalEmbeddings).take limit
  ((rows.filter (s.freshRetrieval clauses)).map (·.entityId)).take limit

end SearchStore

/-! ### The rows of one pass -/

structure ChannelRows where
  ftsRows : List EntityId
  usedOrFallback : Bool
  semanticRows : List EntityId
  chunkRows : List EntityId
  retrievalFtsRows : List EntityId
  retrievalVectorRows : List EntityId
deriving DecidableEq, Repr

def ChannelRows.ftsAndIds (channels : ChannelRows) : List EntityId := if channels.usedOrFallback then [] else channels.ftsRows

def SearchStore.gatherChannels (s : SearchStore ν δ) (clauses : Clauses) (controls : SearchControls) (candidateWindow : Nat) :
    ChannelRows :=
  let fts := s.runFtsSearch controls.sanitizedQuery clauses candidateWindow
  let semantic := semanticSearch s.vectors s.corpus controls.queryKeywords clauses candidateWindow 0
  { ftsRows := fts.1
    usedOrFallback := fts.2
    semanticRows := semantic.map (·.1)
    chunkRows :=
      if controls.useChunkCandidates then
        (chunkCandidateSearch s.vectors s.corpus controls.queryKeywords clauses controls.chunkWindow
          controls.chunkOversampling).1.map (·.1)
      else []
    retrievalFtsRows :=
      if controls.useRetrievalTextCandidates then s.runRetrievalFtsSearch controls.sanitizedQuery clauses candidateWindow else []
    retrievalVectorRows :=
      if controls.useRetrievalTextCandidates then s.retrievalVectorSearch controls.queryKeywords clauses candidateWindow else [] }

/-! ### Fusion -/

def rrfShare (weight : Rat) (rank : Nat) : Rat := weight / (60 + rank + 1)

def reciprocalRankFusion (ftsResults semanticResults : List EntityId) (limit : Nat) : List (EntityId × Rat) :=
  let scores := enterAll (· + ·) [] (shares (rrfShare 1) ftsResults ++ shares (rrfShare 1) semanticResults)
  (byScore scores).take limit

def weightedReciprocalRankFusion (channels : ChannelRows) (controls : SearchControls) (limit : Nat) : List (EntityId × Rat) :=
  if channels.chunkRows.isEmpty && channels.retrievalFtsRows.isEmpty && channels.retrievalVectorRows.isEmpty then
    reciprocalRankFusion channels.ftsRows channels.semanticRows limit
  else
    let scores := enterAll (· + ·) [] (shares (rrfShare 1) channels.ftsRows ++ shares (rrfShare 1) channels.semanticRows ++
      shares (rrfShare controls.configuredChunkWeight) channels.chunkRows ++
      shares (rrfShare controls.configuredRetrievalFtsWeight) channels.retrievalFtsRows ++
      shares (rrfShare controls.configuredRetrievalVectorWeight) channels.retrievalVectorRows)
    (byScore scores).take limit

end SaltMdb
