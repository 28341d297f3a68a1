import SaltMdb.Search.Ranking

/-! `search_memory`: the pool of one candidate window, the windows that a strict search widens to, and the page. -/

namespace SaltMdb
open Nearest Fusion

variable {ν δ : Type*} [LinearOrder δ]

def SearchStore.db (s : SearchStore ν δ) : Db := { Db.init with entities := s.corpus.entities, relations := s.relations }

/-! ### Predecessors -/

structure PredecessorResolution where
  rrfMap : List (EntityId × Rat)
  resolvedMap : List (EntityId × EntityId)
  predecessorGrounded : EntityId → Bool

/-- The verdicts asked for: those of some of the candidates. -/
def scoreTopics (s : SearchStore ν δ) (query : String) (ids : List EntityId) (id : EntityId) : Option SemanticVerdict :=
  if ids.contains id then some (s.topicVerdict query id) else none

/-- What the fused pool itself says of a candidate, before any substitution. -/
def resolvePredecessorEvidence (s : SearchStore ν δ) (query : String) (channels : ChannelRows) (prePoolIds : List EntityId) :
    EntityId → CandidateEvidence :=
  let orFallbackOnly := if channels.usedOrFallback then prePoolIds.filter channels.ftsRows.contains else []
  buildCandidateEvidence channels (scoreTopics s query orFallbackOnly) (fun _ => false) fun _ => false

def accumulateResolvedPredecessors (resolvedMap : List (EntityId × EntityId)) (preEvidence : EntityId → CandidateEvidence)
    (head : EntityId) : Bool :=
  resolvedMap.any fun entry => entry.2 == head && (acceptOrAbstain (preEvidence entry.1)).1

def resolveSearchPredecessors (s : SearchStore ν δ) (clauses : Clauses) (controls : SearchControls) (now : Instant)
    (channels : ChannelRows) (rrfMap : List (EntityId × Rat)) : PredecessorResolution :=
  if controls.mode = .strict then
    let prePoolIds := rrfMap.map Prod.fst
    let resolvedMap := resolveSupersessionChains s.db prePoolIds clauses supersessionChainMaxDepth now
    if resolvedMap.isEmpty then ⟨rrfMap, [], fun _ => false⟩
    else
      let preEvidence := resolvePredecessorEvidence s controls.queryKeywords channels prePoolIds
      ⟨substituteResolvedHeads rrfMap resolvedMap, resolvedMap, accumulateResolvedPredecessors resolvedMap preEvidence⟩
  else ⟨rrfMap, [], fun _ => false⟩

/-! ### One pass -/

/-- The cross-encoder orders the first of the pool and leaves the others behind them. -/
def rerankSearchPool (s : SearchStore ν δ) (controls : SearchControls) (rankedPool : List EntityId) : List EntityId :=
  match s.crossEncoder with
  | none => rankedPool
  | some score =>
    let scored := (rankedPool.take controls.ceCandidateCap).filter fun id => (s.corpus.entities.find id).any (·.status != .archived)
    let reordered := scored.insertionSort fun a b => score controls.queryKeywords b ≤ score controls.queryKeywords a
    reordered ++ rankedPool.filter (!scored.contains ·)

def strictEvidence (s : SearchStore ν δ) (controls : SearchControls) (channels : ChannelRows) (resolution : PredecessorResolution) :
    EntityId → CandidateEvidence :=
  let ungrounded := (resolution.rrfMap.map Prod.fst).filter (!channels.ftsAndIds.contains ·)
  buildCandidateEvidence channels (scoreTopics s controls.queryKeywords ungrounded)
    (fun id => resolution.resolvedMap.any (·.2 == id)) resolution.predecessorGrounded

def gateSearchPool (mode : SearchMode) (rankedPool : List EntityId) (evidence : EntityId → CandidateEvidence) : List EntityId :=
  if mode = .strict then rankedPool.filter fun id => (acceptOrAbstain (evidence id)).1 else rankedPool

def orderSearchPool (db : Db) (controls : SearchControls) (now : Instant) (rankedPool : List EntityId) : List EntityId :=
  let biased := if controls.preferDurableTypes then applyTypeBias db rankedPool else rankedPool
  let demoted := if controls.demoteSuperseded then applySupersessionDemotion db now biased else biased
  match controls.mode with
  | .strict => applyStrictRankingDefaults db now demoted
  | .broad => if controls.collapseSupersedesFamilies then collapseSupersedesFamilies db now demoted else demoted
  | .history => demoted

structure SearchPool where
  orderedIds : List EntityId
  exhausted : Bool
deriving DecidableEq, Repr

/-- The channels returned fewer rows than they were asked for. -/
def ChannelRows.exhausted (channels : ChannelRows) (controls : SearchControls) (candidateWindow : Nat) : Bool :=
  decide (channels.ftsRows.length < candidateWindow) && decide (channels.semanticRows.length < candidateWindow) &&
    (!controls.useRetrievalTextCandidates ||
      (decide (channels.retrievalFtsRows.length < candidateWindow) && decide (channels.retrievalVectorRows.length < candidateWindow)))

def computeSearchPool (s : SearchStore ν δ) (clauses : Clauses) (controls : SearchControls) (now : Instant) (candidateWindow : Nat) :
    SearchPool :=
  let channels := s.gatherChannels clauses controls candidateWindow
  let fused := weightedReciprocalRankFusion channels controls candidateWindow
  let resolution := resolveSearchPredecessors s clauses controls now channels fused
  let reranked := rerankSearchPool s controls (resolution.rrfMap.map Prod.fst)
  let gated := gateSearchPool controls.mode reranked (strictEvidence s controls channels resolution)
  ⟨orderSearchPool s.db controls now gated, channels.exhausted controls candidateWindow⟩

/-! ### Windows and pages -/

def rerankCandidatePoolSize : Nat := 20

def strictOverfetchCandidateCap : Nat := 200

/-- The overfetch loop of a strict search, with the window it stops at. -/
def overfetch (compute : Nat → SearchPool) (wanted window : Nat) (positive : 0 < window) : Nat × SearchPool :=
  let pool := compute window
  if h : pool.orderedIds.length < wanted ∧ pool.exhausted = false ∧ window < strictOverfetchCandidateCap then
    overfetch compute wanted (min (window * 2) strictOverfetchCandidateCap) (by omega)
  else (window, pool)
termination_by strictOverfetchCandidateCap - window
decreasing_by omega

def baseWindow (offset limit : Nat) : Nat := max (offset + limit) rerankCandidatePoolSize

theorem startWindow_pos (offset limit : Nat) : 0 < min (baseWindow offset limit) strictOverfetchCandidateCap := by
  unfold baseWindow rerankCandidatePoolSize strictOverfetchCandidateCap
  omega

def searchWindowPool (s : SearchStore ν δ) (clauses : Clauses) (controls : SearchControls) (now : Instant) (offset limit : Nat) :
    Nat × SearchPool :=
  if controls.mode = .strict then
    overfetch (computeSearchPool s clauses controls now) (offset + limit) (min (baseWindow offset limit) strictOverfetchCandidateCap)
      (startWindow_pos offset limit)
  else (baseWindow offset limit, computeSearchPool s clauses controls now (baseWindow offset limit))

/-- The one memory that the query names, in the modes that look for it. -/
def findExactSearchTitle (entities : EntityTable) (query : String) (mode : SearchMode) (clauses : Clauses) : Option Entity :=
  if query ≠ "" ∧ mode ≠ .strict then
    match entities.rows.filter fun e => e.title == query && clauses e with
    | [e] => some e
    | _ => none
  else none

def fetchBrowseSearchRows (entities : EntityTable) (clauses : Clauses) (limit offset : Nat) : List Entity :=
  let ordered := (entities.rows.filter clauses).insertionSort fun a b =>
    (a.isCore = true ∧ b.isCore = false) ∨ (a.isCore = b.isCore ∧ b.updatedAt ≤ a.updatedAt)
  page offset limit ordered

/-- The rows of a page of `search_memory`. -/
def searchMemory (s : SearchStore ν δ) (clauses : Clauses) (controls : SearchControls) (now : Instant) (offset limit : Nat) : List Entity :=
  match findExactSearchTitle s.corpus.entities controls.queryKeywords controls.mode clauses, controls.collapseSupersedesFamilies with
  | some e, false => if offset = 0 ∧ 0 < limit then [e] else []
  | _, _ =>
    if controls.sanitizedQuery ≠ "" then
      let mergedIds := page offset limit (searchWindowPool s clauses controls now offset limit).2.orderedIds
      mergedIds.filterMap s.corpus.entities.find
    else fetchBrowseSearchRows s.corpus.entities clauses limit offset

end SaltMdb
