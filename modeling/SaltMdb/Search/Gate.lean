import SaltMdb.Search.Pool
import SaltMdb.Search.Recall

/-! What the gate of a strict search accepts at one candidate window, and what it still accepts at a wider one. -/

namespace SaltMdb
open Nearest Fusion

/-! ### The gate -/

def ChannelRows.Hit (channels : ChannelRows) (id : EntityId) : Prop := id ∈ channels.ftsRows ∨ id ∈ channels.semanticRows

/-- A match of all terms. -/
def ChannelRows.AndHit (channels : ChannelRows) (id : EntityId) : Prop := id ∈ channels.ftsRows ∧ channels.usedOrFallback = false

instance (channels : ChannelRows) (id : EntityId) : Decidable (channels.Hit id) :=
  inferInstanceAs (Decidable (_ ∨ _))

theorem mem_ftsAndIds {channels : ChannelRows} {id : EntityId} : id ∈ channels.ftsAndIds ↔ channels.AndHit id := by
  unfold ChannelRows.ftsAndIds ChannelRows.AndHit
  cases channels.usedOrFallback <;> simp

theorem ChannelRows.AndHit.hit {channels : ChannelRows} {id : EntityId} (matched : channels.AndHit id) : channels.Hit id := .inl matched.1

variable {channels : ChannelRows} {topicScores : EntityId → Option SemanticVerdict} {resolvedHead grounded : EntityId → Bool} {id : EntityId}

/-- A candidate that was hit is judged by its hits alone, another one by its predecessors. -/
theorem accept_iff : (acceptOrAbstain (buildCandidateEvidence channels topicScores resolvedHead grounded id)).1 = true ↔
    channels.AndHit id ∨ (channels.Hit id ∧ topicScores id = some .sameSpecificTopic) ∨
      (¬ channels.Hit id ∧ resolvedHead id = true ∧ grounded id = true) := by
  unfold acceptOrAbstain buildCandidateEvidence ChannelRows.AndHit ChannelRows.Hit
  simp only [← List.contains_iff_mem]
  cases channels.ftsRows.contains id <;> cases channels.semanticRows.contains id <;> cases channels.usedOrFallback <;>
    cases resolvedHead id <;> cases grounded id <;> by_cases topic : topicScores id = some .sameSpecificTopic <;> simp [topic]

/-- More hits, of a query that is matched the same way. -/
structure ChannelRows.Extends (wider channels : ChannelRows) : Prop where
  fts : channels.ftsRows ⊆ wider.ftsRows
  semantic : channels.semanticRows ⊆ wider.semanticRows
  fallback : wider.usedOrFallback = channels.usedOrFallback

namespace ChannelRows.Extends

variable {wider : ChannelRows}

theorem hit (more : wider.Extends channels) (matched : channels.Hit id) : wider.Hit id :=
  matched.imp (fun member => more.fts member) fun member => more.semantic member

theorem andHit (more : wider.Extends channels) (matched : channels.AndHit id) : wider.AndHit id :=
  ⟨more.fts matched.1, more.fallback.trans matched.2⟩

/-- Hits that are added to an accepted candidate turn it away exactly where it had none and they do not suffice. -/
theorem accept_iff (more : wider.Extends channels)
    (accepted : (acceptOrAbstain (buildCandidateEvidence channels topicScores resolvedHead grounded id)).1 = true) :
    (acceptOrAbstain (buildCandidateEvidence wider topicScores resolvedHead grounded id)).1 = true ↔
      ¬ (¬ channels.Hit id ∧ wider.Hit id ∧ ¬ wider.AndHit id ∧ topicScores id ≠ some .sameSpecificTopic) := by
  rw [SaltMdb.accept_iff] at accepted ⊢
  have kept : channels.Hit id → wider.Hit id := more.hit
  have keptAnd : channels.AndHit id → wider.AndHit id := more.andHit
  have known := fun matched : wider.AndHit id => matched.hit
  tauto

end ChannelRows.Extends

/-! ### The channels of a wider window -/

variable {ν δ : Type*} [LinearOrder δ] {s : SearchStore ν δ} {clauses : Clauses} {controls : SearchControls} {now : Instant}

theorem take_subset {α : Type*} (xs : List α) {k k' : Nat} (wider : k ≤ k') : xs.take k ⊆ xs.take k' := by
  intro x member
  rw [show xs.take k = (xs.take k').take k by rw [List.take_take, Nat.min_eq_left wider]] at member
  exact List.mem_of_mem_take member

theorem isEmpty_take {α : Type*} (xs : List α) {k : Nat} (positive : 0 < k) : (xs.take k).isEmpty = xs.isEmpty := by
  cases xs with
  | nil => rw [List.take_nil]
  | cons x xs =>
    obtain ⟨n, rfl⟩ := Nat.exists_eq_succ_of_ne_zero positive.ne'
    rfl

/-- Whether the `OR` retry is needed does not depend on how many rows are asked for. -/
theorem runFtsSearch_extends {text : String} {window wider : Nat} (positive : 0 < window) (more : window ≤ wider) :
    (s.runFtsSearch text clauses window).1 ⊆ (s.runFtsSearch text clauses wider).1 ∧
      (s.runFtsSearch text clauses wider).2 = (s.runFtsSearch text clauses window).2 := by
  unfold SearchStore.runFtsSearch SearchStore.ftsRows
  dsimp only
  rw [isEmpty_take _ positive, isEmpty_take _ positive, isEmpty_take _ (positive.trans_le more), isEmpty_take _ (positive.trans_le more)]
  split
  · exact ⟨List.Subset.refl _, rfl⟩
  · split
    · exact ⟨take_subset _ more, rfl⟩
    · exact ⟨take_subset _ more, rfl⟩

theorem semanticSearch_start (query : String) (limit : Nat) : semanticSearch s.vectors s.corpus query clauses limit 0 =
    ((s.vectors.entities.rank (s.vectors.entityDistance query) s.corpus.entityEmbeddings).take limit).filterMap
      (joined s.vectors s.corpus query clauses) := by
  rw [semanticSearch_joined, page, List.drop_zero, Nat.add_zero]
  refine List.take_of_length_le ((List.length_filterMap_le _ _).trans ?_)
  exact List.length_take_le _ _

theorem semanticRows_extends {query : String} {window wider : Nat} (more : window ≤ wider) :
    semanticSearch s.vectors s.corpus query clauses window 0 ⊆ semanticSearch s.vectors s.corpus query clauses wider 0 := by
  rw [semanticSearch_start, semanticSearch_start]
  intro row member
  obtain ⟨found, listed, given⟩ := List.mem_filterMap.mp member
  exact List.mem_filterMap.mpr ⟨found, take_subset _ more listed, given⟩

theorem gatherChannels_extends {window wider : Nat} (positive : 0 < window) (more : window ≤ wider) :
    (s.gatherChannels clauses controls wider).Extends (s.gatherChannels clauses controls window) where
  fts := (runFtsSearch_extends positive more).1
  semantic := List.map_subset _ (semanticRows_extends more)
  fallback := (runFtsSearch_extends positive more).2

/-! ### The candidates of one window -/

theorem mem_sinkBehind {sinks : EntityId → Bool} {ids : List EntityId} : id ∈ sinkBehind sinks ids ↔ id ∈ ids := by
  unfold sinkBehind
  cases sunk : sinks id <;> simp [sunk]

theorem mem_orderSearchPool {db : Db} {ids : List EntityId} (strict : controls.mode = .strict) :
    id ∈ orderSearchPool db controls now ids ↔ id ∈ ids := by
  unfold orderSearchPool
  rw [strict]
  dsimp only [applyStrictRankingDefaults, applyTypeBias, applySupersessionDemotion]
  rw [mem_sinkBehind, mem_sinkBehind]
  split <;> split <;> simp only [mem_sinkBehind]

theorem mem_rerankSearchPool {ids : List EntityId} : id ∈ rerankSearchPool s controls ids ↔ id ∈ ids := by
  unfold rerankSearchPool
  split
  · rfl
  · simp only [List.mem_append, List.mem_insertionSort, List.mem_filter, Bool.not_eq_true', ← Bool.not_eq_true, List.contains_iff_mem]
    constructor
    · rintro (⟨first, -⟩ | ⟨member, -⟩)
      · exact List.mem_of_mem_take first
      · exact member
    · intro member
      by_cases scored : id ∈ ids.take controls.ceCandidateCap ∧ (s.corpus.entities.find id).any (·.status != .archived) = true
      · exact .inl scored
      · exact .inr ⟨member, scored⟩

def SearchStore.fused (s : SearchStore ν δ) (clauses : Clauses) (controls : SearchControls) (window : Nat) : List (EntityId × Rat) :=
  weightedReciprocalRankFusion (s.gatherChannels clauses controls window) controls window

def SearchStore.resolution (s : SearchStore ν δ) (clauses : Clauses) (controls : SearchControls) (now : Instant) (window : Nat) :
    PredecessorResolution :=
  resolveSearchPredecessors s clauses controls now (s.gatherChannels clauses controls window) (s.fused clauses controls window)

/-- What the gate is asked about: the fused pool, with heads in the place of their predecessors. -/
def SearchStore.candidates (s : SearchStore ν δ) (clauses : Clauses) (controls : SearchControls) (now : Instant) (window : Nat) :
    List EntityId :=
  (s.resolution clauses controls now window).rrfMap.map Prod.fst

theorem mem_orderedIds {window : Nat} (strict : controls.mode = .strict) :
    id ∈ (computeSearchPool s clauses controls now window).orderedIds ↔ id ∈ s.candidates clauses controls now window ∧
      (acceptOrAbstain (strictEvidence s controls (s.gatherChannels clauses controls window)
        (s.resolution clauses controls now window) id)).1 = true := by
  unfold computeSearchPool
  dsimp only
  rw [mem_orderSearchPool strict, gateSearchPool, if_pos strict, List.mem_filter, mem_rerankSearchPool]
  rfl

/-! ### Predecessors -/

/-- The head that stands for a memory wherever the memory is found. -/
def SearchStore.HeadOf (s : SearchStore ν δ) (clauses : Clauses) (now : Instant) (predecessor head : EntityId) : Prop :=
  SupersessionHead s.db now supersessionChainMaxDepth predecessor head ∧ ∃ e, s.db.entities.find head = some e ∧ clauses e = true

def SearchStore.SameTopic (s : SearchStore ν δ) (controls : SearchControls) (id : EntityId) : Prop :=
  s.topicVerdict controls.queryKeywords id = .sameSpecificTopic

/-- A predecessor in the fused pool that a full text match speaks for, and the topic too where only the retry matched. -/
def SearchStore.Grounded (s : SearchStore ν δ) (clauses : Clauses) (controls : SearchControls) (now : Instant) (window : Nat)
    (head : EntityId) : Prop :=
  ∃ p ∈ (s.fused clauses controls window).map Prod.fst, s.HeadOf clauses now p head ∧
    p ∈ (s.gatherChannels clauses controls window).ftsRows ∧
    ((s.gatherChannels clauses controls window).usedOrFallback = true → s.SameTopic controls p)

theorem preEvidence_accept_iff {query : String} {prePoolIds : List EntityId} (pooled : id ∈ prePoolIds) :
    (acceptOrAbstain (resolvePredecessorEvidence s query channels prePoolIds id)).1 = true ↔
      id ∈ channels.ftsRows ∧ (channels.usedOrFallback = true → s.topicVerdict query id = .sameSpecificTopic) := by
  unfold resolvePredecessorEvidence
  rw [accept_iff]
  unfold ChannelRows.AndHit ChannelRows.Hit scoreTopics
  cases fallback : channels.usedOrFallback
  · simp
  · by_cases matched : id ∈ channels.ftsRows <;> simp [matched, pooled]

theorem resolution_grounded {window : Nat} (strict : controls.mode = .strict) :
    (s.resolution clauses controls now window).predecessorGrounded id = true ↔ s.Grounded clauses controls now window id := by
  have listed : ∀ p, (p, id) ∈ resolveSupersessionChains s.db ((s.fused clauses controls window).map Prod.fst) clauses
      supersessionChainMaxDepth now ↔ p ∈ (s.fused clauses controls window).map Prod.fst ∧ s.HeadOf clauses now p id :=
    fun p => mem_resolveSupersessionChains
  unfold SearchStore.resolution resolveSearchPredecessors
  rw [if_pos strict]
  dsimp only
  split
  · rename_i empty
    rw [List.isEmpty_iff] at empty
    constructor
    · simp
    · rintro ⟨p, pooled, head, _⟩
      have member := (listed p).mpr ⟨pooled, head⟩
      simp [empty] at member
  · simp only [accumulateResolvedPredecessors, List.any_eq_true, Bool.and_eq_true, beq_iff_eq]
    constructor
    · rintro ⟨⟨p, _⟩, member, rfl, accepted⟩
      obtain ⟨pooled, head⟩ := (listed p).mp member
      exact ⟨p, pooled, head, (preEvidence_accept_iff pooled).mp accepted⟩
    · rintro ⟨p, pooled, head, matched⟩
      exact ⟨(p, id), (listed p).mpr ⟨pooled, head⟩, rfl, (preEvidence_accept_iff pooled).mpr matched⟩

/-- Whoever has a grounded predecessor is a resolved head. -/
theorem resolution_resolvedHead {window : Nat} (strict : controls.mode = .strict)
    (grounded : s.Grounded clauses controls now window id) :
    ((s.resolution clauses controls now window).resolvedMap.any (·.2 == id)) = true := by
  obtain ⟨p, pooled, head, _⟩ := grounded
  have member : (p, id) ∈ resolveSupersessionChains s.db ((s.fused clauses controls window).map Prod.fst) clauses
      supersessionChainMaxDepth now := mem_resolveSupersessionChains.mpr ⟨pooled, head⟩
  unfold SearchStore.resolution resolveSearchPredecessors
  rw [if_pos strict]
  dsimp only
  split
  · rename_i empty
    rw [List.isEmpty_iff] at empty
    simp [empty] at member
  · exact List.any_eq_true.mpr ⟨(p, id), member, beq_self_eq_true id⟩

/-- A strict search accepts the matches of all terms, the other hits that are on the topic, and of those it did not hit
the heads of grounded predecessors. -/
theorem accepted_iff {window : Nat} (strict : controls.mode = .strict) :
    id ∈ (computeSearchPool s clauses controls now window).orderedIds ↔ id ∈ s.candidates clauses controls now window ∧
      ((s.gatherChannels clauses controls window).AndHit id ∨
        ((s.gatherChannels clauses controls window).Hit id ∧ s.SameTopic controls id) ∨
        (¬ (s.gatherChannels clauses controls window).Hit id ∧ s.Grounded clauses controls now window id)) := by
  rw [mem_orderedIds strict]
  refine and_congr_right fun candidate => ?_
  have judged : ¬ (s.gatherChannels clauses controls window).AndHit id →
      (scoreTopics s controls.queryKeywords ((s.candidates clauses controls now window).filter
        (!(s.gatherChannels clauses controls window).ftsAndIds.contains ·)) id = some .sameSpecificTopic ↔ s.SameTopic controls id) := by
    intro unmatched
    have listed : id ∈ (s.candidates clauses controls now window).filter
        (!(s.gatherChannels clauses controls window).ftsAndIds.contains ·) := by
      rw [List.mem_filter, Bool.not_eq_true', ← Bool.not_eq_true, List.contains_iff_mem, mem_ftsAndIds]
      exact ⟨candidate, unmatched⟩
    unfold scoreTopics SearchStore.SameTopic
    rw [if_pos (List.contains_iff_mem.mpr listed), Option.some.injEq]
  have heads : s.Grounded clauses controls now window id →
      ((s.resolution clauses controls now window).resolvedMap.any (·.2 == id)) = true := resolution_resolvedHead strict
  unfold strictEvidence
  rw [accept_iff, resolution_grounded strict]
  by_cases matched : (s.gatherChannels clauses controls window).AndHit id
  · exact iff_of_true (.inl matched) (.inl matched)
  · refine or_congr Iff.rfl (or_congr (and_congr_right fun _ => judged matched) (and_congr_right fun _ => ?_))
    exact and_iff_right_of_imp heads

/-! ### Wider windows -/

theorem fused_zero : s.fused clauses controls 0 = [] := by
  unfold SearchStore.fused weightedReciprocalRankFusion
  split
  · unfold reciprocalRankFusion
    exact List.take_zero
  · exact List.take_zero

theorem candidates_pos {window : Nat} (candidate : id ∈ s.candidates clauses controls now window) : 0 < window := by
  refine Nat.pos_of_ne_zero ?_
  rintro rfl
  unfold SearchStore.candidates SearchStore.resolution at candidate
  rw [fused_zero] at candidate
  unfold resolveSearchPredecessors at candidate
  split at candidate
  · simp [resolveSupersessionChains] at candidate
  · simp at candidate

theorem judged_widens {hit hit' matched matched' onTopic grounded grounded' : Prop} (hits : hit → hit') (matches_ : matched → matched')
    (own : matched → hit) (own' : matched' → hit') (accepted : matched ∨ (hit ∧ onTopic) ∨ (¬ hit ∧ grounded)) :
    (matched' ∨ (hit' ∧ onTopic) ∨ (¬ hit' ∧ grounded')) ↔
      ¬ (¬ hit ∧ ((hit' ∧ ¬ matched' ∧ ¬ onTopic) ∨ (¬ hit' ∧ ¬ grounded'))) := by
  tauto

/-- What a strict search accepts at one window it accepts at each wider one that still has it for a candidate, but for a
head without a hit of its own that is hit in vain there, or is not hit and has no grounded predecessor left in the pool.
So it is with every hit that is added to the evidence. -/
theorem strictGate_widens (s : SearchStore ν δ) (clauses : Clauses) (controls : SearchControls) (now : Instant)
    (strict : controls.mode = .strict) :
    (∀ (window wider : Nat) (id : EntityId), window ≤ wider → id ∈ (computeSearchPool s clauses controls now window).orderedIds →
      (id ∈ (computeSearchPool s clauses controls now wider).orderedIds ↔ id ∈ s.candidates clauses controls now wider ∧
        ¬ (¬ (s.gatherChannels clauses controls window).Hit id ∧
          (((s.gatherChannels clauses controls wider).Hit id ∧ ¬ (s.gatherChannels clauses controls wider).AndHit id ∧
              ¬ s.SameTopic controls id) ∨
            (¬ (s.gatherChannels clauses controls wider).Hit id ∧ ¬ s.Grounded clauses controls now wider id))))) ∧
    ∀ (channels more : ChannelRows) (topicScores : EntityId → Option SemanticVerdict) (resolvedHead grounded : EntityId → Bool)
      (id : EntityId), more.Extends channels →
      (acceptOrAbstain (buildCandidateEvidence channels topicScores resolvedHead grounded id)).1 = true →
      ((acceptOrAbstain (buildCandidateEvidence more topicScores resolvedHead grounded id)).1 = true ↔
        ¬ (¬ channels.Hit id ∧ more.Hit id ∧ ¬ more.AndHit id ∧ topicScores id ≠ some .sameSpecificTopic)) := by
  refine ⟨fun window wider id more accepted => ?_, fun _ _ _ _ _ _ more accepted => more.accept_iff accepted⟩
  rw [accepted_iff strict] at accepted ⊢
  obtain ⟨candidate, judged⟩ := accepted
  refine and_congr_right fun _ => ?_
  have extends_ : (s.gatherChannels clauses controls wider).Extends (s.gatherChannels clauses controls window) :=
    gatherChannels_extends (candidates_pos candidate) more
  exact judged_widens extends_.hit extends_.andHit ChannelRows.AndHit.hit ChannelRows.AndHit.hit judged

/-! ### A head that is hit in vain -/

/-- The old memory matches the words and lies nearest; the new one, which replaces it, lies second and off the topic. -/
def replacedStore : SearchStore Nat Nat where
  corpus :=
    { entities := ⟨[memoryRow "new" "New" "now", memoryRow "old" "Old" "then"], by decide⟩
      embeddingStatus := fun _ => .ready
      entityEmbeddings := [⟨"old", 1⟩, ⟨"new", 2⟩]
      chunkEmbeddings := []
      vectorKeys := by decide }
  relations := ⟨[(supersedesDraft "new" "old").row 0], 1, by decide, by decide, by simp⟩
  vectors := lineIndex
  entitiesFts q := if q.joinedByOr then [] else ["old"]
  retrievalFts _ := []
  retrievalEmbeddings := []
  retrievalVectors := byInsertion (RetrievalEmbedding Nat) Nat
  retrievalHash _ := none
  topicVerdict _ _ := .differentTopics
  crossEncoder := none

def strictControls : SearchControls where
  sanitizedQuery := "then"
  queryKeywords := "then"
  mode := .strict
  chunkWindow := 20
  chunkOversampling := 4
  useChunkCandidates := false
  useRetrievalTextCandidates := false
  configuredChunkWeight := 1
  configuredRetrievalFtsWeight := 0
  configuredRetrievalVectorWeight := 0
  ceCandidateCap := 10
  preferDurableTypes := false
  demoteSuperseded := false
  collapseSupersedesFamilies := false

theorem replacedStore_accepts : "new" ∈ (computeSearchPool replacedStore (fun _ => true) strictControls 0 1).orderedIds ∧
    "new" ∉ (computeSearchPool replacedStore (fun _ => true) strictControls 0 2).orderedIds := by
  decide +kernel

theorem replacedStore_widens : "new" ∈ (computeSearchPool replacedStore (fun _ => true) strictControls 0 2).orderedIds ↔
    "new" ∈ replacedStore.candidates (fun _ => true) strictControls 0 2 ∧
      ¬ (¬ (replacedStore.gatherChannels (fun _ => true) strictControls 1).Hit "new" ∧
        (((replacedStore.gatherChannels (fun _ => true) strictControls 2).Hit "new" ∧
            ¬ (replacedStore.gatherChannels (fun _ => true) strictControls 2).AndHit "new" ∧
            ¬ replacedStore.SameTopic strictControls "new") ∨
          (¬ (replacedStore.gatherChannels (fun _ => true) strictControls 2).Hit "new" ∧
            ¬ replacedStore.Grounded (fun _ => true) strictControls 0 2 "new"))) :=
  (strictGate_widens replacedStore (fun _ => true) strictControls 0 rfl).1 1 2 "new" (by decide) replacedStore_accepts.1

/-- The wider window finds the head itself, off the topic, and the gate turns it away. -/
theorem widerWindow_refuses : ¬ ((∀ (s : SearchStore Nat Nat) (clauses : Clauses) (controls : SearchControls) (now : Instant)
      (window wider : Nat) (id : EntityId), controls.mode = .strict → window ≤ wider →
      id ∈ (computeSearchPool s clauses controls now window).orderedIds →
      id ∈ (computeSearchPool s clauses controls now wider).orderedIds) ∧
    ∀ (channels more : ChannelRows) (topicScores : EntityId → Option SemanticVerdict) (resolvedHead grounded : EntityId → Bool)
      (id : EntityId), more.Extends channels →
      (acceptOrAbstain (buildCandidateEvidence channels topicScores resolvedHead grounded id)).1 = true →
      (acceptOrAbstain (buildCandidateEvidence more topicScores resolvedHead grounded id)).1 = true) := by
  rintro ⟨always, -⟩
  exact replacedStore_accepts.2 (always replacedStore (fun _ => true) strictControls 0 1 2 "new" rfl (by decide) replacedStore_accepts.1)

end SaltMdb
