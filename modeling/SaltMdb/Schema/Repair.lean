import SaltMdb.Embedding.Enqueue
import SaltMdb.Schema.Supersedes

/-! The lifecycle migration: it archives the memories that a line of `supersedes` edges has left behind, and what search kept of them. -/

namespace SaltMdb
open Chains

/-- The columns of a memory that the repair reads or sets. -/
structure LegacyMemory where
  id : EntityId
  status : Status
  embeddingStatus : EmbeddingStatus
  createdAt : String
  updatedAt : String
  validFrom : Option String
  validTo : Option String
deriving DecidableEq, Repr

structure LegacyRelation extends SupersedesRow where
  predicate : String
  validTo : Option String
  validAt : Option String
  invalidAt : Option String
deriving DecidableEq, Repr

/-- A database of an earlier release, with times as the text it has. -/
structure LifecycleDb (ν : Type) where
  memories : List LegacyMemory
  relations : List LegacyRelation
  jobs : JobTable
  entityEmbeddings : List (EntityEmbedding ν)
  chunkEmbeddings : List (ChunkEmbedding ν)
  retrievalEmbeddings : List (RetrievalEmbedding ν)
  memoryKeys : (memories.map LegacyMemory.id).Nodup
  relationKeys : (relations.map fun r => r.id).Nodup

/-- What the migration reports. -/
structure LifecycleSummary where
  selfRelations : Nat
  archivedSupersedesTargets : Nat
  ambiguousSupersedesComponents : Nat
  cleanedVectorEntities : Nat
deriving DecidableEq, Repr

/-- `status IN ('raw','consolidated')`. -/
def LegacyMemory.searchable (m : LegacyMemory) : Bool := m.status == .raw || m.status == .consolidated

def LegacyMemory.archive (now retiredAt : String) (m : LegacyMemory) : LegacyMemory :=
  { m with status := .archived, embeddingStatus := .archived, updatedAt := now, validTo := some retiredAt }

variable {ν : Type} (datetime : String → Option String) (clock : EntityId → Instant) (now : String)

namespace LifecycleDb

/-- `datetime(t) <= datetime(now)`, which is not so where one of them is no time. -/
def reached (t : String) : Bool :=
  match datetime t, datetime now with
  | some time, some present => decide (time ≤ present)
  | _, _ => false

/-- `datetime(t) > datetime(now)`. -/
def ahead (t : String) : Bool :=
  match datetime t, datetime now with
  | some time, some present => decide (present < time)
  | _, _ => false

def currentRelation (r : LegacyRelation) : Bool :=
  r.validFrom.all (reached datetime now) && r.validTo.all (ahead datetime now) && r.validAt.all (reached datetime now) &&
    r.invalidAt.all (ahead datetime now)

variable (db : LifecycleDb ν)

def updateMemories (f : LegacyMemory → LegacyMemory) (keeps : ∀ m, (f m).id = m.id) : LifecycleDb ν :=
  { db with
    memories := db.memories.map f
    memoryKeys := by
      have same : LegacyMemory.id ∘ f = LegacyMemory.id := funext keeps
      rw [List.map_map, same]
      exact db.memoryKeys }

def updateRelations (f : LegacyRelation → LegacyRelation) (keeps : ∀ r, (f r).id = r.id) : LifecycleDb ν :=
  { db with
    relations := db.relations.map f
    relationKeys := by
      have same : (fun r : LegacyRelation => r.id) ∘ f = fun r => r.id := funext keeps
      rw [List.map_map, same]
      exact db.relationKeys }

/-- `UPDATE relations SET invalid_at=?, valid_to=? WHERE id=?`. -/
def endRelation (id : String) : LifecycleDb ν :=
  db.updateRelations (fun r => if r.id = id then { r with invalidAt := some now, validTo := some now } else r) fun r => by
    split <;> rfl

def invalidateSelfRelations : LifecycleDb ν × List String :=
  let selfRows := (db.relations.filter fun r => r.sourceId == r.targetId && currentRelation datetime now r).map fun r => r.id
  (selfRows.foldl (endRelation now) db, selfRows)

def loadCurrentSupersedes : List SupersedesRow :=
  (db.relations.filter fun r =>
    r.predicate == "supersedes" && r.sourceId != r.targetId && currentRelation datetime now r).map LegacyRelation.toSupersedesRow

/-- The latest of the times there are, as text. -/
def retiredAt (m : LegacyMemory) (row : SupersedesRow) : String :=
  (([m.validFrom, row.validFrom, row.createdAt].reduceOption.filter (· ≠ "")).max?).getD now

def setMemory (m : LegacyMemory) (row : SupersedesRow) : LifecycleDb ν :=
  db.updateMemories (fun other => if other.id = m.id ∧ other.searchable = true then other.archive now (retiredAt now m row) else other)
    fun other => by split <;> rfl

def cancelEmbeddingJobsForEntity (id : EntityId) : LifecycleDb ν :=
  { db with jobs := db.jobs.updateWhere (EmbeddingDb.liveJobOf id (· != .retrieval)) (EmbeddingDb.cancelled (clock id)) }

/-- With the extension there, which `strict` asks for. -/
def clearEmbeddingVectorsForEntity (id : EntityId) : LifecycleDb ν :=
  { db with
    entityEmbeddings := db.entityEmbeddings.filter (·.entityId != id)
    chunkEmbeddings := db.chunkEmbeddings.filter (·.entityId != id) }

def deleteRetrievalEmbedding (id : EntityId) : LifecycleDb ν :=
  { db with retrievalEmbeddings := db.retrievalEmbeddings.filter (·.entityId != id) }

def cancelRetrievalEmbeddingJobsForEntity (id : EntityId) : LifecycleDb ν :=
  deleteRetrievalEmbedding
    { db with jobs := db.jobs.updateWhere (EmbeddingDb.liveJobOf id (· == .retrieval)) (EmbeddingDb.released (clock id)) } id

/-- One row's turn in the loop: the database, and how many were archived. -/
def archiveSafeSupersedesTarget (safeNodes : List EntityId) (found : LifecycleDb ν × Nat) (row : SupersedesRow) : LifecycleDb ν × Nat :=
  if row.targetId ∉ safeNodes then found
  else
    match found.1.memories.find? (·.id == row.targetId) with
    | none => found
    | some entity =>
      if entity.searchable then
        let archived := found.1.setMemory now entity row
        let cancelled := archived.cancelEmbeddingJobsForEntity clock row.targetId
        let cleared := cancelled.clearEmbeddingVectorsForEntity row.targetId
        (cleared.cancelRetrievalEmbeddingJobsForEntity clock row.targetId, found.2 + 1)
      else found

def archiveSafeSupersedesTargets (rows : List SupersedesRow) (safeNodes : List EntityId) : LifecycleDb ν × Nat :=
  rows.foldl (archiveSafeSupersedesTarget clock now safeNodes) (db, 0)

/-- `SET valid_to=COALESCE(updated_at,valid_from,created_at) WHERE status='archived' AND valid_to IS NULL`. -/
def dateArchived (m : LegacyMemory) : LegacyMemory :=
  if m.status = .archived ∧ m.validTo = none then
    { m with validTo := (some m.updatedAt).or (m.validFrom.or (some m.createdAt)) }
  else m

/-- `e.id IS NULL OR e.status='archived'`, after the outer join. -/
def orphaned (id : EntityId) : Bool := (db.memories.find? (·.id == id)).all (·.status == .archived)

def orphanedVectorIds : List EntityId :=
  ((db.entityEmbeddings.map (·.entityId) ++ db.chunkEmbeddings.map (·.entityId) ++ db.retrievalEmbeddings.map (·.entityId)).filter
    db.orphaned).dedup

def clearVectors (id : EntityId) : LifecycleDb ν := (db.clearEmbeddingVectorsForEntity id).deleteRetrievalEmbedding id

def cleanupOrphanedVectors : LifecycleDb ν × List EntityId :=
  (db.orphanedVectorIds.foldl clearVectors db, db.orphanedVectorIds)

theorem dateArchived_id (m : LegacyMemory) : (dateArchived m).id = m.id := by
  unfold dateArchived
  split <;> rfl

def migrateLegacyLifecycleInvariants : LifecycleDb ν × LifecycleSummary :=
  let ended := db.invalidateSelfRelations datetime now
  let rows := ended.1.loadCurrentSupersedes datetime now
  let survey := findSafeSupersedesNodes rows
  let archived := ended.1.archiveSafeSupersedesTargets clock now rows survey.safeNodes
  let dated := archived.1.updateMemories dateArchived dateArchived_id
  let cleaned := dated.cleanupOrphanedVectors
  (cleaned.1, ⟨ended.2.length, archived.2, survey.ambiguousComponents, cleaned.2.length⟩)

/-! ### Relations that lead back to their own memory -/

variable {datetime clock now db}

def endedSelf (datetime : String → Option String) (now : String) (r : LegacyRelation) : LegacyRelation :=
  if (r.sourceId == r.targetId && currentRelation datetime now r) = true then { r with invalidAt := some now, validTo := some now } else r

theorem endedSelf_id (r : LegacyRelation) : (endedSelf datetime now r).id = r.id := by
  unfold endedSelf
  split <;> rfl

theorem endRelations (ids : List String) (db : LifecycleDb ν) : ids.foldl (endRelation now) db =
    db.updateRelations (fun r => if r.id ∈ ids then { r with invalidAt := some now, validTo := some now } else r) fun r => by
      split <;> rfl := by
  induction ids generalizing db with
  | nil => simp [updateRelations]
  | cons id ids ih =>
    rw [List.foldl_cons, ih]
    simp only [endRelation, updateRelations, List.map_map, mk.injEq, true_and, and_true]
    refine List.map_congr_left fun r _ => ?_
    simp only [Function.comp_apply]
    grind

theorem invalidateSelfRelations_eq : (db.invalidateSelfRelations datetime now).1 =
    db.updateRelations (endedSelf datetime now) endedSelf_id := by
  unfold invalidateSelfRelations
  dsimp only
  rw [endRelations]
  simp only [updateRelations, mk.injEq, true_and, and_true]
  refine List.map_congr_left fun r listed => ?_
  unfold endedSelf
  refine if_congr ?_ rfl rfl
  constructor
  · intro chosen
    obtain ⟨other, member, same⟩ := List.mem_map.mp chosen
    obtain ⟨here, self⟩ := List.mem_filter.mp member
    rw [← List.inj_on_of_nodup_map db.relationKeys here listed same]
    exact self
  · exact fun self => List.mem_map.mpr ⟨r, List.mem_filter.mpr ⟨listed, self⟩, rfl⟩

theorem loadCurrentSupersedes_ended :
    (db.updateRelations (endedSelf datetime now) endedSelf_id).loadCurrentSupersedes datetime now = db.loadCurrentSupersedes datetime now := by
  unfold loadCurrentSupersedes updateRelations
  dsimp only
  induction db.relations with
  | nil => rfl
  | cons r relations ih =>
    by_cases self : (r.sourceId == r.targetId) = true
    · have gone : ((endedSelf datetime now r).sourceId != (endedSelf datetime now r).targetId) = false := by
        unfold endedSelf
        split <;> simpa using self
      have before : (r.sourceId != r.targetId) = false := by simpa using self
      rw [List.map_cons, List.filter_cons_of_neg (by simp [gone]), List.filter_cons_of_neg (by simp [before])]
      exact ih
    · have same : endedSelf datetime now r = r := by
        unfold endedSelf
        rw [if_neg]
        simp [self]
      rw [List.map_cons, same, List.filter_cons, List.filter_cons]
      split
      · rw [List.map_cons, List.map_cons, ih]
      · exact ih

/-! ### What the rows archive -/

/-- The first row of those that archives a memory. -/
def retiredBy (safeNodes : List EntityId) (rows : List SupersedesRow) (m : LegacyMemory) : Option SupersedesRow :=
  if m.searchable then rows.find? fun row => decide (row.targetId ∈ safeNodes) && row.targetId == m.id else none

def afterRows (now : String) (safeNodes : List EntityId) (rows : List SupersedesRow) (m : LegacyMemory) : LegacyMemory :=
  match retiredBy safeNodes rows m with
  | some row => m.archive now (retiredAt now m row)
  | none => m

def retires (db : LifecycleDb ν) (safeNodes : List EntityId) (rows : List SupersedesRow) (id : EntityId) : Bool :=
  db.memories.any fun m => m.id == id && (retiredBy safeNodes rows m).isSome

/-- A live job, given up. -/
def withdrawn (clock : EntityId → Instant) (j : Job) : Job :=
  let set := if j.key.kind = .retrieval then EmbeddingDb.released else EmbeddingDb.cancelled
  { j with toJobColumns := set (clock j.key.entityId) j.toJobColumns }

/-- The database when the first rows had their turn. -/
structure Archives (clock : EntityId → Instant) (now : String) (db : LifecycleDb ν) (safeNodes : List EntityId) (done : List SupersedesRow)
    (found : LifecycleDb ν × Nat) : Prop where
  memories : found.1.memories = db.memories.map (afterRows now safeNodes done)
  relations : found.1.relations = db.relations
  jobs : found.1.jobs.rows = db.jobs.rows.map fun j =>
    if (db.retires safeNodes done j.key.entityId && j.state.live) = true then withdrawn clock j else j
  entityEmbeddings : found.1.entityEmbeddings = db.entityEmbeddings.filter fun v => !db.retires safeNodes done v.entityId
  chunkEmbeddings : found.1.chunkEmbeddings = db.chunkEmbeddings.filter fun v => !db.retires safeNodes done v.entityId
  retrievalEmbeddings : found.1.retrievalEmbeddings = db.retrievalEmbeddings.filter fun v => !db.retires safeNodes done v.entityId
  archived : found.2 = db.memories.countP fun m => (retiredBy safeNodes done m).isSome

variable {safeNodes : List EntityId} {done : List SupersedesRow} {row : SupersedesRow} {found : LifecycleDb ν × Nat} {m : LegacyMemory}

theorem afterRows_id : (afterRows now safeNodes done m).id = m.id := by
  unfold afterRows
  split <;> rfl

/-- A row has no effect where nothing new is retired by it. -/
theorem Archives.unchanged (archives : Archives clock now db safeNodes done found)
    (same : ∀ m ∈ db.memories, retiredBy safeNodes (done ++ [row]) m = retiredBy safeNodes done m) :
    Archives clock now db safeNodes (done ++ [row]) found := by
  have after : ∀ m ∈ db.memories, afterRows now safeNodes (done ++ [row]) m = afterRows now safeNodes done m := by
    intro m listed
    unfold afterRows
    rw [same m listed]
  have retired : ∀ id, db.retires safeNodes (done ++ [row]) id = db.retires safeNodes done id := by
    intro id
    unfold retires
    rw [Bool.eq_iff_iff, List.any_eq_true, List.any_eq_true]
    refine exists_congr fun m => and_congr_right fun listed => ?_
    rw [same m listed]
  constructor
  · rw [archives.memories]
    exact List.map_congr_left fun m listed => (after m listed).symm
  · exact archives.relations
  · simp only [retired]
    exact archives.jobs
  · simp only [retired]
    exact archives.entityEmbeddings
  · simp only [retired]
    exact archives.chunkEmbeddings
  · simp only [retired]
    exact archives.retrievalEmbeddings
  · rw [archives.archived]
    refine List.countP_congr fun m listed => ?_
    rw [same m listed]

theorem retiredBy_concat : retiredBy safeNodes (done ++ [row]) m =
    (retiredBy safeNodes done m).or (if m.searchable = true ∧ row.targetId ∈ safeNodes ∧ row.targetId = m.id then some row else none) := by
  unfold retiredBy
  split
  · rename_i searchable
    rw [List.find?_append, List.find?_singleton]
    congr 1
    refine if_congr ?_ rfl rfl
    simp [searchable]
  · rename_i hidden
    rw [if_neg fun chosen => hidden chosen.1]
    rfl

theorem archive_searchable (retiredAt : String) : (m.archive now retiredAt).searchable = false := rfl

theorem afterRows_searchable : (afterRows now safeNodes done m).searchable = (m.searchable && (retiredBy safeNodes done m).isNone) := by
  unfold afterRows
  cases retired : retiredBy safeNodes done m with
  | none => simp
  | some row => simp [archive_searchable]

/-- The job of the memory that is archived now, after both statements that cancel. -/
theorem cancel_job (id : EntityId) (j : Job) :
    (j.setIf (EmbeddingDb.liveJobOf id (· != .retrieval)) (EmbeddingDb.cancelled (clock id))).setIf
      (EmbeddingDb.liveJobOf id (· == .retrieval)) (EmbeddingDb.released (clock id)) =
    if (j.key.entityId == id && j.state.live) = true then withdrawn clock j else j := by
  by_cases own : (j.key.entityId == id && j.state.live) = true
  · rw [if_pos own]
    rw [Bool.and_eq_true, beq_iff_eq] at own
    obtain ⟨rfl, live⟩ := own
    by_cases retrieval : j.key.kind = .retrieval
    · have passed : j.setIf (EmbeddingDb.liveJobOf j.key.entityId (· != .retrieval)) (EmbeddingDb.cancelled (clock j.key.entityId)) = j :=
        Job.setIf_of_not _ (by simp [EmbeddingDb.liveJobOf, retrieval])
      rw [passed, Job.setIf_of _ (by simp [EmbeddingDb.liveJobOf, retrieval, live])]
      simp [withdrawn, retrieval]
    · have set : j.setIf (EmbeddingDb.liveJobOf j.key.entityId (· != .retrieval)) (EmbeddingDb.cancelled (clock j.key.entityId)) = withdrawn clock j := by
        rw [Job.setIf_of _ (by simp [EmbeddingDb.liveJobOf, retrieval, live])]
        simp [withdrawn, retrieval]
      rw [set]
      exact Job.setIf_of_not _ (by simp [EmbeddingDb.liveJobOf, withdrawn, retrieval])
  · have other : ∀ kinds, EmbeddingDb.liveJobOf id kinds j = false := by
      intro kinds
      simp only [EmbeddingDb.liveJobOf]
      grind
    have passed : j.setIf (EmbeddingDb.liveJobOf id (· != .retrieval)) (EmbeddingDb.cancelled (clock id)) = j := Job.setIf_of_not _ (other _)
    rw [if_neg own, passed]
    exact Job.setIf_of_not _ (other _)

theorem withdrawn_dead (j : Job) : (withdrawn clock j).state.live = false := by
  unfold withdrawn EmbeddingDb.released EmbeddingDb.cancelled
  dsimp only
  split <;> rfl

theorem withdrawn_key (j : Job) : (withdrawn clock j).key = j.key := rfl

/-- The count goes up where one memory is chosen that was not. -/
theorem countP_turned {memories : List LegacyMemory} (keys : (memories.map LegacyMemory.id).Nodup) {p q : LegacyMemory → Bool}
    (here : m ∈ memories) (turned : q m = true ∧ p m = false) (others : ∀ other ∈ memories, other.id ≠ m.id → q other = p other) :
    memories.countP p + 1 = memories.countP q := by
  induction memories with
  | nil => exact absurd here List.not_mem_nil
  | cons first memories ih =>
    rw [List.map_cons, List.nodup_cons] at keys
    rw [List.countP_cons, List.countP_cons]
    rcases List.mem_cons.mp here with rfl | behind
    · have same : memories.countP p = memories.countP q := by
        refine List.countP_congr fun other there => ?_
        rw [others other (List.mem_cons_of_mem _ there) fun again => keys.1 (again ▸ List.mem_map_of_mem there)]
      rw [turned.1, turned.2, same]
      rfl
    · have apart : first.id ≠ m.id := fun again => keys.1 (again ▸ List.mem_map_of_mem behind)
      rw [others first List.mem_cons_self apart, ← ih keys.2 behind fun other there => others other (List.mem_cons_of_mem _ there)]
      omega

/-- A row that archives a memory. -/
theorem Archives.retire (archives : Archives clock now db safeNodes done found) (here : m ∈ db.memories) (own : m.id = row.targetId)
    (safe : row.targetId ∈ safeNodes) (searchable : m.searchable = true) (open_ : retiredBy safeNodes done m = none) :
    Archives clock now db safeNodes (done ++ [row])
      ((((found.1.setMemory now (afterRows now safeNodes done m) row).cancelEmbeddingJobsForEntity clock row.targetId).clearEmbeddingVectorsForEntity
        row.targetId).cancelRetrievalEmbeddingJobsForEntity clock row.targetId, found.2 + 1) := by
  have as_is : afterRows now safeNodes done m = m := by
    unfold afterRows
    rw [open_]
  have only : ∀ other ∈ db.memories, other.id = row.targetId → other = m := fun other there same =>
    List.inj_on_of_nodup_map db.memoryKeys there here (same.trans own.symm)
  have chosen : retiredBy safeNodes (done ++ [row]) m = some row := by
    rw [retiredBy_concat, open_, if_pos ⟨searchable, safe, own.symm⟩]
    rfl
  have others : ∀ other ∈ db.memories, other.id ≠ row.targetId → retiredBy safeNodes (done ++ [row]) other = retiredBy safeNodes done other := by
    intro other _ apart
    rw [retiredBy_concat, if_neg fun same => apart same.2.2.symm, Option.or_none]
  have retired : ∀ id, db.retires safeNodes (done ++ [row]) id = (db.retires safeNodes done id || id == row.targetId) := by
    intro id
    unfold retires
    rw [Bool.eq_iff_iff, Bool.or_eq_true, List.any_eq_true, List.any_eq_true, beq_iff_eq]
    constructor
    · rintro ⟨other, there, now_⟩
      rw [Bool.and_eq_true, beq_iff_eq] at now_
      obtain ⟨rfl, is_⟩ := now_
      by_cases same : other.id = row.targetId
      · exact .inr same
      · rw [others other there same] at is_
        exact .inl ⟨other, there, by simp [is_]⟩
    · rintro (⟨other, there, before⟩ | rfl)
      · rw [Bool.and_eq_true, beq_iff_eq] at before
        refine ⟨other, there, ?_⟩
        rw [retiredBy_concat, Option.isSome_or, before.2]
        simp [before.1]
      · exact ⟨m, here, by simp [own, chosen]⟩
  have fresh : db.retires safeNodes done row.targetId = false := by
    unfold retires
    rw [List.any_eq_false]
    intro other there before
    rw [Bool.and_eq_true, beq_iff_eq] at before
    rw [only other there before.1, open_] at before
    exact absurd before.2 (by simp)
  have cleared : ∀ id, (id != row.targetId && !db.retires safeNodes done id) = !db.retires safeNodes (done ++ [row]) id := by
    intro id
    rw [retired, Bool.not_or, Bool.and_comm]
    rfl
  constructor
  · show (found.1.memories.map _) = _
    rw [archives.memories, List.map_map]
    refine List.map_congr_left fun other there => ?_
    simp only [Function.comp_apply, afterRows_id]
    by_cases same : other.id = row.targetId
    · obtain rfl := only other there same
      rw [as_is, if_pos ⟨rfl, searchable⟩]
      unfold afterRows
      rw [chosen]
    · rw [if_neg fun both => same (both.1.trans own)]
      unfold afterRows
      rw [others other there same]
  · exact archives.relations
  · show ((found.1.jobs.rows.map _).map _) = _
    rw [archives.jobs, List.map_map, List.map_map]
    refine List.map_congr_left fun j _ => ?_
    simp only [Function.comp_apply]
    rw [cancel_job, retired]
    by_cases before : (db.retires safeNodes done j.key.entityId && j.state.live) = true
    · rw [if_pos before, withdrawn_dead, Bool.and_false, if_neg Bool.false_ne_true, if_pos]
      rw [Bool.and_eq_true] at before ⊢
      simp [before]
    · rw [if_neg before]
      refine if_congr ?_ rfl rfl
      rw [Bool.not_eq_true] at before
      rw [Bool.and_or_distrib_right, before, Bool.false_or]
  · show (found.1.entityEmbeddings.filter _) = _
    rw [archives.entityEmbeddings, List.filter_filter]
    exact List.filter_congr fun v _ => cleared v.entityId
  · show (found.1.chunkEmbeddings.filter _) = _
    rw [archives.chunkEmbeddings, List.filter_filter]
    exact List.filter_congr fun v _ => cleared v.entityId
  · show (found.1.retrievalEmbeddings.filter _) = _
    rw [archives.retrievalEmbeddings, List.filter_filter]
    exact List.filter_congr fun v _ => cleared v.entityId
  · show found.2 + 1 = _
    rw [archives.archived]
    exact countP_turned db.memoryKeys here (by rw [chosen, open_]; exact ⟨rfl, rfl⟩) fun other there apart => by
      rw [others other there fun same => apart (same.trans own.symm)]

theorem archiveSafeSupersedesTarget_archives (archives : Archives clock now db safeNodes done found) :
    Archives clock now db safeNodes (done ++ [row]) (archiveSafeSupersedesTarget clock now safeNodes found row) := by
  unfold archiveSafeSupersedesTarget
  split
  · rename_i unsafe_
    refine archives.unchanged fun m _ => ?_
    rw [retiredBy_concat, if_neg fun chosen => unsafe_ chosen.2.1, Option.or_none]
  rename_i chosen
  have safe : row.targetId ∈ safeNodes := not_not.mp chosen
  cases read : found.1.memories.find? (·.id == row.targetId) with
  | none =>
    refine archives.unchanged fun m listed => ?_
    rw [retiredBy_concat, if_neg, Option.or_none]
    rintro ⟨_, _, same⟩
    rw [archives.memories, List.find?_eq_none] at read
    exact read _ (List.mem_map_of_mem listed) (by rw [afterRows_id, ← same, beq_self_eq_true])
  | some entity =>
    obtain ⟨listed, own⟩ := (⟨List.mem_of_find?_eq_some read, by simpa using List.find?_some read⟩ : entity ∈ found.1.memories ∧ entity.id = row.targetId)
    rw [archives.memories] at listed
    obtain ⟨m, here, rfl⟩ := List.mem_map.mp listed
    rw [afterRows_id] at own
    have only : ∀ other ∈ db.memories, other.id = row.targetId → other = m := fun other there same =>
      List.inj_on_of_nodup_map db.memoryKeys there here (same.trans own.symm)
    dsimp only
    rw [afterRows_searchable]
    split
    · rename_i open_
      rw [Bool.and_eq_true, Option.isNone_iff_eq_none] at open_
      exact archives.retire here own safe open_.1 open_.2
    · rename_i shut
      refine archives.unchanged fun other there => ?_
      rw [retiredBy_concat]
      split
      · rename_i now_
        obtain rfl := only other there now_.2.2.symm
        rw [now_.1, Bool.true_and, Option.isNone_iff_eq_none] at shut
        obtain ⟨before, retired⟩ := Option.ne_none_iff_exists'.mp shut
        rw [retired, Option.or_some]
        rfl
      · exact Option.or_none

theorem archiveSafeSupersedesTargets_archives (db : LifecycleDb ν) (rows : List SupersedesRow) (safeNodes : List EntityId) :
    Archives clock now db safeNodes rows (db.archiveSafeSupersedesTargets clock now rows safeNodes) := by
  have run : ∀ (todo done : List SupersedesRow) (found : LifecycleDb ν × Nat), Archives clock now db safeNodes done found →
      Archives clock now db safeNodes (done ++ todo) (todo.foldl (archiveSafeSupersedesTarget clock now safeNodes) found) := by
    intro todo
    induction todo with
    | nil =>
      intro done found archives
      rw [List.append_nil]
      exact archives
    | cons row todo ih =>
      intro done found archives
      rw [List.append_cons]
      exact ih _ _ (archiveSafeSupersedesTarget_archives archives)
  have none_ : ∀ m, retiredBy safeNodes [] m = none := by
    intro m
    unfold retiredBy
    split <;> rfl
  have idle : ∀ id, db.retires safeNodes [] id = false := by
    intro id
    simp [retires, none_]
  have same : afterRows now safeNodes [] = fun m => m := by
    funext m
    unfold afterRows
    rw [none_]
  refine run rows [] (db, 0) ⟨?_, rfl, ?_, ?_, ?_, ?_, ?_⟩
  all_goals simp [same, idle, none_]

/-! ### What is left of search -/

theorem clearVectors_all (ids : List EntityId) (db : LifecycleDb ν) : ids.foldl clearVectors db =
    { db with
      entityEmbeddings := db.entityEmbeddings.filter fun v => decide (v.entityId ∉ ids)
      chunkEmbeddings := db.chunkEmbeddings.filter fun v => decide (v.entityId ∉ ids)
      retrievalEmbeddings := db.retrievalEmbeddings.filter fun v => decide (v.entityId ∉ ids) } := by
  induction ids generalizing db with
  | nil => simp
  | cons id ids ih =>
    rw [List.foldl_cons, ih]
    simp only [clearVectors, clearEmbeddingVectorsForEntity, deleteRetrievalEmbedding, List.filter_filter, mk.injEq, true_and]
    refine ⟨?_, ?_, ?_⟩
    all_goals
      refine List.filter_congr fun v _ => ?_
      grind

theorem cleanupOrphanedVectors_eq : db.cleanupOrphanedVectors.1 =
    { db with
      entityEmbeddings := db.entityEmbeddings.filter fun v => !db.orphaned v.entityId
      chunkEmbeddings := db.chunkEmbeddings.filter fun v => !db.orphaned v.entityId
      retrievalEmbeddings := db.retrievalEmbeddings.filter fun v => !db.orphaned v.entityId } := by
  have listed : ∀ id, id ∈ db.orphanedVectorIds ↔
      (id ∈ db.entityEmbeddings.map (·.entityId) ∨ id ∈ db.chunkEmbeddings.map (·.entityId) ∨ id ∈ db.retrievalEmbeddings.map (·.entityId)) ∧
        db.orphaned id = true := by
    intro id
    unfold orphanedVectorIds
    rw [List.mem_dedup, List.mem_filter, List.mem_append, List.mem_append, or_assoc]
  unfold cleanupOrphanedVectors
  dsimp only
  rw [clearVectors_all]
  simp only [mk.injEq, true_and]
  refine ⟨?_, ?_, ?_⟩
  all_goals
    refine List.filter_congr fun v there => ?_
    have own := List.mem_map_of_mem (f := fun v => v.entityId) there
    rw [Bool.eq_iff_iff, decide_eq_true_eq, Bool.not_eq_true', listed, ← Bool.not_eq_true]
    exact not_congr (and_iff_right (by simp only [own, true_or, or_true]))

/-! ### The whole repair -/

end LifecycleDb

/-- Some memory supersedes this one, in a line that leads from one head to one end. -/
def Behind (rows : List SupersedesRow) (id : EntityId) : Prop := ∃ path, Simple (rows.map SupersedesRow.edge) path ∧ id ∈ path.tail

/-- What becomes of a memory. -/
inductive LegacyMemory.Repaired (now : String) (rows : List SupersedesRow) (m : LegacyMemory) : LegacyMemory → Prop where
  | archived (row : SupersedesRow) (open_ : m.status ≠ .archived) (behind : Behind rows m.id) (listed : row ∈ rows)
      (own : row.targetId = m.id) : m.Repaired now rows (m.archive now (LifecycleDb.retiredAt now m row))
  | dated (closed : m.status = .archived) (undated : m.validTo = none) : m.Repaired now rows { m with validTo := some m.updatedAt }
  | kept (open_ : m.status ≠ .archived → ¬ Behind rows m.id) (dated : m.status = .archived → m.validTo ≠ none) : m.Repaired now rows m

/-- A live job of a memory that is archived is given up, and no other one. -/
def Job.Repaired (clock : EntityId → Instant) (gone : EntityId → Prop) (before after : Job) : Prop :=
  (gone before.key.entityId ∧ before.state.live = true ∧ after = LifecycleDb.withdrawn clock before) ∨
    (¬ (gone before.key.entityId ∧ before.state.live = true) ∧ after = before)

namespace LifecycleDb

structure Repaired (datetime : String → Option String) (clock : EntityId → Instant) (now : String) (db after : LifecycleDb ν)
    (rows : List SupersedesRow) : Prop where
  memories : List.Forall₂ (LegacyMemory.Repaired now rows) db.memories after.memories
  relations : after.relations = db.relations.map (endedSelf datetime now)
  jobs : List.Forall₂ (Job.Repaired clock fun id => ∃ m ∈ db.memories, m.id = id ∧ m.status ≠ .archived ∧ Behind rows id) db.jobs.rows
    after.jobs.rows
  entityEmbeddings : after.entityEmbeddings = db.entityEmbeddings.filter fun v => !after.orphaned v.entityId
  chunkEmbeddings : after.chunkEmbeddings = db.chunkEmbeddings.filter fun v => !after.orphaned v.entityId
  retrievalEmbeddings : after.retrievalEmbeddings = db.retrievalEmbeddings.filter fun v => !after.orphaned v.entityId

variable {datetime : String → Option String} {clock : EntityId → Instant} {now : String} {db : LifecycleDb ν} {safeNodes : List EntityId}
  {rows : List SupersedesRow} {row : SupersedesRow} {m : LegacyMemory} {id : EntityId}

theorem behind_iff : Behind rows id ↔ ∃ row ∈ rows, row.targetId = id ∧ id ∈ (findSafeSupersedesNodes rows).safeNodes := by
  constructor
  · rintro ⟨path, simple, behind⟩
    obtain ⟨x, link⟩ := linked_to behind
    have edge : (x, id) ∈ rows.map SupersedesRow.edge := List.mem_of_mem_filter (simple.own.mem_iff.mpr link)
    obtain ⟨row, listed, same⟩ := List.mem_map.mp edge
    exact ⟨row, listed, congrArg Prod.snd same, mem_safeNodes.mpr ⟨⟨x, .inr edge⟩, path, List.mem_of_mem_tail behind, simple⟩⟩
  · rintro ⟨row, listed, rfl, safe⟩
    obtain ⟨_, path, member, simple⟩ := mem_safeNodes.mp safe
    have edge := List.mem_map_of_mem (f := SupersedesRow.edge) listed
    have link := simple.own.mem_iff.mp (List.mem_filter.mpr ⟨edge, decide_eq_true (.inr member)⟩)
    exact ⟨path, simple, (mem_of_links link).2⟩

theorem searchable_iff : m.searchable = true ↔ m.status ≠ .archived := by
  unfold LegacyMemory.searchable
  cases m.status <;> decide

theorem retiredBy_some (retired : retiredBy safeNodes rows m = some row) :
    m.searchable = true ∧ row ∈ rows ∧ row.targetId = m.id ∧ row.targetId ∈ safeNodes := by
  unfold retiredBy at retired
  split at retired
  · rename_i searchable
    have chosen := List.find?_some retired
    rw [Bool.and_eq_true, decide_eq_true_eq, beq_iff_eq] at chosen
    exact ⟨searchable, List.mem_of_find?_eq_some retired, chosen.2, chosen.1⟩
  · exact absurd retired (by simp)

theorem retiredBy_isSome : (retiredBy (findSafeSupersedesNodes rows).safeNodes rows m).isSome = true ↔
    m.status ≠ .archived ∧ Behind rows m.id := by
  rw [behind_iff, ← searchable_iff]
  constructor
  · intro is_
    obtain ⟨row, retired⟩ := Option.isSome_iff_exists.mp is_
    obtain ⟨searchable, listed, own, safe⟩ := retiredBy_some retired
    exact ⟨searchable, row, listed, own, own ▸ safe⟩
  · rintro ⟨searchable, row, listed, own, safe⟩
    unfold retiredBy
    rw [if_pos searchable, List.find?_isSome]
    refine ⟨row, listed, ?_⟩
    rw [own]
    simpa using safe

theorem dateArchived_repaired : LegacyMemory.Repaired now rows m (dateArchived (afterRows now (findSafeSupersedesNodes rows).safeNodes rows m)) := by
  unfold afterRows
  cases retired : retiredBy (findSafeSupersedesNodes rows).safeNodes rows m with
  | some row =>
    obtain ⟨_, listed, own, _⟩ := retiredBy_some retired
    obtain ⟨open_, behind⟩ := retiredBy_isSome.mp (Option.isSome_of_eq_some retired)
    exact .archived row open_ behind listed own
  | none =>
    have stays : m.status ≠ .archived → ¬ Behind rows m.id := fun open_ behind => by
      have is_ := retiredBy_isSome.mpr ⟨open_, behind⟩
      rw [retired] at is_
      exact absurd is_ Bool.false_ne_true
    dsimp only
    unfold dateArchived
    split
    · rename_i undated
      exact .dated undated.1 undated.2
    · rename_i dated
      exact .kept stays fun closed undated => dated ⟨closed, undated⟩

theorem dateArchived_status (m : LegacyMemory) : (dateArchived m).status = m.status := by
  unfold dateArchived
  split <;> rfl

theorem afterRows_status : (afterRows now safeNodes rows m).status = if (retiredBy safeNodes rows m).isSome then .archived else m.status := by
  unfold afterRows
  cases retiredBy safeNodes rows m <;> rfl

theorem orphaned_iff : db.orphaned id = false ↔ ∃ m ∈ db.memories, m.id = id ∧ m.status ≠ .archived := by
  unfold orphaned
  cases read : db.memories.find? (·.id == id) with
  | none =>
    refine ⟨fun absurd_ => Bool.noConfusion absurd_, ?_⟩
    rintro ⟨m, listed, own, _⟩
    exact absurd (beq_iff_eq.mpr own) (List.find?_eq_none.mp read m listed)
  | some found =>
    have here := List.mem_of_find?_eq_some read
    have own : found.id = id := by simpa using List.find?_some read
    rw [Option.all_some, beq_eq_false_iff_ne]
    constructor
    · exact fun open_ => ⟨found, here, own, open_⟩
    · rintro ⟨m, listed, same, open_⟩
      rwa [List.inj_on_of_nodup_map db.memoryKeys here listed (own.trans same.symm)]

/-- What the migration leaves, by the parts of the database. -/
theorem migrated (db : LifecycleDb ν) (datetime : String → Option String) (clock : EntityId → Instant) (now : String) :
    Repaired datetime clock now db (db.migrateLegacyLifecycleInvariants datetime clock now).1 (db.loadCurrentSupersedes datetime now) := by
  unfold migrateLegacyLifecycleInvariants
  dsimp only
  rw [invalidateSelfRelations_eq, loadCurrentSupersedes_ended, cleanupOrphanedVectors_eq]
  generalize load : db.loadCurrentSupersedes datetime now = rows
  have archives : Archives clock now _ _ _ _ := archiveSafeSupersedesTargets_archives
    (db.updateRelations (endedSelf datetime now) endedSelf_id) rows (findSafeSupersedesNodes rows).safeNodes
  generalize (db.updateRelations (endedSelf datetime now) endedSelf_id).archiveSafeSupersedesTargets clock now rows
    (findSafeSupersedesNodes rows).safeNodes = found at archives ⊢
  have memories : (found.1.updateMemories dateArchived dateArchived_id).memories =
      db.memories.map fun m => dateArchived (afterRows now (findSafeSupersedesNodes rows).safeNodes rows m) := by
    show found.1.memories.map dateArchived = _
    rw [archives.memories, List.map_map]
    rfl
  -- Vectors of a memory that was archived on the way are those of an archived memory in the end.
  have covered : ∀ id, (!(found.1.updateMemories dateArchived dateArchived_id).orphaned id &&
      !(db.updateRelations (endedSelf datetime now) endedSelf_id).retires (findSafeSupersedesNodes rows).safeNodes rows id) =
        !(found.1.updateMemories dateArchived dateArchived_id).orphaned id := by
    intro id
    cases orphaned : (found.1.updateMemories dateArchived dateArchived_id).orphaned id with
    | true => rfl
    | false =>
      obtain ⟨after, listed, own, open_⟩ := orphaned_iff.mp orphaned
      rw [memories] at listed
      obtain ⟨m, here, rfl⟩ := List.mem_map.mp listed
      rw [dateArchived_id, afterRows_id] at own
      rw [dateArchived_status, afterRows_status] at open_
      rw [Bool.not_false, Bool.true_and, Bool.not_eq_true']
      refine List.any_eq_false.mpr fun other there retired => ?_
      rw [Bool.and_eq_true, beq_iff_eq] at retired
      obtain rfl := List.inj_on_of_nodup_map db.memoryKeys there here (retired.1.trans own.symm)
      rw [if_pos retired.2] at open_
      exact open_ rfl
  constructor
  · show List.Forall₂ _ _ (found.1.updateMemories dateArchived dateArchived_id).memories
    rw [memories, List.forall₂_map_right_iff]
    exact List.forall₂_same.mpr fun m _ => dateArchived_repaired
  · exact archives.relations
  · show List.Forall₂ _ _ found.1.jobs.rows
    rw [archives.jobs, List.forall₂_map_right_iff]
    refine List.forall₂_same.mpr fun j _ => ?_
    have gone : (db.updateRelations (endedSelf datetime now) endedSelf_id).retires (findSafeSupersedesNodes rows).safeNodes rows j.key.entityId = true ↔
        ∃ m ∈ db.memories, m.id = j.key.entityId ∧ m.status ≠ .archived ∧ Behind rows j.key.entityId := by
      unfold retires
      rw [List.any_eq_true]
      refine exists_congr fun m => and_congr_right fun _ => ?_
      rw [Bool.and_eq_true, beq_iff_eq, retiredBy_isSome]
      exact and_congr_right fun own => by rw [own]
    split
    · rename_i chosen
      rw [Bool.and_eq_true, gone] at chosen
      exact .inl ⟨chosen.1, chosen.2, rfl⟩
    · rename_i passed
      rw [Bool.and_eq_true, gone] at passed
      exact .inr ⟨passed, rfl⟩
  · show found.1.entityEmbeddings.filter _ = _
    rw [archives.entityEmbeddings, List.filter_filter]
    exact List.filter_congr fun v _ => covered v.entityId
  · show found.1.chunkEmbeddings.filter _ = _
    rw [archives.chunkEmbeddings, List.filter_filter]
    exact List.filter_congr fun v _ => covered v.entityId
  · show found.1.retrievalEmbeddings.filter _ = _
    rw [archives.retrievalEmbeddings, List.filter_filter]
    exact List.filter_congr fun v _ => covered v.entityId

/-! ### The repair of what was repaired -/

theorem archiveSafeSupersedesTargets_idle (idle : ∀ m ∈ db.memories, retiredBy safeNodes rows m = none) :
    db.archiveSafeSupersedesTargets clock now rows safeNodes = (db, 0) := by
  have run : ∀ todo ⊆ rows, todo.foldl (archiveSafeSupersedesTarget clock now safeNodes) (db, 0) = (db, 0) := by
    intro todo
    induction todo with
    | nil => exact fun _ => rfl
    | cons row todo ih =>
      intro within
      obtain ⟨here, later⟩ := List.cons_subset.mp within
      have same : archiveSafeSupersedesTarget clock now safeNodes (db, 0) row = (db, 0) := by
        unfold archiveSafeSupersedesTarget
        split
        · rfl
        rename_i safe
        cases read : db.memories.find? (·.id == row.targetId) with
        | none => rfl
        | some entity =>
          have own : entity.id = row.targetId := by simpa using List.find?_some read
          have none_ := idle entity (List.mem_of_find?_eq_some read)
          unfold retiredBy at none_
          dsimp only
          split
          · rename_i searchable
            rw [if_pos searchable, List.find?_eq_none] at none_
            exact absurd (by simpa [own] using safe) (none_ row here)
          · rfl
      rw [List.foldl_cons, same]
      exact ih later
  exact run rows (List.Subset.refl rows)

theorem endedSelf_again (r : LegacyRelation) :
    ((endedSelf datetime now r).sourceId == (endedSelf datetime now r).targetId && currentRelation datetime now (endedSelf datetime now r)) = false := by
  unfold endedSelf
  split
  · have past : ahead datetime now now = false := by
      unfold ahead
      cases datetime now <;> simp
    simp [currentRelation, past]
  · rename_i passed
    exact Bool.not_eq_true _ ▸ passed

theorem updateMemories_same {f : LegacyMemory → LegacyMemory} {keeps : ∀ m, (f m).id = m.id} (same : ∀ m ∈ db.memories, f m = m) :
    db.updateMemories f keeps = db := by
  obtain ⟨memories, _⟩ := db
  simp only [updateMemories, mk.injEq, and_true]
  exact (List.map_congr_left same).trans (List.map_id' memories)

theorem invalidateSelfRelations_none
    (none_ : ∀ r ∈ db.relations, (r.sourceId == r.targetId && currentRelation datetime now r) = false) :
    db.invalidateSelfRelations datetime now = (db, []) := by
  have nothing : db.relations.filter (fun r => r.sourceId == r.targetId && currentRelation datetime now r) = [] :=
    List.filter_eq_nil_iff.mpr fun r listed => Bool.not_eq_true _ ▸ none_ r listed
  unfold invalidateSelfRelations
  rw [nothing]
  rfl

theorem cleanupOrphanedVectors_none (clean : ∀ id, id ∈ db.entityEmbeddings.map (·.entityId) ++ db.chunkEmbeddings.map (·.entityId) ++
      db.retrievalEmbeddings.map (·.entityId) → db.orphaned id = false) : db.cleanupOrphanedVectors = (db, []) := by
  have nothing : db.orphanedVectorIds = [] := by
    unfold orphanedVectorIds
    rw [List.filter_eq_nil_iff.mpr fun id listed => Bool.not_eq_true _ ▸ clean id listed]
    rfl
  unfold cleanupOrphanedVectors
  rw [nothing]
  rfl

variable {after : LifecycleDb ν}

/-- Nothing is left to do where a repair was made. -/
theorem Repaired.again (repaired : Repaired datetime clock now db after (db.loadCurrentSupersedes datetime now)) (clock' : EntityId → Instant) :
    after.migrateLegacyLifecycleInvariants datetime clock' now =
      (after, ⟨0, 0, (findSafeSupersedesNodes (db.loadCurrentSupersedes datetime now)).ambiguousComponents, 0⟩) := by
  have selfless : after.invalidateSelfRelations datetime now = (after, []) := by
    refine invalidateSelfRelations_none fun r listed => ?_
    rw [repaired.relations] at listed
    obtain ⟨old, _, rfl⟩ := List.mem_map.mp listed
    exact endedSelf_again old
  have load : after.loadCurrentSupersedes datetime now = db.loadCurrentSupersedes datetime now := by
    rw [← @loadCurrentSupersedes_ended _ datetime now db]
    unfold loadCurrentSupersedes
    rw [repaired.relations]
    rfl
  have origin : ∀ m ∈ after.memories, ∃ old, LegacyMemory.Repaired now (db.loadCurrentSupersedes datetime now) old m := by
    intro m listed
    obtain ⟨n, bound, rfl⟩ := List.mem_iff_getElem.mp listed
    have before : n < db.memories.length := repaired.memories.length_eq ▸ bound
    exact ⟨_, repaired.memories.get before bound⟩
  have archived : after.archiveSafeSupersedesTargets clock' now (db.loadCurrentSupersedes datetime now)
      (findSafeSupersedesNodes (db.loadCurrentSupersedes datetime now)).safeNodes = (after, 0) := by
    refine archiveSafeSupersedesTargets_idle fun m listed => Option.not_isSome_iff_eq_none.mp fun retired => ?_
    obtain ⟨open_, behind⟩ := retiredBy_isSome.mp retired
    obtain ⟨old, became⟩ := origin m listed
    cases became with
    | archived => exact open_ rfl
    | dated closed => exact open_ closed
    | kept stays => exact stays open_ behind
  have dated : after.updateMemories dateArchived dateArchived_id = after := by
    refine updateMemories_same fun m listed => ?_
    obtain ⟨old, became⟩ := origin m listed
    unfold dateArchived
    rw [if_neg]
    rintro ⟨closed, undated⟩
    cases became with
    | archived => exact absurd undated (Option.some_ne_none _)
    | dated => exact absurd undated (Option.some_ne_none _)
    | kept _ has => exact has closed undated
  have clean : after.cleanupOrphanedVectors = (after, []) := by
    refine cleanupOrphanedVectors_none fun id listed => ?_
    rw [repaired.entityEmbeddings, repaired.chunkEmbeddings, repaired.retrievalEmbeddings, List.mem_append, List.mem_append] at listed
    rcases listed with (listed | listed) | listed
    all_goals
      obtain ⟨v, kept, rfl⟩ := List.mem_map.mp listed
      simpa using (List.mem_filter.mp kept).2
  unfold migrateLegacyLifecycleInvariants
  dsimp only
  rw [selfless, load, archived]
  dsimp only
  rw [dated, clean]
  rfl

theorem migrated_archived : ∃ gone : List EntityId, gone.Nodup ∧
    (∀ id, id ∈ gone ↔ ∃ m ∈ db.memories, m.id = id ∧ m.status ≠ .archived ∧ Behind (db.loadCurrentSupersedes datetime now) id) ∧
    (db.migrateLegacyLifecycleInvariants datetime clock now).2.archivedSupersedesTargets = gone.length := by
  refine ⟨(db.memories.filter fun m => (retiredBy (findSafeSupersedesNodes (db.loadCurrentSupersedes datetime now)).safeNodes
    (db.loadCurrentSupersedes datetime now) m).isSome).map LegacyMemory.id, ?_, fun id => ?_, ?_⟩
  · exact (List.filter_sublist.map LegacyMemory.id).nodup db.memoryKeys
  · rw [List.mem_map]
    refine exists_congr fun m => ?_
    rw [List.mem_filter, retiredBy_isSome, and_assoc]
    refine and_congr_right fun _ => ?_
    constructor
    · rintro ⟨open_, rfl⟩
      exact ⟨rfl, open_⟩
    · rintro ⟨rfl, open_⟩
      exact ⟨open_, rfl⟩
  · unfold migrateLegacyLifecycleInvariants
    dsimp only
    rw [invalidateSelfRelations_eq, loadCurrentSupersedes_ended, List.length_map, ← List.countP_eq_length_filter]
    exact (archiveSafeSupersedesTargets_archives (db.updateRelations (endedSelf datetime now) endedSelf_id) _ _).archived

/-- The migration archives what a line has left behind, at the time a row gives for it, and nothing else; it counts what it archived
and the components that it left for review. -/
theorem migrateLegacyLifecycleInvariants_repairs (db : LifecycleDb ν) (datetime : String → Option String) (clock : EntityId → Instant)
    (now : String) :
    let run := db.migrateLegacyLifecycleInvariants datetime clock now
    let rows := db.loadCurrentSupersedes datetime now
    Repaired datetime clock now db run.1 rows ∧
      (∃ gone : List EntityId, gone.Nodup ∧ (∀ id, id ∈ gone ↔ ∃ m ∈ db.memories, m.id = id ∧ m.status ≠ .archived ∧ Behind rows id) ∧
        run.2.archivedSupersedesTargets = gone.length) ∧
      ∃ lines tangles, Sorted (rows.map SupersedesRow.edge) lines tangles ∧
        (∀ e ∈ rows.map SupersedesRow.edge, ∃ c ∈ lines ++ tangles, e.1 ∈ c) ∧ run.2.ambiguousSupersedesComponents = tangles.length := by
  refine ⟨migrated db datetime clock now, migrated_archived, ?_⟩
  obtain ⟨lines, tangles, surveyed, covers⟩ := findSafeSupersedesNodes_surveyed (db.loadCurrentSupersedes datetime now)
  refine ⟨lines, tangles, surveyed.sorted, covers, ?_⟩
  rw [← surveyed.ambiguous]
  unfold migrateLegacyLifecycleInvariants
  dsimp only
  rw [invalidateSelfRelations_eq, loadCurrentSupersedes_ended]

/-- A second run at the same time finds nothing, and counts the same components for review. -/
theorem migrateLegacyLifecycleInvariants_again (db : LifecycleDb ν) (datetime : String → Option String) (clock clock' : EntityId → Instant)
    (now : String) : (db.migrateLegacyLifecycleInvariants datetime clock now).1.migrateLegacyLifecycleInvariants datetime clock' now =
      ((db.migrateLegacyLifecycleInvariants datetime clock now).1,
        ⟨0, 0, (db.migrateLegacyLifecycleInvariants datetime clock now).2.ambiguousSupersedesComponents, 0⟩) := by
  rw [(migrated db datetime clock now).again clock']
  congr 2
  unfold migrateLegacyLifecycleInvariants
  dsimp only
  rw [invalidateSelfRelations_eq, loadCurrentSupersedes_ended]

end LifecycleDb

end SaltMdb
