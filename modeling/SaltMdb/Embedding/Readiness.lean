import SaltMdb.Embedding.Archived
import SaltMdb.Embedding.Fencing
import SaltMdb.Embedding.Recovery

/-! What a recovery and the work that it queues make of the embedding status of the memories. -/

namespace SaltMdb
open EmbeddingDb

variable {env : Env} {ν : Type} {model : EmbeddingModel ν}

/-- The entity-level job of a memory as it is spelled now. -/
def entityKey (env : Env) (e : Entity) : JobKey := ⟨e.id, .entity, env.entitySourceHash e.title e.fullContent⟩

/-- The key of a snapshot's job. -/
def Snapshot.key (s : Snapshot) : JobKey := ⟨s.entityId, s.jobKind, s.sourceHash⟩

namespace EmbeddingDb

variable {db U V : EmbeddingDb ν} {T : JobTable} {now : Instant} {id : EntityId} {key other : JobKey} {e a : Entity}

/-! ### A memory on its way to `ready` -/

/-- Where the entity-level job of the memory is there, so is its chunk job and no stale one; and that job is live, has failed, or
has succeeded with the memory ready. -/
structure Ripening (env : Env) (db : EmbeddingDb ν) (e : Entity) : Prop where
  based : (∃ j ∈ db.jobs.rows, j.key = entityKey env e) → BaseSettled env db.jobs e
  ready : ∀ j ∈ db.jobs.rows, j.key = entityKey env e → j.state.live = true ∨ j.state = .failed ∨
    (j.state = .succeeded ∧ db.embeddingStatus e.id = .ready)

/-- Every active memory with a content hash is. -/
def Ripe (env : Env) (db : EmbeddingDb ν) : Prop :=
  ∀ e ∈ db.entities.rows, e.live = true → e.contentHash ≠ "" → Ripening env db e

theorem entityKey_congr (same : a.id = e.id) (title : a.title = e.title) (content : a.fullContent = e.fullContent) :
    entityKey env a = entityKey env e := by
  simp only [entityKey, same, title, content]

theorem Ripening.congr (ripening : Ripening env db a) (same : a.id = e.id) (title : a.title = e.title)
    (content : a.fullContent = e.fullContent) (hash : a.contentHash = e.contentHash) : Ripening env db e := by
  have key : entityKey env a = entityKey env e := entityKey_congr same title content
  refine ⟨fun there => ?_, fun j here own => ?_⟩
  · have settled := ripening.based (key ▸ there)
    unfold BaseSettled at settled ⊢
    rwa [same, title, content, hash] at settled
  · have ready := ripening.ready j here (own.trans key.symm)
    rwa [same] at ready

theorem ripening_of_queued {j : Job} (here : j ∈ db.jobs.rows) (own : j.key = entityKey env e) (queued : j.state = .queued)
    (settled : BaseSettled env db.jobs e) : Ripening env db e := by
  refine ⟨fun _ => settled, fun k there same => .inl ?_⟩
  rw [JobTable.key_unique there here (same.trans own.symm), queued]
  rfl

/-! ### What leaves the base work of other memories alone -/

/-- Outside the touched memories, the base jobs and the statuses are the same. -/
structure SameBase (touched : EntityId → Prop) (db U : EmbeddingDb ν) : Prop where
  jobs : ∀ j : Job, j.key.kind ≠ .retrieval → ¬ touched j.key.entityId → (j ∈ U.jobs.rows ↔ j ∈ db.jobs.rows)
  status : ∀ i, ¬ touched i → U.embeddingStatus i = db.embeddingStatus i

namespace SameBase

variable {touched wider : EntityId → Prop} {sel : Job → Bool} {f : JobColumns → JobColumns}

theorem refl (touched : EntityId → Prop) (db : EmbeddingDb ν) : SameBase touched db db := ⟨fun _ _ _ => .rfl, fun _ _ => rfl⟩

theorem trans (first : SameBase touched db U) (second : SameBase touched U V) : SameBase touched db V where
  jobs j base apart := (second.jobs j base apart).trans (first.jobs j base apart)
  status i apart := (second.status i apart).trans (first.status i apart)

theorem mono (same : SameBase touched db U) (more : ∀ i, touched i → wider i) : SameBase wider db U where
  jobs j base apart := same.jobs j base fun h => apart (more _ h)
  status i apart := same.status i fun h => apart (more _ h)

theorem ofJobs (jobs : U.jobs = db.jobs) (status : ∀ i, ¬ touched i → U.embeddingStatus i = db.embeddingStatus i) :
    SameBase touched db U := ⟨fun _ _ _ => by rw [jobs], status⟩

/-- An update of rows that are of the retrieval work, or of a touched memory. -/
theorem update (chosen : ∀ j ∈ db.jobs.rows, sel j = true → j.key.kind = .retrieval ∨ touched j.key.entityId)
    (jobs : U.jobs = db.jobs.updateWhere sel f) (status : U.embeddingStatus = db.embeddingStatus) : SameBase touched db U := by
  refine ⟨fun j base apart => ?_, fun i _ => by rw [status]⟩
  rw [jobs]
  have out : ∀ k ∈ db.jobs.rows, k.key = j.key → sel k = false := by
    intro k here same
    by_contra selected
    rcases chosen k here (Bool.eq_true_of_not_eq_false selected) with retrieval | own
    · exact base (same ▸ retrieval)
    · exact apart (same ▸ own)
  constructor
  · intro there
    obtain ⟨k, here, rfl⟩ := JobTable.mem_updateWhere.mp there
    rw [Job.setIf_of_not f (out k here (by simp))]
    exact here
  · intro here
    exact JobTable.mem_updateWhere.mpr ⟨j, here, Job.setIf_of_not f (out j here rfl)⟩

theorem insert (own : key.kind = .retrieval ∨ touched key.entityId) {free : db.jobs.findKey key = none}
    (jobs : U.jobs = db.jobs.insert key now free) (status : U.embeddingStatus = db.embeddingStatus) : SameBase touched db U := by
  refine ⟨fun j base apart => ?_, fun i _ => by rw [status]⟩
  rw [jobs, JobTable.mem_insert]
  refine ⟨fun either => either.resolve_right ?_, .inl⟩
  rintro rfl
  exact own.elim base apart

theorem queueAgain (own : key.kind = .retrieval ∨ touched key.entityId) (jobs : U.jobs = db.jobs.queueAgain key now)
    (status : U.embeddingStatus = db.embeddingStatus) : SameBase touched db U := by
  unfold JobTable.queueAgain at jobs
  split at jobs
  · exact insert own jobs status
  · refine update (fun j _ selected => ?_) jobs status
    rwa [(by simpa using selected : j.key = key)]

theorem queueMissing (own : key.kind = .retrieval ∨ touched key.entityId) (jobs : U.jobs = db.jobs.queueMissing key now)
    (status : U.embeddingStatus = db.embeddingStatus) : SameBase touched db U := by
  unfold JobTable.queueMissing at jobs
  split at jobs
  · exact insert own jobs status
  · exact ofJobs jobs fun i _ => by rw [status]

theorem cancelEmbedding : SameBase (· = id) db (db.cancelEmbeddingJobsForEntity id now) := by
  refine update (fun j _ selected => .inr ?_) cancelEmbeddingJobsForEntity_jobs rfl
  simp only [liveJobOf, Bool.and_eq_true, beq_iff_eq] at selected
  exact selected.1.1

theorem cancelRetrieval {clearVector : Bool} : SameBase touched db (db.cancelRetrievalEmbeddingJobsForEntity id now clearVector) := by
  refine update (fun j _ selected => .inl ?_) cancelRetrievalEmbeddingJobsForEntity_jobs ?_
  · simp only [liveJobOf, Bool.and_eq_true, beq_iff_eq] at selected
    exact selected.1.2
  · unfold cancelRetrievalEmbeddingJobsForEntity
    cases clearVector <;> rfl

theorem setPending : SameBase (· = id) db (db.setPending id) := by
  refine ofJobs setPending_jobs fun i apart => ?_
  unfold EmbeddingDb.setPending
  split
  · exact Function.update_of_ne apart _ _
  · rfl

theorem staleUpdate (jobs : U.jobs = db.jobs.updateWhere (staleJob key) f) (status : U.embeddingStatus = db.embeddingStatus)
    (own : key.kind = .retrieval ∨ touched key.entityId) : SameBase touched db U := by
  refine update (fun j _ selected => ?_) jobs status
  obtain ⟨entity, kind, _⟩ := staleJob_iff.mp selected
  rwa [entity, kind]

/-- One kind's turn for a memory. -/
theorem enqueueKind {force : Bool} (own : touched key.entityId) (jobs : U.jobs = (enqueueKind db.jobs key now force).1)
    (status : U.embeddingStatus = db.embeddingStatus) : SameBase touched db U := by
  have stale : SameBase touched db (db.setJobs (·.updateWhere (staleJob key) (cancelled now))) := staleUpdate rfl rfl (.inr own)
  cases force with
  | true => exact stale.trans (queueAgain (.inr own) jobs status)
  | false => exact stale.trans (queueMissing (.inr own) jobs status)

theorem enqueueEmbedding {title content contentHash : String} {force : Bool} :
    SameBase (· = id) db (db.enqueueEmbeddingJobsForEntity env id title content contentHash now force).1 := by
  have first : SameBase (· = id) db
      (db.setJobs fun T => (EmbeddingDb.enqueueKind T ⟨id, .entity, env.entitySourceHash title content⟩ now force).1) := enqueueKind rfl rfl rfl
  have second := first.trans (enqueueKind (U := db.setJobs fun T => (EmbeddingDb.enqueueKind (EmbeddingDb.enqueueKind T
    ⟨id, .entity, env.entitySourceHash title content⟩ now force).1 ⟨id, .chunk, contentHash⟩ now force).1) rfl rfl rfl)
  unfold enqueueEmbeddingJobsForEntity
  dsimp only
  split
  · exact second.trans setPending
  · exact second

theorem enqueueRetrievalKey {force : Bool} (retrieval : key.kind = .retrieval) :
    SameBase touched db (db.enqueueRetrievalKey key now force).1 := by
  have stale : SameBase touched db (db.setJobs (·.updateWhere (staleJob key) (released now))) := staleUpdate rfl rfl (.inl retrieval)
  have jobs : (db.enqueueRetrievalKey key now force).1.jobs = _ := enqueueRetrievalKey_jobs
  have status : (db.enqueueRetrievalKey key now force).1.embeddingStatus = db.embeddingStatus := by
    unfold EmbeddingDb.enqueueRetrievalKey
    cases force <;> simp only [Bool.false_eq_true, if_false, if_true] <;> split <;> rfl
  split at jobs
  · exact stale.trans (queueAgain (.inl retrieval) jobs status)
  · exact stale.trans (queueMissing (.inl retrieval) jobs status)

theorem enqueueRetrieval {text : Option String} {force : Bool} :
    SameBase touched db (db.enqueueRetrievalEmbeddingJobForEntity id text (retrievalHash env text) now force).1 := by
  rw [enqueueRetrieval_eq]
  split
  · exact enqueueRetrievalKey rfl
  · dsimp only
    exact cancelRetrieval

theorem cancelArchived : SameBase (· = id) db (cancelArchived now db id) := cancelEmbedding.trans cancelRetrieval

theorem clearVectors : SameBase touched db (db.clearEmbeddingVectorsForEntity id) := ofJobs rfl fun _ _ => rfl

theorem clearArchived : SameBase touched db (clearArchived now db id) := by
  unfold EmbeddingDb.clearArchived
  exact clearVectors.trans cancelRetrieval

theorem archiveWhere {chosen : Entity → Bool} (own : ∀ i e, db.entities.find i = some e → chosen e = true → touched i) :
    SameBase touched db (db.archiveWhere chosen now) := by
  refine ofJobs archiveWhere_jobs fun i apart => ?_
  have other : (db.entities.find i).any chosen = false := by
    cases found : db.entities.find i with
    | none => rfl
    | some e =>
      by_contra selected
      exact apart (own i e found (by simpa using selected))
  simp [EmbeddingDb.archiveWhere, other]

theorem insertMemory {status : EmbeddingStatus} (inserted : db.insertMemory e status = some U) : SameBase (· = e.id) db U := by
  obtain ⟨free, rfl⟩ := insertMemory_some inserted
  exact ofJobs rfl fun i apart => Function.update_of_ne apart _ _

theorem foldl {α : Type} {g : EmbeddingDb ν → α → EmbeddingDb ν} {xs : List α}
    (turn : ∀ db, ∀ x ∈ xs, SameBase touched db (g db x)) (db : EmbeddingDb ν) : SameBase touched db (xs.foldl g db) := by
  induction xs generalizing db with
  | nil => exact refl touched db
  | cons x rest ih =>
    have first := turn db x List.mem_cons_self
    exact first.trans (ih (fun db y member => turn db y (List.mem_cons_of_mem x member)) (g db x))

end SameBase

theorem KeySettled.same {touched : EntityId → Prop} (settled : KeySettled db.jobs key) (same : SameBase touched db U)
    (apart : ¬ touched key.entityId) (base : key.kind ≠ .retrieval) : KeySettled U.jobs key := by
  constructor
  · obtain ⟨j, here, own⟩ := settled.queued
    exact ⟨j, (same.jobs j (own ▸ base) (own ▸ apart)).mpr here, own⟩
  · intro j there
    by_contra stale
    obtain ⟨entity, kind, _⟩ := staleJob_iff.mp (Bool.eq_true_of_not_eq_false stale)
    exact stale (settled.current j ((same.jobs j (kind ▸ base) (entity ▸ apart)).mp there))

theorem baseKeys_kind {key : JobKey} (listed : key ∈ baseKeys env e.id e.title e.fullContent e.contentHash) :
    key.entityId = e.id ∧ key.kind ≠ .retrieval := by
  rcases mem_baseKeys.mp listed with rfl | rfl <;> simp

theorem Ripening.same {touched : EntityId → Prop} (ripening : Ripening env db e) (same : SameBase touched db U) (apart : ¬ touched e.id) :
    Ripening env U e := by
  have entity : ∀ j : Job, j.key = entityKey env e → (j ∈ U.jobs.rows ↔ j ∈ db.jobs.rows) := fun j own =>
    same.jobs j (by simp [own, entityKey]) (by simpa [own, entityKey] using apart)
  refine ⟨?_, fun j there own => ?_⟩
  · rintro ⟨j, there, own⟩ hashed key listed
    obtain ⟨mine, base⟩ := baseKeys_kind listed
    exact (ripening.based ⟨j, (entity j own).mp there, own⟩ hashed key listed).same same (mine ▸ apart) base
  · rw [same.status e.id apart]
    exact ripening.ready j ((entity j own).mp there) own

/-! ### Queueing the two base jobs -/

theorem queueAgain_keeps {j : Job} (here : j ∈ T.rows) (apart : j.key ≠ key) : j ∈ (T.queueAgain key now).rows := by
  unfold JobTable.queueAgain
  split
  · exact JobTable.mem_insert.mpr (.inl here)
  · exact updateWhere_keeps here (by simpa using apart)

theorem queueMissing_keeps {j : Job} (here : j ∈ T.rows) : j ∈ (T.queueMissing key now).rows := by
  unfold JobTable.queueMissing
  split
  · exact JobTable.mem_insert.mpr (.inl here)
  · exact here

theorem KeySettled.queueAgain (settled : KeySettled T key)
    (apart : other.entityId = key.entityId → other.kind = key.kind → other.sourceHash = key.sourceHash) :
    KeySettled (T.queueAgain other now) key := by
  constructor
  · obtain ⟨j, here, same⟩ := settled.queued
    unfold JobTable.queueAgain
    split
    · exact ⟨j, JobTable.mem_insert.mpr (.inl here), same⟩
    · exact ⟨_, JobTable.mem_updateWhere.mpr ⟨j, here, rfl⟩, by simpa using same⟩
  · intro j there
    by_contra stale
    obtain ⟨entity, kind, live, differs⟩ := staleJob_iff.mp (Bool.eq_true_of_not_eq_false stale)
    have foreign : j.key ≠ other := by
      rintro rfl
      exact differs (apart entity kind)
    unfold JobTable.queueAgain at there
    split at there
    · rcases JobTable.mem_insert.mp there with old | rfl
      · exact stale (settled.current j old)
      · exact foreign rfl
    · obtain ⟨k, old, rfl⟩ := JobTable.mem_updateWhere.mp there
      rw [Job.setIf_key] at foreign
      rw [Job.setIf_of_not _ (by simpa using foreign)] at stale
      exact stale (settled.current k old)

theorem keySettled_queuedAgain {f : JobColumns → JobColumns} (ends : ∀ c, (f c).state.live = false) :
    KeySettled ((T.updateWhere (staleJob key) f).queueAgain key now) key := by
  obtain ⟨j, here, own, _⟩ := queueAgain_queued (T.updateWhere (staleJob key) f) key now
  refine ⟨⟨j, here, own⟩, fun k there => ?_⟩
  by_contra stale
  obtain ⟨entity, kind, live, differs⟩ := staleJob_iff.mp (Bool.eq_true_of_not_eq_false stale)
  have foreign : k.key ≠ key := by
    rintro rfl
    exact differs rfl
  have before : k ∈ (T.updateWhere (staleJob key) f).rows := by
    unfold JobTable.queueAgain at there
    split at there
    · exact (JobTable.mem_insert.mp there).resolve_right fun same => foreign (by rw [same])
    · obtain ⟨i, old, rfl⟩ := JobTable.mem_updateWhere.mp there
      rw [Job.setIf_key] at foreign
      rwa [Job.setIf_of_not _ (by simpa using foreign)]
  obtain ⟨i, old, rfl⟩ := JobTable.mem_updateWhere.mp before
  cases selected : staleJob key i with
  | true =>
    rw [Job.setIf_of f selected] at live
    simp [ends] at live
  | false =>
    rw [Job.setIf_of_not f selected, selected] at stale
    exact stale rfl

/-- The two jobs of the memory, as the loop over the kinds leaves them. -/
theorem enqueueEmbedding_ripens (env : Env) (db : EmbeddingDb ν) (e : Entity) (now : Instant) :
    Ripening env (db.enqueueEmbeddingJobsForEntity env e.id e.title e.fullContent e.contentHash now true).1 e := by
  have jobs : (db.enqueueEmbeddingJobsForEntity env e.id e.title e.fullContent e.contentHash now true).1.jobs =
      ((((db.jobs.updateWhere (staleJob (entityKey env e)) (cancelled now)).queueAgain (entityKey env e) now).updateWhere
        (staleJob ⟨e.id, .chunk, e.contentHash⟩) (cancelled now)).queueAgain ⟨e.id, .chunk, e.contentHash⟩ now) := by
    rw [enqueueEmbeddingJobsForEntity_jobs, enqueueKind_forced, enqueueKind_forced]
    rfl
  obtain ⟨j, here, own, queued⟩ := queueAgain_queued (db.jobs.updateWhere (staleJob (entityKey env e)) (cancelled now)) (entityKey env e) now
  have kept : j ∈ ((((db.jobs.updateWhere (staleJob (entityKey env e)) (cancelled now)).queueAgain (entityKey env e) now).updateWhere
        (staleJob ⟨e.id, .chunk, e.contentHash⟩) (cancelled now)).queueAgain ⟨e.id, .chunk, e.contentHash⟩ now).rows := by
    have left : j ∈ (((db.jobs.updateWhere (staleJob (entityKey env e)) (cancelled now)).queueAgain (entityKey env e) now).updateWhere
        (staleJob ⟨e.id, .chunk, e.contentHash⟩) (cancelled now)).rows := by
      refine updateWhere_keeps here ?_
      simp [staleJob, liveJobOf, own, entityKey]
    exact queueAgain_keeps left (by simp [own, entityKey])
  refine ripening_of_queued (jobs ▸ kept) own queued fun _ key listed => ?_
  rw [jobs]
  rcases mem_baseKeys.mp listed with rfl | rfl
  · exact ((keySettled_queuedAgain (cancelled_ends now)).update (cancelled_ends now)).queueAgain (by simp [entityKey])
  · exact keySettled_queuedAgain (cancelled_ends now)

/-! ### The services -/

variable {p : StoreProposal} {existing : Option Entity} {core : CoreState} {drawn copyDrawn : Uuid}

theorem keepCopy_same (kept : db.keepCopy p existing drawn = some U) : SameBase (fun i => db.entities.find i = none) db U := by
  rcases keepCopy_cases kept with rfl | ⟨old, free, _, rfl⟩
  · exact .refl _ _
  · refine .ofJobs rfl fun i taken => Function.update_of_ne ?_ _ _
    rintro rfl
    exact taken free

theorem upsertMemory_same : SameBase (· = id) db (db.upsertMemory p id existing now core) := by
  refine .ofJobs upsertMemory_jobs fun i apart => ?_
  unfold upsertMemory
  cases existing with
  | none => exact Function.update_of_ne apart _ _
  | some old =>
    dsimp only
    split
    · rfl
    · exact Function.update_of_ne apart _ _

theorem upsertMemory_same_of_live {touched : EntityId → Prop} {old : Entity} (live : old.live = true) :
    SameBase touched db (db.upsertMemory p id (some old) now core) := by
  refine .ofJobs upsertMemory_jobs fun i _ => ?_
  simp only [upsertMemory, live, if_true]

theorem enqueueRawJobs_same : SameBase (· = id) db (db.enqueueRawJobs env p id existing now) := by
  have base : SameBase (· = id) db (if p.sourceChanged existing then
      (db.enqueueEmbeddingJobsForEntity env id p.title p.redactedContent p.contentHash now true).1 else db) := by
    split
    · exact .enqueueEmbedding
    · exact .refl _ _
  unfold enqueueRawJobs
  dsimp only
  split
  · exact base
  · exact base.trans .enqueueRetrieval

theorem enqueueRawJobs_same_of_unchanged {touched : EntityId → Prop} (unchanged : p.sourceChanged existing = false) :
    SameBase touched db (db.enqueueRawJobs env p id existing now) := by
  unfold enqueueRawJobs
  simp only [unchanged, Bool.false_eq_true, if_false]
  split
  · exact .refl _ _
  · exact .enqueueRetrieval

theorem enqueueRawJobs_ripens (changed : p.sourceChanged existing = true) (own : e.id = id) (title : e.title = p.title)
    (content : e.fullContent = p.redactedContent) (hash : e.contentHash = p.contentHash) :
    Ripening env (db.enqueueRawJobs env p id existing now) e := by
  have base := enqueueEmbedding_ripens env db e now
  rw [own, title, content, hash] at base
  unfold enqueueRawJobs
  simp only [changed, if_true]
  split
  · exact base
  · exact base.same (.enqueueRetrieval : SameBase (fun _ => False) _ _) not_false

/-- A row of another id is an earlier one, or the archived copy. -/
theorem upsertMemory_others (kept : db.keepCopy p existing drawn = some U)
    (there : e ∈ (U.upsertMemory p id existing now core).entities.rows) (live : e.live = true) (apart : e.id ≠ id) :
    e ∈ db.entities.rows := by
  have before : e ∈ U.entities.rows := by
    rw [upsertMemory_entities] at there
    unfold EntityTable.upsert at there
    split at there
    · refine (List.mem_append.mp there).resolve_right fun new => apart ?_
      rw [List.mem_singleton.mp new]
    · obtain ⟨old, here, rfl⟩ := EntityTable.mem_updateWhere.mp there
      rw [Entity.setIf_id] at apart
      rwa [Entity.setIf, if_neg (by simpa using apart)]
  rcases keepCopy_cases kept with rfl | ⟨old, free, _, rfl⟩
  · exact before
  · refine (List.mem_append.mp before).resolve_right fun copy => ?_
    rw [List.mem_singleton.mp copy] at live
    simp [Entity.historyCopy, Entity.live] at live

theorem storeRaw_same (kept : db.keepCopy p existing drawn = some U) : SameBase (fun i => i = id ∨ db.entities.find i = none) db
    ((U.upsertMemory p id existing now core).enqueueRawJobs env p id existing now) := by
  have copied : SameBase (fun i => i = id ∨ db.entities.find i = none) db U := (keepCopy_same kept).mono fun _ => .inr
  have upserted : SameBase (fun i => i = id ∨ db.entities.find i = none) U (U.upsertMemory p id existing now core) :=
    upsertMemory_same.mono fun _ => .inl
  exact (copied.trans upserted).trans (enqueueRawJobs_same.mono fun _ => .inl)

theorem storeRaw_same_of_unchanged {old : Entity} (kept : db.keepCopy p (some old) drawn = some U) (live : old.live = true)
    (unchanged : p.sourceChanged (some old) = false) : SameBase (fun i => db.entities.find i = none) db
      ((U.upsertMemory p id (some old) now core).enqueueRawJobs env p id (some old) now) :=
  ((keepCopy_same kept).trans (upsertMemory_same_of_live live)).trans (enqueueRawJobs_same_of_unchanged unchanged)

theorem storeRaw_ripe (ripe : Ripe env db) (stored : db.storeRaw env p drawn copyDrawn now core = some U) : Ripe env U := by
  obtain ⟨copied, kept, rfl⟩ := Option.map_eq_some_iff.mp stored
  intro e there live hashed
  rw [enqueueRawJobs_entities] at there
  by_cases own : e.id = storeTarget p drawn
  · obtain ⟨e', found, active, title, content, hash⟩ := upsertMemory_find now core kept
    obtain rfl : e = e' := by
      have here := EntityTable.find_mem there
      rw [own] at here
      exact Option.some.inj (here.symm.trans found)
    by_cases changed : p.sourceChanged (db.entities.find (storeTarget p drawn)) = true
    · exact enqueueRawJobs_ripens changed own title content hash
    · cases existing : db.entities.find (storeTarget p drawn) with
      | none => simp [existing, StoreProposal.sourceChanged] at changed
      | some old =>
        rw [existing] at changed kept active there
        have unchanged : p.sourceChanged (some old) = false := Bool.eq_false_iff.mpr changed
        have source : old.title = p.title ∧ old.fullContent = p.redactedContent ∧ old.contentHash = p.contentHash := by
          simpa [StoreProposal.sourceChanged, and_assoc] using unchanged
        obtain ⟨here, oldId⟩ := EntityTable.find_some existing
        have oldLive : old.live = true := by simpa [live] using active.symm
        have before : Ripening env db old := ripe old here oldLive (by rw [source.2.2, ← hash]; exact hashed)
        refine (before.same (storeRaw_same_of_unchanged kept oldLive unchanged) ?_).congr (oldId.trans own.symm) (source.1.trans title.symm) (source.2.1.trans content.symm)
          (source.2.2.trans hash.symm)
        rw [oldId, existing]
        simp
  · have here := upsertMemory_others kept there live own
    refine (ripe e here live hashed).same (storeRaw_same kept) ?_
    rw [EntityTable.find_mem here]
    simp [own]

/-- What an insert and an archiving leave active: the new row or an earlier one, unselected. -/
theorem archived_insert {row : Entity} {status : EmbeddingStatus} {sel : Entity → Bool} (inserted : db.insertMemory row status = some U)
    (there : e ∈ (U.entities.updateWhere sel (·.archive now)).rows) (live : e.live = true) :
    sel e = false ∧ (e = row ∨ e ∈ db.entities.rows) := by
  obtain ⟨old, here, rfl⟩ := EntityTable.mem_updateWhere.mp there
  cases selected : sel old with
  | true =>
    rw [Entity.setIf, if_pos selected] at live
    simp [Entity.live, EntityColumns.archive] at live
  | false =>
    have same : old.setIf sel (·.archive now) = old := by simp [Entity.setIf, selected]
    rw [same]
    refine ⟨selected, ?_⟩
    obtain ⟨free, rfl⟩ := insertMemory_some inserted
    rcases List.mem_append.mp here with before | new
    · exact .inr before
    · exact .inl (List.mem_singleton.mp new)

theorem replace_ripe {plan : ReplacementPlan} (ripe : Ripe env db) (replaced : db.replace env plan drawn core = some U) :
    Ripe env U := by
  unfold EmbeddingDb.replace at replaced
  cases locked : replacementLockedSource db.store plan with
  | error e => simp [locked] at replaced
  | ok _ =>
    rw [locked] at replaced
    obtain ⟨inserted, inserts, rfl⟩ := Option.map_eq_some_iff.mp replaced
    obtain ⟨_, free⟩ := insertMemory_find inserts
    intro e there live hashed
    simp only [clearArchived_entities, enqueueRetrieval_entities, enqueueEmbeddingJobsForEntity_entities, cancelArchived_entities,
      archiveWhere_entities] at there
    obtain ⟨unselected, rfl | here⟩ := archived_insert inserts there live
    · exact ((enqueueEmbedding_ripens env _ (plan.row drawn.text core) plan.now).same
        (.enqueueRetrieval : SameBase (fun _ => False) _ _) not_false).same (.clearArchived : SameBase (fun _ => False) _ _) not_false
    · have source : e.id ≠ plan.resolvedId := by
        intro same
        have found := EntityTable.find_mem here
        rw [same] at found
        have raw : e.status = .raw := by
          by_contra other
          simp [replacementLockedSource, store, found, other] at locked
        simp [same, raw] at unselected
      have drawn_ : e.id ≠ drawn.text := by
        intro same
        have found := EntityTable.find_mem here
        rw [same] at found
        exact absurd (found.symm.trans free) (by simp)
      have archived : SameBase (fun i => i = drawn.text ∨ i = plan.resolvedId) db
          (cancelArchived plan.now (inserted.archiveWhere (fun e => e.id == plan.resolvedId && e.status == .raw) plan.now)
            plan.resolvedId) := by
        refine ((SameBase.insertMemory inserts).mono fun _ => .inl).trans (.trans (.archiveWhere fun i e found chosen => ?_)
          (SameBase.cancelArchived.mono fun _ => .inr))
        rw [Bool.and_eq_true, beq_iff_eq] at chosen
        exact .inr ((EntityTable.find_some found).2.symm.trans chosen.1)
      have archivedApart : ¬ (e.id = drawn.text ∨ e.id = plan.resolvedId) := by simp [source, drawn_]
      refine ((((ripe e here live hashed).same archived archivedApart).same .enqueueEmbedding drawn_).same (.enqueueRetrieval : SameBase (fun _ => False) _ _) not_false).same
        (.clearArchived : SameBase (fun _ => False) _ _) not_false

theorem consolidateItem_ripe {m : Merge} (ripe : Ripe env db) (merged : db.consolidateItem env m = some U) : Ripe env U := by
  unfold EmbeddingDb.consolidateItem at merged
  split at merged
  · simp at merged
  · obtain ⟨inserted, inserts, rfl⟩ := Option.map_eq_some_iff.mp merged
    obtain ⟨_, free⟩ := insertMemory_find inserts
    intro e there live hashed
    rw [foldl_entities fun _ _ => cancelArchived_entities, archiveWhere_entities, enqueueEmbeddingJobsForEntity_entities] at there
    obtain ⟨unselected, origin⟩ := archived_insert inserts there live
    have apart : ¬ e.id ∈ m.plan.resolvedParents := by simpa using unselected
    have archived : ∀ d : EmbeddingDb ν, SameBase (· ∈ m.plan.resolvedParents) d (m.plan.resolvedParents.foldl (cancelArchived m.now)
        (d.archiveWhere (fun e => m.plan.resolvedParents.contains e.id) m.now)) := by
      intro d
      refine .trans (.archiveWhere fun i e found chosen => ?_) (.foldl (fun _ x member => SameBase.cancelArchived.mono ?_) _)
      · rw [← (EntityTable.find_some found).2]
        simpa using chosen
      · rintro i rfl
        exact member
    rcases origin with rfl | here
    · exact (enqueueEmbedding_ripens env _ (consolidationRow m.request m.plan m.drawn.text m.now m.core) m.now).same (archived _) apart
    · have fresh : e.id ≠ m.drawn.text := by
        intro same
        have found := EntityTable.find_mem here
        rw [same] at found
        exact absurd (found.symm.trans free) (by simp)
      exact (((ripe e here live hashed).same (SameBase.insertMemory inserts) fresh).same .enqueueEmbedding fresh).same (archived _) apart

theorem Ripe.same (ripe : Ripe env db) (same : SameBase (fun _ => False) db U) (entities : U.entities = db.entities) : Ripe env U :=
  fun e there live hashed => (ripe e (entities ▸ there) live hashed).same same not_false

theorem consolidateItems_ripe {items : List Merge} (ripe : Ripe env db) (merged : items.foldlM (consolidateItem env) db = some U) :
    Ripe env U := by
  induction items generalizing db with
  | nil =>
    obtain rfl := Option.some.inj merged
    exact ripe
  | cons m rest ih =>
    simp only [List.foldlM_cons, Option.bind_eq_bind, Option.bind_eq_some_iff] at merged
    obtain ⟨first, here, merged⟩ := merged
    exact ih (consolidateItem_ripe ripe here) merged

theorem consolidate_ripe {items : List Merge} (ripe : Ripe env db) (merged : db.consolidate env items now = some U) : Ripe env U := by
  obtain ⟨written, ran, rfl⟩ := Option.map_eq_some_iff.mp merged
  exact (consolidateItems_ripe ripe ran).same (.foldl (fun _ _ _ => .clearArchived) _) (foldl_entities (fun _ _ => clearArchived_entities) _ _)

theorem archive_same : SameBase (· = id) db (db.archive id now) := by
  have archived : SameBase (· = id) db (db.archiveWhere (fun e => e.id == id && e.live) now) := by
    refine .archiveWhere fun i e found chosen => ?_
    rw [Bool.and_eq_true, beq_iff_eq] at chosen
    exact (EntityTable.find_some found).2.symm.trans chosen.1
  unfold EmbeddingDb.archive
  exact ((archived.trans .cancelEmbedding).trans .clearVectors).trans .cancelRetrieval

theorem archive_ripe (ripe : Ripe env db) : Ripe env (db.archive id now) := by
  intro e there live hashed
  have entities : (db.archive id now).entities = db.entities.updateWhere (fun e => e.id == id && e.live) (·.archive now) := by
    unfold EmbeddingDb.archive
    rw [cancelRetrievalEmbeddingJobsForEntity_entities, clearEmbeddingVectorsForEntity_entities, cancelEmbeddingJobsForEntity_entities,
      archiveWhere_entities]
  rw [entities] at there
  obtain ⟨old, here, rfl⟩ := EntityTable.mem_updateWhere.mp there
  cases selected : old.id == id && old.live with
  | true =>
    rw [Entity.setIf, if_pos selected] at live
    simp [Entity.live, EntityColumns.archive] at live
  | false =>
    have same : old.setIf (fun e => e.id == id && e.live) (·.archive now) = old := by simp only [Entity.setIf, selected]; rfl
    rw [same] at live hashed ⊢
    have apart : old.id ≠ id := by simpa [live] using selected
    exact (ripe old here live hashed).same archive_same apart

/-! ### The recovery -/

/-- A turn queues both jobs where the entity-level one is missing, and does nothing where it is there. -/
theorem reconcileEntity_ripe {clock : EntityId → Instant} (ripe : Ripe env db) (here : a ∈ db.entities.rows) (active : a.live = true) :
    Ripe env (reconcileEntity env clock db a) := by
  intro e there live hashed
  rw [reconcileEntity_entities] at there
  have before := ripe e there live hashed
  by_cases own : e.id = a.id
  · obtain rfl := EntityTable.id_unique there here own
    by_cases known : ∃ j ∈ db.jobs.rows, j.key = entityKey env e
    · rw [(before.based known).idle]
      exact before
    · have settled : BaseSettled env (reconcileEntity env clock db e).jobs e := reconcileEntity_settles
      have free : (db.jobs.updateWhere (staleJob (entityKey env e)) (cancelled (clock e.id))).findKey (entityKey env e) = none := by
        refine JobTable.findKey_none.mpr fun j there own => known ?_
        obtain ⟨k, old, rfl⟩ := JobTable.mem_updateWhere.mp there
        exact ⟨k, old, by simpa using own⟩
      refine ripening_of_queued (j := { JobTable.queued (clock e.id) with
        id := (db.jobs.updateWhere (staleJob (entityKey env e)) (cancelled (clock e.id))).next
        key := entityKey env e
        createdAt := clock e.id }) ?_ rfl rfl settled
      rw [reconcileEntity_jobs, if_neg hashed]
      refine queueMissing_keeps (updateWhere_keeps ?_ (by simp [staleJob, liveJobOf, entityKey]))
      show _ ∈ (((db.jobs.updateWhere (staleJob (entityKey env e)) (cancelled (clock e.id))).queueMissing (entityKey env e)
        (clock e.id))).rows
      unfold JobTable.queueMissing
      rw [dif_pos free]
      exact JobTable.mem_insert.mpr (.inr rfl)
  · have same : SameBase (· = a.id) db (reconcileEntity env clock db a) := by
      unfold reconcileEntity
      split
      · exact .refl _ _
      · exact .enqueueEmbedding
    exact before.same same own

theorem reconcile_ripe {limit : Nat} {afterId : Option EntityId} {clock : EntityId → Instant} (ripe : Ripe env db) :
    Ripe env (db.reconcileEmbeddingJobs env limit afterId clock).1 := by
  have turns : ∀ (rows : List Entity) (d : EmbeddingDb ν), (∀ e ∈ rows, e ∈ d.entities.rows ∧ e.live = true) → Ripe env d →
      Ripe env (rows.foldl (reconcileEntity env clock) d) := by
    intro rows
    induction rows with
    | nil => exact fun _ _ ripe => ripe
    | cons a rest ih =>
      intro d listed ripe
      obtain ⟨here, active⟩ := listed a List.mem_cons_self
      refine ih _ (fun e member => ?_) (reconcileEntity_ripe ripe here active)
      rw [reconcileEntity_entities]
      exact listed e (List.mem_cons_of_mem a member)
  exact turns _ db (fun e member => mem_page member) ripe

theorem reconcileRetrieval_same {touched : EntityId → Prop} {clock : EntityId → Instant} :
    SameBase touched db (EmbeddingDb.reconcileRetrieval env clock db e) := .enqueueRetrieval

theorem reconcileRetrieval_ripe {limit : Nat} {afterId : Option EntityId} {clock : EntityId → Instant} (ripe : Ripe env db) :
    Ripe env (db.reconcileRetrievalEmbeddingJobs env limit afterId clock).1 :=
  ripe.same (.foldl (fun _ _ _ => reconcileRetrieval_same) _) reconcileRetrievalEmbeddingJobs_entities

/-! ### The workers -/

/-- What a worker's statement makes of the jobs, as the memory sees it. -/
structure Steady (env : Env) (e : Entity) (db U : EmbeddingDb ν) : Prop where
  earlier : ∀ j' ∈ U.jobs.rows, ∃ j ∈ db.jobs.rows, j.key = j'.key ∧ (j'.state.live = true → j.state.live = true) ∧
    (j'.key = entityKey env e → j'.state = j.state ∨ j'.state.live = true ∨ j'.state = .failed ∨
      (j'.state = .succeeded ∧ U.embeddingStatus e.id = .ready))
  stays : ∀ j ∈ db.jobs.rows, ∃ j' ∈ U.jobs.rows, j'.key = j.key
  status : db.embeddingStatus e.id = .ready → U.embeddingStatus e.id = .ready

theorem Steady.refl (e : Entity) (db : EmbeddingDb ν) : Steady env e db db where
  earlier j here := ⟨j, here, rfl, id, fun _ => .inl rfl⟩
  stays j here := ⟨j, here, rfl⟩
  status := id

theorem Steady.trans (first : Steady env e db U) (second : Steady env e U V) : Steady env e db V where
  earlier j'' later := by
    obtain ⟨j', there, key, live, state⟩ := second.earlier j'' later
    obtain ⟨j, here, key', live', state'⟩ := first.earlier j' there
    refine ⟨j, here, key'.trans key, fun h => live' (live h), fun own => ?_⟩
    rcases state own with same | settled
    · rw [same]
      exact (state' (key.trans own)).imp_right fun settled => settled.imp_right fun settled => settled.imp_right fun ready =>
        ⟨ready.1, second.status ready.2⟩
    · exact .inr settled
  stays j here := by
    obtain ⟨j', there, key⟩ := first.stays j here
    obtain ⟨j'', later, key'⟩ := second.stays j' there
    exact ⟨j'', later, key'.trans key⟩
  status ready := second.status (first.status ready)

theorem Steady.update {sel : Job → Bool} {f : JobColumns → JobColumns} (jobs : U.jobs = db.jobs.updateWhere sel f)
    (status : db.embeddingStatus e.id = .ready → U.embeddingStatus e.id = .ready)
    (live : ∀ j ∈ db.jobs.rows, sel j = true → (f j.toJobColumns).state.live = true → j.state.live = true)
    (own : ∀ j ∈ db.jobs.rows, sel j = true → j.key = entityKey env e → (f j.toJobColumns).state.live = true ∨
      (f j.toJobColumns).state = .failed ∨ ((f j.toJobColumns).state = .succeeded ∧ U.embeddingStatus e.id = .ready)) :
    Steady env e db U where
  earlier j' there := by
    rw [jobs] at there
    obtain ⟨j, here, rfl⟩ := JobTable.mem_updateWhere.mp there
    refine ⟨j, here, by simp, ?_⟩
    cases selected : sel j with
    | true =>
      rw [Job.setIf_of f selected]
      exact ⟨live j here selected, fun same => .inr (own j here selected same)⟩
    | false =>
      rw [Job.setIf_of_not f selected]
      exact ⟨id, fun _ => .inl rfl⟩
  stays j here := by
    rw [jobs]
    exact ⟨_, JobTable.mem_updateWhere.mpr ⟨j, here, rfl⟩, by simp⟩
  status := status

theorem Ripening.steady (ripening : Ripening env db e) (steady : Steady env e db U) : Ripening env U e := by
  constructor
  · rintro ⟨j', there, own⟩ hashed key listed
    obtain ⟨j, here, same, _⟩ := steady.earlier j' there
    have settled := ripening.based ⟨j, here, same.trans own⟩ hashed key listed
    constructor
    · obtain ⟨k, old, own'⟩ := settled.queued
      obtain ⟨k', new, key'⟩ := steady.stays k old
      exact ⟨k', new, key'.trans own'⟩
    · intro k' new
      by_contra stale
      obtain ⟨entity, kind, live, differs⟩ := staleJob_iff.mp (Bool.eq_true_of_not_eq_false stale)
      obtain ⟨k, old, key', live', _⟩ := steady.earlier k' new
      have before : staleJob key k = true := staleJob_iff.mpr ⟨by rw [key', entity], by rw [key', kind], live' live, by rwa [key']⟩
      rw [settled.current k old] at before
      simp at before
  · intro j' there own
    obtain ⟨j, here, same, _, state⟩ := steady.earlier j' there
    rcases state own with kept | settled
    · rw [kept]
      exact (ripening.ready j here (same.trans own)).imp_right fun settled => settled.imp_right fun ready =>
        ⟨ready.1, steady.status ready.2⟩
    · exact settled

theorem expireLeases_steady {kinds : JobKind → Bool} : Steady env e db (db.setJobs (expireLeases kinds now)) := by
  have first : Steady env e db (db.setJobs (·.updateWhere
      (fun j => leaseExpired kinds now j && decide (maxAttempts ≤ j.attemptCount)) (expiredForGood now))) := by
    refine .update rfl id (fun j _ _ live => ?_) fun j _ _ _ => .inr (.inl rfl)
    simp [expiredForGood, JobState.live] at live
  refine first.trans (.update rfl id (fun j _ expired _ => ?_) fun j _ _ _ => .inl rfl)
  simp only [leaseExpired, Bool.and_eq_true, beq_iff_eq] at expired
  simp [expired.1.2, JobState.live]

theorem claimJob_steady {kinds : JobKind → Bool} {eligible : Job → Entity → Bool} {idText : JobId → String} {leaseFrom : Instant} :
    Steady env e db (db.claimJob kinds eligible idText now leaseFrom).1 := by
  rcases db.claimJob_cases kinds eligible idText now leaseFrom with none_ | ⟨j, a, due, some_⟩
  · rw [none_]
    exact expireLeases_steady
  · rw [some_]
    obtain ⟨here, _, waiting, _⟩ := mem_claimable.mp due
    refine expireLeases_steady.trans (.update rfl id (fun k there same _ => ?_) fun k _ _ _ => .inl rfl)
    obtain rfl := JobTable.id_unique there here (by simpa using same)
    exact JobState.live_iff.mpr (.inl waiting)

theorem claimAny_steady {idText : JobId → String} {leaseFrom : Instant} :
    Steady env e db (db.claimAnyEmbeddingJob env idText now leaseFrom).1 := by
  unfold claimAnyEmbeddingJob
  have base : Steady env e db (db.claimEmbeddingJob idText now leaseFrom).1 := claimJob_steady
  split
  · rename_i claimed s given
    rwa [given] at base
  · rename_i swept given
    rw [given] at base
    exact base.trans claimJob_steady

/-- A result never ends the current entity-level job of a memory but with the memory ready. -/
theorem persistResult_steady {s : Snapshot} (here : e ∈ db.entities.rows)
    (keyed : ∀ j ∈ db.jobs.rows, j.id = s.id → j.key = s.key) : Steady env e db (db.persistResult env model s now) := by
  have mine : ∀ j ∈ db.jobs.rows, j.id = s.id → j.key = entityKey env e →
      s.entityId = e.id ∧ s.jobKind = .entity ∧ s.sourceHash = env.entitySourceHash e.title e.fullContent := by
    intro j there own same
    have key := (keyed j there own).symm.trans same
    simpa [Snapshot.key, entityKey] using key
  rcases persistResult_cases env model db s now with same | ⟨a, open_, ⟨differs, _, stale⟩ | ⟨_, ⟨_, stored⟩ | ⟨kind, stored⟩ | ⟨kind, stored⟩⟩⟩
  · rw [same]
    exact .refl e db
  · rw [stale]
    refine .update rfl id (fun j _ _ live => ?_) fun j there selected own => ?_
    · simp [cancelled, released, JobState.live] at live
    · rw [Bool.and_eq_true, beq_iff_eq] at selected
      obtain ⟨memory, kind, hash⟩ := mine j there selected.1 own
      obtain ⟨_, _, _, _, found, _⟩ := stillRunning_some open_
      rw [memory, EntityTable.find_mem here] at found
      obtain rfl := Option.some.inj found
      rw [kind, hash] at differs
      exact absurd rfl differs
  · rw [stored]
    refine .update rfl (fun ready => ?_) (fun j _ _ live => ?_) fun j there selected own => ?_
    · show Function.update db.embeddingStatus s.entityId .ready e.id = .ready
      by_cases memory : e.id = s.entityId
      · rw [memory, Function.update_self]
      · rwa [Function.update_of_ne memory]
    · simp [succeeded, JobState.live] at live
    · obtain ⟨memory, _, _⟩ := mine j there (by simpa using selected) own
      refine .inr (.inr ⟨rfl, ?_⟩)
      show Function.update db.embeddingStatus s.entityId .ready e.id = .ready
      rw [memory, Function.update_self]
  all_goals
    rw [stored]
    refine .update rfl id (fun j _ _ live => ?_) fun j there selected own => ?_
    · simp [succeeded, JobState.live] at live
    · obtain ⟨_, other, _⟩ := mine j there (by simpa using selected) own
      simp [kind] at other

theorem retry_steady {jobId : JobId} {error : String} {dueFrom : Instant}
    (retried : db.retryEmbeddingJob jobId error now dueFrom = some U) : Steady env e db U := by
  rcases db.retryEmbeddingJob_cases jobId error now dueFrom with same | ⟨j, found, running, ⟨_, failed⟩ | ⟨_, postponed⟩⟩
  · obtain rfl := Option.some.inj (same.symm.trans retried)
    exact .refl e db
  · obtain rfl := Option.some.inj (failed.symm.trans retried)
    refine .update rfl id (fun k _ _ live => ?_) fun k _ _ _ => .inr (.inl rfl)
    simp [failedForGood, JobState.live] at live
  · obtain ⟨delay, _, rfl⟩ := Option.map_eq_some_iff.mp (postponed.symm.trans retried)
    obtain ⟨here, same⟩ := JobTable.find_some found
    refine .update rfl id (fun k there selected _ => ?_) fun k _ _ _ => .inl rfl
    obtain rfl := JobTable.id_unique there here ((by simpa using selected : k.id = jobId).trans same.symm)
    simp [running, JobState.live]

/-! ### No new failures -/

/-- The jobs that have failed had failed before. -/
def Spared (T V : JobTable) : Prop := ∀ j' ∈ V.rows, j'.state = .failed → ∃ j ∈ T.rows, j.key = j'.key ∧ j.state = .failed

theorem Spared.trans {W X : JobTable} (first : Spared T W) (second : Spared W X) : Spared T X := by
  intro j'' later failed
  obtain ⟨j', there, key, failed'⟩ := second j'' later failed
  obtain ⟨j, here, key', failed''⟩ := first j' there failed'
  exact ⟨j, here, key'.trans key, failed''⟩

theorem Spared.refl (T : JobTable) : Spared T T := fun j here failed => ⟨j, here, rfl, failed⟩

theorem Spared.update {sel : Job → Bool} {f : JobColumns → JobColumns}
    (spares : ∀ j ∈ T.rows, sel j = true → (f j.toJobColumns).state ≠ .failed) : Spared T (T.updateWhere sel f) := by
  intro j' there failed
  obtain ⟨j, here, rfl⟩ := JobTable.mem_updateWhere.mp there
  cases selected : sel j with
  | true =>
    rw [Job.setIf_of f selected] at failed
    exact absurd failed (spares j here selected)
  | false =>
    rw [Job.setIf_of_not f selected] at failed
    exact ⟨j, here, by simp, failed⟩

theorem Spared.queueMissing : Spared T (T.queueMissing key now) := by
  unfold JobTable.queueMissing
  split
  · intro j there failed
    rcases JobTable.mem_insert.mp there with old | rfl
    · exact ⟨j, old, rfl, failed⟩
    · simp [JobTable.queued] at failed
  · exact .refl T

theorem reconcileEntity_spared {clock : EntityId → Instant} : Spared db.jobs (reconcileEntity env clock db a).jobs := by
  rw [reconcileEntity_jobs]
  split
  · exact .refl _
  · exact ((Spared.update fun _ _ _ => by simp [cancelled]).trans .queueMissing).trans
      ((Spared.update fun _ _ _ => by simp [cancelled]).trans .queueMissing)

theorem reconcileRetrieval_spared {clock : EntityId → Instant} :
    Spared db.jobs (EmbeddingDb.reconcileRetrieval env clock db a).jobs := by
  unfold EmbeddingDb.reconcileRetrieval
  rw [enqueueRetrieval_eq]
  split
  · rw [enqueueRetrievalKey_jobs, if_neg Bool.false_ne_true]
    exact (Spared.update fun _ _ _ => by simp [released, cancelled]).trans .queueMissing
  · rw [cancelRetrievalEmbeddingJobsForEntity_jobs]
    exact .update fun _ _ _ => by simp [released, cancelled]

/-- No lease that has run out had the last attempt. -/
def AttemptsLeft (now : Instant) (T : JobTable) : Prop :=
  ∀ j ∈ T.rows, leaseExpired (fun _ => true) now j = true → j.attemptCount < maxAttempts

theorem leaseExpired_any {kinds : JobKind → Bool} {j : Job} (expired : leaseExpired kinds now j = true) :
    leaseExpired (fun _ => true) now j = true := by
  unfold leaseExpired at expired ⊢
  rw [Bool.and_eq_true, Bool.and_eq_true] at expired
  rw [expired.1.2, expired.2]
  rfl

theorem AttemptsLeft.expireLeases {kinds : JobKind → Bool} (left : AttemptsLeft now T) :
    expireLeases kinds now T = T.updateWhere (leaseExpired kinds now) (expiredForNow now) := by
  have none_ : ∀ j ∈ T.rows, (leaseExpired kinds now j && decide (maxAttempts ≤ j.attemptCount)) = false := by
    intro j here
    cases expired : leaseExpired kinds now j with
    | false => rfl
    | true => simpa using left j here (leaseExpired_any expired)
  unfold EmbeddingDb.expireLeases
  rw [JobTable.updateWhere_of_none none_]

theorem AttemptsLeft.swept {kinds : JobKind → Bool} (left : AttemptsLeft now T) : AttemptsLeft now (EmbeddingDb.expireLeases kinds now T) := by
  intro j' there expired
  rw [left.expireLeases] at there
  obtain ⟨j, here, rfl⟩ := JobTable.mem_updateWhere.mp there
  cases selected : leaseExpired kinds now j with
  | true =>
    rw [Job.setIf_of _ selected] at expired
    simp [leaseExpired, expiredForNow] at expired
  | false =>
    rw [Job.setIf_of_not _ selected] at expired ⊢
    exact left j here expired

theorem claimJob_spared {kinds : JobKind → Bool} {eligible : Job → Entity → Bool} {idText : JobId → String} {leaseFrom : Instant}
    (left : AttemptsLeft now db.jobs) : Spared db.jobs (db.claimJob kinds eligible idText now leaseFrom).1.jobs := by
  have swept : Spared db.jobs (expireLeases kinds now db.jobs) := by
    rw [left.expireLeases]
    exact .update fun _ _ _ => by simp [expiredForNow]
  rcases db.claimJob_cases kinds eligible idText now leaseFrom with none_ | ⟨j, a, _, some_⟩
  · rw [none_]
    exact swept
  · rw [some_]
    exact swept.trans (.update fun _ _ _ => by simp [leased])

theorem claimAny_spared {idText : JobId → String} {leaseFrom : Instant} (left : AttemptsLeft now db.jobs) :
    Spared db.jobs (db.claimAnyEmbeddingJob env idText now leaseFrom).1.jobs := by
  have base : Spared db.jobs (db.claimEmbeddingJob idText now leaseFrom).1.jobs := claimJob_spared left
  unfold claimAnyEmbeddingJob
  split
  · rename_i claimed s given
    rwa [given] at base
  · rename_i swept given
    rw [given] at base
    refine base.trans (claimJob_spared ?_)
    have none_ : (db.claimEmbeddingJob idText now leaseFrom).2 = none := by rw [given]
    have sweptJobs : swept.jobs = expireLeases (· != .retrieval) now db.jobs := by
      have claimed : (db.claimEmbeddingJob idText now leaseFrom).1 = swept := by rw [given]
      rw [← claimed]
      unfold claimEmbeddingJob at none_ ⊢
      rcases db.claimJob_cases (· != .retrieval) (fun _ _ => true) idText now leaseFrom with same | ⟨j, a, _, some_⟩
      · rw [same]
        rfl
      · simp [some_] at none_
    rw [sweptJobs]
    exact left.swept

theorem persistResult_spared {s : Snapshot} : Spared db.jobs (db.persistResult env model s now).jobs := by
  rcases persistResult_cases env model db s now with same | ⟨e, _, ⟨_, _, stale⟩ | ⟨_, ⟨_, stored⟩ | ⟨_, stored⟩ | ⟨_, stored⟩⟩⟩
  · rw [same]
    exact .refl _
  · rw [stale]
    exact .update fun _ _ _ => by simp [released, cancelled]
  all_goals
    rw [stored]
    exact .update fun _ _ _ => by simp [succeeded]

end EmbeddingDb

/-! ### The runs -/

namespace EmbeddingSystem

variable {s : EmbeddingSystem ν}

/-- The job of every claim is there, under the source that the claim was given. -/
def Keyed (s : EmbeddingSystem ν) : Prop := ∀ c ∈ s.claims, ∃ j ∈ s.db.jobs.rows, j.id = c.snapshot.id ∧ j.key = c.snapshot.key

theorem Keyed.next (env : Env) (model : EmbeddingModel ν) (keyed : s.Keyed) (step : EmbeddingStep) :
    (s.next env model step).Keyed := by
  obtain ⟨granted, evolves, _⟩ := next_evolves env model s step
  have earlier : ∀ c ∈ s.claims, ∃ j ∈ (s.next env model step).db.jobs.rows, j.id = c.snapshot.id ∧ j.key = c.snapshot.key := by
    intro c listed
    obtain ⟨j, here, own, key⟩ := keyed c listed
    obtain ⟨j', there, own', key'⟩ := evolves.stays j here
    exact ⟨j', there, own'.trans own, key'.trans key⟩
  have reported : ∀ k f, (s.report k f).db = (s.next env model step).db → (s.report k f).Keyed := by
    intro k f same c listed
    rw [same]
    rcases s.report_cases k f with kept | ⟨c', _, _, written⟩
    · rw [kept] at listed
      exact earlier c listed
    · rw [written] at listed
      obtain ⟨i, found⟩ := List.getElem?_of_mem listed
      rw [List.getElem?_modify] at found
      obtain ⟨old, before, rfl⟩ := Option.map_eq_some_iff.mp found
      have member := List.mem_of_getElem? before
      split
      · exact earlier old member
      · exact earlier old member
  cases step with
  | claim now leaseFrom =>
    intro c listed
    rcases List.mem_append.mp listed with old | new
    · exact earlier c old
    · obtain ⟨snapshot, given, rfl⟩ := List.mem_map.mp new
      obtain ⟨⟨j, here, own, key, _⟩, _⟩ := claimAny_grants (by simpa using given)
      exact ⟨j, here, own, key⟩
  | persist k now => exact reported k _ rfl
  | fail k error now dueFrom => exact reported k _ rfl
  | _ => exact earlier

theorem report_steady {k : Nat} {f : Snapshot → EmbeddingDb ν} {e : Entity} (keyed : s.Keyed)
    (each : ∀ snapshot, (∀ j ∈ s.db.jobs.rows, j.id = snapshot.id → j.key = snapshot.key) → Steady env e s.db (f snapshot)) :
    Steady env e s.db (s.report k f).db := by
  rcases s.report_cases k f with kept | ⟨c, found, _, reported⟩
  · rw [kept]
    exact .refl e s.db
  · rw [reported]
    refine each c.snapshot fun j here own => ?_
    obtain ⟨j', there, own', key⟩ := keyed c (List.mem_of_getElem? found)
    rwa [JobTable.id_unique here there (own.trans own'.symm)]

theorem next_ripe (env : Env) (model : EmbeddingModel ν) (keyed : s.Keyed) (ripe : Ripe env s.db) (step : EmbeddingStep) :
    Ripe env (s.next env model step).db := by
  have refused : ∀ {o : Option (EmbeddingDb ν)}, (∀ U, o = some U → Ripe env U) → Ripe env (o.getD s.db) := by
    intro o committed
    cases o with
    | none => exact ripe
    | some U => exact committed U rfl
  have worked : ∀ {U : EmbeddingDb ν}, U.entities = s.db.entities → (∀ e ∈ s.db.entities.rows, Steady env e s.db U) → Ripe env U := by
    intro U entities steady e there live hashed
    rw [entities] at there
    exact (ripe e there live hashed).steady (steady e there)
  cases step with
  | store p drawn copyDrawn now core => exact refused fun U stored => storeRaw_ripe ripe stored
  | replace plan drawn core => exact refused fun U replaced => replace_ripe ripe replaced
  | consolidate items now => exact refused fun U merged => consolidate_ripe ripe merged
  | archive id now => exact archive_ripe ripe
  | reconcile limit afterId now => exact reconcile_ripe ripe
  | reconcileRetrieval limit afterId now => exact reconcileRetrieval_ripe ripe
  | claim now leaseFrom => exact worked claimAny_entities fun e _ => claimAny_steady
  | persist k now =>
    exact worked (report_entities fun _ => persistResult_entities) fun e here => report_steady keyed fun snapshot => persistResult_steady here
  | fail k error now dueFrom =>
    refine worked (report_entities fun snapshot => ?_) fun e here => report_steady keyed fun snapshot _ => ?_
    · cases retried : s.db.retryEmbeddingJob snapshot.id error now dueFrom with
      | none => rfl
      | some U => exact retry_entities retried
    · cases retried : s.db.retryEmbeddingJob snapshot.id error now dueFrom with
      | none => exact .refl e s.db
      | some U => exact retry_steady retried

/-- A transaction of a worker whose attempts succeed: a claim that fails no job for good, or a result. -/
def Succeeds (step : EmbeddingStep) (s : EmbeddingSystem ν) : Prop :=
  match step with
  | .claim now _ => AttemptsLeft now s.db.jobs
  | .persist _ _ => True
  | _ => False

theorem Succeeds.spared (env : Env) (model : EmbeddingModel ν) {step : EmbeddingStep} (succeeds : Succeeds step s) :
    Spared s.db.jobs (s.next env model step).db.jobs ∧ (s.next env model step).db.entities = s.db.entities := by
  cases step with
  | claim now leaseFrom => exact ⟨claimAny_spared succeeds, claimAny_entities⟩
  | persist k now =>
    refine ⟨?_, report_entities fun _ => persistResult_entities⟩
    show Spared s.db.jobs (s.report k _).db.jobs
    rcases s.report_cases k (fun snapshot => s.db.persistResult env model snapshot now) with kept | ⟨c, _, _, reported⟩
    · rw [kept]
      exact .refl _
    · rw [reported]
      exact persistResult_spared
  | _ => exact succeeds.elim

/-- No entity-level job of an active memory is left to execute. -/
def Executed (s : EmbeddingSystem ν) : Prop :=
  ∀ j ∈ s.db.jobs.rows, j.key.kind = .entity → j.state.live = true → ∀ e, s.db.entities.find j.key.entityId = some e → e.live = false

/-- A recovery of the state ends, and once the work that it leaves has been executed without a failure, every active memory
with a content hash is ready but for those whose entity-level job had failed before. -/
def Converges (env : Env) (model : EmbeddingModel ν) (s : EmbeddingSystem ν) (recovery : Option (EmbeddingDb ν × Nat × Nat)) : Prop :=
  recovery.isSome = true ∧ ∀ t seen, recovery = some (t, seen) →
    ∀ work, Runs.Guarded (EmbeddingSystem.next env model) Succeeds work ⟨t, s.claims⟩ →
      (work.foldl (EmbeddingSystem.next env model) ⟨t, s.claims⟩).Executed →
      ∀ e ∈ s.db.entities.rows, e.live = true → e.contentHash ≠ "" →
        (∀ j ∈ s.db.jobs.rows, j.key = entityKey env e → j.state ≠ .failed) →
        (work.foldl (EmbeddingSystem.next env model) ⟨t, s.claims⟩).db.embeddingStatus e.id = .ready

/-- What the recovery and the work after it keep of a state: the memories, the jobs that are there, and the failures. -/
structure Carried (env : Env) (s u : EmbeddingSystem ν) : Prop where
  entities : u.db.entities = s.db.entities
  spared : Spared s.db.jobs u.db.jobs
  keyed : u.Keyed
  ripe : Ripe env u.db

theorem converges_of_ripe {pageSize fuel : Nat} (keyed : s.Keyed) (ripe : Ripe env s.db) (named : s.db.Named)
    (positive : 0 < pageSize) (now later : Nat → EntityId → Instant) (enough : s.db.entities.rows.length < fuel) :
    Converges env model s (s.db.reconcileAllEmbeddingJobs env pageSize now later fuel) := by
  have stays : ∀ {T U : JobTable}, Evolves (fun _ => True) [] T U → (∀ c ∈ s.claims, ∃ j ∈ T.rows, j.id = c.snapshot.id ∧
      j.key = c.snapshot.key) → ∀ c ∈ s.claims, ∃ j ∈ U.rows, j.id = c.snapshot.id ∧ j.key = c.snapshot.key := by
    intro T U evolves before c listed
    obtain ⟨j, here, own, key⟩ := before c listed
    obtain ⟨j', there, own', key'⟩ := evolves.stays j here
    exact ⟨j', there, own'.trans own, key'.trans key⟩
  obtain ⟨t, ends, entities, based, _, carried⟩ := reconcileAll_settles env positive named now later
    (fun d => Carried env s ⟨d, s.claims⟩)
    (fun n d a selected before => by
      obtain ⟨here, active⟩ := mem_selected.mp selected
      refine ⟨reconcileEntity_entities.trans before.entities, before.spared.trans reconcileEntity_spared,
        stays ?_ before.keyed, reconcileEntity_ripe before.ripe here active⟩
      unfold EmbeddingDb.reconcileEntity
      split
      · exact .refl _ _
      · exact .enqueueEmbedding nofun)
    (fun n d a _ before => ⟨reconcileRetrieval_entities.trans before.entities, before.spared.trans reconcileRetrieval_spared,
      stays (.enqueueRetrieval nofun) before.keyed, before.ripe.same reconcileRetrieval_same reconcileRetrieval_entities⟩)
    ⟨rfl, .refl _, keyed, ripe⟩
  refine ⟨by rw [ends fuel enough]; rfl, fun t' seen recovered work succeeds executed e here live hashed unfailed => ?_⟩
  rw [ends fuel enough] at recovered
  obtain rfl := (Prod.mk.inj (Option.some.inj recovered)).1
  -- The entity-level job is there after the recovery, and no worker deletes it.
  have known : ∃ j ∈ t.jobs.rows, j.key = entityKey env e :=
    (based e (mem_selected.mpr ⟨here, live⟩) hashed _ (mem_baseKeys.mpr (.inl rfl))).queued
  obtain ⟨after, j, there, own⟩ : Carried env s (work.foldl (EmbeddingSystem.next env model) ⟨t, s.claims⟩) ∧
      ∃ j ∈ (work.foldl (EmbeddingSystem.next env model) ⟨t, s.claims⟩).db.jobs.rows, j.key = entityKey env e := by
    refine Runs.final_of_guarded (P := fun u : EmbeddingSystem ν => Carried env s u ∧ ∃ j ∈ u.db.jobs.rows, j.key = entityKey env e)
      ?_ ⟨carried, known⟩ succeeds
    rintro u step ⟨before, j, there, own⟩ allowed
    obtain ⟨spared, same⟩ := Succeeds.spared env model allowed
    obtain ⟨_, evolves, _⟩ := next_evolves env model u step
    obtain ⟨j', next, _, key⟩ := evolves.stays j there
    exact ⟨⟨same.trans before.entities, before.spared.trans spared, before.keyed.next env model step,
      next_ripe env model before.keyed before.ripe step⟩, j', next, key.trans own⟩
  have home : (work.foldl (EmbeddingSystem.next env model) ⟨t, s.claims⟩).db.entities.find e.id = some e := by
    rw [after.entities]
    exact EntityTable.find_mem here
  rcases (after.ripe e (EntityTable.find_some home).1 live hashed).ready j there own with running | failed | ⟨_, ready⟩
  · have retired := executed j there (by rw [own]; rfl) running e (by rw [own]; exact home)
    simp [live] at retired
  · obtain ⟨k, old, key, failed'⟩ := after.spared j there failed
    exact absurd failed' (unfailed k old (key.trans own))
  · exact ready

theorem recovered_ready (env : Env) (model : EmbeddingModel ν) (entities : EntityTable) (embeddingStatus : EntityId → EmbeddingStatus)
    (named : ∀ e ∈ entities.rows, e.id ≠ "") (steps : List EmbeddingStep) :
    ∀ s ∈ Runs.states (next env model) steps (initial entities embeddingStatus), ∀ pageSize, 0 < pageSize → ∀ now later fuel,
      s.db.entities.rows.length < fuel →
        Converges env model s (s.db.reconcileAllEmbeddingJobs env pageSize now later fuel) := by
  intro s reached pageSize positive now later fuel enough
  have start : (initial (ν := ν) entities embeddingStatus).db.Named ∧ (initial (ν := ν) entities embeddingStatus).Keyed ∧
      Ripe env (initial (ν := ν) entities embeddingStatus).db := by
    refine ⟨named, by simp [Keyed, initial], fun e _ _ _ => ⟨?_, ?_⟩⟩
    · simp [initial, JobTable.empty]
    · simp [initial, JobTable.empty]
  obtain ⟨named', keyed, ripe⟩ := Runs.invariant
    (P := fun s : EmbeddingSystem ν => s.db.Named ∧ s.Keyed ∧ Ripe env s.db)
    (fun s step here => ⟨(next_memories env model s step).named here.1, here.2.1.next env model step,
      next_ripe env model here.2.1 here.2.2 step⟩) start s reached
  exact converges_of_ripe keyed ripe named' positive now later enough

/-! ### A recovery before and after the attempts are used -/

def noteSystem : EmbeddingSystem String := initial noteTable fun _ => .pending

theorem executed_of_idle {s : EmbeddingSystem ν} (idle : s.db.jobs.rows.all (fun j => !j.state.live) = true) : s.Executed := by
  intro j here _ live
  have ended := List.all_eq_true.mp idle j here
  simp [live] at ended

def noteRecovered : EmbeddingDb String :=
  ((noteSystem.db.reconcileAllEmbeddingJobs Env.plain 1 (fun _ _ => 0) (fun _ _ => 0) 2).get (by decide +kernel)).1

/-- Both jobs are claimed and come back. -/
def noteWork : List EmbeddingStep := [.claim 1 1, .claim 1 1, .persist 1 2, .persist 0 2]

theorem note_ready : (noteWork.foldl (next Env.plain .plain) ⟨noteRecovered, []⟩).db.embeddingStatus "note" = .ready := by
  refine (recovered_ready Env.plain .plain noteTable (fun _ => .pending) (by decide) [] noteSystem (by simp [Runs.states, noteSystem]) 1
    (by decide) (fun _ _ => 0) (fun _ _ => 0) 2 (by decide)).2 noteRecovered _ (Option.some_get _).symm noteWork ⟨?_, ?_, trivial, trivial, trivial⟩
    (executed_of_idle (by decide +kernel)) (memoryRow "note" "Note" "text") (by decide) (by decide) (by decide) ?_
  · show ∀ j ∈ noteRecovered.jobs.rows, _
    decide +kernel
  · show ∀ j ∈ (next Env.plain .plain ⟨noteRecovered, []⟩ (.claim 1 1)).db.jobs.rows, _
    decide +kernel
  · simp [noteSystem, initial, JobTable.empty]

/-- Ten attempts, each of which fails. -/
def exhausting : List EmbeddingStep :=
  .reconcile 1 none (fun _ => 0) :: (List.range 10).flatMap fun k : Nat =>
    [.claim (minutes (20 * (k : Int))) (minutes (20 * (k : Int))), .fail k "timeout" (minutes (20 * (k : Int))) (minutes (20 * (k : Int)))]

def exhausted : EmbeddingSystem String := exhausting.foldl (next Env.plain .plain) noteSystem

def exhaustedRecovered : EmbeddingDb String :=
  ((exhausted.db.reconcileAllEmbeddingJobs Env.plain 1 (fun _ _ => minutes 300) (fun _ _ => minutes 300) 2).get (by decide +kernel)).1

/-- The recovery keeps the failed jobs, and leaves none that could make the memory ready. -/
theorem exhausted_pending : (∃ seen, exhausted.db.reconcileAllEmbeddingJobs Env.plain 1 (fun _ _ => minutes 300) (fun _ _ => minutes 300) 2 =
      some (exhaustedRecovered, seen)) ∧
    (⟨exhaustedRecovered, exhausted.claims⟩ : EmbeddingSystem String).Executed ∧
    exhaustedRecovered.jobs.rows.map (·.state) = [.failed, .failed] ∧
    memoryRow "note" "Note" "text" ∈ exhaustedRecovered.entities.rows ∧ exhaustedRecovered.embeddingStatus "note" = .pending :=
  ⟨⟨_, (Option.some_get _).symm⟩, executed_of_idle (by decide +kernel), by decide +kernel, by decide +kernel, by decide +kernel⟩

end EmbeddingSystem
end SaltMdb
