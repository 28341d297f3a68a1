import SaltMdb.Embedding.Machine
import SaltMdb.Embedding.Memories

/-! Whose memory a live job is about, and when an archived memory gets one. -/

namespace SaltMdb
open EmbeddingDb

/-! ### What a transaction queues -/

/-- Every row of the later table is an earlier one that has not come to life, or belongs to an owner. -/
def Queues (owner : EntityId → Prop) (T U : JobTable) : Prop :=
  ∀ j' ∈ U.rows, (∃ j ∈ T.rows, j.key = j'.key ∧ (j'.state.live = true → j.state.live = true)) ∨ owner j'.key.entityId

namespace Queues

variable {owner : EntityId → Prop} {T U V : JobTable} {key : JobKey} {now : Instant} {env : Env} {ν : Type}
  {model : EmbeddingModel ν} {db : EmbeddingDb ν} {id : EntityId}

theorem refl (owner : EntityId → Prop) (T : JobTable) : Queues owner T T := fun j here => .inl ⟨j, here, rfl, fun live => live⟩

theorem trans (first : Queues owner T U) (second : Queues owner U V) : Queues owner T V := by
  intro j'' there
  rcases second j'' there with ⟨j', here, key, live⟩ | owned
  · rcases first j' here with ⟨j, before, key', live'⟩ | owned
    · exact .inl ⟨j, before, key'.trans key, fun h => live' (live h)⟩
    · exact .inr (key ▸ owned)
  · exact .inr owned

theorem mono {wider : EntityId → Prop} (queues : Queues owner T U) (more : ∀ id, owner id → wider id) : Queues wider T U :=
  fun j there => (queues j there).imp id (more _)

theorem update {sel : Job → Bool} {f : JobColumns → JobColumns}
    (ends : ∀ j ∈ T.rows, sel j = true → (f j.toJobColumns).state.live = true → j.state.live = true) :
    Queues owner T (T.updateWhere sel f) := by
  intro j' there
  obtain ⟨j, here, rfl⟩ := JobTable.mem_updateWhere.mp there
  refine .inl ⟨j, here, by simp, fun live => ?_⟩
  cases selected : sel j with
  | true =>
    rw [Job.setIf_of f selected] at live
    exact ends j here selected live
  | false => rwa [Job.setIf_of_not f selected] at live

theorem ended {sel : Job → Bool} {f : JobColumns → JobColumns} (ends : ∀ c, (f c).state.live = false) :
    Queues owner T (T.updateWhere sel f) := update fun j _ _ live => by simp [ends] at live

theorem insert {free : T.findKey key = none} (owned : owner key.entityId) : Queues owner T (T.insert key now free) := by
  intro j there
  rcases JobTable.mem_insert.mp there with old | rfl
  · exact .inl ⟨j, old, rfl, fun live => live⟩
  · exact .inr owned

theorem queueMissing (owned : owner key.entityId) : Queues owner T (T.queueMissing key now) := by
  unfold JobTable.queueMissing
  split
  · exact insert owned
  · exact refl owner T

theorem queueAgain (owned : owner key.entityId) : Queues owner T (T.queueAgain key now) := by
  unfold JobTable.queueAgain
  split
  · exact insert owned
  · intro j' there
    obtain ⟨j, here, rfl⟩ := JobTable.mem_updateWhere.mp there
    by_cases same : j.key = key
    · exact .inr (by rw [Job.setIf_key, same]; exact owned)
    · rw [Job.setIf_of_not _ (by simpa using same)]
      exact .inl ⟨j, here, rfl, fun live => live⟩

theorem enqueueKind {force : Bool} (owned : owner key.entityId) : Queues owner T (enqueueKind T key now force).1 := by
  have stale : Queues owner T (T.updateWhere (staleJob key) (cancelled now)) := ended fun _ => rfl
  cases force with
  | true => exact stale.trans (queueAgain owned)
  | false => exact stale.trans (queueMissing owned)

theorem enqueueEmbedding {title content contentHash : String} {force : Bool} (owned : owner id) :
    Queues owner db.jobs (db.enqueueEmbeddingJobsForEntity env id title content contentHash now force).1.jobs := by
  rw [enqueueEmbeddingJobsForEntity_jobs]
  exact (enqueueKind owned).trans (enqueueKind owned)

theorem cancelRetrieval {clearVector : Bool} :
    Queues owner db.jobs (db.cancelRetrievalEmbeddingJobsForEntity id now clearVector).jobs := by
  rw [cancelRetrievalEmbeddingJobsForEntity_jobs]
  exact ended fun _ => rfl

theorem enqueueRetrieval {text : Option String} {force : Bool}
    (owned : ((retrievalHash env text).filter (· ≠ "")).isSome = true → owner id) : Queues owner db.jobs
      (db.enqueueRetrievalEmbeddingJobForEntity id text (retrievalHash env text) now force).1.jobs := by
  unfold EmbeddingDb.enqueueRetrievalEmbeddingJobForEntity
  split
  · rename_i hash _ given
    have mine : owner id := owned (by rw [given]; rfl)
    rw [enqueueRetrievalKey_jobs]
    have stale : Queues owner db.jobs (db.jobs.updateWhere (staleJob ⟨id, .retrieval, hash⟩) (released now)) := ended fun _ => rfl
    split
    · exact stale.trans (queueAgain mine)
    · exact stale.trans (queueMissing mine)
  · exact cancelRetrieval

theorem cancelArchived : Queues owner db.jobs (cancelArchived now db id).jobs := by
  have base : Queues owner db.jobs (db.cancelEmbeddingJobsForEntity id now).jobs := ended fun _ => rfl
  exact base.trans cancelRetrieval

theorem clearArchived : Queues owner db.jobs (clearArchived now db id).jobs := by
  show Queues owner (db.clearEmbeddingVectorsForEntity id).jobs _
  exact cancelRetrieval

theorem foldl {α : Type} {f : EmbeddingDb ν → α → EmbeddingDb ν} {xs : List α}
    (turn : ∀ db, ∀ x ∈ xs, Queues owner db.jobs (f db x).jobs) (db : EmbeddingDb ν) : Queues owner db.jobs (xs.foldl f db).jobs := by
  induction xs generalizing db with
  | nil => exact refl owner db.jobs
  | cons x rest ih =>
    have first := turn db x List.mem_cons_self
    exact first.trans (ih (fun db y member => turn db y (List.mem_cons_of_mem x member)) (f db x))

/-! ### The workers -/

theorem expireLeases {kinds : JobKind → Bool} : Queues owner T (expireLeases kinds now T) := by
  unfold EmbeddingDb.expireLeases
  refine (ended fun _ => rfl).trans (update fun j _ expired _ => ?_)
  simp only [leaseExpired, Bool.and_eq_true, beq_iff_eq] at expired
  simp [expired.1.2, JobState.live]

theorem claimJob {kinds : JobKind → Bool} {eligible : Job → Entity → Bool} {idText : JobId → String} {leaseFrom : Instant} :
    Queues owner db.jobs (db.claimJob kinds eligible idText now leaseFrom).1.jobs := by
  rcases db.claimJob_cases kinds eligible idText now leaseFrom with none_ | ⟨j, e, due, some_⟩
  · rw [none_]
    exact expireLeases
  · rw [some_]
    obtain ⟨here, _, waiting, _⟩ := mem_claimable.mp due
    refine expireLeases.trans (update fun k there same _ => ?_)
    obtain rfl := JobTable.id_unique there here (by simpa using same)
    exact JobState.live_iff.mpr (.inl waiting)

theorem claimAny {idText : JobId → String} {leaseFrom : Instant} :
    Queues owner db.jobs (db.claimAnyEmbeddingJob env idText now leaseFrom).1.jobs := by
  unfold claimAnyEmbeddingJob
  have base : Queues owner db.jobs (db.claimEmbeddingJob idText now leaseFrom).1.jobs := claimJob
  split
  · rename_i claimed s given
    rwa [given] at base
  · rename_i swept given
    rw [given] at base
    exact base.trans claimJob

theorem persistResult {s : Snapshot} : Queues owner db.jobs (db.persistResult env model s now).jobs := by
  rcases persistResult_cases env model db s now with same | ⟨e, _, ⟨_, _, stale⟩ | ⟨_, ⟨_, stored⟩ | ⟨_, stored⟩ | ⟨_, stored⟩⟩⟩
  · rw [same]
    exact refl owner _
  · rw [stale]
    exact ended fun _ => rfl
  all_goals
    rw [stored]
    exact ended fun _ => rfl

theorem retry {jobId : JobId} {error : String} {dueFrom : Instant} {U : EmbeddingDb ν}
    (retried : db.retryEmbeddingJob jobId error now dueFrom = some U) : Queues owner db.jobs U.jobs := by
  rcases db.retryEmbeddingJob_cases jobId error now dueFrom with same | ⟨j, found, running, ⟨_, failed⟩ | ⟨_, postponed⟩⟩
  · obtain rfl := Option.some.inj (same.symm.trans retried)
    exact refl owner _
  · obtain rfl := Option.some.inj (failed.symm.trans retried)
    exact ended fun _ => rfl
  · obtain ⟨delay, _, rfl⟩ := Option.map_eq_some_iff.mp (postponed.symm.trans retried)
    obtain ⟨here, same⟩ := JobTable.find_some found
    refine update fun k there selected _ => ?_
    obtain rfl := JobTable.id_unique there here ((by simpa using selected : k.id = jobId).trans same.symm)
    simp [running, JobState.live]

end Queues

/-! ### The memory of a job -/

variable {env : Env} {ν : Type} {model : EmbeddingModel ν}

/-- The memory of every job is there, and that of a live one is active, but for the exceptions. -/
structure Homed (except : EntityId → Prop) (db : EmbeddingDb ν) : Prop where
  here : ∀ j ∈ db.jobs.rows, ∃ e, db.entities.find j.key.entityId = some e
  active : ∀ j ∈ db.jobs.rows, j.state.live = true → ∀ e, db.entities.find j.key.entityId = some e → e.live = true ∨ except e.id

namespace Homed

variable {except other : EntityId → Prop} {db U : EmbeddingDb ν} {now : Instant} {id : EntityId}

theorem mono (homed : Homed except db) (more : ∀ id, except id → other id) : Homed other db where
  here := homed.here
  active j member live e found := (homed.active j member live e found).imp id (more e.id)

/-- Work that is queued for memories that may have it. -/
theorem queues (owner : EntityId → Prop) (homed : Homed except db) (entities : U.entities = db.entities)
    (queues : Queues owner db.jobs U.jobs)
    (owners : ∀ id, owner id → ∃ e, db.entities.find id = some e ∧ (e.live = true ∨ except e.id)) : Homed except U where
  here j' there := by
    rw [entities]
    rcases queues j' there with ⟨j, before, key, _⟩ | owned
    · exact key ▸ homed.here j before
    · obtain ⟨e, found, _⟩ := owners _ owned
      exact ⟨e, found⟩
  active j' there live e found := by
    rw [entities] at found
    rcases queues j' there with ⟨j, before, key, live'⟩ | owned
    · exact homed.active j before (live' live) e (key ▸ found)
    · obtain ⟨e', found', allowed⟩ := owners _ owned
      obtain rfl := Option.some.inj (found.symm.trans found')
      exact allowed

theorem worked (homed : Homed except db) (entities : U.entities = db.entities)
    (queues : Queues (fun _ => False) db.jobs U.jobs) : Homed except U := homed.queues _ entities queues fun _ none_ => none_.elim

/-- A new memory has no jobs yet. -/
theorem append {e : Entity} (free : db.entities.find e.id = none) (homed : Homed except db) (jobs : U.jobs = db.jobs)
    (entities : U.entities = db.entities.append e free) : Homed except U := by
  have apart : ∀ j ∈ db.jobs.rows, j.key.entityId ≠ e.id := by
    intro j member same
    obtain ⟨old, found⟩ := homed.here j member
    rw [same, free] at found
    simp at found
  constructor
  · intro j member
    rw [jobs] at member
    rw [entities, EntityTable.find_append, if_neg (apart j member)]
    exact homed.here j member
  · intro j member live old found
    rw [jobs] at member
    rw [entities, EntityTable.find_append, if_neg (apart j member)] at found
    exact homed.active j member live old found

/-- An update that archives only where it is allowed to. -/
theorem update {sel : Entity → Bool} {f : EntityColumns → EntityColumns} (homed : Homed except db) (jobs : U.jobs = db.jobs)
    (entities : U.entities = db.entities.updateWhere sel f)
    (kept : ∀ e ∈ db.entities.rows, sel e = true → (f e.toEntityColumns).status = e.status ∨ other e.id)
    (more : ∀ id, except id → other id) : Homed other U := by
  constructor
  · intro j member
    rw [jobs] at member
    obtain ⟨e, found⟩ := homed.here j member
    exact ⟨e.setIf sel f, by rw [entities, EntityTable.find_updateWhere, found]; rfl⟩
  · intro j member live e' found
    rw [jobs] at member
    rw [entities, EntityTable.find_updateWhere, Option.map_eq_some_iff] at found
    obtain ⟨e, before, rfl⟩ := found
    have allowed := homed.active j member live e before
    rw [Entity.setIf_id]
    cases selected : sel e with
    | false =>
      have same : e.setIf sel f = e := by simp [Entity.setIf, selected]
      rw [same]
      exact allowed.imp_right (more e.id)
    | true =>
      rcases kept e (EntityTable.find_some before).1 selected with same | allowed'
      · refine allowed.imp (fun active => ?_) (more e.id)
        unfold Entity.live at active ⊢
        rw [Entity.setIf, if_pos selected, same]
        exact active
      · exact .inr allowed'

/-- After both cancellations a memory has no live job. -/
theorem cancelled (id : EntityId) (homed : Homed except db) {f g : JobColumns → JobColumns} (ends : ∀ c, (f c).state.live = false)
    (ends' : ∀ c, (g c).state.live = false) (entities : U.entities = db.entities)
    (jobs : U.jobs = (db.jobs.updateWhere (liveJobOf id (· != .retrieval)) f).updateWhere (liveJobOf id (· == .retrieval)) g) :
    Homed (fun i => except i ∧ i ≠ id) U := by
  have thinned : Queues (fun _ => False) db.jobs U.jobs := by
    rw [jobs]
    exact (Queues.ended ends).trans (Queues.ended ends')
  have worked := homed.worked entities thinned
  refine ⟨worked.here, fun j' there live e found => ?_⟩
  refine (worked.active j' there live e found).imp_right fun allowed => ⟨allowed, ?_⟩
  rintro rfl
  have own : j'.key.entityId = e.id := (EntityTable.find_some found).2.symm
  rw [jobs] at there
  obtain ⟨k, first, rfl⟩ := JobTable.mem_updateWhere.mp there
  cases retrieval : liveJobOf e.id (· == .retrieval) k with
  | true =>
    rw [Job.setIf_of g retrieval] at live
    simp [ends'] at live
  | false =>
    rw [Job.setIf_of_not g retrieval] at live own
    obtain ⟨j, before, rfl⟩ := JobTable.mem_updateWhere.mp first
    cases base : liveJobOf e.id (· != .retrieval) j with
    | true =>
      rw [Job.setIf_of f base] at live
      simp [ends] at live
    | false =>
      rw [Job.setIf_of_not f base] at live own retrieval
      by_cases kind : j.key.kind = .retrieval
      · simp [liveJobOf, own, live, kind] at retrieval
      · simp [liveJobOf, own, live, kind] at base

theorem cancelArchived (homed : Homed except db) : Homed (fun i => except i ∧ i ≠ id) (cancelArchived now db id) := by
  refine homed.cancelled id (cancelled_ends now) (released_ends now) cancelArchived_entities ?_
  rw [EmbeddingDb.cancelArchived, cancelRetrievalEmbeddingJobsForEntity_jobs, cancelEmbeddingJobsForEntity_jobs]

theorem clearArchived (homed : Homed except db) : Homed except (clearArchived now db id) :=
  homed.worked clearArchived_entities .clearArchived

theorem foldl {α : Type} {f : EmbeddingDb ν → α → EmbeddingDb ν} (turn : ∀ db x, Homed except db → Homed except (f db x))
    (xs : List α) (homed : Homed except db) : Homed except (xs.foldl f db) := by
  induction xs generalizing db with
  | nil => exact homed
  | cons x rest ih => exact ih (turn db x homed)

/-- The parents of a merge, whose work is cancelled one after the other. -/
theorem cancelParents (parents : List EntityId) (homed : Homed (fun i => except i ∨ i ∈ parents) db) :
    Homed except (parents.foldl (EmbeddingDb.cancelArchived now) db) := by
  induction parents generalizing db with
  | nil => exact homed.mono fun i allowed => by simpa using allowed
  | cons p rest ih =>
    refine ih (homed.cancelArchived.mono fun i allowed => ?_)
    obtain ⟨either, apart⟩ := allowed
    simpa [apart] using either

end Homed

/-! ### The services -/

namespace EmbeddingDb

theorem mem_page {db : EmbeddingDb ν} {limit : Nat} {afterId : Option EntityId} {sel : Entity → Bool} {e : Entity}
    (member : e ∈ db.page limit afterId sel) : e ∈ db.entities.rows ∧ sel e = true := by
  have listed : e ∈ db.selected sel := List.mem_of_mem_filter (List.mem_of_mem_take member)
  rw [selected, List.mem_filter, Paging.mem_inOrder] at listed
  exact listed

variable {db U : EmbeddingDb ν} {now : Instant} {id : EntityId} {p : StoreProposal} {existing : Option Entity} {core : CoreState}
  {except : EntityId → Prop} {drawn copyDrawn : Uuid}

/-- The store gives the memory work: its base source changes, or it comes with a retrieval text. -/
def queuesWork (env : Env) (p : StoreProposal) (existing : Option Entity) : Bool :=
  p.sourceChanged existing || (enqueuedRetrieval p existing).any fun text => ((retrievalHash env text).filter (· ≠ "")).isSome

theorem enqueueRawJobs_queues : Queues (fun i => i = id ∧ queuesWork env p existing = true) db.jobs
    (db.enqueueRawJobs env p id existing now).jobs := by
  have base : Queues (fun i => i = id ∧ queuesWork env p existing = true) db.jobs (if p.sourceChanged existing then
      (db.enqueueEmbeddingJobsForEntity env id p.title p.redactedContent p.contentHash now true).1 else db).jobs := by
    split
    · rename_i changed
      exact .enqueueEmbedding ⟨rfl, by simp [queuesWork, changed]⟩
    · exact .refl _ _
  unfold enqueueRawJobs
  dsimp only
  split
  · exact base
  · rename_i text given
    exact base.trans (.enqueueRetrieval fun hashed => ⟨rfl, by simp only [queuesWork, given, Option.any_some, hashed, Bool.or_true]⟩)

/-- The copy is of another id, so the memory itself is as it was. -/
theorem keepCopy_find (kept : db.keepCopy p existing drawn = some U) {old : Entity} (found : db.entities.find id = some old) :
    U.entities.find id = some old := by
  rcases keepCopy_cases kept with rfl | ⟨_, free, _, rfl⟩
  · exact found
  · show (db.entities.append _ free).find id = some old
    rw [EntityTable.find_append, if_neg, found]
    rintro rfl
    rw [free] at found
    simp at found

/-- What the upsert leaves under the id: a new raw memory, or the old one with its status. -/
theorem upsertMemory_find (now : Instant) (core : CoreState) (kept : db.keepCopy p (db.entities.find id) drawn = some U) :
    ∃ e, (U.upsertMemory p id (db.entities.find id) now core).entities.find id = some e ∧
      e.live = (db.entities.find id).all Entity.live ∧ e.title = p.title ∧ e.fullContent = p.redactedContent ∧
      e.contentHash = p.contentHash := by
  rw [upsertMemory_entities]
  unfold EntityTable.upsert
  cases existing : db.entities.find id with
  | none =>
    rw [existing] at kept
    obtain rfl := Option.some.inj kept
    rw [dif_pos existing]
    exact ⟨{ p.columns now core with id := id }, (EntityTable.find_append id).trans (if_pos rfl), rfl, rfl, rfl, rfl⟩
  | some old =>
    have found := keepCopy_find kept existing
    rw [dif_neg (by simp [found])]
    exact ⟨{ old with toEntityColumns := p.update now core old.toEntityColumns }, by rw [EntityTable.find_updateId, found]; simp,
      rfl, rfl, rfl, rfl⟩

theorem keepCopy_homed (homed : Homed except db) (kept : db.keepCopy p existing drawn = some U) : Homed except U := by
  rcases keepCopy_cases kept with rfl | ⟨old, free, _, rfl⟩
  · exact homed
  · exact .append free homed rfl rfl

theorem upsertMemory_homed (homed : Homed except db) : Homed except (db.upsertMemory p id existing now core) := by
  have entities : (db.upsertMemory p id existing now core).entities = _ := upsertMemory_entities
  unfold EntityTable.upsert at entities
  split at entities
  · exact .append _ homed upsertMemory_jobs entities
  · exact homed.update upsertMemory_jobs entities (fun _ _ _ => .inl rfl) fun _ allowed => allowed

theorem storeRaw_homed (homed : Homed except db) (stored : db.storeRaw env p drawn copyDrawn now core = some U)
    (allowed : ∀ old, db.entities.find (storeTarget p drawn) = some old → old.live = false → queuesWork env p (some old) = true →
      except (storeTarget p drawn)) : Homed except U := by
  obtain ⟨copied, kept, rfl⟩ := Option.map_eq_some_iff.mp stored
  obtain ⟨e, found, live, _⟩ := upsertMemory_find now core kept
  have written : Homed except (copied.upsertMemory p (storeTarget p drawn) (db.entities.find (storeTarget p drawn)) now core) :=
    upsertMemory_homed (keepCopy_homed homed kept)
  refine written.queues _ enqueueRawJobs_entities enqueueRawJobs_queues ?_
  rintro i ⟨rfl, queued⟩
  refine ⟨e, found, ?_⟩
  obtain ⟨_, own⟩ := EntityTable.find_some found
  rw [own, live]
  cases existing : db.entities.find (storeTarget p drawn) with
  | none => exact .inl rfl
  | some old =>
    rw [existing] at queued
    cases active : old.live with
    | true => exact .inl active
    | false => exact .inr (allowed old existing active queued)

theorem insertMemory_homed {e : Entity} {status : EmbeddingStatus} (homed : Homed except db)
    (inserted : db.insertMemory e status = some U) : Homed except U := by
  obtain ⟨free, rfl⟩ := insertMemory_some inserted
  exact .append free homed rfl rfl

theorem insertMemory_find {e : Entity} {status : EmbeddingStatus} (inserted : db.insertMemory e status = some U) :
    U.entities.find e.id = some e ∧ db.entities.find e.id = none := by
  obtain ⟨free, rfl⟩ := insertMemory_some inserted
  refine ⟨?_, free⟩
  show (db.entities.append e free).find e.id = some e
  rw [EntityTable.find_append, if_pos rfl]

theorem archiveWhere_homed {sel : Entity → Bool} {other : EntityId → Prop} (homed : Homed except db)
    (selected : ∀ e ∈ db.entities.rows, sel e = true → other e.id) (more : ∀ id, except id → other id) :
    Homed other (db.archiveWhere sel now) :=
  homed.update archiveWhere_jobs archiveWhere_entities (fun e here chosen => .inr (selected e here chosen)) more

theorem replace_homed {plan : ReplacementPlan} (homed : Homed except db) (replaced : db.replace env plan drawn core = some U) :
    Homed except U := by
  unfold EmbeddingDb.replace at replaced
  cases locked : replacementLockedSource db.store plan with
  | error e => simp [locked] at replaced
  | ok _ =>
    rw [locked] at replaced
    obtain ⟨inserted, there, rfl⟩ := Option.map_eq_some_iff.mp replaced
    obtain ⟨found, free⟩ := insertMemory_find there
    have apart : drawn.text ≠ plan.resolvedId := by
      intro same
      have missing : db.entities.find plan.resolvedId = none := same ▸ free
      simp [replacementLockedSource, store, missing] at locked
    have archived : Homed (fun i => except i ∨ i = plan.resolvedId)
        (inserted.archiveWhere (fun e => e.id == plan.resolvedId && e.status == .raw) plan.now) := by
      refine archiveWhere_homed (insertMemory_homed homed there) (fun e _ chosen => .inr ?_) fun _ => .inl
      rw [Bool.and_eq_true, beq_iff_eq] at chosen
      exact chosen.1
    have cancelled : Homed except ((inserted.archiveWhere (fun e => e.id == plan.resolvedId && e.status == .raw)
        plan.now).cancelArchived plan.now plan.resolvedId) := by
      refine archived.cancelArchived.mono ?_
      rintro i ⟨allowed | same, other⟩
      · exact allowed
      · exact absurd same other
    have row : ((inserted.archiveWhere (fun e => e.id == plan.resolvedId && e.status == .raw) plan.now).cancelArchived plan.now
        plan.resolvedId).entities.find drawn.text = some (plan.row drawn.text core) := by
      rw [cancelArchived_entities, archiveWhere_entities, EntityTable.find_updateWhere,
        show inserted.entities.find drawn.text = some (plan.row drawn.text core) from found, Option.map_some, Entity.setIf, if_neg]
      simp [ReplacementPlan.row, apart]
    refine Homed.clearArchived (cancelled.queues (· = drawn.text) ?_ ?_ ?_)
    · rw [enqueueRetrieval_entities, enqueueEmbeddingJobsForEntity_entities]
    · refine Queues.trans (Queues.enqueueEmbedding ?_) (Queues.enqueueRetrieval fun _ => ?_) <;> rfl
    · rintro i rfl
      exact ⟨_, row, .inl rfl⟩

theorem consolidateItem_homed {m : Merge} (homed : Homed except db) (merged : db.consolidateItem env m = some U) : Homed except U := by
  unfold EmbeddingDb.consolidateItem at merged
  split at merged
  · simp at merged
  · obtain ⟨inserted, there, rfl⟩ := Option.map_eq_some_iff.mp merged
    obtain ⟨found, _⟩ := insertMemory_find there
    have queued : Homed except (inserted.enqueueEmbeddingJobsForEntity env m.drawn.text m.plan.content.cleanTitle
        m.plan.content.redactedContent m.plan.content.contentHash m.now true).1 := by
      refine (insertMemory_homed homed there).queues (· = m.drawn.text) enqueueEmbeddingJobsForEntity_entities
        (.enqueueEmbedding rfl) ?_
      rintro i rfl
      exact ⟨_, found, .inl rfl⟩
    refine .cancelParents _ (archiveWhere_homed queued (fun e _ chosen => .inr ?_) fun _ => .inl)
    simpa using chosen

theorem consolidateItems_homed {items : List Merge} (homed : Homed except db) (merged : items.foldlM (consolidateItem env) db = some U) :
    Homed except U := by
  induction items generalizing db with
  | nil =>
    obtain rfl := Option.some.inj merged
    exact homed
  | cons m rest ih =>
    simp only [List.foldlM_cons, Option.bind_eq_bind, Option.bind_eq_some_iff] at merged
    obtain ⟨first, here, merged⟩ := merged
    exact ih (consolidateItem_homed homed here) merged

theorem consolidate_homed {items : List Merge} (homed : Homed except db) (merged : db.consolidate env items now = some U) :
    Homed except U := by
  obtain ⟨written, ran, rfl⟩ := Option.map_eq_some_iff.mp merged
  exact .foldl (fun _ _ homed => homed.clearArchived) _ (consolidateItems_homed homed ran)

theorem archive_homed (homed : Homed except db) : Homed except (db.archive id now) := by
  have archived : Homed (fun i => except i ∨ i = id) (db.archiveWhere (fun e => e.id == id && e.live) now) := by
    refine archiveWhere_homed homed (fun e _ chosen => .inr ?_) fun _ => .inl
    rw [Bool.and_eq_true, beq_iff_eq] at chosen
    exact chosen.1
  refine (archived.cancelled id (U := db.archive id now) (cancelled_ends now) (released_ends now) ?_ ?_).mono ?_
  · unfold EmbeddingDb.archive
    rw [cancelRetrievalEmbeddingJobsForEntity_entities, clearEmbeddingVectorsForEntity_entities,
      cancelEmbeddingJobsForEntity_entities]
  · unfold EmbeddingDb.archive
    rw [cancelRetrievalEmbeddingJobsForEntity_jobs, clearEmbeddingVectorsForEntity_jobs, cancelEmbeddingJobsForEntity_jobs]
  · rintro i ⟨allowed | same, other⟩
    · exact allowed
    · exact absurd same other

/-- The recovery queues for the memories of its page, which are active. -/
theorem reconcile_homed {limit : Nat} {afterId : Option EntityId} {clock : EntityId → Instant} (homed : Homed except db) :
    Homed except (db.reconcileEmbeddingJobs env limit afterId clock).1 := by
  have queues : Queues (fun i => ∃ e ∈ db.page limit afterId Entity.live, e.id = i) db.jobs
      (db.reconcileEmbeddingJobs env limit afterId clock).1.jobs := by
    refine Queues.foldl (fun d e member => ?_) db
    unfold reconcileEntity
    split
    · exact .refl _ _
    · exact .enqueueEmbedding ⟨e, member, rfl⟩
  refine homed.queues _ reconcileEmbeddingJobs_entities queues ?_
  rintro i ⟨e, member, rfl⟩
  obtain ⟨here, live⟩ := mem_page member
  exact ⟨e, EntityTable.find_mem here, .inl live⟩

theorem reconcileRetrieval_homed {limit : Nat} {afterId : Option EntityId} {clock : EntityId → Instant} (homed : Homed except db) :
    Homed except (db.reconcileRetrievalEmbeddingJobs env limit afterId clock).1 := by
  have queues : Queues (fun i => ∃ e ∈ db.page limit afterId (hasRetrieval env), e.id = i) db.jobs
      (db.reconcileRetrievalEmbeddingJobs env limit afterId clock).1.jobs :=
    Queues.foldl (fun d e member => .enqueueRetrieval fun _ => ⟨e, member, rfl⟩) db
  refine homed.queues _ reconcileRetrievalEmbeddingJobs_entities queues ?_
  rintro i ⟨e, member, rfl⟩
  obtain ⟨here, given⟩ := mem_page member
  simp only [hasRetrieval, Bool.and_eq_true] at given
  exact ⟨e, EntityTable.find_mem here, .inl given.1.1⟩

/-! ### What a store queues is there -/

theorem queueAgain_queued (T : JobTable) (key : JobKey) (now : Instant) : ∃ j ∈ (T.queueAgain key now).rows, j.key = key ∧ j.state = .queued := by
  unfold JobTable.queueAgain
  split
  · exact ⟨_, JobTable.mem_insert.mpr (.inr rfl), rfl, rfl⟩
  · rename_i taken
    obtain ⟨j, found⟩ := Option.ne_none_iff_exists'.mp taken
    obtain ⟨here, rfl⟩ := JobTable.findKey_some found
    refine ⟨_, JobTable.mem_updateWhere.mpr ⟨j, here, rfl⟩, Job.setIf_key .., ?_⟩
    rw [Job.setIf_of _ (by simp)]
    rfl

/-- A live job of the memory. -/
def Working (id : EntityId) (db : EmbeddingDb ν) : Prop := ∃ j ∈ db.jobs.rows, j.key.entityId = id ∧ j.state.live = true

theorem enqueueRetrieval_working {text : Option String} (hashed : ((retrievalHash env text).filter (· ≠ "")).isSome = true) :
    (db.enqueueRetrievalEmbeddingJobForEntity id text (retrievalHash env text) now true).1.Working id := by
  obtain ⟨hash, given⟩ := Option.isSome_iff_exists.mp hashed
  unfold Working
  rw [enqueueRetrieval_eq, given]
  dsimp only
  rw [enqueueRetrievalKey_jobs, if_pos rfl]
  obtain ⟨j, here, key, state⟩ := queueAgain_queued (db.jobs.updateWhere (staleJob ⟨id, .retrieval, hash⟩) (released now))
    ⟨id, .retrieval, hash⟩ now
  exact ⟨j, here, by rw [key], by rw [state]; rfl⟩

/-- The chunk job is queued last, and no retrieval statement reaches it. -/
theorem enqueueEmbedding_working (env : Env) (db : EmbeddingDb ν) (id : EntityId) (title content contentHash : String) (now : Instant) :
    ∃ j ∈ (db.enqueueEmbeddingJobsForEntity env id title content contentHash now true).1.jobs.rows,
      j.key = ⟨id, .chunk, contentHash⟩ ∧ j.state = .queued := by
  rw [enqueueEmbeddingJobsForEntity_jobs, enqueueKind_forced, enqueueKind_forced]
  exact queueAgain_queued _ _ now

theorem enqueueRawJobs_working (db : EmbeddingDb ν) (id : EntityId) (now : Instant) (queued : queuesWork env p existing = true) :
    (db.enqueueRawJobs env p id existing now).Working id := by
  unfold enqueueRawJobs
  dsimp only
  cases given : enqueuedRetrieval p existing with
  | none =>
    have changed : p.sourceChanged existing = true := by simpa [queuesWork, given] using queued
    obtain ⟨j, here, key, state⟩ := db.enqueueEmbedding_working env id p.title p.redactedContent p.contentHash now
    rw [if_pos changed]
    exact ⟨j, here, by rw [key], by rw [state]; rfl⟩
  | some text =>
    dsimp only
    cases hashed : (retrievalHash env text).filter (· ≠ "") with
    | some hash => exact enqueueRetrieval_working (by rw [hashed]; rfl)
    | none =>
      have changed : p.sourceChanged existing = true := by
        simp only [queuesWork, given, Option.any_some, hashed, Option.isSome_none, Bool.or_false] at queued
        exact queued
      obtain ⟨j, here, key, state⟩ := db.enqueueEmbedding_working env id p.title p.redactedContent p.contentHash now
      rw [if_pos changed]
      unfold Working
      rw [enqueueRetrieval_eq, hashed]
      dsimp only
      rw [cancelRetrievalEmbeddingJobsForEntity_jobs]
      refine ⟨j, JobTable.mem_updateWhere.mpr ⟨j, here, Job.setIf_of_not _ ?_⟩, by rw [key], by rw [state]; rfl⟩
      simp [liveJobOf, key]

/-- A store that gives an archived memory work leaves it with a live job. -/
theorem storeRaw_requeued (stored : db.storeRaw env p drawn copyDrawn now core = some U) {old : Entity}
    (found : db.entities.find (storeTarget p drawn) = some old) (archived : old.live = false)
    (queued : queuesWork env p (some old) = true) :
    ∃ j ∈ U.jobs.rows, j.state.live = true ∧ ∃ e, U.entities.find j.key.entityId = some e ∧ e.live = false := by
  obtain ⟨copied, kept, rfl⟩ := Option.map_eq_some_iff.mp stored
  obtain ⟨e, there, live, _⟩ := upsertMemory_find now core kept
  rw [found] at there live ⊢
  obtain ⟨j, here, own, running⟩ := enqueueRawJobs_working (copied.upsertMemory p (storeTarget p drawn) (some old) now core)
    (storeTarget p drawn) now queued
  refine ⟨j, here, running, e, ?_, by simpa [archived] using live⟩
  rw [enqueueRawJobs_entities, own]
  exact there

end EmbeddingDb

/-! ### The runs -/

namespace EmbeddingSystem

variable {s : EmbeddingSystem ν} {except : EntityId → Prop}

/-- No job that is queued, running or waiting for a retry is of an archived memory. -/
def ArchivedIdle (s : EmbeddingSystem ν) : Prop :=
  ∀ j ∈ s.db.jobs.rows, j.state.live = true → ∀ e, s.db.entities.find j.key.entityId = some e → e.live = true

/-- A store addressed to an archived memory, where it is not refused for the id of its copy, gives it no work. -/
def LeavesArchived (env : Env) (step : EmbeddingStep) (s : EmbeddingSystem ν) : Prop :=
  match step with
  | .store p drawn copyDrawn _ _ => ∀ old, s.db.entities.find (storeTarget p drawn) = some old → old.live = false →
      (s.db.keepCopy p (some old) copyDrawn).isSome = true → queuesWork env p (some old) = false
  | _ => True

theorem report_homed {k : Nat} {f : Snapshot → EmbeddingDb ν} (homed : Homed except s.db)
    (each : ∀ snapshot, Homed except (f snapshot)) : Homed except (s.report k f).db := by
  rcases s.report_cases k f with kept | ⟨c, _, _, reported⟩
  · rwa [kept]
  · rw [reported]
    exact each c.snapshot

theorem next_homed (env : Env) (model : EmbeddingModel ν) (homed : Homed except s.db) (step : EmbeddingStep)
    (allowed : LeavesArchived env step s ∨ ∀ id, except id) : Homed except (s.next env model step).db := by
  have refused : ∀ {o : Option (EmbeddingDb ν)}, (∀ U, o = some U → Homed except U) → Homed except (o.getD s.db) := by
    intro o committed
    cases o with
    | none => exact homed
    | some U => exact committed U rfl
  cases step with
  | store p drawn copyDrawn now core =>
    refine refused fun U stored => storeRaw_homed homed stored fun old found archived queued => ?_
    rcases allowed with leaves | all
    · obtain ⟨copied, kept, _⟩ := Option.map_eq_some_iff.mp stored
      rw [found] at kept
      have idle := leaves old found archived (by rw [kept]; rfl)
      simp [idle] at queued
    · exact all _
  | replace plan drawn core => exact refused fun U replaced => replace_homed homed replaced
  | consolidate items now => exact refused fun U merged => consolidate_homed homed merged
  | archive id now => exact archive_homed homed
  | reconcile limit afterId now => exact reconcile_homed homed
  | reconcileRetrieval limit afterId now => exact reconcileRetrieval_homed homed
  | claim now leaseFrom => exact homed.worked claimAny_entities .claimAny
  | persist k now => exact report_homed homed fun snapshot => homed.worked persistResult_entities .persistResult
  | fail k error now dueFrom =>
    refine report_homed homed fun snapshot => ?_
    exact refused fun U retried => homed.worked (retry_entities retried) (.retry retried)

theorem archivedIdle_iff (here : Homed (fun _ => True) s.db) : s.ArchivedIdle ↔ Homed (fun _ => False) s.db :=
  ⟨fun idle => ⟨here.here, fun j member live e found => .inl (idle j member live e found)⟩,
    fun homed j member live e found => (homed.active j member live e found).resolve_right id⟩

/-- A transaction gives an archived memory work exactly where it is a store that does. -/
theorem next_archivedIdle (env : Env) (model : EmbeddingModel ν) (step : EmbeddingStep) (here : Homed (fun _ => True) s.db)
    (idle : s.ArchivedIdle) : (s.next env model step).ArchivedIdle ↔ LeavesArchived env step s := by
  constructor
  · intro later
    cases step with
    | store p drawn copyDrawn now core =>
      intro old found archived kept
      obtain ⟨copied, kept⟩ := Option.isSome_iff_exists.mp kept
      by_contra queued
      obtain ⟨U, stored⟩ : ∃ U, s.db.storeRaw env p drawn copyDrawn now core = some U := by
        unfold storeRaw
        dsimp only
        rw [found, kept]
        exact ⟨_, rfl⟩
      obtain ⟨j, there, live, e, home, gone⟩ := storeRaw_requeued stored found archived (Bool.eq_true_of_not_eq_false queued)
      have after : (s.next env model (.store p drawn copyDrawn now core)).db = U := by
        simp only [next, stored, Option.getD_some]
      have active := later j (by rw [after]; exact there) live e (by rw [after]; exact home)
      simp [gone] at active
    | _ => trivial
  · intro allowed
    exact (archivedIdle_iff (next_homed env model here step (.inr fun _ => trivial))).mpr
      (next_homed env model ((archivedIdle_iff here).mp idle) step (.inl allowed))

/-- In a run no archived memory ever has a live job exactly where no store gives one work. -/
theorem archivedIdle_exact_iff (env : Env) (model : EmbeddingModel ν) (entities : EntityTable)
    (embeddingStatus : EntityId → EmbeddingStatus) (steps : List EmbeddingStep) :
    (∀ s ∈ Runs.states (next env model) steps (initial entities embeddingStatus), s.ArchivedIdle) ↔
      Runs.Guarded (next env model) (LeavesArchived env) steps (initial entities embeddingStatus) := by
  refine Runs.states_iff_guarded (E := fun s : EmbeddingSystem ν => Homed (fun _ => True) s.db) (fun s step here => ?_)
    (fun s step here idle => next_archivedIdle env model step here idle) ?_ ?_
  · exact next_homed env model here step (.inr fun _ => trivial)
  · exact ⟨by simp [initial, JobTable.empty], by simp [initial, JobTable.empty]⟩
  · simp [ArchivedIdle, initial, JobTable.empty]

end EmbeddingSystem

def guideTable : EntityTable := ⟨[memoryRow "guide" "Guide" "Read the manual."], by decide⟩

/-- The memory again, with a retrieval text. -/
def guideRetrieval : StoreRequest where
  content := some "Read the manual."
  title := some "Guide"
  retrievalText := .text "manual"
  tags := none
  agentId := some "agent"
  contextId := none
  scope := "shared"
  entityId := some "guide"
  core := ⟨none, none, none, none, none⟩
  memoryType := none
  metadata := none

def guideProposal : StoreProposal where
  resolvedEntityId := some "guide"
  redactedContent := "Read the manual."
  title := "Guide"
  tags := none
  agentId := some "agent"
  scope := .shared
  memoryType := some .fact
  contextId := none
  core := ⟨none, none, none, none, none⟩
  metadata := none
  contentHash := "Read the manual."
  retrievalText := some (some "manual")
  skipScdHistory := true

def drawnFirst : Uuid := ⟨"00000001", by decide⟩

namespace EmbeddingSystem

def guideStart : EmbeddingSystem String := initial guideTable fun _ => .ready

def guideSteps : List EmbeddingStep :=
  [.archive "guide" 1, .store guideProposal drawnFirst drawnFirst 2 ⟨false, false, false, none, none, none, [], []⟩]

/-- The request is prepared for the archived memory itself, and its retrieval text is queued. -/
theorem guide_requeued : prepareStore Env.plain (guideStart.db.archive "guide" 1).store 2 "preview" guideRetrieval = .ok guideProposal ∧
    ¬ ∀ s ∈ Runs.states (next Env.plain .plain) guideSteps guideStart, s.ArchivedIdle := by
  refine ⟨by decide, fun idle => ?_⟩
  have last := idle (guideSteps.foldl (next Env.plain .plain) guideStart) (by simp [Runs.states, guideSteps])
  have queued : ∃ j ∈ (guideSteps.foldl (next Env.plain .plain) guideStart).db.jobs.rows, j.state.live = true ∧
      ((guideSteps.foldl (next Env.plain .plain) guideStart).db.entities.find j.key.entityId).any (fun e => !e.live) = true := by
    decide
  obtain ⟨j, here, live, archived⟩ := queued
  cases found : (guideSteps.foldl (next Env.plain .plain) guideStart).db.entities.find j.key.entityId with
  | none => simp [found] at archived
  | some e =>
    have active := last j here live e found
    simp [found, active] at archived

end EmbeddingSystem
end SaltMdb
