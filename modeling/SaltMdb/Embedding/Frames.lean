import SaltMdb.Embedding.System

/-! What each operation on the embedding state writes, and what it leaves alone. -/

namespace SaltMdb
namespace EmbeddingDb

variable {env : Env} {ν : Type} {model : EmbeddingModel ν} {db : EmbeddingDb ν} {f : JobTable → JobTable} {id : EntityId}
  {status : EmbeddingStatus} {now : Instant} {clearVector force : Bool} {key : JobKey}

section setters

@[simp] theorem setJobs_jobs : (db.setJobs f).jobs = f db.jobs := rfl
@[simp] theorem setJobs_entities : (db.setJobs f).entities = db.entities := rfl
@[simp] theorem setJobs_embeddingStatus : (db.setJobs f).embeddingStatus = db.embeddingStatus := rfl
@[simp] theorem setJobs_entityEmbeddings : (db.setJobs f).entityEmbeddings = db.entityEmbeddings := rfl
@[simp] theorem setJobs_chunkEmbeddings : (db.setJobs f).chunkEmbeddings = db.chunkEmbeddings := rfl
@[simp] theorem setJobs_retrievalEmbeddings : (db.setJobs f).retrievalEmbeddings = db.retrievalEmbeddings := rfl

@[simp] theorem setStatus_jobs : (db.setStatus id status).jobs = db.jobs := rfl
@[simp] theorem setStatus_entities : (db.setStatus id status).entities = db.entities := rfl
@[simp] theorem setStatus_entityEmbeddings : (db.setStatus id status).entityEmbeddings = db.entityEmbeddings := rfl
@[simp] theorem setStatus_chunkEmbeddings : (db.setStatus id status).chunkEmbeddings = db.chunkEmbeddings := rfl
@[simp] theorem setStatus_retrievalEmbeddings : (db.setStatus id status).retrievalEmbeddings = db.retrievalEmbeddings := rfl

@[simp] theorem setPending_jobs : (db.setPending id).jobs = db.jobs := by unfold setPending; split <;> rfl
@[simp] theorem setPending_entities : (db.setPending id).entities = db.entities := by unfold setPending; split <;> rfl
@[simp] theorem setPending_entityEmbeddings : (db.setPending id).entityEmbeddings = db.entityEmbeddings := by
  unfold setPending; split <;> rfl
@[simp] theorem setPending_chunkEmbeddings : (db.setPending id).chunkEmbeddings = db.chunkEmbeddings := by
  unfold setPending; split <;> rfl
@[simp] theorem setPending_retrievalEmbeddings : (db.setPending id).retrievalEmbeddings = db.retrievalEmbeddings := by
  unfold setPending; split <;> rfl

@[simp] theorem deleteRetrievalEmbedding_jobs : (db.deleteRetrievalEmbedding id).jobs = db.jobs := rfl
@[simp] theorem deleteRetrievalEmbedding_entities : (db.deleteRetrievalEmbedding id).entities = db.entities := rfl
@[simp] theorem clearEmbeddingVectorsForEntity_jobs : (db.clearEmbeddingVectorsForEntity id).jobs = db.jobs := rfl
@[simp] theorem clearEmbeddingVectorsForEntity_entities : (db.clearEmbeddingVectorsForEntity id).entities = db.entities := rfl

end setters

/-! ### The table -/

theorem cancelled_ends (now : Instant) (c : JobColumns) : (cancelled now c).state.live = false := rfl

theorem released_ends (now : Instant) (c : JobColumns) : (released now c).state.live = false := rfl

@[simp] theorem cancelEmbeddingJobsForEntity_jobs :
    (db.cancelEmbeddingJobsForEntity id now).jobs = db.jobs.updateWhere (liveJobOf id (· != .retrieval)) (cancelled now) := rfl

@[simp] theorem cancelRetrievalEmbeddingJobsForEntity_jobs :
    (db.cancelRetrievalEmbeddingJobsForEntity id now clearVector).jobs =
      db.jobs.updateWhere (liveJobOf id (· == .retrieval)) (released now) := by
  unfold cancelRetrievalEmbeddingJobsForEntity
  cases clearVector <;> rfl

@[simp] theorem enqueueKind_forced {T : JobTable} :
    enqueueKind T key now true = ((T.updateWhere (staleJob key) (cancelled now)).queueAgain key now, true) := rfl

@[simp] theorem enqueueKind_missing {T : JobTable} : (enqueueKind T key now false).1 =
    (T.updateWhere (staleJob key) (cancelled now)).queueMissing key now := rfl

@[simp] theorem enqueueEmbeddingJobsForEntity_jobs {title content contentHash : String} :
    (db.enqueueEmbeddingJobsForEntity env id title content contentHash now force).1.jobs =
      (enqueueKind (enqueueKind db.jobs ⟨id, .entity, env.entitySourceHash title content⟩ now force).1
        ⟨id, .chunk, contentHash⟩ now force).1 := by
  simp only [enqueueEmbeddingJobsForEntity]
  split <;> simp

@[simp] theorem enqueueRetrievalKey_jobs : (db.enqueueRetrievalKey key now force).1.jobs =
    if force then (db.jobs.updateWhere (staleJob key) (released now)).queueAgain key now
    else (db.jobs.updateWhere (staleJob key) (released now)).queueMissing key now := by
  unfold enqueueRetrievalKey
  cases force <;> simp only [Bool.false_eq_true, if_false, if_true] <;> split <;> rfl

/-- The text and its hash are there together or not at all. -/
theorem enqueueRetrieval_eq {text : Option String} {force : Bool} :
    db.enqueueRetrievalEmbeddingJobForEntity id text (retrievalHash env text) now force =
      match (retrievalHash env text).filter (· ≠ "") with
      | some hash => db.enqueueRetrievalKey ⟨id, .retrieval, hash⟩ now force
      | none => (db.cancelRetrievalEmbeddingJobsForEntity id now true, db.jobs.rows.any (liveJobOf id (· == .retrieval))) := by
  unfold enqueueRetrievalEmbeddingJobForEntity
  cases hashed : (retrievalHash env text).filter (· ≠ "") with
  | none => cases text.filter (· ≠ "") <;> rfl
  | some hash =>
    have given : ∃ t, text.filter (· ≠ "") = some t := by
      cases text with
      | none => simp [retrievalHash] at hashed
      | some t =>
        by_cases empty : t = ""
        · simp [retrievalHash, empty] at hashed
        · exact ⟨t, by simp [Option.filter, empty]⟩
    obtain ⟨t, given⟩ := given
    rw [given]

@[simp] theorem upsertMemory_jobs {p : StoreProposal} {existing : Option Entity} {core : CoreState} :
    (db.upsertMemory p id existing now core).jobs = db.jobs := by
  unfold upsertMemory
  cases existing with
  | none => rfl
  | some old => dsimp only; split <;> rfl

@[simp] theorem archiveWhere_jobs {sel : Entity → Bool} : (db.archiveWhere sel now).jobs = db.jobs := rfl

theorem insertMemory_some {e : Entity} {U : EmbeddingDb ν} (h : db.insertMemory e status = some U) :
    ∃ free, U = { db with entities := db.entities.append e free }.setStatus e.id status := by
  obtain ⟨inserted, there, rfl⟩ := Option.map_eq_some_iff.mp h
  obtain ⟨free, rfl⟩ := EntityTable.insert_some there
  exact ⟨free, rfl⟩

theorem insertMemory_jobs {e : Entity} {U : EmbeddingDb ν} (h : db.insertMemory e status = some U) : U.jobs = db.jobs := by
  obtain ⟨free, rfl⟩ := insertMemory_some h
  rfl

theorem keepCopy_cases {p : StoreProposal} {existing : Option Entity} {drawn : Uuid} {U : EmbeddingDb ν}
    (h : db.keepCopy p existing drawn = some U) : U = db ∨ ∃ old free, existing = some old ∧
      U = { db with entities := db.entities.append (old.historyCopy (.ofList (drawn.text.toList.take 8))) free }.setStatus
        (old.historyCopy (.ofList (drawn.text.toList.take 8))).id .archived := by
  unfold keepCopy at h
  cases existing with
  | none => exact .inl (Option.some.inj h).symm
  | some old =>
    dsimp only at h
    split at h
    · exact .inl (Option.some.inj h).symm
    · obtain ⟨free, rfl⟩ := insertMemory_some h
      exact .inr ⟨old, free, rfl, rfl⟩

theorem keepCopy_jobs {p : StoreProposal} {existing : Option Entity} {drawn : Uuid} {U : EmbeddingDb ν}
    (h : db.keepCopy p existing drawn = some U) : U.jobs = db.jobs := by
  rcases keepCopy_cases h with rfl | ⟨old, free, _, rfl⟩ <;> rfl

/-! ### The memories -/

@[simp] theorem cancelEmbeddingJobsForEntity_entities : (db.cancelEmbeddingJobsForEntity id now).entities = db.entities := rfl

@[simp] theorem cancelRetrievalEmbeddingJobsForEntity_entities :
    (db.cancelRetrievalEmbeddingJobsForEntity id now clearVector).entities = db.entities := by
  unfold cancelRetrievalEmbeddingJobsForEntity
  cases clearVector <;> rfl

@[simp] theorem enqueueEmbeddingJobsForEntity_entities {title content contentHash : String} :
    (db.enqueueEmbeddingJobsForEntity env id title content contentHash now force).1.entities = db.entities := by
  simp only [enqueueEmbeddingJobsForEntity]
  split <;> simp

@[simp] theorem enqueueRetrievalKey_entities : (db.enqueueRetrievalKey key now force).1.entities = db.entities := by
  unfold enqueueRetrievalKey
  cases force <;> simp only [Bool.false_eq_true, if_false, if_true] <;> split <;> rfl

@[simp] theorem enqueueRetrieval_entities {text hash : Option String} :
    (db.enqueueRetrievalEmbeddingJobForEntity id text hash now force).1.entities = db.entities := by
  unfold enqueueRetrievalEmbeddingJobForEntity
  split
  · simp
  · simp

@[simp] theorem reconcileEntity_entities {clock : EntityId → Instant} {e : Entity} :
    (reconcileEntity env clock db e).entities = db.entities := by
  unfold reconcileEntity
  split <;> simp

@[simp] theorem reconcileRetrieval_entities {clock : EntityId → Instant} {e : Entity} :
    (reconcileRetrieval env clock db e).entities = db.entities := enqueueRetrieval_entities

/-! ### Claims -/

theorem firstDue_mem {idText : JobId → String} {candidates : List (Job × Entity)} {c : Job × Entity}
    (first : firstDue idText candidates = some c) : c ∈ candidates := by
  induction candidates generalizing c with
  | nil => simp [firstDue] at first
  | cons candidate rest ih =>
    simp only [firstDue] at first
    cases later : firstDue idText rest with
    | none =>
      rw [later] at first
      obtain rfl := Option.some.inj first
      exact List.mem_cons_self
    | some best =>
      rw [later] at first
      dsimp only at first
      split at first
      · exact List.mem_cons_of_mem _ (Option.some.inj first ▸ ih later)
      · obtain rfl := Option.some.inj first
        exact List.mem_cons_self

theorem mem_claimable {kinds : JobKind → Bool} {eligible : Job → Entity → Bool} {j : Job} {e : Entity} :
    (j, e) ∈ db.claimable kinds eligible now ↔ j ∈ db.jobs.rows ∧ kinds j.key.kind = true ∧ j.state.waiting = true ∧
      (∀ due, j.nextAttemptAt = some due → due ≤ now) ∧ db.entities.find j.key.entityId = some e ∧ e.live = true ∧
      eligible j e = true := by
  unfold claimable
  rw [List.mem_filterMap]
  constructor
  · rintro ⟨k, here, given⟩
    split at given
    · rename_i may
      obtain ⟨e', found, pair⟩ := Option.map_eq_some_iff.mp given
      obtain ⟨rfl, rfl⟩ := Prod.mk.inj pair
      rw [Option.filter_eq_some_iff, Bool.and_eq_true] at found
      rw [Bool.and_eq_true, Bool.and_eq_true] at may
      refine ⟨here, may.1.1, may.1.2, fun due set => ?_, found.1, found.2.1, found.2.2⟩
      rw [set] at may
      simpa using may.2
    · simp at given
  · rintro ⟨here, mine, waiting, due, found, live, may⟩
    refine ⟨j, here, ?_⟩
    have ready : (j.nextAttemptAt.all fun due => decide (due ≤ now)) = true := by
      cases set : j.nextAttemptAt with
      | none => rfl
      | some at_ => simpa using due at_ set
    rw [if_pos (by simp [mine, waiting, ready]), found]
    simp [Option.filter, live, may]

/-- What a claim does: it ends the leases that have run out and, where a job is due, takes it. -/
theorem claimJob_cases (db : EmbeddingDb ν) (kinds : JobKind → Bool) (eligible : Job → Entity → Bool) (idText : JobId → String)
    (now leaseFrom : Instant) :
    db.claimJob kinds eligible idText now leaseFrom = (db.setJobs (expireLeases kinds now), none) ∨
    ∃ j e, (j, e) ∈ (db.setJobs (expireLeases kinds now)).claimable kinds eligible now ∧
      db.claimJob kinds eligible idText now leaseFrom =
        (db.setJobs fun T => (expireLeases kinds now T).updateWhere (·.id == j.id) (leased now leaseFrom),
          some ⟨j.id, j.key.entityId, j.key.kind, j.key.sourceHash, j.attemptCount + 1, e⟩) := by
  unfold claimJob
  dsimp only
  cases due : firstDue idText ((db.setJobs (expireLeases kinds now)).claimable kinds eligible now) with
  | none => exact .inl rfl
  | some c =>
    obtain ⟨j, e⟩ := c
    exact .inr ⟨j, e, firstDue_mem due, rfl⟩

/-! ### Results -/

theorem stillRunning_some {s : Snapshot} {e : Entity} (h : db.stillRunning s = some e) :
    ∃ j, db.jobs.find s.id = some j ∧ j.state = .running ∧ j.key.sourceHash = s.sourceHash ∧
      db.entities.find s.entityId = some e ∧ e.live = true := by
  unfold stillRunning at h
  cases found : db.jobs.find s.id with
  | none => simp [found] at h
  | some j =>
    rw [found] at h
    dsimp only at h
    split at h
    · rename_i running
      rw [Bool.and_eq_true, beq_iff_eq, beq_iff_eq] at running
      rw [Option.filter_eq_some_iff] at h
      exact ⟨j, rfl, running.1, running.2, h.1, h.2⟩
    · simp at h

/-- What a result does: nothing, a cancellation of its own stale job, or a vector and a finished job. -/
theorem persistResult_cases (env : Env) (model : EmbeddingModel ν) (db : EmbeddingDb ν) (s : Snapshot) (now : Instant) :
    db.persistResult env model s now = db ∨
    ∃ e, db.stillRunning s = some e ∧
      ((currentHash env s.jobKind e ≠ some s.sourceHash ∧ s.jobKind ≠ .retrieval ∧ db.persistResult env model s now =
          db.setJobs (·.updateWhere (fun j => j.id == s.id && j.state == .running) (released now))) ∨
        (currentHash env s.jobKind e = some s.sourceHash ∧
          ((s.jobKind = .entity ∧ db.persistResult env model s now =
              ((db.writeEntityVector model s).setStatus s.entityId .ready).finishJob s now) ∨
            (s.jobKind = .chunk ∧ db.persistResult env model s now = (db.writeChunkVectors model s).finishJob s now) ∨
            (s.jobKind = .retrieval ∧ db.persistResult env model s now = (db.writeRetrievalVector model s).finishJob s now)))) := by
  unfold persistResult persistRetrievalEmbeddingIfCurrent persistEmbeddingIfCurrent
  cases running : db.stillRunning s with
  | none => exact .inl (by split <;> rfl)
  | some e =>
    cases kind : s.jobKind with
    | entity =>
      refine .inr ⟨e, rfl, ?_⟩
      by_cases same : currentHash env .entity e = some s.sourceHash
      · exact .inr ⟨same, .inl ⟨rfl, by simp [same]⟩⟩
      · exact .inl ⟨same, by decide, by simp [same]⟩
    | chunk =>
      refine .inr ⟨e, rfl, ?_⟩
      by_cases same : currentHash env .chunk e = some s.sourceHash
      · exact .inr ⟨same, .inr (.inl ⟨rfl, by simp [same]⟩)⟩
      · exact .inl ⟨same, by decide, by simp [same]⟩
    | retrieval =>
      by_cases refused : ((e.retrievalText.filter (· ≠ "")).isNone ||
          retrievalHash env e.retrievalText != some s.sourceHash) = true
      · exact .inl (by simp only [beq_self_eq_true, if_true, if_pos refused])
      · refine .inr ⟨e, rfl, .inr ⟨?_, .inr (.inr ⟨rfl, by simp only [beq_self_eq_true, if_true, if_neg refused]⟩)⟩⟩
        rw [Bool.or_eq_true, not_or] at refused
        have same : retrievalHash env e.retrievalText = some s.sourceHash := by simpa using refused.2
        exact same

/-- What a failure does: nothing where the job is not running, and otherwise it counts against the limit. -/
theorem retryEmbeddingJob_cases (db : EmbeddingDb ν) (jobId : JobId) (error : String) (now dueFrom : Instant) :
    db.retryEmbeddingJob jobId error now dueFrom = some db ∨
    ∃ j, db.jobs.find jobId = some j ∧ j.state = .running ∧
      ((maxAttempts ≤ j.attemptCount ∧ db.retryEmbeddingJob jobId error now dueFrom =
          some (db.setJobs (·.updateWhere (·.id == jobId) (failedForGood error now)))) ∨
        (j.attemptCount < maxAttempts ∧ db.retryEmbeddingJob jobId error now dueFrom =
          (retryDelay (j.attemptCount - 1)).map fun delay =>
            db.setJobs (·.updateWhere (·.id == jobId) (failedForNow error now (dueFrom + seconds delay))))) := by
  unfold retryEmbeddingJob
  cases found : db.jobs.find jobId with
  | none => exact .inl rfl
  | some j =>
    dsimp only
    by_cases running : j.state = .running
    · refine .inr ⟨j, rfl, running, ?_⟩
      by_cases used : maxAttempts ≤ j.attemptCount
      · exact .inl ⟨used, by simp [running, used]⟩
      · exact .inr ⟨Nat.lt_of_not_le used, by simp [running, used]⟩
    · exact .inl (by simp [running])

end EmbeddingDb
end SaltMdb
