import SaltMdb.Embedding.Workers
import SaltMdb.Library.Runs
import SaltMdb.Memory.Consolidate
import SaltMdb.Memory.Archive
import SaltMdb.Schema.Backfill

/-! The transactions that meet in the job tables: the memory services, the recovery, and any number of workers. -/

namespace SaltMdb

/-- What `str(uuid.uuid4())` gives: never an empty text. -/
structure Uuid where
  text : String
  nonempty : text ≠ ""
deriving DecidableEq

namespace EmbeddingDb

variable (env : Env) {ν : Type} (db : EmbeddingDb ν)

/-- The memories, as the checks of the services read them. -/
def store : Db := { Db.init with entities := db.entities }

/-! ### The memory services -/

def insertMemory (e : Entity) (status : EmbeddingStatus) : Option (EmbeddingDb ν) :=
  (db.entities.insert e).map fun inserted => { db with entities := inserted }.setStatus e.id status

/-- `proposal.resolved_entity_id or str(uuid.uuid4())`. -/
def storeTarget (p : StoreProposal) (drawn : Uuid) : EntityId := (p.resolvedEntityId.filter (· ≠ "")).getD drawn.text

/-- The copy of the row that an update is about to overwrite. -/
def keepCopy (p : StoreProposal) (existing : Option Entity) (drawn : Uuid) : Option (EmbeddingDb ν) :=
  match existing with
  | none => some db
  | some old =>
    if p.skipScdHistory then some db else db.insertMemory (old.historyCopy (.ofList (drawn.text.toList.take 8))) .archived

/-- The upsert, with the default of a new row's `embedding_status` and the trigger on an archived one's. -/
def upsertMemory (p : StoreProposal) (id : EntityId) (existing : Option Entity) (now : Instant) (core : CoreState) :
    EmbeddingDb ν :=
  let upserted := { db with entities := db.entities.upsert { p.columns now core with id := id } (p.update now core) }
  match existing with
  | none => upserted.setStatus id .pending
  | some old => if old.live then upserted else upserted.setStatus id .archived

/-- The text that a store gives to the retrieval jobs, where it gives them one. -/
def enqueuedRetrieval (p : StoreProposal) (existing : Option Entity) : Option (Option String) :=
  if p.retrievalText.isSome || existing.isNone then some (p.retrievalText.getD none) else none

def enqueueRawJobs (p : StoreProposal) (id : EntityId) (existing : Option Entity) (now : Instant) : EmbeddingDb ν :=
  let queued := if p.sourceChanged existing then
      (db.enqueueEmbeddingJobsForEntity env id p.title p.redactedContent p.contentHash now true).1
    else db
  match enqueuedRetrieval p existing with
  | none => queued
  | some text => (queued.enqueueRetrievalEmbeddingJobForEntity id text (retrievalHash env text) now true).1

/-- `_store_raw_entity`: `none` where a drawn id is taken. -/
def storeRaw (p : StoreProposal) (drawn copyDrawn : Uuid) (now : Instant) (core : CoreState) : Option (EmbeddingDb ν) :=
  let id := storeTarget p drawn
  let existing := db.entities.find id
  (db.keepCopy p existing copyDrawn).map fun copied =>
    (copied.upsertMemory p id existing now core).enqueueRawJobs env p id existing now

def archiveWhere (sel : Entity → Bool) (now : Instant) : EmbeddingDb ν :=
  { db with
    entities := db.entities.updateWhere sel (·.archive now)
    embeddingStatus := fun id => if (db.entities.find id).any sel then .archived else db.embeddingStatus id }

/-- The vectors go, and what is left of the retrieval work. -/
def clearArchived (now : Instant) (db : EmbeddingDb ν) (id : EntityId) : EmbeddingDb ν :=
  (db.clearEmbeddingVectorsForEntity id).cancelRetrievalEmbeddingJobsForEntity id now true

def cancelArchived (now : Instant) (db : EmbeddingDb ν) (id : EntityId) : EmbeddingDb ν :=
  (db.cancelEmbeddingJobsForEntity id now).cancelRetrievalEmbeddingJobsForEntity id now false

/-- `revise_memory` and `supersede_memory`: `none` where the locked target or the drawn id refuses. -/
def replace (plan : ReplacementPlan) (drawn : Uuid) (core : CoreState) : Option (EmbeddingDb ν) :=
  match replacementLockedSource db.store plan with
  | .error _ => none
  | .ok () =>
    (db.insertMemory (plan.row drawn.text core) .pending).map fun inserted =>
      let archived := inserted.archiveWhere (fun e => e.id == plan.resolvedId && e.status == .raw) plan.now
      let cancelled := archived.cancelArchived plan.now plan.resolvedId
      let queued := (cancelled.enqueueEmbeddingJobsForEntity env drawn.text plan.newTitle plan.newContent plan.contentHash
        plan.now true).1
      let queued := (queued.enqueueRetrievalEmbeddingJobForEntity drawn.text plan.retrievalText
        (retrievalHash env plan.retrievalText) plan.now true).1
      queued.clearArchived plan.now plan.resolvedId

/-- One merge of a batch, with what was drawn for it. -/
structure Merge where
  request : ConsolidationRequest
  plan : ConsolidationPlan
  drawn : Uuid
  now : Instant
  core : CoreState

def consolidateItem (db : EmbeddingDb ν) (m : Merge) : Option (EmbeddingDb ν) :=
  match consolidationRevalidate db.store m.plan with
  | .error _ => none
  | .ok () =>
    (db.insertMemory (consolidationRow m.request m.plan m.drawn.text m.now m.core) .pending).map fun inserted =>
      let queued := (inserted.enqueueEmbeddingJobsForEntity env m.drawn.text m.plan.content.cleanTitle
        m.plan.content.redactedContent m.plan.content.contentHash m.now true).1
      let archived := queued.archiveWhere (fun e => m.plan.resolvedParents.contains e.id) m.now
      m.plan.resolvedParents.foldl (cancelArchived m.now) archived

/-- `consolidate_memories` and its batch services: all items or none. -/
def consolidate (items : List Merge) (now : Instant) : Option (EmbeddingDb ν) :=
  (items.foldlM (consolidateItem env) db).map fun merged =>
    (items.flatMap (·.plan.resolvedParents)).foldl (clearArchived now) merged

def archive (id : EntityId) (now : Instant) : EmbeddingDb ν :=
  let archived := db.archiveWhere (fun e => e.id == id && e.live) now
  let cancelled := (archived.cancelEmbeddingJobsForEntity id now).clearEmbeddingVectorsForEntity id
  cancelled.cancelRetrievalEmbeddingJobsForEntity id now true

end EmbeddingDb

/-! ### Workers and services together -/

/-- A claim that was handed out, and whether its worker has come back. -/
structure WorkerClaim where
  snapshot : Snapshot
  reported : Bool
deriving DecidableEq

structure EmbeddingSystem (ν : Type) where
  db : EmbeddingDb ν
  claims : List WorkerClaim

/-- A transaction: of a service, of the recovery, or of the worker with the `k`-th claim. -/
inductive EmbeddingStep where
  | store (p : StoreProposal) (drawn copyDrawn : Uuid) (now : Instant) (core : CoreState)
  | replace (plan : ReplacementPlan) (drawn : Uuid) (core : CoreState)
  | consolidate (items : List EmbeddingDb.Merge) (now : Instant)
  | archive (id : EntityId) (now : Instant)
  | reconcile (limit : Nat) (afterId : Option EntityId) (now : EntityId → Instant)
  | reconcileRetrieval (limit : Nat) (afterId : Option EntityId) (now : EntityId → Instant)
  | claim (now leaseFrom : Instant)
  | persist (k : Nat) (now : Instant)
  | fail (k : Nat) (error : String) (now dueFrom : Instant)

namespace EmbeddingSystem

variable (env : Env) {ν : Type} (model : EmbeddingModel ν) (s : EmbeddingSystem ν)

/-- The worker that holds the claim and has not reported. -/
def worker (k : Nat) : Option Snapshot := (s.claims[k]?.filter fun c => !c.reported).map (·.snapshot)

/-- The report of the `k`-th claim: each claim has one. -/
def report (k : Nat) (f : Snapshot → EmbeddingDb ν) : EmbeddingSystem ν :=
  match s.worker k with
  | none => s
  | some snapshot => ⟨f snapshot, s.claims.modify k fun c => { c with reported := true }⟩

def grant (claimed : EmbeddingDb ν × Option Snapshot) : EmbeddingSystem ν :=
  ⟨claimed.1, s.claims ++ claimed.2.toList.map fun snapshot => ⟨snapshot, false⟩⟩

/-- A transaction that raises leaves the database as it was. -/
def next (s : EmbeddingSystem ν) : EmbeddingStep → EmbeddingSystem ν
  | .store p drawn copyDrawn now core => { s with db := (s.db.storeRaw env p drawn copyDrawn now core).getD s.db }
  | .replace plan drawn core => { s with db := (s.db.replace env plan drawn core).getD s.db }
  | .consolidate items now => { s with db := (s.db.consolidate env items now).getD s.db }
  | .archive id now => { s with db := s.db.archive id now }
  | .reconcile limit afterId now => { s with db := (s.db.reconcileEmbeddingJobs env limit afterId now).1 }
  | .reconcileRetrieval limit afterId now => { s with db := (s.db.reconcileRetrievalEmbeddingJobs env limit afterId now).1 }
  | .claim now leaseFrom => s.grant (s.db.claimAnyEmbeddingJob env env.uuid4 now leaseFrom)
  | .persist k now => s.report k fun snapshot => s.db.persistResult env model snapshot now
  | .fail k error now dueFrom => s.report k fun snapshot => (s.db.retryEmbeddingJob snapshot.id error now dueFrom).getD s.db

/-- The memories of a database in which the job tables have just been made. -/
def initial (entities : EntityTable) (embeddingStatus : EntityId → EmbeddingStatus) : EmbeddingSystem ν where
  db :=
    { entities := entities
      embeddingStatus := embeddingStatus
      jobs := .empty
      entityEmbeddings := []
      chunkEmbeddings := []
      retrievalEmbeddings := [] }
  claims := []

/-- The jobs that were claimed, in order. -/
def claimed : List JobId := s.claims.map (·.snapshot.id)

end EmbeddingSystem
end SaltMdb
