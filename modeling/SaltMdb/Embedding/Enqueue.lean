import Mathlib.Data.String.Basic
import SaltMdb.Library.Paging
import SaltMdb.Embedding.Jobs
import SaltMdb.Search.Channels

/-! What queues and cancels embedding work, and the recovery that fills its gaps. -/

namespace SaltMdb

/-- The memories, their vectors and the work on them. `embeddingStatus` is a column of `entities`. -/
structure EmbeddingDb (ν : Type) where
  entities : EntityTable
  embeddingStatus : EntityId → EmbeddingStatus
  jobs : JobTable
  entityEmbeddings : List (EntityEmbedding ν)
  chunkEmbeddings : List (ChunkEmbedding ν)
  retrievalEmbeddings : List (RetrievalEmbedding ν)

variable (env : Env) {ν : Type}

/-- `_retrieval_text_hash`, which fills the column of that name. -/
def retrievalHash : Option String → Option String
  | none => none
  | some text => if text = "" then none else some (env.retrievalTextHash text)

/-- What the kind of job is computed from, as a memory spells it now. -/
def currentHash (kind : JobKind) (e : Entity) : Option String :=
  match kind with
  | .entity => some (env.entitySourceHash e.title e.fullContent)
  | .chunk => some e.contentHash
  | .retrieval => retrievalHash env e.retrievalText

namespace EmbeddingDb

variable (db : EmbeddingDb ν)

def setJobs (f : JobTable → JobTable) : EmbeddingDb ν := { db with jobs := f db.jobs }

def setStatus (id : EntityId) (status : EmbeddingStatus) : EmbeddingDb ν :=
  { db with embeddingStatus := Function.update db.embeddingStatus id status }

/-- `UPDATE entities SET embedding_status='pending' WHERE id=? AND status != 'archived'`. -/
def setPending (id : EntityId) : EmbeddingDb ν :=
  if (db.entities.find id).any Entity.live then db.setStatus id .pending else db

/-! ### Cancelling -/

/-- `SET state='cancelled', updated_at=?, completed_at=?`. -/
def cancelled (now : Instant) (c : JobColumns) : JobColumns :=
  { c with state := .cancelled, updatedAt := now, completedAt := some now }

/-- The same with `lease_expires_at=NULL`. -/
def released (now : Instant) (c : JobColumns) : JobColumns := { cancelled now c with leaseExpiresAt := none }

/-- The live jobs of a memory, of the kinds that a table has. -/
def liveJobOf (id : EntityId) (kinds : JobKind → Bool) (j : Job) : Bool :=
  j.key.entityId == id && kinds j.key.kind && j.state.live

def cancelEmbeddingJobsForEntity (id : EntityId) (now : Instant) : EmbeddingDb ν :=
  db.setJobs (·.updateWhere (liveJobOf id (· != .retrieval)) (cancelled now))

def deleteRetrievalEmbedding (id : EntityId) : EmbeddingDb ν :=
  { db with retrievalEmbeddings := db.retrievalEmbeddings.filter (·.entityId != id) }

def cancelRetrievalEmbeddingJobsForEntity (id : EntityId) (now : Instant) (clearVector : Bool) : EmbeddingDb ν :=
  let cancelled := db.setJobs (·.updateWhere (liveJobOf id (· == .retrieval)) (released now))
  if clearVector then cancelled.deleteRetrievalEmbedding id else cancelled

def clearEmbeddingVectorsForEntity (id : EntityId) : EmbeddingDb ν :=
  { db with
    entityEmbeddings := db.entityEmbeddings.filter (·.entityId != id)
    chunkEmbeddings := db.chunkEmbeddings.filter (·.entityId != id) }

/-! ### Queueing -/

/-- The live jobs of another source than the memory's. -/
def staleJob (key : JobKey) (j : Job) : Bool := liveJobOf key.entityId (· == key.kind) j && j.key.sourceHash != key.sourceHash

/-- One kind's turn in the loop: the table, and whether a row was touched. -/
def enqueueKind (T : JobTable) (key : JobKey) (now : Instant) (force : Bool) : JobTable × Bool :=
  let current := T.updateWhere (staleJob key) (cancelled now)
  if force then (current.queueAgain key now, true)
  else (current.queueMissing key now, T.rows.any (staleJob key) || (current.findKey key).isNone)

def enqueueEmbeddingJobsForEntity (id : EntityId) (title content contentHash : String) (now : Instant) (force : Bool) :
    EmbeddingDb ν × Bool :=
  let (first, entityChanged) := enqueueKind db.jobs ⟨id, .entity, env.entitySourceHash title content⟩ now force
  let (second, chunkChanged) := enqueueKind first ⟨id, .chunk, contentHash⟩ now force
  let queued := { db with jobs := second }
  if entityChanged || chunkChanged then (queued.setPending id, true) else (queued, false)

/-- A job of this very source has succeeded. -/
def preservedSucceeded (key : JobKey) : Bool := (db.jobs.findKey key).any (·.state == .succeeded)

/-- The work of an independent retrieval text, under a key with its hash. -/
def enqueueRetrievalKey (key : JobKey) (now : Instant) (force : Bool) : EmbeddingDb ν × Bool :=
  let current := db.setJobs (·.updateWhere (staleJob key) (released now))
  let cleared := if force || !db.preservedSucceeded key then current.deleteRetrievalEmbedding key.entityId else current
  if force then (cleared.setJobs (·.queueAgain key now), true)
  else (cleared.setJobs (·.queueMissing key now), db.jobs.rows.any (staleJob key) || (current.jobs.findKey key).isNone)

def enqueueRetrievalEmbeddingJobForEntity (id : EntityId) (retrievalText retrievalTextHash : Option String) (now : Instant)
    (force : Bool) : EmbeddingDb ν × Bool :=
  match retrievalText.filter (· ≠ ""), retrievalTextHash.filter (· ≠ "") with
  | some _, some hash => db.enqueueRetrievalKey ⟨id, .retrieval, hash⟩ now force
  | _, _ => (db.cancelRetrievalEmbeddingJobsForEntity id now true, db.jobs.rows.any (liveJobOf id (· == .retrieval)))

/-! ### Recovery -/

/-- The selected memories, `ORDER BY id`. -/
def selected (sel : Entity → Bool) : List Entity := (Paging.inOrder Entity.id db.entities.rows).filter sel

/-- `AND id > ? ORDER BY id LIMIT ?`, where an empty `after_id` is none. -/
def page (limit : Nat) (afterId : Option EntityId) (sel : Entity → Bool) : List Entity :=
  Paging.page Entity.id limit (afterId.filter (· ≠ "")) (db.selected sel)

/-- The clock is read at each memory's turn. -/
def reconcileEntity (now : EntityId → Instant) (db : EmbeddingDb ν) (e : Entity) : EmbeddingDb ν :=
  if e.contentHash = "" then db
  else (db.enqueueEmbeddingJobsForEntity env e.id e.title e.fullContent e.contentHash (now e.id) false).1

def reconcileEmbeddingJobs (limit : Nat) (afterId : Option EntityId) (now : EntityId → Instant) :
    EmbeddingDb ν × List EntityId :=
  let rows := db.page limit afterId Entity.live
  (rows.foldl (reconcileEntity env now) db, rows.map (·.id))

def reconcileRetrieval (now : EntityId → Instant) (db : EmbeddingDb ν) (e : Entity) : EmbeddingDb ν :=
  (db.enqueueRetrievalEmbeddingJobForEntity e.id e.retrievalText (retrievalHash env e.retrievalText) (now e.id) false).1

/-- `status != 'archived' AND retrieval_text IS NOT NULL AND retrieval_text_hash IS NOT NULL`. -/
def hasRetrieval (e : Entity) : Bool := e.live && e.retrievalText.isSome && (retrievalHash env e.retrievalText).isSome

def reconcileRetrievalEmbeddingJobs (limit : Nat) (afterId : Option EntityId) (now : EntityId → Instant) :
    EmbeddingDb ν × List EntityId :=
  let rows := db.page limit afterId (hasRetrieval env)
  (rows.foldl (reconcileRetrieval env now) db, rows.map (·.id))

/-- Both loops, one transaction a page: the memories and the retrieval texts that were seen, or `none` where the fuel runs out
first. -/
def reconcileAllEmbeddingJobs (pageSize : Nat) (now later : Nat → EntityId → Instant) (fuel : Nat) : Option (EmbeddingDb ν × Nat × Nat) := do
  let (repaired, entities) ←
    Paging.sweep (fun turn afterId db => db.reconcileEmbeddingJobs env pageSize afterId (now turn)) fuel 0 none db
  let (finished, retrievalRows) ←
    Paging.sweep (fun turn afterId db => db.reconcileRetrievalEmbeddingJobs env pageSize afterId (later turn)) fuel 0 none repaired
  return (finished, entities, retrievalRows)

/-- One of the three selections of `EMBEDDING_RECOVERY_GAP_SQL` has the memory. -/
def recoveryGap (e : Entity) : Bool :=
  e.live &&
    (e.contentHash != "" && (db.jobs.findKey ⟨e.id, .chunk, e.contentHash⟩).isNone ||
      e.contentHash != "" && !db.jobs.rows.any (fun j => j.key.entityId == e.id && j.key.kind == .entity) ||
      ((retrievalHash env e.retrievalText).filter (· ≠ "")).any fun hash => (db.jobs.findKey ⟨e.id, .retrieval, hash⟩).isNone)

def embeddingRecoveryGapCount : Nat := (db.entities.rows.filter (db.recoveryGap env)).length

end EmbeddingDb
end SaltMdb
