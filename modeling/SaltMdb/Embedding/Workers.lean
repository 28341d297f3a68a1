import SaltMdb.Embedding.Enqueue

/-! What the embedding workers do: claim a job, compute outside the database, and store the result or report a failure. -/

namespace SaltMdb

/-- The model, as a function of its text. -/
structure EmbeddingModel (ν : Type) where
  embedText : String → ν
  chunkEmbeddings : String → List ν

/-- What a claim returns: the job, and the row of its memory as the claim read it. -/
structure Snapshot where
  id : JobId
  entityId : EntityId
  jobKind : JobKind
  sourceHash : String
  attemptCount : Nat
  source : Entity
deriving DecidableEq

namespace EmbeddingDb

variable (env : Env) {ν : Type} (model : EmbeddingModel ν) (db : EmbeddingDb ν)

/-! ### Claiming -/

/-- `len(EMBEDDING_RETRY_DELAYS_S)`. -/
def maxAttempts : Nat := embeddingRetryDelaysS.length

def leaseExpired (kinds : JobKind → Bool) (now : Instant) (j : Job) : Bool :=
  kinds j.key.kind && j.state == .running && j.leaseExpiresAt.any fun lease => decide (lease < now)

def expiredForGood (now : Instant) (c : JobColumns) : JobColumns :=
  { c with
    state := .failed
    lastError := some "embedding lease expired after retry limit"
    updatedAt := now
    completedAt := some now
    leaseExpiresAt := none }

def expiredForNow (now : Instant) (c : JobColumns) : JobColumns :=
  { c with
    state := .retryWait
    nextAttemptAt := some now
    leaseExpiresAt := none
    updatedAt := now }

/-- A crashed worker consumed its attempt: the last one fails the job. -/
def expireLeases (kinds : JobKind → Bool) (now : Instant) (T : JobTable) : JobTable :=
  (T.updateWhere (fun j => leaseExpired kinds now j && decide (maxAttempts ≤ j.attemptCount)) (expiredForGood now)).updateWhere
    (leaseExpired kinds now) (expiredForNow now)

/-- `ORDER BY COALESCE(next_attempt_at, created_at), created_at, id`. -/
def dueBefore (idText : JobId → String) (a b : Job) : Bool :=
  let first := (a.nextAttemptAt.getD a.createdAt, a.createdAt, idText a.id)
  let second := (b.nextAttemptAt.getD b.createdAt, b.createdAt, idText b.id)
  decide (first.1 < second.1) || decide (first.1 = second.1) &&
    (decide (first.2.1 < second.2.1) || decide (first.2.1 = second.2.1) && decide (first.2.2 < second.2.2))

/-- The row that `LIMIT 1` takes. -/
def firstDue (idText : JobId → String) : List (Job × Entity) → Option (Job × Entity)
  | [] => none
  | candidate :: rest =>
    match firstDue idText rest with
    | none => some candidate
    | some best => if dueBefore idText best.1 candidate.1 then some best else some candidate

/-- The jobs that may be claimed, joined with their memories. -/
def claimable (kinds : JobKind → Bool) (eligible : Job → Entity → Bool) (now : Instant) : List (Job × Entity) :=
  db.jobs.rows.filterMap fun j =>
    if kinds j.key.kind && j.state.waiting && j.nextAttemptAt.all fun due => decide (due ≤ now) then
      ((db.entities.find j.key.entityId).filter fun e => e.live && eligible j e).map fun e => (j, e)
    else none

/-- `SET state='running', attempt_count=attempt_count+1, lease_expires_at=?, updated_at=?`. -/
def leased (now leaseFrom : Instant) (c : JobColumns) : JobColumns :=
  { c with
    state := .running
    attemptCount := c.attemptCount + 1
    leaseExpiresAt := some (leaseFrom + seconds embeddingLeaseS)
    updatedAt := now }

def claimJob (kinds : JobKind → Bool) (eligible : Job → Entity → Bool) (idText : JobId → String) (now leaseFrom : Instant) :
    EmbeddingDb ν × Option Snapshot :=
  let swept := db.setJobs (expireLeases kinds now)
  match firstDue idText (swept.claimable kinds eligible now) with
  | none => (swept, none)
  | some (j, e) =>
    (swept.setJobs (·.updateWhere (·.id == j.id) (leased now leaseFrom)),
      some ⟨j.id, j.key.entityId, j.key.kind, j.key.sourceHash, j.attemptCount + 1, e⟩)

def claimEmbeddingJob (idText : JobId → String) (now leaseFrom : Instant) : EmbeddingDb ν × Option Snapshot :=
  db.claimJob (· != .retrieval) (fun _ _ => true) idText now leaseFrom

def claimRetrievalEmbeddingJob (idText : JobId → String) (now leaseFrom : Instant) : EmbeddingDb ν × Option Snapshot :=
  db.claimJob (· == .retrieval)
    (fun j e => e.retrievalText.isSome && retrievalHash env e.retrievalText == some j.key.sourceHash) idText now leaseFrom

/-- `_claim_any_embedding_job`: base work first. -/
def claimAnyEmbeddingJob (idText : JobId → String) (now leaseFrom : Instant) : EmbeddingDb ν × Option Snapshot :=
  match db.claimEmbeddingJob idText now leaseFrom with
  | (claimed, some s) => (claimed, some s)
  | (swept, none) => swept.claimRetrievalEmbeddingJob env idText now leaseFrom

/-! ### Storing a result -/

/-- `SET state='succeeded', …, last_error=NULL`. -/
def succeeded (now : Instant) (c : JobColumns) : JobColumns :=
  { c with
    state := .succeeded
    updatedAt := now
    completedAt := some now
    leaseExpiresAt := none
    lastError := none }

def finishJob (s : Snapshot) (now : Instant) : EmbeddingDb ν := db.setJobs (·.updateWhere (·.id == s.id) (succeeded now))

/-- The job is the snapshot's and running, and its memory is not archived. -/
def stillRunning (s : Snapshot) : Option Entity :=
  match db.jobs.find s.id with
  | none => none
  | some j =>
    if j.state == .running && j.key.sourceHash == s.sourceHash then (db.entities.find s.entityId).filter Entity.live else none

/-- `conn.execute(DELETE …)` and the insert of what was computed. -/
def writeEntityVector (s : Snapshot) : EmbeddingDb ν :=
  { db with
    entityEmbeddings := db.entityEmbeddings.filter (·.entityId != s.entityId) ++
      [⟨s.entityId, model.embedText (s.source.title ++ "\n\n" ++ s.source.fullContent)⟩] }

def writeChunkVectors (s : Snapshot) : EmbeddingDb ν :=
  { db with
    chunkEmbeddings := db.chunkEmbeddings.filter (·.entityId != s.entityId) ++
      (model.chunkEmbeddings s.source.fullContent).map fun v => ⟨s.entityId, v, s.sourceHash⟩ }

def writeRetrievalVector (s : Snapshot) : EmbeddingDb ν :=
  { db with
    retrievalEmbeddings := db.retrievalEmbeddings.filter (·.entityId != s.entityId) ++
      [⟨s.entityId, model.embedText (s.source.retrievalText.getD ""), s.sourceHash⟩] }

def persistEmbeddingIfCurrent (s : Snapshot) (now : Instant) : EmbeddingDb ν :=
  match db.stillRunning s with
  | none => db
  | some e =>
    if currentHash env s.jobKind e != some s.sourceHash then
      db.setJobs (·.updateWhere (fun j => j.id == s.id && j.state == .running) (released now))
    else if s.jobKind == .entity then ((db.writeEntityVector model s).setStatus s.entityId .ready).finishJob s now
    else (db.writeChunkVectors model s).finishJob s now

def persistRetrievalEmbeddingIfCurrent (s : Snapshot) (now : Instant) : EmbeddingDb ν :=
  match db.stillRunning s with
  | none => db
  | some e =>
    if (e.retrievalText.filter (· ≠ "")).isNone || retrievalHash env e.retrievalText != some s.sourceHash then db
    else (db.writeRetrievalVector model s).finishJob s now

/-- The worker stores with the function of its kind. -/
def persistResult (s : Snapshot) (now : Instant) : EmbeddingDb ν :=
  if s.jobKind == .retrieval then db.persistRetrievalEmbeddingIfCurrent env model s now
  else db.persistEmbeddingIfCurrent env model s now

/-! ### Failures -/

/-- `EMBEDDING_RETRY_DELAYS_S[i]`, where `-1` is the last entry: `none` is an `IndexError`. -/
def retryDelay (i : Int) : Option Int :=
  if 0 ≤ i then embeddingRetryDelaysS[i.toNat]? else if i = -1 then embeddingRetryDelaysS.getLast? else none

def failedForGood (error : String) (now : Instant) (c : JobColumns) : JobColumns :=
  { c with
    state := .failed
    lastError := some (.ofList (error.toList.take 2000))
    updatedAt := now
    completedAt := some now
    leaseExpiresAt := none }

def failedForNow (error : String) (now due : Instant) (c : JobColumns) : JobColumns :=
  { c with
    state := .retryWait
    nextAttemptAt := some due
    lastError := some (.ofList (error.toList.take 2000))
    updatedAt := now
    leaseExpiresAt := none }

/-- `_retry_embedding_job` and its sibling: `none` where the delay table has no such entry. -/
def retryEmbeddingJob (id : JobId) (error : String) (now dueFrom : Instant) : Option (EmbeddingDb ν) :=
  match db.jobs.find id with
  | none => some db
  | some j =>
    if j.state != .running then some db
    else if maxAttempts ≤ j.attemptCount then some (db.setJobs (·.updateWhere (·.id == id) (failedForGood error now)))
    else (retryDelay (j.attemptCount - 1)).map fun delay =>
      db.setJobs (·.updateWhere (·.id == id) (failedForNow error now (dueFrom + seconds delay)))

end EmbeddingDb
end SaltMdb
