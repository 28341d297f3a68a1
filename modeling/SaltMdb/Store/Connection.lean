import SaltMdb.Library.Txn
import SaltMdb.Store.RelationTable
import SaltMdb.Store.EntityTable
import SaltMdb.Store.TagTable

/-! The database, the connection's transaction helpers, and the coordinator's job wrapper. -/

namespace SaltMdb
open Transactions

/-- What the services ask of code outside them: the clock and the id generator by their successive
readings, the timestamp codec, redaction, formatting, Unicode normalisation, hashing, the quality gate, the
regex class `\w`, fixed-point printing, and the embedding model through the cosine of two contents' chunk
centroids. -/
structure Env where
  clock : Nat → Instant
  uuid4 : Nat → EntityId
  isoformat : Instant → String
  parseIsoUtc : String → Option Instant
  redactSecrets : String → String
  autoFormatMarkdown : String → String
  normalizeNfkc : String → String
  computeContentHash : String → String
  entitySourceHash : String → String → String
  retrievalTextHash : String → String
  qualityHardErrors : String → List String
  isWordChar : Char → Bool
  formatFloat : Nat → Rat → String
  embeddable : String → Bool
  similarity : String → String → Rat

structure Db where
  entities : EntityTable
  relations : RelationTable
  predicates : List PredicateRow
  tags : TagTable
  events : List Event
  embeddingJobs : List EmbeddingJob
deriving DecidableEq

/-- How many clock readings and ids have been drawn. A rollback gives none of them back. -/
structure Supply where
  readings : Nat
  draws : Nat
deriving DecidableEq, Repr

inductive Exc where
  | runtimeError (message : String)
  | valueError (message : String)
  | integrityError (message : String)
  | attributeError (message : String)
  | coreDecisionRequired (message : String)
  | coreGovernanceRejected (message : String)
  | coreCapacityExceeded (error : Error)
  | lifecycleRejected (errors : List Error)
  | bulkItemRejected (errors : List Error) (index : Nat)
deriving DecidableEq, Repr

def Exc.message : Exc → String
  | .runtimeError m => m
  | .valueError m => m
  | .integrityError m => m
  | .attributeError m => m
  | .coreDecisionRequired m => m
  | .coreGovernanceRejected m => m
  | .coreCapacityExceeded e => e.message
  | .lifecycleRejected errors => (errors.map Error.message).headD ""
  | .bulkItemRejected _ i => s!"Bulk consolidation aborted (all-or-nothing): item {i}"

def internalRejection {α : Type} (e : Exc) : Envelope α := .rejected [⟨internalError, e.message, none⟩]

abbrev Tx := Txn Db Supply Exc

namespace Tx
variable (env : Env)

def now : Tx Instant := Txn.advance fun s => (env.clock s.readings, { s with readings := s.readings + 1 })

def uuid4 : Tx EntityId := Txn.advance fun s => (env.uuid4 s.draws, { s with draws := s.draws + 1 })

def db : Tx Db := Txn.read

def setEntities (f : EntityTable → EntityTable) : Tx Unit :=
  Txn.modify fun d => { d with entities := f d.entities }

def setRelations (f : RelationTable → RelationTable) : Tx Unit :=
  Txn.modify fun d => { d with relations := f d.relations }

def setTags (f : TagTable → TagTable) : Tx Unit := Txn.modify fun d => { d with tags := f d.tags }

def when_ (condition : Bool) (body : Tx Unit) : Tx Unit := if condition then body else pure ()

def setJobs (f : List EmbeddingJob → List EmbeddingJob) : Tx Unit :=
  Txn.modify fun d => { d with embeddingJobs := f d.embeddingJobs }

end Tx

/-- The world after one more reading of the clock. -/
def tick (w : World Db Supply) : World Db Supply :=
  { w with transient := { w.transient with readings := w.transient.readings + 1 } }

/-- The world after one more id was drawn. -/
def draw (w : World Db Supply) : World Db Supply :=
  { w with transient := { w.transient with draws := w.transient.draws + 1 } }

def reading (env : Env) (w : World Db Supply) : Instant := env.clock w.transient.readings

@[simp] theorem tick_durable (w : World Db Supply) : (tick w).durable = w.durable := rfl
@[simp] theorem draw_durable (w : World Db Supply) : (draw w).durable = w.durable := rfl

namespace Tx
variable {env : Env} {α : Type}

@[simp] theorem run_db_bind (f : Db → Tx α) (w : World Db Supply) : (db >>= f).run w = (f w.durable).run w := rfl

@[simp] theorem run_now_bind (f : Instant → Tx α) (w : World Db Supply) :
    (now env >>= f).run w = (f (reading env w)).run (tick w) := rfl

@[simp] theorem run_uuid4_bind (f : EntityId → Tx α) (w : World Db Supply) :
    (uuid4 env >>= f).run w = (f (env.uuid4 w.transient.draws)).run (draw w) := rfl

@[simp] theorem run_setEntities (f : EntityTable → EntityTable) (w : World Db Supply) :
    (setEntities f).run w = (.ok (), { w with durable := { w.durable with entities := f w.durable.entities } }) := rfl

@[simp] theorem run_setRelations (f : RelationTable → RelationTable) (w : World Db Supply) :
    (setRelations f).run w = (.ok (), { w with durable := { w.durable with relations := f w.durable.relations } }) := rfl

@[simp] theorem run_setTags (f : TagTable → TagTable) (w : World Db Supply) :
    (setTags f).run w = (.ok (), { w with durable := { w.durable with tags := f w.durable.tags } }) := rfl

@[simp] theorem run_setJobs (f : List EmbeddingJob → List EmbeddingJob) (w : World Db Supply) :
    (setJobs f).run w =
      (.ok (), { w with durable := { w.durable with embeddingJobs := f w.durable.embeddingJobs } }) := rfl

end Tx

/-- Whether a service runs on a connection of its own or nested in a coordinator job. -/
inductive Mode where
  | direct
  | coordinator
deriving DecidableEq, Repr

variable {α : Type}

def writeTransaction (fn : Tx α) : Tx α := Txn.atomic fn

/-- On the coordinator's connection the body runs as it is: no BEGIN of its own and no savepoint. A retry
after lock contention starts from the rolled-back state and is not visible in the result. -/
def writeTransactionRetrying (mode : Mode) (fn : Tx α) : Tx α :=
  match mode with
  | .direct => writeTransaction fn
  | .coordinator => fn

def savepoint (body : Tx α) : Tx α := Txn.atomic body

/-- One job of the coordinator: a normal return commits, an exception rolls back and reaches the caller
through the future. -/
def executeJob (job : Mode → Tx α) : Tx α := writeTransaction (job .coordinator)

/-- A service called on a connection of its own, or as one job of the coordinator. -/
def serve (mode : Mode) (service : Mode → Tx α) : Tx α :=
  match mode with
  | .direct => service .direct
  | .coordinator => executeJob service

/-- The caller was told that its call succeeded. -/
def accepted : Except Exc (Envelope α) → Bool
  | .ok answer => answer.isOk
  | .error _ => false

/-! ### Events -/

/-- `log_event(…, _in_transaction=True)`: one insert, which does not fail. -/
def logEvent (env : Env) (agentId : String) (content : EventContent) : Tx Unit := do
  let now ← Tx.now env
  Txn.modify fun d => { d with events := d.events ++ [⟨now, agentId, content⟩] }

/-! ### Embedding jobs -/

def EmbeddingJob.pending (j : EmbeddingJob) : Bool :=
  j.state == .queued || j.state == .running || j.state == .retryWait

def EmbeddingJob.cancelIf (sel : EmbeddingJob → Bool) (j : EmbeddingJob) : EmbeddingJob :=
  if sel j && j.pending then { j with state := .cancelled } else j

/-- One kind's half of `enqueue_embedding_jobs_for_entity`: stale work is cancelled, and the row of the
current source is queued afresh. -/
def enqueueJob (entityId : EntityId) (kind : JobKind) (sourceHash : String) (jobs : List EmbeddingJob) :
    List EmbeddingJob :=
  let current := jobs.map (·.cancelIf fun j => j.entityId == entityId && j.jobKind == kind && j.sourceHash != sourceHash)
  let same := fun j : EmbeddingJob => j.entityId == entityId && j.jobKind == kind && j.sourceHash == sourceHash
  if current.any same then current.map fun j => if same j then { j with state := .queued } else j
  else current ++ [⟨entityId, kind, sourceHash, .queued⟩]

def enqueueEmbeddingJobsForEntity (env : Env) (entityId : EntityId) (title content contentHash : String) : Tx Unit :=
  Tx.setJobs fun jobs =>
    enqueueJob entityId .chunk contentHash (enqueueJob entityId .entity (env.entitySourceHash title content) jobs)

def cancelEmbeddingJobsForEntity (entityId : EntityId) : Tx Unit :=
  Tx.setJobs fun jobs => jobs.map (·.cancelIf fun j => j.entityId == entityId && j.jobKind != .retrieval)

def cancelRetrievalEmbeddingJobsForEntity (entityId : EntityId) : Tx Unit :=
  Tx.setJobs fun jobs => jobs.map (·.cancelIf fun j => j.entityId == entityId && j.jobKind == .retrieval)

/-- What an archival does to the pending work of either kind. -/
def cancelJobsForEntity (entityId : EntityId) : Tx Unit := do
  cancelEmbeddingJobsForEntity entityId
  cancelRetrievalEmbeddingJobsForEntity entityId

/-- The work of an independent retrieval text: without one, what is pending is cancelled. -/
def enqueueRetrievalEmbeddingJobForEntity (env : Env) (entityId : EntityId) (retrievalText : Option String) : Tx Unit :=
  match retrievalText with
  | none => cancelRetrievalEmbeddingJobsForEntity entityId
  | some text => Tx.setJobs (enqueueJob entityId .retrieval (env.retrievalTextHash text))

end SaltMdb
