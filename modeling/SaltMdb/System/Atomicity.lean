import SaltMdb.Memory.Effects
import SaltMdb.Relation.Fates
import SaltMdb.Relation.Temporal
import SaltMdb.System.Calls

/-! What a refused call leaves behind. A service on a connection of its own rolls back before it answers; nested in
a coordinator job, it answers an exception it caught without a rollback, and the job commits. -/

namespace SaltMdb
open Transactions

variable {env : Env}

/-! ### Services that refuse cleanly -/

section
variable {α β : Type}

abbrev CleanAt (service : Tx (Envelope α)) (w : World Db Supply) : Prop := Txn.CleanAt Envelope.isOk service w

abbrev RefusesCleanlyAt (service : Tx (Envelope α)) (w : World Db Supply) : Prop :=
  Txn.RefusesCleanlyAt Envelope.isOk service w

/-- A refusal leaves nothing behind on either connection: in a job, the exceptions are left to the job. -/
structure Clean (service : Mode → Tx (Envelope α)) : Prop where
  nested : ∀ w, RefusesCleanlyAt (service .coordinator) w
  direct : ∀ w, CleanAt (service .direct) w

theorem Clean.serve {service : Mode → Tx (Envelope α)} (clean : Clean service) (mode : Mode) (w : World Db Supply) :
    CleanAt (serve mode service) w := by
  cases mode with
  | direct => exact clean.direct w
  | coordinator => exact Txn.cleanAt_atomic.mpr (clean.nested w)

end

/-! ### Relations -/

def ArchiveDecision.fate : ArchiveDecision → Txn.Fate
  | .refuse _ => .refused
  | .alreadyArchived _ => .idle
  | .archive _ => .writes

/-- An element of the legacy array in the database it meets. -/
def ArchiveRequest.fate (env : Env) (db : Db) : ArchiveRequest → Txn.Fate
  | .text id => (archiveDecision env db (some id) none).fate
  | .object id owner => (archiveDecision env db id owner).fate
  | .other => .refused

/-- The store up to the upsert of its row. -/
def rawEntityWritten (env : Env) (p : StoreProposal) : Tx (EntityId × CoreState × Option Entity) := do
  let entityId ← storeTargetId env p
  let now ← Tx.now env
  let db ← Tx.db
  let state ← Txn.ofExcept (resolveRawCoreState env db now p entityId)
  keepScdHistory env p entityId (db.entities.find entityId)
  deleteRawTags entityId p.tags
  upsertRawEntity p entityId now state
  return (entityId, state, db.entities.find entityId)

/-- No declared detail is refused once the row, or the edge of an earlier detail, was written. -/
def StoreProposal.DetailsStopClean (env : Env) (p : StoreProposal) (w : World Db Supply) : Prop :=
  match (rawEntityWritten env p).run w with
  | (.error _, _) => True
  | (.ok (id, state, _), v) =>
    if v.durable = w.durable then
      Txn.StopsClean (storeDetailRelation env id p.agentId) (detailFate env id p.agentId) state.coreDetailMemoryIds v
    else Txn.Completes (storeDetailRelation env id p.agentId) (detailFate env id p.agentId) state.coreDetailMemoryIds v

/-- The row's own part of a store touches entities and tags. -/
def Db.RowOnly (d d' : Db) : Prop := d' = { d with entities := d'.entities, tags := d'.tags }

theorem Db.RowOnly.refl (d : Db) : d.RowOnly d := rfl

theorem Db.RowOnly.trans (a b c : Db) (first : a.RowOnly b) (second : b.RowOnly c) : a.RowOnly c := by
  unfold Db.RowOnly at *
  rw [second, first]

theorem governanceAnswer_refuses {α : Type} (e : Exc) : (governanceAnswer e : Envelope α).isOk = false := by
  cases e <;> rfl

/-- The request as `store_memory` prepares it from a world. -/
def preparedStore (env : Env) (request : StoreRequest) (w : World Db Supply) : Except StoreAnswer StoreProposal :=
  prepareStore env w.durable (reading env (draw w)) (env.uuid4 w.transient.draws) request

/-- Where a refusal of the call leaves nothing behind. A job of one of the three services that answer what they
catch needs that no part of the call is refused after another has written. -/
def Call.StopsClean (env : Env) (mode : Mode) (call : Call) (w : World Db Supply) : Prop :=
  match mode, call with
  | .coordinator, .storeMemory request =>
    ∀ p, preparedStore env request w = .ok p → p.DetailsStopClean env (tick (draw w))
  | .coordinator, .bulkStoreRelations relations agentId invalidate =>
    Txn.StopsClean (storeRelationBatchItem env agentId invalidate) (relationElementFate env agentId invalidate) relations w
  | .coordinator, .bulkArchiveMemory requests => Txn.StopsClean (archiveBatchItem env) (ArchiveRequest.fate env) requests w
  | _, _ => True

end SaltMdb
