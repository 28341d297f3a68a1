import SaltMdb.Core.Reconcile
import SaltMdb.Core.Review
import SaltMdb.Memory.Consolidate
import SaltMdb.Tag.Effects

/-! What the parts of the memory services can do to the database. -/

namespace SaltMdb
open Transactions

variable {env : Env}

theorem unlinkCoreTag_settles (db : Db) (id : EntityId) : Txn.Settles Db.OnlyTags (unlinkCoreTag db id) := by
  unfold unlinkCoreTag
  split
  · exact onlyTags_pure _
  · exact setTags_settles _

theorem enqueueRawEmbeddingJobs_settles (p : StoreProposal) (id : EntityId) (existing : Option Entity) :
    Txn.Settles Db.OnlyJobs (enqueueRawEmbeddingJobs env p id existing) :=
  onlyJobs_bind (settles_when Db.OnlyJobs.refl (enqueueEmbeddingJobs_settles _ _ _ _)) fun _ =>
    settles_when Db.OnlyJobs.refl (enqueueRetrieval_settles _ _)

theorem replacementEnqueueJobs_settles (plan : ReplacementPlan) (newId : EntityId) :
    Txn.Settles Db.OnlyJobs (replacementEnqueueJobs env plan newId) :=
  onlyJobs_bind (cancelJobs_settles _) fun _ => onlyJobs_bind (enqueueEmbeddingJobs_settles _ _ _ _) fun _ =>
    enqueueRetrieval_settles _ _

/-! ### The writes of an archival -/

def Db.archive (db : Db) (id : EntityId) (now : Instant) : Db :=
  { db with
    entities := db.entities.updateWhere (fun e => e.id == id && e.live) (·.archive now)
    relations := db.relations.closeWhere (fun r => r.touches id && r.active) ⟨now, none⟩ }

theorem archiveEntityUnchecked_run (env : Env) (id : EntityId) (w : World Db Supply) :
    ∃ w', (archiveEntityUnchecked env id).run w = (.ok (), w') ∧
      (w.durable.archive id (reading env w)).OnlyJobs w'.durable := by
  obtain ⟨_, w', ran, jobs⟩ := cancelJobs_settles id
    { tick w with durable := w.durable.archive id (reading env w) }
  exact ⟨w', ran, jobs⟩

/-! ### Calls that were accepted -/

/-- A replacement that is accepted wrote what it had prepared. -/
theorem replaceMemory_ok {mode : Mode} {operation : Operation} {request : ReplacementRequest} {w w' : World Db Supply}
    {answer : Envelope ReplacementReceipt} (ok : answer.isOk = true)
    (h : (replaceMemory env mode operation request).run w = (.ok answer, w')) :
    ∃ plan receipt, prepareReplacement env w.durable (reading env w) request = .ok plan ∧
      (replacementWrite env operation plan request.repointRelations).run (tick w) = (.ok receipt, w') := by
  unfold replaceMemory at h
  rw [Tx.run_db_bind, Tx.run_now_bind] at h
  cases prepared : prepareReplacement env w.durable (reading env w) request with
  | error refused =>
    rw [prepared] at h
    obtain ⟨same, _⟩ := Prod.mk.inj h
    rw [← Except.ok.inj same] at ok
    exact absurd ok Bool.false_ne_true
  | ok plan =>
    rw [prepared] at h
    dsimp only at h
    rw [Txn.run_tryCatch] at h
    split at h
    · rename_i ran
      obtain ⟨receipt, v, written, last⟩ := Txn.bind_ok ran
      obtain ⟨_, rfl⟩ := Prod.mk.inj last
      obtain ⟨_, rfl⟩ := Prod.mk.inj h
      exact ⟨plan, receipt, rfl, retrying_ok.mp written⟩
    · rename_i e v _
      have refused : ∀ {r : Envelope ReplacementReceipt} {u : World Db Supply},
          (replacementFailure mode e).run v = (.ok r, u) → r.isOk = false := by
        intro r u failed
        unfold replacementFailure at failed
        split at failed
        · rw [← Except.ok.inj (Prod.mk.inj failed).1]
          rfl
        · cases mode with
          | coordinator => simp at failed
          | direct =>
            rw [← Except.ok.inj (Prod.mk.inj failed).1]
            rfl
      rw [refused h] at ok
      exact absurd ok Bool.false_ne_true

/-- A merge that answers with a receipt committed the plan it had made. -/
theorem consolidateWith_ok {bulk : Option BulkContext} {request : ConsolidationRequest}
    {commit : ConsolidationPlan → EntityId → Instant → Tx (List Edge)} {w w' : World Db Supply}
    {answer : Envelope ConsolidationReceipt} (ok : answer.isOk = true)
    (h : (consolidateWith env bulk request commit).run w = (.ok answer, w')) :
    ∃ plan orphaned, consolidationPlan env w.durable bulk request = .ok plan ∧
      answer = .ok (consolidationReceipt (env.uuid4 w.transient.draws) orphaned) [] ∧
      (commit plan (env.uuid4 w.transient.draws) (reading env w)).run (tick (draw w)) = (.ok orphaned, w') := by
  unfold consolidateWith at h
  rw [Tx.run_db_bind] at h
  cases planned : consolidationPlan env w.durable bulk request with
  | error e =>
    rw [planned] at h
    obtain ⟨same, _⟩ := Prod.mk.inj h
    rw [← Except.ok.inj same] at ok
    exact absurd ok Bool.false_ne_true
  | ok plan =>
    rw [planned] at h
    dsimp only at h
    rw [Tx.run_uuid4_bind, Tx.run_now_bind, Txn.run_tryCatch] at h
    split at h
    · rename_i ran
      obtain ⟨orphaned, v, committed, last⟩ := Txn.bind_ok ran
      obtain ⟨given, rfl⟩ := Prod.mk.inj last
      obtain ⟨same, rfl⟩ := Prod.mk.inj h
      exact ⟨plan, orphaned, rfl, Except.ok.inj (same ▸ given.symm), committed⟩
    · rename_i e v _
      obtain ⟨same, _⟩ := Prod.mk.inj h
      rw [← Except.ok.inj same] at ok
      cases e <;> exact absurd ok Bool.false_ne_true

/-- An item of a batch that answers with a receipt committed. -/
theorem commitBulkConsolidationItem_ok {measured : Db} {item : ConsolidationItem} {parents : List EntityId}
    {agentId contextId : Option String} {w w' : World Db Supply} {receipt : ConsolidationReceipt} {warnings : List Warning}
    (h : (commitBulkConsolidationItem env measured item parents agentId contextId).run w = (.ok (.ok receipt warnings), w')) :
    ∃ plan orphaned,
      consolidationPlan env w.durable (some ⟨measured, parents⟩) (item.request parents agentId contextId) = .ok plan ∧
      receipt.entityId = env.uuid4 w.transient.draws ∧
      (consolidationCommit env (item.request parents agentId contextId) plan (env.uuid4 w.transient.draws) (reading env w)).run
        (tick (draw w)) = (.ok orphaned, w') := by
  obtain ⟨plan, orphaned, planned, answered, committed⟩ := consolidateWith_ok rfl h
  obtain ⟨rfl, _⟩ := Envelope.ok.inj answered
  exact ⟨plan, orphaned, planned, rfl, committed⟩

end SaltMdb
