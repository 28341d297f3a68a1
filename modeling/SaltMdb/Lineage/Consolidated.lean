import SaltMdb.Lineage.Replaced
import SaltMdb.Memory.Consolidate

/-! A consolidation moves the database by one succession of several memories, or not at all. -/

namespace SaltMdb
open Transactions

variable {env : Env}

/-! ### Parents -/

/-- What the preflight establishes of the parents: each is active, and none is named twice. -/
structure Db.RawParents (db : Db) (parents : List EntityId) : Prop where
  raw : ∀ id ∈ parents, ∃ e, db.entities.find id = some e ∧ e.status = .raw
  distinct : parents.Nodup

theorem Db.RawParents.snoc {db : Db} {parents : List EntityId} {id : EntityId} {e : Entity} (h : db.RawParents parents)
    (fresh : id ∉ parents) (found : db.entities.find id = some e) (raw : e.status = .raw) :
    db.RawParents (parents ++ [id]) where
  raw := by
    intro other member
    rcases List.mem_append.mp member with old | new
    · exact h.raw other old
    · obtain rfl := List.mem_singleton.mp new
      exact ⟨e, found, raw⟩
  distinct := by
    rw [List.nodup_append]
    refine ⟨h.distinct, List.nodup_singleton id, ?_⟩
    rintro a old b new rfl
    exact fresh (List.mem_singleton.mp new ▸ old)

theorem resolveParentIds_ok {db : Db} {names : List String} {resolved parents : List EntityId}
    (known : db.RawParents resolved) (h : resolveParentIds env db names resolved = .ok parents) :
    db.RawParents parents := by
  induction names generalizing resolved with
  | nil =>
    obtain rfl := Except.ok.inj h
    exact known
  | cons raw rest ih =>
    unfold resolveParentIds at h
    dsimp only at h
    split at h
    · simp at h
    · rename_i id _
      split at h
      · exact ih known h
      · rename_i fresh
        split at h
        · simp at h
        · rename_i parent found
          split at h
          · simp at h
          · rename_i raw
            exact ih (known.snoc fresh found (not_not.mp raw)) h

theorem resolveAndValidateParentIds_ok {db : Db} {names : List String} {parents : List EntityId}
    (h : resolveAndValidateParentIds env db names = .ok parents) : db.RawParents parents := by
  obtain ⟨resolved, found, h⟩ := Checks.bind_ok h
  split at h
  · simp at h
  · obtain rfl := Except.ok.inj h
    exact resolveParentIds_ok ⟨by simp, List.nodup_nil⟩ found

theorem consolidationPlan_ok {db : Db} {bulk : Option BulkContext} {request : ConsolidationRequest} {plan : ConsolidationPlan}
    (h : consolidationPlan env db bulk request = .ok plan) : db.RawParents plan.resolvedParents := by
  obtain ⟨_, _, h⟩ := Checks.bind_ok h
  obtain ⟨parents, resolved, h⟩ := Checks.bind_ok h
  obtain ⟨_, _, h⟩ := Checks.bind_ok h
  obtain ⟨_, _, h⟩ := Checks.bind_ok h
  obtain ⟨_, _, h⟩ := Checks.bind_ok h
  split at h
  · simp at h
  · obtain rfl := Except.ok.inj h
    exact resolveAndValidateParentIds_ok resolved

/-! ### The commit -/

/-- One lineage row for each parent, in order. -/
theorem consolidationInsertLineage_ok {parents : List EntityId} {n : EntityId} {now : Instant} {w w' : World Db Supply}
    (h : (consolidationInsertLineage parents n now).run w = (.ok (), w')) :
    w'.durable.entities = w.durable.entities ∧
      w'.durable.relations.lineage = w.durable.relations.lineage ++ parents.map fun p => ⟨n, "consolidated_from", p⟩ := by
  unfold consolidationInsertLineage at h
  induction parents generalizing w with
  | nil =>
    obtain ⟨_, rfl⟩ := Prod.mk.inj h
    simp
  | cons parent rest ih =>
    obtain ⟨_, v, first, others⟩ := Txn.bind_ok h
    obtain ⟨_, u, inserted, last⟩ := Txn.bind_ok first
    obtain ⟨_, rfl⟩ := Prod.mk.inj last
    obtain ⟨free, durable, _⟩ := insertRelation_ok inserted
    obtain ⟨entities, lineage⟩ := ih others
    have listed : (consolidationLineageDraft n now parent).edge.Lineage := by
      have named : isLineage "consolidated_from" = true := by decide
      exact named
    rw [entities, lineage, durable]
    refine ⟨rfl, ?_⟩
    dsimp only
    rw [lineage_push listed, List.append_assoc]
    rfl

theorem consolidationAuditOverride_quiet (plan : ConsolidationPlan) (n : EntityId) :
    Txn.Within Db.Quiet (consolidationAuditOverride env plan n) :=
  within_when Db.Quiet.refl fun w => onlyTags_quiet ((logEvent_settles _ _).within w)

/-- What stands between the insert of the row and the archival of the parents. -/
theorem consolidationDetails_quiet (plan : ConsolidationPlan) (n : EntityId) (state : CoreState) :
    Txn.Within Db.Quiet (Tx.when_ state.isCore
      (reconcileDetailRelations env n (some plan.content.agentVal) state.coreDetailMemoryIds [])) :=
  within_when Db.Quiet.refl fun w => elaborates_quiet (reconcileDetailRelations_within _ _ _ _ w)

theorem archiveParents_ok {parents : List EntityId} {now : Instant} {w w' : World Db Supply}
    (h : (archiveParents parents now).run w = (.ok (), w')) :
    w'.durable = { w.durable with
      entities := w.durable.entities.updateWhere (fun e => parents.contains e.id) (·.archive now) } := by
  obtain ⟨_, rfl⟩ := Prod.mk.inj h
  rfl

theorem consolidationArchiveParents_ok {request : ConsolidationRequest} {plan : ConsolidationPlan} {n : EntityId}
    {now : Instant} {isCore : Bool} {w w' : World Db Supply}
    (h : (consolidationArchiveParents env request plan n now isCore).run w = (.ok (), w')) :
    w'.durable.entities =
        w.durable.entities.updateWhere (fun e => plan.resolvedParents.contains e.id) (·.archive now) ∧
      w'.durable.relations = w.durable.relations := by
  obtain ⟨_, v₁, jobs, h⟩ := Txn.bind_ok h
  obtain ⟨_, v₂, tags, h⟩ := Txn.bind_ok h
  obtain ⟨_, v₃, core, h⟩ := Txn.bind_ok h
  obtain ⟨_, v₄, archived, cancelled⟩ := Txn.bind_ok h
  have jobs := within_ok (enqueueEmbeddingJobs_settles _ _ _ _).within jobs
  have tags := within_ok (insertTags_settles _ _ _).within tags
  have core := within_ok (within_when Db.OnlyTags.refl (linkCoreTag_settles _ _).within) core
  have archived := archiveParents_ok archived
  have after := within_ok (forEach_onlyJobs cancelJobs_settles plan.resolvedParents).within cancelled
  rw [after.entities, after.relations, archived]
  dsimp only
  rw [core.entities, tags.entities, jobs.entities, core.relations, tags.relations, jobs.relations]
  exact ⟨rfl, rfl⟩

/-- A commit that returns moves the database by one succession of all its parents. -/
theorem consolidationBody_succeeds {request : ConsolidationRequest} {plan : ConsolidationPlan} {n : EntityId}
    {now : Instant} {state : CoreState} {w w' : World Db Supply} {orphaned : List Edge}
    (parents : w.durable.RawParents plan.resolvedParents)
    (h : (consolidationBody env request plan n now state).run w = (.ok orphaned, w')) :
    w.durable.Succeeds w'.durable := by
  unfold consolidationBody at h
  obtain ⟨_, v₁, audited, h⟩ := Txn.bind_ok h
  obtain ⟨_, v₂, inserted, h⟩ := Txn.bind_ok h
  obtain ⟨_, v₃, archived, h⟩ := Txn.bind_ok h
  rw [Tx.run_db_bind] at h
  obtain ⟨_, v₄, recorded, last⟩ := Txn.bind_ok h
  obtain ⟨_, rfl⟩ := Prod.mk.inj last
  obtain ⟨_, u, entity, details⟩ := Txn.bind_ok inserted
  have audited := within_ok (consolidationAuditOverride_quiet plan n) audited
  obtain ⟨free, entity⟩ := insertEntity_ok entity
  have details := within_ok (consolidationDetails_quiet plan n state) details
  obtain ⟨archivedEntities, archivedRelations⟩ := consolidationArchiveParents_ok archived
  obtain ⟨recordedEntities, recordedLineage⟩ := consolidationInsertLineage_ok recorded
  have parents : v₁.durable.RawParents plan.resolvedParents :=
    ⟨by rw [audited.entities]; exact parents.raw, parents.distinct⟩
  have entities : v₄.durable.entities =
      (v₁.durable.entities.append (consolidationRow request plan n now state) free).updateWhere
        (fun e => plan.resolvedParents.contains e.id) (·.archive now) := by
    rw [recordedEntities, archivedEntities, details.entities, entity]
  have lineage : v₄.durable.relations.lineage =
      v₁.durable.relations.lineage ++ plan.resolvedParents.map fun p => ⟨n, "consolidated_from", p⟩ := by
    rw [recordedLineage, archivedRelations, lineage_grows details.grows, entity]
  have other : n ∉ plan.resolvedParents := by
    intro member
    obtain ⟨e, found, _⟩ := parents.raw n member
    simp [consolidationRow, found] at free
  refine audited.succeeds.trans (succeeds_by n plan.resolvedParents free parents.raw parents.distinct ?_ ?_ ⟨_, lineage⟩)
  · rw [entities, updateWhere_ids]
    simp [EntityTable.append, consolidationRow]
  · intro a
    rw [entities]
    refine retired_append_archive (by simp [consolidationRow]) ?_ (fun _ => rfl) ?_ ?_ a
    · simpa [consolidationRow] using other
    · intro o chosen
      obtain ⟨e, found, _⟩ := parents.raw o chosen
      exact ⟨e, found⟩
    · intro x _
      simp

theorem consolidationCommit_succeeds {request : ConsolidationRequest} {plan : ConsolidationPlan} {n : EntityId}
    {now : Instant} {w w' : World Db Supply} {orphaned : List Edge}
    (parents : w.durable.RawParents plan.resolvedParents)
    (h : (consolidationCommit env request plan n now).run w = (.ok orphaned, w')) :
    w.durable.Succeeds w'.durable := by
  unfold consolidationCommit at h
  rw [Tx.run_db_bind] at h
  obtain ⟨_, v₁, checked, h⟩ := Txn.bind_ok h
  obtain ⟨_, rfl⟩ := Prod.mk.inj checked
  obtain ⟨state, v₂, decided, h⟩ := Txn.bind_ok h
  obtain ⟨_, rfl⟩ := Prod.mk.inj decided
  exact consolidationBody_succeeds parents h

/-- The memories after a commit: the merged row, and its parents archived. -/
theorem consolidationCommit_entities {request : ConsolidationRequest} {plan : ConsolidationPlan} {n : EntityId}
    {now : Instant} {w w' : World Db Supply} {orphaned : List Edge}
    (h : (consolidationCommit env request plan n now).run w = (.ok orphaned, w')) :
    ∃ state free, resolveDerivedCoreState env w.durable now plan.resolvedParents request.core plan.content.redactedContent
        request.scope (consolidationEntry request plan n) = .ok state ∧
      w'.durable.entities = (w.durable.entities.append (consolidationRow request plan n now state) free).updateWhere
        (fun e => plan.resolvedParents.contains e.id) (·.archive now) := by
  unfold consolidationCommit at h
  rw [Tx.run_db_bind] at h
  obtain ⟨_, v₁, checked, rest⟩ := Txn.bind_ok h
  obtain ⟨_, rfl⟩ := Prod.mk.inj checked
  obtain ⟨state, v₂, decided, body⟩ := Txn.bind_ok rest
  obtain ⟨resolved, rfl⟩ := Prod.mk.inj decided
  unfold consolidationBody at body
  obtain ⟨_, x, audited, body⟩ := Txn.bind_ok body
  obtain ⟨_, u, inserted, body⟩ := Txn.bind_ok body
  obtain ⟨_, v, archived, body⟩ := Txn.bind_ok body
  rw [Tx.run_db_bind] at body
  obtain ⟨_, y, recorded, last⟩ := Txn.bind_ok body
  obtain ⟨_, rfl⟩ := Prod.mk.inj last
  obtain ⟨_, t, entity, details⟩ := Txn.bind_ok inserted
  obtain ⟨free, entity⟩ := insertEntity_ok entity
  have audited := (within_ok (consolidationAuditOverride_quiet plan n) audited).entities
  have details := (within_ok (consolidationDetails_quiet plan n state) details).entities
  refine ⟨state, audited ▸ free, resolved, ?_⟩
  rw [(consolidationInsertLineage_ok recorded).1, (consolidationArchiveParents_ok archived).1, details, entity]
  simp only [audited]

theorem succeeds_committed (env : Env) : Steady.Committed env Db.Succeeds :=
  fun _ _ _ _ _ _ _ _ planned ran => consolidationCommit_succeeds (consolidationPlan_ok planned) ran

end SaltMdb
