import Mathlib.Data.List.Forall2
import SaltMdb.Core.Details
import SaltMdb.Lineage.Consolidated
import SaltMdb.Schema.Fresh

/-! What a consolidation that commits has changed: the merged memory, its parents and their lineage, and
the edges of the details it declares. -/

namespace SaltMdb
open Transactions

variable {env : Env}

/-! ### The edges of declared details -/

/-- An `elaborates_on` edge that leaves from one of the details. -/
def Relation.detailOf (details : List EntityId) (r : Relation) : Bool :=
  r.predicate == "elaborates_on" && details.contains r.sourceId

def Relation.apart (details : List EntityId) (r : Relation) : Bool := !r.detailOf details

/-- The entities stand, and every row but those of the details. -/
structure Db.OnlyDetails (details : List EntityId) (d d' : Db) : Prop where
  entities : d'.entities = d.entities
  apart : d'.relations.rows.filter (·.apart details) = d.relations.rows.filter (·.apart details)

namespace Db.OnlyDetails
variable {details : List EntityId} {d d' d'' : Db}

theorem refl (d : Db) : d.OnlyDetails details d := ⟨rfl, rfl⟩

theorem trans (first : d.OnlyDetails details d') (second : d'.OnlyDetails details d'') : d.OnlyDetails details d'' :=
  ⟨second.entities.trans first.entities, second.apart.trans first.apart⟩

theorem of_tags (h : d.OnlyTags d') : d.OnlyDetails details d' := ⟨h.entities, by rw [h.relations]⟩

theorem of_jobs (h : d.OnlyJobs d') : d.OnlyDetails details d' := ⟨h.entities, by rw [h.relations]⟩

end Db.OnlyDetails

theorem apart_of_edge {details : List EntityId} {r : Relation} {source : EntityId} (member : source ∈ details)
    (from_ : r.sourceId = source) (predicate : r.predicate = "elaborates_on") : r.apart details = false := by
  simp [Relation.apart, Relation.detailOf, from_, predicate, member]

/-- A stored detail edge ends and adds rows of its own source and predicate only. -/
theorem storedTable_apart {T : RelationTable} {d : RelationDraft} {details : List EntityId} (now : Instant)
    (free : ¬ T.Holds d.edge) (member : d.sourceId ∈ details) (predicate : d.predicate = "elaborates_on") :
    (storedTable T now d).rows.filter (·.apart details) = T.rows.filter (·.apart details) := by
  obtain ⟨open_, table⟩ := storedTable_push now free
  have fresh : [d.row (closeStale ((staleEdge T d.edge).map (·.id)) now T).next].filter (·.apart details) = [] := by
    rw [List.filter_eq_nil_iff]
    intro r new
    obtain rfl := List.mem_singleton.mp new
    simp [apart_of_edge (r := d.row _) member rfl predicate]
  rw [table, RelationTable.filter_push, fresh, List.append_nil]
  cases stale : staleEdge T d.edge with
  | none => rfl
  | some r =>
    obtain ⟨here, _, source, named, _⟩ := RelationTable.fetchStale_some (staleEdge_some stale).2
    refine RelationTable.filter_closeWhere fun other otherHere selected => ?_
    rw [RelationTable.id_unique otherHere here (by simpa using selected)]
    exact ⟨apart_of_edge member source (named.trans predicate), apart_of_edge member source (named.trans predicate)⟩

theorem storeDetailRelation_apart {details : List EntityId} {coreId detailId : EntityId} {agentId : Option String}
    {w w' : World Db Supply} {e : Entity} (member : detailId ∈ details) (plain : PlainId detailId)
    (found : w.durable.entities.find detailId = some e)
    (h : (storeDetailRelation env coreId agentId detailId).run w = (.ok (), w')) :
    w.durable.OnlyDetails details w'.durable := by
  rcases storeDetailRelation_cases env coreId agentId detailId w with
    ⟨receipt, warnings, v, ran, call⟩ | ⟨message, v, ran, _⟩
  · rw [ran] at h
    obtain ⟨_, rfl⟩ := Prod.mk.inj h
    rcases call.effect with same | ⟨source, target, endpoints, creation⟩
    · rw [same]
      exact .refl _
    · have resolved := (resolveEndpoints_resolved (storeRelationEndpoints_resolved endpoints)).1
      rw [detailRelationArgs, resolveEntityRef_plain plain found, Option.some.injEq] at resolved
      subst resolved
      refine ⟨by rw [creation.others], ?_⟩
      rw [creation.relations]
      refine storedTable_apart _ creation.fresh member ?_
      simp only [RelationWriteRequest.draft, StoreRelationArgs.request, detailRelationArgs]
      exact canonicalPredicate_elaborates w.durable
  · rw [ran] at h
    simp at h

/-- The details that are still to come are rows all along, for no step reaches the entities. -/
theorem storeDetails_apart {details pending : List EntityId} {coreId : EntityId} {agentId : Option String}
    {w w' : World Db Supply} (within : ∀ id ∈ pending, id ∈ details ∧ PlainId id)
    (found : ∀ id ∈ pending, ∃ e, w.durable.entities.find id = some e)
    (h : (Txn.forEach (storeDetailRelation env coreId agentId) pending).run w = (.ok (), w')) :
    w.durable.OnlyDetails details w'.durable := by
  induction pending generalizing w with
  | nil =>
    obtain ⟨_, rfl⟩ := Prod.mk.inj h
    exact .refl _
  | cons id rest ih =>
    obtain ⟨_, v, first, others⟩ := Txn.bind_ok h
    obtain ⟨member, plain⟩ := within id List.mem_cons_self
    obtain ⟨e, here⟩ := found id List.mem_cons_self
    have stored := storeDetailRelation_apart member plain here first
    refine stored.trans (ih (fun x later => within x (List.mem_cons_of_mem _ later)) ?_ others)
    rw [stored.entities]
    exact fun x later => found x (List.mem_cons_of_mem _ later)

/-! ### One group -/

/-- The archival of the parents, row by row. -/
def archivedAmong (parents : List EntityId) (now : Instant) (e : Entity) : Entity :=
  e.setIf (fun e => parents.contains e.id) (·.archive now)

/-- What merging `parents` into `n` has done when it committed. The relations are compared without the
`elaborates_on` edges that leave from `details`. -/
structure Db.Merged (db db' : Db) (n : EntityId) (parents details : List EntityId) : Prop where
  fresh : db.entities.find n = none
  raw : db.RawParents parents
  entities : ∃ now row, row.id = n ∧ row.status = .consolidated ∧ row.coreDetailMemoryIds = details ∧
    db'.entities.rows = db.entities.rows.map (archivedAmong parents now) ++ [row]
  relations : ∃ now first, db'.relations.rows.filter (·.apart details) =
    db.relations.rows.filter (·.apart details) ++
      parents.mapIdx fun i p => (consolidationLineageDraft n now p).row (first + i)

theorem lineageRow_apart (details : List EntityId) (n : EntityId) (now : Instant) (p : EntityId) (id : RelationId) :
    ((consolidationLineageDraft n now p).row id).apart details = true := by
  simp [Relation.apart, Relation.detailOf, consolidationLineageDraft, RelationDraft.row]

theorem consolidationInsertLineage_rows {parents : List EntityId} {n : EntityId} {now : Instant} {w w' : World Db Supply}
    (h : (consolidationInsertLineage parents n now).run w = (.ok (), w')) :
    w'.durable.relations.rows = w.durable.relations.rows ++
      parents.mapIdx fun i p => (consolidationLineageDraft n now p).row (w.durable.relations.next + i) := by
  unfold consolidationInsertLineage at h
  induction parents generalizing w with
  | nil =>
    obtain ⟨_, rfl⟩ := Prod.mk.inj h
    simp
  | cons parent rest ih =>
    obtain ⟨_, v, first, others⟩ := Txn.bind_ok h
    obtain ⟨_, u, inserted, last⟩ := Txn.bind_ok first
    obtain ⟨_, rfl⟩ := Prod.mk.inj last
    obtain ⟨free, durable, _⟩ := insertRelation_ok inserted
    have next : u.durable.relations.next = w.durable.relations.next + 1 := by rw [durable]; rfl
    have rows : u.durable.relations.rows = w.durable.relations.rows ++
        [(consolidationLineageDraft n now parent).row w.durable.relations.next] := by rw [durable]; rfl
    have shifted : ∀ k i : Nat, k + 1 + i = k + (i + 1) := by omega
    rw [ih others, rows, next, List.mapIdx_cons, List.append_assoc]
    simp only [shifted]
    rfl

theorem setIf_archived {sel : Entity → Bool} {now : Instant} {T : EntityTable} :
    (T.updateWhere sel (·.archive now)).rows = T.rows.map (·.setIf sel (·.archive now)) := rfl

/-! ### The commit of a group -/

theorem consolidationBody_merged {request : ConsolidationRequest} {plan : ConsolidationPlan} {n : EntityId}
    {now : Instant} {state : CoreState} {w w' : World Db Supply} {orphaned : List Edge}
    (parents : w.durable.RawParents plan.resolvedParents)
    (declared : ∀ id ∈ state.coreDetailMemoryIds, PlainId id ∧ ∃ e, w.durable.entities.find id = some e)
    (h : (consolidationBody env request plan n now state).run w = (.ok orphaned, w')) :
    w.durable.Merged w'.durable n plan.resolvedParents state.coreDetailMemoryIds := by
  unfold consolidationBody at h
  obtain ⟨_, v₁, audited, h⟩ := Txn.bind_ok h
  obtain ⟨_, v₂, inserted, h⟩ := Txn.bind_ok h
  obtain ⟨_, v₃, archived, h⟩ := Txn.bind_ok h
  rw [Tx.run_db_bind] at h
  obtain ⟨_, v₄, recorded, last⟩ := Txn.bind_ok h
  obtain ⟨_, rfl⟩ := Prod.mk.inj last
  obtain ⟨_, u, entity, details⟩ := Txn.bind_ok inserted
  have audited : w.durable.OnlyTags v₁.durable :=
    within_ok (within_when Db.OnlyTags.refl (logEvent_settles _ _).within) audited
  obtain ⟨free, entity⟩ := insertEntity_ok entity
  have details : u.durable.OnlyDetails state.coreDetailMemoryIds v₂.durable := by
    cases core : state.isCore with
    | false =>
      rw [core] at details
      obtain ⟨_, rfl⟩ := Prod.mk.inj details
      exact .refl _
    | true =>
      rw [core] at details
      obtain ⟨_, v, stored, dropped⟩ := Txn.bind_ok (show (reconcileDetailRelations env n _ _ []).run u = _ from details)
      obtain ⟨_, rfl⟩ := Prod.mk.inj dropped
      refine storeDetails_apart (fun id member => ⟨member, (declared id member).1⟩) (fun id member => ?_) stored
      obtain ⟨e, found⟩ := (declared id member).2
      rw [entity]
      dsimp only
      rw [EntityTable.find_append, audited.entities, found]
      by_cases same : id = (consolidationRow request plan n now state).id
      · exact ⟨_, if_pos same⟩
      · exact ⟨e, if_neg same⟩
  obtain ⟨archivedEntities, archivedRelations⟩ := consolidationArchiveParents_ok archived
  have recordedEntities := (consolidationInsertLineage_ok recorded).1
  have recordedRows := consolidationInsertLineage_rows recorded
  rw [audited.entities] at free
  have other : plan.resolvedParents.contains n = false := by
    rw [Bool.eq_false_iff]
    intro member
    obtain ⟨e, found, _⟩ := parents.raw n (List.contains_iff_mem.mp member)
    simp [consolidationRow, found] at free
  have standing : (consolidationRow request plan n now state).setIf (fun e => plan.resolvedParents.contains e.id)
      (·.archive now) = consolidationRow request plan n now state := by
    have spared : plan.resolvedParents.contains (consolidationRow request plan n now state).id = false := other
    rw [Entity.setIf, spared]
    rfl
  refine ⟨free, parents, ⟨now, consolidationRow request plan n now state, rfl, rfl, rfl, ?_⟩, ⟨now, v₃.durable.relations.next, ?_⟩⟩
  · rw [recordedEntities, archivedEntities, details.entities, entity, setIf_archived]
    dsimp only [EntityTable.append]
    rw [List.map_append, audited.entities, List.map_singleton, standing]
    rfl
  · have lineage : ∀ r ∈ plan.resolvedParents.mapIdx
        (fun i p => (consolidationLineageDraft n now p).row (v₃.durable.relations.next + i)),
        r.apart state.coreDetailMemoryIds = true := by
      intro r member
      obtain ⟨i, _, rfl⟩ := List.mem_mapIdx.mp member
      exact lineageRow_apart _ n now _ _
    rw [recordedRows, List.filter_append, List.filter_eq_self.mpr lineage, archivedRelations, details.apart, entity]
    dsimp only
    rw [audited.relations]

theorem consolidationRevalidate_ok {db : Db} {plan : ConsolidationPlan} (h : consolidationRevalidate db plan = .ok ()) :
    ∀ p ∈ plan.resolvedParents, plan.observedState p = currentParentState db p := by
  unfold consolidationRevalidate at h
  split at h
  · simp at h
  · rename_i unmoved
    intro p member
    have same := List.find?_eq_none.mp unmoved p member
    simpa using same

/-- A commit that returns: no parent had moved, and the merge is exact. -/
theorem consolidationCommit_merged {request : ConsolidationRequest} {plan : ConsolidationPlan} {n : EntityId}
    {now : Instant} {w w' : World Db Supply} {orphaned : List Edge} (parents : w.durable.RawParents plan.resolvedParents)
    (h : (consolidationCommit env request plan n now).run w = (.ok orphaned, w')) :
    ∃ details, (∀ d ∈ details, d ∈ normalDetails (request.core.detailMemoryIds.getD [])) ∧
      w.durable.Merged w'.durable n plan.resolvedParents details := by
  unfold consolidationCommit at h
  rw [Tx.run_db_bind] at h
  obtain ⟨_, v₁, checked, h⟩ := Txn.bind_ok h
  obtain ⟨_, rfl⟩ := Prod.mk.inj checked
  obtain ⟨state, v₂, decided, h⟩ := Txn.bind_ok h
  obtain ⟨settled, rfl⟩ := Prod.mk.inj decided
  have declared := resolveDerivedCoreState_details settled
  refine ⟨state.coreDetailMemoryIds, fun d member => (declared d member).2, consolidationBody_merged parents ?_ h⟩
  intro d member
  obtain ⟨e, found, _⟩ := (declared d member).1.target
  exact ⟨(declared d member).1.plain, e, found⟩

theorem consolidationCommit_unmoved {request : ConsolidationRequest} {plan : ConsolidationPlan} {n : EntityId}
    {now : Instant} {w w' : World Db Supply} {orphaned : List Edge}
    (h : (consolidationCommit env request plan n now).run w = (.ok orphaned, w')) :
    ∀ p ∈ plan.resolvedParents, plan.observedState p = currentParentState w.durable p := by
  unfold consolidationCommit at h
  rw [Tx.run_db_bind] at h
  obtain ⟨_, v₁, checked, _⟩ := Txn.bind_ok h
  exact consolidationRevalidate_ok (Prod.mk.inj checked).1

/-! ### A consolidation of its own -/

/-- The observation of the preflight, made of a state the parents were active in. -/
theorem consolidationPlan_observed {db : Db} {bulk : Option BulkContext} {request : ConsolidationRequest}
    {plan : ConsolidationPlan} (h : consolidationPlan env db bulk request = .ok plan) :
    plan.observedState = consolidationObservedState db bulk plan.resolvedParents ∧
      resolveAndValidateParentIds env db request.parentIds = .ok plan.resolvedParents := by
  obtain ⟨_, _, h⟩ := Checks.bind_ok h
  obtain ⟨parents, resolved, h⟩ := Checks.bind_ok h
  obtain ⟨_, _, h⟩ := Checks.bind_ok h
  obtain ⟨_, _, h⟩ := Checks.bind_ok h
  obtain ⟨_, _, h⟩ := Checks.bind_ok h
  split at h
  · simp at h
  · obtain rfl := Except.ok.inj h
    exact ⟨rfl, resolved⟩

theorem observeParentState_raw {db : Db} {id : EntityId} {e : Entity} (found : db.entities.find id = some e)
    (raw : e.status = .raw) : observeParentState db id = some (e.contentHash, .raw) := by
  simp [observeParentState, found, Entity.live, raw]

/-- Unmoved parents are still active. -/
theorem rawParents_of_unmoved {before db : Db} {parents : List EntityId} (raw : before.RawParents parents)
    (unmoved : ∀ p ∈ parents, observeParentState before p = currentParentState db p) : db.RawParents parents := by
  refine ⟨fun p member => ?_, raw.distinct⟩
  obtain ⟨e, found, isRaw⟩ := raw.raw p member
  have same := unmoved p member
  rw [observeParentState_raw found isRaw, currentParentState] at same
  obtain ⟨now, here, state⟩ := Option.map_eq_some_iff.mp same.symm
  exact ⟨now, here, (Prod.mk.inj state).2⟩

/-- A savepoint, and the cancellation of pending work behind it. -/
def savepointThen {α : Type} (body : Tx α) (tail : Tx Unit) : Tx α := do
  let a ← savepoint body
  tail
  return a

theorem savepointThen_ok {α : Type} {body : Tx α} {tail : Tx Unit} (jobs : Txn.Settles Db.OnlyJobs tail)
    {w w' : World Db Supply} {a : α} (h : (savepointThen body tail).run w = (.ok a, w')) :
    ∃ v, body.run w = (.ok a, v) ∧ v.durable.OnlyJobs w'.durable := by
  obtain ⟨b, v, committed, rest⟩ := Txn.bind_ok h
  obtain ⟨_, u, cancelled, last⟩ := Txn.bind_ok rest
  obtain ⟨same, rfl⟩ := Prod.mk.inj last
  obtain rfl := Except.ok.inj same
  exact ⟨v, Txn.atomic_ok.mp committed, within_ok jobs.within cancelled⟩

theorem savepointThen_error {α : Type} {body : Tx α} {tail : Tx Unit} (jobs : Txn.Settles Db.OnlyJobs tail)
    {w w' : World Db Supply} {e : Exc} (h : (savepointThen body tail).run w = (.error e, w')) :
    w'.durable = w.durable := by
  rcases Txn.bind_error h with failed | ⟨b, v, _, rest⟩
  · exact (Txn.atomic_error failed).1
  · have total : Txn.Total (tail >>= fun _ => (pure b : Tx α)) := Txn.total_bind jobs.total fun _ => Txn.total_pure b
    exact absurd rest (Txn.total_not_error total)

theorem cancelRetrievalJobs_settles (ids : List EntityId) :
    Txn.Settles Db.OnlyJobs (Txn.forEach cancelRetrievalEmbeddingJobsForEntity ids) :=
  forEach_onlyJobs (fun _ => setJobs_settles _) ids

theorem Db.Merged.jobs {d d' d'' : Db} {n : EntityId} {parents details : List EntityId} (h : d.Merged d' n parents details)
    (jobs : d'.OnlyJobs d'') : d.Merged d'' n parents details :=
  ⟨h.fresh, h.raw, by rw [jobs.entities]; exact h.entities, by rw [jobs.relations]; exact h.relations⟩

/-! ### Batches -/

/-- One committed group of a batch. -/
structure Group where
  id : EntityId
  parents : List EntityId
  details : List EntityId

/-- The groups of a batch, each merged into the state the one before it left. -/
inductive Db.MergedAll : Db → List Group → Db → Prop where
  | nil {d d' : Db} (entities : d'.entities = d.entities) (relations : d'.relations = d.relations) : MergedAll d [] d'
  | cons {d d' d'' : Db} {g : Group} {rest : List Group} (merged : d.Merged d' g.id g.parents g.details)
      (others : MergedAll d' rest d'') : MergedAll d (g :: rest) d''

theorem Db.MergedAll.jobs {d d' d'' : Db} {groups : List Group} (h : d.MergedAll groups d') (jobs : d'.OnlyJobs d'') :
    d.MergedAll groups d'' := by
  induction h with
  | nil entities relations => exact .nil (jobs.entities.trans entities) (jobs.relations.trans relations)
  | cons merged _ ih => exact .cons merged (ih jobs)

/-- What ties a committed group to its item: the parents are those resolved for it, active and as they were
measured when the transaction started. -/
structure Db.Grouped (measured db : Db) (item : ConsolidationItem × List EntityId) (g : Group) : Prop where
  within : ∀ p ∈ g.parents, p ∈ item.2
  covers : ∀ p ∈ item.2, PlainId p → (db.entities.find p).isSome → p ∈ g.parents
  raw : ∀ p ∈ g.parents, ∃ e, db.entities.find p = some e ∧ e.status = .raw
  observed : ∀ p ∈ g.parents, observeParentState measured p = currentParentState db p
  details : ∀ d ∈ g.details, d ∈ normalDetails (item.1.core.detailMemoryIds.getD [])

/-- What is active after a merge was active before it, and is none of its memories. -/
theorem Db.Merged.raw_before {d d' : Db} {n p : EntityId} {parents details : List EntityId} {e : Entity}
    (h : d.Merged d' n parents details) (found : d'.entities.find p = some e) (raw : e.status = .raw) :
    d.entities.find p = some e ∧ p ∉ parents := by
  obtain ⟨now, row, _, merged, _, rows⟩ := h.entities
  obtain ⟨here, rfl⟩ := EntityTable.find_some found
  rw [rows] at here
  rcases List.mem_append.mp here with old | new
  · obtain ⟨before, member, same⟩ := List.mem_map.mp old
    by_cases parent : parents.contains before.id = true
    · rw [archivedAmong, Entity.setIf, if_pos parent] at same
      rw [← same] at raw
      simp [EntityColumns.archive] at raw
    · rw [archivedAmong, Entity.setIf, if_neg parent] at same
      subst same
      exact ⟨EntityTable.find_mem member, fun inside => parent (List.contains_iff_mem.mpr inside)⟩
  · obtain rfl := List.mem_singleton.mp new
    simp [merged] at raw

theorem Db.Merged.still {d d' : Db} {n p : EntityId} {parents details : List EntityId}
    (h : d.Merged d' n parents details) (present : (d.entities.find p).isSome) : (d'.entities.find p).isSome := by
  obtain ⟨now, row, _, _, _, rows⟩ := h.entities
  obtain ⟨e, found⟩ := Option.isSome_iff_exists.mp present
  obtain ⟨here, rfl⟩ := EntityTable.find_some found
  have kept : archivedAmong parents now e ∈ d'.entities.rows := by
    rw [rows]
    exact List.mem_append_left _ (List.mem_map_of_mem here)
  have same : (archivedAmong parents now e).id = e.id := Entity.setIf_id
  rw [← same, EntityTable.find_mem kept]
  rfl

/-- A group of a later item, seen from the start of the transaction. -/
theorem Db.Grouped.before {measured d d' : Db} {n : EntityId} {parents details : List EntityId}
    {item : ConsolidationItem × List EntityId} {g : Group} (later : measured.Grouped d' item g)
    (h : d.Merged d' n parents details) : measured.Grouped d item g ∧ ∀ p ∈ g.parents, p ∉ parents := by
  have unmoved : ∀ p ∈ g.parents, ∃ e, d.entities.find p = some e ∧ d'.entities.find p = some e ∧ e.status = .raw ∧
      p ∉ parents := by
    intro p member
    obtain ⟨e, found, raw⟩ := later.raw p member
    obtain ⟨before, apart⟩ := h.raw_before found raw
    exact ⟨e, before, found, raw, apart⟩
  constructor
  · refine ⟨later.within, fun p member plain present => later.covers p member plain (h.still present), ?_, ?_, later.details⟩
    · intro p member
      obtain ⟨e, before, _, raw, _⟩ := unmoved p member
      exact ⟨e, before, raw⟩
    · intro p member
      obtain ⟨e, before, after, _, _⟩ := unmoved p member
      rw [later.observed p member, currentParentState, currentParentState, before, after]
  · intro p member
    obtain ⟨_, _, _, _, apart⟩ := unmoved p member
    exact apart

/-! #### The parents of an item, resolved again -/

theorem resolveParentIds_covers {db : Db} {names : List String} {resolved parents : List EntityId}
    (h : resolveParentIds env db names resolved = .ok parents) :
    (∀ p ∈ resolved, p ∈ parents) ∧ ∀ p ∈ names, PlainId p → (db.entities.find p).isSome → p ∈ parents := by
  induction names generalizing resolved with
  | nil =>
    obtain rfl := Except.ok.inj h
    exact ⟨fun _ member => member, by simp⟩
  | cons name rest ih =>
    unfold resolveParentIds at h
    dsimp only at h
    split at h
    · simp at h
    · rename_i id resolves
      have named : PlainId name → (db.entities.find name).isSome → id = name := by
        intro plain present
        obtain ⟨e, found⟩ := Option.isSome_iff_exists.mp present
        rw [resolveEntityRef_plain plain found] at resolves
        exact (Option.some.inj resolves).symm
      have assemble : ∀ more, (∀ p ∈ resolved, p ∈ more) → id ∈ more → resolveParentIds env db rest more = .ok parents →
          (∀ p ∈ resolved, p ∈ parents) ∧ ∀ p ∈ name :: rest, PlainId p → (db.entities.find p).isSome → p ∈ parents := by
        intro more grown member h
        obtain ⟨old, new⟩ := ih h
        refine ⟨fun p here => old p (grown p here), fun p here plain present => ?_⟩
        rcases List.mem_cons.mp here with rfl | later
        · exact named plain present ▸ old id member
        · exact new p later plain present
      split at h
      · rename_i known
        exact assemble resolved (fun _ here => here) known h
      · split at h
        · simp at h
        · split at h
          · simp at h
          · exact assemble (resolved ++ [id]) (fun _ here => List.mem_append_left _ here) (by simp) h

theorem resolveAndValidateParentIds_covers {db : Db} {names : List String} {parents : List EntityId}
    (h : resolveAndValidateParentIds env db names = .ok parents) :
    2 ≤ parents.length ∧ ∀ p ∈ names, PlainId p → (db.entities.find p).isSome → p ∈ parents := by
  obtain ⟨resolved, found, h⟩ := Checks.bind_ok h
  split at h
  · simp at h
  · rename_i enough
    obtain rfl := Except.ok.inj h
    exact ⟨Nat.not_lt.mp enough, (resolveParentIds_covers found).2⟩

/-- An item that commits inside the batch's transaction. -/
theorem commitBulkConsolidationItem_merged {measured : Db} {item : ConsolidationItem} {parents : List EntityId}
    {agentId contextId : Option String} {w w' : World Db Supply} {receipt : ConsolidationReceipt} {warnings : List Warning}
    (h : (commitBulkConsolidationItem env measured item parents agentId contextId).run w = (.ok (.ok receipt warnings), w')) :
    ∃ g : Group, receipt.entityId = g.id ∧ measured.Grouped w.durable (item, parents) g ∧
      w.durable.Merged w'.durable g.id g.parents g.details := by
  obtain ⟨plan, orphaned, planned, named, committed⟩ := commitBulkConsolidationItem_ok h
  have raw := consolidationPlan_ok planned
  obtain ⟨observes, resolves⟩ := consolidationPlan_observed planned
  obtain ⟨enough, covers⟩ := resolveAndValidateParentIds_covers resolves
  have unmoved := consolidationCommit_unmoved (w := tick (draw w)) committed
  obtain ⟨details, declared, merged⟩ := consolidationCommit_merged (w := tick (draw w)) raw committed
  refine ⟨⟨_, plan.resolvedParents, details⟩, named, ?_, merged⟩
  have sliced : ∀ p ∈ plan.resolvedParents, p ∈ parents ∧
      observeParentState measured p = currentParentState w.durable p := by
    intro p member
    obtain ⟨e, found, _⟩ := raw.raw p member
    have state := unmoved p member
    rw [observes, consolidationObservedState, if_pos enough] at state
    by_cases inside : parents.contains p = true
    · rw [if_pos inside] at state
      exact ⟨List.contains_iff_mem.mp inside, state⟩
    · rw [if_neg inside] at state
      simp [currentParentState, found] at state
  exact ⟨fun p member => (sliced p member).1, covers, raw.raw, fun p member => (sliced p member).2, declared⟩

theorem forall₂_right {α β : Type} {R : α → β → Prop} {xs : List α} {ys : List β} (tied : List.Forall₂ R xs ys) {y : β}
    (member : y ∈ ys) : ∃ x, R x y := by
  induction tied with
  | nil => simp at member
  | cons first _ ih =>
    rcases List.mem_cons.mp member with rfl | later
    · exact ⟨_, first⟩
    · exact ih later

/-- A batch that returns has merged every item, each group apart from the ones before it. -/
theorem writeBulkConsolidationItems_merged {measured : Db} {agentId contextId : Option String} {index : Nat}
    {items : List (ConsolidationItem × List EntityId)} {w w' : World Db Supply} {receipts : List ConsolidationReceipt}
    (h : (writeBulkConsolidationItems env measured agentId contextId index items).run w = (.ok receipts, w')) :
    ∃ groups : List Group, receipts.map (·.entityId) = groups.map (·.id) ∧
      List.Forall₂ (measured.Grouped w.durable) items groups ∧ w.durable.MergedAll groups w'.durable ∧
      groups.Pairwise fun a b => ∀ p ∈ b.parents, p ∉ a.parents := by
  induction items generalizing index w receipts with
  | nil =>
    obtain ⟨same, rfl⟩ := Prod.mk.inj h
    obtain rfl := Except.ok.inj same
    exact ⟨[], rfl, .nil, .nil rfl rfl, .nil⟩
  | cons entry rest ih =>
    obtain ⟨item, parents⟩ := entry
    unfold writeBulkConsolidationItems at h
    obtain ⟨answer, v, first, others⟩ := Txn.bind_ok h
    cases answer with
    | ok receipt warnings =>
      obtain ⟨later, u, rest, last⟩ := Txn.bind_ok others
      obtain ⟨same, rfl⟩ := Prod.mk.inj last
      obtain rfl := Except.ok.inj same
      obtain ⟨g, named, grouped, merged⟩ := commitBulkConsolidationItem_merged first
      obtain ⟨groups, ids, tied, all, disjoint⟩ := ih rest
      refine ⟨g :: groups, by simp [named, ids], .cons grouped ?_, .cons merged all, .cons ?_ disjoint⟩
      · exact tied.imp fun _ _ later => (later.before merged).1
      · intro b member p inside
        obtain ⟨entry, tie⟩ := forall₂_right tied member
        exact (tie.before merged).2 p inside
    | rejected errors => simp at others
    | failure text => simp at others

/-! ### Whatever other writers did before the transaction -/

/-- Both consolidations, their preflight made of any state and their transaction run on any other. One that raises
leaves its state as it was. One that commits found every parent as it was observed, and has merged each group exactly:
the parents archived, one memory and one lineage edge per parent added, every other row of either table unchanged but
for the edges of the declared details. -/
theorem consolidation_exact (env : Env) :
    (∀ (mode : Mode) (request : ConsolidationRequest) (before : Db) (plan : ConsolidationPlan) (n : EntityId) (now : Instant)
      (w : World Db Supply), consolidationPlan env before none request = .ok plan →
      match (writeTransactionRetrying mode (consolidationCommitSingle env request plan n now)).run w with
      | (.error _, w') => w'.durable = w.durable
      | (.ok _, w') =>
        (∀ p ∈ plan.resolvedParents, observeParentState before p = currentParentState w.durable p) ∧
        ∃ details, (∀ d ∈ details, d ∈ normalDetails (request.core.detailMemoryIds.getD [])) ∧
          w.durable.Merged w'.durable n plan.resolvedParents details) ∧
    (∀ (mode : Mode) (measured : Db) (items : List (ConsolidationItem × List EntityId)) (agentId contextId : Option String)
      (w : World Db Supply),
      match (writeTransactionRetrying mode (writeBulkConsolidations env measured agentId contextId items)).run w with
      | (.error _, w') => w'.durable = w.durable
      | (.ok receipts, w') =>
        ∃ groups : List Group, receipts.map (·.entityId) = groups.map (·.id) ∧
          List.Forall₂ (measured.Grouped w.durable) items groups ∧ w.durable.MergedAll groups w'.durable ∧
          groups.Pairwise fun a b => ∀ p ∈ b.parents, p ∉ a.parents) := by
  constructor
  · intro mode request before plan n now w planned
    have cancels := cancelRetrievalJobs_settles plan.resolvedParents
    split
    · rename_i e w' ran
      exact retrying_error (fun v failed => savepointThen_error cancels failed) ran
    · rename_i orphaned w' ran
      obtain ⟨v, committed, jobs⟩ := savepointThen_ok cancels (retrying_ok.mp ran)
      obtain ⟨observes, _⟩ := consolidationPlan_observed planned
      have unmoved : ∀ p ∈ plan.resolvedParents, observeParentState before p = currentParentState w.durable p := by
        intro p member
        rw [← consolidationCommit_unmoved committed p member, observes]
        rfl
      have raw := rawParents_of_unmoved (consolidationPlan_ok planned) unmoved
      obtain ⟨details, declared, merged⟩ := consolidationCommit_merged raw committed
      exact ⟨unmoved, details, declared, merged.jobs jobs⟩
  · intro mode measured items agentId contextId w
    have cancels := cancelRetrievalJobs_settles (items.flatMap (·.2))
    split
    · rename_i e w' ran
      exact retrying_error (fun v failed => savepointThen_error cancels failed) ran
    · rename_i receipts w' ran
      obtain ⟨v, committed, jobs⟩ := savepointThen_ok cancels (retrying_ok.mp ran)
      obtain ⟨groups, ids, tied, all, disjoint⟩ := writeBulkConsolidationItems_merged committed
      exact ⟨groups, ids, tied, all.jobs jobs, disjoint⟩

def pairMerge : ConsolidationRequest where
  parentIds := ["first", "second"]
  title := some "Both notes"
  content := some "first and second"
  tags := []
  scope := .shared
  overrideJustification := none
  agentId := some "agent"
  contextId := none
  core := ⟨none, none, none, none, none⟩
  metadata := none
  memoryType := none

theorem pairMerge_exact :
    ∃ plan, consolidationPlan .plain pairDb none pairMerge = .ok plan ∧ ∀ (mode : Mode) (n : EntityId) (w : World Db Supply),
      match (writeTransactionRetrying mode (consolidationCommitSingle .plain pairMerge plan n 0)).run w with
      | (.error _, w') => w'.durable = w.durable
      | (.ok _, w') =>
        (∀ p ∈ plan.resolvedParents, observeParentState pairDb p = currentParentState w.durable p) ∧
        ∃ details, (∀ d ∈ details, d ∈ normalDetails (pairMerge.core.detailMemoryIds.getD [])) ∧
          w.durable.Merged w'.durable n plan.resolvedParents details := by
  cases planned : consolidationPlan .plain pairDb none pairMerge with
  | error e =>
    have passes : (consolidationPlan .plain pairDb none pairMerge).isOk = true := by decide +kernel
    rw [planned] at passes
    simp [Except.isOk, Except.toBool] at passes
  | ok plan => exact ⟨plan, rfl, fun mode n w => (consolidation_exact .plain).1 mode pairMerge pairDb plan n 0 w planned⟩

end SaltMdb
