import SaltMdb.Lineage.History
import SaltMdb.Lineage.Query

/-! Lineage rows share their table and its closing statements with the edges of agents. As long as no end of a
lineage edge is archived and no agent invalidates one, every lineage row stays as it was written, and the lineage
query shows it from either end. -/

namespace SaltMdb
open Transactions

variable {env : Env}

/-- A row as its insert wrote it, in force from its creation on. -/
structure Relation.Unended (r : Relation) : Prop where
  validTo : r.validTo = none
  invalidAt : r.invalidAt = none
  validFrom : ∀ t ∈ r.validFrom, t = r.createdAt
  validAt : ∀ t ∈ r.validAt, t = r.createdAt

namespace RelationTable

/-- No lineage row changed, and the new ones are unended. -/
structure KeepsLineage (T U : RelationTable) : Prop where
  kept : ∀ r ∈ T.rows, r.edge.Lineage → r ∈ U.rows
  born : ∀ r ∈ U.rows, r.edge.Lineage → r ∈ T.rows ∨ r.Unended

variable {T U V : RelationTable} {d : RelationDraft} {sel : Relation → Bool} {c : Closing}

theorem KeepsLineage.refl (T : RelationTable) : T.KeepsLineage T :=
  ⟨fun _ member _ => member, fun _ member _ => Or.inl member⟩

theorem KeepsLineage.trans (first : T.KeepsLineage U) (second : U.KeepsLineage V) : T.KeepsLineage V where
  kept := fun r member lineage => second.kept r (first.kept r member lineage) lineage
  born := fun r member lineage => (second.born r member lineage).elim (fun old => first.born r old lineage) Or.inr

theorem mem_lineage {e : Edge} : e ∈ T.lineage ↔ ∃ r ∈ T.rows, r.edge = e ∧ e.Lineage := by
  simp only [lineage, List.mem_filter, List.mem_map]
  constructor
  · rintro ⟨⟨r, member, rfl⟩, lineage⟩
    exact ⟨r, member, rfl, lineage⟩
  · rintro ⟨r, member, rfl, lineage⟩
    exact ⟨⟨r, member, rfl⟩, lineage⟩

/-- Ending rows that are no lineage. -/
theorem closeWhere_keepsLineage (spared : ∀ r ∈ T.rows, r.edge.Lineage → sel r = false) :
    T.KeepsLineage (T.closeWhere sel c) := by
  have same : ∀ r ∈ T.rows, r.edge.Lineage → r.closeIf sel c = r := by
    intro r member lineage
    rw [Relation.closeIf, spared r member lineage]
    rfl
  constructor
  · intro r member lineage
    exact mem_closeWhere.mpr ⟨r, member, same r member lineage⟩
  · intro r member lineage
    obtain ⟨old, here, rfl⟩ := mem_closeWhere.mp member
    rw [Relation.closeIf_edge] at lineage
    rw [same old here lineage]
    exact Or.inl here

theorem push_keepsLineage (free : ¬ T.Holds d.edge) (unended : d.edge.Lineage → (d.row T.next).Unended) :
    T.KeepsLineage (T.push d free) := by
  constructor
  · intro r member _
    exact mem_push.mpr (Or.inl member)
  · intro r member lineage
    rcases mem_push.mp member with old | rfl
    · exact Or.inl old
    · exact Or.inr (unended lineage)

/-- A store ends at most an edge of its own predicate, which no lineage edge has. -/
theorem closeStale_keepsLineage {e : Edge} {now : Instant} (semantic : ¬ e.Lineage) :
    T.KeepsLineage (closeStale ((staleEdge T e).map (·.id)) now T) := by
  cases stale : staleEdge T e with
  | none => exact .refl T
  | some row =>
    obtain ⟨member, _, _, predicate, _⟩ := fetchStale_some (staleEdge_some stale).2
    refine closeWhere_keepsLineage fun r here lineage => beq_eq_false_iff_ne.mpr fun same => ?_
    rw [id_unique here member same, Edge.Lineage, Relation.edge, predicate] at lineage
    exact semantic lineage

theorem storedTable_keepsLineage {now : Instant} (free : ¬ T.Holds d.edge) (semantic : ¬ d.edge.Lineage) :
    T.KeepsLineage (storedTable T now d) := by
  obtain ⟨open_, table⟩ := storedTable_push now free
  rw [table]
  exact (closeStale_keepsLineage semantic).trans (push_keepsLineage open_ fun lineage => absurd lineage semantic)

end RelationTable

def Db.KeepsLineage (d d' : Db) : Prop := d.relations.KeepsLineage d'.relations

theorem Db.keepsLineage_of_eq {d d' : Db} (same : d'.relations = d.relations) : d.KeepsLineage d' := by
  rw [Db.KeepsLineage, same]
  exact .refl _

theorem not_lineage_of_selectable {e : Edge} (selectable : e.Selectable) : ¬ e.Lineage := by
  intro lineage
  rw [Edge.Lineage, selectable_not_lineage selectable] at lineage
  exact Bool.false_ne_true lineage

theorem StoreCall.keepsLineage {args : StoreRelationArgs} {now : Instant} {d d' : Db} {r : Envelope RelationReceipt}
    (call : StoreCall env args now d r d') : d.KeepsLineage d' := by
  cases call with
  | refused errors expected endpoints => exact RelationTable.KeepsLineage.refl _
  | written source target r d' endpoints outcome =>
    cases outcome with
    | existing id note holds => exact RelationTable.KeepsLineage.refl _
    | rejected errors expected fresh refused => exact RelationTable.KeepsLineage.refl _
    | created receipt d' admitted creation =>
      have selectable : ((args.request source target now).edge d).Selectable := by
        rw [Edge.Selectable, RelationWriteRequest.edge_predicate]
        exact (storeRelationEndpoints_ok endpoints).2.2
      rw [Db.KeepsLineage, creation.relations]
      exact RelationTable.storedTable_keepsLineage creation.fresh (not_lineage_of_selectable selectable)

/-! ### What has to be spared -/

/-- No lineage edge, active or not, has the memory at an end. -/
def SparesLineage (db : Db) (id : EntityId) : Prop := ∀ e ∈ db.relations.lineage, e.source ≠ id ∧ e.target ≠ id

/-- The edge an invalidation names is no lineage edge. -/
def NamesNoLineage (env : Env) (db : Db) (args : InvalidateRelationArgs) : Prop :=
  ∀ source target, invalidateRelationEndpoints env db args = .ok (source, target) →
    ⟨source, canonicalPredicate db args.predicate, target⟩ ∉ db.relations.lineage

theorem InvalidateCall.keepsLineage {args : InvalidateRelationArgs} {d d' : Db} {r : Envelope RelationReceipt}
    (named : NamesNoLineage env d args) (call : InvalidateCall env args d r d') : d.KeepsLineage d' := by
  cases call with
  | refused errors expected => exact RelationTable.KeepsLineage.refl _
  | written source target r d' endpoints outcome =>
    cases outcome with
    | missing => exact RelationTable.KeepsLineage.refl _
    | already id message => exact RelationTable.KeepsLineage.refl _
    | closed receipt row at_ member active same open_ =>
      refine RelationTable.closeWhere_keepsLineage fun r here lineage => beq_eq_false_iff_ne.mpr fun sameId => ?_
      obtain rfl := RelationTable.id_unique here member sameId
      exact named source target endpoints (RelationTable.mem_lineage.mpr ⟨r, here, same, same ▸ lineage⟩)

theorem invalidateRelationEndpoints_congr {d d' : Db} (same : d'.entities = d.entities) (args : InvalidateRelationArgs) :
    invalidateRelationEndpoints env d' args = invalidateRelationEndpoints env d args := by
  simp only [invalidateRelationEndpoints, resolveEndpoints, endpointError, resolveEntityRef_congr env same]

theorem canonicalPredicate_congr {d d' : Db} (same : d'.predicates = d.predicates) (predicate : String) :
    canonicalPredicate d' predicate = canonicalPredicate d predicate := by
  simp only [canonicalPredicate, resolveOrCreatePredicate, same]

theorem namesNoLineage_moved {d d' : Db} {args : InvalidateRelationArgs} (named : NamesNoLineage env d args)
    (moved : d.OnlyRelations Edge.Selectable d') : NamesNoLineage env d' args := by
  intro source target endpoints
  rw [invalidateRelationEndpoints_congr moved.entities] at endpoints
  rw [canonicalPredicate_congr moved.predicates, lineage_grows (selectable_quiet moved).grows]
  exact named source target endpoints

theorem keepsLineage_kept (env : Env) : Kept env Db.KeepsLineage SparesLineage (NamesNoLineage env) where
  refl := fun _ => .refl _
  trans := fun _ _ _ h k => h.trans k
  silent := fun _ relations => Db.keepsLineage_of_eq relations
  arrive := fun _ _ _ => Db.keepsLineage_of_eq rfl
  update := fun _ _ _ _ => Db.keepsLineage_of_eq rfl
  store := StoreCall.keepsLineage
  invalidate := InvalidateCall.keepsLineage
  archive := by
    intro d id now spared
    refine RelationTable.closeWhere_keepsLineage fun r member lineage => ?_
    obtain ⟨source, target⟩ := spared r.edge (RelationTable.mem_lineage.mpr ⟨r, member, rfl, lineage⟩)
    simp only [Relation.edge] at source target
    simp [Relation.touches, source, target]
  names_detail := by
    intro d args predicate source target _ member
    obtain ⟨_, _, _, lineage⟩ := RelationTable.mem_lineage.mp member
    have plain : isLineage "elaborates_on" = true := by
      rw [predicate, canonicalPredicate_elaborates] at lineage
      exact lineage
    exact absurd plain (by decide)
  names_moved := namesNoLineage_moved
  spares_archive := by
    intro d id now other spared
    have same : (d.archive other now).relations.lineage = d.relations.lineage :=
      lineage_grows RelationTable.grows_closeWhere
    rw [SparesLineage, same]
    exact spared
  spares_silent := fun spared same => by
    rw [SparesLineage, same]
    exact spared

/-! ### The operations that record lineage -/

theorem insertRelation_keepsLineage {draft : RelationDraft}
    (unended : draft.edge.Lineage → ∀ id, (draft.row id).Unended) :
    Txn.Within Db.KeepsLineage (insertRelation draft) := by
  refine Txn.within_read_bind fun w => ?_
  cases inserted : w.durable.relations.insertOrIgnore draft with
  | none => exact RelationTable.KeepsLineage.refl _
  | some U =>
    obtain ⟨free, rfl⟩ := RelationTable.insertOrIgnore_some inserted
    exact RelationTable.push_keepsLineage free fun lineage => unended lineage _

/-- The row of that id has the edge it had, and no new row will have the id. -/
def RelationTable.Knows (T : RelationTable) (r : Relation) : Prop :=
  r.id < T.next ∧ ∀ row ∈ T.rows, row.id = r.id → row.edge = r.edge

theorem knows_of_mem {T : RelationTable} {r : Relation} (member : r ∈ T.rows) : T.Knows r :=
  ⟨T.below r member, fun row here same => by rw [RelationTable.id_unique here member same]⟩

theorem knows_closeWhere {T : RelationTable} {r : Relation} (known : T.Knows r) (sel : Relation → Bool) (c : Closing) :
    (T.closeWhere sel c).Knows r := by
  refine ⟨known.1, fun row member same => ?_⟩
  obtain ⟨old, here, rfl⟩ := RelationTable.mem_closeWhere.mp member
  rw [Relation.closeIf_edge]
  exact known.2 old here (by simpa using same)

theorem knows_push {T : RelationTable} {r : Relation} (known : T.Knows r) {d : RelationDraft} (free : ¬ T.Holds d.edge) :
    (T.push d free).Knows r := by
  refine ⟨Nat.lt_succ_of_lt known.1, fun row member same => ?_⟩
  rcases RelationTable.mem_push.mp member with old | rfl
  · exact known.2 row old same
  · exact absurd same (Nat.ne_of_gt known.1)

/-- One repointed edge: lineage is kept, and the edges still to come stay known. -/
theorem repointEdge_keepsLineage (sourceIsCore : Bool) (resolvedId newId : EntityId) (now : Instant)
    (progress : RepointProgress) {r : Relation} (semantic : ¬ r.edge.Lineage) {w : World Db Supply}
    (known : w.durable.relations.Knows r) :
    ∃ progress' w', (repointEdge sourceIsCore resolvedId newId now progress r).run w = (.ok progress', w') ∧
      w.durable.KeepsLineage w'.durable ∧
      ∀ other, w.durable.relations.Knows other → w'.durable.relations.Knows other := by
  unfold repointEdge
  split
  · exact ⟨_, w, rfl, RelationTable.KeepsLineage.refl _, fun _ h => h⟩
  · have closed : w.durable.relations.KeepsLineage (w.durable.relations.closeId r.id ⟨now, some now⟩) := by
      refine RelationTable.closeWhere_keepsLineage fun row member lineage => beq_eq_false_iff_ne.mpr fun same => ?_
      rw [known.2 row member same] at lineage
      exact semantic lineage
    rw [Txn.bind_run_ok (Tx.run_setRelations _ w), Tx.run_db_bind]
    dsimp only
    cases inserted : (w.durable.relations.closeId r.id ⟨now, some now⟩).insertOrIgnore
        (repointDraft (r.edge.repoint resolvedId newId) now) with
    | none => exact ⟨_, _, rfl, closed, fun _ h => knows_closeWhere h _ _⟩
    | some U =>
      obtain ⟨free, rfl⟩ := RelationTable.insertOrIgnore_some inserted
      refine ⟨_, _, rfl, closed.trans (RelationTable.push_keepsLineage free fun lineage => absurd lineage semantic), fun _ h => ?_⟩
      exact knows_push (knows_closeWhere h _ _) free

theorem repointEdges_keepsLineage (sourceIsCore : Bool) (resolvedId newId : EntityId) (now : Instant)
    {edges : List Relation} (semantic : ∀ r ∈ edges, ¬ r.edge.Lineage) (progress : RepointProgress)
    {w : World Db Supply} (known : ∀ r ∈ edges, w.durable.relations.Knows r) :
    w.durable.KeepsLineage
      ((repointEdges sourceIsCore resolvedId newId now progress edges).run w).2.durable := by
  induction edges generalizing progress w with
  | nil => exact RelationTable.KeepsLineage.refl _
  | cons r rest ih =>
    obtain ⟨progress', v, ran, kept, knows⟩ := repointEdge_keepsLineage sourceIsCore resolvedId newId now progress
      (semantic r List.mem_cons_self) (known r List.mem_cons_self)
    unfold repointEdges
    rw [Txn.bind_run_ok ran]
    refine RelationTable.KeepsLineage.trans kept (ih (fun r' member => semantic r' (List.mem_cons_of_mem _ member)) progress' fun r' member => ?_)
    exact knows r' (known r' (List.mem_cons_of_mem _ member))

theorem replacementRepointEdges_keepsLineage (resolvedId newId : EntityId) (now : Instant) :
    Txn.Within Db.KeepsLineage (replacementRepointEdges resolvedId newId now) := by
  refine Txn.within_read_bind fun w => ?_
  exact repointEdges_keepsLineage _ resolvedId newId now (fun r member => worklist_semantic member) _
    fun r member => knows_of_mem (List.mem_filter.mp member).1

theorem lineageDraft_unended (plan : ReplacementPlan) (operation : Operation) (newId : EntityId) (id : RelationId) :
    ((plan.lineageDraft operation newId).row id).Unended where
  validTo := rfl
  invalidAt := rfl
  validFrom := fun _ same => (Option.some.inj same).symm
  validAt := fun _ same => (Option.some.inj same).symm

theorem consolidationLineageDraft_unended (n : EntityId) (now : Instant) (parent : EntityId) (id : RelationId) :
    ((consolidationLineageDraft n now parent).row id).Unended where
  validTo := rfl
  invalidAt := rfl
  validFrom := fun _ same => (Option.some.inj same).symm
  validAt := fun _ same => absurd same (Option.not_mem_none _)

section
variable (env)

theorem replacementBody_keepsLineage (operation : Operation) (plan : ReplacementPlan) (repoint : Bool)
    (newId : EntityId) (state : CoreState) :
    Txn.Within Db.KeepsLineage (replacementBody env operation plan repoint newId state) := by
  have kept := keepsLineage_kept env
  have coreTags : Txn.Within Db.KeepsLineage (replacementInsertCoreTags env plan newId state) :=
    kept.when_ (kept.bind (kept.tags (linkCoreTag_settles newId plan.agentId)) fun _ => kept.reconcile _ _ _ _)
  have inserted : Txn.Within Db.KeepsLineage (replacementInsertEntity env plan operation newId state) := by
    unfold replacementInsertEntity
    refine kept.bind (kept.insertEntity _) fun _ => kept.bind (kept.tags (insertReplacementTags_settles _ _ _ _)) fun _ => ?_
    refine kept.bind coreTags fun _ => kept.bind (kept.updateEntities fun _ => Or.inr rfl) fun _ => ?_
    refine kept.bind (kept.jobs (replacementEnqueueJobs_settles plan newId)) fun _ => ?_
    exact insertRelation_keepsLineage fun _ => lineageDraft_unended plan operation newId
  unfold replacementBody
  refine kept.bind inserted fun relationId => ?_
  cases repoint with
  | true => exact kept.bind (replacementRepointEdges_keepsLineage _ _ _) fun _ => kept.pure _
  | false => exact kept.pure _

theorem consolidationCommit_keepsLineage (request : ConsolidationRequest) (plan : ConsolidationPlan) (n : EntityId)
    (now : Instant) : Txn.Within Db.KeepsLineage (consolidationCommit env request plan n now) := by
  have kept := keepsLineage_kept env
  unfold consolidationCommit
  refine kept.bind kept.db fun db => kept.bind (kept.ofExcept _) fun _ => kept.bind (kept.ofExcept _) fun state => ?_
  unfold consolidationBody
  refine kept.bind (kept.when_ (kept.tags (logEvent_settles _ _))) fun _ => ?_
  refine kept.bind (kept.bind (kept.insertEntity _) fun _ => kept.when_ (kept.reconcile _ _ _ _)) fun _ => ?_
  refine kept.bind ?_ fun _ => kept.bind kept.db fun db => kept.bind ?_ fun _ => kept.pure _
  · unfold consolidationArchiveParents
    refine kept.bind (kept.jobs (enqueueEmbeddingJobs_settles _ _ _ _)) fun _ => ?_
    refine kept.bind (kept.tags (insertTags_settles _ _ _)) fun _ => ?_
    refine kept.bind (kept.when_ (kept.tags (linkCoreTag_settles _ _))) fun _ => ?_
    refine kept.bind (kept.updateEntities fun _ => Or.inr rfl) fun _ => ?_
    exact kept.jobs (forEach_onlyJobs cancelJobs_settles _)
  · refine kept.forEach (fun parent => ?_) _
    exact kept.bind (insertRelation_keepsLineage fun _ => consolidationLineageDraft_unended n now parent) fun _ => kept.pure _

theorem keepsLineage_recording : Kept.Recording env Db.KeepsLineage := by
  refine (keepsLineage_kept env).recording ?_ ?_
  · intro operation plan repoint n _ state w w' receipt _ _ body
    exact within_ok (replacementBody_keepsLineage env operation plan repoint n state) body
  · intro _ request plan n now w w' orphaned _ ran
    exact within_ok (consolidationCommit_keepsLineage env request plan n now) ran

end

/-! ### Runs -/

/-- A lineage row is active, and from its creation on the lineage of its source shows its target. -/
def Relation.Reached (env : Env) (db : Db) (r : Relation) : Prop :=
  r.active = true ∧ ∀ reference agentId maxDepth t,
    (resolveEntityRef env db reference agentId).resolved = some r.sourceId → r.visibleTo db agentId = true →
    1 ≤ maxDepth → r.createdAt ≤ t → Reaches (getLineage env db reference .ancestors maxDepth t agentId) r.targetId

def Db.LineageReached (env : Env) (db : Db) : Prop := ∀ r ∈ db.relations.rows, r.edge.Lineage → r.Reached env db

theorem datetime_mono {a b : Instant} (h : a ≤ b) : datetime a ≤ datetime b := Int.ediv_le_ediv (by decide) h

theorem unended_validIn {r : Relation} (unended : r.Unended) {t : Instant} (later : r.createdAt ≤ t) :
    r.validIn t = true := by
  have began : ∀ o : Option Instant, (∀ x ∈ o, x = r.createdAt) → o.all (datetime · ≤ datetime t) = true := by
    intro o same
    cases o with
    | none => rfl
    | some x =>
      obtain rfl := same x rfl
      simpa using datetime_mono later
  simp only [Relation.validIn, unended.validTo, unended.invalidAt, Option.all_none, Bool.and_true,
    began _ unended.validFrom, began _ unended.validAt]

theorem unended_reached {db : Db} {r : Relation} (member : r ∈ db.relations.rows) (lineage : r.edge.Lineage)
    (unended : r.Unended) : r.Reached env db := by
  refine ⟨by simp [Relation.active, unended.validTo], fun reference agentId maxDepth t resolved visible deep later => ?_⟩
  exact getLineage_reaches .ancestors member lineage (unended_validIn unended later) visible deep resolved

/-- The calls that spare lineage: they archive no end of a lineage edge and invalidate none. -/
def Call.SparesLineage (env : Env) (call : Mode × Call) (w : World Db Supply) : Prop :=
  call.2.Allowed env SaltMdb.SparesLineage (NamesNoLineage env) w

theorem next_keepsLineage {w : World Db Supply} {call : Mode × Call} (spares : Call.SparesLineage env call w) :
    w.durable.KeepsLineage (Call.next env w call).durable :=
  (keepsLineage_kept env).next (keepsLineage_recording env) spares

/-- In a run that spares lineage every lineage row ever written stays as it is and stays reached. -/
theorem states_lineageReached {calls : List (Mode × Call)} {supply : Supply}
    (spares : Call.Guarded env (Call.SparesLineage env) calls ⟨.init, supply⟩) :
    (∀ v ∈ Call.states env calls ⟨.init, supply⟩, v.durable.LineageReached env) ∧
      (Call.states env calls ⟨.init, supply⟩).Pairwise fun earlier later =>
        ∀ r ∈ earlier.durable.relations.rows, r.edge.Lineage → r ∈ later.durable.relations.rows := by
  constructor
  · have unended : ∀ v ∈ Call.states env calls ⟨.init, supply⟩,
        ∀ r ∈ v.durable.relations.rows, r.edge.Lineage → r.Unended := by
      refine Runs.invariant_of_guarded (fun w call holds spares r member lineage => ?_)
        (fun r member => absurd member List.not_mem_nil) spares
      exact ((next_keepsLineage spares).born r member lineage).elim (fun old => holds r old lineage) fun new => new
    exact fun v reached r member lineage => unended_reached member lineage (unended v reached r member lineage)
  · have moves := Runs.pairwise_of_guarded (R := fun a b : World Db Supply => a.durable.KeepsLineage b.durable)
      (fun _ _ _ h k => h.trans k) (fun _ _ => next_keepsLineage) spares
    exact moves.imp fun kept => kept.kept

def revisedNote : List (Mode × Call) :=
  [(.direct, .storeMemory (noteRequest "note" "A note" "as first written" undeclared)),
    (.coordinator, .replaceMemory .revises (replacementRequest "note" "A note" "as revised" ["#notes"] undeclared))]

theorem revisedNote_reached :
    (∀ v ∈ Call.states .plain revisedNote freshWorld, v.durable.LineageReached .plain) ∧
      (Call.states .plain revisedNote freshWorld).Pairwise fun earlier later =>
        ∀ r ∈ earlier.durable.relations.rows, r.edge.Lineage → r ∈ later.durable.relations.rows :=
  states_lineageReached ⟨trivial, trivial, trivial⟩

/-- The revision is archived afterwards: its lineage row ends with it. -/
def archivedRevision : List (Mode × Call) := revisedNote ++ [(.direct, .archiveMemory (some (drawn 1)) (some "agent"))]

theorem archivedRevision_unreached :
    ¬ ∀ v ∈ Call.states .plain archivedRevision freshWorld, v.durable.LineageReached .plain := by
  intro reached
  have last := reached ((Call.states .plain archivedRevision freshWorld).get ⟨3, by decide⟩) (List.get_mem _ _)
  have ended : ∃ r ∈ ((Call.states .plain archivedRevision freshWorld).get ⟨3, by decide⟩).durable.relations.rows,
      isLineage r.edge.predicate = true ∧ r.active = false := by decide
  obtain ⟨r, member, lineage, inactive⟩ := ended
  exact Bool.false_ne_true (inactive.symm.trans (last r member lineage).1)

end SaltMdb
