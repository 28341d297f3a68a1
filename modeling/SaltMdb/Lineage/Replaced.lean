import SaltMdb.Lineage.Forest

/-! A replacement moves the database by one succession of the abstract state, or not at all. -/

namespace SaltMdb
open Transactions

variable {env : Env}

/-- A database that gained a memory, archived the ones it succeeds and recorded that moved by one succession. -/
theorem succeeds_by {d d' : Db} (n : EntityId) (olds : List EntityId) (fresh : d.entities.find n = none)
    (live : ∀ o ∈ olds, ∃ e, d.entities.find o = some e ∧ e.status = .raw) (distinct : olds.Nodup)
    (ids : d'.entities.rows.map (·.id) = d.entities.rows.map (·.id) ++ [n])
    (retired : ∀ a, d'.entities.retired a ↔ d.entities.retired a ∨ a ∈ olds)
    (lineage : ∃ predicate, d'.relations.lineage = d.relations.lineage ++ olds.map fun o => ⟨n, predicate, o⟩) :
    d.Succeeds d' := by
  obtain ⟨predicate, lineage⟩ := lineage
  have step : Succession.Step d.succession ⟨d.succession.nodes ++ [n], fun a => d.succession.retired a ∨ a ∈ olds,
      d.succession.edges ++ olds.map fun o => (n, o)⟩ := by
    refine .succeed n olds ?_ ?_ ?_ distinct
    · intro member
      obtain ⟨e, here, same⟩ := List.mem_map.mp member
      exact EntityTable.find_none.mp fresh e here same
    · intro o chosen
      obtain ⟨e, found, _⟩ := live o chosen
      obtain ⟨here, same⟩ := EntityTable.find_some found
      exact List.mem_map.mpr ⟨e, here, same⟩
    · rintro o chosen ⟨e, found, archived⟩
      obtain ⟨e', found', raw⟩ := live o chosen
      rw [found] at found'
      obtain rfl := Option.some.inj found'
      simp [archived] at raw
  have after : d'.succession = ⟨d.succession.nodes ++ [n], fun a => d.succession.retired a ∨ a ∈ olds,
      d.succession.edges ++ olds.map fun o => (n, o)⟩ := by
    simp only [Db.succession, ids, lineage, List.map_append, List.map_map, Function.comp_def, Succession.State.mk.injEq,
      true_and, and_true]
    exact funext fun a => propext (retired a)
  rw [Db.Succeeds, after]
  exact .single step

/-- The statuses once a live row was added and the rows `sel` selects were archived. -/
theorem retired_append_archive {T : EntityTable} {e : Entity} {free : T.find e.id = none} {sel : Entity → Bool}
    {f : EntityColumns → EntityColumns} {olds : List EntityId} (live : e.status ≠ .archived) (spared : sel e = false)
    (archives : ∀ c, (f c).status = .archived) (present : ∀ o ∈ olds, ∃ x, T.find o = some x)
    (selects : ∀ x ∈ T.rows, sel x = true ↔ x.id ∈ olds) (a : EntityId) :
    ((T.append e free).updateWhere sel f).retired a ↔ T.retired a ∨ a ∈ olds := by
  simp only [EntityTable.retired, EntityTable.find_updateWhere, EntityTable.find_append]
  by_cases same : a = e.id
  · subst a
    have absent : e.id ∉ olds := by
      intro chosen
      obtain ⟨x, found⟩ := present _ chosen
      simp [free] at found
    simp [free, absent, Entity.setIf, spared, live]
  · rw [if_neg same]
    cases found : T.find a with
    | none =>
      have absent : a ∉ olds := by
        intro chosen
        obtain ⟨x, here⟩ := present _ chosen
        simp [found] at here
      simp [absent]
    | some x =>
      obtain ⟨here, rfl⟩ := EntityTable.find_some found
      have chosen := selects x here
      simp only [Option.map_some, Option.some.injEq, exists_eq_left', Entity.setIf]
      by_cases selected : sel x = true
      · simp [selected, archives, chosen.mp selected]
      · simp [selected, mt chosen.mpr selected]

/-! ### Plain inserts -/

theorem insertEntity_ok {e : Entity} {w w' : World Db Supply} (h : (insertEntity e).run w = (.ok (), w')) :
    ∃ free, w'.durable = { w.durable with entities := w.durable.entities.append e free } := by
  unfold insertEntity at h
  rw [Tx.run_db_bind] at h
  cases inserted : w.durable.entities.insert e with
  | none =>
    rw [inserted] at h
    simp at h
  | some U =>
    rw [inserted] at h
    obtain ⟨free, rfl⟩ := EntityTable.insert_some inserted
    obtain ⟨_, rfl⟩ := Prod.mk.inj h
    exact ⟨free, rfl⟩

theorem insertRelation_ok {d : RelationDraft} {w w' : World Db Supply} {id : RelationId}
    (h : (insertRelation d).run w = (.ok id, w')) :
    ∃ free, w'.durable = { w.durable with relations := w.durable.relations.push d free } ∧
      id = w.durable.relations.next := by
  unfold insertRelation at h
  rw [Tx.run_db_bind] at h
  cases inserted : w.durable.relations.insertOrIgnore d with
  | none =>
    rw [inserted] at h
    simp at h
  | some U =>
    rw [inserted] at h
    obtain ⟨free, rfl⟩ := RelationTable.insertOrIgnore_some inserted
    obtain ⟨given, rfl⟩ := Prod.mk.inj h
    exact ⟨free, rfl, (Except.ok.inj given).symm⟩

theorem lineage_push {T : RelationTable} {d : RelationDraft} {free : ¬ T.Holds d.edge} (lineage : d.edge.Lineage) :
    (T.push d free).lineage = T.lineage ++ [d.edge] := by
  have kept : [d.edge].filter (fun e => isLineage e.predicate) = [d.edge] := by
    rw [List.filter_singleton, show isLineage d.edge.predicate = true from lineage]
    rfl
  simp only [RelationTable.lineage, RelationTable.push, List.map_append, List.map_singleton, RelationDraft.row_edge,
    List.filter_append, kept]

/-! ### Replacement -/

theorem replacementTarget_ok {db : Db} {ref : String} {e : Entity} (h : replacementTarget env db ref = .ok e) :
    db.entities.find e.id = some e ∧ e.status = .raw := by
  unfold replacementTarget at h
  dsimp only at h
  split at h
  · simp at h
  · split at h
    · simp at h
    · rename_i target found
      split at h
      · simp at h
      · rename_i raw
        obtain rfl := Except.ok.inj h
        obtain ⟨id, _, here⟩ := Option.bind_eq_some_iff.mp found
        obtain ⟨member, rfl⟩ := EntityTable.find_some here
        exact ⟨here, not_not.mp raw⟩

theorem repointEdge_quiet (sourceIsCore : Bool) (resolvedId newId : EntityId) (now : Instant) (progress : RepointProgress)
    {r : Relation} (semantic : ¬ r.edge.Lineage) :
    Txn.Within Db.Quiet (repointEdge sourceIsCore resolvedId newId now progress r) := by
  unfold repointEdge
  split
  · exact Txn.within_pure Db.Quiet.refl _
  · refine Txn.within_bind (fun _ _ _ h k => h.trans k) (fun w => ⟨rfl, RelationTable.grows_closeWhere⟩) fun _ => ?_
    refine Txn.within_read_bind fun w => ?_
    dsimp only
    cases inserted : w.durable.relations.insertOrIgnore (repointDraft (r.edge.repoint resolvedId newId) now) with
    | none => exact Db.Quiet.refl _
    | some U =>
      obtain ⟨free, rfl⟩ := RelationTable.insertOrIgnore_some inserted
      exact ⟨rfl, RelationTable.grows_push free semantic⟩

theorem repointEdges_quiet (sourceIsCore : Bool) (resolvedId newId : EntityId) (now : Instant) {edges : List Relation}
    (semantic : ∀ r ∈ edges, ¬ r.edge.Lineage) (progress : RepointProgress) :
    Txn.Within Db.Quiet (repointEdges sourceIsCore resolvedId newId now progress edges) := by
  induction edges generalizing progress with
  | nil => exact Txn.within_pure Db.Quiet.refl _
  | cons r rest ih =>
    refine Txn.within_bind (fun _ _ _ h k => h.trans k)
      (repointEdge_quiet sourceIsCore resolvedId newId now progress (semantic r List.mem_cons_self)) ?_
    exact ih fun r' member => semantic r' (List.mem_cons_of_mem _ member)

theorem worklist_semantic {db : Db} {id : EntityId} {r : Relation} (member : r ∈ semanticEdgeWorklist db id) :
    ¬ r.edge.Lineage := by
  have facts := (List.mem_filter.mp member).2
  simp only [Bool.and_eq_true, Bool.not_eq_true'] at facts
  exact fun lineage => Bool.false_ne_true (facts.2.symm.trans lineage)

theorem replacementRepointEdges_quiet (resolvedId newId : EntityId) (now : Instant) :
    Txn.Within Db.Quiet (replacementRepointEdges resolvedId newId now) := by
  refine Txn.within_read_bind fun w => ?_
  exact repointEdges_quiet _ resolvedId newId now (fun r member => worklist_semantic member) _ w

theorem within_ok {α : Type} {R : Db → Db → Prop} {m : Tx α} (h : Txn.Within R m) {w w' : World Db Supply} {a : α}
    (ran : m.run w = (.ok a, w')) : R w.durable w'.durable := by
  have kept := h w
  rw [ran] at kept
  exact kept

theorem archivePredecessor_ok {id : EntityId} {now : Instant} {w w' : World Db Supply}
    (h : (archivePredecessor id now).run w = (.ok (), w')) :
    w'.durable = { w.durable with
      entities := w.durable.entities.updateWhere (fun e => e.id == id && e.status == .raw) (·.archive now) } := by
  obtain ⟨_, rfl⟩ := Prod.mk.inj h
  rfl

theorem lineageDraft_lineage (plan : ReplacementPlan) (operation : Operation) (newId : EntityId) :
    (plan.lineageDraft operation newId).edge.Lineage := by
  have listed : isLineage operation.text = true := by cases operation <;> decide
  exact listed

/-- The writes of an insert that returns: `u` has the new row, from `u` to `v` the details of a core get their edges,
and then the old memory is archived and the lineage recorded. -/
theorem replacementInsertEntity_ok {operation : Operation} {plan : ReplacementPlan} {newId : EntityId} {state : CoreState}
    {w w' : World Db Supply} {relationId : RelationId}
    (h : (replacementInsertEntity env plan operation newId state).run w = (.ok relationId, w')) :
    ∃ free u v, u.durable.entities = w.durable.entities.append (plan.row newId state) free ∧
      u.durable.relations = w.durable.relations ∧
      (Tx.when_ state.isCore (reconcileDetailRelations env newId plan.agentId state.coreDetailMemoryIds [])).run u =
        (.ok (), v) ∧
      w'.durable.entities =
        v.durable.entities.updateWhere (fun e => e.id == plan.resolvedId && e.status == .raw) (·.archive plan.now) ∧
      ∃ open_, w'.durable.relations = v.durable.relations.push (plan.lineageDraft operation newId) open_ ∧
        relationId = v.durable.relations.next := by
  unfold replacementInsertEntity at h
  obtain ⟨_, v₁, entity, h⟩ := Txn.bind_ok h
  obtain ⟨_, v₂, tags, h⟩ := Txn.bind_ok h
  obtain ⟨_, v₃, core, h⟩ := Txn.bind_ok h
  obtain ⟨_, v₄, archived, h⟩ := Txn.bind_ok h
  obtain ⟨_, v₅, jobs, lineage⟩ := Txn.bind_ok h
  obtain ⟨free, entity⟩ := insertEntity_ok entity
  have tags := within_ok (insertReplacementTags_settles _ _ _ _).within tags
  have archived := archivePredecessor_ok archived
  have jobs := within_ok (replacementEnqueueJobs_settles plan newId).within jobs
  obtain ⟨open_, lineage, recorded⟩ := insertRelation_ok lineage
  have archivedRelations : v₅.durable.relations = v₃.durable.relations := by rw [jobs.relations, archived]
  have last : w'.durable.entities = v₃.durable.entities.updateWhere
      (fun e => e.id == plan.resolvedId && e.status == .raw) (·.archive plan.now) := by
    rw [lineage]
    dsimp only
    rw [jobs.entities, archived]
  have pushed : ∃ open_, w'.durable.relations = v₃.durable.relations.push (plan.lineageDraft operation newId) open_ ∧
      relationId = v₃.durable.relations.next := by
    rw [archivedRelations] at recorded
    exact ⟨archivedRelations ▸ open_, by rw [lineage]; simp only [archivedRelations], recorded⟩
  cases isCore : state.isCore with
  | false =>
    unfold replacementInsertCoreTags at core
    rw [isCore] at core
    obtain ⟨_, rfl⟩ := Prod.mk.inj core
    exact ⟨free, v₂, v₂, by rw [tags.entities, entity], by rw [tags.relations, entity], rfl, last, pushed⟩
  | true =>
    unfold replacementInsertCoreTags at core
    rw [isCore] at core
    obtain ⟨_, u, linked, details⟩ := Txn.bind_ok (m := linkCoreTag env newId plan.agentId) core
    have linked := within_ok (linkCoreTag_settles _ _).within linked
    exact ⟨free, u, v₃, by rw [linked.entities, tags.entities, entity], by rw [linked.relations, tags.relations, entity],
      details, last, pushed⟩

/-- The memories after a replacement: the new row, and the old one archived. -/
theorem replacementBody_entities {operation : Operation} {plan : ReplacementPlan} {repoint : Bool} {newId : EntityId}
    {state : CoreState} {w w' : World Db Supply} {receipt : ReplacementReceipt}
    (h : (replacementBody env operation plan repoint newId state).run w = (.ok receipt, w')) :
    ∃ free, w'.durable.entities = (w.durable.entities.append (plan.row newId state) free).updateWhere
      (fun e => e.id == plan.resolvedId && e.status == .raw) (·.archive plan.now) := by
  unfold replacementBody at h
  obtain ⟨relationId, v, inserted, rest⟩ := Txn.bind_ok h
  have after : w'.durable.entities = v.durable.entities := by
    cases repoint with
    | true =>
      obtain ⟨progress, u, repointed, last⟩ := Txn.bind_ok rest
      obtain ⟨_, rfl⟩ := Prod.mk.inj last
      exact (within_ok (replacementRepointEdges_quiet _ _ _) repointed).entities
    | false =>
      obtain ⟨_, rfl⟩ := Prod.mk.inj rest
      rfl
  obtain ⟨free, u, x, entity, _, details, archived, _⟩ := replacementInsertEntity_ok inserted
  have details : x.durable.entities = u.durable.entities :=
    (within_ok (within_when Db.Quiet.refl fun w => elaborates_quiet (reconcileDetailRelations_within _ _ _ _ w)) details).entities
  exact ⟨free, by rw [after, archived, details, entity]⟩

/-- What a write that returns settled, and the body it ran. -/
theorem replacementWrite_ok {operation : Operation} {plan : ReplacementPlan} {repoint : Bool} {w w' : World Db Supply}
    {receipt : ReplacementReceipt} (h : (replacementWrite env operation plan repoint).run w = (.ok receipt, w')) :
    ∃ state u v, replacementLockedSource w.durable plan = .ok () ∧ u.durable = w.durable ∧
      resolveDerivedCoreState env w.durable (reading env (draw w)) [plan.resolvedId] plan.core plan.newContent plan.scope
        (plan.entry (env.uuid4 w.transient.draws)) = .ok state ∧
      (replacementBody env operation plan repoint (env.uuid4 w.transient.draws) state).run u = (.ok receipt, v) ∧
      v.durable.OnlyJobs w'.durable := by
  unfold replacementWrite at h
  rw [Tx.run_db_bind] at h
  obtain ⟨_, v₁, locked, h⟩ := Txn.bind_ok h
  obtain ⟨checked, rfl⟩ := Prod.mk.inj locked
  rw [Tx.run_uuid4_bind, Tx.run_now_bind] at h
  obtain ⟨state, v₂, decided, h⟩ := Txn.bind_ok h
  obtain ⟨settled, rfl⟩ := Prod.mk.inj decided
  obtain ⟨answer, v₃, body, h⟩ := Txn.bind_ok h
  obtain ⟨_, v₄, cancelled, last⟩ := Txn.bind_ok h
  obtain ⟨same, rfl⟩ := Prod.mk.inj last
  obtain rfl := Except.ok.inj same
  exact ⟨state, tick (draw w), v₃, checked, rfl, settled, Txn.atomic_ok.mp body, within_ok (setJobs_settles _).within cancelled⟩

/-- What stands under the savepoint moves the database by one succession when it returns. -/
theorem replacementBody_succeeds {operation : Operation} {plan : ReplacementPlan} {repoint : Bool} {newId : EntityId}
    {state : CoreState} {w w' : World Db Supply} {receipt : ReplacementReceipt} {target : Entity}
    (found : w.durable.entities.find plan.resolvedId = some target) (raw : target.status = .raw)
    (h : (replacementBody env operation plan repoint newId state).run w = (.ok receipt, w')) :
    w.durable.Succeeds w'.durable := by
  unfold replacementBody at h
  obtain ⟨relationId, v, inserted, rest⟩ := Txn.bind_ok h
  have after : v.durable.Quiet w'.durable := by
    cases repoint with
    | true =>
      obtain ⟨progress, u, repointed, last⟩ := Txn.bind_ok rest
      obtain ⟨_, rfl⟩ := Prod.mk.inj last
      exact within_ok (replacementRepointEdges_quiet _ _ _) repointed
    | false =>
      obtain ⟨_, rfl⟩ := Prod.mk.inj rest
      exact .refl _
  obtain ⟨free, u, x, entity, same, details, archived, open_, lineage, _⟩ := replacementInsertEntity_ok inserted
  have details : u.durable.Quiet x.durable :=
    within_ok (within_when Db.Quiet.refl fun w => elaborates_quiet (reconcileDetailRelations_within _ _ _ _ w)) details
  have entities : w'.durable.entities = (w.durable.entities.append (plan.row newId state) free).updateWhere
      (fun e => e.id == plan.resolvedId && e.status == .raw) (·.archive plan.now) := by
    rw [after.entities, archived, details.entities, entity]
  have recorded : w'.durable.relations.lineage =
      w.durable.relations.lineage ++ [⟨newId, operation.text, plan.resolvedId⟩] := by
    rw [lineage_grows after.grows, lineage, lineage_push (lineageDraft_lineage plan operation newId),
      lineage_grows details.grows, same]
    rfl
  have other : newId ≠ plan.resolvedId := by
    rintro rfl
    simp [ReplacementPlan.row, found] at free
  refine succeeds_by newId [plan.resolvedId] free ?_ (List.nodup_singleton _) ?_ ?_ ⟨operation.text, recorded⟩
  · intro o chosen
    obtain rfl := List.mem_singleton.mp chosen
    exact ⟨target, found, raw⟩
  · rw [entities, updateWhere_ids]
    simp [EntityTable.append, ReplacementPlan.row]
  · intro a
    rw [entities]
    refine retired_append_archive (by simp [ReplacementPlan.row]) ?_ (fun _ => rfl) ?_ ?_ a
    · simp [ReplacementPlan.row, other]
    · intro o chosen
      obtain rfl := List.mem_singleton.mp chosen
      exact ⟨target, found⟩
    · intro x here
      rw [List.mem_singleton]
      constructor
      · intro selected
        simp only [Bool.and_eq_true, beq_iff_eq] at selected
        exact selected.1
      · intro same
        obtain ⟨member, targetId⟩ := EntityTable.find_some found
        rw [EntityTable.id_unique here member (same.trans targetId.symm)]
        simp [targetId, raw]

theorem replacementLockedSource_ok {db : Db} {plan : ReplacementPlan} (h : replacementLockedSource db plan = .ok ()) :
    ∃ e, db.entities.find plan.resolvedId = some e ∧ e.status = .raw ∧ e.sameFrozen plan.before = true := by
  unfold replacementLockedSource at h
  split at h
  · simp at h
  · rename_i current found
    split at h
    · simp at h
    · rename_i raw
      split at h
      · simp at h
      · rename_i frozen
        exact ⟨current, found, not_not.mp raw, by simpa using frozen⟩

theorem succeeds_replaced (env : Env) : Steady.Replaced env Db.Succeeds := by
  intro operation plan repoint n now state w w' receipt locked resolved body
  obtain ⟨target, found, raw, _⟩ := replacementLockedSource_ok locked
  exact replacementBody_succeeds found raw body

end SaltMdb
