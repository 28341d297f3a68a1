import SaltMdb.Relation.Write
import SaltMdb.Store.Frames

/-! What one store or invalidation can do to the database: one statement per operation, which every later
invariant is derived from. -/

namespace SaltMdb
open Transactions

variable {env : Env}

/-! ### The relation table after a store -/

theorem staleEdge_some {T : RelationTable} {e : Edge} {r : Relation} (h : staleEdge T e = some r) :
    isStrong e.predicate = true ∧ T.fetchStale e = some r := by
  unfold staleEdge at h
  split at h
  · rename_i strong
    exact ⟨strong, h⟩
  · simp at h

theorem closeStale_holds {T : RelationTable} {e x : Edge} {now : Instant} :
    (closeStale ((staleEdge T e).map (·.id)) now T).Holds x ↔
      T.Holds x ∧ ∀ r, staleEdge T e = some r → x ≠ r.edge := by
  cases stale : staleEdge T e with
  | none => simp [closeStale]
  | some r =>
    obtain ⟨member, active, _⟩ := RelationTable.fetchStale_some (staleEdge_some stale).2
    simp only [Option.map_some, closeStale, RelationTable.holds_closeId member active, Option.some.injEq,
      forall_eq']

/-- A stale row leaves for another target, so ending it never frees or blocks the edge itself. -/
theorem stale_edge_ne {T : RelationTable} {e : Edge} {r : Relation} (h : staleEdge T e = some r) : e ≠ r.edge := by
  obtain ⟨_, _, _, _, other⟩ := RelationTable.fetchStale_some (staleEdge_some h).2
  intro same
  exact other (congrArg Edge.target same).symm

/-- The table after an edge was created: the stale edge is ended and the new row appended. -/
def storedTable (T : RelationTable) (now : Instant) (d : RelationDraft) : RelationTable :=
  let closed := closeStale ((staleEdge T d.edge).map (·.id)) now T
  (closed.insertOrIgnore d).getD closed

theorem storedTable_push {T : RelationTable} {d : RelationDraft} (now : Instant) (free : ¬ T.Holds d.edge) :
    ∃ open_, storedTable T now d = (closeStale ((staleEdge T d.edge).map (·.id)) now T).push d open_ := by
  have open_ : ¬ (closeStale ((staleEdge T d.edge).map (·.id)) now T).Holds d.edge :=
    fun holds => free (closeStale_holds.mp holds).1
  refine ⟨open_, ?_⟩
  simp only [storedTable, RelationTable.insertOrIgnore, dif_pos open_, Option.getD_some]

theorem storedTable_holds {T : RelationTable} {now : Instant} {d : RelationDraft} (free : ¬ T.Holds d.edge) {x : Edge} :
    (storedTable T now d).Holds x ↔
      x = d.edge ∨ (T.Holds x ∧ ∀ r, staleEdge T d.edge = some r → x ≠ r.edge) := by
  obtain ⟨open_, table⟩ := storedTable_push now free
  rw [table, RelationTable.holds_push, closeStale_holds, or_comm]

@[simp] theorem closeStale_next {stale : Option RelationId} {now : Instant} {T : RelationTable} :
    (closeStale stale now T).next = T.next := by
  cases stale <;> rfl

/-! ### One store -/

namespace RelationWriteRequest
variable {request : RelationWriteRequest} {db : Db}

/-- The edge of a request once its predicate is canonical. -/
def edge (request : RelationWriteRequest) (db : Db) : Edge :=
  (request.draft (canonicalPredicate db request.predicate)).edge

@[simp] theorem edge_source : (request.edge db).source = request.sourceId := rfl
@[simp] theorem edge_target : (request.edge db).target = request.targetId := rfl
@[simp] theorem edge_predicate : (request.edge db).predicate = canonicalPredicate db request.predicate := by
  simp only [edge, RelationDraft.edge, draft]

end RelationWriteRequest

/-- The gate lets the edge pass: nothing measured against it, or a justification long enough. -/
def gateAdmits (request : RelationWriteRequest) (canonical : String) (m : GateMeasurement) : Bool :=
  (gateViolations canonical m).isEmpty ||
    coherenceOverrideMinLength ≤ (Text.strip (request.overrideJustification.getD "")).length

theorem gateAdmits_iff {request : RelationWriteRequest} {canonical : String} {m : GateMeasurement} :
    gateAdmits request canonical m = true ↔ (gateViolations canonical m).isEmpty = true ∨
      coherenceOverrideMinLength ≤ (Text.strip (request.overrideJustification.getD "")).length := by
  rw [gateAdmits, Bool.or_eq_true, decide_eq_true_iff]

/-- Whether a store of an edge that is not active yet creates it. -/
def RelationWriteRequest.admitted (env : Env) (request : RelationWriteRequest) (db : Db) : Bool :=
  let canonical := canonicalPredicate db request.predicate
  (checkCoreRelationGuard db request.targetId canonical request.allowCoreElaboratesOn).isNone &&
    gateAdmits request canonical (relationGateMeasurements env db request canonical)

/-- A store created its edge: nothing but relations and events changed. -/
structure Creation (db db' : Db) (request : RelationWriteRequest) : Prop where
  fresh : ¬ db.relations.Holds (request.edge db)
  guard : checkCoreRelationGuard db request.targetId (canonicalPredicate db request.predicate)
    request.allowCoreElaboratesOn = none
  relations : db'.relations =
    storedTable db.relations request.now (request.draft (canonicalPredicate db request.predicate))
  others : db' = { db with relations := db'.relations, events := db'.events }

/-- A rejection names at least one error, and each says what the caller can act on. -/
def Expected (errors : List Error) : Prop := errors ≠ [] ∧ ∀ e ∈ errors, e.code ≠ internalError

@[simp] theorem expected_singleton {e : Error} : Expected [e] ↔ e.code ≠ internalError := by
  simp [Expected]

theorem relationGateError_expected (canonical : String) (m : GateMeasurement) (violations : List String) :
    Expected [relationGateError env canonical m violations] := by
  rw [expected_singleton]
  dsimp only [relationGateError]
  split <;> decide

theorem coreElaboratesOnError_expected : Expected [coreElaboratesOnError] := by
  rw [expected_singleton]
  decide

theorem logEvent_run (env : Env) (agentId : String) (content : EventContent) (w : World Db Supply) :
    ∃ w', (logEvent env agentId content).run w = (.ok (), w') ∧
      w'.durable = { w.durable with events := w'.durable.events } :=
  ⟨_, rfl, rfl⟩

theorem applyRelationGate_cases (env : Env) (request : RelationWriteRequest) (canonical : String) (m : GateMeasurement)
    (agent : String) (id : RelationId) (w : World Db Supply) :
    (gateAdmits request canonical m = false ∧ ∃ errors, Expected errors ∧
      (applyRelationGate env request canonical m agent id).run w = (.ok (some (.rejected errors)), w)) ∨
    (gateAdmits request canonical m = true ∧ ∃ w',
      (applyRelationGate env request canonical m agent id).run w = (.ok none, w') ∧
      w'.durable = { w.durable with events := w'.durable.events }) := by
  unfold applyRelationGate
  extract_lets violations justification
  split
  · rename_i clean
    exact Or.inr ⟨gateAdmits_iff.mpr (Or.inl clean), w, Txn.run_pure none w, rfl⟩
  · rename_i violated
    split
    · rename_i short
      have refused : gateAdmits request canonical m = false := by
        rw [← Bool.not_eq_true, gateAdmits_iff]
        rintro (clean | long)
        · exact violated clean
        · exact absurd long (Nat.not_le.mpr short)
      exact Or.inl ⟨refused, _, relationGateError_expected canonical m violations, Txn.run_pure _ w⟩
    · rename_i long
      obtain ⟨w', logged, frame⟩ := logEvent_run env agent (.relationGateOverride request.sourceId
        request.targetId canonical violations m.similarity m.contradictions justification id) w
      have passed : gateAdmits request canonical m = true := gateAdmits_iff.mpr (Or.inr (Nat.not_lt.mp long))
      exact Or.inr ⟨passed, w', by rw [Txn.bind_run_ok logged, Txn.run_pure], frame⟩

theorem checkCoreRelationGuard_rejects {db : Db} {target : EntityId} {canonical : String} {allow : Bool}
    {rejection : Envelope RelationReceipt} (h : checkCoreRelationGuard db target canonical allow = some rejection) :
    rejection = .rejected [coreElaboratesOnError] := by
  unfold checkCoreRelationGuard at h
  split at h
  · split at h
    · split at h
      · exact (Option.some.inj h).symm
      · simp at h
    · simp at h
  · simp at h

theorem insertRelationWrite_run {w : World Db Supply} (request : RelationWriteRequest) (canonical note : String)
    (free : ¬ w.durable.relations.Holds (request.draft canonical).edge) :
    ∃ receipt w', (insertRelationWrite request canonical
        ((staleEdge w.durable.relations (request.draft canonical).edge).map (·.id)) note).run w =
          (.ok (.ok receipt []), w') ∧
      w'.durable.relations = storedTable w.durable.relations request.now (request.draft canonical) ∧
      w'.durable = { w.durable with relations := w'.durable.relations } := by
  obtain ⟨open_, table⟩ := storedTable_push request.now free
  unfold insertRelationWrite
  rw [Txn.bind_run_ok (Tx.run_setRelations _ _), Tx.run_db_bind]
  simp only [RelationTable.insertOrIgnore, dif_pos open_]
  exact ⟨_, _, Txn.bind_run_ok (Tx.run_setRelations _ _), table.symm, rfl⟩

/-- What a store of one validated request answers, and what it leaves behind. -/
inductive StoreOutcome (env : Env) (request : RelationWriteRequest) (db : Db) :
    Envelope RelationReceipt → Db → Prop where
  | existing (id : RelationId) (note : String)
      (holds : db.relations.Holds (request.edge db)) :
      StoreOutcome env request db (relationExists (canonicalPredicate db request.predicate) request id note) db
  | rejected (errors : List Error) (expected : Expected errors) (fresh : ¬ db.relations.Holds (request.edge db))
      (refused : request.admitted env db = false) : StoreOutcome env request db (.rejected errors) db
  | created (receipt : RelationReceipt) (db' : Db) (admitted : request.admitted env db = true)
      (creation : Creation db db' request) : StoreOutcome env request db (.ok receipt []) db'

theorem StoreOutcome.answer {request : RelationWriteRequest} {db db' : Db} {r : Envelope RelationReceipt}
    (outcome : StoreOutcome env request db r db') :
    (∃ receipt warnings, r = .ok receipt warnings) ∨ ∃ errors, r = .rejected errors := by
  cases outcome with
  | existing id note holds => exact Or.inl ⟨_, _, rfl⟩
  | rejected errors expected fresh refused => exact Or.inr ⟨errors, rfl⟩
  | created receipt db' admitted creation => exact Or.inl ⟨receipt, [], rfl⟩

theorem storeRelationWrite_cases (env : Env) (request : RelationWriteRequest) (w : World Db Supply) :
    ∃ r w', (storeRelationWrite env request).run w = (.ok r, w') ∧
      StoreOutcome env request w.durable r w'.durable := by
  unfold storeRelationWrite
  rw [Tx.run_db_bind]
  extract_lets canonical note edge stale measurement
  split
  · rename_i existing active
    obtain ⟨member, isActive, same⟩ := RelationTable.fetchActive_some active
    exact ⟨_, w, Txn.run_pure _ w, .existing existing.id note ⟨existing, member, isActive, same⟩⟩
  · rename_i absent
    have fresh : ¬ w.durable.relations.Holds edge := RelationTable.fetchActive_none.mp absent
    split
    · rename_i rejection guard
      rw [checkCoreRelationGuard_rejects guard]
      have refused : request.admitted env w.durable = false := by
        simp only [RelationWriteRequest.admitted, canonical, guard, Option.isNone_some, Bool.false_and]
      exact ⟨_, w, Txn.run_pure _ w, .rejected _ coreElaboratesOnError_expected fresh refused⟩
    · rename_i guard
      rcases applyRelationGate_cases env request canonical measurement
        (Text.orDefault request.agentId "system") w.durable.relations.next w with
        ⟨refused, errors, expected, ran⟩ | ⟨passed, v, ran, frame⟩
      · rw [Txn.bind_run_ok ran]
        have refused' : request.admitted env w.durable = false := by
          simp only [RelationWriteRequest.admitted, canonical, measurement] at refused ⊢
          rw [refused, Bool.and_false]
        exact ⟨_, w, Txn.run_pure _ w, .rejected errors expected fresh refused'⟩
      · rw [Txn.bind_run_ok ran]
        have admitted : request.admitted env w.durable = true := by
          simp only [RelationWriteRequest.admitted, canonical, measurement] at guard passed ⊢
          rw [guard, passed, Option.isNone_none, Bool.and_self]
        have same : v.durable.relations = w.durable.relations := by rw [frame]
        obtain ⟨receipt, w', ran', relations, others⟩ := insertRelationWrite_run (w := v) request canonical note
          (same ▸ fresh)
        rw [same] at ran' relations
        have events : w'.durable.events = v.durable.events := by rw [others]
        have frame' : w'.durable = { w.durable with relations := w'.durable.relations, events := w'.durable.events } := by
          rw [others, frame]
        have creation : Creation w.durable w'.durable request := ⟨fresh, guard, relations, frame'⟩
        exact ⟨_, w', ran', .created receipt _ admitted creation⟩

theorem storeRelationWrite_total (request : RelationWriteRequest) : Txn.Total (storeRelationWrite env request) := by
  intro w
  obtain ⟨r, w', ran, _⟩ := storeRelationWrite_cases _ request w
  exact ⟨r, w', ran⟩

/-- The write of a relation never raises, so neither its own transaction nor its handler shows. -/
theorem storeRelation_eq (mode : Mode) (args : StoreRelationArgs) :
    storeRelation env mode args = storeRelationIn env args := by
  simp only [storeRelation, storeRelationIn, writeTransactionRetrying_total (storeRelationWrite_total _)]

theorem endpointError_code {db : Db} {raw label : String} {e : Error} (h : endpointError env db raw label = some e) :
    e.code ≠ internalError := by
  simp only [endpointError] at h
  split at h
  · simp at h
  · split at h
    · obtain rfl := Option.some.inj h
      dsimp only
      decide
    · obtain rfl := Option.some.inj h
      dsimp only
      decide

theorem endpointError_some {db : Db} {raw : String} (label : String)
    (h : (resolveEntityRef env db raw none).resolved = none) : ∃ e, endpointError env db raw label = some e := by
  simp only [endpointError, h]
  split <;> exact ⟨_, rfl⟩

theorem expected_endpoints {db : Db} {source target : String}
    (missing : (resolveEntityRef env db source none).resolved = none ∨
      (resolveEntityRef env db target none).resolved = none) :
    Expected ((endpointError env db source "source_id").or (endpointError env db target "target_id")).toList := by
  cases atSource : endpointError env db source "source_id" with
  | some e => simpa using endpointError_code atSource
  | none =>
    rcases missing with missing | missing
    · obtain ⟨e, found⟩ := endpointError_some "source_id" missing
      rw [atSource] at found
      simp at found
    · obtain ⟨e, found⟩ := endpointError_some "target_id" missing
      simpa [found] using endpointError_code found

theorem resolveEndpoints_error {db : Db} {source target : String} {errors : List Error}
    (h : resolveEndpoints env db source target = .error errors) : Expected errors := by
  unfold resolveEndpoints at h
  split at h
  · simp at h
  · rename_i unresolved
    obtain rfl := Except.error.inj h
    apply expected_endpoints
    by_contra both
    simp only [not_or, ← ne_eq, Option.ne_none_iff_exists'] at both
    obtain ⟨⟨s, atSource⟩, t, atTarget⟩ := both
    exact unresolved s t atSource atTarget

theorem resolveEndpoints_resolved {db : Db} {source target : String} {s t : EntityId}
    (h : resolveEndpoints env db source target = .ok (s, t)) :
    (resolveEntityRef env db source none).resolved = some s ∧ (resolveEntityRef env db target none).resolved = some t := by
  unfold resolveEndpoints at h
  split at h
  · rename_i atSource atTarget
    obtain ⟨rfl, rfl⟩ := Prod.mk.inj (Except.ok.inj h)
    exact ⟨atSource, atTarget⟩
  · simp at h

theorem resolveEndpoints_ok {db : Db} {source target : String} {s t : EntityId}
    (h : resolveEndpoints env db source target = .ok (s, t)) :
    (∃ e, db.entities.find s = some e) ∧ ∃ e, db.entities.find t = some e := by
  obtain ⟨atSource, atTarget⟩ := resolveEndpoints_resolved h
  exact ⟨resolveEntityRef_exists env atSource, resolveEntityRef_exists env atTarget⟩

theorem storeRelationPredicateError_expected {predicate : String} {errors : List Error}
    (h : storeRelationPredicateError predicate = some errors) : Expected errors := by
  unfold storeRelationPredicateError at h
  split at h
  · simp at h
  all_goals
    obtain rfl := Option.some.inj h
    rw [expected_singleton]
    dsimp only [fieldError]
    decide

theorem storeRelationPredicateError_none {predicate : String} (h : storeRelationPredicateError predicate = none) :
    ∃ canonical, classifyPredicate predicate = .selectable canonical := by
  unfold storeRelationPredicateError at h
  split at h
  · rename_i canonical selected
    exact ⟨canonical, selected⟩
  all_goals simp at h

theorem storeRelationEndpoints_error {db : Db} {args : StoreRelationArgs} {errors : List Error}
    (h : storeRelationEndpoints env db args = .error errors) : Expected errors := by
  unfold storeRelationEndpoints at h
  split at h
  · obtain rfl := Except.error.inj h
    exact expected_singleton.mpr (by decide)
  · split at h
    · rename_i unresolved
      obtain rfl := Except.error.inj h
      exact resolveEndpoints_error unresolved
    · split at h
      · obtain rfl := Except.error.inj h
        exact expected_singleton.mpr (by decide)
      · split at h
        · rename_i refused
          obtain rfl := Except.error.inj h
          exact storeRelationPredicateError_expected refused
        · simp at h

theorem storeRelationEndpoints_resolved {db : Db} {args : StoreRelationArgs} {source target : EntityId}
    (h : storeRelationEndpoints env db args = .ok (source, target)) :
    resolveEndpoints env db args.sourceId args.targetId = .ok (source, target) := by
  unfold storeRelationEndpoints at h
  split at h
  · simp at h
  · split at h
    · simp at h
    · rename_i resolved
      split at h
      · simp at h
      · split at h
        · simp at h
        · obtain ⟨rfl, rfl⟩ := Prod.mk.inj (Except.ok.inj h)
          exact resolved

/-- What the checks before the write establish. -/
theorem storeRelationEndpoints_ok {db : Db} {args : StoreRelationArgs} {source target : EntityId}
    (h : storeRelationEndpoints env db args = .ok (source, target)) :
    ((∃ e, db.entities.find source = some e) ∧ ∃ e, db.entities.find target = some e) ∧ source ≠ target ∧
      canonicalPredicate db args.predicate ∈ agentSelectablePredicates := by
  unfold storeRelationEndpoints at h
  split at h
  · simp at h
  · split at h
    · simp at h
    · rename_i resolved
      split at h
      · simp at h
      · rename_i differ
        split at h
        · simp at h
        · rename_i accepted
          obtain ⟨rfl, rfl⟩ := Prod.mk.inj (Except.ok.inj h)
          obtain ⟨canonical, selected⟩ := storeRelationPredicateError_none accepted
          refine ⟨resolveEndpoints_ok resolved, differ, ?_⟩
          rw [canonicalPredicate_selectable selected]
          exact (classify_selectable selected).2

/-- What one `store_relation` call answers, and what it leaves behind. -/
inductive StoreCall (env : Env) (args : StoreRelationArgs) (now : Instant) (db : Db) :
    Envelope RelationReceipt → Db → Prop where
  | refused (errors : List Error) (expected : Expected errors) (endpoints : storeRelationEndpoints env db args = .error errors) :
      StoreCall env args now db (.rejected errors) db
  | written (source target : EntityId) (r : Envelope RelationReceipt) (db' : Db)
      (endpoints : storeRelationEndpoints env db args = .ok (source, target))
      (outcome : StoreOutcome env (args.request source target now) db r db') : StoreCall env args now db r db'

theorem StoreOutcome.effect {request : RelationWriteRequest} {db db' : Db} {r : Envelope RelationReceipt}
    (outcome : StoreOutcome env request db r db') : db' = db ∨ Creation db db' request := by
  cases outcome with
  | existing id note holds => exact Or.inl rfl
  | rejected errors expected fresh refused => exact Or.inl rfl
  | created receipt db' admitted creation => exact Or.inr creation

/-- A store leaves the database alone, or it created its edge. -/
theorem StoreCall.effect {args : StoreRelationArgs} {now : Instant} {db db' : Db} {r : Envelope RelationReceipt}
    (call : StoreCall env args now db r db') :
    db' = db ∨ ∃ source target, storeRelationEndpoints env db args = .ok (source, target) ∧
      Creation db db' (args.request source target now) := by
  cases call with
  | refused errors expected endpoints => exact Or.inl rfl
  | written source target r db' endpoints outcome =>
    rcases outcome.effect with same | creation
    · exact Or.inl same
    · exact Or.inr ⟨source, target, endpoints, creation⟩

theorem StoreOutcome.accepted {request : RelationWriteRequest} {db db' : Db} {r : Envelope RelationReceipt}
    (outcome : StoreOutcome env request db r db') (ok : r.isOk = true) :
    db.relations.Holds (request.edge db) ∨ Creation db db' request := by
  cases outcome with
  | existing id note holds => exact Or.inl holds
  | rejected errors expected fresh refused => simp at ok
  | created receipt db' admitted creation => exact Or.inr creation

theorem StoreCall.accepted {args : StoreRelationArgs} {db db' : Db} {r : Envelope RelationReceipt}
    {now : Instant} (call : StoreCall env args now db r db') (ok : r.isOk = true) :
    ∃ source target, storeRelationEndpoints env db args = .ok (source, target) ∧
      (db.relations.Holds ((args.request source target now).edge db) ∨ Creation db db' (args.request source target now)) := by
  cases call with
  | refused errors expected endpoints => simp at ok
  | written source target r db' endpoints outcome => exact ⟨source, target, endpoints, outcome.accepted ok⟩

theorem storeRelationIn_cases (env : Env) (args : StoreRelationArgs) (w : World Db Supply) :
    ∃ r w', (storeRelationIn env args).run w = (.ok r, w') ∧
      StoreCall env args (reading env w) w.durable r w'.durable := by
  unfold storeRelationIn
  rw [Tx.run_db_bind]
  cases endpoints : storeRelationEndpoints env w.durable args with
  | error errors => exact ⟨_, w, Txn.run_pure _ w, .refused errors (storeRelationEndpoints_error endpoints) endpoints⟩
  | ok pair =>
    obtain ⟨source, target⟩ := pair
    simp only [Tx.run_now_bind, Txn.tryCatch_of_total (storeRelationWrite_total _)]
    obtain ⟨r, w', ran, outcome⟩ :=
      storeRelationWrite_cases env (args.request source target (reading env w)) (tick w)
    exact ⟨r, w', ran, .written source target r _ endpoints outcome⟩

/-! ### One invalidation -/

/-- What an invalidation of one edge answers, and what it leaves behind. -/
inductive InvalidateOutcome (edge : Edge) (db : Db) : Envelope RelationReceipt → Db → Prop where
  | missing (absent : invalidationTarget db.relations edge = none) :
      InvalidateOutcome edge db (.rejected [relationNotFound]) db
  | already (id : RelationId) (message : String) (row : Relation)
      (target : invalidationTarget db.relations edge = some row) (ended : row.invalidAt.isSome = true) :
      InvalidateOutcome edge db (alreadyDoneEnvelope ⟨id, message⟩ message) db
  | closed (receipt : RelationReceipt) (row : Relation) (at_ : Instant) (member : row ∈ db.relations.rows)
      (active : row.active = true) (same : row.edge = edge) (open_ : row.invalidAt = none)
      (target : invalidationTarget db.relations edge = some row) :
      InvalidateOutcome edge db (.ok receipt [])
        { db with relations := db.relations.closeId row.id ⟨at_, some at_⟩ }

theorem invalidationTarget_some {T : RelationTable} {edge : Edge} {r : Relation}
    (h : invalidationTarget T edge = some r) :
    r ∈ T.rows ∧ r.edge = edge ∧ (r.active = true ∨ r.invalidAt.isSome = true) := by
  unfold invalidationTarget at h
  rcases Option.or_eq_some_iff.mp h with found | ⟨_, found⟩
  · obtain ⟨member, active, same⟩ := RelationTable.fetchActive_some found
    exact ⟨member, same, Or.inl active⟩
  · have facts := List.find?_some found
    simp only [Bool.and_eq_true, beq_iff_eq] at facts
    exact ⟨by simpa using List.mem_of_find?_eq_some found, facts.1, Or.inr facts.2⟩

theorem invalidateRelationWrite_cases (env : Env) (source target : EntityId) (predicate : String) (invalidAt : Option Instant)
    (now : Instant) (w : World Db Supply) :
    ∃ r w', (invalidateRelationWrite env source target predicate invalidAt now).run w = (.ok r, w') ∧
      InvalidateOutcome ⟨source, canonicalPredicate w.durable predicate, target⟩ w.durable r w'.durable := by
  unfold invalidateRelationWrite
  rw [Tx.run_db_bind]
  extract_lets canonical
  split
  · rename_i absent
    exact ⟨_, w, Txn.run_pure _ w, .missing absent⟩
  · rename_i existing found
    obtain ⟨member, same, state⟩ := invalidationTarget_some found
    split
    · rename_i at_ ended
      exact ⟨_, w, Txn.run_pure _ w, .already _ _ existing found (by rw [ended]; rfl)⟩
    · rename_i open_
      have active : existing.active = true := by simpa [open_] using state
      exact ⟨_, _, Txn.bind_run_ok (Tx.run_setRelations _ w), .closed _ existing _ member active same open_ found⟩

theorem invalidateRelationWrite_total (source target : EntityId) (predicate : String) (invalidAt : Option Instant)
    (now : Instant) : Txn.Total (invalidateRelationWrite env source target predicate invalidAt now) := by
  intro w
  obtain ⟨r, w', ran, _⟩ := invalidateRelationWrite_cases _ source target predicate invalidAt now w
  exact ⟨r, w', ran⟩

theorem invalidateRelation_eq (mode : Mode) (args : InvalidateRelationArgs) :
    invalidateRelation env mode args = invalidateRelationIn env args := by
  simp only [invalidateRelation, invalidateRelationIn,
    writeTransactionRetrying_total (invalidateRelationWrite_total _ _ _ _ _)]

theorem invalidateRelationEndpoints_error {db : Db} {args : InvalidateRelationArgs} {errors : List Error}
    (h : invalidateRelationEndpoints env db args = .error errors) : Expected errors := by
  unfold invalidateRelationEndpoints at h
  split at h
  · obtain rfl := Except.error.inj h
    exact expected_singleton.mpr (by decide)
  · exact resolveEndpoints_error h

/-- What one `invalidate_relation` call answers, and what it leaves behind. -/
inductive InvalidateCall (env : Env) (args : InvalidateRelationArgs) (db : Db) :
    Envelope RelationReceipt → Db → Prop where
  | refused (errors : List Error) (expected : Expected errors)
      (endpoints : invalidateRelationEndpoints env db args = .error errors) : InvalidateCall env args db (.rejected errors) db
  | written (source target : EntityId) (r : Envelope RelationReceipt) (db' : Db)
      (endpoints : invalidateRelationEndpoints env db args = .ok (source, target))
      (outcome : InvalidateOutcome ⟨source, canonicalPredicate db args.predicate, target⟩ db r db') :
      InvalidateCall env args db r db'

theorem invalidateRelationIn_cases (env : Env) (args : InvalidateRelationArgs) (w : World Db Supply) :
    ∃ r w', (invalidateRelationIn env args).run w = (.ok r, w') ∧ InvalidateCall env args w.durable r w'.durable := by
  unfold invalidateRelationIn
  rw [Tx.run_db_bind]
  cases endpoints : invalidateRelationEndpoints env w.durable args with
  | error errors => exact ⟨_, w, Txn.run_pure _ w, .refused errors (invalidateRelationEndpoints_error endpoints) endpoints⟩
  | ok pair =>
    obtain ⟨source, target⟩ := pair
    simp only [Tx.run_now_bind, Txn.tryCatch_of_total (invalidateRelationWrite_total _ _ _ _ _)]
    obtain ⟨r, w', ran, outcome⟩ := invalidateRelationWrite_cases env source target args.predicate
      args.invalidAt (reading env w) (tick w)
    exact ⟨r, w', ran, .written source target r _ endpoints outcome⟩

/-! ### As calls of their own -/

theorem storeRelationIn_total (args : StoreRelationArgs) : Txn.Total (storeRelationIn env args) := by
  intro w
  obtain ⟨r, w', ran, _⟩ := storeRelationIn_cases _ args w
  exact ⟨r, w', ran⟩

theorem invalidateRelationIn_total (args : InvalidateRelationArgs) : Txn.Total (invalidateRelationIn env args) := by
  intro w
  obtain ⟨r, w', ran, _⟩ := invalidateRelationIn_cases _ args w
  exact ⟨r, w', ran⟩

theorem serve_storeRelation (mode : Mode) (args : StoreRelationArgs) :
    serve mode (fun m => storeRelation env m args) = storeRelationIn env args :=
  serve_total (fun m => storeRelation_eq m args) (storeRelationIn_total args) mode

theorem serve_invalidateRelation (mode : Mode) (args : InvalidateRelationArgs) :
    serve mode (fun m => invalidateRelation env m args) = invalidateRelationIn env args :=
  serve_total (fun m => invalidateRelation_eq m args) (invalidateRelationIn_total args) mode

end SaltMdb
