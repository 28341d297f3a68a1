import SaltMdb.Store.Frames
import SaltMdb.Relation.InOrder

/-! What the relation services can add to the database: edges of agent-selectable predicates, and nothing
outside relations and events. -/

namespace SaltMdb
open Transactions

variable {env : Env} {P : Edge → Prop}

/-- An edge an agent may store. -/
def Edge.Selectable (e : Edge) : Prop := e.predicate ∈ agentSelectablePredicates

theorem grows_closeStale {stale : Option RelationId} {now : Instant} {T : RelationTable} :
    T.Grows P (closeStale stale now T) := by
  cases stale with
  | none => exact .refl T
  | some id => exact RelationTable.grows_closeWhere

theorem grows_storedTable {T : RelationTable} {now : Instant} {d : RelationDraft} (free : ¬ T.Holds d.edge)
    (ok : P d.edge) : T.Grows P (storedTable T now d) := by
  obtain ⟨open_, table⟩ := storedTable_push now free
  rw [table]
  exact grows_closeStale.trans (RelationTable.grows_push _ ok)

theorem Creation.onlyRelations {db db' : Db} {request : RelationWriteRequest} (creation : Creation db db' request)
    (ok : P (request.edge db)) : db.OnlyRelations P db' := by
  refine ⟨creation.others, ?_⟩
  rw [creation.relations]
  exact grows_storedTable creation.fresh ok

theorem StoreCall.onlyRelations {args : StoreRelationArgs} {now : Instant} {db db' : Db} {r : Envelope RelationReceipt}
    (call : StoreCall env args now db r db')
    (ok : ∀ source target, storeRelationEndpoints env db args = .ok (source, target) →
      P ((args.request source target now).edge db)) : db.OnlyRelations P db' := by
  cases call with
  | refused errors expected endpoints => exact .refl _
  | written source target r db' endpoints outcome =>
    cases outcome with
    | existing id note holds => exact .refl _
    | rejected errors expected fresh refused => exact .refl _
    | created receipt db' admitted creation => exact creation.onlyRelations (ok source target endpoints)

theorem StoreCall.selectable {args : StoreRelationArgs} {now : Instant} {db db' : Db} {r : Envelope RelationReceipt}
    (call : StoreCall env args now db r db') : db.OnlyRelations Edge.Selectable db' := by
  refine call.onlyRelations fun source target endpoints => ?_
  rw [Edge.Selectable, RelationWriteRequest.edge_predicate]
  exact (storeRelationEndpoints_ok endpoints).2.2

theorem InvalidateCall.onlyRelations {args : InvalidateRelationArgs} {db db' : Db} {r : Envelope RelationReceipt}
    (call : InvalidateCall env args db r db') : db.OnlyRelations P db' := by
  cases call with
  | refused errors expected => exact .refl _
  | written source target r db' endpoints outcome =>
    cases outcome with
    | missing => exact .refl _
    | already id message => exact .refl _
    | closed receipt row at_ member active same open_ => exact ⟨rfl, RelationTable.grows_closeWhere⟩

theorem storeRelationIn_settles (args : StoreRelationArgs) :
    Txn.Settles (Db.OnlyRelations Edge.Selectable) (storeRelationIn env args) := by
  intro w
  obtain ⟨r, w', ran, call⟩ := storeRelationIn_cases env args w
  exact ⟨r, w', ran, call.selectable⟩

theorem invalidateRelationIn_settles (args : InvalidateRelationArgs) :
    Txn.Settles (Db.OnlyRelations P) (invalidateRelationIn env args) := by
  intro w
  obtain ⟨r, w', ran, call⟩ := invalidateRelationIn_cases env args w
  exact ⟨r, w', ran, call.onlyRelations⟩

theorem runRelationItem_settles (item : RelationItem) (action : RelationAction) (agentId : Option String) :
    Txn.Settles (Db.OnlyRelations Edge.Selectable) (runRelationItem env item action agentId) := by
  cases action with
  | store => exact storeRelationIn_settles _
  | invalidate => exact invalidateRelationIn_settles _

/-! ### Services and their transactions -/

section
variable {α : Type} {R : Db → Db → Prop}

theorem within_writeTransactionRetrying (refl : ∀ d, R d d) {fn : Tx α} (body : Txn.Within R fn) (mode : Mode) :
    Txn.Within R (writeTransactionRetrying mode fn) := by
  cases mode with
  | direct => exact Txn.within_atomic refl body
  | coordinator => exact body

theorem within_serve (refl : ∀ d, R d d) {service : Mode → Tx α} (each : ∀ m, Txn.Within R (service m)) (mode : Mode) :
    Txn.Within R (serve mode service) := by
  cases mode with
  | direct => exact each .direct
  | coordinator => exact Txn.within_atomic refl (each .coordinator)

end

section
variable {α β : Type} {m : Tx α} {f : α → Tx β}

theorem onlyRelations_bind (first : Txn.Within (Db.OnlyRelations P) m)
    (rest : ∀ a, Txn.Within (Db.OnlyRelations P) (f a)) : Txn.Within (Db.OnlyRelations P) (m >>= f) :=
  Txn.within_bind (fun _ _ _ h k => h.trans k) first rest

theorem onlyRelations_pure (a : α) : Txn.Within (Db.OnlyRelations P) (pure a : Tx α) :=
  Txn.within_pure Db.OnlyRelations.refl a

theorem onlyRelations_throw (e : Exc) : Txn.Within (Db.OnlyRelations P) (throw e : Tx α) :=
  Txn.within_throw Db.OnlyRelations.refl e

theorem onlyRelations_tryCatch {handler : Exc → Tx α} (body : Txn.Within (Db.OnlyRelations P) m)
    (handled : ∀ e, Txn.Within (Db.OnlyRelations P) (handler e)) :
    Txn.Within (Db.OnlyRelations P) (tryCatch m handler) :=
  Txn.within_tryCatch (fun _ _ _ h k => h.trans k) body handled

end

theorem relationRejection_within (errors : List Error) : Txn.Within (Db.OnlyRelations P) (relationRejection errors) := by
  unfold relationRejection
  dsimp only
  split
  · exact onlyRelations_throw _
  · exact onlyRelations_pure _

theorem applyRelationItem_within (env : Env) (item : RelationItem) (agentId : Option String) :
    Txn.Within (Db.OnlyRelations Edge.Selectable) (applyRelationItem env item agentId) := by
  unfold applyRelationItem
  refine onlyRelations_bind (runRelationItem_settles item _ agentId).within fun answer => ?_
  cases answer with
  | ok data warnings => exact onlyRelations_pure _
  | rejected errors => exact onlyRelations_bind (relationRejection_within errors) fun _ => onlyRelations_pure _
  | failure text => exact onlyRelations_pure _

theorem applyRelationItems_within (env : Env) (agentId : Option String) (index : Nat) (relations : List (Option RelationItem))
    (progress : BatchProgress) :
    Txn.Within (Db.OnlyRelations Edge.Selectable) (applyRelationItems env agentId index relations progress) := by
  induction relations generalizing index progress with
  | nil => exact onlyRelations_pure _
  | cons element rest ih =>
    cases element with
    | none => exact ih _ _
    | some item =>
      refine onlyRelations_bind (applyRelationItem_within _ item agentId) fun outcome => ?_
      cases outcome with
      | error errors => exact ih _ _
      | ok outcome => exact ih _ _

theorem applyRelationsTransaction_within (relations : List (Option RelationItem)) (agentId : Option String) :
    Txn.Within (Db.OnlyRelations Edge.Selectable) (applyRelationsTransaction env relations agentId) := by
  intro w
  have items := applyRelationItems_within env agentId 0 relations .start w
  unfold applyRelationsTransaction
  rw [Tx.run_db_bind, Txn.run_bind]
  split
  · rename_i progress v ran
    rw [ran] at items
    split
    · exact items
    · exact .refl _
  · rename_i ran
    rw [ran] at items
    exact items

theorem applyRelations_within (mode : Mode) (relations : List (Option RelationItem)) (agentId : Option String) :
    Txn.Within (Db.OnlyRelations Edge.Selectable) (applyRelations env mode relations agentId) := by
  unfold applyRelations
  split
  · exact onlyRelations_pure _
  · refine onlyRelations_tryCatch ?_ fun e => ?_
    · exact within_writeTransactionRetrying Db.OnlyRelations.refl (applyRelationsTransaction_within relations agentId) mode
    · cases mode with
      | coordinator => exact onlyRelations_throw e
      | direct => exact onlyRelations_pure _

theorem storeRelationBatchItem_within (env : Env) (agentId : Option String) (invalidate : Bool) (element : Option RelationItem) :
    Txn.Within (Db.OnlyRelations Edge.Selectable) (storeRelationBatchItem env agentId invalidate element) := by
  cases element with
  | none => exact onlyRelations_throw _
  | some item =>
    simp only [storeRelationBatchItem]
    refine onlyRelations_bind (runRelationItem_settles item _ _).within fun r => ?_
    cases r with
    | ok data warnings => exact onlyRelations_pure _
    | rejected errors => exact onlyRelations_throw _
    | failure text => exact onlyRelations_pure _

theorem bulkStoreRelations_within (mode : Mode) (relations : List (Option RelationItem)) (agentId : Option String)
    (invalidate : Bool) :
    Txn.Within (Db.OnlyRelations Edge.Selectable) (bulkStoreRelations env mode relations agentId invalidate) := by
  unfold bulkStoreRelations
  split
  · exact onlyRelations_pure _
  · have items : Txn.Within (Db.OnlyRelations Edge.Selectable)
        (Txn.mapList (storeRelationBatchItem env agentId invalidate) relations) :=
      Txn.within_mapList Db.OnlyRelations.refl (fun _ _ _ h k => h.trans k)
        (storeRelationBatchItem_within _ agentId invalidate) relations
    refine onlyRelations_tryCatch ?_ fun e => onlyRelations_pure _
    exact onlyRelations_bind (within_writeTransactionRetrying Db.OnlyRelations.refl items mode) fun _ => onlyRelations_pure _

end SaltMdb
