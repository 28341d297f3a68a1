import SaltMdb.Core.Governance
import SaltMdb.Relation.Growth

/-! What the reconciliation of a core's detail edges can do to the database. -/

namespace SaltMdb
open Transactions

variable {env : Env}

/-- The predicate of the edges from a detail to its core. -/
def Edge.Elaborates (e : Edge) : Prop := e.predicate = "elaborates_on"

theorem canonicalPredicate_elaborates (db : Db) : canonicalPredicate db "elaborates_on" = "elaborates_on" :=
  canonicalPredicate_selectable (by decide)

theorem Edge.Elaborates.selectable {e : Edge} (h : e.Elaborates) : e.Selectable := by
  rw [Edge.Selectable, h]
  decide

/-- The store of one detail edge: it stands afterwards, or nothing was written and an exception tells why. -/
theorem storeDetailRelation_cases (env : Env) (coreId : EntityId) (agentId : Option String) (detailId : EntityId)
    (w : World Db Supply) :
    (∃ receipt warnings w', (storeDetailRelation env coreId agentId detailId).run w = (.ok (), w') ∧
      StoreCall env (detailRelationArgs coreId detailId agentId) (reading env w) w.durable (.ok receipt warnings)
        w'.durable) ∨
    (∃ message w', (storeDetailRelation env coreId agentId detailId).run w = (.error (.runtimeError message), w') ∧
      w'.durable = w.durable) := by
  obtain ⟨r, w', ran, call⟩ := storeRelationIn_cases env (detailRelationArgs coreId detailId agentId) w
  unfold storeDetailRelation
  rw [Txn.bind_run_ok ran]
  rcases call.relationCall.split with ⟨receipt, warnings, rfl⟩ | ⟨errors, rfl, _, same⟩
  · exact Or.inl ⟨receipt, warnings, w', Txn.run_pure _ w', call⟩
  · exact Or.inr ⟨_, w', Txn.run_throw _ w', same⟩

theorem StoreCall.elaborates {coreId detailId : EntityId} {agentId : Option String} {now : Instant} {db db' : Db}
    {r : Envelope RelationReceipt} (call : StoreCall env (detailRelationArgs coreId detailId agentId) now db r db') :
    db.OnlyRelations Edge.Elaborates db' := by
  refine call.onlyRelations fun source target _ => ?_
  rw [Edge.Elaborates, RelationWriteRequest.edge_predicate]
  exact canonicalPredicate_elaborates db

theorem storeDetailRelation_within (coreId : EntityId) (agentId : Option String) (detailId : EntityId) :
    Txn.Within (Db.OnlyRelations Edge.Elaborates) (storeDetailRelation env coreId agentId detailId) := by
  intro w
  rcases storeDetailRelation_cases env coreId agentId detailId w with
    ⟨receipt, warnings, w', ran, call⟩ | ⟨message, w', ran, same⟩
  · rw [ran]
    exact call.elaborates
  · rw [ran, same]
    exact .refl _

theorem storeRelationEndpoints_apart {db : Db} {args : StoreRelationArgs} {source target : EntityId}
    (h : storeRelationEndpoints env db args = .ok (source, target)) : source ≠ target := by
  unfold storeRelationEndpoints at h
  split at h
  · simp at h
  · split at h
    · simp at h
    · split at h
      · simp at h
      · rename_i apart
        split at h
        · simp at h
        · obtain ⟨rfl, rfl⟩ := Prod.mk.inj (Except.ok.inj h)
          exact apart

/-- The edge of a core to itself is refused as a loop, so no core is accepted as a detail of its own. -/
theorem reconcileDetailRelations_self {coreId : EntityId} {agentId : Option String} {new previous : List EntityId}
    {w w' : World Db Supply} (h : (reconcileDetailRelations env coreId agentId new previous).run w = (.ok (), w')) :
    coreId ∉ new := by
  obtain ⟨_, v, stored, -⟩ := Txn.bind_ok h
  clear h
  induction new generalizing w with
  | nil => exact List.not_mem_nil
  | cons detail rest ih =>
    obtain ⟨_, u, first, others⟩ := Txn.bind_ok stored
    intro member
    rcases List.mem_cons.mp member with rfl | later
    · rcases storeDetailRelation_cases env coreId agentId coreId w with ⟨receipt, warnings, x, ran, call⟩ | ⟨message, x, ran, _⟩
      · obtain ⟨source, target, endpoints, _⟩ := call.accepted rfl
        obtain ⟨atSource, atTarget⟩ := resolveEndpoints_resolved (storeRelationEndpoints_resolved endpoints)
        exact storeRelationEndpoints_apart endpoints (Option.some.inj (atSource.symm.trans atTarget))
      · rw [ran] at first
        simp at first
    · exact ih others later

theorem dropDetailRelation_settles (coreId detailId : EntityId) :
    Txn.Settles (Db.OnlyRelations Edge.Elaborates) (dropDetailRelation env coreId detailId) :=
  Txn.settles_bind (fun _ _ _ h k => h.trans k) (invalidateRelationIn_settles _) fun _ =>
    Txn.settles_pure Db.OnlyRelations.refl _

theorem reconcileDetailRelations_within (coreId : EntityId) (agentId : Option String) (new previous : List EntityId) :
    Txn.Within (Db.OnlyRelations Edge.Elaborates) (reconcileDetailRelations env coreId agentId new previous) := by
  unfold reconcileDetailRelations
  refine Txn.within_bind (fun _ _ _ h k => h.trans k) ?_ fun _ => ?_
  · exact Txn.within_forEach Db.OnlyRelations.refl (fun _ _ _ h k => h.trans k)
      (storeDetailRelation_within coreId agentId) new
  · exact Txn.within_forEach Db.OnlyRelations.refl (fun _ _ _ h k => h.trans k)
      (fun id => (dropDetailRelation_settles coreId id).within) _

end SaltMdb
