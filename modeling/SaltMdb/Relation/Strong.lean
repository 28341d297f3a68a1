import SaltMdb.Relation.Effects
import SaltMdb.Schema.Migration
import SaltMdb.Schema.Fresh

/-! What storing a strong predicate does to the other edges of its source. -/

namespace SaltMdb
open Transactions

variable {env : Env}

/-- The edge is the only active one of its source under its predicate. -/
def RelationTable.OnlyEdge (T : RelationTable) (e : Edge) : Prop :=
  T.Holds e ∧ ∀ x, T.Holds x → x.source = e.source → x.predicate = e.predicate → x = e

/-- Another active edge of the same source under the same predicate. -/
def RelationTable.Rival (T : RelationTable) (e x : Edge) : Prop :=
  T.Holds x ∧ x.source = e.source ∧ x.predicate = e.predicate ∧ x ≠ e

/-- No rival beside an edge that is already active, one at most beside a new one. -/
def RelationTable.Unrivalled (T : RelationTable) (e : Edge) : Prop :=
  if T.Holds e then ∀ x, ¬ T.Rival e x else ∀ x y, T.Rival e x → T.Rival e y → x = y

theorem onlyEdge_held {T : RelationTable} {e : Edge} (holds : T.Holds e) : T.OnlyEdge e ↔ T.Unrivalled e := by
  simp only [RelationTable.OnlyEdge, RelationTable.Unrivalled, RelationTable.Rival, if_pos holds]
  constructor
  · rintro ⟨_, only⟩ x ⟨held, source, predicate, differs⟩
    exact differs (only x held source predicate)
  · intro none_
    refine ⟨holds, fun x held source predicate => ?_⟩
    by_contra differs
    exact none_ x ⟨held, source, predicate, differs⟩

/-- The statement that looks for an edge to repoint finds a rival whenever there is one. -/
theorem staleEdge_rival {T : RelationTable} {e : Edge} (strong : isStrong e.predicate = true) :
    (∀ r, staleEdge T e = some r → T.Rival e r.edge) ∧ (staleEdge T e = none → ∀ x, ¬ T.Rival e x) := by
  constructor
  · intro r found
    obtain ⟨member, active, source, predicate, _⟩ := RelationTable.fetchStale_some (staleEdge_some found).2
    exact ⟨⟨r, member, active, rfl⟩, source, predicate, (stale_edge_ne found).symm⟩
  · intro missing x ⟨held, source, predicate, differs⟩
    simp only [staleEdge, strong, if_true] at missing
    obtain ⟨s, p, t⟩ := x
    obtain rfl : s = e.source := source
    obtain rfl : p = e.predicate := predicate
    exact RelationTable.fetchStale_none missing (fun same => differs (by rw [same])) held

theorem onlyEdge_stored {T : RelationTable} {now : Instant} {d : RelationDraft} (free : ¬ T.Holds d.edge)
    (strong : isStrong d.edge.predicate = true) :
    (storedTable T now d).OnlyEdge d.edge ↔ T.Unrivalled d.edge := by
  obtain ⟨ofSome, ofNone⟩ := staleEdge_rival (T := T) strong
  simp only [RelationTable.OnlyEdge, RelationTable.Unrivalled, storedTable_holds free, if_neg free, true_or, true_and]
  constructor
  · intro only x y rivalX rivalY
    cases stale : staleEdge T d.edge with
    | none => exact absurd rivalX (ofNone stale x)
    | some r =>
      -- a rival that is not the stale edge is still active
      have closed : ∀ x, T.Rival d.edge x → x = r.edge := by
        rintro x ⟨held, source, predicate, differs⟩
        by_contra other
        refine differs (only x (Or.inr ⟨held, fun r' same => ?_⟩) source predicate)
        obtain rfl := Option.some.inj (stale.symm.trans same)
        exact other
      rw [closed x rivalX, closed y rivalY]
  · rintro one x (rfl | ⟨held, kept⟩) source predicate
    · rfl
    · by_contra differs
      have rival : T.Rival d.edge x := ⟨held, source, predicate, differs⟩
      cases stale : staleEdge T d.edge with
      | none => exact ofNone stale x rival
      | some r => exact kept r stale (one x r.edge rival (ofSome r stale))

theorem storeRelationWrite_only {request : RelationWriteRequest} {db db' : Db} {receipt : RelationReceipt}
    {warnings : List Warning} (outcome : StoreOutcome env request db (.ok receipt warnings) db')
    (strong : isStrong (request.edge db).predicate = true) :
    db'.relations.OnlyEdge (request.edge db) ↔ db.relations.Unrivalled (request.edge db) := by
  generalize answer : Envelope.ok receipt warnings = r at outcome
  cases outcome with
  | existing id note holds => exact onlyEdge_held holds
  | rejected errors expected fresh refused => simp at answer
  | created receipt' db' admitted creation =>
    rw [creation.relations]
    unfold RelationWriteRequest.edge at strong ⊢
    exact onlyEdge_stored creation.fresh strong

theorem request_edge {args : StoreRelationArgs} {source target : EntityId} {now : Instant} {db : Db} :
    (args.request source target now).edge db = ⟨source, canonicalPredicate db args.predicate, target⟩ := by
  simp only [RelationWriteRequest.edge, RelationDraft.edge, RelationWriteRequest.draft, StoreRelationArgs.request]

/-- An accepted store of a strong predicate leaves its edge the only one of the source exactly where it met
at most one rival, and none beside an edge that was already there. -/
theorem storeRelation_only_iff {mode : Mode} {args : StoreRelationArgs} {source target : EntityId}
    {w : World Db Supply} (endpoints : storeRelationEndpoints env w.durable args = .ok (source, target))
    (strong : isStrong (canonicalPredicate w.durable args.predicate) = true)
    (stored : accepted ((serve mode fun m => storeRelation env m args).run w).1 = true) :
    ((serve mode fun m => storeRelation env m args).run w).2.durable.relations.OnlyEdge
        ⟨source, canonicalPredicate w.durable args.predicate, target⟩ ↔
      w.durable.relations.Unrivalled ⟨source, canonicalPredicate w.durable args.predicate, target⟩ := by
  rw [serve_storeRelation] at stored ⊢
  obtain ⟨r, v, ran, call⟩ := storeRelationIn_cases env args w
  simp only [ran] at stored ⊢
  generalize v.durable = after at call ⊢
  cases call with
  | refused errors expected failed => simp [accepted] at stored
  | written s t r db' resolved outcome =>
    obtain ⟨rfl, rfl⟩ := Prod.mk.inj (Except.ok.inj (resolved.symm.trans endpoints))
    rcases outcome.answer with ⟨receipt, warnings, rfl⟩ | ⟨errors, rfl⟩
    · have only := storeRelationWrite_only outcome (by rw [request_edge]; exact strong)
      rwa [request_edge] at only
    · simp [accepted] at stored

/-! ### After the drift migration -/

def documentsDraft (target : EntityId) : RelationDraft := ⟨"guide", target, "documents", 0, some 0, some 0⟩

/-- Two `documents` edges of one memory, as a database from before the closed vocabulary holds them. -/
def driftedTable : RelationTable :=
  (RelationTable.empty.push (documentsDraft "first") (by decide)).push (documentsDraft "second") (by decide)

def driftedDb (T : RelationTable) : Db :=
  { Db.init with
    entities := ⟨[memoryRow "guide" "Guide" "guide", memoryRow "first" "First" "first",
      memoryRow "second" "Second" "second"], by decide⟩
    relations := T }

def migratedWorld : World Db Supply := ⟨driftedDb ((migratePredicateDrift 0 driftedTable).getD .empty), ⟨0, 0⟩⟩

def elaboratesOnFirst : StoreRelationArgs := ⟨"guide", "first", "elaborates_on", none, none, some "agent", false⟩

/-- The migration makes both edges `elaborates_on`, and storing one of them again keeps the other active. -/
theorem migrated_edges_survive_store :
    migratePredicateDrift 0 driftedTable = some migratedWorld.durable.relations ∧
      isStrong "elaborates_on" = true ∧
      accepted ((serve .direct fun m => storeRelation .plain m elaboratesOnFirst).run migratedWorld).1 = true ∧
      ¬ ((serve .direct fun m => storeRelation .plain m elaboratesOnFirst).run migratedWorld).2.durable.relations.OnlyEdge
        ⟨"guide", "elaborates_on", "first"⟩ := by
  have rival : ((serve .direct fun m => storeRelation .plain m elaboratesOnFirst).run
      migratedWorld).2.durable.relations.Holds ⟨"guide", "elaborates_on", "second"⟩ := by decide
  refine ⟨by decide, by decide, by decide, fun only => ?_⟩
  exact absurd (only.2 _ rival rfl rfl) (by decide)

theorem migrated_store_iff :
    ((serve .direct fun m => storeRelation .plain m elaboratesOnFirst).run migratedWorld).2.durable.relations.OnlyEdge
        ⟨"guide", canonicalPredicate migratedWorld.durable "elaborates_on", "first"⟩ ↔
      migratedWorld.durable.relations.Unrivalled
        ⟨"guide", canonicalPredicate migratedWorld.durable "elaborates_on", "first"⟩ :=
  @storeRelation_only_iff .plain .direct elaboratesOnFirst "guide" "first" migratedWorld (by decide) (by decide)
    (by decide)

end SaltMdb
