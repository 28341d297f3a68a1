import SaltMdb.Library.Batch
import SaltMdb.Core.Reconcile

/-! What becomes of a relation item is decided by the database it meets, and what is written of relations is
never undone by a later one. -/

namespace SaltMdb
open Transactions

/-- A map that only ever sets a flag, and sets it on one element, leaves it on more of them. -/
theorem countP_lt_countP_map {α : Type} {p : α → Bool} {f : α → α} {l : List α} {x : α}
    (kept : ∀ a ∈ l, p a = true → p (f a) = true) (member : x ∈ l) (was : p x = false) (set : p (f x) = true) :
    l.countP p < (l.map f).countP p := by
  obtain ⟨before, after, rfl⟩ := List.append_of_mem member
  have low : before.countP p ≤ before.countP (p ∘ f) := List.countP_mono_left fun a h => kept a (by simp [h])
  have high : after.countP p ≤ after.countP (p ∘ f) := List.countP_mono_left fun a h => kept a (by simp [h])
  simp only [List.map_append, List.map_cons, List.countP_append, List.countP_cons, List.countP_map, was, set]
  simp only [Bool.false_eq_true, if_false, if_true]
  omega

/-! ### How much was written -/

/-- The inserts and the endings of a table so far. -/
def RelationTable.volume (T : RelationTable) : Nat := T.next + T.rows.countP (!·.active)

def Db.volume (db : Db) : Nat := db.relations.volume

namespace RelationTable
variable {T : RelationTable} {d : RelationDraft} {c : Closing} {r : Relation}

theorem volume_closeId_lt (member : r ∈ T.rows) (active : r.active = true) : T.volume < (T.closeId r.id c).volume := by
  have ended : T.rows.countP (!·.active) < (T.rows.map (·.closeIf (·.id == r.id) c)).countP (!·.active) := by
    refine countP_lt_countP_map (fun a _ closed => ?_) member (by rw [active]; rfl) ?_
    · simp only [Relation.closeIf_active, Bool.not_eq_true'] at closed ⊢
      rw [closed, Bool.false_and]
    · simp [Relation.closeIf_active]
  exact Nat.add_lt_add_left ended T.next

theorem volume_push (free : ¬ T.Holds d.edge) : (T.push d free).volume = T.volume + 1 := by
  simp only [volume, push, List.countP_append, List.countP_singleton, RelationDraft.row_active, Bool.not_true,
    Bool.false_eq_true, if_false]
  omega

theorem volume_storedTable (now : Instant) (free : ¬ T.Holds d.edge) : T.volume < (storedTable T now d).volume := by
  obtain ⟨open_, table⟩ := storedTable_push now free
  rw [table, volume_push]
  apply Nat.lt_succ_of_le
  cases stale : staleEdge T d.edge with
  | none => exact Nat.le_refl _
  | some r =>
    obtain ⟨member, active, _⟩ := fetchStale_some (staleEdge_some stale).2
    exact Nat.le_of_lt (volume_closeId_lt member active)

end RelationTable

/-! ### Fates -/

variable (env : Env)

/-- A store is refused by its checks, or by the guard and the gate on an edge that does not stand yet. -/
def StoreRelationArgs.fate (db : Db) (args : StoreRelationArgs) : Txn.Fate :=
  match storeRelationEndpoints env db args with
  | .error _ => .refused
  | .ok (source, target) =>
    -- the instant of the write plays no part in what is decided here
    let request := args.request source target 0
    if (db.relations.fetchActive (request.edge db)).isSome then .idle
    else if request.admitted env db then .writes
    else .refused

def InvalidateRelationArgs.fate (db : Db) (args : InvalidateRelationArgs) : Txn.Fate :=
  match invalidateRelationEndpoints env db args with
  | .error _ => .refused
  | .ok (source, target) =>
    match invalidationTarget db.relations ⟨source, canonicalPredicate db args.predicate, target⟩ with
    | none => .refused
    | some row => if row.invalidAt.isSome then .idle else .writes

def runFate (db : Db) (item : RelationItem) (action : RelationAction) (agentId : Option String) : Txn.Fate :=
  match action with
  | .invalidate => item.invalidateArgs.fate env db
  | .store => (item.storeArgs agentId).fate env db

/-- An element of a `bulk_store_relations` array; what is not an object is refused. -/
def relationElementFate (agentId : Option String) (invalidate : Bool) (db : Db) : Option RelationItem → Txn.Fate
  | none => .refused
  | some item => runFate env db item (item.action invalidate) (item.agentId.getD agentId)

def detailFate (coreId : EntityId) (agentId : Option String) (db : Db) (detailId : EntityId) : Txn.Fate :=
  (detailRelationArgs coreId detailId agentId).fate env db

variable {env : Env}

/-- What an operation answers and leaves behind, by its fate. -/
inductive RelationResult (db : Db) : Txn.Fate → Envelope RelationReceipt → Db → Prop where
  | refused (errors : List Error) : RelationResult db .refused (.rejected errors) db
  | idle (receipt : RelationReceipt) (warnings : List Warning) : RelationResult db .idle (.ok receipt warnings) db
  | writes (receipt : RelationReceipt) (warnings : List Warning) (db' : Db) (more : db.volume < db'.volume) :
      RelationResult db .writes (.ok receipt warnings) db'

theorem StoreRelationArgs.fate_eq {db : Db} {args : StoreRelationArgs} {source target : EntityId}
    (endpoints : storeRelationEndpoints env db args = .ok (source, target)) (now : Instant) :
    args.fate env db =
      if (db.relations.fetchActive ((args.request source target now).edge db)).isSome then .idle
      else if (args.request source target now).admitted env db then .writes
      else .refused := by
  simp only [StoreRelationArgs.fate, endpoints]
  rfl

theorem StoreCall.result {args : StoreRelationArgs} {now : Instant} {db db' : Db} {r : Envelope RelationReceipt}
    (call : StoreCall env args now db r db') : RelationResult db (args.fate env db) r db' := by
  cases call with
  | refused errors expected endpoints =>
    rw [StoreRelationArgs.fate, endpoints]
    exact .refused errors
  | written source target r db' endpoints outcome =>
    rw [StoreRelationArgs.fate_eq endpoints now]
    cases outcome with
    | existing id note holds =>
      rw [if_pos (RelationTable.fetchActive_isSome.mpr holds)]
      exact .idle _ _
    | rejected errors expected fresh refused =>
      rw [if_neg (fun found => fresh (RelationTable.fetchActive_isSome.mp found)), if_neg]
      · exact .refused errors
      · rw [Bool.not_eq_true]
        exact refused
    | created receipt db' admitted creation =>
      rw [if_neg (fun found => creation.fresh (RelationTable.fetchActive_isSome.mp found)), if_pos admitted]
      refine .writes receipt [] db' ?_
      rw [Db.volume, Db.volume, creation.relations]
      exact RelationTable.volume_storedTable _ creation.fresh

theorem InvalidateCall.result {args : InvalidateRelationArgs} {db db' : Db} {r : Envelope RelationReceipt}
    (call : InvalidateCall env args db r db') : RelationResult db (args.fate env db) r db' := by
  cases call with
  | refused errors expected endpoints =>
    rw [InvalidateRelationArgs.fate, endpoints]
    exact .refused errors
  | written source target r db' endpoints outcome =>
    simp only [InvalidateRelationArgs.fate, endpoints]
    cases outcome with
    | missing absent =>
      rw [absent]
      exact .refused _
    | already id message row target ended =>
      rw [target]
      dsimp only
      rw [if_pos ended]
      exact .idle _ _
    | closed receipt row at_ member active same open_ target =>
      rw [target]
      dsimp only
      rw [if_neg (by rw [open_]; decide)]
      exact .writes receipt [] _ (RelationTable.volume_closeId_lt member active)

end SaltMdb
