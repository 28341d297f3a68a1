import SaltMdb.Relation.Batch
import SaltMdb.Schema.Fresh

/-! A relation batch against its items run one by one: the same table and the same events when every item
is accepted, and nothing at all when one is not. -/

namespace SaltMdb
open Transactions

variable {env : Env}

/-! ### One item -/

/-- What the relation services do to the envelope and the state: a rejection leaves the state alone. -/
inductive RelationCall (db : Db) : Envelope RelationReceipt → Db → Prop where
  | accepted (receipt : RelationReceipt) (warnings : List Warning) (db' : Db) :
      RelationCall db (.ok receipt warnings) db'
  | rejected (errors : List Error) (expected : Expected errors) : RelationCall db (.rejected errors) db

theorem StoreCall.relationCall {args : StoreRelationArgs} {now : Instant} {db db' : Db} {r : Envelope RelationReceipt}
    (call : StoreCall env args now db r db') : RelationCall db r db' := by
  cases call with
  | refused errors expected endpoints => exact .rejected errors expected
  | written source target r db' endpoints outcome =>
    cases outcome with
    | existing id note holds => exact .accepted _ _ _
    | rejected errors expected fresh refused => exact .rejected errors expected
    | created receipt db' admitted creation => exact .accepted _ _ _

theorem InvalidateCall.relationCall {args : InvalidateRelationArgs} {db db' : Db} {r : Envelope RelationReceipt}
    (call : InvalidateCall env args db r db') : RelationCall db r db' := by
  cases call with
  | refused errors expected => exact .rejected errors expected
  | written source target r db' endpoints outcome =>
    cases outcome with
    | missing => exact .rejected _ (expected_singleton.mpr (by decide))
    | already id message => exact .accepted _ _ _
    | closed => exact .accepted _ _ _

theorem RelationCall.split {db db' : Db} {r : Envelope RelationReceipt} (call : RelationCall db r db') :
    (∃ receipt warnings, r = .ok receipt warnings) ∨ ∃ errors, r = .rejected errors ∧ Expected errors ∧ db' = db := by
  cases call with
  | accepted receipt warnings db' => exact Or.inl ⟨receipt, warnings, rfl⟩
  | rejected errors expected => exact Or.inr ⟨errors, rfl, expected, rfl⟩

theorem runRelationItem_cases (item : RelationItem) (action : RelationAction) (agentId : Option String)
    (w : World Db Supply) :
    ∃ r w', (runRelationItem env item action agentId).run w = (.ok r, w') ∧ RelationCall w.durable r w'.durable := by
  cases action with
  | store =>
    obtain ⟨r, w', ran, call⟩ := storeRelationIn_cases env (item.storeArgs agentId) w
    exact ⟨r, w', ran, call.relationCall⟩
  | invalidate =>
    obtain ⟨r, w', ran, call⟩ := invalidateRelationIn_cases env item.invalidateArgs w
    exact ⟨r, w', ran, call.relationCall⟩

theorem relationRejection_expected {errors : List Error} (expected : Expected errors) :
    relationRejection errors = pure errors := by
  have nonempty : errors.isEmpty = false := by simpa using expected.1
  have none_ : errors.find? (·.code == internalError) = none := by
    simpa [List.find?_eq_none] using expected.2
  simp [relationRejection, nonempty, none_]

/-! ### The items one by one -/

/-- One element as a call of its own. What is not an object has no operation to call. -/
def singleRelation (env : Env) (mode : Mode) (agentId : Option String) :
    Option RelationItem → Tx (Envelope RelationReceipt)
  | none => pure (.rejected [relationItemError])
  | some item =>
    match item.action false with
    | .invalidate => serve mode fun m => invalidateRelation env m item.invalidateArgs
    | .store => serve mode fun m => storeRelation env m (item.storeArgs agentId)

/-- Every element in order, each on the state the ones before it left. -/
def inOrder (env : Env) (mode : Mode) (agentId : Option String) (relations : List (Option RelationItem)) :
    Tx (List (Envelope RelationReceipt)) :=
  Txn.mapList (singleRelation env mode agentId) relations

/-- On its own or inside the batch's transaction, an item runs the same. -/
theorem singleRelation_some (mode : Mode) (agentId : Option String) (item : RelationItem) :
    singleRelation env mode agentId (some item) = runRelationItem env item (item.action false) agentId := by
  simp only [singleRelation, runRelationItem]
  cases item.action false with
  | store => exact serve_storeRelation mode _
  | invalidate => exact serve_invalidateRelation mode _

theorem singleRelation_cases (env : Env) (mode : Mode) (agentId : Option String) (element : Option RelationItem)
    (w : World Db Supply) :
    ∃ r w', (singleRelation env mode agentId element).run w = (.ok r, w') ∧ RelationCall w.durable r w'.durable := by
  cases element with
  | none => exact ⟨_, w, rfl, .rejected [relationItemError] (expected_singleton.mpr (by decide))⟩
  | some item =>
    rw [singleRelation_some]
    exact runRelationItem_cases item _ agentId w

/-! ### The errors of a run -/

/-- The errors of the rejected results, under the index each was found at. -/
def rejections : Nat → List (Envelope RelationReceipt) → List Error
  | _, [] => []
  | index, .rejected errors :: rest => prefixRelationErrors errors index ++ rejections (index + 1) rest
  | index, .ok _ _ :: rest => rejections (index + 1) rest
  | index, .failure _ :: rest => rejections (index + 1) rest

/-- The path of the error begins with `relations[index]`. -/
def Error.Names (e : Error) (index : Nat) : Prop := ∃ rest, e.field = some (.name "relations" :: .index index :: rest)

def acceptedCount (results : List (Envelope RelationReceipt)) : Nat := results.countP Envelope.isOk

theorem names_prefixed {errors : List Error} {index i : Nat} {e : Error} (member : e ∈ prefixRelationErrors errors index) :
    e.Names i ↔ i = index := by
  obtain ⟨inner, _, rfl⟩ := List.mem_map.mp member
  simp [Error.Names, eq_comm]

theorem prefixRelationErrors_nonempty {errors : List Error} (nonempty : errors ≠ []) (index : Nat) :
    ∃ e, e ∈ prefixRelationErrors errors index := by
  obtain ⟨e, member⟩ := List.exists_mem_of_ne_nil errors nonempty
  exact ⟨_, List.mem_map_of_mem member⟩

/-- A result the relation services can give. -/
def Envelope.Settled : Envelope RelationReceipt → Prop
  | .ok _ _ => True
  | .rejected errors => errors ≠ []
  | .failure _ => False

theorem RelationCall.settled {db db' : Db} {r : Envelope RelationReceipt} (call : RelationCall db r db') :
    r.Settled := by
  cases call with
  | accepted => trivial
  | rejected errors expected => exact expected.1

theorem rejections_names {results : List (Envelope RelationReceipt)} (start i : Nat)
    (settled : ∀ r ∈ results, r.Settled) :
    (∃ e ∈ rejections start results, e.Names i) ↔ ∃ k r, results[k]? = some r ∧ r.isOk = false ∧ i = start + k := by
  induction results generalizing start with
  | nil => simp [rejections]
  | cons r rest ih =>
    have tail := ih (start + 1) fun r' member => settled r' (List.mem_cons_of_mem _ member)
    have shift : (∃ k r', rest[k]? = some r' ∧ r'.isOk = false ∧ i = start + 1 + k) ↔
        ∃ k r', (r :: rest)[k + 1]? = some r' ∧ r'.isOk = false ∧ i = start + (k + 1) := by
      simp only [List.getElem?_cons_succ]
      constructor <;> (rintro ⟨k, r', found, bad, rfl⟩; exact ⟨k, r', found, bad, by omega⟩)
    cases r with
    | failure text => exact absurd (settled _ List.mem_cons_self) (by simp [Envelope.Settled])
    | ok receipt warnings =>
      simp only [rejections]
      rw [tail, shift]
      constructor
      · rintro ⟨k, r', found, bad, at_⟩
        exact ⟨k + 1, r', found, bad, at_⟩
      · rintro ⟨k, r', found, bad, at_⟩
        cases k with
        | zero =>
          obtain rfl : Envelope.ok receipt warnings = r' := by simpa using found
          simp at bad
        | succ k => exact ⟨k, r', found, bad, at_⟩
    | rejected errors =>
      simp only [rejections]
      constructor
      · rintro ⟨e, member, names⟩
        rcases List.mem_append.mp member with here | later
        · refine ⟨0, .rejected errors, rfl, rfl, ?_⟩
          simpa using (names_prefixed here).mp names
        · obtain ⟨k, r', found, bad, at_⟩ := shift.mp (tail.mp ⟨e, later, names⟩)
          exact ⟨k + 1, r', found, bad, at_⟩
      · rintro ⟨k, r', found, bad, rfl⟩
        cases k with
        | zero =>
          obtain ⟨e, member⟩ := prefixRelationErrors_nonempty (settled _ List.mem_cons_self) start
          exact ⟨e, List.mem_append_left _ member, (names_prefixed member).mpr rfl⟩
        | succ k =>
          obtain ⟨e, member, names⟩ := tail.mpr (shift.mpr ⟨k, r', found, bad, rfl⟩)
          exact ⟨e, List.mem_append_right _ member, names⟩

theorem rejections_named {results : List (Envelope RelationReceipt)} {start : Nat} {e : Error}
    (member : e ∈ rejections start results) : ∃ i, e.Names i := by
  induction results generalizing start with
  | nil => simp [rejections] at member
  | cons r rest ih =>
    cases r with
    | ok receipt warnings => exact ih member
    | failure text => exact ih member
    | rejected errors =>
      rcases List.mem_append.mp member with here | later
      · exact ⟨start, (names_prefixed here).mpr rfl⟩
      · exact ih later

theorem rejections_empty {results : List (Envelope RelationReceipt)} (start : Nat)
    (settled : ∀ r ∈ results, r.Settled) : rejections start results = [] ↔ ∀ r ∈ results, r.isOk = true := by
  induction results generalizing start with
  | nil => simp [rejections]
  | cons r rest ih =>
    have tail := ih (start + 1) fun r' member => settled r' (List.mem_cons_of_mem _ member)
    cases r with
    | failure text => exact absurd (settled _ List.mem_cons_self) (by simp [Envelope.Settled])
    | ok receipt warnings => simpa [rejections] using tail
    | rejected errors =>
      obtain ⟨e, member⟩ := prefixRelationErrors_nonempty (settled _ List.mem_cons_self) start
      simp [rejections, List.ne_nil_of_mem member]

/-! ### The loop -/

theorem applyRelationItem_run {item : RelationItem} {agentId : Option String} {w w' : World Db Supply}
    {r : Envelope RelationReceipt} (ran : (runRelationItem env item (item.action false) agentId).run w = (.ok r, w'))
    (call : RelationCall w.durable r w'.durable) :
    (∃ outcome, r.isOk = true ∧ (applyRelationItem env item agentId).run w = (.ok (.ok outcome), w')) ∨
      ∃ errors, r = .rejected errors ∧ (applyRelationItem env item agentId).run w = (.ok (.error errors), w') := by
  unfold applyRelationItem
  rw [Txn.bind_run_ok ran]
  rcases call.split with ⟨receipt, warnings, rfl⟩ | ⟨errors, rfl, expected, _⟩
  · exact Or.inl ⟨_, rfl, Txn.run_pure _ w'⟩
  · refine Or.inr ⟨errors, rfl, ?_⟩
    simp only [relationRejection_expected expected, Txn.bind_run_ok (Txn.run_pure errors w'), Txn.run_pure]

theorem total_accept (p : BatchProgress) (outcome : RelationOutcome) : (p.accept outcome).total = p.total + 1 := by
  unfold BatchProgress.accept BatchProgress.total
  cases outcome.kind <;> simp only [BatchProgress.count] <;> omega

theorem errors_accept (p : BatchProgress) (outcome : RelationOutcome) : (p.accept outcome).errors = p.errors := by
  unfold BatchProgress.accept
  cases outcome.kind <;> rfl

/-- The loop runs the items as they run one by one, and keeps their rejections and their count. -/
theorem applyRelationItems_run (env : Env) (mode : Mode) (agentId : Option String) (relations : List (Option RelationItem))
    (index : Nat) (progress : BatchProgress) (w : World Db Supply) :
    ∃ results progress' w', (inOrder env mode agentId relations).run w = (.ok results, w') ∧
      (applyRelationItems env agentId index relations progress).run w = (.ok progress', w') ∧
      results.length = relations.length ∧ (∀ r ∈ results, r.Settled) ∧
      progress'.errors = progress.errors ++ rejections index results ∧
      progress'.total = progress.total + acceptedCount results := by
  induction relations generalizing index progress w with
  | nil => exact ⟨[], progress, w, rfl, rfl, rfl, by simp, by simp [rejections], by simp [acceptedCount]⟩
  | cons element rest ih =>
    obtain ⟨r, v, ran, call⟩ := singleRelation_cases env mode agentId element w
    have step : (∃ outcome, r.isOk = true ∧
          (applyRelationItems env agentId index (element :: rest) progress).run w =
            (applyRelationItems env agentId (index + 1) rest (progress.accept outcome)).run v) ∨
        ∃ errors, r = .rejected errors ∧ (applyRelationItems env agentId index (element :: rest) progress).run w =
          (applyRelationItems env agentId (index + 1) rest
            (progress.reject (prefixRelationErrors errors index))).run v := by
      cases element with
      | none =>
        obtain ⟨same, rfl⟩ := Prod.mk.inj ran
        exact Or.inr ⟨[relationItemError], (Except.ok.inj same).symm, rfl⟩
      | some item =>
        rw [singleRelation_some] at ran
        rcases applyRelationItem_run ran call with ⟨outcome, accepted, applied⟩ | ⟨errors, rejected, applied⟩
        · exact Or.inl ⟨outcome, accepted, by simp only [applyRelationItems, Txn.bind_run_ok applied]⟩
        · exact Or.inr ⟨errors, rejected, by simp only [applyRelationItems, Txn.bind_run_ok applied]⟩
    have whole : ∀ results w', (inOrder env mode agentId rest).run v = (.ok results, w') →
        (inOrder env mode agentId (element :: rest)).run w = (.ok (r :: results), w') := by
      intro results w' tail
      unfold inOrder at tail ⊢
      simp only [Txn.mapList, Txn.bind_run_ok ran, Txn.bind_run_ok tail, Txn.run_pure]
    have settledHead := call.settled
    rcases step with ⟨outcome, accepted, continued⟩ | ⟨errors, rfl, continued⟩
    · obtain ⟨results, progress', w', tail, applied, length, settled, errors, total⟩ :=
        ih (index + 1) (progress.accept outcome) v
      refine ⟨r :: results, progress', w', whole results w' tail, continued.trans applied, by simp [length], ?_, ?_, ?_⟩
      · simpa using ⟨settledHead, settled⟩
      · rw [errors, errors_accept]
        cases r with
        | ok receipt warnings => rfl
        | rejected errors => simp at accepted
        | failure text => simp at accepted
      · rw [total, total_accept]
        rw [acceptedCount, acceptedCount, List.countP_cons_of_pos accepted]
        omega
    · obtain ⟨results, progress', w', tail, applied, length, settled, found, total⟩ :=
        ih (index + 1) (progress.reject (prefixRelationErrors errors index)) v
      refine ⟨.rejected errors :: results, progress', w', whole results w' tail, continued.trans applied,
        by simp [length], ?_, ?_, ?_⟩
      · simpa using ⟨settledHead, settled⟩
      · rw [found, BatchProgress.reject, rejections, List.append_assoc]
      · rw [total]
        rfl

/-! ### The batch -/

theorem applyRelationsTransaction_run (env : Env) (mode : Mode) (agentId : Option String) (relations : List (Option RelationItem))
    (w : World Db Supply) :
    ∃ results w₁, (inOrder env mode agentId relations).run w = (.ok results, w₁) ∧
      results.length = relations.length ∧ (∀ r ∈ results, r.Settled) ∧
      ((rejections 0 results = [] ∧ ∃ batch : RelationBatch,
          (applyRelationsTransaction env relations agentId).run w = (.ok (.ok batch []), w₁) ∧
          batch.createdCount + batch.duplicateCount + batch.invalidatedCount = acceptedCount results) ∨
        (rejections 0 results ≠ [] ∧ ∃ w₂,
          (applyRelationsTransaction env relations agentId).run w = (.ok (.rejected (rejections 0 results)), w₂) ∧
          w₂.durable = w.durable)) := by
  obtain ⟨results, progress, w₁, ran, applied, length, settled, errors, total⟩ :=
    applyRelationItems_run env mode agentId relations 0 .start w
  have collected : progress.errors = rejections 0 results := errors
  have counted : progress.total = acceptedCount results := by simpa [BatchProgress.total, BatchProgress.start] using total
  refine ⟨results, w₁, ran, length, settled, ?_⟩
  unfold applyRelationsTransaction
  rw [Tx.run_db_bind, Txn.bind_run_ok applied]
  by_cases none_ : rejections 0 results = []
  · simp only [collected, none_, List.isEmpty_nil, if_true]
    exact Or.inl ⟨trivial, progress.batch, Txn.run_pure _ w₁, counted⟩
  · have some_ : progress.errors.isEmpty = false := by simpa [collected] using none_
    simp only [some_, Bool.false_eq_true, if_false, ← collected]
    exact Or.inr ⟨collected ▸ none_, _, Txn.bind_run_ok (Txn.run_modify _ w₁), rfl⟩

theorem applyRelationsTransaction_total (env : Env) (relations : List (Option RelationItem)) (agentId : Option String) :
    Txn.Total (applyRelationsTransaction env relations agentId) := by
  intro w
  obtain ⟨_, _, _, _, _, ⟨_, batch, ran, _⟩ | ⟨_, w₂, ran, _⟩⟩ :=
    applyRelationsTransaction_run env .direct agentId relations w
  · exact ⟨_, _, ran⟩
  · exact ⟨_, _, ran⟩

theorem serve_applyRelations (mode : Mode) (agentId : Option String) {relations : List (Option RelationItem)}
    (nonempty : relations ≠ []) :
    serve mode (fun m => applyRelations env m relations agentId) = applyRelationsTransaction env relations agentId := by
  have total := applyRelationsTransaction_total env relations agentId
  refine serve_total (fun m => ?_) total mode
  have filled : relations.isEmpty = false := by simpa using nonempty
  simp only [applyRelations, filled, writeTransactionRetrying_total total, Txn.tryCatch_of_total total]
  rfl

theorem acceptedCount_all {results : List (Envelope RelationReceipt)} (all : ∀ r ∈ results, r.isOk = true) :
    acceptedCount results = results.length :=
  List.countP_eq_length.mpr all

theorem serve_applyRelations_empty (mode : Mode) (agentId : Option String) (w : World Db Supply) :
    (serve mode fun m => applyRelations env m [] agentId).run w =
      (.ok (.rejected [relationsArrayError "relations must be a non-empty array"]), w) := by
  cases mode <;> rfl

/-- What a batch leaves: the state of its items run one by one, or the state it started in. -/
theorem applyRelations_cases (env : Env) (mode : Mode) (agentId : Option String) (relations : List (Option RelationItem))
    (w : World Db Supply) :
    ∃ results v r w', (inOrder env mode agentId relations).run w = (.ok results, v) ∧
      (serve mode fun m => applyRelations env m relations agentId).run w = (.ok r, w') ∧
      ((r.isOk = true ∧ w'.durable = v.durable) ∨ (r.isOk = false ∧ w'.durable = w.durable)) := by
  by_cases empty : relations = []
  · subst relations
    exact ⟨[], w, _, w, rfl, serve_applyRelations_empty mode agentId w, Or.inr ⟨rfl, rfl⟩⟩
  · rw [serve_applyRelations mode agentId empty]
    obtain ⟨results, v, ran, _, _, ⟨_, batch, applied, _⟩ | ⟨_, w', applied, restored⟩⟩ :=
      applyRelationsTransaction_run env mode agentId relations w
    · exact ⟨results, v, _, v, ran, applied, Or.inl ⟨rfl, rfl⟩⟩
    · exact ⟨results, v, _, w', ran, applied, Or.inr ⟨rfl, restored⟩⟩

/-- A batch is accepted exactly when it has items and each is accepted in its turn. It then leaves what the
items leave one by one, and otherwise nothing, with an error for each item that failed and for no other. -/
theorem applyRelations_inOrder (mode : Mode) (agentId : Option String) (relations : List (Option RelationItem))
    (w : World Db Supply) :
    ∃ results v r w', (inOrder env mode agentId relations).run w = (.ok results, v) ∧
      results.length = relations.length ∧
      (serve mode fun m => applyRelations env m relations agentId).run w = (.ok r, w') ∧
      (r.isOk = true ↔ relations ≠ [] ∧ ∀ result ∈ results, result.isOk = true) ∧
      (∀ batch warnings, r = .ok batch warnings → w'.durable = v.durable ∧
        batch.createdCount + batch.duplicateCount + batch.invalidatedCount = relations.length) ∧
      (r.isOk = false → w'.durable = w.durable ∧ ∃ errors, r = .rejected errors ∧
        (∀ i, (∃ e ∈ errors, e.Names i) ↔ ∃ result, results[i]? = some result ∧ result.isOk = false) ∧
        (relations ≠ [] → ∀ e ∈ errors, ∃ i, e.Names i) ∧
        (relations = [] → errors = [relationsArrayError "relations must be a non-empty array"])) := by
  by_cases empty : relations = []
  · subst relations
    refine ⟨[], w, _, w, rfl, rfl, serve_applyRelations_empty mode agentId w, by simp, by simp, fun _ => ?_⟩
    refine ⟨rfl, _, rfl, fun i => ?_, fun filled => absurd rfl filled, fun _ => rfl⟩
    simp [Error.Names, relationsArrayError, fieldError]
  · rw [serve_applyRelations mode agentId empty]
    obtain ⟨results, v, ran, length, settled, outcome⟩ :=
      applyRelationsTransaction_run env mode agentId relations w
    have allOk := rejections_empty 0 settled
    rcases outcome with ⟨none_, batch, applied, counts⟩ | ⟨some_, w', applied, restored⟩
    · have all := allOk.mp none_
      refine ⟨results, v, .ok batch [], v, ran, length, applied, by simpa [empty] using all, ?_, by simp⟩
      rintro batch' warnings same
      obtain ⟨rfl, _⟩ := Envelope.ok.inj same
      exact ⟨rfl, by rw [counts, acceptedCount_all all, length]⟩
    · have bad : ¬ ∀ r ∈ results, r.isOk = true := fun all => some_ (allOk.mpr all)
      refine ⟨results, v, .rejected (rejections 0 results), w', ran, length, applied, by simpa [empty] using bad,
        by simp, fun _ => ⟨restored, rejections 0 results, rfl, fun i => ?_, fun _ e member => rejections_named member,
          fun same => absurd same empty⟩⟩
      rw [rejections_names 0 i settled]
      constructor
      · rintro ⟨k, r, found, failed, rfl⟩
        exact ⟨r, by rwa [Nat.zero_add], failed⟩
      · rintro ⟨r, found, failed⟩
        exact ⟨i, r, found, failed, (Nat.zero_add i).symm⟩

/-- No item fails in an empty batch, and it is rejected all the same. -/
theorem applyRelations_empty_differs :
    ¬ (accepted ((serve .direct fun m => applyRelations .plain m [] none).run freshWorld).1 = true ↔
      ∀ element ∈ ([] : List (Option RelationItem)),
        accepted ((singleRelation .plain .direct none element).run freshWorld).1 = true) := by
  decide

end SaltMdb
