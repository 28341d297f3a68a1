import Mathlib.Algebra.Order.Ring.Int
import SaltMdb.Library.Bitemporal
import SaltMdb.Library.Runs
import SaltMdb.Relation.InOrder
import SaltMdb.Relation.Strong

/-! Which rows of one edge are current together: the unique index looks at `valid_to` alone, the readers
compare four timestamps. -/

namespace SaltMdb
open Transactions Bitemporal

variable {env : Env}

/-- The validity predicate of the readers: the row is true at `valid` and recorded at `recorded`. -/
def Relation.currentAt (r : Relation) (valid recorded : Instant) : Prop :=
  (∀ t ∈ r.validTo, datetime recorded < datetime t) ∧ (∀ t ∈ r.validFrom, datetime t ≤ datetime recorded) ∧
    (∀ t ∈ r.invalidAt, datetime valid < datetime t) ∧ ∀ t ∈ r.validAt, datetime t ≤ datetime valid

/-- At most one row per edge is current, whatever the pair of instants. -/
def RelationTable.CurrentUnique (T : RelationTable) : Prop :=
  T.rows.Pairwise fun a b => a.edge = b.edge → ∀ valid recorded, ¬ (a.currentAt valid recorded ∧ b.currentAt valid recorded)

/-! ### Rows as extents -/

def Relation.extent (r : Relation) : Extent Int :=
  ⟨⟨r.validAt.map datetime, r.invalidAt.map datetime⟩, ⟨r.validFrom.map datetime, r.validTo.map datetime⟩⟩

theorem currentAt_iff {r : Relation} {valid recorded : Instant} :
    r.currentAt valid recorded ↔ r.extent.Current (datetime valid) (datetime recorded) := by
  simp only [Relation.currentAt, Relation.extent, Extent.Current, Period.Contains, Option.mem_def,
    Option.map_eq_some_iff, forall_exists_index, and_imp, forall_apply_eq_imp_iff₂]
  tauto

theorem datetime_seconds (s : Int) : datetime (s * 1000000) = s := by
  unfold datetime
  omega

theorem currentUnique_iff {T : RelationTable} :
    T.CurrentUnique ↔ Apart Relation.edge Relation.extent T.rows := by
  unfold RelationTable.CurrentUnique Apart
  refine iff_of_eq (congrArg (fun R => List.Pairwise R T.rows) ?_)
  funext a b
  refine propext (imp_congr_right fun _ => ?_)
  rw [Extent.meets_iff]
  constructor
  · rintro apart ⟨v, r, ca, cb⟩
    refine apart (v * 1000000) (r * 1000000) ⟨?_, ?_⟩ <;> rw [currentAt_iff, datetime_seconds, datetime_seconds]
    · exact ca
    · exact cb
  · intro apart valid recorded ⟨ca, cb⟩
    exact apart ⟨_, _, currentAt_iff.mp ca, currentAt_iff.mp cb⟩

/-! ### The invariant -/

/-- Rows are unique at every pair of instants, and no active row has an end in world time. -/
structure Bitemporal (T : RelationTable) : Prop where
  unique : T.CurrentUnique
  open_ : ∀ r ∈ T.rows, r.active = true → r.invalidAt = none

theorem close_inside {r : Relation} {c : Closing} (active : r.active = true) (open_ : r.invalidAt = none) :
    (r.close c).extent.Inside r.extent := by
  have noEnd : r.validTo = none := by simpa [Relation.active] using active
  exact ⟨Period.inside_of_start rfl (by simp [Relation.extent, open_]),
    Period.inside_of_start rfl (by simp [Relation.extent, noEnd])⟩

/-- Ending active rows keeps the table bitemporal. -/
theorem Bitemporal.closeWhere {T : RelationTable} (h : Bitemporal T) {sel : Relation → Bool} {c : Closing}
    (only : ∀ r ∈ T.rows, sel r = true → r.active = true) : Bitemporal (T.closeWhere sel c) := by
  constructor
  · rw [currentUnique_iff]
    refine apart_map (fun r _ => Relation.closeIf_edge) (fun r member => ?_) (currentUnique_iff.mp h.unique)
    unfold Relation.closeIf
    split
    · rename_i selected
      have active := only r member selected
      exact close_inside active (h.open_ r member active)
    · exact r.extent.inside_refl
  · intro r member active
    obtain ⟨old, oldMember, rfl⟩ := RelationTable.mem_closeWhere.mp member
    rw [Relation.closeIf_active, Bool.and_eq_true] at active
    rw [Relation.closeIf, if_neg (by simpa using active.2)]
    exact h.open_ old oldMember active.1

theorem Bitemporal.closeId {T : RelationTable} (h : Bitemporal T) {r : Relation} (member : r ∈ T.rows)
    (active : r.active = true) (c : Closing) : Bitemporal (T.closeId r.id c) := by
  refine h.closeWhere fun other otherMember same => ?_
  rw [RelationTable.id_unique otherMember member (by simpa using same)]
  exact active

theorem bitemporal_closeStale {T : RelationTable} (h : Bitemporal T) (e : Edge) (now : Instant) :
    Bitemporal (closeStale ((staleEdge T e).map (·.id)) now T) := by
  cases stale : staleEdge T e with
  | none => exact h
  | some r =>
    obtain ⟨member, active, _⟩ := RelationTable.fetchStale_some (staleEdge_some stale).2
    exact h.closeId member active _

/-- No row of the edge reaches into the time of the row to be inserted. -/
def Clear (T : RelationTable) (d : RelationDraft) : Prop :=
  ∀ r ∈ T.rows, r.edge = d.edge → ¬ r.extent.Meets (d.row T.next).extent

instance (T : RelationTable) (d : RelationDraft) : Decidable (Clear T d) :=
  inferInstanceAs (Decidable (∀ r ∈ T.rows, r.edge = d.edge → ¬ r.extent.Meets (d.row T.next).extent))

theorem bitemporal_push {T : RelationTable} (h : Bitemporal T) {d : RelationDraft} {free : ¬ T.Holds d.edge} :
    Bitemporal (T.push d free) ↔ Clear T d := by
  have unique : (T.push d free).CurrentUnique ↔ Clear T d := by
    rw [currentUnique_iff, RelationTable.push, apart_append, ← currentUnique_iff]
    exact and_iff_right h.unique
  constructor
  · exact fun pushed => unique.mp pushed.unique
  · intro clear
    refine ⟨unique.mpr clear, fun r member active => ?_⟩
    rcases RelationTable.mem_push.mp member with old | rfl
    · exact h.open_ r old active
    · rfl

/-- The stale edge is another edge, so ending it does not change which rows the new one meets. -/
theorem clear_closeStale {T : RelationTable} {d : RelationDraft} {now : Instant} :
    Clear (closeStale ((staleEdge T d.edge).map (·.id)) now T) d ↔ Clear T d := by
  cases stale : staleEdge T d.edge with
  | none => rfl
  | some r =>
    obtain ⟨member, _⟩ := RelationTable.fetchStale_some (staleEdge_some stale).2
    have kept : ∀ old ∈ T.rows, old.edge = d.edge → old.closeIf (·.id == r.id) ⟨now, some now⟩ = old := by
      intro old oldMember same
      refine if_neg fun selected => stale_edge_ne stale ?_
      rw [← RelationTable.id_unique oldMember member (by simpa using selected), same]
    constructor
    · intro clear old oldMember same
      refine clear old (RelationTable.mem_closeWhere.mpr ⟨old, oldMember, kept old oldMember same⟩) same
    · intro clear row rowMember same
      obtain ⟨old, oldMember, rfl⟩ := RelationTable.mem_closeWhere.mp rowMember
      rw [Relation.closeIf_edge] at same
      rw [kept old oldMember same]
      exact clear old oldMember same

theorem bitemporal_stored {T : RelationTable} (h : Bitemporal T) {d : RelationDraft} {now : Instant}
    (free : ¬ T.Holds d.edge) : Bitemporal (storedTable T now d) ↔ Clear T d := by
  obtain ⟨open_, table⟩ := storedTable_push now free
  rw [table, bitemporal_push (bitemporal_closeStale h d.edge now), clear_closeStale]

/-! ### One call -/

/-- The edge is not written anew while an earlier row of it is still to end: the condition on one store. -/
def StoreClear (env : Env) (args : StoreRelationArgs) (w : World Db Supply) : Prop :=
  ∀ source target, storeRelationEndpoints env w.durable args = .ok (source, target) →
    ¬ w.durable.relations.Holds ((args.request source target (reading env w)).edge w.durable) →
    (args.request source target (reading env w)).admitted env w.durable = true →
    Clear w.durable.relations
      ((args.request source target (reading env w)).draft (canonicalPredicate w.durable args.predicate))

/-- One store keeps the table bitemporal exactly when it is clear. -/
theorem storeRelationIn_bitemporal {args : StoreRelationArgs} {w : World Db Supply}
    (h : Bitemporal w.durable.relations) :
    Bitemporal ((storeRelationIn env args).run w).2.durable.relations ↔ StoreClear env args w := by
  obtain ⟨r, w', ran, call⟩ := storeRelationIn_cases env args w
  rw [ran]
  generalize w'.durable = after at call ⊢
  unfold StoreClear
  cases call with
  | refused errors expected failed => exact iff_of_true h fun s t resolved => by simp [failed] at resolved
  | written source target r after resolved outcome =>
    have only : ∀ P : EntityId → EntityId → Prop, (∀ s t, storeRelationEndpoints env w.durable args = .ok (s, t) → P s t) ↔
        P source target := by
      intro P
      constructor
      · exact fun all => all source target resolved
      · intro holds s t same
        obtain ⟨rfl, rfl⟩ := Prod.mk.inj (Except.ok.inj (resolved.symm.trans same))
        exact holds
    rw [only]
    cases outcome with
    | existing id note holds => exact iff_of_true h fun fresh => absurd holds fresh
    | rejected errors expected fresh refused =>
      exact iff_of_true h fun _ admitted => by simp [refused] at admitted
    | created receipt after admitted creation =>
      rw [creation.relations, bitemporal_stored h creation.fresh]
      exact ⟨fun clear _ _ => clear, fun all => all creation.fresh admitted⟩

theorem invalidateRelationIn_bitemporal {args : InvalidateRelationArgs} {w : World Db Supply}
    (h : Bitemporal w.durable.relations) :
    Bitemporal ((invalidateRelationIn env args).run w).2.durable.relations := by
  obtain ⟨r, w', ran, call⟩ := invalidateRelationIn_cases env args w
  rw [ran]
  generalize w'.durable = after at call ⊢
  cases call with
  | refused errors expected => exact h
  | written source target r after endpoints outcome =>
    cases outcome with
    | missing => exact h
    | already id message => exact h
    | closed receipt row at_ member active same open_ => exact h.closeId member active _

/-! ### Runs -/

inductive RelationOp where
  | store (args : StoreRelationArgs)
  | invalidate (args : InvalidateRelationArgs)
  | apply (relations : List (Option RelationItem)) (agentId : Option String)

/-- The state a call leaves, whatever it answers. -/
def RelationOp.after (env : Env) (mode : Mode) (w : World Db Supply) : RelationOp → World Db Supply
  | .store args => ((serve mode fun m => storeRelation env m args).run w).2
  | .invalidate args => ((serve mode fun m => invalidateRelation env m args).run w).2
  | .apply relations agentId => ((serve mode fun m => applyRelations env m relations agentId).run w).2

def ItemClear (env : Env) (agentId : Option String) (item : RelationItem) (w : World Db Supply) : Prop :=
  match item.action false with
  | .store => StoreClear env (item.storeArgs agentId) w
  | .invalidate => True

/-- Each store among the items is clear in its turn. -/
def ItemsClear (env : Env) (agentId : Option String) : List (Option RelationItem) → World Db Supply → Prop
  | [], _ => True
  | none :: rest, w => ItemsClear env agentId rest w
  | some item :: rest, w =>
    ItemClear env agentId item w ∧
      ItemsClear env agentId rest ((runRelationItem env item (item.action false) agentId).run w).2

def RelationOp.Clear (env : Env) (w : World Db Supply) : RelationOp → Prop
  | .store args => StoreClear env args w
  | .invalidate _ => True
  | .apply relations agentId => ItemsClear env agentId relations w

theorem runRelationItem_bitemporal {item : RelationItem} {agentId : Option String} {w : World Db Supply}
    (h : Bitemporal w.durable.relations) (clear : ItemClear env agentId item w) :
    Bitemporal ((runRelationItem env item (item.action false) agentId).run w).2.durable.relations := by
  unfold ItemClear at clear
  unfold runRelationItem
  cases action : item.action false with
  | store =>
    rw [action] at clear
    exact (storeRelationIn_bitemporal h).mpr clear
  | invalidate => exact invalidateRelationIn_bitemporal h

theorem inOrder_bitemporal (mode : Mode) {agentId : Option String} {relations : List (Option RelationItem)}
    {w : World Db Supply} (h : Bitemporal w.durable.relations) (clear : ItemsClear env agentId relations w) :
    Bitemporal ((inOrder env mode agentId relations).run w).2.durable.relations := by
  induction relations generalizing w with
  | nil => exact h
  | cons element rest ih =>
    obtain ⟨r, v, ran, _⟩ := singleRelation_cases env mode agentId element w
    have head : Bitemporal v.durable.relations ∧ ItemsClear env agentId rest v := by
      cases element with
      | none =>
        obtain ⟨_, rfl⟩ := Prod.mk.inj ran
        exact ⟨h, clear⟩
      | some item =>
        obtain ⟨here, later⟩ := clear
        rw [singleRelation_some] at ran
        have kept := runRelationItem_bitemporal h here
        rw [ran] at kept later
        exact ⟨kept, later⟩
    have tail := ih head.1 head.2
    unfold inOrder at tail ⊢
    rw [Txn.mapList, Txn.bind_run_ok ran, Txn.run_bind]
    split
    · rename_i ys v' rest_
      rw [rest_] at tail
      exact tail
    · rename_i rest_
      rw [rest_] at tail
      exact tail

theorem after_bitemporal {mode : Mode} {op : RelationOp} {w : World Db Supply} (h : Bitemporal w.durable.relations)
    (clear : op.Clear env w) : Bitemporal (op.after env mode w).durable.relations := by
  cases op with
  | store args =>
    simp only [RelationOp.after, serve_storeRelation]
    exact (storeRelationIn_bitemporal h).mpr clear
  | invalidate args =>
    simp only [RelationOp.after, serve_invalidateRelation]
    exact invalidateRelationIn_bitemporal h
  | apply relations agentId =>
    obtain ⟨results, v, r, w', ran, served, ⟨_, same⟩ | ⟨_, same⟩⟩ :=
      applyRelations_cases env mode agentId relations w
    · have whole := inOrder_bitemporal mode h clear
      rw [ran] at whole
      simp only [RelationOp.after, served, same]
      exact whole
    · simp only [RelationOp.after, served, same]
      exact h

def RelationOp.next (env : Env) (w : World Db Supply) (call : Mode × RelationOp) : World Db Supply :=
  call.2.after env call.1 w

/-- Every state along the calls, the first one included. -/
def RelationOp.states (env : Env) : List (Mode × RelationOp) → World Db Supply → List (World Db Supply) :=
  Runs.states (RelationOp.next env)

/-- Every call is clear on the state it meets. -/
def RelationOp.AllClear (env : Env) : List (Mode × RelationOp) → World Db Supply → Prop :=
  Runs.Guarded (RelationOp.next env) fun call => call.2.Clear env

theorem run_bitemporal {ops : List (Mode × RelationOp)} {w : World Db Supply} (h : Bitemporal w.durable.relations)
    (clear : RelationOp.AllClear env ops w) :
    ∀ v ∈ RelationOp.states env ops w, Bitemporal v.durable.relations :=
  Runs.invariant_of_guarded (fun _ _ => after_bitemporal) h clear

theorem fresh_bitemporal {w : World Db Supply} (fresh : w.durable.relations = .empty) :
    Bitemporal w.durable.relations := by
  rw [fresh]
  exact ⟨.nil, fun r member => by simp [RelationTable.empty] at member⟩

/-- From an empty table, calls that are each clear leave at most one current row per edge at any pair of
instants, in every state along the way. -/
theorem relations_currentUnique {ops : List (Mode × RelationOp)} {w : World Db Supply}
    (fresh : w.durable.relations = .empty) (clear : RelationOp.AllClear env ops w) :
    ∀ v ∈ RelationOp.states env ops w, v.durable.relations.CurrentUnique :=
  fun v member => (run_bitemporal (fresh_bitemporal fresh) clear v member).unique

def dependsOnSecond : StoreRelationArgs := ⟨"first", "second", "depends_on", none, none, some "agent", false⟩

def invalidateSecond (at_ : Option Instant) : InvalidateRelationArgs := ⟨"first", "second", "depends_on", at_⟩

def storedThenInvalidated : List (Mode × RelationOp) :=
  [(.direct, .store dependsOnSecond), (.coordinator, .invalidate (invalidateSecond none))]

theorem storedThenInvalidated_clear : RelationOp.AllClear .plain storedThenInvalidated ⟨pairDb, ⟨0, 0⟩⟩ := by
  refine ⟨?_, trivial, trivial⟩
  intro source target _ _ _ r member
  simp [pairDb, Db.init, RelationTable.empty] at member

theorem store_then_invalidate_currentUnique :
    RelationOp.AllClear .plain storedThenInvalidated ⟨pairDb, ⟨0, 0⟩⟩ ∧
      ∀ v ∈ RelationOp.states .plain storedThenInvalidated ⟨pairDb, ⟨0, 0⟩⟩, v.durable.relations.CurrentUnique :=
  ⟨storedThenInvalidated_clear, relations_currentUnique rfl storedThenInvalidated_clear⟩

/-- An edge invalidated as of a later day is stored again on the same day. -/
def restoredEarly : List (Mode × RelationOp) :=
  [(.direct, .store dependsOnSecond),
    (.direct, .invalidate (invalidateSecond (some (Env.plain.clock 0 + days 1)))),
    (.direct, .store dependsOnSecond)]

theorem restored_edge_current_twice :
    ¬ ∀ v ∈ RelationOp.states .plain restoredEarly ⟨pairDb, ⟨0, 0⟩⟩, v.durable.relations.CurrentUnique := by
  intro unique
  have last := unique ((RelationOp.states .plain restoredEarly ⟨pairDb, ⟨0, 0⟩⟩).get ⟨3, by decide⟩) (List.get_mem _ _)
  rw [currentUnique_iff] at last
  unfold Apart at last
  revert last
  decide

end SaltMdb
