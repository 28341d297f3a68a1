import Mathlib.Data.List.Pairwise
import SaltMdb.Store.Data

/-! The `relations` table: its primary key and the partial unique index on the active edges are
fields of the type, so every statement below keeps them. -/

namespace SaltMdb

/-- A row about to be inserted. -/
structure RelationDraft where
  sourceId : EntityId
  targetId : EntityId
  predicate : String
  createdAt : Instant
  validFrom : Option Instant
  validAt : Option Instant
deriving DecidableEq, Repr

def RelationDraft.edge (d : RelationDraft) : Edge := ⟨d.sourceId, d.predicate, d.targetId⟩

def RelationDraft.row (d : RelationDraft) (id : RelationId) : Relation where
  id := id
  sourceId := d.sourceId
  targetId := d.targetId
  predicate := d.predicate
  createdAt := d.createdAt
  validFrom := d.validFrom
  validTo := none
  validAt := d.validAt
  invalidAt := none

/-- `SET valid_to = ?`, with `SET invalid_at = ?` when the statement names it. -/
structure Closing where
  validTo : Instant
  invalidAt : Option Instant
deriving DecidableEq, Repr

def Relation.close (c : Closing) (r : Relation) : Relation :=
  { r with validTo := some c.validTo, invalidAt := c.invalidAt.or r.invalidAt }

/-- Two active rows of one edge, which the unique index refuses. -/
def Relation.Collide (a b : Relation) : Prop :=
  a.active = true ∧ b.active = true ∧ a.edge = b.edge

structure RelationTable where
  rows : List Relation
  next : RelationId
  below : ∀ r ∈ rows, r.id < next
  distinct : rows.Pairwise fun a b => a.id ≠ b.id
  unique : rows.Pairwise fun a b => ¬ a.Collide b
deriving DecidableEq

namespace Relation

@[simp] theorem close_id (c : Closing) (r : Relation) : (r.close c).id = r.id := rfl
@[simp] theorem close_edge (c : Closing) (r : Relation) : (r.close c).edge = r.edge := rfl
@[simp] theorem close_active (c : Closing) (r : Relation) : (r.close c).active = false := rfl
@[simp] theorem close_sourceId (c : Closing) (r : Relation) : (r.close c).sourceId = r.sourceId := rfl
@[simp] theorem close_targetId (c : Closing) (r : Relation) : (r.close c).targetId = r.targetId := rfl
@[simp] theorem close_predicate (c : Closing) (r : Relation) : (r.close c).predicate = r.predicate := rfl

/-- The rows a `WHERE` selects end, the others stay as they are. -/
def closeIf (sel : Relation → Bool) (c : Closing) (r : Relation) : Relation :=
  if sel r then r.close c else r

variable {sel : Relation → Bool} {c : Closing} {r : Relation}

@[simp] theorem closeIf_id : (r.closeIf sel c).id = r.id := by
  unfold closeIf; split <;> rfl

@[simp] theorem closeIf_edge : (r.closeIf sel c).edge = r.edge := by
  unfold closeIf; split <;> rfl

theorem closeIf_active : (r.closeIf sel c).active = (r.active && !sel r) := by
  unfold closeIf
  cases sel r <;> simp

theorem active_of_closeIf (h : (r.closeIf sel c).active = true) : r.active = true := by
  rw [closeIf_active] at h
  exact (Bool.and_eq_true_iff.mp h).1

end Relation

namespace RelationDraft

variable {d : RelationDraft} {id : RelationId}

@[simp] theorem row_id : (d.row id).id = id := rfl
@[simp] theorem row_edge : (d.row id).edge = d.edge := rfl
@[simp] theorem row_active : (d.row id).active = true := rfl

end RelationDraft

namespace RelationTable

def empty : RelationTable where
  rows := []
  next := 0
  below := by simp
  distinct := .nil
  unique := .nil

theorem ext_rows {T U : RelationTable} (rows : T.rows = U.rows) (next : T.next = U.next) : T = U := by
  cases T; cases U; cases rows; cases next; rfl

/-- The edge has an active row. -/
def Holds (T : RelationTable) (e : Edge) : Prop := ∃ r ∈ T.rows, r.active = true ∧ r.edge = e

instance (T : RelationTable) (e : Edge) : Decidable (T.Holds e) :=
  inferInstanceAs (Decidable (∃ r ∈ T.rows, r.active = true ∧ r.edge = e))

/-- `SELECT … WHERE source_id = ? AND target_id = ? AND predicate = ? AND valid_to IS NULL`. -/
def fetchActive (T : RelationTable) (e : Edge) : Option Relation :=
  T.rows.find? fun r => r.active && r.edge == e

/-- `SELECT … WHERE source_id = ? AND predicate = ? AND target_id != ? AND valid_to IS NULL`. -/
def fetchStale (T : RelationTable) (e : Edge) : Option Relation :=
  T.rows.find? fun r => r.active && r.sourceId == e.source && r.predicate == e.predicate && r.targetId != e.target

/-- `UPDATE relations SET … WHERE …` for the updates that end rows. -/
def closeWhere (T : RelationTable) (sel : Relation → Bool) (c : Closing) : RelationTable where
  rows := T.rows.map (·.closeIf sel c)
  next := T.next
  below := by
    intro r member
    obtain ⟨old, oldMember, rfl⟩ := List.mem_map.mp member
    simpa using T.below old oldMember
  distinct := by
    rw [List.pairwise_map]
    exact T.distinct.imp fun h => by simpa using h
  unique := by
    rw [List.pairwise_map]
    refine T.unique.imp fun h collide => h ⟨?_, ?_, ?_⟩
    · exact Relation.active_of_closeIf collide.1
    · exact Relation.active_of_closeIf collide.2.1
    · simpa using collide.2.2

def closeId (T : RelationTable) (id : RelationId) (c : Closing) : RelationTable :=
  T.closeWhere (·.id == id) c

/-- An insert the unique index admits. -/
def push (T : RelationTable) (d : RelationDraft) (free : ¬ T.Holds d.edge) : RelationTable where
  rows := T.rows ++ [d.row T.next]
  next := T.next + 1
  below := by
    intro r member
    rcases List.mem_append.mp member with old | new
    · exact Nat.lt_succ_of_lt (T.below r old)
    · obtain rfl := List.mem_singleton.mp new
      exact Nat.lt_succ_self T.next
  distinct := by
    rw [List.pairwise_append]
    refine ⟨T.distinct, List.pairwise_singleton _ _, ?_⟩
    intro a old b new
    obtain rfl := List.mem_singleton.mp new
    exact Nat.ne_of_lt (T.below a old)
  unique := by
    rw [List.pairwise_append]
    refine ⟨T.unique, List.pairwise_singleton _ _, ?_⟩
    intro a old b new collide
    obtain rfl := List.mem_singleton.mp new
    exact free ⟨a, old, collide.1, by simpa using collide.2.2⟩

/-- `INSERT … ON CONFLICT(source_id, target_id, predicate) WHERE valid_to IS NULL DO NOTHING`: `none`
when no row was inserted. -/
def insertOrIgnore (T : RelationTable) (d : RelationDraft) : Option RelationTable :=
  if free : ¬ T.Holds d.edge then some (T.push d free) else none

/-! ### Edges after a statement -/

variable {T : RelationTable} {e : Edge} {d : RelationDraft} {sel : Relation → Bool} {c : Closing}

theorem mem_closeWhere {r : Relation} :
    r ∈ (T.closeWhere sel c).rows ↔ ∃ old ∈ T.rows, old.closeIf sel c = r := by
  simp only [closeWhere, List.mem_map]

theorem mem_push {free : ¬ T.Holds d.edge} {r : Relation} :
    r ∈ (T.push d free).rows ↔ r ∈ T.rows ∨ r = d.row T.next := by
  simp only [push, List.mem_append, List.mem_singleton]

theorem holds_closeWhere :
    (T.closeWhere sel c).Holds e ↔ ∃ r ∈ T.rows, r.active = true ∧ r.edge = e ∧ sel r = false := by
  constructor
  · rintro ⟨r, member, active, edge⟩
    obtain ⟨old, oldMember, rfl⟩ := mem_closeWhere.mp member
    rw [Relation.closeIf_active, Bool.and_eq_true] at active
    exact ⟨old, oldMember, active.1, by simpa using edge, by simpa using active.2⟩
  · rintro ⟨r, member, active, edge, kept⟩
    refine ⟨r.closeIf sel c, mem_closeWhere.mpr ⟨r, member, rfl⟩, ?_, by simpa using edge⟩
    rw [Relation.closeIf_active, active, kept]
    rfl

/-- What a test sees of a table in which no row that passes it, before or after, was ended. -/
theorem filter_closeWhere {keep : Relation → Bool}
    (spared : ∀ r ∈ T.rows, sel r = true → keep r = false ∧ keep (r.close c) = false) :
    (T.closeWhere sel c).rows.filter keep = T.rows.filter keep := by
  have blind : ∀ r ∈ T.rows, (keep ∘ Relation.closeIf sel c) r = keep r := by
    intro r here
    by_cases selected : sel r = true
    · obtain ⟨before, after⟩ := spared r here selected
      have ended : r.closeIf sel c = r.close c := if_pos selected
      rw [Function.comp_apply, ended, before, after]
    · have kept : r.closeIf sel c = r := if_neg selected
      rw [Function.comp_apply, kept]
  have kept : ∀ r ∈ T.rows.filter keep, r.closeIf sel c = r := by
    intro r member
    obtain ⟨here, keeps⟩ := List.mem_filter.mp member
    refine if_neg fun selected => ?_
    rw [(spared r here selected).1] at keeps
    exact Bool.false_ne_true keeps
  simp only [closeWhere, List.filter_map]
  rw [List.filter_congr blind, List.map_congr_left kept]
  exact List.map_id' _

theorem filter_push {free : ¬ T.Holds d.edge} {keep : Relation → Bool} :
    (T.push d free).rows.filter keep = T.rows.filter keep ++ [d.row T.next].filter keep := by
  rw [push, List.filter_append]

theorem holds_of_closeWhere (h : (T.closeWhere sel c).Holds e) : T.Holds e := by
  obtain ⟨r, member, active, edge, _⟩ := holds_closeWhere.mp h
  exact ⟨r, member, active, edge⟩

theorem holds_push {free : ¬ T.Holds d.edge} : (T.push d free).Holds e ↔ T.Holds e ∨ e = d.edge := by
  constructor
  · rintro ⟨r, member, active, edge⟩
    rcases mem_push.mp member with old | rfl
    · exact Or.inl ⟨r, old, active, edge⟩
    · exact Or.inr (by simpa using edge.symm)
  · rintro (⟨r, member, active, edge⟩ | rfl)
    · exact ⟨r, mem_push.mpr (Or.inl member), active, edge⟩
    · exact ⟨d.row T.next, mem_push.mpr (Or.inr rfl), rfl, rfl⟩

/-- The unique index: an active row is the only active row of its edge. -/
theorem active_unique {a b : Relation} (ha : a ∈ T.rows) (hb : b ∈ T.rows)
    (activeA : a.active = true) (activeB : b.active = true) (same : a.edge = b.edge) : a = b := by
  have symm : Std.Symm fun a b : Relation => ¬ a.Collide b :=
    ⟨fun _ _ h collide => h ⟨collide.2.1, collide.1, collide.2.2.symm⟩⟩
  by_contra differ
  exact T.unique.forall ha hb differ ⟨activeA, activeB, same⟩

theorem id_unique {a b : Relation} (ha : a ∈ T.rows) (hb : b ∈ T.rows) (same : a.id = b.id) : a = b := by
  have symm : Std.Symm fun a b : Relation => a.id ≠ b.id := ⟨fun _ _ h => h.symm⟩
  by_contra differ
  exact T.distinct.forall ha hb differ same

theorem fetchActive_some {r : Relation} (h : T.fetchActive e = some r) :
    r ∈ T.rows ∧ r.active = true ∧ r.edge = e := by
  have found := List.find?_some h
  simp only [Bool.and_eq_true, beq_iff_eq] at found
  exact ⟨List.mem_of_find?_eq_some h, found.1, found.2⟩

theorem fetchActive_none : T.fetchActive e = none ↔ ¬ T.Holds e := by
  simp only [fetchActive, List.find?_eq_none, Bool.and_eq_true, beq_iff_eq, Holds, not_exists, not_and]

theorem fetchActive_isSome : (T.fetchActive e).isSome = true ↔ T.Holds e := by
  rw [Option.isSome_iff_ne_none, ne_eq, fetchActive_none, not_not]

theorem fetchStale_some {r : Relation} (h : T.fetchStale e = some r) :
    r ∈ T.rows ∧ r.active = true ∧ r.sourceId = e.source ∧ r.predicate = e.predicate ∧ r.targetId ≠ e.target := by
  have found := List.find?_some h
  simp only [Bool.and_eq_true, beq_iff_eq, bne_iff_ne] at found
  exact ⟨List.mem_of_find?_eq_some h, found.1.1.1, found.1.1.2, found.1.2, found.2⟩

theorem fetchStale_none (h : T.fetchStale e = none) {target : EntityId} (other : target ≠ e.target) :
    ¬ T.Holds ⟨e.source, e.predicate, target⟩ := by
  rintro ⟨r, member, active, edge⟩
  have missed := List.find?_eq_none.mp h r member
  obtain ⟨source, predicate, target⟩ := e
  simp only [Relation.edge, Edge.mk.injEq] at edge
  obtain ⟨rfl, rfl, rfl⟩ := edge
  simp [active, other] at missed

/-- Ending one active row takes exactly its edge away. -/
theorem holds_closeId {r : Relation} (member : r ∈ T.rows) (active : r.active = true) :
    (T.closeId r.id c).Holds e ↔ T.Holds e ∧ e ≠ r.edge := by
  rw [closeId, holds_closeWhere]
  constructor
  · rintro ⟨other, otherMember, otherActive, rfl, kept⟩
    refine ⟨⟨other, otherMember, otherActive, rfl⟩, fun same => ?_⟩
    rw [active_unique otherMember member otherActive active same] at kept
    simp at kept
  · rintro ⟨⟨other, otherMember, otherActive, rfl⟩, differs⟩
    refine ⟨other, otherMember, otherActive, rfl, ?_⟩
    rw [beq_eq_false_iff_ne]
    intro same
    rw [id_unique otherMember member same] at differs
    exact differs rfl

theorem insertOrIgnore_some {U : RelationTable} (h : T.insertOrIgnore d = some U) :
    ∃ free : ¬ T.Holds d.edge, U = T.push d free := by
  unfold insertOrIgnore at h
  split at h
  · rename_i free
    exact ⟨free, (Option.some.inj h).symm⟩
  · simp at h

theorem insertOrIgnore_none : T.insertOrIgnore d = none ↔ T.Holds d.edge := by
  unfold insertOrIgnore
  split <;> simp_all

end RelationTable
end SaltMdb
