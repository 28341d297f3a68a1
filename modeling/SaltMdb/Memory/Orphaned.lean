import SaltMdb.Core.Bootstrap
import SaltMdb.Memory.Repointed

/-! The report of orphaned edges against the edges that do touch the old memory after the commit. -/

namespace SaltMdb
open Transactions

variable {env : Env}

/-! ### The rows after the details of a new core were stored -/

/-- The edge a declared detail gets. -/
def detailEdge (n d : EntityId) : Edge := ⟨d, "elaborates_on", n⟩

/-- The active rows of `U` are those of `T` but for the ones the details moved away from, and rows of newer ids, one for
each detail. -/
structure RelationTable.Detailed (T U : RelationTable) (n : EntityId) (details : List EntityId) : Prop where
  next : T.next ≤ U.next
  active : ∀ r, r.active = true → (r ∈ U.rows ↔
    (r ∈ T.rows ∧ ∀ d ∈ details, T.fetchStale (detailEdge n d) ≠ some r) ∨ (r ∈ U.rows ∧ T.next ≤ r.id))
  fresh : ∀ r ∈ U.rows, r.active = true → T.next ≤ r.id → ∃ d ∈ details, r.edge = detailEdge n d
  made : ∀ d ∈ details, ∃ r ∈ U.rows, r.active = true ∧ T.next ≤ r.id ∧ r.edge = detailEdge n d

namespace RelationTable
variable {T U : RelationTable} {n : EntityId}

theorem fetchStale_eq_head (T : RelationTable) (e : Edge) : T.fetchStale e =
    (T.rows.filter fun r => r.active && r.sourceId == e.source && r.predicate == e.predicate && r.targetId != e.target).head? := by
  rw [List.head?_filter]
  rfl

theorem Detailed.nil (T : RelationTable) (n : EntityId) : T.Detailed T n [] where
  next := Nat.le_refl _
  active r _ := by
    constructor
    · intro member
      exact Or.inl ⟨member, by simp⟩
    · rintro (old | new)
      · exact old.1
      · exact new.1
  fresh r member _ late := absurd (T.below r member) (Nat.not_lt.mpr late)
  made := by simp

end RelationTable

variable {T : RelationTable} {n d : EntityId} {now : Instant}

/-- A stored detail edge as a draft. -/
def detailDraft (n d : EntityId) (now : Instant) : RelationDraft := ⟨d, n, "elaborates_on", now, some now, some now⟩

theorem staleEdge_detail (T : RelationTable) (n d : EntityId) : staleEdge T (detailEdge n d) = T.fetchStale (detailEdge n d) := by
  have strong : isStrong (detailEdge n d).predicate = true := by
    change isStrong "elaborates_on" = true
    decide
  rw [staleEdge, if_pos strong]

theorem mem_storedTable_detail (free : ¬ T.Holds (detailEdge n d)) {r : Relation} (active : r.active = true) :
    r ∈ (storedTable T now (detailDraft n d now)).rows ↔
      (r ∈ T.rows ∧ T.fetchStale (detailEdge n d) ≠ some r) ∨ r = (detailDraft n d now).row T.next := by
  obtain ⟨open_, table⟩ := storedTable_push (d := detailDraft n d now) now free
  have edge : (detailDraft n d now).edge = detailEdge n d := rfl
  rw [table, RelationTable.mem_push, closeStale_next, edge, staleEdge_detail]
  refine or_congr ?_ Iff.rfl
  cases stale : T.fetchStale (detailEdge n d) with
  | none => simp [closeStale]
  | some x =>
    obtain ⟨here, _⟩ := RelationTable.fetchStale_some stale
    simp only [Option.map_some, closeStale, RelationTable.closeId, RelationTable.mem_closeWhere, ne_eq, Option.some.injEq]
    constructor
    · rintro ⟨old, member, rfl⟩
      rw [Relation.closeIf_active, Bool.and_eq_true, Bool.not_eq_true', beq_eq_false_iff_ne] at active
      have kept : old.closeIf (·.id == x.id) ⟨now, some now⟩ = old := if_neg (by simp [active.2])
      rw [kept]
      exact ⟨member, fun same => active.2 (by rw [same])⟩
    · rintro ⟨member, differs⟩
      refine ⟨r, member, if_neg fun selected => ?_⟩
      exact differs (RelationTable.id_unique member here (beq_iff_eq.mp selected)).symm

/-- A detail edge says nothing of what another detail leaves. -/
theorem fetchStale_storedTable {d' : EntityId} (free : ¬ T.Holds (detailEdge n d)) (other : d' ≠ d) :
    (storedTable T now (detailDraft n d now)).fetchStale (detailEdge n d') = T.fetchStale (detailEdge n d') := by
  obtain ⟨open_, table⟩ := storedTable_push (d := detailDraft n d now) now free
  have missed : ∀ r : Relation, r.sourceId = d → (r.active && r.sourceId == d' && r.predicate == "elaborates_on" &&
      r.targetId != n) = false := by
    intro r from_
    simp [from_, Ne.symm other]
  have fresh : ∀ id, [(detailDraft n d now).row id].filter (fun r => r.active && r.sourceId == d' &&
      r.predicate == "elaborates_on" && r.targetId != n) = [] := by
    intro id
    rw [List.filter_eq_nil_iff]
    intro r member
    obtain rfl := List.mem_singleton.mp member
    rw [missed _ rfl]
    exact Bool.false_ne_true
  rw [RelationTable.fetchStale_eq_head, RelationTable.fetchStale_eq_head, table]
  dsimp only [detailEdge]
  rw [RelationTable.filter_push, fresh, List.append_nil]
  have edge : (detailDraft n d now).edge = detailEdge n d := rfl
  rw [edge, staleEdge_detail]
  cases stale : T.fetchStale (detailEdge n d) with
  | none => rfl
  | some x =>
    obtain ⟨here, _, from_, _⟩ := RelationTable.fetchStale_some stale
    congr 1
    refine RelationTable.filter_closeWhere fun r member selected => ?_
    obtain rfl := RelationTable.id_unique member here (beq_iff_eq.mp selected)
    exact ⟨missed r from_, missed (r.close _) from_⟩

theorem storedTable_next (free : ¬ T.Holds (detailEdge n d)) :
    (storedTable T now (detailDraft n d now)).next = T.next + 1 := by
  obtain ⟨open_, table⟩ := storedTable_push (d := detailDraft n d now) now free
  rw [table]
  simp [RelationTable.push]

theorem RelationTable.Detailed.cons {U : RelationTable} {rest : List EntityId} (free : ¬ T.Holds (detailEdge n d))
    (once : d ∉ rest) (h : (storedTable T now (detailDraft n d now)).Detailed U n rest) : T.Detailed U n (d :: rest) := by
  have grown : (storedTable T now (detailDraft n d now)).next = T.next + 1 := storedTable_next free
  have late : ∀ id, (storedTable T now (detailDraft n d now)).next ≤ id → T.next ≤ id := by
    intro id above
    rw [grown] at above
    exact Nat.le_of_succ_le above
  have same : ∀ d' ∈ rest, (storedTable T now (detailDraft n d now)).fetchStale (detailEdge n d') =
      T.fetchStale (detailEdge n d') := by
    intro d' member
    refine fetchStale_storedTable free ?_
    rintro rfl
    exact once member
  refine ⟨late _ h.next, ?_, ?_, ?_⟩
  · intro r active
    rw [h.active r active]
    constructor
    · rintro (⟨member, unmoved⟩ | ⟨member, above⟩)
      · rcases (mem_storedTable_detail free active).mp member with ⟨old, differs⟩ | rfl
        · refine Or.inl ⟨old, fun d' chosen => ?_⟩
          rcases List.mem_cons.mp chosen with rfl | later
          · exact differs
          · rw [← same d' later]
            exact unmoved d' later
        · exact Or.inr ⟨Or.inl ⟨member, unmoved⟩, Nat.le_refl _⟩
      · exact Or.inr ⟨Or.inr ⟨member, above⟩, late _ above⟩
    · rintro (⟨old, unmoved⟩ | ⟨either, _⟩)
      · refine Or.inl ⟨(mem_storedTable_detail free active).mpr (Or.inl ⟨old, unmoved d List.mem_cons_self⟩), ?_⟩
        intro d' later
        rw [same d' later]
        exact unmoved d' (List.mem_cons_of_mem d later)
      · exact either
  · intro r member active above
    rcases (h.active r active).mp member with ⟨stored, _⟩ | ⟨_, newer⟩
    · rcases (mem_storedTable_detail free active).mp stored with ⟨old, _⟩ | rfl
      · exact absurd (T.below r old) (Nat.not_lt.mpr above)
      · exact ⟨d, List.mem_cons_self, rfl⟩
    · obtain ⟨d', chosen, edge⟩ := h.fresh r member active newer
      exact ⟨d', List.mem_cons_of_mem d chosen, edge⟩
  · intro d' chosen
    rcases List.mem_cons.mp chosen with rfl | later
    · have stored : (detailDraft n d' now).row T.next ∈ (storedTable T now (detailDraft n d' now)).rows :=
        (mem_storedTable_detail free rfl).mpr (Or.inr rfl)
      refine ⟨(detailDraft n d' now).row T.next, ?_, rfl, Nat.le_refl _, rfl⟩
      refine (h.active _ rfl).mpr (Or.inl ⟨stored, fun d later stale => ?_⟩)
      obtain ⟨_, _, from_, _⟩ := RelationTable.fetchStale_some stale
      have source : d' = d := from_
      exact once (source ▸ later)
    · obtain ⟨r, member, active, above, edge⟩ := h.made d' later
      exact ⟨r, member, active, late _ above, edge⟩

/-! ### The details of a new core -/

variable {p : EntityId}

section Report
variable {seen : List RelationId} {now left_ : List Relation} {next : RelationId} {declared : Prop}

end Report

def detailId : EntityId := "00000000-0000-4000-8000-000000000009"

end SaltMdb
