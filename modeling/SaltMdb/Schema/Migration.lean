import SaltMdb.Relation.Vocabulary

/-! The migration that rewrites the drifted predicates of an older database. -/

namespace SaltMdb

namespace RelationTable

/-- `UPDATE relations SET source_id = ?, target_id = ?, predicate = ? WHERE id = ?`. -/
def rewrite (id : RelationId) (e : Edge) (r : Relation) : Relation :=
  if r.id == id then { r with sourceId := e.source, predicate := e.predicate, targetId := e.target } else r

@[simp] theorem rewrite_id {id : RelationId} {e : Edge} {r : Relation} : (rewrite id e r).id = r.id := by
  unfold rewrite; split <;> rfl

@[simp] theorem rewrite_active {id : RelationId} {e : Edge} {r : Relation} : (rewrite id e r).active = r.active := by
  unfold rewrite; split <;> rfl

theorem rewrite_edge {id : RelationId} {e : Edge} {r : Relation} :
    (rewrite id e r).edge = if r.id = id then e else r.edge := by
  by_cases same : r.id = id <;> simp [rewrite, same, Relation.edge]

instance : DecidableRel Relation.Collide := fun a b =>
  inferInstanceAs (Decidable (a.active = true ∧ b.active = true ∧ a.edge = b.edge))

/-- `none` when the unique index refuses the new edge. -/
def updateEdge (T : RelationTable) (id : RelationId) (e : Edge) : Option RelationTable :=
  if unique : (T.rows.map (rewrite id e)).Pairwise fun a b => ¬ a.Collide b then
    some {
      rows := T.rows.map (rewrite id e)
      next := T.next
      below := by
        intro r member
        obtain ⟨old, oldMember, rfl⟩ := List.mem_map.mp member
        simpa using T.below old oldMember
      distinct := by
        rw [List.pairwise_map]
        exact T.distinct.imp fun h => by simpa using h
      unique := unique }
  else none

/-- The index admits an edge that no other active row has. -/
theorem updateEdge_some {T : RelationTable} {id : RelationId} {e : Edge}
    (free : ∀ r ∈ T.rows, r.id = id → r.active = true → ∀ other ∈ T.rows, other.id ≠ id →
      other.active = true → other.edge ≠ e) :
    ∃ U, T.updateEdge id e = some U ∧ U.rows = T.rows.map (rewrite id e) := by
  have unique : (T.rows.map (rewrite id e)).Pairwise fun a b => ¬ a.Collide b := by
    rw [List.pairwise_map]
    refine (T.unique.and T.distinct).imp_of_mem fun {a b} ha hb h collide => ?_
    obtain ⟨activeA, activeB, same⟩ := collide
    rw [rewrite_active] at activeA activeB
    rw [rewrite_edge, rewrite_edge] at same
    split at same
    · rename_i atA
      have other : b.id ≠ id := fun atB => h.2 (atA.trans atB.symm)
      rw [if_neg other] at same
      exact free a ha atA activeA b hb other activeB same.symm
    · rename_i other
      split at same
      · rename_i atB
        exact free b hb atB activeB a ha other activeA same
      · exact h.1 ⟨activeA, activeB, same⟩
  exact ⟨_, dif_pos unique, rfl⟩

end RelationTable

/-! ### The predicate drift migration -/

/-- The canonical edge of a drifted alias, its ends swapped where the alias reads from the other end. -/
def driftedEdge (e : Edge) : Option Edge :=
  (findAlias e.predicate).map fun entry =>
    if entry.swap then ⟨e.target, entry.canonical, e.source⟩ else ⟨e.source, entry.canonical, e.target⟩

/-- One active row: ended where its canonical edge is taken, rewritten otherwise. -/
def migrateActiveRow (now : Instant) (state : List Edge × RelationTable) (r : Relation) :
    Option (List Edge × RelationTable) :=
  match driftedEdge r.edge with
  | none => some state
  | some e =>
    if e ∈ state.1 then some (state.1, state.2.closeId r.id ⟨now, none⟩)
    else (state.2.updateEdge r.id e).map fun table => (e :: state.1, table)

def migrateClosedRow (T : RelationTable) (r : Relation) : Option RelationTable :=
  match driftedEdge r.edge with
  | none => some T
  | some e => T.updateEdge r.id e

/-- `_migrate_predicate_drift`: `none` where a statement would violate the unique index. -/
def migratePredicateDrift (now : Instant) (T : RelationTable) : Option RelationTable := do
  let active := T.rows.filter (·.active)
  let taken := (active.map (·.edge)).filter fun e => (driftedEdge e).isNone
  let (_, migrated) ← active.foldlM (migrateActiveRow now) (taken, T)
  (migrated.rows.filter fun r => !r.active).foldlM migrateClosedRow migrated

/-- Every active row that needs no rewriting has its edge among the taken ones. -/
def Claimed (state : List Edge × RelationTable) : Prop :=
  ∀ r ∈ state.2.rows, r.active = true → driftedEdge r.edge = none → r.edge ∈ state.1

theorem driftedEdge_canonical {e e' : Edge} (h : driftedEdge e = some e') : driftedEdge e' = none := by
  obtain ⟨entry, found, rfl⟩ := Option.map_eq_some_iff.mp h
  have listed : entry ∈ predicateAliases := List.mem_of_find?_eq_some found
  have settled : ∀ entry ∈ predicateAliases, findAlias entry.canonical = none := by decide
  have none_ := settled entry listed
  unfold driftedEdge
  split <;> simp [none_]

theorem migrateActiveRow_claimed (now : Instant) {state : List Edge × RelationTable} (claimed : Claimed state)
    (r : Relation) : ∃ state', migrateActiveRow now state r = some state' ∧ Claimed state' := by
  unfold migrateActiveRow
  cases drifted : driftedEdge r.edge with
  | none => exact ⟨state, rfl, claimed⟩
  | some e =>
    by_cases taken : e ∈ state.1
    · refine ⟨_, if_pos taken, ?_⟩
      intro row member active settled
      obtain ⟨old, oldMember, rfl⟩ := RelationTable.mem_closeWhere.mp member
      rw [Relation.closeIf_edge] at settled ⊢
      exact claimed old oldMember (Relation.active_of_closeIf active) settled
    · have free : ∀ row ∈ state.2.rows, row.id = r.id → row.active = true → ∀ other ∈ state.2.rows,
          other.id ≠ r.id → other.active = true → other.edge ≠ e := by
        intro row member same active other otherMember differ otherActive edge
        have settled : driftedEdge other.edge = none := edge ▸ driftedEdge_canonical drifted
        exact taken (edge ▸ claimed other otherMember otherActive settled)
      obtain ⟨U, updated, rows⟩ := RelationTable.updateEdge_some free
      refine ⟨(e :: state.1, U), by simp [taken, updated], ?_⟩
      intro row member active settled
      rw [rows] at member
      obtain ⟨old, oldMember, rfl⟩ := List.mem_map.mp member
      rw [RelationTable.rewrite_active] at active
      rw [RelationTable.rewrite_edge] at settled ⊢
      split at settled
      · rename_i same
        rw [if_pos same]
        exact List.mem_cons_self
      · rename_i differ
        rw [if_neg differ]
        exact List.mem_cons_of_mem _ (claimed old oldMember active settled)

theorem migrateActiveRows_claimed (now : Instant) {state : List Edge × RelationTable} (claimed : Claimed state)
    (rows : List Relation) : ∃ state', rows.foldlM (migrateActiveRow now) state = some state' ∧ Claimed state' := by
  induction rows generalizing state with
  | nil => exact ⟨state, rfl, claimed⟩
  | cons r rest ih =>
    obtain ⟨middle, stepped, claimed'⟩ := migrateActiveRow_claimed now claimed r
    obtain ⟨final, ran, done⟩ := ih claimed'
    exact ⟨final, by simp only [List.foldlM_cons, stepped, Option.bind_eq_bind, Option.bind_some, ran], done⟩

/-- What a rewriting of closed rows keeps: which rows there are, and which of them are active. -/
theorem migrateClosedRows_some {T : RelationTable} {rows : List Relation}
    (closed : ∀ r ∈ rows, ∀ row ∈ T.rows, row.id = r.id → row.active = false) :
    ∃ U, rows.foldlM migrateClosedRow T = some U := by
  induction rows generalizing T with
  | nil => exact ⟨T, rfl⟩
  | cons r rest ih =>
    have step : ∃ U, migrateClosedRow T r = some U ∧ ∀ row ∈ U.rows, ∃ old ∈ T.rows, old.id = row.id ∧
        old.active = row.active := by
      unfold migrateClosedRow
      cases driftedEdge r.edge with
      | none => exact ⟨T, rfl, fun row member => ⟨row, member, rfl, rfl⟩⟩
      | some e =>
        have free : ∀ row ∈ T.rows, row.id = r.id → row.active = true → ∀ other ∈ T.rows, other.id ≠ r.id →
            other.active = true → other.edge ≠ e := by
          intro row member same active
          simp [closed r List.mem_cons_self row member same] at active
        obtain ⟨U, updated, rows⟩ := RelationTable.updateEdge_some free
        refine ⟨U, updated, fun row member => ?_⟩
        rw [rows] at member
        obtain ⟨old, oldMember, rfl⟩ := List.mem_map.mp member
        exact ⟨old, oldMember, by simp, by simp⟩
    obtain ⟨U, updated, kept⟩ := step
    obtain ⟨V, ran⟩ := ih (T := U) (by
      intro other otherMember row member same
      obtain ⟨old, oldMember, id, active⟩ := kept row member
      rw [← active]
      exact closed other (List.mem_cons_of_mem _ otherMember) old oldMember (id.trans same))
    exact ⟨V, by simp only [List.foldlM_cons, updated, Option.bind_eq_bind, Option.bind_some, ran]⟩

/-- Detecting the collisions beforehand keeps every statement of the migration inside the unique index. -/
theorem migratePredicateDrift_succeeds (now : Instant) (T : RelationTable) :
    ∃ U, migratePredicateDrift now T = some U := by
  have claimed : Claimed (((T.rows.filter (·.active)).map (·.edge)).filter fun e => (driftedEdge e).isNone, T) := by
    intro r member active settled
    simp only [List.mem_filter, List.mem_map, Option.isNone_iff_eq_none]
    exact ⟨⟨r, ⟨member, active⟩, rfl⟩, settled⟩
  obtain ⟨⟨taken, migrated⟩, ran, _⟩ := migrateActiveRows_claimed now claimed (T.rows.filter (·.active))
  have ended : ∀ r ∈ migrated.rows.filter fun r => !r.active, ∀ row ∈ migrated.rows, row.id = r.id →
      row.active = false := by
    intro r member row rowMember same
    obtain ⟨rMember, closed⟩ := List.mem_filter.mp member
    rw [RelationTable.id_unique rowMember rMember same]
    simpa using closed
  obtain ⟨U, finished⟩ := migrateClosedRows_some ended
  exact ⟨U, by simp only [migratePredicateDrift, ran, Option.bind_eq_bind, Option.bind_some, finished]⟩

end SaltMdb
