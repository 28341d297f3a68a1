import Mathlib.Data.List.Forall2
import SaltMdb.Schema.Migration

/-! What the predicate drift migration leaves of each row. -/

namespace SaltMdb

/-- The edge as the closed vocabulary spells it. -/
def canonicalEdge (e : Edge) : Edge := (driftedEdge e).getD e

theorem canonicalEdge_settled (e : Edge) : driftedEdge (canonicalEdge e) = none := by
  unfold canonicalEdge
  cases drifted : driftedEdge e with
  | none => exact drifted
  | some e' => exact driftedEdge_canonical drifted

/-- The row under another edge. -/
def Relation.withEdge (r : Relation) (e : Edge) : Relation :=
  { r with sourceId := e.source, predicate := e.predicate, targetId := e.target }

namespace Relation

variable {r : Relation} {e : Edge} {c : Closing}

@[simp] theorem withEdge_id : (r.withEdge e).id = r.id := rfl
@[simp] theorem withEdge_edge : (r.withEdge e).edge = e := rfl
@[simp] theorem withEdge_active : (r.withEdge e).active = r.active := rfl
@[simp] theorem withEdge_self : r.withEdge r.edge = r := rfl

end Relation

theorem RelationTable.updateEdge_rows {T U : RelationTable} {id : RelationId} {e : Edge}
    (h : T.updateEdge id e = some U) : U.rows = T.rows.map fun r => if r.id = id then r.withEdge e else r := by
  unfold updateEdge at h
  split at h
  · rw [← Option.some.inj h]
    refine List.map_congr_left fun r _ => ?_
    by_cases same : r.id = id <;> simp [rewrite, same, Relation.withEdge]
  · simp at h

/-! ### The active rows -/

/-- What became of an active row, given the edges that are taken. -/
inductive Settled (now : Instant) (taken : List Edge) (r : Relation) : Relation → Prop
  | kept (settled : driftedEdge r.edge = none) : Settled now taken r r
  | renamed {e : Edge} (drifted : driftedEdge r.edge = some e) (own : e ∈ taken) : Settled now taken r (r.withEdge e)
  | ended {e : Edge} (drifted : driftedEdge r.edge = some e) (other : e ∈ taken) :
      Settled now taken r (r.close ⟨now, none⟩)

theorem Settled.mono {now : Instant} {taken more : List Edge} {r s : Relation} (settled : Settled now taken r s)
    (grows : ∀ e ∈ taken, e ∈ more) : Settled now more r s := by
  cases settled with
  | kept settled => exact .kept settled
  | renamed drifted own => exact .renamed drifted (grows _ own)
  | ended drifted other => exact .ended drifted (grows _ other)

theorem Settled.id {now : Instant} {taken : List Edge} {r s : Relation} (settled : Settled now taken r s) : s.id = r.id := by
  cases settled <;> rfl

/-- The table while the active rows `todo` wait for their turn. -/
structure ActiveMigrated (now : Instant) (T : RelationTable) (todo : List Relation) (state : List Edge × RelationTable)
    (image : Relation → Relation) : Prop where
  rows : state.2.rows = T.rows.map image
  waiting : ∀ r ∈ T.rows, r.active = false ∨ r ∈ todo → image r = r
  settled : ∀ r ∈ T.rows, r.active = true → r ∉ todo → Settled now state.1 r (image r)
  taken : ∀ e ∈ state.1, driftedEdge e = none ∧ state.2.Holds e

theorem migrateActiveRow_cases {now : Instant} {state state' : List Edge × RelationTable} {r : Relation}
    (h : migrateActiveRow now state r = some state') :
    (driftedEdge r.edge = none ∧ state' = state) ∨
    (∃ e, driftedEdge r.edge = some e ∧ e ∈ state.1 ∧ state' = (state.1, state.2.closeId r.id ⟨now, none⟩)) ∨
    ∃ e U, driftedEdge r.edge = some e ∧ e ∉ state.1 ∧ state.2.updateEdge r.id e = some U ∧ state' = (e :: state.1, U) := by
  unfold migrateActiveRow at h
  cases drifted : driftedEdge r.edge with
  | none =>
    rw [drifted] at h
    exact .inl ⟨rfl, (Option.some.inj h).symm⟩
  | some e =>
    rw [drifted] at h
    dsimp only at h
    split at h
    · rename_i taken
      exact .inr (.inl ⟨e, rfl, taken, (Option.some.inj h).symm⟩)
    · rename_i free
      obtain ⟨U, updated, rfl⟩ := Option.map_eq_some_iff.mp h
      exact .inr (.inr ⟨e, U, rfl, free, updated, rfl⟩)

variable {now : Instant} {T : RelationTable}

/-- One statement changes the image of the row it names. -/
theorem ActiveMigrated.advance {todo : List Relation} {r : Relation} {state : List Edge × RelationTable}
    {image : Relation → Relation} (migrated : ActiveMigrated now T (r :: todo) state image) (here : r ∈ T.rows)
    (active : r.active = true) (once : r ∉ todo) {taken : List Edge} {U : RelationTable} {f : Relation → Relation}
    (grows : ∀ e ∈ state.1, e ∈ taken) (rows : U.rows = state.2.rows.map fun s => if s.id = r.id then f s else s)
    (settles : Settled now taken r (f r)) (holds : ∀ e ∈ taken, driftedEdge e = none ∧ U.Holds e) :
    ActiveMigrated now T todo (taken, U) fun s => if s = r then f r else image s := by
  have ids : ∀ s ∈ T.rows, (image s).id = s.id := by
    intro s there
    by_cases waits : s.active = false ∨ s ∈ r :: todo
    · rw [migrated.waiting s there waits]
    · rw [not_or, Bool.not_eq_false] at waits
      exact (migrated.settled s there waits.1 waits.2).id
  refine ⟨?_, ?_, ?_, holds⟩
  · rw [rows, migrated.rows, List.map_map]
    refine List.map_congr_left fun s there => ?_
    dsimp only [Function.comp_apply]
    rw [ids s there]
    by_cases same : s = r
    · subst same
      rw [if_pos rfl, if_pos rfl, migrated.waiting s here (.inr List.mem_cons_self)]
    · rw [if_neg same, if_neg fun sameId => same (RelationTable.id_unique there here sameId)]
  · intro s there waits
    have other : s ≠ r := by
      rintro rfl
      rcases waits with closed | member
      · rw [active] at closed
        exact absurd closed (by decide)
      · exact once member
    rw [if_neg other, migrated.waiting s there (waits.imp_right (List.mem_cons_of_mem r))]
  · intro s there active done
    split
    · rename_i same
      subst same
      exact settles
    · rename_i other
      refine (migrated.settled s there active fun member => ?_).mono grows
      exact (List.mem_cons.mp member).elim other done

theorem RelationTable.closeId_rows (id : RelationId) (c : Closing) :
    (T.closeId id c).rows = T.rows.map fun s => if s.id = id then s.close c else s := by
  refine List.map_congr_left fun s _ => ?_
  simp only [Relation.closeIf, beq_iff_eq]

theorem ActiveMigrated.row {todo : List Relation} {r : Relation} {state state' : List Edge × RelationTable}
    {image : Relation → Relation} (migrated : ActiveMigrated now T (r :: todo) state image) (here : r ∈ T.rows)
    (active : r.active = true) (once : r ∉ todo) (claimed : Claimed state) (h : migrateActiveRow now state r = some state') :
    ∃ image', ActiveMigrated now T todo state' image' := by
  have present : r ∈ state.2.rows := by
    rw [migrated.rows]
    exact List.mem_map.mpr ⟨r, here, migrated.waiting r here (.inr List.mem_cons_self)⟩
  rcases migrateActiveRow_cases h with ⟨settled, rfl⟩ | ⟨e, drifted, taken, rfl⟩ | ⟨e, U, drifted, free, updated, rfl⟩
  · have same : state'.2.rows = state'.2.rows.map fun s => if s.id = r.id then s else s := by
      simp
    exact ⟨_, migrated.advance here active once (fun _ own => own) same (.kept settled) migrated.taken⟩
  · refine ⟨_, migrated.advance here active once (fun _ own => own) (RelationTable.closeId_rows r.id ⟨now, none⟩)
      (.ended drifted taken) fun other own => ?_⟩
    obtain ⟨settled, held⟩ := migrated.taken other own
    refine ⟨settled, (RelationTable.holds_closeId present active).mpr ⟨held, ?_⟩⟩
    rintro rfl
    rw [settled] at drifted
    simp at drifted
  · have rows := RelationTable.updateEdge_rows updated
    refine ⟨_, migrated.advance here active once (fun _ own => List.mem_cons_of_mem e own) rows
      (.renamed drifted List.mem_cons_self) fun other own => ?_⟩
    rcases List.mem_cons.mp own with rfl | own
    · refine ⟨driftedEdge_canonical drifted, r.withEdge other, ?_, active, rfl⟩
      rw [rows]
      exact List.mem_map.mpr ⟨r, present, if_pos rfl⟩
    · obtain ⟨settled, s, there, activeS, rfl⟩ := migrated.taken other own
      refine ⟨settled, s, ?_, activeS, rfl⟩
      rw [rows]
      refine List.mem_map.mpr ⟨s, there, if_neg fun same => ?_⟩
      rw [RelationTable.id_unique there present same, drifted] at settled
      simp at settled

theorem ActiveMigrated.run {todo : List Relation} {state state' : List Edge × RelationTable} {image : Relation → Relation}
    (migrated : ActiveMigrated now T todo state image) (within : ∀ r ∈ todo, r ∈ T.rows ∧ r.active = true)
    (once : todo.Nodup) (claimed : Claimed state) (h : todo.foldlM (migrateActiveRow now) state = some state') :
    ∃ image', ActiveMigrated now T [] state' image' := by
  induction todo generalizing state image with
  | nil =>
    obtain rfl := Option.some.inj h
    exact ⟨image, migrated⟩
  | cons r rest ih =>
    obtain ⟨middle, stepped, claimed'⟩ := migrateActiveRow_claimed now claimed r
    simp only [List.foldlM_cons, stepped, Option.bind_eq_bind, Option.bind_some] at h
    obtain ⟨here, active⟩ := within r List.mem_cons_self
    obtain ⟨absent, once⟩ := List.nodup_cons.mp once
    obtain ⟨image', migrated'⟩ := migrated.row here active absent claimed stepped
    exact ih migrated' (fun s member => within s (List.mem_cons_of_mem r member)) once claimed' h

/-! ### The closed rows -/

/-- The table while the closed rows `todo` wait for their turn. -/
structure ClosedMigrated (T : RelationTable) (todo : List Relation) (U : RelationTable) (image : Relation → Relation) :
    Prop where
  rows : U.rows = T.rows.map image
  waiting : ∀ r ∈ T.rows, r.active = true ∨ r ∈ todo → image r = r
  settled : ∀ r ∈ T.rows, r.active = false → r ∉ todo → image r = r.withEdge (canonicalEdge r.edge)

theorem migrateClosedRow_rows {T U : RelationTable} {r : Relation} (h : migrateClosedRow T r = some U) :
    U.rows = T.rows.map fun s => if s.id = r.id then
      (if (driftedEdge r.edge).isSome then s.withEdge (canonicalEdge r.edge) else s) else s := by
  unfold migrateClosedRow at h
  cases drifted : driftedEdge r.edge with
  | none =>
    rw [drifted] at h
    rw [← Option.some.inj h]
    simp
  | some e =>
    rw [drifted] at h
    rw [RelationTable.updateEdge_rows h]
    simp [canonicalEdge, drifted]

theorem ClosedMigrated.row {todo : List Relation} {r : Relation} {U V : RelationTable} {image : Relation → Relation}
    (migrated : ClosedMigrated T (r :: todo) U image) (here : r ∈ T.rows) (closed : r.active = false) (once : r ∉ todo)
    (h : migrateClosedRow U r = some V) : ∃ image', ClosedMigrated T todo V image' := by
  have ids : ∀ s ∈ T.rows, (image s).id = s.id := by
    intro s there
    by_cases waits : s.active = true ∨ s ∈ r :: todo
    · rw [migrated.waiting s there waits]
    · rw [not_or, Bool.not_eq_true] at waits
      rw [migrated.settled s there waits.1 waits.2, Relation.withEdge_id]
  refine ⟨fun s => if s = r then r.withEdge (canonicalEdge r.edge) else image s, ?_, ?_, ?_⟩
  · rw [migrateClosedRow_rows h, migrated.rows, List.map_map]
    refine List.map_congr_left fun s there => ?_
    dsimp only [Function.comp_apply]
    rw [ids s there]
    by_cases same : s = r
    · subst same
      rw [if_pos rfl, if_pos rfl, migrated.waiting s here (.inr List.mem_cons_self)]
      cases drifted : driftedEdge s.edge with
      | none => simp [canonicalEdge, drifted]
      | some e => simp
    · rw [if_neg same, if_neg fun sameId => same (RelationTable.id_unique there here sameId)]
  · intro s there waits
    have other : s ≠ r := by
      rintro rfl
      rcases waits with active | member
      · rw [closed] at active
        exact absurd active (by decide)
      · exact once member
    rw [if_neg other, migrated.waiting s there (waits.imp_right (List.mem_cons_of_mem r))]
  · intro s there closed done
    split
    · rename_i same
      rw [same]
    · rename_i other
      exact migrated.settled s there closed fun member => (List.mem_cons.mp member).elim other done

theorem ClosedMigrated.run {todo : List Relation} {U V : RelationTable} {image : Relation → Relation}
    (migrated : ClosedMigrated T todo U image) (within : ∀ r ∈ todo, r ∈ T.rows ∧ r.active = false) (once : todo.Nodup)
    (h : todo.foldlM migrateClosedRow U = some V) : ∃ image', ClosedMigrated T [] V image' := by
  induction todo generalizing U image with
  | nil =>
    obtain rfl := Option.some.inj h
    exact ⟨image, migrated⟩
  | cons r rest ih =>
    rw [List.foldlM_cons] at h
    obtain ⟨middle, stepped, later⟩ := Option.bind_eq_some_iff.mp h
    obtain ⟨here, closed⟩ := within r List.mem_cons_self
    obtain ⟨absent, once⟩ := List.nodup_cons.mp once
    obtain ⟨image', migrated'⟩ := migrated.row here closed absent stepped
    exact ih migrated' (fun s member => within s (List.mem_cons_of_mem r member)) once later

/-! ### The whole migration -/

/-- A row and what the migration leaves of it: the canonical edge and the same columns, ended only where another
active row carries the edge. -/
structure DriftMigrated (now : Instant) (U : RelationTable) (r s : Relation) : Prop where
  id : s.id = r.id
  edge : s.edge = canonicalEdge r.edge
  createdAt : s.createdAt = r.createdAt
  validFrom : s.validFrom = r.validFrom
  validAt : s.validAt = r.validAt
  invalidAt : s.invalidAt = r.invalidAt
  validTo : s.validTo = r.validTo ∨ r.active = true ∧ driftedEdge r.edge ≠ none ∧ s.validTo = some now
  carried : r.active = true → U.Holds (canonicalEdge r.edge)

theorem RelationTable.nodup (T : RelationTable) : T.rows.Nodup :=
  T.distinct.imp fun differ same => differ (congrArg Relation.id same)

theorem migratePredicateDrift_settled {T : RelationTable} (settled : ∀ r ∈ T.rows, driftedEdge r.edge = none)
    (later : Instant) : migratePredicateDrift later T = some T := by
  have active : ∀ (rows : List Relation) (state : List Edge × RelationTable), (∀ r ∈ rows, driftedEdge r.edge = none) →
      rows.foldlM (migrateActiveRow later) state = some state := by
    intro rows state still
    induction rows with
    | nil => rfl
    | cons r rest ih =>
      have here := still r List.mem_cons_self
      simp only [List.foldlM_cons, migrateActiveRow, here, Option.bind_eq_bind, Option.bind_some]
      exact ih fun s member => still s (List.mem_cons_of_mem r member)
  have closed : ∀ rows : List Relation, (∀ r ∈ rows, driftedEdge r.edge = none) →
      rows.foldlM migrateClosedRow T = some T := by
    intro rows still
    induction rows with
    | nil => rfl
    | cons r rest ih =>
      have here := still r List.mem_cons_self
      simp only [List.foldlM_cons, migrateClosedRow, here, Option.bind_eq_bind, Option.bind_some]
      exact ih fun s member => still s (List.mem_cons_of_mem r member)
  simp only [migratePredicateDrift, Option.bind_eq_bind]
  rw [active _ _ fun r member => settled r (List.mem_of_mem_filter member), Option.bind_some]
  exact closed _ fun r member => settled r (List.mem_of_mem_filter member)

theorem driftedEdge_none {e : Edge} : driftedEdge e = none ↔ findAlias e.predicate = none := by
  simp [driftedEdge]

/-- The images of the two phases, one after the other. -/
theorem DriftMigrated.of_phases {T M U : RelationTable} {taken : List Edge} {first second : Relation → Relation}
    (active : ActiveMigrated now T [] (taken, M) first) (closed : ClosedMigrated M [] U second) {r : Relation}
    (here : r ∈ T.rows) : DriftMigrated now U r (second (first r)) := by
  have present : first r ∈ M.rows := by
    rw [active.rows]
    exact List.mem_map_of_mem here
  have kept : (first r).active = true → second (first r) = first r := fun live => closed.waiting _ present (.inl live)
  have rewritten : (first r).active = false → second (first r) = (first r).withEdge (canonicalEdge (first r).edge) :=
    fun ended => closed.settled _ present ended List.not_mem_nil
  have still : ∀ e, M.Holds e → U.Holds e := by
    rintro e ⟨s, there, live, rfl⟩
    refine ⟨s, ?_, live, rfl⟩
    rw [closed.rows]
    exact List.mem_map.mpr ⟨s, there, closed.waiting s there (.inl live)⟩
  by_cases live : r.active = true
  · have image := active.settled r here live List.not_mem_nil
    generalize first r = s at *
    cases image with
    | kept settled =>
      have own : canonicalEdge r.edge = r.edge := by rw [canonicalEdge, settled]; rfl
      rw [kept live]
      refine ⟨rfl, own.symm, rfl, rfl, rfl, rfl, .inl rfl, fun _ => ?_⟩
      rw [own]
      exact still _ ⟨r, present, live, rfl⟩
    | @renamed e drifted own =>
      have canonical : canonicalEdge r.edge = e := by rw [canonicalEdge, drifted]; rfl
      rw [kept live]
      refine ⟨rfl, canonical.symm, rfl, rfl, rfl, rfl, .inl rfl, fun _ => ?_⟩
      rw [canonical]
      exact still _ (active.taken e own).2
    | @ended e drifted other =>
      have canonical : canonicalEdge r.edge = e := by rw [canonicalEdge, drifted]; rfl
      rw [rewritten rfl]
      refine ⟨rfl, rfl, rfl, rfl, rfl, rfl, .inr ⟨live, by rw [drifted]; simp, rfl⟩, fun _ => ?_⟩
      rw [canonical]
      exact still _ (active.taken e other).2
  · have ended := Bool.not_eq_true _ ▸ live
    rw [active.waiting r here (.inl ended)] at rewritten ⊢
    rw [rewritten ended]
    exact ⟨rfl, rfl, rfl, rfl, rfl, rfl, .inl rfl, fun there => absurd there live⟩

/-- The migration goes through, respells every row in its place and ends a row only where another one carries its
edge; a second run finds nothing to do. -/
theorem predicateDrift_migrates (now : Instant) (T : RelationTable) : ∃ U, migratePredicateDrift now T = some U ∧
    List.Forall₂ (DriftMigrated now U) T.rows U.rows ∧ (∀ s ∈ U.rows, findAlias s.predicate = none) ∧
    (∀ a ∈ U.rows, ∀ b ∈ U.rows, a.active = true → b.active = true → a.edge = b.edge → a = b) ∧
    ∀ later, migratePredicateDrift later U = some U := by
  obtain ⟨U, migrated⟩ := migratePredicateDrift_succeeds now T
  have phases := migrated
  simp only [migratePredicateDrift, Option.bind_eq_bind] at phases
  obtain ⟨⟨taken, M⟩, first, second⟩ := Option.bind_eq_some_iff.mp phases
  have claimed : Claimed (((T.rows.filter (·.active)).map (·.edge)).filter fun e => (driftedEdge e).isNone, T) := by
    intro r member active settled
    simp only [List.mem_filter, List.mem_map, Option.isNone_iff_eq_none]
    exact ⟨⟨r, ⟨member, active⟩, rfl⟩, settled⟩
  have start : ActiveMigrated now T (T.rows.filter (·.active))
      (((T.rows.filter (·.active)).map (·.edge)).filter fun e => (driftedEdge e).isNone, T) id := by
    refine ⟨(List.map_id _).symm, fun _ _ _ => rfl, fun r here active waits => ?_, fun e own => ?_⟩
    · exact absurd (List.mem_filter.mpr ⟨here, active⟩) waits
    · simp only [List.mem_filter, List.mem_map, Option.isNone_iff_eq_none] at own
      obtain ⟨⟨r, ⟨here, active⟩, rfl⟩, settled⟩ := own
      exact ⟨settled, r, here, active, rfl⟩
  obtain ⟨image, active⟩ := start.run (fun r member => List.mem_filter.mp member) (T.nodup.filter _) claimed first
  have ended : ClosedMigrated M (M.rows.filter fun r => !r.active) M id := by
    refine ⟨(List.map_id _).symm, fun _ _ _ => rfl, fun r here closed waits => ?_⟩
    exact absurd (List.mem_filter.mpr ⟨here, by simpa using closed⟩) waits
  obtain ⟨respelled, closed⟩ := ended.run
    (fun r member => ⟨(List.mem_filter.mp member).1, by simpa using (List.mem_filter.mp member).2⟩) (M.nodup.filter _) second
  have rows : U.rows = T.rows.map fun r => respelled (image r) := by
    rw [closed.rows, active.rows, List.map_map]
    rfl
  have settled : ∀ s ∈ U.rows, driftedEdge s.edge = none := by
    intro s member
    rw [rows] at member
    obtain ⟨r, here, rfl⟩ := List.mem_map.mp member
    rw [(DriftMigrated.of_phases active closed here).edge]
    exact canonicalEdge_settled r.edge
  refine ⟨U, migrated, ?_, fun s member => driftedEdge_none.mp (settled s member), ?_, migratePredicateDrift_settled settled⟩
  · rw [rows, List.forall₂_map_right_iff, List.forall₂_same]
    exact fun r here => DriftMigrated.of_phases active closed here
  · exact fun a hereA b hereB => RelationTable.active_unique hereA hereB

end SaltMdb
