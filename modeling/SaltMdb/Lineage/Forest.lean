import SaltMdb.Library.Succession
import SaltMdb.System.Kept

/-! The lineage of the memories as successions: the services that record none move the database by arrivals
and retirements of the abstract state. -/

namespace SaltMdb
open Transactions

variable {env : Env}

def Edge.Lineage (e : Edge) : Prop := isLineage e.predicate = true

/-- Every lineage edge ever recorded, active or not. -/
def RelationTable.lineage (T : RelationTable) : List Edge :=
  (T.rows.map (·.edge)).filter fun e => isLineage e.predicate

/-- The abstract state: the memories as they arrived, the archived ones as retired, the lineage as successions. -/
def Db.succession (db : Db) : Succession.State EntityId where
  nodes := db.entities.rows.map (·.id)
  retired id := ∃ e, db.entities.find id = some e ∧ e.status = .archived
  edges := db.relations.lineage.map fun e => (e.source, e.target)

/-- The database moved by steps of the abstract state. -/
def Db.Succeeds (d d' : Db) : Prop := Succession.Steps d.succession d'.succession

/-- Nothing of the abstract state moved. -/
structure Db.Quiet (d d' : Db) : Prop where
  entities : d'.entities = d.entities
  grows : d.relations.Grows (fun e => ¬ e.Lineage) d'.relations

namespace Db
variable {d d' d'' : Db}

theorem Quiet.refl (d : Db) : d.Quiet d := ⟨rfl, .refl _⟩

theorem Quiet.trans (first : d.Quiet d') (second : d'.Quiet d'') : d.Quiet d'' :=
  ⟨second.entities.trans first.entities, first.grows.trans second.grows⟩

theorem Succeeds.refl (d : Db) : d.Succeeds d := Relation.ReflTransGen.refl

theorem Succeeds.trans (first : d.Succeeds d') (second : d'.Succeeds d'') : d.Succeeds d'' :=
  Relation.ReflTransGen.trans first second

end Db

/-! ### Steps that the abstract state does not see -/

theorem lineage_grows {T U : RelationTable} (h : T.Grows (fun e => ¬ e.Lineage) U) : U.lineage = T.lineage := by
  obtain ⟨news, rows, none_⟩ := h
  have silent : news.filter (fun e => isLineage e.predicate) = [] :=
    List.filter_eq_nil_iff.mpr fun e member => none_ e member
  rw [RelationTable.lineage, rows, List.filter_append, silent, List.append_nil, RelationTable.lineage]

theorem Db.Quiet.succession {d d' : Db} (h : d.Quiet d') : d'.succession = d.succession := by
  simp only [Db.succession, h.entities, lineage_grows h.grows]

theorem Db.Quiet.succeeds {d d' : Db} (h : d.Quiet d') : d.Succeeds d' := by
  rw [Db.Succeeds, h.succession]

theorem selectable_quiet {d d' : Db} (h : d.OnlyRelations Edge.Selectable d') : d.Quiet d' := by
  refine ⟨h.entities, h.grows.mono fun e selectable lineage => ?_⟩
  rw [Edge.Lineage, selectable_not_lineage selectable] at lineage
  exact Bool.false_ne_true lineage

theorem elaborates_quiet {d d' : Db} (h : d.OnlyRelations Edge.Elaborates d') : d.Quiet d' :=
  selectable_quiet (h.mono fun _ => Edge.Elaborates.selectable)

theorem onlyTags_quiet {d d' : Db} (h : d.OnlyTags d') : d.Quiet d' :=
  ⟨h.entities, by rw [h.relations]; exact .refl _⟩

theorem onlyJobs_quiet {d d' : Db} (h : d.OnlyJobs d') : d.Quiet d' :=
  ⟨h.entities, by rw [h.relations]; exact .refl _⟩

/-! ### Steps on the entities -/

section
variable {T : EntityTable}

def EntityTable.retired (T : EntityTable) (id : EntityId) : Prop := ∃ e, T.find id = some e ∧ e.status = .archived

theorem setIf_status (sel : Entity → Bool) {f : EntityColumns → EntityColumns} (retires : Retires f) (e : Entity) :
    (e.setIf sel f).status = e.status ∨ (e.setIf sel f).status = .archived := by
  unfold Entity.setIf
  split
  · exact retires e.toEntityColumns
  · exact Or.inl rfl

theorem retired_updateWhere {sel : Entity → Bool} {f : EntityColumns → EntityColumns} (retires : Retires f)
    {id : EntityId} (retired : T.retired id) : (T.updateWhere sel f).retired id := by
  obtain ⟨e, found, archived⟩ := retired
  refine ⟨e.setIf sel f, by rw [EntityTable.find_updateWhere, found]; rfl, ?_⟩
  rcases setIf_status sel retires e with same | gone
  · rw [same, archived]
  · exact gone

theorem updateWhere_ids {sel : Entity → Bool} {f : EntityColumns → EntityColumns} :
    (T.updateWhere sel f).rows.map (·.id) = T.rows.map (·.id) := by
  simp [EntityTable.updateWhere, Function.comp_def]

end

theorem updateWhere_succeeds (d : Db) {sel : Entity → Bool} {f : EntityColumns → EntityColumns} (retires : Retires f) :
    d.Succeeds { d with entities := d.entities.updateWhere sel f } := by
  have step := Succession.Step.retire (s := d.succession) (d.entities.updateWhere sel f).retired
  have after : ({ d with entities := d.entities.updateWhere sel f } : Db).succession =
      { d.succession with retired := fun a => d.succession.retired a ∨ (d.entities.updateWhere sel f).retired a } := by
    simp only [Db.succession, updateWhere_ids, Succession.State.mk.injEq, true_and, and_true]
    funext id
    exact propext ⟨Or.inr, fun either => either.elim (retired_updateWhere retires) fun now => now⟩
  rw [Db.Succeeds, after]
  exact .single step

theorem append_succeeds (d : Db) (e : Entity) (free : d.entities.find e.id = none) :
    d.Succeeds { d with entities := d.entities.append e free } := by
  have fresh : e.id ∉ d.succession.nodes := by
    intro member
    obtain ⟨old, oldMember, same⟩ := List.mem_map.mp member
    exact EntityTable.find_none.mp free old oldMember same
  have arrive := Succession.Step.arrive (s := d.succession) e.id fresh
  have retire := Succession.Step.retire (s := { d.succession with nodes := d.succession.nodes ++ [e.id] })
    fun a => a = e.id ∧ e.status = .archived
  have after : ({ d with entities := d.entities.append e free } : Db).succession =
      ⟨d.succession.nodes ++ [e.id], fun a => d.succession.retired a ∨ (a = e.id ∧ e.status = .archived),
        d.succession.edges⟩ := by
    simp only [Db.succession, Succession.State.mk.injEq, and_true]
    refine ⟨by simp [EntityTable.append], funext fun id => propext ?_⟩
    simp only [EntityTable.find_append]
    by_cases same : id = e.id
    · subst id
      simp [free]
    · simp [same]
  rw [Db.Succeeds, after]
  exact (Relation.ReflTransGen.single arrive).tail retire

/-! ### The services that record no lineage -/

theorem succeeds_kept (env : Env) : Kept env Db.Succeeds (fun _ _ => True) (fun _ _ => True) where
  refl := Db.Succeeds.refl
  trans := fun _ _ _ h k => h.trans k
  silent := fun entities relations => Db.Quiet.succeeds ⟨entities, by rw [relations]; exact .refl _⟩
  arrive := append_succeeds
  update := fun d _ _ retires => updateWhere_succeeds d retires
  store := fun call => (selectable_quiet call.selectable).succeeds
  invalidate := fun _ call => (selectable_quiet call.onlyRelations).succeeds
  archive := by
    intro d id now _
    have archived : d.Succeeds { d with
        entities := d.entities.updateWhere (fun e => e.id == id && e.live) (·.archive now) } :=
      updateWhere_succeeds d fun _ => Or.inr rfl
    refine archived.trans (Db.Quiet.succeeds ?_)
    exact ⟨rfl, RelationTable.grows_closeWhere⟩
  names_detail := fun _ => trivial
  names_moved := fun _ _ => trivial
  spares_archive := fun _ _ _ => trivial
  spares_silent := fun _ _ => trivial

end SaltMdb
