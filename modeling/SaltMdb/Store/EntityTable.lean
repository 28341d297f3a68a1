import Mathlib.Data.List.Pairwise
import SaltMdb.Store.Data

/-! The `entities` table. Rows are only appended and updated in place, and no update reaches the id. -/

namespace SaltMdb

/-- An update of the columns, applied to the rows a `WHERE` selects. -/
def Entity.setIf (sel : Entity → Bool) (f : EntityColumns → EntityColumns) (e : Entity) : Entity :=
  if sel e then { e with toEntityColumns := f e.toEntityColumns } else e

@[simp] theorem Entity.setIf_id {sel : Entity → Bool} {f : EntityColumns → EntityColumns} {e : Entity} :
    (e.setIf sel f).id = e.id := by
  unfold Entity.setIf; split <;> rfl

/-- `SET status = 'archived', updated_at = ?`. -/
def EntityColumns.archive (now : Instant) (c : EntityColumns) : EntityColumns :=
  { c with status := .archived, updatedAt := now }

structure EntityTable where
  rows : List Entity
  distinct : rows.Pairwise fun a b => a.id ≠ b.id
deriving DecidableEq

namespace EntityTable

def empty : EntityTable := ⟨[], .nil⟩

def find (T : EntityTable) (id : EntityId) : Option Entity := T.rows.find? (·.id == id)

def updateWhere (T : EntityTable) (sel : Entity → Bool) (f : EntityColumns → EntityColumns) : EntityTable where
  rows := T.rows.map (·.setIf sel f)
  distinct := by
    rw [List.pairwise_map]
    exact T.distinct.imp fun h => by simpa using h

def updateId (T : EntityTable) (id : EntityId) (f : EntityColumns → EntityColumns) : EntityTable :=
  T.updateWhere (·.id == id) f

variable {T : EntityTable} {e : Entity} {id : EntityId}

theorem find_some (h : T.find id = some e) : e ∈ T.rows ∧ e.id = id := by
  have found := List.find?_some h
  exact ⟨List.mem_of_find?_eq_some h, by simpa using found⟩

theorem find_none : T.find id = none ↔ ∀ e ∈ T.rows, e.id ≠ id := by
  simp only [find, List.find?_eq_none, beq_iff_eq]

theorem id_unique {a b : Entity} (ha : a ∈ T.rows) (hb : b ∈ T.rows) (same : a.id = b.id) : a = b := by
  have symm : Std.Symm fun a b : Entity => a.id ≠ b.id := ⟨fun _ _ h => h.symm⟩
  by_contra differ
  exact T.distinct.forall ha hb differ same

theorem find_mem (h : e ∈ T.rows) : T.find e.id = some e := by
  cases found : T.find e.id with
  | none => exact absurd rfl (find_none.mp found e h)
  | some other =>
    obtain ⟨member, same⟩ := find_some found
    rw [id_unique member h same]

theorem find_iff : T.find id = some e ↔ e ∈ T.rows ∧ e.id = id := by
  refine ⟨find_some, ?_⟩
  rintro ⟨member, rfl⟩
  exact find_mem member

def append (T : EntityTable) (e : Entity) (free : T.find e.id = none) : EntityTable where
  rows := T.rows ++ [e]
  distinct := by
    rw [List.pairwise_append]
    refine ⟨T.distinct, List.pairwise_singleton _ _, ?_⟩
    intro a old b new
    obtain rfl := List.mem_singleton.mp new
    exact find_none.mp free a old

/-- `INSERT INTO entities`: `none` when the primary key is taken. -/
def insert (T : EntityTable) (e : Entity) : Option EntityTable :=
  if free : T.find e.id = none then some (T.append e free) else none

/-- `INSERT … ON CONFLICT(id) DO UPDATE SET`: `f` is the update of an existing row. -/
def upsert (T : EntityTable) (e : Entity) (f : EntityColumns → EntityColumns) : EntityTable :=
  if free : T.find e.id = none then T.append e free else T.updateId e.id f

variable {sel : Entity → Bool} {f : EntityColumns → EntityColumns}

theorem mem_updateWhere : e ∈ (T.updateWhere sel f).rows ↔ ∃ old ∈ T.rows, old.setIf sel f = e := by
  simp only [updateWhere, List.mem_map]

theorem find_updateWhere (id : EntityId) :
    (T.updateWhere sel f).find id = (T.find id).map (·.setIf sel f) := by
  simp only [find, updateWhere, List.find?_map, Function.comp_def, Entity.setIf_id]

theorem find_updateId (id other : EntityId) :
    (T.updateId id f).find other =
      (T.find other).map fun e => if other = id then { e with toEntityColumns := f e.toEntityColumns } else e := by
  rw [updateId, find_updateWhere]
  cases found : T.find other with
  | none => rfl
  | some e =>
    obtain ⟨_, rfl⟩ := find_some found
    simp [Entity.setIf]

@[simp] theorem find_append {free : T.find e.id = none} (id : EntityId) :
    (T.append e free).find id = if id = e.id then some e else T.find id := by
  simp only [find, append, List.find?_append, List.find?_singleton]
  by_cases same : id = e.id
  · subst id
    have missing := free
    rw [find] at missing
    simp [missing]
  · have other : ¬ e.id = id := fun h => same h.symm
    simp [same, other]

theorem insert_some {U : EntityTable} (h : T.insert e = some U) : ∃ free, U = T.append e free := by
  unfold insert at h
  split at h
  · rename_i free
    exact ⟨free, (Option.some.inj h).symm⟩
  · simp at h

end EntityTable
end SaltMdb
