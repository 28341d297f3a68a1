import SaltMdb.Context.Conflicts
import SaltMdb.Core.Details
import SaltMdb.Library.Rounds
import SaltMdb.Lineage.Traversal
import SaltMdb.Memory.Repointed

/-! `_component_lifecycle_resolved`: its rounds of lineage reads, and the connected components of the lineage edges. -/

namespace SaltMdb
open Walks Rounds

variable {env : Env} {db : Db} {pit : Instant}

/-- A lineage edge that is valid at the instant joins the two memories, whichever of them replaces the other. -/
def LineageLink (db : Db) (pit : Instant) (a b : EntityId) : Prop :=
  ∃ r ∈ db.relations.rows, isLineage r.predicate = true ∧ r.validIn pit = true ∧
    (r.sourceId = a ∧ r.targetId = b ∨ r.sourceId = b ∧ r.targetId = a)

theorem LineageLink.symm {a b : EntityId} (link : LineageLink db pit a b) : LineageLink db pit b a := by
  obtain ⟨r, listed, lineage, valid, ends⟩ := link
  exact ⟨r, listed, lineage, valid, ends.symm⟩

/-- Every memory can be named by its id. -/
def Db.Named (db : Db) : Prop := ∀ e ∈ db.entities.rows, PlainId e.id

theorem Db.Named.resolve (named : db.Named) {id : EntityId} (known : (db.entities.find id).isSome) :
    (resolveEntityRef env db id none).resolved = some id := by
  obtain ⟨e, found⟩ := Option.isSome_iff_exists.mp known
  obtain ⟨listed, same⟩ := EntityTable.find_some found
  exact resolveEntityRef_plain (same ▸ named e listed) found

theorem Db.Referenced.linked (referenced : db.Referenced) {start x : EntityId} (known : (db.entities.find start).isSome)
    (linked : Rounds.Linked (LineageLink db pit) start x) : (db.entities.find x).isSome := by
  obtain ⟨k, walk⟩ := linked
  cases walk with
  | here => exact known
  | onward _ next =>
    obtain ⟨r, listed, _, _, ⟨_, rfl⟩ | ⟨rfl, _⟩⟩ := next
    · exact (referenced r listed).2
    · exact (referenced r listed).1

/-! ### What one look reaches -/

theorem lineageStep_link {direction : LineageDirection} {id : EntityId} {r : Relation}
    (step : r ∈ lineageStep db direction pit none id) : LineageLink db pit id (direction.reached r) := by
  obtain ⟨listed, rfl, lineage, valid, _⟩ := lineageStep_mem.mp step
  refine ⟨r, listed, lineage, valid, ?_⟩
  cases direction with
  | ancestors => exact .inl ⟨rfl, rfl⟩
  | descendants => exact .inr ⟨rfl, rfl⟩

theorem Trail.linked {direction : LineageDirection} {root id : EntityId} {k : Nat} {path : String}
    (trail : Trail db direction pit none root k id path) : Linked (LineageLink db pit) root id := by
  induction trail with
  | seed step => exact ⟨1, .onward .here (lineageStep_link step)⟩
  | hop _ step _ ih =>
    obtain ⟨n, walk⟩ := ih
    exact ⟨n + 1, .onward walk (lineageStep_link step)⟩

/-- Both memories are in one weakly connected component of the lineage edges of the instant. -/
def InOneLineage (db : Db) (pit : Instant) (a b : EntityId) : Prop := Linked (LineageLink db pit) a b

theorem InOneLineage.symm {a b : EntityId} (one : InOneLineage db pit a b) : InOneLineage db pit b a := by
  obtain ⟨n, walk⟩ := one
  exact ⟨n, walk.reverse.mono fun _ _ link => link.symm⟩

end SaltMdb
