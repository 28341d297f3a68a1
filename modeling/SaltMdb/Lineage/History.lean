import SaltMdb.Lineage.Consolidated
import SaltMdb.System.Calls

/-! Over any run of the calls on a fresh database, the lineage ever recorded is a forest of archived memories,
and an archived memory stays archived. -/

namespace SaltMdb
open Transactions

variable {env : Env}

structure Db.LineageForest (db : Db) : Prop where
  once : (db.relations.lineage.map (·.target)).Nodup
  archived : ∀ e ∈ db.relations.lineage, ∃ m, db.entities.find e.target = some m ∧ m.status = .archived
  acyclic : ∀ a, ¬ Relation.TransGen (fun x y => ∃ e ∈ db.relations.lineage, e.source = x ∧ e.target = y) a a

/-- What is archived in the one state is archived in the other. -/
def Db.StaysArchived (d d' : Db) : Prop :=
  ∀ id m, d.entities.find id = some m → m.status = .archived →
    ∃ m', d'.entities.find id = some m' ∧ m'.status = .archived

theorem lineageForest_of {db : Db} (h : Succession.Forest db.succession) : db.LineageForest where
  once := by
    have once := h.once
    simpa only [Db.succession, List.map_map, Function.comp_def] using once
  archived := fun e member => h.retired (e.source, e.target) (List.mem_map.mpr ⟨e, member, rfl⟩)
  acyclic := by
    intro a cycle
    refine h.acyclic a (Relation.TransGen.mono ?_ a a cycle)
    rintro x y ⟨e, member, rfl, rfl⟩
    exact List.mem_map.mpr ⟨e, member, rfl⟩

theorem staysArchived_of {d d' : Db} (h : d.Succeeds d') : d.StaysArchived d' :=
  fun _ m found archived => Succession.Steps.retired_mono h ⟨m, found, archived⟩

/-! ### Calls -/

theorem succeeds_recording (env : Env) : Kept.Recording env Db.Succeeds :=
  (succeeds_kept env).recording (succeeds_replaced env) (succeeds_committed env)

/-- Every call moves the database by steps of the abstract state, whatever it answers. -/
theorem next_succeeds (env : Env) (w : World Db Supply) (call : Mode × Call) : w.durable.Succeeds (Call.next env w call).durable :=
  (succeeds_kept env).next (succeeds_recording env) (allowed_always call.2 w)

theorem init_forest : Succession.Forest Db.init.succession where
  once := List.nodup_nil
  retired := fun _ member => absurd member List.not_mem_nil
  present := fun _ member => absurd member List.not_mem_nil
  later := fun _ member => absurd member List.not_mem_nil

theorem states_lineageForest (env : Env) (calls : List (Mode × Call)) (supply : Supply) :
    (∀ v ∈ Call.states env calls ⟨.init, supply⟩, v.durable.LineageForest) ∧
      (Call.states env calls ⟨.init, supply⟩).Pairwise fun earlier later =>
        earlier.durable.StaysArchived later.durable := by
  constructor
  · have forests : ∀ v ∈ Call.states env calls ⟨.init, supply⟩, Succession.Forest v.durable.succession :=
      Runs.invariant (fun w call forest => forest.steps (next_succeeds env w call)) init_forest
    exact fun v member => lineageForest_of (forests v member)
  · have moves := Runs.pairwise (R := fun a b : World Db Supply => a.durable.Succeeds b.durable)
      (fun _ _ _ h k => h.trans k) (next_succeeds env) calls ⟨.init, supply⟩
    exact moves.imp staysArchived_of

end SaltMdb
