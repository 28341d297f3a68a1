import SaltMdb.Store.Connection

/-! Which tables a statement leaves alone, and how the relations table grows. -/

namespace SaltMdb
open Transactions

/-! ### Computations that never raise -/

theorem writeTransactionRetrying_total {α : Type} {fn : Tx α} (total : Txn.Total fn) (mode : Mode) :
    writeTransactionRetrying mode fn = fn := by
  cases mode with
  | direct => exact Txn.atomic_of_total total
  | coordinator => rfl

theorem serve_total {α : Type} {service : Mode → Tx α} {op : Tx α} (same : ∀ m, service m = op)
    (total : Txn.Total op) (mode : Mode) : serve mode service = op := by
  cases mode with
  | direct => exact same .direct
  | coordinator =>
    simp only [serve, executeJob, same, writeTransaction]
    exact Txn.atomic_of_total total

/-! ### The relations table over time -/

namespace RelationTable

/-- No row leaves and none changes its edge; the new rows' edges satisfy `P`. -/
def Grows (P : Edge → Prop) (T U : RelationTable) : Prop :=
  ∃ news, U.rows.map (·.edge) = T.rows.map (·.edge) ++ news ∧ ∀ e ∈ news, P e

variable {P Q : Edge → Prop} {T U V : RelationTable}

theorem Grows.refl (T : RelationTable) : T.Grows P T := ⟨[], by simp⟩

theorem Grows.trans (first : T.Grows P U) (second : U.Grows P V) : T.Grows P V := by
  obtain ⟨xs, rows, all⟩ := first
  obtain ⟨ys, rows', all'⟩ := second
  refine ⟨xs ++ ys, by rw [rows', rows, List.append_assoc], fun e member => ?_⟩
  rcases List.mem_append.mp member with old | new
  · exact all e old
  · exact all' e new

theorem Grows.mono (h : T.Grows P U) (weaker : ∀ e, P e → Q e) : T.Grows Q U := by
  obtain ⟨news, rows, all⟩ := h
  exact ⟨news, rows, fun e member => weaker e (all e member)⟩

theorem grows_closeWhere {sel : Relation → Bool} {c : Closing} : T.Grows P (T.closeWhere sel c) := by
  refine ⟨[], ?_, by simp⟩
  simp [closeWhere, Function.comp_def]

theorem grows_push {d : RelationDraft} (free : ¬ T.Holds d.edge) (ok : P d.edge) : T.Grows P (T.push d free) := by
  refine ⟨[d.edge], ?_, by simpa using ok⟩
  simp [push]

end RelationTable

/-! ### Frames -/

namespace Db

/-- Nothing but relations and events moved, and the relations only grew by edges of `P`. -/
structure OnlyRelations (P : Edge → Prop) (d d' : Db) : Prop where
  frame : d' = { d with relations := d'.relations, events := d'.events }
  grows : d.relations.Grows P d'.relations

/-- Nothing but tags and events moved. -/
def OnlyTags (d d' : Db) : Prop := d' = { d with tags := d'.tags, events := d'.events }

/-- Nothing but embedding jobs moved. -/
def OnlyJobs (d d' : Db) : Prop := d' = { d with embeddingJobs := d'.embeddingJobs }

/-- Nothing but entities moved. -/
def OnlyEntities (d d' : Db) : Prop := d' = { d with entities := d'.entities }

variable {P Q : Edge → Prop} {d d' d'' : Db}

theorem OnlyRelations.refl (d : Db) : d.OnlyRelations P d := ⟨rfl, .refl _⟩

theorem OnlyRelations.trans (first : d.OnlyRelations P d') (second : d'.OnlyRelations P d'') :
    d.OnlyRelations P d'' := by
  refine ⟨?_, first.grows.trans second.grows⟩
  rw [second.frame, first.frame]

theorem OnlyRelations.mono (h : d.OnlyRelations P d') (weaker : ∀ e, P e → Q e) : d.OnlyRelations Q d' :=
  ⟨h.frame, h.grows.mono weaker⟩

theorem OnlyTags.refl (d : Db) : d.OnlyTags d := rfl

theorem OnlyTags.trans (first : d.OnlyTags d') (second : d'.OnlyTags d'') : d.OnlyTags d'' := by
  unfold OnlyTags at first second ⊢
  rw [second, first]

theorem OnlyJobs.refl (d : Db) : d.OnlyJobs d := rfl

theorem OnlyJobs.trans (first : d.OnlyJobs d') (second : d'.OnlyJobs d'') : d.OnlyJobs d'' := by
  unfold OnlyJobs at first second ⊢
  rw [second, first]

theorem OnlyRelations.entities (h : d.OnlyRelations P d') : d'.entities = d.entities := by rw [h.frame]
theorem OnlyRelations.tags (h : d.OnlyRelations P d') : d'.tags = d.tags := by rw [h.frame]
theorem OnlyRelations.predicates (h : d.OnlyRelations P d') : d'.predicates = d.predicates := by rw [h.frame]
theorem OnlyTags.entities (h : d.OnlyTags d') : d'.entities = d.entities := by rw [h]
theorem OnlyTags.relations (h : d.OnlyTags d') : d'.relations = d.relations := by rw [h]
theorem OnlyTags.predicates (h : d.OnlyTags d') : d'.predicates = d.predicates := by rw [h]
theorem OnlyJobs.entities (h : d.OnlyJobs d') : d'.entities = d.entities := by rw [h]
theorem OnlyJobs.relations (h : d.OnlyJobs d') : d'.relations = d.relations := by rw [h]
theorem OnlyJobs.tags (h : d.OnlyJobs d') : d'.tags = d.tags := by rw [h]
theorem OnlyJobs.predicates (h : d.OnlyJobs d') : d'.predicates = d.predicates := by rw [h]

end Db

/-! ### Conditional statements -/

theorem settles_when {R : Db → Db → Prop} (refl : ∀ d, R d d) {condition : Bool} {body : Tx Unit}
    (h : Txn.Settles R body) : Txn.Settles R (Tx.when_ condition body) := by
  cases condition with
  | true => exact h
  | false => exact Txn.settles_pure refl ()

theorem within_when {R : Db → Db → Prop} (refl : ∀ d, R d d) {condition : Bool} {body : Tx Unit}
    (h : Txn.Within R body) : Txn.Within R (Tx.when_ condition body) := by
  cases condition with
  | true => exact h
  | false => exact Txn.within_pure refl ()

/-! ### Write transactions -/

theorem retrying_ok {α : Type} {fn : Tx α} {mode : Mode} {w w' : World Db Supply} {a : α} :
    (writeTransactionRetrying mode fn).run w = (.ok a, w') ↔ fn.run w = (.ok a, w') := by
  cases mode with
  | direct => exact Txn.atomic_ok
  | coordinator => exact Iff.rfl

theorem retrying_error {α : Type} {fn : Tx α} {mode : Mode} {w w' : World Db Supply} {e : Exc}
    (clean : ∀ v, fn.run w = (.error e, v) → v.durable = w.durable)
    (h : (writeTransactionRetrying mode fn).run w = (.error e, w')) : w'.durable = w.durable := by
  cases mode with
  | direct => exact (Txn.atomic_error h).1
  | coordinator => exact clean w' h

/-! ### Embedding jobs -/

variable {env : Env}

theorem setJobs_settles (f : List EmbeddingJob → List EmbeddingJob) : Txn.Settles Db.OnlyJobs (Tx.setJobs f) :=
  fun _ => ⟨_, _, rfl, rfl⟩

theorem enqueueEmbeddingJobs_settles (id : EntityId) (title content contentHash : String) :
    Txn.Settles Db.OnlyJobs (enqueueEmbeddingJobsForEntity env id title content contentHash) :=
  setJobs_settles _

theorem onlyJobs_bind {α β : Type} {m : Tx α} {f : α → Tx β} (first : Txn.Settles Db.OnlyJobs m)
    (rest : ∀ a, Txn.Settles Db.OnlyJobs (f a)) : Txn.Settles Db.OnlyJobs (m >>= f) :=
  Txn.settles_bind (fun _ _ _ h k => h.trans k) first rest

theorem cancelJobs_settles (id : EntityId) : Txn.Settles Db.OnlyJobs (cancelJobsForEntity id) :=
  onlyJobs_bind (setJobs_settles _) fun _ => setJobs_settles _

theorem enqueueRetrieval_settles (id : EntityId) (text : Option String) :
    Txn.Settles Db.OnlyJobs (enqueueRetrievalEmbeddingJobForEntity env id text) := by
  cases text with
  | none => exact setJobs_settles _
  | some text => exact setJobs_settles _

theorem forEach_onlyJobs {f : EntityId → Tx Unit} (each : ∀ id, Txn.Settles Db.OnlyJobs (f id)) (ids : List EntityId) :
    Txn.Settles Db.OnlyJobs (Txn.forEach f ids) :=
  Txn.settles_forEach Db.OnlyJobs.refl (fun _ _ _ h k => h.trans k) each ids

end SaltMdb
