import SaltMdb.Embedding.Frames

/-! What the transactions do to the memories: rows come and change, none is deleted, and the archive keeps what it has. -/

namespace SaltMdb
open EmbeddingDb

/-- The memories of a table are in the later one, the archived ones as such, and no id comes that is empty. -/
structure MemoriesKept (T U : EntityTable) : Prop extends HistoryDb.Later T U where
  named : (∀ e ∈ T.rows, e.id ≠ "") → ∀ e ∈ U.rows, e.id ≠ ""

namespace MemoriesKept

variable {T U V : EntityTable} {e : Entity} {sel : Entity → Bool} {f : EntityColumns → EntityColumns}

theorem refl (T : EntityTable) : MemoriesKept T T where
  stays _ e found := ⟨e, found, fun archived => archived⟩
  named here := here

theorem trans (first : MemoriesKept T U) (second : MemoriesKept U V) : MemoriesKept T V where
  stays id e found := by
    obtain ⟨e', there, archived⟩ := first.stays id e found
    obtain ⟨e'', later, archived'⟩ := second.stays id e' there
    exact ⟨e'', later, fun before => archived' (archived before)⟩
  named here := second.named (first.named here)

theorem append (free : T.find e.id = none) (nonempty : e.id ≠ "") : MemoriesKept T (T.append e free) where
  toLater := .append free
  named here old member := by
    rcases List.mem_append.mp member with before | new
    · exact here old before
    · obtain rfl := List.mem_singleton.mp new
      exact nonempty

theorem update (keeps : ∀ c, c.status = .archived → (f c).status = .archived) : MemoriesKept T (T.updateWhere sel f) where
  toLater := .update keeps
  named here e member := by
    obtain ⟨old, before, rfl⟩ := EntityTable.mem_updateWhere.mp member
    rw [Entity.setIf_id]
    exact here old before

theorem archive {now : Instant} : MemoriesKept T (T.updateWhere sel (·.archive now)) := update fun _ _ => rfl

theorem upsert (nonempty : e.id ≠ "") (keeps : ∀ c, c.status = .archived → (f c).status = .archived) :
    MemoriesKept T (T.upsert e f) := by
  unfold EntityTable.upsert
  split
  · exact append _ nonempty
  · exact update keeps

end MemoriesKept

namespace EmbeddingDb

variable {env : Env} {ν : Type} {model : EmbeddingModel ν} {db U : EmbeddingDb ν} {now : Instant} {id : EntityId} {p : StoreProposal}
  {existing : Option Entity} {core : CoreState}

/-! ### One transaction -/

theorem historyCopy_named (old : Entity) (suffix : String) : (old.historyCopy suffix).id ≠ "" := by
  intro empty
  have text : (old.historyCopy suffix).id.toList = [] := by rw [empty]; rfl
  simp [Entity.historyCopy, HistoryCopy.hist, String.toList_append] at text

theorem storeTarget_named (p : StoreProposal) (drawn : Uuid) : storeTarget p drawn ≠ "" := by
  unfold storeTarget
  cases given : p.resolvedEntityId.filter (· ≠ "") with
  | none => exact drawn.nonempty
  | some id =>
    obtain ⟨_, nonempty⟩ := Option.filter_eq_some_iff.mp given
    simpa using nonempty

@[simp] theorem upsertMemory_entities : (db.upsertMemory p id existing now core).entities =
    db.entities.upsert { p.columns now core with id := id } (p.update now core) := by
  unfold upsertMemory
  cases existing with
  | none => rfl
  | some old => dsimp only; split <;> rfl

@[simp] theorem enqueueRawJobs_entities : (db.enqueueRawJobs env p id existing now).entities = db.entities := by
  unfold enqueueRawJobs
  dsimp only
  split
  · split
    · exact enqueueEmbeddingJobsForEntity_entities
    · rfl
  · rw [enqueueRetrieval_entities]
    split
    · exact enqueueEmbeddingJobsForEntity_entities
    · rfl

@[simp] theorem archiveWhere_entities {sel : Entity → Bool} :
    (db.archiveWhere sel now).entities = db.entities.updateWhere sel (·.archive now) := rfl

@[simp] theorem cancelArchived_entities : (cancelArchived now db id).entities = db.entities := by
  unfold cancelArchived
  rw [cancelRetrievalEmbeddingJobsForEntity_entities, cancelEmbeddingJobsForEntity_entities]

@[simp] theorem clearArchived_entities : (clearArchived now db id).entities = db.entities := by
  unfold clearArchived
  rw [cancelRetrievalEmbeddingJobsForEntity_entities, clearEmbeddingVectorsForEntity_entities]

/-- A loop that writes no memory. -/
theorem foldl_entities {α : Type} {f : EmbeddingDb ν → α → EmbeddingDb ν} (turn : ∀ db x, (f db x).entities = db.entities)
    (xs : List α) (db : EmbeddingDb ν) : (xs.foldl f db).entities = db.entities := by
  induction xs generalizing db with
  | nil => rfl
  | cons x rest ih => exact (ih (f db x)).trans (turn db x)

theorem insertMemory_memories {e : Entity} {status : EmbeddingStatus} (nonempty : e.id ≠ "") (h : db.insertMemory e status = some U) :
    MemoriesKept db.entities U.entities := by
  obtain ⟨free, rfl⟩ := insertMemory_some h
  exact .append free nonempty

theorem keepCopy_memories {drawn : Uuid} (h : db.keepCopy p existing drawn = some U) : MemoriesKept db.entities U.entities := by
  rcases keepCopy_cases h with rfl | ⟨old, free, _, rfl⟩
  · exact .refl _
  · exact .append free (historyCopy_named old _)

theorem storeRaw_memories {drawn copyDrawn : Uuid} (stored : db.storeRaw env p drawn copyDrawn now core = some U) :
    MemoriesKept db.entities U.entities := by
  obtain ⟨copied, kept, rfl⟩ := Option.map_eq_some_iff.mp stored
  rw [enqueueRawJobs_entities, upsertMemory_entities]
  exact (keepCopy_memories kept).trans (.upsert (storeTarget_named p drawn) fun c archived => archived)

theorem replace_memories {plan : ReplacementPlan} {drawn : Uuid} (replaced : db.replace env plan drawn core = some U) :
    MemoriesKept db.entities U.entities := by
  unfold EmbeddingDb.replace at replaced
  split at replaced
  · simp at replaced
  · obtain ⟨inserted, there, rfl⟩ := Option.map_eq_some_iff.mp replaced
    simp only [clearArchived_entities, enqueueRetrieval_entities, enqueueEmbeddingJobsForEntity_entities, cancelArchived_entities,
      archiveWhere_entities]
    exact (insertMemory_memories drawn.nonempty there).trans .archive

theorem consolidateItem_memories {m : Merge} (merged : db.consolidateItem env m = some U) : MemoriesKept db.entities U.entities := by
  unfold EmbeddingDb.consolidateItem at merged
  split at merged
  · simp at merged
  · obtain ⟨inserted, there, rfl⟩ := Option.map_eq_some_iff.mp merged
    rw [foldl_entities fun _ _ => cancelArchived_entities, archiveWhere_entities, enqueueEmbeddingJobsForEntity_entities]
    exact (insertMemory_memories m.drawn.nonempty there).trans .archive

theorem consolidateItems_memories {items : List Merge} (merged : items.foldlM (consolidateItem env) db = some U) :
    MemoriesKept db.entities U.entities := by
  induction items generalizing db with
  | nil =>
    obtain rfl := Option.some.inj merged
    exact .refl _
  | cons m rest ih =>
    simp only [List.foldlM_cons, Option.bind_eq_bind, Option.bind_eq_some_iff] at merged
    obtain ⟨first, here, merged⟩ := merged
    exact (consolidateItem_memories here).trans (ih merged)

theorem consolidate_memories {items : List Merge} (merged : db.consolidate env items now = some U) :
    MemoriesKept db.entities U.entities := by
  obtain ⟨written, ran, rfl⟩ := Option.map_eq_some_iff.mp merged
  rw [foldl_entities fun _ _ => clearArchived_entities]
  exact consolidateItems_memories ran

theorem archive_memories : MemoriesKept db.entities (db.archive id now).entities := by
  unfold EmbeddingDb.archive
  rw [cancelRetrievalEmbeddingJobsForEntity_entities, clearEmbeddingVectorsForEntity_entities, cancelEmbeddingJobsForEntity_entities,
    archiveWhere_entities]
  exact .archive

/-! ### What writes no memory -/

@[simp] theorem reconcileEmbeddingJobs_entities {limit : Nat} {afterId : Option EntityId} {clock : EntityId → Instant} :
    (db.reconcileEmbeddingJobs env limit afterId clock).1.entities = db.entities :=
  foldl_entities (fun _ _ => reconcileEntity_entities) _ db

@[simp] theorem reconcileRetrievalEmbeddingJobs_entities {limit : Nat} {afterId : Option EntityId} {clock : EntityId → Instant} :
    (db.reconcileRetrievalEmbeddingJobs env limit afterId clock).1.entities = db.entities :=
  foldl_entities (fun _ _ => reconcileRetrieval_entities) _ db

@[simp] theorem claimJob_entities {kinds : JobKind → Bool} {eligible : Job → Entity → Bool} {idText : JobId → String}
    {leaseFrom : Instant} : (db.claimJob kinds eligible idText now leaseFrom).1.entities = db.entities := by
  rcases db.claimJob_cases kinds eligible idText now leaseFrom with none_ | ⟨j, e, _, some_⟩
  · rw [none_]
    rfl
  · rw [some_]
    rfl

@[simp] theorem claimAny_entities {idText : JobId → String} {leaseFrom : Instant} :
    (db.claimAnyEmbeddingJob env idText now leaseFrom).1.entities = db.entities := by
  unfold claimAnyEmbeddingJob
  have base : (db.claimEmbeddingJob idText now leaseFrom).1.entities = db.entities := claimJob_entities
  split
  · rename_i claimed s given
    rwa [given] at base
  · rename_i swept given
    rw [given] at base
    exact claimJob_entities.trans base

@[simp] theorem persistResult_entities {s : Snapshot} : (db.persistResult env model s now).entities = db.entities := by
  rcases persistResult_cases env model db s now with same | ⟨e, _, ⟨_, _, stale⟩ | ⟨_, ⟨_, stored⟩ | ⟨_, stored⟩ | ⟨_, stored⟩⟩⟩
  · rw [same]
  · rw [stale]
    rfl
  all_goals rw [stored]; rfl

theorem retry_entities {jobId : JobId} {error : String} {dueFrom : Instant}
    (retried : db.retryEmbeddingJob jobId error now dueFrom = some U) : U.entities = db.entities := by
  rcases db.retryEmbeddingJob_cases jobId error now dueFrom with same | ⟨j, _, _, ⟨_, failed⟩ | ⟨_, postponed⟩⟩
  · obtain rfl := Option.some.inj (same.symm.trans retried)
    rfl
  · obtain rfl := Option.some.inj (failed.symm.trans retried)
    rfl
  · obtain ⟨delay, _, rfl⟩ := Option.map_eq_some_iff.mp (postponed.symm.trans retried)
    rfl

end EmbeddingDb

/-! ### The runs -/

namespace EmbeddingSystem

variable {env : Env} {ν : Type} {model : EmbeddingModel ν} {s : EmbeddingSystem ν}

/-- What a report writes, where its worker is still there. -/
theorem report_cases (s : EmbeddingSystem ν) (k : Nat) (f : Snapshot → EmbeddingDb ν) :
    s.report k f = s ∨ ∃ c, s.claims[k]? = some c ∧ c.reported = false ∧
      s.report k f = ⟨f c.snapshot, s.claims.modify k fun c => { c with reported := true }⟩ := by
  unfold report
  cases holder : s.worker k with
  | none => exact .inl rfl
  | some snapshot =>
    obtain ⟨c, found, rfl⟩ := Option.map_eq_some_iff.mp holder
    obtain ⟨there, waiting⟩ := Option.filter_eq_some_iff.mp found
    exact .inr ⟨c, there, by simpa using waiting, rfl⟩

theorem report_entities {k : Nat} {f : Snapshot → EmbeddingDb ν} (same : ∀ snapshot, (f snapshot).entities = s.db.entities) :
    (s.report k f).db.entities = s.db.entities := by
  rcases s.report_cases k f with kept | ⟨c, _, _, reported⟩
  · rw [kept]
  · rw [reported]
    exact same c.snapshot

theorem next_memories (env : Env) (model : EmbeddingModel ν) (s : EmbeddingSystem ν) (step : EmbeddingStep) :
    MemoriesKept s.db.entities (s.next env model step).db.entities := by
  have refused : ∀ {o : Option (EmbeddingDb ν)}, (∀ U, o = some U → MemoriesKept s.db.entities U.entities) →
      MemoriesKept s.db.entities (o.getD s.db).entities := by
    intro o committed
    cases o with
    | none => exact .refl _
    | some U => exact committed U rfl
  cases step with
  | store p drawn copyDrawn now core => exact refused fun U stored => storeRaw_memories stored
  | replace plan drawn core => exact refused fun U replaced => replace_memories replaced
  | consolidate items now => exact refused fun U merged => consolidate_memories merged
  | archive id now => exact archive_memories
  | reconcile limit afterId now =>
    show MemoriesKept _ (s.db.reconcileEmbeddingJobs env limit afterId now).1.entities
    rw [reconcileEmbeddingJobs_entities]
    exact .refl _
  | reconcileRetrieval limit afterId now =>
    show MemoriesKept _ (s.db.reconcileRetrievalEmbeddingJobs env limit afterId now).1.entities
    rw [reconcileRetrievalEmbeddingJobs_entities]
    exact .refl _
  | claim now leaseFrom =>
    show MemoriesKept _ (s.db.claimAnyEmbeddingJob env env.uuid4 now leaseFrom).1.entities
    rw [claimAny_entities]
    exact .refl _
  | persist k now =>
    show MemoriesKept _ (s.report k _).db.entities
    rw [report_entities fun snapshot => persistResult_entities]
    exact .refl _
  | fail k error now dueFrom =>
    show MemoriesKept _ (s.report k _).db.entities
    rw [report_entities fun snapshot => ?_]
    · exact .refl _
    · cases retried : s.db.retryEmbeddingJob snapshot.id error now dueFrom with
      | none => rfl
      | some U => exact retry_entities retried

end EmbeddingSystem
end SaltMdb
