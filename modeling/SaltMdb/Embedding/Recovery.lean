import SaltMdb.Embedding.Machine
import SaltMdb.Embedding.Memories

/-! The recovery closes every gap, and finds none the second time. -/

namespace SaltMdb
namespace EmbeddingDb

variable {env : Env} {ν : Type} {db : EmbeddingDb ν} {now : Instant} {id : EntityId} {key other : JobKey} {T : JobTable}
  {clock : EntityId → Instant} {e a : Entity}

/-! ### A source with its job -/

/-- The source has a job, and no live job of the memory and the kind is of another source. -/
structure KeySettled (T : JobTable) (key : JobKey) : Prop where
  queued : ∃ j ∈ T.rows, j.key = key
  current : ∀ j ∈ T.rows, staleJob key j = false

theorem staleJob_iff {j : Job} : staleJob key j = true ↔
    j.key.entityId = key.entityId ∧ j.key.kind = key.kind ∧ j.state.live = true ∧ j.key.sourceHash ≠ key.sourceHash := by
  simp only [staleJob, liveJobOf, Bool.and_eq_true, beq_iff_eq, bne_iff_ne, and_assoc]

theorem KeySettled.update {sel : Job → Bool} {f : JobColumns → JobColumns} (settled : KeySettled T key)
    (ends : ∀ c, (f c).state.live = false) : KeySettled (T.updateWhere sel f) key := by
  constructor
  · obtain ⟨j, here, same⟩ := settled.queued
    exact ⟨j.setIf sel f, JobTable.mem_updateWhere.mpr ⟨j, here, rfl⟩, by simpa using same⟩
  · intro j' there
    obtain ⟨j, here, rfl⟩ := JobTable.mem_updateWhere.mp there
    by_contra stale
    obtain ⟨entity, kind, live, differs⟩ := staleJob_iff.mp (Bool.eq_true_of_not_eq_false stale)
    cases selected : sel j with
    | true =>
      rw [Job.setIf_of f selected] at live
      simp [ends] at live
    | false =>
      rw [Job.setIf_of_not f selected] at stale
      exact stale (settled.current j here)

/-- A row for a source of another memory or kind, or for this one. -/
theorem KeySettled.queueMissing (settled : KeySettled T key)
    (apart : other.entityId = key.entityId → other.kind = key.kind → other.sourceHash = key.sourceHash) :
    KeySettled (T.queueMissing other now) key := by
  unfold JobTable.queueMissing
  split
  · constructor
    · obtain ⟨j, here, same⟩ := settled.queued
      exact ⟨j, JobTable.mem_insert.mpr (.inl here), same⟩
    · intro j there
      rcases JobTable.mem_insert.mp there with old | rfl
      · exact settled.current j old
      · by_contra stale
        obtain ⟨entity, kind, _, differs⟩ := staleJob_iff.mp (Bool.eq_true_of_not_eq_false stale)
        exact differs (apart entity kind)
  · exact settled

/-- The stale jobs are cancelled, and the source is queued where it was not. -/
theorem keySettled_of_update {f : JobColumns → JobColumns} (ends : ∀ c, (f c).state.live = false) :
    KeySettled ((T.updateWhere (staleJob key) f).queueMissing key now) key := by
  have current : ∀ j ∈ (T.updateWhere (staleJob key) f).rows, staleJob key j = false := by
    intro j' there
    obtain ⟨j, here, rfl⟩ := JobTable.mem_updateWhere.mp there
    cases selected : staleJob key j with
    | true =>
      by_contra stale
      obtain ⟨_, _, live, _⟩ := staleJob_iff.mp (Bool.eq_true_of_not_eq_false stale)
      rw [Job.setIf_of f selected] at live
      simp [ends] at live
    | false => rw [Job.setIf_of_not f selected, selected]
  unfold JobTable.queueMissing
  split
  · refine ⟨⟨_, JobTable.mem_insert.mpr (.inr rfl), rfl⟩, fun j there => ?_⟩
    rcases JobTable.mem_insert.mp there with old | rfl
    · exact current j old
    · simp [staleJob]
  · rename_i taken
    obtain ⟨j, found⟩ := Option.ne_none_iff_exists'.mp taken
    obtain ⟨here, same⟩ := JobTable.findKey_some found
    exact ⟨⟨j, here, same⟩, current⟩

/-- Where the source is settled, nothing is written. -/
theorem KeySettled.idle (settled : KeySettled T key) (f : JobColumns → JobColumns) (now : Instant) :
    (T.updateWhere (staleJob key) f).queueMissing key now = T ∧ T.rows.any (staleJob key) = false ∧
      ((T.updateWhere (staleJob key) f).findKey key).isNone = false := by
  obtain ⟨j, here, same⟩ := settled.queued
  have found : T.findKey key = some j := same ▸ JobTable.findKey_mem here
  rw [JobTable.updateWhere_of_none settled.current]
  refine ⟨?_, by simpa using settled.current, by simp [found]⟩
  unfold JobTable.queueMissing
  rw [dif_neg (by simp [found])]

/-! ### A memory with its jobs -/

/-- The base jobs of a memory: those without a content hash have none. -/
def BaseSettled (env : Env) (T : JobTable) (e : Entity) : Prop :=
  e.contentHash ≠ "" → ∀ key ∈ baseKeys env e.id e.title e.fullContent e.contentHash, KeySettled T key

theorem mem_baseKeys {title content contentHash : String} : key ∈ baseKeys env id title content contentHash ↔
    key = ⟨id, .entity, env.entitySourceHash title content⟩ ∨ key = ⟨id, .chunk, contentHash⟩ := by
  simp [baseKeys]

theorem BaseSettled.idle (settled : BaseSettled env db.jobs e) : reconcileEntity env clock db e = db := by
  unfold reconcileEntity
  split
  · rfl
  · rename_i hashed
    have entity := settled hashed _ (mem_baseKeys.mpr (.inl rfl))
    have chunk := settled hashed _ (mem_baseKeys.mpr (.inr rfl))
    have first : enqueueKind db.jobs ⟨e.id, .entity, env.entitySourceHash e.title e.fullContent⟩ (clock e.id) false =
        (db.jobs, false) := by
      obtain ⟨table, stale, found⟩ := entity.idle (cancelled (clock e.id)) (clock e.id)
      simp only [enqueueKind, Bool.false_eq_true, if_false, table, stale, found, Bool.or_self]
    have second : enqueueKind db.jobs ⟨e.id, .chunk, e.contentHash⟩ (clock e.id) false = (db.jobs, false) := by
      obtain ⟨table, stale, found⟩ := chunk.idle (cancelled (clock e.id)) (clock e.id)
      simp only [enqueueKind, Bool.false_eq_true, if_false, table, stale, found, Bool.or_self]
    simp only [enqueueEmbeddingJobsForEntity, first, second, Bool.or_self, Bool.false_eq_true, if_false]

theorem reconcileEntity_jobs : (reconcileEntity env clock db e).jobs = if e.contentHash = "" then db.jobs else
    ((((db.jobs.updateWhere (staleJob ⟨e.id, .entity, env.entitySourceHash e.title e.fullContent⟩) (cancelled (clock e.id))).queueMissing
      ⟨e.id, .entity, env.entitySourceHash e.title e.fullContent⟩ (clock e.id)).updateWhere
        (staleJob ⟨e.id, .chunk, e.contentHash⟩) (cancelled (clock e.id))).queueMissing ⟨e.id, .chunk, e.contentHash⟩ (clock e.id)) := by
  unfold reconcileEntity
  split <;> simp

theorem reconcileEntity_settles : BaseSettled env (reconcileEntity env clock db e).jobs e := by
  intro hashed key listed
  rw [reconcileEntity_jobs, if_neg hashed]
  rcases mem_baseKeys.mp listed with rfl | rfl
  · exact ((keySettled_of_update (cancelled_ends _)).update (cancelled_ends _)).queueMissing (by simp)
  · exact keySettled_of_update (cancelled_ends _)

theorem BaseSettled.reconcileEntity (settled : BaseSettled env db.jobs e) (apart : a.id ≠ e.id) :
    BaseSettled env (reconcileEntity env clock db a).jobs e := by
  intro hashed key listed
  have before := settled hashed key listed
  have own : key.entityId = e.id := by rcases mem_baseKeys.mp listed with rfl | rfl <;> rfl
  rw [reconcileEntity_jobs]
  split
  · exact before
  · refine KeySettled.queueMissing (.update (.queueMissing (.update before (cancelled_ends _)) ?_) (cancelled_ends _)) ?_
    · exact fun same => absurd (same.trans own) apart
    · exact fun same => absurd (same.trans own) apart

/-! ### A retrieval text with its job -/

/-- A text has its job, and a vector only where that job has succeeded; without a text there is neither. -/
def RetrievalSettled (env : Env) (db : EmbeddingDb ν) (e : Entity) : Prop :=
  match (retrievalHash env e.retrievalText).filter (· ≠ "") with
  | some hash => KeySettled db.jobs ⟨e.id, .retrieval, hash⟩ ∧
      ((∃ j ∈ db.jobs.rows, j.key = ⟨e.id, .retrieval, hash⟩ ∧ j.state = .succeeded) ∨
        ∀ v ∈ db.retrievalEmbeddings, v.entityId ≠ e.id)
  | none => (∀ j ∈ db.jobs.rows, liveJobOf e.id (· == .retrieval) j = false) ∧ ∀ v ∈ db.retrievalEmbeddings, v.entityId ≠ e.id

theorem deleteRetrievalEmbedding_of_none (none_ : ∀ v ∈ db.retrievalEmbeddings, v.entityId ≠ id) :
    db.deleteRetrievalEmbedding id = db := by
  have same : db.retrievalEmbeddings.filter (·.entityId != id) = db.retrievalEmbeddings :=
    List.filter_eq_self.mpr fun v here => by simpa using none_ v here
  unfold deleteRetrievalEmbedding
  rw [same]

theorem setJobs_of_same {f : JobTable → JobTable} (same : f db.jobs = db.jobs) : db.setJobs f = db := by
  unfold setJobs
  rw [same]

theorem preservedSucceeded_iff : db.preservedSucceeded key = true ↔ ∃ j ∈ db.jobs.rows, j.key = key ∧ j.state = .succeeded := by
  unfold preservedSucceeded
  constructor
  · intro preserved
    cases found : db.jobs.findKey key with
    | none => simp [found] at preserved
    | some j =>
      obtain ⟨here, same⟩ := JobTable.findKey_some found
      exact ⟨j, here, same, by simpa [found] using preserved⟩
  · rintro ⟨j, here, rfl, state⟩
    rw [JobTable.findKey_mem here]
    simp [state]

theorem enqueueRetrievalKey_idle (settled : KeySettled db.jobs key)
    (kept : (∃ j ∈ db.jobs.rows, j.key = key ∧ j.state = .succeeded) ∨ ∀ v ∈ db.retrievalEmbeddings, v.entityId ≠ key.entityId) :
    (db.enqueueRetrievalKey key now false).1 = db := by
  obtain ⟨table, _, _⟩ := settled.idle (released now) now
  have same : db.setJobs (·.updateWhere (staleJob key) (released now)) = db :=
    setJobs_of_same (JobTable.updateWhere_of_none settled.current)
  have cleared : (if false || !db.preservedSucceeded key then db.deleteRetrievalEmbedding key.entityId else db) = db := by
    rcases kept with succeeded | none_
    · rw [preservedSucceeded_iff.mpr succeeded]
      rfl
    · rw [deleteRetrievalEmbedding_of_none none_]
      split <;> rfl
  unfold enqueueRetrievalKey
  simp only [same, cleared, Bool.false_eq_true, if_false]
  refine setJobs_of_same ?_
  rwa [JobTable.updateWhere_of_none settled.current] at table

theorem RetrievalSettled.idle (settled : RetrievalSettled env db e) : reconcileRetrieval env clock db e = db := by
  unfold reconcileRetrieval
  rw [enqueueRetrieval_eq]
  unfold RetrievalSettled at settled
  cases hashed : (retrievalHash env e.retrievalText).filter (· ≠ "") with
  | some hash =>
    rw [hashed] at settled
    exact enqueueRetrievalKey_idle settled.1 settled.2
  | none =>
    rw [hashed] at settled
    show (db.setJobs _).deleteRetrievalEmbedding e.id = db
    rw [setJobs_of_same (JobTable.updateWhere_of_none settled.1), deleteRetrievalEmbedding_of_none settled.2]

theorem mem_deleteRetrievalEmbedding {v : RetrievalEmbedding ν} :
    v ∈ (db.deleteRetrievalEmbedding id).retrievalEmbeddings ↔ v ∈ db.retrievalEmbeddings ∧ v.entityId ≠ id := by
  simp [deleteRetrievalEmbedding]

/-- The vectors that an enqueue leaves: the memory's own only where it keeps a job that has succeeded. -/
theorem enqueueRetrievalKey_vectors {force : Bool} : (db.enqueueRetrievalKey key now force).1.retrievalEmbeddings =
    if force || !db.preservedSucceeded key then (db.deleteRetrievalEmbedding key.entityId).retrievalEmbeddings
    else db.retrievalEmbeddings := by
  unfold enqueueRetrievalKey
  cases force <;> simp only [Bool.false_eq_true, if_false, if_true] <;> split <;> rfl

/-- A row that is in no live state is not among those that a statement on live rows selects. -/
theorem succeeded_stays {sel : Job → Bool} {f : JobColumns → JobColumns} (live : ∀ j, sel j = true → j.state.live = true)
    (succeeded : ∃ j ∈ T.rows, j.key = key ∧ j.state = .succeeded) :
    ∃ j ∈ (T.updateWhere sel f).rows, j.key = key ∧ j.state = .succeeded := by
  obtain ⟨j, here, same, state⟩ := succeeded
  have other : sel j = false := by
    by_contra selected
    have running := live j (Bool.eq_true_of_not_eq_false selected)
    simp [state, JobState.live] at running
  exact ⟨j, JobTable.mem_updateWhere.mpr ⟨j, here, Job.setIf_of_not f other⟩, same, state⟩

theorem queueMissing_stays {P : Job → Prop} (there : ∃ j ∈ T.rows, P j) : ∃ j ∈ (T.queueMissing other now).rows, P j := by
  obtain ⟨j, here, holds⟩ := there
  unfold JobTable.queueMissing
  split
  · exact ⟨j, JobTable.mem_insert.mpr (.inl here), holds⟩
  · exact ⟨j, here, holds⟩

theorem staleJob_live {j : Job} (stale : staleJob key j = true) : j.state.live = true := (staleJob_iff.mp stale).2.2.1

theorem reconcileRetrieval_settles : RetrievalSettled env (reconcileRetrieval env clock db e) e := by
  unfold reconcileRetrieval RetrievalSettled
  rw [enqueueRetrieval_eq]
  cases hashed : (retrievalHash env e.retrievalText).filter (· ≠ "") with
  | some hash =>
    dsimp only
    rw [enqueueRetrievalKey_jobs, if_neg Bool.false_ne_true]
    refine ⟨keySettled_of_update (released_ends _), ?_⟩
    rw [enqueueRetrievalKey_vectors]
    cases preserved : db.preservedSucceeded ⟨e.id, .retrieval, hash⟩ with
    | true => exact .inl (queueMissing_stays (succeeded_stays (fun j => staleJob_live) (preservedSucceeded_iff.mp preserved)))
    | false => exact .inr fun v there => (mem_deleteRetrievalEmbedding.mp there).2
  | none =>
    dsimp only
    refine ⟨?_, fun v there => (mem_deleteRetrievalEmbedding.mp there).2⟩
    rw [cancelRetrievalEmbeddingJobsForEntity_jobs]
    intro j' there
    obtain ⟨j, here, rfl⟩ := JobTable.mem_updateWhere.mp there
    cases selected : liveJobOf e.id (· == .retrieval) j with
    | true =>
      rw [Job.setIf_of _ selected]
      simp [liveJobOf, released, cancelled, JobState.live]
    | false => rw [Job.setIf_of_not _ selected, selected]

/-! ### What a turn leaves of the others -/

theorem liveJobOf_ended {kinds : JobKind → Bool} {sel : Job → Bool} {f : JobColumns → JobColumns} (ends : ∀ c, (f c).state.live = false)
    (none_ : ∀ j ∈ T.rows, liveJobOf id kinds j = false) : ∀ j ∈ (T.updateWhere sel f).rows, liveJobOf id kinds j = false := by
  intro j' there
  obtain ⟨j, here, rfl⟩ := JobTable.mem_updateWhere.mp there
  cases selected : sel j with
  | true =>
    rw [Job.setIf_of _ selected]
    simp [liveJobOf, ends]
  | false =>
    rw [Job.setIf_of_not _ selected]
    exact none_ j here

theorem liveJobOf_queueMissing {kinds : JobKind → Bool} (apart : key.entityId ≠ id)
    (none_ : ∀ j ∈ T.rows, liveJobOf id kinds j = false) : ∀ j ∈ (T.queueMissing key now).rows, liveJobOf id kinds j = false := by
  unfold JobTable.queueMissing
  split
  · intro j there
    rcases JobTable.mem_insert.mp there with old | rfl
    · exact none_ j old
    · simp [liveJobOf, apart]
  · exact none_

theorem BaseSettled.reconcileRetrieval (settled : BaseSettled env db.jobs e) :
    BaseSettled env (reconcileRetrieval env clock db a).jobs e := by
  intro hashed key listed
  have before := settled hashed key listed
  have base : key.kind ≠ .retrieval := by rcases mem_baseKeys.mp listed with rfl | rfl <;> simp
  unfold EmbeddingDb.reconcileRetrieval
  rw [enqueueRetrieval_eq]
  split
  · rw [enqueueRetrievalKey_jobs, if_neg Bool.false_ne_true]
    exact (before.update (released_ends _)).queueMissing fun _ kind => absurd kind.symm base
  · rw [cancelRetrievalEmbeddingJobsForEntity_jobs]
    exact before.update (released_ends _)

theorem RetrievalSettled.reconcileRetrieval (settled : RetrievalSettled env db e) (apart : a.id ≠ e.id) :
    RetrievalSettled env (reconcileRetrieval env clock db a) e := by
  have vectors : ∀ v ∈ (EmbeddingDb.reconcileRetrieval env clock db a).retrievalEmbeddings, v ∈ db.retrievalEmbeddings := by
    unfold EmbeddingDb.reconcileRetrieval
    rw [enqueueRetrieval_eq]
    split
    · rw [enqueueRetrievalKey_vectors]
      split
      · exact fun v there => (mem_deleteRetrievalEmbedding.mp there).1
      · exact fun v there => there
    · exact fun v there => (mem_deleteRetrievalEmbedding.mp there).1
  unfold RetrievalSettled at settled ⊢
  cases hashed : (retrievalHash env e.retrievalText).filter (· ≠ "") with
  | some hash =>
    rw [hashed] at settled
    obtain ⟨before, kept⟩ := settled
    refine ⟨?_, kept.imp (fun succeeded => ?_) fun none_ v there => none_ v (vectors v there)⟩
    · unfold EmbeddingDb.reconcileRetrieval
      rw [enqueueRetrieval_eq]
      split
      · rw [enqueueRetrievalKey_jobs, if_neg Bool.false_ne_true]
        exact (before.update (released_ends _)).queueMissing fun same => absurd same apart
      · rw [cancelRetrievalEmbeddingJobsForEntity_jobs]
        exact before.update (released_ends _)
    · unfold EmbeddingDb.reconcileRetrieval
      rw [enqueueRetrieval_eq]
      split
      · rw [enqueueRetrievalKey_jobs, if_neg Bool.false_ne_true]
        exact queueMissing_stays (succeeded_stays (fun j => staleJob_live) succeeded)
      · rw [cancelRetrievalEmbeddingJobsForEntity_jobs]
        exact succeeded_stays (fun j live => (Bool.and_eq_true_iff.mp live).2) succeeded
  | none =>
    rw [hashed] at settled
    refine ⟨?_, fun v there => settled.2 v (vectors v there)⟩
    unfold EmbeddingDb.reconcileRetrieval
    rw [enqueueRetrieval_eq]
    split
    · rw [enqueueRetrievalKey_jobs, if_neg Bool.false_ne_true]
      exact liveJobOf_queueMissing apart (liveJobOf_ended (released_ends _) settled.1)
    · rw [cancelRetrievalEmbeddingJobsForEntity_jobs]
      exact liveJobOf_ended (released_ends _) settled.1

/-! ### The loops -/

/-- No memory has the empty id, which the paging takes for none. -/
def Named (db : EmbeddingDb ν) : Prop := ∀ e ∈ db.entities.rows, e.id ≠ ""

theorem mem_selected {sel : Entity → Bool} : e ∈ db.selected sel ↔ e ∈ db.entities.rows ∧ sel e = true := by
  rw [selected, List.mem_filter, Paging.mem_inOrder]

theorem selected_pairwise (sel : Entity → Bool) : (db.selected sel).Pairwise fun a b => a.id < b.id :=
  (Paging.inOrder_pairwise db.entities.distinct).filter _

theorem page_of_split {sel : Entity → Bool} {limit : Nat} {done rest : List Entity} (named : db.Named)
    (split : db.selected sel = done ++ rest) : db.page limit (done.getLast?.map (·.id)) sel = rest.take limit := by
  have last : (done.getLast?.map Entity.id).filter (· ≠ "") = done.getLast?.map Entity.id := by
    cases ends : done.getLast? with
    | none => rfl
    | some e =>
      have member : e ∈ db.selected sel := split ▸ List.mem_append_left _ (List.mem_of_getLast? ends)
      simp [Option.filter, named e (mem_selected.mp member).1]
  unfold page
  rw [last, split]
  exact Paging.page_of_split (split ▸ db.selected_pairwise sel)

/-- A loop over the selected memories ends, each of them had its turn, and what a turn settles stays so. -/
theorem sweep_settles (sel : Entity → Bool) (turn : Nat → EmbeddingDb ν → Entity → EmbeddingDb ν) {limit : Nat}
    (positive : 0 < limit) (named : db.Named) (Settled : EmbeddingDb ν → Entity → Prop) (Kept : EmbeddingDb ν → Prop)
    (entities : ∀ n db a, (turn n db a).entities = db.entities) (settles : ∀ n db a, Settled (turn n db a) a)
    (stays : ∀ n db a e, a.id ≠ e.id → Settled db e → Settled (turn n db a) e)
    (keeps : ∀ n (d : EmbeddingDb ν) a, a ∈ d.selected sel → Kept d → Kept (turn n d a))
    (kept : Kept db) : ∃ t, (∀ fuel, (db.selected sel).length < fuel →
        Paging.sweep (Paging.pageTurn Entity.id turn fun afterId d => d.page limit afterId sel) fuel 0 none db =
          some (t, (db.selected sel).length)) ∧
      (∀ e ∈ db.selected sel, Settled t e) ∧ Kept t ∧ t.entities = db.entities := by
  let I : List Entity → EmbeddingDb ν → Prop := fun done d => d.entities = db.entities ∧ (∀ e ∈ done, Settled d e) ∧ Kept d
  have listed : ∀ n (d : EmbeddingDb ν) a, (turn n d a).selected sel = d.selected sel := fun n d a => by
    simp only [selected, entities]
  have pages : ∀ done rest (d : EmbeddingDb ν), d.selected sel = done ++ rest → I done d →
      d.page limit (done.getLast?.map Entity.id) sel = rest.take limit := by
    rintro done rest d split ⟨same, _, _⟩
    refine page_of_split (fun e member => ?_) split
    exact named e (same ▸ member)
  have each : ∀ n done a rest (d : EmbeddingDb ν), d.selected sel = done ++ a :: rest → I done d → I (done ++ [a]) (turn n d a) := by
    rintro n done a rest d split ⟨same, settled, here⟩
    refine ⟨(entities n d a).trans same, fun e member => ?_, keeps n d a (split ▸ by simp) here⟩
    have sorted := split ▸ d.selected_pairwise sel
    rcases List.mem_append.mp member with old | new
    · refine stays n d a e ?_ (settled e old)
      have before := (List.pairwise_append.mp sorted).2.2 e old a List.mem_cons_self
      exact (ne_of_lt before).symm
    · obtain rfl := List.mem_singleton.mp new
      exact settles n d e
  have start : I [] db := ⟨rfl, by simp, kept⟩
  obtain ⟨t, ends, ⟨same, settled, final⟩, _⟩ := Paging.sweep_visits (n := 0) Entity.id (fun afterId d => d.page limit afterId sel)
    positive listed pages each
    (show db.selected sel = [] ++ db.selected sel from rfl) start
  exact ⟨t, ends, settled, final, same⟩

theorem mem_live {sel : Entity → Bool} {t : EmbeddingDb ν} (same : t.entities = db.entities) :
    e ∈ t.selected sel ↔ e ∈ db.selected sel := by
  rw [mem_selected, mem_selected, same]

theorem selected_length {sel : Entity → Bool} : (db.selected sel).length ≤ db.entities.rows.length := by
  have filtered := List.length_filter_le sel (Paging.inOrder Entity.id db.entities.rows)
  rwa [Paging.inOrder, List.length_mergeSort] at filtered

variable (env) in
/-- Both loops end, and leave every active memory with its jobs. -/
theorem reconcileAll_settles {pageSize : Nat} (positive : 0 < pageSize) (named : db.Named) (now later : Nat → EntityId → Instant)
    (Kept : EmbeddingDb ν → Prop)
    (base : ∀ n d a, a ∈ d.selected Entity.live → Kept d → Kept (EmbeddingDb.reconcileEntity env (now n) d a))
    (retrieval : ∀ n d a, a ∈ d.selected (hasRetrieval env) → Kept d → Kept (EmbeddingDb.reconcileRetrieval env (later n) d a))
    (kept : Kept db) :
    ∃ t, (∀ fuel, db.entities.rows.length < fuel → db.reconcileAllEmbeddingJobs env pageSize now later fuel =
        some (t, (db.selected Entity.live).length, (db.selected (hasRetrieval env)).length)) ∧ t.entities = db.entities ∧
      (∀ e ∈ db.selected Entity.live, BaseSettled env t.jobs e) ∧ (∀ e ∈ db.selected (hasRetrieval env), RetrievalSettled env t e) ∧
      Kept t := by
  obtain ⟨repaired, first, settled, kept, entities⟩ := sweep_settles Entity.live
    (fun n d e => EmbeddingDb.reconcileEntity env (now n) d e) positive named (fun d e => BaseSettled env d.jobs e) Kept
    (fun _ _ _ => reconcileEntity_entities) (fun _ _ _ => reconcileEntity_settles)
    (fun _ _ _ _ apart settled => settled.reconcileEntity apart) base kept
  have named' : repaired.Named := fun e member => named e (entities ▸ member)
  obtain ⟨t, second, settled', ⟨kept, settled⟩, entities'⟩ := sweep_settles (hasRetrieval env)
    (fun n d e => EmbeddingDb.reconcileRetrieval env (later n) d e) positive named' (fun d e => RetrievalSettled env d e)
    (fun d => Kept d ∧ ∀ e ∈ db.selected Entity.live, BaseSettled env d.jobs e)
    (fun _ _ _ => reconcileRetrieval_entities) (fun _ _ _ => reconcileRetrieval_settles)
    (fun _ _ _ _ apart settled => settled.reconcileRetrieval apart)
    (fun n d a selected both => ⟨retrieval n d a selected both.1, fun e member => (both.2 e member).reconcileRetrieval⟩)
    ⟨kept, settled⟩
  have selected : repaired.selected (hasRetrieval env) = db.selected (hasRetrieval env) := by
    simp only [EmbeddingDb.selected, entities]
  rw [selected] at second settled'
  refine ⟨t, fun fuel enough => ?_, entities'.trans entities, settled, settled', kept⟩
  have one := first fuel (Nat.lt_of_le_of_lt selected_length enough)
  have two := second fuel (Nat.lt_of_le_of_lt selected_length enough)
  unfold reconcileAllEmbeddingJobs
  rw [show Paging.sweep (fun turn afterId (d : EmbeddingDb ν) => d.reconcileEmbeddingJobs env pageSize afterId (now turn)) fuel 0 none db =
    _ from one, Option.bind_eq_bind, Option.bind_some]
  dsimp only
  rw [show Paging.sweep (fun turn afterId (d : EmbeddingDb ν) => d.reconcileRetrievalEmbeddingJobs env pageSize afterId (later turn))
    fuel 0 none repaired = _ from two]
  rfl

/-! ### After the loops -/

/-- Every active memory has its jobs. -/
structure Recovered (env : Env) (db : EmbeddingDb ν) : Prop where
  base : ∀ e ∈ db.entities.rows, e.live = true → BaseSettled env db.jobs e
  retrieval : ∀ e ∈ db.entities.rows, hasRetrieval env e = true → RetrievalSettled env db e

theorem KeySettled.found (settled : KeySettled T key) : (T.findKey key).isNone = false := by
  obtain ⟨j, here, rfl⟩ := settled.queued
  rw [JobTable.findKey_mem here]
  rfl

theorem Recovered.gap_none (recovered : Recovered env db) (here : e ∈ db.entities.rows) : db.recoveryGap env e = false := by
  unfold recoveryGap
  cases live : e.live with
  | false => rfl
  | true =>
    have base : e.contentHash ≠ "" → (db.jobs.findKey ⟨e.id, .chunk, e.contentHash⟩).isNone = false ∧
        db.jobs.rows.any (fun j => j.key.entityId == e.id && j.key.kind == .entity) = true := by
      intro hashed
      have settled := recovered.base e here live hashed
      obtain ⟨j, queued, same⟩ := (settled _ (mem_baseKeys.mpr (.inl rfl))).queued
      refine ⟨(settled _ (mem_baseKeys.mpr (.inr rfl))).found, List.any_eq_true.mpr ⟨j, queued, ?_⟩⟩
      simp [same]
    have retrieval : ∀ hash, (retrievalHash env e.retrievalText).filter (· ≠ "") = some hash →
        (db.jobs.findKey ⟨e.id, .retrieval, hash⟩).isNone = false := by
      intro hash hashed
      have given : hasRetrieval env e = true := by
        obtain ⟨some_, _⟩ := Option.filter_eq_some_iff.mp hashed
        cases text : e.retrievalText with
        | none => simp [text, retrievalHash] at some_
        | some t =>
          rw [text] at some_
          simp [hasRetrieval, live, text, some_]
      have settled := recovered.retrieval e here given
      unfold RetrievalSettled at settled
      rw [hashed] at settled
      exact settled.1.found
    have third : (((retrievalHash env e.retrievalText).filter (· ≠ "")).any fun hash =>
        (db.jobs.findKey ⟨e.id, .retrieval, hash⟩).isNone) = false := by
      cases hashed : (retrievalHash env e.retrievalText).filter (· ≠ "") with
      | none => rfl
      | some hash => exact retrieval hash hashed
    rw [third]
    by_cases hashed : e.contentHash = ""
    · simp [hashed]
    · obtain ⟨chunk, entity⟩ := base hashed
      rw [chunk, entity]
      simp

theorem Recovered.gapCount (recovered : Recovered env db) : db.embeddingRecoveryGapCount env = 0 := by
  unfold embeddingRecoveryGapCount
  rw [List.length_eq_zero_iff, List.filter_eq_nil_iff]
  intro e here
  simp [recovered.gap_none here]

/-- A recovered database is left as it is. -/
theorem Recovered.again {pageSize : Nat} (recovered : Recovered env db) (positive : 0 < pageSize) (named : db.Named)
    (now later : Nat → EntityId → Instant) {fuel : Nat} (enough : db.entities.rows.length < fuel) :
    db.reconcileAllEmbeddingJobs env pageSize now later fuel =
      some (db, (db.selected Entity.live).length, (db.selected (hasRetrieval env)).length) := by
  obtain ⟨t, ends, _, _, _, same⟩ := reconcileAll_settles env positive named now later (· = db)
    (fun n d a selected same => by
      rw [same] at selected ⊢
      obtain ⟨here, live⟩ := mem_selected.mp selected
      exact (recovered.base a here live).idle)
    (fun n d a selected same => by
      rw [same] at selected ⊢
      obtain ⟨here, given⟩ := mem_selected.mp selected
      exact (recovered.retrieval a here given).idle)
    rfl
  rw [ends fuel enough, same]

/-- The recovery of any database without an empty id. -/
theorem reconcileAll_recovers {pageSize : Nat} (positive : 0 < pageSize) (named : db.Named) (now later : Nat → EntityId → Instant) :
    ∃ t seen, (∀ fuel, db.entities.rows.length < fuel → db.reconcileAllEmbeddingJobs env pageSize now later fuel = some (t, seen)) ∧
      t.entities = db.entities ∧ Recovered env t := by
  obtain ⟨t, ends, entities, base, retrieval, _⟩ := reconcileAll_settles env positive named now later (fun _ => True)
    (fun _ _ _ _ _ => trivial) (fun _ _ _ _ _ => trivial) trivial
  refine ⟨t, _, ends, entities, fun e here live => ?_, fun e here given => ?_⟩
  · exact base e (mem_selected.mpr ⟨entities ▸ here, live⟩)
  · exact retrieval e (mem_selected.mpr ⟨entities ▸ here, given⟩)

end EmbeddingDb

namespace EmbeddingSystem

/-- What a recovery of a state does: it ends, no gap is left, and the next one, whenever it runs, changes nothing. -/
def Recovers (env : Env) (s : EmbeddingSystem ν) (pageSize : Nat) (now later : Nat → EntityId → Instant) : Prop :=
  ∃ t seen, (∀ fuel, s.db.entities.rows.length < fuel →
      s.db.reconcileAllEmbeddingJobs env pageSize now later fuel = some (t, seen)) ∧
    t.embeddingRecoveryGapCount env = 0 ∧
    ∀ pageSize, 0 < pageSize → ∀ now later fuel, t.entities.rows.length < fuel →
      ∃ seen, t.reconcileAllEmbeddingJobs env pageSize now later fuel = some (t, seen)

theorem recovers_of_named {s : EmbeddingSystem ν} (named : s.db.Named) {pageSize : Nat} (positive : 0 < pageSize)
    (now later : Nat → EntityId → Instant) : s.Recovers env pageSize now later := by
  obtain ⟨t, seen, ends, entities, recovered⟩ := EmbeddingDb.reconcileAll_recovers positive named now later
  have named' : t.Named := fun e member => named e (entities ▸ member)
  exact ⟨t, seen, ends, recovered.gapCount, fun size positive now later fuel enough =>
    ⟨_, recovered.again positive named' now later enough⟩⟩

/-- In every state that the services, the workers and earlier recoveries lead to, the recovery ends, closes every gap, and leaves
nothing to the next one. -/
theorem reconcileAll_closes (env : Env) (model : EmbeddingModel ν) (entities : EntityTable)
    (embeddingStatus : EntityId → EmbeddingStatus) (named : ∀ e ∈ entities.rows, e.id ≠ "") (steps : List EmbeddingStep) :
    ∀ s ∈ Runs.states (next env model) steps (initial entities embeddingStatus), ∀ pageSize, 0 < pageSize →
      ∀ now later, s.Recovers env pageSize now later := by
  intro s reached pageSize positive now later
  have start : (initial (ν := ν) entities embeddingStatus).db.Named := named
  have kept : s.db.Named := Runs.invariant (P := fun s : EmbeddingSystem ν => s.db.Named)
    (fun s step here => (next_memories env model s step).named here) start s reached
  exact recovers_of_named kept positive now later

theorem noteTable_closes : ([.archive "note" 1].foldl (next Env.plain .plain) (initial noteTable fun _ => .pending)).Recovers
    Env.plain 1 (fun _ _ => 2) fun _ _ => 3 :=
  reconcileAll_closes Env.plain .plain noteTable (fun _ => .pending) (by decide) [.archive "note" 1] _ (by simp [Runs.states]) 1
    (by decide) _ _

end EmbeddingSystem
end SaltMdb
