import SaltMdb.Embedding.Machine
import SaltMdb.Embedding.Memories

/-! Whether a claim that has been superseded can touch the job of the claim that superseded it. -/

namespace SaltMdb
open EmbeddingDb

variable {env : Env} {ν : Type} {model : EmbeddingModel ν}

/-! ### Reports against a job -/

namespace EmbeddingDb

variable {db : EmbeddingDb ν} {s : Snapshot} {now : Instant} {e : Entity}

/-- The job of a snapshot is running. -/
def Busy (db : EmbeddingDb ν) (id : JobId) : Prop := ∃ j ∈ db.jobs.rows, j.id = id ∧ j.state = .running

theorem stillRunning_idle (idle : ¬ db.Busy s.id) : db.stillRunning s = none := by
  cases running : db.stillRunning s with
  | none => rfl
  | some e =>
    obtain ⟨j, found, state, _⟩ := stillRunning_some running
    obtain ⟨here, same⟩ := JobTable.find_some found
    exact absurd ⟨j, here, same, state⟩ idle

theorem persistResult_idle (idle : ¬ db.Busy s.id) : db.persistResult env model s now = db := by
  unfold persistResult persistRetrievalEmbeddingIfCurrent persistEmbeddingIfCurrent
  rw [stillRunning_idle idle]
  split <;> rfl

theorem retryEmbeddingJob_idle {id : JobId} {error : String} {dueFrom : Instant} (idle : ¬ db.Busy id) :
    db.retryEmbeddingJob id error now dueFrom = some db := by
  rcases db.retryEmbeddingJob_cases id error now dueFrom with same | ⟨j, found, running, _⟩
  · exact same
  · obtain ⟨here, same⟩ := JobTable.find_some found
    exact absurd ⟨j, here, same, running⟩ idle

/-- The result of a claim is in the database: its job has succeeded, and the memory's vectors of the kind are the model's. -/
structure Stored (model : EmbeddingModel ν) (s : Snapshot) (db : EmbeddingDb ν) : Prop where
  job : ∃ j ∈ db.jobs.rows, j.id = s.id ∧ j.state = .succeeded
  entity : s.jobKind = .entity → db.embeddingStatus s.entityId = .ready ∧ db.entityEmbeddings.filter (·.entityId == s.entityId) =
    [⟨s.entityId, model.embedText (s.source.title ++ "\n\n" ++ s.source.fullContent)⟩]
  chunk : s.jobKind = .chunk → db.chunkEmbeddings.filter (·.entityId == s.entityId) =
    (model.chunkEmbeddings s.source.fullContent).map fun v => ⟨s.entityId, v, s.sourceHash⟩
  retrieval : s.jobKind = .retrieval → db.retrievalEmbeddings.filter (·.entityId == s.entityId) =
    [⟨s.entityId, model.embedText (s.source.retrievalText.getD ""), s.sourceHash⟩]

/-- A `DELETE` of a memory's rows and the insert of others. -/
theorem filter_replaced {α : Type} {owner : α → EntityId} {id : EntityId} {rows new : List α} (own : ∀ v ∈ new, owner v = id) :
    (rows.filter (owner · != id) ++ new).filter (owner · == id) = new := by
  rw [List.filter_append, List.filter_filter, List.filter_eq_nil_iff.mpr, List.nil_append]
  · exact List.filter_eq_self.mpr fun v member => by simpa using own v member
  · intro v _
    simp

theorem finishJob_succeeded {j : Job} (here : j ∈ db.jobs.rows) (own : j.id = s.id) :
    ∃ j ∈ (db.finishJob s now).jobs.rows, j.id = s.id ∧ j.state = .succeeded := by
  refine ⟨j.setIf (·.id == s.id) (succeeded now), JobTable.mem_updateWhere.mpr ⟨j, here, rfl⟩, by simpa using own, ?_⟩
  rw [Job.setIf_of _ (by simpa using own)]
  rfl

theorem persistResult_entity (kind : s.jobKind = .entity) (open_ : db.stillRunning s = some e)
    (current : currentHash env .entity e = some s.sourceHash) :
    db.persistResult env model s now = ((db.writeEntityVector model s).setStatus s.entityId .ready).finishJob s now := by
  unfold persistResult persistEmbeddingIfCurrent
  rw [open_, kind]
  simp [current]

theorem persistResult_chunk (kind : s.jobKind = .chunk) (open_ : db.stillRunning s = some e)
    (current : currentHash env .chunk e = some s.sourceHash) :
    db.persistResult env model s now = (db.writeChunkVectors model s).finishJob s now := by
  unfold persistResult persistEmbeddingIfCurrent
  rw [open_, kind]
  simp [current]

/-- A current hash has a text. -/
theorem persistResult_retrieval (kind : s.jobKind = .retrieval) (open_ : db.stillRunning s = some e)
    (current : currentHash env .retrieval e = some s.sourceHash) :
    db.persistResult env model s now = (db.writeRetrievalVector model s).finishJob s now := by
  have hashed : retrievalHash env e.retrievalText = some s.sourceHash := current
  have text : (e.retrievalText.filter (· ≠ "")).isNone = false := by
    cases given : e.retrievalText with
    | none => simp [given, retrievalHash] at hashed
    | some t =>
      rw [given] at hashed
      by_cases empty : t = ""
      · simp [retrievalHash, empty] at hashed
      · simp [Option.filter, empty]
  unfold persistResult persistRetrievalEmbeddingIfCurrent
  rw [open_, kind]
  simp only [beq_self_eq_true, if_true, text, hashed, bne_self_eq_false, Bool.or_self, Bool.false_eq_true, if_false]

/-- A result for the current source of an active memory is stored while its job is running. -/
theorem persistResult_stores (model : EmbeddingModel ν) {j : Job} (found : db.jobs.find s.id = some j) (running : j.state = .running)
    (same : j.key.sourceHash = s.sourceHash) (memory : db.entities.find s.entityId = some e) (live : e.live = true)
    (current : currentHash env s.jobKind e = some s.sourceHash) : Stored model s (db.persistResult env model s now) := by
  obtain ⟨here, own⟩ := JobTable.find_some found
  have open_ : db.stillRunning s = some e := by
    unfold stillRunning
    rw [found]
    simp [running, same, memory, Option.filter, live]
  cases kind : s.jobKind with
  | entity =>
    rw [kind] at current
    rw [persistResult_entity kind open_ current]
    refine ⟨finishJob_succeeded here own, fun _ => ⟨Function.update_self .., filter_replaced ?_⟩, ?_, ?_⟩
    · simp
    · simp [kind]
    · simp [kind]
  | chunk =>
    rw [kind] at current
    rw [persistResult_chunk kind open_ current]
    refine ⟨finishJob_succeeded here own, ?_, fun _ => filter_replaced ?_, ?_⟩
    · simp [kind]
    · intro v listed
      obtain ⟨_, _, rfl⟩ := List.mem_map.mp listed
      rfl
    · simp [kind]
  | retrieval =>
    rw [kind] at current
    rw [persistResult_retrieval kind open_ current]
    refine ⟨finishJob_succeeded here own, ?_, ?_, fun _ => filter_replaced ?_⟩
    · simp [kind]
    · simp [kind]
    · simp

end EmbeddingDb

/-! ### The other jobs -/

namespace EmbeddingDb

variable {db U : EmbeddingDb ν} {j : Job} {now : Instant}

theorem updateWhere_keeps {T : JobTable} {sel : Job → Bool} {f : JobColumns → JobColumns} (here : j ∈ T.rows) (other : sel j = false) :
    j ∈ (T.updateWhere sel f).rows := JobTable.mem_updateWhere.mpr ⟨j, here, Job.setIf_of_not f other⟩

theorem persistResult_keeps {s : Snapshot} (here : j ∈ db.jobs.rows) (apart : j.id ≠ s.id) :
    j ∈ (db.persistResult env model s now).jobs.rows := by
  have finished : j ∈ (db.jobs.updateWhere (·.id == s.id) (succeeded now)).rows := updateWhere_keeps here (by simpa using apart)
  rcases persistResult_cases env model db s now with same | ⟨e, _, ⟨_, _, stale⟩ | ⟨_, ⟨_, stored⟩ | ⟨_, stored⟩ | ⟨_, stored⟩⟩⟩
  · rwa [same]
  · rw [stale]
    exact updateWhere_keeps here (by simp [apart])
  all_goals
    rw [stored]
    exact finished

theorem retry_keeps {id : JobId} {error : String} {dueFrom : Instant} (here : j ∈ db.jobs.rows) (apart : j.id ≠ id)
    (retried : db.retryEmbeddingJob id error now dueFrom = some U) : j ∈ U.jobs.rows := by
  rcases db.retryEmbeddingJob_cases id error now dueFrom with same | ⟨k, _, _, ⟨_, failed⟩ | ⟨_, postponed⟩⟩
  · obtain rfl := Option.some.inj (same.symm.trans retried)
    exact here
  · obtain rfl := Option.some.inj (failed.symm.trans retried)
    exact updateWhere_keeps here (by simpa using apart)
  · obtain ⟨delay, _, rfl⟩ := Option.map_eq_some_iff.mp (postponed.symm.trans retried)
    exact updateWhere_keeps here (by simpa using apart)

/-- A lease that has not run out is left by the sweep. -/
theorem expireLeases_keeps {T : JobTable} {kinds : JobKind → Bool} {lease : Instant} (here : j ∈ T.rows)
    (held : j.leaseExpiresAt = some lease) (before : now ≤ lease) : j ∈ (expireLeases kinds now T).rows := by
  have valid : leaseExpired kinds now j = false := by
    simp [leaseExpired, held, before]
  exact updateWhere_keeps (updateWhere_keeps here (by simp [valid])) valid

/-- A claim leaves a running job with its lease, and takes another. -/
theorem claimJob_keeps {kinds : JobKind → Bool} {eligible : Job → Entity → Bool} {idText : JobId → String} {leaseFrom lease : Instant}
    (here : j ∈ db.jobs.rows) (running : j.state = .running) (held : j.leaseExpiresAt = some lease) (before : now ≤ lease) :
    j ∈ (db.claimJob kinds eligible idText now leaseFrom).1.jobs.rows ∧
      ∀ c, (db.claimJob kinds eligible idText now leaseFrom).2 = some c → c.id ≠ j.id := by
  have swept : j ∈ (expireLeases kinds now db.jobs).rows := expireLeases_keeps here held before
  rcases db.claimJob_cases kinds eligible idText now leaseFrom with none_ | ⟨k, e, due, some_⟩
  · rw [none_]
    exact ⟨swept, fun c given => by simp at given⟩
  · obtain ⟨there, _, waiting, _⟩ := mem_claimable.mp due
    have apart : j.id ≠ k.id := by
      intro same
      obtain rfl := JobTable.id_unique swept there same
      simp [running, JobState.waiting] at waiting
    rw [some_]
    refine ⟨updateWhere_keeps swept (by simpa using apart), ?_⟩
    rintro c given
    obtain rfl := Option.some.inj given
    exact apart.symm

theorem claimAny_keeps (env : Env) (idText : JobId → String) (leaseFrom : Instant) {lease : Instant} (here : j ∈ db.jobs.rows) (running : j.state = .running)
    (held : j.leaseExpiresAt = some lease) (before : now ≤ lease) :
    j ∈ (db.claimAnyEmbeddingJob env idText now leaseFrom).1.jobs.rows ∧
      ∀ c, (db.claimAnyEmbeddingJob env idText now leaseFrom).2 = some c → c.id ≠ j.id := by
  unfold claimAnyEmbeddingJob
  have base : j ∈ (db.claimEmbeddingJob idText now leaseFrom).1.jobs.rows ∧
      ∀ c, (db.claimEmbeddingJob idText now leaseFrom).2 = some c → c.id ≠ j.id := claimJob_keeps here running held before
  split
  · rename_i claimed s given
    rwa [given] at base
  · rename_i swept given
    rw [given] at base
    exact claimJob_keeps base.1 running held before

/-- What a claim grants: a running job with its lease, and the row of its memory, which is active. -/
def Granted (db : EmbeddingDb ν) (c : Snapshot) (lease : Instant) : Prop :=
  (∃ j ∈ db.jobs.rows, j.id = c.id ∧ j.key = ⟨c.entityId, c.jobKind, c.sourceHash⟩ ∧ j.state = .running ∧
      j.leaseExpiresAt = some lease) ∧
    db.entities.find c.entityId = some c.source ∧ c.source.live = true

theorem claimJob_grants {kinds : JobKind → Bool} {eligible : Job → Entity → Bool} {idText : JobId → String} {leaseFrom : Instant}
    {c : Snapshot} (granted : (db.claimJob kinds eligible idText now leaseFrom).2 = some c) :
    (db.claimJob kinds eligible idText now leaseFrom).1.Granted c (leaseFrom + seconds embeddingLeaseS) := by
  rcases db.claimJob_cases kinds eligible idText now leaseFrom with none_ | ⟨j, e, due, some_⟩
  · simp [none_] at granted
  · rw [some_] at granted ⊢
    obtain rfl := Option.some.inj granted
    obtain ⟨there, _, _, _, found, live, _⟩ := mem_claimable.mp due
    refine ⟨⟨_, JobTable.mem_updateWhere.mpr ⟨j, there, rfl⟩, Job.setIf_id .., ?_⟩, found, live⟩
    rw [Job.setIf_of _ (by simp)]
    exact ⟨rfl, rfl, rfl⟩

theorem claimAny_grants {idText : JobId → String} {leaseFrom : Instant} {c : Snapshot}
    (granted : (db.claimAnyEmbeddingJob env idText now leaseFrom).2 = some c) :
    (db.claimAnyEmbeddingJob env idText now leaseFrom).1.Granted c (leaseFrom + seconds embeddingLeaseS) := by
  unfold claimAnyEmbeddingJob at granted ⊢
  split at granted
  · rename_i claimed s given
    have base : (db.claimEmbeddingJob idText now leaseFrom).1.Granted c (leaseFrom + seconds embeddingLeaseS) :=
      claimJob_grants (by rw [← claimEmbeddingJob, given, granted])
    rwa [given] at base
  · exact claimJob_grants granted

end EmbeddingDb

/-! ### Overlapping attempts -/

/-- The claim that a transaction reports on. -/
def EmbeddingStep.reporter : EmbeddingStep → Option Nat
  | .persist k _ => some k
  | .fail k _ _ _ => some k
  | _ => none

namespace EmbeddingSystem

variable {s : EmbeddingSystem ν}

/-- A later claim has the job of the `k`-th one. -/
def Superseded (s : EmbeddingSystem ν) (k : Nat) : Prop :=
  ∃ c, s.claims[k]? = some c ∧ ∃ later c', k < later ∧ s.claims[later]? = some c' ∧ c'.snapshot.id = c.snapshot.id

/-- No superseded claim reports while its job is running. -/
def Fenced (step : EmbeddingStep) (s : EmbeddingSystem ν) : Prop :=
  ∀ k, step.reporter = some k → s.Superseded k → ∀ c, s.claims[k]? = some c → ¬ s.db.Busy c.snapshot.id

/-- Other workers' transactions before a lease has run out. -/
def Meanwhile (k : Nat) (lease : Instant) (step : EmbeddingStep) : Prop :=
  match step with
  | .claim now _ => now ≤ lease
  | .persist i _ => i ≠ k
  | .fail i _ _ _ => i ≠ k
  | _ => False

/-- A report of a superseded claim leaves the jobs as they are. -/
def KeepsOff (env : Env) (model : EmbeddingModel ν) (step : EmbeddingStep) (s : EmbeddingSystem ν) : Prop :=
  ∀ k, step.reporter = some k → s.Superseded k → (s.next env model step).db.jobs = s.db.jobs

theorem Fenced.keepsOff {step : EmbeddingStep} (fenced : Fenced step s) : KeepsOff env model step s := by
  intro k reporter superseded
  obtain ⟨c, there, _⟩ := id superseded
  have idle := fenced k reporter superseded c there
  have report_jobs : ∀ f : Snapshot → EmbeddingDb ν, (f c.snapshot).jobs = s.db.jobs → (s.report k f).db.jobs = s.db.jobs := by
    intro f same
    rcases s.report_cases k f with kept | ⟨c', found, _, reported⟩
    · rw [kept]
    · obtain rfl := Option.some.inj (found.symm.trans there)
      rw [reported]
      exact same
  cases step with
  | persist i now =>
    obtain rfl := Option.some.inj reporter
    exact report_jobs _ (by rw [persistResult_idle idle])
  | fail i error now dueFrom =>
    obtain rfl := Option.some.inj reporter
    exact report_jobs _ (by rw [retryEmbeddingJob_idle idle]; rfl)
  | _ => simp [EmbeddingStep.reporter] at reporter

/-! ### The newest attempt -/

/-- The `k`-th claim is computing: it holds its job, and no later claim has it. -/
structure Computing (k : Nat) (c : Snapshot) (lease : Instant) (s : EmbeddingSystem ν) : Prop where
  claim : s.claims[k]? = some ⟨c, false⟩
  holds : s.db.Granted c lease
  newest : ∀ i c', k < i → s.claims[i]? = some c' → c'.snapshot.id ≠ c.id

theorem Computing.busy {k : Nat} {c : Snapshot} {lease : Instant} (computing : Computing k c lease s) : s.db.Busy c.id := by
  obtain ⟨⟨j, here, own, _, running, _⟩, _⟩ := computing.holds
  exact ⟨j, here, own, running⟩

/-- Another claim that reports is of another job. -/
theorem Computing.apart {k i : Nat} {c : Snapshot} {c' : WorkerClaim} {lease : Instant} {step : EmbeddingStep}
    (computing : Computing k c lease s) (fenced : Fenced step s) (reporter : step.reporter = some i) (other : i ≠ k)
    (there : s.claims[i]? = some c') : c.id ≠ c'.snapshot.id := by
  intro same
  rcases Nat.lt_or_gt_of_ne other with before | after
  · have superseded : s.Superseded i := ⟨c', there, k, ⟨c, false⟩, before, computing.claim, same⟩
    exact fenced i reporter superseded c' there (same ▸ computing.busy)
  · exact computing.newest i c' after there same.symm

theorem Computing.report {k i : Nat} {c : Snapshot} {lease : Instant} {f : Snapshot → EmbeddingDb ν} (computing : Computing k c lease s)
    (other : i ≠ k) (entities : ∀ snapshot, (f snapshot).entities = s.db.entities)
    (keeps : ∀ c', s.claims[i]? = some c' → ∀ j ∈ s.db.jobs.rows, j.id = c.id → j ∈ (f c'.snapshot).jobs.rows) :
    Computing k c lease (s.report i f) := by
  rcases s.report_cases i f with kept | ⟨c', there, _, reported⟩
  · rwa [kept]
  · rw [reported]
    obtain ⟨⟨j, here, own, rest⟩, source, live⟩ := computing.holds
    refine ⟨?_, ⟨⟨j, keeps c' there j here own, own, rest⟩, by rw [entities]; exact source, live⟩, fun later c'' after found => ?_⟩
    · rw [List.getElem?_modify, computing.claim]
      simp [other]
    · rw [List.getElem?_modify] at found
      cases before : s.claims[later]? with
      | none => simp [before] at found
      | some old =>
        rw [before] at found
        have same : old.snapshot = c''.snapshot := by
          obtain rfl := Option.some.inj found
          split <;> rfl
        exact same ▸ computing.newest later old after before

theorem Computing.next {k : Nat} {c : Snapshot} {lease : Instant} {step : EmbeddingStep} (computing : Computing k c lease s)
    (allowed : Fenced step s ∧ Meanwhile k lease step) : Computing k c lease (s.next env model step) := by
  obtain ⟨fenced, meanwhile⟩ := allowed
  cases step with
  | claim now leaseFrom =>
    obtain ⟨⟨j, here, own, same, running, held⟩, source, live⟩ := computing.holds
    obtain ⟨kept, apart⟩ := claimAny_keeps env env.uuid4 leaseFrom here running held meanwhile
    have below : k < s.claims.length := (List.getElem?_eq_some_iff.mp computing.claim).1
    refine ⟨?_, ⟨⟨j, kept, own, same, running, held⟩, ?_, live⟩, fun i c' after found => ?_⟩
    · exact (List.getElem?_append_left below).trans computing.claim
    · exact (congrArg (fun T : EntityTable => T.find c.entityId) claimAny_entities).trans source
    · by_cases old : i < s.claims.length
      · exact computing.newest i c' after ((List.getElem?_append_left old).symm.trans found)
      · have new : ((s.db.claimAnyEmbeddingJob env env.uuid4 now leaseFrom).2.toList.map fun snapshot => (⟨snapshot, false⟩ : WorkerClaim))[i -
            s.claims.length]? = some c' := (List.getElem?_append_right (Nat.le_of_not_lt old)).symm.trans found
        obtain ⟨snapshot, granted, rfl⟩ := List.mem_map.mp (List.mem_of_getElem? new)
        have given := apart snapshot (by simpa using granted)
        rwa [own] at given
  | persist i now =>
    refine computing.report meanwhile (fun _ => persistResult_entities) fun c' there j here own => ?_
    exact persistResult_keeps here (own ▸ computing.apart fenced rfl meanwhile there)
  | fail i error now dueFrom =>
    refine computing.report meanwhile (fun snapshot => ?_) fun c' there j here own => ?_
    · cases retried : s.db.retryEmbeddingJob snapshot.id error now dueFrom with
      | none => rfl
      | some U => exact retry_entities retried
    · have apart := computing.apart fenced rfl meanwhile there
      cases retried : s.db.retryEmbeddingJob c'.snapshot.id error now dueFrom with
      | none => exact here
      | some U => exact retry_keeps here (own ▸ apart) retried
  | _ => exact meanwhile.elim

/-- A claim that is granted is computing. -/
theorem computing_of_granted (model : EmbeddingModel ν) {now leaseFrom : Instant} {c : Snapshot}
    (granted : (s.db.claimAnyEmbeddingJob env env.uuid4 now leaseFrom).2 = some c) :
    Computing s.claims.length c (leaseFrom + seconds embeddingLeaseS) (s.next env model (.claim now leaseFrom)) := by
  have claims : (s.next env model (.claim now leaseFrom)).claims = s.claims ++ [⟨c, false⟩] := by
    simp [EmbeddingSystem.next, grant, granted]
  refine ⟨by rw [claims]; simp, claimAny_grants granted, fun i c' after found => ?_⟩
  rw [claims] at found
  have below := (List.getElem?_eq_some_iff.mp found).1
  simp at below
  omega

theorem Computing.stores {k : Nat} {c : Snapshot} {lease : Instant} (computing : Computing k c lease s)
    (current : currentHash env c.jobKind c.source = some c.sourceHash) (now : Instant) :
    (s.next env model (.persist k now)).db.Stored model c := by
  obtain ⟨⟨j, here, own, same, running, _⟩, source, live⟩ := computing.holds
  have holder : s.worker k = some c := by
    simp [worker, computing.claim, Option.filter]
  have stored : (s.next env model (.persist k now)).db = s.db.persistResult env model c now := by
    simp only [EmbeddingSystem.next, EmbeddingSystem.report, holder]
  rw [stored]
  exact persistResult_stores model (own ▸ JobTable.find_mem here) running (by rw [same]) source live current

/-- The claim granted here, if it is of the current source, has its result stored whenever it comes back. -/
def StoresNewest (env : Env) (model : EmbeddingModel ν) (now leaseFrom : Instant) (later : List EmbeddingStep)
    (s : EmbeddingSystem ν) : Prop :=
  ∀ c, (s.db.claimAnyEmbeddingJob env env.uuid4 now leaseFrom).2 = some c → currentHash env c.jobKind c.source = some c.sourceHash →
    ∀ returned, ((later.foldl (EmbeddingSystem.next env model) (s.next env model (.claim now leaseFrom))).next env model
      (.persist s.claims.length returned)).db.Stored model c

/-- In a run in which no superseded claim reports while its job is running, no superseded claim changes a job, and what a claim
computes from the current source is stored, whatever the other workers do until its lease has run out. -/
theorem fenced_runs (env : Env) (model : EmbeddingModel ν) (entities : EntityTable) (embeddingStatus : EntityId → EmbeddingStatus)
    (steps : List EmbeddingStep) (fenced : Runs.Guarded (next env model) Fenced steps (initial entities embeddingStatus)) :
    ∀ before step after, steps = before ++ step :: after →
      KeepsOff env model step (before.foldl (next env model) (initial entities embeddingStatus)) ∧
      ∀ now leaseFrom later rest, step = .claim now leaseFrom → after = later ++ rest →
        (∀ other ∈ later, Meanwhile (before.foldl (next env model) (initial entities embeddingStatus)).claims.length
          (leaseFrom + seconds embeddingLeaseS) other) →
        StoresNewest env model now leaseFrom later (before.foldl (next env model) (initial entities embeddingStatus)) := by
  rintro before step after rfl
  obtain ⟨_, here, following⟩ := Runs.guarded_append.mp fenced
  refine ⟨Fenced.keepsOff here, ?_⟩
  rintro now leaseFrom later rest rfl rfl meanwhile c granted current returned
  have computing := computing_of_granted model granted
  have guarded := ((Runs.guarded_append.mp following).1).and (Runs.guarded_of_forall meanwhile)
  exact (Runs.final_of_guarded (fun s step computing allowed => computing.next allowed) computing guarded).stores current returned

theorem recovered_fenced : StoresNewest Env.plain .plain 1 1 [.claim 1 1]
    ([.reconcile 1 none fun _ => 0].foldl (next Env.plain .plain) (initial noteTable fun _ => .pending)) := by
  refine (fenced_runs Env.plain .plain noteTable (fun _ => .pending) [.reconcile 1 none fun _ => 0, .claim 1 1, .claim 1 1] ?_
    [.reconcile 1 none fun _ => 0] _ _ rfl).2 1 1 [.claim 1 1] [] rfl rfl ?_
  · simp [Runs.Guarded, Fenced, EmbeddingStep.reporter]
  · simp [Meanwhile, seconds, embeddingLeaseS]

def minutes (n : Int) : Instant := seconds (60 * n)

/-- The lease of the first claim runs out, the third claim takes its job, and then the first one reports a failure. -/
def overlapping : List EmbeddingStep :=
  [.reconcile 1 none fun _ => 0, .claim 0 0, .claim (minutes 5) (minutes 5), .claim (minutes 5) (minutes 5)]

def overlapped : EmbeddingSystem String := overlapping.foldl (next Env.plain .plain) (initial noteTable fun _ => .pending)

def lateFailure : EmbeddingStep := .fail 0 "timeout" (minutes 6) (minutes 6)

/-- The late failure takes the job from the claim that is computing, and the result of that claim is dropped. -/
theorem lateFailure_postpones : overlapped.Superseded 0 ∧ ¬ KeepsOff Env.plain .plain lateFailure overlapped ∧
    (overlapped.next Env.plain .plain lateFailure).db.jobs.rows.map (·.state) = [.retryWait, .running] ∧
    ((overlapped.next Env.plain .plain lateFailure).next Env.plain .plain (.persist 2 (minutes 6))).db.entityEmbeddings = [] := by
  have ids : overlapped.claims.map (·.snapshot.id) = [0, 1, 0] := by decide +kernel
  have superseded : overlapped.Superseded 0 := by
    have first := congrArg (·[0]?) ids
    have third := congrArg (·[2]?) ids
    simp only [List.getElem?_map] at first third
    obtain ⟨c, there, own⟩ := Option.map_eq_some_iff.mp first
    obtain ⟨c', later, own'⟩ := Option.map_eq_some_iff.mp third
    exact ⟨c, there, 2, c', by decide, later, own'.trans own.symm⟩
  have changed : (overlapped.next Env.plain .plain lateFailure).db.jobs ≠ overlapped.db.jobs := by decide +kernel
  exact ⟨superseded, fun keeps => changed (keeps 0 rfl superseded), by decide +kernel, by decide +kernel⟩

end EmbeddingSystem
end SaltMdb
