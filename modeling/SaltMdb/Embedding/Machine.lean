import SaltMdb.Embedding.Frames
import SaltMdb.Library.Traces

/-! The state machine of a job: what moves it, how often it is claimed, and what its retries read. -/

namespace SaltMdb
open Traces EmbeddingDb

/-! ### The machine -/

inductive JobLabel where
  | requeue
  | cancel
  | postpone
  | giveUp
  | claim
  | succeed
deriving DecidableEq, Repr

/-- What one statement does to the state of a job and its attempts. -/
inductive JobMove : JobState × Nat → JobLabel → JobState × Nat → Prop
  | requeue {s : JobState} {n : Nat} : JobMove (s, n) .requeue (.queued, 0)
  | cancel {s : JobState} {n : Nat} (live : s.live = true) : JobMove (s, n) .cancel (.cancelled, n)
  | postpone {n : Nat} (left : n < maxAttempts) : JobMove (.running, n) .postpone (.retryWait, n)
  | giveUp {n : Nat} (used : maxAttempts ≤ n) : JobMove (.running, n) .giveUp (.failed, n)
  | claim {s : JobState} {n : Nat} (waiting : s.waiting = true) : JobMove (s, n) .claim (.running, n + 1)
  | succeed {n : Nat} : JobMove (.running, n) .succeed (.succeeded, n)

/-- A waiting job has an attempt left, a running one has used one, and none has used more than there are. -/
structure AttemptsSound (a : JobState × Nat) : Prop where
  bounded : a.2 ≤ maxAttempts
  left : a.1.waiting = true → a.2 < maxAttempts
  used : a.1 = .running → 0 < a.2

theorem attemptsSound_queued : AttemptsSound (.queued, 0) := ⟨by decide, by decide, nofun⟩

theorem JobMove.sound {a b : JobState × Nat} {l : JobLabel} (sound : AttemptsSound a) (move : JobMove a l b) : AttemptsSound b := by
  cases move with
  | requeue => exact attemptsSound_queued
  | cancel live => exact ⟨sound.bounded, nofun, nofun⟩
  | postpone left => exact ⟨Nat.le_of_lt left, fun _ => left, nofun⟩
  | giveUp used => exact ⟨sound.bounded, nofun, nofun⟩
  | claim waiting => exact ⟨sound.left waiting, nofun, fun _ => Nat.succ_pos _⟩
  | succeed => exact ⟨sound.bounded, nofun, nofun⟩

/-- Only an enqueue takes a job out of a terminal state. -/
theorem JobMove.of_terminal {s : JobState} {n : Nat} {b : JobState × Nat} {l : JobLabel} (terminal : s.live = false)
    (move : JobMove (s, n) l b) : l = .requeue := by
  cases move with
  | requeue => rfl
  | cancel live => simp [live] at terminal
  | postpone => simp [JobState.live] at terminal
  | giveUp => simp [JobState.live] at terminal
  | claim waiting => simp [JobState.live_iff.mpr (.inl waiting)] at terminal
  | succeed => simp [JobState.live] at terminal

/-- Every claim counts, and only an enqueue starts the count again. -/
theorem JobMove.counts {a b : JobState × Nat} {l : JobLabel} (kept : l ≠ .requeue) (move : JobMove a l b) :
    a.2 + [l].count .claim ≤ b.2 := by
  cases move with
  | requeue => exact absurd rfl kept
  | cancel => simp
  | postpone => simp
  | giveUp => simp
  | claim => simp
  | succeed => simp

/-! ### The table -/

def Job.attempts (j : Job) : JobState × Nat := (j.state, j.attemptCount)

/-- Every row of the later table comes from its row of the earlier one, or from a fresh one, by moves of the machine: an
enqueue only where it is forced, and a claim for each that was granted. -/
structure Evolves (forced : JobKey → Prop) (granted : List JobId) (T U : JobTable) : Prop where
  next : T.next ≤ U.next
  stays : ∀ j ∈ T.rows, ∃ j' ∈ U.rows, j'.id = j.id ∧ j'.key = j.key
  moved : ∀ j' ∈ U.rows, ∃ start labels, Trace JobMove start labels j'.attempts ∧ labels.count .claim = granted.count j'.id ∧
    (.requeue ∈ labels → forced j'.key) ∧
    ((∃ j ∈ T.rows, j.id = j'.id ∧ j.key = j'.key ∧ start = j.attempts) ∨ (T.next ≤ j'.id ∧ start = (.queued, 0)))
  grants : ∀ id ∈ granted, id < U.next

namespace Evolves

variable {forced : JobKey → Prop} {granted more : List JobId} {T U V : JobTable}

theorem refl (forced : JobKey → Prop) (T : JobTable) : Evolves forced [] T T where
  next := Nat.le_refl _
  stays j here := ⟨j, here, rfl, rfl⟩
  moved j here := ⟨j.attempts, [], .done _, rfl, by simp, .inl ⟨j, here, rfl, rfl, rfl⟩⟩
  grants := nofun

theorem trans (first : Evolves forced granted T U) (second : Evolves forced more U V) : Evolves forced (granted ++ more) T V where
  next := Nat.le_trans first.next second.next
  stays j here := by
    obtain ⟨j', there, id, key⟩ := first.stays j here
    obtain ⟨j'', later, id', key'⟩ := second.stays j' there
    exact ⟨j'', later, id'.trans id, key'.trans key⟩
  moved j'' later := by
    obtain ⟨start, labels, trace, claims, requeues, origin⟩ := second.moved j'' later
    rcases origin with ⟨j', there, id, key, rfl⟩ | ⟨new, rfl⟩
    · obtain ⟨start, labels', trace', claims', requeues', origin⟩ := first.moved j' there
      refine ⟨start, labels' ++ labels, trace'.append trace, ?_, fun listed => ?_, ?_⟩
      · rw [List.count_append, List.count_append, claims', claims, id]
      · rcases List.mem_append.mp listed with earlier | later
        · exact key ▸ requeues' earlier
        · exact requeues later
      · rw [← id, ← key]
        exact origin
    · refine ⟨_, labels, trace, ?_, requeues, .inr ⟨Nat.le_trans first.next new, rfl⟩⟩
      have unknown : granted.count j''.id = 0 :=
        List.count_eq_zero.mpr fun listed => absurd (first.grants _ listed) (Nat.not_lt.mpr new)
      rw [List.count_append, unknown, Nat.zero_add, claims]
  grants id listed := by
    rcases List.mem_append.mp listed with earlier | later
    · exact Nat.lt_of_lt_of_le (first.grants id earlier) second.next
    · exact second.grants id later

theorem then_ (first : Evolves forced granted T U) (second : Evolves forced [] U V) : Evolves forced granted T V := by
  simpa using first.trans second

theorem mono {wider : JobKey → Prop} (evolves : Evolves forced granted T U) (more : ∀ key, forced key → wider key) :
    Evolves wider granted T U where
  next := evolves.next
  stays := evolves.stays
  moved j' here := by
    obtain ⟨start, labels, trace, claims, requeues, origin⟩ := evolves.moved j' here
    exact ⟨start, labels, trace, claims, fun listed => more _ (requeues listed), origin⟩
  grants := evolves.grants

/-- An update whose rows make one move each. -/
theorem update {sel : Job → Bool} {f : JobColumns → JobColumns} (moves : ∀ j ∈ T.rows, sel j = true →
    ∃ l, JobMove j.attempts l ((f j.toJobColumns).state, (f j.toJobColumns).attemptCount) ∧ l ≠ .claim ∧ l ≠ .requeue) :
    Evolves forced [] T (T.updateWhere sel f) where
  next := Nat.le_refl _
  stays j here := ⟨j.setIf sel f, JobTable.mem_updateWhere.mpr ⟨j, here, rfl⟩, by simp, by simp⟩
  moved j' here := by
    obtain ⟨j, old, rfl⟩ := JobTable.mem_updateWhere.mp here
    have origin : ∃ k ∈ T.rows, k.id = (j.setIf sel f).id ∧ k.key = (j.setIf sel f).key ∧ j.attempts = k.attempts :=
      ⟨j, old, by simp, by simp, rfl⟩
    cases selected : sel j with
    | false =>
      rw [Job.setIf_of_not f selected] at origin ⊢
      exact ⟨j.attempts, [], .done _, rfl, by simp, .inl origin⟩
    | true =>
      obtain ⟨l, move, noClaim, noRequeue⟩ := moves j old selected
      rw [Job.setIf_of f selected] at origin ⊢
      exact ⟨j.attempts, [l], .single move, by simp [noClaim], by simp [noRequeue.symm], .inl origin⟩
  grants := nofun

theorem cancel {sel : Job → Bool} {f : JobColumns → JobColumns} (live : ∀ j ∈ T.rows, sel j = true → j.state.live = true)
    (cancels : ∀ c, (f c).state = .cancelled ∧ (f c).attemptCount = c.attemptCount) : Evolves forced [] T (T.updateWhere sel f) := by
  refine update fun j here selected => ⟨.cancel, ?_, by decide, by decide⟩
  rw [(cancels _).1, (cancels _).2]
  exact .cancel (live j here selected)

/-- The row that a claim takes. -/
theorem claim {j : Job} {f : JobColumns → JobColumns} (here : j ∈ T.rows) (waiting : j.state.waiting = true)
    (claims : ∀ c, (f c).state = .running ∧ (f c).attemptCount = c.attemptCount + 1) :
    Evolves forced [j.id] T (T.updateWhere (·.id == j.id) f) where
  next := Nat.le_refl _
  stays k old := ⟨k.setIf (·.id == j.id) f, JobTable.mem_updateWhere.mpr ⟨k, old, rfl⟩, by simp, by simp⟩
  moved j' there := by
    obtain ⟨k, old, rfl⟩ := JobTable.mem_updateWhere.mp there
    have origin : ∃ i ∈ T.rows, i.id = (k.setIf (·.id == j.id) f).id ∧ i.key = (k.setIf (·.id == j.id) f).key ∧
        k.attempts = i.attempts := ⟨k, old, by simp, by simp, rfl⟩
    by_cases same : k.id = j.id
    · obtain rfl := JobTable.id_unique old here same
      rw [Job.setIf_of f (by simp)] at origin ⊢
      refine ⟨k.attempts, [.claim], .single ?_, by simp, by simp, .inl origin⟩
      simp only [Job.attempts, (claims _).1, (claims _).2]
      exact .claim waiting
    · rw [Job.setIf_of_not f (by simpa using same)] at origin ⊢
      exact ⟨k.attempts, [], .done _, by simp [Ne.symm same], by simp, .inl origin⟩
  grants id listed := by
    obtain rfl := List.mem_singleton.mp listed
    exact T.below j here

theorem insert {key : JobKey} {now : Instant} {free : T.findKey key = none} : Evolves forced [] T (T.insert key now free) where
  next := Nat.le_succ _
  stays j here := ⟨j, JobTable.mem_insert.mpr (.inl here), rfl, rfl⟩
  moved j' here := by
    rcases JobTable.mem_insert.mp here with old | rfl
    · exact ⟨j'.attempts, [], .done _, rfl, by simp, .inl ⟨j', old, rfl, rfl, rfl⟩⟩
    · exact ⟨(.queued, 0), [], .done _, rfl, by simp, .inr ⟨Nat.le_refl _, rfl⟩⟩
  grants := nofun

theorem queueMissing {key : JobKey} {now : Instant} : Evolves forced [] T (T.queueMissing key now) := by
  unfold JobTable.queueMissing
  split
  · exact insert
  · exact refl forced T

theorem queueAgain {key : JobKey} {now : Instant} (allowed : forced key) : Evolves forced [] T (T.queueAgain key now) := by
  unfold JobTable.queueAgain
  split
  · exact insert
  · refine ⟨Nat.le_refl _, fun j here => ⟨_, JobTable.mem_updateWhere.mpr ⟨j, here, rfl⟩, by simp, by simp⟩, fun j' here => ?_, nofun⟩
    obtain ⟨j, old, rfl⟩ := JobTable.mem_updateWhere.mp here
    by_cases same : j.key = key
    · rw [Job.setIf_of _ (by simpa using same)]
      exact ⟨j.attempts, [.requeue], .single .requeue, by simp, fun _ => same ▸ allowed, .inl ⟨j, old, rfl, rfl, rfl⟩⟩
    · rw [Job.setIf_of_not _ (by simpa using same)]
      exact ⟨j.attempts, [], .done _, by simp, by simp, .inl ⟨j, old, rfl, rfl, rfl⟩⟩

end Evolves

/-! ### The transactions -/

variable (env : Env) {ν : Type} {model : EmbeddingModel ν}

/-- The source that a memory's row gives to its two base jobs. -/
def baseKeys (id : EntityId) (title content contentHash : String) : List JobKey :=
  [⟨id, .entity, env.entitySourceHash title content⟩, ⟨id, .chunk, contentHash⟩]

def retrievalKeys (id : EntityId) (text : Option String) : List JobKey :=
  ((retrievalHash env text).filter (· ≠ "")).toList.map fun hash => ⟨id, .retrieval, hash⟩

/-- The keys that a transaction enqueues by force: those of a new memory, and of a source that it changes. -/
def forcedKeys (db : EmbeddingDb ν) : EmbeddingStep → List JobKey
  | .store p drawn _ _ _ =>
    let id := storeTarget p drawn
    let existing := db.entities.find id
    (if p.sourceChanged existing then baseKeys env id p.title p.redactedContent p.contentHash else []) ++
      (enqueuedRetrieval p existing).elim [] (retrievalKeys env id)
  | .replace plan drawn _ =>
    baseKeys env drawn.text plan.newTitle plan.newContent plan.contentHash ++ retrievalKeys env drawn.text plan.retrievalText
  | .consolidate items _ => items.flatMap fun m =>
    baseKeys env m.drawn.text m.plan.content.cleanTitle m.plan.content.redactedContent m.plan.content.contentHash
  | _ => []

variable {env} {db : EmbeddingDb ν} {forced : JobKey → Prop} {now : Instant} {id : EntityId} {key : JobKey}

namespace Evolves

theorem staleCancelled {T : JobTable} : Evolves forced [] T (T.updateWhere (staleJob key) (cancelled now)) := by
  refine cancel (fun j _ stale => ?_) fun _ => ⟨rfl, rfl⟩
  simp only [staleJob, liveJobOf, Bool.and_eq_true] at stale
  exact stale.1.2

theorem staleReleased {T : JobTable} : Evolves forced [] T (T.updateWhere (staleJob key) (released now)) := by
  refine cancel (fun j _ stale => ?_) fun _ => ⟨rfl, rfl⟩
  simp only [staleJob, liveJobOf, Bool.and_eq_true] at stale
  exact stale.1.2

theorem cancelEmbedding : Evolves forced [] db.jobs (db.cancelEmbeddingJobsForEntity id now).jobs := by
  refine cancel (fun j _ live => ?_) fun _ => ⟨rfl, rfl⟩
  simp only [liveJobOf, Bool.and_eq_true] at live
  exact live.2

theorem cancelRetrieval {clearVector : Bool} :
    Evolves forced [] db.jobs (db.cancelRetrievalEmbeddingJobsForEntity id now clearVector).jobs := by
  rw [cancelRetrievalEmbeddingJobsForEntity_jobs]
  refine cancel (fun j _ live => ?_) fun _ => ⟨rfl, rfl⟩
  simp only [liveJobOf, Bool.and_eq_true] at live
  exact live.2

theorem enqueueKind {T : JobTable} {force : Bool} (allowed : force = true → forced key) :
    Evolves forced [] T (enqueueKind T key now force).1 := by
  cases force with
  | true => exact staleCancelled.then_ (queueAgain (allowed rfl))
  | false => exact staleCancelled.then_ queueMissing

theorem enqueueEmbedding {title content contentHash : String} {force : Bool}
    (allowed : force = true → ∀ key ∈ baseKeys env id title content contentHash, forced key) :
    Evolves forced [] db.jobs (db.enqueueEmbeddingJobsForEntity env id title content contentHash now force).1.jobs := by
  rw [enqueueEmbeddingJobsForEntity_jobs]
  refine (enqueueKind fun by_ => ?_).then_ (enqueueKind fun by_ => ?_)
  · exact allowed by_ _ (by simp [baseKeys])
  · exact allowed by_ _ (by simp [baseKeys])

theorem enqueueRetrieval {text : Option String} {force : Bool}
    (allowed : force = true → ∀ key ∈ retrievalKeys env id text, forced key) : Evolves forced [] db.jobs
      (db.enqueueRetrievalEmbeddingJobForEntity id text (retrievalHash env text) now force).1.jobs := by
  unfold EmbeddingDb.enqueueRetrievalEmbeddingJobForEntity
  split
  · rename_i hash _ given
    rw [enqueueRetrievalKey_jobs]
    cases force with
    | true =>
      refine staleReleased.then_ (queueAgain (allowed rfl _ ?_))
      rw [retrievalKeys, given]
      exact List.mem_singleton_self _
    | false => exact staleReleased.then_ queueMissing
  · exact cancelRetrieval

theorem cancelArchived : Evolves forced [] db.jobs (cancelArchived now db id).jobs := cancelEmbedding.then_ cancelRetrieval

theorem clearArchived : Evolves forced [] db.jobs (clearArchived now db id).jobs := by
  show Evolves forced [] (db.clearEmbeddingVectorsForEntity id).jobs _
  exact cancelRetrieval

/-- A loop whose turns evolve. -/
theorem foldl {α : Type} {f : EmbeddingDb ν → α → EmbeddingDb ν} (turn : ∀ db x, Evolves forced [] db.jobs (f db x).jobs)
    (xs : List α) (db : EmbeddingDb ν) : Evolves forced [] db.jobs (xs.foldl f db).jobs := by
  induction xs generalizing db with
  | nil => exact refl forced db.jobs
  | cons x rest ih => exact (turn db x).then_ (ih (f db x))

theorem storeRaw {p : StoreProposal} {drawn copyDrawn : Uuid} {core : CoreState} {U : EmbeddingDb ν}
    (stored : db.storeRaw env p drawn copyDrawn now core = some U)
    (allowed : ∀ key ∈ forcedKeys env db (.store p drawn copyDrawn now core), forced key) : Evolves forced [] db.jobs U.jobs := by
  obtain ⟨copied, kept, rfl⟩ := Option.map_eq_some_iff.mp stored
  have upserted : db.jobs = (copied.upsertMemory p (storeTarget p drawn) (db.entities.find (storeTarget p drawn)) now core).jobs := by
    rw [upsertMemory_jobs, keepCopy_jobs kept]
  rw [upserted]
  simp only [forcedKeys, List.mem_append] at allowed
  unfold enqueueRawJobs
  have based : Evolves forced [] (copied.upsertMemory p (storeTarget p drawn) (db.entities.find (storeTarget p drawn)) now core).jobs
      (if p.sourceChanged (db.entities.find (storeTarget p drawn)) then
        ((copied.upsertMemory p (storeTarget p drawn) (db.entities.find (storeTarget p drawn)) now core).enqueueEmbeddingJobsForEntity
          env (storeTarget p drawn) p.title p.redactedContent p.contentHash now true).1
      else copied.upsertMemory p (storeTarget p drawn) (db.entities.find (storeTarget p drawn)) now core).jobs := by
    split
    · rename_i changed
      exact enqueueEmbedding fun _ key listed => allowed key (.inl (by rw [if_pos changed]; exact listed))
    · exact refl forced _
  dsimp only
  split
  · exact based
  · rename_i text given
    refine based.then_ (enqueueRetrieval fun _ key listed => allowed key (.inr ?_))
    rw [given]
    exact listed

theorem replace {plan : ReplacementPlan} {drawn : Uuid} {core : CoreState} {U : EmbeddingDb ν}
    (replaced : db.replace env plan drawn core = some U)
    (allowed : ∀ key ∈ forcedKeys env db (.replace plan drawn core), forced key) : Evolves forced [] db.jobs U.jobs := by
  unfold EmbeddingDb.replace at replaced
  split at replaced
  · simp at replaced
  · obtain ⟨inserted, there, rfl⟩ := Option.map_eq_some_iff.mp replaced
    rw [← insertMemory_jobs there]
    simp only [forcedKeys, List.mem_append] at allowed
    refine Evolves.then_ ?_ clearArchived
    refine Evolves.then_ ?_ (enqueueRetrieval fun _ key listed => allowed key (.inr listed))
    refine Evolves.then_ ?_ (enqueueEmbedding fun _ key listed => allowed key (.inl listed))
    rw [← archiveWhere_jobs]
    exact cancelArchived

theorem consolidateItem {m : Merge} {U : EmbeddingDb ν} (merged : db.consolidateItem env m = some U)
    (allowed : ∀ key ∈ baseKeys env m.drawn.text m.plan.content.cleanTitle m.plan.content.redactedContent
      m.plan.content.contentHash, forced key) : Evolves forced [] db.jobs U.jobs := by
  unfold EmbeddingDb.consolidateItem at merged
  split at merged
  · simp at merged
  · obtain ⟨inserted, there, rfl⟩ := Option.map_eq_some_iff.mp merged
    rw [← insertMemory_jobs there]
    refine Evolves.then_ ?_ (foldl (fun _ _ => cancelArchived) _ _)
    rw [archiveWhere_jobs]
    exact enqueueEmbedding fun _ key listed => allowed key listed

theorem consolidate {items : List Merge} {U : EmbeddingDb ν} (merged : db.consolidate env items now = some U)
    (allowed : ∀ key ∈ forcedKeys env db (.consolidate items now), forced key) : Evolves forced [] db.jobs U.jobs := by
  obtain ⟨written, ran, rfl⟩ := Option.map_eq_some_iff.mp merged
  refine Evolves.then_ ?_ (foldl (fun _ _ => clearArchived) _ written)
  clear merged
  induction items generalizing db with
  | nil =>
    obtain rfl := Option.some.inj ran
    exact refl forced _
  | cons m rest ih =>
    simp only [List.foldlM_cons, Option.bind_eq_bind, Option.bind_eq_some_iff] at ran
    obtain ⟨first, here, ran⟩ := ran
    simp only [forcedKeys, List.flatMap_cons, List.mem_append] at allowed
    exact (consolidateItem here fun key listed => allowed key (.inl listed)).then_ (ih (fun key listed => allowed key (.inr listed)) ran)

theorem expireLeases {kinds : JobKind → Bool} {T : JobTable} : Evolves forced [] T (expireLeases kinds now T) := by
  unfold EmbeddingDb.expireLeases
  refine Evolves.then_ (update fun j _ expired => ⟨.giveUp, ?_, by decide, by decide⟩) (update fun j here expired => ?_)
  · simp only [leaseExpired, Bool.and_eq_true, beq_iff_eq, decide_eq_true_eq] at expired
    simp only [Job.attempts, expired.1.1.2]
    exact .giveUp expired.2
  · -- What is left of the expired leases has attempts left.
    obtain ⟨k, _, rfl⟩ := JobTable.mem_updateWhere.mp here
    have left : k.attemptCount < maxAttempts := by
      by_contra used
      have selected : (leaseExpired kinds now k && decide (maxAttempts ≤ k.attemptCount)) = false := by
        by_contra spent
        rw [Job.setIf_of _ (Bool.eq_true_of_not_eq_false spent)] at expired
        simp [leaseExpired, expiredForGood] at expired
      rw [Job.setIf_of_not _ selected] at expired
      simp [expired, Nat.le_of_not_lt used] at selected
    have same : k.setIf (fun j => leaseExpired kinds now j && decide (maxAttempts ≤ j.attemptCount)) (expiredForGood now) = k :=
      Job.setIf_of_not _ (by simp [Nat.not_le.mpr left])
    rw [same] at expired ⊢
    simp only [leaseExpired, Bool.and_eq_true, beq_iff_eq] at expired
    refine ⟨.postpone, ?_, by decide, by decide⟩
    simp only [Job.attempts, expired.1.2]
    exact .postpone left

theorem claimJob {kinds : JobKind → Bool} {eligible : Job → Entity → Bool} {idText : JobId → String} {leaseFrom : Instant} :
    Evolves forced ((db.claimJob kinds eligible idText now leaseFrom).2.toList.map (·.id)) db.jobs
      (db.claimJob kinds eligible idText now leaseFrom).1.jobs := by
  rcases db.claimJob_cases kinds eligible idText now leaseFrom with
    none_ | ⟨j, e, due, some_⟩
  · rw [none_]
    exact expireLeases
  · rw [some_]
    obtain ⟨here, _, waiting, _⟩ := mem_claimable.mp due
    exact expireLeases.trans (claim here waiting fun _ => ⟨rfl, rfl⟩)

theorem claimAny {idText : JobId → String} {leaseFrom : Instant} :
    Evolves forced ((db.claimAnyEmbeddingJob env idText now leaseFrom).2.toList.map (·.id)) db.jobs
      (db.claimAnyEmbeddingJob env idText now leaseFrom).1.jobs := by
  unfold claimAnyEmbeddingJob
  have base : Evolves forced ((db.claimEmbeddingJob idText now leaseFrom).2.toList.map (·.id)) db.jobs
      (db.claimEmbeddingJob idText now leaseFrom).1.jobs := claimJob
  split
  · rename_i claimed s given
    rw [given] at base
    exact base
  · rename_i swept given
    rw [given] at base
    exact base.trans claimJob

theorem persistResult {s : Snapshot} : Evolves forced [] db.jobs (db.persistResult env model s now).jobs := by
  rcases persistResult_cases env model db s now with same | ⟨e, running, effect⟩
  · rw [same]
    exact refl forced _
  · obtain ⟨j, found, state, _⟩ := stillRunning_some running
    obtain ⟨here, same⟩ := JobTable.find_some found
    have finishes : Evolves forced [] db.jobs (db.jobs.updateWhere (·.id == s.id) (succeeded now)) := by
      refine update fun k there selected => ⟨.succeed, ?_, by decide, by decide⟩
      obtain rfl := JobTable.id_unique there here ((by simpa using selected : k.id = s.id).trans same.symm)
      simp only [Job.attempts, state]
      exact .succeed
    rcases effect with ⟨_, _, stale⟩ | ⟨_, ⟨_, stored⟩ | ⟨_, stored⟩ | ⟨_, stored⟩⟩
    · rw [stale]
      refine cancel (fun k _ selected => ?_) fun _ => ⟨rfl, rfl⟩
      rw [Bool.and_eq_true, beq_iff_eq, beq_iff_eq] at selected
      simp [selected.2, JobState.live]
    all_goals rw [stored]; exact finishes

theorem retry {jobId : JobId} {error : String} {dueFrom : Instant} {U : EmbeddingDb ν}
    (retried : db.retryEmbeddingJob jobId error now dueFrom = some U) : Evolves forced [] db.jobs U.jobs := by
  rcases db.retryEmbeddingJob_cases jobId error now dueFrom with
    same | ⟨j, found, state, effect⟩
  · obtain rfl := Option.some.inj (same.symm.trans retried)
    exact refl forced _
  · obtain ⟨here, same⟩ := JobTable.find_some found
    have own : ∀ k ∈ db.jobs.rows, (k.id == jobId) = true → k = j := fun k there selected =>
      JobTable.id_unique there here ((by simpa using selected : k.id = jobId).trans same.symm)
    rcases effect with ⟨used, failed⟩ | ⟨left, postponed⟩
    · obtain rfl := Option.some.inj (failed.symm.trans retried)
      refine update fun k there selected => ⟨.giveUp, ?_, by decide, by decide⟩
      obtain rfl := own k there selected
      simp only [Job.attempts, state]
      exact .giveUp used
    · obtain ⟨delay, _, rfl⟩ := Option.map_eq_some_iff.mp (postponed.symm.trans retried)
      refine update fun k there selected => ⟨.postpone, ?_, by decide, by decide⟩
      obtain rfl := own k there selected
      simp only [Job.attempts, state]
      exact .postpone left

theorem archive : Evolves forced [] db.jobs (db.archive id now).jobs := by
  unfold EmbeddingDb.archive
  refine Evolves.then_ ?_ cancelRetrieval
  rw [clearEmbeddingVectorsForEntity_jobs]
  show Evolves forced [] (db.archiveWhere (fun e => e.id == id && e.live) now).jobs _
  exact cancelEmbedding

/-- A transaction that may be refused. -/
theorem ofOption {o : Option (EmbeddingDb ν)} (committed : ∀ U, o = some U → Evolves forced [] db.jobs U.jobs) :
    Evolves forced [] db.jobs (o.getD db).jobs := by
  cases o with
  | none => exact refl forced _
  | some U => exact committed U rfl

theorem reconcile {limit : Nat} {afterId : Option EntityId} {clock : EntityId → Instant} :
    Evolves forced [] db.jobs (db.reconcileEmbeddingJobs env limit afterId clock).1.jobs := by
  refine foldl (fun db e => ?_) _ db
  unfold reconcileEntity
  split
  · exact refl forced _
  · exact enqueueEmbedding nofun

theorem reconcileRetrieval {limit : Nat} {afterId : Option EntityId} {clock : EntityId → Instant} :
    Evolves forced [] db.jobs (db.reconcileRetrievalEmbeddingJobs env limit afterId clock).1.jobs :=
  foldl (fun _ _ => enqueueRetrieval nofun) _ db

end Evolves

namespace EmbeddingSystem

variable {s : EmbeddingSystem ν} {step : EmbeddingStep}

/-- One transaction: the rows move by the machine, and the claims that it grants are counted. -/
theorem next_evolves (env : Env) (model : EmbeddingModel ν) (s : EmbeddingSystem ν) (step : EmbeddingStep) :
    ∃ granted, Evolves (· ∈ forcedKeys env s.db step) granted s.db.jobs (s.next env model step).db.jobs ∧
      (s.next env model step).claimed = s.claimed ++ granted := by
  have reported : ∀ k (f : Snapshot → EmbeddingDb ν), (∀ snapshot, Evolves (· ∈ forcedKeys env s.db step) [] s.db.jobs (f snapshot).jobs) →
      Evolves (· ∈ forcedKeys env s.db step) [] s.db.jobs (s.report k f).db.jobs ∧ (s.report k f).claimed = s.claimed ++ [] := by
    intro k f each
    unfold report
    cases holder : s.worker k with
    | none => exact ⟨.refl _ _, by simp⟩
    | some snapshot =>
      refine ⟨each snapshot, ?_⟩
      simp only [claimed, List.append_nil]
      refine List.ext_getElem? fun i => ?_
      rw [List.getElem?_map, List.getElem?_map, List.getElem?_modify]
      cases s.claims[i]? with
      | none => rfl
      | some c => by_cases here : k = i <;> simp [here]
  cases step with
  | store p drawn copyDrawn now core =>
    exact ⟨[], .ofOption fun U stored => .storeRaw stored fun _ listed => listed, (List.append_nil _).symm⟩
  | replace plan drawn core =>
    exact ⟨[], .ofOption fun U replaced => .replace replaced fun _ listed => listed, (List.append_nil _).symm⟩
  | consolidate items now =>
    exact ⟨[], .ofOption fun U merged => .consolidate merged fun _ listed => listed, (List.append_nil _).symm⟩
  | archive id now => exact ⟨[], .archive, (List.append_nil _).symm⟩
  | reconcile limit afterId now => exact ⟨[], Evolves.reconcile, (List.append_nil _).symm⟩
  | reconcileRetrieval limit afterId now => exact ⟨[], Evolves.reconcileRetrieval, (List.append_nil _).symm⟩
  | claim now leaseFrom =>
    refine ⟨_, Evolves.claimAny, ?_⟩
    simp [next, grant, claimed]
  | persist k now => exact ⟨[], reported k _ fun snapshot => Evolves.persistResult⟩
  | fail k error now dueFrom =>
    refine ⟨[], reported k _ fun snapshot => ?_⟩
    cases retried : s.db.retryEmbeddingJob snapshot.id error now dueFrom with
    | none => exact .refl _ _
    | some U => exact Evolves.retry retried

/-- Every job has its attempts in order. -/
def Sound (s : EmbeddingSystem ν) : Prop := ∀ j ∈ s.db.jobs.rows, AttemptsSound j.attempts

theorem Sound.next (sound : s.Sound) (step : EmbeddingStep) : (s.next env model step).Sound := by
  intro j' there
  obtain ⟨granted, evolves, _⟩ := next_evolves env model s step
  obtain ⟨start, labels, trace, _, _, origin⟩ := evolves.moved j' there
  refine trace.invariant (fun a l b sound move => move.sound sound) ?_
  rcases origin with ⟨j, here, _, _, rfl⟩ | ⟨_, rfl⟩
  · exact sound j here
  · exact attemptsSound_queued

/-- Where the source of a job is not enqueued by force, the job is the same afterwards, its claims are counted, and a
terminal state stays. -/
theorem next_kept (env : Env) (model : EmbeddingModel ν) {j : Job} (here : j ∈ s.db.jobs.rows) (unforced : j.key ∉ forcedKeys env s.db step) :
    ∃ j' ∈ (s.next env model step).db.jobs.rows, j'.id = j.id ∧ j'.key = j.key ∧
      j.attemptCount + (s.next env model step).claimed.count j.id ≤ j'.attemptCount + s.claimed.count j.id ∧
      (j.state.live = false → j'.attempts = j.attempts) := by
  obtain ⟨granted, evolves, claims⟩ := next_evolves env model s step
  obtain ⟨j', there, id, key⟩ := evolves.stays j here
  obtain ⟨start, labels, trace, counted, requeues, origin⟩ := evolves.moved j' there
  have kept : ∀ l ∈ labels, l ≠ .requeue := by
    rintro l listed rfl
    exact unforced (key ▸ requeues listed)
  obtain rfl : start = j.attempts := by
    rcases origin with ⟨k, old, same, _, rfl⟩ | ⟨new, _⟩
    · rw [JobTable.id_unique old here (same.trans id)]
    · exact absurd (s.db.jobs.below j here) (Nat.not_lt.mpr (id ▸ new))
  refine ⟨j', there, id, key, ?_, fun terminal => ?_⟩
  · have spent := trace.spends Prod.snd JobLabel.claim (fun a l b allowed move => move.counts allowed) kept
    rw [counted, id] at spent
    have attempts : j.attemptCount + granted.count j.id ≤ j'.attemptCount := spent
    rw [claims, List.count_append]
    omega
  · exact trace.stuck (· = .requeue) (fun l b move => move.of_terminal terminal) kept

/-- What the job tables promise in a state: the attempts are bounded, a retry finds its delay, a terminal job is left alone,
and without an enqueue a job is claimed at most as often as there are attempts. -/
structure JobMachine (env : Env) (model : EmbeddingModel ν) (s : EmbeddingSystem ν) : Prop where
  bounded : ∀ j ∈ s.db.jobs.rows, j.attemptCount ≤ maxAttempts
  delays : ∀ j ∈ s.db.jobs.rows, j.state = .running → j.attemptCount < maxAttempts →
    1 ≤ j.attemptCount ∧ (retryDelay (j.attemptCount - 1)).isSome = true
  terminal : ∀ step, ∀ j ∈ s.db.jobs.rows, j.state.live = false → ∀ j' ∈ (s.next env model step).db.jobs.rows, j'.id = j.id →
    j'.state ≠ j.state → j.key ∈ forcedKeys env s.db step
  claims : ∀ steps, ∀ j ∈ s.db.jobs.rows,
    Runs.Guarded (next env model) (fun step t => j.key ∉ forcedKeys env t.db step) steps s →
      ∀ t ∈ Runs.states (next env model) steps s, t.claimed.count j.id ≤ s.claimed.count j.id + maxAttempts

theorem Sound.delays {j : Job} (sound : s.Sound) (here : j ∈ s.db.jobs.rows) (running : j.state = .running)
    (left : j.attemptCount < maxAttempts) : 1 ≤ j.attemptCount ∧ (retryDelay (j.attemptCount - 1)).isSome = true := by
  have used : 0 < j.attemptCount := (sound j here).used running
  refine ⟨used, ?_⟩
  have index : ((j.attemptCount : Int) - 1).toNat < embeddingRetryDelaysS.length := by
    have bound : j.attemptCount < embeddingRetryDelaysS.length := left
    omega
  rw [retryDelay, if_pos (by omega), List.getElem?_eq_getElem index]
  rfl

/-- Without an enqueue of its source a job pays for every claim with an attempt. -/
theorem Sound.claims (sound : s.Sound) {j : Job} (here : j ∈ s.db.jobs.rows) {steps : List EmbeddingStep}
    (unforced : Runs.Guarded (EmbeddingSystem.next env model) (fun step t => j.key ∉ forcedKeys env t.db step) steps s) :
    ∀ t ∈ Runs.states (EmbeddingSystem.next env model) steps s, t.claimed.count j.id ≤ s.claimed.count j.id + maxAttempts := by
  intro t reached
  have paid : t.Sound ∧ ∃ j' ∈ t.db.jobs.rows, j'.id = j.id ∧ j'.key = j.key ∧
      j.attemptCount + t.claimed.count j.id ≤ j'.attemptCount + s.claimed.count j.id := by
    refine Runs.invariant_of_guarded (P := fun t : EmbeddingSystem ν => t.Sound ∧ ∃ j' ∈ t.db.jobs.rows, j'.id = j.id ∧ j'.key = j.key ∧
      j.attemptCount + t.claimed.count j.id ≤ j'.attemptCount + s.claimed.count j.id) ?_ ⟨sound, j, here, rfl, rfl, by omega⟩ unforced t reached
    rintro u step ⟨sound, j', there, id, key, paid⟩ allowed
    obtain ⟨j'', later, id', key', counted, _⟩ := next_kept env model there (key ▸ allowed)
    refine ⟨sound.next step, j'', later, id'.trans id, key'.trans key, ?_⟩
    rw [id] at counted
    omega
  obtain ⟨sound, j', there, _, _, paid⟩ := paid
  have bounded : j'.attemptCount ≤ maxAttempts := (sound j' there).bounded
  omega

theorem Sound.machine (sound : s.Sound) : s.JobMachine env model where
  bounded j here := (sound j here).bounded
  delays j here := sound.delays here
  terminal step j here terminal j' there id moved := by
    by_contra unforced
    obtain ⟨k, later, same, _, _, kept⟩ := next_kept env model here unforced
    rw [JobTable.id_unique there later (id.trans same.symm)] at moved
    exact moved (congrArg Prod.fst (kept terminal))
  claims steps j here unforced := sound.claims here unforced

/-- In every run of the services, the recovery and any number of workers, the job tables keep what they promise. -/
theorem jobMachine_runs (env : Env) (model : EmbeddingModel ν) (entities : EntityTable)
    (embeddingStatus : EntityId → EmbeddingStatus) (steps : List EmbeddingStep) :
    ∀ s ∈ Runs.states (next env model) steps (initial entities embeddingStatus), s.JobMachine env model := by
  intro s reached
  have sound : s.Sound := Runs.invariant (P := Sound) (fun t step sound => sound.next step) (by simp [Sound, initial, JobTable.empty]) s reached
  exact sound.machine

end EmbeddingSystem

/-- A model whose vector of a text is the text. -/
def EmbeddingModel.plain : EmbeddingModel String := ⟨fun text => text, fun text => [text]⟩

def noteTable : EntityTable := ⟨[memoryRow "note" "Note" "text"], by decide⟩

namespace EmbeddingSystem

/-- A legacy memory after its recovery. -/
theorem recovered_machine : ((initial noteTable fun _ => .pending).next Env.plain .plain (.reconcile 1 none fun _ => 0)).JobMachine
    Env.plain .plain :=
  jobMachine_runs Env.plain .plain noteTable (fun _ => .pending) [.reconcile 1 none fun _ => 0] _ (by simp [Runs.states])

end EmbeddingSystem
end SaltMdb
