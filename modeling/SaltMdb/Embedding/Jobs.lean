import Mathlib.Data.List.Pairwise
import SaltMdb.Store.Data

/-! The rows of `embedding_jobs` and `retrieval_embedding_jobs`, in one table that the kind of the job tells apart. -/

namespace SaltMdb

def seconds (n : Int) : Instant := n * 1000000

def embeddingRetryDelaysS : List Int := [1, 5, 30, 120, 600]

def embeddingLeaseS : Int := 120

abbrev JobId := Nat

/-- The columns that statements set. -/
structure JobColumns where
  state : JobState
  attemptCount : Nat
  nextAttemptAt : Option Instant
  leaseExpiresAt : Option Instant
  lastError : Option String
  updatedAt : Instant
  completedAt : Option Instant
deriving DecidableEq, Repr

/-- `UNIQUE(entity_id, job_kind, source_hash)`, and `UNIQUE(entity_id, source_hash)` of the retrieval jobs. -/
structure JobKey where
  entityId : EntityId
  kind : JobKind
  sourceHash : String
deriving DecidableEq, Repr

structure Job extends JobColumns where
  id : JobId
  key : JobKey
  createdAt : Instant
deriving DecidableEq, Repr

/-- `state IN ('queued','running','retry_wait')`. -/
def JobState.live : JobState → Bool
  | .queued | .running | .retryWait => true
  | .succeeded | .failed | .cancelled => false

/-- `state IN ('queued','retry_wait')`. -/
def JobState.waiting : JobState → Bool
  | .queued | .retryWait => true
  | .running | .succeeded | .failed | .cancelled => false

theorem JobState.live_iff {s : JobState} : s.live = true ↔ s.waiting = true ∨ s = .running := by
  cases s <;> decide

namespace Job

variable (sel : Job → Bool) (f : JobColumns → JobColumns) (j : Job)

/-- An update of the columns, applied to the rows a `WHERE` selects. -/
def setIf : Job := if sel j then { j with toJobColumns := f j.toJobColumns } else j

@[simp] theorem setIf_id : (j.setIf sel f).id = j.id := by unfold setIf; split <;> rfl
@[simp] theorem setIf_key : (j.setIf sel f).key = j.key := by unfold setIf; split <;> rfl
@[simp] theorem setIf_createdAt : (j.setIf sel f).createdAt = j.createdAt := by unfold setIf; split <;> rfl

variable {sel j}

theorem setIf_of (selected : sel j = true) : j.setIf sel f = { j with toJobColumns := f j.toJobColumns } := if_pos selected

theorem setIf_of_not (other : sel j = false) : j.setIf sel f = j := by simp [setIf, other]

end Job

structure JobTable where
  rows : List Job
  next : JobId
  below : ∀ j ∈ rows, j.id < next
  distinct : rows.Pairwise fun a b => a.id ≠ b.id
  unique : rows.Pairwise fun a b => a.key ≠ b.key
deriving DecidableEq

namespace JobTable

def empty : JobTable where
  rows := []
  next := 0
  below := by simp
  distinct := .nil
  unique := .nil

def find (T : JobTable) (id : JobId) : Option Job := T.rows.find? (·.id == id)

def findKey (T : JobTable) (key : JobKey) : Option Job := T.rows.find? (·.key == key)

def updateWhere (T : JobTable) (sel : Job → Bool) (f : JobColumns → JobColumns) : JobTable where
  rows := T.rows.map (·.setIf sel f)
  next := T.next
  below := by
    intro j member
    obtain ⟨old, oldMember, rfl⟩ := List.mem_map.mp member
    simpa using T.below old oldMember
  distinct := by
    rw [List.pairwise_map]
    exact T.distinct.imp fun h => by simpa using h
  unique := by
    rw [List.pairwise_map]
    exact T.unique.imp fun h => by simpa using h

variable {T : JobTable} {key : JobKey} {id : JobId} {j : Job}

theorem findKey_none : T.findKey key = none ↔ ∀ j ∈ T.rows, j.key ≠ key := by
  simp only [findKey, List.find?_eq_none, beq_iff_eq]

theorem findKey_some (h : T.findKey key = some j) : j ∈ T.rows ∧ j.key = key := by
  have found := List.find?_some h
  exact ⟨List.mem_of_find?_eq_some h, by simpa using found⟩

theorem find_some (h : T.find id = some j) : j ∈ T.rows ∧ j.id = id := by
  have found := List.find?_some h
  exact ⟨List.mem_of_find?_eq_some h, by simpa using found⟩

theorem id_unique {a b : Job} (ha : a ∈ T.rows) (hb : b ∈ T.rows) (same : a.id = b.id) : a = b := by
  have symm : Std.Symm fun a b : Job => a.id ≠ b.id := ⟨fun _ _ h => h.symm⟩
  by_contra differ
  exact T.distinct.forall ha hb differ same

theorem key_unique {a b : Job} (ha : a ∈ T.rows) (hb : b ∈ T.rows) (same : a.key = b.key) : a = b := by
  have symm : Std.Symm fun a b : Job => a.key ≠ b.key := ⟨fun _ _ h => h.symm⟩
  by_contra differ
  exact T.unique.forall ha hb differ same

theorem find_mem (h : j ∈ T.rows) : T.find j.id = some j := by
  cases found : T.find j.id with
  | none => exact absurd (beq_self_eq_true j.id) (by simpa using List.find?_eq_none.mp found j h)
  | some other =>
    obtain ⟨member, same⟩ := find_some found
    rw [id_unique member h same]

theorem findKey_mem (h : j ∈ T.rows) : T.findKey j.key = some j := by
  cases found : T.findKey j.key with
  | none => exact absurd rfl (findKey_none.mp found j h)
  | some other =>
    obtain ⟨member, same⟩ := findKey_some found
    rw [key_unique member h same]

/-- A queued row as the enqueue statements write it. -/
def queued (now : Instant) : JobColumns where
  state := .queued
  attemptCount := 0
  nextAttemptAt := some now
  leaseExpiresAt := none
  lastError := none
  updatedAt := now
  completedAt := none

def insert (T : JobTable) (key : JobKey) (now : Instant) (free : T.findKey key = none) : JobTable where
  rows := T.rows ++ [{ queued now with id := T.next, key := key, createdAt := now }]
  next := T.next + 1
  below := by
    intro j member
    rcases List.mem_append.mp member with old | new
    · exact Nat.lt_succ_of_lt (T.below j old)
    · obtain rfl := List.mem_singleton.mp new
      exact Nat.lt_succ_self T.next
  distinct := by
    rw [List.pairwise_append]
    refine ⟨T.distinct, List.pairwise_singleton _ _, ?_⟩
    intro a old b new
    obtain rfl := List.mem_singleton.mp new
    exact Nat.ne_of_lt (T.below a old)
  unique := by
    rw [List.pairwise_append]
    refine ⟨T.unique, List.pairwise_singleton _ _, ?_⟩
    intro a old b new
    obtain rfl := List.mem_singleton.mp new
    exact findKey_none.mp free a old

/-- `INSERT … ON CONFLICT DO UPDATE SET state = 'queued', …`: every column starts afresh. -/
def queueAgain (T : JobTable) (key : JobKey) (now : Instant) : JobTable :=
  if free : T.findKey key = none then T.insert key now free else T.updateWhere (·.key == key) fun _ => queued now

/-- `INSERT OR IGNORE`. -/
def queueMissing (T : JobTable) (key : JobKey) (now : Instant) : JobTable :=
  if free : T.findKey key = none then T.insert key now free else T

variable {sel : Job → Bool} {f : JobColumns → JobColumns} {now : Instant}

theorem mem_updateWhere : j ∈ (T.updateWhere sel f).rows ↔ ∃ old ∈ T.rows, old.setIf sel f = j := by
  simp only [updateWhere, List.mem_map]

theorem mem_insert {free : T.findKey key = none} :
    j ∈ (T.insert key now free).rows ↔ j ∈ T.rows ∨ j = { queued now with id := T.next, key := key, createdAt := now } := by
  simp only [insert, List.mem_append, List.mem_singleton]

/-- A statement that selects no row changes none. -/
theorem updateWhere_of_none (none_ : ∀ j ∈ T.rows, sel j = false) : T.updateWhere sel f = T := by
  have same : T.rows.map (·.setIf sel f) = T.rows := by
    rw [List.map_congr_left fun j here => Job.setIf_of_not f (none_ j here), List.map_id']
  obtain ⟨rows, next, below, distinct, unique⟩ := T
  simp only [updateWhere, mk.injEq, and_true]
  exact same

end JobTable
end SaltMdb
