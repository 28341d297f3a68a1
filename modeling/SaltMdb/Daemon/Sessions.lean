import Mathlib.Data.List.Nodup
import Mathlib.Data.String.Basic
import SaltMdb.Library.Runs

/-! The ledger of agent sessions: what a row says is a matter of the writes to it, and late activity updates make no difference. -/

namespace SaltMdb
open Runs

inductive EndedReason where
  | goodbye
  | orphaned
deriving DecidableEq, Repr

/-- A row of `_agent_sessions`, with times as text. -/
structure LedgerSession where
  sessionId : String
  cwd : Option String
  startedAt : String
  agentId : Option String
  lastActivityAt : Option String
  endedAt : Option String
  endedReason : Option EndedReason
deriving DecidableEq, Repr

@[ext] structure SessionLedger where
  rows : List LedgerSession
  keys : (rows.map LedgerSession.sessionId).Nodup

/-- The later of the two times: the new one where there was none. -/
def laterActivity (last : Option String) (received : String) : Option String :=
  match last with
  | none => some received
  | some last => if last < received then some received else some last

namespace SessionLedger

def empty : SessionLedger where
  rows := []
  keys := List.nodup_nil

variable (ledger : SessionLedger) (sessionId : String)

def find : Option LedgerSession := ledger.rows.find? (·.sessionId == sessionId)

def updateRows (f : LedgerSession → LedgerSession) (keeps : ∀ s, (f s).sessionId = s.sessionId) : SessionLedger where
  rows := ledger.rows.map f
  keys := by
    have same : LedgerSession.sessionId ∘ f = LedgerSession.sessionId := funext keeps
    rw [List.map_map, same]
    exact ledger.keys

/-- `ON CONFLICT(session_id) DO UPDATE`. -/
def enrich (cwd : Option String) (startedAt : String) (agentId : Option String) (s : LedgerSession) : LedgerSession :=
  if s.sessionId = sessionId then
    { s with
      cwd := s.cwd.or cwd
      agentId := s.agentId.or agentId
      lastActivityAt := laterActivity s.lastActivityAt startedAt
      endedAt := none
      endedReason := none }
  else s

theorem enrich_sessionId (cwd : Option String) (startedAt : String) (agentId : Option String) (s : LedgerSession) :
    (enrich sessionId cwd startedAt agentId s).sessionId = s.sessionId := by
  unfold enrich
  split <;> rfl

def register (cwd : Option String) (startedAt : String) (agentId : Option String) : LedgerSession where
  sessionId := sessionId
  cwd := cwd
  startedAt := startedAt
  agentId := agentId
  lastActivityAt := some startedAt
  endedAt := none
  endedReason := none

def recordSession (cwd : Option String) (startedAt : String) (agentId : Option String) : SessionLedger :=
  if known : ∃ s ∈ ledger.rows, s.sessionId = sessionId then
    ledger.updateRows (enrich sessionId cwd startedAt agentId) (enrich_sessionId sessionId cwd startedAt agentId)
  else
    { rows := ledger.rows ++ [register sessionId cwd startedAt agentId]
      keys := by
        rw [List.map_append]
        refine List.Nodup.append ledger.keys (List.nodup_singleton _) fun id old new => known ?_
        obtain ⟨s, listed, same⟩ := List.mem_map.mp old
        exact ⟨s, listed, same.trans (List.mem_singleton.mp new)⟩ }

def touch (receivedAt : String) (s : LedgerSession) : LedgerSession :=
  if s.sessionId = sessionId then { s with lastActivityAt := laterActivity s.lastActivityAt receivedAt } else s

theorem touch_sessionId (receivedAt : String) (s : LedgerSession) : (touch sessionId receivedAt s).sessionId = s.sessionId := by
  unfold touch
  split <;> rfl

def touchSession (receivedAt : String) : SessionLedger :=
  ledger.updateRows (touch sessionId receivedAt) (touch_sessionId sessionId receivedAt)

def close (endedAt : String) (s : LedgerSession) : LedgerSession :=
  if s.sessionId = sessionId ∧ s.endedAt = none then { s with endedAt := some endedAt, endedReason := some .goodbye } else s

theorem close_sessionId (endedAt : String) (s : LedgerSession) : (close sessionId endedAt s).sessionId = s.sessionId := by
  unfold close
  split <;> rfl

def closeSession (endedAt : String) : SessionLedger :=
  ledger.updateRows (close sessionId endedAt) (close_sessionId sessionId endedAt)

def orphan (s : LedgerSession) : LedgerSession :=
  if s.endedAt = none then { s with endedAt := s.lastActivityAt.or (some s.startedAt), endedReason := some .orphaned } else s

theorem orphan_sessionId (s : LedgerSession) : (orphan s).sessionId = s.sessionId := by
  unfold orphan
  split <;> rfl

/-- With the number of rows that were closed. -/
def reconcileOrphanedSessions : SessionLedger × Nat :=
  (ledger.updateRows orphan orphan_sessionId, ledger.rows.countP fun s => decide (s.endedAt = none))

end SessionLedger

/-- The writes of the daemon, each a job of the coordinator. -/
inductive SessionWrite where
  | record (sessionId : String) (cwd : Option String) (startedAt : String) (agentId : Option String)
  | touch (sessionId receivedAt : String)
  | close (sessionId endedAt : String)
  | reconcile
deriving DecidableEq, Repr

namespace SessionWrite

def run (ledger : SessionLedger) : SessionWrite → SessionLedger
  | record sessionId cwd startedAt agentId => ledger.recordSession sessionId cwd startedAt agentId
  | touch sessionId receivedAt => ledger.touchSession sessionId receivedAt
  | close sessionId endedAt => ledger.closeSession sessionId endedAt
  | reconcile => ledger.reconcileOrphanedSessions.1

/-- What a write says to the row of a session. -/
def advance (s : LedgerSession) : SessionWrite → LedgerSession
  | record sessionId cwd startedAt agentId => SessionLedger.enrich sessionId cwd startedAt agentId s
  | touch sessionId receivedAt => SessionLedger.touch sessionId receivedAt s
  | close sessionId endedAt => SessionLedger.close sessionId endedAt s
  | reconcile => SessionLedger.orphan s

def records (id : String) : SessionWrite → Bool
  | record sessionId _ _ _ => sessionId == id
  | _ => false

def closes (id : String) : SessionWrite → Bool
  | close sessionId _ => sessionId == id
  | reconcile => true
  | _ => false

/-- Activity updates are queued behind everything else. -/
def late : SessionWrite → Bool
  | touch _ _ => true
  | _ => false

def offeredCwd (id : String) : SessionWrite → Option String
  | record sessionId cwd _ _ => if sessionId = id then cwd else none
  | _ => none

def offeredAgentId (id : String) : SessionWrite → Option String
  | record sessionId _ _ agentId => if sessionId = id then agentId else none
  | _ => none

def activity (id : String) : SessionWrite → Option String
  | record sessionId _ startedAt _ => if sessionId = id then some startedAt else none
  | touch sessionId receivedAt => if sessionId = id then some receivedAt else none
  | _ => none

/-- The end that a write gives a row that has none. -/
def ending (s : LedgerSession) : SessionWrite → Option String × Option EndedReason
  | close _ endedAt => (some endedAt, some .goodbye)
  | reconcile => (s.lastActivityAt.or (some s.startedAt), some .orphaned)
  | _ => (none, none)

/-! ### One row -/

variable {ledger : SessionLedger} {s : LedgerSession} {write : SessionWrite} {writes : List SessionWrite} {id : String}

theorem advance_sessionId : (advance s write).sessionId = s.sessionId := by
  cases write with
  | record sessionId cwd startedAt agentId => exact SessionLedger.enrich_sessionId sessionId cwd startedAt agentId s
  | touch sessionId receivedAt => exact SessionLedger.touch_sessionId sessionId receivedAt s
  | close sessionId endedAt => exact SessionLedger.close_sessionId sessionId endedAt s
  | reconcile => exact SessionLedger.orphan_sessionId s

theorem find_updateRows {f : LedgerSession → LedgerSession} {keeps : ∀ s, (f s).sessionId = s.sessionId} :
    (ledger.updateRows f keeps).find id = (ledger.find id).map f := by
  unfold SessionLedger.find SessionLedger.updateRows
  rw [List.find?_map]
  congr 2
  funext s
  exact congrArg (· == id) (keeps s)

theorem find_run (found : ledger.find id = some s) : (run ledger write).find id = some (advance s write) := by
  cases write with
  | record sessionId cwd startedAt agentId =>
    show (ledger.recordSession sessionId cwd startedAt agentId).find id = _
    unfold SessionLedger.recordSession
    split
    · rw [find_updateRows, found]
      rfl
    · rename_i unknown
      have apart : s.sessionId ≠ sessionId := fun same => unknown ⟨s, List.mem_of_find?_eq_some found, same⟩
      have same : advance s (.record sessionId cwd startedAt agentId) = s := if_neg apart
      rw [same]
      unfold SessionLedger.find at found ⊢
      rw [List.find?_append, found]
      rfl
  | touch sessionId receivedAt =>
    show (ledger.updateRows _ (SessionLedger.touch_sessionId sessionId receivedAt)).find id = _
    rw [find_updateRows, found]
    rfl
  | close sessionId endedAt =>
    show (ledger.updateRows _ (SessionLedger.close_sessionId sessionId endedAt)).find id = _
    rw [find_updateRows, found]
    rfl
  | reconcile =>
    show (ledger.updateRows _ SessionLedger.orphan_sessionId).find id = _
    rw [find_updateRows, found]
    rfl

/-- A row comes with the first record of its session. -/
theorem find_run_none (missing : ledger.find id = none) : (run ledger write).find id =
    match write with
    | record sessionId cwd startedAt agentId => if sessionId = id then some (SessionLedger.register sessionId cwd startedAt agentId) else none
    | _ => none := by
  cases write with
  | record sessionId cwd startedAt agentId =>
    show (ledger.recordSession sessionId cwd startedAt agentId).find id = _
    unfold SessionLedger.recordSession
    split
    · rename_i known
      obtain ⟨s, listed, own⟩ := known
      have apart : sessionId ≠ id := by
        rintro rfl
        exact absurd (beq_iff_eq.mpr own) (List.find?_eq_none.mp missing s listed)
      rw [find_updateRows, missing]
      dsimp only
      rw [if_neg apart]
      rfl
    · unfold SessionLedger.find at missing ⊢
      rw [List.find?_append, missing, List.find?_singleton, Option.none_or]
      refine if_congr ?_ rfl rfl
      exact beq_iff_eq
  | touch sessionId receivedAt =>
    show (ledger.updateRows _ (SessionLedger.touch_sessionId sessionId receivedAt)).find id = _
    rw [find_updateRows, missing]
    rfl
  | close sessionId endedAt =>
    show (ledger.updateRows _ (SessionLedger.close_sessionId sessionId endedAt)).find id = _
    rw [find_updateRows, missing]
    rfl
  | reconcile =>
    show (ledger.updateRows _ SessionLedger.orphan_sessionId).find id = _
    rw [find_updateRows, missing]
    rfl

theorem find_foldl (found : ledger.find id = some s) : (writes.foldl run ledger).find id = some (writes.foldl advance s) := by
  induction writes generalizing ledger s with
  | nil => exact found
  | cons write writes ih => exact ih (find_run found)

theorem find_foldl_none (missing : ledger.find id = none) (unrecorded : ∀ write ∈ writes, write.records id = false) :
    (writes.foldl run ledger).find id = none := by
  induction writes generalizing ledger with
  | nil => exact missing
  | cons write writes ih =>
    refine ih ?_ fun other later => unrecorded other (List.mem_cons_of_mem _ later)
    have other := unrecorded write List.mem_cons_self
    rw [find_run_none missing]
    cases write with
    | record sessionId cwd startedAt agentId =>
      dsimp only
      rw [if_neg fun same => ?_]
      subst same
      simp [records] at other
    | _ => rfl

/-! ### What the writes leave in it -/

theorem laterActivity_eq (last : Option String) (received : String) :
    laterActivity last received = some ((last.map fun last => max last received).getD received) := by
  unfold laterActivity
  cases last with
  | none => rfl
  | some last =>
    dsimp only
    split
    · rename_i before
      rw [Option.map_some, Option.getD_some, max_eq_right (le_of_lt before)]
    · rename_i after
      rw [Option.map_some, Option.getD_some, max_eq_left (not_lt.mp after)]

theorem laterActivity_comm (last : Option String) (first second : String) :
    laterActivity (laterActivity last first) second = laterActivity (laterActivity last second) first := by
  simp only [laterActivity_eq, Option.map_some, Option.getD_some]
  cases last with
  | none => exact congrArg some (max_comm first second)
  | some last => exact congrArg some (max_right_comm last first second)

theorem advance_cwd : (advance s write).cwd = s.cwd.or (write.offeredCwd s.sessionId) := by
  cases write with
  | record sessionId cwd startedAt agentId =>
    simp only [advance, SessionLedger.enrich, offeredCwd, eq_comm]
    split <;> simp
  | touch | close | reconcile =>
    simp only [advance, SessionLedger.touch, SessionLedger.close, SessionLedger.orphan, offeredCwd, Option.or_none]
    split <;> rfl

theorem advance_agentId : (advance s write).agentId = s.agentId.or (write.offeredAgentId s.sessionId) := by
  cases write with
  | record sessionId cwd startedAt agentId =>
    simp only [advance, SessionLedger.enrich, offeredAgentId, eq_comm]
    split <;> simp
  | touch | close | reconcile =>
    simp only [advance, SessionLedger.touch, SessionLedger.close, SessionLedger.orphan, offeredAgentId, Option.or_none]
    split <;> rfl

theorem advance_startedAt : (advance s write).startedAt = s.startedAt := by
  cases write with
  | record | touch | close | reconcile =>
    simp only [advance, SessionLedger.enrich, SessionLedger.touch, SessionLedger.close, SessionLedger.orphan]
    split <;> rfl

theorem advance_activity : (advance s write).lastActivityAt =
    match write.activity s.sessionId with
    | some received => laterActivity s.lastActivityAt received
    | none => s.lastActivityAt := by
  cases write with
  | record sessionId cwd startedAt agentId =>
    simp only [advance, SessionLedger.enrich, activity, eq_comm]
    split <;> rfl
  | touch sessionId receivedAt =>
    simp only [advance, SessionLedger.touch, activity, eq_comm]
    split <;> rfl
  | close | reconcile =>
    simp only [advance, SessionLedger.close, SessionLedger.orphan, activity]
    split <;> rfl

/-- How a row stands at its end. -/
def ended (s : LedgerSession) : Option String × Option EndedReason := (s.endedAt, s.endedReason)

theorem advance_reopened (reopens : write.records s.sessionId = true) : ended (advance s write) = (none, none) := by
  cases write with
  | record sessionId cwd startedAt agentId =>
    have own : s.sessionId = sessionId := (beq_iff_eq.mp reopens).symm
    simp only [advance, SessionLedger.enrich, ended, if_pos own]
  | touch | close | reconcile => exact absurd reopens Bool.false_ne_true

theorem advance_closed (closing : write.closes s.sessionId = true) (open_ : s.endedAt = none) : ended (advance s write) = write.ending s := by
  cases write with
  | close sessionId endedAt =>
    have own : s.sessionId = sessionId := (beq_iff_eq.mp closing).symm
    simp only [advance, SessionLedger.close, ended, ending, if_pos (And.intro own open_)]
  | reconcile => simp only [advance, SessionLedger.orphan, ended, ending, if_pos open_]
  | record | touch => exact absurd closing Bool.false_ne_true

/-- What opens no row leaves an end as it is, and what closes none leaves a row open. -/
theorem advance_ended (still : write.records s.sessionId = false) (idle : s.endedAt ≠ none ∨ write.closes s.sessionId = false) :
    ended (advance s write) = ended s := by
  cases write with
  | record sessionId cwd startedAt agentId =>
    have apart : s.sessionId ≠ sessionId := fun same => by simp [records, same] at still
    simp only [advance, SessionLedger.enrich, if_neg apart]
  | touch sessionId receivedAt =>
    simp only [advance, SessionLedger.touch, ended]
    split <;> rfl
  | close sessionId endedAt =>
    have none_ : ¬ (s.sessionId = sessionId ∧ s.endedAt = none) := by
      rintro ⟨own, open_⟩
      exact idle.elim (fun shut => shut open_) fun other => by simp [closes, own] at other
    simp only [advance, SessionLedger.close, if_neg none_]
  | reconcile =>
    have shut : s.endedAt ≠ none := idle.resolve_right fun other => Bool.noConfusion other
    simp only [advance, SessionLedger.orphan, if_neg shut]

theorem ending_some (closing : write.closes id = true) : (write.ending s).1 ≠ none := by
  cases write with
  | close sessionId endedAt => exact Option.some_ne_none _
  | reconcile => cases last : s.lastActivityAt <;> simp [ending, last]
  | record | touch => exact absurd closing Bool.false_ne_true

/-- What a row says after some writes. -/
structure Continues (s : LedgerSession) (writes : List SessionWrite) (after : LedgerSession) : Prop where
  sessionId : after.sessionId = s.sessionId
  startedAt : after.startedAt = s.startedAt
  cwd : after.cwd = (s.cwd :: writes.map (offeredCwd s.sessionId)).reduceOption.head?
  agentId : after.agentId = (s.agentId :: writes.map (offeredAgentId s.sessionId)).reduceOption.head?
  activity : after.lastActivityAt = (s.lastActivityAt :: writes.map (activity s.sessionId)).reduceOption.max?
  /-- An end stands as long as the session is not recorded again. -/
  kept : (∀ write ∈ writes, write.records s.sessionId = false) →
    (s.endedAt ≠ none ∨ ∀ write ∈ writes, write.closes s.sessionId = false) → ended after = ended s
  /-- A session that was recorded and not closed since is open. -/
  reopened : ∀ before write rest, writes = before ++ write :: rest → write.records s.sessionId = true →
    (∀ other ∈ rest, other.closes s.sessionId = false) → ended after = (none, none)
  /-- The first close of an open session gives it its end. -/
  closed : ∀ before write rest, writes = before ++ write :: rest → write.closes s.sessionId = true →
    (before.foldl advance s).endedAt = none → (∀ other ∈ rest, other.records s.sessionId = false) →
    ended after = write.ending (before.foldl advance s)

theorem foldl_sessionId : (writes.foldl advance s).sessionId = s.sessionId := by
  induction writes generalizing s with
  | nil => rfl
  | cons write writes ih => exact ih.trans advance_sessionId

theorem foldl_startedAt : (writes.foldl advance s).startedAt = s.startedAt := by
  induction writes generalizing s with
  | nil => rfl
  | cons write writes ih => exact ih.trans advance_startedAt

/-- A column that a write fills where it is empty has what was first offered. -/
theorem foldl_first {column : LedgerSession → Option String} {offered : String → SessionWrite → Option String}
    (fills : ∀ s write, column (advance s write) = (column s).or (offered s.sessionId write)) (s : LedgerSession) (writes : List SessionWrite) :
    column (writes.foldl advance s) = (column s :: writes.map (offered s.sessionId)).reduceOption.head? := by
  induction writes generalizing s with
  | nil =>
    show column s = [column s].reduceOption.head?
    cases column s <;> rfl
  | cons write writes ih =>
    rw [List.foldl_cons, ih, fills, advance_sessionId, List.map_cons]
    cases column s with
    | none =>
      rw [Option.none_or]
      rfl
    | some value => rfl

theorem foldl_activity (s : LedgerSession) (writes : List SessionWrite) :
    (writes.foldl advance s).lastActivityAt = (s.lastActivityAt :: writes.map (activity s.sessionId)).reduceOption.max? := by
  induction writes generalizing s with
  | nil =>
    show s.lastActivityAt = [s.lastActivityAt].reduceOption.max?
    cases s.lastActivityAt <;> rfl
  | cons write writes ih =>
    rw [List.foldl_cons, ih, advance_activity, advance_sessionId, List.map_cons]
    cases write.activity s.sessionId with
    | none =>
      cases s.lastActivityAt <;> rfl
    | some received =>
      dsimp only
      rw [laterActivity_eq]
      cases s.lastActivityAt <;> rfl

theorem foldl_ended (still : ∀ write ∈ writes, write.records s.sessionId = false)
    (idle : s.endedAt ≠ none ∨ ∀ write ∈ writes, write.closes s.sessionId = false) : ended (writes.foldl advance s) = ended s := by
  induction writes generalizing s with
  | nil => rfl
  | cons write writes ih =>
    have same : ended (advance s write) = ended s :=
      advance_ended (still write List.mem_cons_self) (idle.imp_right fun none_ => none_ write List.mem_cons_self)
    refine (ih ?_ ?_).trans same
    · rw [advance_sessionId]
      exact fun other later => still other (List.mem_cons_of_mem _ later)
    · rw [advance_sessionId, show (advance s write).endedAt = s.endedAt from congrArg Prod.fst same]
      exact idle.imp_right fun none_ other later => none_ other (List.mem_cons_of_mem _ later)

theorem foldl_open (open_ : ended s = (none, none)) (none_ : ∀ write ∈ writes, write.closes s.sessionId = false) :
    ended (writes.foldl advance s) = (none, none) := by
  induction writes generalizing s with
  | nil => exact open_
  | cons write writes ih =>
    refine ih ?_ ?_
    · cases reopens : write.records s.sessionId with
      | true => exact advance_reopened reopens
      | false => exact (advance_ended reopens (.inr (none_ write List.mem_cons_self))).trans open_
    · rw [advance_sessionId]
      exact fun other later => none_ other (List.mem_cons_of_mem _ later)

theorem continues (s : LedgerSession) (writes : List SessionWrite) : Continues s writes (writes.foldl advance s) where
  sessionId := foldl_sessionId
  startedAt := foldl_startedAt
  cwd := foldl_first (fun _ _ => advance_cwd) s writes
  agentId := foldl_first (fun _ _ => advance_agentId) s writes
  activity := foldl_activity s writes
  kept := foldl_ended
  reopened := by
    rintro before write rest rfl reopens none_
    rw [List.foldl_append, List.foldl_cons]
    refine foldl_open (advance_reopened ?_) ?_
    · rwa [foldl_sessionId]
    · rwa [advance_sessionId, foldl_sessionId]
  closed := by
    rintro before write rest rfl closing open_ still
    have gives : ended (advance (before.foldl advance s) write) = write.ending (before.foldl advance s) :=
      advance_closed (by rwa [foldl_sessionId]) open_
    rw [List.foldl_append, List.foldl_cons, ← gives]
    refine foldl_ended ?_ (.inl ?_)
    · rwa [advance_sessionId, foldl_sessionId]
    · rw [show (advance (before.foldl advance s) write).endedAt = (write.ending (before.foldl advance s)).1 from congrArg Prod.fst gives]
      exact ending_some closing

/-- The ledger tells what was written: a session is in it from its first record on, with what its writes say since. -/
theorem ledger_tells (ledger : SessionLedger) (writes : List SessionWrite) (id : String) :
    (∀ s, ledger.find id = some s → ∃ after, (writes.foldl run ledger).find id = some after ∧ Continues s writes after) ∧
    (ledger.find id = none →
      ((writes.foldl run ledger).find id = none ↔ ∀ write ∈ writes, write.records id = false) ∧
      ∀ before cwd startedAt agentId rest, writes = before ++ record id cwd startedAt agentId :: rest →
        (∀ write ∈ before, write.records id = false) →
        ∃ after, (writes.foldl run ledger).find id = some after ∧
          Continues (SessionLedger.register id cwd startedAt agentId) rest after) := by
  refine ⟨fun s found => ⟨_, find_foldl found, continues s writes⟩, fun missing => ?_⟩
  have told : ∀ before cwd startedAt agentId rest, writes = before ++ record id cwd startedAt agentId :: rest →
      (∀ write ∈ before, write.records id = false) → ∃ after, (writes.foldl run ledger).find id = some after ∧
        Continues (SessionLedger.register id cwd startedAt agentId) rest after := by
    rintro before cwd startedAt agentId rest rfl unrecorded
    have first : (run (before.foldl run ledger) (record id cwd startedAt agentId)).find id =
        some (SessionLedger.register id cwd startedAt agentId) := by
      rw [find_run_none (find_foldl_none missing unrecorded)]
      exact if_pos rfl
    rw [List.foldl_append, List.foldl_cons]
    exact ⟨_, find_foldl first, continues _ rest⟩
  refine ⟨⟨fun absent => ?_, find_foldl_none missing⟩, told⟩
  by_contra recorded
  push Not at recorded
  have some_ : writes.any (records id) = true := by
    obtain ⟨write, listed, reopens⟩ := recorded
    exact List.any_eq_true.mpr ⟨write, listed, by simpa using reopens⟩
  obtain ⟨write, first⟩ := Option.isSome_iff_exists.mp (List.find?_isSome.mpr (List.any_eq_true.mp some_))
  obtain ⟨reopens, before, rest, split, unrecorded⟩ := List.find?_eq_some_iff_append.mp first
  cases write with
  | record sessionId cwd startedAt agentId =>
    obtain rfl : sessionId = id := beq_iff_eq.mp reopens
    obtain ⟨after, found, _⟩ := told before cwd startedAt agentId rest split fun write listed => by simpa using unrecorded write listed
    exact Option.some_ne_none after (found.symm.trans absent)
  | touch | close | reconcile => exact Bool.false_ne_true reopens

/-! ### Late activity -/

theorem run_find_isSome (write : SessionWrite) (known : (ledger.find id).isSome = true) : ((run ledger write).find id).isSome = true := by
  obtain ⟨s, found⟩ := Option.isSome_iff_exists.mp known
  rw [find_run found]
  rfl

/-- Two updates of all rows that pass each other at every row. -/
theorem map_swap {f g : LedgerSession → LedgerSession} (swap : ∀ s, g (f s) = f (g s)) (rows : List LedgerSession) :
    (rows.map f).map g = (rows.map g).map f := by
  rw [List.map_map, List.map_map]
  exact List.map_congr_left fun s _ => swap s

theorem touch_touch {first second firstAt secondAt : String} :
    run (run ledger (touch first firstAt)) (touch second secondAt) = run (run ledger (touch second secondAt)) (touch first firstAt) := by
  apply SessionLedger.ext
  refine map_swap (fun s => ?_) ledger.rows
  by_cases own : s.sessionId = first
  · by_cases other : s.sessionId = second
    · simp only [SessionLedger.touch, if_pos own, if_pos other, laterActivity_comm]
    · simp only [SessionLedger.touch, if_pos own, if_neg other]
  · by_cases other : s.sessionId = second
    · simp only [SessionLedger.touch, if_neg own, if_pos other]
    · simp only [SessionLedger.touch, if_neg own, if_neg other]

theorem touch_close {touched receivedAt closed endedAt : String} :
    run (run ledger (touch touched receivedAt)) (close closed endedAt) = run (run ledger (close closed endedAt)) (touch touched receivedAt) := by
  apply SessionLedger.ext
  refine map_swap (fun s => ?_) ledger.rows
  by_cases own : s.sessionId = touched
  · by_cases open_ : s.sessionId = closed ∧ s.endedAt = none
    · simp only [SessionLedger.touch, SessionLedger.close, if_pos own, if_pos open_]
    · simp only [SessionLedger.touch, SessionLedger.close, if_pos own, if_neg open_]
  · by_cases open_ : s.sessionId = closed ∧ s.endedAt = none
    · simp only [SessionLedger.touch, SessionLedger.close, if_neg own, if_pos open_]
    · simp only [SessionLedger.touch, SessionLedger.close, if_neg own, if_neg open_]

theorem touch_enrich {touched receivedAt sessionId startedAt : String} {cwd agentId : Option String} (s : LedgerSession) :
    SessionLedger.enrich sessionId cwd startedAt agentId (SessionLedger.touch touched receivedAt s) =
      SessionLedger.touch touched receivedAt (SessionLedger.enrich sessionId cwd startedAt agentId s) := by
  by_cases own : s.sessionId = touched
  · by_cases same : s.sessionId = sessionId
    · simp only [SessionLedger.touch, SessionLedger.enrich, if_pos own, if_pos same, laterActivity_comm]
    · simp only [SessionLedger.touch, SessionLedger.enrich, if_pos own, if_neg same]
  · by_cases same : s.sessionId = sessionId
    · simp only [SessionLedger.touch, SessionLedger.enrich, if_neg own, if_pos same]
    · simp only [SessionLedger.touch, SessionLedger.enrich, if_neg own, if_neg same]

/-- A touch passes a record, unless this is the first one of its session. -/
theorem touch_record {touched receivedAt sessionId startedAt : String} {cwd agentId : Option String}
    (known : (ledger.find touched).isSome = true) :
    run (run ledger (touch touched receivedAt)) (record sessionId cwd startedAt agentId) =
      run (run ledger (record sessionId cwd startedAt agentId)) (touch touched receivedAt) := by
  have ids : (∃ s ∈ (ledger.touchSession touched receivedAt).rows, s.sessionId = sessionId) ↔ ∃ s ∈ ledger.rows, s.sessionId = sessionId := by
    show (∃ s ∈ ledger.rows.map (SessionLedger.touch touched receivedAt), s.sessionId = sessionId) ↔ _
    simp only [List.mem_map, exists_exists_and_eq_and, SessionLedger.touch_sessionId]
  apply SessionLedger.ext
  show ((ledger.touchSession touched receivedAt).recordSession sessionId cwd startedAt agentId).rows =
    ((ledger.recordSession sessionId cwd startedAt agentId).rows).map (SessionLedger.touch touched receivedAt)
  unfold SessionLedger.recordSession
  by_cases there : ∃ s ∈ ledger.rows, s.sessionId = sessionId
  · rw [dif_pos there, dif_pos (ids.mpr there)]
    exact map_swap touch_enrich ledger.rows
  · rw [dif_neg there, dif_neg (there ∘ ids.mp)]
    have apart : sessionId ≠ touched := by
      rintro rfl
      obtain ⟨s, found⟩ := Option.isSome_iff_exists.mp known
      exact there ⟨s, List.mem_of_find?_eq_some found, by simpa using List.find?_some found⟩
    have new : SessionLedger.touch touched receivedAt (SessionLedger.register sessionId cwd startedAt agentId) =
        SessionLedger.register sessionId cwd startedAt agentId := if_neg apart
    show ledger.rows.map (SessionLedger.touch touched receivedAt) ++ _ = (ledger.rows ++ _).map _
    rw [List.map_append, List.map_singleton, new]

/-- Activity updates that come later than they were received, and in any order, leave the same ledger. -/
theorem late_activity_harmless (ledger : SessionLedger) (first second : List SessionWrite)
    (prompt : first.filter (fun write => !write.late) = second.filter fun write => !write.late)
    (activity : (first.filter late).Perm (second.filter late)) (running : SessionWrite.reconcile ∉ first)
    (known : ∀ id receivedAt, touch id receivedAt ∈ first → (ledger.find id).isSome = true) : first.foldl run ledger = second.foldl run ledger := by
  have deferred : ∀ writes : List SessionWrite, (∀ write, write ∈ writes → write ∈ first) →
      writes.foldl run ledger = (writes.filter (fun write => !write.late) ++ writes.filter late).foldl run ledger := by
    intro writes within
    have kept : ∀ (ledger : SessionLedger) (write : SessionWrite), (∀ id receivedAt, touch id receivedAt ∈ first → (ledger.find id).isSome = true) →
        ∀ id receivedAt, touch id receivedAt ∈ first → ((run ledger write).find id).isSome = true :=
      fun _ write known id receivedAt listed => run_find_isSome write (known id receivedAt listed)
    refine foldl_deferred kept ?_ known
    intro ledger known i here waits j there passes
    cases i with
    | touch touched receivedAt =>
      cases j with
      | record sessionId cwd startedAt agentId => exact touch_record (known touched receivedAt (within _ here))
      | close sessionId endedAt => exact touch_close
      | touch sessionId otherAt => exact touch_touch
      | reconcile => exact absurd (within _ there) running
    | record | close | reconcile => exact absurd waits Bool.false_ne_true
  have members : ∀ write, write ∈ second → write ∈ first := by
    intro write listed
    cases waits : write.late with
    | true => exact List.mem_of_mem_filter (activity.mem_iff.mpr (List.mem_filter.mpr ⟨listed, waits⟩))
    | false =>
      have there : write ∈ second.filter fun write => !write.late := List.mem_filter.mpr ⟨listed, by rw [waits]; rfl⟩
      exact List.mem_of_mem_filter (prompt ▸ there)
  rw [deferred first fun _ => id, deferred second members, prompt, List.foldl_append, List.foldl_append]
  refine activity.foldl_eq' (fun i here j there ledger => ?_) _
  have late_i := (List.mem_filter.mp here).2
  have late_j := (List.mem_filter.mp there).2
  cases i with
  | touch =>
    cases j with
    | touch => exact touch_touch
    | record | close | reconcile => exact absurd late_j Bool.false_ne_true
  | record | close | reconcile => exact absurd late_i Bool.false_ne_true

/-- A call's update that comes after the goodbye, and behind a later one. -/
def sooner : List SessionWrite := [.touch "a" "10:01", .touch "a" "10:02", .close "a" "10:03"]

def later : List SessionWrite := [.touch "a" "10:02", .close "a" "10:03", .touch "a" "10:01"]

theorem late_activity_harmless_later :
    sooner.foldl run (SessionLedger.empty.recordSession "a" none "10:00" none) = later.foldl run (SessionLedger.empty.recordSession "a" none "10:00" none) :=
  late_activity_harmless _ sooner later (by decide) (by decide) (by decide) fun id receivedAt listed => by
    rcases List.mem_cons.mp listed with same | listed
    · obtain ⟨rfl, _⟩ := SessionWrite.touch.inj same
      decide
    rcases List.mem_cons.mp listed with same | listed
    · obtain ⟨rfl, _⟩ := SessionWrite.touch.inj same
      decide
    · exact absurd listed (by simp)

end SessionWrite

end SaltMdb
