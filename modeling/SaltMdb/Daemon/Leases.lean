import SaltMdb.Library.Runs
import SaltMdb.Daemon.Protocol
import Mathlib.Data.Rat.Defs
import Mathlib.Algebra.Order.Field.Rat
import Mathlib.Tactic.Linarith

/-! The sessions of the agents: the leases that calls hold on them, and the goodbye that waits for the leases. A step is one
stay under the daemon's lock, one move of a thread between two stays, or the writer's run of a queued close. -/

namespace SaltMdb

def daemonGoodbyeLeaseDrainTimeoutS : ℚ := 10

/-- `_AgentSession`. -/
structure AgentSession where
  agentSessionId : String
  capability : String
  closing : Bool
  leases : Int
deriving DecidableEq

/-- A field of a request, as far as the check of the caller looks at it. -/
inductive CallerField where
  | absent
  | other
  | text (value : String)
deriving DecidableEq

/-- How far the thread of a tool call has come after the check of its caller. -/
inductive CallPhase where
  | checked
  | touched
  /-- In the `finally`, with or without an exception. -/
  | dispatched (raised : Bool)
  | ended
deriving DecidableEq

/-- A call whose caller was accepted, with the record it has a lease on, where it named a session. -/
structure LeasedCall where
  record : Option Nat
  phase : CallPhase
deriving DecidableEq

def LeasedCall.holds (record : Nat) (call : LeasedCall) : Bool := call.record = some record ∧ call.phase ≠ .ended

/-- How far the thread of a hello connection has come. -/
inductive ConnectionPhase where
  | absent
  | serving
  /-- In the wait of `begin_goodbye`, on the record it marked, since the given time. -/
  | waiting (record : Nat) (since : ℚ)
  | fenced (since : ℚ)
  /-- The close of the record is queued. -/
  | closing (record : Nat) (since : ℚ)
  | leaving
deriving DecidableEq

/-- A write of `ended_at`: the record it was for, the record's leases then, and the times of the goodbye and of the write. -/
structure SessionEnd where
  record : Nat
  leases : Int
  goodbyeAt : ℚ
  writtenAt : ℚ
deriving DecidableEq

structure LeaseState where
  records : List AgentSession
  /-- `_agent_sessions`, in its order of insertion. -/
  agentSessions : List (Nat × Nat)
  connections : Nat → ConnectionPhase
  calls : List LeasedCall
  /-- The calls whose lease was given back, one entry for every time. -/
  released : List Nat
  ended : List SessionEnd
  clock : ℚ

inductive LeaseStep where
  | hello (session : Nat) (agentSessionId capability : String)
  | dropRegistration (session : Nat)
  | goodbye (session : Nat)
  | wake (session : Nat)
  | close (session : Nat)
  | persist (session : Nat)
  | refuseClose (session : Nat)
  | disconnect (session : Nat)
  | unregister (session : Nat)
  | toolCall (callerSessionId capability : CallerField)
  | touch (call : Nat) (submitted : Bool)
  | dispatch (call : Nat) (raised : Bool)
  | release (call : Nat)
  | elapse (seconds : ℚ)

namespace LeaseState

def start : LeaseState where
  records := []
  agentSessions := []
  connections := fun _ => .absent
  calls := []
  released := []
  ended := []
  clock := 0

variable (s : LeaseState)

def mapped (session : Nat) : Option Nat := (s.agentSessions.find? (·.1 = session)).map (·.2)

/-- `self._agent_sessions[session_id] = …`. -/
def setMapped (session record : Nat) : List (Nat × Nat) :=
  if s.agentSessions.any (·.1 = session) then s.agentSessions.map fun entry => if entry.1 = session then (session, record) else entry
  else s.agentSessions ++ [(session, record)]

def setConnection (session : Nat) (phase : ConnectionPhase) : LeaseState :=
  { s with connections := Function.update s.connections session phase }

/-- `_record_agent_session` after its write; a hello without an id leaves no record. -/
def registerAgent (session : Nat) (agentSessionId capability : String) : LeaseState :=
  if agentSessionId = "" then s.setConnection session .serving
  else { s.setConnection session .serving with
    records := s.records ++ [⟨agentSessionId, capability, false, 0⟩]
    agentSessions := s.setMapped session s.records.length }

def popAgent (session : Nat) : LeaseState := { s with agentSessions := s.agentSessions.filter (·.1 ≠ session) }

/-- `begin_goodbye`, up to its wait. -/
def beginGoodbye (session : Nat) : LeaseState :=
  match s.mapped session with
  | none => s.setConnection session (.fenced s.clock)
  | some record =>
    { s.setConnection session (.waiting record s.clock) with
      records := s.records.modify record fun r => { r with closing := true } }

/-- The loop of `begin_goodbye`, each time it has the lock. -/
def wakeGoodbye (session record : Nat) (since : ℚ) : LeaseState :=
  if (s.records[record]?).all (·.leases = 0) ∨ since + daemonGoodbyeLeaseDrainTimeoutS ≤ s.clock then
    s.setConnection session (.fenced since)
  else s

/-- `close_agent_session`, up to its job. -/
def closeAgentSession (session : Nat) (since : ℚ) : LeaseState :=
  match s.mapped session with
  | none => s.setConnection session .leaving
  | some record => s.setConnection session (.closing record since)

/-- The record of the caller: the first of the live ones with its id and capability. -/
def callerRecord (callerSessionId capability : String) : Option Nat :=
  (s.agentSessions.map (·.2)).find? fun record =>
    (s.records[record]?).any fun r => r.agentSessionId = callerSessionId ∧ r.capability = capability

/-- `_validate_caller_session`: the record with one more lease, or the error of the request. -/
def validateCallerSession (callerSessionId capability : CallerField) : Except (RpcCode × String) (Option Nat × List AgentSession) :=
  if ¬(callerSessionId = .absent ↔ capability = .absent) then
    .error (.malformedRequest, "caller_agent_session_id and caller_agent_session_capability must be supplied together")
  else
    match callerSessionId, capability with
    | .text id, .text secret =>
      if id = "" ∨ secret = "" then .error (.malformedRequest, "caller session metadata must be non-empty strings")
      else
        match s.callerRecord id secret with
        | none => .error (.callerSessionInvalid, "caller session is inactive, mismatched, or closing")
        | some record =>
          if (s.records[record]?).any (·.closing) then
            .error (.callerSessionInvalid, "caller session is inactive, mismatched, or closing")
          else .ok (some record, s.records.modify record fun r => { r with leases := r.leases + 1 })
    | .absent, _ => .ok (none, s.records)
    | _, _ => .error (.malformedRequest, "caller session metadata must be non-empty strings")

def admitCall (callerSessionId capability : CallerField) : LeaseState :=
  match s.validateCallerSession callerSessionId capability with
  | .error _ => s
  | .ok (record, records) => { s with records := records, calls := s.calls ++ [⟨record, .checked⟩] }

def setPhase (call : Nat) (phase : CallPhase) : LeaseState :=
  { s with calls := s.calls.modify call fun c => { c with phase := phase } }

/-- `_release_caller_lease`, and the end of the call. -/
def releaseCallerLease (call : Nat) (record : Option Nat) : LeaseState :=
  match record with
  | none => s.setPhase call .ended
  | some record =>
    { s.setPhase call .ended with
      records := s.records.modify record fun r => { r with leases := max 0 (r.leases - 1) }
      released := s.released ++ [call] }

def next : LeaseStep → LeaseState
  | .hello session agentSessionId capability =>
    match s.connections session with
    | .absent | .serving => s.registerAgent session agentSessionId capability
    | _ => s
  | .dropRegistration session => if s.connections session = .serving then s.popAgent session else s
  | .goodbye session => if s.connections session = .serving then s.beginGoodbye session else s
  | .wake session =>
    match s.connections session with
    | .waiting record since => s.wakeGoodbye session record since
    | _ => s
  | .close session =>
    match s.connections session with
    | .fenced since => s.closeAgentSession session since
    | _ => s
  | .persist session =>
    match s.connections session with
    | .closing record since =>
      { s.setConnection session .leaving with
        ended := s.ended ++ [⟨record, ((s.records[record]?).map (·.leases)).getD 0, since, s.clock⟩] }
    | _ => s
  | .refuseClose session =>
    match s.connections session with
    | .closing _ _ => s.setConnection session .leaving
    | _ => s
  | .disconnect session => if s.connections session = .serving then s.setConnection session .leaving else s
  | .unregister session =>
    if s.connections session = .leaving then (s.popAgent session).setConnection session .absent else s
  | .toolCall callerSessionId capability => s.admitCall callerSessionId capability
  | .touch call _ =>
    match s.calls[call]? with
    | some ⟨_, .checked⟩ => s.setPhase call .touched
    | _ => s
  | .dispatch call raised =>
    match s.calls[call]? with
    | some ⟨_, .touched⟩ => s.setPhase call (.dispatched raised)
    | _ => s
  | .release call =>
    match s.calls[call]? with
    | some ⟨record, .dispatched _⟩ => s.releaseCallerLease call record
    | _ => s
  | .elapse seconds => if 0 ≤ seconds then { s with clock := s.clock + seconds } else s

/-! ### What one step can do -/

inductive Moves : LeaseStep → LeaseState → Prop where
  | greet (session : Nat) (agentSessionId capability : String)
      (here : s.connections session = .absent ∨ s.connections session = .serving) :
    Moves (.hello session agentSessionId capability) (s.registerAgent session agentSessionId capability)
  | drop (session : Nat) (here : s.connections session = .serving) : Moves (.dropRegistration session) (s.popAgent session)
  | mark (session record : Nat) (here : s.connections session = .serving) (found : s.mapped session = some record) :
    Moves (.goodbye session) { s.setConnection session (.waiting record s.clock) with
      records := s.records.modify record fun r => { r with closing := true } }
  | unmarked (session : Nat) (here : s.connections session = .serving) (found : s.mapped session = none) :
    Moves (.goodbye session) (s.setConnection session (.fenced s.clock))
  | woken (session record : Nat) (since : ℚ) (here : s.connections session = .waiting record since)
      (free : (s.records[record]?).all (·.leases = 0) = true ∨ since + daemonGoodbyeLeaseDrainTimeoutS ≤ s.clock) :
    Moves (.wake session) (s.setConnection session (.fenced since))
  | close (session record : Nat) (since : ℚ) (here : s.connections session = .fenced since)
      (found : s.mapped session = some record) :
    Moves (.close session) (s.setConnection session (.closing record since))
  | closeNone (session : Nat) (since : ℚ) (here : s.connections session = .fenced since) (found : s.mapped session = none) :
    Moves (.close session) (s.setConnection session .leaving)
  | persist (session record : Nat) (since : ℚ) (here : s.connections session = .closing record since) :
    Moves (.persist session) { s.setConnection session .leaving with
      ended := s.ended ++ [⟨record, ((s.records[record]?).map (·.leases)).getD 0, since, s.clock⟩] }
  | refuse (session record : Nat) (since : ℚ) (here : s.connections session = .closing record since) :
    Moves (.refuseClose session) (s.setConnection session .leaving)
  | disconnect (session : Nat) (here : s.connections session = .serving) :
    Moves (.disconnect session) (s.setConnection session .leaving)
  | unregister (session : Nat) (here : s.connections session = .leaving) :
    Moves (.unregister session) ((s.popAgent session).setConnection session .absent)
  | grant (callerSessionId capability : CallerField) (record : Nat) (r : AgentSession) (found : s.records[record]? = some r)
      (stays : r.closing = false) :
    Moves (.toolCall callerSessionId capability) { s with
      records := s.records.modify record fun r => { r with leases := r.leases + 1 }
      calls := s.calls ++ [⟨some record, .checked⟩] }
  | anonymous (callerSessionId capability : CallerField) :
    Moves (.toolCall callerSessionId capability) { s with calls := s.calls ++ [⟨none, .checked⟩] }
  | progress (step : LeaseStep) (call : Nat) (c : LeasedCall) (phase : CallPhase) (here : s.calls[call]? = some c)
      (before : c.phase ≠ .ended) (after : phase ≠ .ended) : Moves step (s.setPhase call phase)
  | finish (call : Nat) (raised : Bool) (here : s.calls[call]? = some ⟨none, .dispatched raised⟩) :
    Moves (.release call) (s.setPhase call .ended)
  | release (call record : Nat) (raised : Bool) (here : s.calls[call]? = some ⟨some record, .dispatched raised⟩) :
    Moves (.release call) { s.setPhase call .ended with
      records := s.records.modify record fun r => { r with leases := max 0 (r.leases - 1) }
      released := s.released ++ [call] }
  | elapse (seconds : ℚ) (forward : 0 ≤ seconds) : Moves (.elapse seconds) { s with clock := s.clock + seconds }

variable {s}

theorem callerRecord_found {callerSessionId capability : String} {record : Nat}
    (found : s.callerRecord callerSessionId capability = some record) :
    ∃ r, s.records[record]? = some r ∧ r.agentSessionId = callerSessionId ∧ r.capability = capability := by
  have matched := List.find?_some found
  obtain ⟨r, here, same⟩ := (Option.any_eq_true _ _).mp matched
  exact ⟨r, here, by simpa using same⟩

/-- A lease is only granted on a record that is there and is not closing. -/
theorem validateCallerSession_ok {callerSessionId capability : CallerField} {record : Option Nat} {records : List AgentSession}
    (accepted : s.validateCallerSession callerSessionId capability = .ok (record, records)) :
    (record = none ∧ records = s.records) ∨ ∃ named r, record = some named ∧ s.records[named]? = some r ∧ r.closing = false ∧
      records = s.records.modify named fun r => { r with leases := r.leases + 1 } := by
  unfold validateCallerSession at accepted
  split at accepted
  · cases accepted
  · split at accepted
    · split at accepted
      · cases accepted
      · split at accepted
        · cases accepted
        · rename_i named found
          obtain ⟨r, here, _⟩ := callerRecord_found found
          split at accepted
          · cases accepted
          · rename_i stays
            obtain ⟨rfl, rfl⟩ := Prod.mk.inj (Except.ok.inj accepted)
            exact .inr ⟨named, r, rfl, here, by simpa [here] using stays, rfl⟩
    · obtain ⟨rfl, rfl⟩ := Prod.mk.inj (Except.ok.inj accepted)
      exact .inl ⟨rfl, rfl⟩
    · cases accepted

theorem next_cases (s : LeaseState) (step : LeaseStep) : s.next step = s ∨ s.Moves step (s.next step) := by
  cases step with
  | hello session agentSessionId capability =>
    cases here : s.connections session with
    | absent =>
      simp only [next, here]
      exact .inr (.greet session agentSessionId capability (.inl here))
    | serving =>
      simp only [next, here]
      exact .inr (.greet session agentSessionId capability (.inr here))
    | _ => exact .inl (by simp only [next, here])
  | dropRegistration session =>
    simp only [next]
    split
    · exact .inr (.drop session ‹_›)
    · exact .inl rfl
  | goodbye session =>
    simp only [next, beginGoodbye]
    split
    · rename_i here
      cases found : s.mapped session with
      | none => exact .inr (.unmarked session here found)
      | some record => exact .inr (.mark session record here found)
    · exact .inl rfl
  | wake session =>
    cases here : s.connections session with
    | waiting record since =>
      simp only [next, here, wakeGoodbye]
      split
      · exact .inr (.woken session record since here ‹_›)
      · exact .inl rfl
    | _ => exact .inl (by simp only [next, here])
  | close session =>
    cases here : s.connections session with
    | fenced since =>
      simp only [next, here, closeAgentSession]
      cases found : s.mapped session with
      | none => exact .inr (.closeNone session since here found)
      | some record => exact .inr (.close session record since here found)
    | _ => exact .inl (by simp only [next, here])
  | persist session =>
    cases here : s.connections session with
    | closing record since =>
      simp only [next, here]
      exact .inr (.persist session record since here)
    | _ => exact .inl (by simp only [next, here])
  | refuseClose session =>
    cases here : s.connections session with
    | closing record since =>
      simp only [next, here]
      exact .inr (.refuse session record since here)
    | _ => exact .inl (by simp only [next, here])
  | disconnect session =>
    simp only [next]
    split
    · exact .inr (.disconnect session ‹_›)
    · exact .inl rfl
  | unregister session =>
    simp only [next]
    split
    · exact .inr (.unregister session ‹_›)
    · exact .inl rfl
  | toolCall callerSessionId capability =>
    simp only [next, admitCall]
    cases checked : s.validateCallerSession callerSessionId capability with
    | error e => exact .inl rfl
    | ok accepted =>
      obtain ⟨record, records⟩ := accepted
      rcases validateCallerSession_ok checked with ⟨rfl, rfl⟩ | ⟨named, r, rfl, here, stays, rfl⟩
      · exact .inr (.anonymous callerSessionId capability)
      · exact .inr (.grant callerSessionId capability named r here stays)
  | touch call submitted =>
    simp only [next]
    split
    · rename_i record here
      exact .inr (.progress _ call _ .touched here (by simp) (by simp))
    · exact .inl rfl
  | dispatch call raised =>
    simp only [next]
    split
    · rename_i record here
      exact .inr (.progress _ call _ (.dispatched raised) here (by simp) (by simp))
    · exact .inl rfl
  | release call =>
    simp only [next]
    split
    · rename_i record raised here
      cases record with
      | none => exact .inr (.finish call raised here)
      | some record => exact .inr (.release call record raised here)
    · exact .inl rfl
  | elapse seconds =>
    simp only [next]
    split
    · exact .inr (.elapse seconds ‹_›)
    · exact .inl rfl

/-! ### The ledger of the leases -/

/-- The accounts of the leases agree with the calls. -/
structure Ledger (s : LeaseState) : Prop where
  counted : ∀ record (r : AgentSession), s.records[record]? = some r → r.leases = s.calls.countP (LeasedCall.holds record)
  named : ∀ call ∈ s.calls, ∀ record, call.record = some record → record < s.records.length
  released : ∀ i call, s.calls[i]? = some call → s.released.count i = if call.phase = .ended ∧ call.record.isSome then 1 else 0
  known : ∀ i ∈ s.released, i < s.calls.length
  mapped : ∀ entry ∈ s.agentSessions, entry.2 < s.records.length

theorem holds_of_phase {record : Nat} {c : LeasedCall} {phase : CallPhase} (before : c.phase ≠ .ended) (after : phase ≠ .ended) :
    LeasedCall.holds record { c with phase := phase } = c.holds record := by
  simp [LeasedCall.holds, before, after]

@[simp] theorem holds_ended (record : Nat) (named : Option Nat) : LeasedCall.holds record ⟨named, .ended⟩ = false := by
  simp [LeasedCall.holds]

@[simp] theorem holds_dispatched (record : Nat) (named : Option Nat) (raised : Bool) :
    LeasedCall.holds record ⟨named, .dispatched raised⟩ = decide (named = some record) := by
  simp [LeasedCall.holds]

@[simp] theorem setPhase_released (call : Nat) (phase : CallPhase) : (s.setPhase call phase).released = s.released := rfl

theorem countP_modify {p : LeasedCall → Bool} {f : LeasedCall → LeasedCall} {calls : List LeasedCall} {i : Nat} {c : LeasedCall}
    (here : calls[i]? = some c) :
    (calls.modify i f).countP p + (if p c then 1 else 0) = calls.countP p + if p (f c) then 1 else 0 := by
  induction calls generalizing i with
  | nil => simp at here
  | cons first rest ih =>
    cases i with
    | zero =>
      obtain rfl := Option.some.inj here
      simp only [List.modify_zero_cons, List.countP_cons]
      omega
    | succ i =>
      have later := ih (i := i) here
      simp only [List.modify_succ_cons, List.countP_cons]
      omega

theorem countP_fresh (ledger : s.Ledger) : s.calls.countP (LeasedCall.holds s.records.length) = 0 := by
  refine List.countP_eq_zero.mpr fun call member held => ?_
  simp only [LeasedCall.holds, decide_eq_true_eq] at held
  exact absurd (ledger.named call member _ held.1) (Nat.lt_irrefl _)

theorem mem_setMapped {session record : Nat} {entry : Nat × Nat} (member : entry ∈ s.setMapped session record) :
    entry = (session, record) ∨ entry ∈ s.agentSessions := by
  unfold setMapped at member
  split at member
  · obtain ⟨old, here, rfl⟩ := List.mem_map.mp member
    split
    · exact .inl rfl
    · exact .inr here
  · rcases List.mem_append.mp member with old | new
    · exact .inr old
    · exact .inl (List.mem_singleton.mp new)

theorem Ledger.register (ledger : s.Ledger) (session : Nat) (agentSessionId capability : String) :
    (s.registerAgent session agentSessionId capability).Ledger := by
  unfold registerAgent
  split
  · exact ⟨ledger.counted, ledger.named, ledger.released, ledger.known, ledger.mapped⟩
  · refine ⟨fun record r found => ?_, fun call member record held => ?_, ledger.released, ledger.known, fun entry member => ?_⟩
    · rcases Nat.lt_trichotomy record s.records.length with old | rfl | beyond
      · rw [List.getElem?_append_left old] at found
        exact ledger.counted record r found
      · rw [List.getElem?_concat_length] at found
        obtain rfl := Option.some.inj found
        simp [setConnection, countP_fresh ledger]
      · rw [List.getElem?_eq_none (by rw [List.length_append, List.length_singleton]; omega)] at found
        cases found
    · have inside := ledger.named call member record held
      rw [List.length_append]
      omega
    · rw [List.length_append, List.length_singleton]
      rcases mem_setMapped member with rfl | old
      · exact Nat.lt_succ_self _
      · have inside := ledger.mapped entry old
        omega

/-- The ledger sees of the records how many there are and their leases. -/
theorem Ledger.of_records (ledger : s.Ledger) {record : Nat} {f : AgentSession → AgentSession} (kept : ∀ r, (f r).leases = r.leases)
    (connections : Nat → ConnectionPhase) :
    Ledger { s with connections := connections, records := s.records.modify record f } := by
  refine ⟨fun other r found => ?_, fun call member other held => ?_, ledger.released, ledger.known, fun entry member => ?_⟩
  · simp only [List.getElem?_modify, Option.map_eq_map, Option.map_eq_some_iff] at found
    obtain ⟨old, here, rfl⟩ := found
    have same := ledger.counted other old here
    split
    · rw [kept, same]
    · exact same
  · simpa using ledger.named call member other held
  · simpa using ledger.mapped entry member

/-- A new call has not given back anything. -/
theorem Ledger.released_append (ledger : s.Ledger) (record : Option Nat) (i : Nat) (call : LeasedCall)
    (found : (s.calls ++ [⟨record, .checked⟩])[i]? = some call) :
    s.released.count i = if call.phase = .ended ∧ call.record.isSome then 1 else 0 := by
  rcases Nat.lt_trichotomy i s.calls.length with old | rfl | beyond
  · rw [List.getElem?_append_left old] at found
    exact ledger.released i call found
  · rw [List.getElem?_concat_length] at found
    obtain rfl := Option.some.inj found
    have none_yet : s.calls.length ∉ s.released := fun given => Nat.lt_irrefl _ (ledger.known _ given)
    simp [List.count_eq_zero.mpr none_yet]
  · rw [List.getElem?_eq_none (by rw [List.length_append, List.length_singleton]; omega)] at found
    cases found

theorem Ledger.known_append (ledger : s.Ledger) (c : LeasedCall) (i : Nat) (given : i ∈ s.released) : i < (s.calls ++ [c]).length := by
  have inside := ledger.known i given
  rw [List.length_append]
  omega

theorem Ledger.append_none (ledger : s.Ledger) : Ledger { s with calls := s.calls ++ [⟨none, .checked⟩] } := by
  refine ⟨fun record r found => ?_, fun call member record held => ?_, ledger.released_append none, ledger.known_append _, ledger.mapped⟩
  · rw [List.countP_append]
    simpa [LeasedCall.holds] using ledger.counted record r found
  · rcases List.mem_append.mp member with old | new
    · exact ledger.named call old record held
    · obtain rfl := List.mem_singleton.mp new
      simp at held

theorem Ledger.grant (ledger : s.Ledger) {record : Nat} {r : AgentSession} (found : s.records[record]? = some r) :
    Ledger { s with
      records := s.records.modify record fun r => { r with leases := r.leases + 1 }
      calls := s.calls ++ [⟨some record, .checked⟩] } := by
  refine ⟨fun other q here => ?_, fun call member other held => ?_, ledger.released_append (some record), ledger.known_append _,
    fun entry member => ?_⟩
  · simp only [List.getElem?_modify, Option.map_eq_map, Option.map_eq_some_iff] at here
    obtain ⟨old, at_, rfl⟩ := here
    have before := ledger.counted other old at_
    rw [List.countP_append]
    by_cases same : record = other
    · simp [same, LeasedCall.holds, before]
    · simp [same, LeasedCall.holds, before]
  · rw [List.length_modify]
    rcases List.mem_append.mp member with old | new
    · exact ledger.named call old other held
    · obtain rfl := List.mem_singleton.mp new
      obtain rfl := Option.some.inj held
      exact (List.getElem?_eq_some_iff.mp found).1
  · rw [List.length_modify]
    exact ledger.mapped entry member

theorem modified {α : Type} {elements : List α} {i j : Nat} {f : α → α} {b : α} (found : (elements.modify i f)[j]? = some b) :
    ∃ a, elements[j]? = some a ∧ b = if i = j then f a else a := by
  simp only [List.getElem?_modify, Option.map_eq_map, Option.map_eq_some_iff] at found
  obtain ⟨a, here, rfl⟩ := found
  exact ⟨a, here, rfl⟩

theorem setPhase_named (ledger : s.Ledger) (call : Nat) (phase : CallPhase) (c : LeasedCall)
    (member : c ∈ (s.setPhase call phase).calls) (record : Nat) (held : c.record = some record) : record < s.records.length := by
  obtain ⟨i, found⟩ := List.mem_iff_getElem?.mp member
  obtain ⟨old, here, rfl⟩ := modified found
  refine ledger.named old (List.mem_of_getElem? here) record ?_
  split at held <;> exact held

theorem Ledger.progress (ledger : s.Ledger) {call : Nat} {c : LeasedCall} {phase : CallPhase} (here : s.calls[call]? = some c)
    (before : c.phase ≠ .ended) (after : phase ≠ .ended) : (s.setPhase call phase).Ledger := by
  refine ⟨fun record r found => ?_, setPhase_named ledger call phase, fun i other found => ?_, fun i given => ?_, ledger.mapped⟩
  · have moved := countP_modify (p := LeasedCall.holds record) (f := fun c => { c with phase := phase }) here
    have same := ledger.counted record r found
    rw [holds_of_phase before after] at moved
    simp only [setPhase, same]
    omega
  · obtain ⟨old, at_, rfl⟩ := modified found
    rw [setPhase_released, ledger.released i old at_]
    by_cases same : call = i
    · rw [← same, here] at at_
      obtain rfl := Option.some.inj at_
      simp [same, before, after]
    · rw [if_neg same]
  · simpa [setPhase] using ledger.known i given

theorem Ledger.finish (ledger : s.Ledger) {call : Nat} {raised : Bool} (here : s.calls[call]? = some ⟨none, .dispatched raised⟩) :
    (s.setPhase call .ended).Ledger := by
  refine ⟨fun record r found => ?_, setPhase_named ledger call .ended, fun i other found => ?_, fun i given => ?_, ledger.mapped⟩
  · have moved := countP_modify (p := LeasedCall.holds record) (f := fun c => { c with phase := .ended }) here
    have same := ledger.counted record r found
    simp only [holds_ended, holds_dispatched] at moved
    simpa [setPhase, same] using moved.symm
  · obtain ⟨old, at_, rfl⟩ := modified found
    rw [setPhase_released, ledger.released i old at_]
    by_cases same : call = i
    · rw [← same, here] at at_
      obtain rfl := Option.some.inj at_
      simp [same]
    · rw [if_neg same]
  · simpa [setPhase] using ledger.known i given

theorem Ledger.giveBack (ledger : s.Ledger) {call record : Nat} {raised : Bool}
    (here : s.calls[call]? = some ⟨some record, .dispatched raised⟩) :
    Ledger { s.setPhase call .ended with
      records := s.records.modify record fun r => { r with leases := max 0 (r.leases - 1) }
      released := s.released ++ [call] } := by
  refine ⟨fun other r found => ?_, fun c member other held => ?_, fun i c found => ?_, fun i given => ?_, fun entry member => ?_⟩
  · obtain ⟨old, at_, rfl⟩ := modified found
    have moved := countP_modify (p := LeasedCall.holds other) (f := fun c => { c with phase := .ended }) here
    have before := ledger.counted other old at_
    simp only [holds_ended, holds_dispatched, Option.some.injEq, Bool.false_eq_true, if_false] at moved
    by_cases same : record = other
    · simp only [same, decide_true, if_true] at moved
      simp only [setPhase, same, if_true, before]
      omega
    · simp only [same, decide_false, Bool.false_eq_true, if_false] at moved
      simp only [setPhase, same, if_false, before]
      omega
  · rw [List.length_modify]
    exact setPhase_named ledger call .ended c member other held
  · obtain ⟨old, at_, rfl⟩ := modified found
    rw [List.count_append, ledger.released i old at_]
    by_cases same : call = i
    · rw [← same, here] at at_
      obtain rfl := Option.some.inj at_
      simp [same]
    · simp [same]
  · rcases List.mem_append.mp given with old | new
    · simpa [setPhase] using ledger.known i old
    · obtain rfl := List.mem_singleton.mp new
      simpa [setPhase] using (List.getElem?_eq_some_iff.mp here).1
  · rw [List.length_modify]
    exact ledger.mapped entry member

theorem Moves.ledger {step : LeaseStep} {t : LeaseState} (moves : s.Moves step t) (ledger : s.Ledger) : t.Ledger := by
  cases moves with
  | greet session agentSessionId capability here => exact ledger.register session agentSessionId capability
  | mark session record here found => exact ledger.of_records (f := fun r => { r with closing := true }) (fun _ => rfl) _
  | grant callerSessionId capability record r found stays => exact ledger.grant found
  | anonymous callerSessionId capability => exact ledger.append_none
  | progress step call c phase here before after => exact ledger.progress here before after
  | finish call raised here => exact ledger.finish here
  | release call record raised here => exact ledger.giveBack here
  | drop session here =>
    exact ⟨ledger.counted, ledger.named, ledger.released, ledger.known, fun entry member =>
      ledger.mapped entry (List.mem_of_mem_filter member)⟩
  | unregister session here =>
    exact ⟨ledger.counted, ledger.named, ledger.released, ledger.known, fun entry member =>
      ledger.mapped entry (List.mem_of_mem_filter member)⟩
  | _ => exact ⟨ledger.counted, ledger.named, ledger.released, ledger.known, ledger.mapped⟩

theorem Ledger.next (ledger : s.Ledger) (step : LeaseStep) : (s.next step).Ledger := by
  rcases next_cases s step with same | moves
  · rwa [same]
  · exact moves.ledger ledger

/-! ### What a closing session keeps -/

/-- The record is marked, and no call holds it or the wait of the goodbye is over. -/
def Settled (s : LeaseState) (record : Nat) (since : ℚ) : Prop :=
  ∃ r, s.records[record]? = some r ∧ r.closing = true ∧
    (r.leases = 0 ∨ since + daemonGoodbyeLeaseDrainTimeoutS ≤ s.clock)

/-- What the thread of a hello connection relies on. -/
def Relies (s : LeaseState) (session : Nat) : ConnectionPhase → Prop
  | .waiting record _ => s.mapped session = some record ∧ ∃ r, s.records[record]? = some r ∧ r.closing = true
  | .fenced since => ∀ record, s.mapped session = some record → s.Settled record since
  | .closing record since => s.Settled record since
  | _ => True

/-- A close is written when no lease is left or the goodbye has waited its time. -/
def EndsSettled (s : LeaseState) : Prop :=
  ∀ e ∈ s.ended, (∃ r, s.records[e.record]? = some r ∧ r.closing = true) ∧
    (e.leases = 0 ∨ e.goodbyeAt + daemonGoodbyeLeaseDrainTimeoutS ≤ e.writtenAt)

structure Fences (s : LeaseState) : Prop where
  ledger : s.Ledger
  relies : ∀ session, s.Relies session (s.connections session)
  ended : s.EndsSettled

/-- A record that is closing stays so, gets no lease, and keeps having none. -/
structure Closes (before after : LeaseState) (record : Nat) (r : AgentSession) : Prop where
  stays : ∃ r', after.records[record]? = some r' ∧ r'.closing = true ∧ (r.leases = 0 → r'.leases = 0)
  grants : after.calls.countP (·.record = some record) = before.calls.countP (·.record = some record)

theorem modify_found {α : Type} {elements : List α} {i j : Nat} {f : α → α} {a : α} (found : elements[j]? = some a) :
    (elements.modify i f)[j]? = some (if i = j then f a else a) := by
  rw [List.getElem?_modify, found]
  rfl

theorem setPhase_grants (call : Nat) (phase : CallPhase) (record : Nat) :
    (s.setPhase call phase).calls.countP (·.record = some record) = s.calls.countP (·.record = some record) := by
  cases here : s.calls[call]? with
  | none =>
    rw [setPhase, List.modify_eq_self (List.getElem?_eq_none_iff.mp here)]
  | some c =>
    have moved := countP_modify (p := fun c => c.record = some record) (f := fun c => { c with phase := phase }) here
    exact Nat.add_right_cancel moved

theorem Moves.closes {step : LeaseStep} {t : LeaseState} (moves : s.Moves step t) {record : Nat} {r : AgentSession}
    (found : s.records[record]? = some r) (closing : r.closing = true) : Closes s t record r := by
  cases moves with
  | greet session agentSessionId capability here =>
    unfold registerAgent
    split
    · exact ⟨⟨r, found, closing, id⟩, rfl⟩
    · have inside := (List.getElem?_eq_some_iff.mp found).1
      exact ⟨⟨r, by rw [List.getElem?_append_left inside, found], closing, id⟩, rfl⟩
  | mark session other here named =>
    refine ⟨⟨_, modify_found found, ?_, ?_⟩, rfl⟩
    · split <;> simp [closing]
    · split <;> exact id
  | grant callerSessionId capability other q here stays =>
    have different : other ≠ record := by
      rintro rfl
      rw [found] at here
      obtain rfl := Option.some.inj here
      simp [closing] at stays
    refine ⟨⟨r, by simp [different, found], closing, id⟩, ?_⟩
    rw [List.countP_append]
    simp [different]
  | anonymous callerSessionId capability =>
    refine ⟨⟨r, found, closing, id⟩, ?_⟩
    rw [List.countP_append]
    simp
  | progress step call c phase here before after => exact ⟨⟨r, found, closing, id⟩, setPhase_grants call phase record⟩
  | finish call raised here => exact ⟨⟨r, found, closing, id⟩, setPhase_grants call .ended record⟩
  | release call other raised here =>
    refine ⟨⟨_, modify_found found, ?_, fun zero => ?_⟩, setPhase_grants call .ended record⟩
    · split <;> exact closing
    · split
      · simp [zero]
      · exact zero
  | _ => exact ⟨⟨r, found, closing, id⟩, rfl⟩

theorem Moves.forward {step : LeaseStep} {t : LeaseState} (moves : s.Moves step t) : s.clock ≤ t.clock := by
  cases moves with
  | greet session agentSessionId capability here =>
    unfold registerAgent
    split <;> exact le_rfl
  | elapse seconds forward => exact le_add_of_nonneg_right forward
  | _ => exact le_rfl

theorem Settled.moves {step : LeaseStep} {t : LeaseState} {record : Nat} {since : ℚ} (settled : s.Settled record since)
    (moves : s.Moves step t) : t.Settled record since := by
  obtain ⟨r, found, closing, free⟩ := settled
  obtain ⟨r', here, still, empty⟩ := (moves.closes found closing).stays
  refine ⟨r', here, still, free.imp empty fun done => ?_⟩
  have later := moves.forward
  linarith

theorem mapped_popAgent {session other : Nat} (different : other ≠ session) : (s.popAgent session).mapped other = s.mapped other := by
  unfold mapped popAgent
  congr 1
  rw [List.find?_filter]
  congr 1
  funext entry
  by_cases here : entry.1 = other
  · simp [here, different]
  · simp [here]

theorem mapped_registerAgent {session other : Nat} {agentSessionId capability : String} (different : other ≠ session) :
    (s.registerAgent session agentSessionId capability).mapped other = s.mapped other := by
  unfold registerAgent
  split
  · rfl
  · simp only [mapped, setMapped]
    split
    · have sameKey : ((fun entry : Nat × Nat => decide (entry.1 = other)) ∘
          fun entry => if entry.1 = session then (session, s.records.length) else entry) = fun entry => decide (entry.1 = other) := by
        funext entry
        by_cases here : entry.1 = session
        · simp [here]
        · simp [here]
      rw [List.find?_map, sameKey, Option.map_map]
      cases found : s.agentSessions.find? fun entry => decide (entry.1 = other) with
      | none => rfl
      | some entry =>
        have key : entry.1 = other := by simpa using List.find?_some found
        simp [key, different]
    · rw [List.find?_append]
      simp [Ne.symm different]

theorem Relies.kept {step : LeaseStep} {t : LeaseState} {session : Nat} {phase : ConnectionPhase} (relies : s.Relies session phase)
    (moves : s.Moves step t) (same : t.mapped session = s.mapped session) : t.Relies session phase := by
  cases phase with
  | waiting record since =>
    obtain ⟨named, r, found, closing⟩ := relies
    obtain ⟨r', here, still, _⟩ := (moves.closes found closing).stays
    exact ⟨same.trans named, r', here, still⟩
  | fenced since => exact fun record named => (relies record (same.symm.trans named)).moves moves
  | closing record since => exact Settled.moves relies moves
  | _ => trivial

/-- A step of one connection's thread leaves to the others what they rely on. -/
theorem Relies.update {step : LeaseStep} {t : LeaseState} (moves : s.Moves step t)
    (all : ∀ other, s.Relies other (s.connections other)) {session : Nat} {phase : ConnectionPhase} (same : ∀ other, other ≠ session → t.mapped other = s.mapped other)
    (set : t.connections = Function.update s.connections session phase) (here : t.Relies session phase) (other : Nat) :
    t.Relies other (t.connections other) := by
  rw [set]
  by_cases own : other = session
  · subst own
    rwa [Function.update_self]
  · rw [Function.update_of_ne own]
    exact (all other).kept moves (same other own)

theorem registerAgent_connections (session : Nat) (agentSessionId capability : String) :
    (s.registerAgent session agentSessionId capability).connections = Function.update s.connections session .serving := by
  unfold registerAgent
  split <;> rfl

theorem mapped_record (ledger : s.Ledger) {session record : Nat} (named : s.mapped session = some record) :
    ∃ r, s.records[record]? = some r := by
  obtain ⟨entry, found, rfl⟩ := Option.map_eq_some_iff.mp named
  exact ⟨_, List.getElem?_eq_getElem (ledger.mapped entry (List.mem_of_find?_eq_some found))⟩

theorem Moves.relies {step : LeaseStep} {t : LeaseState} (moves : s.Moves step t) (ledger : s.Ledger)
    (all : ∀ session, s.Relies session (s.connections session)) (session : Nat) : t.Relies session (t.connections session) := by
  have kept := @Relies.update s step t moves all
  cases moves with
  | greet own agentSessionId capability here =>
    exact kept (fun _ different => mapped_registerAgent different) (registerAgent_connections _ _ _) trivial session
  | drop own here =>
    by_cases same : session = own
    · subst same
      simp [popAgent, here, Relies]
    · exact (all session).kept (.drop own here) (mapped_popAgent same)
  | mark own record here named =>
    refine kept (fun _ _ => rfl) rfl ?_ session
    obtain ⟨r, found⟩ := mapped_record ledger named
    exact ⟨named, _, modify_found found, by simp⟩
  | unmarked own here named => exact kept (fun _ _ => rfl) rfl (fun record mapped => nomatch named.symm.trans mapped) session
  | woken own record since here free =>
    refine kept (fun _ _ => rfl) rfl (fun other named => ?_) session
    have relied := all own
    rw [here] at relied
    obtain ⟨mapped, r, found, closing⟩ := relied
    obtain rfl := Option.some.inj (mapped.symm.trans named)
    refine ⟨r, found, closing, free.imp_left fun empty => ?_⟩
    simpa [found] using empty
  | close own record since here named =>
    refine kept (fun _ _ => rfl) rfl ?_ session
    have relied := all own
    rw [here] at relied
    exact relied record named
  | closeNone own since here named => exact kept (fun _ _ => rfl) rfl trivial session
  | persist own record since here => exact kept (fun _ _ => rfl) rfl trivial session
  | refuse own record since here => exact kept (fun _ _ => rfl) rfl trivial session
  | disconnect own here => exact kept (fun _ _ => rfl) rfl trivial session
  | unregister own here => exact kept (fun _ different => mapped_popAgent different) rfl trivial session
  | grant callerSessionId capability record r found stays =>
    exact (all session).kept (.grant callerSessionId capability record r found stays) rfl
  | anonymous callerSessionId capability => exact (all session).kept (.anonymous callerSessionId capability) rfl
  | progress step call c phase here before after => exact (all session).kept (.progress step call c phase here before after) rfl
  | finish call raised here => exact (all session).kept (.finish call raised here) rfl
  | release call record raised here => exact (all session).kept (.release call record raised here) rfl
  | elapse seconds forward => exact (all session).kept (.elapse seconds forward) rfl

theorem EndsSettled.old {step : LeaseStep} {t : LeaseState} (ends : s.EndsSettled) (moves : s.Moves step t) {e : SessionEnd}
    (written : e ∈ s.ended) : (∃ r, t.records[e.record]? = some r ∧ r.closing = true) ∧
      (e.leases = 0 ∨ e.goodbyeAt + daemonGoodbyeLeaseDrainTimeoutS ≤ e.writtenAt) := by
  obtain ⟨⟨r, found, closing⟩, settled⟩ := ends e written
  obtain ⟨r', here, still, _⟩ := (moves.closes found closing).stays
  exact ⟨⟨r', here, still⟩, settled⟩

theorem registerAgent_ended (session : Nat) (agentSessionId capability : String) :
    (s.registerAgent session agentSessionId capability).ended = s.ended := by
  unfold registerAgent
  split <;> rfl

theorem Moves.ends {step : LeaseStep} {t : LeaseState} (moves : s.Moves step t)
    (relies : ∀ session, s.Relies session (s.connections session)) (ends : s.EndsSettled) : t.EndsSettled := by
  intro e written
  have old := @EndsSettled.old s step t ends moves e
  cases moves with
  | greet session agentSessionId capability here => exact old (registerAgent_ended _ _ _ ▸ written)
  | persist session record since here =>
    rcases List.mem_append.mp written with before | new
    · exact old before
    · obtain rfl := List.mem_singleton.mp new
      have relied := relies session
      rw [here] at relied
      obtain ⟨r, found, closing, free⟩ := relied
      exact ⟨⟨r, found, closing⟩, free.imp_left fun zero => by simp [found, zero]⟩
  | _ => exact old written

theorem Fences.next (fences : s.Fences) (step : LeaseStep) : (s.next step).Fences := by
  rcases next_cases s step with same | moves
  · rwa [same]
  · exact ⟨moves.ledger fences.ledger, moves.relies fences.ledger fences.relies, moves.ends fences.relies fences.ended⟩

/-- Between the two, a closing session stays closing, and no lease on it is granted. -/
def NoLateGrant (before after : LeaseState) : Prop :=
  ∀ record r, before.records[record]? = some r → r.closing = true →
    (∃ r', after.records[record]? = some r' ∧ r'.closing = true) ∧
      after.calls.countP (·.record = some record) = before.calls.countP (·.record = some record)

theorem NoLateGrant.of_next (s : LeaseState) (step : LeaseStep) : NoLateGrant s (s.next step) := by
  intro record r found closing
  rcases next_cases s step with same | moves
  · rw [same]
    exact ⟨⟨r, found, closing⟩, rfl⟩
  · obtain ⟨⟨r', here, still, _⟩, grants⟩ := moves.closes found closing
    exact ⟨⟨r', here, still⟩, grants⟩

theorem NoLateGrant.trans {a b c : LeaseState} (first : NoLateGrant a b) (second : NoLateGrant b c) : NoLateGrant a c := by
  intro record r found closing
  obtain ⟨⟨r', here, still⟩, none_first⟩ := first record r found closing
  obtain ⟨later, none_second⟩ := second record r' here still
  exact ⟨later, none_second.trans none_first⟩

/-- The leases are those of the calls that are under way; a call that is over has given its lease back once. -/
structure Balanced (s : LeaseState) : Prop where
  leases : ∀ record (r : AgentSession), s.records[record]? = some r → r.leases = s.calls.countP (LeasedCall.holds record) ∧ 0 ≤ r.leases
  released : ∀ i call record, s.calls[i]? = some call → call.record = some record →
    s.released.count i = if call.phase = .ended then 1 else 0

theorem Ledger.balanced (ledger : s.Ledger) : s.Balanced := by
  refine ⟨fun record r found => ?_, fun i call record here held => ?_⟩
  · have counted := ledger.counted record r found
    exact ⟨counted, by omega⟩
  · simpa [held] using ledger.released i call here

theorem start_fences : start.Fences where
  ledger := ⟨by simp [start], by simp [start], by simp [start], by simp [start], by simp [start]⟩
  relies := fun _ => trivial
  ended := by simp [EndsSettled, start]

/-- What is left of a call's thread ends with its release, whether or not the touch or the dispatch failed. -/
def ReleasesOnExit (s : LeaseState) : Prop :=
  ∀ i call submitted raised, s.calls[i]? = some call →
    ([.touch i submitted, .dispatch i raised, .release i].foldl next s).calls[i]? = some { call with phase := .ended }

theorem setPhase_found (phase : CallPhase) {call : Nat} {c : LeasedCall} (here : s.calls[call]? = some c) :
    (s.setPhase call phase).calls[call]? = some { c with phase := phase } := by
  simp [setPhase, here]

theorem release_dispatched {call : Nat} {record : Option Nat} {raised : Bool}
    (here : s.calls[call]? = some ⟨record, .dispatched raised⟩) : (s.next (.release call)).calls[call]? = some ⟨record, .ended⟩ := by
  have ended := setPhase_found .ended here
  simp only [next, here]
  cases record with
  | none => exact ended
  | some named => exact ended

theorem releasesOnExit (s : LeaseState) : s.ReleasesOnExit := by
  rintro i ⟨record, phase⟩ submitted raised here
  simp only [List.foldl_cons, List.foldl_nil]
  cases phase with
  | checked =>
    have touched := setPhase_found .touched here
    have dispatched := setPhase_found (.dispatched raised) touched
    have first : s.next (.touch i submitted) = s.setPhase i .touched := by simp only [next, here]
    rw [first]
    have second : (s.setPhase i .touched).next (.dispatch i raised) = (s.setPhase i .touched).setPhase i (.dispatched raised) := by
      simp only [next, touched]
    rw [second]
    exact release_dispatched dispatched
  | touched =>
    have first : s.next (.touch i submitted) = s := by simp only [next, here]
    have dispatched := setPhase_found (.dispatched raised) here
    have second : s.next (.dispatch i raised) = s.setPhase i (.dispatched raised) := by simp only [next, here]
    rw [first, second]
    exact release_dispatched dispatched
  | dispatched before =>
    have first : s.next (.touch i submitted) = s := by simp only [next, here]
    have second : s.next (.dispatch i raised) = s := by simp only [next, here]
    rw [first, second]
    exact release_dispatched here
  | ended =>
    have first : s.next (.touch i submitted) = s := by simp only [next, here]
    have second : s.next (.dispatch i raised) = s := by simp only [next, here]
    have third : s.next (.release i) = s := by simp only [next, here]
    rw [first, second, third, here]

/-- No lease after the mark, no close before the leases are back or the wait is over, every lease back exactly once. -/
theorem goodbye_fenced (steps : List LeaseStep) :
    (Runs.states next steps start).Pairwise NoLateGrant ∧
      ∀ s ∈ Runs.states next steps start, s.EndsSettled ∧ s.Balanced ∧ s.ReleasesOnExit := by
  refine ⟨Runs.pairwise (fun a b c first second => first.trans second) NoLateGrant.of_next steps start, fun s reached => ?_⟩
  have fences : s.Fences := Runs.invariant (P := Fences) (fun _ step here => here.next step) start_fences s reached
  exact ⟨fences.ended, fences.ledger.balanced, releasesOnExit s⟩

end LeaseState

end SaltMdb
