import SaltMdb.Store.Text
import SaltMdb.Library.Runs
import SaltMdb.Library.Arrivals

/-! The capture of conversation traces: one trace for a turn of a session, the messages sent while the turn ran, the final
message, and the sweep over what was abandoned. -/

namespace SaltMdb

/-! ### The texts that are captured -/

/-- What stands before and after the first occurrence of `tag`. -/
def cutAt (tag : List Char) : List Char → Option (List Char × List Char)
  | [] => if tag = [] then some ([], []) else none
  | c :: cs =>
    if tag.isPrefixOf (c :: cs) then some ([], (c :: cs).drop tag.length)
    else (cutAt tag cs).map fun parts => (c :: parts.1, parts.2)

/-- The shortest text between the first `first` and the next `last`. -/
def between (first last : String) (cs : List Char) : Option (List Char) :=
  (cutAt first.toList cs).bind fun parts => (cutAt last.toList parts.2).map (·.1)

/-- The zeros of the decimal digits, each followed by its one to nine. -/
def decimalZeros : List Nat :=
  [0x30, 0x660, 0x6F0, 0x7C0, 0x966, 0x9E6, 0xA66, 0xAE6, 0xB66, 0xBE6, 0xC66, 0xCE6, 0xD66, 0xDE6, 0xE50, 0xED0, 0xF20, 0x1040,
    0x1090, 0x17E0, 0x1810, 0x1946, 0x19D0, 0x1A80, 0x1A90, 0x1B50, 0x1BB0, 0x1C40, 0x1C50, 0xA620, 0xA8D0, 0xA900, 0xA9D0, 0xA9F0,
    0xAA50, 0xABF0, 0xFF10, 0x104A0, 0x10D30, 0x11066, 0x110F0, 0x11136, 0x111D0, 0x112F0, 0x11450, 0x114D0, 0x11650, 0x116C0,
    0x11730, 0x118E0, 0x11950, 0x11C50, 0x11D50, 0x11DA0, 0x11F50, 0x16A60, 0x16AC0, 0x16B50, 0x1D7CE, 0x1D7D8, 0x1D7E2, 0x1D7EC,
    0x1D7F6, 0x1E140, 0x1E2F0, 0x1E4F0, 0x1E950, 0x1FBF0]

def isDecimal (c : Char) : Bool := decimalZeros.any fun zero => zero ≤ c.toNat && c.toNat < zero + 10

/-- The digits after the first `exit code ` that has any. -/
def exitCode : List Char → Option (List Char)
  | [] => none
  | c :: cs =>
    let digits := ((c :: cs).drop "exit code ".toList.length).takeWhile isDecimal
    if "exit code ".toList.isPrefixOf (c :: cs) ∧ digits ≠ [] then some digits else exitCode cs

/-- The text between the first and the last quotation mark, and what follows the last. -/
def describedSummary (text : List Char) : Option (List Char × List Char) :=
  (cutAt ['"'] text).bind fun parts => (cutAt ['"'] parts.2.reverse).map fun back => (back.2.reverse, back.1.reverse)

def notificationLabel (prompt : List Char) : List Char :=
  match between "<status>" "</status>" prompt with
  | some status => "[background task ".toList ++ Text.stripEnds Text.isSpace status ++ "]".toList
  | none => "[background task]".toList

def exitSuffix (trailer : List Char) : List Char :=
  match exitCode trailer with
  | none => []
  | some code => if code = ['0'] then [] else " (exit ".toList ++ code ++ ")".toList

/-- `label_task_notification`. -/
def labelTaskNotification (prompt : String) : String :=
  let cs := prompt.toList
  if !"<task-notification>".toList.isPrefixOf cs then prompt
  else
    match between "<summary>" "</summary>" cs with
    | none => .ofList (notificationLabel cs ++ ' ' :: cs)
    | some summary =>
      let text := Text.stripEnds Text.isSpace summary
      match describedSummary text with
      | none => .ofList (notificationLabel cs ++ ' ' :: text)
      | some (description, trailer) => .ofList (notificationLabel cs ++ ' ' :: description ++ exitSuffix trailer)

inductive Harness where
  | codex
  | claudeCode
  | omp
  | copilot
  | hermes
  | opencode
deriving DecidableEq

/-- The text that a call captures. -/
def capturedText (harness : Harness) (prompt : String) : String :=
  if harness = .claudeCode then labelTaskNotification prompt else prompt

/-- `compute_content_hash`, over the digest it takes. -/
def computeContentHash (sha256 : String → String) (text : String) : String :=
  let normalized := Text.lower (Text.strip text)
  if text = "" ∨ normalized = "" then "" else sha256 normalized

/-! ### The tables -/

inductive TraceStatus where
  | pending
  | completed
  | incomplete
deriving DecidableEq

/-- A row of `conversation_traces`; its id is its place. -/
structure ConversationTrace where
  agentSessionId : String
  agentId : String
  harness : Harness
  harnessSessionId : String
  harnessTurnId : String
  status : TraceStatus
  userPrompt : String
  userPromptHash : String
  finalAssistantMessage : Option String
  finalAssistantMessageHash : Option String
  createdAt : Nat
  updatedAt : Nat
  completedAt : Option Nat
deriving DecidableEq

structure TurnMessage where
  traceId : Nat
  seq : Nat
  message : String
  messageHash : String
  createdAt : Nat
deriving DecidableEq

structure TraceDb where
  traces : List ConversationTrace
  messages : List TurnMessage

inductive TraceStep where
  | start (agentSessionId agentId : String) (harness : Harness) (harnessSessionId harnessTurnId userPrompt : String)
      (ended : List String) (now cutoff : Nat)
  | complete (agentSessionId agentId harnessTurnId finalAssistantMessage : String) (now : Nat)
  | sweep (agentSessionId agentId : Option String) (ended : List String) (now cutoff : Nat)

def ConversationTrace.ofTurn (session turn : String) (trace : ConversationTrace) : Bool :=
  trace.agentSessionId = session ∧ trace.harnessTurnId = turn

namespace TraceDb

def empty : TraceDb := ⟨[], []⟩

variable (db : TraceDb)

/-- The id of the turn's trace. -/
def traceOf (session turn : String) : Option Nat := db.traces.findIdx? (·.ofTurn session turn)

def updateTraces (sel : ConversationTrace → Bool) (f : ConversationTrace → ConversationTrace) : TraceDb :=
  { db with traces := db.traces.map fun trace => if sel trace then f trace else trace }

/-- The scope of a sweep. -/
def inScope (agentSessionId agentId : Option String) (trace : ConversationTrace) : Bool :=
  trace.status = .pending ∧ agentSessionId.all (trace.agentSessionId = ·) ∧ agentId.all (trace.agentId = ·)

def abandon (now : Nat) (trace : ConversationTrace) : ConversationTrace := { trace with status := .incomplete, updatedAt := now }

/-- `_sweep_abandoned_traces`: first what belongs to an ended session, then what is older than the timeout. -/
def sweepAbandonedTraces (agentSessionId agentId : Option String) (ended : List String) (now cutoff : Nat) : TraceDb :=
  (db.updateTraces (fun trace => inScope agentSessionId agentId trace && decide (trace.agentSessionId ∈ ended)) (abandon now)).updateTraces
    (fun trace => inScope agentSessionId agentId trace && decide (trace.createdAt < cutoff)) (abandon now)

def turnMessages (traceId : Nat) : List TurnMessage := db.messages.filter (·.traceId = traceId)

/-- `_append_turn_message`; nothing where the trace has a message of this hash. -/
def appendTurnMessage (traceId : Nat) (message hash : String) (now : Nat) : TraceDb :=
  if ∃ m ∈ db.turnMessages traceId, m.messageHash = hash then db
  else { db with
    messages := db.messages ++ [⟨traceId, ((db.turnMessages traceId).map (·.seq)).foldl max 0 + 1, message, hash, now⟩] }

section

variable (sha256 : String → String)

/-- `capture_trace_start` after its sweep. -/
def captureStart (agentSessionId agentId : String) (harness : Harness) (harnessSessionId harnessTurnId text : String) (now : Nat) :
    TraceDb :=
  let hash := computeContentHash sha256 text
  match db.traceOf agentSessionId harnessTurnId with
  | none =>
    { db with
      traces := db.traces ++ [⟨agentSessionId, agentId, harness, harnessSessionId, harnessTurnId, .pending, text, hash, none, none,
        now, now, none⟩] }
  | some id =>
    if (db.traces[id]?).any (·.userPromptHash ≠ hash) then db.appendTurnMessage id text hash now else db

def complete (now : Nat) (message : String) (trace : ConversationTrace) : ConversationTrace :=
  { trace with
    status := .completed
    finalAssistantMessage := some message
    finalAssistantMessageHash := some (computeContentHash sha256 message)
    completedAt := some now
    updatedAt := now }

/-- `capture_trace_complete`. -/
def captureComplete (agentSessionId agentId harnessTurnId message : String) (now : Nat) : TraceDb :=
  db.updateTraces
    (fun trace => trace.ofTurn agentSessionId harnessTurnId && decide (trace.agentId = agentId) && decide (trace.status = .pending))
    (complete sha256 now message)

def next : TraceStep → TraceDb
  | .start agentSessionId agentId harness harnessSessionId harnessTurnId userPrompt ended now cutoff =>
    (db.sweepAbandonedTraces (some agentSessionId) none ended now cutoff).captureStart sha256 agentSessionId agentId harness
      harnessSessionId harnessTurnId (capturedText harness userPrompt) now
  | .complete agentSessionId agentId harnessTurnId message now =>
    db.captureComplete sha256 agentSessionId agentId harnessTurnId message now
  | .sweep agentSessionId agentId ended now cutoff => db.sweepAbandonedTraces agentSessionId agentId ended now cutoff

end

end TraceDb

end SaltMdb
