import SaltMdb.Memory.Archive
import SaltMdb.Memory.Metadata

/-! `set_core_memory` and `review_core_memory`. -/

namespace SaltMdb
open Transactions

structure CoreReceipt where
  id : EntityId
  message : String
  coreReviewAfter : Option String
deriving DecidableEq, Repr

structure SetCoreRequest where
  entityId : String
  agentId : Option String
  coreReason : Option String
  coreExitCondition : Option String
  detailMemoryIds : Option (List String)
deriving DecidableEq, Repr

variable (env : Env)

/-! ### Declaring a core -/

def validateSetCore (request : SetCoreRequest) : Except Error Unit := do
  if Text.strip (request.coreReason.getD "") = "" then
    .error (fieldError validationError "core_reason must be a non-empty string." "core_reason")
  if Text.strip (request.coreExitCondition.getD "") = "" then
    .error (fieldError validationError "core_exit_condition must be a non-empty string." "core_exit_condition")
  if request.agentId.getD "" = "" then
    .error (fieldError validationError "agent_id is mandatory." "agent_id")

def coreFieldError (text : String) : Error := fieldError validationError text "core"

def setCoreState (db : Db) (now : Instant) (row : Entity) (request : SetCoreRequest) : Except Error CoreState :=
  let details := if !row.isCore && request.detailMemoryIds.isNone then some [] else request.detailMemoryIds
  if (details.getD []).contains row.id then .error (coreFieldError "A core cannot be its own detail.")
  else (resolveStoreCoreState env db now (some row)
      ⟨some true, request.coreReason, request.coreExitCondition, none, details⟩ row.fullContent row.scope).mapError
    coreFieldError

/-- The row with its core fields replaced by the ones to be persisted. -/
def Entity.entryWith (row : Entity) (state : CoreState) : CoreEntry :=
  ⟨row.id, row.title, row.memoryType, state.coreReason, state.coreExitCondition, state.coreReviewAfter, row.fullContent⟩

def setCoreAdmission (db : Db) (now : Instant) (row : Entity) (state : CoreState) : Except Error Unit := do
  (enforceOverdueBoundary env db now (some row.id) { state with isCore := true } false (some (row.entryWith state))).mapError
    coreFieldError
  match checkCapacityAdmission env db now [row.id] (row.entryWith state) with
  | some _ => .error coreCapacityError
  | none => .ok ()

/-- `UPDATE entities SET is_core = 1, …`. -/
def CoreState.declare (state : CoreState) (now : Instant) (c : EntityColumns) : EntityColumns :=
  { c with
    isCore := true
    coreReason := state.coreReason
    coreExitCondition := state.coreExitCondition
    coreReviewAfter := state.coreReviewAfter
    coreDetailMemoryIds := state.coreDetailMemoryIds
    updatedAt := now }

def setCoreMessage (id : EntityId) (state : CoreState) : String :=
  let review := state.coreReviewAfter.getD "None"
  if state.isNewCore then "Memory '" ++ id ++ "' promoted to core; next review at " ++ review ++ "."
  else "Core declaration of '" ++ id ++ "' updated; next review at " ++ review ++ "."

def setCoreWrite (row : Entity) (state : CoreState) (agentId : Option String) : Tx (Envelope CoreReceipt) := do
  let now ← Tx.now env
  Tx.setEntities (·.updateId row.id (state.declare now))
  reconcileDetailRelations env row.id agentId state.coreDetailMemoryIds state.previousDetailMemoryIds
  syncRawCoreTag env row.id agentId
  return .ok ⟨row.id, setCoreMessage row.id state, state.coreReviewAfter⟩ []

/-- The declaration in force already says what is asked for. -/
def declarationCurrent (row : Entity) (state : CoreState) : Bool :=
  row.isCore && state.coreReason == row.coreReason && state.coreExitCondition == row.coreExitCondition &&
    state.coreDetailMemoryIds == row.coreDetailMemoryIds

def setCoreUnchanged (id : EntityId) (state : CoreState) : Envelope CoreReceipt :=
  .ok ⟨id, "Core declaration of '" ++ id ++ "' is already current (no-op).", state.coreReviewAfter⟩
    [⟨alreadyDone, "Core declaration was already current."⟩]

inductive SetCoreDecision where
  | refuse (error : Error)
  | unchanged (id : EntityId) (state : CoreState)
  | write (row : Entity) (state : CoreState)

def setCoreDecision (db : Db) (now : Instant) (request : SetCoreRequest) : SetCoreDecision :=
  match ownedMemoryTarget env db request.entityId request.agentId foreignCoreError with
  | .error e => .refuse e
  | .ok row =>
    if row.status ≠ .raw then
      .refuse (fieldError conflict ("Memory '" ++ row.id ++ "' cannot be made core because its status is '" ++
        row.status.text ++ "'.") "entity_id")
    else match setCoreState env db now row request with
      | .error e => .refuse e
      | .ok state =>
        if declarationCurrent row state then .unchanged row.id state
        else match setCoreAdmission env db now row state with
          | .error e => .refuse e
          | .ok () => .write row state

def setCoreTransaction (request : SetCoreRequest) : Tx (Envelope CoreReceipt) := do
  let db ← Tx.db
  let now ← Tx.now env
  match setCoreDecision env db now request with
  | .refuse e => return .rejected [e]
  | .unchanged id state => return setCoreUnchanged id state
  | .write row state => setCoreWrite env row state request.agentId

/-- `set_core_memory`. No handler: an exception reaches the caller. -/
def setCoreMemory (mode : Mode) (request : SetCoreRequest) : Tx (Envelope CoreReceipt) :=
  match validateSetCore request with
  | .error e => pure (.rejected [e])
  | .ok () => writeTransactionRetrying mode (setCoreTransaction env request)

/-! ### Reviewing a core -/

inductive ReviewOutcome where
  | retain
  | demote
  | archive
deriving DecidableEq, Repr

def ReviewOutcome.parse : String → Option ReviewOutcome
  | "retain" => some .retain
  | "demote" => some .demote
  | "archive" => some .archive
  | _ => none

structure ReviewRequest where
  entityId : String
  outcome : String
  reviewRationale : Option String
  agentId : Option String
  coreReviewAfter : Option String
deriving DecidableEq, Repr

def coreReceipt (id : EntityId) (message : String) : CoreReceipt := ⟨id, message, none⟩

def retainInactiveError (row : Entity) : Error :=
  fieldError conflict ("Error: review_core_memory(outcome='retain') requires an active core memory; '" ++ row.id ++
    "' is " ++ (if row.status = .archived then "archived" else "not core") ++ ".") "entity_id"

/-- The next review date: a new one, or the default interval from now. -/
def nextReview (given : Option String) (now : Instant) : Except String String :=
  match given with
  | none => parseCoreReviewAfter env none (some coreDefaultReviewDays) now
  | some text => parseCoreReviewAfter env (some text) none now

def reviewRetain (row : Entity) (rationale : String) (given : Option String) (now : Instant) :
    Tx (Envelope CoreReceipt) :=
  if !row.isCore || row.status == .archived then pure (.rejected [retainInactiveError row])
  else match nextReview env given now with
    | .error text => pure (.rejected [fieldError validationError text "core_review_after"])
    | .ok review => do
      Tx.setEntities (·.updateId row.id fun c =>
        { c with coreReviewAfter := some review, coreReviewRationale := some rationale, updatedAt := now })
      return .ok (coreReceipt row.id ("Memory '" ++ row.id ++ "' retained as core; next review at " ++ review ++ ".")) []

/-- The label is taken away by its name. -/
def unlinkCoreTag (db : Db) (id : EntityId) : Tx Unit :=
  match db.tags.fetchName coreTag with
  | none => pure ()
  | some tag => Tx.setTags (·.unlinkWhere (· == (id, tag.id)))

def reviewDemote (row : Entity) (rationale : String) (now : Instant) : Tx (Envelope CoreReceipt) :=
  if !row.isCore then
    pure (.ok (coreReceipt row.id ("Memory '" ++ row.id ++ "' is already non-core (no-op)."))
      [⟨alreadyDone, "Memory was already non-core."⟩])
  else do
    let db ← Tx.db
    Tx.setEntities (·.updateId row.id fun c =>
      { c with isCore := false, coreReviewAfter := none, coreReviewRationale := some rationale, updatedAt := now })
    unlinkCoreTag db row.id
    return .ok (coreReceipt row.id ("Memory '" ++ row.id ++ "' demoted from core to a normal memory.")) []

def reviewArchiveError (id : EntityId) : Error :=
  fieldError conflict ("Error: review_core_memory(outcome='archive') requires a core memory; '" ++ id ++
    "' is not a core memory. Use archive_memory for ordinary memories.") "entity_id"

def reviewArchive (row : Entity) (rationale : String) : Tx (Envelope CoreReceipt) :=
  if !row.isCore then pure (.rejected [reviewArchiveError row.id])
  else if row.status = .archived then
    pure (.ok (coreReceipt row.id ("Memory '" ++ row.id ++ "' is already archived (no-op)."))
      [⟨alreadyDone, "Memory was already archived."⟩])
  else do
    archiveEntityUnchecked env row.id
    Tx.setEntities (·.updateId row.id fun c => { c with coreReviewRationale := some rationale })
    return .ok (coreReceipt row.id ("Memory '" ++ row.id ++ "' was reviewed and archived.")) []

def reviewWrite (id : EntityId) (outcome : ReviewOutcome) (rationale : String) (given : Option String) :
    Tx (Envelope CoreReceipt) := do
  let db ← Tx.db
  match db.entities.find id with
  | none => return .rejected [fieldError notFound ("Memory '" ++ id ++ "' not found.") "entity_id"]
  | some row =>
    let now ← Tx.now env
    match outcome with
    | .retain => reviewRetain env row rationale given now
    | .demote => reviewDemote row rationale now
    | .archive => reviewArchive env row rationale

/-- The checks before the transaction: the memory, the outcome and the rationale to be recorded. -/
def prepareReview (db : Db) (request : ReviewRequest) : Except Error (EntityId × ReviewOutcome × String) :=
  match ReviewOutcome.parse request.outcome with
  | none => .error (fieldError validationError "outcome must be one of 'retain', 'demote', 'archive'." "outcome")
  | some outcome =>
    if request.agentId.getD "" = "" then .error (fieldError validationError "agent_id is mandatory." "agent_id")
    else if outcome ≠ .retain ∧ request.coreReviewAfter.isSome then
      .error (fieldError validationError ("core_review_after must not be supplied for outcome='" ++ request.outcome ++ "'.")
        "core_review_after")
    else match validateCoreReviewRationale env request.reviewRationale with
      | .error text => .error (fieldError validationError text "review_rationale")
      | .ok rationale =>
        let id := resolveEntityId env db request.entityId
        if id = "" then
          .error (fieldError notFound ("Could not resolve entity '" ++ request.entityId ++ "'.") "entity_id")
        else .ok (id, outcome, rationale)

def reviewCoreMemory (mode : Mode) (request : ReviewRequest) : Tx (Envelope CoreReceipt) := do
  let db ← Tx.db
  match prepareReview env db request with
  | .error e => return .rejected [e]
  | .ok (id, outcome, rationale) =>
    writeTransactionRetrying mode (reviewWrite env id outcome rationale request.coreReviewAfter)

end SaltMdb
