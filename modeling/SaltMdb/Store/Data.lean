import SaltMdb.Store.Text

/-! The rows of the memory store and the envelopes its services answer with. -/

namespace SaltMdb

abbrev EntityId := String
abbrev RelationId := Nat
abbrev TagId := Nat

/-- Microseconds on the UTC time line. -/
abbrev Instant := Int

/-- SQLite's `datetime(x)`: comparisons between stored timestamps see whole seconds. -/
def datetime (t : Instant) : Int := t / 1000000

def days (n : Int) : Instant := n * 86400000000

inductive Status where
  | raw
  | consolidated
  | archived
deriving DecidableEq, Repr

def Status.text : Status → String
  | .raw => "raw"
  | .consolidated => "consolidated"
  | .archived => "archived"

inductive Scope where
  | private_
  | shared
deriving DecidableEq, Repr

inductive MemoryType where
  | fact
  | event
  | procedure
  | decision
  | preference
deriving DecidableEq, Repr

def Scope.parse : String → Option Scope
  | "private" => some .private_
  | "shared" => some .shared
  | _ => none

def MemoryType.text : MemoryType → String
  | .fact => "fact"
  | .event => "event"
  | .procedure => "procedure"
  | .decision => "decision"
  | .preference => "preference"

def MemoryType.parse : String → Option MemoryType
  | "fact" => some .fact
  | "event" => some .event
  | "procedure" => some .procedure
  | "decision" => some .decision
  | "preference" => some .preference
  | _ => none

/-- The columns of `entities` beside the primary key. The JSON columns are the parsed values: a missing
list or object reads as empty. -/
structure EntityColumns where
  createdAt : Instant
  updatedAt : Instant
  agentId : Option String
  contextId : Option String
  scope : Scope
  status : Status
  title : String
  fullContent : String
  contentHash : String
  memoryType : MemoryType
  parentIds : List EntityId
  metadata : List (String × String)
  retrievalText : Option String
  isCore : Bool
  coreReason : Option String
  coreExitCondition : Option String
  coreReviewAfter : Option String
  coreDetailMemoryIds : List EntityId
  coreReviewRationale : Option String
deriving DecidableEq, Repr

structure Entity extends EntityColumns where
  id : EntityId
deriving DecidableEq, Repr

/-- `status != 'archived'`. -/
def Entity.live (e : Entity) : Bool := e.status != .archived

/-- What a relation says, apart from when. -/
structure Edge where
  source : EntityId
  predicate : String
  target : EntityId
deriving DecidableEq, Repr

/-- A row of `relations`, in the order of its rowid. -/
structure Relation where
  id : RelationId
  sourceId : EntityId
  targetId : EntityId
  predicate : String
  createdAt : Instant
  validFrom : Option Instant
  validTo : Option Instant
  validAt : Option Instant
  invalidAt : Option Instant
deriving DecidableEq, Repr

namespace Relation

def edge (r : Relation) : Edge := ⟨r.sourceId, r.predicate, r.targetId⟩

/-- `valid_to IS NULL`. -/
def active (r : Relation) : Bool := r.validTo.isNone

def touches (r : Relation) (id : EntityId) : Bool := r.sourceId == id || r.targetId == id

end Relation

/-- A row of `predicates`: the canonical name is what `canonical_id` joins to. -/
structure PredicateRow where
  name : String
  normalizedName : String
  canonicalName : Option String
deriving DecidableEq, Repr

structure Tag where
  id : TagId
  name : String
  normalizedName : Option String
  canonicalId : Option TagId
deriving DecidableEq, Repr

/-- The audit events of this component, by what their JSON content records. -/
inductive EventContent where
  | relationGateOverride (sourceId targetId : EntityId) (predicate : String) (violations : List String)
      (similarity : Rat) (contradictingPredicates : List String) (justification : String)
      (relationId : RelationId)
  | consolidationGateOverride (parentIds : List EntityId) (minPairwiseSimilarity : Rat)
      (unresolved : List (EntityId × String)) (justification : String) (consolidatedId : EntityId)
  | issue (text : String)
deriving DecidableEq, Repr

/-- A row of `events`, in the order of its rowid. -/
structure Event where
  timestamp : Instant
  agentId : String
  content : EventContent
deriving DecidableEq, Repr

inductive JobKind where
  | entity
  | chunk
  | retrieval
deriving DecidableEq, Repr

inductive JobState where
  | queued
  | running
  | retryWait
  | succeeded
  | failed
  | cancelled
deriving DecidableEq, Repr

structure EmbeddingJob where
  entityId : EntityId
  jobKind : JobKind
  sourceHash : String
  state : JobState
deriving DecidableEq, Repr

/-! ### Envelopes -/

inductive Segment where
  | name (key : String)
  | index (i : Nat)
deriving DecidableEq, Repr

/-- The `field` of an error, as the path that its text spells. -/
abbrev FieldPath := List Segment

def FieldPath.render : FieldPath → String
  | [] => ""
  | .name key :: rest => key ++ tail rest
  | .index i :: rest => s!"[{i}]" ++ tail rest
where
  tail : FieldPath → String
    | [] => ""
    | .name key :: rest => "." ++ key ++ tail rest
    | .index i :: rest => s!"[{i}]" ++ tail rest

structure Error where
  code : String
  message : String
  field : Option FieldPath
deriving DecidableEq, Repr

structure Warning where
  code : String
  message : String
deriving DecidableEq, Repr

def alreadyDone : String := "ALREADY_DONE"
def validationError : String := "VALIDATION_ERROR"
def internalError : String := "INTERNAL_ERROR"
def notFound : String := "NOT_FOUND"
def conflict : String := "CONFLICT"

def fieldError (code message key : String) : Error := ⟨code, message, some [.name key]⟩

/-- What a service returns. `failure` is the bare text some of `store_memory`'s checks answer with. -/
inductive Envelope (α : Type) where
  | ok (data : α) (warnings : List Warning)
  | rejected (errors : List Error)
  | failure (text : String)
deriving DecidableEq, Repr

namespace Envelope

variable {α β : Type}

def isOk : Envelope α → Bool
  | .ok _ _ => true
  | .rejected _ => false
  | .failure _ => false

def map (f : α → β) : Envelope α → Envelope β
  | .ok data warnings => .ok (f data) warnings
  | .rejected errors => .rejected errors
  | .failure text => .failure text

@[simp] theorem isOk_ok (data : α) (warnings : List Warning) : (ok data warnings).isOk = true := rfl
@[simp] theorem isOk_rejected (errors : List Error) : (rejected errors : Envelope α).isOk = false := rfl
@[simp] theorem isOk_failure (text : String) : (failure text : Envelope α).isOk = false := rfl

@[simp] theorem isOk_map (f : α → β) (e : Envelope α) : (e.map f).isOk = e.isOk := by
  cases e <;> rfl

end Envelope
end SaltMdb
