import SaltMdb.Store.Connection

/-! The closed predicate vocabulary and the canonicalisation both the write gate and the readers use. -/

namespace SaltMdb

def agentSelectablePredicates : List String :=
  ["elaborates_on", "related_to", "resolves", "depends_on", "verifies", "corrects", "caused_by", "derived_from",
    "distinguishes_from", "part_of", "contradicts"]

/-- Reserved predicate and the lifecycle tool that creates it. -/
def reservedPredicates : List (String × String) :=
  [("supersedes", "supersede_memory"), ("consolidated_from", "consolidate_memories"), ("revises", "revise_memory")]

def legacyReadonlyPredicates : List String := ["similar_to"]

structure PredicateAlias where
  name : String
  canonical : String
  swap : Bool
deriving DecidableEq, Repr

def predicateAliases : List PredicateAlias :=
  [⟨"relates_to", "related_to", false⟩, ⟨"references", "related_to", false⟩, ⟨"links_to", "related_to", false⟩,
    ⟨"routes_to", "related_to", false⟩, ⟨"applies_to", "related_to", false⟩,
    ⟨"defines_protocol", "related_to", false⟩, ⟨"discovered_during", "related_to", false⟩,
    ⟨"enhances_retrieval", "related_to", false⟩, ⟨"governs_routing", "related_to", false⟩,
    ⟨"invokes_subagent", "related_to", false⟩, ⟨"fixes_bug_in", "resolves", false⟩, ⟨"fulfills", "resolves", false⟩,
    ⟨"fixes", "resolves", false⟩, ⟨"resolves_issue_in", "resolves", false⟩, ⟨"resolved_by", "resolves", true⟩,
    ⟨"remediated_by", "resolves", true⟩, ⟨"confirms", "verifies", false⟩, ⟨"reviews", "verifies", false⟩,
    ⟨"tests_tool_for", "verifies", false⟩, ⟨"verified_by", "verifies", true⟩, ⟨"extends", "derived_from", false⟩,
    ⟨"inspired_by", "derived_from", false⟩, ⟨"continues", "derived_from", false⟩, ⟨"follows", "derived_from", false⟩,
    ⟨"implements", "derived_from", false⟩, ⟨"elaborates", "elaborates_on", false⟩,
    ⟨"documents", "elaborates_on", false⟩, ⟨"documents_history_for", "elaborates_on", false⟩,
    ⟨"summarizes", "elaborates_on", true⟩, ⟨"expanded_by", "elaborates_on", true⟩, ⟨"amends", "corrects", false⟩,
    ⟨"refines", "corrects", false⟩, ⟨"affected_by", "caused_by", false⟩, ⟨"affects", "caused_by", true⟩,
    ⟨"has_constraint", "depends_on", false⟩, ⟨"uses_architecture", "depends_on", false⟩]

def findAlias (name : String) : Option PredicateAlias := predicateAliases.find? (·.name == name)

def lineagePredicates : List String := ["revises", "supersedes", "consolidated_from"]

def isLineage (predicate : String) : Bool := lineagePredicates.contains predicate

/-- `RELATION_GATE_STRONG_PREDICATES`. -/
def isStrong (predicate : String) : Bool := ["elaborates_on", "resolves", "supersedes"].contains predicate

/-- `RELATION_GATE_CONTRADICTORY_PREDICATE_PAIRS`, whose pairs are unordered. -/
def contradictoryPredicatePairs : List (String × String) := [("supersedes", "elaborates_on")]

def contradict (p q : String) : Bool :=
  contradictoryPredicatePairs.any fun pair => (p == pair.1 && q == pair.2) || (p == pair.2 && q == pair.1)

def normalizePredicateName (raw : String) : String :=
  let shaped := Text.collapseRuns Text.isLowerAlnum '_' (Text.lower (Text.strip raw)).toList false
  .ofList (Text.stripEnds (· == '_') shaped)

inductive Disposition where
  | selectable (canonical : String)
  | aliasOf (canonical : String) (swap : Bool)
  | reserved (canonical lifecycleTool : String)
  | legacyReadonly (canonical : String)
  | unknown
deriving DecidableEq, Repr

def Disposition.canonical? : Disposition → Option String
  | .selectable c => some c
  | .aliasOf c _ => some c
  | .reserved c _ => some c
  | .legacyReadonly c => some c
  | .unknown => none

def classifyPredicate (raw : String) : Disposition :=
  let normalized := normalizePredicateName raw
  if normalized = "" then .unknown
  else if agentSelectablePredicates.contains normalized then .selectable normalized
  else match reservedPredicates.find? (·.1 == normalized) with
    | some (_, tool) => .reserved normalized tool
    | none =>
      if legacyReadonlyPredicates.contains normalized then .legacyReadonly normalized
      else match findAlias normalized with
        | some entry => .aliasOf entry.canonical entry.swap
        | none => .unknown

/-- The canonical name of a known predicate, else what the `predicates` table says, else nothing. -/
def resolveOrCreatePredicate (db : Db) (predicateName : String) : Option String :=
  let raw := Text.strip predicateName
  if raw = "" then none
  else
    let normalized := normalizePredicateName raw
    if normalized = "" then none
    else match (classifyPredicate normalized).canonical? with
      | some canonical => some canonical
      | none =>
        match db.predicates.find? (·.name == normalized) with
        | some row => some (row.canonicalName.getD row.name)
        | none =>
          match db.predicates.find? (·.normalizedName == normalized) with
          | some row => some (row.canonicalName.getD row.name)
          | none => none

/-- The name a relation statement is run with: `resolve_or_create_predicate(conn, p) or p`. -/
def canonicalPredicate (db : Db) (predicate : String) : String :=
  (resolveOrCreatePredicate db predicate).getD predicate

theorem selectable_not_lineage {p : String} (h : p ∈ agentSelectablePredicates) : isLineage p = false := by
  simp only [agentSelectablePredicates, List.mem_cons, List.not_mem_nil, or_false] at h
  rcases h with rfl | rfl | rfl | rfl | rfl | rfl | rfl | rfl | rfl | rfl | rfl <;> decide

theorem classify_selectable {raw p : String} (h : classifyPredicate raw = .selectable p) :
    p = normalizePredicateName raw ∧ p ∈ agentSelectablePredicates := by
  dsimp only [classifyPredicate] at h
  split at h
  · simp at h
  · split at h
    · rename_i listed
      obtain rfl := Disposition.selectable.inj h
      exact ⟨rfl, by simpa using listed⟩
    · split at h
      · simp at h
      · split at h
        · simp at h
        · split at h <;> simp at h

theorem normalizePredicateName_strip (raw : String) :
    normalizePredicateName (Text.strip raw) = normalizePredicateName raw := by
  simp only [normalizePredicateName, Text.strip_strip]

theorem selectable_fixed {p : String} (h : p ∈ agentSelectablePredicates) :
    normalizePredicateName p = p ∧ classifyPredicate p = .selectable p := by
  simp only [agentSelectablePredicates, List.mem_cons, List.not_mem_nil, or_false] at h
  rcases h with rfl | rfl | rfl | rfl | rfl | rfl | rfl | rfl | rfl | rfl | rfl <;> decide

theorem canonicalPredicate_selectable {db : Db} {raw p : String} (h : classifyPredicate raw = .selectable p) :
    canonicalPredicate db raw = p := by
  obtain ⟨rfl, listed⟩ := classify_selectable h
  have nonempty : normalizePredicateName raw ≠ "" := by
    intro empty
    rw [empty] at listed
    revert listed
    decide
  have stripped : Text.strip raw ≠ "" := by
    intro empty
    rw [← normalizePredicateName_strip, empty] at nonempty
    exact nonempty (by decide)
  simp only [canonicalPredicate, resolveOrCreatePredicate, stripped, if_false, normalizePredicateName_strip,
    nonempty, (selectable_fixed listed).2, Disposition.canonical?, Option.getD_some]

end SaltMdb
