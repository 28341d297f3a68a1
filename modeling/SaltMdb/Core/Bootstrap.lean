import SaltMdb.Core.Details
import Mathlib

/-! What the bootstrap re-checks of the active cores before it renders them, and how long the rendering is. -/

namespace SaltMdb
open Transactions

variable (env : Env)

/-! ### The checks -/

/-- `_detail_id_violation`; without a connection nothing is looked up. -/
def detailIdViolation (conn : Option Db) (row : Entity) : Option String :=
  match conn with
  | none => none
  | some db =>
    if row.coreDetailMemoryIds.isEmpty then none
    else match validateDetailMemoryIds db row.coreDetailMemoryIds row.fullContent with
      | .ok _ => none
      | .error e => some (row.id ++ ": core_detail_memory_ids invalid -- " ++ e)

def reviewViolation (row : Entity) : Option String :=
  match row.coreReviewAfter with
  | none => some (row.id ++ ": core_review_after missing")
  | some text =>
    if text = "" then some (row.id ++ ": core_review_after missing")
    else match env.parseIsoUtc text with
      | none => some (row.id ++ ": core_review_after malformed")
      | some _ => none

def invariantRowViolations (conn : Option Db) (row : Entity) : List String :=
  (match validateCoreReason env row.coreReason with
    | .ok _ => []
    | .error _ => [row.id ++ ": core_reason missing or out of bounds"]) ++
  (match validateCoreExitCondition env row.coreExitCondition with
    | .ok _ => []
    | .error _ => [row.id ++ ": core_exit_condition missing or out of bounds"]) ++
  (reviewViolation env row).toList ++
  (if coreMaxContentChars < row.fullContent.length then
    [row.id ++ s!": full_content exceeds {coreMaxContentChars} characters"] else []) ++
  (if row.scope ≠ .shared then
    [row.id ++ ": scope must be shared -- private core memories are prohibited"] else []) ++
  (detailIdViolation conn row).toList

def findInvariantViolations (now : Instant) (rows : List Entity) (conn : Option Db) : List String :=
  let rendered := renderBootstrapDigest env now (rows.map (·.coreEntry))
  (if coreMaxActive < rows.length then
    [s!"active core count {rows.length} exceeds CORE_MAX_ACTIVE={coreMaxActive}"] else []) ++
  rows.flatMap (invariantRowViolations env conn) ++
  (if coreMaxRenderedChars < rendered.length then
    [s!"rendered digest {rendered.length} exceeds CORE_MAX_RENDERED_CHARS={coreMaxRenderedChars}"] else [])

/-- `render_bootstrap_response`: the digest, or the violations that the error report lists. -/
def renderBootstrapResponse (db : Db) (now : Instant) : Except (List String) String :=
  let rows := loadActiveCores env db now
  let violations := findInvariantViolations env now rows (some db)
  if violations.isEmpty then .ok (renderBootstrapDigest env now (rows.map (·.coreEntry)))
  else .error violations

variable {env} in
theorem mem_loadActiveCores {db : Db} {now : Instant} {e : Entity} :
    e ∈ loadActiveCores env db now ↔ e ∈ db.entities.rows ∧ e.activeCore = true := by
  unfold loadActiveCores
  rw [List.mem_mergeSort, List.mem_filter]

/-- Where no declaration is broken the connection changes nothing of what is found. -/
theorem findInvariantViolations_conn {db : Db} {now : Instant} {rows : List Entity}
    (valid : ∀ e ∈ rows, detailIdViolation (some db) e = none) :
    findInvariantViolations env now rows (some db) = findInvariantViolations env now rows none := by
  have same : rows.flatMap (invariantRowViolations env (some db)) = rows.flatMap (invariantRowViolations env none) := by
    refine List.flatMap_congr fun e member => ?_
    unfold invariantRowViolations
    rw [valid e member]
    rfl
  unfold findInvariantViolations
  rw [same]

/-! ### Lengths -/

theorem Text.join_length (sep : String) (parts : List String) :
    (Text.join sep parts).length = (parts.map (·.length)).sum + sep.length * (parts.length - 1) := by
  induction parts with
  | nil => rfl
  | cons s rest ih =>
    cases rest with
    | nil => simp [Text.join]
    | cons t more =>
      rw [Text.join, String.length_append, String.length_append, ih]
      simp only [List.map_cons, List.sum_cons, List.length_cons, Nat.add_sub_cancel, Nat.mul_add, Nat.mul_one]
      omega

/-- The characters an entry adds to the digest: the fixed text and the fields. -/
def renderedEntryLength (row : CoreEntry) (due : Bool) : Nat :=
  let dueStr := if due then 4 else 5
  row.id.length + 2 * row.memoryType.text.length + 2 * dueStr + (escapeYamlLine row.title).length +
    (escapeYamlLine (row.coreReason.getD "")).length + (escapeYamlLine (row.coreExitCondition.getD "")).length +
    (row.coreReviewAfter.getD "None").length + (Text.replace row.fullContent "</memory>" "&lt;/memory&gt;").length + 175

theorem renderCoreEntry_length (row : CoreEntry) (due : Bool) :
    (renderCoreEntry row due).length = renderedEntryLength row due := by
  have flag : (if due = true then "true" else "false").length = if due = true then 4 else 5 := by cases due <;> rfl
  unfold renderCoreEntry renderedEntryLength
  simp only [Text.join_length, List.map_cons, List.map_nil, List.sum_cons, List.sum_nil, String.length_append, flag,
    List.length_cons, List.length_nil]
  have fixed : "<memory id=\"".length = 12 ∧ "\" type=\"".length = 8 ∧ "\" is_core=\"true\" review_due=\"".length = 29 ∧
      "\">".length = 2 ∧ "---".length = 3 ∧ "title: \"".length = 8 ∧ "\"".length = 1 ∧ "type: ".length = 6 ∧
      "is_core: true".length = 13 ∧ "core_reason: \"".length = 14 ∧ "core_exit_condition: \"".length = 22 ∧
      "core_review_after: ".length = 19 ∧ "review_due: ".length = 12 ∧ "</memory>".length = 9 ∧
      "\n".length = 1 ∧ "".length = 0 := by decide
  omega

def renderedLength (rows : List CoreEntry) : Nat :=
  if rows.isEmpty then 35 else (rows.map fun row => renderedEntryLength row false + 2).sum + 64

theorem renderPessimistic_length (rows : List CoreEntry) : (renderPessimistic rows).length = renderedLength rows := by
  have fixed : "<saltmdb-digest>".length = 16 ∧ "<core-rules>".length = 12 ∧ "</core-rules>".length = 13 ∧
      "</saltmdb-digest>".length = 17 ∧ "".length = 0 := by decide
  have newline : "\n".length = 1 := rfl
  cases rows with
  | nil => decide
  | cons row rest =>
    have entries : ∀ rows : List CoreEntry,
        ((rows.flatMap fun row => ["", renderCoreEntry row false]).map (·.length)).sum +
            (rows.flatMap fun row => ["", renderCoreEntry row false]).length =
          (rows.map fun row => renderedEntryLength row false + 2).sum := by
      intro rows
      induction rows with
      | nil => rfl
      | cons row rest ih =>
        simp only [List.flatMap_cons, List.map_append, List.sum_append, List.length_append, List.map_cons, List.map_nil,
          List.sum_cons, List.sum_nil, List.length_cons, List.length_nil, renderCoreEntry_length]
        omega
    have sum := entries (row :: rest)
    simp only [renderPessimistic, renderDigest, List.isEmpty_cons, Bool.false_eq_true, if_false, Text.join_length,
      List.map_append, List.sum_append, List.length_append, List.map_cons, List.map_nil, List.sum_cons, List.sum_nil,
      List.length_cons, List.length_nil, renderedLength, newline, Nat.one_mul] at sum ⊢
    omega

end SaltMdb
