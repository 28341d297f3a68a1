import Mathlib.Data.Nat.Digits.Defs
import SaltMdb.Core.Bootstrap
import SaltMdb.Schema.Fresh

/-! The error report that the bootstrap answers with where an invariant is broken, and the room it takes. -/

namespace SaltMdb

def coreBootstrapErrorMaxChars : Nat := 12000
def bootstrapErrorReserveChars : Nat := 300

/-- What a report tells of a core memory. -/
structure InventoryItem where
  id : EntityId
  title : String
  memoryType : MemoryType
  agentId : Option String
  coreReviewAfter : Option String
  reviewDue : Bool
  renderedChars : Nat
deriving DecidableEq, Repr

variable (env : Env)

def buildInventory (now : Instant) (rows : List Entity) : List InventoryItem :=
  rows.map fun row =>
    let due := isOverdue env row.coreReviewAfter now
    ⟨row.id, row.title, row.memoryType, row.agentId, row.coreReviewAfter, due, (renderCoreEntry row.coreEntry due).length⟩

/-! ### The report -/

def bootstrapErrorHeader : List String :=
  ["<saltmdb-digest>", "", "<core-bootstrap-error>",
    "The active core-memory set fails one or more invariants and cannot be safely injected.",
    "No core content was omitted or truncated to make a partial set fit -- this is a full-stop failure.",
    "", "Violations:"]

def bootstrapErrorFooter : List String :=
  ["", "Rebalance autonomously: demote/archive/shorten/consolidate active core memories via " ++
      "review_core_memory/store_memory/commit_consolidation until every invariant above holds, " ++
      "then retry -- capacity management never requires a human decision. Do not guess a " ++
      "partial working set; fix the violations and let the next bootstrap call re-validate the " ++
      "full set.",
    "", "</core-bootstrap-error>", "", "</saltmdb-digest>"]

def bootstrapErrorFooterText : String := Text.join "\n" bootstrapErrorFooter

/-- The room of the lines above a footer. -/
def bootstrapErrorRoom (footerText : String) : Nat :=
  coreBootstrapErrorMaxChars - footerText.length - bootstrapErrorReserveChars

def violationLine (violation : String) : String := "  - " ++ escapeYamlLine violation

/-- `str(flag)`. -/
def pyBool (flag : Bool) : String := if flag then "True" else "False"

/-- One line of the inventory, `pyRepr` quoting the title. -/
def inventoryLine (pyRepr : String → String) (item : InventoryItem) : String :=
  "  - id=" ++ item.id ++ " title=" ++ pyRepr (escapeYamlLine item.title) ++ " type=" ++ item.memoryType.text ++
    " agent_id=" ++ item.agentId.getD "None" ++ " review_after=" ++ item.coreReviewAfter.getD "None" ++
    " due=" ++ pyBool item.reviewDue ++ " rendered_chars=" ++ toString item.renderedChars

/-- The lines that are appended while they fit, how much is used then, and how many are omitted. -/
structure FittedLines where
  lines : List String
  used : Nat
  omitted : Nat

def fitLines (budget : Nat) : Nat → List String → FittedLines
  | used, [] => ⟨[], used, 0⟩
  | used, line :: rest =>
    if budget < used + line.length + 1 then ⟨[], used, (line :: rest).length⟩
    else
      let later := fitLines budget (used + line.length + 1) rest
      ⟨line :: later.lines, later.used, later.omitted⟩

/-- The lines between the two lists, whose lengths count as used. -/
def bootstrapErrorMiddle (omittedViolations cores : Nat) : List String :=
  ["omitted_violation_count=" ++ toString omittedViolations, "",
    "Active core count: " ++ toString cores ++ " (limit: " ++ toString coreMaxActive ++ ")", "Compact inventory (no content):"]

def fitViolations (violations : List String) : FittedLines :=
  fitLines (bootstrapErrorRoom bootstrapErrorFooterText) (Text.join "\n" bootstrapErrorHeader).length (violations.map violationLine)

def fitInventory (pyRepr : String → String) (now : Instant) (rows : List Entity) (violations : List String) : FittedLines :=
  let shown := fitViolations violations
  let middle := bootstrapErrorMiddle shown.omitted rows.length
  fitLines (bootstrapErrorRoom bootstrapErrorFooterText) (shown.used + (middle.map fun line => line.length + 1).sum)
    ((buildInventory env now rows).map (inventoryLine pyRepr))

/-- The report before the last resort. -/
def bootstrapErrorText (pyRepr : String → String) (now : Instant) (rows : List Entity) (violations : List String) : String :=
  let shown := fitViolations violations
  let inventory := fitInventory env pyRepr now rows violations
  let body := shown.lines ++ bootstrapErrorMiddle shown.omitted rows.length ++ inventory.lines ++
    ["omitted_core_count=" ++ toString inventory.omitted]
  Text.join "\n" (bootstrapErrorHeader ++ body ++ bootstrapErrorFooter)

/-- `s.rstrip()`. -/
def Text.rstrip (s : String) : String := .ofList (s.toList.rdropWhile Text.isSpace)

def renderBootstrapError (pyRepr : String → String) (now : Instant) (rows : List Entity) (violations : List String) : String :=
  let result := bootstrapErrorText env pyRepr now rows violations
  if coreBootstrapErrorMaxChars < result.length then
    let allowedBody := coreBootstrapErrorMaxChars - bootstrapErrorFooterText.length - 1
    Text.rstrip (.ofList (result.toList.take allowedBody)) ++ "\n" ++ bootstrapErrorFooterText
  else result

/-! ### What fits -/

variable {env} {budget used : Nat} {lines : List String}

theorem fitLines_shown (budget used : Nat) (lines : List String) : ∃ rest,
    lines = (fitLines budget used lines).lines ++ rest ∧ (fitLines budget used lines).omitted = rest.length := by
  induction lines generalizing used with
  | nil => exact ⟨[], rfl, rfl⟩
  | cons line lines ih =>
    unfold fitLines
    split
    · exact ⟨line :: lines, rfl, rfl⟩
    · obtain ⟨rest, split_, count⟩ := ih (used + line.length + 1)
      exact ⟨rest, congrArg (line :: ·) split_, count⟩

theorem fitLines_used (budget used : Nat) (lines : List String) : (fitLines budget used lines).used =
    used + ((fitLines budget used lines).lines.map fun line => line.length + 1).sum := by
  induction lines generalizing used with
  | nil => rfl
  | cons line lines ih =>
    unfold fitLines
    split
    · rfl
    · dsimp only
      rw [ih, List.map_cons, List.sum_cons]
      omega

/-- What is appended stays in the budget. -/
theorem fitLines_fits (budget used : Nat) (lines : List String) : (fitLines budget used lines).used ≤ max used budget := by
  induction lines generalizing used with
  | nil => exact Nat.le_max_left used budget
  | cons line lines ih =>
    unfold fitLines
    split
    · exact Nat.le_max_left used budget
    · rename_i fits
      have later := ih (used + line.length + 1)
      dsimp only
      omega

theorem join_lines_length (first : String) (rest : List String) :
    (Text.join "\n" (first :: rest)).length = first.length + (rest.map fun line => line.length + 1).sum := by
  have each : (rest.map fun line => line.length + 1).sum = (rest.map (·.length)).sum + rest.length := by
    induction rest with
    | nil => rfl
    | cons line rest ih =>
      simp only [List.map_cons, List.sum_cons, List.length_cons, ih]
      omega
  have newline : "\n".length = 1 := rfl
  rw [Text.join_length, newline, each]
  simp only [List.map_cons, List.sum_cons, List.length_cons, Nat.add_sub_cancel]
  omega

/-- Lines behind lines, each on a line of its own. -/
theorem join_append_length {xs : List String} (nonempty : xs ≠ []) (ys : List String) :
    (Text.join "\n" (xs ++ ys)).length = (Text.join "\n" xs).length + (ys.map fun line => line.length + 1).sum := by
  obtain ⟨first, rest, rfl⟩ := List.exists_cons_of_ne_nil nonempty
  rw [List.cons_append, join_lines_length, join_lines_length, List.map_append, List.sum_append]
  omega

theorem lines_sum {xs : List String} (nonempty : xs ≠ []) :
    (xs.map fun line => line.length + 1).sum = (Text.join "\n" xs).length + 1 := by
  obtain ⟨first, rest, rfl⟩ := List.exists_cons_of_ne_nil nonempty
  rw [join_lines_length, List.map_cons, List.sum_cons]
  omega

/-- A number of at most 18 digits. -/
theorem toString_length {n : Nat} (few : n < 10 ^ 18) : (toString n).length ≤ 18 := Nat.repr_length n 18 (by decide) few

theorem join_append_suffix (xs : List String) {ys : List String} (nonempty : ys ≠ []) :
    (Text.join "\n" ys).toList <:+ (Text.join "\n" (xs ++ ys)).toList := by
  induction xs with
  | nil => exact List.suffix_refl _
  | cons x xs ih =>
    have more : xs ++ ys ≠ [] := fun empty => nonempty (List.append_eq_nil_iff.mp empty).2
    obtain ⟨next, rest, shape⟩ := List.exists_cons_of_ne_nil more
    rw [List.cons_append, shape, Text.join, String.toList_append, ← shape]
    exact ih.trans (List.suffix_append _ _)

/-! ### The room of the report -/

variable (env) (pyRepr : String → String) (now : Instant) {rows : List Entity} {violations : List String}

-- the lengths of the fixed texts are rewritten, not unfolded: the kernel would evaluate them
theorem bootstrapErrorHeader_length : (Text.join "\n" bootstrapErrorHeader).length = 239 := by
  have opens : "<saltmdb-digest>".length = 16 := String.length_ofList
  have error : "<core-bootstrap-error>".length = 22 := String.length_ofList
  have fails : "The active core-memory set fails one or more invariants and cannot be safely injected.".length = 86 :=
    String.length_ofList
  have stops : "No core content was omitted or truncated to make a partial set fit -- this is a full-stop failure.".length = 98 :=
    String.length_ofList
  have label : "Violations:".length = 11 := String.length_ofList
  have blank : "".length = 0 := String.length_ofList
  rw [bootstrapErrorHeader, join_lines_length]
  simp only [List.map_cons, List.map_nil, List.sum_cons, List.sum_nil, opens, error, fails, stops, label, blank]
  rfl

theorem bootstrapErrorFooter_length : bootstrapErrorFooterText.length = 396 := by
  have ways : "Rebalance autonomously: demote/archive/shorten/consolidate active core memories via ".length = 84 :=
    String.length_ofList
  have tools : "review_core_memory/store_memory/commit_consolidation until every invariant above holds, ".length = 88 :=
    String.length_ofList
  have retry : "then retry -- capacity management never requires a human decision. Do not guess a ".length = 82 :=
    String.length_ofList
  have fix : "partial working set; fix the violations and let the next bootstrap call re-validate the ".length = 88 :=
    String.length_ofList
  have whole : "full set.".length = 9 := String.length_ofList
  have closes : "</core-bootstrap-error>".length = 23 := String.length_ofList
  have ends : "</saltmdb-digest>".length = 17 := String.length_ofList
  have blank : "".length = 0 := String.length_ofList
  rw [bootstrapErrorFooterText, bootstrapErrorFooter, join_lines_length]
  simp only [List.map_cons, List.map_nil, List.sum_cons, List.sum_nil, String.length_append, ways, tools, retry, fix, whole, closes,
    ends, blank]
  rfl

theorem bootstrapErrorRoom_eq : bootstrapErrorRoom bootstrapErrorFooterText = 11304 := by
  rw [bootstrapErrorRoom, bootstrapErrorFooter_length, coreBootstrapErrorMaxChars, bootstrapErrorReserveChars]

theorem bootstrapErrorFooter_lines : (bootstrapErrorFooter.map fun line => line.length + 1).sum = 397 := by
  have nonempty : bootstrapErrorFooter ≠ [] := List.cons_ne_nil _ _
  have text := bootstrapErrorFooter_length
  rw [bootstrapErrorFooterText] at text
  rw [lines_sum nonempty, text]

theorem fitViolations_used (violations : List String) : (fitViolations violations).used ≤ bootstrapErrorRoom bootstrapErrorFooterText := by
  have fits := fitLines_fits (bootstrapErrorRoom bootstrapErrorFooterText) (Text.join "\n" bootstrapErrorHeader).length (violations.map violationLine)
  have header := bootstrapErrorHeader_length
  have budget := bootstrapErrorRoom_eq
  rw [fitViolations]
  generalize (Text.join "\n" bootstrapErrorHeader).length = used at fits header ⊢
  generalize bootstrapErrorRoom bootstrapErrorFooterText = room at fits budget ⊢
  omega

theorem fitViolations_counted (violations : List String) :
    (fitViolations violations).lines.length + (fitViolations violations).omitted = violations.length := by
  obtain ⟨rest, split_, omitted⟩ := fitLines_shown (bootstrapErrorRoom bootstrapErrorFooterText) (Text.join "\n" bootstrapErrorHeader).length
    (violations.map violationLine)
  have whole := congrArg List.length split_
  rw [List.length_map, List.length_append, ← omitted] at whole
  exact whole.symm

theorem fitInventory_counted (rows : List Entity) (violations : List String) :
    (fitInventory env pyRepr now rows violations).lines.length +
      (fitInventory env pyRepr now rows violations).omitted = rows.length := by
  obtain ⟨rest, split_, omitted⟩ := fitLines_shown (bootstrapErrorRoom bootstrapErrorFooterText)
    ((fitViolations violations).used +
      ((bootstrapErrorMiddle (fitViolations violations).omitted rows.length).map fun line => line.length + 1).sum)
    ((buildInventory env now rows).map (inventoryLine pyRepr))
  have whole := congrArg List.length split_
  rw [List.length_map, buildInventory, List.length_map, List.length_append, ← omitted] at whole
  exact whole.symm

theorem bootstrapErrorMiddle_length {omitted cores : Nat} (few : omitted < 10 ^ 18) (few' : cores < 10 ^ 18) :
    ((bootstrapErrorMiddle omitted cores).map fun line => line.length + 1).sum ≤ 125 := by
  have omits : "omitted_violation_count=".length = 24 := String.length_ofList
  have active : "Active core count: ".length = 19 := String.length_ofList
  have limit : " (limit: ".length = 9 := String.length_ofList
  have most : (toString coreMaxActive).length ≤ 1 := Nat.repr_length coreMaxActive 1 (by decide) (by decide)
  have closes : ")".length = 1 := String.length_ofList
  have compact : "Compact inventory (no content):".length = 31 := String.length_ofList
  have blank : "".length = 0 := String.length_ofList
  have first := toString_length few
  have second := toString_length few'
  unfold bootstrapErrorMiddle
  simp only [List.map_cons, List.map_nil, List.sum_cons, List.sum_nil, String.length_append, omits, active, limit, closes, compact,
    blank]
  generalize (toString coreMaxActive).length = digits at most ⊢
  omega

theorem fitViolations_spent (violations : List String) : (fitViolations violations).used =
    (Text.join "\n" bootstrapErrorHeader).length + ((fitViolations violations).lines.map fun line => line.length + 1).sum := by
  unfold fitViolations
  exact fitLines_used _ _ _

theorem fitInventory_spent (rows : List Entity) (violations : List String) :
    (fitInventory env pyRepr now rows violations).used = (fitViolations violations).used +
      ((bootstrapErrorMiddle (fitViolations violations).omitted rows.length).map fun line => line.length + 1).sum +
      ((fitInventory env pyRepr now rows violations).lines.map fun line => line.length + 1).sum := by
  unfold fitInventory
  exact fitLines_used _ _ _

theorem fitInventory_fits (rows : List Entity) (violations : List String) :
    (fitInventory env pyRepr now rows violations).used ≤ max ((fitViolations violations).used +
      ((bootstrapErrorMiddle (fitViolations violations).omitted rows.length).map fun line => line.length + 1).sum)
        (bootstrapErrorRoom bootstrapErrorFooterText) := by
  unfold fitInventory
  exact fitLines_fits _ _ _

/-- What the report is long: what is used, the count of the omitted cores and the footer. -/
theorem bootstrapErrorText_spent (rows : List Entity) (violations : List String) :
    (bootstrapErrorText env pyRepr now rows violations).length = (fitInventory env pyRepr now rows violations).used +
      ("omitted_core_count=" ++ toString (fitInventory env pyRepr now rows violations).omitted).length + 1 +
      (bootstrapErrorFooter.map fun line => line.length + 1).sum := by
  have header : bootstrapErrorHeader ≠ [] := List.cons_ne_nil _ _
  unfold bootstrapErrorText
  dsimp only
  rw [List.append_assoc, join_append_length header, fitInventory_spent, fitViolations_spent]
  simp only [List.map_append, List.sum_append, List.map_cons, List.map_nil, List.sum_cons, List.sum_nil]
  omega

theorem bootstrapErrorText_length (few : rows.length < 10 ^ 18) (few' : violations.length < 10 ^ 18) :
    (bootstrapErrorText env pyRepr now rows violations).length ≤ coreBootstrapErrorMaxChars := by
  have counted := fitViolations_counted violations
  have inventoried := fitInventory_counted env pyRepr now rows violations
  have middle := bootstrapErrorMiddle_length (Nat.lt_of_le_of_lt (Nat.le_of_add_left_le (Nat.le_of_eq counted)) few') few
  have last := toString_length (Nat.lt_of_le_of_lt (Nat.le_of_add_left_le (Nat.le_of_eq inventoried)) few)
  have shown := fitViolations_used violations
  have inventory := fitInventory_fits env pyRepr now rows violations
  have label : "omitted_core_count=".length = 19 := String.length_ofList
  rw [bootstrapErrorText_spent, String.length_append, label, bootstrapErrorFooter_lines, coreBootstrapErrorMaxChars]
  rw [bootstrapErrorRoom_eq] at shown inventory
  omega

theorem bootstrapErrorText_ends (rows : List Entity) (violations : List String) :
    bootstrapErrorFooterText.toList <:+ (bootstrapErrorText env pyRepr now rows violations).toList := by
  have footer : bootstrapErrorFooter ≠ [] := List.cons_ne_nil _ _
  unfold bootstrapErrorText bootstrapErrorFooterText
  dsimp only
  rw [← List.append_assoc]
  exact join_append_suffix _ footer

/-- The report fits its limit without the last resort, ends with the footer, and accounts for every violation and every core. -/
theorem renderBootstrapError_bounded (few : rows.length < 10 ^ 18) (few' : violations.length < 10 ^ 18) :
    (renderBootstrapError env pyRepr now rows violations).length ≤ coreBootstrapErrorMaxChars ∧
    bootstrapErrorFooterText.toList <:+ (renderBootstrapError env pyRepr now rows violations).toList ∧
    renderBootstrapError env pyRepr now rows violations = bootstrapErrorText env pyRepr now rows violations ∧
    (fitInventory env pyRepr now rows violations).lines.length +
      (fitInventory env pyRepr now rows violations).omitted = rows.length ∧
    (fitViolations violations).lines.length + (fitViolations violations).omitted = violations.length := by
  have fits := bootstrapErrorText_length env pyRepr now few few'
  have same : renderBootstrapError env pyRepr now rows violations = bootstrapErrorText env pyRepr now rows violations := by
    unfold renderBootstrapError
    dsimp only
    exact if_neg (Nat.not_lt.mpr fits)
  rw [same]
  exact ⟨fits, bootstrapErrorText_ends env pyRepr now rows violations, rfl, fitInventory_counted env pyRepr now rows violations,
    fitViolations_counted violations⟩

/-- A core without its fields, and what the bootstrap finds wrong with it. -/
def brokenCores : List Entity := [{ memoryRow "bare" "Bare core" "no reason given" with isCore := true }]

def brokenViolations : List String := ["bare: core_reason missing or out of bounds", "bare: core_review_after missing"]

theorem brokenCores_bounded :
    (renderBootstrapError .plain id 0 brokenCores brokenViolations).length ≤ coreBootstrapErrorMaxChars ∧
    bootstrapErrorFooterText.toList <:+ (renderBootstrapError .plain id 0 brokenCores brokenViolations).toList ∧
    renderBootstrapError .plain id 0 brokenCores brokenViolations = bootstrapErrorText .plain id 0 brokenCores brokenViolations ∧
    (fitInventory .plain id 0 brokenCores brokenViolations).lines.length +
      (fitInventory .plain id 0 brokenCores brokenViolations).omitted = brokenCores.length ∧
    (fitViolations brokenViolations).lines.length + (fitViolations brokenViolations).omitted = brokenViolations.length :=
  renderBootstrapError_bounded .plain id 0 (by decide) (by decide)

end SaltMdb
