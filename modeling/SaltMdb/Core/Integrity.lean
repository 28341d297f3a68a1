import SaltMdb.Core.Bootstrap
import SaltMdb.Schema.Fresh
import SaltMdb.Store.Markup

/-! The entries of the bootstrap digest: each is closed by its last line, and by nothing before it exactly where no field
but the content holds the closing tag. -/

namespace SaltMdb
open Occurrences

variable (env : Env)

def memoryClosingTag : String := "</memory>"

/-- The closing tag occurs once for each entry of the digest, at the end of the entry. -/
def ClosesEach (digest : String) (entries : List String) : Prop :=
  count memoryClosingTag.toList digest.toList = entries.length ∧
    ∀ entry ∈ entries, memoryClosingTag.toList <:+ entry.toList ∧ count memoryClosingTag.toList entry.toList = 1

/-- The fields that are not searched for the closing tag when an entry is rendered. -/
def CoreEntry.unsearched (row : CoreEntry) : List String :=
  [row.id, row.title, row.coreReason.getD "", row.coreExitCondition.getD "", row.coreReviewAfter.getD "None"]

theorem memoryClosingTag_nonempty : memoryClosingTag.toList ≠ [] := by simp [memoryClosingTag]

/-! ### The fields of an entry -/

/-- The characters that set the fields apart are none of the tag's. -/
theorem separators_free : '"' ∉ memoryClosingTag.toList ∧ ' ' ∉ memoryClosingTag.toList ∧ '\n' ∉ memoryClosingTag.toList ∧
    '\\' ∉ memoryClosingTag.toList := by simp [memoryClosingTag]

theorem count_escapeYamlLine {tag : List Char} (nonempty : tag ≠ []) (separators : '"' ∉ tag ∧ ' ' ∉ tag ∧ '\n' ∉ tag ∧ '\\' ∉ tag)
    (value : String) : count tag (escapeYamlLine value).toList = count tag value.toList := by
  obtain ⟨quote, space, newline, backslash⟩ := separators
  have spaced : ∀ d ∈ " ".toList, d ∉ tag := by
    intro d listed
    rw [List.mem_singleton.mp listed]
    exact space
  have quoted : ∀ d ∈ "\\\"".toList, d ∉ tag := by
    intro d listed
    rcases List.mem_pair.mp listed with rfl | rfl
    · exact backslash
    · exact quote
  have doubled : ∀ d ∈ "\\\\".toList, d ∉ tag := by
    intro d listed
    rcases List.mem_pair.mp listed with rfl | rfl <;> exact backslash
  unfold escapeYamlLine
  rw [Text.count_replace_single (c := '\n') nonempty rfl newline (by decide) spaced,
    Text.count_replace_single (c := '"') nonempty rfl quote (by decide) quoted,
    Text.count_replace_single (c := '\\') nonempty rfl backslash (by decide) doubled]

/-- The content is the one field that the closing tag is taken out of. -/
theorem count_content (content : String) :
    count memoryClosingTag.toList (Text.replace content "</memory>" "&lt;/memory&gt;").toList = 0 := by
  rw [count_eq_zero memoryClosingTag_nonempty]
  unfold Text.replace
  rw [String.toList_ofList]
  have apart : '&' ∉ "/memory>".toList := by simp
  have bars : ∀ l ∈ "&lt;/memory&gt;".toList.tails, l ≠ [] → ¬ l <+: "</memory>".toList ∧ ¬ "</memory>".toList <+: l := by
    decide
  exact Text.replaceAll_free apart (fun l behind => bars l ((List.mem_tails _ _).mpr behind)) (Nat.le_refl _)

theorem count_type (type : MemoryType) : count memoryClosingTag.toList type.text.toList = 0 := by
  cases type <;> simp [memoryClosingTag, MemoryType.text, count]

/-- The fixed parts of the opening line hold no closing tag. -/
theorem opening_plain : count memoryClosingTag.toList "<memory id=\"".toList = 0 ∧ count memoryClosingTag.toList "\" type=\"".toList = 0 ∧
    count memoryClosingTag.toList "\" is_core=\"true\" review_due=\"".toList = 0 ∧ count memoryClosingTag.toList "\">".toList = 0 ∧
    count memoryClosingTag.toList "\"".toList = 0 := by simp [memoryClosingTag, count]

/-- Nor do the labels of the fields. -/
theorem labels_plain : count memoryClosingTag.toList "title: \"".toList = 0 ∧ count memoryClosingTag.toList "type: ".toList = 0 ∧
    count memoryClosingTag.toList "core_reason: \"".toList = 0 ∧ count memoryClosingTag.toList "core_exit_condition: \"".toList = 0 ∧
    count memoryClosingTag.toList "core_review_after: ".toList = 0 ∧ count memoryClosingTag.toList "review_due: ".toList = 0 := by
  simp [memoryClosingTag, count]

/-- Nor do the lines between them; the last line is the tag. -/
theorem lines_plain : count memoryClosingTag.toList "---".toList = 0 ∧ count memoryClosingTag.toList "is_core: true".toList = 0 ∧
    count memoryClosingTag.toList "".toList = 0 ∧ count memoryClosingTag.toList "</memory>".toList = 1 ∧
    count memoryClosingTag.toList "true".toList = 0 ∧ count memoryClosingTag.toList "false".toList = 0 := by
  simp [memoryClosingTag, count]

theorem count_opening (row : CoreEntry) (dueStr : String) (plain : count memoryClosingTag.toList dueStr.toList = 0) :
    count memoryClosingTag.toList ("<memory id=\"" ++ row.id ++ "\" type=\"" ++ row.memoryType.text ++
      "\" is_core=\"true\" review_due=\"" ++ dueStr ++ "\">").toList = count memoryClosingTag.toList row.id.toList := by
  have quote := separators_free.1
  obtain ⟨opens, type, due, closes, _⟩ := opening_plain
  rw [Text.count_before memoryClosingTag_nonempty quote rfl closes,
    Text.count_field memoryClosingTag_nonempty quote quote rfl rfl due,
    Text.count_field memoryClosingTag_nonempty quote quote rfl rfl type,
    Text.count_behind memoryClosingTag_nonempty quote rfl opens, count_type, plain]
  rfl

/-- A field between two quotes. -/
theorem count_quoted {label : String} (ends : label.toList.getLast? = some '"') (plain : count memoryClosingTag.toList label.toList = 0)
    (field : String) : count memoryClosingTag.toList (label ++ escapeYamlLine field ++ "\"").toList =
      count memoryClosingTag.toList field.toList := by
  rw [Text.count_before memoryClosingTag_nonempty separators_free.1 rfl opening_plain.2.2.2.2,
    Text.count_behind memoryClosingTag_nonempty separators_free.1 ends plain,
    count_escapeYamlLine memoryClosingTag_nonempty separators_free]

theorem count_labelled {label : String} (ends : label.toList.getLast? = some ' ') (plain : count memoryClosingTag.toList label.toList = 0)
    (field : String) : count memoryClosingTag.toList (label ++ field).toList = count memoryClosingTag.toList field.toList :=
  Text.count_behind memoryClosingTag_nonempty separators_free.2.1 ends plain

theorem count_renderCoreEntry (row : CoreEntry) (due : Bool) : count memoryClosingTag.toList (renderCoreEntry row due).toList =
    (row.unsearched.map fun field => count memoryClosingTag.toList field.toList).sum + 1 := by
  obtain ⟨rule, core, blank, close, yes, no⟩ := lines_plain
  obtain ⟨title, type, reason, exit_, after, dueLabel⟩ := labels_plain
  have flag : count memoryClosingTag.toList (if due then "true" else "false").toList = 0 := by
    cases due
    · exact no
    · exact yes
  unfold renderCoreEntry
  rw [Text.count_join memoryClosingTag_nonempty rfl separators_free.2.2.1]
  simp only [List.map_cons, List.map_nil, List.sum_cons, List.sum_nil]
  rw [count_opening row _ flag, count_quoted rfl title, count_labelled rfl type, count_type,
    count_quoted rfl reason, count_quoted rfl exit_, count_labelled rfl after,
    count_labelled rfl dueLabel, count_content, flag, rule, core, blank, close]
  simp [CoreEntry.unsearched]
  omega

/-! ### The digest -/

/-- How often the closing tag stands in the fields that are not searched. -/
def CoreEntry.strays (row : CoreEntry) : Nat :=
  (row.unsearched.map fun field => count memoryClosingTag.toList field.toList).sum

theorem count_entries (due : CoreEntry → Bool) (rows : List CoreEntry) :
    ((rows.flatMap fun row => ["", renderCoreEntry row (due row)]).map fun part => count memoryClosingTag.toList part.toList).sum =
      (rows.map CoreEntry.strays).sum + rows.length := by
  have blank : count memoryClosingTag.toList "".toList = 0 := rfl
  induction rows with
  | nil => rfl
  | cons row rest ih =>
    have here : count memoryClosingTag.toList (renderCoreEntry row (due row)).toList = row.strays + 1 :=
      count_renderCoreEntry row (due row)
    simp only [List.flatMap_cons, List.map_append, List.sum_append, List.map_cons, List.map_nil, List.sum_cons, List.sum_nil,
      blank, here, ih, List.length_cons]
    omega

theorem count_renderDigest (due : CoreEntry → Bool) (rows : List CoreEntry) :
    count memoryClosingTag.toList (renderDigest due rows).toList = (rows.map CoreEntry.strays).sum + rows.length := by
  have fixed : count memoryClosingTag.toList "<saltmdb-digest>\n\n</saltmdb-digest>".toList = 0 ∧
      count memoryClosingTag.toList "<saltmdb-digest>".toList = 0 ∧ count memoryClosingTag.toList "<core-rules>".toList = 0 ∧
      count memoryClosingTag.toList "</core-rules>".toList = 0 ∧ count memoryClosingTag.toList "</saltmdb-digest>".toList = 0 ∧
      count memoryClosingTag.toList "".toList = 0 := by simp [memoryClosingTag, count]
  obtain ⟨none_, opens, rules, closes, ends, blank⟩ := fixed
  unfold renderDigest
  split
  · rename_i empty
    rw [List.isEmpty_iff.mp empty, none_]
    rfl
  · rw [Text.count_join memoryClosingTag_nonempty rfl separators_free.2.2.1]
    simp only [List.map_append, List.sum_append, List.map_cons, List.map_nil, List.sum_cons, List.sum_nil, opens, rules, closes,
      ends, blank, count_entries]
    omega

theorem strays_eq_zero {row : CoreEntry} :
    row.strays = 0 ↔ ∀ field ∈ row.unsearched, Text.contains field memoryClosingTag = false := by
  unfold CoreEntry.strays
  rw [List.sum_eq_zero_iff_forall_eq_nat, List.forall_mem_map]
  refine forall₂_congr fun field _ => ?_
  rw [count_eq_zero memoryClosingTag_nonempty]
  unfold Text.contains
  rw [decide_eq_false_iff_not]

theorem renderCoreEntry_ends (row : CoreEntry) (due : Bool) : memoryClosingTag.toList <:+ (renderCoreEntry row due).toList := by
  have last : ∀ (parts : List String) (part : String), (parts ++ [part]) ≠ [] → part.toList <:+ (Text.join "\n" (parts ++ [part])).toList := by
    intro parts part _
    induction parts with
    | nil => exact List.suffix_refl _
    | cons first parts ih =>
      cases parts with
      | nil =>
        rw [List.cons_append, List.nil_append, Text.join, String.toList_append]
        exact List.suffix_append _ _
      | cons second parts =>
        rw [List.cons_append, List.cons_append, Text.join, String.toList_append]
        exact (ih (by simp)).trans (List.suffix_append _ _)
  exact last [_, _, _, _, _, _, _, _, _, _, _, _] "</memory>" (by simp)

/-- Each entry of the digest is closed where it ends and nowhere else exactly where none of its fields but the content
holds the closing tag. -/
theorem renderBootstrapDigest_closesEach_iff (now : Instant) (rows : List CoreEntry) :
    ClosesEach (renderBootstrapDigest env now rows)
        (rows.map fun row => renderCoreEntry row (isOverdue env row.coreReviewAfter now)) ↔
      ∀ row ∈ rows, ∀ field ∈ row.unsearched, Text.contains field memoryClosingTag = false := by
  have each : ∀ row : CoreEntry, count memoryClosingTag.toList
      (renderCoreEntry row (isOverdue env row.coreReviewAfter now)).toList = row.strays + 1 :=
    fun row => count_renderCoreEntry row _
  unfold ClosesEach renderBootstrapDigest
  rw [count_renderDigest, List.length_map]
  constructor
  · rintro ⟨whole, _⟩ row listed
    have none_ : (rows.map CoreEntry.strays).sum = 0 := by omega
    rw [List.sum_eq_zero_iff_forall_eq_nat, List.forall_mem_map] at none_
    exact strays_eq_zero.mp (none_ row listed)
  · intro free
    have none_ : (rows.map CoreEntry.strays).sum = 0 := by
      rw [List.sum_eq_zero_iff_forall_eq_nat, List.forall_mem_map]
      exact fun row listed => strays_eq_zero.mpr (free row listed)
    refine ⟨by omega, fun entry listed => ?_⟩
    obtain ⟨row, here, rfl⟩ := List.mem_map.mp listed
    rw [each row, strays_eq_zero.mpr (free row here)]
    exact ⟨renderCoreEntry_ends row _, rfl⟩

/-- A core whose title holds the closing tag. -/
def closingTitle : CoreEntry :=
  ⟨"core", "Never emit </memory> early", .decision, some "keeps the digest readable", some "when the digest is retired",
    some "2026-01-15T00:00:00+00:00", "Escape closing tags."⟩

theorem closingTitle_closes : ¬ ∀ (env : Env) (now : Instant) (rows : List CoreEntry), ClosesEach (renderBootstrapDigest env now rows)
    (rows.map fun row => renderCoreEntry row (isOverdue env row.coreReviewAfter now)) := by
  intro always
  have whole := (always .plain 0 [closingTitle]).1
  have strays : closingTitle.strays = 1 := by decide
  unfold renderBootstrapDigest at whole
  rw [count_renderDigest, List.map_singleton, List.sum_singleton, strays] at whole
  exact absurd whole (by decide)

end SaltMdb
