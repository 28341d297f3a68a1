import SaltMdb.Library.Keywords
import SaltMdb.Store.Lines
import SaltMdb.Store.Redaction

/-! `auto_format_markdown`: labels for the code blocks that have none, and whitespace that is evened out, once and for all. -/

namespace SaltMdb
open Text Keywords

variable (env : Env)

def codeFence : Line := "```".toList

/-- `line.strip().startswith("```")`. -/
def isFence (line : Line) : Bool := codeFence.isPrefixOf (stripEnds isSpace line)

def fenceLabel (line : Line) : Line := stripEnds isSpace ((stripEnds isSpace line).drop 3)

def pythonWords : List Line := ["def".toList, "import".toList, "from".toList, "class".toList, "elif".toList, "self".toList, "print".toList]

def sqlWords : List Line :=
  ["SELECT".toList, "INSERT".toList, "UPDATE".toList, "DELETE".toList, "CREATE TABLE".toList, "FROM".toList, "WHERE".toList]

def scriptWords : List Line :=
  ["function".toList, "const".toList, "let".toList, "var".toList, "console.log".toList, "export".toList, "import".toList]

/-- `re.search(r"^\s*[\{\[]", …)`. -/
def opensObject (code : List Char) : Bool := (code.dropWhile isSpace).head?.any fun c => c == '{' || c == '['

/-- The heuristics for a block without a label; where none applies it stays without one. -/
def codeLanguage (code : List Char) : Line :=
  if search (wordChar env) (· == ·) pythonWords none code then "python".toList
  else if search (wordChar env) (fun c l => letter l c) sqlWords none code then "sql".toList
  else if opensObject code && (code.contains '"' || code.contains ':') then "json".toList
  else if search (wordChar env) (· == ·) scriptWords none code then "javascript".toList
  else []

def closedLabel (fenceLang : Line) (codeLines : List Line) : Line :=
  if fenceLang = [] then codeLanguage env (unlines codeLines) else fenceLang

def formatClosedCodeBlock (fenceLang : Line) (codeLines : List Line) : List Line :=
  (codeFence ++ closedLabel env fenceLang codeLines) :: codeLines ++ [codeFence]

def formatUnclosedCodeBlock (fenceLang : Line) (codeLines : List Line) : List Line := (codeFence ++ fenceLang) :: codeLines

/-- The block that is open, with its label and its lines so far, and the lines that are done. -/
structure FormatState where
  block : Option (Line × List Line)
  formatted : List Line

def processMarkdownLine (s : FormatState) (line : Line) : FormatState :=
  match s.block with
  | none => if isFence line then ⟨some (fenceLabel line, []), s.formatted⟩ else ⟨none, s.formatted ++ [line]⟩
  | some (lang, code) =>
    if isFence line then ⟨none, s.formatted ++ formatClosedCodeBlock env lang code⟩ else ⟨some (lang, code ++ [line]), s.formatted⟩

/-- The lines of the block that is open. -/
def FormatState.pending (s : FormatState) : List Line :=
  match s.block with
  | none => []
  | some (lang, code) => formatUnclosedCodeBlock lang code

def formatLines (lines : List Line) : List Line :=
  let s := lines.foldl (processMarkdownLine env) ⟨none, []⟩
  s.formatted ++ s.pending

/-- The lines that are formatted, their ends stripped. -/
def inputLines (text : String) : List Line := (linesFrom [] (replace text "\r\n" "\n").toList).map rstripLine

def autoFormatMarkdown (text : String) : String :=
  if text = "" then ""
  else .ofList (stripEnds isSpace (collapseNewlines 0 (unlines (formatLines env (inputLines text)))))

/-! ### Labels -/

variable {env} {line lang : Line} {code fewer lines : List Line}

/-- A label as it is read off a fence. -/
structure Label (lang : Line) : Prop where
  stripped : stripEnds isSpace lang = lang
  plain : Plain lang

theorem Label.rstrip (label : Label lang) : lang.rdropWhile isSpace = lang := by
  conv_lhs => rw [← label.stripped, stripEnds_eq, List.rdropWhile_idempotent]
  rw [← stripEnds_eq, label.stripped]

theorem Label.fence_trimmed (label : Label lang) : (codeFence ++ lang).rdropWhile isSpace = codeFence ++ lang := by
  rw [rdropWhile_append, label.rstrip]
  split
  · rename_i empty
    rw [empty]
    rfl
  · rfl

theorem Label.fence_stripped (label : Label lang) : stripEnds isSpace (codeFence ++ lang) = codeFence ++ lang := by
  have front : (codeFence ++ lang).dropWhile isSpace = codeFence ++ lang := rfl
  rw [stripEnds_eq, front, label.fence_trimmed]

theorem Label.isFence (label : Label lang) : isFence (codeFence ++ lang) = true := by
  unfold SaltMdb.isFence
  rw [label.fence_stripped]
  exact List.isPrefixOf_iff_prefix.mpr (List.prefix_append _ _)

theorem Label.fenceLabel (label : Label lang) : fenceLabel (codeFence ++ lang) = lang := by
  unfold SaltMdb.fenceLabel
  rw [label.fence_stripped]
  exact label.stripped

theorem codeFence_plain : Plain codeFence := plain_of_all (by decide)

theorem Label.fence_plain (label : Label lang) : Plain (codeFence ++ lang) := by
  intro c member
  exact (List.mem_append.mp member).elim (codeFence_plain c) (label.plain c)

theorem stripEnds_subset (cs : List Char) : stripEnds isSpace cs ⊆ cs := by
  rw [stripEnds_eq]
  exact fun c member => (List.dropWhile_suffix isSpace).subset ((List.rdropWhile_prefix isSpace _).subset member)

theorem fenceLabel_label (plain : Plain line) : Label (fenceLabel line) where
  stripped := stripEnds_stripEnds isSpace _
  plain := fun c member => plain c (stripEnds_subset line (List.mem_of_mem_drop (stripEnds_subset _ member)))

theorem codeLanguage_label (text : List Char) : Label (codeLanguage env text) := by
  have plain : ∀ name ∈ ["python".toList, "sql".toList, "json".toList, "javascript".toList, []], Label name := by
    intro name listed
    simp only [List.mem_cons, List.not_mem_nil, or_false] at listed
    rcases listed with rfl | rfl | rfl | rfl | rfl
    all_goals exact ⟨rfl, plain_of_all (by decide)⟩
  unfold codeLanguage
  repeat' split
  all_goals exact plain _ (by simp)

theorem closedLabel_label (label : Label lang) (code : List Line) : Label (closedLabel env lang code) := by
  unfold closedLabel
  split
  · exact codeLanguage_label _
  · exact label

theorem closedLabel_again (code : List Line) : closedLabel env (closedLabel env lang code) code = closedLabel env lang code := by
  unfold closedLabel
  split
  · split
    · rfl
    · rfl
  · rfl

/-! ### Blank lines and the heuristics -/

theorem wordChar_newline : wordChar env '\n' = false := rfl

/-- The words are searched for line by line. -/
theorem search_unlines {same : Char → Char → Bool} {words : List Line} (free : ∀ word ∈ words, ∀ x ∈ word, same '\n' x = false)
    (code : List Line) : search (wordChar env) same words none (unlines code) = code.any (search (wordChar env) same words none) := by
  induction code with
  | nil => rfl
  | cons line rest ih =>
    cases rest with
    | nil => rw [List.any_cons, List.any_nil, Bool.or_false, unlines]
    | cons next more =>
      rw [unlines, search_line wordChar_newline free, ih]
      rfl

theorem find_unlines {test : Char → Bool} (newline : test '\n' = false) (code : List Line) :
    (unlines code).find? test = code.flatten.find? test := by
  induction code with
  | nil => rfl
  | cons line rest ih =>
    cases rest with
    | nil => rw [unlines, List.flatten_cons, List.flatten_nil, List.append_nil]
    | cons next more =>
      have skips : ¬ test '\n' = true := Bool.eq_false_iff.mp newline
      have whole : (line :: next :: more).flatten = line ++ (next :: more).flatten := rfl
      rw [unlines, List.find?_append, List.find?_cons_of_neg skips, ih, whole, List.find?_append]

theorem head_dropWhile (cs : List Char) : (cs.dropWhile isSpace).head? = cs.find? fun c => !isSpace c := by
  induction cs with
  | nil => rfl
  | cons c cs ih =>
    rw [List.dropWhile_cons, List.find?_cons]
    cases isSpace c
    · rfl
    · exact ih

theorem free_of_newline (words : List Line) (same : Char → Char → Bool)
    (clear : (words.all fun word => word.all fun x => !same '\n' x) = true) : ∀ word ∈ words, ∀ x ∈ word, same '\n' x = false := by
  simp only [List.all_eq_true, Bool.not_eq_eq_eq_not, Bool.not_true] at clear
  exact clear

/-- Blank lines tell nothing about the language. -/
theorem codeLanguage_thinned (thin : Thinned code fewer) : codeLanguage env (unlines fewer) = codeLanguage env (unlines code) := by
  have words : ∀ (same : Char → Char → Bool) (words : List Line), (words.all fun word => word.all fun x => !same '\n' x) = true →
      search (wordChar env) same words none (unlines fewer) = search (wordChar env) same words none (unlines code) := by
    intro same words clear
    have free := free_of_newline words same clear
    rw [search_unlines free, search_unlines free, thin.any search_nil]
  have python := words (· == ·) pythonWords (by decide)
  have sql := words (fun c l => letter l c) sqlWords (by decide)
  have script := words (· == ·) scriptWords (by decide)
  have object : opensObject (unlines fewer) = opensObject (unlines code) := by
    unfold opensObject
    rw [head_dropWhile, head_dropWhile, find_unlines (by decide), find_unlines (by decide), thin.flatten]
  have holds : ∀ d : Char, (d == '\n') = false → (unlines fewer).contains d = (unlines code).contains d := by
    intro d other
    have found : ∀ cs : List Char, cs.contains d = (cs.find? (d == ·)).isSome := by
      intro cs
      rw [List.contains_eq_any_beq, List.isSome_find?]
    rw [found, found, find_unlines other, find_unlines other, thin.flatten]
  unfold codeLanguage
  rw [python, sql, script, object, holds '"' rfl, holds ':' rfl]

/-! ### Formatted lines -/

variable (env)

/-- The lines are as the formatter leaves them, behind a block that is open or outside of any. -/
def Formatted : Option (Line × List Line) → List Line → Prop
  | _, [] => True
  | none, line :: rest =>
    if isFence line then line = codeFence ++ fenceLabel line ∧ Label (fenceLabel line) ∧ Formatted (some (fenceLabel line, [])) rest
    else Formatted none rest
  | some (lang, code), line :: rest =>
    if isFence line then line = codeFence ∧ closedLabel env lang code = lang ∧ Formatted none rest
    else Formatted (some (lang, code ++ [line])) rest

variable {env}

/-- The lines of a block. -/
theorem formatted_code {rest : List Line} (text : ∀ l ∈ lines, isFence l = false) :
    Formatted env (some (lang, code)) (lines ++ rest) ↔ Formatted env (some (lang, code ++ lines)) rest := by
  induction lines generalizing code with
  | nil => rw [List.nil_append, List.append_nil]
  | cons line lines ih =>
    rw [List.cons_append, Formatted, if_neg (Bool.eq_false_iff.mp (text line List.mem_cons_self)),
      ih fun l member => text l (List.mem_cons_of_mem line member), List.append_assoc, List.singleton_append]

theorem codeFence_fence : isFence codeFence = true := by decide

/-- A closed block, formatted, and what follows. -/
theorem formatted_closed {rest : List Line} (label : Label lang) (text : ∀ l ∈ code, isFence l = false) (onward : Formatted env none rest) :
    Formatted env none (formatClosedCodeBlock env lang code ++ rest) := by
  have closed := @closedLabel_label env lang label code
  unfold formatClosedCodeBlock
  rw [List.cons_append, List.cons_append, List.append_assoc, Formatted, if_pos closed.isFence, closed.fenceLabel, formatted_code text,
    List.singleton_append, Formatted, if_pos codeFence_fence, List.nil_append]
  exact ⟨rfl, closed, rfl, closedLabel_again code, onward⟩

/-- What is left out of a formatted text as a blank line leaves it formatted. -/
theorem Formatted.thinned {block : Option (Line × List Line)} (formatted : Formatted env block lines) (thin : Thinned lines fewer) :
    ∀ block', (block = none ∧ block' = none ∨ ∃ lang code code', block = some (lang, code) ∧ block' = some (lang, code') ∧ Thinned code code') →
      Formatted env block' fewer := by
  induction thin generalizing block with
  | nil =>
    intro block' _
    cases block' <;> trivial
  | keep line thin ih =>
    rintro block' (⟨rfl, rfl⟩ | ⟨lang, code, code', rfl, rfl, coded⟩)
    · rw [Formatted] at formatted ⊢
      split
      · rename_i fence
        rw [if_pos fence] at formatted
        exact ⟨formatted.1, formatted.2.1, ih formatted.2.2 _ (.inr ⟨_, [], [], rfl, rfl, .nil⟩)⟩
      · rename_i text
        rw [if_neg text] at formatted
        exact ih formatted _ (.inl ⟨rfl, rfl⟩)
    · rw [Formatted] at formatted ⊢
      split
      · rename_i fence
        rw [if_pos fence] at formatted
        have label : closedLabel env lang code' = lang := by
          have before := formatted.2.1
          unfold closedLabel at before ⊢
          rwa [codeLanguage_thinned coded]
        exact ⟨formatted.1, label, ih formatted.2.2 _ (.inl ⟨rfl, rfl⟩)⟩
      · rename_i text
        rw [if_neg text] at formatted
        exact ih formatted _ (.inr ⟨lang, _, _, rfl, rfl, coded.append (.refl [line])⟩)
  | skip thin ih =>
    have blank : ¬ isFence [] = true := by decide
    rintro block' (⟨rfl, rfl⟩ | ⟨lang, code, code', rfl, rfl, coded⟩)
    · rw [Formatted, if_neg blank] at formatted
      exact ih formatted _ (.inl ⟨rfl, rfl⟩)
    · rw [Formatted, if_neg blank] at formatted
      have shorter : Thinned (code ++ [[]]) code' := by
        have both := coded.append (.skip .nil)
        rwa [List.append_nil] at both
      exact ih formatted _ (.inr ⟨lang, _, _, rfl, rfl, shorter⟩)

theorem isFence_lstrip (line : Line) : isFence (line.dropWhile isSpace) = isFence line := by
  unfold isFence
  rw [strip_lstrip]

theorem Formatted.lstripHead (formatted : Formatted env none lines) : Formatted env none (lstripHead lines) := by
  cases lines with
  | nil => trivial
  | cons line rest =>
    rw [Text.lstripHead]
    by_cases fence : isFence line = true
    · rw [Formatted, if_pos fence] at formatted
      have front : line.dropWhile isSpace = line := by
        rw [formatted.1]
        rfl
      rw [front, Formatted, if_pos fence]
      exact formatted
    · rw [Formatted, if_neg fence] at formatted
      rw [Formatted, isFence_lstrip, if_neg fence]
      exact formatted

/-- Tidied, formatted lines are formatted still. -/
theorem formatted_tidied (formatted : Formatted env none lines) (thin : Thinned lines fewer) : Formatted env none (lstripHead fewer) :=
  (formatted.thinned thin none (.inl ⟨rfl, rfl⟩)).lstripHead

/-! ### What the formatter leaves -/

/-- Formatted lines stay as they are. -/
theorem foldl_formatted {s : FormatState} (formatted : Formatted env s.block lines) :
    (lines.foldl (processMarkdownLine env) s).formatted ++ (lines.foldl (processMarkdownLine env) s).pending =
      s.formatted ++ s.pending ++ lines := by
  induction lines generalizing s with
  | nil => rw [List.append_nil]; rfl
  | cons line rest ih =>
    obtain ⟨block, out⟩ := s
    rw [List.foldl_cons]
    cases block with
    | none =>
      rw [Formatted] at formatted
      by_cases fence : isFence line = true
      · rw [if_pos fence] at formatted
        rw [show processMarkdownLine env ⟨none, out⟩ line = ⟨some (fenceLabel line, []), out⟩ from if_pos fence, ih formatted.2.2]
        simp only [FormatState.pending, formatUnclosedCodeBlock, ← formatted.1, List.append_nil, List.append_assoc, List.singleton_append]
      · rw [if_neg fence] at formatted
        rw [show processMarkdownLine env ⟨none, out⟩ line = ⟨none, out ++ [line]⟩ from if_neg fence, ih formatted]
        simp only [FormatState.pending, List.append_nil, List.append_assoc, List.singleton_append]
    | some block =>
      obtain ⟨lang, code⟩ := block
      rw [Formatted] at formatted
      by_cases fence : isFence line = true
      · rw [if_pos fence] at formatted
        rw [show processMarkdownLine env ⟨some (lang, code), out⟩ line = ⟨none, out ++ formatClosedCodeBlock env lang code⟩ from if_pos fence,
          ih formatted.2.2]
        simp only [FormatState.pending, formatClosedCodeBlock, formatUnclosedCodeBlock, formatted.2.1, formatted.1, List.append_nil,
          List.append_assoc, List.cons_append, List.nil_append]
      · rw [if_neg fence] at formatted
        rw [show processMarkdownLine env ⟨some (lang, code), out⟩ line = ⟨some (lang, code ++ [line]), out⟩ from if_neg fence, ih formatted]
        simp only [FormatState.pending, formatUnclosedCodeBlock, List.append_assoc, List.cons_append, List.nil_append]

theorem formatLines_formatted (formatted : Formatted env none lines) : formatLines env lines = lines :=
  foldl_formatted (s := ⟨none, []⟩) formatted

/-- A line and the one it is formatted to: a fence for a fence, and else the line itself. -/
def Carried (before after : Line) : Prop := isFence before = isFence after ∧ (isFence before = false → after = before)

/-- What holds of the lines read so far. -/
structure FormatState.Sound (env : Env) (read : List Line) (s : FormatState) : Prop where
  onward : ∀ rest, Formatted env none rest → Formatted env none (s.formatted ++ rest)
  block : ∀ lang code, s.block = some (lang, code) → Label lang ∧ ∀ l ∈ code, isFence l = false
  whole : ∀ l ∈ s.formatted ++ s.pending, Plain l ∧ rstripLine l = l
  carried : List.Forall₂ Carried read (s.formatted ++ s.pending)

theorem carried_fence (label : Label lang) (fence : isFence line = true) : Carried line (codeFence ++ lang) :=
  ⟨fence.trans label.isFence.symm, fun text => absurd fence (Bool.eq_false_iff.mp text)⟩

/-- Where a block is closed, its opening fence may get a label. -/
theorem carried_closed {read out : List Line} (label : Label lang) (closed : Label (closedLabel env lang code))
    (carried : List.Forall₂ Carried read (out ++ (codeFence ++ lang) :: code)) (fence : isFence line = true) :
    List.Forall₂ Carried (read ++ [line]) (out ++ formatClosedCodeBlock env lang code) := by
  have before := List.forall₂_take_append read _ _ carried
  have behind := List.forall₂_drop_append read _ _ carried
  rw [← List.take_append_drop out.length read, List.append_assoc]
  refine List.rel_append before ?_
  generalize read.drop out.length = opened at behind
  cases behind with
  | cons opening inside =>
    have same : isFence _ = true := opening.1.trans label.isFence
    exact .cons (carried_fence closed same) (List.rel_append inside (.cons ⟨fence.trans codeFence_fence.symm, fun text =>
      absurd fence (Bool.eq_false_iff.mp text)⟩ .nil))

theorem sound_start : FormatState.Sound env [] ⟨none, []⟩ where
  onward := fun _ formatted => formatted
  block := nofun
  whole := nofun
  carried := .nil

theorem FormatState.Sound.step {read : List Line} {s : FormatState} (sound : s.Sound env read) (plain : Plain line) (trimmed : rstripLine line = line) :
    (processMarkdownLine env s line).Sound env (read ++ [line]) := by
  obtain ⟨onward, block, whole, carried⟩ := sound
  obtain ⟨opened, out⟩ := s
  have same : isFence line = false → Carried line line := fun _ => ⟨rfl, fun _ => rfl⟩
  cases opened with
  | none =>
    simp only [pending, List.append_nil] at onward whole carried
    by_cases fence : isFence line = true
    · have label := fenceLabel_label plain
      rw [show processMarkdownLine env ⟨none, out⟩ line = ⟨some (fenceLabel line, []), out⟩ from if_pos fence]
      refine ⟨onward, fun lang code here => ?_, fun l member => ?_, ?_⟩
      · obtain ⟨rfl, rfl⟩ := Prod.mk.inj (Option.some.inj here)
        exact ⟨label, nofun⟩
      · rcases List.mem_append.mp member with before | opening
        · exact whole l before
        · rw [List.mem_singleton.mp opening]
          exact ⟨label.fence_plain, label.fence_trimmed⟩
      · exact List.rel_append carried (.cons (carried_fence label fence) .nil)
    · have text := Bool.eq_false_iff.mpr fence
      rw [show processMarkdownLine env ⟨none, out⟩ line = ⟨none, out ++ [line]⟩ from if_neg fence]
      refine ⟨fun rest formatted => ?_, nofun, fun l member => ?_, ?_⟩
      · rw [List.append_assoc, List.singleton_append]
        refine onward _ ?_
        rw [Formatted, if_neg fence]
        exact formatted
      · simp only [pending, List.append_nil] at member
        rcases List.mem_append.mp member with before | here
        · exact whole l before
        · rw [List.mem_singleton.mp here]
          exact ⟨plain, trimmed⟩
      · simp only [pending, List.append_nil]
        exact List.rel_append carried (.cons (same text) .nil)
  | some opened =>
    obtain ⟨lang, code⟩ := opened
    obtain ⟨label, text⟩ := block lang code rfl
    simp only [pending, formatUnclosedCodeBlock] at onward whole carried
    by_cases fence : isFence line = true
    · have closed := @closedLabel_label env lang label code
      rw [show processMarkdownLine env ⟨some (lang, code), out⟩ line = ⟨none, out ++ formatClosedCodeBlock env lang code⟩ from if_pos fence]
      refine ⟨fun rest formatted => ?_, nofun, fun l member => ?_, ?_⟩
      · rw [List.append_assoc]
        exact onward _ (formatted_closed label text formatted)
      · simp only [pending, List.append_nil, formatClosedCodeBlock] at member
        rcases List.mem_append.mp member with before | here
        · exact whole l (List.mem_append_left _ before)
        · rcases List.mem_append.mp here with opening | closing
          · rcases List.mem_cons.mp opening with rfl | inside
            · exact ⟨closed.fence_plain, closed.fence_trimmed⟩
            · exact whole l (List.mem_append_right _ (List.mem_cons_of_mem _ inside))
          · rw [List.mem_singleton.mp closing]
            exact ⟨codeFence_plain, rfl⟩
      · simp only [pending, List.append_nil]
        exact carried_closed label closed carried fence
    · have plainText := Bool.eq_false_iff.mpr fence
      rw [show processMarkdownLine env ⟨some (lang, code), out⟩ line = ⟨some (lang, code ++ [line]), out⟩ from if_neg fence]
      refine ⟨onward, fun lang' code' here => ?_, fun l member => ?_, ?_⟩
      · obtain ⟨rfl, rfl⟩ := Prod.mk.inj (Option.some.inj here)
        refine ⟨label, fun l member => ?_⟩
        rcases List.mem_append.mp member with before | last
        · exact text l before
        · rw [List.mem_singleton.mp last]
          exact plainText
      · simp only [pending, formatUnclosedCodeBlock] at member
        rw [← List.cons_append, ← List.append_assoc] at member
        rcases List.mem_append.mp member with before | last
        · exact whole l before
        · rw [List.mem_singleton.mp last]
          exact ⟨plain, trimmed⟩
      · simp only [pending, formatUnclosedCodeBlock]
        rw [← List.cons_append, ← List.append_assoc]
        exact List.rel_append carried (.cons (same plainText) .nil)

theorem FormatState.Sound.run {read : List Line} {s : FormatState} (sound : s.Sound env read)
    (whole : ∀ l ∈ lines, Plain l ∧ rstripLine l = l) : (lines.foldl (processMarkdownLine env) s).Sound env (read ++ lines) := by
  induction lines generalizing read s with
  | nil =>
    rw [List.append_nil]
    exact sound
  | cons line rest ih =>
    obtain ⟨plain, trimmed⟩ := whole line List.mem_cons_self
    have later := ih (sound.step plain trimmed) fun l member => whole l (List.mem_cons_of_mem line member)
    rwa [List.append_assoc, List.singleton_append] at later

theorem formatLines_sound (whole : ∀ l ∈ lines, Plain l ∧ rstripLine l = l) : Formatted env none (formatLines env lines) ∧
    (∀ l ∈ formatLines env lines, Plain l ∧ rstripLine l = l) ∧ List.Forall₂ Carried lines (formatLines env lines) := by
  have sound := (@sound_start env).run whole
  rw [List.nil_append] at sound
  refine ⟨?_, sound.whole, sound.carried⟩
  unfold formatLines
  dsimp only
  refine sound.onward _ ?_
  cases opened : (lines.foldl (processMarkdownLine env) ⟨none, []⟩).block with
  | none =>
    rw [FormatState.pending, opened]
    trivial
  | some block =>
    obtain ⟨label, text⟩ := sound.block block.1 block.2 opened
    have coded := @formatted_code env block.1 [] block.2 [] text
    rw [List.append_nil] at coded
    rw [FormatState.pending, opened]
    show Formatted env none ((codeFence ++ block.1) :: block.2)
    rw [Formatted, if_pos label.isFence, label.fenceLabel]
    exact ⟨rfl, label, coded.mpr trivial⟩

/-! ### The text -/

theorem inputLines_whole (text : String) : ∀ l ∈ inputLines text, Plain l ∧ rstripLine l = l := by
  intro l member
  obtain ⟨line, listed, rfl⟩ := List.mem_map.mp member
  have empty : Plain [] := nofun
  have plain : Plain line := linesFrom_plain empty _ line listed
  exact ⟨fun c here => plain c ((List.rdropWhile_prefix isSpace line).subset here), List.rdropWhile_idempotent isSpace line⟩

/-- The lines of the text that the formatter returns: those that were formatted, tidied. -/
theorem autoFormatMarkdown_lines (text : String) : ∃ thinned, (autoFormatMarkdown env text).toList = unlines (lstripHead thinned) ∧
    Thinned (formatLines env (inputLines text)) thinned ∧ (∀ l ∈ thinned.head?, l ≠ []) ∧
      ∀ l ∈ (lstripHead thinned).getLast?, l ≠ [] := by
  unfold autoFormatMarkdown
  split
  · rename_i empty
    rw [empty]
    exact ⟨[], rfl, .nil, nofun, nofun⟩
  · obtain ⟨_, whole, _⟩ := @formatLines_sound env _ (inputLines_whole text)
    rw [String.toList_ofList]
    exact tidied_unlines (fun l member => (whole l member).1.no_newline) fun l member => (whole l member).2

theorem autoFormatMarkdown_tidy (text : String) : Sparse 0 (autoFormatMarkdown env text).toList ∧
    stripEnds isSpace (autoFormatMarkdown env text).toList = (autoFormatMarkdown env text).toList := by
  unfold autoFormatMarkdown
  split
  · rw [String.toList_empty]
    exact ⟨trivial, rfl⟩
  · rw [String.toList_ofList]
    generalize unlines (formatLines env (inputLines text)) = joined
    have sparse := sparse_collapse 0 joined
    exact ⟨sparse.stripped, stripEnds_stripEnds isSpace _⟩

/-- The lines that the formatter returns are read back as they are, and formatted already. -/
theorem autoFormatMarkdown_reads (text : String) : ∃ thinned, Thinned (formatLines env (inputLines text)) thinned ∧
    linesFrom [] (autoFormatMarkdown env text).toList = lstripHead thinned ∧
      inputLines (autoFormatMarkdown env text) = lstripHead thinned ∧
        (autoFormatMarkdown env text).toList = unlines (lstripHead thinned) ∧ Formatted env none (lstripHead thinned) := by
  have sound := @formatLines_sound env _ (inputLines_whole text)
  obtain ⟨thinned, joined, thin, _, ends⟩ := @autoFormatMarkdown_lines env text
  refine ⟨thinned, thin, ?_⟩
  -- the lines are kept as a variable: their formatting is not to be evaluated
  generalize formatLines env (inputLines text) = formatted at sound thin
  have wholeThinned : ∀ l ∈ lstripHead thinned, Plain l ∧ rstripLine l = l := by
    intro l member
    cases thinned with
    | nil => cases member
    | cons line rest =>
      rcases List.mem_cons.mp member with rfl | later
      · obtain ⟨plain, trimmed⟩ := sound.2.1 line (thin.subset List.mem_cons_self)
        exact ⟨fun c here => plain c ((List.dropWhile_suffix isSpace).subset here), rstrip_lstrip trimmed⟩
      · exact sound.2.1 l (thin.subset (List.mem_cons_of_mem line later))
  have read : linesFrom [] (unlines (lstripHead thinned)) = lstripHead thinned :=
    linesFrom_unlines (fun l member => (wholeThinned l member).1) ends
  have noReturn : '\r' ∉ unlines (lstripHead thinned) := by
    have free : ∀ lines : List Line, (∀ l ∈ lines, Plain l) → '\r' ∉ unlines lines := by
      intro lines plain
      have foreign : ∀ l : Line, Plain l → '\r' ∉ l := fun l here member => absurd (here '\r' member) (by decide)
      induction lines with
      | nil => nofun
      | cons line rest ih =>
        have here := foreign line (plain line List.mem_cons_self)
        have later := ih fun l member => plain l (List.mem_cons_of_mem line member)
        cases rest with
        | nil => exact here
        | cons next more =>
          rw [unlines, List.mem_append, List.mem_cons, not_or, not_or]
          exact ⟨here, by decide, later⟩
    exact free _ fun l member => (wholeThinned l member).1
  refine ⟨by rw [joined, read], ?_, joined, formatted_tidied sound.1 thin⟩
  have replaced : (replace (autoFormatMarkdown env text) "\r\n" "\n").toList = unlines (lstripHead thinned) := by
    unfold replace
    rw [String.toList_ofList, joined]
    exact replaceAll_absent noReturn _
  unfold inputLines
  rw [replaced, read]
  have trimmed : ∀ l ∈ lstripHead thinned, rstripLine l = l := fun l member => (wholeThinned l member).2
  exact (List.map_congr_left trimmed).trans (List.map_id _)

/-! ### What is kept -/

/-- A line of text, in a code block or outside. -/
def nonblank (line : Line) : Bool := !(stripEnds isSpace line).isEmpty

def isContent (line : Line) : Bool := nonblank line && !isFence line

/-- The lines of text stay, but for the whitespace at their ends and the first of them's leading whitespace, and a fence stays
a fence at its place among them. -/
structure ContentKept (before after : List Line) : Prop where
  content : after.filter isContent = (before.filter isContent).map rstripLine ∨
    after.filter isContent = lstripHead ((before.filter isContent).map rstripLine)
  fences : (after.filter nonblank).map isFence = (before.filter nonblank).map isFence

theorem nonblank_rstrip (line : Line) : nonblank (rstripLine line) = nonblank line := by
  unfold nonblank
  rw [strip_rstrip]

theorem isFence_rstrip (line : Line) : isFence (rstripLine line) = isFence line := by
  unfold isFence
  rw [strip_rstrip]

theorem isContent_rstrip (line : Line) : isContent (rstripLine line) = isContent line := by
  unfold isContent
  rw [nonblank_rstrip, isFence_rstrip]

theorem nonblank_lstrip (line : Line) : nonblank (line.dropWhile isSpace) = nonblank line := by
  unfold nonblank
  rw [strip_lstrip]

theorem nonblank_fence (fence : isFence line = true) : nonblank line = true := by
  unfold isFence at fence
  unfold nonblank
  obtain ⟨rest, whole⟩ := List.isPrefixOf_iff_prefix.mp fence
  rw [← whole]
  rfl

theorem carried_filter {after : List Line} (carried : List.Forall₂ Carried lines after) :
    after.filter isContent = lines.filter isContent ∧ (after.filter nonblank).map isFence = (lines.filter nonblank).map isFence := by
  induction carried with
  | nil => exact ⟨rfl, rfl⟩
  | cons here _ ih =>
    rename_i a b _ _ _
    obtain ⟨same, text⟩ := here
    by_cases fence : isFence a = true
    · have fence' := same.symm.trans fence
      simp only [List.filter_cons, isContent, nonblank_fence fence, nonblank_fence fence', fence, fence', Bool.not_true, Bool.and_false,
        Bool.false_eq_true, if_false, if_true, List.map_cons]
      exact ⟨ih.1, congrArg _ ih.2⟩
    · obtain rfl := text (Bool.eq_false_iff.mpr fence)
      simp only [List.filter_cons]
      refine ⟨by rw [ih.1], ?_⟩
      split
      · rw [List.map_cons, List.map_cons, ih.2]
      · exact ih.2

theorem map_filter_rstrip {keeps : Line → Bool} (alike : ∀ l, keeps (rstripLine l) = keeps l) (lines : List Line) :
    (lines.map rstripLine).filter keeps = (lines.filter keeps).map rstripLine := by
  rw [List.filter_map]
  exact congrArg (List.map rstripLine) (List.filter_congr fun l _ => alike l)

theorem lstripHead_filter (lines : List Line) : ((lstripHead lines).filter isContent = lines.filter isContent ∨
    (lstripHead lines).filter isContent = lstripHead (lines.filter isContent)) ∧
      ((lstripHead lines).filter nonblank).map isFence = (lines.filter nonblank).map isFence := by
  cases lines with
  | nil => exact ⟨.inl rfl, rfl⟩
  | cons line rest =>
    have content : isContent (line.dropWhile isSpace) = isContent line := by
      unfold isContent
      rw [nonblank_lstrip, isFence_lstrip]
    simp only [lstripHead, List.filter_cons, content, nonblank_lstrip]
    constructor
    · split
      · exact .inr rfl
      · exact .inl rfl
    · split
      · rw [List.map_cons, List.map_cons, isFence_lstrip]
      · rfl

/-- Formatting a text again changes nothing, and formatting it keeps its lines. -/
theorem autoFormatMarkdown_stable (text : String) :
    autoFormatMarkdown env (autoFormatMarkdown env text) = autoFormatMarkdown env text ∧
      ContentKept (linesFrom [] text.toList) (linesFrom [] (autoFormatMarkdown env text).toList) := by
  obtain ⟨thinned, thin, read, input, joined, formatted⟩ := @autoFormatMarkdown_reads env text
  constructor
  · obtain ⟨sparse, stripped⟩ := @autoFormatMarkdown_tidy env text
    generalize autoFormatMarkdown env text = result at input joined sparse stripped
    unfold autoFormatMarkdown
    split
    · rename_i empty
      exact empty.symm
    · rw [input, formatLines_formatted formatted, ← joined, sparse.collapse, stripped, String.ofList_toList]
  · obtain ⟨_, _, carried⟩ := @formatLines_sound env _ (inputLines_whole text)
    obtain ⟨kept, flags⟩ := carried_filter carried
    obtain ⟨content, fences⟩ := lstripHead_filter thinned
    have blank : nonblank [] = false := rfl
    have source : ∀ keeps : Line → Bool, keeps [] = false → (∀ l, keeps (rstripLine l) = keeps l) →
        (inputLines text).filter keeps = ((linesFrom [] text.toList).filter keeps).map rstripLine := by
      intro keeps none_ alike
      have ends := replaced_lines none_ (Nat.le_refl text.toList.length) []
      unfold inputLines replace
      rw [map_filter_rstrip alike, String.toList_ofList]
      exact congrArg (List.map rstripLine) ends
    rw [thin.filter (show isContent [] = false from rfl), kept, source isContent rfl isContent_rstrip] at content
    rw [thin.filter blank, flags, source nonblank blank nonblank_rstrip, List.map_map] at fences
    rw [read]
    exact ⟨content, fences.trans (List.map_congr_left fun l _ => isFence_rstrip l)⟩

end SaltMdb
