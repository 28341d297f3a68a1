import Mathlib.Data.List.Forall2
import SaltMdb.Store.Text

/-! The lines of a text, as `str.splitlines` tells them apart, and how stripping the text and collapsing its newlines act on
them: blank lines go, and the others stay in order. -/

namespace SaltMdb.Text

abbrev Line := List Char

/-- The characters that end a line. -/
def endsLine (c : Char) : Bool := [0x0a, 0x0b, 0x0c, 0x0d, 0x1c, 0x1d, 0x1e, 0x85, 0x2028, 0x2029].contains c.toNat

/-- What is read of the current line comes reversed. -/
def linesFrom : Line → List Char → List Line
  | [], [] => []
  | line, [] => [line.reverse]
  | line, '\r' :: '\n' :: rest => line.reverse :: linesFrom [] rest
  | line, c :: rest => if endsLine c then line.reverse :: linesFrom [] rest else linesFrom (c :: line) rest

def splitlines (s : String) : List String := (linesFrom [] s.toList).map .ofList

/-- `"\n".join`. -/
def unlines : List Line → List Char
  | [] => []
  | [line] => line
  | line :: next :: rest => line ++ '\n' :: unlines (next :: rest)

def rstripLine (line : Line) : Line := line.rdropWhile isSpace

/-- `re.sub(r"\n{3,}", "\n\n", …)`, behind so many newlines. -/
def collapseNewlines : Nat → List Char → List Char
  | _, [] => []
  | run, c :: cs =>
    if c = '\n' then if run < 2 then c :: collapseNewlines (run + 1) cs else collapseNewlines run cs
    else c :: collapseNewlines 0 cs

/-! ### Lines of which blank ones are left out -/

inductive Thinned : List Line → List Line → Prop where
  | nil : Thinned [] []
  | keep {lines thinned : List Line} (line : Line) : Thinned lines thinned → Thinned (line :: lines) (line :: thinned)
  | skip {lines thinned : List Line} : Thinned lines thinned → Thinned ([] :: lines) thinned

variable {lines thinned rest : List Line} {line : Line} {run : Nat}

theorem Thinned.refl : ∀ lines : List Line, Thinned lines lines
  | [] => .nil
  | line :: lines => .keep line (refl lines)

theorem Thinned.trans {later : List Line} (first : Thinned lines thinned) (second : Thinned thinned later) : Thinned lines later := by
  induction first generalizing later with
  | nil => exact second
  | keep line _ ih =>
    cases second with
    | keep _ more => exact .keep line (ih more)
    | skip more => exact .skip (ih more)
  | skip _ ih => exact .skip (ih second)

theorem Thinned.append {others thinner : List Line} (first : Thinned lines thinned) (second : Thinned others thinner) :
    Thinned (lines ++ others) (thinned ++ thinner) := by
  induction first with
  | nil => exact second
  | keep line _ ih => exact .keep line ih
  | skip _ ih => exact .skip ih

theorem Thinned.subset (thin : Thinned lines thinned) : thinned ⊆ lines := by
  induction thin with
  | nil => exact List.Subset.refl _
  | keep line _ ih => exact List.cons_subset_cons line ih
  | skip _ ih => exact List.subset_cons_of_subset [] ih

theorem Thinned.flatten (thin : Thinned lines thinned) : thinned.flatten = lines.flatten := by
  induction thin with
  | nil => rfl
  | keep line _ ih => rw [List.flatten_cons, List.flatten_cons, ih]
  | skip _ ih => rw [List.flatten_cons, List.nil_append, ih]

/-- What no blank line passes is found as before. -/
theorem Thinned.filter (thin : Thinned lines thinned) {keeps : Line → Bool} (blank : keeps [] = false) :
    thinned.filter keeps = lines.filter keeps := by
  induction thin with
  | nil => rfl
  | keep line _ ih => rw [List.filter_cons, List.filter_cons, ih]
  | skip _ ih => rw [ih, List.filter_cons, blank, if_neg Bool.false_ne_true]

theorem Thinned.any (thin : Thinned lines thinned) {test : Line → Bool} (blank : test [] = false) : thinned.any test = lines.any test := by
  induction thin with
  | nil => rfl
  | keep line _ ih => rw [List.any_cons, List.any_cons, ih]
  | skip _ ih => rw [List.any_cons, blank, Bool.false_or, ih]

/-! ### Plain lines -/

/-- No character of the line ends it. -/
def Plain (line : Line) : Prop := ∀ c ∈ line, endsLine c = false

theorem plain_of_all (clear : line.all (fun c => !endsLine c) = true) : Plain line := by
  rw [List.all_eq_true] at clear
  exact fun c member => (Bool.not_eq_eq_eq_not.mp (clear c member))

theorem Plain.no_newline (plain : Plain line) : '\n' ∉ line := fun member => absurd (plain '\n' member) (by decide)

theorem linesFrom_plain {before : Line} (plain : Plain before) (cs : List Char) : ∀ l ∈ linesFrom before cs, Plain l := by
  have reversed : ∀ l : Line, Plain l → Plain l.reverse := fun l here c member => here c (List.mem_reverse.mp member)
  have empty : Plain [] := nofun
  fun_induction linesFrom before cs with
  | case1 => nofun
  | case2 line _ =>
    intro l member
    rw [List.mem_singleton.mp member]
    exact reversed line plain
  | case3 line rest ih =>
    intro l member
    rcases List.mem_cons.mp member with rfl | later
    · exact reversed line plain
    · exact ih empty l later
  | case4 line c rest _ ends ih =>
    intro l member
    rcases List.mem_cons.mp member with rfl | later
    · exact reversed line plain
    · exact ih empty l later
  | case5 line c rest _ goes ih =>
    refine ih fun d member => ?_
    rcases List.mem_cons.mp member with rfl | before
    · exact Bool.eq_false_iff.mpr goes
    · exact plain d before

theorem linesFrom_line (plain : Plain line) (before : Line) (cs : List Char) :
    linesFrom before (line ++ '\n' :: cs) = (before.reverse ++ line) :: linesFrom [] cs := by
  induction line generalizing before with
  | nil =>
    rw [List.nil_append, List.append_nil]
    cases before <;> rfl
  | cons c line ih =>
    have goes : endsLine c = false := plain c List.mem_cons_self
    have more := ih (fun d member => plain d (List.mem_cons_of_mem c member)) (c :: before)
    have step : linesFrom before (c :: (line ++ '\n' :: cs)) = linesFrom (c :: before) (line ++ '\n' :: cs) := by
      rw [linesFrom]
      · rw [if_neg (Bool.eq_false_iff.mp goes)]
      · rintro next rfl
        exact absurd goes (by decide)
    rw [List.cons_append, step, more, List.reverse_cons, List.append_assoc, List.singleton_append]

theorem linesFrom_last (plain : Plain line) (before : Line) (some_ : before.reverse ++ line ≠ []) :
    linesFrom before line = [before.reverse ++ line] := by
  induction line generalizing before with
  | nil =>
    cases before with
    | nil => exact absurd rfl some_
    | cons c before => simp [linesFrom]
  | cons c line ih =>
    have goes : endsLine c = false := plain c List.mem_cons_self
    have step : linesFrom before (c :: line) = linesFrom (c :: before) line := by
      rw [linesFrom]
      · rw [if_neg (Bool.eq_false_iff.mp goes)]
      · rintro next rfl
        exact absurd goes (by decide)
    rw [step, ih (fun d member => plain d (List.mem_cons_of_mem c member)) (c :: before) (by simp), List.reverse_cons, List.append_assoc,
      List.singleton_append]

/-- Lines that end with one that is not empty are read as they were joined. -/
theorem linesFrom_unlines (plain : ∀ l ∈ lines, Plain l) (ends : ∀ l ∈ lines.getLast?, l ≠ []) : linesFrom [] (unlines lines) = lines := by
  induction lines with
  | nil => rfl
  | cons line lines ih =>
    have here := plain line List.mem_cons_self
    cases lines with
    | nil => exact linesFrom_last here [] (ends line rfl)
    | cons next more =>
      have later := ih (fun l member => plain l (List.mem_cons_of_mem line member)) (by rwa [List.getLast?_cons_cons] at ends)
      rw [unlines, linesFrom_line here, later]
      rfl

/-! ### Newlines that are collapsed -/

theorem unlines_cons (some_ : rest ≠ []) : unlines (line :: rest) = line ++ '\n' :: unlines rest := by
  obtain ⟨next, more, rfl⟩ := List.exists_cons_of_ne_nil some_
  rfl

theorem collapse_line (free : '\n' ∉ line) (some_ : line ≠ []) (cs : List Char) :
    collapseNewlines run (line ++ cs) = line ++ collapseNewlines 0 cs := by
  induction line generalizing run with
  | nil => exact absurd rfl some_
  | cons c line ih =>
    have other : c ≠ '\n' := fun same => free (same ▸ List.mem_cons_self)
    rw [List.cons_append, collapseNewlines, if_neg other]
    cases line with
    | nil => rfl
    | cons d line =>
      rw [ih (List.not_mem_of_not_mem_cons free) (List.cons_ne_nil d line)]
      rfl

theorem collapse_unlines (free : ∀ l ∈ lines, '\n' ∉ l) (run : Nat) : ∃ thinned,
    collapseNewlines run (unlines lines) = unlines thinned ∧ Thinned lines thinned ∧ (lines ≠ [] → thinned ≠ []) := by
  induction lines generalizing run with
  | nil => exact ⟨[], rfl, .nil, id⟩
  | cons line lines ih =>
    have here := free line List.mem_cons_self
    have later := ih fun l member => free l (List.mem_cons_of_mem line member)
    by_cases last : lines = []
    · subst last
      refine ⟨[line], ?_, .refl _, fun _ => List.cons_ne_nil _ _⟩
      by_cases blank : line = []
      · rw [blank]
        rfl
      · have whole := @collapse_line line run here blank []
        rwa [List.append_nil, show collapseNewlines 0 [] = [] from rfl, List.append_nil] at whole
    · rw [unlines_cons last]
      by_cases blank : line = []
      · subst blank
        rw [List.nil_append, collapseNewlines, if_pos rfl]
        by_cases few : run < 2
        · obtain ⟨thinned, same, thin, some_⟩ := later (run + 1)
          refine ⟨[] :: thinned, ?_, .keep [] thin, fun _ => List.cons_ne_nil _ _⟩
          rw [if_pos few, same, unlines_cons (some_ last)]
          rfl
        · obtain ⟨thinned, same, thin, some_⟩ := later run
          exact ⟨thinned, by rw [if_neg few, same], .skip thin, fun _ => some_ last⟩
      · obtain ⟨thinned, same, thin, some_⟩ := later 1
        refine ⟨line :: thinned, ?_, .keep line thin, fun _ => List.cons_ne_nil _ _⟩
        rw [collapse_line here blank, collapseNewlines, if_pos rfl, if_pos Nat.two_pos, same, unlines_cons (some_ last)]

/-- Behind `run` newlines no third one follows two. -/
def Sparse : Nat → List Char → Prop
  | _, [] => True
  | run, c :: cs => if c = '\n' then run < 2 ∧ Sparse (run + 1) cs else Sparse 0 cs

theorem sparse_collapse (run : Nat) (cs : List Char) : Sparse run (collapseNewlines run cs) := by
  fun_induction collapseNewlines run cs with
  | case1 => trivial
  | case2 run cs few ih =>
    rw [Sparse, if_pos rfl]
    exact ⟨few, ih⟩
  | case3 _ _ _ ih => exact ih
  | case4 run c cs other ih =>
    rw [Sparse, if_neg other]
    exact ih

theorem Sparse.collapse {cs : List Char} (sparse : Sparse run cs) : collapseNewlines run cs = cs := by
  induction cs generalizing run with
  | nil => rfl
  | cons c cs ih =>
    rw [Sparse] at sparse
    rw [collapseNewlines]
    split
    · rename_i newline
      rw [if_pos newline] at sparse
      rw [if_pos sparse.1, ih sparse.2]
    · rename_i other
      rw [if_neg other] at sparse
      rw [ih sparse]

theorem Sparse.mono {cs : List Char} {less : Nat} (sparse : Sparse run cs) (le : less ≤ run) : Sparse less cs := by
  induction cs generalizing run less with
  | nil => trivial
  | cons c cs ih =>
    rw [Sparse] at sparse ⊢
    split
    · rename_i newline
      rw [if_pos newline] at sparse
      exact ⟨Nat.lt_of_le_of_lt le sparse.1, ih sparse.2 (Nat.succ_le_succ le)⟩
    · rename_i other
      rwa [if_neg other] at sparse

theorem Sparse.tail {c : Char} {cs : List Char} (sparse : Sparse run (c :: cs)) : Sparse 0 cs := by
  rw [Sparse] at sparse
  split at sparse
  · exact sparse.2.mono (Nat.zero_le _)
  · exact sparse

theorem Sparse.front {cs ds : List Char} (sparse : Sparse run (cs ++ ds)) : Sparse run cs := by
  induction cs generalizing run with
  | nil => trivial
  | cons c cs ih =>
    rw [List.cons_append, Sparse] at sparse
    rw [Sparse]
    split
    · rename_i newline
      rw [if_pos newline] at sparse
      exact ⟨sparse.1, ih sparse.2⟩
    · rename_i other
      rw [if_neg other] at sparse
      exact ih sparse

theorem Sparse.stripped {cs : List Char} (sparse : Sparse 0 cs) : Sparse 0 (stripEnds isSpace cs) := by
  have behind : Sparse 0 (cs.dropWhile isSpace) := by
    induction cs with
    | nil => trivial
    | cons c cs ih =>
      rw [List.dropWhile_cons]
      split
      · exact ih sparse.tail
      · exact sparse
  rw [stripEnds_eq]
  obtain ⟨cut, whole⟩ := List.rdropWhile_prefix isSpace (cs.dropWhile isSpace)
  rw [← whole] at behind
  exact behind.front

/-! ### The text that is stripped -/

/-- The leading whitespace of the first line goes. -/
def lstripHead : List Line → List Line
  | [] => []
  | line :: rest => line.dropWhile isSpace :: rest

theorem lstrip_ne_nil (trimmed : rstripLine line = line) (some_ : line ≠ []) : line.dropWhile isSpace ≠ [] := by
  intro none_
  have spaces := List.dropWhile_eq_nil_iff.mp none_
  have gone : rstripLine line = [] := List.rdropWhile_eq_nil_iff.mpr spaces
  exact some_ (trimmed.symm.trans gone)

theorem rstrip_lstrip (trimmed : rstripLine line = line) : rstripLine (line.dropWhile isSpace) = line.dropWhile isSpace := by
  unfold rstripLine at trimmed ⊢
  rw [List.rdropWhile_eq_self_iff] at trimmed ⊢
  intro some_
  have whole : line ≠ [] := fun empty => some_ (by rw [empty]; rfl)
  have last := (List.dropWhile_suffix isSpace).getLast some_
  rw [last]
  exact trimmed whole

theorem dropWhile_unlines (trimmed : ∀ l ∈ lines, rstripLine l = l) : ∃ thinned,
    (unlines lines).dropWhile isSpace = unlines (lstripHead thinned) ∧ Thinned lines thinned ∧ ∀ l ∈ thinned.head?, l ≠ [] := by
  induction lines with
  | nil => exact ⟨[], rfl, .nil, nofun⟩
  | cons line lines ih =>
    obtain ⟨thinned, same, thin, starts⟩ := ih fun l member => trimmed l (List.mem_cons_of_mem line member)
    by_cases blank : line = []
    · subst blank
      refine ⟨thinned, ?_, .skip thin, starts⟩
      rw [← same]
      cases lines with
      | nil => rfl
      | cons next more => rfl
    · refine ⟨line :: lines, ?_, .refl _, fun l here => ?_⟩
      · have some_ := lstrip_ne_nil (trimmed line List.mem_cons_self) blank
        cases lines with
        | nil => rfl
        | cons next more =>
          rw [unlines_cons (List.cons_ne_nil _ _), List.dropWhile_append, if_neg (by rwa [List.isEmpty_iff])]
          rfl
      · rw [← Option.some.inj here]
        exact blank

theorem rdropWhile_append (p : Char → Bool) (l m : List Char) :
    (l ++ m).rdropWhile p = if m.rdropWhile p = [] then l.rdropWhile p else l ++ m.rdropWhile p := by
  unfold List.rdropWhile
  rw [List.reverse_append, List.dropWhile_append]
  simp only [List.isEmpty_iff, List.reverse_eq_nil_iff]
  split
  · rfl
  · rw [List.reverse_append, List.reverse_reverse]

theorem unlines_ne_nil (some_ : lines ≠ []) (ends : ∀ l ∈ lines.getLast?, l ≠ []) : unlines lines ≠ [] := by
  obtain ⟨line, more, rfl⟩ := List.exists_cons_of_ne_nil some_
  cases more with
  | nil => exact ends line rfl
  | cons next more =>
    rw [unlines_cons (List.cons_ne_nil _ _)]
    exact List.append_ne_nil_of_right_ne_nil _ (List.cons_ne_nil _ _)

theorem rdropWhile_unlines (trimmed : ∀ l ∈ lines, rstripLine l = l) : ∃ thinned,
    (unlines lines).rdropWhile isSpace = unlines thinned ∧ Thinned lines thinned ∧ ∀ l ∈ thinned.getLast?, l ≠ [] := by
  induction lines with
  | nil => exact ⟨[], rfl, .nil, nofun⟩
  | cons line lines ih =>
    obtain ⟨thinned, same, thin, ends⟩ := ih fun l member => trimmed l (List.mem_cons_of_mem line member)
    have here : line.rdropWhile isSpace = line := trimmed line List.mem_cons_self
    have alone : thinned = [] → (unlines (line :: lines)).rdropWhile isSpace = line := by
      intro none_
      rw [none_] at same
      by_cases last : lines = []
      · rw [last]
        exact here
      · have gone : (unlines lines).rdropWhile isSpace = [] := same
        have newline : ('\n' :: unlines lines).rdropWhile isSpace = [] := by
          rw [← List.singleton_append, rdropWhile_append, if_pos gone]
          rfl
        rw [unlines_cons last, rdropWhile_append, if_pos newline, here]
    by_cases none_ : thinned = []
    · by_cases blank : line = []
      · refine ⟨[], ?_, ?_, nofun⟩
        · rw [alone none_, blank]
          rfl
        · rw [blank, ← none_]
          exact .skip thin
      · refine ⟨[line], alone none_, ?_, fun l member => ?_⟩
        · rw [← none_]
          exact .keep line thin
        · rw [← Option.some.inj member]
          exact blank
    · refine ⟨line :: thinned, ?_, .keep line thin, ?_⟩
      · have some_ : lines ≠ [] := by
          rintro rfl
          cases thin
          exact none_ rfl
        have left : (unlines lines).rdropWhile isSpace ≠ [] := by
          rw [same]
          exact unlines_ne_nil none_ ends
        have newline : ('\n' :: unlines lines).rdropWhile isSpace = '\n' :: unlines thinned := by
          rw [← List.singleton_append, rdropWhile_append, if_neg left, same]
          rfl
        rw [unlines_cons some_, unlines_cons none_, rdropWhile_append, newline, if_neg (List.cons_ne_nil _ _)]
      · obtain ⟨next, more, rfl⟩ := List.exists_cons_of_ne_nil none_
        rwa [List.getLast?_cons_cons]

/-- Stripping a text and collapsing its newlines leaves out blank lines, and the leading whitespace of the first other one. -/
theorem tidied_unlines (free : ∀ l ∈ lines, '\n' ∉ l) (trimmed : ∀ l ∈ lines, rstripLine l = l) : ∃ thinned,
    stripEnds isSpace (collapseNewlines 0 (unlines lines)) = unlines (lstripHead thinned) ∧ Thinned lines thinned ∧
      (∀ l ∈ thinned.head?, l ≠ []) ∧ ∀ l ∈ (lstripHead thinned).getLast?, l ≠ [] := by
  obtain ⟨collapsed, collapsing, first, _⟩ := collapse_unlines free 0
  have trimmed' : ∀ l ∈ collapsed, rstripLine l = l := fun l member => trimmed l (first.subset member)
  obtain ⟨front, fronting, second, starts⟩ := dropWhile_unlines trimmed'
  have trimmedFront : ∀ l ∈ lstripHead front, rstripLine l = l := by
    intro l member
    cases front with
    | nil => cases member
    | cons line rest =>
      rcases List.mem_cons.mp member with rfl | later
      · exact rstrip_lstrip (trimmed' line (second.subset List.mem_cons_self))
      · exact trimmed' l (second.subset (List.mem_cons_of_mem line later))
  obtain ⟨back, backing, third, ends⟩ := rdropWhile_unlines trimmedFront
  rw [stripEnds_eq, collapsing, fronting, backing]
  cases front with
  | nil =>
    cases third
    exact ⟨[], rfl, first.trans second, nofun, nofun⟩
  | cons line rest =>
    have some_ : line ≠ [] := starts line rfl
    have left := lstrip_ne_nil (trimmed' line (second.subset List.mem_cons_self)) some_
    generalize cut : lstripHead (line :: rest) = whole at third
    cases third with
    | nil => cases cut
    | skip _ => exact absurd (List.cons.inj cut).1 left
    | keep other more =>
      obtain ⟨rfl, rfl⟩ := List.cons.inj cut
      exact ⟨line :: _, rfl, (first.trans second).trans (.keep line more), starts, ends⟩

/-- Lines without a carriage return are read as they are. -/
theorem replaceAll_absent {first : Char} {old new cs : List Char} (absent : first ∉ cs) (fuel : Nat) :
    replaceAll (first :: old) new cs fuel = cs := by
  induction fuel generalizing cs with
  | zero => rfl
  | succ fuel ih =>
    cases cs with
    | nil => rfl
    | cons c cs =>
      have other : ¬ (first :: old).isPrefixOf (c :: cs) = true := by
        rw [List.isPrefixOf_iff_prefix, List.cons_prefix_cons]
        rintro ⟨rfl, _⟩
        exact absent List.mem_cons_self
      rw [replaceAll, if_neg other, ih (List.not_mem_of_not_mem_cons absent)]

theorem linesFrom_cons {before : Line} {c : Char} {cs : List Char} (apart : c = '\r' → cs.head? ≠ some '\n') :
    linesFrom before (c :: cs) = if endsLine c then before.reverse :: linesFrom [] cs else linesFrom (c :: before) cs := by
  rw [linesFrom]
  rintro rest rfl rfl
  exact apart rfl rfl

/-- Written as newlines, the line ends of two characters part the same lines, but for blank ones. -/
theorem replaced_lines {keeps : Line → Bool} (blank : keeps [] = false) {fuel : Nat} {cs : List Char} (enough : cs.length ≤ fuel)
    (before : Line) : (linesFrom before (replaceAll ['\r', '\n'] ['\n'] cs fuel)).filter keeps = (linesFrom before cs).filter keeps := by
  have newline : ∀ (before : Line) (cs : List Char), linesFrom before ('\n' :: cs) = before.reverse :: linesFrom [] cs := by
    intro before cs
    rw [linesFrom_cons fun return_ => absurd return_ (by decide), if_pos (by decide)]
  have both : ∀ (before : Line) (cs : List Char), linesFrom before ('\r' :: '\n' :: cs) = before.reverse :: linesFrom [] cs := by
    intro before cs
    cases before <;> rfl
  induction fuel generalizing cs before with
  | zero =>
    rw [List.length_eq_zero_iff.mp (Nat.le_zero.mp enough)]
    rfl
  | succ fuel ih =>
    cases cs with
    | nil => rfl
    | cons c cs =>
      rw [replaceAll]
      split
      · rename_i starts
        obtain ⟨rest, whole⟩ := List.isPrefixOf_iff_prefix.mp starts
        rw [List.cons_append, List.cons_append, List.nil_append] at whole
        rw [← whole] at enough ⊢
        simp only [List.length_cons] at enough
        show (linesFrom before ('\n' :: replaceAll ['\r', '\n'] ['\n'] rest fuel)).filter keeps = _
        rw [newline, both, List.filter_cons, List.filter_cons, ih (by omega)]
      · rename_i elsewhere
        have later := fun before => @ih cs (Nat.le_of_succ_le_succ enough) before
        have raw : linesFrom before (c :: cs) = if endsLine c then before.reverse :: linesFrom [] cs else linesFrom (c :: before) cs := by
          refine linesFrom_cons ?_
          rintro rfl starts
          obtain ⟨rest, rfl⟩ := List.head?_eq_some_iff.mp starts
          exact elsewhere rfl
        by_cases return_ : c = '\r' ∧ (replaceAll ['\r', '\n'] ['\n'] cs fuel).head? = some '\n'
        · obtain ⟨rfl, starts⟩ := return_
          obtain ⟨rest, replaced⟩ := List.head?_eq_some_iff.mp starts
          have here := later []
          rw [replaced, newline, List.reverse_nil, List.filter_cons, blank, if_neg Bool.false_ne_true] at here
          rw [replaced, both, raw, if_pos (by decide), List.filter_cons, List.filter_cons, here]
        · rw [linesFrom_cons fun same starts => return_ ⟨same, starts⟩, raw]
          split
          · rw [List.filter_cons, List.filter_cons, later]
          · exact later _

theorem strip_rstrip (line : Line) : stripEnds isSpace (rstripLine line) = stripEnds isSpace line := by
  have cut : ∀ (c : Char) (l : Line), (c :: l).rdropWhile isSpace =
      if l.rdropWhile isSpace = [] then if isSpace c then [] else [c] else c :: l.rdropWhile isSpace := by
    intro c l
    have parts := rdropWhile_append isSpace [c] l
    rwa [List.rdropWhile_singleton, List.singleton_append, List.singleton_append] at parts
  have commute : ∀ l : Line, (l.rdropWhile isSpace).dropWhile isSpace = (l.dropWhile isSpace).rdropWhile isSpace := by
    intro l
    induction l with
    | nil => rfl
    | cons c l ih =>
      by_cases space : isSpace c = true
      · rw [List.dropWhile_cons_of_pos space, ← ih, cut, if_pos space]
        split
        · rename_i none_
          rw [none_]
        · rw [List.dropWhile_cons_of_pos space]
      · rw [List.dropWhile_cons_of_neg space, cut, if_neg space]
        split <;> rw [List.dropWhile_cons_of_neg space]
  unfold rstripLine
  rw [stripEnds_eq, stripEnds_eq, commute, List.rdropWhile_idempotent]

theorem strip_lstrip (line : Line) : stripEnds isSpace (line.dropWhile isSpace) = stripEnds isSpace line := by
  rw [stripEnds_eq, stripEnds_eq, List.dropWhile_idempotent]

end SaltMdb.Text
