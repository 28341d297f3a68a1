import SaltMdb.Library.Regex
import SaltMdb.Trace.Capture

/-! The linear scanners for headings and list items, and the regular expressions that they stand for. -/

namespace SaltMdb
open Regex

def isBullet (c : Char) : Bool := c == '-' || c == '*' || c == '+'

/-! ### The scanners -/

/-- `text.find("\n", pos)`. -/
def findNewline (text : List Char) (pos : Nat) : Option Nat := ((text.drop pos).findIdx? (· == '\n')).map (pos + ·)

def lineEnd (text : List Char) (pos : Nat) : Nat := (findNewline text pos).getD text.length

/-- The loop that passes over the letters it accepts, as far as a bound. -/
def passOver (accepts : Char → Bool) (text : List Char) (bound pos : Nat) : Nat :=
  if pos < bound ∧ text[pos]?.any accepts then passOver accepts text bound (pos + 1) else pos
termination_by bound - pos

/-- The loop that goes back over newlines, as far as the marker's end. -/
def backOverNewlines (text : List Char) (pos : Nat) : Nat → Nat
  | 0 => 0
  | k + 1 => if pos < k + 1 ∧ text[k + 1]? = some '\n' then backOverNewlines text pos k else k + 1

/-- Where the text behind a marker begins and ends. -/
def tailAfterMarker (text : List Char) (pos : Nat) : Option (Nat × Nat) :=
  let runEnd := passOver Text.isSpace text text.length pos
  if runEnd = pos then none
  else if runEnd < text.length then some (runEnd, lineEnd text runEnd)
  else
    let k := backOverNewlines text pos (runEnd - 1)
    if k = pos then none else some (k, lineEnd text k)

/-- The first line start from a place on. -/
def lineStartFrom (text : List Char) (pos : Nat) : Option Nat :=
  if pos ≠ 0 ∧ text[pos - 1]? ≠ some '\n' then (findNewline text pos).map (· + 1) else some pos

theorem lineStartFrom_le {text : List Char} {pos start : Nat} (found : lineStartFrom text pos = some start) : pos ≤ start := by
  unfold lineStartFrom findNewline at found
  split at found
  · rw [Option.map_map] at found
    obtain ⟨i, _, rfl⟩ := Option.map_eq_some_iff.mp found
    exact Nat.le_succ_of_le (Nat.le_add_right _ _)
  · exact Nat.le_of_eq (Option.some.inj found)

/-- The scan of a text: no hit is empty. -/
def scanLineMatches {ρ : Type} (text : List Char) (hitAt : Nat → Option (ρ × Nat)) (pos : Nat) : List ρ :=
  if pos ≤ text.length then
    match _found : lineStartFrom text pos with
    | none => []
    | some start =>
      match hitAt start with
      | none => scanLineMatches text hitAt (start + 1)
      | some (record, stop) => record :: if start < stop then scanLineMatches text hitAt stop else []
  else []
termination_by text.length + 1 - pos
decreasing_by
  all_goals
    have forward := lineStartFrom_le ‹_›
    omega

def atxHeaderAt (text : List Char) (start : Nat) : Option ((String × String) × Nat) :=
  let q := passOver (· == '#') text (min text.length (start + 6)) start
  if q = start then none
  else (tailAfterMarker text q).map fun (g2, stop) => ((slice text start q, slice text g2 stop), stop)

def orderedMarkerEnd (text : List Char) (pos : Nat) : Option Nat :=
  let d := passOver isDecimal text text.length pos
  if d = pos ∨ text[d]? ≠ some '.' then none else some (d + 1)

/-- The end of a bullet or of an ordered marker. -/
def markerEnd (text : List Char) (q : Nat) : Option Nat :=
  if text[q]?.any isBullet then some (q + 1) else orderedMarkerEnd text q

def listItemAt (text : List Char) (start : Nat) : Option (String × Nat) :=
  let q := passOver (fun c => Text.isSpace c && c != '\n') text text.length start
  (markerEnd text q).bind fun q => (tailAfterMarker text q).map fun (g1, stop) => (slice text g1 stop, stop)

def atxHeaders (text : String) : List (String × String) := scanLineMatches text.toList (atxHeaderAt text.toList) 0

def listItemTexts (text : String) : List String := scanLineMatches text.toList (listItemAt text.toList) 0

/-! ### The patterns -/

/-- `(.+)$` -/
def linePattern : Regex := .seq (.group (.many 1 none (· != '\n'))) .lineEnd

/-- `\s+(.+)$` -/
def tailPattern : Regex := .seq (.many 1 none Text.isSpace) linePattern

/-- `^(#{1,6})\s+(.+)$` -/
def headerPattern : Regex := .seq .lineStart (.seq (.group (.many 1 (some 6) (· == '#'))) tailPattern)

/-- `[-*+]|\d+\.` -/
def markerPattern : Regex := .alt (.one isBullet) (.seq (.many 1 none isDecimal) (.one (· == '.')))

/-- `^\s*(?:[-*+]|\d+\.)\s+(.+)$` -/
def listItemPattern : Regex := .seq .lineStart (.seq (.many 0 none Text.isSpace) (.seq markerPattern tailPattern))

variable {text : List Char} {pos : Nat}

/-! ### The loops -/

theorem passOver_stop {accepts : Char → Bool} {bound : Nat} (refused : ¬ (pos < bound ∧ text[pos]?.any accepts)) :
    passOver accepts text bound pos = pos := by
  rw [passOver, if_neg refused]

theorem stretch_zero {accepts : Char → Bool} (refused : ¬ text[pos]?.any accepts) : stretch accepts text pos = 0 := by
  by_contra some_
  obtain ⟨c, here, accepted⟩ := stretch_accepts (Nat.pos_of_ne_zero some_)
  rw [Nat.add_zero] at here
  exact refused (by rw [here]; exact accepted)

theorem accepted_letter {accepts : Char → Bool} (accepted : text[pos]?.any accepts) : ∃ c, text[pos]? = some c ∧ accepts c = true := by
  cases here : text[pos]? with
  | none => simp [here] at accepted
  | some c => exact ⟨c, rfl, by simpa [here] using accepted⟩

theorem stretch_succ {accepts : Char → Bool} (accepted : text[pos]?.any accepts) :
    stretch accepts text pos = stretch accepts text (pos + 1) + 1 := by
  obtain ⟨c, here, ok⟩ := accepted_letter accepted
  obtain ⟨inside, rfl⟩ := List.getElem?_eq_some_iff.mp here
  rw [stretch, List.drop_eq_getElem_cons inside, List.takeWhile_cons_of_pos ok]
  rfl

/-- The loop passes over as much as is accepted before the bound. -/
theorem passOver_eq (accepts : Char → Bool) {bound : Nat} (below : pos ≤ bound) :
    passOver accepts text bound pos = pos + min (stretch accepts text pos) (bound - pos) := by
  induction pos using passOver.induct accepts text bound with
  | case1 pos goes ih =>
    rw [passOver, if_pos goes, ih goes.1, stretch_succ goes.2]
    omega
  | case2 pos stops =>
    rw [passOver_stop stops]
    by_cases room : pos < bound
    · rw [stretch_zero fun accepted => stops ⟨room, accepted⟩]
      omega
    · omega

theorem passOver_whole (accepts : Char → Bool) (inside : pos ≤ text.length) :
    passOver accepts text text.length pos = pos + stretch accepts text pos := by
  have within := stretch_le text accepts inside
  rw [passOver_eq accepts inside]
  omega

/-- A stretch goes on from each of its places. -/
theorem stretch_from {accepts : Char → Bool} {j : Nat} (inside : j ≤ stretch accepts text pos) :
    stretch accepts text pos = j + stretch accepts text (pos + j) := by
  induction j with
  | zero => rw [Nat.zero_add, Nat.add_zero]
  | succ j ih =>
    obtain ⟨c, here, accepted⟩ := stretch_accepts inside
    have next := @stretch_succ text (pos + j) accepts (by rw [here]; exact accepted)
    rw [ih (Nat.le_of_succ_le inside), next, Nat.add_assoc pos]
    omega

theorem findIdx_newline (letters : List Char) :
    (letters.findIdx? (· == '\n')).getD letters.length = (letters.takeWhile (· != '\n')).length := by
  induction letters with
  | nil => rfl
  | cons c letters ih =>
    by_cases newline : c = '\n'
    · subst newline
      rfl
    · have other : (c == '\n') = false := beq_eq_false_iff_ne.mpr newline
      rw [List.findIdx?_cons, other, if_neg Bool.false_ne_true, List.takeWhile_cons_of_pos (by rw [bne, other]; rfl), List.length_cons,
        List.length_cons, ← ih]
      cases letters.findIdx? (· == '\n') <;> rfl

theorem lineEnd_eq (inside : pos ≤ text.length) : lineEnd text pos = pos + stretch (· != '\n') text pos := by
  have found := findIdx_newline (text.drop pos)
  rw [lineEnd, findNewline, stretch, ← found]
  cases (text.drop pos).findIdx? (· == '\n') with
  | none =>
    show text.length = pos + (text.drop pos).length
    rw [List.length_drop]
    omega
  | some i => rfl

theorem lineEnd_isEnd (inside : pos ≤ text.length) : LineEnd text (lineEnd text pos) := by
  have within := stretch_le text (· != '\n') inside
  rw [lineEnd_eq inside]
  cases here : text[pos + stretch (· != '\n') text pos]? with
  | none =>
    have beyond := List.getElem?_eq_none_iff.mp here
    exact .inl (by omega)
  | some c =>
    have stops := stretch_stops here
    have newline : c = '\n' := by simpa using stops
    exact .inr (newline ▸ here)

/-! ### The rest of a line -/

theorem space_newline : Text.isSpace '\n' = true := by decide

theorem run_linePattern_nil (here : ∀ c, text[pos]? = some c → c = '\n') : run text linePattern pos = [] := by
  have none_ : stretch (· != '\n') text pos = 0 := by
    refine stretch_zero fun accepted => ?_
    obtain ⟨c, found, other⟩ := accepted_letter accepted
    rw [here c found] at other
    exact absurd other (by decide)
  rw [linePattern, run_group_many_seq, none_]
  rfl

theorem matchAt_linePattern {c : Char} (here : text[pos]? = some c) (other : c ≠ '\n') :
    matchAt text linePattern pos = some ⟨lineEnd text pos, [(pos, lineEnd text pos)]⟩ := by
  obtain ⟨inside, _⟩ := List.getElem?_eq_some_iff.mp here
  have accepted : text[pos]?.any (· != '\n') = true := by rw [here]; simpa using other
  have ends := lineEnd_isEnd (Nat.le_of_lt inside)
  rw [lineEnd_eq (Nat.le_of_lt inside)] at ends ⊢
  have longest : (run text .lineEnd (pos + stretch (· != '\n') text pos)).map
      (fun o => (⟨o.stop, (pos, pos + stretch (· != '\n') text pos) :: o.groups⟩ : Outcome)) =
        [⟨pos + stretch (· != '\n') text pos, [(pos, pos + stretch (· != '\n') text pos)]⟩] := by
    rw [run, if_pos ends]
    rfl
  rw [matchAt, linePattern, run_group_many_seq, Option.elim_none, head_longest, longest]
  · rfl
  · rw [stretch_succ accepted]
    omega
  · rw [longest]
    exact List.cons_ne_nil _ _

theorem run_tailPattern (pos : Nat) : run text tailPattern pos =
    (lengths 1 (stretch Text.isSpace text pos)).flatMap fun k => run text linePattern (pos + k) := by
  rw [tailPattern, run_many_seq, Option.elim_none]

/-- At the end of a text the last letter of the run that is no newline begins the line. -/
theorem back_head (j : Nat) (inside : pos + j < text.length) :
    ((lengths 1 j).flatMap fun k => run text linePattern (pos + k)).head? =
      if backOverNewlines text pos (pos + j) = pos then none
      else some ⟨lineEnd text (backOverNewlines text pos (pos + j)), [(backOverNewlines text pos (pos + j), lineEnd text (backOverNewlines text pos (pos + j)))]⟩ := by
  induction j with
  | zero =>
    have stay : backOverNewlines text pos pos = pos := by
      cases pos with
      | zero => rfl
      | succ p => exact if_neg fun both => Nat.lt_irrefl _ both.1
    rw [Nat.add_zero, stay, if_pos rfl]
    rfl
  | succ j ih =>
    have here : text[pos + (j + 1)]? = some text[pos + (j + 1)] := List.getElem?_eq_getElem inside
    by_cases newline : text[pos + (j + 1)] = '\n'
    · have step : backOverNewlines text pos (pos + (j + 1)) = backOverNewlines text pos (pos + j) :=
        if_pos ⟨Nat.lt_succ_of_le (Nat.le_add_right _ _), newline ▸ here⟩
      have fails : run text linePattern (pos + (j + 1)) = [] :=
        run_linePattern_nil fun c found => by rw [← Option.some.inj (here.symm.trans found), newline]
      rw [@head_shorter _ 1 j (fun k => run text linePattern (pos + k)) fails, step]
      exact ih (by omega)
    · have stay : backOverNewlines text pos (pos + (j + 1)) = pos + (j + 1) :=
        if_neg fun both => newline (Option.some.inj (here.symm.trans both.2))
      have succeeds := matchAt_linePattern here newline
      have some_ : run text linePattern (pos + (j + 1)) ≠ [] := by
        intro empty
        rw [matchAt, empty] at succeeds
        exact Option.some_ne_none _ succeeds.symm
      rw [@head_longest _ 1 (j + 1) (fun k => run text linePattern (pos + k)) (by omega) some_, stay, if_neg (by omega)]
      exact succeeds

/-- `_tail_after_marker` is what `\s+(.+)$` matches. -/
theorem matchAt_tailPattern (inside : pos ≤ text.length) :
    matchAt text tailPattern pos = (tailAfterMarker text pos).map fun tail => ⟨tail.2, [(tail.1, tail.2)]⟩ := by
  have within := stretch_le text Text.isSpace inside
  rw [matchAt, run_tailPattern, tailAfterMarker, passOver_whole Text.isSpace inside]
  dsimp only
  cases count : stretch Text.isSpace text pos with
  | zero =>
    rw [if_pos (Nat.add_zero pos)]
    rfl
  | succ m =>
    rw [count] at within
    rw [if_neg (by omega)]
    split
    · rename_i before
      have here : text[pos + (m + 1)]? = some text[pos + (m + 1)] := List.getElem?_eq_getElem before
      have refused := @stretch_stops text pos Text.isSpace _ (by rw [count]; exact here)
      have other : text[pos + (m + 1)] ≠ '\n' := by
        intro newline
        rw [newline, space_newline] at refused
        exact Bool.noConfusion refused
      have succeeds := matchAt_linePattern here other
      have some_ : run text linePattern (pos + (m + 1)) ≠ [] := by
        intro empty
        rw [matchAt, empty] at succeeds
        exact Option.some_ne_none _ succeeds.symm
      rw [@head_longest _ 1 (m + 1) (fun k => run text linePattern (pos + k)) (by omega) some_]
      exact succeeds
    · have last : pos + (m + 1) = text.length := by omega
      have beyond : text[pos + (m + 1)]? = none := List.getElem?_eq_none_iff.mpr (Nat.le_of_eq last.symm)
      have fails : run text linePattern (pos + (m + 1)) = [] :=
        run_linePattern_nil fun c found => by rw [beyond] at found; exact (Option.some_ne_none _ found.symm).elim
      have back : pos + (m + 1) - 1 = pos + m := by omega
      rw [@head_shorter _ 1 m (fun k => run text linePattern (pos + k)) fails, back_head m (by omega), back]
      split <;> rfl

/-! ### Markers -/

theorem tailAfterMarker_none (refused : ¬ text[pos]?.any Text.isSpace) : tailAfterMarker text pos = none := by
  rw [tailAfterMarker, passOver_stop fun both => refused both.2]
  exact if_pos rfl

theorem run_tailPattern_nil (refused : ¬ text[pos]?.any Text.isSpace) : run text tailPattern pos = [] := by
  rw [run_tailPattern, stretch_zero refused]
  rfl

theorem backOverNewlines_le (text : List Char) (pos k : Nat) (above : pos ≤ k) : pos ≤ backOverNewlines text pos k := by
  induction k with
  | zero => exact above
  | succ k ih =>
    unfold backOverNewlines
    split
    · rename_i both
      exact ih (Nat.le_of_lt_succ both.1)
    · exact above

theorem lineEnd_le (inside : pos ≤ text.length) : pos ≤ lineEnd text pos := by
  rw [lineEnd_eq inside]
  exact Nat.le_add_right _ _

theorem backOverNewlines_at_most (text : List Char) (pos k : Nat) : backOverNewlines text pos k ≤ k := by
  induction k with
  | zero => exact Nat.le_refl _
  | succ k ih =>
    unfold backOverNewlines
    split
    · exact Nat.le_succ_of_le ih
    · exact Nat.le_refl _

/-- What follows a marker ends behind it. -/
theorem tailAfterMarker_forward (inside : pos ≤ text.length) {tail : Nat × Nat} (found : tailAfterMarker text pos = some tail) :
    pos < tail.2 := by
  have within := stretch_le text Text.isSpace inside
  rw [tailAfterMarker, passOver_whole Text.isSpace inside] at found
  dsimp only at found
  split at found
  · exact (Option.some_ne_none _ found.symm).elim
  · split at found
    · obtain rfl := Option.some.inj found
      have line := @lineEnd_le text (pos + stretch Text.isSpace text pos) within
      show pos < lineEnd text _
      omega
    · split at found
      · exact (Option.some_ne_none _ found.symm).elim
      · obtain rfl := Option.some.inj found
        have least := backOverNewlines_le text pos (pos + stretch Text.isSpace text pos - 1) (by omega)
        have most := backOverNewlines_at_most text pos (pos + stretch Text.isSpace text pos - 1)
        have line := @lineEnd_le text _ (Nat.le_trans most (by omega))
        show pos < lineEnd text _
        omega

/-- `_atx_header_at` is what the header pattern matches at a line start. -/
theorem matchAt_headerPattern (start : LineStart text pos) (inside : pos ≤ text.length) :
    (matchAt text headerPattern pos).map (fun o => (o.groups.map fun g => slice text g.1 g.2, o.stop)) =
      (atxHeaderAt text pos).map fun hit => ([hit.1.1, hit.1.2], hit.2) := by
  have within := stretch_le text (· == '#') inside
  have count : passOver (· == '#') text (min text.length (pos + 6)) pos = pos + min (stretch (· == '#') text pos) 6 := by
    rw [passOver_eq _ (Nat.le_min.mpr ⟨inside, Nat.le_add_right _ _⟩)]
    omega
  have others : ∀ k < min (stretch (· == '#') text pos) 6,
      (run text tailPattern (pos + k)).map (fun o => (⟨o.stop, (pos, pos + k) :: o.groups⟩ : Outcome)) = [] := by
    intro k few
    obtain ⟨c, here, hash⟩ := stretch_accepts (Nat.lt_of_lt_of_le few (Nat.min_le_left _ _))
    rw [run_tailPattern_nil, List.map_nil]
    rw [here, eq_of_beq hash]
    decide
  rw [matchAt, headerPattern, run_lineStart start, run_group_many_seq, Option.elim_some, flatMap_longest others, atxHeaderAt, count]
  dsimp only
  by_cases bare : min (stretch (· == '#') text pos) 6 = 0
  · rw [bare, if_neg (by omega), Nat.add_zero, if_pos rfl]
    rfl
  · rw [if_pos (by omega), if_neg (by omega), List.head?_map]
    have tail := @matchAt_tailPattern text (pos + min (stretch (· == '#') text pos) 6) (by omega)
    rw [matchAt] at tail
    rw [tail]
    cases tailAfterMarker text (pos + min (stretch (· == '#') text pos) 6) <;> rfl

/-- A letter of a marker is no whitespace, and those of the three kinds differ. -/
def markerLetter (c : Char) : Bool := !Text.isSpace c && !isBullet c && c != '.'

theorem decimalZeros_letters : ∀ z ∈ decimalZeros, ∀ d < 10, markerLetter (Char.ofNat (z + d)) = true := by decide

theorem decimal_letter {c : Char} (decimal : isDecimal c = true) : markerLetter c = true := by
  obtain ⟨z, listed, within⟩ := List.any_eq_true.mp decimal
  rw [Bool.and_eq_true, decide_eq_true_eq, decide_eq_true_eq] at within
  have letter := decimalZeros_letters z listed (c.toNat - z) (by omega)
  rwa [Nat.add_sub_of_le within.1, Char.ofNat_toNat] at letter

theorem bullet_spaceless {c : Char} (bullet : isBullet c = true) : Text.isSpace c = false := by
  simp only [isBullet, Bool.or_eq_true, beq_iff_eq] at bullet
  rcases bullet with (rfl | rfl) | rfl <;> decide

theorem markerLetter_iff {c : Char} : markerLetter c = true ↔ Text.isSpace c = false ∧ isBullet c = false ∧ c ≠ '.' := by
  simp [markerLetter, and_assoc]

theorem not_decimal {c : Char} (other : Text.isSpace c = true ∨ isBullet c = true) : isDecimal c = false := by
  by_contra decimal
  obtain ⟨space, bullet, _⟩ := markerLetter_iff.mp (decimal_letter (Bool.not_eq_false _ ▸ decimal))
  rcases other with h | h
  · rw [space] at h
    exact Bool.noConfusion h
  · rw [bullet] at h
    exact Bool.noConfusion h

theorem markerEnd_space {c : Char} (here : text[pos]? = some c) (space : Text.isSpace c = true) : markerEnd text pos = none := by
  have bullet : isBullet c = false := by
    by_contra some_
    rw [bullet_spaceless (Bool.not_eq_false _ ▸ some_)] at space
    exact Bool.noConfusion space
  have decimal := not_decimal (.inl space)
  have stay : passOver isDecimal text text.length pos = pos := passOver_stop fun both => by
    rw [here, Option.any_some, decimal] at both
    exact Bool.noConfusion both.2
  rw [markerEnd, here, Option.any_some, bullet, if_neg Bool.false_ne_true, orderedMarkerEnd, stay]
  exact if_pos (.inl rfl)

theorem markerEnd_bounds {q : Nat} (inside : pos ≤ text.length) (found : markerEnd text pos = some q) : pos < q ∧ q ≤ text.length := by
  unfold markerEnd at found
  split at found
  · rename_i bullet
    obtain ⟨c, here, _⟩ := accepted_letter bullet
    obtain ⟨within, _⟩ := List.getElem?_eq_some_iff.mp here
    obtain rfl := Option.some.inj found
    omega
  · rw [orderedMarkerEnd, passOver_whole _ inside] at found
    split at found
    · exact (Option.some_ne_none _ found.symm).elim
    · rename_i digits
      obtain ⟨_, dot⟩ := not_or.mp digits
      obtain ⟨within, _⟩ := List.getElem?_eq_some_iff.mp (Classical.not_not.mp dot)
      obtain rfl := Option.some.inj found
      omega

/-- `[-*+]|\\d+\\.` matches in one way at most. -/
theorem run_markerPattern (inside : pos ≤ text.length) : run text markerPattern pos = (markerEnd text pos).toList.map (⟨·, []⟩) := by
  rw [markerPattern, run, run_many_seq, Option.elim_none, markerEnd]
  split
  · rename_i bullet
    obtain ⟨c, here, is⟩ := accepted_letter bullet
    have none_ : stretch isDecimal text pos = 0 := stretch_zero (by rw [here, Option.any_some, not_decimal (.inr is)]; exact Bool.false_ne_true)
    rw [run, if_pos bullet, none_]
    rfl
  · rename_i plain
    have others : ∀ k < stretch isDecimal text pos, run text (.one (· == '.')) (pos + k) = [] := by
      intro k few
      obtain ⟨c, here, decimal⟩ := stretch_accepts few
      obtain ⟨_, _, other⟩ := markerLetter_iff.mp (decimal_letter decimal)
      rw [run, here]
      exact if_neg (by simpa using other)
    rw [run, if_neg plain, List.nil_append, flatMap_longest others, orderedMarkerEnd, passOver_whole _ inside]
    by_cases bare : stretch isDecimal text pos = 0
    · rw [bare, if_neg (by omega), if_pos (.inl (Nat.add_zero pos))]
      rfl
    · rw [if_pos (by omega), run]
      by_cases dot : text[pos + stretch isDecimal text pos]? = some '.'
      · rw [dot, if_pos (by rfl), if_neg fun either => either.elim (fun same => bare (by omega)) fun other => other rfl]
        rfl
      · have lacks : ¬ text[pos + stretch isDecimal text pos]?.any (· == '.') := by
          intro found
          obtain ⟨c, here, same⟩ := accepted_letter found
          exact dot (by rw [here, eq_of_beq same])
        rw [if_neg lacks, if_pos (Or.inr dot)]
        rfl

/-- The text of an item whose marker begins at a place. -/
def itemFrom (text : List Char) (q : Nat) : Option (String × Nat) :=
  (markerEnd text q).bind fun q => (tailAfterMarker text q).map fun (g1, stop) => (slice text g1 stop, stop)

theorem run_marked (inside : pos ≤ text.length) :
    run text (.seq markerPattern tailPattern) pos = (markerEnd text pos).toList.flatMap fun q => run text tailPattern q := by
  rw [run, run_markerPattern inside, List.flatMap_map]
  exact List.flatMap_congr fun q _ => List.map_id' _

theorem matchAt_marked (inside : pos ≤ text.length) :
    (matchAt text (.seq markerPattern tailPattern) pos).map (fun o => (o.groups.map fun g => slice text g.1 g.2, o.stop)) =
      (itemFrom text pos).map fun hit => ([hit.1], hit.2) := by
  rw [matchAt, run_marked inside, itemFrom]
  cases found : markerEnd text pos with
  | none => rfl
  | some q =>
    have tail := matchAt_tailPattern (markerEnd_bounds inside found).2
    rw [Option.toList_some, List.flatMap_singleton]
    rw [matchAt] at tail
    rw [tail, Option.bind_some]
    cases tailAfterMarker text q <;> rfl

/-- The list item pattern first passes over all whitespace, over line ends too. -/
theorem matchAt_listItemPattern (start : LineStart text pos) (inside : pos ≤ text.length) :
    matchAt text listItemPattern pos = matchAt text (.seq markerPattern tailPattern) (pos + stretch Text.isSpace text pos) := by
  have within := stretch_le text Text.isSpace inside
  have others : ∀ k < stretch Text.isSpace text pos, run text (.seq markerPattern tailPattern) (pos + k) = [] := by
    intro k few
    obtain ⟨c, here, space⟩ := stretch_accepts few
    rw [run_marked (by omega), markerEnd_space here space]
    rfl
  rw [matchAt, listItemPattern, run_lineStart start, run_many_seq, Option.elim_none, flatMap_longest others, if_pos (Nat.zero_le _)]
  rfl

/-! ### The scan -/

section Scan

variable {ρ : Type} {r : Regex} {hitAt : Nat → Option (ρ × Nat)} {fields : ρ → List String}

/-- A hit of the scanner and the match of a pattern, compared by their texts and ends. -/
def SameHit (text : List Char) (r : Regex) (fields : ρ → List String) (hit : Option (ρ × Nat)) (pos : Nat) : Prop :=
  (matchAt text r pos).map (fun o => (o.groups.map fun g => slice text g.1 g.2, o.stop)) = hit.map fun h => (fields h.1, h.2)

/-- At a line start the scanner hits what the pattern matches, or it passes on to the next line start, where the pattern matches the
same. -/
structure Scans (text : List Char) (r : Regex) (hitAt : Nat → Option (ρ × Nat)) (fields : ρ → List String) : Prop where
  advances : ∀ pos o, pos ≤ text.length → matchAt text (.seq .lineStart r) pos = some o → pos < o.stop
  agrees : ∀ pos, pos ≤ text.length → LineStart text pos → SameHit text (.seq .lineStart r) fields (hitAt pos) pos ∨
    (hitAt pos = none ∧ ∃ later, pos < later ∧ later ≤ text.length ∧ (∀ i, pos < i → i < later → ¬ LineStart text i) ∧
      matchAt text (.seq .lineStart r) pos = matchAt text (.seq .lineStart r) later)

theorem findNewline_some {nl : Nat} (found : findNewline text pos = some nl) :
    pos ≤ nl ∧ text[nl]? = some '\n' ∧ ∀ i, pos ≤ i → i < nl → text[i]? ≠ some '\n' := by
  obtain ⟨j, first, rfl⟩ := Option.map_eq_some_iff.mp found
  obtain ⟨inside, newline, before⟩ := List.findIdx?_eq_some_iff_getElem.mp first
  refine ⟨Nat.le_add_right _ _, ?_, fun i least less same => ?_⟩
  · rw [← List.getElem?_drop, List.getElem?_eq_getElem inside, eq_of_beq newline]
  · have other := before (i - pos) (by omega)
    have here : (text.drop pos)[i - pos]? = some '\n' := by rw [List.getElem?_drop, Nat.add_sub_of_le least, same]
    obtain ⟨_, letter⟩ := List.getElem?_eq_some_iff.mp here
    rw [letter] at other
    exact other rfl

theorem findNewline_none (none_ : findNewline text pos = none) {i : Nat} (least : pos ≤ i) : text[i]? ≠ some '\n' := by
  intro same
  have missing := List.findIdx?_eq_none_iff.mp (Option.map_eq_none_iff.mp none_)
  have here : (text.drop pos)[i - pos]? = some '\n' := by rw [List.getElem?_drop, Nat.add_sub_of_le least, same]
  have other := missing '\n' (List.mem_of_getElem? here)
  exact Bool.noConfusion other

theorem scan_over (over_ : text.length < pos) : scanLineMatches text hitAt pos = [] := by
  rw [scanLineMatches, if_neg (Nat.not_le.mpr over_)]

/-- Between line starts the scan and the search both go on to the next one. -/
theorem findallFrom_lineStart (inside : pos ≤ text.length) :
    match lineStartFrom text pos with
    | none => findallFrom text (.seq .lineStart r) pos false = []
    | some start => LineStart text start ∧ start ≤ text.length ∧
        findallFrom text (.seq .lineStart r) pos false = findallFrom text (.seq .lineStart r) start false := by
  unfold lineStartFrom
  by_cases inner : pos ≠ 0 ∧ text[pos - 1]? ≠ some '\n'
  · have notHere : ¬ LineStart text pos := fun either => either.elim inner.1 inner.2
    rw [if_pos inner]
    cases found : findNewline text pos with
    | none =>
      show findallFrom text _ pos false = []
      have skip := @findallFrom_skip text (text.length + 1) r pos (Nat.le_succ_of_le inside) fun i least _ start => by
        rcases Nat.eq_or_lt_of_le least with rfl | later
        · exact notHere start
        · exact start.elim (fun zero => by omega) (findNewline_none found (by omega))
      rw [skip]
      exact findallFrom_over (Nat.lt_succ_self _)
    | some nl =>
      obtain ⟨least, newline, before⟩ := findNewline_some found
      obtain ⟨within, _⟩ := List.getElem?_eq_some_iff.mp newline
      refine ⟨.inr newline, within, ?_⟩
      refine findallFrom_skip (Nat.le_succ_of_le least) fun i from_ less start => ?_
      have less : i < nl + 1 := less
      rcases Nat.eq_or_lt_of_le from_ with rfl | later
      · exact notHere start
      · exact start.elim (fun zero => by omega) (before (i - 1) (by omega) (by omega))
  · rw [if_neg inner]
    refine ⟨?_, inside, rfl⟩
    by_cases first : pos = 0
    · exact .inl first
    · exact .inr (by_contra fun other => inner ⟨first, other⟩)

/-- A scanner that agrees with an anchored pattern returns what `re.findall` returns. -/
theorem scan_findall (scans : Scans text r hitAt fields) (pos : Nat) :
    (scanLineMatches text hitAt pos).map fields = findallFrom text (.seq .lineStart r) pos false := by
  induction left : text.length + 1 - pos using Nat.strong_induction_on generalizing pos with
  | h left ih =>
    by_cases inside : pos ≤ text.length
    · have next := @findallFrom_lineStart text pos r inside
      rw [scanLineMatches, if_pos inside]
      cases found : lineStartFrom text pos with
      | none =>
        rw [found] at next
        exact next.symm
      | some start =>
        rw [found] at next
        obtain ⟨isStart, within, same⟩ := next
        have forward := lineStartFrom_le found
        rw [same]
        dsimp only
        rcases scans.agrees start within isStart with hit | ⟨missed, later, after, bounded, between, matches_⟩
        · cases scanned : hitAt start with
          | none =>
            have fails : matchAt text (.seq .lineStart r) start = none := by
              rw [SameHit, scanned] at hit
              exact Option.map_eq_none_iff.mp hit
            rw [findallFrom_none fails]
            exact ih _ (by omega) (start + 1) rfl
          | some h =>
            rw [SameHit, scanned] at hit
            obtain ⟨o, succeeds, eq⟩ := Option.map_eq_some_iff.mp hit
            obtain ⟨texts, ends⟩ := Prod.mk.inj eq
            have advances := scans.advances start o within succeeds
            rw [ends] at advances
            rw [findallFrom_some within succeeds (ends ▸ advances), List.map_cons, if_pos advances, texts, ends]
            exact congrArg _ (ih _ (by omega) h.2 rfl)
        · rw [missed]
          dsimp only
          rw [ih _ (by omega) (start + 1) rfl]
          cases result : matchAt text (.seq .lineStart r) start with
          | none => exact (findallFrom_none result).symm
          | some o =>
            have there := matches_.symm.trans result
            rw [findallFrom_some within result (scans.advances start o within result),
              @findallFrom_skip text later r (start + 1) after fun i least less => between i least less,
              findallFrom_some bounded there (scans.advances later o bounded there)]
    · have over_ := Nat.lt_of_not_le inside
      rw [scan_over over_, findallFrom_over over_]
      rfl

end Scan

theorem passOver_le (accepts : Char → Bool) (text : List Char) {bound : Nat} (below : pos ≤ bound) :
    pos ≤ passOver accepts text bound pos ∧ passOver accepts text bound pos ≤ bound := by
  rw [passOver_eq accepts below]
  omega

theorem matchAt_lineStart {o : Outcome} {r : Regex} (succeeds : matchAt text (.seq .lineStart r) pos = some o) : LineStart text pos := by
  by_contra inner
  rw [matchAt, run_anchored inner] at succeeds
  exact Option.some_ne_none _ succeeds.symm

theorem headers_scan (text : List Char) :
    Scans text (.seq (.group (.many 1 (some 6) (· == '#'))) tailPattern) (atxHeaderAt text) fun h => [h.1, h.2] where
  advances pos o inside succeeds := by
    have same := matchAt_headerPattern (matchAt_lineStart succeeds) inside
    rw [headerPattern, succeeds, Option.map_some] at same
    obtain ⟨hit, scanned, eq⟩ := Option.map_eq_some_iff.mp same.symm
    rw [← (Prod.mk.inj eq).2]
    rw [atxHeaderAt] at scanned
    dsimp only at scanned
    split at scanned
    · exact (Option.some_ne_none _ scanned.symm).elim
    · obtain ⟨tail, found, rfl⟩ := Option.map_eq_some_iff.mp scanned
      obtain ⟨least, most⟩ := passOver_le (· == '#') text (Nat.le_min.mpr ⟨inside, Nat.le_add_right pos 6⟩)
      exact Nat.lt_of_le_of_lt least (tailAfterMarker_forward (Nat.le_trans most (Nat.min_le_left _ _)) found)
  agrees pos inside start := .inl (matchAt_headerPattern start inside)

theorem itemFrom_forward (inside : pos ≤ text.length) {hit : String × Nat} (found : itemFrom text pos = some hit) : pos < hit.2 := by
  obtain ⟨q, marker, rest⟩ := Option.bind_eq_some_iff.mp found
  obtain ⟨tail, behind, rfl⟩ := Option.map_eq_some_iff.mp rest
  obtain ⟨before, within⟩ := markerEnd_bounds inside marker
  exact Nat.lt_trans before (tailAfterMarker_forward within behind)

/-- The whitespace that the scanner passes over ends with all whitespace, or at a line end. -/
theorem space_stretch (text : List Char) (pos : Nat) :
    stretch (fun c => Text.isSpace c && c != '\n') text pos = stretch Text.isSpace text pos ∨
      (stretch (fun c => Text.isSpace c && c != '\n') text pos < stretch Text.isSpace text pos ∧
        text[pos + stretch (fun c => Text.isSpace c && c != '\n') text pos]? = some '\n') := by
  rcases Nat.lt_trichotomy (stretch (fun c => Text.isSpace c && c != '\n') text pos) (stretch Text.isSpace text pos) with
    less | same | more
  · obtain ⟨c, here, space⟩ := stretch_accepts less
    have stops := stretch_stops here
    have newline : c = '\n' := by simpa [space] using stops
    exact .inr ⟨less, newline ▸ here⟩
  · exact .inl same
  · obtain ⟨c, here, plain⟩ := stretch_accepts more
    have stops := stretch_stops here
    rw [stops] at plain
    exact Bool.noConfusion plain

theorem listItems_scan (text : List Char) :
    Scans text (.seq (.many 0 none Text.isSpace) (.seq markerPattern tailPattern)) (listItemAt text) fun h => [h] where
  advances pos o inside succeeds := by
    have within := stretch_le text Text.isSpace inside
    have same := @matchAt_marked text (pos + stretch Text.isSpace text pos) within
    have whole := matchAt_listItemPattern (matchAt_lineStart succeeds) inside
    rw [listItemPattern, succeeds] at whole
    rw [← whole, Option.map_some] at same
    obtain ⟨hit, found, eq⟩ := Option.map_eq_some_iff.mp same.symm
    rw [← (Prod.mk.inj eq).2]
    exact Nat.lt_of_le_of_lt (Nat.le_add_right _ _) (itemFrom_forward within found)
  agrees pos inside start := by
    have within := stretch_le text Text.isSpace inside
    have whole := matchAt_listItemPattern start inside
    have hit : listItemAt text pos = itemFrom text (pos + stretch (fun c => Text.isSpace c && c != '\n') text pos) := by
      rw [listItemAt, passOver_whole _ inside]
      rfl
    rcases space_stretch text pos with same | ⟨less, newline⟩
    · rw [SameHit, ← listItemPattern, whole, hit, same]
      exact .inl (matchAt_marked within)
    · refine .inr ⟨?_, pos + stretch (fun c => Text.isSpace c && c != '\n') text pos + 1, by omega, by omega, fun i after before isStart => ?_, ?_⟩
      · rw [hit, itemFrom, markerEnd_space newline space_newline]
        rfl
      · rcases isStart with zero | newline'
        · omega
        · obtain ⟨c, here, plain⟩ := @stretch_accepts text pos (fun c => Text.isSpace c && c != '\n') (i - 1 - pos) (by omega)
          rw [Nat.add_sub_of_le (by omega), newline'] at here
          rw [← Option.some.inj here] at plain
          exact Bool.noConfusion plain
      · have next : LineStart text (pos + stretch (fun c => Text.isSpace c && c != '\n') text pos + 1) := .inr newline
        have onward := @stretch_from text pos Text.isSpace (stretch (fun c => Text.isSpace c && c != '\n') text pos + 1) less
        rw [← listItemPattern, whole, matchAt_listItemPattern next (by omega), Nat.add_assoc pos _ 1, Nat.add_assoc, ← onward]

/-- For every text the two scanners return what `re.findall` returns for the patterns. -/
theorem scanners_findall (text : String) :
    (atxHeaders text).map (fun h => [h.1, h.2]) = findall text.toList headerPattern ∧
      (listItemTexts text).map (fun item => [item]) = findall text.toList listItemPattern :=
  ⟨scan_findall (headers_scan text.toList) 0, scan_findall (listItems_scan text.toList) 0⟩

end SaltMdb
