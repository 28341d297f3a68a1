import Mathlib.Data.List.Basic

/-! A search for whole words, and what a character that belongs to no word does to it. -/

namespace Keywords

variable {α : Type} (isWord : α → Bool) (same : α → α → Bool)

/-- `\b` between what is before and what is behind. -/
def boundary (before behind : Option α) : Bool := before.any isWord != behind.any isWord

/-- The word is read, and ends there. -/
def matchesWord : List α → Option α → List α → Bool
  | [], before, cs => boundary isWord before cs.head?
  | _ :: _, _, [] => false
  | x :: xs, _, c :: cs => same c x && matchesWord xs (some c) cs

/-- `\b(word|…)\b` somewhere in the text. -/
def search (words : List (List α)) : Option α → List α → Bool
  | before, [] => boundary isWord before none && words.any fun word => matchesWord isWord same word before []
  | before, c :: cs =>
    (boundary isWord before (some c) && words.any fun word => matchesWord isWord same word before (c :: cs)) || search words (some c) cs

variable {isWord same} {words : List (List α)} {before : Option α} {sep : α}

theorem boundary_head (apart : isWord sep = false) (l rest : List α) :
    boundary isWord before (l ++ sep :: rest).head? = boundary isWord before l.head? := by
  cases l with
  | nil => simp [boundary, apart]
  | cons c l => rfl

theorem matchesWord_line (apart : isWord sep = false) {word : List α} (free : ∀ x ∈ word, same sep x = false) (l rest : List α) :
    matchesWord isWord same word before (l ++ sep :: rest) = matchesWord isWord same word before l := by
  induction word generalizing before l with
  | nil =>
    cases l with
    | nil => exact boundary_head apart [] rest
    | cons c l => exact boundary_head apart (c :: l) rest
  | cons x xs ih =>
    cases l with
    | nil =>
      show (same sep x && _) = false
      rw [free x List.mem_cons_self, Bool.false_and]
    | cons c l =>
      have later := @ih (some c) (fun y member => free y (List.mem_cons_of_mem x member)) l
      show (same c x && matchesWord isWord same xs (some c) (l ++ sep :: rest)) = (same c x && matchesWord isWord same xs (some c) l)
      rw [later]

theorem search_before {other : Option α} (alike : before.any isWord = other.any isWord) (cs : List α) :
    search isWord same words before cs = search isWord same words other cs := by
  have edge : ∀ behind, boundary isWord before behind = boundary isWord other behind := by
    intro behind
    unfold boundary
    rw [alike]
  have word_ : ∀ word, matchesWord isWord same word before cs = matchesWord isWord same word other cs := by
    intro word
    cases word with
    | nil => cases cs <;> exact edge _
    | cons x xs => cases cs <;> rfl
  cases cs with
  | nil =>
    unfold search
    simp only [edge, word_]
  | cons c cs =>
    unfold search
    simp only [edge, word_]

theorem search_nil : search isWord same words none [] = false := rfl

theorem search_cons (c : α) (cs : List α) : search isWord same words before (c :: cs) =
    ((boundary isWord before (some c) && words.any fun word => matchesWord isWord same word before (c :: cs)) ||
      search isWord same words (some c) cs) := rfl

/-- No word reaches over the character. -/
theorem search_line (apart : isWord sep = false) (free : ∀ word ∈ words, ∀ x ∈ word, same sep x = false) (l rest : List α) :
    search isWord same words before (l ++ sep :: rest) =
      (search isWord same words before l || search isWord same words none rest) := by
  have within : ∀ (b : Option α) (l : List α), (words.any fun word => matchesWord isWord same word b (l ++ sep :: rest)) =
      words.any fun word => matchesWord isWord same word b l := by
    intro b l
    rw [Bool.eq_iff_iff, List.any_eq_true, List.any_eq_true]
    refine exists_congr fun word => and_congr_right fun listed => ?_
    rw [matchesWord_line apart (free word listed)]
  induction l generalizing before with
  | nil =>
    have onward : search isWord same words (some sep) rest = search isWord same words none rest :=
      search_before (by simp [apart]) rest
    have edge : boundary isWord before (some sep) = boundary isWord before none := boundary_head apart [] rest
    have here := within before []
    rw [List.nil_append] at here ⊢
    rw [search_cons, onward, edge, here]
    rfl
  | cons c l ih =>
    have here := within before (c :: l)
    rw [List.cons_append] at here ⊢
    rw [search_cons, search_cons, here, ih, Bool.or_assoc]

end Keywords
