import Mathlib.Data.List.Infix

/-! How often a tag occurs in a text that is put together from parts. -/

namespace Occurrences

variable {α : Type} [DecidableEq α] {tag : List α} {sep : α}

/-- The number of places at which the tag starts. -/
def count (tag : List α) : List α → Nat
  | [] => 0
  | c :: cs => (if tag <+: c :: cs then 1 else 0) + count tag cs

theorem count_eq_zero (nonempty : tag ≠ []) {cs : List α} : count tag cs = 0 ↔ ¬ tag <:+: cs := by
  induction cs with
  | nil =>
    rw [List.infix_nil]
    exact iff_of_true rfl nonempty
  | cons c cs ih =>
    rw [count, List.infix_cons_iff, Nat.add_eq_zero_iff, ih, not_or]
    refine and_congr_left fun _ => ?_
    split
    · rename_i starts
      exact iff_of_false Nat.one_ne_zero (not_not.mpr starts)
    · rename_i elsewhere
      exact iff_of_true rfl elsewhere

theorem count_of_short {cs : List α} (short : cs.length < tag.length) : count tag cs = 0 := by
  induction cs with
  | nil => rfl
  | cons c cs ih =>
    rw [count, if_neg fun starts => absurd starts.length_le (Nat.not_le.mpr short), ih (Nat.lt_of_succ_lt short)]

omit [DecidableEq α] in
/-- A tag that starts before a character it does not hold ends before it. -/
theorem prefix_before (free : sep ∉ tag) {l r : List α} : tag <+: l ++ sep :: r ↔ tag <+: l := by
  refine ⟨fun starts => ?_, fun starts => starts.trans (List.prefix_append l _)⟩
  rcases Nat.le_total tag.length l.length with fits | long
  · exact List.prefix_of_prefix_length_le starts (List.prefix_append l _) fits
  · have inside := List.prefix_of_prefix_length_le (List.prefix_append l (sep :: r)) starts long
    obtain ⟨more, rfl⟩ := inside
    rw [List.prefix_append_right_inj] at starts
    cases more with
    | nil => simp
    | cons c more =>
      obtain ⟨rfl, _⟩ := List.cons_prefix_cons.mp starts
      simp at free

/-- A character that the tag does not hold keeps what is before it apart from what is behind. -/
theorem count_append_cons (nonempty : tag ≠ []) (free : sep ∉ tag) (l r : List α) :
    count tag (l ++ sep :: r) = count tag l + count tag r := by
  induction l with
  | nil =>
    have elsewhere : ¬ tag <+: sep :: r := by
      intro starts
      rw [show sep :: r = [] ++ sep :: r from rfl, prefix_before free, List.prefix_nil] at starts
      exact nonempty starts
    rw [List.nil_append]
    show (if tag <+: sep :: r then 1 else 0) + count tag r = 0 + count tag r
    rw [if_neg elsewhere]
  | cons c l ih =>
    have starts : tag <+: c :: (l ++ sep :: r) ↔ tag <+: c :: l := prefix_before (l := c :: l) free
    rw [List.cons_append, count, count, ih, Nat.add_assoc]
    simp only [starts]

theorem count_cons (nonempty : tag ≠ []) (free : sep ∉ tag) (r : List α) : count tag (sep :: r) = count tag r := by
  have split := count_append_cons nonempty free [] r
  rwa [List.nil_append, show count tag [] = 0 from rfl, Nat.zero_add] at split

/-- Characters of which the tag holds none count for nothing. -/
theorem count_append_free (nonempty : tag ≠ []) {l : List α} (free : ∀ c ∈ l, c ∉ tag) (r : List α) :
    count tag (l ++ r) = count tag r := by
  induction l with
  | nil => rfl
  | cons c l ih =>
    rw [List.cons_append, count_cons nonempty (free c List.mem_cons_self), ih fun d member => free d (List.mem_cons_of_mem c member)]

/-- The parts are counted apart where the first ends with a character that the tag does not hold. -/
theorem count_append_of_last (nonempty : tag ≠ []) (free : sep ∉ tag) {l : List α} (ends : l.getLast? = some sep) (r : List α) :
    count tag (l ++ r) = count tag l + count tag r := by
  obtain ⟨front, rfl⟩ := List.getLast?_eq_some_iff.mp ends
  rw [List.append_assoc, List.singleton_append, count_append_cons nonempty free, count_append_cons nonempty free]
  rfl

theorem count_append_of_head (nonempty : tag ≠ []) (free : sep ∉ tag) {r : List α} (starts : r.head? = some sep) (l : List α) :
    count tag (l ++ r) = count tag l + count tag r := by
  obtain ⟨rest, rfl⟩ := List.head?_eq_some_iff.mp starts
  rw [count_append_cons nonempty free, count_cons nonempty free]

/-! ### Rewritten characters -/

variable {f : α → List α}

omit [DecidableEq α] in
theorem prefix_flatMap (kept : ∀ c ∈ tag, f c = [c]) (other : ∀ c, c ∉ tag → ∃ d rest, f c = d :: rest ∧ ∀ e ∈ d :: rest, e ∉ tag)
    {part : List α} (part_tag : ∀ c ∈ part, c ∈ tag) (cs : List α) : part <+: cs.flatMap f ↔ part <+: cs := by
  induction part generalizing cs with
  | nil => simp
  | cons p part ih =>
    have inTag := part_tag p List.mem_cons_self
    cases cs with
    | nil => simp
    | cons c cs =>
      by_cases held : c ∈ tag
      · rw [List.flatMap_cons, kept c held, List.singleton_append, List.cons_prefix_cons, List.cons_prefix_cons,
          ih (fun d member => part_tag d (List.mem_cons_of_mem p member))]
      · obtain ⟨d, rest, shape, free⟩ := other c held
        rw [List.flatMap_cons, shape, List.cons_append, List.cons_prefix_cons, List.cons_prefix_cons]
        refine iff_of_false ?_ ?_
        · rintro ⟨rfl, _⟩
          exact free p List.mem_cons_self inTag
        · rintro ⟨rfl, _⟩
          exact held inTag

/-- Rewriting the characters that the tag does not hold, by others of this kind, neither makes nor breaks an occurrence. -/
theorem count_flatMap (nonempty : tag ≠ []) (kept : ∀ c ∈ tag, f c = [c])
    (other : ∀ c, c ∉ tag → ∃ d rest, f c = d :: rest ∧ ∀ e ∈ d :: rest, e ∉ tag) (cs : List α) :
    count tag (cs.flatMap f) = count tag cs := by
  induction cs with
  | nil => rfl
  | cons c cs ih =>
    by_cases held : c ∈ tag
    · have starts : tag <+: c :: cs.flatMap f ↔ tag <+: c :: cs := by
        have whole := prefix_flatMap kept other (fun _ member => member) (c :: cs)
        rwa [List.flatMap_cons, kept c held, List.singleton_append] at whole
      rw [List.flatMap_cons, kept c held, List.singleton_append, count, count, ih]
      simp only [starts]
    · obtain ⟨d, rest, shape, free⟩ := other c held
      rw [List.flatMap_cons, shape, count_append_free nonempty free, ih, count_cons nonempty held]

end Occurrences
