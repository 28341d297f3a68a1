import SaltMdb.Library.Occurrences
import SaltMdb.Store.Text
import Mathlib

/-! Tags in texts that are put together from fields and fixed parts, and in texts after a replacement: character by
character where one character is replaced, and without the old text where the new one cannot make it up again. -/

namespace SaltMdb.Text

theorem replaceAll_single (c : Char) (new cs : List Char) {fuel : Nat} (enough : cs.length ≤ fuel) :
    replaceAll [c] new cs fuel = cs.flatMap fun d => if d = c then new else [d] := by
  induction fuel generalizing cs with
  | zero =>
    rw [List.length_eq_zero_iff.mp (Nat.le_zero.mp enough)]
    rfl
  | succ fuel ih =>
    cases cs with
    | nil => rfl
    | cons d cs =>
      have shorter : cs.length ≤ fuel := Nat.le_of_succ_le_succ enough
      have starts : [c].isPrefixOf (d :: cs) = true ↔ d = c := by
        rw [List.isPrefixOf_iff_prefix, List.cons_prefix_cons]
        exact ⟨fun both => both.1.symm, fun same => ⟨same.symm, List.nil_prefix⟩⟩
      unfold replaceAll
      by_cases same : d = c
      · rw [if_pos (starts.mpr same), List.flatMap_cons, if_pos same]
        exact congrArg (new ++ ·) (ih cs shorter)
      · rw [if_neg fun start => same (starts.mp start), List.flatMap_cons, if_neg same, ih cs shorter]
        rfl

theorem replace_single {old : String} {c : Char} (one : old.toList = [c]) (s new : String) :
    (replace s old new).toList = s.toList.flatMap fun d => if d = c then new.toList else [d] := by
  unfold replace
  rw [String.toList_ofList, one]
  exact replaceAll_single c new.toList s.toList (Nat.le_refl _)

/-- A tag that holds neither the character nor any of those it is replaced by occurs as often as before. -/
theorem count_replace_single {tag : List Char} (nonempty : tag ≠ []) {old new : String} {c : Char} (one : old.toList = [c])
    (free : c ∉ tag) (given : new.toList ≠ []) (other : ∀ d ∈ new.toList, d ∉ tag) (s : String) :
    Occurrences.count tag (replace s old new).toList = Occurrences.count tag s.toList := by
  rw [replace_single one]
  refine Occurrences.count_flatMap nonempty (fun d held => ?_) (fun d unheld => ?_) s.toList
  · rw [if_neg]
    rintro rfl
    exact free held
  · by_cases same : d = c
    · obtain ⟨e, rest, shape⟩ := List.exists_cons_of_ne_nil given
      exact ⟨e, rest, by rw [if_pos same, shape], fun x member => other x (by rw [shape]; exact member)⟩
    · refine ⟨d, [], if_neg same, fun x member => ?_⟩
      rw [List.mem_singleton.mp member]
      exact unheld

theorem count_join {tag : List Char} (nonempty : tag ≠ []) {sep : String} {c : Char} (one : sep.toList = [c]) (free : c ∉ tag)
    (parts : List String) :
    Occurrences.count tag (join sep parts).toList = (parts.map fun part => Occurrences.count tag part.toList).sum := by
  induction parts with
  | nil => rfl
  | cons part rest ih =>
    cases rest with
    | nil => simp [join]
    | cons next more =>
      rw [join, String.toList_append, String.toList_append, one, List.append_assoc, List.singleton_append,
        Occurrences.count_append_cons nonempty free, ih]
      rfl

/-! ### Fields between fixed parts -/

variable {tag : List Char} {front lit field : String} {c d : Char}

theorem getLast?_append (ends : lit.toList.getLast? = some d) : (front ++ lit).toList.getLast? = some d := by
  rw [String.toList_append, List.getLast?_append, ends]
  rfl

/-- A field behind a fixed part. -/
theorem count_behind (nonempty : tag ≠ []) (free : d ∉ tag) (ends : lit.toList.getLast? = some d) (none_ : Occurrences.count tag lit.toList = 0) :
    Occurrences.count tag (lit ++ field).toList = Occurrences.count tag field.toList := by
  rw [String.toList_append, Occurrences.count_append_of_last nonempty free ends, none_, Nat.zero_add]

/-- A fixed part at the end. -/
theorem count_before (nonempty : tag ≠ []) (free : c ∉ tag) (starts : lit.toList.head? = some c) (none_ : Occurrences.count tag lit.toList = 0) :
    Occurrences.count tag (front ++ lit).toList = Occurrences.count tag front.toList := by
  rw [String.toList_append, Occurrences.count_append_of_head nonempty free starts, none_, Nat.add_zero]

/-- A fixed part and a field behind what comes before. -/
theorem count_field (nonempty : tag ≠ []) (free : c ∉ tag) (free' : d ∉ tag) (starts : lit.toList.head? = some c)
    (ends : lit.toList.getLast? = some d) (none_ : Occurrences.count tag lit.toList = 0) :
    Occurrences.count tag (front ++ lit ++ field).toList =
      Occurrences.count tag front.toList + Occurrences.count tag field.toList := by
  rw [String.toList_append, Occurrences.count_append_of_last nonempty free' (getLast?_append ends),
    count_before nonempty free starts none_]

/-! ### Without the old text -/

variable {first mark : Char} {old new cs : List Char} {fuel : Nat}

/-- What starts with characters that no new text starts with was there before. -/
theorem prefix_of_replaceAll {part : List Char} (apart : mark ∉ part) (h : part <+: replaceAll (first :: old) (mark :: new) cs fuel) :
    part <+: cs := by
  induction fuel generalizing part cs with
  | zero => exact h
  | succ fuel ih =>
    cases cs with
    | nil => exact h
    | cons c cs =>
      unfold replaceAll at h
      split at h
      · cases part with
        | nil => exact List.nil_prefix
        | cons p part =>
          obtain ⟨rfl, _⟩ := List.cons_prefix_cons.mp h
          simp at apart
      · cases part with
        | nil => exact List.nil_prefix
        | cons p part =>
          obtain ⟨rfl, rest⟩ := List.cons_prefix_cons.mp h
          exact List.cons_prefix_cons.mpr ⟨rfl, ih (List.not_mem_of_not_mem_cons apart) rest⟩

/-- Nothing starts inside a part no end of which agrees with it. -/
theorem not_infix_append {part rest : List Char} (free : ¬ old <:+: rest)
    (bars : ∀ l, l <:+ part → l ≠ [] → ¬ l <+: old ∧ ¬ old <+: l) : ¬ old <:+: part ++ rest := by
  induction part with
  | nil => exact free
  | cons c part ih =>
    obtain ⟨longer, shorter⟩ := bars (c :: part) (List.suffix_refl _) (List.cons_ne_nil _ _)
    rw [List.cons_append, List.infix_cons_iff, not_or]
    refine ⟨fun starts => ?_, ih fun l behind => bars l (behind.trans (List.suffix_cons c part))⟩
    rcases List.prefix_or_prefix_of_prefix starts (List.prefix_append (c :: part) rest) with inside | around
    · exact shorter inside
    · exact longer around

/-- No old text is left, where none can start inside a new one or be completed by it. -/
theorem replaceAll_free (apart : mark ∉ old)
    (bars : ∀ l, l <:+ mark :: new → l ≠ [] → ¬ l <+: first :: old ∧ ¬ first :: old <+: l) (enough : cs.length ≤ fuel) :
    ¬ first :: old <:+: replaceAll (first :: old) (mark :: new) cs fuel := by
  induction fuel generalizing cs with
  | zero =>
    rw [List.length_eq_zero_iff.mp (Nat.le_zero.mp enough)]
    simp [replaceAll]
  | succ fuel ih =>
    cases cs with
    | nil => simp [replaceAll]
    | cons c cs =>
      unfold replaceAll
      split
      · refine not_infix_append (ih ?_) bars
        rw [List.length_drop]
        simp only [List.length_cons] at enough ⊢
        omega
      · rename_i elsewhere
        rw [List.infix_cons_iff, not_or]
        refine ⟨fun starts => elsewhere ?_, ih (Nat.le_of_succ_le_succ enough)⟩
        obtain ⟨rfl, rest⟩ := List.cons_prefix_cons.mp starts
        exact List.isPrefixOf_iff_prefix.mpr (List.cons_prefix_cons.mpr ⟨rfl, prefix_of_replaceAll apart rest⟩)

end SaltMdb.Text
