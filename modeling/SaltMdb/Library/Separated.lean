import Mathlib.Data.List.Infix

/-! Two parts around a separator, and the part before its first occurrence. -/

namespace Separated

section
variable {α : Type} {sep base suffix : List α}

theorem head_of_whole (base sep suffix : List α) : base ++ sep.dropLast <+: base ++ sep ++ suffix := by
  refine List.IsPrefix.trans ?_ (List.prefix_append _ suffix)
  exact (List.prefix_append_right_inj _).mpr <| List.dropLast_prefix sep

/-- An occurrence that starts in the first part ends before the separator does. -/
theorem prefix_of_early {a : α} (early : sep <+: a :: base ++ sep ++ suffix) : sep <+: a :: base ++ sep.dropLast := by
  refine List.prefix_of_prefix_length_le early (head_of_whole _ sep suffix) ?_
  simp only [List.length_append, List.length_cons, List.length_dropLast]
  omega

end

section
variable {α β : Type} {line : α → List β} {sep : β}

theorem split_unique {l m s t : List β} (free : sep ∉ l) (free' : sep ∉ m) (same : l ++ sep :: s = m ++ sep :: t) : l = m ∧ s = t := by
  induction l generalizing m with
  | nil =>
    cases m with
    | nil => exact ⟨rfl, (List.cons.inj same).2⟩
    | cons y m => exact absurd ((List.cons.inj same).1 ▸ List.mem_cons_self) free'
  | cons x l ih =>
    cases m with
    | nil => exact absurd ((List.cons.inj same).1 ▸ List.mem_cons_self) free
    | cons y m =>
      obtain ⟨rfl, rest⟩ := List.cons.inj same
      obtain ⟨rfl, left⟩ := ih (List.not_mem_of_not_mem_cons free) (List.not_mem_of_not_mem_cons free') rest
      exact ⟨rfl, left⟩

/-- Lines that hold no separator are read back from the text in which each ends with one. -/
theorem lines_injective (one : ∀ a b, line a = line b → a = b) (free : ∀ a, sep ∉ line a) {xs ys : List α}
    (same : xs.flatMap (fun a => line a ++ [sep]) = ys.flatMap fun a => line a ++ [sep]) : xs = ys := by
  induction xs generalizing ys with
  | nil =>
    cases ys with
    | nil => rfl
    | cons y ys => simp at same
  | cons x xs ih =>
    cases ys with
    | nil => simp at same
    | cons y ys =>
      simp only [List.flatMap_cons, List.append_assoc, List.singleton_append] at same
      obtain ⟨first, rest⟩ := split_unique (free x) (free y) same
      rw [one x y first, ih rest]


/-- Behind a part without the separator an occurrence that starts with it starts at the separator. -/
theorem infix_behind {l rest cs : List β} (free : sep ∉ l) : sep :: cs <:+: l ++ sep :: rest ↔ sep :: cs <:+: sep :: rest := by
  induction l with
  | nil => rfl
  | cons x l ih =>
    rw [List.cons_append, List.infix_cons_iff, ih (List.not_mem_of_not_mem_cons free)]
    refine or_iff_right fun start => ?_
    obtain ⟨same, _⟩ := List.cons_prefix_cons.mp start
    exact free (same ▸ List.mem_cons_self)

/-- Between two separators stands a line, where the lines hold none. -/
theorem infix_lines_iff (free : ∀ a, sep ∉ line a) {x : List β} (free' : sep ∉ x) (as : List α) :
    sep :: (x ++ [sep]) <:+: sep :: as.flatMap (fun a => line a ++ [sep]) ↔ ∃ a ∈ as, line a = x := by
  induction as with
  | nil =>
    constructor
    · intro inside
      have short := inside.length_le
      simp at short
    · nofun
  | cons a as ih =>
    have shape : (a :: as).flatMap (fun a => line a ++ [sep]) = line a ++ sep :: as.flatMap (fun a => line a ++ [sep]) := by
      simp
    have first : x ++ [sep] <+: line a ++ sep :: as.flatMap (fun a => line a ++ [sep]) ↔ line a = x := by
      constructor
      · rintro ⟨rest, same⟩
        rw [List.append_assoc] at same
        exact (split_unique free' (free a) same).1.symm
      · rintro rfl
        exact ⟨as.flatMap fun a => line a ++ [sep], by simp⟩
    rw [shape, List.infix_cons_iff, List.cons_prefix_cons, infix_behind (free a), ih, first]
    simp

end

variable {α : Type} [DecidableEq α] {sep base suffix : List α}

/-- What stands before the first `sep`, or everything where it does not occur. -/
def beforeFirst (sep : List α) : List α → List α
  | [] => []
  | a :: rest => if sep <+: a :: rest then [] else a :: beforeFirst sep rest

theorem beforeFirst_self (nonempty : sep ≠ []) : beforeFirst sep (sep ++ suffix) = [] := by
  obtain ⟨a, rest, rfl⟩ := List.exists_cons_of_ne_nil nonempty
  exact if_pos (List.prefix_append _ suffix)

/-- The first part is read back exactly where the separator does not occur before its place. -/
theorem beforeFirst_eq_iff (nonempty : sep ≠ []) :
    beforeFirst sep (base ++ sep ++ suffix) = base ↔ ¬ sep <:+: base ++ sep.dropLast := by
  induction base with
  | nil =>
    refine ⟨fun _ inside => ?_, fun _ => beforeFirst_self nonempty⟩
    have short := inside.length_le
    have positive := List.length_pos_iff.mpr nonempty
    simp only [List.nil_append, List.length_dropLast] at short
    omega
  | cons b base ih =>
    show (if sep <+: b :: base ++ sep ++ suffix then [] else b :: beforeFirst sep (base ++ sep ++ suffix)) = b :: base ↔ _
    by_cases early : sep <+: b :: base ++ sep ++ suffix
    · rw [if_pos early]
      exact ⟨nofun, fun apart => absurd (prefix_of_early early).isInfix apart⟩
    · rw [if_neg early, List.cons_inj_right, ih, List.cons_append, List.infix_cons_iff, not_or]
      refine ⟨fun apart => ⟨fun start => ?_, apart⟩, And.right⟩
      exact early (start.trans (head_of_whole (b :: base) sep suffix))

theorem beforeFirst_of_missing {cs : List α} (missing : ¬ sep <:+: cs) : beforeFirst sep cs = cs := by
  induction cs with
  | nil => rfl
  | cons c rest ih =>
    rw [List.infix_cons_iff, not_or] at missing
    simp only [beforeFirst, if_neg missing.1, ih missing.2]

theorem beforeFirst_ne {cs : List α} (nonempty : sep ≠ []) (inside : sep <:+: cs) : beforeFirst sep cs ≠ cs := by
  obtain ⟨base, suffix, rfl⟩ := inside
  intro whole
  induction base with
  | nil =>
    rw [List.nil_append, beforeFirst_self nonempty] at whole
    exact nonempty (List.append_eq_nil_iff.mp whole.symm).1
  | cons b base ih =>
    rw [List.cons_append, List.cons_append] at whole
    simp only [beforeFirst] at whole
    split at whole
    · simp at whole
    · exact ih (List.cons_inj_right b |>.mp whole)

end Separated
