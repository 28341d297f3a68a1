import Mathlib

/-! Pages of rows in the order of a key, each after the last key of the one before, until one is empty. -/

namespace Paging

section order

variable {α κ : Type} [LinearOrder κ] (key : α → κ)

def inOrder (rows : List α) : List α := rows.mergeSort fun a b => decide (key a ≤ key b)

/-- The first `limit` rows after a key, of rows that are in order. -/
def page (limit : Nat) (after : Option κ) (rows : List α) : List α :=
  (rows.filter fun a => after.all fun last => decide (last < key a)).take limit

variable {key} {rows done rest : List α} {limit : Nat}

theorem mem_inOrder {a : α} : a ∈ inOrder key rows ↔ a ∈ rows := List.mem_mergeSort

theorem inOrder_pairwise (distinct : rows.Pairwise fun a b => key a ≠ key b) : (inOrder key rows).Pairwise fun a b => key a < key b := by
  have ordered : (inOrder key rows).Pairwise fun a b => decide (key a ≤ key b) = true := by
    refine List.pairwise_mergeSort (fun a b c first second => ?_) (fun a b => ?_) rows
    · rw [decide_eq_true_eq] at first second ⊢
      exact le_trans first second
    · rcases le_total (key a) (key b) with first | second
      · simp [first]
      · simp [second]
  have apart : (inOrder key rows).Pairwise fun a b => key a ≠ key b :=
    (List.mergeSort_perm rows _).symm.pairwise distinct fun differ => differ.symm
  exact (ordered.and apart).imp fun both => lt_of_le_of_ne (of_decide_eq_true both.1) both.2

/-- What comes after the rows that have been seen. -/
theorem page_of_split (sorted : (done ++ rest).Pairwise fun a b => key a < key b) :
    page key limit (done.getLast?.map key) (done ++ rest) = rest.take limit := by
  unfold page
  rcases List.eq_nil_or_concat done with rfl | ⟨seen, last, rfl⟩
  · simp
  · rw [List.concat_eq_append] at sorted ⊢
    obtain ⟨inside, _, across⟩ := List.pairwise_append.mp sorted
    obtain ⟨_, _, before⟩ := List.pairwise_append.mp inside
    have passed : ∀ a ∈ seen ++ [last], ¬ key last < key a := by
      intro a member later
      rcases List.mem_append.mp member with old | new
      · exact lt_asymm (before a old last (List.mem_singleton_self last)) later
      · obtain rfl := List.mem_singleton.mp new
        exact lt_irrefl _ later
    have ahead : ∀ a ∈ rest, key last < key a := across last (by simp)
    have later : (seen ++ [last] ++ rest).filter (fun a => decide (key last < key a)) = rest := by
      rw [List.filter_append, List.filter_eq_nil_iff.mpr fun a member => by simpa using passed a member,
        List.filter_eq_self.mpr fun a member => by simpa using ahead a member, List.nil_append]
    rw [List.getLast?_concat]
    exact congrArg (List.take limit) later

end order

/-! ### The loop -/

variable {α κ σ : Type} {key : α → κ} {done rest : List α} {limit : Nat}

/-- Page after page, with the count of what they had: `none` where the fuel runs out first. -/
def sweep (turn : Nat → Option κ → σ → σ × List κ) : Nat → Nat → Option κ → σ → Option (σ × Nat)
  | 0, _, _, _ => none
  | fuel + 1, n, after, s =>
    match (turn n after s).2.getLast? with
    | none => some ((turn n after s).1, 0)
    | some last =>
      (sweep turn fuel (n + 1) (some last) (turn n after s).1).map fun later => (later.1, (turn n after s).2.length + later.2)

/-- A transaction over one page: each row's turn, and the keys of the page. -/
def pageTurn (key : α → κ) (step : Nat → σ → α → σ) (pageOf : Option κ → σ → List α) (n : Nat) (after : Option κ) (s : σ) : σ × List κ :=
  ((pageOf after s).foldl (step n) s, (pageOf after s).map key)

variable {step : Nat → σ → α → σ} {listed : σ → List α} {I : List α → σ → Prop} {pageOf : Option κ → σ → List α}

theorem foldl_invariant {n : Nat} (kept : ∀ n s a, listed (step n s a) = listed s)
    (each : ∀ n done a rest s, listed s = done ++ a :: rest → I done s → I (done ++ [a]) (step n s a)) (more rest : List α) {s : σ}
    (split : listed s = done ++ more ++ rest) (holds : I done s) :
    I (done ++ more) (more.foldl (step n) s) ∧ listed (more.foldl (step n) s) = listed s := by
  induction more generalizing done s with
  | nil => exact ⟨by simpa using holds, rfl⟩
  | cons a more ih =>
    have here : listed s = done ++ a :: (more ++ rest) := by simpa using split
    have next := each n done a (more ++ rest) s here holds
    obtain ⟨later, same⟩ := ih (by rw [kept, split]; simp) next
    exact ⟨by simpa using later, same.trans (kept n s a)⟩

/-- The loop ends after every listed row had its turn, each in order. -/
theorem sweep_visits (key : α → κ) (pageOf : Option κ → σ → List α) (positive : 0 < limit) (kept : ∀ n s a, listed (step n s a) = listed s)
    (pages : ∀ done rest s, listed s = done ++ rest → I done s → pageOf (done.getLast?.map key) s = rest.take limit)
    (each : ∀ n done a rest s, listed s = done ++ a :: rest → I done s → I (done ++ [a]) (step n s a))
    {n : Nat} {s : σ} (split : listed s = done ++ rest) (holds : I done s) :
    ∃ t, (∀ fuel, rest.length < fuel →
        sweep (pageTurn key step pageOf) fuel n (done.getLast?.map key) s = some (t, rest.length)) ∧
      I (done ++ rest) t ∧ listed t = listed s := by
  induction bound : rest.length using Nat.strongRecOn generalizing done rest n s with
  | ind length ih =>
    have first : pageTurn key step pageOf n (done.getLast?.map key) s =
        ((rest.take limit).foldl (step n) s, (rest.take limit).map key) := by
      rw [pageTurn, pages done rest s split holds]
    obtain ⟨later, same⟩ := foldl_invariant (n := n) kept each (rest.take limit) (rest.drop limit)
      (by rw [List.append_assoc, List.take_append_drop, split]) holds
    rcases List.eq_nil_or_concat (rest.take limit) with none_ | ⟨start, last, some_⟩
    · have empty : rest = [] := by
        rcases List.take_eq_nil_iff.mp none_ with zero | nil
        · exact absurd zero (Nat.pos_iff_ne_zero.mp positive)
        · exact nil
      subst empty
      refine ⟨s, fun fuel enough => ?_, by simpa using holds, rfl⟩
      cases fuel with
      | zero => exact absurd enough (Nat.not_lt_zero _)
      | succ fuel =>
        have zero : length = 0 := bound.symm
        rw [List.take_nil] at first
        rw [sweep, first, zero]
        rfl
    · rw [List.concat_eq_append] at some_
      have shorter : (rest.drop limit).length < length := by
        have nonempty : (rest.take limit).length = start.length + 1 := by rw [some_]; simp
        rw [List.length_take] at nonempty
        rw [List.length_drop]
        omega
      have whole : (rest.take limit).length + (rest.drop limit).length = length := by
        rw [← bound, ← List.length_append, List.take_append_drop]
      obtain ⟨t, ends, final, unchanged⟩ := @ih (rest.drop limit).length shorter (done ++ rest.take limit)
        (rest.drop limit) (n + 1) ((rest.take limit).foldl (step n) s)
        (by rw [same, split, List.append_assoc, List.take_append_drop]) later rfl
      refine ⟨t, fun fuel enough => ?_, by rwa [List.append_assoc, List.take_append_drop] at final, unchanged.trans same⟩
      cases fuel with
      | zero => exact absurd enough (Nat.not_lt_zero _)
      | succ fuel =>
        have after : (done ++ rest.take limit).getLast?.map key = some (key last) := by
          rw [some_, ← List.append_assoc, List.getLast?_concat]
          rfl
        have page : ((rest.take limit).map key).getLast? = some (key last) := by
          rw [some_, List.map_append, List.map_singleton, List.getLast?_concat]
        have going := ends fuel (by omega)
        rw [after] at going
        rw [sweep, first]
        dsimp only
        rw [page]
        dsimp only
        rw [going, Option.map_some, List.length_map, whole]

end Paging
