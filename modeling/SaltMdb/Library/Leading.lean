import Mathlib

/-! The greatest row of a list by a key, and the rows from the greatest down, where the keys tell the rows apart. -/

namespace Leading

variable {α κ : Type} [LinearOrder κ] (key : α → κ)

/-- The first of the rows that no other exceeds. -/
def greatest (rows : List α) : Option α :=
  rows.foldl (fun best a => match best with
    | none => some a
    | some b => if key b < key a then some a else some b) none

def descending (rows : List α) : List α := rows.mergeSort fun a b => decide (key b ≤ key a)

variable {key} {rows other : List α}

/-! ### The greatest -/

theorem greatest_append (rows : List α) (a : α) : greatest key (rows ++ [a]) =
    match greatest key rows with
    | none => some a
    | some b => if key b < key a then some a else some b := by
  unfold greatest
  rw [List.foldl_append]
  rfl

theorem greatest_eq_none : greatest key rows = none ↔ rows = [] := by
  induction rows using List.reverseRecOn with
  | nil => simp [greatest]
  | append_singleton rows a _ =>
    rw [greatest_append]
    cases greatest key rows with
    | none => simp
    | some b =>
      dsimp only
      split <;> simp

theorem greatest_some {a : α} (h : greatest key rows = some a) : a ∈ rows ∧ ∀ b ∈ rows, key b ≤ key a := by
  induction rows using List.reverseRecOn generalizing a with
  | nil => simp [greatest] at h
  | append_singleton rows last ih =>
    rw [greatest_append] at h
    cases before : greatest key rows with
    | none =>
      obtain rfl := greatest_eq_none.mp before
      rw [before] at h
      obtain rfl := Option.some.inj h
      simp
    | some b =>
      obtain ⟨member, above⟩ := ih before
      rw [before] at h
      dsimp only at h
      split at h
      · rename_i less
        obtain rfl := Option.some.inj h
        refine ⟨by simp, fun c listed => ?_⟩
        rcases List.mem_append.mp listed with old | new
        · exact le_trans (above c old) (le_of_lt less)
        · rw [List.mem_singleton.mp new]
      · rename_i least
        obtain rfl := Option.some.inj h
        refine ⟨List.mem_append_left _ member, fun c listed => ?_⟩
        rcases List.mem_append.mp listed with old | new
        · exact above c old
        · rw [List.mem_singleton.mp new]
          exact not_lt.mp least

theorem greatest_iff (apart : ∀ a ∈ rows, ∀ b ∈ rows, key a = key b → a = b) {a : α} :
    greatest key rows = some a ↔ a ∈ rows ∧ ∀ b ∈ rows, key b ≤ key a := by
  refine ⟨greatest_some, fun ⟨member, above⟩ => ?_⟩
  cases found : greatest key rows with
  | none =>
    rw [greatest_eq_none.mp found] at member
    simp at member
  | some b =>
    obtain ⟨there, exceeds⟩ := greatest_some found
    rw [apart b there a member (le_antisymm (above b there) (exceeds a member))]

theorem greatest_perm (perm : other.Perm rows) (apart : ∀ a ∈ rows, ∀ b ∈ rows, key a = key b → a = b) :
    greatest key other = greatest key rows := by
  have apart' : ∀ a ∈ other, ∀ b ∈ other, key a = key b → a = b :=
    fun a ha b hb => apart a (perm.mem_iff.mp ha) b (perm.mem_iff.mp hb)
  refine Option.ext fun a => ?_
  rw [greatest_iff apart', greatest_iff apart, perm.mem_iff]
  simp only [perm.mem_iff]

/-- Rows that are taken away leave the greatest where it is not among them. -/
theorem greatest_filter (apart : ∀ a ∈ rows, ∀ b ∈ rows, key a = key b → a = b) {keep : α → Bool}
    (kept : ∀ a, greatest key rows = some a → keep a = true) : greatest key (rows.filter keep) = greatest key rows := by
  have apart' : ∀ a ∈ rows.filter keep, ∀ b ∈ rows.filter keep, key a = key b → a = b :=
    fun a ha b hb => apart a (List.mem_filter.mp ha).1 b (List.mem_filter.mp hb).1
  cases found : greatest key rows with
  | none =>
    rw [greatest_eq_none.mp found]
    rfl
  | some a =>
    obtain ⟨member, above⟩ := greatest_some found
    exact (greatest_iff apart').mpr ⟨List.mem_filter.mpr ⟨member, kept a found⟩,
      fun b listed => above b (List.mem_filter.mp listed).1⟩

/-! ### From the greatest down -/

theorem mem_descending {a : α} : a ∈ descending key rows ↔ a ∈ rows := List.mem_mergeSort

theorem descending_pairwise (distinct : rows.Pairwise fun a b => key a ≠ key b) :
    (descending key rows).Pairwise fun a b => key b < key a := by
  have ordered : (descending key rows).Pairwise fun a b => decide (key b ≤ key a) = true := by
    refine List.pairwise_mergeSort (fun a b c first second => ?_) (fun a b => ?_) rows
    · rw [decide_eq_true_eq] at first second ⊢
      exact le_trans second first
    · rcases le_total (key b) (key a) with first | second
      · simp [first]
      · simp [second]
  have apart : (descending key rows).Pairwise fun a b => key a ≠ key b :=
    (List.mergeSort_perm rows _).symm.pairwise distinct fun differ => differ.symm
  exact (ordered.and apart).imp fun both => lt_of_le_of_ne (of_decide_eq_true both.1) both.2.symm

/-- Two lists of the same rows, each from the greatest down, are one. -/
theorem eq_of_descending {xs ys : List α} (perm : xs.Perm ys) (first : xs.Pairwise fun a b => key b < key a)
    (second : ys.Pairwise fun a b => key b < key a) : xs = ys :=
  List.Perm.eq_of_pairwise (fun _ _ _ _ below above => absurd below (lt_asymm above)) first second perm

theorem descending_perm (perm : other.Perm rows) (distinct : rows.Pairwise fun a b => key a ≠ key b) :
    descending key other = descending key rows :=
  eq_of_descending ((List.mergeSort_perm other _).trans (perm.trans (List.mergeSort_perm rows _).symm))
    (descending_pairwise (perm.symm.pairwise distinct fun differ => differ.symm)) (descending_pairwise distinct)

theorem descending_filter (distinct : rows.Pairwise fun a b => key a ≠ key b) (keep : α → Bool) :
    descending key (rows.filter keep) = (descending key rows).filter keep :=
  eq_of_descending ((List.mergeSort_perm _ _).trans ((List.mergeSort_perm rows _).symm.filter keep))
    (descending_pairwise (distinct.filter keep)) ((descending_pairwise distinct).filter keep)

/-- The first rows stay where no row that is taken away is ahead of one of them or among them. -/
theorem take_filter {rows : List α} {count : Nat} {keep : α → Bool} (kept : ∀ a ∈ rows.take count, keep a = true) :
    (rows.filter keep).take count = rows.take count := by
  induction rows generalizing count with
  | nil => rfl
  | cons a rows ih =>
    cases count with
    | zero => simp
    | succ count =>
      rw [List.take_succ_cons] at kept ⊢
      rw [List.filter_cons_of_pos (kept a List.mem_cons_self), List.take_succ_cons,
        ih fun b listed => kept b (List.mem_cons_of_mem _ listed)]

end Leading
