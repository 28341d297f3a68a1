import Mathlib.Data.List.Induction
import Mathlib.Data.List.Perm.Subperm
import Mathlib.Data.List.Sort
import Mathlib.Data.Prod.Lex
import Mathlib.Tactic.TypeStar

/-! Nearest-first selections: the first rows of a ranking that pass a test, and those of its passing rows alone. -/

namespace Nearest

variable {α β : Type*}

/-- The rows of a table by distance, the nearest first. Rows that leave take no part in the order of the others. -/
structure Ranking (ρ δ : Type*) [LinearOrder δ] where
  rank : (ρ → δ) → List ρ → List ρ
  perm : ∀ d T, (rank d T).Perm T
  sorted : ∀ d T, (rank d T).Pairwise fun a b => d a ≤ d b
  filter : ∀ d T p, (rank d T).filter p = rank d (T.filter p)

/-- A page of a list. -/
def page (offset limit : Nat) (xs : List α) : List α := (xs.drop offset).take limit

theorem page_length (offset limit : Nat) (xs : List α) : (page offset limit xs).length = min limit (xs.length - offset) := by
  rw [page, List.length_take, List.length_drop]

theorem page_front {xs ys : List α} (cut : xs <+: ys) (offset limit : Nat) :
    page offset limit xs <+: page offset limit ys := by
  obtain ⟨rest, rfl⟩ := cut
  rw [page, page, List.drop_append, List.take_append]
  exact List.prefix_append _ _

/-- Taking the first rows and then the passing ones takes the first of the passing ones. -/
theorem filterMap_take_front (f : α → Option β) (k : Nat) (S : List α) : (S.take k).filterMap f <+: S.filterMap f := by
  refine ⟨(S.drop k).filterMap f, ?_⟩
  rw [← List.filterMap_append, List.take_append_drop]

/-- Rows that leave bring the others forward. -/
theorem filter_take_front (p : α → Bool) (k : Nat) (S : List α) : (S.take k).filter p <+: (S.filter p).take k := by
  have front : (S.take k).filter p <+: S.filter p := by
    refine ⟨(S.drop k).filter p, ?_⟩
    rw [← List.filter_append, List.take_append_drop]
  have few : ((S.take k).filter p).length ≤ k := (List.length_filter_le p _).trans (List.length_take_le k S)
  exact List.prefix_take_iff.mpr ⟨front, few⟩

theorem filterMap_split (f : α → Option β) (k : Nat) (S : List α) :
    (S.filterMap f).length = ((S.take k).filterMap f).length + ((S.drop k).filterMap f).length := by
  rw [← List.length_append, ← List.filterMap_append, List.take_append_drop]

/-- A page of what passes among the first rows is that of all that pass, unless rows that do not pass stand before
rows that do. -/
theorem page_filterMap_iff (f : α → Option β) (S : List α) (offset limit : Nat) :
    page offset limit ((S.take (limit + offset)).filterMap f) = page offset limit (S.filterMap f) ↔
      limit = 0 ∨ (S.filterMap f).length ≤ offset ∨ (∀ r ∈ S.take (limit + offset), (f r).isSome = true) ∨
        ∀ r ∈ S.drop (limit + offset), f r = none := by
  have cut := page_front (filterMap_take_front f (limit + offset) S) offset limit
  have split := filterMap_split f (limit + offset) S
  have few : ((S.take (limit + offset)).filterMap f).length ≤ (S.take (limit + offset)).length :=
    List.length_filterMap_le f _
  have bounded : (S.take (limit + offset)).length ≤ limit + offset := List.length_take_le _ _
  have full : ((S.take (limit + offset)).filterMap f).length = (S.take (limit + offset)).length ↔
      ∀ r ∈ S.take (limit + offset), (f r).isSome = true := List.filterMap_length_eq_length
  have rest : ((S.drop (limit + offset)).filterMap f).length = 0 ↔ ∀ r ∈ S.drop (limit + offset), f r = none := by
    rw [List.length_eq_zero_iff, List.filterMap_eq_nil_iff]
  have lengths : page offset limit ((S.take (limit + offset)).filterMap f) = page offset limit (S.filterMap f) ↔
      min limit (((S.take (limit + offset)).filterMap f).length - offset) = min limit ((S.filterMap f).length - offset) := by
    rw [← page_length, ← page_length]
    exact ⟨congrArg List.length, cut.eq_of_length⟩
  rw [lengths, ← full, ← rest]
  constructor
  · intro same
    by_cases short : (S.take (limit + offset)).length < limit + offset
    · have all : S.length ≤ limit + offset := by
        rw [List.length_take] at short
        omega
      rw [List.drop_eq_nil_of_le all]
      simp
    · omega
  · rintro (none | few | passing | nothing)
    · rw [none, Nat.zero_min, Nat.zero_min]
    · omega
    · rw [List.length_take] at passing
      by_cases short : S.length < limit + offset
      · rw [split, List.drop_eq_nil_of_le short.le, List.filterMap_nil, List.length_nil, Nat.add_zero]
      · have enough : limit ≤ ((S.take (limit + offset)).filterMap f).length - offset := by omega
        rw [Nat.min_eq_left enough, Nat.min_eq_left (by omega)]
    · rw [split, nothing, Nat.add_zero]

/-! ### Ordered selections -/

/-- A sublist agrees with the first `n` elements of a list exactly where it has them. -/
theorem take_eq_iff {xs ys : List α} (sub : List.Sublist xs ys) (distinct : ys.Nodup) (n : Nat) :
    xs.take n = ys.take n ↔ ∀ y ∈ ys.take n, y ∈ xs := by
  constructor
  · intro same y member
    rw [← same] at member
    exact List.mem_of_mem_take member
  · intro covers
    induction ys generalizing xs n with
    | nil => rw [List.sublist_nil.mp sub]
    | cons y ys ih =>
      cases n with
      | zero => rfl
      | succ n =>
        obtain ⟨once, distinct⟩ := List.nodup_cons.mp distinct
        have head : y ∈ xs := covers y (by simp)
        cases sub with
        | cons _ sub => exact absurd (sub.subset head) once
        | cons_cons _ sub =>
          rw [List.take_succ_cons, List.take_succ_cons, ih sub distinct n]
          intro z member
          have here := covers z (by rw [List.take_succ_cons]; exact List.mem_cons_of_mem y member)
          rcases List.mem_cons.mp here with rfl | later
          · exact absurd (List.mem_of_mem_take member) once
          · exact later

/-! ### Ranking by insertion -/

section
variable {ρ δ : Type*} [LinearOrder δ]

theorem filter_orderedInsert (d : ρ → δ) (p : ρ → Bool) (a : ρ) {xs : List ρ} (sorted : xs.Pairwise fun a b => d a ≤ d b) :
    (xs.orderedInsert (fun a b => d a ≤ d b) a).filter p =
      if p a then (xs.filter p).orderedInsert (fun a b => d a ≤ d b) a else xs.filter p := by
  induction xs with
  | nil => cases passes : p a <;> simp [passes]
  | cons x xs ih =>
    obtain ⟨least, sorted⟩ := List.pairwise_cons.mp sorted
    have tail := ih sorted
    by_cases before : d a ≤ d x
    · have front : ∀ ys : List ρ, (∀ y ∈ ys, d a ≤ d y) → ys.orderedInsert (fun a b => d a ≤ d b) a = a :: ys := by
        intro ys below
        cases ys with
        | nil => rfl
        | cons y ys => exact List.orderedInsert_cons_of_le _ _ (below y List.mem_cons_self)
      have below : ∀ y ∈ x :: xs, d a ≤ d y := by
        intro y member
        rcases List.mem_cons.mp member with rfl | later
        · exact before
        · exact le_trans before (least y later)
      rw [front _ below, List.filter_cons]
      split
      · rw [front _ fun y member => below y (List.mem_of_mem_filter member)]
      · rfl
    · rw [List.orderedInsert_cons, if_neg before, List.filter_cons, tail, List.filter_cons]
      cases passes : p a <;> cases kept : p x <;> simp [before]

/-- The rows in the order of an insertion sort. -/
def byInsertion (ρ δ : Type*) [LinearOrder δ] : Ranking ρ δ where
  rank d T := T.insertionSort fun a b => d a ≤ d b
  perm d T := List.perm_insertionSort _ T
  sorted d T := by
    have total : Std.Total fun a b : ρ => d a ≤ d b := ⟨fun a b => le_total (d a) (d b)⟩
    have trans : IsTrans ρ fun a b => d a ≤ d b := ⟨fun _ _ _ => le_trans⟩
    exact List.pairwise_insertionSort _ T
  filter d T p := by
    have total : Std.Total fun a b : ρ => d a ≤ d b := ⟨fun a b => le_total (d a) (d b)⟩
    have trans : IsTrans ρ fun a b => d a ≤ d b := ⟨fun _ _ _ => le_trans⟩
    induction T with
    | nil => rfl
    | cons a T ih =>
      rw [List.insertionSort_cons, filter_orderedInsert d p a (List.pairwise_insertionSort _ T), ih, List.filter_cons]
      split <;> rfl

end

/-! ### The least distance of each name -/

section
variable {κ δ : Type*} [LinearOrder δ]

/-- Enter a distance under its name, keeping the least. -/
def enter [DecidableEq κ] (best : List (κ × δ)) (row : κ × δ) : List (κ × δ) :=
  match best.lookup row.1 with
  | none => best ++ [row]
  | some previous =>
    if row.2 < previous then best.map fun entry => if entry.1 = row.1 then row else entry else best

/-- A name with the least of its distances among the rows. -/
def IsBest (rows : κ × δ → Prop) (entry : κ × δ) : Prop :=
  rows entry ∧ ∀ d, rows (entry.1, d) → entry.2 ≤ d

theorem IsBest.unique {rows : κ × δ → Prop} {k : κ} {d e : δ} (one : IsBest rows (k, d)) (other : IsBest rows (k, e)) :
    d = e :=
  le_antisymm (one.2 e other.1) (other.2 d one.1)

/-- Every name of the rows, once, with its least distance. -/
structure Tally (rows : κ × δ → Prop) (best : List (κ × δ)) : Prop where
  names : (best.map Prod.fst).Nodup
  covers : ∀ entry, rows entry → entry.1 ∈ best.map Prod.fst
  complete : ∀ entry, entry ∈ best ↔ IsBest rows entry

theorem isBest_or {rows : κ × δ → Prop} {row entry : κ × δ} (other : entry.1 ≠ row.1) :
    IsBest (fun e => rows e ∨ e = row) entry ↔ IsBest rows entry := by
  have same : ∀ d, (rows (entry.1, d) ∨ (entry.1, d) = row) ↔ rows (entry.1, d) := by
    intro d
    refine or_iff_left ?_
    rintro rfl
    exact other rfl
  show (rows (entry.1, entry.2) ∨ (entry.1, entry.2) = row) ∧ _ ↔ rows (entry.1, entry.2) ∧ _
  simp only [same]

theorem isBest_or_absent {rows : κ × δ → Prop} {row : κ × δ} (absent : ∀ d, ¬ rows (row.1, d)) {entry : κ × δ} :
    IsBest (fun e => rows e ∨ e = row) entry ↔ IsBest rows entry ∨ entry = row := by
  by_cases named : entry.1 = row.1
  · obtain ⟨k, d⟩ := entry
    obtain rfl : k = row.1 := named
    have none : ¬ rows (row.1, d) := absent d
    constructor
    · rintro ⟨here, _⟩
      exact .inr (here.resolve_left none)
    · rintro (⟨here, _⟩ | same)
      · exact absurd here none
      · refine ⟨.inr same, fun e there => ?_⟩
        have fixed : (row.1, e) = row := there.resolve_left (absent e)
        rw [show d = row.2 from congrArg Prod.snd same, show e = row.2 from congrArg Prod.snd fixed]
  · rw [isBest_or named]
    refine (or_iff_left ?_).symm
    rintro rfl
    exact named rfl

theorem isBest_or_nearer {rows : κ × δ → Prop} {row : κ × δ} {previous : δ} (best : IsBest rows (row.1, previous)) {d : δ} :
    IsBest (fun e => rows e ∨ e = row) (row.1, d) ↔ d = min row.2 previous := by
  constructor
  · rintro ⟨here, least⟩
    have below : d ≤ row.2 := least row.2 (.inr rfl)
    have under : d ≤ previous := least previous (.inl best.1)
    rcases here with known | same
    · have above : previous ≤ d := best.2 d known
      rw [le_antisymm under above] at below ⊢
      exact (min_eq_right below).symm
    · have own : d = row.2 := congrArg Prod.snd same
      rw [own] at under ⊢
      exact (min_eq_left under).symm
  · rintro rfl
    refine ⟨?_, fun e there => ?_⟩
    · rcases le_total row.2 previous with nearer | farther
      · rw [min_eq_left nearer]
        exact .inr rfl
      · rw [min_eq_right farther]
        exact .inl best.1
    · rcases there with known | same
      · exact le_trans (min_le_right _ _) (best.2 e known)
      · rw [show e = row.2 from congrArg Prod.snd same]
        exact min_le_left _ _

theorem Tally.enter [DecidableEq κ] {rows : κ × δ → Prop} {best : List (κ × δ)} (tally : Tally rows best) (row : κ × δ) :
    Tally (fun e => rows e ∨ e = row) (enter best row) := by
  unfold Nearest.enter
  cases found : best.lookup row.1 with
  | none =>
    have fresh : row.1 ∉ best.map Prod.fst := by
      intro named
      obtain ⟨entry, member, same⟩ := List.mem_map.mp named
      have differs := List.lookup_eq_none_iff.mp found entry member
      simp [same] at differs
    have absent : ∀ d, ¬ rows (row.1, d) := fun d here => fresh (tally.covers (row.1, d) here)
    refine ⟨?_, ?_, fun entry => ?_⟩
    · rw [List.map_append, List.nodup_append]
      refine ⟨tally.names, List.nodup_singleton _, ?_⟩
      rintro k member _ single rfl
      exact fresh (List.mem_singleton.mp single ▸ member)
    · rintro entry (known | rfl)
      · exact List.mem_map.mpr (by
          obtain ⟨other, member, same⟩ := List.mem_map.mp (tally.covers entry known)
          exact ⟨other, List.mem_append_left _ member, same⟩)
      · exact List.mem_map.mpr ⟨_, List.mem_append_right _ (List.mem_singleton_self _), rfl⟩
    · dsimp only
      rw [isBest_or_absent absent, List.mem_append, List.mem_singleton, tally.complete]
  | some previous =>
    have known : (row.1, previous) ∈ best := by
      obtain ⟨before, after, rfl, _⟩ := List.lookup_eq_some_iff.mp found
      simp
    have least : IsBest rows (row.1, previous) := (tally.complete _).mp known
    have once : ∀ entry ∈ best, entry.1 = row.1 → entry = (row.1, previous) := by
      rintro ⟨k, d⟩ member named
      obtain rfl : k = row.1 := named
      exact Prod.ext rfl (IsBest.unique ((tally.complete _).mp member) least)
    have entered : (if row.2 < previous then best.map fun entry => if entry.1 = row.1 then row else entry else best) =
        best.map fun entry => if entry.1 = row.1 then (row.1, min row.2 previous) else entry := by
      split
      · rename_i nearer
        rw [min_eq_left nearer.le]
      · rename_i farther
        rw [min_eq_right (not_lt.mp farther)]
        refine (List.map_congr_left fun entry member => ?_).trans (List.map_id best) |>.symm
        split
        · rename_i named
          exact (once entry member named).symm
        · rfl
    dsimp only
    rw [entered]
    have names : (best.map fun entry => if entry.1 = row.1 then (row.1, min row.2 previous) else entry).map Prod.fst =
        best.map Prod.fst := by
      rw [List.map_map]
      refine List.map_congr_left fun entry _ => ?_
      dsimp only [Function.comp_apply]
      split
      · rename_i named
        exact named.symm
      · rfl
    refine ⟨names ▸ tally.names, ?_, fun entry => ?_⟩
    · rw [names]
      rintro entry (here | rfl)
      · exact tally.covers entry here
      · exact List.mem_map.mpr ⟨_, known, rfl⟩
    · rw [List.mem_map]
      by_cases named : entry.1 = row.1
      · obtain ⟨k, d⟩ := entry
        obtain rfl : k = row.1 := named
        rw [isBest_or_nearer least]
        constructor
        · rintro ⟨other, _, replaced⟩
          split at replaced
          · exact (congrArg Prod.snd replaced).symm
          · rename_i different
            exact absurd (congrArg Prod.fst replaced) different
        · rintro rfl
          exact ⟨_, known, if_pos rfl⟩
      · rw [isBest_or named, ← tally.complete]
        constructor
        · rintro ⟨other, member, replaced⟩
          split at replaced
          · exact absurd (congrArg Prod.fst replaced).symm named
          · exact replaced ▸ member
        · exact fun member => ⟨entry, member, if_neg named⟩

def tally [DecidableEq κ] (rows : List (κ × δ)) : List (κ × δ) := rows.foldl enter []

theorem tally_spec [DecidableEq κ] (rows : List (κ × δ)) : Tally (· ∈ rows) (tally rows) := by
  induction rows using List.reverseRecOn with
  | nil =>
    refine ⟨List.nodup_nil, fun entry here => absurd here List.not_mem_nil, fun entry => ?_⟩
    exact ⟨fun here => absurd here List.not_mem_nil, fun best => absurd best.1 List.not_mem_nil⟩
  | append_singleton rows row ih =>
    have step : Tally (fun e => e ∈ rows ∨ e = row) (tally (rows ++ [row])) := by
      rw [tally, List.foldl_append]
      exact ih.enter row
    simpa only [List.mem_append, List.mem_singleton] using step

/-- Among rows in order of distance, the first ones already have the least distance of each of their names. -/
theorem isBest_front {rows : List (κ × δ)} (ascending : rows.Pairwise fun a b => a.2 ≤ b.2) (k : Nat) {entry : κ × δ} :
    IsBest (· ∈ rows.take k) entry ↔ IsBest (· ∈ rows) entry ∧ ∃ d, (entry.1, d) ∈ rows.take k := by
  rw [← List.take_append_drop k rows, List.pairwise_append] at ascending
  obtain ⟨_, _, apart⟩ := ascending
  constructor
  · rintro ⟨here, least⟩
    refine ⟨⟨List.mem_of_mem_take here, fun d there => ?_⟩, entry.2, here⟩
    rw [← List.take_append_drop k rows, List.mem_append] at there
    rcases there with first | later
    · exact least d first
    · exact apart entry here _ later
  · rintro ⟨⟨here, least⟩, d, near⟩
    refine ⟨?_, fun e there => least e (List.mem_of_mem_take there)⟩
    rw [← List.take_append_drop k rows, List.mem_append] at here
    rcases here with first | later
    · exact first
    · have below : entry.2 ≤ d := least d (List.mem_of_mem_take near)
      have above : d ≤ entry.2 := apart _ near entry later
      rwa [show (entry.1, d) = entry from Prod.ext rfl (le_antisymm above below)] at near

end

/-! ### Names in order of their distance -/

section
variable {κ δ : Type*} [LinearOrder κ] [LinearOrder δ]

def nearer (a b : κ × δ) : Prop := toLex (a.2, a.1) ≤ toLex (b.2, b.1)

instance : DecidableRel (nearer (κ := κ) (δ := δ)) := fun a b =>
  inferInstanceAs (Decidable (toLex (a.2, a.1) ≤ toLex (b.2, b.1)))

theorem nearer_antisymm {a b : κ × δ} (one : nearer a b) (other : nearer b a) : a = b := by
  have same : (a.2, a.1) = (b.2, b.1) := toLex.injective (le_antisymm one other)
  obtain ⟨distance, name⟩ := Prod.mk.inj same
  exact Prod.ext name distance

/-- The entries with a property, each once, the nearest first and equally near ones by name. -/
structure Listing (P : κ × δ → Prop) (all : List (κ × δ)) : Prop where
  ordered : all.Pairwise nearer
  once : all.Nodup
  complete : ∀ entry, entry ∈ all ↔ P entry

/-- A listing of some of the entries is the other one with entries left out. -/
theorem Listing.sublist {P Q : κ × δ → Prop} {some all : List (κ × δ)} (part : Listing P some) (whole : Listing Q all)
    (within : ∀ entry, P entry → Q entry) : List.Sublist some all := by
  have subset : some ⊆ all := by
    intro entry member
    exact (whole.complete entry).mpr (within entry ((part.complete entry).mp member))
  have antisymmetric : Std.Antisymm (nearer (κ := κ) (δ := δ)) := ⟨fun _ _ => nearer_antisymm⟩
  exact List.sublist_of_subperm_of_pairwise (List.Nodup.subperm part.once subset) part.ordered whole.ordered

theorem Listing.unique {P : κ × δ → Prop} {one other : List (κ × δ)} (first : Listing P one) (second : Listing P other) :
    one = other :=
  (first.sublist second fun _ here => here).antisymm (second.sublist first fun _ here => here)

theorem Listing.take_eq {P Q : κ × δ → Prop} {some all : List (κ × δ)} (part : Listing P some) (whole : Listing Q all)
    (within : ∀ entry, P entry → Q entry) (n : Nat) :
    some.take n = all.take n ↔ ∀ entry ∈ all.take n, P entry := by
  rw [take_eq_iff (part.sublist whole within) whole.once]
  exact forall₂_congr fun entry _ => part.complete entry

def byDistance (entries : List (κ × δ)) : List (κ × δ) := entries.insertionSort nearer

theorem byDistance_listing {P : κ × δ → Prop} {best : List (κ × δ)} (names : (best.map Prod.fst).Nodup)
    (complete : ∀ entry, entry ∈ best ↔ P entry) : Listing P (byDistance best) := by
  have total : Std.Total (nearer (κ := κ) (δ := δ)) := ⟨fun a b => le_total (toLex (a.2, a.1)) (toLex (b.2, b.1))⟩
  have trans : IsTrans (κ × δ) nearer := ⟨fun a b c => le_trans (a := toLex (a.2, a.1))⟩
  refine ⟨List.pairwise_insertionSort _ best, ?_, fun entry => ?_⟩
  · exact ((List.perm_insertionSort _ best).nodup_iff).mpr (List.Nodup.of_map _ names)
  · rw [byDistance, List.mem_insertionSort, complete]

end

end Nearest
