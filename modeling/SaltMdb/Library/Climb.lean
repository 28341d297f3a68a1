import Mathlib.Data.List.Nodup
import Mathlib.Logic.Function.Iterate

/-! Walks that take the one step there is until none is left, and the levels of a repeated step. -/

namespace Climb

variable {α : Type*}

/-- The nodes stepped to, each of them admitted, up to one that no step leaves. -/
inductive Climbs (step : α → α → Prop) (admits : α → Prop) : α → List α → α → Prop
  | top {x : α} (ends : ∀ y, ¬ step x y) : Climbs step admits x [] x
  | up {x y z : α} {path : List α} (next : step x y) (admitted : admits y) (later : Climbs step admits y path z) :
      Climbs step admits x (y :: path) z

namespace Climbs

variable {step step' : α → α → Prop} {admits admits' : α → Prop} {x z z' : α} {path path' : List α}

theorem nil_iff : Climbs step admits x [] z ↔ z = x ∧ ∀ y, ¬ step x y := by
  constructor
  · rintro (_ | _)
    exact ⟨rfl, by assumption⟩
  · rintro ⟨rfl, ends⟩
    exact .top ends

theorem cons_iff {y : α} : Climbs step admits x (y :: path) z ↔ step x y ∧ admits y ∧ Climbs step admits y path z := by
  constructor
  · intro climbs
    cases climbs with
    | up next admitted later => exact ⟨next, admitted, later⟩
  · rintro ⟨next, admitted, later⟩
    exact .up next admitted later

/-- One step at most leaves each node, so one walk does. -/
theorem unique (single : ∀ x y y', step x y → step x y' → y = y') (climbs : Climbs step admits x path z)
    (other : Climbs step admits x path' z') : path = path' ∧ z = z' := by
  induction climbs generalizing path' with
  | top ends =>
    cases other with
    | top => exact ⟨rfl, rfl⟩
    | up next => exact absurd next (ends _)
  | up next _ _ ih =>
    cases other with
    | top ends => exact absurd next (ends _)
    | up next' _ later' =>
      obtain rfl := single _ _ _ next next'
      obtain ⟨rfl, rfl⟩ := ih later'
      exact ⟨rfl, rfl⟩

/-- From each node on the way there is a shorter walk. -/
theorem from_mem {y : α} (climbs : Climbs step admits x path z) (member : y ∈ path) :
    ∃ rest, Climbs step admits y rest z ∧ rest.length < path.length := by
  induction climbs with
  | top => simp at member
  | up _ _ later ih =>
    rcases List.mem_cons.mp member with rfl | later_
    · exact ⟨_, later, Nat.lt_succ_self _⟩
    · obtain ⟨rest, climbs, shorter⟩ := ih later_
      exact ⟨rest, climbs, Nat.lt_succ_of_lt shorter⟩

/-- A walk that ends never comes back. -/
theorem not_mem (single : ∀ x y y', step x y → step x y' → y = y') (climbs : Climbs step admits x path z) : x ∉ path := by
  intro member
  obtain ⟨rest, again, shorter⟩ := climbs.from_mem member
  obtain ⟨rfl, -⟩ := climbs.unique single again
  exact Nat.lt_irrefl _ shorter

theorem end_mem (climbs : Climbs step admits x path z) : z = x ∧ path = [] ∨ z ∈ path := by
  induction climbs with
  | top => exact .inl ⟨rfl, rfl⟩
  | up _ _ _ ih =>
    rcases ih with ⟨rfl, -⟩ | member
    · exact .inr List.mem_cons_self
    · exact .inr (List.mem_cons_of_mem _ member)

theorem end_ne_iff (single : ∀ x y y', step x y → step x y' → y = y') (climbs : Climbs step admits x path z) :
    z ≠ x ↔ path ≠ [] := by
  constructor
  · rintro other rfl
    exact other (nil_iff.mp climbs).1
  · rintro some_ rfl
    rcases climbs.end_mem with ⟨-, none_⟩ | member
    · exact some_ none_
    · exact climbs.not_mem single member

/-- Steps and admissions count only at the nodes within reach. -/
theorem congr (reached : Nat → α → Prop) (bound : Nat)
    (same : ∀ {k : Nat} {x : α}, k ≤ bound → reached k x → ∀ y, step x y ↔ step' x y)
    (alike : ∀ {k : Nat} {x y : α}, k ≤ bound → reached k x → step x y → (admits y ↔ admits' y))
    (onward : ∀ {k : Nat} {x y : α}, k ≤ bound → reached k x → step x y → reached (k + 1) y) {k : Nat} (start : reached k x)
    (short : k + path.length ≤ bound) : Climbs step admits x path z ↔ Climbs step' admits' x path z := by
  induction path generalizing x k with
  | nil =>
    rw [nil_iff, nil_iff]
    exact and_congr_right fun _ => forall_congr' fun y => not_congr (same short start y)
  | cons y path ih =>
    have within : k ≤ bound := Nat.le_trans (Nat.le_add_right k _) short
    rw [cons_iff, cons_iff, ← same within start y]
    refine and_congr_right fun next => and_congr (alike within start next) (ih (onward within start next) ?_)
    rw [List.length_cons] at short
    omega

end Climbs

/-! ### Levels -/

variable {β : Type*}

/-- The rows of a step repeated so many times. -/
theorem mem_levels {levels : Nat → List β → List β} {hop : List β → List β} (zero : ∀ rows, levels 0 rows = rows)
    (succ : ∀ n rows, levels (n + 1) rows = rows ++ levels n (hop rows)) {hops : Nat} {rows : List β} {b : β} :
    b ∈ levels hops rows ↔ ∃ k ≤ hops, b ∈ hop^[k] rows := by
  induction hops generalizing rows with
  | zero => simp [zero]
  | succ hops ih =>
    rw [succ, List.mem_append, ih]
    constructor
    · rintro (here | ⟨k, bound, later⟩)
      · exact ⟨0, Nat.zero_le _, here⟩
      · exact ⟨k + 1, Nat.succ_le_succ bound, later⟩
    · rintro ⟨k, bound, member⟩
      cases k with
      | zero => exact .inl member
      | succ k => exact .inr ⟨k, Nat.le_of_succ_le_succ bound, member⟩

end Climb
