import Mathlib.Data.List.Nodup
import Mathlib.Data.Nat.Find
import Mathlib.Tactic.TypeStar

/-! Walks of a counted number of steps, the distance of a node, and walks that return to no node. -/

namespace Walks

variable {α : Type*}

/-- `n` steps lead from `x` to the node. -/
inductive Steps (step : α → α → Prop) (x : α) : Nat → α → Prop
  | here : Steps step x 0 x
  | onward {n : Nat} {y z : α} (walk : Steps step x n y) (next : step y z) : Steps step x (n + 1) z

variable {step : α → α → Prop} {x y z : α} {m n : Nat}

theorem steps_zero : Steps step x 0 y ↔ y = x := by
  constructor
  · intro walk
    cases walk
    rfl
  · rintro rfl
    exact .here

theorem steps_succ : Steps step x (n + 1) z ↔ ∃ y, Steps step x n y ∧ step y z := by
  constructor
  · intro walk
    cases walk with
    | onward walk next => exact ⟨_, walk, next⟩
  · rintro ⟨y, walk, next⟩
    exact .onward walk next

theorem Steps.trans (first : Steps step x m y) (second : Steps step y n z) : Steps step x (m + n) z := by
  induction second with
  | here => exact first
  | onward _ next ih => exact .onward ih next

theorem Steps.split (walk : Steps step x (m + n) z) : ∃ y, Steps step x m y ∧ Steps step y n z := by
  induction n generalizing z with
  | zero => exact ⟨z, walk, .here⟩
  | succ n ih =>
    obtain ⟨before, walk, next⟩ := steps_succ.mp walk
    obtain ⟨y, first, second⟩ := ih walk
    exact ⟨y, first, .onward second next⟩

theorem Steps.reverse (walk : Steps step x n y) : Steps (fun a b => step b a) y n x := by
  induction walk with
  | here => exact .here
  | onward _ next ih =>
    have back : Steps (fun a b => step b a) _ 1 _ := .onward .here next
    rw [Nat.add_comm]
    exact back.trans ih

theorem steps_reverse : Steps step x n y ↔ Steps (fun a b => step b a) y n x :=
  ⟨Steps.reverse, Steps.reverse⟩

theorem Steps.mono {other : α → α → Prop} (weaker : ∀ a b, step a b → other a b) (walk : Steps step x n y) : Steps other x n y := by
  induction walk with
  | here => exact .here
  | onward _ next ih => exact .onward ih (weaker _ _ next)

/-- The least number of steps to the node. -/
def Distance (step : α → α → Prop) (x : α) (n : Nat) (y : α) : Prop := Steps step x n y ∧ ∀ k, Steps step x k y → n ≤ k

theorem Distance.unique (first : Distance step x m y) (second : Distance step x n y) : m = n :=
  Nat.le_antisymm (first.2 n second.1) (second.2 m first.1)

theorem Steps.distance (walk : Steps step x n y) : ∃ d ≤ n, Distance step x d y := by
  classical
  have some_ : ∃ k, Steps step x k y := ⟨n, walk⟩
  exact ⟨Nat.find some_, Nat.find_le walk, Nat.find_spec some_, fun k other => Nat.find_le other⟩

theorem distance_reverse : Distance step x n y ↔ Distance (fun a b => step b a) y n x := by
  unfold Distance
  rw [steps_reverse]
  exact and_congr_right fun _ => forall_congr' fun k => by rw [steps_reverse]

theorem distance_zero : Distance step x 0 y ↔ y = x := by
  unfold Distance
  rw [steps_zero]
  exact and_iff_left fun k _ => Nat.zero_le k

/-- A nearest walk is a nearest walk to every node on it. -/
theorem Distance.split (far : Distance step x (m + n) z) : ∃ y, Distance step x m y ∧ Steps step y n z := by
  obtain ⟨y, first, second⟩ := far.1.split
  refine ⟨y, ⟨first, fun k other => ?_⟩, second⟩
  have shorter := far.2 (k + n) (other.trans second)
  omega

/-! ### Walks without a repeated node -/

/-- A walk that never steps to a node it passed, with the nodes it passed. -/
inductive Simple (step : α → α → Prop) (x : α) : Nat → α → List α → Prop
  | here : Simple step x 0 x [x]
  | onward {n : Nat} {y z : α} {passed : List α} (walk : Simple step x n y passed) (next : step y z) (fresh : z ∉ passed) :
      Simple step x (n + 1) z (passed ++ [z])

variable {passed : List α}

theorem Simple.steps (walk : Simple step x n y passed) : Steps step x n y := by
  induction walk with
  | here => exact .here
  | onward _ next _ ih => exact .onward ih next

theorem Simple.steps_of_mem (walk : Simple step x n y passed) : ∀ z ∈ passed, ∃ k ≤ n, Steps step x k z := by
  induction walk with
  | here =>
    intro z member
    exact ⟨0, Nat.le_refl 0, steps_zero.mpr (List.mem_singleton.mp member)⟩
  | onward walk next _ ih =>
    intro z member
    rcases List.mem_append.mp member with old | new
    · obtain ⟨k, within, steps⟩ := ih z old
      exact ⟨k, Nat.le_succ_of_le within, steps⟩
    · obtain rfl := List.mem_singleton.mp new
      exact ⟨_, Nat.le_refl _, .onward walk.steps next⟩

theorem Simple.start (walk : Simple step x n y passed) : x ∈ passed := by
  induction walk with
  | here => exact List.mem_singleton_self x
  | onward _ _ _ ih => exact List.mem_append_left _ ih

/-- A nearest walk repeats no node. -/
theorem Distance.simple (far : Distance step x n z) : ∃ passed, Simple step x n z passed := by
  induction n generalizing z with
  | zero =>
    obtain rfl := distance_zero.mp far
    exact ⟨_, .here⟩
  | succ n ih =>
    obtain ⟨y, near, last⟩ := far.split
    obtain ⟨before, same, next⟩ := steps_succ.mp last
    obtain rfl := steps_zero.mp same
    obtain ⟨passed, walk⟩ := ih near
    refine ⟨passed ++ [z], .onward walk next fun again => ?_⟩
    obtain ⟨k, within, shorter⟩ := walk.steps_of_mem z again
    have least := far.2 k shorter
    omega

end Walks
