import SaltMdb.Library.Walks
import Mathlib.Data.List.Dedup

/-! A search in rounds: what one round discovers is the frontier of the next, until enough is known or no round is left. -/

namespace Rounds
open Walks

variable {α : Type} [DecidableEq α] (reach : α → List α) (enough : List α → Bool)

/-- What the frontier reaches and no earlier round did. -/
def discovered (visited frontier : List α) : List α := ((frontier.flatMap reach).filter (!visited.contains ·)).dedup

def explore : Nat → List α → List α → List α
  | 0, visited, _ => visited
  | rounds + 1, visited, frontier =>
    if frontier.isEmpty then visited
    else
      let newly := discovered reach visited frontier
      if enough (visited ++ newly) then visited ++ newly else explore rounds (visited ++ newly) newly

variable {reach enough} {link : α → α → Prop} {start : α} {visited frontier : List α} {rounds n : Nat}

theorem mem_discovered {x : α} :
    x ∈ discovered reach visited frontier ↔ (∃ f ∈ frontier, x ∈ reach f) ∧ x ∉ visited := by
  simp [discovered, List.mem_filter, List.mem_flatMap]

/-- Steps lead from the start to the node. -/
def Linked (link : α → α → Prop) (start x : α) : Prop := ∃ k, Steps link start k x

/-- From a linked node one look sees every neighbour, and nothing that no steps lead to. -/
structure Looks (reach : α → List α) (link : α → α → Prop) (start : α) : Prop where
  neighbours : ∀ x, Linked link start x → ∀ y, link x y → y ∈ reach x
  linked : ∀ x, Linked link start x → ∀ y ∈ reach x, Linked link start y

/-- After `n` rounds: what is visited is linked, everything within `n` steps is visited, and what is behind the frontier has
no neighbour left to discover. -/
structure Explored (link : α → α → Prop) (start : α) (n : Nat) (visited frontier : List α) : Prop where
  linked : ∀ x ∈ visited, Linked link start x
  near : ∀ k ≤ n, ∀ x, Steps link start k x → x ∈ visited
  behind : ∀ x ∈ visited, x ∉ frontier → ∀ y, link x y → y ∈ visited
  within : frontier ⊆ visited

/-- One round. -/
theorem Explored.round (explored : Explored link start n visited frontier) (looks : Looks reach link start) :
    Explored link start (n + 1) (visited ++ discovered reach visited frontier) (discovered reach visited frontier) := by
  have onward : ∀ x ∈ visited, ∀ y, link x y → y ∈ visited ++ discovered reach visited frontier := by
    intro x member y next
    by_cases known : y ∈ visited
    · exact List.mem_append_left _ known
    · by_cases edge : x ∈ frontier
      · have seen := looks.neighbours x (explored.linked x member) y next
        exact List.mem_append_right _ (mem_discovered.mpr ⟨⟨x, edge, seen⟩, known⟩)
      · exact absurd (explored.behind x member edge y next) known
  constructor
  · intro x member
    rcases List.mem_append.mp member with old | new
    · exact explored.linked x old
    · obtain ⟨⟨f, edge, seen⟩, _⟩ := mem_discovered.mp new
      exact looks.linked f (explored.linked f (explored.within edge)) x seen
  · intro k bound x walk
    cases k with
    | zero => exact List.mem_append_left _ (explored.near 0 (Nat.zero_le n) x walk)
    | succ k =>
      obtain ⟨y, before, next⟩ := steps_succ.mp walk
      exact onward y (explored.near k (Nat.le_of_succ_le_succ bound) y before) x next
  · intro x member outside y next
    rcases List.mem_append.mp member with old | new
    · exact onward x old y next
    · exact absurd new outside
  · exact List.subset_append_right _ _

omit [DecidableEq α] in
/-- An empty frontier leaves nothing to discover. -/
theorem Explored.complete (explored : Explored link start n visited []) {x : α} (reached : Linked link start x) : x ∈ visited := by
  obtain ⟨k, walk⟩ := reached
  induction walk with
  | here => exact explored.near 0 (Nat.zero_le n) start .here
  | onward _ next ih => exact explored.behind _ ih List.not_mem_nil _ next

/-- What the rounds find is linked, and where it is not enough it is everything within the number of rounds. -/
theorem Explored.explore (looks : Looks reach link start) (explored : Explored link start n visited frontier) :
    (∀ x ∈ Rounds.explore reach enough rounds visited frontier, Linked link start x) ∧
      (enough (Rounds.explore reach enough rounds visited frontier) = true ∨
        ∀ k ≤ n + rounds, ∀ x, Steps link start k x → x ∈ Rounds.explore reach enough rounds visited frontier) := by
  induction rounds generalizing n visited frontier with
  | zero => exact ⟨explored.linked, .inr explored.near⟩
  | succ rounds ih =>
    unfold Rounds.explore
    by_cases done : frontier.isEmpty = true
    · rw [if_pos done]
      obtain rfl := List.isEmpty_iff.mp done
      exact ⟨explored.linked, .inr fun k _ x walk => explored.complete ⟨k, walk⟩⟩
    · rw [if_neg done]
      have further := explored.round looks
      dsimp only
      split
      · rename_i known
        exact ⟨further.linked, .inl known⟩
      · have rest := ih further
        rw [Nat.add_assoc, Nat.add_comm 1] at rest
        exact rest

end Rounds
