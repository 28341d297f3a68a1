import Mathlib.Data.List.Nodup
import Mathlib.Logic.Relation

/-! Nodes that arrive, retire, and are succeeded by new ones: what is ever recorded of the successions is a
forest, whatever the order of the steps. -/

namespace Succession

/-- `edges` holds every succession ever recorded, as pairs of the new node and an old one. -/
structure State (α : Type) where
  nodes : List α
  retired : α → Prop
  edges : List (α × α)

variable {α : Type}

inductive Step (s : State α) : State α → Prop where
  | arrive (n : α) (fresh : n ∉ s.nodes) : Step s { s with nodes := s.nodes ++ [n] }
  | retire (olds : α → Prop) : Step s { s with retired := fun a => s.retired a ∨ olds a }
  | succeed (n : α) (olds : List α) (fresh : n ∉ s.nodes) (present : ∀ o ∈ olds, o ∈ s.nodes)
      (live : ∀ o ∈ olds, ¬ s.retired o) (distinct : olds.Nodup) :
      Step s ⟨s.nodes ++ [n], fun a => s.retired a ∨ a ∈ olds, s.edges ++ olds.map fun o => (n, o)⟩

abbrev Steps : State α → State α → Prop := Relation.ReflTransGen Step

variable {s t : State α}

theorem Step.retired_mono (h : Step s t) {a : α} (retired : s.retired a) : t.retired a := by
  cases h with
  | arrive n fresh => exact retired
  | retire olds => exact Or.inl retired
  | succeed n olds fresh present live distinct => exact Or.inl retired

theorem Steps.retired_mono (h : Steps s t) {a : α} (retired : s.retired a) : t.retired a := by
  induction h with
  | refl => exact retired
  | tail _ step ih => exact step.retired_mono ih

section Forest
variable [DecidableEq α]

/-- Every node is succeeded at most once, only retired nodes are, and only by nodes that arrived later. -/
structure Forest (s : State α) : Prop where
  once : (s.edges.map Prod.snd).Nodup
  retired : ∀ e ∈ s.edges, s.retired e.2
  present : ∀ e ∈ s.edges, e.1 ∈ s.nodes ∧ e.2 ∈ s.nodes
  later : ∀ e ∈ s.edges, s.nodes.idxOf e.2 < s.nodes.idxOf e.1

theorem Forest.arrive (h : Forest s) (n : α) :
    Forest { s with nodes := s.nodes ++ [n] } where
  once := h.once
  retired := h.retired
  present := fun e member =>
    ⟨List.mem_append_left _ (h.present e member).1, List.mem_append_left _ (h.present e member).2⟩
  later := by
    intro e member
    obtain ⟨source, target⟩ := h.present e member
    rw [List.idxOf_append_of_mem source, List.idxOf_append_of_mem target]
    exact h.later e member

theorem Forest.retire (h : Forest s) (olds : α → Prop) :
    Forest { s with retired := fun a => s.retired a ∨ olds a } where
  once := h.once
  retired := fun e member => Or.inl (h.retired e member)
  present := h.present
  later := h.later

theorem Forest.succeed (h : Forest s) (n : α) (olds : List α) (fresh : n ∉ s.nodes)
    (present : ∀ o ∈ olds, o ∈ s.nodes) (live : ∀ o ∈ olds, ¬ s.retired o) (distinct : olds.Nodup) :
    Forest ⟨s.nodes ++ [n], fun a => s.retired a ∨ a ∈ olds, s.edges ++ olds.map fun o => (n, o)⟩ := by
  have grown := h.arrive n
  constructor
  · have targets : (olds.map fun o => (n, o)).map Prod.snd = olds := by simp [Function.comp_def]
    rw [List.map_append, targets, List.nodup_append]
    refine ⟨h.once, distinct, ?_⟩
    rintro old recorded o new rfl
    obtain ⟨e, member, rfl⟩ := List.mem_map.mp recorded
    exact live e.2 new (h.retired e member)
  · intro e member
    rcases List.mem_append.mp member with old | new
    · exact Or.inl (h.retired e old)
    · obtain ⟨o, chosen, rfl⟩ := List.mem_map.mp new
      exact Or.inr chosen
  · intro e member
    rcases List.mem_append.mp member with old | new
    · exact grown.present e old
    · obtain ⟨o, chosen, rfl⟩ := List.mem_map.mp new
      exact ⟨List.mem_append_right _ (List.mem_singleton_self n), List.mem_append_left _ (present o chosen)⟩
  · intro e member
    rcases List.mem_append.mp member with old | new
    · exact grown.later e old
    · obtain ⟨o, chosen, rfl⟩ := List.mem_map.mp new
      rw [List.idxOf_append_of_mem (present o chosen), List.idxOf_append_of_notMem fresh]
      exact Nat.lt_of_lt_of_le (List.idxOf_lt_length_of_mem (present o chosen)) (Nat.le_add_right _ _)

theorem Forest.step (h : Forest s) (step : Step s t) : Forest t := by
  cases step with
  | arrive n fresh => exact h.arrive n
  | retire olds => exact h.retire olds
  | succeed n olds fresh present live distinct => exact h.succeed n olds fresh present live distinct

theorem Forest.steps (h : Forest s) (steps : Steps s t) : Forest t := by
  induction steps with
  | refl => exact h
  | tail _ step ih => exact ih.step step

theorem Forest.acyclic (h : Forest s) (a : α) : ¬ Relation.TransGen (fun x y => (x, y) ∈ s.edges) a a := by
  have descends : ∀ {x y}, Relation.TransGen (fun x y => (x, y) ∈ s.edges) x y →
      s.nodes.idxOf y < s.nodes.idxOf x := by
    intro x y path
    induction path with
    | single edge => exact h.later _ edge
    | tail _ edge ih => exact Nat.lt_trans (h.later _ edge) ih
  exact fun cycle => Nat.lt_irrefl _ (descends cycle)

end Forest
end Succession
