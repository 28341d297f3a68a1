import Mathlib.Data.List.Count

/-! Labelled moves, one after the other. -/

namespace Traces

variable {σ ℓ : Type} (move : σ → ℓ → σ → Prop)

/-- The labels, in order, lead from one state to the other. -/
inductive Trace : σ → List ℓ → σ → Prop
  | done (s : σ) : Trace s [] s
  | move {s t u : σ} {l : ℓ} {labels : List ℓ} (first : move s l t) (rest : Trace t labels u) : Trace s (l :: labels) u

variable {move} {s t u : σ} {l : ℓ} {labels more : List ℓ}

theorem Trace.single (first : move s l t) : Trace move s [l] t := .move first (.done t)

theorem Trace.append (first : Trace move s labels t) (second : Trace move t more u) : Trace move s (labels ++ more) u := by
  induction first with
  | done => exact second
  | move step _ ih => exact .move step (ih second)

theorem Trace.invariant {P : σ → Prop} (step : ∀ s l t, P s → move s l t → P t) (trace : Trace move s labels t) (start : P s) :
    P t := by
  induction trace with
  | done => exact start
  | move first _ ih => exact ih (step _ _ _ start first)

/-- A state that only labels of one kind leave is where the trace ends, where it has none of the kind. -/
theorem Trace.stuck (leaves : ℓ → Prop) (only : ∀ l t, move s l t → leaves l) (trace : Trace move s labels t)
    (none_ : ∀ l ∈ labels, ¬ leaves l) : t = s := by
  cases trace with
  | done => rfl
  | move first _ => exact absurd (only _ _ first) (none_ _ List.mem_cons_self)

/-- Where every move of a kind uses one of what is spent and no allowed move gives it back, the moves of the kind are
paid for by what the states spend. -/
theorem Trace.spends [DecidableEq ℓ] (spent : σ → Nat) (costly : ℓ) {allowed : ℓ → Prop}
    (step : ∀ s l t, allowed l → move s l t → spent s + [l].count costly ≤ spent t) (trace : Trace move s labels t)
    (only : ∀ l ∈ labels, allowed l) : spent s + labels.count costly ≤ spent t := by
  induction trace with
  | done => simp
  | @move s t u l labels first _ ih =>
    have here := step s l t (only l List.mem_cons_self) first
    have later := ih fun k listed => only k (List.mem_cons_of_mem l listed)
    have split : (l :: labels).count costly = [l].count costly + labels.count costly := by
      rw [← List.singleton_append, List.count_append]
    omega

end Traces
