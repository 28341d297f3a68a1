/-! Loops that a measure of the state brings to an end: the result, and the passes it takes. -/

namespace Loops

variable {σ β : Type} (step : σ → σ ⊕ β) (measure : σ → Nat)

/-- A pass goes on with a smaller state or leaves with a result. -/
def loop (decreases : ∀ s next, step s = .inl next → measure next < measure s) (s : σ) : β :=
  match pass : step s with
  | .inl next => loop decreases next
  | .inr result => result
termination_by measure s
decreasing_by exact decreases s next pass

/-- The loop is left with this result after so many passes more. -/
inductive Exits : σ → Nat → β → Prop where
  | leave {s : σ} {result : β} : step s = .inr result → Exits s 0 result
  | pass {s next : σ} {n : Nat} {result : β} : step s = .inl next → Exits next n result → Exits s (n + 1) result

variable {step measure} {decreases : ∀ s next, step s = .inl next → measure next < measure s}

theorem loop_again {s next : σ} (pass : step s = .inl next) : loop step measure decreases s = loop step measure decreases next := by
  rw [loop]
  split
  · rename_i other again
    rw [pass] at again
    rw [Sum.inl.inj again]
  · rename_i left
    rw [pass] at left
    cases left

theorem loop_leave {s : σ} {result : β} (left : step s = .inr result) : loop step measure decreases s = result := by
  rw [loop]
  split
  · rename_i again
    rw [left] at again
    cases again
  · rename_i other here
    rw [left] at here
    exact (Sum.inr.inj here).symm

theorem loop_exits (s : σ) : ∃ n ≤ measure s, Exits step s n (loop step measure decreases s) := by
  fun_induction loop step measure decreases s with
  | case1 s next pass ih =>
    obtain ⟨n, few, exits⟩ := ih
    have less := decreases s next pass
    exact ⟨n + 1, by omega, .pass pass exits⟩
  | case2 s result here => exact ⟨0, Nat.zero_le _, .leave here⟩

/-- The result is the one of the last pass. -/
theorem Exits.leaves {s : σ} {n : Nat} {result : β} (exits : Exits step s n result) : ∃ last, step last = .inr result := by
  induction exits with
  | leave here => exact ⟨_, here⟩
  | pass _ _ ih => exact ih

end Loops
