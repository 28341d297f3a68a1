import Mathlib.Data.Option.Basic

/-! What an observer who sees a view of the state can be told: a result that every state of the same view agrees on. -/

namespace Views

variable {σ ν ρ τ : Type}

/-- No state that looks like `s` gives another result. -/
def SecureAt (view : σ → ν) (f : σ → ρ) (s : σ) : Prop := ∀ t, view t = view s → f t = f s

variable {view : σ → ν} {f : σ → ρ} {g : σ → ρ} {s : σ}

theorem secureAt_of_factors (through : ν → ρ) (factors : ∀ s, f s = through (view s)) : SecureAt view f s := by
  intro t same
  rw [factors, factors, same]

theorem SecureAt.map (secure : SecureAt view f s) (h : ρ → τ) : SecureAt view (fun s => h (f s)) s :=
  fun t same => congrArg h (secure t same)

/-- A result that falls back on a secure one is secure where it agrees with it whenever a state of the view gives it. -/
theorem SecureAt.of_eq (secure : SecureAt view g s) (agrees : ∀ t, view t = view s → f t = g t) : SecureAt view f s := by
  intro t same
  rw [agrees t same, agrees s rfl, secure t same]

/-- Two results in states that look alike are one. -/
theorem SecureAt.unique (secure : SecureAt view f s) {t u : σ} (ht : view t = view s) (hu : view u = view s) : f t = f u :=
  (secure t ht).trans (secure u hu).symm

end Views
