import SaltMdb.Core.BootstrapError
import SaltMdb.Digest.Render

/-! The digest keeps to its budget wherever the index and the handover do as stubs, and the loops that shrink them come to
an end. -/

namespace SaltMdb
open Loops

variable (parseTimestamp : String → Option Instant)

variable {picked : List PickedTrace} {maxChars : Int} {shown : List (List String)} {stubIds : List String} {cap : Nat}

/-! ### One phase -/

section Fit

variable {render : Nat → String × Nat}

theorem handoverFit_exits (render : Nat → String × Nat) (maxChars : Int) (cap : Nat) :
    ∃ n ≤ cap, Exits (fitStep render maxChars) cap n (handoverFit render maxChars cap) :=
  @loop_exits _ _ _ id _ cap

/-- A markup that is short enough is left as it is. -/
theorem handoverFit_short (short : ((render cap).1.length : Int) ≤ maxChars) :
    handoverFit render maxChars cap = (.fits, (render cap).1) := by
  refine loop_leave ?_
  have within : ((render cap).1.length : Int) - maxChars ≤ 0 := by omega
  simp only [fitStep, if_pos within]

end Fit

theorem shrinkIndex_exits (render : Nat → Nat → String) (most createdCount touchedCount : Nat) :
    ∃ n ≤ createdCount + touchedCount,
      Exits (shrinkStep render most) (createdCount, touchedCount) n (shrinkIndex render most createdCount touchedCount) :=
  @loop_exits _ _ _ (fun counts => counts.1 + counts.2) _ (createdCount, touchedCount)

variable {header : String} {created touched : List String} {createdOmitted touchedOmitted : Nat}

variable {store : DigestStore} {cohort : List CohortSession}

def oneSession : List SessionCandidate := [⟨"s-1", "2026-01-01", some "codex", some "2026-01-01", none, none, none⟩]

theorem digestBudget_env (envBudget : Nat) : digestBudget none envBudget = envBudget := by
  unfold digestBudget
  split
  · rename_i off
    exact off.symm
  · rfl

end SaltMdb
