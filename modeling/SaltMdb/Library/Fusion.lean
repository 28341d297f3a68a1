import Mathlib.Data.List.Nodup
import Mathlib.Data.List.Perm.Subperm
import Mathlib.Data.List.Sort
import Mathlib.Tactic.TypeStar

/-! Scores that several ranked lists give to the names in them, and the best of these names. -/

namespace Fusion

variable {α σ : Type*} [DecidableEq α]

/-- The score of a name, merged with the one it has. -/
def enterScore (merge : σ → σ → σ) (scores : List (α × σ)) (key : α) (x : σ) : List (α × σ) :=
  if key ∈ scores.map Prod.fst then scores.map fun entry => if entry.1 = key then (key, merge entry.2 x) else entry
  else scores ++ [(key, x)]

def enterAll (merge : σ → σ → σ) (scores entries : List (α × σ)) : List (α × σ) :=
  entries.foldl (fun scores entry => enterScore merge scores entry.1 entry.2) scores

/-- Each place of a ranked list has its share. -/
def shares (share : Nat → σ) (ids : List α) : List (α × σ) := ids.zipIdx.map fun row => (row.1, share row.2)

variable {merge : σ → σ → σ} {scores entries : List (α × σ)} {key : α} {x : σ}

section
variable [LinearOrder σ]

/-- The entries by descending score; equal scores stay in order. -/
def byScore (scores : List (α × σ)) : List (α × σ) := scores.insertionSort fun a b => b.2 ≤ a.2

theorem byScore_perm (scores : List (α × σ)) : (byScore scores).Perm scores := List.perm_insertionSort _ scores

end

end Fusion
