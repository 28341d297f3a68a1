import SaltMdb.Search.Families
import SaltMdb.Search.Overfetch

/-! The pages of a search inside the first candidate window. -/

namespace SaltMdb
open Nearest Fusion

/-! ### Pages of a list -/

theorem mem_page {α : Type*} {offset limit : Nat} {xs : List α} {x : α} :
    x ∈ page offset limit xs ↔ ∃ rank, offset ≤ rank ∧ rank < offset + limit ∧ xs[rank]? = some x := by
  unfold page
  rw [List.mem_iff_getElem?]
  constructor
  · rintro ⟨n, found⟩
    rw [List.getElem?_take, List.getElem?_drop] at found
    split at found
    · exact ⟨offset + n, by omega, by omega, found⟩
    · simp at found
  · rintro ⟨rank, after, before, found⟩
    refine ⟨rank - offset, ?_⟩
    rw [List.getElem?_take, if_pos (by omega), List.getElem?_drop, show offset + (rank - offset) = rank by omega]
    exact found

variable {ν δ : Type*} [LinearOrder δ] {s : SearchStore ν δ} {clauses : Clauses} {controls : SearchControls} {now : Instant} {id : EntityId}

/-- The `k`-th page of `limit` memories. -/
def SearchStore.pageIds (s : SearchStore ν δ) (clauses : Clauses) (controls : SearchControls) (now : Instant) (limit k : Nat) :
    List EntityId :=
  (searchMemory s clauses controls now (k * limit) limit).map (·.id)

end SaltMdb
