import Mathlib.Data.List.Basic

/-! A stream that arrives in pieces, and a reader that asks for a number of elements until it has them: what it gets does not
depend on where the pieces end. -/

namespace Framing

variable {α : Type}

/-- What one receive call finds ready; an empty answer only ever means the end. -/
abbrev Piece (α : Type) := { piece : List α // piece ≠ [] }

def content (pieces : List (Piece α)) : List α := pieces.flatMap (·.val)

@[simp] theorem content_nil : content ([] : List (Piece α)) = [] := rfl

@[simp] theorem content_cons (piece : Piece α) (pieces : List (Piece α)) : content (piece :: pieces) = piece.val ++ content pieces := rfl

theorem content_eq_nil {pieces : List (Piece α)} (empty : content pieces = []) : pieces = [] := by
  cases pieces with
  | nil => rfl
  | cons piece rest =>
    rw [content_cons, List.append_eq_nil_iff] at empty
    exact (piece.property empty.1).elim

/-- One receive call for at most `n` elements, and what stays in the stream. -/
def receive (n : Nat) : List (Piece α) → List α × List (Piece α)
  | [] => ([], [])
  | piece :: rest =>
    if long : n < piece.val.length then
      (piece.val.take n, ⟨piece.val.drop n, by simpa [List.drop_eq_nil_iff] using long⟩ :: rest)
    else (piece.val, rest)

theorem receive_content (n : Nat) (pieces : List (Piece α)) :
    (receive n pieces).1 ++ content (receive n pieces).2 = content pieces := by
  cases pieces with
  | nil => rfl
  | cons piece rest =>
    simp only [receive]
    split
    · simp [← List.append_assoc]
    · rfl

theorem receive_length (n : Nat) (pieces : List (Piece α)) : (receive n pieces).1.length ≤ n := by
  cases pieces with
  | nil => simp [receive]
  | cons piece rest =>
    simp only [receive]
    split
    · exact List.length_take_le n piece.val
    · rename_i short
      exact Nat.not_lt.mp short

theorem receive_nonempty {n : Nat} (asked : 0 < n) {pieces : List (Piece α)} (empty : (receive n pieces).1 = []) : pieces = [] := by
  cases pieces with
  | nil => rfl
  | cons piece rest =>
    have some_element := List.length_pos_iff.mpr piece.property
    simp only [receive] at empty
    split at empty
    · rw [List.take_eq_nil_iff] at empty
      rcases empty with zero | none_left
      · omega
      · exact (piece.property none_left).elim
    · exact (piece.property empty).elim

/-- Receive calls until there are `n` elements; `none` where the stream ends before. -/
def receiveExact (n : Nat) (pieces : List (Piece α)) : Option (List α × List (Piece α)) :=
  if n = 0 then some ([], pieces)
  else if _ended : (receive n pieces).1 = [] then none
  else (receiveExact (n - (receive n pieces).1.length) (receive n pieces).2).map fun later => ((receive n pieces).1 ++ later.1, later.2)
termination_by n
decreasing_by
  have some_element := List.length_pos_iff.mpr _ended
  omega

/-- The first `n` elements and the rest. -/
def splitExact (n : Nat) (elements : List α) : Option (List α × List α) :=
  if n ≤ elements.length then some (elements.take n, elements.drop n) else none

theorem splitExact_append (n : Nat) (first second : List α) (short : first.length ≤ n) :
    splitExact n (first ++ second) = (splitExact (n - first.length) second).map fun later => (first ++ later.1, later.2) := by
  unfold splitExact
  have enough : n ≤ (first ++ second).length ↔ n - first.length ≤ second.length := by
    rw [List.length_append]
    omega
  by_cases fits : n - first.length ≤ second.length
  · rw [if_pos fits, if_pos (enough.mpr fits), List.take_append, List.drop_append, List.take_of_length_le short,
      List.drop_of_length_le short]
    rfl
  · rw [if_neg fits, if_neg (fun h => fits (enough.mp h))]
    rfl

theorem splitExact_self (first second : List α) : splitExact first.length (first ++ second) = some (first, second) := by
  simp [splitExact]

/-- The reader sees the content only. -/
theorem receiveExact_content (n : Nat) (pieces : List (Piece α)) :
    (receiveExact n pieces).map (fun got => (got.1, content got.2)) = splitExact n (content pieces) := by
  induction n, pieces using receiveExact.induct with
  | case1 pieces =>
    rw [receiveExact, if_pos rfl]
    simp [splitExact]
  | case2 n pieces positive ended =>
    rw [receiveExact, if_neg positive, dif_pos ended, receive_nonempty (Nat.pos_of_ne_zero positive) ended]
    simp [splitExact, positive]
  | case3 n pieces positive more ih =>
    rw [receiveExact, if_neg positive, dif_neg more, ← receive_content n pieces,
      splitExact_append n _ _ (receive_length n pieces), ← ih, Option.map_map, Option.map_map]
    rfl

theorem receiveExact_eq_none {n : Nat} {pieces : List (Piece α)} :
    receiveExact n pieces = none ↔ splitExact n (content pieces) = none := by
  rw [← receiveExact_content, Option.map_eq_none_iff]

theorem splitExact_of_receiveExact {n : Nat} {pieces rest : List (Piece α)} {got : List α}
    (h : receiveExact n pieces = some (got, rest)) : splitExact n (content pieces) = some (got, content rest) := by
  rw [← receiveExact_content, h]
  rfl

end Framing
