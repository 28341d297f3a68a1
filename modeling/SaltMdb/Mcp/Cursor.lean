import SaltMdb.Library.Decimal

/-! The cursors of the list tools, and the pages they lead to. -/

namespace SaltMdb
open Decimal

/-- What a caller gives as a cursor. -/
inductive CursorArgument where
  | none
  | text (cursor : String)
  | other
deriving DecidableEq, Repr

def cursorPrefix : String := "offset:"

/-- `0|[1-9]\d{0,k}` over the whole of a text, where `k` is one less than the digits there may be. -/
def isCursorNumber (maxDigits : Nat) : List Char → Bool
  | [] => false
  | first :: rest =>
    (first == '0' && rest.isEmpty) || (first.isDigit && first != '0' && rest.all Char.isDigit && decide (rest.length ≤ maxDigits - 1))

/-- The offset, with the message of an error. -/
def cursorOffset (cursor : CursorArgument) (maxOffset : Nat) : Nat × Option String :=
  match cursor with
  | .none => (0, Option.none)
  | .other => (0, some "cursor must be a string.")
  | .text cursor =>
    let maxDigits := (toString maxOffset).length
    let digits := cursor.toList.drop cursorPrefix.length
    if cursorPrefix.toList <+: cursor.toList ∧ isCursorNumber maxDigits digits = true then
      let offset := Nat.ofDigitChars 10 digits 0
      if offset > maxOffset then (0, some s!"cursor offset must be at most {maxOffset}.") else (offset, Option.none)
    else (0, some s!"cursor must match offset:<0..{maxOffset}>.")

/-- The payload of a list tool. -/
structure ListPage (α : Type) where
  items : List α
  hasMore : Bool
  nextCursor : Option String
deriving DecidableEq, Repr

def cursorText (offset : Nat) : String := cursorPrefix ++ toString offset

/-- `page`, of rows that were read with one more than the limit. -/
def listPage {α : Type} (rows : List α) (limit offset : Nat) : ListPage α where
  items := rows.take limit
  hasMore := decide (rows.length > limit)
  nextCursor := if rows.length > limit then some (cursorText (offset + limit)) else none

/-! ### The spelling of an offset -/

variable {maxOffset n : Nat} {cursor : String}

theorem isCursorNumber_numeral {maxDigits : Nat} {digits : List Char} (accepted : isCursorNumber maxDigits digits = true) : Numeral digits := by
  cases digits with
  | nil => exact absurd accepted Bool.false_ne_true
  | cons first rest =>
    unfold isCursorNumber at accepted
    rw [Bool.or_eq_true] at accepted
    rcases accepted with zero | number
    · rw [Bool.and_eq_true, beq_iff_eq, List.isEmpty_iff] at zero
      obtain ⟨rfl, rfl⟩ := zero
      exact .inl rfl
    · simp only [Bool.and_eq_true, bne_iff_ne, List.all_eq_true] at number
      exact .inr ⟨first, rest, rfl, number.1.1.1, number.1.1.2, number.1.2⟩

theorem isCursorNumber_of_numeral {maxDigits : Nat} {digits : List Char} (numeral : Numeral digits) (short : digits.length ≤ maxDigits) :
    isCursorNumber maxDigits digits = true := by
  rcases numeral with rfl | ⟨first, rest, rfl, digit, nonzero, later⟩
  · rfl
  · have few : rest.length ≤ maxDigits - 1 := by
      rw [List.length_cons] at short
      omega
    unfold isCursorNumber
    simp only [digit, bne_iff_ne, ne_eq, nonzero, not_false_eq_true, List.all_eq_true.mpr later, decide_eq_true few, Bool.and_self, Bool.and_true,
      Bool.or_true, Bool.true_and, decide_true]
    simp [nonzero]

theorem toList_cursorText : (cursorText n).toList = cursorPrefix.toList ++ Nat.toDigits 10 n := by
  unfold cursorText
  rw [String.toList_append, Nat.toString_eq_repr, Nat.toList_repr]

theorem cursorText_injective : Function.Injective cursorText := by
  intro m n same
  have digits := congrArg String.toList same
  rw [toList_cursorText, toList_cursorText, List.append_cancel_left_eq] at digits
  have numbers := congrArg (fun digits => Nat.ofDigitChars 10 digits 0) digits
  simpa using numbers

/-- The cursors that are accepted are the texts of the offsets that are allowed, one each. -/
theorem cursorOffset_iff : cursorOffset (.text cursor) maxOffset = (n, none) ↔ cursor = cursorText n ∧ n ≤ maxOffset := by
  have texts : ∀ digits, cursor.toList = cursorPrefix.toList ++ digits → cursor.toList.drop cursorPrefix.length = digits := by
    intro digits spelled
    rw [spelled]
    rfl
  constructor
  · intro accepted
    unfold cursorOffset at accepted
    dsimp only at accepted
    split at accepted
    · rename_i matched
      obtain ⟨⟨digits, spelled⟩, number⟩ := matched
      rw [texts digits spelled.symm] at accepted number
      split at accepted
      · exact absurd (congrArg Prod.snd accepted) (Option.some_ne_none _)
      · rename_i within
        obtain rfl : Nat.ofDigitChars 10 digits 0 = n := congrArg Prod.fst accepted
        refine ⟨String.toList_inj.mp ?_, by omega⟩
        rw [toList_cursorText, toDigits_ofDigitChars (isCursorNumber_numeral number), spelled]
    · exact absurd (congrArg Prod.snd accepted) (Option.some_ne_none _)
  · rintro ⟨rfl, within⟩
    have short : (Nat.toDigits 10 n).length ≤ (toString maxOffset).length := by
      rw [Nat.toString_eq_repr, ← String.length_toList, Nat.toList_repr]
      exact length_toDigits_mono within
    unfold cursorOffset
    dsimp only
    rw [texts _ toList_cursorText, if_pos ⟨⟨_, toList_cursorText.symm⟩, isCursorNumber_of_numeral (numeral_toDigits n) short⟩,
      Nat.ofDigitChars_ten_toDigits, if_neg (by omega)]

theorem cursorOffset_refused (beyond : ¬ n ≤ maxOffset) : ∃ message, cursorOffset (.text (cursorText n)) maxOffset = (0, some message) := by
  cases given : cursorOffset (.text (cursorText n)) maxOffset with
  | mk offset message =>
    cases message with
    | some message =>
      unfold cursorOffset at given
      dsimp only at given
      split at given
      · split at given
        · exact ⟨message, by rw [← (Prod.mk.inj given).1]⟩
        · exact absurd (Prod.mk.inj given).2 (by simp)
      · exact ⟨message, by rw [← (Prod.mk.inj given).1]⟩
    | none =>
      obtain ⟨same, within⟩ := cursorOffset_iff.mp given
      obtain rfl : n = offset := cursorText_injective same
      exact absurd within beyond

/-- A cursor is read back exactly where it is the one spelling of an offset that is allowed, a page's own next cursor among them; what is
refused reads as no offset. -/
theorem cursorOffset_canonical (maxOffset : Nat) :
    (∀ cursor n, cursorOffset (.text cursor) maxOffset = (n, none) ↔ cursor = cursorText n ∧ n ≤ maxOffset) ∧
    (∀ argument, (cursorOffset argument maxOffset).2 ≠ none → (cursorOffset argument maxOffset).1 = 0) ∧
    ∀ (rows : List String) (limit offset : Nat) (cursor : String), (listPage rows limit offset).nextCursor = some cursor →
      offset + limit ≤ maxOffset → cursorOffset (.text cursor) maxOffset = (offset + limit, none) := by
  refine ⟨fun cursor n => cursorOffset_iff, fun argument refused => ?_, fun rows limit offset cursor next within => ?_⟩
  · cases argument with
    | none => exact absurd rfl refused
    | other => rfl
    | text cursor =>
      unfold cursorOffset at refused ⊢
      dsimp only at refused ⊢
      split at refused
      · rename_i matched
        rw [if_pos matched]
        split at refused
        · rename_i beyond
          rw [if_pos beyond]
        · exact absurd rfl refused
      · rename_i unmatched
        rw [if_neg unmatched]
  · unfold listPage at next
    dsimp only at next
    split at next
    · exact cursorOffset_iff.mpr ⟨(Option.some.inj next).symm, within⟩
    · exact absurd next (by simp)

end SaltMdb
