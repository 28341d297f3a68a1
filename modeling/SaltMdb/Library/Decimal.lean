import Mathlib.Data.List.Basic
import Mathlib.Data.List.Induction

/-! Decimal numerals without leading zeros, and that each is the one spelling of its number. -/

namespace Decimal

/-- The digits of a number as it is spelled. -/
def Numeral (digits : List Char) : Prop :=
  digits = ['0'] ∨ ∃ first rest, digits = first :: rest ∧ first.isDigit = true ∧ first ≠ '0' ∧ ∀ c ∈ rest, c.isDigit = true

theorem digit_value {c : Char} (digit : c.isDigit = true) : ∃ d, d < 10 ∧ c = Nat.digitChar d ∧ c.toNat - '0'.toNat = d := by
  rw [Char.isDigit, Bool.and_eq_true, decide_eq_true_eq, decide_eq_true_eq] at digit
  have bounds : 48 ≤ c.toNat ∧ c.toNat ≤ 57 := ⟨digit.1, digit.2⟩
  refine ⟨c.toNat - 48, by omega, ?_, rfl⟩
  have code : c = Char.ofNat c.toNat := (Char.ofNat_toNat c).symm
  obtain ⟨n, here⟩ : ∃ n, c.toNat = n := ⟨_, rfl⟩
  rw [here] at bounds code ⊢
  have listed : n = 48 ∨ n = 49 ∨ n = 50 ∨ n = 51 ∨ n = 52 ∨ n = 53 ∨ n = 54 ∨ n = 55 ∨ n = 56 ∨ n = 57 := by omega
  rcases listed with rfl | rfl | rfl | rfl | rfl | rfl | rfl | rfl | rfl | rfl
  all_goals exact code

/-- A digit behind the spelling of a number that is not zero. -/
theorem toDigits_snoc {n d : Nat} (positive : 0 < n) (digit : d < 10) : Nat.toDigits 10 (10 * n + d) = Nat.toDigits 10 n ++ [Nat.digitChar d] := by
  rw [Nat.toDigits_of_base_le (by decide) (by omega)]
  have front : (10 * n + d) / 10 = n := by omega
  have last : (10 * n + d) % 10 = d := by omega
  rw [front, last]

/-- What spells a number without leading zeros is its spelling. -/
theorem toDigits_ofDigitChars {digits : List Char} (numeral : Numeral digits) : Nat.toDigits 10 (Nat.ofDigitChars 10 digits 0) = digits := by
  rcases numeral with rfl | ⟨first, rest, rfl, digit, nonzero, later⟩
  · rfl
  have run : 0 < Nat.ofDigitChars 10 (first :: rest) 0 ∧ Nat.toDigits 10 (Nat.ofDigitChars 10 (first :: rest) 0) = first :: rest := by
    induction rest using List.reverseRecOn with
    | nil =>
      obtain ⟨d, small, rfl, value⟩ := digit_value digit
      have positive : d ≠ 0 := by
        rintro rfl
        exact nonzero rfl
      rw [Nat.ofDigitChars_cons_digitChar_of_lt_ten small, Nat.ofDigitChars_nil]
      refine ⟨by omega, ?_⟩
      rw [Nat.toDigits_of_lt_base (by omega), Nat.mul_zero, Nat.zero_add]
    | append_singleton rest c ih =>
      obtain ⟨positive, spelled⟩ := ih fun c member => later c (List.mem_append_left _ member)
      obtain ⟨d, small, rfl, _⟩ := digit_value (later c (by simp))
      have value : Nat.ofDigitChars 10 (first :: (rest ++ [Nat.digitChar d])) 0 = 10 * Nat.ofDigitChars 10 (first :: rest) 0 + d := by
        rw [← List.cons_append, Nat.ofDigitChars_append, Nat.ofDigitChars_cons_digitChar_of_lt_ten small, Nat.ofDigitChars_nil]
      rw [value, toDigits_snoc positive small, spelled]
      exact ⟨by omega, rfl⟩
  exact run.2

theorem numeral_toDigits (n : Nat) : Numeral (Nat.toDigits 10 n) := by
  rcases Nat.eq_zero_or_pos n with rfl | positive
  · exact .inl rfl
  have digits : ∀ c ∈ Nat.toDigits 10 n, c.isDigit = true := fun c member => Nat.isDigit_of_mem_toDigits (by decide) (by decide) member
  induction n using Nat.strongRecOn with
  | ind n ih =>
    by_cases small : n < 10
    · have first : Nat.digitChar n ≠ '0' := by
        intro zero
        have value := Nat.toNat_digitChar_sub_48_of_lt_ten small
        rw [zero] at value
        exact absurd value.symm (by simpa using Nat.ne_of_gt positive)
      rw [Nat.toDigits_of_lt_base small] at digits ⊢
      exact .inr ⟨_, [], rfl, digits _ List.mem_cons_self, first, by simp⟩
    · rw [Nat.toDigits_of_base_le (by decide) (by omega)] at digits ⊢
      have shorter := ih (n / 10) (by omega) (by omega) fun c member => digits c (List.mem_append_left _ member)
      rcases shorter with zero | ⟨first, rest, spelled, digit, nonzero, later⟩
      · have none_ : Nat.ofDigitChars 10 (Nat.toDigits 10 (n / 10)) 0 = 0 := by
          rw [zero]
          rfl
        rw [Nat.ofDigitChars_ten_toDigits] at none_
        omega
      · rw [spelled] at digits ⊢
        refine .inr ⟨first, rest ++ [Nat.digitChar (n % 10)], rfl, digit, nonzero, fun c member => digits c ?_⟩
        exact List.mem_cons_of_mem first member

theorem length_toDigits_mono {m n : Nat} (le : m ≤ n) : (Nat.toDigits 10 m).length ≤ (Nat.toDigits 10 n).length := by
  rw [Nat.length_toDigits_le_iff (by decide) Nat.length_toDigits_pos]
  exact Nat.lt_of_le_of_lt le ((Nat.length_toDigits_le_iff (by decide) Nat.length_toDigits_pos).mp (Nat.le_refl _))

end Decimal
