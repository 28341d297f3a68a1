import Std.Data.String.ToInt
import Mathlib.Data.List.Infix

/-!
# Compact JSON

A value's text with nothing between its tokens determines the value, and no line break stands in it.
-/

namespace Json

/-! ### Escapes -/

/-- The letters that stand behind a backslash for a character of their own. -/
def shortEscape (c : Char) : Option Char :=
  if c = '"' then some '"'
  else if c = '\\' then some '\\'
  else if c = '\n' then some 'n'
  else if c = '\r' then some 'r'
  else if c = '\t' then some 't'
  else if c = '\x0c' then some 'f'
  else if c = '\x08' then some 'b'
  else none

def hexDigit (n : Nat) : Char := Nat.digitChar (n % 16)

/-- Quotation marks, backslashes and control characters; every other character stands for itself. -/
def escape (c : Char) : List Char :=
  match shortEscape c with
  | some letter => ['\\', letter]
  | none => if c.toNat < 32 then ['\\', 'u', '0', '0', hexDigit (c.toNat / 16), hexDigit c.toNat] else [c]

def quoted (text : List Char) : List Char := '"' :: text.flatMap escape ++ ['"']

theorem shortEscape_some {c letter : Char} (short : shortEscape c = some letter) :
    (c, letter) ∈ [('"', '"'), ('\\', '\\'), ('\n', 'n'), ('\r', 'r'), ('\t', 't'), ('\x0c', 'f'), ('\x08', 'b')] := by
  unfold shortEscape at short
  split_ifs at short with h₁ h₂ h₃ h₄ h₅ h₆ h₇ <;> cases short <;> simp_all

theorem shortEscape_none {c : Char} (plain : shortEscape c = none) : c ≠ '"' ∧ c ≠ '\\' ∧ c ≠ '\n' := by
  refine ⟨?_, ?_, ?_⟩
  all_goals
    rintro rfl
    exact absurd plain (by decide)

theorem shortEscape_inj {c d letter : Char} (first : shortEscape c = some letter) (second : shortEscape d = some letter) : c = d := by
  have one := shortEscape_some first
  have other := shortEscape_some second
  simp only [List.mem_cons, Prod.mk.injEq, List.not_mem_nil, or_false] at one other
  rcases one with ⟨rfl, rfl⟩ | ⟨rfl, rfl⟩ | ⟨rfl, rfl⟩ | ⟨rfl, rfl⟩ | ⟨rfl, rfl⟩ | ⟨rfl, rfl⟩ | ⟨rfl, rfl⟩ <;> simp_all

theorem hexDigit_inj : ∀ m < 16, ∀ n < 16, hexDigit m = hexDigit n → m = n := by decide

theorem hexDigit_mod (n : Nat) : hexDigit n = hexDigit (n % 16) := by
  unfold hexDigit
  rw [Nat.mod_mod]

theorem control_eq {c d : Char} (low : c.toNat < 32) (low' : d.toNat < 32)
    (upper : hexDigit (c.toNat / 16) = hexDigit (d.toNat / 16)) (lower : hexDigit c.toNat = hexDigit d.toNat) : c = d := by
  have high := hexDigit_inj _ (by omega) _ (by omega) upper
  rw [hexDigit_mod, hexDigit_mod d.toNat] at lower
  have small := hexDigit_inj _ (Nat.mod_lt _ (by omega)) _ (Nat.mod_lt _ (by omega)) lower
  have same : c.toNat = d.toNat := by omega
  exact Char.toNat_inj.mp same

/-- An escape, or a character that is neither a quotation mark nor a backslash. -/
theorem escape_cases (c : Char) :
    (∃ letter, shortEscape c = some letter ∧ letter ≠ 'u' ∧ escape c = ['\\', letter]) ∨
    (c.toNat < 32 ∧ escape c = ['\\', 'u', '0', '0', hexDigit (c.toNat / 16), hexDigit c.toNat]) ∨
    (c ≠ '"' ∧ c ≠ '\\' ∧ c ≠ '\n' ∧ escape c = [c]) := by
  cases short : shortEscape c with
  | some letter =>
    refine .inl ⟨letter, rfl, ?_, by rw [escape, short]⟩
    rintro rfl
    have listed := shortEscape_some short
    simp at listed
  | none =>
    by_cases control : c.toNat < 32
    · exact .inr (.inl ⟨control, by simp only [escape, short, control, if_true]⟩)
    · obtain ⟨quote, backslash, newline⟩ := shortEscape_none short
      exact .inr (.inr ⟨quote, backslash, newline, by simp only [escape, short, control, if_false]⟩)

/-- One escape is read off the front of a text in one way. -/
theorem escape_unique {c d : Char} {s t : List Char} (same : escape c ++ s = escape d ++ t) : c = d ∧ s = t := by
  rcases escape_cases c with ⟨l, short, notU, text⟩ | ⟨low, text⟩ | ⟨-, plain, -, text⟩ <;>
    rcases escape_cases d with ⟨l', short', notU', text'⟩ | ⟨low', text'⟩ | ⟨-, plain', -, text'⟩ <;>
      rw [text, text'] at same <;> simp only [List.cons_append, List.nil_append, List.cons.injEq, true_and] at same
  · obtain ⟨rfl, rest⟩ := same
    exact ⟨shortEscape_inj short short', rest⟩
  · exact absurd same.1 notU
  · exact absurd same.1.symm plain'
  · exact absurd same.1.symm notU'
  · obtain ⟨upper, lower, rest⟩ := same
    exact ⟨control_eq low low' upper lower, rest⟩
  · exact absurd same.1.symm plain'
  · exact absurd same.1 plain
  · exact absurd same.1 plain
  · exact same

theorem escape_head (c : Char) (s t : List Char) : escape c ++ s ≠ '"' :: t := by
  rcases escape_cases c with ⟨l, -, -, text⟩ | ⟨-, text⟩ | ⟨quote, -, -, text⟩ <;> rw [text] <;> simp
  exact fun same => absurd same quote

theorem hexDigit_newline : ∀ n, hexDigit n ≠ '\n' := by
  intro n
  rw [hexDigit_mod]
  have small := Nat.mod_lt n (show 0 < 16 by omega)
  revert small
  generalize n % 16 = m
  revert m
  decide

theorem escape_newline (c : Char) : '\n' ∉ escape c := by
  rcases escape_cases c with ⟨l, short, -, text⟩ | ⟨-, text⟩ | ⟨-, -, newline, text⟩ <;> rw [text]
  · have listed := shortEscape_some short
    rintro member
    simp only [List.mem_cons, List.not_mem_nil, or_false, Prod.mk.injEq] at member listed
    rcases member with bad | rfl
    · exact absurd bad (by decide)
    · simp at listed
  · have upper := (hexDigit_newline (c.toNat / 16)).symm
    have lower := (hexDigit_newline c.toNat).symm
    simp [upper, lower]
  · simpa using newline.symm

theorem escapes_unique {xs ys : List Char} {s t : List Char}
    (same : xs.flatMap escape ++ '"' :: s = ys.flatMap escape ++ '"' :: t) : xs = ys ∧ s = t := by
  induction xs generalizing ys with
  | nil =>
    cases ys with
    | nil => simpa using same
    | cons y ys =>
      rw [List.flatMap_nil, List.nil_append, List.flatMap_cons, List.append_assoc] at same
      exact absurd same.symm (escape_head y _ _)
  | cons x xs ih =>
    cases ys with
    | nil =>
      rw [List.flatMap_nil, List.nil_append, List.flatMap_cons, List.append_assoc] at same
      exact absurd same (escape_head x _ _)
    | cons y ys =>
      rw [List.flatMap_cons, List.flatMap_cons, List.append_assoc, List.append_assoc] at same
      obtain ⟨rfl, rest⟩ := escape_unique same
      obtain ⟨rfl, left⟩ := ih rest
      exact ⟨rfl, left⟩

theorem quoted_unique {xs ys s t : List Char} (same : quoted xs ++ s = quoted ys ++ t) : xs = ys ∧ s = t := by
  refine escapes_unique (s := s) (t := t) ?_
  simpa [quoted] using same

theorem quoted_newline (xs : List Char) : '\n' ∉ quoted xs := by
  unfold quoted
  intro member
  simp only [List.cons_append, List.mem_cons, List.mem_append, List.mem_flatMap, List.not_mem_nil, or_false] at member
  rcases member with bad | ⟨c, -, inside⟩ | bad
  · exact absurd bad (by decide)
  · exact escape_newline c inside
  · exact absurd bad (by decide)

/-! ### Numerals -/

def numeralStart (c : Char) : Bool := c.isDigit || c = '-' || c = 'I' || c = 'N'

def numeralPart (c : Char) : Bool := c ∉ [',', ']', '}', '\n']

def isNumeral : List Char → Bool
  | [] => false
  | c :: rest => numeralStart c && (c :: rest).all numeralPart

/-- A number, as the text it is printed with. -/
structure Numeral where
  text : List Char
  valid : isNumeral text = true
  deriving DecidableEq

theorem digit_part {c : Char} (digit : c.isDigit = true) : numeralPart c = true := by
  unfold numeralPart
  rw [decide_eq_true_eq]
  intro member
  simp only [List.mem_cons, List.not_mem_nil, or_false] at member
  rcases member with rfl | rfl | rfl | rfl <;> exact absurd digit (by decide)

theorem natRepr_digits (n : Nat) : ∀ c ∈ (Nat.repr n).toList, c.isDigit = true := by
  intro c member
  rw [Nat.toList_repr] at member
  exact Nat.isDigit_of_mem_toDigits (by omega) (by omega) member

/-- The digits of a number, behind a sign where it is negative. -/
theorem intRepr_chars (i : Int) : ∃ sign digits, (Int.repr i).toList = sign ++ digits ∧ (sign = [] ∨ sign = ['-']) ∧ digits ≠ [] ∧
    ∀ c ∈ digits, c.isDigit = true := by
  have nonempty : ∀ n : Nat, (Nat.repr n).toList ≠ [] := fun n empty => Nat.repr_ne_empty (String.toList_eq_nil_iff.mp empty)
  cases i with
  | ofNat n => exact ⟨[], (Nat.repr n).toList, rfl, .inl rfl, nonempty n, natRepr_digits n⟩
  | negSucc n =>
    have signed : Int.repr (Int.negSucc n) = "-" ++ Nat.repr (n + 1) := rfl
    exact ⟨['-'], (Nat.repr (n + 1)).toList, by rw [signed, String.toList_append]; rfl, .inr rfl, nonempty _, natRepr_digits _⟩

theorem intRepr_numeral (i : Int) : isNumeral (Int.repr i).toList = true := by
  obtain ⟨sign, digits, text, one, nonempty, digit⟩ := intRepr_chars i
  obtain ⟨d, rest, rfl⟩ := List.exists_cons_of_ne_nil nonempty
  have parts : (d :: rest).all numeralPart = true := List.all_eq_true.mpr fun c member => digit_part (digit c member)
  rw [text]
  rcases one with rfl | rfl
  · simp only [List.nil_append, isNumeral, numeralStart, digit d List.mem_cons_self, parts, Bool.true_or, Bool.and_self]
  · simp only [List.singleton_append, isNumeral, List.all_cons] at parts ⊢
    rw [parts]
    decide

def Numeral.ofInt (i : Int) : Numeral := ⟨(Int.repr i).toList, intRepr_numeral i⟩

theorem Numeral.ofInt_inj {i j : Int} (same : Numeral.ofInt i = Numeral.ofInt j) : i = j :=
  Int.repr_injective (String.toList_inj.mp (congrArg Numeral.text same))

theorem Numeral.parts (n : Numeral) : ∀ c ∈ n.text, numeralPart c = true := by
  obtain ⟨text, valid⟩ := n
  cases text with
  | nil => simp
  | cons c rest =>
    simp only [isNumeral, Bool.and_eq_true] at valid
    exact List.all_eq_true.mp valid.2

theorem Numeral.start (n : Numeral) : ∃ c rest, n.text = c :: rest ∧ numeralStart c = true := by
  obtain ⟨text, valid⟩ := n
  cases text with
  | nil => simp [isNumeral] at valid
  | cons c rest =>
    simp only [isNumeral, Bool.and_eq_true] at valid
    exact ⟨c, rest, rfl, valid.1⟩

/-! ### Values -/

/-- A value to encode; the pairs of an object stand in the order in which they are printed. -/
inductive Value
  | null
  | bool (b : Bool)
  | number (n : Numeral)
  | text (s : String)
  | array (items : List Value)
  | object (pairs : List (String × Value))

mutual

def render : Value → List Char
  | .null => ['n', 'u', 'l', 'l']
  | .bool true => ['t', 'r', 'u', 'e']
  | .bool false => ['f', 'a', 'l', 's', 'e']
  | .number n => n.text
  | .text s => quoted s.toList
  | .array [] => ['[', ']']
  | .array (item :: items) => '[' :: (render item ++ renderItems items)
  | .object [] => ['{', '}']
  | .object ((key, value) :: pairs) => '{' :: (quoted key.toList ++ ':' :: (render value ++ renderPairs pairs))

def renderItems : List Value → List Char
  | [] => [']']
  | item :: items => ',' :: (render item ++ renderItems items)

def renderPairs : List (String × Value) → List Char
  | [] => ['}']
  | (key, value) :: pairs => ',' :: (quoted key.toList ++ ':' :: (render value ++ renderPairs pairs))

end

/-! ### One value for each text -/

/-- What may follow a value: nothing, or a character that no number goes on with. -/
def Stops (s : List Char) : Prop := ∀ c rest, s = c :: rest → numeralPart c = false

theorem stops_nil : Stops [] := nofun

theorem stops_cons {c : Char} {s : List Char} (outside : numeralPart c = false) : Stops (c :: s) := by
  rintro c' rest same
  rw [← (List.cons.inj same).1]
  exact outside

theorem takeWhile_numeral {n : Numeral} {s : List Char} (stops : Stops s) : (n.text ++ s).takeWhile numeralPart = n.text := by
  have ends : s.takeWhile numeralPart = [] := by
    cases s with
    | nil => rfl
    | cons c rest => simp [stops c rest rfl]
  rw [List.takeWhile_append_of_pos n.parts, ends, List.append_nil]

theorem numeral_unique {n m : Numeral} {s t : List Char} (stops : Stops s) (stops' : Stops t) (same : n.text ++ s = m.text ++ t) :
    n = m ∧ s = t := by
  have texts : n.text = m.text := by rw [← takeWhile_numeral (n := n) stops, same, takeWhile_numeral stops']
  rw [texts] at same
  cases n
  cases m
  exact ⟨by simpa using texts, List.append_cancel_left same⟩

/-- The kind of value that a first character announces. -/
def kind (c : Char) : Nat :=
  if c = 'n' then 0 else if c = 't' then 1 else if c = 'f' then 2 else if c = '"' then 3 else if c = '[' then 4
  else if c = '{' then 5 else if numeralStart c then 6 else 7

def Value.kind : Value → Nat
  | .null => 0
  | .bool true => 1
  | .bool false => 2
  | .text _ => 3
  | .array _ => 4
  | .object _ => 5
  | .number _ => 6

theorem kind_numeral {c : Char} (start : numeralStart c = true) : kind c = 6 := by
  have apart : c ≠ 'n' ∧ c ≠ 't' ∧ c ≠ 'f' ∧ c ≠ '"' ∧ c ≠ '[' ∧ c ≠ '{' := by
    refine ⟨?_, ?_, ?_, ?_, ?_, ?_⟩
    all_goals
      rintro rfl
      exact absurd start (by decide)
  simp only [kind, apart, start, if_false, if_true]

theorem render_start (v : Value) : ∃ c rest, render v = c :: rest ∧ kind c = v.kind := by
  cases v with
  | null => exact ⟨_, _, rfl, by decide⟩
  | bool b => cases b <;> exact ⟨_, _, rfl, by decide⟩
  | number n =>
    obtain ⟨c, rest, text, start⟩ := n.start
    exact ⟨c, rest, by rw [render, text], kind_numeral start⟩
  | text s => exact ⟨_, _, rfl, rfl⟩
  | array items => cases items <;> exact ⟨_, _, rfl, rfl⟩
  | object pairs => rcases pairs with _ | ⟨⟨key, value⟩, pairs⟩ <;> exact ⟨_, _, by rw [render], rfl⟩

theorem kind_same {v w : Value} {s t : List Char} (same : render v ++ s = render w ++ t) : v.kind = w.kind := by
  obtain ⟨c, rest, text, starts⟩ := render_start v
  obtain ⟨d, rest', text', starts'⟩ := render_start w
  rw [text, text'] at same
  rw [← starts, ← starts', (List.cons.inj same).1]

theorem render_not_closing (v : Value) (s t : List Char) : render v ++ s ≠ ']' :: t := by
  obtain ⟨c, rest, text, starts⟩ := render_start v
  rw [text]
  intro same
  have closing : v.kind = 7 := by
    rw [← starts, (List.cons.inj same).1]
    decide
  cases v with
  | bool b => cases b <;> exact absurd closing (by decide)
  | _ => exact absurd closing (by simp [Value.kind])

theorem items_stop (items : List Value) (s : List Char) : Stops (renderItems items ++ s) := by
  cases items <;> exact stops_cons (by decide)

theorem pairs_stop (pairs : List (String × Value)) (s : List Char) : Stops (renderPairs pairs ++ s) := by
  rcases pairs with _ | ⟨⟨key, value⟩, pairs⟩
  · exact stops_cons (by decide)
  · rw [renderPairs]
    exact stops_cons (by decide)

mutual

/-- A value is read off the front of a text in one way. -/
theorem render_unique : ∀ (v w : Value) (s t : List Char), Stops s → Stops t → render v ++ s = render w ++ t → v = w ∧ s = t
  | .null, w, s, t, _, _, same => by
    have kinds := kind_same same
    cases w with
    | null => exact ⟨rfl, List.append_cancel_left same⟩
    | bool b => cases b <;> simp [Value.kind] at kinds
    | _ => simp [Value.kind] at kinds
  | .bool a, w, s, t, _, _, same => by
    have kinds := kind_same same
    cases w with
    | bool b => cases a <;> cases b <;> first | exact ⟨rfl, List.append_cancel_left same⟩ | simp [Value.kind] at kinds
    | _ => cases a <;> simp [Value.kind] at kinds
  | .number n, w, s, t, stops, stops', same => by
    have kinds := kind_same same
    cases w with
    | number m =>
      rw [render, render] at same
      obtain ⟨rfl, rest⟩ := numeral_unique stops stops' same
      exact ⟨rfl, rest⟩
    | bool b => cases b <;> simp [Value.kind] at kinds
    | _ => simp [Value.kind] at kinds
  | .text a, w, s, t, _, _, same => by
    have kinds := kind_same same
    cases w with
    | text b =>
      rw [render, render] at same
      obtain ⟨chars, rest⟩ := quoted_unique same
      exact ⟨congrArg Value.text (String.toList_inj.mp chars), rest⟩
    | bool b => cases b <;> simp [Value.kind] at kinds
    | _ => simp [Value.kind] at kinds
  | .array items, w, s, t, _, _, same => by
    have kinds := kind_same same
    cases w with
    | array items' =>
      cases items with
      | nil =>
        cases items' with
        | nil => exact ⟨rfl, List.append_cancel_left same⟩
        | cons item' items' =>
          simp only [render, List.cons_append, List.nil_append, List.cons.injEq, true_and, List.append_assoc] at same
          exact absurd same.symm (render_not_closing item' _ _)
      | cons item items =>
        cases items' with
        | nil =>
          simp only [render, List.cons_append, List.nil_append, List.cons.injEq, true_and, List.append_assoc] at same
          exact absurd same (render_not_closing item _ _)
        | cons item' items' =>
          simp only [render, List.cons_append, List.cons.injEq, true_and, List.append_assoc] at same
          obtain ⟨rfl, rest⟩ := render_unique item item' _ _ (items_stop _ _) (items_stop _ _) same
          obtain ⟨rfl, left⟩ := items_unique items items' s t rest
          exact ⟨rfl, left⟩
    | bool b => cases b <;> simp [Value.kind] at kinds
    | _ => simp [Value.kind] at kinds
  | .object pairs, w, s, t, _, _, same => by
    have kinds := kind_same same
    cases w with
    | object pairs' =>
      rcases pairs with _ | ⟨⟨key, value⟩, pairs⟩ <;> rcases pairs' with _ | ⟨⟨key', value'⟩, pairs'⟩
      · exact ⟨rfl, List.append_cancel_left same⟩
      · simp [render, quoted] at same
      · simp [render, quoted] at same
      · simp only [render, List.cons_append, List.cons.injEq, true_and, List.append_assoc] at same
        obtain ⟨keys, rest⟩ := quoted_unique same
        obtain rfl := String.toList_inj.mp keys
        obtain ⟨rfl, more⟩ := render_unique value value' _ _ (pairs_stop _ _) (pairs_stop _ _) (List.cons.inj rest).2
        obtain ⟨rfl, left⟩ := pairs_unique pairs pairs' s t more
        exact ⟨rfl, left⟩
    | bool b => cases b <;> simp [Value.kind] at kinds
    | _ => simp [Value.kind] at kinds

theorem items_unique : ∀ (items items' : List Value) (s t : List Char), renderItems items ++ s = renderItems items' ++ t →
    items = items' ∧ s = t
  | [], items', s, t, same => by
    cases items' with
    | nil => exact ⟨rfl, List.append_cancel_left same⟩
    | cons item' items' => simp [renderItems] at same
  | item :: items, items', s, t, same => by
    cases items' with
    | nil => simp [renderItems] at same
    | cons item' items' =>
      simp only [renderItems, List.cons_append, List.cons.injEq, true_and, List.append_assoc] at same
      obtain ⟨rfl, rest⟩ := render_unique item item' _ _ (items_stop _ _) (items_stop _ _) same
      obtain ⟨rfl, left⟩ := items_unique items items' s t rest
      exact ⟨rfl, left⟩

theorem pairs_unique : ∀ (pairs pairs' : List (String × Value)) (s t : List Char), renderPairs pairs ++ s = renderPairs pairs' ++ t →
    pairs = pairs' ∧ s = t
  | [], pairs', s, t, same => by
    rcases pairs' with _ | ⟨⟨key', value'⟩, pairs'⟩
    · exact ⟨rfl, List.append_cancel_left same⟩
    · simp [renderPairs] at same
  | (key, value) :: pairs, pairs', s, t, same => by
    rcases pairs' with _ | ⟨⟨key', value'⟩, pairs'⟩
    · simp [renderPairs] at same
    · simp only [renderPairs, List.cons_append, List.cons.injEq, true_and, List.append_assoc] at same
      obtain ⟨keys, rest⟩ := quoted_unique same
      obtain rfl := String.toList_inj.mp keys
      obtain ⟨rfl, more⟩ := render_unique value value' _ _ (pairs_stop _ _) (pairs_stop _ _) (List.cons.inj rest).2
      obtain ⟨rfl, left⟩ := pairs_unique pairs pairs' s t more
      exact ⟨rfl, left⟩

end

theorem render_injective {v w : Value} (same : render v = render w) : v = w := by
  refine (render_unique v w [] [] stops_nil stops_nil ?_).1
  rw [List.append_nil, List.append_nil, same]

/-! ### Line breaks -/

mutual

theorem render_newline : ∀ v : Value, '\n' ∉ render v
  | .null => by decide
  | .bool true => by decide
  | .bool false => by decide
  | .number n => fun member => absurd (n.parts _ member) (by decide)
  | .text s => quoted_newline _
  | .array [] => by decide
  | .array (item :: items) => by simp [render, render_newline item, items_newline items]
  | .object [] => by decide
  | .object ((key, value) :: pairs) => by simp [render, quoted_newline, render_newline value, pairs_newline pairs]

theorem items_newline : ∀ items : List Value, '\n' ∉ renderItems items
  | [] => by decide
  | item :: items => by simp [renderItems, render_newline item, items_newline items]

theorem pairs_newline : ∀ pairs : List (String × Value), '\n' ∉ renderPairs pairs
  | [] => by decide
  | (key, value) :: pairs => by simp [renderPairs, quoted_newline, render_newline value, pairs_newline pairs]

end

end Json
