import SaltMdb.Library.Tokens
import SaltMdb.Store.Connection
import Mathlib

/-! `redaction`: the built-in secret patterns, and the marker that takes the place of what they match. -/

namespace SaltMdb
open Regex Tokens

variable (env : Env)

/-- A letter as `re.IGNORECASE` compares it; four letters outside ASCII are compared as letters inside it. -/
def ignoreCase (c : Char) : Char :=
  match c.toNat with
  | 0x130 | 0x131 => 'i'
  | 0x17f => 's'
  | 0x212a => 'k'
  | _ => c.toLower

/-- `\w`: of ASCII the letters, the digits and the underscore; beyond it what the interpreter's tables say. -/
def wordChar (c : Char) : Bool := if c.toNat < 128 then c.isAlphanum || c == '_' else env.isWordChar c

def letter (l c : Char) : Bool := ignoreCase c == ignoreCase l

def literalLetters : List Char → Regex
  | [] => .many 0 (some 0) fun _ => false
  | [l] => .one (letter l)
  | l :: ls => .seq (.one (letter l)) (literalLetters ls)

def literal (word : String) : Regex := literalLetters word.toList

/-- A class of letters. -/
def oneOf (letters : String) (c : Char) : Bool := letters.toList.any fun l => letter l c

/-- `[a-zA-Z0-9…]`. -/
def alnumOr (others : String) (c : Char) : Bool := Text.isLowerAlnum (ignoreCase c) || oneOf others c

def valueLetter : Char → Bool := alnumOr "_-./+"

def quote (c : Char) : Bool := c == '\'' || c == '"'

/-- A name of two words, joined by an underscore, a dash or nothing. -/
def twoWords (first second : String) : Regex := .seq (literal first) (.seq (.many 0 (some 1) (oneOf "_-")) (literal second))

def credentialName : Regex :=
  .alt (twoWords "api" "key") (.alt (twoWords "secret" "key") (.alt (twoWords "client" "secret") (.alt (twoWords "access" "token")
    (.alt (twoWords "auth" "token") (.alt (literal "password") (.alt (literal "passwd") (literal "pwd")))))))

/-- What stands between the name and the value of a credential. -/
def assignment : Regex :=
  .seq (.many 0 none Text.isSpace) (.seq (.one (oneOf ":=")) (.seq (.many 0 none Text.isSpace) (.many 0 (some 1) quote)))

/-- `SECRET_PATTERNS`. -/
def secretPatterns : List Pattern :=
  [⟨.seq (literal "ghp_") (.many 36 none (alnumOr "")), true⟩,
    ⟨.seq (literal "github_pat_") (.many 82 none (alnumOr "_")), true⟩,
    ⟨.seq (literal "gh") (.seq (.one (oneOf "ousr")) (.seq (literal "_") (.many 36 none (alnumOr "")))), true⟩,
    ⟨.seq (literal "sk-ant-sid01-") (.many 20 none (alnumOr "_-")), true⟩,
    ⟨.seq (literal "sk-ant-") (.many 20 none (alnumOr "_-")), true⟩,
    ⟨.seq (literal "sk-") (.many 48 none (alnumOr "_-")), true⟩,
    ⟨.seq (literal "sk-proj-") (.many 20 none (alnumOr "_-")), true⟩,
    ⟨.seq (literal "sk_live_") (.many 20 none (alnumOr "")), true⟩,
    ⟨.seq (literal "sk_test_") (.many 20 none (alnumOr "")), true⟩,
    ⟨.seq (literal "rk_") (.seq (.group (.alt (literal "live") (literal "test"))) (.seq (literal "_") (.many 20 none (alnumOr "")))), true⟩,
    ⟨.seq (literal "xox") (.seq (.one (oneOf "baprs")) (.seq (literal "-") (.many 10 none (alnumOr "-")))), true⟩,
    ⟨.seq (literal "AIza") (.many 35 (some 35) (alnumOr "_-")), true⟩,
    ⟨.seq (.many 20 none (alnumOr "_")) (.seq (literal ":") (.many 40 none (alnumOr "_"))), true⟩,
    ⟨.seq (literal "AKIA") (.many 16 (some 16) (alnumOr "")), true⟩,
    ⟨.seq (.many 23 (some 28) (alnumOr "_-")) (.seq (literal ".") (.seq (.many 6 (some 6) (alnumOr "_-"))
      (.seq (literal ".") (.many 27 (some 38) (alnumOr "_-"))))), true⟩,
    ⟨.seq (.seq credentialName assignment) (.seq (.many 8 none valueLetter) (.many 0 (some 1) quote)), false⟩]

def redactedMarker : String := "[REDACTED_SECRET]"

def redactSecrets (text : String) : String :=
  if text = "" then text else .ofList (substitute (wordChar env) secretPatterns redactedMarker.toList text.toList 0)

/-! ### The marker and the patterns -/

theorem secretPatterns_plain : ∀ p ∈ secretPatterns, p.body.Plain := by
  simp [secretPatterns, Regex.Plain, literal, literalLetters, credentialName, twoWords, assignment]

/-- No pattern reads a bracket. -/
theorem secretPatterns_foreign : ∀ p ∈ secretPatterns, ∀ accepts ∈ p.body.classes, accepts '[' = false ∧ accepts ']' = false := by
  decide

theorem secretPatterns_silent : ∀ p ∈ secretPatterns, Regex.run "REDACTED_SECRET".toList p.body 0 = [] := by
  decide

/-- The letters that a pattern starts with are letters of a value. -/
theorem secretPatterns_lead : ∀ p ∈ secretPatterns, ∃ lead, p.body.leads = some lead ∧
    ∀ accepts ∈ lead, ∀ c, accepts c = true → valueLetter c = true := by
  have fixed : ∀ l : Char, valueLetter l = true → ∀ c, letter l c = true → valueLetter c = true := by
    intro l value c same
    have folded : ignoreCase c = ignoreCase l := beq_iff_eq.mp same
    unfold valueLetter alnumOr oneOf letter at value ⊢
    rw [folded]
    exact value
  have wider : ∀ others : String, (∀ l ∈ others.toList, l ∈ "_-./+".toList) → ∀ c, alnumOr others c = true → valueLetter c = true := by
    intro others within c reads
    unfold valueLetter alnumOr at reads ⊢
    rcases (Bool.or_eq_true _ _).mp reads with alnum | other
    · rw [alnum]
      rfl
    · obtain ⟨l, listed, same⟩ := List.any_eq_true.mp other
      rw [Bool.or_eq_true]
      exact .inr (List.any_eq_true.mpr ⟨l, within l listed, same⟩)
  have single : ∀ l : Char, valueLetter l = true → ∀ accepts ∈ [letter l], ∀ c, accepts c = true → valueLetter c = true := by
    intro l value accepts listed
    rw [List.mem_singleton.mp listed]
    exact fixed l value
  have class_ : ∀ others : String, (∀ l ∈ others.toList, l ∈ "_-./+".toList) →
      ∀ accepts ∈ [alnumOr others], ∀ c, accepts c = true → valueLetter c = true := by
    intro others within accepts listed
    rw [List.mem_singleton.mp listed]
    exact wider others within
  have names : ∀ accepts ∈ [letter 'a', letter 's', letter 'c', letter 'a', letter 'a', letter 'p', letter 'p', letter 'p'],
      ∀ c, accepts c = true → valueLetter c = true := by
    simp only [List.forall_mem_cons]
    exact ⟨fixed _ (by decide), fixed _ (by decide), fixed _ (by decide), fixed _ (by decide), fixed _ (by decide), fixed _ (by decide),
      fixed _ (by decide), fixed _ (by decide), nofun⟩
  unfold secretPatterns
  simp only [List.forall_mem_cons]
  exact ⟨⟨_, rfl, single 'g' (by decide)⟩, ⟨_, rfl, single 'g' (by decide)⟩, ⟨_, rfl, single 'g' (by decide)⟩,
    ⟨_, rfl, single 's' (by decide)⟩, ⟨_, rfl, single 's' (by decide)⟩, ⟨_, rfl, single 's' (by decide)⟩, ⟨_, rfl, single 's' (by decide)⟩,
    ⟨_, rfl, single 's' (by decide)⟩, ⟨_, rfl, single 's' (by decide)⟩, ⟨_, rfl, single 'r' (by decide)⟩, ⟨_, rfl, single 'x' (by decide)⟩,
    ⟨_, rfl, single 'A' (by decide)⟩, ⟨_, rfl, class_ "_" (by simp)⟩, ⟨_, rfl, single 'A' (by decide)⟩, ⟨_, rfl, class_ "_-" (by simp)⟩,
    ⟨_, rfl, names⟩, nofun⟩

/-- A quote is no letter of a word, and neither is a bracket. -/
theorem wordChar_quote {d : Char} (quoted : quote d = true) : wordChar env d = wordChar env ']' := by
  rcases (Bool.or_eq_true _ _).mp quoted with single | double
  · rw [beq_iff_eq.mp single]
    rfl
  · rw [beq_iff_eq.mp double]
    rfl

theorem secretPatterns_guarded : Guarded (wordChar env) secretPatterns '[' ']' "REDACTED_SECRET".toList where
  plain := secretPatterns_plain
  foreign := secretPatterns_foreign
  leads := fun p listed => (secretPatterns_lead p listed).imp fun _ both => both.1
  silent := secretPatterns_silent
  letters := by
    have ascii : ∀ c ∈ "REDACTED_SECRET".toList, c.toNat < 128 ∧ (c.isAlphanum || c == '_') = true := by
      simp [Char.isAlphanum, Char.isAlpha, Char.isUpper, Char.isLower]
    intro c member
    obtain ⟨small, word⟩ := ascii c member
    unfold wordChar
    rw [if_pos small]
    exact word
  settles := by
    intro p listed
    by_cases closed : p.closed = true
    · exact .inl closed
    · right
      have last : p = ⟨.seq (.seq credentialName assignment) (.seq (.many 8 none valueLetter) (.many 0 (some 1) quote)), false⟩ := by
        simp only [secretPatterns, List.mem_cons, List.not_mem_nil, or_false] at listed
        rcases listed with rfl | rfl | rfl | rfl | rfl | rfl | rfl | rfl | rfl | rfl | rfl | rfl | rfl | rfl | rfl | rfl
        all_goals first | rfl | exact absurd rfl closed
      rw [last]
      refine ⟨_, _, _, _, rfl, fun q there lead known f member c reads => ?_, fun d => wordChar_quote env⟩
      obtain ⟨lead', known', covers⟩ := secretPatterns_lead q there
      obtain rfl := Option.some.inj (known.symm.trans known')
      exact covers f member c reads

theorem redactSecrets_eq (text : String) : (redactSecrets env text).toList =
    substitute (wordChar env) secretPatterns ('[' :: "REDACTED_SECRET".toList ++ [']']) text.toList 0 := by
  unfold redactSecrets
  have marker : redactedMarker.toList = '[' :: "REDACTED_SECRET".toList ++ [']'] := by decide
  split
  · rename_i empty
    rw [empty]
    exact (substitute_end (show "".toList.length ≤ 0 from Nat.le_refl 0)).symm
  · rw [String.toList_ofList, marker]

/-- No pattern matches in a redacted text, and redacting it again changes nothing. -/
theorem redactSecrets_fixed (text : String) :
    (∀ p ∈ secretPatterns, ∀ pos, p.run (wordChar env) (redactSecrets env text).toList pos = []) ∧
      redactSecrets env (redactSecrets env text) = redactSecrets env text := by
  have free : ∀ pos, firstMatch (wordChar env) secretPatterns (redactSecrets env text).toList pos = none := by
    intro pos
    rw [redactSecrets_eq]
    exact (secretPatterns_guarded env).substitute_free _ pos
  constructor
  · intro p listed pos
    have none_ := free pos
    rw [firstMatch, List.head?_eq_none_iff, List.flatMap_eq_nil_iff] at none_
    exact none_ p listed
  · apply String.toList_inj.mp
    rw [redactSecrets_eq, substitute_self free 0, List.drop_zero]

end SaltMdb
