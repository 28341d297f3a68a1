import SaltMdb.Search.TagFilter
import SaltMdb.Tag.Forest

/-! Which names the tag rows carry: all but the seeded ones are spelled as the sanitizer leaves them, so that a name
read up to case finds one row at most. -/

namespace SaltMdb
open Transactions

namespace Text

theorem toLower_of_not_ascii {c : Char} (wide : ¬ c.toNat < 128) : c.toLower = c := by
  unfold Char.toLower
  rw [dif_neg]
  rintro ⟨_, below⟩
  have bound : c.val.toNat ≤ 90 := UInt32.le_iff_toNat_le.mp below
  exact wide (Nat.lt_of_le_of_lt bound (by decide))

theorem lowerChar_toLower (c : Char) : lowerChar c.toLower = lowerChar c := by
  by_cases ascii : c.toNat < 128
  · exact beq_iff_eq.mp (passes_ascii (fun c => lowerChar c.toLower == lowerChar c) (by decide) ascii)
  · rw [toLower_of_not_ascii ascii]

theorem isLowerAlnum_ascii {c : Char} (kept : isLowerAlnum c = true) : c.toNat < 128 := by
  simp only [isLowerAlnum, Bool.or_eq_true, Bool.and_eq_true, decide_eq_true_eq, Char.le_def, UInt32.le_iff_toNat_le] at kept
  have nine : ('9' : Char).val.toNat = 57 := rfl
  have zed : ('z' : Char).val.toNat = 122 := rfl
  rcases kept with h | h
  · exact Nat.lt_of_le_of_lt h.2 (by rw [zed]; decide)
  · exact Nat.lt_of_le_of_lt h.2 (by rw [nine]; decide)

theorem lowerChar_alnum {c : Char} (kept : isLowerAlnum c = true) : lowerChar c = [c] := by
  have checked := passes_ascii (fun c => !isLowerAlnum c || lowerChar c == [c]) (by decide) (isLowerAlnum_ascii kept)
  simpa [kept] using checked

/-- A character that changes in `sqlLower` is a letter to the sanitizer. -/
theorem lowerChar_of_toLower {c : Char} (changes : c.toLower ≠ c) : ∃ d ∈ lowerChar c, isLowerAlnum d = true := by
  by_cases ascii : c.toNat < 128
  · have checked := passes_ascii (fun c => c.toLower == c || (lowerChar c).any isLowerAlnum) (by decide) ascii
    rw [Bool.or_eq_true, beq_iff_eq] at checked
    exact List.any_eq_true.mp (checked.resolve_left changes)
  · exact absurd (toLower_of_not_ascii ascii) changes

/-! ### Runs of separators -/

theorem mem_collapseRuns {keep : Char → Bool} {sep : Char} {cs : List Char} {c : Char} (member : c ∈ cs) (kept : keep c = true)
    (inRun : Bool) : c ∈ collapseRuns keep sep cs inRun := by
  induction cs generalizing inRun with
  | nil => simp at member
  | cons d cs ih =>
    unfold collapseRuns
    rcases List.mem_cons.mp member with rfl | later
    · rw [if_pos kept]
      exact List.mem_cons_self
    · split
      · exact List.mem_cons_of_mem _ (ih later false)
      · split
        · exact ih later true
        · exact List.mem_cons_of_mem _ (ih later true)

theorem collapseRuns_mem {keep : Char → Bool} {sep : Char} {cs : List Char} {c : Char} {inRun : Bool}
    (member : c ∈ collapseRuns keep sep cs inRun) : keep c = true ∨ c = sep := by
  induction cs generalizing inRun with
  | nil => simp [collapseRuns] at member
  | cons d cs ih =>
    unfold collapseRuns at member
    split at member
    · rename_i kept
      rcases List.mem_cons.mp member with rfl | later
      · exact .inl kept
      · exact ih later
    · split at member
      · exact ih member
      · rcases List.mem_cons.mp member with rfl | later
        · exact .inr rfl
        · exact ih later

theorem mem_stripEnds {drop : Char → Bool} {cs : List Char} {c : Char} (member : c ∈ stripEnds drop cs) : c ∈ cs := by
  rw [stripEnds, List.mem_reverse] at member
  have inner := (List.dropWhile_sublist drop).subset member
  rw [List.mem_reverse] at inner
  exact (List.dropWhile_sublist drop).subset inner

theorem mem_stripEnds_of {drop : Char → Bool} {cs : List Char} {c : Char} (member : c ∈ cs) (kept : drop c = false) :
    c ∈ stripEnds drop cs := by
  have survives : ∀ xs : List Char, c ∈ xs → c ∈ xs.dropWhile drop := by
    intro xs
    induction xs with
    | nil => simp
    | cons x xs ih =>
      intro here
      rw [List.dropWhile_cons]
      split
      · rename_i dropped
        rcases List.mem_cons.mp here with rfl | later
        · rw [kept] at dropped
          exact absurd dropped Bool.false_ne_true
        · exact ih later
      · exact here
  rw [stripEnds, List.mem_reverse]
  exact survives _ (List.mem_reverse.mpr (survives cs member))

theorem filter_collapseRuns {keep : Char → Bool} {sep : Char} (dropped : keep sep = false) (cs : List Char) (inRun : Bool) :
    (collapseRuns keep sep cs inRun).filter keep = cs.filter keep := by
  induction cs generalizing inRun with
  | nil => rfl
  | cons c cs ih =>
    unfold collapseRuns
    split
    · rename_i kept
      rw [List.filter_cons_of_pos kept, List.filter_cons_of_pos kept, ih]
    · rename_i other
      rw [List.filter_cons_of_neg other]
      split
      · exact ih true
      · rw [List.filter_cons_of_neg (by simp [dropped]), ih]

theorem filter_dropWhile {keep drop : Char → Bool} (apart : ∀ c, keep c = true → drop c = false) (cs : List Char) :
    (cs.dropWhile drop).filter keep = cs.filter keep := by
  induction cs with
  | nil => rfl
  | cons c cs ih =>
    rw [List.dropWhile_cons]
    split
    · rename_i gone
      have other : ¬ keep c = true := fun kept => by simp [apart c kept] at gone
      rw [ih, List.filter_cons_of_neg other]
    · rfl

theorem filter_stripEnds {keep drop : Char → Bool} (apart : ∀ c, keep c = true → drop c = false) (cs : List Char) :
    (stripEnds drop cs).filter keep = cs.filter keep := by
  unfold stripEnds
  rw [List.filter_reverse, filter_dropWhile apart, List.filter_reverse, List.reverse_reverse, filter_dropWhile apart]

theorem flatMap_lowerChar_self {cs : List Char} (lowered : ∀ c ∈ cs, lowerChar c = [c]) : cs.flatMap lowerChar = cs := by
  induction cs with
  | nil => rfl
  | cons c cs ih =>
    rw [List.flatMap_cons, lowered c List.mem_cons_self, ih fun d member => lowered d (List.mem_cons_of_mem c member)]
    rfl

end Text

/-! ### Names as the sanitizer leaves them -/

/-- A text whose characters are kept or are the separator, and which has no run of separators, collapses to itself. -/
theorem collapseRuns_self {cs : List Char} (plain : ∀ c ∈ cs, Text.isLowerAlnum c = true ∨ c = '-')
    (noRun : separatorRun cs = none) : Text.collapseRuns Text.isLowerAlnum '-' cs false = cs := by
  induction cs with
  | nil => rfl
  | cons c cs ih =>
    unfold separatorRun at noRun
    dsimp only at noRun
    split at noRun
    · simp at noRun
    · rename_i short
      have rest := ih (fun d member => plain d (List.mem_cons_of_mem c member)) noRun
      unfold Text.collapseRuns
      split
      · rw [rest]
      · rename_i separator
        have dash : c = '-' := (plain c List.mem_cons_self).resolve_left separator
        subst dash
        rw [if_neg Bool.false_ne_true]
        congr 1
        cases cs with
        | nil => rfl
        | cons d ds =>
          have kept : Text.isLowerAlnum d = true := by
            by_contra other
            rw [Bool.not_eq_true] at other
            apply short
            simp [separator, other]
          unfold Text.collapseRuns at rest ⊢
          rw [if_pos kept] at rest ⊢
          exact rest

theorem sanitizeTagBody_ok {text body : String} (h : sanitizeTagBody text = .ok body) : separatorRun text.toList = none ∧
    body.toList = Text.stripEnds (· == '-') (Text.collapseRuns Text.isLowerAlnum '-' text.toList false) := by
  unfold sanitizeTagBody at h
  split at h
  · simp at h
  · rename_i noRun
    refine ⟨noRun, ?_⟩
    rw [← Except.ok.inj h, String.toList_ofList]

/-- What the sanitizer leaves it leaves again. -/
theorem sanitizeTagBody_again {text body again : String} (h : sanitizeTagBody text = .ok body)
    (k : sanitizeTagBody body = .ok again) : again = body := by
  obtain ⟨_, chars⟩ := sanitizeTagBody_ok h
  obtain ⟨noRun, settled⟩ := sanitizeTagBody_ok k
  have plain : ∀ c ∈ body.toList, Text.isLowerAlnum c = true ∨ c = '-' := by
    intro c member
    rw [chars] at member
    exact Text.collapseRuns_mem (Text.mem_stripEnds member)
  rw [collapseRuns_self plain noRun] at settled
  apply String.toList_injective
  rw [settled, chars, Text.stripEnds_stripEnds]

/-- A tag name that sanitizing leaves as it is. -/
structure SettledName (name : String) : Prop where
  hash : name.toList.head? = some '#'
  proper : name ≠ "#"
  settled : ∀ body, sanitizeTagBody (tagBody name) = .ok body → sanitizedName name body = name

theorem hash_append_toList (body : String) : ("#" ++ body).toList = '#' :: body.toList := by
  rw [String.toList_append]
  rfl

theorem tagBody_hash (body : String) : tagBody ("#" ++ body) = Text.lower body := by
  unfold tagBody
  rw [hash_append_toList, List.drop_one, List.tail_cons, String.ofList_toList]

theorem lower_sanitized {text body : String} (h : sanitizeTagBody text = .ok body) : Text.lower body = body := by
  obtain ⟨_, chars⟩ := sanitizeTagBody_ok h
  have plain : ∀ c ∈ body.toList, Text.lowerChar c = [c] := by
    intro c member
    rw [chars] at member
    rcases Text.collapseRuns_mem (Text.mem_stripEnds member) with kept | rfl
    · exact Text.lowerChar_alnum kept
    · decide
  apply String.toList_injective
  unfold Text.lower
  rw [String.toList_ofList]
  generalize body.toList = cs at plain
  induction cs with
  | nil => rfl
  | cons c cs ih =>
    rw [List.flatMap_cons, plain c List.mem_cons_self, ih fun d member => plain d (List.mem_cons_of_mem c member)]
    rfl

/-- The name a tag is resolved with is settled. -/
theorem settledName_sanitized {name body : String} (hash : name.toList.head? = some '#') (proper : name ≠ "#")
    (h : sanitizeTagBody (tagBody name) = .ok body) : SettledName (sanitizedName name body) := by
  unfold sanitizedName
  split
  · rename_i empty
    subst empty
    refine ⟨hash, proper, fun again k => ?_⟩
    rw [h] at k
    rw [← Except.ok.inj k]
    rfl
  · rename_i nonempty
    refine ⟨by rw [hash_append_toList]; rfl, fun same => nonempty ?_, fun again k => ?_⟩
    · apply String.toList_injective
      have chars := congrArg String.toList same
      rw [hash_append_toList] at chars
      exact (List.cons.inj chars).2
    · rw [tagBody_hash, lower_sanitized h] at k
      rw [sanitizeTagBody_again h k, sanitizedName, if_neg nonempty]

/-! ### Names that are alike up to case -/

theorem lower_of_map {xs ys : List Char} (same : xs.map Char.toLower = ys.map Char.toLower) :
    xs.flatMap Text.lowerChar = ys.flatMap Text.lowerChar := by
  have through : ∀ zs : List Char, zs.flatMap Text.lowerChar = (zs.map Char.toLower).flatMap Text.lowerChar := by
    intro zs
    rw [List.flatMap_map]
    exact List.flatMap_congr fun c _ => (Text.lowerChar_toLower c).symm
  rw [through xs, through ys, same]

theorem tagBody_of_sqlLower {x y : String} (same : sqlLower x = sqlLower y) : tagBody x = tagBody y := by
  have tails : (x.toList.drop 1).map Char.toLower = (y.toList.drop 1).map Char.toLower := by
    rw [List.map_drop, List.map_drop]
    exact congrArg (List.drop 1) same
  unfold tagBody Text.lower
  rw [String.toList_ofList, String.toList_ofList, lower_of_map tails]

theorem toLower_hash {c : Char} (h : c.toLower = '#') : c = '#' := by
  by_cases ascii : c.toNat < 128
  · have checked := Text.passes_ascii (fun c => !(c.toLower == '#') || c == '#') (by decide) ascii
    simpa [h] using checked
  · rwa [Text.toLower_of_not_ascii ascii] at h

theorem head_of_sqlLower {x y : String} (same : sqlLower x = sqlLower y) (hash : y.toList.head? = some '#') :
    x.toList.head? = some '#' := by
  have heads := congrArg List.head? same
  unfold sqlLower at heads
  rw [List.head?_map, List.head?_map, hash] at heads
  obtain ⟨c, first, lowered⟩ := Option.map_eq_some_iff.mp heads
  rw [first, toLower_hash lowered]

/-- Where the sanitizer leaves nothing there is no letter to lower. -/
theorem sqlLower_of_empty {name : String} (hash : name.toList.head? = some '#')
    (h : sanitizeTagBody (tagBody name) = .ok "") : sqlLower name = name.toList := by
  obtain ⟨_, chars⟩ := sanitizeTagBody_ok h
  have none_ : ∀ d ∈ (tagBody name).toList, Text.isLowerAlnum d = false := by
    intro d member
    by_contra kept
    rw [Bool.not_eq_false] at kept
    have dash : (d == '-') = false := by
      rw [beq_eq_false_iff_ne]
      rintro rfl
      exact absurd kept (by decide)
    have left : d ∈ Text.stripEnds (· == '-') (Text.collapseRuns Text.isLowerAlnum '-' (tagBody name).toList false) :=
      Text.mem_stripEnds_of (Text.mem_collapseRuns member kept false) dash
    rw [← chars] at left
    exact absurd left List.not_mem_nil
  have fixed : ∀ c ∈ name.toList, c.toLower = c := by
    obtain ⟨cs, shape⟩ : ∃ cs, name.toList = '#' :: cs := by
      cases split : name.toList with
      | nil => rw [split] at hash; simp at hash
      | cons c cs =>
        rw [split] at hash
        exact ⟨cs, by rw [Option.some.inj hash]⟩
    intro c member
    rw [shape] at member
    rcases List.mem_cons.mp member with rfl | later
    · rfl
    · by_contra changes
      obtain ⟨d, lowered, kept⟩ := Text.lowerChar_of_toLower changes
      have inBody : d ∈ (tagBody name).toList := by
        unfold tagBody Text.lower
        rw [shape, String.toList_ofList, String.toList_ofList]
        exact List.mem_flatMap.mpr ⟨c, later, lowered⟩
      rw [none_ d inBody] at kept
      exact absurd kept Bool.false_ne_true
  exact (List.map_congr_left fixed).trans (List.map_id _)

/-- A settled name that is read by another name up to case is what that name is resolved with. -/
theorem SettledName.read {x name body : String} (settled : SettledName x) (hash : name.toList.head? = some '#')
    (h : sanitizeTagBody (tagBody name) = .ok body) (same : sqlLower x = sqlLower name) : x = sanitizedName name body := by
  have own : sanitizeTagBody (tagBody x) = .ok body := by rw [tagBody_of_sqlLower same, h]
  have left := settled.settled body own
  by_cases empty : body = ""
  · subst empty
    rw [sqlLower_of_empty settled.hash own, sqlLower_of_empty hash h] at same
    exact String.toList_injective same
  · rw [sanitizedName, if_neg empty] at left ⊢
    exact left.symm

theorem normalizeTagName_hash {tag : String} (given : normalizeTagName tag ≠ "") : (normalizeTagName tag).toList.head? = some '#' := by
  unfold normalizeTagName at given ⊢
  dsimp only at given ⊢
  split at given
  · contradiction
  · rename_i nonempty
    rw [if_neg nonempty]
    split
    · assumption
    · rw [hash_append_toList]
      rfl

theorem normalizeTagName_strip (tag : String) : normalizeTagName (Text.strip tag) = normalizeTagName tag := by
  unfold normalizeTagName
  rw [Text.strip_strip]

/-- Up to the hash a normalized name is the stripped text. -/
theorem normalizeTagName_cases (tag : String) : normalizeTagName tag = Text.strip tag ∨ normalizeTagName tag = "#" ++ Text.strip tag := by
  unfold normalizeTagName
  dsimp only
  split
  · exact .inl rfl
  · split
    · exact .inl rfl
    · exact .inr rfl

/-! ### The name a submitted tag is written with -/

/-- None for a blank tag, for a bare hash, and for a tag that is not accepted. -/
def writtenName (tag : String) : Option String :=
  let name := normalizeTagName tag
  match sanitizeTagBody (tagBody name) with
  | .ok body => if name = "" ∨ name = "#" then none else some (sanitizedName name body)
  | .error _ => none

theorem writtenName_some {tag name : String} (h : writtenName tag = some name) : ∃ body,
    sanitizeTagBody (tagBody (normalizeTagName tag)) = .ok body ∧ (normalizeTagName tag).toList.head? = some '#' ∧
      normalizeTagName tag ≠ "#" ∧ sanitizedName (normalizeTagName tag) body = name := by
  unfold writtenName at h
  dsimp only at h
  split at h
  · rename_i body clean
    split at h
    · simp at h
    · rename_i named
      obtain ⟨given, proper⟩ := not_or.mp named
      exact ⟨body, clean, normalizeTagName_hash given, proper, Option.some.inj h⟩
  · simp at h

theorem settledName_written {tag name : String} (h : writtenName tag = some name) : SettledName name := by
  obtain ⟨body, clean, hash, proper, rfl⟩ := writtenName_some h
  exact settledName_sanitized hash proper clean

/-! ### Keys -/

def keyChars (cs : List Char) : List Char :=
  ((cs.flatMap Text.lowerChar).dropWhile (· == '#')).filter fun c => !isTagFiller c

theorem normalizedTagKey_chars (name : String) : (normalizedTagKey name).toList = keyChars name.toList := by
  unfold normalizedTagKey Text.lower
  rw [String.toList_ofList, String.toList_ofList]
  rfl

theorem keyChars_hash (cs : List Char) : keyChars ('#' :: cs) = keyChars cs := rfl

theorem normalizedTagKey_normalize (tag : String) : normalizedTagKey (normalizeTagName tag) = normalizedTagKey (Text.strip tag) := by
  apply String.toList_injective
  rw [normalizedTagKey_chars, normalizedTagKey_chars]
  rcases normalizeTagName_cases tag with same | same
  · rw [same]
  · rw [same, hash_append_toList, keyChars_hash]

theorem keyChars_lowered {cs : List Char} {c : Char} (member : c ∈ keyChars cs) : Text.lowerChar c = [c] := by
  have lowered := (List.dropWhile_sublist _).subset (List.mem_filter.mp member).1
  obtain ⟨d, _, lowered⟩ := List.mem_flatMap.mp lowered
  exact Text.lowerChar_again lowered

theorem isTagFiller_alnum {c : Char} (kept : Text.isLowerAlnum c = true) : isTagFiller c = false ∧ (c == '#') = false := by
  have ascii := Text.isLowerAlnum_ascii kept
  have checked := Text.passes_ascii (fun c => !Text.isLowerAlnum c || (!isTagFiller c && !(c == '#'))) (by decide) ascii
  simpa [kept] using checked

/-- The letters and digits of a key are those of the lowered name. -/
theorem keyChars_alnum (cs : List Char) :
    (keyChars cs).filter Text.isLowerAlnum = (cs.flatMap Text.lowerChar).filter Text.isLowerAlnum := by
  unfold keyChars
  generalize cs.flatMap Text.lowerChar = lowered
  rw [List.filter_filter]
  have kept : ∀ xs : List Char, xs.filter (fun c => Text.isLowerAlnum c && !isTagFiller c) = xs.filter Text.isLowerAlnum := by
    intro xs
    refine List.filter_congr fun c _ => ?_
    cases alnum : Text.isLowerAlnum c with
    | false => rfl
    | true => rw [(isTagFiller_alnum alnum).1]; rfl
  rw [kept]
  induction lowered with
  | nil => rfl
  | cons c cs ih =>
    rw [List.dropWhile_cons]
    split
    · rename_i hash
      have dropped : Text.isLowerAlnum c = false := by
        rw [beq_iff_eq] at hash
        rw [hash]
        decide
      rw [ih, List.filter_cons_of_neg (by simp [dropped])]
    · rfl

theorem sanitizeTagBody_plain {text body : String} (h : sanitizeTagBody text = .ok body) :
    ∀ c ∈ body.toList, Text.isLowerAlnum c = true ∨ c = '-' := by
  intro c member
  rw [(sanitizeTagBody_ok h).2] at member
  exact Text.collapseRuns_mem (Text.mem_stripEnds member)

/-- The sanitizer keeps the letters and digits, and what it leaves has some. -/
theorem sanitizeTagBody_alnum {text body : String} (h : sanitizeTagBody text = .ok body) :
    body.toList.filter Text.isLowerAlnum = text.toList.filter Text.isLowerAlnum ∧
      (body.toList.filter Text.isLowerAlnum = [] → body = "") := by
  obtain ⟨_, chars⟩ := sanitizeTagBody_ok h
  have dash : ∀ c, Text.isLowerAlnum c = true → (c == '-') = false := by
    rintro c kept
    rw [beq_eq_false_iff_ne]
    rintro rfl
    exact absurd kept (by decide)
  refine ⟨by rw [chars, Text.filter_stripEnds dash, Text.filter_collapseRuns (by decide)], fun none_ => ?_⟩
  have dashes : ∀ c ∈ body.toList, (c == '-') = true := by
    intro c member
    rw [beq_iff_eq]
    refine (sanitizeTagBody_plain h c member).resolve_left fun kept => ?_
    have left : c ∈ body.toList.filter Text.isLowerAlnum := List.mem_filter.mpr ⟨member, kept⟩
    rw [none_] at left
    exact absurd left List.not_mem_nil
  have again : body.toList = Text.stripEnds (· == '-') body.toList := by
    conv_lhs => rw [chars]
    conv_rhs => rw [chars, Text.stripEnds_stripEnds]
  apply String.toList_injective
  rw [again, Text.stripEnds, List.dropWhile_eq_nil_iff.mpr dashes]
  rfl

theorem keyChars_plain {cs : List Char} (plain : ∀ c ∈ cs, Text.isLowerAlnum c = true ∨ c = '-') :
    keyChars cs = cs.filter Text.isLowerAlnum := by
  have lowered : cs.flatMap Text.lowerChar = cs := by
    refine Text.flatMap_lowerChar_self fun c member => ?_
    rcases plain c member with kept | rfl
    · exact Text.lowerChar_alnum kept
    · decide
  have only : (keyChars cs).filter Text.isLowerAlnum = keyChars cs := by
    rw [List.filter_eq_self]
    intro c member
    obtain ⟨inner, noFiller⟩ := List.mem_filter.mp member
    have there := (List.dropWhile_sublist _).subset inner
    rw [lowered] at there
    refine (plain c there).resolve_right ?_
    rintro rfl
    simp [isTagFiller] at noFiller
  rw [← only, keyChars_alnum, lowered]

/-- The key that a key comes to when the name is sanitized. -/
def settledKey (key : List Char) : List Char :=
  let kept := key.filter Text.isLowerAlnum
  if kept = [] then key else kept

theorem key_written {tag name : String} (h : writtenName tag = some name) :
    keyChars name.toList = settledKey (keyChars (Text.strip tag).toList) := by
  obtain ⟨body, clean, hash, proper, rfl⟩ := writtenName_some h
  have same := congrArg String.toList (normalizedTagKey_normalize tag)
  rw [normalizedTagKey_chars, normalizedTagKey_chars] at same
  rw [← same]
  generalize normalizeTagName tag = name at clean hash proper
  obtain ⟨cs, shape⟩ := List.head?_eq_some_iff.mp hash
  have text : (tagBody name).toList = cs.flatMap Text.lowerChar := by
    unfold tagBody Text.lower
    rw [shape, String.toList_ofList, String.toList_ofList]
    rfl
  obtain ⟨kept, left⟩ := sanitizeTagBody_alnum clean
  rw [text, ← keyChars_alnum, ← keyChars_hash, ← shape] at kept
  unfold sanitizedName settledKey
  dsimp only
  rw [← kept]
  by_cases empty : body = ""
  · subst empty
    rw [if_pos rfl, if_pos (show List.filter _ "".toList = [] from rfl)]
  · rw [if_neg empty, if_neg fun none_ => empty (left none_), hash_append_toList, keyChars_hash,
      keyChars_plain (sanitizeTagBody_plain clean)]

/-- Tags with one key are written with names of one key. -/
theorem key_written_congr {tag other name written : String} (h : writtenName tag = some name)
    (k : writtenName other = some written)
    (same : normalizedTagKey (Text.strip tag) = normalizedTagKey (Text.strip other)) :
    normalizedTagKey name = normalizedTagKey written := by
  have chars := congrArg String.toList same
  rw [normalizedTagKey_chars, normalizedTagKey_chars] at chars
  apply String.toList_injective
  rw [normalizedTagKey_chars, normalizedTagKey_chars, key_written h, key_written k, chars]

theorem computedTagKey_chars (name : String) : (computedTagKey name).toList =
    (name.toList.filter fun c => c != '#' && c != '-' && c != '_').map Char.toLower := by
  unfold computedTagKey
  rw [String.toList_ofList]

theorem computed_plain {cs : List Char} (plain : ∀ c ∈ cs, Text.isLowerAlnum c = true ∨ c = '-') :
    (cs.filter fun c => c != '#' && c != '-' && c != '_').map Char.toLower = cs.filter Text.isLowerAlnum := by
  have same : (cs.filter fun c => c != '#' && c != '-' && c != '_') = cs.filter Text.isLowerAlnum := by
    refine List.filter_congr fun c member => ?_
    rcases plain c member with kept | rfl
    · have checked := Text.passes_ascii (fun c => !Text.isLowerAlnum c || (c != '#' && c != '-' && c != '_')) (by decide)
        (Text.isLowerAlnum_ascii kept)
      rw [kept]
      simpa [kept] using checked
    · decide
  rw [same]
  have fixed : ∀ c ∈ cs.filter Text.isLowerAlnum, c.toLower = c := by
    intro c member
    have kept := (List.mem_filter.mp member).2
    have checked := Text.passes_ascii (fun c => !Text.isLowerAlnum c || c.toLower == c) (by decide)
      (Text.isLowerAlnum_ascii kept)
    simpa [kept] using checked
  exact (List.map_congr_left fixed).trans (List.map_id _)

/-- A text of separators alone that passes the sanitizer is one separator at most. -/
theorem separators_short {cs : List Char} (noRun : separatorRun cs = none) (none_ : cs.filter Text.isLowerAlnum = []) :
    cs.length ≤ 1 := by
  cases cs with
  | nil => simp
  | cons c cs =>
    unfold separatorRun at noRun
    dsimp only at noRun
    split at noRun
    · simp at noRun
    · rename_i short
      have whole : (c :: cs).takeWhile (fun c => !Text.isLowerAlnum c) = c :: cs := by
        rw [List.takeWhile_eq_self_iff]
        intro d member
        have dropped := List.filter_eq_nil_iff.mp none_ d member
        simpa using dropped
      rw [whole] at short
      omega

/-- The key that a written name's own spelling computes to is its key, where any name has it. -/
theorem computed_written {tag name other : String} (h : writtenName tag = some name)
    (same : computedTagKey name = normalizedTagKey other) : normalizedTagKey name = normalizedTagKey other := by
  rw [← same]
  apply String.toList_injective
  rw [normalizedTagKey_chars, computedTagKey_chars]
  have chars := congrArg String.toList same
  rw [computedTagKey_chars, normalizedTagKey_chars] at chars
  obtain ⟨body, clean, hash, proper, rfl⟩ := writtenName_some h
  generalize normalizeTagName tag = name at clean hash proper chars
  unfold sanitizedName at chars ⊢
  by_cases empty : body = ""
  · subst empty
    rw [if_pos rfl] at chars ⊢
    obtain ⟨cs, shape⟩ := List.head?_eq_some_iff.mp hash
    have text : (tagBody name).toList = cs.flatMap Text.lowerChar := by
      unfold tagBody Text.lower
      rw [shape, String.toList_ofList, String.toList_ofList]
      rfl
    have none_ := (sanitizeTagBody_alnum clean).1.symm
    have short := separators_short (sanitizeTagBody_ok clean).1 none_
    rw [text] at short none_
    rw [shape] at chars ⊢
    match cs with
    | [] =>
      refine absurd (String.toList_injective ?_) proper
      rw [shape]
      rfl
    | c :: d :: rest =>
      have first := List.length_pos_iff.mpr (Text.lowerChar_ne_nil c)
      have second := List.length_pos_iff.mpr (Text.lowerChar_ne_nil d)
      simp only [List.flatMap_cons, List.length_append] at short
      omega
    | [c] =>
      rw [keyChars_hash]
      by_cases separator : c = '#' ∨ c = '-' ∨ c = '_'
      · rcases separator with rfl | rfl | rfl <;> rfl
      · obtain ⟨noHash, noDash, noBar⟩ : c ≠ '#' ∧ c ≠ '-' ∧ c ≠ '_' := by simpa only [not_or] using separator
        have spelled : (['#', c].filter fun c => c != '#' && c != '-' && c != '_') = [c] := by
          simp [noHash, noDash, noBar]
        have fixed : c.toLower = c := by
          by_contra changes
          obtain ⟨d, lowered, kept⟩ := Text.lowerChar_of_toLower changes
          have left : d ∈ ([c].flatMap Text.lowerChar).filter Text.isLowerAlnum :=
            List.mem_filter.mpr ⟨List.mem_flatMap.mpr ⟨c, List.mem_singleton_self c, lowered⟩, kept⟩
          rw [none_] at left
          exact absurd left List.not_mem_nil
        rw [spelled, List.map_cons, fixed] at chars ⊢
        have member : c ∈ keyChars other.toList := by
          rw [← chars]
          exact List.mem_cons_self
        have plain := (List.mem_filter.mp member).2
        unfold keyChars
        rw [List.flatMap_cons, keyChars_lowered member, List.flatMap_nil, List.append_nil,
          List.dropWhile_cons_of_neg (by simpa using noHash), List.filter_cons, if_pos plain]
        rfl
  · rw [if_neg empty, hash_append_toList]
    have plain := sanitizeTagBody_plain clean
    have front : ('#' :: body.toList).filter (fun c => c != '#' && c != '-' && c != '_') =
        body.toList.filter fun c => c != '#' && c != '-' && c != '_' := rfl
    rw [keyChars_hash, keyChars_plain plain, front, computed_plain plain]

/-! ### Names that resolve alike -/

/-- The keys are one, or differ by a plural. -/
def sameTagKey (k l : String) : Bool := k == l || (decide (3 < k.length ∧ 3 < l.length) && rstripS k == rstripS l)

def alikeTags (name other : String) : Bool := sameTagKey (normalizedTagKey name) (normalizedTagKey other)

theorem sameTagKey_iff {k l : String} : sameTagKey k l = true ↔ k = l ∨ (3 < k.length ∧ 3 < l.length) ∧ rstripS k = rstripS l := by
  simp [sameTagKey]

theorem alikeTags_refl (name : String) : alikeTags name name = true := sameTagKey_iff.mpr (.inl rfl)

theorem alikeTags_symm {name other : String} (h : alikeTags name other = true) : alikeTags other name = true := by
  rcases sameTagKey_iff.mp h with same | ⟨⟨long, longer⟩, same⟩
  · exact sameTagKey_iff.mpr (.inl same.symm)
  · exact sameTagKey_iff.mpr (.inr ⟨⟨longer, long⟩, same.symm⟩)

theorem alikeTags_trans {a b c : String} (h : alikeTags a b = true) (k : alikeTags b c = true) : alikeTags a c = true := by
  unfold alikeTags at h k ⊢
  rw [sameTagKey_iff] at h k ⊢
  rcases h with same | ⟨⟨long, _⟩, same⟩
  · rw [same]
    exact k
  · rcases k with again | ⟨⟨_, longer⟩, again⟩
    · rw [← again]
      exact .inr ⟨⟨long, by assumption⟩, same⟩
    · exact .inr ⟨⟨long, longer⟩, same.trans again⟩

end SaltMdb
