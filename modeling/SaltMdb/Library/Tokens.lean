import SaltMdb.Library.Regex

/-! Patterns that start, and may have to end, at the edge of a word, and the substitution of what they match: after it nothing
matches any more, where the marker is between two letters that no pattern reads. -/

namespace Regex

variable {text : List Char} {pos stop : Nat} {r : Regex}

/-! ### The words of an expression without anchors -/

def Plain : Regex → Prop
  | lineStart | lineEnd => False
  | one _ | many _ _ _ => True
  | seq first second | alt first second => first.Plain ∧ second.Plain
  | group inner => inner.Plain

def Accepts : Regex → List Char → Prop
  | lineStart, _ | lineEnd, _ => False
  | one accepts, word => ∃ c, word = [c] ∧ accepts c = true
  | many least most accepts, word => least ≤ word.length ∧ (∀ bound ∈ most, word.length ≤ bound) ∧ ∀ c ∈ word, accepts c = true
  | seq first second, word => ∃ a b, word = a ++ b ∧ first.Accepts a ∧ second.Accepts b
  | alt first second, word => first.Accepts word ∨ second.Accepts word
  | group inner, word => inner.Accepts word

theorem le_stretch {accepts : Char → Bool} {k : Nat} : k ≤ stretch accepts text pos ↔
    k ≤ (text.drop pos).length ∧ ∀ c ∈ (text.drop pos).take k, accepts c = true := by
  unfold stretch
  generalize text.drop pos = rest
  induction rest generalizing k with
  | nil => simp
  | cons c rest ih =>
    cases k with
    | zero => simp
    | succ k =>
      rw [List.takeWhile_cons, List.take_succ_cons, List.forall_mem_cons, List.length_cons]
      by_cases ok : accepts c = true
      · rw [if_pos ok, List.length_cons, Nat.add_le_add_iff_right, Nat.add_le_add_iff_right, ih]
        exact ⟨fun both => ⟨both.1, ok, both.2⟩, fun both => ⟨both.1, both.2.2⟩⟩
      · rw [if_neg ok]
        exact iff_of_false (Nat.not_succ_le_zero k) fun both => ok both.2.1

/-- An expression without anchors stops where a word of it ends, whatever is around the word. -/
theorem mem_run (plain : r.Plain) :
    (∃ o ∈ run text r pos, o.stop = stop) ↔ ∃ word rest, text.drop pos = word ++ rest ∧ stop = pos + word.length ∧ r.Accepts word := by
  induction r generalizing pos stop with
  | lineStart => exact plain.elim
  | lineEnd => exact plain.elim
  | one accepts =>
    unfold run Accepts
    constructor
    · rintro ⟨o, member, rfl⟩
      split at member
      · rename_i read
        obtain ⟨c, here, ok⟩ : ∃ c, text[pos]? = some c ∧ accepts c = true := by
          cases here : text[pos]? with
          | none => simp [here] at read
          | some c => exact ⟨c, rfl, by simpa [here] using read⟩
        rw [List.mem_singleton.mp member]
        have at_ : (text.drop pos)[0]? = some c := by rw [List.getElem?_drop]; exact here
        cases split_ : text.drop pos with
        | nil => rw [split_] at at_; exact absurd at_ (by simp)
        | cons d rest =>
          rw [split_] at at_
          obtain rfl := Option.some.inj at_
          exact ⟨[d], rest, rfl, rfl, d, rfl, ok⟩
      · exact absurd member List.not_mem_nil
    · rintro ⟨_, rest, split_, rfl, c, rfl, ok⟩
      have here : text[pos]? = some c := by
        have at_ : (text.drop pos)[0]? = some c := by rw [split_]; rfl
        rwa [List.getElem?_drop] at at_
      exact ⟨⟨pos + 1, []⟩, by simp [here, ok], rfl⟩
  | many least most accepts =>
    have bounded : ∀ k, k ≤ most.elim (stretch accepts text pos) (min (stretch accepts text pos)) ↔
        k ≤ stretch accepts text pos ∧ ∀ bound ∈ most, k ≤ bound := by
      intro k
      cases most with
      | none => simp
      | some bound => simp [Nat.le_min]
    unfold run Accepts
    dsimp only
    constructor
    · rintro ⟨o, member, rfl⟩
      obtain ⟨k, listed, rfl⟩ := List.mem_map.mp member
      obtain ⟨enough, within⟩ := mem_lengths.mp listed
      obtain ⟨reads, short⟩ := (bounded k).mp within
      obtain ⟨inside, ok⟩ := le_stretch.mp reads
      have length : ((text.drop pos).take k).length = k := List.length_take_of_le inside
      refine ⟨(text.drop pos).take k, (text.drop pos).drop k, (List.take_append_drop _ _).symm, by rw [length], ?_⟩
      rw [length]
      exact ⟨enough, short, ok⟩
    · rintro ⟨word, rest, split_, rfl, enough, short, ok⟩
      refine ⟨⟨pos + word.length, []⟩, List.mem_map.mpr ⟨word.length, mem_lengths.mpr ⟨enough, (bounded _).mpr ⟨?_, short⟩⟩, rfl⟩, rfl⟩
      rw [le_stretch, split_, List.take_left]
      exact ⟨by simp, ok⟩
  | seq first second ihFirst ihSecond =>
    unfold Accepts
    constructor
    · rintro ⟨o, member, rfl⟩
      obtain ⟨o₁, ran, later⟩ := List.mem_flatMap.mp member
      obtain ⟨o₂, next, rfl⟩ := List.mem_map.mp later
      obtain ⟨a, rest, split_, at_, left⟩ := (ihFirst plain.1).mp ⟨o₁, ran, rfl⟩
      obtain ⟨b, rest', split', at', right⟩ := (ihSecond plain.2).mp ⟨o₂, next, rfl⟩
      have behind : text.drop o₁.stop = rest := by
        rw [at_, ← List.drop_drop, split_, List.drop_left]
      rw [behind] at split'
      refine ⟨a ++ b, rest', by rw [split_, split', List.append_assoc], ?_, a, b, rfl, left, right⟩
      rw [List.length_append]
      dsimp only
      omega
    · rintro ⟨_, rest, split_, rfl, a, b, rfl, left, right⟩
      rw [List.append_assoc] at split_
      obtain ⟨o₁, ran, at_⟩ := (ihFirst plain.1).mpr ⟨a, b ++ rest, split_, rfl, left⟩
      have behind : text.drop o₁.stop = b ++ rest := by
        rw [at_, ← List.drop_drop, split_, List.drop_left]
      obtain ⟨o₂, next, at'⟩ := (ihSecond plain.2).mpr ⟨b, rest, behind, rfl, right⟩
      refine ⟨⟨o₂.stop, o₁.groups ++ o₂.groups⟩, List.mem_flatMap.mpr ⟨o₁, ran, List.mem_map.mpr ⟨o₂, next, rfl⟩⟩, ?_⟩
      rw [List.length_append]
      dsimp only
      omega
  | alt first second ihFirst ihSecond =>
    unfold Accepts
    simp only [run, List.mem_append, or_and_right, exists_or, ihFirst plain.1, ihSecond plain.2, and_or_left]
  | group inner ih =>
    unfold Accepts
    rw [← ih plain]
    simp [run]

/-! ### The letters an expression reads -/

def classes : Regex → List (Char → Bool)
  | lineStart | lineEnd => []
  | one accepts | many _ _ accepts => [accepts]
  | seq first second | alt first second => first.classes ++ second.classes
  | group inner => inner.classes

theorem Accepts.letters {word : List Char} (accepted : r.Accepts word) : ∀ c ∈ word, ∃ accepts ∈ r.classes, accepts c = true := by
  induction r generalizing word with
  | lineStart => exact accepted.elim
  | lineEnd => exact accepted.elim
  | one accepts =>
    obtain ⟨d, rfl, ok⟩ := accepted
    intro c member
    exact ⟨accepts, List.mem_singleton_self _, List.mem_singleton.mp member ▸ ok⟩
  | many least most accepts => exact fun c member => ⟨accepts, List.mem_singleton_self _, accepted.2.2 c member⟩
  | seq first second ihFirst ihSecond =>
    obtain ⟨a, b, rfl, left, right⟩ := accepted
    intro c member
    rcases List.mem_append.mp member with inA | inB
    · exact (ihFirst left c inA).imp fun _ both => ⟨List.mem_append_left _ both.1, both.2⟩
    · exact (ihSecond right c inB).imp fun _ both => ⟨List.mem_append_right _ both.1, both.2⟩
  | alt first second ihFirst ihSecond =>
    intro c member
    rcases accepted with left | right
    · exact (ihFirst left c member).imp fun _ both => ⟨List.mem_append_left _ both.1, both.2⟩
    · exact (ihSecond right c member).imp fun _ both => ⟨List.mem_append_right _ both.1, both.2⟩
  | group inner ih => exact ih accepted

/-- The classes that the first letter can be of; none is listed where an expression may read nothing. -/
def leads : Regex → Option (List (Char → Bool))
  | lineStart | lineEnd => none
  | one accepts => some [accepts]
  | many least _ accepts => if 1 ≤ least then some [accepts] else none
  | seq first _ => first.leads
  | alt first second => first.leads.bind fun l => second.leads.map (l ++ ·)
  | group inner => inner.leads

theorem Accepts.lead {word : List Char} {lead : List (Char → Bool)} (accepted : r.Accepts word) (known : r.leads = some lead) :
    ∃ c rest, word = c :: rest ∧ ∃ accepts ∈ lead, accepts c = true := by
  induction r generalizing word lead with
  | lineStart => exact accepted.elim
  | lineEnd => exact accepted.elim
  | one accepts =>
    obtain ⟨c, rfl, ok⟩ := accepted
    obtain rfl := Option.some.inj known
    exact ⟨c, [], rfl, accepts, List.mem_singleton_self _, ok⟩
  | many least most accepts =>
    unfold leads at known
    split at known
    · rename_i positive
      obtain rfl := Option.some.inj known
      obtain ⟨enough, _, ok⟩ := accepted
      cases word with
      | nil => exact absurd (Nat.le_trans positive enough) (by simp)
      | cons c rest => exact ⟨c, rest, rfl, accepts, List.mem_singleton_self _, ok c List.mem_cons_self⟩
    · exact absurd known (by simp)
  | seq first second ihFirst _ =>
    obtain ⟨a, b, rfl, left, _⟩ := accepted
    obtain ⟨c, rest, rfl, found⟩ := ihFirst left known
    exact ⟨c, rest ++ b, rfl, found⟩
  | alt first second ihFirst ihSecond =>
    obtain ⟨l, knownFirst, rest⟩ := Option.bind_eq_some_iff.mp known
    obtain ⟨m, knownSecond, rfl⟩ := Option.map_eq_some_iff.mp rest
    rcases accepted with left | right
    · obtain ⟨c, rest, rfl, accepts, listed, ok⟩ := ihFirst left knownFirst
      exact ⟨c, rest, rfl, accepts, List.mem_append_left _ listed, ok⟩
    · obtain ⟨c, rest, rfl, accepts, listed, ok⟩ := ihSecond right knownSecond
      exact ⟨c, rest, rfl, accepts, List.mem_append_right _ listed, ok⟩
  | group inner ih => exact ih accepted known

/-! ### The end of the first way to match -/

theorem head_seq {first second : Regex} {o : Outcome} (head : (run text (.seq first second) pos).head? = some o) :
    ∃ o₁ ∈ run text first pos, ∃ o₂, (run text second o₁.stop).head? = some o₂ ∧ o.stop = o₂.stop := by
  unfold run at head
  generalize run text first pos = ways at head ⊢
  induction ways with
  | nil => exact absurd head (by simp)
  | cons o₁ others ih =>
    rw [List.flatMap_cons] at head
    cases tail : run text second o₁.stop with
    | nil =>
      rw [tail, List.map_nil, List.nil_append] at head
      obtain ⟨o', listed, found⟩ := ih head
      exact ⟨o', List.mem_cons_of_mem _ listed, found⟩
    | cons o₂ rest =>
      rw [tail, List.map_cons, List.cons_append, List.head?_cons] at head
      obtain rfl := Option.some.inj head
      exact ⟨o₁, List.mem_cons_self, o₂, by rw [tail]; rfl, rfl⟩

/-- A greedy run and what may close it: the letter behind is refused by the run, or the run was closed. -/
theorem head_run_closed {least : Nat} {accepts closes : Char → Bool} {o : Outcome}
    (head : (run text (.seq (.many least none accepts) (.many 0 (some 1) closes)) pos).head? = some o) :
    (∀ c, text[o.stop]? = some c → accepts c = false) ∨ ∃ d, 1 ≤ o.stop ∧ text[o.stop - 1]? = some d ∧ closes d = true := by
  rw [run_many_seq] at head
  have longest : least ≤ stretch accepts text pos := by
    by_contra short
    rw [Option.elim_none, lengths_nil (Nat.lt_of_not_le short)] at head
    exact absurd head (by simp)
  have closing : run text (.many 0 (some 1) closes) (pos + stretch accepts text pos) ≠ [] := by
    obtain ⟨shorter, split_, _⟩ := lengths_cons (Nat.zero_le (min (stretch closes text (pos + stretch accepts text pos)) 1))
    unfold run
    dsimp only [Option.elim_some]
    rw [split_]
    exact List.cons_ne_nil _ _
  rw [Option.elim_none, head_longest longest closing] at head
  obtain ⟨shorter, split_, _⟩ := lengths_cons (Nat.zero_le (min (stretch closes text (pos + stretch accepts text pos)) 1))
  unfold run at head
  dsimp only [Option.elim_some] at head
  rw [split_, List.map_cons, List.head?_cons] at head
  obtain rfl := Option.some.inj head
  dsimp only
  rcases Nat.eq_zero_or_pos (stretch closes text (pos + stretch accepts text pos)) with none_ | some_
  · left
    intro c here
    rw [none_, Nat.zero_min, Nat.add_zero] at here
    exact stretch_stops here
  · right
    obtain ⟨d, here, ok⟩ := stretch_accepts some_
    rw [Nat.min_eq_right some_]
    exact ⟨d, Nat.le_add_left 1 _, here, ok⟩

end Regex

namespace Tokens
open Regex

variable (isWord : Char → Bool)

/-- A pattern starts at the edge of a word; a closed one ends at an edge, too. -/
structure Pattern where
  body : Regex
  closed : Bool

/-- Of the letters around a place one belongs to a word and the other does not. -/
def edge (before after : Option Char) : Bool := before.any isWord != after.any isWord

def edgeAt (text : List Char) (pos : Nat) : Bool := edge isWord (text.take pos).getLast? text[pos]?

def Pattern.run (text : List Char) (pattern : Pattern) (pos : Nat) : List Outcome :=
  if edgeAt isWord text pos then (Regex.run text pattern.body pos).filter fun o => !pattern.closed || edgeAt isWord text o.stop
  else []

/-- The match at a place, of the first pattern that has one. -/
def firstMatch (patterns : List Pattern) (text : List Char) (pos : Nat) : Option Outcome :=
  (patterns.flatMap fun pattern => pattern.run isWord text pos).head?

/-- `re.sub` from a place on. -/
def substitute (patterns : List Pattern) (marker text : List Char) (pos : Nat) : List Char :=
  if inside : pos < text.length then
    match firstMatch isWord patterns text pos with
    | none => text[pos] :: substitute patterns marker text (pos + 1)
    | some o =>
      if pos < o.stop then marker ++ substitute patterns marker text o.stop
      else marker ++ text[pos] :: substitute patterns marker text (pos + 1)
  else []
termination_by text.length - pos

variable {isWord} {patterns : List Pattern} {pattern : Pattern} {marker text word rest : List Char} {pos stop : Nat}
  {before : Option Char}

/-! ### Matches, told by what is around them -/

structure Pattern.Matches (isWord : Char → Bool) (pattern : Pattern) (before : Option Char) (word rest : List Char) : Prop where
  starts : edge isWord before (word ++ rest).head? = true
  reads : pattern.body.Accepts word
  ends : pattern.closed = true → edge isWord (word.getLast?.or before) rest.head? = true

theorem getLast?_take_add (split_ : text.drop pos = word ++ rest) :
    (text.take (pos + word.length)).getLast? = word.getLast?.or (text.take pos).getLast? := by
  rw [List.take_add, split_, List.take_left, List.getLast?_append]

theorem head?_of_drop (split_ : text.drop pos = word ++ rest) : text[pos + word.length]? = rest.head? := by
  rw [← List.getElem?_drop, split_, List.getElem?_append_right (Nat.le_refl _), Nat.sub_self, List.head?_eq_getElem?]

theorem mem_run_iff (plain : pattern.body.Plain) : (∃ o ∈ pattern.run isWord text pos, o.stop = stop) ↔
    ∃ word rest, text.drop pos = word ++ rest ∧ stop = pos + word.length ∧ pattern.Matches isWord (text.take pos).getLast? word rest := by
  have here : ∀ word rest, text.drop pos = word ++ rest → (word ++ rest).head? = text[pos]? := by
    intro word rest split_
    rw [← split_, List.head?_drop]
  have there : ∀ word rest, text.drop pos = word ++ rest →
      edgeAt isWord text (pos + word.length) = edge isWord (word.getLast?.or (text.take pos).getLast?) rest.head? := by
    intro word rest split_
    rw [edgeAt, getLast?_take_add split_, head?_of_drop split_]
  unfold Pattern.run
  constructor
  · rintro ⟨o, member, rfl⟩
    split at member
    · rename_i starts
      obtain ⟨ran, ends⟩ := List.mem_filter.mp member
      obtain ⟨word, rest, split_, at_, reads⟩ := (mem_run plain).mp ⟨o, ran, rfl⟩
      refine ⟨word, rest, split_, at_, ?_, reads, fun closed => ?_⟩
      · rw [here word rest split_]
        exact starts
      · rw [← there word rest split_, ← at_]
        simpa [closed] using ends
    · exact absurd member List.not_mem_nil
  · rintro ⟨word, rest, split_, rfl, found⟩
    obtain ⟨o, ran, at_⟩ := (mem_run plain).mpr ⟨word, rest, split_, rfl, found.reads⟩
    have starts : edgeAt isWord text pos = true := by
      rw [edgeAt, ← here word rest split_]
      exact found.starts
    rw [if_pos starts]
    refine ⟨o, List.mem_filter.mpr ⟨ran, ?_⟩, at_⟩
    rw [at_, there word rest split_]
    cases closed : pattern.closed with
    | false => rfl
    | true => rw [found.ends closed]; rfl

/-! ### The conditions -/

/-- The marker stands between two letters that no pattern reads, its own letters match nothing, and where a pattern does not end
at an edge, it ends with a greedy run of all letters that patterns start with, or with a letter like the marker's last. -/
structure Guarded (isWord : Char → Bool) (patterns : List Pattern) (opener closer : Char) (inner : List Char) : Prop where
  plain : ∀ p ∈ patterns, p.body.Plain
  foreign : ∀ p ∈ patterns, ∀ accepts ∈ p.body.classes, accepts opener = false ∧ accepts closer = false
  leads : ∀ p ∈ patterns, ∃ lead, p.body.leads = some lead
  silent : ∀ p ∈ patterns, Regex.run inner p.body 0 = []
  letters : ∀ c ∈ inner, isWord c = true
  settles : ∀ p ∈ patterns, p.closed = true ∨ ∃ front least accepts closes,
    p.body = .seq front (.seq (.many least none accepts) (.many 0 (some 1) closes)) ∧
      (∀ q ∈ patterns, ∀ lead, q.body.leads = some lead → ∀ f ∈ lead, ∀ c, f c = true → accepts c = true) ∧
      ∀ d, closes d = true → isWord d = isWord closer

/-- A letter that a pattern can start with. -/
def Leads (patterns : List Pattern) (c : Char) : Prop := ∃ p ∈ patterns, ∃ lead, p.body.leads = some lead ∧ ∃ f ∈ lead, f c = true

/-- Where a pattern can start behind the letter, it can start behind the text. -/
def Follows (isWord : Char → Bool) (patterns : List Pattern) (before : Option Char) (text : List Char) (pos : Nat) : Prop :=
  ∀ c, text[pos]? = some c → Leads patterns c → edge isWord before (some c) = true → edgeAt isWord text pos = true

/-- No pattern matches anywhere in the text behind the letter. -/
def Clean (isWord : Char → Bool) (patterns : List Pattern) (before : Option Char) (text : List Char) : Prop :=
  ∀ passed word rest, text = passed ++ (word ++ rest) → ∀ p ∈ patterns, ¬ p.Matches isWord (passed.getLast?.or before) word rest

section
variable {opener closer : Char} {inner : List Char} (guarded : Guarded isWord patterns opener closer inner)
include guarded

theorem Guarded.lead (listed : pattern ∈ patterns) (reads : pattern.body.Accepts word) : ∃ c others, word = c :: others ∧ Leads patterns c := by
  obtain ⟨lead, known⟩ := guarded.leads pattern listed
  obtain ⟨c, others, rfl, found⟩ := reads.lead known
  exact ⟨c, others, rfl, pattern, listed, lead, known, found⟩

theorem Guarded.apart (listed : pattern ∈ patterns) (reads : pattern.body.Accepts word) : opener ∉ word ∧ closer ∉ word := by
  constructor
  · intro member
    obtain ⟨accepts, here, ok⟩ := reads.letters opener member
    rw [(guarded.foreign pattern listed accepts here).1] at ok
    exact Bool.false_ne_true ok
  · intro member
    obtain ⟨accepts, here, ok⟩ := reads.letters closer member
    rw [(guarded.foreign pattern listed accepts here).2] at ok
    exact Bool.false_ne_true ok

theorem Guarded.firstMatch_iff : firstMatch isWord patterns text pos = none ↔
    ∀ word rest, text.drop pos = word ++ rest → ∀ p ∈ patterns, ¬ p.Matches isWord (text.take pos).getLast? word rest := by
  unfold firstMatch
  rw [List.head?_eq_none_iff, List.flatMap_eq_nil_iff]
  constructor
  · intro none_ word rest split_ p listed found
    obtain ⟨o, member, _⟩ := (mem_run_iff (guarded.plain p listed)).mpr ⟨word, rest, split_, rfl, found⟩
    rw [none_ p listed] at member
    exact List.not_mem_nil member
  · intro none_ p listed
    refine List.eq_nil_iff_forall_not_mem.mpr fun o member => ?_
    obtain ⟨word, rest, split_, _, found⟩ := (mem_run_iff (guarded.plain p listed)).mp ⟨o, member, rfl⟩
    exact none_ word rest split_ p listed found

/-- What is matched is the first way of one of the patterns. -/
theorem Guarded.firstMatch_some {o : Outcome} (found : firstMatch isWord patterns text pos = some o) :
    edgeAt isWord text pos = true ∧ pos < o.stop ∧ Follows isWord patterns (some closer) text o.stop := by
  have one : ∃ p ∈ patterns, (p.run isWord text pos).head? = some o := by
    unfold firstMatch at found
    clear guarded
    induction patterns with
    | nil => exact absurd found (by simp)
    | cons p others ih =>
      rw [List.flatMap_cons] at found
      cases first : p.run isWord text pos with
      | nil =>
        rw [first, List.nil_append] at found
        obtain ⟨q, listed, head⟩ := ih found
        exact ⟨q, List.mem_cons_of_mem _ listed, head⟩
      | cons o' more =>
        rw [first, List.cons_append, List.head?_cons] at found
        exact ⟨p, List.mem_cons_self, by rw [first, List.head?_cons]; exact found⟩
  obtain ⟨p, listed, head⟩ := one
  have member : o ∈ p.run isWord text pos := List.mem_of_head? head
  obtain ⟨word, rest, split_, at_, matched⟩ := (mem_run_iff (guarded.plain p listed)).mp ⟨o, member, rfl⟩
  obtain ⟨c, others, rfl, _⟩ := guarded.lead listed matched.reads
  have inside : text.drop pos ≠ [] := by rw [split_]; exact List.cons_ne_nil _ _
  unfold Pattern.run at head member
  split at head
  · rename_i starts
    refine ⟨starts, by rw [at_, List.length_cons]; omega, fun c here canLead edged => ?_⟩
    rw [if_pos starts] at member
    rcases guarded.settles p listed with closed | ⟨front, least, accepts, closes, shape, covers, alike⟩
    · simpa [closed] using (List.mem_filter.mp member).2
    · by_cases closed : p.closed = true
      · simpa [closed] using (List.mem_filter.mp member).2
      · have all_ : (Regex.run text p.body pos).filter (fun o => !p.closed || edgeAt isWord text o.stop) = Regex.run text p.body pos :=
          List.filter_eq_self.mpr fun _ _ => by simp [closed]
        rw [all_, shape] at head
        obtain ⟨o₁, _, o₂, last, same⟩ := head_seq head
        rcases head_run_closed last with refused | ⟨d, positive, ok, closing⟩
        · obtain ⟨q, qListed, lead, known, f, member, fits⟩ := canLead
          rw [same] at here
          have read := covers q qListed lead known f member c fits
          rw [refused c here] at read
          exact absurd read Bool.false_ne_true
        · have last : (text.take o.stop).getLast? = some d := by
            rw [same, List.getLast?_take, if_neg (Nat.ne_of_gt positive), ok]
            rfl
          have like : edge isWord (some d) (some c) = edge isWord (some closer) (some c) := by
            simp only [edge, Option.any_some, alike d closing]
          rw [edgeAt, last, here, like]
          exact edged
  · exact absurd head (by simp)

/-! ### The text with the marker in it -/

omit guarded in
theorem substitute_none (inside : pos < text.length) (none_ : firstMatch isWord patterns text pos = none) :
    substitute isWord patterns marker text pos = text[pos] :: substitute isWord patterns marker text (pos + 1) := by
  rw [substitute, dif_pos inside, none_]

omit guarded in
theorem substitute_end (outside : text.length ≤ pos) : substitute isWord patterns marker text pos = [] := by
  rw [substitute, dif_neg (Nat.not_lt.mpr outside)]

theorem Guarded.substitute_some {o : Outcome} (found : firstMatch isWord patterns text pos = some o) (inside : pos < text.length) :
    substitute isWord patterns marker text pos = marker ++ substitute isWord patterns marker text o.stop := by
  rw [substitute, dif_pos inside, found]
  exact if_pos (guarded.firstMatch_some found).2.1

theorem Guarded.inside {o : Outcome} (found : firstMatch isWord patterns text pos = some o) : pos < text.length := by
  by_contra outside
  have empty : text.drop pos = [] := List.drop_eq_nil_of_le (Nat.not_lt.mp outside)
  have none_ : firstMatch isWord patterns text pos = none := by
    rw [guarded.firstMatch_iff]
    intro word rest split_ p listed matched
    obtain ⟨c, others, rfl, _⟩ := guarded.lead listed matched.reads
    rw [empty] at split_
    exact absurd split_ (by simp)
  rw [none_] at found
  exact absurd found (by simp)

/-- A part of the new text without the marker's first letter is a part of the old one. -/
theorem Guarded.gap (split_ : substitute isWord patterns (opener :: inner ++ [closer]) text pos = word ++ rest) (apart : opener ∉ word) :
    text.drop pos = word ++ text.drop (pos + word.length) ∧
      rest = substitute isWord patterns (opener :: inner ++ [closer]) text (pos + word.length) := by
  induction word generalizing pos with
  | nil => exact ⟨rfl, split_.symm⟩
  | cons c word ih =>
    obtain ⟨other, apart⟩ := not_or.mp (List.mem_cons.not.mp apart)
    cases found : firstMatch isWord patterns text pos with
    | some o =>
      rw [guarded.substitute_some found (guarded.inside found)] at split_
      exact absurd (List.cons.inj split_).1 other
    | none =>
      rcases Nat.lt_or_ge pos text.length with inside | outside
      · rw [substitute_none inside found] at split_
        obtain ⟨same, split_⟩ := List.cons.inj split_
        obtain ⟨more, later⟩ := ih split_ apart
        have shift : pos + 1 + word.length = pos + (c :: word).length := by rw [List.length_cons]; omega
        rw [shift] at more later
        refine ⟨?_, later⟩
        rw [List.drop_eq_getElem_cons inside, more, same]
        rfl
      · rw [substitute_end outside] at split_
        exact absurd split_ (by simp)

/-- Where nothing matches in the text, nothing matches in the new text behind a letter that it follows. -/
theorem Guarded.unmatched (follows : Follows isWord patterns before text pos) (none_ : firstMatch isWord patterns text pos = none)
    (split_ : substitute isWord patterns (opener :: inner ++ [closer]) text pos = word ++ rest) (listed : pattern ∈ patterns) :
    ¬ pattern.Matches isWord before word rest := by
  intro found
  obtain ⟨old, later⟩ := guarded.gap split_ (guarded.apart listed found.reads).1
  obtain ⟨c, others, rfl, canLead⟩ := guarded.lead listed found.reads
  have here : text[pos]? = some c := by
    rw [← List.head?_drop, old]
    rfl
  have starts := follows c here canLead found.starts
  refine (guarded.firstMatch_iff.mp none_) (c :: others) _ old pattern listed ⟨?_, found.reads, fun closed => ?_⟩
  · rw [edgeAt, here] at starts
    exact starts
  · have ends := found.ends closed
    have known : ((c :: others).getLast?.or before) = (c :: others).getLast?.or (text.take pos).getLast? := by
      rw [List.getLast?_cons]
      rfl
    rw [known, later] at ends
    -- the place behind: the end of the text, a match, which starts at an edge, or the same letter
    cases next : firstMatch isWord patterns text (pos + (c :: others).length) with
    | some o =>
      have edged := (guarded.firstMatch_some next).1
      rw [edgeAt, getLast?_take_add old, ← List.head?_drop] at edged
      exact edged
    | none =>
      rcases Nat.lt_or_ge (pos + (c :: others).length) text.length with inside | outside
      · rw [substitute_none inside next, List.head?_cons] at ends
        rw [List.head?_drop, List.getElem?_eq_getElem inside]
        exact ends
      · rw [substitute_end outside] at ends
        rw [List.drop_eq_nil_of_le outside]
        exact ends

/-- The marker itself matches nothing, and what is behind it only what matches there. -/
theorem Guarded.marker_clean (clean : Clean isWord patterns (some closer) text) :
    Clean isWord patterns before (opener :: inner ++ [closer] ++ text) := by
  intro passed word rest split_ p listed found
  obtain ⟨noOpener, noCloser⟩ := guarded.apart listed found.reads
  obtain ⟨c, others, rfl, _⟩ := guarded.lead listed found.reads
  have whole : opener :: (inner ++ closer :: text) = passed ++ (c :: others ++ rest) := by simpa using split_
  cases passed with
  | nil => exact noOpener ((List.cons.inj whole).1 ▸ List.mem_cons_self)
  | cons first passed =>
    obtain ⟨_, whole⟩ := List.cons.inj whole
    rcases List.append_eq_append_iff.mp whole with ⟨more, rfl, behind⟩ | ⟨left, rfl, behind⟩
    · -- the place is behind the letters of the marker
      cases more with
      | nil => exact noCloser ((List.cons.inj behind).1 ▸ List.mem_cons_self)
      | cons last more =>
        obtain ⟨rfl, tail⟩ := List.cons.inj behind
        refine clean more (c :: others) rest tail p listed ?_
        have same : (first :: (inner ++ closer :: more)).getLast?.or before = more.getLast?.or (some closer) := by
          rw [show first :: (inner ++ closer :: more) = (first :: inner ++ [closer]) ++ more by simp, List.getLast?_append,
            List.getLast?_concat]
          cases more.getLast? <;> rfl
        rw [same] at found
        exact found
    · cases left with
      | nil => exact noCloser ((List.cons.inj behind).1 ▸ List.mem_cons_self)
      | cons letter left =>
        obtain ⟨rfl, tail⟩ := List.cons.inj behind
        have word_ : isWord c = true := guarded.letters c (by simp)
        cases passed with
        | cons second passed =>
          -- two letters of one word around the place
          have around : ∃ d, ((first :: second :: passed).getLast?.or before) = some d ∧ isWord d = true := by
            refine ⟨(second :: passed).getLast (List.cons_ne_nil _ _), ?_, guarded.letters _ ?_⟩
            · rw [List.getLast?_cons_cons, List.getLast?_eq_getLast_of_ne_nil (List.cons_ne_nil _ _)]
              rfl
            · exact List.mem_append_left _ (List.getLast_mem _)
          obtain ⟨d, at_, alsoWord⟩ := around
          have starts := found.starts
          rw [at_, List.cons_append, List.head?_cons, edge, Option.any_some, Option.any_some, word_, alsoWord] at starts
          exact absurd starts (by decide)
        | nil =>
          -- a match of the whole word or of its beginning
          have within : ∃ after, left = others ++ after := by
            have tail : others ++ rest = left ++ closer :: text := tail
            rcases List.append_eq_append_iff.mp tail with ⟨more, shorter, _⟩ | ⟨more, longer, reads⟩
            · exact ⟨more, shorter⟩
            · cases more with
              | nil => exact ⟨[], by rw [longer]; simp⟩
              | cons d more =>
                obtain rfl := (List.cons.inj reads).1
                exact absurd (List.mem_cons_of_mem c (longer ▸ List.mem_append_right _ List.mem_cons_self)) noCloser
          obtain ⟨after, rfl⟩ := within
          obtain ⟨o, member, _⟩ := (@mem_run (c :: (others ++ after)) 0 _ p.body (guarded.plain p listed)).mpr
            ⟨c :: others, after, rfl, rfl, found.reads⟩
          have silent := guarded.silent p listed
          rw [List.nil_append] at silent
          rw [silent] at member
          exact List.not_mem_nil member

theorem Guarded.substitute_clean (before : Option Char) (follows : Follows isWord patterns before text pos) :
    Clean isWord patterns before (substitute isWord patterns (opener :: inner ++ [closer]) text pos) := by
  generalize left : text.length - pos = n
  induction n using Nat.strongRecOn generalizing pos before with
  | ind n ih =>
    cases found : firstMatch isWord patterns text pos with
    | some o =>
      have inside := guarded.inside found
      obtain ⟨_, onward, later⟩ := guarded.firstMatch_some found
      rw [guarded.substitute_some found inside]
      exact guarded.marker_clean (ih (text.length - o.stop) (by omega) (some closer) later rfl)
    | none =>
      rcases Nat.lt_or_ge pos text.length with inside | outside
      · intro passed word rest split_ p listed
        cases passed with
        | nil =>
          rw [List.getLast?_nil, Option.none_or]
          exact guarded.unmatched follows found split_ listed
        | cons c passed =>
          rw [substitute_none inside found] at split_
          obtain ⟨rfl, tail⟩ := List.cons.inj split_
          have same : ((text[pos] :: passed).getLast?.or before) = passed.getLast?.or (some text[pos]) := by
            rw [List.getLast?_cons]
            cases passed.getLast? <;> rfl
          rw [same]
          refine ih (text.length - (pos + 1)) (by omega) (some text[pos]) (fun d here _ edged => ?_) rfl passed word rest tail p listed
          rw [edgeAt, here, List.getLast?_take, if_neg (Nat.succ_ne_zero pos), Nat.add_sub_cancel, List.getElem?_eq_getElem inside]
          exact edged
      · rw [substitute_end outside]
        intro passed word rest split_ p listed matched
        obtain ⟨c, others, rfl, _⟩ := guarded.lead listed matched.reads
        exact absurd split_ (by simp)

/-- After the substitution nothing matches. -/
theorem Guarded.substitute_free (text : List Char) (pos : Nat) :
    firstMatch isWord patterns (substitute isWord patterns (opener :: inner ++ [closer]) text 0) pos = none := by
  have clean := @Guarded.substitute_clean _ _ text 0 _ _ _ guarded none fun c here _ edged => by
    rw [edgeAt, here]
    exact edged
  rw [guarded.firstMatch_iff]
  intro word rest split_ p listed matched
  refine clean (_ : List Char) word rest ((List.take_append_drop pos _).symm.trans (congrArg _ split_)) p listed ?_
  rw [Option.or_none]
  exact matched

omit guarded in
/-- A text that nothing matches in is left as it is. -/
theorem substitute_self (free : ∀ pos, firstMatch isWord patterns text pos = none) (pos : Nat) :
    substitute isWord patterns marker text pos = text.drop pos := by
  generalize left : text.length - pos = n
  induction n generalizing pos with
  | zero =>
    rw [substitute_end (by omega), List.drop_eq_nil_of_le (by omega)]
  | succ n ih =>
    have inside : pos < text.length := by omega
    rw [substitute_none inside (free pos), ih (pos + 1) (by omega), List.drop_eq_getElem_cons inside]

end
end Tokens
