import Mathlib.Data.List.Basic
import Mathlib.Data.List.TakeWhile

/-! Regular expressions matched by backtracking, at places of a text: the ways to match are listed in the order in which they are tried. -/

inductive Regex where
  | lineStart
  | lineEnd
  | one (accepts : Char → Bool)
  | many (least : Nat) (most : Option Nat) (accepts : Char → Bool)
  | seq (first second : Regex)
  | alt (first second : Regex)
  | group (inner : Regex)

namespace Regex

/-- A way to match: where it ends, and the ends of its groups in the order of their openings. -/
structure Outcome where
  stop : Nat
  groups : List (Nat × Nat)
deriving DecidableEq, Repr

def LineStart (text : List Char) (pos : Nat) : Prop := pos = 0 ∨ text[pos - 1]? = some '\n'

def LineEnd (text : List Char) (pos : Nat) : Prop := pos = text.length ∨ text[pos]? = some '\n'

instance (text : List Char) (pos : Nat) : Decidable (LineStart text pos) := inferInstanceAs (Decidable (_ ∨ _))

instance (text : List Char) (pos : Nat) : Decidable (LineEnd text pos) := inferInstanceAs (Decidable (_ ∨ _))

/-- How many letters from a place on are accepted. -/
def stretch (accepts : Char → Bool) (text : List Char) (pos : Nat) : Nat := ((text.drop pos).takeWhile accepts).length

/-- The lengths of a greedy repetition, from the longest down. -/
def lengths (least most : Nat) : List Nat := (List.range' least (most + 1 - least)).reverse

def run (text : List Char) : Regex → Nat → List Outcome
  | .lineStart, pos => if LineStart text pos then [⟨pos, []⟩] else []
  | .lineEnd, pos => if LineEnd text pos then [⟨pos, []⟩] else []
  | .one accepts, pos => if (text[pos]?.any accepts) then [⟨pos + 1, []⟩] else []
  | .many least most accepts, pos =>
    let longest := stretch accepts text pos
    (lengths least (most.elim longest (min longest))).map fun k => ⟨pos + k, []⟩
  | .seq first second, pos =>
    (run text first pos).flatMap fun o => (run text second o.stop).map fun o' => ⟨o'.stop, o.groups ++ o'.groups⟩
  | .alt first second, pos => run text first pos ++ run text second pos
  | .group inner, pos => (run text inner pos).map fun o => ⟨o.stop, (pos, o.stop) :: o.groups⟩

/-- The match at a place: the first way that succeeds. -/
def matchAt (text : List Char) (r : Regex) (pos : Nat) : Option Outcome := (run text r pos).head?

def slice (text : List Char) (start stop : Nat) : String := .ofList ((text.take stop).drop start)

/-- `re.findall` from a place on: the groups of each match. Behind an empty match the next one at its place may not be empty. -/
def findallFrom (text : List Char) (r : Regex) (pos : Nat) (mustAdvance : Bool) : List (List String) :=
  if pos ≤ text.length then
    match ((run text r pos).filter fun o => !mustAdvance || decide (pos < o.stop)).head? with
    | none => findallFrom text r (pos + 1) false
    | some o =>
      o.groups.map (fun g => slice text g.1 g.2) ::
        (if pos < o.stop then findallFrom text r o.stop false
          else if mustAdvance then [] else findallFrom text r pos true)
  else []
termination_by (text.length + 1 - pos, if mustAdvance then 0 else 1)
decreasing_by all_goals simp_wf; grind

def findall (text : List Char) (r : Regex) : List (List String) := findallFrom text r 0 false

variable {text : List Char} {pos : Nat} {accepts : Char → Bool} {r : Regex}

/-! ### Stretches -/

theorem stretch_le (text : List Char) (accepts : Char → Bool) (inside : pos ≤ text.length) :
    pos + stretch accepts text pos ≤ text.length := by
  have prefix_ := (List.takeWhile_prefix accepts (l := text.drop pos)).length_le
  rw [List.length_drop] at prefix_
  unfold stretch
  omega

theorem stretch_accepts {i : Nat} (inside : i < stretch accepts text pos) : ∃ c, text[pos + i]? = some c ∧ accepts c = true := by
  have known := List.getElem_mem inside
  have ok := List.mem_takeWhile_imp known
  refine ⟨_, ?_, ok⟩
  have same := (List.takeWhile_prefix accepts (l := text.drop pos)).getElem inside
  rw [← List.getElem?_drop, same, List.getElem?_eq_getElem]

/-- The letter behind a stretch is not accepted. -/
theorem stretch_stops {c : Char} (here : text[pos + stretch accepts text pos]? = some c) : accepts c = false := by
  rw [← List.getElem?_drop] at here
  have split := List.takeWhile_append_dropWhile (p := accepts) (l := text.drop pos)
  have at_ : (text.drop pos)[stretch accepts text pos]? = ((text.drop pos).dropWhile accepts)[0]? := by
    conv_lhs => rw [← split]
    rw [stretch, List.getElem?_append_right (Nat.le_refl _), Nat.sub_self]
  rw [at_] at here
  cases rest : (text.drop pos).dropWhile accepts with
  | nil => simp [rest] at here
  | cons first others =>
    have refused := List.head_dropWhile_not accepts (l := text.drop pos) (by rw [rest]; exact List.cons_ne_nil _ _)
    simp only [rest, List.head_cons] at refused
    simp only [rest, List.getElem?_cons_zero, Option.some.injEq] at here
    exact here ▸ refused

/-! ### Repetitions -/

theorem lengths_succ {least most : Nat} (enough : least ≤ most + 1) : lengths least (most + 1) = (most + 1) :: lengths least most := by
  have count : most + 1 + 1 - least = (most + 1 - least) + 1 := by omega
  have last : least + (most + 1 - least) = most + 1 := by omega
  rw [lengths, count, List.range'_1_concat, List.reverse_append, last]
  rfl

theorem lengths_nil {least most : Nat} (short : most < least) : lengths least most = [] := by
  have none_ : most + 1 - least = 0 := by omega
  rw [lengths, none_]
  rfl

theorem mem_lengths {least most k : Nat} : k ∈ lengths least most ↔ least ≤ k ∧ k ≤ most := by
  rw [lengths, List.mem_reverse, List.mem_range'_1]
  omega

/-- The longest repetition comes first. -/
theorem lengths_cons {least most : Nat} (enough : least ≤ most) : ∃ shorter, lengths least most = most :: shorter ∧
    ∀ k ∈ shorter, k < most := by
  cases most with
  | zero =>
    obtain rfl : least = 0 := Nat.le_zero.mp enough
    exact ⟨[], rfl, by simp⟩
  | succ most =>
    refine ⟨lengths least most, lengths_succ enough, fun k listed => ?_⟩
    exact Nat.lt_succ_of_le (mem_lengths.mp listed).2

variable {β : Type} {least most : Nat} {next : Nat → List β}

/-- Where only the longest repetition can go on, a repetition is that one. -/
theorem flatMap_longest (others : ∀ k < most, next k = []) : (lengths least most).flatMap next = if least ≤ most then next most else [] := by
  split
  · rename_i enough
    obtain ⟨shorter, split, below⟩ := lengths_cons enough
    rw [split, List.flatMap_cons, List.flatMap_eq_nil_iff.mpr fun k listed => others k (below k listed), List.append_nil]
  · rename_i short
    rw [lengths_nil (Nat.lt_of_not_le short)]
    rfl

theorem head_longest (enough : least ≤ most) (succeeds : next most ≠ []) : ((lengths least most).flatMap next).head? = (next most).head? := by
  obtain ⟨shorter, split, _⟩ := lengths_cons enough
  rw [split, List.flatMap_cons, List.head?_append_of_ne_nil _ succeeds]

theorem head_shorter (fails : next (most + 1) = []) : ((lengths least (most + 1)).flatMap next).head? = ((lengths least most).flatMap next).head? := by
  by_cases enough : least ≤ most + 1
  · rw [lengths_succ enough, List.flatMap_cons, fails, List.nil_append]
  · rw [lengths_nil (Nat.lt_of_not_le enough), lengths_nil (by omega)]

theorem run_many_seq (least : Nat) (most : Option Nat) (accepts : Char → Bool) (r : Regex) (pos : Nat) :
    run text (.seq (.many least most accepts) r) pos =
      (lengths least (most.elim (stretch accepts text pos) (min (stretch accepts text pos)))).flatMap fun k => run text r (pos + k) := by
  simp only [run, List.flatMap_map, List.nil_append]
  exact List.flatMap_congr fun k _ => List.map_id' _

theorem run_group_many_seq (least : Nat) (most : Option Nat) (accepts : Char → Bool) (r : Regex) (pos : Nat) :
    run text (.seq (.group (.many least most accepts)) r) pos =
      (lengths least (most.elim (stretch accepts text pos) (min (stretch accepts text pos)))).flatMap fun k =>
        (run text r (pos + k)).map fun o => ⟨o.stop, (pos, pos + k) :: o.groups⟩ := by
  simp only [run, List.map_map, List.flatMap_map, Function.comp_def, List.cons_append, List.nil_append]

/-! ### The matches of a text -/

theorem run_anchored (inner : ¬ LineStart text pos) : run text (.seq .lineStart r) pos = [] := by
  rw [run, run, if_neg inner]
  rfl

theorem run_lineStart (start : LineStart text pos) : run text (.seq .lineStart r) pos = run text r pos := by
  rw [run, run, if_pos start, List.flatMap_singleton]
  exact List.map_id' _

theorem findallFrom_over (over_ : text.length < pos) : findallFrom text r pos false = [] := by
  rw [findallFrom, if_neg (Nat.not_le.mpr over_)]

theorem filter_free (outcomes : List Outcome) : (outcomes.filter fun o => !false || decide (pos < o.stop)) = outcomes :=
  List.filter_eq_self.mpr fun _ _ => rfl

theorem findallFrom_none (fails : matchAt text r pos = none) : findallFrom text r pos false = findallFrom text r (pos + 1) false := by
  by_cases inside : pos ≤ text.length
  · rw [findallFrom, if_pos inside, filter_free, show (run text r pos).head? = none from fails]
  · rw [findallFrom_over (Nat.lt_of_not_le inside), findallFrom_over (Nat.lt_succ_of_lt (Nat.lt_of_not_le inside))]

theorem findallFrom_some {o : Outcome} (inside : pos ≤ text.length) (succeeds : matchAt text r pos = some o) (advances : pos < o.stop) :
    findallFrom text r pos false = o.groups.map (fun g => slice text g.1 g.2) :: findallFrom text r o.stop false := by
  rw [findallFrom, if_pos inside, filter_free, show (run text r pos).head? = some o from succeeds]
  exact congrArg _ (if_pos advances)

/-- A pattern anchored at line starts is not looked for between them. -/
theorem findallFrom_skip {from_ : Nat} (forward : from_ ≤ pos) (between : ∀ i, from_ ≤ i → i < pos → ¬ LineStart text i) :
    findallFrom text (.seq .lineStart r) from_ false = findallFrom text (.seq .lineStart r) pos false := by
  induction forward using Nat.decreasingInduction with
  | self => rfl
  | of_succ i less ih =>
    have fails : matchAt text (.seq .lineStart r) i = none := by
      rw [matchAt, run_anchored (between i (Nat.le_refl _) less)]
      rfl
    rw [findallFrom_none fails]
    exact ih fun j later => between j (Nat.le_of_lt later)

end Regex
