import Mathlib.Data.List.Infix
import Mathlib.Data.List.DropRight

/-! The string operations of the source, on code points. -/

namespace SaltMdb.Text

/-- The characters `str.strip()` and `str.split()` treat as whitespace. -/
def isSpace (c : Char) : Bool :=
  let n := c.toNat
  (9 ≤ n && n ≤ 13) || (28 ≤ n && n ≤ 32) || n == 133 || n == 160 || n == 5760 ||
    (8192 ≤ n && n ≤ 8202) || n == 8232 || n == 8233 || n == 8239 || n == 8287 || n == 12288

def stripEnds (drop : Char → Bool) (cs : List Char) : List Char :=
  ((cs.dropWhile drop).reverse.dropWhile drop).reverse

def strip (s : String) : String := .ofList (stripEnds isSpace s.toList)

/-- A run of capitals outside ASCII, every `step`-th code from `first` on; they lower to the codes from `lowered` on. -/
structure LowerRun where
  first : Nat
  last : Nat
  step : Nat
  lowered : Nat

/-- The letters outside ASCII that lower to one letter outside ASCII. -/
def lowerRuns : List LowerRun :=
  [⟨192, 214, 1, 224⟩, ⟨216, 222, 1, 248⟩, ⟨256, 302, 2, 257⟩, ⟨306, 310, 2, 307⟩, ⟨313, 327, 2, 314⟩,
    ⟨330, 374, 2, 331⟩, ⟨376, 376, 2, 255⟩, ⟨377, 381, 2, 378⟩, ⟨385, 385, 2, 595⟩, ⟨386, 388, 2, 387⟩,
    ⟨390, 390, 2, 596⟩, ⟨391, 391, 2, 392⟩, ⟨393, 394, 1, 598⟩, ⟨395, 395, 2, 396⟩, ⟨398, 398, 2, 477⟩,
    ⟨399, 399, 2, 601⟩, ⟨400, 400, 2, 603⟩, ⟨401, 401, 2, 402⟩, ⟨403, 403, 2, 608⟩, ⟨404, 404, 2, 611⟩,
    ⟨406, 406, 2, 617⟩, ⟨407, 407, 2, 616⟩, ⟨408, 408, 2, 409⟩, ⟨412, 412, 2, 623⟩, ⟨413, 413, 2, 626⟩,
    ⟨415, 415, 2, 629⟩, ⟨416, 420, 2, 417⟩, ⟨422, 422, 2, 640⟩, ⟨423, 423, 2, 424⟩, ⟨425, 425, 2, 643⟩,
    ⟨428, 428, 2, 429⟩, ⟨430, 430, 2, 648⟩, ⟨431, 431, 2, 432⟩, ⟨433, 434, 1, 650⟩, ⟨435, 437, 2, 436⟩,
    ⟨439, 439, 2, 658⟩, ⟨440, 440, 2, 441⟩, ⟨444, 444, 2, 445⟩, ⟨452, 452, 2, 454⟩, ⟨453, 453, 2, 454⟩,
    ⟨455, 455, 2, 457⟩, ⟨456, 456, 2, 457⟩, ⟨458, 458, 2, 460⟩, ⟨459, 475, 2, 460⟩, ⟨478, 494, 2, 479⟩,
    ⟨497, 497, 2, 499⟩, ⟨498, 500, 2, 499⟩, ⟨502, 502, 2, 405⟩, ⟨503, 503, 2, 447⟩, ⟨504, 542, 2, 505⟩,
    ⟨544, 544, 2, 414⟩, ⟨546, 562, 2, 547⟩, ⟨570, 570, 2, 11365⟩, ⟨571, 571, 2, 572⟩, ⟨573, 573, 2, 410⟩,
    ⟨574, 574, 2, 11366⟩, ⟨577, 577, 2, 578⟩, ⟨579, 579, 2, 384⟩, ⟨580, 580, 2, 649⟩, ⟨581, 581, 2, 652⟩,
    ⟨582, 590, 2, 583⟩, ⟨880, 882, 2, 881⟩, ⟨886, 886, 2, 887⟩, ⟨895, 895, 2, 1011⟩, ⟨902, 902, 2, 940⟩,
    ⟨904, 906, 1, 941⟩, ⟨908, 908, 2, 972⟩, ⟨910, 911, 1, 973⟩, ⟨913, 929, 1, 945⟩, ⟨931, 939, 1, 963⟩,
    ⟨975, 975, 2, 983⟩, ⟨984, 1006, 2, 985⟩, ⟨1012, 1012, 2, 952⟩, ⟨1015, 1015, 2, 1016⟩, ⟨1017, 1017, 2, 1010⟩,
    ⟨1018, 1018, 2, 1019⟩, ⟨1021, 1023, 1, 891⟩, ⟨1024, 1039, 1, 1104⟩, ⟨1040, 1071, 1, 1072⟩, ⟨1120, 1152, 2, 1121⟩,
    ⟨1162, 1214, 2, 1163⟩, ⟨1216, 1216, 2, 1231⟩, ⟨1217, 1229, 2, 1218⟩, ⟨1232, 1326, 2, 1233⟩, ⟨1329, 1366, 1, 1377⟩,
    ⟨4256, 4293, 1, 11520⟩, ⟨4295, 4295, 2, 11559⟩, ⟨4301, 4301, 2, 11565⟩, ⟨5024, 5103, 1, 43888⟩,
    ⟨5104, 5109, 1, 5112⟩, ⟨7312, 7354, 1, 4304⟩, ⟨7357, 7359, 1, 4349⟩, ⟨7680, 7828, 2, 7681⟩, ⟨7838, 7838, 2, 223⟩,
    ⟨7840, 7934, 2, 7841⟩, ⟨7944, 7951, 1, 7936⟩, ⟨7960, 7965, 1, 7952⟩, ⟨7976, 7983, 1, 7968⟩, ⟨7992, 7999, 1, 7984⟩,
    ⟨8008, 8013, 1, 8000⟩, ⟨8025, 8031, 2, 8017⟩, ⟨8040, 8047, 1, 8032⟩, ⟨8072, 8079, 1, 8064⟩, ⟨8088, 8095, 1, 8080⟩,
    ⟨8104, 8111, 1, 8096⟩, ⟨8120, 8121, 1, 8112⟩, ⟨8122, 8123, 1, 8048⟩, ⟨8124, 8124, 2, 8115⟩, ⟨8136, 8139, 1, 8050⟩,
    ⟨8140, 8140, 2, 8131⟩, ⟨8152, 8153, 1, 8144⟩, ⟨8154, 8155, 1, 8054⟩, ⟨8168, 8169, 1, 8160⟩, ⟨8170, 8171, 1, 8058⟩,
    ⟨8172, 8172, 2, 8165⟩, ⟨8184, 8185, 1, 8056⟩, ⟨8186, 8187, 1, 8060⟩, ⟨8188, 8188, 2, 8179⟩, ⟨8486, 8486, 2, 969⟩,
    ⟨8491, 8491, 2, 229⟩, ⟨8498, 8498, 2, 8526⟩, ⟨8544, 8559, 1, 8560⟩, ⟨8579, 8579, 2, 8580⟩, ⟨9398, 9423, 1, 9424⟩,
    ⟨11264, 11311, 1, 11312⟩, ⟨11360, 11360, 2, 11361⟩, ⟨11362, 11362, 2, 619⟩, ⟨11363, 11363, 2, 7549⟩,
    ⟨11364, 11364, 2, 637⟩, ⟨11367, 11371, 2, 11368⟩, ⟨11373, 11373, 2, 593⟩, ⟨11374, 11374, 2, 625⟩,
    ⟨11375, 11375, 2, 592⟩, ⟨11376, 11376, 2, 594⟩, ⟨11378, 11378, 2, 11379⟩, ⟨11381, 11381, 2, 11382⟩,
    ⟨11390, 11391, 1, 575⟩, ⟨11392, 11490, 2, 11393⟩, ⟨11499, 11501, 2, 11500⟩, ⟨11506, 11506, 2, 11507⟩,
    ⟨42560, 42604, 2, 42561⟩, ⟨42624, 42650, 2, 42625⟩, ⟨42786, 42798, 2, 42787⟩, ⟨42802, 42862, 2, 42803⟩,
    ⟨42873, 42875, 2, 42874⟩, ⟨42877, 42877, 2, 7545⟩, ⟨42878, 42886, 2, 42879⟩, ⟨42891, 42891, 2, 42892⟩,
    ⟨42893, 42893, 2, 613⟩, ⟨42896, 42898, 2, 42897⟩, ⟨42902, 42920, 2, 42903⟩, ⟨42922, 42922, 2, 614⟩,
    ⟨42923, 42923, 2, 604⟩, ⟨42924, 42924, 2, 609⟩, ⟨42925, 42925, 2, 620⟩, ⟨42926, 42926, 2, 618⟩,
    ⟨42928, 42928, 2, 670⟩, ⟨42929, 42929, 2, 647⟩, ⟨42930, 42930, 2, 669⟩, ⟨42931, 42931, 2, 43859⟩,
    ⟨42932, 42946, 2, 42933⟩, ⟨42948, 42948, 2, 42900⟩, ⟨42949, 42949, 2, 642⟩, ⟨42950, 42950, 2, 7566⟩,
    ⟨42951, 42953, 2, 42952⟩, ⟨42960, 42960, 2, 42961⟩, ⟨42966, 42968, 2, 42967⟩, ⟨42997, 42997, 2, 42998⟩,
    ⟨65313, 65338, 1, 65345⟩, ⟨66560, 66599, 1, 66600⟩, ⟨66736, 66771, 1, 66776⟩, ⟨66928, 66938, 1, 66967⟩,
    ⟨66940, 66954, 1, 66979⟩, ⟨66956, 66962, 1, 66995⟩, ⟨66964, 66965, 1, 67003⟩, ⟨68736, 68786, 1, 68800⟩,
    ⟨71840, 71871, 1, 71872⟩, ⟨93760, 93791, 1, 93792⟩, ⟨125184, 125217, 1, 125218⟩]

def LowerRun.covers (run : LowerRun) (n : Nat) : Bool :=
  Nat.ble run.first n && Nat.ble n run.last && (n - run.first) % run.step == 0

def lowerWide (n : Nat) : Nat :=
  match lowerRuns.find? (·.covers n) with
  | some run => n - run.first + run.lowered
  | none => n

/-- `str.lower()` of one character: the Kelvin sign and the dotted capital I lower into ASCII, and of a final sigma only
the usual form is given. -/
def lowerChar (c : Char) : List Char :=
  if c.toNat < 128 then [c.toLower]
  else if c.toNat = 8490 then ['k']
  else if c.toNat = 304 then ['i', Char.ofNat 775]
  else [Char.ofNat (lowerWide c.toNat)]

def lower (s : String) : String := .ofList (s.toList.flatMap lowerChar)

def isLowerAlnum (c : Char) : Bool := ('a' ≤ c && c ≤ 'z') || ('0' ≤ c && c ≤ '9')

/-- Every run of characters outside `keep` becomes one `sep`. -/
def collapseRuns (keep : Char → Bool) (sep : Char) : List Char → Bool → List Char
  | [], _ => []
  | c :: cs, inRun =>
    if keep c then c :: collapseRuns keep sep cs false
    else if inRun then collapseRuns keep sep cs true
    else sep :: collapseRuns keep sep cs true

def join (sep : String) : List String → String
  | [] => ""
  | [s] => s
  | s :: t :: rest => s ++ sep ++ join sep (t :: rest)

/-- `value or default`, which also replaces the empty text. -/
def orDefault (value : Option String) (default : String) : String :=
  match value with
  | none => default
  | some s => if s = "" then default else s

/-- `sub in s`. -/
def contains (s sub : String) : Bool := decide (sub.toList <:+: s.toList)

/-- `s.replace(old, new)` for a nonempty `old`. -/
def replaceAll (old new : List Char) : List Char → Nat → List Char
  | cs, 0 => cs
  | [], _ + 1 => []
  | c :: cs, fuel + 1 =>
    if old.isPrefixOf (c :: cs) then new ++ replaceAll old new ((c :: cs).drop old.length) fuel
    else c :: replaceAll old new cs fuel

def replace (s : String) (old new : String) : String :=
  .ofList (replaceAll old.toList new.toList s.toList s.toList.length)

theorem stripEnds_eq (drop : Char → Bool) (cs : List Char) :
    stripEnds drop cs = (cs.dropWhile drop).rdropWhile drop := rfl

theorem stripEnds_stripEnds (drop : Char → Bool) (cs : List Char) :
    stripEnds drop (stripEnds drop cs) = stripEnds drop cs := by
  have front : (stripEnds drop cs).dropWhile drop = stripEnds drop cs := by
    rw [List.dropWhile_eq_self_iff]
    intro nonempty
    have cut : stripEnds drop cs <+: cs.dropWhile drop := List.rdropWhile_prefix drop _
    rw [cut.getElem nonempty]
    exact List.dropWhile_eq_self_iff.mp (List.dropWhile_idempotent drop cs) (nonempty.trans_le cut.length_le)
  rw [stripEnds_eq, front]
  exact List.rdropWhile_idempotent drop _

theorem strip_strip (s : String) : strip (strip s) = strip s := by
  simp only [strip, String.toList_ofList, stripEnds_stripEnds]

/-- A test that every code below 128 passes. -/
theorem passes_ascii (test : Char → Bool) (passed : (List.range 128).all (fun n => test (Char.ofNat n)) = true)
    {c : Char} (ascii : c.toNat < 128) : test c = true := by
  have found := List.all_eq_true.mp passed c.toNat (List.mem_range.mpr ascii)
  rw [Char.ofNat_toNat] at found
  exact found

/-! ### Lowered characters -/

theorem lowerChar_ne_nil (c : Char) : lowerChar c ≠ [] := by
  unfold lowerChar
  split
  · simp
  · split
    · simp
    · split <;> simp

/-- No code that the run lowers to is of the other run. -/
def LowerRun.apart (run other : LowerRun) : Bool :=
  Nat.blt (run.lowered + (run.last - run.first)) other.first || Nat.blt other.last run.lowered ||
    (Nat.beq run.step 2 && Nat.beq other.step 2 && Nat.beq ((run.lowered + other.first) % 2) 1)

/-- The codes that the run lowers to are characters outside ASCII, and none of the two that lower into ASCII. -/
def LowerRun.plain (run : LowerRun) : Bool :=
  let last := run.lowered + (run.last - run.first)
  Nat.blt 127 run.lowered && (Nat.blt last 304 || Nat.blt 304 run.lowered) && (Nat.blt last 8490 || Nat.blt 8490 run.lowered) &&
    (Nat.blt last 0xD800 || Nat.blt 0xDFFF run.lowered && Nat.blt last 0x110000)

theorem lowerRuns_checked : lowerRuns.all (fun run => run.plain && lowerRuns.all run.apart) = true := by decide +kernel

theorem LowerRun.apart_covers {run other : LowerRun} {n : Nat} (apart : run.apart other = true) (covered : run.covers n = true) :
    other.covers (n - run.first + run.lowered) = false := by
  obtain ⟨first, last, step, lowered⟩ := run
  obtain ⟨first', last', step', lowered'⟩ := other
  rw [← Bool.not_eq_true]
  intro again
  simp only [covers, Bool.and_eq_true, Nat.ble_eq, beq_iff_eq] at covered again
  simp only [LowerRun.apart, Bool.or_eq_true, Bool.and_eq_true, Nat.blt_eq, Nat.beq_eq] at apart
  obtain ⟨⟨low, high⟩, even⟩ := covered
  obtain ⟨⟨low', high'⟩, even'⟩ := again
  rcases apart with (before | after) | ⟨⟨rfl, rfl⟩, odd⟩ <;> omega

theorem lowerWide_found {n : Nat} {run : LowerRun} (found : lowerRuns.find? (·.covers n) = some run) :
    lowerWide n = n - run.first + run.lowered ∧ run.plain = true ∧ run.covers n = true ∧
      lowerWide (n - run.first + run.lowered) = n - run.first + run.lowered := by
  have checked := List.all_eq_true.mp lowerRuns_checked run (List.mem_of_find?_eq_some found)
  rw [Bool.and_eq_true, List.all_eq_true] at checked
  have covered : run.covers n = true := by simpa only using List.find?_some found
  refine ⟨by simp only [lowerWide, found], checked.1, covered, ?_⟩
  have missing : lowerRuns.find? (·.covers (n - run.first + run.lowered)) = none := by
    rw [List.find?_eq_none]
    intro other member
    rw [Bool.not_eq_true]
    exact LowerRun.apart_covers (checked.2 other member) covered
  simp only [lowerWide, missing]

/-- A lowered character lowers to itself. -/
theorem lowerChar_again {c d : Char} (lowered : d ∈ lowerChar c) : lowerChar d = [d] := by
  by_cases ascii : c.toNat < 128
  · have checked := passes_ascii (fun c => (lowerChar c).all fun d => lowerChar d == [d]) (by decide) ascii
    exact beq_iff_eq.mp (List.all_eq_true.mp checked d lowered)
  · unfold lowerChar at lowered
    rw [if_neg ascii] at lowered
    split at lowered
    · obtain rfl := List.mem_singleton.mp lowered
      decide
    · rename_i kelvin
      split at lowered
      · rcases List.mem_pair.mp lowered with rfl | rfl
        · decide
        · decide
      · rename_i dotted
        obtain rfl := List.mem_singleton.mp lowered
        cases found : lowerRuns.find? (·.covers c.toNat) with
        | none =>
          have same : lowerWide c.toNat = c.toNat := by simp only [lowerWide, found]
          rw [same, Char.ofNat_toNat]
          unfold lowerChar
          rw [if_neg ascii, if_neg kelvin, if_neg dotted, same, Char.ofNat_toNat]
        | some run =>
          obtain ⟨same, plain, covered, settled⟩ := lowerWide_found found
          simp only [LowerRun.plain, Bool.and_eq_true, Bool.or_eq_true, Nat.blt_eq] at plain
          simp only [LowerRun.covers, Bool.and_eq_true, Nat.ble_eq] at covered
          obtain ⟨⟨⟨above, notDotted⟩, notKelvin⟩, valid⟩ := plain
          obtain ⟨⟨low, high⟩, -⟩ := covered
          rw [same]
          generalize image : c.toNat - run.first + run.lowered = m at settled
          have code : (Char.ofNat m).toNat = m := by
            have valid : m.isValidChar := valid.elim (fun h => .inl (by omega)) fun h => .inr ⟨by omega, by omega⟩
            unfold Char.ofNat
            rw [dif_pos valid]
            rfl
          unfold lowerChar
          rw [code, settled, if_neg (by omega), if_neg (by omega), if_neg (by omega)]

end SaltMdb.Text
