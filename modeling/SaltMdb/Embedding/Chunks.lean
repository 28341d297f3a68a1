import Mathlib.Data.List.Range
import SaltMdb.Store.Text

/-! `chunk_text`: the sliding window over a text that the chunk vectors and the previews are made of. -/

namespace SaltMdb

/-- A chunk with its offsets in the text. -/
structure TextChunk where
  text : String
  charStart : Nat
  charEnd : Nat
deriving DecidableEq, Repr

/-- The end is clamped to the text. -/
def chunkAt (text : List Char) (chunkSize start : Nat) : TextChunk :=
  let end_ := min (start + chunkSize) text.length
  ⟨.ofList ((text.take end_).drop start), start, end_⟩

/-- The loop; it runs as long as the window starts inside the text. -/
def chunksFrom (text : List Char) (chunkSize overlap : Nat) (advances : overlap < chunkSize) (start : Nat) : List TextChunk :=
  if start < text.length then
    chunkAt text chunkSize start :: chunksFrom text chunkSize overlap advances (start + (chunkSize - overlap))
  else []
termination_by text.length - start

def chunkText (text : String) (chunkSize overlap : Nat) : Except String (List TextChunk) :=
  if advances : overlap < chunkSize then
    if Text.strip text = "" then .ok [] else .ok (chunksFrom text.toList chunkSize overlap advances 0)
  else
    .error ("chunk_size (" ++ toString chunkSize ++ ") must be greater than overlap (" ++ toString overlap ++ "); " ++
      "otherwise the sliding window never advances and chunking never terminates.")

/-! ### The windows -/

variable {text : List Char} {chunkSize overlap start : Nat} {advances : overlap < chunkSize}

theorem chunksFrom_step (inside : start < text.length) : chunksFrom text chunkSize overlap advances start =
    chunkAt text chunkSize start :: chunksFrom text chunkSize overlap advances (start + (chunkSize - overlap)) := by
  rw [chunksFrom, if_pos inside]

theorem chunksFrom_end (outside : text.length ≤ start) : chunksFrom text chunkSize overlap advances start = [] := by
  rw [chunksFrom, if_neg (Nat.not_lt.mpr outside)]

/-- The windows start one step apart, and each that starts inside the text is there. -/
theorem mem_chunksFrom {c : TextChunk} : c ∈ chunksFrom text chunkSize overlap advances start ↔
    ∃ k, start + k * (chunkSize - overlap) < text.length ∧ c = chunkAt text chunkSize (start + k * (chunkSize - overlap)) := by
  induction start using chunksFrom.induct text chunkSize overlap advances with
  | case1 start inside ih =>
    rw [chunksFrom_step inside, List.mem_cons, ih]
    constructor
    · rintro (rfl | ⟨k, within, rfl⟩)
      · exact ⟨0, by simpa using inside, by simp⟩
      · refine ⟨k + 1, ?_, ?_⟩ <;> rw [Nat.add_one_mul, Nat.add_comm (k * _), ← Nat.add_assoc]
        exact within
    · rintro ⟨k, within, rfl⟩
      cases k with
      | zero => exact .inl (by simp)
      | succ k =>
        rw [Nat.add_one_mul, Nat.add_comm (k * _), ← Nat.add_assoc] at within ⊢
        exact .inr ⟨k, within, rfl⟩
  | case2 start outside =>
    rw [chunksFrom_end (Nat.not_lt.mp outside)]
    refine iff_of_false List.not_mem_nil ?_
    rintro ⟨k, within, _⟩
    omega

theorem chunksFrom_starts : (chunksFrom text chunkSize overlap advances start).map (·.charStart) =
    (List.range (chunksFrom text chunkSize overlap advances start).length).map fun k => start + k * (chunkSize - overlap) := by
  induction start using chunksFrom.induct text chunkSize overlap advances with
  | case1 start inside ih =>
    rw [chunksFrom_step inside, List.map_cons, ih, List.length_cons, List.range_succ_eq_map, List.map_cons, List.map_map]
    refine congrArg₂ List.cons (by simp [chunkAt]) (List.map_congr_left fun k _ => ?_)
    simp only [Function.comp_apply, Nat.succ_eq_add_one, Nat.add_one_mul]
    omega
  | case2 start outside => rw [chunksFrom_end (Nat.not_lt.mp outside)]; rfl

/-- The first step of each window, one after the other, is the text. -/
theorem chunksFrom_recovers : ((chunksFrom text chunkSize overlap advances start).flatMap fun c => c.text.toList.take (chunkSize - overlap)) =
    text.drop start := by
  induction start using chunksFrom.induct text chunkSize overlap advances with
  | case1 start inside ih =>
    have first : (chunkAt text chunkSize start).text.toList.take (chunkSize - overlap) =
        (text.drop start).take (chunkSize - overlap) := by
      rw [chunkAt, String.toList_ofList, List.drop_take, List.take_take]
      refine List.take_eq_take_iff.mpr ?_
      rw [List.length_drop]
      omega
    rw [chunksFrom_step inside, List.flatMap_cons, ih, first, ← List.drop_drop, List.take_append_drop]
  | case2 start outside =>
    rw [chunksFrom_end (Nat.not_lt.mp outside), List.drop_eq_nil_of_le (Nat.not_lt.mp outside)]
    rfl

/-! ### The whole text -/

/-- Chunks that cover a text in windows of the size, one step apart. -/
structure Covers (text : List Char) (chunkSize overlap : Nat) (chunks : List TextChunk) : Prop where
  starts : chunks.map (·.charStart) = (List.range chunks.length).map (· * (chunkSize - overlap))
  within : ∀ c ∈ chunks, c.charStart < c.charEnd ∧ c.charEnd ≤ text.length
  slices : ∀ c ∈ chunks, c.text.toList = (text.take c.charEnd).drop c.charStart
  short : ∀ c ∈ chunks, c.charEnd - c.charStart ≤ chunkSize
  covered : ∀ i < text.length, ∃ c ∈ chunks, c.charStart ≤ i ∧ i < c.charEnd
  recovers : (chunks.flatMap fun c => c.text.toList.take (chunkSize - overlap)) = text
  windows : ∀ i j, i ≤ j → j ≤ text.length → j - i ≤ overlap + 1 → ∃ c ∈ chunks, c.charStart ≤ i ∧ j ≤ c.charEnd

theorem chunk_at_position (advances : overlap < chunkSize) {i j : Nat} (inside : i < text.length) (within : j ≤ text.length)
    (short : j ≤ i + overlap + 1) :
    ∃ c ∈ chunksFrom text chunkSize overlap advances 0, c.charStart ≤ i ∧ i < c.charEnd ∧ j ≤ c.charEnd := by
  have step : 0 < chunkSize - overlap := by omega
  have below_ : i / (chunkSize - overlap) * (chunkSize - overlap) ≤ i := Nat.div_mul_le_self i _
  have above : i < i / (chunkSize - overlap) * (chunkSize - overlap) + (chunkSize - overlap) := Nat.lt_div_mul_add step
  refine ⟨_, mem_chunksFrom.mpr ⟨i / (chunkSize - overlap), ?_, rfl⟩, ?_⟩
  · omega
  · simp only [chunkAt, Nat.zero_add]
    omega

theorem chunksFrom_covers (nonempty : text ≠ []) : Covers text chunkSize overlap (chunksFrom text chunkSize overlap advances 0) := by
  have length : 0 < text.length := List.length_pos_iff.mpr nonempty
  constructor
  · rw [chunksFrom_starts]
    simp only [Nat.zero_add]
  · intro c member
    obtain ⟨k, inside, rfl⟩ := mem_chunksFrom.mp member
    simp only [chunkAt]
    omega
  · intro c member
    obtain ⟨k, _, rfl⟩ := mem_chunksFrom.mp member
    exact String.toList_ofList
  · intro c member
    obtain ⟨k, _, rfl⟩ := mem_chunksFrom.mp member
    simp only [chunkAt]
    omega
  · intro i inside
    obtain ⟨c, member, starts, ends, _⟩ := chunk_at_position advances inside (Nat.le_of_lt inside) (by omega)
    exact ⟨c, member, starts, ends⟩
  · exact chunksFrom_recovers
  · intro i j ordered within short
    rcases Nat.lt_or_ge i text.length with inside | outside
    · obtain ⟨c, member, starts, _, ends⟩ := chunk_at_position advances inside within (by omega)
      exact ⟨c, member, starts, ends⟩
    · -- an empty slice at the end of the text lies in the last window
      obtain ⟨c, member, starts, ends, _⟩ := @chunk_at_position text chunkSize overlap advances (text.length - 1) text.length (by omega)
        (Nat.le_refl _) (by omega)
      exact ⟨c, member, by omega, by omega⟩

/-- Every text that is not blank is chunked, into windows that cover it. -/
theorem chunkText_covers (text : String) {chunkSize overlap : Nat} (written : Text.strip text ≠ "") (advances : overlap < chunkSize) :
    ∃ chunks, chunkText text chunkSize overlap = .ok chunks ∧ Covers text.toList chunkSize overlap chunks := by
  have nonempty : text.toList ≠ [] := by
    intro empty
    obtain rfl := String.toList_eq_nil_iff.mp empty
    exact written rfl
  unfold chunkText
  rw [dif_pos advances, if_neg written]
  exact ⟨_, rfl, chunksFrom_covers nonempty⟩

theorem chunkText_seven : ∃ chunks, chunkText "sliding" 4 1 = .ok chunks ∧ Covers "sliding".toList 4 1 chunks :=
  chunkText_covers "sliding" (by decide) (by decide)

end SaltMdb
