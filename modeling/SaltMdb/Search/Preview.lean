import SaltMdb.Library.Spans
import SaltMdb.Schema.Fresh
import SaltMdb.Search.Pool
import Mathlib

/-! Relevance previews: excerpts of the contents around the chunks nearest to the query, attached to the results of a page. -/

namespace SaltMdb

def relevancePreviewMinChunks : Nat := 1

def relevancePreviewMaxChunks : Nat := 4

def relevancePreviewMaxExpansionChars : Nat := 200

def relevancePreviewMergeGapChars : Nat := 50

def relevancePreviewTotalBudgetChars : Nat := 20000

def relevancePreviewWarningPrefix : String := "[UNVERIFIED PREVIEW -- call get_memory before citing as fact] "

def snippetEllipsis : String := " ... "

/-- One chunk of a content, with its distance from the query. -/
structure PreviewChunk where
  chunkIndex : Nat
  charStart : Nat
  charEnd : Nat
  distance : Rat
deriving DecidableEq, Repr

def PreviewChunk.span (c : PreviewChunk) : Span := ⟨c.charStart, c.charEnd⟩

/-! ### The preview of one content -/

/-- A fifth of the chunks, rounded: a fifth of a whole number is never halfway between two. -/
def previewChunkCount (totalChunks : Nat) : Nat :=
  min relevancePreviewMaxChunks (max relevancePreviewMinChunks ((2 * totalChunks + 5) / 10))

def byScore (chunks : List PreviewChunk) : List PreviewChunk := chunks.mergeSort fun a b => decide (a.distance ≤ b.distance)

def bestChunks (chunks : List PreviewChunk) : List PreviewChunk := (byScore chunks).take (previewChunkCount chunks.length)

/-- The opening chunk is added, not substituted for the best scoring chunk. -/
def selectedChunks (chunks : List PreviewChunk) : List PreviewChunk :=
  if previewChunkCount chunks.length < chunks.length && !(bestChunks chunks).any (·.chunkIndex == 0) then
    bestChunks chunks ++ (chunks.find? (·.chunkIndex == 0)).toList
  else bestChunks chunks

def blankLineAt (text : List Char) (i : Nat) : Bool := (text.drop i).take 2 == ['\n', '\n']

/-- The places of a two-letter text that lies in a range. -/
def placesWithin (start stop : Nat) : List Nat := List.range' start (stop - 1 - start)

def findBlankLine (text : List Char) (start stop : Nat) : Option Nat := (placesWithin start stop).find? (blankLineAt text)

def rfindBlankLine (text : List Char) (start stop : Nat) : Option Nat := (placesWithin start stop).reverse.find? (blankLineAt text)

def expandChunk (fullContent : List Char) (c : PreviewChunk) : Span :=
  let backLimit := c.charStart - relevancePreviewMaxExpansionChars
  let fwdLimit := min fullContent.length (c.charEnd + relevancePreviewMaxExpansionChars)
  { start := match rfindBlankLine fullContent backLimit c.charStart with
      | some boundary => boundary + 2
      | none => backLimit
    stop := (findBlankLine fullContent c.charEnd fwdLimit).getD fwdLimit }

def expandedSpans (fullContent : List Char) (chunks : List PreviewChunk) : List Span :=
  ((selectedChunks chunks).map (expandChunk fullContent)).mergeSort fun a b => decide (a.start ≤ b.start)

def previewSpans (fullContent : String) (chunks : List PreviewChunk) : List Span :=
  Span.merge relevancePreviewMergeGapChars (expandedSpans fullContent.toList chunks)

def selectRelevancePreviewText (fullContent : String) (chunks : List PreviewChunk) : String :=
  snippetEllipsis.intercalate ((previewSpans fullContent chunks).map fun s => .ofList (s.slice fullContent.toList))

variable {fullContent : String} {chunks : List PreviewChunk} {text : List Char} {c : PreviewChunk}

theorem byScore_perm (chunks : List PreviewChunk) : (byScore chunks).Perm chunks := List.mergeSort_perm chunks _

/-- No chunk left out is nearer to the query than one of the best. -/
theorem bestChunks_nearest : ∃ others, (bestChunks chunks ++ others).Perm chunks ∧
    ∀ a ∈ bestChunks chunks, ∀ b ∈ others, a.distance ≤ b.distance := by
  have sorted : (byScore chunks).Pairwise fun a b => a.distance ≤ b.distance := by
    refine (List.pairwise_mergeSort (fun a b c first second => ?_) (fun a b => ?_) chunks).imp of_decide_eq_true
    · exact decide_eq_true (le_trans (of_decide_eq_true first) (of_decide_eq_true second))
    · simpa using le_total a.distance b.distance
  refine ⟨(byScore chunks).drop (previewChunkCount chunks.length), ?_, ?_⟩
  · rw [bestChunks, List.take_append_drop]
    exact byScore_perm chunks
  · rw [← List.take_append_drop (previewChunkCount chunks.length) (byScore chunks), List.pairwise_append] at sorted
    exact sorted.2.2

theorem bestChunks_sub (best : c ∈ bestChunks chunks) : c ∈ chunks := (byScore_perm chunks).subset (List.mem_of_mem_take best)

theorem bestChunks_selected (best : c ∈ bestChunks chunks) : c ∈ selectedChunks chunks := by
  unfold selectedChunks
  split
  · exact List.mem_append_left _ best
  · exact best

theorem selectedChunks_sub (selected : c ∈ selectedChunks chunks) : c ∈ chunks := by
  unfold selectedChunks at selected
  split at selected
  · rcases List.mem_append.mp selected with best | opening
    · exact bestChunks_sub best
    · exact List.mem_of_find?_eq_some (Option.mem_toList.mp opening)
  · exact bestChunks_sub selected

/-- Where there is an opening chunk, one is selected. -/
theorem opening_selected (opening : ∃ c ∈ chunks, c.chunkIndex = 0) : ∃ c ∈ selectedChunks chunks, c.chunkIndex = 0 := by
  obtain ⟨c, listed, first⟩ := opening
  by_cases best : (bestChunks chunks).any (·.chunkIndex == 0) = true
  · obtain ⟨b, kept, zero⟩ := List.any_eq_true.mp best
    exact ⟨b, bestChunks_selected kept, eq_of_beq zero⟩
  · by_cases few : previewChunkCount chunks.length < chunks.length
    · cases found : chunks.find? (·.chunkIndex == 0) with
      | none => exact absurd (beq_iff_eq.mpr first) (List.find?_eq_none.mp found c listed)
      | some o =>
        have zero : o.chunkIndex = 0 := by simpa using List.find?_some found
        refine ⟨o, ?_, zero⟩
        simp [selectedChunks, best, few, found]
    · have all : bestChunks chunks = byScore chunks :=
        List.take_of_length_le (by rw [(byScore_perm chunks).length_eq]; exact Nat.le_of_not_lt few)
      have kept : c ∈ bestChunks chunks := all ▸ (byScore_perm chunks).mem_iff.mpr listed
      exact (best (List.any_eq_true.mpr ⟨c, kept, beq_iff_eq.mpr first⟩)).elim

/-! ### The expanded spans -/

theorem mem_placesWithin {start stop i : Nat} : i ∈ placesWithin start stop ↔ start ≤ i ∧ i + 2 ≤ stop := by
  rw [placesWithin, List.mem_range'_1]
  omega

/-- An expanded span holds its chunk and stays in the content. -/
theorem expandChunk_covers (inside : c.span.Within text.length) :
    (expandChunk text c).Covers c.span ∧ (expandChunk text c).Within text.length := by
  have back : (expandChunk text c).start ≤ c.charStart := by
    unfold expandChunk
    dsimp only
    split
    · rename_i boundary found
      have place := mem_placesWithin.mp (List.mem_reverse.mp (List.mem_of_find?_eq_some found))
      exact place.2
    · exact Nat.sub_le _ _
  have forward : c.charEnd ≤ (expandChunk text c).stop ∧ (expandChunk text c).stop ≤ text.length := by
    have limit : c.charEnd ≤ min text.length (c.charEnd + relevancePreviewMaxExpansionChars) :=
      Nat.le_min.mpr ⟨inside.2, Nat.le_add_right _ _⟩
    unfold expandChunk
    dsimp only
    cases found : findBlankLine text c.charEnd (min text.length (c.charEnd + relevancePreviewMaxExpansionChars)) with
    | none => exact ⟨limit, Nat.min_le_left _ _⟩
    | some boundary =>
      have place := mem_placesWithin.mp (List.mem_of_find?_eq_some found)
      exact ⟨place.1, Nat.le_trans (Nat.le_trans (Nat.le_add_right _ 2) place.2) (Nat.min_le_left _ _)⟩
  have ordered : c.charStart ≤ c.charEnd := inside.1
  exact ⟨⟨back, forward.1⟩, Nat.le_trans back (Nat.le_trans ordered forward.1), forward.2⟩

theorem expandedSpans_sorted (text : List Char) (chunks : List PreviewChunk) :
    (expandedSpans text chunks).Pairwise fun a b => a.start ≤ b.start := by
  refine (List.pairwise_mergeSort (fun a b c first second => ?_) (fun a b => ?_) _).imp of_decide_eq_true
  · exact decide_eq_true (Nat.le_trans (of_decide_eq_true first) (of_decide_eq_true second))
  · simpa using Nat.le_total a.start b.start

theorem mem_expandedSpans {s : Span} : s ∈ expandedSpans text chunks ↔ ∃ c ∈ selectedChunks chunks, expandChunk text c = s := by
  rw [expandedSpans, List.mem_mergeSort, List.mem_map]

/-- What is asked of the merged spans of a preview. -/
structure PreviewCovers (fullContent : String) (chunks : List PreviewChunk) (spans : List Span) : Prop where
  within : ∀ s ∈ spans, s.Within fullContent.length
  apart : spans.Pairwise (Span.Apart relevancePreviewMergeGapChars)
  nearest : ∃ others, (bestChunks chunks ++ others).Perm chunks ∧ ∀ a ∈ bestChunks chunks, ∀ b ∈ others, a.distance ≤ b.distance
  best : ∀ c ∈ bestChunks chunks, ∃ s ∈ spans, s.Covers c.span
  opening : (∃ c ∈ chunks, c.chunkIndex = 0) → ∃ c ∈ chunks, c.chunkIndex = 0 ∧ ∃ s ∈ spans, s.Covers c.span

/-- The merged spans of a preview lie in the content, in order and more than the gap apart; they hold the best chunks and the
opening chunk, and the preview is what the content has there. -/
theorem selectRelevancePreviewText_spans (fullContent : String) (chunks : List PreviewChunk)
    (inside : ∀ c ∈ chunks, c.span.Within fullContent.length) :
    PreviewCovers fullContent chunks (previewSpans fullContent chunks) ∧
      selectRelevancePreviewText fullContent chunks =
        snippetEllipsis.intercalate ((previewSpans fullContent chunks).map fun s => .ofList (s.slice fullContent.toList)) := by
  have size : fullContent.toList.length = fullContent.length := String.length_toList
  rw [← size] at inside
  have expanded : ∀ s ∈ expandedSpans fullContent.toList chunks, s.Within fullContent.toList.length := by
    intro s listed
    obtain ⟨c, selected, rfl⟩ := mem_expandedSpans.mp listed
    exact (expandChunk_covers (inside c (selectedChunks_sub selected))).2
  obtain ⟨apart, within, covers⟩ :=
    @Span.merge_spec relevancePreviewMergeGapChars _ _ expanded (expandedSpans_sorted fullContent.toList chunks)
  have held : ∀ c ∈ selectedChunks chunks, ∃ s ∈ previewSpans fullContent chunks, s.Covers c.span := by
    intro c selected
    obtain ⟨s, merged, over_⟩ := covers _ (mem_expandedSpans.mpr ⟨c, selected, rfl⟩)
    exact ⟨s, merged, over_.trans (expandChunk_covers (inside c (selectedChunks_sub selected))).1⟩
  refine ⟨⟨?_, apart, bestChunks_nearest, fun c best => held c (bestChunks_selected best), fun opening => ?_⟩, rfl⟩
  · rw [← size]
    exact within
  · obtain ⟨c, selected, first⟩ := opening_selected opening
    exact ⟨c, selectedChunks_sub selected, first, held c selected⟩

/-- A plan and a note behind it. -/
def planText : String := "Plan.\n\nNote."

/-- The note is nearer to the query. -/
def planChunks : List PreviewChunk := [⟨0, 0, 7, 1 / 2⟩, ⟨1, 7, 12, 1 / 4⟩]

theorem planText_spans : PreviewCovers planText planChunks (previewSpans planText planChunks) ∧
    selectRelevancePreviewText planText planChunks =
      snippetEllipsis.intercalate ((previewSpans planText planChunks).map fun s => .ofList (s.slice planText.toList)) :=
  selectRelevancePreviewText_spans planText planChunks (by decide)

/-! ### The previews of a page -/

/-- The chunks found for the candidates, grouped by memory. -/
def groupPreviewChunks (best : List (EntityId × PreviewChunk)) : List (EntityId × List PreviewChunk) :=
  (best.map (·.1)).eraseDups.map fun id => (id, (best.filter (·.1 == id)).map (·.2))

def loadPreviewContent (entities : EntityTable) (id : EntityId) : String := ((entities.find id).map (·.fullContent)).getD ""

def getRelevancePreviewData (entities : EntityTable) (best : List (EntityId × PreviewChunk)) : List (EntityId × String) :=
  (groupPreviewChunks best).map fun (id, chunks) => (id, selectRelevancePreviewText (loadPreviewContent entities id) chunks)

structure RelevancePreviewMeta where
  autoGenerated : Bool
  extractive : Bool
  querySpecific : Bool
  complete : Bool
deriving DecidableEq, Repr

/-- A result, with its preview where one was attached. -/
structure SearchItem where
  row : Entity
  relevancePreview : Option String
  relevancePreviewMeta : Option RelevancePreviewMeta
deriving DecidableEq

/-- The item and the characters of all texts attached so far. -/
def attachSearchPreview (row : Entity) (previewMap : List (EntityId × String)) (cumulativePreviewChars : Nat) : SearchItem × Nat :=
  match previewMap.lookup row.id with
  | some previewText =>
    if cumulativePreviewChars < relevancePreviewTotalBudgetChars then
      (⟨row, some (relevancePreviewWarningPrefix ++ previewText), some ⟨true, true, true, false⟩⟩, cumulativePreviewChars + previewText.length)
    else (⟨row, none, none⟩, cumulativePreviewChars)
  | none => (⟨row, none, none⟩, cumulativePreviewChars)

def attachPreviews (previewMap : List (EntityId × String)) : Nat → List Entity → List SearchItem
  | _, [] => []
  | cumulativePreviewChars, row :: rows =>
    let attached := attachSearchPreview row previewMap cumulativePreviewChars
    attached.1 :: attachPreviews previewMap attached.2 rows

def assembleSearchResults (rows : List Entity) (previewMap : List (EntityId × String)) : List SearchItem := attachPreviews previewMap 0 rows

/-- `_fetch_search_previews`: none without a query. -/
def fetchSearchPreviews (entities : EntityTable) (sanitizedQuery : String) (best : List (EntityId × PreviewChunk)) : List (EntityId × String) :=
  if sanitizedQuery ≠ "" then getRelevancePreviewData entities best else []

def searchMemoryResults (entities : EntityTable) (rows : List Entity) (sanitizedQuery : String) (best : List (EntityId × PreviewChunk)) :
    List SearchItem :=
  assembleSearchResults rows (fetchSearchPreviews entities sanitizedQuery best)

/-- The characters of the previews that are attached. -/
def previewChars (items : List SearchItem) : Nat := (items.map fun item => (item.relevancePreview.map String.length).getD 0).sum

/-- The characters of an attached text, which the warning precedes. -/
def SearchItem.textChars (item : SearchItem) : Nat :=
  (item.relevancePreview.map fun preview => preview.length - relevancePreviewWarningPrefix.length).getD 0

def textChars (items : List SearchItem) : Nat := (items.map SearchItem.textChars).sum

variable {previewMap : List (EntityId × String)} {rows : List Entity}

theorem attachSearchPreview_row (row : Entity) (previewMap : List (EntityId × String)) (chars : Nat) :
    (attachSearchPreview row previewMap chars).1.row = row := by
  unfold attachSearchPreview
  cases previewMap.lookup row.id with
  | none => rfl
  | some text => dsimp only; split <;> rfl

/-- The running total counts the texts. -/
theorem attachSearchPreview_chars (row : Entity) (previewMap : List (EntityId × String)) (chars : Nat) :
    (attachSearchPreview row previewMap chars).2 = chars + (attachSearchPreview row previewMap chars).1.textChars := by
  unfold attachSearchPreview
  cases previewMap.lookup row.id with
  | none => rfl
  | some text =>
    dsimp only
    split
    · show chars + text.length = chars + ((relevancePreviewWarningPrefix ++ text).length - relevancePreviewWarningPrefix.length)
      rw [String.length_append, Nat.add_sub_cancel_left]
    · rfl

/-- A preview is attached to a row that has one while the total is below the budget. -/
theorem attachSearchPreview_iff {row : Entity} {chars : Nat} {preview : String} :
    (attachSearchPreview row previewMap chars).1.relevancePreview = some preview ↔
      chars < relevancePreviewTotalBudgetChars ∧
        ∃ text, previewMap.lookup row.id = some text ∧ preview = relevancePreviewWarningPrefix ++ text := by
  unfold attachSearchPreview
  cases previewMap.lookup row.id with
  | none => simp
  | some text =>
    dsimp only
    split
    · rename_i room
      simp [room, eq_comm]
    · rename_i full
      simp [full]

theorem attachPreviews_at {chars : Nat} {before after : List SearchItem} {item : SearchItem}
    (listed : attachPreviews previewMap chars rows = before ++ item :: after) :
    item = (attachSearchPreview item.row previewMap (chars + textChars before)).1 := by
  induction rows generalizing chars before with
  | nil => simp [attachPreviews] at listed
  | cons row rows ih =>
    cases before with
    | nil =>
      obtain ⟨same, _⟩ := List.cons.inj listed
      rw [← same, attachSearchPreview_row]
      rfl
    | cons first before =>
      obtain ⟨same, later⟩ := List.cons.inj listed
      have next := ih later
      rwa [attachSearchPreview_chars, same, Nat.add_assoc] at next

theorem attachPreviews_rows (chars : Nat) (rows : List Entity) : (attachPreviews previewMap chars rows).map (·.row) = rows := by
  induction rows generalizing chars with
  | nil => rfl
  | cons row rows ih =>
    exact congrArg₂ List.cons (attachSearchPreview_row row previewMap chars) (ih _)

theorem textChars_append (before after : List SearchItem) : textChars (before ++ after) = textChars before + textChars after := by
  rw [textChars, List.map_append, List.sum_append]
  rfl

/-- Only the last attached text can pass a budget that all texts before an attached one keep. -/
theorem textChars_last {budget : Nat} {items : List SearchItem}
    (below : ∀ before item after, items = before ++ item :: after → item.relevancePreview.isSome → textChars before < budget) :
    textChars items = 0 ∨ ∃ before item after, items = before ++ item :: after ∧ textChars before < budget ∧
      textChars items = textChars before + item.textChars := by
  induction items using List.reverseRecOn with
  | nil => exact .inl rfl
  | append_singleton items last ih =>
    have total : textChars (items ++ [last]) = textChars items + last.textChars := textChars_append items [last]
    cases attached : last.relevancePreview with
    | some preview =>
      have room := below items last [] rfl (by rw [attached]; rfl)
      exact .inr ⟨items, last, [], rfl, room, total⟩
    | none =>
      have silent : last.textChars = 0 := by rw [SearchItem.textChars, attached]; rfl
      have same : textChars (items ++ [last]) = textChars items := by rw [total, silent, Nat.add_zero]
      have earlier : ∀ before item after, items = before ++ item :: after → item.relevancePreview.isSome → textChars before < budget :=
        fun before item after split => below before item (after ++ [last]) (by rw [split, List.append_assoc, List.cons_append])
      rcases ih earlier with zero | ⟨before, item, after, split, room, sum⟩
      · exact .inl (same.trans zero)
      · exact .inr ⟨before, item, after ++ [last], by rw [split, List.append_assoc, List.cons_append], room, same.trans sum⟩

/-- A result gets its preview just where the texts attached before it are below the budget, so that only the last one can pass it. -/
theorem searchMemoryResults_texts (entities : EntityTable) (rows : List Entity) (sanitizedQuery : String)
    (best : List (EntityId × PreviewChunk)) :
    ((searchMemoryResults entities rows sanitizedQuery best).map (·.row) = rows) ∧
      (∀ before item after, searchMemoryResults entities rows sanitizedQuery best = before ++ item :: after →
        ∀ preview, item.relevancePreview = some preview ↔ textChars before < relevancePreviewTotalBudgetChars ∧
          ∃ text, (fetchSearchPreviews entities sanitizedQuery best).lookup item.row.id = some text ∧
            preview = relevancePreviewWarningPrefix ++ text) ∧
      (textChars (searchMemoryResults entities rows sanitizedQuery best) = 0 ∨
        ∃ before item after, searchMemoryResults entities rows sanitizedQuery best = before ++ item :: after ∧
          textChars before < relevancePreviewTotalBudgetChars ∧
          textChars (searchMemoryResults entities rows sanitizedQuery best) = textChars before + item.textChars) := by
  have attached : ∀ before item after, searchMemoryResults entities rows sanitizedQuery best = before ++ item :: after →
      ∀ preview, item.relevancePreview = some preview ↔ textChars before < relevancePreviewTotalBudgetChars ∧
        ∃ text, (fetchSearchPreviews entities sanitizedQuery best).lookup item.row.id = some text ∧
          preview = relevancePreviewWarningPrefix ++ text := by
    intro before item after listed preview
    have here : item = (attachSearchPreview item.row (fetchSearchPreviews entities sanitizedQuery best) (0 + textChars before)).1 :=
      attachPreviews_at listed
    rw [Nat.zero_add] at here
    rw [congrArg SearchItem.relevancePreview here, attachSearchPreview_iff]
  refine ⟨attachPreviews_rows 0 rows, attached, textChars_last fun before item after listed shown => ?_⟩
  obtain ⟨preview, some_⟩ := Option.isSome_iff_exists.mp shown
  exact ((attached before item after listed preview).mp some_).1

/-! ### Seventeen full chunks -/

theorem placesWithin_self (n : Nat) : placesWithin n n = [] := by
  have none_ : n - 1 - n = 0 := by omega
  rw [placesWithin, none_]
  rfl

/-- A chunk that is its whole content is its whole preview. -/
theorem wholeChunk_text (fullContent : String) (distance : Rat) :
    selectRelevancePreviewText fullContent [⟨0, 0, fullContent.length, distance⟩] = fullContent := by
  have size : fullContent.toList.length = fullContent.length := String.length_toList
  have best : selectedChunks [⟨0, 0, fullContent.length, distance⟩] = [⟨0, 0, fullContent.length, distance⟩] := by
    simp [selectedChunks, bestChunks, byScore, previewChunkCount, relevancePreviewMinChunks, relevancePreviewMaxChunks]
  have expanded : expandChunk fullContent.toList ⟨0, 0, fullContent.length, distance⟩ = ⟨0, fullContent.length⟩ := by
    have limit : min fullContent.length (fullContent.length + relevancePreviewMaxExpansionChars) = fullContent.length :=
      Nat.min_eq_left (Nat.le_add_right _ _)
    unfold expandChunk
    dsimp only
    rw [size, limit, rfindBlankLine, findBlankLine, Nat.zero_sub, placesWithin_self, placesWithin_self]
    rfl
  have spans : previewSpans fullContent [⟨0, 0, fullContent.length, distance⟩] = [⟨0, fullContent.length⟩] := by
    rw [previewSpans, expandedSpans, best, List.map_singleton, expanded, List.mergeSort_singleton]
    rfl
  rw [selectRelevancePreviewText, spans]
  simp [Span.slice, ← size]

theorem lookup_map {α : Type} (f : EntityId → α) {ids : List EntityId} {id : EntityId} (listed : id ∈ ids) :
    (ids.map fun i => (i, f i)).lookup id = some (f id) := by
  induction ids with
  | nil => exact absurd listed List.not_mem_nil
  | cons first ids ih =>
    rw [List.map_cons, List.lookup_cons]
    cases same : id == first with
    | true => rw [eq_of_beq same]
    | false =>
      refine ih ((List.mem_cons.mp listed).resolve_left fun eq => ?_)
      rw [eq, beq_self_eq_true] at same
      exact Bool.noConfusion same

theorem getRelevancePreviewData_lookup (entities : EntityTable) {best : List (EntityId × PreviewChunk)} {id : EntityId}
    (found : id ∈ best.map (·.1)) : (getRelevancePreviewData entities best).lookup id =
      some (selectRelevancePreviewText (loadPreviewContent entities id) ((best.filter (·.1 == id)).map (·.2))) := by
  rw [getRelevancePreviewData, groupPreviewChunks, List.map_map]
  exact lookup_map _ (List.mem_eraseDups.mpr found)

/-- Rows of one preview length are all attached while those before the last are below the budget. -/
theorem attachPreviews_uniform {size : Nat} (alike : ∀ row ∈ rows, ∃ text, previewMap.lookup row.id = some text ∧ text.length = size)
    {chars : Nat} (room : chars + (rows.length - 1) * size < relevancePreviewTotalBudgetChars) :
    previewChars (attachPreviews previewMap chars rows) = rows.length * (relevancePreviewWarningPrefix.length + size) := by
  induction rows generalizing chars with
  | nil => rw [List.length_nil, Nat.zero_mul]; rfl
  | cons row rows ih =>
    obtain ⟨text, found, length⟩ := alike row List.mem_cons_self
    have below : chars < relevancePreviewTotalBudgetChars := Nat.lt_of_le_of_lt (Nat.le_add_right _ _) room
    have shown : (attachSearchPreview row previewMap chars).1.relevancePreview = some (relevancePreviewWarningPrefix ++ text) :=
      attachSearchPreview_iff.mpr ⟨below, text, found, rfl⟩
    have count : previewChars (attachPreviews previewMap chars (row :: rows)) =
        relevancePreviewWarningPrefix.length + size + previewChars (attachPreviews previewMap (attachSearchPreview row previewMap chars).2 rows) := by
      show (Option.map _ _).getD 0 + _ = _
      rw [shown, Option.map_some, Option.getD_some, String.length_append, length]
      rfl
    have next : (attachSearchPreview row previewMap chars).2 = chars + size := by
      rw [attachSearchPreview_chars, SearchItem.textChars, shown, Option.map_some, Option.getD_some, String.length_append,
        Nat.add_sub_cancel_left, length]
    rw [count, List.length_cons, Nat.succ_mul, Nat.add_comm]
    congr 1
    cases rows with
    | nil => rw [List.length_nil, Nat.zero_mul]; rfl
    | cons second rest =>
      refine ih (fun other listed => alike other (List.mem_cons_of_mem _ listed)) ?_
      rw [next]
      have step : (second :: rest).length * size = size + ((second :: rest).length - 1) * size := by
        rw [List.length_cons, Nat.add_sub_cancel, Nat.succ_mul, Nat.add_comm]
      rw [List.length_cons, Nat.add_sub_cancel, step] at room
      omega

/-- The content of one full chunk. -/
def chunkContent : String := .ofList (List.replicate 1200 'a')

def pageIds : List EntityId := "abcdefghijklmnopq".toList.map String.singleton

def pageRows : List Entity := pageIds.map fun id => memoryRow id "Note" chunkContent

def pageTable : EntityTable := ⟨pageRows, by decide⟩

def pageChunks : List (EntityId × PreviewChunk) := pageIds.map fun id => (id, ⟨0, 0, 1200, 0⟩)

theorem repeated_length (n : Nat) (letter : Char) : (String.ofList (List.replicate n letter)).length = n := by
  rw [String.length_ofList, List.length_replicate]

theorem chunkContent_length : chunkContent.length = 1200 := repeated_length 1200 'a'

theorem pageChunks_each : ∀ id ∈ pageIds, (pageChunks.filter (·.1 == id)).map (·.2) = [⟨0, 0, 1200, 0⟩] := by decide

theorem pageRows_alike : ∀ row ∈ pageRows, ∃ text,
    (fetchSearchPreviews pageTable "note" pageChunks).lookup row.id = some text ∧ text.length = 1200 := by
  intro row listed
  obtain ⟨id, known, rfl⟩ := List.mem_map.mp listed
  have chunked : id ∈ pageChunks.map (·.1) := by rwa [pageChunks, List.map_map, Function.comp_def, List.map_id']
  have content : loadPreviewContent pageTable id = chunkContent := by
    have found : pageTable.find id = some (memoryRow id "Note" chunkContent) := EntityTable.find_mem (T := pageTable) listed
    rw [loadPreviewContent, found]
    rfl
  have whole : selectRelevancePreviewText chunkContent [⟨0, 0, 1200, 0⟩] = chunkContent := by
    have text := wholeChunk_text chunkContent 0
    rwa [chunkContent_length] at text
  refine ⟨chunkContent, ?_, chunkContent_length⟩
  have preview := getRelevancePreviewData_lookup pageTable chunked
  rw [content, pageChunks_each id known, whole] at preview
  exact preview

/-- The texts before the seventeenth are below the budget, and with it they are above. -/
theorem pageRows_over : relevancePreviewTotalBudgetChars < previewChars (searchMemoryResults pageTable pageRows "note" pageChunks) := by
  have total := @attachPreviews_uniform _ _ 1200 pageRows_alike 0 (by decide)
  have length : pageRows.length = 17 := by decide
  rw [length] at total
  rw [searchMemoryResults, assembleSearchResults, total, relevancePreviewTotalBudgetChars]
  generalize relevancePreviewWarningPrefix.length = warning
  omega

end SaltMdb
