import SaltMdb.Corpus.Snapshot

/-! A corpus snapshot read page by page is the corpus of its first page, and a page over another corpus is refused. -/

namespace SaltMdb

/-! ### What the hashes cover -/

theorem toJson_inj {v w : SqlValue} (same : v.toJson = w.toJson) : v = w := by
  have apart : ∀ (i : Int) (r : RealNumeral), Json.Numeral.ofInt i ≠ r.numeral := by
    intro i r same
    obtain ⟨c, member, point⟩ := List.any_eq_true.mp r.fractional
    rw [← same] at member
    obtain ⟨sign, digits, text, one, -, digit⟩ := Json.intRepr_chars i
    have listed : c ∈ sign ++ digits := text ▸ member
    rcases List.mem_append.mp listed with signed | inside
    · rcases one with rfl | rfl
      · simp at signed
      · obtain rfl := List.mem_singleton.mp signed
        exact absurd point (by decide)
    · have is_digit := digit c inside
      simp only [Bool.or_eq_true, decide_eq_true_eq] at point
      rcases point with (rfl | rfl) | rfl <;> exact absurd is_digit (by decide)
  cases v <;> cases w <;> simp only [SqlValue.toJson, Json.Value.number.injEq, Json.Value.text.injEq, reduceCtorEq] at same
  · rfl
  · rw [Json.Numeral.ofInt_inj same]
  · exact absurd same (apart _ _)
  · exact absurd same.symm (apart _ _)
  · rename_i r r'
    cases r
    cases r'
    exact congrArg SqlValue.real (by simpa using same)
  · rw [same]

theorem rowValues_inj {a b : CorpusRow} (same : a.rowValues = b.rowValues) : a = b := by
  cases a
  cases b
  simpa [CorpusRow.rowValues] using same

theorem line_inj {a b : CorpusRow} (same : a.line = b.line) : a = b := by
  have arrays := Json.render_injective same
  have values : a.rowValues.map SqlValue.toJson = b.rowValues.map SqlValue.toJson := by simpa using arrays
  exact rowValues_inj (List.map_injective_iff.mpr (fun _ _ => toJson_inj) values)

theorem line_newline (row : CorpusRow) : '\n' ∉ row.line := Json.render_newline _

theorem corpusText_inj {agentId : String} {includeArchived : Bool} {rows rows' : List CorpusRow}
    (same : corpusText agentId includeArchived rows = corpusText agentId includeArchived rows') : rows = rows' := by
  unfold corpusText at same
  exact Separated.lines_injective (fun _ _ => line_inj) line_newline (List.append_cancel_left same)

theorem relation_inj {a b : CorpusRelation} (same : a.document = b.document) : a = b := by
  cases a
  cases b
  simp only [CorpusRelation.document, Json.Value.object.injEq, List.cons.injEq, Prod.mk.injEq, Json.Value.text.injEq, true_and,
    and_true] at same
  obtain ⟨created, id, invalid, predicate, source, target, validAt, validFrom, validTo⟩ := same
  obtain rfl := id
  obtain rfl := source
  obtain rfl := target
  simp only [toJson_inj created, toJson_inj invalid, toJson_inj predicate, toJson_inj validAt, toJson_inj validFrom, toJson_inj validTo]

theorem relationsDocument_inj {agentId : String} {includeArchived : Bool} {edges edges' : List CorpusRelation}
    (same : relationsDocument agentId includeArchived edges = relationsDocument agentId includeArchived edges') : edges = edges' := by
  simp only [relationsDocument, Json.Value.object.injEq, List.cons.injEq, Prod.mk.injEq, Json.Value.array.injEq, true_and, and_true] at same
  exact List.map_injective_iff.mpr (fun _ _ => relation_inj) same

theorem digest_inj {a b : Digest} (same : a.text = b.text) : a = b := by
  cases a
  cases b
  simpa using same

section
variable (env : SnapshotEnv) (agentId : String) (includeArchived : Bool)

/-- Every text that a page takes a hash of. -/
def hashedTexts (visit : PageVisit) : List (List Char) :=
  let found := provenance env agentId includeArchived visit.state visit.asOf
  [Json.render visit.state.schema.document, corpusText agentId includeArchived (corpusRows agentId includeArchived visit.state),
    Json.render (relationsDocument agentId includeArchived (supersedesEdges env agentId includeArchived visit.state visit.asOf)),
    Json.render (databaseDocument agentId found.schemaHash found.corpusHash found.relationRootHash found.entityCount),
    Json.render (snapshotDocument agentId includeArchived found.databaseHash found.relationRootHash)]

/-- No two texts that these pages hash have one digest. -/
def CollisionFree (visits : List PageVisit) : Prop :=
  ∀ a ∈ visits.flatMap (hashedTexts env agentId includeArchived), ∀ b ∈ visits.flatMap (hashedTexts env agentId includeArchived),
    env.sha256 a = env.sha256 b → a = b

end

variable {env : SnapshotEnv} {agentId : String} {includeArchived : Bool} {visits : List PageVisit}

theorem collisionFree_of {texts : List (List Char)} (distinct : (texts.map env.sha256).Nodup)
    (covered : ∀ text ∈ visits.flatMap (hashedTexts env agentId includeArchived), text ∈ texts) :
    CollisionFree env agentId includeArchived visits :=
  fun a first b second same => List.inj_on_of_nodup_map distinct (covered a first) (covered b second) same

/-- Pages with one snapshot hash read the same rows and the same edges. -/
theorem provenance_inj (free : CollisionFree env agentId includeArchived visits) {v w : PageVisit} (first : v ∈ visits) (second : w ∈ visits)
    (same : (provenance env agentId includeArchived v.state v.asOf).snapshotHash =
      (provenance env agentId includeArchived w.state w.asOf).snapshotHash) :
    corpusRows agentId includeArchived v.state = corpusRows agentId includeArchived w.state ∧
    supersedesEdges env agentId includeArchived v.state v.asOf = supersedesEdges env agentId includeArchived w.state w.asOf := by
  have apart : ∀ (a b : List Char), a ∈ hashedTexts env agentId includeArchived v → b ∈ hashedTexts env agentId includeArchived w →
      env.sha256 a = env.sha256 b → a = b := fun a b here there =>
    free a (List.mem_flatMap.mpr ⟨v, first, here⟩) b (List.mem_flatMap.mpr ⟨w, second, there⟩)
  have snapshots := Json.render_injective (apart _ _ (List.mem_of_getElem? (i := 4) rfl) (List.mem_of_getElem? (i := 4) rfl) same)
  simp only [snapshotDocument, Json.Value.object.injEq, List.cons.injEq, Prod.mk.injEq, Json.Value.text.injEq, true_and, and_true] at snapshots
  obtain ⟨databases, roots⟩ := snapshots
  have databaseTexts := Json.render_injective (apart _ _ (List.mem_of_getElem? (i := 3) rfl) (List.mem_of_getElem? (i := 3) rfl) (digest_inj databases))
  simp only [databaseDocument, Json.Value.object.injEq, List.cons.injEq, Prod.mk.injEq, Json.Value.text.injEq, true_and, and_true] at databaseTexts
  have corpora := apart _ _ (List.mem_of_getElem? (i := 1) rfl) (List.mem_of_getElem? (i := 1) rfl) (digest_inj databaseTexts.1)
  have edges := Json.render_injective (apart _ _ (List.mem_of_getElem? (i := 2) rfl) (List.mem_of_getElem? (i := 2) rfl) (digest_inj roots))
  exact ⟨corpusText_inj corpora, relationsDocument_inj edges⟩

/-! ### One page -/

theorem validatePageRequest_ok {request : PageRequest} {size : Nat} (valid : validatePageRequest request = .ok size) : 0 < size := by
  simp only [validatePageRequest] at valid
  split_ifs at valid with range cursor hash
  have positive : 0 < request.pageSize.getD defaultPageSize := by omega
  simp only [Except.ok.injEq] at valid
  omega

theorem readTransaction_ok {α : Type} {visit : PageVisit} {body : Except SnapshotError α} {result : α}
    (read : readTransaction visit body = .ok result) : body = .ok result := by
  cases body with
  | error e => cases open_ : visit.inTransaction <;> simp [readTransaction, open_] at read
  | ok found =>
    simp only [readTransaction] at read
    split_ifs at read
    exact read

theorem snapshotPage_ok {visit : PageVisit} {size : Nat} {cursor hash : Option String} {page : CorpusPage}
    (read : snapshotPage env visit agentId includeArchived size cursor hash = .ok page) :
    (∀ h, hash = some h → (provenance env agentId includeArchived visit.state visit.asOf).snapshotHash.text = h) ∧
    page = pageResult (snapshotRows agentId includeArchived visit.state cursor (size + 1)) size
      (provenance env agentId includeArchived visit.state visit.asOf)
      (supersedesEdges env agentId includeArchived visit.state visit.asOf) := by
  unfold snapshotPage at read
  cases columns : requireEntityColumns visit.state.schema with
  | error e => simp [columns, bind, Except.bind] at read
  | ok _ =>
    simp only [columns, bind, Except.bind] at read
    split_ifs at read with other
    refine ⟨fun h given => ?_, (Except.ok.inj read).symm⟩
    subst given
    simpa using Eq.symm (by simpa using other)

theorem exportPage_ok {visit : PageVisit} {pageSize : Option Int} {cursor hash : Option String} {page : CorpusPage}
    (exported : exportCorpusSnapshotPage env visit ⟨some agentId, pageSize, cursor, hash, includeArchived⟩ = .ok page) :
    ∃ size, validatePageRequest ⟨some agentId, pageSize, cursor, hash, includeArchived⟩ = .ok size ∧ agentId ≠ "" ∧
      snapshotPage env visit agentId includeArchived size cursor hash = .ok page := by
  unfold exportCorpusSnapshotPage at exported
  cases valid : validatePageRequest ⟨some agentId, pageSize, cursor, hash, includeArchived⟩ with
  | error e => simp [valid, bind, Except.bind] at exported
  | ok size =>
    simp only [valid, bind, Except.bind] at exported
    split_ifs at exported with empty
    exact ⟨size, rfl, empty, readTransaction_ok exported⟩

theorem mem_corpusRows {state : CorpusState} {row : CorpusRow} :
    row ∈ corpusRows agentId includeArchived state ↔ row ∈ visibleRows agentId includeArchived state := List.mem_insertionSort _

theorem corpusRows_pairwise (state : CorpusState) : (corpusRows agentId includeArchived state).Pairwise fun a b => a.id < b.id := by
  have total : Std.Total fun a b : CorpusRow => a.id ≤ b.id := ⟨fun a b => le_total a.id b.id⟩
  have trans : IsTrans CorpusRow fun a b => a.id ≤ b.id := ⟨fun _ _ _ => le_trans⟩
  have ordered := List.pairwise_insertionSort (fun a b : CorpusRow => a.id ≤ b.id) (visibleRows agentId includeArchived state)
  have distinct : (corpusRows agentId includeArchived state).Pairwise fun a b => a.id ≠ b.id :=
    (List.perm_insertionSort _ _).symm.pairwise (state.distinct.sublist List.filter_sublist) fun differ => differ.symm
  exact (ordered.and distinct).imp fun both => lt_of_le_of_ne both.1 both.2

/-- A page of rows in order, after those that came before: the next ones, and a cursor exactly when there are more. -/
theorem pageResult_split {size : Nat} {state : CorpusState} {done rest : List CorpusRow} (found : SnapshotProvenance)
    (edges : List CorpusRelation) (positive : 0 < size) (split : corpusRows agentId includeArchived state = done ++ rest) :
    let page := pageResult (snapshotRows agentId includeArchived state (done.getLast?.map CorpusRow.id) (size + 1)) size found edges
    page.entities = (rest.take size).map entityPayload ∧ (page.nextCursor = none → rest.take size = rest) ∧
      ∀ next, page.nextCursor = some next → (done ++ rest.take size).getLast?.map CorpusRow.id = some next := by
  have sorted : (done ++ rest).Pairwise fun a b => a.id < b.id := by
    rw [← split]
    exact corpusRows_pairwise state
  have rows : snapshotRows agentId includeArchived state (done.getLast?.map CorpusRow.id) (size + 1) = rest.take (size + 1) := by
    rw [snapshotRows, split, Paging.page_of_split sorted]
  have front : (rest.take (size + 1)).take size = rest.take size := by rw [List.take_take, Nat.min_eq_left (by omega)]
  rw [rows]
  simp only [pageResult, front, List.length_take]
  refine ⟨trivial, fun final => ?_, fun next more => ?_⟩
  · rw [List.take_eq_self_iff]
    by_contra longer
    have has_more : size < min (size + 1) rest.length := by omega
    have nonempty : (rest.take size).map entityPayload ≠ [] := by
      intro empty
      have none_left := congrArg List.length empty
      simp only [List.length_map, List.length_take, List.length_nil] at none_left
      omega
    simp only [has_more, decide_true, if_true, Option.map_eq_none_iff, List.getLast?_eq_none_iff] at final
    exact nonempty final
  · split_ifs at more with has_more
    obtain ⟨payload, last, rfl⟩ := Option.map_eq_some_iff.mp more
    rw [List.getLast?_map] at last
    obtain ⟨row, here, rfl⟩ := Option.map_eq_some_iff.mp last
    rw [List.getLast?_append, here]
    rfl

/-! ### A run of pages -/

/-- The caller came to the last page. -/
def Complete (pages : List CorpusPage) : Prop := ∃ page, pages.getLast? = some page ∧ page.nextCursor = none

theorem Complete.tail {page : CorpusPage} {pages : List CorpusPage} {cursor : String} (complete : Complete (page :: pages))
    (next : page.nextCursor = some cursor) : Complete pages := by
  obtain ⟨last, ends, none_left⟩ := complete
  cases pages with
  | nil =>
    obtain rfl : page = last := Option.some.inj ends
    rw [next] at none_left
    exact absurd none_left (by simp)
  | cons page' pages => exact ⟨last, by rwa [List.getLast?_cons_cons] at ends, none_left⟩

theorem map_ok {ε α β : Type} {f : α → β} {x : Except ε α} {b : β} (mapped : x.map f = .ok b) : ∃ a, x = .ok a ∧ b = f a := by
  cases x with
  | error e => simp [Except.map] at mapped
  | ok a => exact ⟨a, rfl, (Except.ok.inj mapped).symm⟩

/-- A page and the ones after it: the next rows, and where these are not all, the pages from the last of them on. -/
theorem exportPages_cons {visit : PageVisit} {pageSize : Option Int} {hash : Option String} {done rest : List CorpusRow}
    (split : corpusRows agentId includeArchived visit.state = done ++ rest) {pages : List CorpusPage}
    (exported : exportPages env agentId pageSize includeArchived (done.getLast?.map CorpusRow.id) hash (visit :: visits) = .ok pages)
    (complete : Complete pages) :
    ∃ page more size, pages = page :: more ∧ page.entities = (rest.take size).map entityPayload ∧
      page.supersedesEdges = supersedesEdges env agentId includeArchived visit.state visit.asOf ∧
      (more = [] ∧ rest.take size = rest ∨
        Complete more ∧ exportPages env agentId pageSize includeArchived ((done ++ rest.take size).getLast?.map CorpusRow.id)
          (some (hash.getD (provenance env agentId includeArchived visit.state visit.asOf).snapshotHash.text)) visits = .ok more) := by
  rw [exportPages] at exported
  cases read : exportCorpusSnapshotPage env visit ⟨some agentId, pageSize, done.getLast?.map CorpusRow.id, hash, includeArchived⟩ with
  | error e => simp [read] at exported
  | ok page =>
    obtain ⟨size, valid, -, opened⟩ := exportPage_ok read
    obtain ⟨-, same⟩ := snapshotPage_ok opened
    obtain ⟨entities, final, onward⟩ := pageResult_split (provenance env agentId includeArchived visit.state visit.asOf)
      (supersedesEdges env agentId includeArchived visit.state visit.asOf) (validatePageRequest_ok valid) split
    rw [← same] at entities final onward
    have edges : page.supersedesEdges = supersedesEdges env agentId includeArchived visit.state visit.asOf := by rw [same, pageResult]
    have found : page.provenance = provenance env agentId includeArchived visit.state visit.asOf := by rw [same, pageResult]
    simp only [read] at exported
    cases next : page.nextCursor with
    | none =>
      simp only [next, Except.ok.injEq] at exported
      exact ⟨page, [], size, exported.symm, entities, edges, .inl ⟨rfl, final next⟩⟩
    | some cursor =>
      simp only [next, found] at exported
      obtain ⟨more, rest_read, pages_are⟩ := map_ok exported
      subst pages_are
      rw [← onward cursor next] at rest_read
      exact ⟨page, more, size, rfl, entities, edges, .inr ⟨complete.tail next, rest_read⟩⟩

theorem exportPages_hash {visit : PageVisit} {pageSize : Option Int} {cursor : Option String} {hash : String} {pages : List CorpusPage}
    (exported : exportPages env agentId pageSize includeArchived cursor (some hash) (visit :: visits) = .ok pages) :
    (provenance env agentId includeArchived visit.state visit.asOf).snapshotHash.text = hash := by
  rw [exportPages] at exported
  cases read : exportCorpusSnapshotPage env visit ⟨some agentId, pageSize, cursor, some hash, includeArchived⟩ with
  | error e => simp [read] at exported
  | ok page =>
    obtain ⟨size, -, -, opened⟩ := exportPage_ok read
    exact (snapshotPage_ok opened).1 hash rfl

/-- The pages after some rows, all over one corpus, are the rest of it. -/
theorem exportPages_rest {pageSize : Option Int} {hash : String} {rows : List CorpusRow} {edges : List CorpusRelation}
    (agree : ∀ visit ∈ visits, (provenance env agentId includeArchived visit.state visit.asOf).snapshotHash.text = hash →
      corpusRows agentId includeArchived visit.state = rows ∧ supersedesEdges env agentId includeArchived visit.state visit.asOf = edges)
    {done rest : List CorpusRow} (split : rows = done ++ rest) {pages : List CorpusPage}
    (exported : exportPages env agentId pageSize includeArchived (done.getLast?.map CorpusRow.id) (some hash) visits = .ok pages)
    (complete : Complete pages) : pages.flatMap CorpusPage.entities = rest.map entityPayload ∧ ∀ page ∈ pages, page.supersedesEdges = edges := by
  induction visits generalizing done rest pages with
  | nil =>
    obtain rfl := Except.ok.inj exported
    simp [Complete] at complete
  | cons visit visits ih =>
    obtain ⟨same_rows, same_edges⟩ := agree visit List.mem_cons_self (exportPages_hash exported)
    obtain ⟨page, more, size, rfl, entities, page_edges, ends | ⟨complete', later⟩⟩ :=
      exportPages_cons (same_rows.trans split) exported complete
    · obtain ⟨rfl, whole⟩ := ends
      simp [entities, whole, page_edges, same_edges]
    · have split' : rows = (done ++ rest.take size) ++ rest.drop size := by rw [split, List.append_assoc, List.take_append_drop]
      obtain ⟨entities', edges'⟩ := ih (fun visit' member => agree visit' (List.mem_cons_of_mem _ member)) split' later complete'
      refine ⟨?_, List.forall_mem_cons.mpr ⟨page_edges.trans same_edges, edges'⟩⟩
      rw [List.flatMap_cons, entities, entities', ← List.map_append, List.take_append_drop]

/-- The entities of some pages are what is visible in a state, in the order of the ids, with one list of edges. -/
structure OneState (agentId : String) (includeArchived : Bool) (state : CorpusState) (pages : List CorpusPage) : Prop where
  ordered : (pages.flatMap CorpusPage.entities).Pairwise fun a b => a.id < b.id
  listed : ∀ payload, payload ∈ pages.flatMap CorpusPage.entities ↔
    ∃ row ∈ state.entities, visiblePredicate agentId includeArchived row = true ∧ payload = entityPayload row
  edges : ∀ p ∈ pages, ∀ q ∈ pages, p.supersedesEdges = q.supersedesEdges

theorem oneState_of {state : CorpusState} {pages : List CorpusPage} {edges : List CorpusRelation}
    (entities : pages.flatMap CorpusPage.entities = (corpusRows agentId includeArchived state).map entityPayload)
    (same : ∀ page ∈ pages, page.supersedesEdges = edges) : OneState agentId includeArchived state pages := by
  refine ⟨?_, fun payload => ?_, fun p first q second => (same p first).trans (same q second).symm⟩
  · rw [entities, List.pairwise_map]
    exact corpusRows_pairwise state
  · rw [entities]
    simp only [List.mem_map, mem_corpusRows, visibleRows, List.mem_filter, and_assoc]
    exact exists_congr fun row => and_congr_right fun _ => and_congr_right fun _ => eq_comm

/-- A supersedes edge that a page exports: it holds now, and both of its ends are visible. -/
structure ExportedEdge (env : SnapshotEnv) (agentId : String) (includeArchived : Bool) (visit : PageVisit) (r : CorpusRelation) : Prop where
  row : r ∈ visit.state.relations
  source : ∃ e ∈ visit.state.entities, visiblePredicate agentId includeArchived e = true ∧ e.id = r.sourceId
  target : ∃ e ∈ visit.state.entities, visiblePredicate agentId includeArchived e = true ∧ e.id = r.targetId
  holds : currentlyValid env visit.asOf r = true

theorem mem_supersedesEdges {visit : PageVisit} {r : CorpusRelation} :
    r ∈ supersedesEdges env agentId includeArchived visit.state visit.asOf ↔ ExportedEdge env agentId includeArchived visit r := by
  simp only [supersedesEdges, List.mem_insertionSort, List.mem_filter, Bool.and_eq_true, List.contains_iff_mem, List.mem_map, visibleRows]
  constructor
  · rintro ⟨row, ⟨⟨e, ⟨here, visible⟩, source⟩, ⟨e', ⟨here', visible'⟩, target⟩⟩, holds⟩
    exact ⟨row, ⟨e, here, visible, source⟩, ⟨e', here', visible', target⟩, holds⟩
  · rintro ⟨row, ⟨e, here, visible, source⟩, ⟨e', here', visible', target⟩, holds⟩
    exact ⟨row, ⟨⟨e, ⟨here, visible⟩, source⟩, ⟨e', ⟨here', visible'⟩, target⟩⟩, holds⟩

/-- An exported column, the visible set or an exported edge is not what it was at the first page. -/
def Differs (env : SnapshotEnv) (agentId : String) (includeArchived : Bool) (first visit : PageVisit) : Prop :=
  (∃ row, ¬(row ∈ visibleRows agentId includeArchived first.state ↔ row ∈ visibleRows agentId includeArchived visit.state)) ∨
  ∃ r, ¬(ExportedEdge env agentId includeArchived first r ↔ ExportedEdge env agentId includeArchived visit r)

theorem Differs.hash {first visit : PageVisit} (free : CollisionFree env agentId includeArchived visits) (here : first ∈ visits)
    (there : visit ∈ visits) (differs : Differs env agentId includeArchived first visit) :
    (provenance env agentId includeArchived first.state first.asOf).snapshotHash.text ≠
      (provenance env agentId includeArchived visit.state visit.asOf).snapshotHash.text := by
  intro same
  obtain ⟨rows, edges⟩ := provenance_inj free here there (digest_inj same)
  rcases differs with ⟨row, apart⟩ | ⟨r, apart⟩
  · refine apart ?_
    have listed : row ∈ corpusRows agentId includeArchived first.state ↔ row ∈ corpusRows agentId includeArchived visit.state := by rw [rows]
    simpa only [mem_corpusRows] using listed
  · refine apart ?_
    rw [← mem_supersedesEdges, ← mem_supersedesEdges, edges]

theorem requireEntityColumns_ok {schema : CorpusSchema} (columns : ∀ c ∈ entityColumns, c ∈ schema.columns) :
    requireEntityColumns schema = .ok () := by
  have none_missing : (entityColumns.filter fun column => !schema.columns.contains column) = [] := by
    rw [List.filter_eq_nil_iff]
    intro c member
    simpa using columns c member
  simp only [requireEntityColumns, none_missing, List.insertionSort_nil, if_true]

/-- The cursor and the hash of a later page do not make its request invalid. -/
theorem validatePageRequest_onward {pageSize : Option Int} {cursor : Option String} {digest : Digest} {size : Nat}
    (valid : validatePageRequest ⟨some agentId, pageSize, none, none, includeArchived⟩ = .ok size) (cursor_named : cursor ≠ some "") :
    validatePageRequest ⟨some agentId, pageSize, cursor, some digest.text, includeArchived⟩ = .ok size := by
  simp only [validatePageRequest] at valid ⊢
  split_ifs at valid with range
  rw [if_neg range, if_neg cursor_named, if_neg (by simp [digest.valid])]
  exact valid

/-- A page with the corpus's own hash comes, where nothing was committed while it was read. -/
theorem exportPage_comes {visit : PageVisit} {pageSize : Option Int} {cursor hash : Option String} {size : Nat}
    (valid : validatePageRequest ⟨some agentId, pageSize, cursor, hash, includeArchived⟩ = .ok size) (named : agentId ≠ "")
    (closed : visit.inTransaction = false) (columns : ∀ c ∈ entityColumns, c ∈ visit.state.schema.columns)
    (quiet : visit.afterVersion = visit.beforeVersion)
    (known : ∀ h, hash = some h → h = (provenance env agentId includeArchived visit.state visit.asOf).snapshotHash.text) :
    exportCorpusSnapshotPage env visit ⟨some agentId, pageSize, cursor, hash, includeArchived⟩ =
      .ok (pageResult (snapshotRows agentId includeArchived visit.state cursor (size + 1)) size
        (provenance env agentId includeArchived visit.state visit.asOf)
        (supersedesEdges env agentId includeArchived visit.state visit.asOf)) := by
  have own : (hash.any fun h => h ≠ (provenance env agentId includeArchived visit.state visit.asOf).snapshotHash.text) = false := by
    cases hash with
    | none => rfl
    | some h => simpa using known h rfl
  have root : sha256Json env (relationsDocument agentId includeArchived
      (supersedesEdges env agentId includeArchived visit.state visit.asOf)) =
        (provenance env agentId includeArchived visit.state visit.asOf).relationRootHash := rfl
  have read : snapshotPage env visit agentId includeArchived size cursor hash =
      .ok (pageResult (snapshotRows agentId includeArchived visit.state cursor (size + 1)) size
        (provenance env agentId includeArchived visit.state visit.asOf)
        (supersedesEdges env agentId includeArchived visit.state visit.asOf)) := by
    simp only [snapshotPage, requireEntityColumns_ok columns, bind, Except.bind, own, root, ne_eq, not_true_eq_false, if_false,
      Bool.false_eq_true]
    rfl
  simp only [exportCorpusSnapshotPage, valid, bind, Except.bind, named, if_false, readTransaction, closed, Bool.false_eq_true, read,
    quiet, ne_eq, not_true_eq_false]

/-- A page with a hash that is not the corpus's own is refused. -/
theorem exportPage_changed {visit : PageVisit} {pageSize : Option Int} {cursor : Option String} {digest : Digest} {size : Nat}
    (valid : validatePageRequest ⟨some agentId, pageSize, none, none, includeArchived⟩ = .ok size) (named : agentId ≠ "")
    (cursor_named : cursor ≠ some "") (closed : visit.inTransaction = false) (columns : ∀ c ∈ entityColumns, c ∈ visit.state.schema.columns)
    (other : digest.text ≠ (provenance env agentId includeArchived visit.state visit.asOf).snapshotHash.text) :
    exportCorpusSnapshotPage env visit ⟨some agentId, pageSize, cursor, some digest.text, includeArchived⟩ =
      .error (.changed "corpus snapshot changed since the previous page; restart the export") := by
  have accepted : validatePageRequest ⟨some agentId, pageSize, cursor, some digest.text, includeArchived⟩ = .ok size :=
    validatePageRequest_onward valid cursor_named
  have present := requireEntityColumns_ok columns
  simp [exportCorpusSnapshotPage, accepted, named, bind, Except.bind, readTransaction, closed, snapshotPage, present, other, throw, throwThe,
    MonadExceptOf.throw]

/-- Pages that all came are the corpus of the first page's state, and a page over another corpus is refused. -/
theorem snapshot_one_state (env : SnapshotEnv) (agentId : String) (pageSize : Option Int) (includeArchived : Bool) (first : PageVisit)
    (later : List PageVisit) (free : CollisionFree env agentId includeArchived (first :: later)) :
    (∀ pages, exportPages env agentId pageSize includeArchived none none (first :: later) = .ok pages → Complete pages →
      OneState agentId includeArchived first.state pages) ∧
    ∀ page, exportCorpusSnapshotPage env first ⟨some agentId, pageSize, none, none, includeArchived⟩ = .ok page →
      ∀ visit ∈ later, ∀ cursor, cursor ≠ some "" → visit.inTransaction = false →
        (∀ c ∈ entityColumns, c ∈ visit.state.schema.columns) → Differs env agentId includeArchived first visit →
        ∃ message, exportCorpusSnapshotPage env visit
          ⟨some agentId, pageSize, cursor, some page.provenance.snapshotHash.text, includeArchived⟩ = .error (.changed message) := by
  refine ⟨fun pages exported complete => ?_, fun page read visit member cursor named closed columns differs => ?_⟩
  · have start : corpusRows agentId includeArchived first.state = [] ++ corpusRows agentId includeArchived first.state := rfl
    obtain ⟨page, more, size, rfl, entities, edges, ends | ⟨complete', later'⟩⟩ := exportPages_cons start exported complete
    · obtain ⟨rfl, whole⟩ := ends
      exact oneState_of (by simp [entities, whole]) (List.forall_mem_singleton.mpr edges)
    · have agree : ∀ visit ∈ later, (provenance env agentId includeArchived visit.state visit.asOf).snapshotHash.text =
          (provenance env agentId includeArchived first.state first.asOf).snapshotHash.text → _ := fun visit member same =>
        provenance_inj free (List.mem_cons_of_mem _ member) List.mem_cons_self (digest_inj same)
      obtain ⟨entities', edges'⟩ := exportPages_rest agree (List.take_append_drop size _).symm later' complete'
      refine oneState_of ?_ (List.forall_mem_cons.mpr ⟨edges, edges'⟩)
      rw [List.flatMap_cons, entities, entities', ← List.map_append, List.take_append_drop]
  · obtain ⟨size, valid, agent, opened⟩ := exportPage_ok read
    obtain ⟨-, same⟩ := snapshotPage_ok opened
    have other := differs.hash free List.mem_cons_self (List.mem_cons_of_mem _ member)
    rw [same]
    exact ⟨_, exportPage_changed valid agent named closed columns other⟩

/-! ### Two pages of a corpus -/

def hexText (n : Nat) : List Char := (List.range 64).map fun i => Json.hexDigit (n / 16 ^ i)

theorem hexText_valid (n : Nat) : isSha256 (String.ofList (hexText n)) = true := by
  have digits : ∀ m < 16, "0123456789abcdef".toList.contains (Json.hexDigit m) = true := by decide
  unfold isSha256 hexText
  rw [String.toList_ofList, Bool.and_eq_true]
  refine ⟨by simp, List.all_eq_true.mpr fun c member => ?_⟩
  obtain ⟨i, -, rfl⟩ := List.mem_map.mp member
  rw [Json.hexDigit_mod]
  exact digits _ (Nat.mod_lt _ (by omega))

/-- A checksum of 256 bits in place of the digest, and times that are written as SQLite writes them. -/
def checksumEnv : SnapshotEnv where
  sha256 text := ⟨String.ofList (hexText (text.foldl (fun sum c => sum * 1114121 + c.toNat + 1) 7)), hexText_valid _⟩
  datetime
    | .text t => some t
    | _ => none

def noteRow (id : String) (status : String) : CorpusRow where
  id := id
  title := .text id
  fullContent := .text "body"
  status := .text status
  contentHash := .null
  metadata := .text "\x7b\x7d"
  createdAt := .text "2026-01-01 00:00:00"
  updatedAt := .text "2026-01-01 00:00:00"
  agentId := .text "ann"
  scope := .text "private"
  isCore := .integer 0
  weight := .integer 1
  contextId := .null
  memoryType := .text "note"

def replacedEdge (validTo : SqlValue) : CorpusRelation where
  id := "r"
  sourceId := "b"
  targetId := "a"
  predicate := .text "supersedes"
  createdAt := .text "2026-01-01 00:00:00"
  validFrom := .text "2026-01-01 00:00:00"
  validTo := validTo
  validAt := .null
  invalidAt := .null

/-- Two notes, and one that the first of them replaced. -/
def replacedCorpus (status : String) (relations : List CorpusRelation) : CorpusState where
  schema := ⟨[], 1, 1, entityColumns⟩
  entities := [noteRow "a" "archived", noteRow "b" "active", noteRow "c" status]
  relations := relations
  distinct := by simp [noteRow]

def quietVisit (state : CorpusState) (asOf : String) : PageVisit := ⟨state, false, 1, 1, .text asOf⟩

def replacedFirst : PageVisit := quietVisit (replacedCorpus "active" [replacedEdge .null]) "2026-02-01 00:00:00"

/-- The edge to the replaced note has ended. -/
def replacedLater : PageVisit :=
  quietVisit (replacedCorpus "active" [replacedEdge (.text "2026-02-02 00:00:00")]) "2026-02-03 00:00:00"

def editedLater : PageVisit := quietVisit (replacedCorpus "outdated" [replacedEdge .null]) "2026-02-03 00:00:00"

/-- The edge stands in no page, since one of its ends is archived. -/
theorem replacedLater_same :
    provenance checksumEnv "ann" false replacedLater.state replacedLater.asOf =
      provenance checksumEnv "ann" false replacedFirst.state replacedFirst.asOf ∧
    supersedesEdges checksumEnv "ann" false replacedLater.state replacedLater.asOf =
      supersedesEdges checksumEnv "ann" false replacedFirst.state replacedFirst.asOf := by
  have edges : supersedesEdges checksumEnv "ann" false replacedLater.state replacedLater.asOf =
      supersedesEdges checksumEnv "ann" false replacedFirst.state replacedFirst.asOf := by decide
  refine ⟨?_, edges⟩
  unfold provenance
  rw [edges]
  rfl

/-- What is hashed at the first visit, and what the edit adds to it. -/
def replacedTexts : List (List Char) :=
  hashedTexts checksumEnv "ann" false replacedFirst ++
    (hashedTexts checksumEnv "ann" false editedLater).filter fun text =>
      !(hashedTexts checksumEnv "ann" false replacedFirst).contains text

theorem replacedTexts_distinct : (replacedTexts.map checksumEnv.sha256).Nodup := by decide +kernel

theorem replacedVisits_free : CollisionFree checksumEnv "ann" false [replacedFirst, replacedLater, editedLater] := by
  have same : hashedTexts checksumEnv "ann" false replacedLater = hashedTexts checksumEnv "ann" false replacedFirst := by
    unfold hashedTexts
    rw [replacedLater_same.1, replacedLater_same.2]
    rfl
  refine collisionFree_of replacedTexts_distinct fun text member => ?_
  simp only [List.flatMap_cons, List.flatMap_nil, List.append_nil, same, List.mem_append] at member
  rw [replacedTexts, List.mem_append, List.mem_filter]
  by_cases old : text ∈ hashedTexts checksumEnv "ann" false replacedFirst
  · exact .inl old
  · have edited := (member.resolve_left old).resolve_left old
    exact .inr ⟨edited, by simpa using old⟩

/-- The two pages of the notes, with one note each. -/
theorem replacedPages_come (later : List PageVisit) : ∃ first second,
    exportCorpusSnapshotPage checksumEnv replacedFirst ⟨some "ann", some 1, none, none, false⟩ = .ok first ∧
    exportPages checksumEnv "ann" (some 1) false none none (replacedFirst :: replacedLater :: later) = .ok [first, second] ∧
    first.entities.map EntityPayload.id = ["b"] ∧ second.entities.map EntityPayload.id = ["c"] ∧ second.nextCursor = none := by
  have valid : validatePageRequest ⟨some "ann", some 1, none, none, false⟩ = .ok 1 := rfl
  have first := @exportPage_comes checksumEnv "ann" false replacedFirst (some 1) none none 1 valid (by decide) rfl
    (fun c member => member) rfl nofun
  generalize found : provenance checksumEnv "ann" false replacedFirst.state replacedFirst.asOf = prov at first
  generalize listed : supersedesEdges checksumEnv "ann" false replacedFirst.state replacedFirst.asOf = edges at first
  have second := @exportPage_comes checksumEnv "ann" false replacedLater (some 1) (some "b") (some prov.snapshotHash.text) 1
    (validatePageRequest_onward valid (by decide)) (by decide) rfl (fun c member => member) rfl
    (fun h given => by rw [replacedLater_same.1, found, Option.some.inj given])
  rw [replacedLater_same.1, replacedLater_same.2, found, listed] at second
  have rows : snapshotRows "ann" false replacedFirst.state none 2 = [noteRow "b" "active", noteRow "c" "active"] := by decide
  have rest : snapshotRows "ann" false replacedLater.state (some "b") 2 = [noteRow "c" "active"] := by decide
  rw [rows] at first
  rw [rest] at second
  refine ⟨pageResult [noteRow "b" "active", noteRow "c" "active"] 1 prov edges, pageResult [noteRow "c" "active"] 1 prov edges, first,
    ?_, rfl, rfl, rfl⟩
  rw [exportPages, first]
  show (exportPages checksumEnv "ann" (some 1) false (some "b") (some prov.snapshotHash.text) (replacedLater :: later)).map _ = _
  rw [exportPages, second]
  rfl

theorem editedPages_refused :
    (∃ pages, exportPages checksumEnv "ann" (some 1) false none none [replacedFirst, replacedLater, editedLater] = .ok pages ∧
      OneState "ann" false replacedFirst.state pages) ∧
    ∃ page message, exportCorpusSnapshotPage checksumEnv replacedFirst ⟨some "ann", some 1, none, none, false⟩ = .ok page ∧
      exportCorpusSnapshotPage checksumEnv editedLater ⟨some "ann", some 1, some "b", some page.provenance.snapshotHash.text, false⟩ =
        .error (.changed message) := by
  obtain ⟨whole, refused⟩ :=
    snapshot_one_state checksumEnv "ann" (some 1) false replacedFirst [replacedLater, editedLater] replacedVisits_free
  obtain ⟨first, second, read, exported, -, -, final⟩ := replacedPages_come [editedLater]
  refine ⟨⟨_, exported, whole _ exported ⟨second, rfl, final⟩⟩, ?_⟩
  have differs : Differs checksumEnv "ann" false replacedFirst editedLater := .inl ⟨noteRow "c" "active", by decide⟩
  obtain ⟨message, error⟩ := refused first read editedLater (by simp) (some "b") (by decide) rfl (fun c member => member) differs
  exact ⟨first, message, read, error⟩

/-- Both pages come, though the edge that held at the first has ended before the second. -/
theorem archivedEnd_unnoticed :
    CollisionFree checksumEnv "ann" false [replacedFirst, replacedLater] ∧
    (∃ r ∈ replacedFirst.state.relations, currentlyValid checksumEnv replacedFirst.asOf r = true) ∧
    (∀ r ∈ replacedLater.state.relations, currentlyValid checksumEnv replacedLater.asOf r = false) ∧
    ∃ first second, exportPages checksumEnv "ann" (some 1) false none none [replacedFirst, replacedLater] = .ok [first, second] ∧
      first.entities.map EntityPayload.id = ["b"] ∧ second.entities.map EntityPayload.id = ["c"] := by
  refine ⟨fun a first b second => ?_, by decide, by decide, ?_⟩
  · have fewer : ∀ text ∈ [replacedFirst, replacedLater].flatMap (hashedTexts checksumEnv "ann" false),
        text ∈ [replacedFirst, replacedLater, editedLater].flatMap (hashedTexts checksumEnv "ann" false) := by
      intro text member
      simp only [List.flatMap_cons, List.flatMap_nil, List.append_nil, List.mem_append] at member ⊢
      exact member.imp_right .inl
    exact replacedVisits_free a (fewer a first) b (fewer b second)
  · obtain ⟨first, second, -, exported, one, other, -⟩ := replacedPages_come []
    exact ⟨first, second, exported, one, other⟩

end SaltMdb
