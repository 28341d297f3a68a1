import SaltMdb.Schema.Fresh
import SaltMdb.Schema.Fts

/-! Whether the full text tables mirror the memories, from `init_db` on. -/

namespace SaltMdb
open Mirror

/-! ### The changes of a memory -/

theorem rows_filter_id (T : EntityTable) (id : EntityId) : T.rows.filter (·.id = id) = (T.find id).toList := by
  obtain ⟨rows, distinct⟩ := T
  induction rows with
  | nil => rfl
  | cons e rows ih =>
    obtain ⟨apart, distinct⟩ := List.pairwise_cons.mp distinct
    rw [List.filter_cons]
    unfold EntityTable.find
    rw [List.find?_cons]
    by_cases named : e.id = id
    · subst named
      have none_ : rows.filter (·.id = e.id) = [] := by
        refine List.filter_eq_nil_iff.mpr fun other member => ?_
        simpa using (apart other member).symm
      simp [none_]
    · have tail := ih distinct
      unfold EntityTable.find at tail
      simp only [named, decide_false, Bool.false_eq_true, if_false, beq_eq_false_iff_ne.mpr named]
      exact tail

namespace Statement

variable {T : EntityTable} {id : EntityId}

/-- The changes of an update, as far as one memory goes. -/
theorem updates_course (sel : Entity → Bool) (f : EntityColumns → EntityColumns) :
    Course (·.id) id (T.find id) (((T.rows.filter sel).map fun old => Change.updated old (old.setIf sel f)).filter (·.row.id = id))
      ((T.updateWhere sel f).find id) := by
  have own : ((T.rows.filter sel).map fun old => Change.updated old (old.setIf sel f)).filter (·.row.id = id) =
      ((T.find id).toList.filter sel).map fun old => Change.updated old (old.setIf sel f) := by
    rw [List.filter_map, List.filter_filter, ← rows_filter_id, List.filter_filter]
    refine congrArg _ (List.filter_congr fun e _ => ?_)
    rw [Bool.and_comm]
    rfl
  rw [own, EntityTable.find_updateWhere]
  cases found : T.find id with
  | none => exact .stay _
  | some e =>
    obtain ⟨_, named⟩ := EntityTable.find_some found
    cases selected : sel e with
    | false =>
      have same : e.setIf sel f = e := by simp [Entity.setIf, selected]
      simp only [Option.toList_some, List.filter_cons, selected, Option.map_some, same]
      exact .stay _
    | true =>
      simp only [Option.toList_some, List.filter_cons, selected, if_true, List.filter_nil, List.map_cons, List.map_nil, Option.map_some]
      refine Course.single (c := .updated e (e.setIf sel f)) named ?_
      intro new given
      obtain rfl := Option.some.inj given
      exact Entity.setIf_id

theorem insert_course {e : Entity} (free : T.find e.id = none) :
    Course (·.id) id (T.find id) ([Change.inserted e].filter (·.row.id = id)) ((T.append e free).find id) := by
  rw [EntityTable.find_append]
  by_cases named : e.id = id
  · subst named
    rw [if_pos rfl, free]
    simp only [Change.row, List.filter_cons, decide_true, if_true, List.filter_nil]
    refine Course.single (c := .inserted e) rfl ?_
    intro new given
    obtain rfl := Option.some.inj given
    rfl
  · rw [if_neg (Ne.symm named)]
    simp only [Change.row, List.filter_cons, named, decide_false, Bool.false_eq_true, if_false, List.filter_nil]
    exact .stay _

theorem delete_course (sel : Entity → Bool) :
    Course (·.id) id (T.find id) (((T.rows.filter sel).map Change.deleted).filter (·.row.id = id)) ((T.deleteWhere sel).find id) := by
  have own : ((T.rows.filter sel).map Change.deleted).filter (·.row.id = id) = ((T.find id).toList.filter sel).map Change.deleted := by
    rw [List.filter_map, List.filter_filter, ← rows_filter_id, List.filter_filter]
    refine congrArg _ (List.filter_congr fun e _ => ?_)
    rw [Bool.and_comm]
    rfl
  have left : ((T.deleteWhere sel).find id).toList = (T.find id).toList.filter (!sel ·) := by
    rw [← rows_filter_id, ← rows_filter_id, List.filter_filter]
    show (T.rows.filter (!sel ·)).filter _ = _
    rw [List.filter_filter]
    exact List.filter_congr fun e _ => Bool.and_comm _ _
  rw [own]
  cases found : T.find id with
  | none =>
    rw [found] at left
    have gone : (T.deleteWhere sel).find id = none := by simpa using left
    rw [gone]
    exact .stay _
  | some e =>
    obtain ⟨_, named⟩ := EntityTable.find_some found
    rw [found] at left
    cases selected : sel e with
    | false =>
      have kept : (T.deleteWhere sel).find id = some e := by
        simpa [selected, Option.toList_eq_singleton_iff] using left
      rw [kept]
      simp only [Option.toList_some, List.filter_cons, selected]
      exact .stay _
    | true =>
      have gone : (T.deleteWhere sel).find id = none := by simpa [selected] using left
      rw [gone]
      simp only [Option.toList_some, List.filter_cons, selected, if_true, List.filter_nil, List.map_cons, List.map_nil]
      refine Course.single (c := .deleted e) named ?_
      intro new given
      exact absurd given (by simp [Change.after])

/-- What a statement does to one memory. -/
theorem course (T : EntityTable) (statement : Statement) (id : EntityId) :
    Course (·.id) id (T.find id) ((statement.changes T).filter (·.row.id = id)) ((statement.run T).find id) := by
  cases statement with
  | insert e =>
    simp only [changes, run, EntityTable.insert]
    by_cases free : T.find e.id = none
    · rw [dif_pos free, if_pos (by simp [free])]
      exact insert_course free
    · rw [dif_neg free, if_neg (by simpa using free)]
      exact .stay _
  | upsert e f =>
    simp only [changes, run, EntityTable.upsert]
    by_cases free : T.find e.id = none
    · rw [dif_pos free, if_pos (by simp [free])]
      exact insert_course free
    · rw [dif_neg free, if_neg (by simpa using free)]
      exact updates_course _ f
  | update sel f => exact updates_course sel f
  | delete sel => exact delete_course sel

theorem updates_keyed (sel : Entity → Bool) (f : EntityColumns → EntityColumns) :
    ∀ c ∈ (T.rows.filter sel).map fun old => Change.updated old (old.setIf sel f), c.Keyed (·.id) := by
  intro c member
  obtain ⟨old, _, rfl⟩ := List.mem_map.mp member
  intro new given
  obtain rfl := Option.some.inj given
  exact Entity.setIf_id

theorem changes_keyed (T : EntityTable) (statement : Statement) : ∀ c ∈ statement.changes T, c.Keyed (·.id) := by
  have inserted : ∀ e : Entity, ∀ c ∈ [Change.inserted e], c.Keyed (·.id) := by
    intro e c member new given
    obtain rfl := List.mem_singleton.mp member
    obtain rfl := Option.some.inj given
    rfl
  cases statement with
  | insert e =>
    simp only [changes]
    split
    · exact inserted e
    · simp
  | upsert e f =>
    simp only [changes]
    split
    · exact inserted e
    · exact updates_keyed _ f
  | update sel f => exact updates_keyed sel f
  | delete sel =>
    intro c member new given
    obtain ⟨old, _, rfl⟩ := List.mem_map.mp member
    exact absurd given (by simp [Change.after])

end Statement

/-- The changes of a run of statements. -/
def history (T : EntityTable) : List Statement → List (Change Entity)
  | [] => []
  | statement :: rest => statement.changes T ++ history (statement.run T) rest

/-- The changes of one memory. -/
def FtsDb.changesOf (db : FtsDb) (statements : List Statement) (id : EntityId) : List (Change Entity) :=
  (history db.entities statements).filter (·.row.id = id)

variable {db : FtsDb} {statements : List Statement} {id : EntityId}

theorem history_keyed (T : EntityTable) (statements : List Statement) : ∀ c ∈ history T statements, c.Keyed (·.id) := by
  induction statements generalizing T with
  | nil => simp [history]
  | cons statement rest ih =>
    intro c member
    rcases List.mem_append.mp member with first | later
    · exact statement.changes_keyed T c first
    · exact ih _ c later

theorem history_course (db : FtsDb) (statements : List Statement) (id : EntityId) :
    Course (·.id) id (db.entities.find id) (db.changesOf statements id) ((db.executeAll statements).entities.find id) := by
  induction statements generalizing db with
  | nil => exact .stay _
  | cons statement rest ih =>
    have first := statement.course db.entities id
    have later := ih (db.execute statement)
    unfold FtsDb.changesOf history
    rw [List.filter_append]
    exact first.trans later

theorem fireAll_append {ι : Type} (trigger : Trigger Entity ι) (changes more : List (Change Entity)) (rows : List ι) :
    fireAll trigger (changes ++ more) rows = fireAll trigger more (fireAll trigger changes rows) :=
  List.foldl_append

theorem executeAll_entitiesFts (db : FtsDb) (statements : List Statement) :
    (db.executeAll statements).entitiesFts = db.entitiesFts.map (·.fire entityFtsTriggers (history db.entities statements)) := by
  induction statements generalizing db with
  | nil =>
    show db.entitiesFts = _
    cases db.entitiesFts <;> rfl
  | cons statement rest ih =>
    show ((db.execute statement).executeAll rest).entitiesFts = _
    rw [ih]
    show (db.entitiesFts.map _).map _ = _
    rw [Option.map_map]
    refine congrArg (Option.map · db.entitiesFts) (funext fun table => ?_)
    simp only [Function.comp_apply, FtsTable.fire, history, fireAll_append]
    rfl

theorem executeAll_retrievalFts (db : FtsDb) (statements : List Statement) :
    (db.executeAll statements).retrievalFts =
      db.retrievalFts.map (·.fire retrievalFtsTriggers (history db.entities statements)) := by
  induction statements generalizing db with
  | nil =>
    show db.retrievalFts = _
    cases db.retrievalFts <;> rfl
  | cons statement rest ih =>
    show ((db.execute statement).executeAll rest).retrievalFts = _
    rw [ih]
    show (db.retrievalFts.map _).map _ = _
    rw [Option.map_map]
    refine congrArg (Option.map · db.retrievalFts) (funext fun table => ?_)
    simp only [Function.comp_apply, FtsTable.fire, history, fireAll_append]
    rfl

/-! ### The triggers of one memory -/

section
variable {ι : Type} {indexKey : ι → EntityId} {k : EntityId}

theorem rowsOf_without (rows : List ι) (id : EntityId) :
    rowsOf indexKey k (rows.filter (indexKey · ≠ id)) =
      if id = k then (rowsOf indexKey k rows).filter (indexKey · ≠ id) else rowsOf indexKey k rows := by
  unfold rowsOf
  rw [List.filter_comm]
  split
  · rfl
  · rename_i other
    refine List.filter_eq_self.mpr fun r member => ?_
    have named : indexKey r = k := by simpa using (List.mem_filter.mp member).2
    simpa [named] using Ne.symm other

theorem rowsOf_add (rows more : List ι) {id : EntityId} (named : ∀ r ∈ more, indexKey r = id) :
    rowsOf indexKey k (rows ++ more) = if id = k then rowsOf indexKey k rows ++ more else rowsOf indexKey k rows := by
  rw [rowsOf_append]
  split
  · rename_i same
    subst same
    have all : rowsOf indexKey id more = more := List.filter_eq_self.mpr fun r member => by simpa using named r member
    rw [all]
  · rename_i other
    have none_ : rowsOf indexKey k more = [] := List.filter_eq_nil_iff.mpr fun r member => by simpa [named r member] using other
    rw [none_, List.append_nil]

end

theorem retrievalFtsRow_id {e : Entity} {row : RetrievalFtsRow} (given : row ∈ (retrievalFtsRow e).toList) : row.id = e.id := by
  unfold retrievalFtsRow at given
  split at given
  · split at given
    · obtain rfl := by simpa using given
      rfl
    · simp at given
  · simp at given

theorem entityFtsTriggers_local : Local (·.id) (·.id) (fire entityFtsTriggers) := by
  refine Local.fire fun trigger member => ?_
  simp only [entityFtsTriggers, List.mem_cons, List.not_mem_nil, or_false] at member
  rcases member with rfl | rfl | rfl | rfl | rfl
  · rintro (new | ⟨old, new⟩ | old) _ rows k
    · simp only [insertEntityFts, Change.row]
      split
      · exact rowsOf_add rows [entityFtsRow new] fun r member => by rw [List.mem_singleton.mp member]; rfl
      · exact (ite_self _).symm
    all_goals exact (ite_self _).symm
  · rintro (new | ⟨old, new⟩ | old) _ rows k
    · exact (ite_self _).symm
    · simp only [updateEntityFts, Change.row]
      split
      · unfold rowsOf
        rw [List.filter_map]
        have ids : (fun r : EntityFtsRow => decide (r.id = k)) ∘ (fun r => if r.id = old.id then
            { r with title := new.title, fullContent := new.fullContent, searchAliases := new.searchAliases } else r) =
            fun r => decide (r.id = k) := by
          funext r
          simp only [Function.comp_apply]
          split <;> rfl
        rw [ids]
        split
        · rfl
        · rename_i other
          refine (List.map_congr_left fun r member => ?_).trans (List.map_id _)
          have named : r.id = k := by simpa using (List.mem_filter.mp member).2
          rw [if_neg (by rw [named]; exact Ne.symm other)]
          rfl
      · exact (ite_self _).symm
    · exact (ite_self _).symm
  · rintro (new | ⟨old, new⟩ | old) keyed rows k
    · exact (ite_self _).symm
    · simp only [updateEntityFtsUnarchived, Change.row]
      split
      · refine rowsOf_add rows [entityFtsRow new] fun r member => ?_
        rw [List.mem_singleton.mp member]
        exact keyed new rfl
      · exact (ite_self _).symm
    · exact (ite_self _).symm
  · rintro (new | ⟨old, new⟩ | old) _ rows k
    · exact (ite_self _).symm
    · simp only [archiveMemoryFts, Change.row]
      split
      · exact (ite_self _).symm
      · exact rowsOf_without rows old.id
    · exact (ite_self _).symm
  · rintro (new | ⟨old, new⟩ | old) _ rows k
    · exact (ite_self _).symm
    · exact (ite_self _).symm
    · exact rowsOf_without rows old.id

theorem retrievalFtsTriggers_local : Local (·.id) (·.id) (fire retrievalFtsTriggers) := by
  refine Local.fire fun trigger member => ?_
  simp only [retrievalFtsTriggers, List.mem_cons, List.not_mem_nil, or_false] at member
  rcases member with rfl | rfl | rfl | rfl
  · rintro (new | ⟨old, new⟩ | old) _ rows k
    · simp only [insertRetrievalFts, Change.row]
      split
      · exact rowsOf_add rows _ fun r member => retrievalFtsRow_id member
      · exact (ite_self _).symm
    all_goals exact (ite_self _).symm
  · rintro (new | ⟨old, new⟩ | old) keyed rows k
    · exact (ite_self _).symm
    · simp only [updateRetrievalFts, Change.row]
      split
      · have same : new.id = old.id := keyed new rfl
        rw [rowsOf_add _ _ fun r member => (retrievalFtsRow_id member).trans same, rowsOf_without]
        split <;> rfl
      · exact (ite_self _).symm
    · exact (ite_self _).symm
  · rintro (new | ⟨old, new⟩ | old) _ rows k
    · exact (ite_self _).symm
    · simp only [archiveRetrievalFts, Change.row]
      split
      · exact (ite_self _).symm
      · exact rowsOf_without rows old.id
    · exact (ite_self _).symm
  · rintro (new | ⟨old, new⟩ | old) _ rows k
    · exact (ite_self _).symm
    · exact (ite_self _).symm
    · exact rowsOf_without rows old.id

/-- What `entities_fts` should hold of a memory. -/
def entityRows (row : Option Entity) : List EntityFtsRow := ((row.filter (·.live)).map entityFtsRow).toList

def retrievalRows (row : Option Entity) : List RetrievalFtsRow := ((row.filter (·.live)).bind retrievalFtsRow).toList

theorem entityRows_some (e : Entity) : entityRows (some e) = if e.live then [entityFtsRow e] else [] := by
  unfold entityRows
  cases live : e.live <;> simp [Option.filter, live]

theorem retrievalRows_some (e : Entity) : retrievalRows (some e) = if e.live then (retrievalFtsRow e).toList else [] := by
  unfold retrievalRows
  cases live : e.live <;> simp [Option.filter, live]

theorem without_named {ι : Type} {indexKey : ι → EntityId} {rows : List ι} {id : EntityId} (named : ∀ r ∈ rows, indexKey r = id) :
    rows.filter (indexKey · ≠ id) = [] := by
  refine List.filter_eq_nil_iff.mpr fun r member => ?_
  simpa using named r member

/-- A change that empties the index rows of its memory, whatever they are. -/
def settles : Change Entity → Bool
  | .inserted _ => false
  | .updated _ new => !new.live
  | .deleted _ => true

/-- An update that takes a memory out of the archive. -/
def revives : Change Entity → Bool
  | .updated old new => !old.live && new.live
  | _ => false

/-- The triggers of `entities_fts` carry a row along on every change. -/
theorem entityFts_step {c : Change Entity} (keyed : c.Keyed (·.id)) :
    fire entityFtsTriggers c (entityRows c.before) = entityRows c.after := by
  cases c with
  | inserted new =>
    show (if new.live then [] ++ [entityFtsRow new] else []) = entityRows (some new)
    rw [entityRows_some]
    rfl
  | updated old new =>
    have same : new.id = old.id := keyed new rfl
    show archiveMemoryFts (.updated old new) (updateEntityFtsUnarchived (.updated old new)
      (updateEntityFts (.updated old new) (entityRows (some old)))) = entityRows (some new)
    rw [entityRows_some, entityRows_some]
    simp only [archiveMemoryFts, updateEntityFtsUnarchived, updateEntityFts]
    cases was : old.live <;> cases is : new.live <;> simp [entityFtsRow, same]
  | deleted old =>
    show (entityRows (some old)).filter (·.id ≠ old.id) = []
    refine without_named fun r member => ?_
    rw [entityRows_some] at member
    split at member
    · rw [List.mem_singleton.mp member]
      rfl
    · simp at member

theorem entityFts_settles {c : Change Entity} (settled : settles c = true) {rows : List EntityFtsRow}
    (named : ∀ r ∈ rows, r.id = c.row.id) : fire entityFtsTriggers c rows = entityRows c.after := by
  cases c with
  | inserted new => simp [settles] at settled
  | updated old new =>
    have archived : new.live = false := by simpa [settles] using settled
    show archiveMemoryFts (.updated old new) (updateEntityFtsUnarchived (.updated old new)
      (updateEntityFts (.updated old new) rows)) = entityRows (some new)
    rw [entityRows_some]
    simp only [archiveMemoryFts, updateEntityFtsUnarchived, updateEntityFts, archived, Bool.false_and, Bool.false_eq_true, if_false]
    exact without_named named
  | deleted old => exact without_named named

/-- The triggers of `retrieval_fts` write a memory's row anew, except when it leaves the archive. -/
theorem retrievalFts_step {c : Change Entity} (keyed : c.Keyed (·.id)) (stays : revives c = false) {rows : List RetrievalFtsRow}
    (named : ∀ r ∈ rows, r.id = c.row.id) (fresh : c.before = none → rows = []) :
    fire retrievalFtsTriggers c rows = retrievalRows c.after := by
  cases c with
  | inserted new =>
    show (if new.live then rows ++ (retrievalFtsRow new).toList else rows) = retrievalRows (some new)
    rw [fresh rfl, retrievalRows_some]
    rfl
  | updated old new =>
    have emptied : rows.filter (·.id ≠ old.id) = [] := without_named named
    show archiveRetrievalFts (.updated old new) (updateRetrievalFts (.updated old new) rows) = retrievalRows (some new)
    rw [retrievalRows_some]
    simp only [archiveRetrievalFts, updateRetrievalFts]
    cases is : new.live with
    | false => simpa using emptied
    | true =>
      have was : old.live = true := by simpa [revives, is] using stays
      rw [was, emptied]
      rfl
  | deleted old => exact without_named named

/-- What holds of a memory's rows in `retrieval_fts` in any case. -/
structure RetrievalRowsAt (id : EntityId) (row : Option Entity) (rows : List RetrievalFtsRow) : Prop where
  named : ∀ r ∈ rows, r.id = id
  gone : row = none → rows = []

theorem RetrievalRowsAt.step {c : Change Entity} (keyed : c.Keyed (·.id)) {rows : List RetrievalFtsRow}
    (before : RetrievalRowsAt c.row.id c.before rows) : RetrievalRowsAt c.row.id c.after (fire retrievalFtsTriggers c rows) := by
  by_cases revived : revives c = true
  · cases c with
    | updated old new =>
      simp only [revives, Bool.and_eq_true, Bool.not_eq_true'] at revived
      have unchanged : fire retrievalFtsTriggers (.updated old new) rows = rows := by
        show archiveRetrievalFts (.updated old new) (updateRetrievalFts (.updated old new) rows) = rows
        simp [archiveRetrievalFts, updateRetrievalFts, revived.1, revived.2]
      rw [unchanged]
      exact ⟨before.named, fun none_ => absurd none_ (by simp [Change.after])⟩
    | inserted new => simp [revives] at revived
    | deleted old => simp [revives] at revived
  · rw [retrievalFts_step keyed (by simpa using revived) before.named before.gone]
    refine ⟨fun r member => ?_, fun none_ => by rw [none_]; rfl⟩
    cases after : c.after with
    | none =>
      rw [after] at member
      simp [retrievalRows] at member
    | some new =>
      rw [after, retrievalRows_some] at member
      split at member
      · exact (retrievalFtsRow_id member).trans (keyed new after)
      · simp at member

/-! ### Runs -/

theorem rowsOf_entityFts (db : FtsDb) (statements : List Statement) (id : EntityId) (rows : List EntityFtsRow) :
    rowsOf (·.id) id (fireAll (fire entityFtsTriggers) (history db.entities statements) rows) =
      fireAll (fire entityFtsTriggers) (db.changesOf statements id) (rowsOf (·.id) id rows) :=
  entityFtsTriggers_local.fireAll (history_keyed _ _) rows

theorem rowsOf_retrievalFts (db : FtsDb) (statements : List Statement) (id : EntityId) (rows : List RetrievalFtsRow) :
    rowsOf (·.id) id (fireAll (fire retrievalFtsTriggers) (history db.entities statements) rows) =
      fireAll (fire retrievalFtsTriggers) (db.changesOf statements id) (rowsOf (·.id) id rows) :=
  retrievalFtsTriggers_local.fireAll (history_keyed _ _) rows

theorem entityRows_run {before after : Option Entity} {changes : List (Change Entity)} (course : Course (·.id) id before changes after) :
    fireAll (fire entityFtsTriggers) changes (entityRows before) = entityRows after := by
  refine Course.keeps (fun row rows => rows = entityRows row) ?_ course rfl
  rintro c _ _ keyed _ rfl
  exact entityFts_step keyed

/-- A row of `entities_fts` that is right stays right, and one that a change settles becomes right. -/
theorem entitiesMirrored_run {table : FtsTable EntityFtsRow} (there : db.entitiesFts = some table)
    (start : db.EntitiesMirrored id ∨ ∃ c ∈ db.changesOf statements id, settles c = true) :
    (db.executeAll statements).EntitiesMirrored id := by
  have course := history_course db statements id
  refine ⟨table.fire entityFtsTriggers (history db.entities statements), ?_, ?_⟩
  · rw [executeAll_entitiesFts, there]
    rfl
  · refine (rowsOf_entityFts db statements id table.rows).trans ?_
    show _ = entityRows ((db.executeAll statements).entities.find id)
    rcases start with ⟨_, same, mirrored⟩ | ⟨c, member, settled⟩
    · obtain rfl : table = _ := Option.some.inj (there.symm.trans same)
      rw [show rowsOf (·.id) id table.rows = entityRows (db.entities.find id) from mirrored]
      exact entityRows_run course
    · obtain ⟨earlier, later, split⟩ := List.append_of_mem member
      rw [split] at course ⊢
      obtain ⟨_, first, second⟩ := course.split
      obtain ⟨rfl, named, keyed, rest⟩ := second.of_cons
      have own : ∀ r ∈ fireAll (fire entityFtsTriggers) earlier (rowsOf (·.id) id table.rows), r.id = id := by
        refine Course.keeps (fun _ rows => ∀ r ∈ rows, EntityFtsRow.id r = id) ?_ first ?_
        · intro c' _ named' keyed' rows names
          rw [← named'] at names ⊢
          exact entityFtsTriggers_local.named keyed' names
        · intro r listed
          simpa using (List.mem_filter.mp listed).2
      rw [fireAll_append]
      show fireAll (fire entityFtsTriggers) later (fire entityFtsTriggers c _) = _
      rw [entityFts_settles settled (by rw [named]; exact own)]
      exact entityRows_run rest

/-- A row of `retrieval_fts` that is right is so after every change but one that revives the memory. -/
theorem retrievalMirrored_run (start : db.RetrievalMirrored id)
    (last : ∀ c, (db.changesOf statements id).getLast? = some c → revives c = false) :
    (db.executeAll statements).RetrievalMirrored id := by
  obtain ⟨table, there, mirrored⟩ := start
  have course := history_course db statements id
  refine ⟨table.fire retrievalFtsTriggers (history db.entities statements), ?_, ?_⟩
  · rw [executeAll_retrievalFts, there]
    rfl
  · refine (rowsOf_retrievalFts db statements id table.rows).trans ?_
    show _ = retrievalRows ((db.executeAll statements).entities.find id)
    rw [show rowsOf (·.id) id table.rows = retrievalRows (db.entities.find id) from mirrored]
    generalize db.changesOf statements id = changes at course last
    generalize (db.executeAll statements).entities.find id = after at course ⊢
    rcases List.eq_nil_or_concat changes with rfl | ⟨earlier, c, split⟩
    · rw [course.of_nil]
      rfl
    · rw [List.concat_eq_append] at split
      subst split
      obtain ⟨_, first, second⟩ := course.split
      obtain ⟨rfl, named, keyed, rest⟩ := second.of_cons
      have held : RetrievalRowsAt id c.before (fireAll (fire retrievalFtsTriggers) earlier (retrievalRows (db.entities.find id))) := by
        refine Course.keeps (RetrievalRowsAt id) ?_ first ?_
        · intro c' _ named' keyed' rows held
          rw [← named'] at held ⊢
          exact held.step keyed'
        · refine ⟨fun r listed => ?_, fun none_ => by rw [none_]; rfl⟩
          rw [show retrievalRows (db.entities.find id) = rowsOf (·.id) id table.rows from mirrored.symm] at listed
          simpa using (List.mem_filter.mp listed).2
      rw [rest.of_nil]
      rw [fireAll_append]
      show fire retrievalFtsTriggers c _ = _
      exact retrievalFts_step keyed (last c (by simp)) (fun r member => (held.named r member).trans named.symm) held.gone

/-! ### From `init_db` on -/

theorem executeAll_hasColumn (db : FtsDb) (statements : List Statement) (column : String) :
    FtsDb.hasColumn (db.executeAll statements).entitiesFts column = FtsDb.hasColumn db.entitiesFts column ∧
      FtsDb.hasColumn (db.executeAll statements).retrievalFts column = FtsDb.hasColumn db.retrievalFts column := by
  rw [executeAll_entitiesFts, executeAll_retrievalFts]
  constructor
  · cases db.entitiesFts <;> rfl
  · cases db.retrievalFts <;> rfl

theorem exists_of_hasColumn {ι : Type} {table : Option (FtsTable ι)} {column : String} (has : FtsDb.hasColumn table column = true) :
    ∃ t, table = some t := by
  cases table with
  | none => simp [FtsDb.hasColumn] at has
  | some t => exact ⟨t, rfl⟩

theorem ensureEntityFts_mirrored (kept : FtsDb.hasColumn db.entitiesFts "search_aliases" = true → db.EntitiesMirrored id)
    (live : FtsDb.hasColumn db.entitiesFts "search_aliases" = false → ∀ e, db.entities.find id = some e → e.live = true) :
    db.ensureEntityFts.EntitiesMirrored id := by
  unfold FtsDb.ensureEntityFts
  split
  · rename_i has
    exact kept has
  · rename_i lacks
    refine ⟨_, rfl, ?_⟩
    have own : (db.entities.rows.map entityFtsRow).filter (·.id = id) = (db.entities.find id).toList.map entityFtsRow := by
      rw [List.filter_map, ← rows_filter_id]
      rfl
    refine own.trans ?_
    show _ = entityRows (db.entities.find id)
    cases found : db.entities.find id with
    | none => rfl
    | some e =>
      rw [entityRows_some, live (by simpa using lacks) e found]
      rfl

theorem ensureRetrievalFts_mirrored (kept : FtsDb.hasColumn db.retrievalFts "retrieval_text" = true → db.RetrievalMirrored id) :
    db.ensureRetrievalFts.RetrievalMirrored id := by
  unfold FtsDb.ensureRetrievalFts
  split
  · rename_i has
    exact kept has
  · refine ⟨_, rfl, ?_⟩
    have named : ∀ e : Entity, (retrievalFtsRow e).toList.filter (·.id = id) = if e.id = id then (retrievalFtsRow e).toList else [] := by
      intro e
      split
      · rename_i same
        exact List.filter_eq_self.mpr fun r member => by simpa [retrievalFtsRow_id member] using same
      · rename_i other
        exact List.filter_eq_nil_iff.mpr fun r member => by simpa [retrievalFtsRow_id member] using other
    have own : ((db.entities.rows.filter (·.live)).filterMap retrievalFtsRow).filter (·.id = id) =
        ((db.entities.rows.filter (·.id = id)).filter (·.live)).filterMap retrievalFtsRow := by
      rw [List.filter_comm]
      induction db.entities.rows.filter (·.live) with
      | nil => rfl
      | cons e rows ih =>
        have head := named e
        rw [List.filter_cons]
        cases row : retrievalFtsRow e with
        | none =>
          rw [List.filterMap_cons_none row, ih]
          split
          · rw [List.filterMap_cons_none row]
          · rfl
        | some r =>
          have same : r.id = e.id := retrievalFtsRow_id (by rw [row]; exact List.mem_singleton_self r)
          rw [List.filterMap_cons_some row, List.filter_cons, same, ih]
          split
          · rw [List.filterMap_cons_some row]
          · rfl
    refine own.trans ?_
    rw [rows_filter_id]
    show _ = retrievalRows (db.entities.find id)
    cases found : db.entities.find id with
    | none => rfl
    | some e =>
      rw [retrievalRows_some]
      cases live : e.live with
      | false => simp [live]
      | true => cases row : retrievalFtsRow e <;> simp [live, row]

theorem update_stays {T : EntityTable} {sel : Entity → Bool} {f : EntityColumns → EntityColumns} (status : ∀ c, (f c).status = c.status) :
    ∀ c ∈ (Statement.update sel f).changes T, revives c = false := by
  intro c member
  obtain ⟨old, _, rfl⟩ := List.mem_map.mp member
  have same : (old.setIf sel f).live = old.live := by
    unfold Entity.setIf Entity.live
    split
    · rw [status]
    · rfl
  simp [revives, same]

/-- Nothing that comes before the full text tables are made changes a status. -/
theorem backfill_stays (env : Env) (legacy : LegacyDb) (T : EntityTable) :
    ∀ c ∈ history T (backfillLegacyEntityMetadata env legacy), revives c = false := by
  have updates : ∀ statement ∈ backfillLegacyEntityMetadata env legacy, ∀ U : EntityTable, ∀ c ∈ statement.changes U, revives c = false := by
    intro statement member U
    simp only [backfillLegacyEntityMetadata, List.cons_append, List.nil_append, List.mem_cons, List.mem_map] at member
    rcases member with rfl | rfl | ⟨e, _, rfl⟩
    · exact update_stays fun _ => rfl
    · exact update_stays fun _ => rfl
    · exact update_stays fun _ => rfl
  generalize backfillLegacyEntityMetadata env legacy = statements at updates
  induction statements generalizing T with
  | nil => simp [history]
  | cons statement rest ih =>
    intro c member
    rcases List.mem_append.mp member with first | later
    · exact updates statement List.mem_cons_self T c first
    · exact ih _ (fun other listed => updates other (List.mem_cons_of_mem _ listed)) c later

/-- `entities_fts` is made anew while the memory is archived. -/
def BackfillsArchived (env : Env) (legacy : LegacyDb) (id : EntityId) : Prop :=
  FtsDb.hasColumn legacy.db.entitiesFts "search_aliases" = false ∧
    ∃ e, (ensureFts env legacy).entities.find id = some e ∧ e.status = .archived

theorem ensureFts_entities (env : Env) (legacy : LegacyDb) :
    (ensureFts env legacy).entities = (legacy.db.executeAll (backfillLegacyEntityMetadata env legacy)).entities := by
  unfold ensureFts FtsDb.ensureRetrievalFts FtsDb.ensureEntityFts
  split <;> split <;> rfl

theorem ensureFts_entitiesFts (env : Env) (legacy : LegacyDb) : (ensureFts env legacy).entitiesFts =
    (legacy.db.executeAll (backfillLegacyEntityMetadata env legacy)).ensureEntityFts.entitiesFts := by
  unfold ensureFts FtsDb.ensureRetrievalFts
  split <;> rfl

theorem ensureFts_entitiesMirrored {env : Env} {legacy : LegacyDb} (current : ¬ BackfillsArchived env legacy id) :
    (ensureFts env legacy).EntitiesMirrored id := by
  have has := (executeAll_hasColumn legacy.db (backfillLegacyEntityMetadata env legacy) "search_aliases").1
  have made : (legacy.db.executeAll (backfillLegacyEntityMetadata env legacy)).ensureEntityFts.EntitiesMirrored id := by
    refine ensureEntityFts_mirrored (fun kept => ?_) fun lacks e found => ?_
    · rw [has] at kept
      obtain ⟨table, there⟩ := exists_of_hasColumn kept
      exact entitiesMirrored_run there (.inl (legacy.entitiesKept kept id))
    · rw [has] at lacks
      rw [← ensureFts_entities] at found
      unfold Entity.live
      by_contra archived
      exact current ⟨lacks, e, found, by simpa using archived⟩
  obtain ⟨table, there, mirrored⟩ := made
  refine ⟨table, ?_, ?_⟩
  · rw [ensureFts_entitiesFts, there]
  · rw [mirrored, ensureFts_entities]
    unfold FtsDb.ensureEntityFts
    split <;> rfl

theorem ensureFts_entitiesFts_some (env : Env) (legacy : LegacyDb) : ∃ table, (ensureFts env legacy).entitiesFts = some table := by
  rw [ensureFts_entitiesFts]
  unfold FtsDb.ensureEntityFts
  split
  · rename_i has
    exact exists_of_hasColumn has
  · exact ⟨_, rfl⟩

theorem ensureFts_retrievalMirrored (env : Env) (legacy : LegacyDb) (id : EntityId) : (ensureFts env legacy).RetrievalMirrored id := by
  refine ensureRetrievalFts_mirrored fun kept => ?_
  have unchanged : (legacy.db.executeAll (backfillLegacyEntityMetadata env legacy)).ensureEntityFts.retrievalFts =
      (legacy.db.executeAll (backfillLegacyEntityMetadata env legacy)).retrievalFts := by
    unfold FtsDb.ensureEntityFts
    split <;> rfl
  have entities : (legacy.db.executeAll (backfillLegacyEntityMetadata env legacy)).ensureEntityFts.entities =
      (legacy.db.executeAll (backfillLegacyEntityMetadata env legacy)).entities := by
    unfold FtsDb.ensureEntityFts
    split <;> rfl
  rw [unchanged, (executeAll_hasColumn _ _ _).2] at kept
  obtain ⟨table, there, mirrored⟩ := retrievalMirrored_run (legacy.retrievalKept kept id) fun c last =>
    backfill_stays env legacy legacy.db.entities c (List.mem_of_mem_filter (List.mem_of_getLast? last))
  refine ⟨table, unchanged.trans there, ?_⟩
  rw [mirrored, entities]

theorem executeAll_append (db : FtsDb) (statements more : List Statement) :
    db.executeAll (statements ++ more) = (db.executeAll statements).executeAll more :=
  List.foldl_append

/-- From `init_db` on a memory has its row in `entities_fts`, unless the table was made while it was archived and nothing has
archived it again since, and in `retrieval_fts`, unless the last statement that changed it took it out of the archive. -/
theorem initDb_mirrors (env : Env) (legacy : LegacyDb) (migrations later : List Statement) (id : EntityId) :
    ((BackfillsArchived env legacy id → ∃ c ∈ (ensureFts env legacy).changesOf (migrations ++ later) id, settles c = true) →
      ((initDb env legacy migrations).executeAll later).EntitiesMirrored id) ∧
    ((∀ c, ((ensureFts env legacy).changesOf (migrations ++ later) id).getLast? = some c → revives c = false) →
      ((initDb env legacy migrations).executeAll later).RetrievalMirrored id) := by
  unfold initDb
  rw [← executeAll_append]
  constructor
  · intro settled
    obtain ⟨table, there⟩ := ensureFts_entitiesFts_some env legacy
    refine entitiesMirrored_run there ?_
    by_cases archived : BackfillsArchived env legacy id
    · exact .inr (settled archived)
    · exact .inl (ensureFts_entitiesMirrored archived)
  · intro last
    exact retrievalMirrored_run (ensureFts_retrievalMirrored env legacy id) last

/-- A file whose `entities_fts` knows no search aliases, with a live memory and an archived one. -/
def agedDb : LegacyDb where
  db :=
    { entities := ⟨[memoryRow "plain" "Plain" "text", { memoryRow "note" "Note" "text" with status := .archived }], by decide⟩
      entitiesFts := some ⟨["id", "title", "full_content"], []⟩
      retrievalFts := none }
  embeddingPending _ := false
  projectId _ := none
  entitiesKept has := absurd has (by decide)
  retrievalKept has := absurd has (by decide)

/-- An update of the archived memories takes the archived one's row out again. -/
theorem agedDb_mirrors :
    ((initDb Env.plain agedDb [.update (·.status == .archived) fun columns => columns]).executeAll []).EntitiesMirrored "note" ∧
      ((initDb Env.plain agedDb [.update (·.status == .archived) fun columns => columns]).executeAll []).RetrievalMirrored "note" := by
  have mirrors := initDb_mirrors Env.plain agedDb [.update (·.status == .archived) fun columns => columns] [] "note"
  refine ⟨mirrors.1 fun _ => ?_, mirrors.2 fun c last => ?_⟩
  · exact List.any_eq_true.mp (by decide)
  · have only : ((ensureFts Env.plain agedDb).changesOf ([.update (·.status == .archived) fun columns => columns] ++ []) "note").all
        (fun c => !revives c) = true := by decide
    simpa using List.all_eq_true.mp only c (List.mem_of_getLast? last)

/-- The memories in one row each, and no others. -/
structure FtsDb.EachInBoth (db : FtsDb) : Prop where
  entities : ∀ id, db.EntitiesMirrored id
  retrieval : ∃ table, db.retrievalFts = some table ∧ ∀ id, ((table.rows.filter (·.id = id)).length = 1 ↔
    ∃ e, db.entities.find id = some e ∧ e.live = true)

/-- A memory without a retrieval text has no row in `retrieval_fts`. -/
theorem agedDb_unindexed : ¬ ∀ (env : Env) (legacy : LegacyDb) (migrations later : List Statement),
    ((initDb env legacy migrations).executeAll later).EachInBoth := by
  intro always
  obtain ⟨table, there, each⟩ := (always Env.plain agedDb [] []).retrieval
  have made : ((initDb Env.plain agedDb []).executeAll []).retrievalFts = some ⟨["id", "retrieval_text"], []⟩ := by decide
  obtain rfl := Option.some.inj (made.symm.trans there)
  have one := (each "plain").mpr ⟨memoryRow "plain" "Plain" "text", by decide, by decide⟩
  simp at one

end SaltMdb
