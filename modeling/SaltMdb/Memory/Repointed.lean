import SaltMdb.Core.Details
import SaltMdb.Lineage.Replaced
import SaltMdb.System.Calls

/-! Repointing as a substitution of the new memory for the old one: what the loop over the worklist has done to the
relations when it returns. -/

namespace SaltMdb
open Transactions

variable {env : Env}

/-! ### Edges -/

def Edge.Touches (e : Edge) (id : EntityId) : Prop := e.source = id ∨ e.target = id

theorem Relation.touches_iff {r : Relation} {id : EntityId} : r.touches id = true ↔ r.edge.Touches id := by
  simp [Relation.touches, Edge.Touches, Relation.edge]

namespace Edge
variable {e : Edge} {p n : EntityId}

theorem repoint_of_not_touches (h : ¬ e.Touches p) : e.repoint p n = e := by
  obtain ⟨source, target⟩ := not_or.mp h
  simp [repoint, source, target]

/-- No image touches the old memory. -/
theorem not_touches_repoint (other : n ≠ p) : ¬ (e.repoint p n).Touches p := by
  rintro (source | target)
  · by_cases here : e.source = p <;> simp_all [repoint]
  · by_cases here : e.target = p <;> simp_all [repoint]

end Edge

theorem Relation.close_close (c : Closing) (r : Relation) (total : c.invalidAt.isSome) : (r.close c).close c = r.close c := by
  obtain ⟨at_, given⟩ := Option.isSome_iff_exists.mp total
  simp [Relation.close, given]

/-! ### The loop -/

/-- The row a repointed edge stands in. -/
def Repointed.row (now : Instant) (m : Repointed) : Relation := (repointDraft m.edge now).row m.newRelationId

/-- The rows a worklist names are there, each with the edge it had when it was read. -/
def RelationTable.Lists (T : RelationTable) (edges : List Relation) : Prop :=
  ∀ r ∈ edges, ∃ x ∈ T.rows, x.id = r.id ∧ x.edge = r.edge

namespace RelationTable
variable {T : RelationTable} {edges : List Relation}

theorem Lists.below (h : T.Lists edges) {r : Relation} (member : r ∈ edges) : r.id < T.next := by
  obtain ⟨x, here, same, _⟩ := h r member
  exact same ▸ T.below x here

theorem Lists.close (h : T.Lists edges) (sel : Relation → Bool) (c : Closing) : (T.closeWhere sel c).Lists edges := by
  intro r member
  obtain ⟨x, here, id, edge⟩ := h r member
  exact ⟨x.closeIf sel c, mem_closeWhere.mpr ⟨x, here, rfl⟩, by simpa using id, by simpa using edge⟩

theorem Lists.push (h : T.Lists edges) {d : RelationDraft} (free : ¬ T.Holds d.edge) : (T.push d free).Lists edges := by
  intro r member
  obtain ⟨x, here, same⟩ := h r member
  exact ⟨x, mem_push.mpr (Or.inl here), same⟩

end RelationTable

/-- The ids of the edges in a worklist that are carried over. -/
def movedIds (sourceIsCore : Bool) (p n : EntityId) (edges : List Relation) : List RelationId :=
  (edges.filter fun r => !staysBehind sourceIsCore p n r.edge).map (·.id)

def stayingIds (sourceIsCore : Bool) (p n : EntityId) (edges : List Relation) : List RelationId :=
  (edges.filter fun r => staysBehind sourceIsCore p n r.edge).map (·.id)

/-- What a repointing of `edges` has done to the table: the carried rows are ended, the listed ones added, and every
image holds. -/
structure Repoints (sourceIsCore : Bool) (p n : EntityId) (now : Instant) (edges : List Relation) (created : List Repointed)
    (T U : RelationTable) : Prop where
  rows : U.rows = T.rows.map (·.closeIf (fun r => (movedIds sourceIsCore p n edges).contains r.id) ⟨now, some now⟩) ++
    created.map (·.row now)
  next : T.next ≤ U.next
  fresh : ∀ m ∈ created, T.next ≤ m.newRelationId
  images : ∀ m ∈ created, ∃ r ∈ edges, staysBehind sourceIsCore p n r.edge = false ∧ m.oldRelationId = r.id ∧
    m.edge = r.edge.repoint p n
  holds : ∀ r ∈ edges, staysBehind sourceIsCore p n r.edge = false → U.Holds (r.edge.repoint p n)

variable {sourceIsCore : Bool} {p n : EntityId} {now : Instant}

theorem Repoints.nil (T : RelationTable) : Repoints sourceIsCore p n now [] [] T T where
  rows := by
    have kept : ∀ r : Relation, r.closeIf (fun r => ([] : List RelationId).contains r.id) ⟨now, some now⟩ = r := fun _ => rfl
    simp only [movedIds, List.filter_nil, List.map_nil, kept, List.map_id', List.append_nil]
  next := Nat.le_refl _
  fresh := by simp
  images := by simp
  holds := by simp

theorem Repoints.stay {r : Relation} {edges : List Relation} {created : List Repointed} {T U : RelationTable}
    (h : Repoints sourceIsCore p n now edges created T U) (stays : staysBehind sourceIsCore p n r.edge = true) :
    Repoints sourceIsCore p n now (r :: edges) created T U where
  rows := by
    have same : movedIds sourceIsCore p n (r :: edges) = movedIds sourceIsCore p n edges := by simp [movedIds, stays]
    rw [same]
    exact h.rows
  next := h.next
  fresh := h.fresh
  images m member := by
    obtain ⟨x, here, image⟩ := h.images m member
    exact ⟨x, List.mem_cons_of_mem _ here, image⟩
  holds x member moves := by
    rcases List.mem_cons.mp member with rfl | later
    · simp [stays] at moves
    · exact h.holds x later moves

/-- An image that holds stays: the rows ended later all touched the old memory. -/
theorem Repoints.keeps_image {T U : RelationTable} {edges : List Relation} {created : List Repointed} {e : Edge}
    (h : Repoints sourceIsCore p n now edges created T U) (other : n ≠ p) (listed : T.Lists edges)
    (touching : ∀ r ∈ edges, r.edge.Touches p) (holds : T.Holds (e.repoint p n)) : U.Holds (e.repoint p n) := by
  obtain ⟨x, here, active, edge⟩ := holds
  have open_ : x.closeIf (fun r => (movedIds sourceIsCore p n edges).contains r.id) ⟨now, some now⟩ = x := by
    have missed : ¬ (movedIds sourceIsCore p n edges).contains x.id = true := by
      intro selected
      obtain ⟨r, member, same⟩ := List.mem_map.mp (List.contains_iff_mem.mp selected)
      have named := (List.mem_filter.mp member).1
      obtain ⟨y, there, id, row⟩ := listed r named
      have one := RelationTable.id_unique there here (id.trans same)
      rw [← one, row] at edge
      exact Edge.not_touches_repoint other (edge ▸ touching r named)
    exact if_neg missed
  refine ⟨x, ?_, active, edge⟩
  rw [h.rows]
  exact List.mem_append_left _ (List.mem_map.mpr ⟨x, here, open_⟩)

/-- Ending one row and then the rows of a list ends them all. -/
theorem closeIf_closeIf (id : RelationId) (ids : List RelationId) (r : Relation) :
    (r.closeIf (·.id == id) ⟨now, some now⟩).closeIf (fun r => ids.contains r.id) ⟨now, some now⟩ =
      r.closeIf (fun r => (id :: ids).contains r.id) ⟨now, some now⟩ := by
  by_cases same : r.id = id
  · have first : r.closeIf (·.id == id) ⟨now, some now⟩ = r.close ⟨now, some now⟩ := if_pos (beq_iff_eq.mpr same)
    have both : r.closeIf (fun r => (id :: ids).contains r.id) ⟨now, some now⟩ = r.close ⟨now, some now⟩ :=
      if_pos (by simp [same])
    rw [first, both, Relation.closeIf]
    split
    · exact Relation.close_close _ r rfl
    · rfl
  · have first : r.closeIf (·.id == id) ⟨now, some now⟩ = r := if_neg (by simp [same])
    rw [first]
    simp [Relation.closeIf, same]

theorem moved_cons {r : Relation} {edges : List Relation} (moves : staysBehind sourceIsCore p n r.edge = false) :
    movedIds sourceIsCore p n (r :: edges) = r.id :: movedIds sourceIsCore p n edges := by
  simp [movedIds, moves]

/-- The image was there already: the row is ended and nothing added. -/
theorem Repoints.merge {r : Relation} {edges : List Relation} {created : List Repointed} {T U : RelationTable}
    (h : Repoints sourceIsCore p n now edges created (T.closeId r.id ⟨now, some now⟩) U) (other : n ≠ p)
    (moves : staysBehind sourceIsCore p n r.edge = false) (listed : T.Lists edges)
    (touching : ∀ r ∈ edges, r.edge.Touches p)
    (taken : (T.closeId r.id ⟨now, some now⟩).Holds (r.edge.repoint p n)) :
    Repoints sourceIsCore p n now (r :: edges) created T U where
  rows := by
    rw [h.rows, moved_cons moves]
    simp only [RelationTable.closeId, RelationTable.closeWhere, List.map_map, Function.comp_def, closeIf_closeIf]
  next := h.next
  fresh := h.fresh
  images m member := by
    obtain ⟨x, here, image⟩ := h.images m member
    exact ⟨x, List.mem_cons_of_mem _ here, image⟩
  holds x member stays := by
    rcases List.mem_cons.mp member with rfl | later
    · exact h.keeps_image other (listed.close _ _) touching taken
    · exact h.holds x later stays

/-- The row is ended and its image added. -/
theorem Repoints.carry {r : Relation} {edges : List Relation} {created : List Repointed} {T U : RelationTable}
    (free : ¬ (T.closeId r.id ⟨now, some now⟩).Holds (repointDraft (r.edge.repoint p n) now).edge)
    (h : Repoints sourceIsCore p n now edges created ((T.closeId r.id ⟨now, some now⟩).push _ free) U) (other : n ≠ p)
    (moves : staysBehind sourceIsCore p n r.edge = false) (listed : T.Lists edges)
    (touching : ∀ r ∈ edges, r.edge.Touches p) :
    Repoints sourceIsCore p n now (r :: edges) (⟨r.id, T.next, r.edge.repoint p n⟩ :: created) T U where
  rows := by
    have open_ : ((repointDraft (r.edge.repoint p n) now).row T.next).closeIf
        (fun r => (movedIds sourceIsCore p n edges).contains r.id) ⟨now, some now⟩ =
          (repointDraft (r.edge.repoint p n) now).row T.next := by
      refine if_neg fun selected => ?_
      obtain ⟨x, member, same⟩ := List.mem_map.mp (List.contains_iff_mem.mp selected)
      have early := listed.below (List.mem_filter.mp member).1
      rw [same] at early
      exact Nat.lt_irrefl _ early
    have pushed : ((T.closeId r.id ⟨now, some now⟩).push (repointDraft (r.edge.repoint p n) now) free).rows =
        T.rows.map (·.closeIf (·.id == r.id) ⟨now, some now⟩) ++ [(repointDraft (r.edge.repoint p n) now).row T.next] := rfl
    rw [h.rows, moved_cons moves, pushed, List.map_append, List.map_singleton, open_]
    simp only [List.map_map, Function.comp_def, closeIf_closeIf, List.append_assoc, List.singleton_append, List.map_cons]
    rfl
  next := Nat.le_of_succ_le h.next
  fresh m member := by
    rcases List.mem_cons.mp member with rfl | later
    · exact Nat.le_refl _
    · exact Nat.le_of_succ_le (h.fresh m later)
  images m member := by
    rcases List.mem_cons.mp member with rfl | later
    · exact ⟨r, List.mem_cons_self, moves, rfl, rfl⟩
    · obtain ⟨x, here, image⟩ := h.images m later
      exact ⟨x, List.mem_cons_of_mem _ here, image⟩
  holds x member stays := by
    rcases List.mem_cons.mp member with rfl | later
    · exact h.keeps_image other ((listed.close _ _).push free) touching (RelationTable.holds_push.mpr (Or.inr rfl))
    · exact h.holds x later stays

/-- The world with another relation table. -/
def relating (w : World Db Supply) (T : RelationTable) : World Db Supply :=
  { w with durable := { w.durable with relations := T } }

/-- The loop never raises, and what it reports is what it did. -/
theorem repointEdges_run (other : n ≠ p) {edges : List Relation} (progress : RepointProgress) (w : World Db Supply)
    (listed : w.durable.relations.Lists edges) (touching : ∀ r ∈ edges, r.edge.Touches p) :
    ∃ created w', (repointEdges sourceIsCore p n now progress edges).run w =
        (.ok ⟨progress.repointed ++ created, progress.stillOrphaned ++ stayingIds sourceIsCore p n edges⟩, w') ∧
      w'.durable = { w.durable with relations := w'.durable.relations } ∧
      Repoints sourceIsCore p n now edges created w.durable.relations w'.durable.relations := by
  induction edges generalizing progress w with
  | nil =>
    refine ⟨[], w, ?_, rfl, .nil _⟩
    rw [List.append_nil, stayingIds, List.filter_nil, List.map_nil, List.append_nil]
    rfl
  | cons r rest ih =>
    have restTouches : ∀ r ∈ rest, r.edge.Touches p := fun x member => touching x (List.mem_cons_of_mem _ member)
    have restListed : w.durable.relations.Lists rest := fun x member => listed x (List.mem_cons_of_mem _ member)
    unfold repointEdges
    by_cases stays : staysBehind sourceIsCore p n r.edge = true
    · have step : (repointEdge sourceIsCore p n now progress r).run w =
          (.ok { progress with stillOrphaned := progress.stillOrphaned ++ [r.id] }, w) := by
        unfold repointEdge
        rw [if_pos stays]
        rfl
      have left : stayingIds sourceIsCore p n (r :: rest) = r.id :: stayingIds sourceIsCore p n rest := by
        simp [stayingIds, stays]
      obtain ⟨created, w', ran, frame, repoints⟩ := ih _ w restListed restTouches
      refine ⟨created, w', ?_, frame, repoints.stay stays⟩
      rw [Txn.bind_run_ok step, ran, left, List.append_assoc, List.singleton_append]
    · have moves : staysBehind sourceIsCore p n r.edge = false := Bool.eq_false_iff.mpr stays
      have left : stayingIds sourceIsCore p n (r :: rest) = stayingIds sourceIsCore p n rest := by
        simp [stayingIds, moves]
      have closedListed := restListed.close (·.id == r.id) ⟨now, some now⟩
      by_cases free : ¬ (w.durable.relations.closeId r.id ⟨now, some now⟩).Holds (repointDraft (r.edge.repoint p n) now).edge
      · have step : (repointEdge sourceIsCore p n now progress r).run w =
            (.ok { progress with repointed := progress.repointed ++ [⟨r.id, w.durable.relations.next, r.edge.repoint p n⟩] },
              relating w ((w.durable.relations.closeId r.id ⟨now, some now⟩).push _ free)) := by
          unfold repointEdge
          rw [if_neg stays, Txn.bind_run_ok (Tx.run_setRelations _ w), Tx.run_db_bind]
          simp only [RelationTable.insertOrIgnore, dif_pos free]
          rfl
        obtain ⟨created, w', ran, frame, repoints⟩ := ih _
          (relating w ((w.durable.relations.closeId r.id ⟨now, some now⟩).push _ free)) (closedListed.push free) restTouches
        refine ⟨_ :: created, w', ?_, frame, .carry free repoints other moves restListed restTouches⟩
        rw [Txn.bind_run_ok step, ran, left, List.append_assoc, List.singleton_append]
      · have taken := not_not.mp free
        have step : (repointEdge sourceIsCore p n now progress r).run w =
            (.ok progress, relating w (w.durable.relations.closeId r.id ⟨now, some now⟩)) := by
          unfold repointEdge
          rw [if_neg stays, Txn.bind_run_ok (Tx.run_setRelations _ w), Tx.run_db_bind]
          simp only [RelationTable.insertOrIgnore, dif_neg free]
          rfl
        obtain ⟨created, w', ran, frame, repoints⟩ := ih _
          (relating w (w.durable.relations.closeId r.id ⟨now, some now⟩)) closedListed restTouches
        refine ⟨created, w', ?_, frame, repoints.merge other moves restListed restTouches taken⟩
        rw [Txn.bind_run_ok step, ran, left]

/-! ### A replacement that repoints -/

/-- The foreign keys of `relations`: both ends are memories. -/
def Db.Referenced (db : Db) : Prop :=
  ∀ r ∈ db.relations.rows, (db.entities.find r.sourceId).isSome ∧ (db.entities.find r.targetId).isSome

theorem Db.Referenced.apart {db : Db} {n : EntityId} (h : db.Referenced) (fresh : db.entities.find n = none) :
    ∀ r ∈ db.relations.rows, ¬ r.edge.Touches n := by
  rintro r member (source | target)
  · have present := (h r member).1
    rw [show r.sourceId = n from source, fresh] at present
    simp at present
  · have present := (h r member).2
    rw [show r.targetId = n from target, fresh] at present
    simp at present

/-- The edges a repointing leaves on the old memory: its self-loops, and the details that a core has declared. -/
def Edge.staysOn (isCore : Bool) (p : EntityId) (e : Edge) : Bool :=
  e.source == p && e.target == p || isCore && e.predicate == "elaborates_on" && e.target == p

theorem repoint_loop_iff {e : Edge} (touches : e.Touches p) (apart : ¬ e.Touches n) :
    (e.repoint p n).source = (e.repoint p n).target ↔ e.source = p ∧ e.target = p := by
  obtain ⟨source, target⟩ := not_or.mp apart
  simp only [Edge.repoint]
  rcases touches with here | here
  · rw [if_pos here]
    by_cases there : e.target = p
    · simp [here, there]
    · rw [if_neg there]
      exact iff_of_false (fun same => target same.symm) (fun both => there both.2)
  · rw [if_pos here]
    by_cases there : e.source = p
    · simp [here, there]
    · rw [if_neg there]
      exact iff_of_false source (fun both => there both.1)

theorem staysBehind_eq {e : Edge} (touches : e.Touches p) (apart : ¬ e.Touches n) :
    staysBehind sourceIsCore p n e = e.staysOn sourceIsCore p := by
  have loop : ((e.repoint p n).source == (e.repoint p n).target) = (e.source == p && e.target == p) := by
    rw [Bool.eq_iff_iff, Bool.and_eq_true, beq_iff_eq, beq_iff_eq, beq_iff_eq]
    exact repoint_loop_iff touches apart
  rw [staysBehind, loop, Bool.or_comm, Edge.staysOn]

/-- The rows a repointing ends. -/
def Relation.carried (isCore : Bool) (p : EntityId) (r : Relation) : Bool :=
  r.touches p && r.active && !isLineage r.predicate && !r.edge.staysOn isCore p

/-- The active semantic edges of `db'` are those of `db` with `n` in the place of `p`, but for the ones that stay. Of
the rows those are ended, and the lineage row and the listed ones added. -/
structure Db.Substituted (db db' : Db) (isCore : Bool) (p n : EntityId) (now : Instant) (lineage : Relation)
    (created : List Repointed) : Prop where
  edges : ∀ e : Edge, ¬ e.Lineage → (db'.relations.Holds e ↔ ∃ old, db.relations.Holds old ∧ ¬ old.Lineage ∧
    e = if old.staysOn isCore p then old else old.repoint p n)
  rows : db'.relations.rows = db.relations.rows.map (·.closeIf (·.carried isCore p) ⟨now, some now⟩) ++
    lineage :: created.map (·.row now)
  images : ∀ m ∈ created, ∃ r ∈ db.relations.rows, r.carried isCore p = true ∧ m.oldRelationId = r.id ∧
    m.edge = r.edge.repoint p n

theorem Db.Substituted.jobs {db db' db'' : Db} {isCore : Bool} {lineage : Relation} {created : List Repointed}
    (h : db.Substituted db' isCore p n now lineage created) (jobs : db'.OnlyJobs db'') :
    db.Substituted db'' isCore p n now lineage created :=
  ⟨by rw [jobs.relations]; exact h.edges, by rw [jobs.relations]; exact h.rows, h.images⟩

theorem mem_worklist {db : Db} {r : Relation} :
    r ∈ semanticEdgeWorklist db p ↔ r ∈ db.relations.rows ∧ r.edge.Touches p ∧ r.active = true ∧ ¬ r.edge.Lineage := by
  simp only [semanticEdgeWorklist, List.mem_filter, Bool.and_eq_true, Relation.touches_iff, Bool.not_eq_true',
    Edge.Lineage, Bool.not_eq_true]
  constructor
  · rintro ⟨here, ⟨touches, active⟩, semantic⟩
    exact ⟨here, touches, active, semantic⟩
  · rintro ⟨here, touches, active, semantic⟩
    exact ⟨here, ⟨touches, active⟩, semantic⟩

theorem semantic_iff {r : Relation} : ¬ r.edge.Lineage ↔ isLineage r.predicate = false := (Bool.not_eq_true _).to_iff

/-- The ids the loop ends are those of the carried rows. -/
theorem movedIds_contains {db : Db} {isCore : Bool} {r : Relation} (member : r ∈ db.relations.rows)
    (apart : ∀ r ∈ db.relations.rows, ¬ r.edge.Lineage → ¬ r.edge.Touches n) :
    (movedIds isCore p n (semanticEdgeWorklist db p)).contains r.id = r.carried isCore p := by
  rw [Bool.eq_iff_iff, List.contains_iff_mem, movedIds, List.mem_map]
  simp only [List.mem_filter, mem_worklist, Relation.carried, Bool.and_eq_true, Relation.touches_iff, Bool.not_eq_true']
  constructor
  · rintro ⟨x, ⟨⟨here, touches, active, semantic⟩, moves⟩, same⟩
    obtain rfl := RelationTable.id_unique here member same
    rw [staysBehind_eq touches (apart x here semantic)] at moves
    exact ⟨⟨⟨touches, active⟩, semantic_iff.mp semantic⟩, moves⟩
  · rintro ⟨⟨⟨touches, active⟩, semantic⟩, moves⟩
    have plain := semantic_iff.mpr semantic
    rw [← staysBehind_eq touches (apart r member plain)] at moves
    exact ⟨r, ⟨⟨member, touches, active, plain⟩, moves⟩, rfl⟩

/-- The loop over the worklist of a table that has just gained a lineage row. -/
theorem repoints_substituted {db mid db' : Db} {isCore : Bool} {d : RelationDraft} {created : List Repointed}
    {free : ¬ db.relations.Holds d.edge} (lineage : d.edge.Lineage) (recorded : mid.relations = db.relations.push d free)
    (apart : ∀ r ∈ db.relations.rows, ¬ r.edge.Touches n)
    (h : Repoints isCore p n now (semanticEdgeWorklist mid p) created mid.relations db'.relations) :
    db.Substituted db' isCore p n now (d.row db.relations.next) created := by
  have members : ∀ r, r ∈ mid.relations.rows ↔ r ∈ db.relations.rows ∨ r = d.row db.relations.next := by
    intro r
    rw [recorded, RelationTable.mem_push]
  have apart' : ∀ r ∈ mid.relations.rows, ¬ r.edge.Lineage → ¬ r.edge.Touches n := by
    intro r member semantic
    rcases (members r).mp member with old | rfl
    · exact apart r old
    · exact absurd lineage semantic
  have ends : ∀ r ∈ mid.relations.rows,
      r.closeIf (fun r => (movedIds isCore p n (semanticEdgeWorklist mid p)).contains r.id) ⟨now, some now⟩ =
        r.closeIf (·.carried isCore p) ⟨now, some now⟩ := by
    intro r member
    simp only [Relation.closeIf, movedIds_contains member apart']
  have standing : (d.row db.relations.next).closeIf (·.carried isCore p) ⟨now, some now⟩ = d.row db.relations.next := by
    refine if_neg fun carried => ?_
    have listed : isLineage (d.row db.relations.next).predicate = true := lineage
    simp [Relation.carried, listed] at carried
  have rows : db'.relations.rows = db.relations.rows.map (·.closeIf (·.carried isCore p) ⟨now, some now⟩) ++
      d.row db.relations.next :: created.map (·.row now) := by
    rw [h.rows, List.map_congr_left ends, recorded]
    simp only [RelationTable.push, List.map_append, List.map_singleton, standing, List.append_assoc, List.singleton_append]
  have images : ∀ m ∈ created, ∃ r ∈ db.relations.rows, r.carried isCore p = true ∧ m.oldRelationId = r.id ∧
      m.edge = r.edge.repoint p n := by
    intro m member
    obtain ⟨r, listed, moves, old, edge⟩ := h.images m member
    obtain ⟨here, touches, active, semantic⟩ := mem_worklist.mp listed
    rw [staysBehind_eq touches (apart' r here semantic)] at moves
    have carried : r.carried isCore p = true := by
      have plain := semantic_iff.mp semantic
      simp [Relation.carried, Relation.touches_iff.mpr touches, active, plain, moves]
    rcases (members r).mp here with before | rfl
    · exact ⟨r, before, carried, old, edge⟩
    · exact absurd lineage semantic
  refine ⟨fun e semantic => ⟨?_, ?_⟩, rows, images⟩
  · rintro ⟨x, member, active, rfl⟩
    rw [rows] at member
    rcases List.mem_append.mp member with old | new
    · obtain ⟨r, here, rfl⟩ := List.mem_map.mp old
      rw [Relation.closeIf_active, Bool.and_eq_true, Bool.not_eq_true'] at active
      rw [Relation.closeIf_edge] at semantic ⊢
      refine ⟨r.edge, ⟨r, here, active.1, rfl⟩, semantic, ?_⟩
      by_cases stays : r.edge.staysOn isCore p = true
      · rw [if_pos stays]
      · rw [if_neg stays, Edge.repoint_of_not_touches]
        intro touches
        have plain := semantic_iff.mp semantic
        simp [Relation.carried, Relation.touches_iff.mpr touches, active.1, plain, stays] at active
    · rcases List.mem_cons.mp new with rfl | image
      · exact absurd lineage semantic
      · obtain ⟨m, chosen, rfl⟩ := List.mem_map.mp image
        obtain ⟨r, here, carried, _, edge⟩ := images m chosen
        simp only [Relation.carried, Bool.and_eq_true, Bool.not_eq_true'] at carried
        refine ⟨r.edge, ⟨r, here, carried.1.1.2, rfl⟩, semantic_iff.mpr carried.1.2, ?_⟩
        rw [if_neg (by simp [carried.2])]
        exact edge
  · rintro ⟨old, ⟨r, here, active, rfl⟩, plain, rfl⟩
    by_cases carried : r.carried isCore p = true
    · have facts := carried
      simp only [Relation.carried, Bool.and_eq_true, Bool.not_eq_true', Relation.touches_iff] at facts
      have listed : r ∈ semanticEdgeWorklist mid p := mem_worklist.mpr ⟨(members r).mpr (Or.inl here), facts.1.1.1, active, plain⟩
      rw [if_neg (by simp [facts.2])]
      refine h.holds r listed ?_
      rw [staysBehind_eq facts.1.1.1 (apart r here)]
      exact facts.2
    · have kept : r ∈ db'.relations.rows := by
        rw [rows]
        exact List.mem_append_left _ (List.mem_map.mpr ⟨r, here, if_neg carried⟩)
      refine ⟨r, kept, active, ?_⟩
      by_cases stays : r.edge.staysOn isCore p = true
      · rw [if_pos stays]
      · rw [if_neg stays, Edge.repoint_of_not_touches]
        intro touches
        have semantic := semantic_iff.mp plain
        simp [Relation.carried, Relation.touches_iff.mpr touches, active, semantic, stays] at carried

/-! ### The write transaction -/

theorem prepareReplacement_core {db : Db} {now : Instant} {request : ReplacementRequest} {plan : ReplacementPlan}
    (h : prepareReplacement env db now request = .ok plan) : plan.core = request.core := by
  obtain ⟨_, _, h⟩ := Checks.bind_ok h
  obtain ⟨_, _, h⟩ := Checks.bind_ok h
  obtain ⟨_, _, h⟩ := Checks.bind_ok h
  obtain ⟨_, _, h⟩ := Checks.bind_ok h
  obtain ⟨_, _, h⟩ := Checks.bind_ok h
  obtain ⟨_, _, h⟩ := Checks.bind_ok h
  obtain rfl := Except.ok.inj h
  rfl

/-- Without declared details an insert adds the lineage row to the relations and nothing else. -/
theorem replacementInsertEntity_bare {operation : Operation} {plan : ReplacementPlan} {newId : EntityId} {state : CoreState}
    {w w' : World Db Supply} {relationId : RelationId} (bare : state.coreDetailMemoryIds = [])
    (h : (replacementInsertEntity env plan operation newId state).run w = (.ok relationId, w')) :
    w.durable.entities.find newId = none ∧
      (∀ id, ((w'.durable.entities.find id).map (·.isCore)).getD false =
        if id = newId then state.isCore else ((w.durable.entities.find id).map (·.isCore)).getD false) ∧
      ∃ open_, w'.durable.relations = w.durable.relations.push (plan.lineageDraft operation newId) open_ := by
  obtain ⟨free, u, v, entity, relations, details, archived, open_, recorded, _⟩ := replacementInsertEntity_ok h
  have settled : v = u := by
    cases core : state.isCore with
    | false =>
      rw [core] at details
      exact ((Prod.mk.inj details).2).symm
    | true =>
      rw [core, bare] at details
      exact ((Prod.mk.inj details).2).symm
  subst settled
  refine ⟨free, fun id => ?_, relations ▸ open_, by rw [recorded]; simp only [relations]⟩
  rw [archived, entity, EntityTable.find_updateWhere, EntityTable.find_append]
  have kept : ∀ e : Entity, (e.setIf (fun e => e.id == plan.resolvedId && e.status == .raw) (·.archive plan.now)).isCore =
      e.isCore := by
    intro e
    unfold Entity.setIf
    split <;> rfl
  have fresh : (plan.row newId state).id = newId := rfl
  rw [fresh]
  by_cases same : id = newId
  · rw [if_pos same, if_pos same, Option.map_some, Option.map_some, kept]
    rfl
  · rw [if_neg same, if_neg same, Option.map_map]
    simp only [Function.comp_def, kept]

/-- What an accepted replacement that declares no details has done to the relations, for a plan prepared on any state
and a write transaction run on any other. -/
theorem replacement_substitutes (env : Env) (mode : Mode) (operation : Operation) (request : ReplacementRequest)
    (before : Db) (now : Instant) (plan : ReplacementPlan) (w w' : World Db Supply) (receipt : ReplacementReceipt)
    (prepared : prepareReplacement env before now request = .ok plan)
    (bare : request.core.detailMemoryIds.getD [] = []) (referenced : w.durable.Referenced)
    (ran : (writeTransactionRetrying mode (replacementWrite env operation plan request.repointRelations)).run w =
      (.ok receipt, w')) :
    ∃ lineage : Relation, lineage.edge = ⟨receipt.newId, operation.text, receipt.oldId⟩ ∧
      if request.repointRelations then
        w.durable.Substituted w'.durable (((w.durable.entities.find receipt.oldId).map (·.isCore)).getD false) receipt.oldId
          receipt.newId plan.now lineage receipt.repointedRelations
      else receipt.repointedRelations = [] ∧ w'.durable.relations.rows = w.durable.relations.rows ++ [lineage] := by
  obtain ⟨state, u, v, locked, start, settled, body, jobs⟩ := replacementWrite_ok (retrying_ok.mp ran)
  obtain ⟨target, found, raw, _⟩ := replacementLockedSource_ok locked
  generalize newId : env.uuid4 w.transient.draws = n at settled body
  have noDetails : state.coreDetailMemoryIds = [] := by
    rw [List.eq_nil_iff_forall_not_mem]
    intro id member
    have named := (resolveDerivedCoreState_details settled id member).2
    rw [prepareReplacement_core prepared, bare] at named
    simp [normalDetails] at named
  unfold replacementBody at body
  obtain ⟨relationId, x, inserted, rest⟩ := Txn.bind_ok body
  obtain ⟨fresh, cores, open_, recorded⟩ := replacementInsertEntity_bare noDetails inserted
  rw [start] at fresh
  have other : n ≠ plan.resolvedId := by
    rintro rfl
    simp [fresh] at found
  have apart := referenced.apart fresh
  rw [← start] at apart
  refine ⟨(plan.lineageDraft operation n).row w.durable.relations.next, ?_⟩
  cases repoint : request.repointRelations with
  | false =>
    rw [repoint] at rest
    obtain ⟨given, rfl⟩ := Prod.mk.inj rest
    obtain rfl := Except.ok.inj given
    refine ⟨rfl, rfl, ?_⟩
    rw [jobs.relations, recorded, ← start]
    rfl
  | true =>
    rw [repoint] at rest
    obtain ⟨progress, y, repointed, last⟩ := Txn.bind_ok rest
    obtain ⟨given, rfl⟩ := Prod.mk.inj last
    obtain rfl := Except.ok.inj given
    refine ⟨rfl, ?_⟩
    have isCore := cores plan.resolvedId
    rw [if_neg (Ne.symm other), start] at isCore
    unfold replacementRepointEdges at repointed
    rw [Tx.run_db_bind, isCore] at repointed
    have listed : x.durable.relations.Lists (semanticEdgeWorklist x.durable plan.resolvedId) := fun r member =>
      ⟨r, (mem_worklist.mp member).1, rfl, rfl⟩
    have touching : ∀ r ∈ semanticEdgeWorklist x.durable plan.resolvedId, r.edge.Touches plan.resolvedId := fun r member =>
      (mem_worklist.mp member).2.1
    obtain ⟨created, z, looped, _, repoints⟩ := repointEdges_run other ⟨[], []⟩ x listed touching
    rw [looped] at repointed
    obtain ⟨made, rfl⟩ := Prod.mk.inj repointed
    obtain rfl := Except.ok.inj made
    have substituted := repoints_substituted (lineageDraft_lineage plan operation n) recorded apart repoints
    rw [start] at substituted
    rw [if_pos rfl]
    exact substituted.jobs jobs

/-! A note that another one depends on, revised. -/

def linkedDb : Db :=
  { pairDb with relations := RelationTable.empty.push ⟨"first", "second", "depends_on", 0, some 0, some 0⟩ (by decide) }

def reviseSecond : ReplacementRequest :=
  { replacementRequest "second" "Second again" "second, revised" ["note"] undeclared with repointRelations := true }

/-- A replacement whose plan and write both succeed, with a check of what they answer. -/
theorem replacement_accepted {db : Db} {request : ReplacementRequest} {check : ReplacementReceipt → World Db Supply → Bool}
    (passes : ((prepareReplacement .plain db 0 request).toOption.map fun plan =>
      match (writeTransactionRetrying .direct (replacementWrite .plain .revises plan request.repointRelations)).run
          ⟨db, ⟨0, 0⟩⟩ with
      | (.ok receipt, w') => check receipt w'
      | (.error _, _) => false) = some true) :
    ∃ plan receipt w', prepareReplacement .plain db 0 request = .ok plan ∧
      (writeTransactionRetrying .direct (replacementWrite .plain .revises plan request.repointRelations)).run
        ⟨db, ⟨0, 0⟩⟩ = (.ok receipt, w') ∧ check receipt w' = true := by
  obtain ⟨plan, prepared, returned⟩ := Option.map_eq_some_iff.mp passes
  have planned : prepareReplacement .plain db 0 request = .ok plan := by
    cases result : prepareReplacement .plain db 0 request with
    | error e => simp [result, Except.toOption] at prepared
    | ok same =>
      rw [result] at prepared
      exact congrArg Except.ok (Option.some.inj prepared)
  split at returned
  · rename_i receipt w' ran
    exact ⟨plan, receipt, w', planned, ran, returned⟩
  · simp at returned

theorem reviseSecond_substitutes : linkedDb.Referenced ∧ ∃ (plan : ReplacementPlan) (receipt : ReplacementReceipt)
    (w' : World Db Supply) (lineage : Relation), lineage.edge = ⟨receipt.newId, "revises", receipt.oldId⟩ ∧
      linkedDb.Substituted w'.durable (((linkedDb.entities.find receipt.oldId).map (·.isCore)).getD false) receipt.oldId
        receipt.newId plan.now lineage receipt.repointedRelations := by
  have referenced : linkedDb.Referenced := by
    unfold Db.Referenced
    decide
  obtain ⟨plan, receipt, w', prepared, ran, _⟩ := replacement_accepted (by decide :
    ((prepareReplacement .plain linkedDb 0 reviseSecond).toOption.map fun plan =>
      match (writeTransactionRetrying .direct (replacementWrite .plain .revises plan reviseSecond.repointRelations)).run
          ⟨linkedDb, ⟨0, 0⟩⟩ with
      | (.ok _, _) => true
      | (.error _, _) => false) = some true)
  obtain ⟨lineage, edge, substituted⟩ := replacement_substitutes .plain .direct .revises reviseSecond linkedDb 0 plan
    ⟨linkedDb, ⟨0, 0⟩⟩ w' receipt prepared rfl referenced ran
  exact ⟨referenced, plan, receipt, w', lineage, edge, substituted⟩

end SaltMdb
