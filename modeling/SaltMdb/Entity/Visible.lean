import SaltMdb.Entity.Resolve
import SaltMdb.Library.Views
import SaltMdb.Schema.Fresh

/-! Which references tell an agent nothing of the memories that it cannot see. -/

namespace SaltMdb
open Views

variable {env : Env}

/-- The memories an agent can see, in the order of the rows. -/
def Db.visibleRows (db : Db) (agent : String) : List Entity := db.entities.rows.filter (visibleTo (some agent))

/-! ### The steps that look at visible rows alone -/

theorem latest_none {es : List Entity} (h : latest es = none) : es = [] := by
  cases es with
  | nil => rfl
  | cons head rest =>
    simp only [latest] at h
    split at h
    · simp at h
    · split at h <;> simp at h

theorem latest_le {es : List Entity} {top e : Entity} (h : latest es = some top) (member : e ∈ es) :
    e.updatedAt ≤ top.updatedAt := by
  induction es generalizing top with
  | nil => simp at member
  | cons head rest ih =>
    simp only [latest] at h
    split at h
    · rename_i empty
      obtain rfl := Option.some.inj h
      rw [latest_none empty, List.mem_singleton] at member
      exact Int.le_of_eq (congrArg (·.updatedAt) member)
    · rename_i other found
      split at h
      · rename_i below
        obtain rfl := Option.some.inj h
        rcases List.mem_cons.mp member with rfl | later
        · exact Int.le_of_lt below
        · exact ih found later
      · rename_i notBelow
        obtain rfl := Option.some.inj h
        rcases List.mem_cons.mp member with rfl | later
        · exact Int.le_refl _
        · exact Int.le_trans (ih found later) (Int.not_lt.mp notBelow)

/-- The latest row is the latest of any selection that it belongs to. -/
theorem latest_filter {es : List Entity} {top : Entity} (h : latest es = some top) {sel : Entity → Bool} (selected : sel top = true) :
    latest (es.filter sel) = some top := by
  induction es with
  | nil => simp [latest] at h
  | cons head rest ih =>
    have whole := h
    simp only [latest] at h
    split at h
    · rename_i empty
      obtain rfl := Option.some.inj h
      rw [latest_none empty, List.filter_cons_of_pos selected]
      rfl
    · rename_i other found
      split at h
      · rename_i below
        obtain rfl := Option.some.inj h
        have kept := ih found
        by_cases headToo : sel head = true
        · rw [List.filter_cons_of_pos headToo]
          simp only [latest, kept, if_pos below]
        · rw [List.filter_cons_of_neg headToo, kept]
      · rename_i notBelow
        obtain rfl := Option.some.inj h
        rw [List.filter_cons_of_pos selected]
        cases later : latest (rest.filter sel) with
        | none => simp only [latest, later]
        | some next =>
          have bound := latest_le whole (List.mem_cons_of_mem head (List.mem_filter.mp (latest_mem later)).1)
          simp only [latest, later, if_neg (Int.not_lt.mpr bound)]

variable {agent raw : String} {db : Db}

theorem resolveVisibleTitle_secure : SecureAt (Db.visibleRows · agent) (resolveVisibleTitle · raw (some agent)) db := by
  refine secureAt_of_factors (fun rows => (latest (rows.filter fun e => e.title == raw && e.live)).map (·.id)) fun db => ?_
  unfold resolveVisibleTitle Db.visibleRows
  rw [List.filter_filter]

theorem resolveIdPrefix_secure : SecureAt (Db.visibleRows · agent) (resolveIdPrefix · raw (some agent)) db := by
  intro other same
  have rows : ∀ starts : Entity → Bool, other.entities.rows.filter (fun e => starts e && visibleTo (some agent) e) =
      db.entities.rows.filter fun e => starts e && visibleTo (some agent) e := by
    intro starts
    rw [← List.filter_filter, ← List.filter_filter]
    exact congrArg (List.filter starts) same
  unfold resolveIdPrefix
  dsimp only
  rw [rows]

/-- What is left of a reference that the first step did not settle: the title among the visible rows, then the short
id. -/
def resolveVisibleRef (db : Db) (rawId : String) (agent : String) : PrefixMatch :=
  match resolveVisibleTitle db rawId (some agent) with
  | some id => ⟨some id, [], false⟩
  | none => resolveIdPrefix db rawId (some agent)

theorem resolveVisibleRef_secure : SecureAt (Db.visibleRows · agent) (resolveVisibleRef · raw agent) db := by
  intro other same
  unfold resolveVisibleRef
  have titles : resolveVisibleTitle other raw (some agent) = resolveVisibleTitle db raw (some agent) := resolveVisibleTitle_secure other same
  dsimp only
  rw [titles]
  have prefixes : resolveIdPrefix other raw (some agent) = resolveIdPrefix db raw (some agent) := resolveIdPrefix_secure other same
  rw [prefixes]

/-! ### The step that looks at every row -/

theorem visible_find_iff {id : EntityId} {e : Entity} :
    (db.entities.find id).filter (visibleTo (some agent)) = some e ↔ e ∈ db.visibleRows agent ∧ e.id = id := by
  rw [Option.filter_eq_some_iff, EntityTable.find_iff, Db.visibleRows, List.mem_filter]
  exact and_right_comm

/-- The visible row that the text names by a UUID in it or by a title, where it is not an id itself. -/
def namedVisible (env : Env) (db : Db) (rawId : String) (agent : String) : Option Entity :=
  let input := Text.strip rawId
  if isUuid input then none
  else match searchUuid env input with
    | some id => (db.entities.find id).filter (visibleTo (some agent))
    | none => latest ((db.visibleRows agent).filter fun e => e.title == input && e.live)

theorem namedVisible_secure : SecureAt (Db.visibleRows · agent) (namedVisible env · raw agent) db := by
  intro other same
  dsimp only at same
  unfold namedVisible
  dsimp only
  split
  · rfl
  · split
    · apply Option.ext
      intro e
      rw [visible_find_iff, visible_find_iff, same]
    · rw [same]

/-- What the first step settles on. -/
def resolveExisting (env : Env) (db : Db) (rawId : String) (agent : String) : Option Entity :=
  (db.entities.find (resolveEntityId env db rawId)).filter (visibleTo (some agent))

theorem resolveEntityRef_cases (given : raw ≠ "") : resolveEntityRef env db raw (some agent) =
    match resolveExisting env db raw agent with
    | some e => ⟨some e.id, [], false⟩
    | none => resolveVisibleRef db raw agent := by
  unfold resolveEntityRef
  rw [if_neg given]
  rfl

/-- An id of the table settles the step, seen or not. -/
theorem resolveExisting_taken (given : raw ≠ "") {row : Entity} (taken : db.entities.find (Text.strip raw) = some row) :
    resolveExisting env db raw agent = (some row).filter (visibleTo (some agent)) := by
  unfold resolveExisting resolveEntityId
  rw [if_neg given, taken]
  dsimp only [Option.isSome_some]
  rw [if_pos rfl, taken]

theorem resolveEntityId_free (given : raw ≠ "") (free : db.entities.find (Text.strip raw) = none) :
    resolveEntityId env db raw =
      if isUuid (Text.strip raw) then Text.strip raw
      else match searchUuid env (Text.strip raw) with
        | some id => id
        | none =>
          match latest (db.entities.rows.filter fun e => e.title == Text.strip raw && e.live) with
          | some e => e.id
          | none => Text.strip raw := by
  unfold resolveEntityId
  dsimp only
  rw [if_neg given, free]
  by_cases shaped : isUuid (Text.strip raw) = true
  · simp only [if_pos shaped, ite_self]
  · cases searchUuid env (Text.strip raw) with
    | some id => simp only [if_neg shaped, Option.isSome_none, if_neg Bool.false_ne_true]
    | none =>
      cases latest (db.entities.rows.filter fun e => e.title == Text.strip raw && e.live) <;>
        simp only [if_neg shaped, Option.isSome_none, if_neg Bool.false_ne_true]

/-- Of a text that is no id, whatever the first step settles on is the visible row that the text names. -/
theorem resolveExisting_named (given : raw ≠ "") (free : db.entities.find (Text.strip raw) = none) {e : Entity}
    (settled : resolveExisting env db raw agent = some e) : namedVisible env db raw agent = some e := by
  unfold resolveExisting at settled
  rw [resolveEntityId_free given free] at settled
  unfold namedVisible
  dsimp only
  split at settled
  · rw [free] at settled
    simp at settled
  · rename_i shapeless
    rw [if_neg shapeless]
    split at settled
    · exact settled
    · split at settled
      · rename_i top titled
        have here := (List.mem_filter.mp (latest_mem titled)).1
        obtain ⟨found, visible⟩ := Option.filter_eq_some_iff.mp settled
        obtain rfl := Option.some.inj ((EntityTable.find_mem here).symm.trans found)
        have kept := latest_filter titled visible
        rwa [List.filter_filter, List.filter_congr fun x _ => Bool.and_comm _ _, ← List.filter_filter] at kept
      · rw [free] at settled
        simp at settled

/-! ### Databases that look alike -/

/-- The database without the rows that the agent cannot see. -/
def EntityTable.restrict (T : EntityTable) (agent : String) : EntityTable where
  rows := T.rows.filter (visibleTo (some agent))
  distinct := T.distinct.filter _

def Db.restrict (db : Db) (agent : String) : Db := { db with entities := db.entities.restrict agent }

theorem restrict_visibleRows : (db.restrict agent).visibleRows agent = db.visibleRows agent := by
  unfold Db.visibleRows Db.restrict EntityTable.restrict
  rw [List.filter_filter]
  simp only [Bool.and_self]

/-- With nothing unseen in it the step settles on the row that the text names. -/
theorem resolveExisting_restrict (given : raw ≠ "") (unseen : ∀ e ∈ db.visibleRows agent, e.id ≠ Text.strip raw) {e : Entity}
    (named : namedVisible env db raw agent = some e) : resolveExisting env (db.restrict agent) raw agent = some e := by
  have free : (db.restrict agent).entities.find (Text.strip raw) = none := EntityTable.find_none.mpr unseen
  have member : e ∈ db.visibleRows agent ∧ resolveEntityId env (db.restrict agent) raw = e.id := by
    rw [resolveEntityId_free given free]
    unfold namedVisible at named
    dsimp only at named
    split at named
    · simp at named
    · rename_i shapeless
      rw [if_neg shapeless]
      split at named
      · obtain ⟨member, rfl⟩ := visible_find_iff.mp named
        exact ⟨member, rfl⟩
      · refine ⟨(List.mem_filter.mp (latest_mem named)).1, ?_⟩
        have rows : (db.restrict agent).entities.rows = db.visibleRows agent := rfl
        rw [rows, named]
  unfold resolveExisting
  rw [member.2]
  refine visible_find_iff.mpr ⟨?_, rfl⟩
  rw [restrict_visibleRows]
  exact member.1

/-- A memory of nobody's that takes the id. -/
def strangerRow (id : EntityId) : Entity := { memoryRow id "stranger" "" with agentId := none, scope := .private_ }

theorem stranger_unseen (id : EntityId) : visibleTo (some agent) (strangerRow id) = false := rfl

/-- With a stranger under the very text of the reference the step settles on nothing. -/
theorem resolveExisting_stranger (given : raw ≠ "") (free : (db.restrict agent).entities.find (strangerRow (Text.strip raw)).id = none) :
    resolveExisting env { db with entities := (db.restrict agent).entities.append (strangerRow (Text.strip raw)) free } raw agent =
      none := by
  have taken : ((db.restrict agent).entities.append (strangerRow (Text.strip raw)) free).find (Text.strip raw) =
      some (strangerRow (Text.strip raw)) := by
    rw [EntityTable.find_append]
    exact if_pos rfl
  rw [resolveExisting_taken given taken, Option.filter_some, stranger_unseen]
  rfl

/-! ### References that tell nothing -/

/-- The reference is the id of a visible memory, or what its text names among the visible memories is also what the
visible titles and short ids give. -/
def Undisturbed (env : Env) (db : Db) (raw agent : String) : Prop :=
  raw = "" ∨ (∃ e ∈ db.visibleRows agent, e.id = Text.strip raw) ∨
    ∀ e ∈ namedVisible env db raw agent, resolveVisibleRef db raw agent = ⟨some e.id, [], false⟩

/-- An unpadded title without a UUID in it is not disturbed. -/
theorem undisturbed_title (stripped : Text.strip raw = raw) (noUuid : searchUuid env raw = none) : Undisturbed env db raw agent := by
  refine .inr (.inr fun e named => ?_)
  unfold namedVisible at named
  rw [stripped, Option.mem_def] at named
  dsimp only at named
  split at named
  · simp at named
  · rw [noUuid] at named
    dsimp only at named
    unfold resolveVisibleRef resolveVisibleTitle
    dsimp only
    have rows : (db.entities.rows.filter fun e => e.title == raw && e.live && visibleTo (some agent) e) =
        (db.visibleRows agent).filter fun e => e.title == raw && e.live := by
      unfold Db.visibleRows
      rw [List.filter_filter]
    rw [rows, named]
    rfl

/-- A reference resolves alike in all databases with the same visible memories exactly where it is not disturbed. -/
theorem resolveEntityRef_secure_iff (env : Env) (agent raw : String) (db : Db) :
    SecureAt (Db.visibleRows · agent) (resolveEntityRef env · raw (some agent)) db ↔ Undisturbed env db raw agent := by
  by_cases given : raw = ""
  · have empty : ∀ d : Db, resolveEntityRef env d raw (some agent) = ⟨none, [], false⟩ := fun d => if_pos given
    exact iff_of_true (secureAt_of_factors (fun _ => ⟨none, [], false⟩) empty) (.inl given)
  by_cases visible : ∃ e ∈ db.visibleRows agent, e.id = Text.strip raw
  · refine iff_of_true (fun other same => ?_) (.inr (.inl visible))
    obtain ⟨e, member, named⟩ := visible
    have settled : ∀ d : Db, d.visibleRows agent = db.visibleRows agent → resolveEntityRef env d raw (some agent) = ⟨some e.id, [], false⟩ := by
      intro d same
      have found := visible_find_iff.mpr ⟨same ▸ member, named⟩
      obtain ⟨taken, seen⟩ := Option.filter_eq_some_iff.mp found
      rw [resolveEntityRef_cases given, resolveExisting_taken given taken, Option.filter_some, if_pos seen]
    exact (settled other same).trans (settled db rfl).symm
  · have unseen : ∀ e ∈ db.visibleRows agent, e.id ≠ Text.strip raw := fun e member named => visible ⟨e, member, named⟩
    unfold Undisturbed
    rw [or_iff_right given, or_iff_right visible]
    constructor
    · intro secure e named
      have free : (db.restrict agent).entities.find (strangerRow (Text.strip raw)).id = none := EntityTable.find_none.mpr unseen
      have looks : ({ db with entities := (db.restrict agent).entities.append (strangerRow (Text.strip raw)) free } : Db).visibleRows
          agent = db.visibleRows agent := by
        rw [show db.visibleRows agent = (db.restrict agent).visibleRows agent from restrict_visibleRows.symm]
        unfold Db.visibleRows EntityTable.append
        rw [List.filter_append, List.filter_cons_of_neg (by rw [stranger_unseen]; simp), List.filter_nil, List.append_nil]
      have both := secure.unique restrict_visibleRows looks
      rw [resolveEntityRef_cases given, resolveEntityRef_cases given, resolveExisting_restrict given unseen named,
        resolveExisting_stranger given free] at both
      dsimp only at both
      rw [both]
      exact (resolveVisibleRef_secure _ looks).symm
    · intro agrees
      have later : SecureAt (Db.visibleRows · agent) (resolveVisibleRef · raw agent) db := resolveVisibleRef_secure
      refine later.of_eq fun other same => ?_
      rw [resolveEntityRef_cases given]
      cases settled : resolveExisting env other raw agent with
      | none => rfl
      | some e =>
        have free : other.entities.find (Text.strip raw) = none := by
          cases taken : other.entities.find (Text.strip raw) with
          | none => rfl
          | some row =>
            rw [resolveExisting_taken given taken] at settled
            have found := visible_find_iff.mp (taken ▸ settled)
            exact absurd found.2 (unseen e (same ▸ found.1))
        have named := resolveExisting_named given free settled
        rw [show namedVisible env other raw agent = namedVisible env db raw agent from namedVisible_secure other same] at named
        rw [show resolveVisibleRef other raw agent = resolveVisibleRef db raw agent from resolveVisibleRef_secure other same]
        exact (agrees e named).symm

/-! ### A title that is asked for with a space -/

def notesRow : Entity := memoryRow "note" "Release notes" "what changed"

def privateNotesRow : Entity := { memoryRow "other" "Release notes" "mine" with agentId := some "other", scope := .private_, updatedAt := 1 }

def notesDb : Db := { Db.init with entities := ⟨[notesRow], by decide⟩ }

def crowdedNotesDb : Db := { Db.init with entities := ⟨[notesRow, privateNotesRow], by decide⟩ }

/-- A newer private memory of the same title takes the padded reference, and the title is not looked for again. -/
theorem paddedTitle_disturbed : ¬ ∀ (env : Env) (agent raw : String) (d d' : Db), d.visibleRows agent = d'.visibleRows agent →
    resolveEntityRef env d raw (some agent) = resolveEntityRef env d' raw (some agent) := by
  intro always
  have same := always .plain "agent" " Release notes" notesDb crowdedNotesDb rfl
  have resolved : (resolveEntityRef .plain notesDb " Release notes" (some "agent")).resolved = some "note" ∧
      (resolveEntityRef .plain crowdedNotesDb " Release notes" (some "agent")).resolved = none := by
    decide
  rw [← same, resolved.1] at resolved
  exact absurd resolved.2 (by simp)

end SaltMdb
