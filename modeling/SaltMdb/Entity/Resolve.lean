import SaltMdb.Store.Connection

/-! Resolution of what a caller writes for a memory: an id, a text with a UUID in it, a title or a short
hex prefix. -/

namespace SaltMdb

def isHex (c : Char) : Bool :=
  ('0' ≤ c && c ≤ '9') || ('a' ≤ c && c ≤ 'f') || ('A' ≤ c && c ≤ 'F')

/-- The characters of the pattern `8-4-4-4-12`, a dash being the only other one. -/
def uuidShape : List Bool :=
  List.replicate 8 true ++ false :: List.replicate 4 true ++ false :: List.replicate 4 true ++
    false :: List.replicate 4 true ++ false :: List.replicate 12 true

def matchesShape : List Bool → List Char → Bool
  | [], _ => true
  | _ :: _, [] => false
  | hex :: shape, c :: cs => (if hex then isHex c else c == '-') && matchesShape shape cs

/-- `UUID_REGEX.fullmatch`, and `_UUID_RE.match` on a stripped text. -/
def isUuid (s : String) : Bool := s.toList.length == 36 && matchesShape uuidShape s.toList

variable (env : Env)

/-- `UUID_REGEX.search`: the leftmost match between word boundaries. -/
def searchUuidFrom : List Char → Bool → Option (List Char)
  | [], _ => none
  | c :: cs, afterWord =>
    if !afterWord && matchesShape uuidShape (c :: cs) && !((((c :: cs).drop 36).head?.map env.isWordChar).getD false)
    then some ((c :: cs).take 36)
    else searchUuidFrom cs (env.isWordChar c)

def searchUuid (s : String) : Option String := (searchUuidFrom env s.toList false).map .ofList

/-- The latest of the rows, the first of them among equals. -/
def latest : List Entity → Option Entity
  | [] => none
  | e :: es =>
    match latest es with
    | none => some e
    | some other => if e.updatedAt < other.updatedAt then some other else some e

def resolveEntityId (db : Db) (inputVal : String) : String :=
  let input := Text.strip inputVal
  if inputVal = "" then inputVal
  else if (db.entities.find input).isSome then input
  else if isUuid input then input
  else match searchUuid env input with
    | some id => id
    | none =>
      match latest (db.entities.rows.filter fun e => e.title == input && e.live) with
      | some e => e.id
      | none => input

/-- `agent_id = ? OR scope = 'shared'`, when an agent is given. -/
def visibleTo (agentId : Option String) (e : Entity) : Bool :=
  match agentId with
  | none => true
  | some agent => e.agentId == some agent || e.scope == .shared

structure PrefixMatch where
  resolved : Option EntityId
  candidates : List Entity
  truncated : Bool

def resolveIdPrefix (db : Db) (idPrefix : String) (agentId : Option String) : PrefixMatch :=
  let p := (Text.strip idPrefix).toList
  let hexOnly := p.filter (· != '-')
  if !(8 ≤ hexOnly.length && hexOnly.length < 32) || !(p.length ≤ 36 && p.all fun c => isHex c || c == '-') then
    ⟨none, [], false⟩
  else
    let rows := (db.entities.rows.filter fun e =>
      (p.map Char.toLower).isPrefixOf (e.id.toList.map Char.toLower) && visibleTo agentId e).take 21
    match rows with
    | [] => ⟨none, [], false⟩
    | [e] => ⟨some e.id, [], false⟩
    | _ => ⟨none, (rows.mergeSort fun a b => b.updatedAt ≤ a.updatedAt).take 20, 20 < rows.length⟩

def resolveVisibleTitle (db : Db) (rawId : String) (agentId : Option String) : Option EntityId :=
  match agentId with
  | none => none
  | some _ =>
    (latest (db.entities.rows.filter fun e => e.title == rawId && e.live && visibleTo agentId e)).map (·.id)

/-- `resolve_entity_ref`: what resolves is the id of a row. -/
def resolveEntityRef (db : Db) (rawId : String) (agentId : Option String) : PrefixMatch :=
  if rawId = "" then ⟨none, [], false⟩
  else match (db.entities.find (resolveEntityId env db rawId)).filter (visibleTo agentId) with
    | some e => ⟨some e.id, [], false⟩
    | none =>
      match resolveVisibleTitle db rawId agentId with
      | some id => ⟨some id, [], false⟩
      | none => resolveIdPrefix db rawId agentId

/-- References are read from the entities alone. -/
theorem resolveEntityRef_congr {db db' : Db} (same : db'.entities = db.entities) :
    resolveEntityRef env db' = resolveEntityRef env db := by
  funext raw agent
  simp only [resolveEntityRef, resolveEntityId, resolveVisibleTitle, resolveIdPrefix, same]

/-- What both resolvers rely on: a resolved reference names a row. -/
theorem resolveIdPrefix_exists {db : Db} {raw : String} {agent : Option String} {id : EntityId}
    (h : (resolveIdPrefix db raw agent).resolved = some id) : ∃ e ∈ db.entities.rows, e.id = id := by
  unfold resolveIdPrefix at h
  dsimp only at h
  split at h
  · simp at h
  · split at h
    · simp at h
    · rename_i e rows
      have member : e ∈ ([e] : List Entity) := List.mem_singleton_self e
      rw [← rows] at member
      exact ⟨e, (List.mem_filter.mp (List.mem_of_mem_take member)).1, Option.some.inj h⟩
    · simp at h

theorem latest_mem {es : List Entity} {e : Entity} (h : latest es = some e) : e ∈ es := by
  induction es generalizing e with
  | nil => simp [latest] at h
  | cons head rest ih =>
    simp only [latest] at h
    split at h
    · obtain rfl := Option.some.inj h
      exact List.mem_cons_self
    · rename_i other found
      split at h
      · obtain rfl := Option.some.inj h
        exact List.mem_cons_of_mem _ (ih found)
      · obtain rfl := Option.some.inj h
        exact List.mem_cons_self

theorem resolveEntityRef_exists {db : Db} {raw : String} {agent : Option String} {id : EntityId}
    (h : (resolveEntityRef env db raw agent).resolved = some id) : ∃ e, db.entities.find id = some e := by
  unfold resolveEntityRef at h
  split at h
  · simp at h
  · split at h
    · rename_i e found
      obtain rfl := Option.some.inj h
      have here := (EntityTable.find_some (Option.filter_eq_some_iff.mp found).1).1
      exact ⟨e, EntityTable.find_mem here⟩
    · split at h
      · rename_i found
        obtain rfl := Option.some.inj h
        unfold resolveVisibleTitle at found
        split at found
        · simp at found
        · obtain ⟨e, here, rfl⟩ := Option.map_eq_some_iff.mp found
          exact ⟨e, EntityTable.find_mem (List.mem_filter.mp (latest_mem here)).1⟩
      · obtain ⟨e, here, rfl⟩ := resolveIdPrefix_exists h
        exact ⟨e, EntityTable.find_mem here⟩

end SaltMdb
