import SaltMdb.Store.Connection

/-! Tag names, their resolution to a tag row at write time, and the writers of `entity_tags`. -/

namespace SaltMdb
open Transactions

def coreTag : String := "#core"

/-! ### Names -/

def normalizeTagName (tagName : String) : String :=
  let name := Text.strip tagName
  if name = "" then name
  else if name.toList.head? = some '#' then name
  else "#" ++ name

/-- The first run of two or more separators. -/
def separatorRun : List Char → Option String
  | [] => none
  | c :: cs =>
    let run := (c :: cs).takeWhile fun c => !Text.isLowerAlnum c
    if 2 ≤ run.length then some (.ofList run) else separatorRun cs

def sanitizeTagBody (body : String) : Except String String :=
  match separatorRun body.toList with
  | some run => .error ("tag '#" ++ body ++ "' contains adjacent separator characters ('" ++ run ++
      "') -- this usually means a typo; check the intended tag name.")
  | none => .ok (.ofList (Text.stripEnds (· == '-') (Text.collapseRuns Text.isLowerAlnum '-' body.toList false)))

/-- `name[1:].lower()`. -/
def tagBody (name : String) : String := Text.lower (.ofList (name.toList.drop 1))

def validateTagNames (tags : List String) : Except String Unit :=
  tags.forM fun tag =>
    if Text.strip tag = "" then .ok ()
    else (sanitizeTagBody (tagBody (normalizeTagName tag))).map fun _ => ()

def isTagFiller (c : Char) : Bool := c == '-' || c == '_' || Text.isSpace c

/-- `re.sub(r"[-_\s]+", "", name.lower().lstrip("#"))`. -/
def normalizedTagKey (name : String) : String :=
  .ofList (((Text.lower name).toList.dropWhile (· == '#')).filter fun c => !isTagFiller c)

/-- The expression the normalised lookup computes from a stored name. -/
def computedTagKey (name : String) : String :=
  .ofList ((name.toList.filter fun c => c != '#' && c != '-' && c != '_').map Char.toLower)

def rstripS (s : String) : List Char := (s.toList.reverse.dropWhile (· == 's')).reverse

/-! ### Resolution -/

variable (env : Env)

def Tag.canonical (t : Tag) : TagId := t.canonicalId.getD t.id

def logTagIssue (agentId : Option String) (content : String) : Tx Unit :=
  logEvent env (Text.orDefault agentId "system") (.issue content)

/-- The body a name is resolved with: a rejected one loses every character a tag cannot have. -/
def resolutionBody (name : String) (agentId : Option String) : Tx String :=
  match sanitizeTagBody (tagBody name) with
  | .ok body => pure body
  | .error rejection => do
    logTagIssue env agentId ("Unexpected tag rejection reached resolve_or_create_tag (should have been caught " ++
      "pre-transaction): " ++ rejection)
    return .ofList ((tagBody name).toList.filter fun c => Text.isLowerAlnum c || c == '-')

def sanitizedName (name body : String) : String := if body = "" then name else "#" ++ body

def logSanitized (agentId : Option String) (name sanitized : String) : Tx Unit :=
  if sanitized = name then pure ()
  else logTagIssue env agentId ("Tag name sanitized during resolve_or_create_tag: '" ++ name ++ "' -> '" ++ sanitized ++ "'")

def sanitizeResolutionName (name : String) (agentId : Option String) : Tx String := do
  let body ← resolutionBody env name agentId
  logSanitized env agentId name (sanitizedName name body)
  return sanitizedName name body

def TagTable.fetchNormalized (T : TagTable) (key : String) : Option Tag :=
  T.tags.find? fun t => t.normalizedName == some key || computedTagKey t.name == key

/-- A row's own normalised form, computed from its name where the column is empty. -/
def Tag.key (t : Tag) : String :=
  match t.normalizedName with
  | some key => if key = "" then normalizedTagKey t.name else key
  | none => normalizedTagKey t.name

def TagTable.fetchPlural (T : TagTable) (key : String) : Option Tag :=
  if key.length ≤ 3 then none
  else T.tags.find? fun t => decide (3 < t.key.length) && rstripS key == rstripS t.key

/-- The row a sanitised name resolves to: the exact name, then the normalised form, then the plural. -/
def TagTable.resolve (T : TagTable) (name : String) : Option TagId :=
  let key := normalizedTagKey name
  (((T.fetchName name).or (T.fetchNormalized key)).or (T.fetchPlural key)).map (·.canonical)

def resolveOrCreateTag (tagName : String) (agentId : Option String) : Tx (Option TagId) := do
  let name := normalizeTagName tagName
  if name = "" ∨ name = "#" then return none
  let name ← sanitizeResolutionName env name agentId
  if name = "" ∨ name = "#" then return none
  let db ← Tx.db
  match db.tags.resolve name with
  | some id => return some id
  | none =>
    match db.tags.insert name (normalizedTagKey name) with
    | none => throw (.integrityError "UNIQUE constraint failed: tags.name")
    | some inserted =>
      Tx.setTags fun _ => inserted
      return some db.tags.next

/-! ### Writers -/

/-- `INSERT OR IGNORE INTO entity_tags` for a tag that resolved. -/
def linkTag (entityId : EntityId) (tag : Option TagId) : Tx Unit :=
  match tag with
  | some id => Tx.setTags (·.link entityId id)
  | none => pure ()

def deleteRawTags (entityId : EntityId) (tags : Option (List String)) : Tx Unit :=
  match tags with
  | some _ => Tx.setTags (·.unlinkWhere (·.1 == entityId))
  | none => pure ()

/-- One submitted tag; equal keys are resolved once per call. -/
def writeRawTag (entityId : EntityId) (agentId : Option String) (lookup : List (String × TagId)) (tag : String) :
    Tx (List (String × TagId)) := do
  let name := Text.strip tag
  if name = "" then return lookup
  let key := normalizedTagKey name
  match lookup.lookup key with
  | some id =>
    linkTag entityId (some id)
    return lookup
  | none =>
    match ← resolveOrCreateTag env name agentId with
    | none => return lookup
    | some id =>
      linkTag entityId (some id)
      return lookup ++ [(key, id)]

def writeRawTagList (entityId : EntityId) (agentId : Option String) : List String → List (String × TagId) → Tx Unit
  | [], _ => pure ()
  | tag :: rest, lookup => do
    let lookup ← writeRawTag env entityId agentId lookup tag
    writeRawTagList entityId agentId rest lookup

def writeRawTags (entityId : EntityId) (tags : Option (List String)) (agentId : Option String) : Tx Unit :=
  match tags with
  | none => pure ()
  | some tags => writeRawTagList env entityId agentId tags []

/-- `is_core` is the source of truth and `#core` the label derived from it. -/
def syncRawCoreTag (entityId : EntityId) (agentId : Option String) : Tx Unit := do
  let db ← Tx.db
  let isCore := ((db.entities.find entityId).map (·.isCore)).getD false
  match ← resolveOrCreateTag env coreTag agentId with
  | none => return ()
  | some id =>
    if isCore then Tx.setTags (·.link entityId id)
    else Tx.setTags (·.unlinkWhere (· == (entityId, id)))

/-- The key under which a replacement's explicit tags count as the same. -/
def replacementTagKey (name : String) : String :=
  .ofList (((Text.lower name).toList.dropWhile (· == '#')).filter fun c => c != '-' && c != '_' && c != ' ')

def insertReplacementTags (entityId : EntityId) (agentId : Option String) : List String → List String → Tx Unit
  | [], _ => pure ()
  | tag :: rest, seen => do
    let name := Text.strip tag
    let key := replacementTagKey name
    if key ∈ seen then insertReplacementTags entityId agentId rest seen
    else do
      linkTag entityId (← resolveOrCreateTag env name agentId)
      insertReplacementTags entityId agentId rest (key :: seen)

/-- The tags of a derived memory, each resolved and linked. -/
def insertTags (entityId : EntityId) (agentId : Option String) (tags : List String) : Tx Unit :=
  Txn.forEach (fun tag => do linkTag entityId (← resolveOrCreateTag env tag agentId)) tags

/-- `INSERT OR IGNORE` of the core label of a new core memory. -/
def linkCoreTag (entityId : EntityId) (agentId : Option String) : Tx Unit := do
  linkTag entityId (← resolveOrCreateTag env coreTag agentId)

/-- The names of an entity's tags, sorted, without the core label. -/
def listEntityTags (db : Db) (entityId : EntityId) : List String :=
  ((db.tags.tags.filter fun t => db.tags.links.contains (entityId, t.id) && t.name != coreTag).map (·.name)).mergeSort
    fun a b => decide (a ≤ b)

end SaltMdb
