import SaltMdb.Tag.Resolve

/-! Tag merges: the explicit one, and the librarian's merge of tags that are spelled alike. -/

namespace SaltMdb
open Transactions

/-- The links of the alias move to the canonical tag; where both stood, one stays. -/
def TagTable.mergeInto (T : TagTable) (canonical alias_ : TagId) : TagTable :=
  let marked := T.setCanonical alias_ canonical
  marked.setLinks ((marked.links.filter fun l => l.2 != alias_ || !marked.links.contains (l.1, canonical)).map fun l =>
    if l.2 = alias_ then (l.1, canonical) else l)

/-- `_resolve_tag_id`. -/
def TagTable.resolveId (T : TagTable) (tagName : String) : Option TagId :=
  if tagName = "" then none
  else
    let name := normalizeTagName tagName
    (T.tags.find? fun t => t.name.toList.map Char.toLower == name.toList.map Char.toLower).map (·.canonical)

structure MergeReceipt where
  merged : List String
  skipped : List (String × String)
  canonicalTag : String
deriving DecidableEq, Repr

def mergeTag (canonical : TagId) (report : List String × List (String × String)) (name : String) :
    Tx (List String × List (String × String)) := do
  let db ← Tx.db
  match db.tags.resolveId name with
  | none => return (report.1, report.2 ++ [(name, "not found")])
  | some alias_ =>
    if alias_ = canonical then return (report.1, report.2 ++ [(name, "already canonical")])
    else
      Tx.setTags (·.mergeInto canonical alias_)
      return (report.1 ++ [name], report.2)

def mergeTagList (canonical : TagId) : List String → List String × List (String × String) →
    Tx (List String × List (String × String))
  | [], report => pure report
  | name :: rest, report => do
    let report ← mergeTag canonical report name
    mergeTagList canonical rest report

def missingKeepTag (keepTag : String) : Error :=
  fieldError notFound ("keep_tag '" ++ keepTag ++ "' does not exist in the tags table.") "keep_tag"

def mergeTags (mode : Mode) (keepTag : String) (tagsToMerge : List String) : Tx (Envelope MergeReceipt) := do
  let db ← Tx.db
  match db.tags.resolveId keepTag with
  | none => return .rejected [missingKeepTag keepTag]
  | some canonical =>
    let report ← writeTransactionRetrying mode (mergeTagList canonical tagsToMerge ([], []))
    return .ok ⟨report.1, report.2, keepTag⟩ []

/-! ### The librarian's pass -/

/-- `name.lower().strip()` without separators and hashes. -/
def heuristicKey (name : String) : String :=
  .ofList ((Text.strip (Text.lower name)).toList.filter fun c => c != '-' && c != '_' && c != '#')

/-- The tags that were not merged yet, the first of each spelling with the later ones of it. -/
def tagGroups : List Tag → Nat → List (Tag × List Tag)
  | [], _ => []
  | _ :: _, 0 => []
  | t :: rest, fuel + 1 =>
    (t, rest.filter fun u => heuristicKey u.name == heuristicKey t.name) ::
      tagGroups (rest.filter fun u => heuristicKey u.name != heuristicKey t.name) fuel

def TagTable.mergeGroups (T : TagTable) : TagTable :=
  let open_ := T.tags.filter (·.canonicalId.isNone)
  (tagGroups open_ open_.length).foldl (fun U group =>
    group.2.foldl (fun V alias_ => V.mergeInto group.1.id alias_.id) U) T

def mergeTagsHeuristics (mode : Mode) : Tx Unit :=
  writeTransactionRetrying mode (Tx.setTags TagTable.mergeGroups)

end SaltMdb
