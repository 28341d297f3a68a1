import SaltMdb.Tag.Merge

/-! The tags filter of a search: each name stands for the alias groups of the tags that are spelled like it. -/

namespace SaltMdb

/-- SQLite's `lower`, which knows the ASCII letters only. -/
def sqlLower (s : String) : List Char := s.toList.map Char.toLower

inductive TagOperator where
  | and_
  | or_
deriving DecidableEq, Repr

namespace TagTable

/-- A tag with its canonical tag and all that are merged into that one. -/
def aliasGroup (T : TagTable) (t : Tag) : List TagId :=
  [t.id, t.canonical] ++ (T.tags.filter fun u => u.canonicalId == some t.canonical).map (·.id)

def expandSearchTag (T : TagTable) (name : String) : List TagId :=
  (T.tags.filter fun t => sqlLower t.name == sqlLower name).flatMap T.aliasGroup

def searchTagGroups (T : TagTable) (tagsFilter : List String) : List (String × List TagId) :=
  ((tagsFilter.filter fun t => Text.strip t ≠ "").map normalizeTagName).map fun name => (name, T.expandSearchTag name)

/-- `et.entity_id IN (…)` over the links whose tag passes. -/
def linkedTo (T : TagTable) (entityId : EntityId) (passes : TagId → Bool) : Bool :=
  T.links.any fun l => l.1 == entityId && passes l.2

/-- The tag of the link is spelled like the name. -/
def spelled (T : TagTable) (name : String) (id : TagId) : Bool :=
  T.tags.any fun t => t.id == id && sqlLower t.name == sqlLower name

def andSearchTags (T : TagTable) (groups : List (String × List TagId)) (entityId : EntityId) : Bool :=
  groups.all fun group =>
    if group.2.isEmpty then T.linkedTo entityId (T.spelled group.1) else T.linkedTo entityId (group.2.contains ·)

def orSearchTags (T : TagTable) (groups : List (String × List TagId)) (entityId : EntityId) : Bool :=
  groups.isEmpty || T.linkedTo entityId fun id =>
    groups.any fun group => if group.2.isEmpty then T.spelled group.1 id else group.2.contains id

/-- The clauses that a tags filter adds to a search, on one memory. -/
def searchTagFilter (T : TagTable) (operator : TagOperator) (tagsFilter : List String) (entityId : EntityId) : Bool :=
  let groups := T.searchTagGroups tagsFilter
  match operator with
  | .and_ => T.andSearchTags groups entityId
  | .or_ => T.orSearchTags groups entityId

theorem linkedTo_iff {T : TagTable} {entityId : EntityId} {passes : TagId → Bool} :
    T.linkedTo entityId passes = true ↔ ∃ id, (entityId, id) ∈ T.links ∧ passes id = true := by
  simp only [linkedTo, List.any_eq_true, Bool.and_eq_true, beq_iff_eq, Prod.exists]
  constructor
  · rintro ⟨_, id, member, rfl, passes⟩
    exact ⟨id, member, passes⟩
  · rintro ⟨id, member, passes⟩
    exact ⟨entityId, id, member, rfl, passes⟩

/-- One name filters alike with either operator. -/
theorem searchTagFilter_single {T : TagTable} (operator : TagOperator) {tag : String} (given : Text.strip tag ≠ "")
    (entityId : EntityId) : T.searchTagFilter operator [tag] entityId = T.linkedTo entityId fun id =>
      if (T.expandSearchTag (normalizeTagName tag)).isEmpty then T.spelled (normalizeTagName tag) id
      else (T.expandSearchTag (normalizeTagName tag)).contains id := by
  have groups : T.searchTagGroups [tag] = [(normalizeTagName tag, T.expandSearchTag (normalizeTagName tag))] := by
    simp [searchTagGroups, given]
  unfold searchTagFilter
  rw [groups]
  cases operator with
  | and_ =>
    simp only [andSearchTags, List.all_cons, List.all_nil, Bool.and_true]
    split <;> rfl
  | or_ => simp [orSearchTags]

end TagTable
end SaltMdb
