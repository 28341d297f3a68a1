import SaltMdb.Store.Data

/-! The `tags` table with its unique names, and the `entity_tags` links. -/

namespace SaltMdb

structure TagTable where
  tags : List Tag
  next : TagId
  links : List (EntityId × TagId)
  below : ∀ t ∈ tags, t.id < next
  distinct : tags.Pairwise fun a b => a.id ≠ b.id
  names : tags.Pairwise fun a b => a.name ≠ b.name
deriving DecidableEq

namespace TagTable

def fetchName (T : TagTable) (name : String) : Option Tag := T.tags.find? (·.name == name)

def fetchId (T : TagTable) (id : TagId) : Option Tag := T.tags.find? (·.id == id)

/-- `INSERT INTO tags`: `none` when the name is taken. -/
def insert (T : TagTable) (name normalizedName : String) : Option TagTable :=
  if free : ∀ t ∈ T.tags, t.name ≠ name then
    some {
      tags := T.tags ++ [⟨T.next, name, some normalizedName, none⟩]
      next := T.next + 1
      links := T.links
      below := by
        intro t member
        rcases List.mem_append.mp member with old | new
        · exact Nat.lt_succ_of_lt (T.below t old)
        · obtain rfl := List.mem_singleton.mp new
          exact Nat.lt_succ_self T.next
      distinct := by
        rw [List.pairwise_append]
        refine ⟨T.distinct, List.pairwise_singleton _ _, ?_⟩
        intro a old b new
        obtain rfl := List.mem_singleton.mp new
        exact Nat.ne_of_lt (T.below a old)
      names := by
        rw [List.pairwise_append]
        refine ⟨T.names, List.pairwise_singleton _ _, ?_⟩
        intro a old b new
        obtain rfl := List.mem_singleton.mp new
        exact free a old }
  else none

/-- `UPDATE tags SET canonical_id = ? WHERE id = ?`. -/
def setCanonical (T : TagTable) (id canonical : TagId) : TagTable where
  tags := T.tags.map fun t => if t.id == id then { t with canonicalId := some canonical } else t
  next := T.next
  links := T.links
  below := by
    intro t member
    obtain ⟨old, oldMember, rfl⟩ := List.mem_map.mp member
    have bound := T.below old oldMember
    split <;> exact bound
  distinct := by
    rw [List.pairwise_map]
    refine T.distinct.imp fun {a b} h => ?_
    split <;> split <;> exact h
  names := by
    rw [List.pairwise_map]
    refine T.names.imp fun {a b} h => ?_
    split <;> split <;> exact h

/-- `INSERT OR IGNORE INTO entity_tags`. -/
def link (T : TagTable) (entity : EntityId) (tag : TagId) : TagTable :=
  if (entity, tag) ∈ T.links then T else { T with links := T.links ++ [(entity, tag)] }

/-- `DELETE FROM entity_tags WHERE …`. -/
def unlinkWhere (T : TagTable) (sel : EntityId × TagId → Bool) : TagTable :=
  { T with links := T.links.filter fun l => !sel l }

def setLinks (T : TagTable) (links : List (EntityId × TagId)) : TagTable := { T with links := links }

variable {T : TagTable} {l : EntityId × TagId} {entity : EntityId} {tag : TagId}

@[simp] theorem link_tags : (T.link entity tag).tags = T.tags := by
  unfold link; split <;> rfl

@[simp] theorem unlinkWhere_tags {sel : EntityId × TagId → Bool} : (T.unlinkWhere sel).tags = T.tags := rfl

theorem mem_link : l ∈ (T.link entity tag).links ↔ l ∈ T.links ∨ l = (entity, tag) := by
  unfold link
  split
  · rename_i present
    constructor
    · exact Or.inl
    · rintro (old | rfl)
      · exact old
      · exact present
  · simp

theorem mem_unlinkWhere {sel : EntityId × TagId → Bool} :
    l ∈ (T.unlinkWhere sel).links ↔ l ∈ T.links ∧ sel l = false := by
  simp [unlinkWhere]

end TagTable
end SaltMdb
