import SaltMdb.Tag.Stored

/-! The tags a memory is left with after a store, read off the table before it, and the comparison that a later
store of the same request makes with them. -/

namespace SaltMdb
open Transactions

variable {env : Env}

namespace TagTable

variable {T U : TagTable} {entityId : EntityId} {names tags : List String} {core : Bool}

theorem name_unique {a b : Tag} (ha : a ∈ T.tags) (hb : b ∈ T.tags) (same : a.name = b.name) : a = b := by
  have symm : Std.Symm fun a b : Tag => a.name ≠ b.name := ⟨fun _ _ differ => differ.symm⟩
  by_contra differ
  exact T.names.forall ha hb differ same

theorem fetchId_iff {t : Tag} {id : TagId} : T.fetchId id = some t ↔ t ∈ T.tags ∧ t.id = id := by
  constructor
  · intro found
    exact ⟨List.mem_of_find?_eq_some found, by simpa using List.find?_some found⟩
  · rintro ⟨here, rfl⟩
    cases found : T.fetchId t.id with
    | none => simpa using List.find?_eq_none.mp found t here
    | some u =>
      have same : u.id = t.id := by simpa using List.find?_some found
      rw [id_unique (List.mem_of_find?_eq_some found) here same]

/-- The name of the row that a written name ends in: the tag it resolves to, or the first alike name of the request. -/
def writtenRow (T : TagTable) (names : List String) (name : String) : Option String :=
  match T.resolve name with
  | some id => (T.fetchId id).map (·.name)
  | none => (names ++ [coreTag]).find? (alikeTags name)

/-- The names of the tags that a store of the request leaves a new memory with. -/
def leftNames (T : TagTable) (tags : List String) (core : Bool) : List String :=
  let names := tags.filterMap writtenName
  if core then (names ++ [coreTag]).filterMap (T.writtenRow names)
  else (names.filterMap (T.writtenRow names)).filter fun name => T.writtenRow names coreTag != some name

/-- The tags of the request read like the tags that the store leaves. -/
def TagsKept (T : TagTable) (tags : List String) (core : Bool) : Prop :=
  sameMembers ((tags.filter fun tag => Text.strip tag ≠ "").map fun tag => Text.lower (normalizeTagName tag))
    (((T.leftNames tags core).map Text.lower).filter (· ≠ coreTag)) = true

instance : Decidable (T.TagsKept tags core) := inferInstanceAs (Decidable (_ = true))

theorem alikeTags_congr {name other : String} (alike : alikeTags name other = true) : alikeTags name = alikeTags other := by
  funext third
  rw [Bool.eq_iff_iff]
  exact ⟨alikeTags_trans (alikeTags_symm alike), alikeTags_trans alike⟩

namespace StoredTags

/-- Where a name leads in the table after the store, told by the table before it. -/
theorem resolve_iff (stored : T.StoredTags entityId names core U) (keyed : T.Keyed) {name : String}
    (listed : name ∈ names ++ [coreTag]) {t : Tag} (here : t ∈ U.tags) :
    U.resolve name = some t.id ↔ T.writtenRow names name = some t.name := by
  unfold writtenRow
  cases before : T.resolve name with
  | some id =>
    obtain ⟨v, there, _, points⟩ := keyed.of_resolve before
    have old : id < T.next := points ▸ keyed.canonical_lt there
    rw [stored.persists keyed before, Option.some.injEq]
    dsimp only
    rw [Option.map_eq_some_iff]
    constructor
    · rintro rfl
      have kept : t ∈ T.tags := by
        by_contra absent
        exact absurd old (Nat.not_lt.mpr (stored.new_row here absent).2.1)
      exact ⟨t, fetchId_iff.mpr ⟨kept, rfl⟩, rfl⟩
    · rintro ⟨u, found, same⟩
      obtain ⟨kept, rfl⟩ := fetchId_iff.mp found
      rw [name_unique (stored.mem_of_old kept) here same]
  | none =>
    obtain ⟨id, after⟩ := Option.isSome_iff_exists.mp (stored.resolved name listed)
    obtain ⟨u, there, alike, rfl⟩ := stored.keyed.of_resolve after
    have absent : u ∉ T.tags := fun kept => by simp [keyed.resolve kept alike] at before
    have first := (stored.new_row there absent).2.2.2
    rw [alikeTags_congr alike] at first
    rw [after, stored.canonical_of_new there absent, Option.some.injEq]
    dsimp only
    rw [first, Option.some.injEq]
    constructor
    · intro same
      rw [id_unique there here same]
    · intro same
      rw [name_unique there here same]

theorem mem_filterMap_writtenRow (stored : T.StoredTags entityId names core U) (keyed : T.Keyed) {among : List String}
    (listed : among ⊆ names ++ [coreTag]) {t : Tag} (here : t ∈ U.tags) :
    (∃ name ∈ among, U.resolve name = some t.id) ↔ t.name ∈ among.filterMap (T.writtenRow names) := by
  rw [List.mem_filterMap]
  exact exists_congr fun name => and_congr_right fun member => stored.resolve_iff keyed (listed member) here

/-- A name that the store settles on is the name of a row it leaves. -/
theorem row_of_writtenRow (stored : T.StoredTags entityId names core U) (keyed : T.Keyed) {name other : String}
    (listed : name ∈ names ++ [coreTag]) (settles : T.writtenRow names name = some other) : ∃ t ∈ U.tags, t.name = other := by
  unfold writtenRow at settles
  cases before : T.resolve name with
  | some id =>
    rw [before] at settles
    obtain ⟨t, found, rfl⟩ := Option.map_eq_some_iff.mp settles
    exact ⟨t, stored.mem_of_old (fetchId_iff.mp found).1, rfl⟩
  | none =>
    rw [before] at settles
    obtain ⟨id, after⟩ := Option.isSome_iff_exists.mp (stored.resolved name listed)
    obtain ⟨u, there, alike, rfl⟩ := stored.keyed.of_resolve after
    have absent : u ∉ T.tags := fun kept => by simp [keyed.resolve kept alike] at before
    have first := (stored.new_row there absent).2.2.2
    rw [alikeTags_congr alike] at first
    exact ⟨u, there, Option.some.inj (first.symm.trans settles)⟩

theorem linked_iff (stored : T.StoredTags entityId (tags.filterMap writtenName) core U) (keyed : T.Keyed) {t : Tag}
    (here : t ∈ U.tags) : (entityId, t.id) ∈ U.links ↔ t.name ∈ T.leftNames tags core := by
  unfold leftNames
  rw [stored.links]
  have label := stored.resolve_iff keyed (List.mem_append_right _ (List.mem_singleton_self coreTag)) here
  cases core with
  | true =>
    rw [if_pos rfl, if_pos rfl]
    exact stored.mem_filterMap_writtenRow keyed (fun _ member => member) here
  | false =>
    rw [if_neg Bool.false_ne_true, if_neg Bool.false_ne_true, List.mem_filter, bne_iff_ne, ne_eq, ne_eq, label]
    exact and_congr_left fun _ => stored.mem_filterMap_writtenRow keyed (List.subset_append_left _ _) here

theorem leftNames_row (stored : T.StoredTags entityId (tags.filterMap writtenName) core U) (keyed : T.Keyed) {name : String}
    (left : name ∈ T.leftNames tags core) : ∃ t ∈ U.tags, t.name = name := by
  unfold leftNames at left
  cases core with
  | true =>
    rw [if_pos rfl] at left
    obtain ⟨other, listed, settles⟩ := List.mem_filterMap.mp left
    exact stored.row_of_writtenRow keyed listed settles
  | false =>
    rw [if_neg Bool.false_ne_true] at left
    obtain ⟨other, listed, settles⟩ := List.mem_filterMap.mp (List.mem_filter.mp left).1
    exact stored.row_of_writtenRow keyed (List.mem_append_left _ listed) settles

theorem mem_entityTagNames {db : Db} (stored : T.StoredTags entityId (tags.filterMap writtenName) core db.tags) (keyed : T.Keyed)
    {name : String} : name ∈ entityTagNames db entityId ↔ name ∈ T.leftNames tags core := by
  unfold entityTagNames
  simp only [List.mem_map, List.mem_filter, List.contains_iff_mem]
  constructor
  · rintro ⟨t, ⟨here, linked⟩, rfl⟩
    exact (stored.linked_iff keyed here).mp linked
  · intro left
    obtain ⟨t, here, rfl⟩ := stored.leftNames_row keyed left
    exact ⟨t, ⟨here, (stored.linked_iff keyed here).mpr left⟩, rfl⟩

end StoredTags
end TagTable

theorem sameMembers_iff {xs ys : List String} : sameMembers xs ys = true ↔ ∀ x, x ∈ xs ↔ x ∈ ys := by
  simp only [sameMembers, Bool.and_eq_true, List.all_eq_true, List.contains_iff_mem]
  exact ⟨fun both x => ⟨both.1 x, both.2 x⟩, fun same => ⟨fun x => (same x).mp, fun x => (same x).mpr⟩⟩

theorem sameMembers_congr {xs ys zs : List String} (same : ∀ x, x ∈ ys ↔ x ∈ zs) : sameMembers xs ys = sameMembers xs zs := by
  rw [Bool.eq_iff_iff, sameMembers_iff, sameMembers_iff]
  exact forall_congr' fun x => by rw [same x]

/-- The comparison passes for the request a memory was stored with exactly where its tags were kept as they read. -/
theorem legacyTagsChanged_stored {T : TagTable} {db : Db} {entityId : EntityId} {tags : List String} {core : Bool}
    (stored : T.StoredTags entityId (tags.filterMap writtenName) core db.tags) (keyed : T.Keyed) :
    legacyTagsChanged db entityId (some tags) = false ↔ T.TagsKept tags core := by
  have same : ∀ x, x ∈ ((entityTagNames db entityId).map Text.lower).filter (· ≠ coreTag) ↔
      x ∈ ((T.leftNames tags core).map Text.lower).filter (· ≠ coreTag) := by
    intro x
    simp only [List.mem_filter, List.mem_map, stored.mem_entityTagNames keyed]
  unfold legacyTagsChanged TagTable.TagsKept
  dsimp only
  rw [sameMembers_congr same, Bool.not_eq_false']

/-! ### The core label again -/

/-- The table after the core label of a memory was brought in line. -/
def TagTable.synced (T : TagTable) (entityId : EntityId) (core : Bool) : TagTable :=
  if core then (T.written coreTag).1.link entityId (T.written coreTag).2
  else (T.written coreTag).1.unlinkWhere (· == (entityId, (T.written coreTag).2))

theorem TagTable.Keyed.synced {T : TagTable} (keyed : T.Keyed) (entityId : EntityId) (core : Bool) :
    (T.synced entityId core).Keyed := by
  have written := (keyed.written writtenName_coreTag).1
  unfold TagTable.synced
  cases core with
  | true => exact written.link _ _
  | false => exact written.unlinkWhere _

theorem TagTable.written_of_resolve {T : TagTable} {name : String} {id : TagId} (h : T.resolve name = some id) :
    T.written name = (T, id) := by
  unfold TagTable.written
  rw [h]

/-- A label that is in line is left alone. -/
theorem TagTable.Keyed.synced_again {T : TagTable} (keyed : T.Keyed) (entityId : EntityId) (core : Bool) :
    (T.synced entityId core).synced entityId core = T.synced entityId core := by
  have resolved := (keyed.written writtenName_coreTag).2.1
  have again : (T.synced entityId core).resolve coreTag = some (T.written coreTag).2 := by
    unfold TagTable.synced
    cases core with
    | true => rw [if_pos rfl, TagTable.resolve_link, resolved]
    | false => exact resolved
  generalize second : (T.synced entityId core).synced entityId core = twice
  unfold TagTable.synced at second
  rw [show (if core then (T.written coreTag).1.link entityId (T.written coreTag).2
    else (T.written coreTag).1.unlinkWhere (· == (entityId, (T.written coreTag).2))) = T.synced entityId core from rfl,
    TagTable.written_of_resolve again] at second
  subst second
  cases core with
  | true => exact if_pos (TagTable.mem_link.mpr (.inr rfl))
  | false =>
    show TagTable.unlinkWhere (TagTable.unlinkWhere _ _) _ = TagTable.unlinkWhere _ _
    unfold TagTable.unlinkWhere
    simp [List.filter_filter]

end SaltMdb
