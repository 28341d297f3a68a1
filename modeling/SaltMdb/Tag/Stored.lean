import SaltMdb.Core.Declared
import SaltMdb.Tag.Written

/-! What a stored memory's tags are worth to a tags filter: the tag it was stored with finds it as long as the write
neither respells the tag nor gives it to a row of another spelling. -/

namespace SaltMdb
open Transactions

variable {env : Env}

namespace TagTable

variable {T U : TagTable}

/-! ### Reading -/

theorem Keyed.hashed (keyed : T.Keyed) {t : Tag} (here : t ∈ T.tags) (hash : t.name.toList.head? = some '#') :
    SettledName t.name := by
  rcases keyed.spelled t here with ⟨tag, written⟩ | ⟨seeded, _⟩
  · exact settledName_written written
  · exact absurd hash seeded

/-- A row is read by the tag that its name is written with, and by no other. -/
theorem Keyed.read (keyed : T.Keyed) {t : Tag} (here : t ∈ T.tags) {tag name : String} (spelled : writtenName tag = some name) :
    sqlLower t.name = sqlLower (normalizeTagName tag) ↔ t.name = name ∧ sqlLower name = sqlLower (normalizeTagName tag) := by
  constructor
  · intro same
    obtain ⟨body, clean, hash, _, rfl⟩ := writtenName_some spelled
    have own := (keyed.hashed here (head_of_sqlLower same hash)).read hash clean same
    exact ⟨own, own ▸ same⟩
  · rintro ⟨rfl, same⟩
    exact same

theorem spelled_iff {name : String} {id : TagId} :
    T.spelled name id = true ↔ ∃ t ∈ T.tags, t.id = id ∧ sqlLower t.name = sqlLower name := by
  simp [TagTable.spelled]

theorem mem_expandSearchTag {name : String} {id : TagId} :
    id ∈ T.expandSearchTag name ↔ ∃ t ∈ T.tags, sqlLower t.name = sqlLower name ∧ id ∈ T.aliasGroup t := by
  simp [expandSearchTag, List.mem_flatMap, List.mem_filter, and_assoc]

theorem mem_aliasGroup {t : Tag} {id : TagId} :
    id ∈ T.aliasGroup t ↔ id = t.id ∨ id = t.canonical ∨ ∃ u ∈ T.tags, u.canonicalId = some t.canonical ∧ u.id = id := by
  simp [aliasGroup, List.mem_filter, and_assoc]

/-- A tag selects the memories that are linked into the alias group of the row it is spelled like. -/
theorem searchTagFilter_iff (operator : TagOperator) {tag : String} (given : Text.strip tag ≠ "") (entityId : EntityId) :
    T.searchTagFilter operator [tag] entityId = true ↔ ∃ t ∈ T.tags, sqlLower t.name = sqlLower (normalizeTagName tag) ∧
      ∃ id ∈ T.aliasGroup t, (entityId, id) ∈ T.links := by
  rw [searchTagFilter_single operator given, linkedTo_iff]
  constructor
  · rintro ⟨id, linked, passes⟩
    split at passes
    · obtain ⟨t, here, rfl, same⟩ := spelled_iff.mp passes
      exact ⟨t, here, same, t.id, mem_aliasGroup.mpr (.inl rfl), linked⟩
    · obtain ⟨t, here, same, inGroup⟩ := mem_expandSearchTag.mp (List.contains_iff_mem.mp passes)
      exact ⟨t, here, same, id, inGroup, linked⟩
  · rintro ⟨t, here, same, id, inGroup, linked⟩
    have member := mem_expandSearchTag.mpr ⟨t, here, same, inGroup⟩
    refine ⟨id, linked, ?_⟩
    rw [if_neg]
    · exact List.contains_iff_mem.mpr member
    · rw [List.isEmpty_iff]
      exact List.ne_nil_of_mem member

theorem searchTagFilter_blank (operator : TagOperator) {tag : String} (blank : Text.strip tag = "") (entityId : EntityId) :
    T.searchTagFilter operator [tag] entityId = true := by
  have groups : T.searchTagGroups [tag] = [] := by simp [searchTagGroups, blank]
  unfold searchTagFilter
  rw [groups]
  cases operator <;> rfl

theorem Keyed.aliasGroup_lt (keyed : T.Keyed) {t : Tag} (here : t ∈ T.tags) {id : TagId} (inGroup : id ∈ T.aliasGroup t) :
    id < T.next := by
  rcases mem_aliasGroup.mp inGroup with rfl | rfl | ⟨u, there, _, rfl⟩
  · exact T.below t here
  · exact keyed.canonical_lt here
  · exact T.below u there

/-! ### What a store leaves -/

/-- The table after a memory was stored with the names, which were written before the core label was linked or removed. -/
structure StoredTags (T : TagTable) (entityId : EntityId) (names : List String) (core : Bool) (U : TagTable) : Prop where
  keyed : U.Keyed
  rows : ∃ news, U.tags = T.tags ++ news ∧ ∀ t ∈ news, t.canonicalId = none ∧ T.next ≤ t.id ∧
    (∃ tag, writtenName tag = some t.name) ∧ T.resolve t.name = none ∧
      (names ++ [coreTag]).find? (alikeTags t.name) = some t.name
  resolved : ∀ name ∈ names ++ [coreTag], (U.resolve name).isSome
  links : ∀ id, (entityId, id) ∈ U.links ↔
    if core then ∃ name ∈ names ++ [coreTag], U.resolve name = some id
    else (∃ name ∈ names, U.resolve name = some id) ∧ U.resolve coreTag ≠ some id

/-- A submitted tag finds the memory that is stored with it. -/
def ReadsBack (T : TagTable) (tags : List String) (core : Bool) (tag : String) : Prop :=
  Text.strip tag = "" ∨ ∃ name, writtenName tag = some name ∧ sqlLower name = sqlLower (normalizeTagName tag) ∧
    match T.fetchName name with
    | some t => core = true ∨ ∃ other ∈ tags.filterMap writtenName, ∃ id ∈ T.aliasGroup t,
        T.resolve other = some id ∧ T.resolve coreTag ≠ some id
    | none => T.resolve name = none ∧ (tags.filterMap writtenName).find? (alikeTags name) = some name ∧
        (core = true ∨ alikeTags coreTag name = false)

namespace StoredTags

variable {entityId : EntityId} {names : List String} {core : Bool}

theorem mem_of_old (stored : T.StoredTags entityId names core U) {t : Tag} (here : t ∈ T.tags) : t ∈ U.tags := by
  obtain ⟨news, tags, _⟩ := stored.rows
  rw [tags]
  exact List.mem_append_left _ here

theorem persists (stored : T.StoredTags entityId names core U) (keyed : T.Keyed) {name : String} {id : TagId}
    (h : T.resolve name = some id) : U.resolve name = some id := by
  obtain ⟨t, here, alike, rfl⟩ := keyed.of_resolve h
  exact stored.keyed.resolve (stored.mem_of_old here) alike

/-- A row that is not an old one is a new one, and its own tag. -/
theorem new_row (stored : T.StoredTags entityId names core U) {t : Tag} (here : t ∈ U.tags) (absent : t ∉ T.tags) :
    t.canonicalId = none ∧ T.next ≤ t.id ∧ T.resolve t.name = none ∧
      (names ++ [coreTag]).find? (alikeTags t.name) = some t.name := by
  obtain ⟨news, tags, fresh⟩ := stored.rows
  rw [tags] at here
  obtain ⟨plain, above, _, missing, found⟩ := fresh t ((List.mem_append.mp here).resolve_left absent)
  exact ⟨plain, above, missing, found⟩

theorem canonical_of_new (stored : T.StoredTags entityId names core U) {t : Tag} (here : t ∈ U.tags) (absent : t ∉ T.tags) :
    t.canonical = t.id := by
  unfold Tag.canonical
  rw [(stored.new_row here absent).1]
  rfl

/-- What resolves to an old tag did so before. -/
theorem resolve_old (stored : T.StoredTags entityId names core U) (keyed : T.Keyed) {name : String} {id : TagId}
    (old : id < T.next) (h : U.resolve name = some id) : T.resolve name = some id := by
  obtain ⟨t, here, alike, rfl⟩ := stored.keyed.of_resolve h
  by_cases there : t ∈ T.tags
  · exact keyed.resolve there alike
  · rw [stored.canonical_of_new here there] at old
    exact absurd old (Nat.not_lt.mpr (stored.new_row here there).2.1)

theorem aliasGroup_old (stored : T.StoredTags entityId names core U) (t : Tag) : U.aliasGroup t = T.aliasGroup t := by
  obtain ⟨news, tags, fresh⟩ := stored.rows
  have none_ : news.filter (fun u => u.canonicalId == some t.canonical) = [] := by
    rw [List.filter_eq_nil_iff]
    intro u new
    simp [(fresh u new).1]
  unfold aliasGroup
  rw [tags, List.filter_append, none_, List.append_nil]

/-- A tag whose row was there finds the memory unless the core label was taken from under it. -/
theorem reads_old (stored : T.StoredTags entityId names core U) (keyed : T.Keyed) {t : Tag} (here : t ∈ T.tags)
    (listed : t.name ∈ names) : (∃ id ∈ U.aliasGroup t, (entityId, id) ∈ U.links) ↔
      core = true ∨ ∃ other ∈ names, ∃ id ∈ T.aliasGroup t, T.resolve other = some id ∧ T.resolve coreTag ≠ some id := by
  rw [stored.aliasGroup_old]
  cases core with
  | true =>
    refine iff_of_true ⟨t.canonical, mem_aliasGroup.mpr (.inr (.inl rfl)), (stored.links _).mpr ?_⟩ (.inl rfl)
    rw [if_pos rfl]
    exact ⟨t.name, List.mem_append_left _ listed, stored.keyed.resolve (stored.mem_of_old here) (alikeTags_refl _)⟩
  | false =>
    constructor
    · rintro ⟨id, inGroup, linked⟩
      have linked := (stored.links id).mp linked
      rw [if_neg Bool.false_ne_true] at linked
      obtain ⟨⟨other, member, resolved⟩, unlabelled⟩ := linked
      refine .inr ⟨other, member, id, inGroup, stored.resolve_old keyed (keyed.aliasGroup_lt here inGroup) resolved, ?_⟩
      exact fun label => unlabelled (stored.persists keyed label)
    · rintro (core | ⟨other, member, id, inGroup, resolved, unlabelled⟩)
      · simp at core
      · refine ⟨id, inGroup, (stored.links id).mpr ?_⟩
        rw [if_neg Bool.false_ne_true]
        refine ⟨⟨other, member, stored.persists keyed resolved⟩, fun label => unlabelled ?_⟩
        exact stored.resolve_old keyed (keyed.aliasGroup_lt here inGroup) label

theorem aliasGroup_new (stored : T.StoredTags entityId names core U) (keyed : T.Keyed) {t : Tag} (here : t ∈ U.tags)
    (absent : t ∉ T.tags) {id : TagId} : id ∈ U.aliasGroup t ↔ id = t.id := by
  rw [mem_aliasGroup, stored.canonical_of_new here absent]
  refine ⟨fun inGroup => ?_, .inl⟩
  rcases inGroup with rfl | rfl | ⟨u, there, points, rfl⟩
  · rfl
  · rfl
  · exfalso
    by_cases old : u ∈ T.tags
    · have below := keyed.pointed u old t.id points
      exact absurd below (Nat.not_lt.mpr (stored.new_row here absent).2.1)
    · simp [(stored.new_row there old).1] at points

/-- A tag without a row finds the memory where the write gave it one. -/
theorem reads_new (stored : T.StoredTags entityId names core U) (keyed : T.Keyed) {name : String}
    (missing : T.fetchName name = none) (listed : name ∈ names) :
    (∃ t ∈ U.tags, t.name = name ∧ ∃ id ∈ U.aliasGroup t, (entityId, id) ∈ U.links) ↔
      T.resolve name = none ∧ names.find? (alikeTags name) = some name ∧ (core = true ∨ alikeTags coreTag name = false) := by
  constructor
  · rintro ⟨t, here, rfl, id, inGroup, linked⟩
    have absent : t ∉ T.tags := fun old => by simp [keyed.fetchName old rfl] at missing
    obtain ⟨_, _, unresolved, found⟩ := stored.new_row here absent
    refine ⟨unresolved, ?_, ?_⟩
    · rw [List.find?_append] at found
      cases first : names.find? (alikeTags t.name) with
      | none => exact absurd (alikeTags_refl t.name) (by simpa using List.find?_eq_none.mp first t.name listed)
      | some other =>
        rw [first] at found
        exact found
    · obtain rfl := (stored.aliasGroup_new keyed here absent).mp inGroup
      cases core with
      | true => exact .inl rfl
      | false =>
        have linked := (stored.links t.id).mp linked
        rw [if_neg Bool.false_ne_true] at linked
        refine .inr ?_
        rw [← Bool.not_eq_true]
        intro alike
        apply linked.2
        rw [stored.keyed.resolve here (alikeTags_symm alike), stored.canonical_of_new here absent]
  · rintro ⟨unresolved, first, labelled⟩
    obtain ⟨id, resolved⟩ := Option.isSome_iff_exists.mp (stored.resolved name (List.mem_append_left _ listed))
    obtain ⟨t, here, alike, rfl⟩ := stored.keyed.of_resolve resolved
    have absent : t ∉ T.tags := fun old => by simp [keyed.resolve old alike] at unresolved
    have found := (stored.new_row here absent).2.2.2
    have same : alikeTags t.name = alikeTags name := by
      funext other
      rw [Bool.eq_iff_iff]
      exact ⟨alikeTags_trans (alikeTags_symm alike), alikeTags_trans alike⟩
    have named : t.name = name := by
      rw [same, List.find?_append, first] at found
      exact (Option.some.inj found).symm
    refine ⟨t, here, named, t.id, (stored.aliasGroup_new keyed here absent).mpr rfl, (stored.links t.id).mpr ?_⟩
    rw [stored.canonical_of_new here absent] at resolved
    cases core with
    | true =>
      rw [if_pos rfl]
      exact ⟨name, List.mem_append_left _ listed, resolved⟩
    | false =>
      rw [if_neg Bool.false_ne_true]
      refine ⟨⟨name, listed, resolved⟩, fun label => ?_⟩
      have apart := labelled.resolve_left Bool.false_ne_true
      obtain ⟨u, there, again, points⟩ := stored.keyed.of_resolve label
      by_cases old : u ∈ T.tags
      · have below := keyed.canonical_lt old
        rw [points] at below
        exact absurd below (Nat.not_lt.mpr (stored.new_row here absent).2.1)
      · rw [stored.canonical_of_new there old] at points
        rw [id_unique there here points, named] at again
        rw [alikeTags_symm again] at apart
        simp at apart

theorem no_bare_hash (keyed : U.Keyed) {t : Tag} (here : t ∈ U.tags) : sqlLower t.name ≠ sqlLower "#" := by
  intro same
  have hash := head_of_sqlLower same rfl
  apply (keyed.hashed here hash).proper
  obtain ⟨cs, shape⟩ := List.head?_eq_some_iff.mp hash
  apply String.toList_injective
  unfold sqlLower at same
  rw [shape] at same ⊢
  have rest := (List.cons.inj same).2
  rw [List.map_eq_nil_iff.mp rest]
  rfl

theorem reads {tags : List String} (stored : T.StoredTags entityId (tags.filterMap writtenName) core U) (keyed : T.Keyed)
    {tag : String} (valid : validateTagNames tags = .ok ()) (member : tag ∈ tags) (operator : TagOperator) :
    U.searchTagFilter operator [tag] entityId = true ↔ T.ReadsBack tags core tag := by
  by_cases blank : Text.strip tag = ""
  · exact iff_of_true (searchTagFilter_blank operator blank entityId) (.inl blank)
  rw [searchTagFilter_iff operator blank]
  unfold ReadsBack
  rw [or_iff_right blank]
  cases spelled : writtenName tag with
  | none =>
    have bare : normalizeTagName tag = "#" :=
      (writtenName_none (validateTagNames_mem valid member) spelled).resolve_left fun empty =>
        blank (normalizeTagName_blank.mp empty)
    refine iff_of_false ?_ (by simp)
    rintro ⟨t, here, same, _⟩
    rw [bare] at same
    exact no_bare_hash stored.keyed here same
  | some name =>
    have listed : name ∈ tags.filterMap writtenName := List.mem_filterMap.mpr ⟨tag, member, spelled⟩
    have rows : (∃ t ∈ U.tags, sqlLower t.name = sqlLower (normalizeTagName tag) ∧
          ∃ id ∈ U.aliasGroup t, (entityId, id) ∈ U.links) ↔
        sqlLower name = sqlLower (normalizeTagName tag) ∧
          ∃ t ∈ U.tags, t.name = name ∧ ∃ id ∈ U.aliasGroup t, (entityId, id) ∈ U.links := by
      constructor
      · rintro ⟨t, here, same, linked⟩
        obtain ⟨named, again⟩ := (stored.keyed.read here spelled).mp same
        exact ⟨again, t, here, named, linked⟩
      · rintro ⟨same, t, here, named, linked⟩
        exact ⟨t, here, (stored.keyed.read here spelled).mpr ⟨named, same⟩, linked⟩
    rw [rows]
    simp only [Option.some.injEq, exists_eq_left']
    refine and_congr_right fun _ => ?_
    cases found : T.fetchName name with
    | none => exact stored.reads_new keyed found listed
    | some t =>
      have here := List.mem_of_find?_eq_some found
      have named : t.name = name := by simpa using List.find?_some found
      subst named
      dsimp only
      rw [← stored.reads_old keyed here listed]
      constructor
      · rintro ⟨u, there, same, linked⟩
        have alike : alikeTags u.name t.name = true := by rw [same]; exact alikeTags_refl _
        rwa [stored.keyed.unique there (stored.mem_of_old here) alike] at linked
      · exact fun linked => ⟨t, stored.mem_of_old here, rfl, linked⟩

end StoredTags
theorem written_links {name : String} : (T.written name).1.links = T.links := by
  unfold TagTable.written
  cases resolved : T.resolve name with
  | some id => rfl
  | none =>
    obtain ⟨U, inserted⟩ := insert_of_fetchName (normalizedTagKey name) (fetchName_of_resolve resolved)
    dsimp only
    rw [inserted, Option.getD_some]
    unfold TagTable.insert at inserted
    split at inserted
    · obtain rfl := Option.some.inj inserted
      rfl
    · simp at inserted

/-- The core label, linked or removed once the names of a memory without links were written. -/
theorem StoredTags.of_wrote {V : TagTable} {entityId : EntityId} {names : List String} {core : Bool} (keyed : T.Keyed)
    (wrote : (T.unlinkWhere (·.1 == entityId)).Wrote entityId names V) (label : writtenName coreTag = some coreTag) :
    T.StoredTags entityId names core (if core then (V.written coreTag).1.link entityId (V.written coreTag).2
      else (V.written coreTag).1.unlinkWhere (· == (entityId, (V.written coreTag).2))) := by
  have bare : (T.unlinkWhere (·.1 == entityId)).Keyed := keyed.unlinkWhere _
  obtain ⟨keyedC, resolvedC, wroteC⟩ := wrote.keyed.written label
  have both := wrote.trans bare (wroteC entityId)
  have unlinked : ∀ id, (entityId, id) ∉ (T.unlinkWhere (·.1 == entityId)).links := by
    intro id member
    simpa using (mem_unlinkWhere.mp member).2
  have rows : ∃ news, (V.written coreTag).1.tags = T.tags ++ news ∧ ∀ t ∈ news, t.canonicalId = none ∧ T.next ≤ t.id ∧
      (∃ tag, writtenName tag = some t.name) ∧ T.resolve t.name = none ∧
        (names ++ [coreTag]).find? (alikeTags t.name) = some t.name := by
    have rows := both.rows
    rwa [link_tags] at rows
  have resolved : ∀ name ∈ names ++ [coreTag], ((V.written coreTag).1.resolve name).isSome := by
    have resolved := both.resolved
    simpa only [resolve_link] using resolved
  cases core with
  | true =>
    rw [if_pos rfl]
    refine ⟨both.keyed, by rwa [link_tags], by simpa only [resolve_link] using resolved, fun id => ?_⟩
    rw [both.links, if_pos rfl]
    simp only [unlinked, false_or, true_and]
  | false =>
    rw [if_neg Bool.false_ne_true]
    refine ⟨keyedC.unlinkWhere _, rows, resolved, fun id => ?_⟩
    have same : ∀ name ∈ names, V.resolve name = some id ↔ (V.written coreTag).1.resolve name = some id := by
      intro name member
      obtain ⟨x, before⟩ := Option.isSome_iff_exists.mp (wrote.resolved name member)
      have after := (wroteC entityId).persists wrote.keyed before
      rw [resolve_link] at after
      rw [before, after]
    have linkedV : (entityId, id) ∈ V.links ↔ ∃ name ∈ names, V.resolve name = some id := by
      rw [wrote.links]
      simp only [unlinked, false_or, true_and]
    rw [mem_unlinkWhere, written_links, linkedV, if_neg Bool.false_ne_true]
    have kept : (∃ name ∈ names, V.resolve name = some id) ↔ ∃ name ∈ names, (V.written coreTag).1.resolve name = some id :=
      exists_congr fun name => and_congr_right (same name)
    show _ ↔ (∃ name ∈ names, (V.written coreTag).1.resolve name = some id) ∧ (V.written coreTag).1.resolve coreTag ≠ some id
    rw [kept, resolvedC]
    refine and_congr_right fun _ => ?_
    rw [beq_eq_false_iff_ne]
    exact ⟨fun differ same => differ (by rw [Option.some.inj same]), fun differ same => differ (by rw [(Prod.mk.inj same).2])⟩

end TagTable

/-! ### Storing -/

theorem writtenName_coreTag : writtenName coreTag = some coreTag := by decide

theorem syncRawCoreTag_tags {entityId : EntityId} {agentId : Option String} {w w' : World Db Supply}
    (h : (syncRawCoreTag env entityId agentId).run w = (.ok (), w')) : w'.durable.tags =
      if ((w.durable.entities.find entityId).map (·.isCore)).getD false then
        (w.durable.tags.written coreTag).1.link entityId (w.durable.tags.written coreTag).2
      else (w.durable.tags.written coreTag).1.unlinkWhere (· == (entityId, (w.durable.tags.written coreTag).2)) := by
  obtain ⟨v, ran, tags⟩ := resolveOrCreateTag_written env writtenName_coreTag agentId w
  unfold syncRawCoreTag at h
  rw [Tx.run_db_bind, Txn.bind_run_ok ran] at h
  dsimp only at h
  rw [← tags]
  split at h
  · rename_i core
    obtain ⟨_, rfl⟩ := Prod.mk.inj h
    rw [if_pos core]
  · rename_i core
    obtain ⟨_, rfl⟩ := Prod.mk.inj h
    rw [if_neg core]

theorem persistRawEntity_stored {p : StoreProposal} {id : EntityId} {now : Instant} {state : CoreState} {tags : List String}
    {w w' : World Db Supply} (given : p.tags = some tags) (valid : validateTagNames tags = .ok ()) (keyed : w.durable.tags.Keyed)
    (h : (persistRawEntity env p id now state none).run w = (.ok (), w')) :
    w.durable.tags.StoredTags id (tags.filterMap writtenName) state.isCore w'.durable.tags := by
  unfold persistRawEntity at h
  obtain ⟨_, v₁, history, h⟩ := Txn.bind_ok h
  obtain ⟨_, v₂, deleted, h⟩ := Txn.bind_ok h
  obtain ⟨_, v₃, written, h⟩ := Txn.bind_ok h
  obtain ⟨_, v₄, reconciled, h⟩ := Txn.bind_ok h
  obtain ⟨_, v₅, tagged, h⟩ := Txn.bind_ok h
  obtain ⟨_, v₆, synced, jobs⟩ := Txn.bind_ok h
  obtain ⟨_, rfl⟩ := Prod.mk.inj history
  rw [given] at deleted tagged
  obtain ⟨_, rfl⟩ := Prod.mk.inj deleted
  obtain ⟨_, rfl⟩ := Prod.mk.inj written
  have details := within_ok (reconcileDetailRelations_within _ _ _ _) reconciled
  have core : ((v₄.durable.entities.find id).map (·.isCore)).getD false = state.isCore := by
    rw [details.entities]
    dsimp only
    unfold EntityTable.upsert
    split
    · rw [EntityTable.find_append, if_pos rfl]
      rfl
    · rename_i taken
      obtain ⟨row, found⟩ := Option.ne_none_iff_exists'.mp taken
      dsimp only at found
      rw [EntityTable.find_updateId, found, Option.map_some, if_pos rfl]
      rfl
  have before : v₄.durable.tags = w.durable.tags.unlinkWhere (·.1 == id) := details.tags
  have keyedBefore : v₄.durable.tags.Keyed := by
    rw [before]
    exact keyed.unlinkWhere _
  have remembers : v₄.durable.tags.Remembers id [] := by
    intro key id found
    simp at found
  obtain ⟨v, ran, wrote⟩ := writeRawTagList_wrote env valid keyedBefore remembers p.agentId
  obtain rfl : v₅ = v := (Prod.mk.inj (tagged.symm.trans ran)).2
  have entities := (within_ok (writeRawTags_settles id (some tags) p.agentId).within tagged).entities
  rw [(within_ok (enqueueRawEmbeddingJobs_settles _ _ _).within jobs).tags, syncRawCoreTag_tags synced, entities, core]
  rw [before] at wrote
  exact .of_wrote keyed wrote writtenName_coreTag

theorem resolveStoreCoreState_isCore {db : Db} {now : Instant} {existing : Option Entity} {declaration : CoreDeclaration}
    {content : String} {scope : Scope} {state : CoreState}
    (h : resolveStoreCoreState env db now existing declaration content scope = .ok state) :
    state.isCore = declaration.isCore.getD ((existing.map (·.isCore)).getD false) := by
  unfold resolveStoreCoreState at h
  dsimp only at h
  split at h
  · rename_i plain
    split at h
    · simp at h
    · obtain rfl := Except.ok.inj h
      rw [Bool.not_eq_true'] at plain
      exact plain.symm
  · rename_i effective
    split at h
    · simp at h
    · obtain ⟨_, _, h⟩ := Checks.bind_ok h
      obtain ⟨_, _, h⟩ := Checks.bind_ok h
      obtain ⟨_, _, h⟩ := Checks.bind_ok h
      obtain ⟨_, _, h⟩ := Checks.bind_ok h
      obtain ⟨_, _, h⟩ := Checks.bind_ok h
      obtain rfl := Except.ok.inj h
      rw [Bool.not_eq_true', Bool.not_eq_false] at effective
      exact effective.symm

/-- A write goes to the row it was resolved to. -/
theorem storeRawEntity_target {p : StoreProposal} {w w' : World Db Supply} {stored : EntityId × Bool}
    (h : (storeRawEntity env p).run w = (.ok stored, w')) : ∀ id ∈ p.resolvedEntityId, id = stored.1 := by
  intro id resolved
  unfold storeRawEntity storeTargetId at h
  rw [Option.mem_def.mp resolved] at h
  obtain ⟨target, v, targeted, h⟩ := Txn.bind_ok h
  obtain ⟨given, _⟩ := Prod.mk.inj targeted
  rw [Tx.run_now_bind, Tx.run_db_bind] at h
  obtain ⟨_, _, _, h⟩ := Txn.bind_ok h
  obtain ⟨_, _, _, last⟩ := Txn.bind_ok h
  obtain ⟨answer, _⟩ := Prod.mk.inj last
  rw [← Except.ok.inj answer]
  exact Except.ok.inj given

theorem storeRawEntity_stored {p : StoreProposal} {tags : List String} {w w' : World Db Supply} {stored : EntityId × Bool}
    (given : p.tags = some tags) (valid : validateTagNames tags = .ok ()) (keyed : w.durable.tags.Keyed)
    (fresh : w.durable.entities.find stored.1 = none) (h : (storeRawEntity env p).run w = (.ok stored, w')) :
    w.durable.tags.StoredTags stored.1 (tags.filterMap writtenName) (p.core.isCore.getD false) w'.durable.tags := by
  have unused : p.resolvedEntityId.bind w.durable.entities.find = none := by
    cases resolved : p.resolvedEntityId with
    | none => rfl
    | some id => rwa [← storeRawEntity_target h id resolved] at fresh
  unfold storeRawEntity at h
  obtain ⟨id, v, targeted, h⟩ := Txn.bind_ok h
  have same : v.durable = w.durable := by
    unfold storeTargetId at targeted
    split at targeted
    · exact (congrArg World.durable (Prod.mk.inj targeted).2).symm
    · exact (congrArg World.durable (Prod.mk.inj targeted).2).symm
  rw [Tx.run_now_bind, Tx.run_db_bind] at h
  obtain ⟨state, u, decided, h⟩ := Txn.bind_ok h
  obtain ⟨resolved, rfl⟩ := Prod.mk.inj decided
  obtain ⟨_, x, persisted, last⟩ := Txn.bind_ok h
  obtain ⟨answer, rfl⟩ := Prod.mk.inj last
  obtain rfl := Except.ok.inj answer
  dsimp only [tick_durable] at resolved persisted fresh
  rw [same] at resolved persisted
  rw [fresh] at persisted
  have stored := persistRawEntity_stored (w := tick v) given valid (by rwa [tick_durable, same]) persisted
  have core := resolveStoreCoreState_isCore (resolveRawCoreState_ok resolved)
  rw [unused] at core
  rwa [core, tick_durable, same] at stored

theorem validateMemoryInput_tags {title : String} {tags : List String} (h : validateMemoryInput title tags = .ok ()) :
    validateTagNames tags = .ok () := by
  unfold validateMemoryInput at h
  obtain ⟨_, h⟩ := Checks.unless_ok h
  obtain ⟨_, h⟩ := Checks.unless_ok h
  exact Checks.mapError_ok h

/-- What a request that meets no row of its own passes on to the write. -/
theorem prepareStore_fresh {db : Db} {now : Instant} {preview : EntityId} {request : StoreRequest} {p : StoreProposal}
    (h : prepareStore env db now preview request = .ok p) : validateTagNames (request.tags.getD []) = .ok () ∧
      (p.tags = request.tags ∧ p.core = request.core ∨ ∃ id row, p.resolvedEntityId = some id ∧ db.entities.find id = some row) := by
  obtain ⟨basics, _, h⟩ := Checks.bind_ok h
  obtain ⟨content, read, h⟩ := Checks.bind_ok h
  obtain ⟨resolved, _, h⟩ := Checks.bind_ok h
  obtain ⟨proposal, proposed, h⟩ := Checks.bind_ok h
  obtain ⟨_, _, h⟩ := Checks.bind_ok h
  obtain rfl := Except.ok.inj h
  constructor
  · unfold prepareStoreContent at read
    obtain ⟨_, _, read⟩ := Checks.bind_ok read
    obtain ⟨_, read⟩ := Checks.unless_ok read
    obtain ⟨_, validated, _⟩ := Checks.bind_ok read
    exact validateMemoryInput_tags (Checks.mapError_ok validated)
  · unfold storeProposal at proposed
    split at proposed
    · obtain rfl := Except.ok.inj proposed
      exact .inl ⟨rfl, rfl⟩
    · rename_i current here
      split at proposed
      · obtain rfl := Except.ok.inj proposed
        obtain ⟨id, named, found⟩ := Option.bind_eq_some_iff.mp here
        exact .inr ⟨id, current, named, found⟩
      · simp at proposed

/-- No refusal of a request reads like an answer to it. -/
theorem prepareStore_refuses {db : Db} {now : Instant} {preview : EntityId} (request : StoreRequest) :
    Checks.Refuses (fun answer : StoreAnswer => answer.isOk = false) (prepareStore env db now preview request) := by
  refine Checks.refuses_bind ?_ fun basics => Checks.refuses_bind ?_ fun content => Checks.refuses_bind ?_ fun resolved =>
    Checks.refuses_bind ?_ fun p => Checks.refuses_bind (Checks.refuses_mapError governanceAnswer_refuses _) fun _ =>
      Checks.refuses_ok p
  · unfold validateStoreBasics
    extract_lets content checked
    have later : ∀ agentId, Checks.Refuses (fun answer : StoreAnswer => answer.isOk = false) (checked agentId) := by
      intro agentId
      refine Checks.refuses_unless rfl (Checks.refuses_unless rfl ?_)
      dsimp only
      split
      · exact Checks.refuses_error rfl
      · split
        · exact Checks.refuses_ok _
        · split
          · exact Checks.refuses_error rfl
          · exact Checks.refuses_ok _
    split
    · exact Checks.refuses_bind (Checks.refuses_error rfl) later
    · exact Checks.refuses_bind (Checks.refuses_ok _) later
  · have failures : ∀ text : String, (Envelope.failure text : StoreAnswer).isOk = false := fun _ => rfl
    unfold prepareStoreContent
    refine Checks.refuses_bind (Checks.refuses_mapError failures _) fun retrievalText => ?_
    refine Checks.refuses_unless rfl (Checks.refuses_bind (Checks.refuses_mapError failures _) fun _ => ?_)
    dsimp only
    split
    · exact Checks.refuses_ok _
    · exact Checks.refuses_error rfl
  · unfold resolveExistingEntityId
    dsimp only
    split
    · exact Checks.refuses_ok _
    · split
      · exact Checks.refuses_error rfl
      · split
        · exact Checks.refuses_ok _
        · exact Checks.refuses_ok _
  · unfold storeProposal
    split
    · exact Checks.refuses_ok _
    · split
      · exact Checks.refuses_ok _
      · exact Checks.refuses_error rfl

/-- A tag that a new memory was stored with finds it, whichever the operator, exactly where the write keeps its spelling:
over every tag table that the operations lead to. -/
theorem storeMemory_readsBack {operations : List (Mode × TagOperation)} {supply : Supply}
    (valid : Runs.Guarded (TagOperation.next env) TagOperation.Validated operations ⟨.init, supply⟩)
    {v w w' : World Db Supply} (reached : v ∈ Runs.states (TagOperation.next env) operations ⟨.init, supply⟩)
    (table : w.durable.tags = v.durable.tags) {mode : Mode} {request : StoreRequest} {tags : List String}
    (given : request.tags = some tags) {receipt : StoreReceipt} {warnings : List Warning}
    (fresh : w.durable.entities.find receipt.id = none)
    (stored : (storeMemory env mode request).run w = (.ok (.ok receipt warnings), w')) {tag : String} (member : tag ∈ tags)
    (operator : TagOperator) : w'.durable.tags.searchTagFilter operator [tag] receipt.id = true ↔
      w.durable.tags.ReadsBack tags (request.core.isCore.getD false) tag := by
  have keyed : w.durable.tags.Keyed := by
    rw [table]
    exact states_keyed operations supply valid v reached
  unfold storeMemory at stored
  rw [Tx.run_db_bind, Tx.run_uuid4_bind, Tx.run_now_bind] at stored
  cases prepared : prepareStore env w.durable (reading env (draw w)) (env.uuid4 w.transient.draws) request with
  | error refused =>
    rw [prepared] at stored
    obtain ⟨same, _⟩ := Prod.mk.inj stored
    have refuses := prepareStore_refuses request refused prepared
    rw [Except.ok.inj same] at refuses
    simp [Envelope.isOk] at refuses
  | ok p =>
    rw [prepared] at stored
    dsimp only at stored
    rw [Txn.run_tryCatch] at stored
    split at stored
    · rename_i ran
      obtain ⟨written, u, stores, last⟩ := Txn.bind_ok ran
      obtain ⟨answered, rfl⟩ := Prod.mk.inj last
      obtain ⟨same, rfl⟩ := Prod.mk.inj stored
      obtain rfl := Except.ok.inj answered
      obtain ⟨rfl, _⟩ := Envelope.ok.inj (Except.ok.inj same)
      have wrote := retrying_ok.mp stores
      obtain ⟨validated, passed⟩ := prepareStore_fresh prepared
      rw [given] at validated passed
      rcases passed with ⟨kept, core⟩ | ⟨id, row, resolved, found⟩
      · rw [← core]
        have keyedDrawn : (tick (draw w)).durable.tags.Keyed := keyed
        exact (storeRawEntity_stored kept validated keyedDrawn fresh wrote).reads keyed validated member operator
      · rw [storeRawEntity_target wrote id resolved] at found
        exact absurd (fresh.symm.trans found) (by simp)
    · rename_i e u _
      obtain ⟨same, _⟩ := Prod.mk.inj stored
      have refuses := governanceAnswer_refuses (α := StoreReceipt) e
      rw [Except.ok.inj same] at refuses
      simp [Envelope.isOk] at refuses

/-! ### Two tags -/

def taggedNote (tag : String) : StoreRequest := { noteRequest "note" "Release notes" "what changed" undeclared with tags := some [tag] }

/-- The note is stored in an empty database, and whether its tag then finds it. -/
def noteRead (tag : String) : Option Bool :=
  match (storeMemory .plain .direct (taggedNote tag)).run freshWorld with
  | (.ok (.ok receipt _), w) => some (w.durable.tags.searchTagFilter .and_ [tag] receipt.id)
  | _ => none

theorem notes_read : noteRead "#release" = some true ∧ noteRead "episodic" = some false := by decide

theorem noteRead_some {tag : String} {found : Bool} (h : noteRead tag = some found) : ∃ receipt warnings w',
    (storeMemory .plain .direct (taggedNote tag)).run freshWorld = (.ok (.ok receipt warnings), w') ∧
      w'.durable.tags.searchTagFilter .and_ [tag] receipt.id = found := by
  unfold noteRead at h
  split at h
  · rename_i receipt warnings w' ran
    exact ⟨receipt, warnings, w', ran, Option.some.inj h⟩
  · simp at h

theorem releaseNote_readsBack : ∃ receipt warnings w',
    (storeMemory .plain .direct (taggedNote "#release")).run freshWorld = (.ok (.ok receipt warnings), w') ∧
      (w'.durable.tags.searchTagFilter .and_ ["#release"] receipt.id = true ↔
        freshWorld.durable.tags.ReadsBack ["#release"] false "#release") := by
  obtain ⟨receipt, warnings, w', stored, _⟩ := noteRead_some notes_read.1
  have valid : Runs.Guarded (TagOperation.next .plain) TagOperation.Validated [] ⟨.init, ⟨0, 0⟩⟩ := trivial
  exact ⟨receipt, warnings, w', stored, storeMemory_readsBack valid
    (List.mem_singleton_self freshWorld) rfl rfl rfl stored (List.mem_singleton_self _) .and_⟩

/-- A seeded name carries no hash, so the tag that is written to it reads nothing. -/
theorem episodicNote_lost : ¬ ∀ (operations : List (Mode × TagOperation)) (supply : Supply),
    Runs.Guarded (TagOperation.next .plain) TagOperation.Validated operations ⟨.init, supply⟩ →
    ∀ v ∈ Runs.states (TagOperation.next .plain) operations ⟨.init, supply⟩, ∀ w w' : World Db Supply,
      w.durable.tags = v.durable.tags → ∀ (request : StoreRequest) (tags : List String) (receipt : StoreReceipt)
        (warnings : List Warning), request.tags = some tags → w.durable.entities.find receipt.id = none →
          (storeMemory .plain .direct request).run w = (.ok (.ok receipt warnings), w') →
            ∀ tag ∈ tags, w'.durable.tags.searchTagFilter .and_ [tag] receipt.id = true := by
  intro always
  obtain ⟨receipt, warnings, w', stored, lost⟩ := noteRead_some notes_read.2
  have found := always [] ⟨0, 0⟩ trivial freshWorld (List.mem_singleton_self _) freshWorld w' rfl (taggedNote "episodic")
    ["episodic"] receipt warnings rfl rfl stored "episodic" (List.mem_singleton_self _)
  rw [lost] at found
  simp at found

end SaltMdb
