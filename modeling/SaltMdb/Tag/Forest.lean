import Mathlib.Logic.Relation
import SaltMdb.Library.Runs
import SaltMdb.Schema.Fresh
import SaltMdb.Tag.Effects

/-! The aliases of the tag table: each points at a canonical tag, as long as no merge makes an alias of a tag that has
aliases of its own. -/

namespace SaltMdb
open Transactions

namespace TagTable

/-- The id is that of a tag that is no alias. -/
def Canonical (T : TagTable) (id : TagId) : Prop := ∃ t ∈ T.tags, t.id = id ∧ t.canonicalId = none

/-- No alias points at the tag. -/
def Unaliased (T : TagTable) (id : TagId) : Prop := ∀ t ∈ T.tags, t.canonicalId ≠ some id

instance (T : TagTable) (id : TagId) : Decidable (T.Canonical id) :=
  inferInstanceAs (Decidable (∃ t ∈ T.tags, t.id = id ∧ t.canonicalId = none))

instance (T : TagTable) (id : TagId) : Decidable (T.Unaliased id) :=
  inferInstanceAs (Decidable (∀ t ∈ T.tags, t.canonicalId ≠ some id))

/-- The pointers end after one step, at a canonical tag, and so do the links. -/
structure Flat (T : TagTable) : Prop where
  aliases : ∀ t ∈ T.tags, ∀ c, t.canonicalId = some c → T.Canonical c
  links : ∀ l ∈ T.links, T.Canonical l.2

/-- What the alias pointers, the links and the lookups of a tag table promise. -/
structure AliasForest (T : TagTable) : Prop where
  acyclic : ∀ id, ¬ Relation.TransGen (fun a b => ∃ t ∈ T.tags, t.id = a ∧ t.canonicalId = some b) id id
  oneLevel : ∀ t ∈ T.tags, ∀ c, t.canonicalId = some c → T.Canonical c
  linked : ∀ l ∈ T.links, T.Canonical l.2
  resolves : ∀ name id, T.resolve name = some id → T.Canonical id
  resolvesId : ∀ name id, T.resolveId name = some id → T.Canonical id

variable {T : TagTable}

theorem Flat.canonical (flat : T.Flat) {t : Tag} (here : t ∈ T.tags) : T.Canonical t.canonical := by
  unfold Tag.canonical
  cases points : t.canonicalId with
  | none => exact ⟨t, here, rfl, points⟩
  | some c => exact flat.aliases t here c points

theorem resolve_mem {name : String} {id : TagId} (h : T.resolve name = some id) : ∃ t ∈ T.tags, t.canonical = id := by
  obtain ⟨t, found, rfl⟩ := Option.map_eq_some_iff.mp h
  refine ⟨t, ?_, rfl⟩
  rcases Option.or_eq_some_iff.mp found with found | ⟨_, found⟩
  · rcases Option.or_eq_some_iff.mp found with found | ⟨_, found⟩
    · exact List.mem_of_find?_eq_some found
    · exact List.mem_of_find?_eq_some found
  · unfold fetchPlural at found
    split at found
    · simp at found
    · exact List.mem_of_find?_eq_some found

theorem resolveId_mem {name : String} {id : TagId} (h : T.resolveId name = some id) : ∃ t ∈ T.tags, t.canonical = id := by
  unfold resolveId at h
  split at h
  · simp at h
  · obtain ⟨t, found, rfl⟩ := Option.map_eq_some_iff.mp h
    exact ⟨t, List.mem_of_find?_eq_some found, rfl⟩

theorem Flat.resolves (flat : T.Flat) {name : String} {id : TagId} (h : T.resolve name = some id) : T.Canonical id := by
  obtain ⟨t, here, rfl⟩ := resolve_mem h
  exact flat.canonical here

theorem Flat.resolvesId (flat : T.Flat) {name : String} {id : TagId} (h : T.resolveId name = some id) : T.Canonical id := by
  obtain ⟨t, here, rfl⟩ := resolveId_mem h
  exact flat.canonical here

theorem id_unique {a b : Tag} (ha : a ∈ T.tags) (hb : b ∈ T.tags) (same : a.id = b.id) : a = b := by
  have symm : Std.Symm fun a b : Tag => a.id ≠ b.id := ⟨fun _ _ h => h.symm⟩
  by_contra differ
  exact T.distinct.forall ha hb differ same

theorem Flat.forest (flat : T.Flat) : T.AliasForest where
  acyclic := by
    have ends : ∀ {a b}, Relation.TransGen (fun a b => ∃ t ∈ T.tags, t.id = a ∧ t.canonicalId = some b) a b →
        T.Canonical b ∧ ¬ T.Canonical a := by
      intro a b path
      induction path with
      | single step =>
        obtain ⟨t, here, rfl, points⟩ := step
        refine ⟨flat.aliases t here _ points, ?_⟩
        rintro ⟨u, there, same, none⟩
        rw [id_unique there here same, points] at none
        simp at none
      | tail _ step ih =>
        obtain ⟨t, here, rfl, points⟩ := step
        exact ⟨flat.aliases t here _ points, ih.2⟩
    exact fun id cycle => (ends cycle).2 (ends cycle).1
  oneLevel := flat.aliases
  linked := flat.links
  resolves := fun _ _ => flat.resolves
  resolvesId := fun _ _ => flat.resolvesId

/-! ### Statements on the tables -/

theorem Flat.insert (flat : T.Flat) {name key : String} {U : TagTable} (h : T.insert name key = some U) :
    U.Flat ∧ U.Canonical T.next := by
  unfold TagTable.insert at h
  split at h
  · obtain rfl := Option.some.inj h
    have still : ∀ id, T.Canonical id →
        ∃ t ∈ T.tags ++ [⟨T.next, name, some key, none⟩], t.id = id ∧ t.canonicalId = none := by
      rintro id ⟨t, here, same, none⟩
      exact ⟨t, List.mem_append_left _ here, same, none⟩
    refine ⟨⟨fun t here c points => ?_, fun l here => still _ (flat.links l here)⟩, ?_⟩
    · rcases List.mem_append.mp here with old | new
      · exact still c (flat.aliases t old c points)
      · obtain rfl := List.mem_singleton.mp new
        simp at points
    · exact ⟨_, List.mem_append_right _ (List.mem_singleton_self _), rfl, rfl⟩
  · simp at h

theorem Flat.link (flat : T.Flat) {entity : EntityId} {tag : TagId} (canonical : T.Canonical tag) :
    (T.link entity tag).Flat := by
  have same : ∀ id, (T.link entity tag).Canonical id ↔ T.Canonical id := by
    intro id
    unfold Canonical
    rw [link_tags]
  refine ⟨fun t here c points => (same c).mpr (flat.aliases t (by rwa [link_tags] at here) c points), fun l here => ?_⟩
  rw [same]
  rcases mem_link.mp here with old | rfl
  · exact flat.links l old
  · exact canonical

theorem Flat.unlinkWhere (flat : T.Flat) (sel : EntityId × TagId → Bool) : (T.unlinkWhere sel).Flat :=
  ⟨flat.aliases, fun l here => flat.links l (mem_unlinkWhere.mp here).1⟩

theorem mem_mergeInto {c a : TagId} {t : Tag} : t ∈ (T.mergeInto c a).tags ↔
    ∃ old ∈ T.tags, t = if old.id = a then { old with canonicalId := some c } else old := by
  unfold mergeInto setCanonical
  simp only [setLinks, List.mem_map, beq_iff_eq]
  exact exists_congr fun old => and_congr_right fun _ => eq_comm

/-- What a merge leaves canonical: everything but the new alias. -/
theorem canonical_mergeInto {c a id : TagId} : (T.mergeInto c a).Canonical id ↔ T.Canonical id ∧ id ≠ a := by
  constructor
  · rintro ⟨t, here, rfl, none⟩
    obtain ⟨old, there, rfl⟩ := mem_mergeInto.mp here
    by_cases same : old.id = a
    · simp [same] at none
    · rw [if_neg same] at none ⊢
      exact ⟨⟨old, there, rfl, none⟩, same⟩
  · rintro ⟨⟨t, here, rfl, none⟩, other⟩
    exact ⟨t, mem_mergeInto.mpr ⟨t, here, (if_neg other).symm⟩, rfl, none⟩

theorem links_mergeInto {c a : TagId} {l : EntityId × TagId} (here : l ∈ (T.mergeInto c a).links) :
    l.2 = c ∨ l ∈ T.links ∧ l.2 ≠ a := by
  obtain ⟨old, there, rfl⟩ := List.mem_map.mp here
  by_cases same : old.2 = a
  · rw [if_pos same]
    exact .inl rfl
  · rw [if_neg same]
    exact .inr ⟨(List.mem_filter.mp there).1, same⟩

theorem unaliased_mergeInto {c a id : TagId} (free : T.Unaliased id) (other : id ≠ c) : (T.mergeInto c a).Unaliased id := by
  intro t here
  obtain ⟨old, there, rfl⟩ := mem_mergeInto.mp here
  split
  · exact fun same => other (Option.some.inj same).symm
  · exact free old there

/-- Merging a tag without aliases of its own keeps the pointers flat. -/
theorem Flat.mergeInto (flat : T.Flat) {c a : TagId} (canonical : T.Canonical c) (other : c ≠ a) (free : T.Unaliased a) :
    (T.mergeInto c a).Flat := by
  refine ⟨fun t here d points => ?_, fun l here => ?_⟩
  · rw [canonical_mergeInto]
    obtain ⟨old, there, rfl⟩ := mem_mergeInto.mp here
    split at points
    · obtain rfl := Option.some.inj points
      exact ⟨canonical, other⟩
    · refine ⟨flat.aliases old there d points, ?_⟩
      rintro rfl
      exact free old there points
  · rw [canonical_mergeInto]
    rcases links_mergeInto here with same | ⟨old, differs⟩
    · rw [same]
      exact ⟨canonical, other⟩
    · exact ⟨flat.links l old, differs⟩

/-- A merge changes no lookup but those of the new alias. -/
theorem resolveId_mergeInto {name : String} {c a id : TagId} (h : (T.mergeInto c a).resolveId name = some id) (other : id ≠ c) :
    T.resolveId name = some id := by
  unfold resolveId at h ⊢
  split at h
  · simp at h
  · rename_i named
    rw [if_neg named]
    dsimp only at h ⊢
    obtain ⟨t, found, same⟩ := Option.map_eq_some_iff.mp h
    unfold mergeInto setCanonical at found
    simp only [setLinks, List.find?_map] at found
    obtain ⟨old, first, rfl⟩ := Option.map_eq_some_iff.mp found
    have looked : (T.tags.find? fun t => t.name.toList.map Char.toLower == (normalizeTagName name).toList.map Char.toLower) =
        some old := by
      rw [← first]
      congr 1
      funext t
      dsimp only [Function.comp_apply]
      split <;> rfl
    rw [looked]
    split at same
    · exact absurd same.symm other
    · exact congrArg some same

/-! ### Merges one after the other -/

/-- The tags a list of merges makes aliases of. -/
def mergePairs (T : TagTable) (pairs : List (TagId × TagId)) : TagTable :=
  pairs.foldl (fun U pair => U.mergeInto pair.1 pair.2) T

theorem Flat.mergePairs {pairs : List (TagId × TagId)} (flat : T.Flat)
    (canonical : ∀ pair ∈ pairs, T.Canonical pair.1) (free : ∀ pair ∈ pairs, T.Unaliased pair.2)
    (apart : ∀ pair ∈ pairs, ∀ other ∈ pairs, pair.1 ≠ other.2) : (T.mergePairs pairs).Flat := by
  induction pairs generalizing T with
  | nil => exact flat
  | cons pair rest ih =>
    have here : pair ∈ pair :: rest := List.mem_cons_self
    have merged := flat.mergeInto (canonical pair here) (apart pair here pair here) (free pair here)
    refine ih merged ?_ ?_ ?_
    · intro later member
      have there := List.mem_cons_of_mem pair member
      exact canonical_mergeInto.mpr ⟨canonical later there, apart later there pair here⟩
    · intro later member
      have there := List.mem_cons_of_mem pair member
      exact unaliased_mergeInto (free later there) fun same => apart pair here later there same.symm
    · intro one first other second
      exact apart one (List.mem_cons_of_mem pair first) other (List.mem_cons_of_mem pair second)

/-! ### The librarian's groups -/

def groupPairs (groups : List (Tag × List Tag)) : List (TagId × TagId) :=
  groups.flatMap fun group => group.2.map fun alias_ => (group.1.id, alias_.id)

theorem mergeGroups_pairs : T.mergeGroups =
    T.mergePairs (groupPairs (tagGroups (T.tags.filter (·.canonicalId.isNone)) (T.tags.filter (·.canonicalId.isNone)).length)) := by
  unfold mergeGroups mergePairs groupPairs
  rw [List.foldl_flatMap]
  simp only [List.foldl_map]

/-- Every tag of the groups is among those that were grouped, and none heads one group and follows in another. -/
theorem tagGroups_spec {tags : List Tag} (once : tags.Pairwise fun a b => a.id ≠ b.id) (fuel : Nat) :
    (∀ group ∈ tagGroups tags fuel, group.1 ∈ tags ∧ ∀ alias_ ∈ group.2, alias_ ∈ tags) ∧
      ∀ group ∈ tagGroups tags fuel, ∀ other ∈ tagGroups tags fuel, ∀ alias_ ∈ other.2, group.1.id ≠ alias_.id := by
  induction fuel generalizing tags with
  | zero => cases tags <;> simp [tagGroups]
  | succ fuel ih =>
    cases tags with
    | nil => simp [tagGroups]
    | cons t rest =>
      obtain ⟨apart, once⟩ := List.pairwise_cons.mp once
      obtain ⟨within, separate⟩ := ih (once.filter (heuristicKey ·.name != heuristicKey t.name))
      have later : ∀ u ∈ rest.filter (heuristicKey ·.name != heuristicKey t.name), u ∈ rest :=
        fun u member => (List.mem_filter.mp member).1
      refine ⟨fun group member => ?_, fun group member other otherMember alias_ follows => ?_⟩
      · rcases List.mem_cons.mp member with rfl | member
        · exact ⟨List.mem_cons_self, fun u follows => List.mem_cons_of_mem t (List.mem_filter.mp follows).1⟩
        · obtain ⟨head, tail⟩ := within group member
          exact ⟨List.mem_cons_of_mem t (later _ head), fun u follows => List.mem_cons_of_mem t (later u (tail u follows))⟩
      · rcases List.mem_cons.mp member with rfl | member
        · rcases List.mem_cons.mp otherMember with rfl | otherMember
          · exact apart alias_ (List.mem_filter.mp follows).1
          · exact apart alias_ (later alias_ ((within other otherMember).2 alias_ follows))
        · rcases List.mem_cons.mp otherMember with rfl | otherMember
          · obtain ⟨head, differs⟩ := List.mem_filter.mp (within group member).1
            obtain ⟨there, same⟩ := List.mem_filter.mp follows
            intro sameId
            have symm : Std.Symm fun a b : Tag => a.id ≠ b.id := ⟨fun _ _ h => h.symm⟩
            have equal : group.1 = alias_ := by
              by_contra differ
              exact once.forall head there differ sameId
            rw [equal, bne_iff_ne] at differs
            exact differs (beq_iff_eq.mp same)
          · exact separate group member other otherMember alias_ follows

/-- The librarian makes no alias of a tag that has aliases. -/
def GroupsUnaliased (T : TagTable) : Prop :=
  let open_ := T.tags.filter (·.canonicalId.isNone)
  ∀ group ∈ tagGroups open_ open_.length, ∀ alias_ ∈ group.2, T.Unaliased alias_.id

theorem Flat.mergeGroups (flat : T.Flat) (free : T.GroupsUnaliased) : T.mergeGroups.Flat := by
  have once : (T.tags.filter (·.canonicalId.isNone)).Pairwise fun a b => a.id ≠ b.id := T.distinct.filter _
  obtain ⟨within, separate⟩ := tagGroups_spec once (T.tags.filter (·.canonicalId.isNone)).length
  rw [mergeGroups_pairs]
  refine flat.mergePairs ?_ ?_ ?_
  · intro pair member
    obtain ⟨group, here, member⟩ := List.mem_flatMap.mp member
    obtain ⟨alias_, _, rfl⟩ := List.mem_map.mp member
    obtain ⟨there, none⟩ := List.mem_filter.mp (within group here).1
    exact ⟨group.1, there, rfl, Option.isNone_iff_eq_none.mp none⟩
  · intro pair member
    obtain ⟨group, here, member⟩ := List.mem_flatMap.mp member
    obtain ⟨alias_, follows, rfl⟩ := List.mem_map.mp member
    exact free group here alias_ follows
  · intro pair member other otherMember
    obtain ⟨group, here, member⟩ := List.mem_flatMap.mp member
    obtain ⟨_, _, rfl⟩ := List.mem_map.mp member
    obtain ⟨second, there, otherMember⟩ := List.mem_flatMap.mp otherMember
    obtain ⟨alias_, follows, rfl⟩ := List.mem_map.mp otherMember
    exact separate group here second there alias_ follows

/-- None of the names stands for a tag that has aliases, the kept one apart. -/
def NamesUnaliased (T : TagTable) (canonical : TagId) (names : List String) : Prop :=
  ∀ name ∈ names, ∀ id, T.resolveId name = some id → id ≠ canonical → T.Unaliased id

theorem NamesUnaliased.merge {canonical a : TagId} {names : List String} (free : T.NamesUnaliased canonical names) :
    (T.mergeInto canonical a).NamesUnaliased canonical names := by
  intro name member id looked other
  exact unaliased_mergeInto (free name member id (resolveId_mergeInto looked other) other) other

end TagTable

/-! ### Resolution and its writers -/

variable {env : Env}

theorem sanitizeResolutionName_sameTags (name : String) (agentId : Option String) :
    Txn.Settles (fun d d' : Db => d'.tags = d.tags) (sanitizeResolutionName env name agentId) := by
  have refl : ∀ d : Db, d.tags = d.tags := fun _ => rfl
  have trans : ∀ a b c : Db, b.tags = a.tags → c.tags = b.tags → c.tags = a.tags := fun _ _ _ h k => k.trans h
  have logged : ∀ content, Txn.Settles (fun d d' : Db => d'.tags = d.tags) (logTagIssue env agentId content) :=
    fun _ _ => ⟨_, _, rfl, rfl⟩
  refine Txn.settles_bind trans ?_ fun body => Txn.settles_bind trans ?_ fun _ => Txn.settles_pure refl _
  · unfold resolutionBody
    cases sanitizeTagBody (tagBody name) with
    | ok body => exact Txn.settles_pure refl _
    | error rejection => exact Txn.settles_bind trans (logged _) fun _ => Txn.settles_pure refl _
  · unfold logSanitized
    split
    · exact Txn.settles_pure refl _
    · exact logged _

/-- A name resolves to a canonical tag, a new one where it has to. -/
theorem resolveOrCreateTag_flat (tagName : String) (agentId : Option String) :
    Txn.Ensures (fun d : Db => d.tags.Flat) (resolveOrCreateTag env tagName agentId)
      fun found d => d.tags.Flat ∧ ∀ id ∈ found, d.tags.Canonical id := by
  unfold resolveOrCreateTag
  extract_lets name
  split
  · exact Txn.ensures_pure fun d flat => ⟨flat, by simp⟩
  · refine Txn.ensures_bind ((sanitizeResolutionName_sameTags _ _).ensures fun d d' same flat => same ▸ flat) fun sanitized => ?_
    split
    · exact Txn.ensures_pure fun d flat => ⟨flat, by simp⟩
    · intro w flat
      rw [Tx.run_db_bind]
      split
      · rename_i id found
        refine ⟨_, w, Txn.run_pure _ w, flat, fun other same => ?_⟩
        obtain rfl := Option.some.inj same
        exact flat.resolves found
      · rename_i missing
        obtain ⟨U, inserted⟩ := insert_of_fetchName (normalizedTagKey sanitized) (fetchName_of_resolve missing)
        obtain ⟨flatU, canonical⟩ := flat.insert inserted
        rw [inserted]
        refine ⟨_, _, rfl, flatU, fun other same => ?_⟩
        obtain rfl := Option.some.inj same
        exact canonical

theorem resolveAndLink_flat (entityId : EntityId) (agentId : Option String) (tag : String) :
    Txn.Ensures (fun d : Db => d.tags.Flat) (do linkTag entityId (← resolveOrCreateTag env tag agentId))
      fun _ d => d.tags.Flat := by
  refine Txn.ensures_bind (resolveOrCreateTag_flat tag agentId) fun found => ?_
  cases found with
  | none => exact Txn.ensures_pure fun d holds => holds.1
  | some id => exact fun w holds => ⟨(), _, rfl, holds.1.link (holds.2 id rfl)⟩

theorem insertTags_flat (entityId : EntityId) (agentId : Option String) (tags : List String) :
    Txn.Ensures (fun d : Db => d.tags.Flat) (insertTags env entityId agentId tags) fun _ d => d.tags.Flat :=
  Txn.ensures_forEach (resolveAndLink_flat entityId agentId) tags

theorem mergeTagList_flat {canonical : TagId} {names : List String} (report : List String × List (String × String)) :
    Txn.Ensures (fun d : Db => d.tags.Flat ∧ d.tags.Canonical canonical ∧ d.tags.NamesUnaliased canonical names)
      (mergeTagList canonical names report) fun _ d => d.tags.Flat := by
  induction names generalizing report with
  | nil => exact Txn.ensures_pure fun d holds => holds.1
  | cons name rest ih =>
    refine Txn.ensures_bind (fun w holds => ?_) ih
    obtain ⟨flat, kept, free⟩ := holds
    have later : w.durable.tags.NamesUnaliased canonical rest :=
      fun other member => free other (List.mem_cons_of_mem name member)
    unfold mergeTag
    rw [Tx.run_db_bind]
    cases looked : w.durable.tags.resolveId name with
    | none => exact ⟨_, w, Txn.run_pure _ w, flat, kept, later⟩
    | some alias_ =>
      dsimp only
      split
      · exact ⟨_, w, Txn.run_pure _ w, flat, kept, later⟩
      · rename_i other
        have unaliased := free name List.mem_cons_self alias_ looked other
        refine ⟨_, _, rfl, flat.mergeInto kept (Ne.symm other) unaliased, ?_, later.merge⟩
        exact TagTable.canonical_mergeInto.mpr ⟨kept, Ne.symm other⟩

/-! ### Runs -/

/-- The operations on tags: the resolution of a name, the writers of a memory's links and the merges. -/
inductive TagOperation where
  | resolveTag (tagName : String) (agentId : Option String)
  | insertTags (entityId : EntityId) (agentId : Option String) (tags : List String)
  | deleteTags (entityId : EntityId)
  | mergeTags (keepTag : String) (tagsToMerge : List String)
  | mergeTagsHeuristics

def TagOperation.service (env : Env) (operation : TagOperation) (mode : Mode) : Tx Unit :=
  match operation with
  | .resolveTag tagName agentId => do
    let _ ← writeTransactionRetrying mode (resolveOrCreateTag env tagName agentId)
    return ()
  | .insertTags entityId agentId tags => writeTransactionRetrying mode (SaltMdb.insertTags env entityId agentId tags)
  | .deleteTags entityId => writeTransactionRetrying mode (Tx.setTags (·.unlinkWhere (·.1 == entityId)))
  | .mergeTags keepTag tagsToMerge => do
    let _ ← SaltMdb.mergeTags mode keepTag tagsToMerge
    return ()
  | .mergeTagsHeuristics => SaltMdb.mergeTagsHeuristics mode

def TagOperation.next (env : Env) (w : World Db Supply) (operation : Mode × TagOperation) : World Db Supply :=
  ((serve operation.1 (operation.2.service env)).run w).2

/-- The operation makes no alias of a tag that has aliases of its own. -/
def TagOperation.SparesTargets (operation : Mode × TagOperation) (w : World Db Supply) : Prop :=
  match operation.2 with
  | .mergeTags keepTag tagsToMerge =>
    ∀ canonical, w.durable.tags.resolveId keepTag = some canonical → w.durable.tags.NamesUnaliased canonical tagsToMerge
  | .mergeTagsHeuristics => w.durable.tags.GroupsUnaliased
  | _ => True

variable (env) in
theorem TagOperation.service_flat {operation : TagOperation} {mode : Mode} {w : World Db Supply}
    (flat : w.durable.tags.Flat) (spares : SparesTargets (mode, operation) w) :
    ∃ w', (operation.service env mode).run w = (.ok (), w') ∧ w'.durable.tags.Flat := by
  cases operation with
  | resolveTag tagName agentId =>
    dsimp only [TagOperation.service]
    rw [writeTransactionRetrying_total (resolveOrCreateTag_settles tagName agentId).total]
    obtain ⟨found, w', ran, flat', _⟩ := resolveOrCreateTag_flat tagName agentId w flat
    exact ⟨w', Txn.bind_run_ok ran, flat'⟩
  | insertTags entityId agentId tags =>
    dsimp only [TagOperation.service]
    rw [writeTransactionRetrying_total (insertTags_settles entityId agentId tags).total]
    obtain ⟨_, w', ran, flat'⟩ := insertTags_flat entityId agentId tags w flat
    exact ⟨w', ran, flat'⟩
  | deleteTags entityId =>
    dsimp only [TagOperation.service]
    rw [writeTransactionRetrying_total (setTags_settles _).total]
    exact ⟨_, rfl, flat.unlinkWhere _⟩
  | mergeTags keepTag tagsToMerge =>
    have merged : ∃ answer w', (SaltMdb.mergeTags mode keepTag tagsToMerge).run w = (.ok answer, w') ∧ w'.durable.tags.Flat := by
      unfold SaltMdb.mergeTags
      rw [Tx.run_db_bind]
      cases kept : w.durable.tags.resolveId keepTag with
      | none => exact ⟨_, w, Txn.run_pure _ w, flat⟩
      | some canonical =>
        dsimp only
        rw [writeTransactionRetrying_total (mergeTagList_settles canonical tagsToMerge _).total]
        obtain ⟨report, w', ran, flat'⟩ := mergeTagList_flat ([], []) w ⟨flat, flat.resolvesId kept, spares canonical kept⟩
        exact ⟨_, w', Txn.bind_run_ok ran, flat'⟩
    obtain ⟨answer, w', ran, flat'⟩ := merged
    exact ⟨w', Txn.bind_run_ok ran, flat'⟩
  | mergeTagsHeuristics =>
    dsimp only [TagOperation.service, SaltMdb.mergeTagsHeuristics]
    rw [writeTransactionRetrying_total (setTags_settles _).total]
    exact ⟨_, rfl, flat.mergeGroups spares⟩

theorem TagOperation.next_flat {operation : Mode × TagOperation} {w : World Db Supply} (flat : w.durable.tags.Flat)
    (spares : SparesTargets operation w) : (TagOperation.next env w operation).durable.tags.Flat := by
  obtain ⟨mode, operation⟩ := operation
  obtain ⟨w', ran, flat'⟩ := TagOperation.service_flat env flat spares
  unfold TagOperation.next
  cases mode with
  | direct =>
    show ((operation.service env .direct).run w).2.durable.tags.Flat
    rwa [ran]
  | coordinator =>
    show ((Txn.atomic (operation.service env .coordinator)).run w).2.durable.tags.Flat
    rw [(Txn.atomic_ok).mpr ran]
    exact flat'

/-- In a run whose merges make no alias of a tag that has aliases, the aliases are one level deep throughout, every
link is to a canonical tag, and so is what any name resolves to. -/
theorem states_aliasForest (env : Env) (operations : List (Mode × TagOperation)) (supply : Supply)
    (spares : Runs.Guarded (TagOperation.next env) TagOperation.SparesTargets operations ⟨.init, supply⟩) :
    ∀ w ∈ Runs.states (TagOperation.next env) operations ⟨.init, supply⟩, w.durable.tags.AliasForest := by
  have start : Db.init.tags.Flat := ⟨by decide, by decide⟩
  have flat := Runs.invariant_of_guarded (P := fun w : World Db Supply => w.durable.tags.Flat)
    (fun w operation holds allowed => TagOperation.next_flat holds allowed) (s := ⟨.init, supply⟩) start spares
  exact fun w member => (flat w member).forest

/-! ### Two merges -/

def threeTags : Mode × TagOperation := (.direct, .insertTags "memory" none ["#alpha", "#beta", "#gamma"])

def alphaIntoBeta : Mode × TagOperation := (.direct, .mergeTags "#beta" ["#alpha"])

def betaIntoGamma : Mode × TagOperation := (.direct, .mergeTags "#gamma" ["#beta"])

def taggedWorld : World Db Supply := TagOperation.next .plain ⟨.init, ⟨0, 0⟩⟩ threeTags

theorem alphaIntoBeta_aliasForest : TagOperation.SparesTargets alphaIntoBeta taggedWorld ∧
    ∀ w ∈ Runs.states (TagOperation.next .plain) [threeTags, alphaIntoBeta] ⟨.init, ⟨0, 0⟩⟩,
      w.durable.tags.AliasForest := by
  have free : taggedWorld.durable.tags.resolveId "#alpha" = some 3 ∧ taggedWorld.durable.tags.Unaliased 3 := by
    decide
  have spares : TagOperation.SparesTargets alphaIntoBeta taggedWorld := by
    intro canonical _ name member id looked _
    obtain rfl := List.mem_singleton.mp member
    rw [free.1] at looked
    obtain rfl := Option.some.inj looked
    exact free.2
  exact ⟨spares, states_aliasForest .plain [threeTags, alphaIntoBeta] ⟨0, 0⟩ ⟨trivial, spares, trivial⟩⟩

/-- The second merge leaves the alias of the first one pointing at an alias. -/
theorem betaIntoGamma_broken : ¬ ∀ (operations : List (Mode × TagOperation)) (supply : Supply),
    ∀ w ∈ Runs.states (TagOperation.next .plain) operations ⟨.init, supply⟩, w.durable.tags.AliasForest := by
  intro always
  let merged := TagOperation.next .plain (TagOperation.next .plain taggedWorld alphaIntoBeta) betaIntoGamma
  have reached : merged ∈ Runs.states (TagOperation.next .plain) [threeTags, alphaIntoBeta, betaIntoGamma] ⟨.init, ⟨0, 0⟩⟩ :=
    List.mem_cons_of_mem _ (List.mem_cons_of_mem _ (List.mem_cons_of_mem _ (List.mem_singleton_self _)))
  have chained : merged.durable.tags.resolveId "#alpha" = some 4 ∧ ¬ merged.durable.tags.Canonical 4 := by
    decide
  exact chained.2 ((always _ _ merged reached).resolvesId "#alpha" 4 chained.1)

end SaltMdb
