import SaltMdb.Tag.Forest
import SaltMdb.Tag.Names
import Mathlib

/-! The rows of the tag table, no two of which a name could mean, and what a list of submitted tags adds to them. -/

namespace SaltMdb
open Transactions

variable {env : Env}

namespace TagTable

/-- Each row carries its key and a name that some tag is written with, or a seeded one; the rows are told apart by
their keys. -/
structure Keyed (T : TagTable) : Prop where
  spelled : ∀ t ∈ T.tags, (∃ tag, writtenName tag = some t.name) ∨
    t.name.toList.head? ≠ some '#' ∧ computedTagKey t.name = normalizedTagKey t.name
  keyed : ∀ t ∈ T.tags, t.normalizedName = some (normalizedTagKey t.name)
  apart : T.tags.Pairwise fun a b => alikeTags a.name b.name = false
  pointed : ∀ t ∈ T.tags, ∀ c ∈ t.canonicalId, c < T.next

variable {T U V : TagTable}

theorem Keyed.unique (keyed : T.Keyed) {a b : Tag} (ha : a ∈ T.tags) (hb : b ∈ T.tags) (alike : alikeTags a.name b.name = true) :
    a = b := by
  have symm : Std.Symm fun a b : Tag => alikeTags a.name b.name = false := by
    refine ⟨fun a b apart => ?_⟩
    rw [← Bool.not_eq_true] at apart ⊢
    exact fun alike => apart (alikeTags_symm alike)
  by_contra differ
  have apart := keyed.apart.forall ha hb differ
  rw [alike] at apart
  simp at apart

theorem Keyed.computed (keyed : T.Keyed) {t : Tag} (here : t ∈ T.tags) {name : String}
    (same : computedTagKey t.name = normalizedTagKey name) : normalizedTagKey t.name = normalizedTagKey name := by
  rcases keyed.spelled t here with ⟨tag, written⟩ | ⟨_, own⟩
  · exact computed_written written same
  · rw [← own, same]

theorem Keyed.key (keyed : T.Keyed) {t : Tag} (here : t ∈ T.tags) : t.key = normalizedTagKey t.name := by
  unfold Tag.key
  rw [keyed.keyed t here]
  dsimp only
  split
  · rfl
  · rfl

theorem Keyed.canonical_lt (keyed : T.Keyed) {t : Tag} (here : t ∈ T.tags) : t.canonical < T.next := by
  unfold Tag.canonical
  cases points : t.canonicalId with
  | none => exact T.below t here
  | some c => exact keyed.pointed t here c points

/-! ### Resolution -/

theorem Keyed.of_resolve (keyed : T.Keyed) {name : String} {id : TagId} (h : T.resolve name = some id) :
    ∃ t ∈ T.tags, alikeTags t.name name = true ∧ t.canonical = id := by
  obtain ⟨t, found, rfl⟩ := Option.map_eq_some_iff.mp h
  suffices alike : t ∈ T.tags ∧ alikeTags t.name name = true from ⟨t, alike.1, alike.2, rfl⟩
  rcases Option.or_eq_some_iff.mp found with found | ⟨_, found⟩
  · rcases Option.or_eq_some_iff.mp found with found | ⟨_, found⟩
    · have same := List.find?_some found
      rw [beq_iff_eq] at same
      refine ⟨List.mem_of_find?_eq_some found, ?_⟩
      rw [same]
      exact alikeTags_refl name
    · have here := List.mem_of_find?_eq_some found
      have matched := List.find?_some found
      refine ⟨here, sameTagKey_iff.mpr (.inl ?_)⟩
      simp only [Bool.or_eq_true, beq_iff_eq, keyed.keyed t here, Option.some.injEq] at matched
      rcases matched with same | same
      · exact same
      · exact keyed.computed here same
  · unfold fetchPlural at found
    split at found
    · simp at found
    · rename_i long
      have here := List.mem_of_find?_eq_some found
      have matched := List.find?_some found
      simp only [Bool.and_eq_true, decide_eq_true_eq, beq_iff_eq, keyed.key here] at matched
      exact ⟨here, sameTagKey_iff.mpr (.inr ⟨⟨matched.1, by omega⟩, matched.2.symm⟩)⟩

/-- A name resolves to the canonical tag of the row it is alike to. -/
theorem Keyed.resolve (keyed : T.Keyed) {t : Tag} (here : t ∈ T.tags) {name : String} (alike : alikeTags t.name name = true) :
    T.resolve name = some t.canonical := by
  cases resolved : T.resolve name with
  | some id =>
    obtain ⟨u, there, again, rfl⟩ := keyed.of_resolve resolved
    rw [keyed.unique here there (alikeTags_trans alike (alikeTags_symm again))]
  | none =>
    simp only [TagTable.resolve, Option.map_eq_none_iff, Option.or_eq_none_iff] at resolved
    obtain ⟨⟨_, notKeyed⟩, notPlural⟩ := resolved
    exfalso
    rcases sameTagKey_iff.mp alike with same | ⟨⟨long, longer⟩, same⟩
    · have missed := List.find?_eq_none.mp notKeyed t here
      simp [keyed.keyed t here, same] at missed
    · unfold fetchPlural at notPlural
      rw [if_neg (by omega)] at notPlural
      have missed := List.find?_eq_none.mp notPlural t here
      simp [keyed.key here, long, same] at missed

theorem Keyed.fetchName (keyed : T.Keyed) {t : Tag} (here : t ∈ T.tags) {name : String} (same : t.name = name) :
    T.fetchName name = some t := by
  cases found : T.fetchName name with
  | some u =>
    have named := List.find?_some found
    rw [beq_iff_eq] at named
    rw [keyed.unique (List.mem_of_find?_eq_some found) here (by rw [named, same]; exact alikeTags_refl name)]
  | none =>
    have missed := List.find?_eq_none.mp found t here
    simp [same] at missed

/-! ### Statements that keep it -/

theorem Keyed.of_tags (keyed : T.Keyed) (tags : U.tags = T.tags) (next : U.next = T.next) : U.Keyed where
  spelled := by rw [tags]; exact keyed.spelled
  keyed := by rw [tags]; exact keyed.keyed
  apart := by rw [tags]; exact keyed.apart
  pointed := by rw [tags, next]; exact keyed.pointed

@[simp] theorem link_next {entity : EntityId} {tag : TagId} : (T.link entity tag).next = T.next := by
  unfold TagTable.link
  split <;> rfl

theorem Keyed.link (keyed : T.Keyed) (entity : EntityId) (tag : TagId) : (T.link entity tag).Keyed :=
  keyed.of_tags link_tags link_next

theorem Keyed.unlinkWhere (keyed : T.Keyed) (sel : EntityId × TagId → Bool) : (T.unlinkWhere sel).Keyed :=
  keyed.of_tags rfl rfl

theorem Keyed.insert (keyed : T.Keyed) {tag name : String} (written : writtenName tag = some name) (missing : T.resolve name = none)
    (h : T.insert name (normalizedTagKey name) = some U) : U.Keyed := by
  unfold TagTable.insert at h
  split at h
  · obtain rfl := Option.some.inj h
    refine ⟨fun t here => ?_, fun t here => ?_, ?_, fun t here c points => ?_⟩
    · rcases List.mem_append.mp here with old | new
      · exact keyed.spelled t old
      · obtain rfl := List.mem_singleton.mp new
        exact .inl ⟨tag, written⟩
    · rcases List.mem_append.mp here with old | new
      · exact keyed.keyed t old
      · obtain rfl := List.mem_singleton.mp new
        rfl
    · rw [List.pairwise_append]
      refine ⟨keyed.apart, List.pairwise_singleton _ _, fun a old b new => ?_⟩
      obtain rfl := List.mem_singleton.mp new
      rw [← Bool.not_eq_true]
      intro alike
      simp [keyed.resolve old alike] at missing
    · rcases List.mem_append.mp here with old | new
      · exact Nat.lt_succ_of_lt (keyed.pointed t old c points)
      · obtain rfl := List.mem_singleton.mp new
        simp at points
  · simp at h

theorem Keyed.mergeInto (keyed : T.Keyed) {c : TagId} (below : c < T.next) (a : TagId) : (T.mergeInto c a).Keyed := by
  have rows : ∀ t ∈ (T.mergeInto c a).tags, ∃ old ∈ T.tags, t.name = old.name ∧ t.normalizedName = old.normalizedName ∧
      (t.canonicalId = old.canonicalId ∨ t.canonicalId = some c) := by
    intro t here
    obtain ⟨old, there, rfl⟩ := mem_mergeInto.mp here
    refine ⟨old, there, ?_⟩
    split
    · exact ⟨rfl, rfl, .inr rfl⟩
    · exact ⟨rfl, rfl, .inl rfl⟩
  refine ⟨fun t here => ?_, fun t here => ?_, ?_, fun t here d points => ?_⟩
  · obtain ⟨old, there, name, _⟩ := rows t here
    rw [name]
    exact keyed.spelled old there
  · obtain ⟨old, there, name, key, _⟩ := rows t here
    rw [name, key]
    exact keyed.keyed old there
  · unfold TagTable.mergeInto setCanonical
    simp only [setLinks, List.pairwise_map]
    refine keyed.apart.imp fun {x y} apart => ?_
    split <;> split <;> exact apart
  · obtain ⟨old, there, _, _, same | same⟩ := rows t here
    · exact keyed.pointed old there d (same ▸ points)
    · rw [same] at points
      obtain rfl := Option.some.inj points
      exact below

theorem Keyed.mergePairs {pairs : List (TagId × TagId)} (keyed : T.Keyed) (below : ∀ pair ∈ pairs, pair.1 < T.next) :
    (T.mergePairs pairs).Keyed := by
  induction pairs generalizing T with
  | nil => exact keyed
  | cons pair rest ih =>
    exact ih (keyed.mergeInto (below pair List.mem_cons_self) pair.2) fun later member =>
      below later (List.mem_cons_of_mem pair member)

theorem Keyed.mergeGroups (keyed : T.Keyed) : T.mergeGroups.Keyed := by
  have once : (T.tags.filter (·.canonicalId.isNone)).Pairwise fun a b => a.id ≠ b.id := T.distinct.filter _
  obtain ⟨within, _⟩ := tagGroups_spec once (T.tags.filter (·.canonicalId.isNone)).length
  rw [mergeGroups_pairs]
  refine keyed.mergePairs fun pair member => ?_
  obtain ⟨group, here, member⟩ := List.mem_flatMap.mp member
  obtain ⟨_, _, rfl⟩ := List.mem_map.mp member
  exact T.below _ (List.mem_filter.mp (within group here).1).1

theorem Keyed.resolveId_lt (keyed : T.Keyed) {name : String} {id : TagId} (h : T.resolveId name = some id) : id < T.next := by
  obtain ⟨t, here, rfl⟩ := resolveId_mem h
  exact keyed.canonical_lt here

/-! ### Names written one after the other -/

/-- `U` is `T` with the memory linked to the names, where a name that is alike to no row, nor to a name before it, has a
new row. -/
structure Wrote (entity : EntityId) (names : List String) (T U : TagTable) : Prop where
  keyed : U.Keyed
  next : T.next ≤ U.next
  rows : ∃ news, U.tags = T.tags ++ news ∧ ∀ t ∈ news, t.canonicalId = none ∧ T.next ≤ t.id ∧
    (∃ tag, writtenName tag = some t.name) ∧ T.resolve t.name = none ∧ names.find? (alikeTags t.name) = some t.name
  resolved : ∀ name ∈ names, (U.resolve name).isSome
  links : ∀ l, l ∈ U.links ↔ l ∈ T.links ∨ l.1 = entity ∧ ∃ name ∈ names, U.resolve name = some l.2

variable {entity : EntityId} {names more : List String}

theorem Wrote.persists (wrote : T.Wrote entity names U) (keyed : T.Keyed) {name : String} {id : TagId}
    (h : T.resolve name = some id) : U.resolve name = some id := by
  obtain ⟨t, here, alike, rfl⟩ := keyed.of_resolve h
  obtain ⟨news, tags, _⟩ := wrote.rows
  refine wrote.keyed.resolve ?_ alike
  rw [tags]
  exact List.mem_append_left _ here

theorem Wrote.refl (keyed : T.Keyed) : T.Wrote entity [] T where
  keyed := keyed
  next := Nat.le_refl _
  rows := ⟨[], by simp, by simp⟩
  resolved := by simp
  links := by simp

theorem Wrote.trans (keyed : T.Keyed) (first : T.Wrote entity names U) (second : U.Wrote entity more V) :
    T.Wrote entity (names ++ more) V where
  keyed := second.keyed
  next := first.next.trans second.next
  rows := by
    obtain ⟨news, tags, fresh⟩ := first.rows
    obtain ⟨later, tags', fresh'⟩ := second.rows
    refine ⟨news ++ later, by rw [tags', tags, List.append_assoc], fun t member => ?_⟩
    rcases List.mem_append.mp member with old | new
    · obtain ⟨plain, above, written, missing, found⟩ := fresh t old
      exact ⟨plain, above, written, missing, by rw [List.find?_append, found]; rfl⟩
    · obtain ⟨plain, above, written, missing, found⟩ := fresh' t new
      refine ⟨plain, first.next.trans above, written, ?_, ?_⟩
      · rw [Option.eq_none_iff_forall_ne_some]
        intro id resolved
        simp [first.persists keyed resolved] at missing
      · have none_ : names.find? (alikeTags t.name) = none := by
          rw [List.find?_eq_none]
          intro name listed alike
          obtain ⟨id, resolved⟩ := Option.isSome_iff_exists.mp (first.resolved name listed)
          obtain ⟨u, here, again, rfl⟩ := first.keyed.of_resolve resolved
          simp [first.keyed.resolve here (alikeTags_trans again (alikeTags_symm alike))] at missing
        rw [List.find?_append, none_, found]
        rfl
  resolved := by
    intro name member
    rcases List.mem_append.mp member with old | new
    · obtain ⟨id, resolved⟩ := Option.isSome_iff_exists.mp (first.resolved name old)
      rw [second.persists first.keyed resolved]
      rfl
    · exact second.resolved name new
  links := by
    intro l
    rw [second.links, first.links, or_assoc, ← and_or_left]
    refine or_congr_right (and_congr_right fun _ => ?_)
    constructor
    · rintro (⟨name, member, resolved⟩ | ⟨name, member, resolved⟩)
      · exact ⟨name, List.mem_append_left _ member, second.persists first.keyed resolved⟩
      · exact ⟨name, List.mem_append_right _ member, resolved⟩
    · rintro ⟨name, member, resolved⟩
      rcases List.mem_append.mp member with old | new
      · obtain ⟨id, before⟩ := Option.isSome_iff_exists.mp (first.resolved name old)
        have same := second.persists first.keyed before
        rw [resolved] at same
        exact .inl ⟨name, old, by rw [before, same]⟩
      · exact .inr ⟨name, new, resolved⟩

/-- A name that resolves is linked as it does. -/
theorem Wrote.link (keyed : T.Keyed) {name : String} {id : TagId} (resolved : T.resolve name = some id) :
    T.Wrote entity [name] (T.link entity id) where
  keyed := keyed.link entity id
  next := by rw [link_next]
  rows := ⟨[], by simp, by simp⟩
  resolved := by
    intro other member
    obtain rfl := List.mem_singleton.mp member
    obtain ⟨t, here, alike, rfl⟩ := keyed.of_resolve resolved
    rw [(keyed.link entity _).resolve (by rw [link_tags]; exact here) alike]
    rfl
  links := by
    intro l
    obtain ⟨t, here, alike, rfl⟩ := keyed.of_resolve resolved
    rw [mem_link]
    refine or_congr_right ?_
    rw [Prod.ext_iff]
    refine and_congr_right fun _ => ?_
    have again := (keyed.link entity t.canonical).resolve (show t ∈ (T.link entity t.canonical).tags by rw [link_tags]; exact here) alike
    simp [again, eq_comm]

/-- The table and the tag that a name stands for once it was resolved or created. -/
def written (T : TagTable) (name : String) : TagTable × TagId :=
  match T.resolve name with
  | some id => (T, id)
  | none => ((T.insert name (normalizedTagKey name)).getD T, T.next)

@[simp] theorem resolve_link {name : String} {tag : TagId} : (T.link entity tag).resolve name = T.resolve name := by
  unfold TagTable.resolve TagTable.fetchName fetchNormalized fetchPlural
  rw [link_tags]

/-- What the write of one name adds, before the memory is linked to it. -/
theorem Keyed.written (keyed : T.Keyed) {tag name : String} (spelled : writtenName tag = some name) :
    (T.written name).1.Keyed ∧ (T.written name).1.resolve name = some (T.written name).2 ∧
      ∀ entity, T.Wrote entity [name] ((T.written name).1.link entity (T.written name).2) := by
  unfold TagTable.written
  cases resolved : T.resolve name with
  | some id => exact ⟨keyed, resolved, fun entity => .link keyed resolved⟩
  | none =>
    obtain ⟨U, inserted⟩ := insert_of_fetchName (normalizedTagKey name) (fetchName_of_resolve resolved)
    have keyedU := keyed.insert spelled resolved inserted
    dsimp only
    rw [inserted, Option.getD_some]
    unfold TagTable.insert at inserted
    split at inserted
    · obtain rfl := Option.some.inj inserted
      have found := keyedU.resolve (List.mem_append_right T.tags (List.mem_singleton_self _)) (alikeTags_refl name)
      refine ⟨keyedU, found, fun entity => ⟨keyedU.link _ _, ?_, ?_, ?_, ?_⟩⟩
      · rw [link_next]
        exact Nat.le_succ T.next
      · refine ⟨[⟨T.next, name, some (normalizedTagKey name), none⟩], by rw [link_tags], fun t member => ?_⟩
        obtain rfl := List.mem_singleton.mp member
        exact ⟨rfl, Nat.le_refl _, ⟨tag, spelled⟩, resolved, by simp [alikeTags_refl]⟩
      · intro other member
        obtain rfl := List.mem_singleton.mp member
        exact ((Wrote.link keyedU found).resolved other (List.mem_singleton_self _))
      · exact (Wrote.link keyedU found).links
    · simp at inserted

end TagTable

/-! ### The writes -/

theorem validateTagNames_cons {tag : String} {rest : List String} (h : validateTagNames (tag :: rest) = .ok ()) :
    (Text.strip tag = "" ∨ ∃ body, sanitizeTagBody (tagBody (normalizeTagName tag)) = .ok body) ∧ validateTagNames rest = .ok () := by
  obtain ⟨_, passed, later⟩ := Checks.bind_ok h
  refine ⟨?_, later⟩
  by_cases blank : Text.strip tag = ""
  · exact .inl blank
  · dsimp only at passed
    rw [if_neg blank] at passed
    cases clean : sanitizeTagBody (tagBody (normalizeTagName tag)) with
    | ok body => exact .inr ⟨body, rfl⟩
    | error e =>
      rw [clean] at passed
      exact absurd passed (by simp [Except.map])

theorem validateTagNames_mem {tags : List String} (h : validateTagNames tags = .ok ()) {tag : String} (member : tag ∈ tags) :
    Text.strip tag = "" ∨ ∃ body, sanitizeTagBody (tagBody (normalizeTagName tag)) = .ok body := by
  induction tags with
  | nil => simp at member
  | cons first rest ih =>
    obtain ⟨clean, later⟩ := validateTagNames_cons h
    rcases List.mem_cons.mp member with rfl | member
    · exact clean
    · exact ih later member

theorem normalizeTagName_blank {tag : String} : normalizeTagName tag = "" ↔ Text.strip tag = "" := by
  rcases normalizeTagName_cases tag with same | same
  · rw [same]
  · constructor
    · intro empty
      rw [same] at empty
      exact absurd (congrArg String.toList empty) (by rw [hash_append_toList]; simp)
    · intro blank
      unfold normalizeTagName
      simp [blank]

/-- A tag that was validated is written, or is blank or a bare hash. -/
theorem writtenName_none {tag : String} (valid : Text.strip tag = "" ∨ ∃ body, sanitizeTagBody (tagBody (normalizeTagName tag)) = .ok body)
    (h : writtenName tag = none) : normalizeTagName tag = "" ∨ normalizeTagName tag = "#" := by
  rcases valid with blank | ⟨body, clean⟩
  · exact .inl (normalizeTagName_blank.mpr blank)
  · unfold writtenName at h
    dsimp only at h
    rw [clean] at h
    dsimp only at h
    split at h
    · assumption
    · simp at h

variable (env) in
theorem sanitizeResolutionName_ok {name body : String} (clean : sanitizeTagBody (tagBody name) = .ok body)
    (agentId : Option String) (w : World Db Supply) : ∃ w', (sanitizeResolutionName env name agentId).run w =
      (.ok (sanitizedName name body), w') ∧ w'.durable.tags = w.durable.tags := by
  have read : (resolutionBody env name agentId).run w = (.ok body, w) := by
    unfold resolutionBody
    rw [clean]
    rfl
  unfold sanitizeResolutionName logSanitized
  rw [Txn.bind_run_ok read]
  by_cases same : sanitizedName name body = name
  · exact ⟨w, by rw [if_pos same]; rfl, rfl⟩
  · have logs : ∀ content, ∃ v, (logTagIssue env agentId content).run w = (.ok (), v) ∧ v.durable.tags = w.durable.tags :=
      fun _ => ⟨_, rfl, rfl⟩
    obtain ⟨v, logged, tags⟩ := logs _
    exact ⟨v, by rw [if_neg same, Txn.bind_run_ok logged]; rfl, tags⟩

variable (env) in
theorem resolveOrCreateTag_written {tag name : String} (spelled : writtenName tag = some name) (agentId : Option String)
    (w : World Db Supply) : ∃ w', (resolveOrCreateTag env tag agentId).run w = (.ok (some (w.durable.tags.written name).2), w') ∧
      w'.durable.tags = (w.durable.tags.written name).1 := by
  obtain ⟨body, clean, hash, proper, rfl⟩ := writtenName_some spelled
  have settled := settledName_written spelled
  have nonempty : ∀ {s : String}, s.toList.head? = some '#' → s ≠ "" := by
    rintro s first rfl
    simp at first
  obtain ⟨v, ran, tags⟩ := sanitizeResolutionName_ok env clean agentId w
  unfold resolveOrCreateTag
  extract_lets name
  rw [if_neg (not_or.mpr ⟨nonempty hash, proper⟩), Txn.bind_run_ok ran,
    if_neg (not_or.mpr ⟨nonempty settled.hash, settled.proper⟩), Tx.run_db_bind, tags]
  unfold TagTable.written
  cases found : w.durable.tags.resolve (sanitizedName (normalizeTagName tag) body) with
  | some id => exact ⟨v, rfl, tags⟩
  | none =>
    obtain ⟨U, inserted⟩ := insert_of_fetchName (normalizedTagKey (sanitizedName (normalizeTagName tag) body))
      (fetchName_of_resolve found)
    rw [inserted]
    exact ⟨_, rfl, rfl⟩

theorem resolveOrCreateTag_none {tag : String} (unnamed : normalizeTagName tag = "" ∨ normalizeTagName tag = "#")
    (agentId : Option String) (w : World Db Supply) : (resolveOrCreateTag env tag agentId).run w = (.ok none, w) := by
  unfold resolveOrCreateTag
  extract_lets name
  rw [if_pos unnamed]
  rfl

/-- Each key the write remembers is that of a tag it linked. -/
def TagTable.Remembers (T : TagTable) (entity : EntityId) (lookup : List (String × TagId)) : Prop :=
  ∀ key id, lookup.lookup key = some id → (entity, id) ∈ T.links ∧ ∃ tag name,
    normalizedTagKey (Text.strip tag) = key ∧ writtenName tag = some name ∧ T.resolve name = some id

theorem TagTable.Remembers.mono {T U : TagTable} {entity : EntityId} {lookup : List (String × TagId)} {names : List String}
    (remembers : T.Remembers entity lookup) (keyed : T.Keyed) (wrote : T.Wrote entity names U) : U.Remembers entity lookup := by
  intro key id found
  obtain ⟨linked, tag, name, same, spelled, resolved⟩ := remembers key id found
  exact ⟨(wrote.links _).mpr (.inl linked), tag, name, same, spelled, wrote.persists keyed resolved⟩

variable (env) in
theorem writeRawTag_wrote {entity : EntityId} {tag : String} {lookup : List (String × TagId)} {w : World Db Supply}
    (valid : Text.strip tag = "" ∨ ∃ body, sanitizeTagBody (tagBody (normalizeTagName tag)) = .ok body)
    (keyed : w.durable.tags.Keyed) (remembers : w.durable.tags.Remembers entity lookup) (agentId : Option String) :
    ∃ lookup' w', (writeRawTag env entity agentId lookup tag).run w = (.ok lookup', w') ∧
      w.durable.tags.Wrote entity (writtenName tag).toList w'.durable.tags ∧ w'.durable.tags.Remembers entity lookup' := by
  unfold writeRawTag
  extract_lets name key
  by_cases blank : name = ""
  · have unwritten : writtenName tag = none := by
      unfold writtenName
      dsimp only
      rw [normalizeTagName_blank.mpr blank]
      rfl
    rw [if_pos blank, unwritten]
    exact ⟨lookup, w, rfl, .refl keyed, remembers⟩
  rw [if_neg blank]
  cases known : lookup.lookup key with
  | some id =>
    obtain ⟨linked, other, written, same, spelledOther, resolved⟩ := remembers key id known
    have again : w.durable.tags.link entity id = w.durable.tags := if_pos linked
    refine ⟨lookup, ⟨{ w.durable with tags := w.durable.tags.link entity id }, w.transient⟩, rfl, ?_, ?_⟩
    · cases spelled : writtenName tag with
      | none =>
        dsimp only [Option.toList]
        rw [again]
        exact .refl keyed
      | some mine =>
        obtain ⟨t, here, alike, rfl⟩ := keyed.of_resolve resolved
        have keys := key_written_congr spelledOther spelled same
        exact .link keyed (keyed.resolve here (alikeTags_trans alike (sameTagKey_iff.mpr (.inl keys))))
    · dsimp only
      rw [again]
      exact remembers
  | none =>
    have stripped : writtenName name = writtenName tag := by
      unfold writtenName
      rw [normalizeTagName_strip]
    cases spelled : writtenName tag with
    | none =>
      have unnamed := writtenName_none valid spelled
      rw [← normalizeTagName_strip tag] at unnamed
      refine ⟨lookup, w, ?_, .refl keyed, remembers⟩
      dsimp only
      rw [Txn.bind_run_ok (resolveOrCreateTag_none unnamed agentId w)]
      rfl
    | some mine =>
      obtain ⟨keyed', resolved, wrote⟩ := keyed.written spelled
      obtain ⟨v, ran, tags⟩ := resolveOrCreateTag_written env (stripped.trans spelled) agentId w
      refine ⟨lookup ++ [(key, (w.durable.tags.written mine).2)],
        ⟨{ v.durable with tags := v.durable.tags.link entity (w.durable.tags.written mine).2 }, v.transient⟩, ?_, ?_, ?_⟩
      · dsimp only
        rw [Txn.bind_run_ok ran]
        rfl
      · dsimp only
        rw [tags]
        exact wrote entity
      · dsimp only
        rw [tags]
        intro other id found
        rw [List.lookup_append] at found
        rcases Option.or_eq_some_iff.mp found with found | ⟨_, found⟩
        · exact remembers.mono keyed (wrote entity) other id found
        · obtain ⟨same, rfl⟩ : other = key ∧ (w.durable.tags.written mine).2 = id := by
            unfold List.lookup at found
            split at found
            · rename_i same
              exact ⟨beq_iff_eq.mp same, Option.some.inj found⟩
            · simp at found
          exact ⟨TagTable.mem_link.mpr (.inr rfl), tag, mine, same.symm, spelled, TagTable.resolve_link.trans resolved⟩

variable (env) in
/-- The tags of a request, each resolved and linked. -/
theorem writeRawTagList_wrote {entity : EntityId} {tags : List String} {lookup : List (String × TagId)} {w : World Db Supply}
    (valid : validateTagNames tags = .ok ()) (keyed : w.durable.tags.Keyed)
    (remembers : w.durable.tags.Remembers entity lookup) (agentId : Option String) : ∃ w',
    (writeRawTagList env entity agentId tags lookup).run w = (.ok (), w') ∧
      w.durable.tags.Wrote entity (tags.filterMap writtenName) w'.durable.tags := by
  induction tags generalizing lookup w with
  | nil => exact ⟨w, rfl, .refl keyed⟩
  | cons tag rest ih =>
    obtain ⟨clean, valid⟩ := validateTagNames_cons valid
    obtain ⟨lookup', v, ran, wrote, remembers'⟩ := writeRawTag_wrote env clean keyed remembers agentId
    obtain ⟨w', later, wrote'⟩ := ih valid wrote.keyed remembers'
    have names : (tag :: rest).filterMap writtenName = (writtenName tag).toList ++ rest.filterMap writtenName := by
      rw [List.filterMap_cons]
      cases writtenName tag <;> rfl
    refine ⟨w', ?_, ?_⟩
    · unfold writeRawTagList
      rw [Txn.bind_run_ok ran]
      exact later
    · rw [names]
      exact wrote.trans keyed wrote'

/-! ### Runs -/

/-- The names of the operation were validated, as by every caller. -/
def TagOperation.Validated (operation : Mode × TagOperation) (_ : World Db Supply) : Prop :=
  match operation.2 with
  | .resolveTag tagName _ => validateTagNames [tagName] = .ok ()
  | .insertTags _ _ tags => validateTagNames tags = .ok ()
  | _ => True

variable (env) in
theorem resolveOrCreateTag_keyed {tag : String} (agentId : Option String)
    (valid : Text.strip tag = "" ∨ ∃ body, sanitizeTagBody (tagBody (normalizeTagName tag)) = .ok body) :
    Txn.Ensures (fun d : Db => d.tags.Keyed) (resolveOrCreateTag env tag agentId) fun _ d => d.tags.Keyed := by
  intro w keyed
  cases spelled : writtenName tag with
  | none => exact ⟨none, w, resolveOrCreateTag_none (writtenName_none valid spelled) agentId w, keyed⟩
  | some name =>
    obtain ⟨w', ran, tags⟩ := resolveOrCreateTag_written env spelled agentId w
    have keyed' := (keyed.written spelled).1
    rw [← tags] at keyed'
    exact ⟨_, w', ran, keyed'⟩

variable (env) in
theorem insertTags_keyed (entity : EntityId) (agentId : Option String) {tags : List String}
    (valid : validateTagNames tags = .ok ()) :
    Txn.Ensures (fun d : Db => d.tags.Keyed) (insertTags env entity agentId tags) fun _ d => d.tags.Keyed := by
  unfold insertTags
  induction tags with
  | nil => exact Txn.ensures_pure fun d keyed => keyed
  | cons tag rest ih =>
    obtain ⟨clean, valid⟩ := validateTagNames_cons valid
    refine Txn.ensures_bind (Txn.ensures_bind (resolveOrCreateTag_keyed env agentId clean) fun found => ?_) fun _ => ih valid
    cases found with
    | none => exact Txn.ensures_pure fun d keyed => keyed
    | some id => exact fun w keyed => ⟨(), _, rfl, TagTable.Keyed.link keyed entity id⟩

theorem mergeTagList_keyed {canonical : TagId} {names : List String} (report : List String × List (String × String)) :
    Txn.Ensures (fun d : Db => d.tags.Keyed ∧ canonical < d.tags.next) (mergeTagList canonical names report)
      fun _ d => d.tags.Keyed := by
  induction names generalizing report with
  | nil => exact Txn.ensures_pure fun d holds => holds.1
  | cons name rest ih =>
    refine Txn.ensures_bind (fun w holds => ?_) ih
    unfold mergeTag
    rw [Tx.run_db_bind]
    cases looked : w.durable.tags.resolveId name with
    | none => exact ⟨_, w, Txn.run_pure _ w, holds⟩
    | some alias_ =>
      dsimp only
      split
      · exact ⟨_, w, Txn.run_pure _ w, holds⟩
      · exact ⟨_, _, rfl, holds.1.mergeInto holds.2 alias_, holds.2⟩

variable (env) in
theorem TagOperation.service_keyed {operation : TagOperation} {mode : Mode} {w : World Db Supply}
    (keyed : w.durable.tags.Keyed) (valid : Validated (mode, operation) w) :
    ∃ w', (operation.service env mode).run w = (.ok (), w') ∧ w'.durable.tags.Keyed := by
  cases operation with
  | resolveTag tagName agentId =>
    dsimp only [TagOperation.service]
    rw [writeTransactionRetrying_total (resolveOrCreateTag_settles tagName agentId).total]
    obtain ⟨_, w', ran, keyed'⟩ := resolveOrCreateTag_keyed env agentId (validateTagNames_cons valid).1 w keyed
    exact ⟨w', Txn.bind_run_ok ran, keyed'⟩
  | insertTags entityId agentId tags =>
    dsimp only [TagOperation.service]
    rw [writeTransactionRetrying_total (insertTags_settles entityId agentId tags).total]
    obtain ⟨_, w', ran, keyed'⟩ := insertTags_keyed env entityId agentId valid w keyed
    exact ⟨w', ran, keyed'⟩
  | deleteTags entityId =>
    dsimp only [TagOperation.service]
    rw [writeTransactionRetrying_total (setTags_settles _).total]
    exact ⟨_, rfl, keyed.unlinkWhere _⟩
  | mergeTags keepTag tagsToMerge =>
    have merged : ∃ answer w', (SaltMdb.mergeTags mode keepTag tagsToMerge).run w = (.ok answer, w') ∧ w'.durable.tags.Keyed := by
      unfold SaltMdb.mergeTags
      rw [Tx.run_db_bind]
      cases kept : w.durable.tags.resolveId keepTag with
      | none => exact ⟨_, w, Txn.run_pure _ w, keyed⟩
      | some canonical =>
        dsimp only
        rw [writeTransactionRetrying_total (mergeTagList_settles canonical tagsToMerge _).total]
        obtain ⟨report, w', ran, keyed'⟩ := mergeTagList_keyed ([], []) w ⟨keyed, keyed.resolveId_lt kept⟩
        exact ⟨_, w', Txn.bind_run_ok ran, keyed'⟩
    obtain ⟨answer, w', ran, keyed'⟩ := merged
    exact ⟨w', Txn.bind_run_ok ran, keyed'⟩
  | mergeTagsHeuristics =>
    dsimp only [TagOperation.service, SaltMdb.mergeTagsHeuristics]
    rw [writeTransactionRetrying_total (setTags_settles _).total]
    exact ⟨_, rfl, keyed.mergeGroups⟩

theorem TagOperation.next_keyed {operation : Mode × TagOperation} {w : World Db Supply} (keyed : w.durable.tags.Keyed)
    (valid : Validated operation w) : (TagOperation.next env w operation).durable.tags.Keyed := by
  obtain ⟨mode, operation⟩ := operation
  obtain ⟨w', ran, keyed'⟩ := TagOperation.service_keyed env keyed valid
  unfold TagOperation.next
  cases mode with
  | direct =>
    show ((operation.service env .direct).run w).2.durable.tags.Keyed
    rwa [ran]
  | coordinator =>
    show ((Txn.atomic (operation.service env .coordinator)).run w).2.durable.tags.Keyed
    rw [(Txn.atomic_ok).mpr ran]
    exact keyed'

theorem TagTable.seed_keyed : TagTable.seed.Keyed where
  spelled := by
    intro t here
    have plain : ∀ t ∈ TagTable.seed.tags, t.name.toList.head? ≠ some '#' ∧ computedTagKey t.name = normalizedTagKey t.name := by
      decide
    exact .inr (plain t here)
  keyed := by decide
  apart := by decide
  pointed := by decide

/-- The rows are told apart in every tag table that the operations lead to. -/
theorem states_keyed (operations : List (Mode × TagOperation)) (supply : Supply)
    (valid : Runs.Guarded (TagOperation.next env) TagOperation.Validated operations ⟨.init, supply⟩) :
    ∀ w ∈ Runs.states (TagOperation.next env) operations ⟨.init, supply⟩, w.durable.tags.Keyed :=
  Runs.invariant_of_guarded (P := fun w : World Db Supply => w.durable.tags.Keyed)
    (fun _ _ keyed allowed => TagOperation.next_keyed keyed allowed) (s := ⟨.init, supply⟩) TagTable.seed_keyed valid

end SaltMdb
