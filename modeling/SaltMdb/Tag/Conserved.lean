import SaltMdb.Tag.Forest
import Mathlib

/-! What the merges do to `entity_tags`: every link follows its tag to the one it was merged into, and no link is there twice. -/

namespace SaltMdb
open Transactions

/-! ### The three statements of a merge -/

local instance : LawfulBEq (EntityId × TagId) := inferInstance

/-- `UPDATE OR IGNORE entity_tags SET tag_id = canonical WHERE tag_id = alias`; a row whose new key is taken is left as it is. -/
def moveFreeLinks (canonical alias_ : TagId) (links : List (EntityId × TagId)) : List (EntityId × TagId) :=
  links.map fun l => if l.2 = alias_ ∧ (l.1, canonical) ∉ links then (l.1, canonical) else l

/-- `DELETE FROM entity_tags WHERE tag_id = alias AND entity_id IN (…)`, of the entities that have the canonical tag. -/
def deleteTakenLinks (canonical alias_ : TagId) (links : List (EntityId × TagId)) : List (EntityId × TagId) :=
  links.filter fun l => !(l.2 == alias_ && links.contains (l.1, canonical))

/-- `UPDATE entity_tags SET tag_id = canonical WHERE tag_id = alias`. -/
def moveLinks (canonical alias_ : TagId) (links : List (EntityId × TagId)) : List (EntityId × TagId) :=
  links.map fun l => if l.2 = alias_ then (l.1, canonical) else l

/-! ### Links that follow a map of their tags -/

/-- The links afterwards are the image of those before, each once. -/
structure Relabelled (move : TagId → TagId) (before after : List (EntityId × TagId)) : Prop where
  image : ∀ l, l ∈ after ↔ ∃ k ∈ before, (k.1, move k.2) = l
  once : after.Nodup

theorem Relabelled.refl {links : List (EntityId × TagId)} (once : links.Nodup) : Relabelled id links links where
  image := fun l => ⟨fun member => ⟨l, member, rfl⟩, fun ⟨_, member, same⟩ => same ▸ member⟩
  once := once

theorem Relabelled.trans {first second : TagId → TagId} {before between after : List (EntityId × TagId)}
    (one : Relabelled first before between) (two : Relabelled second between after) :
    Relabelled (fun id => second (first id)) before after where
  image := by
    intro l
    rw [two.image]
    constructor
    · rintro ⟨k, member, rfl⟩
      obtain ⟨j, there, rfl⟩ := (one.image k).mp member
      exact ⟨j, there, rfl⟩
    · rintro ⟨j, there, rfl⟩
      exact ⟨(j.1, first j.2), (one.image _).mpr ⟨j, there, rfl⟩, rfl⟩
  once := two.once

/-- The tag that the merges send a tag to. -/
def mergedInto (pairs : List (TagId × TagId)) (id : TagId) : TagId :=
  ((pairs.find? (·.2 == id)).map (·.1)).getD id

namespace TagTable

variable {T : TagTable} {canonical alias_ : TagId}

/-- The three statements leave what one merge does. -/
theorem mergeInto_statements (other : canonical ≠ alias_) : (T.mergeInto canonical alias_).links =
    moveLinks canonical alias_ (deleteTakenLinks canonical alias_ (moveFreeLinks canonical alias_ T.links)) := by
  have kept : ∀ e, (e, canonical) ∈ T.links → (e, canonical) ∈ moveFreeLinks canonical alias_ T.links := by
    intro e member
    exact List.mem_map.mpr ⟨(e, canonical), member, if_neg fun both => other both.1⟩
  show (T.links.filter fun l => l.2 != alias_ || !T.links.contains (l.1, canonical)).map _ = _
  unfold moveLinks deleteTakenLinks
  generalize moved : moveFreeLinks canonical alias_ T.links = links at kept
  have same : ∀ l ∈ T.links, (l.2 != alias_ || !T.links.contains (l.1, canonical)) =
      ((fun l : EntityId × TagId => !(l.2 == alias_ && links.contains (l.1, canonical))) ∘
        fun l => if l.2 = alias_ ∧ (l.1, canonical) ∉ T.links then (l.1, canonical) else l) l := by
    intro l _
    simp only [Function.comp_apply]
    by_cases merged : l.2 = alias_
    · by_cases taken : (l.1, canonical) ∈ T.links
      · simp [merged, taken, kept l.1 taken]
      · simp [merged, taken, other]
    · have apart : (l.2 == alias_) = false := beq_eq_false_iff_ne.mpr merged
      simp [merged, apart, bne]
  unfold moveFreeLinks at moved
  subst moved
  rw [List.filter_map, List.map_map, List.filter_congr same]
  refine List.map_congr_left fun l _ => ?_
  simp only [Function.comp_apply]
  by_cases merged : l.2 = alias_
  · by_cases taken : (l.1, canonical) ∈ T.links
    · rw [if_neg fun both : l.2 = alias_ ∧ (l.1, canonical) ∉ T.links => both.2 taken]
    · rw [if_pos (show l.2 = alias_ ∧ (l.1, canonical) ∉ T.links from ⟨merged, taken⟩), if_pos merged, if_neg other]
  · rw [if_neg fun both : l.2 = alias_ ∧ (l.1, canonical) ∉ T.links => merged both.1]

theorem mergeInto_relabelled (other : canonical ≠ alias_) (once : T.links.Nodup) :
    Relabelled (fun id => if id = alias_ then canonical else id) T.links (T.mergeInto canonical alias_).links := by
  have mem : ∀ k, k ∈ T.links.filter (fun l => l.2 != alias_ || !T.links.contains (l.1, canonical)) ↔
      k ∈ T.links ∧ (k.2 = alias_ → (k.1, canonical) ∉ T.links) := by
    intro k
    rw [List.mem_filter, Bool.or_eq_true, bne_iff_ne, Bool.not_eq_true', ← Bool.not_eq_true, List.contains_iff_mem,
      ← Decidable.imp_iff_not_or]
  have moved : ∀ k : EntityId × TagId, (if k.2 = alias_ then (k.1, canonical) else k) =
      (k.1, if k.2 = alias_ then canonical else k.2) := fun k => by split <;> rfl
  constructor
  · intro l
    show l ∈ (T.links.filter fun l => l.2 != alias_ || !T.links.contains (l.1, canonical)).map _ ↔ _
    simp only [List.mem_map, moved]
    constructor
    · rintro ⟨k, member, rfl⟩
      exact ⟨k, ((mem k).mp member).1, rfl⟩
    · rintro ⟨k, member, rfl⟩
      by_cases taken : k.2 = alias_ ∧ (k.1, canonical) ∈ T.links
      · -- the entity has both tags: its canonical link stands for the two
        refine ⟨(k.1, canonical), (mem _).mpr ⟨taken.2, fun same => absurd same other⟩, ?_⟩
        rw [if_pos taken.1, if_neg other]
      · exact ⟨k, (mem k).mpr ⟨member, fun merged there => taken ⟨merged, there⟩⟩, rfl⟩
  · show ((T.links.filter fun l => l.2 != alias_ || !T.links.contains (l.1, canonical)).map _).Nodup
    refine List.Nodup.map_on (fun k kMember j jMember same => ?_) (once.filter _)
    obtain ⟨_, kFree⟩ := (mem k).mp kMember
    obtain ⟨_, jFree⟩ := (mem j).mp jMember
    by_cases kMerged : k.2 = alias_
    · rw [if_pos kMerged] at same
      by_cases jMerged : j.2 = alias_
      · rw [if_pos jMerged] at same
        exact Prod.ext (Prod.ext_iff.mp same).1 (kMerged.trans jMerged.symm)
      · rw [if_neg jMerged] at same
        have there : (k.1, canonical) ∈ T.links := same ▸ ((mem j).mp jMember).1
        exact absurd there (kFree kMerged)
    · rw [if_neg kMerged] at same
      by_cases jMerged : j.2 = alias_
      · rw [if_pos jMerged] at same
        have there : (j.1, canonical) ∈ T.links := same ▸ ((mem k).mp kMember).1
        exact absurd there (jFree jMerged)
      · rw [if_neg jMerged] at same
        exact same

/-! ### Merges one after the other -/

theorem mergedInto_cons (pair : TagId × TagId) (rest : List (TagId × TagId)) (id : TagId) :
    mergedInto (pair :: rest) id = if id = pair.2 then pair.1 else mergedInto rest id := by
  unfold mergedInto
  rw [List.find?_cons]
  by_cases same : id = pair.2
  · rw [if_pos same, beq_iff_eq.mpr same.symm]
    rfl
  · rw [if_neg same, beq_eq_false_iff_ne.mpr (Ne.symm same)]

theorem mergedInto_of_fresh {pairs : List (TagId × TagId)} {id : TagId} (fresh : ∀ pair ∈ pairs, id ≠ pair.2) :
    mergedInto pairs id = id := by
  unfold mergedInto
  rw [List.find?_eq_none.mpr fun pair member => by simpa using (fresh pair member).symm]
  rfl

/-- No tag is merged after others were merged into it. -/
def Apart (pairs : List (TagId × TagId)) : Prop := ∀ pair ∈ pairs, ∀ other ∈ pairs, pair.1 ≠ other.2

theorem mergePairs_relabelled {pairs : List (TagId × TagId)} (apart : Apart pairs) (once : T.links.Nodup) :
    Relabelled (mergedInto pairs) T.links (T.mergePairs pairs).links := by
  induction pairs generalizing T with
  | nil => exact Relabelled.refl once
  | cons pair rest ih =>
    have here : pair ∈ pair :: rest := List.mem_cons_self
    have first := mergeInto_relabelled (T := T) (apart pair here pair here) once
    have later : Apart rest := fun one member other there =>
      apart one (List.mem_cons_of_mem _ member) other (List.mem_cons_of_mem _ there)
    have both := first.trans (ih later first.once)
    have same : (fun id => mergedInto rest (if id = pair.2 then pair.1 else id)) = mergedInto (pair :: rest) := by
      funext id
      rw [mergedInto_cons]
      split
      · exact mergedInto_of_fresh fun other member => apart pair here other (List.mem_cons_of_mem _ member)
      · rfl
    exact same ▸ both

/-- Whatever a tag was made an alias of last, it points to it. -/
theorem mergePairs_points {pairs : List (TagId × TagId)} (single : ∀ pair ∈ pairs, ∀ other ∈ pairs, pair.2 = other.2 → pair.1 = other.1) :
    ∀ pair ∈ pairs, ∀ t ∈ (T.mergePairs pairs).tags, t.id = pair.2 → t.canonicalId = some pair.1 := by
  have kept : ∀ (rest : List (TagId × TagId)) (U : TagTable) (pair : TagId × TagId),
      (∀ other ∈ rest, pair.2 = other.2 → pair.1 = other.1) →
        (∀ t ∈ U.tags, t.id = pair.2 → t.canonicalId = some pair.1) →
          ∀ t ∈ (U.mergePairs rest).tags, t.id = pair.2 → t.canonicalId = some pair.1 := by
    intro rest
    induction rest with
    | nil => exact fun _ _ _ points => points
    | cons first rest ih =>
      intro U pair agrees points
      refine ih (U.mergeInto first.1 first.2) pair (fun other member => agrees other (List.mem_cons_of_mem _ member)) ?_
      intro t here same
      obtain ⟨old, there, rfl⟩ := mem_mergeInto.mp here
      split
      · rename_i merged
        rw [if_pos merged] at same
        exact congrArg some (agrees first List.mem_cons_self (same.symm.trans merged)).symm
      · rename_i other
        rw [if_neg other] at same
        exact points old there same
  induction pairs generalizing T with
  | nil => exact fun pair member => absurd member List.not_mem_nil
  | cons first rest ih =>
    intro pair member
    rcases List.mem_cons.mp member with rfl | later
    · refine kept rest (T.mergeInto pair.1 pair.2) pair (fun other there => single pair member other (List.mem_cons_of_mem _ there)) ?_
      intro t here same
      obtain ⟨old, there, rfl⟩ := mem_mergeInto.mp here
      split
      · rfl
      · rename_i other
        rw [if_neg other] at same
        exact absurd same other
    · exact ih (fun one there other here => single one (List.mem_cons_of_mem _ there) other (List.mem_cons_of_mem _ here)) pair later

/-! ### What a call merges -/

/-- The tags that the names stand for when their turn comes, as far as they are merged. -/
def mergedIds (T : TagTable) (canonical : TagId) : List String → List TagId
  | [] => []
  | name :: rest =>
    match T.resolveId name with
    | none => T.mergedIds canonical rest
    | some alias_ =>
      if alias_ = canonical then T.mergedIds canonical rest
      else alias_ :: (T.mergeInto canonical alias_).mergedIds canonical rest

/-- The merges of `merge_tags`: none where the tag to keep is unknown. -/
def keptPairs (T : TagTable) (keepTag : String) (names : List String) : List (TagId × TagId) :=
  match T.resolveId keepTag with
  | none => []
  | some canonical => (T.mergedIds canonical names).map fun alias_ => (canonical, alias_)

/-- The merges of the librarian. -/
def librarianPairs (T : TagTable) : List (TagId × TagId) :=
  groupPairs (tagGroups (T.tags.filter (·.canonicalId.isNone)) (T.tags.filter (·.canonicalId.isNone)).length)

theorem mergedIds_other {names : List String} : ∀ id ∈ T.mergedIds canonical names, canonical ≠ id := by
  induction names generalizing T with
  | nil => exact fun id member => absurd member List.not_mem_nil
  | cons name rest ih =>
    unfold mergedIds
    split
    · exact ih
    · split
      · exact ih
      · rename_i other
        intro id member
        rcases List.mem_cons.mp member with rfl | later
        · exact Ne.symm other
        · exact ih id later

/-- A tag follows in one group only. -/
theorem tagGroups_single {tags : List Tag} (once : tags.Pairwise fun a b => a.id ≠ b.id) (fuel : Nat) :
    ∀ group ∈ tagGroups tags fuel, ∀ other ∈ tagGroups tags fuel, ∀ a ∈ group.2, ∀ b ∈ other.2, a.id = b.id → group.1.id = other.1.id := by
  induction fuel generalizing tags with
  | zero => cases tags <;> simp [tagGroups]
  | succ fuel ih =>
    cases tags with
    | nil => simp [tagGroups]
    | cons t rest =>
      have restOnce := (List.pairwise_cons.mp once).2
      have filtered := restOnce.filter (heuristicKey ·.name != heuristicKey t.name)
      -- a tag with the key of the first group is in no later one
      have separate : ∀ a ∈ rest.filter (heuristicKey ·.name == heuristicKey t.name),
          ∀ other ∈ tagGroups (rest.filter (heuristicKey ·.name != heuristicKey t.name)) fuel, ∀ b ∈ other.2, a.id ≠ b.id := by
        intro a first other member b second same
        obtain ⟨aHere, alike⟩ := List.mem_filter.mp first
        obtain ⟨bHere, differs⟩ := List.mem_filter.mp (((tagGroups_spec filtered fuel).1 other member).2 b second)
        have symm : Std.Symm fun a b : Tag => a.id ≠ b.id := ⟨fun _ _ h => h.symm⟩
        have equal : a = b := by
          by_contra differ
          exact restOnce.forall aHere bHere differ same
        rw [← equal, bne_iff_ne] at differs
        exact differs (beq_iff_eq.mp alike)
      intro group member other otherMember a first b second same
      rcases List.mem_cons.mp member with rfl | member
      · rcases List.mem_cons.mp otherMember with rfl | otherMember
        · rfl
        · exact absurd same (separate a first other otherMember b second)
      · rcases List.mem_cons.mp otherMember with rfl | otherMember
        · exact absurd same.symm (separate b second group member a first)
        · exact ih filtered group member other otherMember a first b second same

theorem librarianPairs_spec : Apart T.librarianPairs ∧
    ∀ pair ∈ T.librarianPairs, ∀ other ∈ T.librarianPairs, pair.2 = other.2 → pair.1 = other.1 := by
  have once : (T.tags.filter (·.canonicalId.isNone)).Pairwise fun a b => a.id ≠ b.id := T.distinct.filter _
  constructor
  · intro pair member other otherMember
    obtain ⟨group, here, member⟩ := List.mem_flatMap.mp member
    obtain ⟨_, _, rfl⟩ := List.mem_map.mp member
    obtain ⟨second, there, otherMember⟩ := List.mem_flatMap.mp otherMember
    obtain ⟨alias_, follows, rfl⟩ := List.mem_map.mp otherMember
    exact (tagGroups_spec once _).2 group here second there alias_ follows
  · intro pair member other otherMember same
    obtain ⟨group, here, member⟩ := List.mem_flatMap.mp member
    obtain ⟨a, first, rfl⟩ := List.mem_map.mp member
    obtain ⟨last, there, otherMember⟩ := List.mem_flatMap.mp otherMember
    obtain ⟨b, second, rfl⟩ := List.mem_map.mp otherMember
    exact tagGroups_single once _ group here last there a first b second same

end TagTable

/-! ### The calls -/

theorem mergeTagList_pairs (canonical : TagId) (names : List String) (report : List String × List (String × String)) (w : World Db Supply) :
    ∃ report' w', (mergeTagList canonical names report).run w = (.ok report', w') ∧
      w'.durable.tags = w.durable.tags.mergePairs ((w.durable.tags.mergedIds canonical names).map fun alias_ => (canonical, alias_)) := by
  induction names generalizing report w with
  | nil => exact ⟨report, w, rfl, rfl⟩
  | cons name rest ih =>
    have stepped : ∃ report' w', (mergeTag canonical report name).run w = (.ok report', w') ∧
        w'.durable.tags.mergePairs ((w'.durable.tags.mergedIds canonical rest).map fun alias_ => (canonical, alias_)) =
          w.durable.tags.mergePairs ((w.durable.tags.mergedIds canonical (name :: rest)).map fun alias_ => (canonical, alias_)) := by
      have unrolled : w.durable.tags.mergedIds canonical (name :: rest) = match w.durable.tags.resolveId name with
          | none => w.durable.tags.mergedIds canonical rest
          | some alias_ =>
            if alias_ = canonical then w.durable.tags.mergedIds canonical rest
            else alias_ :: (w.durable.tags.mergeInto canonical alias_).mergedIds canonical rest := rfl
      unfold mergeTag
      rw [Tx.run_db_bind, unrolled]
      cases w.durable.tags.resolveId name with
      | none => exact ⟨_, w, Txn.run_pure _ w, rfl⟩
      | some alias_ =>
        dsimp only
        split
        · exact ⟨_, w, Txn.run_pure _ w, rfl⟩
        · exact ⟨_, _, rfl, rfl⟩
    obtain ⟨next, v, ran, same⟩ := stepped
    obtain ⟨report', w', rest_, tags⟩ := ih next v
    refine ⟨report', w', ?_, tags.trans same⟩
    unfold mergeTagList
    rw [Txn.bind_run_ok ran]
    exact rest_

/-- The links are the former ones with every merged tag replaced by the tag it was merged into, each once; and the merged tags
point there. -/
structure ConservesLinks (pairs : List (TagId × TagId)) (before after : TagTable) : Prop where
  links : Relabelled (mergedInto pairs) before.links after.links
  points : ∀ pair ∈ pairs, ∀ t ∈ after.tags, t.id = pair.2 → t.canonicalId = some pair.1

theorem TagTable.mergePairs_conserves {T : TagTable} {pairs : List (TagId × TagId)} (apart : Apart pairs)
    (single : ∀ pair ∈ pairs, ∀ other ∈ pairs, pair.2 = other.2 → pair.1 = other.1) (once : T.links.Nodup) :
    ConservesLinks pairs T (T.mergePairs pairs) :=
  ⟨mergePairs_relabelled apart once, mergePairs_points single⟩

theorem TagTable.keptPairs_spec {T : TagTable} {keepTag : String} {names : List String} : Apart (T.keptPairs keepTag names) ∧
    ∀ pair ∈ T.keptPairs keepTag names, ∀ other ∈ T.keptPairs keepTag names, pair.2 = other.2 → pair.1 = other.1 := by
  unfold keptPairs
  cases T.resolveId keepTag with
  | none => exact ⟨fun _ member => absurd member List.not_mem_nil, fun _ member => absurd member List.not_mem_nil⟩
  | some canonical =>
    dsimp only
    constructor
    · intro pair member other otherMember
      obtain ⟨_, _, rfl⟩ := List.mem_map.mp member
      obtain ⟨alias_, there, rfl⟩ := List.mem_map.mp otherMember
      exact mergedIds_other alias_ there
    · intro pair member other otherMember _
      obtain ⟨_, _, rfl⟩ := List.mem_map.mp member
      obtain ⟨_, _, rfl⟩ := List.mem_map.mp otherMember
      rfl

/-- Every merge, the explicit one and the librarian's, conserves the links of the memories. -/
theorem merges_conserveLinks (mode : Mode) (w : World Db Supply) (once : w.durable.tags.links.Nodup) :
    (∀ keepTag names, ∃ answer w', (mergeTags mode keepTag names).run w = (.ok answer, w') ∧
        ConservesLinks (w.durable.tags.keptPairs keepTag names) w.durable.tags w'.durable.tags) ∧
      ∃ w', (mergeTagsHeuristics mode).run w = (.ok (), w') ∧
        ConservesLinks w.durable.tags.librarianPairs w.durable.tags w'.durable.tags := by
  constructor
  · intro keepTag names
    obtain ⟨apart, single⟩ := @TagTable.keptPairs_spec w.durable.tags keepTag names
    have conserves := w.durable.tags.mergePairs_conserves apart single once
    unfold mergeTags
    rw [Tx.run_db_bind]
    unfold TagTable.keptPairs at conserves ⊢
    cases kept : w.durable.tags.resolveId keepTag with
    | none =>
      rw [kept] at conserves
      exact ⟨_, w, Txn.run_pure _ w, conserves⟩
    | some canonical =>
      rw [kept] at conserves
      dsimp only
      rw [writeTransactionRetrying_total (mergeTagList_settles canonical names _).total]
      obtain ⟨report, w', ran, tags⟩ := mergeTagList_pairs canonical names ([], []) w
      refine ⟨_, w', Txn.bind_run_ok ran, ?_⟩
      rw [tags]
      exact conserves
  · obtain ⟨apart, single⟩ := @TagTable.librarianPairs_spec w.durable.tags
    have conserves := w.durable.tags.mergePairs_conserves apart single once
    unfold mergeTagsHeuristics
    rw [writeTransactionRetrying_total (setTags_settles _).total]
    refine ⟨_, rfl, ?_⟩
    show ConservesLinks _ _ w.durable.tags.mergeGroups
    rw [TagTable.mergeGroups_pairs]
    exact conserves

/-- A memory with two tags, and one with the second of them. -/
def sharedTags : TagTable :=
  ⟨[⟨0, "#alpha", some "alpha", none⟩, ⟨1, "#beta", some "beta", none⟩], 2, [("first", 0), ("first", 1), ("second", 1)], by decide,
    by decide, by decide⟩

theorem sharedTags_conserved : ∃ answer w',
    (mergeTags .direct "#alpha" ["beta", "gone", "#alpha"]).run ⟨{ Db.init with tags := sharedTags }, ⟨0, 0⟩⟩ = (.ok answer, w') ∧
      ConservesLinks (sharedTags.keptPairs "#alpha" ["beta", "gone", "#alpha"]) sharedTags w'.durable.tags :=
  (merges_conserveLinks .direct ⟨{ Db.init with tags := sharedTags }, ⟨0, 0⟩⟩ (by decide)).1 "#alpha" ["beta", "gone", "#alpha"]

end SaltMdb
