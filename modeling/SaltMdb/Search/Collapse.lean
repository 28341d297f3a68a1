import SaltMdb.Search.Families

/-! What collapsing does to a ranked list: positions, the rest of the list, and a second collapse. -/

namespace SaltMdb
open Component

variable {db : Db} {now : Instant} {rows : List (EntityId × EntityId)} {pool ids skipped members : List EntityId} {id head x y : EntityId}

/-- The edges that collapsing reads. -/
def supersedesRows (db : Db) (now : Instant) : List (EntityId × EntityId) :=
  (db.relations.rows.filter (·.supersedesAt now)).map fun r => (r.sourceId, r.targetId)

theorem collapseSupersedesFamilies_eq :
    collapseSupersedesFamilies db now pool = emitCollapsedSupersedes (supersedesFamily db (supersedesRows db now) pool) pool [] := rfl

def sharesFamily (family : EntityId → Option (List EntityId × EntityId)) (x id : EntityId) : Bool :=
  (family x).any fun found => found.1.contains id

theorem sharesFamily_iff {family : EntityId → Option (List EntityId × EntityId)} :
    sharesFamily family x id = true ↔ ∃ members head, family x = some (members, head) ∧ id ∈ members := by
  unfold sharesFamily
  cases family x with
  | none => simp
  | some found =>
    obtain ⟨members, head⟩ := found
    simp

/-! ### Families of an assignment -/

/-- What collapsing relies on: the members of a family agree on who they are and on who stands for them. -/
structure Coherent (family : EntityId → Option (List EntityId × EntityId)) : Prop where
  own : ∀ {id : EntityId} {members : List EntityId} {head : EntityId}, family id = some (members, head) → id ∈ members
  standsIn : ∀ {id : EntityId} {members : List EntityId} {head : EntityId}, family id = some (members, head) → head ∈ members
  shared : ∀ {id : EntityId} {members : List EntityId} {head x : EntityId}, family id = some (members, head) → x ∈ members →
    ∃ others, family x = some (others, head) ∧ others.Perm members

theorem supersedesFamily_coherent : Coherent (supersedesFamily db rows pool) where
  own found := (supersedesFamily_family found).own
  standsIn found := (supersedesFamily_family found).standsIn
  shared found member := supersedesFamily_shared found member

variable {family : EntityId → Option (List EntityId × EntityId)}

/-- A family that has one member of another has them all. -/
theorem Coherent.overlap (coherent : Coherent family) {others : List EntityId} {head' a b : EntityId}
    (foundA : family a = some (members, head)) (foundB : family b = some (others, head')) (inA : x ∈ members) (inB : x ∈ others) :
    head' = head ∧ others.Perm members := by
  obtain ⟨first, sharedA, permA⟩ := coherent.shared foundA inA
  obtain ⟨second, sharedB, permB⟩ := coherent.shared foundB inB
  rw [sharedA] at sharedB
  obtain ⟨rfl, rfl⟩ := Prod.mk.inj (Option.some.inj sharedB)
  exact ⟨rfl, permB.symm.trans permA⟩

theorem Coherent.standsFor_member (coherent : Coherent family) (found : family id = some (members, head)) :
    standsFor family x ∈ members ↔ x ∈ members := by
  constructor
  · intro stands
    unfold standsFor at stands
    split at stands
    · exact stands
    · rename_i others head' foundX
      obtain ⟨-, same⟩ := coherent.overlap found foundX stands (coherent.standsIn foundX)
      exact same.mem_iff.mp (coherent.own foundX)
  · intro member
    obtain ⟨others, foundX, same⟩ := coherent.shared found member
    simp only [standsFor, foundX]
    exact coherent.standsIn found

theorem Coherent.standsFor_none (coherent : Coherent family) (eligible : family id ≠ none) : family (standsFor family id) ≠ none := by
  obtain ⟨⟨members, head⟩, found⟩ := Option.ne_none_iff_exists'.mp eligible
  obtain ⟨others, shared, _⟩ := coherent.shared found (coherent.standsIn found)
  simp [standsFor, found, shared]

/-! ### Positions -/

/-- The ranked candidates that come before every other member of their family, each under who stands for it. -/
def firstMembers (family : EntityId → Option (List EntityId × EntityId)) (ranked : List EntityId) : List EntityId :=
  (ranked.zipIdx.filter fun entry => (ranked.take entry.2).all fun x => !sharesFamily family x entry.1).map fun entry =>
    standsFor family entry.1

theorem emitCollapsed_positions {before : List EntityId} (passed : ∀ id, id ∈ skipped ↔ ∃ x ∈ before, sharesFamily family x id = true)
    (coherent : Coherent family) :
    emitCollapsedSupersedes family ids skipped =
      ((ids.zipIdx before.length).filter fun entry => ((before ++ ids).take entry.2).all fun x => !sharesFamily family x entry.1).map
        fun entry => standsFor family entry.1 := by
  induction ids generalizing before skipped with
  | nil => rfl
  | cons id rest ih =>
    have first : ((before ++ id :: rest).take before.length).all (fun x => !sharesFamily family x id) = !skipped.contains id := by
      rw [List.take_left, Bool.eq_iff_iff, List.all_eq_true]
      simp only [Bool.not_eq_true', List.contains_eq_mem, decide_eq_false_iff_not, passed]
      simp
    have further : ∀ found, (∀ other, other ∈ found ↔ ∃ x ∈ before ++ [id], sharesFamily family x other = true) →
        emitCollapsedSupersedes family rest found = ((rest.zipIdx (before.length + 1)).filter fun entry =>
          ((before ++ id :: rest).take entry.2).all fun x => !sharesFamily family x entry.1).map fun entry => standsFor family entry.1 := by
      intro found passed
      have onward := ih passed
      rw [List.length_append, List.length_singleton, List.append_assoc, List.singleton_append] at onward
      exact onward
    have others : ∀ other, (∃ x ∈ before ++ [id], sharesFamily family x other = true) ↔ other ∈ skipped ∨ sharesFamily family id other = true := by
      intro other
      rw [passed]
      simp only [List.mem_append, List.mem_singleton]
      constructor
      · rintro ⟨x, early | rfl, shares⟩
        · exact .inl ⟨x, early, shares⟩
        · exact .inr shares
      · rintro (⟨x, early, shares⟩ | shares)
        · exact ⟨x, .inl early, shares⟩
        · exact ⟨id, .inr rfl, shares⟩
    rw [List.zipIdx_cons, List.filter_cons, first]
    unfold emitCollapsedSupersedes
    by_cases known : skipped.contains id = true
    · rw [if_pos known, known]
      refine further skipped fun other => ?_
      rw [others, or_iff_left_of_imp]
      intro shares
      -- who is skipped shares a family with an earlier one, and so do its members
      obtain ⟨members, head, found, member⟩ := sharesFamily_iff.mp shares
      obtain ⟨x, early, sharesX⟩ := (passed id).mp (List.contains_iff_mem.mp known)
      obtain ⟨members', head', foundX, memberX⟩ := sharesFamily_iff.mp sharesX
      obtain ⟨-, same⟩ := coherent.overlap foundX found memberX (coherent.own found)
      exact (passed other).mpr ⟨x, early, sharesFamily_iff.mpr ⟨members', head', foundX, same.mem_iff.mp member⟩⟩
    · rw [if_neg known]
      simp only [Bool.not_eq_true] at known
      rw [known]
      cases found : family id with
      | none =>
        dsimp only
        rw [Bool.not_false, if_pos rfl, List.map_cons, further skipped fun other => ?_]
        · simp [standsFor, found]
        · rw [others]
          simp [sharesFamily, found]
      | some entry =>
        obtain ⟨members, head⟩ := entry
        dsimp only
        rw [Bool.not_false, if_pos rfl, List.map_cons, further (skipped ++ members) fun other => ?_]
        · simp [standsFor, found]
        · rw [others, List.mem_append]
          simp [sharesFamily, found]

/-! ### Each family once -/

theorem emitCollapsed_spent (coherent : Coherent family) (found : family id = some (members, head)) (gone : ∀ x ∈ members, x ∈ skipped) :
    (emitCollapsedSupersedes family ids skipped).filter (members.contains ·) = [] := by
  rw [List.filter_eq_nil_iff]
  intro y emitted member
  obtain ⟨x, _, unskipped, same⟩ := mem_emitCollapsed emitted
  have stands : standsFor family x ∈ members := same ▸ List.contains_iff_mem.mp member
  exact unskipped (gone x ((coherent.standsFor_member found).mp stands))

theorem emitCollapsed_once (coherent : Coherent family) (found : family id = some (members, head))
    (fresh : ∀ x ∈ members, x ∉ skipped) (ranked : ∃ x ∈ ids, x ∈ members) :
    (emitCollapsedSupersedes family ids skipped).filter (members.contains ·) = [head] := by
  fun_induction emitCollapsedSupersedes family ids skipped with
  | case1 => simp at ranked
  | case2 other rest skipped known ih =>
    have outside : other ∉ members := fun member => fresh other member (List.contains_iff_mem.mp known)
    obtain ⟨x, listed, member⟩ := ranked
    rcases List.mem_cons.mp listed with rfl | later
    · exact absurd member outside
    · exact ih fresh ⟨x, later, member⟩
  | case3 other rest skipped unknown alone ih =>
    have outside : other ∉ members := by
      intro member
      obtain ⟨_, shared, _⟩ := coherent.shared found member
      simp [alone] at shared
    obtain ⟨x, listed, member⟩ := ranked
    rw [List.filter_cons_of_neg (by simpa using outside)]
    rcases List.mem_cons.mp listed with rfl | later
    · exact absurd member outside
    · exact ih fresh ⟨x, later, member⟩
  | case4 other rest skipped unknown others head' foundO ih =>
    by_cases inside : other ∈ members
    · obtain ⟨rfl, same⟩ := coherent.overlap found foundO inside (coherent.own foundO)
      rw [List.filter_cons_of_pos (by simpa using coherent.standsIn found), emitCollapsed_spent coherent found]
      exact fun x member => List.mem_append_right _ (same.mem_iff.mpr member)
    · have apart : ∀ x ∈ members, x ∉ others := by
        intro x member shared
        obtain ⟨-, same⟩ := coherent.overlap found foundO member shared
        exact inside (same.mem_iff.mp (coherent.own foundO))
      rw [List.filter_cons_of_neg (by simpa using fun member => apart head' member (coherent.standsIn foundO))]
      obtain ⟨x, listed, member⟩ := ranked
      refine ih (fun x member => ?_) ⟨x, ?_, member⟩
      · simp [fresh x member, apart x member]
      · exact (List.mem_cons.mp listed).resolve_left fun same => inside (same ▸ member)

/-! ### The rest of the list -/

theorem emitCollapsed_others (coherent : Coherent family) (families : ∀ x ∈ skipped, family x ≠ none) :
    (emitCollapsedSupersedes family ids skipped).filter (fun id => (family id).isNone) = ids.filter fun id => (family id).isNone := by
  fun_induction emitCollapsedSupersedes family ids skipped with
  | case1 => rfl
  | case2 id rest skipped known ih =>
    rw [ih families, List.filter_cons_of_neg]
    simpa using families id (List.contains_iff_mem.mp known)
  | case3 id rest skipped unknown alone ih =>
    simp only [List.filter_cons, alone, Option.isNone_none, if_true, ih families]
  | case4 id rest skipped unknown members head found ih =>
    obtain ⟨_, headed, _⟩ := coherent.shared found (coherent.standsIn found)
    rw [List.filter_cons_of_neg (by simp [headed]), List.filter_cons_of_neg (by simp [found])]
    refine ih fun x member => ?_
    rcases List.mem_append.mp member with old | new
    · exact families x old
    · obtain ⟨_, shared, _⟩ := coherent.shared found new
      simp [shared]

theorem emitCollapsed_self (none_ : ∀ id ∈ ids, family id = none) : emitCollapsedSupersedes family ids [] = ids := by
  induction ids with
  | nil => rfl
  | cons id rest ih =>
    unfold emitCollapsedSupersedes
    rw [none_ id List.mem_cons_self]
    simp only [List.contains_nil, Bool.false_eq_true, if_false]
    rw [ih fun x member => none_ x (List.mem_cons_of_mem _ member)]

/-! ### A second collapse -/

theorem supersedesChainHead_newest {maps : SupersedesMaps} (found : supersedesChainHead maps members = some head) :
    maps.targetToSources head = [] := by
  unfold supersedesChainHead at found
  split at found
  · split at found
    · rename_i only
      dsimp only at found
      split at found
      · obtain rfl := Option.some.inj found
        have first := List.of_mem_filter (only ▸ List.mem_cons_self)
        exact List.isEmpty_iff.mp first
      · simp at found
    · simp at found
  · simp at found

/-- A family is never one memory alone. -/
theorem supersedesFamily_company (found : supersedesFamily db rows pool id = some (members, head)) : ∃ x ∈ members, x ≠ head := by
  have family := supersedesFamily_family found
  obtain ⟨others, shared, same⟩ := supersedesFamily_shared found family.standsIn
  have component := (supersedesFamily_family shared).component
  unfold supersedesFamily at shared
  dsimp only at shared
  split at shared
  · simp at shared
  · rename_i edged
    split at shared
    · obtain ⟨first, chain, pair⟩ := Option.map_eq_some_iff.mp shared
      obtain ⟨-, rfl⟩ := Prod.mk.inj pair
      have newest := supersedesChainHead_newest chain
      obtain ⟨next, edge⟩ := List.exists_mem_of_ne_nil _ (fun empty => edged (List.isEmpty_iff.mpr empty))
      refine ⟨next, same.mem_iff.mp ?_, fun self => ?_⟩
      · rw [component]
        exact mem_supersedesComponent.mpr (.single edge)
      · -- an edge of the head to itself would be an edge into the head
        have looped : (first, first) ∈ rows := (mem_undirected.mp (self ▸ edge)).elim (·) (·)
        have older : first ∈ (buildSupersedesMaps rows).targetToSources first := by
          simp [buildSupersedesMaps, looped]
        simp [newest] at older
    · simp at shared

/-- A family of a smaller pool is a family of the pool. -/
theorem supersedesFamily_mono {others : List EntityId} (fewer : ∀ x ∈ others, x ∈ pool)
    (found : supersedesFamily db rows others id = some (members, head)) : supersedesFamily db rows pool id = some (members, head) := by
  unfold supersedesFamily at found ⊢
  dsimp only at found ⊢
  split at found
  · simp at found
  · rename_i edged
    rw [if_neg edged]
    split at found
    · rename_i live
      rw [if_pos]
      · exact found
      · unfold supersedesComponentIsLive at live ⊢
        refine List.all_eq_true.mpr fun x member => ?_
        have alive := List.all_eq_true.mp live x member
        rw [Bool.and_eq_true, List.contains_iff_mem] at alive ⊢
        exact ⟨fewer x alive.1, alive.2⟩
    · simp at found

theorem collapseSupersedesFamilies_once (ranked : id ∈ pool)
    (found : supersedesFamily db (supersedesRows db now) pool id = some (members, head)) :
    (collapseSupersedesFamilies db now pool).filter (members.contains ·) = [head] :=
  emitCollapsed_once supersedesFamily_coherent found (by simp) ⟨id, ranked, (supersedesFamily_family found).own⟩

/-- No family of the pool is whole in what comes out. -/
theorem collapseSupersedesFamilies_broken (emitted : id ∈ collapseSupersedesFamilies db now pool) :
    supersedesFamily db (supersedesRows db now) (collapseSupersedesFamilies db now pool) id = none := by
  refine Option.eq_none_iff_forall_ne_some.mpr fun ⟨members, head⟩ found => ?_
  have whole := (supersedesFamily_family found).pooled
  have before := supersedesFamily_mono (fun _ => mem_collapseSupersedesFamilies) found
  have once := collapseSupersedesFamilies_once (mem_collapseSupersedesFamilies emitted) before
  obtain ⟨x, member, other⟩ := supersedesFamily_company found
  have kept : x ∈ (collapseSupersedesFamilies db now pool).filter (members.contains ·) :=
    List.mem_filter.mpr ⟨whole x member, List.contains_iff_mem.mpr member⟩
  rw [once] at kept
  exact other (List.mem_singleton.mp kept)

/-! ### Collapsing -/

structure Collapsed (family : EntityId → Option (List EntityId × EntityId)) (ranked collapsed : List EntityId) : Prop where
  within : ∀ id ∈ collapsed, id ∈ ranked
  distinct : ranked.Nodup → collapsed.Nodup
  positions : collapsed = firstMembers family ranked
  once : ∀ id ∈ ranked, ∀ (members : List EntityId) (head : EntityId), family id = some (members, head) →
    collapsed.filter (members.contains ·) = [head]
  others : collapsed.filter (fun id => (family id).isNone) = ranked.filter fun id => (family id).isNone

theorem collapseSupersedesFamilies_collapsed (db : Db) (now : Instant) (ranked : List EntityId) :
    Collapsed (supersedesFamily db (supersedesRows db now) ranked) ranked (collapseSupersedesFamilies db now ranked) ∧
      collapseSupersedesFamilies db now (collapseSupersedesFamilies db now ranked) = collapseSupersedesFamilies db now ranked := by
  refine ⟨⟨?within, ?distinct, ?positions, ?once, ?others⟩, ?again⟩
  case within => exact fun id emitted => mem_collapseSupersedesFamilies emitted
  case distinct => exact fun nodup => collapseSupersedesFamilies_nodup nodup
  case positions =>
    have start : ∀ id, id ∈ ([] : List EntityId) ↔
        ∃ x ∈ ([] : List EntityId), sharesFamily (supersedesFamily db (supersedesRows db now) ranked) x id = true := by simp
    rw [collapseSupersedesFamilies_eq, emitCollapsed_positions start supersedesFamily_coherent]
    rfl
  case once => exact fun id listed members head found => collapseSupersedesFamilies_once listed found
  case others => exact emitCollapsed_others supersedesFamily_coherent (by simp)
  case again =>
    exact emitCollapsed_self fun id emitted => collapseSupersedesFamilies_broken emitted

end SaltMdb
