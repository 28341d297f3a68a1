import SaltMdb.Search.Ranking

/-! Collapsed families: each family of a pool comes out once, under the one member that stands for it. -/

namespace SaltMdb
open Component

variable {rows : List (EntityId × EntityId)} {db : Db} {pool members : List EntityId} {id head x y seed : EntityId}

theorem mem_undirected : y ∈ (buildSupersedesMaps rows).undirected x ↔ (x, y) ∈ rows ∨ (y, x) ∈ rows := by
  simp [SupersedesMaps.undirected, buildSupersedesMaps]

/-- The edges that may still be put on the stack. -/
def edgesLeft (rows : List (EntityId × EntityId)) (seen : List EntityId) : Nat :=
  rows.countP (fun row => decide (row.1 ∉ seen)) + rows.countP fun row => decide (row.2 ∉ seen)

theorem countP_fresh {ρ : Type*} (f : ρ → EntityId) (rows : List ρ) {seen : List EntityId} {node : EntityId} (fresh : node ∉ seen) :
    rows.countP (fun row => f row == node) + rows.countP (fun row => decide (f row ∉ seen ++ [node])) =
      rows.countP fun row => decide (f row ∉ seen) := by
  induction rows with
  | nil => rfl
  | cons row rows ih =>
    simp only [List.countP_cons]
    by_cases same : f row = node
    · simp [same, fresh] at ih ⊢
      omega
    · simp [same] at ih ⊢
      omega

theorem undirected_spend (seen : List EntityId) (node : EntityId) (fresh : node ∉ seen) :
    ((buildSupersedesMaps rows).undirected node).length + edgesLeft rows (seen ++ [node]) ≤ edgesLeft rows seen := by
  have targets := countP_fresh Prod.fst rows fresh
  have sources := countP_fresh Prod.snd rows fresh
  have fewTargets : ((buildSupersedesMaps rows).sourceToTargets node).length ≤ rows.countP fun row => row.1 == node := by
    refine (List.dedup_sublist _).length_le.trans ?_
    rw [List.length_map, List.countP_eq_length_filter]
  have fewSources : ((buildSupersedesMaps rows).targetToSources node).length ≤ rows.countP fun row => row.2 == node := by
    refine (List.dedup_sublist _).length_le.trans ?_
    rw [List.length_map, List.countP_eq_length_filter]
  unfold SupersedesMaps.undirected edgesLeft
  rw [List.length_append]
  omega

theorem edgesLeft_enough : 1 + edgesLeft rows [] ≤ 2 * rows.length + 1 := by
  have first := List.countP_le_length (p := fun row => decide (row.1 ∉ ([] : List EntityId))) (l := rows)
  have second := List.countP_le_length (p := fun row => decide (row.2 ∉ ([] : List EntityId))) (l := rows)
  unfold edgesLeft
  omega

theorem mem_supersedesComponent : x ∈ supersedesComponent rows seed ↔
    Relation.ReflTransGen (fun x y => y ∈ (buildSupersedesMaps rows).undirected x) seed x :=
  mem_explore undirected_spend edgesLeft_enough

theorem supersedesComponent_perm (member : x ∈ supersedesComponent rows seed) :
    (supersedesComponent rows x).Perm (supersedesComponent rows seed) :=
  explore_perm undirected_spend edgesLeft_enough (fun _ _ edge => mem_undirected.mpr (mem_undirected.mp edge).symm) member

/-! ### The head of a component -/

theorem supersedesChainHead_mem {maps : SupersedesMaps} (found : supersedesChainHead maps members = some head) : head ∈ members := by
  unfold supersedesChainHead at found
  split at found
  · split at found
    · rename_i only
      dsimp only at found
      split at found
      · obtain rfl := Option.some.inj found
        exact List.mem_of_mem_filter (only ▸ List.mem_cons_self)
      · simp at found
    · simp at found
  · simp at found

theorem all_perm {α : Type*} {xs ys : List α} (same : xs.Perm ys) (p : α → Bool) : xs.all p = ys.all p := by
  rw [Bool.eq_iff_iff, List.all_eq_true, List.all_eq_true]
  exact forall_congr' fun x => by rw [same.mem_iff]

/-- The order in which a component was seen makes no difference. -/
theorem supersedesChainHead_perm {maps : SupersedesMaps} {others : List EntityId} (same : others.Perm members)
    (found : supersedesChainHead maps members = some head) : supersedesChainHead maps others = some head := by
  unfold supersedesChainHead at found ⊢
  rw [all_perm same]
  split at found
  · rename_i chain
    rw [if_pos chain]
    split at found
    · rename_i first only
      have here : (others.filter fun id => (maps.targetToSources id).isEmpty) = [first] := by
        have filtered := same.filter fun id => (maps.targetToSources id).isEmpty
        rw [only] at filtered
        exact List.perm_singleton.mp filtered
      rw [here]
      dsimp only at found ⊢
      rw [all_perm same, same.length_eq]
      have contains : ∀ walked : List EntityId, walked.all others.contains = walked.all members.contains := by
        intro walked
        refine congrArg (walked.all ·) (funext fun id => ?_)
        rw [Bool.eq_iff_iff, List.contains_iff_mem, List.contains_iff_mem, same.mem_iff]
      rw [contains]
      exact found
    · simp at found
  · simp at found

/-! ### Families -/

structure Family (db : Db) (rows : List (EntityId × EntityId)) (pool : List EntityId) (id : EntityId) (members : List EntityId)
    (head : EntityId) : Prop where
  component : members = supersedesComponent rows id
  own : id ∈ members
  standsIn : head ∈ members
  pooled : ∀ x ∈ members, x ∈ pool

theorem supersedesFamily_family (found : supersedesFamily db rows pool id = some (members, head)) : Family db rows pool id members head := by
  unfold supersedesFamily at found
  dsimp only at found
  split at found
  · simp at found
  · split at found
    · rename_i live
      obtain ⟨first, chain, same⟩ := Option.map_eq_some_iff.mp found
      obtain ⟨rfl, rfl⟩ := Prod.mk.inj same
      refine ⟨rfl, mem_supersedesComponent.mpr .refl, supersedesChainHead_mem chain, fun x member => ?_⟩
      have alive := List.all_eq_true.mp live x member
      rw [Bool.and_eq_true, List.contains_iff_mem] at alive
      exact alive.1
    · simp at found

/-- All members of a family have it, and the same one stands for it. -/
theorem supersedesFamily_shared (found : supersedesFamily db rows pool id = some (members, head)) (member : x ∈ members) :
    ∃ others, supersedesFamily db rows pool x = some (others, head) ∧ others.Perm members := by
  have family := supersedesFamily_family found
  have same : (supersedesComponent rows x).Perm (supersedesComponent rows id) :=
    supersedesComponent_perm (family.component ▸ member)
  refine ⟨supersedesComponent rows x, ?_, family.component ▸ same⟩
  have edged : ((buildSupersedesMaps rows).undirected x).isEmpty = false := by
    have path := mem_supersedesComponent.mp (family.component ▸ member)
    unfold supersedesFamily at found
    dsimp only at found
    split at found
    · simp at found
    · rename_i edged
      rcases Relation.ReflTransGen.cases_tail path with rfl | ⟨before, _, edge⟩
      · exact Bool.not_eq_true _ ▸ edged
      · have back : before ∈ (buildSupersedesMaps rows).undirected x := mem_undirected.mpr (mem_undirected.mp edge).symm
        rw [← Bool.not_eq_true, List.isEmpty_iff]
        intro none_
        simp [none_] at back
  unfold supersedesFamily at found ⊢
  dsimp only at found ⊢
  rw [edged, if_neg Bool.false_ne_true]
  split at found
  · simp at found
  · unfold supersedesComponentIsLive at found ⊢
    rw [all_perm same]
    split at found
    · rename_i live
      rw [if_pos live]
      obtain ⟨first, chain, pair⟩ := Option.map_eq_some_iff.mp found
      obtain ⟨_, rfl⟩ := Prod.mk.inj pair
      rw [supersedesChainHead_perm same chain]
      rfl
    · simp at found

/-! ### What comes out -/

/-- Who stands for a candidate. -/
def standsFor (family : EntityId → Option (List EntityId × EntityId)) (id : EntityId) : EntityId :=
  match family id with
  | none => id
  | some (_, head) => head

theorem standsFor_eq {a b : EntityId}
    (same : standsFor (supersedesFamily db rows pool) a = standsFor (supersedesFamily db rows pool) b) :
    a = b ∨ ∃ members head, supersedesFamily db rows pool a = some (members, head) ∧ b ∈ members := by
  unfold standsFor at same
  cases foundA : supersedesFamily db rows pool a with
  | none =>
    rw [foundA] at same
    cases foundB : supersedesFamily db rows pool b with
    | none => rw [foundB] at same; exact .inl same
    | some family =>
      obtain ⟨members, head⟩ := family
      rw [foundB] at same
      dsimp only at same
      obtain ⟨_, shared, _⟩ := supersedesFamily_shared foundB (same ▸ (supersedesFamily_family foundB).standsIn)
      rw [foundA] at shared
      simp at shared
  | some family =>
    obtain ⟨members, head⟩ := family
    refine .inr ⟨members, head, rfl, ?_⟩
    rw [foundA] at same
    dsimp only at same
    cases foundB : supersedesFamily db rows pool b with
    | none =>
      rw [foundB] at same
      dsimp only at same
      exact same ▸ (supersedesFamily_family foundA).standsIn
    | some family =>
      obtain ⟨others, head'⟩ := family
      rw [foundB] at same
      dsimp only at same
      subst same
      obtain ⟨_, sharedA, permA⟩ := supersedesFamily_shared foundA (supersedesFamily_family foundA).standsIn
      obtain ⟨_, sharedB, permB⟩ := supersedesFamily_shared foundB (supersedesFamily_family foundB).standsIn
      rw [sharedA] at sharedB
      obtain ⟨rfl, -⟩ := Prod.mk.inj (Option.some.inj sharedB)
      exact permA.mem_iff.mp (permB.mem_iff.mpr (supersedesFamily_family foundB).own)

theorem mem_emitCollapsed {family : EntityId → Option (List EntityId × EntityId)} {ids skipped : List EntityId}
    (emitted : y ∈ emitCollapsedSupersedes family ids skipped) : ∃ id ∈ ids, id ∉ skipped ∧ standsFor family id = y := by
  fun_induction emitCollapsedSupersedes family ids skipped with
  | case1 => simp at emitted
  | case2 id rest skipped known ih =>
    obtain ⟨other, member, rest⟩ := ih emitted
    exact ⟨other, List.mem_cons_of_mem _ member, rest⟩
  | case3 id rest skipped fresh alone ih =>
    rcases List.mem_cons.mp emitted with rfl | later
    · exact ⟨y, List.mem_cons_self, by simpa using fresh, by simp [standsFor, alone]⟩
    · obtain ⟨other, member, rest⟩ := ih later
      exact ⟨other, List.mem_cons_of_mem _ member, rest⟩
  | case4 id rest skipped fresh members head found ih =>
    rcases List.mem_cons.mp emitted with rfl | later
    · exact ⟨id, List.mem_cons_self, by simpa using fresh, by simp [standsFor, found]⟩
    · obtain ⟨other, member, unskipped, same⟩ := ih later
      exact ⟨other, List.mem_cons_of_mem _ member, fun old => unskipped (List.mem_append_left _ old), same⟩

theorem emitCollapsed_nodup {ids skipped : List EntityId} (nodup : ids.Nodup) :
    (emitCollapsedSupersedes (supersedesFamily db rows pool) ids skipped).Nodup := by
  fun_induction emitCollapsedSupersedes (supersedesFamily db rows pool) ids skipped with
  | case1 => exact List.nodup_nil
  | case2 id rest skipped known ih => exact ih (List.nodup_cons.mp nodup).2
  | case3 id rest skipped fresh alone ih =>
    obtain ⟨once, nodup⟩ := List.nodup_cons.mp nodup
    refine List.nodup_cons.mpr ⟨fun again => ?_, ih nodup⟩
    obtain ⟨other, member, _, same⟩ := mem_emitCollapsed again
    have own : standsFor (supersedesFamily db rows pool) id = id := by simp [standsFor, alone]
    rcases standsFor_eq (own.trans same.symm) with rfl | ⟨_, _, found, _⟩
    · exact once member
    · simp [alone] at found
  | case4 id rest skipped fresh members head found ih =>
    obtain ⟨once, nodup⟩ := List.nodup_cons.mp nodup
    refine List.nodup_cons.mpr ⟨fun again => ?_, ih nodup⟩
    obtain ⟨other, member, unskipped, same⟩ := mem_emitCollapsed again
    have own : standsFor (supersedesFamily db rows pool) id = head := by simp [standsFor, found]
    rcases standsFor_eq (own.trans same.symm) with rfl | ⟨_, _, found', shared⟩
    · exact once member
    · rw [found] at found'
      obtain ⟨rfl, rfl⟩ := Prod.mk.inj (Option.some.inj found')
      exact unskipped (List.mem_append_right _ shared)

theorem collapseSupersedesFamilies_nodup {now : Instant} (nodup : pool.Nodup) : (collapseSupersedesFamilies db now pool).Nodup :=
  emitCollapsed_nodup nodup

/-- Nothing comes out that was not in the pool. -/
theorem mem_collapseSupersedesFamilies {now : Instant} (emitted : y ∈ collapseSupersedesFamilies db now pool) : y ∈ pool := by
  obtain ⟨id, member, _, same⟩ := mem_emitCollapsed emitted
  unfold standsFor at same
  split at same
  · exact same ▸ member
  · rename_i found
    have family := supersedesFamily_family found
    exact same ▸ family.pooled _ family.standsIn

end SaltMdb
