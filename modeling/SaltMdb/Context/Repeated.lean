import SaltMdb.Context.Exact

/-! References that name one memory several times: when the answer is the one for the first of them alone. -/

namespace SaltMdb

variable {env : Env} {db : Db} {pit : Instant} {agentId : Option String}

/-! ### The first reference to each memory -/

/-- A reference that names no memory stands for none that came before. -/
def firstReferences (env : Env) (db : Db) (agentId : Option String) : List EntityId → List String → List String
  | _, [] => []
  | seen, ref :: refs =>
    match resolvePrimaryHit env db agentId ref with
    | .error _ => ref :: firstReferences env db agentId seen refs
    | .ok hit =>
      if seen.contains hit.id then firstReferences env db agentId seen refs
      else ref :: firstReferences env db agentId (hit.id :: seen) refs

theorem firstReferences_isEmpty (refs : List String) : (firstReferences env db agentId [] refs).isEmpty = refs.isEmpty := by
  cases refs with
  | nil => rfl
  | cons ref refs =>
    unfold firstReferences
    cases resolvePrimaryHit env db agentId ref with
    | error e => rfl
    | ok hit => rfl

/-- The empty reference names nothing, so it is kept. -/
theorem firstReferences_empty (seen : List EntityId) (refs : List String) :
    (firstReferences env db agentId seen refs).any (· == "") = refs.any (· == "") := by
  induction refs generalizing seen with
  | nil => rfl
  | cons ref refs ih =>
    unfold firstReferences
    cases resolved : resolvePrimaryHit env db agentId ref with
    | error e => simp only [List.any_cons, ih]
    | ok hit =>
      have named : (ref == "") = false := by simpa using (resolvePrimaryHit_ok resolved).1
      by_cases known : seen.contains hit.id = true
      · simp only [known, if_true, ih, List.any_cons, named, Bool.false_or]
      · simp only [known, Bool.false_eq_true, if_false, ih, List.any_cons]

theorem firstReferences_errors (seen : List EntityId) (refs : List String) :
    unresolvedErrors ((firstReferences env db agentId seen refs).map (resolvePrimaryHit env db agentId)) =
      unresolvedErrors (refs.map (resolvePrimaryHit env db agentId)) := by
  induction refs generalizing seen with
  | nil => rfl
  | cons ref refs ih =>
    unfold firstReferences
    have rest := fun seen => ih seen
    simp only [unresolvedErrors] at rest ⊢
    cases resolved : resolvePrimaryHit env db agentId ref with
    | error e => simp only [List.map_cons, List.filterMap_cons, resolved, rest]
    | ok hit =>
      by_cases known : seen.contains hit.id = true
      · simp only [known, if_true, List.map_cons, List.filterMap_cons, resolved, rest]
      · simp only [known, Bool.false_eq_true, if_false, List.map_cons, List.filterMap_cons, resolved, rest]

/-- What the first references name: the same memories, each of them once. -/
theorem firstReferences_resolve (seen : List EntityId) {refs : List String} {anchors : List ResolvedHit}
    (resolves : refs.map (resolvePrimaryHit env db agentId) = anchors.map .ok) :
    ∃ first : List ResolvedHit, (firstReferences env db agentId seen refs).map (resolvePrimaryHit env db agentId) = first.map .ok ∧
      first.Sublist anchors ∧ (first.map (·.id)).Nodup ∧ (∀ id ∈ seen, id ∉ first.map (·.id)) ∧
        ∀ id ∈ anchors.map (·.id), id ∈ first.map (·.id) ∨ id ∈ seen := by
  induction refs generalizing seen anchors with
  | nil =>
    obtain rfl : anchors = [] := by simpa using resolves.symm
    exact ⟨[], rfl, List.Sublist.refl _, List.nodup_nil, fun _ _ => List.not_mem_nil, nofun⟩
  | cons ref refs ih =>
    cases anchors with
    | nil => cases resolves
    | cons hit anchors =>
      obtain ⟨resolved, later⟩ := List.cons.inj resolves
      unfold firstReferences
      rw [resolved]
      by_cases known : seen.contains hit.id = true
      · obtain ⟨first, same, part, once, apart, covers⟩ := ih seen later
        simp only [known, if_true]
        refine ⟨first, same, part.cons hit, once, apart, fun id member => ?_⟩
        rcases List.mem_cons.mp member with rfl | member
        · exact .inr (List.contains_iff_mem.mp known)
        · exact covers id member
      · obtain ⟨first, same, part, once, apart, covers⟩ := ih (hit.id :: seen) later
        simp only [known, Bool.false_eq_true, if_false]
        have new : hit.id ∉ seen := fun member => known (List.contains_iff_mem.mpr member)
        refine ⟨hit :: first, by rw [List.map_cons, same, resolved]; rfl, part.cons_cons hit,
          List.nodup_cons.mpr ⟨apart hit.id List.mem_cons_self, once⟩, fun id old member => ?_, fun id member => ?_⟩
        · rcases List.mem_cons.mp member with rfl | member
          · exact new old
          · exact apart id (List.mem_cons_of_mem _ old) member
        · rcases List.mem_cons.mp member with rfl | member
          · exact .inl List.mem_cons_self
          · rcases covers id member with here | old
            · exact .inl (List.mem_cons_of_mem _ here)
            · rcases List.mem_cons.mp old with rfl | old
              · exact .inl List.mem_cons_self
              · exact .inr old

theorem firstReferences_sublist (seen : List EntityId) (refs : List String) : (firstReferences env db agentId seen refs).Sublist refs := by
  induction refs generalizing seen with
  | nil => exact List.Sublist.refl _
  | cons ref refs ih =>
    unfold firstReferences
    cases resolvePrimaryHit env db agentId ref with
    | error e => exact (ih seen).cons_cons ref
    | ok hit =>
      by_cases known : seen.contains hit.id = true
      · simp only [known, if_true]
        exact (ih seen).cons ref
      · simp only [known, Bool.false_eq_true, if_false]
        exact (ih _).cons_cons ref

/-! ### Hits as a set -/

theorem anchoredConflicts_congr {hits hits' : List PrimaryHit} (same : ∀ id, id ∈ hits'.map (·.id) ↔ id ∈ hits.map (·.id)) :
    AnchoredConflicts env db pit agentId hits' ↔ AnchoredConflicts env db pit agentId hits := by
  have conflicts : HitConflict env db pit agentId hits' = HitConflict env db pit agentId hits := by
    funext e
    have around : Surrounding env db pit agentId (hits'.map (·.id)) e ↔ Surrounding env db pit agentId (hits.map (·.id)) e :=
      surrounding_congr db.relations .rfl same
    simp only [HitConflict, around]
  have connected : HitConflicting env db pit agentId hits' = HitConflicting env db pit agentId hits := by
    simp only [HitConflicting, conflicts]
  have some_ : ∀ a, (∃ hit ∈ hits', HitConflicting env db pit agentId hits a hit.id) ↔ ∃ hit ∈ hits, HitConflicting env db pit agentId hits a hit.id := by
    intro a
    have named : ∀ hits : List PrimaryHit, ∀ p : EntityId → Prop, (∃ hit ∈ hits, p hit.id) ↔ ∃ id ∈ hits.map (·.id), p id := fun hits p => by
      simp only [List.mem_map, exists_exists_and_eq_and]
    rw [named hits' , named hits]
    exact exists_congr fun id => and_congr_left fun _ => same id
  simp only [AnchoredConflicts, conflicts, connected, some_]

theorem mapM_error {α β : Type} {f : α → Except String β} {message : String} (only : ∀ a m, f a = .error m → m = message)
    {items : List α} {m : String} (failed : items.mapM f = .error m) : m = message := by
  induction items with
  | nil => cases failed
  | cons a rest ih =>
    rw [List.mapM_cons] at failed
    cases first : f a with
    | error m' =>
      rw [first] at failed
      obtain rfl := Except.error.inj failed
      exact only a _ first
    | ok b =>
      rw [first] at failed
      cases later : rest.mapM f with
      | error m' =>
        rw [later] at failed
        obtain rfl := Except.error.inj failed
        exact ih later
      | ok bs =>
        rw [later] at failed
        cases failed

/-- There is one message with which assembling fails. -/
theorem assembleConflictSets_error {expansion : ExpansionResult} {hits : List PrimaryHit} {message : String}
    (failed : assembleConflictSets env db expansion hits pit = .error message) : message = "max() arg is an empty sequence" := by
  rw [assembleConflictSets_eq] at failed
  cases components : builtComponents env db expansion hits pit with
  | ok built =>
    rw [components] at failed
    cases failed
  | error m =>
    rw [components] at failed
    obtain rfl := Except.error.inj failed
    refine mapM_error (fun c m failed => ?_) components
    unfold buildUnresolvedComponent at failed
    split at failed
    · cases failed
    · dsimp only at failed
      split at failed
      · exact (Except.error.inj failed).symm
      · cases failed

/-! ### The answers -/

/-- What an answer says of the memories, without the references and the histories. -/
structure ContextView where
  memories : List ContextMemory
  edges : List RawEdge
  conflictSets : List ContextConflictSet
  metadata : ContextMetadata

def LocalContext.view (context : LocalContext) : ContextView := ⟨context.memories, context.edges, context.conflictSets, context.metadata⟩

variable {ν : Type} {store : CommunityStore ν} {tokenCount : String → Nat} {budgetTokens : Option Int} {refs : List String}

/-- The references count as the set of the memories that they name. -/
structure AnchorsAsSet (env : Env) (store : CommunityStore ν) (tokenCount : String → Nat) (db : Db) (refs : List String)
    (budgetTokens : Option Int) (pit : Instant) (agentId : Option String) : Prop where
  same : (assembleRetrieveContext env store tokenCount db refs budgetTokens pit agentId).map LocalContext.view =
    (assembleRetrieveContext env store tokenCount db (firstReferences env db agentId [] refs) budgetTokens pit agentId).map LocalContext.view
  once : ∀ context, assembleRetrieveContext env store tokenCount db refs budgetTokens pit agentId = .ok context →
    (context.memories.map (·.entityId)).Nodup

theorem validate_first : validateRetrieveRequest (firstReferences env db agentId [] refs) = validateRetrieveRequest refs := by
  simp only [validateRetrieveRequest, firstReferences_isEmpty, firstReferences_empty]

theorem errors_nil_iff {resolutions : List (Except AnchorError ResolvedHit)} :
    unresolvedErrors resolutions = [] ↔ ∃ anchors : List ResolvedHit, resolutions = anchors.map .ok := by
  induction resolutions with
  | nil => exact ⟨fun _ => ⟨[], rfl⟩, fun _ => rfl⟩
  | cons resolution rest ih =>
    cases resolution with
    | error e =>
      constructor
      · intro none_
        cases none_
      · rintro ⟨anchors, same⟩
        cases anchors with
        | nil => cases same
        | cons hit anchors => cases (List.cons.inj same).1
    | ok hit =>
      have skip : unresolvedErrors (.ok hit :: rest) = unresolvedErrors rest := rfl
      rw [skip, ih]
      constructor
      · rintro ⟨anchors, rfl⟩
        exact ⟨hit :: anchors, rfl⟩
      · rintro ⟨anchors, same⟩
        cases anchors with
        | nil => cases same
        | cons first anchors => exact ⟨anchors, (List.cons.inj same).2⟩

/-- A reference that names nothing is refused before anything else is read. -/
theorem assembleRetrieveContext_rejected (unresolved : unresolvedErrors (refs.map (resolvePrimaryHit env db agentId)) ≠ []) :
    assembleRetrieveContext env store tokenCount db refs budgetTokens pit agentId = .error (.rejected
      (if (validateRetrieveRequest refs).isEmpty then unresolvedErrors (refs.map (resolvePrimaryHit env db agentId))
        else validateRetrieveRequest refs)) := by
  have some_ : (unresolvedErrors (refs.map (resolvePrimaryHit env db agentId))).isEmpty = false := by simpa using unresolved
  unfold assembleRetrieveContext
  by_cases valid : (validateRetrieveRequest refs).isEmpty = true
  · simp only [valid, some_, Bool.not_true, Bool.not_false, Bool.false_eq_true, if_false, if_true]
  · simp only [valid, Bool.not_false, Bool.false_eq_true, if_false, if_true]

theorem anchorsAsSet_rejected (unresolved : unresolvedErrors (refs.map (resolvePrimaryHit env db agentId)) ≠ []) :
    AnchorsAsSet env store tokenCount db refs budgetTokens pit agentId := by
  have first : unresolvedErrors ((firstReferences env db agentId [] refs).map (resolvePrimaryHit env db agentId)) ≠ [] := by
    rwa [firstReferences_errors]
  refine ⟨?_, fun context answer => ?_⟩
  · rw [assembleRetrieveContext_rejected unresolved, assembleRetrieveContext_rejected first, firstReferences_errors, validate_first]
  · rw [assembleRetrieveContext_rejected unresolved] at answer
    cases answer

theorem assembled_iff {anchors : List ResolvedHit} : (∃ conflicts, assembleConflictSets env db
    (expandContextCandidates env db (anchorHits anchors) pit agentId) (anchorHits anchors) pit = .ok conflicts) ↔
      AnchoredConflicts env db pit agentId (anchorHits anchors) :=
  assembleConflictSets_ok_iff.trans anchoredConflicts_iff.symm

/-- Where the conflict sets cannot be assembled the call raises. -/
theorem assembleRetrieveContext_raised {anchors : List ResolvedHit} (given : refs ≠ [])
    (resolves : refs.map (resolvePrimaryHit env db agentId) = anchors.map .ok)
    (loose : ¬ AnchoredConflicts env db pit agentId (anchorHits anchors)) :
    assembleRetrieveContext env store tokenCount db refs budgetTokens pit agentId = .error (.raised "max() arg is an empty sequence") := by
  rw [assembleRetrieveContext_eq given resolves]
  cases done : assembleConflictSets env db (expandContextCandidates env db (anchorHits anchors) pit agentId) (anchorHits anchors) pit with
  | error message => rw [assembleConflictSets_error done]
  | ok conflicts => exact absurd (assembled_iff.mp ⟨conflicts, done⟩) loose

theorem first_given (given : refs ≠ []) : firstReferences env db agentId [] refs ≠ [] := by
  intro none_
  have empty := @firstReferences_isEmpty env db agentId refs
  rw [none_] at empty
  exact given (List.isEmpty_iff.mp empty.symm)

/-- The references are as good as their first ones exactly where none of them is repeated, or the call fails in any case. -/
theorem anchorsAsSet_iff (env : Env) (store : CommunityStore ν) (tokenCount : String → Nat) (db : Db) (refs : List String)
    (budgetTokens : Option Int) (pit : Instant) (agentId : Option String) :
    AnchorsAsSet env store tokenCount db refs budgetTokens pit agentId ↔
      ∀ anchors : List ResolvedHit, refs.map (resolvePrimaryHit env db agentId) = anchors.map .ok →
        (anchors.map (·.id)).Nodup ∨ ¬ AnchoredConflicts env db pit agentId (anchorHits anchors) := by
  by_cases given : refs = []
  · subst given
    constructor
    · intro _ anchors resolves
      obtain rfl : anchors = [] := by simpa using resolves.symm
      exact .inl List.nodup_nil
    · exact fun _ => ⟨rfl, nofun⟩
  by_cases unresolved : unresolvedErrors (refs.map (resolvePrimaryHit env db agentId)) = []
  · obtain ⟨anchors, resolves⟩ := errors_nil_iff.mp unresolved
    have only : ∀ others : List ResolvedHit, refs.map (resolvePrimaryHit env db agentId) = others.map .ok → others = anchors := by
      intro others resolves'
      exact List.map_injective_iff.mpr (fun _ _ => Except.ok.inj) (resolves'.symm.trans resolves)
    have reduced : (∀ others : List ResolvedHit, refs.map (resolvePrimaryHit env db agentId) = others.map .ok →
        (others.map (·.id)).Nodup ∨ ¬ AnchoredConflicts env db pit agentId (anchorHits others)) ↔
          (anchors.map (·.id)).Nodup ∨ ¬ AnchoredConflicts env db pit agentId (anchorHits anchors) :=
      ⟨fun all => all anchors resolves, fun here others resolves' => only others resolves' ▸ here⟩
    rw [reduced]
    obtain ⟨first, resolvesFirst, part, onceFirst, _, covers⟩ := firstReferences_resolve [] resolves
    have sameIds : ∀ id, id ∈ (anchorHits first).map (·.id) ↔ id ∈ (anchorHits anchors).map (·.id) := by
      intro id
      rw [anchorHits_ids, anchorHits_ids]
      exact ⟨fun member => (part.map _).subset member, fun member => (covers id member).resolve_right List.not_mem_nil⟩
    have anchored := @anchoredConflicts_congr env db pit agentId _ _ sameIds
    constructor
    · intro set
      by_contra neither
      obtain ⟨repeated, held⟩ := not_or.mp neither
      have held := not_not.mp held
      obtain ⟨conflicts, done⟩ := assembled_iff.mpr held
      obtain ⟨conflictsFirst, doneFirst⟩ := assembled_iff.mpr (anchored.mpr held)
      have same := set.same
      rw [assembleRetrieveContext_eq given resolves, done, assembleRetrieveContext_eq (first_given given) resolvesFirst, doneFirst] at same
      have caps := congrArg (fun view : ContextView => view.metadata.fanOut.cap) (Except.ok.inj same)
      have caps : contextExpansionTopKRelationships * (anchorHits anchors).length = contextExpansionTopKRelationships * (anchorHits first).length :=
        caps
      simp only [contextExpansionTopKRelationships, anchorHits, List.length_map] at caps
      exact repeated (part.eq_of_length (by omega) ▸ onceFirst)
    · rintro (distinct | loose)
      · have kept : firstReferences env db agentId [] refs = refs := by
          refine (firstReferences_sublist [] refs).eq_of_length ?_
          have lengths : first.length = anchors.length := by
            have perm : (first.map (·.id)).Perm (anchors.map (·.id)) := by
              rw [List.perm_ext_iff_of_nodup onceFirst distinct]
              intro id
              rw [← anchorHits_ids, ← anchorHits_ids]
              exact sameIds id
            simpa using perm.length_eq
          have counts := congrArg List.length resolves
          have countsFirst := congrArg List.length resolvesFirst
          rw [List.length_map, List.length_map] at counts countsFirst
          omega
        refine ⟨by rw [kept], fun context answer => ?_⟩
        rw [assembleRetrieveContext_eq given resolves] at answer
        cases done : assembleConflictSets env db (expandContextCandidates env db (anchorHits anchors) pit agentId) (anchorHits anchors) pit with
        | error message =>
          rw [done] at answer
          cases answer
        | ok conflicts =>
          rw [done] at answer
          obtain rfl := Except.ok.inj answer
          exact (assembled_exact distinct done).once
      · have raised := @assembleRetrieveContext_raised env db pit agentId ν store tokenCount budgetTokens refs anchors given resolves loose
        refine ⟨?_, fun context answer => ?_⟩
        · rw [raised, assembleRetrieveContext_raised (first_given given) resolvesFirst fun held => loose (anchored.mp held)]
        · rw [raised] at answer
          cases answer
  · have set := @anchorsAsSet_rejected env db pit agentId ν store tokenCount budgetTokens refs unresolved
    refine ⟨fun _ anchors resolves => ?_, fun _ => set⟩
    exact absurd (errors_nil_iff.mpr ⟨anchors, resolves⟩) unresolved

/-- One memory by its id and by its title. -/
theorem nestedDb_repeated : ¬ AnchorsAsSet .plain noCommunities String.length nestedDb ["plan", "Plan"] none 0 none := by
  intro set
  have caps : ((assembleRetrieveContext .plain noCommunities String.length nestedDb ["plan", "Plan"] none 0 none).map
      fun context => context.view.metadata.fanOut.cap) = .ok 20 := by rfl
  have capsFirst : ((assembleRetrieveContext .plain noCommunities String.length nestedDb
      (firstReferences .plain nestedDb none [] ["plan", "Plan"]) none 0 none).map fun context => context.view.metadata.fanOut.cap) = .ok 10 := by rfl
  have through : ∀ answer : Except RetrieveFailure LocalContext, (answer.map LocalContext.view).map (fun view => view.metadata.fanOut.cap) =
      answer.map fun context => context.view.metadata.fanOut.cap := by
    intro answer
    cases answer with
    | error failure => rfl
    | ok context => rfl
  have same := congrArg (Except.map fun view : ContextView => view.metadata.fanOut.cap) set.same
  rw [through, through, caps, capsFirst] at same
  cases same

end SaltMdb
