import SaltMdb.Context.Anchored
import SaltMdb.Context.Retrieve

/-! What an answer of `retrieve_context` holds of its anchors, its candidates and its conflict sets, whatever the budget. -/

namespace SaltMdb

variable {env : Env} {db : Db} {pit : Instant} {agentId : Option String} {hits : List PrimaryHit}

/-! ### Members of conflict sets -/

theorem built_members {candidateIds : List EntityId} {c : ConflictComponent} {built : UnresolvedComponent}
    (done : buildUnresolvedComponent db hits candidateIds c = .ok (some built)) :
    ∀ m ∈ built.members, m = conflictMember db (hits.map (·.id)) candidateIds m.id := by
  unfold buildUnresolvedComponent at done
  split at done
  · cases Except.ok.inj done
  · dsimp only at done
    split at done
    · cases done
    · obtain rfl := Option.some.inj (Except.ok.inj done)
      intro m member
      obtain ⟨id, _, rfl⟩ := List.mem_map.mp member
      have named : (conflictMember db (hits.map (·.id)) candidateIds id).id = id := by
        unfold conflictMember
        split
        · rfl
        · split
          · rfl
          · rfl
      rw [named]

theorem conflictSets_members {expansion : ExpansionResult} {result : ConflictSetsResult}
    (done : assembleConflictSets env db expansion hits pit = .ok result) :
    ∀ c ∈ result.conflictSets, ∀ m ∈ c.members,
      m = conflictMember db (hits.map (·.id)) (expansion.expansionCandidates.map (·.entityId)) m.id := by
  rw [assembleConflictSets_eq] at done
  cases components : builtComponents env db expansion hits pit with
  | error message => rw [components] at done; cases done
  | ok built =>
    rw [components] at done
    obtain rfl := Except.ok.inj done
    intro c member
    obtain ⟨u, admitted, rfl⟩ := List.mem_map.mp member
    have listed := (List.mem_insertionSort _).mp (admit_subset _ _ admitted)
    obtain ⟨option, listed, rfl⟩ := List.mem_filterMap.mp listed
    obtain ⟨component, _, done⟩ := mem_of_mapM components listed
    exact built_members done

/-- Where a member stands says where its id is. -/
theorem conflictMember_places {primaryHitIds candidateIds : List EntityId} (id : EntityId) :
    id ∈ primaryHitIds ∨ id ∈ candidateIds ∨ id ∉ primaryHitIds ∧ id ∉ candidateIds ∧
      (conflictMember db primaryHitIds candidateIds id).inclusion = .conflictOnly := by
  by_cases primary : id ∈ primaryHitIds
  · exact .inl primary
  · by_cases candidate : id ∈ candidateIds
    · exact .inr (.inl candidate)
    · refine .inr (.inr ⟨primary, candidate, conflictMember_conflictOnly.mpr ?_⟩)
      simp only [List.contains_eq_mem, primary, candidate, decide_false, Bool.not_false, Bool.and_self]

theorem mem_numberedConflictSets {conflicts : ConflictSetsResult} {c : ContextConflictSet} (member : c ∈ numberedConflictSets conflicts) :
    ∃ s ∈ conflicts.conflictSets, c.members = s.members := by
  obtain ⟨numbered, listed, rfl⟩ := List.mem_map.mp member
  exact ⟨numbered.1, List.fst_mem_of_mem_zipIdx listed, rfl⟩

/-- The ids that are there for a conflict alone. -/
def conflictOnlyIds (conflicts : ConflictSetsResult) : List EntityId :=
  conflicts.conflictSets.flatMap fun c => (c.members.filter (·.inclusion = .conflictOnly)).map (·.id)

theorem conflictOnlyIds_eq (conflicts : ConflictSetsResult) :
    (conflicts.conflictSets.flatMap fun c => (c.members.filter (·.inclusion = .conflictOnly)).map (·.id)) = conflictOnlyIds conflicts := rfl

theorem mem_conflictOnlyIds {conflicts : ConflictSetsResult} {id : EntityId} :
    id ∈ conflictOnlyIds conflicts ↔ ∃ c ∈ conflicts.conflictSets, ∃ m ∈ c.members, m.inclusion = .conflictOnly ∧ m.id = id := by
  simp only [conflictOnlyIds, List.mem_flatMap, List.mem_map, List.mem_filter, decide_eq_true_eq, and_assoc]

/-- A member is an anchor, a candidate or there for the conflict alone, and then it is neither of the others. -/
theorem member_places {conflicts : ConflictSetsResult} {anchorIds candidateIds : List EntityId}
    (placed : ∀ c ∈ conflicts.conflictSets, ∀ m ∈ c.members, m = conflictMember db anchorIds candidateIds m.id) :
    (∀ c ∈ numberedConflictSets conflicts, ∀ m ∈ c.members, m.id ∈ anchorIds ∨ m.id ∈ candidateIds ∨ m.id ∈ conflictOnlyIds conflicts) ∧
      ∀ id ∈ conflictOnlyIds conflicts, id ∉ anchorIds ∧ id ∉ candidateIds := by
  constructor
  · intro c member m listed
    obtain ⟨s, here, same⟩ := mem_numberedConflictSets member
    rw [same] at listed
    rcases @conflictMember_places db anchorIds candidateIds m.id with primary | candidate | ⟨_, _, alone⟩
    · exact .inl primary
    · exact .inr (.inl candidate)
    · rw [← placed s here m listed] at alone
      exact .inr (.inr (mem_conflictOnlyIds.mpr ⟨s, here, m, listed, alone, rfl⟩))
  · intro id member
    obtain ⟨s, here, m, listed, alone, rfl⟩ := mem_conflictOnlyIds.mp member
    rw [placed s here m listed] at alone
    have outside := conflictMember_conflictOnly.mp alone
    simp only [Bool.and_eq_true, Bool.not_eq_true', List.contains_eq_mem, decide_eq_false_iff_not] at outside
    exact outside

theorem memberToConflictSet_isSome {sets : List ContextConflictSet} {id : EntityId} :
    (memberToConflictSet sets id).isSome = true ↔ ∃ c ∈ sets, ∃ m ∈ c.members, m.id = id := by
  rw [memberToConflictSet, Option.isSome_map, List.find?_isSome]
  simp only [List.mem_reverse, List.any_eq_true, beq_iff_eq]

/-! ### The answer -/

/-- The entries that are charged to the budget: the anchors and the candidates. -/
def ContextMemory.charged (memory : ContextMemory) : Bool := memory.inclusion == .primary || memory.inclusion == .expansion

/-- The answer accounts for every anchor and every candidate. -/
structure ExactLocalContext (tokens : EntityId → Nat) (anchorIds candidateIds : List EntityId) (limit : Int) (context : LocalContext) : Prop where
  members : ∀ c ∈ context.conflictSets, ∀ m ∈ c.members,
    ∃ memory ∈ context.memories, memory.entityId = m.id ∧ memory.inclusion ≠ .orphanCommunity
  once : (context.memories.map (·.entityId)).Nodup
  used : context.metadata.budget.used = tokenSum tokens ((context.memories.filter ContextMemory.charged).map (·.entityId))
  primaryCount : (context.memories.filter (·.inclusion == .primary)).length + context.metadata.budget.primaryDroppedCount = anchorIds.length
  expansionCount : (context.memories.filter (·.inclusion == .expansion)).length + context.metadata.budget.expansionDroppedCount =
    candidateIds.length
  anchors : ∀ memory ∈ context.memories, memory.inclusion = .primary → memory.entityId ∈ anchorIds
  candidates : ∀ memory ∈ context.memories, memory.inclusion = .expansion → memory.entityId ∈ candidateIds
  allowed : context.metadata.budget.limit = limit
  packing : ∃ packed : List EntityId, packed.Nodup ∧ (∀ id ∈ packed, ∃ memory ∈ context.memories, memory.charged = true ∧ memory.entityId = id) ∧
    (∀ memory ∈ context.memories, memory.charged = true → memory.entityId ∉ packed → ∃ c ∈ context.conflictSets, ∃ m ∈ c.members,
      m.id = memory.entityId) ∧ (0 ≤ limit → (tokenSum tokens packed : Int) ≤ limit) ∧
    ∀ id ∈ anchorIds ++ candidateIds, id ∉ context.memories.map (·.entityId) → limit < ((tokenSum tokens packed + tokens id : Nat) : Int)

section
variable {ν : Type} {store : CommunityStore ν} {tokenCount : String → Nat} {entityIds : List String} {anchors : List ResolvedHit}
  {budgetTokens : Option Int} {expansion : ExpansionResult} {conflicts : ConflictSetsResult}

/-- The four parts of the memories. -/
def contextMemories (db : Db) (anchors : List ResolvedHit) (candidates : List ExpansionCandidate) (sets : List ContextConflictSet)
    (primaryIds expansionIds conflictOnlyIds : List EntityId) (found : List OrphanMatch) : List ContextMemory :=
  primaryIds.map (primaryMemory anchors) ++ expansionIds.map (expansionMemory db candidates) ++
    conflictOnlyIds.map (conflictOnlyMemory db sets) ++ found.map (orphanMemory db)

section
variable {candidates : List ExpansionCandidate} {sets : List ContextConflictSet} {primaryIds expansionIds conflictOnlyIds : List EntityId}
  {found : List OrphanMatch}

theorem contextMemories_eq : primaryIds.map (primaryMemory anchors) ++ expansionIds.map (expansionMemory db candidates) ++
    conflictOnlyIds.map (conflictOnlyMemory db sets) ++ found.map (orphanMemory db) =
      contextMemories db anchors candidates sets primaryIds expansionIds conflictOnlyIds found := rfl

theorem contextMemories_ids :
    (contextMemories db anchors candidates sets primaryIds expansionIds conflictOnlyIds found).map (·.entityId) =
      primaryIds ++ expansionIds ++ conflictOnlyIds ++ found.map (·.entityId) := by
  simp only [contextMemories, List.map_append, List.map_map, Function.comp_def, primaryMemory, expansionMemory, conflictOnlyMemory, orphanMemory,
    List.map_id_fun', id_eq]

theorem contextMemories_primary :
    (contextMemories db anchors candidates sets primaryIds expansionIds conflictOnlyIds found).filter (·.inclusion == .primary) =
      primaryIds.map (primaryMemory anchors) := by
  simp [contextMemories, List.filter_map, Function.comp_def, primaryMemory, expansionMemory, conflictOnlyMemory, orphanMemory]

theorem contextMemories_expansion :
    (contextMemories db anchors candidates sets primaryIds expansionIds conflictOnlyIds found).filter (·.inclusion == .expansion) =
      expansionIds.map (expansionMemory db candidates) := by
  simp [contextMemories, beq_eq_decide, List.filter_map, Function.comp_def, primaryMemory, expansionMemory, conflictOnlyMemory, orphanMemory]

theorem contextMemories_of_primary {memory : ContextMemory}
    (member : memory ∈ contextMemories db anchors candidates sets primaryIds expansionIds conflictOnlyIds found)
    (primary : memory.inclusion = .primary) : memory.entityId ∈ primaryIds := by
  have kept : memory ∈ (contextMemories db anchors candidates sets primaryIds expansionIds conflictOnlyIds found).filter
      (·.inclusion == .primary) := List.mem_filter.mpr ⟨member, by simp [primary]⟩
  rw [contextMemories_primary] at kept
  obtain ⟨id, here, rfl⟩ := List.mem_map.mp kept
  exact here

theorem contextMemories_of_expansion {memory : ContextMemory}
    (member : memory ∈ contextMemories db anchors candidates sets primaryIds expansionIds conflictOnlyIds found)
    (candidate : memory.inclusion = .expansion) : memory.entityId ∈ expansionIds := by
  have kept : memory ∈ (contextMemories db anchors candidates sets primaryIds expansionIds conflictOnlyIds found).filter
      (·.inclusion == .expansion) := List.mem_filter.mpr ⟨member, by simp [candidate]⟩
  rw [contextMemories_expansion] at kept
  obtain ⟨id, here, rfl⟩ := List.mem_map.mp kept
  exact here

theorem contextMemories_charged :
    ((contextMemories db anchors candidates sets primaryIds expansionIds conflictOnlyIds found).filter ContextMemory.charged).map (·.entityId) =
      primaryIds ++ expansionIds := by
  simp [contextMemories, List.filter_map, Function.comp_def, ContextMemory.charged, primaryMemory, expansionMemory, conflictOnlyMemory, orphanMemory]

theorem mem_contextMemories {id : EntityId} (member : id ∈ primaryIds ++ expansionIds ++ conflictOnlyIds) :
    ∃ memory ∈ contextMemories db anchors candidates sets primaryIds expansionIds conflictOnlyIds found,
      memory.entityId = id ∧ memory.inclusion ≠ .orphanCommunity := by
  simp only [contextMemories, List.mem_append]
  rcases List.mem_append.mp member with member | member
  · rcases List.mem_append.mp member with member | member
    · exact ⟨_, .inl (.inl (.inl (List.mem_map_of_mem member))), rfl, nofun⟩
    · exact ⟨_, .inl (.inl (.inr (List.mem_map_of_mem member))), rfl, nofun⟩
  · exact ⟨_, .inl (.inr (List.mem_map_of_mem member)), rfl, nofun⟩

end

/-- What packing leaves of a list, with what is recovered of the dropped. -/
theorem recovered_split {ids packed dropped : List EntityId} (perm : (packed ++ dropped).Perm ids) (recoverable : EntityId → Bool) :
    ((packed ++ dropped.filter recoverable) ++ dropped.filter (!recoverable ·)).Perm ids := by
  rw [List.append_assoc]
  exact ((List.filter_append_perm recoverable dropped).append_left packed).trans perm

theorem localContext_exact (distinct : (hits.map (·.id)).Nodup) (apart : ∀ id ∈ expansion.expansionCandidates.map (·.entityId), id ∉ hits.map (·.id))
    (once : (expansion.expansionCandidates.map (·.entityId)).Nodup)
    (placed : ∀ c ∈ conflicts.conflictSets, ∀ m ∈ c.members,
      m = conflictMember db (hits.map (·.id)) (expansion.expansionCandidates.map (·.entityId)) m.id) :
    ExactLocalContext (loadTokenCounts db tokenCount) (hits.map (·.id)) (expansion.expansionCandidates.map (·.entityId))
      (effectiveBudget budgetTokens)
      (localContext env store tokenCount db entityIds anchors budgetTokens pit agentId hits expansion conflicts) := by
  have orphansOnce := @findOrphanCommunityMatches_once ν store db agentId hits
  have orphansApart := @findOrphanCommunityMatches_apart ν store db agentId hits
  obtain ⟨places, alone⟩ := member_places placed
  have recover := @memberToConflictSet_isSome (numberedConflictSets conflicts)
  unfold localContext packContextBudget
  dsimp only
  simp only [contextMemories_eq, conflictOnlyIds_eq]
  generalize hits.map (·.id) = anchorIds at *
  generalize expansion.expansionCandidates.map (·.entityId) = candidateIds at *
  generalize loadTokenCounts db tokenCount = tokens at *
  generalize effectiveBudget budgetTokens = limit at *
  generalize conflictOnlyIds conflicts = alone_ at *
  -- the two sections, each with what packing says of it
  have primarySplit := packSection_perm tokens limit 0 anchorIds
  have primaryUsed := packSection_used tokens limit 0 anchorIds
  have primaryWithin := fun nonneg : ((0 : Nat) : Int) ≤ limit => packSection_within tokens limit nonneg anchorIds
  have primaryDropped := packSection_dropped tokens limit 0 anchorIds
  generalize packSection tokens limit 0 anchorIds = primary at *
  obtain ⟨⟨packedP, droppedP⟩, usedP⟩ := primary
  have expansionSplit := packSection_perm tokens limit usedP candidateIds
  have expansionUsed := packSection_used tokens limit usedP candidateIds
  have expansionWithin := fun nonneg => packSection_within tokens limit (primaryWithin nonneg) candidateIds
  have expansionDropped := packSection_dropped tokens limit usedP candidateIds
  have grows := packSection_grows tokens limit usedP candidateIds
  generalize packSection tokens limit usedP candidateIds = candidates at *
  obtain ⟨⟨packedE, droppedE⟩, usedE⟩ := candidates
  dsimp only [packSection] at *
  have primarySurfaced := recovered_split primarySplit fun id => (memberToConflictSet (numberedConflictSets conflicts) id).isSome
  have expansionSurfaced := recovered_split expansionSplit fun id => (memberToConflictSet (numberedConflictSets conflicts) id).isSome
  have matchedOnce := @orphansOnce (anchorIds ++ candidateIds ++ alone_)
  have matchedApart := @orphansApart (anchorIds ++ candidateIds ++ alone_)
  generalize findOrphanCommunityMatches store db hits (anchorIds ++ candidateIds ++ alone_) agentId = orphans at *
  have reserve : ∀ id, id ∈ alone_.dedup.insertionSort (· ≤ ·) ↔ id ∈ alone_ := fun id => by
    rw [List.mem_insertionSort, List.mem_dedup]
  have reserveOnce : (alone_.dedup.insertionSort (· ≤ ·)).Nodup := (List.perm_insertionSort _ _).nodup_iff.mpr (List.nodup_dedup alone_)
  generalize alone_.dedup.insertionSort (· ≤ ·) = reserved at *
  -- what of an anchor or a candidate is not surfaced was dropped and is in no conflict set
  have surfaceP : ∀ id ∈ packedP ++ droppedP.filter (fun id => (memberToConflictSet (numberedConflictSets conflicts) id).isSome), id ∈ anchorIds :=
    fun id member => primarySurfaced.subset (List.mem_append_left _ member)
  have surfaceE : ∀ id ∈ packedE ++ droppedE.filter (fun id => (memberToConflictSet (numberedConflictSets conflicts) id).isSome),
      id ∈ candidateIds := fun id member => expansionSurfaced.subset (List.mem_append_left _ member)
  have onceP := (primarySurfaced.nodup_iff.mpr distinct).of_append_left
  have onceE := (expansionSurfaced.nodup_iff.mpr once).of_append_left
  have lostP : ∀ id ∈ anchorIds, id ∉ packedP ++ droppedP.filter (fun id => (memberToConflictSet (numberedConflictSets conflicts) id).isSome) →
      id ∈ droppedP ∧ (memberToConflictSet (numberedConflictSets conflicts) id).isSome = false := by
    intro id member unsurfaced
    rcases List.mem_append.mp (primarySurfaced.mem_iff.mpr member) with surfaced | lost
    · exact absurd surfaced unsurfaced
    · simpa using List.mem_filter.mp lost
  have lostE : ∀ id ∈ candidateIds, id ∉ packedE ++ droppedE.filter (fun id => (memberToConflictSet (numberedConflictSets conflicts) id).isSome) →
      id ∈ droppedE ∧ (memberToConflictSet (numberedConflictSets conflicts) id).isSome = false := by
    intro id member unsurfaced
    rcases List.mem_append.mp (expansionSurfaced.mem_iff.mpr member) with surfaced | lost
    · exact absurd surfaced unsurfaced
    · simpa using List.mem_filter.mp lost
  have countP := primarySurfaced.length_eq
  have countE := expansionSurfaced.length_eq
  generalize recoveredP : droppedP.filter (fun id => (memberToConflictSet (numberedConflictSets conflicts) id).isSome) = backP at *
  generalize recoveredE : droppedE.filter (fun id => (memberToConflictSet (numberedConflictSets conflicts) id).isSome) = backE at *
  refine
    { members := ?_
      once := ?_
      used := ?_
      primaryCount := ?_
      expansionCount := ?_
      anchors := ?_
      candidates := ?_
      allowed := rfl
      packing := ⟨packedP ++ packedE, ?_, ?_, ?_, ?_, ?_⟩ }
  · intro c listed m member
    have inConflict : (memberToConflictSet (numberedConflictSets conflicts) m.id).isSome = true := recover.mpr ⟨c, listed, m, member, rfl⟩
    refine mem_contextMemories ?_
    rcases places c listed m member with anchor | candidate | only
    · refine List.mem_append_left _ (List.mem_append_left _ ?_)
      by_contra unsurfaced
      rw [(lostP m.id anchor unsurfaced).2] at inConflict
      exact Bool.false_ne_true inConflict
    · refine List.mem_append_left _ (List.mem_append_right _ ?_)
      by_contra unsurfaced
      rw [(lostE m.id candidate unsurfaced).2] at inConflict
      exact Bool.false_ne_true inConflict
    · exact List.mem_append_right _ ((reserve m.id).mpr only)
  · rw [contextMemories_ids]
    refine List.Nodup.append (List.Nodup.append (onceP.append onceE ?_) reserveOnce ?_) matchedOnce ?_
    · exact fun id first second => apart id (surfaceE id second) (surfaceP id first)
    · intro id first second
      have outside := alone id ((reserve id).mp second)
      rcases List.mem_append.mp first with anchor | candidate
      · exact outside.1 (surfaceP id anchor)
      · exact outside.2 (surfaceE id candidate)
    · intro id first second
      obtain ⟨found, listed, rfl⟩ := List.mem_map.mp second
      have unknown := matchedApart listed
      simp only [List.mem_append, not_or] at unknown
      rcases List.mem_append.mp first with charged | only
      · rcases List.mem_append.mp charged with anchor | candidate
        · exact unknown.1.1 (surfaceP _ anchor)
        · exact unknown.1.2 (surfaceE _ candidate)
      · exact unknown.2 ((reserve _).mp only)
  · rw [contextMemories_charged]
    simp only [tokenSum_append]
    omega
  · rw [contextMemories_primary, List.length_map]
    rw [List.length_append] at countP
    exact countP
  · rw [contextMemories_expansion, List.length_map]
    rw [List.length_append] at countE
    exact countE
  · exact fun memory member primary => surfaceP _ (contextMemories_of_primary member primary)
  · exact fun memory member candidate => surfaceE _ (contextMemories_of_expansion member candidate)
  · exact (onceP.of_append_left).append onceE.of_append_left fun id first second =>
      apart id (surfaceE id (List.mem_append_left _ second)) (surfaceP id (List.mem_append_left _ first))
  · intro id member
    have charged : id ∈ packedP ++ backP ++ (packedE ++ backE) := by
      rcases List.mem_append.mp member with anchor | candidate
      · exact List.mem_append_left _ (List.mem_append_left _ anchor)
      · exact List.mem_append_right _ (List.mem_append_left _ candidate)
    rw [← contextMemories_charged, List.mem_map] at charged
    obtain ⟨memory, kept, named⟩ := charged
    exact ⟨memory, (List.mem_filter.mp kept).1, (List.mem_filter.mp kept).2, named⟩
  · intro memory member charged unpacked
    have listed := List.mem_map_of_mem (f := (·.entityId)) (List.mem_filter.mpr ⟨member, charged⟩)
    rw [contextMemories_charged] at listed
    refine recover.mp ?_
    have back : memory.entityId ∈ backP ∨ memory.entityId ∈ backE := by
      simp only [List.mem_append, not_or] at listed unpacked
      tauto
    rcases back with anchor | candidate
    · rw [← recoveredP] at anchor
      exact (List.mem_filter.mp anchor).2
    · rw [← recoveredE] at candidate
      exact (List.mem_filter.mp candidate).2
  · intro nonneg
    have within := expansionWithin nonneg
    rw [tokenSum_append]
    omega
  · intro id member unsurfaced
    rw [contextMemories_ids] at unsurfaced
    simp only [List.mem_append, not_or] at unsurfaced
    rw [tokenSum_append]
    rcases List.mem_append.mp member with anchor | candidate
    · have dropped := primaryDropped id (lostP id anchor (by simp [unsurfaced])).1
      omega
    · have dropped := expansionDropped id (lostE id candidate (by simp [unsurfaced])).1
      omega

/-! ### The whole call -/

theorem resolvePrimaryHit_ok {ref : String} {hit : ResolvedHit} (resolved : resolvePrimaryHit env db agentId ref = .ok hit) :
    ref ≠ "" ∧ (resolveEntityRef env db ref agentId).resolved = some hit.id := by
  unfold resolvePrimaryHit at resolved
  dsimp only at resolved
  split at resolved
  · cases resolved
  · split at resolved
    · cases resolved
    · rename_i id found
      split at resolved
      · cases resolved
      · obtain rfl := Except.ok.inj resolved
        refine ⟨?_, found⟩
        rintro rfl
        simp [resolveEntityRef] at found

theorem resolutions_split (hits : List ResolvedHit) :
    unresolvedErrors (hits.map Except.ok) = [] ∧ resolvedHits (hits.map Except.ok) = hits := by
  constructor
  · simp [unresolvedErrors]
  · simp [resolvedHits, List.filterMap_map, Except.toOption]

/-- With references that all resolve, what is left is to assemble the conflict sets. -/
theorem assembleRetrieveContext_eq {refs : List String} (given : refs ≠ [])
    (resolves : refs.map (resolvePrimaryHit env db agentId) = anchors.map .ok) :
    assembleRetrieveContext env store tokenCount db refs budgetTokens pit agentId =
      match assembleConflictSets env db (expandContextCandidates env db (anchorHits anchors) pit agentId) (anchorHits anchors) pit with
      | .error message => .error (.raised message)
      | .ok conflicts => .ok (localContext env store tokenCount db refs anchors budgetTokens pit agentId (anchorHits anchors)
          (expandContextCandidates env db (anchorHits anchors) pit agentId) conflicts) := by
  have nonempty : ∀ ref ∈ refs, ref ≠ "" := by
    intro ref listed
    have mapped := List.mem_map_of_mem (f := resolvePrimaryHit env db agentId) listed
    rw [resolves] at mapped
    obtain ⟨hit, _, resolved⟩ := List.mem_map.mp mapped
    exact (resolvePrimaryHit_ok resolved.symm).1
  have valid : validateRetrieveRequest refs = [] := by
    have some_ : refs.isEmpty = false := by simpa using given
    have named : refs.any (· == "") = false := by simpa using nonempty
    simp only [validateRetrieveRequest, some_, named, Bool.false_eq_true, if_false]
  obtain ⟨errors, hits⟩ := resolutions_split anchors
  cases done : assembleConflictSets env db (expandContextCandidates env db (anchorHits anchors) pit agentId) (anchorHits anchors) pit with
  | error message =>
    simp only [assembleRetrieveContext, valid, resolves, errors, hits, done, List.isEmpty_nil, Bool.not_true, Bool.false_eq_true, if_false]
  | ok conflicts =>
    simp only [assembleRetrieveContext, valid, resolves, errors, hits, done, List.isEmpty_nil, Bool.not_true, Bool.false_eq_true, if_false]

theorem anchorHits_ids (anchors : List ResolvedHit) : (anchorHits anchors).map (·.id) = anchors.map (·.id) := by
  simp only [anchorHits, List.map_map, Function.comp_def]

/-- What an answer is to be, for anchors that are named by references. -/
def ExactAnswer (env : Env) (store : CommunityStore ν) (tokenCount : String → Nat) (db : Db) (refs : List String) (anchors : List ResolvedHit)
    (budgetTokens : Option Int) (pit : Instant) (agentId : Option String) : Prop :=
  ∃ context, assembleRetrieveContext env store tokenCount db refs budgetTokens pit agentId = .ok context ∧
    ExactLocalContext (loadTokenCounts db tokenCount) (anchors.map (·.id))
      ((expandContextCandidates env db (anchorHits anchors) pit agentId).expansionCandidates.map (·.entityId)) (effectiveBudget budgetTokens) context

theorem assembled_exact (distinct : (anchors.map (·.id)).Nodup)
    (done : assembleConflictSets env db (expandContextCandidates env db (anchorHits anchors) pit agentId) (anchorHits anchors) pit = .ok conflicts) :
    ExactLocalContext (loadTokenCounts db tokenCount) (anchors.map (·.id))
      ((expandContextCandidates env db (anchorHits anchors) pit agentId).expansionCandidates.map (·.entityId)) (effectiveBudget budgetTokens)
      (localContext env store tokenCount db entityIds anchors budgetTokens pit agentId (anchorHits anchors)
        (expandContextCandidates env db (anchorHits anchors) pit agentId) conflicts) := by
  have expanded := @expandContextCandidates_exact env db pit agentId (anchorHits anchors)
  rw [← anchorHits_ids]
  refine localContext_exact (anchorHits_ids anchors ▸ distinct) ?_ expanded.once (conflictSets_members done)
  intro id member
  obtain ⟨c, listed, rfl⟩ := List.mem_map.mp member
  exact expanded.apart c listed

theorem assembleRetrieveContext_exact_iff (env : Env) (store : CommunityStore ν) (tokenCount : String → Nat) {db : Db} {refs : List String}
    {anchors : List ResolvedHit} {budgetTokens : Option Int} (pit : Instant) (agentId : Option String) (given : refs ≠ [])
    (resolves : refs.map (resolvePrimaryHit env db agentId) = anchors.map .ok) (distinct : (anchors.map (·.id)).Nodup) :
    ExactAnswer env store tokenCount db refs anchors budgetTokens pit agentId ↔ AnchoredConflicts env db pit agentId (anchorHits anchors) := by
  rw [anchoredConflicts_iff, ← assembleConflictSets_ok_iff, ExactAnswer, assembleRetrieveContext_eq given resolves]
  constructor
  · rintro ⟨context, answer, _⟩
    cases done : assembleConflictSets env db (expandContextCandidates env db (anchorHits anchors) pit agentId) (anchorHits anchors) pit with
    | error message =>
      rw [done] at answer
      cases answer
    | ok conflicts => exact ⟨conflicts, rfl⟩
  · rintro ⟨conflicts, done⟩
    rw [done]
    exact ⟨_, rfl, assembled_exact distinct done⟩

end

/-- A store without communities and vectors. -/
def noCommunities : CommunityStore Unit := ⟨true, [], [], [], [], fun _ _ => 0⟩

def planAnchor : ResolvedHit := ⟨"plan", "Plan", MemoryType.fact.text⟩

/-- One anchor with a budget of three tokens. -/
theorem nestedDb_exact : ExactAnswer .plain noCommunities String.length nestedDb ["plan"] [planAnchor] (some 3) 0 none ↔
    AnchoredConflicts .plain nestedDb 0 none (anchorHits [planAnchor]) :=
  assembleRetrieveContext_exact_iff .plain noCommunities String.length 0 none (by decide) (by rfl) (by decide)

def paddedAnchor : ResolvedHit := ⟨" a", "Padded", MemoryType.fact.text⟩

/-- The title names the memory with the space in its id, and around that one the conflict of the other is found. -/
theorem paddedDb_unanswered : ["Padded"].map (resolvePrimaryHit .plain paddedDb none) = [paddedAnchor].map .ok ∧
    ¬ ExactAnswer .plain noCommunities String.length paddedDb ["Padded"] [paddedAnchor] none 0 none := by
  have resolves : ["Padded"].map (resolvePrimaryHit .plain paddedDb none) = [paddedAnchor].map .ok := by rfl
  refine ⟨resolves, ?_⟩
  rintro ⟨context, answer, _⟩
  rw [assembleRetrieveContext_eq (by decide) resolves] at answer
  cases done : assembleConflictSets .plain paddedDb (expandContextCandidates .plain paddedDb (anchorHits [paddedAnchor]) 0 none)
      (anchorHits [paddedAnchor]) 0 with
  | error message =>
    rw [done] at answer
    cases answer
  | ok conflicts => exact paddedDb_unassembled ⟨conflicts, done⟩

end SaltMdb
