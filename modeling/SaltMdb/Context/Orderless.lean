import SaltMdb.Context.Expansion
import SaltMdb.Relation.Reachable

/-! `expand_context_candidates` says the same in whatever order the hits and the relations come. -/

namespace SaltMdb

variable {env : Env} {db : Db} {pit : Instant} {agentId : Option String} {hitId root : EntityId}

/-! ### The edges around a hit -/

/-- The edge of a valid, visible relation as `analyze_dependencies` lists it next to the root. -/
def Db.NextEdge (db : Db) (pit : Instant) (agentId : Option String) (e : DependencyEdge) : Prop :=
  ∃ r ∈ db.relations.rows, r.validIn pit = true ∧ r.visibleTo db agentId = true ∧
    ∃ source target, db.entities.find r.sourceId = some source ∧ db.entities.find r.targetId = some target ∧
      e = ⟨r.id, r.sourceId, source.title, r.targetId, target.title, r.predicate, 1⟩

theorem Db.NextEdge.unique {e e' : DependencyEdge} (first : db.NextEdge pit agentId e) (second : db.NextEdge pit agentId e')
    (same : e.relationId = e'.relationId) : e = e' := by
  obtain ⟨r, listed, _, _, source, target, fromSource, fromTarget, rfl⟩ := first
  obtain ⟨r', listed', _, _, source', target', fromSource', fromTarget', rfl⟩ := second
  obtain rfl := RelationTable.id_unique listed listed' same
  obtain rfl := Option.some.inj (fromSource.symm.trans fromSource')
  obtain rfl := Option.some.inj (fromTarget.symm.trans fromTarget')
  rfl

theorem mem_dependencyQuery_one {walk : WalkDirection} {hit : DependencyHit} :
    hit ∈ dependencyQuery db walk root pit 1 agentId ↔ ∃ r ∈ dependencyStep db walk pit agentId root, ∃ source target,
      db.entities.find r.sourceId = some source ∧ db.entities.find r.targetId = some target ∧
        hit = ⟨walk, ⟨r, 1, walk.seedPath r⟩, source.title, target.title⟩ := by
  simp only [dependencyQuery, Nat.sub_self, dependencyWalk, dependencySeeds, List.mem_insertionSort, List.mem_filterMap, List.mem_map,
    Option.bind_eq_bind, Option.bind_eq_some_iff, Option.pure_def, Option.some.injEq]
  constructor
  · rintro ⟨_, ⟨r, step, rfl⟩, source, fromSource, target, fromTarget, rfl⟩
    exact ⟨r, step, source, target, fromSource, fromTarget, rfl⟩
  · rintro ⟨r, step, source, target, fromSource, fromTarget, rfl⟩
    exact ⟨_, ⟨r, step, rfl⟩, source, fromSource, target, fromTarget, rfl⟩

theorem fetched_edge {e : DependencyEdge} : (∃ hit ∈ fetchDependencyRows db .both root pit 1 agentId, hit.edge = e) ↔
    db.NextEdge pit agentId e ∧ (e.sourceId = root ∨ e.targetId = root) := by
  simp only [fetchDependencyRows, DependencyDirection.walks, List.flatMap_cons, List.flatMap_nil, List.append_nil, List.mem_append,
    mem_dependencyQuery_one, dependencyStep_mem]
  constructor
  · rintro ⟨hit, ⟨r, ⟨listed, rfl, valid, visible⟩, source, target, fromSource, fromTarget, rfl⟩ |
      ⟨r, ⟨listed, rfl, valid, visible⟩, source, target, fromSource, fromTarget, rfl⟩, rfl⟩
    · exact ⟨⟨r, listed, valid, visible, source, target, fromSource, fromTarget, rfl⟩, .inl rfl⟩
    · exact ⟨⟨r, listed, valid, visible, source, target, fromSource, fromTarget, rfl⟩, .inr rfl⟩
  · rintro ⟨⟨r, listed, valid, visible, source, target, fromSource, fromTarget, rfl⟩, rfl | rfl⟩
    · exact ⟨_, .inl ⟨r, ⟨listed, rfl, valid, visible⟩, source, target, fromSource, fromTarget, rfl⟩, rfl⟩
    · exact ⟨_, .inr ⟨r, ⟨listed, rfl, valid, visible⟩, source, target, fromSource, fromTarget, rfl⟩, rfl⟩

theorem mem_dependencyGraph_one {info : DependencyRoot} {e : DependencyEdge} :
    e ∈ (dependencyGraph db .both info root pit 1 agentId).edges ↔
      db.NextEdge pit agentId e ∧ (e.sourceId = root ∨ e.targetId = root) := by
  have arrivals : ∀ e, e ∈ ((fetchDependencyRows db .both root pit 1 agentId).insertionSort shallower).map (·.edge) ↔
      db.NextEdge pit agentId e ∧ (e.sourceId = root ∨ e.targetId = root) := by
    intro e
    rw [← fetched_edge]
    simp only [List.mem_map, List.mem_insertionSort]
  have distinct := Arrivals.firstOf_eq_eraseDups.mpr fun a first b second same =>
    ((arrivals a).mp first).1.unique ((arrivals b).mp second).1 same
  rw [dependencyGraph, addRows_eq, foldl_addRow_edges, ← arrivals e]
  show e ∈ Arrivals.firstOf _ _ ↔ _
  rw [distinct, List.mem_eraseDups]

theorem mem_traversedEdges {e : DependencyEdge} : e ∈ traversedEdges env db pit agentId hitId ↔
    ∃ root, (resolveEntityRef env db hitId agentId).resolved = some root ∧ db.NextEdge pit agentId e ∧
      (e.sourceId = root ∨ e.targetId = root) := by
  unfold traversedEdges
  cases resolved : (resolveEntityRef env db hitId agentId).resolved with
  | none =>
    have refused : ∃ message, analyzeDependencies env db hitId 1 pit .both agentId = .error message := by
      unfold analyzeDependencies
      split
      · exact ⟨_, rfl⟩
      · rw [resolved]
        exact ⟨_, rfl⟩
    obtain ⟨message, refused⟩ := refused
    rw [refused]
    simp
  | some root =>
    obtain ⟨info, answer⟩ := analyzeDependencies_eq .both pit 1 resolved
    rw [answer]
    simp only [Option.some.injEq, exists_eq_left']
    exact mem_dependencyGraph_one

/-- An edge at a memory that one of the ids resolves to. -/
def Surrounding (env : Env) (db : Db) (pit : Instant) (agentId : Option String) (ids : List EntityId) (e : DependencyEdge) : Prop :=
  db.NextEdge pit agentId e ∧ ∃ id ∈ ids, ∃ root, (resolveEntityRef env db id agentId).resolved = some root ∧
    (e.sourceId = root ∨ e.targetId = root)

theorem mem_surrounding {ids : List EntityId} {e : DependencyEdge} :
    e ∈ ids.flatMap (traversedEdges env db pit agentId) ↔ Surrounding env db pit agentId ids e := by
  simp only [List.mem_flatMap, mem_traversedEdges, Surrounding]
  constructor
  · rintro ⟨id, listed, root, resolved, next, touches⟩
    exact ⟨next, id, listed, root, resolved, touches⟩
  · rintro ⟨next, id, listed, root, resolved, touches⟩
    exact ⟨id, listed, root, resolved, next, touches⟩

/-! ### Where the edges are recorded -/

variable {primaryIds : List EntityId}

def DependencyEdge.conflicts (e : DependencyEdge) : Bool := decide (e.predicate = "contradicts")

def DependencyEdge.expands (e : DependencyEdge) : Bool :=
  !e.conflicts && defaultContextExpansionPredicates.contains e.predicate

def DependencyEdge.inside (primaryIds : List EntityId) (e : DependencyEdge) : Bool :=
  primaryIds.contains e.sourceId && primaryIds.contains e.targetId

/-- A memory at the other end of an edge, with its title and how it was reached. -/
def sightings (primaryIds : List EntityId) (edges : List DependencyEdge) : List (EntityId × String × Provenance.Hop) :=
  (edges.filter fun e => e.expands && !e.inside primaryIds).filterMap (provenanceOf primaryIds)

def addSighting (nodes : List ExpansionNode) (s : EntityId × String × Provenance.Hop) : List ExpansionNode :=
  addProvenance nodes s.1 s.2.1 s.2.2

theorem recordEdge_conflicts {c : Collected} {e : DependencyEdge} (conflicting : e.conflicts = true) :
    recordEdge primaryIds c e = { c with contradicts := assignEdge c.contradicts e.raw } := if_pos (of_decide_eq_true conflicting)

theorem recordEdge_other {c : Collected} {e : DependencyEdge} (conflictless : e.conflicts = false) (unlisted : e.expands = false) :
    recordEdge primaryIds c e = c := by
  have other := of_decide_eq_false conflictless
  rw [DependencyEdge.expands, conflictless, Bool.not_false, Bool.true_and] at unlisted
  simp only [recordEdge, if_neg other, unlisted, Bool.false_eq_true, not_false_eq_true, if_true]

theorem recordEdge_expands {c : Collected} {e : DependencyEdge} (expanding : e.expands = true) :
    recordEdge primaryIds c e = if e.inside primaryIds then { c with inNetwork := assignEdge c.inNetwork e.raw }
      else { c with provenance := recordProvenance primaryIds c.provenance e } := by
  obtain ⟨conflictless, listed⟩ := Bool.and_eq_true_iff.mp expanding
  have other := of_decide_eq_false (Bool.not_eq_true' _ |>.mp conflictless)
  simp only [recordEdge, if_neg other, listed, not_true_eq_false, if_false]
  rfl

theorem recordEdge_split (edges : List DependencyEdge) (c : Collected) : edges.foldl (recordEdge primaryIds) c =
    { inNetwork := ((edges.filter fun e => e.expands && e.inside primaryIds).map (·.raw)).foldl assignEdge c.inNetwork
      contradicts := ((edges.filter DependencyEdge.conflicts).map (·.raw)).foldl assignEdge c.contradicts
      provenance := (sightings primaryIds edges).foldl addSighting c.provenance } := by
  induction edges generalizing c with
  | nil => rfl
  | cons e rest ih =>
    rw [List.foldl_cons, ih]
    simp only [sightings]
    by_cases conflicting : e.conflicts = true
    · have unlisted : e.expands = false := by simp [DependencyEdge.expands, conflicting]
      rw [recordEdge_conflicts conflicting]
      simp [conflicting, unlisted]
    · have conflictless : e.conflicts = false := by simpa using conflicting
      by_cases expanding : e.expands = true
      · rw [recordEdge_expands expanding]
        by_cases within : e.inside primaryIds = true
        · simp [conflictless, expanding, within]
        · rw [if_neg within]
          cases sighted : provenanceOf primaryIds e with
          | none => simp [conflictless, expanding, within, recordProvenance, sighted]
          | some s => simp [conflictless, expanding, within, recordProvenance, sighted, addSighting]
      · have unlisted : e.expands = false := by simpa using expanding
        rw [recordEdge_other conflictless unlisted]
        simp [conflictless, unlisted]

/-! ### What is gathered of the sightings -/

/-- The nodes that the sightings come to: one for each memory, with what it was reached by. -/
structure Gathers (seen : List (EntityId × String × Provenance.Hop)) (nodes : List ExpansionNode) : Prop where
  apart : (nodes.map (·.entityId)).Nodup
  titled : ∀ n ∈ nodes, ∃ hop, (n.entityId, n.title, hop) ∈ seen
  hops : ∀ n ∈ nodes, ∀ hop, hop ∈ n.provenance ↔ ∃ title, (n.entityId, title, hop) ∈ seen
  once : ∀ n ∈ nodes, n.provenance.Nodup
  complete : ∀ s ∈ seen, ∃ n ∈ nodes, n.entityId = s.1

theorem addHop_mem {hop hop' : Provenance.Hop} {n : ExpansionNode} : hop' ∈ (n.addHop hop).provenance ↔ hop' ∈ n.provenance ∨ hop' = hop := by
  unfold ExpansionNode.addHop
  by_cases known : hop ∈ n.provenance
  · simp only [if_pos known]
    exact (or_iff_left_of_imp fun same => same ▸ known).symm
  · simp [if_neg known]

theorem addHop_once {hop : Provenance.Hop} {n : ExpansionNode} (once : n.provenance.Nodup) : (n.addHop hop).provenance.Nodup := by
  unfold ExpansionNode.addHop
  by_cases known : hop ∈ n.provenance
  · simpa only [if_pos known] using once
  · simp only [if_neg known]
    exact once.append (List.nodup_singleton hop) (by simpa using known)

theorem Gathers.add {seen : List (EntityId × String × Provenance.Hop)} {nodes : List ExpansionNode} (gathers : Gathers seen nodes)
    (s : EntityId × String × Provenance.Hop) : Gathers (seen ++ [s]) (addSighting nodes s) := by
  obtain ⟨entityId, title, hop⟩ := s
  have members : ∀ n, n ∈ addSighting nodes (entityId, title, hop) ↔ n ∈ nodes ∧ n.entityId ≠ entityId ∨
      (∃ a ∈ nodes, a.entityId = entityId ∧ n = a.addHop hop) ∨
        (∀ a ∈ nodes, a.entityId ≠ entityId) ∧ n = ExpansionNode.addHop hop ⟨entityId, title, []⟩ := fun n => Dictionary.mem_adjust
  have unseen : (∀ a ∈ nodes, a.entityId ≠ entityId) → ∀ s ∈ seen, s.1 ≠ entityId := by
    intro fresh s listed same
    obtain ⟨n, member, named⟩ := gathers.complete s listed
    exact fresh n member (named.trans same)
  refine ⟨Dictionary.adjust_apart rfl (fun _ named => named) gathers.apart, ?_, ?_, ?_, ?_⟩
  · intro n member
    rcases (members n).mp member with ⟨old, _⟩ | ⟨a, old, _, rfl⟩ | ⟨_, rfl⟩
    · obtain ⟨hop, listed⟩ := gathers.titled n old
      exact ⟨hop, List.mem_append_left _ listed⟩
    · obtain ⟨hop, listed⟩ := gathers.titled a old
      exact ⟨hop, List.mem_append_left _ listed⟩
    · exact ⟨hop, List.mem_append_right _ List.mem_cons_self⟩
  · intro n member hop'
    simp only [List.mem_append, List.mem_singleton, Prod.mk.injEq, exists_or]
    rcases (members n).mp member with ⟨old, other⟩ | ⟨a, old, rfl, rfl⟩ | ⟨fresh, rfl⟩
    · simp only [other, false_and, exists_false, or_false]
      exact gathers.hops n old hop'
    · rw [addHop_mem, gathers.hops a old]
      exact or_congr_right ⟨fun same => ⟨title, rfl, rfl, same⟩, fun ⟨_, _, _, same⟩ => same⟩
    · rw [addHop_mem]
      have none_ : ¬ ∃ t, (entityId, t, hop') ∈ seen := fun ⟨t, listed⟩ => unseen fresh _ listed rfl
      constructor
      · rintro (held | rfl)
        · cases held
        · exact .inr ⟨title, rfl, rfl, rfl⟩
      · rintro (held | ⟨_, _, _, same⟩)
        · exact absurd held none_
        · exact .inr same
  · intro n member
    rcases (members n).mp member with ⟨old, _⟩ | ⟨a, old, _, rfl⟩ | ⟨_, rfl⟩
    · exact gathers.once n old
    · exact addHop_once (gathers.once a old)
    · exact addHop_once List.nodup_nil
  · intro s listed
    rcases List.mem_append.mp listed with listed | new
    · obtain ⟨n, old, named⟩ := gathers.complete s listed
      by_cases here : n.entityId = entityId
      · exact ⟨n.addHop hop, (members _).mpr (.inr (.inl ⟨n, old, here, rfl⟩)), named⟩
      · exact ⟨n, (members n).mpr (.inl ⟨old, here⟩), named⟩
    · obtain rfl := List.mem_singleton.mp new
      by_cases known : ∃ a ∈ nodes, a.entityId = entityId
      · obtain ⟨a, old, here⟩ := known
        exact ⟨a.addHop hop, (members _).mpr (.inr (.inl ⟨a, old, here, rfl⟩)), here⟩
      · exact ⟨_, (members _).mpr (.inr (.inr ⟨fun a old here => known ⟨a, old, here⟩, rfl⟩)), rfl⟩

theorem gathers_foldl (seen : List (EntityId × String × Provenance.Hop)) : Gathers seen (seen.foldl addSighting []) := by
  induction seen using List.reverseRecOn with
  | nil => exact ⟨List.nodup_nil, nofun, nofun, nofun, nofun⟩
  | append_singleton seen s ih =>
    rw [List.foldl_concat]
    exact ih.add s

/-! ### Ranking -/

/-- The hits as a set: one score for each id. -/
def OneScore (hits : List PrimaryHit) : Prop := ∀ a ∈ hits, ∀ b ∈ hits, a.id = b.id → a.score = b.score

variable {hits hits' : List PrimaryHit}

theorem primaryScore_of_mem (scored : OneScore hits) {hit : PrimaryHit} (member : hit ∈ hits) : primaryScore hits hit.id = hit.score := by
  have known : (hits.reverse.find? (·.id == hit.id)).isSome = true := by
    rw [List.find?_isSome]
    exact ⟨hit, List.mem_reverse.mpr member, beq_self_eq_true hit.id⟩
  obtain ⟨last, found⟩ := Option.isSome_iff_exists.mp known
  have same : last.id = hit.id := by simpa using List.find?_some found
  rw [primaryScore, found]
  exact scored last (List.mem_reverse.mp (List.mem_of_find?_eq_some found)) hit member same

theorem primaryScore_unknown {id : EntityId} (unknown : ∀ hit ∈ hits, hit.id ≠ id) : primaryScore hits id = 0 := by
  have none_ : hits.reverse.find? (·.id == id) = none := by
    rw [List.find?_eq_none]
    exact fun hit member => by simpa using unknown hit (List.mem_reverse.mp member)
  rw [primaryScore, none_]
  rfl

theorem primaryScore_perm (perm : hits'.Perm hits) (scored : OneScore hits) : primaryScore hits' = primaryScore hits := by
  funext id
  have scored' : OneScore hits' := fun a first b second => scored a (perm.mem_iff.mp first) b (perm.mem_iff.mp second)
  by_cases known : ∃ hit ∈ hits, hit.id = id
  · obtain ⟨hit, member, rfl⟩ := known
    rw [primaryScore_of_mem scored member, primaryScore_of_mem scored' (perm.mem_iff.mpr member)]
  · have unknown : ∀ hit ∈ hits, hit.id ≠ id := fun hit member named => known ⟨hit, member, named⟩
    rw [primaryScore_unknown unknown, primaryScore_unknown fun hit member => unknown hit (perm.mem_iff.mp member)]

theorem maxScore_mem {scores : List Rat} (some_ : scores ≠ []) : maxScore scores ∈ scores := by
  fun_induction maxScore scores with
  | case1 => exact absurd rfl some_
  | case2 score => exact List.mem_singleton_self score
  | case3 score rest other ih =>
    rcases max_choice score (maxScore rest) with first | later
    · rw [first]
      exact List.mem_cons_self
    · rw [later]
      exact List.mem_cons_of_mem _ (ih other)

theorem le_maxScore {scores : List Rat} {score : Rat} (member : score ∈ scores) : score ≤ maxScore scores := by
  fun_induction maxScore scores with
  | case1 => cases member
  | case2 other => exact (List.mem_singleton.mp member).le
  | case3 first rest _ ih =>
    rcases List.mem_cons.mp member with rfl | later
    · exact le_max_left _ _
    · exact (ih later).trans (le_max_right _ _)

theorem maxScore_perm {scores scores' : List Rat} (perm : scores'.Perm scores) : maxScore scores' = maxScore scores := by
  by_cases none_ : scores = []
  · subst none_
    rw [perm.eq_nil]
  · have none_' : scores' ≠ [] := by
      rintro rfl
      exact none_ perm.symm.eq_nil
    exact le_antisymm (le_maxScore (perm.mem_iff.mp (maxScore_mem none_'))) (le_maxScore (perm.mem_iff.mpr (maxScore_mem none_)))

theorem Hop.key_injective {a b : Provenance.Hop} (same : a.key = b.key) : a = b := by
  obtain ⟨origin, predicate, direction⟩ := a
  obtain ⟨origin', predicate', direction'⟩ := b
  have parts := Prod.mk.injEq .. ▸ toLex.injective same
  obtain ⟨rfl, later⟩ := parts
  have later := Prod.mk.injEq .. ▸ toLex.injective later
  obtain ⟨rfl, ways⟩ := later
  cases direction with
  | outbound => cases direction' with
    | outbound => rfl
    | inbound => exact absurd (show "outbound" = "inbound" from ways) (by decide)
  | inbound => cases direction' with
    | outbound => exact absurd (show "inbound" = "outbound" from ways) (by decide)
    | inbound => rfl

theorem sortedHops_perm {hops hops' : List Provenance.Hop} (perm : hops'.Perm hops) : sortedHops hops' = sortedHops hops :=
  Dictionary.insertionSort_perm perm fun _ _ _ _ same => Hop.key_injective same

/-- A node is rendered alike whatever the order of the hits and of what it was reached by. -/
theorem renderNode_perm (perm : hits'.Perm hits) (scored : OneScore hits) {n n' : ExpansionNode} (named : n'.entityId = n.entityId)
    (titled : n'.title = n.title) (reached : n'.provenance.Perm n.provenance) : renderNode hits' n' = renderNode hits n := by
  have origins : (n'.provenance.map (·.origin)).dedup.length = (n.provenance.map (·.origin)).dedup.length :=
    (reached.map _).dedup.length_eq
  have scores : maxScore (n'.provenance.map fun hop => primaryScore hits' hop.origin) =
      maxScore (n.provenance.map fun hop => primaryScore hits hop.origin) := by
    rw [primaryScore_perm perm scored]
    exact maxScore_perm (reached.map _)
  simp only [renderNode, named, titled, origins, scores, sortedHops_perm reached]

theorem rendered_apart {nodes : List ExpansionNode} (apart : (nodes.map (·.entityId)).Nodup) :
    ((nodes.map (renderNode hits)).map (·.entityId)).Nodup := by
  rw [List.map_map]
  exact apart

theorem ranked_perm (nodes : List ExpansionNode) (hits : List PrimaryHit) : (rankExpansionNodes nodes hits).Perm (nodes.map (renderNode hits)) :=
  List.perm_insertionSort _ _

/-- The ranking depends on the set of the sightings alone, where they agree on the titles. -/
theorem rankExpansionNodes_perm {seen seen' : List (EntityId × String × Provenance.Hop)} {nodes nodes' : List ExpansionNode}
    (perm : hits'.Perm hits) (scored : OneScore hits) (gathers : Gathers seen nodes) (gathers' : Gathers seen' nodes')
    (same : ∀ s, s ∈ seen' ↔ s ∈ seen) (titles : ∀ s ∈ seen, ∀ s' ∈ seen, s.1 = s'.1 → s.2.1 = s'.2.1) :
    rankExpansionNodes nodes' hits' = rankExpansionNodes nodes hits := by
  have alike : ∀ n ∈ nodes, ∀ n' ∈ nodes', n'.entityId = n.entityId → renderNode hits' n' = renderNode hits n := by
    intro n member n' member' named
    obtain ⟨hop, listed⟩ := gathers.titled n member
    obtain ⟨hop', listed'⟩ := gathers'.titled n' member'
    refine renderNode_perm perm scored named (titles _ ((same _).mp listed') _ listed named) ?_
    rw [List.perm_ext_iff_of_nodup (gathers'.once n' member') (gathers.once n member)]
    intro reached
    rw [gathers'.hops n' member', gathers.hops n member, named]
    simp only [same]
  have forth : ∀ n ∈ nodes, ∃ n' ∈ nodes', n'.entityId = n.entityId := by
    intro n member
    obtain ⟨hop, listed⟩ := gathers.titled n member
    exact gathers'.complete _ ((same _).mpr listed)
  have back : ∀ n' ∈ nodes', ∃ n ∈ nodes, n'.entityId = n.entityId := by
    intro n' member'
    obtain ⟨hop, listed⟩ := gathers'.titled n' member'
    obtain ⟨n, member, named⟩ := gathers.complete _ ((same _).mp listed)
    exact ⟨n, member, named.symm⟩
  have rendered : (nodes'.map (renderNode hits')).Perm (nodes.map (renderNode hits)) := by
    rw [List.perm_ext_iff_of_nodup (rendered_apart gathers'.apart).of_map (rendered_apart gathers.apart).of_map]
    intro c
    simp only [List.mem_map]
    constructor
    · rintro ⟨n', member', rfl⟩
      obtain ⟨n, member, named⟩ := back n' member'
      exact ⟨n, member, (alike n member n' member' named).symm⟩
    · rintro ⟨n, member, rfl⟩
      obtain ⟨n', member', named⟩ := forth n member
      exact ⟨n', member', alike n member n' member' named⟩
  refine Dictionary.insertionSort_perm rendered fun a first b second ranks => ?_
  have inner := (Prod.mk.injEq .. ▸ toLex.injective ranks).2
  have ids : a.entityId = b.entityId := (Prod.mk.injEq .. ▸ toLex.injective inner).2
  exact List.inj_on_of_nodup_map (rendered_apart gathers.apart) first second ids

/-! ### The whole result -/

/-- A memory that an allowed edge joins to a hit and that is none itself. -/
def EligibleCandidate (env : Env) (db : Db) (pit : Instant) (agentId : Option String) (hits : List PrimaryHit) (id : EntityId) : Prop :=
  ∃ e, Surrounding env db pit agentId (hits.map (·.id)) e ∧ e.predicate ∈ defaultContextExpansionPredicates ∧
    id ∉ hits.map (·.id) ∧ (e.sourceId ∈ hits.map (·.id) ∧ e.targetId = id ∨ e.targetId ∈ hits.map (·.id) ∧ e.sourceId = id)

theorem provenanceOf_eq_some {e : DependencyEdge} {id : EntityId} {title : String} {hop : Provenance.Hop}
    (sighted : provenanceOf primaryIds e = some (id, title, hop)) : id ∉ primaryIds ∧
      (e.sourceId ∈ primaryIds ∧ e.targetId = id ∧ e.targetTitle = title ∨
        e.targetId ∈ primaryIds ∧ e.sourceId = id ∧ e.sourceTitle = title) := by
  unfold provenanceOf at sighted
  by_cases source : e.sourceId ∈ primaryIds
  · by_cases target : e.targetId ∈ primaryIds
    · simp [source, target] at sighted
    · simp only [List.contains_iff_mem, source, target, List.contains_eq_mem, decide_true, decide_false, Bool.true_eq_false, if_false, if_true,
        Option.some.injEq, Prod.mk.injEq] at sighted
      obtain ⟨rfl, rfl, _⟩ := sighted
      exact ⟨target, .inl ⟨source, rfl, rfl⟩⟩
  · by_cases target : e.targetId ∈ primaryIds
    · simp only [source, target, List.contains_eq_mem, decide_true, decide_false, Bool.false_eq_true, if_false,
        Option.some.injEq, Prod.mk.injEq] at sighted
      obtain ⟨rfl, rfl, _⟩ := sighted
      exact ⟨source, .inr ⟨target, rfl, rfl⟩⟩
    · simp [source, target] at sighted

theorem provenanceOf_isSome {e : DependencyEdge} {id : EntityId} (outside : id ∉ primaryIds)
    (joined : e.sourceId ∈ primaryIds ∧ e.targetId = id ∨ e.targetId ∈ primaryIds ∧ e.sourceId = id) :
    ∃ s, provenanceOf primaryIds e = some s ∧ s.1 = id := by
  rcases joined with ⟨source, rfl⟩ | ⟨target, rfl⟩
  · exact ⟨(e.targetId, e.targetTitle, ⟨e.sourceId, e.predicate, .outbound⟩), by simp [provenanceOf, source, outside], rfl⟩
  · exact ⟨(e.sourceId, e.sourceTitle, ⟨e.targetId, e.predicate, .inbound⟩), by simp [provenanceOf, target, outside], rfl⟩

theorem mem_sightings {edges : List DependencyEdge} {s : EntityId × String × Provenance.Hop} :
    s ∈ sightings primaryIds edges ↔ ∃ e ∈ edges, (e.expands && !e.inside primaryIds) = true ∧ provenanceOf primaryIds e = some s := by
  simp only [sightings, List.mem_filterMap, List.mem_filter, and_assoc]

/-- A title that an edge gives for a memory is the one of its row. -/
theorem sightings_titled {edges : List DependencyEdge} (next : ∀ e ∈ edges, db.NextEdge pit agentId e) {s : EntityId × String × Provenance.Hop}
    (seen : s ∈ sightings primaryIds edges) : ∃ row, db.entities.find s.1 = some row ∧ s.2.1 = row.title := by
  obtain ⟨e, listed, _, sighted⟩ := mem_sightings.mp seen
  obtain ⟨r, _, _, _, source, target, fromSource, fromTarget, rfl⟩ := next e listed
  obtain ⟨id, title, hop⟩ := s
  rcases (provenanceOf_eq_some sighted).2 with ⟨_, rfl, rfl⟩ | ⟨_, rfl, rfl⟩
  · exact ⟨target, fromTarget, rfl⟩
  · exact ⟨source, fromSource, rfl⟩

theorem recorded_perm (edges edges' : List DependencyEdge) (next : ∀ e ∈ edges, db.NextEdge pit agentId e) (same : ∀ e, e ∈ edges' ↔ e ∈ edges) :
    ((edges'.map (·.raw)).foldl assignEdge []).insertionSort (fun a b => a.relationId ≤ b.relationId) =
      ((edges.map (·.raw)).foldl assignEdge []).insertionSort fun a b => a.relationId ≤ b.relationId := by
  have agree : ∀ a ∈ edges.map (·.raw), ∀ b ∈ edges.map (·.raw), a.relationId = b.relationId → a = b := by
    intro a first b second named
    obtain ⟨e, listed, rfl⟩ := List.mem_map.mp first
    obtain ⟨e', listed', rfl⟩ := List.mem_map.mp second
    rw [(next e listed).unique (next e' listed') named]
  have maps : ∀ a, a ∈ edges'.map (·.raw) ↔ a ∈ edges.map (·.raw) := fun a => by simp only [List.mem_map, same]
  have agree' : ∀ a ∈ edges'.map (·.raw), ∀ b ∈ edges'.map (·.raw), a.relationId = b.relationId → a = b :=
    fun a first b second => agree a ((maps a).mp first) b ((maps b).mp second)
  have apart : ∀ es : List RawEdge, ((es.foldl assignEdge []).map (·.relationId)).Nodup := fun es => Dictionary.foldl_assign_apart
  refine Dictionary.insertionSort_perm ?_ fun a first b second named => Dictionary.eq_of_key (apart _) first second named
  rw [List.perm_ext_iff_of_nodup (apart _).of_map (apart _).of_map]
  exact fun a => (Dictionary.mem_foldl_assign agree').trans ((maps a).trans (Dictionary.mem_foldl_assign agree).symm)

theorem provenanceOf_congr {ids : List EntityId} (same : ∀ id, id ∈ ids ↔ id ∈ primaryIds) : provenanceOf ids = provenanceOf primaryIds := by
  funext e
  simp only [provenanceOf, List.contains_eq_mem, same]

theorem inside_congr {ids : List EntityId} (same : ∀ id, id ∈ ids ↔ id ∈ primaryIds) (e : DependencyEdge) :
    e.inside ids = e.inside primaryIds := by
  simp only [DependencyEdge.inside, List.contains_eq_mem, same]

theorem surrounding_congr {ids : List EntityId} (rows : RelationTable) (shuffled : rows.rows.Perm db.relations.rows)
    (same : ∀ id, id ∈ ids ↔ id ∈ primaryIds) {e : DependencyEdge} :
    Surrounding env { db with relations := rows } pit agentId ids e ↔ Surrounding env db pit agentId primaryIds e := by
  have next : Db.NextEdge { db with relations := rows } pit agentId e ↔ db.NextEdge pit agentId e :=
    exists_congr fun r => and_congr_left fun _ => shuffled.mem_iff
  have resolves : resolveEntityRef env { db with relations := rows } = resolveEntityRef env db := resolveEntityRef_congr env rfl
  simp only [Surrounding, next, same, resolves]

/-- What is collected of the edges around the hits. -/
theorem collected_eq (hits : List PrimaryHit) : (primaryIds.foldl (collectEdges env db primaryIds pit agentId) ⟨[], [], []⟩) =
    (primaryIds.flatMap (traversedEdges env db pit agentId)).foldl (recordEdge primaryIds) ⟨[], [], []⟩ := by
  rw [List.foldl_flatMap]
  rfl

/-- What one order of the hits and of the relations brings, every other order brings. -/
theorem expandContextCandidates_perm {rows : RelationTable} (shuffled : rows.rows.Perm db.relations.rows) (perm : hits'.Perm hits)
    (scored : OneScore hits) :
    expandContextCandidates env { db with relations := rows } hits' pit agentId = expandContextCandidates env db hits pit agentId := by
  have same : ∀ id, id ∈ (hits'.map (·.id)).dedup ↔ id ∈ (hits.map (·.id)).dedup := fun id => by
    rw [List.mem_dedup, List.mem_dedup, (perm.map _).mem_iff]
  have around : ∀ e, e ∈ (hits'.map (·.id)).dedup.flatMap (traversedEdges env { db with relations := rows } pit agentId) ↔
      e ∈ (hits.map (·.id)).dedup.flatMap (traversedEdges env db pit agentId) := fun e => by
    rw [mem_surrounding, mem_surrounding, surrounding_congr rows shuffled same]
  have next : ∀ e ∈ (hits.map (·.id)).dedup.flatMap (traversedEdges env db pit agentId), db.NextEdge pit agentId e :=
    fun e listed => (mem_surrounding.mp listed).1
  unfold expandContextCandidates
  simp only [collected_eq hits, collected_eq hits', recordEdge_split]
  generalize (hits'.map (·.id)).dedup.flatMap (traversedEdges env { db with relations := rows } pit agentId) = edges' at around
  generalize (hits.map (·.id)).dedup.flatMap (traversedEdges env db pit agentId) = edges at around next
  have seen : ∀ s, s ∈ sightings (hits'.map (·.id)).dedup edges' ↔ s ∈ sightings (hits.map (·.id)).dedup edges := fun s => by
    simp only [mem_sightings, around, inside_congr same, provenanceOf_congr same]
  have titles : ∀ s ∈ sightings (hits.map (·.id)).dedup edges, ∀ s' ∈ sightings (hits.map (·.id)).dedup edges, s.1 = s'.1 → s.2.1 = s'.2.1 := by
    intro s first s' second named
    obtain ⟨row, found, title⟩ := sightings_titled next first
    obtain ⟨row', found', title'⟩ := sightings_titled next second
    rw [named] at found
    rw [title, title', Option.some.inj (found.symm.trans found')]
  have network := recorded_perm (edges.filter fun e => e.expands && e.inside (hits.map (·.id)).dedup)
    (edges'.filter fun e => e.expands && e.inside (hits'.map (·.id)).dedup)
    (fun e listed => next e (List.mem_filter.mp listed).1) fun e => by simp only [List.mem_filter, around, inside_congr same]
  have conflicts := recorded_perm (edges.filter DependencyEdge.conflicts) (edges'.filter DependencyEdge.conflicts)
    (fun e listed => next e (List.mem_filter.mp listed).1) fun e => by simp only [List.mem_filter, around]
  have ranked := rankExpansionNodes_perm perm scored (gathers_foldl (sightings (hits.map (·.id)).dedup edges))
    (gathers_foldl (sightings (hits'.map (·.id)).dedup edges')) seen titles
  rw [network, conflicts, ranked, perm.length_eq]

/-- The candidates against all that are eligible. -/
structure ExactExpansion (env : Env) (db : Db) (pit : Instant) (agentId : Option String) (hits : List PrimaryHit) (result : ExpansionResult) :
    Prop where
  once : (result.expansionCandidates.map (·.entityId)).Nodup
  apart : ∀ c ∈ result.expansionCandidates, c.entityId ∉ hits.map (·.id)
  cap : result.fanOut.cap = contextExpansionTopKRelationships * hits.length
  capped : result.expansionCandidates.length ≤ result.fanOut.cap
  omitted : ∃ eligible : List EntityId, eligible.Nodup ∧ (∀ id, id ∈ eligible ↔ EligibleCandidate env db pit agentId hits id) ∧
    result.expansionCandidates.map (·.entityId) <+: eligible ∧ result.fanOut.eligibleCount = eligible.length ∧
      result.fanOut.droppedCount = eligible.length - result.expansionCandidates.length ∧
        (result.fanOut.truncated = true ↔ result.expansionCandidates.length < eligible.length)

/-- The memories that the sightings name are the eligible ones. -/
theorem sighted_iff {id : EntityId} : (∃ s ∈ sightings (hits.map (·.id)).dedup ((hits.map (·.id)).dedup.flatMap (traversedEdges env db pit agentId)),
    s.1 = id) ↔ EligibleCandidate env db pit agentId hits id := by
  have dedup : ∀ id, id ∈ (hits.map (·.id)).dedup ↔ id ∈ hits.map (·.id) := fun id => List.mem_dedup
  have around : ∀ e, Surrounding env db pit agentId (hits.map (·.id)).dedup e ↔ Surrounding env db pit agentId (hits.map (·.id)) e :=
    fun e => surrounding_congr db.relations .rfl dedup
  simp only [mem_sightings, mem_surrounding, around, inside_congr dedup, provenanceOf_congr dedup]
  constructor
  · rintro ⟨⟨id', title, hop⟩, ⟨e, surrounds, outward, sighted⟩, rfl⟩
    obtain ⟨outside, joined⟩ := provenanceOf_eq_some sighted
    have allowed := (Bool.and_eq_true_iff.mp (Bool.and_eq_true_iff.mp outward).1).2
    refine ⟨e, surrounds, List.contains_iff_mem.mp allowed, outside, ?_⟩
    rcases joined with ⟨source, target, _⟩ | ⟨target, source, _⟩
    · exact .inl ⟨source, target⟩
    · exact .inr ⟨target, source⟩
  · rintro ⟨e, surrounds, allowed, outside, joined⟩
    obtain ⟨s, sighted, named⟩ := provenanceOf_isSome outside joined
    refine ⟨s, ⟨e, surrounds, ?_, sighted⟩, named⟩
    have conflictless : e.predicate ≠ "contradicts" := by
      intro same
      rw [same] at allowed
      exact absurd allowed (by decide)
    have outward : e.inside (hits.map (·.id)) = false := by
      rcases joined with ⟨_, rfl⟩ | ⟨_, rfl⟩
      · simp only [DependencyEdge.inside, List.contains_eq_mem, outside, decide_false, Bool.and_false]
      · simp only [DependencyEdge.inside, List.contains_eq_mem, outside, decide_false, Bool.false_and]
    simp only [DependencyEdge.expands, DependencyEdge.conflicts, conflictless, decide_false, outward, Bool.not_false, Bool.true_and, Bool.and_true]
    exact List.contains_iff_mem.mpr allowed

theorem expandContextCandidates_exact : ExactExpansion env db pit agentId hits (expandContextCandidates env db hits pit agentId) := by
  have gathers := gathers_foldl (sightings (hits.map (·.id)).dedup ((hits.map (·.id)).dedup.flatMap (traversedEdges env db pit agentId)))
  unfold expandContextCandidates
  simp only [collected_eq hits, recordEdge_split]
  generalize (sightings (hits.map (·.id)).dedup ((hits.map (·.id)).dedup.flatMap (traversedEdges env db pit agentId))).foldl addSighting [] =
    nodes at gathers
  have ids : ((rankExpansionNodes nodes hits).map (·.entityId)).Perm (nodes.map (·.entityId)) := by
    have rendered := (ranked_perm nodes hits).map (·.entityId)
    rwa [List.map_map] at rendered
  have eligible : ∀ id, id ∈ (rankExpansionNodes nodes hits).map (·.entityId) ↔ EligibleCandidate env db pit agentId hits id := by
    intro id
    rw [ids.mem_iff, ← sighted_iff, List.mem_map]
    constructor
    · rintro ⟨n, member, rfl⟩
      obtain ⟨hop, listed⟩ := gathers.titled n member
      exact ⟨_, listed, rfl⟩
    · rintro ⟨s, listed, rfl⟩
      exact gathers.complete s listed
  have apart := ids.nodup_iff.mpr gathers.apart
  generalize rankExpansionNodes nodes hits = ranked at ids eligible apart
  have listed : (ranked.take (contextExpansionTopKRelationships * hits.length)).map (·.entityId) <+: ranked.map (·.entityId) :=
    (List.take_prefix _ ranked).map _
  refine ⟨apart.sublist listed.sublist, fun c member => ?_, rfl, List.length_take_le _ _, ranked.map (·.entityId), apart, eligible, listed,
    (List.length_map _).symm, ?_, ?_⟩
  · obtain ⟨_, _, _, outside, _⟩ := (eligible c.entityId).mp (List.mem_map_of_mem (List.mem_of_mem_take member))
    exact outside
  · show ranked.length - _ = (ranked.map _).length - (ranked.take _).length
    rw [List.length_map, List.length_take]
    omega
  · rw [List.length_map, List.length_take, decide_eq_true_eq]
    omega

theorem expandContextCandidates_orderless (env : Env) {db : Db} {rows : RelationTable} (shuffled : rows.rows.Perm db.relations.rows)
    {hits hits' : List PrimaryHit} (perm : hits'.Perm hits) (scored : OneScore hits) (pit : Instant) (agentId : Option String) :
    expandContextCandidates env { db with relations := rows } hits' pit agentId = expandContextCandidates env db hits pit agentId ∧
      ExactExpansion env db pit agentId hits (expandContextCandidates env db hits pit agentId) :=
  ⟨expandContextCandidates_perm shuffled perm scored, expandContextCandidates_exact⟩

def reversedRows : RelationTable :=
  ⟨[dependsOnRow 1 "note-10" "note-1", dependsOnRow 0 "plan" "note-10"], 2, by decide, by decide,
    List.pairwise_pair.mpr fun both => absurd both.2.2 (by decide)⟩

/-- Two hits in both orders, over the two edges in both orders. -/
theorem nestedDb_orderless :
    expandContextCandidates .plain { nestedDb with relations := reversedRows } [⟨"note-1", 1⟩, ⟨"plan", 1⟩] 0 none =
        expandContextCandidates .plain nestedDb [⟨"plan", 1⟩, ⟨"note-1", 1⟩] 0 none ∧
      ExactExpansion .plain nestedDb 0 none [⟨"plan", 1⟩, ⟨"note-1", 1⟩]
        (expandContextCandidates .plain nestedDb [⟨"plan", 1⟩, ⟨"note-1", 1⟩] 0 none) :=
  expandContextCandidates_orderless .plain (.swap _ _ []) (.swap _ _ []) (by unfold OneScore; decide) 0 none

end SaltMdb
