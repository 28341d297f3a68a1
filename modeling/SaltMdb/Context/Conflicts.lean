import SaltMdb.Context.Expansion
import SaltMdb.Library.UnionFind

/-! `conflict_set_service`: the components of the contradicts edges, and the conflict sets that are made of them. -/

namespace SaltMdb

/-! ### Components -/

structure ConflictComponent where
  memberIds : List EntityId
  edges : List RawEdge
  resolved : Bool
deriving DecidableEq, Repr

/-- An entry of `components_by_root`. -/
structure RootComponent where
  root : EntityId
  memberIds : List EntityId
  edges : List RawEdge
deriving DecidableEq, Repr

def RootComponent.add (e : RawEdge) (c : RootComponent) : RootComponent :=
  { c with memberIds := (c.memberIds.insert e.sourceId).insert e.targetId, edges := c.edges ++ [e] }

structure GroupedEdges where
  parent : UnionFind.Parents EntityId
  componentsByRoot : List RootComponent

def unionEdges (edges : List RawEdge) : UnionFind.Parents EntityId :=
  edges.foldl (fun parent e => UnionFind.union parent e.sourceId e.targetId) []

def groupEdge (g : GroupedEdges) (e : RawEdge) : GroupedEdges :=
  let found := UnionFind.find g.parent e.sourceId
  ⟨found.1, Dictionary.adjust (·.root) g.componentsByRoot found.2 ⟨found.2, [], []⟩ (RootComponent.add e)⟩

def contextExpansionContradictsCap : Nat := 5

variable (env : Env)

/-- The memories of the lineage of one, as far as both directions can be read. -/
def lineageReached (db : Db) (pit : Instant) (entityId : EntityId) : List EntityId :=
  match getLineage env db entityId .ancestors supersessionChainMaxDepth pit none,
      getLineage env db entityId .descendants supersessionChainMaxDepth pit none with
  | .ok ancestors, .ok descendants => (ancestors.nodes ++ descendants.nodes).map (·.id)
  | _, _ => []

/-- The rounds of the search; what one round discovers is the frontier of the next. -/
def lifecycleRounds (db : Db) (pit : Instant) (memberIds : List EntityId) : Nat → List EntityId → List EntityId → List EntityId
  | 0, visited, _ => visited
  | rounds + 1, visited, frontier =>
    if frontier.isEmpty then visited
    else
      let newlyDiscovered := ((frontier.flatMap (lineageReached env db pit)).filter (!visited.contains ·)).dedup
      if memberIds.all ((visited ++ newlyDiscovered).contains ·) then visited ++ newlyDiscovered
      else lifecycleRounds db pit memberIds rounds (visited ++ newlyDiscovered) newlyDiscovered

def statusById (db : Db) (id : EntityId) : String := ((db.entities.find id).map (·.status.text)).getD "unknown"

def componentLifecycleResolved (db : Db) (pit : Instant) (memberIds : List EntityId) : Bool :=
  match memberIds.min? with
  | none => false
  | some anchor =>
    memberIds.all ((lifecycleRounds env db pit memberIds supersessionChainMaxDepth [anchor] [anchor]).contains ·) &&
      (memberIds.filter fun id => statusById db id != "archived").length == 1

def classifyContradictsComponents (db : Db) (contradictsEdges : List RawEdge) (pit : Instant) : List ConflictComponent :=
  (contradictsEdges.foldl groupEdge ⟨unionEdges contradictsEdges, []⟩).componentsByRoot.map fun c =>
    ⟨c.memberIds, c.edges, componentLifecycleResolved env db pit c.memberIds⟩

/-! ### Conflict sets -/

inductive ConflictInclusion where
  | primary
  | expansion
  | conflictOnly
deriving DecidableEq, Repr

structure ConflictMember where
  id : EntityId
  inclusion : ConflictInclusion
  title : Option String
  status : Option String
deriving DecidableEq, Repr

structure UnresolvedComponent where
  members : List ConflictMember
  edges : List RawEdge
  conflictOnlyCount : Nat
  tiebreakScore : Rat
  memberSortKey : List EntityId
deriving DecidableEq, Repr

structure ConflictSet where
  members : List ConflictMember
  edges : List RawEdge
deriving DecidableEq, Repr

structure ContradictsCap where
  cap : Nat
  eligibleCount : Nat
  truncated : Bool
  droppedCount : Nat
deriving DecidableEq, Repr

structure ConflictSetsResult where
  conflictSets : List ConflictSet
  contradictsCap : ContradictsCap
deriving DecidableEq, Repr

/-- What `_load_entity_info` knows of a member. -/
def entityInfo (db : Db) (id : EntityId) : String × String :=
  match db.entities.find id with
  | none => ("Unknown", "unknown")
  | some e => (e.title, e.status.text)

def conflictMember (db : Db) (primaryHitIds expansionCandidateIds : List EntityId) (id : EntityId) : ConflictMember :=
  if primaryHitIds.contains id then ⟨id, .primary, none, none⟩
  else if expansionCandidateIds.contains id then ⟨id, .expansion, none, none⟩
  else ⟨id, .conflictOnly, some (entityInfo db id).1, some (entityInfo db id).2⟩

/-- `max` of no scores raises. -/
def buildUnresolvedComponent (db : Db) (hits : List PrimaryHit) (expansionCandidateIds : List EntityId) (c : ConflictComponent) :
    Except String (Option UnresolvedComponent) :=
  if c.resolved then .ok none
  else
    let primaryHitIds := hits.map (·.id)
    let scored := c.memberIds.filter (primaryHitIds.contains ·)
    if scored.isEmpty then .error "max() arg is an empty sequence"
    else
      let sortedIds := c.memberIds.insertionSort (· ≤ ·)
      .ok (some {
        members := sortedIds.map (conflictMember db primaryHitIds expansionCandidateIds)
        edges := c.edges
        conflictOnlyCount := (c.memberIds.filter fun id => !primaryHitIds.contains id && !expansionCandidateIds.contains id).length
        tiebreakScore := maxScore (scored.map (primaryScore hits))
        memberSortKey := sortedIds })

/-- The higher score first, then the ids. -/
def UnresolvedComponent.key (c : UnresolvedComponent) : Lex (Rat × List EntityId) := toLex (-c.tiebreakScore, c.memberSortKey)

/-- The components that fit below the cap; from the first that does not, all are dropped. -/
def admitConflictComponents : Nat → List UnresolvedComponent → List UnresolvedComponent × Nat
  | _, [] => ([], 0)
  | admittedCount, c :: rest =>
    if contextExpansionContradictsCap < admittedCount + c.conflictOnlyCount then ([], rest.length + 1)
    else
      let admitted := admitConflictComponents (admittedCount + c.conflictOnlyCount) rest
      (c :: admitted.1, admitted.2)

def assembleConflictSets (db : Db) (expansion : ExpansionResult) (primaryHits : List PrimaryHit) (pit : Instant) :
    Except String ConflictSetsResult :=
  if expansion.contradictsEdges.isEmpty then .ok ⟨[], ⟨contextExpansionContradictsCap, 0, false, 0⟩⟩
  else do
    let components := classifyContradictsComponents env db expansion.contradictsEdges pit
    let built ← components.mapM (buildUnresolvedComponent db primaryHits (expansion.expansionCandidates.map (·.entityId)))
    let unresolved := (built.filterMap id).insertionSort fun a b => a.key ≤ b.key
    let admitted := admitConflictComponents 0 unresolved
    pure {
      conflictSets := admitted.1.map fun c => ⟨c.members, c.edges⟩
      contradictsCap := ⟨contextExpansionContradictsCap, unresolved.length, decide (0 < admitted.2), admitted.2⟩ }

variable {env}

/-! ### The components are the classes -/

/-- The edges connect two memories. -/
def Contradictory (edges : List RawEdge) : EntityId → EntityId → Prop :=
  UnionFind.Connected fun a b => ∃ e ∈ edges, e.sourceId = a ∧ e.targetId = b

/-- The components are the classes of the memories that the edges name. -/
structure ExactComponents (edges : List RawEdge) (components : List ConflictComponent) : Prop where
  classes : ∀ c ∈ components, ∀ a ∈ c.memberIds, ∀ b, b ∈ c.memberIds ↔ Contradictory edges a b
  inhabited : ∀ c ∈ components, ∃ e ∈ edges, e.sourceId ∈ c.memberIds
  covers : ∀ e ∈ edges, ∃ c ∈ components, e.sourceId ∈ c.memberIds ∧ e.targetId ∈ c.memberIds
  apart : components.Pairwise fun c d => ∀ id ∈ c.memberIds, id ∉ d.memberIds
  once : ∀ c ∈ components, c.memberIds.Nodup
  edges : ∀ c ∈ components, ∀ e, e ∈ c.edges ↔ e ∈ edges ∧ e.sourceId ∈ c.memberIds

variable {edges : List RawEdge} {parent : UnionFind.Parents EntityId}

theorem contradictory_congr {shuffled : List RawEdge} (same : ∀ e, e ∈ shuffled ↔ e ∈ edges) :
    Contradictory shuffled = Contradictory edges := by
  simp only [Contradictory, same]

def RawEdge.ends (e : RawEdge) : EntityId × EntityId := (e.sourceId, e.targetId)

theorem unionEdges_classes (edges : List RawEdge) : UnionFind.Classes (edges.map RawEdge.ends) (unionEdges edges) := by
  have classes := UnionFind.classes_foldl (edges.map RawEdge.ends)
  rwa [List.foldl_map] at classes

/-- The components of the edges grouped so far: each holds the edges below its root. -/
structure Grouping (parent : UnionFind.Parents EntityId) (grouped : List RawEdge) (g : GroupedEdges) : Prop where
  same : UnionFind.Same parent g.parent
  apart : (g.componentsByRoot.map (·.root)).Nodup
  members : ∀ c ∈ g.componentsByRoot, ∀ id, id ∈ c.memberIds ↔
    ∃ e ∈ grouped, UnionFind.Root parent e.sourceId c.root ∧ (id = e.sourceId ∨ id = e.targetId)
  edges : ∀ c ∈ g.componentsByRoot, ∀ e, e ∈ c.edges ↔ e ∈ grouped ∧ UnionFind.Root parent e.sourceId c.root
  once : ∀ c ∈ g.componentsByRoot, c.memberIds.Nodup
  complete : ∀ e ∈ grouped, ∃ c ∈ g.componentsByRoot, UnionFind.Root parent e.sourceId c.root
  inhabited : ∀ c ∈ g.componentsByRoot, ∃ e ∈ grouped, UnionFind.Root parent e.sourceId c.root

theorem Grouping.add {grouped : List RawEdge} {g : GroupedEdges} (grouping : Grouping parent grouped g) (forest : UnionFind.Forest parent)
    {e : RawEdge} (known : UnionFind.Known parent e.sourceId) : Grouping parent (grouped ++ [e]) (groupEdge g e) := by
  obtain ⟨same, top⟩ := UnionFind.find_same (grouping.same.forest forest) ((grouping.same.known _).mpr known)
  have top : UnionFind.Root parent e.sourceId (UnionFind.find g.parent e.sourceId).2 := (grouping.same.root _ _).mp top
  have components : (groupEdge g e).componentsByRoot = Dictionary.adjust (·.root) g.componentsByRoot
      (UnionFind.find g.parent e.sourceId).2 ⟨(UnionFind.find g.parent e.sourceId).2, [], []⟩ (RootComponent.add e) := rfl
  have parents : (groupEdge g e).parent = (UnionFind.find g.parent e.sourceId).1 := rfl
  generalize (UnionFind.find g.parent e.sourceId).2 = root at top components
  have members : ∀ c, c ∈ (groupEdge g e).componentsByRoot ↔ c ∈ g.componentsByRoot ∧ c.root ≠ root ∨
      (∃ d ∈ g.componentsByRoot, d.root = root ∧ c = d.add e) ∨
        (∀ d ∈ g.componentsByRoot, d.root ≠ root) ∧ c = RootComponent.add e ⟨root, [], []⟩ := fun c => by
    rw [components]
    exact Dictionary.mem_adjust
  have elsewhere : ∀ r, r ≠ root → ¬ UnionFind.Root parent e.sourceId r := fun r other here => other (here.unique top)
  have ungrouped : (∀ d ∈ g.componentsByRoot, d.root ≠ root) → ∀ e' ∈ grouped, ¬ UnionFind.Root parent e'.sourceId root := by
    intro fresh e' listed here
    obtain ⟨d, member, there⟩ := grouping.complete e' listed
    exact fresh d member (there.unique here)
  have added : ∀ (c : RootComponent) id, id ∈ (c.add e).memberIds ↔ id ∈ c.memberIds ∨ id = e.sourceId ∨ id = e.targetId := by
    intro c id
    simp only [RootComponent.add, List.mem_insert_iff]
    tauto
  refine ⟨parents ▸ grouping.same.trans same, ?_, fun c member id => ?_, fun c member e' => ?_, fun c member => ?_, fun e' listed => ?_,
    fun c member => ?_⟩
  · rw [components]
    exact Dictionary.adjust_apart rfl (fun _ named => named) grouping.apart
  · simp only [List.mem_append, List.mem_singleton, or_and_right, exists_or, exists_eq_left]
    rcases (members c).mp member with ⟨old, other⟩ | ⟨d, old, rfl, rfl⟩ | ⟨fresh, rfl⟩
    · simp only [elsewhere c.root other, false_and, or_false]
      exact grouping.members c old id
    · rw [added, grouping.members d old]
      exact or_congr_right (and_iff_right top).symm
    · rw [added]
      refine or_congr ⟨fun held => absurd held List.not_mem_nil, ?_⟩ (and_iff_right top).symm
      rintro ⟨e', listed, here, _⟩
      exact absurd here (ungrouped fresh e' listed)
  · simp only [List.mem_append, List.mem_singleton, or_and_right]
    rcases (members c).mp member with ⟨old, other⟩ | ⟨d, old, rfl, rfl⟩ | ⟨fresh, rfl⟩
    · rw [grouping.edges c old]
      refine (or_iff_left ?_).symm
      rintro ⟨rfl, here⟩
      exact elsewhere c.root other here
    · simp only [RootComponent.add, List.mem_append, List.mem_singleton, grouping.edges d old]
      refine or_congr_right ⟨?_, And.left⟩
      rintro rfl
      exact ⟨rfl, top⟩
    · simp only [RootComponent.add, List.nil_append, List.mem_singleton]
      constructor
      · rintro rfl
        exact .inr ⟨rfl, top⟩
      · rintro (⟨listed, here⟩ | ⟨rfl, _⟩)
        · exact absurd here (ungrouped fresh e' listed)
        · rfl
  · rcases (members c).mp member with ⟨old, _⟩ | ⟨d, old, _, rfl⟩ | ⟨_, rfl⟩
    · exact grouping.once c old
    · exact ((grouping.once d old).insert).insert
    · exact (List.nodup_nil.insert).insert
  · have target : ∀ d ∈ g.componentsByRoot, ∃ c ∈ (groupEdge g e).componentsByRoot, c.root = d.root := by
      intro d old
      by_cases here : d.root = root
      · exact ⟨d.add e, (members _).mpr (.inr (.inl ⟨d, old, here, rfl⟩)), rfl⟩
      · exact ⟨d, (members d).mpr (.inl ⟨old, here⟩), rfl⟩
    rcases List.mem_append.mp listed with old | new
    · obtain ⟨d, member, here⟩ := grouping.complete e' old
      obtain ⟨c, member, named⟩ := target d member
      exact ⟨c, member, named ▸ here⟩
    · obtain rfl := List.mem_singleton.mp new
      by_cases some_ : ∃ d ∈ g.componentsByRoot, d.root = root
      · obtain ⟨d, member, rfl⟩ := some_
        obtain ⟨c, member, named⟩ := target d member
        exact ⟨c, member, named ▸ top⟩
      · exact ⟨_, (members _).mpr (.inr (.inr ⟨fun d member here => some_ ⟨d, member, here⟩, rfl⟩)), top⟩
  · rcases (members c).mp member with ⟨old, _⟩ | ⟨d, old, _, rfl⟩ | ⟨_, rfl⟩
    · obtain ⟨e', listed, here⟩ := grouping.inhabited c old
      exact ⟨e', List.mem_append_left _ listed, here⟩
    · obtain ⟨e', listed, here⟩ := grouping.inhabited d old
      exact ⟨e', List.mem_append_left _ listed, here⟩
    · exact ⟨e, List.mem_append_right _ List.mem_cons_self, top⟩

theorem grouping_foldl (forest : UnionFind.Forest parent) (edges : List RawEdge)
    (known : ∀ e ∈ edges, UnionFind.Known parent e.sourceId) : Grouping parent edges (edges.foldl groupEdge ⟨parent, []⟩) := by
  induction edges using List.reverseRecOn with
  | nil => exact ⟨.refl parent, List.nodup_nil, nofun, nofun, nofun, nofun, nofun⟩
  | append_singleton edges e ih =>
    rw [List.foldl_concat]
    exact (ih fun e listed => known e (List.mem_append_left _ listed)).add forest (known e (List.mem_append_right _ List.mem_cons_self))

/-- A component holds what has its root. -/
theorem Grouping.mem_iff {g : GroupedEdges} (grouping : Grouping parent edges g) (classes : UnionFind.Classes (edges.map RawEdge.ends) parent)
    {c : RootComponent} (member : c ∈ g.componentsByRoot) (id : EntityId) : id ∈ c.memberIds ↔ UnionFind.Root parent id c.root := by
  have joined : ∀ e ∈ edges, UnionFind.Joined parent e.sourceId e.targetId := fun e listed => classes.ends _ (List.mem_map_of_mem listed)
  rw [grouping.members c member]
  constructor
  · rintro ⟨e, listed, top, rfl | rfl⟩
    · exact top
    · obtain ⟨r, first, second⟩ := joined e listed
      exact first.unique top ▸ second
  · intro top
    obtain ⟨ends, mapped, end_⟩ := (classes.known id).mp top.known
    obtain ⟨e, listed, rfl⟩ := List.mem_map.mp mapped
    refine ⟨e, listed, ?_, end_⟩
    rcases end_ with rfl | rfl
    · exact top
    · obtain ⟨r, first, second⟩ := joined e listed
      exact second.unique top ▸ first

theorem classifyContradictsComponents_exact (env : Env) (db : Db) (edges : List RawEdge) (pit : Instant) :
    ExactComponents edges (classifyContradictsComponents env db edges pit) := by
  have classes := unionEdges_classes edges
  have known : ∀ e ∈ edges, UnionFind.Known (unionEdges edges) e.sourceId := fun e listed =>
    (classes.known _).mpr ⟨_, List.mem_map_of_mem listed, .inl rfl⟩
  have grouping := grouping_foldl classes.forest edges known
  have connects : ∀ a b, Contradictory edges a b ↔ UnionFind.Connected (fun a b => (a, b) ∈ edges.map RawEdge.ends) a b := by
    intro a b
    simp only [Contradictory, List.mem_map, RawEdge.ends, Prod.mk.injEq]
  unfold classifyContradictsComponents
  generalize edges.foldl groupEdge ⟨unionEdges edges, []⟩ = g at grouping
  refine ⟨?_, ?_, fun e listed => ?_, ?_, ?_, ?_⟩
  · simp only [List.forall_mem_map]
    intro c member a inside b
    rw [grouping.mem_iff classes member] at inside
    rw [grouping.mem_iff classes member, connects, ← classes.joined_iff inside.known]
    constructor
    · exact fun top => ⟨c.root, inside, top⟩
    · rintro ⟨r, first, second⟩
      exact first.unique inside ▸ second
  · simp only [List.forall_mem_map]
    intro c member
    obtain ⟨e, listed, top⟩ := grouping.inhabited c member
    exact ⟨e, listed, (grouping.mem_iff classes member _).mpr top⟩
  · obtain ⟨c, member, top⟩ := grouping.complete e listed
    have member_ := grouping.members c member
    exact ⟨_, List.mem_map_of_mem member, (member_ _).mpr ⟨e, listed, top, .inl rfl⟩, (member_ _).mpr ⟨e, listed, top, .inr rfl⟩⟩
  · have roots : g.componentsByRoot.Pairwise fun c d => c.root ≠ d.root := List.pairwise_map.mp grouping.apart
    refine List.pairwise_map.mpr (roots.imp_of_mem fun {c d} first second differ id inside inside' => differ ?_)
    exact ((grouping.mem_iff classes first id).mp inside).unique ((grouping.mem_iff classes second id).mp inside')
  · simp only [List.forall_mem_map]
    exact grouping.once
  · simp only [List.forall_mem_map]
    intro c member e
    rw [grouping.edges c member]
    exact and_congr_right fun _ => (grouping.mem_iff classes member _).symm

theorem ExactComponents.of_perm {shuffled : List RawEdge} {components : List ConflictComponent} (exact_ : ExactComponents shuffled components)
    (perm : shuffled.Perm edges) : ExactComponents edges components := by
  have same : ∀ e, e ∈ shuffled ↔ e ∈ edges := fun e => perm.mem_iff
  refine ⟨?_, ?_, ?_, exact_.apart, exact_.once, ?_⟩
  · rw [← contradictory_congr same]
    exact exact_.classes
  · simpa only [same] using exact_.inhabited
  · simpa only [same] using exact_.covers
  · simpa only [same] using exact_.edges

/-! ### What is assembled -/

variable {db : Db} {pit : Instant} {hits : List PrimaryHit} {candidateIds : List EntityId}

theorem buildUnresolvedComponent_ok_iff {c : ConflictComponent} : (∃ built, buildUnresolvedComponent db hits candidateIds c = .ok built) ↔
    c.resolved = true ∨ ∃ hit ∈ hits, hit.id ∈ c.memberIds := by
  have scored : (c.memberIds.filter ((hits.map (·.id)).contains ·)).isEmpty = false ↔ ∃ hit ∈ hits, hit.id ∈ c.memberIds := by
    rw [← Bool.not_eq_true, List.isEmpty_iff, List.filter_eq_nil_iff]
    simp only [List.contains_eq_mem, decide_eq_true_eq, List.mem_map, not_exists, not_and, not_forall, not_not]
    constructor
    · rintro ⟨id, inside, hit, listed, rfl⟩
      exact ⟨hit, listed, inside⟩
    · rintro ⟨hit, listed, inside⟩
      exact ⟨hit.id, inside, hit, listed, rfl⟩
  unfold buildUnresolvedComponent
  by_cases resolved : c.resolved = true
  · simp [resolved]
  · rw [if_neg resolved, ← scored]
    by_cases none_ : (c.memberIds.filter ((hits.map (·.id)).contains ·)).isEmpty = true
    · simp only [none_, if_true, reduceCtorEq, exists_false, resolved, false_or, Bool.true_eq_false]
    · simp only [none_, Except.ok.injEq, exists_eq', resolved, false_or, true_iff]
      simpa using none_

theorem mapM_ok_iff {α β : Type} (f : α → Except String β) (items : List α) :
    (∃ results, items.mapM f = .ok results) ↔ ∀ a ∈ items, ∃ b, f a = .ok b := by
  induction items with
  | nil => exact ⟨fun _ => nofun, fun _ => ⟨[], rfl⟩⟩
  | cons a rest ih =>
    rw [List.forall_mem_cons, ← ih]
    simp only [List.mapM_cons]
    constructor
    · rintro ⟨results, done⟩
      cases first : f a with
      | error message => rw [first] at done; cases done
      | ok b =>
        rw [first] at done
        cases later : rest.mapM f with
        | error message => rw [later] at done; cases done
        | ok bs => exact ⟨⟨b, rfl⟩, bs, rfl⟩
    · rintro ⟨⟨b, first⟩, bs, later⟩
      exact ⟨b :: bs, by rw [first, later]; rfl⟩

theorem mem_of_mapM {α β : Type} {f : α → Except String β} {items : List α} {results : List β} (done : items.mapM f = .ok results) {b : β}
    (member : b ∈ results) : ∃ a ∈ items, f a = .ok b := by
  induction items generalizing results with
  | nil =>
    obtain rfl := Except.ok.inj done
    cases member
  | cons a rest ih =>
    rw [List.mapM_cons] at done
    cases first : f a with
    | error message => rw [first] at done; cases done
    | ok c =>
      rw [first] at done
      cases later : rest.mapM f with
      | error message => rw [later] at done; cases done
      | ok cs =>
        rw [later] at done
        obtain rfl := Except.ok.inj done
        rcases List.mem_cons.mp member with rfl | member
        · exact ⟨a, List.mem_cons_self, first⟩
        · obtain ⟨a', listed, here⟩ := ih later member
          exact ⟨a', List.mem_cons_of_mem a listed, here⟩

/-- The components of an expansion, as far as they are not resolved. -/
def builtComponents (env : Env) (db : Db) (expansion : ExpansionResult) (hits : List PrimaryHit) (pit : Instant) :
    Except String (List (Option UnresolvedComponent)) :=
  (classifyContradictsComponents env db expansion.contradictsEdges pit).mapM
    (buildUnresolvedComponent db hits (expansion.expansionCandidates.map (·.entityId)))

def conflictSetsOf (built : List (Option UnresolvedComponent)) : ConflictSetsResult :=
  let unresolved := (built.filterMap id).insertionSort fun a b => a.key ≤ b.key
  let admitted := admitConflictComponents 0 unresolved
  ⟨admitted.1.map fun c => ⟨c.members, c.edges⟩, ⟨contextExpansionContradictsCap, unresolved.length, decide (0 < admitted.2), admitted.2⟩⟩

/-- Without edges there are no components, and the answer is the one for none. -/
theorem assembleConflictSets_eq (expansion : ExpansionResult) :
    assembleConflictSets env db expansion hits pit = (builtComponents env db expansion hits pit).map conflictSetsOf := by
  unfold assembleConflictSets
  by_cases none_ : expansion.contradictsEdges.isEmpty = true
  · rw [if_pos none_, builtComponents, List.isEmpty_iff.mp none_]
    rfl
  · rw [if_neg none_]
    dsimp only
    rw [← builtComponents]
    cases builtComponents env db expansion hits pit with
    | error message => rfl
    | ok built => rfl

theorem assembleConflictSets_ok_iff {expansion : ExpansionResult} :
    (∃ result, assembleConflictSets env db expansion hits pit = .ok result) ↔
      ∀ c ∈ classifyContradictsComponents env db expansion.contradictsEdges pit, c.resolved = true ∨ ∃ hit ∈ hits, hit.id ∈ c.memberIds := by
  have built := mapM_ok_iff (buildUnresolvedComponent db hits (expansion.expansionCandidates.map (·.entityId)))
    (classifyContradictsComponents env db expansion.contradictsEdges pit)
  simp only [buildUnresolvedComponent_ok_iff] at built
  rw [← built, ← builtComponents, assembleConflictSets_eq]
  cases builtComponents env db expansion hits pit with
  | error message => simp [Except.map]
  | ok built => simp [Except.map]

def ConflictSet.conflictOnlyCount (c : ConflictSet) : Nat := c.members.countP (·.inclusion = .conflictOnly)

/-- The memories that are there for a conflict alone. -/
def ConflictSetsResult.conflictOnlyCount (result : ConflictSetsResult) : Nat := (result.conflictSets.map (·.conflictOnlyCount)).sum

theorem conflictMember_conflictOnly {primaryHitIds : List EntityId} {id : EntityId} :
    ((conflictMember db primaryHitIds candidateIds id).inclusion = .conflictOnly) ↔
      (!primaryHitIds.contains id && !candidateIds.contains id) = true := by
  unfold conflictMember
  by_cases primary : primaryHitIds.contains id = true
  · simp only [primary, if_true, Bool.not_true, Bool.false_and, Bool.false_eq_true, reduceCtorEq]
  · by_cases expansion : candidateIds.contains id = true
    · simp only [primary, expansion, if_true, Bool.not_true, Bool.and_false, Bool.false_eq_true, if_false, reduceCtorEq]
    · simp only [primary, expansion, Bool.false_eq_true, if_false, Bool.not_false, Bool.and_self]

/-- The count that the cap is held against is the one of the members. -/
theorem built_count {c : ConflictComponent} {built : UnresolvedComponent} (done : buildUnresolvedComponent db hits candidateIds c = .ok (some built)) :
    (ConflictSet.mk built.members built.edges).conflictOnlyCount = built.conflictOnlyCount := by
  unfold buildUnresolvedComponent at done
  split at done
  · cases Except.ok.inj done
  · dsimp only at done
    split at done
    · cases done
    · obtain rfl := Option.some.inj (Except.ok.inj done)
      simp only [ConflictSet.conflictOnlyCount, List.countP_map, ← List.countP_eq_length_filter]
      rw [(List.perm_insertionSort _ c.memberIds).countP_eq]
      refine List.countP_congr fun id _ => ?_
      simp only [Function.comp_apply, decide_eq_true_eq]
      exact conflictMember_conflictOnly

theorem admit_capped (components : List UnresolvedComponent) (count : Nat) (below : count ≤ contextExpansionContradictsCap) :
    count + ((admitConflictComponents count components).1.map (·.conflictOnlyCount)).sum ≤ contextExpansionContradictsCap := by
  induction components generalizing count with
  | nil => simpa [admitConflictComponents] using below
  | cons c rest ih =>
    unfold admitConflictComponents
    split
    · simpa using below
    · rename_i fits
      have later := ih (count + c.conflictOnlyCount) (Nat.le_of_not_lt fits)
      simp only [List.map_cons, List.sum_cons]
      omega

theorem admit_subset (components : List UnresolvedComponent) (count : Nat) : (admitConflictComponents count components).1 ⊆ components := by
  induction components generalizing count with
  | nil => exact List.Subset.refl _
  | cons c rest ih =>
    unfold admitConflictComponents
    split
    · exact List.nil_subset _
    · exact List.cons_subset_cons c (ih _)

theorem assembleConflictSets_capped {expansion : ExpansionResult} {result : ConflictSetsResult}
    (done : assembleConflictSets env db expansion hits pit = .ok result) : result.conflictOnlyCount ≤ contextExpansionContradictsCap := by
  rw [assembleConflictSets_eq] at done
  cases components : builtComponents env db expansion hits pit with
  | error message => rw [components] at done; cases done
  | ok built =>
    rw [components] at done
    obtain rfl := Except.ok.inj done
    have counts : ∀ c ∈ (admitConflictComponents 0 ((built.filterMap id).insertionSort fun a b => a.key ≤ b.key)).1,
        (ConflictSet.mk c.members c.edges).conflictOnlyCount = c.conflictOnlyCount := by
      intro c member
      have listed := (List.mem_insertionSort _).mp (admit_subset _ _ member)
      obtain ⟨option, listed, rfl⟩ := List.mem_filterMap.mp listed
      obtain ⟨component, _, done⟩ := mem_of_mapM components listed
      exact built_count done
    have capped := admit_capped ((built.filterMap id).insertionSort fun a b => a.key ≤ b.key) 0 (Nat.zero_le _)
    rw [Nat.zero_add] at capped
    simp only [ConflictSetsResult.conflictOnlyCount, conflictSetsOf, List.map_map]
    exact (congrArg List.sum (List.map_congr_left counts)).trans_le capped

end SaltMdb
