import Mathlib.Data.List.Dedup
import Mathlib.Data.List.MinMax
import Mathlib.Data.Prod.Lex
import Mathlib.Data.String.Basic
import Mathlib.Order.WithBot
import SaltMdb.Library.Climb
import SaltMdb.Lineage.Block

/-! The heads that strict searches put in the place of superseded memories: one query for the whole pool, then one walk for
each candidate. -/

namespace SaltMdb
open Climb

/-! ### The query -/

/-- One row of the recursive query. -/
structure ChainRow where
  rootId : EntityId
  currentId : EntityId
  nextId : EntityId
  depth : Nat
deriving DecidableEq, Repr

/-- A `supersedes` edge that is valid at the captured instant. -/
def Relation.supersedesAt (now : Instant) (r : Relation) : Bool := r.predicate == "supersedes" && r.validIn now

def chainSeeds (db : Db) (candidateIds : List EntityId) (now : Instant) : List ChainRow :=
  (db.relations.rows.filter fun r => candidateIds.contains r.targetId && r.supersedesAt now).map fun r =>
    ⟨r.targetId, r.targetId, r.sourceId, 1⟩

def chainHop (db : Db) (now : Instant) (rows : List ChainRow) : List ChainRow :=
  rows.flatMap fun c =>
    (db.relations.rows.filter fun r => r.targetId == c.nextId && r.supersedesAt now).map fun r =>
      ⟨c.rootId, c.nextId, r.sourceId, c.depth + 1⟩

/-- The recursion, level by level: rows of a depth up to the maximum are continued. -/
def chainWalk (db : Db) (now : Instant) : Nat → List ChainRow → List ChainRow
  | 0, rows => rows
  | hops + 1, rows => rows ++ chainWalk db now hops (chainHop db now rows)

/-- `SELECT DISTINCT root_id, current_id, next_id FROM chain`. -/
def supersessionChainRows (db : Db) (candidateIds : List EntityId) (maxDepth : Nat) (now : Instant) :
    List (EntityId × EntityId × EntityId) :=
  ((chainWalk db now maxDepth (chainSeeds db candidateIds now)).map fun c => (c.rootId, c.currentId, c.nextId)).dedup

/-! ### The walk -/

structure SupersessionGraph where
  adjacency : EntityId → List EntityId
  touchedIds : List EntityId
  rootsWithEdges : List EntityId

def buildSupersessionGraph (edgeRows : List (EntityId × EntityId × EntityId)) (candidateIds : List EntityId) : SupersessionGraph where
  adjacency current := (edgeRows.filter (·.2.1 == current)).map (·.2.2)
  touchedIds := candidateIds ++ edgeRows.flatMap fun row => [row.2.1, row.2.2]
  rootsWithEdges := (edgeRows.map (·.1)).dedup

structure SupersessionInfo where
  status : Status
  updatedAt : Instant
  createdAt : Instant
deriving DecidableEq, Repr

def loadSupersessionEntityInfo (db : Db) (touchedIds : List EntityId) (id : EntityId) : Option SupersessionInfo :=
  if touchedIds.contains id then (db.entities.find id).map fun e => ⟨e.status, e.updatedAt, e.createdAt⟩ else none

/-- The timestamps of a memory that is not there are the empty text, before every other. -/
def SupersessionKey := WithBot Instant ×ₗ WithBot Instant ×ₗ String

instance : LinearOrder SupersessionKey :=
  let instants : LinearOrder (WithBot Instant) := @WithBot.linearOrder Int Int.instLinearOrder
  @Prod.Lex.instLinearOrder _ _ instants (@Prod.Lex.instLinearOrder _ _ instants _)

def supersessionSortKey (entityInfo : EntityId → Option SupersessionInfo) (nextId : EntityId) : SupersessionKey :=
  let info := entityInfo nextId
  toLex (info.map (·.updatedAt), toLex (info.map (·.createdAt), nextId))

/-- `max(next_ids, key=…)`, where there is one. -/
def chooseSupersessionSuccessor (nextIds : List EntityId) (entityInfo : EntityId → Option SupersessionInfo) : Option EntityId :=
  nextIds.argmax (supersessionSortKey entityInfo)

inductive ChainOutcome where
  | abstain
  | unchanged
  | head (id : EntityId)
deriving DecidableEq, Repr

/-- The loop of `_walk_supersession_chain`. -/
def walkSupersessionLoop (rootId : EntityId) (adjacency : EntityId → List EntityId) (entityInfo : EntityId → Option SupersessionInfo)
    (maxDepth : Nat) (node : EntityId) (visited : List EntityId) (depth : Nat) : ChainOutcome :=
  match chooseSupersessionSuccessor (adjacency node) entityInfo with
  | none => if node = rootId then .unchanged else .head node
  | some chosen =>
    if depth + 1 > maxDepth then .abstain
    else match entityInfo chosen with
      | none => .abstain
      | some info =>
        if info.status = .archived then .abstain
        else if visited.contains chosen then .abstain
        else walkSupersessionLoop rootId adjacency entityInfo maxDepth chosen (visited ++ [chosen]) (depth + 1)
termination_by maxDepth - depth

def walkSupersessionChain (rootId : EntityId) (adjacency : EntityId → List EntityId)
    (entityInfo : EntityId → Option SupersessionInfo) (maxDepth : Nat) : ChainOutcome :=
  walkSupersessionLoop rootId adjacency entityInfo maxDepth rootId [rootId] 0

/-! ### The head map -/

/-- The heads that the `WHERE` of the search itself selects. -/
def reapplySupersessionFilters (db : Db) (resolved : List (EntityId × EntityId)) (selects : Entity → Bool) : List (EntityId × EntityId) :=
  let heads := resolved.map (·.2)
  let passingHeads := (db.entities.rows.filter fun e => heads.contains e.id && selects e).map (·.id)
  resolved.filter fun entry => passingHeads.contains entry.2

def resolveSupersessionChains (db : Db) (candidateIds : List EntityId) (selects : Entity → Bool) (maxDepth : Nat) (now : Instant) :
    List (EntityId × EntityId) :=
  if candidateIds.isEmpty then []
  else
    let edgeRows := supersessionChainRows db candidateIds maxDepth now
    if edgeRows.isEmpty then []
    else
      let graph := buildSupersessionGraph edgeRows candidateIds
      let entityInfo := loadSupersessionEntityInfo db graph.touchedIds
      let resolved := graph.rootsWithEdges.filterMap fun rootId =>
        match walkSupersessionChain rootId graph.adjacency entityInfo maxDepth with
        | .head id => some (rootId, id)
        | _ => none
      if resolved.isEmpty then [] else reapplySupersessionFilters db resolved selects

/-! ### The walk of one candidate -/

/-- The newer memory of a valid edge. -/
def Supersedes (db : Db) (now : Instant) (id newer : EntityId) : Prop :=
  ∃ r ∈ db.relations.rows, r.supersedesAt now = true ∧ r.targetId = id ∧ r.sourceId = newer

/-- Whatever is known of a memory, as the sort key reads it. -/
def Db.info (db : Db) (id : EntityId) : Option SupersessionInfo :=
  (db.entities.find id).map fun e => ⟨e.status, e.updatedAt, e.createdAt⟩

/-- The greatest of the memories that supersede one, by `updated_at`, `created_at` and id. -/
def Successor (db : Db) (now : Instant) (id chosen : EntityId) : Prop :=
  Supersedes db now id chosen ∧ ∀ other, Supersedes db now id other → supersessionSortKey db.info other ≤ supersessionSortKey db.info chosen

def Db.Live (db : Db) (id : EntityId) : Prop := ∃ e, db.entities.find id = some e ∧ e.status ≠ .archived

/-- The walk from a candidate ends at another memory, within so many hops and over live memories alone. -/
def SupersessionHead (db : Db) (now : Instant) (maxDepth : Nat) (candidate head : EntityId) : Prop :=
  ∃ path, Climbs (Successor db now) db.Live candidate path head ∧ path ≠ [] ∧ path.length ≤ maxDepth

/-! ### What the query lists -/

variable {db : Db} {now : Instant} {maxDepth : Nat} {candidateIds : List EntityId} {selects : Entity → Bool}

/-- So many edges lead from one memory to the other. -/
inductive SupersededIn (db : Db) (now : Instant) (root : EntityId) : Nat → EntityId → Prop
  | start : SupersededIn db now root 0 root
  | next {k : Nat} {id newer : EntityId} (earlier : SupersededIn db now root k id) (edge : Supersedes db now id newer) :
      SupersededIn db now root (k + 1) newer

theorem mem_chainLevel {k : Nat} {c : ChainRow} : c ∈ (chainHop db now)^[k] (chainSeeds db candidateIds now) ↔
    c.rootId ∈ candidateIds ∧ c.depth = k + 1 ∧ SupersededIn db now c.rootId k c.currentId ∧ Supersedes db now c.currentId c.nextId := by
  induction k generalizing c with
  | zero =>
    simp only [Function.iterate_zero, id_eq, chainSeeds, List.mem_map, List.mem_filter, Bool.and_eq_true, List.contains_iff_mem]
    constructor
    · rintro ⟨r, ⟨listed, inPool, valid⟩, rfl⟩
      exact ⟨inPool, rfl, .start, r, listed, valid, rfl, rfl⟩
    · rintro ⟨inPool, depth, reached, r, listed, valid, target, source⟩
      obtain ⟨root, current, next, d⟩ := c
      cases reached
      dsimp only at target source depth inPool
      subst target source depth
      exact ⟨r, ⟨listed, inPool, valid⟩, rfl⟩
  | succ k ih =>
    rw [Function.iterate_succ_apply']
    simp only [chainHop, List.mem_flatMap, List.mem_map, List.mem_filter, Bool.and_eq_true, beq_iff_eq]
    constructor
    · rintro ⟨p, member, r, ⟨listed, target, valid⟩, rfl⟩
      obtain ⟨inPool, depth, reached, edge⟩ := ih.mp member
      exact ⟨inPool, congrArg (· + 1) depth, .next reached edge, r, listed, valid, target, rfl⟩
    · rintro ⟨inPool, depth, reached, r, listed, valid, target, source⟩
      obtain ⟨root, current, next, d⟩ := c
      cases reached with
      | @next _ id _ earlier edge =>
        dsimp only at target source depth inPool edge
        subst source depth
        exact ⟨⟨root, id, current, k + 1⟩, ih.mpr ⟨inPool, rfl, earlier, edge⟩, r, ⟨listed, target, valid⟩, rfl⟩

theorem mem_supersessionChainRows {root current next : EntityId} :
    (root, current, next) ∈ supersessionChainRows db candidateIds maxDepth now ↔
      root ∈ candidateIds ∧ (∃ k ≤ maxDepth, SupersededIn db now root k current) ∧ Supersedes db now current next := by
  simp only [supersessionChainRows, List.mem_dedup, List.mem_map, Prod.mk.injEq,
    mem_levels (fun rows => rfl) (fun n rows => rfl : ∀ n rows, chainWalk db now (n + 1) rows = _)]
  constructor
  · rintro ⟨c, ⟨k, bound, level⟩, rfl, rfl, rfl⟩
    obtain ⟨inPool, _, reached, edge⟩ := mem_chainLevel.mp level
    exact ⟨inPool, ⟨k, bound, reached⟩, edge⟩
  · rintro ⟨inPool, ⟨k, bound, reached⟩, edge⟩
    exact ⟨⟨root, current, next, k + 1⟩, ⟨k, bound, mem_chainLevel.mpr ⟨inPool, rfl, reached, edge⟩⟩, rfl, rfl, rfl⟩

/-! ### The successor that is chosen -/

theorem supersessionSortKey_inj {entityInfo : EntityId → Option SupersessionInfo} {a b : EntityId}
    (same : supersessionSortKey entityInfo a = supersessionSortKey entityInfo b) : a = b :=
  (Prod.mk.inj (Prod.mk.inj same).2).2

theorem chooseSupersessionSuccessor_iff {nextIds : List EntityId} {entityInfo : EntityId → Option SupersessionInfo} {chosen : EntityId} :
    chooseSupersessionSuccessor nextIds entityInfo = some chosen ↔ chosen ∈ nextIds ∧
      ∀ other ∈ nextIds, supersessionSortKey entityInfo other ≤ supersessionSortKey entityInfo chosen := by
  unfold chooseSupersessionSuccessor
  rw [← Option.mem_def, List.mem_argmax_iff, ← and_assoc, and_iff_left_of_imp]
  rintro ⟨_, greatest⟩ other member above
  rw [supersessionSortKey_inj (le_antisymm above (greatest other member))]

theorem Successor.unique {id chosen other : EntityId} (one : Successor db now id chosen) (two : Successor db now id other) :
    chosen = other :=
  supersessionSortKey_inj (le_antisymm (two.2 _ one.1) (one.2 _ two.1))

/-! ### The loop -/

section
variable {rootId node head : EntityId} {adjacency : EntityId → List EntityId} {entityInfo : EntityId → Option SupersessionInfo}

/-- The walk over what was loaded. -/
abbrev LoadedClimbs (adjacency : EntityId → List EntityId) (entityInfo : EntityId → Option SupersessionInfo) :
    EntityId → List EntityId → EntityId → Prop :=
  Climbs (fun id chosen => chooseSupersessionSuccessor (adjacency id) entityInfo = some chosen)
    fun id => ∃ info, entityInfo id = some info ∧ info.status ≠ .archived

theorem loaded_single {id chosen other : EntityId} (one : chooseSupersessionSuccessor (adjacency id) entityInfo = some chosen)
    (two : chooseSupersessionSuccessor (adjacency id) entityInfo = some other) : chosen = other :=
  Option.some.inj (one.symm.trans two)

theorem loadedClimbs_chosen {chosen : EntityId} (chose : chooseSupersessionSuccessor (adjacency node) entityInfo = some chosen)
    {path : List EntityId} : LoadedClimbs adjacency entityInfo node path head ↔
      ∃ rest, path = chosen :: rest ∧ (∃ info, entityInfo chosen = some info ∧ info.status ≠ .archived) ∧
        LoadedClimbs adjacency entityInfo chosen rest head := by
  cases path with
  | nil => simp [Climbs.nil_iff, chose]
  | cons y path =>
    unfold LoadedClimbs
    rw [Climbs.cons_iff, chose, Option.some.injEq]
    constructor
    · rintro ⟨rfl, admitted, later⟩
      exact ⟨path, rfl, admitted, later⟩
    · rintro ⟨rest, same, admitted, later⟩
      obtain ⟨rfl, rfl⟩ := List.cons.inj same
      exact ⟨rfl, admitted, later⟩

theorem loadedClimbs_ends {path : List EntityId} (ends : chooseSupersessionSuccessor (adjacency node) entityInfo = none) :
    LoadedClimbs adjacency entityInfo node path head ↔ path = [] ∧ head = node := by
  cases path with
  | nil => simp [Climbs.nil_iff, ends]
  | cons y path => simp [Climbs.cons_iff, ends]

theorem walkSupersessionLoop_head {visited : List EntityId} {depth : Nat} (shallow : depth ≤ maxDepth) :
    walkSupersessionLoop rootId adjacency entityInfo maxDepth node visited depth = .head head ↔
      head ≠ rootId ∧ ∃ path, LoadedClimbs adjacency entityInfo node path head ∧ depth + path.length ≤ maxDepth ∧
        ∀ id ∈ path, id ∉ visited := by
  fun_induction walkSupersessionLoop rootId adjacency entityInfo maxDepth node visited depth with
  | case1 visited depth ends =>
    simp only [loadedClimbs_ends ends, reduceCtorEq, false_iff, not_and]
    rintro away ⟨_, ⟨_, home⟩, _⟩
    exact away home
  | case2 node visited depth ends away =>
    simp only [loadedClimbs_ends ends, ChainOutcome.head.injEq]
    constructor
    · rintro rfl
      exact ⟨away, [], ⟨rfl, rfl⟩, by simpa using shallow, by simp⟩
    · rintro ⟨_, _, ⟨_, rfl⟩, _⟩
      rfl
  | case3 node visited depth chosen chose deep =>
    simp only [loadedClimbs_chosen chose, reduceCtorEq, false_iff, not_and]
    rintro _ ⟨_, ⟨rest, rfl, _⟩, short, _⟩
    rw [List.length_cons] at short
    omega
  | case4 node visited depth chosen chose deep gone =>
    simp [loadedClimbs_chosen chose, gone]
  | case5 node visited depth chosen chose deep info known archived =>
    simp [loadedClimbs_chosen chose, known, archived]
  | case6 node visited depth chosen chose deep info known live again =>
    simp only [loadedClimbs_chosen chose, reduceCtorEq, false_iff, not_and]
    rintro _ ⟨_, ⟨rest, rfl, _⟩, _, fresh⟩
    exact fresh chosen List.mem_cons_self (List.contains_iff_mem.mp again)
  | case7 node visited depth chosen chose deep info known live fresh ih =>
    rw [ih (by omega)]
    simp only [loadedClimbs_chosen chose]
    refine and_congr_right fun _ => ⟨?_, ?_⟩
    · rintro ⟨rest, climbs, short, apart⟩
      refine ⟨_, ⟨rest, rfl, ⟨info, known, live⟩, climbs⟩, ?_, ?_⟩
      · rw [List.length_cons]
        omega
      · intro id member
        rcases List.mem_cons.mp member with rfl | later
        · simpa using fresh
        · exact fun old => apart id later (List.mem_append_left _ old)
    · rintro ⟨_, ⟨rest, rfl, _, climbs⟩, short, apart⟩
      refine ⟨rest, climbs, ?_, fun id later => ?_⟩
      · rw [List.length_cons] at short
        omega
      · rw [List.mem_append, List.mem_singleton]
        rintro (old | rfl)
        · exact apart id (List.mem_cons_of_mem _ later) old
        · exact climbs.not_mem (fun _ _ _ => loaded_single) later

/-- Of the candidate itself nothing was visited yet, and a walk that ends passes it no more. -/
theorem walkSupersessionChain_head : walkSupersessionChain rootId adjacency entityInfo maxDepth = .head head ↔
    ∃ path, LoadedClimbs adjacency entityInfo rootId path head ∧ path ≠ [] ∧ path.length ≤ maxDepth := by
  unfold walkSupersessionChain
  rw [walkSupersessionLoop_head (Nat.zero_le _)]
  have single : ∀ id chosen other, chooseSupersessionSuccessor (adjacency id) entityInfo = some chosen →
      chooseSupersessionSuccessor (adjacency id) entityInfo = some other → chosen = other := fun _ _ _ => loaded_single
  constructor
  · rintro ⟨away, path, climbs, short, -⟩
    exact ⟨path, climbs, (climbs.end_ne_iff single).mp away, by simpa using short⟩
  · rintro ⟨path, climbs, some_, short⟩
    refine ⟨(climbs.end_ne_iff single).mpr some_, path, climbs, by simpa using short, fun id member => ?_⟩
    rw [List.mem_singleton]
    rintro rfl
    exact climbs.not_mem single member

end

/-! ### Loading the graph of a whole pool -/

section
variable {rootId id next : EntityId} {k : Nat}

abbrev loadedGraph (db : Db) (candidateIds : List EntityId) (maxDepth : Nat) (now : Instant) : SupersessionGraph :=
  buildSupersessionGraph (supersessionChainRows db candidateIds maxDepth now) candidateIds

/-- Wherever a candidate gets to within the depth, every edge onwards was loaded, whichever candidate it was loaded for. -/
theorem mem_adjacency (inPool : rootId ∈ candidateIds) (reached : SupersededIn db now rootId k id) (bound : k ≤ maxDepth) :
    next ∈ (loadedGraph db candidateIds maxDepth now).adjacency id ↔ Supersedes db now id next := by
  simp only [buildSupersessionGraph, List.mem_map, List.mem_filter, beq_iff_eq]
  constructor
  · rintro ⟨⟨_, _, _⟩, ⟨listed, rfl⟩, rfl⟩
    exact (mem_supersessionChainRows.mp listed).2.2
  · intro edge
    exact ⟨(rootId, id, next), ⟨mem_supersessionChainRows.mpr ⟨inPool, ⟨k, bound, reached⟩, edge⟩, rfl⟩, rfl⟩

theorem loaded_info (listed : next ∈ (loadedGraph db candidateIds maxDepth now).adjacency id) :
    loadSupersessionEntityInfo db (loadedGraph db candidateIds maxDepth now).touchedIds next = db.info next := by
  unfold loadSupersessionEntityInfo
  simp only [buildSupersessionGraph, List.mem_map, List.mem_filter] at listed
  obtain ⟨row, ⟨member, _⟩, rfl⟩ := listed
  refine if_pos (List.contains_iff_mem.mpr (List.mem_append_right _ (List.mem_flatMap.mpr ⟨row, member, ?_⟩)))
  exact List.mem_cons_of_mem _ List.mem_cons_self

theorem loaded_successor (inPool : rootId ∈ candidateIds) (reached : SupersededIn db now rootId k id) (bound : k ≤ maxDepth) :
    chooseSupersessionSuccessor ((loadedGraph db candidateIds maxDepth now).adjacency id)
        (loadSupersessionEntityInfo db (loadedGraph db candidateIds maxDepth now).touchedIds) = some next ↔
      Successor db now id next := by
  have key : ∀ other ∈ (loadedGraph db candidateIds maxDepth now).adjacency id,
      supersessionSortKey (loadSupersessionEntityInfo db (loadedGraph db candidateIds maxDepth now).touchedIds) other =
        supersessionSortKey db.info other := by
    intro other listed
    unfold supersessionSortKey
    rw [loaded_info listed]
  rw [chooseSupersessionSuccessor_iff, Successor, mem_adjacency inPool reached bound]
  refine and_congr_right fun edge => forall_congr' fun other => ?_
  rw [mem_adjacency inPool reached bound]
  refine forall_congr' fun edge' => ?_
  rw [key other ((mem_adjacency inPool reached bound).mpr edge'), key next ((mem_adjacency inPool reached bound).mpr edge)]

theorem loaded_live (listed : next ∈ (loadedGraph db candidateIds maxDepth now).adjacency id) :
    (∃ info, loadSupersessionEntityInfo db (loadedGraph db candidateIds maxDepth now).touchedIds next = some info ∧
      info.status ≠ .archived) ↔ db.Live next := by
  rw [loaded_info listed, Db.info, Db.Live]
  cases db.entities.find next <;> simp

/-- What else was loaded makes no difference to the walk of a candidate. -/
theorem loadedClimbs_iff {head : EntityId} {path : List EntityId} (inPool : rootId ∈ candidateIds) (short : path.length ≤ maxDepth) :
    LoadedClimbs (loadedGraph db candidateIds maxDepth now).adjacency
        (loadSupersessionEntityInfo db (loadedGraph db candidateIds maxDepth now).touchedIds) rootId path head ↔
      Climbs (Successor db now) db.Live rootId path head := by
  refine Climbs.congr (SupersededIn db now rootId) maxDepth ?_ ?_ ?_ .start (by omega)
  · exact fun bound reached next => loaded_successor inPool reached bound
  · intro k id next bound reached chose
    exact loaded_live ((mem_adjacency inPool reached bound).mpr ((loaded_successor inPool reached bound).mp chose).1)
  · exact fun bound reached chose => .next reached ((loaded_successor inPool reached bound).mp chose).1

theorem walkSupersessionChain_loaded {head : EntityId} (inPool : rootId ∈ candidateIds) :
    walkSupersessionChain rootId (loadedGraph db candidateIds maxDepth now).adjacency
        (loadSupersessionEntityInfo db (loadedGraph db candidateIds maxDepth now).touchedIds) maxDepth = .head head ↔
      SupersessionHead db now maxDepth rootId head := by
  rw [walkSupersessionChain_head]
  refine exists_congr fun path => ?_
  constructor
  · rintro ⟨climbs, some_, short⟩
    exact ⟨(loadedClimbs_iff inPool short).mp climbs, some_, short⟩
  · rintro ⟨climbs, some_, short⟩
    exact ⟨(loadedClimbs_iff inPool short).mpr climbs, some_, short⟩

end

/-! ### The map -/

theorem SupersessionHead.unique {candidate head other : EntityId} (one : SupersessionHead db now maxDepth candidate head)
    (two : SupersessionHead db now maxDepth candidate other) : head = other := by
  obtain ⟨_, climbs, _, _⟩ := one
  obtain ⟨_, climbs', _, _⟩ := two
  exact (climbs.unique (fun _ _ _ one two => one.unique two) climbs').2

/-- A candidate that has a head is the root of an edge. -/
theorem SupersessionHead.superseded {candidate head : EntityId} (headed : SupersessionHead db now maxDepth candidate head) :
    ∃ newer, Supersedes db now candidate newer := by
  obtain ⟨path, climbs, some_, _⟩ := headed
  cases climbs with
  | top => exact absurd rfl some_
  | up next => exact ⟨_, next.1⟩

theorem mem_reapplySupersessionFilters {resolved : List (EntityId × EntityId)} {candidate head : EntityId} :
    (candidate, head) ∈ reapplySupersessionFilters db resolved selects ↔
      (candidate, head) ∈ resolved ∧ ∃ e, db.entities.find head = some e ∧ selects e = true := by
  simp only [reapplySupersessionFilters, List.mem_filter, List.contains_iff_mem, List.mem_map, Bool.and_eq_true, EntityTable.find_iff]
  refine and_congr_right fun member => ⟨?_, ?_⟩
  · rintro ⟨e, ⟨listed, _, selected⟩, same⟩
    exact ⟨e, ⟨listed, same⟩, selected⟩
  · rintro ⟨e, ⟨listed, same⟩, selected⟩
    exact ⟨e, ⟨listed, ⟨_, member, same.symm⟩, selected⟩, same⟩

theorem mem_resolveSupersessionChains {candidate head : EntityId} :
    (candidate, head) ∈ resolveSupersessionChains db candidateIds selects maxDepth now ↔
      candidate ∈ candidateIds ∧ SupersessionHead db now maxDepth candidate head ∧
        ∃ e, db.entities.find head = some e ∧ selects e = true := by
  have rooted : candidate ∈ candidateIds → SupersessionHead db now maxDepth candidate head →
      ∃ newer, (candidate, candidate, newer) ∈ supersessionChainRows db candidateIds maxDepth now := by
    intro inPool headed
    obtain ⟨newer, edge⟩ := headed.superseded
    exact ⟨newer, mem_supersessionChainRows.mpr ⟨inPool, ⟨0, Nat.zero_le _, .start⟩, edge⟩⟩
  have resolved : ∀ resolved, (loadedGraph db candidateIds maxDepth now).rootsWithEdges.filterMap (fun rootId =>
        match walkSupersessionChain rootId (loadedGraph db candidateIds maxDepth now).adjacency
          (loadSupersessionEntityInfo db (loadedGraph db candidateIds maxDepth now).touchedIds) maxDepth with
        | .head id => some (rootId, id)
        | _ => none) = resolved →
      ((candidate, head) ∈ resolved ↔ candidate ∈ candidateIds ∧ SupersessionHead db now maxDepth candidate head) := by
    rintro _ rfl
    rw [List.mem_filterMap]
    constructor
    · rintro ⟨rootId, listed, outcome⟩
      obtain ⟨row, member, rfl⟩ := List.mem_map.mp (List.mem_dedup.mp listed)
      have inPool := (mem_supersessionChainRows.mp member).1
      split at outcome
      · rename_i walked
        obtain ⟨rfl, rfl⟩ := Prod.mk.inj (Option.some.inj outcome)
        exact ⟨inPool, (walkSupersessionChain_loaded inPool).mp walked⟩
      · simp at outcome
    · rintro ⟨inPool, headed⟩
      obtain ⟨newer, listed⟩ := rooted inPool headed
      refine ⟨candidate, List.mem_dedup.mpr (List.mem_map.mpr ⟨_, listed, rfl⟩), ?_⟩
      rw [(walkSupersessionChain_loaded inPool).mpr headed]
  unfold resolveSupersessionChains
  split
  · rename_i empty
    simp [List.isEmpty_iff.mp empty]
  · dsimp only
    split
    · rename_i empty
      simp only [List.not_mem_nil, false_iff, not_and]
      intro inPool headed
      obtain ⟨newer, listed⟩ := rooted inPool headed
      rw [List.isEmpty_iff.mp empty] at listed
      simp at listed
    · split
      · rename_i empty
        have none_ := resolved _ (List.isEmpty_iff.mp empty)
        simp only [List.not_mem_nil, false_iff] at none_ ⊢
        exact fun all => none_ ⟨all.1, all.2.1⟩
      · rw [mem_reapplySupersessionFilters, resolved _ rfl, and_assoc]

theorem lookup_iff {entries : List (EntityId × EntityId)} {key value : EntityId}
    (single : ∀ v v', (key, v) ∈ entries → (key, v') ∈ entries → v = v') : entries.lookup key = some value ↔ (key, value) ∈ entries := by
  have listed : ∀ v, entries.lookup key = some v → (key, v) ∈ entries := by
    intro v found
    obtain ⟨before, after, rfl, _⟩ := List.lookup_eq_some_iff.mp found
    exact List.mem_append_right _ List.mem_cons_self
  constructor
  · exact listed value
  · intro member
    cases found : entries.lookup key with
    | none =>
      have other := List.lookup_eq_none_iff.mp found _ member
      simp at other
    | some v => rw [single v value (listed v found) member]

/-- The map gives each candidate the head that its own walk ends at, if the search selects it. -/
theorem resolveSupersessionChains_walks (db : Db) (candidateIds : List EntityId) (selects : Entity → Bool) (maxDepth : Nat)
    (now : Instant) (candidate head : EntityId) :
    (resolveSupersessionChains db candidateIds selects maxDepth now).lookup candidate = some head ↔
      candidate ∈ candidateIds ∧ SupersessionHead db now maxDepth candidate head ∧
        ∃ e, db.entities.find head = some e ∧ selects e = true := by
  rw [lookup_iff, mem_resolveSupersessionChains]
  intro v v' one two
  exact (mem_resolveSupersessionChains.mp one).2.1.unique (mem_resolveSupersessionChains.mp two).2.1

/-- Two pools agree on the candidates they share. -/
theorem resolveSupersessionChains_alone {candidate : EntityId} (inPool : candidate ∈ candidateIds) :
    (resolveSupersessionChains db candidateIds selects maxDepth now).lookup candidate =
      (resolveSupersessionChains db [candidate] selects maxDepth now).lookup candidate := by
  refine Option.ext fun head => ?_
  rw [resolveSupersessionChains_walks, resolveSupersessionChains_walks]
  exact and_congr_left' (iff_of_true inPool List.mem_cons_self)

/-! ### An archived memory between two others -/

/-- "newest" replaces an archived memory that replaces "oldest". -/
def replacedDb : Db :=
  { chainDb .shared with
    entities := ⟨[memoryRow "newest" "Newest" "now", { memoryRow "between" "Between" "then" with status := .archived },
      memoryRow "oldest" "Oldest" "once"], by decide⟩ }

theorem replacedDb_supersedes {id newer : EntityId} : Supersedes replacedDb 0 id newer ↔
    id = "between" ∧ newer = "newest" ∨ id = "oldest" ∧ newer = "between" := by
  have rows : replacedDb.relations.rows = [(supersedesDraft "newest" "between").row 0, (supersedesDraft "between" "oldest").row 1] := rfl
  have valid : ∀ r ∈ replacedDb.relations.rows, r.supersedesAt 0 = true := by decide
  constructor
  · rintro ⟨r, listed, _, rfl, rfl⟩
    rw [rows] at listed
    rcases List.mem_pair.mp listed with rfl | rfl
    · exact .inl ⟨rfl, rfl⟩
    · exact .inr ⟨rfl, rfl⟩
  · rintro (⟨rfl, rfl⟩ | ⟨rfl, rfl⟩)
    · exact ⟨_, List.mem_cons_self, valid _ List.mem_cons_self, rfl, rfl⟩
    · exact ⟨_, List.mem_cons_of_mem _ List.mem_cons_self, valid _ (List.mem_cons_of_mem _ List.mem_cons_self), rfl, rfl⟩

theorem replacedDb_successor {id newer : EntityId} : Successor replacedDb 0 id newer ↔
    id = "between" ∧ newer = "newest" ∨ id = "oldest" ∧ newer = "between" := by
  rw [Successor, replacedDb_supersedes]
  refine and_iff_left_of_imp fun edge other edge' => ?_
  have same : other = newer := by
    rw [replacedDb_supersedes] at edge'
    rcases edge with ⟨rfl, rfl⟩ | ⟨rfl, rfl⟩ <;> simpa using edge'
  rw [same]

/-- The memory between abstains although the head is live. -/
theorem archivedBetween_abstains : ¬ ∀ (db : Db) (candidateIds : List EntityId) (selects : Entity → Bool) (maxDepth : Nat)
    (now : Instant) (candidate head : EntityId),
    (resolveSupersessionChains db candidateIds selects maxDepth now).lookup candidate = some head ↔
      candidate ∈ candidateIds ∧ (∃ path, Climbs (Successor db now) (fun _ => True) candidate path head ∧ path ≠ [] ∧
        path.length ≤ maxDepth) ∧ db.Live head ∧ ∃ e, db.entities.find head = some e ∧ selects e = true := by
  intro always
  have walked : Climbs (Successor replacedDb 0) (fun _ => True) "oldest" ["between", "newest"] "newest" := by
    refine .up (replacedDb_successor.mpr (.inr ⟨rfl, rfl⟩)) trivial (.up (replacedDb_successor.mpr (.inl ⟨rfl, rfl⟩)) trivial (.top ?_))
    intro other next
    rw [replacedDb_successor] at next
    simp at next
  have live : replacedDb.Live "newest" := ⟨_, rfl, by decide⟩
  have headed := (always replacedDb ["oldest"] (fun _ => true) 10 0 "oldest" "newest").mpr
    ⟨List.mem_cons_self, ⟨_, walked, by simp, by decide⟩, live, _, rfl, rfl⟩
  obtain ⟨before, after, same, _⟩ := List.lookup_eq_some_iff.mp headed
  have listed : ("oldest", "newest") ∈ resolveSupersessionChains replacedDb ["oldest"] (fun _ => true) 10 0 := by
    rw [same]
    exact List.mem_append_right _ List.mem_cons_self
  obtain ⟨_, ⟨path, climbs, some_, _⟩, _⟩ := mem_resolveSupersessionChains.mp listed
  cases path with
  | nil => exact some_ rfl
  | cons y rest =>
    obtain ⟨next, admitted, _⟩ := Climbs.cons_iff.mp climbs
    rw [replacedDb_successor] at next
    obtain ⟨e, found, alive⟩ : replacedDb.Live "between" := by
      rcases next with ⟨wrong, _⟩ | ⟨_, rfl⟩
      · simp at wrong
      · exact admitted
    obtain rfl : { memoryRow "between" "Between" "then" with status := .archived } = e := Option.some.inj found
    exact alive rfl

end SaltMdb
