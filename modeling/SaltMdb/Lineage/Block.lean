import Mathlib.Data.Nat.Find
import SaltMdb.Entity.Visible
import SaltMdb.Lineage.Depth

/-! The lineage block of `get_memory` beside `get_lineage`: the one walks every edge and hides memories afterwards, the
other walks no edge that an agent cannot see. -/

namespace SaltMdb

variable (env : Env)

def canReadEntity (db : Db) (agentId : Option String) (entityId : EntityId) : Bool :=
  agentId.isNone || (db.entities.find entityId).any (visibleTo agentId)

/-- One direction of `_memory_lineage`. -/
def memoryLineage (db : Db) (entityId : EntityId) (direction : LineageDirection) (maxDepth : Nat) (pit : Instant)
    (agentId : Option String) : List LineageNode :=
  match getLineage env db entityId direction maxDepth pit none with
  | .error _ => []
  | .ok result => result.nodes.filter fun n => n.id != entityId && canReadEntity db agentId n.id

structure MemoryLineage where
  ancestors : List LineageNode
  descendants : List LineageNode

def MemoryLineage.nodes (lineage : MemoryLineage) : LineageDirection → List LineageNode
  | .ancestors => lineage.ancestors
  | .descendants => lineage.descendants

/-- The `lineage` field of `get_memory`, where the memory is returned. -/
def getMemoryLineage (db : Db) (entityId : String) (maxDepth : Nat) (pit : Instant) (agentId : Option String) :
    Option MemoryLineage :=
  if Text.strip entityId = "" then none
  else
    let found := resolveEntityRef env db entityId agentId
    if !found.candidates.isEmpty then none
    else match found.resolved with
      | none => none
      | some id =>
        if canReadEntity db agentId id then
          some ⟨memoryLineage env db id .ancestors maxDepth pit agentId, memoryLineage env db id .descendants maxDepth pit agentId⟩
        else none

variable {env : Env} {db : Db} {direction : LineageDirection} {pit : Instant} {agentId : Option String} {root : EntityId}
  {maxDepth : Nat}

/-- The memory is among the nodes, at that depth. -/
def Lists (nodes : List LineageNode) (id : EntityId) (depth : Nat) : Prop := ∃ n ∈ nodes, n.id = id ∧ n.depth = depth

theorem getLineage_lists {ref : String} (resolved : (resolveEntityRef env db ref agentId).resolved = some root) :
    ∃ result, getLineage env db ref direction maxDepth pit agentId = .ok result ∧ ∀ id depth, Lists result.nodes id depth ↔
      id = root ∧ depth = 0 ∨ id ≠ root ∧ Shortest db direction pit agentId root maxDepth id depth := by
  have named : ref ≠ "" := by
    rintro rfl
    simp [resolveEntityRef] at resolved
  unfold getLineage
  rw [if_neg named, resolved]
  dsimp only
  by_cases shallow : maxDepth = 0
  · rw [if_pos shallow]
    refine ⟨_, rfl, fun id depth => ?_⟩
    have none_ : ¬ Shortest db direction pit agentId root maxDepth id depth := by
      intro nearest
      have pos := nearest.reached.pos
      have within := nearest.within
      omega
    simp [Lists, lineageResult, lineageNode_id, lineageNode_depth, none_, eq_comm]
  · rw [if_neg shallow]
    exact ⟨_, rfl, fun id depth => lineageResult_nodes (Nat.one_le_iff_ne_zero.mpr shallow)⟩

/-! ### Reading -/

theorem HopsTo.canRead {k : Nat} {id : EntityId} (hops : HopsTo db direction pit agentId root k id) :
    canReadEntity db agentId id = true := by
  have seen : ∀ {from_ : EntityId} {r : Relation}, r ∈ lineageStep db direction pit agentId from_ →
      canReadEntity db agentId (direction.reached r) = true := by
    intro from_ r step
    obtain ⟨_, _, _, _, visible⟩ := lineageStep_mem.mp step
    unfold canReadEntity
    cases agentId with
    | none => rfl
    | some agent =>
      unfold Relation.visibleTo at visible
      rw [Bool.and_eq_true] at visible
      cases direction with
      | ancestors => exact visible.2
      | descendants => exact visible.1
  obtain ⟨path, trail⟩ := hops
  cases trail with
  | seed step => exact seen step
  | hop _ step _ => exact seen step

theorem HopsTo.nearest {k : Nat} {id : EntityId} (hops : HopsTo db direction pit agentId root k id) (bound : k ≤ maxDepth) :
    ∃ depth ≤ k, Shortest db direction pit agentId root maxDepth id depth := by
  classical
  have some_ : ∃ k, HopsTo db direction pit agentId root k id := ⟨k, hops⟩
  have least := fun j (other : HopsTo db direction pit agentId root j id) => Nat.find_min' some_ other
  exact ⟨Nat.find some_, least k hops, (least k hops).trans bound, Nat.find_spec some_, least⟩

theorem Shortest.pos {id : EntityId} {depth : Nat} (nearest : Shortest db direction pit agentId root maxDepth id depth) : 1 ≤ depth :=
  nearest.reached.pos

/-- A path leaves where it starts. -/
theorem Trail.leaves {k : Nat} {id : EntityId} {path : String} (trail : Trail db direction pit agentId root k id path) :
    ∃ r, r ∈ lineageStep db direction pit agentId root := by
  induction trail with
  | seed step => exact ⟨_, step⟩
  | hop _ _ _ ih => exact ih

/-- Where the block's own walk starts: what the id of the memory resolves to without an agent. -/
def lineageStart (env : Env) (db : Db) (entityId : EntityId) : Option EntityId := (resolveEntityRef env db entityId none).resolved

theorem memoryLineage_lists {id : EntityId} {depth : Nat} : Lists (memoryLineage env db root direction maxDepth pit agentId) id depth ↔
    ∃ start ∈ lineageStart env db root, id ≠ root ∧ canReadEntity db agentId id = true ∧
      (id = start ∧ depth = 0 ∨ id ≠ start ∧ Shortest db direction pit none start maxDepth id depth) := by
  unfold memoryLineage lineageStart
  cases resolved : (resolveEntityRef env db root none).resolved with
  | none =>
    have refused : ∃ text, getLineage env db root direction maxDepth pit none = .error text := by
      unfold getLineage
      split
      · exact ⟨_, rfl⟩
      · rw [resolved]
        exact ⟨_, rfl⟩
    obtain ⟨text, refused⟩ := refused
    rw [refused]
    simp [Lists]
  | some start =>
    obtain ⟨result, answered, lists⟩ := getLineage_lists resolved
    rw [answered]
    simp only [Option.mem_def, Option.some.injEq, exists_eq_left']
    rw [← lists]
    unfold Lists
    simp only [List.mem_filter, Bool.and_eq_true, bne_iff_ne]
    constructor
    · rintro ⟨n, ⟨member, other, read⟩, rfl, rfl⟩
      exact ⟨other, read, n, member, rfl, rfl⟩
    · rintro ⟨other, read, n, member, rfl, rfl⟩
      exact ⟨n, ⟨member, other, read⟩, rfl, rfl⟩

/-- The memory is found under its own id, or what is found instead is hidden from the agent; and what the agent can read
within some hops of it is within as many hops that the agent can see. -/
structure Unscreened (env : Env) (db : Db) (direction : LineageDirection) (maxDepth : Nat) (pit : Instant)
    (agentId : Option String) (root : EntityId) : Prop where
  found : ∀ start ∈ lineageStart env db root, start = root ∨ canReadEntity db agentId start = false
  hops : ∀ id, id ≠ root → canReadEntity db agentId id = true → ∀ k ≤ maxDepth,
    (∃ j ≤ k, ∃ start ∈ lineageStart env db root, HopsTo db direction pit none start j id) ↔
      ∃ j ≤ k, HopsTo db direction pit agentId root j id

/-- Of a memory that is found under its own id: whatever the agent can read is as near through memories it can see. -/
theorem unscreened_iff (own : lineageStart env db root = some root) : Unscreened env db direction maxDepth pit agentId root ↔
    ∀ id, id ≠ root → canReadEntity db agentId id = true → ∀ k ≤ maxDepth, HopsTo db direction pit none root k id →
      ∃ j ≤ k, HopsTo db direction pit agentId root j id := by
  constructor
  · intro unscreened id other read k bound hops
    exact (unscreened.hops id other read k bound).mp ⟨k, Nat.le_refl k, root, own, hops⟩
  · intro near
    refine ⟨fun start found => ?_, fun id other read k bound => ⟨?_, ?_⟩⟩
    · rw [own] at found
      exact .inl (Option.some.inj found).symm
    · rintro ⟨j, below, start, found, hops⟩
      rw [own] at found
      obtain rfl := Option.some.inj found
      obtain ⟨i, less, seen⟩ := near id other read j (below.trans bound) hops
      exact ⟨i, less.trans below, seen⟩
    · rintro ⟨j, below, path, trail⟩
      exact ⟨j, below, root, own, path, trail.unscreened⟩

/-- An id without spaces around it is found as itself. -/
theorem lineageStart_own {e : Entity} (found : db.entities.find root = some e) (stripped : Text.strip root = root) (named : root ≠ "") :
    lineageStart env db root = some root := by
  unfold lineageStart resolveEntityRef resolveEntityId
  rw [if_neg named, if_neg named, stripped, found]
  dsimp only [Option.isSome_some]
  rw [if_pos rfl, found]
  exact congrArg some (EntityTable.find_some found).2

/-- Where the agent sees every relation nothing is screened from it. -/
theorem unscreened_of_open (own : lineageStart env db root = some root)
    (seen : ∀ r ∈ db.relations.rows, r.visibleTo db agentId = true) : Unscreened env db direction maxDepth pit agentId root := by
  have steps : ∀ id, lineageStep db direction pit none id = lineageStep db direction pit agentId id := by
    intro id
    unfold lineageStep
    refine List.filter_congr fun r listed => ?_
    rw [seen r listed]
    rfl
  have trails : ∀ {k id path}, Trail db direction pit none root k id path → Trail db direction pit agentId root k id path := by
    intro k id path trail
    induction trail with
    | seed step => exact .seed (steps _ ▸ step)
    | hop _ step unnamed ih => exact .hop ih (steps _ ▸ step) unnamed
  rw [unscreened_iff own]
  rintro id _ _ k _ ⟨path, trail⟩
  exact ⟨k, Nat.le_refl k, path, trails trail⟩

/-! ### Agreement -/

theorem memoryLineage_agrees_iff : (∀ id depth, Lists (memoryLineage env db root direction maxDepth pit agentId) id depth ↔
      id ≠ root ∧ Shortest db direction pit agentId root maxDepth id depth) ↔
    Unscreened env db direction maxDepth pit agentId root := by
  simp only [memoryLineage_lists]
  constructor
  · intro agree
    have hidden : ∀ start ∈ lineageStart env db root, start = root ∨ canReadEntity db agentId start = false := by
      intro start found
      by_contra shown
      obtain ⟨other, read⟩ := not_or.mp shown
      have nearest := ((agree start 0).mp ⟨start, found, other, by simpa using read, .inl ⟨rfl, rfl⟩⟩).2
      exact absurd nearest.pos (by omega)
    refine ⟨hidden, fun id other read k bound => ⟨?_, ?_⟩⟩
    · rintro ⟨j, below, start, found, hops⟩
      have apart : id ≠ start := by
        rintro rfl
        rcases hidden id found with same | unread
        · exact other same
        · simp [read] at unread
      obtain ⟨depth, less, nearest⟩ := hops.nearest (below.trans bound)
      have seen := ((agree id depth).mp ⟨start, found, other, read, .inr ⟨apart, nearest⟩⟩).2
      exact ⟨depth, less.trans below, seen.reached⟩
    · rintro ⟨j, below, hops⟩
      obtain ⟨depth, less, nearest⟩ := hops.nearest (below.trans bound)
      obtain ⟨start, found, _, _, ⟨_, zero⟩ | ⟨_, walked⟩⟩ := (agree id depth).mpr ⟨other, nearest⟩
      · exact absurd nearest.pos (by omega)
      · exact ⟨depth, less.trans below, start, found, walked.reached⟩
  · intro unscreened id depth
    constructor
    · rintro ⟨start, found, other, read, ⟨rfl, _⟩ | ⟨_, walked⟩⟩
      · rcases unscreened.found id found with same | unread
        · exact absurd same other
        · simp [read] at unread
      · refine ⟨other, walked.within, ?_, fun k hops => ?_⟩
        · obtain ⟨j, below, hops⟩ := (unscreened.hops id other read depth walked.within).mp
            ⟨depth, Nat.le_refl depth, start, found, walked.reached⟩
          obtain ⟨i, less, again, foundAgain, back⟩ := (unscreened.hops id other read j (below.trans walked.within)).mpr
            ⟨j, Nat.le_refl j, hops⟩
          obtain rfl := Option.some.inj (found.symm.trans foundAgain)
          have above := walked.least i back
          have same : j = depth := by omega
          exact same ▸ hops
        · by_cases bound : k ≤ maxDepth
          · obtain ⟨i, less, again, foundAgain, back⟩ := (unscreened.hops id other read k bound).mpr ⟨k, Nat.le_refl k, hops⟩
            obtain rfl := Option.some.inj (found.symm.trans foundAgain)
            exact (walked.least i back).trans less
          · exact walked.within.trans (Nat.le_of_not_le bound)
    · rintro ⟨other, nearest⟩
      have read := nearest.reached.canRead
      obtain ⟨j, below, start, found, hops⟩ := (unscreened.hops id other read depth nearest.within).mpr
        ⟨depth, Nat.le_refl depth, nearest.reached⟩
      have apart : id ≠ start := by
        rintro rfl
        rcases unscreened.found id found with same | unread
        · exact other same
        · simp [read] at unread
      have least : ∀ k, HopsTo db direction pit none start k id → depth ≤ k := by
        intro k walked
        by_cases bound : k ≤ maxDepth
        · obtain ⟨i, less, seen⟩ := (unscreened.hops id other read k bound).mp ⟨k, Nat.le_refl k, start, found, walked⟩
          exact (nearest.least i seen).trans less
        · exact nearest.within.trans (Nat.le_of_not_le bound)
      have same : j = depth := by
        have above := least j hops
        omega
      exact ⟨start, found, other, read, .inr ⟨apart, nearest.within, same ▸ hops, least⟩⟩

theorem getMemoryLineage_found {ref : String} {lineage : MemoryLineage}
    (read : getMemoryLineage env db ref maxDepth pit agentId = some lineage) (direction : LineageDirection) :
    ∃ root, (resolveEntityRef env db ref agentId).resolved = some root ∧
      lineage.nodes direction = memoryLineage env db root direction maxDepth pit agentId := by
  unfold getMemoryLineage at read
  dsimp only at read
  split at read
  · simp at read
  · split at read
    · simp at read
    · cases resolved : (resolveEntityRef env db ref agentId).resolved with
      | none =>
        rw [resolved] at read
        simp at read
      | some root =>
        rw [resolved] at read
        dsimp only at read
        split at read
        · obtain rfl := Option.some.inj read
          refine ⟨root, rfl, ?_⟩
          cases direction <;> rfl
        · simp at read

/-- What `get_memory` shows of a memory's lineage is what `get_lineage` shows but for the memory itself, at the same
depths, exactly where nothing that the agent cannot see lies between. -/
theorem getMemoryLineage_agrees_iff {ref : String} {lineage : MemoryLineage}
    (read : getMemoryLineage env db ref maxDepth pit agentId = some lineage) (direction : LineageDirection) :
    ∃ root result, (resolveEntityRef env db ref agentId).resolved = some root ∧
      getLineage env db ref direction maxDepth pit agentId = .ok result ∧
      ((∀ id depth, Lists (lineage.nodes direction) id depth ↔ id ≠ root ∧ Lists result.nodes id depth) ↔
        Unscreened env db direction maxDepth pit agentId root) := by
  obtain ⟨root, resolved, nodes⟩ := getMemoryLineage_found read direction
  obtain ⟨result, answered, lists⟩ := getLineage_lists resolved
  refine ⟨root, result, resolved, answered, ?_⟩
  rw [nodes, ← memoryLineage_agrees_iff]
  refine forall_congr' fun id => forall_congr' fun depth => ?_
  rw [lists]
  refine iff_congr Iff.rfl (and_congr_right fun other => ?_)
  rw [or_iff_right fun both => other both.1]
  simp [other]

/-! ### A memory between two others -/

def supersedesDraft (sourceId targetId : EntityId) : RelationDraft := ⟨sourceId, targetId, "supersedes", 0, none, none⟩

/-- "newest" replaces a memory of another agent that replaces "oldest". -/
def chainDb (scope : Scope) : Db :=
  { Db.init with
    entities := ⟨[memoryRow "newest" "Newest" "now", { memoryRow "between" "Between" "then" with agentId := some "other", scope },
      memoryRow "oldest" "Oldest" "once"], by cases scope <;> decide⟩
    relations := ⟨[(supersedesDraft "newest" "between").row 0, (supersedesDraft "between" "oldest").row 1], 2, by decide, by decide,
      List.pairwise_pair.mpr fun both => absurd both.2.2 (by decide)⟩ }

theorem chainDb_reads (scope : Scope) : ∃ lineage, getMemoryLineage .plain (chainDb scope) "newest" 10 0 (some "agent") = some lineage := by
  have resolved : resolveEntityRef .plain (chainDb scope) "newest" (some "agent") = ⟨some "newest", [], false⟩ := by
    cases scope <;> rfl
  have read : canReadEntity (chainDb scope) (some "agent") "newest" = true := by
    cases scope <;> rfl
  unfold getMemoryLineage
  rw [if_neg (by decide), resolved]
  dsimp only
  rw [if_neg (by decide), if_pos read]
  exact ⟨_, rfl⟩

theorem chainDb_start (scope : Scope) : lineageStart .plain (chainDb scope) "newest" = some "newest" := by
  cases scope <;> rfl

theorem chainDb_shared_agrees : ∃ lineage result, getMemoryLineage .plain (chainDb .shared) "newest" 10 0 (some "agent") = some lineage ∧
    getLineage .plain (chainDb .shared) "newest" .ancestors 10 0 (some "agent") = .ok result ∧
    ∀ id depth, Lists lineage.ancestors id depth ↔ id ≠ "newest" ∧ Lists result.nodes id depth := by
  obtain ⟨lineage, read⟩ := chainDb_reads .shared
  obtain ⟨root, result, resolved, answered, agrees⟩ := getMemoryLineage_agrees_iff read .ancestors
  obtain rfl : "newest" = root := Option.some.inj (Eq.trans (by rfl) resolved)
  exact ⟨lineage, result, read, answered, agrees.mpr (unscreened_of_open (chainDb_start .shared) (by decide))⟩

/-- `get_lineage` lists the memory itself, the block does not. -/
theorem addressed_disagrees : ¬ ∀ (env : Env) (db : Db) (ref : String) (maxDepth : Nat) (pit : Instant) (agentId : Option String)
    (lineage : MemoryLineage) (direction : LineageDirection) (result : LineageResult),
    getMemoryLineage env db ref maxDepth pit agentId = some lineage →
    getLineage env db ref direction maxDepth pit agentId = .ok result →
    ∀ id depth, Lists (lineage.nodes direction) id depth ↔ Lists result.nodes id depth := by
  intro always
  obtain ⟨lineage, read⟩ := chainDb_reads .private_
  obtain ⟨root, resolved, nodes⟩ := getMemoryLineage_found read .ancestors
  obtain ⟨result, answered, lists⟩ := getLineage_lists resolved
  have listed := (always _ _ _ _ _ _ lineage .ancestors result read answered root 0).mpr ((lists _ _).mpr (.inl ⟨rfl, rfl⟩))
  rw [nodes] at listed
  obtain ⟨_, _, other, _⟩ := memoryLineage_lists.mp listed
  exact other rfl

/-- And behind a memory that the agent cannot see they disagree on "oldest". -/
theorem privateBetween_screened : ¬ Unscreened .plain (chainDb .private_) .ancestors 10 0 (some "agent") "newest" := by
  rw [unscreened_iff (chainDb_start .private_)]
  intro near
  have first : (supersedesDraft "newest" "between").row 0 ∈ lineageStep (chainDb .private_) .ancestors 0 none "newest" := by decide
  have second : (supersedesDraft "between" "oldest").row 1 ∈ lineageStep (chainDb .private_) .ancestors 0 none "between" := by decide
  have walked : HopsTo (chainDb .private_) .ancestors 0 none "newest" 2 "oldest" :=
    ⟨_, .hop (.seed first) second (by decide)⟩
  obtain ⟨j, _, path, trail⟩ := near "oldest" (by decide) rfl 2 (by decide) walked
  have closed : lineageStep (chainDb .private_) .ancestors 0 (some "agent") "newest" = [] := by decide
  obtain ⟨r, step⟩ := trail.leaves
  simp [closed] at step

end SaltMdb
