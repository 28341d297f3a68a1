import SaltMdb.Context.Conflicts
import SaltMdb.Context.Orderless

/-! When the conflict sets can be assembled: every component has to hold a hit, and `expand_context_candidates` leaves that
to how the hits' ids resolve. -/

namespace SaltMdb

variable {env : Env} {db : Db} {pit : Instant} {agentId : Option String} {hits : List PrimaryHit}

/-! ### The order of the members -/

theorem min?_perm {ids ids' : List EntityId} (perm : ids'.Perm ids) : ids'.min? = ids.min? := by
  cases least : ids.min? with
  | none =>
    rw [List.min?_eq_none_iff] at least ⊢
    subst least
    exact perm.eq_nil
  | some id =>
    rw [List.min?_eq_some_iff] at least ⊢
    exact ⟨perm.mem_iff.mpr least.1, fun b member => least.2 b (perm.mem_iff.mp member)⟩

theorem all_ids_perm {ids ids' : List EntityId} (perm : ids'.Perm ids) (p : EntityId → Bool) : ids'.all p = ids.all p := by
  rw [Bool.eq_iff_iff, List.all_eq_true, List.all_eq_true]
  exact forall_congr' fun id => by rw [perm.mem_iff]

theorem lifecycleRounds_perm {ids ids' : List EntityId} (perm : ids'.Perm ids) (rounds : Nat) (visited frontier : List EntityId) :
    lifecycleRounds env db pit ids' rounds visited frontier = lifecycleRounds env db pit ids rounds visited frontier := by
  induction rounds generalizing visited frontier with
  | zero => rfl
  | succ rounds ih => simp only [lifecycleRounds, all_ids_perm perm, ih]

theorem componentLifecycleResolved_perm {ids ids' : List EntityId} (perm : ids'.Perm ids) :
    componentLifecycleResolved env db pit ids' = componentLifecycleResolved env db pit ids := by
  unfold componentLifecycleResolved
  rw [min?_perm perm]
  cases ids.min? with
  | none => rfl
  | some anchor => simp only [lifecycleRounds_perm perm, all_ids_perm perm, (perm.filter _).length_eq]

/-! ### Components and hits -/

/-- A valid, visible contradicts edge at a memory that a hit's id resolves to. -/
def HitConflict (env : Env) (db : Db) (pit : Instant) (agentId : Option String) (hits : List PrimaryHit) (e : DependencyEdge) : Prop :=
  Surrounding env db pit agentId (hits.map (·.id)) e ∧ e.predicate = "contradicts"

theorem mem_contradictsEdges {e : RawEdge} : e ∈ (expandContextCandidates env db hits pit agentId).contradictsEdges ↔
    ∃ d, HitConflict env db pit agentId hits d ∧ d.raw = e := by
  have around : ∀ d, d ∈ (hits.map (·.id)).dedup.flatMap (traversedEdges env db pit agentId) ↔
      Surrounding env db pit agentId (hits.map (·.id)) d := fun d => by
    rw [mem_surrounding]
    exact surrounding_congr db.relations .rfl fun id => List.mem_dedup
  unfold expandContextCandidates
  simp only [collected_eq hits, recordEdge_split]
  generalize (hits.map (·.id)).dedup.flatMap (traversedEdges env db pit agentId) = edges at around
  have listed : ∀ e, e ∈ (edges.filter DependencyEdge.conflicts).map (·.raw) ↔ ∃ d, HitConflict env db pit agentId hits d ∧ d.raw = e := by
    intro e
    simp only [List.mem_map, List.mem_filter, around, HitConflict, DependencyEdge.conflicts, decide_eq_true_eq]
  have agree : ∀ a ∈ (edges.filter DependencyEdge.conflicts).map (·.raw), ∀ b ∈ (edges.filter DependencyEdge.conflicts).map (·.raw),
      a.relationId = b.relationId → a = b := by
    intro a first b second same
    obtain ⟨d, surrounds, rfl⟩ := (listed a).mp first
    obtain ⟨d', surrounds', rfl⟩ := (listed b).mp second
    rw [surrounds.1.1.unique surrounds'.1.1 same]
  rw [List.mem_insertionSort, ← listed]
  exact Dictionary.mem_foldl_assign agree

/-- Memories that contradicts edges around the hits connect. -/
def HitConflicting (env : Env) (db : Db) (pit : Instant) (agentId : Option String) (hits : List PrimaryHit) : EntityId → EntityId → Prop :=
  UnionFind.Connected fun a b => ∃ e, HitConflict env db pit agentId hits e ∧ e.sourceId = a ∧ e.targetId = b

/-- Around every such edge a hit takes part in the conflict, or lineage has resolved it. -/
def AnchoredConflicts (env : Env) (db : Db) (pit : Instant) (agentId : Option String) (hits : List PrimaryHit) : Prop :=
  ∀ e, HitConflict env db pit agentId hits e →
    (∃ hit ∈ hits, HitConflicting env db pit agentId hits e.sourceId hit.id) ∨
      ∃ members : List EntityId, members.Nodup ∧ (∀ id, id ∈ members ↔ HitConflicting env db pit agentId hits e.sourceId id) ∧
        componentLifecycleResolved env db pit members = true

theorem contradictory_hits : Contradictory (expandContextCandidates env db hits pit agentId).contradictsEdges =
    HitConflicting env db pit agentId hits := by
  have edges : (fun a b => ∃ e ∈ (expandContextCandidates env db hits pit agentId).contradictsEdges, e.sourceId = a ∧ e.targetId = b) =
      fun a b => ∃ e, HitConflict env db pit agentId hits e ∧ e.sourceId = a ∧ e.targetId = b := by
    funext a b
    refine propext ⟨?_, ?_⟩
    · rintro ⟨_, listed, rfl, rfl⟩
      obtain ⟨d, conflict, rfl⟩ := mem_contradictsEdges.mp listed
      exact ⟨d, conflict, rfl, rfl⟩
    · rintro ⟨d, conflict, rfl, rfl⟩
      exact ⟨d.raw, mem_contradictsEdges.mpr ⟨d, conflict, rfl⟩, rfl, rfl⟩
  rw [Contradictory, HitConflicting, edges]

theorem classified_resolved {edges : List RawEdge} {c : ConflictComponent} (member : c ∈ classifyContradictsComponents env db edges pit) :
    c.resolved = componentLifecycleResolved env db pit c.memberIds := by
  obtain ⟨_, _, rfl⟩ := List.mem_map.mp member
  rfl

theorem anchoredConflicts_iff : AnchoredConflicts env db pit agentId hits ↔
    ∀ c ∈ classifyContradictsComponents env db (expandContextCandidates env db hits pit agentId).contradictsEdges pit,
      c.resolved = true ∨ ∃ hit ∈ hits, hit.id ∈ c.memberIds := by
  have exact_ := classifyContradictsComponents_exact env db (expandContextCandidates env db hits pit agentId).contradictsEdges pit
  have classes := exact_.classes
  rw [contradictory_hits] at classes
  constructor
  · intro anchored c member
    obtain ⟨_, listed, inside⟩ := exact_.inhabited c member
    obtain ⟨e, conflict, rfl⟩ := mem_contradictsEdges.mp listed
    have class_ := classes c member _ inside
    rcases anchored e conflict with ⟨hit, here, connected⟩ | ⟨members, once, same, resolved⟩
    · exact .inr ⟨hit, here, (class_ hit.id).mpr connected⟩
    · refine .inl ?_
      have perm : c.memberIds.Perm members := by
        rw [List.perm_ext_iff_of_nodup (exact_.once c member) once]
        exact fun id => (class_ id).trans (same id).symm
      rw [classified_resolved member, componentLifecycleResolved_perm perm, resolved]
  · intro held e conflict
    obtain ⟨c, member, inside, _⟩ := exact_.covers _ (mem_contradictsEdges.mpr ⟨e, conflict, rfl⟩)
    have class_ := classes c member _ inside
    rcases held c member with resolved | ⟨hit, here, within⟩
    · exact .inr ⟨c.memberIds, exact_.once c member, class_, classified_resolved member ▸ resolved⟩
    · exact .inl ⟨hit, here, (class_ hit.id).mp within⟩

/-- What conflict sets are to be: the components are the classes in every order of the edges, and what an expansion brings is assembled
without an error and below the cap. -/
structure ConflictSetsHold (env : Env) (db : Db) (pit : Instant) (agentId : Option String) (hits : List PrimaryHit) : Prop where
  components : ∀ edges shuffled : List RawEdge, shuffled.Perm edges → ExactComponents edges (classifyContradictsComponents env db shuffled pit)
  assembled : ∃ result, assembleConflictSets env db (expandContextCandidates env db hits pit agentId) hits pit = .ok result ∧
    result.conflictOnlyCount ≤ contextExpansionContradictsCap

theorem conflictSetsHold_iff (env : Env) (db : Db) (pit : Instant) (agentId : Option String) (hits : List PrimaryHit) :
    ConflictSetsHold env db pit agentId hits ↔ AnchoredConflicts env db pit agentId hits := by
  rw [anchoredConflicts_iff, ← assembleConflictSets_ok_iff]
  constructor
  · intro hold
    obtain ⟨result, done, _⟩ := hold.assembled
    exact ⟨result, done⟩
  · rintro ⟨result, done⟩
    exact ⟨fun edges shuffled perm => (classifyContradictsComponents_exact env db shuffled pit).of_perm perm,
      result, done, assembleConflictSets_capped done⟩

/-! ### An id that resolves to another memory's -/

/-- Beside "a" there is a memory whose id is the same but for a space, and "a" contradicts "b". -/
def paddedDb : Db :=
  { Db.init with
    entities := ⟨[memoryRow " a" "Padded" "p", memoryRow "a" "First" "f", memoryRow "b" "Second" "s"], by decide⟩
    relations := ⟨[(RelationDraft.mk "a" "b" "contradicts" 0 none none).row 0], 1, by decide, by decide, List.pairwise_singleton _ _⟩ }

/-- Two memories that are both in use are not resolved. -/
theorem unresolved_of_live {ids : List EntityId} (live : (ids.filter fun id => statusById db id != "archived").length ≠ 1) :
    componentLifecycleResolved env db pit ids = false := by
  unfold componentLifecycleResolved
  cases ids.min? with
  | none => rfl
  | some anchor =>
    rw [beq_eq_false_iff_ne.mpr live]
    exact Bool.and_false _

theorem paddedDb_unassembled :
    ¬ ∃ result, assembleConflictSets .plain paddedDb (expandContextCandidates .plain paddedDb [⟨" a", 1⟩] 0 none) [⟨" a", 1⟩] 0 = .ok result := by
  intro assembled
  have edges : (expandContextCandidates .plain paddedDb [⟨" a", 1⟩] 0 none).contradictsEdges = [⟨0, "a", "b", "contradicts"⟩] := by rfl
  have anchored := assembleConflictSets_ok_iff.mp assembled
  rw [edges] at anchored
  have component : ⟨["b", "a"], [⟨0, "a", "b", "contradicts"⟩], componentLifecycleResolved .plain paddedDb 0 ["b", "a"]⟩ ∈
      classifyContradictsComponents .plain paddedDb [⟨0, "a", "b", "contradicts"⟩] 0 := List.mem_singleton.mpr rfl
  rcases anchored _ component with resolved | ⟨hit, listed, inside⟩
  · rw [unresolved_of_live (by decide)] at resolved
    exact absurd resolved Bool.false_ne_true
  · obtain rfl := List.mem_singleton.mp listed
    exact absurd inside (by decide)

theorem paddedDb_raises : ¬ ConflictSetsHold .plain paddedDb 0 none [⟨" a", 1⟩] := by
  intro hold
  obtain ⟨result, done, _⟩ := hold.assembled
  exact paddedDb_unassembled ⟨result, done⟩

end SaltMdb
