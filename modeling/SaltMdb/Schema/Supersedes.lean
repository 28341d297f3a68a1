import SaltMdb.Library.Arrivals
import SaltMdb.Library.Chains
import SaltMdb.Search.Families

/-! The survey of the `supersedes` edges before the lifecycle repair: which memories have a place in a line of succession. -/

namespace SaltMdb
open Chains

/-- What the repair reads of a current `supersedes` row. -/
structure SupersedesRow where
  id : String
  sourceId : EntityId
  targetId : EntityId
  createdAt : Option String
  validFrom : Option String
deriving DecidableEq, Repr

def SupersedesRow.edge (row : SupersedesRow) : EntityId × EntityId := (row.sourceId, row.targetId)

/-- `adjacency[node]`, as a set. -/
def supersedesAdjacency (rows : List SupersedesRow) (node : EntityId) : List EntityId :=
  ((rows.filter (·.sourceId == node)).map (·.targetId) ++ (rows.filter (·.targetId == node)).map (·.sourceId)).dedup

/-- The keys of `adjacency`, in the order they were put in. -/
def supersedesNodes (rows : List SupersedesRow) : List EntityId :=
  Arrivals.firstOf id (rows.flatMap fun row => [row.sourceId, row.targetId])

/-- Each row puts its two ends on the queue at most. -/
def walkSupersedesComponent (rows : List SupersedesRow) (start : EntityId) : List EntityId :=
  Component.sweep (supersedesAdjacency rows) (2 * rows.length + 1) [start] []

def anomalousNodes (rows : List SupersedesRow) : List EntityId :=
  let incoming := fun node => rows.countP (·.targetId == node)
  let outgoing := fun node => rows.countP (·.sourceId == node)
  ((rows.map (·.targetId)).dedup.filter fun node => decide (incoming node > 1)) ++
    (rows.map (·.sourceId)).dedup.filter fun node => decide (outgoing node > 1)

def componentIsAmbiguous (rows : List SupersedesRow) (component : List EntityId) : Bool :=
  component.any (anomalousNodes rows).contains ||
    decide ((rows.countP fun row => decide (row.sourceId ∈ component)) + 1 ≠ component.length)

structure SupersedesSurvey where
  safeNodes : List EntityId
  ambiguousComponents : Nat
  seen : List EntityId
deriving DecidableEq, Repr

def surveyFrom (rows : List SupersedesRow) (survey : SupersedesSurvey) (start : EntityId) : SupersedesSurvey :=
  if start ∈ survey.seen then survey
  else
    let component := walkSupersedesComponent rows start
    let seen := survey.seen ++ component
    if componentIsAmbiguous rows component then { survey with ambiguousComponents := survey.ambiguousComponents + 1, seen }
    else { survey with safeNodes := survey.safeNodes ++ component, seen }

def findSafeSupersedesNodes (rows : List SupersedesRow) : SupersedesSurvey :=
  (supersedesNodes rows).foldl (surveyFrom rows) ⟨[], 0, []⟩

/-! ### A component -/

variable {rows : List SupersedesRow} {start x y : EntityId} {component : List EntityId}

theorem mem_supersedesAdjacency : y ∈ supersedesAdjacency rows x ↔ Chains.Joined (rows.map SupersedesRow.edge) x y := by
  unfold supersedesAdjacency Chains.Joined
  rw [List.mem_dedup, List.mem_append]
  apply or_congr
  all_goals
    simp only [List.mem_map, List.mem_filter, beq_iff_eq, SupersedesRow.edge, Prod.mk.injEq]
    grind

theorem supersedesAdjacency_spend (seen : List EntityId) (node : EntityId) (fresh : node ∉ seen) :
    (supersedesAdjacency rows node).length + edgesLeft (rows.map SupersedesRow.edge) (seen ++ [node]) ≤
      edgesLeft (rows.map SupersedesRow.edge) seen := by
  have targets := countP_fresh SupersedesRow.sourceId rows fresh
  have sources := countP_fresh SupersedesRow.targetId rows fresh
  have few := (List.dedup_sublist ((rows.filter (·.sourceId == node)).map (·.targetId) ++
    (rows.filter (·.targetId == node)).map (·.sourceId))).length_le
  rw [List.length_append, List.length_map, List.length_map, ← List.countP_eq_length_filter, ← List.countP_eq_length_filter] at few
  have left : ∀ seen, edgesLeft (rows.map SupersedesRow.edge) seen =
      rows.countP (fun row => decide (row.sourceId ∉ seen)) + rows.countP fun row => decide (row.targetId ∉ seen) := by
    intro seen
    unfold edgesLeft
    rw [List.countP_map, List.countP_map]
    rfl
  unfold supersedesAdjacency
  rw [left, left]
  omega

theorem mem_walkSupersedesComponent : x ∈ walkSupersedesComponent rows start ↔
    Relation.ReflTransGen (Chains.Joined (rows.map SupersedesRow.edge)) start x := by
  have enough : 1 + edgesLeft (rows.map SupersedesRow.edge) [] ≤ 2 * rows.length + 1 := by
    have left := @edgesLeft_enough (rows.map SupersedesRow.edge)
    rwa [List.length_map] at left
  have steps : x ∈ walkSupersedesComponent rows start ↔ Relation.ReflTransGen (fun x y => y ∈ supersedesAdjacency rows x) start x :=
    Component.mem_sweep supersedesAdjacency_spend enough
  simp only [mem_supersedesAdjacency] at steps
  exact steps

theorem walkSupersedesComponent_component : Component (rows.map SupersedesRow.edge) (walkSupersedesComponent rows start) where
  nodup := Component.sweep_nodup List.nodup_nil
  nonempty := List.ne_nil_of_mem (mem_walkSupersedesComponent.mpr .refl)
  closed := by
    intro e edge
    rw [mem_walkSupersedesComponent, mem_walkSupersedesComponent]
    exact ⟨fun path => .tail path (.inl edge), fun path => .tail path (.inr edge)⟩
  connected := by
    intro x first y second
    exact (Chains.Joined.back (mem_walkSupersedesComponent.mp first)).trans (mem_walkSupersedesComponent.mp second)

theorem mem_anomalousNodes : x ∈ anomalousNodes rows ↔
    1 < rows.countP (fun row => decide (row.sourceId = x)) ∨ 1 < rows.countP fun row => decide (row.targetId = x) := by
  have counted : ∀ f : SupersedesRow → EntityId, x ∈ (rows.map f).dedup.filter (fun node => decide (rows.countP (f · == node) > 1)) ↔
      1 < rows.countP fun row => decide (f row = x) := by
    intro f
    rw [List.mem_filter, List.mem_dedup, decide_eq_true_eq]
    refine ⟨And.right, fun many => ⟨?_, many⟩⟩
    obtain ⟨row, listed, same⟩ := List.countP_pos_iff.mp (Nat.lt_of_succ_lt many)
    exact List.mem_map.mpr ⟨row, listed, of_decide_eq_true same⟩
  unfold anomalousNodes
  rw [List.mem_append, or_comm]
  exact or_congr (counted _) (counted _)

/-- What the counts say of a component: that it is not one line. -/
theorem componentIsAmbiguous_iff (whole : Component (rows.map SupersedesRow.edge) component) :
    componentIsAmbiguous rows component = false ↔ ∃ path, path.Perm component ∧ Simple (rows.map SupersedesRow.edge) path := by
  rw [← whole.simple_iff, componentIsAmbiguous, Bool.or_eq_false_iff, decide_eq_false_iff_not, not_not, List.any_eq_false, List.countP_map]
  apply and_congr_left'
  unfold Thin
  refine forall₂_congr fun x _ => ?_
  rw [List.contains_iff_mem, mem_anomalousNodes, not_or, Nat.not_lt, Nat.not_lt, List.countP_map, List.countP_map]
  rfl

/-! ### The survey -/

/-- The components that were walked, those among them that are lines apart. -/
structure Surveyed (rows : List SupersedesRow) (survey : SupersedesSurvey) (lines tangles : List (List EntityId)) : Prop where
  sorted : Sorted (rows.map SupersedesRow.edge) lines tangles
  seen : ∀ x, x ∈ survey.seen ↔ ∃ c ∈ lines ++ tangles, x ∈ c
  safe : ∀ x, x ∈ survey.safeNodes ↔ ∃ c ∈ lines, x ∈ c
  ambiguous : survey.ambiguousComponents = tangles.length

variable {survey : SupersedesSurvey} {lines tangles : List (List EntityId)}

theorem surveyFrom_surveyed (surveyed : Surveyed rows survey lines tangles) (edged : ∃ y, Chains.Joined (rows.map SupersedesRow.edge) start y) :
    ∃ lines' tangles', Surveyed rows (surveyFrom rows survey start) lines' tangles' ∧ start ∈ (surveyFrom rows survey start).seen ∧
      survey.seen ⊆ (surveyFrom rows survey start).seen := by
  unfold surveyFrom
  split
  · rename_i known
    exact ⟨lines, tangles, surveyed, known, List.Subset.refl _⟩
  rename_i fresh
  have whole : Component (rows.map SupersedesRow.edge) (walkSupersedesComponent rows start) := walkSupersedesComponent_component
  have own : start ∈ walkSupersedesComponent rows start := mem_walkSupersedesComponent.mpr .refl
  have touched : ∀ x ∈ walkSupersedesComponent rows start, ∃ y, Chains.Joined (rows.map SupersedesRow.edge) x y := by
    intro x member
    rcases Relation.ReflTransGen.cases_tail (mem_walkSupersedesComponent.mp member) with rfl | ⟨before, _, step⟩
    · exact edged
    · exact ⟨before, step.symm⟩
  -- A walked component with a node in common would have the start in it.
  have apart : ∀ c ∈ lines ++ tangles, List.Disjoint (walkSupersedesComponent rows start) c := by
    intro c listed x here there
    exact fresh ((surveyed.seen start).mpr ⟨c, listed, whole.subset (surveyed.sorted.component c listed) here there own⟩)
  dsimp only
  cases ambiguous : componentIsAmbiguous rows (walkSupersedesComponent rows start) with
  | true =>
    have order : (lines ++ walkSupersedesComponent rows start :: tangles).Perm (walkSupersedesComponent rows start :: (lines ++ tangles)) :=
      List.perm_middle
    refine ⟨lines, walkSupersedesComponent rows start :: tangles, ⟨⟨?_, ?_, ?_, surveyed.sorted.chain, ?_⟩, ?_, surveyed.safe, ?_⟩, ?_, ?_⟩
    · intro c listed
      rcases List.mem_cons.mp (order.mem_iff.mp listed) with rfl | before
      · exact whole
      · exact surveyed.sorted.component c before
    · rw [order.pairwise_iff fun disjoint => disjoint.symm]
      exact List.pairwise_cons.mpr ⟨apart, surveyed.sorted.disjoint⟩
    · intro c listed
      rcases List.mem_cons.mp (order.mem_iff.mp listed) with rfl | before
      · exact touched
      · exact surveyed.sorted.edged c before
    · intro c listed
      rcases List.mem_cons.mp listed with rfl | before
      · intro path perm simple
        have clear := (componentIsAmbiguous_iff whole).mpr ⟨path, perm, simple⟩
        exact Bool.false_ne_true (clear.symm.trans ambiguous)
      · exact surveyed.sorted.tangle c before
    · intro x
      show x ∈ survey.seen ++ walkSupersedesComponent rows start ↔ _
      rw [List.mem_append, surveyed.seen x]
      simp only [order.mem_iff, List.mem_cons, exists_eq_or_imp]
      exact or_comm
    · show survey.ambiguousComponents + 1 = _
      rw [surveyed.ambiguous, List.length_cons]
    · exact List.mem_append_right _ own
    · exact List.subset_append_left _ _
  | false =>
    have line := (componentIsAmbiguous_iff whole).mp ambiguous
    have order : (lines ++ [walkSupersedesComponent rows start] ++ tangles).Perm (walkSupersedesComponent rows start :: (lines ++ tangles)) := by
      rw [List.append_assoc]
      exact List.perm_middle
    refine ⟨lines ++ [walkSupersedesComponent rows start], tangles, ⟨⟨?_, ?_, ?_, ?_, surveyed.sorted.tangle⟩, ?_, ?_, surveyed.ambiguous⟩, ?_, ?_⟩
    · intro c listed
      rcases List.mem_cons.mp (order.mem_iff.mp listed) with rfl | before
      · exact whole
      · exact surveyed.sorted.component c before
    · rw [order.pairwise_iff fun disjoint => disjoint.symm]
      exact List.pairwise_cons.mpr ⟨apart, surveyed.sorted.disjoint⟩
    · intro c listed
      rcases List.mem_cons.mp (order.mem_iff.mp listed) with rfl | before
      · exact touched
      · exact surveyed.sorted.edged c before
    · exact List.forall_mem_append.mpr ⟨surveyed.sorted.chain, List.forall_mem_singleton.mpr line⟩
    · intro x
      show x ∈ survey.seen ++ walkSupersedesComponent rows start ↔ _
      rw [List.mem_append, surveyed.seen x]
      simp only [order.mem_iff, List.mem_cons, exists_eq_or_imp]
      exact or_comm
    · intro x
      show x ∈ survey.safeNodes ++ walkSupersedesComponent rows start ↔ _
      rw [List.mem_append, surveyed.safe x]
      simp only [List.mem_append, List.mem_singleton, or_and_right, exists_or, exists_eq_left]
    · exact List.mem_append_right _ own
    · exact List.subset_append_left _ _

theorem mem_supersedesNodes : x ∈ supersedesNodes rows ↔ ∃ y, Chains.Joined (rows.map SupersedesRow.edge) x y := by
  have ends : x ∈ rows.flatMap (fun row => [row.sourceId, row.targetId]) ↔ ∃ y, Chains.Joined (rows.map SupersedesRow.edge) x y := by
    simp only [List.mem_flatMap, List.mem_cons, List.not_mem_nil, or_false, Chains.Joined, List.mem_map, SupersedesRow.edge, Prod.mk.injEq]
    grind
  rw [← ends]
  constructor
  · exact Arrivals.mem_of_firstOf
  · intro member
    obtain ⟨kept, listed, same⟩ := @Arrivals.firstOf_covers _ _ _ id _ _ member
    obtain rfl : kept = x := same
    exact listed

theorem survey_surveyed {starts : List EntityId} (surveyed : Surveyed rows survey lines tangles)
    (edged : ∀ x ∈ starts, ∃ y, Chains.Joined (rows.map SupersedesRow.edge) x y) :
    ∃ lines' tangles', Surveyed rows (starts.foldl (surveyFrom rows) survey) lines' tangles' ∧
      (∀ x ∈ starts, x ∈ (starts.foldl (surveyFrom rows) survey).seen) ∧ survey.seen ⊆ (starts.foldl (surveyFrom rows) survey).seen := by
  induction starts generalizing survey lines tangles with
  | nil => exact ⟨lines, tangles, surveyed, by simp, List.Subset.refl _⟩
  | cons start starts ih =>
    obtain ⟨lines', tangles', next, own, before⟩ := surveyFrom_surveyed surveyed (edged start List.mem_cons_self)
    obtain ⟨lines'', tangles'', all, later, kept⟩ := ih next fun x member => edged x (List.mem_cons_of_mem _ member)
    refine ⟨lines'', tangles'', all, fun x member => ?_, List.Subset.trans before kept⟩
    rcases List.mem_cons.mp member with rfl | behind
    · exact kept own
    · exact later x behind

/-- All components come out of the survey, once each: the nodes of the lines are the safe ones, the others are counted. -/
theorem findSafeSupersedesNodes_surveyed (rows : List SupersedesRow) : ∃ lines tangles,
    Surveyed rows (findSafeSupersedesNodes rows) lines tangles ∧ ∀ e ∈ rows.map SupersedesRow.edge, ∃ c ∈ lines ++ tangles, e.1 ∈ c := by
  have start : Surveyed rows ⟨[], 0, []⟩ [] [] := by
    refine ⟨⟨?_, List.Pairwise.nil, ?_, ?_, ?_⟩, ?_, ?_, rfl⟩
    all_goals simp
  obtain ⟨lines, tangles, surveyed, visited, _⟩ := survey_surveyed start fun x member => mem_supersedesNodes.mp member
  refine ⟨lines, tangles, surveyed, fun e edge => (surveyed.seen e.1).mp (visited e.1 ?_)⟩
  exact mem_supersedesNodes.mpr ⟨e.2, .inl edge⟩

/-- A memory is safe where its `supersedes` edges, followed either way, are a single line. -/
theorem mem_safeNodes : x ∈ (findSafeSupersedesNodes rows).safeNodes ↔
    (∃ y, Chains.Joined (rows.map SupersedesRow.edge) x y) ∧ ∃ path, x ∈ path ∧ Simple (rows.map SupersedesRow.edge) path := by
  obtain ⟨lines, tangles, surveyed, covers⟩ := findSafeSupersedesNodes_surveyed rows
  rw [surveyed.safe, surveyed.sorted.mem_chain covers]

/-- The survey tells the lines from the other components, and misses none. -/
theorem findSafeSupersedesNodes_sorts (rows : List SupersedesRow) :
    (∀ x, x ∈ (findSafeSupersedesNodes rows).safeNodes ↔
      (∃ y, Chains.Joined (rows.map SupersedesRow.edge) x y) ∧ ∃ path, x ∈ path ∧ Simple (rows.map SupersedesRow.edge) path) ∧
    ∃ lines tangles, Sorted (rows.map SupersedesRow.edge) lines tangles ∧
      (∀ row ∈ rows, ∃ c ∈ lines ++ tangles, row.sourceId ∈ c ∧ row.targetId ∈ c) ∧
      (findSafeSupersedesNodes rows).ambiguousComponents = tangles.length := by
  refine ⟨fun x => mem_safeNodes, ?_⟩
  obtain ⟨lines, tangles, surveyed, covers⟩ := findSafeSupersedesNodes_surveyed rows
  refine ⟨lines, tangles, surveyed.sorted, fun row listed => ?_, surveyed.ambiguous⟩
  have edge := List.mem_map_of_mem (f := SupersedesRow.edge) listed
  obtain ⟨c, walked, inside⟩ := covers _ edge
  exact ⟨c, walked, inside, ((surveyed.sorted.component c walked).closed _ edge).mp inside⟩

end SaltMdb
