import Mathlib.Data.List.Nodup
import Mathlib.Data.List.Perm.Subperm
import Mathlib.Logic.Relation

/-! Components of a directed multigraph that are simple paths, told by their degrees and the number of their edges. -/

namespace Chains

variable {α : Type*}

/-- The pairs of neighbours along a path. -/
def links : List α → List (α × α)
  | x :: y :: rest => (x, y) :: links (y :: rest)
  | _ => []

/-- A path that returns to no node, and whose links are all the edges at its nodes, each once. -/
structure Simple [DecidableEq α] (edges : List (α × α)) (path : List α) : Prop where
  nodup : path.Nodup
  own : (edges.filter fun e => decide (e.1 ∈ path ∨ e.2 ∈ path)).Perm (links path)

def Joined (edges : List (α × α)) (x y : α) : Prop := (x, y) ∈ edges ∨ (y, x) ∈ edges

/-- All that can be reached from one node, along the edges and against them. -/
structure Component (edges : List (α × α)) (nodes : List α) : Prop where
  nodup : nodes.Nodup
  nonempty : nodes ≠ []
  closed : ∀ e ∈ edges, e.1 ∈ nodes ↔ e.2 ∈ nodes
  connected : ∀ x ∈ nodes, ∀ y ∈ nodes, Relation.ReflTransGen (Joined edges) x y

/-- One edge leaves each node at most, and one enters it. -/
def Thin [DecidableEq α] (edges : List (α × α)) (nodes : List α) : Prop :=
  ∀ x ∈ nodes, edges.countP (fun e => decide (e.1 = x)) ≤ 1 ∧ edges.countP (fun e => decide (e.2 = x)) ≤ 1

variable {edges : List (α × α)} {nodes path rest : List α} {x y z : α}

theorem mem_of_links {e : α × α} (link : e ∈ links path) : e.1 ∈ path ∧ e.2 ∈ path.tail := by
  fun_induction links path with
  | case1 x y rest ih =>
    rcases List.mem_cons.mp link with rfl | later
    · exact ⟨List.mem_cons_self, List.mem_cons_self⟩
    · exact ⟨List.mem_cons_of_mem _ (ih later).1, List.mem_cons_of_mem _ (ih later).2⟩
  | case2 => exact absurd link List.not_mem_nil

/-- What is not the first node of a path is linked to. -/
theorem linked_to (behind : y ∈ path.tail) : ∃ x, (x, y) ∈ links path := by
  fun_induction links path with
  | case1 x z rest ih =>
    rcases List.mem_cons.mp behind with rfl | later
    · exact ⟨x, List.mem_cons_self⟩
    · obtain ⟨w, link⟩ := ih later
      exact ⟨w, List.mem_cons_of_mem _ link⟩
  | case2 path short =>
    match path with
    | [] => exact absurd behind List.not_mem_nil
    | [_] => exact absurd behind List.not_mem_nil
    | x :: z :: rest => exact absurd rfl (short x z rest)

theorem links_sources : ((links path).map Prod.fst).Sublist path := by
  fun_induction links path with
  | case1 x y rest ih => exact ih.cons_cons x
  | case2 => exact List.nil_sublist _

theorem links_targets : ((links path).map Prod.snd).Sublist path.tail := by
  fun_induction links path with
  | case1 x y rest ih => exact ih.cons_cons y
  | case2 => exact List.nil_sublist _

theorem length_links (nonempty : path ≠ []) : (links path).length + 1 = path.length := by
  fun_induction links path with
  | case1 x y rest ih => rw [List.length_cons, ih (List.cons_ne_nil y rest), List.length_cons (a := x)]
  | case2 path short =>
    match path with
    | [] => exact absurd rfl nonempty
    | [_] => rfl
    | x :: z :: rest => exact absurd rfl (short x z rest)

theorem eq_of_countP {β : Type*} {p : β → Bool} {l : List β} {a b : β} (few : l.countP p ≤ 1) (ha : a ∈ l) (hb : b ∈ l) (pa : p a = true)
    (pb : p b = true) : a = b := by
  rw [List.countP_eq_length_filter] at few
  have first := List.mem_filter.mpr ⟨ha, pa⟩
  have second := List.mem_filter.mpr ⟨hb, pb⟩
  match listed : l.filter p, few with
  | [], _ => exact absurd (listed ▸ first) List.not_mem_nil
  | [c], _ =>
    rw [listed] at first second
    exact (List.mem_singleton.mp first).trans (List.mem_singleton.mp second).symm

/-- All of a path is reached from its first node. -/
theorem connects {head : α} (joined : ∀ e ∈ links (head :: rest), e ∈ edges) :
    ∀ y ∈ head :: rest, Relation.ReflTransGen (Joined edges) head y := by
  induction rest generalizing head with
  | nil =>
    intro y only
    rw [List.mem_singleton.mp only]
  | cons next rest ih =>
    intro y member
    rcases List.mem_cons.mp member with rfl | later
    · exact .refl
    · have step : Joined edges head next := .inl (joined _ List.mem_cons_self)
      exact .head step (ih (fun e link => joined e (List.mem_cons_of_mem _ link)) y later)

theorem Joined.back (path : Relation.ReflTransGen (Joined edges) x y) : Relation.ReflTransGen (Joined edges) y x := by
  induction path with
  | refl => exact .refl
  | tail _ step ih => exact .head step.symm ih

/-- Two components with a node in common are the same. -/
theorem Component.subset {others : List α} (component : Component edges nodes) (other : Component edges others) (here : x ∈ nodes)
    (there : x ∈ others) : nodes ⊆ others := by
  intro y member
  have path := component.connected x here y member
  clear member
  induction path with
  | refl => exact there
  | tail _ step ih =>
    rcases step with edge | edge
    · exact (other.closed _ edge).mp ih
    · exact (other.closed _ edge).mpr ih

theorem Component.perm {others : List α} (component : Component edges nodes) (other : Component edges others) (here : x ∈ nodes)
    (there : x ∈ others) : nodes.Perm others :=
  (List.perm_ext_iff_of_nodup component.nodup other.nodup).mpr fun _ =>
    ⟨fun member => component.subset other here there member, fun member => other.subset component there here member⟩

section Degrees

variable [DecidableEq α]

theorem Thin.out (thin : Thin edges nodes) (inside : x ∈ nodes) (first : (x, y) ∈ edges) (second : (x, z) ∈ edges) : y = z :=
  congrArg Prod.snd (eq_of_countP (thin x inside).1 first second (by simp) (by simp))

theorem Thin.in_ (thin : Thin edges nodes) (inside : x ∈ nodes) (first : (y, x) ∈ edges) (second : (z, x) ∈ edges) : y = z :=
  congrArg Prod.fst (eq_of_countP (thin x inside).2 first second (by simp) (by simp))

/-- A path within the nodes that is followed to its very end. -/
structure Tail (edges : List (α × α)) (nodes path : List α) : Prop where
  nodup : path.Nodup
  within : path ⊆ nodes
  linked : links path ⊆ edges
  ends : ∀ y ∈ path, (∃ z ∈ path.tail, (y, z) ∈ links path) ∨ ∀ z, (y, z) ∉ edges

/-- What leads to the first node of such a path is not on it. -/
theorem Tail.extend (tail : Tail edges nodes (x :: rest)) (thin : Thin edges nodes) (inside : y ∈ nodes) (edge : (y, x) ∈ edges) :
    Tail edges nodes (y :: x :: rest) where
  nodup := by
    refine List.nodup_cons.mpr ⟨fun again => ?_, tail.nodup⟩
    rcases tail.ends y again with ⟨z, behind, link⟩ | none_
    · obtain rfl : x = z := thin.out inside edge (tail.linked link)
      exact (List.nodup_cons.mp tail.nodup).1 behind
    · exact none_ x edge
  within := List.cons_subset.mpr ⟨inside, tail.within⟩
  linked := List.cons_subset.mpr ⟨edge, tail.linked⟩
  ends := by
    intro z listed
    rcases List.mem_cons.mp listed with rfl | later
    · exact .inl ⟨x, List.mem_cons_self, List.mem_cons_self⟩
    · refine (tail.ends z later).imp_left fun ⟨w, behind, link⟩ => ?_
      exact ⟨w, List.mem_cons_of_mem x behind, List.mem_cons_of_mem _ link⟩

/-- A path that is followed to its end can be followed back to its beginning. -/
theorem Tail.whole (tail : Tail edges nodes (x :: rest)) (thin : Thin edges nodes) (closed : ∀ e ∈ edges, e.1 ∈ nodes ↔ e.2 ∈ nodes) :
    ∃ head rest, Tail edges nodes (head :: rest) ∧ ∀ y, (y, head) ∉ edges := by
  induction left : nodes.length - (x :: rest).length generalizing x rest with
  | zero =>
    by_cases leads : ∃ y, (y, x) ∈ edges
    · obtain ⟨y, edge⟩ := leads
      have inside : y ∈ nodes := (closed _ edge).mpr (tail.within List.mem_cons_self)
      have longer := tail.extend thin inside edge
      have bound := (longer.nodup.subperm longer.within).length_le
      rw [List.length_cons] at bound
      omega
    · exact ⟨x, rest, tail, fun y edge => leads ⟨y, edge⟩⟩
  | succ n ih =>
    by_cases leads : ∃ y, (y, x) ∈ edges
    · obtain ⟨y, edge⟩ := leads
      have inside : y ∈ nodes := (closed _ edge).mpr (tail.within List.mem_cons_self)
      exact ih (tail.extend thin inside edge) (by rw [List.length_cons]; omega)
    · exact ⟨x, rest, tail, fun y edge => leads ⟨y, edge⟩⟩

/-- Where fewer edges leave the nodes than there are nodes, nothing leaves one of them. -/
theorem exists_sink (nodup : nodes.Nodup) (few : edges.countP (fun e => decide (e.1 ∈ nodes)) < nodes.length) :
    ∃ x ∈ nodes, ∀ y, (x, y) ∉ edges := by
  by_contra none_
  push Not at none_
  have covered : nodes ⊆ (edges.filter fun e => decide (e.1 ∈ nodes)).map Prod.fst := by
    intro x inside
    obtain ⟨y, edge⟩ := none_ x inside
    exact List.mem_map.mpr ⟨(x, y), List.mem_filter.mpr ⟨edge, by simpa using inside⟩, rfl⟩
  have bound := (nodup.subperm covered).length_le
  rw [List.length_map, ← List.countP_eq_length_filter] at bound
  omega

theorem Component.simple (component : Component edges nodes) (thin : Thin edges nodes)
    (few : edges.countP (fun e => decide (e.1 ∈ nodes)) < nodes.length) : ∃ path, path.Perm nodes ∧ Simple edges path := by
  obtain ⟨sink, inside, ends⟩ := exists_sink component.nodup few
  have start : Tail edges nodes [sink] := by
    refine ⟨List.nodup_singleton sink, fun y listed => List.mem_singleton.mp listed ▸ inside, List.nil_subset _, fun y listed => .inr ?_⟩
    rw [List.mem_singleton.mp listed]
    exact ends
  obtain ⟨head, rest, tail, begins⟩ := start.whole thin component.closed
  have own : ∀ x ∈ head :: rest, ∀ y, (x, y) ∈ edges → (x, y) ∈ links (head :: rest) := by
    intro x listed y edge
    rcases tail.ends x listed with ⟨z, _, link⟩ | none_
    · exact thin.out (tail.within listed) edge (tail.linked link) ▸ link
    · exact absurd edge (none_ y)
  have onward : ∀ x ∈ head :: rest, ∀ y, Joined edges x y → y ∈ head :: rest := by
    rintro x listed y (edge | edge)
    · exact List.mem_of_mem_tail (mem_of_links (own x listed y edge)).2
    · rcases List.mem_cons.mp listed with rfl | behind
      · exact absurd edge (begins y)
      · obtain ⟨w, link⟩ := (linked_to behind : ∃ w, (w, x) ∈ links (head :: rest))
        exact thin.in_ (tail.within listed) (tail.linked link) edge ▸ (mem_of_links link).1
  have reached : ∀ y, Relation.ReflTransGen (Joined edges) head y → y ∈ head :: rest := by
    intro y path
    induction path with
    | refl => exact List.mem_cons_self
    | tail _ step ih => exact onward _ ih _ step
  have all : nodes ⊆ head :: rest := fun y member => reached y (component.connected head (tail.within List.mem_cons_self) y member)
  have same : ∀ x, x ∈ head :: rest ↔ x ∈ nodes := fun x => ⟨fun listed => tail.within listed, fun member => all member⟩
  refine ⟨head :: rest, (List.perm_ext_iff_of_nodup tail.nodup component.nodup).mpr same, tail.nodup, ?_⟩
  have once : (edges.filter fun e => decide (e.1 ∈ head :: rest ∨ e.2 ∈ head :: rest)).Nodup := by
    refine List.nodup_iff_count_le_one.mpr fun e => ?_
    by_cases listed : e ∈ edges.filter fun e => decide (e.1 ∈ head :: rest ∨ e.2 ∈ head :: rest)
    · obtain ⟨edge, touches⟩ := List.mem_filter.mp listed
      have from_ : e.1 ∈ nodes := (decide_eq_true_eq.mp touches).elim (fun out => tail.within out) fun into =>
        (component.closed e edge).mpr (tail.within into)
      refine Nat.le_trans (List.filter_sublist.count_le e) (Nat.le_trans ?_ (thin e.1 from_).1)
      exact List.countP_mono_left fun other _ same => by simp [eq_of_beq same]
    · rw [List.count_eq_zero.mpr listed]
      exact Nat.zero_le 1
  refine (List.perm_ext_iff_of_nodup once ?_).mpr fun e => ?_
  · exact List.Nodup.of_map _ (links_sources.nodup tail.nodup)
  · rw [List.mem_filter, decide_eq_true_eq]
    constructor
    · rintro ⟨edge, touches⟩
      have from_ : e.1 ∈ head :: rest := touches.elim id fun into => all ((component.closed e edge).mpr (tail.within into))
      exact own e.1 from_ e.2 edge
    · exact fun link => ⟨tail.linked link, .inl (mem_of_links link).1⟩

/-- Edges at the nodes of a simple path are counted along it. -/
theorem Simple.countP (simple : Simple edges path) {p : α × α → Bool} (touches : ∀ e, p e = true → e.1 ∈ path ∨ e.2 ∈ path) :
    edges.countP p = (links path).countP p := by
  rw [← simple.own.countP_eq, List.countP_filter]
  refine List.countP_congr fun e _ => ?_
  rw [Bool.and_eq_true, decide_eq_true_eq]
  exact ⟨fun holds => ⟨holds, touches e holds⟩, And.left⟩

theorem Simple.thin (simple : Simple edges path) : Thin edges path := by
  intro x inside
  have leaves : ∀ e : α × α, decide (e.1 = x) = true → e.1 ∈ path ∨ e.2 ∈ path := fun e same => .inl (of_decide_eq_true same ▸ inside)
  have enters : ∀ e : α × α, decide (e.2 = x) = true → e.1 ∈ path ∨ e.2 ∈ path := fun e same => .inr (of_decide_eq_true same ▸ inside)
  rw [simple.countP leaves, simple.countP enters]
  have sources := List.nodup_iff_count_le_one.mp (links_sources.nodup simple.nodup) x
  have targets := List.nodup_iff_count_le_one.mp (links_targets.nodup simple.nodup.tail) x
  rw [List.count, List.countP_map] at sources targets
  exact ⟨sources, targets⟩

theorem Simple.few (simple : Simple edges path) (nonempty : path ≠ []) :
    edges.countP (fun e => decide (e.1 ∈ path)) + 1 = path.length := by
  have all : (links path).countP (fun e => decide (e.1 ∈ path)) = (links path).length :=
    List.countP_eq_length.mpr fun e link => decide_eq_true (mem_of_links link).1
  rw [simple.countP fun e inside => .inl (decide_eq_true_eq.mp inside), all, length_links nonempty]

/-- The nodes of a simple path are a component of their own. -/
theorem Simple.component (simple : Simple edges path) (nonempty : path ≠ []) : Component edges path where
  nodup := simple.nodup
  nonempty := nonempty
  closed := by
    intro e edge
    have link : e.1 ∈ path ∨ e.2 ∈ path → e ∈ links path := fun touches =>
      simple.own.mem_iff.mp (List.mem_filter.mpr ⟨edge, decide_eq_true touches⟩)
    exact ⟨fun out => List.mem_of_mem_tail (mem_of_links (link (.inl out))).2, fun into => (mem_of_links (link (.inr into))).1⟩
  connected := by
    have joined : ∀ e ∈ links path, e ∈ edges := fun e link => List.mem_of_mem_filter (simple.own.mem_iff.mpr link)
    match path, nonempty with
    | head :: rest, _ =>
      have from_ : ∀ y ∈ head :: rest, Relation.ReflTransGen (Joined edges) head y := connects joined
      intro x first y second
      exact (Joined.back (from_ x first)).trans (from_ y second)

/-- A component is a simple path exactly where its nodes are thin and it has one edge less than nodes. -/
theorem Component.simple_iff (component : Component edges nodes) :
    (Thin edges nodes ∧ edges.countP (fun e => decide (e.1 ∈ nodes)) + 1 = nodes.length) ↔ ∃ path, path.Perm nodes ∧ Simple edges path := by
  constructor
  · rintro ⟨thin, few⟩
    exact component.simple thin (by omega)
  · rintro ⟨path, perm, simple⟩
    have nonempty : path ≠ [] := by
      rintro rfl
      exact component.nonempty (List.nil_perm.mp perm)
    have few := simple.few nonempty
    constructor
    · exact fun x inside => simple.thin x (perm.mem_iff.mpr inside)
    · rw [← perm.length_eq, ← few]
      congr 2
      funext e
      exact decide_eq_decide.mpr perm.mem_iff.symm

/-- Components with an edge, those that are simple paths apart from the others. -/
structure Sorted (edges : List (α × α)) (chains tangles : List (List α)) : Prop where
  component : ∀ c ∈ chains ++ tangles, Component edges c
  disjoint : (chains ++ tangles).Pairwise List.Disjoint
  edged : ∀ c ∈ chains ++ tangles, ∀ x ∈ c, ∃ y, Joined edges x y
  chain : ∀ c ∈ chains, ∃ path, path.Perm c ∧ Simple edges path
  tangle : ∀ c ∈ tangles, ∀ path, path.Perm c → ¬ Simple edges path

/-- Where all components with an edge are there, the chains have the nodes that lie on a simple path. -/
theorem Sorted.mem_chain {chains tangles : List (List α)} (sorted : Sorted edges chains tangles)
    (covers : ∀ e ∈ edges, ∃ c ∈ chains ++ tangles, e.1 ∈ c) :
    (∃ c ∈ chains, x ∈ c) ↔ (∃ y, Joined edges x y) ∧ ∃ path, x ∈ path ∧ Simple edges path := by
  constructor
  · rintro ⟨c, listed, member⟩
    obtain ⟨path, perm, simple⟩ := sorted.chain c listed
    exact ⟨sorted.edged c (List.mem_append_left _ listed) x member, path, perm.mem_iff.mpr member, simple⟩
  · rintro ⟨⟨y, joined⟩, path, member, simple⟩
    have whole := simple.component (List.ne_nil_of_mem member)
    obtain ⟨c, listed, inside⟩ : ∃ c ∈ chains ++ tangles, x ∈ c := by
      rcases joined with edge | edge
      · exact covers _ edge
      · obtain ⟨c, listed, inside⟩ := covers _ edge
        exact ⟨c, listed, ((sorted.component c listed).closed _ edge).mp inside⟩
    rcases List.mem_append.mp listed with line | tangled
    · exact ⟨c, line, inside⟩
    · exact absurd simple (sorted.tangle c tangled path (whole.perm (sorted.component c listed) member inside))

end Degrees

end Chains
