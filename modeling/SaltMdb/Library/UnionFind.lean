import SaltMdb.Library.Dictionary
import Mathlib

/-! Union-find over a dictionary of parents, with path compression and without ranks, and the classes that it leaves. -/

namespace UnionFind

variable {α : Type} [DecidableEq α]

/-- A node and its parent; a root is its own. -/
abbrev Parents (α : Type) := List (α × α)

def parentOf (ps : Parents α) (x : α) : Option α := (Dictionary.entry Prod.fst ps x).map Prod.snd

def setParent (ps : Parents α) (x p : α) : Parents α := Dictionary.assign Prod.fst ps (x, p)

/-- The root of a node, which is entered where it is new; every node on the way is set below the root. -/
def findFrom : Nat → Parents α → α → Parents α × α
  | 0, ps, x => (ps, x)
  | fuel + 1, ps, x =>
    match parentOf ps x with
    | none => (setParent ps x x, x)
    | some p =>
      if p = x then (ps, x)
      else
        let above := findFrom fuel ps p
        (setParent above.1 x above.2, above.2)

def find (ps : Parents α) (x : α) : Parents α × α := findFrom (ps.length + 1) ps x

def union (ps : Parents α) (x y : α) : Parents α :=
  let first := find ps x
  let second := find first.1 y
  if first.2 = second.2 then second.1 else setParent second.1 second.2 first.2

theorem parentOf_setParent (ps : Parents α) (x p y : α) : parentOf (setParent ps x p) y = if y = x then some p else parentOf ps y := by
  rw [parentOf, setParent, Dictionary.entry_assign]
  split
  · rfl
  · rfl

/-! ### Roots -/

/-- A node that many parents below its root. -/
inductive RootAt (ps : Parents α) : Nat → α → α → Prop
  | here {x : α} (own : parentOf ps x = some x) : RootAt ps 0 x x
  | under {n : Nat} {x p r : α} (parent : parentOf ps x = some p) (other : p ≠ x) (above : RootAt ps n p r) : RootAt ps (n + 1) x r

def Root (ps : Parents α) (x r : α) : Prop := ∃ n, RootAt ps n x r

def Known (ps : Parents α) (x : α) : Prop := (parentOf ps x).isSome = true

/-- Every node leads to a root. -/
def Forest (ps : Parents α) : Prop := ∀ x, Known ps x → ∃ r, Root ps x r

variable {ps ps' : Parents α} {x y r s : α} {n m : Nat}

theorem RootAt.unique (first : RootAt ps n x r) (second : RootAt ps m x s) : n = m ∧ r = s := by
  induction first generalizing m with
  | here own =>
    cases second with
    | here => exact ⟨rfl, rfl⟩
    | under parent other => exact absurd (Option.some.inj (parent.symm.trans own)) other
  | under parent other _ ih =>
    cases second with
    | here own => exact absurd (Option.some.inj (parent.symm.trans own)) other
    | under parent' _ above' =>
      obtain rfl := Option.some.inj (parent.symm.trans parent')
      obtain ⟨rfl, rfl⟩ := ih above'
      exact ⟨rfl, rfl⟩

theorem Root.unique (first : Root ps x r) (second : Root ps x s) : r = s := by
  obtain ⟨_, first⟩ := first
  obtain ⟨_, second⟩ := second
  exact (first.unique second).2

theorem RootAt.own (at_ : RootAt ps n x r) : parentOf ps r = some r := by
  induction at_ with
  | here own => exact own
  | under _ _ _ ih => exact ih

theorem RootAt.known (at_ : RootAt ps n x r) : Known ps x := by
  cases at_ with
  | here own => exact Option.isSome_of_eq_some own
  | under parent => exact Option.isSome_of_eq_some parent

theorem Root.known (root : Root ps x r) : Known ps x := by
  obtain ⟨_, root⟩ := root
  exact root.known

theorem Root.own (root : Root ps x r) : parentOf ps r = some r := by
  obtain ⟨_, root⟩ := root
  exact root.own

theorem root_self (own : parentOf ps r = some r) : Root ps r r := ⟨0, .here own⟩

/-- The nodes on the way to a root differ from one another, so there are no more of them than entries. -/
theorem RootAt.lt_length (at_ : RootAt ps n x r) : n < ps.length := by
  have way : ∃ nodes : List α, nodes.length = n + 1 ∧ nodes.Nodup ∧ ∀ y ∈ nodes, ∃ k ≤ n, RootAt ps k y r := by
    induction at_ with
    | here own => exact ⟨[_], rfl, List.nodup_singleton _, fun y member => ⟨0, Nat.le_refl 0, List.mem_singleton.mp member ▸ .here own⟩⟩
    | @under n x p r parent other above ih =>
      obtain ⟨nodes, count, apart, ranks⟩ := ih
      refine ⟨x :: nodes, congrArg (· + 1) count, List.nodup_cons.mpr ⟨fun member => ?_, apart⟩, fun y member => ?_⟩
      · obtain ⟨k, bound, root⟩ := ranks _ member
        have depth := (root.unique (.under parent other above)).1
        omega
      · rcases List.mem_cons.mp member with rfl | later
        · exact ⟨_, Nat.le_refl _, .under parent other above⟩
        · obtain ⟨k, bound, root⟩ := ranks y later
          exact ⟨k, Nat.le_succ_of_le bound, root⟩
  obtain ⟨nodes, count, apart, ranks⟩ := way
  have entered : nodes ⊆ ps.map Prod.fst := by
    intro y member
    obtain ⟨k, _, root⟩ := ranks y member
    have known : (Dictionary.entry Prod.fst ps y).isSome = true := by
      have known := root.known
      rwa [Known, parentOf, Option.isSome_map] at known
    obtain ⟨entry, found⟩ := Option.isSome_iff_exists.mp known
    have named : entry.1 = y := by simpa using List.find?_some found
    exact List.mem_map.mpr ⟨entry, List.mem_of_find?_eq_some found, named⟩
  have fits := (List.subperm_of_subset apart entered).length_le
  rw [List.length_map] at fits
  omega

/-! ### Setting parents -/

/-- The same nodes under the same roots. -/
structure Same (ps ps' : Parents α) : Prop where
  known : ∀ x, Known ps' x ↔ Known ps x
  root : ∀ x r, Root ps' x r ↔ Root ps x r

theorem Same.refl (ps : Parents α) : Same ps ps := ⟨fun _ => .rfl, fun _ _ => .rfl⟩

theorem Same.trans {ps'' : Parents α} (first : Same ps ps') (second : Same ps' ps'') : Same ps ps'' :=
  ⟨fun x => (second.known x).trans (first.known x), fun x r => (second.root x r).trans (first.root x r)⟩

theorem Same.forest (same : Same ps ps') (forest : Forest ps) : Forest ps' := by
  intro x known
  obtain ⟨r, root⟩ := forest x ((same.known x).mp known)
  exact ⟨r, (same.root x r).mpr root⟩

/-- Where the roots of one dictionary are roots of the other, and both know the same nodes, they agree. -/
theorem same_of_roots (forest : Forest ps) (known : ∀ x, Known ps' x ↔ Known ps x) (kept : ∀ x r, Root ps x r → Root ps' x r) :
    Same ps ps' := by
  refine ⟨known, fun x r => ⟨fun root' => ?_, kept x r⟩⟩
  obtain ⟨s, root⟩ := forest x ((known x).mp root'.known)
  rwa [root'.unique (kept x s root)]

theorem known_setParent {p : α} : Known (setParent ps x p) y ↔ y = x ∨ Known ps y := by
  rw [Known, parentOf_setParent]
  by_cases same : y = x
  · simp [same]
  · simp [same, Known]

/-- Compression: a node set right below its root. -/
theorem same_compress (forest : Forest ps) (root : Root ps x r) : Same ps (setParent ps x r) := by
  refine same_of_roots forest (fun y => ?_) fun y s root' => ?_
  · rw [known_setParent]
    exact or_iff_right_of_imp fun same => same ▸ root.known
  · obtain ⟨n, at_⟩ := root'
    induction at_ with
    | @here y own =>
      refine root_self ?_
      rw [parentOf_setParent]
      split
      · rename_i same
        subst same
        rw [root.unique (root_self own)]
      · exact own
    | @under n y p s parent other above ih =>
      by_cases same : y = x
      · subst same
        obtain rfl := root.unique ⟨_, .under parent other above⟩
        by_cases top : r = y
        · subst top
          exact root_self (by rw [parentOf_setParent, if_pos rfl])
        · refine ⟨1, .under (by rw [parentOf_setParent, if_pos rfl]) top (.here ?_)⟩
          rw [parentOf_setParent, if_neg top]
          exact root.own
      · obtain ⟨k, above⟩ := ih
        exact ⟨k + 1, .under (by rw [parentOf_setParent, if_neg same]; exact parent) other above⟩

/-- A new node is its own root and changes no other. -/
theorem root_enter (forest : Forest ps) (unknown : ¬ Known ps x) (y s : α) :
    Root (setParent ps x x) y s ↔ Root ps y s ∨ y = x ∧ s = x := by
  have kept : ∀ y s, Root ps y s → Root (setParent ps x x) y s := by
    rintro y s ⟨n, at_⟩
    induction at_ with
    | @here y own =>
      refine root_self ?_
      rw [parentOf_setParent]
      split
      · rename_i same
        rw [same]
      · exact own
    | @under n y p s parent other above ih =>
      have old : y ≠ x := fun same => unknown (same ▸ Option.isSome_of_eq_some parent)
      obtain ⟨k, above⟩ := ih
      exact ⟨k + 1, .under (by rw [parentOf_setParent, if_neg old]; exact parent) other above⟩
  have entered : Root (setParent ps x x) x x := root_self (by rw [parentOf_setParent, if_pos rfl])
  constructor
  · intro root
    by_cases same : y = x
    · subst same
      exact .inr ⟨rfl, root.unique entered⟩
    · rcases known_setParent.mp root.known with here | old
      · exact absurd here same
      · obtain ⟨s', root'⟩ := forest y old
        rw [root.unique (kept y s' root')]
        exact .inl root'
  · rintro (root | ⟨rfl, rfl⟩)
    · exact kept y s root
    · exact entered

/-- One root below another: its nodes change their root. -/
theorem root_link (forest : Forest ps) {a b : α} (first : parentOf ps a = some a) (second : parentOf ps b = some b) (differ : a ≠ b) (y s : α) :
    Root (setParent ps b a) y s ↔ Root ps y s ∧ s ≠ b ∨ Root ps y b ∧ s = a := by
  have top : parentOf (setParent ps b a) a = some a := by rw [parentOf_setParent, if_neg differ, first]
  have moved : ∀ y s, Root ps y s → Root (setParent ps b a) y (if s = b then a else s) := by
    rintro y s ⟨n, at_⟩
    induction at_ with
    | @here y own =>
      by_cases same : y = b
      · subst same
        rw [if_pos rfl]
        exact ⟨1, .under (by rw [parentOf_setParent, if_pos rfl]) differ (.here top)⟩
      · rw [if_neg same]
        exact root_self (by rw [parentOf_setParent, if_neg same, own])
    | @under n y p s parent other above ih =>
      have lower : y ≠ b := by
        rintro rfl
        exact other (Option.some.inj (parent.symm.trans second))
      obtain ⟨k, above⟩ := ih
      exact ⟨k + 1, .under (by rw [parentOf_setParent, if_neg lower]; exact parent) other above⟩
  constructor
  · intro root
    have known : Known ps y := by
      rcases known_setParent.mp root.known with rfl | old
      · exact Option.isSome_of_eq_some second
      · exact old
    obtain ⟨s', root'⟩ := forest y known
    have here := root.unique (moved y s' root')
    by_cases same : s' = b
    · subst same
      exact .inr ⟨root', by rw [here, if_pos rfl]⟩
    · rw [if_neg same] at here
      subst here
      exact .inl ⟨root', same⟩
  · rintro (⟨root, other⟩ | ⟨root, rfl⟩)
    · have kept := moved y s root
      rwa [if_neg other] at kept
    · have kept := moved y b root
      rwa [if_pos rfl] at kept

/-! ### Finding and joining -/

theorem findFrom_same {fuel : Nat} (forest : Forest ps) (at_ : RootAt ps n x r) (enough : n < fuel) :
    (findFrom fuel ps x).2 = r ∧ Same ps (findFrom fuel ps x).1 := by
  induction fuel generalizing n x with
  | zero => exact absurd enough (Nat.not_lt_zero n)
  | succ fuel ih =>
    cases at_ with
    | here own =>
      simp only [findFrom, own, if_true]
      exact ⟨trivial, .refl ps⟩
    | under parent other above =>
      obtain ⟨top, same⟩ := ih above (Nat.lt_of_succ_lt_succ enough)
      simp only [findFrom, parent, if_neg other, top]
      exact ⟨trivial, same.trans (same_compress (same.forest forest) ((same.root _ _).mpr ⟨_, .under parent other above⟩))⟩

/-- What `find` leaves: the same roots, with the node entered. -/
structure Found (ps : Parents α) (x : α) (result : Parents α × α) : Prop where
  forest : Forest result.1
  top : Root result.1 x result.2
  known : ∀ y, Known result.1 y ↔ y = x ∨ Known ps y
  root : ∀ y s, Root result.1 y s ↔ Root ps y s ∨ ¬ Known ps x ∧ y = x ∧ s = x

theorem find_found (forest : Forest ps) (x : α) : Found ps x (find ps x) := by
  by_cases known : Known ps x
  · obtain ⟨r, n, at_⟩ := forest x known
    obtain ⟨top, same⟩ := findFrom_same forest at_ (Nat.lt_succ_of_lt at_.lt_length)
    refine ⟨same.forest forest, ?_, fun y => (same.known y).trans (or_iff_right_of_imp fun here => here ▸ known).symm, fun y s => ?_⟩
    · rw [show (find ps x).2 = r from top]
      exact (same.root x r).mpr ⟨n, at_⟩
    · simp only [known, not_true_eq_false, false_and, or_false]
      exact same.root y s
  · have new : find ps x = (setParent ps x x, x) := by
      have none_ : parentOf ps x = none := Option.not_isSome_iff_eq_none.mp known
      simp only [find, findFrom, none_]
    rw [new]
    have roots := root_enter forest known
    have entered : Root (setParent ps x x) x x := (roots x x).mpr (.inr ⟨rfl, rfl⟩)
    refine ⟨fun y here => ?_, entered, fun y => known_setParent, fun y s => ?_⟩
    · rcases known_setParent.mp here with rfl | old
      · exact ⟨_, entered⟩
      · obtain ⟨s, root⟩ := forest y old
        exact ⟨s, (roots y s).mpr (.inl root)⟩
    · simp only [known, not_false_eq_true, true_and]
      exact roots y s

/-- Finding a node that is known only compresses. -/
theorem find_same (forest : Forest ps) (known : Known ps x) : Same ps (find ps x).1 ∧ Root ps x (find ps x).2 := by
  have found := find_found forest x
  have same : Same ps (find ps x).1 := by
    refine ⟨fun y => (found.known y).trans (or_iff_right_of_imp fun here => here ▸ known), fun y s => (found.root y s).trans ?_⟩
    simp only [known, not_true_eq_false, false_and, or_false]
  exact ⟨same, (same.root _ _).mp found.top⟩

/-- Two nodes under one root. -/
def Joined (ps : Parents α) (x y : α) : Prop := ∃ r, Root ps x r ∧ Root ps y r

theorem Joined.symm (joined : Joined ps x y) : Joined ps y x := by
  obtain ⟨r, first, second⟩ := joined
  exact ⟨r, second, first⟩

theorem Joined.trans {z : α} (first : Joined ps x y) (second : Joined ps y z) : Joined ps x z := by
  obtain ⟨r, top, middle⟩ := first
  obtain ⟨s, middle', bottom⟩ := second
  obtain rfl := middle.unique middle'
  exact ⟨r, top, bottom⟩

/-- Connected by steps in either direction. -/
abbrev Connected (edge : α → α → Prop) : α → α → Prop := Relation.EqvGen edge

/-- The roots after the edges so far: each node of theirs has one, and two nodes share it exactly where the edges connect them. -/
structure Classes (edges : List (α × α)) (ps : Parents α) : Prop where
  forest : Forest ps
  known : ∀ x, Known ps x ↔ ∃ e ∈ edges, x = e.1 ∨ x = e.2
  sound : ∀ x r, Root ps x r → Connected (fun a b => (a, b) ∈ edges) x r
  ends : ∀ e ∈ edges, Joined ps e.1 e.2

theorem classes_nil : Classes ([] : List (α × α)) [] := by
  have unknown : ∀ x : α, ¬ Known ([] : Parents α) x := fun x known => absurd known (by simp [Known, parentOf, Dictionary.entry])
  exact ⟨fun x known => absurd known (unknown x), fun x => ⟨fun known => absurd known (unknown x), by simp⟩,
    fun x r root => absurd root.known (unknown x), by simp⟩

theorem Classes.union {edges : List (α × α)} (classes : Classes edges ps) (u v : α) : Classes (edges ++ [(u, v)]) (union ps u v) := by
  have wider : ∀ {a b}, Connected (fun a b => (a, b) ∈ edges) a b → Connected (fun a b => (a, b) ∈ edges ++ [(u, v)]) a b :=
    fun connected => connected.mono fun _ _ listed => List.mem_append_left _ listed
  have last : Connected (fun a b => (a, b) ∈ edges ++ [(u, v)]) u v := .rel u v (List.mem_append_right _ List.mem_cons_self)
  have first := find_found classes.forest u
  have second := find_found first.forest v
  have known : ∀ x, Known (find (find ps u).1 v).1 x ↔ ∃ e ∈ edges ++ [(u, v)], x = e.1 ∨ x = e.2 := by
    intro x
    rw [second.known, first.known, classes.known]
    constructor
    · rintro (rfl | rfl | ⟨e, listed, end_⟩)
      · exact ⟨(u, x), List.mem_append_right _ List.mem_cons_self, .inr rfl⟩
      · exact ⟨(x, v), List.mem_append_right _ List.mem_cons_self, .inl rfl⟩
      · exact ⟨e, List.mem_append_left _ listed, end_⟩
    · rintro ⟨e, listed, end_⟩
      rcases List.mem_append.mp listed with old | new
      · exact .inr (.inr ⟨e, old, end_⟩)
      · obtain rfl := List.mem_singleton.mp new
        exact end_.elim (fun here => .inr (.inl here)) .inl
  have roots : ∀ x r, Root (find (find ps u).1 v).1 x r → Connected (fun a b => (a, b) ∈ edges ++ [(u, v)]) x r := by
    intro x r root
    rcases (second.root x r).mp root with root | ⟨_, rfl, rfl⟩
    · rcases (first.root x r).mp root with root | ⟨_, rfl, rfl⟩
      · exact wider (classes.sound x r root)
      · exact .refl _
    · exact .refl _
  have ends : ∀ e ∈ edges, Joined (find (find ps u).1 v).1 e.1 e.2 := by
    intro e listed
    obtain ⟨r, top, bottom⟩ := classes.ends e listed
    exact ⟨r, (second.root _ _).mpr (.inl ((first.root _ _).mpr (.inl top))), (second.root _ _).mpr (.inl ((first.root _ _).mpr (.inl bottom)))⟩
  have topU : Root (find (find ps u).1 v).1 u (find ps u).2 := (second.root _ _).mpr (.inl first.top)
  have topV := second.top
  unfold UnionFind.union
  dsimp only
  by_cases same : (find ps u).2 = (find (find ps u).1 v).2
  · rw [if_pos same]
    refine ⟨second.forest, known, roots, fun e listed => ?_⟩
    rcases List.mem_append.mp listed with old | new
    · exact ends e old
    · obtain rfl := List.mem_singleton.mp new
      exact ⟨_, topU, same ▸ topV⟩
  · rw [if_neg same]
    have linked := root_link second.forest topU.own topV.own same
    have moved : ∀ x r, Root (find (find ps u).1 v).1 x r →
        ∃ s, Root (setParent (find (find ps u).1 v).1 (find (find ps u).1 v).2 (find ps u).2) x s ∧
          (s = if r = (find (find ps u).1 v).2 then (find ps u).2 else r) := by
      intro x r root
      by_cases below : r = (find (find ps u).1 v).2
      · subst below
        exact ⟨_, (linked x _).mpr (.inr ⟨root, rfl⟩), by rw [if_pos rfl]⟩
      · exact ⟨r, (linked x r).mpr (.inl ⟨root, below⟩), by rw [if_neg below]⟩
    refine ⟨fun x here => ?_, fun x => ?_, fun x r root => ?_, fun e listed => ?_⟩
    · have old : Known (find (find ps u).1 v).1 x := by
        rcases known_setParent.mp here with rfl | old
        · exact Option.isSome_of_eq_some topV.own
        · exact old
      obtain ⟨r, root⟩ := second.forest x old
      obtain ⟨s, root, _⟩ := moved x r root
      exact ⟨s, root⟩
    · rw [← known x, known_setParent]
      exact or_iff_right_of_imp fun here => here ▸ Option.isSome_of_eq_some topV.own
    · rcases (linked x r).mp root with ⟨old, _⟩ | ⟨lower, rfl⟩
      · exact roots x r old
      · exact .trans _ _ _ (roots x _ lower) (.trans _ _ _ (.symm _ _ (roots v _ topV)) (.trans _ _ _ (.symm _ _ last) (roots u _ topU)))
    · rcases List.mem_append.mp listed with old | new
      · obtain ⟨r, top, bottom⟩ := ends e old
        obtain ⟨s, top, here⟩ := moved _ r top
        obtain ⟨s', bottom, there⟩ := moved _ r bottom
        obtain rfl : s = s' := here.trans there.symm
        exact ⟨s, top, bottom⟩
      · obtain rfl := List.mem_singleton.mp new
        obtain ⟨s, top, here⟩ := moved _ _ topU
        obtain ⟨s', bottom, there⟩ := moved _ _ topV
        rw [if_neg same] at here
        rw [if_pos rfl] at there
        obtain rfl : s = s' := here.trans there.symm
        exact ⟨s, top, bottom⟩

theorem classes_foldl (edges : List (α × α)) : Classes edges (edges.foldl (fun ps e => union ps e.1 e.2) []) := by
  induction edges using List.reverseRecOn with
  | nil => exact classes_nil
  | append_singleton edges e ih =>
    rw [List.foldl_concat]
    exact ih.union e.1 e.2

/-- Two nodes of the edges are under one root exactly where the edges connect them. -/
theorem Classes.joined_iff {edges : List (α × α)} (classes : Classes edges ps) (known : Known ps x) :
    Joined ps x y ↔ Connected (fun a b => (a, b) ∈ edges) x y := by
  constructor
  · rintro ⟨r, first, second⟩
    exact .trans _ _ _ (classes.sound x r first) (.symm _ _ (classes.sound y r second))
  · intro connected
    have either : x = y ∨ Joined ps x y := by
      clear known
      induction connected with
      | rel a b listed => exact .inr (classes.ends _ listed)
      | refl a => exact .inl rfl
      | symm a b _ ih =>
        rcases ih with rfl | joined
        · exact .inl rfl
        · exact .inr joined.symm
      | trans a b c _ _ ih ih' =>
        rcases ih with rfl | joined
        · exact ih'
        · rcases ih' with rfl | joined'
          · exact .inr joined
          · exact .inr (joined.trans joined')
    rcases either with rfl | joined
    · obtain ⟨r, root⟩ := classes.forest x known
      exact ⟨r, root, root⟩
    · exact joined

end UnionFind
