import Mathlib.Data.List.Basic
import Mathlib.Data.List.Flatten
import Mathlib.Data.List.Perm.Basic

/-! Groups that are split into groups, listed with each group before those it is split into, and the leaf of each member. -/

namespace Nested

variable {ι α : Type}

/-- A group as it is listed. -/
structure Entry (ι α : Type) where
  id : ι
  parent : Option ι
  level : Nat
  members : List α

/-- A place of a member: the leaf it is in, and the level of this leaf. -/
structure Place (ι α : Type) where
  member : α
  leaf : ι
  level : Nat

/-- The entries and the places of some groups of one level, with all that they are split into. -/
inductive Forest (deepest : Nat) : Option ι → Nat → List (List α) → List (Entry ι α) → List (Place ι α) → Prop where
  | nil (parent : Option ι) (level : Nat) : Forest deepest parent level [] [] []
  | leaf {parent : Option ι} {level : Nat} {groups : List (List α)} {entries : List (Entry ι α)} {places : List (Place ι α)}
      (id : ι) (members : List α) (shallow : level ≤ deepest) (rest : Forest deepest parent level groups entries places) :
      Forest deepest parent level (members :: groups) (⟨id, parent, level, members⟩ :: entries)
        (members.map (fun a => ⟨a, id, level⟩) ++ places)
  | split {parent : Option ι} {level : Nat} {inner groups : List (List α)} {within entries : List (Entry ι α)}
      {inside places : List (Place ι α)} (id : ι) (members : List α) (shallow : level < deepest) (nonempty : inner ≠ [])
      (parts : inner.flatten.Perm members) (below : Forest deepest (some id) (level + 1) inner within inside)
      (rest : Forest deepest parent level groups entries places) :
      Forest deepest parent level (members :: groups) (⟨id, parent, level, members⟩ :: (within ++ entries)) (inside ++ places)

namespace Forest

variable {deepest level : Nat} {parent : Option ι} {groups : List (List α)} {entries : List (Entry ι α)} {places : List (Place ι α)}

theorem append {groups' : List (List α)} {entries' : List (Entry ι α)} {places' : List (Place ι α)}
    (h : Forest deepest parent level groups entries places) (k : Forest deepest parent level groups' entries' places') :
    Forest deepest parent level (groups ++ groups') (entries ++ entries') (places ++ places') := by
  induction h with
  | nil => exact k
  | leaf id members shallow rest ih =>
    rw [List.cons_append, List.cons_append, List.append_assoc]
    exact .leaf id members shallow (ih k)
  | split id members shallow nonempty parts below rest _ ih =>
    rw [List.cons_append, List.cons_append, List.append_assoc, List.append_assoc]
    exact .split id members shallow nonempty parts below (ih k)

theorem places_perm (h : Forest deepest parent level groups entries places) : (places.map (·.member)).Perm groups.flatten := by
  induction h with
  | nil => exact List.Perm.refl _
  | @leaf parent level groups entries places id members shallow rest ih =>
    rw [List.map_append, List.map_map, List.flatten_cons]
    refine List.Perm.append ?_ ih
    have same : (fun p : Place ι α => p.member) ∘ (fun a => ⟨a, id, level⟩) = fun a => a := rfl
    rw [same, List.map_id']
  | split id members shallow nonempty parts below rest ih ih' =>
    rw [List.map_append, List.flatten_cons]
    exact (ih.trans parts).append ih'

theorem members_mem (h : Forest deepest parent level groups entries places) {e : Entry ι α} (listed : e ∈ entries) {a : α}
    (member : a ∈ e.members) : a ∈ groups.flatten := by
  induction h with
  | nil => simp at listed
  | leaf id members shallow rest ih =>
    rw [List.flatten_cons]
    rcases List.mem_cons.mp listed with rfl | later
    · exact List.mem_append_left _ member
    · exact List.mem_append_right _ (ih later)
  | split id members shallow nonempty parts below rest ih ih' =>
    rw [List.flatten_cons]
    rcases List.mem_cons.mp listed with rfl | later
    · exact List.mem_append_left _ member
    · rcases List.mem_append.mp later with inner | outer
      · exact List.mem_append_left _ (parts.subset (ih inner))
      · exact List.mem_append_right _ (ih' outer)

/-- The parent of an entry: that of the groups, or an entry of the list. -/
theorem parent_cases (h : Forest deepest parent level groups entries places) {e : Entry ι α} (member : e ∈ entries) :
    e.parent = parent ∨ ∃ q ∈ entries, e.parent = some q.id := by
  induction h with
  | nil => simp at member
  | leaf id members shallow rest ih =>
    rcases List.mem_cons.mp member with rfl | later
    · exact .inl rfl
    · exact (ih later).imp_right fun ⟨q, listed, same⟩ => ⟨q, List.mem_cons_of_mem _ listed, same⟩
  | split id members shallow nonempty parts below rest ih ih' =>
    rcases List.mem_cons.mp member with rfl | later
    · exact .inl rfl
    · rcases List.mem_append.mp later with inner | outer
      · rcases ih inner with own | ⟨q, listed, same⟩
        · exact .inr ⟨_, List.mem_cons_self, own⟩
        · exact .inr ⟨q, List.mem_cons_of_mem _ (List.mem_append_left _ listed), same⟩
      · exact (ih' outer).imp_right fun ⟨q, listed, same⟩ => ⟨q, List.mem_cons_of_mem _ (List.mem_append_right _ listed), same⟩

theorem level_le (h : Forest deepest parent level groups entries places) {e : Entry ι α} (member : e ∈ entries) :
    e.level ≤ deepest := by
  induction h with
  | nil => simp at member
  | leaf id members shallow rest ih =>
    rcases List.mem_cons.mp member with rfl | later
    · exact shallow
    · exact ih later
  | split id members shallow nonempty parts below rest ih ih' =>
    rcases List.mem_cons.mp member with rfl | later
    · exact Nat.le_of_lt shallow
    · exact (List.mem_append.mp later).elim ih ih'

theorem place_entry (h : Forest deepest parent level groups entries places) {p : Place ι α} (placed : p ∈ places) :
    ∃ e ∈ entries, p.leaf = e.id ∧ p.level = e.level ∧ p.member ∈ e.members := by
  induction h with
  | nil => simp at placed
  | leaf id members shallow rest ih =>
    rcases List.mem_append.mp placed with here | later
    · obtain ⟨a, member, rfl⟩ := List.mem_map.mp here
      exact ⟨_, List.mem_cons_self, rfl, rfl, member⟩
    · obtain ⟨e, listed, found⟩ := ih later
      exact ⟨e, List.mem_cons_of_mem _ listed, found⟩
  | split id members shallow nonempty parts below rest ih ih' =>
    rcases List.mem_append.mp placed with here | later
    · obtain ⟨e, listed, found⟩ := ih here
      exact ⟨e, List.mem_cons_of_mem _ (List.mem_append_left _ listed), found⟩
    · obtain ⟨e, listed, found⟩ := ih' later
      exact ⟨e, List.mem_cons_of_mem _ (List.mem_append_right _ listed), found⟩

/-- An entry stands behind its parent, one level below it. -/
theorem ordered (h : Forest deepest parent level groups entries places) {before after : List (Entry ι α)} {e : Entry ι α}
    (here : entries = before ++ e :: after) : (e.parent = parent ∧ e.level = level) ∨
      ∃ q ∈ before, e.parent = some q.id ∧ e.level = q.level + 1 := by
  induction h generalizing before after with
  | nil => simp at here
  | leaf id members shallow rest ih =>
    cases before with
    | nil =>
      obtain ⟨rfl, _⟩ := List.cons.inj here
      exact .inl ⟨rfl, rfl⟩
    | cons first before =>
      obtain ⟨_, later⟩ := List.cons.inj here
      exact (ih later).imp_right fun ⟨q, listed, same⟩ => ⟨q, List.mem_cons_of_mem _ listed, same⟩
  | @split parent level inner groups within entries inside places id members shallow nonempty parts below rest ih ih' =>
    cases before with
    | nil =>
      obtain ⟨rfl, _⟩ := List.cons.inj here
      exact .inl ⟨rfl, rfl⟩
    | cons first before =>
      obtain ⟨rfl, later⟩ := List.cons.inj here
      have outside : ∀ middle, before = within ++ middle → entries = middle ++ e :: after →
          (e.parent = parent ∧ e.level = level) ∨
            ∃ q ∈ ⟨id, parent, level, members⟩ :: before, e.parent = some q.id ∧ e.level = q.level + 1 := by
        rintro middle rfl outer
        exact (ih' outer).imp_right fun ⟨q, listed, same⟩ =>
          ⟨q, List.mem_cons_of_mem _ (List.mem_append_right _ listed), same⟩
      rcases List.append_eq_append_iff.mp later with ⟨middle, split, outer⟩ | ⟨middle, inner, outer⟩
      · exact outside middle split outer
      · cases middle with
        | nil => exact outside [] (by rw [inner, List.append_nil, List.append_nil]) outer.symm
        | cons first middle =>
          obtain ⟨rfl, _⟩ := List.cons.inj outer
          rcases ih inner with ⟨own, one⟩ | ⟨q, listed, same⟩
          · exact .inr ⟨_, List.mem_cons_self, own, one⟩
          · exact .inr ⟨q, List.mem_cons_of_mem _ listed, same⟩

section Distinct

variable [DecidableEq ι]

/-- The entries right under one id. -/
def under (parent : Option ι) (entries : List (Entry ι α)) : List (Entry ι α) := entries.filter (·.parent = parent)

/-- The places in one leaf. -/
def within (leaf : ι) (places : List (Place ι α)) : List (Place ι α) := places.filter (·.leaf = leaf)

theorem under_foreign (h : Forest deepest parent level groups entries places) {id : ι} (foreign : id ∉ entries.map (·.id))
    (apart : parent ≠ some id) : under (some id) entries = [] := by
  refine List.filter_eq_nil_iff.mpr fun e listed same => ?_
  have same : e.parent = some id := of_decide_eq_true same
  rcases h.parent_cases listed with own | ⟨q, found, own⟩
  · exact apart (own.symm.trans same)
  · have eq : q.id = id := Option.some.inj (own.symm.trans same)
    exact foreign (eq ▸ List.mem_map_of_mem found)

theorem within_foreign (h : Forest deepest parent level groups entries places) {id : ι} (foreign : id ∉ entries.map (·.id)) :
    within id places = [] := by
  refine List.filter_eq_nil_iff.mpr fun p placed same => ?_
  obtain ⟨e, listed, found, _⟩ := h.place_entry placed
  have eq : e.id = id := found.symm.trans (of_decide_eq_true same)
  exact foreign (eq ▸ List.mem_map_of_mem listed)

/-- The groups are the members of the entries right under their parent. -/
theorem under_parent (h : Forest deepest parent level groups entries places) (distinct : (entries.map (·.id)).Nodup)
    (apart : ∀ e ∈ entries, parent ≠ some e.id) : (under parent entries).map (·.members) = groups := by
  induction h with
  | nil => rfl
  | @leaf parent level groups entries places id members shallow rest ih =>
    have own : under parent (⟨id, parent, level, members⟩ :: entries) = _ := List.filter_cons_of_pos (decide_eq_true rfl)
    rw [own, List.map_cons]
    exact congrArg _ (ih (List.nodup_cons.mp distinct).2 fun e listed => apart e (List.mem_cons_of_mem _ listed))
  | @split parent level inner groups within entries inside places id members shallow nonempty parts below rest _ ih =>
    have own : under parent (⟨id, parent, level, members⟩ :: (within ++ entries)) = _ :=
      List.filter_cons_of_pos (decide_eq_true rfl)
    obtain ⟨_, tail⟩ := List.nodup_cons.mp distinct
    rw [List.map_append] at tail
    have later : ∀ e ∈ entries, parent ≠ some e.id := fun e listed =>
      apart e (List.mem_cons_of_mem _ (List.mem_append_right _ listed))
    have deeper : within.filter (·.parent = parent) = [] := by
      refine List.filter_eq_nil_iff.mpr fun e listed same => ?_
      have same : e.parent = parent := of_decide_eq_true same
      rcases below.parent_cases listed with own | ⟨q, found, own⟩
      · exact apart _ List.mem_cons_self (same.symm.trans own)
      · exact apart q (List.mem_cons_of_mem _ (List.mem_append_left _ found)) (same.symm.trans own)
    rw [own, List.filter_append, deeper, List.nil_append, List.map_cons]
    exact congrArg _ (ih (List.nodup_append.mp tail).2.1 later)

/-- A leaf has no entry under it and the places of its members; a split entry has those that it is split into, and no place. -/
theorem entry_cases (h : Forest deepest parent level groups entries places) (distinct : (entries.map (·.id)).Nodup)
    (apart : ∀ e ∈ entries, parent ≠ some e.id) {e : Entry ι α} (listed : e ∈ entries) :
    (under (some e.id) entries = [] ∧ within e.id places = e.members.map (⟨·, e.id, e.level⟩)) ∨
      (under (some e.id) entries ≠ [] ∧ within e.id places = [] ∧
        ((under (some e.id) entries).flatMap (·.members)).Perm e.members) := by
  induction h with
  | nil => simp at listed
  | @leaf parent level groups entries places id members shallow rest ih =>
    obtain ⟨foreign, tail⟩ := List.nodup_cons.mp distinct
    rcases List.mem_cons.mp listed with rfl | later
    · have top : parent ≠ some id := apart _ List.mem_cons_self
      have bare : under (some id) (⟨id, parent, level, members⟩ :: entries) = under (some id) entries :=
        List.filter_cons_of_neg (by simpa using top)
      refine .inl ⟨by rw [bare, rest.under_foreign foreign top], ?_⟩
      have all : (members.map fun a => (⟨a, id, level⟩ : Place ι α)).filter (·.leaf = id) =
          members.map fun a => ⟨a, id, level⟩ :=
        List.filter_eq_self.mpr fun p placed => by
          obtain ⟨a, _, rfl⟩ := List.mem_map.mp placed
          exact decide_eq_true rfl
      show List.filter _ _ = _
      rw [List.filter_append, all]
      exact (congrArg _ (rest.within_foreign foreign)).trans (List.append_nil _)
    · have top : parent ≠ some e.id := apart e (List.mem_cons_of_mem _ later)
      have known : e.id ∈ entries.map (·.id) := List.mem_map_of_mem later
      have other : id ≠ e.id := fun same => foreign (same ▸ known)
      have bare : under (some e.id) (⟨id, parent, level, members⟩ :: entries) = under (some e.id) entries :=
        List.filter_cons_of_neg (by simpa using top)
      have apart' : ∀ q ∈ entries, parent ≠ some q.id := fun q found => apart q (List.mem_cons_of_mem _ found)
      have none_ : (members.map fun a => (⟨a, id, level⟩ : Place ι α)).filter (·.leaf = e.id) = [] :=
        List.filter_eq_nil_iff.mpr fun p placed => by
          obtain ⟨a, _, rfl⟩ := List.mem_map.mp placed
          simpa using other
      have same : within e.id (members.map (fun a => ⟨a, id, level⟩) ++ places) = within e.id places := by
        show List.filter _ _ = _
        rw [List.filter_append, none_, List.nil_append]
        rfl
      rw [bare, same]
      exact ih tail apart' later
  | @split parent level inner groups deeper entries inside places id members shallow nonempty parts below rest ih ih' =>
    obtain ⟨foreign, tail⟩ := List.nodup_cons.mp distinct
    rw [List.map_append] at foreign tail
    obtain ⟨notInner, notOuter⟩ := not_or.mp (foreign ∘ List.mem_append.mpr)
    obtain ⟨innerNodup, outerNodup, disjoint⟩ := List.nodup_append.mp tail
    have innerApart : ∀ q ∈ deeper, some id ≠ some q.id := by
      intro q found same
      have known : q.id ∈ deeper.map (·.id) := List.mem_map_of_mem found
      exact notInner (Option.some.inj same ▸ known)
    have split : ∀ x, parent ≠ some x →
        under (some x) (⟨id, parent, level, members⟩ :: (deeper ++ entries)) = under (some x) deeper ++ under (some x) entries := by
      intro x top
      show List.filter _ _ = _
      rw [List.filter_cons_of_neg (by simpa using top), List.filter_append]
      rfl
    have places_ : ∀ x, within x (inside ++ places) = within x inside ++ within x places := fun x => List.filter_append ..
    have top := apart e listed
    rw [split e.id top, places_]
    rcases List.mem_cons.mp listed with rfl | later
    · have children := below.under_parent innerNodup innerApart
      rw [rest.under_foreign notOuter top, List.append_nil, below.within_foreign notInner, rest.within_foreign notOuter]
      refine .inr ⟨fun empty => nonempty (by rw [← children, empty]; rfl), rfl, ?_⟩
      rw [List.flatMap_def, children]
      exact parts
    · rcases List.mem_append.mp later with inner | outer
      · have away : e.id ∉ entries.map (·.id) := fun found => disjoint _ (List.mem_map_of_mem inner) _ found rfl
        rw [rest.under_foreign away top, List.append_nil, rest.within_foreign away, List.append_nil]
        exact ih innerNodup innerApart inner
      · have away : e.id ∉ deeper.map (·.id) := fun found => disjoint _ found _ (List.mem_map_of_mem outer) rfl
        have known : e.id ∈ entries.map (·.id) := List.mem_map_of_mem outer
        have notThis : some id ≠ some e.id := fun same => notOuter (Option.some.inj same ▸ known)
        rw [below.under_foreign away notThis, List.nil_append, below.within_foreign away, List.nil_append]
        exact ih' outerNodup (fun q found => apart q (List.mem_cons_of_mem _ (List.mem_append_right _ found))) outer

end Distinct

end Forest
end Nested
