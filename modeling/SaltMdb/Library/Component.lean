import Mathlib.Data.List.Nodup
import Mathlib.Logic.Relation
import Mathlib.Tactic.TypeStar

/-! The nodes a search with a stack sees, and that they are all that can be reached. -/

namespace Component

variable {α : Type*} [DecidableEq α]

/-- Take nodes from the stack; what follows a node that was not seen goes on it. -/
def explore (next : α → List α) : Nat → List α → List α → List α
  | 0, _, seen => seen
  | _ + 1, [], seen => seen
  | steps + 1, node :: stack, seen =>
    if node ∈ seen then explore next steps stack seen else explore next steps (next node ++ stack) (seen ++ [node])

variable {next : α → List α} {steps : Nat} {stack seen : List α} {seed x : α}

theorem explore_nodup (nodup : seen.Nodup) : (explore next steps stack seen).Nodup := by
  fun_induction explore next steps stack seen with
  | case1 => exact nodup
  | case2 => exact nodup
  | case3 steps node stack seen known ih => exact ih nodup
  | case4 steps node stack seen fresh ih =>
    exact ih (nodup.append (List.nodup_singleton node) (by simpa using fresh))

theorem explore_reached {reached : α → Prop} (onward : ∀ x, reached x → ∀ y ∈ next x, reached y) (old : ∀ x ∈ seen, reached x)
    (waiting : ∀ x ∈ stack, reached x) : ∀ x ∈ explore next steps stack seen, reached x := by
  fun_induction explore next steps stack seen with
  | case1 => exact old
  | case2 => exact old
  | case3 steps node stack seen known ih => exact ih old fun x member => waiting x (List.mem_cons_of_mem _ member)
  | case4 steps node stack seen fresh ih =>
    have here := waiting node List.mem_cons_self
    refine ih (fun x member => ?_) fun x member => ?_
    · rcases List.mem_append.mp member with before | now
      · exact old x before
      · exact List.mem_singleton.mp now ▸ here
    · rcases List.mem_append.mp member with follows | later
      · exact onward node here x follows
      · exact waiting x (List.mem_cons_of_mem _ later)

/-- What the search returns is closed, once the steps cover the stack and all that may still be put on it. -/
theorem explore_closed {left : List α → Nat}
    (spend : ∀ seen node, node ∉ seen → (next node).length + left (seen ++ [node]) ≤ left seen) (enough : stack.length + left seen ≤ steps)
    (frontier : ∀ x ∈ seen, ∀ y ∈ next x, y ∈ seen ∨ y ∈ stack) :
    (∀ x ∈ explore next steps stack seen, ∀ y ∈ next x, y ∈ explore next steps stack seen) ∧
      (∀ x ∈ stack, x ∈ explore next steps stack seen) ∧ ∀ x ∈ seen, x ∈ explore next steps stack seen := by
  fun_induction explore next steps stack seen with
  | case1 stack seen =>
    obtain rfl : stack = [] := List.eq_nil_of_length_eq_zero (by omega)
    exact ⟨fun x member y follows => (frontier x member y follows).resolve_right (by simp), by simp, fun _ => id⟩
  | case2 steps seen => exact ⟨fun x member y follows => (frontier x member y follows).resolve_right (by simp), by simp, fun _ => id⟩
  | case3 steps node stack seen known ih =>
    rw [List.length_cons] at enough
    obtain ⟨closed, waits, keeps⟩ := ih (by omega) fun x member y follows => by
      rcases frontier x member y follows with old | waiting
      · exact .inl old
      · rcases List.mem_cons.mp waiting with rfl | later
        · exact .inl known
        · exact .inr later
    refine ⟨closed, fun x member => ?_, keeps⟩
    rcases List.mem_cons.mp member with rfl | later
    · exact keeps x known
    · exact waits x later
  | case4 steps node stack seen fresh ih =>
    have spent := spend seen node fresh
    rw [List.length_cons] at enough
    obtain ⟨closed, waits, keeps⟩ := ih (by rw [List.length_append]; omega) fun x member y follows => by
      rcases List.mem_append.mp member with before | now
      · rcases frontier x before y follows with old | waiting
        · exact .inl (List.mem_append_left _ old)
        · rcases List.mem_cons.mp waiting with rfl | later
          · exact .inl (List.mem_append_right _ List.mem_cons_self)
          · exact .inr (List.mem_append_right _ later)
      · obtain rfl := List.mem_singleton.mp now
        exact .inr (List.mem_append_left _ follows)
    refine ⟨closed, fun x member => ?_, fun x member => keeps x (List.mem_append_left _ member)⟩
    rcases List.mem_cons.mp member with rfl | later
    · exact keeps x (List.mem_append_right _ List.mem_cons_self)
    · exact waits x (List.mem_append_right _ later)

theorem mem_explore {left : List α → Nat} (spend : ∀ seen node, node ∉ seen → (next node).length + left (seen ++ [node]) ≤ left seen)
    (enough : 1 + left [] ≤ steps) :
    x ∈ explore next steps [seed] [] ↔ Relation.ReflTransGen (fun x y => y ∈ next x) seed x := by
  constructor
  · refine explore_reached (fun x reached y follows => .tail reached follows) (by simp) ?_ x
    intro x member
    exact List.mem_singleton.mp member ▸ .refl
  · intro path
    have frontier : ∀ x ∈ ([] : List α), ∀ y ∈ next x, y ∈ ([] : List α) ∨ y ∈ [seed] := by simp
    obtain ⟨closed, waits, _⟩ := explore_closed spend enough frontier
    induction path with
    | refl => exact waits seed List.mem_cons_self
    | tail _ follows ih => exact closed _ ih _ follows

/-- Where every step leads back, the nodes of a component all have the same component. -/
theorem explore_perm {left : List α → Nat} (spend : ∀ seen node, node ∉ seen → (next node).length + left (seen ++ [node]) ≤ left seen)
    (enough : 1 + left [] ≤ steps) (back : ∀ x y, y ∈ next x → x ∈ next y) (member : x ∈ explore next steps [seed] []) :
    (explore next steps [x] []).Perm (explore next steps [seed] []) := by
  have path := (mem_explore spend enough).mp member
  have symmetric : ∀ {a b : α}, Relation.ReflTransGen (fun x y => y ∈ next x) a b → Relation.ReflTransGen (fun x y => y ∈ next x) b a := by
    intro a b path
    induction path with
    | refl => exact .refl
    | tail _ follows ih => exact .head (back _ _ follows) ih
  refine (List.perm_ext_iff_of_nodup (explore_nodup List.nodup_nil) (explore_nodup List.nodup_nil)).mpr fun y => ?_
  rw [mem_explore spend enough, mem_explore spend enough]
  exact ⟨path.trans, (symmetric path).trans⟩

/-! ### With a queue -/

/-- Take nodes from the head of the queue; what follows a node that was not seen, and was not seen itself, goes to its end. -/
def sweep (next : α → List α) : Nat → List α → List α → List α
  | 0, _, seen => seen
  | _ + 1, [], seen => seen
  | steps + 1, node :: queue, seen =>
    if node ∈ seen then sweep next steps queue seen
    else sweep next steps (queue ++ (next node).filter fun x => decide (x ∉ seen ++ [node])) (seen ++ [node])

variable {queue : List α}

theorem sweep_nodup (nodup : seen.Nodup) : (sweep next steps queue seen).Nodup := by
  fun_induction sweep next steps queue seen with
  | case1 => exact nodup
  | case2 => exact nodup
  | case3 steps node queue seen known ih => exact ih nodup
  | case4 steps node queue seen fresh ih => exact ih (nodup.append (List.nodup_singleton node) (by simpa using fresh))

theorem sweep_reached {reached : α → Prop} (onward : ∀ x, reached x → ∀ y ∈ next x, reached y) (old : ∀ x ∈ seen, reached x)
    (waiting : ∀ x ∈ queue, reached x) : ∀ x ∈ sweep next steps queue seen, reached x := by
  fun_induction sweep next steps queue seen with
  | case1 => exact old
  | case2 => exact old
  | case3 steps node queue seen known ih => exact ih old fun x member => waiting x (List.mem_cons_of_mem _ member)
  | case4 steps node queue seen fresh ih =>
    have here := waiting node List.mem_cons_self
    refine ih (List.forall_mem_append.mpr ⟨old, List.forall_mem_singleton.mpr here⟩) (List.forall_mem_append.mpr ⟨?_, fun x follows => ?_⟩)
    · exact fun x member => waiting x (List.mem_cons_of_mem _ member)
    · exact onward node here x (List.mem_of_mem_filter follows)

theorem sweep_closed {left : List α → Nat}
    (spend : ∀ seen node, node ∉ seen → (next node).length + left (seen ++ [node]) ≤ left seen) (enough : queue.length + left seen ≤ steps)
    (frontier : ∀ x ∈ seen, ∀ y ∈ next x, y ∈ seen ∨ y ∈ queue) :
    (∀ x ∈ sweep next steps queue seen, ∀ y ∈ next x, y ∈ sweep next steps queue seen) ∧
      (∀ x ∈ queue, x ∈ sweep next steps queue seen) ∧ ∀ x ∈ seen, x ∈ sweep next steps queue seen := by
  fun_induction sweep next steps queue seen with
  | case1 queue seen =>
    obtain rfl : queue = [] := List.eq_nil_of_length_eq_zero (by omega)
    exact ⟨fun x member y follows => (frontier x member y follows).resolve_right (by simp), by simp, fun _ => id⟩
  | case2 steps seen => exact ⟨fun x member y follows => (frontier x member y follows).resolve_right (by simp), by simp, fun _ => id⟩
  | case3 steps node queue seen known ih =>
    rw [List.length_cons] at enough
    obtain ⟨closed, waits, keeps⟩ := ih (by omega) fun x member y follows => by
      rcases frontier x member y follows with old | waiting
      · exact .inl old
      · rcases List.mem_cons.mp waiting with rfl | later
        · exact .inl known
        · exact .inr later
    refine ⟨closed, fun x member => ?_, keeps⟩
    rcases List.mem_cons.mp member with rfl | later
    · exact keeps x known
    · exact waits x later
  | case4 steps node queue seen fresh ih =>
    have spent := spend seen node fresh
    have fewer := (next node).length_filter_le fun x => decide (x ∉ seen ++ [node])
    rw [List.length_cons] at enough
    obtain ⟨closed, waits, keeps⟩ := ih (by rw [List.length_append]; omega) fun x member y follows => by
      by_cases known : y ∈ seen ++ [node]
      · exact .inl known
      · refine .inr ?_
        rcases List.mem_append.mp member with before | now
        · rcases frontier x before y follows with old | waiting
          · exact absurd (List.mem_append_left _ old) known
          · rcases List.mem_cons.mp waiting with rfl | later
            · exact absurd (List.mem_append_right _ List.mem_cons_self) known
            · exact List.mem_append_left _ later
        · obtain rfl := List.mem_singleton.mp now
          exact List.mem_append_right _ (List.mem_filter.mpr ⟨follows, decide_eq_true known⟩)
    refine ⟨closed, fun x member => ?_, fun x member => keeps x (List.mem_append_left _ member)⟩
    rcases List.mem_cons.mp member with rfl | later
    · exact keeps x (List.mem_append_right _ List.mem_cons_self)
    · exact waits x (List.mem_append_left _ later)

theorem mem_sweep {left : List α → Nat} (spend : ∀ seen node, node ∉ seen → (next node).length + left (seen ++ [node]) ≤ left seen)
    (enough : 1 + left [] ≤ steps) : x ∈ sweep next steps [seed] [] ↔ Relation.ReflTransGen (fun x y => y ∈ next x) seed x := by
  constructor
  · have onward : ∀ x, Relation.ReflTransGen (fun x y => y ∈ next x) seed x → ∀ y ∈ next x,
        Relation.ReflTransGen (fun x y => y ∈ next x) seed y := fun x reached y follows => .tail reached follows
    exact sweep_reached onward (by simp) (List.forall_mem_singleton.mpr .refl) x
  · intro path
    have frontier : ∀ x ∈ ([] : List α), ∀ y ∈ next x, y ∈ ([] : List α) ∨ y ∈ [seed] := by simp
    obtain ⟨closed, waits, _⟩ := sweep_closed spend enough frontier
    induction path with
    | refl => exact waits seed List.mem_cons_self
    | tail _ follows ih => exact closed _ ih _ follows

end Component
