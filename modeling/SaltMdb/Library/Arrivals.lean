import Mathlib.Data.List.Basic
import Mathlib.Data.List.Induction
import Mathlib.Data.List.Nodup
import Mathlib.Data.List.Pairwise

/-! Arrivals that are kept unless one with the same key is there already, and when these are the distinct arrivals. -/

namespace Arrivals

variable {α κ : Type} [DecidableEq κ] (key : α → κ)

def arrive (kept : List α) (a : α) : List α := if ∃ b ∈ kept, key b = key a then kept else kept ++ [a]

/-- The first arrival of each key, in order. -/
def firstOf (arrivals : List α) : List α := arrivals.foldl (arrive key) []

theorem firstOf_concat (arrivals : List α) (a : α) : firstOf key (arrivals ++ [a]) = arrive key (firstOf key arrivals) a := by
  simp [firstOf]

variable {key}

theorem mem_arrive {kept : List α} {a b : α} (member : b ∈ arrive key kept a) : b ∈ kept ∨ b = a := by
  unfold arrive at member
  split at member
  · exact .inl member
  · rcases List.mem_append.mp member with old | new
    · exact .inl old
    · exact .inr (List.mem_singleton.mp new)

theorem arrive_covers (kept : List α) (a : α) : ∃ b ∈ arrive key kept a, key b = key a := by
  unfold arrive
  split
  · assumption
  · exact ⟨a, by simp, rfl⟩

theorem subset_arrive (kept : List α) (a : α) : kept ⊆ arrive key kept a := by
  unfold arrive
  split
  · exact List.Subset.refl kept
  · exact List.subset_append_left kept [a]

theorem mem_of_firstOf {arrivals : List α} {a : α} (member : a ∈ firstOf key arrivals) : a ∈ arrivals := by
  induction arrivals using List.reverseRecOn with
  | nil => exact member
  | append_singleton arrivals last ih =>
    rw [firstOf_concat] at member
    rcases mem_arrive member with old | rfl
    · exact List.mem_append_left _ (ih old)
    · simp

/-- Every arrival has its key among the kept ones. -/
theorem firstOf_covers {arrivals : List α} {a : α} (member : a ∈ arrivals) : ∃ b ∈ firstOf key arrivals, key b = key a := by
  induction arrivals using List.reverseRecOn with
  | nil => cases member
  | append_singleton arrivals last ih =>
    rw [firstOf_concat]
    rcases List.mem_append.mp member with old | new
    · obtain ⟨b, kept, same⟩ := ih old
      exact ⟨b, subset_arrive _ _ kept, same⟩
    · obtain rfl := List.mem_singleton.mp new
      exact arrive_covers _ a

theorem firstOf_separate (arrivals : List α) : (firstOf key arrivals).Pairwise (fun a b => key a ≠ key b) := by
  induction arrivals using List.reverseRecOn with
  | nil => exact .nil
  | append_singleton arrivals last ih =>
    rw [firstOf_concat, arrive]
    split
    · exact ih
    · rename_i fresh
      refine List.pairwise_append.mpr ⟨ih, List.pairwise_singleton _ _, fun b kept a new same => ?_⟩
      obtain rfl := List.mem_singleton.mp new
      exact fresh ⟨b, kept, same⟩

theorem foldl_arrive_separate {kept arrivals : List α} (apart : (kept.map key).Nodup) :
    ((arrivals.foldl (arrive key) kept).map key).Nodup := by
  induction arrivals generalizing kept with
  | nil => exact apart
  | cons a rest ih =>
    refine ih ?_
    unfold arrive
    split
    · exact apart
    · rename_i fresh
      rw [List.map_append, List.map_singleton]
      refine apart.append (List.nodup_singleton _) fun k old new => ?_
      obtain rfl := List.mem_singleton.mp new
      exact fresh (List.mem_map.mp old)

/-- Arrivals in the order of their rank: what is kept of a key is the arrival of least rank. -/
theorem exists_foldl_arrive {rank : α → Nat} {k : κ} {d : Nat} {kept arrivals : List α}
    (ordered : arrivals.Pairwise fun a b => rank a ≤ rank b) :
    (∃ a ∈ arrivals.foldl (arrive key) kept, key a = k ∧ rank a = d) ↔
      (∃ a ∈ kept, key a = k ∧ rank a = d) ∨
        (∀ a ∈ kept, key a ≠ k) ∧ (∃ a ∈ arrivals, key a = k ∧ rank a = d) ∧ ∀ a ∈ arrivals, key a = k → d ≤ rank a := by
  induction arrivals generalizing kept with
  | nil => simp
  | cons a rest ih =>
    obtain ⟨first, ordered⟩ := List.pairwise_cons.mp ordered
    rw [List.foldl_cons, ih ordered]
    unfold arrive
    split
    · rename_i known
      refine or_congr_right (and_congr_right fun none_ => ?_)
      have other : key a ≠ k := by
        rintro rfl
        obtain ⟨b, member, same⟩ := known
        exact none_ b member same
      simp [other]
    · rename_i fresh
      by_cases here : key a = k
      · have unkept : ∀ b ∈ kept, key b ≠ k := fun b member same => fresh ⟨b, member, same.trans here.symm⟩
        constructor
        · rintro (⟨b, member, same, level⟩ | ⟨none_, _⟩)
          · rcases List.mem_append.mp member with old | new
            · exact absurd same (unkept b old)
            · obtain rfl := List.mem_singleton.mp new
              refine .inr ⟨unkept, ⟨b, List.mem_cons_self, same, level⟩, fun c later _ => ?_⟩
              rcases List.mem_cons.mp later with rfl | later
              · exact Nat.le_of_eq level.symm
              · exact level ▸ first c later
          · exact absurd here (none_ a (by simp))
        · rintro (⟨b, member, same, _⟩ | ⟨_, ⟨b, member, same, level⟩, least⟩)
          · exact absurd same (unkept b member)
          · have below := least a List.mem_cons_self here
            refine .inl ⟨a, by simp, here, ?_⟩
            rcases List.mem_cons.mp member with rfl | later
            · exact level
            · have above := first b later
              omega
      · have skip : (∀ b ∈ kept ++ [a], key b ≠ k) ↔ ∀ b ∈ kept, key b ≠ k := by
          simp [or_imp, forall_and, here]
        have kept_ : (∃ b ∈ kept ++ [a], key b = k ∧ rank b = d) ↔ ∃ b ∈ kept, key b = k ∧ rank b = d := by
          simp [or_and_right, exists_or, here]
        rw [skip, kept_]
        simp [here]

theorem eraseDups_concat [DecidableEq α] (arrivals : List α) (a : α) :
    (arrivals ++ [a]).eraseDups = if a ∈ arrivals then arrivals.eraseDups else arrivals.eraseDups ++ [a] := by
  rw [List.eraseDups_append]
  by_cases here : a ∈ arrivals
  · simp [here, List.removeAll]
  · simp [here, List.removeAll, List.eraseDups_cons]

/-- The kept arrivals are the distinct ones exactly where the key tells the arrivals apart. -/
theorem firstOf_eq_eraseDups [DecidableEq α] {arrivals : List α} :
    firstOf key arrivals = arrivals.eraseDups ↔ ∀ a ∈ arrivals, ∀ b ∈ arrivals, key a = key b → a = b := by
  constructor
  · intro same a first b second equal
    have apart : (firstOf key arrivals).Pairwise fun a b => key a ≠ key b := firstOf_separate arrivals
    rw [same] at apart
    have symmetric : Std.Symm fun a b : α => key a ≠ key b := ⟨fun _ _ h => h.symm⟩
    by_contra different
    exact apart.forall (List.mem_eraseDups.mpr first) (List.mem_eraseDups.mpr second) different equal
  · intro apart
    induction arrivals using List.reverseRecOn with
    | nil => rfl
    | append_singleton arrivals last ih =>
      have earlier := ih fun a first b second => apart a (List.mem_append_left _ first) b (List.mem_append_left _ second)
      have known : (∃ b ∈ arrivals.eraseDups, key b = key last) ↔ last ∈ arrivals := by
        constructor
        · rintro ⟨b, kept, equal⟩
          have member := List.mem_eraseDups.mp kept
          rwa [apart b (List.mem_append_left _ member) last (by simp) equal] at member
        · exact fun member => ⟨last, List.mem_eraseDups.mpr member, rfl⟩
      rw [firstOf_concat, eraseDups_concat, earlier, arrive, if_congr known rfl rfl]

end Arrivals
