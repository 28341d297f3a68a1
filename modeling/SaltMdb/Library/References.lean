import Mathlib.Logic.Function.Basic

/-! Rows that refer to other rows of a store: what keeps every reference good while rows change and arrive. -/

namespace References

variable {κ ρ : Type*}

/-- Which rows answer for their references, what these are, and when the row referred to is good. -/
structure Scheme (κ ρ : Type*) where
  answers : ρ → Prop
  refs : ρ → List κ
  good : ρ → κ → ρ → Prop

variable (S : Scheme κ ρ)

def Scheme.Checked (lookup : κ → Option ρ) (r : ρ) : Prop :=
  ∀ d ∈ S.refs r, ∃ t, lookup d = some t ∧ S.good r d t

def Scheme.Sound (lookup : κ → Option ρ) : Prop :=
  ∀ k r, lookup k = some r → S.answers r → S.Checked lookup r

/-- What a row may turn into while others refer to it. -/
structure Scheme.Mild (r r' : ρ) : Prop where
  answers : S.answers r' → S.answers r
  refs : S.answers r' → S.refs r' = S.refs r
  source : S.answers r' → ∀ d t, S.good r d t → S.good r' d t
  target : ∀ s d, S.good s d r → S.good s d r'

variable {S} {lookup lookup' : κ → Option ρ}

theorem Scheme.Mild.refl (r : ρ) : S.Mild r r := ⟨id, fun _ => rfl, fun _ _ _ => id, fun _ _ => id⟩

theorem Scheme.Sound.mild (sound : S.Sound lookup)
    (kept : ∀ k r, lookup k = some r → ∃ r', lookup' k = some r' ∧ S.Mild r r')
    (none_new : ∀ k, lookup k = none → lookup' k = none) : S.Sound lookup' := by
  intro k r' found answers d member
  cases before : lookup k with
  | none =>
    rw [none_new k before] at found
    simp at found
  | some r =>
    obtain ⟨same, here, mild⟩ := kept k r before
    obtain rfl := Option.some.inj (here.symm.trans found)
    rw [mild.refs answers] at member
    obtain ⟨t, target, good⟩ := sound k r before (mild.answers answers) d member
    obtain ⟨t', target', aged⟩ := kept d t target
    exact ⟨t', target', mild.source answers d t' (aged.target r d good)⟩

/-- A row whose references were checked may be written where no row that answers refers to it. -/
theorem Scheme.Sound.write [DecidableEq κ] (sound : S.Sound lookup) {n : κ} {r : ρ} (checked : S.Checked lookup r)
    (self : S.answers r → n ∉ S.refs r)
    (others : ∀ k s, lookup k = some s → S.answers s → k ≠ n → n ∉ S.refs s) :
    S.Sound (Function.update lookup n (some r)) := by
  intro k s found answers
  have apart : S.Checked lookup s ∧ n ∉ S.refs s := by
    by_cases here : k = n
    · rw [here, Function.update_self] at found
      obtain rfl := Option.some.inj found
      exact ⟨checked, self answers⟩
    · rw [Function.update_of_ne here] at found
      exact ⟨sound k s found answers, others k s found answers here⟩
  intro d member
  obtain ⟨t, target, good⟩ := apart.1 d member
  have other : d ≠ n := fun same => apart.2 (same ▸ member)
  exact ⟨t, by rw [Function.update_of_ne other, target], good⟩

/-- A fresh row is referred to by none. -/
theorem Scheme.Sound.arrive [DecidableEq κ] (sound : S.Sound lookup) {n : κ} {r : ρ} (fresh : lookup n = none)
    (checked : S.Checked lookup r) : S.Sound (Function.update lookup n (some r)) := by
  have unreferred : ∀ s, S.Checked lookup s → n ∉ S.refs s := by
    intro s known member
    obtain ⟨t, target, _⟩ := known n member
    simp [fresh] at target
  exact sound.write checked (fun _ => unreferred r checked) fun k s found answers _ => unreferred s (sound k s found answers)

end References
