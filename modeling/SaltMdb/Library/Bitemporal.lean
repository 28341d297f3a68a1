import Mathlib.Order.Max
import Mathlib.Order.Lattice
import Mathlib.Data.List.Pairwise

/-! Rows with a period on each of two time axes: when two of them are current together, and which changes
of a table keep the rows of one key apart. -/

namespace Bitemporal

/-- A half-open period. An absent end is unbounded. -/
structure Period (τ : Type) where
  start : Option τ
  stop : Option τ
deriving DecidableEq

variable {τ : Type}

namespace Period

section Order
variable [LinearOrder τ]

def Contains (p : Period τ) (t : τ) : Prop := (∀ a ∈ p.start, a ≤ t) ∧ ∀ b ∈ p.stop, t < b

/-- `p` starts before `q` stops. -/
def Opens (p q : Period τ) : Prop := ∀ a ∈ p.start, ∀ b ∈ q.stop, a < b

instance (p q : Period τ) : Decidable (p.Opens q) := by
  unfold Opens
  infer_instance

def Meets (p q : Period τ) : Prop := (p.Opens p ∧ q.Opens q) ∧ p.Opens q ∧ q.Opens p

instance (p q : Period τ) : Decidable (p.Meets q) := inferInstanceAs (Decidable (_ ∧ _))

def Inside (p q : Period τ) : Prop := ∀ t, p.Contains t → q.Contains t

theorem opens_of_contains {p q : Period τ} {t : τ} (hp : p.Contains t) (hq : q.Contains t) : p.Opens q :=
  fun a starts b stops => (hp.1 a starts).trans_lt (hq.2 b stops)

theorem inside_refl (p : Period τ) : p.Inside p := fun _ h => h

/-- Ending a period that had no end makes it smaller. -/
theorem inside_of_start {p q : Period τ} (start : p.start = q.start) (open_ : q.stop = none) : p.Inside q := by
  intro t ⟨lower, _⟩
  exact ⟨start ▸ lower, by simp [open_]⟩

/-- The latest start of the two periods lies in both, when their ends leave room for it. -/
theorem meets_iff [NoMinOrder τ] [Nonempty τ] {p q : Period τ} :
    p.Meets q ↔ ∃ t, p.Contains t ∧ q.Contains t := by
  constructor
  · rintro ⟨⟨ownP, ownQ⟩, pq, qp⟩
    have room : ∃ t, (∀ a, a ∈ p.start ∨ a ∈ q.start → a ≤ t) ∧ ∀ b, b ∈ p.stop ∨ b ∈ q.stop → t < b := by
      have below : ∃ t, ∀ b, b ∈ p.stop ∨ b ∈ q.stop → t < b := by
        obtain ⟨any⟩ := ‹Nonempty τ›
        obtain ⟨t, early⟩ := exists_lt (min (p.stop.getD any) (q.stop.getD any))
        refine ⟨t, fun b end_ => early.trans_le ?_⟩
        rcases end_ with end_ | end_
        · rw [Option.mem_def] at end_
          exact (min_le_left _ _).trans (le_of_eq (by rw [end_]; rfl))
        · rw [Option.mem_def] at end_
          exact (min_le_right _ _).trans (le_of_eq (by rw [end_]; rfl))
      obtain ⟨t, early⟩ := below
      refine ⟨max t (max (p.start.getD t) (q.start.getD t)), ?_, ?_⟩
      · rintro a (start | start) <;> rw [Option.mem_def] at start <;> simp [start]
      · intro b end_
        refine max_lt (early b end_) (max_lt ?_ ?_)
        · cases start : p.start with
          | none => exact early b end_
          | some a => exact end_.elim (ownP a start b) (pq a start b)
        · cases start : q.start with
          | none => exact early b end_
          | some a => exact end_.elim (qp a start b) (ownQ a start b)
    obtain ⟨t, lower, upper⟩ := room
    exact ⟨t, ⟨fun a h => lower a (Or.inl h), fun b h => upper b (Or.inl h)⟩,
      fun a h => lower a (Or.inr h), fun b h => upper b (Or.inr h)⟩
  · rintro ⟨t, hp, hq⟩
    exact ⟨⟨opens_of_contains hp hp, opens_of_contains hq hq⟩, opens_of_contains hp hq, opens_of_contains hq hp⟩

end Order
end Period

/-- What a row says and when it was recorded to say it. -/
structure Extent (τ : Type) where
  valid : Period τ
  recorded : Period τ
deriving DecidableEq

namespace Extent
variable [LinearOrder τ]

def Current (e : Extent τ) (valid recorded : τ) : Prop := e.valid.Contains valid ∧ e.recorded.Contains recorded

def Meets (e f : Extent τ) : Prop := e.valid.Meets f.valid ∧ e.recorded.Meets f.recorded

instance (e f : Extent τ) : Decidable (e.Meets f) := inferInstanceAs (Decidable (_ ∧ _))

def Inside (e f : Extent τ) : Prop := e.valid.Inside f.valid ∧ e.recorded.Inside f.recorded

theorem inside_refl (e : Extent τ) : e.Inside e := ⟨e.valid.inside_refl, e.recorded.inside_refl⟩

variable [NoMinOrder τ] [Nonempty τ]

theorem meets_iff {e f : Extent τ} : e.Meets f ↔ ∃ v r, e.Current v r ∧ f.Current v r := by
  unfold Meets
  rw [Period.meets_iff, Period.meets_iff]
  constructor
  · rintro ⟨⟨v, ev, fv⟩, r, er, fr⟩
    exact ⟨v, r, ⟨ev, er⟩, fv, fr⟩
  · rintro ⟨v, r, ⟨ev, er⟩, fv, fr⟩
    exact ⟨⟨v, ev, fv⟩, r, er, fr⟩

theorem meets_of_inside {e e' f f' : Extent τ} (he : e.Inside e') (hf : f.Inside f') (h : e.Meets f) : e'.Meets f' := by
  obtain ⟨v, r, ce, cf⟩ := meets_iff.mp h
  exact meets_iff.mpr ⟨v, r, ⟨he.1 v ce.1, he.2 r ce.2⟩, hf.1 v cf.1, hf.2 r cf.2⟩

end Extent

/-! ### Tables -/

section Tables

variable {ρ κ : Type} [LinearOrder τ] (key : ρ → κ) (extent : ρ → Extent τ)

/-- No two rows of one key are current together. -/
def Apart (rows : List ρ) : Prop := rows.Pairwise fun a b => key a = key b → ¬ (extent a).Meets (extent b)

variable {key extent}

/-- A new row keeps the table apart exactly when it meets no row of its key. -/
theorem apart_append {rows : List ρ} {new : ρ} :
    Apart key extent (rows ++ [new]) ↔
      Apart key extent rows ∧ ∀ r ∈ rows, key r = key new → ¬ (extent r).Meets (extent new) := by
  unfold Apart
  rw [List.pairwise_append]
  simp only [List.pairwise_singleton, List.mem_singleton, forall_eq, true_and]

variable [NoMinOrder τ] [Nonempty τ]

/-- A change that keeps the keys and only shortens the rows keeps them apart. -/
theorem apart_map {f : ρ → ρ} {rows : List ρ} (keeps : ∀ r ∈ rows, key (f r) = key r)
    (shrinks : ∀ r ∈ rows, (extent (f r)).Inside (extent r)) (apart : Apart key extent rows) :
    Apart key extent (rows.map f) := by
  unfold Apart at *
  rw [List.pairwise_map]
  refine apart.imp_of_mem fun {a b} ha hb h same meets => ?_
  rw [keeps a ha, keeps b hb] at same
  exact h same (Extent.meets_of_inside (shrinks a ha) (shrinks b hb) meets)

end Tables
end Bitemporal
