import Mathlib.Data.List.Pairwise
import Mathlib.Data.List.Basic
import Mathlib.Order.Basic

/-! Spans of a sequence, merged where they come within a gap of each other. -/

structure Span where
  start : Nat
  stop : Nat
deriving DecidableEq, Repr

namespace Span

/-- One span holds another. -/
def Covers (s t : Span) : Prop := s.start ≤ t.start ∧ t.stop ≤ s.stop

def Within (length : Nat) (s : Span) : Prop := s.start ≤ s.stop ∧ s.stop ≤ length

instance (length : Nat) (s : Span) : Decidable (s.Within length) := inferInstanceAs (Decidable (_ ∧ _))

/-- One span ends, and more than a gap later the other starts. -/
def Apart (gap : Nat) (s t : Span) : Prop := s.stop + gap < t.start

/-- The merged spans are listed from the last to the first. -/
def absorb (gap : Nat) : List Span → Span → List Span
  | [], s => [s]
  | last :: done, s =>
    if s.start ≤ last.stop + gap then ⟨last.start, max last.stop s.stop⟩ :: done else s :: last :: done

def merge (gap : Nat) (spans : List Span) : List Span := (spans.foldl (absorb gap) []).reverse

def slice {α : Type} (text : List α) (s : Span) : List α := (text.take s.stop).drop s.start

variable {gap length : Nat} {spans merged : List Span} {s t u : Span}

theorem Covers.refl (s : Span) : s.Covers s := ⟨Nat.le_refl _, Nat.le_refl _⟩

theorem Covers.trans (first : s.Covers t) (second : t.Covers u) : s.Covers u :=
  ⟨Nat.le_trans first.1 second.1, Nat.le_trans second.2 first.2⟩

/-- What is kept while spans arrive in the order of their starts: the merged ones lie apart, start no later than the next one, and
cover all that came. -/
structure Merging (gap length : Nat) (arrived merged : List Span) : Prop where
  apart : merged.Pairwise fun later earlier => earlier.Apart gap later
  within : ∀ s ∈ merged, s.Within length
  starts : ∀ s ∈ merged, ∃ t ∈ arrived, s.start = t.start
  covers : ∀ t ∈ arrived, ∃ s ∈ merged, s.Covers t

theorem Merging.nil : Merging gap length [] [] := ⟨.nil, by simp, by simp, by simp⟩

theorem Merging.absorb {arrived : List Span} (merging : Merging gap length arrived merged) (inside : t.Within length)
    (later : ∀ a ∈ arrived, a.start ≤ t.start) : Merging gap length (arrived ++ [t]) (Span.absorb gap merged t) := by
  obtain ⟨apart, within, starts, covers⟩ := merging
  cases merged with
  | nil =>
    refine ⟨List.pairwise_singleton _ _, ?_, ?_, ?_⟩
    · exact fun s same => List.mem_singleton.mp same ▸ inside
    · exact fun s same => ⟨t, List.mem_append_right _ List.mem_cons_self, by rw [List.mem_singleton.mp same]⟩
    · intro a listed
      rcases List.mem_append.mp listed with old | new
      · obtain ⟨s, none_, _⟩ := covers a old
        exact absurd none_ List.not_mem_nil
      · rw [List.mem_singleton.mp new]
        exact ⟨t, List.mem_cons_self, Covers.refl t⟩
  | cons last done =>
    obtain ⟨first, rest⟩ := List.pairwise_cons.mp apart
    obtain ⟨origin, known, from_⟩ := starts last List.mem_cons_self
    have before : last.start ≤ t.start := from_ ▸ later origin known
    have lastInside := within last List.mem_cons_self
    dsimp only [Span.absorb]
    split
    · -- the last span grows to the end of the new one
      have grown : Covers ⟨last.start, max last.stop t.stop⟩ last := ⟨Nat.le_refl _, Nat.le_max_left _ _⟩
      have taken : Covers ⟨last.start, max last.stop t.stop⟩ t := ⟨before, Nat.le_max_right _ _⟩
      refine ⟨List.pairwise_cons.mpr ⟨fun s listed => first s listed, rest⟩, ?_, ?_, ?_⟩
      · intro s listed
        rcases List.mem_cons.mp listed with rfl | older
        · exact ⟨Nat.le_trans lastInside.1 (Nat.le_max_left _ _), Nat.max_le.mpr ⟨lastInside.2, inside.2⟩⟩
        · exact within s (List.mem_cons_of_mem _ older)
      · intro s listed
        rcases List.mem_cons.mp listed with rfl | older
        · exact ⟨origin, List.mem_append_left _ known, from_⟩
        · obtain ⟨a, old, same⟩ := starts s (List.mem_cons_of_mem _ older)
          exact ⟨a, List.mem_append_left _ old, same⟩
      · intro a listed
        rcases List.mem_append.mp listed with old | new
        · obtain ⟨s, held, over_⟩ := covers a old
          rcases List.mem_cons.mp held with rfl | older
          · exact ⟨_, List.mem_cons_self, grown.trans over_⟩
          · exact ⟨s, List.mem_cons_of_mem _ older, over_⟩
        · rw [List.mem_singleton.mp new]
          exact ⟨_, List.mem_cons_self, taken⟩
    · rename_i far
      have away : last.Apart gap t := Nat.lt_of_not_le far
      refine ⟨List.pairwise_cons.mpr ⟨fun s listed => ?_, apart⟩, ?_, ?_, ?_⟩
      · rcases List.mem_cons.mp listed with rfl | older
        · exact away
        · exact Nat.lt_of_lt_of_le (first s older) before
      · intro s listed
        rcases List.mem_cons.mp listed with rfl | older
        · exact inside
        · exact within s older
      · intro s listed
        rcases List.mem_cons.mp listed with rfl | older
        · exact ⟨s, List.mem_append_right _ List.mem_cons_self, rfl⟩
        · obtain ⟨a, old, same⟩ := starts s older
          exact ⟨a, List.mem_append_left _ old, same⟩
      · intro a listed
        rcases List.mem_append.mp listed with old | new
        · obtain ⟨s, held, over_⟩ := covers a old
          exact ⟨s, List.mem_cons_of_mem _ held, over_⟩
        · rw [List.mem_singleton.mp new]
          exact ⟨t, List.mem_cons_self, Covers.refl t⟩

theorem merging_foldl (inside : ∀ s ∈ spans, s.Within length) {arrived : List Span} (merging : Merging gap length arrived merged)
    (sorted : (arrived ++ spans).Pairwise fun a b => a.start ≤ b.start) :
    Merging gap length (arrived ++ spans) (spans.foldl (Span.absorb gap) merged) := by
  induction spans generalizing arrived merged with
  | nil => rwa [List.append_nil]
  | cons t spans ih =>
    have earlier : ∀ a ∈ arrived, a.start ≤ t.start := fun a listed =>
      (List.pairwise_append.mp sorted).2.2 a listed t List.mem_cons_self
    have next := merging.absorb (inside t List.mem_cons_self) earlier
    have split : arrived ++ t :: spans = (arrived ++ [t]) ++ spans := List.append_cons ..
    rw [split] at sorted ⊢
    exact ih (fun s listed => inside s (List.mem_cons_of_mem _ listed)) next sorted

/-- Sorted spans of a text, merged: sorted spans of the text more than the gap apart, which cover those that were merged. -/
theorem merge_spec (inside : ∀ s ∈ spans, s.Within length) (sorted : spans.Pairwise fun a b => a.start ≤ b.start) :
    (merge gap spans).Pairwise (Apart gap) ∧ (∀ s ∈ merge gap spans, s.Within length) ∧
      ∀ t ∈ spans, ∃ s ∈ merge gap spans, s.Covers t := by
  have merging : Merging gap length ([] ++ spans) _ := merging_foldl inside .nil sorted
  rw [List.nil_append] at merging
  refine ⟨List.pairwise_reverse.mpr merging.apart, fun s listed => merging.within s (List.mem_reverse.mp listed), fun t listed => ?_⟩
  obtain ⟨s, held, over_⟩ := merging.covers t listed
  exact ⟨s, List.mem_reverse.mpr held, over_⟩

end Span
