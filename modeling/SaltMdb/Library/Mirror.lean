import Mathlib.Data.List.Basic

/-! A keyed table with an index that triggers maintain: the index rows of a key follow from the changes of that key. -/

namespace Mirror

variable {κ ρ ι : Type*}

/-- A change of one row of a table. -/
inductive Change (ρ : Type*) where
  | inserted (new : ρ)
  | updated (old new : ρ)
  | deleted (old : ρ)
deriving DecidableEq, Repr

namespace Change

/-- The row that the change is found under. -/
def row : Change ρ → ρ
  | inserted new => new
  | updated old _ => old
  | deleted old => old

def before : Change ρ → Option ρ
  | inserted _ => none
  | updated old _ => some old
  | deleted old => some old

def after : Change ρ → Option ρ
  | inserted new => some new
  | updated _ new => some new
  | deleted _ => none

/-- The row keeps its key. -/
def Keyed (key : ρ → κ) (c : Change ρ) : Prop := ∀ new, c.after = some new → key new = key c.row

end Change

/-- Changes of one key, each of the row that the one before it leaves. -/
inductive Course (key : ρ → κ) (k : κ) : Option ρ → List (Change ρ) → Option ρ → Prop
  | stay (r : Option ρ) : Course key k r [] r
  | step {c : Change ρ} {changes : List (Change ρ)} {r : Option ρ} (named : key c.row = k) (keyed : c.Keyed key)
      (rest : Course key k c.after changes r) : Course key k c.before (c :: changes) r

namespace Course

variable {key : ρ → κ} {k : κ} {before middle after : Option ρ} {changes more : List (Change ρ)}

theorem single {c : Change ρ} (named : key c.row = k) (keyed : c.Keyed key) : Course key k c.before [c] c.after :=
  .step named keyed (.stay _)

theorem trans (first : Course key k before changes middle) (second : Course key k middle more after) :
    Course key k before (changes ++ more) after := by
  induction first with
  | stay => exact second
  | step named keyed _ ih => exact .step named keyed (ih second)

theorem of_nil (course : Course key k before [] after) : after = before := by
  generalize nothing : ([] : List (Change ρ)) = changes at course
  cases course with
  | stay => rfl
  | step => simp at nothing

theorem of_cons {c : Change ρ} (course : Course key k before (c :: changes) after) :
    before = c.before ∧ key c.row = k ∧ c.Keyed key ∧ Course key k c.after changes after := by
  generalize whole : c :: changes = all at course
  cases course with
  | stay => simp at whole
  | step named keyed rest =>
    obtain ⟨rfl, rfl⟩ := List.cons.inj whole
    exact ⟨rfl, named, keyed, rest⟩

theorem split (course : Course key k before (changes ++ more) after) :
    ∃ middle, Course key k before changes middle ∧ Course key k middle more after := by
  induction changes generalizing before with
  | nil => exact ⟨before, .stay _, course⟩
  | cons c changes ih =>
    obtain ⟨rfl, named, keyed, rest⟩ := of_cons course
    obtain ⟨middle, first, second⟩ := ih rest
    exact ⟨middle, .step named keyed first, second⟩

end Course

/-! ### Triggers -/

/-- What a trigger makes of the index after a change. -/
abbrev Trigger (ρ ι : Type*) := Change ρ → List ι → List ι

/-- The triggers one after the other. -/
def fire (triggers : List (Trigger ρ ι)) : Trigger ρ ι := fun c rows => triggers.foldl (fun rows trigger => trigger c rows) rows

def fireAll (trigger : Trigger ρ ι) (changes : List (Change ρ)) (rows : List ι) : List ι :=
  changes.foldl (fun rows c => trigger c rows) rows

variable [DecidableEq κ] {key : ρ → κ} {indexKey : ι → κ} {k : κ}

/-- The index rows of a key. -/
def rowsOf (indexKey : ι → κ) (k : κ) (rows : List ι) : List ι := rows.filter (indexKey · = k)

theorem rowsOf_append (rows more : List ι) : rowsOf indexKey k (rows ++ more) = rowsOf indexKey k rows ++ rowsOf indexKey k more :=
  List.filter_append _ _

theorem rowsOf_rowsOf (rows : List ι) : rowsOf indexKey k (rowsOf indexKey k rows) = rowsOf indexKey k rows := by
  unfold rowsOf
  rw [List.filter_filter]
  simp

/-- A trigger that reads and writes the index rows of the changed key alone. -/
def Local (key : ρ → κ) (indexKey : ι → κ) (trigger : Trigger ρ ι) : Prop :=
  ∀ c : Change ρ, c.Keyed key → ∀ rows k, rowsOf indexKey k (trigger c rows) =
    if key c.row = k then trigger c (rowsOf indexKey k rows) else rowsOf indexKey k rows

theorem Local.fire {triggers : List (Trigger ρ ι)} (own : ∀ trigger ∈ triggers, Local key indexKey trigger) :
    Local key indexKey (fire triggers) := by
  intro c keyed rows k
  induction triggers generalizing rows with
  | nil => exact (ite_self _).symm
  | cons trigger triggers ih =>
    have head := own trigger List.mem_cons_self c keyed rows k
    have tail := ih (fun other member => own other (List.mem_cons_of_mem _ member)) (trigger c rows)
    show rowsOf indexKey k (Mirror.fire triggers c (trigger c rows)) = _
    rw [tail, head]
    split
    · rfl
    · rfl

/-- The index rows of a key come from the changes of that key. -/
theorem Local.fireAll {trigger : Trigger ρ ι} (own : Local key indexKey trigger) {changes : List (Change ρ)}
    (keyed : ∀ c ∈ changes, c.Keyed key) (rows : List ι) :
    rowsOf indexKey k (fireAll trigger changes rows) =
      fireAll trigger (changes.filter (key ·.row = k)) (rowsOf indexKey k rows) := by
  induction changes generalizing rows with
  | nil => rfl
  | cons c changes ih =>
    show rowsOf indexKey k (Mirror.fireAll trigger changes (trigger c rows)) = _
    rw [ih fun other member => keyed other (List.mem_cons_of_mem _ member), own c (keyed c List.mem_cons_self) rows k,
      List.filter_cons]
    by_cases named : key c.row = k
    · rw [if_pos named, if_pos (by simpa using named)]
      rfl
    · rw [if_neg named, if_neg (by simpa using named)]

/-- Rows of one key stay rows of this key. -/
theorem Local.named {trigger : Trigger ρ ι} (own : Local key indexKey trigger) {c : Change ρ} (keyed : c.Keyed key)
    {rows : List ι} (named : ∀ r ∈ rows, indexKey r = key c.row) : ∀ r ∈ trigger c rows, indexKey r = key c.row := by
  have all : rowsOf indexKey (key c.row) rows = rows := List.filter_eq_self.mpr fun r member => by simpa using named r member
  have kept := own c keyed rows (key c.row)
  rw [if_pos rfl, all] at kept
  intro r member
  rw [← kept] at member
  simpa using (List.mem_filter.mp member).2

omit [DecidableEq κ] in
/-- What every change of the key keeps holds at the end of its course. -/
theorem Course.keeps {before after : Option ρ} {changes : List (Change ρ)} {trigger : Trigger ρ ι} (holds : Option ρ → List ι → Prop)
    (step : ∀ c ∈ changes, key c.row = k → c.Keyed key → ∀ rows, holds c.before rows → holds c.after (trigger c rows))
    (course : Course key k before changes after) {rows : List ι} (start : holds before rows) :
    holds after (Mirror.fireAll trigger changes rows) := by
  induction course generalizing rows with
  | stay => exact start
  | @step c changes r named keyed _ ih =>
    have next := step c List.mem_cons_self named keyed rows start
    exact ih (fun other member => step other (List.mem_cons_of_mem _ member)) next

end Mirror
