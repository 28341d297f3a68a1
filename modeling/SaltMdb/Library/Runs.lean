import Mathlib.Data.List.Basic

/-! Runs of a step function over a list of inputs, and what one step's facts say of all the states of a run. -/

namespace Runs

variable {σ ι : Type} (next : σ → ι → σ)

/-- Every state along a run, the first one included. -/
def states : List ι → σ → List σ
  | [], s => [s]
  | i :: rest, s => s :: states rest (next s i)

/-- Every input meets its guard in the state it arrives in. -/
def Guarded (guard : ι → σ → Prop) : List ι → σ → Prop
  | [], _ => True
  | i :: rest, s => guard i s ∧ Guarded guard rest (next s i)

variable {next}

theorem invariant_of_guarded {P : σ → Prop} {guard : ι → σ → Prop}
    (step : ∀ s i, P s → guard i s → P (next s i)) {inputs : List ι} {s : σ} (start : P s)
    (guarded : Guarded next guard inputs s) : ∀ v ∈ states next inputs s, P v := by
  induction inputs generalizing s with
  | nil =>
    intro v member
    obtain rfl := List.mem_singleton.mp member
    exact start
  | cons i rest ih =>
    obtain ⟨here, later⟩ := guarded
    intro v member
    rcases List.mem_cons.mp member with rfl | member
    · exact start
    · exact ih (step s i start here) later v member

theorem Guarded.and {first second : ι → σ → Prop} {inputs : List ι} {s : σ} (h : Guarded next first inputs s)
    (k : Guarded next second inputs s) : Guarded next (fun i s => first i s ∧ second i s) inputs s := by
  induction inputs generalizing s with
  | nil => trivial
  | cons i rest ih => exact ⟨⟨h.1, k.1⟩, ih h.2 k.2⟩

theorem guarded_append {guard : ι → σ → Prop} {first second : List ι} {s : σ} :
    Guarded next guard (first ++ second) s ↔ Guarded next guard first s ∧ Guarded next guard second (first.foldl next s) := by
  induction first generalizing s with
  | nil => simp [Guarded]
  | cons i rest ih => simp [Guarded, ih, and_assoc]

/-- What holds at the start and is kept by every guarded step holds where the run ends. -/
theorem final_of_guarded {P : σ → Prop} {guard : ι → σ → Prop} (step : ∀ s i, P s → guard i s → P (next s i)) {inputs : List ι}
    {s : σ} (start : P s) (guarded : Guarded next guard inputs s) : P (inputs.foldl next s) := by
  induction inputs generalizing s with
  | nil => exact start
  | cons i rest ih => exact ih (step s i start guarded.1) guarded.2

/-- What every step keeps holds where the run ends. -/
theorem final_of_step {P : σ → Prop} (step : ∀ s i, P s → P (next s i)) {s : σ} (start : P s) (inputs : List ι) : P (inputs.foldl next s) := by
  induction inputs generalizing s with
  | nil => exact start
  | cons i rest ih => exact ih (step s i start)

/-- An input that every later one passes can wait for the end. -/
theorem foldl_passed {P : σ → Prop} (kept : ∀ s i, P s → P (next s i)) {i : ι} {inputs : List ι}
    (swap : ∀ s, P s → ∀ j ∈ inputs, next (next s i) j = next (next s j) i) {s : σ} (start : P s) :
    inputs.foldl next (next s i) = next (inputs.foldl next s) i := by
  induction inputs generalizing s with
  | nil => rfl
  | cons j rest ih =>
    rw [List.foldl_cons, List.foldl_cons, swap s start j List.mem_cons_self]
    exact ih (fun s holds j member => swap s holds j (List.mem_cons_of_mem _ member)) (kept s j start)

/-- Inputs that all others pass can be put off until the others are done. -/
theorem foldl_deferred {P : σ → Prop} (kept : ∀ s i, P s → P (next s i)) {late : ι → Bool} {inputs : List ι}
    (swap : ∀ s, P s → ∀ i ∈ inputs, late i = true → ∀ j ∈ inputs, late j = false → next (next s i) j = next (next s j) i) {s : σ}
    (start : P s) : inputs.foldl next s = (inputs.filter (fun i => !late i) ++ inputs.filter late).foldl next s := by
  induction inputs generalizing s with
  | nil => rfl
  | cons i rest ih =>
    have tail := ih (fun s holds i first waits j second => swap s holds i (List.mem_cons_of_mem _ first) waits j (List.mem_cons_of_mem _ second))
      (kept s i start)
    rw [List.foldl_cons, tail]
    cases waits : late i with
    | false => simp [waits]
    | true =>
      have passes : ∀ s, P s → ∀ j ∈ rest.filter (fun i => !late i), next (next s i) j = next (next s j) i := by
        intro s holds j listed
        obtain ⟨here, prompt⟩ := List.mem_filter.mp listed
        exact swap s holds i List.mem_cons_self waits j (List.mem_cons_of_mem _ here) (by simpa using prompt)
      rw [List.foldl_append, foldl_passed kept passes start]
      simp [waits, List.foldl_append]

theorem guarded_of_forall {guard : ι → Prop} {inputs : List ι} {s : σ} (all : ∀ i ∈ inputs, guard i) :
    Guarded next (fun i _ => guard i) inputs s := by
  induction inputs generalizing s with
  | nil => trivial
  | cons i rest ih => exact ⟨all i List.mem_cons_self, ih fun j member => all j (List.mem_cons_of_mem i member)⟩

theorem guarded_true (inputs : List ι) (s : σ) : Guarded next (fun _ _ => True) inputs s := by
  induction inputs generalizing s with
  | nil => trivial
  | cons i rest ih => exact ⟨trivial, ih _⟩

/-- An invariant that gives a step its guard wherever it holds. -/
theorem guarded_of_invariant {P : σ → Prop} {guard : ι → σ → Prop} (step : ∀ s i, P s → P (next s i))
    (gives : ∀ s i, P s → guard i s) {inputs : List ι} {s : σ} (start : P s) : Guarded next guard inputs s := by
  induction inputs generalizing s with
  | nil => trivial
  | cons i rest ih => exact ⟨gives s i start, ih (step s i start)⟩

theorem invariant {P : σ → Prop} (step : ∀ s i, P s → P (next s i)) {inputs : List ι} {s : σ} (start : P s) :
    ∀ v ∈ states next inputs s, P v :=
  invariant_of_guarded (fun s i holds _ => step s i holds) start (guarded_true inputs s)

/-- Where a property is lost exactly at the steps that miss their guard, a run keeps it exactly where every step meets it. -/
theorem states_iff_guarded {E P : σ → Prop} {guard : ι → σ → Prop} (kept : ∀ s i, E s → E (next s i))
    (step : ∀ s i, E s → P s → (P (next s i) ↔ guard i s)) {inputs : List ι} {s : σ} (here : E s) (start : P s) :
    (∀ v ∈ states next inputs s, P v) ↔ Guarded next guard inputs s := by
  induction inputs generalizing s with
  | nil => simpa [states, Guarded] using start
  | cons i rest ih =>
    simp only [states, Guarded, List.forall_mem_cons]
    constructor
    · rintro ⟨_, all⟩
      have first : P (next s i) := all _ (by cases rest <;> simp [states])
      exact ⟨(step s i here start).mp first, (ih (kept s i here) first).mp all⟩
    · rintro ⟨allowed, later⟩
      have first : P (next s i) := (step s i here start).mpr allowed
      exact ⟨start, (ih (kept s i here) first).mpr later⟩

/-- A preorder that every guarded step keeps relates every state of a run to every later one. -/
theorem pairwise_of_guarded {R : σ → σ → Prop} {guard : ι → σ → Prop}
    (trans : ∀ a b c, R a b → R b c → R a c) (step : ∀ s i, guard i s → R s (next s i)) {inputs : List ι} {s : σ}
    (guarded : Guarded next guard inputs s) : (states next inputs s).Pairwise R := by
  induction inputs generalizing s with
  | nil => exact List.pairwise_singleton R s
  | cons i rest ih =>
    obtain ⟨here, later⟩ := guarded
    have reached : ∀ v ∈ states next rest (next s i), R s v :=
      invariant_of_guarded (P := R s) (fun a j holds allowed => trans _ _ _ holds (step a j allowed)) (step s i here) later
    exact List.pairwise_cons.mpr ⟨reached, ih later⟩

theorem pairwise {R : σ → σ → Prop} (trans : ∀ a b c, R a b → R b c → R a c)
    (step : ∀ s i, R s (next s i)) (inputs : List ι) (s : σ) : (states next inputs s).Pairwise R :=
  pairwise_of_guarded trans (fun s i _ => step s i) (guarded_true inputs s)

end Runs
