import Mathlib.Data.List.Basic
import SaltMdb.Library.Runs

/-! The migrations behind `PRAGMA user_version`, and the errors that can stop them at any statement. -/

namespace SaltMdb

/-- What `init_db` works on: the content is all but the version, and `completed` the migrations that once ran to their end. -/
structure SchemaFile (σ : Type) where
  userVersion : Nat
  content : σ
  completed : List Nat
deriving DecidableEq, Repr

/-- The statements that a migration runs, read off the content it finds. -/
abbrev MigrationBody (σ : Type) := σ → List (σ → σ)

structure Migration (σ : Type) where
  version : Nat
  /-- The gate on the version. -/
  due : Nat → Bool
  body : MigrationBody σ
  /-- Whether an error undoes the statements before it. -/
  savepoint : Bool

/-- An error at a statement of a migration: the first reads the version, the last sets it. -/
structure Fault where
  statement : Nat
  operational : Bool
deriving DecidableEq, Repr

variable {σ : Type}

def runStatements (statements : List (σ → σ)) (content : σ) : σ := statements.foldl (fun c statement => statement c) content

namespace Migration

variable (m : Migration σ)

/-- The error comes before the version is set. -/
def interrupted (fault : Fault) (s : SchemaFile σ) : Bool :=
  fault.statement == 0 || (m.due s.userVersion && decide (fault.statement ≤ (m.body s.content).length + 1))

def complete (s : SchemaFile σ) : SchemaFile σ :=
  if m.due s.userVersion then
    ⟨m.version, runStatements (m.body s.content) s.content, m.version :: s.completed⟩
  else s

/-- What the statements before the error leave. -/
def broken (fault : Fault) (s : SchemaFile σ) : SchemaFile σ :=
  if m.savepoint || fault.statement == 0 then s
  else { s with content := runStatements ((m.body s.content).take (fault.statement - 1)) s.content }

/-- An operational error is logged and the startup goes on; any other one ends it. -/
def attempt (fault : Option Fault) (s : SchemaFile σ) : Option (SchemaFile σ) :=
  match fault with
  | none => some (m.complete s)
  | some f =>
    if m.interrupted f s then if f.operational then some (m.broken f s) else none
    else some (m.complete s)

end Migration

/-- The statements of the three migrations. -/
structure MigrationBodies (σ : Type) where
  trackA : MigrationBody σ
  predicates : MigrationBody σ
  lifecycle : MigrationBody σ

namespace MigrationBodies

variable (bodies : MigrationBodies σ)

def migrateTrackAVersion1 : Migration σ := ⟨1, (· < 1), bodies.trackA, false⟩

def migratePredicateVersion2 : Migration σ := ⟨2, (· < 2), bodies.predicates, false⟩

def migrateLifecycleVersion3 : Migration σ := ⟨3, (· == 2), bodies.lifecycle, true⟩

end MigrationBodies

/-- The errors of one startup. -/
structure StartupFaults where
  trackA : Option Fault
  predicates : Option Fault
  lifecycle : Option Fault
deriving DecidableEq, Repr

def StartupFaults.none : StartupFaults := ⟨.none, .none, .none⟩

/-- One startup: its transaction is undone as a whole where an error ends it. -/
def startup (bodies : MigrationBodies σ) (s : SchemaFile σ) (faults : StartupFaults) : SchemaFile σ :=
  let migrated := do
    let first ← bodies.migrateTrackAVersion1.attempt faults.trackA s
    let second ← bodies.migratePredicateVersion2.attempt faults.predicates first
    bodies.migrateLifecycleVersion3.attempt faults.lifecycle second
  migrated.getD s

/-! ### Gating -/

/-- The version counts completed migrations only, and what is not completed is so after a startup without errors. -/
structure SchemaFile.Gated (bodies : MigrationBodies σ) (s : SchemaFile σ) : Prop where
  counts : ∀ k ∈ [1, 2, 3], k ≤ s.userVersion → k ∈ s.completed
  recovers : ∀ k ∈ [1, 2, 3], k ∈ (startup bodies s .none).completed

/-- A sweep that stops takes the predicate migration with it. -/
def InStep (bodies : MigrationBodies σ) (faults : StartupFaults) (s : SchemaFile σ) : Prop :=
  s.userVersion < 1 → ∀ fault, faults.trackA = some fault → fault.operational = true →
    bodies.migrateTrackAVersion1.interrupted fault s = true →
    ∃ next, faults.predicates = some next ∧
      bodies.migratePredicateVersion2.interrupted next (bodies.migrateTrackAVersion1.broken fault s) = true

/-- Every migration below the version is completed. -/
def Counts (s : SchemaFile σ) : Prop := ∀ k ∈ [1, 2, 3], k ≤ s.userVersion → k ∈ s.completed

variable {bodies : MigrationBodies σ} {s t : SchemaFile σ} {m : Migration σ} {fault : Option Fault}

/-- An attempt completes the migration, or leaves the version as it is. -/
theorem Migration.attempt_cases (ran : m.attempt fault s = some t) : t = m.complete s ∨
    ∃ f, fault = some f ∧ f.operational = true ∧ m.interrupted f s = true ∧ t = m.broken f s := by
  unfold Migration.attempt at ran
  cases fault with
  | none => exact .inl (Option.some.inj ran).symm
  | some f =>
    dsimp only at ran
    split at ran
    · rename_i hit
      split at ran
      · rename_i operational
        exact .inr ⟨f, rfl, operational, hit, (Option.some.inj ran).symm⟩
      · simp at ran
    · exact .inl (Option.some.inj ran).symm

theorem Migration.broken_version {f : Fault} : (m.broken f s).userVersion = s.userVersion ∧ (m.broken f s).completed = s.completed := by
  unfold Migration.broken
  split <;> exact ⟨rfl, rfl⟩

theorem Counts.broken {f : Fault} (counts : Counts s) : Counts (m.broken f s) := by
  intro k listed below
  obtain ⟨version, completed⟩ := @Migration.broken_version σ s m f
  rw [version] at below
  rw [completed]
  exact counts k listed below

/-- A migration whose prerequisites are completed may set its version. -/
theorem Counts.complete (counts : Counts s) (before : m.due s.userVersion = true → ∀ k ∈ [1, 2, 3], k < m.version → k ∈ s.completed) :
    Counts (m.complete s) := by
  unfold Migration.complete
  split
  · rename_i due
    intro k listed below
    rcases Nat.lt_or_eq_of_le below with earlier | same
    · exact List.mem_cons_of_mem _ (before due k listed earlier)
    · exact same ▸ List.mem_cons_self
  · exact counts

theorem startup_counts {faults : StartupFaults} (counts : Counts s) (inStep : InStep bodies faults s) :
    Counts (startup bodies s faults) := by
  unfold startup
  cases ran : (do
    let first ← bodies.migrateTrackAVersion1.attempt faults.trackA s
    let second ← bodies.migratePredicateVersion2.attempt faults.predicates first
    bodies.migrateLifecycleVersion3.attempt faults.lifecycle second) with
  | none => exact counts
  | some t =>
    simp only [Option.bind_eq_bind, Option.bind_eq_some_iff] at ran
    obtain ⟨first, one, second, two, three⟩ := ran
    have firstCounts : Counts first := by
      rcases Migration.attempt_cases one with rfl | ⟨f, _, _, _, rfl⟩
      · refine counts.complete fun _ k listed below => ?_
        have small : k < 1 := below
        simp only [List.mem_cons, List.not_mem_nil, or_false] at listed
        omega
      · exact counts.broken
    -- The second migration is due on a file of version 0 only where the first one failed.
    have secondCounts : Counts second := by
      rcases Migration.attempt_cases two with rfl | ⟨f, _, _, _, rfl⟩
      · refine firstCounts.complete fun due k listed below => ?_
        have small : k < 2 := below
        obtain rfl : k = 1 := by
          simp only [List.mem_cons, List.not_mem_nil, or_false] at listed
          omega
        refine firstCounts 1 listed ?_
        by_contra early
        rcases Migration.attempt_cases one with rfl | ⟨f, given, operational, hit, rfl⟩
        · unfold Migration.complete at early
          split at early
          · exact early (Nat.le_refl 1)
          · rename_i notDue
            have version : ¬ s.userVersion < 1 := by simpa [MigrationBodies.migrateTrackAVersion1] using notDue
            exact version (Nat.lt_of_not_le early)
        · rw [Migration.broken_version.1] at early
          obtain ⟨next, again, stops⟩ := inStep (Nat.lt_of_not_le early) f given operational hit
          rw [again] at two
          unfold Migration.attempt at two
          dsimp only at two
          rw [if_pos stops] at two
          split at two
          · have version := congrArg SchemaFile.userVersion (Option.some.inj two)
            rw [Migration.broken_version.1, Migration.broken_version.1] at version
            unfold Migration.complete at version
            rw [if_pos due] at version
            have two_ : s.userVersion = 2 := version
            omega
          · simp at two
      · exact firstCounts.broken
    show Counts t
    rcases Migration.attempt_cases three with done | ⟨f, _, _, _, stopped⟩
    · rw [done]
      refine secondCounts.complete fun due k listed below => ?_
      have version : second.userVersion = 2 := by simpa [MigrationBodies.migrateLifecycleVersion3] using due
      have small : k < 3 := below
      exact secondCounts k listed (by omega)
    · rw [stopped]
      exact secondCounts.broken

/-- A startup without errors completes whatever the version does not count. -/
theorem counts_recovers (counts : Counts s) : ∀ k ∈ [1, 2, 3], k ∈ (startup bodies s .none).completed := by
  intro k listed
  have ran : startup bodies s .none = bodies.migrateLifecycleVersion3.complete
      (bodies.migratePredicateVersion2.complete (bodies.migrateTrackAVersion1.complete s)) := rfl
  rw [ran]
  simp only [List.mem_cons, List.not_mem_nil, or_false] at listed
  unfold Migration.complete MigrationBodies.migrateLifecycleVersion3 MigrationBodies.migratePredicateVersion2
    MigrationBodies.migrateTrackAVersion1
  have one : 1 ≤ s.userVersion → 1 ∈ s.completed := counts 1 (by simp)
  have two : 2 ≤ s.userVersion → 2 ∈ s.completed := counts 2 (by simp)
  have three : 3 ≤ s.userVersion → 3 ∈ s.completed := counts 3 (by simp)
  by_cases fresh : s.userVersion < 1
  · rcases listed with rfl | rfl | rfl <;> simp [fresh]
  · by_cases second : s.userVersion < 2
    · rcases listed with rfl | rfl | rfl <;> simp [fresh, second, one (by omega)]
    · by_cases third : s.userVersion = 2
      · rcases listed with rfl | rfl | rfl <;> simp [third, one (by omega), two (by omega)]
      · rcases listed with rfl | rfl | rfl <;> simp [fresh, second, third, one (by omega), two (by omega), three (by omega)]

/-- In every run of startups where no sweep stops without the predicate migration stopping too, the version counts completed
migrations and the others are completed by the next startup without errors. -/
theorem startups_gated (bodies : MigrationBodies σ) (file : SchemaFile σ) (counts : Counts file) (startups : List StartupFaults)
    (inStep : Runs.Guarded (startup bodies) (InStep bodies) startups file) :
    ∀ s ∈ Runs.states (startup bodies) startups file, s.Gated bodies := by
  intro s reached
  have counted : Counts s := by
    refine Runs.invariant_of_guarded (P := Counts) ?_ counts inStep s reached
    intro t faults held allowed
    exact startup_counts held allowed
  exact ⟨counted, counts_recovers counted⟩

/-- Migrations whose statements count. -/
def talliedBodies : MigrationBodies Nat := ⟨fun _ => [(· + 1)], fun _ => [(· + 1), (· + 1)], fun _ => [(· + 1)]⟩

def freshFile : SchemaFile Nat := ⟨0, 0, []⟩

theorem freshFile_counts : Counts freshFile := by
  intro k listed below
  have none : k ≤ 0 := below
  simp only [List.mem_cons, List.not_mem_nil, or_false] at listed
  omega

/-- A startup that finds the file locked, and one that does not. -/
def lockedOnce : List StartupFaults := [⟨some ⟨1, true⟩, some ⟨1, true⟩, none⟩, .none]

theorem lockedOnce_gated : (lockedOnce.foldl (startup talliedBodies) freshFile).Gated talliedBodies := by
  refine startups_gated talliedBodies freshFile freshFile_counts lockedOnce ⟨?_, ?_, trivial⟩ _ (by simp [Runs.states, lockedOnce])
  · intro _ fault given _ _
    obtain rfl := Option.some.inj given
    exact ⟨⟨1, true⟩, rfl, by decide⟩
  · intro _ fault given
    simp [StartupFaults.none] at given

/-- A sweep that fails alone: the two later migrations set the version past it. -/
theorem sweep_leapfrogged : ¬ ∀ (bodies : MigrationBodies Nat) (file : SchemaFile Nat), Counts file →
    ∀ startups, ∀ s ∈ Runs.states (startup bodies) startups file, s.Gated bodies := by
  intro all
  have gated := all talliedBodies freshFile freshFile_counts [⟨some ⟨1, true⟩, none, none⟩] ⟨3, 3, [3, 2]⟩ (by decide)
  have counted : 1 ∈ [3, 2] := gated.counts 1 (by decide) (by decide)
  simp at counted

end SaltMdb
