import Mathlib.Data.List.Perm.Subperm
import SaltMdb.Daemon.Coordinator

/-! What holds of the coordinator after any run of its threads: how the lanes are served, and what becomes of the futures. -/

namespace SaltMdb
open Runs

variable {α : Type}

/-- The jobs the writer has taken and not settled. -/
def Writer.hand : Writer α → List WriteJob
  | .took job => [job]
  | .executing job _ => [job]
  | .settling job _ => [job]
  | .draining _ jobs => jobs
  | _ => []

/-- Those of them that have not run. -/
def Writer.unstarted : Writer α → List WriteJob
  | .took job => [job]
  | .draining _ jobs => jobs
  | _ => []

/-- The steps of threads that are at work already: the calls of `begin_draining`, the notifications and the writer. -/
def Action.internal : Action α → Bool
  | .notify | .drain _ | .openWriter _ | .attempt _ | .work => true
  | _ => false

namespace Coordinator

variable (s : Coordinator α)

def lane : Priority → List WriteJob
  | .foreground => s.foreground
  | .background => s.background

/-- The jobs that are waiting somewhere for their end. -/
def held : List WriteJob := s.foreground ++ s.background ++ s.drainers.flatten ++ s.writer.hand

def unstarted : List WriteJob := s.foreground ++ s.background ++ s.drainers.flatten ++ s.writer.unstarted

/-! ### What one step can do -/

/-- The future whose result or exception a step is about to set. -/
def toSet : Action α → Option Nat
  | .drain drainer =>
    match s.drainers[drainer]? with
    | some (job :: _) => some job.future
    | _ => none
  | .work =>
    match s.writer with
    | .settling job _ => some job.future
    | .draining _ (job :: _) => some job.future
    | _ => none
  | _ => none

/-- The steps that change something, with what they find, what they leave and what they let be seen, and whether they are cut
short by a future that cannot be set. -/
inductive Moves (action : Action α) : Bool → Coordinator α → List Sight → Prop where
  | start (called : action.internal = false) (off : s.started = false) : Moves action false { s with started := true, writer := .opening } []
  | putForeground (called : action.internal = false) (label : String) (on : s.started = true) (admits : s.stopping = false) :
    Moves action false { s with
      foreground := s.foreground ++ [⟨label, false, s.futures.length⟩]
      futures := s.futures ++ [.pending]
      notices := s.notices + 1 } [.admitted .foreground s.futures.length]
  | putBackground (called : action.internal = false) (label : String) (maintenance : Bool) (on : s.started = true)
      (admits : s.stopping = false) :
    Moves action false { s with
      background := s.background ++ [⟨label, maintenance, s.futures.length⟩]
      futures := s.futures ++ [.pending]
      notices := s.notices + 1 } [.admitted .background s.futures.length]
  | notify (due : s.notices ≠ 0) : Moves action false { s.wake with notices := s.notices - 1 } []
  | cancel (called : action.internal = false) (future : Nat) : Moves action false { s with futures := s.futures.modify future Future.cancel } []
  | beginDraining (called : action.internal = false) :
    Moves action false { s with
      stopping := true
      foreground := []
      background := []
      drainers := s.drainers ++ [s.foreground ++ s.background] } [.drainingBegun false]
  | refuse (drainer : Nat) (job : WriteJob) (jobs : List WriteJob) (found : s.drainers[drainer]? = some (job :: jobs))
      (unresolved : s.futures[job.future]? = some .pending) :
    Moves action false { s with
      futures := s.futures.set job.future (.done (.error shuttingDown))
      drainers := s.drainers.set drainer jobs } [.refused job.future]
  | endDrain (drainer : Nat) (found : s.drainers[drainer]? = some []) :
    Moves action false { s.wake with drainers := s.drainers.eraseIdx drainer } []
  | failDrain (drainer : Nat) (job : WriteJob) (jobs : List WriteJob) (found : s.drainers[drainer]? = some (job :: jobs))
      (resolved : s.futures[job.future]? ≠ some .pending) :
    Moves action true { s with drainers := s.drainers.eraseIdx drainer } []
  | opened (stands : s.writer = .opening) : Moves action false { s with writer := .waiting, foregroundRun := 0 } []
  | openFailed (stands : s.writer = .opening) : Moves action false { s with writer := .leaving .openFailed } [.departed .openFailed]
  | returned (job : WriteJob) (attempt : Nat) (value : α) (stands : s.writer = .executing job attempt) :
    Moves action false { s with writer := .settling job (.ok value) } [.returned job.future]
  | retried (job : WriteJob) (attempt : Nat) (stands : s.writer = .executing job attempt) (left : attempt < retryMaxAttempts)
      (transaction : job.maintenance = false) :
    Moves action false { s with writer := .executing job (attempt + 1) } []
  | raised (job : WriteJob) (attempt : Nat) (raised : Raised) (stands : s.writer = .executing job attempt) :
    Moves action false { s with writer := .settling job (.error raised) } []
  | stop (stands : s.writer = .waiting ∨ s.writer = .idle) (stopping : s.stopping = true) :
    Moves action false { s with writer := .leaving .stopping } [.departed .stopping]
  | select (stands : s.writer = .waiting) (goes : s.stopping = false) : Moves action false { s with writer := .selecting } []
  | takeForeground (job : WriteJob) (jobs : List WriteJob) (stands : s.writer = .selecting) (first : s.foreground = job :: jobs)
      (allowed : s.background = [] ∨ s.foregroundRun < 8) :
    Moves action false { s with
      foreground := jobs
      foregroundRun := s.foregroundRun + 1
      writer := .took job } [.taken .foreground job.future (s.background ≠ [])]
  | takeBackground (job : WriteJob) (jobs : List WriteJob) (stands : s.writer = .selecting) (first : s.background = job :: jobs) :
    Moves action false { s with
      background := jobs
      foregroundRun := 0
      writer := .took job } [.taken .background job.future true]
  | rest (stands : s.writer = .selecting) : Moves action false { s with writer := .idle } []
  | sleep (stands : s.writer = .idle) (goes : s.stopping = false) (none_ : s.foreground = [] ∧ s.background = []) :
    Moves action false { s with writer := .asleep } []
  | return_ (stands : s.writer = .idle) (goes : s.stopping = false) : Moves action false { s with writer := .waiting } []
  | skip (job : WriteJob) (stands : s.writer = .took job) (dropped : s.futures[job.future]? = some .cancelled) :
    Moves action false { s with writer := .waiting } []
  | execute (job : WriteJob) (stands : s.writer = .took job) :
    Moves action false { s with writer := .executing job 0 } [.executed job.future]
  | complete (job : WriteJob) (value : α) (stands : s.writer = .settling job (.ok value))
      (unresolved : s.futures[job.future]? = some .pending) :
    Moves action false { s with
      futures := s.futures.set job.future (.done (.ok value))
      writer := .waiting
      completed := s.completed + 1 } []
  | fail (job : WriteJob) (raised : Raised) (stands : s.writer = .settling job (.error raised))
      (unresolved : s.futures[job.future]? = some .pending) (catches : raised.isException = true) :
    Moves action false { s with
      futures := s.futures.set job.future (.done (.error raised))
      writer := .waiting
      failed := s.failed + 1 } []
  | exit (job : WriteJob) (raised : Raised) (stands : s.writer = .settling job (.error raised))
      (unresolved : s.futures[job.future]? = some .pending) (passes : raised.isException = false) :
    Moves action false { s with
      futures := s.futures.set job.future (.done (.error raised))
      writer := .leaving .exited
      failed := s.failed + 1 } [.departed .exited]
  | break_ (job : WriteJob) (outcome : Except Raised α) (completed failed : Nat) (stands : s.writer = .settling job outcome)
      (resolved : s.futures[job.future]? ≠ some .pending) :
    Moves action true { s with
      writer := .leaving .unsettled
      completed := completed
      failed := failed } [.departed .unsettled]
  | drainOwn (departure : Departure) (stands : s.writer = .leaving departure) :
    Moves action false { s with
      stopping := true
      foreground := []
      background := []
      writer := .draining departure (s.foreground ++ s.background) } [.drainingBegun true]
  | refuseOwn (departure : Departure) (job : WriteJob) (jobs : List WriteJob) (stands : s.writer = .draining departure (job :: jobs))
      (unresolved : s.futures[job.future]? = some .pending) :
    Moves action false { s with
      futures := s.futures.set job.future (.done (.error shuttingDown))
      writer := .draining departure jobs } [.refused job.future]
  | failOwn (departure : Departure) (job : WriteJob) (jobs : List WriteJob) (stands : s.writer = .draining departure (job :: jobs))
      (resolved : s.futures[job.future]? ≠ some .pending) :
    Moves action true { s with writer := .stopped } []
  | endOwn (departure : Departure) (stands : s.writer = .draining departure []) (started : Bool)
      (off : departure ≠ .openFailed → started = s.started) :
    Moves action false { s with writer := .stopped, started := started } []

variable {s}

theorem settle_cases (job : WriteJob) (outcome : Except Raised α) :
    (s.futures[job.future]? = some .pending ∧ s.settle job outcome = some { s with futures := s.futures.set job.future (.done outcome) }) ∨
      (s.futures[job.future]? ≠ some .pending ∧ s.settle job outcome = none) := by
  unfold settle
  cases found : s.futures[job.future]? with
  | none => exact .inr ⟨nofun, rfl⟩
  | some future =>
    cases future with
    | pending => exact .inl ⟨rfl, rfl⟩
    | cancelled => exact .inr ⟨nofun, rfl⟩
    | done outcome' => exact .inr ⟨nofun, rfl⟩

/-- Nothing happens, or one of the moves. -/
def Steps (s : Coordinator α) (action : Action α) (result : Coordinator α × List Sight) : Prop :=
  result = (s, []) ∨ ∃ broken, s.Moves action broken result.1 result.2 ∧
    (broken = true → ∃ future, s.toSet action = some future ∧ s.futures[future]? ≠ some .pending)

theorem Moves.steps {t : Coordinator α} {sights : List Sight} {action : Action α} (moves : s.Moves action false t sights) :
    s.Steps action (t, sights) := .inr ⟨false, moves, nofun⟩

theorem Moves.breaks {t : Coordinator α} {sights : List Sight} {action : Action α} {future : Nat} (moves : s.Moves action true t sights)
    (sets : s.toSet action = some future) (resolved : s.futures[future]? ≠ some .pending) : s.Steps action (t, sights) :=
  .inr ⟨true, moves, fun _ => ⟨future, sets, resolved⟩⟩

theorem submit_cases (byWriter : Bool) (label : String) (priority : Priority) : s.Steps (.submit byWriter label priority) (s.submit byWriter label priority) := by
  unfold submit
  split
  · exact .inl rfl
  · split
    · exact .inl rfl
    · rename_i on
      rw [Bool.not_eq_true, Bool.not_eq_false'] at on
      split
      · exact .inl rfl
      · rename_i admits
        rw [Bool.not_eq_true] at admits
        cases priority with
        | foreground => exact (Moves.putForeground rfl label on admits).steps
        | background => exact (Moves.putBackground rfl label false on admits).steps

theorem submitMaintenance_cases (byWriter : Bool) (label : String) : s.Steps (.submitMaintenance byWriter label) (s.submitMaintenance byWriter label) := by
  unfold submitMaintenance
  split
  · exact .inl rfl
  · split
    · exact .inl rfl
    · rename_i on
      rw [Bool.not_eq_true, Bool.not_eq_false'] at on
      split
      · exact .inl rfl
      · rename_i admits
        rw [Bool.not_eq_true] at admits
        exact (Moves.putBackground rfl label true on admits).steps

theorem drain_cases (drainer : Nat) : s.Steps (.drain drainer) (s.drain drainer) := by
  unfold drain
  cases found : s.drainers[drainer]? with
  | none => exact .inl rfl
  | some jobs =>
    cases jobs with
    | nil => exact (Moves.endDrain drainer found).steps
    | cons job jobs =>
      rcases settle_cases (s := s) job (.error shuttingDown) with ⟨unresolved, set⟩ | ⟨resolved, set⟩
      · simp only [set]
        exact (Moves.refuse drainer job jobs found unresolved).steps
      · simp only [set]
        exact (Moves.failDrain drainer job jobs found resolved).breaks (by simp only [toSet, found]) resolved

theorem attempt_cases (outcome : Except Raised α) : s.Steps (.attempt outcome) (s.attempt outcome) := by
  unfold attempt
  split
  · rename_i job attempt stands
    cases outcome with
    | ok value => exact (Moves.returned job attempt value stands).steps
    | error raised =>
      dsimp only
      split
      · rename_i again
        simp only [Bool.and_eq_true, Bool.not_eq_eq_eq_not, Bool.not_true, decide_eq_true_eq] at again
        exact (Moves.retried job attempt stands again.2 again.1.1).steps
      · exact (Moves.raised job attempt raised stands).steps
  · exact .inl rfl

theorem takeForeground_eq (behind : Bool) :
    (s.foreground = [] ∧ s.takeForeground behind = none) ∨
      ∃ job jobs, s.foreground = job :: jobs ∧ s.takeForeground behind =
        some ({ s with foreground := jobs, foregroundRun := s.foregroundRun + 1, writer := .took job },
          [.taken .foreground job.future behind]) := by
  unfold Coordinator.takeForeground
  split
  · exact .inl ⟨‹_›, rfl⟩
  · exact .inr ⟨_, _, ‹_›, rfl⟩

theorem takeBackground_eq :
    (s.background = [] ∧ s.takeBackground = none) ∨
      ∃ job jobs, s.background = job :: jobs ∧ s.takeBackground =
        some ({ s with background := jobs, foregroundRun := 0, writer := .took job }, [.taken .background job.future true]) := by
  unfold Coordinator.takeBackground
  split
  · exact .inl ⟨‹_›, rfl⟩
  · exact .inr ⟨_, _, ‹_›, rfl⟩

theorem nextJob_cases (stands : s.writer = .selecting) : s.Steps .work (s.nextJob.getD ({ s with writer := .idle }, [])) := by
  unfold nextJob
  split
  · rename_i due
    rcases takeBackground_eq (s := s) with ⟨none_, _⟩ | ⟨job, jobs, first, taken⟩
    · exact absurd none_ due.2
    · rw [taken]
      exact (Moves.takeBackground job jobs stands first).steps
  · rename_i notDue
    rcases takeForeground_eq (s := s) (s.background ≠ []) with ⟨_, nothing⟩ | ⟨job, jobs, first, taken⟩
    · rw [nothing, Option.none_or]
      rcases takeBackground_eq (s := s) with ⟨_, nothing⟩ | ⟨job, jobs, first, taken⟩
      · rw [nothing]
        exact (Moves.rest stands).steps
      · rw [taken]
        exact (Moves.takeBackground job jobs stands first).steps
    · have allowed : s.background = [] ∨ s.foregroundRun < 8 := by
        by_cases none_ : s.background = []
        · exact .inl none_
        · exact .inr (Nat.not_le.mp fun long => notDue ⟨long, none_⟩)
      rw [taken, Option.some_or]
      exact (Moves.takeForeground job jobs stands first allowed).steps

theorem settleJob_cases {job : WriteJob} {outcome : Except Raised α} (stands : s.writer = .settling job outcome) :
    s.Steps .work (s.settleJob job outcome) := by
  unfold settleJob
  cases outcome with
  | ok value =>
    dsimp only
    rcases settle_cases (s := { s with completed := s.completed + 1 }) job (.ok value) with ⟨unresolved, set⟩ | ⟨resolved, set⟩
    · rw [set]
      exact (Moves.complete job value stands unresolved).steps
    · rw [set]
      exact (Moves.break_ job (.ok value) _ _ stands resolved).breaks (by simp only [toSet, stands]) resolved
  | error raised =>
    dsimp only
    rcases settle_cases (s := { s with failed := s.failed + 1 }) job (.error raised) with ⟨unresolved, set⟩ | ⟨resolved, set⟩
    · rw [set]
      dsimp only
      split
      · exact (Moves.fail job raised stands unresolved ‹_›).steps
      · exact (Moves.exit job raised stands unresolved (by simpa using ‹¬raised.isException = true›)).steps
    · rw [set]
      exact (Moves.break_ job (.error raised) _ _ stands resolved).breaks (by simp only [toSet, stands]) resolved

theorem drainOwn_cases {departure : Departure} {jobs : List WriteJob} (stands : s.writer = .draining departure jobs) :
    s.Steps .work (s.drainOwn departure jobs) := by
  cases jobs with
  | nil =>
    cases departure with
    | openFailed => exact (Moves.endOwn .openFailed stands false (absurd rfl)).steps
    | _ => exact (Moves.endOwn _ stands s.started fun _ => rfl).steps
  | cons job jobs =>
    rcases settle_cases (s := s) job (.error shuttingDown) with ⟨unresolved, set⟩ | ⟨resolved, set⟩
    · simp only [Coordinator.drainOwn, set]
      exact (Moves.refuseOwn departure job jobs stands unresolved).steps
    · simp only [Coordinator.drainOwn, set]
      exact (Moves.failOwn departure job jobs stands resolved).breaks (by simp only [toSet, stands]) resolved

theorem work_cases : s.Steps .work s.work := by
  unfold work
  split
  · rename_i stands
    split
    · exact (Moves.stop (.inl stands) ‹_›).steps
    · exact (Moves.select stands (by simpa using ‹¬s.stopping = true›)).steps
  · rename_i stands
    exact nextJob_cases stands
  · rename_i stands
    split
    · exact (Moves.stop (.inr stands) ‹_›).steps
    · rename_i goes
      split
      · exact (Moves.sleep stands (by simpa using goes) ‹_›).steps
      · exact (Moves.return_ stands (by simpa using goes)).steps
  · rename_i job stands
    split
    · exact (Moves.skip job stands ‹_›).steps
    · exact (Moves.execute job stands).steps
  · rename_i stands
    exact settleJob_cases stands
  · rename_i departure stands
    exact (Moves.drainOwn departure stands).steps
  · rename_i stands
    exact drainOwn_cases stands
  · exact .inl rfl

theorem step_cases (action : Action α) : s.Steps action (s.step action) := by
  cases action with
  | start =>
    simp only [step, Coordinator.start]
    split
    · exact .inl rfl
    · exact (Moves.start rfl (by simpa using ‹¬s.started = true›)).steps
  | submit byWriter label priority => exact submit_cases byWriter label priority
  | submitMaintenance byWriter label => exact submitMaintenance_cases byWriter label
  | notify =>
    simp only [step, Coordinator.notify]
    split
    · exact .inl rfl
    · exact (Moves.notify ‹_›).steps
  | cancel future => exact (Moves.cancel rfl future).steps
  | beginDraining => exact (Moves.beginDraining rfl).steps
  | drain drainer => exact drain_cases drainer
  | openWriter opens =>
    simp only [step, Coordinator.openWriter]
    split
    · rename_i stands
      cases opens with
      | true => exact (Moves.opened stands).steps
      | false => exact (Moves.openFailed stands).steps
    · exact .inl rfl
  | attempt outcome => exact attempt_cases outcome
  | work => exact work_cases

@[simp] theorem wake_foreground : s.wake.foreground = s.foreground := by
  unfold wake
  split <;> rfl

@[simp] theorem wake_background : s.wake.background = s.background := by
  unfold wake
  split <;> rfl

@[simp] theorem wake_stopping : s.wake.stopping = s.stopping := by
  unfold wake
  split <;> rfl

@[simp] theorem wake_started : s.wake.started = s.started := by
  unfold wake
  split <;> rfl

@[simp] theorem wake_futures : s.wake.futures = s.futures := by
  unfold wake
  split <;> rfl

@[simp] theorem wake_drainers : s.wake.drainers = s.drainers := by
  unfold wake
  split <;> rfl

@[simp] theorem wake_foregroundRun : s.wake.foregroundRun = s.foregroundRun := by
  unfold wake
  split <;> rfl

/-- Who sleeps is woken, and no one else is moved. -/
theorem wake_writer : s.wake.writer = s.writer ∨ (s.writer = .asleep ∧ s.wake.writer = .waiting) := by
  unfold wake
  split
  · exact .inr ⟨‹_›, rfl⟩
  · exact .inl rfl

theorem wake_awake : s.wake.writer ≠ .asleep := by
  unfold wake
  split
  · exact nofun
  · assumption

end Coordinator

/-! ### Runs -/

namespace Watched

theorem next_invariant {P : Watched α → Prop}
    (step : ∀ w action broken t sights, P w → w.now.Moves action broken t sights → P ⟨t, w.seen ++ sights⟩) (w : Watched α) (action : Action α) (holds : P w) :
    P (w.next action) := by
  rcases Coordinator.step_cases (s := w.now) action with same | ⟨broken, moves, _⟩
  · have unchanged : w.next action = w := by
      unfold next
      rw [same, List.append_nil]
    rwa [unchanged]
  · exact step w action broken _ _ holds moves

/-- What every move keeps holds after every run. -/
theorem invariant {P : Watched α → Prop} (start : P fresh) (step : ∀ w action broken t sights, P w → w.now.Moves action broken t sights → P ⟨t, w.seen ++ sights⟩)
    (actions : List (Action α)) : P (actions.foldl next fresh) :=
  final_of_step (fun w action holds => next_invariant step w action holds) start actions

/-- Before the first start, and where the writer could not open its connection, no thread serves the lanes. -/
def Grounded (w : Watched α) : Prop := w.now.started = false → w.now.writer = .absent ∨ w.now.writer = .stopped

theorem Grounded.started {w : Watched α} (grounded : w.Grounded) {writer : Writer α} (stands : w.now.writer = writer)
    (absent : writer ≠ .absent) (stopped : writer ≠ .stopped) : w.now.started = true := by
  by_contra off
  rcases grounded (by simpa using off) with same | same
  · exact absent (stands.symm.trans same)
  · exact stopped (stands.symm.trans same)

theorem Grounded.step {w : Watched α} {t : Coordinator α} {sights : List Sight} {action : Action α} {broken : Bool} (grounded : w.Grounded)
    (moves : w.now.Moves action broken t sights) :
    Grounded ⟨t, w.seen ++ sights⟩ := by
  intro off
  cases moves with
  | start => exact absurd off nofun
  | putForeground | putBackground | cancel | beginDraining | refuse | failDrain => exact grounded off
  | notify | endDrain =>
    have idle := grounded (by simpa using off)
    rcases Coordinator.wake_writer (s := w.now) with same | ⟨asleep, _⟩
    · exact same ▸ idle
    · rw [asleep] at idle
      exact absurd idle (by simp)
  | endOwn | failOwn => exact .inr rfl
  | stop stands =>
    rcases stands with stands | stands
    all_goals exact absurd (off.symm.trans (grounded.started stands nofun nofun)) nofun
  | opened stands | openFailed stands | select stands | takeForeground _ _ stands | takeBackground _ _ stands | rest stands
  | sleep stands | return_ stands | skip _ stands | execute _ stands | drainOwn _ stands =>
    exact absurd (off.symm.trans (grounded.started stands nofun nofun)) nofun
  | returned _ _ _ stands | retried _ _ stands | raised _ _ _ stands | complete _ _ stands | fail _ _ stands | exit _ _ stands
  | break_ _ _ _ _ stands | refuseOwn _ _ _ stands =>
    exact absurd (off.symm.trans (grounded.started stands nofun nofun)) nofun

theorem grounded (actions : List (Action α)) : (actions.foldl next fresh).Grounded :=
  invariant (fun _ => .inl rfl) (fun _ _ _ _ _ kept moves => kept.step moves) actions

end Watched

end SaltMdb
