import SaltMdb.Daemon.Lanes
import SaltMdb.Daemon.Settlement
import Mathlib

/-! Draining comes to its end, and leaves no future behind, in the runs that cancel no future under the hands of the thread that
sets it. -/

namespace SaltMdb
open Coordinator Runs

variable {α : Type}

namespace Coordinator

variable {s t : Coordinator α} {action : Action α} {sights : List Sight} {broken : Bool}

/-- The future a step sets has not been cancelled. -/
def Settles (s : Coordinator α) (action : Action α) : Prop :=
  ∀ future, s.toSet action = some future → (s.futures[future]? matches some .cancelled) = false

theorem toSet_held {future : Nat} (sets : s.toSet action = some future) : ∃ job ∈ s.held, job.future = future := by
  unfold toSet at sets
  split at sets
  · split at sets
    · rename_i job jobs found
      cases sets
      refine ⟨job, ?_, rfl⟩
      exact List.mem_append_left _ (List.mem_append_right _ (List.mem_flatten.mpr ⟨_, List.mem_of_getElem? found, List.mem_cons_self⟩))
    · exact absurd sets nofun
  · split at sets
    · rename_i job outcome stands
      cases sets
      exact ⟨job, List.mem_append_right _ (by simp [stands, Writer.hand]), rfl⟩
    · rename_i departure job jobs stands
      cases sets
      exact ⟨job, List.mem_append_right _ (by simp [stands, Writer.hand]), rfl⟩
    · exact absurd sets nofun
  · exact absurd sets nofun

/-- A step that sets no cancelled future is not cut short. -/
theorem Settles.unbroken (settles : s.Settles action) (sound : s.Sound) :
    s.step action = (s, []) ∨ s.Moves action false (s.step action).1 (s.step action).2 := by
  rcases step_cases (s := s) action with same | ⟨broken, moves, why⟩
  · exact .inl same
  · cases broken with
    | false => exact .inr moves
    | true =>
      obtain ⟨future, sets, resolved⟩ := why rfl
      obtain ⟨job, member, own⟩ := toSet_held sets
      have uncancelled := settles future sets
      rcases sound.unsettled job member with pending | cancelled
      · exact absurd (own ▸ pending) resolved
      · rw [← own, cancelled] at uncancelled
        exact absurd uncancelled nofun

end Coordinator

namespace Watched

variable {w : Watched α} {t : Coordinator α} {action : Action α} {sights : List Sight} {broken : Bool}

/-! ### Why the writer leaves its loop -/

/-- Someone asked for draining, or the writer itself had cause for it. -/
def Asked (seen : List Sight) : Prop :=
  Sight.drainingBegun false ∈ seen ∨ ∃ departure, departure ≠ .stopping ∧ Sight.departed departure ∈ seen

theorem Asked.later {seen : List Sight} (asked : Asked seen) (sights : List Sight) : Asked (seen ++ sights) :=
  asked.imp (List.mem_append_left _) fun ⟨departure, other, member⟩ => ⟨departure, other, List.mem_append_left _ member⟩

structure Departing (w : Watched α) : Prop where
  leaving : ∀ departure, w.now.writer = .leaving departure → Sight.departed departure ∈ w.seen
  draining : ∀ departure jobs, w.now.writer = .draining departure jobs → Sight.departed departure ∈ w.seen
  stopped : w.now.writer = .stopped → ∃ departure, Sight.departed departure ∈ w.seen
  asked : w.now.stopping = true → Asked w.seen
  cause : Sight.departed .stopping ∈ w.seen → Asked w.seen

theorem Departing.quiet (departing : w.Departing) (stopping : t.stopping = w.now.stopping)
    (undeparted : Sight.departed .stopping ∉ sights)
    (leaving : ∀ departure, t.writer = .leaving departure → w.now.writer = .leaving departure ∨ Sight.departed departure ∈ sights)
    (draining : ∀ departure jobs, t.writer = .draining departure jobs → Sight.departed departure ∈ w.seen)
    (stopped : t.writer = .stopped → ∃ departure, Sight.departed departure ∈ w.seen) : Departing ⟨t, w.seen ++ sights⟩ where
  leaving := fun departure stands => (leaving departure stands).elim
    (fun before => List.mem_append_left _ (departing.leaving departure before)) (List.mem_append_right _)
  draining := fun departure jobs stands => List.mem_append_left _ (draining departure jobs stands)
  stopped := fun stands => (stopped stands).imp fun _ => List.mem_append_left _
  asked := fun stops => (departing.asked (stopping.symm.trans stops)).later sights
  cause := fun member => (departing.cause ((List.mem_append.mp member).resolve_right undeparted)).later sights

theorem Departing.step (departing : w.Departing) (moves : w.now.Moves action broken t sights) : Departing ⟨t, w.seen ++ sights⟩ := by
  cases moves with
  | putForeground | putBackground | cancel | refuse | failDrain =>
    exact departing.quiet rfl (by simp) (fun _ => .inl) departing.draining departing.stopped
  | beginDraining =>
    have now_ : Asked (w.seen ++ [.drainingBegun false]) := .inl (List.mem_append_right _ List.mem_cons_self)
    refine ⟨fun departure stands => ?_, fun departure jobs stands => ?_, fun stands => ?_, fun _ => now_, fun _ => now_⟩
    · exact List.mem_append_left _ (departing.leaving departure stands)
    · exact List.mem_append_left _ (departing.draining departure jobs stands)
    · exact (departing.stopped stands).imp fun _ => List.mem_append_left _
  | notify | endDrain =>
    refine departing.quiet (by simp) nofun (fun departure stands => .inl ?_) (fun departure jobs stands => ?_) fun stands => ?_
    all_goals
      rcases wake_writer (s := w.now) with same | ⟨asleep, woken⟩
    · exact same.symm.trans stands
    · exact absurd (woken.symm.trans stands) nofun
    · exact departing.draining departure jobs (same.symm.trans stands)
    · exact absurd (woken.symm.trans stands) nofun
    · exact departing.stopped (same.symm.trans stands)
    · exact absurd (woken.symm.trans stands) nofun
  | openFailed | exit | break_ =>
    refine departing.quiet rfl (by simp) (fun departure stands => .inr ?_) nofun nofun
    cases stands
    exact List.mem_cons_self
  | stop stands stopping =>
    have now_ := departing.asked stopping
    refine ⟨fun departure stands => ?_, nofun, nofun, fun _ => now_.later _, fun _ => now_.later _⟩
    cases stands
    exact List.mem_append_right _ List.mem_cons_self
  | drainOwn departure stands =>
    have left := departing.leaving departure stands
    have now_ : Asked w.seen := by
      by_cases own : departure = .stopping
      · exact departing.cause (own ▸ left)
      · exact .inr ⟨departure, own, left⟩
    refine ⟨nofun, fun other jobs stands => ?_, nofun, fun _ => now_.later _, fun _ => now_.later _⟩
    cases stands
    exact List.mem_append_left _ left
  | refuseOwn departure job jobs stands =>
    refine departing.quiet rfl (by simp) nofun (fun other jobs' same => ?_) nofun
    cases same
    exact departing.draining departure _ stands
  | failOwn departure job jobs stands | endOwn departure stands =>
    exact departing.quiet rfl nofun nofun nofun fun _ => ⟨departure, departing.draining departure _ stands⟩
  | _ => exact departing.quiet rfl (by simp) nofun nofun nofun

/-! ### Who sleeps is woken -/

/-- A notification is still to come for a writer that sleeps although there is something to do. -/
def Woken (w : Watched α) : Prop :=
  w.now.writer = .asleep → w.now.foreground ≠ [] ∨ w.now.background ≠ [] ∨ w.now.stopping = true →
    w.now.notices ≠ 0 ∨ w.now.drainers ≠ []

theorem Woken.step (woken : w.Woken) (moves : w.now.Moves action false t sights) : Woken ⟨t, w.seen ++ sights⟩ := by
  intro asleep work
  cases moves with
  | putForeground | putBackground => exact .inl (Nat.succ_ne_zero _)
  | notify | endDrain => exact absurd asleep wake_awake
  | cancel => exact woken asleep work
  | beginDraining => exact .inr (by simp)
  | refuse drainer job jobs found =>
    refine .inr fun none_ => ?_
    have inside := (List.getElem?_eq_some_iff.mp found).1
    rw [List.set_eq_nil_iff] at none_
    rw [none_] at inside
    exact absurd inside (Nat.not_lt_zero _)
  | sleep stands goes none_ =>
    rcases work with fore | back | stops
    · exact absurd none_.1 fore
    · exact absurd none_.2 back
    · exact absurd (goes.symm.trans stops) nofun
  | _ => exact absurd asleep nofun

/-- What the runs keep that set no cancelled future. -/
structure Whole (w : Watched α) : Prop where
  kept : w.Kept
  closing : w.Closing
  departing : w.Departing
  covered : w.now.Covered
  woken : w.Woken
  unbroken : Sight.departed .unsettled ∉ w.seen

theorem Whole.step (whole : w.Whole) (moves : w.now.Moves action false t sights) : Whole ⟨t, w.seen ++ sights⟩ where
  kept := whole.kept.step moves
  closing := whole.closing.step moves
  departing := whole.departing.step moves
  covered := whole.covered.step (moves.effect whole.kept.grounded)
  woken := whole.woken.step moves
  unbroken := by
    intro member
    rcases List.mem_append.mp member with before | here
    · exact whole.unbroken before
    · cases moves <;> simp at here

theorem Whole.next (whole : w.Whole) (settles : w.now.Settles action) : (w.next action).Whole := by
  rcases settles.unbroken whole.kept.sound with same | moves
  · have unchanged : w.next action = w := by
      unfold Watched.next
      rw [same, List.append_nil]
    rwa [unchanged]
  · exact whole.step moves

theorem whole_fresh : (fresh : Watched α).Whole where
  kept := kept_fresh
  closing := ⟨fun ⟨_, member, _⟩ => absurd member nofun, List.Pairwise.nil, nofun⟩
  departing := ⟨nofun, nofun, nofun, nofun, nofun⟩
  covered := nofun
  woken := nofun
  unbroken := nofun

theorem whole {actions : List (Action α)} (settles : Guarded Watched.next (fun action w => w.now.Settles action) actions fresh) :
    (actions.foldl Watched.next fresh).Whole :=
  final_of_guarded (fun _ _ holds settles => holds.next settles) whole_fresh settles

theorem Asked.reason {seen : List Sight} (asked : Asked seen) (unbroken : Sight.departed .unsettled ∉ seen) :
    Sight.drainingBegun false ∈ seen ∨ Sight.departed .openFailed ∈ seen ∨ Sight.departed .exited ∈ seen := by
  rcases asked with outside | ⟨departure, other, member⟩
  · exact .inl outside
  · cases departure with
    | stopping => exact absurd rfl other
    | openFailed => exact .inr (.inl member)
    | exited => exact .inr (.inr member)
    | unsettled => exact absurd member unbroken

theorem Whole.reason (whole : w.Whole) (stopped : w.now.writer = .stopped) :
    Sight.drainingBegun false ∈ w.seen ∨ Sight.departed .openFailed ∈ w.seen ∨ Sight.departed .exited ∈ w.seen := by
  obtain ⟨departure, member⟩ := whole.departing.stopped stopped
  refine Asked.reason ?_ whole.unbroken
  by_cases own : departure = .stopping
  · exact whole.departing.cause (own ▸ member)
  · exact .inr ⟨departure, own, member⟩

/-- Where draining is over and no writer is left, every future has its outcome. -/
theorem Whole.resolved (whole : w.Whole) (stopping : w.now.stopping = true) (over_ : w.now.drainers = [])
    (gone : w.now.writer = .absent ∨ w.now.writer = .stopped) (future : Nat) : w.now.futures[future]? ≠ some .pending := by
  intro pending
  obtain ⟨job, member, _⟩ := whole.covered future pending
  obtain ⟨fore, back⟩ := whole.closing.emptied stopping
  have none_ : w.now.held = [] := by
    unfold held
    rw [fore, back, over_]
    rcases gone with gone | gone
    all_goals rw [gone]; rfl
  rw [none_] at member
  exact absurd member List.not_mem_nil

/-- In the runs that set no cancelled future none is lost: a pending one belongs to a job that is queued, about to be refused or in
the writer's hands; a writer that sleeps beside work is about to be woken; the writer stops only where someone began draining, its
connection could not be opened or a job raised what is no `Exception`; and where draining is over and the writer gone, every
future has its outcome. -/
theorem nothing_lost {actions : List (Action α)} (settles : Guarded Watched.next (fun action w => w.now.Settles action) actions fresh) :
    (∀ future : Nat, (actions.foldl Watched.next fresh).now.futures[future]? = some .pending →
        ∃ job ∈ (actions.foldl Watched.next fresh).now.held, job.future = future) ∧
      ((actions.foldl Watched.next fresh).now.writer = .asleep →
        (actions.foldl Watched.next fresh).now.foreground ≠ [] ∨ (actions.foldl Watched.next fresh).now.background ≠ [] ∨
          (actions.foldl Watched.next fresh).now.stopping = true →
        (actions.foldl Watched.next fresh).now.notices ≠ 0 ∨ (actions.foldl Watched.next fresh).now.drainers ≠ []) ∧
      ((actions.foldl Watched.next fresh).now.writer = .stopped →
        Sight.drainingBegun false ∈ (actions.foldl Watched.next fresh).seen ∨
          Sight.departed .openFailed ∈ (actions.foldl Watched.next fresh).seen ∨
          Sight.departed .exited ∈ (actions.foldl Watched.next fresh).seen) ∧
      ((actions.foldl Watched.next fresh).now.stopping = true → (actions.foldl Watched.next fresh).now.drainers = [] →
        (actions.foldl Watched.next fresh).now.writer = .absent ∨ (actions.foldl Watched.next fresh).now.writer = .stopped →
        ∀ future : Nat, (actions.foldl Watched.next fresh).now.futures[future]? ≠ some .pending) := by
  have holds := whole settles
  exact ⟨holds.covered, holds.woken, holds.reason, holds.resolved⟩

/-! ### Draining comes to its end -/

end Watched

/-- How many moves the writer has left once draining has begun. -/
def Writer.rank : Writer α → Nat
  | .absent | .stopped => 0
  | .draining _ jobs => jobs.length + 1
  | .leaving _ => 2
  | .waiting => 3
  | .opening | .idle | .asleep | .settling _ _ => 4
  | .selecting => 5
  | .executing _ attempt => 5 + (retryMaxAttempts - attempt)
  | .took _ => 9

namespace Coordinator

variable {s t : Coordinator α} {action : Action α} {sights : List Sight} {broken : Bool}

/-- A bound on the moves of the threads that are at work once draining has begun. -/
def remaining (s : Coordinator α) : Nat := (s.drainers.map fun jobs => jobs.length + 1).sum + s.notices + s.writer.rank

theorem wake_rank : s.wake.writer.rank ≤ s.writer.rank := by
  rcases wake_writer (s := s) with same | ⟨asleep, woken⟩
  · rw [same]
  · rw [asleep, woken]
    exact Nat.le_succ 3

theorem drainers_eraseIdx {jobs : List WriteJob} {drainer : Nat} (found : s.drainers[drainer]? = some jobs) :
    ((s.drainers.eraseIdx drainer).map fun jobs => jobs.length + 1).sum + (jobs.length + 1) =
      (s.drainers.map fun jobs => jobs.length + 1).sum := by
  obtain ⟨inside, read⟩ := List.getElem?_eq_some_iff.mp found
  have pulled := ((List.getElem_cons_eraseIdx_perm inside).map fun jobs => jobs.length + 1).sum_eq
  rw [read, List.map_cons, List.sum_cons] at pulled
  omega

theorem drainers_set {jobs : List WriteJob} {job : WriteJob} {drainer : Nat} (found : s.drainers[drainer]? = some (job :: jobs)) :
    ((s.drainers.set drainer jobs).map fun jobs => jobs.length + 1).sum + 1 = (s.drainers.map fun jobs => jobs.length + 1).sum := by
  obtain ⟨inside, _⟩ := List.getElem?_eq_some_iff.mp found
  have pulled := ((List.set_perm_cons_eraseIdx inside jobs).map fun jobs => jobs.length + 1).sum_eq
  have erased := drainers_eraseIdx found
  rw [List.map_cons, List.sum_cons] at pulled
  rw [List.length_cons] at erased
  omega

theorem Moves.remaining (internal : action.internal = true) (stopping : s.stopping = true) (empty : s.foreground = [] ∧ s.background = [])
    (moves : s.Moves action broken t sights) : t.remaining < s.remaining := by
  cases moves with
  | start called | putForeground called | putBackground called | cancel called | beginDraining called =>
    exact absurd (called.symm.trans internal) nofun
  | notify due =>
    have woken := wake_rank (s := s)
    simp only [Coordinator.remaining, wake_drainers]
    omega
  | refuse drainer job jobs found =>
    have fewer := drainers_set found
    simp only [Coordinator.remaining]
    omega
  | endDrain drainer found | failDrain drainer _ _ found =>
    have woken := wake_rank (s := s)
    have fewer := drainers_eraseIdx found
    have same : s.wake.notices = s.notices := by
      unfold wake
      split <;> rfl
    simp only [Coordinator.remaining, same]
    omega
  | select stands goes | return_ stands goes | sleep stands goes => exact absurd (goes.symm.trans stopping) nofun
  | takeForeground job jobs stands first => exact absurd (first.symm.trans empty.1) nofun
  | takeBackground job jobs stands first => exact absurd (first.symm.trans empty.2) nofun
  | stop stands =>
    rcases stands with stands | stands
    all_goals
      simp only [Coordinator.remaining, stands, Writer.rank]
      omega
  | drainOwn departure stands =>
    simp only [Coordinator.remaining, stands, Writer.rank, empty.1, empty.2, List.append_nil, List.length_nil]
    omega
  | retried job attempt stands left =>
    simp only [Coordinator.remaining, stands, Writer.rank]
    omega
  | opened stands | openFailed stands | returned _ _ _ stands | raised _ _ _ stands | rest stands | skip _ stands | complete _ _ stands
  | fail _ _ stands | exit _ _ stands | break_ _ _ _ _ stands | refuseOwn _ _ _ stands | failOwn _ _ _ stands | endOwn _ stands =>
    simp only [Coordinator.remaining, stands, Writer.rank, List.length_cons]
    omega
  | execute job stands =>
    simp only [Coordinator.remaining, stands, Writer.rank, retryMaxAttempts]
    omega

theorem Moves.stopping (stopping : s.stopping = true) (moves : s.Moves action broken t sights) : t.stopping = true := by
  cases moves with
  | putForeground _ _ _ admits | putBackground _ _ _ _ admits => exact absurd (admits.symm.trans stopping) nofun
  | notify | endDrain => exact wake_stopping.trans stopping
  | beginDraining | drainOwn => rfl
  | _ => exact stopping

instance (s : Coordinator α) (action : Action α) : Decidable (s.Settles action) :=
  decidable_of_iff ((s.toSet action).all fun future => !(s.futures[future]? matches some .cancelled)) (by
    unfold Settles
    cases s.toSet action <;> simp)

/-- None of the threads at work can do anything more. -/
def Still (s : Coordinator α) : Prop := ∀ action : Action α, action.internal = true → s.step action = (s, [])

theorem Still.drainers (still : s.Still) : s.drainers = [] := by
  cases listed : s.drainers with
  | nil => rfl
  | cons jobs rest =>
    have same := still (.drain 0) rfl
    have found : s.drainers[0]? = some jobs := by rw [listed]; rfl
    have shorter : s.drainers.eraseIdx 0 ≠ s.drainers := by
      rw [listed]
      exact fun equal => absurd (congrArg List.length equal) (by simp)
    simp only [step, Coordinator.drain, found] at same
    cases jobs with
    | nil => exact absurd (congrArg (fun r : Coordinator α × List Sight => r.1.drainers) same) shorter
    | cons job jobs =>
      dsimp only at same
      rcases settle_cases (s := s) job (.error shuttingDown) with ⟨_, set⟩ | ⟨_, set⟩
      · rw [set] at same
        exact absurd (congrArg Prod.snd same) (List.cons_ne_nil _ _)
      · rw [set] at same
        exact absurd (congrArg (fun r : Coordinator α × List Sight => r.1.drainers) same) shorter

theorem Still.notices (still : s.Still) : s.notices = 0 := by
  by_contra due
  have same := congrArg (fun r : Coordinator α × List Sight => r.1.notices) (still .notify rfl)
  simp only [step, Coordinator.notify, if_neg due] at same
  omega

theorem Still.writer (still : s.Still) (stopping : s.stopping = true) (empty : s.foreground = [] ∧ s.background = []) :
    s.writer = .absent ∨ s.writer = .stopped ∨ s.writer = .asleep := by
  have quiet := congrArg Prod.snd (still .work rfl)
  have stays := congrArg (fun r : Coordinator α × List Sight => r.1.writer) (still .work rfl)
  have ended := congrArg (fun r : Coordinator α × List Sight => r.1.writer) (still (.attempt (.error (.exception ""))) rfl)
  have opened := congrArg (fun r : Coordinator α × List Sight => r.1.writer) (still (.openWriter true) rfl)
  simp only [step, work] at quiet stays
  simp only [step, Coordinator.attempt, Coordinator.openWriter] at ended opened
  cases stands : s.writer with
  | absent => exact .inl rfl
  | stopped => exact .inr (.inl rfl)
  | asleep => exact .inr (.inr rfl)
  | opening =>
    simp [stands] at opened
  | waiting =>
    simp [stands, stopping, depart] at quiet
  | selecting =>
    simp [stands, nextJob, Coordinator.takeForeground, Coordinator.takeBackground, empty.1, empty.2] at stays
  | idle =>
    simp [stands, stopping, depart] at quiet
  | took job =>
    simp only [stands] at quiet stays
    split at quiet
    · rename_i dropped
      simp [dropped] at stays
    · exact absurd quiet (List.cons_ne_nil _ _)
  | executing job attempt =>
    simp [stands, Raised.isContention] at ended
  | settling job outcome =>
    simp only [stands] at quiet stays
    cases outcome with
    | ok value =>
      rcases settle_cases (s := { s with completed := s.completed + 1 }) job (.ok value) with ⟨_, set⟩ | ⟨_, set⟩
      · simp [settleJob, set] at stays
      · simp [settleJob, set, depart] at quiet
    | error raised =>
      rcases settle_cases (s := { s with failed := s.failed + 1 }) job (.error raised) with ⟨_, set⟩ | ⟨_, set⟩
      · cases catches : raised.isException with
        | true => simp [settleJob, set, catches] at stays
        | false => simp [settleJob, set, catches, depart] at quiet
      · simp [settleJob, set, depart] at quiet
  | leaving departure =>
    simp [stands] at quiet
  | draining departure jobs =>
    simp only [stands] at quiet stays
    cases jobs with
    | nil => cases departure <;> simp [Coordinator.drainOwn] at stays
    | cons job jobs =>
      rcases settle_cases (s := s) job (.error shuttingDown) with ⟨_, set⟩ | ⟨_, set⟩
      · simp [Coordinator.drainOwn, set] at quiet
      · simp [Coordinator.drainOwn, set] at stays

end Coordinator

namespace Watched

variable {w : Watched α}

/-- Where the threads at work can do nothing more, every future has its outcome. -/
theorem Whole.still (whole : w.Whole) (stopping : w.now.stopping = true) (still : w.now.Still) (future : Nat) :
    w.now.futures[future]? ≠ some .pending := by
  have awake : w.now.writer ≠ .asleep := fun asleep =>
    (whole.woken asleep (.inr (.inr stopping))).elim (absurd still.notices) (absurd still.drainers)
  have gone := still.writer stopping (whole.closing.emptied stopping)
  refine whole.resolved stopping still.drainers ?_ future
  rcases gone with absent | stopped | asleep
  · exact .inl absent
  · exact .inr stopped
  · exact absurd asleep awake

/-- Once draining has begun, the threads at work have only so many moves left, in whatever order, and where they have none every
future has its outcome. -/
theorem draining_ends {actions : List (Action α)} (settles : Guarded Watched.next (fun action w => w.now.Settles action) actions fresh)
    (stopping : (actions.foldl Watched.next fresh).now.stopping = true) {more : List (Action α)}
    (internal : ∀ action ∈ more, action.internal = true)
    (moves : Guarded Watched.next (fun action w => w.now.Settles action ∧ w.now.step action ≠ (w.now, [])) more
      (actions.foldl Watched.next fresh)) :
    more.length ≤ (actions.foldl Watched.next fresh).now.remaining ∧
      ((more.foldl Watched.next (actions.foldl Watched.next fresh)).now.Still →
        ∀ future : Nat, (more.foldl Watched.next (actions.foldl Watched.next fresh)).now.futures[future]? ≠ some .pending) := by
  have holds := whole settles
  generalize actions.foldl Watched.next fresh = w at *
  induction more generalizing w with
  | nil => exact ⟨Nat.zero_le _, fun still => holds.still stopping still⟩
  | cons action more ih =>
    obtain ⟨⟨clean, changes⟩, rest⟩ := moves
    have move := (clean.unbroken holds.kept.sound).resolve_left changes
    have fewer := Moves.remaining (internal action List.mem_cons_self) stopping (holds.closing.emptied stopping) move
    have later := ih (fun other member => internal other (List.mem_cons_of_mem action member)) (w.next action) (move.stopping stopping) rest
      (holds.next clean)
    refine ⟨?_, later.2⟩
    have bound : more.length ≤ (w.now.step action).1.remaining := later.1
    rw [List.length_cons]
    omega

/-- A coordinator that is shut down before its thread runs. -/
def shutDown : List (Action Unit) := [.start, .submit false "store" .foreground, .beginDraining]

def wornOff : List (Action Unit) := [.drain 0, .drain 0, .notify, .openWriter true, .work, .work, .work]

theorem nothing_lost_shutDown :
    ((shutDown ++ wornOff).foldl Watched.next fresh).now.stopping = true ∧
      ((shutDown ++ wornOff).foldl Watched.next fresh).now.futures[0]? ≠ some .pending :=
  ⟨by decide, (@nothing_lost _ (shutDown ++ wornOff)
    ⟨by decide, by decide, by decide, by decide, by decide, by decide, by decide, by decide, by decide, by decide, trivial⟩).2.2.2
      (by decide) (by decide) (Or.inr rfl) 0⟩

theorem draining_ends_shutDown : wornOff.length ≤ (shutDown.foldl Watched.next fresh).now.remaining :=
  (@draining_ends _ shutDown ⟨by decide, by decide, by decide, trivial⟩ rfl wornOff (by decide)
    ⟨⟨by decide, nofun⟩, ⟨by decide, nofun⟩, ⟨by decide, nofun⟩, ⟨by decide, nofun⟩, ⟨by decide, nofun⟩, ⟨by decide, nofun⟩,
      ⟨by decide, nofun⟩, trivial⟩).1

end Watched

end SaltMdb
