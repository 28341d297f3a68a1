import SaltMdb.Library.Runs
import Mathlib.Data.Finset.Card
import Mathlib.Data.Rat.Defs
import Mathlib.Algebra.Order.Field.Rat
import Mathlib.Tactic.Linarith

/-! The daemon's sessions, calls in flight, grace timer and draining flag. A step is one stay under the lifecycle lock,
or a move outside it: a timer that runs out, `main` at start-up, time going by. -/

namespace SaltMdb

def daemonShutdownGracePeriodS : ℚ := 30

inductive TimerStatus where
  | counting
  /-- Past its interval, waiting for the lock. -/
  | fired
  | cancelled
  | finished
deriving DecidableEq

/-- A `threading.Timer` on `_grace_fire`. -/
structure GraceTimer where
  startedAt : ℚ
  status : TimerStatus
deriving DecidableEq

/-- Cancelling stops no timer whose interval is over. -/
def GraceTimer.cancel (timer : GraceTimer) : GraceTimer :=
  match timer.status with
  | .counting => { timer with status := .cancelled }
  | _ => timer

def GraceTimer.waiting (timer : GraceTimer) : Bool :=
  timer.status = .counting ∨ timer.status = .fired

/-- Where `main` stands: before the recovery thread, before the first grace timer, between its two halves, in `serve_forever`. -/
inductive Startup where
  | binding
  | published
  | timerCleared
  | serving
deriving DecidableEq

structure DaemonState where
  foreground : Bool
  startup : Startup
  sessions : Finset Nat
  /-- The threads between `_acquire_inflight` and `_release_inflight`. -/
  running : Finset Nat
  inflight : Int
  draining : Bool
  shutdownTimer : Option Nat
  timers : List GraceTimer
  /-- The lock's holder is between the two halves of `_start_grace_timer`. -/
  arming : Bool
  clock : ℚ

inductive LifecycleStep where
  | hello (session : Nat)
  | unregister (session : Nat)
  | acquire (call : Nat)
  | release (call : Nat)
  | arm
  | graceFire (timer : Nat)
  | beginDraining
  | publishReady (recovery : Nat)
  | clearInitialTimer
  | startInitialTimer
  | runOut (timer : Nat)
  | elapse (seconds : ℚ)

namespace DaemonState

def start (foreground : Bool) : DaemonState where
  foreground := foreground
  startup := .binding
  sessions := ∅
  running := ∅
  inflight := 0
  draining := false
  shutdownTimer := none
  timers := []
  arming := false
  clock := 0

variable (s : DaemonState)

/-- `not self._sessions and not self._inflight`. -/
def idle : Bool := s.sessions = ∅ ∧ s.inflight = 0

/-- The timers after `self._shutdown_timer.cancel()`, where there is one. -/
def cancelled : List GraceTimer :=
  match s.shutdownTimer with
  | none => s.timers
  | some current => s.timers.modify current GraceTimer.cancel

def cancelTimer : DaemonState := { s with timers := s.cancelled }

/-- The second half of `_start_grace_timer`. -/
def publishTimer : DaemonState :=
  { s with
    timers := s.timers ++ [⟨s.clock, .counting⟩]
    shutdownTimer := some s.timers.length }

/-- The guarded call of `_start_grace_timer` at the end of a release or an unregistration, as far as its first half. -/
def rearm : DaemonState :=
  if s.idle && !s.draining && !s.foreground then { s.cancelTimer with arming := true } else s

/-- The part of `_handle_hello` under the lock, and whether it admits. -/
def admitSession (session : Nat) : Bool × DaemonState :=
  if s.draining then (false, s)
  else (true, { s.cancelTimer with sessions := insert session s.sessions, shutdownTimer := none })

def unregisterSession (session : Nat) : DaemonState :=
  { s with sessions := s.sessions.erase session }.rearm

def acquireInflight (call : Nat) : Bool × DaemonState :=
  if s.draining then (false, s)
  else (true, { s.cancelTimer with
    running := insert call s.running
    inflight := s.inflight + 1
    shutdownTimer := none })

def releaseInflight (call : Nat) : DaemonState :=
  { s with running := s.running.erase call, inflight := s.inflight - 1 }.rearm

def finishTimer (timer : Nat) : DaemonState :=
  { s with timers := s.timers.modify timer fun t => { t with status := .finished } }

def graceFire (timer : Nat) : DaemonState :=
  if s.idle then { s.finishTimer timer with draining := true } else { s.finishTimer timer with shutdownTimer := none }

def statusOf (timer : Nat) : Option TimerStatus := (s.timers[timer]?).map (·.status)

/-- The moves that need the lifecycle lock. -/
def locked : LifecycleStep → DaemonState
  | .hello session => if s.startup = .serving then (s.admitSession session).2 else s
  | .unregister session => if s.startup = .serving then s.unregisterSession session else s
  | .acquire call => if s.startup = .serving ∧ call ∉ s.running then (s.acquireInflight call).2 else s
  | .release call => if call ∈ s.running then s.releaseInflight call else s
  | .graceFire timer => if s.statusOf timer = some .fired then s.graceFire timer else s
  | .beginDraining => { s with draining := true }
  | .publishReady recovery =>
    if s.startup = .binding ∧ recovery ∉ s.running then { (s.acquireInflight recovery).2 with startup := .published } else s
  | _ => s

/-- One step. `main` starts its first grace timer without the lock, and before it serves any connection. -/
def next : LifecycleStep → DaemonState
  | .arm => if s.arming then { s.publishTimer with arming := false } else s
  | .clearInitialTimer =>
    if s.startup ≠ .published then s
    else if s.foreground then { s with startup := .serving }
    else { s.cancelTimer with startup := .timerCleared }
  | .startInitialTimer => if s.startup = .timerCleared then { s.publishTimer with startup := .serving } else s
  | .runOut timer =>
    match s.timers[timer]? with
    | some t =>
      if t.status = .counting ∧ t.startedAt + daemonShutdownGracePeriodS ≤ s.clock then
        { s with timers := s.timers.modify timer fun t => { t with status := .fired } }
      else s
    | none => s
  | .elapse seconds => if 0 ≤ seconds then { s with clock := s.clock + seconds } else s
  | step => if s.arming then s else s.locked step

/-! ### What one step can do -/

/-- The steps that change something, with what they find and what they leave. -/
inductive Moves : LifecycleStep → DaemonState → Prop where
  | hello (session : Nat) (free : s.arming = false) (serves : s.startup = .serving) (admits : s.draining = false) :
    Moves (.hello session) { s with
      timers := s.cancelled
      sessions := insert session s.sessions
      shutdownTimer := none }
  | unregister (session : Nat) (free : s.arming = false) (serves : s.startup = .serving) :
    Moves (.unregister session) { s with sessions := s.sessions.erase session }.rearm
  | acquire (call : Nat) (free : s.arming = false) (serves : s.startup = .serving) (fresh : call ∉ s.running)
      (admits : s.draining = false) :
    Moves (.acquire call) { s with
      timers := s.cancelled
      running := insert call s.running
      inflight := s.inflight + 1
      shutdownTimer := none }
  | release (call : Nat) (free : s.arming = false) (runs : call ∈ s.running) :
    Moves (.release call) { s with running := s.running.erase call, inflight := s.inflight - 1 }.rearm
  | arm (held : s.arming = true) :
    Moves .arm { s with
      timers := s.timers ++ [⟨s.clock, .counting⟩]
      shutdownTimer := some s.timers.length
      arming := false }
  | drain (timer : Nat) (free : s.arming = false) (due : s.statusOf timer = some .fired) (idle : s.idle = true) :
    Moves (.graceFire timer) { s.finishTimer timer with draining := true }
  | stay (timer : Nat) (free : s.arming = false) (due : s.statusOf timer = some .fired) (busy : s.idle = false) :
    Moves (.graceFire timer) { s.finishTimer timer with shutdownTimer := none }
  | beginDraining (free : s.arming = false) : Moves .beginDraining { s with draining := true }
  | publish (recovery : Nat) (free : s.arming = false) (fresh : recovery ∉ s.running) (admits : s.draining = false) :
    Moves (.publishReady recovery) { s with
      timers := s.cancelled
      running := insert recovery s.running
      inflight := s.inflight + 1
      shutdownTimer := none
      startup := .published }
  | publishDraining (recovery : Nat) (drains : s.draining = true) :
    Moves (.publishReady recovery) { s with startup := .published }
  | clear (published : s.startup = .published) (background : s.foreground = false) :
    Moves .clearInitialTimer { s with timers := s.cancelled, startup := .timerCleared }
  | skip (published : s.startup = .published) (foreground : s.foreground = true) :
    Moves .clearInitialTimer { s with startup := .serving }
  | startInitial (cleared : s.startup = .timerCleared) :
    Moves .startInitialTimer { s with
      timers := s.timers ++ [⟨s.clock, .counting⟩]
      shutdownTimer := some s.timers.length
      startup := .serving }
  | runOut (timer : Nat) (t : GraceTimer) (found : s.timers[timer]? = some t) (counts : t.status = .counting)
      (due : t.startedAt + daemonShutdownGracePeriodS ≤ s.clock) :
    Moves (.runOut timer) { s with timers := s.timers.modify timer fun t => { t with status := .fired } }
  | elapse (seconds : ℚ) (forward : 0 ≤ seconds) : Moves (.elapse seconds) { s with clock := s.clock + seconds }

variable {s}

theorem locked_cases (step : LifecycleStep) (free : s.arming = false) : s.locked step = s ∨ s.Moves step (s.locked step) := by
  cases step with
  | hello session =>
    simp only [locked, admitSession]
    split
    · cases drains : s.draining with
      | true => exact .inl (by simp)
      | false => exact .inr (.hello session free ‹_› drains)
    · exact .inl rfl
  | unregister session =>
    simp only [locked]
    split
    · exact .inr (.unregister session free ‹_›)
    · exact .inl rfl
  | acquire call =>
    simp only [locked, acquireInflight]
    split
    · rename_i allowed
      cases drains : s.draining with
      | true => exact .inl (by simp)
      | false => exact .inr (.acquire call free allowed.1 allowed.2 drains)
    · exact .inl rfl
  | release call =>
    simp only [locked]
    split
    · exact .inr (.release call free ‹_›)
    · exact .inl rfl
  | graceFire timer =>
    simp only [locked, graceFire]
    split
    · rename_i due
      cases idle : s.idle with
      | true => exact .inr (.drain timer free due idle)
      | false => exact .inr (.stay timer free due idle)
    · exact .inl rfl
  | beginDraining => exact .inr (.beginDraining free)
  | publishReady recovery =>
    simp only [locked, acquireInflight]
    split
    · rename_i binds
      cases drains : s.draining with
      | true => exact .inr (.publishDraining recovery drains)
      | false => exact .inr (.publish recovery free binds.2 drains)
    · exact .inl rfl
  | _ => exact .inl rfl

theorem next_cases (s : DaemonState) (step : LifecycleStep) : s.next step = s ∨ s.Moves step (s.next step) := by
  cases step with
  | arm =>
    simp only [next]
    split
    · exact .inr (.arm ‹_›)
    · exact .inl rfl
  | clearInitialTimer =>
    simp only [next]
    split
    · exact .inl rfl
    · rename_i published
      rw [not_not] at published
      split
      · exact .inr (.skip published ‹_›)
      · exact .inr (.clear published (by simpa using ‹¬s.foreground = true›))
  | startInitialTimer =>
    simp only [next]
    split
    · exact .inr (.startInitial ‹_›)
    · exact .inl rfl
  | runOut timer =>
    simp only [next]
    cases found : s.timers[timer]? with
    | none => exact .inl rfl
    | some t =>
      dsimp only
      split
      · rename_i out
        exact .inr (.runOut timer t found out.1 out.2)
      · exact .inl rfl
  | elapse seconds =>
    simp only [next]
    split
    · exact .inr (.elapse seconds ‹_›)
    · exact .inl rfl
  | _ =>
    simp only [next]
    split
    · exact .inl rfl
    · exact locked_cases _ (by simpa using ‹¬s.arming = true›)

@[simp] theorem rearm_sessions : s.rearm.sessions = s.sessions := by
  unfold rearm
  split <;> rfl

@[simp] theorem rearm_running : s.rearm.running = s.running := by
  unfold rearm
  split <;> rfl

@[simp] theorem rearm_inflight : s.rearm.inflight = s.inflight := by
  unfold rearm
  split <;> rfl

@[simp] theorem rearm_draining : s.rearm.draining = s.draining := by
  unfold rearm
  split <;> rfl

@[simp] theorem rearm_foreground : s.rearm.foreground = s.foreground := by
  unfold rearm
  split <;> rfl

@[simp] theorem rearm_clock : s.rearm.clock = s.clock := by
  unfold rearm
  split <;> rfl

@[simp] theorem rearm_idle : s.rearm.idle = s.idle := by
  unfold rearm
  split <;> rfl

/-! ### What holds in every state of a run -/

/-- `self._inflight` counts the threads that hold it. -/
def Counted (s : DaemonState) : Prop := s.inflight = s.running.card

/-- Between the two, nobody is let in, and nothing takes the daemon back. -/
def ClosedSince (before after : DaemonState) : Prop :=
  before.draining = true → after.draining = true ∧ after.sessions ⊆ before.sessions ∧ after.running ⊆ before.running

/-- No session and no request in flight. -/
def Unused (s : DaemonState) : Prop := s.sessions = ∅ ∧ s.running = ∅

/-- A daemon that nobody uses and that would stop on its own has a timer that can still stop it, or is just starting one. -/
def Expires (s : DaemonState) : Prop :=
  s.startup = .serving → s.foreground = false → s.draining = false → s.Unused →
    s.arming = true ∨ ∃ current timer, s.shutdownTimer = some current ∧ s.timers[current]? = some timer ∧ timer.waiting = true

/-- The step is a grace timer's, and it is the one that starts the draining. -/
def DrainsByGrace (step : LifecycleStep) (s : DaemonState) : Prop :=
  (∃ timer, step = .graceFire timer) ∧ s.draining = false ∧ (s.next step).draining = true

def DrainsUnused (step : LifecycleStep) (s : DaemonState) : Prop :=
  DrainsByGrace step s → s.Unused

theorem idle_iff (counted : s.Counted) : s.idle = true ↔ s.Unused := by
  have zero : s.inflight = 0 ↔ s.running = ∅ := by
    rw [counted, ← Finset.card_eq_zero]
    omega
  simp [idle, Unused, zero]

theorem ClosedSince.of_moves {step : LifecycleStep} {t : DaemonState} (moves : s.Moves step t) : ClosedSince s t := by
  intro drains
  cases moves with
  | hello session free serves admits => simp [drains] at admits
  | acquire call free serves fresh admits => simp [drains] at admits
  | publish recovery free binds admits => simp [drains] at admits
  | unregister session free serves => simp [drains, Finset.erase_subset]
  | release call free runs => simp [drains, Finset.erase_subset]
  | _ => simp [finishTimer, drains]

theorem ClosedSince.of_next (s : DaemonState) (step : LifecycleStep) : ClosedSince s (s.next step) := by
  rcases next_cases s step with same | moves
  · rw [same]
    exact fun drains => ⟨drains, subset_rfl, subset_rfl⟩
  · exact .of_moves moves

theorem ClosedSince.trans {a b c : DaemonState} (first : ClosedSince a b) (second : ClosedSince b c) : ClosedSince a c := by
  intro drains
  obtain ⟨still, sessions, running⟩ := first drains
  obtain ⟨later, fewer, less⟩ := second still
  exact ⟨later, fewer.trans sessions, less.trans running⟩

/-- An unused daemon leaves a release or an unregistration with the timer about to be started. -/
theorem rearm_arming (counted : s.Counted) (admits : s.rearm.draining = false) (unused : s.rearm.Unused)
    (background : s.rearm.foreground = false) : s.rearm.arming = true := by
  simp only [rearm_foreground, rearm_draining, Unused, rearm_sessions, rearm_running] at background admits unused
  have idle : s.idle = true := (idle_iff counted).mpr unused
  simp [rearm, idle, admits, background]

theorem release_counted {call : Nat} (counted : s.Counted) (runs : call ∈ s.running) :
    Counted { s with running := s.running.erase call, inflight := s.inflight - 1 } := by
  have fewer := Finset.card_erase_add_one runs
  unfold Counted at counted ⊢
  simp only [counted]
  omega

theorem Moves.counted {step : LifecycleStep} {t : DaemonState} (moves : s.Moves step t) (counted : s.Counted) : t.Counted := by
  cases moves with
  | release call free runs => simpa [Counted] using release_counted counted runs
  | acquire call free serves fresh admits =>
    have more := Finset.card_insert_of_notMem fresh
    simpa [Counted, more] using counted
  | publish recovery free fresh admits =>
    have more := Finset.card_insert_of_notMem fresh
    simpa [Counted, more] using counted
  | _ => simpa [Counted, finishTimer] using counted

theorem Counted.next (counted : s.Counted) (step : LifecycleStep) : (s.next step).Counted := by
  rcases next_cases s step with same | moves
  · rwa [same]
  · exact moves.counted counted

theorem Expires.of_published {sessions running : Finset Nat} {inflight : Int} {foreground draining arming : Bool} {startup : Startup}
    {clock startedAt : ℚ} {timers : List GraceTimer} :
    Expires ⟨foreground, startup, sessions, running, inflight, draining, some timers.length,
      timers ++ [⟨startedAt, .counting⟩], arming, clock⟩ :=
  fun _ _ _ _ => .inr ⟨timers.length, ⟨startedAt, .counting⟩, rfl, by simp, rfl⟩

theorem Moves.expires {step : LifecycleStep} {t : DaemonState} (moves : s.Moves step t) (counted : s.Counted)
    (expires : s.Expires) : t.Expires := by
  cases moves with
  | unregister session free serves => exact fun _ background admits unused => .inl (rearm_arming counted admits unused background)
  | release call free runs =>
    exact fun _ background admits unused => .inl (rearm_arming (release_counted counted runs) admits unused background)
  | arm held => exact .of_published
  | startInitial cleared => exact .of_published
  | hello session free serves admits =>
    intro _ _ _ unused
    simp [Unused] at unused
  | acquire call free serves fresh admits =>
    intro _ _ _ unused
    simp [Unused] at unused
  | publish recovery free fresh admits =>
    intro serves
    simp at serves
  | publishDraining recovery drains =>
    intro serves
    simp at serves
  | clear published background =>
    intro serves
    simp at serves
  | skip published foreground =>
    intro _ background
    simp [foreground] at background
  | drain timer free due idle =>
    intro _ _ admits
    simp at admits
  | stay timer free due busy =>
    intro _ _ _ unused
    have idle : s.idle = true := (idle_iff counted).mpr unused
    simp [idle] at busy
  | beginDraining free =>
    intro _ _ admits
    simp at admits
  | runOut timer t found counts due =>
    intro serves background admits unused
    rcases expires serves background admits unused with held | ⟨current, c, named, at_, waits⟩
    · exact .inl held
    · right
      by_cases same : timer = current
      · subst same
        exact ⟨timer, { c with status := .fired }, named, by simp [at_], rfl⟩
      · exact ⟨current, c, named, by simp [same, at_], waits⟩
  | elapse seconds forward => exact expires

theorem Expires.next (counted : s.Counted) (expires : s.Expires) (step : LifecycleStep) : (s.next step).Expires := by
  rcases next_cases s step with same | moves
  · rwa [same]
  · exact moves.expires counted expires

theorem drainsUnused (counted : s.Counted) (step : LifecycleStep) : DrainsUnused step s := by
  rintro ⟨⟨timer, rfl⟩, admits, drains⟩
  rcases next_cases s (.graceFire timer) with same | moves
  · simp [same, admits] at drains
  · generalize s.next (.graceFire timer) = t at drains moves
    cases moves with
    | drain timer free due idle => exact (idle_iff counted).mp idle
    | stay timer free due busy => simp [finishTimer, admits] at drains

/-- A grace timer stops only a daemon that nobody uses, a daemon that is stopping lets nobody in, and an unused one has its
timer, whatever the order of the steps. -/
theorem grace_safe (foreground : Bool) (steps : List LifecycleStep) :
    Runs.Guarded DaemonState.next DrainsUnused steps (start foreground) ∧
      (Runs.states DaemonState.next steps (start foreground)).Pairwise ClosedSince ∧
      ∀ s ∈ Runs.states DaemonState.next steps (start foreground), s.Expires := by
  have counted : (start foreground).Counted := rfl
  have expires : (start foreground).Expires := fun serves => by simp [start] at serves
  refine ⟨?_, Runs.pairwise (fun a b c first second => first.trans second) ClosedSince.of_next steps _, ?_⟩
  · exact Runs.guarded_of_invariant (fun s step here => Counted.next here step) (fun s step here => drainsUnused here step) counted
  · intro s reached
    exact (Runs.invariant (P := fun s => s.Counted ∧ s.Expires)
      (fun s step here => ⟨here.1.next step, here.2.next here.1 step⟩) ⟨counted, expires⟩ s reached).2

/-! ### How long the daemon was unused before it stops -/

/-- The lock is given to no timer that ran out while a later one still counts: `_grace_fire` does not ask which timer it is. -/
def OnlyCurrentFires (step : LifecycleStep) (s : DaemonState) : Prop :=
  (∃ timer, step = .graceFire timer ∧ s.statusOf timer = some .fired) → s.arming = false → s.draining = false → s.idle = true →
    ∃ current timer, s.shutdownTimer = some current ∧ s.timers[current]? = some timer ∧
      timer.startedAt + daemonShutdownGracePeriodS ≤ s.clock

/-- The whole grace period before the run's last moment lies in the run, and every stay of the daemon in a used state had
ended before it. -/
def UnusedForGrace (foreground : Bool) (steps : List LifecycleStep) : Prop :=
  daemonShutdownGracePeriodS ≤ (steps.foldl next (start foreground)).clock ∧
    ∀ before step after, steps = before ++ step :: after → ¬ (before.foldl next (start foreground)).Unused →
      ((before ++ [step]).foldl next (start foreground)).clock + daemonShutdownGracePeriodS ≤
        (steps.foldl next (start foreground)).clock

/-- A daemon in the foreground has no grace timer. -/
def Untimed (s : DaemonState) : Prop :=
  s.foreground = true → s.timers = [] ∧ s.arming = false ∧ s.startup ≠ .timerCleared

/-- The current timer of an unused daemon was started no earlier than `moment`. -/
structure UnusedSince (moment : ℚ) (s : DaemonState) : Prop where
  past : moment ≤ s.clock
  timed : s.draining = false → s.Unused → s.foreground = false → s.arming = true ∨
    ∀ current timer, s.shutdownTimer = some current → s.timers[current]? = some timer → moment ≤ timer.startedAt

theorem cancelled_nil (none_started : s.timers = []) : s.cancelled = [] := by
  unfold cancelled
  split
  · exact none_started
  · rw [none_started, List.modify_nil]

theorem cancelled_startedAt {current : Nat} {timer : GraceTimer} (found : s.cancelled[current]? = some timer) :
    ∃ old, s.timers[current]? = some old ∧ old.startedAt = timer.startedAt := by
  have kept : ∀ t : GraceTimer, t.cancel.startedAt = t.startedAt := by
    intro t
    unfold GraceTimer.cancel
    split <;> rfl
  unfold cancelled at found
  cases named : s.shutdownTimer with
  | none =>
    rw [named] at found
    exact ⟨timer, found, rfl⟩
  | some c =>
    simp only [named, List.getElem?_modify, Option.map_eq_map, Option.map_eq_some_iff] at found
    obtain ⟨old, here, rfl⟩ := found
    refine ⟨old, here, ?_⟩
    split
    · exact (kept old).symm
    · rfl

theorem rearm_untimed (untimed : s.Untimed) : s.rearm.Untimed := by
  intro foreground
  rw [rearm_foreground] at foreground
  simpa [rearm, foreground] using untimed foreground

theorem Moves.untimed {step : LifecycleStep} {t : DaemonState} (moves : s.Moves step t) (untimed : s.Untimed) : t.Untimed := by
  cases moves with
  | unregister session free serves => exact rearm_untimed untimed
  | release call free runs => exact rearm_untimed untimed
  | arm held =>
    intro foreground
    simp [(untimed foreground).2.1] at held
  | startInitial cleared =>
    intro foreground
    exact ((untimed foreground).2.2 cleared).elim
  | clear published background =>
    intro foreground
    simp [background] at foreground
  | _ =>
    intro foreground
    obtain ⟨none_started, free, startup⟩ := untimed foreground
    simp [finishTimer, cancelled_nil none_started, none_started, free, startup]

theorem Untimed.next (untimed : s.Untimed) (step : LifecycleStep) : (s.next step).Untimed := by
  rcases next_cases s step with same | moves
  · rwa [same]
  · exact moves.untimed untimed

/-- The step that ends the daemon's use is about to start a timer. -/
theorem Moves.begins {step : LifecycleStep} {t : DaemonState} (moves : s.Moves step t) (counted : s.Counted) (used : ¬ s.Unused) :
    UnusedSince t.clock t := by
  refine ⟨le_rfl, fun admits unused background => ?_⟩
  cases moves with
  | unregister session free serves => exact .inl (rearm_arming counted admits unused background)
  | release call free runs => exact .inl (rearm_arming (release_counted counted runs) admits unused background)
  | hello session free serves admits => simp [Unused] at unused
  | acquire call free serves fresh admits => simp [Unused] at unused
  | publish recovery free fresh admits => simp [Unused] at unused
  | _ => exact (used (by simpa [Unused, finishTimer] using unused)).elim

theorem UnusedSince.of_published {moment startedAt : ℚ} {sessions running : Finset Nat} {inflight : Int}
    {foreground draining arming : Bool} {startup : Startup} {clock : ℚ} {timers : List GraceTimer} (past : moment ≤ clock)
    (later : moment ≤ startedAt) :
    UnusedSince moment ⟨foreground, startup, sessions, running, inflight, draining, some timers.length,
      timers ++ [⟨startedAt, .counting⟩], arming, clock⟩ := by
  refine ⟨past, fun _ _ _ => .inr fun current timer named found => ?_⟩
  obtain rfl := Option.some.inj named
  rw [List.getElem?_concat_length] at found
  obtain rfl := Option.some.inj found
  exact later

theorem Moves.unusedSince {step : LifecycleStep} {t : DaemonState} {moment : ℚ} (moves : s.Moves step t) (counted : s.Counted)
    (since : UnusedSince moment s) : UnusedSince moment t := by
  obtain ⟨past, timed⟩ := since
  cases moves with
  | unregister session free serves =>
    exact ⟨by simpa using past, fun admits unused background => .inl (rearm_arming counted admits unused background)⟩
  | release call free runs =>
    exact ⟨by simpa using past, fun admits unused background =>
      .inl (rearm_arming (release_counted counted runs) admits unused background)⟩
  | arm held => exact .of_published past past
  | startInitial cleared => exact .of_published past past
  | hello session free serves admits => exact ⟨past, fun _ unused => by simp [Unused] at unused⟩
  | acquire call free serves fresh admits => exact ⟨past, fun _ unused => by simp [Unused] at unused⟩
  | publish recovery free fresh admits => exact ⟨past, fun _ unused => by simp [Unused] at unused⟩
  | drain timer free due idle => exact ⟨past, fun admits => by simp at admits⟩
  | beginDraining free => exact ⟨past, fun admits => by simp at admits⟩
  | stay timer free due busy => exact ⟨past, fun _ _ _ => .inr fun _ _ named => by simp at named⟩
  | clear published background =>
    refine ⟨past, fun admits unused background => (timed admits unused background).imp_right fun old current timer named found => ?_⟩
    obtain ⟨before, here, same⟩ := cancelled_startedAt found
    exact (old current before named here).trans_eq same
  | runOut timer c found counts due =>
    refine ⟨past, fun admits unused background => (timed admits unused background).imp_right fun old current t named at_ => ?_⟩
    simp only [List.getElem?_modify, Option.map_eq_map, Option.map_eq_some_iff] at at_
    obtain ⟨before, here, rfl⟩ := at_
    have later := old current before named here
    split <;> exact later
  | elapse seconds forward => exact ⟨le_add_of_le_of_nonneg past forward, timed⟩
  | publishDraining recovery drains => exact ⟨past, timed⟩
  | skip published foreground => exact ⟨past, timed⟩

theorem UnusedSince.next {moment : ℚ} (since : UnusedSince moment s) (counted : s.Counted) (step : LifecycleStep) :
    UnusedSince moment (s.next step) := by
  rcases next_cases s step with same | moves
  · rwa [same]
  · exact moves.unusedSince counted since

/-- Whatever the timers did, the drain comes at least a grace period after the last use. -/
theorem UnusedSince.drained {moment : ℚ} {step : LifecycleStep} (since : UnusedSince moment s) (untimed : s.Untimed)
    (alone : OnlyCurrentFires step s) (drains : DrainsByGrace step s) (counted : s.Counted) :
    moment + daemonShutdownGracePeriodS ≤ s.clock := by
  obtain ⟨⟨timer, rfl⟩, admits, drained⟩ := drains
  rcases next_cases s (.graceFire timer) with same | moves
  · simp [same, admits] at drained
  · generalize s.next (.graceFire timer) = t at drained moves
    cases moves with
    | stay timer free due busy => simp [finishTimer, admits] at drained
    | drain timer free due idle =>
      obtain ⟨current, t, named, found, ranOut⟩ := alone ⟨timer, rfl, due⟩ free admits idle
      have background : s.foreground = false := by
        by_contra foreground
        rw [(untimed (by simpa using foreground)).1] at found
        simp at found
      rcases since.timed admits ((idle_iff counted).mp idle) background with held | later
      · simp [free] at held
      · have started := later current t named found
        linarith

theorem UnusedSince.begins (counted : s.Counted) (used : ¬ s.Unused) (step : LifecycleStep) :
    UnusedSince (s.next step).clock (s.next step) := by
  rcases next_cases s step with same | moves
  · rw [same]
    exact ⟨le_rfl, fun _ unused => (used unused).elim⟩
  · exact moves.begins counted used

/-- What the daemon's own accounts are worth, in every state. -/
structure Sound (s : DaemonState) : Prop where
  counted : s.Counted
  untimed : s.Untimed

theorem start_sound (foreground : Bool) : (start foreground).Sound :=
  ⟨rfl, fun _ => ⟨rfl, rfl, by simp [start]⟩⟩

theorem Sound.next (sound : s.Sound) (step : LifecycleStep) : (s.next step).Sound :=
  ⟨sound.counted.next step, sound.untimed.next step⟩

theorem Sound.run (sound : s.Sound) (steps : List LifecycleStep) : (steps.foldl DaemonState.next s).Sound :=
  Runs.final_of_guarded (P := Sound) (fun _ step here _ => here.next step) sound (Runs.guarded_true steps s)

theorem UnusedSince.run {moment : ℚ} (since : UnusedSince moment s) (sound : s.Sound) (steps : List LifecycleStep) :
    UnusedSince moment (steps.foldl DaemonState.next s) := by
  have both : UnusedSince moment (steps.foldl DaemonState.next s) ∧ (steps.foldl DaemonState.next s).Sound :=
    Runs.final_of_guarded (P := fun s => UnusedSince moment s ∧ s.Sound)
      (fun _ step here _ => ⟨here.1.next here.2.counted step, here.2.next step⟩) ⟨since, sound⟩ (Runs.guarded_true steps s)
  exact both.1

/-- In a run in which the lock never goes to a stale firing, every drain by grace follows a whole grace period without use. -/
theorem grace_continuous (foreground : Bool) (steps : List LifecycleStep)
    (alone : Runs.Guarded DaemonState.next OnlyCurrentFires steps (start foreground)) (before after : List LifecycleStep)
    (step : LifecycleStep) (split : steps = before ++ step :: after)
    (drains : DrainsByGrace step (before.foldl DaemonState.next (start foreground))) : UnusedForGrace foreground before := by
  have sound := (start_sound foreground).run before
  have here : OnlyCurrentFires step (before.foldl DaemonState.next (start foreground)) := by
    rw [split, Runs.guarded_append] at alone
    exact alone.2.1
  constructor
  · have since : UnusedSince 0 (start foreground) := ⟨le_rfl, fun _ _ _ => .inr fun _ _ named => by simp [start] at named⟩
    simpa using (since.run (start_sound foreground) before).drained sound.untimed here drains sound.counted
  · rintro early last late rfl used
    have earlier := (start_sound foreground).run early
    have since := UnusedSince.begins earlier.counted used last
    have later := since.run (earlier.next last) late
    rw [List.foldl_append, List.foldl_cons] at sound here drains ⊢
    rw [List.foldl_append, List.foldl_cons, List.foldl_nil]
    exact later.drained sound.untimed here drains sound.counted

/-- A timer runs out, a session comes before it has the lock and goes again, and the daemon stops at once. -/
def staleFiring : List LifecycleStep :=
  [.publishReady 0, .release 0, .arm, .clearInitialTimer, .startInitialTimer, .elapse 30, .runOut 1, .hello 1, .elapse 600,
    .unregister 1, .arm]

theorem staleFiring_drains : DrainsByGrace (.graceFire 1) (staleFiring.foldl DaemonState.next (start false)) ∧
    ¬ UnusedForGrace false staleFiring := by
  refine ⟨⟨⟨1, rfl⟩, by decide +kernel, by decide +kernel⟩, fun lasted => ?_⟩
  have tooLate := lasted.2 (staleFiring.take 8) (.elapse 600) [.unregister 1, .arm] rfl
    (by unfold Unused; decide +kernel)
  revert tooLate
  decide +kernel

/-- A daemon that is left alone from its start on. -/
def leftAlone : List LifecycleStep :=
  [.publishReady 0, .clearInitialTimer, .startInitialTimer, .release 0, .arm, .elapse 31, .runOut 1]

theorem leftAlone_unused : UnusedForGrace false leftAlone :=
  grace_continuous false (leftAlone ++ [.graceFire 1])
    (by
      refine Runs.guarded_append.mpr ⟨by simp [leftAlone, Runs.Guarded, OnlyCurrentFires], ?_, trivial⟩
      exact fun _ _ _ _ => ⟨1, ⟨0, .fired⟩, by decide +kernel, by decide +kernel, by decide +kernel⟩)
    leftAlone [] (.graceFire 1) rfl ⟨⟨1, rfl⟩, by decide +kernel, by decide +kernel⟩

end DaemonState

end SaltMdb
