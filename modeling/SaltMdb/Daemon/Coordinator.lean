import SaltMdb.Library.Runs
import SaltMdb.Store.Text

/-! The daemon's single writer: two lanes of jobs, their futures, the writer thread, and the threads that submit, cancel and
drain. A step is one stay under the admission lock, or a move outside it. -/

namespace SaltMdb
open Text

/-- `RETRY_MAX_ATTEMPTS`. -/
def retryMaxAttempts : Nat := 3

inductive Priority where
  | foreground
  | background
deriving DecidableEq

/-- What a closure raises, as far as the writer tells it apart. -/
inductive Raised where
  | coordinatorUsageError (message : String)
  | operationalError (message : String)
  /-- Any other `Exception`. -/
  | exception (message : String)
  /-- A `BaseException` that is no `Exception`. -/
  | exit (message : String)
deriving DecidableEq

def Raised.isException : Raised → Bool
  | .exit _ => false
  | _ => true

def Raised.isContention : Raised → Bool
  | .operationalError message => contains (lower message) "database is locked" || contains (lower message) "database is busy"
  | _ => false

def shuttingDown : Raised := .coordinatorUsageError "DAEMON_SHUTTING_DOWN"

/-- A `concurrent.futures.Future`. No one marks it as running. -/
inductive Future (α : Type) where
  | pending
  | cancelled
  | done (outcome : Except Raised α)

namespace Future

variable {α : Type}

def cancel : Future α → Future α
  | pending => cancelled
  | future => future

/-- `set_result` and `set_exception`. No value is `InvalidStateError`. -/
def set (outcome : Except Raised α) : Future α → Option (Future α)
  | pending => some (done outcome)
  | _ => none

end Future

structure WriteJob where
  label : String
  /-- The closure is a `_Maintenance`. -/
  maintenance : Bool
  future : Nat
deriving DecidableEq

/-- Why the writer's loop is left. -/
inductive Departure where
  | stopping
  | openFailed
  /-- The job's exception is no `Exception`. -/
  | exited
  /-- `InvalidStateError`. -/
  | unsettled
deriving DecidableEq

/-- Where the writer's thread stands. -/
inductive Writer (α : Type) where
  | absent
  | opening
  /-- At the head of the loop of `_wait_for_job`. -/
  | waiting
  | selecting
  /-- `_next_job` gave it nothing. -/
  | idle
  | asleep
  | took (job : WriteJob)
  | executing (job : WriteJob) (attempt : Nat)
  | settling (job : WriteJob) (outcome : Except Raised α)
  /-- About to call `begin_draining` itself. -/
  | leaving (departure : Departure)
  | draining (departure : Departure) (jobs : List WriteJob)
  | stopped

structure Coordinator (α : Type) where
  started : Bool
  stopping : Bool
  foreground : List WriteJob
  background : List WriteJob
  futures : List (Future α)
  writer : Writer α
  foregroundRun : Nat
  /-- The jobs still to cancel in each call of `begin_draining` that has left the lock. -/
  drainers : List (List WriteJob)
  /-- The submissions that have left the lock and have yet to notify. -/
  notices : Nat
  completed : Nat
  failed : Nat

inductive Action (α : Type) where
  | start
  | submit (byWriter : Bool) (label : String) (priority : Priority)
  | submitMaintenance (byWriter : Bool) (label : String)
  | notify
  | cancel (future : Nat)
  | beginDraining
  /-- A call of `begin_draining` goes on. -/
  | drain (drainer : Nat)
  | openWriter (opens : Bool)
  /-- One run of the closure, or of the transaction around it, comes to its end. -/
  | attempt (outcome : Except Raised α)
  /-- The writer goes on in any other place. -/
  | work

/-- What a step lets be seen. -/
inductive Sight where
  | admitted (priority : Priority) (future : Nat)
  /-- `behind` tells whether a background job was waiting. -/
  | taken (priority : Priority) (future : Nat) (behind : Bool)
  | executed (future : Nat)
  /-- A run of the closure came to its end without an exception. -/
  | returned (future : Nat)
  | refused (future : Nat)
  | drainingBegun (byWriter : Bool)
  | departed (departure : Departure)
deriving DecidableEq

namespace Coordinator

variable {α : Type}

def fresh : Coordinator α where
  started := false
  stopping := false
  foreground := []
  background := []
  futures := []
  writer := .absent
  foregroundRun := 0
  drainers := []
  notices := 0
  completed := 0
  failed := 0

variable (s : Coordinator α)

def activeTransaction : Bool :=
  match s.writer with
  | .executing _ _ => true
  | _ => false

def inTransaction (byWriter : Bool) : Bool := byWriter && s.activeTransaction

/-- What both kinds of submission do under the lock. -/
def put (label : String) (maintenance : Bool) (priority : Priority) : Coordinator α × List Sight :=
  let job : WriteJob := ⟨label, maintenance, s.futures.length⟩
  let s := { s with futures := s.futures ++ [Future.pending], notices := s.notices + 1 }
  match priority with
  | .foreground => ({ s with foreground := s.foreground ++ [job] }, [.admitted .foreground job.future])
  | .background => ({ s with background := s.background ++ [job] }, [.admitted .background job.future])

/-- A submission from within a transaction runs its closure in place. -/
def submit (byWriter : Bool) (label : String) (priority : Priority) : Coordinator α × List Sight :=
  if s.inTransaction byWriter then (s, [])
  else if !s.started then (s, [])
  else if s.stopping then (s, [])
  else s.put label false priority

def submitMaintenance (byWriter : Bool) (label : String) : Coordinator α × List Sight :=
  if s.inTransaction byWriter then (s, [])
  else if !s.started then (s, [])
  else if s.stopping then (s, [])
  else s.put label true .background

def wake : Coordinator α :=
  match s.writer with
  | .asleep => { s with writer := .waiting }
  | _ => s

def notify : Coordinator α :=
  if s.notices = 0 then s else { s.wake with notices := s.notices - 1 }

def cancel (future : Nat) : Coordinator α := { s with futures := s.futures.modify future Future.cancel }

/-- The part of `begin_draining` under the lock. -/
def emptyLanes : Coordinator α := { s with stopping := true, foreground := [], background := [] }

def beginDraining : Coordinator α × List Sight :=
  ({ s.emptyLanes with drainers := s.drainers ++ [s.foreground ++ s.background] }, [.drainingBegun false])

def settle (job : WriteJob) (outcome : Except Raised α) : Option (Coordinator α) := do
  let future ← s.futures[job.future]?
  let future ← future.set outcome
  return { s with futures := s.futures.set job.future future }

/-- The next job of a call of `begin_draining`, or its last notification. An exception ends the call. -/
def drain (drainer : Nat) : Coordinator α × List Sight :=
  match s.drainers[drainer]? with
  | none => (s, [])
  | some [] => ({ s.wake with drainers := s.drainers.eraseIdx drainer }, [])
  | some (job :: jobs) =>
    match s.settle job (.error shuttingDown) with
    | some s => ({ s with drainers := s.drainers.set drainer jobs }, [.refused job.future])
    | none => ({ s with drainers := s.drainers.eraseIdx drainer }, [])

def takeForeground (behind : Bool) : Option (Coordinator α × List Sight) :=
  match s.foreground with
  | [] => none
  | job :: jobs => some ({ s with foreground := jobs, foregroundRun := s.foregroundRun + 1, writer := .took job },
      [.taken .foreground job.future behind])

def takeBackground : Option (Coordinator α × List Sight) :=
  match s.background with
  | [] => none
  | job :: jobs => some ({ s with background := jobs, foregroundRun := 0, writer := .took job },
      [.taken .background job.future true])

def nextJob : Option (Coordinator α × List Sight) :=
  if 8 ≤ s.foregroundRun ∧ s.background ≠ [] then s.takeBackground
  else (s.takeForeground (s.background ≠ [])).or s.takeBackground

def depart (departure : Departure) : Coordinator α × List Sight :=
  ({ s with writer := .leaving departure }, [.departed departure])

def openWriter (opens : Bool) : Coordinator α × List Sight :=
  match s.writer with
  | .opening => if opens then ({ s with writer := .waiting, foregroundRun := 0 }, []) else s.depart .openFailed
  | _ => (s, [])

/-- The closure of a job that is no maintenance runs again, from a transaction rolled back, where the database was locked. -/
def attempt (outcome : Except Raised α) : Coordinator α × List Sight :=
  match s.writer with
  | .executing job attempt =>
    match outcome with
    | .ok _ => ({ s with writer := .settling job outcome }, [.returned job.future])
    | .error raised =>
      if !job.maintenance && raised.isContention && attempt < retryMaxAttempts then
        ({ s with writer := .executing job (attempt + 1) }, [])
      else ({ s with writer := .settling job outcome }, [])
  | _ => (s, [])

/-- The end of `_execute_job`. -/
def settleJob (job : WriteJob) (outcome : Except Raised α) : Coordinator α × List Sight :=
  match outcome with
  | .ok _ =>
    let s := { s with completed := s.completed + 1 }
    match s.settle job outcome with
    | none => s.depart .unsettled
    | some s => ({ s with writer := .waiting }, [])
  | .error raised =>
    let s := { s with failed := s.failed + 1 }
    match s.settle job outcome with
    | none => s.depart .unsettled
    | some s => if raised.isException then ({ s with writer := .waiting }, []) else s.depart .exited

/-- The call of `begin_draining` with which the writer's thread ends. -/
def drainOwn (departure : Departure) : List WriteJob → Coordinator α × List Sight
  | [] =>
    match departure with
    | .openFailed => ({ s with writer := .stopped, started := false }, [])
    | _ => ({ s with writer := .stopped }, [])
  | job :: jobs =>
    match s.settle job (.error shuttingDown) with
    | some s => ({ s with writer := .draining departure jobs }, [.refused job.future])
    | none => ({ s with writer := .stopped }, [])

def work : Coordinator α × List Sight :=
  match s.writer with
  | .waiting => if s.stopping then s.depart .stopping else ({ s with writer := .selecting }, [])
  | .selecting => s.nextJob.getD ({ s with writer := .idle }, [])
  | .idle =>
    if s.stopping then s.depart .stopping
    else if s.foreground = [] ∧ s.background = [] then ({ s with writer := .asleep }, [])
    else ({ s with writer := .waiting }, [])
  | .took job =>
    match s.futures[job.future]? with
    | some .cancelled => ({ s with writer := .waiting }, [])
    | _ => ({ s with writer := .executing job 0 }, [.executed job.future])
  | .settling job outcome => s.settleJob job outcome
  | .leaving departure =>
    ({ s.emptyLanes with writer := .draining departure (s.foreground ++ s.background) }, [.drainingBegun true])
  | .draining departure jobs => s.drainOwn departure jobs
  | _ => (s, [])

def start : Coordinator α := if s.started then s else { s with started := true, writer := .opening }

def step : Action α → Coordinator α × List Sight
  | .start => (s.start, [])
  | .submit byWriter label priority => s.submit byWriter label priority
  | .submitMaintenance byWriter label => s.submitMaintenance byWriter label
  | .notify => (s.notify, [])
  | .cancel future => (s.cancel future, [])
  | .beginDraining => s.beginDraining
  | .drain drainer => s.drain drainer
  | .openWriter opens => s.openWriter opens
  | .attempt outcome => s.attempt outcome
  | .work => s.work

end Coordinator

/-- The coordinator and all that has been seen of it. -/
structure Watched (α : Type) where
  now : Coordinator α
  seen : List Sight

namespace Watched

variable {α : Type}

def fresh : Watched α := ⟨.fresh, []⟩

def next (w : Watched α) (action : Action α) : Watched α :=
  ⟨(w.now.step action).1, w.seen ++ (w.now.step action).2⟩

end Watched

end SaltMdb
