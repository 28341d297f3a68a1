import SaltMdb.Daemon.Discovery
import SaltMdb.Library.Runs

/-! The election of the daemon that owns a database, among any number of processes on one machine: the start of `main`, its failures,
`_shutdown_sequence` and deaths at any moment, over the ports and the discovery files that the processes share. -/

namespace SaltMdb

inductive DaemonSocket where
  | guard
  | probe
  | service
  | viewer
deriving DecidableEq

/-- Who listens on a port of the loopback address. -/
inductive Occupant where
  | foreign
  | daemon (process : Nat) (socket : DaemonSocket)
deriving DecidableEq

/-- How far a daemon process has come; `writer` tells that the thread of its coordinator may still run. -/
inductive Stage where
  | launched
  | beaten
  | guarding
  | initializing
  | durable
  | listening
  | assembled
  /-- The temporary discovery file is written. -/
  | staged
  | ready
  | draining
  | serviceClosed
  | probeClosed
  | viewerClosed
  | writerClosed
  | unlisted
  /-- In the `except` of a helper of the start, with both election sockets open. -/
  | failing (writer : Bool)
  | probeless (writer : Bool)
  | leaving (code : Nat) (writer : Bool)
  /-- An exception left `main`; what is open stays open until the process is gone. -/
  | unwinding
  | exited (code : Nat)
  | died
deriving DecidableEq

namespace Stage

def holds : DaemonSocket → Stage → Bool
  | .guard, stage =>
    match stage with
    | .launched | .beaten | .leaving .. | .exited _ | .died => false
    | _ => true
  | .probe, stage =>
    match stage with
    | .initializing | .durable | .listening | .assembled | .staged | .ready | .draining | .serviceClosed | .failing _ | .unwinding => true
    | _ => false
  | .service, stage =>
    match stage with
    | .listening | .assembled | .staged | .ready | .draining | .unwinding => true
    | _ => false
  | .viewer, stage =>
    match stage with
    | .assembled | .staged | .ready | .draining | .serviceClosed | .probeClosed | .unwinding => true
    | _ => false

/-- The stages in which the process may have the database open for writing: from `init_db` to the join of the coordinator's thread. -/
def writes : Stage → Bool
  | .initializing | .durable | .listening | .assembled | .staged | .ready | .draining | .serviceClosed | .probeClosed | .viewerClosed
  | .unwinding => true
  | .failing writer | .probeless writer | .leaving _ writer => writer
  | _ => false

/-- From the replacement of the discovery file to its removal. -/
def listed : Stage → Bool
  | .ready | .draining | .serviceClosed | .probeClosed | .viewerClosed | .writerClosed => true
  | _ => false

/-- Before `state.auth_token` is set. -/
def tokenless : Stage → Bool
  | .launched | .guarding | .initializing | .durable | .listening | .assembled => true
  | _ => false

def alive : Stage → Bool
  | .exited _ | .died => false
  | _ => true

end Stage

structure DaemonProcess where
  dbPath : String
  pid : Nat
  stage : Stage
  servicePort : Option Nat
  viewerPort : Option Nat
  authToken : Option String
deriving DecidableEq

/-- What `discovery.write` puts into the file. -/
def DaemonProcess.record (process : DaemonProcess) : Option DiscoveryRecord :=
  match process.servicePort, process.authToken with
  | some servicePort, some authToken => some ⟨process.dbPath, process.pid, servicePort, authToken⟩
  | _, _ => none

/-- What the processes of one user share. A temporary file is named by its key and the pid of its writer. -/
structure DaemonHost where
  processes : Nat → Option DaemonProcess
  ports : Nat → Option Occupant
  temporary : DaemonKey → Nat → Option DiscoveryRecord
  files : DaemonKey → Option DiscoveryRecord

inductive HostStep where
  | spawn (p : Nat) (dbPath : String) (pid : Nat)
  /-- The path is not `"local"`. -/
  | refuse (p : Nat)
  | bindGuard (p : Nat)
  /-- `heard`: the probe was answered in time; `foreign`: the `db_path` in the answer of a process that is no daemon, if it answers. -/
  | reportLoser (p : Nat) (heard : Bool) (foreign : Option (Option String))
  | bindProbe (p : Nat)
  /-- `started`: nothing raised; `joined`: the coordinator's thread ended within the time of its shutdown. -/
  | startDurable (p : Nat) (started joined : Bool)
  | startService (p port : Nat)
  | startViewer (p : Nat) (viewerPort : Option Nat) (joined : Bool)
  | stage (p : Nat) (authToken : String)
  | failWrite (p : Nat)
  | publish (p : Nat)
  | beginDraining (p : Nat)
  | closeService (p : Nat)
  | closeProbe (p : Nat)
  | closeViewer (p : Nat)
  | joinWriter (p : Nat)
  | unlist (p : Nat)
  | closeGuard (p : Nat)
  | leave (p : Nat)
  | die (p : Nat)
  | occupy (port : Nat)
  | vacate (port : Nat)

namespace DaemonHost

variable (hexdigest : String → List (Fin 16))

/-- The port of a socket, once it is known. -/
def portOf (process : DaemonProcess) : DaemonSocket → Option Nat
  | .guard => some (electionPort (daemonKey hexdigest process.dbPath))
  | .probe => some (probePort (daemonKey hexdigest process.dbPath))
  | .service => process.servicePort
  | .viewer => process.viewerPort

def start : DaemonHost where
  processes := fun _ => none
  ports := fun _ => none
  temporary := fun _ _ => none
  files := fun _ => none

variable (h : DaemonHost)

def set (p : Nat) (process : DaemonProcess) : DaemonHost := { h with processes := Function.update h.processes p (some process) }

def bind (port p : Nat) (socket : DaemonSocket) : DaemonHost :=
  { h with ports := Function.update h.ports port (some (.daemon p socket)) }

def close (p : Nat) (socket : DaemonSocket) : DaemonHost :=
  { h with ports := fun port => if h.ports port = some (.daemon p socket) then none else h.ports port }

/-- What the system does with the sockets of a process that is gone. -/
def closeAll (p : Nat) : DaemonHost :=
  { h with ports := fun port =>
      match h.ports port with
      | some (.daemon q socket) => if q = p then none else some (.daemon q socket)
      | other => other }

def setTemporary (key : DaemonKey) (pid : Nat) (content : Option DiscoveryRecord) : DaemonHost :=
  { h with temporary := Function.update h.temporary key (Function.update (h.temporary key) pid content) }

def setFile (key : DaemonKey) (content : Option DiscoveryRecord) : DaemonHost :=
  { h with files := Function.update h.files key content }

/-- What process `p` does from one of the stages `here`; it does nothing from the others. -/
def during (p : Nat) (here : Stage → Bool) (act : DaemonProcess → DaemonHost) : DaemonHost :=
  match h.processes p with
  | none => h
  | some process => if here process.stage then act process else h

/-- The `db_path` in the answer of `_probe_identify`, `none` where there is no answer. -/
def probeIdentify (port : Nat) (heard : Bool) (foreign : Option (Option String)) : Option (Option String) :=
  if !heard then none
  else
    match h.ports port with
    | none => none
    | some .foreign => foreign
    | some (.daemon q .probe) => (h.processes q).map fun process => some process.dbPath
    -- A request without the token: the refusal has no `db_path`.
    | some (.daemon _ .service) => some none
    | some (.daemon _ .guard) | some (.daemon _ .viewer) => none

/-- `_classify_and_report_loser`. -/
def classifyLoser (dbPath : String) (info : Option (Option String)) : Bool :=
  match info with
  | none => false
  | some otherDbPath => !(otherDbPath.getD "" ≠ "" ∧ otherDbPath.getD "" ≠ dbPath)

/-- A helper of the start fails with the services it has started: they are shut down first. -/
def fail (p : Nat) (process : DaemonProcess) (joined : Bool) : DaemonHost :=
  (h.close p .service).set p { process with stage := .failing (!joined) }

def next (h : DaemonHost) : HostStep → DaemonHost
  | .spawn p dbPath pid =>
    match h.processes p with
    | none => h.set p ⟨dbPath, pid, .launched, none, none, none⟩
    | some _ => h
  | .refuse p => h.during p (· = .launched) fun process => h.set p { process with stage := .exited 1 }
  | .bindGuard p => h.during p (· = .launched) fun process =>
    let port := electionPort (daemonKey hexdigest process.dbPath)
    if h.ports port = none then (h.bind port p .guard).set p { process with stage := .guarding }
    else h.set p { process with stage := .beaten }
  | .reportLoser p heard foreign => h.during p (· = .beaten) fun process =>
    let info := h.probeIdentify (probePort (daemonKey hexdigest process.dbPath)) heard foreign
    h.set p { process with stage := .exited (if classifyLoser process.dbPath info then 0 else 1) }
  | .bindProbe p => h.during p (· = .guarding) fun process =>
    let port := probePort (daemonKey hexdigest process.dbPath)
    if h.ports port = none then (h.bind port p .probe).set p { process with stage := .initializing }
    else h.set p { process with stage := .probeless false }
  | .startDurable p started joined => h.during p (· = .initializing) fun process =>
    if started then h.set p { process with stage := .durable } else h.fail p process joined
  | .startService p port => h.during p (· = .durable) fun process =>
    if h.ports port = none then (h.bind port p .service).set p { process with stage := .listening, servicePort := some port } else h
  | .startViewer p viewerPort joined => h.during p (· = .listening) fun process =>
    match viewerPort with
    | none => h.set p { process with stage := .assembled, viewerPort := none }
    | some port =>
      if h.ports port = none then (h.bind port p .viewer).set p { process with stage := .assembled, viewerPort := some port }
      else h.fail p process joined
  | .stage p authToken => h.during p (· = .assembled) fun process =>
    let key := daemonKey hexdigest process.dbPath
    let issued := { process with authToken := some authToken }
    -- `O_EXCL`: a temporary file that is there raises out of `main`.
    if h.temporary key process.pid = none then (h.setTemporary key process.pid issued.record).set p { issued with stage := .staged }
    else h.set p { issued with stage := .unwinding }
  | .failWrite p => h.during p (· = .staged) fun process =>
    (h.setTemporary (daemonKey hexdigest process.dbPath) process.pid none).set p { process with stage := .unwinding }
  | .publish p => h.during p (· = .staged) fun process =>
    let key := daemonKey hexdigest process.dbPath
    ((h.setFile key (h.temporary key process.pid)).setTemporary key process.pid none).set p { process with stage := .ready }
  | .beginDraining p => h.during p (· = .ready) fun process => h.set p { process with stage := .draining }
  | .closeService p => h.during p (· = .draining) fun process => (h.close p .service).set p { process with stage := .serviceClosed }
  | .closeProbe p => h.during p (·.holds .probe) fun process =>
    match process.stage with
    | .serviceClosed => (h.close p .probe).set p { process with stage := .probeClosed }
    | .failing writer => (h.close p .probe).set p { process with stage := .probeless writer }
    | _ => h
  | .closeViewer p => h.during p (· = .probeClosed) fun process => (h.close p .viewer).set p { process with stage := .viewerClosed }
  | .joinWriter p => h.during p (· = .viewerClosed) fun process => h.set p { process with stage := .writerClosed }
  | .unlist p => h.during p (· = .writerClosed) fun process =>
    (h.setFile (daemonKey hexdigest process.dbPath) none).set p { process with stage := .unlisted }
  | .closeGuard p => h.during p (·.holds .guard) fun process =>
    match process.stage with
    | .unlisted => (h.close p .guard).set p { process with stage := .leaving 0 false }
    | .probeless writer => (h.close p .guard).set p { process with stage := .leaving 1 writer }
    | _ => h
  | .leave p => h.during p Stage.alive fun process =>
    match process.stage with
    | .leaving code _ => (h.closeAll p).set p { process with stage := .exited code }
    | _ => h
  | .die p => h.during p Stage.alive fun process => (h.closeAll p).set p { process with stage := .died }
  | .occupy port => if h.ports port = none then { h with ports := Function.update h.ports port (some .foreign) } else h
  | .vacate port => if h.ports port = some .foreign then { h with ports := Function.update h.ports port none } else h

variable {hexdigest} {h}

theorem during_cases {P : DaemonHost → Prop} {p : Nat} {here : Stage → Bool} {act : DaemonProcess → DaemonHost} (idle : P h)
    (acts : ∀ process, h.processes p = some process → here process.stage = true → P (act process)) : P (h.during p here act) := by
  unfold during
  split
  · exact idle
  · rename_i process found
    split
    · exact acts process found ‹_›
    · exact idle

/-! ### Who holds which port -/

variable (hexdigest) in
/-- The ports that are open for a process are those its stage says. -/
def Owns (ports : Nat → Option Occupant) (p : Nat) (process : DaemonProcess) : Prop :=
  ∀ socket port, ports port = some (.daemon p socket) ↔ process.stage.holds socket = true ∧ portOf hexdigest process socket = some port

variable {ports : Nat → Option Occupant} {p : Nat} {before after : DaemonProcess}

theorem Owns.stay (owns : Owns hexdigest ports p before) (holds : ∀ socket, after.stage.holds socket = before.stage.holds socket)
    (known : ∀ socket, before.stage.holds socket = true → portOf hexdigest after socket = portOf hexdigest before socket) :
    Owns hexdigest ports p after := by
  intro socket port
  rw [owns socket port, holds socket]
  constructor
  · rintro ⟨held, at_port⟩
    exact ⟨held, (known socket held).trans at_port⟩
  · rintro ⟨held, at_port⟩
    exact ⟨held, (known socket held).symm.trans at_port⟩

theorem Owns.bind {port : Nat} {socket : DaemonSocket} (owns : Owns hexdigest ports p before) (free : ports port = none)
    (holds : ∀ other, after.stage.holds other = (decide (other = socket) || before.stage.holds other))
    (unheld : before.stage.holds socket = false) (bound : portOf hexdigest after socket = some port)
    (known : ∀ other, before.stage.holds other = true → portOf hexdigest after other = portOf hexdigest before other) :
    Owns hexdigest (Function.update ports port (some (.daemon p socket))) p after := by
  intro other where_
  rw [holds other]
  by_cases same : other = socket
  · subst other
    rw [bound]
    by_cases here : where_ = port
    · subst where_
      simp
    · rw [Function.update_of_ne here]
      have closed : ports where_ ≠ some (.daemon p socket) := by
        intro found
        have held := ((owns socket where_).mp found).1
        rw [unheld] at held
        cases held
      simp [closed, Ne.symm here]
  · have elsewhere : Function.update ports port (some (.daemon p socket)) where_ = some (.daemon p other) ↔ ports where_ = some (.daemon p other) := by
      by_cases here : where_ = port
      · subst where_
        simp [free, Ne.symm same]
      · rw [Function.update_of_ne here]
    rw [elsewhere, owns other where_]
    simp only [same, decide_false, Bool.false_or]
    constructor
    · rintro ⟨held, at_port⟩
      exact ⟨held, (known other held).trans at_port⟩
    · rintro ⟨held, at_port⟩
      exact ⟨held, (known other held).symm.trans at_port⟩

theorem Owns.close {socket : DaemonSocket} (owns : Owns hexdigest ports p before)
    (holds : ∀ other, after.stage.holds other = (decide (other ≠ socket) && before.stage.holds other))
    (known : ∀ other, portOf hexdigest after other = portOf hexdigest before other) :
    Owns hexdigest (fun port => if ports port = some (.daemon p socket) then none else ports port) p after := by
  intro other where_
  rw [holds other, known other]
  dsimp only
  by_cases same : other = socket
  · subst other
    simp
  · split
    · rename_i found
      have absent : ¬ (before.stage.holds other = true ∧ portOf hexdigest before other = some where_) := by
        rw [← owns other where_, found]
        simp [Ne.symm same]
      simp [same]
      simpa using absent
    · rw [owns other where_]
      simp [same]

theorem Owns.closeAll (holds : ∀ socket, after.stage.holds socket = false) : Owns hexdigest (h.closeAll p).ports p after := by
  intro socket port
  rw [holds socket]
  simp only [Bool.false_eq_true, false_and, iff_false]
  unfold DaemonHost.closeAll
  dsimp only
  split
  · rename_i q other found
    by_cases own : q = p
    · simp [own]
    · simp [own]
  · rename_i none_of
    intro found
    exact none_of p socket found

/-- A port of another process is open as before. -/
def LeavesOthers (p : Nat) (ports later : Nat → Option Occupant) : Prop :=
  ∀ q, q ≠ p → ∀ socket port, later port = some (.daemon q socket) ↔ ports port = some (.daemon q socket)

theorem LeavesOthers.bind {port : Nat} {socket : DaemonSocket} (free : ports port = none) :
    LeavesOthers p ports (Function.update ports port (some (.daemon p socket))) := by
  intro q other socket' where_
  by_cases here : where_ = port
  · subst where_
    simp [free, Ne.symm other]
  · rw [Function.update_of_ne here]

theorem LeavesOthers.close {socket : DaemonSocket} :
    LeavesOthers p ports (fun port => if ports port = some (.daemon p socket) then none else ports port) := by
  intro q other socket' where_
  dsimp only
  split
  · rename_i found
    simp [found, Ne.symm other]
  · rfl

theorem LeavesOthers.closeAll : LeavesOthers p h.ports (h.closeAll p).ports := by
  intro q other socket port
  unfold DaemonHost.closeAll
  dsimp only
  split
  · rename_i r socket' found
    by_cases own : r = p
    · subst r
      simp [found, Ne.symm other]
    · simp [own, found]
  · rfl

/-! ### The invariant -/

/-- What a process knows by its stage. -/
structure Formed (process : DaemonProcess) : Prop where
  tokenless : process.stage.tokenless = true → process.authToken = none
  served : process.stage.holds .service = true → process.servicePort ≠ none
  recorded : process.stage.listed = true ∨ process.stage = .staged → process.record ≠ none

/-- Its record is in the file, or was when it died. -/
def Published (process : DaemonProcess) : Prop := process.stage.listed = true ∨ process.stage = .died

variable (hexdigest) in
structure Sound (h : DaemonHost) : Prop where
  owns : ∀ p process, h.processes p = some process → Owns hexdigest h.ports p process
  absent : ∀ p socket port, h.processes p = none → h.ports port ≠ some (.daemon p socket)
  formed : ∀ p process, h.processes p = some process → Formed process
  listed : ∀ p process, h.processes p = some process → process.stage.listed = true → h.files (daemonKey hexdigest process.dbPath) = process.record
  written : ∀ key record, h.files key = some record →
    ∃ p process, h.processes p = some process ∧ daemonKey hexdigest process.dbPath = key ∧ process.record = some record ∧ Published process
  staged : ∀ p process, h.processes p = some process → process.stage = .staged →
    h.temporary (daemonKey hexdigest process.dbPath) process.pid = process.record

theorem start_sound : Sound hexdigest start where
  owns := by intro p process found; cases found
  absent := by intro p socket port _ found; cases found
  formed := by intro p process found; cases found
  listed := by intro p process found; cases found
  written := by intro key record found; cases found
  staged := by intro p process found; cases found

/-- The mutual exclusion that the guard gives: its port is bound for one process at most. -/
theorem Sound.one_guard (sound : Sound hexdigest h) {p q : Nat} {one other : DaemonProcess} (first : h.processes p = some one)
    (second : h.processes q = some other) (guards : one.stage.holds .guard = true) (guards' : other.stage.holds .guard = true)
    (slot : portSlot (daemonKey hexdigest one.dbPath) = portSlot (daemonKey hexdigest other.dbPath)) : p = q := by
  have bound := (sound.owns p one first .guard _).mpr ⟨guards, rfl⟩
  have bound' := (sound.owns q other second .guard _).mpr ⟨guards', rfl⟩
  rw [electionPort_eq_iff.mpr slot, bound'] at bound
  simp at bound
  exact bound.symm

/-- What a step of process `p` has to show when it leaves the files as they are. -/
structure Change (hexdigest : String → List (Fin 16)) (h : DaemonHost) (p : Nat) (before after : DaemonProcess)
    (later : Nat → Option Occupant) : Prop where
  path : after.dbPath = before.dbPath
  owns : Owns hexdigest later p after
  others : LeavesOthers p h.ports later
  formed : Formed after
  listed : after.stage.listed = true → before.stage.listed = true
  published : Published before → Published after ∧ after.record = before.record
  staged : after.stage = .staged → h.temporary (daemonKey hexdigest after.dbPath) after.pid = after.record

theorem Sound.change {later : Nat → Option Occupant} (sound : Sound hexdigest h) (here : h.processes p = some before)
    (change : Change hexdigest h p before after later) :
    Sound hexdigest { h with processes := Function.update h.processes p (some after), ports := later } where
  owns := by
    intro q process found socket port
    dsimp only at found ⊢
    by_cases own : q = p
    · subst q
      rw [Function.update_self] at found
      cases found
      exact change.owns socket port
    · rw [Function.update_of_ne own] at found
      rw [change.others q own socket port]
      exact sound.owns q process found socket port
  absent := by
    intro q socket port missing
    dsimp only at missing ⊢
    by_cases own : q = p
    · subst q
      simp at missing
    · rw [Function.update_of_ne own] at missing
      rw [Ne, change.others q own socket port]
      exact sound.absent q socket port missing
  formed := by
    intro q process found
    dsimp only at found
    by_cases own : q = p
    · subst q
      rw [Function.update_self] at found
      cases found
      exact change.formed
    · rw [Function.update_of_ne own] at found
      exact sound.formed q process found
  listed := by
    intro q process found listed
    dsimp only at found ⊢
    by_cases own : q = p
    · subst q
      rw [Function.update_self] at found
      cases found
      have was := change.listed listed
      rw [change.path, (change.published (Or.inl was)).2]
      exact sound.listed p before here was
    · rw [Function.update_of_ne own] at found
      exact sound.listed q process found listed
  written := by
    intro key record found
    obtain ⟨q, process, there, of_key, its_record, published⟩ := sound.written key record found
    by_cases own : q = p
    · subst q
      rw [here] at there
      cases there
      obtain ⟨still, same⟩ := change.published published
      exact ⟨p, after, Function.update_self .., by rw [change.path]; exact of_key, same.trans its_record, still⟩
    · exact ⟨q, process, by dsimp only; rw [Function.update_of_ne own]; exact there, of_key, its_record, published⟩
  staged := by
    intro q process found stage
    dsimp only at found ⊢
    by_cases own : q = p
    · subst q
      rw [Function.update_self] at found
      cases found
      exact change.staged stage
    · rw [Function.update_of_ne own] at found
      exact sound.staged q process found stage

theorem listed_guards {stage : Stage} (listed : stage.listed = true) : stage.holds .guard = true := by
  cases stage <;> first | rfl | cases listed

/-- The step of an owner that replaces or removes the discovery file of its key. -/
theorem Sound.relist {content : Option DiscoveryRecord} (sound : Sound hexdigest h) (here : h.processes p = some before)
    (guards : before.stage.holds .guard = true) (path : after.dbPath = before.dbPath) (owns : Owns hexdigest h.ports p after) (formed : Formed after)
    (listed : after.stage.listed = true → content = after.record) (written : content ≠ none → content = after.record ∧ Published after)
    (unstaged : after.stage ≠ .staged) : Sound hexdigest ((h.setFile (daemonKey hexdigest before.dbPath) content).set p after) where
  owns := by
    intro q process found
    by_cases own : q = p
    · subst q
      simp only [set, Function.update_self] at found
      cases found
      exact owns
    · simp only [set, Function.update_of_ne own] at found
      exact sound.owns q process found
  absent := by
    intro q socket port missing
    by_cases own : q = p
    · subst q
      simp [set] at missing
    · simp only [set, Function.update_of_ne own] at missing
      exact sound.absent q socket port missing
  formed := by
    intro q process found
    by_cases own : q = p
    · subst q
      simp only [set, Function.update_self] at found
      cases found
      exact formed
    · simp only [set, Function.update_of_ne own] at found
      exact sound.formed q process found
  listed := by
    intro q process found stage
    by_cases own : q = p
    · subst q
      simp only [set, Function.update_self] at found
      cases found
      simp only [set, setFile, path, Function.update_self]
      exact listed stage
    · simp only [set, setFile, Function.update_of_ne own] at found ⊢
      have other_key : daemonKey hexdigest process.dbPath ≠ daemonKey hexdigest before.dbPath := by
        intro same
        exact own (sound.one_guard found here (listed_guards stage) guards (by rw [same]))
      rw [Function.update_of_ne other_key]
      exact sound.listed q process found stage
  written := by
    intro key record found
    simp only [set, setFile] at found ⊢
    by_cases of_key : key = daemonKey hexdigest before.dbPath
    · subst key
      rw [Function.update_self] at found
      obtain ⟨same, published⟩ := written (by rw [found]; simp)
      exact ⟨p, after, Function.update_self .., by rw [path], same.symm.trans found, published⟩
    · rw [Function.update_of_ne of_key] at found
      obtain ⟨q, process, there, its_key, its_record, published⟩ := sound.written key record found
      have own : q ≠ p := by
        rintro rfl
        rw [here] at there
        cases there
        exact of_key its_key.symm
      exact ⟨q, process, by rw [Function.update_of_ne own]; exact there, its_key, its_record, published⟩
  staged := by
    intro q process found stage
    by_cases own : q = p
    · subst q
      simp only [set, Function.update_self] at found
      cases found
      exact absurd stage unstaged
    · simp only [set, Function.update_of_ne own] at found
      exact sound.staged q process found stage

/-- A temporary file can change where no process has yet to move it, or where it gets what that process means to publish. -/
theorem Sound.setTemporary {key : DaemonKey} {pid : Nat} {content : Option DiscoveryRecord} (sound : Sound hexdigest h)
    (unneeded : ∀ q process, h.processes q = some process → process.stage = .staged →
      ¬ (daemonKey hexdigest process.dbPath = key ∧ process.pid = pid)) : Sound hexdigest (h.setTemporary key pid content) where
  owns := sound.owns
  absent := sound.absent
  formed := sound.formed
  listed := sound.listed
  written := sound.written
  staged := by
    intro q process found stage
    have mine := sound.staged q process found stage
    have other := unneeded q process found stage
    unfold DaemonHost.setTemporary
    dsimp only
    by_cases of_key : daemonKey hexdigest process.dbPath = key
    · subst key
      rw [Function.update_self, Function.update_of_ne (fun same => other ⟨rfl, same⟩)]
      exact mine
    · rw [Function.update_of_ne of_key]
      exact mine

theorem Sound.spawn {dbPath : String} {pid : Nat} (sound : Sound hexdigest h) (fresh : h.processes p = none) :
    Sound hexdigest (h.set p ⟨dbPath, pid, .launched, none, none, none⟩) where
  owns := by
    intro q process found
    by_cases own : q = p
    · subst q
      simp only [set, Function.update_self] at found
      cases found
      intro socket port
      have unheld : Stage.holds socket .launched = false := by cases socket <;> rfl
      simpa [unheld, set] using sound.absent p socket port fresh
    · simp only [set, Function.update_of_ne own] at found
      exact sound.owns q process found
  absent := by
    intro q socket port missing
    by_cases own : q = p
    · subst q
      simp [set] at missing
    · simp only [set, Function.update_of_ne own] at missing
      exact sound.absent q socket port missing
  formed := by
    intro q process found
    by_cases own : q = p
    · subst q
      simp only [set, Function.update_self] at found
      cases found
      exact ⟨fun _ => rfl, nofun, fun either => either.elim nofun nofun⟩
    · simp only [set, Function.update_of_ne own] at found
      exact sound.formed q process found
  listed := by
    intro q process found stage
    by_cases own : q = p
    · subst q
      simp only [set, Function.update_self] at found
      cases found
      cases stage
    · simp only [set, Function.update_of_ne own] at found
      exact sound.listed q process found stage
  written := by
    intro key record found
    obtain ⟨q, process, there, rest⟩ := sound.written key record found
    have own : q ≠ p := by
      rintro rfl
      rw [fresh] at there
      cases there
    exact ⟨q, process, by simp only [set, Function.update_of_ne own]; exact there, rest⟩
  staged := by
    intro q process found stage
    by_cases own : q = p
    · subst q
      simp only [set, Function.update_self] at found
      cases found
      cases stage
    · simp only [set, Function.update_of_ne own] at found
      exact sound.staged q process found stage

/-- What other programs do with ports that no daemon has. -/
theorem Sound.foreign {later : Nat → Option Occupant} (sound : Sound hexdigest h)
    (leaves : ∀ p socket port, later port = some (.daemon p socket) ↔ h.ports port = some (.daemon p socket)) :
    Sound hexdigest { h with ports := later } where
  owns := fun p process found socket port => (leaves p socket port).trans (sound.owns p process found socket port)
  absent := fun p socket port missing open_ => sound.absent p socket port missing ((leaves p socket port).mp open_)
  formed := sound.formed
  listed := sound.listed
  written := sound.written
  staged := sound.staged

/-! ### The steps -/

/-- A step that only moves on, with every socket as it was. -/
theorem Sound.advance {was stage : Stage} (sound : Sound hexdigest h) (here : h.processes p = some before) (at_ : before.stage = was)
    (holds : ∀ socket, stage.holds socket = was.holds socket) (tokenless : stage.tokenless = true → was.tokenless = true)
    (listed : stage.listed = was.listed) (alive : was ≠ .died) (unstaged : stage ≠ .staged) : Sound hexdigest (h.set p { before with stage }) := by
  subst at_
  have formed := sound.formed p before here
  have change : Change hexdigest h p before { before with stage } h.ports := by
    refine ⟨rfl, (sound.owns p before here).stay holds fun _ _ => rfl, fun _ _ _ _ => Iff.rfl, ⟨?_, ?_, ?_⟩, ?_, ?_, ?_⟩
    · exact fun bare => formed.tokenless (tokenless bare)
    · exact fun held => formed.served ((holds .service).symm.trans held)
    · rintro (was | was)
      · exact formed.recorded (Or.inl (listed.symm.trans was))
      · exact absurd was unstaged
    · exact fun was => listed.symm.trans was
    · rintro (was | was)
      · exact ⟨Or.inl (listed.trans was), rfl⟩
      · exact absurd was alive
    · exact fun was => absurd was unstaged
  exact sound.change here change

/-- A step that closes one socket. -/
theorem Sound.shut {was stage : Stage} {socket : DaemonSocket} (sound : Sound hexdigest h) (here : h.processes p = some before)
    (at_ : before.stage = was) (holds : ∀ other, stage.holds other = (decide (other ≠ socket) && was.holds other))
    (issued : stage.tokenless = false) (listed : stage.listed = was.listed) (alive : was ≠ .died) (unstaged : stage ≠ .staged) :
    Sound hexdigest ((h.close p socket).set p { before with stage }) := by
  subst at_
  have formed := sound.formed p before here
  have change : Change hexdigest h p before { before with stage } (h.close p socket).ports := by
    refine ⟨rfl, (sound.owns p before here).close holds fun _ => rfl, LeavesOthers.close, ⟨?_, ?_, ?_⟩, ?_, ?_, ?_⟩
    · intro bare
      rw [issued] at bare
      cases bare
    · intro held
      have was := (holds .service).symm.trans held
      exact formed.served (by simpa using (Bool.and_eq_true _ _ ▸ was : _ ∧ _).2)
    · rintro (was | was)
      · exact formed.recorded (Or.inl (listed.symm.trans was))
      · exact absurd was unstaged
    · exact fun was => listed.symm.trans was
    · rintro (was | was)
      · exact ⟨Or.inl (listed.trans was), rfl⟩
      · exact absurd was alive
    · exact fun was => absurd was unstaged
  exact sound.change here change

/-- The process is gone, and its sockets with it. -/
theorem Sound.gone {stage : Stage} (sound : Sound hexdigest h) (here : h.processes p = some before) (over_ : stage.alive = false)
    (kept : before.stage.listed = true → stage = .died) (alive : before.stage ≠ .died) :
    Sound hexdigest ((h.closeAll p).set p { before with stage }) := by
  obtain ⟨nothing, issued, unlisted, unstaged⟩ : (∀ socket, stage.holds socket = false) ∧ stage.tokenless = false ∧ stage.listed = false ∧
      stage ≠ .staged := by
    cases stage with
    | exited | died => exact ⟨fun socket => by cases socket <;> rfl, rfl, rfl, nofun⟩
    | _ => cases over_
  have change : Change hexdigest h p before { before with stage } (h.closeAll p).ports := by
    refine ⟨rfl, Owns.closeAll nothing, LeavesOthers.closeAll, ⟨?_, ?_, ?_⟩, ?_, ?_, ?_⟩
    · exact fun bare => absurd (issued.symm.trans bare) nofun
    · exact fun held => absurd ((nothing .service).symm.trans held) nofun
    · rintro (was | was)
      · exact absurd (unlisted.symm.trans was) nofun
      · exact absurd was unstaged
    · exact fun was => absurd (unlisted.symm.trans was) nofun
    · rintro (was | was)
      · exact ⟨Or.inr (kept was), rfl⟩
      · exact absurd was alive
    · exact fun was => absurd was unstaged
  exact sound.change here change

/-- A step that binds one more socket. -/
theorem Sound.open_ {port : Nat} {was : Stage} {socket : DaemonSocket} (sound : Sound hexdigest h) (here : h.processes p = some before)
    (at_ : before.stage = was) (free : h.ports port = none) (path : after.dbPath = before.dbPath) (token : after.authToken = before.authToken)
    (bare : was.tokenless = true) (early : after.stage.tokenless = true) (unheld : was.holds socket = false)
    (holds : ∀ other, after.stage.holds other = (decide (other = socket) || was.holds other)) (bound : portOf hexdigest after socket = some port)
    (known : ∀ other, was.holds other = true → portOf hexdigest after other = portOf hexdigest before other) :
    Sound hexdigest ((h.bind port p socket).set p after) := by
  subst at_
  have formed := sound.formed p before here
  have unlisted : ∀ stage : Stage, stage.tokenless = true → stage.listed = false ∧ stage ≠ .staged ∧ stage ≠ .died := by
    intro stage bare
    cases stage <;> first | (cases bare; done) | exact ⟨rfl, nofun, nofun⟩
  obtain ⟨was, _, lives⟩ := unlisted _ bare
  obtain ⟨is, unstaged, _⟩ := unlisted _ early
  have change : Change hexdigest h p before after (h.bind port p socket).ports := by
    refine ⟨path, (sound.owns p before here).bind free holds unheld bound known, LeavesOthers.bind free, ⟨?_, ?_, ?_⟩, ?_, ?_, ?_⟩
    · exact fun _ => token.trans (formed.tokenless bare)
    · intro held
      by_cases service : socket = .service
      · subst socket
        exact fun missing => by cases missing.symm.trans bound
      · have held_before : before.stage.holds .service = true := by
          have either := (holds .service).symm.trans held
          simpa [Ne.symm service] using either
        exact fun missing => formed.served held_before ((known .service held_before).symm.trans missing)
    · rintro (now | now)
      · exact absurd (is.symm.trans now) nofun
      · exact absurd now unstaged
    · exact fun now => absurd (is.symm.trans now) nofun
    · rintro (now | now)
      · exact absurd (was.symm.trans now) nofun
      · exact absurd now lives
    · exact fun now => absurd now unstaged
  exact sound.change here change

theorem Sound.fail {joined : Bool} (sound : Sound hexdigest h) (here : h.processes p = some before)
    (starting : before.stage = .initializing ∨ before.stage = .listening) : Sound hexdigest (h.fail p before joined) := by
  unfold DaemonHost.fail
  rcases starting with at_ | at_
  · exact sound.shut here at_ (by rintro ⟨⟩ <;> rfl) rfl rfl nofun nofun
  · exact sound.shut here at_ (by rintro ⟨⟩ <;> rfl) rfl rfl nofun nofun

/-- The viewer is disabled. -/
theorem Sound.assemble (sound : Sound hexdigest h) (here : h.processes p = some before) (at_ : before.stage = .listening) :
    Sound hexdigest (h.set p { before with stage := .assembled, viewerPort := none }) := by
  have formed := sound.formed p before here
  have owns := sound.owns p before here
  have change : Change hexdigest h p before { before with stage := .assembled, viewerPort := none } h.ports := by
    refine ⟨rfl, ?_, fun _ _ _ _ => Iff.rfl, ⟨?_, ?_, ?_⟩, nofun, ?_, nofun⟩
    · intro socket port
      rw [owns socket port, at_]
      cases socket with
      | viewer => exact ⟨nofun, nofun⟩
      | _ => exact Iff.rfl
    · exact fun _ => formed.tokenless (by rw [at_]; rfl)
    · exact fun _ => formed.served (by rw [at_]; rfl)
    · rintro (now | now) <;> cases now
    · rintro (was | was) <;> (rw [at_] at was; cases was)
  exact sound.change here change

theorem Sound.stage {authToken : String} (sound : Sound hexdigest h) : Sound hexdigest (next hexdigest h (.stage p authToken)) := by
  unfold next
  refine during_cases sound fun before here at_ => ?_
  replace at_ : before.stage = .assembled := of_decide_eq_true at_
  have formed := sound.formed p before here
  have served := formed.served (by rw [at_]; rfl)
  -- Every way on leaves `assembled` for a later stage that holds the same sockets.
  have onward : ∀ {h' : DaemonHost} {stage : Stage}, Sound hexdigest h' → h'.processes p = some before → (stage = .staged ∨ stage = .unwinding) →
      (stage = .staged → h'.temporary (daemonKey hexdigest before.dbPath) before.pid = { before with authToken := some authToken }.record) →
      Sound hexdigest (h'.set p { before with authToken := some authToken, stage }) := by
    intro h' stage sound' here' later written
    have change : Change hexdigest h' p before { before with authToken := some authToken, stage } h'.ports := by
      refine ⟨rfl, (sound'.owns p before here').stay ?_ fun socket _ => by cases socket <;> rfl, fun _ _ _ _ => Iff.rfl, ⟨?_, ?_, ?_⟩, ?_, ?_, ?_⟩
      · intro socket
        rw [at_]
        rcases later with rfl | rfl <;> cases socket <;> rfl
      · intro bare
        rcases later with rfl | rfl <;> cases bare
      · exact fun _ => served
      · intro _
        unfold DaemonProcess.record
        cases port : before.servicePort with
        | none => exact absurd port served
        | some port => simp
      · intro listed
        rcases later with rfl | rfl <;> cases listed
      · rintro (was | was)
        · rw [at_] at was
          cases was
        · rw [at_] at was
          cases was
      · exact written
    exact sound'.change here' change
  dsimp only
  split
  · rename_i free
    refine onward (sound.setTemporary ?_) here (Or.inl rfl) fun _ => ?_
    · rintro q process found staged ⟨same_key, same_pid⟩
      have its := sound.staged q process found staged
      rw [same_key, same_pid, free] at its
      exact (sound.formed q process found).recorded (Or.inr staged) its.symm
    · simp only [DaemonHost.setTemporary, Function.update_self]
  · exact onward sound here (Or.inr rfl) nofun

theorem Sound.publish (sound : Sound hexdigest h) : Sound hexdigest (next hexdigest h (.publish p)) := by
  unfold next
  refine during_cases sound fun before here at_ => ?_
  replace at_ : before.stage = .staged := of_decide_eq_true at_
  have formed := sound.formed p before here
  have recorded := formed.recorded (Or.inr at_)
  have content := sound.staged p before here at_
  have guards : before.stage.holds .guard = true := by rw [at_]; rfl
  have moved : Sound hexdigest ((h.setFile (daemonKey hexdigest before.dbPath) (h.temporary (daemonKey hexdigest before.dbPath) before.pid)).set p
      { before with stage := .ready }) := by
    refine sound.relist here guards rfl ((sound.owns p before here).stay ?_ fun _ _ => rfl) ⟨nofun, ?_, fun _ => recorded⟩ ?_ ?_ nofun
    · intro socket
      rw [at_]
      cases socket <;> rfl
    · exact fun _ => formed.served (by rw [at_]; rfl)
    · exact fun _ => content
    · exact fun _ => ⟨content, Or.inl rfl⟩
  refine moved.setTemporary ?_
  rintro q process found staged ⟨same_key, _⟩
  by_cases own : q = p
  · subst q
    simp only [set, Function.update_self] at found
    cases found
    cases staged
  · simp only [set, Function.update_of_ne own] at found
    exact own (sound.one_guard found here (by rw [staged]; rfl) guards (by rw [same_key]))

theorem Sound.failWrite (sound : Sound hexdigest h) : Sound hexdigest (next hexdigest h (.failWrite p)) := by
  unfold next
  refine during_cases sound fun before here at_ => ?_
  replace at_ : before.stage = .staged := of_decide_eq_true at_
  have guards : before.stage.holds .guard = true := by rw [at_]; rfl
  have moved : Sound hexdigest (h.set p { before with stage := .unwinding }) :=
    sound.advance here at_ (by rintro ⟨⟩ <;> rfl) nofun rfl nofun nofun
  refine moved.setTemporary ?_
  rintro q process found staged ⟨same_key, _⟩
  by_cases own : q = p
  · subst q
    simp only [set, Function.update_self] at found
    cases found
    cases staged
  · simp only [set, Function.update_of_ne own] at found
    exact own (sound.one_guard found here (by rw [staged]; rfl) guards (by rw [same_key]))

theorem Sound.unlist (sound : Sound hexdigest h) : Sound hexdigest (next hexdigest h (.unlist p)) := by
  unfold next
  refine during_cases sound fun before here at_ => ?_
  replace at_ : before.stage = .writerClosed := of_decide_eq_true at_
  refine sound.relist here (by rw [at_]; rfl) rfl ((sound.owns p before here).stay ?_ fun _ _ => rfl) ⟨nofun, nofun, ?_⟩ nofun ?_ nofun
  · intro socket
    rw [at_]
    cases socket <;> rfl
  · rintro (was | was) <;> cases was
  · exact fun missing => absurd rfl missing

/-- Every step of every process keeps the invariant. -/
theorem Sound.next (sound : Sound hexdigest h) (step : HostStep) : Sound hexdigest (next hexdigest h step) := by
  cases step
  case stage => exact sound.stage
  case failWrite => exact sound.failWrite
  case publish => exact sound.publish
  case unlist => exact sound.unlist
  all_goals dsimp only [DaemonHost.next]
  all_goals try refine during_cases sound fun before here at_ => ?_
  case spawn p dbPath pid =>
    split
    · exact sound.spawn ‹_›
    · exact sound
  case refuse => exact sound.advance here (of_decide_eq_true at_) (by rintro ⟨⟩ <;> rfl) nofun rfl nofun nofun
  case bindGuard =>
    split
    · exact sound.open_ here (of_decide_eq_true at_) ‹_› rfl rfl rfl rfl rfl (by rintro ⟨⟩ <;> rfl) rfl fun other _ => by cases other <;> rfl
    · exact sound.advance here (of_decide_eq_true at_) (by rintro ⟨⟩ <;> rfl) nofun rfl nofun nofun
  case reportLoser => exact sound.advance here (of_decide_eq_true at_) (by rintro ⟨⟩ <;> rfl) nofun rfl nofun nofun
  case bindProbe =>
    split
    · exact sound.open_ here (of_decide_eq_true at_) ‹_› rfl rfl rfl rfl rfl (by rintro ⟨⟩ <;> rfl) rfl fun other _ => by cases other <;> rfl
    · exact sound.advance here (of_decide_eq_true at_) (by rintro ⟨⟩ <;> rfl) nofun rfl nofun nofun
  case startDurable =>
    split
    · exact sound.advance here (of_decide_eq_true at_) (by rintro ⟨⟩ <;> rfl) (fun _ => rfl) rfl nofun nofun
    · exact sound.fail here (Or.inl (of_decide_eq_true at_))
  case startService =>
    split
    · refine sound.open_ here (of_decide_eq_true at_) ‹_› rfl rfl rfl rfl rfl (by rintro ⟨⟩ <;> rfl) rfl fun other held => ?_
      cases other <;> first | rfl | cases held
    · exact sound
  case startViewer =>
    split
    · exact sound.assemble here (of_decide_eq_true at_)
    · split
      · refine sound.open_ here (of_decide_eq_true at_) ‹_› rfl rfl rfl rfl rfl (by rintro ⟨⟩ <;> rfl) rfl fun other held => ?_
        cases other <;> first | rfl | cases held
      · exact sound.fail here (Or.inr (of_decide_eq_true at_))
  case beginDraining => exact sound.advance here (of_decide_eq_true at_) (by rintro ⟨⟩ <;> rfl) nofun rfl nofun nofun
  case closeService => exact sound.shut here (of_decide_eq_true at_) (by rintro ⟨⟩ <;> rfl) rfl rfl nofun nofun
  case closeProbe =>
    split
    · rename_i at_stage
      exact sound.shut here at_stage (by rintro ⟨⟩ <;> rfl) rfl rfl nofun nofun
    · rename_i writer at_stage
      exact sound.shut here at_stage (by rintro ⟨⟩ <;> rfl) rfl rfl nofun nofun
    · exact sound
  case closeViewer => exact sound.shut here (of_decide_eq_true at_) (by rintro ⟨⟩ <;> rfl) rfl rfl nofun nofun
  case joinWriter => exact sound.advance here (of_decide_eq_true at_) (by rintro ⟨⟩ <;> rfl) nofun rfl nofun nofun
  case closeGuard =>
    split
    · rename_i at_stage
      exact sound.shut here at_stage (by rintro ⟨⟩ <;> rfl) rfl rfl nofun nofun
    · rename_i writer at_stage
      exact sound.shut here at_stage (by rintro ⟨⟩ <;> rfl) rfl rfl nofun nofun
    · exact sound
  case leave =>
    split
    · rename_i code writer at_stage
      refine sound.gone here rfl ?_ ?_
      · rw [at_stage]
        nofun
      · rw [at_stage]
        nofun
    · exact sound
  case die =>
    refine sound.gone here rfl (fun _ => rfl) ?_
    intro dead
    rw [dead] at at_
    cases at_
  case occupy port =>
    split
    · rename_i free
      refine sound.foreign fun p socket where_ => ?_
      by_cases here : where_ = port
      · subst where_
        simp [free]
      · rw [Function.update_of_ne here]
    · exact sound
  case vacate port =>
    split
    · rename_i taken
      refine sound.foreign fun p socket where_ => ?_
      by_cases here : where_ = port
      · subst where_
        simp [taken]
      · rw [Function.update_of_ne here]
    · exact sound

variable (hexdigest) in
theorem sound_of_run (steps : List HostStep) : Sound hexdigest (steps.foldl (DaemonHost.next hexdigest) start) :=
  Runs.final_of_step (fun _ step sound => sound.next step) start_sound steps

end DaemonHost

end SaltMdb
