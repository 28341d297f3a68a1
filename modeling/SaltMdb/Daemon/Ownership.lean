import SaltMdb.Daemon.Election

/-! What the election gives: one owner of a database at a time, a discovery file that never names another, and clients that accept no
other daemon. -/

namespace SaltMdb

namespace DaemonHost

variable {hexdigest : String → List (Fin 16)} {h : DaemonHost}

/-! ### One owner -/

variable (hexdigest) in
/-- Process `p` has the guard of a database of this slot. -/
def Guards (h : DaemonHost) (p slot : Nat) : Prop :=
  ∃ process, h.processes p = some process ∧ process.stage.holds .guard = true ∧ portSlot (daemonKey hexdigest process.dbPath) = slot

/-- On its way out after a start that failed, with the thread of its coordinator still at a job. -/
def Overdue (process : DaemonProcess) : Prop := ∃ code, process.stage = .leaving code true

variable (hexdigest) in
structure Exclusive (h : DaemonHost) : Prop where
  /-- One owner for a pair of ports, whichever databases fall on it. -/
  owner : ∀ p q slot, Guards hexdigest h p slot → Guards hexdigest h q slot → p = q
  /-- One writer, but for an overdue one. -/
  writer : ∀ p q one other, h.processes p = some one → h.processes q = some other → one.stage.writes = true → other.stage.writes = true →
    portSlot (daemonKey hexdigest one.dbPath) = portSlot (daemonKey hexdigest other.dbPath) → p = q ∨ Overdue one ∨ Overdue other
  /-- No process replaces or removes the file of a daemon that has published and not yet withdrawn. -/
  kept : ∀ p process, h.processes p = some process → process.stage.listed = true →
    ∃ record, process.record = some record ∧ h.files (daemonKey hexdigest process.dbPath) = some record
  /-- What a file says was published by a daemon of its key, which is at work or was killed. -/
  vouched : ∀ key record, h.files key = some record → ∃ p process, h.processes p = some process ∧ daemonKey hexdigest process.dbPath = key ∧
    process.record = some record ∧ (Guards hexdigest h p (portSlot key) ∨ process.stage = .died)
  /-- What answers on the probe port of a database is its owner. -/
  identified : ∀ key q, h.ports (probePort key) = some (.daemon q .probe) → Guards hexdigest h q (portSlot key)
  /-- A process that is gone has no port open. -/
  released : ∀ p process, h.processes p = some process → process.stage.alive = false → ∀ port socket, h.ports port ≠ some (.daemon p socket)

theorem probe_guards {stage : Stage} (probes : stage.holds .probe = true) : stage.holds .guard = true := by
  cases stage <;> first | rfl | cases probes

theorem writes_cases {process : DaemonProcess} (writes : process.stage.writes = true) : process.stage.holds .guard = true ∨ Overdue process := by
  cases stage : process.stage with
  | leaving code writer =>
    rw [stage] at writes
    cases writer with
    | true => exact Or.inr ⟨code, stage⟩
    | false => cases writes
  | launched | beaten | exited | died =>
    rw [stage] at writes
    cases writes
  | _ => exact Or.inl rfl

theorem Sound.exclusive (sound : Sound hexdigest h) : Exclusive hexdigest h where
  owner := by
    rintro p q slot ⟨one, first, guards, rfl⟩ ⟨other, second, guards', same⟩
    exact sound.one_guard first second guards guards' same.symm
  writer := by
    intro p q one other first second writes writes' slot
    rcases writes_cases writes with guards | overdue
    · rcases writes_cases writes' with guards' | overdue'
      · exact Or.inl (sound.one_guard first second guards guards' slot)
      · exact Or.inr (Or.inr overdue')
    · exact Or.inr (Or.inl overdue)
  kept := by
    intro p process found listed
    have there := sound.listed p process found listed
    cases recorded : process.record with
    | none => exact absurd recorded ((sound.formed p process found).recorded (Or.inl listed))
    | some record => exact ⟨record, rfl, there.trans recorded⟩
  vouched := by
    intro key record found
    obtain ⟨p, process, there, of_key, its_record, published⟩ := sound.written key record found
    refine ⟨p, process, there, of_key, its_record, ?_⟩
    rcases published with listed | died
    · exact Or.inl ⟨process, there, listed_guards listed, by rw [of_key]⟩
    · exact Or.inr died
  identified := by
    intro key q open_
    cases found : h.processes q with
    | none => exact absurd open_ (sound.absent q .probe _ found)
    | some process =>
      obtain ⟨probes, same⟩ := (sound.owns q process found .probe _).mp open_
      exact ⟨process, found, probe_guards probes, probePort_eq_iff.mp (Option.some.inj same)⟩
  released := by
    intro p process found gone port socket open_
    have held := ((sound.owns p process found socket port).mp open_).1
    cases stage : process.stage with
    | exited | died =>
      rw [stage] at held
      cases socket <;> cases held
    | _ =>
      rw [stage] at gone
      cases gone

/-- In every run of any number of daemons, with starts that fail and deaths at any moment, the database has one owner at a time and the
discovery file is its owner's. -/
theorem one_owner (hexdigest : String → List (Fin 16)) (steps : List HostStep) :
    ∀ h ∈ Runs.states (next hexdigest) steps start, Exclusive hexdigest h := by
  have step : ∀ h step, Sound hexdigest h → Sound hexdigest (next hexdigest h step) := fun h step sound => sound.next step
  intro h reached
  have sound : Sound hexdigest h := Runs.invariant step start_sound h reached
  exact sound.exclusive

/-- The digest of one path. -/
def memoryDbHexdigest (path : String) : List (Fin 16) :=
  if path = "/data/memory.db" then
    [7, 3, 5, 1, 1, 3, 4, 11, 4, 5, 3, 2, 13, 0, 1, 4, 13, 14, 0, 6, 8, 14, 7, 4, 8, 3, 7, 9, 8, 8, 1, 13, 8, 3, 4, 1, 15, 5, 4, 6, 10, 9, 8, 2, 3,
      5, 5, 13, 2, 0, 8, 15, 7, 9, 12, 9, 7, 7, 0, 11, 14, 13, 5, 5]
  else []

/-- A second process of the database has come, and lost. -/
theorem one_owner_contended :
    Exclusive memoryDbHexdigest (([.spawn 0 "/data/memory.db" 4100, .bindGuard 0, .spawn 1 "/data/memory.db" 4101, .bindGuard 1] : List HostStep).foldl
      (next memoryDbHexdigest) start) :=
  one_owner memoryDbHexdigest [.spawn 0 "/data/memory.db" 4100, .bindGuard 0, .spawn 1 "/data/memory.db" 4101, .bindGuard 1] _
    (by simp [Runs.states])

/-! ### What a process keeps -/

/-- One step of process `q`. -/
structure Evolves (step : HostStep) (q : Nat) (before after : DaemonProcess) : Prop where
  path : after.dbPath = before.dbPath
  pid : after.pid = before.pid
  token : after.authToken = before.authToken ∨ before.stage = .assembled ∧ ∃ authToken, step = .stage q authToken ∧ after.authToken = some authToken
  port : after.servicePort = before.servicePort ∨ before.stage = .durable

theorem Evolves.refl (step : HostStep) (q : Nat) (process : DaemonProcess) : Evolves step q process process :=
  ⟨rfl, rfl, Or.inl rfl, Or.inl rfl⟩

/-- Where a step leads from what it finds of process `q`. -/
def Leads (step : HostStep) (q : Nat) (before : Option DaemonProcess) (after : DaemonHost) : Prop :=
  match before with
  | some before => ∃ now, after.processes q = some now ∧ Evolves step q before now
  | none => ∀ now, after.processes q = some now → now.authToken = none

theorem Leads.refl (step : HostStep) (q : Nat) (h : DaemonHost) : Leads step q (h.processes q) h := by
  unfold Leads
  split
  · rename_i before found
    exact ⟨before, found, Evolves.refl step q before⟩
  · rename_i missing
    intro now found
    rw [missing] at found
    cases found

theorem Leads.set {step : HostStep} {p q : Nat} {h' : DaemonHost} {before after : DaemonProcess} (here : h.processes p = some before)
    (same : h'.processes = h.processes) (evolves : Evolves step p before after) : Leads step q (h.processes q) (h'.set p after) := by
  by_cases own : q = p
  · subst q
    rw [here]
    exact ⟨after, by simp [DaemonHost.set], evolves⟩
  · have unchanged : (h'.set p after).processes q = h.processes q := by
      simp only [DaemonHost.set, Function.update_of_ne own, same]
    have stays := Leads.refl step q h
    unfold Leads at stays ⊢
    simpa only [unchanged] using stays

variable (hexdigest) in
theorem leads (h : DaemonHost) (step : HostStep) (q : Nat) : Leads step q (h.processes q) (next hexdigest h step) := by
  have stays := Leads.refl step q h
  cases step
  all_goals dsimp only [next]
  all_goals try refine during_cases stays fun before here at_ => ?_
  case spawn p dbPath pid =>
    split
    · rename_i missing
      by_cases own : q = p
      · subst q
        rw [missing]
        intro now found
        simp only [set, Function.update_self] at found
        cases found
        rfl
      · unfold Leads at stays ⊢
        simpa only [set, Function.update_of_ne own] using stays
    · exact stays
  case stage p authToken =>
    split
    · exact Leads.set here rfl ⟨rfl, rfl, Or.inr ⟨of_decide_eq_true at_, authToken, rfl, rfl⟩, Or.inl rfl⟩
    · exact Leads.set here rfl ⟨rfl, rfl, Or.inr ⟨of_decide_eq_true at_, authToken, rfl, rfl⟩, Or.inl rfl⟩
  case startService =>
    split
    · exact Leads.set here rfl ⟨rfl, rfl, Or.inl rfl, Or.inr (of_decide_eq_true at_)⟩
    · exact stays
  case occupy =>
    split
    · exact stays
    · exact stays
  case vacate =>
    split
    · exact stays
    · exact stays
  all_goals repeat' split
  all_goals first
    | exact stays
    | exact Leads.set here rfl ⟨rfl, rfl, Or.inl rfl, Or.inl rfl⟩

/-- A record that a process has is the one it keeps. -/
def Keeps (q : Nat) (record : DiscoveryRecord) (h : DaemonHost) : Prop :=
  ∃ process, h.processes q = some process ∧ process.record = some record

theorem record_token {process : DaemonProcess} {record : DiscoveryRecord} (recorded : process.record = some record) :
    process.authToken = some record.authToken ∧ process.servicePort = some record.servicePort ∧ record.dbPath = process.dbPath ∧
      record.daemonPid = process.pid := by
  unfold DaemonProcess.record at recorded
  split at recorded
  · rename_i port token at_port at_token
    cases recorded
    exact ⟨at_token, at_port, rfl, rfl⟩
  · cases recorded

theorem Keeps.next {q : Nat} {record : DiscoveryRecord} (sound : Sound hexdigest h) (keeps : Keeps q record h) (step : HostStep) :
    Keeps q record (next hexdigest h step) := by
  obtain ⟨before, here, recorded⟩ := keeps
  obtain ⟨token, port, _, _⟩ := record_token recorded
  have issued : before.stage.tokenless = false := by
    cases bare : before.stage.tokenless with
    | false => rfl
    | true =>
      rw [(sound.formed q before here).tokenless bare] at token
      cases token
  have led := leads hexdigest h step q
  rw [here] at led
  obtain ⟨after, there, evolves⟩ := led
  have same_token : after.authToken = before.authToken := by
    rcases evolves.token with same | ⟨at_, _⟩
    · exact same
    · rw [at_] at issued
      cases issued
  have same_port : after.servicePort = before.servicePort := by
    rcases evolves.port with same | at_
    · exact same
    · rw [at_] at issued
      cases issued
  refine ⟨after, there, ?_⟩
  rw [← recorded]
  unfold DaemonProcess.record
  rw [same_token, same_port, evolves.path, evolves.pid]

/-- The token that a step draws from `secrets.token_urlsafe(32)`. -/
def drawnToken : HostStep → Option String
  | .stage _ authToken => some authToken
  | _ => none

/-- The token that is drawn is not one that a process has. -/
def FreshToken (step : HostStep) (h : DaemonHost) : Prop :=
  ∀ authToken, drawnToken step = some authToken → ∀ q process, h.processes q = some process → process.authToken ≠ some authToken

/-- The token of one process is not that of another. -/
def Distinct (h : DaemonHost) : Prop :=
  ∀ p q one other token, h.processes p = some one → h.processes q = some other → one.authToken = some token → other.authToken = some token → p = q

theorem token_before {step : HostStep} {q : Nat} {process : DaemonProcess} {token : String}
    (there : (next hexdigest h step).processes q = some process) (issued : process.authToken = some token) :
    (∃ before, h.processes q = some before ∧ before.authToken = some token) ∨ step = .stage q token := by
  have led := leads hexdigest h step q
  cases found : h.processes q with
  | none =>
    rw [found] at led
    rw [led process there] at issued
    cases issued
  | some before =>
    rw [found] at led
    obtain ⟨after, at_, evolves⟩ := led
    rw [there] at at_
    cases at_
    rcases evolves.token with same | ⟨_, drawn, its_step, its_token⟩
    · exact Or.inl ⟨before, rfl, same.symm.trans issued⟩
    · rw [its_token] at issued
      cases issued
      exact Or.inr its_step

theorem Distinct.next (distinct : Distinct h) {step : HostStep} (fresh : FreshToken step h) : Distinct (next hexdigest h step) := by
  intro p q one other token first second its_token its_token'
  rcases token_before first its_token with ⟨before, was, had⟩ | drawn
  · rcases token_before second its_token' with ⟨before', was', had'⟩ | drawn'
    · exact distinct p q before before' token was was' had had'
    · subst step
      exact absurd had (fresh token rfl p before was)
  · subst step
    rcases token_before second its_token' with ⟨before', was', had'⟩ | drawn'
    · exact absurd had' (fresh token rfl q before' was')
    · cases drawn'
      rfl

theorem fresh_of_nodup {steps : List HostStep} (nodup : (steps.filterMap drawnToken).Nodup)
    (unused : ∀ q process token, h.processes q = some process → process.authToken = some token → token ∉ steps.filterMap drawnToken) :
    Runs.Guarded (DaemonHost.next hexdigest) FreshToken steps h := by
  induction steps generalizing h with
  | nil => trivial
  | cons step rest ih =>
    have later : (rest.filterMap drawnToken).Nodup := nodup.sublist ((List.sublist_cons_self step rest).filterMap drawnToken)
    refine ⟨?_, ih later ?_⟩
    · intro authToken drawn q process found issued
      refine unused q process authToken found issued ?_
      rw [List.filterMap_cons_some drawn]
      exact List.mem_cons_self
    · intro q process token there issued
      rcases token_before there issued with ⟨before, was, had⟩ | drawn
      · have waits := unused q before token was had
        intro member
        apply waits
        rw [List.filterMap_cons]
        split
        · exact member
        · exact List.mem_cons_of_mem _ member
      · subst step
        exact (List.nodup_cons.mp nodup).1

/-! ### Clients -/

variable (hexdigest) in
/-- `discovery.read`: what is not valid is as good as nothing. -/
def readDiscovery (h : DaemonHost) (dbPath : String) : Option DiscoveryRecord := (h.files (daemonKey hexdigest dbPath)).filter (·.valid)

/-- `_authenticated_ping_ok`; `foreign` is what a process that is no daemon would make of it. -/
def authenticatedPingOk (h : DaemonHost) (info : DiscoveryRecord) (foreign : Bool) : Bool :=
  match h.ports info.servicePort with
  | some .foreign => foreign
  | some (.daemon q .service) =>
    match h.processes q with
    | some process => process.stage = .ready ∧ process.authToken = some info.authToken
    | none => false
  | _ => false

variable (hexdigest) in
/-- `reachable_daemon_info`, with the discovery file as it was in `seen` and the ping as it is answered now. -/
def reachableDaemonInfo (seen now : DaemonHost) (dbPath : String) (foreign : Bool) : Option DiscoveryRecord :=
  match readDiscovery hexdigest seen dbPath with
  | none => none
  | some info => if info.dbPath = dbPath ∧ now.authenticatedPingOk info foreign = true then some info else none

theorem reachable_cases {seen now : DaemonHost} {dbPath : String} {info : DiscoveryRecord}
    (reached : reachableDaemonInfo hexdigest seen now dbPath false = some info) :
    seen.files (daemonKey hexdigest dbPath) = some info ∧ info.dbPath = dbPath ∧ ∃ q process, now.processes q = some process ∧
      process.stage = .ready ∧ process.authToken = some info.authToken := by
  unfold reachableDaemonInfo readDiscovery at reached
  split at reached
  · cases reached
  · rename_i record read
    split at reached
    · rename_i accepted
      cases reached
      obtain ⟨there, _⟩ := Option.filter_eq_some_iff.mp read
      refine ⟨there, accepted.1, ?_⟩
      have answered := accepted.2
      unfold authenticatedPingOk at answered
      split at answered
      · cases answered
      · rename_i q _
        split at answered
        · rename_i process found
          obtain ⟨ready, token⟩ := of_decide_eq_true answered
          exact ⟨q, process, found, ready, token⟩
        · cases answered
      · cases answered
    · cases reached

variable (hexdigest) in
/-- The daemon that published `info` is at work for this database, has its guard, and is the one that the discovery file names. -/
def OwnedBy (h : DaemonHost) (dbPath : String) (info : DiscoveryRecord) : Prop :=
  ∃ p process, h.processes p = some process ∧ process.dbPath = dbPath ∧ process.stage = .ready ∧ process.record = some info ∧
    h.ports (electionPort (daemonKey hexdigest dbPath)) = some (.daemon p .guard) ∧ h.files (daemonKey hexdigest dbPath) = some info

/-- However much happens between a client's look into the discovery file and the answer to its ping, the daemon that it takes is at work
for the client's database, wrote what the client read, and owns the database as it answers. -/
theorem accepted_owner (hexdigest : String → List (Fin 16)) (first second : List HostStep) (drawn : ((first ++ second).filterMap drawnToken).Nodup)
    (dbPath : String) (info : DiscoveryRecord)
    (reached : reachableDaemonInfo hexdigest (first.foldl (next hexdigest) start) ((first ++ second).foldl (next hexdigest) start) dbPath false =
      some info) :
    OwnedBy hexdigest ((first ++ second).foldl (next hexdigest) start) dbPath info := by
  obtain ⟨read, same_path, q, answering, found, ready, token⟩ := reachable_cases reached
  have sound := sound_of_run hexdigest first
  have sound' := sound_of_run hexdigest (first ++ second)
  obtain ⟨p, writer, here, _, recorded, _⟩ := sound.written _ info read
  have kept : ∀ s step, (Sound hexdigest s ∧ Keeps p info s) → Sound hexdigest (next hexdigest s step) ∧ Keeps p info (next hexdigest s step) :=
    fun s step both => ⟨both.1.next step, both.2.next both.1 step⟩
  obtain ⟨_, process, there, its_record⟩ : Sound hexdigest ((first ++ second).foldl (next hexdigest) start) ∧
      Keeps p info ((first ++ second).foldl (next hexdigest) start) := by
    rw [List.foldl_append]
    exact Runs.final_of_step kept ⟨sound, writer, here, recorded⟩ second
  have distinct : Distinct ((first ++ second).foldl (next hexdigest) start) := by
    have step : ∀ s i, Distinct s → FreshToken i s → Distinct (next hexdigest s i) := fun s i distinct new => distinct.next new
    refine Runs.final_of_guarded step ?_ (fresh_of_nodup drawn nofun)
    intro p q one other token found
    cases found
  obtain ⟨its_token, _, its_path, _⟩ := record_token its_record
  have same := distinct q p answering process info.authToken found there token its_token
  subst q
  obtain rfl : process = answering := Option.some.inj (there.symm.trans found)
  have path : process.dbPath = dbPath := its_path.symm.trans same_path
  have guards := (sound'.owns p process there .guard _).mpr ⟨by rw [ready]; rfl, rfl⟩
  have listed := sound'.listed p process there (by rw [ready]; rfl)
  rw [path] at guards listed
  exact ⟨p, process, there, path, ready, its_record, guards, listed.trans its_record⟩

theorem memoryDb_ports : electionPort (daemonKey memoryDbHexdigest "/data/memory.db") = 60542 ∧
    probePort (daemonKey memoryDbHexdigest "/data/memory.db") = 60543 := by decide

/-- The steps of a start that meets no failure, with the viewer disabled. -/
def launch (p pid port : Nat) (dbPath authToken : String) : List HostStep :=
  [.spawn p dbPath pid, .bindGuard p, .bindProbe p, .startDurable p true true, .startService p port, .startViewer p none true, .stage p authToken,
    .publish p]

/-- A second process comes between the look and the ping, and loses. -/
theorem accepted_owner_contended :
    OwnedBy memoryDbHexdigest ((launch 0 4100 40123 "/data/memory.db" "k7_Q" ++ ([.spawn 1 "/data/memory.db" 4101, .bindGuard 1] : List HostStep)).foldl
      (next memoryDbHexdigest) start) "/data/memory.db" ⟨"/data/memory.db", 4100, 40123, "k7_Q"⟩ := by
  refine accepted_owner memoryDbHexdigest (launch 0 4100 40123 "/data/memory.db" "k7_Q") [.spawn 1 "/data/memory.db" 4101, .bindGuard 1]
    (by decide) "/data/memory.db" ⟨"/data/memory.db", 4100, 40123, "k7_Q"⟩ ?_
  have valid : (DiscoveryRecord.mk "/data/memory.db" 4100 40123 "k7_Q").valid = true := by decide
  simp [launch, next, during, set, bind, setTemporary, setFile, start, Function.update, memoryDb_ports, reachableDaemonInfo, readDiscovery,
    authenticatedPingOk, DaemonProcess.record, valid, Option.filter]

/-! ### The next owner -/

theorem during_act {p : Nat} {here : Stage → Bool} {act : DaemonProcess → DaemonHost} {process : DaemonProcess}
    (found : h.processes p = some process) (at_ : here process.stage = true) : h.during p here act = act process := by
  unfold during
  rw [found]
  simp [at_]

variable (hexdigest) in
/-- Who listens on this port, if anyone does, is a daemon of the slot. -/
def OnlySlot (h : DaemonHost) (slot port : Nat) : Prop :=
  h.ports port = none ∨ ∃ q process socket, h.ports port = some (.daemon q socket) ∧ h.processes q = some process ∧
    portSlot (daemonKey hexdigest process.dbPath) = slot

theorem OnlySlot.free {slot port : Nat} (sound : Sound hexdigest h) (only : OnlySlot hexdigest h slot port)
    (gone : ∀ q process, h.processes q = some process → portSlot (daemonKey hexdigest process.dbPath) = slot → process.stage.alive = false) :
    h.ports port = none := by
  rcases only with free | ⟨q, process, socket, open_, found, same⟩
  · exact free
  · exact absurd open_ (sound.exclusive.released q process found (gone q process found same) port socket)

/-- A loser that the daemon on the probe port answers leaves quietly where that daemon has its own database, and reports a collision where it
has another; either way the one that answered is the owner of the two ports. -/
theorem loser_diagnosis (hexdigest : String → List (Fin 16)) (steps : List HostStep) (p q : Nat) (process : DaemonProcess)
    (foreign : Option (Option String)) (beaten : (steps.foldl (next hexdigest) start).processes p = some process) (at_ : process.stage = .beaten)
    (answering : (steps.foldl (next hexdigest) start).ports (probePort (daemonKey hexdigest process.dbPath)) = some (.daemon q .probe)) :
    ∃ owner, (steps.foldl (next hexdigest) start).processes q = some owner ∧ q ≠ p ∧
      Guards hexdigest (steps.foldl (next hexdigest) start) q (portSlot (daemonKey hexdigest process.dbPath)) ∧
      (next hexdigest (steps.foldl (next hexdigest) start) (.reportLoser p true foreign)).processes p =
        some { process with stage := .exited (if owner.dbPath = "" ∨ owner.dbPath = process.dbPath then 0 else 1) } := by
  have sound := sound_of_run hexdigest steps
  obtain ⟨owner, found, guards, slot⟩ := sound.exclusive.identified _ q answering
  refine ⟨owner, found, ?_, ⟨owner, found, guards, slot⟩, ?_⟩
  · rintro rfl
    rw [beaten] at found
    cases found
    rw [at_] at guards
    cases guards
  · dsimp only [next]
    rw [during_act beaten (by rw [at_]; rfl)]
    simp only [set, Function.update_self, probeIdentify, answering, found, Option.map_some, classifyLoser, Option.getD_some, Bool.not_true, Bool.false_eq_true,
      if_false]
    by_cases empty : owner.dbPath = ""
    · simp [empty]
    · by_cases same : owner.dbPath = process.dbPath
      · simp [same]
      · simp [empty, same]

/-- The loser of the election for a database that is served. -/
theorem loser_diagnosis_quiet :
    ∃ owner, ((launch 0 4100 40123 "/data/memory.db" "k7_Q" ++ ([.spawn 1 "/data/memory.db" 4101, .bindGuard 1] : List HostStep)).foldl
        (next memoryDbHexdigest) start).processes 0 = some owner ∧ 0 ≠ 1 ∧
      Guards memoryDbHexdigest ((launch 0 4100 40123 "/data/memory.db" "k7_Q" ++
        ([.spawn 1 "/data/memory.db" 4101, .bindGuard 1] : List HostStep)).foldl (next memoryDbHexdigest) start) 0
        (portSlot (daemonKey memoryDbHexdigest "/data/memory.db")) ∧
      (next memoryDbHexdigest ((launch 0 4100 40123 "/data/memory.db" "k7_Q" ++
        ([.spawn 1 "/data/memory.db" 4101, .bindGuard 1] : List HostStep)).foldl (next memoryDbHexdigest) start) (.reportLoser 1 true none)).processes 1 =
        some ⟨"/data/memory.db", 4101, .exited (if owner.dbPath = "" ∨ owner.dbPath = "/data/memory.db" then 0 else 1), none, none, none⟩ := by
  refine loser_diagnosis memoryDbHexdigest (launch 0 4100 40123 "/data/memory.db" "k7_Q" ++ [.spawn 1 "/data/memory.db" 4101, .bindGuard 1]) 1 0
    ⟨"/data/memory.db", 4101, .beaten, none, none, none⟩ none ?_ rfl ?_
  all_goals simp [launch, next, during, set, bind, setTemporary, setFile, start, Function.update, memoryDb_ports]

end DaemonHost

end SaltMdb
