import SaltMdb.Daemon.Leases

/-! One request of a client: what the daemon does with it before it runs anything, when the client sends it again, and what the
tool adapter makes of a lost answer. -/

namespace SaltMdb

/-! ### The daemon's side: `handle_request` -/

/-- The `kwargs` of a tool call. -/
inductive ToolArguments (κ : Type) where
  | notAnObject
  | object (namesOwner : Bool) (arguments : κ)

structure CallParams (κ : Type) where
  tool : String
  kwargs : ToolArguments κ
  callerSessionId : CallerField
  capability : CallerField

/-- A request; its `params` are `none` where they are no object. -/
structure RpcRequest (κ : Type) where
  token : Option String
  method : String
  params : Option (CallParams κ)

inductive RpcResponse (ρ : Type) where
  | ok (result : ρ)
  | error (code : RpcCode) (message : String)

/-- What one request finds in the daemon it comes to, and what the work it may start would give. -/
structure DaemonView (κ ρ : Type) where
  draining : Bool
  authToken : Option String
  /-- `_acquire_inflight()`. -/
  admits : Bool
  hasWriter : Bool
  dispatchTable : List String
  sessions : LeaseState
  answerSession : String → RpcResponse ρ
  dispatchTool : String → κ → Except String ρ
  maintain : String → Except String ρ

def sessionMethods : List String := ["hello", "goodbye", "ping", "viewer_status"]

def maintenanceMethods : List String := ["run_librarian_now", "run_backfill_chunk_embeddings_now", "create_snapshot_now"]

/-- What a handler did: its response or the text of its exception, and whether it started the work of the request. -/
structure Handled (ρ : Type) where
  response : Except String (RpcResponse ρ)
  executed : Bool

def Handled.refused {ρ : Type} (code : RpcCode) (message : String) : Handled ρ := ⟨.ok (.error code message), false⟩

def Handled.ran {ρ : Type} (result : Except String ρ) : Handled ρ := ⟨result.map .ok, true⟩

namespace DaemonView

variable {κ ρ : Type} (view : DaemonView κ ρ)

/-- `_handle_tool_call`. -/
def handleToolCall (params : CallParams κ) : Handled ρ :=
  if params.tool ∉ view.dispatchTable then .refused .unknownTool s!"unknown tool: {params.tool}"
  else if !view.hasWriter then .refused .internalError "database writer unavailable"
  else
    match params.kwargs with
    | .notAnObject => .refused .malformedRequest "tool kwargs must be an object"
    | .object namesOwner arguments =>
      if namesOwner then .refused .malformedRequest
        "tool kwarg 'owner_id' was renamed 'agent_id'; restart the MCP adapter on the current SALTMDB version"
      else
        match view.sessions.validateCallerSession params.callerSessionId params.capability with
        | .error (code, message) => .refused code message
        | .ok _ => .ran (view.dispatchTool params.tool arguments)

/-- The methods that hold the daemon in flight. -/
def route (method : String) (params : CallParams κ) : Handled ρ :=
  if method = "tool_call" then view.handleToolCall params
  else if method ∈ maintenanceMethods then .ran (view.maintain method)
  else .refused .unknownMethod s!"unknown method: {method}"

/-- `handle_request`: the response, and whether the work of the request was started. -/
def handleRequest (request : RpcRequest κ) : RpcResponse ρ × Bool :=
  if view.draining then (.error .daemonShuttingDown "daemon is shutting down", false)
  else if view.authToken = none ∨ request.token ≠ view.authToken then (.error .authFailed "invalid or missing token", false)
  else
    match request.params with
    | none => (.error .malformedRequest "params must be an object", false)
    | some params =>
      if request.method ∈ sessionMethods then (view.answerSession request.method, false)
      else if !view.admits then (.error .daemonShuttingDown "daemon is shutting down", false)
      else
        let handled := view.route request.method params
        match handled.response with
        | .ok response => (response, handled.executed)
        | .error text => (.error .internalError text, handled.executed)

end DaemonView

/-! ### The client's side: `call_method` -/

/-- `DAEMON_SHUTTING_DOWN`, `AUTH_FAILED` and `CALLER_SESSION_INVALID`: the answers that `call_method` takes for a retry. -/
def RpcCode.requestsRetry : RpcCode → Bool
  | .daemonShuttingDown | .authFailed | .callerSessionInvalid => true
  | _ => false

inductive ClientError where
  | notRunning (message : String)
  | starting (message : String)
  | connectFailed
  | midCallFailure
  | response (code : RpcCode) (message : String)
deriving DecidableEq

/-- What becomes of one attempt to send: no connection, a failure once the send has begun (the daemon may have done the work),
or the answer of the daemon that is reached. -/
inductive Exchange (κ ρ : Type) where
  | refused
  | lost (executed : Bool)
  | answered (view : DaemonView κ ρ)

/-- What one attempt meets: the refreshed session, the daemon that is found, and the exchange with it. -/
structure Attempt (κ ρ : Type) where
  refresh : Except ClientError (Option CallerField)
  discovery : Except ClientError (Option String)
  exchange : Exchange κ ρ

/-- A request that left the client, and how it ended. -/
structure Transmission (κ ρ : Type) where
  request : RpcRequest κ
  /-- `none` where no answer came. -/
  answer : Option (RpcResponse ρ)
  executed : Bool

section

variable {κ ρ : Type}

def refreshedParams (params : CallParams κ) (capability : Option CallerField) : CallParams κ :=
  match capability with
  | none => params
  | some current => { params with capability := current }

/-- `call_method` with so many retries left: its result or its exception, and what it sent. -/
def callMethod (spawn : Bool) (method : String) (attempts : Nat → Attempt κ ρ) :
    Nat → Nat → CallParams κ → Except ClientError ρ × List (Transmission κ ρ)
  | retries, i, given =>
    match (attempts i).refresh with
    | .error e => (.error e, [])
    | .ok capability =>
      let params := refreshedParams given capability
      match (attempts i).discovery with
      | .error e => (.error e, [])
      | .ok none => (.error (.notRunning "No reachable SALTMDB daemon"), [])
      | .ok (some token) =>
        let request : RpcRequest κ := ⟨some token, method, some params⟩
        match (attempts i).exchange with
        | .refused =>
          if !spawn then (.error (.notRunning "connection refused"), [])
          else
            match retries with
            | 0 => (.error .connectFailed, [])
            | left + 1 => callMethod spawn method attempts left (i + 1) params
        | .lost executed => (.error .midCallFailure, [⟨request, none, executed⟩])
        | .answered view =>
          let (response, executed) := view.handleRequest request
          let sent : Transmission κ ρ := ⟨request, some response, executed⟩
          match response with
          | .ok result => (.ok result, [sent])
          | .error code message =>
            if !spawn then
              (.error (if code = .daemonShuttingDown then .notRunning message else .response code message), [sent])
            else
              match retries with
              | 0 => (.error (.response code message), [sent])
              | left + 1 =>
                if code.requestsRetry then
                  let later := callMethod spawn method attempts left (i + 1) params
                  (later.1, sent :: later.2)
                else (.error (.response code message), [sent])

/-- `call`: one request, submitted once. -/
def callTool (spawn : Bool) (attempts : Nat → Attempt κ ρ) (params : CallParams κ) : Except ClientError ρ × List (Transmission κ ρ) :=
  callMethod spawn "tool_call" attempts 1 0 params

end

/-! ### The adapter's side: `_rpc_dispatch_with_recovery` -/

def writeTools : List String :=
  ["store_memory", "log_event", "merge_tags", "archive_memory", "manage_relation", "revise_memory", "supersede_memory",
    "consolidate_memories", "set_core_memory", "review_core_memory", "update_memory_metadata", "capture_trace_start",
    "capture_trace_memory_link", "capture_trace_complete"]

def readTools : List String :=
  ["search_memory", "search_tags", "list_predicates", "get_memory", "get_memories", "get_lineage", "get_related_memories",
    "retrieve_context", "get_events", "search_traces", "get_trace", "get_core_bootstrap_digest", "get_last_session_digest",
    "find_related_memories"]

inductive AdapterAnswer (ρ : Type) where
  | result (result : ρ)
  | starting
  | lostDuringWrite
  | raised (error : ClientError)

def AdapterAnswer.ofCall {ρ : Type} : Except ClientError ρ → AdapterAnswer ρ
  | .ok value => .result value
  | .error (.starting _) => .starting
  | .error e => .raised e

/-- One tool call of the adapter; a read whose answer was lost is submitted once more. -/
def rpcDispatchWithRecovery {κ ρ : Type} (first second : Nat → Attempt κ ρ) (params : CallParams κ) :
    AdapterAnswer ρ × List (Transmission κ ρ) :=
  let called := callTool true first params
  match called.1 with
  | .error .midCallFailure =>
    if params.tool ∈ readTools then
      let again := callTool true second params
      (.ofCall again.1, called.2 ++ again.2)
    else if params.tool ∈ writeTools then (.lostDuringWrite, called.2)
    else (.raised .midCallFailure, called.2)
  | outcome => (.ofCall outcome, called.2)

/-! ### A retry follows an answer that rules out any effect -/

section

variable {κ ρ : Type}

namespace DaemonView

variable {view : DaemonView κ ρ}

/-- Work that was started ends in its result or in an exception. -/
theorem handleToolCall_executed {params : CallParams κ} (executed : (view.handleToolCall params).executed = true) :
    ∃ result : Except String ρ, (view.handleToolCall params).response = result.map .ok := by
  unfold handleToolCall at executed ⊢
  split at executed
  · simp [Handled.refused] at executed
  · rename_i known
    rw [if_neg known]
    split at executed
    · simp [Handled.refused] at executed
    · rename_i writer
      rw [if_neg writer]
      cases arguments : params.kwargs with
      | notAnObject => simp [arguments, Handled.refused] at executed
      | object namesOwner given =>
        simp only [arguments] at executed ⊢
        split at executed
        · simp [Handled.refused] at executed
        · rename_i renamed
          rw [if_neg renamed]
          cases checked : view.sessions.validateCallerSession params.callerSessionId params.capability with
          | error refusal => simp [checked, Handled.refused] at executed
          | ok accepted => exact ⟨_, rfl⟩

theorem route_executed {method : String} {params : CallParams κ} (executed : (view.route method params).executed = true) :
    ∃ result : Except String ρ, (view.route method params).response = result.map .ok := by
  unfold route at executed ⊢
  split at executed
  · rename_i tool
    rw [if_pos tool]
    exact handleToolCall_executed executed
  · rename_i other
    rw [if_neg other]
    split at executed
    · rename_i maintenance
      rw [if_pos maintenance]
      exact ⟨_, rfl⟩
    · simp [Handled.refused] at executed

/-- The answers that ask for a retry are given before any work. -/
theorem handleRequest_retry {request : RpcRequest κ} {code : RpcCode} {message : String}
    (answered : (view.handleRequest request).1 = .error code message) (asks : code.requestsRetry = true) :
    (view.handleRequest request).2 = false := by
  by_contra started
  rw [Bool.not_eq_false] at started
  unfold handleRequest at answered started
  split at started
  · cases started
  · rename_i serving
    rw [if_neg serving] at answered
    split at started
    · cases started
    · rename_i known
      rw [if_neg known] at answered
      cases given : request.params with
      | none => simp [given] at started
      | some params =>
        simp only [given] at answered started
        split at started
        · cases started
        · rename_i oneShot
          rw [if_neg oneShot] at answered
          split at started
          · cases started
          · rename_i admitted
            rw [if_neg admitted] at answered
            have executed : (view.route request.method params).executed = true := by
              cases h : (view.route request.method params).response <;> simpa [h] using started
            obtain ⟨result, ended⟩ := route_executed executed
            cases result with
            | ok value => simp [ended, Except.map] at answered
            | error text =>
              simp only [ended, Except.map, RpcResponse.error.injEq] at answered
              rw [← answered.1] at asks
              cases asks

end DaemonView

/-- No work was started, and the answer says so. -/
def Transmission.NoEffect (sent : Transmission κ ρ) : Prop :=
  sent.executed = false ∧ ∃ code message, sent.answer = some (.error code message) ∧ code.requestsRetry = true

theorem callMethod_sent (spawn : Bool) (method : String) (attempts : Nat → Attempt κ ρ) (retries i : Nat) (params : CallParams κ) :
    (callMethod spawn method attempts retries i params).2.length ≤ retries + 1 ∧
      ∀ sent ∈ (callMethod spawn method attempts retries i params).2.dropLast, sent.NoEffect := by
  fun_induction callMethod spawn method attempts retries i params with
  | case6 i given capability refreshed params token found refused spawns left ih =>
    exact ⟨Nat.le_succ_of_le ih.1, ih.2⟩
  | case11 i given capability refreshed params token found request view reached executed code message spawns left asks later answered sent ih =>
    obtain ⟨few, quiet⟩ := ih
    refine ⟨Nat.succ_le_succ few, fun one member => ?_⟩
    have nothing : sent.NoEffect := by
      have first := congrArg Prod.fst answered
      have second : (view.handleRequest request).2 = executed := congrArg Prod.snd answered
      exact ⟨second.symm.trans (DaemonView.handleRequest_retry first asks), code, message, rfl, asks⟩
    change one ∈ (sent :: later.2).dropLast at member
    cases rest : later.2 with
    | nil => simp [rest] at member
    | cons next others =>
      rw [rest, List.dropLast_cons_of_ne_nil (by simp)] at member
      rcases List.mem_cons.mp member with rfl | member
      · exact nothing
      · exact quiet one (by rwa [← rest] at member)
  | _ => simp

/-- What one submission sends: at most two requests, the second after an answer that rules out any effect of the first, and the
work is started at most once. -/
structure SentOnce (sent : List (Transmission κ ρ)) : Prop where
  twice : sent.length ≤ 2
  again : ∀ first second, sent = [first, second] → first.NoEffect
  executed : sent.countP (·.executed) ≤ 1

theorem SentOnce.of_quiet {sent : List (Transmission κ ρ)} (few : sent.length ≤ 2) (quiet : ∀ one ∈ sent.dropLast, one.NoEffect) :
    SentOnce sent := by
  refine ⟨few, fun first second both => quiet first (by simp [both]), ?_⟩
  cases sent with
  | nil => simp
  | cons first rest =>
    cases rest with
    | nil => exact List.countP_le_length
    | cons second others =>
      have nothing := (quiet first (by simp)).1
      have alone : others = [] := List.length_eq_zero_iff.mp (by simp only [List.length_cons] at few; omega)
      rw [alone, List.countP_cons_of_neg (by simp [nothing])]
      exact List.countP_le_length

theorem callTool_sent (spawn : Bool) (attempts : Nat → Attempt κ ρ) (params : CallParams κ) :
    SentOnce (callTool spawn attempts params).2 := by
  obtain ⟨few, quiet⟩ := callMethod_sent spawn "tool_call" attempts 1 0 params
  exact .of_quiet few quiet

theorem writeTools_not_read {tool : String} (write : tool ∈ writeTools) : tool ∉ readTools := by
  revert tool
  decide

/-- A write goes through the adapter as one submission, whatever becomes of its answer. -/
theorem rpcDispatchWithRecovery_write {first second : Nat → Attempt κ ρ} {params : CallParams κ} (write : params.tool ∈ writeTools) :
    (rpcDispatchWithRecovery first second params).2 = (callTool true first params).2 := by
  unfold rpcDispatchWithRecovery
  dsimp only
  split
  · rw [if_neg (writeTools_not_read write), if_pos write]
  · rfl

/-- Whatever fails on the way, one submission starts its work at most once and is sent at most twice, the second time after an
answer that rules out any effect of the first; so does a write that the adapter submits. -/
theorem submitted_once (spawn : Bool) (attempts : Nat → Attempt κ ρ) (params : CallParams κ) :
    SentOnce (callTool spawn attempts params).2 ∧
      ∀ second, params.tool ∈ writeTools → SentOnce (rpcDispatchWithRecovery attempts second params).2 := by
  refine ⟨callTool_sent spawn attempts params, fun second write => ?_⟩
  rw [rpcDispatchWithRecovery_write write]
  exact callTool_sent true attempts params

end

end SaltMdb
