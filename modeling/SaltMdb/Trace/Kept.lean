import SaltMdb.Trace.Capture

/-! What a run of captures, completions and sweeps keeps: the texts of a turn, and the fate of its trace. -/

namespace SaltMdb

namespace TraceDb

variable {db : TraceDb} {sha256 : String → String} {session turn : String}

/-! ### One row after another -/

/-- A change of a trace that leaves what names it and what it opened with. -/
structure KeepsOpening (f : ConversationTrace → ConversationTrace) : Prop where
  turn : ∀ t, (f t).agentSessionId = t.agentSessionId ∧ (f t).harnessTurnId = t.harnessTurnId
  prompt : ∀ t, (f t).userPrompt = t.userPrompt ∧ (f t).userPromptHash = t.userPromptHash

theorem KeepsOpening.abandon (now : Nat) : KeepsOpening (abandon now) := ⟨fun _ => ⟨rfl, rfl⟩, fun _ => ⟨rfl, rfl⟩⟩

theorem KeepsOpening.complete (now : Nat) (message : String) : KeepsOpening (complete sha256 now message) :=
  ⟨fun _ => ⟨rfl, rfl⟩, fun _ => ⟨rfl, rfl⟩⟩

theorem KeepsOpening.guarded {f : ConversationTrace → ConversationTrace} (kept : KeepsOpening f) (sel : ConversationTrace → Bool) :
    KeepsOpening fun t => if sel t then f t else t := by
  constructor
  · intro t
    split
    · exact kept.turn t
    · exact ⟨rfl, rfl⟩
  · intro t
    split
    · exact kept.prompt t
    · exact ⟨rfl, rfl⟩

theorem traceOf_found {id : Nat} (found : db.traceOf session turn = some id) :
    ∃ row, db.traces[id]? = some row ∧ row.agentSessionId = session ∧ row.harnessTurnId = turn := by
  obtain ⟨inside, here, _⟩ := List.findIdx?_eq_some_iff_getElem.mp found
  exact ⟨_, List.getElem?_eq_getElem inside, by simpa [ConversationTrace.ofTurn] using here⟩

theorem traceOf_map {f : ConversationTrace → ConversationTrace} (kept : KeepsOpening f) :
    TraceDb.traceOf { db with traces := db.traces.map f } session turn = db.traceOf session turn := by
  unfold traceOf
  rw [List.findIdx?_map]
  congr 1
  funext t
  simp [ConversationTrace.ofTurn, kept.turn t]

/-- What the columns say of each other. -/
structure Aligned (sha256 : String → String) (db : TraceDb) : Prop where
  prompts : ∀ row ∈ db.traces, row.userPromptHash = computeContentHash sha256 row.userPrompt
  hashes : ∀ m ∈ db.messages, m.messageHash = computeContentHash sha256 m.message
  owned : ∀ m ∈ db.messages, m.traceId < db.traces.length
  numbered : ∀ id, (db.turnMessages id).map (·.seq) = List.range' 1 (db.turnMessages id).length

theorem Aligned.map (aligned : Aligned sha256 db) {f : ConversationTrace → ConversationTrace} (kept : KeepsOpening f) :
    Aligned sha256 { db with traces := db.traces.map f } := by
  refine ⟨fun row member => ?_, aligned.hashes, fun m member => ?_, aligned.numbered⟩
  · obtain ⟨old, here, rfl⟩ := List.mem_map.mp member
    rw [(kept.prompt old).1, (kept.prompt old).2]
    exact aligned.prompts old here
  · simpa using aligned.owned m member

theorem foldl_max_range' (n : Nat) : (List.range' 1 n).foldl max 0 = n := by
  induction n with
  | zero => rfl
  | succ n ih =>
    rw [List.range'_concat, List.foldl_append, ih]
    simp
    omega

theorem turnMessages_append (m : TurnMessage) (id : Nat) :
    TraceDb.turnMessages { db with messages := db.messages ++ [m] } id =
      db.turnMessages id ++ if m.traceId = id then [m] else [] := by
  unfold turnMessages
  rw [List.filter_append]
  congr 1
  by_cases own : m.traceId = id
  · simp [own]
  · simp [own]

theorem Aligned.append (aligned : Aligned sha256 db) {id : Nat} (inside : id < db.traces.length) (text : String) (now : Nat) :
    Aligned sha256 (db.appendTurnMessage id text (computeContentHash sha256 text) now) := by
  unfold appendTurnMessage
  split
  · exact aligned
  · refine ⟨aligned.prompts, fun m member => ?_, fun m member => ?_, fun other => ?_⟩
    · rcases List.mem_append.mp member with old | new
      · exact aligned.hashes m old
      · obtain rfl := List.mem_singleton.mp new
        rfl
    · rcases List.mem_append.mp member with old | new
      · exact aligned.owned m old
      · obtain rfl := List.mem_singleton.mp new
        exact inside
    · rw [turnMessages_append, List.map_append, List.length_append, aligned.numbered other]
      dsimp only
      split
      · rename_i own
        subst own
        rw [aligned.numbered id, foldl_max_range', List.length_singleton, List.range'_concat]
        simp [Nat.add_comm]
      · simp

theorem Aligned.insert (aligned : Aligned sha256 db) {row : ConversationTrace}
    (hash : row.userPromptHash = computeContentHash sha256 row.userPrompt) :
    Aligned sha256 { db with traces := db.traces ++ [row] } := by
  refine ⟨fun r member => ?_, aligned.hashes, fun m member => ?_, aligned.numbered⟩
  · rcases List.mem_append.mp member with old | new
    · exact aligned.prompts r old
    · obtain rfl := List.mem_singleton.mp new
      exact hash
  · have inside := aligned.owned m member
    rw [List.length_append]
    omega

/-- What the two updates of a sweep do to one row. -/
def sweepRow (agentSessionId agentId : Option String) (ended : List String) (now cutoff : Nat) (t : ConversationTrace) : ConversationTrace :=
  if t.status = .pending ∧ inScope agentSessionId agentId t = true ∧ (t.agentSessionId ∈ ended ∨ t.createdAt < cutoff) then abandon now t
  else t

theorem inScope_abandon (agentSessionId agentId : Option String) (now : Nat) (t : ConversationTrace) :
    inScope agentSessionId agentId (abandon now t) = false := by
  simp [inScope, abandon]

theorem sweep_eq (agentSessionId agentId : Option String) (ended : List String) (now cutoff : Nat) :
    db.sweepAbandonedTraces agentSessionId agentId ended now cutoff =
      { db with traces := db.traces.map (sweepRow agentSessionId agentId ended now cutoff) } := by
  simp only [sweepAbandonedTraces, updateTraces, List.map_map]
  congr 2
  funext t
  simp only [Function.comp, sweepRow]
  by_cases pending : t.status = .pending
  · by_cases scope : inScope agentSessionId agentId t = true
    · by_cases finished : t.agentSessionId ∈ ended
      · simp [pending, scope, finished, inScope_abandon]
      · simp [pending, scope, finished]
    · simp [pending, scope]
  · simp [pending, inScope]

theorem KeepsOpening.sweepRow (agentSessionId agentId : Option String) (ended : List String) (now cutoff : Nat) :
    KeepsOpening (sweepRow agentSessionId agentId ended now cutoff) := by
  constructor
  · intro t
    unfold TraceDb.sweepRow
    split <;> exact ⟨rfl, rfl⟩
  · intro t
    unfold TraceDb.sweepRow
    split <;> exact ⟨rfl, rfl⟩

theorem Aligned.captureStart (aligned : Aligned sha256 db) (agentSessionId agentId : String) (harness : Harness)
    (harnessSessionId harnessTurnId text : String) (now : Nat) :
    Aligned sha256 (db.captureStart sha256 agentSessionId agentId harness harnessSessionId harnessTurnId text now) := by
  unfold TraceDb.captureStart
  cases found : db.traceOf agentSessionId harnessTurnId with
  | none => exact aligned.insert rfl
  | some id =>
    obtain ⟨row, here, _⟩ := traceOf_found found
    dsimp only
    split
    · exact aligned.append (List.getElem?_eq_some_iff.mp here).1 text now
    · exact aligned

theorem Aligned.next (aligned : Aligned sha256 db) (step : TraceStep) : Aligned sha256 (db.next sha256 step) := by
  cases step with
  | start agentSessionId agentId harness harnessSessionId harnessTurnId userPrompt ended now cutoff =>
    refine Aligned.captureStart ?_ agentSessionId agentId harness harnessSessionId harnessTurnId _ now
    rw [sweep_eq]
    exact aligned.map (.sweepRow _ _ _ _ _)
  | complete agentSessionId agentId harnessTurnId message now => exact aligned.map ((KeepsOpening.complete now message).guarded _)
  | sweep agentSessionId agentId ended now cutoff =>
    simp only [TraceDb.next, sweep_eq]
    exact aligned.map (.sweepRow _ _ _ _ _)

/-- The text that a step captures for the turn. -/
def submitted (session turn : String) : TraceStep → Option String
  | .start agentSessionId _ harness _ harnessTurnId userPrompt _ _ _ =>
    if agentSessionId = session ∧ harnessTurnId = turn then some (capturedText harness userPrompt) else none
  | _ => none

def after (sha256 : String → String) (steps : List TraceStep) : TraceDb := steps.foldl (fun db => db.next sha256) empty

/-- A trace has its final message exactly when it is completed. -/
def FinalIffCompleted (t : ConversationTrace) : Prop :=
  t.finalAssistantMessage.isSome = true ↔ t.status = .completed

/-- No two traces are of one turn of one session. -/
def OneTrace (db : TraceDb) : Prop :=
  db.traces.Pairwise fun a b => ¬(a.agentSessionId = b.agentSessionId ∧ a.harnessTurnId = b.harnessTurnId)

/-- Every trace is still there, of its turn, and one that was over is as it was. -/
def Settles (before after : TraceDb) : Prop :=
  ∀ (i : Nat) (row : ConversationTrace), before.traces[i]? = some row → ∃ row' : ConversationTrace, after.traces[i]? = some row' ∧
    row'.agentSessionId = row.agentSessionId ∧ row'.harnessTurnId = row.harnessTurnId ∧ (row.status ≠ .pending → row' = row)

/-- What a step may do to a row. -/
structure RowStep (f : ConversationTrace → ConversationTrace) : Prop where
  opening : KeepsOpening f
  settled : ∀ t, t.status ≠ .pending → f t = t
  final : ∀ t, FinalIffCompleted t → FinalIffCompleted (f t)

theorem RowStep.sweepRow (agentSessionId agentId : Option String) (ended : List String) (now cutoff : Nat) :
    RowStep (sweepRow agentSessionId agentId ended now cutoff) := by
  refine ⟨.sweepRow _ _ _ _ _, fun t settled => ?_, fun t final => ?_⟩
  · exact if_neg fun h => settled h.1
  · unfold TraceDb.sweepRow
    split
    · rename_i swept
      simpa [FinalIffCompleted, abandon, swept.1] using final
    · exact final

theorem RowStep.complete (agentSessionId agentId harnessTurnId message : String) (now : Nat) :
    RowStep fun t => if (t.ofTurn agentSessionId harnessTurnId && decide (t.agentId = agentId) && decide (t.status = .pending)) = true
      then complete sha256 now message t else t := by
  refine ⟨(KeepsOpening.complete now message).guarded _, fun t settled => by simp [settled], fun t final => ?_⟩
  split
  · simp [FinalIffCompleted, TraceDb.complete]
  · exact final

/-- One step changes rows one by one, and adds at most one: pending, and of a turn that has none. -/
theorem next_traces (step : TraceStep) : ∃ f, RowStep f ∧ ((db.next sha256 step).traces = db.traces.map f ∨
    ∃ row, (db.next sha256 step).traces = db.traces.map f ++ [row] ∧ row.status = .pending ∧ row.finalAssistantMessage = none ∧
      ∀ t ∈ db.traces, ¬(t.agentSessionId = row.agentSessionId ∧ t.harnessTurnId = row.harnessTurnId)) := by
  cases step with
  | start agentSessionId agentId harness harnessSessionId harnessTurnId userPrompt ended now cutoff =>
    have row := RowStep.sweepRow (some agentSessionId) none ended now cutoff
    refine ⟨_, row, ?_⟩
    simp only [TraceDb.next, sweep_eq, TraceDb.captureStart, traceOf_map row.opening]
    cases found : db.traceOf agentSessionId harnessTurnId with
    | none =>
      refine .inr ⟨_, rfl, rfl, rfl, fun t member same => ?_⟩
      have absent := List.findIdx?_eq_none_iff.mp found t member
      simp [ConversationTrace.ofTurn, same] at absent
    | some id =>
      left
      dsimp only
      split
      · unfold appendTurnMessage
        split <;> rfl
      · rfl
  | complete agentSessionId agentId harnessTurnId message now =>
    exact ⟨_, .complete agentSessionId agentId harnessTurnId message now, .inl rfl⟩
  | sweep agentSessionId agentId ended now cutoff =>
    refine ⟨_, .sweepRow agentSessionId agentId ended now cutoff, .inl ?_⟩
    simp only [TraceDb.next, sweep_eq]

theorem Settles.of_next (db : TraceDb) (step : TraceStep) : Settles db (db.next sha256 step) := by
  intro i row here
  obtain ⟨f, rows, shape⟩ := @next_traces db sha256 step
  have moved : (db.traces.map f)[i]? = some (f row) := by simp [here]
  have found : (db.next sha256 step).traces[i]? = some (f row) := by
    rcases shape with same | ⟨new, same, _⟩
    · rw [same, moved]
    · rw [same, List.getElem?_append_left (List.getElem?_eq_some_iff.mp moved).1, moved]
  exact ⟨f row, found, (rows.opening.turn row).1, (rows.opening.turn row).2, rows.settled row⟩

theorem Settles.trans {a b c : TraceDb} (first : Settles a b) (second : Settles b c) : Settles a c := by
  intro i row here
  obtain ⟨middle, found, session, turn, kept⟩ := first i row here
  obtain ⟨last, there, session', turn', kept'⟩ := second i middle found
  refine ⟨last, there, session'.trans session, turn'.trans turn, fun settled => ?_⟩
  have same := kept settled
  rw [kept' (same ▸ settled), same]

/-- What the table of the traces keeps. -/
structure Lawful (db : TraceDb) : Prop where
  one : db.OneTrace
  final : ∀ t ∈ db.traces, FinalIffCompleted t

theorem Lawful.next (lawful : db.Lawful) (step : TraceStep) : (db.next sha256 step).Lawful := by
  obtain ⟨f, rows, shape⟩ := @next_traces db sha256 step
  have one : (db.traces.map f).Pairwise fun a b => ¬(a.agentSessionId = b.agentSessionId ∧ a.harnessTurnId = b.harnessTurnId) :=
    List.pairwise_map.mpr (lawful.one.imp fun {a b} apart => by
      rwa [(rows.opening.turn a).1, (rows.opening.turn a).2, (rows.opening.turn b).1, (rows.opening.turn b).2])
  have final : ∀ t ∈ db.traces.map f, FinalIffCompleted t := by
    intro t member
    obtain ⟨old, here, rfl⟩ := List.mem_map.mp member
    exact rows.final old (lawful.final old here)
  rcases shape with same | ⟨row, same, pending, silent, fresh⟩
  · exact ⟨by rwa [OneTrace, same], by rwa [same]⟩
  · constructor
    · rw [OneTrace, same]
      refine List.pairwise_append.mpr ⟨one, List.pairwise_singleton _ _, fun t member new last => ?_⟩
      obtain rfl := List.mem_singleton.mp last
      obtain ⟨old, here, rfl⟩ := List.mem_map.mp member
      rw [(rows.opening.turn old).1, (rows.opening.turn old).2]
      exact fresh old here
    · rw [same]
      intro t member
      rcases List.mem_append.mp member with old | new
      · exact final t old
      · obtain rfl := List.mem_singleton.mp new
        simp [FinalIffCompleted, pending, silent]

/-- One trace for a turn, over once it is over, and with a final message exactly when it was completed, in any order of steps. -/
theorem traces_settle (sha256 : String → String) (steps : List TraceStep) :
    (Runs.states (fun db => TraceDb.next db sha256) steps empty).Pairwise Settles ∧
      ∀ db ∈ Runs.states (fun db => TraceDb.next db sha256) steps empty, db.Lawful := by
  refine ⟨Runs.pairwise (fun a b c first second => first.trans second) Settles.of_next steps empty, ?_⟩
  exact Runs.invariant (P := Lawful) (fun _ step here => here.next step) ⟨.nil, by simp [empty]⟩

end TraceDb

end SaltMdb
