import Mathlib.Data.Prod.Lex
import Mathlib.Data.String.Basic
import SaltMdb.Library.Leading
import SaltMdb.Library.Paging
import SaltMdb.Library.Runs
import SaltMdb.Mcp.Cursor
import SaltMdb.Store.Data

/-! The ledger of events, and readers that page through it while others write to it. -/

namespace SaltMdb
open Runs

/-- A row of `events` with all its columns, and times as text. -/
structure LedgerEvent where
  id : String
  timestamp : String
  agentId : String
  type : String
  content : String
  errorCode : Option String
  agentSessionId : Option String
  contextId : Option String
deriving DecidableEq, Repr

/-- The rows with their rowids, which only grow. -/
structure EventLedger where
  rows : List (Nat × LedgerEvent)
  next : Nat
  below : ∀ row ∈ rows, row.1 < next
  ascending : rows.Pairwise fun a b => a.1 < b.1

/-- What an agent logs. -/
structure EventDraft where
  agentId : String
  type : String
  content : String
  errorCode : Option String
  agentSessionId : Option String
  contextId : Option String
deriving DecidableEq, Repr

namespace EventLedger

def empty : EventLedger where
  rows := []
  next := 0
  below := by simp
  ascending := .nil

def push (ledger : EventLedger) (e : LedgerEvent) : EventLedger where
  rows := ledger.rows ++ [(ledger.next, e)]
  next := ledger.next + 1
  below := by
    intro row listed
    rcases List.mem_append.mp listed with old | new
    · exact Nat.lt_succ_of_lt (ledger.below row old)
    · rw [List.mem_singleton.mp new]
      exact Nat.lt_succ_self _
  ascending := by
    refine List.pairwise_append.mpr ⟨ledger.ascending, List.pairwise_singleton _ _, fun row listed new last => ?_⟩
    rw [List.mem_singleton.mp last]
    exact ledger.below row listed

/-- `log_event`: an id that is there already is the one failure of the statement. -/
def logEvent (redactSecrets : String → String) (ledger : EventLedger) (draft : EventDraft) (eventId now : String) :
    EventLedger × Envelope (String × String) :=
  if ∃ row ∈ ledger.rows, row.2.id = eventId then (ledger, .rejected [⟨internalError, "UNIQUE constraint failed: events.id", none⟩])
  else
    (ledger.push
      { id := eventId
        timestamp := now
        agentId := draft.agentId
        type := draft.type
        content := redactSecrets draft.content
        errorCode := draft.errorCode.map redactSecrets
        agentSessionId := draft.agentSessionId
        contextId := draft.contextId.map redactSecrets },
      .ok (eventId, s!"Event logged successfully with ID: {eventId}") [])

end EventLedger

inductive EventOrder where
  | newestFirst
  | oldestFirst
deriving DecidableEq, Repr

structure EventQuery where
  contextId : Option String
  agentId : Option String
  typeFilter : Option String
  agentSessionId : Option String
  eventId : Option String
  order : EventOrder
  fullContent : Bool
deriving DecidableEq, Repr

namespace EventQuery

variable (q : EventQuery)

/-- A clause there is for a filter that is not empty: an equality, which `NULL` does not meet. -/
def clause (filter column : Option String) : Bool := (filter.filter (· ≠ "")).all fun value => column == some value

def selects (e : LedgerEvent) : Bool :=
  clause q.contextId e.contextId && clause q.agentId (some e.agentId) && clause q.typeFilter (some e.type) &&
    clause q.agentSessionId e.agentSessionId && clause q.eventId (some e.id)

/-- Long content is cut, unless one event was asked for. -/
def display (e : LedgerEvent) : LedgerEvent :=
  let skipTruncation := q.fullContent || q.eventId.any (· ≠ "")
  if skipTruncation || decide (e.content.toList.length ≤ 1000) then e
  else { e with content := .ofList (e.content.toList.take 1000) ++ " [TRUNCATED]" }

end EventQuery

namespace EventLedger

/-- `ORDER BY timestamp, rowid`. -/
def eventKey (row : Nat × LedgerEvent) : String ×ₗ Nat := toLex (row.2.timestamp, row.1)

variable (ledger : EventLedger) (q : EventQuery)

def selected : List (Nat × LedgerEvent) := ledger.rows.filter fun row => q.selects row.2

/-- All events that a query asks for, in its order. -/
def matching : List LedgerEvent :=
  match q.order with
  | .oldestFirst => (Paging.inOrder eventKey (ledger.selected q)).map fun row => q.display row.2
  | .newestFirst => (Leading.descending eventKey (ledger.selected q)).map fun row => q.display row.2

def getRecentEvents (limit offset : Nat) : List LedgerEvent := ((ledger.matching q).drop offset).take limit

def maxListOffset : Nat := 10000

/-- The tool, with the checks of its arguments. -/
def getEvents (limit : Nat) (cursor : CursorArgument) : Envelope (ListPage LedgerEvent) :=
  if limit < 1 ∨ 100 < limit then .rejected [fieldError validationError "limit must be between 1 and 100." "limit"]
  else
    match cursorOffset cursor maxListOffset with
    | (_, some message) => .rejected [fieldError validationError message "cursor"]
    | (offset, none) => .ok (listPage (ledger.getRecentEvents q (limit + 1) offset) limit offset) []

end EventLedger

/-! ### A reader among writers -/

/-- A reader that follows the cursors it is given: `next` is the one to send, and none at the end. -/
structure EventReader where
  ledger : EventLedger
  next : Option CursorArgument
  read : List LedgerEvent

inductive ReaderStep where
  | log (draft : EventDraft) (eventId now : String)
  | fetch
deriving DecidableEq, Repr

namespace EventReader

variable (redactSecrets : String → String) (q : EventQuery) (limit : Nat)

def start (ledger : EventLedger) : EventReader := ⟨ledger, some .none, []⟩

def step (r : EventReader) : ReaderStep → EventReader
  | .log draft eventId now => { r with ledger := (r.ledger.logEvent redactSecrets draft eventId now).1 }
  | .fetch =>
    match r.next with
    | none => r
    | some cursor =>
      match r.ledger.getEvents q limit cursor with
      | .ok page _ => { r with next := page.nextCursor.map .text, read := r.read ++ page.items }
      | _ => r

/-- The clock of the writers does not run back. -/
def Timely : ReaderStep → EventReader → Prop
  | .log _ _ now, r => ∀ row ∈ r.ledger.rows, row.2.timestamp ≤ now
  | .fetch, _ => True

instance (action : ReaderStep) (r : EventReader) : Decidable (Timely action r) :=
  match action with
  | .log _ _ now => inferInstanceAs (Decidable (∀ row ∈ r.ledger.rows, row.2.timestamp ≤ now))
  | .fetch => inferInstanceAs (Decidable True)

end EventReader

/-! ### Events that are logged later come later -/

namespace EventLedger

variable {ledger : EventLedger} {q : EventQuery} {e : LedgerEvent}

theorem selected_distinct : (ledger.selected q).Pairwise fun a b => eventKey a ≠ eventKey b := by
  refine (ledger.ascending.sublist List.filter_sublist).imp fun before same => ?_
  have rowid := congrArg (fun key => (ofLex key).2) same
  exact Nat.ne_of_lt before rowid

theorem inOrder_concat {α κ : Type} [LinearOrder κ] {key : α → κ} {rows : List α} {last : α}
    (distinct : rows.Pairwise fun a b => key a ≠ key b) (above : ∀ a ∈ rows, key a < key last) :
    Paging.inOrder key (rows ++ [last]) = Paging.inOrder key rows ++ [last] := by
  have apart : (rows ++ [last]).Pairwise fun a b => key a ≠ key b := by
    refine List.pairwise_append.mpr ⟨distinct, List.pairwise_singleton _ _, fun a listed b new => ?_⟩
    rw [List.mem_singleton.mp new]
    exact (above a listed).ne
  have sorted : (Paging.inOrder key rows ++ [last]).Pairwise fun a b => key a < key b := by
    refine List.pairwise_append.mpr ⟨Paging.inOrder_pairwise distinct, List.pairwise_singleton _ _, fun a listed b new => ?_⟩
    rw [List.mem_singleton.mp new]
    exact above a (Paging.mem_inOrder.mp listed)
  have perm : (Paging.inOrder key (rows ++ [last])).Perm (Paging.inOrder key rows ++ [last]) :=
    (List.mergeSort_perm _ _).trans ((List.mergeSort_perm rows _).symm.append_right [last])
  exact List.Perm.eq_of_pairwise (fun _ _ _ _ below above => absurd below (lt_asymm above)) (Paging.inOrder_pairwise apart) sorted perm

theorem matching_push (oldest : q.order = .oldestFirst) (timely : ∀ row ∈ ledger.rows, row.2.timestamp ≤ e.timestamp) :
    (ledger.push e).matching q = ledger.matching q ++ if q.selects e = true then [q.display e] else [] := by
  unfold matching
  rw [oldest]
  dsimp only
  have chosen : (ledger.push e).selected q = ledger.selected q ++ if q.selects e = true then [(ledger.next, e)] else [] := by
    unfold selected push
    rw [List.filter_append, List.filter_singleton, cond_eq_ite]
  rw [chosen]
  split
  · have above : ∀ row ∈ ledger.selected q, eventKey row < eventKey (ledger.next, e) := by
      intro row listed
      have here := List.mem_of_mem_filter listed
      refine Prod.Lex.toLex_lt_toLex.mpr ?_
      rcases lt_or_eq_of_le (timely row here) with before | same
      · exact .inl before
      · exact .inr ⟨same, ledger.below row here⟩
    rw [inOrder_concat selected_distinct above, List.map_append]
    rfl
  · rw [List.append_nil, List.append_nil]

end EventLedger

/-! ### What a reader has read -/

namespace EventReader

variable {redactSecrets : String → String} {q : EventQuery} {limit : Nat} {r : EventReader}

/-- Between two pages: the cursor tells how much was read, from the first event on. -/
structure Reading (q : EventQuery) (r : EventReader) (cursor : CursorArgument) : Prop where
  offset : (cursor = .none ∧ r.read = []) ∨ cursor = .text (cursorText r.read.length)
  front : r.read <+: r.ledger.matching q

theorem log_matching (oldest : q.order = .oldestFirst) {draft : EventDraft} {eventId now : String}
    (timely : ∀ row ∈ r.ledger.rows, row.2.timestamp ≤ now) :
    r.ledger.matching q <+: (r.ledger.logEvent redactSecrets draft eventId now).1.matching q := by
  unfold EventLedger.logEvent
  split
  · exact List.prefix_refl _
  · dsimp only
    rw [EventLedger.matching_push oldest timely]
    exact List.prefix_append _ _

/-- What a page holds, where its cursor is accepted. -/
theorem getEvents_page {ledger : EventLedger} {cursor : CursorArgument} {offset : Nat} (small : 1 ≤ limit ∧ limit ≤ 100)
    (accepted : cursorOffset cursor EventLedger.maxListOffset = (offset, none)) :
    ledger.getEvents q limit cursor = .ok (listPage (ledger.getRecentEvents q (limit + 1) offset) limit offset) [] := by
  unfold EventLedger.getEvents
  rw [if_neg (by omega), accepted]

theorem getRecentEvents_items {ledger : EventLedger} {offset : Nat} :
    (listPage (ledger.getRecentEvents q (limit + 1) offset) limit offset).items = ((ledger.matching q).drop offset).take limit := by
  unfold listPage EventLedger.getRecentEvents
  dsimp only
  rw [List.take_take, Nat.min_eq_left (Nat.le_succ limit)]

theorem getRecentEvents_more {ledger : EventLedger} {offset : Nat} :
    (listPage (ledger.getRecentEvents q (limit + 1) offset) limit offset).nextCursor =
      if limit < (ledger.matching q).length - offset then some (cursorText (offset + limit)) else none := by
  unfold listPage EventLedger.getRecentEvents
  dsimp only
  refine if_congr ?_ rfl rfl
  rw [List.length_take, List.length_drop]
  omega

/-- A page is read, all that there is or as much as was asked for; behind the last offset there is none to be had. -/
theorem fetch_cases {cursor : CursorArgument} (small : 1 ≤ limit ∧ limit ≤ 100) (stands : r.next = some cursor) (reading : Reading q r cursor) :
    (r.read.length ≤ EventLedger.maxListOffset ∧
      (((r.step redactSecrets q limit .fetch).next = none ∧ (r.step redactSecrets q limit .fetch).read = r.ledger.matching q) ∨
        ∃ following, (r.step redactSecrets q limit .fetch).next = some following ∧ Reading q (r.step redactSecrets q limit .fetch) following ∧
          (r.step redactSecrets q limit .fetch).read.length = r.read.length + limit)) ∨
    (EventLedger.maxListOffset < r.read.length ∧ r.step redactSecrets q limit .fetch = r) := by
  by_cases within : r.read.length ≤ EventLedger.maxListOffset
  · refine .inl ⟨within, ?_⟩
    have accepted : cursorOffset cursor EventLedger.maxListOffset = (r.read.length, none) := by
      rcases reading.offset with ⟨rfl, nothing⟩ | rfl
      · rw [nothing]
        rfl
      · exact cursorOffset_iff.mpr ⟨rfl, within⟩
    have page : r.step redactSecrets q limit .fetch =
        { r with
          next := (if limit < (r.ledger.matching q).length - r.read.length then some (cursorText (r.read.length + limit)) else none).map .text
          read := r.read ++ ((r.ledger.matching q).drop r.read.length).take limit } := by
      unfold step
      dsimp only
      rw [stands]
      dsimp only
      rw [getEvents_page small accepted]
      dsimp only
      rw [getRecentEvents_items, getRecentEvents_more]
    have so_far : r.read = (r.ledger.matching q).take r.read.length := List.prefix_iff_eq_take.mp reading.front
    have now_ : r.read ++ ((r.ledger.matching q).drop r.read.length).take limit = (r.ledger.matching q).take (r.read.length + limit) := by
      rw [List.take_add, ← so_far]
    rw [page, now_]
    dsimp only
    by_cases more : limit < (r.ledger.matching q).length - r.read.length
    · have length : ((r.ledger.matching q).take (r.read.length + limit)).length = r.read.length + limit := by
        rw [List.length_take]
        omega
      rw [if_pos more]
      refine .inr ⟨_, rfl, ⟨.inr ?_, List.take_prefix _ _⟩, length⟩
      dsimp only
      rw [length]
    · rw [if_neg more]
      exact .inl ⟨rfl, List.take_of_length_le (by omega)⟩
  · refine .inr ⟨by omega, ?_⟩
    have refused : ∃ message, cursorOffset cursor EventLedger.maxListOffset = (0, some message) := by
      rcases reading.offset with ⟨_, nothing⟩ | rfl
      · rw [nothing] at within
        exact absurd (Nat.zero_le _) within
      · exact cursorOffset_refused within
    obtain ⟨message, refused⟩ := refused
    unfold step
    dsimp only
    rw [stands]
    dsimp only
    unfold EventLedger.getEvents
    rw [if_neg (by omega), refused]

theorem fetch_ledger : (r.step redactSecrets q limit .fetch).ledger = r.ledger := by
  unfold step
  dsimp only
  cases r.next with
  | none => rfl
  | some cursor =>
    dsimp only
    cases r.ledger.getEvents q limit cursor <;> rfl

/-- What holds of a reader at any time. -/
def Follows (q : EventQuery) (r : EventReader) : Prop := r.read <+: r.ledger.matching q ∧ ∀ cursor, r.next = some cursor → Reading q r cursor

theorem Follows.step (small : 1 ≤ limit ∧ limit ≤ 100) (oldest : q.order = .oldestFirst) (follows : r.Follows q) (action : ReaderStep)
    (timely : Timely action r) : (r.step redactSecrets q limit action).Follows q := by
  cases action with
  | log draft eventId now =>
    have later : r.read <+: (r.ledger.logEvent redactSecrets draft eventId now).1.matching q :=
      follows.1.trans (log_matching oldest timely)
    exact ⟨later, fun cursor stands => ⟨(follows.2 cursor stands).offset, later⟩⟩
  | fetch =>
    cases stands : r.next with
    | none =>
      have still : r.step redactSecrets q limit .fetch = r := by
        unfold EventReader.step
        dsimp only
        rw [stands]
      rw [still]
      exact follows
    | some cursor =>
      rcases fetch_cases small stands (follows.2 cursor stands) with ⟨_, ⟨over_, all⟩ | ⟨following, on, reading, _⟩⟩ | ⟨_, still⟩
      · refine ⟨?_, fun other stands' => absurd (over_.symm.trans stands') (by simp)⟩
        rw [all, fetch_ledger]
      · refine ⟨reading.front, fun other stands' => ?_⟩
        obtain rfl := Option.some.inj (on.symm.trans stands')
        exact reading
      · rw [still]
        exact follows

theorem follows {ledger : EventLedger} {actions : List ReaderStep} (small : 1 ≤ limit ∧ limit ≤ 100) (oldest : q.order = .oldestFirst)
    (timely : Guarded (step redactSecrets q limit) Timely actions (start ledger)) :
    (actions.foldl (step redactSecrets q limit) (start ledger)).Follows q := by
  have begins : (start ledger).Follows q :=
    ⟨List.nil_prefix, fun cursor stands => ⟨.inl ⟨(Option.some.inj stands).symm, rfl⟩, List.nil_prefix⟩⟩
  have onward : ∀ (r : EventReader) (action : ReaderStep), r.Follows q → Timely action r → (r.step redactSecrets q limit action).Follows q :=
    fun r action holds timely => holds.step small oldest action timely
  exact final_of_guarded onward begins timely

/-- Oldest first, a reader gets every event of its query once and in order, whatever is logged between its pages: what it has read is
always the front of what there is, a page that ends the reading completes it, and every other page has as many events as were asked
for, until the last offset is passed. -/
theorem oldest_first_reads_all {ledger : EventLedger} {actions : List ReaderStep} (small : 1 ≤ limit ∧ limit ≤ 100)
    (oldest : q.order = .oldestFirst) (timely : Guarded (step redactSecrets q limit) Timely actions (start ledger)) :
    let r := actions.foldl (step redactSecrets q limit) (start ledger)
    let fetched := r.step redactSecrets q limit .fetch
    r.read <+: r.ledger.matching q ∧ ∀ cursor, r.next = some cursor →
      (r.read.length ≤ EventLedger.maxListOffset →
        (fetched.next = none ∧ fetched.read = r.ledger.matching q) ∨
          ((∃ following, fetched.next = some following) ∧ fetched.read.length = r.read.length + limit)) ∧
      (EventLedger.maxListOffset < r.read.length → fetched = r) := by
  have holds : (actions.foldl (step redactSecrets q limit) (start ledger)).Follows q := EventReader.follows small oldest timely
  refine ⟨holds.1, fun cursor stands => ?_⟩
  rcases @fetch_cases redactSecrets q limit _ cursor small stands (holds.2 cursor stands) with ⟨within, either⟩ | ⟨beyond, still⟩
  · refine ⟨fun _ => either.imp_right fun ⟨following, on, _, many⟩ => ⟨⟨following, on⟩, many⟩, fun beyond => ?_⟩
    omega
  · refine ⟨fun within => ?_, fun _ => still⟩
    omega

def everyEvent : EventQuery := ⟨none, none, none, none, none, .oldestFirst, false⟩

def note (content : String) : EventDraft := ⟨"agent", "decision", content, none, none, none⟩

/-- One event is logged between two pages of one event each. -/
def interleaved : List ReaderStep := [.log (note "a") "1" "10:00", .log (note "b") "2" "10:01", .fetch, .log (note "c") "3" "10:02", .fetch]

theorem oldest_first_reads_all_interleaved :
    (interleaved.foldl (step id everyEvent 1) (start .empty)).read <+:
      (interleaved.foldl (step id everyEvent 1) (start .empty)).ledger.matching everyEvent :=
  (@oldest_first_reads_all id everyEvent 1 .empty interleaved ⟨by decide, by decide⟩ rfl
    ⟨by decide, by decide, trivial, by
      show ∀ row ∈ (step id everyEvent 1 _ .fetch).ledger.rows, _
      rw [fetch_ledger]
      decide, trivial, trivial⟩).1

end EventReader

end SaltMdb
