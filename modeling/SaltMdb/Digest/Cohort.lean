import Mathlib.Algebra.Order.Group.Int
import Mathlib.Algebra.Order.Group.Unbundled.Abs
import Mathlib.Data.List.Nodup
import Mathlib.Data.List.Pairwise
import Mathlib.Data.Prod.Lex
import Mathlib.Data.String.Basic
import SaltMdb.Library.Leading
import SaltMdb.Store.Data

/-! The cohort of sessions that a session digest is about, whatever the order in which the candidates are listed. -/

namespace SaltMdb
open Leading

def handoverWindowSeconds : Int := 60
def handoverMaxSessions : Nat := 8
def handoverRunningMaxAgeHours : Int := 24

def handoverWindow : Instant := handoverWindowSeconds * 1000000
def handoverRunningMaxAge : Instant := handoverRunningMaxAgeHours * 3600000000

/-- A row of `get_recent_sessions_for_cwd`. -/
structure SessionCandidate where
  sessionId : String
  startedAt : String
  agentId : Option String
  endedAt : Option String
  endedReason : Option String
  lastActivityAt : Option String
  lastTraceAt : Option String
deriving DecidableEq, Repr

/-- A candidate with the instants that were read off it. -/
structure CohortSession extends SessionCandidate where
  effectiveEnd : Instant
  startedDt : Instant
deriving DecidableEq, Repr

-- `parse_timestamp` of a text: an ISO-8601 timestamp, as UTC where it is naive
variable (parseTimestamp : String → Option Instant)

def SessionCandidate.ends (c : SessionCandidate) : List Instant :=
  [c.endedAt, c.lastActivityAt, c.lastTraceAt].filterMap fun value => value.bind parseTimestamp

/-- An eligible candidate; one that is still running has to be of the last day, and not of the future. -/
def SessionCandidate.prepare (now : Instant) (c : SessionCandidate) : Option CohortSession :=
  match parseTimestamp c.startedAt with
  | none => none
  | some started =>
    let effectiveEnd := (c.ends parseTimestamp).max?.getD started
    let age := now - effectiveEnd
    if c.endedAt = none ∧ (age < 0 ∨ handoverRunningMaxAge < age) then none
    else some ⟨c, effectiveEnd, started⟩

def CohortSession.key (s : CohortSession) : Instant ×ₗ String := toLex (s.effectiveEnd, s.sessionId)

def cohortAnchor (prepared : List CohortSession) : Option CohortSession :=
  let ended := prepared.filter fun s => s.endedAt.isSome
  greatest CohortSession.key (if ended.isEmpty then prepared else ended)

/-- The sessions that end after the anchor's start, a window before it included. -/
def cohortExpansion (anchor : CohortSession) (prepared : List CohortSession) : List CohortSession :=
  prepared.filter fun s => decide (anchor.startedDt - handoverWindow ≤ s.effectiveEnd)

def inCohort (expansion : List CohortSession) (s : CohortSession) : Bool :=
  (expansion.map (·.sessionId)).contains s.sessionId ||
    (expansion.map (·.startedDt)).any fun started => decide (|s.startedDt - started| ≤ handoverWindow)

def selectPrepared (prepared : List CohortSession) : List CohortSession :=
  match cohortAnchor prepared with
  | none => []
  | some anchor =>
    (descending CohortSession.key (prepared.filter (inCohort (cohortExpansion anchor prepared)))).take handoverMaxSessions

def selectCohort (candidates : List SessionCandidate) (now : Instant) : List CohortSession :=
  selectPrepared (candidates.filterMap (·.prepare parseTimestamp now))

/-! ### Sessions told apart by their ids -/

variable {parseTimestamp} {candidates : List SessionCandidate} {now : Instant} {prepared : List CohortSession}

def CohortSession.Apart (prepared : List CohortSession) : Prop := prepared.Pairwise fun a b => a.sessionId ≠ b.sessionId

theorem CohortSession.key_ne {a b : CohortSession} (h : a.sessionId ≠ b.sessionId) : a.key ≠ b.key := by
  intro same
  exact h (Prod.ext_iff.mp (toLex.injective same)).2

theorem CohortSession.Apart.keys (apart : Apart prepared) : prepared.Pairwise fun a b => a.key ≠ b.key :=
  apart.imp CohortSession.key_ne

theorem CohortSession.Apart.eq_of_id (apart : Apart prepared) {a b : CohortSession} (ha : a ∈ prepared) (hb : b ∈ prepared)
    (same : a.sessionId = b.sessionId) : a = b := by
  have symm : Std.Symm fun a b : CohortSession => a.sessionId ≠ b.sessionId := ⟨fun _ _ differ => differ.symm⟩
  by_contra differ
  exact List.Pairwise.forall apart ha hb differ same

theorem CohortSession.Apart.eq_of_key (apart : Apart prepared) :
    ∀ a ∈ prepared, ∀ b ∈ prepared, a.key = b.key → a = b := by
  intro a ha b hb same
  exact apart.eq_of_id ha hb (Prod.ext_iff.mp (toLex.injective same)).2

theorem CohortSession.Apart.filter (apart : Apart prepared) (keep : CohortSession → Bool) : Apart (prepared.filter keep) :=
  List.Pairwise.filter keep apart

theorem CohortSession.Apart.perm {other : List CohortSession} (apart : Apart prepared) (perm : other.Perm prepared) :
    Apart other :=
  perm.symm.pairwise apart fun differ => differ.symm

theorem prepare_id {c : SessionCandidate} {s : CohortSession} (h : c.prepare parseTimestamp now = some s) :
    s.sessionId = c.sessionId := by
  unfold SessionCandidate.prepare at h
  split at h
  · simp at h
  · dsimp only at h
    split at h
    · simp at h
    · rw [← Option.some.inj h]

theorem prepared_apart (distinct : (candidates.map (·.sessionId)).Nodup) :
    CohortSession.Apart (candidates.filterMap (·.prepare parseTimestamp now)) := by
  unfold CohortSession.Apart
  rw [List.pairwise_filterMap]
  refine (List.pairwise_map.mp distinct).imp fun differ s from_ t to_ => ?_
  rw [prepare_id from_, prepare_id to_]
  exact differ

/-! ### The order of the candidates -/

theorem cohortAnchor_perm {other : List CohortSession} (apart : CohortSession.Apart prepared) (perm : other.Perm prepared) :
    cohortAnchor other = cohortAnchor prepared := by
  unfold cohortAnchor
  have ended := perm.filter fun s => s.endedAt.isSome
  dsimp only
  rw [ended.isEmpty_eq]
  split
  · exact greatest_perm perm apart.eq_of_key
  · exact greatest_perm ended (apart.filter _).eq_of_key

theorem inCohort_perm {expansion other : List CohortSession} (perm : other.Perm expansion) : inCohort other = inCohort expansion := by
  funext s
  unfold inCohort
  rw [(perm.map _).contains_eq, (perm.map _).any_eq]

theorem selectPrepared_perm {other : List CohortSession} (apart : CohortSession.Apart prepared) (perm : other.Perm prepared) :
    selectPrepared other = selectPrepared prepared := by
  unfold selectPrepared
  rw [cohortAnchor_perm apart perm]
  cases cohortAnchor prepared with
  | none => rfl
  | some anchor =>
    have expansion : (cohortExpansion anchor other).Perm (cohortExpansion anchor prepared) := perm.filter _
    dsimp only
    rw [inCohort_perm expansion, descending_perm (perm.filter _) (apart.filter _).keys]

/-! ### A candidate that is left out -/

variable {anchor : CohortSession}

theorem cohortAnchor_filter (apart : CohortSession.Apart prepared) (found : cohortAnchor prepared = some anchor)
    {keep : CohortSession → Bool} (kept : keep anchor = true) : cohortAnchor (prepared.filter keep) = some anchor := by
  unfold cohortAnchor at found ⊢
  dsimp only at found ⊢
  have swap : (prepared.filter keep).filter (fun s => s.endedAt.isSome) = (prepared.filter fun s => s.endedAt.isSome).filter keep := by
    rw [List.filter_filter, List.filter_filter]
    exact List.filter_congr fun s _ => Bool.and_comm _ _
  rw [swap]
  split at found
  · rename_i none_
    rw [List.isEmpty_iff.mp none_, List.filter_nil, List.isEmpty_nil, if_pos rfl, greatest_filter apart.eq_of_key]
    · exact found
    · intro a same
      rw [found] at same
      exact Option.some.inj same ▸ kept
  · have here : anchor ∈ (prepared.filter fun s => s.endedAt.isSome).filter keep :=
      List.mem_filter.mpr ⟨(greatest_some found).1, kept⟩
    rw [if_neg, greatest_filter (apart.filter _).eq_of_key]
    · exact found
    · intro a same
      rw [found] at same
      exact Option.some.inj same ▸ kept
    · rw [List.isEmpty_iff]
      exact List.ne_nil_of_mem here

theorem mem_cohortExpansion {s : CohortSession} : s ∈ cohortExpansion anchor prepared ↔
    s ∈ prepared ∧ anchor.startedDt - handoverWindow ≤ s.effectiveEnd := by
  simp [cohortExpansion]

theorem inCohort_iff {expansion : List CohortSession} {s : CohortSession} : inCohort expansion s = true ↔
    (∃ e ∈ expansion, e.sessionId = s.sessionId) ∨
      ∃ e ∈ expansion, |s.startedDt - e.startedDt| ≤ handoverWindow := by
  simp [inCohort]

theorem inCohort_of_expansion {expansion : List CohortSession} {s : CohortSession} (member : s ∈ expansion) :
    inCohort expansion s = true :=
  inCohort_iff.mpr (.inl ⟨s, member, rfl⟩)

/-- A session of the cohort is one of the expansion or ends before all of them. -/
theorem kept_without (apart : CohortSession.Apart prepared) {gone s : CohortSession} (listed : gone ∈ prepared) (here : s ∈ prepared)
    (differ : s.sessionId ≠ gone.sessionId) (member : inCohort (cohortExpansion anchor prepared) s = true)
    (later : gone ∈ cohortExpansion anchor prepared → gone.key < s.key) :
    inCohort (cohortExpansion anchor (prepared.filter fun t => t.sessionId != gone.sessionId)) s = true := by
  have remains : ∀ e ∈ cohortExpansion anchor prepared, e.sessionId ≠ gone.sessionId →
      e ∈ cohortExpansion anchor (prepared.filter fun t => t.sessionId != gone.sessionId) := by
    intro e inside other
    obtain ⟨there, late⟩ := mem_cohortExpansion.mp inside
    exact mem_cohortExpansion.mpr ⟨List.mem_filter.mpr ⟨there, by simpa using other⟩, late⟩
  rcases inCohort_iff.mp member with ⟨e, inside, same⟩ | ⟨e, inside, near⟩
  · exact inCohort_iff.mpr (.inl ⟨e, remains e inside (by rwa [same]), same⟩)
  · by_cases leaves : e.sessionId = gone.sessionId
    · obtain rfl := apart.eq_of_id (mem_cohortExpansion.mp inside).1 listed leaves
      -- the one that leaves was of the expansion, and what is ahead of it is too
      have ends : e.effectiveEnd ≤ s.effectiveEnd := by
        rcases Prod.Lex.lt_iff.mp (later inside) with less | ⟨same, _⟩
        · exact le_of_lt less
        · exact le_of_eq same
      have late : anchor.startedDt - handoverWindow ≤ s.effectiveEnd := le_trans (mem_cohortExpansion.mp inside).2 ends
      exact inCohort_of_expansion (remains s (mem_cohortExpansion.mpr ⟨here, late⟩) differ)
    · exact inCohort_iff.mpr (.inr ⟨e, remains e inside leaves, near⟩)

theorem inCohort_mono {expansion more : List CohortSession} (sub : ∀ e ∈ expansion, e ∈ more) {s : CohortSession}
    (member : inCohort expansion s = true) : inCohort more s = true := by
  rcases inCohort_iff.mp member with ⟨e, inside, same⟩ | ⟨e, inside, near⟩
  · exact inCohort_iff.mpr (.inl ⟨e, sub e inside, same⟩)
  · exact inCohort_iff.mpr (.inr ⟨e, sub e inside, near⟩)

/-- A session that is neither the anchor nor of the cohort is not missed. -/
theorem selectPrepared_without (apart : CohortSession.Apart prepared) {gone : CohortSession} (listed : gone ∈ prepared)
    (spared : ∀ anchor, cohortAnchor prepared = some anchor → anchor.sessionId ≠ gone.sessionId)
    (outside : gone ∉ selectPrepared prepared) :
    selectPrepared (prepared.filter fun s => s.sessionId != gone.sessionId) = selectPrepared prepared := by
  unfold selectPrepared at outside ⊢
  cases found : cohortAnchor prepared with
  | none =>
    have empty : prepared = [] := by
      unfold cohortAnchor at found
      have none_ := greatest_eq_none.mp found
      split at none_
      · exact none_
      · rename_i some_
        rw [none_] at some_
        simp at some_
    rw [empty] at listed
    simp at listed
  | some anchor =>
    have kept := @cohortAnchor_filter prepared anchor apart found (fun s => s.sessionId != gone.sessionId) (by simpa using spared anchor found)
    rw [found] at outside
    rw [kept]
    dsimp only at outside ⊢
    generalize whole : prepared.filter (inCohort (cohortExpansion anchor prepared)) = cohort at outside ⊢
    have wholeApart : CohortSession.Apart cohort := whole ▸ apart.filter _
    have without : (prepared.filter fun s => s.sessionId != gone.sessionId).filter
          (inCohort (cohortExpansion anchor (prepared.filter fun s => s.sessionId != gone.sessionId))) =
        cohort.filter fun s => s.sessionId != gone.sessionId &&
          inCohort (cohortExpansion anchor (prepared.filter fun s => s.sessionId != gone.sessionId)) s := by
      rw [← whole, List.filter_filter, List.filter_filter]
      refine List.filter_congr fun s here => ?_
      rw [Bool.eq_iff_iff, Bool.and_eq_true, Bool.and_eq_true, Bool.and_eq_true]
      refine ⟨fun ⟨inside, differ⟩ => ⟨⟨differ, inside⟩, inCohort_mono (fun e old => ?_) inside⟩, fun both => ⟨both.1.2, both.1.1⟩⟩
      obtain ⟨there, late⟩ := mem_cohortExpansion.mp old
      exact mem_cohortExpansion.mpr ⟨(List.mem_filter.mp there).1, late⟩
    rw [without, descending_filter wholeApart.keys]
    refine take_filter fun s ahead => ?_
    have ranked := mem_descending.mp (List.mem_of_mem_take ahead)
    obtain ⟨here, inside⟩ := List.mem_filter.mp (whole ▸ ranked)
    have differ : s.sessionId ≠ gone.sessionId := fun same => outside (apart.eq_of_id here listed same ▸ ahead)
    rw [Bool.and_eq_true]
    refine ⟨by simpa using differ, kept_without apart listed here differ inside fun expanded => ?_⟩
    have behind : gone ∈ descending CohortSession.key cohort :=
      mem_descending.mpr (whole ▸ List.mem_filter.mpr ⟨listed, inCohort_of_expansion expanded⟩)
    rw [← List.take_append_drop handoverMaxSessions (descending CohortSession.key cohort)] at behind
    have ordered := descending_pairwise wholeApart.keys
    rw [← List.take_append_drop handoverMaxSessions (descending CohortSession.key cohort), List.pairwise_append] at ordered
    exact ordered.2.2 s ahead gone ((List.mem_append.mp behind).resolve_left outside)

/-! ### The cohort of a list of candidates -/

theorem selectPrepared_short : (selectPrepared prepared).length ≤ handoverMaxSessions := by
  unfold selectPrepared
  split
  · exact Nat.zero_le _
  · exact List.length_take_le _ _

theorem selectPrepared_sorted (apart : CohortSession.Apart prepared) :
    (selectPrepared prepared).Pairwise fun a b => b.key < a.key := by
  unfold selectPrepared
  split
  · exact List.Pairwise.nil
  · exact (descending_pairwise (apart.filter _).keys).sublist (List.take_sublist _ _)

/-- The cohort depends on the candidates and not on their order, has few members, the latest first, and does not miss a
candidate that is neither its anchor nor one of them. -/
theorem selectCohort_canonical (parseTimestamp : String → Option Instant) (candidates : List SessionCandidate)
    (distinct : (candidates.map (·.sessionId)).Nodup) (now : Instant) :
    (∀ other : List SessionCandidate, other.Perm candidates →
      selectCohort parseTimestamp other now = selectCohort parseTimestamp candidates now) ∧
    (selectCohort parseTimestamp candidates now).length ≤ handoverMaxSessions ∧
    (selectCohort parseTimestamp candidates now).Pairwise (fun a b => b.key < a.key) ∧
    ∀ gone ∈ candidates,
      (∀ anchor, cohortAnchor (candidates.filterMap (·.prepare parseTimestamp now)) = some anchor →
        anchor.sessionId ≠ gone.sessionId) →
      (∀ s ∈ selectCohort parseTimestamp candidates now, s.sessionId ≠ gone.sessionId) →
      selectCohort parseTimestamp (candidates.filter fun c => c.sessionId != gone.sessionId) now =
        selectCohort parseTimestamp candidates now := by
  have apart : CohortSession.Apart (candidates.filterMap (·.prepare parseTimestamp now)) := prepared_apart distinct
  refine ⟨fun other perm => selectPrepared_perm apart (perm.filterMap _), selectPrepared_short, selectPrepared_sorted apart,
    fun gone listed spared outside => ?_⟩
  unfold selectCohort at outside ⊢
  have without : (candidates.filter fun c => c.sessionId != gone.sessionId).filterMap (·.prepare parseTimestamp now) =
      (candidates.filterMap (·.prepare parseTimestamp now)).filter fun s => s.sessionId != gone.sessionId := by
    rw [List.filterMap_filter, List.filter_filterMap]
    refine List.filterMap_congr fun c _ => ?_
    cases eligible : c.prepare parseTimestamp now with
    | none => simp
    | some s =>
      rw [← prepare_id eligible]
      simp [Option.filter]
  rw [without]
  cases eligible : gone.prepare parseTimestamp now with
  | none =>
    have absent : ∀ s ∈ candidates.filterMap (·.prepare parseTimestamp now), (s.sessionId != gone.sessionId) = true := by
      intro s member
      obtain ⟨c, there, from_⟩ := List.mem_filterMap.mp member
      rw [bne_iff_ne, prepare_id from_]
      intro same
      have unique := List.inj_on_of_nodup_map distinct there listed same
      rw [unique, eligible] at from_
      simp at from_
    rw [List.filter_eq_self.mpr absent]
  | some s =>
    have named := prepare_id eligible
    have there : s ∈ candidates.filterMap (·.prepare parseTimestamp now) := List.mem_filterMap.mpr ⟨gone, listed, eligible⟩
    rw [← named] at spared outside ⊢
    exact selectPrepared_without apart there spared fun inside => outside s inside rfl

/-- Two sessions of one minute, and one that ended before them. -/
def threeSessions : List SessionCandidate :=
  [⟨"early", "0", none, some "1", none, none, none⟩, ⟨"late", "600000000", none, some "700000000", none, none, none⟩,
    ⟨"running", "650000000", none, none, none, some "660000000", none⟩]

theorem threeSessions_canonical :
    (∀ other : List SessionCandidate, other.Perm threeSessions →
      selectCohort String.toInt? other 710000000 = selectCohort String.toInt? threeSessions 710000000) ∧
    (selectCohort String.toInt? threeSessions 710000000).length ≤ handoverMaxSessions ∧
    (selectCohort String.toInt? threeSessions 710000000).Pairwise (fun a b => b.key < a.key) ∧
    ∀ gone ∈ threeSessions,
      (∀ anchor, cohortAnchor (threeSessions.filterMap (·.prepare String.toInt? 710000000)) = some anchor →
        anchor.sessionId ≠ gone.sessionId) →
      (∀ s ∈ selectCohort String.toInt? threeSessions 710000000, s.sessionId ≠ gone.sessionId) →
      selectCohort String.toInt? (threeSessions.filter fun c => c.sessionId != gone.sessionId) 710000000 =
        selectCohort String.toInt? threeSessions 710000000 :=
  selectCohort_canonical String.toInt? threeSessions (by decide) 710000000

end SaltMdb
