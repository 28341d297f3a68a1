import SaltMdb.Core.Declared
import Mathlib

/-! The overdue boundary: while an active core is overdue for review, an accepted call that is no review adds no
active core, enlarges none and moves no review date. -/

namespace SaltMdb
open Transactions

variable {env : Env}

/-! ### The boundary -/

def Db.OverdueAt (env : Env) (db : Db) (now : Instant) : Prop :=
  ∃ e ∈ db.entities.rows, e.activeCore = true ∧ isOverdue env e.coreReviewAfter now = true

/-- Some active core is overdue at every time that the clock is still to show. -/
def Overdue (env : Env) (w : World Db Supply) : Prop :=
  ∃ e ∈ w.durable.entities.rows, e.activeCore = true ∧
    ∀ n ≥ w.transient.readings, isOverdue env e.coreReviewAfter (env.clock n) = true

theorem Overdue.at {w : World Db Supply} (overdue : Overdue env w) {n : Nat} (later : w.transient.readings ≤ n) :
    w.durable.OverdueAt env (env.clock n) := by
  obtain ⟨e, member, active, due⟩ := overdue
  exact ⟨e, member, active, due n later⟩

/-- What is due stays due. -/
theorem isOverdue_later {review : Option String} {now later : Instant} (order : now ≤ later)
    (due : isOverdue env review now = true) : isOverdue env review later = true := by
  unfold isOverdue at due ⊢
  split
  · rfl
  · rename_i text
    dsimp only at due
    split
    · rfl
    · rename_i given
      rw [if_neg given] at due
      split at due
      · rfl
      · simp only [decide_eq_true_eq] at due ⊢
        exact le_trans due order

/-- A core that is due is overdue for the calls to come, while the clock does not go back. -/
theorem overdue_of_clock {w : World Db Supply} (forward : Monotone env.clock) (due : w.durable.OverdueAt env (reading env w)) :
    Overdue env w := by
  obtain ⟨e, member, active, due⟩ := due
  exact ⟨e, member, active, fun n later => isOverdue_later (forward later) due⟩

theorem hasOverdueCore_of {db : Db} {now : Instant} (due : db.OverdueAt env now) : ∃ id, hasOverdueCore env db now = some id := by
  obtain ⟨e, member, active, due⟩ := due
  unfold hasOverdueCore
  cases found : (loadActiveCores env db now).find? fun e => isOverdue env e.coreReviewAfter now with
  | some e => exact ⟨e.id, rfl⟩
  | none =>
    have none_ := List.find?_eq_none.mp found e (mem_loadActiveCores.mpr ⟨member, active⟩)
    exact absurd due none_

/-- What the boundary measures of an entry. -/
def entrySize (entry : Option CoreEntry) : Nat := (entry.map fun e => (renderCoreEntry e false).length).getD 0

theorem enforceOverdueBoundary_ok {db : Db} {now : Instant} {entityId : Option EntityId} {state : CoreState} {changed : Bool}
    {prospective : Option CoreEntry} (due : db.OverdueAt env now)
    (h : enforceOverdueBoundary env db now entityId state changed prospective = .ok ()) :
    state.isCore = false ∨ (state.isNewCore = false ∧ changed = false ∧
      entrySize prospective ≤ entrySize (entityId.bind fun id => (db.entities.find id).map (·.coreEntry))) := by
  obtain ⟨id, overdue⟩ := hasOverdueCore_of due
  unfold enforceOverdueBoundary at h
  split at h
  · rename_i plain
    exact .inl (by simpa using plain)
  · rw [overdue] at h
    dsimp only at h
    split at h
    · simp at h
    · rename_i known
      split at h
      · simp at h
      · rename_i unmoved
        split at h
        · simp at h
        · rename_i small
          exact .inr ⟨by simpa using known, by simpa using unmoved, Nat.not_lt.mp small⟩

/-- A derived memory is not core while some core is overdue. -/
theorem resolveDerivedCoreState_overdue {db : Db} {now : Instant} {sources : List EntityId} {declaration : CoreDeclaration}
    {content : String} {scope : Scope} {entry : CoreEntry} {state : CoreState} (due : db.OverdueAt env now)
    (h : resolveDerivedCoreState env db now sources declaration content scope entry = .ok state) : state.isCore = false := by
  obtain ⟨settled, decided, h⟩ := Checks.bind_ok h
  have fresh : settled.isCore = true → settled.isNewCore = true := by
    unfold resolveConsolidationCoreState at decided
    split at decided
    · split at decided
      · simp at decided
      · obtain rfl := Except.ok.inj decided
        exact id
    · obtain rfl := Except.ok.inj decided
      exact id
    · split at decided
      · simp at decided
      · have resolved := Checks.mapError_ok decided
        obtain ⟨_, _, resolved⟩ := Checks.bind_ok resolved
        obtain ⟨_, _, resolved⟩ := Checks.bind_ok resolved
        obtain ⟨_, _, resolved⟩ := Checks.bind_ok resolved
        obtain ⟨_, _, resolved⟩ := Checks.bind_ok resolved
        obtain ⟨_, _, resolved⟩ := Checks.bind_ok resolved
        obtain rfl := Except.ok.inj resolved
        exact fun _ => rfl
  split at h
  · rename_i core
    obtain ⟨_, enforced, _⟩ := Checks.bind_ok h
    rcases enforceOverdueBoundary_ok due (Checks.mapError_ok enforced) with plain | ⟨known, _⟩
    · simp [core] at plain
    · simp [fresh core] at known
  · rename_i plain
    obtain rfl := Except.ok.inj h
    simpa using plain

/-! ### What a call may do to the cores -/

/-- A stored review date stays: the same text, or the same instant as the service writes it. -/
def ReviewStays (env : Env) (before after : Option String) : Prop :=
  ∀ text, before = some text → text ≠ "" →
    after = some text ∨ ∃ due, env.parseIsoUtc text = some due ∧ after = some (env.isoformat due)

/-- Every active core was one before, adds no more to the digest than it did and has its review date. -/
def Db.CoresHeld (env : Env) (d d' : Db) : Prop :=
  ∀ e' ∈ d'.entities.rows, e'.activeCore = true → ∃ e ∈ d.entities.rows, e.id = e'.id ∧ e.activeCore = true ∧
    (∀ due, (renderCoreEntry e'.coreEntry due).length ≤ (renderCoreEntry e.coreEntry due).length) ∧
    ReviewStays env e.coreReviewAfter e'.coreReviewAfter

/-- Every active core was one before, with the entry it has. -/
def Db.CoresKept (d d' : Db) : Prop :=
  ∀ e' ∈ d'.entities.rows, e'.activeCore = true → ∃ e ∈ d.entities.rows, e.activeCore = true ∧ e.coreEntry = e'.coreEntry

variable {d d' : Db}

theorem Db.CoresKept.held (h : d.CoresKept d') : d.CoresHeld env d' := by
  intro e' member active
  obtain ⟨e, before, was, same⟩ := h e' member active
  refine ⟨e, before, congrArg CoreEntry.id same, was, fun due => by rw [same], fun text stored _ => .inl ?_⟩
  have review : e.coreReviewAfter = e'.coreReviewAfter := congrArg CoreEntry.coreReviewAfter same
  rw [← review, stored]

theorem coresKept_of_eq (same : d'.entities = d.entities) : d.CoresKept d' :=
  fun e' member active => ⟨e', same ▸ member, active, rfl⟩

theorem Db.CoresKept.trans {a b c : Db} (first : a.CoresKept b) (second : b.CoresKept c) : a.CoresKept c := by
  intro e' member active
  obtain ⟨e, between, was, same⟩ := second e' member active
  obtain ⟨e₀, before, was₀, same₀⟩ := first e between was
  exact ⟨e₀, before, was₀, same₀.trans same⟩

theorem coresKept_update {sel : Entity → Bool} {f : EntityColumns → EntityColumns}
    (written : d'.entities = d.entities.updateWhere sel f)
    (kept : ∀ e : Entity, ({ e with toEntityColumns := f e.toEntityColumns } : Entity).activeCore = true →
      e.activeCore = true ∧ e.coreEntry = ({ e with toEntityColumns := f e.toEntityColumns } : Entity).coreEntry) :
    d.CoresKept d' := by
  intro e' member active
  rw [written, EntityTable.mem_updateWhere] at member
  obtain ⟨e, before, rfl⟩ := member
  refine ⟨e, before, ?_⟩
  unfold Entity.setIf at active ⊢
  split at active
  · rename_i chosen
    rw [if_pos chosen]
    exact kept e active
  · rename_i spared
    rw [if_neg spared]
    exact ⟨active, rfl⟩

/-- A new row that is no active core. -/
theorem coresKept_append {row : Entity} (free : d.entities.find row.id = none)
    (written : d'.entities = d.entities.append row free) (plain : row.activeCore = false) : d.CoresKept d' := by
  intro e' member active
  rw [written] at member
  rcases List.mem_append.mp member with before | added
  · exact ⟨e', before, active, rfl⟩
  · obtain rfl := List.mem_singleton.mp added
    simp [plain] at active

theorem archived_plain (e : Entity) (now : Instant) :
    ({ e with toEntityColumns := e.toEntityColumns.archive now } : Entity).activeCore = false := by
  simp [Entity.activeCore, Entity.live, EntityColumns.archive]

theorem coresKept_archive {sel : Entity → Bool} {now : Instant}
    (written : d'.entities = d.entities.updateWhere sel (·.archive now)) : d.CoresKept d' :=
  coresKept_update written fun e active => by simp [archived_plain e now] at active

/-- A row that is no core replaces whatever it meets. -/
theorem coresKept_upsert {row : Entity} {f : EntityColumns → EntityColumns} (written : d'.entities = d.entities.upsert row f)
    (plain : row.isCore = false) (updated : ∀ c, (f c).isCore = false) : d.CoresKept d' := by
  unfold EntityTable.upsert at written
  split at written
  · rename_i free
    exact coresKept_append free written (by simp [Entity.activeCore, plain])
  · refine coresKept_update written fun e active => ?_
    simp [Entity.activeCore, updated] at active

theorem coresKept_carries (env : Env) : Carries env Db.CoresKept (fun _ _ => True) (fun _ _ => True) where
  refl := fun _ => coresKept_of_eq rfl
  trans := fun _ _ _ first second => first.trans second
  silent := fun entities _ => coresKept_of_eq entities
  store := fun call => coresKept_of_eq call.selectable.entities
  invalidate := by
    intro args d r d' _ call
    have only : d.OnlyRelations Edge.Selectable d' := call.onlyRelations
    exact coresKept_of_eq only.entities
  archive := fun now _ => coresKept_archive rfl
  names_detail := fun _ => trivial
  names_moved := fun _ _ => trivial
  spares_archive := fun _ _ _ => trivial
  spares_silent := fun _ _ => trivial

theorem renderCoreEntry_due {a b : CoreEntry} (small : entrySize (some a) ≤ entrySize (some b)) (due : Bool) :
    (renderCoreEntry a due).length ≤ (renderCoreEntry b due).length := by
  simp only [entrySize, Option.map_some, Option.getD_some, renderCoreEntry_length, renderedEntryLength, Bool.false_eq_true,
    if_false] at small ⊢
  omega

/-- The update of one row, which stays within what it was. -/
theorem coresHeld_updateId {row : Entity} {f : EntityColumns → EntityColumns} (found : d.entities.find row.id = some row)
    (written : d'.entities = d.entities.updateId row.id f)
    (held : ({ row with toEntityColumns := f row.toEntityColumns } : Entity).activeCore = true → row.activeCore = true ∧
      entrySize (some ({ row with toEntityColumns := f row.toEntityColumns } : Entity).coreEntry) ≤ entrySize (some row.coreEntry) ∧
      ReviewStays env row.coreReviewAfter (f row.toEntityColumns).coreReviewAfter) : d.CoresHeld env d' := by
  intro e' member active
  rw [written] at member
  obtain ⟨e, before, rfl⟩ := EntityTable.mem_updateWhere.mp member
  by_cases chosen : e.id = row.id
  · obtain rfl := EntityTable.id_unique before (EntityTable.find_some found).1 chosen
    unfold Entity.setIf at active ⊢
    simp only [beq_self_eq_true, if_true] at active ⊢
    obtain ⟨was, small, stays⟩ := held active
    exact ⟨e, before, rfl, was, renderCoreEntry_due small, stays⟩
  · unfold Entity.setIf at active ⊢
    simp only [beq_iff_eq, chosen, if_false] at active ⊢
    exact ⟨e, before, rfl, active, fun _ => le_refl _, fun text stored _ => .inl stored⟩

/-! ### Storing -/

theorem resolveCoreReview_stays {existing : Option Entity} {given : Option String} {now : Instant} {review : String}
    (h : resolveCoreReview env existing given now = .ok (review, false)) :
    ReviewStays env (existing.bind (·.coreReviewAfter)) (some review) := by
  intro text stored named
  unfold resolveCoreReview at h
  dsimp only at h
  rw [stored] at h
  cases given with
  | some asked =>
    obtain ⟨parsed, _, h⟩ := Checks.bind_ok h
    obtain ⟨rfl, unchanged⟩ := Prod.mk.inj (Except.ok.inj h)
    have same : text = parsed := by simpa using unchanged
    exact .inl (congrArg some same.symm)
  | none =>
    dsimp only at h
    rw [if_neg named] at h
    obtain ⟨preserved, kept, h⟩ := Checks.bind_ok h
    obtain ⟨rfl, _⟩ := Prod.mk.inj (Except.ok.inj h)
    refine .inr ?_
    unfold validatePreservedReviewAfter at kept
    split at kept
    · rename_i due parsed
      exact ⟨due, parsed, congrArg some (Except.ok.inj kept).symm⟩
    · simp at kept

/-- A date that is not asked for is not counted as changed. -/
theorem resolveCoreReview_omitted {existing : Option Entity} {now : Instant} {review : String} {changed : Bool}
    (h : resolveCoreReview env existing none now = .ok (review, changed)) : changed = false := by
  unfold resolveCoreReview at h
  dsimp only at h
  split at h
  · split at h
    · obtain ⟨_, _, h⟩ := Checks.bind_ok h
      exact (Prod.mk.inj (Except.ok.inj h)).2.symm
    · obtain ⟨_, _, h⟩ := Checks.bind_ok h
      exact (Prod.mk.inj (Except.ok.inj h)).2.symm
  · obtain ⟨_, _, h⟩ := Checks.bind_ok h
    exact (Prod.mk.inj (Except.ok.inj h)).2.symm

/-- What a core state that is settled says of the review date and of the row it is for. -/
theorem resolveStoreCoreState_settled {db : Db} {now : Instant} {existing : Option Entity} {declaration : CoreDeclaration}
    {content : String} {scope : Scope} {state : CoreState}
    (h : resolveStoreCoreState env db now existing declaration content scope = .ok state) :
    (state.isCore = false ∧ declaration.isCore.getD ((existing.map (·.isCore)).getD false) = false) ∨
      (state.isCore = true ∧ state.isNewCore = !(existing.map (·.isCore)).getD false ∧ ∃ review, state.coreReviewAfter = some review ∧
        resolveCoreReview env existing declaration.coreReviewAfter now = .ok (review, state.reviewAfterChanged)) := by
  unfold resolveStoreCoreState at h
  dsimp only at h
  split at h
  · rename_i plain
    split at h
    · simp at h
    · obtain rfl := Except.ok.inj h
      exact .inl ⟨rfl, by simpa using plain⟩
  · split at h
    · simp at h
    · obtain ⟨_, _, h⟩ := Checks.bind_ok h
      obtain ⟨_, _, h⟩ := Checks.bind_ok h
      obtain ⟨⟨review, changed⟩, resolved, h⟩ := Checks.bind_ok h
      obtain ⟨_, _, h⟩ := Checks.bind_ok h
      obtain ⟨_, _, h⟩ := Checks.bind_ok h
      obtain rfl := Except.ok.inj h
      exact .inr ⟨rfl, rfl, review, rfl, resolved⟩

theorem resolveRawCoreState_enforced {db : Db} {now : Instant} {p : StoreProposal} {id : EntityId} {state : CoreState}
    (h : resolveRawCoreState env db now p id = .ok state)
    (live : targetWillBeActive (p.resolvedEntityId.bind db.entities.find) = true) :
    enforceOverdueBoundary env db now p.resolvedEntityId state state.reviewAfterChanged
      (some (p.entry id (p.resolvedEntityId.bind db.entities.find) state)) = .ok () := by
  obtain ⟨settled, decided, h⟩ := Checks.bind_ok h
  dsimp only at h
  rw [if_pos live] at h
  obtain ⟨_, enforced, h⟩ := Checks.bind_ok h
  have same : settled = state := by
    split at h
    · split at h
      · simp at h
      · exact Except.ok.inj h
    · exact Except.ok.inj h
  rw [← same]
  exact Checks.mapError_ok enforced

theorem keepScdHistory_coresKept (p : StoreProposal) (id : EntityId) (existing : Option Entity) :
    Txn.Within Db.CoresKept (keepScdHistory env p id existing) := by
  have carries := coresKept_carries env
  cases existing with
  | none => exact carries.pure _
  | some old =>
    refine carries.when_ (carries.bind (carries.advance _) fun drawn => Txn.within_read_bind fun w => ?_)
    cases inserted : w.durable.entities.insert
        { old with id := id ++ "_h_" ++ .ofList (drawn.toList.take 8), status := .archived } with
    | none => exact carries.refl _
    | some U =>
      obtain ⟨free, rfl⟩ := EntityTable.insert_some inserted
      have added : w.durable.CoresKept { w.durable with entities := w.durable.entities.append _ free } :=
        coresKept_append free rfl (by simp [Entity.activeCore, Entity.live])
      exact added.trans (carries.silent rfl rfl)

theorem storeRawEntity_held {p : StoreProposal} {w w' : World Db Supply} {stored : EntityId × Bool} (overdue : Overdue env w)
    (kept : ∀ row, p.resolvedEntityId.bind w.durable.entities.find = some row → p.skipScdHistory = true)
    (h : (storeRawEntity env p).run w = (.ok stored, w')) : w.durable.CoresHeld env w'.durable := by
  obtain ⟨id, state, u, named, resolved, same, persisted⟩ := storeRawEntity_ok h
  have due := overdue.at (le_refl _)
  have settled := resolveStoreCoreState_settled (resolveRawCoreState_ok resolved)
  have enforced := fun live => enforceOverdueBoundary_ok due (resolveRawCoreState_enforced resolved live)
  cases target : p.resolvedEntityId.bind w.durable.entities.find with
  | none =>
    -- No row was resolved, so a core would be a new one.
    rw [target] at settled enforced
    have plain : state.isCore = false := by
      rcases settled with ⟨plain, _⟩ | ⟨_, fresh, _⟩
      · exact plain
      · rcases enforced rfl with plain | ⟨known, _⟩
        · exact plain
        · simp [fresh] at known
    obtain ⟨v, history, written, _⟩ := persistRawEntity_writes persisted
    have before : u.durable.CoresKept v.durable := within_ok (keepScdHistory_coresKept p id _) history
    rw [same] at before
    exact (before.trans (coresKept_upsert written plain fun _ => plain)).held
  | some row =>
    obtain ⟨given, resolves, found⟩ := Option.bind_eq_some_iff.mp target
    rw [resolves, Option.getD_some] at named
    subst named
    obtain ⟨_, rfl⟩ := EntityTable.find_some found
    obtain ⟨entities, _⟩ := persistRawEntity_entities (fun _ _ => kept row target) persisted
    rw [same, EntityTable.upsert, dif_neg (by simp [found])] at entities
    refine coresHeld_updateId found entities fun active => ?_
    simp only [Entity.activeCore, StoreProposal.update, Entity.live, Bool.and_eq_true] at active
    rw [target] at settled enforced
    rcases settled with ⟨plain, _⟩ | ⟨core, fresh, review, dated, asked⟩
    · simp [plain] at active
    · rcases enforced active.2 with plain | ⟨known, unchanged, small⟩
      · simp [plain] at core
      · rw [fresh] at known
        refine ⟨?_, ?_, ?_⟩
        · simp only [Entity.activeCore, Entity.live, Bool.and_eq_true]
          exact ⟨by simpa using known, active.2⟩
        · have measured : entrySize (some (p.entry row.id (some row) state)) ≤ entrySize (some row.coreEntry) := by
            rw [resolves] at small
            simpa [found] using small
          exact measured
        · rw [unchanged] at asked
          show ReviewStays env row.coreReviewAfter state.coreReviewAfter
          rw [dated]
          exact resolveCoreReview_stays asked

theorem storeMemory_held {mode : Mode} {request : StoreRequest} {w w' : World Db Supply} {answer : StoreAnswer}
    (overdue : Overdue env w) (ok : answer.isOk = true) (h : (storeMemory env mode request).run w = (.ok answer, w')) :
    w.durable.CoresHeld env w'.durable := by
  rcases storeMemory_ok ok h with ⟨_, _, same⟩ | ⟨p, stored, prepared, stores⟩
  · exact (coresKept_of_eq (congrArg Db.entities same)).held
  · have later : Overdue env (tick (draw w)) := by
      obtain ⟨e, member, active, due⟩ := overdue
      exact ⟨e, member, active, fun n order => due n (Nat.le_of_succ_le order)⟩
    exact storeRawEntity_held (w := tick (draw w)) later (fun row target => (prepareStore_existing prepared target).2.2.2) stores

/-! ### Declaring -/

theorem setCoreMemory_held {mode : Mode} {request : SetCoreRequest} {w w' : World Db Supply} {answer : Envelope CoreReceipt}
    (overdue : Overdue env w) (h : (setCoreMemory env mode request).run w = (.ok answer, w')) :
    w.durable.CoresHeld env w'.durable := by
  rcases setCoreMemory_ok h with same | ⟨row, state, now, decided, written, _⟩
  · exact (coresKept_of_eq same).held
  · obtain ⟨found, raw, admitted, details, resolved⟩ := setCoreDecision_admitted decided
    obtain ⟨_, enforced, _⟩ := Checks.bind_ok admitted
    refine coresHeld_updateId found written fun _ => ?_
    rcases enforceOverdueBoundary_ok (overdue.at (le_refl _)) (Checks.mapError_ok enforced) with plain | ⟨known, _, small⟩
    · simp at plain
    · rcases resolveStoreCoreState_settled resolved with ⟨_, plain⟩ | ⟨_, fresh, review, dated, asked⟩
      · simp at plain
      · have was : row.isCore = true := by simpa [fresh] using known
        have measured : entrySize (some (row.entryWith state)) ≤ entrySize (some row.coreEntry) := by simpa [found] using small
        refine ⟨by simp [Entity.activeCore, Entity.live, was, raw], measured, ?_⟩
        rw [resolveCoreReview_omitted asked] at asked
        show ReviewStays env row.coreReviewAfter state.coreReviewAfter
        rw [dated]
        exact resolveCoreReview_stays asked

/-! ### Lineage -/

theorem replaceMemory_held {mode : Mode} {operation : Operation} {request : ReplacementRequest} {w w' : World Db Supply}
    {answer : Envelope ReplacementReceipt} (overdue : Overdue env w) (ok : answer.isOk = true)
    (h : (replaceMemory env mode operation request).run w = (.ok answer, w')) : w.durable.CoresHeld env w'.durable := by
  obtain ⟨plan, receipt, _, written⟩ := replaceMemory_ok ok h
  obtain ⟨state, u, v, _, same, resolved, body, jobs⟩ := replacementWrite_ok written
  have plain := resolveDerivedCoreState_overdue (overdue.at (Nat.le_succ _)) resolved
  obtain ⟨free, entities⟩ := replacementBody_entities body
  have added : u.durable.CoresKept { u.durable with entities := u.durable.entities.append _ free } :=
    coresKept_append free rfl (by simp [Entity.activeCore, ReplacementPlan.row, plain])
  have kept := (added.trans (coresKept_archive entities)).trans (coresKept_of_eq jobs.entities)
  rw [same] at kept
  exact kept.held

theorem consolidationCommit_kept {request : ConsolidationRequest} {plan : ConsolidationPlan} {n : EntityId} {now : Instant}
    {w w' : World Db Supply} {orphaned : List Edge} (due : w.durable.OverdueAt env now)
    (h : (consolidationCommit env request plan n now).run w = (.ok orphaned, w')) : w.durable.CoresKept w'.durable := by
  obtain ⟨state, free, resolved, entities⟩ := consolidationCommit_entities h
  have plain := resolveDerivedCoreState_overdue due resolved
  have added : w.durable.CoresKept { w.durable with entities := w.durable.entities.append _ free } :=
    coresKept_append free rfl (by simp [Entity.activeCore, consolidationRow, plain])
  exact added.trans (coresKept_archive entities)

theorem consolidateMemories_held {mode : Mode} {request : ConsolidationRequest} {w w' : World Db Supply}
    {answer : Envelope ConsolidationReceipt} (overdue : Overdue env w) (ok : answer.isOk = true)
    (h : (consolidateMemories env mode request).run w = (.ok answer, w')) : w.durable.CoresHeld env w'.durable := by
  obtain ⟨plan, orphaned, _, _, written⟩ := consolidateWith_ok ok h
  obtain ⟨_, v, committed, rest⟩ := Txn.bind_ok (retrying_ok.mp written)
  obtain ⟨_, u, cancelled, last⟩ := Txn.bind_ok rest
  obtain ⟨_, rfl⟩ := Prod.mk.inj last
  have jobs : v.durable.OnlyJobs u.durable := within_ok (forEach_onlyJobs (fun _ => setJobs_settles _) _).within cancelled
  have commit : (consolidationCommit env request plan (env.uuid4 w.transient.draws) (reading env w)).run (tick (draw w)) = (.ok _, v) :=
    Txn.atomic_ok.mp committed
  have kept := consolidationCommit_kept (w := tick (draw w)) (overdue.at (le_refl _)) commit
  exact (kept.trans (coresKept_of_eq jobs.entities)).held

theorem commitBulkConsolidationItem_held {measured : Db} {item : ConsolidationItem} {parents : List EntityId}
    {agentId contextId : Option String} {w w' : World Db Supply} {receipt : ConsolidationReceipt} {warnings : List Warning}
    (overdue : Overdue env w)
    (h : (commitBulkConsolidationItem env measured item parents agentId contextId).run w = (.ok (.ok receipt warnings), w')) :
    w.durable.CoresHeld env w'.durable := by
  obtain ⟨plan, orphaned, _, _, committed⟩ := commitBulkConsolidationItem_ok h
  have kept := consolidationCommit_kept (w := tick (draw w)) (overdue.at (le_refl _)) committed
  exact kept.held

/-- The items of a batch, each committed on the world the items before it left. -/
inductive ItemsHeld (env : Env) (measured : Db) (agentId contextId : Option String) :
    List (ConsolidationItem × List EntityId) → World Db Supply → World Db Supply → Prop where
  | nil (w : World Db Supply) : ItemsHeld env measured agentId contextId [] w w
  | cons {item : ConsolidationItem} {parents : List EntityId} {rest : List (ConsolidationItem × List EntityId)}
      {w v w' : World Db Supply} {receipt : ConsolidationReceipt} {warnings : List Warning}
      (committed : (commitBulkConsolidationItem env measured item parents agentId contextId).run w =
        (.ok (.ok receipt warnings), v))
      (held : Overdue env w → w.durable.CoresHeld env v.durable) (others : ItemsHeld env measured agentId contextId rest v w') :
      ItemsHeld env measured agentId contextId ((item, parents) :: rest) w w'

theorem writeBulkConsolidationItems_held {measured : Db} {agentId contextId : Option String} {index : Nat}
    {items : List (ConsolidationItem × List EntityId)} {w w' : World Db Supply} {receipts : List ConsolidationReceipt}
    (h : (writeBulkConsolidationItems env measured agentId contextId index items).run w = (.ok receipts, w')) :
    ItemsHeld env measured agentId contextId items w w' := by
  induction items generalizing index w receipts with
  | nil =>
    obtain ⟨_, rfl⟩ := Prod.mk.inj h
    exact .nil w
  | cons entry rest ih =>
    obtain ⟨item, parents⟩ := entry
    unfold writeBulkConsolidationItems at h
    obtain ⟨answer, v, first, others⟩ := Txn.bind_ok h
    cases answer with
    | ok receipt warnings =>
      obtain ⟨later, u, rest, last⟩ := Txn.bind_ok others
      obtain ⟨_, rfl⟩ := Prod.mk.inj last
      exact .cons first (fun overdue => commitBulkConsolidationItem_held overdue first) (ih rest)
    | rejected errors => simp at others
    | failure text => simp at others

theorem writeBulkConsolidations_held {mode : Mode} {measured : Db} {agentId contextId : Option String}
    {items : List (ConsolidationItem × List EntityId)} {w w' : World Db Supply} {receipts : List ConsolidationReceipt}
    (h : (writeTransactionRetrying mode (writeBulkConsolidations env measured agentId contextId items)).run w = (.ok receipts, w')) :
    ∃ v, ItemsHeld env measured agentId contextId items w v ∧ v.durable.OnlyJobs w'.durable := by
  obtain ⟨_, v, committed, rest⟩ := Txn.bind_ok (retrying_ok.mp h)
  obtain ⟨_, u, cancelled, last⟩ := Txn.bind_ok rest
  obtain ⟨_, rfl⟩ := Prod.mk.inj last
  refine ⟨v, writeBulkConsolidationItems_held (Txn.atomic_ok.mp committed), ?_⟩
  exact within_ok (forEach_onlyJobs (fun _ => setJobs_settles _) _).within cancelled

theorem applyConsolidations_held {mode : Mode} {items : List (Option ConsolidationItem)} {agentId contextId : Option String}
    {w w' : World Db Supply} {answer : Envelope (List ConsolidationReceipt)} (ok : answer.isOk = true)
    (h : (applyConsolidations env mode items agentId contextId).run w = (.ok answer, w')) :
    ∃ resolved v, applyConsolidationsPlan env w.durable items = .ok resolved ∧
      ItemsHeld env w.durable agentId contextId resolved w v ∧ v.durable.OnlyJobs w'.durable := by
  unfold applyConsolidations at h
  rw [Tx.run_db_bind] at h
  cases planned : applyConsolidationsPlan env w.durable items with
  | error e =>
    rw [planned] at h
    rw [← Except.ok.inj (Prod.mk.inj h).1] at ok
    exact absurd ok Bool.false_ne_true
  | ok resolved =>
    rw [planned] at h
    dsimp only at h
    rw [Txn.run_tryCatch] at h
    split at h
    · rename_i ran
      obtain ⟨receipts, u, written, last⟩ := Txn.bind_ok ran
      obtain ⟨_, rfl⟩ := Prod.mk.inj last
      obtain ⟨_, rfl⟩ := Prod.mk.inj h
      obtain ⟨v, held, jobs⟩ := writeBulkConsolidations_held written
      exact ⟨resolved, v, rfl, held, jobs⟩
    · rename_i e u _
      unfold applyConsolidationsFailure at h
      split at h
      · rw [← Except.ok.inj (Prod.mk.inj h).1] at ok
        exact absurd ok Bool.false_ne_true
      · cases mode with
        | coordinator => simp at h
        | direct =>
          rw [← Except.ok.inj (Prod.mk.inj h).1] at ok
          exact absurd ok Bool.false_ne_true

theorem bulkCommitConsolidation_held {mode : Mode} {items : List (Option ConsolidationItem)} {agentId contextId : Option String}
    {w w' : World Db Supply} {answer : Envelope (List ConsolidationReceipt)} (ok : answer.isOk = true)
    (h : (bulkCommitConsolidation env mode items agentId contextId).run w = (.ok answer, w')) :
    ∃ given resolved v, items.mapM id = some given ∧ prepareBulkConsolidationParents env w.durable 0 given = .ok resolved ∧
      ItemsHeld env w.durable agentId contextId resolved w v ∧ v.durable.OnlyJobs w'.durable := by
  have refused : ∀ {text : String} {u v : World Db Supply},
      (Except.ok (Envelope.failure text), u) = ((Except.ok answer : Except Exc (Envelope (List ConsolidationReceipt))), v) → False := by
    intro text u v same
    rw [← Except.ok.inj (Prod.mk.inj same).1] at ok
    exact absurd ok Bool.false_ne_true
  unfold bulkCommitConsolidation at h
  rw [Tx.run_db_bind] at h
  split at h
  · exact (refused h).elim
  · cases listed : items.mapM id with
    | none =>
      rw [listed] at h
      exact (refused h).elim
    | some given =>
      rw [listed] at h
      dsimp only at h
      cases prepared : prepareBulkConsolidationParents env w.durable 0 given with
      | error failed =>
        rw [prepared] at h
        exact (refused h).elim
      | ok resolved =>
        rw [prepared] at h
        dsimp only at h
        rw [Txn.run_tryCatch] at h
        split at h
        · rename_i ran
          obtain ⟨receipts, u, written, last⟩ := Txn.bind_ok ran
          obtain ⟨_, rfl⟩ := Prod.mk.inj last
          obtain ⟨_, rfl⟩ := Prod.mk.inj h
          obtain ⟨v, held, jobs⟩ := writeBulkConsolidations_held written
          exact ⟨given, resolved, v, rfl, prepared, held, jobs⟩
        · exact (refused h).elim

/-! ### Calls -/

/-- The calls that the boundary stands before as a whole: no review, and no batch of merges. -/
def Call.bounded : Call → Bool
  | .reviewCoreMemory _ => false
  | .applyConsolidations _ _ _ => false
  | .bulkCommitConsolidation _ _ _ => false
  | _ => true

theorem metadata_kept (mode : Mode) (entityId : Option String) (patch : Option MetadataPatch) (agentId : Option String) :
    Txn.Within Db.CoresKept (updateMemoryMetadata env mode entityId patch agentId) :=
  (coresKept_carries env).updateMemoryMetadata
    (fun _ _ _ _ => coresKept_update rfl fun _ active => ⟨active, rfl⟩) mode entityId patch agentId

theorem next_held {mode : Mode} {call : Call} {w : World Db Supply} (bounded : call.bounded = true) (overdue : Overdue env w)
    (accepted : Call.Accepted env (mode, call) w) : w.durable.CoresHeld env (Call.next env w (mode, call)).durable := by
  have ran := accepted.ran
  -- The calls that write to no memory but by an archival or to its metadata.
  have plain : (∀ request, call ≠ .storeMemory request) → (∀ request, call ≠ .setCoreMemory request) →
      (∀ operation request, call ≠ .replaceMemory operation request) → (∀ request, call ≠ .consolidateMemories request) →
      w.durable.CoresHeld env (Call.next env w (mode, call)).durable := by
    intro store declare replace consolidate
    refine ((coresKept_carries env).next ⟨?_, ?_, ?_, ?_, ?_, ?_, ?_, ?_⟩ (allowed_always call w)).held
    · exact fun request same => absurd same (store request)
    · exact fun request same => absurd same (declare request)
    · rintro request rfl
      exact absurd bounded Bool.false_ne_true
    · exact fun entityId patch agentId _ => metadata_kept mode entityId patch agentId w
    · exact fun operation request same => absurd same (replace operation request)
    · exact fun request same => absurd same (consolidate request)
    · rintro items agentId contextId rfl
      exact absurd bounded Bool.false_ne_true
    · rintro items agentId contextId rfl
      exact absurd bounded Bool.false_ne_true
  cases call with
  | storeMemory request =>
    obtain ⟨answer, ran, ok⟩ := reports_true ran
    exact storeMemory_held overdue ok ran
  | setCoreMemory request =>
    obtain ⟨answer, ran, _⟩ := reports_true ran
    exact setCoreMemory_held overdue ran
  | replaceMemory operation request =>
    dsimp only [Call.service] at ran
    obtain ⟨answer, ran, ok⟩ := reports_true ran
    exact replaceMemory_held overdue ok ran
  | consolidateMemories request =>
    obtain ⟨answer, ran, ok⟩ := reports_true ran
    exact consolidateMemories_held overdue ok ran
  | _ => exact plain (by simp) (by simp) (by simp) (by simp)

/-- While a core is overdue an accepted call that is no review holds the active cores, and so does each item of a batch
that starts while one is. -/
theorem overdue_holds (env : Env) (w : World Db Supply) :
    (∀ mode (call : Call), call.bounded = true → Overdue env w → Call.Accepted env (mode, call) w →
      w.durable.CoresHeld env (Call.next env w (mode, call)).durable) ∧
    (∀ mode items agentId contextId, Call.Accepted env (mode, .applyConsolidations items agentId contextId) w →
      ∃ resolved v, applyConsolidationsPlan env w.durable items = .ok resolved ∧
        ItemsHeld env w.durable agentId contextId resolved w v ∧
        v.durable.OnlyJobs (Call.next env w (mode, .applyConsolidations items agentId contextId)).durable) ∧
    ∀ mode items agentId contextId, Call.Accepted env (mode, .bulkCommitConsolidation items agentId contextId) w →
      ∃ given resolved v, items.mapM id = some given ∧ prepareBulkConsolidationParents env w.durable 0 given = .ok resolved ∧
        ItemsHeld env w.durable agentId contextId resolved w v ∧
        v.durable.OnlyJobs (Call.next env w (mode, .bulkCommitConsolidation items agentId contextId)).durable := by
  refine ⟨fun mode call => next_held, fun mode items agentId contextId accepted => ?_, fun mode items agentId contextId accepted => ?_⟩
  · obtain ⟨answer, ran, ok⟩ := reports_true accepted.ran
    exact applyConsolidations_held ok ran
  · obtain ⟨answer, ran, ok⟩ := reports_true accepted.ran
    exact bulkCommitConsolidation_held ok ran

/-! ### A batch that adds a core -/

theorem consolidateWith_committed {bulk : Option BulkContext} {request : ConsolidationRequest}
    {commit : ConsolidationPlan → EntityId → Instant → Tx (List Edge)} {w w' : World Db Supply} {plan : ConsolidationPlan}
    {orphaned : List Edge} (planned : consolidationPlan env w.durable bulk request = .ok plan)
    (committed : (commit plan (env.uuid4 w.transient.draws) (reading env (draw w))).run (tick (draw w)) = (.ok orphaned, w')) :
    (consolidateWith env bulk request commit).run w =
      (.ok (.ok (consolidationReceipt (env.uuid4 w.transient.draws) orphaned) []), w') := by
  unfold consolidateWith
  rw [Tx.run_db_bind, planned]
  dsimp only
  rw [Tx.run_uuid4_bind, Tx.run_now_bind, Txn.run_tryCatch, Txn.bind_run_ok committed]
  rfl

theorem consolidationCommit_ran {request : ConsolidationRequest} {plan : ConsolidationPlan} {n : EntityId} {now : Instant}
    {state : CoreState} {w w' : World Db Supply} {orphaned : List Edge}
    (unmoved : consolidationRevalidate w.durable plan = .ok ())
    (resolved : resolveDerivedCoreState env w.durable now plan.resolvedParents request.core plan.content.redactedContent
      request.scope (consolidationEntry request plan n) = .ok state)
    (body : (consolidationBody env request plan n now state).run w = (.ok orphaned, w')) :
    (consolidationCommit env request plan n now).run w = (.ok orphaned, w') := by
  unfold consolidationCommit
  rw [Tx.run_db_bind, unmoved, Txn.bind_run_ok (Txn.run_ofExcept _ _), resolved, Txn.bind_run_ok (Txn.run_ofExcept _ _)]
  exact body

theorem applyConsolidations_committed {items : List (Option ConsolidationItem)} {agentId contextId : Option String}
    {resolved : List (ConsolidationItem × List EntityId)} {receipts : List ConsolidationReceipt} {w v : World Db Supply}
    (planned : applyConsolidationsPlan env w.durable items = .ok resolved)
    (written : (writeBulkConsolidationItems env w.durable agentId contextId 0 resolved).run w = (.ok receipts, v)) :
    ∃ w', (Call.applyConsolidations items agentId contextId).run env .direct w = (.ok true, w') ∧ v.durable.OnlyJobs w'.durable := by
  have cancels : Txn.Settles Db.OnlyJobs (Txn.forEach cancelRetrievalEmbeddingJobsForEntity (resolved.flatMap (·.2))) :=
    forEach_onlyJobs (fun _ => setJobs_settles _) _
  obtain ⟨_, w', cancelled, jobs⟩ := cancels v
  have body : (writeBulkConsolidations env w.durable agentId contextId resolved).run w = (.ok receipts, w') := by
    unfold writeBulkConsolidations
    rw [Txn.bind_run_ok (m := savepoint _) (Txn.atomic_ok.mpr written), Txn.bind_run_ok cancelled]
    rfl
  have ran : (applyConsolidations env .direct items agentId contextId).run w = (.ok (.ok receipts []), w') := by
    unfold applyConsolidations
    rw [Tx.run_db_bind, planned]
    dsimp only
    rw [Txn.run_tryCatch, Txn.bind_run_ok (retrying_ok.mpr body)]
    rfl
  exact ⟨w', Txn.bind_run_ok ran, jobs⟩

def overdueRow : Entity :=
  { memoryRow "rule" "Rule" "keep it short" with
    isCore := true
    coreReason := some coreReason
    coreExitCondition := some coreExit
    coreReviewAfter := some "1" }

/-- A core that is overdue, and three notes. -/
def overdueWorld : World Db Supply :=
  ⟨{ Db.init with
      entities := ⟨[overdueRow, memoryRow "first" "First" "one", memoryRow "second" "Second" "two",
        memoryRow "third" "Third" "three"], by decide⟩ }, ⟨0, 0⟩⟩

def mergeItem (parents : List String) (title content : String) (core : CoreDeclaration) : ConsolidationItem where
  parentIds := parents
  title := some title
  content := some content
  tags := []
  scope := .shared
  overrideJustification := none
  agentId := none
  contextId := none
  core := core

/-- The overdue core becomes part of an ordinary memory. -/
def demotingItem : ConsolidationItem := mergeItem ["rule", "first"] "Plain" "one rule" { undeclared with isCore := some false }

/-- Two notes become a core. -/
def promotingItem : ConsolidationItem :=
  mergeItem ["second", "third"] "New rule" "two and three" ⟨some true, some coreReason, some coreExit, none, none⟩

def mergeBatch : Call := .applyConsolidations [some demotingItem, some promotingItem] (some "agent") none

theorem overdueWorld_overdue : Overdue .dated overdueWorld := by
  refine ⟨overdueRow, List.mem_cons_self, rfl, fun n _ => ?_⟩
  have parsed : Env.dated.parseIsoUtc "1" = some 1 := by decide
  have past : (1 : Instant) ≤ Env.dated.clock n := by
    show (1 : Int) ≤ 1767225600000000 + n * 1000000
    omega
  show isOverdue .dated (some "1") (Env.dated.clock n) = true
  unfold isOverdue
  simp [parsed, past]

/-- The batch after its first item: no core is left that is active. -/
def demotedWorld : World Db Supply :=
  ((commitBulkConsolidationItem .dated overdueWorld.durable demotingItem ["rule", "first"] (some "agent") none).run
    overdueWorld).2

def promotingRequest : ConsolidationRequest := promotingItem.request ["second", "third"] (some "agent") none

def promotingPlan : Except Error ConsolidationPlan :=
  consolidationPlan .dated demotedWorld.durable (some ⟨overdueWorld.durable, ["second", "third"]⟩) promotingRequest

def newCoreState : CoreState :=
  ⟨true, true, false, some coreReason, some coreExit, some (Env.dated.isoformat (1767225601000000 + days 14)), [], []⟩

/-- What the second item settles, and the core it leaves. -/
theorem promotingItem_steps :
    (promotingPlan.toOption.map fun plan => (consolidationRevalidate demotedWorld.durable plan).toOption) = some (some ()) ∧
    (promotingPlan.toOption.bind fun plan => (resolveDerivedCoreState .dated demotedWorld.durable 1767225601000000
      plan.resolvedParents promotingRequest.core plan.content.redactedContent promotingRequest.scope
      (consolidationEntry promotingRequest plan (Env.dated.uuid4 1))).toOption) = some newCoreState ∧
    (promotingPlan.toOption.map fun plan =>
      let ran := (consolidationBody .dated promotingRequest plan (Env.dated.uuid4 1) 1767225601000000 newCoreState).run
        (tick (draw demotedWorld))
      ran.1.toOption.isSome && ran.2.durable.entities.rows.any fun e => e.activeCore && e.id == Env.dated.uuid4 1) = some true := by
  simp only [resolveDerivedCoreState, checkCapacityAdmission, renderPessimistic_length]
  refine ⟨?_, ?_, ?_⟩
  · decide +kernel
  · decide +kernel
  · decide +kernel

theorem demotingItem_committed : ∃ receipt warnings,
    (commitBulkConsolidationItem .dated overdueWorld.durable demotingItem ["rule", "first"] (some "agent") none).run
      overdueWorld = (.ok (.ok receipt warnings), demotedWorld) := by
  have accepted : (((commitBulkConsolidationItem .dated overdueWorld.durable demotingItem ["rule", "first"] (some "agent")
      none).run overdueWorld).1.toOption.map (·.isOk)) = some true := by decide +kernel
  obtain ⟨answer, returned, ok⟩ := Option.map_eq_some_iff.mp accepted
  cases answer with
  | ok receipt warnings => exact ⟨receipt, warnings, Prod.ext (ok_of_toOption returned) rfl⟩
  | rejected errors => exact absurd ok Bool.false_ne_true
  | failure text => exact absurd ok Bool.false_ne_true

theorem promotingItem_committed : ∃ receipt warnings v,
    (commitBulkConsolidationItem .dated overdueWorld.durable promotingItem ["second", "third"] (some "agent") none).run
      demotedWorld = (.ok (.ok receipt warnings), v) ∧
    ∃ e ∈ v.durable.entities.rows, e.activeCore = true ∧ e.id = Env.dated.uuid4 1 := by
  obtain ⟨unmoved, resolved, body⟩ := promotingItem_steps
  obtain ⟨plan, planned, unmoved⟩ := Option.map_eq_some_iff.mp unmoved
  rw [planned] at resolved body
  have drawn : demotedWorld.transient = ⟨1, 1⟩ := by decide +kernel
  have clock : reading .dated (draw demotedWorld) = 1767225601000000 := by
    unfold reading draw
    rw [drawn]
    rfl
  cases ran : (consolidationBody .dated promotingRequest plan (Env.dated.uuid4 1) 1767225601000000 newCoreState).run
      (tick (draw demotedWorld)) with
  | mk result v =>
    have body := Option.some.inj body
    simp only [ran, Bool.and_eq_true] at body
    obtain ⟨returned, added⟩ := body
    obtain ⟨orphaned, returned⟩ := Option.isSome_iff_exists.mp returned
    rw [ok_of_toOption returned] at ran
    have commit : (consolidationCommit .dated promotingRequest plan (Env.dated.uuid4 demotedWorld.transient.draws)
        (reading .dated (draw demotedWorld))).run (tick (draw demotedWorld)) = (.ok orphaned, v) := by
      rw [clock, drawn]
      exact consolidationCommit_ran (w := tick (draw demotedWorld)) (ok_of_toOption unmoved) (ok_of_toOption resolved) ran
    have answered := consolidateWith_committed (w := demotedWorld) (ok_of_toOption planned) commit
    obtain ⟨e, member, facts⟩ := List.any_eq_true.mp added
    simp only [Bool.and_eq_true, beq_iff_eq] at facts
    exact ⟨_, _, v, answered, e, member, facts⟩

theorem mergeBatch_ran : ∃ w', mergeBatch.run .dated .direct overdueWorld = (.ok true, w') ∧
    ∃ e ∈ w'.durable.entities.rows, e.activeCore = true ∧ e.id = Env.dated.uuid4 1 := by
  obtain ⟨first, _, demoted⟩ := demotingItem_committed
  obtain ⟨second, _, v, promoted, e', member, active, named⟩ := promotingItem_committed
  have later : (writeBulkConsolidationItems .dated overdueWorld.durable (some "agent") none 1
      [(promotingItem, ["second", "third"])]).run demotedWorld = (.ok [second], v) := by
    rw [writeBulkConsolidationItems, Txn.bind_run_ok promoted]
    rfl
  have written : (writeBulkConsolidationItems .dated overdueWorld.durable (some "agent") none 0
      [(demotingItem, ["rule", "first"]), (promotingItem, ["second", "third"])]).run overdueWorld = (.ok [first, second], v) := by
    rw [writeBulkConsolidationItems, Txn.bind_run_ok demoted]
    dsimp only
    rw [Txn.bind_run_ok later]
    rfl
  have planned : (applyConsolidationsPlan .dated overdueWorld.durable [some demotingItem, some promotingItem]).toOption =
      some [(demotingItem, ["rule", "first"]), (promotingItem, ["second", "third"])] := by decide
  obtain ⟨w', ran, jobs⟩ := applyConsolidations_committed (ok_of_toOption planned) written
  refine ⟨w', ran, e', ?_, active, named⟩
  rw [jobs.entities]
  exact member

/-- The batch is accepted while a core is overdue, and its second item adds an active core. -/
theorem mergeBatch_addsCore : Overdue .dated overdueWorld ∧ Call.Accepted .dated (.direct, mergeBatch) overdueWorld ∧
    ∃ e' ∈ (Call.next .dated overdueWorld (.direct, mergeBatch)).durable.entities.rows, e'.activeCore = true ∧
      ∀ e ∈ overdueWorld.durable.entities.rows, e.id ≠ e'.id := by
  obtain ⟨w', ran, e', member, active, named⟩ := mergeBatch_ran
  obtain ⟨accepted, reached⟩ : Call.Accepted .dated (.direct, mergeBatch) overdueWorld ∧
      Call.next .dated overdueWorld (.direct, mergeBatch) = w' := accepted_next ran
  refine ⟨overdueWorld_overdue, accepted, e', ?_, active, ?_⟩
  · rw [reached]
    exact member
  · rw [named]
    decide

theorem overdueWorld_held :
    overdueWorld.durable.CoresHeld .dated
      (Call.next .dated overdueWorld (.direct, .archiveMemory (some "first") (some "agent"))).durable ∧
    ∃ resolved v, applyConsolidationsPlan .dated overdueWorld.durable [some demotingItem, some promotingItem] = .ok resolved ∧
      ItemsHeld .dated overdueWorld.durable (some "agent") none resolved overdueWorld v ∧
      v.durable.OnlyJobs (Call.next .dated overdueWorld (.direct, mergeBatch)).durable := by
  obtain ⟨single, batch, _⟩ := overdue_holds .dated overdueWorld
  obtain ⟨w', ran, _⟩ := mergeBatch_ran
  have archived : Call.Accepted .dated (.direct, .archiveMemory (some "first") (some "agent")) overdueWorld := by
    unfold Call.Accepted
    decide
  have merged : Call.Accepted .dated (.direct, mergeBatch) overdueWorld := (accepted_next ran).1
  exact ⟨single .direct _ rfl overdueWorld_overdue archived, batch .direct _ _ _ merged⟩

end SaltMdb
